/-
The time for which a breaker stays open.

An open breaker remembers the instant of its last opening, whatever has happened to
it before, and it never admits more probes than it may (`World.Timed`). Neither
depends on how periods are numbered, so this is said of all runs, however long.

* **`BreakerRun.timed`** — it is so in every scene that a new breaker can come to;
* **`open_window`** — at every moment of every run, calls that reach an open breaker
  too early are turned away, and nothing changes. The first call after that makes it
  half-open and is itself a probe. A half-open breaker turns a call away iff all its
  probes are admitted.
-/
import CallPolicy.Proofs.PolicyBreaker

namespace CallPolicy

open Trace Breaker Operation

variable {key : Nat} {s : BreakerSettings} {site : Site} {w w' : World} {b : Breaker} {p : Permit}
  {r : Result}

/-! ### The time of the last opening -/

/-- An outcome leaves the number of probes admitted, or sets it back, or takes one
away. -/
theorem Breaker.record_admitted (s : BreakerSettings) (now : Nat) (p : Permit) (o : Outcome)
    (b : Breaker) : (b.record s now p o).admitted = b.admitted ∨
      (b.record s now p o).admitted = 0 ∨
      (b.record s now p o).admitted = saturatingPred b.admitted := by
  unfold record
  split
  · exact .inl rfl
  · cases b.state <;> cases o <;> dsimp only <;> repeat' split
    all_goals simp

/-- The breaker of a policy knows when it last opened, if it is open, and has not
admitted more probes than it may. -/
structure World.Timed (key : Nat) (s : BreakerSettings) (w : World) : Prop where
  opened : (w.breaker key).state = .open →
    ∃ o ≤ w.now, (w.breaker key).openedAt = some o ∧ lastOpening key w.trace = some o
  limit : (w.breaker key).admitted ≤ s.probes

namespace World.Timed

/-- Time passes, and entries are added that tell of no change of state. -/
theorem quiet (h : w.Timed key s)
    (hw : w.Keeps (fun gates => (gates key).breaker) (fun e => (e.change? key).isSome) w') :
    w'.Timed key s := by
  obtain ⟨es, htr, hsome⟩ := hw.trace
  have hb : w'.breaker key = w.breaker key := hw.view
  have hes : ∀ e ∈ es, e.change? key = none := fun e he => by simpa using hsome e he
  constructor
  · rw [hb, htr, lastOpening_append hes]
    intro hopen
    obtain ⟨o, ho, hat, hlast⟩ := h.opened hopen
    exact ⟨o, ho.trans hw.now, hat, hlast⟩
  · rw [hb]
    exact h.limit

/-- The breaker changes, and remembers the instant if it opens. -/
theorem setBreaker (h : w.Timed site.origin.key s)
    (hopened : b.state = (w.breaker site.origin.key).state ∧
        b.openedAt = (w.breaker site.origin.key).openedAt ∨
      b.state ≠ (w.breaker site.origin.key).state ∧ (b.state = .open → b.openedAt = some w.now))
    (hlimit : b.admitted ≤ s.probes) : (w.setBreaker site b).Timed site.origin.key s := by
  constructor
  · rw [breaker_setBreaker, setBreaker_now, setBreaker_trace,
      show (w.gatesOf site).breaker = w.breaker site.origin.key from rfl]
    intro hopen
    rcases hopened with ⟨hsame, hat⟩ | ⟨hne, hat⟩
    · rw [if_pos hsame, hat]
      exact h.opened (hsame ▸ hopen)
    · rw [if_neg hne]
      refine ⟨w.now, Nat.le_refl _, hat hopen, ?_⟩
      rw [lastOpening, List.find?_cons_of_pos (by simp [Entry.change?, hopen])]
      rfl
  · rw [breaker_setBreaker]
    exact hlimit

/-- A call arrives, and no more probes are admitted than there may be. -/
theorem arrive (h : w.Timed site.origin.key s)
    (hb : b = { w.arrival s site.origin.key with admitted := b.admitted })
    (hlimit : b.admitted ≤ s.probes) : (w.setBreaker site b).Timed site.origin.key s := by
  refine h.setBreaker ?_ hlimit
  -- recovering leaves the instant of the last opening alone
  rcases Breaker.recover_cases s w.now (w.breaker site.origin.key) with hr | ⟨hopen, -, hr⟩
  · left
    rw [hb, arrival, hr]
    exact ⟨rfl, rfl⟩
  · right
    rw [hb, arrival, hr, hopen]
    refine ⟨?_, ?_⟩ <;> rintro ⟨⟩

theorem arrival_limit (h : w.Timed key s) : (w.arrival s key).admitted ≤ s.probes := by
  rcases Breaker.recover_cases s w.now (w.breaker key) with hr | ⟨-, -, hr⟩
  · rw [arrival, hr]
    exact h.limit
  · rw [arrival, hr, UInt32.le_iff_toNat_le]
    exact Nat.zero_le _

theorem grant (h : w.Timed site.origin.key s) (hw : acquirePermit site s w = (.ok p, w')) :
    w'.Timed site.origin.key s := by
  obtain ⟨b, hi, rfl⟩ := acquirePermit_ok hw
  have harrive : (w.setBreaker site b).Timed site.origin.key s := by
    obtain ⟨-, hk⟩ | ⟨-, hk⟩ | ⟨-, hlt, hk⟩ | ⟨-, -, hk⟩ :=
      Breaker.issue_cases s (w.arrival s site.origin.key) <;> rw [hk] at hi <;> cases hi
    · exact h.arrive rfl h.arrival_limit
    · refine h.arrive rfl ?_
      have hlt' := UInt32.lt_iff_toNat_lt.mp hlt
      rw [UInt32.le_iff_toNat_le, toNat_succ_of_lt hlt']
      exact hlt'
  exact harrive.quiet (.note _ _ rfl)

theorem refuse (h : w.Timed site.origin.key s) (hw : acquirePermit site s w = (.error r, w')) :
    w'.Timed site.origin.key s := by
  obtain ⟨-, -, rfl⟩ := acquirePermit_error hw
  refine (h.arrive rfl h.arrival_limit).quiet (.emit _ site .circuitRefused ?_)
  simp [Entry.change?, Event.reached?]

theorem settle (h : w.Timed site.origin.key s) (p : Permit) (o : Outcome) :
    (w.settlePermit site s p o).Timed site.origin.key s := by
  have hnote : (w.note (.gate site (.permitSettled p o))).Timed site.origin.key s :=
    h.quiet (.note w _ rfl)
  refine hnote.setBreaker ?_ ?_
  · obtain ⟨hsame, -, hat⟩ | ⟨hne, -, hwhere⟩ :=
      Breaker.record_cases s w.now p o (w.breaker site.origin.key)
    · exact .inl ⟨hsame, hat⟩
    · refine .inr ⟨hne, fun hopen => ?_⟩
      rcases hwhere with ⟨-, hat⟩ | ⟨hclosed, -⟩
      · exact hat
      · cases hclosed.symm.trans hopen
  · have hlimit := UInt32.le_iff_toNat_le.mp h.limit
    rw [UInt32.le_iff_toNat_le]
    rcases Breaker.record_admitted s w.now p o (w.breaker site.origin.key) with hr | hr | hr
    · exact (congrArg UInt32.toNat hr).trans_le hlimit
    · exact (congrArg UInt32.toNat hr).trans_le (Nat.zero_le _)
    · refine (congrArg UInt32.toNat hr).trans_le ?_
      rw [toNat_saturatingPred]
      exact (Nat.sub_le _ _).trans hlimit

end World.Timed

theorem BreakerMove.site_of_mem {x y : BreakerScene} (m : BreakerMove key s x y)
    (h : ∀ l ∈ x.live, l.1.origin.key = key) : ∀ l ∈ y.live, l.1.origin.key = key := by
  cases m with
  | grant hkey fresh hw =>
    intro l hl
    rcases Multiset.mem_cons.mp hl with rfl | hl
    · exact hkey
    · exact h l hl
  | refuse hkey hw => exact h
  | settle w live site p o => exact fun l hl => h l (Multiset.mem_cons_of_mem hl)
  | drop w live site p => exact fun l hl => h l (Multiset.mem_cons_of_mem hl)
  | elsewhere he => exact h

/-- **The breaker of a run is timed**, and its permits were issued on behalf of calls
through its policy. -/
theorem BreakerRun.timed {x : BreakerScene} (h : BreakerRun key s x) :
    (∀ l ∈ x.live, l.1.origin.key = key) ∧ x.world.Timed key s := by
  -- the sites are carried along, since a permit names its breaker by its site only
  induction h with
  | start w hnew hclean =>
    refine ⟨nofun, ?_, ?_⟩ <;> rw [hnew]
    · nofun
    · exact UInt32.le_iff_toNat_le.mpr (Nat.zero_le _)
  | @move x y _ m ih =>
    obtain ⟨hsites, ih⟩ := ih
    refine ⟨m.site_of_mem hsites, ?_⟩
    cases m with
    | grant hkey fresh hw =>
      subst hkey
      exact ih.grant hw
    | refuse hkey hw =>
      subst hkey
      exact ih.refuse hw
    | settle w live site p o =>
      obtain rfl := hsites _ (Multiset.mem_cons_self _ _)
      exact ih.settle p o
    | drop w live site p =>
      obtain rfl := hsites _ (Multiset.mem_cons_self _ _)
      exact ih.settle p .ignored
    | elsewhere he =>
      refine ih.quiet (he.mono fun e hconcerns => ?_)
      rw [Entry.change?_of_not_concerns hconcerns]
      rfl

/-! ### Calls that arrive -/

/-- A call is turned away by a breaker that does not recover: it is told so, and
nothing else happens. -/
theorem acquirePermit_turned_away
    (hrecover : w.arrival s site.origin.key = w.breaker site.origin.key)
    (hi : ((w.breaker site.origin.key).issue s).1 = none) :
    acquirePermit site s w = (.error (.error .circuitOpen), w.emit site .circuitRefused) := by
  have hissue : (w.arrival s site.origin.key).issue s = (none, w.breaker site.origin.key) := by
    rw [hrecover]
    cases hb : (w.breaker site.origin.key).issue s with
    | mk permit b =>
      rw [hb] at hi
      obtain rfl : permit = none := hi
      rw [eq_of_issue_none hb]
  unfold acquirePermit
  rw [show (w.gatesOf site).breaker.acquire s w.now = _ from hissue]
  show (Except.error _, (w.setBreaker site (w.gatesOf site).breaker).emit site .circuitRefused) = _
  rw [World.setBreaker_self]

/-- The first call after the recovery time makes the breaker half-open, which is told
of once, and is itself a probe. -/
theorem acquirePermit_recovered (site : Site) (hprobes : 0 < s.probes.toNat)
    (hopen : (w.breaker site.origin.key).state = .open)
    (hlate : s.recovery.nanos ≤ (w.breaker site.origin.key).openFor w.now) :
    ∃ w', acquirePermit site s w = (.ok ⟨(w.breaker site.origin.key).period + 1, true⟩, w') ∧
      w'.breaker site.origin.key =
        { (w.breaker site.origin.key).moveTo .halfOpen w.now with admitted := 1 } ∧
      w'.trace =
        ⟨w.now, .gate site (.permitIssued ⟨(w.breaker site.origin.key).period + 1, true⟩)⟩ ::
          ⟨w.now, .event site .circuitHalfOpened⟩ :: w.trace := by
  have hlt : (0 : UInt32) < s.probes := UInt32.lt_iff_toNat_lt.mpr hprobes
  have harrival : w.arrival s site.origin.key =
      (w.breaker site.origin.key).moveTo .halfOpen w.now := recover_of_open hopen hlate
  have hi : (w.arrival s site.origin.key).issue s =
      (some ⟨(w.breaker site.origin.key).period + 1, true⟩,
        { (w.breaker site.origin.key).moveTo .halfOpen w.now with admitted := 1 }) := by
    rw [harrival, issue]
    exact if_pos hlt
  refine ⟨_, World.acquirePermit_of_issue hi, World.breaker_setBreaker _, ?_⟩
  rw [World.note_trace, World.setBreaker_now, World.setBreaker_trace, if_neg]
  · rfl
  · rw [show (w.gatesOf site).breaker.state = .open from hopen]
    nofun

variable {K : List Policy} {N : List String} {chance : Chance} {x : Scene} {q : Policy}

/-- **The open window** of a breaker, at every moment of a run. An open breaker knows
when it last opened. While it waits, a call that reaches it fails at once: it is
recorded, what is behind the breaker does not start, and all gates stay as they are.
The first call after that makes the breaker half-open and goes on as a probe. A
half-open breaker turns calls away iff all its probes are admitted, in the same way. -/
theorem open_window (h : Moment chance K N x) (hq : q ∈ K) (hl : .breaker s ∈ q.layers) :
    let w := x.world
    let b := w.breaker q.origin.key
    (b.state = .open →
      ∃ o ≤ w.now, b.openedAt = some o ∧ lastOpening q.origin.key w.trace = some o) ∧
    (∀ id op t, let site : Site := ⟨q.origin, id⟩
      let w' := w.emit site .circuitRefused
      (∀ o, b.state = .open → b.openedAt = some o → w.now - o < s.recovery.nanos →
        (behindBreaker site s op).start t w = (.done (.error .circuitOpen), w')) ∧
      (b.state = .halfOpen →
        (b.admitted = s.probes ↔ (acquirePermit site s w).1 = .error (.error .circuitOpen)) ∧
        (b.admitted = s.probes →
          (behindBreaker site s op).start t w = (.done (.error .circuitOpen), w'))) ∧
      w'.now = w.now ∧ w'.gates = w.gates ∧ w'.invoked = w.invoked ∧
        w'.trace = ⟨w.now, .event site .circuitRefused⟩ :: w.trace) ∧
    (∀ o, b.state = .open → b.openedAt = some o → s.recovery.nanos ≤ w.now - o →
      ∀ id, let site : Site := ⟨q.origin, id⟩
      ∃ w', acquirePermit site s w = (.ok ⟨b.period + 1, true⟩, w') ∧
        w'.breaker q.origin.key = { b.moveTo .halfOpen w.now with admitted := 1 } ∧
        w'.trace = ⟨w.now, .gate site (.permitIssued ⟨b.period + 1, true⟩)⟩ ::
          ⟨w.now, .event site .circuitHalfOpened⟩ :: w.trace) := by
  intro w b
  have hs : (Layer.breaker s).fault? = none := q.faultless _ hl
  have htimed : w.Timed q.origin.key s := (h.breakerRun hq hl).timed.2
  -- no permit is issued while the breaker is open, or once all probes are out
  have hissue : (b.issue s).1 = none ↔
      b.state = .open ∨ b.state = .halfOpen ∧ b.admitted = s.probes :=
    issue_none_iff htimed.limit
  have hopenFor : ∀ o, b.openedAt = some o → b.openFor w.now = w.now - o := by
    intro o ho
    rw [openFor, ho]
  refine ⟨htimed.opened, fun id op t => ?_, fun o hopen ho hlate id => ?_⟩
  · intro site w'
    -- a call without a permit leaves the world as it was, but for the record
    have haway : w.arrival s site.origin.key = b → (b.issue s).1 = none →
        acquirePermit site s w = (.error (.error .circuitOpen), w') :=
      fun hrecover hi => acquirePermit_turned_away hrecover hi
    refine ⟨fun o hopen ho hearly => ?_, fun hhalf => ?_, ?_⟩
    -- the recovery time is not over, so the breaker stays as it is
    · have hrecover : w.arrival s site.origin.key = b :=
        recover_of_waiting (by rw [← hopenFor o ho] at hearly; exact hearly)
      exact Activity.holding_start_error (haway hrecover (hissue.mpr (.inl hopen)))
    · have hrecover : w.arrival s site.origin.key = b :=
        recover_of_ne_open (by rw [show (w.breaker site.origin.key).state = _ from hhalf]; nofun)
      have hfull : b.admitted = s.probes →
          acquirePermit site s w = (.error (.error .circuitOpen), w') :=
        fun hadmitted => haway hrecover (hissue.mpr (.inr ⟨hhalf, hadmitted⟩))
      refine ⟨⟨fun hadmitted => ?_, fun hrefused => ?_⟩, fun hadmitted => ?_⟩
      · rw [hfull hadmitted]
      · -- a half-open breaker does not recover, so it refused because of its probes
        obtain ⟨-, hi, -⟩ := World.acquirePermit_error (Prod.ext hrefused rfl)
        rw [hrecover] at hi
        rcases hissue.mp (congrArg Prod.fst hi) with hopen | ⟨-, hadmitted⟩
        · cases hopen.symm.trans hhalf
        · exact hadmitted
      · exact Activity.holding_start_error (hfull hadmitted)
    · exact ⟨w.emit_now _ _, w.emit_gates _ _, w.emit_invoked _ _, w.emit_trace _ _⟩
  · rw [← hopenFor o ho] at hlate
    exact acquirePermit_recovered ⟨q.origin, id⟩ (BreakerSettings.probes_pos hs) hopen hlate

/-! ### A run with a breaker that opens -/

/-- A policy with a breaker that trips at once. -/
def frail : Policy where
  origin := (caller 0).origin
  layers := [.breaker touchy]
  criticality := .critical
  dependencies := []
  ordered := List.pairwise_singleton _ _
  faultless l hl := by
    obtain rfl := List.mem_singleton.mp hl
    decide

/-- The only call has failed, and some time has passed. -/
def opened (now : Nat) : World :=
  let w := frail.install (World.start .plain)
  let w := (acquirePermit (caller 0) touchy w).2
  { w.settlePermit (caller 0) touchy ⟨0, false⟩ .failure with now }

theorem moment_opened (now : Nat) :
    Moment .plain [frail] ["c"] ⟨opened now, 0, {.invoke (caller 0).call}⟩ := by
  let w := frail.install (World.start .plain)
  let w₁ := (acquirePermit (caller 0) touchy w).2
  let w₂ := w₁.settlePermit (caller 0) touchy ⟨0, false⟩ .failure
  have h : Moment .plain [frail] [] ⟨w, 0, 0⟩ := .build .start frail rfl
  have hmem : frail ∈ [frail] := List.mem_singleton_self _
  have hcall : Moment .plain [frail] ["c"]
      ⟨w, 0, .ask (caller 0) .breaker ::ₘ {.invoke (caller 0).call}⟩ := h.call "c" hmem
  have h₁ : Moment .plain [frail] ["c"]
      ⟨w₁, {.permit (caller 0) touchy ⟨0, false⟩}, {.invoke (caller 0).call}⟩ :=
    hcall.effect (.ask (.grant hmem rfl (List.mem_singleton_self _) rfl) 0 _)
  have h₂ : Moment .plain [frail] ["c"] ⟨w₂, 0, {.invoke (caller 0).call}⟩ :=
    h₁.effect (.settle w₁ (caller 0) touchy ⟨0, false⟩ .failure 0 _)
  exact h₂.tick now (Nat.zero_le _)

/-- A nanosecond makes the difference. -/
theorem open_window_opened :
    frail ∈ [frail] ∧ .breaker touchy ∈ frail.layers ∧
    (∀ id op t, (behindBreaker ⟨frail.origin, id⟩ touchy op).start t (opened 999999) =
      (.done (.error .circuitOpen), (opened 999999).emit ⟨frail.origin, id⟩ .circuitRefused)) ∧
    ∀ id, ∃ w', acquirePermit ⟨frail.origin, id⟩ touchy (opened 1000000) = (.ok ⟨2, true⟩, w') := by
  have hmem : frail ∈ [frail] := List.mem_singleton_self _
  have hl : .breaker touchy ∈ frail.layers := List.mem_singleton_self _
  obtain ⟨-, hearly, -⟩ := open_window (moment_opened 999999) hmem hl
  obtain ⟨-, -, hlate⟩ := open_window (moment_opened 1000000) hmem hl
  refine ⟨hmem, hl, fun id op t => ?_, fun id => ?_⟩
  · exact (hearly id op t).1 0 (by decide) (by decide) (by decide)
  · obtain ⟨w', hw, -⟩ := hlate 0 (by decide) (by decide) (by decide) id
    exact ⟨w', hw⟩

end CallPolicy
