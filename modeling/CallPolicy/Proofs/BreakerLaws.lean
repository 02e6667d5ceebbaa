/-
The laws of one breaker, however the calls that reach it overlap.

In every scene that a new breaker can come to:

* **`half_open_accounting`** — the probe counters are the probes that are out and
  those that have succeeded, no arithmetic on counters is cut off or wraps
  around, and a half-open breaker without a probe out admits the next call;
* **`refines_automaton`** — the breaker stands where the history puts the
  specification `BreakerSpec`, and whatever comes next moves both alike and is
  told of once.
-/
import CallPolicy.Proofs.BreakerRun

namespace CallPolicy

open Trace Breaker

variable {key : Nat} {s : BreakerSettings} {x : BreakerScene} {w : World}
  {live : Multiset (Site × Permit)} {site : Site} {p : Permit} {o : Outcome}

/-! ### What an arrival and an outcome do to the history -/

namespace World

theorem acquirePermit_of_issue {b : Breaker}
    (hi : (w.arrival s site.origin.key).issue s = (some p, b)) :
    Operation.acquirePermit site s w =
      (.ok p, (w.setBreaker site b).note (.gate site (.permitIssued p))) := by
  rw [Operation.acquirePermit]
  rw [show (w.gatesOf site).breaker.acquire s w.now = (some p, b) from hi]

/-- A call that arrives leaves the breaker as it found it but for the probes, and
adds to the trace the change of state, if there was one, and one entry more. -/
theorem acquirePermit_spec (site : Site) (s : BreakerSettings) (w : World) :
    ∃ b e, b = { w.arrival s site.origin.key with admitted := b.admitted } ∧
      ((Operation.acquirePermit site s w).2.breaker site.origin.key = b) ∧
      (Operation.acquirePermit site s w).2.trace = e :: (w.setBreaker site b).trace ∧
      e.change? site.origin.key = none ∧ e.settled? = none := by
  cases h : Operation.acquirePermit site s w with
  | mk r w' =>
    cases r with
    | ok p =>
      obtain ⟨b, hi, rfl⟩ := acquirePermit_ok h
      refine ⟨b, ⟨w.now, .gate site (.permitIssued p)⟩, ?_, breaker_setBreaker b, ?_, rfl, rfl⟩
      · obtain ⟨-, hk⟩ | ⟨-, hk⟩ | ⟨-, -, hk⟩ | ⟨-, -, hk⟩ :=
          Breaker.issue_cases s (w.arrival s site.origin.key) <;> rw [hk] at hi <;> cases hi <;> rfl
      · rw [note_trace, setBreaker_now]
    | error r =>
      obtain ⟨-, -, rfl⟩ := acquirePermit_error h
      refine ⟨w.arrival s site.origin.key, ⟨w.now, .event site .circuitRefused⟩, rfl, ?_, ?_, ?_,
        rfl⟩
      · rw [breaker, emit_gates]
        exact breaker_setBreaker _
      · rw [emit_trace, setBreaker_now]
      · simp [Entry.change?, Event.reached?]

/-- A breaker that is put into another state is heard of once. -/
theorem changes_setBreaker (b : Breaker) : changes site.origin.key (w.setBreaker site b).trace =
    (if b.state = (w.breaker site.origin.key).state then [] else [b.state]) ++
      changes site.origin.key w.trace := by
  rw [setBreaker_trace]
  by_cases hb : b.state = (w.breaker site.origin.key).state
  · rw [if_pos hb, if_pos (show b.state = (w.gatesOf site).breaker.state from hb)]
    rfl
  · rw [if_neg hb, if_neg (show ¬ b.state = (w.gatesOf site).breaker.state from hb), changes_cons]
    simp [Entry.change?]

end World

namespace BreakerScene.Sound

/-- A permit that comes back moves the history as the specification says. -/
theorem specOf_settle (hs : (Layer.breaker s).fault? = none)
    (few : (changes key w.trace).length < 2 ^ 64) (h : Sound key s ⟨w, (site, p) ::ₘ live⟩) :
    specOf key (w.settlePermit site s p o).trace =
      if o ≠ .ignored ∧ admittedNow key site w.trace = true then (specOf key w.trace).hear s o
      else specOf key w.trace := by
  have hkey : site.origin.key = key := h.dated.site _ (Multiset.mem_cons_self _ _)
  have hst := h.tallies.state
  have hspec := specOf_settled w.now p o w.trace hkey
  obtain ⟨hc, hopen, ht⟩ | ⟨hc, hsame, -⟩ :=
    Ledger.settle_cases w.now (BreakerSettings.threshold_pos hs) few h o
  all_goals
    subst hkey
    rw [World.settlePermit_trace]
  · have hheard := ht.state
    dsimp only at hst hheard
    rw [if_pos hc] at hspec ⊢
    rw [Ledger.hear_eq hc.1 hopen, ← hheard, ← hst]
    split
    next => rw [hspec, hst]
    next hne => exact specOf_change (by simp [Entry.change?])
  · rw [if_neg hc] at hspec ⊢
    rw [if_pos hsame, hspec]

/-- A call that arrives wakes the specification, too. -/
theorem specOf_arrive (h : Sound key s ⟨w, live⟩) (hkey : site.origin.key = key) :
    specOf key (Operation.acquirePermit site s w).2.trace =
      (specOf key w.trace).wake s ((w.breaker key).openFor w.now) := by
  obtain ⟨b, e, hb, -, htr, hc, hset⟩ := World.acquirePermit_spec site s w
  have hst := h.tallies.state
  have hbst : b.state = (w.arrival s site.origin.key).state := by rw [hb]
  subst hkey
  rw [htr, specOf_quiet hc hset, World.setBreaker_trace, hbst]
  dsimp only at hst
  rcases Breaker.recover_cases s w.now (w.breaker site.origin.key) with hr | ⟨hopen, hwait, hr⟩
  · -- a breaker that does not recover is not an open one that has waited long enough
    have hnot : ¬ ((specOf site.origin.key w.trace).state = .open ∧
        s.recovery.nanos ≤ (w.breaker site.origin.key).openFor w.now) := by
      rintro ⟨ho, ht⟩
      have hhalf := congrArg Breaker.state (Breaker.recover_of_open (hst.trans ho) ht)
      rw [hr, hst, ho] at hhalf
      cases hhalf
    have hsame : (w.arrival s site.origin.key).state = (w.gatesOf site).breaker.state := by
      rw [World.arrival, hr]
      rfl
    rw [if_pos hsame, BreakerSpec.wake, if_neg hnot]
  · have hne : ¬ (w.arrival s site.origin.key).state = (w.gatesOf site).breaker.state := by
      rw [World.arrival, hr]
      exact fun hc => absurd (hc.trans hopen) (show BreakerState.halfOpen ≠ .open by decide)
    rw [if_neg hne, BreakerSpec.wake, if_pos ⟨hst ▸ hopen, hwait⟩]
    exact specOf_change (by simp [Entry.change?, World.arrival, hr])

/-- A half-open breaker without a probe out admits a call. -/
theorem admits (h : Sound key s x) (hb : (x.world.breaker key).state = .halfOpen)
    (hnone : probesOut key x.world.trace x.live = 0) (hkey : site.origin.key = key) :
    ∃ w', Operation.acquirePermit site s x.world =
      (.ok ⟨(x.world.breaker key).period, true⟩, w') := by
  subst hkey
  have ha : (specOf site.origin.key x.world.trace).state = .halfOpen := h.tallies.state ▸ hb
  have harrival : x.world.arrival s site.origin.key = x.world.breaker site.origin.key :=
    Breaker.recover_of_ne_open (by rw [hb]; nofun)
  have hadm := h.tallies.admitted ha
  have hsuc := h.tallies.succeeded ha
  have hunf := h.tallies.unfinished ha
  -- without a probe out, all that were admitted have succeeded, and these are not enough
  have hlt : (x.world.breaker site.origin.key).admitted < s.probes := by
    rw [UInt32.lt_iff_toNat_lt]
    omega
  have hi := Breaker.issue_cases s (x.world.breaker site.origin.key)
  rw [hb] at hi
  rcases hi with ⟨hc, -⟩ | ⟨hc, -⟩ | ⟨-, -, hi⟩ | ⟨-, hle, -⟩
  · cases hc
  · cases hc
  · rw [← harrival] at hi
    rw [← harrival]
    exact ⟨_, World.acquirePermit_of_issue hi⟩
  · exact absurd hlt (UInt32.not_lt.mpr hle)

/-- A permit that comes back changes no field of the breaker if its outcome does
not count, unless it hands a probe back. -/
theorem settle_uncounted (few : (changes key w.trace).length < 2 ^ 64)
    (h : Sound key s ⟨w, (site, p) ::ₘ live⟩)
    (hc : ¬ (o ≠ .ignored ∧ admittedNow key site w.trace = true))
    (hb : ¬ ((w.breaker key).state = .halfOpen ∧ admittedNow key site w.trace = true)) :
    (w.settlePermit site s p o).breaker key = w.breaker key := by
  have hmem : (site, p) ∈ (site, p) ::ₘ live := Multiset.mem_cons_self _ _
  have hkey : site.origin.key = key := h.dated.site _ hmem
  have hiff := h.period_eq_iff few hmem
  subst hkey
  rw [World.breaker_settlePermit]
  by_cases hnow : admittedNow site.origin.key site w.trace = true
  · have ho : o = .ignored := by
      by_contra ho
      exact hc ⟨ho, hnow⟩
    rw [ho]
    exact record_ignored_of_ne_halfOpen fun hhalf => hb ⟨hhalf, hnow⟩
  · exact record_of_period_ne fun hp => hnow (hiff.mp hp)

end BreakerScene.Sound

/-! ### A run with a late permit and a probe out -/

/-- Settings of a breaker that trips at once and probes twice after a millisecond. -/
def touchy : BreakerSettings := ⟨1, .ofMillis 1, 2⟩

/-- The `n`-th call through a policy without hooks. -/
def caller (n : Nat) : Site := ⟨⟨0, "p", .none⟩, .top "c" n⟩

/-- Two calls have been admitted and one of them has failed, which has opened the
breaker; the other one is still under way a millisecond later. -/
def tripped : World :=
  let w := World.start .plain
  let w := (Operation.acquirePermit (caller 0) touchy w).2
  let w := (Operation.acquirePermit (caller 1) touchy w).2
  { w.settlePermit (caller 1) touchy ⟨0, false⟩ .failure with now := 1000000 }

theorem breakerRun_tripped : BreakerRun 0 touchy ⟨tripped, (caller 0, ⟨0, false⟩) ::ₘ 0⟩ := by
  let w := World.start .plain
  let w₁ := (Operation.acquirePermit (caller 0) touchy w).2
  let w₂ := (Operation.acquirePermit (caller 1) touchy w₁).2
  let w₃ := w₂.settlePermit (caller 1) touchy ⟨0, false⟩ .failure
  have h : BreakerRun 0 touchy ⟨w, 0⟩ := .start w rfl (by decide)
  have h₁ : BreakerRun 0 touchy ⟨w₁, (caller 0, ⟨0, false⟩) ::ₘ 0⟩ :=
    h.move (.grant rfl (by decide) rfl)
  have h₂ : BreakerRun 0 touchy ⟨w₂, (caller 1, ⟨0, false⟩) ::ₘ (caller 0, ⟨0, false⟩) ::ₘ 0⟩ :=
    h₁.move (.grant rfl (by decide) rfl)
  have h₃ : BreakerRun 0 touchy ⟨w₃, (caller 0, ⟨0, false⟩) ::ₘ 0⟩ := h₂.move (.settle ..)
  exact h₃.move (.elsewhere ⟨rfl, Nat.zero_le _, [], rfl, by decide⟩)

/-- A third call probes the breaker. -/
def probing : BreakerScene :=
  ⟨(Operation.acquirePermit (caller 2) touchy tripped).2,
    (caller 2, ⟨2, true⟩) ::ₘ (caller 0, ⟨0, false⟩) ::ₘ 0⟩

theorem breakerRun_probing : BreakerRun 0 touchy probing :=
  breakerRun_tripped.move (.grant rfl (by decide) rfl)

/-! ### The laws -/

/-- **Half-open accounting**: with `out` permits of the present period out, a
half-open breaker has admitted the probes that succeeded and those that are out,
and otherwise both counters are zero. A permit carries the number of the present
period iff it was issued in it. Then no counter stops at the end of its word or
wraps around, and a half-open breaker without a permit out admits every call. -/
theorem half_open_accounting (hs : (Layer.breaker s).fault? = none) (hx : BreakerRun key s x)
    (few : (changes key x.world.trace).length < 2 ^ 64) :
    let b := x.world.breaker key
    let out := probesOut key x.world.trace x.live
    let arrival := x.world.arrival s key
    (b.state = .halfOpen →
      (b.admitted : Nat) = b.succeeded + out ∧ b.admitted ≤ s.probes ∧ b.succeeded < s.probes) ∧
    (b.state ≠ .halfOpen → b.admitted = 0 ∧ b.succeeded = 0) ∧
    (b.period.toNat = (changes key x.world.trace).length ∧
      ∀ l ∈ x.live, l.2.period = b.period ↔ admittedNow key l.1 x.world.trace = true) ∧
    (∀ l ∈ x.live, b.state = .halfOpen → l.2.period = b.period →
      (saturatingPred b.admitted : Nat) + 1 = b.admitted) ∧
    (b.state = .closed → (saturatingSucc b.failures : Nat) = b.failures + 1) ∧
    (b.state = .halfOpen → (b.succeeded + 1 : UInt32) = (b.succeeded : Nat) + 1) ∧
    (arrival.admitted < s.probes → (arrival.admitted + 1 : UInt32) = (arrival.admitted : Nat) + 1) ∧
    (b.state = .halfOpen → out = 0 → ∀ site : Site, site.origin.key = key →
      ∃ w', Operation.acquirePermit site s x.world = (.ok ⟨b.period, true⟩, w')) := by
  intro b out arrival
  have h : x.Sound key s := hx.sound hs few
  have ht : b.Tallies s (specOf key x.world.trace) out := h.tallies
  have hhalf : b.state = .halfOpen → (specOf key x.world.trace).state = .halfOpen := by
    intro hb
    rw [← ht.state, hb]
  have hless : b.state = .halfOpen → b.succeeded.toNat < s.probes.toNat := by
    intro hb
    rw [ht.succeeded (hhalf hb)]
    exact ht.unfinished (hhalf hb)
  refine ⟨fun hb => ⟨ht.admitted (hhalf hb), ?_, ?_⟩, fun hb => ht.idle (ht.state ▸ hb), ⟨?_, ?_⟩,
    ?_, ?_, fun hb => toNat_succ_of_lt (hless hb), fun hlt => ?_, fun hb hout site hkey => ?_⟩
  · exact UInt32.le_iff_toNat_le.mpr (ht.limit (hhalf hb))
  · exact UInt32.lt_iff_toNat_lt.mpr (hless hb)
  · rw [h.period, Nat.mod_eq_of_lt few]
  · exact fun l hl => h.period_eq_iff few hl
  · -- the permit itself is among those that the counter stands for
    intro l hl hb hperiod
    have hnow : admittedNow key l.1 x.world.trace = true := (h.period_eq_iff few hl).mp hperiod
    have hpos : 0 < out := Multiset.countP_pos.mpr ⟨l, hl, hnow⟩
    have hadm := ht.admitted (hhalf hb)
    rw [toNat_saturatingPred]
    omega
  · -- a closed breaker is below its threshold, which fits into a word
    intro hb
    have ha : (specOf key x.world.trace).state = .closed := by rw [← ht.state, hb]
    have hrun := ht.failures ha
    have hlt := ht.below ha
    have hsize := s.failureThreshold.toNat_lt
    apply toNat_saturatingSucc
    show b.failures.toNat + 1 < 2 ^ 32
    omega
  · exact toNat_succ_of_lt (UInt32.lt_iff_toNat_lt.mp hlt)
  · exact h.admits hb hout hkey

/-- One of two probes is out, and the permit from before does not count. -/
theorem half_open_accounting_probing :
    let b := probing.world.breaker 0
    (Layer.breaker touchy).fault? = none ∧ BreakerRun 0 touchy probing ∧
    (changes 0 probing.world.trace).length < 2 ^ 64 ∧
    b.state = .halfOpen ∧ probesOut 0 probing.world.trace probing.live = 1 ∧
    (b.admitted : Nat) = b.succeeded + 1 ∧ (saturatingPred b.admitted : Nat) + 1 = b.admitted := by
  have hs : (Layer.breaker touchy).fault? = none := by decide
  have few : (changes 0 probing.world.trace).length < 2 ^ 64 := by decide
  have hb : (probing.world.breaker 0).state = .halfOpen := by decide
  have hout : probesOut 0 probing.world.trace probing.live = 1 := by decide
  have h := half_open_accounting hs breakerRun_probing few
  rw [hout] at h
  exact ⟨hs, breakerRun_probing, few, hb, hout, (h.1 hb).1,
    h.2.2.2.1 (caller 2, ⟨2, true⟩) (by decide) hb (by decide)⟩

/-- **The breaker refines its specification**: it stands where the history puts
that. A permit that comes back moves the specification if its outcome counts, which
it never does while open, and otherwise changes no field of the breaker, unless a
probe is handed back. A call that arrives may wake it. Either way the breaker goes
where the specification goes, and a change of state is told of once. -/
theorem refines_automaton (hs : (Layer.breaker s).fault? = none) (hx : BreakerRun key s x)
    (few : (changes key x.world.trace).length < 2 ^ 64) :
    let w := x.world
    let b := w.breaker key
    let a := specOf key w.trace
    b.Follows s a ∧
    (∀ l ∈ x.live, ∀ o : Outcome,
      let w' := w.settlePermit l.1 s l.2 o
      let a' := specOf key w'.trace
      let counts := o ≠ .ignored ∧ admittedNow key l.1 w.trace = true
      (counts → a.state ≠ .open ∧ a' = a.hear s o) ∧
      (¬ counts → a' = a ∧
        (¬ (b.state = .halfOpen ∧ admittedNow key l.1 w.trace = true) → w'.breaker key = b)) ∧
      (w'.breaker key).Follows s a' ∧
      changes key w'.trace =
        (if a'.state = a.state then [] else [a'.state]) ++ changes key w.trace) ∧
    (∀ site : Site, site.origin.key = key →
      let w' := (Operation.acquirePermit site s w).2
      let a' := specOf key w'.trace
      a' = a.wake s (b.openFor w.now) ∧ (w'.breaker key).Follows s a' ∧
      changes key w'.trace =
        (if a'.state = a.state then [] else [a'.state]) ++ changes key w.trace) := by
  intro w b a
  have h : x.Sound key s := hx.sound hs few
  have ht : b.Tallies s a (probesOut key w.trace x.live) := h.tallies
  refine ⟨ht.follows, ?_, ?_⟩
  -- an outcome comes back for a permit that is live
  · rintro ⟨site, p⟩ hl o w' a' counts
    obtain ⟨rest, hrest⟩ := Multiset.exists_cons_of_mem hl
    have hkey : site.origin.key = key := h.dated.site _ hl
    subst hkey
    have hcons : BreakerScene.Sound site.origin.key s ⟨w, (site, p) ::ₘ rest⟩ := by
      rw [← hrest]
      exact h
    have ha' : a' = if counts then a.hear s o else a := hcons.specOf_settle hs few
    have hnext : BreakerScene.Sound site.origin.key s ⟨w', rest⟩ :=
      hcons.settle (BreakerSettings.threshold_pos hs) few
    have hstate : (w'.breaker site.origin.key).state = a'.state := hnext.tallies.state
    refine ⟨fun hc => ⟨?_, by rw [ha', if_pos hc]⟩, fun hc => ⟨by rw [ha', if_neg hc],
      fun hb => hcons.settle_uncounted few hc hb⟩, hnext.tallies.follows, ?_⟩
    · obtain ⟨-, hopen, -⟩ | ⟨hnot, -⟩ :=
        Ledger.settle_cases w.now (BreakerSettings.threshold_pos hs) few hcons o
      · exact hopen
      · exact absurd hc hnot
    · have hb' : w'.breaker site.origin.key = b.record s w.now p o := World.breaker_settlePermit
      rw [← hstate, hb', ← ht.state]
      exact World.changes_setBreaker _
  -- a call that arrives lets the automaton wake up at most
  · intro site hkey w' a'
    obtain ⟨b', e, hb', hbreaker, htr, hc, -⟩ := World.acquirePermit_spec site s w
    subst hkey
    have ha' : a' = a.wake s (b.openFor w.now) := BreakerScene.Sound.specOf_arrive h rfl
    have hrec := (ht.recover (BreakerSettings.probes_pos hs) w.now).follows
    rw [← ha'] at hrec
    -- the probes that are admitted are no part of it
    have hfollows : b'.Follows s a' := by
      rw [hb']
      exact ⟨hrec.state, hrec.failures, hrec.tripped, hrec.succeeded⟩
    refine ⟨ha', hbreaker ▸ hfollows, ?_⟩
    rw [htr, changes_cons, hc, ← hfollows.state, ← ht.state]
    exact World.changes_setBreaker _

/-- The late call fails without consequence, the probe opens the breaker again. -/
theorem refines_automaton_probing :
    let w := probing.world
    (Layer.breaker touchy).fault? = none ∧ BreakerRun 0 touchy probing ∧
    (changes 0 w.trace).length < 2 ^ 64 ∧
    specOf 0 w.trace = ⟨.halfOpen, []⟩ ∧ (w.breaker 0).Follows touchy ⟨.halfOpen, []⟩ ∧
    (w.settlePermit (caller 0) touchy ⟨0, false⟩ .failure).breaker 0 = w.breaker 0 ∧
    specOf 0 (w.settlePermit (caller 2) touchy ⟨2, true⟩ .failure).trace = ⟨.open, []⟩ := by
  have hs : (Layer.breaker touchy).fault? = none := by decide
  have few : (changes 0 probing.world.trace).length < 2 ^ 64 := by decide
  have ha : specOf 0 probing.world.trace = ⟨.halfOpen, []⟩ := by decide
  obtain ⟨hfollows, hback, -⟩ := refines_automaton hs breakerRun_probing few
  have hlate := hback (caller 0, ⟨0, false⟩) (by decide) .failure
  have hprobe := hback (caller 2, ⟨2, true⟩) (by decide) .failure
  refine ⟨hs, breakerRun_probing, few, ha, ?_, (hlate.2.1 (by decide)).2 (by decide), ?_⟩
  · rw [ha] at hfollows
    exact hfollows
  · rw [(hprobe.1 (by decide)).2, ha]
    rfl

end CallPolicy
