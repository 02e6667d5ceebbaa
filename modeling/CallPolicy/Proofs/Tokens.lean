/-
The tokens of a call that has returned.

A call gives its operation its own token, or children of it that it makes for an attempt,
for each of two racing ones, or for all that is inside a deadline. When it returns, the
tokens of the invocations that were dropped are cancelled, and those of the others are not
(`World.Cleared`), unless the whole call took too long (`World.Expired`).

* **`Settles.of_lasts`**, **`Settles.withRetry`**, … — one lemma a layer;
* **`Settles.lives`** — so all is settled when a call returns;
* **`Serves.foreign`** — what a call cancels is above no token of another one;
* **`tokens_cancelled_exactly`** — the tokens that are cancelled on behalf of a call.
-/
import CallPolicy.Proofs.Attempts
import CallPolicy.Proofs.Deadline

namespace CallPolicy

open Activity Operation Relation

variable {ο : Type} {w w' w₀ w₁ w₂ w₃ : World} {t u v a : Token} {id : CallId} {n : Nat}
  {m : CallId → Nat} {site : Site} {kinds : List LayerKind} {timely : Prop}

/-! ### Between attempts -/

namespace World.Lull

theorem acquirePermit (site : Site) (s : BreakerSettings) (w : World) :
    w.Lull id (acquirePermit site s w).2 := by
  unfold Operation.acquirePermit
  split <;> dsimp only
  · exact (setBreaker w site _).trans (note _ rfl)
  · exact (setBreaker w site _).trans (emit _ site _)

theorem takeSlot (site : Site) (capacity : Nat) (w : World) :
    w.Lull id (takeSlot site capacity w).2 := by
  unfold Operation.takeSlot
  split <;> dsimp only
  · exact (modifyGates w _ _).trans (emit _ site _)
  · exact emit w site _

theorem attemptResult (site : Site) (r : RetrySettings) (n : Nat) (o : Option Result) (w : World) :
    w.Lull id (attemptResult site r n o w).2 := by
  unfold Operation.attemptResult
  split
  · exact refl w
  next length _ => exact emit w site (.attemptTimedOut n length)
  · exact refl w

theorem mayRepeat (site : Site) (r : RetrySettings) (t : Token) (f : Failure) (w : World) :
    w.Lull id (mayRepeat site r t f w).2 := by
  unfold Operation.mayRepeat
  split
  · exact refl w
  · split
    · exact refl w
    · exact note w rfl

theorem nextDelay (r : RetrySettings) (n : Nat) (w : World) : w.Lull id (nextDelay r n w).2 := by
  unfold Operation.nextDelay
  split
  · exact draw w
  · exact refl w

variable {r : RetrySettings} {o : Option Result} {f : Failure}

/-- An attempt has failed, and it is clear whether it may be repeated. -/
theorem judged {again : Bool} (h₁ : Operation.attemptResult site r n o w = (.error f, w₁))
    (h₂ : Operation.mayRepeat site r t f w₁ = (again, w₂)) : w.Lull id w₂ := by
  have hresult : w.Lull id _ := attemptResult site r n o w
  have hmay : w₁.Lull id _ := mayRepeat site r t f w₁
  rw [h₁] at hresult
  rw [h₂] at hmay
  exact hresult.trans hmay

/-- A failed attempt is about to be repeated. -/
theorem repeated {delay : Duration} (h₁ : Operation.attemptResult site r n o w = (.error f, w₁))
    (h₂ : Operation.mayRepeat site r t f w₁ = (true, w₂))
    (h₃ : Operation.nextDelay r n (w₂.emit site (.retrying n f)) = (delay, w₃)) :
    w.Lull id w₃ := by
  have hdelay : (w₂.emit site (.retrying n f)).Lull id _ := nextDelay r n _
  rw [h₃] at hdelay
  exact (judged h₁ h₂).trans ((emit w₂ site _).trans hdelay)

end World.Lull

/-! ### Settled calls -/

namespace World

/-- All invocations of the call are settled. -/
def Cleared (id : CallId) (t : Token) (w : World) : Prop :=
  ∀ {k u}, w.Invoked id k u → w.Settled id t k u

/-- It was told that the deadline of the call has passed, and all its tokens are cancelled. -/
structure Expired (id : CallId) (w : World) : Prop where
  told : w.trace.countP (Entry.expires id) ≠ 0
  cancelled : ∀ u ∈ w.invoked id, w.isCancelled u = true

/-- The invocations before the `n`-th one are settled. -/
def ClearedTo (id : CallId) (t : Token) (n : Nat) (w : World) : Prop :=
  ∀ {k u}, k < n → w.Invoked id k u → w.Settled id t k u

theorem Cleared.still (h : w.Cleared id t) (hl : w.Ledger id t) (hw : w.Still id t t w') :
    w'.Cleared id t := fun {k u} hk => by
  have hk' := hw.invoked_iff.mp hk
  exact (h hk').still (hl.stems hk'.mem) hw

theorem ClearedTo.still (h : w.ClearedTo id t n) (hl : w.Ledger id t) (hw : w.Still id t t w') :
    w'.ClearedTo id t n := fun {k u} hlt hk => by
  have hk' := hw.invoked_iff.mp hk
  exact (h hlt hk').still (hl.stems hk'.mem) hw

theorem Expired.lull (h : w.Expired id) (hw : w.Lull id w') : w'.Expired id := by
  obtain ⟨es, htr, -⟩ := hw.quiet.trace
  obtain ⟨as, heq, -⟩ := hw.cancelled
  refine ⟨fun hnone => h.told ?_, fun u hu => ?_⟩
  · rw [htr, List.countP_append] at hnone
    exact (Nat.add_eq_zero_iff.mp hnone).2
  · rw [hw.invoked] at hu
    exact isCancelled_of_suffix ⟨as, heq.symm⟩ (h.cancelled u hu)

/-- The call is over: its invocations are settled, or its deadline has passed. -/
def Over (id : CallId) (t : Token) (w : World) : Prop := w.Cleared id t ∨ w.Expired id

theorem Over.lull (h : w.Over id t) (hl : w.Ledger id t) (hw : w.Lull id w') : w'.Over id t := by
  refine h.imp (fun hcleared => ?_) fun hexpired => hexpired.lull hw
  exact World.Cleared.still hcleared hl (.of_lull (.refl id t) hw)

theorem Ledger.lull (h : w.Ledger id t) (hw : w.Lull id w') : w'.Ledger id t :=
  World.Still.ledger (.of_lull (.refl id t) hw) h

/-- The invocations under a child of a token are those under the token. -/
theorem Ledger.parent (h : w.Ledger id u) (hu : Token.Stems id t u) : w.Ledger id t :=
  ⟨h.numbered, fun hk => hu.trans (h.stems hk), h.made⟩

theorem Still.child (h : w.Still id t t w') (hu : Token.Stems id t u) : w.Still id u u w' :=
  ⟨h.quiet, h.invoked, h.spares.mono hu.trans hu.governs⟩

theorem Awaits.ledger (h : w.Awaits id t) : w.Ledger id t := by
  have hnil : w.invoked id = [] := h.invoked .self
  refine ⟨fun {k} ⟨e, he, ending, heq⟩ => ?_, fun hu => ?_, fun hu => ?_⟩
  · refine absurd ?_ (h.trace e he)
    rw [heq]
    exact .self
  · rw [hnil] at hu
    cases hu
  · rw [hnil] at hu
    cases hu

theorem Meanwhile.still (h : w.Meanwhile id t w') : w.Still id t t w' := by
  obtain ⟨es, htr, hes⟩ := h.trace
  obtain ⟨as, heq, has⟩ := h.spares.cancelled
  have hspares : w.Spares (fun _ u => Token.Stems id t u) t w' :=
    ⟨h.spares.minted, as, heq, fun a ha c u hu hau => has a ha (.own hu) hau⟩
  refine ⟨⟨rfl, h.now, es, htr, fun e he => ?_⟩, h.invoked .self, hspares⟩
  unfold Entry.ends
  split
  next call k ending heq =>
    refine decide_eq_false ?_
    rintro rfl
    refine hes e he ?_
    rw [heq]
    exact .self
  next => rfl

/-- Before the first invocation, every token will do. -/
theorem Ledger.of_nil (h : w.Ledger id t) (hnil : w.invoked id = []) : w.Ledger id u := by
  refine ⟨h.numbered, fun hu => ?_, h.made⟩
  rw [hnil] at hu
  cases hu

/-- A call is over when its deadline has passed. -/
theorem Ledger.expire (h : w.Ledger site.call u) (hu : Token.Stems site.call t u)
    (held : List Holding) (d : Duration) :
    (w.expire site held u d).Ledger site.call t ∧ (w.expire site held u d).Expired site.call := by
  have hreleased := h.lull (.releaseAll w held)
  have hcancelled : ((w.releaseAll held).cancel u).Ledger site.call u :=
    ⟨hreleased.numbered, hreleased.stems, hreleased.made⟩
  have htold : ((w.releaseAll held).cancel u).Lull site.call (w.expire site held u d) :=
    .emit _ site (.timedOut d)
  refine ⟨(hcancelled.lull htold).parent hu, ?_, fun v hv => ?_⟩
  · have hexpires : Entry.expires site.call ⟨((w.releaseAll held).cancel u).now,
        .event site (.timedOut d)⟩ = true := decide_eq_true rfl
    rw [World.expire, World.emit_trace, List.countP_cons_of_pos hexpires]
    exact Nat.succ_ne_zero _
  · rw [htold.invoked] at hv
    obtain ⟨as, heq, -⟩ := htold.cancelled
    refine isCancelled_of_suffix ⟨as, heq.symm⟩ (Settled.cancel_iff.mpr (.inl ?_))
    exact (hcancelled.stems hv).governs

/-- What is over under a child token is over under its parent. -/
theorem Over.parent (h : w.Over id u) (hu : w.Fosters id m t u) : w.Over id t :=
  h.imp_left fun hcleared {_ _} hk => (hcleared hk).parent hu.live

/-- Before the first invocation, all are settled. -/
theorem Cleared.of_nil (h : w.invoked id = []) : w.Cleared id t := fun hk => by
  rw [Invoked, h] at hk
  cases hk

/-- The token of what has ended is as live as the token of the call. -/
theorem Settled.isCancelled_eq {k : Nat} (h : w.Settled id t k u) (hu : t.governs u = true)
    (hend : w.Finished id k) : w.isCancelled u = w.isCancelled t :=
  Bool.eq_iff_iff.mpr ⟨h.ended hend, fun ht => isCancelled_of_governs ht hu⟩

/-- What was settled before an activity started is settled when it has stopped. -/
theorem ClearedTo.affects (h : w.ClearedTo id t n) (hn : n ≤ (w.invoked id).length)
    (hw : w.Affects id t n t w') : w'.ClearedTo id t n := fun {k u} hlt hk => by
  obtain ⟨us, heq, -⟩ := hw.invoked
  have hk' : w.Invoked id k u :=
    (hk.earlier heq).resolve_right fun hlate => absurd hlate.1 (Nat.not_le.mpr (by omega))
  have hsettled := h hlt hk'
  refine ⟨fun hend hc => ?_, fun hend => ?_⟩
  · have hend' := (hw.finished hk hend).resolve_right fun hown => Nat.not_le.mpr hlt hown.1
    rcases hw.spared hk' hlt hc with hold | ht
    · exact isCancelled_of_suffix hw.cancelled (hsettled.ended hend' hold)
    · exact ht
  · exact isCancelled_of_suffix hw.cancelled (hsettled.dropped fun hend' => hend (hend'.later hw.trace))

end World

/-! ### Activities that settle -/

namespace Activity

/-- Where an activity has led: it is suspended in a state that something is known of, or it
has ended in a world that something is known of. -/
def Rests {κ : Type} (id : CallId) (t : Token) (P : κ → World → Prop) (Q : World → Prop) :
    Status κ ο × World → Prop
  | (.pending s, w) => w.Ledger id t ∧ P s w
  | (.done _, w) => w.Ledger id t ∧ Q w
  | (.panicked _, _) => True

/-- When the activity ends, the call is over. `holds` is known of it whenever it is
suspended. -/
structure Settles (a : Activity Token ο) (id : CallId)
    (keeps : (CallId → Nat) → Token → a.State → World → Prop)
    (holds : Token → a.State → World → Prop) : Prop where
  start : ∀ {t} {w : World}, w.Ready w.minted t → w.Ledger id t → w.invoked id = [] →
    Rests id t (holds t) (World.Over id t) (a.start t w)
  resume : ∀ {m t s} {w : World}, w.Ready m t → w.Ledger id t → keeps m t s w → holds t s w →
    Rests id t (holds t) (World.Over id t) (a.resume s w)
  stable : ∀ {t s} {w w' : World}, w.Ledger id t → holds t s w → w.Still id t t w' → holds t s w'

namespace Rests

theorem imp {κ : Type} {P : κ → World → Prop} {Q Q' : World → Prop} {out : Status κ ο × World}
    (hQ : ∀ w, Q w → Q' w) (hout : Rests id t P Q out) : Rests id t P Q' out := by
  rcases out with ⟨s | o | x, w⟩
  · exact hout
  · exact hout.imp_right (hQ w)
  · trivial

/-- An immediate step at the end makes no difference. -/
theorem follow {a : Activity Token ο} {ο' : Type} {P : a.State → World → Prop}
    {f : ο → World → ο' × World} (hf : ∀ o (w : World), w.Lull id (f o w).2)
    {out : Status a.State ο × World} (hout : Rests id t P (World.Over id t) out) :
    Rests id t P (World.Over id t) (after.follow f a out) := by
  rcases out with ⟨s | o | x, w⟩
  · exact hout
  · exact ⟨hout.1.lull (hf o w), hout.2.lull hout.1 (hf o w)⟩
  · trivial

end Rests

/-- What is known when the invocations before the activity started are settled. -/
def Follows {κ : Type} (id : CallId) (holds : Nat → Token → κ → World → Prop) (t : Token) (s : κ)
    (w : World) : Prop := ∃ n, holds n t s w ∧ w.ClearedTo id t n

theorem Tallies.rests {κ : Type} {holds : Nat → Token → κ → World → Prop}
    {out : Status κ ο × World} (hn : n ≤ (w.invoked id).length) (h : w.ClearedTo id t n)
    (hout : Tallies id t n t (holds n t) w out) :
    Rests id t (Follows id holds t) (World.Cleared id t) out := by
  rcases out with ⟨s | o | x, w'⟩
  · obtain ⟨haffects, hheld⟩ := hout
    exact ⟨haffects.ledger, n, hheld, h.affects hn haffects⟩
  · obtain ⟨haffects, hclear⟩ := hout
    refine ⟨haffects.ledger, fun {k u} hk => ?_⟩
    rcases Nat.lt_or_ge k n with hlt | hge
    · exact h.affects hn haffects hlt hk
    · exact hclear ⟨hge, hk, (haffects.ledger.stems hk.mem).governs⟩
  · trivial

namespace Lasts

variable {a : Activity Token ο} {keeps : (CallId → Nat) → Token → a.State → World → Prop}
  {holds : Nat → Token → a.State → World → Prop} (h : ∀ t₀, a.Lasts id t₀ keeps holds)

include h

theorem start_rests (hw : w.Ready w.minted t) (hl : w.Ledger id t) (hcleared : w.Cleared id t) :
    Rests id t (Follows id holds t) (World.Cleared id t) (a.start t w) :=
  Tallies.rests (Nat.le_refl _) (fun _ hk => hcleared hk) ((h t).start hw (.refl id t) hl)

theorem resume_rests {s : a.State} (hw : w.Ready m t) (hl : w.Ledger id t) (hs : keeps m t s w)
    (hheld : Follows id holds t s w) :
    Rests id t (Follows id holds t) (World.Cleared id t) (a.resume s w) := by
  obtain ⟨n, hheld, hcleared⟩ := hheld
  exact Tallies.rests ((h t).reached hheld) hcleared ((h t).resume hw (.refl id t) hl hs hheld)

theorem follows_stable {s : a.State} (hl : w.Ledger id t) (hs : Follows id holds t s w)
    (hw : w.Still id t t w') : Follows id holds t s w' := by
  obtain ⟨n, hheld, hcleared⟩ := hs
  exact ⟨n, (h t).stable hheld (.of_still hw), hcleared.still hl hw⟩

/-- An activity that lasts as long as its invocations settles them. -/
theorem settles : a.Settles id keeps (Follows id holds) := by
  refine ⟨fun hw hl hnil => ?_, fun hw hl hs hheld => ?_, follows_stable h⟩
  · exact (start_rests h hw hl (World.Cleared.of_nil hnil)).imp fun _ => .inl
  · exact (resume_rests h hw hl hs hheld).imp fun _ => .inl

end Lasts

end Activity

/-! ### Layers -/

section

variable {op : Operation} {keeps : (CallId → Nat) → Token → op.State → World → Prop}
  {holds : Token → op.State → World → Prop}

/-- What is known of an operation with a deadline. -/
structure Activity.Limited.Holds {κ : Type} (id : CallId) (holds : Token → κ → World → Prop)
    (t : Token) (s : Limited κ) (w : World) : Prop where
  stems : Token.Stems id t s.token
  ledger : w.Ledger id s.token
  inner : holds s.token s.inner w

/-- What is known of the retry layer. -/
def Operation.RetryState.Holds {κ : Type} (id : CallId) (holds : Token → κ → World → Prop)
    (t : Token) : RetryState κ → World → Prop
  | .trying _ _ inner, w => holds t inner w
  | .waiting .., w => w.Cleared id t

/-- When the deadline has come, all the tokens below the child are cancelled. -/
theorem Activity.Rests.limited {u : Token} (length : Duration) (d : Nat)
    {out : Status op.State Result × World} (hu : out.2.Fosters site.call m t u)
    (hout : Rests site.call u (holds u) (World.Over site.call u) out) :
    Rests site.call t (fun s => s.Holds site.call holds t) (World.Over site.call t)
      (after.follow (fun r w => match r with
        | some r => (r, w)
        | none => (.error .timeout, w.emit site (.timedOut length))) (op.within site.call length)
          (within.check op u d out)) := by
  rcases out with ⟨s | r | x, w⟩
  · unfold within.check
    dsimp only
    split
    · have hexpired := hout.1.expire hu.stems (op.holdings s) length
      exact ⟨hexpired.1, .inr hexpired.2⟩
    · exact ⟨hout.1.parent hu.stems, hu.stems, hout.1, hout.2⟩
  · exact ⟨hout.1.parent hu.stems, hout.2.parent hu⟩
  · trivial

namespace Activity.Settles

theorem withFallback (value : String) (h : op.Settles id keeps holds) :
    (withFallback site value op).Settles id keeps holds := by
  have hemit : ∀ (w : World) (f : Failure), w.Lull id (w.emit site (.fellBack f)) :=
    fun w f => .emit w site (.fellBack f)
  have hstep := withFallback_step site World.Lull.refl hemit value
  exact ⟨fun hw hl hnil => (h.start hw hl hnil).follow hstep,
    fun hw hl hs hheld => (h.resume hw hl hs hheld).follow hstep, h.stable⟩

theorem withTimeout (length : Duration) (hd : op.Attends site.call kinds keeps)
    (h : op.Settles site.call keeps holds) :
    (withTimeout site length op).Settles site.call
      (fun m t s => Raised site.call keeps m t s.token s.inner)
      (fun t s => s.Holds site.call holds t) := by
  refine ⟨fun {t w} hw hl hnil => ?_, fun {m t s w} hw hl hs hheld => ?_,
    fun {t s w w'} hl hs hw => ?_⟩
  · have hlull : w.Lull site.call (w.mint site.call t).2 := .mint w site.call t
    have hready := hw.mint site.call t
    have hu : (w.mint site.call t).2.Fosters site.call w.minted t (w.mint site.call t).1 := .mint hw
    have hnil' := hlull.invoked.trans hnil
    have hstart := h.start (hw.child site.call) ((hl.lull hlull).of_nil hnil') hnil'
    exact hstart.limited length _ (hd.fosters_start hready hu)
  · obtain ⟨-, m', -, -, hready, hkept⟩ := id hs
    exact (h.resume hready hheld.ledger hkept hheld.inner).limited length _ (hd.fosters_resume hs)
  · have hchild := hw.child hs.stems
    exact ⟨hs.stems, hchild.ledger hs.ledger, h.stable hs.ledger hs.inner hchild⟩

theorem holding {η : Type} {held : η → Holding} {take : World → Except Result η × World}
    {give : η → Result → World → World} (htake : ∀ w : World, w.Lull id (take w).2)
    (hready : ∀ {m t} {w : World}, w.Ready m t → (take w).2.Ready m t)
    (hgive : ∀ x r (w : World), w.Lull id (give x r w)) (h : op.Settles id keeps holds) :
    (op.holding held take give).Settles id (fun m t s => keeps m t s.2) (fun t s => holds t s.2) := by
  have hpost : ∀ {t} (x : η) {out : Status op.State Result × World},
      Rests id t (holds t) (World.Over id t) out →
      Rests id t (fun s => holds t s.2) (World.Over id t) (Activity.holding.keep held give op x out) := by
    rintro t x ⟨s | r | y, w⟩ hout
    · exact hout
    · exact ⟨hout.1.lull (hgive x r w), hout.2.lull hout.1 (hgive x r w)⟩
    · trivial
  refine ⟨fun {t w} hw hl hnil => ?_, fun hw hl hs hheld => hpost _ (h.resume hw hl hs hheld),
    fun hl hs hw => h.stable hl hs hw⟩
  have htaken := htake w
  have hw' := hready hw
  cases htk : take w with
  | mk e w' =>
    rw [htk] at htaken hw'
    have hnil' : w'.invoked id = [] := htaken.invoked.trans hnil
    cases e with
    | error o =>
      rw [Activity.holding_start_error htk]
      exact ⟨hl.lull htaken, .inl (World.Cleared.of_nil hnil')⟩
    | ok x =>
      rw [Activity.holding_start_ok htk]
      exact hpost x (h.start hw'.later (hl.lull htaken) hnil')

theorem behindBreaker (s : BreakerSettings) (h : op.Settles id keeps holds) :
    (behindBreaker site s op).Settles id (fun m t s => keeps m t s.2) (fun t s => holds t s.2) := by
  refine holding (.acquirePermit site s) (fun {m t w} hw => ?_)
    (fun p r w => .settlePermit w site s p _) h
  have htaken : w.Confined (.ofCall site.call [.breaker] t) m (acquirePermit site s w).2 :=
    .acquirePermit site t w s List.mem_cons_self
  exact htaken.ready hw

theorem behindBulkhead (capacity : Nat) (h : op.Settles id keeps holds) :
    (behindBulkhead site capacity op).Settles id (fun m t s => keeps m t s.2)
      (fun t s => holds t s.2) := by
  refine holding (.takeSlot site capacity) (fun {m t w} hw => ?_)
    (fun _ _ w => .release w (.slot site)) h
  have htaken : w.Confined (.ofCall site.call [.bulkhead] t) m (takeSlot site capacity w).2 :=
    .takeSlot site t w capacity List.mem_cons_self
  exact htaken.ready hw

theorem behindRateLimit (limit : RateLimit) (h : op.Settles id keeps holds) :
    (behindRateLimit site limit op).Settles id keeps holds := by
  refine ⟨fun {t w} hw hl hnil => ?_, h.resume, h.stable⟩
  unfold Operation.behindRateLimit
  dsimp only
  split
  next w₁ htk =>
    obtain ⟨bucket, rfl⟩ := takeToken_eq site w htk
    have hlull : w.Lull id ((w.modifyGates site.origin.key fun g => { g with bucket }).note
        (.gate site .tokenTaken)) := (World.Lull.modifyGates w _ _).trans (.note _ rfl)
    have hready := (World.Confined.of_takeToken (m := w.minted) site t htk).ready hw
    exact h.start hready.later (hl.lull hlull) (hlull.invoked.trans hnil)
  next w₁ htk =>
    obtain ⟨bucket, rfl⟩ := takeToken_eq site w htk
    have hlull : w.Lull id ((w.modifyGates site.origin.key fun g => { g with bucket }).emit site
        .rateLimited) := (World.Lull.modifyGates w _ _).trans (.emit _ site .rateLimited)
    exact ⟨hl.lull hlull, .inl (World.Cleared.of_nil (hlull.invoked.trans hnil))⟩

/-! ### Retry -/

section

variable {r : RetrySettings} {aholds : Nat → Token → (attempt site r op).State → World → Prop}
  (hd : op.Attends site.call (.retry :: kinds) keeps)
  (ha : ∀ t₀, (attempt site r op).Lasts site.call t₀ (attemptKeeps site op keeps r) aholds)

include hd ha

/-- An attempt has been looked at: the one before it are settled. -/
theorem proceed (t : Token) (left : Nat)
    (out : Status (Operation.attempt site r op).State (Option Result) × World)
    (hw : out.2.Ready m t)
    (hout : Rests site.call t (Follows site.call aholds t) (World.Cleared site.call t) out) :
    Rests site.call t (RetryState.Holds site.call (Follows site.call aholds) t)
      (World.Over site.call t) (proceed site r t left out) := by
  have hafter : ∀ {w w' : World}, w.Ledger site.call t ∧ w.Cleared site.call t →
      w.Lull site.call w' → w'.Ledger site.call t ∧ w'.Cleared site.call t :=
    fun {w w'} h hlull =>
      ⟨h.1.lull hlull, World.Cleared.still h.2 h.1 (.of_lull (.refl site.call t) hlull)⟩
  -- the loop starts attempts that are due at once, so the induction is on those left
  fun_induction Operation.proceed site r t left out
  case case1 => exact hout
  case case2 => trivial
  case case3 left o w n v w₁ h₁ =>
    have hresult : w.Lull site.call _ := .attemptResult site r n o w
    rw [h₁] at hresult
    exact (hafter hout hresult).imp_right .inl
  case case4 left o w n f w₁ h₁ w₂ h₂ => exact (hafter hout (.judged h₁ h₂)).imp_right .inl
  case case5 o w f w₁ w₂ h₂ n h₁ => exact (hafter hout (.judged h₁ h₂)).imp_right .inl
  case case6 o w f w₁ w₂ h₂ left delay w₃ wakeAt n h₁ h₃ hcancel =>
    exact (hafter hout (.repeated h₁ h₂ h₃)).imp_right .inl
  case case7 o w f w₁ w₂ h₂ left delay w₃ wakeAt hdue n h₁ h₃ hlive ih =>
    obtain ⟨hl, hcleared⟩ := hafter hout (.repeated h₁ h₂ h₃)
    have hrepeated : w.Confined (.ofCall site.call (.retry :: kinds) t) m w₃ :=
      .repeated site r w t List.mem_cons_self h₁ h₂ h₃
    have hready := hrepeated.ready hw
    have hstart := ((hd.attempt r).start_after hready (.refl _ _ _)).confined
    exact ih (hstart.ready hready) (Lasts.start_rests ha hready.later hl hcleared)
  case case8 o w f w₁ w₂ h₂ left delay w₃ wakeAt hlate n h₁ h₃ hlive =>
    exact hafter hout (.repeated h₁ h₂ h₃)

theorem withRetry : (withRetry site r op).Settles site.call
    (RetryState.Keeps (attemptKeeps site op keeps r))
    (RetryState.Holds site.call (Follows site.call aholds)) := by
  have hda := hd.attempt r
  refine ⟨fun {t w} hw hl hnil => ?_, fun {m t s w} hw hl hs hheld => ?_,
    fun {t s w w'} hl hs hw => ?_⟩
  · exact proceed hd ha t _ _ ((hda.start hw).confined.ready hw)
      (Lasts.start_rests ha hw hl (World.Cleared.of_nil hnil))
  · cases s with
    | trying token left inner =>
      obtain ⟨rfl, hkept⟩ := hs
      exact proceed hd ha token left _ ((hda.resume hw hkept).confined.ready hw)
        (Lasts.resume_rests ha hw hl hkept hheld)
    | waiting token left wakeAt =>
      obtain rfl : token = t := hs
      rw [resume_waiting]
      split
      · exact ⟨hl, .inl hheld⟩
      · split
        · exact proceed hd ha token left _ ((hda.start hw.later).confined.ready hw)
            (Lasts.start_rests ha hw.later hl hheld)
        · exact ⟨hl, hheld⟩
  · cases s with
    | trying token left inner => exact Lasts.follows_stable ha hl hs hw
    | waiting token left wakeAt => exact World.Cleared.still hs hl hw

end

/-! ### Calls -/

/-- All its life, an activity that settles is known for the same things. -/
theorem lives {a : Operation} {keeps : (CallId → Nat) → Token → a.State → World → Prop}
    {holds : Token → a.State → World → Prop} {out : Status a.State Result × World}
    (h : a.Settles id keeps holds) (hd : a.Attends id kinds keeps) (hw₀ : w₀.Awaits id t)
    (hl : a.Lives id timely t w₀ out) : Rests id t (holds t) (World.Over id t) out := by
  have hnil : w₀.invoked id = [] := hw₀.invoked .self
  induction hl with
  | start => exact h.start hw₀.ready hw₀.ledger hnil
  | wait hl hw _ ih => exact ⟨hw.still.ledger ih.1, h.stable ih.1 ih.2 hw.still⟩
  | resume hl ih =>
    obtain ⟨hready, hkept⟩ := hd.lives hw₀.ready hl
    exact h.resume hready ih.1 hkept ih.2

end Activity.Settles

end

/-! ### All the layers -/

section

variable {op : Operation} {keeps : (CallId → Nat) → Token → op.State → World → Prop}
  {holds : Nat → Token → op.State → World → Prop} {own : op.State → Token} {layers : List Layer}
  (hd : op.Attends site.call [] keeps) (hown : ∀ {m t s w}, keeps m t s w → own s = t)
  (h : ∀ t₀, op.Lasts site.call t₀ keeps holds)
  (hordered : layers.Pairwise fun a b => a.kind.position < b.kind.position)

include hd hown h hordered

/-- Inside the retry layer there is at most a hedge. -/
theorem Activity.Lasts.stack
    (hbelow : ∀ l ∈ layers, LayerKind.retry.position < l.kind.position) :
    ∃ holds', ∀ t₀, (stack site layers op).Lasts site.call t₀ (stackKeeps site op keeps layers)
      holds' := by
  match layers with
  | [] => exact ⟨holds, h⟩
  | [.hedge delay] =>
    have hmore : op.Attends site.call [.hedge] keeps := hd.attends_mono (List.nil_subset _)
    exact ⟨_, fun t₀ => (h t₀).withHedge own hmore hown List.mem_cons_self⟩
  | .hedge delay :: l :: rest =>
    have hlt := (List.pairwise_cons.mp hordered).1 l List.mem_cons_self
    cases l <;> exact absurd hlt (by simp [Layer.kind, LayerKind.position])
  | .fallback _ :: _ | .timeout _ :: _ | .breaker _ :: _ | .rateLimit _ :: _ | .bulkhead _ :: _
  | .retry _ :: _ =>
    have hlt := hbelow _ List.mem_cons_self
    exact absurd hlt (by simp [Layer.kind, LayerKind.position])

/-- **A call through layers** is over when it has returned. -/
theorem Activity.Settles.stack :
    ∃ holds', (stack site layers op).Settles site.call (stackKeeps site op keeps layers) holds' := by
  induction layers with
  | nil => exact ⟨_, Lasts.settles h⟩
  | cons l rest ih =>
    obtain ⟨hbelow, hrest⟩ := List.pairwise_cons.mp hordered
    obtain ⟨holds', hsettles⟩ := ih hrest
    have hattends := hd.stack site rest
    cases l with
    | fallback value => exact ⟨_, hsettles.withFallback value⟩
    | timeout length => exact ⟨_, hsettles.withTimeout length hattends⟩
    | breaker s => exact ⟨_, hsettles.behindBreaker s⟩
    | rateLimit limit => exact ⟨_, hsettles.behindRateLimit limit⟩
    | bulkhead capacity => exact ⟨_, hsettles.behindBulkhead capacity⟩
    | retry r =>
      obtain ⟨holds', hlasts⟩ := Lasts.stack hd hown h hrest hbelow
      have hmore := hattends.attends_mono (List.subset_cons_self LayerKind.retry _)
      exact ⟨_, withRetry hmore fun t₀ => (hlasts t₀).attempt r hattends⟩
    | hedge delay =>
      obtain ⟨holds', hlasts⟩ := Lasts.stack hd hown h hordered fun l hl => by
        rcases List.mem_cons.mp hl with rfl | hl
        · exact Nat.lt_succ_self _
        · exact Nat.lt_trans (Nat.lt_succ_self _) (hbelow l hl)
      exact ⟨_, Lasts.settles hlasts⟩

end

/-! ### What is cancelled on behalf of a call -/

namespace Token

/-- Below its token `t`, the token `a` was made on behalf of a call, or of a call inside it,
and is none of the first `m` ones. -/
def Bears (t : Token) (id : CallId) (m : CallId → Nat) (a : Token) : Prop :=
  ∃ c u n, Serves id t c u ∧ m c ≤ n ∧ a = u.child c n

/-- Every step to the token that was made on behalf of a call, or of a call inside it, is
one of the first `m` ones. -/
def Foreign (id : CallId) (m : CallId → Nat) (v : Token) : Prop :=
  ∀ s ∈ v.path, id.Within s.1 → s.2 < m s.1

theorem Before.foreign (h : v.Before m) : v.Foreign id m := fun s hs _ => h s hs

theorem Bears.governs (h : t.Bears id m a) : t.governs a = true := by
  obtain ⟨c, u, n, hserves, -, rfl⟩ := h
  exact governs_trans hserves.governs (u.governs_child c n)

/-- A token that was made for a call is above those alone that were made for it later. -/
theorem Bears.not_governs (h : t.Bears id m a) (hv : v.Foreign id m) : a.governs v ≠ true := by
  obtain ⟨c, u, n, hserves, hn, rfl⟩ := h
  intro hg
  have hmem := (governs_iff.mp hg).2.subset (List.mem_cons_self (a := (c, n)))
  exact absurd (hv _ hmem hserves.within) (Nat.not_lt.mpr hn)

end Token

/-- **The tokens of another call** were not made for this one. -/
theorem Serves.foreign {id' c : CallId} {t' : Token} (h : Serves id' t' c v)
    (hapart : ∀ {c}, id'.Within c → ¬id.Within c) (ht : t'.Foreign id m) : v.Foreign id m := by
  intro s hs hwithin
  rcases h.within_of_mem hs with hs | hother
  · exact ht s hs hwithin
  · exact absurd hwithin (hapart hother)

/-- The tokens that were cancelled were made on behalf of a call, or they are root tokens
that are not `spared`. -/
def World.Culls (id : CallId) (t : Token) (m : CallId → Nat) (spared : String → Prop)
    (w w' : World) : Prop :=
  ∃ as, w'.cancelled = as ++ w.cancelled ∧
    ∀ a ∈ as, (∃ root, a = .named root ∧ ¬spared root) ∨ t.Bears id m a

theorem World.Confined.culls {spared : String → Prop}
    (h : w.Confined (.ofCall id kinds t) m w') (hroots : ∀ root, spared root → w.Leaves root w') :
    w.Culls id t m spared w' := by
  obtain ⟨as, heq, has⟩ := h.cancelled
  refine ⟨as, heq, fun a ha => ?_⟩
  rcases has a ha with hroot | ⟨-, hmade⟩
  · obtain ⟨root, path⟩ := a
    obtain rfl : path = [] := hroot
    refine .inl ⟨root, rfl, fun hspared => ?_⟩
    obtain ⟨as', heq', hnot⟩ := hroots root hspared
    exact hnot (List.append_cancel_right (heq.symm.trans heq') ▸ ha)
  · exact .inr hmade

/-- A move has cancelled nothing, or a root token from outside, or what the call that it was
made on behalf of may cancel; and none of that is above a token of another call. -/
def Simulation.Culls (S S' : Simulation) : Prop :=
  S'.world.cancelled = S.world.cancelled ∨
  (∃ root, S' = { S with world := S.world.cancel (.named root) }) ∨
  ∃ c w₁, S.Acts False S' c w₁ ∧
    S.world.Culls c.id c.token w₁.minted (fun root => c.Leaves root) S'.world ∧
    ∀ a, c.token.Bears c.id w₁.minted a → ∀ {name n t d v}, CallId.top name n ≠ c.id →
      t.path = [] → Serves (.top name n) t d v → a.governs v ≠ true

/-- **Whatever a move cancels** is not above a token of another call, unless it is a root
token. -/
theorem Simulation.Orderly.culls {S S' : Simulation} (h : S.Orderly False) (hmove : Move S S') :
    S.Culls S' := by
  rcases h.move_cases hmove with hidle | ⟨c, w₁, hacts⟩
  · exact hidle.cancelled.imp_right .inl
  · refine .inr (.inr ⟨c, w₁, hacts, hacts.confined.culls hacts.leaves, fun a ha => ?_⟩)
    intro name n t d v hne ht hv
    obtain ⟨name', n', hid, -⟩ := hacts.outside.started
    refine ha.not_governs (hv.foreign (fun {c'} hc => ?_) fun s hs => ?_)
    · rw [hid] at hne ⊢
      exact CallId.apart_of_top hne hc
    · rw [ht] at hs
      cases hs

/-- **Tokens are cancelled exactly where they must be.** -/
theorem tokens_cancelled_exactly (p : Policy) (script : Script)
    {out : Status (p.call id (script.operation id)).State Result × World}
    (hw₀ : w₀.Awaits id t)
    (h : (p.call id (script.operation id)).Lives id timely t w₀ out) :
    let call := p.call id (script.operation id)
    let culls := World.Culls id t w₀.minted fun root =>
      p.origin.hooks.Leaves root ∧ scriptLeaves root script
    (∀ r w, out = (.done r, w) → ∀ k u, w.Invoked id k u →
      (¬w.Finished id k → w.isCancelled u = true) ∧
      (w.trace.countP (Entry.expires id) = 0 → w.Finished id k →
        w.isCancelled u = w.isCancelled t)) ∧
    culls w₀ (call.start t w₀).2 ∧
    (∀ s w, out = (.pending s, w) →
      culls w (call.resume s w).2 ∧ culls w (w.releaseAll (call.holdings s))) ∧
    (∀ a, t.Bears id w₀.minted a → t.governs a = true ∧ a.governs t ≠ true ∧
      ∀ id' t' c v, (∀ {c}, id'.Within c → ¬id.Within c) → t'.Foreign id w₀.minted →
        Serves id' t' c v → a.governs v ≠ true) ∧
    ∀ {chance S S'}, Simulation.Reachable chance S → Simulation.Move S S' → S.Culls S' := by
  intro call culls
  obtain ⟨keeps, hd, hown, hlasts⟩ := Lasts.script script id
  have hattends := hd.stack ⟨p.origin, id⟩ p.layers
  let site : Site := ⟨p.origin, id⟩
  obtain ⟨holds, hsettles⟩ : ∃ holds, call.Settles id (stackKeeps site _ keeps p.layers) holds :=
    Settles.stack hd hown hlasts p.ordered
  -- a root token is cancelled only by the hooks of the policy and by the script
  have hroots : ∀ root, p.origin.hooks.Leaves root ∧ scriptLeaves root script →
      ∃ fits, call.Leaves root fits := fun root hroot => p.leaves id hroot.1 hroot.2
  refine ⟨?_, ?_, ?_, fun a ha => ⟨ha.governs, ha.not_governs hw₀.token.foreign, ?_⟩,
    fun hS hmove => hS.reaches.orderly.culls hmove⟩
  · rintro r w rfl k u hk
    -- over: what was invoked has finished or been cancelled, unless the deadline cut it off
    obtain ⟨hl, hcleared | hexpired⟩ := hsettles.lives hattends hw₀ h
    · have hsettled := hcleared hk
      exact ⟨hsettled.dropped, fun _ => hsettled.isCancelled_eq (hl.stems hk.mem).governs⟩
    · have hc := hexpired.cancelled u hk.mem
      exact ⟨fun _ => hc, fun hnone => absurd hnone hexpired.told⟩
  · refine (hattends.start hw₀.ready).confined.culls fun root hroot => ?_
    obtain ⟨fits, hleaves⟩ := hroots root hroot
    exact (hleaves.start t w₀).leaves
  · rintro s w rfl
    obtain ⟨hresumed, hreleased⟩ := hattends.confined_of_lives hw₀.ready h
    refine ⟨hresumed.culls fun root hroot => ?_, hreleased.culls fun root hroot => ?_⟩
    · obtain ⟨fits, hleaves⟩ := hroots root hroot
      exact (hleaves.resume s w (hleaves.lives h)).leaves
    · obtain ⟨fits, hleaves⟩ := hroots root hroot
      exact hleaves.release s w
  · exact fun id' t' c v hapart ht' hv => ha.not_governs (hv.foreign hapart ht')

/-- A policy that allows two attempts of five milliseconds each. -/
def brisk : Policy where
  origin := ⟨0, "p", .none⟩
  layers := [.retry { maxAttempts := 2, backoff := .constant (.ofMillis 0),
                      attemptTimeout := some (.ofMillis 5) }]
  criticality := .critical
  dependencies := []
  ordered := List.pairwise_singleton _ _
  faultless l hl := by
    obtain rfl := List.mem_singleton.mp hl
    decide

/-- An operation that hangs the first time. -/
def awkward : Script := [[.hang], [.give (.ok "v")]]

/-- A call through the policy to it. -/
def repeating : Operation := brisk.call (.top "c" 0) (awkward.operation (.top "c" 0))

/-- The world in which the call is started, with the policy built. -/
def beforeRepeating : World := brisk.install (.start .plain)

/-- The first attempt has taken too long. -/
def lateAttempt : World := { (repeating.start (.named "t") beforeRepeating).2 with now := 5000000 }

/-- The first attempt hangs, and its deadline is set. -/
def stalledAttempt : repeating.State :=
  let u := (Token.named "t").child (.top "c" 0) 0
  .trying (.named "t") 1 ⟨u, 5000000, 0, u, .inl ⟨u, .ok ""⟩⟩

/-- The first attempt is cancelled, and the second one is not. -/
theorem tokens_cancelled_exactly_repeating :
    beforeRepeating.Awaits (.top "c" 0) (.named "t") ∧
    ∃ s w, repeating.Lives (.top "c" 0) True (.named "t") beforeRepeating
        (.pending s, lateAttempt) ∧
      repeating.resume s lateAttempt = (.done (.ok "v"), w) ∧
      w.isCancelled ((Token.named "t").child (.top "c" 0) 0) = true ∧
      w.isCancelled ((Token.named "t").child (.top "c" 0) 1) = false := by
  have hw₀ : beforeRepeating.Awaits (.top "c" 0) (.named "t") :=
    ⟨nofun, nofun, fun _ => rfl, nofun⟩
  obtain ⟨keeps, hd⟩ := brisk.docile (.top "c" 0) awkward
  have hfirst := (hd.start hw₀.ready).confined
  -- five milliseconds pass, in which nobody does anything
  have hmeanwhile : (repeating.start (.named "t") beforeRepeating).2.Meanwhile (.top "c" 0)
      (.named "t") lateAttempt :=
    ⟨hfirst.now.trans_le (Nat.zero_le _), hfirst.sane hw₀.sane,
      ⟨fun _ => Nat.le_refl _, [], rfl, nofun⟩, fun _ => rfl, [], rfl, nofun⟩
  have hl : repeating.Lives (.top "c" 0) True (.named "t") beforeRepeating
      (.pending stalledAttempt, lateAttempt) := by
    have hstart : repeating.Lives (.top "c" 0) True (.named "t") beforeRepeating
        (.pending stalledAttempt, (repeating.start (.named "t") beforeRepeating).2) := .start
    refine hstart.wait hmeanwhile fun _ d hd => ?_
    obtain rfl := List.mem_singleton.mp hd
    exact Nat.le_refl 5000000
  obtain ⟨hdone, -⟩ := tokens_cancelled_exactly brisk awkward hw₀ hl.resume
  have hends : repeating.resume stalledAttempt lateAttempt =
      (.done (.ok "v"), (repeating.resume stalledAttempt lateAttempt).2) := Prod.ext rfl rfl
  refine ⟨hw₀, stalledAttempt, _, hl, hends, ?_, ?_⟩
  · refine (hdone (.ok "v") _ hends 0 _ rfl).1 ?_
    -- its end is not among the records
    rintro ⟨e, he, ending, heq⟩
    have htrace : (repeating.resume stalledAttempt lateAttempt).2.trace.map Entry.record =
        [.finished (.top "c" 0) 1 (.returned (.ok "v")), .invoked (.top "c" 0) 1 false,
         .event ⟨brisk.origin, .top "c" 0⟩ (.retrying 1 .timeout),
         .event ⟨brisk.origin, .top "c" 0⟩ (.attemptTimedOut 1 (.ofMillis 5)),
         .abandoned (.top "c" 0) 0 false, .invoked (.top "c" 0) 0 false] := rfl
    have hmem : e.record ∈ (repeating.resume stalledAttempt lateAttempt).2.trace.map Entry.record :=
      List.mem_map_of_mem he
    rw [htrace, heq] at hmem
    simp at hmem
  · refine ((hdone (.ok "v") _ hends 1 _ rfl).2 rfl ?_).trans rfl
    exact ⟨_, List.mem_cons_self, _, rfl⟩

end CallPolicy
