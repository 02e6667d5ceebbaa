/-
The layers of a policy are docile.

What is known of a suspended operation is known again when there are layers around it
(`Layer.keeps`, `stackKeeps`): the retry layer stands by the token that it got, and the
hedge layer by its children.

* **`Docile.withRetry`**, **`Docile.withHedge`**, … — one lemma a layer;
* **`Docile.stack`** — a call is docile if its operation is.
-/
import CallPolicy.Proofs.Docile
import CallPolicy.Layer

namespace CallPolicy

open Operation

/-- The activity is docile on behalf of a call, with layers of some kinds. -/
abbrev Activity.Attends {ο : Type} (a : Activity Token ο) (id : CallId) (kinds : List LayerKind)
    (keeps : (CallId → Nat) → Token → a.State → World → Prop) : Prop :=
  a.Docile (.ofCall id kinds) (fun t => t) (fun _ _ => True) keeps

/-! ### What is known of suspended layers -/

/-- What is known of an attempt. -/
def Operation.attemptKeeps (site : Site) (op : Operation)
    (keeps : (CallId → Nat) → Token → op.State → World → Prop) :
    (r : RetrySettings) → (CallId → Nat) → Token → (attempt site r op).State → World → Prop
  | { attemptTimeout := some _, .. }, m, t, a, w => Activity.Raised site.call keeps m t a.token a.inner w
  | { attemptTimeout := none, .. }, m, t, a, w => keeps m t a w

/-- What is known of the retry layer. -/
def Operation.RetryState.Keeps {κ : Type} (keeps : (CallId → Nat) → Token → κ → World → Prop)
    (m : CallId → Nat) (t : Token) : RetryState κ → World → Prop
  | .trying token _ a, w => token = t ∧ keeps m t a w
  | .waiting token _ _, _ => token = t

/-- What is known of the hedge layer. -/
def Operation.HedgeState.Keeps {κ : Type} (call : CallId)
    (keeps : (CallId → Nat) → Token → κ → World → Prop) (m : CallId → Nat) (t : Token) :
    HedgeState κ → World → Prop
  | .early caller u _ first, w => caller = t ∧ Activity.Raised call keeps m t u first w
  | .alone first, w => ∃ u, Activity.Raised call keeps m t u first w
  | .racing u first v rival, w => u ≠ v ∧ Activity.Raised call keeps m t u first w ∧
      Activity.Raised call keeps m t v rival w

/-- What is known of an operation inside a layer is known of the layer. -/
def Layer.keeps (site : Site) (op : Operation)
    (keeps : (CallId → Nat) → Token → op.State → World → Prop) :
    (l : Layer) → (CallId → Nat) → Token → (l.apply site op).State → World → Prop
  | .fallback _, m, t, s, w => keeps m t s w
  | .timeout _, m, t, s, w => Activity.Raised site.call keeps m t s.token s.inner w
  | .breaker _, m, t, s, w => keeps m t s.2 w
  | .rateLimit _, m, t, s, w => keeps m t s w
  | .bulkhead _, m, t, s, w => keeps m t s.2 w
  | .retry r, m, t, s, w => RetryState.Keeps (attemptKeeps site op keeps r) m t s w
  | .hedge _, m, t, s, w => HedgeState.Keeps site.call keeps m t s w

/-- What is known of an operation inside some layers. -/
def stackKeeps (site : Site) (op : Operation)
    (keeps : (CallId → Nat) → Token → op.State → World → Prop) :
    (layers : List Layer) → (CallId → Nat) → Token → (stack site layers op).State → World → Prop
  | [] => keeps
  | l :: rest => l.keeps site (stack site rest op) (stackKeeps site op keeps rest)

variable {site : Site} {op : Operation} {kinds kinds' : List LayerKind} {w w' : World} {t u v : Token}
  {m m' : CallId → Nat} {keeps : (CallId → Nat) → Token → op.State → World → Prop}
  {σ : Scope}

/-- Among kinds that come after some kind, there is none that comes before it. -/
theorem LayerKind.not_mem_of_below {j k : LayerKind} (h : ∀ i ∈ kinds, k.position < i.position)
    (hj : j.position ≤ k.position) : j ∉ kinds := fun hmem =>
  absurd (h j hmem) (Nat.not_lt.mpr hj)

theorem Layer.kind_not_mem_of_below {j k : LayerKind} {layers : List Layer}
    (h : ∀ l ∈ layers, k.position < l.kind.position) (hj : j.position ≤ k.position) :
    j ∉ layers.map Layer.kind :=
  LayerKind.not_mem_of_below (List.forall_mem_map.mpr h) hj

namespace Scope

theorem records_event (site : Site) (t : Token) {e : Event} (h : e.teller ∈ kinds) :
    (ofCall site.call kinds t).Records (.event site e) :=
  records_ofCall rfl fun k hk => by
    cases hk
    exact h

theorem records_gate (site : Site) (t : Token) {step : GateStep}
    (h : ∀ k, (Record.gate site step).teller? = some k → k ∈ kinds) :
    (ofCall site.call kinds t).Records (.gate site step) := records_ofCall rfl h

end Scope

/-! ### Gates -/

section

variable (site : Site) (t : Token)

theorem Scope.holds_permit (s : BreakerSettings) (p : Permit) (hk : .breaker ∈ kinds) :
    (ofCall site.call kinds t).Holds (.permit site s p) := by
  refine ⟨fun o => records_gate site t fun k hteller => ?_, fun st => records_event site t ?_⟩
  · cases hteller
    exact hk
  · cases st <;> exact hk

namespace World.Confined

variable (w : World)

theorem acquirePermit (s : BreakerSettings) (hk : .breaker ∈ kinds) :
    w.Confined (.ofCall site.call kinds t) m (acquirePermit site s w).2 := by
  have hnews := (Scope.holds_permit site t s ⟨0, false⟩ hk).2
  unfold Operation.acquirePermit
  split <;> dsimp only
  next p b _ =>
    refine (World.Confined.setBreaker w _ (hnews _)).trans (.note _ ?_)
    refine Scope.records_gate site t fun k hteller => ?_
    cases hteller
    exact hk
  · exact (World.Confined.setBreaker w _ (hnews _)).trans (.emit _ (Scope.records_event site t hk))

theorem takeSlot (capacity : Nat) (hk : .bulkhead ∈ kinds) :
    w.Confined (.ofCall site.call kinds t) m (takeSlot site capacity w).2 := by
  unfold Operation.takeSlot
  split <;> dsimp only
  · exact (World.Confined.modifyGates w _ _).trans (.emit _ (Scope.records_event site t hk))
  · exact .emit _ (Scope.records_event site t hk)

theorem takeToken {l : RateLimit} {granted : Bool} (h : takeToken site l w = (granted, w')) :
    w.Confined σ m w' := by
  obtain ⟨bucket, rfl⟩ := takeToken_eq site w h
  exact .modifyGates w _ _

theorem tokenTaken (hk : .rateLimit ∈ kinds) :
    w.Confined (.ofCall site.call kinds t) m (w.note (.gate site .tokenTaken)) := by
  refine .note _ (Scope.records_gate site t fun k hteller => ?_)
  cases hteller
  exact hk

variable {w}

/-- The breaker has been asked. -/
theorem of_acquirePermit {s : BreakerSettings} {e : Except Result Permit}
    (h : Operation.acquirePermit site s w = (e, w')) :
    w.Confined (.ofCall site.call [.breaker] t) m w' := by
  have hasked : w.Confined (.ofCall site.call [.breaker] t) m
      (Operation.acquirePermit site s w).2 := .acquirePermit site t w s List.mem_cons_self
  rwa [h] at hasked

/-- The bulkhead has been asked. -/
theorem of_takeSlot {capacity : Nat} {e : Except Result Unit}
    (h : Operation.takeSlot site capacity w = (e, w')) :
    w.Confined (.ofCall site.call [.bulkhead] t) m w' := by
  have hasked : w.Confined (.ofCall site.call [.bulkhead] t) m
      (Operation.takeSlot site capacity w).2 := .takeSlot site t w capacity List.mem_cons_self
  rwa [h] at hasked

/-- The rate limit has given a token away. -/
theorem of_takeToken {l : RateLimit} (h : Operation.takeToken site l w = (true, w')) :
    w.Confined (.ofCall site.call [.rateLimit] t) m (w'.note (.gate site .tokenTaken)) :=
  (takeToken site w h).trans (.tokenTaken site t w' List.mem_cons_self)

end World.Confined

end

namespace Activity.Docile

/-- The same with more layers. -/
theorem attends_mono {ο : Type} {a : Activity Token ο}
    {keeps : (CallId → Nat) → Token → a.State → World → Prop}
    (h : a.Attends site.call kinds keeps) (hk : kinds ⊆ kinds') : a.Attends site.call kinds' keeps :=
  h.mono fun t => Scope.ofCall_le hk (.refl site.call t)

/-! ### Gates and endings -/

theorem behindBreaker (s : BreakerSettings) (hk : .breaker ∈ kinds)
    (h : op.Attends site.call kinds keeps) :
    (behindBreaker site s op).Attends site.call kinds (fun m t s => keeps m t s.2) :=
  holding (fun t p => Scope.holds_permit site t s p hk)
    (fun {_ t w} => .acquirePermit site t w s hk) (fun _ => trivial)
    (fun {_ t p _ w} => .settlePermit w s p _ (Scope.holds_permit site t s p hk)) h

theorem behindBulkhead (capacity : Nat) (hk : .bulkhead ∈ kinds)
    (h : op.Attends site.call kinds keeps) :
    (behindBulkhead site capacity op).Attends site.call kinds (fun m t s => keeps m t s.2) := by
  have hheld : ∀ (t : Token) (u : Unit), (Scope.ofCall site.call kinds t).Holds (.slot site) :=
    fun t _ => Scope.records_event site t hk
  exact holding hheld (fun {_ t w} => .takeSlot site t w capacity hk) (fun _ => trivial)
    (fun {_ t _ _ w} => .release w (hheld t ())) h

theorem behindRateLimit (l : RateLimit) (hk : .rateLimit ∈ kinds)
    (h : op.Attends site.call kinds keeps) :
    (behindRateLimit site l op).Attends site.call kinds keeps := by
  have hstands : ∀ {m t s w}, op.Stands (.ofCall site.call kinds t) (keeps m) t s w →
      (Operation.behindRateLimit site l op).Stands (.ofCall site.call kinds t) (keeps m) t s w :=
    fun hs => ⟨hs.kept, hs.atRest.due, hs.atRest.rests⟩
  refine ⟨fun {t w} hw => ?_, fun hw hs => ?_, h.stable, h.earlier, h.holdings⟩
  · unfold Operation.behindRateLimit
    dsimp only
    split
    next w' heq =>
      have htaken : w.Confined (.ofCall site.call kinds t) w.minted w' := .takeToken site w heq
      refine (h.start_after hw (htaken.trans (.tokenTaken site t w' hk))).imp (.refl _)
        (fun _ => Nat.le_refl _) (fun _ _ _ => hstands) fun _ he => he
    next w' heq =>
      have htaken : w.Confined (.ofCall site.call kinds t) w.minted w' := .takeToken site w heq
      exact ⟨htaken.trans (.emit _ (Scope.records_event site t hk)), trivial⟩
  · exact (h.resume hw hs).imp (.refl _) (fun _ => Nat.le_refl _) (fun _ _ _ => hstands)
      fun _ he => he

theorem withFallback (value : String) (hk : .fallback ∈ kinds)
    (h : op.Attends site.call kinds keeps) :
    (withFallback site value op).Attends site.call kinds keeps := by
  refine after (fun {m t r w} => ?_) (fun _ => trivial) h
  cases r with
  | ok v => exact .refl _ _ _
  | error f => exact .emit _ (Scope.records_event site t hk)

theorem withTimeout (length : Duration) (hk : .timeout ∈ kinds)
    (h : op.Attends site.call kinds keeps) :
    (withTimeout site length op).Attends site.call kinds
      (fun m t s => Raised site.call keeps m t s.token s.inner) := by
  refine after (fun {m t r w} => ?_) (fun _ => trivial) (within h length)
  cases r with
  | some r => exact .refl _ _ _
  | none => exact .emit _ (Scope.records_event site t hk)

end Activity.Docile

/-! ### Retry -/

namespace World.Confined

variable (site : Site) (r : RetrySettings) (w : World) (t : Token) (hk : .retry ∈ kinds)

include hk

theorem attemptResult (n : Nat) (o : Option Result) :
    w.Confined (.ofCall site.call kinds t) m (attemptResult site r n o w).2 := by
  unfold Operation.attemptResult
  split
  · exact .refl _ _ _
  next length _ =>
    have htold : Event.teller (.attemptTimedOut n length) ∈ kinds := hk
    exact World.Confined.emit w (Scope.records_event site t htold)
  · exact .refl _ _ _

theorem mayRepeat (token : Token) (f : Failure) :
    w.Confined (.ofCall site.call kinds t) m (mayRepeat site r token f w).2 := by
  unfold Operation.mayRepeat
  split
  · exact .refl _ _ _
  · split
    · exact .refl _ _ _
    · refine .note w (Scope.records_ofCall rfl fun k hteller => ?_)
      cases hteller
      exact hk

omit hk in
theorem nextDelay (n : Nat) : w.Confined σ m (nextDelay r n w).2 := by
  unfold Operation.nextDelay
  split
  · exact .draw w
  · exact .refl _ _ _

variable {n : Nat} {o : Option Result} {token : Token} {f : Failure} {w₁ w₂ w₃ : World}

/-- An attempt has failed, and it is clear whether it may be repeated. -/
theorem judged {again : Bool} (h₁ : Operation.attemptResult site r n o w = (.error f, w₁))
    (h₂ : Operation.mayRepeat site r token f w₁ = (again, w₂)) :
    w.Confined (.ofCall site.call kinds t) m w₂ := by
  have hresult := attemptResult (m := m) site r w t hk n o
  have hmay := mayRepeat (m := m) site r w₁ t hk token f
  rw [h₁] at hresult
  rw [h₂] at hmay
  exact hresult.trans hmay

/-- A failed attempt is about to be repeated. -/
theorem repeated {delay : Duration}
    (h₁ : Operation.attemptResult site r n o w = (.error f, w₁))
    (h₂ : Operation.mayRepeat site r token f w₁ = (true, w₂))
    (h₃ : Operation.nextDelay r n (w₂.emit site (.retrying n f)) = (delay, w₃)) :
    w.Confined (.ofCall site.call kinds t) m w₃ := by
  have hdelay := nextDelay (σ := .ofCall site.call kinds t) (m := m) r
    (w₂.emit site (.retrying n f)) n
  rw [h₃] at hdelay
  have htold : w₂.Confined (.ofCall site.call kinds t) m (w₂.emit site (.retrying n f)) :=
    .emit w₂ (Scope.records_event site t hk)
  exact (judged site r w t hk h₁ h₂).trans (htold.trans hdelay)

end World.Confined

namespace Activity.Docile

theorem attempt (r : RetrySettings) (h : op.Attends site.call kinds keeps) :
    (attempt site r op).Attends site.call kinds (attemptKeeps site op keeps r) := by
  obtain ⟨maxAttempts, backoff, maxDelay, attemptTimeout, retryIf⟩ := r
  cases attemptTimeout with
  | none => exact after (.refl _ _ _) (fun _ => trivial) h
  | some length => exact within h length

theorem waiting_atRest (r : RetrySettings) {left wakeAt : Nat} (hearly : ¬wakeAt ≤ w.now) :
    (withRetry site r op).AtRest (Scope.ofCall site.call kinds t).acts t
      (.waiting t left wakeAt) w := by
  refine ⟨fun d hd => ?_, fun hlive w' hw' hearly' => ?_⟩
  · rw [List.mem_singleton.mp hd]
    exact Nat.lt_of_not_le hearly
  · have hlive' : w'.isCancelled t = false := (hw'.isCancelled (.refl _ _)).trans hlive
    rw [resume_waiting, if_neg (not_givesUp hlive'),
      if_neg (Nat.not_le.mpr (hearly' wakeAt List.mem_cons_self))]
    rfl

section

variable (r : RetrySettings) (hk : .retry ∈ kinds) (h : op.Attends site.call kinds keeps)

include hk h

/-- Whatever comes of an attempt, the layer goes on within its scope. -/
theorem proceed (t : Token) (left : Nat)
    (out : Status (Operation.attempt site r op).State (Option Result) × World) {w : World}
    (hw : w.Ready m t)
    (hout : Yields (.ofCall site.call kinds t) m w
      ((Operation.attempt site r op).Stands (.ofCall site.call kinds t)
        (attemptKeeps site op keeps r m) t) (fun _ => True) out) :
    Yields (.ofCall site.call kinds t) m w
      ((withRetry site r op).Stands (.ofCall site.call kinds t)
        (RetryState.Keeps (attemptKeeps site op keeps r) m) t) (fun _ => True)
      (proceed site r t left out) := by
  -- the loop starts attempts that are due at once, so the induction is on those left
  fun_induction Operation.proceed site r t left out
  case case1 left inner w' =>
    obtain ⟨hw', hs⟩ := hout
    refine ⟨hw', ⟨rfl, hs.kept⟩, hs.atRest.due, fun hlive w'' halike hearly => ?_⟩
    show Operation.proceed site r t left ((Operation.attempt site r op).resume inner w'') = _
    rw [hs.atRest.rests hlive w'' halike hearly, Operation.proceed]
    rfl
  case case2 left x w' => exact ⟨hout.confined, trivial⟩
  case case3 left o w' n v w₁ h₁ =>
    have hresult := World.Confined.attemptResult (m := m) site r w' t hk n o
    rw [h₁] at hresult
    exact ⟨hout.confined.trans hresult, trivial⟩
  case case4 left o w' n f w₁ h₁ w₂ h₂ =>
    exact ⟨hout.confined.trans (.judged site r w' t hk h₁ h₂), trivial⟩
  case case5 o w' f w₁ w₂ h₂ n h₁ =>
    exact ⟨hout.confined.trans (.judged site r w' t hk h₁ h₂), trivial⟩
  case case6 o w' f w₁ w₂ h₂ left delay w₃ wakeAt n h₁ h₃ hcancel =>
    exact ⟨hout.confined.trans (.repeated site r w' t hk h₁ h₂ h₃), trivial⟩
  case case7 o w' f w₁ w₂ h₂ left delay w₃ wakeAt hdue n h₁ h₃ hlive ih =>
    exact ih ((attempt r h).start_after hw (hout.confined.trans (.repeated site r w' t hk h₁ h₂ h₃)))
  case case8 o w' f w₁ w₂ h₂ left delay w₃ wakeAt hlate n h₁ h₃ hlive =>
    exact ⟨hout.confined.trans (.repeated site r w' t hk h₁ h₂ h₃), rfl, waiting_atRest r hlate⟩

theorem withRetry :
    (withRetry site r op).Attends site.call kinds
      (RetryState.Keeps (attemptKeeps site op keeps r)) := by
  have ha := attempt r h
  refine ⟨fun {t w} hw => proceed r hk h t _ _ hw (ha.start hw), fun {m t s w} hw hs => ?_,
    fun {m t s w w'} hw hs hspares hsane => ?_, fun {m m' t s w} hm hs => ?_,
    fun {m t s w} hs => ?_⟩
  · cases s with
    | trying token left inner =>
      obtain ⟨rfl, hkept⟩ := hs
      exact proceed r hk h token left _ hw (ha.resume hw hkept)
    | waiting token left wakeAt =>
      obtain rfl : token = t := hs
      -- the wait ends in three ways: given up, over, or still going on
      rw [resume_waiting]
      split
      · exact ⟨.refl _ _ _, trivial⟩
      · split
        · exact proceed r hk h token left _ hw (ha.start_after hw (.refl _ _ _))
        next hearly => exact ⟨.refl _ _ _, rfl, waiting_atRest r hearly⟩
  · cases s with
    | trying token left inner =>
      obtain ⟨rfl, hkept⟩ := hs
      exact ⟨rfl, ha.stable hw hkept hspares hsane⟩
    | waiting token left wakeAt => exact hs
  · cases s with
    | trying token left inner => exact ⟨hs.1, ha.earlier hm hs.2⟩
    | waiting token left wakeAt => exact hs
  · cases s with
    | trying token left inner =>
      obtain ⟨rfl, hkept⟩ := hs
      exact ha.holdings hkept
    | waiting token left wakeAt => exact nofun

end

/-! ### Hedge -/

section

variable {delay : Duration} (hk : .hedge ∈ kinds) (h : op.Attends site.call kinds keeps)

/-- The first attempt is alone for good. -/
theorem judgeAlone {out : Status op.State Result × World}
    (hout : Yields (.ofCall site.call kinds t) m w (Lodges site.call kinds op keeps m t u)
      (fun _ => True) out) :
    Yields (.ofCall site.call kinds t) m w
      ((withHedge site delay op).Stands (.ofCall site.call kinds t)
        (HedgeState.Keeps site.call keeps m) t) (fun _ => True) (judgeAlone out) := by
  obtain ⟨hw, hlands⟩ := hout
  rcases out with ⟨first | r | x, w'⟩
  · refine ⟨hw, ⟨u, hlands.raised⟩, hlands.atRest.due, fun hlive w'' halike hearly => ?_⟩
    show Operation.judgeAlone (op.resume first w'') = _
    rw [hlands.rests hlive halike hearly]
    rfl
  · exact ⟨hw, trivial⟩
  · exact ⟨hw, trivial⟩

include hk h

/-- The rival has been looked at while the first attempt was suspended. -/
theorem judgeRival {first : op.State} {out : Status op.State Result × World} (hw : w.Ready m t)
    (hne : u ≠ v) (hfirst : Lodges site.call kinds op keeps m t u first w)
    (hv : w.Fosters site.call m t v) (hrival : w.Confined (.ofCall site.call kinds v) m' out.2)
    (hout : Yields (.ofCall site.call kinds t) m w (Lodges site.call kinds op keeps m t v)
      (fun _ => True) out) :
    Yields (.ofCall site.call kinds t) m w
      ((withHedge site delay op).Stands (.ofCall site.call kinds t)
        (HedgeState.Keeps site.call keeps m) t) (fun _ => True)
      (judgeRival site u first v out) := by
  have hready := hrival.ready hw
  -- the rival leaves the first attempt alone
  have hspared := hrival.spares_sibling hfirst.raised.fosters hv hne
  have hlodges := h.lodges_child hfirst hspared Serves.governs hrival.now hready.sane
  have hheld := h.holdings_child hlodges.raised
  obtain ⟨hw', hlands⟩ := hout
  rcases out with ⟨rival | r | x, w'⟩
  · refine ⟨hw', ⟨hne, hlodges.raised, hlands.raised⟩, fun d hd => ?_,
      fun hlive w'' halike hearly => ?_⟩
    · exact (List.mem_append.mp hd).elim (hlodges.atRest.due d) (hlands.atRest.due d)
    · obtain ⟨hearly₁, hearly₂⟩ := List.forall_mem_append.mp hearly
      rw [Operation.withHedge_resume_racing]
      rw [hlodges.rests hlive halike hearly₁]
      dsimp only
      rw [hlands.rests hlive halike hearly₂]
      rfl
  · have hcancel : w'.Confined (.ofCall site.call kinds t) m (w'.cancel u) :=
      .cancel w' (hlodges.raised.fosters.cancels kinds fun _ => Nat.le_refl _)
    have htold : (w'.cancel u).Confined (.ofCall site.call kinds t) m
        ((w'.cancel u).emit site .hedgeWon) := .emit _ (Scope.records_event site t hk)
    exact ⟨hw'.trans (hcancel.trans (htold.trans (.releaseAll _ hheld))), trivial⟩
  · exact ⟨hw'.trans (.releaseAll _ hheld), trivial⟩

/-- The second attempt is announced, and gets a token of its own. -/
theorem launched (delay : Duration) {first : op.State} (hw : w.Ready m t)
    (hfirst : Lodges site.call kinds op keeps m t u first w) :
    let w₁ := w.emit site (.hedgeLaunched delay)
    let w₂ := (w₁.mint site.call t).2
    let v := (w₁.mint site.call t).1
    w.Confined (.ofCall site.call kinds t) m w₂ ∧ w₂.Ready m t ∧
      Raised site.call keeps m t u first w₂ ∧ w₂.Fosters site.call m t v ∧ u ≠ v := by
  intro w₁ w₂ v
  have htold : w.Confined (.ofCall site.call kinds t) m w₁ :=
    .emit w (Scope.records_event site t hk)
  have hminted : w₁.Confined (.ofCall site.call kinds t) m w₂ := .mint w₁ site.call t
  have hready₁ := htold.ready hw
  have hready₂ := hminted.ready hready₁
  have hbelow : ∀ {c x}, Serves site.call u c x → t.Below c x := fun hx =>
    Token.governs_trans hfirst.raised.fosters.governs hx.governs
  have hfirst₁ := h.stable_child hfirst.raised (w.spares_emit site (.hedgeLaunched delay) t)
    hbelow hready₁.sane
  have hfirst₂ := h.stable_child hfirst₁ (w₁.spares_mint site.call t t) hbelow hready₂.sane
  exact ⟨htold.trans hminted, hready₂, hfirst₂, .mint hready₁, hfirst₁.fosters.ne_mint t⟩

/-- The second attempt is launched, or the first one ends just before it is. -/
theorem launch_live (delay : Duration) {first : op.State} (hw : w.Ready m t)
    (hfirst : Lodges site.call kinds op keeps m t u first w) (hlive : w.isCancelled t = false) :
    Yields (.ofCall site.call kinds t) m ((w.emit site (.hedgeLaunched delay)).mint site.call t).2
      ((withHedge site delay op).Stands (.ofCall site.call kinds t)
        (HedgeState.Keeps site.call keeps m) t) (fun _ => True)
      (launch site delay t u first w) := by
  rw [Operation.launch_eq, if_neg (Bool.eq_false_iff.mp hlive)]
  let w₁ := w.emit site (.hedgeLaunched delay)
  let w₂ := (w₁.mint site.call t).2
  let v := (w₁.mint site.call t).1
  obtain ⟨-, hready₂, hfirst₂, hv, hne⟩ := launched hk h delay hw hfirst
  have hresume := h.resume_child hfirst₂
  obtain ⟨m₁, hconfined⟩ := h.confined_resume hfirst₂
  have hspared := hconfined.spares_sibling hv hfirst₂.fosters hne.symm
  split
  next first' w₃ heq =>
    rw [heq] at hresume hspared hconfined
    have hready₃ := hconfined.ready hready₂
    have hv₃ := hv.spares hspared (Token.governs_self v)
    refine .after hresume.confined ?_
    exact judgeRival hk h hready₃ hne hresume.lands hv₃ (h.confined_start hready₃ hv₃)
      (h.start_child hready₃ hv₃)
  next r w₃ heq =>
    rw [heq] at hresume hconfined
    exact ⟨hresume.confined.trans (.cancel _ (hv.cancels kinds hconfined.minted)), trivial⟩
  next x w₃ heq =>
    rw [heq] at hresume
    exact ⟨hresume.confined, trivial⟩

/-- The instant of the launch has come. -/
theorem launch {first : op.State} (hw : w.Ready m t)
    (hfirst : Lodges site.call kinds op keeps m t u first w) :
    Yields (.ofCall site.call kinds t) m w
      ((withHedge site delay op).Stands (.ofCall site.call kinds t)
        (HedgeState.Keeps site.call keeps m) t) (fun _ => True)
      (launch site delay t u first w) := by
  cases hlive : w.isCancelled t with
  | false => exact .after (launched hk h delay hw hfirst).1 (launch_live hk h delay hw hfirst hlive)
  | true =>
    rw [Operation.launch_eq, if_pos hlive]
    exact judgeAlone (h.resume_child hfirst.raised)

/-- The first attempt has been looked at while it is alone. -/
theorem judgeFirst {launchAt : Nat} {out : Status op.State Result × World} (hw : w.Ready m t)
    (hout : Yields (.ofCall site.call kinds t) m w (Lodges site.call kinds op keeps m t u)
      (fun _ => True) out) :
    Yields (.ofCall site.call kinds t) m w
      ((withHedge site delay op).Stands (.ofCall site.call kinds t)
        (HedgeState.Keeps site.call keeps m) t) (fun _ => True)
      (judgeFirst site delay t u launchAt out) := by
  obtain ⟨hw', hlands⟩ := hout
  rcases out with ⟨first | r | x, w'⟩
  · unfold Operation.judgeFirst
    dsimp only
    split
    · exact .after hw' (launch hk h (hw'.ready hw) hlands)
    next hearly =>
      refine ⟨hw', ⟨rfl, hlands.raised⟩, fun d hd => ?_, fun hlive w'' halike hearly' => ?_⟩
      · rcases List.mem_cons.mp hd with rfl | hd
        · exact Nat.lt_of_not_le hearly
        · exact hlands.atRest.due d hd
      · show Operation.judgeFirst site delay t u launchAt (op.resume first w'') = _
        obtain ⟨hlate, hinner⟩ := List.forall_mem_cons.mp hearly'
        rw [hlands.rests hlive halike hinner, Operation.judgeFirst,
          if_neg (Nat.not_le.mpr hlate)]
        rfl
  · exact ⟨hw', trivial⟩
  · exact ⟨hw', trivial⟩

theorem withHedge :
    (withHedge site delay op).Attends site.call kinds (HedgeState.Keeps site.call keeps) := by
  refine ⟨fun {t w} hw => ?_, fun {m t s w} hw hs => ?_,
    fun {m t s w w'} hw hs hspares hsane => ?_, fun {m m' t s w} hm hs => ?_,
    fun {m t s w} hs => ?_⟩
  -- the first attempt starts under a child of the token
  · have hminted : w.Confined (.ofCall site.call kinds t) w.minted (w.mint site.call t).2 :=
      .mint w site.call t
    have hready := hminted.ready hw
    exact .after hminted (judgeFirst hk h hready (h.start_child hready (.mint hw)))
  · cases s with
    | early caller u launchAt first =>
      obtain ⟨rfl, hraised⟩ := hs
      exact judgeFirst hk h hw (h.resume_child hraised)
    | alone first =>
      obtain ⟨u, hraised⟩ := hs
      exact judgeAlone (h.resume_child hraised)
    | racing u first v rival =>
      obtain ⟨hne, hfirst, hrival⟩ := hs
      have hresume := h.resume_child hfirst
      -- the first attempt has been looked at, and the rival is as it was
      have hready := hresume.confined.ready hw
      have hrival' := h.raised_beside hw hfirst hrival hne.symm
      have hheld := h.holdings_child hrival'
      rw [Operation.withHedge_resume_racing]
      split
      next first' w₁ heq =>
        rw [heq] at hresume hready hrival'
        obtain ⟨m₂, hconfined'⟩ := h.confined_resume hrival'
        exact .after hresume.confined (judgeRival hk h hready hne hresume.lands hrival'.fosters
          hconfined' (h.resume_child hrival'))
      -- the first attempt wins, so the rival is cancelled and dropped
      next r w₁ heq =>
        rw [heq] at hresume hrival'
        have hcancel : w₁.Confined (.ofCall site.call kinds t) m (w₁.cancel v) :=
          .cancel w₁ (hrival'.fosters.cancels kinds fun _ => Nat.le_refl _)
        exact ⟨hresume.confined.trans (hcancel.trans (.releaseAll _ hheld)), trivial⟩
      next x w₁ heq =>
        rw [heq] at hresume
        exact ⟨hresume.confined.trans (.releaseAll _ hheld), trivial⟩
  -- what spares the token spares its children
  · have hchild : ∀ {u : Token} {s : op.State}, Raised site.call keeps m t u s w →
        Raised site.call keeps m t u s w' := fun hs =>
      h.stable_child hs hspares (Serves.own hs.fosters.stems).trans hsane
    cases s with
    | early caller u launchAt first => exact ⟨hs.1, hchild hs.2⟩
    | alone first =>
      obtain ⟨u, hraised⟩ := hs
      exact ⟨u, hchild hraised⟩
    | racing u first v rival => exact ⟨hs.1, hchild hs.2.1, hchild hs.2.2⟩
  · cases s with
    | early caller u launchAt first => exact ⟨hs.1, hs.2.earlier hm⟩
    | alone first =>
      obtain ⟨u, hraised⟩ := hs
      exact ⟨u, hraised.earlier hm⟩
    | racing u first v rival => exact ⟨hs.1, hs.2.1.earlier hm, hs.2.2.earlier hm⟩
  · cases s with
    | early caller u launchAt first => exact h.holdings_child hs.2
    | alone first =>
      obtain ⟨u, hraised⟩ := hs
      exact h.holdings_child hraised
    | racing u first v rival =>
      intro hold hmem
      -- the rival is dropped first
      rcases List.mem_append.mp hmem with hmem | hmem
      · exact h.holdings_child hs.2.2 hold hmem
      · exact h.holdings_child hs.2.1 hold hmem

end

/-! ### All the layers -/

theorem apply (l : Layer) (h : op.Attends site.call kinds keeps) :
    (l.apply site op).Attends site.call (l.kind :: kinds) (l.keeps site op keeps) := by
  have hmore : op.Attends site.call (l.kind :: kinds) keeps := h.attends_mono (List.subset_cons_self _ _)
  cases l with
  | fallback value => exact withFallback value List.mem_cons_self hmore
  | timeout length => exact withTimeout length List.mem_cons_self hmore
  | breaker s => exact behindBreaker s List.mem_cons_self hmore
  | rateLimit l => exact behindRateLimit l List.mem_cons_self hmore
  | bulkhead capacity => exact behindBulkhead capacity List.mem_cons_self hmore
  | retry r => exact withRetry r List.mem_cons_self hmore
  | hedge delay => exact withHedge List.mem_cons_self hmore

/-- **Layers around a docile operation** are docile. -/
theorem stack (site : Site) (layers : List Layer) (h : op.Attends site.call kinds keeps) :
    (stack site layers op).Attends site.call (layers.map Layer.kind ++ kinds)
      (stackKeeps site op keeps layers) := by
  induction layers with
  | nil => exact h
  | cons l rest ih => exact apply l ih

/-- Among layers that come after those of some kind there is none of that kind. -/
theorem stack_of_below (site : Site) {k : LayerKind} {layers : List Layer}
    (hbelow : ∀ l ∈ layers, k.position < l.kind.position) (h : op.Attends site.call [] keeps) :
    (CallPolicy.stack site layers op).Attends site.call (layers.map Layer.kind)
      (stackKeeps site op keeps layers) ∧ k ∉ layers.map Layer.kind := by
  have hattends := h.stack site layers
  rw [List.append_nil] at hattends
  exact ⟨hattends, Layer.kind_not_mem_of_below hbelow (Nat.le_refl _)⟩

end Activity.Docile

end CallPolicy
