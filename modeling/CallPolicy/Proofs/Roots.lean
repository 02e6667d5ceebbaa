/-
What calls do, as far as anybody else is concerned.

What is done on behalf of a call is a number of small steps: something is recorded about
the call or about one inside it, a token is made for it or cancelled, a gate changes. A
relation between worlds that allows for each of these steps (`World.Allows`) holds between
any world and the one that the call leads to, wherever it starts from (`Activity.Obeys`).

A root token is cancelled on behalf of a call only by somebody who knows its name: a hook
of one of the policies, or an action of a script. If none of them does, it is left alone
(`World.Leaves`).

* **`Obeys.withRetry`**, **`Obeys.withHedge`**, … — one lemma a layer;
* **`Policy.obeys`**, **`Policy.leaves`** — a call through a policy.
-/
import CallPolicy.Proofs.DocileScript

namespace CallPolicy

open Activity Operation

variable {ι ο ο' κ η : Type} {root : String} {w w' w'' w₁ : World} {t u : Token} {site : Site}

/-- None of the hooks cancels the token. -/
def Hooks.Leaves (root : String) (hs : Hooks) : Prop := ∀ h, hs.cancelled? h ≠ some root

mutual

/-- Neither the action cancels the token, nor does a hook of a policy that it calls. -/
def Action.Leaves (root : String) : Action → Prop
  | .cancel token => token ≠ root
  | .call policy script => policy.origin.hooks.Leaves root ∧ scriptLeaves root script
  | _ => True

/-- None of the actions cancels the token. -/
def actionsLeave (root : String) : List Action → Prop
  | [] => True
  | a :: rest => a.Leaves root ∧ actionsLeave root rest

/-- No action of the script cancels the token. -/
def scriptLeaves (root : String) : List (List Action) → Prop
  | [] => True
  | actions :: rest => actionsLeave root actions ∧ scriptLeaves root rest

end

/-! ### What is done to a root token -/

namespace World

/-- The root token was not cancelled in between. -/
def Leaves (root : String) (w w' : World) : Prop :=
  ∃ as, w'.cancelled = as ++ w.cancelled ∧ Token.named root ∉ as

namespace Leaves

theorem of_eq (h : w'.cancelled = w.cancelled) : w.Leaves root w' := ⟨[], h, nofun⟩

theorem refl (w : World) : w.Leaves root w := of_eq rfl

theorem trans (h : w.Leaves root w') (h' : w'.Leaves root w'') : w.Leaves root w'' := by
  obtain ⟨as, heq, has⟩ := h
  obtain ⟨as', heq', has'⟩ := h'
  refine ⟨as' ++ as, by rw [heq', heq, List.append_assoc], fun hmem => ?_⟩
  exact (List.mem_append.mp hmem).elim has' has

theorem cancel (w : World) (h : t ≠ .named root) : w.Leaves root (w.cancel t) :=
  ⟨[t], rfl, fun hmem => h (List.mem_singleton.mp hmem).symm⟩

end Leaves

end World

/-! ### What may be done on behalf of some calls -/

/-- The token was made for one of the calls. -/
def Token.MadeFor (calls : CallId → Prop) (u : Token) : Prop :=
  ∃ c t n, calls c ∧ u = Token.child t c n

theorem Token.MadeFor.child {calls : CallId → Prop} {c : CallId} (hc : calls c) (t : Token)
    (n : Nat) : (t.child c n).MadeFor calls := ⟨c, t, n, hc, rfl⟩

namespace World

/-- The relation between worlds allows for whatever is done on behalf of `calls`, short of
the cancellation of a root token. -/
structure Allows (R : World → World → Prop) (root : String) (calls : CallId → Prop) : Prop where
  refl : ∀ w, R w w
  trans : ∀ {w w' w''}, R w w' → R w' w'' → R w w''
  note : ∀ w {r : Record}, calls r.call → R w (w.note r)
  cancel_named : ∀ w {name : String}, name ≠ root → R w (w.cancel (.named name))
  cancel_child : ∀ w {c : CallId} (t : Token) (n : Nat), calls c → R w (w.cancel (t.child c n))
  mint : ∀ w {c : CallId} (t : Token), calls c → R w (w.mint c t).2
  invoke : ∀ w {c : CallId} (k : Nat) (t : Token), calls c → R w (w.invoke c k t)
  draw : ∀ w, R w w.draw.2
  modifyGates : ∀ w (key : Nat) (f : Gates → Gates), R w (w.modifyGates key f)
  nested : ∀ {c : CallId} (k position : Nat) (name : String), calls c →
    calls (.nested c k position name)

theorem Leaves.allows (root : String) : Allows (Leaves root) root fun _ => True where
  refl := .refl
  trans := .trans
  note _ _ _ := .of_eq rfl
  cancel_named w _ h := .cancel w fun heq => h (congrArg Token.root heq)
  cancel_child w _ _ _ _ := .cancel w fun heq => List.cons_ne_nil _ _ (congrArg Token.path heq)
  mint _ _ _ _ := .of_eq rfl
  invoke _ _ _ _ _ := .of_eq rfl
  draw _ := .of_eq rfl
  modifyGates _ _ _ := .of_eq rfl
  nested _ _ _ h := h

namespace Allows

variable {R : World → World → Prop} {calls : CallId → Prop} (hR : Allows R root calls)

include hR

theorem releaseAll_append {hs hs' : List Holding} (h : ∀ w : World, R w (w.releaseAll hs))
    (h' : ∀ w : World, R w (w.releaseAll hs')) (w : World) : R w (w.releaseAll (hs ++ hs')) := by
  unfold World.releaseAll
  rw [List.foldl_append]
  exact hR.trans (h w) (h' _)

/-- A token that was made for one of the calls may be cancelled. -/
theorem cancel_made (w : World) (h : u.MadeFor calls) : R w (w.cancel u) := by
  obtain ⟨c, t, n, hc, rfl⟩ := h
  exact hR.cancel_child w t n hc

variable (hsite : site.origin.hooks.Leaves root) (hcall : calls site.call)

include hsite hcall

theorem emit (w : World) (e : Event) : R w (w.emit site e) := by
  have hnoted : R w (w.note (.event site e)) := hR.note w hcall
  unfold World.emit
  dsimp only
  split
  next name heq =>
    obtain ⟨hook, -, hname⟩ := Option.bind_eq_some_iff.mp heq
    refine hR.trans hnoted (hR.cancel_named _ fun hroot => hsite hook ?_)
    rw [hname, hroot]
  next => exact hnoted

theorem setBreaker (w : World) (b : Breaker) : R w (w.setBreaker site b) := by
  have hmodified := hR.modifyGates w site.origin.key fun g => { g with breaker := b }
  unfold World.setBreaker
  dsimp only
  split
  · exact hmodified
  · exact hR.trans hmodified (hR.emit hsite hcall _ _)

theorem settlePermit (w : World) (s : BreakerSettings) (p : Permit) (o : Outcome) :
    R w (w.settlePermit site s p o) :=
  hR.trans (hR.note w (r := .gate site (.permitSettled p o)) hcall) (hR.setBreaker hsite hcall _ _)

theorem releaseSlot (w : World) : R w (w.release (.slot site)) :=
  hR.trans (hR.modifyGates w _ _) (hR.emit hsite hcall _ .slotReleased)

section

variable {r : RetrySettings} {n : Nat} {o : Option Result} {f : Failure} {w₂ w₃ : World}

theorem attemptResult (r : RetrySettings) (n : Nat) (o : Option Result) (w : World) :
    R w (attemptResult site r n o w).2 := by
  unfold Operation.attemptResult
  split
  · exact hR.refl w
  next length _ => exact hR.emit hsite hcall w (.attemptTimedOut n length)
  · exact hR.refl w

/-- An attempt has failed, and it is clear whether it may be repeated. -/
theorem judged {again : Bool} (h₁ : Operation.attemptResult site r n o w = (.error f, w₁))
    (h₂ : mayRepeat site r t f w₁ = (again, w₂)) : R w w₂ := by
  have hresult := hR.attemptResult hsite hcall r n o w
  have hmay : R w₁ (mayRepeat site r t f w₁).2 := by
    unfold mayRepeat
    split
    · exact hR.refl w₁
    · split
      · exact hR.refl w₁
      · exact hR.note w₁ hcall
  rw [h₁] at hresult
  rw [h₂] at hmay
  exact hR.trans hresult hmay

/-- A failed attempt is about to be repeated. -/
theorem repeated {delay : Duration} (h₁ : Operation.attemptResult site r n o w = (.error f, w₁))
    (h₂ : mayRepeat site r t f w₁ = (true, w₂))
    (h₃ : nextDelay r n (w₂.emit site (.retrying n f)) = (delay, w₃)) : R w w₃ := by
  have hdelay : R (w₂.emit site (.retrying n f))
      (nextDelay r n (w₂.emit site (.retrying n f))).2 := by
    unfold nextDelay
    split
    · exact hR.draw _
    · exact hR.refl _
  rw [h₃] at hdelay
  exact hR.trans (hR.judged hsite hcall h₁ h₂) (hR.trans (hR.emit hsite hcall w₂ _) hdelay)

end

end Allows

end World

/-! ### Building blocks -/

namespace Activity

/-- What has been done is of some kind, and a suspended activity is in a fitting state. -/
structure ObeysIn (R : World → World → Prop) (fits : κ → Prop) (w : World)
    (out : Status κ ο × World) : Prop where
  obeys : R w out.2
  fits : Lands (fun s _ => fits s) (fun _ => True) out

/-- Whatever the activity does is of some kind. `fits` is known of its states: a token that
may be cancelled was made for one of the calls. -/
structure Obeys (R : World → World → Prop) (a : Activity ι ο) (fits : a.State → Prop) : Prop where
  start : ∀ i w, ObeysIn R fits w (a.start i w)
  resume : ∀ s w, fits s → ObeysIn R fits w (a.resume s w)
  release : ∀ s (w : World), R w (w.releaseAll (a.holdings s))

/-- The activity leaves a root token alone. -/
abbrev Leaves (root : String) (a : Activity ι ο) (fits : a.State → Prop) : Prop :=
  a.Obeys (World.Leaves root) fits

theorem ObeysIn.leaves {fits : κ → Prop} {out : Status κ ο × World}
    (h : ObeysIn (World.Leaves root) fits w out) : w.Leaves root out.2 := h.obeys

namespace Obeys

variable {R : World → World → Prop} {calls : CallId → Prop} (hR : World.Allows R root calls)

include hR

theorem later {fits : κ → Prop} {out : Status κ ο × World} (h : R w w')
    (h' : ObeysIn R fits w' out) : ObeysIn R fits w out := ⟨hR.trans h h'.obeys, h'.fits⟩

omit hR in
theorem atOnce {f : ι → World → ο × World} (hf : ∀ i (w : World), R w (f i w).2) :
    (Activity.atOnce f).Obeys R (fun _ => True) :=
  ⟨fun i w => ⟨hf i w, trivial⟩, (fun s => nomatch s), (fun s => nomatch s)⟩

theorem wait (state : ι → World → κ) (ready : κ → World → Option ο) (deadlines : κ → List Nat) :
    (Activity.wait state ready deadlines).Obeys R (fun _ => True) := by
  have hlook : ∀ s w, ObeysIn R (fun _ => True) w (Activity.wait.look ready s w) := by
    intro s w
    unfold Activity.wait.look
    split <;> exact ⟨hR.refl w, trivial⟩
  exact ⟨fun i w => hlook (state i w) w, fun s w _ => hlook s w, fun _ w => hR.refl w⟩

section

variable {a : Activity ι ο} {fits : a.State → Prop} (h : a.Obeys R fits)

include h

theorem after {f : ο → World → ο' × World} (hf : ∀ o (w : World), R w (f o w).2) :
    (a.after f).Obeys R fits := by
  have hfollow : ∀ {w : World} {out : Status a.State ο × World},
      ObeysIn R fits w out → ObeysIn R fits w (Activity.after.follow f a out) := by
    rintro w ⟨s | o | x, w'⟩ ⟨hw, hs⟩
    · exact ⟨hw, hs⟩
    · exact ⟨hR.trans hw (hf o w'), trivial⟩
    · exact ⟨hw, trivial⟩
  exact ⟨fun i w => hfollow (h.start i w), fun s w hs => hfollow (h.resume s w hs), h.release⟩

theorem holding {held : η → Holding} {take : World → Except ο η × World}
    {give : η → ο → World → World} (htake : ∀ w : World, R w (take w).2)
    (hgive : ∀ x o (w : World), R w (give x o w))
    (hrelease : ∀ x (w : World), R w (w.release (held x))) :
    (a.holding held take give).Obeys R (fun s => fits s.2) := by
  have hkeep : ∀ {w : World} {out : Status a.State ο × World} (x : η), ObeysIn R fits w out →
      ObeysIn R (fun s => fits s.2) w (Activity.holding.keep held give a x out) := by
    rintro w ⟨s | o | y, w'⟩ x ⟨hw, hs⟩
    · exact ⟨hw, hs⟩
    · exact ⟨hR.trans hw (hgive x o w'), trivial⟩
    · exact ⟨hR.trans hw (hrelease x w'), trivial⟩
  refine ⟨fun i w => ?_, fun s w hs => hkeep s.1 (h.resume s.2 w hs), fun s w => ?_⟩
  · have htaken := htake w
    cases htk : take w with
    | mk e w' =>
      rw [htk] at htaken
      cases e with
      | error o =>
        rw [holding_start_error htk]
        exact ⟨htaken, trivial⟩
      | ok x =>
        rw [holding_start_ok htk]
        exact hkeep x (later hR htaken (h.start i w'))
  · have hlast : ∀ w : World, R w (w.releaseAll [held s.1]) := hrelease s.1
    exact hR.releaseAll_append (h.release s.2) hlast w

end

theorem within {a : Activity Token ο} {fits : a.State → Prop} {call : CallId} (hcall : calls call)
    (length : Duration) (h : a.Obeys R fits) :
    (a.within call length).Obeys R (fun s => s.token.MadeFor calls ∧ fits s.inner) := by
  have hcheck : ∀ {w : World} {u : Token} {out : Status a.State ο × World} (deadline : Nat),
      u.MadeFor calls → ObeysIn R fits w out →
      ObeysIn R (fun s => s.token.MadeFor calls ∧ fits s.inner) w
        (Activity.within.check a u deadline out) := by
    rintro w u ⟨s | o | x, w'⟩ deadline hu ⟨hw, hs⟩
    · unfold Activity.within.check
      dsimp only
      split
      · exact ⟨hR.trans hw (hR.trans (h.release s w') (hR.cancel_made _ hu)), trivial⟩
      · exact ⟨hw, hu, hs⟩
    · exact ⟨hw, trivial⟩
    · exact ⟨hw, trivial⟩
  refine ⟨fun t w => ?_, fun s w hs => hcheck s.deadline hs.1 (h.resume s.inner w hs.2),
    fun s => h.release s.inner⟩
  exact hcheck _ (.child hcall _ _) (later hR (hR.mint w t hcall) (h.start _ _))

/-! ### Gates and endings -/

section

variable {op : Operation} {fits : op.State → Prop} (hsite : site.origin.hooks.Leaves root)
  (hcall : calls site.call) (h : op.Obeys R fits)

include hsite hcall h

theorem withFallback (value : String) : (withFallback site value op).Obeys R fits := by
  refine after hR h fun r w => ?_
  cases r with
  | ok v => exact hR.refl w
  | error f => exact hR.emit hsite hcall w _

theorem withTimeout (length : Duration) : (withTimeout site length op).Obeys R
    (fun s => s.token.MadeFor calls ∧ fits s.inner) := by
  refine after hR (within hR hcall length h) fun r w => ?_
  cases r with
  | some r => exact hR.refl w
  | none => exact hR.emit hsite hcall w _

theorem behindBreaker (s : BreakerSettings) :
    (behindBreaker site s op).Obeys R (fun s => fits s.2) := by
  refine holding hR h (fun w => ?_) (fun p r w => hR.settlePermit hsite hcall w s p _)
    fun p w => hR.settlePermit hsite hcall w s p .ignored
  unfold acquirePermit
  split <;> dsimp only
  · exact hR.trans (hR.setBreaker hsite hcall w _) (hR.note _ hcall)
  · exact hR.trans (hR.setBreaker hsite hcall w _) (hR.emit hsite hcall _ _)

theorem behindBulkhead (capacity : Nat) :
    (behindBulkhead site capacity op).Obeys R (fun s => fits s.2) := by
  refine holding hR h (fun w => ?_) (fun _ _ w => hR.releaseSlot hsite hcall w)
    fun _ w => hR.releaseSlot hsite hcall w
  unfold takeSlot
  split <;> dsimp only
  · exact hR.trans (hR.modifyGates w _ _) (hR.emit hsite hcall _ _)
  · exact hR.emit hsite hcall w _

theorem behindRateLimit (limit : RateLimit) : (behindRateLimit site limit op).Obeys R fits := by
  refine ⟨fun t w => ?_, h.resume, h.release⟩
  unfold Operation.behindRateLimit
  dsimp only
  split
  next w' heq =>
    obtain ⟨bucket, rfl⟩ := takeToken_eq site w heq
    have htaken : R w ((w.modifyGates site.origin.key fun g => { g with bucket }).note
        (.gate site .tokenTaken)) := hR.trans (hR.modifyGates w _ _) (hR.note _ hcall)
    exact later hR htaken (h.start t _)
  next w' heq =>
    obtain ⟨bucket, rfl⟩ := takeToken_eq site w heq
    exact ⟨hR.trans (hR.modifyGates w _ _) (hR.emit hsite hcall _ _), trivial⟩

/-! ### Retry -/

omit hsite in
theorem attempt (r : RetrySettings) : ∃ fits', (attempt site r op).Obeys R fits' := by
  obtain ⟨maxAttempts, backoff, maxDelay, attemptTimeout, retryIf⟩ := r
  cases attemptTimeout with
  | none => exact ⟨_, after hR h fun _ w => hR.refl w⟩
  | some length => exact ⟨_, within hR hcall length h⟩

omit h in
/-- Whatever comes of an attempt, what the layer does is of the same kind. -/
theorem proceed (r : RetrySettings) {a : Activity Token (Option Result)} {fits : a.State → Prop}
    (ha : a.Obeys R fits) (t : Token) (left : Nat)
    (out : Status a.State (Option Result) × World) (hout : ObeysIn R fits w out) :
    ObeysIn R (fun s => ∀ token left inner, s = .trying token left inner → fits inner) w
      (proceed site r t left out) := by
  obtain ⟨hw, hs⟩ := hout
  -- the loop starts attempts that are due at once, so the induction is on those left
  fun_induction Operation.proceed site r t left out
  case case1 left inner w₁ =>
    refine ⟨hw, fun token left' inner' heq => ?_⟩
    cases heq
    exact hs
  case case2 => exact ⟨hw, trivial⟩
  case case3 left o w₀ n v w₁ h₁ =>
    have hresult := hR.attemptResult hsite hcall r n o w₀
    rw [h₁] at hresult
    exact ⟨hR.trans hw hresult, trivial⟩
  case case4 left o w₀ n f w₁ h₁ w₂ h₂ =>
    exact ⟨hR.trans hw (hR.judged hsite hcall h₁ h₂), trivial⟩
  case case5 o w₀ f w₁ w₂ h₂ n h₁ =>
    exact ⟨hR.trans hw (hR.judged hsite hcall h₁ h₂), trivial⟩
  case case6 o w₀ f w₁ w₂ h₂ left delay w₃ wakeAt n h₁ h₃ hcancel =>
    exact ⟨hR.trans hw (hR.repeated hsite hcall h₁ h₂ h₃), trivial⟩
  case case7 o w₀ f w₁ w₂ h₂ left delay w₃ wakeAt hdue n h₁ h₃ hlive ih =>
    obtain ⟨hstart, hs'⟩ := ha.start t w₃
    exact ih (hR.trans hw (hR.trans (hR.repeated hsite hcall h₁ h₂ h₃) hstart)) hs'
  case case8 o w₀ f w₁ w₂ h₂ left delay w₃ wakeAt hlate n h₁ h₃ hlive =>
    refine ⟨hR.trans hw (hR.repeated hsite hcall h₁ h₂ h₃), ?_⟩
    rintro _ _ _ ⟨⟩

theorem withRetry (r : RetrySettings) : ∃ fits', (withRetry site r op).Obeys R fits' := by
  obtain ⟨fits', ha⟩ := attempt hR hcall h r
  refine ⟨fun s => ∀ token left inner, s = .trying token left inner → fits' inner,
    fun t w => proceed hR hsite hcall r ha t _ _ (ha.start t w), fun s w hs => ?_, fun s w => ?_⟩
  · cases s with
    | trying token left inner =>
      have hinner := ha.resume inner w (hs token left inner rfl)
      exact proceed hR hsite hcall r ha token left _ hinner
    | waiting token left wakeAt =>
      rw [resume_waiting]
      split
      · exact ⟨hR.refl w, trivial⟩
      · split
        · exact proceed hR hsite hcall r ha token left _ (ha.start token w)
        · exact ⟨hR.refl w, nofun⟩
  · cases s with
    | trying token left inner => exact ha.release inner w
    | waiting token left wakeAt => exact hR.refl w

/-! ### Hedge -/

/-- The tokens that the hedge layer may cancel were made for its call. -/
def HedgeFits (calls : CallId → Prop) (fits : κ → Prop) : HedgeState κ → Prop
  | .early _ u _ first => u.MadeFor calls ∧ fits first
  | .alone first => fits first
  | .racing u first v rival => u.MadeFor calls ∧ v.MadeFor calls ∧ fits first ∧ fits rival

section

variable {v : Token} {first : op.State} {delay : Duration}

omit hR hsite hcall h in
theorem judgeAlone {out : Status op.State Result × World} (hout : ObeysIn R fits w out) :
    ObeysIn R (HedgeFits calls fits) w (judgeAlone out) := by
  rcases out with ⟨s | r | x, w'⟩ <;> exact ⟨hout.obeys, hout.fits⟩

theorem judgeRival {out : Status op.State Result × World} (hu : u.MadeFor calls)
    (hv : v.MadeFor calls) (hfirst : fits first) (hout : ObeysIn R fits w out) :
    ObeysIn R (HedgeFits calls fits) w (judgeRival site u first v out) := by
  obtain ⟨hw, hs⟩ := hout
  rcases out with ⟨rival | r | x, w'⟩
  · exact ⟨hw, hu, hv, hfirst, hs⟩
  · have htold : R w' ((w'.cancel u).emit site .hedgeWon) :=
      hR.trans (hR.cancel_made w' hu) (hR.emit hsite hcall _ _)
    exact ⟨hR.trans hw (hR.trans htold (h.release first _)), trivial⟩
  · exact ⟨hR.trans hw (h.release first w'), trivial⟩

theorem launch (hu : u.MadeFor calls) (hfirst : fits first) :
    ObeysIn R (HedgeFits calls fits) w (launch site delay t u first w) := by
  rw [Operation.launch_eq]
  split
  · exact judgeAlone (h.resume first w hfirst)
  · let w₁ := w.emit site (.hedgeLaunched delay)
    let w₂ := (w₁.mint site.call t).2
    let v := (w₁.mint site.call t).1
    have hv : v.MadeFor calls := .child hcall _ _
    have hlaunched : R w w₂ := hR.trans (hR.emit hsite hcall w _) (hR.mint w₁ t hcall)
    obtain ⟨hresume, hs⟩ := h.resume first w₂ hfirst
    refine later hR hlaunched ?_
    split
    next first' w₃ heq =>
      rw [heq] at hresume hs
      exact later hR hresume (judgeRival hR hsite hcall h hu hv hs (h.start v w₃))
    next r w₃ heq =>
      rw [heq] at hresume
      exact ⟨hR.trans hresume (hR.cancel_made w₃ hv), trivial⟩
    next x w₃ heq =>
      rw [heq] at hresume
      exact ⟨hresume, trivial⟩

theorem judgeFirst {launchAt : Nat} {out : Status op.State Result × World} (hu : u.MadeFor calls)
    (hout : ObeysIn R fits w out) :
    ObeysIn R (HedgeFits calls fits) w (judgeFirst site delay t u launchAt out) := by
  obtain ⟨hw, hs⟩ := hout
  rcases out with ⟨first | r | x, w'⟩
  · unfold Operation.judgeFirst
    dsimp only
    split
    · exact later hR hw (launch hR hsite hcall h hu hs)
    · exact ⟨hw, hu, hs⟩
  · exact ⟨hw, trivial⟩
  · exact ⟨hw, trivial⟩

end

theorem withHedge (delay : Duration) :
    (withHedge site delay op).Obeys R (HedgeFits calls fits) := by
  refine ⟨fun t w => ?_, fun s w hs => ?_, fun s w => ?_⟩
  · exact later hR (hR.mint w t hcall)
      (judgeFirst hR hsite hcall h (.child hcall _ _) (h.start _ _))
  · cases s with
    | early caller u launchAt first =>
      exact judgeFirst hR hsite hcall h hs.1 (h.resume first w hs.2)
    | alone first => exact judgeAlone (h.resume first w hs)
    | racing u first v rival =>
      obtain ⟨hu, hv, hfirst, hrival⟩ := hs
      obtain ⟨hresume, hs⟩ := h.resume first w hfirst
      rw [Operation.withHedge_resume_racing]
      split
      next first' w₁ heq =>
        rw [heq] at hresume hs
        exact later hR hresume (judgeRival hR hsite hcall h hu hv hs (h.resume rival w₁ hrival))
      next r w₁ heq =>
        rw [heq] at hresume
        -- the token of the rival was made by this layer, so its root is not at stake
        have hcancel : R w₁ (w₁.cancel v) := hR.cancel_made w₁ hv
        exact ⟨hR.trans hresume (hR.trans hcancel (h.release rival _)), trivial⟩
      next x w₁ heq =>
        rw [heq] at hresume
        exact ⟨hR.trans hresume (h.release rival w₁), trivial⟩
  · cases s with
    | early caller u launchAt first => exact h.release first w
    | alone first => exact h.release first w
    | racing u first v rival => exact hR.releaseAll_append (h.release rival) (h.release first) w

/-! ### All the layers -/

theorem apply (l : Layer) : ∃ fits', (l.apply site op).Obeys R fits' := by
  cases l with
  | fallback value => exact ⟨_, withFallback hR hsite hcall h value⟩
  | timeout length => exact ⟨_, withTimeout hR hsite hcall h length⟩
  | breaker s => exact ⟨_, behindBreaker hR hsite hcall h s⟩
  | rateLimit limit => exact ⟨_, behindRateLimit hR hsite hcall h limit⟩
  | bulkhead capacity => exact ⟨_, behindBulkhead hR hsite hcall h capacity⟩
  | retry r => exact withRetry hR hsite hcall h r
  | hedge delay => exact ⟨_, withHedge hR hsite hcall h delay⟩

variable (site) in
/-- **Layers around an operation** do what is of some kind if the operation does. -/
theorem stack (layers : List Layer) : ∃ fits', (stack site layers op).Obeys R fits' := by
  induction layers with
  | nil => exact ⟨fits, h⟩
  | cons l rest ih =>
    obtain ⟨fits', hrest⟩ := ih
    exact apply hR hsite hcall hrest l

end

/-! ### Scripts -/

omit hR in
theorem visit {op : Operation} {fits : op.State → Prop} (h : op.Obeys R fits) :
    (Activity.visit op).Obeys R (fun s => fits s.2) := by
  have haccept : ∀ {w : World} {out : Status op.State Result × World} (v : Visit),
      ObeysIn R fits w out →
      ObeysIn R (fun s => fits s.2) w (Activity.visit.accept op v out) := by
    rintro w ⟨s | r | x, w'⟩ v ⟨hw, hs⟩ <;> exact ⟨hw, hs⟩
  exact ⟨fun v w => haccept v (h.start v.token w), fun s w hs => haccept s.1 (h.resume s.2 w hs),
    fun s => h.release s.2⟩

theorem followedBy {a : Activity Visit Flow} {b : Activity Visit Ending} {fits : a.State → Prop}
    {fits' : b.State → Prop} (ha : a.Obeys R fits) (hb : b.Obeys R fits') :
    (a.followedBy b).Obeys R (Sum.elim fits fits') := by
  have hlift : ∀ {w : World} {out : Status b.State Ending × World}, ObeysIn R fits' w out →
      ObeysIn R (Sum.elim fits fits') w (Status.lift .inr out) := by
    rintro w ⟨s | e | x, w'⟩ ⟨hw, hs⟩ <;> exact ⟨hw, hs⟩
  have hgo : ∀ {w : World} {out : Status a.State Flow × World}, ObeysIn R fits w out →
      ObeysIn R (Sum.elim fits fits') w (Activity.followedBy.go a b out) := by
    rintro w ⟨s | (v | e) | x, w'⟩ ⟨hw, hs⟩
    · exact ⟨hw, hs⟩
    · exact later hR hw (hlift (hb.start v w'))
    · exact ⟨hw, trivial⟩
    · exact ⟨hw, trivial⟩
  refine ⟨fun v w => hgo (ha.start v w), ?_, ?_⟩
  · rintro (s | s) w hs
    · exact hgo (ha.resume s w hs)
    · exact hlift (hb.resume s w hs)
  · rintro (s | s) w
    · exact ha.release s w
    · exact hb.release s w

theorem numbered {call : CallId} {body : Nat → Activity Visit Ending}
    {fits : (k : Nat) → (body k).State → Prop} (hcall : calls call)
    (h : ∀ k, (body k).Obeys R (fits k)) :
    (Activity.numbered call fun k => .invocation call k (body k)).Obeys R
      (fun s => fits s.1 s.2.2) := by
  have hconclude : ∀ {w : World} (k : Nat) (t : Token) {out : Status (body k).State Ending × World},
      ObeysIn R (fits k) w out → ObeysIn R (fun s => fits s.1 s.2.2) w
        (Status.lift (Sigma.mk (β := fun k => (invocation call k (body k)).State) k)
          (invocation.conclude call k (body k) t out)) := by
    rintro w k t ⟨s | (r | x) | x, w'⟩ ⟨hw, hs⟩
    · exact ⟨hw, hs⟩
    · exact ⟨hR.trans hw (hR.note w' hcall), trivial⟩
    · exact ⟨hR.trans hw (hR.note w' hcall), trivial⟩
    · exact ⟨hR.trans hw (hR.note w' hcall), trivial⟩
  refine ⟨fun t w => ?_, fun s w hs => hconclude s.1 s.2.1 ((h s.1).resume s.2.2 w hs),
    fun s => ?_⟩
  · exact hconclude _ t (later hR (hR.invoke w _ t hcall) ((h _).start _ _))
  · have hlast : ∀ w : World, R w (w.releaseAll [.invocation call s.1 s.2.1]) :=
      fun w => hR.note w hcall
    exact hR.releaseAll_append ((h s.1).release s.2.2) hlast

end Obeys

end Activity

section

variable {R : World → World → Prop} {calls : CallId → Prop} (hR : World.Allows R root calls)

include hR

mutual

theorem Action.obeys (call : CallId) (hcall : calls call) (k position : Nat) (a : Action)
    (h : a.Leaves root) : ∃ fits, (a.activity call k position).Obeys R fits := by
  cases a with
  -- a wait leaves the world alone however long it is
  | sleep length =>
    rw [Action.activity]
    exact ⟨_, Obeys.wait hR _ _ _⟩
  | sleepUnlessCancelled length =>
    rw [Action.activity]
    exact ⟨_, Obeys.wait hR _ _ _⟩
  | awaitCancel =>
    rw [Action.activity]
    exact ⟨_, Obeys.wait hR _ _ _⟩
  | hang =>
    rw [Action.activity]
    exact ⟨_, Obeys.wait hR _ _ _⟩
  | probe =>
    rw [Action.activity]
    exact ⟨_, .atOnce fun _ w => hR.note w hcall⟩
  -- the only action that reaches outside the call, which is where `Leaves` is needed
  | cancel token =>
    rw [Action.activity]
    exact ⟨_, .atOnce fun _ w => hR.cancel_named w h⟩
  | give result =>
    rw [Action.activity]
    exact ⟨_, .atOnce fun _ w => hR.refl w⟩
  | panic text =>
    rw [Action.activity]
    exact ⟨_, .atOnce fun _ w => hR.refl w⟩
  -- a nested call shares the origin's hooks or has its own: `h` speaks of both
  | call policy script =>
    have hnested := hR.nested k position policy.name hcall
    choose fits hbody using fun j =>
      scriptBody_obeys (.nested call k position policy.name) hnested j j script h.2
    obtain ⟨fits', hcall'⟩ := Obeys.stack ⟨policy.origin, .nested call k position policy.name⟩ hR
      h.1 hnested (Obeys.numbered hR hnested hbody) policy.layers
    rw [Action.activity]
    exact ⟨_, .visit hcall'⟩

theorem actionsBody_obeys (call : CallId) (hcall : calls call) (k position : Nat)
    (actions : List Action) (h : actionsLeave root actions) :
    ∃ fits, (actionsBody call k position actions).Obeys R fits := by
  cases actions with
  | nil =>
    rw [actionsBody]
    exact ⟨_, .atOnce fun _ w => hR.refl w⟩
  | cons a rest =>
    obtain ⟨fits, ha⟩ := a.obeys call hcall k position h.1
    obtain ⟨fits', hrest⟩ := actionsBody_obeys call hcall k (position + 1) rest h.2
    rw [actionsBody]
    exact ⟨_, Obeys.followedBy hR ha hrest⟩

theorem scriptBody_obeys (call : CallId) (hcall : calls call) (k i : Nat)
    (script : List (List Action)) (h : scriptLeaves root script) :
    ∃ fits, (scriptBody call k i script).Obeys R fits := by
  match i, script, h with
  | _, [], _ =>
    rw [scriptBody]
    exact ⟨_, .atOnce fun _ w => hR.refl w⟩
  | _, [actions], h =>
    rw [scriptBody]
    exact actionsBody_obeys call hcall k 0 actions h.1
  | 0, actions :: _ :: _, h =>
    rw [scriptBody]
    exact actionsBody_obeys call hcall k 0 actions h.1
  | i + 1, _ :: next :: rest, h =>
    rw [scriptBody]
    exact scriptBody_obeys call hcall k i (next :: rest) h.2

end

/-- **What a call does** is of every kind that allows for what is done on behalf of the call,
as long as neither a hook nor an action cancels the root token. -/
theorem Policy.obeys (p : Policy) {id : CallId} (hid : calls id) {script : Script}
    (hp : p.origin.hooks.Leaves root) (hs : scriptLeaves root script) :
    ∃ fits, (p.call id (script.operation id)).Obeys R fits := by
  choose fits hbody using fun k => scriptBody_obeys hR id hid k k script hs
  exact Obeys.stack ⟨p.origin, id⟩ hR hp hid (Obeys.numbered hR hid hbody) p.layers

end

/-- **A call leaves a root token alone** that neither a hook nor an action cancels. -/
theorem Policy.leaves (p : Policy) (id : CallId) {script : Script}
    (hp : p.origin.hooks.Leaves root) (hs : scriptLeaves root script) :
    ∃ fits, (p.call id (script.operation id)).Leaves root fits :=
  p.obeys (World.Leaves.allows root) trivial hp hs

end CallPolicy
