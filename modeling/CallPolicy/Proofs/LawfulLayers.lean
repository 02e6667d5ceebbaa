/-
What the layers of a policy do is made of effects.

Each layer keeps the operation inside it lawful and asks for the rights that
`Layer.rights` says: a gate for the right to be asked, the retry layer for the rights
of all attempts, and the hedge layer for those of two.

* **`Lawful.apply`** — one layer of a policy;
* **`Lawful.call`** — a call through a policy.
-/
import CallPolicy.Proofs.Lawful
import CallPolicy.Policy.Basic

namespace CallPolicy

open Operation

variable {K : List Policy} {p : Policy} {id : CallId} {op : Operation} {needs : Multiset Right}

/-- What a suspended retry layer may still do: go on with the attempt under way and
make the attempts that are left. -/
def RetryState.rights {σ : Type} (needs : Multiset Right) (rights : σ → Multiset Right) :
    RetryState σ → Multiset Right
  | .trying _ left inner => rights inner + left • needs
  | .waiting _ left _ => (left + 1) • needs

/-- What a suspended hedge layer may still do. -/
def HedgeState.rights {σ : Type} (needs : Multiset Right) (rights : σ → Multiset Right) :
    HedgeState σ → Multiset Right
  | .early _ _ _ first => rights first + needs
  | .alone first => rights first
  | .racing _ first _ rival => rights rival + rights first

namespace Activity.Lawful

/-! ### The gates -/

section

variable {rights : op.State → Multiset Right}

theorem behindBreaker (hp : p ∈ K) {s : BreakerSettings} (hl : .breaker s ∈ p.layers)
    (h : op.Lawful K needs rights) :
    (behindBreaker ⟨p.origin, id⟩ s op).Lawful K (.ask ⟨p.origin, id⟩ .breaker ::ₘ needs)
      (fun s => rights s.2) := by
  refine holding ?_ ?_ ?_ h
  · intro w permit w' heq
    exact .single (.ask (.grant hp rfl hl heq) 0 needs)
  · intro w o w' heq
    exact (Steps.single (.ask (.refuse hp rfl hl heq) 0 needs)).trans (.lapse w' 0 needs)
  · intro permit r w
    exact .single (.settle w _ s permit _ 0 0)

theorem behindBulkhead (hp : p ∈ K) {capacity : Nat} (hl : .bulkhead capacity ∈ p.layers)
    (h : op.Lawful K needs rights) :
    (behindBulkhead ⟨p.origin, id⟩ capacity op).Lawful K (.ask ⟨p.origin, id⟩ .bulkhead ::ₘ needs)
      (fun s => rights s.2) := by
  refine holding ?_ ?_ ?_ h
  · intro w _ w' heq
    exact .single (.ask (.occupy hp rfl hl heq) 0 needs)
  · intro w o w' heq
    exact (Steps.single (.ask (.crowd hp rfl hl heq) 0 needs)).trans (.lapse w' 0 needs)
  · intro _ r w
    exact .single (.release w _ 0 0)

theorem behindRateLimit (hp : p ∈ K) {l : RateLimit} (hl : .rateLimit l ∈ p.layers)
    (h : op.Lawful K needs rights) :
    (behindRateLimit ⟨p.origin, id⟩ l op).Lawful K (.ask ⟨p.origin, id⟩ .rateLimit ::ₘ needs)
      rights := by
  refine ⟨fun t w => ?_, h.resume⟩
  unfold Operation.behindRateLimit
  dsimp only
  split
  next w' heq =>
    have hask := Steps.single (.ask (.spend hp rfl hl heq) 0 needs)
    exact .after_steps hask (h.start t _)
  next w' heq =>
    exact (Steps.single (.ask (.limit hp rfl hl heq) 0 needs)).trans (.lapse _ 0 needs)

/-! ### Endings -/

theorem withFallback (site : Site) (value : String) (h : op.Lawful K needs rights) :
    (withFallback site value op).Lawful K needs rights := by
  refine after (fun r w => ?_) h
  cases r with
  | ok v => exact .refl _
  | error f => exact .plain (.emit w site (.fellBack f) rfl) 0 0

theorem withTimeout (site : Site) (length : Duration) (h : op.Lawful K needs rights) :
    (withTimeout site length op).Lawful K needs (fun s => rights s.inner) := by
  refine after (fun r w => ?_) (within site.call length h)
  cases r with
  | some r => exact .refl _
  | none => exact .plain (.emit w site (.timedOut length) rfl) 0 0

end

end Activity.Lawful

/-! ### Retry -/

namespace Steps

variable (site : Site) (s : RetrySettings) (w : World) (R : Multiset Right)

theorem attemptResult (n : Nat) (o : Option Result) :
    Steps K ⟨w, 0, R⟩ ⟨(attemptResult site s n o w).2, 0, R⟩ := by
  unfold Operation.attemptResult
  split
  · exact .refl _
  next length _ => exact .plain (.emit w site (.attemptTimedOut n length) rfl) 0 R
  · exact .refl _

theorem mayRepeat (token : Token) (f : Failure) :
    Steps K ⟨w, 0, R⟩ ⟨(mayRepeat site s token f w).2, 0, R⟩ := by
  unfold Operation.mayRepeat
  split
  · exact .refl _
  · split
    · exact .refl _
    · exact .plain (.note w _ rfl) 0 R

theorem nextDelay (n : Nat) : Steps K ⟨w, 0, R⟩ ⟨(nextDelay s n w).2, 0, R⟩ := by
  unfold Operation.nextDelay
  split
  · exact .plain (.draw w) 0 R
  · exact .refl _

variable {n : Nat} {o : Option Result} {token : Token} {f : Failure} {w₁ w₂ w₃ : World}

/-- An attempt has failed, and it is clear whether it may be repeated. -/
theorem judged {again : Bool} (h₁ : Operation.attemptResult site s n o w = (.error f, w₁))
    (h₂ : Operation.mayRepeat site s token f w₁ = (again, w₂)) :
    Steps K ⟨w, 0, R⟩ ⟨w₂, 0, R⟩ := by
  have hresult := attemptResult (K := K) site s w R n o
  have hmay := mayRepeat (K := K) site s w₁ R token f
  rw [h₁] at hresult
  rw [h₂] at hmay
  exact hresult.trans hmay

/-- A failed attempt is about to be repeated. -/
theorem repeated {delay : Duration}
    (h₁ : Operation.attemptResult site s n o w = (.error f, w₁))
    (h₂ : Operation.mayRepeat site s token f w₁ = (true, w₂))
    (h₃ : Operation.nextDelay s n (w₂.emit site (.retrying n f)) = (delay, w₃)) :
    Steps K ⟨w, 0, R⟩ ⟨w₃, 0, R⟩ := by
  have hdelay := nextDelay (K := K) s (w₂.emit site (.retrying n f)) R n
  rw [h₃] at hdelay
  have htold : Steps K ⟨w₂, 0, R⟩ ⟨w₂.emit site (.retrying n f), 0, R⟩ :=
    plain (.emit w₂ site (.retrying n f) rfl) 0 R
  exact (judged site s w R h₁ h₂).trans (htold.trans hdelay)

end Steps

namespace Activity.Lawful

variable (site : Site) (s : RetrySettings)

theorem attempt (h : ∃ rights, op.Lawful K needs rights) :
    ∃ rights, (attempt site s op).Lawful K needs rights := by
  obtain ⟨rights, h⟩ := h
  unfold Operation.attempt
  split
  · exact ⟨_, within site.call _ h⟩
  · exact ⟨_, after (fun _ _ => .refl _) h⟩

/-- Whatever comes of an attempt, the rights of the attempts that are left are enough. -/
theorem proceed {rights : (Operation.attempt site s op).State → Multiset Right}
    (h : (Operation.attempt site s op).Lawful K needs rights) (token : Token) (left : Nat)
    (out : Status (Operation.attempt site s op).State (Option Result) × World) {x : Scene}
    (hout : Leads K x (Operation.attempt site s op).holdings rights out) :
    Leads K (x.allow (left • needs)) (withRetry site s op).holdings
      (RetryState.rights needs rights) (proceed site s token left out) := by
  have hspare : ∀ {x : Scene} {w : World} (n : Nat), Steps K x ⟨w, 0, 0⟩ →
      Steps K (x.allow (n • needs)) ⟨w, 0, n • needs⟩ := by
    intro x w n hx
    have hframe := hx.frame_rights (n • needs)
    rw [Scene.allow_mk w, zero_add] at hframe
    exact hframe
  -- the loop starts attempts that are due at once, so the induction is on those left
  fun_induction Operation.proceed site s token left out generalizing x
  case case1 left inner w => exact hout.frame_rights (left • needs)
  case case2 left t w => exact (hspare left hout).trans (.lapse _ _ _)
  case case3 left o w n v w₁ h₁ =>
    have hresult := Steps.attemptResult (K := K) site s w (left • needs) n o
    rw [h₁] at hresult
    exact (hspare left hout).trans (hresult.trans (.lapse _ _ _))
  case case4 left o w n f w₁ h₁ w₂ h₂ =>
    exact (hspare left hout).trans ((Steps.judged site s w _ h₁ h₂).trans (.lapse _ _ _))
  case case5 o w f w₁ w₂ h₂ n h₁ =>
    exact (hspare 0 hout).trans ((Steps.judged site s w _ h₁ h₂).trans (.lapse _ _ _))
  case case6 o w f w₁ w₂ h₂ left delay w₃ wakeAt n h₁ h₃ hcancel =>
    exact (hspare _ hout).trans ((Steps.repeated site s w _ h₁ h₂ h₃).trans (.lapse _ _ _))
  case case7 o w f w₁ w₂ h₂ left delay w₃ wakeAt hdue n h₁ h₃ hlive ih =>
    -- one of the attempts that are left starts at once
    have hnext := ih (h.start token w₃)
    rw [Scene.allow_mk, ← succ_nsmul'] at hnext
    exact .after_steps ((hspare _ hout).trans (Steps.repeated site s w _ h₁ h₂ h₃)) hnext
  case case8 o w f w₁ w₂ h₂ left delay w₃ wakeAt hlate n h₁ h₃ hlive =>
    exact (hspare _ hout).trans (Steps.repeated site s w _ h₁ h₂ h₃)

theorem withRetry (hmax : s.maxAttempts ≠ 0) (h : ∃ rights, op.Lawful K needs rights) :
    ∃ rights, (withRetry site s op).Lawful K (s.maxAttempts.toNat • needs) rights := by
  obtain ⟨rights, h⟩ := attempt site s h
  refine ⟨RetryState.rights needs rights, fun token w => ?_, fun state w => ?_⟩
  · -- the first attempt has rights of its own, and so has each of those left
    have hpos : s.maxAttempts.toNat ≠ 0 := fun h0 => hmax (UInt32.toNat_inj.mp h0)
    have hfirst := proceed site s h token (s.maxAttempts.toNat - 1) _ (h.start token w)
    rw [Scene.allow_mk, ← succ_nsmul', Nat.sub_add_cancel (Nat.pos_of_ne_zero hpos)] at hfirst
    exact hfirst
  · cases state with
    | trying token left inner =>
      exact proceed site s h token left _ (h.resume inner w)
    | waiting token left wakeAt =>
      have hnext := proceed site s h token left _ (h.start token w)
      rw [Scene.allow_mk, ← succ_nsmul'] at hnext
      show Leads K ⟨w, 0, (left + 1) • needs⟩ _ _
        ((Operation.withRetry site s op).resume (.waiting token left wakeAt) w)
      rw [resume_waiting]
      split
      · exact .lapse _ _ _
      · split
        · exact hnext
        · exact .refl _

/-! ### Hedge -/

section

variable {rights : op.State → Multiset Right} {x : Scene} {delay : Duration}
  {out : Status op.State Result × World}

theorem judgeAlone (needs : Multiset Right) (delay : Duration)
    (hout : Leads K x op.holdings rights out) :
    Leads K x (withHedge site delay op).holdings (HedgeState.rights needs rights)
      (judgeAlone out) := by
  rcases out with ⟨first | r | t, w⟩
  · exact hout
  · exact hout
  · exact hout

/-- The first attempt is suspended while the rival runs. -/
theorem judgeRival (needs : Multiset Right) (delay : Duration) (token : Token) (first : op.State)
    (rivalToken : Token) (hout : Leads K x op.holdings rights out) :
    Leads K (x.beside (op.holdings first) (rights first)) (withHedge site delay op).holdings
      (HedgeState.rights needs rights) (judgeRival site token first rivalToken out) := by
  rcases out with ⟨rival | r | t, w⟩ <;>
    have hframe := Steps.frame hout (op.holdings first) (rights first)
  · exact hframe
  · rw [Scene.beside_mk w, zero_add, zero_add] at hframe
    exact hframe.trans (((Steps.plain (.cancel w token) _ _).trans
      (.plain (.emit _ site .hedgeWon rfl) _ _)).trans (.drop _ _ _))
  · rw [Scene.beside_mk w, zero_add, zero_add] at hframe
    exact hframe.trans (.drop w _ _)

/-- The first attempt is suspended, and the rights of the rival are there. -/
theorem launch (h : op.Lawful K needs rights) (caller token : Token) (first : op.State)
    (w : World) :
    Leads K ⟨w, op.holdings first, rights first + needs⟩ (withHedge site delay op).holdings
      (HedgeState.rights needs rights) (launch site delay caller token first w) := by
  rw [Operation.launch_eq]
  split
  · have hfirst := judgeAlone site needs delay (h.resume first w)
    exact .after_steps (.single (.lapse w _ (Multiset.le_add_right _ _))) hfirst
  · have htold : Steps K ⟨w, op.holdings first, rights first + needs⟩
        ⟨((w.emit site (.hedgeLaunched delay)).mint site.call caller).2, op.holdings first,
          rights first + needs⟩ :=
      (Steps.plain (.emit w site (.hedgeLaunched delay) rfl) _ _).trans
        (.plain (.mint _ site.call caller) _ _)
    have hresume := h.resume first ((w.emit site (.hedgeLaunched delay)).mint site.call caller).2
    generalize ((w.emit site (.hedgeLaunched delay)).mint site.call caller).1 = rivalToken
    -- the first attempt is looked at before the rival starts
    split
    next first' w' heq =>
      rw [heq] at hresume
      have hrival := judgeRival site needs delay token first' rivalToken
        (h.start rivalToken w')
      rw [Scene.beside_mk, zero_add, add_comm needs] at hrival
      exact .after_steps (htold.trans (hresume.frame_rights needs)) hrival
    next r w' heq =>
      rw [heq] at hresume
      exact (htold.trans (hresume.frame_rights needs)).trans
        ((Steps.lapse w' 0 _).trans (.plain (.cancel w' _) 0 0))
    next t w' heq =>
      rw [heq] at hresume
      exact (htold.trans (hresume.frame_rights needs)).trans (.lapse w' 0 _)

/-- The first attempt is alone, and the rights of a rival are there. -/
theorem judgeFirst (delay : Duration) (h : op.Lawful K needs rights) (caller token : Token)
    (launchAt : Nat) (hout : Leads K x op.holdings rights out) :
    Leads K (x.allow needs) (withHedge site delay op).holdings (HedgeState.rights needs rights)
      (judgeFirst site delay caller token launchAt out) := by
  obtain ⟨first | r | t, w⟩ := out <;> have hframe := Steps.frame_rights hout needs
  · unfold Operation.judgeFirst
    dsimp only
    split
    · exact .after_steps hframe (launch site h caller token first w)
    · exact hframe
  · exact hframe.trans (.lapse w 0 _)
  · exact hframe.trans (.lapse w 0 _)

end

theorem withHedge (delay : Duration) (h : ∃ rights, op.Lawful K needs rights) :
    ∃ rights, (withHedge site delay op).Lawful K (2 • needs) rights := by
  obtain ⟨rights, h⟩ := h
  refine ⟨HedgeState.rights needs rights, fun caller w => ?_, fun state w => ?_⟩
  -- the rights of the rival are kept until it is launched
  · have hfirst := judgeFirst site delay h caller (w.mint site.call caller).1
      ((w.mint site.call caller).2.wakeTime delay)
      (h.start (w.mint site.call caller).1 (w.mint site.call caller).2)
    rw [Scene.allow_mk, ← two_nsmul] at hfirst
    exact .after_steps (.plain (.mint w site.call caller) _ _) hfirst
  · cases state with
    | early caller token launchAt first =>
      exact judgeFirst site delay h caller token launchAt (h.resume first w)
    | alone first => exact judgeAlone site needs delay (h.resume first w)
    | racing token first rivalToken rival =>
      have hfirst := h.resume first w
      -- the rival is suspended while the first attempt is looked at
      have hbeside : ∀ {y : Scene}, Steps K ⟨w, op.holdings first, rights first⟩ y →
          Steps K ⟨w, ↑(op.holdings rival ++ op.holdings first), rights rival + rights first⟩
            (y.beside (op.holdings rival) (rights rival)) := by
        intro y hy
        have hframe := hy.frame (op.holdings rival) (rights rival)
        rw [Scene.beside_mk w, add_comm (rights first),
          add_comm (op.holdings first : Multiset Holding)] at hframe
        exact hframe
      rw [Operation.withHedge_resume_racing]
      split
      next first' w' heq =>
        rw [heq] at hfirst
        have hrival := judgeRival site needs delay token first' rivalToken
          (h.resume rival w')
        rw [Scene.beside_mk, add_comm (rights rival),
          add_comm (op.holdings rival : Multiset Holding)] at hrival
        exact .after_steps (hbeside hfirst) hrival
      -- the rival is dropped, and its rights lapse
      next r w' heq =>
        rw [heq] at hfirst
        have hdone := hbeside hfirst
        rw [Scene.beside_mk w', zero_add, zero_add] at hdone
        exact hdone.trans ((Steps.plain (.cancel w' rivalToken) _ _).trans (.drop _ _ _))
      next t w' heq =>
        rw [heq] at hfirst
        have hdone := hbeside hfirst
        rw [Scene.beside_mk w', zero_add, zero_add] at hdone
        exact hdone.trans (.drop _ _ _)

/-! ### All the layers -/

theorem apply (hp : p ∈ K) {l : Layer} (hl : l ∈ p.layers)
    (h : ∃ rights, op.Lawful K needs rights) :
    ∃ rights, (l.apply ⟨p.origin, id⟩ op).Lawful K (l.rights ⟨p.origin, id⟩ needs) rights := by
  cases l with
  | retry s =>
    have hmax : s.maxAttempts ≠ 0 := by
      intro h0
      have hfault := p.faultless _ hl
      rw [Layer.fault?, if_pos h0] at hfault
      cases hfault
    exact withRetry ⟨p.origin, id⟩ s hmax h
  | hedge delay => exact withHedge ⟨p.origin, id⟩ delay h
  | fallback value =>
    obtain ⟨rights, h⟩ := h
    exact ⟨_, withFallback _ value h⟩
  | timeout length =>
    obtain ⟨rights, h⟩ := h
    exact ⟨_, withTimeout _ length h⟩
  | breaker s =>
    obtain ⟨rights, h⟩ := h
    exact ⟨_, behindBreaker hp hl h⟩
  | rateLimit l =>
    obtain ⟨rights, h⟩ := h
    exact ⟨_, behindRateLimit hp hl h⟩
  | bulkhead capacity =>
    obtain ⟨rights, h⟩ := h
    exact ⟨_, behindBulkhead hp hl h⟩

/-- What a call does through a policy is lawful if its operation is. -/
theorem call (hp : p ∈ K) (h : ∃ rights, op.Lawful K {.invoke id} rights) :
    ∃ rights, (p.call id op).Lawful K (p.rights id) rights := by
  have hstack : ∀ layers : List Layer, layers ⊆ p.layers →
      ∃ rights, (stack ⟨p.origin, id⟩ layers op).Lawful K
        (stackRights ⟨p.origin, id⟩ layers {.invoke id}) rights := by
    intro layers hsub
    induction layers with
    | nil => exact h
    | cons l rest ih =>
      have hl : l ∈ p.layers := hsub List.mem_cons_self
      exact apply hp hl (ih fun l' hl' => hsub (List.mem_cons_of_mem _ hl'))
  exact hstack p.layers fun _ hl => hl

end Activity.Lawful

end CallPolicy
