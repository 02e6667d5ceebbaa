/-
How many invocations of a call are live at a time.

An operation is invoked once at a time, and a hedge invokes it twice. What is inside the
retry layer is over when it is started again. So an activity `Spans` the invocations that
it holds, if there is room for them when it starts: those are live that it holds, beside
those that were live before, and none of its own is live when it has ended.

* **`Spans.withRetry`**, **`Spans.withHedge`**, … — one lemma a layer;
* **`Spans.lives`** — so a call holds the invocations that are live all its life;
* **`Spans.stack`** — there are two at most, and one if there is no hedge.
-/
import CallPolicy.Proofs.Spans
import CallPolicy.Proofs.Lives

namespace CallPolicy

open Activity Operation

variable {ο ο' η : Type} {w w' w₀ w₁ w₂ w₃ : World} {t u v : Token} {site : Site} {id : CallId}
  {k n B : Nat} {L : Multiset Nat} {m m' : CallId → Nat} {kinds : List LayerKind} {timely : Prop}

/-! ### What does not affect a call -/

namespace World

theorem Keeps.attemptAt_eq (h : w.Keeps (fun _ => ()) (Entry.affects site) w') :
    attemptAt site w'.trace = attemptAt site w.trace := by
  obtain ⟨es, htr, hes⟩ := h.trace
  have hnone : es.filterMap (·.record.repeated? site) = [] :=
    List.filterMap_eq_nil_iff.mpr fun e he => (Entry.affects_eq_false.mp (hes e he)).2
  rw [attemptAt, repeatsIn, htr, List.filterMap_append, hnone]
  rfl

/-- An invocation does not affect its call while it is under way. -/
theorem Confined.keeps_affects (h : w.Confined (.ofBody site.call k t) m w') :
    w.Keeps (fun _ => ()) (Entry.affects site) w' := by
  obtain ⟨es, htr, hes⟩ := h.trace
  refine ⟨rfl, Nat.le_of_eq h.now.symm, es, htr, fun e he => ?_⟩
  by_cases hcall : e.record.call = site.call
  · obtain ⟨b, hr⟩ := (hes e he).own hcall
    refine Entry.affects_eq_false.mpr ⟨Entry.engages_of_isPlain ?_, ?_⟩
    · rw [hr]
      rfl
    · rw [hr]
      rfl
  · exact Entry.affects_of_ne hcall

/-- What is inside the retry layer repeats no attempt. -/
theorem Confined.attemptAt_eq (h : w.Confined (.ofCall site.call kinds t) m w')
    (hk : .retry ∉ kinds) : attemptAt site w'.trace = attemptAt site w.trace := by
  obtain ⟨es, htr, hes⟩ := h.trace
  have hnone : es.filterMap (·.record.repeated? site) = [] := by
    refine List.filterMap_eq_nil_iff.mpr fun e he => Option.eq_none_iff_forall_ne_some.mpr ?_
    intro n hn
    obtain ⟨hcall, hteller⟩ := Record.call_of_repeated? hn
    exact hk ((hes e he).own hcall _ hteller)
  rw [attemptAt, repeatsIn, htr, List.filterMap_append, hnone]
  rfl

theorem Meanwhile.keeps_affects (h : w.Meanwhile site.call t w') :
    w.Keeps (fun _ => ()) (Entry.affects site) w' := by
  obtain ⟨es, htr, hes⟩ := h.trace
  refine ⟨rfl, h.now, es, htr, fun e he => Entry.affects_of_ne fun hcall => hes e he ?_⟩
  rw [hcall]
  exact .self

/-- Before a call is started, nothing of it is live, and it is at its first attempt. -/
theorem Awaits.spaced (h : w.Awaits site.call t) :
    Spaced site B 0 w.trace ∧ attemptAt site w.trace = 1 := by
  have hall : ∀ e ∈ w.trace, e.affects site = false := fun e he =>
    Entry.affects_of_ne fun hcall => h.trace e he (hcall ▸ .self)
  have hspaced : Spaced site B 0 (w.trace ++ []) := Spaced.nil.append hall
  rw [List.append_nil] at hspaced
  have hnone : repeatsIn site w.trace = [] :=
    List.filterMap_eq_nil_iff.mpr fun e he => (Entry.affects_eq_false.mp (hall e he)).2
  rw [attemptAt, hnone]
  exact ⟨hspaced, rfl⟩

end World

/-! ### Activities and their invocations -/

/-- Where an activity has led that was started while `L` were live: if it is suspended, what
it holds is live beside them, and something is known of the attempt that the call is at. -/
def Spanned {κ : Type} (site : Site) (B : Nat) (L : Multiset Nat) (holdings : κ → List Holding)
    (told : κ → Nat → Prop) : Status κ ο × World → Prop
  | (.pending s, w) => Spaced site B (invocationsAt site.call (holdings s) + L) w.trace ∧
      told s (attemptAt site w.trace)
  | (.done _, w) => Spaced site B L w.trace
  | (.panicked _, w) => Spaced site B L w.trace

/-- Started while some invocations are live, and at an attempt, for which that `fits`, the
activity holds whatever else is live. -/
structure Activity.Spans (a : Activity Token ο) (site : Site) (B : Nat)
    (fits : Multiset Nat → Nat → Prop) (keeps : (CallId → Nat) → Token → a.State → World → Prop)
    (told : a.State → Nat → Prop) : Prop where
  start : ∀ {t L} {w : World}, w.Ready w.minted t → Spaced site B L w.trace →
    fits L (attemptAt site w.trace) → Spanned site B L a.holdings told (a.start t w)
  resume : ∀ {m t s L n} {w : World}, w.Ready m t → keeps m t s w → fits L n →
    Spaced site B (invocationsAt site.call (a.holdings s) + L) w.trace →
    told s (attemptAt site w.trace) → Spanned site B L a.holdings told (a.resume s w)

/-- There is room for some more invocations. -/
def Roomy (B n : Nat) (L : Multiset Nat) (_ : Nat) : Prop := L.card + n ≤ B

namespace Activity.Spans

section

variable {a : Activity Token ο} {fits : Multiset Nat → Nat → Prop}
  {keeps : (CallId → Nat) → Token → a.State → World → Prop} {told : a.State → Nat → Prop}

theorem after {f : ο → World → ο' × World}
    (hf : ∀ o (w : World), w.Keeps (fun _ => ()) (Entry.affects site) (f o w).2)
    (h : a.Spans site B fits keeps told) : (a.after f).Spans site B fits keeps told := by
  have hfollow : ∀ {L : Multiset Nat} {out : Status a.State ο × World},
      Spanned site B L a.holdings told out →
      Spanned site B L a.holdings told (Activity.after.follow f a out) := by
    rintro L ⟨s | o | x, w⟩ hout
    · exact hout
    · exact hout.keeps (hf o w)
    · exact hout
  exact ⟨fun hw hs hfits => hfollow (h.start hw hs hfits),
    fun hw hkept hfits hs htold => hfollow (h.resume hw hkept hfits hs htold)⟩

theorem holding {held : η → Holding} {take : World → Except ο η × World}
    {give : η → ο → World → World} (hheld : ∀ x, (held x).number? site.call = none)
    (htake : ∀ w : World, w.Keeps (fun _ => ()) (Entry.affects site) (take w).2)
    (hready : ∀ {m t} {w : World}, w.Ready m t → (take w).2.Ready m t)
    (hgive : ∀ x o (w : World), w.Keeps (fun _ => ()) (Entry.affects site) (give x o w))
    (h : a.Spans site B fits keeps told) :
    (a.holding held take give).Spans site B fits (fun m t s => keeps m t s.2)
      (fun s => told s.2) := by
  -- what is held beside is no invocation
  have hholdings : ∀ (x : η) (s : a.State),
      invocationsAt site.call ((a.holding held take give).holdings (x, s)) =
        invocationsAt site.call (a.holdings s) := by
    intro x s
    have hnone : invocationsAt site.call {held x} = 0 := invocationsAt_eq_zero fun hold hmem => by
      rw [Multiset.mem_singleton.mp hmem]
      exact hheld x
    show invocationsAt site.call (a.holdings s ++ [held x] : List Holding) = _
    rw [← Multiset.coe_add, Multiset.coe_singleton, invocationsAt_add, hnone, add_zero]
  -- and neither is what is done with it in the end
  have hkeep : ∀ {L : Multiset Nat} (x : η) {out : Status a.State ο × World},
      Spanned site B L a.holdings told out →
      Spanned site B L (a.holding held take give).holdings (fun s => told s.2)
        (Activity.holding.keep held give a x out) := by
    rintro L x ⟨s | o | y, w⟩ hout
    · exact ⟨(hholdings x s).symm ▸ hout.1, hout.2⟩
    · exact hout.keeps (hgive x o w)
    · have hgiven : Spaced site B ((held x |>.number? site.call).toList + L) w.trace := by
        rw [hheld x, Option.toList_none, Multiset.coe_nil, zero_add]
        exact hout
      exact hgiven.release
  refine ⟨fun {t L w} hw hs hfits => ?_, ?_⟩
  -- it is taken before anything begins
  · have htaken := htake w
    have hw' := hready hw
    cases htk : take w with
    | mk e w' =>
      rw [htk] at htaken hw'
      cases e with
      | error o =>
        rw [holding_start_error htk]
        exact hs.keeps htaken
      | ok x =>
        rw [holding_start_ok htk]
        exact hkeep x (h.start hw'.later (hs.keeps htaken) (htaken.attemptAt_eq ▸ hfits))
  · rintro m t ⟨x, s⟩ L n w hw hkept hfits hs htold
    rw [hholdings x s] at hs
    exact hkeep x (h.resume hw hkept hfits hs htold)

/-- When the deadline has come, what is held has ended. -/
theorem within (length : Duration) (h : a.Spans site B fits keeps told) :
    (a.within site.call length).Spans site B fits
      (fun m t s => Raised site.call keeps m t s.token s.inner) (fun s => told s.inner) := by
  have hcheck : ∀ {L : Multiset Nat} (u : Token) (d : Nat) {out : Status a.State ο × World},
      Spanned site B L a.holdings told out →
      Spanned site B L (a.within site.call length).holdings (fun s => told s.inner)
        (Activity.within.check a u d out) := by
    rintro L u d ⟨s | o | x, w⟩ hout
    · unfold Activity.within.check
      dsimp only
      split
      · exact hout.1.releaseAll
      · exact hout
    · exact hout
    · exact hout
  refine ⟨fun hw hs hfits => hcheck _ _ (h.start (hw.child site.call) hs hfits),
    fun hw hkept hfits hs htold => ?_⟩
  obtain ⟨-, m', -, -, hready, hkept⟩ := hkept
  exact hcheck _ _ (h.resume hready hkept hfits hs htold)

end

/-! ### Layers -/

section

variable {op : Operation} {fits : Multiset Nat → Nat → Prop}
  {keeps : (CallId → Nat) → Token → op.State → World → Prop} {told : op.State → Nat → Prop}

theorem withFallback (value : String) (h : op.Spans site B fits keeps told) :
    (withFallback site value op).Spans site B fits keeps told := by
  refine after (fun r w => ?_) h
  cases r with
  | ok v => exact .refl w
  | error f => exact .emit w site (.fellBack f) rfl

theorem withTimeout (length : Duration) (h : op.Spans site B fits keeps told) :
    (withTimeout site length op).Spans site B fits
      (fun m t s => Raised site.call keeps m t s.token s.inner) (fun s => told s.inner) := by
  refine after (fun r w => ?_) (h.within length)
  cases r with
  | some r => exact .refl w
  | none => exact .emit w site (.timedOut length) rfl

theorem behindBreaker (s : BreakerSettings) (h : op.Spans site B fits keeps told) :
    (behindBreaker site s op).Spans site B fits (fun m t s => keeps m t s.2)
      (fun s => told s.2) := by
  refine holding (fun _ => rfl) (fun w => .acquirePermit (fun _ => Entry.affects_of_isGate) w site s)
    (fun {m t w} hw => ?_)
    (fun p r w => .settlePermit_gate (fun _ => Entry.affects_of_isGate) w site s p _) h
  have htaken : w.Confined (.ofCall site.call [.breaker] t) m (acquirePermit site s w).2 :=
    .acquirePermit site t w s List.mem_cons_self
  exact htaken.ready hw

theorem behindBulkhead (capacity : Nat) (h : op.Spans site B fits keeps told) :
    (behindBulkhead site capacity op).Spans site B fits (fun m t s => keeps m t s.2)
      (fun s => told s.2) := by
  refine holding (fun _ => rfl) (fun w => .takeSlot (fun _ => Entry.affects_of_isGate) w site capacity)
    (fun {m t w} hw => ?_)
    (fun _ _ w => .slotReleased (fun _ => Entry.affects_of_isGate) w site) h
  have htaken : w.Confined (.ofCall site.call [.bulkhead] t) m (takeSlot site capacity w).2 :=
    .takeSlot site t w capacity List.mem_cons_self
  exact htaken.ready hw

theorem behindRateLimit (limit : RateLimit) (h : op.Spans site B fits keeps told) :
    (behindRateLimit site limit op).Spans site B fits keeps told := by
  refine ⟨fun {t L w} hw hs hfits => ?_, h.resume⟩
  unfold Operation.behindRateLimit
  dsimp only
  split
  next w₁ htk =>
    have hkeeps : w.Keeps (fun _ => ()) (Entry.affects site) (w₁.note (.gate site .tokenTaken)) :=
      (World.Keeps.takeToken htk).trans (.note _ _ rfl)
    have hready := (World.Confined.of_takeToken (m := w.minted) site t htk).ready hw
    exact h.start hready.later (hs.keeps hkeeps) (hkeeps.attemptAt_eq ▸ hfits)
  next w₁ htk => exact hs.keeps ((World.Keeps.takeToken htk).trans (.emit _ site .rateLimited rfl))

end

end Activity.Spans

/-! ### Retry -/

namespace World.Keeps

theorem attemptResult (w : World) (site : Site) (r : RetrySettings) (n : Nat) (o : Option Result) :
    w.Keeps (fun _ => ()) (Entry.affects site) (Operation.attemptResult site r n o w).2 := by
  unfold Operation.attemptResult
  split
  · exact refl w
  next length _ => exact emit w site (.attemptTimedOut n length) rfl
  · exact refl w

theorem mayRepeat (w : World) (site : Site) (r : RetrySettings) (t : Token) (f : Failure) :
    w.Keeps (fun _ => ()) (Entry.affects site) (Operation.mayRepeat site r t f w).2 := by
  unfold Operation.mayRepeat
  split
  · exact refl w
  · split
    · exact refl w
    · exact note w _ rfl

theorem nextDelay (w : World) (site : Site) (r : RetrySettings) (n : Nat) :
    w.Keeps (fun _ => ()) (Entry.affects site) (Operation.nextDelay r n w).2 := by
  unfold Operation.nextDelay
  split
  · exact silent rfl rfl
  · exact refl w

end World.Keeps

section

variable {r : RetrySettings} {o : Option Result} {f : Failure} {delay : Duration} {again : Bool}

/-- An attempt has failed, and it is clear whether it may be repeated. -/
theorem World.Keeps.judged (h₁ : Operation.attemptResult site r n o w = (.error f, w₁))
    (h₂ : Operation.mayRepeat site r t f w₁ = (again, w₂)) :
    w.Keeps (fun _ => ()) (Entry.affects site) w₂ := by
  have hresult := World.Keeps.attemptResult w site r n o
  have hmay := World.Keeps.mayRepeat w₁ site r t f
  rw [h₁] at hresult
  rw [h₂] at hmay
  exact hresult.trans hmay

/-- A failed attempt is about to be repeated. -/
theorem Spaced.repeated (h : Spaced site B 0 w.trace) (hn : n = attemptAt site w.trace)
    (h₁ : attemptResult site r n o w = (.error f, w₁))
    (h₂ : mayRepeat site r t f w₁ = (true, w₂))
    (h₃ : nextDelay r n (w₂.emit site (.retrying n f)) = (delay, w₃)) :
    Spaced site B 0 w₃.trace ∧ attemptAt site w₃.trace = n + 1 := by
  have hjudged := World.Keeps.judged h₁ h₂
  have hdelay := World.Keeps.nextDelay (w₂.emit site (.retrying n f)) site r n
  rw [h₃] at hdelay
  have hr : (Record.event site (.retrying n f)).repeated? site = some n := if_pos rfl
  have hn' : n = attemptAt site w₂.trace := hn.trans hjudged.attemptAt_eq.symm
  have htold : Spaced site B 0 (w₂.emit site (.retrying n f)).trace := by
    rw [World.emit_trace]
    exact (h.keeps hjudged).again (hr.trans (congrArg some hn'))
  refine ⟨htold.keeps hdelay, hdelay.attemptAt_eq.trans ?_⟩
  rw [World.emit_trace, attemptAt_again hr, ← hn']

end

/-- The number of attempts that are left says which attempt the call is at. -/
def Operation.RetryState.Told {κ : Type} (maxAttempts : Nat) (told : κ → Nat → Prop) :
    RetryState κ → Nat → Prop
  | .trying _ left inner, n => left = maxAttempts - n ∧ told inner n
  | .waiting _ left _, n => left = maxAttempts - n

/-- Nothing is live, and the call is at its first attempt. -/
def Foremost (L : Multiset Nat) (n : Nat) : Prop := L = 0 ∧ n = 1

namespace Activity.Spans

section

variable {op : Operation} {fits : Multiset Nat → Nat → Prop}
  {keeps : (CallId → Nat) → Token → op.State → World → Prop} {told : op.State → Nat → Prop}

theorem attempt (r : RetrySettings) (h : op.Spans site B fits keeps told) :
    ∃ told', (attempt site r op).Spans site B fits (attemptKeeps site op keeps r) told' := by
  obtain ⟨maxAttempts, backoff, maxDelay, attemptTimeout, retryIf⟩ := r
  cases attemptTimeout with
  | none => exact ⟨_, after (fun _ w => .refl w) h⟩
  | some length => exact ⟨_, h.within length⟩

variable {r : RetrySettings} {atold : (Operation.attempt site r op).State → Nat → Prop}
  (hd : op.Attends site.call kinds keeps) (hk : .retry ∉ kinds) (hfits : ∀ n, fits 0 n)
  (h : (Operation.attempt site r op).Spans site B fits (attemptKeeps site op keeps r) atold)

include hd hk hfits h

/-- An attempt has been looked at: when it has ended, none of its invocations is live. -/
theorem proceed (t : Token) (left : Nat)
    (out : Status (Operation.attempt site r op).State (Option Result) × World)
    (hw : out.2.Ready m t)
    (hout : Spanned site B 0 (Operation.attempt site r op).holdings atold out)
    (hleft : left = r.maxAttempts.toNat - attemptAt site out.2.trace) :
    Spanned site B 0 (withRetry site r op).holdings (RetryState.Told r.maxAttempts.toNat atold)
      (proceed site r t left out) := by
  have hattends := hd.attempt r
  have attempt_eq : ∀ {left a : Nat}, left + 1 = r.maxAttempts.toNat - a →
      r.maxAttempts.toNat - (left + 1) = a := by omega
  have left_eq : ∀ {left a : Nat}, left + 1 = r.maxAttempts.toNat - a →
      left = r.maxAttempts.toNat - (r.maxAttempts.toNat - (left + 1) + 1) := by omega
  -- the loop starts attempts that are due at once, so the induction is on those left
  fun_induction Operation.proceed site r t left out
  case case1 left inner w => exact ⟨hout.1, hleft, hout.2⟩
  case case2 => exact hout
  case case3 left o w n v w₁ h₁ =>
    have hresult := World.Keeps.attemptResult w site r n o
    rw [h₁] at hresult
    exact Spaced.keeps hout hresult
  case case4 left o w n f w₁ h₁ w₂ h₂ => exact Spaced.keeps hout (.judged h₁ h₂)
  case case5 o w f w₁ w₂ h₂ n h₁ => exact Spaced.keeps hout (.judged h₁ h₂)
  case case6 o w f w₁ w₂ h₂ left delay w₃ wakeAt n h₁ h₃ hcancel =>
    have hn : n = attemptAt site w.trace := attempt_eq hleft
    exact (Spaced.repeated hout hn h₁ h₂ h₃).1
  case case7 o w f w₁ w₂ h₂ left delay w₃ wakeAt hdue n h₁ h₃ hlive ih =>
    have hn : n = attemptAt site w.trace := attempt_eq hleft
    obtain ⟨hspaced, hnext⟩ := Spaced.repeated hout hn h₁ h₂ h₃
    have hrepeated : w.Confined (.ofCall site.call [.retry] t) m w₃ :=
      .repeated site r w t List.mem_cons_self h₁ h₂ h₃
    have hready := hrepeated.ready hw
    have hstart := (hattends.start_after hready (.refl _ _ _)).confined
    refine ih (hstart.ready hready) (h.start hready.later hspaced (hfits _)) ?_
    rw [hstart.attemptAt_eq hk, hnext]
    exact left_eq hleft
  case case8 o w f w₁ w₂ h₂ left delay w₃ wakeAt hlate n h₁ h₃ hlive =>
    have hn : n = attemptAt site w.trace := attempt_eq hleft
    obtain ⟨hspaced, hnext⟩ := Spaced.repeated hout hn h₁ h₂ h₃
    refine ⟨(zero_add (0 : Multiset Nat)).symm ▸ hspaced, ?_⟩
    rw [RetryState.Told, hnext]
    exact left_eq hleft

/-- **The retry layer** is between attempts when it repeats one. -/
theorem withRetry : (withRetry site r op).Spans site B Foremost
    (RetryState.Keeps (attemptKeeps site op keeps r))
    (RetryState.Told r.maxAttempts.toNat atold) := by
  have hattends := hd.attempt r
  refine ⟨fun {t L w} hw hs hfirst => ?_, fun {m t s L n w} hw hkept hfirst hs htold => ?_⟩
  -- the retry layer is entered when nothing is live and no attempt has been repeated
  · obtain ⟨rfl, hn⟩ := hfirst
    have hstart := (hattends.start hw).confined
    refine proceed hd hk hfits h t _ _ (hstart.ready hw) (h.start hw hs (hfits _)) ?_
    rw [hstart.attemptAt_eq hk, hn]
  · obtain ⟨rfl, -⟩ := hfirst
    cases s with
    | trying token left inner =>
      obtain ⟨rfl, hkept⟩ := hkept
      obtain ⟨hleft, htold⟩ := htold
      have hresume := (hattends.resume hw hkept).confined
      refine proceed hd hk hfits h token left _ (hresume.ready hw)
        (h.resume hw hkept (hfits 0) hs htold) ?_
      rw [hresume.attemptAt_eq hk, hleft]
    | waiting token left wakeAt =>
      obtain rfl : token = t := hkept
      -- between attempts nothing is held
      have hspaced : Spaced site B 0 w.trace := zero_add (0 : Multiset Nat) ▸ hs
      rw [resume_waiting]
      split
      · exact hspaced
      · split
        · have hstart := (hattends.start hw.later).confined
          refine proceed hd hk hfits h token left _ (hstart.ready hw.later)
            (h.start hw.later hspaced (hfits _)) ?_
          rw [hstart.attemptAt_eq hk]
          exact htold
        · exact ⟨hs, htold⟩

end

end Activity.Spans

/-! ### Hedge -/

namespace Activity.Spans

section

variable {op : Operation} {keeps : (CallId → Nat) → Token → op.State → World → Prop}
  {delay : Duration} (hd : op.Attends site.call kinds keeps)
  (hone : ∀ {m t s w}, keeps m t s w → (invocationsAt site.call (op.holdings s)).card ≤ 1)
  (h : op.Spans site B (Roomy B 1) keeps fun _ _ => True)

/-- The first attempt stays alone. -/
theorem judgeAlone {out : Status op.State Result × World}
    (hout : Spanned site B L op.holdings (fun _ _ => True) out) :
    Spanned site B L (withHedge site delay op).holdings (fun _ _ => True) (judgeAlone out) := by
  rcases out with ⟨first | r | x, w⟩
  · exact hout
  · exact hout
  · exact hout

/-- The rival has been looked at while what the first attempt holds was live. -/
theorem judgeRival {first : op.State} {out : Status op.State Result × World}
    (hout : Spanned site B (invocationsAt site.call (op.holdings first) + L) op.holdings
      (fun _ _ => True) out) :
    Spanned site B L (withHedge site delay op).holdings (fun _ _ => True)
      (judgeRival site u first v out) := by
  rcases out with ⟨rival | r | x, w⟩
  · refine ⟨?_, trivial⟩
    show Spaced site B (invocationsAt site.call (op.holdings rival ++ op.holdings first :
      List Holding) + L) w.trace
    rw [← Multiset.coe_add, invocationsAt_add, add_assoc]
    exact hout.1
  · have hwon : (w.cancel u).Keeps (fun _ => ()) (Entry.affects site)
        ((w.cancel u).emit site .hedgeWon) := .emit _ site .hedgeWon rfl
    exact (Spaced.keeps (w := w.cancel u) hout hwon).releaseAll
  · exact Spaced.releaseAll hout

include h

theorem start_child (hw : w.Ready m t) (hu : w.Fosters site.call m t u)
    (hs : Spaced site B L w.trace) (hroom : L.card + 1 ≤ B) :
    Spanned site B L op.holdings (fun _ _ => True) (op.start u w) :=
  h.start ⟨hw.sane, hu.made, fun _ => Nat.le_refl _⟩ hs hroom

theorem resume_child {s : op.State} (hs : Raised site.call keeps m t u s w)
    (hspaced : Spaced site B (invocationsAt site.call (op.holdings s) + L) w.trace)
    (hroom : L.card + 1 ≤ B) : Spanned site B L op.holdings (fun _ _ => True) (op.resume s w) := by
  obtain ⟨-, m', -, -, hready, hkept⟩ := hs
  exact h.resume (n := 0) hready hkept hroom hspaced trivial

include hd hone

/-- The instant of the launch has come. -/
theorem launch {first : op.State} (hk : .hedge ∈ kinds) (hw : w.Ready m t)
    (hfirst : Lodges site.call kinds op keeps m t u first w)
    (hs : Spaced site B (invocationsAt site.call (op.holdings first) + L) w.trace)
    (hroom : L.card + 2 ≤ B) :
    Spanned site B L (withHedge site delay op).holdings (fun _ _ => True)
      (launch site delay t u first w) := by
  have hroom' : L.card + 1 ≤ B := Nat.le_of_succ_le hroom
  rw [Operation.launch_eq]
  split
  · exact judgeAlone (resume_child h hfirst.raised hs hroom')
  -- the rival is announced and gets a token, neither of which touches an invocation
  · let w₁ := w.emit site (.hedgeLaunched delay)
    let w₂ := (w₁.mint site.call t).2
    let v := (w₁.mint site.call t).1
    obtain ⟨-, hready₂, hfirst₂, hv, hne⟩ := Docile.launched hk hd delay hw hfirst
    have htold : w.Keeps (fun _ => ()) (Entry.affects site) w₁ :=
      .emit w site (.hedgeLaunched delay) rfl
    have hs₁ : Spaced site B (invocationsAt site.call (op.holdings first) + L) w₁.trace :=
      hs.keeps htold
    have hs₂ : Spaced site B (invocationsAt site.call (op.holdings first) + L) w₂.trace := hs₁
    have hresume := hd.resume_child hfirst₂
    obtain ⟨m₁, hconfined⟩ := hd.confined_resume hfirst₂
    -- the first invocation is polled once more and spares its rival's token
    have hspared := hconfined.spares_sibling hv hfirst₂.fosters hne.symm
    have hspanned := resume_child h hfirst₂ hs₂ hroom'
    split
    next first' w₃ heq =>
      rw [heq] at hresume hspared hconfined hspanned
      have hready₃ := hconfined.ready hready₂
      have hv₃ := hv.spares hspared (Token.governs_self v)
      -- the first holds at most one invocation, so there is room for the rival
      have hcard := hresume.lands.raised.known hone
      refine judgeRival (start_child h hready₃ hv₃ hspanned.1 ?_)
      rw [Multiset.card_add]
      omega
    next r w₃ heq =>
      rw [heq] at hspanned
      exact hspanned
    next x w₃ heq =>
      rw [heq] at hspanned
      exact hspanned

/-- The first attempt has been looked at while it is alone. -/
theorem judgeFirst {launchAt : Nat} {out : Status op.State Result × World} (hk : .hedge ∈ kinds)
    (hw : out.2.Ready m t)
    (hlands : Lands (Lodges site.call kinds op keeps m t u) (fun _ => True) out)
    (hout : Spanned site B L op.holdings (fun _ _ => True) out) (hroom : L.card + 2 ≤ B) :
    Spanned site B L (withHedge site delay op).holdings (fun _ _ => True)
      (judgeFirst site delay t u launchAt out) := by
  rcases out with ⟨first | r | x, w⟩
  · unfold Operation.judgeFirst
    dsimp only
    split
    · exact launch hd hone h hk hw hlands hout.1 hroom
    · exact hout
  · exact hout
  · exact hout

/-- Both attempts are looked at, the first one first. -/
theorem resumeRacing {first rival : op.State} (hw : w.Ready m t) (hne : u ≠ v)
    (hfirst : Raised site.call keeps m t u first w) (hrival : Raised site.call keeps m t v rival w)
    (hs : Spaced site B (invocationsAt site.call (op.holdings rival ++ op.holdings first :
      List Holding) + L) w.trace) (hroom : L.card + 2 ≤ B) :
    Spanned site B L (withHedge site delay op).holdings (fun _ _ => True)
      ((withHedge site delay op).resume (.racing u first v rival) w) := by
  have hrival' := hd.raised_beside hw hfirst hrival hne.symm
  -- the first attempt is looked at while what the rival holds is live
  rw [← Multiset.coe_add, invocationsAt_add, add_comm (invocationsAt _ _), add_assoc] at hs
  have hresume := hd.resume_child hfirst
  have hspanned := resume_child h hfirst hs (by
    rw [Multiset.card_add]
    have := hrival.known hone
    omega)
  rw [Operation.withHedge_resume_racing]
  split
  next first' w₁ heq =>
    rw [heq] at hspanned hrival' hresume
    -- and the rival while what the first attempt holds now is
    have hs₁ := hspanned.1
    rw [← add_assoc, add_comm (invocationsAt _ _), add_assoc] at hs₁
    refine judgeRival (resume_child h hrival' hs₁ ?_)
    rw [Multiset.card_add]
    have := hresume.lands.raised.known hone
    omega
  next r w₁ heq =>
    rw [heq] at hspanned
    exact Spaced.releaseAll (w := w₁.cancel v) hspanned
  next x w₁ heq =>
    rw [heq] at hspanned
    exact Spaced.releaseAll hspanned

/-- **The hedge layer** has two invocations live at most. -/
theorem withHedge (hk : .hedge ∈ kinds) :
    (withHedge site delay op).Spans site B (Roomy B 2) (HedgeState.Keeps site.call keeps)
      fun _ _ => True := by
  refine ⟨fun {t L w} hw hs hroom => ?_, fun {m t s L n w} hw hkept hroom hs _ => ?_⟩
  · have hready := hw.mint site.call t
    have hu : (w.mint site.call t).2.Fosters site.call w.minted t (w.mint site.call t).1 := .mint hw
    have hfirst := hd.start_child hready hu
    exact judgeFirst hd hone h hk (hfirst.confined.ready hready) hfirst.lands
      (start_child h hready hu hs (Nat.le_of_succ_le hroom)) hroom
  · have hroom' : L.card + 1 ≤ B := Nat.le_of_succ_le hroom
    cases s with
    | early caller u launchAt first =>
      obtain ⟨rfl, hraised⟩ := hkept
      have hresume := hd.resume_child hraised
      exact judgeFirst hd hone h hk (hresume.confined.ready hw) hresume.lands
        (resume_child h hraised hs hroom') hroom
    | alone first =>
      obtain ⟨u, hraised⟩ := hkept
      exact judgeAlone (resume_child h hraised hs hroom')
    | racing u first v rival =>
      obtain ⟨hne, hfirst, hrival⟩ := hkept
      exact resumeRacing hd hone h hw hne hfirst hrival hs hroom

end

end Activity.Spans

/-! ### Operations -/

namespace Activity.Spans

section

variable {body : Nat → Activity Visit Ending}
  {keeps : (k : Nat) → (CallId → Nat) → Token → (body k).State → World → Prop}

/-- While it is under way, an invocation holds itself and none of its siblings. -/
theorem invocationsAt_numbered (h : ∀ k, (body k).Performs id k (keeps k)) {s : (body k).State}
    (hs : keeps k m t s w) :
    invocationsAt id ((Activity.numbered id fun k => .invocation id k (body k)).holdings
      ⟨k, u, s⟩) = {k} := by
  have hbody : invocationsAt id ((body k).holdings s) = 0 := by
    refine invocationsAt_eq_zero fun hold hmem => ?_
    have hholds := (h k).holdings hs hold hmem
    cases hold with
    | invocation call j u =>
      refine if_neg fun hcall => ?_
      obtain ⟨b, hr⟩ := (hholds false).own hcall
      cases hr
    | slot σ => rfl
    | permit σ s p => rfl
  show invocationsAt id ((body k).holdings s ++ [.invocation id k u] : List Holding) = {k}
  rw [← Multiset.coe_add, invocationsAt_add, hbody, zero_add, Multiset.coe_singleton,
    ← Multiset.cons_zero, invocationsAt_cons, Holding.number?, if_pos rfl]
  rfl

variable (h : ∀ k, (body k).Performs site.call k (keeps k))

include h

/-- **One invocation after the other**, if there is room for it. -/
theorem numbered :
    (Activity.numbered site.call fun k => .invocation site.call k (body k)).Spans site B (Roomy B 1)
      (fun m t s w => s.2.1 = t ∧ keeps s.1 m t s.2.2 w) fun _ _ => True := by
  -- while the body is under way its number is live; each way that it ends takes it off
  have hconclude : ∀ {m : CallId → Nat} {L : Multiset Nat} (t : Token) (k : Nat)
      {w : World} {out : Status (body k).State Ending × World},
      Spaced site B (k ::ₘ L) w.trace →
      Yields (.ofBody site.call k t) m w ((body k).Stands (.ofBody site.call k t) (keeps k m) t)
        (fun _ => True) out →
      Spanned site B L (Activity.numbered site.call fun k =>
          .invocation site.call k (body k)).holdings (fun _ _ => True)
        (Status.lift (Sigma.mk k) (invocation.conclude site.call k (body k) t out)) := by
    rintro m L t k w ⟨s | (r | x) | x, w'⟩ hs ⟨hw, hlands⟩ <;> have hs' := hs.keeps hw.keeps_affects
    · have hheld := invocationsAt_numbered h (u := t) hlands.kept
      have hlive : Spaced site B ({k} + L) w'.trace := by rwa [Multiset.singleton_add]
      exact ⟨hheld ▸ hlive, trivial⟩
    · exact hs'.finish (if_pos rfl)
    · exact hs'.finish (if_pos rfl)
    · exact hs'.finish (if_pos rfl)
  refine ⟨fun {t L w} hw hs hroom => ?_, ?_⟩
  · let k := (w.invoked site.call).length
    have hinvoked : w.Confined (.ofCall site.call [] t) w.minted (w.invoke site.call k t) :=
      .invoke w (.refl site.call t) fun _ => Scope.records_ofCall rfl nofun
    -- the record of its begin makes it live
    have hbegun : Spaced site B (k ::ₘ L) (w.invoke site.call k t).trace :=
      hs.begin hroom (if_pos rfl)
    exact hconclude t k hbegun ((h k).start (i := ⟨t, .ok ""⟩) (hinvoked.ready hw).later)
  · rintro m _ ⟨k, t, s⟩ L n w hw ⟨rfl, hkept⟩ - hs -
    have hheld := invocationsAt_numbered h (u := t) hkept
    have hlive : Spaced site B ({k} + L) w.trace := hheld ▸ hs
    rw [Multiset.singleton_add] at hlive
    exact hconclude t k hlive ((h k).resume hw hkept)

end

/-- The operation of a script. -/
theorem script (script : Script) (id : CallId) : ∃ keeps,
    (script.operation id).Attends id [] keeps ∧
    (∀ {m t s w}, keeps m t s w →
      (invocationsAt id ((script.operation id).holdings s)).card ≤ 1) ∧
    ∀ {origin B}, (script.operation id).Spans ⟨origin, id⟩ B (Roomy B 1) keeps fun _ _ => True := by
  choose keeps hbody using fun k => scriptBody_docile id k k script
  refine ⟨_, .numbered hbody, fun {m t s w} hs => ?_, fun {origin B} => ?_⟩
  · exact Nat.le_of_eq (congrArg Multiset.card (invocationsAt_numbered hbody hs.2))
  · let site : Site := ⟨origin, id⟩
    have hbody' : ∀ k, (scriptBody id k k script).Performs site.call k (keeps k) := hbody
    exact numbered hbody'

end Activity.Spans

/-! ### All the layers -/

section

variable {op : Operation} {keeps : (CallId → Nat) → Token → op.State → World → Prop}
  {layers : List Layer} (hd : op.Attends site.call [] keeps)
  (hone : ∀ {m t s w}, keeps m t s w → (invocationsAt site.call (op.holdings s)).card ≤ 1)
  (h : op.Spans site B (Roomy B 1) keeps fun _ _ => True)
  (hordered : layers.Pairwise fun a b => a.kind.position < b.kind.position) (hB : 1 ≤ B)
  (hhedge : .hedge ∈ layers.map Layer.kind → 2 ≤ B)

include hd hone h hordered hB hhedge

/-- Inside the retry layer there is at most a hedge. -/
theorem Activity.Spans.inside
    (hbelow : ∀ l ∈ layers, LayerKind.retry.position < l.kind.position) :
    ∃ fits told, (∀ n, fits 0 n) ∧
      (stack site layers op).Spans site B fits (stackKeeps site op keeps layers) told := by
  match layers with
  | [] => exact ⟨_, _, fun n => (Nat.zero_add 1).trans_le hB, h⟩
  | [.hedge delay] =>
    have hmore : op.Attends site.call [.hedge] keeps := hd.attends_mono (List.nil_subset _)
    have htwo := hhedge List.mem_cons_self
    exact ⟨_, _, fun n => (Nat.zero_add 2).trans_le htwo, withHedge hmore hone h List.mem_cons_self⟩
  | .hedge delay :: l :: rest =>
    have hlt := (List.pairwise_cons.mp hordered).1 l List.mem_cons_self
    cases l <;> exact absurd hlt (by simp [Layer.kind, LayerKind.position])
  | .fallback _ :: _ | .timeout _ :: _ | .breaker _ :: _ | .rateLimit _ :: _ | .bulkhead _ :: _
  | .retry _ :: _ =>
    have hlt := hbelow _ List.mem_cons_self
    exact absurd hlt (by simp [Layer.kind, LayerKind.position])

/-- **A call through layers** holds the invocations that are live. -/
theorem Activity.Spans.stack :
    ∃ fits told, fits 0 1 ∧
      (stack site layers op).Spans site B fits (stackKeeps site op keeps layers) told := by
  induction layers with
  | nil => exact ⟨_, _, (Nat.zero_add 1).trans_le hB, h⟩
  | cons l rest ih =>
    obtain ⟨hbelow, hrest⟩ := List.pairwise_cons.mp hordered
    obtain ⟨fits, told, hfits, hspans⟩ := ih hrest fun hmem => hhedge (List.mem_cons_of_mem _ hmem)
    have hattends := hd.stack site rest
    cases l with
    | fallback value => exact ⟨_, _, hfits, hspans.withFallback value⟩
    | timeout length => exact ⟨_, _, hfits, hspans.withTimeout length⟩
    | breaker s => exact ⟨_, _, hfits, hspans.behindBreaker s⟩
    | rateLimit limit => exact ⟨_, _, hfits, hspans.behindRateLimit limit⟩
    | bulkhead capacity => exact ⟨_, _, hfits, hspans.behindBulkhead capacity⟩
    | retry r =>
      -- the induction speaks of the first attempt alone, and all of them are spent inside
      obtain ⟨fits, told, hfits, hspans⟩ := inside hd hone h hrest hB
        (fun hmem => hhedge (List.mem_cons_of_mem _ hmem)) hbelow
      obtain ⟨told', hattempt⟩ := hspans.attempt r
      -- a kind appears once: no retry below a retry
      have hk : .retry ∉ rest.map Layer.kind ++ [] :=
        (List.append_nil _).symm ▸ Layer.kind_not_mem_of_below hbelow (Nat.le_refl _)
      exact ⟨_, _, ⟨rfl, rfl⟩, withRetry hattends hk hfits hattempt⟩
    | hedge delay =>
      -- a hedge is the innermost layer, where every attempt finds the same room
      obtain ⟨fits, told, hfits, hspans⟩ := inside hd hone h hordered hB hhedge fun l hl => by
        rcases List.mem_cons.mp hl with rfl | hl
        · exact Nat.lt_succ_self _
        · exact Nat.lt_trans (Nat.lt_succ_self _) (hbelow l hl)
      exact ⟨_, _, hfits 1, hspans⟩

end

/-- **All its life**, a call holds the invocations that are live. -/
theorem Activity.Spans.lives {a : Operation} {fits : Multiset Nat → Nat → Prop}
    {keeps : (CallId → Nat) → Token → a.State → World → Prop} {told : a.State → Nat → Prop}
    {out : Status a.State Result × World} (h : a.Spans site B fits keeps told)
    (hd : a.Attends site.call kinds keeps) (hfits : fits 0 1) (hw₀ : w₀.Awaits site.call t)
    (hl : a.Lives site.call timely t w₀ out) : Spanned site B 0 a.holdings told out := by
  induction hl with
  | start =>
    obtain ⟨hspaced, hfirst⟩ : Spaced site B 0 w₀.trace ∧ attemptAt site w₀.trace = 1 := hw₀.spaced
    exact h.start hw₀.ready hspaced (hfirst ▸ hfits)
  | @wait s w w' hl hw _ ih =>
    have hkeeps : w.Keeps (fun _ => ()) (Entry.affects site) w' := hw.keeps_affects
    exact ⟨ih.1.keeps hkeeps, hkeeps.attemptAt_eq ▸ ih.2⟩
  | resume hl ih =>
    obtain ⟨hready, hkept⟩ := hd.lives hw₀.ready hl
    exact h.resume hready hkept hfits ih.1 ih.2

end CallPolicy
