/-
Calls that go on under a cancelled token.

A call may outlast the cancellation of its token: its operation need not look at it. Once
the token is cancelled, however, no other cancellation can make a difference to the call,
so after it has been looked at, nothing comes of looking at it again before an instant that
it waits for (`Activity.Spent`).

An activity that is looked at while its token is cancelled is spent from then on
(`Activity.Resigns`), wherever it stood:

* **`Resigns.withTimeout`**, **`Resigns.withRetry`**, **`Resigns.withHedge`**, … — the layers
  without state, one lemma each;
* **`Resigns.stack`** — and all of them around an operation.
-/
import CallPolicy.Proofs.Abreast
import CallPolicy.Proofs.Cancellation

namespace CallPolicy

open Activity Operation

variable {ι ο ο' κ : Type} {id c call : CallId} {t u v : Token} {w w' w'' : World} {site : Site}

/-- Nothing comes of looking at a suspended activity while the token is cancelled, before an
instant that it waits for. -/
def Activity.Spent (a : Activity ι ο) (t : Token) (s : a.State) : Prop :=
  ∀ w : World, w.isCancelled t = true → (∀ d ∈ a.deadlines s, w.now < d) →
    a.resume s w = (.pending s, w)

/-- The token is still cancelled, and a suspended activity is spent. -/
structure ResignsIn (t : Token) (spent : κ → Prop) (out : Status κ ο × World) : Prop where
  cancelled : out.2.isCancelled t = true
  lands : Lands (fun s _ => spent s) (fun _ => True) out

namespace World

theorem isCancelled_emit (h : w.isCancelled t = true) (site : Site) (e : Event) :
    (w.emit site e).isCancelled t = true := isCancelled_of_suffix (w.cancelled_emit site e) h

theorem isCancelled_releaseAll (h : w.isCancelled t = true) (hs : List Holding) :
    (w.releaseAll hs).isCancelled t = true := isCancelled_of_suffix (w.cancelled_releaseAll hs) h

theorem isCancelled_cancel (h : w.isCancelled t = true) (a : Token) :
    (w.cancel a).isCancelled t = true := isCancelled_of_suffix (List.suffix_cons _ _) h

end World

namespace Activity

/-- Whoever looks at the activity while the token is cancelled leaves it spent. -/
structure Resigns (a : Activity ι ο) (t : Token) (own : ι → Prop) (fits : a.State → Prop) :
    Prop where
  start : ∀ {i w}, own i → w.isCancelled t = true → ResignsIn t (a.Spent t) (a.start i w)
  resume : ∀ {s w}, fits s → w.isCancelled t = true → ResignsIn t (a.Spent t) (a.resume s w)

namespace Resigns

variable {own : ι → Prop}

/-! ### Building blocks -/

theorem atOnce {f : ι → World → ο × World}
    (hf : ∀ {i w}, w.isCancelled t = true → (f i w).2.isCancelled t = true) :
    (Activity.atOnce f).Resigns t own (fun _ => True) :=
  ⟨fun _ hc => ⟨hf hc, trivial⟩, fun {s _} => Empty.elim s⟩

theorem wait {state : ι → World → κ} {ready : κ → World → Option ο} {deadlines : κ → List Nat}
    {fits : κ → Prop} (hstate : ∀ {i w}, own i → fits (state i w))
    (hready : ∀ {s w w'}, fits s → w.isCancelled t = true → w'.isCancelled t = true →
      (∀ d ∈ deadlines s, w'.now < d) → ready s w = none → ready s w' = none) :
    (Activity.wait state ready deadlines).Resigns t own fits := by
  have hlook : ∀ {s w}, fits s → w.isCancelled t = true →
      ResignsIn t ((Activity.wait state ready deadlines).Spent t)
        (Activity.wait.look ready s w) := by
    intro s w hs hc
    unfold Activity.wait.look
    split
    next => exact ⟨hc, trivial⟩
    next hnone =>
      refine ⟨hc, fun w' hc' hearly => ?_⟩
      show Activity.wait.look ready s w' = _
      rw [Activity.wait.look, hready hs hc hc' hearly hnone]
      rfl
  exact ⟨fun hi hc => hlook (hstate hi) hc, hlook⟩

theorem after {a : Activity ι ο} {fits : a.State → Prop} {f : ο → World → ο' × World}
    (h : a.Resigns t own fits)
    (hf : ∀ {o w}, w.isCancelled t = true → (f o w).2.isCancelled t = true) :
    (a.after f).Resigns t own fits := by
  have hfollow : ∀ {out}, ResignsIn t (a.Spent t) out →
      ResignsIn t ((a.after f).Spent t) (Activity.after.follow f a out) := by
    rintro ⟨s | o | x, w⟩ ⟨hc, hs⟩
    · refine ⟨hc, fun w' hc' hearly => ?_⟩
      show Activity.after.follow f a (a.resume s w') = _
      rw [hs w' hc' hearly]
      rfl
    · exact ⟨hf hc, trivial⟩
    · exact ⟨hc, trivial⟩
  exact ⟨fun hi hc => hfollow (h.start hi hc), fun hs hc => hfollow (h.resume hs hc)⟩

theorem within {a : Activity Token ο} {fits : a.State → Prop}
    (h : a.Resigns t (Serves id t call) fits) (length : Duration) :
    (a.within call length).Resigns t (Serves id t call) (fun s => fits s.inner) := by
  have hcheck : ∀ {out} (u : Token) (d : Nat), ResignsIn t (a.Spent t) out →
      ResignsIn t ((a.within call length).Spent t) (Activity.within.check a u d out) := by
    rintro ⟨s | o | x, w⟩ u d ⟨hc, hs⟩
    · unfold Activity.within.check
      dsimp only
      split
      · exact ⟨World.isCancelled_cancel (World.isCancelled_releaseAll hc _) u, trivial⟩
      · refine ⟨hc, fun w' hc' hearly => ?_⟩
        obtain ⟨hlate, hinner⟩ := List.forall_mem_cons.mp hearly
        show Activity.within.check a u d (a.resume s w') = _
        rw [hs w' hc' hinner, Activity.within.check, if_neg (Nat.not_le.mpr hlate)]
        rfl
    · exact ⟨hc, trivial⟩
    · exact ⟨hc, trivial⟩
  refine ⟨fun {u w} hu hc => hcheck _ _ (h.start ?_ hc), fun hs hc => hcheck _ _ (h.resume hs hc)⟩
  exact hu.stems ((Token.Stems.refl call u).child _)

/-! ### Layers -/

section

variable {op : Operation} {fits : op.State → Prop} (h : op.Resigns t (Serves id t site.call) fits)

include h

theorem withFallback (value : String) :
    (withFallback site value op).Resigns t (Serves id t site.call) fits := by
  refine h.after fun {r w} hc => ?_
  cases r with
  | ok v => exact hc
  | error f => exact World.isCancelled_emit hc site _

theorem withTimeout (length : Duration) :
    (withTimeout site length op).Resigns t (Serves id t site.call) (fun s => fits s.inner) := by
  refine (h.within length).after fun {r w} hc => ?_
  cases r with
  | some r => exact hc
  | none => exact World.isCancelled_emit hc site _

omit h in
/-- Under a cancelled token, no other attempt follows. -/
theorem proceed {s : RetrySettings} (hu : Serves id t site.call u) (left : Nat)
    {out : Status (Operation.attempt site s op).State (Option Result) × World}
    (hout : ResignsIn t ((Operation.attempt site s op).Spent t) out) :
    ResignsIn t ((withRetry site s op).Spent t) (Operation.proceed site s u left out) := by
  obtain ⟨hc, hs⟩ := hout
  rcases out with ⟨inner | o | x, w⟩
  · rw [Operation.proceed]
    refine ⟨hc, fun w' hc' hearly => ?_⟩
    show Operation.proceed site s u left ((Operation.attempt site s op).resume inner w') = _
    rw [hs w' hc' hearly, Operation.proceed]
    rfl
  · have hresult :
        (attemptResult site s (s.maxAttempts.toNat - left) o w).2.isCancelled t = true := by
      unfold attemptResult
      split
      · exact hc
      · exact World.isCancelled_emit hc site _
      · exact hc
    rw [proceed_of_isCancelled rfl (World.isCancelled_of_governs hresult hu.governs)]
    exact ⟨hresult, trivial⟩
  · rw [Operation.proceed]
    exact ⟨hc, trivial⟩

theorem attempt (s : RetrySettings) :
    (attempt site s op).Resigns t (Serves id t site.call) (attemptFits site op fits s) := by
  obtain ⟨maxAttempts, backoff, maxDelay, attemptTimeout, retryIf⟩ := s
  cases attemptTimeout with
  | none => exact h.after fun hc => hc
  | some length => exact h.within length

theorem withRetry (s : RetrySettings) : (withRetry site s op).Resigns t (Serves id t site.call)
    (RetryState.Fits (Serves id t site.call) (attemptFits site op fits s)) := by
  have ha := attempt h s
  refine ⟨fun hu hc => proceed hu _ (ha.start hu hc), fun {state w} hfits hc => ?_⟩
  cases state with
  | trying u left inner => exact proceed hfits.1 left (ha.resume hfits.2 hc)
  | waiting u left wakeAt =>
    have hu := World.isCancelled_of_governs hc (Serves.governs hfits)
    rw [resume_waiting]
    split
    · exact ⟨hc, trivial⟩
    next hstays =>
      split
      · exact proceed hfits left (ha.start hfits hc)
      next hearly =>
        -- a wait that is not over does not outlast the cancellation
        rw [givesUp_of_lt (Nat.lt_of_not_le hearly)] at hstays
        exact absurd hu hstays

section

variable {out : Status op.State Result × World} {first : op.State} {delay : Duration}

omit h in
theorem judgeAlone (hout : ResignsIn t (op.Spent t) out) :
    ResignsIn t ((withHedge site delay op).Spent t) (judgeAlone out) := by
  obtain ⟨hc, hs⟩ := hout
  rcases out with ⟨first | r | x, w⟩
  · refine ⟨hc, fun w' hc' hearly => ?_⟩
    show Operation.judgeAlone (op.resume first w') = _
    rw [hs w' hc' hearly]
    rfl
  · exact ⟨hc, trivial⟩
  · exact ⟨hc, trivial⟩

omit h in
theorem judgeRival (hfirst : op.Spent t first) (hout : ResignsIn t (op.Spent t) out) :
    ResignsIn t ((withHedge site delay op).Spent t) (judgeRival site u first v out) := by
  obtain ⟨hc, hs⟩ := hout
  rcases out with ⟨rival | r | x, w⟩
  · refine ⟨hc, fun w' hc' hearly => ?_⟩
    obtain ⟨hearly₁, hearly₂⟩ := List.forall_mem_append.mp hearly
    rw [Operation.withHedge_resume_racing, hfirst w' hc' hearly₁]
    dsimp only
    rw [hs w' hc' hearly₂]
    rfl
  · have hwon := World.isCancelled_emit (World.isCancelled_cancel hc u) site .hedgeWon
    exact ⟨World.isCancelled_releaseAll hwon _, trivial⟩
  · exact ⟨World.isCancelled_releaseAll hc _, trivial⟩

/-- Under a cancelled token, nothing is launched. -/
theorem judgeFirst {launchAt : Nat} (hu : Serves id t site.call u)
    (hout : ResignsIn t (op.Spent t) out) (hfits : Lands (fun s _ => fits s) (fun _ => True) out) :
    ResignsIn t ((withHedge site delay op).Spent t) (judgeFirst site delay u v launchAt out) := by
  obtain ⟨hc, hs⟩ := hout
  rcases out with ⟨first | r | x, w⟩
  · unfold Operation.judgeFirst
    dsimp only
    split
    · unfold Operation.launch
      rw [if_pos (World.isCancelled_of_governs hc hu.governs)]
      exact judgeAlone (h.resume hfits hc)
    · refine ⟨hc, fun w' hc' hearly => ?_⟩
      obtain ⟨hlate, hinner⟩ := List.forall_mem_cons.mp hearly
      show Operation.judgeFirst site delay u v launchAt (op.resume first w') = _
      rw [hs w' hc' hinner, Operation.judgeFirst, if_neg (Nat.not_le.mpr hlate)]
      rfl
  · exact ⟨hc, trivial⟩
  · exact ⟨hc, trivial⟩

end

theorem withHedge (hop : op.InsularFor id t site.call fits) (delay : Duration) :
    (withHedge site delay op).Resigns t (Serves id t site.call)
      (HedgeState.Fits (Serves id t site.call) fits) := by
  refine ⟨fun {u w} hu hc => ?_, fun {s w} hs hc => ?_⟩
  · have hv : Serves id t site.call (w.mint site.call u).1 :=
      hu.stems ((Token.Stems.refl site.call u).child _)
    have hminted : (w.mint site.call u).2.isCancelled t = true := hc
    exact judgeFirst h hu (h.start hv hminted) (hop.start hv (.refl _)).lands
  · cases s with
    | early caller u launchAt first =>
      exact judgeFirst h hs.1 (h.resume hs.2 hc) (hop.resume hs.2 (.refl _)).lands
    | alone first => exact judgeAlone (h.resume hs hc)
    | racing u first v rival =>
      obtain ⟨hc₁, hfirst⟩ := h.resume hs.1 hc
      rw [Operation.withHedge_resume_racing]
      generalize op.resume first w = out at hc₁ hfirst ⊢
      rcases out with ⟨first' | r | x, w₁⟩
      · exact judgeRival hfirst (h.resume hs.2 hc₁)
      · exact ⟨World.isCancelled_releaseAll (World.isCancelled_cancel hc₁ v) _, trivial⟩
      · exact ⟨World.isCancelled_releaseAll hc₁ _, trivial⟩

end

/-! ### All the layers without state -/

section

variable {op : Operation} {fits : op.State → Prop} (hcall : site.call.outermost = id)
  (hop : op.InsularFor id t site.call fits) (h : op.Resigns t (Serves id t site.call) fits)

include h hop

theorem apply {l : Layer} (hl : l.Stateless) : (l.apply site op).Resigns t (Serves id t site.call)
    (l.fits site (Serves id t site.call) op fits) := by
  cases l with
  | fallback value => exact withFallback h value
  | timeout length => exact withTimeout h length
  | retry s => exact withRetry h s
  | hedge delay => exact withHedge h hop delay
  | _ => exact hl.elim

include hcall

/-- **Layers without state around an operation** leave it spent. -/
theorem stack {layers : List Layer} (hlayers : ∀ l ∈ layers, l.Stateless) :
    (stack site layers op).Resigns t (Serves id t site.call)
      (stackFits site (Serves id t site.call) op fits layers) := by
  induction layers with
  | nil => exact h
  | cons l rest ih =>
    obtain ⟨hl, hrest⟩ := List.forall_mem_cons.mp hlayers
    exact apply (hop.stack hcall hrest) (ih hrest) hl

end

end Resigns

end Activity

end CallPolicy
