/-
What leaves a part of the world alone.

Most of what happens in a run is nothing to a given gate. `World.Keeps view about`
says so for a part of the gates and the entries that are about it: the `view` stays
the same, and no entry that is `about` it is added to the trace. Time may pass.

* **`Keeps.trans`** — this goes on for as long as one likes;
* **`Keeps.note`**, **`Keeps.emit`**, **`Keeps.modifyGates`**, **`Keeps.setBreaker`** —
  what the operations on a world leave alone;
* **`Keeps.release`** — so does giving something back, if nothing but the trace matters;
* **`after.follow_rel`**, **`holding.keep_rel`**, **`within.check_rel`** — what the building
  blocks of activities add to an activity.
-/
import CallPolicy.Activity

namespace CallPolicy

/-- Something has happened that leaves a part of the gates alone and adds no entry to
the trace that is about it. Time may have passed. -/
structure World.Keeps {α : Type} (view : (Nat → Gates) → α) (about : Entry → Bool) (w w' : World) :
    Prop where
  view : view w'.gates = view w.gates
  now : w.now ≤ w'.now
  trace : ∃ es, w'.trace = es ++ w.trace ∧ ∀ e ∈ es, about e = false

namespace World.Keeps

variable {α : Type} {view : (Nat → Gates) → α} {about : Entry → Bool} {w w' w'' : World}

theorem refl (w : World) : w.Keeps view about w := ⟨rfl, Nat.le_refl _, [], rfl, nofun⟩

theorem trans (h : w.Keeps view about w') (h' : w'.Keeps view about w'') :
    w.Keeps view about w'' := by
  obtain ⟨es, htr, hes⟩ := h.trace
  obtain ⟨es', htr', hes'⟩ := h'.trace
  refine ⟨h'.view.trans h.view, Nat.le_trans h.now h'.now, es' ++ es, ?_, ?_⟩
  · rw [htr', htr, List.append_assoc]
  · intro e he
    rcases List.mem_append.mp he with he | he
    · exact hes' e he
    · exact hes e he

/-- Fewer entries count as being about something. -/
theorem mono {about' : Entry → Bool} (h : w.Keeps view about w')
    (habout : ∀ e, about e = false → about' e = false) : w.Keeps view about' w' := by
  obtain ⟨es, htr, hes⟩ := h.trace
  exact ⟨h.view, h.now, es, htr, fun e he => habout e (hes e he)⟩

/-- One entry is added. -/
theorem entry {e : Entry} (hview : view w'.gates = view w.gates) (hnow : w'.now = w.now)
    (htr : w'.trace = e :: w.trace) (he : about e = false) : w.Keeps view about w' := by
  refine ⟨hview, Nat.le_of_eq hnow.symm, [e], htr, ?_⟩
  intro e' he'
  rw [List.mem_singleton] at he'
  subst he'
  exact he

theorem note (w : World) (r : Record) (h : about ⟨w.now, r⟩ = false) :
    w.Keeps view about (w.note r) := entry rfl rfl rfl h

theorem emit (w : World) (site : Site) (ev : Event) (h : about ⟨w.now, .event site ev⟩ = false) :
    w.Keeps view about (w.emit site ev) :=
  entry (congrArg view (w.emit_gates site ev)) (w.emit_now site ev) (w.emit_trace site ev) h

theorem modifyGates (w : World) (key : Nat) (f : Gates → Gates)
    (h : view (assign w.gates key (f (w.gates key))) = view w.gates) :
    w.Keeps view about (w.modifyGates key f) := ⟨h, Nat.le_refl _, [], rfl, nofun⟩

theorem setBreaker (w : World) (site : Site) (b : Breaker)
    (hview : view (assign w.gates site.origin.key { w.gatesOf site with breaker := b }) =
      view w.gates)
    (h : about ⟨w.now, .event site b.state.news⟩ = false) :
    w.Keeps view about (w.setBreaker site b) := by
  rw [← setBreaker_gates] at hview
  by_cases hb : b.state = (w.gatesOf site).breaker.state
  · refine ⟨hview, Nat.le_of_eq (w.setBreaker_now site b).symm, [], ?_, nofun⟩
    rw [setBreaker_trace, if_pos hb]
    rfl
  · refine entry hview (w.setBreaker_now site b) ?_ h
    rw [setBreaker_trace, if_neg hb]

theorem tick (w : World) (t : Nat) (ht : w.now ≤ t) : w.Keeps view about { w with now := t } :=
  ⟨rfl, ht, [], rfl, nofun⟩

end World.Keeps

/-! ### Giving things back -/

/-- Does the record tell that something is given back unused, or of what a breaker makes of
that? -/
def Record.isReturn : Record → Bool
  | .event _ .slotReleased => true
  | .event _ .circuitOpened => true
  | .event _ .circuitHalfOpened => true
  | .event _ .circuitClosed => true
  | .gate _ (.permitSettled _ .ignored) => true
  | .abandoned _ _ _ => true
  | _ => false

theorem Record.isReturn_news (site : Site) (st : BreakerState) :
    (Record.event site st.news).isReturn = true := by
  cases st <;> rfl

namespace World.Keeps

variable {about : Entry → Bool}

theorem silent {w w' : World} (hnow : w'.now = w.now) (htr : w'.trace = w.trace) :
    w.Keeps (fun _ => ()) about w' := ⟨rfl, Nat.le_of_eq hnow.symm, [], htr, nofun⟩

section

variable (habout : ∀ e, e.record.isReturn = true → about e = false)

include habout

theorem settlePermit (w : World) (site : Site) (s : BreakerSettings) {p : Permit} {o : Outcome}
    (h : about ⟨w.now, .gate site (.permitSettled p o)⟩ = false) :
    w.Keeps (fun _ => ()) about (w.settlePermit site s p o) :=
  (note w _ h).trans (.setBreaker _ site _ rfl (habout _ (Record.isReturn_news site _)))

theorem release (w : World) (h : Holding) : w.Keeps (fun _ => ()) about (w.release h) := by
  cases h with
  | invocation call k token => exact .note w _ (habout _ rfl)
  | slot site => exact (modifyGates w _ _ rfl).trans (.emit _ site .slotReleased (habout _ rfl))
  | permit site s p => exact settlePermit habout w site s (habout _ rfl)

theorem releaseAll (w : World) (hs : List Holding) :
    w.Keeps (fun _ => ()) about (w.releaseAll hs) := by
  induction hs generalizing w with
  | nil => exact .refl w
  | cons h hs ih => exact (release habout w h).trans (ih (w.release h))

end

end World.Keeps

/-! ### Building blocks -/

namespace Activity

variable {ι ο ο' η : Type} (a : Activity ι ο) {R : World → World → Prop}

theorem after.follow_rel {f : ο → World → ο' × World} (hrefl : ∀ w, R w w)
    (hf : ∀ o w, R w (f o w).2) (out : Status a.State ο × World) :
    R out.2 (after.follow f a out).2 := by
  rcases out with ⟨s | o | x, w⟩
  · exact hrefl w
  · exact hf o w
  · exact hrefl w

theorem holding.keep_rel {held : η → Holding} {give : η → ο → World → World}
    (hrefl : ∀ w, R w w) (hgive : ∀ x o w, R w (give x o w))
    (hrelease : ∀ x w, R w (w.release (held x))) (x : η) (out : Status a.State ο × World) :
    R out.2 (holding.keep held give a x out).2 := by
  rcases out with ⟨s | o | y, w⟩
  · exact hrefl w
  · exact hgive x o w
  · exact hrelease x w

theorem within.check_rel (a : Activity Token ο) (hrefl : ∀ w, R w w) (t : Token)
    (hdrop : ∀ hs w, R w ((w.releaseAll hs).cancel t)) (deadline : Nat)
    (out : Status a.State ο × World) : R out.2 (within.check a t deadline out).2 := by
  rcases out with ⟨s | o | x, w⟩
  · unfold within.check
    dsimp only
    split
    · exact hdrop _ w
    · exact hrefl w
  · exact hrefl w
  · exact hrefl w

end Activity

namespace Operation

variable {R : World → World → Prop} (site : Site)

/-- A fallback adds at most an event. -/
theorem withFallback_step (hrefl : ∀ w, R w w) (hemit : ∀ w f, R w (w.emit site (.fellBack f)))
    (value : String) (r : Result) (w : World) :
    R w (match r with
      | .ok v => (Except.ok v, w)
      | .error f => (Except.ok value, w.emit site (.fellBack f)) : Result × World).2 := by
  cases r with
  | ok v => exact hrefl w
  | error f => exact hemit w f

/-- What is made of the end of a call with a deadline adds at most an event. -/
theorem withTimeout_step (length : Duration) (hrefl : ∀ w, R w w)
    (hemit : ∀ w, R w (w.emit site (.timedOut length))) (r : Option Result) (w : World) :
    R w (match r with
      | some r => (r, w)
      | none => (Except.error .timeout, w.emit site (.timedOut length)) : Result × World).2 := by
  cases r with
  | some r => exact hrefl w
  | none => exact hemit w

end Operation

end CallPolicy
