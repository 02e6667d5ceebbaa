/-
Failures seen through their layers.

Whatever is asked of a failure is answered by its `base` and by its `attemptCounts`, the
layers of spent attempts around it (`wrap_base_attempts`):

* **`base_kind_ne`** — the base is no layer itself;
* **`tag_base`**, **`operation?_base`**, **`intoOperation?_base`** — these views see the base alone;
* **`isRejection_iff`** — a rejection has no layers;
* **`causes_eq`** — the causes are the failures inside, the outermost first, and the operation's
  own error after them;
* **`iterate_cause?_of_le`**, **`iterate_cause?_add`** — they are what is found by asking for one
  cause after the other, and then come those that the operation's own error knows;
* **`message_eq`** — the words of the layers come first, then those of the base.

How an operation's own error is displayed, and what it names as its source, is open: `display`
and `source` stand for any such functions.
-/
import CallPolicy.Failure
import Mathlib.Logic.Function.Iterate

namespace CallPolicy.Failure

/-! ### The base -/

/-- The base is no layer of spent attempts. -/
theorem base_kind_ne (f : Failure) : f.base.kind ≠ .exhausted := by
  induction f with
  | exhausted n last ih => exact ih
  | _ => exact nofun

theorem tag_base (f : Failure) : f.tag = f.base.tag := by
  induction f with
  | exhausted n last ih => exact ih
  | _ => rfl

theorem operation?_base (f : Failure) : f.operation? = f.base.operation? := by
  induction f with
  | exhausted n last ih => exact ih
  | _ => rfl

theorem intoOperation?_base (f : Failure) : f.intoOperation? = f.base.intoOperation? := by
  induction f with
  | exhausted n last ih => exact ih
  | _ => rfl

/-- What a failure is given up for is what can be seen in it. -/
theorem intoOperation?_eq (f : Failure) : f.intoOperation? = f.operation? := by
  induction f with
  | exhausted n last ih => exact ih
  | _ => rfl

/-- A rejection by a gate is no layer and has none. -/
theorem isRejection_iff (f : Failure) :
    f.isRejection = true ↔
      f.attemptCounts = [] ∧
        (f.base = .circuitOpen ∨ f.base = .bulkheadFull ∨ f.base = .rateLimited) := by
  cases f with
  | exhausted n last => simp [isRejection, attemptCounts]
  | _ => simp [isRejection, attemptCounts, base]

/-! ### Causes -/

/-- What lies directly behind a cause. What lies behind an operation's own error, the error
itself knows. -/
def Cause.next? (source : String → Option String) : Cause → Option Cause
  | .failure f => f.cause?
  | .error x => (source x).map .error

theorem length_causes_le (f : Failure) : f.causes.length ≤ f.attemptCounts.length + 1 := by
  induction f with
  | exhausted n last ih =>
    rw [causes, attemptCounts, List.length_cons, List.length_append, List.length_singleton]
    exact Nat.succ_le_succ ih
  | operation error tag => exact Nat.le_refl _
  | _ => exact Nat.zero_le _

section

variable {source : String → Option String}

theorem iterate_next?_error (x? : Option String) (i : Nat) :
    (Option.bind · (Cause.next? source))^[i] (x?.map .error) =
      ((Option.bind · source)^[i] x?).map .error := by
  induction i generalizing x? with
  | zero => rfl
  | succ i ih =>
    have hnext : (x?.map Cause.error).bind (Cause.next? source) = (x?.bind source).map .error := by
      cases x? <;> rfl
    rw [Function.iterate_succ_apply, Function.iterate_succ_apply, hnext]
    exact ih _

/-- The causes are found by asking for one after the other. -/
theorem iterate_cause?_of_le (f : Failure) {i : Nat} (h : i ≤ f.attemptCounts.length) :
    (Option.bind · (Cause.next? source))^[i] f.cause? = f.causes[i]? := by
  induction f generalizing i with
  | exhausted n last ih =>
    cases i with
    | zero => rfl
    | succ i =>
      rw [attemptCounts, List.length_append, List.length_singleton] at h
      rw [Function.iterate_succ_apply, causes, List.getElem?_cons_succ]
      exact ih (Nat.le_of_succ_le_succ h)
  | _ =>
    obtain rfl := Nat.le_zero.mp h
    rfl

/-- Behind a failure without layers there is at most the operation's own error. -/
theorem cause?_of_base {f : Failure} (h : f.attemptCounts = []) :
    f.cause? = f.operation?.map .error := by
  cases f with
  | exhausted n last => simp [attemptCounts] at h
  | _ => rfl

/-- Once the layers have been taken off, there is what the operation's own error knows. -/
theorem iterate_cause?_add (f : Failure) (i : Nat) :
    (Option.bind · (Cause.next? source))^[f.attemptCounts.length + i] f.cause? =
      ((Option.bind · source)^[i] f.operation?).map .error := by
  induction f with
  | exhausted n last ih =>
    rw [attemptCounts, List.length_append, List.length_singleton, Nat.add_right_comm,
      Function.iterate_succ_apply]
    exact ih
  | _ =>
    show (Option.bind · (Cause.next? source))^[0 + i] _ = _
    rw [Nat.zero_add, cause?_of_base rfl]
    exact iterate_next?_error _ i

/-- The search ends with them if there is nothing behind the operation's own error. -/
theorem iterate_cause? (f : Failure) (hsource : ∀ x, f.operation? = some x → source x = none)
    (i : Nat) : (Option.bind · (Cause.next? source))^[i] f.cause? = f.causes[i]? := by
  rcases Nat.lt_or_ge f.attemptCounts.length i with hlt | hle
  · obtain ⟨j, rfl⟩ := Nat.exists_eq_add_of_lt hlt
    have hnone : f.operation?.bind source = none := Option.bind_eq_none_iff.mpr hsource
    have hlast : f.causes.length ≤ f.attemptCounts.length + 1 := f.length_causes_le
    rw [Nat.add_assoc, iterate_cause?_add, Function.iterate_succ_apply, hnone,
      Function.iterate_fixed rfl, List.getElem?_eq_none (by omega)]
    rfl
  · exact f.iterate_cause?_of_le hle

end

/-- The failures inside, the outermost first, have one layer less each; after the base comes
the operation's own error, if it is one that failed. -/
theorem causes_eq (f : Failure) :
    f.causes = ((List.range f.attemptCounts.length).reverse.map fun j =>
        .failure (f.base.wrap (f.attemptCounts.take j))) ++ (f.operation?.map .error).toList := by
  induction f with
  | exhausted n last ih =>
    -- without the outermost layer there is one layer less to leave out
    have hlast :
        last.base.wrap ((last.attemptCounts ++ [n]).take last.attemptCounts.length) = last := by
      rw [List.take_left, wrap_base_attempts]
    have hinner : ∀ j ∈ (List.range last.attemptCounts.length).reverse,
        Cause.failure (last.base.wrap ((last.attemptCounts ++ [n]).take j)) =
          .failure (last.base.wrap (last.attemptCounts.take j)) := by
      intro j hj
      rw [List.mem_reverse, List.mem_range] at hj
      rw [List.take_append_of_le_length (Nat.le_of_lt hj)]
    rw [causes, ih, attemptCounts, List.length_append, List.length_singleton, List.range_succ,
      List.reverse_append, List.reverse_singleton, List.map_append, List.map_singleton, base,
      hlast, List.map_congr_left hinner]
    rfl
  | _ => rfl

/-! ### Words -/

/-- What a layer of spent attempts says before the failure inside it. -/
def exhaustedText (n : Nat) : String := "retries exhausted after " ++ toString n ++ " attempts: "

section

variable {display : String → String}

theorem message_exhausted (n : Nat) (last : Failure) :
    (exhausted n last).message display = exhaustedText n ++ last.message display := rfl

/-- The layers speak first, the outermost one before the others, and the base last. -/
theorem message_eq (f : Failure) :
    f.message display =
      String.join (f.attemptCounts.reverse.map exhaustedText) ++ f.base.message display := by
  induction f with
  | exhausted n last ih =>
    rw [message_exhausted, ih, attemptCounts, List.reverse_append, List.reverse_singleton,
      List.singleton_append, List.map_cons, String.join_cons, base, String.append_assoc]
  | _ => simp [attemptCounts, base]

/-- The words of every cause are the last words of the failure. -/
theorem message_of_mem_causes {f : Failure} {c : Cause} (h : c ∈ f.causes) :
    ∃ before, f.message display = before ++ c.message display := by
  induction f with
  | exhausted n last ih =>
    rcases List.mem_cons.mp h with rfl | hlast
    · exact ⟨exhaustedText n, message_exhausted n _⟩
    · obtain ⟨before, hbefore⟩ := ih hlast
      refine ⟨exhaustedText n ++ before, ?_⟩
      rw [message_exhausted, hbefore, String.append_assoc]
  | operation error tag =>
    rw [List.mem_singleton.mp h]
    exact ⟨"", (String.empty_append ..).symm⟩
  | _ => exact absurd h List.not_mem_nil

end

/-! ### All of them -/

/-- **A failure can be seen through its layers**, however many there are. It is its base inside
one layer for each attempt count; its tag and the operation's own error, looked at or taken out,
are those of the base. It is a rejection iff it is one of the three that gates make, without
layers. Asking for one cause after the other finds the failures inside, one layer less each time
and the base last, then the operation's own error if there is one, and after it only what that
error names as its own source. However the operation's error is displayed, the words of the
layers come first, those of the base last, so that all these causes have the last words of it. -/
theorem seen_through_layers (f : Failure) (display : String → String)
    (source : String → Option String) :
    f.base.kind ≠ .exhausted ∧ f = f.base.wrap f.attemptCounts ∧
    f.tag = f.base.tag ∧ f.operation? = f.base.operation? ∧
    f.intoOperation? = f.base.intoOperation? ∧ f.intoOperation? = f.operation? ∧
    (f.isRejection = true ↔
      f.attemptCounts = [] ∧
        (f.base = .circuitOpen ∨ f.base = .bulkheadFull ∨ f.base = .rateLimited)) ∧
    (∀ i, (i ≤ f.attemptCounts.length ∨ ∀ x, f.operation? = some x → source x = none) →
      (Option.bind · (Cause.next? source))^[i] f.cause? =
        (((List.range f.attemptCounts.length).reverse.map fun j =>
          Cause.failure (f.base.wrap (f.attemptCounts.take j))) ++
            (f.operation?.map .error).toList)[i]?) ∧
    (∀ i, (Option.bind · (Cause.next? source))^[f.attemptCounts.length + i] f.cause? =
      ((Option.bind · source)^[i] f.operation?).map .error) ∧
    f.message display = String.join (f.attemptCounts.reverse.map fun n =>
      "retries exhausted after " ++ toString n ++ " attempts: ") ++ f.base.message display ∧
    ∀ i c, (i ≤ f.attemptCounts.length ∨ ∀ x, f.operation? = some x → source x = none) →
      (Option.bind · (Cause.next? source))^[i] f.cause? = some c →
        ∃ before, f.message display = before ++ c.message display := by
  have hcauses : ∀ i,
      (i ≤ f.attemptCounts.length ∨ ∀ x, f.operation? = some x → source x = none) →
      (Option.bind · (Cause.next? source))^[i] f.cause? = f.causes[i]? := fun i hi =>
    hi.elim f.iterate_cause?_of_le (f.iterate_cause? · i)
  refine ⟨f.base_kind_ne, f.wrap_base_attempts.symm, f.tag_base, f.operation?_base,
    f.intoOperation?_base, f.intoOperation?_eq, f.isRejection_iff, fun i hi => ?_,
    f.iterate_cause?_add, f.message_eq, fun i c hi hc => ?_⟩
  · rw [hcauses i hi, f.causes_eq]
  · rw [hcauses i hi] at hc
    exact message_of_mem_causes (List.mem_of_getElem? hc)

/-- Two layers around a permanent failure. The third cause is the operation's own error, and the
fourth one is its source. -/
theorem seen_through_layers_twice :
    let f : Failure := .exhausted 3 (.exhausted 2 (.operation "e" (some .permanent)))
    let source : String → Option String := fun x => if x = "e" then some "io" else none
    f.tag = .permanent ∧ f.isRejection = false ∧
      (Option.bind · (Cause.next? source))^[2] f.cause? = some (.error "e") ∧
      (Option.bind · (Cause.next? source))^[2 + 1] f.cause? = some (.error "io") ∧
      ∃ before, f.message = before ++ Cause.message (.error "e") := by
  intro f source
  have hthird : (Option.bind · (Cause.next? source))^[2] f.cause? = some (.error "e") := rfl
  obtain ⟨-, -, htag, -, -, -, -, -, hsources, -, hwords⟩ :=
    seen_through_layers f operationMessage source
  exact ⟨htag.trans rfl, rfl, hthird, (hsources 1).trans rfl,
    hwords 2 _ (.inl (Nat.le_refl 2)) hthird⟩

end CallPolicy.Failure
