/-
The history of a breaker, as the trace of a world has it.

The trace says which calls got a permit, with which outcomes permits came back,
and when the breaker of a policy changed its state. From these entries alone:

* `changes` — the states that the breaker went into, the last first;
* `admittedNow` — whether a call was admitted in the present period, that is,
  since the last change of state;
* `counted` — the outcomes that count: the successes and failures, since the
  last change of state, of calls that were admitted since then, too;
* `lastOpening` — the instant of the last change into the open state.

None of them looks at a breaker. Entries about other things do not matter
(`changes_append`, `admittedNow_append`, `counted_append`,
`lastOpening_append`).
-/
import CallPolicy.Proofs.BreakerTally
import CallPolicy.Layer.Admission

namespace CallPolicy

/-- The state of a breaker that an event tells of. -/
def Event.reached? : Event → Option BreakerState
  | .circuitClosed => some .closed
  | .circuitOpened => some .open
  | .circuitHalfOpened => some .halfOpen
  | _ => none

@[simp] theorem Event.reached?_news (st : BreakerState) : st.news.reached? = some st := by
  cases st <;> rfl

namespace Entry

/-- The state that the breaker of the policy with a given key goes into, if the
entry tells of that. -/
def change? (key : Nat) (e : Entry) : Option BreakerState :=
  match e.record with
  | .event site ev => if site.origin.key = key then ev.reached? else none
  | _ => none

/-- Does a call get its permit? -/
def admits (site : Site) (e : Entry) : Bool :=
  match e.record with
  | .gate site' (.permitIssued _) => site' = site
  | _ => false

/-- The call whose permit comes back, with its outcome. -/
def settled? (e : Entry) : Option (Site × Outcome) :=
  match e.record with
  | .gate site (.permitSettled _ o) => some (site, o)
  | _ => none

/-- Is the entry about the breaker of the policy with a given key? -/
def concerns (key : Nat) (e : Entry) : Bool :=
  match e.record with
  | .event .. => (e.change? key).isSome
  | .gate site (.permitIssued _) => site.origin.key = key
  | .gate site (.permitSettled ..) => site.origin.key = key
  | _ => false

variable {key : Nat} {site : Site} {e : Entry}

theorem change?_of_not_concerns (h : e.concerns key = false) : e.change? key = none := by
  unfold concerns at h
  unfold change? at h ⊢
  split at h <;> simp_all

theorem admits_of_not_concerns (hs : site.origin.key = key) (h : e.concerns key = false) :
    e.admits site = false := by
  unfold concerns at h
  unfold admits
  split
  next site' q hr =>
    rw [hr] at h
    simp only [decide_eq_false_iff_not] at h ⊢
    rintro rfl
    exact h hs
  next => rfl

theorem settled?_of_not_concerns {o : Outcome} (h : e.concerns key = false)
    (he : e.settled? = some (site, o)) : site.origin.key ≠ key := by
  unfold concerns at h
  unfold settled? at he
  split at he
  next site' q o' hr =>
    rw [hr] at h
    cases he
    simpa using h
  next => cases he

theorem change?_of_admits (h : e.admits site = true) : e.change? key = none := by
  unfold admits at h
  unfold change?
  split at h
  next hr => rw [hr]
  next => cases h

end Entry

namespace Trace

/-- The states that the breaker of a policy went into, the last first. -/
def changes (key : Nat) (tr : List Entry) : List BreakerState := tr.filterMap (Entry.change? key)

/-- Was a call admitted since the last change of state? -/
def admittedNow (key : Nat) (site : Site) : List Entry → Bool
  | [] => false
  | e :: tr => (e.change? key).isNone && (e.admits site || admittedNow key site tr)

/-- The outcomes since the last change of state that count, the last first. -/
def counted (key : Nat) : List Entry → List Outcome
  | [] => []
  | e :: tr =>
    if (e.change? key).isSome then []
    else match e.settled? with
      | some (site, o) =>
        if site.origin.key = key ∧ o ≠ .ignored ∧ admittedNow key site tr then o :: counted key tr
        else counted key tr
      | none => counted key tr

/-- The instant at which the breaker of a policy last opened. -/
def lastOpening (key : Nat) (tr : List Entry) : Option Nat :=
  (tr.find? fun e => e.change? key = some .open).map Entry.time

/-- How often the breaker of a policy changed its state before a call got its
permit. -/
def changesBefore (key : Nat) (site : Site) : List Entry → Nat
  | [] => 0
  | e :: tr => if e.admits site then (changes key tr).length else changesBefore key site tr

/-- What the breaker of a policy is to be, by the history of it. -/
def specOf (key : Nat) (tr : List Entry) : BreakerSpec :=
  ⟨(changes key tr).headD .closed, counted key tr⟩

variable {key : Nat} {site : Site} {tr es : List Entry} {e : Entry}

theorem changes_cons : changes key (e :: tr) = (e.change? key).toList ++ changes key tr := by
  rw [changes, List.filterMap_cons]
  cases e.change? key <;> rfl

/-! ### Entries about other things -/

theorem changes_append (h : ∀ e ∈ es, e.concerns key = false) :
    changes key (es ++ tr) = changes key tr := by
  have hnil : es.filterMap (Entry.change? key) = [] :=
    List.filterMap_eq_nil_iff.mpr fun e he => Entry.change?_of_not_concerns (h e he)
  rw [changes, List.filterMap_append, hnil]
  rfl

theorem admittedNow_append (hs : site.origin.key = key) (h : ∀ e ∈ es, e.concerns key = false) :
    admittedNow key site (es ++ tr) = admittedNow key site tr := by
  induction es with
  | nil => rfl
  | cons e es ih =>
    have he := h e List.mem_cons_self
    rw [List.cons_append, admittedNow, Entry.change?_of_not_concerns he,
      Entry.admits_of_not_concerns hs he, ih fun e' he' => h e' (List.mem_cons_of_mem _ he')]
    rfl

theorem counted_append (h : ∀ e ∈ es, e.concerns key = false) :
    counted key (es ++ tr) = counted key tr := by
  induction es with
  | nil => rfl
  | cons e es ih =>
    have he := h e List.mem_cons_self
    have ih := ih fun e' he' => h e' (List.mem_cons_of_mem _ he')
    rw [List.cons_append, counted, Entry.change?_of_not_concerns he, if_neg (by simp)]
    split
    next site o hs =>
      rw [if_neg fun hc => Entry.settled?_of_not_concerns he hs hc.1]
      exact ih
    next => exact ih

/-- Entries that tell of no change of state do not matter. -/
theorem lastOpening_append (h : ∀ e ∈ es, e.change? key = none) :
    lastOpening key (es ++ tr) = lastOpening key tr := by
  have hnone : (es.find? fun e => e.change? key = some .open) = none := by
    rw [List.find?_eq_none]
    intro e he
    rw [h e he]
    decide
  rw [lastOpening, List.find?_append, hnone]
  rfl

theorem changesBefore_append (hs : site.origin.key = key)
    (h : ∀ e ∈ es, e.concerns key = false) :
    changesBefore key site (es ++ tr) = changesBefore key site tr := by
  induction es with
  | nil => rfl
  | cons e es ih =>
    rw [List.cons_append, changesBefore,
      if_neg (by rw [Entry.admits_of_not_concerns hs (h e List.mem_cons_self)]; decide),
      ih fun e' he' => h e' (List.mem_cons_of_mem _ he')]

theorem specOf_append (h : ∀ e ∈ es, e.concerns key = false) :
    specOf key (es ++ tr) = specOf key tr := by
  rw [specOf, changes_append h, counted_append h]
  rfl

/-- A change of state starts anew. -/
theorem specOf_change {st : BreakerState} (h : e.change? key = some st) :
    specOf key (e :: tr) = ⟨st, []⟩ := by
  rw [specOf, changes_cons, h, counted, if_pos (by rw [h]; rfl)]
  rfl

/-- An entry that tells of no change of state and of no permit that comes back
does not matter. -/
theorem specOf_quiet (hc : e.change? key = none) (hs : e.settled? = none) :
    specOf key (e :: tr) = specOf key tr := by
  rw [specOf, changes_cons, counted, hc, hs]
  rfl

/-- A permit that comes back counts if its call was admitted in the present
period. -/
theorem specOf_settled (now : Nat) (p : Permit) (o : Outcome) (tr : List Entry)
    (hkey : site.origin.key = key) :
    specOf key (⟨now, .gate site (.permitSettled p o)⟩ :: tr) =
      if o ≠ .ignored ∧ admittedNow key site tr = true then
        ⟨(specOf key tr).state, o :: (specOf key tr).counted⟩
      else specOf key tr := by
  have hcounted : counted key (⟨now, .gate site (.permitSettled p o)⟩ :: tr) =
      if site.origin.key = key ∧ o ≠ .ignored ∧ admittedNow key site tr then o :: counted key tr
      else counted key tr := rfl
  have hchanges : changes key (⟨now, .gate site (.permitSettled p o)⟩ :: tr) = changes key tr := rfl
  rw [specOf, hcounted, hchanges]
  by_cases hc : o ≠ .ignored ∧ admittedNow key site tr = true
  · rw [if_pos ⟨hkey, hc⟩, if_pos hc]
    rfl
  · rw [if_neg fun h => hc h.2, if_neg hc]
    rfl

/-! ### Periods -/

theorem changesBefore_le : changesBefore key site tr ≤ (changes key tr).length := by
  induction tr with
  | nil => exact Nat.le_refl 0
  | cons e tr ih =>
    have hle : (changes key tr).length ≤ (changes key (e :: tr)).length := by
      rw [changes_cons, List.length_append]
      exact Nat.le_add_left _ _
    rw [changesBefore]
    split
    · exact hle
    · exact Nat.le_trans ih hle

/-- A call that got a permit got it in the present period iff the state has not
changed since. -/
theorem changesBefore_eq_iff (h : ∃ e ∈ tr, e.admits site = true) :
    changesBefore key site tr = (changes key tr).length ↔ admittedNow key site tr = true := by
  induction tr with
  | nil => simp at h
  | cons e tr ih =>
    rw [changesBefore, admittedNow]
    by_cases ha : e.admits site = true
    · -- the call gets its permit here, and nothing has happened since
      have hc : e.change? key = none := Entry.change?_of_admits ha
      rw [if_pos ha, changes_cons, hc, ha]
      simp
    · have h' : ∃ e ∈ tr, e.admits site = true := by
        obtain ⟨e', he', ha'⟩ := h
        rcases List.mem_cons.mp he' with rfl | he'
        · exact absurd ha' ha
        · exact ⟨e', he', ha'⟩
      rw [if_neg ha]
      cases hc : e.change? key with
      | none => simpa [changes_cons, hc, ha] using ih h'
      | some st =>
        -- a change of state makes all earlier permits old
        have hle : changesBefore key site tr ≤ (changes key tr).length := changesBefore_le
        have hne : changesBefore key site tr ≠ (changes key (e :: tr)).length := by
          rw [changes_cons, hc]
          exact Nat.ne_of_lt (Nat.lt_succ_of_le hle)
        simpa using hne

end Trace

end CallPolicy
