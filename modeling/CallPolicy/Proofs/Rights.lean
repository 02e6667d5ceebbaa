/-
What a call may do, and how often.

A call asks each gate of its policy once at most, however often its operation is
invoked. A `Right` is the right to do one such thing once: to ask a gate, or to
invoke the operation. The layers of a policy say which rights a call through it
has (`Policy.rights`), and the actions of an invocation say which rights the calls
have that it makes (`actionsRights`):

* **`Policy.count_ask_rights`** — a call has the right to ask a gate once at most;
* **`count_ask_actionsRights`** — and so have all the calls of an invocation;
* **`Policy.call_of_mem_rights`**, **`call_of_mem_actionsRights`** — no call has a
  right of another one.
-/
import CallPolicy.Script
import Mathlib.Algebra.Order.Group.Multiset
import Mathlib.Data.Multiset.Filter

namespace CallPolicy

/-- The right to do something once. -/
inductive Right
  /-- To ask a gate of a call's policy. -/
  | ask (site : Site) (gate : LayerKind)
  /-- To invoke a call's operation. -/
  | invoke (call : CallId)
deriving DecidableEq

/-- The call that has a right. -/
def Right.call : Right → CallId
  | ask site _ => site.call
  | invoke call => call

/-- What a layer may do, if what is inside it may do `inner` whenever it starts. -/
def Layer.rights (site : Site) (l : Layer) (inner : Multiset Right) : Multiset Right :=
  match l with
  | .fallback _ => inner
  | .timeout _ => inner
  | .breaker _ => .ask site .breaker ::ₘ inner
  | .rateLimit _ => .ask site .rateLimit ::ₘ inner
  | .bulkhead _ => .ask site .bulkhead ::ₘ inner
  | .retry s => s.maxAttempts.toNat • inner
  | .hedge _ => 2 • inner

/-- What layers may do around something that may do `inner`. -/
def stackRights (site : Site) (layers : List Layer) (inner : Multiset Right) : Multiset Right :=
  layers.foldr (Layer.rights site) inner

/-- What a call through a policy may do. -/
def Policy.rights (p : Policy) (id : CallId) : Multiset Right :=
  stackRights ⟨p.origin, id⟩ p.layers {.invoke id}

/-- What a call that is made by an action may do. -/
def Action.rights (call : CallId) (k position : Nat) : Action → Multiset Right
  | .call policy _ => policy.rights (.nested call k position policy.name)
  | _ => 0

/-- What the calls that are made by the actions from some position on may do. -/
def actionsRights (call : CallId) (k position : Nat) : List Action → Multiset Right
  | [] => 0
  | a :: rest => a.rights call k position + actionsRights call k (position + 1) rest

variable {site σ : Site} {gate : LayerKind} {inner : Multiset Right} {r : Right}

/-! ### The rights of one call -/

/-- A layer has rights of its own call alone. -/
theorem Layer.mem_rights {l : Layer} (h : r ∈ l.rights site inner) :
    (r = .ask site l.kind ∧ l.kind.position < LayerKind.retry.position) ∨ r ∈ inner := by
  cases l with
  | fallback _ => exact .inr h
  | timeout _ => exact .inr h
  | breaker _ =>
    exact (Multiset.mem_cons.mp h).imp_left fun h => ⟨h, by simp [kind, LayerKind.position]⟩
  | rateLimit _ =>
    exact (Multiset.mem_cons.mp h).imp_left fun h => ⟨h, by simp [kind, LayerKind.position]⟩
  | bulkhead _ =>
    exact (Multiset.mem_cons.mp h).imp_left fun h => ⟨h, by simp [kind, LayerKind.position]⟩
  | retry s => exact .inr (Multiset.mem_of_mem_nsmul h)
  | hedge _ => exact .inr (Multiset.mem_of_mem_nsmul h)

theorem mem_stackRights {layers : List Layer} (h : r ∈ stackRights site layers inner) :
    (∃ l ∈ layers, r = .ask site l.kind ∧ l.kind.position < LayerKind.retry.position) ∨
      r ∈ inner := by
  induction layers with
  | nil => exact .inr h
  | cons l rest ih =>
    rcases Layer.mem_rights h with hl | hrest
    · exact .inl ⟨l, List.mem_cons_self, hl⟩
    · rcases ih hrest with ⟨l', hl', hr⟩ | hr
      · exact .inl ⟨l', List.mem_cons_of_mem _ hl', hr⟩
      · exact .inr hr

theorem Policy.call_of_mem_rights {p : Policy} {id : CallId} (h : r ∈ p.rights id) :
    r.call = id := by
  rcases mem_stackRights h with ⟨l, -, rfl, -⟩ | hr
  · rfl
  · rw [Multiset.mem_singleton.mp hr]
    rfl

/-- Layers in order ask each gate once at most. -/
theorem count_ask_stackRights {layers : List Layer}
    (hl : layers.Pairwise fun a b => a.kind.position < b.kind.position)
    (hinner : inner.count (.ask σ gate) = 0) :
    (stackRights site layers inner).count (.ask σ gate) ≤ 1 := by
  induction layers with
  | nil => exact hinner.trans_le (Nat.zero_le 1)
  | cons l rest ih =>
    obtain ⟨hlt, hrest⟩ := List.pairwise_cons.mp hl
    have ih := ih hrest
    -- what the layers inside ask, lies further in
    have hzero : gate.position ≤ l.kind.position ∨
        LayerKind.retry.position ≤ l.kind.position →
        (stackRights site rest inner).count (.ask σ gate) = 0 := by
      intro hpos
      rw [Multiset.count_eq_zero]
      intro hmem
      rcases mem_stackRights hmem with ⟨l', hl', heq, hgate⟩ | hmem
      · obtain ⟨rfl, rfl⟩ := Right.ask.inj heq
        have := hlt l' hl'
        omega
      · exact absurd hmem (Multiset.count_eq_zero.mp hinner)
    -- a gate that asks adds one to none, since it lies further out than what is inside
    have hcons : ∀ k : LayerKind, k = l.kind →
        (Right.ask site k ::ₘ stackRights site rest inner).count (.ask σ gate) ≤ 1 := by
      rintro k rfl
      rw [Multiset.count_cons]
      split
      next heq =>
        obtain ⟨rfl, rfl⟩ := Right.ask.inj heq
        rw [hzero (.inl (Nat.le_refl _))]
      next => exact ih
    show (l.rights site (stackRights site rest inner)).count (.ask σ gate) ≤ 1
    cases l with
    | fallback _ => exact ih
    | timeout _ => exact ih
    | breaker _ => exact hcons .breaker rfl
    | rateLimit _ => exact hcons .rateLimit rfl
    | bulkhead _ => exact hcons .bulkhead rfl
    -- no gate lies inside the layers that repeat, so there is nothing to multiply
    | retry s =>
      rw [Layer.rights, Multiset.count_nsmul, hzero (.inr (Nat.le_refl _))]
      exact Nat.zero_le 1
    | hedge _ =>
      rw [Layer.rights, Multiset.count_nsmul, hzero (.inr (Nat.le_succ _))]
      exact Nat.zero_le 1

theorem Policy.count_ask_rights (p : Policy) (id : CallId) :
    (p.rights id).count (.ask σ gate) ≤ 1 :=
  count_ask_stackRights p.ordered (by simp)

/-! ### The rights of the calls of an invocation -/

variable {call : CallId} {k position : Nat}

theorem Action.call_of_mem_rights {a : Action} (h : r ∈ a.rights call k position) :
    ∃ name, r.call = .nested call k position name := by
  cases a with
  | call policy script => exact ⟨_, Policy.call_of_mem_rights h⟩
  | _ => exact absurd h (Multiset.notMem_zero _)

theorem call_of_mem_actionsRights {actions : List Action}
    (h : r ∈ actionsRights call k position actions) :
    ∃ i name, position ≤ i ∧ r.call = .nested call k i name := by
  induction actions generalizing position with
  | nil => exact absurd h (Multiset.notMem_zero _)
  | cons a rest ih =>
    rcases Multiset.mem_add.mp h with ha | hrest
    · obtain ⟨name, hname⟩ := Action.call_of_mem_rights ha
      exact ⟨position, name, Nat.le_refl _, hname⟩
    · obtain ⟨i, name, hi, hname⟩ := ih hrest
      exact ⟨i, name, Nat.le_of_succ_le hi, hname⟩

theorem Action.count_ask_rights (a : Action) :
    (a.rights call k position).count (.ask σ gate) ≤ 1 := by
  cases a with
  | call policy script => exact policy.count_ask_rights _
  | _ => exact Nat.zero_le 1

theorem count_ask_actionsRights (actions : List Action) :
    (actionsRights call k position actions).count (.ask σ gate) ≤ 1 := by
  induction actions generalizing position with
  | nil => exact Nat.zero_le 1
  | cons a rest ih =>
    rw [actionsRights, Multiset.count_add]
    by_cases ha : Right.ask σ gate ∈ a.rights call k position
    · -- a call at another position is another call
      have hrest : Right.ask σ gate ∉ actionsRights call k (position + 1) rest := by
        intro hrest
        obtain ⟨name, hname⟩ := Action.call_of_mem_rights ha
        obtain ⟨i, name', hi, hname'⟩ := call_of_mem_actionsRights hrest
        rw [hname] at hname'
        injection hname' with _ _ hpos
        omega
      rw [Multiset.count_eq_zero.mpr hrest]
      exact a.count_ask_rights
    · rw [Multiset.count_eq_zero.mpr ha, Nat.zero_add]
      exact ih

end CallPolicy
