/-
The token bucket without rounding.

`ExactBucket` holds a rational number of tokens and answers calls as `Bucket`
does. It keeps what is promised of a token bucket:

* **`answers_take_of_refused`** — a call that is refused makes no difference to
  any later call;
* **`count_answers_le`** — in any span of time no more calls get a token than
  the bucket can hold and flow in meanwhile.
-/
import CallPolicy.Layer
import Mathlib.Algebra.Order.Field.Basic
import Mathlib.Data.Rat.Cast.Order
import Mathlib.Tactic.Linarith
import Mathlib.Tactic.Positivity

namespace CallPolicy

namespace RateLimit

/-- Tokens that flow in during a number of nanoseconds. -/
def inflow (l : RateLimit) (n : ℕ) : ℚ := l.rate.toNat * n / l.period.nanos

variable (l : RateLimit)

theorem inflow_nonneg (n : ℕ) : 0 ≤ l.inflow n := by
  unfold inflow
  positivity

theorem inflow_add (m n : ℕ) : l.inflow (m + n) = l.inflow m + l.inflow n := by
  unfold inflow
  push_cast
  rw [mul_add, add_div]

/-- What flows in between two instants flows in before or after one between them. -/
theorem inflow_split {r s t : ℕ} (h : r ≤ s) (h' : s ≤ t) :
    l.inflow (t - r) = l.inflow (s - r) + l.inflow (t - s) := by
  rw [← inflow_add]
  congr 1
  omega

end RateLimit

/-- The answers to calls at given instants, one after the other. -/
def answers {β : Type} (take : ℕ → β → Bool × β) : β → List ℕ → List Bool
  | _, [] => []
  | b, t :: ts => (take t b).1 :: answers take (take t b).2 ts

/-- A token bucket that does not round. -/
structure ExactBucket where
  balance : ℚ
  refilledAt : ℕ

namespace ExactBucket

/-- A full bucket. -/
def full (l : RateLimit) (now : ℕ) : ExactBucket := ⟨l.capacity.toNat, now⟩

/-- The balance brought up to the instant `now`. -/
def refill (l : RateLimit) (now : ℕ) (b : ExactBucket) : ExactBucket :=
  ⟨min (b.balance + l.inflow (now - b.refilledAt)) l.capacity.toNat, now⟩

/-- A call arrives at the instant `now`: does it get a token? -/
def take (l : RateLimit) (now : ℕ) (b : ExactBucket) : Bool × ExactBucket :=
  let b := b.refill l now
  if 1 ≤ b.balance then (true, { b with balance := b.balance - 1 }) else (false, b)

/-- The balances that calls at given instants find. -/
def found (l : RateLimit) : ExactBucket → List ℕ → List ℚ
  | _, [] => []
  | b, t :: ts => (b.refill l t).balance :: found l (b.take l t).2 ts

variable {l : RateLimit} {b : ExactBucket} {s t u : ℕ} {ts : List ℕ}

theorem take_of_le (h : 1 ≤ (b.refill l t).balance) :
    b.take l t = (true, ⟨(b.refill l t).balance - 1, t⟩) := if_pos h

theorem take_of_lt (h : (b.refill l t).balance < 1) : b.take l t = (false, b.refill l t) :=
  if_neg (not_le.mpr h)

theorem take_refilledAt : (b.take l t).2.refilledAt = t := by
  rcases le_or_gt 1 (b.refill l t).balance with h | h
  · rw [take_of_le h]
  · rw [take_of_lt h]
    rfl

theorem refill_balance_le : (b.refill l t).balance ≤ l.capacity.toNat := min_le_right _ _

/-- To bring the balance up to date in between makes no difference. -/
theorem refill_refill (hs : b.refilledAt ≤ t) (ht : t ≤ u) :
    (b.refill l t).refill l u = b.refill l u := by
  have hflow := l.inflow_nonneg (u - t)
  unfold refill
  congr 1
  dsimp only
  rw [l.inflow_split hs ht, ← add_assoc, min_add, min_assoc,
    min_eq_right (a := (l.capacity.toNat : ℚ) + l.inflow (u - t)) (by linarith)]

theorem take_refill (hs : b.refilledAt ≤ t) (ht : t ≤ u) :
    (b.refill l t).take l u = b.take l u := by
  unfold take
  rw [refill_refill hs ht]

theorem answers_refill (hs : b.refilledAt ≤ t) (hts : ∀ u ∈ ts, t ≤ u) :
    answers (take l) (b.refill l t) ts = answers (take l) b ts := by
  cases ts with
  | nil => rfl
  | cons u ts => rw [answers, answers, take_refill hs (hts u List.mem_cons_self)]

/-- **A refused call changes nothing** for the calls after it. -/
theorem answers_take_of_refused (hs : b.refilledAt ≤ t) (hts : ∀ u ∈ ts, t ≤ u)
    (h : (b.take l t).1 = false) :
    answers (take l) (b.take l t).2 ts = answers (take l) b ts := by
  rcases le_or_gt 1 (b.refill l t).balance with hone | hlt
  · rw [take_of_le hone] at h
    cases h
  · rw [take_of_lt hlt, answers_refill hs hts]

/-- No more calls get a token than are there and flow in. -/
theorem count_answers_le_balance (hsorted : (b.refilledAt :: ts).Pairwise (· ≤ ·))
    (ht : ∀ u ∈ b.refilledAt :: ts, u ≤ t) (hb : 0 ≤ b.balance) :
    ((answers (take l) b ts).count true : ℚ) ≤ b.balance + l.inflow (t - b.refilledAt) := by
  induction ts generalizing b with
  | nil => simpa [answers] using add_nonneg hb (l.inflow_nonneg _)
  | cons u ts ih =>
    obtain ⟨hfirst, hrest⟩ := List.pairwise_cons.mp hsorted
    -- what flows in until the end is what flows in until the first call and what does after it
    have hs := hfirst u List.mem_cons_self
    have hu := ht u (List.mem_cons_of_mem _ List.mem_cons_self)
    have hle : (b.refill l u).balance ≤ b.balance + l.inflow (u - b.refilledAt) := min_le_left _ _
    have hnonneg : 0 ≤ (b.refill l u).balance :=
      le_min (add_nonneg hb (l.inflow_nonneg _)) (Nat.cast_nonneg _)
    have hlater : ∀ v ∈ u :: ts, v ≤ t := fun v hv => ht v (List.mem_cons_of_mem _ hv)
    rw [answers, l.inflow_split hs hu]
    rcases le_or_gt 1 (b.refill l u).balance with hone | hlt
    · have hcount := ih (b := ⟨(b.refill l u).balance - 1, u⟩) hrest hlater (by linarith)
      rw [take_of_le hone, List.count_cons_self]
      push_cast
      linarith
    · have hcount : ((answers (take l) (b.refill l u) ts).count true : ℚ) ≤
          (b.refill l u).balance + l.inflow (t - u) := ih hrest hlater hnonneg
      rw [take_of_lt hlt, List.count_cons_of_ne (by simp)]
      linarith

/-- **No more calls get a token** between two instants than the bucket holds and flow in
meanwhile, whatever has happened before. -/
theorem count_answers_le (hs : b.refilledAt ≤ s) (hsorted : (s :: ts).Pairwise (· ≤ ·))
    (ht : ∀ u ∈ s :: ts, u ≤ t) (hb : 0 ≤ b.balance) :
    ((answers (take l) b ts).count true : ℚ) ≤ l.capacity.toNat + l.inflow (t - s) := by
  have hcount := count_answers_le_balance (l := l) (b := b.refill l s) hsorted ht
    (le_min (add_nonneg hb (l.inflow_nonneg _)) (Nat.cast_nonneg _))
  rw [answers_refill hs (List.pairwise_cons.mp hsorted).1] at hcount
  refine hcount.trans (add_le_add_left refill_balance_le _)

end ExactBucket

end CallPolicy
