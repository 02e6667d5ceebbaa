/-
The balance of a token bucket, with all its roundings.

Whatever calls have come, the balance is a number between nothing and the capacity
(`Bucket.Holds`), and a call finds one that is up to date:

* **`Holds.refill`** — an arrival leaves the balance in its bounds, however long nobody has called;
* **`Holds.refill_self`** — a second arrival at the same instant finds it as it is;
* **`Holds.take_of_le`**, **`Holds.take_of_lt`** — a whole token is taken without rounding, and
  where there is none nothing is taken;
* **`Holds.count_answers`** — so as many calls at one instant get a token as there are whole ones.
-/
import CallPolicy.Proofs.BucketRounding
import Mathlib.Algebra.Order.Floor.Semiring

namespace CallPolicy

/-- What denotes a rational number is finite. -/
theorem Denotes.isFinite {x : Float} {q : ℚ} (h : Denotes x q) : x.isFinite = true := by
  have hfinite : ∀ {u : Float.Model.UnpackedFloat}, Reads u q → u.isFinite = true := by
    intro u hu
    cases hu <;> rfl
  exact hfinite h

namespace Bucket

variable {l : RateLimit} {b : Bucket} {p q : ℚ} {t : ℕ}

/-- The bucket after calls at given instants, one after the other. -/
def after (l : RateLimit) (b : Bucket) (ts : List ℕ) : Bucket :=
  ts.foldl (fun b t => (b.take l t).2) b

/-- The balance of the bucket is the number `p`, and the capacity is no smaller. -/
structure Holds (l : RateLimit) (b : Bucket) (p : ℚ) : Prop where
  denotes : Denotes b.balance p
  inRange : InRange 168 p
  le : p ≤ l.capacity.toNat

theorem holds_full (l : RateLimit) (t : ℕ) : Holds l (full l t) l.capacity.toNat :=
  ⟨denotes_fullBalance l, (InRange.natCast l.capacity.toNat_lt.le).mono (by norm_num), le_refl _⟩

/-- Nobody can stay away for longer than the longest span, as far as the balance goes. -/
theorem refill_balance_of_lt (h : b.refilledAt + maxNanos < t) :
    (b.refill l t).balance = (b.refill l (b.refilledAt + maxNanos)).balance := by
  have hspan : Duration.ofNanos (t - b.refilledAt) =
      .ofNanos (b.refilledAt + maxNanos - b.refilledAt) := by
    unfold Duration.ofNanos
    congr 1
    omega
  unfold refill
  rw [hspan]

namespace Holds

theorem nonneg (h : Holds l b p) : 0 ≤ p := h.denotes.nonneg

/-- To bring the balance up to date leaves it in its bounds. -/
theorem refill (h : Holds l b p) (hperiod : 0 < l.period.nanos) (t : ℕ) :
    ∃ q, Holds l (b.refill l t) q := by
  have hnear : ∀ u, u - b.refilledAt ≤ maxNanos → ∃ q, Holds l (b.refill l u) q := by
    intro u hu
    -- a bucket that does not round starts with the same balance
    have htracks : Tracks l 0 b ⟨p, b.refilledAt⟩ :=
      ⟨rfl, ⟨p, h.denotes, h.inRange, h.le, by simp⟩, h.nonneg⟩
    obtain ⟨-, ⟨q, hq, hrange, hle, -⟩, -⟩ := htracks.refill hperiod hu
    exact ⟨q, hq, hrange, hle⟩
  rcases Nat.lt_or_ge (b.refilledAt + maxNanos) t with hfar | hclose
  · obtain ⟨q, hq, hrange, hle⟩ := hnear (b.refilledAt + maxNanos) (by omega)
    rw [← refill_balance_of_lt hfar] at hq
    exact ⟨q, hq, hrange, hle⟩
  · exact hnear t (by omega)

/-- Nothing flows in where no time has passed. -/
theorem refill_self (h : Holds l b p) (hperiod : 0 < l.period.nanos) :
    Holds l (b.refill l b.refilledAt) p := by
  obtain ⟨j, hj, hclose, -⟩ := RateLimit.denotes_inflow hperiod (.ofNanos 0)
  have hzero : l.inflow (Duration.ofNanos 0).nanos = 0 := by
    simp [RateLimit.inflow]
  have hj0 : j = 0 := by
    have hle := hclose.le
    have hge := hclose.ge
    rw [hzero, mul_zero] at hle hge
    exact le_antisymm hle hge
  subst hj0
  have hsum := h.denotes.add hj (by rw [add_zero]; exact h.inRange.mono (by norm_num))
  rw [add_zero, h.denotes.nearest_eq] at hsum
  have hleast := denotes_least hsum (denotes_fullBalance l)
  rw [min_eq_left h.le] at hleast
  refine ⟨?_, h.inRange, h.le⟩
  unfold Bucket.refill
  rw [Nat.sub_self]
  exact hleast

/-- Where there is a whole token, it is taken, and the rest is exact. -/
theorem take_of_le (h : Holds l (b.refill l t) q) (hq : 1 ≤ q) :
    b.take l t = (true, ⟨(b.refill l t).balance - (1 : UInt32).toFloat, t⟩) ∧
      Holds l (b.take l t).2 (q - 1) := by
  obtain ⟨hrest, hrange⟩ := denotes_sub_one h.denotes hq h.le
  have hle : q - 1 ≤ l.capacity.toNat := by linarith [h.le]
  rw [Bucket.take_of_le ((denotes_one.le_iff h.denotes).mpr hq)]
  exact ⟨rfl, hrest, hrange.mono (by norm_num), hle⟩

/-- Where there is none, nothing is taken. -/
theorem take_of_lt (h : Holds l (b.refill l t) q) (hq : q < 1) :
    b.take l t = (false, b.refill l t) :=
  take_of_not_le (mt (denotes_one.le_iff h.denotes).mp (not_le.mpr hq))

/-- A call leaves the balance in its bounds. -/
theorem take (h : Holds l b p) (hperiod : 0 < l.period.nanos) (t : ℕ) :
    ∃ q, Holds l (b.take l t).2 q := by
  obtain ⟨q, hq⟩ := h.refill hperiod t
  rcases le_or_gt 1 q with hone | hlt
  · exact ⟨q - 1, (hq.take_of_le hone).2⟩
  · rw [hq.take_of_lt hlt]
    exact ⟨q, hq⟩

/-- So do all calls. -/
theorem after (h : Holds l b p) (hperiod : 0 < l.period.nanos) (ts : List ℕ) :
    ∃ q, Holds l (b.after l ts) q := by
  induction ts generalizing b p with
  | nil => exact ⟨p, h⟩
  | cons t ts ih =>
    obtain ⟨q, hq⟩ := h.take hperiod t
    exact ih hq

/-- **Of calls at one instant** as many get a token as there are whole ones. -/
theorem count_answers (h : Holds l (b.refill l t) q) (hperiod : 0 < l.period.nanos) (n : ℕ) :
    (answers (Bucket.take l) b (List.replicate n t)).count true = min n ⌊q⌋₊ := by
  -- each call finds what the one before has left, as no time passes between them
  induction n generalizing b q with
  | zero => rw [Nat.zero_min]; rfl
  | succ n ih =>
    rw [List.replicate_succ, answers]
    rcases le_or_gt 1 q with hone | hlt
    · obtain ⟨htake, hrest⟩ := h.take_of_le hone
      rw [htake] at hrest ⊢
      have hfloor : 1 ≤ ⌊q⌋₊ := Nat.le_floor (by exact_mod_cast hone)
      rw [List.count_cons_self, ih (hrest.refill_self hperiod), Nat.floor_sub_one]
      omega
    · rw [h.take_of_lt hlt]
      have hfloor : ⌊q⌋₊ = 0 := Nat.floor_eq_zero.mpr hlt
      rw [List.count_cons_of_ne (by simp), ih (b := b.refill l t) (h.refill_self hperiod), hfloor]
      omega

end Holds

/-- **The balance stays sound.** Whatever calls have come to an accepted rate limit, the balance is
a finite number between nothing and the capacity. The next call finds such a number too: if it is
one at least, the call gets a token and leaves exactly one less, and otherwise it is refused and
leaves all of it. So of any number of calls at one instant as many get a token as there are whole
ones in the bucket, and never more than the capacity; at first that is the capacity itself. -/
theorem balance_stays_sound (hl : (Layer.rateLimit l).fault? = none) (t₀ : ℕ) (ts : List ℕ) :
    let b := (full l t₀).after l ts
    (b.balance.isFinite = true ∧ ∃ p, Denotes b.balance p ∧ 0 ≤ p ∧ p ≤ l.capacity.toNat) ∧
    (∀ t, ∃ q, Denotes (b.refill l t).balance q ∧ 0 ≤ q ∧ q ≤ l.capacity.toNat ∧
      (1 ≤ q → b.take l t = (true, ⟨(b.refill l t).balance - (1 : UInt32).toFloat, t⟩) ∧
        Denotes (b.take l t).2.balance (q - 1)) ∧
      (q < 1 → b.take l t = (false, b.refill l t)) ∧
      ∀ n, (answers (take l) b (List.replicate n t)).count true = min n ⌊q⌋₊ ∧
        ⌊q⌋₊ ≤ l.capacity.toNat) ∧
    ∀ n, l.capacity.toNat ≤ n →
      (answers (take l) (full l t₀) (List.replicate n t₀)).count true = l.capacity.toNat := by
  intro b
  have hperiod := RateLimit.period_pos hl
  obtain ⟨p, hp⟩ := (holds_full l t₀).after hperiod ts
  refine ⟨⟨hp.denotes.isFinite, p, hp.denotes, hp.nonneg, hp.le⟩, fun t => ?_, fun n hn => ?_⟩
  · obtain ⟨q, hq⟩ := hp.refill hperiod t
    refine ⟨q, hq.denotes, hq.nonneg, hq.le, fun hone => ?_, hq.take_of_lt, fun n => ?_⟩
    · obtain ⟨htake, hrest⟩ := hq.take_of_le hone
      exact ⟨htake, hrest.denotes⟩
    · exact ⟨hq.count_answers hperiod n, Nat.floor_le_of_le hq.le⟩
  · have hfull : Holds l ((full l t₀).refill l t₀) l.capacity.toNat :=
      (holds_full l t₀).refill_self hperiod
    rw [hfull.count_answers hperiod n, Nat.floor_natCast, min_eq_right hn]

/-- Ten tokens a second, three at most: after calls at uneven instants the balance is sound, and
of five calls at the first instant three get a token. -/
theorem balance_stays_sound_uneven :
    let l : RateLimit := ⟨10, .ofMillis 1000, some 3⟩
    let b := (full l 0).after l [0, 0, 0, 10000000, 70000001, 110000003]
    (Layer.rateLimit l).fault? = none ∧ b.balance.isFinite = true ∧
    (∃ q, Denotes (b.refill l 170000003).balance q ∧ q ≤ 3 ∧
      ∀ n, (answers (take l) b (List.replicate n 170000003)).count true = min n ⌊q⌋₊) ∧
    (answers (take l) (full l 0) (List.replicate 5 0)).count true = 3 := by
  intro l b
  have hl : (Layer.rateLimit l).fault? = none := by decide
  obtain ⟨⟨hfinite, -⟩, hnext, hfirst⟩ :=
    balance_stays_sound hl 0 [0, 0, 0, 10000000, 70000001, 110000003]
  obtain ⟨q, hq, -, hle, -, -, hcount⟩ := hnext 170000003
  exact ⟨hl, hfinite, ⟨q, hq, hle, fun n => (hcount n).1⟩, hfirst 5 (by decide)⟩

end Bucket

end CallPolicy
