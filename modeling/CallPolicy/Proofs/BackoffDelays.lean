/-
How long an exponential strategy waits, against the exact product.

The delay after the failed attempt `index` is meant to be the base times
`2 ^ index`, saturated at the longest span. Two boundaries decide what it is:
the 32-bit factor ends at index 32, the span at `maxNanos`.

* **`delay_exponential_exact_iff`** — the delay is the saturated product exactly
  where the factor still exists, or where the product has already saturated;
* **`delay_exponential_exact_forever_iff`** — it is the saturated product at
  every index exactly for bases of `2 ^ 32` seconds and more;
* **`delay_exponential_zero_iff`** — an empty base waits no time before index 32
  and the longest span from there on.

The bound of a random strategy is the delay of the exponential one, so all of
this holds of it too (`cap?_jitter`).
-/
import CallPolicy.Backoff
import Mathlib.Algebra.Group.Nat.Defs

namespace CallPolicy

/-- A span is empty when it has no nanoseconds. -/
theorem Duration.eq_zero_iff (d : Duration) : d = .zero ↔ d.nanos = 0 := by
  constructor
  · rintro rfl; rfl
  · intro h
    cases d
    simp_all [Duration.zero, Duration.ofNanos]

namespace Backoff

variable (base : Duration) (index : Nat) (draw : Float)

/-- While the factor fits 32 bits, doubling is the exact product, saturated. -/
theorem nanos_doubled_of_lt (h : index < 32) :
    (doubled base index).nanos = min (base.nanos * 2 ^ index) maxNanos := by
  simp [doubled, h, Nat.shiftLeft_eq]

/-- From the first factor that does not fit on, doubling gives the longest span. -/
theorem doubled_of_le (h : 32 ≤ index) : doubled base index = .max := by
  have : ¬ index < 32 := by omega
  simp [doubled, this]

@[simp] theorem delay_exponential : (exponential base).delay index draw = doubled base index := rfl

/-- What a random strategy stays under is the delay of the exponential strategy
with the same base. -/
theorem cap?_jitter :
    (jitter base).cap? index = some ((exponential base).delay index draw) := rfl

/-- **The delay is the saturated product** exactly at the indices whose factor
fits 32 bits, and at those where the product has reached the longest span anyway. -/
theorem delay_exponential_exact_iff :
    ((exponential base).delay index draw).nanos = min (base.nanos * 2 ^ index) maxNanos ↔
      index < 32 ∨ maxNanos ≤ base.nanos * 2 ^ index := by
  rw [delay_exponential]
  by_cases h : index < 32
  · simp [h, nanos_doubled_of_lt base index h]
  · rw [doubled_of_le base index (by omega), Duration.nanos_max]
    omega

/-- The product at index 32 has saturated exactly for bases of `2 ^ 32` seconds
and more. -/
theorem maxNanos_le_product_iff :
    maxNanos ≤ base.nanos * 2 ^ 32 ↔ 2 ^ 32 * 1000000000 ≤ base.nanos := by
  have : maxNanos = 18446744073709551616 * 1000000000 - 1 := rfl
  omega

/-- **The saturated product at every index** is what bases of `2 ^ 32` seconds
and more have, and no others: what saturates at index 32 saturates ever after. -/
theorem delay_exponential_exact_forever_iff :
    (∀ i, ((exponential base).delay i draw).nanos = min (base.nanos * 2 ^ i) maxNanos) ↔
      2 ^ 32 * 1000000000 ≤ base.nanos := by
  simp only [delay_exponential_exact_iff]
  rw [← maxNanos_le_product_iff]
  constructor
  · intro h
    exact (h 32).resolve_left (by omega)
  · intro h i
    by_cases hi : i < 32
    · exact .inl hi
    · -- Doubling further only adds to a product that is long enough already.
      have hpow : 2 ^ 32 ≤ 2 ^ i := Nat.pow_le_pow_right (by omega) (by omega)
      exact .inr (Nat.le_trans h (Nat.mul_le_mul_left _ hpow))

/-- **An empty base** waits no time exactly as long as the factor fits 32 bits;
after that it waits the longest span. -/
theorem delay_exponential_zero_iff :
    (exponential .zero).delay index draw = .zero ↔ index < 32 := by
  rw [delay_exponential, Duration.eq_zero_iff]
  by_cases h : index < 32
  · simp [nanos_doubled_of_lt .zero index h, h]
  · rw [doubled_of_le .zero index (by omega)]
    simp [h, maxNanos]

example : (exponential .zero).delay 32 0 = .max := rfl

end Backoff

end CallPolicy
