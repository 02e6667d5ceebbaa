/-
Rounding of rational numbers to 53 significant bits.

Between two powers of two the numbers with 53 significant bits are equally
spaced; `ulp q` is their distance around `q`, and `nearest q` is the one of them
closest to `q`, a tie going to the even multiple. The exponent is not bounded
here.

* **`abs_nearest_sub_le`** — the relative error is at most `2⁻⁵³`;
* **`nearest_dyadic`** — a number with 53 significant bits stays as it is.
-/
import Mathlib.Algebra.Order.Field.Power
import Mathlib.Data.Int.Log
import Mathlib.Data.Rat.Floor
import Mathlib.Tactic.FieldSimp
import Mathlib.Tactic.Linarith
import Mathlib.Tactic.Positivity

namespace CallPolicy

/-! ### To an integer -/

/-- The integer nearest to `x`; of two that are as near, the even one. -/
def nearestEven (x : ℚ) : ℤ :=
  if Int.fract x < 1 / 2 then ⌊x⌋ else if 1 / 2 < Int.fract x then ⌊x⌋ + 1 else ⌊x⌋ + ⌊x⌋ % 2

theorem nearestEven_intCast (n : ℤ) : nearestEven n = n := by
  rw [nearestEven, Int.fract_intCast, if_pos (by norm_num), Int.floor_intCast]

theorem floor_le_nearestEven (x : ℚ) : ⌊x⌋ ≤ nearestEven x := by
  unfold nearestEven
  split_ifs <;> omega

theorem nearestEven_le_floor_add_one (x : ℚ) : nearestEven x ≤ ⌊x⌋ + 1 := by
  unfold nearestEven
  split_ifs <;> omega

theorem abs_nearestEven_sub_le (x : ℚ) : |(nearestEven x : ℚ) - x| ≤ 1 / 2 := by
  have hx := Int.floor_add_fract x
  have hnonneg := Int.fract_nonneg x
  have hlt := Int.fract_lt_one x
  rw [abs_le]
  unfold nearestEven
  split_ifs with h₁ h₂
  · constructor <;> linarith
  · push_cast
    constructor <;> linarith
  · have hhalf : Int.fract x = 1 / 2 := le_antisymm (not_lt.mp h₂) (not_lt.mp h₁)
    push_cast
    rcases Int.emod_two_eq_zero_or_one ⌊x⌋ with h | h <;> rw [h] <;> constructor <;>
      push_cast <;> linarith

theorem nearestEven_mono {x y : ℚ} (h : x ≤ y) : nearestEven x ≤ nearestEven y := by
  rcases (Int.floor_mono h).lt_or_eq with hlt | heq
  · exact (nearestEven_le_floor_add_one x).trans
      ((Int.add_one_le_of_lt hlt).trans (floor_le_nearestEven y))
  · have hfract : Int.fract x ≤ Int.fract y := by
      have hx := Int.floor_add_fract x
      have hy := Int.floor_add_fract y
      rw [heq] at hx
      linarith
    unfold nearestEven
    rw [heq]
    split_ifs <;> first | omega | exact absurd ‹_› (not_lt.mpr (by linarith))

/-! ### To 53 bits -/

/-- The exponent of the last of 53 significant bits of `q`. -/
def lastPlace (q : ℚ) : ℤ := Int.log 2 q - 52

/-- The unit in the last of 53 significant places. -/
def ulp (q : ℚ) : ℚ := 2 ^ lastPlace q

/-- The number with 53 significant bits that is nearest to `q`. -/
def nearest (q : ℚ) : ℚ := nearestEven (q / ulp q) * ulp q

variable {q : ℚ}

theorem ulp_pos (q : ℚ) : 0 < ulp q := zpow_pos two_pos _

theorem two_zpow_add (a b : ℤ) : (2 : ℚ) ^ (a + b) = 2 ^ a * 2 ^ b :=
  zpow_add₀ two_ne_zero a b

theorem ulp_mul_two_pow (q : ℚ) (k : ℕ) : (2 : ℚ) ^ k * ulp q = 2 ^ (Int.log 2 q - 52 + k) := by
  rw [two_zpow_add, zpow_natCast, mul_comm]
  rfl

theorem two_pow_mul_ulp_le (hq : 0 < q) : 2 ^ 52 * ulp q ≤ q := by
  rw [ulp_mul_two_pow]
  simpa using Int.zpow_log_le_self one_lt_two hq

theorem lt_two_pow_mul_ulp (q : ℚ) : q < 2 ^ 53 * ulp q := by
  rw [ulp_mul_two_pow]
  have h := Int.lt_zpow_succ_log_self (b := 2) one_lt_two q
  rwa [show Int.log 2 q - 52 + (53 : ℕ) = Int.log 2 q + 1 by push_cast; ring]

@[simp] theorem nearest_zero : nearest 0 = 0 := by
  rw [nearest, zero_div, ← Int.cast_zero, nearestEven_intCast, Int.cast_zero, zero_mul]

/-- The relative error of rounding. -/
theorem abs_nearest_sub_le (hq : 0 ≤ q) : |nearest q - q| ≤ q / 2 ^ 53 := by
  rcases hq.eq_or_lt with rfl | hq
  · simp
  have hulp := ulp_pos q
  have hsmall := two_pow_mul_ulp_le hq
  have herr := abs_nearestEven_sub_le (q / ulp q)
  have heq : nearest q - q = (nearestEven (q / ulp q) - q / ulp q) * ulp q := by
    rw [sub_mul, div_mul_cancel₀ _ hulp.ne', nearest]
  rw [heq, abs_mul, abs_of_pos hulp]
  calc |(nearestEven (q / ulp q) : ℚ) - q / ulp q| * ulp q
      ≤ 1 / 2 * ulp q := mul_le_mul_of_nonneg_right herr hulp.le
    _ ≤ q / 2 ^ 53 := by linarith

/-- A rounded mantissa has 53 bits, or it is the next power of two. -/
theorem le_nearestEven_div_ulp (hq : 0 < q) : 2 ^ 52 ≤ nearestEven (q / ulp q) := by
  refine le_trans (Int.le_floor.mpr ?_) (floor_le_nearestEven _)
  push_cast
  exact (le_div_iff₀ (ulp_pos q)).mpr (two_pow_mul_ulp_le hq)

theorem nearestEven_div_ulp_le (q : ℚ) : nearestEven (q / ulp q) ≤ 2 ^ 53 := by
  refine (nearestEven_le_floor_add_one _).trans (Int.add_one_le_of_lt (Int.floor_lt.mpr ?_))
  push_cast
  exact (div_lt_iff₀ (ulp_pos q)).mpr (lt_two_pow_mul_ulp q)

theorem two_pow_mul_ulp_le_nearest (hq : 0 < q) : 2 ^ 52 * ulp q ≤ nearest q :=
  mul_le_mul_of_nonneg_right (by exact_mod_cast le_nearestEven_div_ulp hq) (ulp_pos q).le

theorem nearest_le_two_pow_mul_ulp (q : ℚ) : nearest q ≤ 2 ^ 53 * ulp q :=
  mul_le_mul_of_nonneg_right (by exact_mod_cast nearestEven_div_ulp_le q) (ulp_pos q).le

theorem nearest_nonneg (hq : 0 ≤ q) : 0 ≤ nearest q := by
  rcases hq.eq_or_lt with rfl | hq
  · simp
  · exact le_trans (by positivity [ulp_pos q]) (two_pow_mul_ulp_le_nearest hq)

/-- Rounding keeps the order. -/
theorem nearest_mono {p : ℚ} (hp : 0 ≤ p) (h : p ≤ q) : nearest p ≤ nearest q := by
  rcases hp.eq_or_lt with rfl | hp
  · simpa using nearest_nonneg h
  have hq := hp.trans_le h
  have hlog : lastPlace p ≤ lastPlace q := Int.sub_le_sub_right (Int.log_mono_right hp h) 52
  rcases hlog.lt_or_eq with hlt | heq
  · -- there is a power of two between them
    calc nearest p ≤ 2 ^ 53 * ulp p := nearest_le_two_pow_mul_ulp p
      _ = 2 ^ 52 * 2 ^ (lastPlace p + 1) := by rw [ulp, two_zpow_add]; ring
      _ ≤ 2 ^ 52 * ulp q :=
        mul_le_mul_of_nonneg_left (zpow_le_zpow_right₀ one_le_two hlt) (by positivity)
      _ ≤ nearest q := two_pow_mul_ulp_le_nearest hq
  · have hulp : ulp p = ulp q := congrArg ((2 : ℚ) ^ ·) heq
    have hdiv : p / ulp q ≤ q / ulp q := div_le_div_of_nonneg_right h (ulp_pos q).le
    have hint : (nearestEven (p / ulp q) : ℚ) ≤ nearestEven (q / ulp q) := by
      exact_mod_cast nearestEven_mono hdiv
    rw [nearest, nearest, hulp]
    exact mul_le_mul_of_nonneg_right hint (ulp_pos q).le

/-- A multiple of the unit in the last place stays as it is. -/
theorem nearest_of_eq_mul_ulp {n : ℤ} (h : q = n * ulp q) : nearest q = q := by
  have hdiv : q / ulp q = n := by
    rw [div_eq_iff (ulp_pos q).ne']
    exact h
  rw [nearest, hdiv, nearestEven_intCast, ← h]

/-- A number with 53 significant bits stays as it is. -/
theorem nearest_dyadic {m : ℕ} (hm : m < 2 ^ 53) (e : ℤ) :
    nearest ((m : ℚ) * 2 ^ e) = m * 2 ^ e := by
  rcases Nat.eq_zero_or_pos m with rfl | hpos
  · simp
  have hq : 0 < (m : ℚ) * 2 ^ e := by positivity
  -- its unit in the last place is no coarser than the power of two it is a multiple of
  have hlog : Int.log 2 ((m : ℚ) * 2 ^ e) < 53 + e := by
    refine (Int.lt_zpow_iff_log_lt one_lt_two hq).mp ?_
    have hm' : (m : ℚ) < 2 ^ 53 := by exact_mod_cast hm
    push_cast
    rw [two_zpow_add]
    exact mul_lt_mul_of_pos_right hm' (by positivity)
  obtain ⟨k, hk⟩ : ∃ k : ℕ, e = lastPlace ((m : ℚ) * 2 ^ e) + k :=
    ⟨(e - lastPlace ((m : ℚ) * 2 ^ e)).toNat, by unfold lastPlace; omega⟩
  refine nearest_of_eq_mul_ulp (n := m * 2 ^ k) ?_
  rw [ulp]
  conv_lhs => rw [hk, two_zpow_add]
  push_cast
  rw [zpow_natCast, mul_assoc, mul_comm ((2 : ℚ) ^ k)]

/-! ### Relative errors -/

/-- The relative error of `x` as an approximation of `y` is at most `ε`. -/
def Within (ε x y : ℚ) : Prop := |x - y| ≤ ε * y

namespace Within

variable {ε δ x y z w : ℚ}

theorem of_nearest (hx : 0 ≤ x) : Within (1 / 2 ^ 53) (CallPolicy.nearest x) x := by
  unfold Within
  rw [one_div_mul_eq_div]
  exact abs_nearest_sub_le hx

theorem mono (h : Within ε x y) (hε : ε ≤ δ) (hy : 0 ≤ y) : Within δ x y :=
  h.trans (mul_le_mul_of_nonneg_right hε hy)

theorem le (h : Within ε x y) : x ≤ (1 + ε) * y := by
  have := (abs_le.mp h).2
  linarith

theorem ge (h : Within ε x y) : (1 - ε) * y ≤ x := by
  have := (abs_le.mp h).1
  linarith

theorem add (h : Within ε x y) (h' : Within ε z w) : Within ε (x + z) (y + w) := by
  unfold Within
  rw [add_sub_add_comm, mul_add]
  exact (abs_add_le _ _).trans (add_le_add h h')

theorem mul (h : Within ε x y) (h' : Within δ z w) (hz : 0 ≤ z) (hy : 0 ≤ y) (hε : 0 ≤ ε) :
    Within (ε + δ + ε * δ) (x * z) (y * w) := by
  have hsplit : x * z - y * w = (x - y) * z + y * (z - w) := by ring
  unfold Within
  rw [hsplit]
  calc |(x - y) * z + y * (z - w)| ≤ |x - y| * z + y * |z - w| := by
        refine (abs_add_le _ _).trans (le_of_eq ?_)
        rw [abs_mul, abs_mul, abs_of_nonneg hz, abs_of_nonneg hy]
    _ ≤ ε * y * ((1 + δ) * w) + y * (δ * w) :=
        add_le_add (mul_le_mul h h'.le hz (mul_nonneg hε hy)) (mul_le_mul_of_nonneg_left h' hy)
    _ = (ε + δ + ε * δ) * (y * w) := by ring

/-- Division by an approximation. -/
theorem div (h : Within δ z w) (hx : 0 ≤ x) (hw : 0 < w) (hδ : δ ≤ 1 / 2) :
    Within (2 * δ) (x / z) (x / w) := by
  have hhalf : w / 2 ≤ z := calc
    w / 2 = (1 - 1 / 2) * w := by ring
    _ ≤ (1 - δ) * w := mul_le_mul_of_nonneg_right (by linarith) hw.le
    _ ≤ z := h.ge
  have hz : 0 < z := by linarith
  have hδ' : 0 ≤ δ := nonneg_of_mul_nonneg_left ((abs_nonneg _).trans h) hw
  have heq : x / z - x / w = x * (w - z) / (z * w) := by
    rw [div_sub_div _ _ hz.ne' hw.ne', mul_sub, mul_comm z x]
  unfold Within
  rw [heq, abs_div, abs_mul, abs_of_nonneg hx, abs_of_pos (mul_pos hz hw), abs_sub_comm,
    div_le_iff₀ (mul_pos hz hw)]
  calc x * |z - w| ≤ x * (δ * w) := mul_le_mul_of_nonneg_left h hx
    _ = 2 * δ * x * (w / 2) := by ring
    _ ≤ 2 * δ * x * z := mul_le_mul_of_nonneg_left hhalf (by positivity)
    _ = 2 * δ * (x / w) * (z * w) := by
      field_simp

/-- Rounding adds one more relative error. -/
theorem nearest (h : Within ε x y) (hx : 0 ≤ x) : Within (ε + (1 + ε) / 2 ^ 53) (nearest x) y := by
  have herr := abs_nearest_sub_le hx
  have hle := h.le
  unfold Within at h ⊢
  calc |CallPolicy.nearest x - y| ≤ |CallPolicy.nearest x - x| + |x - y| := abs_sub_le _ _ _
    _ ≤ (1 + ε) * y / 2 ^ 53 + ε * y := add_le_add (herr.trans (by linarith)) h
    _ = (ε + (1 + ε) / 2 ^ 53) * y := by ring

end Within

end CallPolicy
