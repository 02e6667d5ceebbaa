/-
Binary64 numbers as rational numbers.

A binary64 number that is zero or positive and normal denotes a rational number.
Arithmetic on such numbers is exact arithmetic with one rounding at the end, to
the nearest, as long as the result stays between `2⁻²⁰⁰` and `2²⁰⁰`: far from
where numbers overflow or lose bits.

* **`reads_roundWithAccuracy`** — rounding a mantissa bit by bit is rounding to
  the nearest;
* **`Denotes.add`**, **`Denotes.sub`**, **`Denotes.mul`**, **`Denotes.div`** —
  the four operations;
* **`Denotes.sub_one`** — one is taken away without rounding;
* **`Denotes.lt_iff`**, **`Denotes.le_iff`** — comparisons are those of the
  numbers.
-/
import CallPolicy.Proofs.Nearest

namespace CallPolicy

open Float.Model Float.Model.UnpackedFloat

/-! ### Rounding by bits -/

/-- A mantissa stands for `x` if it is the whole part and the two bits tell where the rest
lies: in which half, and whether inside it. -/
structure Stands (em : ExtendedMantissa) (x : ℚ) : Prop where
  nonneg : 0 ≤ x - em.mantissa
  lt_one : x - em.mantissa < 1
  roundBit : em.roundBit = true ↔ 1 / 2 ≤ x - em.mantissa
  stickyBit : em.stickyBit = true ↔ x - em.mantissa ≠ 0 ∧ x - em.mantissa ≠ 1 / 2

theorem mantissa_ofMantissaAndAccuracy (m : ℕ) (acc : Accuracy) :
    (ExtendedMantissa.ofMantissaAndAccuracy m acc).mantissa = m := by
  unfold ExtendedMantissa.ofMantissaAndAccuracy
  split <;> rfl

namespace Stands

variable {em : ExtendedMantissa} {x : ℚ}

theorem exact (m : ℕ) : Stands (.ofMantissaAndAccuracy m .exact) m := by
  constructor <;> simp [ExtendedMantissa.ofMantissaAndAccuracy]

theorem floor (h : Stands em x) : ⌊x⌋ = em.mantissa := by
  refine Int.floor_eq_iff.mpr ⟨?_, ?_⟩ <;> push_cast
  · linarith [h.nonneg]
  · linarith [h.lt_one]

theorem fract (h : Stands em x) : Int.fract x = x - em.mantissa := by
  rw [Int.fract, h.floor, Int.cast_natCast]

/-- The two bits are enough to round to the nearest. -/
theorem roundedMantissa (h : Stands em x) : (em.roundedMantissa : ℤ) = nearestEven x := by
  have hround := h.roundBit
  have hsticky := h.stickyBit
  rw [nearestEven, h.floor, h.fract]
  generalize x - em.mantissa = r at hround hsticky
  rcases em with ⟨m, rb, sb⟩
  cases rb <;> cases sb <;>
    simp only [ExtendedMantissa.roundedMantissa, ExtendedMantissa.accuracy,
      Accuracy.roundToNearestEven, Bool.false_eq_true, false_iff, true_iff, not_le, not_and_or,
      not_not] at hround hsticky ⊢
  · rw [if_pos hround]
  · rw [if_pos hround]
  · have hhalf : r = 1 / 2 := hsticky.resolve_left (by linarith)
    rw [if_neg (by rw [hhalf]; exact lt_irrefl _), if_neg (by rw [hhalf]; exact lt_irrefl _)]
    push_cast
    rfl
  · rw [if_neg (not_lt.mpr hround), if_pos (lt_of_le_of_ne hround hsticky.2.symm)]
    push_cast
    rfl

/-- One of the bits is set unless the mantissa is all. -/
theorem bits (h : Stands em x) : (em.roundBit || em.stickyBit) = true ↔ x - em.mantissa ≠ 0 := by
  rw [Bool.or_eq_true, h.roundBit, h.stickyBit]
  constructor
  · rintro (hhalf | hrest) hzero
    · linarith
    · exact hrest.1 hzero
  · intro hne
    by_cases hhalf : x - em.mantissa = 1 / 2
    · exact .inl hhalf.ge
    · exact .inr ⟨hne, hhalf⟩

theorem shiftRightOne (h : Stands em x) : Stands em.shiftRightOne (x / 2) := by
  have hbits := h.bits
  obtain ⟨hnonneg, hlt, -, -⟩ := h
  have hm : (em.mantissa : ℚ) = 2 * (em.mantissa / 2 : ℕ) + (em.mantissa % 2 : ℕ) := by
    exact_mod_cast (Nat.div_add_mod em.mantissa 2).symm
  have hrest : x / 2 - (em.mantissa / 2 : ℕ) =
      ((em.mantissa % 2 : ℕ) + (x - em.mantissa)) / 2 := by linarith
  generalize x - em.mantissa = r at hnonneg hlt hbits hrest
  -- the bit that falls off becomes the new round bit
  rcases Nat.mod_two_eq_zero_or_one em.mantissa with hb | hb <;> rw [hb] at hrest <;>
    push_cast at hrest <;> constructor <;>
    simp only [ExtendedMantissa.shiftRightOne, hrest, hb, hbits]
  · linarith
  · linarith
  · simp only [bne_self_eq_false, Bool.false_eq_true, false_iff, not_le]
    linarith
  · constructor
    · intro h
      exact ⟨fun h0 => h (by linarith), by linarith⟩
    · rintro ⟨h, -⟩ h0
      exact h (by rw [h0]; norm_num)
  · linarith
  · linarith
  · simp only [one_ne_zero, bne_iff_ne, ne_eq, not_false_eq_true, true_iff]
    linarith
  · constructor
    · intro h
      exact ⟨by linarith, fun h0 => h (by linarith)⟩
    · rintro ⟨-, h⟩ h0
      exact h (by rw [h0]; norm_num)

theorem shiftRight (h : Stands em x) (n : ℕ) : Stands (em >>> n) (x / 2 ^ n) := by
  show Stands (n.repeat ExtendedMantissa.shiftRightOne em) _
  induction n with
  | zero => simpa [Nat.repeat] using h
  | succ n ih =>
    rw [pow_succ, ← div_div]
    exact ih.shiftRightOne

/-- The bits that tell how a remainder `r` compares with half of the divisor `n`. -/
theorem bits_accuracyOfFraction (q : ℕ) {r n : ℕ} (hr : r < n) :
    ((ExtendedMantissa.ofMantissaAndAccuracy q (accuracyOfFraction r n)).roundBit = true ↔
      n ≤ 2 * r) ∧
    ((ExtendedMantissa.ofMantissaAndAccuracy q (accuracyOfFraction r n)).stickyBit = true ↔
      r ≠ 0 ∧ 2 * r ≠ n) := by
  unfold accuracyOfFraction
  rcases Nat.eq_zero_or_pos r with rfl | hpos
  · simp [ExtendedMantissa.ofMantissaAndAccuracy, hr.ne']
  · rw [if_neg hpos.ne']
    rcases lt_trichotomy (2 * r) n with h | h | h
    · rw [Nat.compare_eq_lt.mpr h]
      simp [ExtendedMantissa.ofMantissaAndAccuracy, h, hpos.ne', h.ne]
    · rw [Nat.compare_eq_eq.mpr h]
      simp [ExtendedMantissa.ofMantissaAndAccuracy, h]
    · rw [Nat.compare_eq_gt.mpr h]
      simp [ExtendedMantissa.ofMantissaAndAccuracy, h.le, hpos.ne', h.ne']

/-- The accuracy of a quotient. -/
theorem fraction {m n : ℕ} (hn : 0 < n) :
    Stands (.ofMantissaAndAccuracy (m / n) (accuracyOfFraction (m % n) n)) ((m : ℚ) / n) := by
  have hn' : (0 : ℚ) < n := by exact_mod_cast hn
  have hrest : (m : ℚ) / n - (m / n : ℕ) = (m % n : ℕ) / n := by
    have hsplit : (n : ℚ) * (m / n : ℕ) + (m % n : ℕ) = m := by exact_mod_cast Nat.div_add_mod m n
    rw [eq_div_iff hn'.ne', sub_mul, div_mul_cancel₀ _ hn'.ne']
    linarith
  have hlt := Nat.mod_lt m hn
  obtain ⟨hround, hsticky⟩ := bits_accuracyOfFraction (m / n) hlt
  generalize m % n = r at hrest hlt hround hsticky
  constructor <;> rw [mantissa_ofMantissaAndAccuracy, hrest]
  · positivity
  · rw [div_lt_one hn']
    exact_mod_cast hlt
  · rw [hround, div_le_div_iff₀ two_pos hn', one_mul, mul_comm]
    exact_mod_cast Iff.rfl
  · rw [hsticky, ne_eq, ne_eq, ne_eq, ne_eq, div_eq_zero_iff, or_iff_left hn'.ne',
      div_eq_div_iff hn'.ne' two_ne_zero, one_mul, mul_comm]
    exact_mod_cast Iff.rfl

end Stands

/-! ### Rounding to the format -/

/-- Zero, or between `2⁻ᵏ` and `2ᵏ`. -/
def InRange (k : ℕ) (q : ℚ) : Prop := q = 0 ∨ (2 ^ k)⁻¹ ≤ q ∧ q ≤ 2 ^ k

namespace InRange

variable {j k : ℕ} {p q : ℚ}

theorem nonneg (h : InRange k q) : 0 ≤ q := by
  rcases h with rfl | ⟨h, -⟩
  · exact le_refl 0
  · exact le_trans (by positivity) h

theorem le (h : InRange k q) : q ≤ 2 ^ k := by
  rcases h with rfl | ⟨-, h⟩
  · positivity
  · exact h

theorem mono (h : InRange j q) (hjk : j ≤ k) : InRange k q := by
  have hpow : (2 : ℚ) ^ j ≤ 2 ^ k := pow_le_pow_right₀ one_le_two hjk
  rcases h with h | ⟨hlo, hhi⟩
  · exact .inl h
  · exact .inr ⟨le_trans (inv_anti₀ (by positivity) hpow) hlo, hhi.trans hpow⟩

theorem natCast {n : ℕ} (h : n ≤ 2 ^ k) : InRange k n := by
  rcases Nat.eq_zero_or_pos n with rfl | hpos
  · exact .inl Nat.cast_zero
  · have h1 : (1 : ℚ) ≤ n := by exact_mod_cast hpos
    exact .inr ⟨le_trans (inv_le_one_of_one_le₀ (one_le_pow₀ one_le_two)) h1, by exact_mod_cast h⟩

theorem mul (hp : InRange j p) (hq : InRange k q) : InRange (j + k) (p * q) := by
  rcases hp with rfl | ⟨hplo, hphi⟩
  · exact .inl (zero_mul q)
  rcases hq with rfl | ⟨hqlo, hqhi⟩
  · exact .inl (mul_zero p)
  have hp : 0 ≤ p := le_trans (by positivity) hplo
  have hq : 0 ≤ q := le_trans (by positivity) hqlo
  rw [InRange, pow_add, mul_inv]
  exact .inr ⟨mul_le_mul hplo hqlo (by positivity) hp, mul_le_mul hphi hqhi hq (by positivity)⟩

theorem inv (hq : InRange k q) : InRange k q⁻¹ := by
  rcases hq with rfl | ⟨hlo, hhi⟩
  · exact .inl inv_zero
  have hq : 0 < q := lt_of_lt_of_le (by positivity) hlo
  exact .inr ⟨inv_anti₀ hq hhi, inv_le_of_inv_le₀ (by positivity) hlo⟩

theorem div (hp : InRange j p) (hq : InRange k q) : InRange (j + k) (p / q) := hp.mul hq.inv

theorem add (hp : InRange k p) (hq : InRange k q) : InRange (k + 1) (p + q) := by
  rcases hp with rfl | ⟨hplo, hphi⟩
  · rw [zero_add]
    exact hq.mono (Nat.le_succ k)
  have hlo : ((2 : ℚ) ^ (k + 1))⁻¹ ≤ (2 ^ k)⁻¹ :=
    inv_anti₀ (by positivity) (pow_le_pow_right₀ one_le_two (Nat.le_succ k))
  refine .inr ⟨(hlo.trans hplo).trans (le_add_of_nonneg_right hq.nonneg), ?_⟩
  rw [pow_succ]
  linarith [hq.le]

theorem nearest (hq : InRange k q) : InRange (k + 1) (nearest q) := by
  rcases hq with rfl | ⟨hlo, hhi⟩
  · exact .inl nearest_zero
  have hq : 0 ≤ q := le_trans (by positivity) hlo
  obtain ⟨hle, hge⟩ := abs_le.mp (abs_nearest_sub_le hq)
  refine .inr ⟨?_, ?_⟩
  · rw [pow_succ, mul_inv]
    linarith
  · rw [pow_succ]
    linarith

/-- A rounded sum is not smaller than what it is made of. -/
theorem nearest_add (hp : InRange k p) (hq : InRange k q) (hp' : CallPolicy.nearest p = p)
    (hq' : CallPolicy.nearest q = q) (hle : CallPolicy.nearest (p + q) ≤ 2 ^ k) :
    InRange k (CallPolicy.nearest (p + q)) := by
  rcases hp with rfl | ⟨hlo, hhi⟩
  · rwa [zero_add, hq']
  · refine .inr ⟨?_, hle⟩
    calc (2 ^ k)⁻¹ ≤ p := hlo
      _ = CallPolicy.nearest p := hp'.symm
      _ ≤ CallPolicy.nearest (p + q) :=
        nearest_mono (le_trans (by positivity) hlo) (le_add_of_nonneg_right hq.nonneg)

/-- The exponents of the numbers in the range. -/
theorem log (h : InRange k q) (hq : 0 < q) : -k ≤ Int.log 2 q ∧ Int.log 2 q ≤ k := by
  obtain ⟨hlo, hhi⟩ := h.resolve_left hq.ne'
  refine ⟨(Int.zpow_le_iff_le_log one_lt_two hq).mp ?_,
    Int.lt_add_one_iff.mp ((Int.lt_zpow_iff_log_lt one_lt_two hq).mp ?_)⟩ <;> push_cast
  · rwa [zpow_neg, zpow_natCast]
  · rw [two_zpow_add, zpow_natCast, zpow_one]
    have : (0 : ℚ) < 2 ^ k := by positivity
    linarith

end InRange

section

variable {m : ℕ} {e : ℤ} {acc : Accuracy} {x : ℚ}

theorem Stands.mantissa_le (h : Stands (.ofMantissaAndAccuracy m acc) x) :
    (m : ℚ) ≤ x ∧ x < m + 1 := by
  have hle := h.nonneg
  have hlt := h.lt_one
  rw [mantissa_ofMantissaAndAccuracy] at hle hlt
  exact ⟨by linarith, by linarith⟩

theorem Stands.pos (h : Stands (.ofMantissaAndAccuracy m acc) x) (hm : 0 < m) :
    0 < x * 2 ^ e := by
  have hm' : (0 : ℚ) < m := by exact_mod_cast hm
  exact mul_pos (hm'.trans_le h.mantissa_le.1) (by positivity)

/-- The leading bit of a number is that of its mantissa. -/
theorem Stands.log (h : Stands (.ofMantissaAndAccuracy m acc) x) (hm : 0 < m) :
    Int.log 2 (x * 2 ^ e) = m.log2 + e := by
  obtain ⟨hle, hlt⟩ := h.mantissa_le
  have hx := h.pos (e := e) hm
  have hlow : ((2 ^ m.log2 : ℕ) : ℚ) ≤ m := by exact_mod_cast Nat.log2_self_le hm.ne'
  have hhigh : ((m + 1 : ℕ) : ℚ) ≤ (2 ^ (m.log2 + 1) : ℕ) := by
    exact_mod_cast Nat.succ_le_of_lt Nat.lt_log2_self
  push_cast at hlow hhigh
  refine le_antisymm (Int.lt_add_one_iff.mp ((Int.lt_zpow_iff_log_lt one_lt_two hx).mp ?_))
    ((Int.zpow_le_iff_le_log one_lt_two hx).mp ?_)
  · push_cast
    rw [show (m.log2 : ℤ) + e + 1 = (m.log2 + 1 : ℕ) + e by push_cast; ring, two_zpow_add,
      zpow_natCast]
    exact mul_lt_mul_of_pos_right (by linarith) (by positivity)
  · push_cast
    rw [two_zpow_add, zpow_natCast]
    exact mul_le_mul_of_nonneg_right (by linarith) (by positivity)

theorem binary64_targetExponent (t : ℤ) :
    Format.binary64.targetExponent t = max (t - 53) (-1074) := rfl

/-- In the range, the exponent that the format asks for is that of the last place. -/
theorem targetExponent_eq {q : ℚ} (hrange : InRange 200 q) (hq : 0 < q)
    (hlog : Int.log 2 q = m.log2 + e) :
    Format.binary64.targetExponent (totalExponent m e) = lastPlace q := by
  obtain ⟨hlo, -⟩ := hrange.log hq
  rw [binary64_targetExponent, totalExponent, lastPlace, hlog]
  omega

/-- A mantissa that rounding has carried over is shifted once more, which is exact. -/
theorem shiftToTargetExponent_exact (hlo : 2 ^ 52 ≤ m) (hhi : m ≤ 2 ^ 53) (he : -1074 ≤ e) :
    ∃ m' e', shiftToTargetExponent Format.binary64 m e .exact =
        (.ofMantissaAndAccuracy m' .exact, e') ∧
      2 ^ 52 ≤ m' ∧ m' < 2 ^ 53 ∧ e ≤ e' ∧ e' ≤ e + 1 ∧ (m' : ℚ) * 2 ^ e' = m * 2 ^ e := by
  rcases hhi.eq_or_lt with rfl | hlt
  · refine ⟨2 ^ 52, e + 1, ?_, le_refl _, by norm_num, by omega, le_refl _, ?_⟩
    · have htarget : Format.binary64.targetExponent (totalExponent (2 ^ 53) e) = e + 1 := by
        rw [binary64_targetExponent, totalExponent, Nat.log2_two_pow]
        omega
      rw [shiftToTargetExponent, htarget, shiftToExponent, show (e + 1 - e).toNat = 1 by omega]
      rfl
    · rw [two_zpow_add]
      push_cast
      ring
  · refine ⟨m, e, ?_, hlo, hlt, le_refl _, by omega, rfl⟩
    have hlog : m.log2 = 52 := (Nat.log2_eq_iff (by omega)).mpr ⟨hlo, hlt⟩
    have htarget : Format.binary64.targetExponent (totalExponent m e) = e := by
      rw [binary64_targetExponent, totalExponent, hlog]
      omega
    rw [shiftToTargetExponent, htarget, shiftToExponent, show (e - e).toNat = 0 by omega]
    simp only [Nat.cast_zero, add_zero]
    rfl

/-- A positive normal number, and its value. -/
inductive Reads : UnpackedFloat → ℚ → Prop
  | zero : Reads (.zero .positive) 0
  | normal {m : ℕ} {e : ℤ} (hm : 0 < m) (hlo : 2 ^ 52 ≤ m) (hhi : m < 2 ^ 53) (he : -1074 ≤ e)
      (he' : e ≤ 971) : Reads (.finite .positive m e hm) (m * 2 ^ e)

/-- **Rounding by bits is rounding to the nearest**, if there are bits enough. -/
theorem reads_roundWithAccuracy (hm : 2 ^ 52 ≤ m)
    (h : Stands (.ofMantissaAndAccuracy m acc) x) (hrange : InRange 200 (x * 2 ^ e)) :
    Reads (roundWithAccuracy Format.binary64 .positive m e acc) (nearest (x * 2 ^ e)) := by
  have hpos : 0 < m := by omega
  have hbits : 52 ≤ m.log2 := (Nat.le_log2 hpos.ne').mpr hm
  have hlog := h.log (e := e) hpos
  have hx := h.pos (e := e) hpos
  obtain ⟨hloglo, hloghi⟩ := hrange.log hx
  have htarget := targetExponent_eq hrange hx hlog
  set q := x * 2 ^ e with hq
  -- the first shift brings the mantissa to the last place
  obtain ⟨k, hk⟩ : ∃ k : ℕ, lastPlace q = e + k := ⟨m.log2 - 52, by unfold lastPlace; omega⟩
  have hdiv : q / ulp q = x / 2 ^ k := by
    rw [div_eq_div_iff (ulp_pos q).ne' (by positivity), ulp, hk, two_zpow_add, zpow_natCast, hq,
      mul_assoc]
  have hfirst : shiftToTargetExponent Format.binary64 m e acc =
      (ExtendedMantissa.ofMantissaAndAccuracy m acc >>> k, lastPlace q) := by
    rw [shiftToTargetExponent, htarget, shiftToExponent, hk, show (e + k - e).toNat = k by omega]
  have hrounded := (h.shiftRight k).roundedMantissa
  rw [← hdiv] at hrounded
  -- the rounded mantissa has 53 bits, or it is the next power of two
  have hlo := le_nearestEven_div_ulp hx
  have hhi := nearestEven_div_ulp_le q
  have hvalue : nearest q =
      ((ExtendedMantissa.ofMantissaAndAccuracy m acc >>> k).roundedMantissa : ℕ) *
        2 ^ lastPlace q := by
    rw [nearest, ← hrounded, Int.cast_natCast, ulp]
  obtain ⟨m', e', hsecond, hlo', hhi', hle, hle', hsame⟩ :=
    shiftToTargetExponent_exact
      (m := (ExtendedMantissa.ofMantissaAndAccuracy m acc >>> k).roundedMantissa)
      (e := lastPlace q) (by omega) (by omega) (by unfold lastPlace; omega)
  -- the second shift loses nothing, so it reads as the value that was rounded to
  rw [hvalue, ← hsame]
  unfold roundWithAccuracy
  rw [hfirst]
  dsimp only
  rw [hsecond]
  show Reads (if h : m' = 0 then _ else .finite .positive m' e' (Nat.pos_of_ne_zero h)) _
  rw [dif_neg (show m' ≠ 0 by omega)]
  exact .normal _ hlo' hhi' (by unfold lastPlace at hle; omega) (by unfold lastPlace at hle'; omega)

/-- A mantissa of any size is rounded to the nearest. -/
theorem reads_round (hm : 0 < m) (hrange : InRange 200 ((m : ℚ) * 2 ^ e)) :
    Reads (UnpackedFloat.round Format.binary64 .positive m e) (nearest (m * 2 ^ e)) := by
  have hlog := (Stands.exact m).log (e := e) hm
  have htarget := targetExponent_eq hrange ((Stands.exact m).pos hm) hlog
  -- too short a mantissa is filled up first
  obtain ⟨k, hk⟩ : ∃ k : ℕ, (e - lastPlace ((m : ℚ) * 2 ^ e)).toNat = k := ⟨_, rfl⟩
  have hbits : 52 ≤ m.log2 + k := by
    unfold lastPlace at hk
    omega
  have hlow : 2 ^ 52 ≤ m * 2 ^ k := calc
    2 ^ 52 ≤ 2 ^ (m.log2 + k) := Nat.pow_le_pow_right two_pos hbits
    _ = 2 ^ m.log2 * 2 ^ k := Nat.pow_add ..
    _ ≤ m * 2 ^ k := Nat.mul_le_mul_right _ (Nat.log2_self_le hm.ne')
  have hsame : ((m * 2 ^ k : ℕ) : ℚ) * 2 ^ (e - k) = m * 2 ^ e := by
    rw [sub_eq_add_neg, two_zpow_add, zpow_neg, zpow_natCast]
    push_cast
    field_simp
  rw [← hsame] at hrange ⊢
  simp only [UnpackedFloat.round, htarget, decreaseExponent, hk, Nat.shiftLeft_eq]
  exact reads_roundWithAccuracy hlow (.exact _) hrange

/-- To write a number with a smaller exponent does not change it. -/
theorem decreaseExponent_value (m : ℕ) {e t : ℤ} (h : t ≤ e) :
    ((decreaseExponent m e t).1 : ℚ) * 2 ^ t = m * 2 ^ e := by
  obtain ⟨k, rfl⟩ : ∃ k : ℕ, e = t + k := ⟨(e - t).toNat, by omega⟩
  rw [decreaseExponent, show (t + k - t).toNat = k by omega, Nat.shiftLeft_eq, two_zpow_add,
    zpow_natCast]
  push_cast
  ring

theorem reads_normalize {n : ℤ} (hn : 0 ≤ n) (hrange : InRange 200 ((n : ℚ) * 2 ^ e)) :
    Reads (UnpackedFloat.normalize Format.binary64 n e .positive) (nearest (n * 2 ^ e)) := by
  lift n to ℕ using hn
  rw [Int.cast_natCast] at hrange ⊢
  rcases Nat.eq_zero_or_pos n with rfl | hpos
  · simpa [UnpackedFloat.normalize] using Reads.zero
  · have hgt : compare (n : ℤ) 0 = .gt := Int.compare_eq_gt.mpr (by exact_mod_cast hpos)
    simpa [UnpackedFloat.normalize, hgt] using reads_round hpos hrange

end

/-! ### Operations -/

/-- Of two normal numbers the one with the larger exponent is the larger one. -/
theorem dyadic_lt {m m' : ℕ} {e e' : ℤ} (h : e < e') (hhi : m < 2 ^ 53) (hlo : 2 ^ 52 ≤ m') :
    (m : ℚ) * 2 ^ e < m' * 2 ^ e' := by
  have hm : (m : ℚ) < 2 ^ 53 := by exact_mod_cast hhi
  have hm' : (2 ^ 52 : ℚ) ≤ m' := by exact_mod_cast hlo
  calc (m : ℚ) * 2 ^ e < 2 ^ 53 * 2 ^ e := mul_lt_mul_of_pos_right hm (by positivity)
    _ = 2 ^ 52 * 2 ^ (e + 1) := by rw [two_zpow_add]; ring
    _ ≤ 2 ^ 52 * 2 ^ e' :=
      mul_le_mul_of_nonneg_left (zpow_le_zpow_right₀ one_le_two h) (by positivity)
    _ ≤ m' * 2 ^ e' := mul_le_mul_of_nonneg_right hm' (by positivity)

namespace Reads

variable {u v : UnpackedFloat} {p q : ℚ}

theorem nonneg (h : Reads u p) : 0 ≤ p := by
  cases h <;> positivity

/-- A number that is read off is rounded already. -/
theorem nearest_eq (h : Reads u p) : nearest p = p := by
  cases h with
  | zero => exact nearest_zero
  | normal _ _ hhi => exact nearest_dyadic hhi _

theorem mul (hu : Reads u p) (hv : Reads v q) (hrange : InRange 200 (p * q)) :
    Reads (UnpackedFloat.mul Format.binary64 u v) (nearest (p * q)) := by
  cases hu with
  | zero =>
    rw [zero_mul, nearest_zero]
    cases hv <;> exact .zero
  | @normal m e hm hlo =>
    cases hv with
    | zero =>
      rw [mul_zero, nearest_zero]
      exact .zero
    | @normal m' e' hm' hlo' =>
      have hvalue : (m : ℚ) * 2 ^ e * (m' * 2 ^ e') = (m * m' : ℕ) * 2 ^ (e + e') := by
        rw [two_zpow_add]
        push_cast
        ring
      rw [hvalue] at hrange ⊢
      exact reads_roundWithAccuracy (hlo.trans (Nat.le_mul_of_pos_right m hm')) (.exact _) hrange

theorem add (hu : Reads u p) (hv : Reads v q) (hrange : InRange 200 (p + q)) :
    Reads (UnpackedFloat.add Format.binary64 u v) (nearest (p + q)) := by
  cases hu with
  | zero =>
    rw [zero_add, hv.nearest_eq]
    cases hv with
    | zero => exact .zero
    | normal hm hlo hhi he he' => exact .normal hm hlo hhi he he'
  | @normal m e hm hlo hhi he he' =>
    cases hv with
    | zero =>
      rw [add_zero, nearest_dyadic hhi]
      exact .normal hm hlo hhi he he'
    | @normal m' e' hm' =>
      have hvalue : (m : ℚ) * 2 ^ e + m' * 2 ^ e' =
          (((decreaseExponent m e (min e e')).1 + (decreaseExponent m' e' (min e e')).1 : ℤ) : ℚ) *
            2 ^ min e e' := by
        rw [← decreaseExponent_value m (min_le_left e e'),
          ← decreaseExponent_value m' (min_le_right e e')]
        push_cast
        ring
      rw [hvalue] at hrange ⊢
      exact reads_normalize (Int.natCast_nonneg _) hrange

/-- Nothing is taken from less. -/
theorem sub (hu : Reads u p) (hv : Reads v q) (hle : q ≤ p) (hrange : InRange 200 (p - q)) :
    Reads (UnpackedFloat.sub Format.binary64 u v) (nearest (p - q)) := by
  cases hu with
  | zero =>
    cases hv with
    | zero =>
      rw [sub_zero, nearest_zero]
      exact .zero
    | @normal m e hm => exact absurd hle (not_le.mpr (by positivity))
  | @normal m e hm hlo hhi he he' =>
    cases hv with
    | zero =>
      rw [sub_zero, nearest_dyadic hhi]
      exact .normal hm hlo hhi he he'
    | @normal m' e' hm' =>
      have hvalue : (m : ℚ) * 2 ^ e - m' * 2 ^ e' =
          (((decreaseExponent m e (min e e')).1 - (decreaseExponent m' e' (min e e')).1 : ℤ) : ℚ) *
            2 ^ min e e' := by
        rw [← decreaseExponent_value m (min_le_left e e'),
          ← decreaseExponent_value m' (min_le_right e e')]
        push_cast
        ring
      have hnonneg := sub_nonneg.mpr hle
      rw [hvalue] at hrange hnonneg ⊢
      exact reads_normalize
        (Int.cast_nonneg_iff.mp (nonneg_of_mul_nonneg_left hnonneg (by positivity))) hrange

theorem div (hu : Reads u p) (hv : Reads v q) (hq : 0 < q) (hrange : InRange 200 (p / q)) :
    Reads (UnpackedFloat.div Format.binary64 u v) (nearest (p / q)) := by
  cases hv with
  | zero => exact absurd hq (lt_irrefl 0)
  | @normal m' e' hm' hlo' hhi' =>
    cases hu with
    | zero =>
      rw [zero_div, nearest_zero]
      exact .zero
    | @normal m e hm hlo hhi =>
      have hm'' : (0 : ℚ) < m' := by exact_mod_cast hm'
      -- the quotient of the mantissas, with enough bits
      have hlow : 2 ^ 52 ≤ m * 2 ^ 53 / m' := by
        refine (Nat.le_div_iff_mul_le hm').mpr ?_
        calc 2 ^ 52 * m' ≤ 2 ^ 52 * 2 ^ 53 := Nat.mul_le_mul_left _ hhi'.le
          _ ≤ m * 2 ^ 53 := Nat.mul_le_mul_right _ hlo
      have hhigh : m * 2 ^ 53 / m' < 2 ^ 54 := by
        refine (Nat.div_lt_iff_lt_mul hm').mpr ?_
        calc m * 2 ^ 53 < 2 ^ 53 * 2 ^ 53 := Nat.mul_lt_mul_of_pos_right hhi (by positivity)
          _ = 2 ^ 54 * 2 ^ 52 := by norm_num
          _ ≤ 2 ^ 54 * m' := Nat.mul_le_mul_left _ hlo'
      have hstands := Stands.fraction (m := m * 2 ^ 53) hm'
      have hvalue : (m : ℚ) * 2 ^ e / (m' * 2 ^ e') =
          ((m * 2 ^ 53 : ℕ) : ℚ) / m' * 2 ^ (e - e' - 53) := by
        rw [sub_sub, sub_eq_add_neg, two_zpow_add, neg_add, two_zpow_add, zpow_neg, zpow_neg]
        push_cast
        field_simp
      rw [hvalue] at hrange ⊢
      -- its place
      have hplace : -200 ≤ e - e' := by
        have hlog := hstands.log (e := e - e' - 53) (by omega)
        have hbits : (m * 2 ^ 53 / m').log2 < 54 := (Nat.log2_lt (by omega)).mpr hhigh
        have := (hrange.log (hstands.pos (by omega))).1
        omega
      -- both mantissas have 53 bits, so their places are those of the exponents
      have hlog : m.log2 = 52 := (Nat.log2_eq_iff hm.ne').mpr ⟨hlo, hhi⟩
      have hlog' : m'.log2 = 52 := (Nat.log2_eq_iff hm'.ne').mpr ⟨hlo', hhi'⟩
      have hcore : divCore Format.binary64 m e m' e' =
          (m * 2 ^ 53 / m', e - e' - 53, accuracyOfFraction (m * 2 ^ 53 % m') m') := by
        have htarget : min (e - e') (Format.binary64.targetExponent
            (totalExponent m e - totalExponent m' e')) = e - e' - 53 := by
          rw [binary64_targetExponent, totalExponent, totalExponent, hlog, hlog']
          omega
        rw [divCore, htarget, show (e - e' - (e - e' - 53)).toNat = 53 by omega,
          Nat.shiftLeft_eq]
      show Reads (roundWithAccuracy Format.binary64 .positive (divCore Format.binary64 m e m' e').1
        (divCore Format.binary64 m e m' e').2.1 (divCore Format.binary64 m e m' e').2.2) _
      rw [hcore]
      exact reads_roundWithAccuracy hlow hstands hrange

/-- One can be taken from a number that is not too large without rounding. -/
theorem sub_one (h : Reads u p) (hone : 1 ≤ p) (hle : p ≤ 2 ^ 52) :
    nearest (p - 1) = p - 1 ∧ InRange 52 (p - 1) := by
  cases h with
  | zero => exact absurd hone (by norm_num)
  | @normal m e hm hlo hhi =>
    -- the mantissa is a number of units of at most one, and of at least `2⁻⁵²`
    have he : e ≤ 0 := by
      by_contra hpos
      have hlt : ((2 ^ 52 : ℕ) : ℚ) * 2 ^ (0 : ℤ) < m * 2 ^ e :=
        dyadic_lt (by omega) (by norm_num) hlo
      rw [zpow_zero, mul_one] at hlt
      push_cast at hlt
      linarith
    obtain ⟨k, rfl⟩ : ∃ k : ℕ, e = -k := ⟨(-e).toNat, by omega⟩
    have hvalue : (m : ℚ) * 2 ^ (-k : ℤ) = m / 2 ^ k := by
      rw [zpow_neg, zpow_natCast, div_eq_mul_inv]
    rw [hvalue] at hone hle ⊢
    have hpow : 2 ^ k ≤ m := by
      rw [one_le_div (by positivity)] at hone
      exact_mod_cast hone
    have hk : k ≤ 52 := by
      by_contra hlarge
      exact absurd (hhi.trans_le (Nat.pow_le_pow_right two_pos (by omega : 53 ≤ k)))
        (not_lt.mpr hpow)
    obtain ⟨n, rfl⟩ := Nat.exists_eq_add_of_le hpow
    have hrest : ((2 ^ k + n : ℕ) : ℚ) / 2 ^ k - 1 = n * 2 ^ (-k : ℤ) := by
      rw [zpow_neg, zpow_natCast]
      push_cast
      field_simp
      ring
    have hle' : ((2 ^ k + n : ℕ) : ℚ) / 2 ^ k - 1 ≤ 2 ^ 52 := by linarith
    rw [hrest] at hle' ⊢
    refine ⟨nearest_dyadic ((Nat.le_add_left n _).trans_lt hhi) _, ?_⟩
    rcases Nat.eq_zero_or_pos n with rfl | hn
    · exact .inl (by rw [Nat.cast_zero, zero_mul])
    · have h1 : (1 : ℚ) ≤ n := by exact_mod_cast hn
      refine .inr ⟨?_, hle'⟩
      rw [zpow_neg, zpow_natCast]
      calc ((2 : ℚ) ^ 52)⁻¹ ≤ (2 ^ k)⁻¹ :=
            inv_anti₀ (by positivity) (pow_le_pow_right₀ one_le_two hk)
        _ ≤ n * (2 ^ k)⁻¹ := le_mul_of_one_le_left (by positivity) h1

/-- A comparison of exponents and mantissas is a comparison of numbers. -/
theorem compare_eq (hu : Reads u p) (hv : Reads v q) :
    UnpackedFloat.compare u v = some (cmp p q) := by
  cases hu with
  | zero =>
    cases hv with
    | zero => rw [cmp_self_eq_eq]; rfl
    | normal => rw [(cmp_eq_lt_iff _ _).mpr (by positivity)]; rfl
  | @normal m e hm hlo hhi =>
    cases hv with
    | zero => rw [(cmp_eq_gt_iff _ _).mpr (by positivity)]; rfl
    | @normal m' e' hm' hlo' hhi' =>
      show some ((compare e e').then (compare m m')) = _
      rcases lt_trichotomy e e' with h | rfl | h
      · rw [Int.compare_eq_lt.mpr h, (cmp_eq_lt_iff _ _).mpr (dyadic_lt h hhi hlo')]
        rfl
      · rw [cmp_mul_pos_right (by positivity), Nat.strictMono_cast.cmp_map_eq, cmp_eq_compare,
          Int.compare_eq_eq.mpr rfl]
        rfl
      · rw [Int.compare_eq_gt.mpr h, (cmp_eq_gt_iff _ _).mpr (dyadic_lt h hhi' hlo)]
        rfl

theorem lt_iff (hu : Reads u p) (hv : Reads v q) : UnpackedFloat.lt u v = true ↔ p < q := by
  rw [UnpackedFloat.lt, hu.compare_eq hv, ← cmp_eq_lt_iff, beq_iff_eq, Option.some_inj]

theorem le_iff (hu : Reads u p) (hv : Reads v q) : UnpackedFloat.le u v = true ↔ p ≤ q := by
  rw [UnpackedFloat.le, hu.compare_eq hv, Option.any_some, ← not_lt, ← cmp_eq_gt_iff]
  cases cmp p q <;> simp

end Reads

/-! ### Packed numbers -/

theorem unpackSign_packComponents (s : Sign) (e : BitVec 11) (m : BitVec 52) :
    unpackSign (packComponents Format.binary64 s e m) = s.toBitVec := by
  -- the sign is the bit above the other two parts
  have hbit : (s.toBitVec ++ e ++ m).getLsbD 63 = s.toBitVec.getLsbD 0 := by
    rw [BitVec.getLsbD_append, BitVec.getLsbD_append, if_neg (by omega), if_neg (by omega)]
  ext i hi
  obtain rfl : i = 0 := by omega
  rw [← BitVec.getLsbD_eq_getElem, ← BitVec.getLsbD_eq_getElem]
  exact (BitVec.getLsbD_extractLsb' ..).trans hbit

/-- The implicit bit comes back. -/
theorem implicit_append {m : ℕ} (hlo : 2 ^ 52 ≤ m) (hhi : m < 2 ^ 53) :
    (1#1 ++ BitVec.ofNat 52 m).toNat = m := by
  rw [BitVec.toNat_append, ← Nat.shiftLeft_add_eq_or_of_lt (BitVec.isLt _), BitVec.toNat_ofNat,
    Nat.shiftLeft_eq]
  show 1 * 2 ^ 52 + m % 2 ^ 52 = m
  omega

/-- A normal number is read off the three parts of its word. -/
theorem reads_unpack {w : BitVec Format.binary64.numBits} {m k : ℕ} (hsign : unpackSign w = 0#1)
    (hexp : (unpackExponent w).toNat = k) (hk : 0 < k) (hk' : k < 2047)
    (hm : (1#1 ++ unpackMantissa w).toNat = m) (hlo : 2 ^ 52 ≤ m) (hhi : m < 2 ^ 53) :
    Reads (UnpackedFloat.unpack Format.binary64 w) (m * 2 ^ (k - 1075 : ℤ)) := by
  have hones : unpackExponent w ≠ -1#_ := by
    intro h
    have hall : (unpackExponent w).toNat = 2047 := congrArg BitVec.toNat h
    omega
  have hzero : unpackExponent w ≠ 0#_ := by
    intro h
    have hnone : (unpackExponent w).toNat = 0 := congrArg BitVec.toNat h
    omega
  subst hexp hm
  unfold UnpackedFloat.unpack
  dsimp only
  rw [if_neg hones, if_neg hzero, hsign]
  show Reads (.finite .positive _ ((unpackExponent w).toNat - 1075) _) _
  exact .normal _ hlo hhi (by omega) (by omega)

/-- What has been packed can be read off. -/
theorem Reads.pack {u : UnpackedFloat} {q : ℚ} (h : Reads u q) :
    Reads (Float.Model.pack u).unpack q := by
  cases h with
  | zero => exact .zero
  | @normal m e hm hlo hhi he he' =>
    obtain ⟨k, hk⟩ : ∃ k : ℕ, e + 1075 = k := ⟨(e + 1075).toNat, by omega⟩
    have hlog : m.log2 = 52 := (Nat.log2_eq_iff hm.ne').mpr ⟨hlo, hhi⟩
    have hpacked : UnpackedFloat.pack Format.binary64 (.finite .positive m e hm) =
        packComponents Format.binary64 .positive (BitVec.ofNat 11 k) (BitVec.ofNat 52 m) := by
      show (if 2 ^ 11 ≤ (e + 1023 + 52).toNat + 1 then _ else if m.log2 + 1 = 53 then
        packComponents Format.binary64 .positive (BitVec.ofNat 11 (e + 1023 + 52).toNat)
          (BitVec.ofNat 52 m) else _) = _
      rw [if_neg (by omega), if_pos (by omega), show (e + 1023 + 52).toNat = k by omega]
    have hbits : (BitVec.ofNat 11 k).toNat = k := by
      rw [BitVec.toNat_ofNat]
      omega
    show Reads (UnpackedFloat.unpack Format.binary64
      (UnpackedFloat.pack Format.binary64 (.finite .positive m e hm))) _
    rw [hpacked, show e = (k - 1075 : ℤ) by omega]
    refine reads_unpack (unpackSign_packComponents _ _ _) ?_ (by omega) (by omega) ?_ hlo hhi
    · rw [unpackExponent_packComponents, hbits]
    · rw [unpackMantissa_packComponents]
      exact implicit_append hlo hhi

/-- The binary64 number `x` is the rational number `q`. -/
def Denotes (x : Float) (q : ℚ) : Prop := Reads x.toModel.unpack q

namespace Denotes

variable {x y : Float} {p q : ℚ}

theorem nonneg (h : Denotes x p) : 0 ≤ p := Reads.nonneg h

theorem nearest_eq (h : Denotes x p) : nearest p = p := Reads.nearest_eq h

theorem add (hx : Denotes x p) (hy : Denotes y q) (hrange : InRange 200 (p + q)) :
    Denotes (x + y) (nearest (p + q)) := (Reads.add hx hy hrange).pack

theorem sub (hx : Denotes x p) (hy : Denotes y q) (hle : q ≤ p) (hrange : InRange 200 (p - q)) :
    Denotes (x - y) (nearest (p - q)) := (Reads.sub hx hy hle hrange).pack

/-- One can be taken from a number that is not too large without rounding. -/
theorem sub_one (hx : Denotes x p) (hy : Denotes y 1) (hone : 1 ≤ p) (hle : p ≤ 2 ^ 52) :
    Denotes (x - y) (p - 1) ∧ InRange 52 (p - 1) := by
  obtain ⟨hexact, hrange⟩ := Reads.sub_one hx hone hle
  refine ⟨?_, hrange⟩
  rw [← hexact]
  exact hx.sub hy hone (hrange.mono (by norm_num))

theorem mul (hx : Denotes x p) (hy : Denotes y q) (hrange : InRange 200 (p * q)) :
    Denotes (x * y) (nearest (p * q)) := (Reads.mul hx hy hrange).pack

theorem div (hx : Denotes x p) (hy : Denotes y q) (hq : 0 < q) (hrange : InRange 200 (p / q)) :
    Denotes (x / y) (nearest (p / q)) := (Reads.div hx hy hq hrange).pack

theorem lt_iff (hx : Denotes x p) (hy : Denotes y q) : x < y ↔ p < q := by
  rw [← Reads.lt_iff hx hy]
  exact decide_eq_true_iff

theorem le_iff (hx : Denotes x p) (hy : Denotes y q) : x ≤ y ↔ p ≤ q := by
  rw [← Reads.le_iff hx hy]
  exact decide_eq_true_iff

end Denotes

/-- Whole numbers are converted to the nearest. -/
theorem reads_ofNat {n : ℕ} (h : n ≤ 2 ^ 200) :
    Reads (UnpackedFloat.ofNat Format.binary64 n) (nearest n) := by
  have hread := reads_normalize (n := n) (e := 0) (Int.natCast_nonneg n)
    (by simpa using InRange.natCast h)
  rw [zpow_zero, mul_one, Int.cast_natCast] at hread
  exact hread

theorem denotes_toFloat_uint64 (n : UInt64) : Denotes n.toFloat (nearest n.toNat) :=
  (reads_ofNat (n.toNat_lt.le.trans (by norm_num))).pack

theorem nearest_natCast {n : ℕ} (h : n < 2 ^ 53) : nearest n = n := by
  have hexact := nearest_dyadic h 0
  rwa [zpow_zero, mul_one] at hexact

/-- Words of 32 bits are converted exactly. -/
theorem denotes_toFloat_uint32 (n : UInt32) : Denotes n.toFloat n.toNat := by
  rw [← nearest_natCast (n.toNat_lt.trans (by norm_num))]
  exact (reads_ofNat (n.toNat_lt.le.trans (by norm_num))).pack

end CallPolicy
