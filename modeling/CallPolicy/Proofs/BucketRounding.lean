/-
The token bucket against the one that does not round.

An arrival brings the binary64 balance up to date with a handful of roundings.
They move it by at most `RateLimit.slack`, less than `2⁻¹⁵` of a token however
long nobody has called, because the capacity cuts off the error of a large
inflow. To take one token does not round. So the two buckets drift apart by that
much with every call and no more:

* **`Bucket.Tracks.refill`**, **`Bucket.Tracks.take`** — what one call does to
  the distance;
* **`Bucket.answers_full_eq_or_close`** — the answers are the same, up to a call
  that finds just about one token;
* **`Bucket.answers_full_eq`** — all of them are if there is no such call.

The exception is real: the example at the end has a bucket that a refused call
makes fall short of a token.
-/
import CallPolicy.Proofs.Binary64
import CallPolicy.Proofs.ExactBucket
import Mathlib.Algebra.Order.Group.MinMax

namespace CallPolicy

/-- The number of seconds is exact but for three roundings. -/
theorem Duration.denotes_seconds (d : Duration) :
    ∃ q, Denotes d.seconds q ∧ Within (4 / 2 ^ 53) q (d.nanos / 1000000000) ∧ InRange 67 q := by
  have hmax := d.le_max
  have hwhole : d.wholeSeconds < 2 ^ 64 := by
    unfold wholeSeconds
    unfold maxNanos UInt64.size at hmax
    omega
  have hrest : d.remainder < 1000000000 := Nat.mod_lt _ (by norm_num)
  have hsplit : (d.nanos : ℚ) / 1000000000 = d.wholeSeconds + d.remainder / 1000000000 := by
    have hnat : d.nanos = 1000000000 * d.wholeSeconds + d.remainder := (Nat.div_add_mod _ _).symm
    rw [hnat]
    push_cast
    ring
  -- the whole seconds may need more than 53 bits, the rest does not
  have hw : Denotes d.wholeSeconds.toUInt64.toFloat (nearest d.wholeSeconds) := by
    have hword := denotes_toFloat_uint64 d.wholeSeconds.toUInt64
    rwa [show d.wholeSeconds.toUInt64.toNat = d.wholeSeconds from Nat.mod_eq_of_lt hwhole]
      at hword
  have hr : Denotes d.remainder.toUInt64.toFloat d.remainder := by
    have hword := denotes_toFloat_uint64 d.remainder.toUInt64
    rw [show d.remainder.toUInt64.toNat = d.remainder from Nat.mod_eq_of_lt (by omega)] at hword
    rwa [nearest_natCast (by omega)] at hword
  have hb : Denotes (1000000000 : UInt64).toFloat 1000000000 := by
    have hword := denotes_toFloat_uint64 1000000000
    rwa [show (1000000000 : UInt64).toNat = 1000000000 from rfl, nearest_natCast (by norm_num)]
      at hword
  have hwrange : InRange (64 + 1) (nearest d.wholeSeconds) := (InRange.natCast hwhole.le).nearest
  have hrrange : InRange 30 (d.remainder : ℚ) := .natCast (by omega)
  have hbrange : InRange 30 (1000000000 : ℚ) := by
    exact_mod_cast InRange.natCast (n := 1000000000) (k := 30) (by norm_num)
  have hqrange : InRange (30 + 30) ((d.remainder : ℚ) / 1000000000) := hrrange.div hbrange
  have hq := hr.div hb (by norm_num) (hqrange.mono (by norm_num))
  have hsumrange := hwrange.add (hqrange.nearest.mono (by norm_num))
  have hsum := hw.add hq (hsumrange.mono (by norm_num))
  have hclose := ((Within.of_nearest d.wholeSeconds.cast_nonneg).add
    (Within.of_nearest hqrange.nonneg)).nearest hsumrange.nonneg
  rw [← hsplit] at hclose
  exact ⟨_, hsum, hclose.mono (by norm_num) (by positivity), hsumrange.nearest⟩

namespace RateLimit

variable {l : RateLimit}

/-- An accepted rate limit has a period that is not empty. -/
theorem period_pos (hl : (Layer.rateLimit l).fault? = none) : 0 < l.period.nanos := by
  unfold Layer.fault? Layer.emptySpan? at hl
  dsimp only at hl
  split at hl
  · cases hl
  · split at hl
    · cases hl
    next hne => exact Nat.pos_of_ne_zero hne

/-- The number of tokens per second. -/
theorem denotes_perSecond (hperiod : 0 < l.period.nanos) :
    ∃ q, Denotes l.perSecond q ∧
      Within (10 / 2 ^ 53) q (l.rate.toNat / (l.period.nanos / 1000000000)) ∧ InRange 100 q := by
  obtain ⟨p, hp, hclose, hrange⟩ := l.period.denotes_seconds
  have hperiod' : (0 : ℚ) < l.period.nanos := by exact_mod_cast hperiod
  have hpos : 0 < p := lt_of_lt_of_le (by norm_num; positivity) hclose.ge
  have hrate := denotes_toFloat_uint32 l.rate
  have hrrange : InRange 32 (l.rate.toNat : ℚ) := .natCast l.rate.toNat_lt.le
  have hqrange : InRange (32 + 67) ((l.rate.toNat : ℚ) / p) := hrrange.div hrange
  have hquot := (hclose.div (x := l.rate.toNat) (Nat.cast_nonneg _) (by positivity)
    (by norm_num)).nearest hqrange.nonneg
  exact ⟨_, hrate.div hp hpos (hqrange.mono (by norm_num)), hquot.mono (by norm_num) (by positivity),
    hqrange.nearest⟩

/-- The tokens that flow in, but for rounding. -/
theorem denotes_inflow (hperiod : 0 < l.period.nanos) (d : Duration) :
    ∃ q, Denotes (d.seconds * l.perSecond) q ∧ Within (1 / 2 ^ 49) q (l.inflow d.nanos) ∧
      InRange 168 q := by
  obtain ⟨p, hp, hpclose, hprange⟩ := d.denotes_seconds
  obtain ⟨q, hq, hqclose, hqrange⟩ := denotes_perSecond hperiod
  have hperiod' : (0 : ℚ) < l.period.nanos := by exact_mod_cast hperiod
  have hflow : (d.nanos : ℚ) / 1000000000 * (l.rate.toNat / (l.period.nanos / 1000000000)) =
      l.inflow d.nanos := by
    unfold inflow
    field_simp
  have hrange : InRange (67 + 100) (p * q) := hprange.mul hqrange
  have hclose := (hpclose.mul hqclose hqrange.nonneg (by positivity) (by norm_num)).nearest
    hrange.nonneg
  rw [hflow] at hclose
  exact ⟨_, hp.mul hq (hrange.mono (by norm_num)), hclose.mono (by norm_num) (l.inflow_nonneg _),
    hrange.nearest⟩

/-- How far rounding can move the balance at one arrival. -/
def slack (l : RateLimit) : ℚ := l.capacity.toNat / 2 ^ 47

/-- What becomes of a balance at one arrival, with rounding and without. -/
theorem min_nearest_close {c p x i j ε : ℚ} (hp : 0 ≤ p) (hpc : p ≤ c) (hx : 0 ≤ x)
    (hpx : |p - x| ≤ ε) (hi : 0 ≤ i) (hj : Within (1 / 2 ^ 49) j i) :
    |min (nearest (p + j)) c - min (x + i) c| ≤ ε + c / 2 ^ 47 := by
  have hjle := hj.le
  have hjge := hj.ge
  have hj0 : 0 ≤ j := le_trans (mul_nonneg (by norm_num) hi) hjge
  have hround := abs_le.mp (abs_nearest_sub_le (add_nonneg hp hj0))
  have hpx' := abs_le.mp hpx
  -- the error is relative to the inflow, so it is small if the inflow is not far above the capacity
  rcases le_or_gt i (2 * c) with hsmall | hlarge
  · refine (abs_min_sub_min_le_max _ _ _ _).trans ?_
    rw [sub_self, abs_zero, max_eq_left (abs_nonneg _), abs_le]
    constructor <;> linarith
  · -- the bucket is full either way
    rw [min_eq_right (by linarith), min_eq_right (by linarith), sub_self, abs_zero]
    have hε : 0 ≤ ε := (abs_nonneg _).trans hpx
    have hc : 0 ≤ c := hp.trans hpc
    positivity

end RateLimit

namespace Bucket

/-- A bucket that rounds holds what one that does not holds, give or take `ε`. -/
structure Tracks (l : RateLimit) (ε : ℚ) (b : Bucket) (x : ExactBucket) : Prop where
  refilledAt : b.refilledAt = x.refilledAt
  balance : ∃ p, Denotes b.balance p ∧ InRange 168 p ∧ p ≤ l.capacity.toNat ∧
    |p - x.balance| ≤ ε
  nonneg : 0 ≤ x.balance

theorem denotes_fullBalance (l : RateLimit) : Denotes l.fullBalance l.capacity.toNat :=
  denotes_toFloat_uint32 l.capacity

/-- The smaller of two numbers is the smaller of the numbers they denote. -/
theorem denotes_least {x y : Float} {p q : ℚ} (hx : Denotes x p) (hy : Denotes y q) :
    Denotes (least x y) (min p q) := by
  unfold least
  rcases lt_or_ge p q with h | h
  · rw [if_pos ((hx.lt_iff hy).mpr h), min_eq_left h.le]
    exact hx
  · rw [if_neg (mt (hx.lt_iff hy).mp (not_lt.mpr h)), min_eq_right h]
    exact hy

variable {l : RateLimit} {b : Bucket} {x : ExactBucket} {ε : ℚ} {t : ℕ}

theorem denotes_one : Denotes (1 : UInt32).toFloat 1 := by
  exact_mod_cast denotes_toFloat_uint32 1

/-- **To take a token does not round**: a balance of one token and more, up to the capacity, has
its last place below one. -/
theorem denotes_sub_one {y : Float} {p : ℚ} (hp : Denotes y p) (hone : 1 ≤ p)
    (hle : p ≤ l.capacity.toNat) :
    Denotes (y - (1 : UInt32).toFloat) (p - 1) ∧ InRange 52 (p - 1) := by
  have hcapacity : (l.capacity.toNat : ℚ) ≤ 2 ^ 32 :=
    (InRange.natCast (k := 32) l.capacity.toNat_lt.le).le
  exact hp.sub_one denotes_one hone (hle.trans (hcapacity.trans (by norm_num)))

theorem take_of_le (h : (1 : UInt32).toFloat ≤ (b.refill l t).balance) :
    b.take l t = (true, ⟨(b.refill l t).balance - (1 : UInt32).toFloat, t⟩) := if_pos h

theorem take_of_not_le (h : ¬ (1 : UInt32).toFloat ≤ (b.refill l t).balance) :
    b.take l t = (false, b.refill l t) := if_neg h

theorem tracks_full (l : RateLimit) (t : ℕ) : Tracks l 0 (.full l t) (.full l t) := by
  refine ⟨rfl, ⟨l.capacity.toNat, denotes_fullBalance l, ?_, le_refl _, ?_⟩, Nat.cast_nonneg _⟩
  · exact (InRange.natCast l.capacity.toNat_lt.le).mono (by norm_num)
  · simp [ExactBucket.full]

namespace Tracks

/-- To bring the balance up to date moves the buckets apart by a little. -/
theorem refill (h : Tracks l ε b x) (hperiod : 0 < l.period.nanos)
    (ht : t - b.refilledAt ≤ maxNanos) :
    Tracks l (ε + l.slack) (b.refill l t) (x.refill l t) := by
  obtain ⟨hsame, ⟨p, hp, hrange, hle, hclose⟩, hnonneg⟩ := h
  obtain ⟨j, hj, hjclose, hjrange⟩ := RateLimit.denotes_inflow hperiod (.ofNanos (t - b.refilledAt))
  rw [Duration.nanos_ofNanos, min_eq_left ht, hsame] at hjclose
  have hsum := hp.add hj ((hrange.add hjrange).mono (by norm_num))
  have hcapacity : InRange 168 (l.capacity.toNat : ℚ) :=
    .natCast (l.capacity.toNat_lt.le.trans (by norm_num))
  refine ⟨rfl, ⟨_, denotes_least hsum (denotes_fullBalance l), ?_, min_le_right _ _, ?_⟩, ?_⟩
  · rcases min_choice (nearest (p + j)) (l.capacity.toNat : ℚ) with hmin | hmin <;> rw [hmin]
    · refine hrange.nearest_add hjrange hp.nearest_eq hj.nearest_eq ?_
      exact (min_eq_left_iff.mp hmin).trans hcapacity.le
    · exact hcapacity
  · exact RateLimit.min_nearest_close hp.nonneg hle hnonneg hclose (l.inflow_nonneg _) hjclose
  · exact le_min (add_nonneg hnonneg (l.inflow_nonneg _)) (Nat.cast_nonneg _)

/-- A call that does not find just about one token is answered alike. -/
theorem take (h : Tracks l ε (b.refill l t) (x.refill l t))
    (hclear : ε < |(x.refill l t).balance - 1|) :
    (b.take l t).1 = (x.take l t).1 ∧ Tracks l ε (b.take l t).2 (x.take l t).2 := by
  obtain ⟨hsame, ⟨p, hp, hrange, hle, hclose⟩, hnonneg⟩ := id h
  have hclose' := abs_le.mp hclose
  rcases le_or_gt 1 (x.refill l t).balance with hx | hx
  · rw [abs_of_nonneg (sub_nonneg.mpr hx)] at hclear
    have hp1 : 1 ≤ p := by linarith
    obtain ⟨hrest, hrest'⟩ := denotes_sub_one hp hp1 hle
    rw [ExactBucket.take_of_le hx, take_of_le ((denotes_one.le_iff hp).mpr hp1)]
    refine ⟨rfl, rfl, ⟨p - 1, hrest, hrest'.mono (by norm_num), by linarith, ?_⟩, ?_⟩
    · rwa [sub_sub_sub_cancel_right]
    · exact sub_nonneg.mpr hx
  · rw [abs_of_neg (sub_neg.mpr hx)] at hclear
    have hp1 : ¬ 1 ≤ p := by linarith
    rw [ExactBucket.take_of_lt hx, take_of_not_le (mt (denotes_one.le_iff hp).mp hp1)]
    exact ⟨rfl, h⟩

end Tracks

/-- **A bucket that rounds answers as one that does not**, up to a call that finds just about
one token in the latter. -/
theorem answers_eq_or_close {ts : List ℕ} (h : Tracks l ε b x) (hperiod : 0 < l.period.nanos)
    (hsorted : (x.refilledAt :: ts).Pairwise (· ≤ ·))
    (hspan : ∀ t ∈ ts, t - x.refilledAt ≤ maxNanos) :
    answers (take l) b ts = answers (ExactBucket.take l) x ts ∨
      ∃ (k : ℕ) (y : ℚ), (x.found l ts)[k]? = some y ∧ |y - 1| ≤ ε + (k + 1) * l.slack ∧
        (answers (take l) b ts).take k = (answers (ExactBucket.take l) x ts).take k := by
  induction ts generalizing b x ε with
  | nil => exact .inl rfl
  | cons t ts ih =>
    -- with each call the distance `ε` grows by the slack, and what may be close by as much
    obtain ⟨hfirst, hrest⟩ := List.pairwise_cons.mp hsorted
    have hle := hfirst t List.mem_cons_self
    have hrefill := h.refill (t := t) hperiod
      (h.refilledAt ▸ hspan t List.mem_cons_self)
    rcases le_or_gt |(x.refill l t).balance - 1| (ε + l.slack) with hclose | hclear
    · exact .inr ⟨0, _, rfl, by simpa using hclose, rfl⟩
    obtain ⟨hanswer, htracks⟩ := hrefill.take hclear
    have hlater : (x.take l t).2.refilledAt = t := ExactBucket.take_refilledAt
    have hspan' : ∀ u ∈ ts, u - (x.take l t).2.refilledAt ≤ maxNanos := by
      intro u hu
      have := hspan u (List.mem_cons_of_mem _ hu)
      omega
    rw [answers, answers, hanswer, ExactBucket.found]
    rcases ih htracks (by rwa [hlater]) hspan' with heq | ⟨k, y, hk, hy, heq⟩
    · exact .inl (congrArg _ heq)
    · refine .inr ⟨k + 1, y, hk, ?_, congrArg (List.cons _) heq⟩
      push_cast
      linarith

/-- **The token bucket answers as promised**, up to a call that finds just about one token. -/
theorem answers_full_eq_or_close {ts : List ℕ} (hl : (Layer.rateLimit l).fault? = none)
    (hsorted : (t :: ts).Pairwise (· ≤ ·)) (hspan : ∀ u ∈ ts, u - t ≤ maxNanos) :
    answers (take l) (full l t) ts = answers (ExactBucket.take l) (.full l t) ts ∨
      ∃ (k : ℕ) (y : ℚ), (ExactBucket.found l (.full l t) ts)[k]? = some y ∧
        |y - 1| ≤ (k + 1) * l.slack ∧
        (answers (take l) (full l t) ts).take k =
          (answers (ExactBucket.take l) (.full l t) ts).take k := by
  simpa using answers_eq_or_close (tracks_full l t) (RateLimit.period_pos hl) hsorted hspan

/-- The answers are those of a bucket that does not round if no call finds just about one
token. -/
theorem answers_full_eq {ts : List ℕ} (hl : (Layer.rateLimit l).fault? = none)
    (hsorted : (t :: ts).Pairwise (· ≤ ·)) (hspan : ∀ u ∈ ts, u - t ≤ maxNanos)
    (hclear : ∀ (k : ℕ) (y : ℚ), (ExactBucket.found l (.full l t) ts)[k]? = some y →
      (k + 1) * l.slack < |y - 1|) :
    answers (take l) (full l t) ts = answers (ExactBucket.take l) (.full l t) ts := by
  rcases answers_full_eq_or_close hl hsorted hspan with heq | ⟨k, y, hk, hy, -⟩
  · exact heq
  · exact absurd hy (not_le.mpr (hclear k y hk))

/-- It takes a call that finds exactly one token to see the rounding. A tenth of a token and
nine tenths of one, added up at two arrivals, fall short of it, so a refused call makes a
difference to the next one. -/
example :
    let l : RateLimit := ⟨10, .ofMillis 1000, some 1⟩
    answers (ExactBucket.take l) (.full l 0) [0, 10000000, 100000000] = [true, false, true] ∧
      answers (take l) (full l 0) [0, 10000000, 100000000] = [true, false, false] ∧
      answers (take l) (full l 0) [0, 100000000] = [true, true] := by
  decide +kernel

end Bucket

end CallPolicy
