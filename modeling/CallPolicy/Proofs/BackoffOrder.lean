/-
How delays compare with one another.

A strategy without draws never waits less after a later attempt, nor for a longer base, on
both sides of the boundaries where the 32-bit factor ends and where the span saturates:

* **`nanos_delay_le_of_index_le`** — later attempts;
* **`nanos_delay_le_of_base_le`** — longer bases.

A random strategy stays one nanosecond below its bound at least, whatever was drawn and
however the product with the draw was rounded (**`nanos_drawBelow_le`**).
-/
import CallPolicy.Proofs.BackoffDelays

namespace CallPolicy.Backoff

variable {base base' cap : Duration} {i j : Nat}

/-! ### Strategies without draws -/

/-- More steps of a longer span take longer. -/
theorem nanos_scale_le {k l : Nat} (hbase : base.nanos ≤ base'.nanos) (h : k ≤ l) :
    (base.scale k).nanos ≤ (base'.scale l).nanos := by
  have hproduct : base.nanos * k ≤ base'.nanos * l := Nat.mul_le_mul hbase h
  simp only [Duration.nanos_scale]
  omega

theorem nanos_doubled_le (hbase : base.nanos ≤ base'.nanos) (h : i ≤ j) :
    (doubled base i).nanos ≤ (doubled base' j).nanos := by
  by_cases hj : j < 32
  · -- both factors exist
    have hpow : 2 ^ i ≤ 2 ^ j := Nat.pow_le_pow_right (by omega) h
    have hproduct : base.nanos * 2 ^ i ≤ base'.nanos * 2 ^ j := Nat.mul_le_mul hbase hpow
    rw [nanos_doubled_of_lt base i (by omega), nanos_doubled_of_lt base' j hj]
    omega
  · rw [doubled_of_le base' j (by omega), Duration.nanos_max]
    exact (doubled base i).le_max

/-- The same strategy with a longer base, after a later attempt, waits no less. -/
theorem nanos_delay_le {b b' : Backoff} (hname : b.name = b'.name) (hb : b.isRandom = false)
    (hbase : b.base.nanos ≤ b'.base.nanos) (h : i ≤ j) (draw draw' : Float) :
    (b.delay i draw).nanos ≤ (b'.delay j draw').nanos := by
  cases b with
  | constant d =>
    cases b' with
    | constant d' => exact hbase
    | _ => simp [name] at hname
  | linear d =>
    cases b' with
    | linear d' => exact nanos_scale_le hbase (by omega)
    | _ => simp [name] at hname
  | exponential d =>
    cases b' with
    | exponential d' => exact nanos_doubled_le hbase h
    | _ => simp [name] at hname
  | jitter d => cases hb

/-- After a later attempt the delay is no shorter. -/
theorem nanos_delay_le_of_index_le {b : Backoff} (hb : b.isRandom = false) (h : i ≤ j)
    (draw draw' : Float) : (b.delay i draw).nanos ≤ (b.delay j draw').nanos :=
  nanos_delay_le rfl hb (Nat.le_refl _) h draw draw'

/-- For a longer base the delay is no shorter. -/
theorem nanos_delay_le_of_base_le {b b' : Backoff} (hname : b.name = b'.name)
    (hb : b.isRandom = false) (hbase : b.base.nanos ≤ b'.base.nanos) (i : Nat) (draw : Float) :
    (b.delay i draw).nanos ≤ (b'.delay i draw).nanos :=
  nanos_delay_le hname hb hbase (Nat.le_refl i) draw draw

/-! ### The random strategy -/

/-- Whether or not the product can be converted, and whatever it is rounded to, a draw picks
a delay of at most one nanosecond less than the bound. -/
theorem nanos_drawBelow_le (cap : Duration) (draw : Float) :
    (drawBelow cap draw).nanos ≤ cap.nanos - 1 := by
  unfold drawBelow
  split
  · rw [Duration.nanos_shorter, Duration.nanos_pred]
    exact Nat.min_le_right _ _
  · exact Nat.le_of_eq (Duration.nanos_pred cap)

/-- **Delays never shrink, and random ones stay below their bound.** Without draws, a later
attempt or a longer base makes the delay no shorter, and no delay is longer than the longest
span. With draws, whatever is drawn, the delay is below that of the exponential strategy with the
same base if that is any at all, and there is none if there is none. -/
theorem delays_never_shrink :
    (∀ {b : Backoff}, b.isRandom = false → ∀ {i j : Nat}, i ≤ j → ∀ draw draw' : Float,
      (b.delay i draw).nanos ≤ (b.delay j draw').nanos ∧
        (b.delay j draw').nanos ≤ Duration.max.nanos) ∧
    (∀ {b b' : Backoff}, b.name = b'.name → b.isRandom = false → b.base.nanos ≤ b'.base.nanos →
      ∀ (i : Nat) (draw : Float), (b.delay i draw).nanos ≤ (b'.delay i draw).nanos) ∧
    ∀ (base : Duration) (i : Nat) (draw draw' : Float),
      let cap := (exponential base).delay i draw'
      (cap ≠ .zero → ((jitter base).delay i draw).nanos < cap.nanos) ∧
        (cap = .zero → (jitter base).delay i draw = .zero) := by
  refine ⟨fun {b} hb {i j} h draw draw' => ⟨nanos_delay_le_of_index_le hb h draw draw', ?_⟩,
    fun {b b'} hname hb hbase i draw => nanos_delay_le_of_base_le hname hb hbase i draw,
    fun base i draw draw' => ?_⟩
  · rw [Duration.nanos_max]
    exact (b.delay j draw').le_max
  · -- the bound of the random strategy is the delay of the exponential one
    have hbelow : ((jitter base).delay i draw).nanos ≤
        ((exponential base).delay i draw').nanos - 1 := nanos_drawBelow_le _ draw
    dsimp only
    constructor
    · intro hcap
      rw [ne_eq, Duration.eq_zero_iff] at hcap
      omega
    · intro hcap
      rw [Duration.eq_zero_iff] at hcap ⊢
      omega

/-- Three nanoseconds doubled, on both sides of the last factor that exists, and below four
nanoseconds doubled; and the largest draw there is, whose product with three nanoseconds is
rounded up to all of them. -/
theorem delays_never_shrink_past_factor :
    let three : Duration := .ofNanos 3
    let four : Duration := .ofNanos 4
    let draw : Float := 0.9999999999999999
    ((exponential three).delay 31 0).nanos = 6442450944 ∧
    ((exponential three).delay 31 0).nanos ≤ ((exponential three).delay 32 0).nanos ∧
    ((exponential three).delay 31 0).nanos ≤ ((exponential four).delay 31 0).nanos ∧
    Duration.ofSeconds? (three.seconds * draw) = some three ∧
    (exponential three).delay 0 0 ≠ .zero ∧
    ((jitter three).delay 0 draw).nanos < ((exponential three).delay 0 0).nanos := by
  intro three four draw
  obtain ⟨hindex, hbase, hjitter⟩ := delays_never_shrink
  have hne : (exponential three).delay 0 0 ≠ .zero := by decide
  exact ⟨by decide, (hindex (b := exponential three) rfl (by decide) 0 0).1,
    @hbase (exponential three) (exponential four) rfl rfl (by decide) 31 0,
    by decide +kernel, hne, (hjitter three 0 draw 0).1 hne⟩

end CallPolicy.Backoff
