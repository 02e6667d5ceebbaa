/-
Spans of time in whole nanoseconds.

A span has at most `2^64` seconds, the last nanosecond excluded; every
operation saturates there instead of overflowing, so a `Duration` is a number
of nanoseconds together with its bound:

* **`Duration.nanos_ofNanos`** — the span of `n` nanoseconds has
  `min n maxNanos` of them;
* **`Duration.nanos_scale`** — a multiple is the exact product, saturated.

Two conversions leave the integers. `Duration.seconds` is the binary64 number
of seconds, computed from the whole seconds and the remainder separately, and
`Duration.ofSeconds?` goes back, to the nearest nanosecond.
-/

namespace CallPolicy

/-- The longest span, in nanoseconds: `2^64` seconds less one nanosecond. -/
def maxNanos : Nat := UInt64.size * 1000000000 - 1

/-- A span of time. -/
structure Duration where
  /-- Its length in nanoseconds. -/
  nanos : Nat
  le_max : nanos ≤ maxNanos
deriving DecidableEq

namespace Duration

/-- The span of `n` nanoseconds, or the longest one. -/
def ofNanos (n : Nat) : Duration := ⟨min n maxNanos, Nat.min_le_right ..⟩

@[simp] theorem nanos_ofNanos (n : Nat) : (ofNanos n).nanos = min n maxNanos := rfl

/-- The empty span. -/
def zero : Duration := ofNanos 0

/-- The longest span. -/
def max : Duration := ofNanos maxNanos

@[simp] theorem nanos_zero : zero.nanos = 0 := rfl

@[simp] theorem nanos_max : max.nanos = maxNanos := by simp [max]

/-- The span of `n` milliseconds. -/
def ofMillis (n : Nat) : Duration := ofNanos (n * 1000000)

/-- The span of `s` seconds and `n` nanoseconds. -/
def ofParts (s n : Nat) : Duration := ofNanos (s * 1000000000 + n)

/-- Whole seconds. -/
def wholeSeconds (d : Duration) : Nat := d.nanos / 1000000000

/-- What is left after the whole seconds, in nanoseconds. -/
def remainder (d : Duration) : Nat := d.nanos % 1000000000

/-- The `k`-fold span. -/
def scale (d : Duration) (k : Nat) : Duration := ofNanos (d.nanos * k)

@[simp] theorem nanos_scale (d : Duration) (k : Nat) :
    (d.scale k).nanos = min (d.nanos * k) maxNanos := rfl

/-- The shorter of two spans. -/
def shorter (d e : Duration) : Duration := if d.nanos ≤ e.nanos then d else e

@[simp] theorem nanos_shorter (d e : Duration) :
    (d.shorter e).nanos = min d.nanos e.nanos := by
  unfold shorter; split <;> omega

/-- The span one nanosecond shorter; the empty span stays empty. -/
def pred (d : Duration) : Duration := ⟨d.nanos - 1, by have := d.le_max; omega⟩

@[simp] theorem nanos_pred (d : Duration) : d.pred.nanos = d.nanos - 1 := rfl

/-- The number of seconds as a binary64 number: whole seconds and remainder are
converted separately and added. -/
def seconds (d : Duration) : Float :=
  d.wholeSeconds.toUInt64.toFloat + d.remainder.toUInt64.toFloat / (1000000000 : UInt64).toFloat

/-- The quotient rounded to the nearest natural number, a tie to the even one. -/
def roundDiv (num den : Nat) : Nat :=
  let q := num / den
  let twice := 2 * (num % den)
  if twice < den then q else if den < twice then q + 1 else q + q % 2

/-- The span nearest to a number of seconds; none below zero, from `2^64`
seconds on, or for what is no number. A finite binary64 number is `m * 2^e`
with the significand `m` and the exponent `e` read off its bits. -/
def ofSeconds? (x : Float) : Option Duration :=
  let bits := x.toBits.toNat
  let field := (bits >>> 52) % 2048
  let fraction := bits % (1 <<< 52)
  let m := if field = 0 then fraction else (1 <<< 52) + fraction
  if field = 2047 then none
  else if bits >>> 63 = 1 ∧ m ≠ 0 then none
  else
    -- The number is `num / 2^1075`.
    let num := m <<< Nat.max field 1
    let den := 1 <<< 1075
    if UInt64.size * den ≤ num then none
    else some (ofNanos (roundDiv (num * 1000000000) den))

/-- The digits of `n < 10 ^ width` after a point, without trailing zeros, and no
point when none is left. -/
def fractionText (n width : Nat) : String :=
  let digits := (Nat.toDigits 10 n)
  let padded := List.replicate (width - digits.length) '0' ++ digits
  match (padded.reverse.dropWhile (· = '0')).reverse with
  | [] => ""
  | shown => String.ofList ('.' :: shown)

/-- A span in the largest of the units `s`, `ms`, `µs`, `ns` in which it is at
least one, exact to the nanosecond. -/
def text (d : Duration) : String :=
  let n := d.nanos
  if 1000000000 ≤ n then toString (n / 1000000000) ++ fractionText (n % 1000000000) 9 ++ "s"
  else if 1000000 ≤ n then toString (n / 1000000) ++ fractionText (n % 1000000) 6 ++ "ms"
  else if 1000 ≤ n then toString (n / 1000) ++ fractionText (n % 1000) 3 ++ "µs"
  else toString n ++ "ns"

end Duration

end CallPolicy
