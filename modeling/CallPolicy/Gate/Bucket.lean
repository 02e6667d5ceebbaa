/-
The token bucket.

A bucket holds up to `capacity` tokens and starts full. Tokens flow in all the
time, `rate` of them per `period`; a call takes one, or is refused when there
is not a whole one left. Nobody waits.

The balance is a binary64 number. It is brought up to date when a call
arrives, whether or not the call gets a token, so every arrival rounds:

    balance := min (balance + seconds elapsed * (rate / seconds period)) capacity
-/
import CallPolicy.Duration
import CallPolicy.Text.Shape

namespace CallPolicy

open Text

/-- The settings of a rate limit. -/
structure RateLimit where
  /-- Tokens that flow in per period. -/
  rate : UInt32
  period : Duration
  /-- The capacity, if it differs from the rate. -/
  burst : Option UInt32
deriving DecidableEq

namespace RateLimit

/-- How many tokens the bucket can hold. -/
def capacity (l : RateLimit) : UInt32 := l.burst.getD l.rate

/-- The capacity as a balance. -/
def fullBalance (l : RateLimit) : Float := l.capacity.toFloat

/-- Tokens that flow in per second. -/
def perSecond (l : RateLimit) : Float := l.rate.toFloat / l.period.seconds

/-- The outline of a rate limit. -/
def shape (l : RateLimit) : Shape :=
  .fields "RateLimitConfig"
    [("rate", .number l.rate.toNat), ("period", .word l.period.text),
     ("burst", .optional (l.burst.map fun n => .number n.toNat))]

end RateLimit

/-- A token bucket. -/
structure Bucket where
  /-- The tokens in it, fractions included. -/
  balance : Float
  /-- When the balance was last brought up to date. -/
  refilledAt : Nat

namespace Bucket

/-- A full bucket. -/
def full (l : RateLimit) (now : Nat) : Bucket := ⟨l.fullBalance, now⟩

/-- The smaller of two numbers that can be compared, and `y` if they cannot. -/
def least (x y : Float) : Float := if x < y then x else y

/-- The balance brought up to the instant `now`. -/
def refill (l : RateLimit) (now : Nat) (b : Bucket) : Bucket :=
  let elapsed := (Duration.ofNanos (now - b.refilledAt)).seconds
  ⟨least (b.balance + elapsed * l.perSecond) l.fullBalance, now⟩

/-- A call arrives at the instant `now`: does it get a token? -/
def take (l : RateLimit) (now : Nat) (b : Bucket) : Bool × Bucket :=
  let b := b.refill l now
  let one := (1 : UInt32).toFloat
  if one ≤ b.balance then (true, { b with balance := b.balance - one }) else (false, b)

end Bucket

end CallPolicy
