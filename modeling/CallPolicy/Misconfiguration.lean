/-
What can be wrong with a policy's settings.

`Misconfiguration.message` words each fault and `Misconfiguration.shape`
outlines it; which fault is reported for given settings is decided where
policies are built.
-/
import CallPolicy.Text.Shape

namespace CallPolicy

open Text

/-- A fault in a policy's settings. -/
inductive Misconfiguration
  /-- The name is blank. -/
  | emptyName
  /-- Not even one attempt is allowed. -/
  | zeroAttempts
  /-- The bulkhead has no slot. -/
  | zeroCapacity
  /-- The bulkhead has more slots than can be counted. -/
  | capacityTooLarge (capacity max : Nat)
  /-- The rate limit admits no call. -/
  | zeroRate
  /-- The breaker would open without a failure. -/
  | zeroFailureThreshold
  /-- A half-open breaker would admit no probe. -/
  | zeroProbes
  /-- A span that has to be positive is empty. -/
  | zeroDuration (setting : String)
  /-- No backoff strategy has this name. -/
  | unknownBackoff (name : String)
deriving DecidableEq

namespace Misconfiguration

/-- The name of a sort of fault. -/
def name : Misconfiguration → String
  | emptyName => "EmptyName"
  | zeroAttempts => "ZeroAttempts"
  | zeroCapacity => "ZeroCapacity"
  | capacityTooLarge .. => "CapacityTooLarge"
  | zeroRate => "ZeroRate"
  | zeroFailureThreshold => "ZeroFailureThreshold"
  | zeroProbes => "ZeroHalfOpenAttempts"
  | zeroDuration _ => "ZeroDuration"
  | unknownBackoff _ => "UnknownBackoff"

/-- A fault in words. -/
def message : Misconfiguration → String
  | emptyName => "policy name must not be empty"
  | zeroAttempts => "retry max attempts must be at least 1"
  | zeroCapacity => "bulkhead capacity must be at least 1"
  | capacityTooLarge capacity max =>
    "bulkhead capacity " ++ toString capacity ++ " exceeds the maximum of " ++ toString max
  | zeroRate => "rate limit must admit at least 1 call per period"
  | zeroFailureThreshold => "circuit breaker failure threshold must be at least 1"
  | zeroProbes => "circuit breaker half-open max attempts must be at least 1"
  | zeroDuration setting => setting ++ " must be greater than zero"
  | unknownBackoff name => "unknown backoff strategy \x60" ++ name ++ "\x60"

/-- The outline of a fault. -/
def shape : Misconfiguration → Shape
  | capacityTooLarge capacity max =>
    .fields "CapacityTooLarge" [("capacity", .number capacity), ("max", .number max)]
  | zeroDuration setting => .applied "ZeroDuration" [.quoted setting]
  | unknownBackoff name => .applied "UnknownBackoff" [.quoted name]
  | fault => .word fault.name

end Misconfiguration

end CallPolicy
