/-
Why a call failed.

A call is refused by one of its policy's gates, runs into a deadline, is
cancelled, uses up its attempts, or fails in the operation itself. Only
`exhausted` contains another failure, so a failure is a `base` under a number
of layers of spent attempts:

* **`wrap_base_attempts`** — a failure is its base wrapped in its list of
  attempt counts, innermost first.

The views (`tag`, `operation?`, `intoOperation?`, `causes`, `message`) look through the
layers; `isRejection` looks at the outermost one only.
-/
import CallPolicy.Text.Shape

namespace CallPolicy

open Text

/-- Whether trying again may help. -/
inductive Tag
  | transient
  | permanent
deriving DecidableEq

namespace Tag

/-- The label of a tag. -/
def label : Tag → String
  | transient => "transient"
  | permanent => "permanent"

/-- The tag with a given label. -/
def ofLabel? : String → Option Tag
  | "transient" => some transient
  | "permanent" => some permanent
  | _ => none

/-- The outline of a tag. -/
def shape : Tag → Shape
  | transient => .word "Transient"
  | permanent => .word "Permanent"

end Tag

/-- Why a call failed. -/
inductive Failure
  /-- The circuit breaker refused the call. -/
  | circuitOpen
  /-- Every slot of the bulkhead was taken. -/
  | bulkheadFull
  /-- The rate limit had no token left. -/
  | rateLimited
  /-- A deadline passed first. -/
  | timeout
  /-- The governing token was cancelled. -/
  | cancelled
  /-- All attempts were spent; `last` is the failure of the last one. -/
  | exhausted (attempts : Nat) (last : Failure)
  /-- The operation failed by itself, with or without a tag. -/
  | operation (error : String) (tag : Option Tag)
deriving DecidableEq

/-- What a call ends with: a text, or a failure. -/
abbrev Result := Except Failure String

instance : DecidableEq Result
  | .ok a, .ok b => decidable_of_iff (a = b) (by simp)
  | .error a, .error b => decidable_of_iff (a = b) (by simp)
  | .ok _, .error _ => isFalse nofun
  | .error _, .ok _ => isFalse nofun

/-- The seven sorts of failure. -/
inductive FailureKind
  | circuitOpen
  | bulkheadFull
  | rateLimited
  | timeout
  | cancelled
  | exhausted
  | operation
deriving DecidableEq

namespace FailureKind

/-- Every sort of failure. -/
def all : List FailureKind :=
  [circuitOpen, bulkheadFull, rateLimited, timeout, cancelled, exhausted, operation]

/-- The name of a sort. -/
def name : FailureKind → String
  | circuitOpen => "CircuitOpen"
  | bulkheadFull => "BulkheadFull"
  | rateLimited => "RateLimited"
  | timeout => "Timeout"
  | cancelled => "Cancelled"
  | exhausted => "RetriesExhausted"
  | operation => "Operation"

/-- The sort with a given name. -/
def ofName? (name : String) : Option FailureKind := all.find? (·.name = name)

end FailureKind

/-- The words of an operation's own error, where nothing else is said. -/
def operationMessage (error : String) : String := "op failed: " ++ error

namespace Failure

/-- The sort of the outermost layer. -/
def kind : Failure → FailureKind
  | circuitOpen => .circuitOpen
  | bulkheadFull => .bulkheadFull
  | rateLimited => .rateLimited
  | timeout => .timeout
  | cancelled => .cancelled
  | exhausted .. => .exhausted
  | operation .. => .operation

/-- The failure under all layers of spent attempts. -/
def base : Failure → Failure
  | exhausted _ last => last.base
  | f => f

/-- The attempt counts of the layers, innermost first. -/
def attemptCounts : Failure → List Nat
  | exhausted n last => last.attemptCounts ++ [n]
  | _ => []

/-- A failure inside one layer per attempt count, the first one innermost. -/
def wrap (f : Failure) (counts : List Nat) : Failure :=
  counts.foldl (fun inner n => exhausted n inner) f

theorem wrap_base_attempts (f : Failure) : f.base.wrap f.attemptCounts = f := by
  induction f with
  | exhausted n last ih => simp [base, attemptCounts, wrap, List.foldl_append] at ih ⊢; exact ih
  | _ => rfl

/-- May trying again help? Only an operation's own tag can say no. -/
def tag : Failure → Tag
  | operation _ (some t) => t
  | exhausted _ last => last.tag
  | _ => .transient

/-- Is a further attempt ruled out? -/
def isPermanent (f : Failure) : Bool := f.tag = .permanent

/-- Is a further attempt worthwhile? -/
def isTransient (f : Failure) : Bool := f.tag = .transient

/-- Was the call refused by a gate of its policy? -/
def isRejection : Failure → Bool
  | circuitOpen | bulkheadFull | rateLimited => true
  | _ => false

/-- The operation's own error under all layers. -/
def operation? : Failure → Option String
  | operation error _ => some error
  | exhausted _ last => last.operation?
  | _ => none

/-- Gives a failure up for the operation's own error: the layers are taken off one by one. -/
def intoOperation? : Failure → Option String
  | operation error _ => some error
  | exhausted _ last => last.intoOperation?
  | _ => none

/-- A failure in words, an operation's own error in those that `display` has for it. -/
def message (f : Failure) (display : String → String := operationMessage) : String :=
  match f with
  | circuitOpen => "circuit breaker is open"
  | bulkheadFull => "bulkhead is full"
  | rateLimited => "rate limit exceeded"
  | timeout => "deadline exceeded"
  | cancelled => "call cancelled"
  | exhausted n last =>
    "retries exhausted after " ++ toString n ++ " attempts: " ++ last.message display
  | operation error _ => display error

/-- A link in a chain of causes: another failure, or the operation's own error. -/
inductive Cause
  | failure (f : Failure)
  | error (text : String)
deriving DecidableEq

/-- A cause in words. -/
def Cause.message (c : Cause) (display : String → String := operationMessage) : String :=
  match c with
  | .failure f => f.message display
  | .error text => display text

/-- What lies directly behind a failure. -/
def cause? : Failure → Option Cause
  | exhausted _ last => some (.failure last)
  | operation error _ => some (.error error)
  | _ => none

/-- All that lies behind a failure, the nearest cause first. -/
def causes : Failure → List Cause
  | exhausted _ last => .failure last :: last.causes
  | operation error _ => [.error error]
  | _ => []

/-- The outline of a failure. -/
def shape : Failure → Shape
  | exhausted n last => .fields "RetriesExhausted" [("attempts", .number n), ("last", last.shape)]
  | operation error tag =>
    .fields "Operation"
      [("error", .applied "OpError" [.quoted error]), ("class", .optional (tag.map Tag.shape))]
  | f => .word f.kind.name

end Failure

end CallPolicy
