/-
What happens to the calls of a policy.

An `Event` is one step in the life of a call that the policy tells about. Most
events have a hook of their own, which whoever sets up the policy may install;
a refusal by an open breaker and an expired attempt are told to no hook.
-/
import CallPolicy.Gate.Breaker

namespace CallPolicy

open Text

/-- The places where a policy can be listened to. -/
inductive Hook
  | retry
  | circuitOpen
  | circuitHalfOpen
  | circuitClose
  | rateLimited
  | bulkheadFull
  | bulkheadAcquired
  | bulkheadReleased
  | timeout
  | hedgeTriggered
  | hedgeWon
  | fallbackUsed
deriving DecidableEq

namespace Hook

/-- Every hook. -/
def all : List Hook :=
  [retry, circuitOpen, circuitHalfOpen, circuitClose, rateLimited, bulkheadFull,
   bulkheadAcquired, bulkheadReleased, timeout, hedgeTriggered, hedgeWon, fallbackUsed]

/-- The name of a hook. -/
def name : Hook → String
  | retry => "retry"
  | circuitOpen => "circuit_open"
  | circuitHalfOpen => "circuit_half_open"
  | circuitClose => "circuit_close"
  | rateLimited => "rate_limited"
  | bulkheadFull => "bulkhead_full"
  | bulkheadAcquired => "bulkhead_acquired"
  | bulkheadReleased => "bulkhead_released"
  | timeout => "timeout"
  | hedgeTriggered => "hedge_triggered"
  | hedgeWon => "hedge_won"
  | fallbackUsed => "fallback_used"

/-- The hook with a given name. -/
def ofName? (name : String) : Option Hook := all.find? (·.name = name)

end Hook

/-- The hooks installed on a policy. -/
structure Hooks where
  installed : List Hook
  /-- Hooks that cancel a named token when they are told of an event. -/
  cancels : List (Hook × String)
deriving DecidableEq

namespace Hooks

/-- No hook at all. -/
def none : Hooks := ⟨[], []⟩

/-- Is the hook installed? -/
def has (hs : Hooks) (h : Hook) : Bool := hs.installed.contains h

/-- The name of the token that an installed hook cancels. -/
def cancelled? (hs : Hooks) (h : Hook) : Option String :=
  if hs.has h then hs.cancels.lookup h else .none

/-- The outline of a set of hooks: which of them are installed. -/
def shape (hs : Hooks) : Shape :=
  .fields "Hooks" (Hook.all.map fun h => ("on_" ++ h.name, .truth (hs.has h)))

end Hooks

/-- One step in the life of a call. -/
inductive Event
  /-- An attempt failed and another one follows. -/
  | retrying (attempt : Nat) (cause : Failure)
  | circuitOpened
  | circuitHalfOpened
  | circuitClosed
  /-- The breaker refused the call. -/
  | circuitRefused
  /-- The rate limit refused the call. -/
  | rateLimited
  /-- The bulkhead refused the call. -/
  | bulkheadFull
  /-- The call took a slot of the bulkhead. -/
  | slotTaken
  /-- The call gave its slot back. -/
  | slotReleased
  /-- The deadline of the whole call passed. -/
  | timedOut (after : Duration)
  /-- The deadline of one attempt passed. -/
  | attemptTimedOut (attempt : Nat) (after : Duration)
  /-- A second attempt was launched beside a slow one. -/
  | hedgeLaunched (delay : Duration)
  /-- The second attempt came in first. -/
  | hedgeWon
  /-- A fixed value took the place of a failure. -/
  | fellBack (cause : Failure)
deriving DecidableEq

/-- What is told when a breaker reaches a state. -/
def BreakerState.news : BreakerState → Event
  | closed => .circuitClosed
  | .open => .circuitOpened
  | halfOpen => .circuitHalfOpened

/-- The hook that is told of an event. -/
def Event.hook? : Event → Option Hook
  | retrying .. => some .retry
  | circuitOpened => some .circuitOpen
  | circuitHalfOpened => some .circuitHalfOpen
  | circuitClosed => some .circuitClose
  | circuitRefused => none
  | rateLimited => some .rateLimited
  | bulkheadFull => some .bulkheadFull
  | slotTaken => some .bulkheadAcquired
  | slotReleased => some .bulkheadReleased
  | timedOut _ => some .timeout
  | attemptTimedOut .. => none
  | hedgeLaunched _ => some .hedgeTriggered
  | hedgeWon => some .hedgeWon
  | fellBack _ => some .fallbackUsed

end CallPolicy
