/-
What the outside gets to see.

Every event is written to a log, as a message of some severity with named
fields, before the hook that listens to it is told. `PolicyState` is what a
policy tells about itself at any time.
-/
import CallPolicy.Simulation

namespace CallPolicy

open Text

/-- How much a log record matters. -/
inductive Severity
  | trace
  | debug
  | info
  | warn
deriving DecidableEq

/-- The label of a severity. -/
def Severity.label : Severity → String
  | trace => "trace"
  | debug => "debug"
  | info => "info"
  | warn => "warn"

/-- The value of a field of a log record. -/
inductive LogValue
  | number (n : Nat)
  | text (s : String)
deriving DecidableEq

/-- A log record. -/
structure LogRecord where
  severity : Severity
  message : String
  fields : List (String × LogValue)
deriving DecidableEq

/-- The log record of an event in the policy of a given name. -/
def Event.log (policy : String) (e : Event) : LogRecord :=
  let record := fun severity message fields =>
    LogRecord.mk severity message (("policy", .text policy) :: fields)
  match e with
  | .retrying attempt cause =>
    record .debug "attempt failed, retrying"
      [("attempt", .number attempt), ("error", .text cause.message)]
  | .circuitOpened => record .warn "circuit breaker opened" []
  | .circuitHalfOpened => record .info "circuit breaker half-open, admitting probes" []
  | .circuitClosed => record .info "circuit breaker closed" []
  | .circuitRefused => record .debug "call rejected, circuit open" []
  | .rateLimited => record .debug "call rejected, rate limit exceeded" []
  | .bulkheadFull => record .debug "call rejected, bulkhead full" []
  | .slotTaken => record .trace "bulkhead slot acquired" []
  | .slotReleased => record .trace "bulkhead slot released" []
  | .timedOut after => record .warn "call timed out" [("timeout", .text after.text)]
  | .attemptTimedOut attempt after =>
    record .debug "attempt timed out"
      [("attempt", .number attempt), ("timeout", .text after.text)]
  | .hedgeLaunched delay => record .debug "launching hedge attempt" [("delay", .text delay.text)]
  | .hedgeWon => record .debug "hedge attempt won" []
  | .fellBack cause => record .info "returning fallback value" [("error", .text cause.message)]

/-- The hook that is told of an event in a policy, if it is installed there. -/
def Origin.told? (o : Origin) (e : Event) : Option Hook := e.hook?.filter o.hooks.has

/-- The log record of a policy that was built. -/
def builtLog (name : String) (layers : List LayerKind) : LogRecord :=
  ⟨.debug, "policy built",
    [("policy", .text name),
     ("layers", .text (Shape.items (layers.map fun k => .word k.name)).render)]⟩

/-- The label of an ending: that of the failure, if it is one. -/
def Ending.label : Ending → String
  | .returned (.ok _) => "ok"
  | .returned (.error f) => f.kind.name
  | .panicked _ => "panic"

/-- What a policy tells about itself. -/
structure PolicyState where
  /-- Its breaker, if it has one. -/
  breaker : Option Breaker
  /-- The calls that hold a slot, if it has a bulkhead. -/
  inFlight : Option Nat
  health : Health

/-- What a policy tells about itself at present. -/
def Policy.state (p : Policy) (w : World) : PolicyState :=
  let gates := w.gates p.origin.key
  { breaker := if p.has .breaker then some gates.breaker else none
    inFlight := if p.has .bulkhead then some gates.occupied else none
    health := p.reporter.health w.gates }

/-- The entries that a later world has beyond an earlier one, the first one
first. -/
def World.entriesSince (before after : World) : List Entry :=
  (after.trace.take (after.trace.length - before.trace.length)).reverse

end CallPolicy
