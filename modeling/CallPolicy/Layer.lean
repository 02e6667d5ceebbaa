/-
The seven layers of a policy and their order.

A layer is a setting of one of seven kinds, and `Layer.apply` puts it around an
operation. However a policy is described, its layers are nested in the order
of `LayerKind.all`, the first one outermost; `stack` puts a list of layers
around an operation:

* **`stack_append`** — stacking two lists one inside the other is stacking
  their concatenation.

`Layer.fault?` says what is wrong with a layer's setting.
-/
import CallPolicy.Layer.Admission
import CallPolicy.Layer.Ending
import CallPolicy.Layer.Retry
import CallPolicy.Layer.Hedge
import CallPolicy.Misconfiguration

namespace CallPolicy

/-- The kinds of layers. -/
inductive LayerKind
  | fallback
  | timeout
  | breaker
  | rateLimit
  | bulkhead
  | retry
  | hedge
deriving DecidableEq

namespace LayerKind

/-- Every kind, the outermost first. -/
def all : List LayerKind := [fallback, timeout, breaker, rateLimit, bulkhead, retry, hedge]

/-- The position of a kind from the outside. -/
def position : LayerKind → Nat
  | fallback => 0
  | timeout => 1
  | breaker => 2
  | rateLimit => 3
  | bulkhead => 4
  | retry => 5
  | hedge => 6

/-- The order of kinds: outer ones come first. -/
def order (k l : LayerKind) : Ordering := compare k.position l.position

/-- The name of a kind. -/
def name : LayerKind → String
  | fallback => "Fallback"
  | timeout => "Timeout"
  | breaker => "CircuitBreaker"
  | rateLimit => "RateLimit"
  | bulkhead => "Bulkhead"
  | retry => "Retry"
  | hedge => "Hedge"

/-- The kind with a given name. -/
def ofName? (name : String) : Option LayerKind := all.find? (·.name = name)

/-- The label of a kind. -/
def label : LayerKind → String
  | fallback => "fallback"
  | timeout => "timeout"
  | breaker => "circuit-breaker"
  | rateLimit => "rate-limit"
  | bulkhead => "bulkhead"
  | retry => "retry"
  | hedge => "hedge"

theorem pairwise_position_all : all.Pairwise fun k l => k.position < l.position := by decide

theorem mem_all (k : LayerKind) : k ∈ all := by cases k <;> decide

end LayerKind

/-- One layer with its setting. -/
inductive Layer
  | fallback (value : String)
  | timeout (length : Duration)
  | breaker (settings : BreakerSettings)
  | rateLimit (limit : RateLimit)
  | bulkhead (capacity : Nat)
  | retry (settings : RetrySettings)
  | hedge (delay : Duration)

/-- The largest number of slots that a bulkhead can have. -/
def maxCapacity : Nat := 2305843009213693951

namespace Layer

/-- The kind of a layer. -/
def kind : Layer → LayerKind
  | fallback _ => .fallback
  | timeout _ => .timeout
  | breaker _ => .breaker
  | rateLimit _ => .rateLimit
  | bulkhead _ => .bulkhead
  | retry _ => .retry
  | hedge _ => .hedge

/-- The fault of a span that has to be positive. -/
def emptySpan? (setting : String) (d : Duration) : Option Misconfiguration :=
  if d.nanos = 0 then some (.zeroDuration setting) else none

/-- The first thing wrong with a layer's setting. -/
def fault? : Layer → Option Misconfiguration
  | fallback _ => none
  | timeout length => emptySpan? "timeout" length
  | breaker s =>
    if s.failureThreshold = 0 then some .zeroFailureThreshold
    else if s.probes = 0 then some .zeroProbes
    else none
  | rateLimit l =>
    if l.rate = 0 ∨ l.capacity = 0 then some .zeroRate
    else emptySpan? "rate limit period" l.period
  | bulkhead capacity =>
    if capacity = 0 then some .zeroCapacity
    else if maxCapacity < capacity then some (.capacityTooLarge capacity maxCapacity)
    else none
  | retry s =>
    if s.maxAttempts = 0 then some .zeroAttempts
    else s.attemptTimeout.bind (emptySpan? "per-attempt timeout")
  | hedge delay => emptySpan? "hedge delay" delay

/-- Puts the layer around an operation, for one call through one policy. -/
def apply (site : Site) : Layer → Operation → Operation
  | fallback value => Operation.withFallback site value
  | timeout length => Operation.withTimeout site length
  | breaker s => Operation.behindBreaker site s
  | rateLimit l => Operation.behindRateLimit site l
  | bulkhead capacity => Operation.behindBulkhead site capacity
  | retry s => Operation.withRetry site s
  | hedge delay => Operation.withHedge site delay

end Layer

/-- Puts layers around an operation, the first one outermost. -/
def stack (site : Site) (layers : List Layer) (op : Operation) : Operation :=
  layers.foldr (Layer.apply site) op

@[simp] theorem stack_nil (site : Site) (op : Operation) : stack site [] op = op := rfl

theorem stack_append (site : Site) (outer inner : List Layer) (op : Operation) :
    stack site (outer ++ inner) op = stack site outer (stack site inner op) := by
  simp [stack]

end CallPolicy
