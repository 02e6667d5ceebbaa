/-
Health reports.

A `Reporter` stands for something whose health can be asked for at any time: a
policy, whose breaker decides, or a component whose health is fixed. It may
depend on other reporters; `Reporter.tree` asks all of them, which is pure
information: nothing is added up.
-/
import CallPolicy.World

namespace CallPolicy

/-- How much a failing component matters. -/
inductive Criticality
  | critical
  | nonCritical
deriving DecidableEq

/-- The name of a criticality. -/
def Criticality.name : Criticality → String
  | critical => "Critical"
  | nonCritical => "NonCritical"

/-- A component's health at one instant. -/
structure Health where
  name : String
  healthy : Bool
  state : String
  criticality : Criticality
deriving DecidableEq

/-- Something whose health can be asked for. -/
inductive Reporter
  /-- The policy with a given key. Without a breaker it is always healthy. -/
  | policy (key : Nat) (name : String) (guarded : Bool) (criticality : Criticality)
      (dependencies : List Reporter)
  /-- A component whose health never changes. -/
  | fixed (health : Health)

/-- The health of a component with that of everything it depends on. -/
inductive HealthTree
  | node (health : Health) (dependencies : List HealthTree)

namespace Reporter

/-- The name of what reports. -/
def name : Reporter → String
  | policy _ name .. => name
  | fixed health => health.name

/-- The health of a component, given the gates of the policies. -/
def health (gates : Nat → Gates) : Reporter → Health
  | policy key name guarded criticality _ =>
    if guarded then
      let state := (gates key).breaker.state
      ⟨name, state.isHealthy, state.label, criticality⟩
    else ⟨name, true, "none", criticality⟩
  | fixed health => health

mutual

/-- The health of a component and of everything it depends on. -/
def tree (gates : Nat → Gates) : Reporter → HealthTree
  | .policy key name guarded criticality dependencies =>
    .node ((policy key name guarded criticality []).health gates) (trees gates dependencies)
  | .fixed health => .node health []

/-- The health of each component of a list. -/
def trees (gates : Nat → Gates) : List Reporter → List HealthTree
  | [] => []
  | r :: rest => r.tree gates :: trees gates rest

end

end Reporter

end CallPolicy
