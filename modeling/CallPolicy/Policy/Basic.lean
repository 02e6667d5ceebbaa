/-
Policies.

A `Policy` has a name, hooks, and layers in their fixed order whose settings are
all in order themselves. `Policy.build` makes one from a description, or says
what is wrong with it; only a policy that could be built is registered and told
about. `Policy.call` is an operation as seen through the policy.
-/
import CallPolicy.Policy.Setting

namespace CallPolicy

open Text

/-- A policy. -/
structure Policy where
  origin : Origin
  /-- The layers, the outermost first. -/
  layers : List Layer
  criticality : Criticality
  dependencies : List Reporter
  ordered : layers.Pairwise fun a b => a.kind.position < b.kind.position
  faultless : ∀ l ∈ layers, l.fault? = none

/-- What building a policy tells others about. -/
inductive BuildRecord
  /-- The policy was added to a registry. -/
  | registered (registry : String) (reporter : Reporter)
  /-- The policy was built. -/
  | built (name : String) (layers : List LayerKind)

/-- The outcome of building a policy. -/
structure Construction where
  outcome : Except Misconfiguration Policy
  records : List BuildRecord

namespace Policy

/-- The name of a policy. -/
def name (p : Policy) : String := p.origin.name

/-- The kinds of a policy's layers, the outermost first. -/
def kinds (p : Policy) : List LayerKind := p.layers.map Layer.kind

/-- Has the policy a layer of this kind? -/
def has (p : Policy) (k : LayerKind) : Bool := p.kinds.contains k

/-- The rate limit of a policy. -/
def rateLimit? (p : Policy) : Option RateLimit :=
  p.layers.findSome? fun
    | .rateLimit l => some l
    | _ => none

/-- The reporter of a policy's health. -/
def reporter (p : Policy) : Reporter :=
  .policy p.origin.key p.name (p.has .breaker) p.criticality p.dependencies

/-- The outline of a policy. -/
def shape (p : Policy) : Shape :=
  .fields "Policy"
    [("name", .quoted p.name), ("layers", .items (p.kinds.map fun k => .word k.name))]

/-- Builds the policy with a given key from a description. -/
def build (key : Nat) (name : String) (description : List Setting) : Construction :=
  let s := Settings.ofList description
  match h : s.fault? name with
  | some fault => ⟨.error fault, []⟩
  | none =>
    let p : Policy :=
      { origin := ⟨key, name, s.hooks⟩
        layers := s.layers
        criticality := s.criticality
        dependencies := s.dependencies
        ordered := s.pairwise_kind_layers
        faultless := Settings.fault?_of_mem_layers h }
    ⟨.ok p, (s.registry.map (BuildRecord.registered · p.reporter)).toList ++ [.built name p.kinds]⟩

/-- The gates of a policy that was built just now. -/
def newGates (p : Policy) (now : Nat) : Gates where
  breaker := .new
  bucket := match p.rateLimit? with
    | some l => .full l now
    | none => ⟨(0 : UInt32).toFloat, now⟩
  occupied := 0

/-- Gives a newly built policy its gates. -/
def install (p : Policy) (w : World) : World :=
  w.modifyGates p.origin.key fun _ => p.newGates w.now

/-- An operation called through the policy. -/
def call (p : Policy) (id : CallId) (op : Operation) : Operation :=
  stack ⟨p.origin, id⟩ p.layers op

end Policy

end CallPolicy
