/-
How a policy is described.

A description is a list of `Setting`s. Each one writes a slot of `Settings`, and
a later one for the same slot replaces the earlier one; only dependencies add
up. The slots of the seven layers determine the layers of the policy, in the
one order that layers have:

* **`pairwise_kind_layers`** — the layers are strictly ordered by kind;
* **`mem_layers_iff`** — a layer is among them iff its slot holds it.
-/
import CallPolicy.Layer
import CallPolicy.Health

namespace CallPolicy

open Text

/-- One item in the description of a policy. -/
inductive Setting
  | timeout (length : Duration)
  | retry (settings : RetrySettings)
  | breaker (settings : BreakerSettings)
  | bulkhead (capacity : Nat)
  | rateLimit (limit : RateLimit)
  | hedge (delay : Duration)
  | fallback (value : String)
  | hooks (hooks : Hooks)
  | criticality (criticality : Criticality)
  | dependsOn (reporter : Reporter)
  | registry (name : String)

namespace Setting

/-- The label of the slot that a setting writes. -/
def slot : Setting → String
  | timeout _ => "timeout"
  | retry _ => "retry"
  | breaker _ => "circuit-breaker"
  | bulkhead _ => "bulkhead"
  | rateLimit _ => "rate-limit"
  | hedge _ => "hedge"
  | fallback _ => "fallback"
  | hooks _ => "hooks"
  | criticality _ => "criticality"
  | dependsOn _ => "depends-on"
  | registry _ => "registry"

/-- The outline of a setting, which shows its slot only. -/
def shape (s : Setting) : Shape := .applied "PolicyOption" [.quoted s.slot]

/-- The outline of what a setting holds, where that has fields. -/
def detail? : Setting → Option Shape
  | retry s => some s.shape
  | breaker s => some s.shape
  | rateLimit l => some l.shape
  | hooks hs => some hs.shape
  | _ => none

end Setting

/-- The slots that settings write. -/
structure Settings where
  timeout : Option Duration := none
  retry : Option RetrySettings := none
  breaker : Option BreakerSettings := none
  bulkhead : Option Nat := none
  rateLimit : Option RateLimit := none
  hedge : Option Duration := none
  fallback : Option String := none
  hooks : Hooks := .none
  criticality : Criticality := .critical
  dependencies : List Reporter := []
  registry : Option String := none

namespace Settings

/-- Writes one slot. -/
def write (s : Settings) : Setting → Settings
  | .timeout length => { s with timeout := some length }
  | .retry r => { s with retry := some r }
  | .breaker b => { s with breaker := some b }
  | .bulkhead capacity => { s with bulkhead := some capacity }
  | .rateLimit l => { s with rateLimit := some l }
  | .hedge delay => { s with hedge := some delay }
  | .fallback value => { s with fallback := some value }
  | .hooks hs => { s with hooks := hs }
  | .criticality c => { s with criticality := c }
  | .dependsOn r => { s with dependencies := s.dependencies ++ [r] }
  | .registry name => { s with registry := some name }

/-- The slots after all settings have been written in order. -/
def ofList (settings : List Setting) : Settings := settings.foldl write {}

/-- The layer of a given kind. -/
def layer? (s : Settings) : LayerKind → Option Layer
  | .fallback => s.fallback.map .fallback
  | .timeout => s.timeout.map .timeout
  | .breaker => s.breaker.map .breaker
  | .rateLimit => s.rateLimit.map .rateLimit
  | .bulkhead => s.bulkhead.map .bulkhead
  | .retry => s.retry.map .retry
  | .hedge => s.hedge.map .hedge

/-- The layers, the outermost first. -/
def layers (s : Settings) : List Layer := LayerKind.all.filterMap s.layer?

theorem kind_of_layer? {s : Settings} {k : LayerKind} {l : Layer} (h : s.layer? k = some l) :
    l.kind = k := by
  cases k <;> simp only [layer?, Option.map_eq_some_iff] at h <;> obtain ⟨_, _, rfl⟩ := h <;> rfl

theorem mem_layers_iff {s : Settings} {l : Layer} :
    l ∈ s.layers ↔ s.layer? l.kind = some l := by
  simp only [layers, List.mem_filterMap]
  constructor
  · rintro ⟨k, -, h⟩
    rwa [kind_of_layer? h]
  · exact fun h => ⟨l.kind, LayerKind.mem_all _, h⟩

theorem pairwise_kind_layers (s : Settings) :
    s.layers.Pairwise fun a b => a.kind.position < b.kind.position := by
  rw [layers, List.pairwise_filterMap]
  refine LayerKind.pairwise_position_all.imp fun h a ha b hb => ?_
  rwa [kind_of_layer? ha, kind_of_layer? hb]

/-- The order in which layers are checked when a policy is built. -/
def checkOrder : List LayerKind :=
  [.retry, .hedge, .bulkhead, .rateLimit, .breaker, .timeout, .fallback]

/-- The first fault of a policy with this name and these slots. -/
def fault? (name : String) (s : Settings) : Option Misconfiguration :=
  if isBlank name then some .emptyName
  else checkOrder.findSome? fun k => (s.layer? k).bind Layer.fault?

/-- Settings without a fault have faultless layers. -/
theorem fault?_of_mem_layers {name : String} {s : Settings} (h : s.fault? name = none) :
    ∀ l ∈ s.layers, l.fault? = none := by
  intro l hl
  unfold fault? at h
  split at h
  · cases h
  · rw [List.findSome?_eq_none_iff] at h
    have hk : l.kind ∈ checkOrder := by cases l <;> simp [Layer.kind, checkOrder]
    have := h l.kind hk
    rwa [mem_layers_iff.mp hl, Option.bind_some] at this

end Settings

end CallPolicy
