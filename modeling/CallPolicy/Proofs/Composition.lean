/-
The composition law of layers.

A policy can be cut in two between any two of its layers (`Split`): an outer policy with the
layers before the cut, and an inner one with those after it, which is called by the outer
one's operation. Nobody notices. Wherever the whole is called, the two of them do the same
at the same time, and each gate is in the same condition at the half that has it.

* **`Split.imitates`** — calls and policies, with one policy cut in two;
* **`composition_law`** — so a run is the same with the two halves as with the whole.
-/
import CallPolicy.Proofs.Staging
import CallPolicy.Proofs.Heeds

namespace CallPolicy

/-- A policy has a rate limit iff it has a layer of that kind. -/
theorem Policy.isSome_rateLimit? (p : Policy) : p.rateLimit?.isSome = p.has .rateLimit := by
  rw [Bool.eq_iff_iff, Policy.rateLimit?, List.findSome?_isSome_iff, Policy.has,
    List.contains_iff_mem, Policy.kinds, List.mem_map]
  refine exists_congr fun l => and_congr_right fun _ => ?_
  cases l <;> simp [Layer.kind]

/-- A policy, and two policies that share its layers between them. Only the names may be
other ones. -/
structure Split where
  whole : Policy
  outer : Policy
  inner : Policy
  layers : whole.layers = outer.layers ++ inner.layers
  outer_hooks : outer.origin.hooks = whole.origin.hooks
  inner_hooks : inner.origin.hooks = whole.origin.hooks
  apart : outer.origin.key ≠ inner.origin.key

namespace Split

variable (x : Split) {K : List Policy}

/-- Cuts a policy in two after its first `n` layers. -/
def cut (p : Policy) (n k k' : Nat) (hk : k ≠ k') (name name' : String) : Split where
  whole := p
  outer :=
    { p with
      origin := ⟨k, name, p.origin.hooks⟩
      layers := p.layers.take n
      ordered := p.ordered.sublist (List.take_sublist n p.layers)
      faultless := fun l hl => p.faultless l (List.mem_of_mem_take hl) }
  inner :=
    { p with
      origin := ⟨k', name', p.origin.hooks⟩
      layers := p.layers.drop n
      ordered := p.ordered.sublist (List.drop_sublist n p.layers)
      faultless := fun l hl => p.faultless l (List.mem_of_mem_drop hl) }
  layers := (List.take_append_drop n p.layers).symm
  outer_hooks := rfl
  inner_hooks := rfl
  apart := hk

/-- Calls the outer policy with an operation that calls the inner one, instead of calling
the whole. -/
def call : Carrier := fun p id op =>
  if p.origin.key = x.whole.origin.key then x.outer.call id (x.inner.call id op) else p.call id op

/-- Builds both halves instead of the whole. -/
def install (p : Policy) (w : World) : World :=
  if p.origin.key = x.whole.origin.key then x.inner.install (x.outer.install w) else p.install w

/-- Policies and calls as they are, but for the policy that is cut in two. -/
def conduct : Conduct where
  install := x.install
  activity c := x.call c.policy c.id (c.script.operationBy x.call c.id)

/-- The half that has a layer. -/
def home (k : LayerKind) : Policy := if x.outer.has k then x.outer else x.inner

/-- The whole is told apart from other policies by its key, and the halves are told apart
from them too. -/
structure Fits (K : List Policy) : Prop where
  whole : ∀ p ∈ K, p.origin.key = x.whole.origin.key → p = x.whole
  fresh : ∀ p ∈ K, p.origin.key ≠ x.whole.origin.key →
    p.origin.key ≠ x.outer.origin.key ∧ p.origin.key ≠ x.inner.origin.key

/-! ### Where the layers are -/

theorem home_hooks (k : LayerKind) : (x.home k).origin.hooks = x.whole.origin.hooks := by
  unfold home
  split
  · exact x.outer_hooks
  · exact x.inner_hooks

variable {x} {l : Layer} {p : Policy}

theorem Fits.home_ne (hK : x.Fits K) (hp : p ∈ K) (hne : p.origin.key ≠ x.whole.origin.key)
    (k : LayerKind) : p.origin.key ≠ (x.home k).origin.key := by
  unfold home
  split
  · exact (hK.fresh p hp hne).1
  · exact (hK.fresh p hp hne).2

theorem home_of_mem_outer (h : l ∈ x.outer.layers) : x.home l.kind = x.outer :=
  if_pos (List.contains_iff_mem.mpr (List.mem_map_of_mem h))

theorem home_of_mem_inner (h : l ∈ x.inner.layers) : x.home l.kind = x.inner := by
  refine if_neg fun hhas => ?_
  obtain ⟨l', hl', hkind⟩ := List.mem_map.mp (List.contains_iff_mem.mp hhas)
  have hordered := x.whole.ordered
  rw [x.layers] at hordered
  have hlt := (List.pairwise_append.mp hordered).2.2 l' hl' l h
  rw [hkind] at hlt
  exact Nat.lt_irrefl _ hlt

/-- Both halves get their gates. -/
theorem gates_home (k : LayerKind) (w : World) :
    (x.inner.install (x.outer.install w)).gates (x.home k).origin.key =
      (x.home k).newGates w.now := by
  unfold home Policy.install
  split
  · rw [World.modifyGates_gates, assign_of_ne x.apart, World.modifyGates_gates, assign_self]
  · rw [World.modifyGates_gates, assign_self]
    rfl

/-- The bucket of the whole is that of the half that has the rate limit. -/
theorem bucket_home (x : Split) (now : Nat) :
    ((x.home .rateLimit).newGates now).bucket = (x.whole.newGates now).bucket := by
  have hlimit : (x.home .rateLimit).rateLimit? = x.whole.rateLimit? := by
    have happend : x.whole.rateLimit? = x.outer.rateLimit?.or x.inner.rateLimit? := by
      rw [Policy.rateLimit?, x.layers, List.findSome?_append]
      rfl
    rw [happend, home]
    split
    next hhas =>
      rw [← x.outer.isSome_rateLimit?] at hhas
      rw [Option.or_of_isSome hhas]
    next hhas =>
      rw [← x.outer.isSome_rateLimit?, Bool.not_eq_true, Option.isSome_eq_false_iff,
        Option.isNone_iff_eq_none] at hhas
      rw [hhas, Option.none_or]
  rw [Policy.newGates, Policy.newGates, hlimit]

/-- Every layer of the whole is at the half that has it, and the others stay. -/
def routing (hK : x.Fits K) : Routing where
  origins := K.map Policy.origin
  route o k := if o.key = x.whole.origin.key then (x.home k).origin else o
  hooks_route {o} ho k := by
    obtain ⟨p, hp, rfl⟩ := List.mem_map.mp ho
    split
    next h => rw [x.home_hooks, hK.whole p hp h]
    next => rfl
  key_route {o o'} ho ho' k := by
    obtain ⟨p, hp, rfl⟩ := List.mem_map.mp ho
    obtain ⟨p', hp', rfl⟩ := List.mem_map.mp ho'
    split <;> split
    next h h' => exact ⟨fun _ => h.trans h'.symm, fun _ => rfl⟩
    next h h' =>
      exact ⟨fun heq => absurd heq.symm (hK.home_ne hp' h' k), fun heq => absurd (heq ▸ h) h'⟩
    next h h' =>
      exact ⟨fun heq => absurd heq (hK.home_ne hp h k), fun heq => absurd (heq ▸ h') h⟩
    next => exact Iff.rfl

variable (hK : x.Fits K)

theorem route_whole (k : LayerKind) :
    (x.routing hK).route x.whole.origin k = (x.home k).origin := if_pos rfl

theorem route_other (hne : p.origin.key ≠ x.whole.origin.key) (k : LayerKind) :
    (x.routing hK).route p.origin k = p.origin := if_neg hne

/-! ### Calls -/

/-- A call through the whole is mirrored by one through both halves. -/
def mirrorWhole (hx : x.whole ∈ K) (id : CallId) {op op' : Operation}
    (m : Activity.Mirror (x.routing hK) op op') :
    Activity.Mirror (x.routing hK) (x.whole.call id op) (x.outer.call id (x.inner.call id op')) :=
  have hsite : x.whole.origin ∈ (x.routing hK).origins := List.mem_map_of_mem hx
  have hinner : ∀ l ∈ x.inner.layers,
      (x.routing hK).site l.kind ⟨x.whole.origin, id⟩ = ⟨x.inner.origin, id⟩ := fun l hl => by
    rw [Routing.site, route_whole, home_of_mem_inner hl]
  have houter : ∀ l ∈ x.outer.layers,
      (x.routing hK).site l.kind ⟨x.whole.origin, id⟩ = ⟨x.outer.origin, id⟩ := fun l hl => by
    rw [Routing.site, route_whole, home_of_mem_outer hl]
  have hwhole : x.whole.call id op = stack ⟨x.whole.origin, id⟩ x.outer.layers
      (stack ⟨x.whole.origin, id⟩ x.inner.layers op) := by
    rw [Policy.call, x.layers, stack_append]
  hwhole ▸ (m.stack hsite x.inner.layers (fun _ _ _ => trivial) hinner).stack hsite
    x.outer.layers (fun _ _ _ => trivial) houter

/-- A call through another policy is mirrored by itself. -/
def mirrorOther (hp : p ∈ K) (hne : p.origin.key ≠ x.whole.origin.key) (id : CallId)
    {op op' : Operation} (m : Activity.Mirror (x.routing hK) op op') :
    Activity.Mirror (x.routing hK) (p.call id op) (p.call id op') :=
  m.stack (List.mem_map_of_mem hp) p.layers (fun _ _ _ => trivial) fun l _ => by
    rw [Routing.site, route_other hK hne]

/-- Whoever calls the two halves does what a call of the whole does. -/
def mirrorCall (hp : p ∈ K) (id : CallId) {op op' : Operation}
    (m : Activity.Mirror (x.routing hK) op op') :
    Activity.Mirror (x.routing hK) (p.call id op) (x.call p id op') :=
  if h : p.origin.key = x.whole.origin.key then
    have hwhole : p = x.whole := hK.whole p hp h
    have hcall : x.call p id op' = x.outer.call id (x.inner.call id op') := if_pos h
    hcall ▸ hwhole ▸ mirrorWhole hK (hwhole ▸ hp) id m
  else
    have hcall : x.call p id op' = p.call id op' := if_neg h
    hcall ▸ mirrorOther hK hp h id m

/-! ### Building -/

/-- A gate is in the same condition at the half that has it as it would be at the whole. -/
theorem finds_install {α : Type} {part : Gates → α} {w w' : World} {k : LayerKind}
    (h : (x.routing hK).Finds k part w.gates w'.gates) (hp : p ∈ K) (hnow : w'.now = w.now)
    (hpart : part ((x.home k).newGates w.now) = part (x.whole.newGates w.now)) :
    (x.routing hK).Finds k part (p.install w).gates (x.install p w').gates := by
  intro o ho
  obtain ⟨q, hq, rfl⟩ := List.mem_map.mp ho
  have hold := h q.origin ho
  unfold Split.install
  split
  next hwhole =>
    -- both halves are built at once, each where its gates are looked for
    rw [hK.whole p hp hwhole]
    by_cases hqwhole : q.origin.key = x.whole.origin.key
    · rw [hK.whole q hq hqwhole, route_whole, gates_home, hnow, hpart, Policy.install,
        World.modifyGates_gates, assign_self]
    · obtain ⟨houter, hinner⟩ := hK.fresh q hq hqwhole
      rw [route_other hK hqwhole] at hold ⊢
      rw [Policy.install, World.modifyGates_gates, assign_of_ne hinner, Policy.install,
        World.modifyGates_gates, assign_of_ne houter, Policy.install, World.modifyGates_gates,
        assign_of_ne hqwhole, hold]
  next hother =>
    -- another policy is at the same place on both sides
    rw [Policy.install, Policy.install, World.modifyGates_gates, World.modifyGates_gates, hnow]
    by_cases hqwhole : q.origin.key = x.whole.origin.key
    · rw [hK.whole q hq hqwhole, route_whole] at hold ⊢
      rw [assign_of_ne (hK.home_ne hp hother k).symm, assign_of_ne (Ne.symm hother), hold]
    · rw [route_other hK hqwhole] at hold ⊢
      by_cases hqp : q.origin.key = p.origin.key
      · rw [hqp, assign_self, assign_self]
      · rw [assign_of_ne hqp, assign_of_ne hqp, hold]

/-- The halves are built where the whole would be. -/
theorem carries_install (hp : p ∈ K) {w w' : World} (h : (x.routing hK).Carries w w') :
    (x.routing hK).Carries (p.install w) (x.install p w') := by
  have hsame : x.install p w' = { w' with gates := (x.install p w').gates } := by
    unfold Split.install
    split <;> rfl
  have hgates : (x.routing hK).Carries { w with gates := (p.install w).gates }
      { w' with gates := (x.install p w').gates } :=
    { h with
      breaker := finds_install hK h.breaker hp h.now rfl
      bucket := finds_install hK h.bucket hp h.now (x.bucket_home w.now)
      occupied := finds_install hK h.occupied hp h.now rfl }
  rw [← hsame] at hgates
  exact hgates

/-- The end of a call is recorded elsewhere. -/
theorem carries_settleCall {w w' : World} (h : (x.routing hK).Carries w w') (c : Call)
    (e : Ending) : (x.routing hK).Carries (w.settleCall c e) (w'.settleCall c e) := by
  have hlink : (x.routing hK).link.Carries w w' := h
  have hnote := h.note (.settled c.id e ((w.invoked c.id).reverse.map w.isCancelled))
  rw [World.settleCall, World.settleCall, hlink.invocations]
  exact hnote

/-- **One policy cut in two**, and nobody notices. -/
theorem imitates : Conduct.plain.Imitates (x.routing hK) (Cue.Known K) x.conduct where
  begin _ := ⟨rfl, rfl, rfl, rfl, rfl, rfl, rfl, fun _ _ => rfl, fun _ _ => rfl, fun _ _ => rfl⟩
  install hp _ _ h := carries_install hK hp h
  activity {c} hc :=
    have hcarry : (x.routing hK).link.CarriedBy K x.call := fun _ hp _ _ _ _ _ m =>
      mirrorCall hK hp _ m
    ⟨(mirrorCall hK hc.1 c.id (.script hcarry c.id hc.2)).twin fun e _ _ h =>
      carries_settleCall hK h c e⟩

end Split

/-! ### No layers -/

/-- **All its life**, a scripted operation has invoked itself once, under its own token. -/
theorem Script.invoked_of_lives {id : CallId} {t : Token} {w₀ : World} {timely : Prop}
    (script : Script) {out : Status (script.operation id).State Result × World}
    (hw₀ : w₀.Awaits id t) (hl : (script.operation id).Lives id timely t w₀ out) :
    out.2.invoked id = [t] := by
  obtain ⟨keeps, hattends, hstart, hresume⟩ := script.dormant id
  induction hl with
  | start =>
    rw [(hstart hw₀.ready).invoked, World.invoke_invoked, assign_self, hw₀.invoked .self]
  | wait _ hw _ ih => exact (hw.invoked .self).trans ih
  | resume hl ih =>
    obtain ⟨hw, hs⟩ := hattends.lives hw₀.ready hl
    exact (hresume hw hs).invoked.trans ih

/-- A policy without layers is not there. -/
theorem Policy.call_of_layers_eq_nil {p : Policy} (h : p.layers = []) (id : CallId)
    (op : Operation) : p.call id op = op := by
  rw [Policy.call, h, stack_nil]

/-! ### Composition -/

/-- **Layers compose.** Whatever cues are played, a policy that is cut in two does what the
whole does: the worlds agree in all but the places of the layers, and the same calls run and
wait for the same instants. Any run of a simulation is played by cues. Without layers, a
call is its operation, which is invoked once and under the caller's token. -/
theorem composition_law (x : Split) {K : List Policy} (hK : x.Fits K) (chance : Chance) :
    (∀ {cues : List Cue}, (∀ cue ∈ cues, cue.Known K) →
      let whole := Conduct.plain.play chance cues
      let halves := x.conduct.play chance cues
      (Split.routing hK).Carries whole.world halves.world ∧
        halves.calls = whole.calls ∧ halves.deadlines = whole.deadlines) ∧
    (∀ {S : Simulation}, S.Reachable chance → S.policies ⊆ K →
      ∃ cues : List Cue, (∀ cue ∈ cues, cue.Known K) ∧
        Conduct.plain.play chance cues = S.stage) ∧
    ∀ {p : Policy}, p.layers = [] → ∀ {id}, (∀ op, p.call id op = op) ∧
      ∀ {script : Script} {timely t w₀ out}, w₀.Awaits id t →
        (p.call id (script.operation id)).Lives id timely t w₀ out → out.2.invoked id = [t] := by
  refine ⟨fun {cues} hcues => ?_, fun hS hsub => hS.played hsub, fun {p} hp {id} =>
    ⟨p.call_of_layers_eq_nil hp id, fun {script timely t w₀ out} hw₀ hl => ?_⟩⟩
  · have hparallel : Stage.Parallel (Split.routing hK) (Conduct.plain.play chance cues)
        (x.conduct.play chance cues) := (Split.imitates hK).play hcues
    exact ⟨hparallel.world, hparallel.waits⟩
  · have hcall := p.call_of_layers_eq_nil hp id (script.operation id)
    revert out
    rw [hcall]
    exact fun hl => script.invoked_of_lives hw₀ hl

/-- A policy that lets one call in at a time and allows it two attempts. -/
def serial : Policy where
  origin := ⟨0, "p", .none⟩
  layers := [.bulkhead 1, .retry { maxAttempts := 2, backoff := .constant (.ofMillis 0) }]
  criticality := .critical
  dependencies := []
  ordered := List.pairwise_pair.mpr (by decide)
  faultless l hl := by
    rcases List.mem_pair.mp hl with rfl | rfl <;> decide

/-- It is cut in two, with the bulkhead outside. -/
def halved : Split := .cut serial 1 1 2 (by decide) "outer" "inner"

/-- One call is let in, fails and tries again, and a second one is turned away. -/
def rush : List Cue :=
  [.build serial,
   .start ⟨.top "c" 0, serial, [[.give (.error (.operation "e" none))], [.hang]], .named "t"⟩,
   .start ⟨.top "d" 0, serial, [[.hang]], .named "t"⟩]

/-- The outer half lets the first call in and turns the other one away, and the inner half
tries again. -/
theorem composition_law_rush :
    halved.Fits [serial] ∧ (∀ cue ∈ rush, cue.Known [serial]) ∧
    let halves := halved.conduct.play .plain rush
    let whole := Conduct.plain.play .plain rush
    halves.calls = whole.calls ∧ whole.calls.map (·.id) = [.top "c" 0] ∧
    (halves.world.gates 1).occupied = 1 ∧ (whole.world.gates 0).occupied = 1 ∧
    (⟨0, .event ⟨⟨2, "inner", .none⟩, .top "c" 0⟩ (.retrying 1 (.operation "e" none))⟩ : Entry) ∈
      halves.world.trace ∧
    (⟨0, .event ⟨⟨1, "outer", .none⟩, .top "d" 0⟩ .bulkheadFull⟩ : Entry) ∈ halves.world.trace := by
  have hK : halved.Fits [serial] :=
    ⟨fun p hp _ => List.mem_singleton.mp hp,
      fun p hp hne => absurd (congrArg (·.origin.key) (List.mem_singleton.mp hp)) hne⟩
  have hcues : ∀ cue ∈ rush, cue.Known [serial] := by
    simp [rush, Cue.Known, scriptKnown, actionsKnown, Action.Known]
  obtain ⟨hplay, -, -⟩ := composition_law halved hK .plain
  obtain ⟨hworld, hcalls, -⟩ := hplay hcues
  have hslot : ((Conduct.plain.play .plain rush).world.gates 0).occupied = 1 := rfl
  refine ⟨hK, hcues, hcalls, rfl, ?_, hslot, by decide +kernel, by decide +kernel⟩
  exact (hworld.occupied serial.origin (List.mem_singleton_self _)).trans hslot

end CallPolicy
