/-
The calls that are under way.

A suspended call is an unfinished call itself, and inside it there may be others: the
calls that its operation makes, at every place where an attempt of it is suspended.
`Simulation.unfinished` lists them all, by what the states are, and without a look at
what they hold:

* **`Simulation.Known.count_held`** — exactly one slot of a bulkhead is held for each
  unfinished call through the policy that the bulkhead is part of.
-/
import CallPolicy.Proofs.Runs
import Mathlib.Algebra.GroupWithZero.Nat

namespace CallPolicy

open Operation

/-! ### The unfinished calls of a state -/

/-- The state of the operation in an attempt. -/
def Operation.attempted (site : Site) (op : Operation) :
    (s : RetrySettings) → (attempt site s op).State → op.State
  | { attemptTimeout := some _, .. }, a => a.inner
  | { attemptTimeout := none, .. }, a => a

/-- The states in which the operation inside a layer is suspended. -/
def Layer.within (site : Site) (op : Operation) :
    (l : Layer) → (l.apply site op).State → List op.State
  | .fallback _, s => [s]
  | .timeout _, s => [s.inner]
  | .breaker _, s => [s.2]
  | .rateLimit _, s => [s]
  | .bulkhead _, s => [s.2]
  | .retry r, .trying _ _ a => [attempted site op r a]
  | .retry _, .waiting .. => []
  | .hedge _, .early _ _ _ first => [first]
  | .hedge _, .alone first => [first]
  | .hedge _, .racing _ first _ rival => [first, rival]

/-- The states in which the operation inside some layers is suspended. -/
def stackWithin (site : Site) (op : Operation) :
    (layers : List Layer) → (stack site layers op).State → List op.State
  | [], s => [s]
  | l :: rest, s => (l.within site (stack site rest op) s).flatMap (stackWithin site op rest)

/-- A call that is suspended, and the unfinished calls inside it. -/
def Policy.unfinished (p : Policy) (id : CallId) (op : Operation) (inside : op.State → List Site)
    (s : (p.call id op).State) : List Site :=
  ⟨p.origin, id⟩ :: (stackWithin ⟨p.origin, id⟩ op p.layers s).flatMap inside

mutual

/-- The unfinished calls of an action. -/
def Action.unfinished (call : CallId) (k position : Nat) :
    (a : Action) → (a.activity call k position).State → List Site
  | .call policy script, s =>
    let id := CallId.nested call k position policy.name
    policy.unfinished id (Script.operation script id)
      (fun t => scriptUnfinished id t.1 t.1 script t.2.2) s.2
  | .sleep _, _ => []
  | .sleepUnlessCancelled _, _ => []
  | .awaitCancel, _ => []
  | .hang, _ => []
  | .probe, _ => []
  | .cancel _, _ => []
  | .give _, _ => []
  | .panic _, _ => []

/-- The unfinished calls of the actions from some position on. -/
def actionsUnfinished (call : CallId) (k position : Nat) :
    (actions : List Action) → (actionsBody call k position actions).State → List Site
  | [], _ => []
  | a :: _, .inl s => a.unfinished call k position s
  | _ :: rest, .inr s => actionsUnfinished call k (position + 1) rest s

/-- The unfinished calls of an invocation that takes the actions at place `i` of a
script. -/
def scriptUnfinished (call : CallId) (k i : Nat) :
    (script : List (List Action)) → (scriptBody call k i script).State → List Site
  | [], _ => []
  | [actions], s => actionsUnfinished call k 0 actions s
  | actions :: next :: rest, s =>
    match i, s with
    | 0, s => actionsUnfinished call k 0 actions s
    | i + 1, s => scriptUnfinished call k i (next :: rest) s

end

/-- A suspended call, and the unfinished calls inside it. -/
def Running.unfinished (r : Running) : List Site :=
  r.call.policy.unfinished r.call.id (r.call.script.operation r.call.id)
    (fun t => scriptUnfinished r.call.id t.1 t.1 r.call.script t.2.2) r.state

/-- All the unfinished calls of a simulation. -/
def Simulation.unfinished (S : Simulation) : List Site := S.running.flatMap Running.unfinished

/-! ### Unfinished calls and slots -/

variable {K : List Policy} {σ site : Site} {op : Operation}

/-- How many slots are held on behalf of a call. -/
def slotsFor (σ : Site) (hs : List Holding) : Nat := hs.count (.slot σ)

theorem slotsFor_append (hs hs' : List Holding) :
    slotsFor σ (hs ++ hs') = slotsFor σ hs + slotsFor σ hs' := List.count_append

theorem slotsFor_flatMap_congr {α : Type} {l : List α} {f g : α → List Holding}
    (h : ∀ a ∈ l, slotsFor σ (f a) = slotsFor σ (g a)) :
    slotsFor σ (l.flatMap f) = slotsFor σ (l.flatMap g) := by
  rw [slotsFor, slotsFor, List.count_flatMap, List.count_flatMap]
  exact congrArg List.sum (List.map_congr_left h)

theorem slotsFor_one (t : op.State) :
    slotsFor σ (op.holdings t) = 0 + slotsFor σ ([t].flatMap op.holdings) := by
  rw [List.flatMap_singleton, Nat.zero_add]

namespace Layer

/-- The slots that a layer holds, apart from those that are held inside it. -/
def ownSlots (σ site : Site) : Layer → Nat
  | .bulkhead _ => if site = σ then 1 else 0
  | _ => 0

theorem slotsFor_holdings (l : Layer) (s : (l.apply site op).State) :
    slotsFor σ ((l.apply site op).holdings s) =
      l.ownSlots σ site + slotsFor σ ((l.within site op s).flatMap op.holdings) := by
  cases l with
  | fallback _ => exact slotsFor_one s
  | timeout _ => exact slotsFor_one s.inner
  | rateLimit _ => exact slotsFor_one s
  -- a permit is held beside what the operation holds and is no slot
  | breaker b =>
    show slotsFor σ (op.holdings s.2 ++ [.permit site b s.1]) = _
    rw [slotsFor_append]
    exact slotsFor_one s.2
  -- the one layer with a slot of its own
  | bulkhead c =>
    show slotsFor σ (op.holdings s.2 ++ [.slot site]) = _
    have hown : slotsFor σ [.slot site] = if site = σ then 1 else 0 := by
      rw [slotsFor, List.count_singleton]
      simp
    rw [slotsFor_append, hown, Nat.add_comm, slotsFor_one s.2, Nat.zero_add]
    rfl
  -- between attempts nothing is held
  | retry r =>
    cases s with
    | waiting token left wakeAt => rfl
    | trying token left a =>
      obtain ⟨maxAttempts, backoff, maxDelay, attemptTimeout, retryIf⟩ := r
      cases attemptTimeout with
      | none => exact slotsFor_one a
      | some length => exact slotsFor_one a.inner
  -- while two race, both hold
  | hedge _ =>
    cases s with
    | early caller token launchAt first => exact slotsFor_one first
    | alone first => exact slotsFor_one first
    | racing token first rivalToken rival =>
      show slotsFor σ (op.holdings rival ++ op.holdings first) =
        0 + slotsFor σ (op.holdings first ++ (op.holdings rival ++ []))
      rw [List.append_nil, slotsFor_append, slotsFor_append]
      omega

/-- Outside the retry layer, the operation inside a layer is suspended once. -/
theorem within_eq {l : Layer} (h : l.kind.position < LayerKind.retry.position)
    (s : (l.apply site op).State) : ∃ t, l.within site op s = [t] := by
  cases l with
  | fallback _ => exact ⟨s, rfl⟩
  | timeout _ => exact ⟨s.inner, rfl⟩
  | breaker _ => exact ⟨s.2, rfl⟩
  | rateLimit _ => exact ⟨s, rfl⟩
  | bulkhead _ => exact ⟨s.2, rfl⟩
  | retry _ => exact absurd h (Nat.lt_irrefl _)
  | hedge _ => exact absurd h (by simp [kind, LayerKind.position])

end Layer

/-- Only a bulkhead holds a slot by itself. -/
theorem sum_ownSlots_of_ne {layers : List Layer} (h : ∀ l ∈ layers, l.kind ≠ .bulkhead) :
    (layers.map (Layer.ownSlots σ site)).sum = 0 := by
  refine List.sum_eq_zero_iff_forall_eq_nat.mpr fun n hn => ?_
  obtain ⟨l, hl, rfl⟩ := List.mem_map.mp hn
  cases l with
  | bulkhead _ => exact absurd rfl (h _ hl)
  | _ => rfl

/-- The slots that layers in order hold, apart from those that are held inside them. -/
theorem slotsFor_stack {layers : List Layer}
    (hl : layers.Pairwise fun a b => a.kind.position < b.kind.position)
    (s : (stack site layers op).State) :
    slotsFor σ ((stack site layers op).holdings s) = (layers.map (Layer.ownSlots σ site)).sum +
      slotsFor σ ((stackWithin site op layers s).flatMap op.holdings) := by
  induction layers with
  | nil => exact slotsFor_one s
  | cons l rest ih =>
    obtain ⟨hlt, hrest⟩ := List.pairwise_cons.mp hl
    have hinside : ∀ s : (l.apply site (stack site rest op)).State,
        slotsFor σ ((l.within site (stack site rest op) s).flatMap (stack site rest op).holdings) =
          (rest.map (Layer.ownSlots σ site)).sum + slotsFor σ
            (((l.within site (stack site rest op) s).flatMap (stackWithin site op rest)).flatMap
              op.holdings) := by
      intro s
      rw [List.flatMap_assoc]
      rcases Nat.lt_or_ge l.kind.position LayerKind.retry.position with hout | hin
      · obtain ⟨t, ht⟩ := Layer.within_eq hout s
        rw [ht, List.flatMap_singleton, List.flatMap_singleton]
        exact ih hrest t
      · -- no bulkhead lies inside a layer that suspends its operation more than once
        have hzero : (rest.map (Layer.ownSlots σ site)).sum = 0 := by
          refine sum_ownSlots_of_ne fun l' hl' hkind => ?_
          have hpos := hlt l' hl'
          rw [hkind] at hpos
          exact absurd (hin.trans hpos.le) (by decide)
        rw [hzero, Nat.zero_add]
        refine slotsFor_flatMap_congr fun t _ => ?_
        rw [ih hrest t, hzero, Nat.zero_add]
    rw [List.map_cons, List.sum_cons, Nat.add_assoc]
    exact (l.slotsFor_holdings s).trans (congrArg (l.ownSlots σ site + ·) (hinside s))

namespace Policy

/-- The slots that a call through a policy with a bulkhead holds by itself. -/
theorem sum_ownSlots {p : Policy} {capacity : Nat} (hl : .bulkhead capacity ∈ p.layers) :
    (p.layers.map (Layer.ownSlots σ site)).sum = if site = σ then 1 else 0 := by
  obtain ⟨before, after, hlayers⟩ := List.append_of_mem hl
  have hordered := p.ordered
  rw [hlayers, List.pairwise_append, List.pairwise_cons] at hordered
  obtain ⟨-, ⟨hafter, -⟩, hbefore⟩ := hordered
  have hzero : (before.map (Layer.ownSlots σ site)).sum = 0 := by
    refine sum_ownSlots_of_ne fun l hmem hkind => ?_
    have hlt := hbefore l hmem _ List.mem_cons_self
    rw [hkind] at hlt
    exact Nat.lt_irrefl _ hlt
  have hzero' : (after.map (Layer.ownSlots σ site)).sum = 0 := by
    refine sum_ownSlots_of_ne fun l hmem hkind => ?_
    have hlt := hafter l hmem
    rw [hkind] at hlt
    exact Nat.lt_irrefl _ hlt
  rw [hlayers, List.map_append, List.sum_append, List.map_cons, List.sum_cons, hzero, hzero',
    Nat.zero_add, Nat.add_zero]
  rfl

/-- A call through another policy holds no slot on behalf of a call. -/
theorem sum_ownSlots_elsewhere {p : Policy} (hne : site ≠ σ) :
    (p.layers.map (Layer.ownSlots σ site)).sum = 0 := by
  refine List.sum_eq_zero_iff_forall_eq_nat.mpr fun n hn => ?_
  obtain ⟨l, -, rfl⟩ := List.mem_map.mp hn
  cases l with
  | bulkhead _ => exact if_neg hne
  | _ => rfl

/-- One slot is held for each unfinished call, if that is so inside the layers. -/
theorem slotsFor_call {p : Policy} {id : CallId} {inside : op.State → List Site}
    (hp : p.origin = σ.origin → ∃ capacity, .bulkhead capacity ∈ p.layers)
    (h : ∀ t, slotsFor σ (op.holdings t) = (inside t).count σ) (s : (p.call id op).State) :
    slotsFor σ ((p.call id op).holdings s) = (p.unfinished id op inside s).count σ := by
  -- the call itself holds one slot, if it is the call in question
  have hown : (p.layers.map (Layer.ownSlots σ ⟨p.origin, id⟩)).sum =
      if (⟨p.origin, id⟩ : Site) = σ then 1 else 0 := by
    by_cases hsite : (⟨p.origin, id⟩ : Site) = σ
    · obtain ⟨capacity, hl⟩ := hp (congrArg Site.origin hsite)
      exact sum_ownSlots hl
    · rw [sum_ownSlots_elsewhere hsite, if_neg hsite]
  have hinside : slotsFor σ ((stackWithin ⟨p.origin, id⟩ op p.layers s).flatMap op.holdings) =
      ((stackWithin ⟨p.origin, id⟩ op p.layers s).flatMap inside).count σ := by
    rw [slotsFor, List.count_flatMap, List.count_flatMap]
    exact congrArg List.sum (List.map_congr_left fun t _ => h t)
  refine (slotsFor_stack p.ordered s).trans ?_
  rw [hown, hinside, unfinished, List.count_cons, Nat.add_comm]
  simp

end Policy

/-- One slot is held for each unfinished call of a script, if that is so for each of
its invocations. -/
theorem Script.slotsFor_operation {script : Script} {id : CallId}
    (h : ∀ (k : Nat) (s : (scriptBody id k k script).State),
      slotsFor σ ((scriptBody id k k script).holdings s) =
        (scriptUnfinished id k k script s).count σ)
    (t : (script.operation id).State) : slotsFor σ ((script.operation id).holdings t) =
      (scriptUnfinished id t.1 t.1 script t.2.2).count σ := by
  obtain ⟨k, token, s⟩ := t
  show slotsFor σ ((scriptBody id k k script).holdings s ++ [.invocation id k token]) = _
  rw [slotsFor_append, h k s]
  rfl

/-- Have the policies with the origin of a site bulkheads? -/
def Bulkheaded (K : List Policy) (σ : Site) : Prop :=
  ∀ p ∈ K, p.origin = σ.origin → ∃ capacity, .bulkhead capacity ∈ p.layers

mutual

theorem Action.slotsFor_activity (hK : Bulkheaded K σ) (call : CallId) (k position : Nat)
    (a : Action) (h : a.Known K) (s : (a.activity call k position).State) :
    slotsFor σ ((a.activity call k position).holdings s) =
      (a.unfinished call k position s).count σ := by
  cases a with
  | call policy script =>
    have hbody := fun (j : Nat) t =>
      scriptBody_slotsFor hK (.nested call k position policy.name) j j script h.2 t
    exact Policy.slotsFor_call (hK policy h.1) (Script.slotsFor_operation hbody) s.2
  | sleep _ | sleepUnlessCancelled _ | awaitCancel | hang => rfl
  | probe | cancel _ | give _ | panic _ => exact nomatch s

theorem actionsBody_slotsFor (hK : Bulkheaded K σ) (call : CallId) (k position : Nat)
    (actions : List Action) (h : actionsKnown K actions)
    (s : (actionsBody call k position actions).State) :
    slotsFor σ ((actionsBody call k position actions).holdings s) =
      (actionsUnfinished call k position actions s).count σ := by
  cases actions with
  | nil => cases s
  | cons a rest =>
    cases s with
    | inl s => exact a.slotsFor_activity hK call k position h.1 s
    | inr s => exact actionsBody_slotsFor hK call k (position + 1) rest h.2 s

theorem scriptBody_slotsFor (hK : Bulkheaded K σ) (call : CallId) (k i : Nat)
    (script : List (List Action)) (h : scriptKnown K script)
    (s : (scriptBody call k i script).State) :
    slotsFor σ ((scriptBody call k i script).holdings s) =
      (scriptUnfinished call k i script s).count σ := by
  match i, script, h, s with
  | _, [], _, s => cases s
  | _, [actions], h, s => exact actionsBody_slotsFor hK call k 0 actions h.1 s
  | 0, actions :: _ :: _, h, s => exact actionsBody_slotsFor hK call k 0 actions h.1 s
  | i + 1, _ :: next :: rest, h, s => exact scriptBody_slotsFor hK call k i (next :: rest) h.2 s

end

theorem Running.slotsFor_holdings (hK : Bulkheaded K σ) {r : Running} (hp : r.call.policy ∈ K)
    (hs : scriptKnown K r.call.script) : slotsFor σ r.holdings = r.unfinished.count σ := by
  have hbody := fun (j : Nat) t => scriptBody_slotsFor hK r.call.id j j r.call.script hs t
  exact Policy.slotsFor_call (hK _ hp) (Script.slotsFor_operation hbody) r.state

/-- **One slot for each unfinished call** is held, among those of a policy with a
bulkhead. -/
theorem Simulation.Known.count_held {S : Simulation} (h : S.Known) (hK : Bulkheaded S.policies σ) :
    S.held.count (.slot σ) = S.unfinished.count σ := by
  have hall : ∀ running : List Running, running ⊆ S.running →
      (heldBy running).count (.slot σ) = (running.flatMap Running.unfinished).count σ := by
    intro running hsub
    induction running with
    | nil => rfl
    | cons r rest ih =>
      obtain ⟨hp, hs⟩ := h r (hsub List.mem_cons_self)
      have hr : Multiset.count (.slot σ) (r.holdings : Multiset Holding) = r.unfinished.count σ :=
        (Multiset.coe_count _ _).trans (Running.slotsFor_holdings hK hp hs)
      rw [← Multiset.cons_coe, heldBy_cons, Multiset.count_add, hr,
        ih fun r' hr' => hsub (List.mem_cons_of_mem r hr'), List.flatMap_cons, List.count_append]
  exact hall S.running fun _ hr => hr

end CallPolicy
