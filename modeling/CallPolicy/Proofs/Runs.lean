/-
Runs of a simulation, and their moments.

A `Simulation.Move` is the least that can be done to a simulation: a policy is
built, a call is started, resumed or dropped, a token is cancelled, or time passes.
Moves come in any order, and a call may be resumed or dropped at any time
(`Simulation.Reachable`). A `Moment` is a scene that occurs in a run, also while a
call is at work:

* **`Reachable.moment`** — what a move does is a number of effects, so whatever is
  reached by moves is a moment.
-/
import CallPolicy.Proofs.LawfulScript
import Mathlib.Algebra.BigOperators.Group.Multiset.Basic

namespace CallPolicy

open Relation

namespace Simulation

/-- What some suspended calls hold. -/
def heldBy (running : Multiset Running) : Multiset Holding :=
  (running.map fun r => (r.holdings : Multiset Holding)).sum

/-- What the suspended calls of a simulation hold. -/
def held (S : Simulation) : Multiset Holding := heldBy S.running

/-- The least that can be done to a simulation. -/
inductive Move : Simulation → Simulation → Prop
  | build (S : Simulation) (name : String) (description : List Setting) :
      Move S (S.build name description).2
  /-- A call is started whose policy, and the ones that its script calls, were built. -/
  | start (S : Simulation) (r : Request) (hp : r.policy ∈ S.policies)
      (hs : scriptKnown S.policies r.script) : Move S (S.launch r)
  | resume (S : Simulation) {before after : List Running} {r : Running}
      (h : S.running = before ++ r :: after) :
      Move S
        { S with
          world := (r.resume S.world).2
          running := before ++ (r.resume S.world).1.toList ++ after }
  | drop (S : Simulation) {before after : List Running} {r : Running}
      (h : S.running = before ++ r :: after) :
      Move S { S with world := S.world.releaseAll r.holdings, running := before ++ after }
  | cancel (S : Simulation) (name : String) :
      Move S { S with world := S.world.cancel (.named name) }
  | tick (S : Simulation) (t : Nat) (ht : S.world.now ≤ t) : Move S (S.setClock t)

/-- What moves lead to from the beginning. -/
def Reachable (chance : Chance) (S : Simulation) : Prop :=
  ReflTransGen Move (.start chance.draws chance.ties) S

end Simulation

/-- A scene that occurs in a run, with the policies that were built and the names of
the calls that were started so far. -/
inductive Moment (chance : Chance) : List Policy → List String → Scene → Prop
  | start : Moment chance [] [] ⟨.start chance, 0, 0⟩
  | effect {K : List Policy} {N : List String} {x y : Scene} (h : Moment chance K N x)
      (e : Effect K x y) : Moment chance K N y
  | tick {K : List Policy} {N : List String} {w : World} {H : Multiset Holding}
      {R : Multiset Right} (h : Moment chance K N ⟨w, H, R⟩) (t : Nat) (ht : w.now ≤ t) :
      Moment chance K N ⟨{ w with now := t }, H, R⟩
  | build {K : List Policy} {N : List String} {w : World} {H : Multiset Holding}
      {R : Multiset Right} (h : Moment chance K N ⟨w, H, R⟩) (p : Policy)
      (hp : p.origin.key = K.length) : Moment chance (K ++ [p]) N ⟨p.install w, H, R⟩
  | call {K : List Policy} {N : List String} {w : World} {H : Multiset Holding}
      {R : Multiset Right} (h : Moment chance K N ⟨w, H, R⟩) (name : String) {p : Policy}
      (hp : p ∈ K) : Moment chance K (name :: N) ⟨w, H, p.rights (.top name (N.count name)) + R⟩

variable {chance : Chance} {K K' : List Policy} {N : List String} {x y : Scene}
  {S S' : Simulation} {r : Running} {R : Multiset Right}

theorem Moment.steps (h : Moment chance K N x) (hs : Steps K x y) : Moment chance K N y := by
  induction hs with
  | refl => exact h
  | tail _ e ih => exact ih.effect e

/-- The key of a policy is the one that it was built with. -/
theorem Policy.key_of_build {key : Nat} {name : String}
    {description : List Setting} {p : Policy}
    (h : (Policy.build key name description).outcome = .ok p) : p.origin.key = key := by
  unfold Policy.build at h
  dsimp only at h
  split at h
  · cases h
  · cases h
    rfl

namespace Running

/-- A suspended call has the rights `R`, and all that it will do is effects. -/
def Owns (K : List Policy) (r : Running) (R : Multiset Right) : Prop :=
  ∃ needs rights, r.call.activity.Lawful K needs rights ∧ rights r.state = R

theorem Owns.mono (h : r.Owns K R) (hK : K ⊆ K') : r.Owns K' R := by
  obtain ⟨needs, rights, hl, hR⟩ := h
  exact ⟨needs, rights, hl.mono hK, hR⟩

/-- Taking up the status of a call is a number of effects, and a call that is
suspended then has rights of its own. -/
theorem ofStatus_steps {c : Call} {needs : Multiset Right}
    {rights : c.activity.State → Multiset Right} (hl : c.activity.Lawful K needs rights)
    {out : Status c.activity.State Result × World} (h : Leads K x c.activity.holdings rights out) :
    ∃ owners : Multiset (Running × Multiset Right),
      owners.map Prod.fst = (ofStatus c out).1.toList ∧ (∀ q ∈ owners, q.1.Owns K q.2) ∧
      Steps K x
        ⟨(ofStatus c out).2, Simulation.heldBy (owners.map Prod.fst),
          (owners.map Prod.snd).sum⟩ := by
  rcases out with ⟨s | r | t, w⟩
  · refine ⟨{(⟨c, s⟩, rights s)}, rfl, ?_, ?_⟩
    · intro q hq
      rw [Multiset.mem_singleton] at hq
      subst hq
      exact ⟨needs, rights, hl, rfl⟩
    · rw [Multiset.map_singleton, Multiset.map_singleton, Multiset.sum_singleton,
        Simulation.heldBy, Multiset.map_singleton, Multiset.sum_singleton]
      exact h
  · exact ⟨0, rfl, by simp, Steps.trans h (.plain (.note w _ rfl) 0 0)⟩
  · exact ⟨0, rfl, by simp, Steps.trans h (.plain (.note w _ rfl) 0 0)⟩

/-- A call remains the same call when it goes on. -/
theorem call_of_mem_ofStatus {c : Call} {out : Status c.activity.State Result × World}
    (h : r ∈ (ofStatus c out).1.toList) : r.call = c := by
  rcases out with ⟨s | r' | t, w⟩
  · obtain rfl := List.mem_singleton.mp h
    rfl
  · cases h
  · cases h

end Running

namespace Simulation

/-- The rights of the suspended calls make up a moment with what they hold. -/
def Accounted (chance : Chance) (S : Simulation) : Prop :=
  ∃ owners : Multiset (Running × Multiset Right), owners.map Prod.fst = S.running ∧
    (∀ q ∈ owners, q.1.Owns S.policies q.2) ∧
    Moment chance S.policies S.started ⟨S.world, S.held, (owners.map Prod.snd).sum⟩

@[simp] theorem heldBy_add (rs rs' : Multiset Running) :
    heldBy (rs + rs') = heldBy rs + heldBy rs' := by
  rw [heldBy, Multiset.map_add, Multiset.sum_add]
  rfl

@[simp] theorem heldBy_cons (r : Running) (rs : Multiset Running) :
    heldBy (r ::ₘ rs) = r.holdings + heldBy rs := by
  rw [heldBy, Multiset.map_cons, Multiset.sum_cons]
  rfl

section

variable {before new after : List Running}

theorem mem_running (hr : S.running = before ++ r :: after) : r ∈ S.running := by
  rw [hr]
  exact List.mem_append_right _ List.mem_cons_self

/-- The calls beside one that runs. -/
theorem others_sublist (hr : S.running = before ++ r :: after) :
    (before ++ after).Sublist S.running := by
  rw [hr]
  exact (List.sublist_cons_self r after).append_left before

/-- Something has taken the place of a call. -/
theorem mem_replaced (h : r ∈ before ++ new ++ after) : r ∈ before ++ after ∨ r ∈ new := by
  simp only [List.mem_append] at h ⊢
  tauto

end

/-- A call is taken out, and something takes its place. -/
theorem Accounted.replace {before new after : List Running} {w : World} (h : S.Accounted chance)
    (hr : S.running = before ++ r :: after)
    (hnew : ∀ R, r.Owns S.policies R → ∃ owners : Multiset (Running × Multiset Right),
      owners.map Prod.fst = new ∧ (∀ q ∈ owners, q.1.Owns S.policies q.2) ∧
      Steps S.policies ⟨S.world, r.holdings, R⟩
        ⟨w, heldBy (owners.map Prod.fst), (owners.map Prod.snd).sum⟩) :
    Accounted chance { S with world := w, running := before ++ new ++ after } := by
  obtain ⟨owners, hrunning, howns, hm⟩ := h
  have hmem : r ∈ owners.map Prod.fst := by
    rw [hrunning, hr]
    simp
  obtain ⟨⟨r', R⟩, hq, rfl⟩ := Multiset.mem_map.mp hmem
  obtain ⟨rest, rfl⟩ := Multiset.exists_cons_of_mem hq
  -- the owners of the rights are the running calls in some order
  have hrest : rest.map Prod.fst = (before ++ after : List Running) := by
    have hperm : (S.running : Multiset Running) = r' ::ₘ (before ++ after : List Running) := by
      rw [hr]
      exact Multiset.coe_eq_coe.mpr List.perm_middle
    rw [hperm, Multiset.map_cons] at hrunning
    exact (Multiset.cons_inj_right _).mp hrunning
  obtain ⟨owners', hnew', howns', hsteps⟩ := hnew R (howns _ hq)
  have hall : (owners' + rest).map Prod.fst = (before ++ new ++ after : List Running) := by
    rw [Multiset.map_add, hnew', hrest, Multiset.coe_add, Multiset.coe_eq_coe, ← List.append_assoc]
    exact List.perm_append_comm.append_right after
  refine ⟨owners' + rest, hall, ?_, ?_⟩
  · intro q hq
    rcases Multiset.mem_add.mp hq with hq | hq
    · exact howns' q hq
    · exact howns q (Multiset.mem_cons_of_mem hq)
  · -- the other calls keep what they hold and their rights
    have hframe := hsteps.frame (heldBy (rest.map Prod.fst)) (rest.map Prod.snd).sum
    rw [held, ← hrunning, Multiset.map_cons, heldBy_cons, Multiset.map_cons,
      Multiset.sum_cons] at hm
    have hm' := hm.steps hframe
    rw [Scene.beside_mk w, ← heldBy_add, ← Multiset.map_add, hall, ← Multiset.sum_add,
      ← Multiset.map_add] at hm'
    exact hm'

theorem Accounted.build (h : S.Accounted chance) (name : String) (description : List Setting) :
    (S.build name description).2.Accounted chance := by
  unfold Simulation.build
  dsimp only
  split
  next p hp =>
    obtain ⟨owners, hrunning, howns, hm⟩ := h
    refine ⟨owners, hrunning, fun q hq => ?_, hm.build p (Policy.key_of_build hp)⟩
    exact (howns q hq).mono (List.subset_append_left _ _)
  next => exact h

theorem Accounted.launch (h : S.Accounted chance) {r : Request} (hp : r.policy ∈ S.policies)
    (hs : scriptKnown S.policies r.script) : (S.launch r).Accounted chance := by
  obtain ⟨owners, hrunning, howns, hm⟩ := h
  obtain ⟨rights, hl⟩ := Call.lawful (c := S.callOf r) hp hs
  obtain ⟨owners', hnew, howns', hsteps⟩ :=
    Running.ofStatus_steps hl (hl.start (S.callOf r).token S.world)
  have hall : (owners' + owners).map Prod.fst = ((S.launch r).running : Multiset Running) := by
    rw [Multiset.map_add, hnew, hrunning, add_comm, Multiset.coe_add]
    rfl
  refine ⟨owners' + owners, hall, ?_, ?_⟩
  · intro q hq
    rcases Multiset.mem_add.mp hq with hq | hq
    · exact howns' q hq
    · exact howns q hq
  · -- the new call brings its rights, and the others keep theirs
    have hframe := hsteps.frame S.held (owners.map Prod.snd).sum
    rw [Scene.beside_mk S.world, zero_add] at hframe
    have hm' := (hm.call r.name hp).steps hframe
    rw [Scene.beside_mk (Running.ofStatus _ _).2, held, ← hrunning, ← heldBy_add,
      ← Multiset.map_add, ← Multiset.sum_add, ← Multiset.map_add, hall] at hm'
    exact hm'

theorem Accounted.move (h : S.Accounted chance) (m : Move S S') : S'.Accounted chance := by
  cases m with
  | build name description => exact h.build name description
  | start r hp hs => exact h.launch hp hs
  | @resume before after r hr =>
    refine h.replace hr fun R hR => ?_
    obtain ⟨needs, rights, hl, rfl⟩ := hR
    exact Running.ofStatus_steps hl (hl.resume r.state S.world)
  | @drop before after r hr =>
    have hnew : Accounted chance
        { S with world := S.world.releaseAll r.holdings, running := before ++ [] ++ after } :=
      h.replace hr fun R _ => ⟨0, rfl, by simp, Steps.drop S.world r.holdings R⟩
    rw [List.append_nil] at hnew
    exact hnew
  | cancel name =>
    obtain ⟨owners, hrunning, howns, hm⟩ := h
    exact ⟨owners, hrunning, howns, hm.steps (.plain (.cancel _ _) _ _)⟩
  | tick t ht =>
    obtain ⟨owners, hrunning, howns, hm⟩ := h
    exact ⟨owners, hrunning, howns, hm.tick t ht⟩

/-- A call that runs has rights of its own, beside those of the others. -/
theorem Accounted.exists_rights (h : S.Accounted chance) (hr : r ∈ S.running) :
    ∃ R H R', r.Owns S.policies R ∧
      Moment chance S.policies S.started ⟨S.world, r.holdings + H, R + R'⟩ := by
  obtain ⟨owners, hrunning, howns, hm⟩ := h
  have hmem : r ∈ owners.map Prod.fst := by
    rw [hrunning]
    exact hr
  obtain ⟨⟨r, R⟩, hq, rfl⟩ := Multiset.mem_map.mp hmem
  obtain ⟨rest, rfl⟩ := Multiset.exists_cons_of_mem hq
  rw [held, ← hrunning, Multiset.map_cons, heldBy_cons, Multiset.map_cons, Multiset.sum_cons] at hm
  exact ⟨R, _, _, howns _ hq, hm⟩

/-- A policy that was built remains. -/
theorem Move.policies (m : Move S S') : S.policies ⊆ S'.policies := by
  cases m with
  | build name description =>
    unfold Simulation.build
    dsimp only
    split
    · exact List.subset_append_left _ _
    · exact List.Subset.refl _
  | _ => exact List.Subset.refl _

/-- What a move does to the world is a number of effects, unless time passes or a new policy
gets its gates. -/
theorem Accounted.move_cases (h : S.Accounted chance) (m : Move S S') :
    (∃ x y, Moment chance S.policies S'.started x ∧ Steps S.policies x y ∧ x.world = S.world ∧
      y.world = S'.world) ∨
    (∃ t, S.world.now ≤ t ∧ S'.world = { S.world with now := t }) ∨
    ∃ p : Policy, p.origin.key = S.policies.length ∧ S'.world = p.install S.world := by
  cases m with
  | build name description =>
    unfold Simulation.build
    dsimp only
    split
    next p hp => exact .inr (.inr ⟨p, Policy.key_of_build hp, rfl⟩)
    next =>
      obtain ⟨owners, -, -, hm⟩ := h
      exact .inl ⟨_, _, hm, .refl _, rfl, rfl⟩
  | start r hp hs =>
    obtain ⟨owners, -, -, hm⟩ := h
    obtain ⟨rights, hl⟩ := Call.lawful (c := S.callOf r) hp hs
    obtain ⟨owners', -, -, hsteps⟩ :=
      Running.ofStatus_steps hl (hl.start (S.callOf r).token S.world)
    -- what the other calls hold and may do is the frame of the poll
    have hframe := hsteps.frame S.held (owners.map Prod.snd).sum
    rw [Scene.beside_mk S.world, zero_add] at hframe
    exact .inl ⟨_, _, hm.call r.name hp, hframe, rfl, rfl⟩
  | @resume before after r hr =>
    -- the call that is polled is taken out of the sum of all rights
    obtain ⟨R, H, R', ⟨needs, rights, hl, rfl⟩, hm⟩ := h.exists_rights (mem_running hr)
    obtain ⟨owners, -, -, hsteps⟩ := Running.ofStatus_steps hl (hl.resume r.state S.world)
    exact .inl ⟨_, _, hm, hsteps.frame H R', rfl, rfl⟩
  | @drop before after r hr =>
    obtain ⟨R, H, R', -, hm⟩ := h.exists_rights (mem_running hr)
    exact .inl ⟨_, _, hm, (Steps.drop S.world r.holdings R).frame H R', rfl, rfl⟩
  | cancel name =>
    obtain ⟨owners, -, -, hm⟩ := h
    exact .inl ⟨_, _, hm, .plain (.cancel _ _) _ _, rfl, rfl⟩
  | tick t ht => exact .inr (.inl ⟨t, ht, rfl⟩)

theorem Reachable.accounted (h : S.Reachable chance) : S.Accounted chance := by
  induction h with
  | refl => exact ⟨0, rfl, by simp, .start⟩
  | tail _ m ih => exact ih.move m

/-- The calls that run, run through policies that were built, and so do the calls that
they make. -/
def Known (S : Simulation) : Prop :=
  ∀ r ∈ S.running, r.call.policy ∈ S.policies ∧ scriptKnown S.policies r.call.script

theorem Known.move (h : S.Known) (m : Move S S') : S'.Known := by
  cases m with
  | build name description =>
    unfold Simulation.build
    dsimp only
    split
    next p hp =>
      intro r hr
      obtain ⟨hpolicy, hscript⟩ := h r hr
      -- a policy that is built makes no other unknown
      have hK : S.policies ⊆ S.policies ++ [p] := List.subset_append_left _ _
      exact ⟨hK hpolicy, scriptKnown_mono hK hscript⟩
    next => exact h
  | start r hp hs =>
    intro r' hr'
    rcases List.mem_append.mp hr' with hold | hnew
    · exact h r' hold
    -- the one call that is new goes through a policy that has been built
    · have hcall : r'.call = S.callOf r := Running.call_of_mem_ofStatus hnew
      rw [hcall]
      exact ⟨hp, hs⟩
  | @resume before after r hr =>
    intro r' hr'
    rcases mem_replaced hr' with hold | hnew
    · exact h r' ((others_sublist hr).subset hold)
    · have hcall : r'.call = r.call := Running.call_of_mem_ofStatus hnew
      rw [hcall]
      exact h r (mem_running hr)
  | @drop before after r hr =>
    exact fun r' hr' => h r' ((others_sublist hr).subset hr')
  | cancel name => exact h
  | tick t ht => exact h

theorem Reachable.known (h : S.Reachable chance) : S.Known := by
  induction h with
  | refl => exact nofun
  | tail _ m ih => exact ih.move m

/-! ### The steps of a simulation -/

/-- Resuming a call takes no time. -/
theorem Accounted.resume_now (h : S.Accounted chance) (hr : r ∈ S.running) (w : World) :
    (r.resume w).2.now = w.now := by
  obtain ⟨owners, hrunning, howns, -⟩ := h
  have hmem : r ∈ owners.map Prod.fst := by
    rw [hrunning]
    exact hr
  obtain ⟨q, hq, rfl⟩ := Multiset.mem_map.mp hmem
  obtain ⟨needs, rights, hl, -⟩ := howns q hq
  obtain ⟨_, -, -, hsteps⟩ := Running.ofStatus_steps hl (hl.resume q.1.state w)
  exact hsteps.now

theorem Reachable.resumeAll (before : List Running) {running : List Running} {w : World}
    (h : Reachable chance { S with world := w, running := before ++ running }) :
    Reachable chance
        { S with
          world := (resumeAll running w).2
          running := before ++ (resumeAll running w).1 } ∧
      (resumeAll running w).2.now = w.now := by
  -- the calls that have been resumed already stand before those that have not
  induction running generalizing before w with
  | nil => exact ⟨h, rfl⟩
  | cons r rest ih =>
    have hr : ∀ w', { S with world := w', running := before ++ r :: rest }.running =
      before ++ r :: rest := fun _ => rfl
    have hnow := h.accounted.resume_now (mem_running (hr w)) w
    have hmove := h.tail (.resume _ (hr w))
    obtain ⟨hrest, hrestnow⟩ := ih _ hmove
    rw [List.append_assoc] at hrest
    exact ⟨hrest, hrestnow.trans hnow⟩

theorem Reachable.settle (h : S.Reachable chance) :
    S.settle.Reachable chance ∧ S.settle.world.now = S.world.now := by
  have hall : ∀ (running : List Running) (w : World),
      Reachable chance { S with world := w, running := running } →
      Reachable chance
          { S with world := (settleAll running w).2, running := (settleAll running w).1 } ∧
        (settleAll running w).2.now = w.now := by
    intro running w hw
    -- one round after the other
    induction running, w using settleAll.induct with
    | case1 running w next hless ih =>
      obtain ⟨hnext, hnow⟩ := Reachable.resumeAll [] hw
      rw [settleAll, if_pos hless]
      obtain ⟨hlast, hlastnow⟩ := ih hnext
      exact ⟨hlast, hlastnow.trans hnow⟩
    | case2 running w next hless =>
      rw [settleAll, if_neg hless]
      exact Reachable.resumeAll [] hw
  exact hall S.running S.world h

section

variable {ended : Simulation → Bool} {goal t d : Nat}

theorem run_of_ended (hended : ended S = true) : S.run ended goal t = S := by
  rw [run, if_pos hended]

/-- Nobody waits for anything on the way. -/
theorem run_of_none (hended : ¬ended S = true) (h : S.nextDeadline? t goal = none) :
    S.run ended goal t = S.setClock goal := by
  rw [run, if_neg hended]
  split
  next => rfl
  next d hd =>
    rw [h] at hd
    cases hd

/-- Time passes to the next instant that somebody waits for. -/
theorem run_of_some (hended : ¬ended S = true) (h : S.nextDeadline? t goal = some d) :
    S.run ended goal t = (S.setClock d).settle.run ended goal d := by
  rw [run, if_neg hended]
  split
  next hnone =>
    rw [h] at hnone
    cases hnone
  next d' hd =>
    rw [h] at hd
    cases hd
    rfl

theorem Reachable.run (h : S.Reachable chance) (ht : S.world.now = t) (hgoal : t ≤ goal) :
    (S.run ended goal t).Reachable chance := by
  induction t, S using Simulation.run.induct ended goal with
  | case1 t S hended =>
    rw [run_of_ended hended]
    exact h
  | case2 t S hended hnone =>
    rw [run_of_none hended hnone]
    exact h.tail (.tick S goal (ht.trans_le hgoal))
  | case3 t S hended d hsome ih =>
    obtain ⟨hlt, hle⟩ := nextDeadline?_spec hsome
    have hmove := h.tail (.tick S d (ht ▸ Nat.le_of_lt hlt))
    obtain ⟨hsettle, hnow⟩ := Reachable.settle hmove
    rw [run_of_some hended hsome]
    exact ih hsettle hnow hle

end

theorem Reachable.advance {ended : Simulation → Bool} {length : Nat} (h : S.Reachable chance) :
    (S.advance ended length).Reachable chance := h.run rfl (Nat.le_add_right _ _)

/-- A call is dropped if one with the name runs. -/
theorem dropCall_cases (S : Simulation) (name : String) :
    (S.running.find? (·.call.id.text = name) = none ∧ S.dropCall name = S) ∨
    ∃ before r after, S.running.find? (·.call.id.text = name) = some r ∧
      S.running = before ++ r :: after ∧
      S.dropCall name =
        { S with world := S.world.releaseAll r.holdings, running := before ++ after } := by
  cases hr : S.running.find? (·.call.id.text = name) with
  | none =>
    refine .inl ⟨rfl, ?_⟩
    rw [Simulation.dropCall, hr]
  | some r =>
    obtain ⟨hname, before, after, hrunning, hbefore⟩ := List.find?_eq_some_iff_append.mp hr
    have herase : S.running.eraseP (·.call.id.text = name) = before ++ after := by
      rw [hrunning, List.eraseP_append_right _ (by simpa using hbefore),
        List.eraseP_cons_of_pos (by exact hname)]
    refine .inr ⟨before, r, after, rfl, hrunning, ?_⟩
    rw [Simulation.dropCall, hr]
    dsimp only
    rw [herase]

theorem Reachable.dropCall (h : S.Reachable chance) (name : String) :
    (S.dropCall name).Reachable chance := by
  rcases S.dropCall_cases name with ⟨-, heq⟩ | ⟨before, r, after, -, hrunning, heq⟩ <;> rw [heq]
  · exact h
  · exact h.tail (.drop S hrunning)

end Simulation

/-- Does a step start a call of policies among `K` alone? -/
def Step.Known (K : List Policy) : Step → Prop
  | .start r => r.policy ∈ K ∧ scriptKnown K r.script
  | .call r _ => r.policy ∈ K ∧ scriptKnown K r.script
  | _ => True

namespace Simulation

/-- What a step does to a simulation is a number of moves. -/
theorem Reachable.step {step : Step} (h : S.Reachable chance) (hk : step.Known S.policies) :
    (S.step step).Reachable chance := by
  cases step with
  | start r => exact (Reachable.settle (h.tail (.start S r hk.1 hk.2))).1
  | call r limit => exact (Reachable.settle (h.tail (.start S r hk.1 hk.2))).1.advance
  | advance length => exact h.advance
  | jump length => exact h.tail (.tick S _ (Nat.le_add_right _ _))
  | cancel token => exact (Reachable.settle (h.tail (.cancel S token))).1
  | drop name => exact (h.dropCall name).settle.1

/-- **Moments of runs**: what is reached by moves is a moment of a run. -/
theorem Reachable.moment (h : S.Reachable chance) :
    ∃ R, Moment chance S.policies S.started ⟨S.world, S.held, R⟩ := by
  obtain ⟨owners, -, -, hm⟩ := h.accounted
  exact ⟨_, hm⟩

end Simulation

end CallPolicy
