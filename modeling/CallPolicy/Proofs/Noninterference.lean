/-
Calls through stateless policies do not interfere.

A call through a stateless policy runs among others. What is left of the steps when only this
call is of interest (`Simulation.solo`) makes a run in which the call is alone: it is started,
cancelled and dropped at the same instants, and time passes as before. Chance may decide
otherwise there, but for the ties of the call and the calls inside it. As long as the others
leave the root token of the call alone (`Simulation.Admits`), the call cannot tell the two
runs apart, and nobody can tell them apart by the call:

* **`Shadows.run`** — time passes, and the run among others stops more often on the way;
* **`Shadows.step`** — one step of the run among others, and what is left of it;
* **`noninterference`** — all that is ever recorded about the call, and about the calls inside
  it, is the same, at the same instants.
-/
import CallPolicy.Proofs.Beside
import CallPolicy.Proofs.Timely

namespace CallPolicy

variable {chance : Chance} {c : Call} {fits : c.activity.State → Prop} {S S' : Simulation}
  {w : World}

namespace Simulation

/-! ### Time -/

section

variable {ended : Simulation → Bool} {goal t d : Nat}

theorem setClock_now (h : S.world.now = t) : S.setClock t = S := by
  subst h
  rfl

/-- Nobody waits for an instant in an empty span. -/
theorem nextDeadline?_self (S : Simulation) (t : Nat) : S.nextDeadline? t t = none := by
  cases h : S.nextDeadline? t t with
  | none => rfl
  | some d =>
    have hspan := nextDeadline?_spec h
    omega

theorem mem_of_nextDeadline? (h : S.nextDeadline? t goal = some d) :
    ∃ r ∈ S.running, d ∈ r.deadlines :=
  List.mem_flatMap.mp (List.mem_of_mem_filter (List.min?_mem h))

/-- A run that does not end by itself takes its time. -/
theorem run_now (goal t : Nat) (S : Simulation) :
    (S.run (fun _ => false) goal t).world.now = goal := by
  induction t, S using Simulation.run.induct (fun _ => false) goal with
  | case1 t S hended => cases hended
  | case2 t S hended hnone =>
    rw [run_of_none hended hnone]
    rfl
  | case3 t S hended d hsome ih =>
    rw [run_of_some hended hsome]
    exact ih

/-- A stop on the way changes nothing, as long as it passes no instant that a call waits for. -/
theorem run_stop (hpoised : ∀ r ∈ S.running, r.Poised S.world) (ht : t < d) (hd : d ≤ goal)
    (hnext : ∀ r ∈ S.running, ∀ d' ∈ r.deadlines, d ≤ d') :
    S.run (fun _ => false) goal t = (S.setClock d).settle.run (fun _ => false) goal d := by
  by_cases hwaits : ∃ r ∈ S.running, d ∈ r.deadlines
  · -- a call waits for the very instant
    obtain ⟨r, hr, hmem⟩ := hwaits
    refine run_of_some Bool.false_ne_true (List.min?_eq_some_iff.mpr ⟨?_, fun d' hd' => ?_⟩)
    · exact List.mem_filter.mpr ⟨List.mem_flatMap.mpr ⟨r, hr, hmem⟩, by simp [ht, hd]⟩
    · obtain ⟨r', hr', hmem'⟩ := List.mem_flatMap.mp (List.mem_of_mem_filter hd')
      exact hnext r' hr' d' hmem'
  · -- nobody does, and nothing comes of the stop
    have hlate : ∀ r ∈ S.running, ∀ d' ∈ r.deadlines, d < d' := by
      intro r hr d' hd'
      refine Nat.lt_of_le_of_ne (hnext r hr d' hd') ?_
      rintro rfl
      exact hwaits ⟨r, hr, hd'⟩
    have hsettled : (S.setClock d).settle = S.setClock d := by
      have hstill := settleAll_of_poised fun r hr => (hpoised r hr).clock (hlate r hr)
      unfold settle setClock
      dsimp only
      rw [hstill]
    have hsame : (S.setClock d).nextDeadline? d goal = S.nextDeadline? t goal := by
      refine congrArg List.min? (List.filter_congr fun d' hd' => ?_)
      obtain ⟨r, hr, hmem⟩ := List.mem_flatMap.mp hd'
      have hlt := hlate r hr d' hmem
      simp [hlt, Nat.lt_trans ht hlt]
    rw [hsettled]
    cases hsome : S.nextDeadline? t goal with
    | none =>
      rw [run_of_none Bool.false_ne_true hsome, run_of_none Bool.false_ne_true (hsame.trans hsome)]
      rfl
    | some d' =>
      rw [run_of_some Bool.false_ne_true hsome, run_of_some Bool.false_ne_true (hsame.trans hsome)]
      rfl

end

/-! ### The run of the call alone -/

/-- In the second simulation the call runs alone, if it runs in the first one, and is poised. If
it is still to be started, then in both. -/
structure Shadows (chance : Chance) (c : Call) (fits : c.activity.State → Prop)
    (S S' : Simulation) : Prop where
  beside : S.Beside chance c fits S'.world
  running : S'.running = c.among S.running
  poised : ∀ r ∈ c.among S.running, r.Poised S.world
  awaited : ∀ {name n}, c.id = .top name n → S.started.count name ≤ n → S'.started.count name = n

/-- Both simulations settle. -/
theorem Beside.shadows (hc : c.Secluded fits) (h : S.Beside chance c fits S'.world)
    (hrunning : S'.running = c.among S.running)
    (hawaited : ∀ {name n}, c.id = .top name n → S.started.count name ≤ n →
      S'.started.count name = n) : S.settle.Shadows chance c fits S'.settle := by
  obtain ⟨hcalls, hbeside, hpoised⟩ := Beside.settled hc h
  rw [← hrunning] at hcalls hbeside
  exact ⟨hbeside, hcalls, hpoised, hawaited⟩

namespace Shadows

variable (hc : c.Secluded fits)

section

variable (h : S.Shadows chance c fits S')

include h

theorem poised_alone : ∀ r ∈ S'.running, r.Poised S'.world := by
  rw [h.running]
  exact h.beside.poised_beside h.poised

/-- The call alone has settled. -/
theorem settle_alone : S'.settle = S' := by
  unfold Simulation.settle
  rw [settleAll_of_poised h.poised_alone]

/-- Time passes no instant that the call waits for. -/
theorem setClock {t : Nat} (ht : S.world.now ≤ t)
    (hlate : ∀ r ∈ c.among S.running, ∀ d ∈ r.deadlines, t < d) :
    (S.setClock t).Shadows chance c fits (S'.setClock t) :=
  ⟨h.beside.setClock ht, h.running, fun r hr => (h.poised r hr).clock (hlate r hr), h.awaited⟩

end

include hc

/-- **Time passes** in both simulations. The first one stops at all the instants that somebody
waits for, and perhaps for good. -/
theorem run {ended : Simulation → Bool} {goal t : Nat} (h : S.Shadows chance c fits S')
    (ht : S.world.now = t) (hgoal : t ≤ goal) :
    t ≤ (S.run ended goal t).world.now ∧ (S.run ended goal t).Shadows chance c fits
      (S'.run (fun _ => false) (S.run ended goal t).world.now t) := by
  induction t, S using Simulation.run.induct ended goal generalizing S' with
  -- the run stops here, and so the other one passes no time
  | case1 t S hended =>
    rw [run_of_ended hended, ht, run_of_none Bool.false_ne_true (nextDeadline?_self S' t),
      setClock_now (h.beside.same.now.trans ht)]
    exact ⟨Nat.le_refl t, h⟩
  | case2 t S hended hnone =>
    -- nobody waits for an instant until the goal, so neither does the call by itself
    have hlate : ∀ r ∈ c.among S.running, ∀ d ∈ r.deadlines, goal < d := by
      intro r hr d hd
      refine lt_of_nextDeadline?_none hnone (Call.mem_among.mp hr).1 hd ?_
      exact ht ▸ (h.poised r hr).due d hd
    have halone : S'.nextDeadline? t goal = none := by
      cases hsome : S'.nextDeadline? t goal with
      | none => rfl
      | some d =>
        obtain ⟨r, hr, hd⟩ := mem_of_nextDeadline? hsome
        have hlt := hlate r (h.running ▸ hr) d hd
        have hle := (nextDeadline?_spec hsome).2
        omega
    rw [run_of_none hended hnone]
    show t ≤ goal ∧ (S.setClock goal).Shadows chance c fits (S'.run (fun _ => false) goal t)
    rw [run_of_none Bool.false_ne_true halone]
    exact ⟨hgoal, h.setClock (ht.trans_le hgoal) hlate⟩
  | case3 t S hended d hsome ih =>
    obtain ⟨hlt, hle⟩ := nextDeadline?_spec hsome
    have hticked := h.beside.setClock (ht.trans_le (Nat.le_of_lt hlt))
    -- both settle at the next instant that anybody waits for
    have hsettled : (S.setClock d).settle.Shadows chance c fits (S'.setClock d).settle :=
      Beside.shadows hc hticked h.running h.awaited
    have hnow : (S.setClock d).settle.world.now = d := (Reachable.settle hticked.reachable).2
    obtain ⟨hlast, hshadows⟩ := ih hsettled hnow hle
    rw [run_of_some hended hsome]
    refine ⟨Nat.le_trans (Nat.le_of_lt hlt) hlast, ?_⟩
    -- the call by itself may wait for a later one, and then this instant changes nothing
    rw [run_stop h.poised_alone hlt hlast fun r hr d' hd' => ?_]
    · exact hshadows
    · have hr' : r ∈ c.among S.running := h.running ▸ hr
      refine nextDeadline?_le hsome (Call.mem_among.mp hr').1 hd' ?_
      exact ht ▸ (h.poised r hr').due d' hd'

theorem advance {ended : Simulation → Bool} {length : Nat} (h : S.Shadows chance c fits S') :
    (S.advance ended length).Shadows chance c fits
      (S'.advance (fun _ => false) ((S.advance ended length).world.now - S.world.now)) := by
  obtain ⟨hle, hshadows⟩ : S.world.now ≤ (S.advance ended length).world.now ∧ _ :=
    h.run hc rfl (Nat.le_add_right S.world.now length)
  unfold Simulation.advance at hle ⊢
  rw [h.beside.same.now, Nat.add_sub_cancel' hle]
  exact hshadows

end Shadows

/-! ### Steps -/

/-- What is left of a step when only one call is of interest. However long a call has taken,
just as much time passes. -/
def solo (c : Call) (S : Simulation) : Step → List Step
  | .start r => if S.nextId r.name = c.id then [.start r] else []
  | .call r limit =>
    (if S.nextId r.name = c.id then [.start r] else []) ++
      [.advance ((S.step (.call r limit)).world.now - S.world.now)]
  | .advance length => [.advance length]
  | .jump length => [.jump length]
  | .cancel token => if token = c.token.root then [.cancel token] else []
  | .drop name =>
    if (S.running.find? (·.call.id.text = name)).any (·.call.id = c.id) then [.drop name] else []

/-- What is left of several steps. -/
def soloAll (c : Call) : Simulation → List Step → List Step
  | _, [] => []
  | S, step :: rest => S.solo c step ++ (S.step step).soloAll c rest

/-- A request makes the call, or another one that leaves its root token alone: neither a hook
nor an action cancels it. -/
structure Admits (c : Call) (S : Simulation) (r : Request) : Prop where
  own : S.nextId r.name = c.id → S.callOf r = c
  other : S.nextId r.name ≠ c.id → (S.callOf r).Leaves c.token.root

/-- The step starts no call that cancels the root token of the call, and the clock is not moved
across an instant that the call waits for without a look at it. -/
def Permits (c : Call) (S : Simulation) : Step → Prop
  | .start r => S.Admits c r
  | .call r _ => S.Admits c r
  | .jump length =>
    ∀ r ∈ S.running, r.call.id = c.id → ∀ d ∈ r.deadlines, S.world.now + length < d
  | _ => True

/-- The same for several steps. -/
def PermitsAll (c : Call) : Simulation → List Step → Prop
  | _, [] => True
  | S, step :: rest => S.Permits c step ∧ (S.step step).PermitsAll c rest

theorem run_policies (ended : Simulation → Bool) (goal t : Nat) (S : Simulation) :
    (S.run ended goal t).policies = S.policies := by
  induction t, S using Simulation.run.induct ended goal with
  | case1 t S hended => rw [run_of_ended hended]
  | case2 t S hended hnone =>
    rw [run_of_none hended hnone]
    rfl
  | case3 t S hended d hsome ih =>
    rw [run_of_some hended hsome]
    exact ih

/-- No step builds a policy. -/
theorem step_policies (S : Simulation) (step : Step) : (S.step step).policies = S.policies := by
  cases step with
  | start r => rfl
  | call r limit => exact run_policies _ _ _ _
  | advance length => exact run_policies _ _ _ _
  | jump length => rfl
  | cancel token => rfl
  | drop name =>
    show (S.dropCall name).policies = S.policies
    rcases S.dropCall_cases name with ⟨-, heq⟩ | ⟨before, r, after, -, -, heq⟩ <;> rw [heq]

namespace Shadows

variable (hc : c.Secluded fits) (h : S.Shadows chance c fits S')

include hc h

/-- Something is done that is nothing to the call, and the one alone goes on. -/
theorem unmoved {T : Simulation} (hbeside : T.Beside chance c fits S'.world)
    (hrunning : c.among T.running = c.among S.running)
    (hstarted : ∀ name, S.started.count name ≤ T.started.count name) :
    T.settle.Shadows chance c fits S' := by
  rw [← h.settle_alone]
  refine Beside.shadows hc hbeside (h.running.trans hrunning.symm) fun {name n} hid hle => ?_
  exact h.awaited hid (Nat.le_trans (hstarted name) hle)

theorem launch_own {r : Request} (hp : r.policy ∈ S.policies)
    (hs : scriptKnown S.policies r.script) (hcall : S.callOf r = c) :
    (S.startCall r).Shadows chance c fits (S'.startCall r) := by
  have hid : c.id = .top r.name (S.started.count r.name) := (congrArg Call.id hcall).symm
  -- the call has the same identity in both simulations
  have hcall' : S'.callOf r = c := by
    rw [← hcall]
    unfold callOf nextId
    rw [h.awaited hid (Nat.le_refl _)]
  obtain ⟨heq, hbeside⟩ := h.beside.launch_own hc hp hs hcall
  have hnone : c.among S.running = [] := Call.among_eq_nil fun r' hr' heq =>
    h.beside.orderly.ne_nextId hr' r.name (heq.trans hid)
  have hlaunch := launch_of_callOf hcall
  have hlaunch' := launch_of_callOf hcall'
  refine Beside.shadows hc ?_ ?_ fun {name n} hname hle => ?_
  · rw [hlaunch']
    exact hbeside
  · rw [hlaunch, hlaunch', heq, h.running, Call.among_append, hnone, Call.among_ofStatus_own rfl]
  · obtain ⟨rfl, rfl⟩ := CallId.top.inj (hname.symm.trans hid)
    rw [hlaunch, List.count_cons_self] at hle
    omega

theorem launch_other {r : Request} (hp : r.policy ∈ S.policies)
    (hs : scriptKnown S.policies r.script) (hne : S.nextId r.name ≠ c.id)
    (hleaves : (S.callOf r).Leaves c.token.root) :
    (S.startCall r).Shadows chance c fits S' := by
  refine h.unmoved hc (h.beside.launch_other hc hp hs hne hleaves) ?_ fun name =>
    List.count_le_count_cons
  have hlaunch : (S.launch r).running = S.running ++ (Running.ofStatus (S.callOf r)
    ((S.callOf r).activity.start (S.callOf r).token S.world)).1.toList := rfl
  rw [hlaunch, Call.among_append, Call.among_ofStatus_other hne, List.append_nil]

/-- A call is started. -/
theorem startCall {r : Request} (hp : r.policy ∈ S.policies) (hs : scriptKnown S.policies r.script)
    (hadmits : S.Admits c r) :
    (S.startCall r).Shadows chance c fits
      ((if S.nextId r.name = c.id then [Step.start r] else []).foldl Simulation.step S') := by
  split
  next hid => exact h.launch_own hc hp hs (hadmits.own hid)
  next hne => exact h.launch_other hc hp hs hne (hadmits.other hne)

/-- A root token is cancelled. -/
theorem cancel (token : String) :
    (S.step (.cancel token)).Shadows chance c fits
      ((if token = c.token.root then [Step.cancel token] else []).foldl Simulation.step S') := by
  have hreachable := h.beside.reachable.tail (.cancel S token)
  split
  next hown =>
    have hbeside : Beside chance c fits { S with world := S.world.cancel (.named token) }
        (S'.world.cancel (.named token)) :=
      ⟨hreachable, h.beside.same.cancel _, h.beside.own, h.beside.others⟩
    exact Beside.shadows hc hbeside h.running h.awaited
  next hne =>
    have hsame := (World.SameFor.allows hc.outermost hc.root).cancel_named S.world hne
    have hbeside :
        Beside chance c fits { S with world := S.world.cancel (.named token) } S'.world :=
      ⟨hreachable, hsame.symm.trans h.beside.same, h.beside.own, h.beside.others⟩
    exact h.unmoved hc hbeside rfl fun _ => Nat.le_refl _

/-- The call is dropped, and runs in neither simulation any more. -/
theorem drop_own {before after : List Running} {r : Running} {name : String}
    (hr : S.running = before ++ r :: after) (hown : r.call.id = c.id)
    (hname : r.call.id.text = name) :
    (settle { S with world := S.world.releaseAll r.holdings, running := before ++ after }).Shadows
      chance c fits (S'.dropCall name).settle := by
  have hnone := h.beside.among_others hr hown
  have halone : S'.running = [r] := by
    rw [Call.among_append, List.append_eq_nil_iff] at hnone
    rw [h.running, hr, Call.among_append, Call.among_cons_own hown, hnone.1, hnone.2]
    rfl
  have hdropped : S'.dropCall name =
      { S' with world := S'.world.releaseAll r.holdings, running := [] } := by
    simp [dropCall, halone, hname]
  rw [hdropped]
  exact Beside.shadows hc (h.beside.drop_own hc hr hown) hnone.symm h.awaited

/-- A call is dropped, if one with the name runs. -/
theorem drop (name : String) :
    (S.step (.drop name)).Shadows chance c fits
      ((S.solo c (.drop name)).foldl Simulation.step S') := by
  show ((S.dropCall name).settle).Shadows chance c fits _
  simp only [solo]
  rcases S.dropCall_cases name with ⟨hnone, heq⟩ | ⟨before, r, after, hfound, hrunning, heq⟩
  · rw [heq, hnone]
    exact h.unmoved hc h.beside rfl fun _ => Nat.le_refl _
  · rw [heq, hfound]
    by_cases hown : r.call.id = c.id
    · rw [if_pos (by simpa using hown)]
      exact h.drop_own hc hrunning hown (by simpa using List.find?_some hfound)
    · rw [if_neg (by simpa using hown)]
      refine h.unmoved hc (h.beside.drop_other hc hrunning hown) ?_ fun _ => Nat.le_refl _
      rw [hrunning, Call.among_append, Call.among_append, Call.among_cons_other hown]

/-- **One step**, and what is left of it. -/
theorem step {step : Step} (hk : step.Known S.policies) (hpermits : S.Permits c step) :
    (S.step step).Shadows chance c fits ((S.solo c step).foldl Simulation.step S') := by
  cases step with
  | start r => exact h.startCall hc hk.1 hk.2 hpermits
  | call r limit =>
    have hstarted := h.startCall hc hk.1 hk.2 hpermits
    -- starting the call takes no time, so both clocks advance from the same instant
    have hnow : (S.startCall r).world.now = S.world.now :=
      (Reachable.settle (h.beside.reachable.tail (.start S r hk.1 hk.2))).2.trans
        (h.beside.orderly.launch_now r)
    have hlast : (S.step (.call r limit)).Shadows chance c fits _ := hstarted.advance hc
    rw [hnow] at hlast
    unfold solo
    rw [List.foldl_append]
    exact hlast
  | advance length =>
    have hlast : (S.advance (fun _ => false) length).Shadows chance c fits _ := h.advance hc
    -- the call alone waits as long as the simulation has waited
    have htime : (S.advance (fun _ => false) length).world.now - S.world.now = length := by
      rw [Simulation.advance, run_now]
      exact Nat.add_sub_cancel_left _ _
    rw [htime] at hlast
    exact hlast
  | jump length =>
    show (S.setClock _).Shadows chance c fits (S'.setClock (S'.world.now + length))
    rw [h.beside.same.now]
    refine h.setClock (Nat.le_add_right _ _) fun r hr d hd => ?_
    obtain ⟨hmem, hown⟩ := Call.mem_among.mp hr
    exact hpermits r hmem hown d hd
  | cancel token => exact h.cancel hc token
  | drop name => exact h.drop hc name

omit h in
/-- **A run**, and what is left of it. -/
theorem steps {steps : List Step} (h : S.Shadows chance c fits S')
    (hk : ∀ step ∈ steps, step.Known S.policies) (hpermits : S.PermitsAll c steps) :
    (steps.foldl Simulation.step S).Shadows chance c fits
      ((S.soloAll c steps).foldl Simulation.step S') := by
  induction steps generalizing S S' with
  | nil => exact h
  | cons step rest ih =>
    obtain ⟨hstep, hrest⟩ := List.forall_mem_cons.mp hk
    unfold soloAll
    rw [List.foldl_cons, List.foldl_append]
    refine ih (h.step hc hstep hpermits.1) ?_ hpermits.2
    rw [step_policies]
    exact hrest

end Shadows

end Simulation

/-- **Calls through stateless policies do not interfere.** A call through a policy without
state, whose operation calls such policies alone, runs among any number of other calls through
any policies, none of which cancels its root token. Leave out all steps but those that start the
call, cancel its root token or drop it, and let time pass as before. Let the draws be others,
and the ties of other calls, which share the source of chance with this one: then whatever is
recorded about the call and about the calls inside it is recorded at the same instant, so each
of its invocations begins, finishes or is dropped with its token in the same state, and the
call ends in the same way. If it still runs, it stands at the same place. -/
theorem calls_do_not_interfere (hS : S.Reachable chance) (hidle : S.running = []) {name : String}
    {n : Nat} (hid : c.id = .top name n) (hroot : c.token.path = [])
    (hnew : S.started.count name ≤ n) (hpolicy : c.policy.Stateless)
    (hscript : scriptStateless c.script) {other : Chance}
    (hties : ∀ {id : CallId}, id.outermost = c.id → other.ties id = S.world.chance.ties id)
    {steps : List Step} (hknown : ∀ step ∈ steps, step.Known S.policies)
    (hpermits : S.PermitsAll c steps) :
    let among := steps.foldl Simulation.step S
    let alone := (S.soloAll c steps).foldl Simulation.step
      { S with world := { S.world with chance := other }, started := List.replicate n name }
    alone.world.now = among.world.now ∧
      alone.world.history c.id = among.world.history c.id ∧
      alone.running = among.running.filter (·.call.id = c.id) := by
  have houtermost : c.id.outermost = c.id := by
    rw [hid]
    rfl
  obtain ⟨fits, hsecluded⟩ := Policy.secluded hpolicy houtermost hscript c.token
  have hc : c.Secluded fits := ⟨houtermost, hroot, hsecluded.insular, hsecluded.resigns⟩
  have hnone : ∀ r, r ∉ S.running := by
    rw [hidle]
    exact fun _ => List.not_mem_nil
  have hsame : S.world.SameFor c.id c.token { S.world with chance := other } :=
    ⟨rfl, ⟨fun _ => rfl⟩, fun _ => rfl, fun _ => rfl, hties, rfl⟩
  have hbefore : S.Shadows chance c fits
      { S with world := { S.world with chance := other }, started := List.replicate n name } := by
    refine ⟨⟨hS, hsame, fun r hr => absurd hr (hnone r), fun r hr => absurd hr (hnone r)⟩,
      ?_, fun r hr => absurd (Call.mem_among.mp hr).1 (hnone r), fun {name' n'} hid' hle => ?_⟩
    · rw [hidle]
      rfl
    · obtain ⟨rfl, rfl⟩ := CallId.top.inj (hid'.symm.trans hid)
      exact List.count_replicate_self
  have hafter := Simulation.Shadows.steps hc hbefore hknown hpermits
  exact ⟨hafter.beside.same.now, hafter.beside.same.history, hafter.running⟩

/-- A policy with a deadline that allows two attempts, ten milliseconds apart. -/
def lenient : Policy where
  origin := ⟨0, "p", .none⟩
  layers :=
    [.timeout (.ofMillis 50), .retry { maxAttempts := 2, backoff := .constant (.ofMillis 10) }]
  criticality := .critical
  dependencies := []
  ordered := List.pairwise_pair.mpr (by decide)
  faultless l hl := by
    rcases List.mem_pair.mp hl with rfl | rfl <;> decide

/-- The policy has been built. -/
def readied : Simulation :=
  ((Simulation.start fun _ => 0).build "p"
    [.timeout (.ofMillis 50), .retry { maxAttempts := 2, backoff := .constant (.ofMillis 10) }]).2

/-- A call through it whose first attempt fails. -/
def stumbling : Call :=
  ⟨.top "c" 0, lenient, [[.give (.error (.operation "e" none))], [.give (.ok "v")]], .named "t"⟩

/-- Two other calls come and go while it waits to be repeated. -/
def together : List Step :=
  [.start ⟨"c", lenient, stumbling.script, "t"⟩, .start ⟨"d", lenient, [[.awaitCancel]], "u"⟩,
   .advance 5000000, .cancel "u", .call ⟨"d", lenient, [[.hang]], "u"⟩ 20000000]

/-- Chance that decides otherwise in the ties of other calls. -/
def elsewhere : Chance := ⟨fun _ => 0.5, fun id _ => id.outermost = stumbling.id⟩

/-- The second attempt is made at the same instant as if the call were alone. -/
theorem calls_do_not_interfere_stumbling :
    let id : CallId := .top "c" 0
    let among := together.foldl Simulation.step readied
    let alone := (readied.soloAll stumbling together).foldl Simulation.step
      { readied with world := { readied.world with chance := elsewhere } }
    readied.Reachable .plain ∧ stumbling.policy.Stateless ∧
    scriptStateless stumbling.script ∧ elsewhere.ties (.top "d" 0) 1 = false ∧
    (∀ step ∈ together, step.Known readied.policies) ∧
    readied.PermitsAll stumbling together ∧
    among.started = ["d", "d", "c"] ∧ alone.started = ["c"] ∧
    alone.world.now = among.world.now ∧
    alone.running = among.running.filter (·.call.id = id) ∧
    alone.world.history id = among.world.history id ∧
    alone.world.history id =
      [⟨10000000, .settled id (.returned (.ok "v")) [false, false]⟩,
       ⟨10000000, .finished id 1 (.returned (.ok "v"))⟩,
       ⟨10000000, .invoked id 1 false⟩,
       ⟨0, .event ⟨lenient.origin, id⟩ (.retrying 1 (.operation "e" none))⟩,
       ⟨0, .finished id 0 (.returned (.error (.operation "e" none)))⟩,
       ⟨0, .invoked id 0 false⟩] := by
  intro id among alone
  have hS : readied.Reachable .plain := .single (.build _ "p" _)
  have hpolicy : stumbling.policy.Stateless := by
    intro l hl
    rcases List.mem_pair.mp hl with rfl | rfl
    · trivial
    · rfl
  have hscript : scriptStateless stumbling.script :=
    ⟨⟨trivial, trivial⟩, ⟨trivial, trivial⟩, trivial⟩
  have hties : ∀ {id : CallId}, id.outermost = stumbling.id →
      elsewhere.ties id = readied.world.chance.ties id := fun hid => by
    funext n
    exact decide_eq_true hid
  have hp : lenient ∈ readied.policies := List.mem_singleton_self _
  have hknown : ∀ step ∈ together, step.Known readied.policies := by
    simp [together, Step.Known, hp, stumbling, scriptKnown, actionsKnown, Action.Known]
  -- the other calls have another name and no hooks, and know their own token alone
  have hother : ∀ (S : Simulation) (script : Script), scriptLeaves "t" script →
      S.Admits stumbling ⟨"d", lenient, script, "u"⟩ := by
    intro S script hleaves
    refine ⟨fun heq => ?_, fun _ => ⟨fun hook => ?_, hleaves⟩⟩
    · simp [Simulation.nextId, stumbling] at heq
    · simp [lenient, Simulation.callOf, Hooks.cancelled?, Hooks.has, Hooks.none]
  have hpermits : readied.PermitsAll stumbling together :=
    ⟨⟨fun _ => rfl, fun hne => absurd rfl hne⟩, hother _ _ ⟨⟨trivial, trivial⟩, trivial⟩, trivial,
      trivial, hother _ _ ⟨⟨trivial, trivial⟩, trivial⟩, trivial⟩
  obtain ⟨hnow, hhistory, hrunning⟩ :=
    calls_do_not_interfere hS rfl rfl rfl (Nat.le_refl 0) hpolicy hscript hties hknown hpermits
  exact ⟨hS, hpolicy, hscript, rfl, hknown, hpermits, by decide +kernel, by decide +kernel, hnow,
    hrunning, hhistory, hhistory.trans (by decide +kernel)⟩

end CallPolicy
