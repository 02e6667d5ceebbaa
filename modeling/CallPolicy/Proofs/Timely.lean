/-
The steps of a simulation are timely.

A simulation that has settled waits for instants to come (`Simulation.Settled`). Time then
passes from one of these instants to the next, and the simulation settles again at each:

* **`Settled.step`** — so a step is a number of timely moves, unless it is a jump across
  an instant that a call waits for;
* **`Driven.settled`** — a run that takes steps from the beginning has settled whenever one
  of them is over;
* **`Settled.lives`** — the calls that are then suspended have led timely lives and wait for
  instants to come.
-/
import CallPolicy.Proofs.Lives

namespace CallPolicy

open Relation

variable {chance : Chance} {S : Simulation} {r r' : Running} {w : World}

namespace Simulation

/-- The simulation was reached by timely moves, and all that its calls wait for is yet to
come. -/
structure Settled (chance : Chance) (S : Simulation) : Prop where
  reaches : S.Reaches True chance
  due : ∀ r ∈ S.running, ∀ d ∈ r.deadlines, S.world.now < d

theorem Reaches.punctual (h : S.Reaches True chance) : S.Punctual := by
  cases h with
  | refl => exact nofun
  | tail _ m => exact m.2 trivial

theorem Reaches.move {S' : Simulation} (h : S.Reaches True chance) (m : Move S S')
    (hS' : S'.Punctual) : S'.Reaches True chance := h.tail ⟨m, fun _ => hS'⟩

theorem Settled.of_move {S' : Simulation} (h : S.Reaches True chance) (m : Move S S')
    (hdue : ∀ r ∈ S'.running, ∀ d ∈ r.deadlines, S'.world.now < d) : S'.Settled chance :=
  ⟨h.move m fun r hr d hd => Nat.le_of_lt (hdue r hr d hd), hdue⟩

/-- A call that is suspended just now waits for instants to come. -/
theorem due_ofStatus {c : Call} {kinds : List LayerKind} {m : CallId → Nat}
    {keeps : Token → c.activity.State → World → Prop}
    {out : Status c.activity.State Result × World}
    (h : Yields (.ofCall c.id kinds c.token) m w
      (c.activity.Stands (.ofCall c.id kinds c.token) keeps c.token) (fun _ => True) out)
    (hr : r ∈ (Running.ofStatus c out).1.toList) :
    ∀ d ∈ r.deadlines, (Running.ofStatus c out).2.now < d := by
  obtain ⟨s, rfl, heq⟩ := Running.of_mem_ofStatus hr
  have hlands := h.lands
  rw [heq] at hlands
  exact hlands.atRest.due

theorem Orderly.due_resume (h : S.Orderly True) (hr : r ∈ S.running)
    (hr' : r' ∈ (r.resume S.world).1.toList) :
    ∀ d ∈ r'.deadlines, (r.resume S.world).2.now < d := by
  obtain ⟨w₀, hawaits, hlives⟩ := h.lives r hr
  obtain ⟨keeps, hdocile⟩ := r.call.policy.docile r.call.id r.call.script
  obtain ⟨hready, hkeeps⟩ := hdocile.lives hawaits.ready hlives
  exact due_ofStatus (hdocile.resume hready hkeeps) hr'

theorem Reaches.resumeAll (before : List Running) {running : List Running}
    (h : Reaches True chance { S with world := w, running := before ++ running })
    (hbefore : ∀ r ∈ before, ∀ d ∈ r.deadlines, w.now < d) :
    Settled chance
        { S with
          world := (resumeAll running w).2
          running := before ++ (resumeAll running w).1 } ∧
      (resumeAll running w).2.now = w.now := by
  -- those that have been resumed already stand before those that have not
  induction running generalizing before w with
  | nil =>
    refine ⟨⟨h, ?_⟩, rfl⟩
    rw [CallPolicy.resumeAll, List.append_nil]
    exact hbefore
  | cons r rest ih =>
    let T : Simulation := { S with world := w, running := before ++ r :: rest }
    have hmem : r ∈ T.running := List.mem_append_right _ List.mem_cons_self
    have hnow : (r.resume w).2.now = w.now := h.reachable.accounted.resume_now hmem w
    have hnew : ∀ r' ∈ (r.resume w).1.toList, ∀ d ∈ r'.deadlines, w.now < d := by
      intro r' hr' d hd
      rw [← hnow]
      exact h.orderly.due_resume hmem hr' d hd
    have hresumed : ∀ r' ∈ before ++ (r.resume w).1.toList, ∀ d ∈ r'.deadlines, w.now < d := by
      intro r' hr'
      exact (List.mem_append.mp hr').elim (hbefore r') (hnew r')
    have hmove := h.move (.resume T rfl) (fun r' hr' d hd => by
      show (r.resume w).2.now ≤ d
      rw [hnow]
      rcases List.mem_append.mp hr' with hr' | hr'
      · exact Nat.le_of_lt (hresumed r' hr' d hd)
      · exact h.punctual r' (List.mem_append_right _ (List.mem_cons_of_mem _ hr')) d hd)
    obtain ⟨hrest, hrestnow⟩ := ih _ hmove (hnow ▸ hresumed)
    rw [List.append_assoc] at hrest
    exact ⟨hrest, hrestnow.trans hnow⟩

/-- **Settling** leaves nothing overdue. -/
theorem Reaches.settle (h : S.Reaches True chance) :
    S.settle.Settled chance ∧ S.settle.world.now = S.world.now := by
  have hall : ∀ (running : List Running) (w : World),
      Reaches True chance { S with world := w, running := running } →
      Settled chance
          { S with world := (settleAll running w).2, running := (settleAll running w).1 } ∧
        (settleAll running w).2.now = w.now := by
    intro running w hw
    -- one round after the other
    induction running, w using settleAll.induct with
    | case1 running w next hless ih =>
      obtain ⟨hnext, hnow⟩ := Reaches.resumeAll [] hw (List.forall_mem_nil _)
      rw [settleAll, if_pos hless]
      obtain ⟨hlast, hlastnow⟩ := ih hnext.reaches
      exact ⟨hlast, hlastnow.trans hnow⟩
    | case2 running w next hless =>
      rw [settleAll, if_neg hless]
      exact Reaches.resumeAll [] hw (List.forall_mem_nil _)
  exact hall S.running S.world h

/-- Nobody waits for an instant before the next one. -/
theorem nextDeadline?_le {t goal d d' : Nat} (h : S.nextDeadline? t goal = some d)
    (hr : r ∈ S.running) (hd' : d' ∈ r.deadlines) (hlt : t < d') : d ≤ d' := by
  rcases Nat.lt_or_ge goal d' with hgoal | hgoal
  · exact Nat.le_trans (nextDeadline?_spec h).2 (Nat.le_of_lt hgoal)
  · refine (List.min?_eq_some_iff.mp h).2 d' (List.mem_filter.mpr ⟨?_, ?_⟩)
    · exact List.mem_flatMap.mpr ⟨r, hr, hd'⟩
    · simp [hlt, hgoal]

theorem lt_of_nextDeadline?_none {t goal d' : Nat} (h : S.nextDeadline? t goal = none)
    (hr : r ∈ S.running) (hd' : d' ∈ r.deadlines) (hlt : t < d') : goal < d' := by
  by_contra hle
  have hmem : d' ∈ (S.running.flatMap Running.deadlines).filter fun d => t < d ∧ d ≤ goal :=
    List.mem_filter.mpr ⟨List.mem_flatMap.mpr ⟨r, hr, hd'⟩, by simp [hlt, Nat.le_of_not_lt hle]⟩
  rw [List.min?_eq_none_iff.mp h] at hmem
  cases hmem

theorem Settled.run {ended : Simulation → Bool} {goal t : Nat} (h : S.Settled chance)
    (ht : S.world.now = t) (hgoal : t ≤ goal) : (S.run ended goal t).Settled chance := by
  induction t, S using Simulation.run.induct ended goal with
  | case1 t S hended =>
    rw [run_of_ended hended]
    exact h
  | case2 t S hended hnone =>
    rw [run_of_none hended hnone]
    refine .of_move h.reaches (.tick S goal (ht.trans_le hgoal)) fun r hr d hd => ?_
    exact lt_of_nextDeadline?_none hnone hr hd (ht ▸ h.due r hr d hd)
  | case3 t S hended d hsome ih =>
    obtain ⟨hlt, hle⟩ := nextDeadline?_spec hsome
    have hmove := h.reaches.move (.tick S d (ht ▸ Nat.le_of_lt hlt)) fun r hr d' hd' =>
      nextDeadline?_le hsome hr hd' (ht ▸ h.due r hr d' hd')
    obtain ⟨hsettled, hnow⟩ := Reaches.settle hmove
    rw [run_of_some hended hsome]
    exact ih hsettled hnow hle

theorem Settled.advance {ended : Simulation → Bool} {length : Nat} (h : S.Settled chance) :
    (S.advance ended length).Settled chance := h.run rfl (Nat.le_add_right _ _)

/-- Starting a call takes no time. -/
theorem Orderly.launch_now {timely : Prop} (h : S.Orderly timely) (r : Request) :
    (S.launch r).world.now = S.world.now := by
  obtain ⟨keeps, hdocile⟩ := r.policy.docile (S.nextId r.name) r.script
  have hawaits : S.world.Awaits (S.callOf r).id (S.callOf r).token := h.fresh (Nat.le_refl _) rfl
  exact (Running.confined_ofStatus (c := S.callOf r) (hdocile.start hawaits.ready).confined).now

theorem Settled.startCall (h : S.Settled chance) {r : Request} (hp : r.policy ∈ S.policies)
    (hs : scriptKnown S.policies r.script) : (S.startCall r).Settled chance := by
  let c := S.callOf r
  obtain ⟨keeps, hdocile⟩ := r.policy.docile (S.nextId r.name) r.script
  have hawaits : S.world.Awaits c.id c.token := h.reaches.orderly.fresh (Nat.le_refl _) rfl
  have hstart := hdocile.start hawaits.ready
  have hnow := h.reaches.orderly.launch_now r
  refine (Reaches.settle (h.reaches.move (.start S r hp hs) fun r' hr' d hd => ?_)).1
  rw [hnow]
  rcases List.mem_append.mp hr' with hr' | hr'
  · exact Nat.le_of_lt (h.due r' hr' d hd)
  · exact Nat.le_of_lt (hnow ▸ due_ofStatus (c := c) hstart hr' d hd)

theorem Settled.dropCall (h : S.Settled chance) (name : String) :
    (S.dropCall name).settle.Settled chance := by
  rcases S.dropCall_cases name with ⟨-, heq⟩ | ⟨before, r, after, -, hrunning, heq⟩ <;> rw [heq]
  · exact (Reaches.settle h.reaches).1
  · have hmem : r ∈ S.running := mem_running hrunning
    obtain ⟨w₀, hawaits, hlives⟩ := h.reaches.orderly.lives r hmem
    obtain ⟨keeps, hdocile⟩ := r.call.policy.docile r.call.id r.call.script
    have hnow := (hdocile.confined_of_lives hawaits.ready hlives).2.now
    refine (Reaches.settle (h.reaches.move (.drop S hrunning) fun r' hr' d hd => ?_)).1
    exact hnow.trans_le (Nat.le_of_lt (h.due r' ((others_sublist hrunning).subset hr') d hd))

theorem Settled.start (chance : Chance) : (start chance.draws chance.ties).Settled chance :=
  ⟨.refl, nofun⟩

theorem Settled.build (h : S.Settled chance) (name : String) (description : List Setting) :
    (S.build name description).2.Settled chance := by
  refine .of_move h.reaches (.build S name description) ?_
  unfold Simulation.build
  dsimp only
  split
  · exact h.due
  · exact h.due

/-- **A step is a number of timely moves**, unless it is a jump across an instant that a
call waits for. -/
theorem Settled.step {step : Step} (h : S.Settled chance) (hk : step.Known S.policies)
    (hjump : ∀ length, step = .jump length →
      ∀ r ∈ S.running, ∀ d ∈ r.deadlines, S.world.now + length < d) :
    (S.step step).Settled chance := by
  cases step with
  | start r => exact h.startCall hk.1 hk.2
  | call r limit => exact (h.startCall hk.1 hk.2).advance
  | advance length => exact h.advance
  | jump length => exact .of_move h.reaches (.tick S _ (Nat.le_add_right _ _)) (hjump length rfl)
  | cancel token =>
    exact (Reaches.settle (h.reaches.move (.cancel S token) h.reaches.punctual)).1
  | drop name => exact h.dropCall name

/-- What policies that are built and steps that are taken lead to, the one after the other from
the beginning on. The steps know their policies, and no jump is across an instant that a call
waits for. -/
inductive Driven (chance : Chance) : Simulation → Prop
  | start : Driven chance (.start chance.draws chance.ties)
  | build {S : Simulation} (h : Driven chance S) (name : String) (description : List Setting) :
      Driven chance (S.build name description).2
  | step {S : Simulation} (h : Driven chance S) {step : Step} (hk : step.Known S.policies)
      (hjump : ∀ length, step = .jump length →
        ∀ r ∈ S.running, ∀ d ∈ r.deadlines, S.world.now + length < d) :
      Driven chance (S.step step)

/-- **A run has settled** after each of its steps. -/
theorem Driven.settled (h : S.Driven chance) : S.Settled chance := by
  induction h with
  | start => exact .start chance
  | build _ name description ih => exact ih.build name description
  | step _ hk hjump ih => exact ih.step hk hjump

/-- **The calls of a simulation that has settled** have led timely lives, and wait for instants
to come. -/
theorem Settled.lives (h : S.Settled chance) (hr : r ∈ S.running) :
    (∃ w₀ : World, w₀.Awaits r.call.id r.call.token ∧
      r.call.activity.Lives r.call.id True r.call.token w₀ (.pending r.state, S.world)) ∧
    ∀ d ∈ r.deadlines, S.world.now < d :=
  ⟨h.reaches.orderly.lives r hr, h.due r hr⟩

end Simulation

end CallPolicy
