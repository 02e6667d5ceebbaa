/-
A simulation beside the one of a single call.

A simulation in which a call runs among bystanders is put beside one in which the call runs
alone (`Simulation.Beside`): the two worlds are the same for the call, and it stands at the
same place in both. Whatever is done in the first simulation, they remain beside each other
if the second one looks at the call whenever the first one does.

The first simulation settles in more rounds than the second one, and stops at more instants
on the way. In these rounds and at these instants the call is poised, so nothing comes of
looking at it.

* **`Beside.resumed`** — a round of the one, and a round of the other;
* **`Beside.settled`** — as many rounds as each of them needs.
-/
import CallPolicy.Proofs.Bystander

namespace CallPolicy

variable {c : Call} {u : Token} {w w' w₁ : World} {timely : Prop} {chance : Chance}
  {S S' : Simulation} {r r' : Running} {running before after : List Running}

/-! ### Rounds -/

/-- The suspended calls that are a given one. -/
def Call.among (c : Call) (running : List Running) : List Running :=
  running.filter (·.call.id = c.id)

namespace Call

@[simp] theorem among_nil : c.among [] = [] := rfl

@[simp] theorem among_append (running running' : List Running) :
    c.among (running ++ running') = c.among running ++ c.among running' := List.filter_append ..

theorem among_cons_own (h : r.call.id = c.id) (running : List Running) :
    c.among (r :: running) = r :: c.among running := List.filter_cons_of_pos (by simpa using h)

theorem among_cons_other (h : r.call.id ≠ c.id) (running : List Running) :
    c.among (r :: running) = c.among running := List.filter_cons_of_neg (by simpa using h)

theorem mem_among : r ∈ c.among running ↔ r ∈ running ∧ r.call.id = c.id := by
  simp [among]

theorem among_eq_self (h : ∀ r ∈ running, r.call.id = c.id) : c.among running = running :=
  List.filter_eq_self.mpr fun r hr => decide_eq_true (h r hr)

theorem among_eq_nil (h : ∀ r ∈ running, r.call.id ≠ c.id) : c.among running = [] :=
  List.filter_eq_nil_iff.mpr fun r hr => by simpa using h r hr

variable {d : Call} {out : Status d.activity.State Result × World}

theorem among_ofStatus_own (h : d.id = c.id) :
    c.among (Running.ofStatus d out).1.toList = (Running.ofStatus d out).1.toList := by
  refine among_eq_self fun r hr => ?_
  rw [Running.call_of_mem_ofStatus hr]
  exact h

theorem among_ofStatus_other (h : d.id ≠ c.id) :
    c.among (Running.ofStatus d out).1.toList = [] := by
  refine among_eq_nil fun r hr => ?_
  rw [Running.call_of_mem_ofStatus hr]
  exact h

end Call

/-- A round ends no call but those that it looks at, and starts none. -/
theorem resumeAll_calls (running : List Running) (w : World) :
    ((resumeAll running w).1.map Running.call).Sublist (running.map Running.call) := by
  induction running generalizing w with
  | nil => exact .slnil
  | cons r rest ih =>
    rw [resumeAll, List.map_append, List.map_cons]
    have hr : ((r.resume w).1.toList.map Running.call).Sublist [r.call] := by
      cases h : (r.resume w).1 with
      | none => exact List.nil_sublist _
      | some r' =>
        have hcall : r'.call = r.call := Running.call_of_mem_ofStatus (by
          rw [show (Running.ofStatus r.call _).1 = some r' from h]
          exact List.mem_singleton_self r')
        simp [hcall]
    exact hr.append (ih _)

/-- Nothing comes of a round of calls that are all poised. -/
theorem resumeAll_of_poised (h : ∀ r ∈ running, r.Poised w) :
    resumeAll running w = (running, w) := by
  induction running with
  | nil => rfl
  | cons r rest ih =>
    obtain ⟨hr, hrest⟩ := List.forall_mem_cons.mp h
    rw [resumeAll, hr.resume_eq]
    dsimp only
    rw [ih hrest]
    rfl

theorem settleAll_of_poised (h : ∀ r ∈ running, r.Poised w) :
    settleAll running w = (running, w) := by
  rw [settleAll, resumeAll_of_poised h]
  exact if_neg (Nat.lt_irrefl _)

namespace Simulation

/-- What is cancelled stays cancelled. -/
theorem Orderly.isCancelled_move (h : S.Orderly timely) (m : Move S S')
    (hu : S.world.isCancelled u = true) : S'.world.isCancelled u = true := by
  rcases h.move_cases m with hidle | ⟨c, w₀, hacts⟩
  · have hw : S.world.Meanwhile (.top "" 0) (.named "") S'.world := hidle.meanwhile rfl
    exact hw.spares.isCancelled hu
  · exact hacts.confined.isCancelled hu

theorem Reachable.isCancelled_resumeAll (before : List Running)
    (h : Reachable chance { S with world := w, running := before ++ running })
    (hu : w.isCancelled u = true) : (CallPolicy.resumeAll running w).2.isCancelled u = true := by
  -- those that have been resumed already stand before those that have not
  induction running generalizing before w with
  | nil => exact hu
  | cons r rest ih =>
    let T : Simulation := { S with world := w, running := before ++ r :: rest }
    have hgrown := h.reaches.orderly.isCancelled_move (.resume T rfl) hu
    exact ih _ (h.tail (.resume T rfl)) hgrown

/-- The calls under live tokens are a given one and others. -/
theorem restless_eq (c : Call) (running : List Running) (w : World) :
    restless running w = restless (c.among running) w +
      ((running.map Running.call).filter (·.id ≠ c.id)).countP fun d => !w.isCancelled d.token := by
  unfold restless Call.among
  rw [List.countP_eq_countP_filter_add running _ (fun r => decide (r.call.id = c.id)),
    List.filter_map, List.countP_map]
  congr 3
  funext r
  simp

/-- If after a round a call no longer runs under a live token, it is worthwhile to look at all
of them once more. -/
theorem Reachable.restless_lt (c : Call)
    (h : Reachable chance { S with world := w, running := running })
    (hless : restless (c.among (CallPolicy.resumeAll running w).1)
      (CallPolicy.resumeAll running w).2 < restless (c.among running) w) :
    restless (CallPolicy.resumeAll running w).1 (CallPolicy.resumeAll running w).2 <
      restless running w := by
  have hgrown : ∀ d : Call, (!(CallPolicy.resumeAll running w).2.isCancelled d.token) = true →
      (!w.isCancelled d.token) = true := by
    intro d hlive
    cases hcancelled : w.isCancelled d.token with
    | false => rfl
    | true =>
      rw [Reachable.isCancelled_resumeAll [] h hcancelled] at hlive
      exact hlive
  -- the others have not become more, and fewer of their tokens are live
  have hfewer := ((resumeAll_calls running w).filter (·.id ≠ c.id)).countP_le
    (p := fun d => !(CallPolicy.resumeAll running w).2.isCancelled d.token)
  have hothers := hfewer.trans (List.countP_mono_left fun d _ => hgrown d)
  rw [restless_eq c, restless_eq c running]
  omega

/-! ### Two simulations beside each other -/

end Simulation

/-- A call from outside under a root token that can tell no more of the world than what is
there for it. -/
structure Call.Secluded (c : Call) (fits : c.activity.State → Prop) : Prop where
  outermost : c.id.outermost = c.id
  root : c.token.path = []
  insular : c.activity.InsularFor c.id c.token c.id fits
  resigns : c.activity.Resigns c.token (Serves c.id c.token c.id) fits

namespace Simulation

/-- What a request does that makes the call. -/
theorem launch_of_callOf {q : Request} (h : S.callOf q = c) :
    S.launch q =
      { S with
        world := (Running.ofStatus c (c.activity.start c.token S.world)).2
        running := S.running ++ (Running.ofStatus c (c.activity.start c.token S.world)).1.toList
        started := q.name :: S.started } := by
  subst h
  rfl

/-- In the simulation, bystanders run that leave the root token of a call alone. For the call,
which may or may not run, the world is the same as another one. -/
structure Beside (chance : Chance) (c : Call) (fits : c.activity.State → Prop)
    (S : Simulation) (w' : World) : Prop where
  reachable : S.Reachable chance
  same : S.world.SameFor c.id c.token w'
  own : ∀ r ∈ S.running, r.call.id = c.id → ∃ s, r = ⟨c, s⟩ ∧ fits s
  others : ∀ r ∈ S.running, r.call.id ≠ c.id → r.call.Leaves c.token.root

namespace Beside

variable {fits : c.activity.State → Prop}

theorem orderly (h : S.Beside chance c fits w') : S.Orderly False := h.reachable.reaches.orderly

/-- A bystander is another call from outside. -/
theorem outermost_ne (h : S.Beside chance c fits w') (hr : r ∈ S.running)
    (hne : r.call.id ≠ c.id) : r.call.id.outermost ≠ c.id := by
  obtain ⟨name, n, hid, -⟩ := (h.orderly.outside r hr).started
  rw [hid] at hne ⊢
  exact hne

theorem setClock (h : S.Beside chance c fits w') {n : Nat} (hn : S.world.now ≤ n) :
    (S.setClock n).Beside chance c fits { w' with now := n } :=
  ⟨h.reachable.tail (.tick S n hn), ⟨rfl, ⟨h.same.alike.isCancelled⟩, h.same.minted, h.same.invoked,
    h.same.ties, h.same.history⟩, h.own, h.others⟩

/-- As many calls are under live tokens here as there. -/
theorem restless_among (h : S.Beside chance c fits w') :
    restless (c.among S.running) w' = restless (c.among S.running) S.world := by
  refine List.countP_congr fun r hr => ?_
  obtain ⟨hmem, hown⟩ := Call.mem_among.mp hr
  obtain ⟨s, rfl, -⟩ := h.own r hmem hown
  rw [h.same.isCancelled (.refl c.id c.token)]

/-- The others that run are bystanders. -/
theorem among_others (h : S.Beside chance c fits w') (hr : S.running = before ++ r :: after)
    (hown : r.call.id = c.id) : c.among (before ++ after) = [] :=
  Call.among_eq_nil fun r' hr' heq => h.orderly.others hr r' hr' (heq.trans hown.symm)

section

variable (hc : c.Secluded fits) (h : S.Beside chance c fits w')

include hc h

/-- The call is looked at in both worlds. -/
theorem resume_own (hr : S.running = before ++ r :: after) (hown : r.call.id = c.id) :
    (r.resume w').1 = (r.resume S.world).1 ∧
      Beside chance c fits
        { S with
          world := (r.resume S.world).2
          running := before ++ (r.resume S.world).1.toList ++ after } (r.resume w').2 := by
  have hmem : r ∈ S.running := mem_running hr
  have hothers := h.orderly.others hr
  obtain ⟨s, rfl, hs⟩ := h.own r hmem hown
  obtain ⟨heq, hsame, hnew⟩ := (hc.insular.resume hs h.same).ofStatus hc.outermost
    (h.orderly.served_resume hmem)
  refine ⟨heq, h.reachable.tail (.resume S hr), hsame, fun r' hr' hown' => ?_, fun r' hr' hne => ?_⟩
  · rcases mem_replaced hr' with hold | hr'
    · exact absurd hown' (hothers r' hold)
    · exact hnew r' hr'
  · rcases mem_replaced hr' with hold | hr'
    · exact h.others r' ((others_sublist hr).subset hold) hne
    · obtain ⟨s', rfl, -⟩ := hnew r' hr'
      exact absurd rfl hne

/-- A bystander is looked at, and the call is not. -/
theorem resume_other (hr : S.running = before ++ r :: after) (hne : r.call.id ≠ c.id) :
    S.world.SameFor c.id c.token (r.resume S.world).2 ∧
      Beside chance c fits
        { S with
          world := (r.resume S.world).2
          running := before ++ (r.resume S.world).1.toList ++ after } w' := by
  have hmem : r ∈ S.running := mem_running hr
  have hsame := h.orderly.sameFor_resume hmem hc.outermost hc.root (h.others r hmem hne)
    (h.outermost_ne hmem hne)
  have hcases : ∀ r' ∈ before ++ (r.resume S.world).1.toList ++ after,
      r' ∈ S.running ∨ r'.call = r.call := fun r' hr' =>
    (mem_replaced hr').imp (fun hold => (others_sublist hr).subset hold)
      Running.call_of_mem_ofStatus
  refine ⟨hsame, h.reachable.tail (.resume S hr), hsame.symm.trans h.same, fun r' hr' hown => ?_,
    fun r' hr' hne' => ?_⟩
  · rcases hcases r' hr' with hr' | hcall
    · exact h.own r' hr' hown
    · rw [hcall] at hown
      exact absurd hown hne
  · rcases hcases r' hr' with hr' | hcall
    · exact h.others r' hr' hne'
    · rw [hcall]
      exact h.others r hmem hne

/-- The call is dropped in both worlds. -/
theorem drop_own (hr : S.running = before ++ r :: after) (hown : r.call.id = c.id) :
    Beside chance c fits
      { S with world := S.world.releaseAll r.holdings, running := before ++ after }
      (w'.releaseAll r.holdings) := by
  have hkept : ∀ r' ∈ before ++ after, r' ∈ S.running :=
    fun _ hr' => (others_sublist hr).subset hr'
  obtain ⟨s, rfl, hs⟩ := h.own r (mem_running hr) hown
  exact ⟨h.reachable.tail (.drop S hr), hc.insular.release hs h.same,
    fun r' hr' => h.own r' (hkept r' hr'), fun r' hr' => h.others r' (hkept r' hr')⟩

/-- A bystander is dropped. -/
theorem drop_other (hr : S.running = before ++ r :: after) (hne : r.call.id ≠ c.id) :
    Beside chance c fits
      { S with world := S.world.releaseAll r.holdings, running := before ++ after } w' := by
  have hmem : r ∈ S.running := mem_running hr
  have hkept : ∀ r' ∈ before ++ after, r' ∈ S.running :=
    fun _ hr' => (others_sublist hr).subset hr'
  have hsame := r.call.sameFor_release hc.outermost hc.root (h.others r hmem hne)
    (h.outermost_ne hmem hne) r.state S.world
  exact ⟨h.reachable.tail (.drop S hr), hsame.symm.trans h.same,
    fun r' hr' => h.own r' (hkept r' hr'), fun r' hr' => h.others r' (hkept r' hr')⟩

section

variable {q : Request} (hp : q.policy ∈ S.policies) (hs : scriptKnown S.policies q.script)

include hp hs

/-- The call is started in both worlds. -/
theorem launch_own (hcall : S.callOf q = c) :
    (Running.ofStatus c (c.activity.start c.token w')).1 =
        (Running.ofStatus c (c.activity.start c.token S.world)).1 ∧
      (S.launch q).Beside chance c fits
        (Running.ofStatus c (c.activity.start c.token w')).2 := by
  have hid : S.nextId q.name = c.id := congrArg Call.id hcall
  have hawaits : S.world.Awaits c.id c.token := by
    rw [← hid]
    exact h.orderly.fresh (Nat.le_refl _) hc.root
  obtain ⟨keeps, hdocile⟩ := c.policy.docile c.id c.script
  have hstart : c.activity.Lives c.id False c.token S.world (c.activity.start c.token S.world) :=
    .start
  obtain ⟨heq, hsame, hnew⟩ := (hc.insular.start (.refl c.id c.token) h.same).ofStatus hc.outermost
    fun u hu => (hdocile.served hawaits hstart).1 .self hu
  have hlaunch := launch_of_callOf hcall
  refine ⟨heq, h.reachable.tail (.start S q hp hs), ?_, ?_, ?_⟩ <;> rw [hlaunch]
  · exact hsame
  · intro r hr hown
    rcases List.mem_append.mp hr with hold | hr
    · exact absurd (hown.trans hid.symm) (h.orderly.ne_nextId hold q.name)
    · exact hnew r hr
  · intro r hr hne
    rcases List.mem_append.mp hr with hold | hr
    · exact h.others r hold hne
    · obtain ⟨s, rfl, -⟩ := hnew r hr
      exact absurd rfl hne

/-- A bystander is started. -/
theorem launch_other (hne : S.nextId q.name ≠ c.id) (hleaves : (S.callOf q).Leaves c.token.root) :
    (S.launch q).Beside chance c fits w' := by
  have hsame : S.world.SameFor c.id c.token (S.launch q).world :=
    (S.callOf q).sameFor_start hc.outermost hc.root hleaves hne S.world
  have hcases : ∀ r ∈ (S.launch q).running, r ∈ S.running ∨ r.call = S.callOf q := fun r hr =>
    (List.mem_append.mp hr).imp_right Running.call_of_mem_ofStatus
  refine ⟨h.reachable.tail (.start S q hp hs), hsame.symm.trans h.same, fun r hr hown => ?_,
    fun r hr hne' => ?_⟩
  · rcases hcases r hr with hold | hcall
    · exact h.own r hold hown
    · rw [hcall] at hown
      exact absurd hown hne
  · rcases hcases r hr with hold | hcall
    · exact h.others r hold hne'
    · rw [hcall]
      exact hleaves

end

end

/-- **A round** of the calls is a round of the one call, too. -/
theorem resumed (hc : c.Secluded fits) (before : List Running)
    (h : Beside chance c fits { S with world := w, running := before ++ running } w') :
    (resumeAll (c.among running) w').1 = c.among (resumeAll running w).1 ∧
      Beside chance c fits
        { S with
          world := (resumeAll running w).2
          running := before ++ (resumeAll running w).1 }
        (resumeAll (c.among running) w').2 := by
  -- those that have been resumed already stand before those that have not
  induction running generalizing before w w' with
  | nil => exact ⟨rfl, h⟩
  | cons r rest ih =>
    by_cases hown : r.call.id = c.id
    · obtain ⟨heq, hnext⟩ := h.resume_own hc rfl hown
      obtain ⟨hrest, hbeside⟩ := ih _ hnext
      have hnew : c.among (r.resume w).1.toList = (r.resume w).1.toList :=
        Call.among_ofStatus_own hown
      rw [Call.among_cons_own hown]
      rw [List.append_assoc] at hbeside
      refine ⟨?_, hbeside⟩
      rw [resumeAll, resumeAll]
      dsimp only
      rw [hrest, Call.among_append, hnew, heq]
    · obtain ⟨-, hnext⟩ := h.resume_other hc rfl hown
      obtain ⟨hrest, hbeside⟩ := ih _ hnext
      have hnew : c.among (r.resume w).1.toList = [] := Call.among_ofStatus_other hown
      rw [Call.among_cons_other hown]
      rw [List.append_assoc] at hbeside
      refine ⟨?_, hbeside⟩
      rw [hrest, resumeAll.eq_def (r :: rest)]
      dsimp only
      rw [Call.among_append, hnew, List.nil_append]

theorem round (hc : c.Secluded fits)
    (h : Beside chance c fits { S with world := w, running := running } w') :
    (resumeAll (c.among running) w').1 = c.among (resumeAll running w).1 ∧
      Beside chance c fits
        { S with
          world := (resumeAll running w).2
          running := (resumeAll running w).1 }
        (resumeAll (c.among running) w').2 := resumed hc [] h

/-- After a round the call is poised, unless its token has been cancelled in the course of it. -/
theorem poised_resumeAll (hc : c.Secluded fits) (before : List Running)
    (h : Beside chance c fits { S with world := w, running := before ++ running } w') :
    (∀ r ∈ c.among (resumeAll running w).1, r.Poised (resumeAll running w).2) ∨
      (∃ r, r ∈ c.among running) ∧ w.isCancelled c.token = false ∧
        (resumeAll running w).2.isCancelled c.token = true := by
  -- those that have been resumed already stand before those that have not
  induction running generalizing before w with
  | nil => exact .inl nofun
  | cons r rest ih =>
    by_cases hown : r.call.id = c.id
    · obtain ⟨-, hnext⟩ := h.resume_own hc rfl hown
      obtain ⟨hrest, hlast⟩ := resumed hc _ hnext
      -- what follows in the round are bystanders
      have hothers := h.among_others rfl hown
      rw [Call.among_append, List.append_eq_nil_iff] at hothers
      rw [hothers.2] at hrest hlast
      have hquiet : (r.resume w).2.SameFor c.id c.token
          (resumeAll rest (r.resume w).2).2 := hnext.same.trans hlast.same.symm
      rw [resumeAll, Call.among_append, ← hrest, resumeAll, List.append_nil]
      obtain ⟨s, rfl, hs⟩ := h.own r (List.mem_append_right _ List.mem_cons_self) hown
      cases hr : (Running.resume ⟨c, s⟩ w).1 with
      | none => exact .inl nofun
      | some r' =>
        have hr' : r' ∈ (Running.resume ⟨c, s⟩ w).1.toList := by
          rw [hr]
          exact List.mem_singleton_self r'
        have hmem : ⟨c, s⟩ ∈ before ++ ⟨c, s⟩ :: rest :=
          List.mem_append_right _ List.mem_cons_self
        rcases h.orderly.poised_resume hmem hc.resigns hs hr' with hpoised | ⟨hlive, hdead⟩
        · refine .inl fun r'' hr'' => ?_
          obtain rfl := List.mem_singleton.mp (Call.mem_among.mp hr'').1
          exact hpoised.same (Running.call_of_mem_ofStatus hr') hquiet
        · refine .inr ⟨⟨⟨c, s⟩, Call.mem_among.mpr ⟨List.mem_cons_self, rfl⟩⟩, hlive, ?_⟩
          exact (hquiet.isCancelled (.refl c.id c.token)).trans hdead
    · obtain ⟨hsame, hnext⟩ := h.resume_other hc rfl hown
      have hnew : c.among (r.resume w).1.toList = [] := Call.among_ofStatus_other hown
      rw [resumeAll, Call.among_append, hnew, List.nil_append, Call.among_cons_other hown]
      refine (ih _ hnext).imp_right fun ⟨hmem, hlive, hdead⟩ => ⟨hmem, ?_, hdead⟩
      exact (hsame.isCancelled (.refl c.id c.token)).symm.trans hlive

/-- If the call is not poised after a round, the simulation of the call alone makes another one. -/
theorem poised_or_restless (hc : c.Secluded fits)
    (h : Beside chance c fits { S with world := w, running := running } w') :
    (∀ r ∈ c.among (resumeAll running w).1, r.Poised (resumeAll running w).2) ∨
      restless (resumeAll (c.among running) w').1
          (resumeAll (c.among running) w').2 < restless (c.among running) w' := by
  obtain ⟨hcalls, hnext⟩ := round hc h
  refine (poised_resumeAll hc [] h).imp_right fun ⟨⟨r, hr⟩, hlive, hdead⟩ => ?_
  have hnone : restless (resumeAll (c.among running) w').1
      (resumeAll (c.among running) w').2 = 0 := by
    refine List.countP_eq_zero.mpr fun r' hr' => ?_
    rw [hcalls] at hr'
    obtain ⟨hmem, hown⟩ := Call.mem_among.mp hr'
    obtain ⟨s, rfl, -⟩ := hnext.own r' hmem hown
    rw [hnext.same.isCancelled (.refl c.id c.token), hdead]
    nofun
  have hone : 0 < restless (c.among running) w' := by
    refine List.countP_pos_iff.mpr ⟨r, hr, ?_⟩
    obtain ⟨hmem, hown⟩ := Call.mem_among.mp hr
    obtain ⟨s, rfl, -⟩ := h.own r hmem hown
    rw [h.same.isCancelled (.refl c.id c.token), hlive]
    rfl
  exact hnone.trans_lt hone

/-- The calls that are poised in a world are poised in the one beside it. -/
theorem poised_beside (h : S.Beside chance c fits w')
    (hpoised : ∀ r ∈ c.among S.running, r.Poised S.world) :
    ∀ r ∈ c.among S.running, r.Poised w' := by
  intro r hr
  have hr' := hpoised r hr
  obtain ⟨hmem, hown⟩ := Call.mem_among.mp hr
  obtain ⟨s, rfl, -⟩ := h.own r hmem hown
  exact hr'.same rfl h.same

/-- **Settling** takes as many rounds as it takes, and leaves the call poised. -/
theorem settled (hc : c.Secluded fits)
    (h : Beside chance c fits { S with world := w, running := running } w') :
    (settleAll (c.among running) w').1 = c.among (settleAll running w).1 ∧
      Beside chance c fits
        { S with
          world := (settleAll running w).2
          running := (settleAll running w).1 }
        (settleAll (c.among running) w').2 ∧
      ∀ r ∈ c.among (settleAll running w).1, r.Poised (settleAll running w).2 := by
  -- one round after the other
  fun_induction settleAll running w generalizing w'
  case case1 running w next hless ih =>
    obtain ⟨hcalls, hnext⟩ := round hc h
    obtain ⟨hlast, hbeside, hpoised⟩ := ih hnext
    have halone : settleAll (c.among running) w' =
        settleAll (c.among (resumeAll running w).1)
          (resumeAll (c.among running) w').2 := by
      rw [← hcalls, settleAll]
      split
      next => rfl
      next hstill =>
        -- the call alone has settled after one round, and would not be changed by another
        have hrest := (poised_or_restless hc h).resolve_right hstill
        have hsettled := settleAll_of_poised (hnext.poised_beside hrest)
        rw [← hcalls] at hsettled
        exact hsettled.symm
    rw [halone]
    exact ⟨hlast, hbeside, hpoised⟩
  case case2 running w next hless =>
    obtain ⟨hcalls, hnext⟩ := round hc h
    have hstill : ¬restless (resumeAll (c.among running) w').1
        (resumeAll (c.among running) w').2 < restless (c.among running) w' := by
      intro halone
      rw [hcalls, hnext.restless_among, h.restless_among] at halone
      exact hless (h.reachable.restless_lt c halone)
    rw [settleAll, if_neg hstill]
    exact ⟨hcalls, hnext, (poised_or_restless hc h).resolve_right hstill⟩

end Beside

end Simulation

end CallPolicy
