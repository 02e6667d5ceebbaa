/-
The life of a call.

A call is started, and resumed now and then until it ends. In between others are at work:
they may do whatever is not done on behalf of the call (`World.Meanwhile`), and if the
run is timely, time passes no instant that the call waits for. `Activity.Lives` says how
far a call has got, whether it was made from outside or by an operation.

* **`Docile.lives`** — a docile activity stays within its scope all its life;
* **`Orderly.move_cases`** — each move of a simulation is made on behalf of one call, or of
  none;
* **`Reaches.orderly`** — so the calls of a simulation live, each by itself;
* **`Orderly.over`** — and nothing is done on behalf of a call that has ended.
-/
import CallPolicy.Proofs.Roots
import CallPolicy.Proofs.Runs

namespace CallPolicy

open Relation

variable {ο : Type} {w w' w'' w₀ : World} {t t' u : Token} {id id' c : CallId} {m : CallId → Nat}
  {kinds : List LayerKind} {timely : Prop} {chance : Chance} {S S' : Simulation} {r : Running}

/-! ### Lives -/

namespace World

/-- Nothing has been done yet on behalf of a call. -/
structure Awaits (id : CallId) (t : Token) (w : World) : Prop where
  sane : w.Sane
  token : t.Before w.minted
  invoked : ∀ {c}, id.Within c → w.invoked c = []
  trace : ∀ e ∈ w.trace, ¬id.Within e.record.call

/-- Nothing has been done on behalf of a call, and its tokens were spared. Time may have
passed. -/
structure Meanwhile (id : CallId) (t : Token) (w w' : World) : Prop where
  now : w.now ≤ w'.now
  sane : w'.Sane
  spares : w.Spares (Serves id t) t w'
  invoked : ∀ {c}, id.Within c → w'.invoked c = w.invoked c
  trace : ∃ es, w'.trace = es ++ w.trace ∧ ∀ e ∈ es, ¬id.Within e.record.call

theorem Awaits.ready (h : w.Awaits id t) : w.Ready w.minted t :=
  ⟨h.sane, h.token, fun _ => Nat.le_refl _⟩

theorem Meanwhile.trans (h : w.Meanwhile id t w') (h' : w'.Meanwhile id t w'') :
    w.Meanwhile id t w'' := by
  obtain ⟨es, htr, hes⟩ := h.trace
  obtain ⟨es', htr', hes'⟩ := h'.trace
  refine ⟨Nat.le_trans h.now h'.now, h'.sane, h.spares.trans h'.spares,
    fun hc => (h'.invoked hc).trans (h.invoked hc), es' ++ es, ?_, fun e he => ?_⟩
  · rw [htr', htr, List.append_assoc]
  · exact (List.mem_append.mp he).elim (hes' e) (hes e)

theorem Meanwhile.awaits (h : w.Meanwhile id t w') (hw : w.Awaits id t) : w'.Awaits id t := by
  obtain ⟨es, htr, hes⟩ := h.trace
  refine ⟨h.sane, hw.token.mono h.spares.minted, fun hc => ?_, fun e he => ?_⟩
  · rw [h.invoked hc, hw.invoked hc]
  · rw [htr] at he
    exact (List.mem_append.mp he).elim (hes e) (hw.trace e)

/-- Time passes, and nobody does anything. -/
theorem Meanwhile.clock (h : w.Sane) {n : Nat} (hn : w.now ≤ n) :
    w.Meanwhile id t { w with now := n } :=
  ⟨hn, h, ⟨fun _ => Nat.le_refl _, [], rfl, nofun⟩, fun _ => rfl, [], rfl, nofun⟩

/-- What is done for one call is not done for another. -/
theorem Confined.meanwhile (h : w.Confined (.ofCall id kinds t) m w') (hsane : w.Sane)
    (hapart : ∀ {c}, id.Within c → ¬id'.Within c) (hroot : t'.path = []) :
    w.Meanwhile id' t' w' := by
  refine ⟨Nat.le_of_eq h.now.symm, h.sane hsane, ⟨h.minted, ?_⟩, fun {c} hc => ?_, ?_⟩
  · obtain ⟨as, heq, has⟩ := h.cancelled
    refine ⟨as, heq, fun a ha c v hv hav => ?_⟩
    rcases has a ha with hpath | ⟨-, d, x, n, hacts, -, rfl⟩
    · refine Token.governs_of_path_nil hpath ((Token.governs_iff.mp hav).1.trans ?_)
      exact (Token.governs_iff.mp hv.governs).1.symm
    · -- the token was made for the other call, or inside it
      have hmem := (Token.governs_iff.mp hav).2.subset (List.mem_cons_self (a := (d, n)))
      rcases hv.within_of_mem hmem with hmem | hwithin
      · rw [hroot] at hmem
        cases hmem
      · exact absurd hwithin (hapart hacts.within)
  · obtain ⟨us, heq, hus⟩ := h.invoked c
    rw [heq]
    cases us with
    | nil => rfl
    | cons u us => exact absurd hc (hapart (hus u List.mem_cons_self).within)
  · obtain ⟨es, heq, hes⟩ := h.trace
    refine ⟨es, heq, fun e he => ?_⟩
    by_cases hown : e.record.call = id
    · exact hown ▸ hapart .self
    · obtain ⟨u, hu⟩ := (hes e he).inner hown
      exact hapart hu.within

end World

/-- How far the activity of a call has got that was started in the world `w₀`. In a
timely life, time passes no instant that it waits for. -/
inductive Activity.Lives (a : Activity Token ο) (id : CallId) (timely : Prop) (t : Token)
    (w₀ : World) : Status a.State ο × World → Prop
  | start : Lives a id timely t w₀ (a.start t w₀)
  | wait {s : a.State} {w w' : World} (h : Lives a id timely t w₀ (.pending s, w))
      (hw : w.Meanwhile id t w') (htimely : timely → ∀ d ∈ a.deadlines s, w'.now ≤ d) :
      Lives a id timely t w₀ (.pending s, w')
  | resume {s : a.State} {w : World} (h : Lives a id timely t w₀ (.pending s, w)) :
      Lives a id timely t w₀ (a.resume s w)

namespace Activity.Docile

variable {a : Activity Token ο} {keeps : (CallId → Nat) → Token → a.State → World → Prop}
  {out : Status a.State ο × World}

/-- **All its life**, the activity is known for the same things. -/
theorem lives (h : a.Attends id kinds keeps) (hw₀ : w₀.Ready w₀.minted t)
    (hl : a.Lives id timely t w₀ out) :
    out.2.Ready w₀.minted t ∧ Lands (keeps w₀.minted t) (fun _ => True) out := by
  have hpoll : ∀ {w : World} {out : Status a.State ο × World}, w.Ready w₀.minted t →
      Yields (.ofCall id kinds t) w₀.minted w (a.Stands (.ofCall id kinds t) (keeps w₀.minted) t)
        (fun _ => True) out →
      out.2.Ready w₀.minted t ∧ Lands (keeps w₀.minted t) (fun _ => True) out := by
    rintro w ⟨s | o | x, w'⟩ hw ⟨hw', hs⟩
    · exact ⟨hw'.ready hw, hs.kept⟩
    · exact ⟨hw'.ready hw, trivial⟩
    · exact ⟨hw'.ready hw, trivial⟩
  induction hl with
  | start => exact hpoll hw₀ (h.start hw₀)
  | wait _ hw _ ih => exact ⟨hw.spares.ready ih.1 hw.sane, h.stable ih.1 ih.2 hw.spares hw.sane⟩
  | resume _ ih => exact hpoll ih.1 (h.resume ih.1 ih.2)

/-- Whatever the activity does next is within its scope. -/
theorem confined_of_lives {s : a.State} (h : a.Attends id kinds keeps)
    (hw₀ : w₀.Ready w₀.minted t) (hl : a.Lives id timely t w₀ (.pending s, w)) :
    w.Confined (.ofCall id kinds t) w₀.minted (a.resume s w).2 ∧
      w.Confined (.ofCall id kinds t) w₀.minted (w.releaseAll (a.holdings s)) := by
  obtain ⟨hw, hs⟩ := h.lives hw₀ hl
  exact ⟨(h.resume hw hs).confined, .releaseAll w (h.holdings hs)⟩

/-- In a timely life nothing is overdue. -/
theorem due_of_lives {s : a.State} (h : a.Attends id kinds keeps) (hw₀ : w₀.Ready w₀.minted t)
    (hl : a.Lives id True t w₀ (.pending s, w)) : ∀ d ∈ a.deadlines s, w.now ≤ d := by
  have hall : ∀ {out : Status a.State ο × World}, a.Lives id True t w₀ out →
      Lands (fun s w => ∀ d ∈ a.deadlines s, w.now ≤ d) (fun _ => True) out := by
    intro out hl
    have hpoll : ∀ {w : World} {out : Status a.State ο × World},
        Yields (.ofCall id kinds t) w₀.minted w
          (a.Stands (.ofCall id kinds t) (keeps w₀.minted) t) (fun _ => True) out →
        Lands (fun s w => ∀ d ∈ a.deadlines s, w.now ≤ d) (fun _ => True) out := by
      rintro w ⟨s | o | x, w'⟩ ⟨hw', hs⟩
      · exact fun d hd => Nat.le_of_lt (hs.atRest.due d hd)
      · trivial
      · trivial
    cases hl with
    | start => exact hpoll (h.start hw₀)
    | wait _ _ htimely => exact htimely trivial
    | resume hl =>
      obtain ⟨hw, hs⟩ := h.lives hw₀ hl
      exact hpoll (h.resume hw hs)
  exact hall hl

/-- Whatever has been done on behalf of a new call, was done within its scope. -/
theorem served (h : a.Attends id kinds keeps) (hw₀ : w₀.Awaits id t)
    (hl : a.Lives id timely t w₀ out) :
    (∀ {c u}, id.Within c → u ∈ out.2.invoked c → Serves id t c u) ∧
      ∀ e ∈ out.2.trace, id.Within e.record.call → (Scope.ofCall id kinds t).Records e.record := by
  -- what a poll adds is in the scope of the call; what was there before is by hypothesis
  have hpoll : ∀ {w w' : World}, w.Confined (.ofCall id kinds t) w₀.minted w' →
      (∀ {c u}, id.Within c → u ∈ w.invoked c → Serves id t c u) ∧
        (∀ e ∈ w.trace, id.Within e.record.call →
          (Scope.ofCall id kinds t).Records e.record) →
      (∀ {c u}, id.Within c → u ∈ w'.invoked c → Serves id t c u) ∧
        ∀ e ∈ w'.trace, id.Within e.record.call →
          (Scope.ofCall id kinds t).Records e.record := by
    rintro w w' hw ⟨hinvoked, htrace⟩
    refine ⟨fun {c u} hc hu => ?_, fun e he hcall => ?_⟩
    · obtain ⟨us, heq, hus⟩ := hw.invoked c
      rw [heq] at hu
      exact (List.mem_append.mp hu).elim (hus u) (hinvoked hc)
    -- meanwhile others write about other calls only
    · obtain ⟨es, heq, hes⟩ := hw.trace
      rw [heq] at he
      exact (List.mem_append.mp he).elim (hes e) (htrace e · hcall)
  induction hl with
  | start =>
    refine hpoll (h.start hw₀.ready).confined ⟨fun {c u} hc hu => ?_, fun e he hcall => ?_⟩
    · rw [hw₀.invoked hc] at hu
      cases hu
    · exact absurd hcall (hw₀.trace e he)
  | wait _ hw _ ih =>
    obtain ⟨es, heq, hes⟩ := hw.trace
    refine ⟨fun {c u} hc hu => ih.1 hc (hw.invoked hc ▸ hu), fun e he hcall => ?_⟩
    rw [heq] at he
    exact (List.mem_append.mp he).elim (fun he => absurd hcall (hes e he)) (ih.2 e · hcall)
  | resume hl ih => exact hpoll (h.confined_of_lives hw₀.ready hl).1 ih

end Activity.Docile

/-- **All its life**, an activity fits all of whose doings are of some kind. -/
theorem Activity.Obeys.lives {a : Activity Token ο} {R : World → World → Prop}
    {fits : a.State → Prop} {out : Status a.State ο × World} (h : a.Obeys R fits)
    (hl : a.Lives id timely t w₀ out) : Lands (fun s _ => fits s) (fun _ => True) out := by
  induction hl with
  | start => exact (h.start t w₀).fits
  | wait _ _ _ ih => exact ih
  | resume _ ih => exact (h.resume _ _ ih).fits

/-- The operation of a script is docile. -/
theorem Script.docile (script : Script) (id : CallId) :
    ∃ keeps, (script.operation id).Attends id [] keeps := by
  choose keeps hbody using fun k => scriptBody_docile id k k script
  exact ⟨_, .numbered hbody⟩

/-- A call through a policy is docile. -/
theorem Policy.docile (p : Policy) (id : CallId) (script : Script) :
    ∃ keeps, (p.call id (script.operation id)).Attends id p.kinds keeps := by
  obtain ⟨keeps, hd⟩ := script.docile id
  have hstack := hd.stack ⟨p.origin, id⟩ p.layers
  rw [List.append_nil] at hstack
  exact ⟨_, hstack⟩

/-! ### Calls from outside -/

theorem CallId.apart_of_top {name name' : String} {n n' : Nat}
    (hne : CallId.top name n ≠ CallId.top name' n') (hc : (CallId.top name n).Within c) :
    ¬(CallId.top name' n').Within c :=
  fun hc' => hne (hc.outermost_eq.symm.trans hc'.outermost_eq)

/-- The end of a call is recorded as one of the things that are done on its behalf. -/
theorem Running.confined_ofStatus {c : Call} {out : Status c.activity.State Result × World}
    (h : w.Confined (.ofCall c.id kinds c.token) m out.2) :
    w.Confined (.ofCall c.id kinds c.token) m (ofStatus c out).2 := by
  have hsettled : ∀ {w' : World} (e : Ending),
      w'.Confined (.ofCall c.id kinds c.token) m (w'.settleCall c e) := fun e =>
    .note _ (Scope.records_ofCall rfl nofun)
  rcases out with ⟨s | r | x, w'⟩
  · exact h
  · exact h.trans (hsettled _)
  · exact h.trans (hsettled _)

theorem Running.leaves_ofStatus {c : Call} {root : String}
    {out : Status c.activity.State Result × World} (h : w.Leaves root out.2) :
    w.Leaves root (ofStatus c out).2 := by
  rcases out with ⟨s | r | x, w'⟩
  · exact h
  · exact h.trans (.of_eq rfl)
  · exact h.trans (.of_eq rfl)

/-- A call that goes on is suspended. -/
theorem Running.of_mem_ofStatus {c : Call} {out : Status c.activity.State Result × World}
    (h : r ∈ (ofStatus c out).1.toList) :
    ∃ s, r = ⟨c, s⟩ ∧ out = (.pending s, (ofStatus c out).2) := by
  rcases out with ⟨s | r' | x, w'⟩
  · exact ⟨s, List.mem_singleton.mp h, rfl⟩
  · cases h
  · cases h

/-- Neither a hook nor an action that the call may come upon cancels the root token. -/
def Call.Leaves (root : String) (c : Call) : Prop :=
  c.policy.origin.hooks.Leaves root ∧ scriptLeaves root c.script

theorem Call.leaves {c : Call} {root : String} (h : c.Leaves root) :
    ∃ fits, c.activity.Leaves root fits := c.policy.leaves c.id h.1 h.2

/-- The call is one of those from outside with the given names, under a root token. -/
structure Call.Outside (c : Call) (started : List String) : Prop where
  started : ∃ name n, c.id = .top name n ∧ n < started.count name
  root : c.token.path = []

namespace Simulation

/-- No instant is past that a call still waits for. -/
def Punctual (S : Simulation) : Prop := ∀ r ∈ S.running, ∀ d ∈ r.deadlines, S.world.now ≤ d

/-- What moves lead to. In a timely run, time passes no instant that a call waits for. -/
def Reaches (timely : Prop) (chance : Chance) (S : Simulation) : Prop :=
  ReflTransGen (fun S S' => Move S S' ∧ (timely → S'.Punctual)) (.start chance.draws chance.ties) S

theorem Reachable.reaches (h : S.Reachable chance) : S.Reaches False chance :=
  ReflTransGen.mono (fun _ _ m => ⟨m, nofun⟩) _ _ h

theorem Reaches.reachable (h : S.Reaches timely chance) : S.Reachable chance :=
  ReflTransGen.mono (fun _ _ m => m.1) _ _ h

/-- The calls that run are different and live, and nothing has been done yet for those
that were not started. -/
structure Orderly (timely : Prop) (S : Simulation) : Prop where
  sane : S.world.Sane
  outside : ∀ r ∈ S.running, r.call.Outside S.started
  distinct : S.running.Pairwise fun r r' => r.call.id ≠ r'.call.id
  lives : ∀ r ∈ S.running, ∃ w₀ : World, w₀.Awaits r.call.id r.call.token ∧
    r.call.activity.Lives r.call.id timely r.call.token w₀ (.pending r.state, S.world)
  fresh : ∀ {name n t}, S.started.count name ≤ n → t.path = [] →
    S.world.Awaits (.top name n) t

/-- A move is made on behalf of a call that was started in the world `w₀`, and leaves the
other calls alone. -/
structure Acts (timely : Prop) (S S' : Simulation) (c : Call) (w₀ : World) : Prop where
  outside : c.Outside S'.started
  origin : (∃ r ∈ S.running, r.call = c) ∨ ∃ name, c.id = .top name (S.started.count name)
  started : ∀ name, S.started.count name ≤ S'.started.count name
  awaits : w₀.Awaits c.id c.token
  confined : S.world.Confined (.ofCall c.id c.policy.kinds c.token) w₀.minted S'.world
  leaves : ∀ root, c.Leaves root → S.world.Leaves root S'.world
  running : ∃ before new after, (before ++ after).Sublist S.running ∧
    S'.running = before ++ new ++ after ∧ new.length ≤ 1 ∧
    (∀ r ∈ before ++ after, r.call.id ≠ c.id) ∧
    ∀ r ∈ new, r.call = c ∧
      r.call.activity.Lives r.call.id timely r.call.token w₀ (.pending r.state, S'.world)

/-- A move is made without any call taking part. It may be the cancellation of a root
token. -/
structure Idles (S S' : Simulation) : Prop where
  running : S'.running = S.running
  started : S'.started = S.started
  meanwhile : ∀ {id t}, t.path = [] → S.world.Meanwhile id t S'.world
  cancelled : S'.world.cancelled = S.world.cancelled ∨
    ∃ name, S' = { S with world := S.world.cancel (.named name) }

theorem Idles.of_world {policies : List Policy} (hsane : S.world.Sane) (hnow : S.world.now ≤ w.now)
    (hminted : w.minted = S.world.minted) (hinvoked : w.invoked = S.world.invoked)
    (htrace : w.trace = S.world.trace)
    (hcancelled : w.cancelled = S.world.cancelled ∨
      ∃ name, w = S.world.cancel (.named name) ∧ policies = S.policies) :
    S.Idles { S with world := w, policies := policies } := by
  have hroots : ∃ as, w.cancelled = as ++ S.world.cancelled ∧ ∀ a ∈ as, a.path = [] := by
    rcases hcancelled with heq | ⟨name, rfl, -⟩
    · exact ⟨[], heq, nofun⟩
    · refine ⟨[.named name], rfl, fun a ha => ?_⟩
      rw [List.mem_singleton.mp ha]
      rfl
  refine ⟨rfl, rfl,
    fun {id t} ht => ⟨hnow, ?_, ?_, fun _ => congrFun hinvoked _, [], htrace, nofun⟩,
    hcancelled.imp_right fun ⟨name, hw, hp⟩ => ⟨name, by rw [hw, hp]⟩⟩
  · obtain ⟨as, heq, has⟩ := hroots
    intro a ha
    rw [heq] at ha
    rcases List.mem_append.mp ha with ha | ha
    · unfold Token.Before
      rw [has a ha]
      exact nofun
    · exact hminted ▸ hsane a ha
  · exact (World.spares_of_roots (hminted ▸ fun _ => Nat.le_refl _) hroots).mono
      Serves.governs (t.governs_self)

/-- The other calls that run are other calls. -/
theorem Orderly.others {before after : List Running} (h : S.Orderly timely)
    (hr : S.running = before ++ r :: after) : ∀ r' ∈ before ++ after, r'.call.id ≠ r.call.id := by
  have hdistinct := h.distinct
  rw [hr, List.pairwise_append, List.pairwise_cons] at hdistinct
  obtain ⟨-, ⟨hafter, -⟩, hbefore⟩ := hdistinct
  intro r' hr'
  rcases List.mem_append.mp hr' with hr' | hr'
  · exact hbefore r' hr' r List.mem_cons_self
  · exact (hafter r' hr').symm

/-- A call that runs is not the next one. -/
theorem Orderly.ne_nextId (h : S.Orderly timely) (hr : r ∈ S.running) (name : String) :
    r.call.id ≠ S.nextId name := by
  intro heq
  obtain ⟨name', n, hid, hlt⟩ := (h.outside r hr).started
  obtain ⟨rfl, rfl⟩ := CallId.top.inj (hid.symm.trans heq)
  exact Nat.lt_irrefl _ hlt

/-- Each move is made on behalf of one call, or of none. -/
theorem Orderly.move_cases (h : S.Orderly timely) (m : Move S S') :
    S.Idles S' ∨ ∃ c w₀, S.Acts timely S' c w₀ := by
  cases m with
  | build name description =>
    left
    unfold Simulation.build
    dsimp only
    split
    · exact .of_world h.sane (Nat.le_refl _) rfl rfl rfl (.inl rfl)
    · exact .of_world (w := S.world) h.sane (Nat.le_refl _) rfl rfl rfl (.inl rfl)
  -- the new call acts, in the world that it is started in
  | start r hp hs =>
    right
    obtain ⟨keeps, hdocile⟩ := r.policy.docile (S.nextId r.name) r.script
    have hawaits : S.world.Awaits (S.nextId r.name) (.named r.token) :=
      h.fresh (Nat.le_refl _) rfl
    refine ⟨S.callOf r, S.world, ⟨⟨r.name, S.started.count r.name, rfl, ?_⟩, rfl⟩,
      .inr ⟨r.name, rfl⟩, fun name => ?_, hawaits, ?_, fun root hroot => ?_, S.running, _, [], ?_,
      (List.append_nil _).symm, ?_, ?_, ?_⟩
    · show _ < (r.name :: S.started).count r.name
      rw [List.count_cons_self]
      exact Nat.lt_succ_self _
    · exact List.count_le_count_cons
    · exact Running.confined_ofStatus (hdocile.start hawaits.ready).confined
    -- its hooks and actions cancel no root but those that they name
    · obtain ⟨fits, hleaves⟩ := Call.leaves hroot
      exact Running.leaves_ofStatus (hleaves.start _ _).leaves
    · rw [List.append_nil]
    · exact Option.length_toList_le
    · rw [List.append_nil]
      exact fun r' hr' => h.ne_nextId hr' r.name
    · intro r' hr'
      obtain ⟨s, rfl, heq⟩ := Running.of_mem_ofStatus hr'
      have hlives : (S.callOf r).activity.Lives (S.callOf r).id timely (S.callOf r).token S.world
          ((S.callOf r).activity.start (S.callOf r).token S.world) := .start
      rw [heq] at hlives
      exact ⟨rfl, hlives⟩
  -- one that runs goes on with the life that it has led
  | @resume before after r hr =>
    right
    have hmem : r ∈ S.running := mem_running hr
    obtain ⟨w₀, hawaits, hlives⟩ := h.lives r hmem
    obtain ⟨keeps, hdocile⟩ := r.call.policy.docile r.call.id r.call.script
    have hconfined := (hdocile.confined_of_lives hawaits.ready hlives).1
    refine ⟨r.call, w₀, h.outside r hmem, .inl ⟨r, hmem, rfl⟩, fun _ => Nat.le_refl _, hawaits,
      Running.confined_ofStatus hconfined, fun root hroot => ?_, before, _, after,
      others_sublist hr, rfl, Option.length_toList_le, h.others hr, fun r' hr' => ?_⟩
    · obtain ⟨fits, hleaves⟩ := Call.leaves hroot
      exact Running.leaves_ofStatus (hleaves.resume _ _ (hleaves.lives hlives)).leaves
    · obtain ⟨s, rfl, heq⟩ := Running.of_mem_ofStatus hr'
      have hnext := hlives.resume
      rw [heq] at hnext
      exact ⟨rfl, hnext⟩
  -- one that is dropped gives back what it holds, and is suspended no more
  | @drop before after r hr =>
    right
    have hmem : r ∈ S.running := mem_running hr
    obtain ⟨w₀, hawaits, hlives⟩ := h.lives r hmem
    obtain ⟨keeps, hdocile⟩ := r.call.policy.docile r.call.id r.call.script
    refine ⟨r.call, w₀, h.outside r hmem, .inl ⟨r, hmem, rfl⟩, fun _ => Nat.le_refl _, hawaits,
      (hdocile.confined_of_lives hawaits.ready hlives).2, fun root hroot => ?_, before, [], after,
      others_sublist hr, ?_, Nat.zero_le 1, h.others hr, nofun⟩
    · obtain ⟨fits, hleaves⟩ := Call.leaves hroot
      exact hleaves.release r.state S.world
    · rw [List.append_nil]
  | cancel name =>
    left
    exact .of_world h.sane (Nat.le_refl _) rfl rfl rfl (.inr ⟨name, rfl, rfl⟩)
  | tick t ht => exact .inl (.of_world h.sane ht rfl rfl rfl (.inl rfl))

/-- What a move does on behalf of one call is nothing to the others. -/
theorem Acts.meanwhile {c : Call} (h : S.Acts timely S' c w₀) (hsane : S.world.Sane)
    {name : String} {n : Nat} {t : Token} (hne : CallId.top name n ≠ c.id) (ht : t.path = []) :
    S.world.Meanwhile (.top name n) t S'.world := by
  obtain ⟨name', n', hid, -⟩ := h.outside.started
  rw [hid] at hne
  refine h.confined.meanwhile hsane (fun {d} hd => ?_) ht
  rw [hid] at hd
  exact CallId.apart_of_top hne.symm hd

theorem Orderly.move (h : S.Orderly timely) (m : Move S S') (htimely : timely → S'.Punctual) :
    S'.Orderly timely := by
  -- a call that runs on has waited for what was done
  have hwait : ∀ r ∈ S.running, r ∈ S'.running → S.world.Meanwhile r.call.id r.call.token S'.world →
      ∃ w₀ : World, w₀.Awaits r.call.id r.call.token ∧
        r.call.activity.Lives r.call.id timely r.call.token w₀ (.pending r.state, S'.world) := by
    intro r hr hr' hw
    obtain ⟨w₀, hawaits, hlives⟩ := h.lives r hr
    exact ⟨w₀, hawaits, hlives.wait hw fun htime => htimely htime r hr'⟩
  -- either nobody acts, or one call does and the others wait
  rcases h.move_cases m with hidle | ⟨c, w₀, hacts⟩
  · have hw : S.world.Meanwhile (.top "" 0) (.named "") S'.world := hidle.meanwhile rfl
    refine ⟨hw.sane, ?_, ?_, ?_, ?_⟩
    · rw [hidle.running, hidle.started]
      exact h.outside
    · rw [hidle.running]
      exact h.distinct
    · intro r hr
      have hr₀ : r ∈ S.running := hidle.running ▸ hr
      exact hwait r hr₀ hr (hidle.meanwhile (h.outside r hr₀).root)
    · rw [hidle.started]
      exact fun hn ht => (hidle.meanwhile ht).awaits (h.fresh hn ht)
  · obtain ⟨before, new, after, hsub, hrunning, hone, hothers, hnew⟩ := hacts.running
    -- one that runs now has run before, or has just acted
    have hcases : ∀ r ∈ S'.running, r ∈ before ++ after ∨ r ∈ new := by
      rw [hrunning]
      exact fun r hr => mem_replaced hr
    refine ⟨hacts.confined.sane h.sane, fun r hr => ?_, ?_, fun r hr => ?_,
      fun {name n t} hn ht => ?_⟩
    · rcases hcases r hr with hr | hr
      · obtain ⟨name, n, hid, hlt⟩ := (h.outside r (hsub.subset hr)).started
        exact ⟨⟨name, n, hid, Nat.lt_of_lt_of_le hlt (hacts.started name)⟩,
          (h.outside r (hsub.subset hr)).root⟩
      · rw [(hnew r hr).1]
        exact hacts.outside
    -- the one that acted is put in front, where it is compared with all others
    · have hperm : (new ++ (before ++ after)).Perm (before ++ new ++ after) := by
        rw [← List.append_assoc]
        exact List.perm_append_comm.append_right after
      rw [hrunning]
      refine (hperm.pairwise_iff fun h => h.symm).mp (List.pairwise_append.mpr ⟨?_, ?_, ?_⟩)
      · match new, hone with
        | [], _ => exact .nil
        | [r], _ => exact List.pairwise_singleton _ r
      · exact h.distinct.sublist hsub
      · intro r hr r' hr'
        rw [(hnew r hr).1]
        exact (hothers r' hr').symm
    · rcases hcases r hr with hr' | hr'
      · obtain ⟨name, n, hid, -⟩ := (h.outside r (hsub.subset hr')).started
        refine hwait r (hsub.subset hr') hr ?_
        rw [hid]
        exact hacts.meanwhile h.sane (hid ▸ hothers r hr') (h.outside r (hsub.subset hr')).root
      · obtain ⟨hcall, hlives⟩ := hnew r hr'
        exact ⟨w₀, hcall ▸ hacts.awaits, hlives⟩
    -- the call that acted has been started, this one has not
    · have hne : CallId.top name n ≠ c.id := by
        obtain ⟨name', n', hid, hlt⟩ := hacts.outside.started
        rw [hid]
        rintro heq
        obtain ⟨rfl, rfl⟩ := CallId.top.inj heq
        exact Nat.lt_irrefl _ (Nat.lt_of_lt_of_le hlt hn)
      exact (hacts.meanwhile h.sane hne ht).awaits
        (h.fresh (Nat.le_trans (hacts.started name) hn) ht)

/-- **The calls of a simulation** live. -/
theorem Reaches.orderly (h : S.Reaches timely chance) : S.Orderly timely := by
  induction h with
  | refl =>
    refine ⟨nofun, nofun, .nil, nofun, fun {name n t} _ ht => ⟨nofun, ?_, fun _ => rfl, nofun⟩⟩
    unfold Token.Before
    rw [ht]
    exact nofun
  | tail _ m ih => exact ih.move m.1 m.2

/-- **Nothing is done on behalf of a call that has ended.** -/
theorem Orderly.over {name : String} {n : Nat} (h : S.Orderly False)
    (hstarted : n < S.started.count name) (hover : ∀ r ∈ S.running, r.call.id ≠ .top name n)
    (hm : ReflTransGen Move S S') (ht : t.path = []) :
    S.world.Meanwhile (.top name n) t S'.world ∧ ∀ r ∈ S'.running, r.call.id ≠ .top name n := by
  -- the induction needs that no call of this identity runs again, since its number is used up
  have hall : S'.Orderly False ∧ n < S'.started.count name ∧
      (∀ r ∈ S'.running, r.call.id ≠ .top name n) ∧
      S.world.Meanwhile (.top name n) t S'.world := by
    induction hm with
    | refl =>
      exact ⟨h, hstarted, hover, Nat.le_refl _, h.sane, .refl _ _ _, fun _ => rfl, [], rfl, nofun⟩
    | tail _ m ih =>
      obtain ⟨horderly, hstarted, hover, hw⟩ := ih
      refine ⟨horderly.move m nofun, ?_⟩
      rcases horderly.move_cases m with hidle | ⟨c, w₀, hacts⟩
      · rw [hidle.started, hidle.running]
        exact ⟨hstarted, hover, hw.trans (hidle.meanwhile ht)⟩
      -- who acts is a call that runs already or one with a new number
      · have hne : CallId.top name n ≠ c.id := by
          rcases hacts.origin with ⟨r, hr, rfl⟩ | ⟨name', hid⟩
          · exact (hover r hr).symm
          · rintro heq
            obtain ⟨rfl, rfl⟩ := CallId.top.inj (heq.trans hid)
            exact Nat.lt_irrefl _ hstarted
        obtain ⟨before, new, after, hsub, hrunning, -, -, hnew⟩ := hacts.running
        refine ⟨Nat.lt_of_lt_of_le hstarted (hacts.started name), fun r hr => ?_,
          hw.trans (hacts.meanwhile horderly.sane hne ht)⟩
        rw [hrunning] at hr
        rcases mem_replaced hr with hr | hr
        · exact hover r (hsub.subset hr)
        · rw [(hnew r hr).1]
          exact hne.symm
  exact ⟨hall.2.2.2, hall.2.2.1⟩

end Simulation

end CallPolicy
