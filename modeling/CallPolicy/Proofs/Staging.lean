/-
Runs that are given by cues.

A `Conduct` is a way to build policies and to carry out calls. A list of `Cue`s, each of
them the least that can be done, is played the same in any conduct, so that the runs of
two conducts can be compared cue by cue.

* **`Reachable.played`** — what a simulation can reach is played by cues with the policies
  and calls as they are;
* **`Imitates.play`** — if one conduct does elsewhere what another one does, then the two
  remain parallel for as long as cues come.
-/
import CallPolicy.Proofs.Delegation
import CallPolicy.Proofs.Runs
import Mathlib.Data.List.Forall2

namespace CallPolicy

open Relation

/-- A way to build policies and to carry out calls. -/
structure Conduct where
  install : Policy → World → World
  activity : Call → Operation

/-- Policies and calls as they are. -/
def Conduct.plain : Conduct := ⟨Policy.install, Call.activity⟩

/-- A call that is suspended. -/
structure Conduct.Suspended (x : Conduct) where
  call : Call
  state : (x.activity call).State

/-- The world and the calls that run in it, the first one started first. -/
structure Stage (x : Conduct) where
  world : World
  running : List x.Suspended

/-- The least that can be done. -/
inductive Cue
  | build (p : Policy)
  | start (c : Call)
  /-- The running call at place `i` is resumed. -/
  | resume (i : Nat)
  /-- The running call at place `i` is dropped. -/
  | drop (i : Nat)
  /-- The root token with a given name is cancelled. -/
  | cancel (name : String)
  /-- A number of nanoseconds pass. -/
  | pass (length : Nat)

/-- The call that the cue starts. -/
def Cue.call? : Cue → Option Call
  | start c => some c
  | _ => none

/-- Are the policies that the cue speaks of among `K`? -/
def Cue.Known (K : List Policy) : Cue → Prop
  | build p => p ∈ K
  | start c => c.policy ∈ K ∧ scriptKnown K c.script
  | _ => True

variable {x y : Conduct} {ρ : Link} {K : List Policy} {fits : Cue → Prop} {chance : Chance}

namespace Conduct.Suspended

/-- Takes up the status of a call: it goes on, or its end is recorded. -/
def ofStatus (c : Call) : Status (x.activity c).State Result × World → Option x.Suspended × World
  | (.pending s, w) => (some ⟨c, s⟩, w)
  | (.done r, w) => (none, w.settleCall c (.returned r))
  | (.panicked t, w) => (none, w.settleCall c (.panicked t))

/-- Resumes a call. -/
def resume (r : x.Suspended) (w : World) : Option x.Suspended × World :=
  ofStatus r.call ((x.activity r.call).resume r.state w)

/-- What a call gives back when it is dropped. -/
def holdings (r : x.Suspended) : List Holding := (x.activity r.call).holdings r.state

/-- The instants that a call waits for. -/
def deadlines (r : x.Suspended) : List Nat := (x.activity r.call).deadlines r.state

end Conduct.Suspended

namespace Stage

/-- Does what a cue says. -/
def take (s : Stage x) : Cue → Stage x
  | .build p => { s with world := x.install p s.world }
  | .start c =>
    let (new, world) := Conduct.Suspended.ofStatus c ((x.activity c).start c.token s.world)
    ⟨world, s.running ++ new.toList⟩
  | .resume i =>
    match s.running[i]? with
    | none => s
    | some r =>
      let (r?, world) := r.resume s.world
      ⟨world, s.running.take i ++ r?.toList ++ s.running.drop (i + 1)⟩
  | .drop i =>
    match s.running[i]? with
    | none => s
    | some r =>
      ⟨s.world.releaseAll r.holdings, s.running.take i ++ s.running.drop (i + 1)⟩
  | .cancel name => { s with world := s.world.cancel (.named name) }
  | .pass length => { s with world := { s.world with now := s.world.now + length } }

/-- The calls that run. -/
def calls (s : Stage x) : List Call := s.running.map (·.call)

/-- The instants that the running calls wait for. -/
def deadlines (s : Stage x) : List (List Nat) := s.running.map (·.deadlines)

end Stage

/-- Plays cues from the beginning. -/
def Conduct.play (x : Conduct) (chance : Chance) (cues : List Cue) : Stage x :=
  cues.foldl Stage.take ⟨.start chance, []⟩

theorem Conduct.play_concat (x : Conduct) (chance : Chance) (cues : List Cue) (cue : Cue) :
    x.play chance (cues ++ [cue]) = (x.play chance cues).take cue := List.foldl_concat ..

/-! ### Simulations -/

/-- A suspended call of a simulation. -/
def Running.suspended (r : Running) : Conduct.plain.Suspended := ⟨r.call, r.state⟩

theorem Running.suspended_ofStatus (c : Call) (out : Status c.activity.State Result × World) :
    Conduct.Suspended.ofStatus (x := .plain) c out =
      ((ofStatus c out).1.map suspended, (ofStatus c out).2) := by
  rcases out with ⟨s | r | t, w⟩ <;> rfl

theorem Running.suspended_resume (r : Running) (w : World) :
    r.suspended.resume w = ((r.resume w).1.map suspended, (r.resume w).2) :=
  suspended_ofStatus r.call _

namespace Simulation

/-- A simulation without its books. -/
def stage (S : Simulation) : Stage .plain := ⟨S.world, S.running.map Running.suspended⟩

/-- A call in the middle of others is found at its place. -/
theorem stage_at {S : Simulation} {before after : List Running} {r : Running}
    (h : S.running = before ++ r :: after) :
    S.stage.running[before.length]? = some r.suspended ∧
      S.stage.running.take before.length = before.map Running.suspended ∧
      S.stage.running.drop (before.length + 1) = after.map Running.suspended := by
  have hlength : (before.map Running.suspended).length = before.length := List.length_map ..
  rw [stage, h, List.map_append, List.map_cons, ← hlength]
  refine ⟨?_, List.take_left, ?_⟩
  · rw [List.getElem?_append_right (Nat.le_refl _), Nat.sub_self, List.getElem?_cons_zero]
  · rw [List.drop_append, Nat.add_sub_cancel_left, List.drop_of_length_le (Nat.le_succ _)]
    rfl

/-- What a move adds to the names of the calls is what a cue starts. -/
inductive Announced (S S' : Simulation) (cue : Cue) : Prop
  | nothing (hcall : cue.call? = none) (hstarted : S'.started = S.started)
  | call (r : Request) (hcall : cue.call? = some (S.callOf r))
      (hstarted : S'.started = r.name :: S.started)

/-- A move is what a cue says, or nothing. -/
theorem Move.cue {S S' : Simulation} (m : Move S S') (hK : S'.policies ⊆ K) :
    (S'.stage = S.stage ∧ S'.started = S.started) ∨
      ∃ cue : Cue, cue.Known K ∧ S'.stage = S.stage.take cue ∧ Announced S S' cue := by
  cases m with
  | build name description =>
    -- a description with a fault builds nothing, and nobody is told
    revert hK
    unfold Simulation.build
    dsimp only
    split
    next p hp =>
      intro hK
      exact .inr ⟨.build p, hK (List.mem_append_right _ List.mem_cons_self), rfl,
        .nothing rfl rfl⟩
    next => exact fun _ => .inl ⟨rfl, rfl⟩
  | start r hp hs =>
    refine .inr ⟨.start (S.callOf r), ⟨hK hp, scriptKnown_mono hK hs⟩, ?_, .call r rfl rfl⟩
    have hstart : Conduct.Suspended.ofStatus (S.callOf r)
        ((Conduct.plain.activity (S.callOf r)).start (S.callOf r).token S.stage.world) = _ :=
      Running.suspended_ofStatus (S.callOf r) _
    unfold Stage.take
    dsimp only
    rw [hstart, stage, Simulation.launch, List.map_append, Option.toList_map]
    rfl
  -- a running call is known by its place
  | @resume before after r hr =>
    refine .inr ⟨.resume before.length, trivial, ?_, .nothing rfl rfl⟩
    obtain ⟨hget, htake, hdrop⟩ := stage_at hr
    unfold Stage.take
    dsimp only
    rw [hget, htake, hdrop]
    dsimp only
    rw [r.suspended_resume, stage, List.map_append, List.map_append, Option.toList_map]
    rfl
  | @drop before after r hr =>
    refine .inr ⟨.drop before.length, trivial, ?_, .nothing rfl rfl⟩
    obtain ⟨hget, htake, hdrop⟩ := stage_at hr
    unfold Stage.take
    dsimp only
    rw [hget, htake, hdrop, stage, List.map_append]
    rfl
  | cancel name => exact .inr ⟨.cancel name, trivial, rfl, .nothing rfl rfl⟩
  -- time is told by how much of it has passed
  | tick t ht =>
    refine .inr ⟨.pass (t - S.world.now), trivial, ?_, .nothing rfl rfl⟩
    have hnow : S.world.now + (t - S.world.now) = t := Nat.add_sub_cancel' ht
    unfold Stage.take
    dsimp only
    rw [stage, stage, hnow]
    rfl

/-- The calls that cues start are told apart by their identities, and were all started from
outside. -/
structure Lists (S : Simulation) (calls : List Call) : Prop where
  nodup : (calls.map Call.id).Nodup
  outside : ∀ c ∈ calls, ∃ name n, c.id = .top name n ∧ n < S.started.count name

theorem Lists.announced {S S' : Simulation} {cues : List Cue} {cue : Cue}
    (h : S.Lists (cues.filterMap Cue.call?)) (hcue : Announced S S' cue) :
    S'.Lists ((cues ++ [cue]).filterMap Cue.call?) := by
  rw [List.filterMap_append]
  cases hcue with
  | nothing hcall hstarted =>
    rw [List.filterMap_cons_none hcall, List.filterMap_nil, List.append_nil]
    exact ⟨h.nodup, fun c hc => hstarted ▸ h.outside c hc⟩
  | call r hcall hstarted =>
    rw [List.filterMap_cons_some hcall, List.filterMap_nil]
    have hnew : (S.callOf r).id ∉ (cues.filterMap Cue.call?).map Call.id := by
      intro hmem
      obtain ⟨c, hc, hid⟩ := List.mem_map.mp hmem
      obtain ⟨name, n, hname, hlt⟩ := h.outside c hc
      obtain ⟨rfl, rfl⟩ := CallId.top.inj (hname.symm.trans hid)
      exact Nat.lt_irrefl _ hlt
    constructor
    · rw [List.map_append, List.map_singleton, ← List.concat_eq_append]
      exact h.nodup.concat hnew
    · intro c hc
      rw [hstarted]
      rcases List.mem_append.mp hc with hc | hc
      · obtain ⟨name, n, hid, hlt⟩ := h.outside c hc
        exact ⟨name, n, hid, Nat.lt_of_lt_of_le hlt (List.count_le_count_cons ..)⟩
      · obtain rfl := List.mem_singleton.mp hc
        exact ⟨r.name, _, rfl, by rw [List.count_cons_self]; exact Nat.lt_succ_self _⟩

/-- Whatever a simulation can reach is played by cues that start each call once. -/
theorem Reachable.played_once {S : Simulation} (h : S.Reachable chance) (hK : S.policies ⊆ K) :
    ∃ cues : List Cue, (∀ cue ∈ cues, cue.Known K) ∧ Conduct.plain.play chance cues = S.stage ∧
      S.Lists (cues.filterMap Cue.call?) := by
  induction h with
  | refl => exact ⟨[], nofun, rfl, .nil, nofun⟩
  | tail _ m ih =>
    obtain ⟨cues, hcues, hplay, hlists⟩ := ih (List.Subset.trans m.policies hK)
    rcases m.cue hK with ⟨hsame, hstarted⟩ | ⟨cue, hcue, htake, hannounced⟩
    · exact ⟨cues, hcues, hplay.trans hsame.symm, hlists.nodup,
        fun c hc => hstarted ▸ hlists.outside c hc⟩
    · refine ⟨cues ++ [cue], fun c hc => ?_, ?_, hlists.announced hannounced⟩
      · rcases List.mem_append.mp hc with hc | hc
        · exact hcues c hc
        · exact List.mem_singleton.mp hc ▸ hcue
      · rw [Conduct.play_concat, hplay, htake]

/-- **Whatever a simulation can reach** is played by cues. -/
theorem Reachable.played {S : Simulation} (h : S.Reachable chance) (hK : S.policies ⊆ K) :
    ∃ cues : List Cue, (∀ cue ∈ cues, cue.Known K) ∧ Conduct.plain.play chance cues = S.stage := by
  obtain ⟨cues, hcues, hplay, -⟩ := h.played_once hK
  exact ⟨cues, hcues, hplay⟩

end Simulation

/-! ### Parallel runs -/

/-- A call stands at corresponding places in two worlds. If it has ended, they still
correspond when that is recorded. -/
inductive Link.Concurs {κ κ' : Type} (ρ : Link) (c : Call) (f : κ → κ') :
    Status κ Result × World → Status κ' Result × World → Prop
  | pending {s : κ} {w w' : World} (h : ρ.Carries w w') :
      Concurs ρ c f (.pending s, w) (.pending (f s), w')
  | done {r r' : Result} {w w' : World}
      (h : ρ.Carries (w.settleCall c (.returned r)) (w'.settleCall c (.returned r'))) :
      Concurs ρ c f (.done r, w) (.done r', w')
  | panicked {t : String} {w w' : World}
      (h : ρ.Carries (w.settleCall c (.panicked t)) (w'.settleCall c (.panicked t))) :
      Concurs ρ c f (.panicked t, w) (.panicked t, w')

/-- Two operations by which a call is carried out alike. -/
structure Call.Twin (ρ : Link) (c : Call) (op op' : Operation) where
  state : op.State → op'.State
  start : ∀ {w w' : World}, ρ.Carries w w' →
    ρ.Concurs c state (op.start c.token w) (op'.start c.token w')
  resume : ∀ s {w w' : World}, ρ.Carries w w' →
    ρ.Concurs c state (op.resume s w) (op'.resume (state s) w')
  release : ∀ s {w w' : World}, ρ.Carries w w' →
    ρ.Carries (w.releaseAll (op.holdings s)) (w'.releaseAll (op'.holdings (state s)))
  deadlines : ∀ s, op'.deadlines (state s) = op.deadlines s

section

variable {c : Call} {w w' : World}

/-- The tokens of a call's invocations are in the same state in both worlds. -/
theorem Link.Carries.invocations (h : ρ.Carries w w') (id : CallId) :
    (w'.invoked id).reverse.map w'.isCancelled = (w.invoked id).reverse.map w.isCancelled := by
  rw [h.invoked, funext h.isCancelled]

/-- A call has ended in the same way. -/
theorem Link.Mirrors.concurs {κ κ' : Type} {f : κ → κ'} {out : Status κ Result × World}
    {out' : Status κ' Result × World} (h : ρ.Mirrors f out out')
    (hends : ∀ e {w w' : World}, ρ.Carries w w' →
      ρ.Carries (w.settleCall c e) (w'.settleCall c e)) : ρ.Concurs c f out out' := by
  cases h with
  | pending h => exact .pending h
  | done h => exact .done (hends _ h)
  | panicked h => exact .panicked (hends _ h)

/-- A call is carried out alike by what does the same elsewhere, if ends are recorded alike. -/
def Activity.Mirror.twin {op op' : Operation} (m : Mirror ρ op op')
    (hends : ∀ e {w w' : World}, ρ.Carries w w' →
      ρ.Carries (w.settleCall c e) (w'.settleCall c e)) : c.Twin ρ op op' where
  state := m.state
  start h := (m.start c.token h).concurs hends
  resume s _ _ h := (m.resume s h).concurs hends
  release s _ _ h := m.releaseAll s h
  deadlines := m.deadlines

end

/-- Two suspended calls stand at corresponding places. -/
inductive Conduct.Suspended.Counterpart (ρ : Link) : x.Suspended → y.Suspended → Prop
  | mk (c : Call) (m : c.Twin ρ (x.activity c) (y.activity c)) (s : (x.activity c).State) :
      Counterpart ρ ⟨c, s⟩ ⟨c, m.state s⟩

/-- The second stage is like the first one. -/
structure Stage.Parallel (ρ : Link) (s : Stage x) (s' : Stage y) : Prop where
  world : ρ.Carries s.world s'.world
  running : List.Forall₂ (Conduct.Suspended.Counterpart ρ) s.running s'.running

/-- The second conduct does like the first one what some cues say. -/
structure Conduct.Imitates (ρ : Link) (fits : Cue → Prop) (x y : Conduct) : Prop where
  begin : ∀ chance, ρ.Carries (.start chance) (.start chance)
  install : ∀ {p}, fits (.build p) → ∀ {w w' : World}, ρ.Carries w w' →
    ρ.Carries (x.install p w) (y.install p w')
  activity : ∀ {c}, fits (.start c) → Nonempty (c.Twin ρ (x.activity c) (y.activity c))

namespace Stage.Parallel

/-- The status of a call is taken up in both. -/
theorem ofStatus {c : Call} (m : c.Twin ρ (x.activity c) (y.activity c))
    {out : Status (x.activity c).State Result × World} {out'}
    (h : ρ.Concurs c m.state out out') :
    ρ.Carries (Conduct.Suspended.ofStatus c out).2 (Conduct.Suspended.ofStatus c out').2 ∧
      List.Forall₂ (Conduct.Suspended.Counterpart ρ) (Conduct.Suspended.ofStatus c out).1.toList
        (Conduct.Suspended.ofStatus c out').1.toList := by
  cases h with
  | @pending s w w' h => exact ⟨h, .cons (.mk c m s) .nil⟩
  | done h => exact ⟨h, .nil⟩
  | panicked h => exact ⟨h, .nil⟩

variable {s : Stage x} {s' : Stage y} (h : s.Parallel ρ s')

include h

/-- The calls at one place correspond, or there are none. -/
theorem at_place (i : Nat) :
    (s.running[i]? = none ∧ s'.running[i]? = none) ∨
    ∃ r r', s.running[i]? = some r ∧ s'.running[i]? = some r' ∧
      Conduct.Suspended.Counterpart ρ r r' := by
  have hlength := h.running.length_eq
  rcases Nat.lt_or_ge i s.running.length with hlt | hle
  · have hlt' : i < s'.running.length := hlength ▸ hlt
    exact .inr ⟨s.running[i], s'.running[i], List.getElem?_eq_getElem hlt,
      List.getElem?_eq_getElem hlt', h.running.get hlt hlt'⟩
  · exact .inl ⟨List.getElem?_eq_none hle, List.getElem?_eq_none (hlength ▸ hle)⟩

/-- Both stages remain parallel. -/
theorem take (himitates : x.Imitates ρ fits y) {cue : Cue} (hcue : fits cue) :
    (s.take cue).Parallel ρ (s'.take cue) := by
  cases cue with
  | build p => exact ⟨himitates.install hcue h.world, h.running⟩
  | start c =>
    obtain ⟨m⟩ := himitates.activity hcue
    obtain ⟨hworld, hnew⟩ := ofStatus m (m.start h.world)
    exact ⟨hworld, List.rel_append h.running hnew⟩
  | resume i =>
    unfold Stage.take
    dsimp only
    -- calls that run are mirrored place by place
    rcases h.at_place i with ⟨e, e'⟩ | ⟨r, r', e, e', hr⟩
    · rw [e, e']
      exact h
    · rw [e, e']
      cases hr with
      | mk c m t =>
        obtain ⟨hworld, hnew⟩ := ofStatus m (m.resume t h.world)
        exact ⟨hworld, List.rel_append (List.rel_append (List.forall₂_take i h.running) hnew)
          (List.forall₂_drop (i + 1) h.running)⟩
  | drop i =>
    unfold Stage.take
    dsimp only
    rcases h.at_place i with ⟨e, e'⟩ | ⟨r, r', e, e', hr⟩
    · rw [e, e']
      exact h
    · rw [e, e']
      cases hr with
      | mk c m t =>
        exact ⟨m.release t h.world, List.rel_append (List.forall₂_take i h.running)
          (List.forall₂_drop (i + 1) h.running)⟩
  | cancel name => exact ⟨h.world.cancel (.named name), h.running⟩
  | pass length =>
    have hnow := h.world.setNow (s.world.now + length)
    refine ⟨?_, h.running⟩
    unfold Stage.take
    dsimp only
    rw [h.world.now]
    exact hnow

/-- The same calls run, and they wait for the same instants. -/
theorem waits : s'.calls = s.calls ∧ s'.deadlines = s.deadlines := by
  obtain ⟨-, hrunning⟩ := h
  unfold Stage.calls Stage.deadlines
  generalize s.running = rs at hrunning ⊢
  generalize s'.running = rs' at hrunning ⊢
  induction hrunning with
  | nil => exact ⟨rfl, rfl⟩
  | @cons r r' rs rs' hr _ ih =>
    obtain ⟨hcalls, hdeadlines⟩ := ih
    cases hr with
    | mk c m t =>
      exact ⟨congrArg (c :: ·) hcalls, congr (congrArg List.cons (m.deadlines t)) hdeadlines⟩

end Stage.Parallel

/-- **From the beginning** and through all cues, both conducts remain parallel. -/
theorem Conduct.Imitates.play (h : x.Imitates ρ fits y) {cues : List Cue}
    (hcues : ∀ cue ∈ cues, fits cue) : (x.play chance cues).Parallel ρ (y.play chance cues) := by
  induction cues using List.reverseRecOn with
  | nil => exact ⟨h.begin chance, .nil⟩
  | append_singleton cues cue ih =>
    have hbefore := ih fun c hc => hcues c (List.mem_append_left _ hc)
    rw [Conduct.play_concat, Conduct.play_concat]
    exact hbefore.take h (hcues cue (List.mem_append_right _ List.mem_cons_self))

end CallPolicy
