/-
Scripted operations are docile.

An invocation acts for the calls that it makes, with the token that it got, and says
nothing about its own call but what it sees of that token.

* **`Script.docile`** — the operation of a script, and each of its invocations;
* **`Policy.docile`** — a call through a policy.
-/
import CallPolicy.Proofs.DocileLayers
import Mathlib.Tactic.Choose

namespace CallPolicy

open Activity

variable {w w' : World} {t : Token} {m : CallId → Nat} {call : CallId} {k position : Nat}

/-- What follows an action goes on with the same token. -/
def Flow.Passes (t : Token) : Flow → Prop
  | .next v => v.token = t
  | .stop _ => True

/-- The invocation is docile, and so are the calls that it makes. -/
abbrev Activity.Performs (a : Activity Visit Ending) (call : CallId) (k : Nat)
    (keeps : (CallId → Nat) → Token → a.State → World → Prop) : Prop :=
  a.Docile (.ofBody call k) Visit.token (fun _ _ => True) keeps

/-- The action of an invocation is docile, and so is the call that it may make. -/
abbrev Activity.Contributes (a : Activity Visit Flow) (call : CallId) (k : Nat)
    (keeps : (CallId → Nat) → Token → a.State → World → Prop) : Prop :=
  a.Docile (.ofBody call k) Visit.token Flow.Passes keeps

/-- The token of an invocation is the one that it acts with. -/
theorem Scope.ofBody_acts (call : CallId) (k : Nat) (t : Token) :
    ∃ c, (Scope.ofBody call k t).acts c t := ⟨_, 0, "", .refl _ t⟩

theorem World.Alike.isCancelled_body (h : w.Alike (Scope.ofBody call k t).acts w') :
    w'.isCancelled t = w.isCancelled t :=
  h.isCancelled (Scope.ofBody_acts call k t).choose_spec

/-- A pause is over when its instant has come, and perhaps when its token is cancelled. -/
theorem pause_cases (cancelled : Option Flow) (s : Visit × Nat) (w : World) {o : Option Flow}
    (h : (match cancelled with
      | some flow =>
        if w.isCancelled s.1.token then some flow
        else if s.2 ≤ w.now then some (.next s.1) else none
      | none => if s.2 ≤ w.now then some (.next s.1) else none) = o) :
    (o = none ∧ w.now < s.2) ∨ (o = some (.next s.1) ∧ s.2 ≤ w.now) ∨
      ∃ flow ∈ cancelled, o = some flow ∧ w.isCancelled s.1.token = true := by
  subst h
  cases cancelled with
  | none => grind
  | some flow => grind

namespace Activity.Docile

theorem pause (length : Duration) {cancelled : Option Flow}
    (hpasses : ∀ t, ∀ flow ∈ cancelled, Flow.Passes t flow) :
    (Activity.pause length cancelled).Contributes call k
      (fun _ t (s : Visit × Nat) _ => s.1.token = t) := by
  refine wait (fun s : Visit × Nat => s.1.token) (fun _ _ => rfl) (fun s w hnone d hd => ?_)
    (fun {s w w'} hlive hw hearly hnone => ?_) (fun s w flow hsome => ?_)
  · rcases pause_cases _ s w hnone with ⟨-, hlt⟩ | ⟨hnext, -⟩ | ⟨flow, -, hflow, -⟩
    · rwa [List.mem_singleton.mp hd]
    · cases hnext
    · cases hflow
  · rcases pause_cases _ s w hnone with ⟨-, hlt⟩ | ⟨hnext, -⟩ | ⟨flow, -, hflow, -⟩
    · rcases pause_cases cancelled s w' rfl with ⟨hnone', -⟩ | ⟨-, hle⟩ | ⟨flow, -, -, hcancelled⟩
      · exact hnone'
      · exact absurd (hearly _ List.mem_cons_self) (Nat.not_lt.mpr hle)
      · rw [hw.isCancelled_body, hlive] at hcancelled
        cases hcancelled
    · cases hnext
    · cases hflow
  · rcases pause_cases _ s w hsome with ⟨hnone, -⟩ | ⟨hnext, -⟩ | ⟨flow', hmem, hflow, -⟩
    · cases hnone
    · cases hnext
      rfl
    · cases hflow
      exact hpasses _ _ hmem

theorem visit {op : Operation} {kinds : List LayerKind} {name : String}
    {keeps : (CallId → Nat) → Token → op.State → World → Prop}
    (h : op.Attends (.nested call k position name) kinds keeps) :
    (Activity.visit op).Contributes call k (fun m t s w => s.1.token = t ∧ keeps m t s.2 w) := by
  -- the nested call answers to the token of the visit and stays in the scope of the body
  have hwide : op.Docile (.ofBody call k) (fun t => t) (fun _ _ => True) keeps :=
    h.mono (Scope.ofCall_le_ofBody call k position name kinds)
  have haccept : ∀ {m : CallId → Nat} {w : World} (v : Visit)
      {out : Status op.State Result × World},
      Yields (.ofBody call k v.token) m w
        (op.Stands (.ofBody call k v.token) (keeps m) v.token) (fun _ => True) out →
      Yields (.ofBody call k v.token) m w
        ((Activity.visit op).Stands (.ofBody call k v.token)
          (fun t s w => s.1.token = t ∧ keeps m t s.2 w) v.token) (Flow.Passes v.token)
        (visit.accept op v out) := by
    rintro m w v ⟨s | r | x, w'⟩ ⟨hw, hs⟩
    · refine ⟨hw, ⟨rfl, hs.kept⟩, hs.atRest.due, fun hlive w'' halike hearly => ?_⟩
      show visit.accept op v (op.resume s w'') = _
      rw [hs.atRest.rests hlive w'' halike hearly]
      rfl
    · exact ⟨hw, rfl⟩
    · exact ⟨hw, trivial⟩
  refine ⟨fun {v w} hw => haccept v (hwide.start hw), ?_, ?_, ?_, ?_⟩
  · rintro m _ ⟨v, s⟩ w hw ⟨rfl, hs⟩
    exact haccept v (hwide.resume hw hs)
  · rintro m _ ⟨v, s⟩ w w' hw ⟨rfl, hs⟩ hspares hsane
    exact ⟨rfl, hwide.stable hw hs hspares hsane⟩
  · rintro m m' _ ⟨v, s⟩ w hm ⟨rfl, hs⟩
    exact ⟨rfl, hwide.earlier hm hs⟩
  · rintro m _ ⟨v, s⟩ w ⟨rfl, hs⟩
    exact hwide.holdings hs

theorem followedBy {a : Activity Visit Flow} {b : Activity Visit Ending}
    {keeps : (CallId → Nat) → Token → a.State → World → Prop}
    {keeps' : (CallId → Nat) → Token → b.State → World → Prop}
    (ha : a.Contributes call k keeps) (hb : b.Performs call k keeps') :
    (a.followedBy b).Performs call k
      (fun m t s w => s.elim (fun s => keeps m t s w) fun s => keeps' m t s w) := by
  -- the second activity is at rest as it is by itself
  have hlift : ∀ {m : CallId → Nat} {t : Token} {w : World} {out : Status b.State Ending × World},
      Yields (.ofBody call k t) m w (b.Stands (.ofBody call k t) (keeps' m) t) (fun _ => True) out →
      Yields (.ofBody call k t) m w
        ((a.followedBy b).Stands (.ofBody call k t)
          (fun t s w => s.elim (fun s => keeps m t s w) fun s => keeps' m t s w) t)
        (fun _ => True) (Status.lift .inr out) := by
    rintro m t w ⟨s | e | x, w'⟩ ⟨hw, hs⟩
    · refine ⟨hw, hs.kept, hs.atRest.due, fun hlive w'' halike hearly => ?_⟩
      show Status.lift _ (b.resume s w'') = _
      rw [hs.atRest.rests hlive w'' halike hearly]
      rfl
    · exact ⟨hw, trivial⟩
    · exact ⟨hw, trivial⟩
  -- the first one is too, and when it passes its token on, the second one starts
  have hgo : ∀ {m : CallId → Nat} {t : Token} {w : World} {out : Status a.State Flow × World},
      w.Ready m t →
      Yields (.ofBody call k t) m w (a.Stands (.ofBody call k t) (keeps m) t) (Flow.Passes t) out →
      Yields (.ofBody call k t) m w
        ((a.followedBy b).Stands (.ofBody call k t)
          (fun t s w => s.elim (fun s => keeps m t s w) fun s => keeps' m t s w) t)
        (fun _ => True) (followedBy.go a b out) := by
    rintro m t w ⟨s | (v | e) | x, w'⟩ hready ⟨hw, hs⟩
    · refine ⟨hw, hs.kept, hs.atRest.due, fun hlive w'' halike hearly => ?_⟩
      show followedBy.go a b (a.resume s w'') = _
      rw [hs.atRest.rests hlive w'' halike hearly]
      rfl
    · obtain rfl : v.token = t := hs
      exact hlift (hb.start_after hready hw)
    · exact ⟨hw, trivial⟩
    · exact ⟨hw, trivial⟩
  -- each of the two answers for its own states
  refine ⟨fun hw => hgo hw (ha.start hw), ?_, ?_, ?_, ?_⟩
  · rintro m t (s | s) w hw hs
    · exact hgo hw (ha.resume hw hs)
    · exact hlift (hb.resume hw hs)
  · rintro m t (s | s) w w' hw hs hspares hsane
    · exact ha.stable hw hs hspares hsane
    · exact hb.stable hw hs hspares hsane
  · rintro m m' t (s | s) w hm hs
    · exact ha.earlier hm hs
    · exact hb.earlier hm hs
  · rintro m t (s | s) w hs
    · exact ha.holdings hs
    · exact hb.holdings hs

/-- One invocation after the other. -/
theorem numbered {body : Nat → Activity Visit Ending}
    {keeps : (k : Nat) → (CallId → Nat) → Token → (body k).State → World → Prop}
    (h : ∀ k, (body k).Performs call k (keeps k)) :
    (Activity.numbered call fun k => .invocation call k (body k)).Attends call []
      (fun m t s w => s.2.1 = t ∧ keeps s.1 m t s.2.2 w) := by
  -- a body may do less than its call, so what holds of it holds in the wider scope
  have hwide : ∀ k, (body k).Docile (.ofCall call []) Visit.token (fun _ _ => True) (keeps k) :=
    fun k => (h k).mono fun t => Scope.ofBody_le call k t []
  have hown : ∀ {t : Token} {r : Record}, r.call = call → r.teller? = none →
      (Scope.ofCall call [] t).Records r := by
    intro t r hcall hteller
    refine Scope.records_ofCall hcall fun k hk => ?_
    rw [hteller] at hk
    cases hk
  -- the four ways that a poll of the body ends; each end adds one record of the call itself
  have hconclude : ∀ {m : CallId → Nat} {t : Token} {w : World} (k : Nat)
      {out : Status (body k).State Ending × World},
      Yields (.ofCall call [] t) m w
        ((body k).Stands (.ofCall call [] t) (keeps k m) t) (fun _ => True) out →
      Yields (.ofCall call [] t) m w
        ((Activity.numbered call fun k => .invocation call k (body k)).Stands (.ofCall call [] t)
          (fun t s w => s.2.1 = t ∧ keeps s.1 m t s.2.2 w) t) (fun _ => True)
        (Status.lift (Sigma.mk k) (invocation.conclude call k (body k) t out)) := by
    rintro m t w k ⟨s | (r | x) | x, w'⟩ ⟨hw, hs⟩
    · refine ⟨hw, ⟨rfl, hs.kept⟩, hs.atRest.due, fun hlive w'' halike hearly => ?_⟩
      show Status.lift _ (invocation.conclude call k (body k) t ((body k).resume s w'')) = _
      rw [hs.atRest.rests hlive w'' halike hearly]
      rfl
    · exact ⟨hw.trans (.note _ (hown rfl rfl)), trivial⟩
    · exact ⟨hw.trans (.note _ (hown rfl rfl)), trivial⟩
    · exact ⟨hw.trans (.note _ (hown rfl rfl)), trivial⟩
  refine ⟨fun {t w} hw => ?_, ?_, ?_, ?_, ?_⟩
  · have hinvoked : w.Confined (.ofCall call [] t) w.minted
        (w.invoke call (w.invoked call).length t) :=
      .invoke w (.refl call t) fun _ => hown rfl rfl
    exact hconclude _ ((hwide _).start_after (i := ⟨t, .ok ""⟩) hw hinvoked)
  · rintro m _ ⟨k, t, s⟩ w hw ⟨rfl, hs⟩
    exact hconclude k ((hwide k).resume hw hs)
  · rintro m _ ⟨k, t, s⟩ w w' hw ⟨rfl, hs⟩ hspares hsane
    exact ⟨rfl, (hwide k).stable hw hs hspares hsane⟩
  · rintro m m' _ ⟨k, t, s⟩ w hm ⟨rfl, hs⟩
    exact ⟨rfl, (h k).earlier hm hs⟩
  · rintro m _ ⟨k, t, s⟩ w ⟨rfl, hs⟩ hold hmem
    rcases List.mem_append.mp hmem with hmem | hmem
    · exact (hwide k).holdings hs hold hmem
    · rw [List.mem_singleton.mp hmem]
      exact fun _ => hown rfl rfl

end Activity.Docile

/-! ### Scripts -/

mutual

theorem Action.docile (call : CallId) (k position : Nat) (a : Action) :
    ∃ keeps, (a.activity call k position).Contributes call k keeps := by
  -- the two waits that end with the visit as it was; a sleep may end it and is done apart
  have hwait : ∀ {ready : Visit → World → Option Flow},
      (∀ {v w w'}, w.isCancelled v.token = false → w.Alike (Scope.ofBody call k v.token).acts w' →
        ready v w = none → ready v w' = none) →
      (∀ v w flow, ready v w = some flow → flow = .next v) →
      (Activity.wait (fun v _ => v) ready fun _ => []).Contributes call k
        (fun _ t v _ => v.token = t) := by
    intro ready hready hnext
    refine .wait Visit.token (fun _ _ => rfl) (fun _ _ _ => nofun)
      (fun hlive hw _ => hready hlive hw) fun v w flow hsome => ?_
    rw [hnext v w flow hsome]
    rfl
  cases a with
  | sleep length =>
    rw [Action.activity]
    exact ⟨_, .pause length nofun⟩
  | sleepUnlessCancelled length =>
    rw [Action.activity]
    refine ⟨_, .pause length fun t flow hflow => ?_⟩
    cases hflow
    trivial
  | awaitCancel =>
    rw [Action.activity]
    refine ⟨_, hwait (fun {v w w'} hlive hw _ => ?_) fun v w flow hsome => ?_⟩
    · rw [hw.isCancelled_body, hlive]
      rfl
    · split at hsome <;> cases hsome
      rfl
  | hang =>
    rw [Action.activity]
    exact ⟨_, hwait (fun _ _ _ => rfl) nofun⟩
  | probe =>
    rw [Action.activity]
    refine ⟨_, .atOnce fun {v w} _ => ⟨.note w ⟨fun _ => ⟨_, rfl⟩, fun hne => ?_⟩, rfl⟩⟩
    exact absurd rfl hne
  | cancel token =>
    rw [Action.activity]
    exact ⟨_, .atOnce fun {v w} _ => ⟨.cancel_named w token, rfl⟩⟩
  | give result =>
    rw [Action.activity]
    exact ⟨_, .atOnce fun {v w} _ => ⟨.refl _ _ w, rfl⟩⟩
  | panic text =>
    rw [Action.activity]
    exact ⟨_, .atOnce fun {v w} _ => ⟨.refl _ _ w, trivial⟩⟩
  | call policy script =>
    -- the nested call runs under an identity of its own, in which no other call writes
    choose keeps hbody using fun j =>
      scriptBody_docile (.nested call k position policy.name) j j script
    rw [Action.activity]
    have hstack := Docile.stack ⟨policy.origin, .nested call k position policy.name⟩
      policy.layers (Docile.numbered hbody)
    exact ⟨_, .visit hstack⟩

theorem actionsBody_docile (call : CallId) (k position : Nat) (actions : List Action) :
    ∃ keeps, (actionsBody call k position actions).Performs call k keeps := by
  cases actions with
  | nil =>
    rw [actionsBody]
    exact ⟨_, .atOnce fun {v w} _ => ⟨.refl _ _ w, trivial⟩⟩
  | cons a rest =>
    obtain ⟨keeps, ha⟩ := a.docile call k position
    obtain ⟨keeps', hrest⟩ := actionsBody_docile call k (position + 1) rest
    rw [actionsBody]
    exact ⟨_, .followedBy ha hrest⟩

theorem scriptBody_docile (call : CallId) (k i : Nat) (script : List (List Action)) :
    ∃ keeps, (scriptBody call k i script).Performs call k keeps := by
  match i, script with
  | _, [] =>
    rw [scriptBody]
    exact ⟨_, .atOnce fun {v w} _ => ⟨.refl _ _ w, trivial⟩⟩
  | _, [actions] =>
    rw [scriptBody]
    exact actionsBody_docile call k 0 actions
  | 0, actions :: _ :: _ =>
    rw [scriptBody]
    exact actionsBody_docile call k 0 actions
  | i + 1, _ :: next :: rest =>
    rw [scriptBody]
    exact scriptBody_docile call k i (next :: rest)

end

end CallPolicy
