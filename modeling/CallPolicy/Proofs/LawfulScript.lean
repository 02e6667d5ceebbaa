/-
What a scripted operation does is made of effects.

A script is `Known` if all the policies that it calls are known, also in the scripts
of the calls that it makes. Such a script needs only the right to invoke the call's
operation each time that it is invoked; the rights of the calls that it makes come
with the invocation.

* **`Script.lawful`** — the operation of a script;
* **`Call.lawful`** — a call from outside.
-/
import CallPolicy.Proofs.LawfulLayers
import CallPolicy.Simulation

namespace CallPolicy

mutual

/-- Does the action call policies among `K` alone? -/
def Action.Known (K : List Policy) : Action → Prop
  | .call policy script => policy ∈ K ∧ scriptKnown K script
  | _ => True

/-- Do the actions call policies among `K` alone? -/
def actionsKnown (K : List Policy) : List Action → Prop
  | [] => True
  | a :: rest => a.Known K ∧ actionsKnown K rest

/-- Does the script call policies among `K` alone? -/
def scriptKnown (K : List Policy) : List (List Action) → Prop
  | [] => True
  | actions :: rest => actionsKnown K actions ∧ scriptKnown K rest

end

variable {K K' : List Policy}

mutual

theorem Action.Known.mono (hK : K ⊆ K') {a : Action} (h : a.Known K) : a.Known K' := by
  cases a with
  | call policy script => exact ⟨hK h.1, scriptKnown_mono hK h.2⟩
  | _ => trivial

theorem actionsKnown_mono (hK : K ⊆ K') {actions : List Action} (h : actionsKnown K actions) :
    actionsKnown K' actions := by
  cases actions with
  | nil => trivial
  | cons a rest => exact ⟨h.1.mono hK, actionsKnown_mono hK h.2⟩

theorem scriptKnown_mono (hK : K ⊆ K') {script : List (List Action)} (h : scriptKnown K script) :
    scriptKnown K' script := by
  cases script with
  | nil => trivial
  | cons actions rest => exact ⟨actionsKnown_mono hK h.1, scriptKnown_mono hK h.2⟩

end

/-- The actions that the `i`-th invocation takes. -/
def Script.actions (i : Nat) : List (List Action) → List Action
  | [] => []
  | [actions] => actions
  | actions :: next :: rest =>
    match i with
    | 0 => actions
    | i + 1 => Script.actions i (next :: rest)

variable {call : CallId} {k position : Nat}

namespace Activity.Lawful

theorem pause (length : Duration) (cancelled : Option Flow) :
    (Activity.pause length cancelled).Lawful K 0 (fun _ => 0) := wait _ _ _

theorem visit {op : Operation} {needs : Multiset Right} {rights : op.State → Multiset Right}
    (h : op.Lawful K needs rights) : (Activity.visit op).Lawful K needs (fun s => rights s.2) := by
  have haccept : ∀ {x : Scene} {out : Status op.State Result × World} (v : Visit),
      Leads K x op.holdings rights out →
      Leads K x (Activity.visit op).holdings (fun s => rights s.2)
        (Activity.visit.accept op v out) := by
    rintro x ⟨s | r | t, w⟩ v hout
    · exact hout
    · exact hout
    · exact hout
  exact ⟨fun v w => haccept v (h.start v.token w), fun s w => haccept s.1 (h.resume s.2 w)⟩

/-- The rights of the rest are kept until its turn comes. -/
theorem followedBy {a : Activity Visit Flow} {b : Activity Visit Ending}
    {needs needs' : Multiset Right} {rights : a.State → Multiset Right}
    {rights' : b.State → Multiset Right}
    (ha : a.Lawful K needs rights) (hb : b.Lawful K needs' rights') :
    (a.followedBy b).Lawful K (needs + needs')
      (Sum.elim (fun s => rights s + needs') rights') := by
  have hlift : ∀ {x : Scene} {out : Status b.State Ending × World},
      Leads K x b.holdings rights' out →
      Leads K x (a.followedBy b).holdings (Sum.elim (fun s => rights s + needs') rights')
        (Status.lift .inr out) := by
    rintro x ⟨s | e | t, w⟩ hout
    · exact hout
    · exact hout
    · exact hout
  have hgo : ∀ {x : Scene} {out : Status a.State Flow × World}, Leads K x a.holdings rights out →
      Leads K (x.allow needs') (a.followedBy b).holdings
        (Sum.elim (fun s => rights s + needs') rights') (Activity.followedBy.go a b out) := by
    rintro x ⟨s | (v | e) | t, w⟩ hout <;> have hframe := Steps.frame_rights hout needs'
    · exact hframe
    · rw [Scene.allow_mk w, zero_add] at hframe
      exact .after_steps hframe (hlift (hb.start v w))
    · exact hframe.trans (.lapse _ _ _)
    · exact hframe.trans (.lapse _ _ _)
  constructor
  · exact fun v w => hgo (ha.start v w)
  · rintro (s | s) w
    · exact hgo (ha.resume s w)
    · exact hlift (hb.resume s w)

/-- One invocation after the other, each with the rights of the calls that it makes. -/
theorem numbered {body : Nat → Activity Visit Ending} {actions : Nat → List Action}
    {rights : (k : Nat) → (body k).State → Multiset Right}
    (h : ∀ k, (body k).Lawful K (actionsRights call k 0 (actions k)) (rights k)) :
    (Activity.numbered call fun k => .invocation call k (body k)).Lawful K {.invoke call}
      (fun s => rights s.1 s.2.2) := by
  -- the invocation itself is held beside what its body holds, and the last step gives it back
  have hconclude : ∀ {x : Scene} (k : Nat) (token : Token)
      {out : Status (body k).State Ending × World}, Leads K x (body k).holdings (rights k) out →
      Leads K (x.beside {.invocation call k token} 0)
        (Activity.numbered call fun k => .invocation call k (body k)).holdings
        (fun s => rights s.1 s.2.2)
        (Status.lift (Sigma.mk k) (Activity.invocation.conclude call k (body k) token out)) := by
    rintro x k token ⟨s | (r | t) | t, w⟩ hout <;>
      have hframe := Steps.frame hout {.invocation call k token} 0
    · rw [Scene.beside_mk w, add_zero] at hframe
      exact hframe
    · rw [Scene.beside_mk w, zero_add, zero_add] at hframe
      exact hframe.trans (.single (.finish w call k token (.returned r) 0 0))
    · rw [Scene.beside_mk w, zero_add, zero_add] at hframe
      exact hframe.trans (.single (.finish w call k token (.panicked t) 0 0))
    · rw [Scene.beside_mk w, zero_add, zero_add] at hframe
      exact hframe.trans (.single (.release w (.invocation call k token) 0 0))
  constructor
  · intro token w
    have hbody := hconclude (w.invoked call).length token
      ((h (w.invoked call).length).start ⟨token, .ok ""⟩
        (w.invoke call (w.invoked call).length token))
    rw [Scene.beside_mk, zero_add] at hbody
    exact .after_steps (.single (.invoke w call token (actions (w.invoked call).length) 0 0)) hbody
  · rintro ⟨k, token, s⟩ w
    have hbody := hconclude k token ((h k).resume s w)
    rw [Scene.beside_mk, add_zero] at hbody
    exact hbody

end Activity.Lawful

/-! ### Scripts -/

open Activity

mutual

theorem Action.lawful (call : CallId) (k position : Nat) (a : Action) (h : a.Known K) :
    ∃ rights, (a.activity call k position).Lawful K (a.rights call k position) rights := by
  cases a with
  | sleep length =>
    rw [Action.activity]
    exact ⟨_, .pause length _⟩
  | sleepUnlessCancelled length =>
    rw [Action.activity]
    exact ⟨_, .pause length _⟩
  | awaitCancel =>
    rw [Action.activity]
    exact ⟨_, .wait _ _ _⟩
  | hang =>
    rw [Action.activity]
    exact ⟨_, .wait _ _ _⟩
  | probe =>
    rw [Action.activity]
    exact ⟨_, .atOnce fun _ w => .plain (.note w _ rfl) 0 0⟩
  | cancel token =>
    rw [Action.activity]
    exact ⟨_, .atOnce fun _ w => .plain (.cancel w _) 0 0⟩
  | give result =>
    rw [Action.activity]
    exact ⟨_, .atOnce fun _ _ => .refl _⟩
  | panic text =>
    rw [Action.activity]
    exact ⟨_, .atOnce fun _ _ => .refl _⟩
  | call policy script =>
    -- each invocation of the nested call takes actions of its own
    choose rights hbody using fun j =>
      scriptBody_lawful (.nested call k position policy.name) j j script h.2
    obtain ⟨rights', hcall⟩ := Lawful.call h.1 ⟨_, .numbered hbody⟩
    rw [Action.activity]
    exact ⟨_, .visit hcall⟩

theorem actionsBody_lawful (call : CallId) (k position : Nat) (actions : List Action)
    (h : actionsKnown K actions) :
    ∃ rights, (actionsBody call k position actions).Lawful K
      (actionsRights call k position actions) rights := by
  cases actions with
  | nil =>
    rw [actionsBody]
    exact ⟨_, .atOnce fun _ _ => .refl _⟩
  | cons a rest =>
    obtain ⟨rights, ha⟩ := a.lawful call k position h.1
    obtain ⟨rights', hrest⟩ := actionsBody_lawful call k (position + 1) rest h.2
    rw [actionsBody]
    exact ⟨_, .followedBy ha hrest⟩

theorem scriptBody_lawful (call : CallId) (k i : Nat) (script : List (List Action))
    (h : scriptKnown K script) :
    ∃ rights, (scriptBody call k i script).Lawful K
      (actionsRights call k 0 (Script.actions i script)) rights := by
  match i, script, h with
  | _, [], _ =>
    rw [scriptBody, Script.actions]
    exact ⟨_, .atOnce fun _ _ => .refl _⟩
  | _, [actions], h =>
    rw [scriptBody, Script.actions]
    exact actionsBody_lawful call k 0 actions h.1
  | 0, actions :: _ :: _, h =>
    rw [scriptBody, Script.actions]
    exact actionsBody_lawful call k 0 actions h.1
  | i + 1, _ :: next :: rest, h =>
    rw [scriptBody, Script.actions]
    exact scriptBody_lawful call k i (next :: rest) h.2

end

/-- The operation of a known script needs the right to be invoked. -/
theorem Script.lawful (call : CallId) {script : Script} (h : scriptKnown K script) :
    ∃ rights, (script.operation call).Lawful K {.invoke call} rights := by
  choose rights hbody using fun j => scriptBody_lawful call j j script h
  exact ⟨_, .numbered hbody⟩

/-- A call from outside needs the rights of a call through its policy. -/
theorem Call.lawful {c : Call} (hp : c.policy ∈ K) (hs : scriptKnown K c.script) :
    ∃ rights, c.activity.Lawful K (c.policy.rights c.id) rights :=
  Lawful.call hp (Script.lawful c.id hs)

end CallPolicy
