/-
Scripts that call stateless policies.

A policy is stateless if all its layers are. The operation of a script can tell no more of
the world than the call that it belongs to, if the policies that it calls are stateless in
turn; and whoever looks at it while the token of that call is cancelled leaves it spent.

* **`Action.secluded`** — so does each action, …
* **`scriptBody_secluded`** — … each invocation, …
* **`Policy.secluded`** — … and a call through a stateless policy.
-/
import CallPolicy.Proofs.Spent
import Mathlib.Tactic.Choose

namespace CallPolicy

open Activity

variable {ι ο : Type} {id call : CallId} {t : Token} {w w' : World} {k position : Nat}
  {policy : String}

/-- None of the layers keeps any state between calls. -/
def Policy.Stateless (p : Policy) : Prop := ∀ l ∈ p.layers, l.Stateless

mutual

/-- The action calls stateless policies alone. -/
def Action.Stateless : Action → Prop
  | .call policy script => policy.Stateless ∧ scriptStateless script
  | _ => True

/-- The actions call stateless policies alone. -/
def actionsStateless : List Action → Prop
  | [] => True
  | a :: rest => a.Stateless ∧ actionsStateless rest

/-- The actions of the script call stateless policies alone. -/
def scriptStateless : List (List Action) → Prop
  | [] => True
  | actions :: rest => actionsStateless actions ∧ scriptStateless rest

end

/-! ### Building blocks -/

/-- An invocation has a token of the call. -/
def Visit.Belongs (id : CallId) (t : Token) (call : CallId) (v : Visit) : Prop :=
  Serves id t call v.token

/-- What follows an action goes on with a token of the call. -/
def Flow.Belongs (id : CallId) (t : Token) (call : CallId) : Flow → Prop
  | .next v => v.Belongs id t call
  | .stop _ => True

/-- An activity can tell no more of the world than the call that it is part of, and is spent
after a look at it under a cancelled token. -/
structure Activity.Secluded (a : Activity ι ο) (id : CallId) (t : Token) (own : ι → Prop)
    (ends : ο → Prop) (fits : a.State → Prop) : Prop where
  insular : a.Insular id t own ends fits
  resigns : a.Resigns t own fits

namespace Activity.Secluded

/-- A pause that a cancelled token may cut short. -/
theorem pause (length : Duration) {cancelled : Option Flow}
    (hcancelled : ∀ flow ∈ cancelled, flow.Belongs id t call) :
    (Activity.pause length cancelled).Secluded id t (Visit.Belongs id t call)
      (Flow.Belongs id t call) (fun s => s.1.Belongs id t call) := by
  refine ⟨.wait (fun {v w w'} hv hw => ⟨hv, ?_⟩) (fun {s w w'} hs hw => ?_)
    fun {s w flow} hs hsome => ?_, .wait (fun hv => hv) fun {s w w'} hs hc hc' hearly hnone => ?_⟩
  · show (v, w'.wakeTime length) = (v, w.wakeTime length)
    rw [hw.wakeTime]
  · rw [hw.isCancelled hs, hw.now]
  · rcases pause_cases _ s w hsome with ⟨hnone, -⟩ | ⟨hnext, -⟩ | ⟨flow', hmem, hflow, -⟩
    · cases hnone
    · cases hnext
      exact hs
    · cases hflow
      exact hcancelled _ hmem
  · -- a pause that the token cuts short has ended at the first look
    cases cancelled with
    | none =>
      have hlate : ¬s.2 ≤ w'.now := Nat.not_le.mpr (hearly s.2 List.mem_cons_self)
      exact if_neg hlate
    | some flow =>
      have hown : w.isCancelled s.1.token = true := World.isCancelled_of_governs hc hs.governs
      simp only [hown, if_true] at hnone
      cases hnone

/-- A wait without deadlines that ends, if at all, when the token is cancelled. -/
theorem waitForCancel {ready : Visit → World → Option Flow}
    (hready : ∀ {v w w'}, w'.isCancelled v.token = w.isCancelled v.token → ready v w' = ready v w)
    (hends : ∀ {v w flow}, ready v w = some flow → flow = .next v) :
    (Activity.wait (fun v _ => v) ready fun _ => []).Secluded id t (Visit.Belongs id t call)
      (Flow.Belongs id t call) (Visit.Belongs id t call) := by
  refine ⟨.wait (fun hv _ => ⟨hv, rfl⟩) (fun hs hw => hready (hw.isCancelled hs))
    fun {v w flow} hs hsome => ?_, .wait (fun hv => hv) fun {v w w'} hs hc hc' _ hnone => ?_⟩
  · rw [hends hsome]
    exact hs
  · have hown : w.isCancelled v.token = true := World.isCancelled_of_governs hc hs.governs
    have hown' : w'.isCancelled v.token = true := World.isCancelled_of_governs hc' hs.governs
    rw [hready (hown'.trans hown.symm), hnone]

theorem atOnce {own : ι → Prop} {ends : ο → Prop} {f : ι → World → ο × World}
    (hf : ∀ {i w w'}, own i → w.SameFor id t w' →
      World.Agree id t (f i w) (f i w') ∧ ends (f i w).1)
    (hcancelled : ∀ {i w}, w.isCancelled t = true → (f i w).2.isCancelled t = true) :
    (Activity.atOnce f).Secluded id t own ends (fun _ => True) := ⟨.atOnce hf, .atOnce hcancelled⟩

/-- A call that an invocation makes has the token of the invocation. -/
theorem visit {op : Operation} {fits : op.State → Prop}
    (h : op.Secluded id t (Serves id t (.nested call k position policy)) (fun _ => True) fits) :
    (Activity.visit op).Secluded id t (Visit.Belongs id t call) (Flow.Belongs id t call)
      (fun s => s.1.Belongs id t call ∧ fits s.2) := by
  have hown : ∀ {v : Visit}, v.Belongs id t call →
      Serves id t (.nested call k position policy) v.token := fun hv =>
    .nested k position policy hv (.refl _ _)
  have haccept : ∀ {v : Visit} {out out'}, v.Belongs id t call →
      Abreast id t fits (fun _ => True) out out' →
      Abreast id t (fun s => s.1.Belongs id t call ∧ fits s.2) (Flow.Belongs id t call)
        (visit.accept op v out) (visit.accept op v out') := by
    intro v out out' hv hout
    cases hout with
    | pending hs hw => exact .pending ⟨hv, hs⟩ hw
    | done _ hw => exact .done hv hw
    | panicked hw => exact .panicked hw
  have hresigns : ∀ (v : Visit) {out}, ResignsIn t (op.Spent t) out →
      ResignsIn t ((Activity.visit op).Spent t) (visit.accept op v out) := by
    rintro v ⟨s | r | x, w⟩ ⟨hc, hs⟩
    · refine ⟨hc, fun w' hc' hearly => ?_⟩
      show visit.accept op v (op.resume s w') = _
      rw [hs w' hc' hearly]
      rfl
    · exact ⟨hc, trivial⟩
    · exact ⟨hc, trivial⟩
  refine ⟨⟨fun hv hw => haccept hv (h.insular.start (hown hv) hw),
    fun hs hw => haccept hs.1 (h.insular.resume hs.2 hw), fun hs hw => h.insular.release hs.2 hw⟩,
    fun {v w} hv hc => hresigns v (h.resigns.start (hown hv) hc),
    fun {s w} hs hc => hresigns s.1 (h.resigns.resume hs.2 hc)⟩

/-- One action, and the rest of them. -/
theorem followedBy {a : Activity Visit Flow} {b : Activity Visit Ending} {fits : a.State → Prop}
    {fits' : b.State → Prop}
    (ha : a.Secluded id t (Visit.Belongs id t call) (Flow.Belongs id t call) fits)
    (hb : b.Secluded id t (Visit.Belongs id t call) (fun _ => True) fits') :
    (a.followedBy b).Secluded id t (Visit.Belongs id t call) (fun _ => True)
      (Sum.elim fits fits') := by
  -- the second activity goes on in both worlds at once
  have hlift : ∀ {out out' : Status b.State Ending × World},
      Abreast id t fits' (fun _ => True) out out' →
      Abreast id t (Sum.elim fits fits') (fun _ => True) (Status.lift .inr out)
        (Status.lift .inr out') := by
    intro out out' hout
    cases hout with
    | pending hs hw => exact .pending hs hw
    | done _ hw => exact .done trivial hw
    | panicked hw => exact .panicked hw
  -- and is begun in both, or in neither
  have hgo : ∀ {out out' : Status a.State Flow × World},
      Abreast id t fits (Flow.Belongs id t call) out out' →
      Abreast id t (Sum.elim fits fits') (fun _ => True) (followedBy.go a b out)
        (followedBy.go a b out') := by
    intro out out' hout
    cases hout with
    | pending hs hw => exact .pending hs hw
    | panicked hw => exact .panicked hw
    | @done flow w w' hflow hw =>
      cases flow with
      | next v => exact hlift (hb.insular.start hflow hw)
      | stop e => exact .done trivial hw
  -- under a cancelled token both activities resign, the second one directly
  have hlift' : ∀ {out : Status b.State Ending × World}, ResignsIn t (b.Spent t) out →
      ResignsIn t ((a.followedBy b).Spent t) (Status.lift .inr out) := by
    rintro ⟨s | e | x, w⟩ ⟨hc, hs⟩
    · refine ⟨hc, fun w' hc' hearly => ?_⟩
      show Status.lift _ (b.resume s w') = _
      rw [hs w' hc' hearly]
      rfl
    · exact ⟨hc, trivial⟩
    · exact ⟨hc, trivial⟩
  -- and the first one as it ends, since the second one then starts under the same token
  have hgo' : ∀ {out : Status a.State Flow × World}, ResignsIn t (a.Spent t) out →
      Lands (fun s _ => fits s) (Flow.Belongs id t call) out →
      ResignsIn t ((a.followedBy b).Spent t) (followedBy.go a b out) := by
    rintro ⟨s | (v | e) | x, w⟩ ⟨hc, hs⟩ hlands
    · refine ⟨hc, fun w' hc' hearly => ?_⟩
      show followedBy.go a b (a.resume s w') = _
      rw [hs w' hc' hearly]
      rfl
    · exact hlift' (hb.resigns.start hlands hc)
    · exact ⟨hc, trivial⟩
    · exact ⟨hc, trivial⟩
  refine ⟨⟨fun hv hw => hgo (ha.insular.start hv hw), ?_, ?_⟩, ⟨fun {v w} hv hc => ?_, ?_⟩⟩
  · rintro (s | s) w w' hs hw
    · exact hgo (ha.insular.resume hs hw)
    · exact hlift (hb.insular.resume hs hw)
  · rintro (s | s) w w' hs hw
    · exact ha.insular.release hs hw
    · exact hb.insular.release hs hw
  · exact hgo' (ha.resigns.start hv hc) (ha.insular.start hv (.refl w)).lands
  · rintro (s | s) w hs hc
    · exact hgo' (ha.resigns.resume hs hc) (ha.insular.resume hs (.refl w)).lands
    · exact hlift' (hb.resigns.resume hs hc)

/-- One invocation after the other. They are numbered in the same way wherever as many of
them have begun. -/
theorem numbered {body : Nat → Activity Visit Ending} {fits : (k : Nat) → (body k).State → Prop}
    (hcall : call.outermost = id)
    (h : ∀ k, (body k).Secluded id t (Visit.Belongs id t call) (fun _ => True) (fits k)) :
    (Activity.numbered call fun k => .invocation call k (body k)).Secluded id t (Serves id t call)
      (fun _ => True) (fun s => Serves id t call s.2.1 ∧ fits s.1 s.2.2) := by
  -- an invocation that ends is recorded in both worlds alike
  have hconclude : ∀ {k : Nat} {u : Token} {out out' : Status (body k).State Ending × World},
      Serves id t call u → Abreast id t (fits k) (fun _ => True) out out' →
      Abreast id t (fun s => Serves id t call s.2.1 ∧ fits s.1 s.2.2) (fun _ => True)
        (Status.lift (Sigma.mk (β := fun k => (invocation call k (body k)).State) k)
          (invocation.conclude call k (body k) u out))
        (Status.lift (Sigma.mk (β := fun k => (invocation call k (body k)).State) k)
          (invocation.conclude call k (body k) u out')) := by
    intro k u out out' hu hout
    cases hout with
    | pending hs hw => exact .pending ⟨hu, hs⟩ hw
    | panicked hw => exact .panicked (hw.abandon k hu)
    | @done e w w' _ hw =>
      cases e with
      | returned r => exact .done trivial (hw.note _)
      | panicked x => exact .panicked (hw.note _)
  have hconclude' : ∀ (k : Nat) (u : Token) {out : Status (body k).State Ending × World},
      ResignsIn t ((body k).Spent t) out →
      ResignsIn t ((Activity.numbered call fun k => .invocation call k (body k)).Spent t)
        (Status.lift (Sigma.mk (β := fun k => (invocation call k (body k)).State) k)
          (invocation.conclude call k (body k) u out)) := by
    rintro k u ⟨s | (r | x) | x, w⟩ ⟨hc, hs⟩
    · refine ⟨hc, fun w' hc' hearly => ?_⟩
      show Status.lift _ (invocation.conclude call k (body k) u ((body k).resume s w')) = _
      rw [hs w' hc' hearly]
      rfl
    · exact ⟨hc, trivial⟩
    · exact ⟨hc, trivial⟩
    · exact ⟨hc, trivial⟩
  refine ⟨⟨fun {u w w'} hu hw => ?_, fun {s w w'} hs hw => ?_, fun {s w w'} hs hw => ?_⟩,
    ⟨fun {u w} hu hc => ?_, fun {s w} hs hc => ?_⟩⟩
  -- both worlds have seen as many invocations of the call
  · have hcount : (w'.invoked call).length = (w.invoked call).length :=
      congrArg List.length (hw.invoked hcall)
    unfold Activity.numbered
    dsimp only
    rw [hcount]
    exact hconclude hu ((h _).insular.start hu (hw.invoke _ hu))
  · exact hconclude hs.1 ((h s.1).insular.resume hs.2 hw)
  · have hbody := (h s.1).insular.release hs.2 hw
    show (w.releaseAll ((body s.1).holdings s.2.2 ++ [.invocation call s.1 s.2.1])).SameFor id t
      (w'.releaseAll ((body s.1).holdings s.2.2 ++ [.invocation call s.1 s.2.1]))
    rw [World.releaseAll_append, World.releaseAll_append]
    exact hbody.abandon s.1 hs.1
  · exact hconclude' _ u ((h _).resigns.start hu hc)
  · exact hconclude' s.1 s.2.1 ((h s.1).resigns.resume hs.2 hc)

/-- Layers without state around an operation. -/
theorem stack (site : Site) {op : Operation} {fits : op.State → Prop}
    (hcall : site.call.outermost = id)
    (h : op.Secluded id t (Serves id t site.call) (fun _ => True) fits) {layers : List Layer}
    (hlayers : ∀ l ∈ layers, l.Stateless) :
    (stack site layers op).Secluded id t (Serves id t site.call) (fun _ => True)
      (stackFits site (Serves id t site.call) op fits layers) :=
  ⟨h.insular.stack hcall hlayers, h.resigns.stack hcall h.insular hlayers⟩

end Activity.Secluded

/-! ### Scripts -/

mutual

theorem Action.secluded (call : CallId) (hcall : call.outermost = id) (k position : Nat)
    (a : Action) (h : a.Stateless) :
    ∃ fits, (a.activity call k position).Secluded id t (Visit.Belongs id t call)
      (Flow.Belongs id t call) fits := by
  cases a with
  | sleep length =>
    rw [Action.activity]
    exact ⟨_, .pause length nofun⟩
  | sleepUnlessCancelled length =>
    rw [Action.activity]
    refine ⟨_, .pause length fun flow hflow => ?_⟩
    cases hflow
    trivial
  | awaitCancel =>
    rw [Action.activity]
    refine ⟨_, .waitForCancel (fun heq => by rw [heq]) fun {v w flow} hsome => ?_⟩
    split at hsome <;> cases hsome
    rfl
  | hang =>
    rw [Action.activity]
    exact ⟨_, .waitForCancel (fun _ => rfl) nofun⟩
  | probe =>
    rw [Action.activity]
    refine ⟨_, .atOnce (fun {v w w'} hv hw => ⟨⟨_, _, _, rfl, ?_, hw.note _⟩, hv⟩) fun hc => hc⟩
    rw [hw.isCancelled hv]
  -- in both worlds the same token is cancelled
  | cancel token =>
    rw [Action.activity]
    exact ⟨_, .atOnce (fun hv hw => ⟨⟨_, _, _, rfl, rfl, hw.cancel _⟩, hv⟩)
      fun hc => World.isCancelled_cancel hc _⟩
  | give result =>
    rw [Action.activity]
    exact ⟨_, .atOnce (fun hv hw => ⟨⟨_, _, _, rfl, rfl, hw⟩, hv⟩) fun hc => hc⟩
  | panic text =>
    rw [Action.activity]
    exact ⟨_, .atOnce (fun _ hw => ⟨⟨_, _, _, rfl, rfl, hw⟩, trivial⟩) fun hc => hc⟩
  -- a call that the action makes belongs to the same outermost call
  | call policy script =>
    have hnested : (CallId.nested call k position policy.name).outermost = id := hcall
    choose fits hbody using fun j =>
      scriptBody_secluded (.nested call k position policy.name) hnested j j script h.2
    rw [Action.activity]
    exact ⟨_, .visit (.stack ⟨policy.origin, _⟩ hnested (.numbered hnested hbody) h.1)⟩

theorem actionsBody_secluded (call : CallId) (hcall : call.outermost = id) (k position : Nat)
    (actions : List Action) (h : actionsStateless actions) :
    ∃ fits, (actionsBody call k position actions).Secluded id t (Visit.Belongs id t call)
      (fun _ => True) fits := by
  cases actions with
  | nil =>
    rw [actionsBody]
    exact ⟨_, .atOnce (fun _ hw => ⟨⟨_, _, _, rfl, rfl, hw⟩, trivial⟩) fun hc => hc⟩
  | cons a rest =>
    obtain ⟨fits, ha⟩ := a.secluded call hcall k position h.1
    obtain ⟨fits', hrest⟩ := actionsBody_secluded call hcall k (position + 1) rest h.2
    rw [actionsBody]
    exact ⟨_, .followedBy ha hrest⟩

theorem scriptBody_secluded (call : CallId) (hcall : call.outermost = id) (k i : Nat)
    (script : List (List Action)) (h : scriptStateless script) :
    ∃ fits, (scriptBody call k i script).Secluded id t (Visit.Belongs id t call)
      (fun _ => True) fits := by
  match i, script, h with
  | _, [], _ =>
    rw [scriptBody]
    exact ⟨_, .atOnce (fun _ hw => ⟨⟨_, _, _, rfl, rfl, hw⟩, trivial⟩) fun hc => hc⟩
  | _, [actions], h =>
    rw [scriptBody]
    exact actionsBody_secluded call hcall k 0 actions h.1
  | 0, actions :: _ :: _, h =>
    rw [scriptBody]
    exact actionsBody_secluded call hcall k 0 actions h.1
  | i + 1, _ :: next :: rest, h =>
    rw [scriptBody]
    exact scriptBody_secluded call hcall k i (next :: rest) h.2

end

/-- **A call through a stateless policy** whose operation makes such calls alone, can tell no
more of the world than what is there for it. -/
theorem Policy.secluded {p : Policy} (hp : p.Stateless) (hid : id.outermost = id)
    {script : Script} (hscript : scriptStateless script) (t : Token) :
    ∃ fits, (p.call id (script.operation id)).Secluded id t (Serves id t id) (fun _ => True)
      fits := by
  choose fits hbody using fun k => scriptBody_secluded (t := t) id hid k k script hscript
  exact ⟨_, .stack ⟨p.origin, id⟩ hid (.numbered hid hbody) hp⟩

end CallPolicy
