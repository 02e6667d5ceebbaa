/-
Scripts whose calls are carried out otherwise.

A script calls policies. A `Carrier` says what such a call is; the scripts of the model
have it that a policy puts its layers around the operation, and others may put something
else there that does the same.

* **`Script.operationBy_eq`** — with the policies themselves as carriers, a script is as before;
* **`Mirror.script`** — if every call that a script makes is mirrored by what the carrier
  makes of it, the script itself is mirrored.
-/
import CallPolicy.Proofs.Mirror
import CallPolicy.Proofs.LawfulScript

namespace CallPolicy

/-- How an operation is called through a policy. -/
abbrev Carrier := Policy → CallId → Operation → Operation

mutual

/-- The activity of one action, with calls left to the carrier. -/
def Action.activityBy (carry : Carrier) (call : CallId) (k position : Nat) :
    Action → Activity Visit Flow
  | .call policy script =>
    let id := CallId.nested call k position policy.name
    .visit (carry policy id
      (.numbered id fun j => .invocation id j (scriptBodyBy carry id j j script)))
  | a => a.activity call k position

/-- The activity of the actions from some position on, with calls left to the carrier. -/
def actionsBodyBy (carry : Carrier) (call : CallId) (k position : Nat) :
    List Action → Activity Visit Ending
  | [] => .atOnce fun v w => (.returned v.result, w)
  | a :: rest =>
    (a.activityBy carry call k position).followedBy (actionsBodyBy carry call k (position + 1) rest)

/-- The activity of the list of actions at place `i` of a script, or of the last one, with
calls left to the carrier. -/
def scriptBodyBy (carry : Carrier) (call : CallId) (k i : Nat) :
    List (List Action) → Activity Visit Ending
  | [] => .atOnce fun v w => (.returned v.result, w)
  | [actions] => actionsBodyBy carry call k 0 actions
  | actions :: next :: rest =>
    match i with
    | 0 => actionsBodyBy carry call k 0 actions
    | i + 1 => scriptBodyBy carry call k i (next :: rest)

end

/-- The operation of a script, for one call, with calls left to the carrier. -/
def Script.operationBy (carry : Carrier) (script : Script) (call : CallId) : Operation :=
  .numbered call fun k => .invocation call k (scriptBodyBy carry call k k script)

/-! ### Policies that are called themselves -/

variable {K : List Policy} {carry : Carrier}

mutual

theorem Action.activityBy_eq (hcarry : ∀ p ∈ K, carry p = p.call) (call : CallId)
    (k position : Nat) {a : Action} (h : a.Known K) :
    a.activityBy carry call k position = a.activity call k position := by
  cases a with
  | call policy script =>
    have hbody := fun j => scriptBodyBy_eq hcarry (.nested call k position policy.name) j j h.2
    rw [Action.activityBy, Action.activity, hcarry policy h.1]
    simp only [hbody]
  | _ => rfl

theorem actionsBodyBy_eq (hcarry : ∀ p ∈ K, carry p = p.call) (call : CallId) (k position : Nat)
    {actions : List Action} (h : actionsKnown K actions) :
    actionsBodyBy carry call k position actions = actionsBody call k position actions := by
  cases actions with
  | nil => rfl
  | cons a rest =>
    rw [actionsBodyBy, actionsBody, Action.activityBy_eq hcarry call k position h.1,
      actionsBodyBy_eq hcarry call k (position + 1) h.2]

theorem scriptBodyBy_eq (hcarry : ∀ p ∈ K, carry p = p.call) (call : CallId) (k i : Nat)
    {script : List (List Action)} (h : scriptKnown K script) :
    scriptBodyBy carry call k i script = scriptBody call k i script := by
  match i, script with
  | _, [] => rfl
  | _, [actions] => exact actionsBodyBy_eq hcarry call k 0 h.1
  | 0, actions :: _ :: _ => exact actionsBodyBy_eq hcarry call k 0 h.1
  | i + 1, _ :: next :: rest => exact scriptBodyBy_eq hcarry call k i h.2

end

/-- If the carrier calls the policies themselves, a script is as before. -/
theorem Script.operationBy_eq (hcarry : ∀ p ∈ K, carry p = p.call) {script : Script}
    (h : scriptKnown K script) (call : CallId) :
    script.operationBy carry call = script.operation call := by
  simp only [Script.operationBy, Script.operation, scriptBodyBy_eq hcarry call _ _ h]

/-! ### Actions one after the other -/

variable {κ κ' ο : Type} {ρ : Link}

theorem Link.Mirrors.lift {σ σ' : Type} {f : κ → κ'} {out : Status κ ο × World}
    {out' : Status κ' ο × World} {i : κ → σ} {i' : κ' → σ'} {g : σ → σ'}
    (h : ρ.Mirrors f out out') (hg : ∀ s, g (i s) = i' (f s)) :
    ρ.Mirrors g (Status.lift i out) (Status.lift i' out') := by
  cases h with
  | @pending s w w' h =>
    have hlifted : ρ.Mirrors g ((.pending (i s) : Status σ ο), w) (.pending (g (i s)), w') :=
      .pending h
    rw [hg] at hlifted
    exact hlifted
  | done h => exact .done h
  | panicked h => exact .panicked h

theorem Link.Mirrors.accept {op op' : Operation} {f : op.State → op'.State}
    {out : Status op.State Result × World} {out' : Status op'.State Result × World}
    (h : ρ.Mirrors f out out') (v : Visit) :
    ρ.Mirrors (Prod.map id f) (Activity.visit.accept op v out)
      (Activity.visit.accept op' v out') := by
  cases h with
  | pending h => exact .pending h
  | done h => exact .done h
  | panicked h => exact .panicked h

theorem Link.Mirrors.go {a a' : Activity Visit Flow} {b b' : Activity Visit Ending}
    {f : a.State → a'.State} {out : Status a.State Flow × World}
    {out' : Status a'.State Flow × World} (h : ρ.Mirrors f out out') (m : Activity.Mirror ρ b b') :
    ρ.Mirrors (Sum.map f m.state) (Activity.followedBy.go a b out)
      (Activity.followedBy.go a' b' out') := by
  cases h with
  | pending h => exact .pending h
  | @done flow w w' h =>
    cases flow with
    | next v => exact (m.start v h).lift fun _ => rfl
    | stop e => exact .done h
  | panicked h => exact .panicked h

theorem Link.Mirrors.conclude {body body' : Activity Visit Ending}
    {f : body.State → body'.State} {out : Status body.State Ending × World}
    {out' : Status body'.State Ending × World} (h : ρ.Mirrors f out out') (call : CallId) (k : Nat)
    (token : Token) :
    ρ.Mirrors (Prod.map id f) (Activity.invocation.conclude call k body token out)
      (Activity.invocation.conclude call k body' token out') := by
  cases h with
  | pending h => exact .pending h
  | @done e w w' h =>
    cases e with
    | returned r => exact .done (h.note (.finished call k (.returned r)) trivial)
    | panicked t => exact .panicked (h.note (.finished call k (.panicked t)) trivial)
  | panicked h => exact .panicked (h.release (x := .invocation call k token) trivial)

namespace Activity.Mirror

/-- A pause. -/
def pause (length : Duration) (cancelled : Option Flow) :
    Mirror ρ (Activity.pause length cancelled) (Activity.pause length cancelled) :=
  wait (fun v _ _ h => by rw [h.wakeTime]) fun s _ _ h => by
    cases cancelled <;> simp only [h.isCancelled, h.now]

/-- A call in the course of an invocation. -/
def visit {op op' : Operation} (m : Mirror ρ op op') :
    Mirror ρ (Activity.visit op) (Activity.visit op') where
  state := Prod.map id m.state
  start v _ _ h := (m.start v.token h).accept v
  resume s _ _ h := (m.resume s.2 h).accept s.1
  holdings s := m.holdings s.2
  handles s := m.handles s.2
  deadlines s := m.deadlines s.2

/-- One action and the rest of them. -/
def followedBy {a a' : Activity Visit Flow} {b b' : Activity Visit Ending} (m : Mirror ρ a a')
    (n : Mirror ρ b b') : Mirror ρ (a.followedBy b) (a'.followedBy b') where
  state := Sum.map m.state n.state
  start v _ _ h := (m.start v h).go n
  resume s w w' h := by
    cases s with
    | inl s => exact (m.resume s h).go n
    | inr s => exact (n.resume s h).lift fun _ => rfl
  holdings
    | .inl s => m.holdings s
    | .inr s => n.holdings s
  handles
    | .inl s => m.handles s
    | .inr s => n.handles s
  deadlines
    | .inl s => m.deadlines s
    | .inr s => n.deadlines s

/-- An invocation. -/
def invocation {body body' : Activity Visit Ending} (m : Mirror ρ body body') (call : CallId)
    (k : Nat) :
    Mirror ρ (Activity.invocation call k body) (Activity.invocation call k body') where
  state := Prod.map id m.state
  start token _ _ h := (m.start _ (h.invoke call k token)).conclude call k token
  resume s _ _ h := (m.resume s.2 h).conclude call k s.1
  holdings s := by
    show body'.holdings (m.state s.2) ++ [Holding.invocation call k s.1] =
      (body.holdings s.2 ++ [Holding.invocation call k s.1]).map ρ.holding
    rw [m.holdings, List.map_append]
    rfl
  handles s x hx := by
    rcases List.mem_append.mp hx with hx | hx
    · exact m.handles s.2 x hx
    · rw [List.mem_singleton.mp hx]
      trivial
  deadlines s := m.deadlines s.2

/-- Invocations, numbered. -/
def numbered {f f' : Nat → Operation} (m : ∀ k, Mirror ρ (f k) (f' k)) (call : CallId) :
    Mirror ρ (Activity.numbered call f) (Activity.numbered call f') where
  state s := ⟨s.1, (m s.1).state s.2⟩
  start token w w' h := by
    dsimp only [Activity.numbered]
    rw [h.invoked]
    exact ((m _).start token h).lift fun _ => rfl
  resume s _ _ h := ((m s.1).resume s.2 h).lift fun _ => rfl
  holdings s := (m s.1).holdings s.2
  handles s := (m s.1).handles s.2
  deadlines s := (m s.1).deadlines s.2

end Activity.Mirror

/-! ### Scripts -/

/-- A carrier makes something of every call that an operation makes through some policies
that mirrors it. -/
abbrev Link.CarriedBy (ρ : Link) (K : List Policy) (carry : Carrier) :=
  ∀ p ∈ K, ∀ (call : CallId) (k position : Nat) {op op' : Operation},
    let id := CallId.nested call k position p.name
    Activity.Mirror ρ op op' → Activity.Mirror ρ (p.call id op) (carry p id op')

open Activity

mutual

/-- One action. -/
def Action.mirror (hcarry : ρ.CarriedBy K carry) (call : CallId) (k position : Nat) :
    (a : Action) → a.Known K →
      Mirror ρ (a.activity call k position) (a.activityBy carry call k position)
  | .sleep length, _ => .pause length none
  | .sleepUnlessCancelled length, _ => .pause length (some (.stop (.returned (.error .cancelled))))
  | .awaitCancel, _ => .wait (fun _ _ _ _ => rfl) fun v _ _ h => by rw [h.isCancelled]
  | .hang, _ => .wait (fun _ _ _ _ => rfl) fun _ _ _ _ => rfl
  | .probe, _ =>
    have hprobe : ∀ (v : Visit) {w w' : World}, ρ.Carries w w' →
        ρ.Matches (Flow.next v, w.note (.probed call k (w.isCancelled v.token)))
          (Flow.next v, w'.note (.probed call k (w'.isCancelled v.token))) := by
      intro v w w' h
      rw [h.isCancelled]
      exact ⟨_, _, _, rfl, rfl, h.note (.probed call k (w.isCancelled v.token)) trivial⟩
    .atOnce hprobe
  | .cancel token, _ =>
    have hcancel : ∀ (v : Visit) {w w' : World}, ρ.Carries w w' →
        ρ.Matches (Flow.next v, w.cancel (.named token)) (Flow.next v, w'.cancel (.named token)) :=
      fun _ _ _ h => ⟨_, _, _, rfl, rfl, h.cancel (.named token)⟩
    .atOnce hcancel
  | .give result, _ =>
    have hgive : ∀ (v : Visit) {w w' : World}, ρ.Carries w w' →
        ρ.Matches (Flow.next { v with result }, w) (Flow.next { v with result }, w') :=
      fun _ _ _ h => ⟨_, _, _, rfl, rfl, h⟩
    .atOnce hgive
  | .panic _, _ => .atOnce fun _ _ _ h => ⟨_, _, _, rfl, rfl, h⟩
  | .call policy script, hknown =>
    let id := CallId.nested call k position policy.name
    .visit (hcarry policy hknown.1 call k position
      (.numbered (fun j => (scriptMirror hcarry id j j script hknown.2).invocation id j) id))

/-- The actions of an invocation. -/
def actionsMirror (hcarry : ρ.CarriedBy K carry) (call : CallId) (k position : Nat) :
    (actions : List Action) → actionsKnown K actions →
      Mirror ρ (actionsBody call k position actions) (actionsBodyBy carry call k position actions)
  | [], _ => .atOnce fun _ _ _ h => ⟨_, _, _, rfl, rfl, h⟩
  | a :: rest, hknown =>
    (a.mirror hcarry call k position hknown.1).followedBy
      (actionsMirror hcarry call k (position + 1) rest hknown.2)

/-- A script. -/
def scriptMirror (hcarry : ρ.CarriedBy K carry) (call : CallId) (k i : Nat) :
    (script : List (List Action)) → scriptKnown K script →
      Mirror ρ (scriptBody call k i script) (scriptBodyBy carry call k i script)
  | [], _ => .atOnce fun _ _ _ h => ⟨_, _, _, rfl, rfl, h⟩
  | [actions], hknown => actionsMirror hcarry call k 0 actions hknown.1
  | actions :: next :: rest, hknown =>
    match i with
    | 0 => actionsMirror hcarry call k 0 actions hknown.1
    | i + 1 => scriptMirror hcarry call k i (next :: rest) hknown.2

end

/-- The operation of a script is mirrored if the calls that it makes are. -/
def Activity.Mirror.script (hcarry : ρ.CarriedBy K carry) (call : CallId) {script : Script}
    (hknown : scriptKnown K script) :
    Mirror ρ (script.operation call) (script.operationBy carry call) :=
  .numbered (fun k => (scriptMirror hcarry call k k script hknown).invocation call k) call

end CallPolicy
