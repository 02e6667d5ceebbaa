/-
Scripted operations.

A script says what an operation does: one list of actions per invocation, the
last list serving for all further ones. The actions of an invocation run in
order and keep a result, at first the empty text, which each of them may
replace; some wait, some look at or cancel tokens, and some call another policy
with a script of its own.

`Script.operation` is the operation of a script. It numbers its invocations,
records how each of them begins and ends, and lets go of an unfinished one with
a record as well.
-/
import CallPolicy.Policy.Basic

namespace CallPolicy

/-- One action of an invocation. -/
inductive Action
  /-- Waits for a while. -/
  | sleep (length : Duration)
  /-- Waits for a while, and ends the invocation if its token is cancelled. -/
  | sleepUnlessCancelled (length : Duration)
  /-- Waits until the token is cancelled. -/
  | awaitCancel
  /-- Waits forever. -/
  | hang
  /-- Records whether the token is cancelled. -/
  | probe
  /-- Cancels the root token with a given name. -/
  | cancel (token : String)
  /-- Replaces the result. -/
  | give (result : Result)
  | panic (text : String)
  /-- Calls a policy under the same token; what comes back replaces the result. -/
  | call (policy : Policy) (script : List (List Action))

/-- What an operation does, invocation by invocation. -/
abbrev Script := List (List Action)

/-- An invocation under way: its token and the result so far. -/
structure Visit where
  token : Token
  result : Result
deriving DecidableEq

/-- What follows an action. -/
inductive Flow
  /-- The next action. -/
  | next (v : Visit)
  /-- The invocation ends. -/
  | stop (e : Ending)

/-- The same status with another state. -/
def Status.lift {σ τ ο : Type} (f : σ → τ) : Status σ ο × World → Status τ ο × World
  | (.pending s, w) => (.pending (f s), w)
  | (.done o, w) => (.done o, w)
  | (.panicked t, w) => (.panicked t, w)

@[simp] theorem Status.lift_snd {σ τ ο : Type} (f : σ → τ) (out : Status σ ο × World) :
    (Status.lift f out).2 = out.2 := by
  rcases out with ⟨_ | _ | _, w⟩ <;> rfl

/-- Waits for a while; `cancelled` says what comes of a cancelled token. -/
def Activity.pause (length : Duration) (cancelled : Option Flow) : Activity Visit Flow :=
  .wait (fun v w => (v, w.wakeTime length))
    (fun s w =>
      match cancelled with
      | some flow =>
        if w.isCancelled s.1.token then some flow
        else if s.2 ≤ w.now then some (.next s.1) else none
      | none => if s.2 ≤ w.now then some (.next s.1) else none)
    (fun s => [s.2])

/-- Calls another operation in the course of an invocation. -/
def Activity.visit (op : Operation) : Activity Visit Flow where
  State := Visit × op.State
  start v w := accept v (op.start v.token w)
  resume s w := accept s.1 (op.resume s.2 w)
  holdings s := op.holdings s.2
  deadlines s := op.deadlines s.2
where
  /-- Takes over the result. -/
  accept (v : Visit) : Status op.State Result × World → Status (Visit × op.State) Flow × World
    | (.pending s, w) => (.pending (v, s), w)
    | (.done r, w) => (.done (.next { v with result := r }), w)
    | (.panicked t, w) => (.panicked t, w)

/-- One action and, unless it ends the invocation, the rest of them. -/
def Activity.followedBy (a : Activity Visit Flow) (b : Activity Visit Ending) :
    Activity Visit Ending where
  State := a.State ⊕ b.State
  start v w := go (a.start v w)
  resume
    | .inl s, w => go (a.resume s w)
    | .inr s, w => Status.lift .inr (b.resume s w)
  holdings
    | .inl s => a.holdings s
    | .inr s => b.holdings s
  deadlines
    | .inl s => a.deadlines s
    | .inr s => b.deadlines s
where
  /-- Goes on to the rest. -/
  go : Status a.State Flow × World → Status (a.State ⊕ b.State) Ending × World
    | (.pending s, w) => (.pending (.inl s), w)
    | (.done (.next v), w) => Status.lift .inr (b.start v w)
    | (.done (.stop e), w) => (.done e, w)
    | (.panicked t, w) => (.panicked t, w)

/-- Records the beginning of an invocation. -/
def World.invoke (w : World) (call : CallId) (k : Nat) (token : Token) : World :=
  { w with invoked := assign w.invoked call (token :: w.invoked call) }.note
    (.invoked call k (w.isCancelled token))

@[simp] theorem World.invoke_invoked (w : World) (call : CallId) (k : Nat) (token : Token) :
    (w.invoke call k token).invoked = assign w.invoked call (token :: w.invoked call) := rfl

@[simp] theorem World.invoke_trace (w : World) (call : CallId) (k : Nat) (token : Token) :
    (w.invoke call k token).trace =
      ⟨w.now, .invoked call k (w.isCancelled token)⟩ :: w.trace := rfl

/-- The `k`-th invocation of a call's operation, from its first record to its
last. A panic of its own is an ending like any other; in a panic from a call
that it makes, it is abandoned. -/
def Activity.invocation (call : CallId) (k : Nat) (body : Activity Visit Ending) : Operation where
  State := Token × body.State
  start token w := conclude token (body.start ⟨token, .ok ""⟩ (w.invoke call k token))
  resume s w := conclude s.1 (body.resume s.2 w)
  holdings s := body.holdings s.2 ++ [.invocation call k s.1]
  deadlines s := body.deadlines s.2
where
  /-- Records the end. -/
  conclude (token : Token) :
      Status body.State Ending × World → Status (Token × body.State) Result × World
    | (.pending s, w) => (.pending (token, s), w)
    | (.done (.returned r), w) => (.done r, w.note (.finished call k (.returned r)))
    | (.done (.panicked t), w) => (.panicked t, w.note (.finished call k (.panicked t)))
    | (.panicked t, w) => (.panicked t, w.release (.invocation call k token))

/-- An operation that knows the number of its invocation. -/
def Activity.numbered (call : CallId) (f : Nat → Operation) : Operation where
  State := (k : Nat) × (f k).State
  start token w :=
    let k := (w.invoked call).length
    Status.lift (Sigma.mk k) ((f k).start token w)
  resume s w := Status.lift (Sigma.mk s.1) ((f s.1).resume s.2 w)
  holdings s := (f s.1).holdings s.2
  deadlines s := (f s.1).deadlines s.2

mutual

/-- The activity of one action, at some position of the `k`-th invocation. -/
def Action.activity (call : CallId) (k position : Nat) : Action → Activity Visit Flow
  | .sleep length => .pause length none
  | .sleepUnlessCancelled length =>
    .pause length (some (.stop (.returned (.error .cancelled))))
  | .awaitCancel =>
    .wait (fun v _ => v) (fun v w => if w.isCancelled v.token then some (.next v) else none)
      (fun _ => [])
  | .hang => .wait (fun v _ => v) (fun _ _ => none) (fun _ => [])
  | .probe => .atOnce fun v w => (.next v, w.note (.probed call k (w.isCancelled v.token)))
  | .cancel token => .atOnce fun v w => (.next v, w.cancel (.named token))
  | .give result => .atOnce fun v w => (.next { v with result }, w)
  | .panic text => .atOnce fun _ w => (.stop (.panicked text), w)
  | .call policy script =>
    let id := CallId.nested call k position policy.name
    .visit (policy.call id (.numbered id fun j => .invocation id j (scriptBody id j j script)))

/-- The activity of the actions from some position on. -/
def actionsBody (call : CallId) (k position : Nat) : List Action → Activity Visit Ending
  | [] => .atOnce fun v w => (.returned v.result, w)
  | a :: rest => (a.activity call k position).followedBy (actionsBody call k (position + 1) rest)

/-- The activity of the list of actions at place `i` of a script, or of the last
one. -/
def scriptBody (call : CallId) (k i : Nat) : List (List Action) → Activity Visit Ending
  | [] => .atOnce fun v w => (.returned v.result, w)
  | [actions] => actionsBody call k 0 actions
  | actions :: next :: rest =>
    match i with
    | 0 => actionsBody call k 0 actions
    | i + 1 => scriptBody call k i (next :: rest)

end

/-- The operation of a script, for one call. -/
def Script.operation (script : Script) (call : CallId) : Operation :=
  .numbered call fun k => .invocation call k (scriptBody call k k script)

end CallPolicy
