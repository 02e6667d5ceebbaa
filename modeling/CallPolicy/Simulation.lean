/-
Running calls on a virtual clock.

A `Simulation` is a world with the calls that run in it. Nothing happens by
itself: a `Step` starts a call, cancels a token, drops a call or lets time
pass, and the simulation then *settles*: the running calls are resumed in the
order in which they were started, round by round, until nothing can move. Time
passes from one deadline to the next, and the simulation settles at each.

A round can only make another one worthwhile by cancelling the token of a call
that was resumed before. Each further round is therefore paid for by a running
call under a live token, of which there is then one less (`restless`).
-/
import CallPolicy.Script

namespace CallPolicy

/-- A call from outside. -/
structure Call where
  id : CallId
  policy : Policy
  script : Script
  token : Token

/-- What a call does. -/
def Call.activity (c : Call) : Operation := c.policy.call c.id (c.script.operation c.id)

/-- A call that is suspended. -/
structure Running where
  call : Call
  state : call.activity.State

/-- A world with the policies that were built in it and the calls that run in it. -/
structure Simulation where
  world : World
  /-- The policies, the first one built first; a policy's key is its place. -/
  policies : List Policy
  /-- The suspended calls, the first one started first. -/
  running : List Running
  /-- The names of all calls started so far. -/
  started : List String

/-- A call to be made. -/
structure Request where
  name : String
  policy : Policy
  script : Script
  /-- The name of the root token that governs the call. -/
  token : String

/-- One thing that is done to a simulation from outside. -/
inductive Step
  /-- Starts a call. -/
  | start (r : Request)
  /-- Starts a call and lets time pass until it ends, but not longer than `limit`
  nanoseconds. -/
  | call (r : Request) (limit : Nat)
  /-- Lets a number of nanoseconds pass. -/
  | advance (length : Nat)
  /-- Moves the clock without looking at any deadline on the way. -/
  | jump (length : Nat)
  /-- Cancels the root token with a given name. -/
  | cancel (token : String)
  /-- Drops the running call with a given name. -/
  | drop (name : String)

/-- Records the end of a call with the state of the token of each invocation. -/
def World.settleCall (w : World) (c : Call) (e : Ending) : World :=
  w.note (.settled c.id e ((w.invoked c.id).reverse.map w.isCancelled))

namespace Running

/-- Takes up the status of a call: it goes on, or its end is recorded. -/
def ofStatus (c : Call) : Status c.activity.State Result × World → Option Running × World
  | (.pending s, w) => (some ⟨c, s⟩, w)
  | (.done r, w) => (none, w.settleCall c (.returned r))
  | (.panicked t, w) => (none, w.settleCall c (.panicked t))

/-- Resumes a call. -/
def resume (r : Running) (w : World) : Option Running × World :=
  ofStatus r.call (r.call.activity.resume r.state w)

/-- The instants that a call waits for. -/
def deadlines (r : Running) : List Nat := r.call.activity.deadlines r.state

/-- What a call gives back when it is dropped. -/
def holdings (r : Running) : List Holding := r.call.activity.holdings r.state

end Running

/-- Resumes calls one after the other. -/
def resumeAll : List Running → World → List Running × World
  | [], w => ([], w)
  | r :: rest, w =>
    let (r?, w) := r.resume w
    let (rest, w) := resumeAll rest w
    (r?.toList ++ rest, w)

/-- How many calls run under a token that is not cancelled. -/
def restless (running : List Running) (w : World) : Nat :=
  running.countP fun r => !w.isCancelled r.call.token

/-- Resumes calls in rounds until nothing can move. -/
def settleAll (running : List Running) (w : World) : List Running × World :=
  let next := resumeAll running w
  if restless next.1 next.2 < restless running w then settleAll next.1 next.2 else next
termination_by restless running w

namespace Simulation

/-- A simulation without policies and calls, at the instant zero. Unless chance has
it otherwise, cancellations count in all ties. -/
def start (draws : Nat → Float) (ties : CallId → Nat → Bool := fun _ _ => true) : Simulation :=
  ⟨.start ⟨draws, ties⟩, [], [], []⟩

/-- Builds a policy and, if there is nothing wrong with it, gives it its gates. -/
def build (s : Simulation) (name : String) (description : List Setting) :
    Construction × Simulation :=
  let made := Policy.build s.policies.length name description
  match made.outcome with
  | .ok p => (made, { s with policies := s.policies ++ [p], world := p.install s.world })
  | .error _ => (made, s)

/-- The policy that was built last under a name. -/
def policy? (s : Simulation) (name : String) : Option Policy :=
  s.policies.reverse.find? (·.name = name)

/-- Resumes the running calls until nothing can move. -/
def settle (s : Simulation) : Simulation :=
  let (running, world) := settleAll s.running s.world
  { s with running, world }

/-- Sets the clock. -/
def setClock (s : Simulation) (t : Nat) : Simulation :=
  { s with world := { s.world with now := t } }

/-- The first instant after `t`, and not after `goal`, that a call waits for. -/
def nextDeadline? (s : Simulation) (t goal : Nat) : Option Nat :=
  ((s.running.flatMap Running.deadlines).filter fun d => t < d ∧ d ≤ goal).min?

theorem nextDeadline?_spec {s : Simulation} {t goal d : Nat}
    (h : s.nextDeadline? t goal = some d) : t < d ∧ d ≤ goal := by
  simpa using (List.mem_filter.mp (List.min?_mem h)).2

/-- Lets time pass from `t` to `goal`, or until the state of things has `ended`. -/
def run (ended : Simulation → Bool) (goal t : Nat) (s : Simulation) : Simulation :=
  if ended s then s
  else match _ : s.nextDeadline? t goal with
    | none => s.setClock goal
    | some d => run ended goal d (s.setClock d).settle
termination_by goal - t
decreasing_by
  have := nextDeadline?_spec ‹s.nextDeadline? t goal = some d›
  omega

/-- Lets a number of nanoseconds pass, or less if things have `ended` before. -/
def advance (ended : Simulation → Bool) (length : Nat) (s : Simulation) : Simulation :=
  s.run ended (s.world.now + length) s.world.now

/-- The identity of the next call with a given name. -/
def nextId (s : Simulation) (name : String) : CallId := .top name (s.started.count name)

/-- The call that a request makes. -/
def callOf (s : Simulation) (r : Request) : Call :=
  ⟨s.nextId r.name, r.policy, r.script, .named r.token⟩

/-- Starts a call. -/
def launch (s : Simulation) (r : Request) : Simulation :=
  let c := s.callOf r
  let (new, world) := Running.ofStatus c (c.activity.start c.token s.world)
  { s with world, running := s.running ++ new.toList, started := r.name :: s.started }

/-- Starts a call and settles. -/
def startCall (s : Simulation) (r : Request) : Simulation := (s.launch r).settle

/-- Does a call still run? -/
def isRunning (s : Simulation) (id : CallId) : Bool := s.running.any (·.call.id = id)

/-- Drops the first running call with a given name. -/
def dropCall (s : Simulation) (name : String) : Simulation :=
  match s.running.find? (·.call.id.text = name) with
  | none => s
  | some r =>
    { s with
      world := s.world.releaseAll r.holdings
      running := s.running.eraseP (·.call.id.text = name) }

/-- Does one thing. -/
def step (s : Simulation) : Step → Simulation
  | .start r => s.startCall r
  | .call r limit =>
    let id := s.nextId r.name
    (s.startCall r).advance (fun s => !s.isRunning id) limit
  | .advance length => s.advance (fun _ => false) length
  | .jump length => s.setClock (s.world.now + length)
  | .cancel token => settle { s with world := s.world.cancel (.named token) }
  | .drop name => (s.dropCall name).settle

/-- The names of the running calls. -/
def pending (s : Simulation) : List String := s.running.map (·.call.id.text)

end Simulation

end CallPolicy
