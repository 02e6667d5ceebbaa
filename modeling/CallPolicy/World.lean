/-
The world in which calls run.

A `World` is everything that running calls share: the clock, the cancelled
tokens, the gates of every policy, what is left to chance, and the trace of
what has happened so far. Time is a number of nanoseconds since the start, and
only whoever runs the calls moves the clock.

`Chance` decides whatever is decided at random: the draws, and the ties in
which a wait is over at the same look at which its token is found cancelled.
Nothing is said of how it decides, so what holds of all worlds holds of every
course that chance may take.

What a suspended call has to give back when it is dropped is a `Holding`:
an unfinished invocation, a slot of a bulkhead, a permit of a breaker.
`World.release` gives one back.
-/
import CallPolicy.Event
import CallPolicy.Token
import CallPolicy.Gate.Breaker
import CallPolicy.Gate.Bucket

namespace CallPolicy

/-- A function changed at one place. -/
def assign {κ ν : Type} [DecidableEq κ] (f : κ → ν) (k : κ) (v : ν) : κ → ν :=
  fun x => if x = k then v else f x

section

variable {κ ν : Type} [DecidableEq κ]

@[simp] theorem assign_self (f : κ → ν) (k : κ) (v : ν) : assign f k v k = v := by simp [assign]

theorem assign_of_ne {f : κ → ν} {k x : κ} {v : ν} (h : x ≠ k) : assign f k v x = f x := by
  simp [assign, h]

end

/-- The policy that something belongs to. -/
structure Origin where
  /-- Tells policies apart, also those of the same name. -/
  key : Nat
  name : String
  hooks : Hooks
deriving DecidableEq

/-- Where an event happens: in a policy, and on behalf of one of its calls. -/
structure Site where
  origin : Origin
  call : CallId
deriving DecidableEq

/-- How a call or an invocation ends. -/
inductive Ending
  | returned (result : Result)
  | panicked (text : String)
deriving DecidableEq

/-- What happens at the gates of a policy without an event of its own. -/
inductive GateStep
  /-- The rate limit gave away a token. -/
  | tokenTaken
  /-- The breaker issued a permit. -/
  | permitIssued (p : Permit)
  /-- A permit came back with an outcome. -/
  | permitSettled (p : Permit) (o : Outcome)
deriving DecidableEq

/-- What the trace records. Invocations of a call's operation are numbered from
zero, and `cancelled` is the state of the invocation's token. -/
inductive Record
  | event (site : Site) (e : Event)
  | gate (site : Site) (step : GateStep)
  /-- A policy was asked whether a failure is worth another attempt. -/
  | asked (site : Site) (f : Failure) (again : Bool)
  | invoked (call : CallId) (k : Nat) (cancelled : Bool)
  | probed (call : CallId) (k : Nat) (cancelled : Bool)
  | finished (call : CallId) (k : Nat) (ending : Ending)
  /-- An invocation was dropped before it finished. -/
  | abandoned (call : CallId) (k : Nat) (cancelled : Bool)
  /-- A call ended; `cancelled` has the state of the token of each invocation. -/
  | settled (call : CallId) (ending : Ending) (cancelled : List Bool)
deriving DecidableEq

/-- A record with its instant. -/
structure Entry where
  time : Nat
  record : Record
deriving DecidableEq

/-- What the calls through one policy share. -/
structure Gates where
  breaker : Breaker
  bucket : Bucket
  /-- Slots of the bulkhead that are taken. -/
  occupied : Nat

/-- What is left to chance. -/
structure Chance where
  /-- The random draws from `[0, 1)`. -/
  draws : Nat → Float
  /-- The ties. The wait after the failed attempt number `n` of a call may be over
  at the same look at which its token is found cancelled: does the cancellation
  count? There is one such look at most. -/
  ties : CallId → Nat → Bool

/-- Chance that decides everything alike: the least draw, and in a tie the
cancellation counts. -/
def Chance.plain : Chance := ⟨fun _ => 0, fun _ _ => true⟩

/-- Everything that running calls share. -/
structure World where
  /-- The present instant, in nanoseconds. -/
  now : Nat
  /-- The tokens that were cancelled themselves. -/
  cancelled : List Token
  /-- How many child tokens were made for each call. -/
  minted : CallId → Nat
  /-- The tokens of each call's invocations, the last one first. -/
  invoked : CallId → List Token
  /-- The gates of each policy, by its key. -/
  gates : Nat → Gates
  chance : Chance
  /-- How many random draws were used. -/
  drawn : Nat
  /-- What has happened, the last first. -/
  trace : List Entry

namespace World

/-- The world before anything happens. -/
def start (chance : Chance) : World where
  now := 0
  cancelled := []
  minted _ := 0
  invoked _ := []
  gates _ := ⟨.new, ⟨(0 : UInt32).toFloat, 0⟩, 0⟩
  chance
  drawn := 0
  trace := []

/-- Adds a record to the trace. -/
def note (w : World) (r : Record) : World := { w with trace := ⟨w.now, r⟩ :: w.trace }

/-- Cancels a token. -/
def cancel (w : World) (t : Token) : World := { w with cancelled := t :: w.cancelled }

/-- Is the token cancelled, by itself or from above? -/
def isCancelled (w : World) (t : Token) : Bool := w.cancelled.any (·.governs t)

/-- Makes a child of a token on behalf of a call. -/
def mint (w : World) (call : CallId) (t : Token) : Token × World :=
  (t.child call (w.minted call), { w with minted := assign w.minted call (w.minted call + 1) })

/-- Tells of an event: it is recorded, and a hook that listens may cancel a token. -/
def emit (w : World) (site : Site) (e : Event) : World :=
  let w := w.note (.event site e)
  match e.hook?.bind site.origin.hooks.cancelled? with
  | some name => w.cancel (.named name)
  | none => w

/-- The next random draw. -/
def draw (w : World) : Float × World := (w.chance.draws w.drawn, { w with drawn := w.drawn + 1 })

/-- Changes the gates of the policy with a given key. -/
def modifyGates (w : World) (key : Nat) (f : Gates → Gates) : World :=
  { w with gates := assign w.gates key (f (w.gates key)) }

/-- The gates of a site's policy. -/
def gatesOf (w : World) (site : Site) : Gates := w.gates site.origin.key

/-- Puts a site's breaker into a new condition and tells of its change of state. -/
def setBreaker (w : World) (site : Site) (b : Breaker) : World :=
  let old := (w.gatesOf site).breaker
  let w := w.modifyGates site.origin.key fun g => { g with breaker := b }
  if b.state = old.state then w else w.emit site b.state.news

/-- Reports the outcome of an admitted call to its breaker. -/
def settlePermit (w : World) (site : Site) (s : BreakerSettings) (p : Permit) (o : Outcome) :
    World :=
  (w.note (.gate site (.permitSettled p o))).setBreaker site
    ((w.gatesOf site).breaker.record s w.now p o)

end World

/-- What a suspended activity has to give back when it is dropped. -/
inductive Holding
  /-- An unfinished invocation of a call's operation. -/
  | invocation (call : CallId) (k : Nat) (token : Token)
  /-- A slot of a bulkhead. -/
  | slot (site : Site)
  /-- A permit of a breaker. -/
  | permit (site : Site) (settings : BreakerSettings) (permit : Permit)
deriving DecidableEq

namespace World

/-- Gives one thing back. -/
def release (w : World) : Holding → World
  | .invocation call k token => w.note (.abandoned call k (w.isCancelled token))
  | .slot site =>
    (w.modifyGates site.origin.key fun g => { g with occupied := g.occupied - 1 }).emit site
      .slotReleased
  | .permit site s p => w.settlePermit site s p .ignored

/-- Gives several things back, one after the other. -/
def releaseAll (w : World) (hs : List Holding) : World := hs.foldl release w

/-- The instant at which a deadline of a given length that is set now has come.
Timers are looked at every whole millisecond, so it is rounded up. A deadline of
no length has come at once at a whole millisecond, and at the next one otherwise.
However late a deadline is, it is kept: instants have no end here. -/
def deadline (w : World) (d : Duration) : Nat := (w.now + d.nanos + 999999) / 1000000 * 1000000

/-- The longest wait: thirty years of 365 days. -/
def longestWait : Duration := .ofParts 946080000 0

/-- The instant at which a wait of a given length that starts now is over. A wait
is not kept like a deadline: the sleeper is woken after `longestWait`, the far
future of its timer, however much longer it was to sleep. -/
def wakeTime (w : World) (d : Duration) : Nat := w.deadline (d.shorter longestWait)

/-! ### What each operation changes -/

section

variable (w : World) (site : Site) (e : Event)

@[simp] theorem note_now (r : Record) : (w.note r).now = w.now := rfl
@[simp] theorem note_gates (r : Record) : (w.note r).gates = w.gates := rfl
@[simp] theorem note_invoked (r : Record) : (w.note r).invoked = w.invoked := rfl
@[simp] theorem note_trace (r : Record) : (w.note r).trace = ⟨w.now, r⟩ :: w.trace := rfl

@[simp] theorem cancel_now (t : Token) : (w.cancel t).now = w.now := rfl
@[simp] theorem cancel_gates (t : Token) : (w.cancel t).gates = w.gates := rfl
@[simp] theorem cancel_invoked (t : Token) : (w.cancel t).invoked = w.invoked := rfl
@[simp] theorem cancel_trace (t : Token) : (w.cancel t).trace = w.trace := rfl

@[simp] theorem mint_now (call : CallId) (t : Token) : (w.mint call t).2.now = w.now := rfl
@[simp] theorem mint_gates (call : CallId) (t : Token) : (w.mint call t).2.gates = w.gates := rfl
@[simp] theorem mint_invoked (call : CallId) (t : Token) :
    (w.mint call t).2.invoked = w.invoked := rfl
@[simp] theorem mint_trace (call : CallId) (t : Token) : (w.mint call t).2.trace = w.trace := rfl

@[simp] theorem draw_now : w.draw.2.now = w.now := rfl
@[simp] theorem draw_gates : w.draw.2.gates = w.gates := rfl
@[simp] theorem draw_invoked : w.draw.2.invoked = w.invoked := rfl
@[simp] theorem draw_trace : w.draw.2.trace = w.trace := rfl

/-- An event is recorded, and perhaps a token is cancelled. -/
theorem emit_eq : w.emit site e = w.note (.event site e) ∨
    ∃ name, w.emit site e = (w.note (.event site e)).cancel (.named name) := by
  unfold emit
  dsimp only
  split
  · exact .inr ⟨_, rfl⟩
  · exact .inl rfl

@[simp] theorem emit_now : (w.emit site e).now = w.now := by
  rcases w.emit_eq site e with h | ⟨_, h⟩ <;> rw [h] <;> rfl

@[simp] theorem emit_gates : (w.emit site e).gates = w.gates := by
  rcases w.emit_eq site e with h | ⟨_, h⟩ <;> rw [h] <;> rfl

@[simp] theorem emit_invoked : (w.emit site e).invoked = w.invoked := by
  rcases w.emit_eq site e with h | ⟨_, h⟩ <;> rw [h] <;> rfl

@[simp] theorem emit_trace : (w.emit site e).trace = ⟨w.now, .event site e⟩ :: w.trace := by
  rcases w.emit_eq site e with h | ⟨_, h⟩ <;> rw [h] <;> rfl

variable (key : Nat) (f : Gates → Gates)

@[simp] theorem modifyGates_now : (w.modifyGates key f).now = w.now := rfl
@[simp] theorem modifyGates_invoked : (w.modifyGates key f).invoked = w.invoked := rfl
@[simp] theorem modifyGates_trace : (w.modifyGates key f).trace = w.trace := rfl
@[simp] theorem modifyGates_gates :
    (w.modifyGates key f).gates = assign w.gates key (f (w.gates key)) := rfl

variable (b : Breaker)

@[simp] theorem setBreaker_now : (w.setBreaker site b).now = w.now := by
  unfold setBreaker
  dsimp only
  split <;> simp

@[simp] theorem setBreaker_invoked : (w.setBreaker site b).invoked = w.invoked := by
  unfold setBreaker
  dsimp only
  split <;> simp

@[simp] theorem setBreaker_gates : (w.setBreaker site b).gates =
    assign w.gates site.origin.key { w.gatesOf site with breaker := b } := by
  unfold setBreaker
  dsimp only
  split <;> simp [gatesOf]

@[simp] theorem setBreaker_trace : (w.setBreaker site b).trace =
    if b.state = (w.gatesOf site).breaker.state then w.trace
    else ⟨w.now, .event site b.state.news⟩ :: w.trace := by
  unfold setBreaker
  dsimp only
  split <;> simp

variable (s : BreakerSettings) (p : Permit) (o : Outcome) (h : Holding)

@[simp] theorem settlePermit_now : (w.settlePermit site s p o).now = w.now := by
  rw [settlePermit, setBreaker_now, note_now]

@[simp] theorem settlePermit_invoked : (w.settlePermit site s p o).invoked = w.invoked := by
  rw [settlePermit, setBreaker_invoked, note_invoked]

@[simp] theorem release_now : (w.release h).now = w.now := by
  cases h <;> simp [release]

@[simp] theorem release_invoked : (w.release h).invoked = w.invoked := by
  cases h <;> simp [release]

/-- A breaker that is put into the condition it is in changes nothing. -/
theorem setBreaker_self : w.setBreaker site (w.gatesOf site).breaker = w := by
  unfold setBreaker
  dsimp only
  rw [if_pos rfl]
  have h : assign w.gates site.origin.key (w.gates site.origin.key) = w.gates := by
    funext k
    by_cases hk : k = site.origin.key
    · rw [hk, assign_self]
    · rw [assign_of_ne hk]
  exact congrArg (fun gates => { w with gates }) h

end

end World

end CallPolicy
