/-
Activities: computations that can be suspended.

An `Activity ι ο` is started with an input `ι` and ends with an output `ο`,
unless it panics. Until then it is suspended in a state, from which it is
resumed whenever something may have changed. Starting and resuming transform
the world and return a `Status`. A suspended activity can also be dropped: it
then gives back its `holdings`, in order, and nothing else happens. An activity
that has ended or panicked holds nothing any more.

Resuming is harmless: an activity none of whose conditions has come true is
suspended again as it was. `deadlines` lists the instants at which a condition
will come true by the passage of time.

The building blocks here are the immediate activity (`atOnce`), the wait
(`wait`), a transformation of the output (`after`), a thing held for as long as
another activity runs (`holding`), and a deadline (`within`).
-/
import CallPolicy.World

namespace CallPolicy

/-- Where an activity stands. -/
inductive Status (σ ο : Type)
  /-- It is suspended in a state. -/
  | pending (s : σ)
  /-- It has ended. -/
  | done (o : ο)
  /-- It has panicked and given back what it held. -/
  | panicked (text : String)

/-- A computation that can be suspended. -/
structure Activity (ι ο : Type) : Type 1 where
  State : Type
  start : ι → World → Status State ο × World
  resume : State → World → Status State ο × World
  /-- What a suspended activity gives back when it is dropped, in order. -/
  holdings : State → List Holding
  /-- The instants that a suspended activity waits for. -/
  deadlines : State → List Nat

/-- What a policy is wrapped around: given a token, it works towards a result. -/
abbrev Operation := Activity Token Result

namespace Activity

variable {ι ο ο' σ η : Type}

/-- An activity that is never suspended. -/
def atOnce (f : ι → World → ο × World) : Activity ι ο where
  State := Empty
  start i w :=
    let (o, w) := f i w
    (.done o, w)
  resume s := nomatch s
  holdings s := nomatch s
  deadlines s := nomatch s

/-- An activity that waits until `ready` has an answer. Its state is made when it
starts and never changes. -/
def wait (state : ι → World → σ) (ready : σ → World → Option ο) (deadlines : σ → List Nat) :
    Activity ι ο where
  State := σ
  start i w := look (state i w) w
  resume s w := look s w
  holdings _ := []
  deadlines := deadlines
where
  /-- Ends with the answer, if there is one. -/
  look (s : σ) (w : World) : Status σ ο × World :=
    match ready s w with
    | some o => (.done o, w)
    | none => (.pending s, w)

/-- An activity followed by an immediate step. -/
def after (f : ο → World → ο' × World) (a : Activity ι ο) : Activity ι ο' where
  State := a.State
  start i w := follow (a.start i w)
  resume s w := follow (a.resume s w)
  holdings := a.holdings
  deadlines := a.deadlines
where
  /-- Takes the step at the end. -/
  follow : Status a.State ο × World → Status a.State ο' × World
    | (.pending s, w) => (.pending s, w)
    | (.done o, w) =>
      let (o, w) := f o w
      (.done o, w)
    | (.panicked t, w) => (.panicked t, w)

/-- An activity during which something is held. `take` gets hold of it, or ends
the matter; `give` returns it when the activity has ended. A panic releases it
as a drop does. -/
def holding (held : η → Holding) (take : World → Except ο η × World)
    (give : η → ο → World → World) (a : Activity ι ο) : Activity ι ο where
  State := η × a.State
  start i w :=
    match take w with
    | (.error o, w) => (.done o, w)
    | (.ok x, w) => keep x (a.start i w)
  resume s w := keep s.1 (a.resume s.2 w)
  holdings s := a.holdings s.2 ++ [held s.1]
  deadlines s := a.deadlines s.2
where
  /-- Keeps hold of it while the activity is suspended. -/
  keep (x : η) : Status a.State ο × World → Status (η × a.State) ο × World
    | (.pending s, w) => (.pending (x, s), w)
    | (.done o, w) => (.done o, give x o w)
    | (.panicked t, w) => (.panicked t, w.release (held x))

section

variable {held : η → Holding} {take : World → Except ο η × World} {give : η → ο → World → World}
  {a : Activity ι ο} {i : ι} {w w' : World}

/-- An activity does not start if what it needs cannot be had. -/
theorem holding_start_error {o : ο} (h : take w = (.error o, w')) :
    (a.holding held take give).start i w = (.done o, w') := by
  simp only [holding, h]

/-- An activity starts at once with what it needs. -/
theorem holding_start_ok {x : η} (h : take w = (.ok x, w')) :
    (a.holding held take give).start i w = holding.keep held give a x (a.start i w') := by
  simp only [holding, h]

end

/-- The state of an activity with a deadline. -/
structure Limited (σ : Type) where
  /-- The token that the activity runs under. -/
  token : Token
  deadline : Nat
  inner : σ

/-- An activity that gets a child token and a deadline. When the deadline has
come and the activity is still suspended, it is dropped, its token is cancelled
and there is no output. -/
def within (call : CallId) (length : Duration) (a : Activity Token ο) :
    Activity Token (Option ο) where
  State := Limited a.State
  start t w :=
    let (token, w) := w.mint call t
    check token (w.deadline length) (a.start token w)
  resume s w := check s.token s.deadline (a.resume s.inner w)
  holdings s := a.holdings s.inner
  deadlines s := s.deadline :: a.deadlines s.inner
where
  /-- Looks at the clock if the activity is suspended. -/
  check (token : Token) (deadline : Nat) :
      Status a.State ο × World → Status (Limited a.State) (Option ο) × World
    | (.pending s, w) =>
      if deadline ≤ w.now then (.done none, (w.releaseAll (a.holdings s)).cancel token)
      else (.pending ⟨token, deadline, s⟩, w)
    | (.done o, w) => (.done (some o), w)
    | (.panicked t, w) => (.panicked t, w)

end Activity

end CallPolicy
