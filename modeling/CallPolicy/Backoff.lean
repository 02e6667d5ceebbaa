/-
How long to wait between attempts.

A strategy maps the index of a failed attempt, counted from zero, to a delay:
the same each time, growing by a step, doubling, or drawn at random below the
doubled value. Delays saturate at the longest span.

Doubling multiplies by a 32-bit factor `2^index`. From index 32 on that factor
does not exist and the delay is the longest span, whatever the base.
-/
import CallPolicy.Duration
import CallPolicy.Misconfiguration

namespace CallPolicy

open Text

/-- A strategy for the delay between attempts. -/
inductive Backoff
  /-- The same delay each time. -/
  | constant (base : Duration)
  /-- One step more each time. -/
  | linear (step : Duration)
  /-- Twice as long each time. -/
  | exponential (base : Duration)
  /-- A random delay below the exponential one. -/
  | jitter (base : Duration)
deriving DecidableEq

namespace Backoff

/-- The base doubled `times` times, by a factor that has to fit 32 bits. -/
def doubled (base : Duration) (times : Nat) : Duration :=
  if times < 32 then base.scale (1 <<< times) else .max

/-- The delay that a draw from `[0, 1)` picks below a cap: the product, to the
nearest nanosecond, but at least one nanosecond under the cap. -/
def drawBelow (cap : Duration) (draw : Float) : Duration :=
  match Duration.ofSeconds? (cap.seconds * draw) with
  | some d => d.shorter cap.pred
  | none => cap.pred

/-- The delay after the failed attempt with the given index. The count of steps
stays below `2^32`; the draw matters to `jitter` only. -/
def delay (b : Backoff) (index : Nat) (draw : Float) : Duration :=
  match b with
  | constant base => base
  | linear step => step.scale (min (index + 1) (UInt32.size - 1))
  | exponential base => doubled base index
  | jitter base => drawBelow (doubled base index) draw

/-- Does the strategy draw at random? -/
def isRandom : Backoff → Bool
  | jitter _ => true
  | _ => false

/-- The bound of a random strategy, which its delays stay under. -/
def cap? (b : Backoff) (index : Nat) : Option Duration :=
  match b with
  | jitter base => some (doubled base index)
  | _ => none

/-- Do all these draws pick delays under the bound, or an empty delay under an
empty bound? -/
def staysUnder (b : Backoff) (index : Nat) (cap : Duration) (draws : List Float) : Bool :=
  draws.all fun draw =>
    (b.delay index draw).nanos < cap.nanos || cap.nanos = 0 && (b.delay index draw).nanos = 0

/-- The strategy with a given name. Blanks around the name and the case of ASCII
letters do not matter. -/
def ofName? (name : String) (base : Duration) : Except Misconfiguration Backoff :=
  match (trimBlank name).toLower with
  | "constant" => .ok (constant base)
  | "linear" => .ok (linear base)
  | "exponential" => .ok (exponential base)
  | "exponential_jitter" | "exponential-jitter" | "jitter" => .ok (jitter base)
  | _ => .error (.unknownBackoff name)

/-- The span a strategy is built on. -/
def base : Backoff → Duration
  | constant d | linear d | exponential d | jitter d => d

/-- The name that `ofName?` reads back. -/
def name : Backoff → String
  | constant _ => "constant"
  | linear _ => "linear"
  | exponential _ => "exponential"
  | jitter _ => "exponential_jitter"

/-- The outline of a strategy. -/
def shape (b : Backoff) : Shape :=
  let head := match b with
    | constant _ => "Constant"
    | linear _ => "Linear"
    | exponential _ => "Exponential"
    | jitter _ => "ExponentialJitter"
  .applied head [.word b.base.text]

end Backoff

end CallPolicy
