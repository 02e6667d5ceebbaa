/-
The retry layer.

An attempt that fails is repeated after a delay, unless the token is cancelled,
the policy's own condition or the failure's tag speak against it, or no attempt
is left. Each attempt may have a deadline of its own.

The layer counts the attempts that are `left` after the present one, so the loop
is a recursion on that number and the present attempt is number
`maxAttempts - left`.
-/
import CallPolicy.Activity
import CallPolicy.Backoff

namespace CallPolicy

open Text

/-- The settings of the retry layer. -/
structure RetrySettings where
  /-- How often the operation may be tried, the first time included. -/
  maxAttempts : UInt32
  backoff : Backoff
  /-- The longest delay between attempts. -/
  maxDelay : Option Duration := none
  /-- The deadline of each attempt. -/
  attemptTimeout : Option Duration := none
  /-- Which failures are worth another attempt. -/
  retryIf : Option (Failure → Bool) := none

/-- A condition on failures that can be written down. -/
inductive Condition
  /-- The failure is of one of these sorts. -/
  | kinds (allowed : List FailureKind)
  /-- The operation's own error, if there is one, has another text. -/
  | unlessError (text : String)
  | always (answer : Bool)
deriving DecidableEq

/-- Does a failure meet the condition? -/
def Condition.holds : Condition → Failure → Bool
  | .kinds allowed, f => allowed.contains f.kind
  | .unlessError text, f => f.operation? ≠ some text
  | .always answer, _ => answer

namespace RetrySettings

/-- The delay after the failed attempt number `n`, which is at least one. -/
def delayAfter (s : RetrySettings) (n : Nat) (draw : Float) : Duration :=
  let d := s.backoff.delay (n - 1) draw
  match s.maxDelay with
  | some longest => d.shorter longest
  | none => d

/-- The outline of the settings. -/
def shape (s : RetrySettings) : Shape :=
  let span := fun d : Duration => Shape.word d.text
  .fields "RetryConfig"
    [("max_attempts", .number s.maxAttempts.toNat), ("backoff", s.backoff.shape),
     ("max_delay", .optional (s.maxDelay.map span)),
     ("per_attempt_timeout", .optional (s.attemptTimeout.map span)),
     ("retry_if", .optional (s.retryIf.map fun _ => .quoted "<predicate>"))]

end RetrySettings

namespace Operation

/-- One attempt, without output when its deadline passed. -/
def attempt (site : Site) (s : RetrySettings) (op : Operation) : Activity Token (Option Result) :=
  match s.attemptTimeout with
  | some length => op.within site.call length
  | none => op.after fun r w => (some r, w)

/-- The state of the retry layer; `left` attempts may follow the present one. -/
inductive RetryState (σ : Type)
  /-- An attempt is under way. -/
  | trying (token : Token) (left : Nat) (inner : σ)
  /-- The next attempt starts at the instant `wakeAt`. -/
  | waiting (token : Token) (left wakeAt : Nat)

/-- The result of attempt number `n`: a passed deadline is a failure. -/
def attemptResult (site : Site) (s : RetrySettings) (n : Nat) (o : Option Result) (w : World) :
    Result × World :=
  match o, s.attemptTimeout with
  | some r, _ => (r, w)
  | none, some length => (.error .timeout, w.emit site (.attemptTimedOut n length))
  | none, none => (.error .timeout, w)

/-- May a failed attempt be repeated, as far as the failure and the token go? -/
def mayRepeat (site : Site) (s : RetrySettings) (token : Token) (f : Failure) (w : World) :
    Bool × World :=
  if w.isCancelled token then (false, w)
  else match s.retryIf with
    | none => (!f.isPermanent, w)
    | some condition =>
      let again := condition f
      (again && !f.isPermanent, w.note (.asked site f again))

/-- The delay after attempt number `n`, with a random draw if the strategy needs
one. -/
def nextDelay (s : RetrySettings) (n : Nat) (w : World) : Duration × World :=
  if s.backoff.isRandom then
    let (draw, w) := w.draw
    (s.delayAfter n draw, w)
  else (s.delayAfter n (0 : UInt32).toFloat, w)

/-- Is the wait after attempt number `n` given up? It is as soon as the token is
cancelled, but if the wait is over as well, chance decides which of the two counts. -/
def givesUp (site : Site) (token : Token) (n wakeAt : Nat) (w : World) : Bool :=
  w.isCancelled token && (w.now < wakeAt || w.chance.ties site.call n)

section

variable {site : Site} {token : Token} {n wakeAt : Nat} {w : World}

theorem not_givesUp (h : w.isCancelled token = false) :
    ¬givesUp site token n wakeAt w = true := by
  simp [givesUp, h]

/-- Before the wait is over, chance has no say. -/
theorem givesUp_of_lt (h : w.now < wakeAt) :
    givesUp site token n wakeAt w = w.isCancelled token := by
  simp [givesUp, h]

end

/-- Goes on after an attempt: the call ends, or the next attempt is awaited and,
when it is due at once, started. -/
def proceed (site : Site) (s : RetrySettings) {a : Activity Token (Option Result)} (token : Token)
    (left : Nat) :
    Status a.State (Option Result) × World → Status (RetryState a.State) Result × World
  | (.pending inner, w) => (.pending (.trying token left inner), w)
  | (.panicked t, w) => (.panicked t, w)
  | (.done o, w) =>
    let n := s.maxAttempts.toNat - left
    match attemptResult site s n o w with
    | (.ok v, w) => (.done (.ok v), w)
    | (.error f, w) =>
      match mayRepeat site s token f w with
      | (false, w) => (.done (.error f), w)
      | (true, w) =>
        match left with
        | 0 => (.done (.error (.exhausted n f)), w)
        | left + 1 =>
          let (delay, w) := nextDelay s n (w.emit site (.retrying n f))
          let wakeAt := w.wakeTime delay
          if givesUp site token n wakeAt w then (.done (.error .cancelled), w)
          else if wakeAt ≤ w.now then proceed site s token left (a.start token w)
          else (.pending (.waiting token left wakeAt), w)

/-- An operation that is repeated when it fails. -/
def withRetry (site : Site) (s : RetrySettings) (op : Operation) : Operation :=
  let a := attempt site s op
  { State := RetryState a.State
    start := fun token w => proceed site s token (s.maxAttempts.toNat - 1) (a.start token w)
    resume := fun
      | .trying token left inner, w => proceed site s token left (a.resume inner w)
      | .waiting token left wakeAt, w =>
        if givesUp site token (s.maxAttempts.toNat - (left + 1)) wakeAt w then
          (.done (.error .cancelled), w)
        else if wakeAt ≤ w.now then proceed site s token left (a.start token w)
        else (.pending (.waiting token left wakeAt), w)
    holdings := fun
      | .trying _ _ inner => a.holdings inner
      | .waiting .. => []
    deadlines := fun
      | .trying _ _ inner => a.deadlines inner
      | .waiting _ _ wakeAt => [wakeAt] }

/-- A wait that is looked at. -/
theorem resume_waiting (site : Site) (s : RetrySettings) (op : Operation) (token : Token)
    (left wakeAt : Nat) (w : World) :
    (withRetry site s op).resume (.waiting token left wakeAt) w =
      if givesUp site token (s.maxAttempts.toNat - (left + 1)) wakeAt w then
        (.done (.error .cancelled), w)
      else if wakeAt ≤ w.now then
        proceed site s token left ((attempt site s op).start token w)
      else (.pending (.waiting token left wakeAt), w) :=
  rfl

end Operation

end CallPolicy
