/-
The circuit breaker.

A breaker is *closed*, *open* or *half-open*. Closed, it admits every call and
counts failures in a row; at the threshold it opens. Open, it admits nobody
until the recovery time has passed; then it goes half-open and admits a
bounded number of probes. The first probe to fail opens it again, and it closes
when all of them have succeeded.

Every change of state starts a new *period*. An admitted call carries a
`Permit` that names its period, and an outcome from an earlier period changes
nothing. A call that is given up, or that says nothing about what lies behind
the breaker, counts as `ignored` and hands its probe back.

The operations take the present instant as an argument and say nothing about
who is told of a change of state.

The counters are machine words. Two of the additions stop at the ends of the
word (`saturatingSucc`, `saturatingPred`), the others wrap around, and so does
the number of the period.
-/
import CallPolicy.Duration
import CallPolicy.Failure

namespace CallPolicy

open Text

/-- A counter is read as a number. -/
instance readCounter : Coe UInt32 Nat := ⟨UInt32.toNat⟩

/-- One more, unless the word is full. -/
def saturatingSucc (n : UInt32) : UInt32 := if n + 1 = 0 then n else n + 1

/-- One less, unless there is nothing to take away. -/
def saturatingPred (n : UInt32) : UInt32 := if n = 0 then n else n - 1

theorem toNat_saturatingSucc {n : UInt32} (h : n.toNat + 1 < UInt32.size) :
    (saturatingSucc n).toNat = n.toNat + 1 := by
  have hsum : (n + 1).toNat = n.toNat + 1 := by
    rw [UInt32.toNat_add]
    exact Nat.mod_eq_of_lt h
  have hne : n + 1 ≠ 0 := by
    intro h0
    rw [h0] at hsum
    simp at hsum
  rw [saturatingSucc, if_neg hne, hsum]

theorem toNat_saturatingPred (n : UInt32) : (saturatingPred n).toNat = n.toNat - 1 := by
  rw [saturatingPred]
  split
  · simp_all
  · rename_i h
    have h1 : (1 : UInt32) ≤ n := by
      rw [UInt32.le_iff_toNat_le]
      have : n.toNat ≠ 0 := fun h0 => h (UInt32.toNat_inj.mp h0)
      simp
      omega
    rw [UInt32.toNat_sub_of_le _ _ h1]
    rfl

/-- The state of a breaker. -/
inductive BreakerState
  | closed
  | open
  | halfOpen
deriving DecidableEq

namespace BreakerState

/-- The label of a state. -/
def label : BreakerState → String
  | closed => "closed"
  | .open => "open"
  | halfOpen => "half-open"

/-- Only an open breaker is unhealthy. -/
def isHealthy (s : BreakerState) : Bool := s ≠ .open

end BreakerState

/-- The settings of a breaker. -/
structure BreakerSettings where
  /-- Failures in a row that open it. -/
  failureThreshold : UInt32 := 5
  /-- How long it stays open before it admits probes. -/
  recovery : Duration := .ofMillis 30000
  /-- Probes admitted while half-open, which all have to succeed. -/
  probes : UInt32 := 1
deriving DecidableEq

/-- The outline of a breaker's settings. -/
def BreakerSettings.shape (s : BreakerSettings) : Shape :=
  .fields "CircuitBreakerConfig"
    [("failure_threshold", .number s.failureThreshold.toNat),
     ("recovery_timeout", .word s.recovery.text),
     ("half_open_max_attempts", .number s.probes.toNat)]

/-- What a finished call says about what lies behind the breaker. -/
inductive Outcome
  | success
  | failure
  | ignored
deriving DecidableEq

/-- A refusal by a gate and a cancellation say nothing; any other failure counts. -/
def Outcome.ofResult : Result → Outcome
  | .ok _ => .success
  | .error .cancelled => .ignored
  | .error f => if f.isRejection then .ignored else .failure

/-- The right to pass the breaker once, issued in some period. -/
structure Permit where
  period : UInt64
  /-- Was it issued while half-open? -/
  probe : Bool
deriving DecidableEq

/-- A circuit breaker. -/
structure Breaker where
  state : BreakerState
  /-- Failures in a row while closed. -/
  failures : UInt32
  /-- When it last opened, unless it has closed since. -/
  openedAt : Option Nat
  /-- Probes admitted in this half-open period and not handed back. -/
  admitted : UInt32
  /-- Probes that succeeded in this half-open period. -/
  succeeded : UInt32
  /-- The number of changes of state so far, as far as the word goes. -/
  period : UInt64
deriving DecidableEq

namespace Breaker

/-- A new breaker. -/
def new : Breaker := ⟨.closed, 0, none, 0, 0, 0⟩

/-- A change of state at the instant `now`: a new period without probes. -/
def moveTo (b : Breaker) (state : BreakerState) (now : Nat) : Breaker :=
  { b with
    state
    period := b.period + 1
    admitted := 0
    succeeded := 0
    failures := match state with
      | .closed => 0
      | _ => b.failures
    openedAt := match state with
      | .open => some now
      | .closed => none
      | .halfOpen => b.openedAt }

section

variable (b : Breaker) (state : BreakerState) (now : Nat)

@[simp] theorem moveTo_state : (b.moveTo state now).state = state := rfl
@[simp] theorem moveTo_period : (b.moveTo state now).period = b.period + 1 := rfl
@[simp] theorem moveTo_admitted : (b.moveTo state now).admitted = 0 := rfl
@[simp] theorem moveTo_succeeded : (b.moveTo state now).succeeded = 0 := rfl
@[simp] theorem moveTo_closed_failures : (b.moveTo .closed now).failures = 0 := rfl
@[simp] theorem moveTo_open_failures : (b.moveTo .open now).failures = b.failures := rfl
@[simp] theorem moveTo_halfOpen_failures : (b.moveTo .halfOpen now).failures = b.failures := rfl
@[simp] theorem moveTo_closed_openedAt : (b.moveTo .closed now).openedAt = none := rfl
@[simp] theorem moveTo_open_openedAt : (b.moveTo .open now).openedAt = some now := rfl
@[simp] theorem moveTo_halfOpen_openedAt :
    (b.moveTo .halfOpen now).openedAt = b.openedAt := rfl

end

/-- How long the breaker has been open at the instant `now`. -/
def openFor (b : Breaker) (now : Nat) : Nat :=
  match b.openedAt with
  | some t => now - t
  | none => 0

/-- An open breaker goes half-open once the recovery time has passed. -/
def recover (s : BreakerSettings) (now : Nat) (b : Breaker) : Breaker :=
  if b.state = .open ∧ s.recovery.nanos ≤ b.openFor now then b.moveTo .halfOpen now else b

/-- Admits a call in the present state, or refuses it. -/
def issue (s : BreakerSettings) (b : Breaker) : Option Permit × Breaker :=
  match b.state with
  | .closed => (some ⟨b.period, false⟩, b)
  | .open => (none, b)
  | .halfOpen =>
    if b.admitted < s.probes then
      (some ⟨b.period, true⟩, { b with admitted := b.admitted + 1 })
    else (none, b)

/-- A call arrives at the instant `now`. -/
def acquire (s : BreakerSettings) (now : Nat) (b : Breaker) : Option Permit × Breaker :=
  (b.recover s now).issue s

/-- The outcome of a call admitted with the permit `p` arrives at the instant
`now`. -/
def record (s : BreakerSettings) (now : Nat) (p : Permit) (o : Outcome) (b : Breaker) : Breaker :=
  if p.period ≠ b.period then b
  else match b.state, o with
    | .closed, .success => { b with failures := 0 }
    | .closed, .failure =>
      let b := { b with failures := saturatingSucc b.failures }
      if s.failureThreshold ≤ b.failures then b.moveTo .open now else b
    | .halfOpen, o =>
      if p.probe then
        match o with
        | .success =>
          let b := { b with succeeded := b.succeeded + 1 }
          if s.probes ≤ b.succeeded then b.moveTo .closed now else b
        | .failure => b.moveTo .open now
        | .ignored => { b with admitted := saturatingPred b.admitted }
      else b
    | _, _ => b

end Breaker

end CallPolicy
