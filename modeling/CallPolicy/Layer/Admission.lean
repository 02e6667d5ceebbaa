/-
The gates of a policy: breaker, rate limit and bulkhead.

Each decides at once whether a call goes on. A call past the breaker holds a
permit until its outcome is known, one past the bulkhead holds a slot until it
ends; the rate limit only takes a token.
-/
import CallPolicy.Activity

namespace CallPolicy.Operation

/-- Asks the breaker for a permit. -/
def acquirePermit (site : Site) (s : BreakerSettings) (w : World) :
    Except Result Permit × World :=
  match (w.gatesOf site).breaker.acquire s w.now with
  | (some p, b) => (.ok p, (w.setBreaker site b).note (.gate site (.permitIssued p)))
  | (none, b) => (.error (.error .circuitOpen), (w.setBreaker site b).emit site .circuitRefused)

/-- An operation behind a circuit breaker, which is told how it ends. -/
def behindBreaker (site : Site) (s : BreakerSettings) (op : Operation) : Operation :=
  op.holding (Holding.permit site s) (acquirePermit site s) fun p r w =>
    w.settlePermit site s p (.ofResult r)

/-- Asks the bulkhead for a slot. -/
def takeSlot (site : Site) (capacity : Nat) (w : World) : Except Result Unit × World :=
  if (w.gatesOf site).occupied < capacity then
    (.ok (),
      (w.modifyGates site.origin.key fun g => { g with occupied := g.occupied + 1 }).emit site
        .slotTaken)
  else (.error (.error .bulkheadFull), w.emit site .bulkheadFull)

/-- An operation behind a bulkhead. -/
def behindBulkhead (site : Site) (capacity : Nat) (op : Operation) : Operation :=
  op.holding (fun _ => .slot site) (takeSlot site capacity) fun _ _ w => w.release (.slot site)

/-- Asks the rate limit for a token. -/
def takeToken (site : Site) (l : RateLimit) (w : World) : Bool × World :=
  let (admitted, bucket) := (w.gatesOf site).bucket.take l w.now
  (admitted, w.modifyGates site.origin.key fun g => { g with bucket })

/-- An operation behind a rate limit. -/
def behindRateLimit (site : Site) (l : RateLimit) (op : Operation) : Operation :=
  { op with
    start := fun t w =>
      match takeToken site l w with
      | (true, w) => op.start t (w.note (.gate site .tokenTaken))
      | (false, w) => (.done (.error .rateLimited), w.emit site .rateLimited) }

/-! ### What asking a gate does -/

section

variable (site : Site) (w : World)

@[simp] theorem acquirePermit_now (s : BreakerSettings) :
    (acquirePermit site s w).2.now = w.now := by
  unfold acquirePermit
  split <;> simp

@[simp] theorem acquirePermit_invoked (s : BreakerSettings) :
    (acquirePermit site s w).2.invoked = w.invoked := by
  unfold acquirePermit
  split <;> simp

@[simp] theorem takeSlot_now (capacity : Nat) : (takeSlot site capacity w).2.now = w.now := by
  unfold takeSlot
  split <;> simp

@[simp] theorem takeSlot_invoked (capacity : Nat) :
    (takeSlot site capacity w).2.invoked = w.invoked := by
  unfold takeSlot
  split <;> simp

theorem takeSlot_of_lt {capacity : Nat} (h : (w.gatesOf site).occupied < capacity) :
    takeSlot site capacity w = (.ok (),
      (w.modifyGates site.origin.key fun g => { g with occupied := g.occupied + 1 }).emit site
        .slotTaken) := if_pos h

theorem takeSlot_of_le {capacity : Nat} (h : capacity ≤ (w.gatesOf site).occupied) :
    takeSlot site capacity w = (.error (.error .bulkheadFull), w.emit site .bulkheadFull) :=
  if_neg (Nat.not_lt.mpr h)

theorem takeSlot_ok {capacity : Nat} {u : Unit} {w' : World}
    (h : takeSlot site capacity w = (.ok u, w')) :
    (w.gatesOf site).occupied < capacity ∧
      w' = (w.modifyGates site.origin.key fun g => { g with occupied := g.occupied + 1 }).emit site
        .slotTaken := by
  rcases Nat.lt_or_ge (w.gatesOf site).occupied capacity with hlt | hle
  · rw [takeSlot_of_lt site w hlt] at h
    cases h
    exact ⟨hlt, rfl⟩
  · rw [takeSlot_of_le site w hle] at h
    cases h

theorem takeSlot_error {capacity : Nat} {r : Result} {w' : World}
    (h : takeSlot site capacity w = (.error r, w')) :
    capacity ≤ (w.gatesOf site).occupied ∧ r = .error .bulkheadFull ∧
      w' = w.emit site .bulkheadFull := by
  rcases Nat.lt_or_ge (w.gatesOf site).occupied capacity with hlt | hle
  · rw [takeSlot_of_lt site w hlt] at h
    cases h
  · rw [takeSlot_of_le site w hle] at h
    cases h
    exact ⟨hle, rfl, rfl⟩

@[simp] theorem takeToken_now (l : RateLimit) : (takeToken site l w).2.now = w.now := rfl

@[simp] theorem takeToken_invoked (l : RateLimit) :
    (takeToken site l w).2.invoked = w.invoked := rfl

/-- Of the gates, only the bucket is touched. -/
theorem takeToken_eq {l : RateLimit} {granted : Bool} {w' : World}
    (h : takeToken site l w = (granted, w')) :
    ∃ bucket, w' = w.modifyGates site.origin.key fun g => { g with bucket } :=
  ⟨_, (congrArg Prod.snd h).symm⟩

@[simp] theorem takeToken_trace (l : RateLimit) : (takeToken site l w).2.trace = w.trace := rfl

end

end CallPolicy.Operation
