/-
What a breaker is to do, and what its counters have to do with it.

`BreakerSpec` is a breaker as its users see it: a state and the outcomes that
have counted since that state was entered. It has no counters and no periods.
A closed breaker opens when the outcomes end in enough failures
(`failureRun`), a half-open one opens at a failure and closes when enough
probes have succeeded, and an open one goes half-open when a call arrives late
enough.

`Breaker.Tallies s b a out` says that the counters of the breaker `b` are those
that belong to the specification `a` while `out` of the permits issued in the
present period are out. Each operation keeps the two together:

* **`Tallies.recover`**, **`Tallies.issue`** — a call arrives;
* **`Tallies.record`** — an outcome counts;
* **`Tallies.handBack`** — a permit of the present period comes back `ignored`.

An outcome from another period changes nothing (`record_of_period_ne`).
-/
import CallPolicy.Layer

namespace CallPolicy

/-- How many failures a list of outcomes starts with, the last outcome first. -/
def failureRun (outcomes : List Outcome) : Nat :=
  (outcomes.takeWhile fun o => o = .failure).length

@[simp] theorem failureRun_nil : failureRun [] = 0 := rfl

@[simp] theorem failureRun_success (os : List Outcome) : failureRun (.success :: os) = 0 := rfl

@[simp] theorem failureRun_failure (os : List Outcome) :
    failureRun (.failure :: os) = failureRun os + 1 := rfl

/-- What a breaker is to be: its state, and the outcomes that have counted since
the state was entered, the last first. -/
structure BreakerSpec where
  state : BreakerState
  counted : List Outcome
deriving DecidableEq

namespace BreakerSpec

/-- An outcome counts. -/
def hear (s : BreakerSettings) (a : BreakerSpec) : Outcome → BreakerSpec
  | .success =>
    match a.state with
    | .closed => ⟨.closed, .success :: a.counted⟩
    | .open => a
    | .halfOpen =>
      if a.counted.length + 1 = s.probes then ⟨.closed, []⟩
      else ⟨.halfOpen, .success :: a.counted⟩
  | .failure =>
    match a.state with
    | .closed =>
      if failureRun a.counted + 1 = s.failureThreshold then ⟨.open, []⟩
      else ⟨.closed, .failure :: a.counted⟩
    | .open => a
    | .halfOpen => ⟨.open, []⟩
  | .ignored => a

/-- A call arrives after the breaker has been open for a number of nanoseconds. -/
def wake (s : BreakerSettings) (openFor : Nat) (a : BreakerSpec) : BreakerSpec :=
  if a.state = .open ∧ s.recovery.nanos ≤ openFor then ⟨.halfOpen, []⟩ else a

end BreakerSpec

/-- Settings that are accepted trip at a positive number of failures. -/
theorem BreakerSettings.threshold_pos {s : BreakerSettings}
    (h : (Layer.breaker s).fault? = none) : 0 < s.failureThreshold.toNat := by
  rw [Nat.pos_iff_ne_zero]
  intro h0
  rw [Layer.fault?, if_pos (UInt32.toNat_inj.mp h0)] at h
  cases h

/-- Settings that are accepted grant a positive number of probes. -/
theorem BreakerSettings.probes_pos {s : BreakerSettings}
    (h : (Layer.breaker s).fault? = none) : 0 < s.probes.toNat := by
  rw [Nat.pos_iff_ne_zero]
  intro h0
  rw [Layer.fault?] at h
  split at h
  · cases h
  · rw [if_pos (UInt32.toNat_inj.mp h0)] at h
    cases h

namespace Breaker

/-- The counters of a breaker belong to a specification, while `out` permits of
the present period are out. -/
structure Tallies (s : BreakerSettings) (b : Breaker) (a : BreakerSpec) (out : Nat) : Prop where
  state : b.state = a.state
  failures : a.state = .closed → (b.failures : Nat) = failureRun a.counted
  below : a.state = .closed → failureRun a.counted < s.failureThreshold
  tripped : a.state ≠ .closed → b.failures = s.failureThreshold
  idle : a.state ≠ .halfOpen → b.admitted = 0 ∧ b.succeeded = 0
  shut : a.state = .open → out = 0
  admitted : a.state = .halfOpen → (b.admitted : Nat) = b.succeeded + out
  limit : a.state = .halfOpen → (b.admitted : Nat) ≤ s.probes
  succeeded : a.state = .halfOpen → (b.succeeded : Nat) = a.counted.length
  unfinished : a.state = .halfOpen → a.counted.length < s.probes
  flawless : a.state = .halfOpen → ∀ o ∈ a.counted, o = .success

/-- A breaker stands where a specification does: in the same state, with as many
failures as its outcomes end in, or as it takes to open, and with as many probes
that succeeded as have counted. -/
structure Follows (s : BreakerSettings) (b : Breaker) (a : BreakerSpec) : Prop where
  state : b.state = a.state
  failures : a.state = .closed →
    (b.failures : Nat) = failureRun a.counted ∧ b.failures < s.failureThreshold
  tripped : a.state ≠ .closed → b.failures = s.failureThreshold
  succeeded : a.state = .halfOpen → (b.succeeded : Nat) = a.counted.length ∧
    b.succeeded < s.probes ∧ ∀ o ∈ a.counted, o = .success

variable {s : BreakerSettings} {b : Breaker} {a : BreakerSpec} {out now : Nat}

theorem Tallies.follows (h : b.Tallies s a out) : b.Follows s a := by
  refine ⟨h.state, fun ha => ⟨h.failures ha, ?_⟩, h.tripped,
    fun ha => ⟨h.succeeded ha, ?_, h.flawless ha⟩⟩
  · rw [UInt32.lt_iff_toNat_lt, h.failures ha]
    exact h.below ha
  · rw [UInt32.lt_iff_toNat_lt, h.succeeded ha]
    exact h.unfinished ha

theorem tallies_new (hs : 0 < s.failureThreshold.toNat) : new.Tallies s ⟨.closed, []⟩ 0 where
  state := rfl
  failures _ := rfl
  below _ := hs
  tripped h := absurd rfl h
  idle _ := ⟨rfl, rfl⟩
  shut h := nomatch h
  admitted h := nomatch h
  limit h := nomatch h
  succeeded h := nomatch h
  unfinished h := nomatch h
  flawless h := nomatch h

/-! ### A call arrives -/

/-- An open breaker that has waited long enough starts a period of probes. -/
theorem recover_of_open (hb : b.state = .open) (ht : s.recovery.nanos ≤ b.openFor now) :
    b.recover s now = b.moveTo .halfOpen now := if_pos ⟨hb, ht⟩

theorem recover_of_waiting (ht : b.openFor now < s.recovery.nanos) : b.recover s now = b :=
  if_neg fun h => absurd h.2 (Nat.not_le.mpr ht)

theorem recover_of_ne_open (hb : b.state ≠ .open) : b.recover s now = b := if_neg fun h => hb h.1

/-- Recovering either changes nothing or goes from open to half-open. -/
theorem recover_cases (s : BreakerSettings) (now : Nat) (b : Breaker) :
    b.recover s now = b ∨
    b.state = .open ∧ s.recovery.nanos ≤ b.openFor now ∧
      b.recover s now = b.moveTo .halfOpen now := by
  by_cases hb : b.state = .open ∧ s.recovery.nanos ≤ b.openFor now
  · exact .inr ⟨hb.1, hb.2, recover_of_open hb.1 hb.2⟩
  · exact .inl (if_neg hb)

theorem Tallies.recover (hs : 0 < s.probes.toNat) (h : b.Tallies s a out) (now : Nat) :
    (b.recover s now).Tallies s (a.wake s (b.openFor now))
      (if (b.recover s now).state = b.state then out else 0) := by
  rcases recover_cases s now b with hr | ⟨hb, ht, hr⟩
  · have ha : a.wake s (b.openFor now) = a := by
      rw [BreakerSpec.wake, if_neg]
      rintro ⟨h1, h2⟩
      have hst : (b.recover s now).state = .halfOpen := by
        rw [recover_of_open (h.state.trans h1) h2]
        rfl
      rw [hr, h.state, h1] at hst
      cases hst
    rw [hr, ha, if_pos rfl]
    exact h
  · have ha : a.wake s (b.openFor now) = ⟨.halfOpen, []⟩ := if_pos ⟨h.state ▸ hb, ht⟩
    have hne : (BreakerState.halfOpen = b.state) ↔ False := by simp [hb]
    have hf : b.failures = s.failureThreshold := h.tripped (by rw [← h.state, hb]; nofun)
    rw [hr, ha]
    refine ⟨rfl, nofun, nofun, fun _ => hf, fun h => absurd rfl h, nofun, fun _ => ?_, fun _ => ?_,
      fun _ => rfl, fun _ => hs, nofun⟩
    · simp [hne]
    · simp

/-- What becomes of a call in the present state. -/
theorem issue_cases (s : BreakerSettings) (b : Breaker) :
    b.state = .closed ∧ b.issue s = (some ⟨b.period, false⟩, b) ∨
    b.state = .open ∧ b.issue s = (none, b) ∨
    b.state = .halfOpen ∧ b.admitted < s.probes ∧
      b.issue s = (some ⟨b.period, true⟩, { b with admitted := b.admitted + 1 }) ∨
    b.state = .halfOpen ∧ s.probes ≤ b.admitted ∧ b.issue s = (none, b) := by
  unfold issue
  split
  next hb => exact .inl ⟨hb, rfl⟩
  next hb => exact .inr (.inl ⟨hb, rfl⟩)
  next hb =>
    split
    next h => exact .inr (.inr (.inl ⟨hb, h, rfl⟩))
    next h => exact .inr (.inr (.inr ⟨hb, UInt32.not_lt.mp h, rfl⟩))

theorem issue_state (s : BreakerSettings) (b : Breaker) : (b.issue s).2.state = b.state := by
  rcases issue_cases s b with ⟨-, hk⟩ | ⟨-, hk⟩ | ⟨-, -, hk⟩ | ⟨-, -, hk⟩ <;> rw [hk]

/-- A counter below another one can be raised. -/
theorem toNat_succ_of_lt {n m : UInt32} (h : n.toNat < m.toNat) :
    (n + 1).toNat = n.toNat + 1 := by
  rw [UInt32.toNat_add]
  exact Nat.mod_eq_of_lt (Nat.lt_of_le_of_lt h m.toNat_lt)

/-- A permit is one of the present period, for a probe iff the breaker is
half-open, and nothing but the number of probes changes. -/
theorem Tallies.issue {p : Permit} {b' : Breaker} (h : b.Tallies s a out)
    (hi : b.issue s = (some p, b')) :
    b'.Tallies s a (out + 1) ∧ a.state ≠ .open ∧ p = ⟨b.period, a.state = .halfOpen⟩ ∧
      b' = { b with admitted := b'.admitted } := by
  rcases issue_cases s b with ⟨hb, hk⟩ | ⟨hb, hk⟩ | ⟨hb, hlt, hk⟩ | ⟨hb, hle, hk⟩ <;>
    rw [hk] at hi <;> cases hi
  · have ha : a.state = .closed := h.state ▸ hb
    refine ⟨{ h with shut := ?_, admitted := ?_ }, ?_, ?_, rfl⟩ <;> simp [ha]
  · have ha : a.state = .halfOpen := h.state ▸ hb
    have hlt' : b.admitted.toNat < s.probes.toNat := UInt32.lt_iff_toNat_lt.mp hlt
    have hsum := toNat_succ_of_lt hlt'
    have hadm := h.admitted ha
    refine ⟨{ h with idle := ?_, shut := ?_, admitted := ?_, limit := ?_ }, ?_, ?_, rfl⟩
    · simp [ha]
    · simp [ha]
    · intro _
      show (b.admitted + 1).toNat = b.succeeded.toNat + (out + 1)
      omega
    · intro _
      show (b.admitted + 1).toNat ≤ s.probes.toNat
      omega
    · simp [ha]
    · simp [ha]

/-- A breaker that has not admitted more probes than it may refuses a call iff it is
open, or half-open with all its probes admitted. -/
theorem issue_none_iff (h : b.admitted ≤ s.probes) :
    (b.issue s).1 = none ↔
      b.state = .open ∨ b.state = .halfOpen ∧ b.admitted = s.probes := by
  rcases issue_cases s b with ⟨hb, hk⟩ | ⟨hb, hk⟩ | ⟨hb, hlt, hk⟩ | ⟨hb, hle, hk⟩ <;> rw [hk, hb]
  · simp
  · simp
  · simp [UInt32.ne_of_lt hlt]
  · simp [UInt32.le_antisymm h hle]

/-- A call that is refused changes nothing. -/
theorem eq_of_issue_none {b' : Breaker} (hi : b.issue s = (none, b')) : b' = b := by
  rcases issue_cases s b with ⟨-, hk⟩ | ⟨-, hk⟩ | ⟨-, -, hk⟩ | ⟨-, -, hk⟩ <;> rw [hk] at hi <;>
    cases hi <;> rfl

/-! ### An outcome arrives -/

section

variable {p : Permit} {o : Outcome}

theorem record_of_period_ne (h : p.period ≠ b.period) : b.record s now p o = b := if_pos h

theorem record_of_open (h : b.state = .open) : b.record s now p o = b := by
  unfold record
  split
  · rfl
  · rw [h]

theorem record_ignored_of_ne_halfOpen (h : b.state ≠ .halfOpen) :
    b.record s now p .ignored = b := by
  cases hb : b.state with
  | halfOpen => exact absurd hb h
  | «open» => exact record_of_open hb
  | closed =>
    unfold record
    rw [hb]
    exact ite_self b

theorem record_closed_success (hp : p.period = b.period) (hb : b.state = .closed) :
    b.record s now p .success = { b with failures := 0 } := by
  unfold record
  rw [if_neg (not_not_intro hp), hb]

theorem record_closed_failure (hp : p.period = b.period) (hb : b.state = .closed) :
    b.record s now p .failure =
      if s.failureThreshold ≤ saturatingSucc b.failures then
        { b with failures := saturatingSucc b.failures }.moveTo .open now
      else { b with failures := saturatingSucc b.failures } := by
  unfold record
  rw [if_neg (not_not_intro hp), hb]

theorem record_halfOpen_success (hp : p = ⟨b.period, true⟩) (hb : b.state = .halfOpen) :
    b.record s now p .success =
      if s.probes ≤ b.succeeded + 1 then
        { b with succeeded := b.succeeded + 1 }.moveTo .closed now
      else { b with succeeded := b.succeeded + 1 } := by
  unfold record
  rw [hp, if_neg (not_not_intro rfl), hb]
  rfl

theorem record_halfOpen_failure (hp : p = ⟨b.period, true⟩) (hb : b.state = .halfOpen) :
    b.record s now p .failure = b.moveTo .open now := by
  unfold record
  rw [hp, if_neg (not_not_intro rfl), hb]
  rfl

theorem record_halfOpen_ignored (hp : p = ⟨b.period, true⟩) (hb : b.state = .halfOpen) :
    b.record s now p .ignored = { b with admitted := saturatingPred b.admitted } := by
  unfold record
  rw [hp, if_neg (not_not_intro rfl), hb]
  rfl

/-- An outcome either leaves the breaker in its state, period and time of
opening, or takes it into another state and the next period. -/
theorem record_cases (s : BreakerSettings) (now : Nat) (p : Permit) (o : Outcome) (b : Breaker) :
    ((b.record s now p o).state = b.state ∧ (b.record s now p o).period = b.period ∧
      (b.record s now p o).openedAt = b.openedAt) ∨
    (b.record s now p o).state ≠ b.state ∧ (b.record s now p o).period = b.period + 1 ∧
      ((b.record s now p o).state = .open ∧ (b.record s now p o).openedAt = some now ∨
        (b.record s now p o).state = .closed ∧ (b.record s now p o).openedAt = none) := by
  unfold record
  split
  · exact .inl ⟨rfl, rfl, rfl⟩
  · cases hb : b.state <;> cases o <;> dsimp only <;> repeat' split
    all_goals simp_all

/-- An outcome that counts while the breaker is closed keeps the counters in line, with
one permit less out. -/
theorem Tallies.record_closed (hs : 0 < s.failureThreshold.toNat) (h : b.Tallies s a (out + 1))
    (ho : o ≠ .ignored) (hp : p.period = b.period) (hstate : a.state = .closed) :
    (b.record s now p o).Tallies s (a.hear s o)
      (if (b.record s now p o).state = b.state then out else 0) := by
  have hst : b.state = .closed := h.state.trans hstate
  have hidle := h.idle (by rw [hstate]; nofun)
  have hrun := h.failures hstate
  have hlt := h.below hstate
  cases o with
  | ignored => exact absurd rfl ho
  -- a success ends the run of failures
  | success =>
    have hsp : a.hear s .success = ⟨.closed, .success :: a.counted⟩ := by
      rw [BreakerSpec.hear, hstate]
    rw [record_closed_success hp hst, hsp]
    exact ⟨hst, fun _ => rfl, fun _ => Nat.lt_of_le_of_lt (Nat.zero_le _) hlt, nofun,
      fun _ => hidle, nofun, nofun, nofun, nofun, nofun, nofun⟩
  | failure =>
    -- the counter stands below the threshold, so it is raised by one exactly
    have hsize : b.failures.toNat + 1 < UInt32.size := by
      have := s.failureThreshold.toNat_lt
      show b.failures.toNat + 1 < 2 ^ 32
      omega
    have hsucc := toNat_saturatingSucc hsize
    have hle : s.failureThreshold ≤ saturatingSucc b.failures ↔
        failureRun a.counted + 1 = s.failureThreshold := by
      rw [UInt32.le_iff_toNat_le, hsucc]
      omega
    rw [record_closed_failure hp hst]
    -- the failure that fills the threshold opens the breaker
    by_cases htrip : failureRun a.counted + 1 = s.failureThreshold
    · have hsp : a.hear s .failure = ⟨.open, []⟩ := by
        rw [BreakerSpec.hear, hstate]
        exact if_pos htrip
      rw [if_pos (hle.mpr htrip), hsp]
      have hf : saturatingSucc b.failures = s.failureThreshold := by
        rw [← UInt32.toNat_inj, hsucc]
        omega
      exact ⟨rfl, nofun, nofun, fun _ => hf, fun _ => ⟨rfl, rfl⟩, fun _ => by simp [hst], nofun,
        nofun, nofun, nofun, nofun⟩
    · have hsp : a.hear s .failure = ⟨.closed, .failure :: a.counted⟩ := by
        rw [BreakerSpec.hear, hstate]
        exact if_neg htrip
      rw [if_neg (fun hc => htrip (hle.mp hc)), hsp]
      refine ⟨hst, fun _ => ?_, fun _ => ?_, nofun, fun _ => hidle, nofun, nofun, nofun, nofun,
        nofun, nofun⟩
      · show (saturatingSucc b.failures).toNat = failureRun a.counted + 1
        omega
      · show failureRun a.counted + 1 < s.failureThreshold.toNat
        omega

/-- An outcome that counts while the breaker is half-open keeps the counters in line,
with one probe less out. -/
theorem Tallies.record_halfOpen (hs : 0 < s.failureThreshold.toNat) (h : b.Tallies s a (out + 1))
    (ho : o ≠ .ignored) (hp : p = ⟨b.period, true⟩) (hstate : a.state = .halfOpen) :
    (b.record s now p o).Tallies s (a.hear s o)
      (if (b.record s now p o).state = b.state then out else 0) := by
  have hst : b.state = .halfOpen := h.state.trans hstate
  have hfail : b.failures = s.failureThreshold := h.tripped (by rw [hstate]; nofun)
  have hadm := h.admitted hstate
  have hlim := h.limit hstate
  have hsuc := h.succeeded hstate
  have hunf := h.unfinished hstate
  have hall := h.flawless hstate
  cases o with
  | ignored => exact absurd rfl ho
  -- one failed probe opens the breaker again
  | failure =>
    have hsp : a.hear s .failure = ⟨.open, []⟩ := by
      rw [BreakerSpec.hear, hstate]
    rw [record_halfOpen_failure hp hst, hsp]
    exact ⟨rfl, nofun, nofun, fun _ => hfail, fun _ => ⟨rfl, rfl⟩, fun _ => by simp [hst], nofun,
      nofun, nofun, nofun, nofun⟩
  | success =>
    -- fewer probes have succeeded than there may be, so the counter is raised by one exactly
    have hsum := toNat_succ_of_lt (hsuc ▸ hunf : b.succeeded.toNat < s.probes.toNat)
    have hle : s.probes ≤ b.succeeded + 1 ↔ a.counted.length + 1 = s.probes := by
      rw [UInt32.le_iff_toNat_le, hsum]
      omega
    rw [record_halfOpen_success hp hst]
    -- the last of the probes closes it, another one is only counted
    by_cases hlast : a.counted.length + 1 = s.probes
    · have hsp : a.hear s .success = ⟨.closed, []⟩ := by
        rw [BreakerSpec.hear, hstate]
        exact if_pos hlast
      rw [if_pos (hle.mpr hlast), hsp]
      exact ⟨rfl, fun _ => rfl, fun _ => hs, fun h => absurd rfl h, fun _ => ⟨rfl, rfl⟩, nofun,
        nofun, nofun, nofun, nofun, nofun⟩
    · have hsp : a.hear s .success = ⟨.halfOpen, .success :: a.counted⟩ := by
        rw [BreakerSpec.hear, hstate]
        exact if_neg hlast
      rw [if_neg (fun hc => hlast (hle.mp hc)), hsp]
      refine ⟨hst, nofun, nofun, fun _ => hfail, fun h => absurd rfl h, nofun, fun _ => ?_,
        fun _ => hlim, fun _ => ?_, fun _ => ?_, fun _ => ?_⟩
      · rw [if_pos rfl]
        show b.admitted.toNat = (b.succeeded + 1).toNat + out
        omega
      · show (b.succeeded + 1).toNat = a.counted.length + 1
        omega
      · show a.counted.length + 1 < s.probes.toNat
        omega
      · intro o' ho'
        rcases List.mem_cons.mp ho' with rfl | ho'
        · rfl
        · exact hall o' ho'

/-- A counted outcome keeps the counters in line, with one permit less out. -/
theorem Tallies.record (hs : 0 < s.failureThreshold.toNat) (h : b.Tallies s a (out + 1))
    (ho : o ≠ .ignored) (hp : p = ⟨b.period, a.state = .halfOpen⟩) (ha : a.state ≠ .open) :
    (b.record s now p o).Tallies s (a.hear s o)
      (if (b.record s now p o).state = b.state then out else 0) := by
  cases hstate : a.state with
  | «open» => exact absurd hstate ha
  | closed => exact h.record_closed hs ho (hp ▸ rfl) hstate
  | halfOpen =>
    rw [hstate] at hp
    exact h.record_halfOpen hs ho (by simpa using hp) hstate

/-- A permit of the present period that comes back `ignored` keeps the counters in
line, with one permit less out. -/
theorem Tallies.handBack (h : b.Tallies s a (out + 1))
    (hp : p = ⟨b.period, a.state = .halfOpen⟩) (now : Nat) :
    (b.record s now p .ignored).Tallies s a out ∧
      (b.record s now p .ignored).state = b.state := by
  have hst := h.state
  by_cases hstate : a.state = .halfOpen
  · rw [hstate] at hst
    have hp' : p = ⟨b.period, true⟩ := by simpa [hstate] using hp
    have hadm := h.admitted hstate
    have hlim := h.limit hstate
    have hpred := toNat_saturatingPred b.admitted
    rw [record_halfOpen_ignored hp' hst]
    refine ⟨{ h with idle := ?_, shut := ?_, admitted := fun _ => ?_, limit := fun _ => ?_ }, rfl⟩
    · exact fun hne => absurd hstate hne
    · rw [hstate]
      nofun
    · show (saturatingPred b.admitted).toNat = b.succeeded.toNat + out
      omega
    · show (saturatingPred b.admitted).toNat ≤ s.probes.toNat
      omega
  · rw [record_ignored_of_ne_halfOpen (hst ▸ hstate)]
    refine ⟨{ h with shut := fun ho => ?_, admitted := fun hh => absurd hh hstate }, rfl⟩
    have := h.shut ho
    omega

end

end Breaker

end CallPolicy
