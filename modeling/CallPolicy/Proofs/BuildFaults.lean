/-
Which descriptions can be built, and what is wrong with the others.

Building looks at the name and at the last setting for each slot, in eleven
checks that always come in the same order. `FaultAt` says what each of them
finds, and `Buildable` that there is nothing for any of them to find.

* **`Settings.fault?_eq_checks`** — the fault of a description is that of the
  first check that finds one;
* **`Policy.build_error_iff`**, **`Policy.build_ok_iff`** — which fault building
  reports, and when it reports none;
* **`Policy.records_of_error`**, **`Policy.records_of_ok`** — whom it tells: no one
  about a failure, and the last registry first about a policy.
-/
import Mathlib.Data.List.TakeWhile
import Mathlib.Tactic.IntervalCases
import CallPolicy.Proofs.LastWrites

namespace CallPolicy

open Text

/-- A text is empty without the blanks at its ends iff it has only blanks. -/
theorem trimBlank_eq_empty_iff (s : String) : trimBlank s = "" ↔ isBlank s = true := by
  have hdrop {l : List Char} : l.dropWhile isBlankChar = [] ↔ ∀ c ∈ l, isBlankChar c = true :=
    List.dropWhile_eq_nil_iff
  rw [isBlank_iff, trimBlank, String.ofList_eq_empty_iff, List.reverse_eq_nil_iff, hdrop]
  constructor
  · intro h c hc
    by_contra hb
    -- The first character that is left in front is not blank, and yet it is dropped behind.
    have hne : s.toList.dropWhile isBlankChar ≠ [] := fun hnil => hb (hdrop.mp hnil c hc)
    have hhead := h _ (List.mem_reverse.mpr (List.head_mem hne))
    rw [List.head_dropWhile_not isBlankChar hne] at hhead
    cases hhead
  · intro h c hc
    exact h c ((List.dropWhile_sublist _).mem (List.mem_reverse.mp hc))

/-- The setting that asks for a layer. -/
def Layer.setting : Layer → Setting
  | .fallback value => .fallback value
  | .timeout length => .timeout length
  | .breaker s => .breaker s
  | .rateLimit l => .rateLimit l
  | .bulkhead capacity => .bulkhead capacity
  | .retry s => .retry s
  | .hedge delay => .hedge delay

theorem Setting.layer?_eq_some_iff {x : Setting} {l : Layer} :
    x.layer? = some l ↔ x = l.setting := by
  cases x <;> cases l <;> simp [Setting.layer?, Layer.setting]

/-- **What check number `n` finds**, for a name and the last settings of a
description. -/
inductive FaultAt (name : String) (d : List Setting) : Nat → Misconfiguration → Prop
  | name (h : trimBlank name = "") : FaultAt name d 0 .emptyName
  | attempts {s : RetrySettings} (hs : lastWrite? "retry" d = some (.retry s))
      (h : s.maxAttempts = 0) : FaultAt name d 1 .zeroAttempts
  | attemptTimeout {s : RetrySettings} {length : Duration}
      (hs : lastWrite? "retry" d = some (.retry s)) (hl : s.attemptTimeout = some length)
      (h : length.nanos = 0) : FaultAt name d 2 (.zeroDuration "per-attempt timeout")
  | hedge {delay : Duration} (hs : lastWrite? "hedge" d = some (.hedge delay))
      (h : delay.nanos = 0) : FaultAt name d 3 (.zeroDuration "hedge delay")
  | noSlot {capacity : Nat} (hs : lastWrite? "bulkhead" d = some (.bulkhead capacity))
      (h : capacity = 0) : FaultAt name d 4 .zeroCapacity
  | tooManySlots {capacity : Nat} (hs : lastWrite? "bulkhead" d = some (.bulkhead capacity))
      (h : maxCapacity < capacity) : FaultAt name d 5 (.capacityTooLarge capacity maxCapacity)
  | rate {l : RateLimit} (hs : lastWrite? "rate-limit" d = some (.rateLimit l))
      (h : l.rate = 0 ∨ l.burst.getD l.rate = 0) : FaultAt name d 6 .zeroRate
  | period {l : RateLimit} (hs : lastWrite? "rate-limit" d = some (.rateLimit l))
      (h : l.period.nanos = 0) : FaultAt name d 7 (.zeroDuration "rate limit period")
  | threshold {s : BreakerSettings} (hs : lastWrite? "circuit-breaker" d = some (.breaker s))
      (h : s.failureThreshold = 0) : FaultAt name d 8 .zeroFailureThreshold
  | probes {s : BreakerSettings} (hs : lastWrite? "circuit-breaker" d = some (.breaker s))
      (h : s.probes = 0) : FaultAt name d 9 .zeroProbes
  | timeout {length : Duration} (hs : lastWrite? "timeout" d = some (.timeout length))
      (h : length.nanos = 0) : FaultAt name d 10 (.zeroDuration "timeout")

/-- A name and a description that a policy can be built from: the name is not
blank, and the last setting for each slot is in order. -/
structure Buildable (name : String) (d : List Setting) : Prop where
  name : trimBlank name ≠ ""
  retry : ∀ s, lastWrite? "retry" d = some (.retry s) →
    1 ≤ s.maxAttempts ∧ ∀ length, s.attemptTimeout = some length → 0 < length.nanos
  hedge : ∀ delay, lastWrite? "hedge" d = some (.hedge delay) → 0 < delay.nanos
  bulkhead : ∀ capacity, lastWrite? "bulkhead" d = some (.bulkhead capacity) →
    1 ≤ capacity ∧ capacity ≤ maxCapacity
  rateLimit : ∀ l, lastWrite? "rate-limit" d = some (.rateLimit l) →
    1 ≤ l.rate ∧ 1 ≤ l.burst.getD l.rate ∧ 0 < l.period.nanos
  breaker : ∀ s, lastWrite? "circuit-breaker" d = some (.breaker s) →
    1 ≤ s.failureThreshold ∧ 1 ≤ s.probes
  timeout : ∀ length, lastWrite? "timeout" d = some (.timeout length) → 0 < length.nanos

theorem one_le_iff_ne_zero {n : UInt32} : 1 ≤ n ↔ n ≠ 0 := by
  rw [UInt32.le_iff_toNat_le, ne_eq, ← UInt32.toNat_inj]
  simp only [UInt32.toNat_one, UInt32.toNat_zero]
  omega

theorem emptySpan?_eq_some_iff {setting : String} {d : Duration} {f : Misconfiguration} :
    Layer.emptySpan? setting d = some f ↔ d.nanos = 0 ∧ f = .zeroDuration setting := by
  unfold Layer.emptySpan?
  split <;> simp_all [eq_comm]

namespace Settings

section

variable {d : List Setting}

/-- A layer stands in its slot iff the setting that asks for it was written last. -/
theorem layer?_ofList_eq_some_iff {l : Layer} :
    (ofList d).layer? l.kind = some l ↔ lastWrite? l.kind.label d = some l.setting := by
  rw [layer?_ofList, Option.bind_eq_some_iff]
  simp only [Setting.layer?_eq_some_iff, exists_eq_right]

theorem retry_ofList {s : RetrySettings} :
    (ofList d).retry = some s ↔ lastWrite? "retry" d = some (.retry s) :=
  Iff.trans (by simp [layer?, Layer.kind]) (layer?_ofList_eq_some_iff (l := .retry s))

theorem hedge_ofList {delay : Duration} :
    (ofList d).hedge = some delay ↔ lastWrite? "hedge" d = some (.hedge delay) :=
  Iff.trans (by simp [layer?, Layer.kind]) (layer?_ofList_eq_some_iff (l := .hedge delay))

theorem bulkhead_ofList {capacity : Nat} :
    (ofList d).bulkhead = some capacity ↔ lastWrite? "bulkhead" d = some (.bulkhead capacity) :=
  Iff.trans (by simp [layer?, Layer.kind]) (layer?_ofList_eq_some_iff (l := .bulkhead capacity))

theorem rateLimit_ofList {l : RateLimit} :
    (ofList d).rateLimit = some l ↔ lastWrite? "rate-limit" d = some (.rateLimit l) :=
  Iff.trans (by simp [layer?, Layer.kind]) (layer?_ofList_eq_some_iff (l := .rateLimit l))

theorem breaker_ofList {s : BreakerSettings} :
    (ofList d).breaker = some s ↔ lastWrite? "circuit-breaker" d = some (.breaker s) :=
  Iff.trans (by simp [layer?, Layer.kind]) (layer?_ofList_eq_some_iff (l := .breaker s))

theorem timeout_ofList {length : Duration} :
    (ofList d).timeout = some length ↔ lastWrite? "timeout" d = some (.timeout length) :=
  Iff.trans (by simp [layer?, Layer.kind]) (layer?_ofList_eq_some_iff (l := .timeout length))

end

/-- What each check finds, in the order of the checks. -/
def checks (name : String) (s : Settings) : List (Option Misconfiguration) :=
  [if isBlank name then some .emptyName else none,
   s.retry.bind fun r => if r.maxAttempts = 0 then some .zeroAttempts else none,
   s.retry.bind fun r => r.attemptTimeout.bind (Layer.emptySpan? "per-attempt timeout"),
   s.hedge.bind (Layer.emptySpan? "hedge delay"),
   s.bulkhead.bind fun c => if c = 0 then some .zeroCapacity else none,
   s.bulkhead.bind fun c =>
     if maxCapacity < c then some (.capacityTooLarge c maxCapacity) else none,
   s.rateLimit.bind fun l => if l.rate = 0 ∨ l.capacity = 0 then some .zeroRate else none,
   s.rateLimit.bind fun l => Layer.emptySpan? "rate limit period" l.period,
   s.breaker.bind fun b => if b.failureThreshold = 0 then some .zeroFailureThreshold else none,
   s.breaker.bind fun b => if b.probes = 0 then some .zeroProbes else none,
   s.timeout.bind (Layer.emptySpan? "timeout")]

/-- **The fault of some settings** is that of the first check that finds one. -/
theorem fault?_eq_checks (name : String) (s : Settings) :
    s.fault? name = (checks name s).findSome? id := by
  have hcons {α : Type} (g : α → Option Misconfiguration) (a : α) (l : List α) :
      (a :: l).findSome? g = (g a).or (l.findSome? g) := by
    cases h : g a <;> simp [h]
  have hbind {α : Type} (o : Option α) (g h : α → Option Misconfiguration) :
      (o.bind fun a => (g a).or (h a)) = (o.bind g).or (o.bind h) := by
    cases o <;> rfl
  -- Four kinds of layers are checked for two things each.
  have hretry (r : RetrySettings) : (Layer.retry r).fault? =
      (if r.maxAttempts = 0 then some .zeroAttempts else none).or
        (r.attemptTimeout.bind (Layer.emptySpan? "per-attempt timeout")) := by
    simp only [Layer.fault?]; split <;> rfl
  have hbulkhead (c : Nat) : (Layer.bulkhead c).fault? =
      (if c = 0 then some .zeroCapacity else none).or
        (if maxCapacity < c then some (.capacityTooLarge c maxCapacity) else none) := by
    simp only [Layer.fault?]; split <;> rfl
  have hlimit (l : RateLimit) : (Layer.rateLimit l).fault? =
      (if l.rate = 0 ∨ l.capacity = 0 then some .zeroRate else none).or
        (Layer.emptySpan? "rate limit period" l.period) := by
    simp only [Layer.fault?]; split <;> rfl
  have hbreaker (b : BreakerSettings) : (Layer.breaker b).fault? =
      (if b.failureThreshold = 0 then some .zeroFailureThreshold else none).or
        (if b.probes = 0 then some .zeroProbes else none) := by
    simp only [Layer.fault?]; split <;> rfl
  have hfallback (value : String) : (Layer.fallback value).fault? = none := rfl
  have hnone : (s.fallback.bind fun _ => none) = (none : Option Misconfiguration) := by
    cases s.fallback <;> rfl
  unfold fault? checks
  split
  · rfl
  · simp only [checkOrder, hcons, List.findSome?_nil, layer?, id, Option.bind_map,
      Function.comp_def, hretry, hbulkhead, hlimit, hbreaker, hfallback, hnone, hbind,
      Option.or_assoc, Option.none_or, Option.or_none]
    rfl

end Settings

/-- What a check finds is a fault of its number. -/
theorem faultAt_iff {name : String} {d : List Setting} {n : Nat} {f : Misconfiguration} :
    FaultAt name d n f ↔ (Settings.checks name (.ofList d))[n]? = some (some f) := by
  constructor
  -- a fault stands at its own place in the list of checks
  · intro h
    cases h with
    | name h => simp [Settings.checks, (trimBlank_eq_empty_iff name).mp h]
    | attempts hs h => simp [Settings.checks, Settings.retry_ofList.mpr hs, h]
    | attemptTimeout hs hl h =>
      simp [Settings.checks, Settings.retry_ofList.mpr hs, hl, emptySpan?_eq_some_iff, h]
    | hedge hs h => simp [Settings.checks, Settings.hedge_ofList.mpr hs, emptySpan?_eq_some_iff, h]
    | noSlot hs h => simp [Settings.checks, Settings.bulkhead_ofList.mpr hs, h]
    | tooManySlots hs h => simp [Settings.checks, Settings.bulkhead_ofList.mpr hs, h]
    | rate hs h =>
      simp [Settings.checks, Settings.rateLimit_ofList.mpr hs, RateLimit.capacity, h]
    | period hs h =>
      simp [Settings.checks, Settings.rateLimit_ofList.mpr hs, emptySpan?_eq_some_iff, h]
    | threshold hs h => simp [Settings.checks, Settings.breaker_ofList.mpr hs, h]
    | probes hs h => simp [Settings.checks, Settings.breaker_ofList.mpr hs, h]
    | timeout hs h =>
      simp [Settings.checks, Settings.timeout_ofList.mpr hs, emptySpan?_eq_some_iff, h]
  · intro h
    have hn : n < 11 := (List.getElem?_eq_some_iff.mp h).1
    -- conversely, each place holds one check
    interval_cases n <;>
      simp only [Settings.checks, List.getElem?_cons_zero, List.getElem?_cons_succ,
        Option.some.injEq, Option.bind_eq_some_iff, Option.ite_none_right_eq_some,
        emptySpan?_eq_some_iff] at h
    · obtain ⟨h, rfl⟩ := h
      exact .name ((trimBlank_eq_empty_iff name).mpr h)
    · obtain ⟨s, hs, h, rfl⟩ := h
      exact .attempts (Settings.retry_ofList.mp hs) h
    · obtain ⟨s, hs, length, hl, h, rfl⟩ := h
      exact .attemptTimeout (Settings.retry_ofList.mp hs) hl h
    · obtain ⟨delay, hs, h, rfl⟩ := h
      exact .hedge (Settings.hedge_ofList.mp hs) h
    · obtain ⟨capacity, hs, h, rfl⟩ := h
      exact .noSlot (Settings.bulkhead_ofList.mp hs) h
    · obtain ⟨capacity, hs, h, rfl⟩ := h
      exact .tooManySlots (Settings.bulkhead_ofList.mp hs) h
    · obtain ⟨l, hs, h, rfl⟩ := h
      exact .rate (Settings.rateLimit_ofList.mp hs) h
    · obtain ⟨l, hs, h, rfl⟩ := h
      exact .period (Settings.rateLimit_ofList.mp hs) h
    · obtain ⟨s, hs, h, rfl⟩ := h
      exact .threshold (Settings.breaker_ofList.mp hs) h
    · obtain ⟨s, hs, h, rfl⟩ := h
      exact .probes (Settings.breaker_ofList.mp hs) h
    · obtain ⟨length, hs, h, rfl⟩ := h
      exact .timeout (Settings.timeout_ofList.mp hs) h

/-- The first of some checks that finds something has a number, and none before it
finds anything. -/
theorem findSome?_id_eq_some_iff {α : Type} {l : List (Option α)} {a : α} :
    l.findSome? id = some a ↔
      ∃ n : Nat, l[n]? = some (some a) ∧ ∀ m < n, ∀ b, l[m]? ≠ some (some b) := by
  induction l with
  | nil => simp
  | cons o l ih =>
    cases o with
    | some b =>
      constructor
      · intro h
        exact ⟨0, by simpa using h, by simp⟩
      · rintro ⟨n, hn, hfirst⟩
        cases n with
        | zero => simpa using hn
        | succ n => exact absurd rfl (hfirst 0 (Nat.succ_pos n) b)
    | none =>
      rw [List.findSome?_cons_of_isNone rfl, ih]
      constructor
      · rintro ⟨n, hn, hfirst⟩
        refine ⟨n + 1, by simpa using hn, ?_⟩
        intro m hm b
        cases m with
        | zero => simp
        | succ m => simpa using hfirst m (by omega) b
      · rintro ⟨n, hn, hfirst⟩
        cases n with
        | zero => simp at hn
        | succ n => exact ⟨n, by simpa using hn, fun m hm b => by
            simpa using hfirst (m + 1) (by omega) b⟩

/-- **The fault of a description** is the first one that a check finds. -/
theorem Settings.fault?_ofList_eq_some_iff {name : String} {d : List Setting}
    {f : Misconfiguration} : (ofList d).fault? name = some f ↔
      ∃ n, FaultAt name d n f ∧ ∀ m < n, ∀ g, ¬ FaultAt name d m g := by
  simp only [fault?_eq_checks, findSome?_id_eq_some_iff, faultAt_iff, ne_eq]

/-- A description has no fault iff no check finds one. -/
theorem Settings.fault?_ofList_eq_none_iff {name : String} {d : List Setting} :
    (ofList d).fault? name = none ↔ ∀ n f, ¬ FaultAt name d n f := by
  rw [fault?_eq_checks, List.findSome?_eq_none_iff]
  simp only [faultAt_iff]
  constructor
  · intro h n f hf
    cases h _ (List.mem_of_getElem? hf)
  · intro h o ho
    obtain ⟨n, hn⟩ := List.mem_iff_getElem?.mp ho
    cases o with
    | none => rfl
    | some f => exact absurd hn (h n f)

/-- Nothing can be found wrong with what can be built, and only with that. -/
theorem buildable_iff {name : String} {d : List Setting} :
    Buildable name d ↔ ∀ n f, ¬ FaultAt name d n f := by
  constructor
  · intro hb n f h
    -- each fault contradicts the condition that its check tests
    cases h with
    | name h => exact hb.name h
    | attempts hs h => exact one_le_iff_ne_zero.mp (hb.retry _ hs).1 h
    | attemptTimeout hs hl h => exact absurd h ((hb.retry _ hs).2 _ hl).ne'
    | hedge hs h => exact absurd h (hb.hedge _ hs).ne'
    | noSlot hs h => exact absurd h (Nat.one_le_iff_ne_zero.mp (hb.bulkhead _ hs).1)
    | tooManySlots hs h => exact absurd h (Nat.not_lt.mpr (hb.bulkhead _ hs).2)
    | rate hs h =>
      obtain ⟨hrate, hburst, -⟩ := hb.rateLimit _ hs
      exact h.elim (one_le_iff_ne_zero.mp hrate) (one_le_iff_ne_zero.mp hburst)
    | period hs h => exact absurd h (hb.rateLimit _ hs).2.2.ne'
    | threshold hs h => exact one_le_iff_ne_zero.mp (hb.breaker _ hs).1 h
    | probes hs h => exact one_le_iff_ne_zero.mp (hb.breaker _ hs).2 h
    | timeout hs h => exact absurd h (hb.timeout _ hs).ne'
  -- conversely a condition that failed would be a fault of its setting
  · intro h
    constructor
    · exact fun hn => h _ _ (.name hn)
    · refine fun s hs => ⟨one_le_iff_ne_zero.mpr fun hz => h _ _ (.attempts hs hz), ?_⟩
      exact fun length hl => Nat.pos_of_ne_zero fun hz => h _ _ (.attemptTimeout hs hl hz)
    · exact fun delay hs => Nat.pos_of_ne_zero fun hz => h _ _ (.hedge hs hz)
    · refine fun capacity hs => ⟨Nat.one_le_iff_ne_zero.mpr fun hz => h _ _ (.noSlot hs hz), ?_⟩
      exact Nat.not_lt.mp fun hlt => h _ _ (.tooManySlots hs hlt)
    · refine fun l hs => ⟨one_le_iff_ne_zero.mpr fun hz => h _ _ (.rate hs (.inl hz)),
        one_le_iff_ne_zero.mpr fun hz => h _ _ (.rate hs (.inr hz)), ?_⟩
      exact Nat.pos_of_ne_zero fun hz => h _ _ (.period hs hz)
    · exact fun s hs => ⟨one_le_iff_ne_zero.mpr fun hz => h _ _ (.threshold hs hz),
        one_le_iff_ne_zero.mpr fun hz => h _ _ (.probes hs hz)⟩
    · exact fun length hs => Nat.pos_of_ne_zero fun hz => h _ _ (.timeout hs hz)

/-- The policy that is built from slots without a fault. -/
def Settings.policy {name : String} (s : Settings) (key : Nat) (h : s.fault? name = none) :
    Policy where
  origin := ⟨key, name, s.hooks⟩
  layers := s.layers
  criticality := s.criticality
  dependencies := s.dependencies
  ordered := s.pairwise_kind_layers
  faultless := Settings.fault?_of_mem_layers h

namespace Policy

variable {key : Nat} {name : String} {d : List Setting} {f : Misconfiguration} {p : Policy}

/-- A description with a fault is built to nothing, and no one is told. -/
theorem build_of_fault (h : (Settings.ofList d).fault? name = some f) :
    build key name d = ⟨.error f, []⟩ := by
  unfold build
  dsimp only
  split
  · next g hg => rw [Option.some.inj (hg.symm.trans h)]
  · next hg => cases hg.symm.trans h

/-- A description without a fault is built to the policy of its slots, and the last
registry hears of it first. -/
theorem build_eq (key : Nat) (h : (Settings.ofList d).fault? name = none) :
    build key name d = ⟨.ok ((Settings.ofList d).policy key h),
      ((Settings.ofList d).registry.map
        (BuildRecord.registered · ((Settings.ofList d).policy key h).reporter)).toList ++
        [.built name ((Settings.ofList d).policy key h).kinds]⟩ := by
  unfold build
  dsimp only
  split
  · next g hg => cases hg.symm.trans h
  · rfl

theorem build_of_faultless (key : Nat) (h : (Settings.ofList d).fault? name = none) :
    ∃ p : Policy, p.name = name ∧ build key name d = ⟨.ok p,
      ((Settings.ofList d).registry.map (BuildRecord.registered · p.reporter)).toList ++
        [.built name p.kinds]⟩ := ⟨_, rfl, build_eq key h⟩

/-- **What a construction fails with** is the first fault that a check finds. -/
theorem build_error_iff : (build key name d).outcome = .error f ↔
    ∃ n, FaultAt name d n f ∧ ∀ m < n, ∀ g, ¬ FaultAt name d m g := by
  rw [← Settings.fault?_ofList_eq_some_iff]
  cases h : (Settings.ofList d).fault? name with
  | some g => simp [build_of_fault h]
  | none =>
    obtain ⟨p, -, hp⟩ := build_of_faultless key h
    simp [hp]

/-- **A construction succeeds** iff the name and the last settings are in order. -/
theorem build_ok_iff : (∃ p, (build key name d).outcome = .ok p) ↔ Buildable name d := by
  rw [buildable_iff, ← Settings.fault?_ofList_eq_none_iff]
  cases h : (Settings.ofList d).fault? name with
  | some g => simp [build_of_fault h]
  | none =>
    obtain ⟨p, -, hp⟩ := build_of_faultless key h
    simp [hp]

/-- A construction that fails has told no one. -/
theorem records_of_error (h : (build key name d).outcome = .error f) :
    (build key name d).records = [] := by
  rw [build_error_iff, ← Settings.fault?_ofList_eq_some_iff] at h
  rw [build_of_fault h]

/-- The registry in the end is the one that was written last. -/
theorem registry_ofList (d : List Setting) :
    (lastWrite? "registry" d = none ∧ (Settings.ofList d).registry = none) ∨
    ∃ r, lastWrite? "registry" d = some (.registry r) ∧
      (Settings.ofList d).registry = some r := by
  rw [Settings.governs_registry.read_ofList]
  cases h : lastWrite? "registry" d with
  | none => exact .inl ⟨rfl, rfl⟩
  | some x =>
    have hx := slot_of_lastWrite? h
    cases x <;> simp [Setting.slot] at hx
    exact .inr ⟨_, rfl, rfl⟩

/-- **Whom a construction tells** about a policy: the last registry, if there is
one, once and first of all, and then everyone. -/
theorem records_of_ok (h : (build key name d).outcome = .ok p) :
    (lastWrite? "registry" d = none ∧
      (build key name d).records = [.built name p.kinds]) ∨
    ∃ r, lastWrite? "registry" d = some (.registry r) ∧
      (build key name d).records = [.registered r p.reporter, .built name p.kinds] := by
  have hf : (Settings.ofList d).fault? name = none :=
    Settings.fault?_ofList_eq_none_iff.mpr (buildable_iff.mp (build_ok_iff.mp ⟨p, h⟩))
  obtain ⟨q, -, hq⟩ := build_of_faultless key hf
  rw [hq] at h ⊢
  cases h
  rcases registry_ofList d with ⟨hlast, hr⟩ | ⟨r, hlast, hr⟩
  · exact .inl ⟨hlast, by simp [hr]⟩
  · exact .inr ⟨r, hlast, by simp [hr]⟩

/-- **Construction validates exactly, and all or nothing.** For every name and
every description, building succeeds iff the trimmed name is not empty and the
last setting for every slot is in order; otherwise it fails with the fault that
the first failing check finds, wherever the settings stand in the description and
whatever they overwrote. A failed construction tells no one and leaves the
simulation as it is. A policy is told to the last registry, if there is one, once
and before the record that it was built, and to no other. -/
theorem construction_validates (key : Nat) (name : String) (d : List Setting) :
    ((∃ p, (build key name d).outcome = .ok p) ↔ Buildable name d) ∧
    (∀ f, (build key name d).outcome = .error f ↔
      ∃ n, FaultAt name d n f ∧ ∀ m < n, ∀ g, ¬ FaultAt name d m g) ∧
    (∀ f, (build key name d).outcome = .error f →
      (build key name d).records = [] ∧
      ∀ S : Simulation, S.policies.length = key → S.build name d = (build key name d, S)) ∧
    ∀ p, (build key name d).outcome = .ok p →
      (lastWrite? "registry" d = none ∧
        (build key name d).records = [.built name p.kinds]) ∨
      ∃ r, lastWrite? "registry" d = some (.registry r) ∧
        (build key name d).records = [.registered r p.reporter, .built name p.kinds] := by
  refine ⟨build_ok_iff, fun f => build_error_iff, ?_, fun p => records_of_ok⟩
  intro f h
  refine ⟨records_of_error h, ?_⟩
  rintro S rfl
  simp only [Simulation.build, h]

/-- A description with three faults, one of them overwritten: the empty hedge delay
is reported, though the empty deadline stands before it. A second registry takes
the place of the first. -/
theorem construction_validates_three_faults :
    (build 0 "p" [.timeout .zero, .retry ⟨0, .constant .zero, none, none, none⟩, .hedge .zero,
      .retry ⟨2, .constant .zero, none, none, none⟩]).outcome =
        .error (.zeroDuration "hedge delay") ∧
    (build 0 "p" [.timeout .zero, .retry ⟨0, .constant .zero, none, none, none⟩, .hedge .zero,
      .retry ⟨2, .constant .zero, none, none, none⟩]).records = [] ∧
    ∃ p, (build 0 "p" [.registry "a", .hedge .zero, .registry "b",
        .hedge (.ofMillis 5)]).outcome = .ok p ∧
      (build 0 "p" [.registry "a", .hedge .zero, .registry "b",
        .hedge (.ofMillis 5)]).records = [.registered "b" p.reporter, .built "p" p.kinds] := by
  obtain ⟨-, herror, hsilent, -⟩ := construction_validates 0 "p"
    [.timeout .zero, .retry ⟨0, .constant .zero, none, none, none⟩, .hedge .zero,
      .retry ⟨2, .constant .zero, none, none, none⟩]
  obtain ⟨hok, -, -, htold⟩ := construction_validates 0 "p"
    [.registry "a", .hedge .zero, .registry "b", .hedge (.ofMillis 5)]
  have hfault := (herror (.zeroDuration "hedge delay")).mpr
    (Settings.fault?_ofList_eq_some_iff.mp (by decide))
  obtain ⟨p, hp⟩ := hok.mpr (buildable_iff.mpr
    (Settings.fault?_ofList_eq_none_iff.mp (by decide)))
  refine ⟨hfault, (hsilent _ hfault).1, p, hp, ?_⟩
  rcases htold p hp with ⟨hnone, -⟩ | ⟨r, hr, hrecords⟩
  · cases hnone
  · cases hr
    exact hrecords

end Policy

end CallPolicy
