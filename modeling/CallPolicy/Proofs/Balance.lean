/-
What is taken is given back.

The trace tells of everything that is taken on behalf of a call, and of everything that
is given back: slots, permits, and invocations, which begin and end. Between the two it
is held (`World.Balanced`), by the state of a suspended activity and by nobody else.

* **`Effect.balanced`** — nothing that a call does upsets the balance;
* **`Policy.balanced`** — so a suspended call holds what it has taken and not given back,
  and one that has ended has given everything back.
-/
import CallPolicy.Proofs.BreakerRun
import CallPolicy.Proofs.Lives
import Mathlib.Data.Multiset.Bind

namespace CallPolicy

open Activity Operation

/-- Something that is held, as the trace tells of it. -/
inductive Thing
  | invocation (call : CallId) (k : Nat)
  | slot (site : Site)
  | permit (site : Site) (p : Permit)
deriving DecidableEq

/-- The call on behalf of which something is held. -/
def Thing.call : Thing → CallId
  | invocation call _ => call
  | slot site => site.call
  | permit site _ => site.call

/-- What is held. -/
def Holding.thing : Holding → Thing
  | .invocation call k _ => .invocation call k
  | .slot site => .slot site
  | .permit site _ p => .permit site p

/-- What is taken. -/
def Record.taken? : Record → Option Thing
  | .invoked call k _ => some (.invocation call k)
  | .event site .slotTaken => some (.slot site)
  | .gate site (.permitIssued p) => some (.permit site p)
  | _ => none

/-- What is given back. -/
def Record.returned? : Record → Option Thing
  | .finished call k _ => some (.invocation call k)
  | .abandoned call k _ => some (.invocation call k)
  | .event site .slotReleased => some (.slot site)
  | .gate site (.permitSettled p _) => some (.permit site p)
  | _ => none

namespace World

/-- What was taken, the last first. -/
def taken (w : World) : List Thing := w.trace.filterMap (·.record.taken?)

/-- What was given back, the last first. -/
def returned (w : World) : List Thing := w.trace.filterMap (·.record.returned?)

/-- What was taken on behalf of a call, and inside it, was given back or is held. -/
def Balanced (id : CallId) (w : World) (held : Multiset Holding) : Prop :=
  ∀ x : Thing, id.Within x.call →
    w.taken.count x = w.returned.count x + (held.map Holding.thing).count x

end World

variable {K : List Policy} {x y : Scene} {w w' w₀ : World} {id : CallId} {t : Token}
  {H H' : Multiset Holding} {R R' : Multiset Right} {r : Record} {timely : Prop}

theorem Record.call_of_taken? {x : Thing} (h : r.taken? = some x) : x.call = r.call := by
  unfold taken? at h
  split at h <;> cases h <;> rfl

theorem Record.call_of_returned? {x : Thing} (h : r.returned? = some x) : x.call = r.call := by
  unfold returned? at h
  split at h <;> cases h <;> rfl

theorem Record.isPlain_unheld (h : r.isPlain = true) : r.taken? = none ∧ r.returned? = none := by
  cases r with
  | event site e => cases e <;> simp_all [isPlain, Event.isPlain, taken?, returned?]
  | _ => simp_all [isPlain, taken?, returned?]

namespace World

/-- A record tells of something that was taken or given back. -/
theorem Balanced.entry (h : w.Balanced id H) (htr : w'.trace = ⟨w.now, r⟩ :: w.trace)
    (hr : (r.taken?.toList : Multiset Thing) + H.map Holding.thing =
      r.returned?.toList + H'.map Holding.thing) : w'.Balanced id H' := by
  intro x hx
  have hcount := congrArg (Multiset.count x) hr
  have hbefore := h x hx
  rw [Multiset.count_add, Multiset.count_add, Multiset.coe_count, Multiset.coe_count] at hcount
  have htaken : w'.taken = r.taken?.toList ++ w.taken := by
    rw [taken, taken, htr]
    cases hr : r.taken? <;> simp [hr]
  have hreturned : w'.returned = r.returned?.toList ++ w.returned := by
    rw [returned, returned, htr]
    cases hr : r.returned? <;> simp [hr]
  rw [htaken, hreturned, List.count_append, List.count_append]
  omega

/-- Nothing is told of what is held. -/
theorem Balanced.of_trace (h : w.Balanced id H)
    (htr : ∃ es, w'.trace = es ++ w.trace ∧ ∀ e ∈ es,
      (∀ x, e.record.taken? = some x → ¬id.Within x.call) ∧
        ∀ x, e.record.returned? = some x → ¬id.Within x.call) : w'.Balanced id H := by
  obtain ⟨es, htr, hes⟩ := htr
  intro x hx
  have hnone : (es.filterMap (·.record.taken?)).count x = 0 ∧
      (es.filterMap (·.record.returned?)).count x = 0 := by
    constructor
    · refine List.count_eq_zero.mpr fun hmem => ?_
      obtain ⟨e, he, heq⟩ := List.mem_filterMap.mp hmem
      exact (hes e he).1 x heq hx
    · refine List.count_eq_zero.mpr fun hmem => ?_
      obtain ⟨e, he, heq⟩ := List.mem_filterMap.mp hmem
      exact (hes e he).2 x heq hx
  have hbefore := h x hx
  rw [taken, returned, htr, List.filterMap_append, List.filterMap_append, List.count_append,
    List.count_append, hnone.1, hnone.2, Nat.zero_add, Nat.zero_add]
  exact hbefore

theorem Balanced.entry_other (h : w.Balanced id H) (htr : w'.trace = ⟨w.now, r⟩ :: w.trace)
    (ht : r.taken? = none) (hr : r.returned? = none) : w'.Balanced id H :=
  h.entry htr (by rw [ht, hr])

theorem Balanced.setBreaker {site : Site} (h : w.Balanced id H) (b : Breaker) :
    (w.setBreaker site b).Balanced id H := by
  have htr := w.setBreaker_trace site b
  split at htr
  · exact h.of_trace ⟨[], htr, nofun⟩
  · refine h.entry_other htr ?_ ?_
    · cases b.state <;> rfl
    · cases b.state <;> rfl

end World

/-! ### Effects -/

namespace World.Balanced

/-- Something is taken. -/
theorem take (h : w.Balanced id H) {hold : Holding} (htr : w'.trace = ⟨w.now, r⟩ :: w.trace)
    (ht : r.taken? = some hold.thing) (hr : r.returned? = none) :
    w'.Balanced id (hold ::ₘ H) := by
  refine h.entry htr ?_
  simp [ht, hr]

/-- Something is given back. -/
theorem give {hold : Holding} (h : w.Balanced id (hold ::ₘ H))
    (htr : w'.trace = ⟨w.now, r⟩ :: w.trace) (ht : r.taken? = none)
    (hr : r.returned? = some hold.thing) : w'.Balanced id H := by
  refine h.entry htr ?_
  simp [ht, hr]

theorem settlePermit {site : Site} {s : BreakerSettings} {p : Permit}
    (h : w.Balanced id (.permit site s p ::ₘ H)) (o : Outcome) :
    (w.settlePermit site s p o).Balanced id H := by
  have hnoted : (w.note (.gate site (.permitSettled p o))).Balanced id H :=
    h.give (World.note_trace _ _) rfl rfl
  exact hnoted.setBreaker _

end World.Balanced

theorem Asked.balanced {site : Site} {gate : LayerKind} {gain : Multiset Holding}
    (ha : Asked K site gate w w' gain) (h : w.Balanced id H) : w'.Balanced id (gain + H) := by
  cases ha with
  | grant _ _ _ hw =>
    obtain ⟨b, -, rfl⟩ := World.acquirePermit_ok hw
    exact (h.setBreaker b).take (World.note_trace _ _) rfl rfl
  | refuse _ _ _ hw =>
    obtain ⟨-, -, rfl⟩ := World.acquirePermit_error hw
    rw [zero_add]
    exact (h.setBreaker _).entry_other (World.emit_trace _ _ _) rfl rfl
  | occupy _ _ _ hw =>
    obtain ⟨-, rfl⟩ := takeSlot_ok site w hw
    exact h.take (World.emit_trace _ _ _) rfl rfl
  | crowd _ _ _ hw =>
    obtain ⟨-, -, rfl⟩ := takeSlot_error site w hw
    rw [zero_add]
    exact h.entry_other (World.emit_trace _ _ _) rfl rfl
  | spend _ _ _ hw =>
    obtain ⟨bucket, rfl⟩ := takeToken_eq site w hw
    rw [zero_add]
    exact h.entry_other (World.note_trace _ _) rfl rfl
  | limit _ _ _ hw =>
    obtain ⟨bucket, rfl⟩ := takeToken_eq site w hw
    rw [zero_add]
    exact h.entry_other (World.emit_trace _ _ _) rfl rfl

/-- **No effect upsets the balance.** -/
theorem Effect.balanced (he : Effect K x y) (h : x.world.Balanced id x.held) :
    y.world.Balanced id y.held := by
  cases he with
  | lapse w H _ => exact h
  | plain hw H R =>
    obtain ⟨es, htr, hes⟩ := hw.trace
    refine h.of_trace ⟨es, htr, fun e he => ?_⟩
    obtain ⟨ht, hr⟩ := Record.isPlain_unheld (hes e he)
    rw [ht, hr]
    exact ⟨nofun, nofun⟩
  | ask ha H R => exact ha.balanced h
  | settle w site s permit o H R => exact h.settlePermit o
  | invoke w call token actions H R => exact h.take (World.invoke_trace _ _ _ _) rfl rfl
  | finish w call k token e H R => exact h.give (World.note_trace _ _) rfl rfl
  | release w hold H R =>
    cases hold with
    | invocation call k token => exact h.give (World.note_trace _ _) rfl rfl
    | slot site => exact h.give (World.emit_trace _ _ _) rfl rfl
    | permit site s p => exact h.settlePermit .ignored

theorem Steps.balanced (hs : Steps K x y) (h : x.world.Balanced id x.held) :
    y.world.Balanced id y.held := by
  induction hs with
  | refl => exact h
  | tail _ e ih => exact e.balanced ih

/-! ### Calls -/

mutual

theorem Action.exists_known (a : Action) : ∃ K, a.Known K := by
  cases a with
  | call policy script =>
    obtain ⟨K, hK⟩ := exists_scriptKnown script
    exact ⟨policy :: K, List.mem_cons_self, scriptKnown_mono (List.subset_cons_self _ _) hK⟩
  | _ => exact ⟨[], trivial⟩

theorem exists_actionsKnown (actions : List Action) : ∃ K, actionsKnown K actions := by
  cases actions with
  | nil => exact ⟨[], trivial⟩
  | cons a rest =>
    obtain ⟨K, hK⟩ := a.exists_known
    obtain ⟨K', hK'⟩ := exists_actionsKnown rest
    exact ⟨K ++ K', hK.mono (List.subset_append_left _ _),
      actionsKnown_mono (List.subset_append_right _ _) hK'⟩

theorem exists_scriptKnown (script : List (List Action)) : ∃ K, scriptKnown K script := by
  cases script with
  | nil => exact ⟨[], trivial⟩
  | cons actions rest =>
    obtain ⟨K, hK⟩ := exists_actionsKnown actions
    obtain ⟨K', hK'⟩ := exists_scriptKnown rest
    exact ⟨K ++ K', actionsKnown_mono (List.subset_append_left _ _) hK,
      scriptKnown_mono (List.subset_append_right _ _) hK'⟩

end

/-- What is held when an activity is where the status says. -/
def Activity.heldIn {ι ο : Type} (a : Activity ι ο) : Status a.State ο → Multiset Holding
  | .pending s => a.holdings s
  | .done _ => 0
  | .panicked _ => 0

/-- **A call holds what was taken on its behalf** and not given back; if it has ended,
everything was given back. -/
theorem Policy.balanced (p : Policy) (script : Script)
    {out : Status (p.call id (script.operation id)).State Result × World}
    (hw₀ : w₀.Awaits id t) (hl : (p.call id (script.operation id)).Lives id timely t w₀ out) :
    out.2.Balanced id ((p.call id (script.operation id)).heldIn out.1) := by
  obtain ⟨K, hK⟩ := exists_scriptKnown script
  have hknown : scriptKnown (p :: K) script := scriptKnown_mono (List.subset_cons_self _ _) hK
  obtain ⟨rights, hlawful⟩ := Lawful.call List.mem_cons_self (Script.lawful id hknown)
  -- every poll is a chain of steps, each of which keeps takings and returns in balance
  have hleads : ∀ {x : Scene} {out : Status (p.call id (script.operation id)).State Result × World},
      x.world.Balanced id x.held →
      Leads (p :: K) x (p.call id (script.operation id)).holdings rights out →
      out.2.Balanced id ((p.call id (script.operation id)).heldIn out.1) := by
    rintro x ⟨s | r | y, w⟩ hx hout
    · exact Steps.balanced hout hx
    · exact Steps.balanced hout hx
    · exact Steps.balanced hout hx
  induction hl with
  | start =>
    refine hleads ?_ (hlawful.start t w₀)
    intro x hx
    -- before the call starts nothing of its family is in the trace
    have hnone : ∀ e ∈ w₀.trace, e.record.taken? ≠ some x ∧ e.record.returned? ≠ some x := by
      refine fun e he => ⟨fun heq => hw₀.trace e he ?_, fun heq => hw₀.trace e he ?_⟩
      · exact Record.call_of_taken? heq ▸ hx
      · exact Record.call_of_returned? heq ▸ hx
    have htaken : x ∉ w₀.taken := fun hmem => by
      obtain ⟨e, he, heq⟩ := List.mem_filterMap.mp hmem
      exact (hnone e he).1 heq
    have hreturned : x ∉ w₀.returned := fun hmem => by
      obtain ⟨e, he, heq⟩ := List.mem_filterMap.mp hmem
      exact (hnone e he).2 heq
    rw [List.count_eq_zero.mpr htaken, List.count_eq_zero.mpr hreturned]
    rfl
  | wait _ hw _ ih =>
    -- what others do meanwhile is recorded for other calls
    obtain ⟨es, htr, hes⟩ := hw.trace
    refine ih.of_trace ⟨es, htr, fun e he => ⟨fun x heq hx => ?_, fun x heq hx => ?_⟩⟩
    · exact hes e he (Record.call_of_taken? heq ▸ hx)
    · exact hes e he (Record.call_of_returned? heq ▸ hx)
  | resume _ ih => exact hleads ih (hlawful.resume _ _)

/-! ### Who holds what -/

/-- What may be given back on behalf of a call belongs to it, or to a call inside it. -/
theorem Scope.Holds.within {hold : Holding} {kinds : List LayerKind}
    (h : (Scope.ofCall id kinds t).Holds hold) : id.Within hold.thing.call := by
  have hrecords : ∀ {r : Record}, (Scope.ofCall id kinds t).Records r → id.Within r.call := by
    intro r hr
    by_cases hcall : r.call = id
    · exact hcall ▸ .self
    · obtain ⟨u, hu⟩ := hr.inner hcall
      exact hu.within
  cases hold with
  | invocation call k u => exact hrecords (h false)
  | slot σ => exact hrecords h
  | permit σ s p => exact hrecords (h.1 .ignored)

/-- Whatever is held is held by a call from outside that it belongs to. -/
theorem Simulation.Reachable.within_of_mem_held {chance : Chance} {S : Simulation}
    {hold : Holding} (h : S.Reachable chance) (hmem : hold ∈ S.held) :
    ∃ r ∈ S.running, r.call.id.Within hold.thing.call := by
  obtain ⟨hs, hhs, hmem⟩ := Multiset.mem_join.mp hmem
  obtain ⟨r, hr, rfl⟩ := Multiset.mem_map.mp hhs
  obtain ⟨w₀, hawaits, hlives⟩ := h.reaches.orderly.lives r hr
  obtain ⟨keeps, hd⟩ := r.call.policy.docile r.call.id r.call.script
  exact ⟨r, hr, (hd.holdings (hd.lives hawaits.ready hlives).2 hold hmem).within⟩

end CallPolicy
