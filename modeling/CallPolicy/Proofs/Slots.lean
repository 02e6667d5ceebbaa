/-
The slots of bulkheads are neither lost nor made up.

Which slots were taken and given back is in the trace (`Trace.sites`). At every moment
of a run, the slots that were taken are those that were given back and those that are
held, and a bulkhead counts the latter (`SlotScene.Housed`).

* **`Effect.slots`** — an effect takes a slot, finds none, gives one back, or has
  nothing to do with bulkheads;
* **`Moment.housed`** — the slots are accounted for at every moment, however calls end.
-/
import CallPolicy.Proofs.Usage

namespace CallPolicy

open Operation

/-- The slot that is held, if one is. -/
def Holding.slot? : Holding → Option Site
  | .slot site => some site
  | _ => none

/-- The slots that are held, by the calls on whose behalf they are. -/
def slotsOf (H : Multiset Holding) : Multiset Site := H.filterMap Holding.slot?

/-- The call that an entry is about, if it tells of an event. -/
def Entry.site? (ev : Event) (e : Entry) : Option Site :=
  match e.record with
  | .event site ev' => if ev' = ev then some site else none
  | _ => none

/-- Is the event about a slot? -/
def Event.isSlot : Event → Bool
  | .slotTaken => true
  | .slotReleased => true
  | .bulkheadFull => true
  | _ => false

/-- Does the entry tell of a slot? -/
def Entry.isSlot (e : Entry) : Bool :=
  match e.record with
  | .event _ ev => ev.isSlot
  | _ => false

namespace Trace

/-- The calls for which an event was told of, each as often as it was. -/
def sites (ev : Event) (tr : List Entry) : Multiset Site := tr.filterMap (Entry.site? ev)

/-- As many slots of a policy were taken as were given back and `n` more. -/
def InFlight (key : Nat) (tr : List Entry) (n : Nat) : Prop :=
  (sites .slotTaken tr).countP (·.origin.key = key) =
    (sites .slotReleased tr).countP (·.origin.key = key) + n

end Trace

/-- A bulkhead among those of the policies `K` decides on behalf of a call, with a
number of slots in flight. -/
def Decided (K : List Policy) (site : Site) (tr : List Entry) (fits : Nat → Nat → Prop) : Prop :=
  ∃ p ∈ K, site.origin = p.origin ∧ ∃ capacity, .bulkhead capacity ∈ p.layers ∧
    ∃ n, Trace.InFlight p.origin.key tr n ∧ fits n capacity

/-- Each slot was taken while there was one left, and each call turned away while
there was none. -/
def Fair (K : List Policy) : List Entry → Prop
  | [] => True
  | e :: tr =>
    (∀ site, e.site? .slotTaken = some site → Decided K site tr (· < ·)) ∧
    (∀ site, e.site? .bulkheadFull = some site → Decided K site tr (· = ·)) ∧ Fair K tr

/-- A world, and the slots that are held in it. -/
structure SlotScene where
  world : World
  taken : Multiset Site

/-- The slots in a scene. -/
def Scene.slots (x : Scene) : SlotScene := ⟨x.world, slotsOf x.held⟩

/-- Something has happened that has nothing to do with bulkheads. -/
def World.KeepsSlots (w w' : World) : Prop :=
  w.Keeps (fun gates key => (gates key).occupied) Entry.isSlot w'

/-- What can happen to the bulkheads of the policies `K`. -/
inductive SlotMove (K : List Policy) : SlotScene → SlotScene → Prop
  /-- A slot is taken. -/
  | take {p : Policy} (hp : p ∈ K) {site : Site} (hsite : site.origin = p.origin) {capacity : Nat}
      (hl : .bulkhead capacity ∈ p.layers) {w w' : World}
      (h : takeSlot site capacity w = (.ok (), w')) (T : Multiset Site) :
      SlotMove K ⟨w, T⟩ ⟨w', site ::ₘ T⟩
  /-- There is no slot left. -/
  | crowd {p : Policy} (hp : p ∈ K) {site : Site} (hsite : site.origin = p.origin) {capacity : Nat}
      (hl : .bulkhead capacity ∈ p.layers) {w w' : World} {r : Result}
      (h : takeSlot site capacity w = (.error r, w')) (T : Multiset Site) :
      SlotMove K ⟨w, T⟩ ⟨w', T⟩
  /-- A slot is given back. -/
  | give (w : World) (site : Site) (T : Multiset Site) :
      SlotMove K ⟨w, site ::ₘ T⟩ ⟨w.release (.slot site), T⟩
  /-- Something else happens. -/
  | elsewhere {w w' : World} (h : w.KeepsSlots w') (T : Multiset Site) : SlotMove K ⟨w, T⟩ ⟨w', T⟩

/-- The slots that are held are accounted for. -/
structure SlotScene.Housed (K : List Policy) (x : SlotScene) : Prop where
  balance : Trace.sites .slotTaken x.world.trace =
    Trace.sites .slotReleased x.world.trace + x.taken
  occupied : ∀ key, (x.world.gates key).occupied = x.taken.countP (·.origin.key = key)
  known : ∀ site ∈ x.taken, ∃ p ∈ K, site.origin = p.origin
  limit : ∀ p ∈ K, ∀ {capacity}, .bulkhead capacity ∈ p.layers →
    (x.world.gates p.origin.key).occupied ≤ capacity
  fair : Fair K x.world.trace

variable {K K' : List Policy} {N : List String} {chance : Chance} {site : Site} {w w' : World}
  {x y : Scene} {e : Entry} {es tr : List Entry} {ev : Event} {T : Multiset Site} {key n : Nat}

/-! ### What the trace tells of slots -/

theorem Entry.site?_of_not_isSlot (hev : ev.isSlot = true) (h : e.isSlot = false) :
    e.site? ev = none := by
  unfold isSlot at h
  unfold site?
  split
  next site ev' hr =>
    rw [hr] at h
    rw [if_neg]
    rintro rfl
    cases hev.symm.trans h
  next => rfl

namespace Trace

theorem sites_cons : sites ev (e :: tr) = ((e.site? ev).toList : List Site) + sites ev tr := by
  rw [sites, List.filterMap_cons]
  cases e.site? ev <;> rfl

theorem sites_append (hev : ev.isSlot = true) (h : ∀ e ∈ es, e.isSlot = false) :
    sites ev (es ++ tr) = sites ev tr := by
  have hnil : es.filterMap (Entry.site? ev) = [] :=
    List.filterMap_eq_nil_iff.mpr fun e he => Entry.site?_of_not_isSlot hev (h e he)
  rw [sites, List.filterMap_append, hnil]
  rfl

end Trace

theorem Decided.mono {fits : Nat → Nat → Prop} (h : Decided K site tr fits) (hK : K ⊆ K') :
    Decided K' site tr fits := by
  obtain ⟨p, hp, hdecided⟩ := h
  exact ⟨p, hK hp, hdecided⟩

namespace Fair

theorem mono (h : Fair K tr) (hK : K ⊆ K') : Fair K' tr := by
  induction tr with
  | nil => trivial
  | cons e tr ih =>
    obtain ⟨htaken, hfull, htr⟩ := h
    refine ⟨?_, ?_, ih htr⟩
    · exact fun site hsite => (htaken site hsite).mono hK
    · exact fun site hsite => (hfull site hsite).mono hK

/-- Entries that do not tell of slots do not matter. -/
theorem append (h : Fair K tr) (hes : ∀ e ∈ es, e.isSlot = false) : Fair K (es ++ tr) := by
  induction es with
  | nil => exact h
  | cons e es ih =>
    have hnone : ∀ {ev : Event}, ev.isSlot = true → e.site? ev = none :=
      fun hev => Entry.site?_of_not_isSlot hev (hes e List.mem_cons_self)
    refine ⟨?_, ?_, ih fun e' he' => hes e' (List.mem_cons_of_mem _ he')⟩
    · intro site hsite
      rw [hnone rfl] at hsite
      cases hsite
    · intro site hsite
      rw [hnone rfl] at hsite
      cases hsite

/-- Each decision was taken on the number of slots in flight at the time. -/
theorem of_append (h : Fair K (es ++ e :: tr)) : Fair K (e :: tr) := by
  induction es with
  | nil => exact h
  | cons e' es ih => exact ih h.2.2

end Fair

/-! ### What is nothing to bulkheads -/

theorem Event.isSlot_news (st : BreakerState) : st.news.isSlot = false := by
  cases st <;> rfl

theorem Entry.isSlot_of_isPlain (h : e.record.isPlain = true) : e.isSlot = false := by
  obtain ⟨now, r⟩ := e
  cases r with
  | event site ev => cases ev <;> simp_all [Record.isPlain, Event.isPlain, isSlot, Event.isSlot]
  | gate site step => cases h
  | _ => rfl

namespace World.KeepsSlots

theorem occupied (h : w.KeepsSlots w') (key : Nat) :
    (w'.gates key).occupied = (w.gates key).occupied := congrFun h.view key

theorem plain (h : w.Plain w') : w.KeepsSlots w' := h.keeps fun _ => Entry.isSlot_of_isPlain

/-- Other parts of the gates change. -/
theorem modifyGates (w : World) (k : Nat) (f : Gates → Gates)
    (h : (f (w.gates k)).occupied = (w.gates k).occupied) : w.KeepsSlots (w.modifyGates k f) := by
  refine Keeps.modifyGates w k f ?_
  funext key
  by_cases hk : key = k
  · rw [hk, assign_self, h]
  · rw [assign_of_ne hk]

theorem setBreaker (w : World) (site : Site) (b : Breaker) :
    w.KeepsSlots (w.setBreaker site b) := by
  refine Keeps.setBreaker w site b ?_ (Event.isSlot_news b.state)
  funext key
  by_cases hk : key = site.origin.key
  · rw [hk, assign_self]
    rfl
  · rw [assign_of_ne hk]

theorem settlePermit (w : World) (site : Site) (s : BreakerSettings) (p : Permit) (o : Outcome) :
    w.KeepsSlots (w.settlePermit site s p o) := (Keeps.note w _ rfl).trans (setBreaker _ site _)

end World.KeepsSlots

/-! ### Effects are moves -/

theorem slotsOf_cons_slot (site : Site) (H : Multiset Holding) :
    slotsOf (.slot site ::ₘ H) = site ::ₘ slotsOf H := Multiset.filterMap_cons_some _ _ _ rfl

theorem slotsOf_cons_of_none {h : Holding} (H : Multiset Holding) (hh : h.slot? = none) :
    slotsOf (h ::ₘ H) = slotsOf H := Multiset.filterMap_cons_none _ _ hh

/-- Asking a gate is a move of the bulkheads. -/
theorem Asked.slots {gate : LayerKind} {gain : Multiset Holding} (h : Asked K site gate w w' gain)
    (H : Multiset Holding) : SlotMove K ⟨w, slotsOf H⟩ ⟨w', slotsOf (gain + H)⟩ := by
  cases h with
  | grant hp hsite hl h =>
    obtain ⟨b, -, rfl⟩ := World.acquirePermit_ok h
    rw [Multiset.singleton_add, slotsOf_cons_of_none H rfl]
    exact .elsewhere ((World.KeepsSlots.setBreaker w site b).trans (.note _ _ rfl)) _
  | refuse hp hsite hl h =>
    obtain ⟨-, -, rfl⟩ := World.acquirePermit_error h
    rw [zero_add]
    exact .elsewhere ((World.KeepsSlots.setBreaker w site _).trans
      (.emit _ site .circuitRefused rfl)) _
  | occupy hp hsite hl h =>
    rw [Multiset.singleton_add, slotsOf_cons_slot]
    exact .take hp hsite hl h _
  | crowd hp hsite hl h =>
    rw [zero_add]
    exact .crowd hp hsite hl h _
  | spend hp hsite hl h =>
    obtain ⟨bucket, rfl⟩ := takeToken_eq site w h
    rw [zero_add]
    exact .elsewhere ((World.KeepsSlots.modifyGates w _ _ rfl).trans (.note _ _ rfl)) _
  | limit hp hsite hl h =>
    obtain ⟨bucket, rfl⟩ := takeToken_eq site w h
    rw [zero_add]
    exact .elsewhere ((World.KeepsSlots.modifyGates w _ _ rfl).trans
      (.emit _ site .rateLimited rfl)) _

/-- **An effect is a move** of the bulkheads. -/
theorem Effect.slots (e : Effect K x y) : SlotMove K x.slots y.slots := by
  -- all steps but two are elsewhere: they neither hold a slot nor count one
  cases e with
  | lapse w H hR => exact .elsewhere (.refl w) _
  | plain hw H R => exact .elsewhere (.plain hw) _
  | ask hw H R => exact hw.slots H
  | settle w site s permit o H R =>
    rw [Scene.slots, slotsOf_cons_of_none H rfl]
    exact .elsewhere (.settlePermit w site s permit o) _
  | invoke w call token actions H R =>
    rw [Scene.slots, Scene.slots, slotsOf_cons_of_none H rfl]
    have hkeeps : w.KeepsSlots (w.invoke call (w.invoked call).length token) :=
      .entry rfl rfl (w.invoke_trace call _ token) rfl
    exact .elsewhere hkeeps _
  | finish w call k token e H R =>
    rw [Scene.slots, slotsOf_cons_of_none H rfl]
    exact .elsewhere (.note w (.finished call k e) rfl) _
  | release w h H R =>
    rw [Scene.slots]
    cases h with
    | invocation call k token =>
      rw [slotsOf_cons_of_none H rfl]
      exact .elsewhere (.note w (.abandoned call k _) rfl) _
    | slot site =>
      rw [slotsOf_cons_slot]
      exact .give w site _
    | permit site s p =>
      rw [slotsOf_cons_of_none H rfl]
      exact .elsewhere (.settlePermit w site s p .ignored) _

/-! ### The slots are accounted for -/

/-- The slots that are counted after the gates of a policy have changed. -/
theorem World.occupied_modifyGates (w : World) (k : Nat) (f : Gates → Gates) (key : Nat) :
    ((w.modifyGates k f).gates key).occupied =
      if key = k then (f (w.gates k)).occupied else (w.gates key).occupied := by
  rw [modifyGates_gates]
  split
  next h => rw [h, assign_self]
  next h => rw [assign_of_ne h]

theorem Trace.sites_event (now : Nat) (site : Site) (ev' : Event) :
    sites ev (⟨now, .event site ev'⟩ :: tr) =
      if ev' = ev then site ::ₘ sites ev tr else sites ev tr := by
  by_cases hev : ev' = ev
  · have hsite : Entry.site? ev ⟨now, .event site ev'⟩ = some site := if_pos hev
    rw [if_pos hev, sites_cons, hsite]
    exact Multiset.singleton_add site _
  · have hsite : Entry.site? ev ⟨now, .event site ev'⟩ = none := if_neg hev
    rw [if_neg hev, sites_cons, hsite]
    exact zero_add _

namespace SlotScene.Housed

variable {x : SlotScene} {p : Policy} {capacity : Nat}

/-- By the trace, as many slots of a policy are in flight as its bulkhead counts. -/
theorem inFlight (h : x.Housed K) (key : Nat) :
    Trace.InFlight key x.world.trace (x.world.gates key).occupied := by
  rw [Trace.InFlight, h.balance, Multiset.countP_add, h.occupied]

theorem start (chance : Chance) : Housed K ⟨.start chance, 0⟩ :=
  ⟨rfl, fun _ => rfl, nofun, fun _ _ => fun _ => Nat.zero_le _, trivial⟩

theorem elsewhere (h : Housed K ⟨w, T⟩) (hw : w.KeepsSlots w') : Housed K ⟨w', T⟩ := by
  obtain ⟨es, htr, hes⟩ := hw.trace
  refine ⟨?_, fun key => ?_, h.known, fun p hp => fun hl => ?_, ?_⟩
  · rw [htr, Trace.sites_append rfl hes, Trace.sites_append rfl hes]
    exact h.balance
  · rw [hw.occupied]
    exact h.occupied key
  · rw [hw.occupied]
    exact h.limit p hp hl
  · rw [htr]
    exact h.fair.append hes

/-- A slot is taken while there is one left. -/
theorem take (h : Housed K ⟨w, T⟩) (hkeys : ∀ p ∈ K, ∀ q ∈ K, p.origin.key = q.origin.key → p = q)
    (hp : p ∈ K) (hsite : site.origin = p.origin) (hl : .bulkhead capacity ∈ p.layers)
    (hw : takeSlot site capacity w = (.ok (), w')) : Housed K ⟨w', site ::ₘ T⟩ := by
  obtain ⟨hlt, rfl⟩ := takeSlot_ok site w hw
  have hlt : (w.gates p.origin.key).occupied < capacity := hsite ▸ hlt
  constructor
  · rw [World.emit_trace, Trace.sites_event, Trace.sites_event, if_pos rfl, if_neg (by decide)]
    show site ::ₘ Trace.sites .slotTaken w.trace = Trace.sites .slotReleased w.trace + site ::ₘ T
    rw [h.balance, Multiset.add_cons]
  · intro key
    rw [World.emit_gates, World.occupied_modifyGates, Multiset.countP_cons]
    have hkey := h.occupied key
    dsimp only at hkey ⊢
    by_cases hk : key = site.origin.key
    · rw [if_pos hk, if_pos hk.symm, ← hk, hkey]
    · rw [if_neg hk, if_neg fun hk' => hk hk'.symm, hkey, Nat.add_zero]
  · intro σ hσ
    rcases Multiset.mem_cons.mp hσ with rfl | hσ
    · exact ⟨p, hp, hsite⟩
    · exact h.known σ hσ
  · intro q hq capacity' hl'
    rw [World.emit_gates, World.occupied_modifyGates, hsite]
    split
    next hk =>
      -- policies are told apart by their keys, so this is the bulkhead that was asked
      obtain rfl := hkeys q hq p hp hk
      obtain rfl : capacity' = capacity := Layer.bulkhead.inj (q.eq_of_kind_eq hl' hl rfl)
      exact hlt
    next => exact h.limit q hq hl'
  · rw [World.emit_trace]
    refine ⟨fun σ hσ => ?_, nofun, h.fair⟩
    obtain rfl : site = σ := Option.some.inj hσ
    exact ⟨p, hp, hsite, capacity, hl, _, h.inFlight _, hlt⟩

/-- A call is turned away while there is no slot left. -/
theorem crowd (h : Housed K ⟨w, T⟩) (hp : p ∈ K) (hsite : site.origin = p.origin)
    (hl : .bulkhead capacity ∈ p.layers) {r : Result}
    (hw : takeSlot site capacity w = (.error r, w')) : Housed K ⟨w', T⟩ := by
  obtain ⟨hle, -, rfl⟩ := takeSlot_error site w hw
  have hle : capacity ≤ (w.gates p.origin.key).occupied := hsite ▸ hle
  have hlimit := h.limit p hp hl
  constructor
  · rw [World.emit_trace, Trace.sites_event, Trace.sites_event, if_neg (by nofun),
      if_neg (by nofun)]
    exact h.balance
  · rw [World.emit_gates]
    exact h.occupied
  · exact h.known
  · rw [World.emit_gates]
    exact h.limit
  · rw [World.emit_trace]
    refine ⟨nofun, fun σ hσ => ?_, h.fair⟩
    obtain rfl : site = σ := Option.some.inj hσ
    exact ⟨p, hp, hsite, capacity, hl, _, h.inFlight _, Nat.le_antisymm hlimit hle⟩

/-- A slot is given back. -/
theorem give (h : Housed K ⟨w, site ::ₘ T⟩) : Housed K ⟨w.release (.slot site), T⟩ := by
  rw [World.release]
  constructor
  · rw [World.emit_trace, Trace.sites_event, Trace.sites_event, if_pos rfl, if_neg (by decide)]
    have hbalance := h.balance
    rw [Multiset.add_cons] at hbalance
    show Trace.sites .slotTaken w.trace = site ::ₘ Trace.sites .slotReleased w.trace + T
    rw [Multiset.cons_add]
    exact hbalance
  · intro key
    have hkey := h.occupied key
    rw [World.emit_gates, World.occupied_modifyGates]
    rw [Multiset.countP_cons] at hkey
    dsimp only at hkey ⊢
    -- only the bulkhead of this policy counts one less
    by_cases hk : key = site.origin.key
    · rw [if_pos hk.symm] at hkey
      rw [if_pos hk, ← hk, hkey, Nat.add_sub_cancel]
    · rw [if_neg fun hk' => hk hk'.symm, Nat.add_zero] at hkey
      rw [if_neg hk, hkey]
  · exact fun σ hσ => h.known σ (Multiset.mem_cons_of_mem hσ)
  · intro q hq capacity hl
    -- a count that falls stays below its capacity
    have hlimit := h.limit q hq hl
    rw [World.emit_gates, World.occupied_modifyGates]
    split
    next hk =>
      rw [← hk]
      exact (Nat.sub_le _ _).trans hlimit
    next => exact hlimit
  · rw [World.emit_trace]
    refine ⟨?_, ?_, h.fair⟩ <;> rintro _ ⟨⟩

theorem move {x y : SlotScene} (h : x.Housed K)
    (hkeys : ∀ p ∈ K, ∀ q ∈ K, p.origin.key = q.origin.key → p = q) (m : SlotMove K x y) :
    y.Housed K := by
  cases m with
  | take hp hsite hl hw T => exact h.take hkeys hp hsite hl hw
  | crowd hp hsite hl hw T => exact h.crowd hp hsite hl hw
  | give w site T => exact h.give
  | elsewhere hw T => exact h.elsewhere hw

/-- A new policy has a bulkhead without calls. -/
theorem build (h : Housed K ⟨w, T⟩) (hlt : ∀ q ∈ K, q.origin.key < K.length)
    (hp : p.origin.key = K.length) : Housed (K ++ [p]) ⟨p.install w, T⟩ := by
  -- the key is new, so no slot is held under it
  have hnone : T.countP (·.origin.key = p.origin.key) = 0 := by
    rw [Multiset.countP_eq_zero]
    intro σ hσ hk
    obtain ⟨q, hq, hsite⟩ := h.known σ hσ
    have := hlt q hq
    rw [← hsite, hk, hp] at this
    exact Nat.lt_irrefl _ this
  refine ⟨h.balance, fun key => ?_, fun σ hσ => ?_, fun q hq capacity hl => ?_,
    h.fair.mono (List.subset_append_left _ _)⟩
  · rw [Policy.install, World.occupied_modifyGates]
    split
    next hk =>
      rw [hk]
      exact hnone.symm
    next => exact h.occupied key
  · obtain ⟨q, hq, hsite⟩ := h.known σ hσ
    exact ⟨q, List.mem_append_left _ hq, hsite⟩
  · rw [Policy.install, World.occupied_modifyGates]
    split
    next => exact Nat.zero_le _
    next hk =>
      rcases List.mem_append.mp hq with hq | hq
      · exact h.limit q hq hl
      · rw [List.mem_singleton.mp hq] at hk
        exact absurd rfl hk

end SlotScene.Housed

/-- **The slots are accounted for** at every moment of a run. -/
theorem Moment.housed (h : Moment chance K N x) : x.slots.Housed K := by
  induction h with
  | start => exact .start chance
  | effect hx e ih => exact ih.move (fun p hp q hq => hx.eq_of_key_eq hp hq) e.slots
  | tick _ t ht ih => exact ih.elsewhere (.tick _ t ht)
  | build hx p hp ih => exact ih.build (fun q hq => hx.key_lt hq) hp
  | call _ _ _ ih => exact ih

end CallPolicy
