/-
A bulkhead loses no slot and makes none up.

* **`bulkhead_conservation`** — in every run, however calls end, the slots in flight are
  the unfinished calls through the policy. Each of them was taken once and is given
  back once, and a call is turned away iff all slots are in flight.
-/
import CallPolicy.Proofs.Unfinished
import CallPolicy.Proofs.Slots
import CallPolicy.Report

namespace CallPolicy

open Operation

variable {chance : Chance} {K : List Policy} {N : List String} {x : Scene} {S : Simulation}
  {p : Policy} {capacity : Nat} {site σ : Site} {w : World} {tr : List Entry} {ev : Event}

theorem count_slotsOf (H : Multiset Holding) : (slotsOf H).count σ = H.count (.slot σ) := by
  induction H using Multiset.induction with
  | empty => rfl
  | cons h H ih =>
    by_cases hslot : h = .slot σ
    · rw [hslot, slotsOf_cons_slot, Multiset.count_cons_self, Multiset.count_cons_self, ih]
    · rw [Multiset.count_cons_of_ne fun hs => hslot hs.symm, ← ih]
      cases h with
      | slot site =>
        have hne : σ ≠ site := by
          rintro rfl
          exact hslot rfl
        rw [slotsOf_cons_slot, Multiset.count_cons_of_ne hne]
      | _ => rw [slotsOf_cons_of_none H rfl]

namespace Trace

/-- A slot that is taken was asked for. -/
theorem count_taken_le_asks : (sites .slotTaken tr).count site ≤ asks site .bulkhead tr := by
  rw [sites, Multiset.coe_count, List.count_filterMap, asks]
  refine List.countP_mono_left fun e _ he => ?_
  unfold Entry.site? at he
  unfold Entry.asked?
  split at he
  next σ ev hr =>
    rw [hr]
    by_cases hev : ev = .slotTaken
    · rw [if_pos hev] at he
      obtain rfl : σ = site := by simpa using he
      simp [hev]
    · rw [if_neg hev] at he
      cases he
  next => cases he

end Trace

/-- No call takes a slot of a bulkhead twice. -/
theorem Moment.count_taken_le (h : Moment chance K N x) (site : Site) :
    (Trace.sites .slotTaken x.world.trace).count site ≤ 1 :=
  Trace.count_taken_le_asks.trans ((Nat.le_add_right _ _).trans (h.once site .bulkhead).1)

/-- The slots of a policy that are held are those of its unfinished calls. -/
theorem Simulation.Reachable.slots_eq (h : S.Reachable chance) (hp : p ∈ S.policies)
    (hl : .bulkhead capacity ∈ p.layers) (hsite : site.origin = p.origin) :
    (slotsOf S.held).count site = S.unfinished.count site := by
  obtain ⟨R, hm⟩ := h.moment
  have hK : Bulkheaded S.policies site := by
    intro q hq horigin
    have hkey : q.origin.key = p.origin.key := by rw [horigin, hsite]
    obtain rfl := hm.eq_of_key_eq hq hp hkey
    exact ⟨capacity, hl⟩
  rw [count_slotsOf]
  exact h.known.count_held hK

/-- A call has taken as many slots as it has given back, and one more if it is unfinished,
but no more than one in all. -/
theorem Simulation.Reachable.count_taken (h : S.Reachable chance) (hp : p ∈ S.policies)
    (hl : .bulkhead capacity ∈ p.layers) (hsite : site.origin = p.origin) :
    (Trace.sites .slotTaken S.world.trace).count site =
      (Trace.sites .slotReleased S.world.trace).count site + S.unfinished.count site ∧
    (Trace.sites .slotTaken S.world.trace).count site ≤ 1 := by
  obtain ⟨R, hm⟩ := h.moment
  refine ⟨?_, hm.count_taken_le site⟩
  rw [← h.slots_eq hp hl hsite, ← Multiset.count_add]
  exact congrArg (Multiset.count site) hm.housed.balance

/-- The policy that decides on behalf of a call is the one that the call goes through. -/
theorem Moment.decided (h : Moment chance K N x) (hp : p ∈ K) (hl : .bulkhead capacity ∈ p.layers)
    (hsite : site.origin = p.origin) {fits : Nat → Nat → Prop} (hd : Decided K site tr fits) :
    ∃ n, Trace.InFlight p.origin.key tr n ∧ fits n capacity := by
  obtain ⟨q, hq, hqsite, capacity', hl', n, hn, hfits⟩ := hd
  have hkey : q.origin.key = p.origin.key := by rw [← hqsite, hsite]
  obtain rfl := h.eq_of_key_eq hq hp hkey
  obtain rfl : capacity' = capacity := Layer.bulkhead.inj (q.eq_of_kind_eq hl' hl rfl)
  exact ⟨n, hn, hfits⟩

/-- A bulkhead counts the unfinished calls through its policy. -/
theorem Simulation.Reachable.occupied_eq (h : S.Reachable chance) (hp : p ∈ S.policies)
    (hl : .bulkhead capacity ∈ p.layers) : (S.world.gates p.origin.key).occupied =
      S.unfinished.countP (·.origin = p.origin) := by
  obtain ⟨R, hm⟩ := h.moment
  have hheld := hm.housed
  have hown : (slotsOf S.held).countP (·.origin.key = p.origin.key) =
      (slotsOf S.held).countP (·.origin = p.origin) := by
    refine Multiset.countP_congr rfl fun σ hσ => ?_
    obtain ⟨q, hq, hsite⟩ := hheld.known σ hσ
    rw [hsite]
    refine propext ⟨fun hkey => ?_, fun horigin => by rw [horigin]⟩
    rw [hm.eq_of_key_eq hq hp hkey]
  -- call by call, the slots held and the unfinished calls are the same
  have hsame : (slotsOf S.held).filter (·.origin = p.origin) =
      (S.unfinished : Multiset Site).filter (·.origin = p.origin) := by
    ext σ
    rw [Multiset.count_filter, Multiset.count_filter]
    by_cases hsite : σ.origin = p.origin
    · rw [if_pos hsite, if_pos hsite, h.slots_eq hp hl hsite, Multiset.coe_count]
    · rw [if_neg hsite, if_neg hsite]
  refine (hheld.occupied p.origin.key).trans (hown.trans ?_)
  rw [Multiset.countP_eq_card_filter, hsame, ← Multiset.countP_eq_card_filter, Multiset.coe_countP]

/-- **Bulkhead conservation**: in every state that a run comes to, the slots in flight
are the unfinished calls through the policy, and those that were taken and not given
back. An unfinished call has taken its slot and kept it, and any other has given back
what it took. Each slot was taken while there was one left, and each call turned away
while there was none. At every moment, a call that finds all slots in flight is told so
and what is behind the bulkhead does not start; otherwise that starts at once. -/
theorem bulkhead_conservation (h : S.Reachable chance) (hp : p ∈ S.policies)
    (hl : .bulkhead capacity ∈ p.layers) :
    let inFlight := fun w : World => (w.gates p.origin.key).occupied
    let taken := Trace.sites .slotTaken S.world.trace
    let released := Trace.sites .slotReleased S.world.trace
    ((p.state S.world).inFlight = some (inFlight S.world) ∧
      inFlight S.world = S.unfinished.countP (·.origin = p.origin) ∧
      Trace.InFlight p.origin.key S.world.trace (inFlight S.world) ∧
      inFlight S.world ≤ capacity) ∧
    (∀ site : Site, site.origin = p.origin →
      (site ∈ S.unfinished → taken.count site = 1 ∧ released.count site = 0) ∧
      (site ∉ S.unfinished → released.count site = taken.count site ∧ taken.count site ≤ 1)) ∧
    (S.running = [] → inFlight S.world = 0) ∧
    (∀ later e earlier, S.world.trace = later ++ e :: earlier →
      ∀ site : Site, site.origin = p.origin →
        (e.site? .slotTaken = some site →
          ∃ n < capacity, Trace.InFlight p.origin.key earlier n) ∧
        (e.site? .bulkheadFull = some site → Trace.InFlight p.origin.key earlier capacity)) ∧
    (∀ N x, Moment chance S.policies N x → ∀ id op t,
      let w := x.world
      let site : Site := ⟨p.origin, id⟩
      let start := (behindBulkhead site capacity op).start t w
      inFlight w ≤ capacity ∧ Trace.InFlight p.origin.key w.trace (inFlight w) ∧
      (inFlight w = capacity →
        start = (.done (.error .bulkheadFull), w.emit site .bulkheadFull)) ∧
      (inFlight w ≠ capacity → ∃ w', takeSlot site capacity w = (.ok (), w') ∧ w'.now = w.now ∧
        start = Activity.holding.keep (fun _ => .slot site) (fun _ _ w => w.release (.slot site)) op
          () (op.start t w'))) := by
  intro inFlight taken released
  obtain ⟨R, hm⟩ := h.moment
  -- the slots that are held are those of the unfinished calls
  have hheld := hm.housed
  have hunfinished := h.occupied_eq hp hl
  refine ⟨⟨?_, hunfinished, hheld.inFlight _, hheld.limit p hp hl⟩, ?_, ?_, ?_, ?_⟩
  · have hhas : p.has .bulkhead = true := by
      rw [Policy.has, List.contains_iff_mem]
      exact List.mem_map_of_mem hl
    exact if_pos hhas
  · intro site hsite
    -- a slot is taken once at most, and given back unless the call is unfinished
    obtain ⟨hbalance, hone⟩ : taken.count site =
        released.count site + S.unfinished.count site ∧ taken.count site ≤ 1 :=
      h.count_taken hp hl hsite
    constructor
    · intro hmem
      have hpos : 0 < S.unfinished.count site := List.count_pos_iff.mpr hmem
      omega
    · intro hmem
      have hzero : S.unfinished.count site = 0 := List.count_eq_zero.mpr hmem
      omega
  · intro hrunning
    show (S.world.gates p.origin.key).occupied = 0
    rw [hunfinished, Simulation.unfinished, hrunning]
    rfl
  · intro later e earlier htr site hsite
    -- the decision was taken on what the trace said at the time
    have hsplit : Fair S.policies (later ++ e :: earlier) := htr ▸ hheld.fair
    obtain ⟨htaken, hfull, -⟩ := hsplit.of_append
    constructor
    · intro he
      obtain ⟨n, hn, hlt⟩ := hm.decided hp hl hsite (htaken site he)
      exact ⟨n, hlt, hn⟩
    · intro he
      obtain ⟨n, hn, rfl⟩ := hm.decided hp hl hsite (hfull site he)
      exact hn
  -- the same holds at every moment inside a move, where a call may arrive
  · intro N x hx id op t w site start
    have hlimit : inFlight w ≤ capacity := hx.housed.limit p hp hl
    refine ⟨hlimit, hx.housed.inFlight _, fun hfull => ?_, fun hleft => ?_⟩
    · exact Activity.holding_start_error (takeSlot_of_le site w hfull.ge)
    · have hlt : (w.gatesOf site).occupied < capacity := Nat.lt_of_le_of_ne hlimit hleft
      have htake := takeSlot_of_lt site w hlt
      refine ⟨_, htake, ?_, Activity.holding_start_ok htake⟩
      rw [World.emit_now, World.modifyGates_now]

/-! ### A run with a call that hangs -/

/-- A policy with a single slot. -/
def narrow : Policy where
  origin := ⟨0, "p", .none⟩
  layers := [.bulkhead 1]
  criticality := .critical
  dependencies := []
  ordered := List.pairwise_singleton _ _
  faultless l hl := by
    obtain rfl := List.mem_singleton.mp hl
    decide

/-- The policy has been built. -/
def furnished : Simulation := ((Simulation.start fun _ => 0).build "p" [.bulkhead 1]).2

/-- A call that hangs has been started, and another one. -/
def crowded : Simulation :=
  let request : Request := ⟨"c", narrow, [[.hang]], "t"⟩
  (furnished.launch request).launch request

theorem reachable_crowded : crowded.Reachable .plain := by
  have hp : narrow ∈ furnished.policies := List.mem_singleton_self _
  have hs : scriptKnown furnished.policies [[.hang]] := ⟨⟨trivial, trivial⟩, trivial⟩
  have h : furnished.Reachable .plain := .single (.build _ "p" [.bulkhead 1])
  have h₁ := h.tail (.start furnished ⟨"c", narrow, [[.hang]], "t"⟩ hp hs)
  exact h₁.tail (.start _ ⟨"c", narrow, [[.hang]], "t"⟩ hp hs)

/-- The second call has been turned away. -/
theorem bulkhead_conservation_crowded :
    let first : Site := ⟨narrow.origin, .top "c" 0⟩
    let second : Site := ⟨narrow.origin, .top "c" 1⟩
    narrow ∈ crowded.policies ∧ .bulkhead 1 ∈ narrow.layers ∧ crowded.unfinished = [first] ∧
    (narrow.state crowded.world).inFlight = some 1 ∧
    (Trace.sites .slotReleased crowded.world.trace).count first = 0 ∧
    (Trace.sites .bulkheadFull crowded.world.trace).count second = 1 := by
  intro first second
  have hp : narrow ∈ crowded.policies := List.mem_singleton_self _
  have hl : .bulkhead 1 ∈ narrow.layers := List.mem_singleton_self _
  have hunfinished : crowded.unfinished = [first] := rfl
  obtain ⟨⟨hstate, hcount, -⟩, hsites, -⟩ := bulkhead_conservation reachable_crowded hp hl
  refine ⟨hp, hl, hunfinished, ?_, ?_, by decide⟩
  · rw [hstate, hcount, hunfinished]
    rfl
  · exact ((hsites first rfl).1 (hunfinished ▸ List.mem_singleton_self _)).2

end CallPolicy
