/-
The words that a call tells.

The events that a call tells hooks of, in order, make up a word (`heard`). Which words
there are depends on the kinds of layers alone:

    circuitHalfOpened?
      ( rateLimited | bulkheadFull
      | ( slotTaken M slotReleased | M ) ( circuitOpened | circuitClosed | timedOut )? )
      fellBack?

where `M` is `A retrying 1 A retrying 2 A …` with an `A` for each attempt, which is empty,
`hedgeLaunched`, or `hedgeLaunched hedgeWon`. There is a slot if there is a bulkhead, and no
letter without its layer. No letter says that the breaker has refused the call; the word of
such a call is empty but for `fellBack`.

* **`Told`** — the words of a call that has returned;
* **`Underway`** — the words of a call that has not, which all begin such a word
  (`Underway.told`);
* **`heard_releaseAll`** — what is told when things are given back is that slots are.
-/
import CallPolicy.Proofs.Rejection

namespace CallPolicy

variable {id : CallId} {kinds kinds' : List LayerKind} {l : LayerKind} {w w' : World} {t : Token}
  {m : CallId → Nat} {site : Site} {v u : List Event} {r : Result}

/-! ### What is heard of a call -/

/-- The event that a record tells a hook of on behalf of a call. -/
def Record.heard? (id : CallId) : Record → Option Event
  | .event site e => if site.call = id ∧ e.hook?.isSome then some e else none
  | _ => none

/-- The events that a call has told hooks of, the first one first. -/
def heard (id : CallId) (trace : List Entry) : List Event :=
  (trace.filterMap (·.record.heard? id)).reverse

/-- What is told on behalf of a call when something is given back. -/
def Holding.heard? (id : CallId) : Holding → Option Event
  | .slot site => if site.call = id then some .slotReleased else none
  | _ => none

theorem heard_cons (e : Entry) (tr : List Entry) :
    heard id (e :: tr) = heard id tr ++ (e.record.heard? id).toList := by
  cases h : e.record.heard? id <;> simp [heard, h]

theorem heard_append_eq {es : List Entry} (tr : List Entry)
    (h : ∀ e ∈ es, e.record.heard? id = none) : heard id (es ++ tr) = heard id tr := by
  simp [heard, List.filterMap_append, List.filterMap_eq_nil_iff.mpr h]

theorem Record.heard?_event {e : Event} (h : e.hook?.isSome) :
    (Record.event site e).heard? site.call = some e := if_pos ⟨rfl, h⟩

theorem Record.heard?_of_hook?_eq_none {e : Event} (h : e.hook? = none) :
    (Record.event site e).heard? id = none := by
  simp [heard?, h]

theorem Record.heard?_of_ne {r : Record} (h : r.call ≠ id) : r.heard? id = none := by
  cases r <;> simp_all [heard?, Record.call]

/-- Whoever tells a hook of something has a layer for it. -/
theorem Record.teller?_of_heard? {r : Record} {e : Event} (h : r.heard? id = some e) :
    r.call = id ∧ r.teller? = some e.teller := by
  cases r <;> simp_all [heard?, Record.call, Record.teller?]

namespace World

theorem heard_note {r : Record} (h : r.heard? id = none) :
    heard id (w.note r).trace = heard id w.trace := by
  simp [heard_cons, h]

theorem heard_emit {e : Event} (h : e.hook?.isSome) :
    heard site.call (w.emit site e).trace = heard site.call w.trace ++ [e] := by
  rw [emit_trace, heard_cons, Record.heard?_event h]
  rfl

theorem heard_emit_silent {e : Event} (h : e.hook? = none) :
    heard id (w.emit site e).trace = heard id w.trace := by
  rw [emit_trace, heard_cons, Record.heard?_of_hook?_eq_none h]
  exact List.append_nil _

theorem heard_emit_ne {e : Event} (h : site.call ≠ id) :
    heard id (w.emit site e).trace = heard id w.trace := by
  rw [emit_trace, heard_cons, Record.heard?_of_ne (r := .event site e) h]
  exact List.append_nil _

/-- A breaker that is put into another condition tells of its state if that is another one. -/
theorem heard_setBreaker (w : World) (site : Site) (b : Breaker) :
    heard site.call (w.setBreaker site b).trace = heard site.call w.trace ++
      if b.state = (w.gatesOf site).breaker.state then [] else [b.state.news] := by
  rw [setBreaker_trace]
  split
  · exact (List.append_nil _).symm
  · have hnews : b.state.news.hook?.isSome := by cases b.state <;> rfl
    rw [heard_cons, Record.heard?_event hnews]
    rfl

theorem heard_settlePermit (w : World) (site : Site) (s : BreakerSettings) (p : Permit)
    (o : Outcome) : heard site.call (w.settlePermit site s p o).trace = heard site.call w.trace ++
      if ((w.gatesOf site).breaker.record s w.now p o).state = (w.gatesOf site).breaker.state
      then [] else [((w.gatesOf site).breaker.record s w.now p o).state.news] := by
  rw [settlePermit, heard_setBreaker, heard_note rfl]
  rfl

/-- What is done inside all layers is not heard of the call. -/
theorem Confined.heard_eq (h : w.Confined (.ofCall id [] t) m w') :
    heard id w'.trace = heard id w.trace := by
  obtain ⟨es, htr, hes⟩ := h.trace
  rw [htr]
  refine heard_append_eq _ fun e he => Option.eq_none_iff_forall_ne_some.mpr fun x hx => ?_
  obtain ⟨hcall, hteller⟩ := Record.teller?_of_heard? hx
  exact absurd ((hes e he).own hcall _ hteller) List.not_mem_nil

/-- What others do is not heard of the call. -/
theorem Meanwhile.heard_eq (h : w.Meanwhile id t w') :
    heard id w'.trace = heard id w.trace := by
  obtain ⟨es, htr, hes⟩ := h.trace
  rw [htr]
  refine heard_append_eq _ fun e he => Record.heard?_of_ne fun hcall => hes e he ?_
  rw [hcall]
  exact .self

theorem Awaits.heard_eq (h : w.Awaits id t) : heard id w.trace = [] := by
  have hnone : ∀ e ∈ w.trace, e.record.heard? id = none := fun e he =>
    Record.heard?_of_ne fun hcall => h.trace e he (hcall ▸ .self)
  rw [heard, List.filterMap_eq_nil_iff.mpr hnone, List.reverse_nil]

end World

/-- An outcome that is ignored leaves a breaker in its state. -/
theorem Breaker.record_ignored_state (s : BreakerSettings) (now : Nat) (p : Permit) (b : Breaker) :
    (b.record s now p .ignored).state = b.state := by
  by_cases hb : b.state = .halfOpen
  · -- while half-open, only the number of probes changes
    by_cases hp : p.period = b.period
    · cases hprobe : p.probe <;> simp [record, hp, hb, hprobe]
    · rw [record_of_period_ne hp]
  · rw [record_ignored_of_ne_halfOpen hb]

namespace World

/-- **What is told when something is given back** is that a slot is. -/
theorem heard_release (w : World) (hold : Holding) :
    heard id (w.release hold).trace = heard id w.trace ++ (hold.heard? id).toList := by
  cases hold with
  | invocation call k token =>
    rw [release, heard_note rfl]
    exact (List.append_nil _).symm
  | slot site =>
    by_cases hsite : site.call = id
    · subst hsite
      rw [release, heard_emit rfl, Holding.heard?, if_pos rfl]
      rfl
    · rw [release, heard_emit_ne hsite, Holding.heard?, if_neg hsite]
      exact (List.append_nil _).symm
  | permit site s p =>
    have hsame := Breaker.record_ignored_state s w.now p (w.gatesOf site).breaker
    rw [release, settlePermit, setBreaker_trace]
    refine (congrArg (heard id) (if_pos hsame)).trans ?_
    rw [heard_note (r := .gate site _) rfl]
    exact (List.append_nil _).symm

theorem heard_releaseAll (w : World) (hs : List Holding) :
    heard id (w.releaseAll hs).trace = heard id w.trace ++ hs.filterMap (·.heard? id) := by
  induction hs generalizing w with
  | nil => exact (List.append_nil _).symm
  | cons hold hs ih =>
    show heard id ((w.release hold).releaseAll hs).trace = _
    rw [ih, heard_release]
    cases h : hold.heard? id <;> simp [h]

end World

/-! ### Words -/

/-- What one attempt tells: that another one was launched beside it, if that was so, and
perhaps that this one came in first. -/
inductive Hedging (kinds : List LayerKind) : List Event → Prop
  | alone : Hedging kinds []
  | launched (hk : .hedge ∈ kinds) (delay : Duration) : Hedging kinds [.hedgeLaunched delay]
  | won (hk : .hedge ∈ kinds) (delay : Duration) :
      Hedging kinds [.hedgeLaunched delay, .hedgeWon]

/-- What the attempts before the `n`-th one tell, each with its number. -/
inductive Retried (kinds : List LayerKind) : Nat → List Event → Prop
  | first : Retried kinds 1 []
  | again (hk : .retry ∈ kinds) {n : Nat} {v a : List Event} (hv : Retried kinds n v)
      (ha : Hedging kinds a) (cause : Failure) :
      Retried kinds (n + 1) (v ++ a ++ [.retrying n cause])

/-- What is told past the breaker: that this is the first call of a period of probes, if it
is. -/
inductive Waking (kinds : List LayerKind) : List Event → Prop
  | awake : Waking kinds []
  | woken (hk : .breaker ∈ kinds) : Waking kinds [.circuitHalfOpened]

/-- What is told past the bulkhead, if there is one. -/
def slotTold (kinds : List LayerKind) : List Event :=
  if .bulkhead ∈ kinds then [.slotTaken] else []

/-- What is told when the slot is given back, if there is one. -/
def slotBack (kinds : List LayerKind) : List Event :=
  if .bulkhead ∈ kinds then [.slotReleased] else []

/-- What a call tells that all gates have let in, as long as it is suspended. -/
inductive Underway (kinds : List LayerKind) : List Event → Prop
  | intro {p v a : List Event} {n : Nat} (hp : Waking kinds p) (hv : Retried kinds n v)
      (ha : Hedging kinds a) : Underway kinds (p ++ slotTold kinds ++ (v ++ a))

/-- What is told last of a call that was let in: what the breaker makes of it, or that the
deadline has passed. -/
inductive Closing (kinds : List LayerKind) : List Event → Prop
  | silent : Closing kinds []
  | opened (hk : .breaker ∈ kinds) : Closing kinds [.circuitOpened]
  | closed (hk : .breaker ∈ kinds) : Closing kinds [.circuitClosed]
  | timedOut (hk : .timeout ∈ kinds) (length : Duration) : Closing kinds [.timedOut length]

/-- What a call tells that comes to a result, before any other value takes its place. -/
inductive Word (kinds : List LayerKind) : Result → List Event → Prop
  | refused (hk : .breaker ∈ kinds) : Word kinds (.error .circuitOpen) []
  | limited (hk : .rateLimit ∈ kinds) {p : List Event} (hp : Waking kinds p) :
      Word kinds (.error .rateLimited) (p ++ [.rateLimited])
  | full (hk : .bulkhead ∈ kinds) {p : List Event} (hp : Waking kinds p) :
      Word kinds (.error .bulkheadFull) (p ++ [.bulkheadFull])
  | admitted (r : Result) {v c : List Event} (hv : Underway kinds v) (hc : Closing kinds c) :
      Word kinds r (v ++ slotBack kinds ++ c)

/-- What a call tells that returns a result. -/
inductive Told (kinds : List LayerKind) : Result → List Event → Prop
  | plain {r : Result} {v : List Event} (hv : Word kinds r v)
      (hr : .fallback ∈ kinds → ∃ x, r = .ok x) : Told kinds r v
  | fellBack (hk : .fallback ∈ kinds) {f : Failure} {v : List Event}
      (hv : Word kinds (.error f) v) (value : String) :
      Told kinds (.ok value) (v ++ [.fellBack f])

/-! ### Words with more layers -/

theorem Hedging.mono (h : Hedging kinds v) (hk : kinds ⊆ kinds') : Hedging kinds' v := by
  cases h with
  | alone => exact .alone
  | launched hmem delay => exact .launched (hk hmem) delay
  | won hmem delay => exact .won (hk hmem) delay

theorem Retried.mono {n : Nat} (h : Retried kinds n v) (hk : kinds ⊆ kinds') :
    Retried kinds' n v := by
  induction h with
  | first => exact .first
  | again hmem _ ha cause ih => exact .again (hk hmem) ih (ha.mono hk) cause

theorem Waking.mono (h : Waking kinds v) (hk : kinds ⊆ kinds') : Waking kinds' v := by
  cases h with
  | awake => exact .awake
  | woken hmem => exact .woken (hk hmem)

theorem Closing.mono (h : Closing kinds v) (hk : kinds ⊆ kinds') : Closing kinds' v := by
  cases h with
  | silent => exact .silent
  | opened hmem => exact .opened (hk hmem)
  | closed hmem => exact .closed (hk hmem)
  | timedOut hmem length => exact .timedOut (hk hmem) length

theorem slotTold_cons (hl : l ≠ .bulkhead) : slotTold (l :: kinds) = slotTold kinds := by
  simp [slotTold, hl.symm]

theorem slotBack_cons (hl : l ≠ .bulkhead) : slotBack (l :: kinds) = slotBack kinds := by
  simp [slotBack, hl.symm]

theorem slotTold_of_not_mem (hk : .bulkhead ∉ kinds) : slotTold kinds = [] := if_neg hk

theorem slotBack_of_not_mem (hk : .bulkhead ∉ kinds) : slotBack kinds = [] := if_neg hk

theorem Underway.cons (h : Underway kinds v) (hl : l ≠ .bulkhead) : Underway (l :: kinds) v := by
  obtain ⟨hp, hv, ha⟩ := h
  have hk : kinds ⊆ l :: kinds := List.subset_cons_self l kinds
  rw [← slotTold_cons hl]
  exact .intro (hp.mono hk) (hv.mono hk) (ha.mono hk)

theorem Word.cons (h : Word kinds r v) (hl : l ≠ .bulkhead) : Word (l :: kinds) r v := by
  have hk : kinds ⊆ l :: kinds := List.subset_cons_self l kinds
  cases h with
  | refused hmem => exact .refused (hk hmem)
  | limited hmem hp => exact .limited (hk hmem) (hp.mono hk)
  | full hmem hp => exact .full (hk hmem) (hp.mono hk)
  | admitted _ hv hc =>
    rw [← slotBack_cons hl]
    exact .admitted r (hv.cons hl) (hc.mono hk)

/-! ### Words with few layers -/

theorem Waking.eq_nil (h : Waking kinds v) (hk : .breaker ∉ kinds) : v = [] := by
  cases h with
  | awake => rfl
  | woken hmem => exact absurd hmem hk

theorem Closing.eq_nil (h : Closing kinds v) (hb : .breaker ∉ kinds) (ht : .timeout ∉ kinds) :
    v = [] := by
  cases h with
  | silent => rfl
  | opened hmem => exact absurd hmem hb
  | closed hmem => exact absurd hmem hb
  | timedOut hmem length => exact absurd hmem ht

theorem Retried.eq_nil {n : Nat} (h : Retried kinds n v) (hk : .retry ∉ kinds) :
    n = 1 ∧ v = [] := by
  cases h with
  | first => exact ⟨rfl, rfl⟩
  | again hmem => exact absurd hmem hk

/-- Inside the bulkhead, what is under way tells of its attempts. -/
theorem Underway.attempts (h : Underway kinds v) (hb : .breaker ∉ kinds)
    (hs : .bulkhead ∉ kinds) : ∃ n u a, Retried kinds n u ∧ Hedging kinds a ∧ v = u ++ a := by
  obtain ⟨hp, hu, ha⟩ := h
  rw [hp.eq_nil hb, slotTold_of_not_mem hs]
  exact ⟨_, _, _, hu, ha, rfl⟩

/-- Inside the retry layer, what is under way tells of one attempt. -/
theorem Underway.hedging (h : Underway kinds v) (hb : .breaker ∉ kinds) (hs : .bulkhead ∉ kinds)
    (hr : .retry ∉ kinds) : Hedging kinds v := by
  obtain ⟨n, u, a, hu, ha, rfl⟩ := h.attempts hb hs
  rw [(hu.eq_nil hr).2]
  exact ha

/-- Inside the gates, a result comes with what is told of the attempts. -/
theorem Word.underway (h : Word kinds r v) (hb : .breaker ∉ kinds) (hl : .rateLimit ∉ kinds)
    (hs : .bulkhead ∉ kinds) (ht : .timeout ∉ kinds) : Underway kinds v := by
  cases h with
  | refused hmem => exact absurd hmem hb
  | limited hmem => exact absurd hmem hl
  | full hmem => exact absurd hmem hs
  | admitted _ hv hc =>
    rw [hc.eq_nil hb ht, slotBack_of_not_mem hs, List.append_nil, List.append_nil]
    exact hv

/-- Without a bulkhead, nothing has to be told for a call to end. -/
theorem Underway.word (h : Underway kinds v) (hs : .bulkhead ∉ kinds) (r : Result) :
    Word kinds r v := by
  have hword := Word.admitted r h .silent
  rwa [slotBack_of_not_mem hs, List.append_nil, List.append_nil] at hword

/-- Without a bulkhead, what is told of the attempts is all that is told. -/
theorem Retried.underway {n : Nat} (h : Retried kinds n v) (ha : Hedging kinds u)
    (hs : .bulkhead ∉ kinds) : Underway kinds (v ++ u) := by
  have hunder := Underway.intro .awake h ha
  rwa [slotTold_of_not_mem hs, List.append_nil, List.nil_append] at hunder

/-- An attempt alone is under way. -/
theorem Hedging.underway (h : Hedging kinds v) (hs : .bulkhead ∉ kinds) : Underway kinds v :=
  Retried.first.underway h hs

/-- **What is told of a call under way** begins a word of a call that has returned, and with
its slot given back it is one. -/
theorem Underway.told (h : Underway kinds v) (x : String) :
    Told kinds (.ok x) (v ++ slotBack kinds) := by
  have hword := Word.admitted (.ok x) h .silent
  rw [List.append_nil] at hword
  exact .plain hword fun _ => ⟨x, rfl⟩

/-! ### Who tells what -/

theorem Hedging.teller_eq {e : Event} (h : Hedging kinds v) (he : e ∈ v) : e.teller = .hedge := by
  cases h <;> simp at he <;> rcases he with rfl | rfl <;> rfl

theorem Retried.teller_eq {n : Nat} {e : Event} (h : Retried kinds n v) (he : e ∈ v) :
    e.teller = .retry ∨ e.teller = .hedge := by
  induction h with
  | first => cases he
  | again _ _ ha cause ih =>
    simp only [List.mem_append, List.mem_singleton] at he
    rcases he with (he | he) | rfl
    · exact ih he
    · exact .inr (ha.teller_eq he)
    · exact .inl rfl

theorem Waking.teller_eq {e : Event} (h : Waking kinds v) (he : e ∈ v) : e.teller = .breaker := by
  cases h with
  | awake => cases he
  | woken =>
    rw [List.mem_singleton.mp he]
    rfl

/-- What the bulkhead tells of a call under way is that the call took a slot, once. -/
theorem Underway.of_teller {e : Event} (h : Underway kinds v) (he : e ∈ v)
    (hteller : e.teller = .bulkhead) : e = .slotTaken ∧ .bulkhead ∈ kinds := by
  obtain ⟨hp, hu, ha⟩ := h
  simp only [List.mem_append] at he
  rcases he with (he | he) | he | he
  · simp [hp.teller_eq he] at hteller
  · by_cases hk : .bulkhead ∈ kinds
    · rw [slotTold, if_pos hk] at he
      exact ⟨List.mem_singleton.mp he, hk⟩
    · rw [slotTold_of_not_mem hk] at he
      cases he
  · rcases hu.teller_eq he with h | h <;> simp [h] at hteller
  · simp [ha.teller_eq he] at hteller

/-- A call under way holds a slot, so it has told, if there is a bulkhead. -/
theorem Underway.slotTaken_mem_iff (h : Underway kinds v) :
    .slotTaken ∈ v ↔ .bulkhead ∈ kinds := by
  refine ⟨fun he => (h.of_teller he rfl).2, fun hk => ?_⟩
  obtain ⟨hp, hu, ha⟩ := h
  simp [slotTold, hk]

end CallPolicy
