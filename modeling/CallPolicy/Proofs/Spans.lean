/-
The invocations of a call that are live.

An invocation is live from the record of its beginning to the record of its end, or to
that of its being dropped (`liveIn`). The retry layer tells of every attempt that it is
going to repeat, so what has been told says which attempt a call is at (`attemptAt`).

A trace is well `Spaced` if never more than a given number of invocations were live, and
none at all whenever an attempt was repeated.

* **`Spaced.begin`**, **`Spaced.finish`**, **`Spaced.again`** — what each record adds;
* **`Moment.live`** — what is live is held, at every moment of a run.
-/
import CallPolicy.Proofs.Dealings

namespace CallPolicy

/-! ### What the trace tells -/

namespace Record

/-- The invocation of a call that begins. -/
def begun? (id : CallId) : Record → Option Nat
  | .invoked call k _ => if call = id then some k else none
  | _ => none

/-- The invocation of a call that ends, or is dropped. -/
def ended? (id : CallId) : Record → Option Nat
  | .finished call k _ => if call = id then some k else none
  | .abandoned call k _ => if call = id then some k else none
  | _ => none

/-- The attempt of a call that will be repeated. -/
def repeated? (site : Site) : Record → Option Nat
  | .event σ (.retrying n _) => if σ = site then some n else none
  | _ => none

end Record

/-- The invocations of a call that have begun, the last first. -/
def begunIn (id : CallId) (tr : List Entry) : List Nat := tr.filterMap (·.record.begun? id)

/-- The invocations of a call that have begun and not ended. -/
def liveIn (id : CallId) : List Entry → Multiset Nat
  | [] => 0
  | e :: tr =>
    match e.record.begun? id, e.record.ended? id with
    | some k, _ => k ::ₘ liveIn id tr
    | none, some k => (liveIn id tr).erase k
    | none, none => liveIn id tr

/-- The attempts of a call that have been repeated, the last first. -/
def repeatsIn (site : Site) (tr : List Entry) : List Nat := tr.filterMap (·.record.repeated? site)

/-- The attempt that a call is at. -/
def attemptAt (site : Site) (tr : List Entry) : Nat := (repeatsIn site tr).length + 1

/-- The `k`-th invocation of a call ends between two points of the trace. -/
def EndsBetween (id : CallId) (k : Nat) (tr tr' : List Entry) : Prop :=
  ∃ e tr'', e.record.ended? id = some k ∧ tr <:+ tr'' ∧ e :: tr'' <:+ tr'

/-- The invocation of a call that is held. -/
def Holding.number? (id : CallId) : Holding → Option Nat
  | .invocation call k _ => if call = id then some k else none
  | _ => none

/-- The invocations of a call that are held. -/
def invocationsAt (id : CallId) (H : Multiset Holding) : Multiset Nat :=
  H.filterMap (Holding.number? id)

/-- Does the entry tell that an invocation of a call begins or ends? -/
def Entry.engages (id : CallId) (e : Entry) : Bool :=
  (e.record.begun? id).isSome || (e.record.ended? id).isSome

/-- Does the entry tell of an invocation of a call, or of a repeated attempt of it? -/
def Entry.affects (site : Site) (e : Entry) : Bool :=
  e.engages site.call || (e.record.repeated? site).isSome

/-- Does the record tell of a gate? -/
def Record.isGate : Record → Bool
  | .event _ e => !e.isPlain
  | .gate _ _ => true
  | _ => false

variable {K : List Policy} {N : List String} {chance : Chance} {site σ : Site} {id : CallId}
  {k n B : Nat} {L : Multiset Nat} {tr es : List Entry} {e : Entry} {r : Record} {w w' : World}
  {x y : Scene} {H : Multiset Holding} {hold : Holding}

theorem Entry.engages_eq_false :
    e.engages id = false ↔ e.record.begun? id = none ∧ e.record.ended? id = none := by
  simp [engages]

theorem Entry.affects_eq_false : e.affects site = false ↔
    e.engages site.call = false ∧ e.record.repeated? site = none := by
  simp [affects]

theorem Entry.engages_of_isPlain (h : e.record.isPlain = true) : e.engages id = false := by
  obtain ⟨now, r⟩ := e
  cases r <;> first | rfl | cases h

theorem Entry.affects_of_isGate (h : e.record.isGate = true) : e.affects site = false := by
  obtain ⟨now, r⟩ := e
  cases r with
  | event σ e => cases e <;> first | rfl | cases h
  | gate σ step => rfl
  | _ => cases h

theorem Entry.engages_of_isGate (h : e.record.isGate = true) : e.engages id = false := by
  obtain ⟨now, r⟩ := e
  cases r <;> first | rfl | cases h

theorem Record.isGate_news (st : BreakerState) : (event σ st.news).isGate = true := by
  cases st <;> rfl

theorem Record.call_of_begun? (h : r.begun? id = some k) : r.call = id := by
  unfold begun? at h
  split at h
  · split at h <;> simp_all [call]
  · cases h

theorem Record.call_of_ended? (h : r.ended? id = some k) : r.call = id := by
  unfold ended? at h
  split at h
  · split at h <;> simp_all [call]
  · split at h <;> simp_all [call]
  · cases h

theorem Record.call_of_repeated? (h : r.repeated? site = some n) :
    r.call = site.call ∧ r.teller? = some .retry := by
  unfold repeated? at h
  split at h
  · split at h
    next hsite => exact ⟨hsite ▸ rfl, rfl⟩
    next => cases h
  · cases h

theorem Entry.engages_of_ne (h : e.record.call ≠ id) : e.engages id = false := by
  refine engages_eq_false.mpr ⟨?_, ?_⟩ <;> refine Option.eq_none_iff_forall_ne_some.mpr ?_
  · exact fun k hk => h (Record.call_of_begun? hk)
  · exact fun k hk => h (Record.call_of_ended? hk)

/-- What is recorded about other calls does not affect a call. -/
theorem Entry.affects_of_ne (h : e.record.call ≠ site.call) : e.affects site = false := by
  refine affects_eq_false.mpr ⟨engages_of_ne h, Option.eq_none_iff_forall_ne_some.mpr ?_⟩
  exact fun n hn => h (Record.call_of_repeated? hn).1

theorem liveIn_begin (hr : e.record.begun? id = some k) :
    liveIn id (e :: tr) = k ::ₘ liveIn id tr := by
  rw [liveIn, hr]

theorem liveIn_finish (hr : e.record.ended? id = some k) :
    liveIn id (e :: tr) = (liveIn id tr).erase k := by
  have hnone : e.record.begun? id = none := by
    unfold Record.ended? at hr
    split at hr
    next h => rw [h]; rfl
    next h => rw [h]; rfl
    next => cases hr
  rw [liveIn, hnone, hr]

theorem liveIn_quiet (he : e.engages id = false) : liveIn id (e :: tr) = liveIn id tr := by
  obtain ⟨hbegun, hended⟩ := Entry.engages_eq_false.mp he
  rw [liveIn, hbegun, hended]

theorem liveIn_append (hes : ∀ e ∈ es, e.engages id = false) :
    liveIn id (es ++ tr) = liveIn id tr := by
  induction es with
  | nil => rfl
  | cons e es ih =>
    rw [List.cons_append, liveIn_quiet (hes e List.mem_cons_self)]
    exact ih fun e' he' => hes e' (List.mem_cons_of_mem _ he')

theorem World.Keeps.liveIn_eq (h : w.Keeps (fun _ => ()) (Entry.engages id) w') :
    liveIn id w'.trace = liveIn id w.trace := by
  obtain ⟨es, htr, hes⟩ := h.trace
  rw [htr, liveIn_append hes]

theorem repeatsIn_quiet (hr : e.record.repeated? site = none) :
    repeatsIn site (e :: tr) = repeatsIn site tr :=
  List.filterMap_cons_none hr

theorem attemptAt_again (hr : e.record.repeated? site = some n) :
    attemptAt site (e :: tr) = attemptAt site tr + 1 := by
  have hcons : repeatsIn site (e :: tr) = n :: repeatsIn site tr := List.filterMap_cons_some hr
  rw [attemptAt, hcons]
  rfl

/-! ### Well spaced traces -/

/-- When the entry was made, not too many invocations were live, and none if it tells of a
repeated attempt. -/
structure Entry.Fits (site : Site) (B : Nat) (e : Entry) (tr : List Entry) : Prop where
  few : (liveIn site.call (e :: tr)).card ≤ B
  apart : ∀ {n}, e.record.repeated? site = some n →
    liveIn site.call tr = 0 ∧ n = attemptAt site tr

/-- The invocations `L` of a call are live, there were never more than `B` at a time, and
none whenever an attempt was repeated. -/
structure Spaced (site : Site) (B : Nat) (L : Multiset Nat) (tr : List Entry) : Prop where
  fits : ∀ {e tr'}, e :: tr' <:+ tr → e.Fits site B tr'
  live : liveIn site.call tr = L

namespace Spaced

theorem nil : Spaced site B 0 [] :=
  ⟨fun h => absurd (List.suffix_nil.mp h) (List.cons_ne_nil _ _), rfl⟩

theorem cons {L' : Multiset Nat} (h : Spaced site B L tr) (hfits : e.Fits site B tr)
    (hlive : liveIn site.call (e :: tr) = L') : Spaced site B L' (e :: tr) := by
  refine ⟨fun hsuffix => ?_, hlive⟩
  rcases List.suffix_cons_iff.mp hsuffix with heq | hsuffix
  · obtain ⟨rfl, rfl⟩ := List.cons.inj heq
    exact hfits
  · exact h.fits hsuffix

/-- Not too many are live. -/
theorem card_le (h : Spaced site B L tr) : L.card ≤ B := by
  cases tr with
  | nil =>
    rw [← h.live]
    exact Nat.zero_le B
  | cons e tr =>
    rw [← h.live]
    exact (h.fits (List.suffix_refl _)).few

/-- Nor were too many before. -/
theorem few (h : Spaced site B L tr) {tr' : List Entry} (hsuffix : tr' <:+ tr) :
    (liveIn site.call tr').card ≤ B := by
  cases tr' with
  | nil => exact Nat.zero_le B
  | cons e tr' => exact (h.fits hsuffix).few

/-- Something is recorded that does not affect the call. -/
theorem quiet (h : Spaced site B L tr) (he : e.affects site = false) :
    Spaced site B L (e :: tr) := by
  obtain ⟨hengages, hrepeated⟩ := Entry.affects_eq_false.mp he
  have hlive : liveIn site.call (e :: tr) = L := (liveIn_quiet hengages).trans h.live
  refine h.cons ⟨hlive ▸ h.card_le, fun hr => ?_⟩ hlive
  rw [hrepeated] at hr
  cases hr

theorem append (h : Spaced site B L tr) (hes : ∀ e ∈ es, e.affects site = false) :
    Spaced site B L (es ++ tr) := by
  induction es with
  | nil => exact h
  | cons e es ih =>
    have hrest := ih fun e' he' => hes e' (List.mem_cons_of_mem _ he')
    exact hrest.quiet (hes e List.mem_cons_self)

/-- Another invocation begins. -/
theorem begin (h : Spaced site B L tr) (hB : L.card + 1 ≤ B)
    (hr : e.record.begun? site.call = some k) : Spaced site B (k ::ₘ L) (e :: tr) := by
  have hlive : liveIn site.call (e :: tr) = k ::ₘ L := by rw [liveIn_begin hr, h.live]
  refine h.cons ⟨?_, fun hrepeated => ?_⟩ hlive
  · rw [hlive, Multiset.card_cons]
    exact hB
  · -- that is not told by the retry layer
    have hteller := (Record.call_of_repeated? hrepeated).2
    unfold Record.begun? at hr
    split at hr
    next heq =>
      rw [heq] at hteller
      cases hteller
    next => cases hr

/-- A live invocation ends. -/
theorem finish (h : Spaced site B (k ::ₘ L) tr) (hr : e.record.ended? site.call = some k) :
    Spaced site B L (e :: tr) := by
  have hlive : liveIn site.call (e :: tr) = L := by
    rw [liveIn_finish hr, h.live, Multiset.erase_cons_head]
  refine h.cons ⟨?_, fun hrepeated => ?_⟩ hlive
  · have hle := h.card_le
    rw [Multiset.card_cons] at hle
    exact hlive ▸ Nat.le_of_succ_le hle
  · have hteller := (Record.call_of_repeated? hrepeated).2
    unfold Record.ended? at hr
    split at hr
    next heq =>
      rw [heq] at hteller
      cases hteller
    next heq =>
      rw [heq] at hteller
      cases hteller
    next => cases hr

/-- An attempt is repeated when none of its invocations is live. -/
theorem again (h : Spaced site B 0 tr) (hr : e.record.repeated? site = some (attemptAt site tr)) :
    Spaced site B 0 (e :: tr) := by
  have hlive : liveIn site.call (e :: tr) = 0 := by
    refine (liveIn_quiet (Entry.engages_of_isPlain ?_)).trans h.live
    unfold Record.repeated? at hr
    split at hr
    next heq => rw [heq]; rfl
    next => cases hr
  refine h.cons ⟨hlive ▸ Nat.zero_le B, fun hr' => ⟨h.live, ?_⟩⟩ hlive
  exact Option.some.inj (hr'.symm.trans hr)

theorem keeps (h : Spaced site B L w.trace) (hw : w.Keeps (fun _ => ()) (Entry.affects site) w') :
    Spaced site B L w'.trace := by
  obtain ⟨es, htr, hes⟩ := hw.trace
  rw [htr]
  exact h.append hes

end Spaced

/-- What was live and is not any more has ended. -/
theorem endsBetween_of_live (hlive : k ∈ liveIn id tr) (hover : k ∉ liveIn id (es ++ tr)) :
    EndsBetween id k tr (es ++ tr) := by
  induction es with
  | nil => exact absurd hlive hover
  | cons e es ih =>
    by_cases hk : k ∈ liveIn id (es ++ tr)
    · refine ⟨e, es ++ tr, ?_, List.suffix_append _ _, List.suffix_refl _⟩
      cases hbegun : e.record.begun? id with
      | some j =>
        rw [List.cons_append, liveIn_begin hbegun] at hover
        exact absurd (Multiset.mem_cons_of_mem hk) hover
      | none =>
        cases hended : e.record.ended? id with
        | some j =>
          rw [List.cons_append, liveIn_finish hended] at hover
          by_cases hj : k = j
          · rw [hj]
          · exact absurd ((Multiset.mem_erase_of_ne hj).mpr hk) hover
        | none =>
          rw [List.cons_append, liveIn_quiet (Entry.engages_eq_false.mpr ⟨hbegun, hended⟩)] at hover
          exact absurd hk hover
    · obtain ⟨e', tr', hended, hsuffix, hsuffix'⟩ := ih hk
      exact ⟨e', tr', hended, hsuffix, hsuffix'.trans (List.suffix_cons e _)⟩

/-- Between two attempts, one is repeated. -/
theorem exists_repeated (h : attemptAt site tr < attemptAt site (es ++ tr)) :
    ∃ e tr' n, e.record.repeated? site = some n ∧ tr <:+ tr' ∧ e :: tr' <:+ es ++ tr := by
  induction es with
  | nil => exact absurd h (Nat.lt_irrefl _)
  | cons e es ih =>
    cases hr : e.record.repeated? site with
    | some n => exact ⟨e, es ++ tr, n, hr, List.suffix_append _ _, List.suffix_refl _⟩
    | none =>
      rw [List.cons_append, attemptAt, attemptAt, repeatsIn_quiet hr] at h
      obtain ⟨e', tr', n, hr', hsuffix, hsuffix'⟩ := ih h
      exact ⟨e', tr', n, hr', hsuffix, hsuffix'.trans (List.suffix_cons e _)⟩

/-- **Attempts do not overlap**: when a call is at a later attempt, the invocations of the
earlier ones have ended. -/
theorem Spaced.endsBetween {tr₁ tr₂ : List Entry} (h : Spaced site B L tr) (h₁ : e :: tr₁ <:+ tr)
    (h₂ : tr₂ <:+ tr) (hr : e.record.begun? site.call = some k)
    (hlt : attemptAt site tr₁ < attemptAt site tr₂) :
    EndsBetween site.call k (e :: tr₁) tr₂ := by
  have hsame : attemptAt site (e :: tr₁) = attemptAt site tr₁ := by
    refine congrArg (·.length + 1) (repeatsIn_quiet ?_)
    unfold Record.begun? at hr
    split at hr
    next heq => rw [heq]; rfl
    next => cases hr
  rcases List.suffix_or_suffix_of_suffix h₁ h₂ with hsuffix | ⟨es, heq⟩
  · obtain ⟨es, rfl⟩ := hsuffix
    -- where an attempt was repeated in between, nothing was live
    obtain ⟨e', tr', n, hrepeated, ⟨es', rfl⟩, hsuffix⟩ := exists_repeated (hsame ▸ hlt)
    have hnone := ((h.fits (hsuffix.trans h₂)).apart hrepeated).1
    have hlive : k ∈ liveIn site.call (e :: tr₁) := by
      rw [liveIn_begin hr]
      exact Multiset.mem_cons_self k _
    obtain ⟨e'', tr'', hended, hfirst, hlast⟩ :=
      endsBetween_of_live hlive (hnone ▸ Multiset.notMem_zero k)
    exact ⟨e'', tr'', hended, hfirst, hlast.trans ((List.suffix_cons e' _).trans hsuffix)⟩
  · -- otherwise no attempt was repeated in between
    have hle : attemptAt site tr₂ ≤ attemptAt site (e :: tr₁) := by
      rw [← heq, attemptAt, attemptAt, repeatsIn, repeatsIn, List.filterMap_append,
        List.length_append]
      omega
    omega

/-! ### What is held -/

theorem invocationsAt_add (id : CallId) (H H' : Multiset Holding) :
    invocationsAt id (H + H') = invocationsAt id H + invocationsAt id H' :=
  Multiset.filterMap_add _ H H'

theorem invocationsAt_cons (id : CallId) (hold : Holding) (H : Multiset Holding) :
    invocationsAt id (hold ::ₘ H) = (hold.number? id).toList + invocationsAt id H := by
  cases h : hold.number? id with
  | none => rw [invocationsAt, Multiset.filterMap_cons_none _ _ h]; simp [invocationsAt]
  | some k => rw [invocationsAt, Multiset.filterMap_cons_some _ _ _ h]; simp [invocationsAt]

/-- Nothing but an invocation is one of a call. -/
theorem invocationsAt_eq_zero (h : ∀ hold ∈ H, hold.number? id = none) : invocationsAt id H = 0 := by
  refine Multiset.eq_zero_of_forall_notMem fun k hk => ?_
  obtain ⟨hold, hmem, heq⟩ := (Multiset.mem_filterMap _ _).mp hk
  rw [h hold hmem] at heq
  cases heq

/-! ### Gates -/

namespace World.Keeps

variable {about : Entry → Bool} (habout : ∀ e, e.record.isGate = true → about e = false)

include habout

theorem setBreaker_gate (w : World) (σ : Site) (b : Breaker) :
    w.Keeps (fun _ => ()) about (w.setBreaker σ b) :=
  setBreaker w σ b rfl (habout _ (Record.isGate_news _))

theorem settlePermit_gate (w : World) (σ : Site) (s : BreakerSettings) (p : Permit) (o : Outcome) :
    w.Keeps (fun _ => ()) about (w.settlePermit σ s p o) :=
  (note w _ (habout _ rfl)).trans (setBreaker_gate habout _ σ _)

theorem slotReleased (w : World) (σ : Site) :
    w.Keeps (fun _ => ()) about (w.release (.slot σ)) :=
  (modifyGates w _ _ rfl).trans (emit _ σ .slotReleased (habout _ rfl))

theorem acquirePermit (w : World) (σ : Site) (s : BreakerSettings) :
    w.Keeps (fun _ => ()) about (Operation.acquirePermit σ s w).2 := by
  unfold Operation.acquirePermit
  split <;> dsimp only
  · exact (setBreaker_gate habout w σ _).trans (note _ _ (habout _ rfl))
  · exact (setBreaker_gate habout w σ _).trans (emit _ σ _ (habout _ rfl))

theorem takeSlot (w : World) (σ : Site) (capacity : Nat) :
    w.Keeps (fun _ => ()) about (Operation.takeSlot σ capacity w).2 := by
  unfold Operation.takeSlot
  split <;> dsimp only
  · exact (modifyGates w _ _ rfl).trans (emit _ σ _ (habout _ rfl))
  · exact emit w σ _ (habout _ rfl)

omit habout in
theorem takeToken {l : RateLimit} {granted : Bool}
    (h : Operation.takeToken σ l w = (granted, w')) : w.Keeps (fun _ => ()) about w' := by
  obtain ⟨bucket, rfl⟩ := Operation.takeToken_eq σ w h
  exact modifyGates w _ _ rfl

end World.Keeps

/-- Asking a gate is told by the gate alone, and nobody gets an invocation by it. -/
theorem Asked.keeps {about : Entry → Bool} {gate : LayerKind} {gain : Multiset Holding}
    (h : Asked K σ gate w w' gain) (habout : ∀ e, e.record.isGate = true → about e = false) :
    w.Keeps (fun _ => ()) about w' ∧ invocationsAt id gain = 0 := by
  have hgate := World.Keeps.acquirePermit (w := w) habout
  have hslot := World.Keeps.takeSlot (w := w) habout
  cases h with
  | @grant p _ _ s _ _ _ permit h =>
    have hw := hgate σ s
    rw [h] at hw
    refine ⟨hw, invocationsAt_eq_zero fun hold hmem => ?_⟩
    rw [Multiset.mem_singleton.mp hmem]
    rfl
  | @refuse p _ _ s _ _ _ _ h =>
    have hw := hgate σ s
    rw [h] at hw
    exact ⟨hw, rfl⟩
  | @occupy p _ _ capacity _ _ _ h =>
    have hw := hslot σ capacity
    rw [h] at hw
    refine ⟨hw, invocationsAt_eq_zero fun hold hmem => ?_⟩
    rw [Multiset.mem_singleton.mp hmem]
    rfl
  | @crowd p _ _ capacity _ _ _ _ h =>
    have hw := hslot σ capacity
    rw [h] at hw
    exact ⟨hw, rfl⟩
  | spend _ _ _ h => exact ⟨(World.Keeps.takeToken h).trans (.note _ _ (habout _ rfl)), rfl⟩
  | limit _ _ _ h => exact ⟨(World.Keeps.takeToken h).trans (.emit _ σ _ (habout _ rfl)), rfl⟩

/-! ### What is given back -/

/-- An invocation of a call is given back, or something else. -/
theorem World.release_cases {about : Entry → Bool} (w : World) (hold : Holding)
    (habout : ∀ e, e.record.isGate = true → about e = false)
    (hother : ∀ e, e.record.call ≠ id → about e = false) :
    (∃ k b, hold.number? id = some k ∧
      (w.release hold).trace = ⟨w.now, .abandoned id k b⟩ :: w.trace) ∨
    (hold.number? id = none ∧ w.Keeps (fun _ => ()) about (w.release hold)) := by
  cases hold with
  | invocation call k token =>
    by_cases hcall : call = id
    · subst hcall
      exact .inl ⟨k, _, if_pos rfl, rfl⟩
    · exact .inr ⟨if_neg hcall, .note w _ (hother _ hcall)⟩
  | slot σ => exact .inr ⟨rfl, .slotReleased habout w σ⟩
  | permit σ s p => exact .inr ⟨rfl, .settlePermit_gate habout w σ s p .ignored⟩

/-- Something is given back, and an invocation has ended if that is what it is. -/
theorem Spaced.release (h : Spaced site B ((hold.number? site.call).toList + L) w.trace) :
    Spaced site B L (w.release hold).trace := by
  rcases w.release_cases hold (fun _ => Entry.affects_of_isGate) fun _ => Entry.affects_of_ne with
    ⟨k, b, hnumber, htr⟩ | ⟨hnone, hkeeps⟩
  · rw [hnumber] at h
    rw [htr]
    exact h.finish (if_pos rfl)
  · rw [hnone, Option.toList_none, Multiset.coe_nil, zero_add] at h
    exact h.keeps hkeeps

/-- When all is given back, the invocations among it have ended. -/
theorem Spaced.releaseAll {hs : List Holding}
    (h : Spaced site B (invocationsAt site.call hs + L) w.trace) :
    Spaced site B L (w.releaseAll hs).trace := by
  induction hs generalizing w with
  | nil =>
    rw [Multiset.coe_nil, invocationsAt, Multiset.filterMap_zero, zero_add] at h
    exact h
  | cons hold hs ih =>
    rw [← Multiset.cons_coe, invocationsAt_cons, add_assoc] at h
    exact ih h.release

/-! ### Moments -/

theorem World.liveIn_release (h : liveIn id w.trace = invocationsAt id (hold ::ₘ H)) :
    liveIn id (w.release hold).trace = invocationsAt id H := by
  rw [invocationsAt_cons] at h
  rcases w.release_cases hold (fun _ => Entry.engages_of_isGate) fun _ => Entry.engages_of_ne with
    ⟨k, b, hnumber, htr⟩ | ⟨hnone, hkeeps⟩
  · rw [hnumber] at h
    have hended : (Record.abandoned id k b).ended? id = some k := if_pos rfl
    rw [htr, liveIn_finish hended, h]
    exact Multiset.erase_cons_head k _
  · rw [hnone, Option.toList_none, Multiset.coe_nil, zero_add] at h
    rw [hkeeps.liveIn_eq, h]

/-- **What is live is held**, whatever is done. -/
theorem Effect.live (he : Effect K x y) (h : liveIn id x.world.trace = invocationsAt id x.held) :
    liveIn id y.world.trace = invocationsAt id y.held := by
  cases he with
  | lapse w H _ => exact h
  | plain hw H R =>
    have hkeeps : World.Keeps (fun _ => ()) (Entry.engages id) _ _ :=
      hw.keeps fun _ => Entry.engages_of_isPlain
    exact hkeeps.liveIn_eq.trans h
  | @ask σ gate w w' gain ha H R =>
    obtain ⟨hkeeps, hgain⟩ : w.Keeps (fun _ => ()) (Entry.engages id) w' ∧ invocationsAt id gain = 0 :=
      ha.keeps fun _ => Entry.engages_of_isGate
    rw [hkeeps.liveIn_eq, invocationsAt_add, hgain, zero_add]
    exact h
  | settle w σ s permit o H R =>
    have hkeeps : w.Keeps (fun _ => ()) (Entry.engages id) _ :=
      .settlePermit_gate (fun _ => Entry.engages_of_isGate) w σ s permit o
    rw [hkeeps.liveIn_eq, h, invocationsAt_cons]
    exact zero_add _
  | invoke w call token actions H R =>
    -- what is live and what is held grow by the same number
    rw [invocationsAt_cons, World.invoke_trace]
    by_cases hcall : call = id
    · subst hcall
      have hbegun : (Record.invoked call (w.invoked call).length (w.isCancelled token)).begun? call =
        some (w.invoked call).length := if_pos rfl
      rw [liveIn_begin hbegun, h, Holding.number?, if_pos rfl]
      rfl
    · have hother : Entry.engages id ⟨w.now, .invoked call (w.invoked call).length
          (w.isCancelled token)⟩ = false := Entry.engages_of_ne hcall
      rw [liveIn_quiet hother, h, Holding.number?, if_neg hcall]
      exact (zero_add _).symm
  -- an invocation that ends was held until now
  | finish w call k token ending H R =>
    rw [invocationsAt_cons] at h
    by_cases hcall : call = id
    · subst hcall
      have hended : (Record.finished call k ending).ended? call = some k := if_pos rfl
      rw [Holding.number?, if_pos rfl] at h
      rw [World.note_trace, liveIn_finish hended, h]
      exact Multiset.erase_cons_head k _
    · have hother : Entry.engages id ⟨w.now, .finished call k ending⟩ = false :=
        Entry.engages_of_ne hcall
      rw [Holding.number?, if_neg hcall] at h
      rw [World.note_trace, liveIn_quiet hother, h]
      exact zero_add _
  | release w hold H R => exact World.liveIn_release h

theorem Moment.live (h : Moment chance K N x) : liveIn id x.world.trace = invocationsAt id x.held := by
  induction h with
  | start => rfl
  | effect _ he ih => exact he.live ih
  | tick _ _ _ ih => exact ih
  | build _ _ _ ih => exact ih
  | call _ _ _ ih => exact ih

end CallPolicy
