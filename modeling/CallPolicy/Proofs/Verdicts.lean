/-
What a breaker is told of a call.

The breaker of a policy is asked once on behalf of a call. If it admits the call, what is
behind it lives on by itself, until it ends, panics or is dropped (`Fate`), and that is what
the breaker is told (`Operation.Consults`), whatever is made of it outside.

* **`Lives.of_holding`** — an activity during which something is held, seen from inside;
* **`Operation.consults`** — a call that asks its breaker, seen from inside;
* **`admission_per_call`** — each call is admitted once, and each admitted call reports one
  outcome.
-/
import CallPolicy.Proofs.Dealings
import CallPolicy.Proofs.Bulkhead
import CallPolicy.Proofs.Deadline

namespace CallPolicy

open Activity Operation Relation

variable {ο η : Type} {w w' w₀ w₁ w₂ : World} {t u : Token} {id : CallId} {kinds : List LayerKind}
  {timely : Prop} {site : Site} {s : BreakerSettings} {p : Permit} {op : Operation}

/-! ### Lives inside lives -/

/-- **An activity during which something is held** lives on by itself once that is had. -/
theorem Activity.Lives.of_holding {held : η → Holding} {take : World → Except ο η × World}
    {give : η → ο → World → World} {a : Activity Token ο}
    {out : Status (a.holding held take give).State ο × World}
    (h : (a.holding held take give).Lives id timely t w₀ out) :
    (∃ o w, take w₀ = (.error o, w) ∧ out = (.done o, w)) ∨
    ∃ x w out', take w₀ = (.ok x, w) ∧ a.Lives id timely t w out' ∧
      out = holding.keep held give a x out' := by
  have hpending : ∀ {x : η} {s : η × a.State} {w : World} {out' : Status a.State ο × World},
      (.pending s, w) = holding.keep held give a x out' → out' = (.pending s.2, w) ∧ s.1 = x := by
    rintro x s w ⟨s' | o | y, w'⟩ heq <;> cases heq
    exact ⟨rfl, rfl⟩
  induction h with
  | start =>
    rcases htake : take w₀ with ⟨o | x, w⟩
    · exact .inl ⟨o, w, rfl, holding_start_error htake⟩
    · exact .inr ⟨x, w, _, rfl, .start, holding_start_ok htake⟩
  | @wait s w w' _ hw htimely ih =>
    rcases ih with ⟨o, w, -, heq⟩ | ⟨x, w₁, out', htake, hl, heq⟩
    · cases heq
    · obtain ⟨rfl, rfl⟩ := hpending heq
      exact .inr ⟨_, w₁, _, htake, hl.wait hw htimely, rfl⟩
  | @resume s w _ ih =>
    rcases ih with ⟨o, w, -, heq⟩ | ⟨x, w₁, out', htake, hl, heq⟩
    · cases heq
    · obtain ⟨rfl, rfl⟩ := hpending heq
      exact .inr ⟨_, w₁, _, htake, hl.resume, rfl⟩

/-- Whatever has been recorded since an activity was started is within its scope, or about
something else. -/
theorem Activity.Docile.trace_of_lives {a : Activity Token ο}
    {keeps : (CallId → Nat) → Token → a.State → World → Prop} {out : Status a.State ο × World}
    (hd : a.Attends id kinds keeps) (hw₀ : w₀.Ready w₀.minted t) (h : a.Lives id timely t w₀ out) :
    ∃ es, out.2.trace = es ++ w₀.trace ∧
      ∀ e ∈ es, id.Within e.record.call → (Scope.ofCall id kinds t).Records e.record := by
  have hpoll : ∀ {w w' : World}, w.Confined (.ofCall id kinds t) w₀.minted w' →
      (∃ es, w.trace = es ++ w₀.trace ∧
        ∀ e ∈ es, id.Within e.record.call → (Scope.ofCall id kinds t).Records e.record) →
      ∃ es, w'.trace = es ++ w₀.trace ∧
        ∀ e ∈ es, id.Within e.record.call → (Scope.ofCall id kinds t).Records e.record := by
    rintro w w' hw ⟨es, htr, hes⟩
    obtain ⟨es', htr', hes'⟩ := hw.trace
    refine ⟨es' ++ es, by rw [htr', htr, List.append_assoc], fun e he hcall => ?_⟩
    exact (List.mem_append.mp he).elim (hes' e) (hes e · hcall)
  induction h with
  | start => exact hpoll (hd.start hw₀).confined ⟨[], rfl, nofun⟩
  | wait _ hw _ ih =>
    obtain ⟨es, htr, hes⟩ := ih
    obtain ⟨es', htr', hes'⟩ := hw.trace
    refine ⟨es' ++ es, by rw [htr', htr, List.append_assoc], fun e he hcall => ?_⟩
    exact (List.mem_append.mp he).elim (fun he => absurd hcall (hes' e he)) (hes e · hcall)
  | resume hl ih => exact hpoll (hd.confined_of_lives hw₀ hl).1 ih

theorem World.releaseAll_concat (w : World) (hs : List Holding) (h : Holding) :
    w.releaseAll (hs ++ [h]) = (w.releaseAll hs).release h := by
  rw [releaseAll, List.foldl_append]
  rfl

/-! ### What becomes of what is behind a breaker -/

/-- What becomes of what is behind a breaker. -/
inductive Fate
  /-- It ends. -/
  | returned (r : Result)
  /-- It panics. -/
  | unwound
  /-- It is dropped before it has ended. -/
  | dropped
deriving DecidableEq

/-- What the breaker is told. -/
def Fate.outcome : Fate → Outcome
  | returned r => .ofResult r
  | unwound => .ignored
  | dropped => .ignored

/-- What is behind the breaker has met its fate, if `lives` says how far it has got. -/
inductive Operation.Meets (op : Operation) (lives : Status op.State Result × World → Prop) :
    Fate → World → Prop
  | returned {r : Result} {w : World} (h : lives (.done r, w)) : Meets op lives (.returned r) w
  | unwound {x : String} {w : World} (h : lives (.panicked x, w)) : Meets op lives .unwound w
  | dropped {s : op.State} {w : World} (h : lives (.pending s, w)) :
      Meets op lives .dropped (w.releaseAll (op.holdings s))

/-- What the layers around a breaker make of the fate of what is behind it. -/
inductive Fate.Leads {σ : Type} (outer : List Layer) : Fate → Status σ Result → Prop
  | returned (r : Result) : Leads outer (.returned r) (.done r)
  | unwound (x : String) : Leads outer .unwound (.panicked x)
  | dropped : Leads outer .dropped (.done (.error .timeout))
  /-- A fallback takes the place of a failure. -/
  | replaced {fate : Fate} {f : Failure} {value : String} (hvalue : .fallback value ∈ outer)
      (h : Leads outer fate (.done (.error f) : Status σ Result)) :
      Leads outer fate (.done (.ok value))

/-- The layers around a breaker are left. It may be told that a deadline has passed. -/
structure World.Leaving (site : Site) (late : Prop) (w w' : World) : Prop where
  now : w'.now = w.now
  gates : w'.gates = w.gates
  trace : ∃ es, w'.trace = es ++ w.trace ∧
    (∀ e ∈ es, ∃ ev, e.record = .event site ev ∧ (ev.teller = .fallback ∨ ev.teller = .timeout)) ∧
    ((∃ e ∈ es, e.expires site.call = true) ↔ late)

/-- Under which token and in which world a call comes to its breaker: a deadline around it has
made a child token, and nothing else has been done. -/
def Operation.arrival (site : Site) : List Layer → Token → World → Token × World
  | .timeout _ :: outer, t, w => arrival site outer (w.mint site.call t).1 (w.mint site.call t).2
  | _ :: outer, t, w => arrival site outer t w
  | [], t, w => (t, w)

theorem World.Awaits.arrival (h : w.Awaits site.call t) (outer : List Layer) :
    (Operation.arrival site outer t w).2.Awaits site.call (Operation.arrival site outer t w).1 := by
  induction outer generalizing t w with
  | nil => exact h
  | cons l outer ih =>
    cases l with
    | timeout d => exact ih h.mint
    | _ => exact ih h

/-- How a call stands that asks the breaker of its policy in the world `w₁` and under the token
`u`, with `op` behind the breaker. -/
inductive Operation.Consults (site : Site) (s : BreakerSettings) (outer : List Layer)
    (op : Operation) (timely : Prop) (u : Token) (w₁ : World) :
    Status (List Holding) Result × World → Prop
  /-- The breaker has refused the call, which is over. -/
  | refused {w₂ w : World} {r : Result} {e : Status (List Holding) Result}
      (h : acquirePermit site s w₁ = (.error r, w₂)) (hleads : (Fate.returned r).Leads outer e)
      (hleaving : w₂.Leaving site False w) : Consults site s outer op timely u w₁ (e, w)
  /-- The breaker has admitted the call, and what is behind it is under way. -/
  | waiting {w₂ w : World} {p : Permit} {s' : op.State}
      (h : acquirePermit site s w₁ = (.ok p, w₂))
      (hl : op.Lives site.call timely u w₂ (.pending s', w)) :
      Consults site s outer op timely u w₁ (.pending (op.holdings s' ++ [.permit site s p]), w)
  /-- The breaker has admitted the call and been told of the fate of what is behind it. -/
  | settled {w₂ w w' : World} {p : Permit} {fate : Fate} {e : Status (List Holding) Result}
      (h : acquirePermit site s w₁ = (.ok p, w₂))
      (hl : op.Meets (op.Lives site.call timely u w₂) fate w) (hleads : fate.Leads outer e)
      (hleaving : (w.settlePermit site s p fate.outcome).Leaving site (fate = .dropped) w') :
      Consults site s outer op timely u w₁ (e, w')

namespace Fate.Leads

variable {σ τ : Type} {outer outer' : List Layer} {fate : Fate} {e : Status σ Result}

theorem mono (h : fate.Leads outer e) (hsub : outer ⊆ outer') : fate.Leads outer' e := by
  induction h with
  | returned r => exact .returned r
  | unwound x => exact .unwound x
  | dropped => exact .dropped
  | replaced hvalue _ ih => exact .replaced (hsub hvalue) ih

theorem not_pending (h : fate.Leads outer e) (s : σ) : e ≠ .pending s := by
  cases h <;> exact nofun

/-- Nothing depends on what a suspended call would hold. -/
theorem done {r : Result} (h : fate.Leads outer (.done r : Status σ Result)) :
    fate.Leads outer (.done r : Status τ Result) := by
  generalize he : (.done r : Status σ Result) = e at h
  induction h generalizing r with
  | returned r' => cases he; exact .returned _
  | unwound x => cases he
  | dropped => cases he; exact .dropped
  | replaced hvalue _ ih => cases he; exact .replaced hvalue (ih rfl)

end Fate.Leads

namespace World.Leaving

variable {late : Prop}

theorem refl (w : World) (h : ¬late) : w.Leaving site late w :=
  ⟨rfl, rfl, [], rfl, nofun, ⟨nofun, fun hlate => absurd hlate h⟩⟩

/-- A fallback is told of. -/
theorem fellBack (h : w.Leaving site late w') (f : Failure) :
    w.Leaving site late (w'.emit site (.fellBack f)) := by
  obtain ⟨es, htr, hes, hlate⟩ := h.trace
  refine ⟨(emit_now _ _ _).trans h.now, (emit_gates _ _ _).trans h.gates,
    ⟨w'.now, .event site (.fellBack f)⟩ :: es, ?_, ?_, ?_⟩
  · rw [emit_trace, htr]
    rfl
  · intro e he
    rcases List.mem_cons.mp he with rfl | he
    · exact ⟨_, rfl, .inl rfl⟩
    · exact hes e he
  · rw [← hlate]
    simp [Entry.expires]

/-- A deadline that has passed is told of. -/
theorem expired (w : World) (u : Token) (d : Duration) (h : late) :
    w.Leaving site late ((w.cancel u).emit site (.timedOut d)) := by
  refine ⟨emit_now _ _ _, emit_gates _ _ _, [_], emit_trace _ _ _, ?_, fun _ => h, fun _ => ?_⟩
  · intro e he
    obtain rfl := List.mem_singleton.mp he
    exact ⟨_, rfl, .inr rfl⟩
  · exact ⟨_, List.mem_singleton_self _, decide_eq_true rfl⟩

end World.Leaving

namespace Operation.Consults

variable {outer : List Layer}

/-- Behind a breaker, the call has got as far as what is behind it. -/
theorem behindBreaker {out : Status (op.behindBreaker site s).State Result × World}
    (h : (op.behindBreaker site s).Lives site.call timely t w₀ out) :
    Consults site s [] op timely t w₀ (Status.lift (op.behindBreaker site s).holdings out) := by
  rcases Lives.of_holding h with ⟨r, w, hask, rfl⟩ | ⟨p, w, out', hask, hl, rfl⟩
  · exact .refused hask (.returned r) (.refl w nofun)
  · rcases out' with ⟨s' | r | x, w'⟩
    · exact .waiting hask hl
    · exact .settled hask (.returned hl) (.returned r) (.refl _ nofun)
    · exact .settled hask (.unwound hl) (.unwound x) (.refl _ nofun)

theorem mono {outer' : List Layer} {e : Status (List Holding) Result × World}
    (h : Consults site s outer op timely u w₁ e) (hsub : outer ⊆ outer') :
    Consults site s outer' op timely u w₁ e := by
  cases h with
  | refused hask hleads hleaving => exact .refused hask (hleads.mono hsub) hleaving
  | waiting hask hl => exact .waiting hask hl
  | settled hask hl hleads hleaving => exact .settled hask hl (hleads.mono hsub) hleaving

/-- A fallback takes the place of a failure. -/
theorem fellBack {f : Failure} {value : String} (hvalue : .fallback value ∈ outer)
    (h : Consults site s outer op timely u w₁ (.done (.error f), w)) :
    Consults site s outer op timely u w₁ (.done (.ok value), w.emit site (.fellBack f)) := by
  cases h with
  | refused hask hleads hleaving =>
    exact .refused hask (.replaced hvalue hleads) (hleaving.fellBack f)
  | settled hask hl hleads hleaving =>
    exact .settled hask hl (.replaced hvalue hleads) (hleaving.fellBack f)

/-- The call is dropped because its deadline has come. -/
theorem expired {hs : List Holding} (v : Token) (d : Duration)
    (h : Consults site s outer op timely u w₁ (.pending hs, w)) :
    Consults site s outer op timely u w₁
      (.done (.error .timeout), ((w.releaseAll hs).cancel v).emit site (.timedOut d)) := by
  cases h with
  | @waiting w₂ w p s' hask hl =>
    -- the permit is given back last
    rw [World.releaseAll_concat]
    exact .settled hask (.dropped hl) .dropped (.expired _ v d rfl)
  | refused _ hleads _ => exact absurd rfl (hleads.not_pending hs)
  | settled _ _ hleads _ => exact absurd rfl (hleads.not_pending hs)

end Operation.Consults

/-- **A call that asks its breaker**, seen from inside. -/
theorem Operation.consults {outer inner : List Layer}
    (houter : ∀ l ∈ outer, l.kind = .fallback ∨ l.kind = .timeout)
    {out : Status (stack site (outer ++ .breaker s :: inner) op).State Result × World}
    (h : (stack site (outer ++ .breaker s :: inner) op).Lives site.call timely t w₀ out) :
    Consults site s outer (stack site inner op) timely (arrival site outer t w₀).1
      (arrival site outer t w₀).2
      (Status.lift (stack site (outer ++ .breaker s :: inner) op).holdings out) := by
  -- the induction peels what is around the breaker, a fallback or a deadline at a time
  induction outer generalizing t w₀ with
  | nil => exact .behindBreaker h
  | cons l outer ih =>
    let rest := stack site (outer ++ .breaker s :: inner) op
    have hrest : ∀ {t : Token} {w : World} {out : Status rest.State Result × World},
        rest.Lives site.call timely t w out →
        Consults site s (l :: outer) (stack site inner op) timely (arrival site outer t w).1
          (arrival site outer t w).2 (Status.lift rest.holdings out) := fun hl =>
      (ih (fun l hl => houter l (List.mem_cons_of_mem _ hl)) hl).mono (List.subset_cons_self _ _)
    cases l with
    | fallback value =>
      obtain ⟨out', hl, rfl⟩ := Lives.of_after (a := rest) h
      have hconsults := hrest hl
      rcases out' with ⟨s' | (f | v) | x, w⟩
      · exact hconsults
      · exact hconsults.fellBack List.mem_cons_self
      · exact hconsults
      · exact hconsults
    | timeout d =>
      obtain ⟨out', hl, rfl⟩ := Lives.of_after (a := rest.within site.call d) h
      have hlimits := Lives.of_within hl
      clear hl
      cases hlimits with
      | pending hl => exact hrest hl
      | ready hl => exact hrest hl
      -- the deadline drops the call, whose permit comes back ignored
      | expired hl hD => exact Consults.expired _ d (hrest hl)
      | panicked hl => exact hrest hl
    | _ => exact absurd (houter _ List.mem_cons_self) (by simp [Layer.kind])

/-! ### What is told of a call -/

theorem Outcome.ofResult_eq_success {r : Result} : ofResult r = .success ↔ ∃ v, r = .ok v := by
  rcases r with (f | v)
  · cases f <;> simp [ofResult, Failure.isRejection]
  · simp [ofResult]

theorem Outcome.ofResult_eq_ignored {r : Result} : ofResult r = .ignored ↔
    ∃ f ∈ [Failure.circuitOpen, .bulkheadFull, .rateLimited, .cancelled], r = .error f := by
  rcases r with (f | v)
  · cases f <;> simp [ofResult, Failure.isRejection]
  · simp [ofResult]

theorem Outcome.ofResult_eq_failure {r : Result} : ofResult r = .failure ↔
    ∃ f ∉ [Failure.circuitOpen, .bulkheadFull, .rateLimited, .cancelled], r = .error f := by
  rcases r with (f | v)
  · cases f <;> simp [ofResult, Failure.isRejection]
  · simp [ofResult]

/-- What the breaker has done with a call, of which no deadline has been told of. -/
structure World.Shows (site : Site) (ds : List GateStep) (w : World) : Prop where
  dealings : w.dealings site = ds
  early : ∀ e ∈ w.trace, e.expires site.call = false

/-- Does the entry tell of no permit of a call, and of no deadline? -/
def Entry.Omits (site : Site) (e : Entry) : Prop :=
  e.record.dealing? site = none ∧ e.expires site.call = false

theorem Entry.call_of_expires {e : Entry} (h : e.expires id = true) : e.record.call = id := by
  unfold expires at h
  split at h
  next σ d hr =>
    rw [hr]
    exact of_decide_eq_true h
  next => cases h

/-- What is about other calls omits this one. -/
theorem Entry.omits_of_call {e : Entry} (h : e.record.call ≠ site.call) : e.Omits site := by
  constructor
  · cases hd : e.record.dealing? site with
    | none => rfl
    | some d => exact absurd (Record.call_of_dealing? hd).1 h
  · cases he : e.expires site.call with
    | false => rfl
    | true => exact absurd (call_of_expires he) h

/-- Layers that are neither breaker nor deadline tell of neither. -/
theorem Entry.omits_of_records {e : Entry} (hbreaker : .breaker ∉ kinds)
    (htimeout : .timeout ∉ kinds) (h : (Scope.ofCall site.call kinds t).Records e.record) :
    e.Omits site := by
  refine ⟨?_, expires_of_records h htimeout⟩
  cases hd : e.record.dealing? site with
  | none => rfl
  | some d =>
    obtain ⟨hcall, hteller⟩ := Record.call_of_dealing? hd
    exact absurd (h.own hcall _ hteller) hbreaker

namespace World.Shows

variable {ds : List GateStep}

theorem omitted (h : w.Shows site ds)
    (htr : ∃ es, w'.trace = es ++ w.trace ∧ ∀ e ∈ es, e.Omits site) : w'.Shows site ds := by
  obtain ⟨es, htr, hes⟩ := htr
  refine ⟨(dealings_append ⟨es, htr, fun e he => (hes e he).1⟩).trans h.dealings, fun e he => ?_⟩
  rw [htr] at he
  exact (List.mem_append.mp he).elim (fun he => (hes e he).2) (h.early e)

theorem of_awaits (h : w.Awaits site.call t) : w.Shows site [] := by
  have homits : ∀ e ∈ w.trace, e.Omits site := fun e he =>
    Entry.omits_of_call fun hcall => h.trace e he (hcall ▸ .self)
  exact ⟨List.filterMap_eq_nil_iff.mpr fun e he => (homits e he).1, fun e he => (homits e he).2⟩

theorem setBreaker (h : w.Shows site ds) (b : Breaker) : (w.setBreaker site b).Shows site ds := by
  refine h.omitted ?_
  have htr := w.setBreaker_trace site b
  split at htr
  · exact ⟨[], htr, nofun⟩
  · refine ⟨[_], htr, fun e he => ?_⟩
    obtain rfl := List.mem_singleton.mp he
    cases b.state <;> exact ⟨rfl, rfl⟩

/-- The breaker does something with the call. -/
theorem gate (h : w.Shows site ds) {d : GateStep} (hd : (Record.gate site d).dealing? site = some d) :
    (w.note (.gate site d)).Shows site (d :: ds) := by
  refine ⟨?_, fun e he => ?_⟩
  · rw [dealings_entry (note_trace _ _), hd, h.dealings]
    rfl
  · rcases List.mem_cons.mp he with rfl | he
    · rfl
    · exact h.early e he

theorem acquired (h : w.Shows site []) (hw : acquirePermit site s w = (.ok p, w')) :
    w'.Shows site [.permitIssued p] := by
  obtain ⟨b, -, rfl⟩ := acquirePermit_ok hw
  exact (h.setBreaker b).gate (if_pos rfl)

theorem refused {r : Result} (h : w.Shows site []) (hw : acquirePermit site s w = (.error r, w')) :
    w'.Shows site [] := by
  obtain ⟨-, -, rfl⟩ := acquirePermit_error hw
  refine (h.setBreaker _).omitted ⟨[_], emit_trace _ _ _, fun e he => ?_⟩
  obtain rfl := List.mem_singleton.mp he
  exact ⟨rfl, rfl⟩

theorem settled (h : w.Shows site ds) (o : Outcome) :
    (w.settlePermit site s p o).Shows site (.permitSettled p o :: ds) :=
  (h.gate (d := .permitSettled p o) (if_pos rfl)).setBreaker _

/-- What is around a breaker has nothing to do with permits. -/
theorem left {late : Prop} (h : w.Shows site ds) (hw : w.Leaving site late w') :
    w'.dealings site = ds ∧ ((∃ e ∈ w'.trace, e.expires site.call = true) ↔ late) := by
  obtain ⟨es, htr, hes, hlate⟩ := hw.trace
  refine ⟨(dealings_append ⟨es, htr, fun e he => ?_⟩).trans h.dealings, ?_⟩
  · obtain ⟨ev, hr, -⟩ := hes e he
    rw [hr]
    rfl
  · rw [← hlate, htr]
    refine ⟨fun ⟨e, he, hexpires⟩ => ?_, fun ⟨e, he, hexpires⟩ => ?_⟩
    · rcases List.mem_append.mp he with he | he
      · exact ⟨e, he, hexpires⟩
      · rw [h.early e he] at hexpires
        cases hexpires
    · exact ⟨e, List.mem_append_left _ he, hexpires⟩

end World.Shows

/-- What is behind a breaker leaves the permit alone. -/
theorem Operation.shows_of_lives {keeps : (CallId → Nat) → Token → op.State → World → Prop}
    {ds : List GateStep} {out : Status op.State Result × World}
    (hd : op.Attends site.call kinds keeps) (hbreaker : .breaker ∉ kinds)
    (htimeout : .timeout ∉ kinds) (hw₀ : w₀.Ready w₀.minted t) (hshows : w₀.Shows site ds)
    (h : op.Lives site.call timely t w₀ out) : out.2.Shows site ds := by
  obtain ⟨es, htr, hes⟩ := hd.trace_of_lives hw₀ h
  refine hshows.omitted ⟨es, htr, fun e he => ?_⟩
  by_cases hcall : e.record.call = site.call
  · exact Entry.omits_of_records hbreaker htimeout (hes e he (hcall ▸ .self))
  · exact Entry.omits_of_call hcall

/-- Whatever its fate is. -/
theorem Operation.Meets.shows {keeps : (CallId → Nat) → Token → op.State → World → Prop}
    {fate : Fate} {ds : List GateStep} (hd : op.Attends site.call kinds keeps)
    (hbreaker : .breaker ∉ kinds) (htimeout : .timeout ∉ kinds) (hw₀ : w₀.Ready w₀.minted t)
    (hshows : w₀.Shows site ds) (h : op.Meets (op.Lives site.call timely t w₀) fate w) :
    w.Shows site ds := by
  cases h with
  | returned hl => exact shows_of_lives hd hbreaker htimeout hw₀ hshows hl
  | unwound hl => exact shows_of_lives hd hbreaker htimeout hw₀ hshows hl
  | dropped hl =>
    obtain ⟨es, htr, hes⟩ := (hd.confined_of_lives hw₀ hl).2.trace
    exact (shows_of_lives hd hbreaker htimeout hw₀ hshows hl).omitted
      ⟨es, htr, fun e he => Entry.omits_of_records hbreaker htimeout (hes e he)⟩

/-- **What the breaker has done with the call**, wherever the call stands. -/
theorem Operation.Consults.dealings {keeps : (CallId → Nat) → Token → op.State → World → Prop}
    {outer : List Layer} {e : Status (List Holding) Result}
    (hd : op.Attends site.call kinds keeps) (hbreaker : .breaker ∉ kinds)
    (htimeout : .timeout ∉ kinds) (hw₁ : w₁.Awaits site.call u)
    (h : Consults site s outer op timely u w₁ (e, w)) :
    (∃ r w₂, acquirePermit site s w₁ = (.error r, w₂) ∧ (Fate.returned r).Leads outer e ∧
      w₂.Leaving site False w ∧ w.dealings site = []) ∨
    ∃ permit w₂, acquirePermit site s w₁ = (.ok permit, w₂) ∧
      let lives := op.Lives site.call timely u w₂
      ((∃ hs s', e = .pending hs ∧ lives (.pending s', w) ∧
          w.dealings site = [.permitIssued permit] ∧ (w.releaseAll hs).dealings site =
            [.permitSettled permit .ignored, .permitIssued permit]) ∨
        ∃ fate w', op.Meets lives fate w' ∧ fate.Leads outer e ∧
          (w'.settlePermit site s permit fate.outcome).Leaving site (fate = .dropped) w ∧
          w.dealings site = [.permitSettled permit fate.outcome, .permitIssued permit] ∧
          ((∃ e ∈ w.trace, e.expires site.call = true) ↔ fate = .dropped)) := by
  have hready : ∀ {w₂ : World} {p : Permit}, acquirePermit site s w₁ = (.ok p, w₂) →
      w₂.Ready w₂.minted u := by
    intro w₂ p hask
    have hconfined : w₁.Confined (.ofCall site.call [.breaker] u) w₁.minted
        (acquirePermit site s w₁).2 := .acquirePermit site u w₁ s List.mem_cons_self
    rw [hask] at hconfined
    exact (hconfined.ready hw₁.ready).later
  cases h with
  | refused hask hleads hleaving =>
    exact .inl ⟨_, _, hask, hleads, hleaving,
      (((World.Shows.of_awaits hw₁).refused hask).left hleaving).1⟩
  | waiting hask hl =>
    have hissued := (World.Shows.of_awaits hw₁).acquired hask
    have hrest := shows_of_lives hd hbreaker htimeout (hready hask) hissued hl
    have hdropped := Meets.shows hd hbreaker htimeout (hready hask) hissued (.dropped hl)
    refine .inr ⟨_, _, hask, .inl ⟨_, _, rfl, hl, hrest.dealings, ?_⟩⟩
    rw [World.releaseAll_concat]
    exact (hdropped.settled .ignored).dealings
  | @settled w₂ w' _ permit fate _ hask hl hleads hleaving =>
    have hshows := Meets.shows hd hbreaker htimeout (hready hask)
      ((World.Shows.of_awaits hw₁).acquired hask) hl
    obtain ⟨hdealings, hlate⟩ := (hshows.settled fate.outcome).left hleaving
    exact .inr ⟨_, _, hask, .inr ⟨fate, w', hl, hleads, hleaving, hdealings, hlate⟩⟩

/-! ### Runs -/

namespace Simulation

variable {chance : Chance} {S : Simulation}

/-- A record of which there is one at most for each call and gate. -/
theorem Reachable.countP_le_one (gate : LayerKind) {r : Record} (h : S.Reachable chance)
    (hr : ∀ now, Entry.asked? ⟨now, r⟩ = some (site, gate)) :
    S.world.trace.countP (·.record = r) ≤ 1 := by
  obtain ⟨R, hm⟩ := h.moment
  refine Nat.le_trans (List.countP_mono_left fun e _ he => ?_)
    ((Nat.le_add_right _ _).trans (hm.once site gate).1)
  obtain ⟨now, r'⟩ := e
  obtain rfl : r' = r := of_decide_eq_true he
  exact decide_eq_true (hr now)

/-- A call holds one slot at most. -/
theorem Reachable.count_slot_le_one (h : S.Reachable chance) (site : Site) :
    S.held.count (.slot site) ≤ 1 := by
  obtain ⟨R, hm⟩ := h.moment
  have hbalance := congrArg (Multiset.count site) hm.housed.balance
  have hle := hm.count_taken_le site
  rw [Multiset.count_add] at hbalance
  rw [← count_slotsOf]
  exact (Nat.le_add_left _ _).trans (hbalance.symm.trans_le hle)

/-- Permits of a call are held by the call from outside that it belongs to. -/
theorem Reachable.permitsAt_eq_zero (h : S.Reachable chance)
    (hover : ∀ r ∈ S.running, ¬r.call.id.Within site.call) : permitsAt site S.held = 0 := by
  refine Multiset.eq_zero_of_forall_notMem fun q hq => ?_
  obtain ⟨hold, hmem, hpermit⟩ := (Multiset.mem_filterMap _ _).mp hq
  obtain ⟨r, hr, hwithin⟩ := h.within_of_mem_held hmem
  refine hover r hr ?_
  cases hold with
  | permit σ s p =>
    have hσ : σ = site := by
      by_contra hne
      rw [Holding.permitOf?, if_neg hne] at hpermit
      cases hpermit
    exact hσ ▸ hwithin
  | _ => cases hpermit

end Simulation

/-- The layers around a breaker replace failures or have deadlines. -/
theorem Layer.kinds_of_outer {outer inner : List Layer}
    (hordered : (outer ++ .breaker s :: inner).Pairwise fun a b =>
      a.kind.position < b.kind.position) :
    (∀ l ∈ outer, l.kind = .fallback ∨ l.kind = .timeout) ∧
      .breaker ∉ inner.map Layer.kind ++ [] ∧ .timeout ∉ inner.map Layer.kind ++ [] := by
  obtain ⟨-, hrest, hacross⟩ := List.pairwise_append.mp hordered
  have hbelow := (List.pairwise_cons.mp hrest).1
  rw [List.append_nil]
  refine ⟨fun l hl => ?_, kind_not_mem_of_below hbelow (Nat.le_refl _),
    kind_not_mem_of_below hbelow (Nat.le_succ _)⟩
  have hlt : l.kind.position < LayerKind.breaker.position := hacross l hl _ List.mem_cons_self
  cases l with
  | fallback value => exact .inl rfl
  | timeout d => exact .inr rfl
  | _ => exact absurd hlt (by simp [Layer.kind, LayerKind.position])

/-- **Admission is per call, and each admitted call reports one outcome.** In every run, a call
takes a token of its policy's rate limit once at most, a slot once at most and a permit once
at most, which comes back once and before the call from outside is over. Whatever comes back
ignored leaves a closed breaker as it is. And a call whose policy has a breaker asks it once:
either it is refused and over, or its permit comes back when what is behind the breaker has
met its fate, with the outcome of that. -/
theorem admission_per_call {chance : Chance} {S : Simulation} (hS : S.Reachable chance) :
    (∀ site : Site,
      S.world.trace.countP (·.record = .gate site .tokenTaken) ≤ 1 ∧
      S.world.trace.countP (·.record = .event site .slotTaken) ≤ 1 ∧
      S.held.count (.slot site) ≤ 1 ∧
      Dealt (S.world.dealings site) (permitsAt site S.held) ∧
      ((∀ r ∈ S.running, ¬r.call.id.Within site.call) → permitsAt site S.held = 0)) ∧
    (∀ p ∈ S.policies, ∀ S', ReflTransGen Simulation.Move S S' →
      ∃ es, S'.world.trace = es ++ S.world.trace ∧
        ((S.world.breaker p.origin.key).state = .closed →
          (∀ e ∈ es, e.speaks p.origin.key = false) →
          S'.world.breaker p.origin.key = S.world.breaker p.origin.key)) ∧
    (∀ fate : Fate,
      (fate.outcome = .success ↔ ∃ v, fate = .returned (.ok v)) ∧
      (fate.outcome = .failure ↔ ∃ f ∉ [Failure.circuitOpen, .bulkheadFull, .rateLimited, .cancelled],
        fate = .returned (.error f)) ∧
      (fate.outcome = .ignored ↔
        (∃ f ∈ [Failure.circuitOpen, .bulkheadFull, .rateLimited, .cancelled],
          fate = .returned (.error f)) ∨ fate = .unwound ∨ fate = .dropped)) ∧
    ∀ {p : Policy} {outer inner : List Layer} {s : BreakerSettings} {script : Script} {id : CallId}
      {t : Token} {w₀ : World} {timely : Prop}
      {out : Status (p.call id (script.operation id)).State Result × World},
      p.layers = outer ++ .breaker s :: inner → w₀.Awaits id t →
      (p.call id (script.operation id)).Lives id timely t w₀ out →
      let site : Site := ⟨p.origin, id⟩
      let call := p.call id (script.operation id)
      let chain := stack site inner (script.operation id)
      let arrived := arrival site outer t w₀
      (∃ r w₂, acquirePermit site s arrived.2 = (.error r, w₂) ∧
        (Fate.returned r).Leads outer out.1 ∧ w₂.Leaving site False out.2 ∧
        out.2.dealings site = []) ∨
      ∃ permit w₂, acquirePermit site s arrived.2 = (.ok permit, w₂) ∧
        let lives := chain.Lives id timely arrived.1 w₂
        ((∃ st s' w, out = (.pending st, w) ∧ lives (.pending s', w) ∧
            w.dealings site = [.permitIssued permit] ∧
            (w.releaseAll (call.holdings st)).dealings site =
              [.permitSettled permit .ignored, .permitIssued permit]) ∨
          ∃ fate w, chain.Meets lives fate w ∧ fate.Leads outer out.1 ∧
            (w.settlePermit site s permit fate.outcome).Leaving site (fate = .dropped) out.2 ∧
            out.2.dealings site = [.permitSettled permit fate.outcome, .permitIssued permit] ∧
            ((∃ e ∈ out.2.trace, e.expires id = true) ↔ fate = .dropped)) := by
  refine ⟨fun site => ⟨?_, ?_, ?_, ?_, ?_⟩, fun p hp S' hmoves => hS.hushed hp hmoves,
    fun fate => ⟨?_, ?_, ?_⟩, ?_⟩
  · exact hS.countP_le_one .rateLimit fun _ => rfl
  · exact hS.countP_le_one .bulkhead fun _ => rfl
  · exact hS.count_slot_le_one site
  -- what was issued and not settled is held
  · obtain ⟨R, hm⟩ := hS.moment
    exact hm.dealt site
  · exact hS.permitsAt_eq_zero
  · cases fate <;> simp [Fate.outcome, Outcome.ofResult_eq_success]
  · cases fate <;> simp [Fate.outcome, Outcome.ofResult_eq_failure]
  · cases fate <;> simp [Fate.outcome, Outcome.ofResult_eq_ignored]
  · intro p outer inner s script id t w₀ timely out hlayers hw₀ hl site call chain arrived
    obtain ⟨keeps, hd⟩ := script.docile id
    obtain ⟨origin, layers, criticality, dependencies, hordered, hfaultless⟩ := p
    obtain rfl : layers = outer ++ .breaker s :: inner := hlayers
    -- what is around the breaker only tells of the fate of the chain behind it
    obtain ⟨houter, hbreaker, htimeout⟩ := Layer.kinds_of_outer hordered
    have hchain : chain.Attends site.call (inner.map Layer.kind ++ []) _ := hd.stack site inner
    obtain ⟨e, he⟩ : ∃ e, Status.lift call.holdings out = (e, out.2) :=
      ⟨_, Prod.ext rfl (Status.lift_snd _ out)⟩
    -- the breaker is asked once, and learns of the fate of what is behind it
    have hconsults : Consults site s outer chain timely arrived.1 arrived.2 (e, out.2) :=
      he ▸ Operation.consults houter hl
    -- a call that has ended holds nothing, so the fate alone says how
    have hends : ∀ {fate : Fate}, fate.Leads outer e → fate.Leads outer out.1 := by
      intro fate h
      rcases out with ⟨st | r | x, w⟩ <;> cases he
      · exact absurd rfl (h.not_pending _)
      · exact h.done
      · cases h
        exact .unwound x
    rcases hconsults.dealings hchain hbreaker htimeout (hw₀.arrival outer) with
      ⟨r, w₂, hask, hleads, hleaving, hnil⟩ | ⟨permit, w₂, hask, hcases⟩
    · exact .inl ⟨r, w₂, hask, hends hleads, hleaving, hnil⟩
    · refine .inr ⟨permit, w₂, hask, ?_⟩
      rcases hcases with ⟨hs, s', rfl, hlives, hissued, hreturned⟩ |
        ⟨fate, w', hmeets, hleads, hleaving, hdealings, hlate⟩
      · rcases out with ⟨st | r | x, w⟩ <;> cases he
        exact .inl ⟨st, s', w, rfl, hlives, hissued, hreturned⟩
      · exact .inr ⟨fate, w', hmeets, hends hleads, hleaving, hdealings, hlate⟩

/-! ### A call that is cut short -/

/-- A policy with a breaker behind a deadline of five milliseconds, and a fallback. -/
def shielded : Policy where
  origin := ⟨0, "p", .none⟩
  layers := [.fallback "v", .timeout (.ofMillis 5), .breaker {}]
  criticality := .critical
  dependencies := []
  ordered := by simp [Layer.kind, LayerKind.position]
  faultless := by
    simp only [List.forall_mem_cons]
    decide

/-- The policy has been built. -/
def fortified : Simulation :=
  ((Simulation.start fun _ => 0).build "p" [.fallback "v", .timeout (.ofMillis 5), .breaker {}]).2

/-- A call that hangs has been started. -/
def stuck : Simulation := fortified.launch ⟨"c", shielded, [[.hang]], "t"⟩

theorem reachable_stuck : stuck.Reachable .plain := by
  have hp : shielded ∈ fortified.policies := List.mem_singleton_self _
  have hs : scriptKnown fortified.policies [[.hang]] := ⟨⟨trivial, trivial⟩, trivial⟩
  have h : fortified.Reachable .plain := .single (.build _ "p" _)
  exact h.tail (.start fortified ⟨"c", shielded, [[.hang]], "t"⟩ hp hs)

/-- The call by itself. -/
def stalling : Operation :=
  shielded.call (.top "c" 0) (Script.operation [[.hang]] (.top "c" 0))

/-- Its deadline has come. -/
def stalled : World := { (stalling.start (.named "t") fortified.world).2 with now := 5000000 }

/-- The call ends with the value of the fallback, and its permit comes back ignored. -/
theorem admission_per_call_stalling :
    let id : CallId := .top "c" 0
    let site : Site := ⟨shielded.origin, id⟩
    stuck.Reachable .plain ∧ Dealt (stuck.world.dealings site) (permitsAt site stuck.held) ∧
    shielded.layers = [.fallback "v", .timeout (.ofMillis 5)] ++ .breaker {} :: [] ∧
    fortified.world.Awaits id (.named "t") ∧
    ∃ s w permit, stalling.Lives id True (.named "t") fortified.world (.pending s, stalled) ∧
      stalling.resume s stalled = (.done (.ok "v"), w) ∧
      w.dealings site = [.permitSettled permit .ignored, .permitIssued permit] := by
  intro id site
  have hlayers : shielded.layers = [.fallback "v", .timeout (.ofMillis 5)] ++ .breaker {} :: [] := rfl
  have hw₀ : fortified.world.Awaits id (.named "t") := ⟨nofun, nofun, fun _ => rfl, nofun⟩
  obtain ⟨keeps, hd⟩ := shielded.docile id [[.hang]]
  have hfirst : fortified.world.Confined (.ofCall id shielded.kinds (.named "t"))
      fortified.world.minted (stalling.start (.named "t") fortified.world).2 :=
    (hd.start hw₀.ready).confined
  -- five milliseconds pass, in which nobody does anything
  have hmeanwhile : (stalling.start (.named "t") fortified.world).2.Meanwhile id (.named "t") stalled :=
    ⟨hfirst.now.trans_le (Nat.zero_le _), hfirst.sane hw₀.sane,
      ⟨fun _ => Nat.le_refl _, [], rfl, nofun⟩, fun _ => rfl, [], rfl, nofun⟩
  let u := (Token.named "t").child id 0
  let s : Limited (Permit × (_ : Nat) × Token × (Visit ⊕ Empty)) :=
    ⟨u, 5000000, ⟨0, false⟩, 0, u, .inl ⟨u, .ok ""⟩⟩
  have hl : stalling.Lives id True (.named "t") fortified.world (.pending s, stalled) := by
    have hpending : stalling.start (.named "t") fortified.world =
        (.pending s, (stalling.start (.named "t") fortified.world).2) := rfl
    have hstart : stalling.Lives id True (.named "t") fortified.world
        (stalling.start (.named "t") fortified.world) := .start
    rw [hpending] at hstart
    refine hstart.wait hmeanwhile fun _ d hd => ?_
    obtain rfl := List.mem_singleton.mp hd
    exact Nat.le_refl 5000000
  obtain ⟨hsites, -, -, hcalls⟩ := admission_per_call reachable_stuck
  refine ⟨reachable_stuck, (hsites site).2.2.2.1, hlayers, hw₀, s,
    (stalling.resume s stalled).2, ?_⟩
  have hlate : ∃ e ∈ (stalling.resume s stalled).2.trace, e.expires id = true :=
    ⟨_, List.mem_cons_of_mem _ List.mem_cons_self, rfl⟩
  rcases hcalls hlayers hw₀ hl.resume with ⟨-, -, -, -, -, hnil⟩ | ⟨permit, w₂, -, hcases⟩
  · cases hnil
  · rcases hcases with ⟨st, -, w, hpending, -⟩ | ⟨fate, w', -, -, -, hdealings, htold⟩
    · cases hpending
    · obtain rfl := htold.mp hlate
      exact ⟨permit, hl, rfl, hdealings⟩

end CallPolicy
