/-
What a breaker has to do with a call.

The trace says when a call got a permit from the breaker of its policy, and with which
outcome the permit came back (`World.dealings`).

* **`Moment.dealt`** — at every moment of a run a call has got one permit at most, which
  has come back once or is held;
* **`Reachable.hushed`** — as long as nothing but ignored outcomes come back, a closed
  breaker stays as it is.
-/
import CallPolicy.Proofs.PolicyBreaker
import CallPolicy.Proofs.Confined

namespace CallPolicy

open Relation

/-- What a breaker does with a call, if the record tells of that. -/
def Record.dealing? (site : Site) : Record → Option GateStep
  | .gate σ (.permitIssued p) => if σ = site then some (.permitIssued p) else none
  | .gate σ (.permitSettled p o) => if σ = site then some (.permitSettled p o) else none
  | _ => none

/-- What the breaker of a call's policy has done with the call, the last first. -/
def World.dealings (site : Site) (w : World) : List GateStep :=
  w.trace.filterMap (·.record.dealing? site)

/-- The permit of a call, if that is what is held. -/
def Holding.permitOf? (site : Site) : Holding → Option Permit
  | .permit σ _ p => if σ = site then some p else none
  | _ => none

/-- The permits of a call that are held. -/
def permitsAt (site : Site) (H : Multiset Holding) : Multiset Permit :=
  H.filterMap (Holding.permitOf? site)

/-- A call has not been admitted; or it has, and its permit is held; or the permit has come
back. -/
inductive Dealt : List GateStep → Multiset Permit → Prop
  | none : Dealt [] 0
  | issued (p : Permit) : Dealt [.permitIssued p] {p}
  | settled (p : Permit) (o : Outcome) : Dealt [.permitSettled p o, .permitIssued p] 0

variable {K : List Policy} {N : List String} {chance : Chance} {site σ : Site} {key : Nat}
  {w w' w'' : World} {x y : Scene} {r : Record} {H : Multiset Holding} {S S' : Simulation}

/-! ### What the trace tells -/

theorem Record.dealing?_news (st : BreakerState) : (event σ st.news).dealing? site = none := rfl

theorem Record.dealing?_of_isPlain (h : r.isPlain = true) : r.dealing? site = none := by
  cases r with
  | gate σ step => cases h
  | _ => rfl

theorem Record.call_of_dealing? {d : GateStep} (h : r.dealing? site = some d) :
    r.call = site.call ∧ r.teller? = some .breaker := by
  unfold dealing? at h
  split at h
  · split at h
    next hsite => exact ⟨hsite ▸ rfl, rfl⟩
    next => cases h
  · split at h
    next hsite => exact ⟨hsite ▸ rfl, rfl⟩
    next => cases h
  · cases h

namespace World

theorem dealings_entry (htr : w'.trace = ⟨w.now, r⟩ :: w.trace) :
    w'.dealings site = (r.dealing? site).toList ++ w.dealings site := by
  rw [dealings, htr, List.filterMap_cons]
  cases r.dealing? site <;> rfl

theorem dealings_quiet (htr : w'.trace = ⟨w.now, r⟩ :: w.trace) (hr : r.dealing? site = none) :
    w'.dealings site = w.dealings site := by
  rw [dealings_entry htr, hr]
  rfl

theorem dealings_append (htr : ∃ es, w'.trace = es ++ w.trace ∧
      ∀ e ∈ es, e.record.dealing? site = none) : w'.dealings site = w.dealings site := by
  obtain ⟨es, htr, hes⟩ := htr
  rw [dealings, htr, List.filterMap_append, List.filterMap_eq_nil_iff.mpr hes]
  rfl

@[simp] theorem dealings_emit (e : Event) : (w.emit σ e).dealings site = w.dealings site :=
  dealings_quiet (w.emit_trace σ e) rfl

@[simp] theorem dealings_setBreaker (b : Breaker) :
    (w.setBreaker σ b).dealings site = w.dealings site := by
  have htr := w.setBreaker_trace σ b
  split at htr
  · rw [dealings, htr]
    rfl
  · exact dealings_quiet htr (Record.dealing?_news b.state)

theorem dealings_settlePermit (s : BreakerSettings) (p : Permit) (o : Outcome) :
    (w.settlePermit σ s p o).dealings site =
      if σ = site then .permitSettled p o :: w.dealings site else w.dealings site := by
  rw [settlePermit, dealings_setBreaker, dealings_entry (World.note_trace _ _)]
  by_cases hsite : σ = site
  · simp [Record.dealing?, hsite]
  · simp [Record.dealing?, hsite]

theorem Plain.dealings (h : w.Plain w') : w'.dealings site = w.dealings site := by
  obtain ⟨es, htr, hes⟩ := h.trace
  exact dealings_append ⟨es, htr, fun e he => Record.dealing?_of_isPlain (hes e he)⟩

/-- Nothing but a permit that comes back is told of by giving something back. -/
theorem dealings_release {hold : Holding} (h : hold.permitOf? site = none) :
    (w.release hold).dealings site = w.dealings site := by
  cases hold with
  | invocation call k token => exact dealings_quiet (note_trace _ _) rfl
  | slot σ => exact dealings_emit _
  | permit σ s p =>
    have hne : σ ≠ site := by
      rintro rfl
      rw [Holding.permitOf?, if_pos rfl] at h
      cases h
    exact (dealings_settlePermit s p .ignored).trans (if_neg hne)

end World

/-! ### Effects -/

theorem permitsAt_cons_self (s : BreakerSettings) (p : Permit) (H : Multiset Holding) :
    permitsAt site (.permit site s p ::ₘ H) = p ::ₘ permitsAt site H :=
  Multiset.filterMap_cons_some _ _ _ (if_pos rfl)

theorem Holding.permitOf?_of_ne {s : BreakerSettings} {p : Permit} (h : σ ≠ site) :
    (permit σ s p).permitOf? site = none := if_neg h

theorem permitsAt_cons_of_none {hold : Holding} (h : hold.permitOf? site = none) :
    permitsAt site (hold ::ₘ H) = permitsAt site H := Multiset.filterMap_cons_none _ _ h

namespace Dealt

variable {ds : List GateStep} {P : Multiset Permit} {p : Permit}

/-- A call that was never admitted has nothing. -/
theorem of_fresh (h : Dealt (w.dealings site) P) (hfresh : ∀ e ∈ w.trace, e.admits site = false) :
    w.dealings site = [] ∧ P = 0 := by
  have hnot : ∀ p, .permitIssued p ∉ w.dealings site := by
    intro p hmem
    obtain ⟨e, he, hdealing⟩ := List.mem_filterMap.mp hmem
    have hadmits := hfresh e he
    unfold Record.dealing? at hdealing
    unfold Entry.admits at hadmits
    split at hdealing <;> simp_all
  generalize w.dealings site = ds at h hnot
  cases h with
  | none => exact ⟨rfl, rfl⟩
  | issued p => exact absurd List.mem_cons_self (hnot p)
  | settled p o => exact absurd (List.mem_cons_of_mem _ List.mem_cons_self) (hnot p)

/-- The permit that is held comes back. -/
theorem settle (h : Dealt ds (p ::ₘ P)) (o : Outcome) : Dealt (.permitSettled p o :: ds) P := by
  generalize hP : p ::ₘ P = P' at h
  cases h with
  | none => exact absurd hP (Multiset.cons_ne_zero)
  | issued q =>
    rw [← Multiset.cons_zero, Multiset.cons_eq_cons] at hP
    rcases hP with ⟨rfl, rfl⟩ | ⟨-, cs, -, hcs⟩
    · exact .settled p o
    · exact absurd hcs.symm Multiset.cons_ne_zero
  | settled q o' => exact absurd hP (Multiset.cons_ne_zero)

end Dealt

/-- A permit comes back, for this call or for another one. -/
theorem Dealt.settlePermit {s : BreakerSettings} {p : Permit}
    (h : Dealt (w.dealings site) (permitsAt site (.permit σ s p ::ₘ H))) (o : Outcome) :
    Dealt ((w.settlePermit σ s p o).dealings site) (permitsAt site H) := by
  rw [World.dealings_settlePermit]
  by_cases hsite : σ = site
  · subst hsite
    rw [permitsAt_cons_self] at h
    rw [if_pos rfl]
    exact h.settle o
  · rw [permitsAt_cons_of_none (Holding.permitOf?_of_ne hsite)] at h
    rw [if_neg hsite]
    exact h

theorem Asked.dealt {gate : LayerKind} {gain : Multiset Holding} (ha : Asked K σ gate w w' gain)
    (hfresh : gate = .breaker → ∀ e ∈ w.trace, e.admits σ = false)
    (h : Dealt (w.dealings site) (permitsAt site H)) :
    Dealt (w'.dealings site) (permitsAt site (gain + H)) := by
  cases ha with
  | @grant p hp hsite s hl w w' permit hw =>
    obtain ⟨b, -, rfl⟩ := World.acquirePermit_ok hw
    have hdealings : ((w.setBreaker σ b).note (.gate σ (.permitIssued permit))).dealings site =
        ((Record.gate σ (.permitIssued permit)).dealing? site).toList ++ w.dealings site := by
      rw [World.dealings_entry (World.note_trace _ _), World.dealings_setBreaker]
    rw [hdealings, Multiset.singleton_add]
    by_cases hsite : σ = site
    · subst hsite
      -- the call had not asked before, so it has no permit and never had one
      obtain ⟨hnil, hnone⟩ := h.of_fresh (hfresh rfl)
      rw [permitsAt_cons_self, hnone, hnil, Record.dealing?, if_pos rfl]
      exact .issued permit
    · rw [permitsAt_cons_of_none (Holding.permitOf?_of_ne hsite), Record.dealing?, if_neg hsite]
      exact h
  -- the other answers neither issue a permit nor settle one
  | refuse hp hsite hl hw =>
    obtain ⟨-, -, rfl⟩ := World.acquirePermit_error hw
    rw [World.dealings_emit, World.dealings_setBreaker, zero_add]
    exact h
  | occupy hp hsite hl hw =>
    obtain ⟨-, rfl⟩ := Operation.takeSlot_ok σ w hw
    rw [World.dealings_emit, Multiset.singleton_add, permitsAt_cons_of_none rfl]
    exact h
  | crowd hp hsite hl hw =>
    obtain ⟨-, -, rfl⟩ := Operation.takeSlot_error σ w hw
    rw [World.dealings_emit, zero_add]
    exact h
  | spend hp hsite hl hw =>
    obtain ⟨bucket, rfl⟩ := Operation.takeToken_eq σ w hw
    rw [World.dealings_quiet (World.note_trace _ _) rfl, zero_add]
    exact h
  | limit hp hsite hl hw =>
    obtain ⟨bucket, rfl⟩ := Operation.takeToken_eq σ w hw
    rw [World.dealings_emit, zero_add]
    exact h

theorem Effect.dealt (e : Effect K x y) (honce : x.Once N)
    (h : Dealt (x.world.dealings site) (permitsAt site x.held)) :
    Dealt (y.world.dealings site) (permitsAt site y.held) := by
  cases e with
  | lapse w H hR => exact h
  | plain hw H R =>
    rw [hw.dealings]
    exact h
  | ask ha H R =>
    refine ha.dealt (fun hgate => ?_) h
    subst hgate
    exact honce.fresh
  | settle w σ s permit o H R => exact h.settlePermit o
  | invoke w call token actions H R =>
    rw [World.dealings_quiet (World.invoke_trace _ _ _ _) rfl, permitsAt_cons_of_none rfl]
    exact h
  | finish w call k token e H R =>
    rw [permitsAt_cons_of_none rfl] at h
    rw [World.dealings_quiet (World.note_trace _ _) rfl]
    exact h
  | release w hold H R =>
    -- only a permit of this site counts; another holding is dropped in silence
    cases hh : hold.permitOf? site with
    | none =>
      rw [permitsAt_cons_of_none hh] at h
      rw [World.dealings_release hh]
      exact h
    | some p =>
      cases hold with
      | permit σ s p => exact h.settlePermit .ignored
      | _ => cases hh

/-- **One permit at most**, which has come back once or is held. -/
theorem Moment.dealt (h : Moment chance K N x) (site : Site) :
    Dealt (x.world.dealings site) (permitsAt site x.held) := by
  induction h with
  | start => exact .none
  | effect hx e ih => exact e.dealt hx.once ih
  | tick _ _ _ ih => exact ih
  | build _ _ _ ih => exact ih
  | call _ _ _ ih => exact ih

/-! ### Outcomes that are ignored -/

/-- Does an outcome come back that the breaker of a policy listens to? -/
def Entry.speaks (key : Nat) (e : Entry) : Bool :=
  match e.record with
  | .gate site (.permitSettled _ o) => site.origin.key = key ∧ o ≠ .ignored
  | _ => false

/-- As long as no outcome comes back that a breaker listens to, it stays as it is if it is
closed. -/
def World.Hushed (key : Nat) (w w' : World) : Prop :=
  ∃ es, w'.trace = es ++ w.trace ∧ ((w.breaker key).state = .closed →
    (∀ e ∈ es, e.speaks key = false) → w'.breaker key = w.breaker key)

namespace World.Hushed

theorem refl (w : World) : w.Hushed key w := ⟨[], rfl, fun _ _ => rfl⟩

theorem trans (h : w.Hushed key w') (h' : w'.Hushed key w'') : w.Hushed key w'' := by
  obtain ⟨es, htr, hes⟩ := h
  obtain ⟨es', htr', hes'⟩ := h'
  refine ⟨es' ++ es, by rw [htr', htr, List.append_assoc], fun hclosed hall => ?_⟩
  have hsame := hes hclosed fun e he => hall e (List.mem_append_right _ he)
  exact (hes' (hsame ▸ hclosed) fun e he => hall e (List.mem_append_left _ he)).trans hsame

theorem of_trace (htr : ∃ es, w'.trace = es ++ w.trace)
    (hb : (w.breaker key).state = .closed → w'.breaker key = w.breaker key) :
    w.Hushed key w' := by
  obtain ⟨es, htr⟩ := htr
  exact ⟨es, htr, fun hclosed _ => hb hclosed⟩

theorem elsewhere (h : w.Elsewhere key w') : w.Hushed key w' := by
  obtain ⟨es, htr, -⟩ := h.trace
  exact of_trace ⟨es, htr⟩ fun _ => h.breaker

/-- A breaker is put into the condition it is in. -/
theorem setBreaker {b : Breaker}
    (h : (w.breaker σ.origin.key).state = .closed → b = w.breaker σ.origin.key) :
    w.Hushed σ.origin.key (w.setBreaker σ b) := by
  refine of_trace ?_ fun hclosed => (World.breaker_setBreaker b).trans (h hclosed)
  rw [World.setBreaker_trace]
  split
  · exact ⟨[], rfl⟩
  · exact ⟨[_], rfl⟩

theorem settlePermit (s : BreakerSettings) (p : Permit) (o : Outcome) :
    w.Hushed key (w.settlePermit σ s p o) := by
  by_cases hkey : σ.origin.key = key
  · subst hkey
    by_cases ho : o = .ignored
    · subst ho
      have hnote : w.Hushed σ.origin.key (w.note (.gate σ (.permitSettled p .ignored))) :=
        of_trace ⟨[_], rfl⟩ fun _ => rfl
      refine hnote.trans (setBreaker fun hclosed => ?_)
      refine Breaker.record_ignored_of_ne_halfOpen ?_
      show (w.breaker σ.origin.key).state ≠ .halfOpen
      rw [show (w.breaker σ.origin.key).state = .closed from hclosed]
      nofun
    · -- the outcome is one that the breaker listens to
      have hspeaks : Entry.speaks σ.origin.key ⟨w.now, .gate σ (.permitSettled p o)⟩ = true := by
        simp [Entry.speaks, ho]
      have htr : ∃ es, (w.settlePermit σ s p o).trace =
          (es ++ [⟨w.now, .gate σ (.permitSettled p o)⟩]) ++ w.trace := by
        rw [World.settlePermit_trace]
        split
        · exact ⟨[], rfl⟩
        · exact ⟨[_], rfl⟩
      obtain ⟨es, htr⟩ := htr
      refine ⟨_, htr, fun _ hall => ?_⟩
      have hsilent := hall _ (List.mem_append_right _ (List.mem_singleton_self _))
      rw [hspeaks] at hsilent
      cases hsilent
  · exact elsewhere (.settlePermit w hkey)

end World.Hushed

theorem Asked.hushed {gate : LayerKind} {gain : Multiset Holding} (h : Asked K σ gate w w' gain) :
    w.Hushed key w' := by
  by_cases hk : σ.origin.key = key ∧ gate = .breaker
  · obtain ⟨rfl, rfl⟩ := hk
    -- a closed breaker has nothing to recover from, and admits without counting
    have hclosed : ∀ {s : BreakerSettings}, (w.breaker σ.origin.key).state = .closed →
        w.arrival s σ.origin.key = w.breaker σ.origin.key := fun hclosed =>
      if_neg fun hopen => by rw [hclosed] at hopen; cases hopen.1
    cases h with
    | @grant p hp hsite s hl w w' permit hw =>
      obtain ⟨b, hissue, rfl⟩ := World.acquirePermit_ok hw
      refine World.Hushed.trans (.setBreaker fun hc => ?_) (.of_trace ⟨[_], rfl⟩ fun _ => rfl)
      rw [hclosed hc, Breaker.issue, hc] at hissue
      cases hissue
      rfl
    | @refuse p hp hsite s hl w w' r hw =>
      obtain ⟨-, -, rfl⟩ := World.acquirePermit_error hw
      have hset : w.Hushed σ.origin.key (w.setBreaker σ (w.arrival s σ.origin.key)) :=
        .setBreaker hclosed
      exact hset.trans (.elsewhere (.emit _ σ .circuitRefused (Entry.concerns_event rfl)))
  · exact .elsewhere (h.elsewhere fun hkey hgate => hk ⟨hkey, hgate⟩)

theorem Effect.hushed (e : Effect K x y) (key : Nat) : x.world.Hushed key y.world := by
  cases e with
  | lapse w H hR => exact .refl w
  | plain hw H R => exact .elsewhere (.plain hw)
  | ask ha H R => exact ha.hushed
  | settle w σ s permit o H R => exact .settlePermit s permit o
  | invoke w call token actions H R => exact .of_trace ⟨[_], rfl⟩ fun _ => rfl
  | finish w call k token e H R => exact .of_trace ⟨[_], rfl⟩ fun _ => rfl
  | release w hold H R =>
    cases hold with
    | invocation call k token => exact .of_trace ⟨[_], rfl⟩ fun _ => rfl
    | slot σ => exact .elsewhere (World.Elsewhere.release w (.slot σ) rfl)
    | permit σ s p => exact .settlePermit s p .ignored

theorem Steps.hushed (h : Steps K x y) (key : Nat) : x.world.Hushed key y.world := by
  induction h with
  | refl => exact .refl _
  | tail _ e ih => exact ih.trans (e.hushed key)

namespace Simulation

/-- **As long as all outcomes are ignored**, a closed breaker stays as it is. -/
theorem Reachable.hushed (h : S.Reachable chance) {p : Policy} (hp : p ∈ S.policies)
    (hm : ReflTransGen Move S S') : S.world.Hushed p.origin.key S'.world := by
  have hall : S'.Reachable chance ∧ p ∈ S'.policies ∧ S.world.Hushed p.origin.key S'.world := by
    induction hm with
    | refl => exact ⟨h, hp, .refl _⟩
    | @tail S₁ S₂ _ m ih =>
      obtain ⟨hreach, hp, hhushed⟩ := ih
      have hp' : p ∈ S₂.policies := m.policies hp
      refine ⟨hreach.tail m, hp', hhushed.trans ?_⟩
      rcases hreach.accounted.move_cases m with ⟨x, y, -, hsteps, hx, hy⟩ | ⟨t, ht, hw⟩ | ⟨q, hq, hw⟩
      · rw [← hx, ← hy]
        exact hsteps.hushed _
      · rw [hw]
        exact .of_trace ⟨[], rfl⟩ fun _ => rfl
      · obtain ⟨R, hmoment⟩ := hreach.moment
        have hlt := hmoment.key_lt hp
        have hne : p.origin.key ≠ q.origin.key := by omega
        rw [hw]
        refine .of_trace ⟨[], rfl⟩ fun _ => ?_
        rw [World.breaker, Policy.install, World.modifyGates_gates, assign_of_ne hne]
        rfl
  exact hall.2.2

end Simulation

end CallPolicy
