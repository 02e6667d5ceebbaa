/-
The breaker of a policy, in a run.

Whatever goes on in a run, to the breaker of one policy it is a run of its own:

* **`Effect.breaker`** — an effect is a move of the breaker, or happens elsewhere;
* **`Moment.breakerRun`** — at every moment, the breaker of a policy and the permits
  of it that are held are a scene of a `BreakerRun`.

So what holds of every `BreakerRun` holds in every run, also between the effects of
one step.
-/
import CallPolicy.Proofs.Usage
import CallPolicy.Proofs.BreakerLaws

namespace CallPolicy

/-- The permit from the breaker of the policy with a given key, if that is what is
held. -/
def Holding.permit? (key : Nat) : Holding → Option (Site × Permit)
  | .permit site _ p => if site.origin.key = key then some (site, p) else none
  | _ => none

/-- The permits from one breaker that are held. -/
def permitsOf (key : Nat) (H : Multiset Holding) : Multiset (Site × Permit) :=
  H.filterMap (Holding.permit? key)

/-- The breaker of a policy in a scene. -/
def Scene.breaker (x : Scene) (key : Nat) : BreakerScene := ⟨x.world, permitsOf key x.held⟩

/-- Each permit that is held is from the breaker of a known policy. -/
def PermitsKnown (K : List Policy) (H : Multiset Holding) : Prop :=
  ∀ {site s permit}, .permit site s permit ∈ H →
    ∃ p ∈ K, site.origin = p.origin ∧ .breaker s ∈ p.layers

variable {K : List Policy} {N : List String} {chance : Chance} {key : Nat} {w w' w'' : World}
  {x y : Scene} {site σ : Site} {s : BreakerSettings} {permit : Permit} {o : Outcome}

/-! ### What happens elsewhere -/

theorem Entry.concerns_of_isPlain {e : Entry} (h : e.record.isPlain = true) :
    e.concerns key = false := by
  obtain ⟨now, r⟩ := e
  cases r with
  | event site e => cases e <;> simp_all [Record.isPlain, Event.isPlain, concerns, change?,
      Event.reached?]
  | gate site step => cases h
  | _ => rfl

theorem Entry.concerns_event {now : Nat} {ev : Event} (h : ev.reached? = none) :
    (Entry.mk now (.event site ev)).concerns key = false := by
  simp [concerns, change?, h]

namespace World.Elsewhere

theorem plain (h : w.Plain w') : w.Elsewhere key w' := h.keeps fun _ => Entry.concerns_of_isPlain

/-- Other parts of the gates change. -/
theorem modifyGates (w : World) (k : Nat) (f : Gates → Gates)
    (h : (f (w.gates k)).breaker = (w.gates k).breaker) :
    w.Elsewhere key (w.modifyGates k f) := by
  refine Keeps.modifyGates w k f ?_
  by_cases hk : key = k
  · rw [hk, assign_self, h]
  · rw [assign_of_ne hk]

/-- Another policy's breaker changes. -/
theorem setBreaker (w : World) (h : σ.origin.key ≠ key) (b : Breaker) :
    w.Elsewhere key (w.setBreaker σ b) := by
  refine Keeps.setBreaker w σ b ?_ ?_
  · rw [assign_of_ne h.symm]
  · simp [Entry.concerns, Entry.change?, h]

theorem settlePermit (w : World) (h : σ.origin.key ≠ key) :
    w.Elsewhere key (w.settlePermit σ s permit o) :=
  (Keeps.note w _ (by simp [Entry.concerns, h])).trans (setBreaker _ h _)

end World.Elsewhere

/-- Asking a gate is nothing to another policy's breaker, and neither is asking
another gate than the breaker. -/
theorem Asked.elsewhere {gate : LayerKind} {gain : Multiset Holding}
    (h : Asked K σ gate w w' gain) (hne : σ.origin.key = key → gate ≠ .breaker) :
    w.Elsewhere key w' := by
  cases h with
  | grant hp hsite hl h =>
    have hkey : σ.origin.key ≠ key := fun hk => hne hk rfl
    obtain ⟨b, -, rfl⟩ := World.acquirePermit_ok h
    exact (World.Elsewhere.setBreaker w hkey b).trans
      (.note _ _ (by simp [Entry.concerns, hkey]))
  | refuse hp hsite hl h =>
    have hkey : σ.origin.key ≠ key := fun hk => hne hk rfl
    obtain ⟨-, -, rfl⟩ := World.acquirePermit_error h
    exact (World.Elsewhere.setBreaker w hkey _).trans
      (.emit _ σ .circuitRefused (Entry.concerns_event rfl))
  | occupy hp hsite hl h =>
    obtain ⟨-, rfl⟩ := Operation.takeSlot_ok σ w h
    exact (World.Elsewhere.modifyGates w _ _ rfl).trans
      (.emit _ σ .slotTaken (Entry.concerns_event rfl))
  | crowd hp hsite hl h =>
    obtain ⟨-, -, rfl⟩ := Operation.takeSlot_error σ w h
    exact .emit w σ .bulkheadFull (Entry.concerns_event rfl)
  | spend hp hsite hl h =>
    obtain ⟨bucket, rfl⟩ := Operation.takeToken_eq σ w h
    exact (World.Elsewhere.modifyGates w _ _ rfl).trans (.note _ _ rfl)
  | limit hp hsite hl h =>
    obtain ⟨bucket, rfl⟩ := Operation.takeToken_eq σ w h
    exact (World.Elsewhere.modifyGates w _ _ rfl).trans
      (.emit _ σ .rateLimited (Entry.concerns_event rfl))

theorem World.Elsewhere.release (w : World) (h : Holding) (hne : h.permit? key = none) :
    w.Elsewhere key (w.release h) := by
  cases h with
  | invocation call k token => exact .note w _ rfl
  | slot σ =>
    exact (modifyGates w _ _ rfl).trans (.emit _ σ .slotReleased (Entry.concerns_event rfl))
  | permit σ s p =>
    have hkey : σ.origin.key ≠ key := by
      intro hk
      rw [Holding.permit?, if_pos hk] at hne
      cases hne
    exact settlePermit w hkey

/-! ### The permits that are held -/

theorem permitsOf_cons_of_none {h : Holding} {H : Multiset Holding} (hh : h.permit? key = none) :
    permitsOf key (h ::ₘ H) = permitsOf key H := Multiset.filterMap_cons_none _ _ hh

theorem permitsOf_cons_permit {H : Multiset Holding} (hkey : site.origin.key = key) :
    permitsOf key (.permit site s permit ::ₘ H) = (site, permit) ::ₘ permitsOf key H :=
  Multiset.filterMap_cons_some _ _ _ (by rw [Holding.permit?, if_pos hkey])

theorem PermitsKnown.effect (h : PermitsKnown K x.held) (e : Effect K x y) :
    PermitsKnown K y.held := by
  cases e with
  | lapse w H hR => exact h
  | plain hw H R => exact h
  | @ask σ gate w w' gain hw H R =>
    intro site s permit hmem
    rcases Multiset.mem_add.mp hmem with hgain | hH
    · cases hw with
      | grant hp hsite hl hw =>
        cases Multiset.mem_singleton.mp hgain
        exact ⟨_, hp, hsite, hl⟩
      | occupy hp hsite hl hw => cases Multiset.mem_singleton.mp hgain
      | _ => exact absurd hgain (Multiset.notMem_zero _)
    · exact h hH
  | settle w site s permit o H R => exact fun hmem => h (Multiset.mem_cons_of_mem hmem)
  | invoke w call token actions H R =>
    intro site s permit hmem
    rcases Multiset.mem_cons.mp hmem with hinv | hH
    · cases hinv
    · exact h hH
  | finish w call k token e H R => exact fun hmem => h (Multiset.mem_cons_of_mem hmem)
  | release w hold H R => exact fun hmem => h (Multiset.mem_cons_of_mem hmem)

/-- Nothing is gained from this breaker by asking something else. -/
theorem Asked.permitsOf_gain {gate : LayerKind} {gain : Multiset Holding}
    (h : Asked K σ gate w w' gain) (hne : σ.origin.key = key → gate ≠ .breaker) :
    permitsOf key gain = 0 := by
  cases h with
  | grant hp hsite hl h =>
    rw [← Multiset.cons_zero, permitsOf_cons_of_none]
    · rfl
    · rw [Holding.permit?, if_neg fun hkey => hne hkey rfl]
  | occupy hp hsite hl h => rfl
  | _ => rfl

/-! ### Effects and moments -/

/-- Who may still ask the breaker has no permit from it yet. -/
theorem Scene.Once.fresh {H : Multiset Holding} {R : Multiset Right}
    (h : (Scene.mk w H (.ask σ .breaker ::ₘ R)).Once N) : ∀ e ∈ w.trace, e.admits σ = false := by
  obtain ⟨hone, -⟩ := h σ .breaker
  rw [Scene.uses, Multiset.count_cons_self] at hone
  -- the right that is left is the only use
  have hzero : Trace.asks σ .breaker w.trace = 0 := by
    dsimp only at hone
    omega
  intro e he
  by_contra hne
  have hadmits : e.admits σ = true := by simpa using hne
  apply List.countP_eq_zero.mp hzero e he
  unfold Entry.admits at hadmits
  unfold Entry.asked?
  split at hadmits
  next hr =>
    rw [hr]
    simpa using hadmits
  next => cases hadmits

/-- **An effect is a move** of the breaker of one policy, or happens elsewhere. -/
theorem Effect.breaker (e : Effect K x y) (hknown : PermitsKnown K x.held) (honce : x.Once N)
    (key : Nat) :
    (x.world.Elsewhere key y.world ∧ permitsOf key y.held = permitsOf key x.held) ∨
    ∃ p ∈ K, p.origin.key = key ∧ ∃ s, .breaker s ∈ p.layers ∧
      BreakerMove key s (x.breaker key) (y.breaker key) := by
  cases e with
  | lapse w H hR => exact .inl ⟨.refl w, rfl⟩
  | plain hw H R => exact .inl ⟨.plain hw, rfl⟩
  | @ask σ gate w w' gain hw H R =>
    -- only the breaker of this policy is of interest
    by_cases hk : σ.origin.key = key ∧ gate = .breaker
    · obtain ⟨hkey, rfl⟩ := hk
      have fresh : ∀ e ∈ w.trace, e.admits σ = false := honce.fresh
      cases hw with
      | grant hp hsite hl hw =>
        refine .inr ⟨_, hp, hsite ▸ hkey, _, hl, ?_⟩
        rw [Scene.breaker, Scene.breaker, Multiset.singleton_add, permitsOf_cons_permit hkey]
        exact .grant hkey fresh hw
      | refuse hp hsite hl hw =>
        refine .inr ⟨_, hp, hsite ▸ hkey, _, hl, ?_⟩
        rw [Scene.breaker, Scene.breaker, zero_add]
        exact .refuse hkey hw
    · have hne : σ.origin.key = key → gate ≠ .breaker := fun hkey hgate => hk ⟨hkey, hgate⟩
      refine .inl ⟨hw.elsewhere hne, ?_⟩
      show permitsOf key (gain + H) = permitsOf key H
      rw [permitsOf, Multiset.filterMap_add, ← permitsOf, hw.permitsOf_gain hne, zero_add]
      rfl
  -- a permit that is held says which policy it is of
  | settle w σ s permit o H R =>
    by_cases hkey : σ.origin.key = key
    · obtain ⟨p, hp, hsite, hl⟩ := hknown (Multiset.mem_cons_self _ _)
      refine .inr ⟨p, hp, hsite ▸ hkey, s, hl, ?_⟩
      rw [Scene.breaker, permitsOf_cons_permit hkey]
      exact .settle w _ σ permit o
    · refine .inl ⟨.settlePermit w hkey, ?_⟩
      exact (permitsOf_cons_of_none (by rw [Holding.permit?, if_neg hkey])).symm
  | invoke w call token actions H R =>
    exact .inl ⟨.entry rfl rfl (w.invoke_trace call _ token) rfl, permitsOf_cons_of_none rfl⟩
  | finish w call k token e H R =>
    exact .inl ⟨.note w _ rfl, (permitsOf_cons_of_none rfl).symm⟩
  -- of what is given back, only permits of this policy count
  | release w hold H R =>
    cases hh : hold.permit? key with
    | none => exact .inl ⟨.release w hold hh, (permitsOf_cons_of_none hh).symm⟩
    | some l =>
      cases hold with
      | permit σ s p =>
        have hkey : σ.origin.key = key := by
          by_contra hne
          rw [Holding.permit?, if_neg hne] at hh
          cases hh
        obtain ⟨q, hq, hsite, hl⟩ := hknown (Multiset.mem_cons_self _ _)
        refine .inr ⟨q, hq, hsite ▸ hkey, s, hl, ?_⟩
        rw [Scene.breaker, permitsOf_cons_permit hkey]
        exact .drop w _ σ p
      | _ => cases hh

namespace Moment

theorem permitsKnown (h : Moment chance K N x) : PermitsKnown K x.held := by
  induction h with
  | start => exact fun hmem => absurd hmem (Multiset.notMem_zero _)
  | effect _ e ih => exact ih.effect e
  | tick _ _ _ ih => exact ih
  | build _ p hp ih =>
    intro site s permit hmem
    obtain ⟨q, hq, hsite, hl⟩ := ih hmem
    exact ⟨q, List.mem_append_left _ hq, hsite, hl⟩
  | call _ _ _ ih => exact ih

/-- Nothing happens to the breaker of a policy that has not been built. -/
theorem breaker_new (h : Moment chance K N x) (hkey : K.length ≤ key) :
    x.world.breaker key = .new := by
  induction h with
  | start => rfl
  | effect hx e ih =>
    rcases e.breaker hx.permitsKnown hx.once key with ⟨helse, -⟩ | ⟨p, hp, hpkey, -⟩
    · exact helse.breaker.trans (ih hkey)
    · have := hx.key_lt hp
      omega
  | tick _ _ _ ih => exact ih hkey
  | build _ p hp ih =>
    rw [List.length_append, List.length_singleton] at hkey
    have hne : key ≠ p.origin.key := by omega
    rw [World.breaker, Policy.install, World.modifyGates_gates, assign_of_ne hne]
    exact ih (by omega)
  | call _ _ _ ih => exact ih hkey

/-- To a breaker, a run is a run of its own, also before its policy is built. -/
theorem breakerRun_of_settings (h : Moment chance K N x)
    (hs : ∀ p ∈ K, p.origin.key = key → ∀ s', .breaker s' ∈ p.layers → s' = s) :
    BreakerRun key s (x.breaker key) := by
  induction h with
  | start => exact .start (.start chance) rfl nofun
  | effect hx e ih =>
    obtain ⟨helse, hpermits⟩ | ⟨p, hp, hpkey, s', hl, hmove⟩ :=
      e.breaker hx.permitsKnown hx.once key
    · have hrun := (ih hs).move (.elsewhere helse)
      rw [← hpermits] at hrun
      exact hrun
    · obtain rfl := hs p hp hpkey s' hl
      exact (ih hs).move hmove
  | tick _ t ht ih => exact (ih hs).move (.elsewhere (.tick _ t ht))
  | @build K N w H R hx p hp ih =>
    have hrun := ih fun q hq => hs q (List.mem_append_left _ hq)
    -- the gates of the new policy are as good as new already
    have hnew : w.breaker p.origin.key = .new := hx.breaker_new hp.ge
    have hsame : w.Elsewhere key (p.install w) := .modifyGates w _ _ hnew.symm
    exact hrun.move (.elsewhere hsame)
  | call _ _ _ ih => exact ih hs

/-- **The breaker of a policy** and the permits of it that are held are a scene of a
breaker's run at every moment. -/
theorem breakerRun (h : Moment chance K N x) {p : Policy} (hp : p ∈ K)
    (hl : .breaker s ∈ p.layers) : BreakerRun p.origin.key s (x.breaker p.origin.key) := by
  refine h.breakerRun_of_settings fun q hq hkey s' hl' => ?_
  obtain rfl := h.eq_of_key_eq hq hp hkey
  exact Layer.breaker.inj (q.eq_of_kind_eq hl' hl rfl)

end Moment

end CallPolicy
