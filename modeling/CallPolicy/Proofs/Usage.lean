/-
Each call asks each gate once.

The trace says which gates were asked on behalf of which calls (`Trace.asks`). At
every moment of a run these and the rights to ask that are still there come to one
at most for each call and gate, and a call that has not been made yet has neither
(`Scene.Once`):

* **`Moment.once`** — no gate is asked twice on behalf of a call;
* **`Moment.eq_of_key_eq`** — policies are told apart by their keys.
-/
import CallPolicy.Proofs.Runs
import CallPolicy.Proofs.BreakerRun

namespace CallPolicy

/-- The call and the gate that is asked on its behalf, if the entry tells of that. -/
def Entry.asked? (e : Entry) : Option (Site × LayerKind) :=
  match e.record with
  | .gate site (.permitIssued _) => some (site, .breaker)
  | .event site .circuitRefused => some (site, .breaker)
  | .gate site .tokenTaken => some (site, .rateLimit)
  | .event site .rateLimited => some (site, .rateLimit)
  | .event site .slotTaken => some (site, .bulkhead)
  | .event site .bulkheadFull => some (site, .bulkhead)
  | _ => none

/-- How often a gate was asked on behalf of a call. -/
def Trace.asks (site : Site) (gate : LayerKind) (tr : List Entry) : Nat :=
  tr.countP fun e => e.asked? = some (site, gate)

/-- How often a call has asked a gate, or may still ask it. -/
def Scene.uses (x : Scene) (site : Site) (gate : LayerKind) : Nat :=
  Trace.asks site gate x.world.trace + x.rights.count (.ask site gate)

/-- Has a call been made, if the calls from outside so far have the names `N`? -/
def Scene.Made (x : Scene) (N : List String) : CallId → Prop
  | .top name n => n < N.count name
  | .nested parent k _ _ => k < (x.world.invoked parent).length

/-- Each call has asked each gate, or may still ask it, once at most, and only if it
has been made. -/
def Scene.Once (x : Scene) (N : List String) : Prop :=
  ∀ site gate, x.uses site gate ≤ 1 ∧ (x.uses site gate ≠ 0 → x.Made N site.call)

variable {K : List Policy} {site σ : Site} {gate g : LayerKind} {w w' : World} {x y : Scene}
  {tr : List Entry} {e : Entry} {N : List String} {chance : Chance}

/-! ### What effects do to the rights -/

namespace Trace

theorem asks_cons : asks site gate (e :: tr) =
    asks site gate tr + if e.asked? = some (site, gate) then 1 else 0 := by
  rw [asks, List.countP_cons]
  simp [asks]

theorem asks_quiet (h : e.asked? = none) : asks site gate (e :: tr) = asks site gate tr := by
  rw [asks_cons, h]
  rfl

theorem asks_setBreaker (b : Breaker) :
    asks site gate (w.setBreaker σ b).trace = asks site gate w.trace := by
  rw [World.setBreaker_trace]
  split
  · rfl
  · apply asks_quiet
    cases b.state <;> rfl

end Trace

theorem Entry.asked?_of_isPlain (h : e.record.isPlain = true) : e.asked? = none := by
  obtain ⟨now, r⟩ := e
  cases r with
  | event site e => cases e <;> simp_all [Record.isPlain, Event.isPlain, asked?]
  | gate site step => cases h
  | _ => rfl

theorem World.Plain.asks (h : w.Plain w') :
    Trace.asks site gate w'.trace = Trace.asks site gate w.trace := by
  obtain ⟨es, htr, hes⟩ := h.trace
  rw [htr, Trace.asks, List.countP_append, List.countP_eq_zero.mpr, Nat.zero_add]
  · rfl
  · intro e he
    rw [Entry.asked?_of_isPlain (hes e he)]
    nofun

/-- Who asks a gate asks that gate once, and no other. -/
theorem Asked.asks {gain : Multiset Holding} (h : Asked K σ g w w' gain) :
    Trace.asks site gate w'.trace =
      Trace.asks site gate w.trace + if (σ, g) = (site, gate) then 1 else 0 := by
  -- each question is one record on top of a trace that asks nothing else
  have hone : ∀ {tr : List Entry} {e : Entry}, e.asked? = some (σ, g) →
      Trace.asks site gate tr = Trace.asks site gate w.trace →
      Trace.asks site gate (e :: tr) =
        Trace.asks site gate w.trace + if (σ, g) = (site, gate) then 1 else 0 := by
    intro tr e he htr
    rw [Trace.asks_cons, he, htr]
    simp
  cases h with
  | grant hp hsite hl h =>
    -- a refusal emits an event above the question, which is none itself
    obtain ⟨b, -, rfl⟩ := World.acquirePermit_ok h
    exact hone rfl (Trace.asks_setBreaker b)
  | refuse hp hsite hl h =>
    obtain ⟨-, -, rfl⟩ := World.acquirePermit_error h
    rw [World.emit_trace]
    exact hone rfl (Trace.asks_setBreaker _)
  | occupy hp hsite hl h =>
    obtain ⟨-, rfl⟩ := Operation.takeSlot_ok σ w h
    rw [World.emit_trace]
    exact hone rfl rfl
  | crowd hp hsite hl h =>
    obtain ⟨-, -, rfl⟩ := Operation.takeSlot_error σ w h
    rw [World.emit_trace]
    exact hone rfl rfl
  | @spend p hp hsite l hl w w' h =>
    have htr := Operation.takeToken_trace σ w l
    rw [h] at htr
    exact hone rfl (congrArg _ htr)
  | @limit p hp hsite l hl w w' h =>
    have htr := Operation.takeToken_trace σ w l
    rw [h] at htr
    rw [World.emit_trace]
    exact hone rfl (congrArg _ htr)

theorem World.release_asks (h : Holding) :
    Trace.asks site gate (w.release h).trace = Trace.asks site gate w.trace := by
  cases h with
  | invocation call k token => exact Trace.asks_quiet rfl
  | slot σ =>
    rw [World.release, World.emit_trace]
    exact Trace.asks_quiet rfl
  | permit σ s p => exact (Trace.asks_setBreaker _).trans (Trace.asks_quiet rfl)

/-! ### Every moment -/

namespace Scene

/-- A call that has been made remains made. -/
theorem Made.mono {c : CallId} (h : x.Made N c)
    (hi : ∀ c, (x.world.invoked c).length ≤ (y.world.invoked c).length) : y.Made N c := by
  cases c with
  | top name n => exact h
  | nested parent k position policy => exact Nat.lt_of_lt_of_le h (hi parent)

/-- Nothing is asked for the first time by this. -/
theorem Once.of_le (h : x.Once N) (hu : ∀ site gate, y.uses site gate ≤ x.uses site gate)
    (hi : ∀ c, (x.world.invoked c).length ≤ (y.world.invoked c).length) : y.Once N := by
  intro site gate
  obtain ⟨hone, hmade⟩ := h site gate
  have hle := hu site gate
  exact ⟨hle.trans hone, fun hne => (hmade (by omega)).mono hi⟩

/-- An invocation brings new rights, for calls that have not been made before. -/
theorem Once.invoke {call : CallId} {token : Token} {actions : List Action}
    {H : Multiset Holding} {R : Multiset Right}
    (h : (Scene.mk w H (.invoke call ::ₘ R)).Once N) :
    (Scene.mk (w.invoke call (w.invoked call).length token)
      (.invocation call (w.invoked call).length token ::ₘ H)
      (actionsRights call (w.invoked call).length 0 actions + R)).Once N := by
  have hmono : ∀ c, (w.invoked c).length ≤
      ((w.invoke call (w.invoked call).length token).invoked c).length := by
    intro c
    rw [World.invoke_invoked]
    by_cases hc : c = call
    · rw [hc, assign_self]
      exact Nat.le_succ _
    · rw [assign_of_ne hc]
  intro site gate
  obtain ⟨hone, hmade⟩ := h site gate
  have huses : Scene.uses ⟨w, H, .invoke call ::ₘ R⟩ site gate =
      Trace.asks site gate w.trace + R.count (.ask site gate) := by
    rw [Scene.uses, Multiset.count_cons_of_ne (by nofun)]
  -- what the new invocation may ask is added to what was left
  have huses' : ∀ H', Scene.uses ⟨w.invoke call (w.invoked call).length token, H',
        actionsRights call (w.invoked call).length 0 actions + R⟩ site gate =
      Trace.asks site gate w.trace + ((actionsRights call (w.invoked call).length 0 actions).count
        (.ask site gate) + R.count (.ask site gate)) := by
    intro H'
    rw [Scene.uses, Multiset.count_add, World.invoke_trace, Trace.asks_quiet rfl]
  rw [huses']
  rw [huses] at hone hmade
  by_cases hmem : .ask site gate ∈ actionsRights call (w.invoked call).length 0 actions
  · -- the call is made by this invocation, whose number is new, so that nothing was
    -- asked on behalf of the call before
    obtain ⟨i, name, -, hcall⟩ := call_of_mem_actionsRights hmem
    have hcall : site.call = .nested call (w.invoked call).length i name := hcall
    have hzero : Trace.asks site gate w.trace + R.count (.ask site gate) = 0 := by
      by_contra hne
      have hlt := hmade hne
      rw [hcall] at hlt
      exact Nat.lt_irrefl _ hlt
    have hcount :
        (actionsRights call (w.invoked call).length 0 actions).count (.ask site gate) ≤ 1 :=
      count_ask_actionsRights actions
    refine ⟨by omega, fun _ => ?_⟩
    rw [hcall]
    show (w.invoked call).length <
      ((w.invoke call (w.invoked call).length token).invoked call).length
    rw [World.invoke_invoked, assign_self]
    exact Nat.lt_succ_self _
  -- a gate that this invocation does not ask is asked as before
  · rw [Multiset.count_eq_zero.mpr hmem, Nat.zero_add]
    exact ⟨hone, fun hne => (hmade hne).mono hmono⟩

theorem Once.effect (h : x.Once N) (e : Effect K x y) : y.Once N := by
  cases e with
  | lapse w H hR =>
    refine h.of_le (fun site gate => ?_) fun _ => le_refl _
    exact Nat.add_le_add_left (Multiset.count_le_of_le _ hR) _
  | plain hw H R =>
    refine h.of_le (fun site gate => ?_) fun c => by rw [hw.invoked]
    rw [uses, uses, hw.asks]
  | @ask σ g w w' gain hw H R =>
    refine h.of_le (fun site gate => ?_) fun c => by rw [hw.invoked]
    -- what is added to the trace is taken from the rights
    have hiff : (Right.ask σ g = Right.ask site gate) ↔ ((σ, g) = (site, gate)) := by simp
    rw [uses, uses, hw.asks, Multiset.count_cons]
    by_cases hs : (σ, g) = (site, gate)
    · rw [if_pos hs, if_pos (hiff.mpr hs).symm]
      dsimp only
      omega
    · rw [if_neg hs, if_neg fun hr => hs (hiff.mp hr.symm)]
      dsimp only
      omega
  | settle w site s permit o H R =>
    refine h.of_le (fun σ gate => ?_) fun c => by rw [World.settlePermit_invoked]
    rw [uses, uses, World.settlePermit, Trace.asks_setBreaker, World.note_trace,
      Trace.asks_quiet rfl]
  | invoke w call token actions H R => exact h.invoke
  | finish w call k token e H R =>
    refine h.of_le (fun site gate => ?_) fun c => le_refl _
    rw [uses, uses, World.note_trace, Trace.asks_quiet rfl]
  | release w hold H R =>
    refine h.of_le (fun site gate => ?_) fun c => by rw [World.release_invoked]
    rw [uses, uses, World.release_asks]

/-- A call from outside brings the rights of its policy. -/
theorem Once.call {H : Multiset Holding} {R : Multiset Right} (h : (Scene.mk w H R).Once N)
    (p : Policy) (name : String) :
    (Scene.mk w H (p.rights (.top name (N.count name)) + R)).Once (name :: N) := by
  intro site gate
  obtain ⟨hone, hmade⟩ := h site gate
  have huses : Scene.uses ⟨w, H, p.rights (.top name (N.count name)) + R⟩ site gate =
      Scene.uses ⟨w, H, R⟩ site gate +
        (p.rights (.top name (N.count name))).count (.ask site gate) := by
    rw [Scene.uses, Scene.uses, Multiset.count_add]
    dsimp only
    omega
  have hmono : ∀ c, (Scene.mk w H R).Made N c →
      (Scene.mk w H (p.rights (.top name (N.count name)) + R)).Made (name :: N) c := by
    intro c hc
    cases c with
    | top name' n => exact Nat.lt_of_lt_of_le hc List.count_le_count_cons
    | nested parent k position policy => exact hc
  rw [huses]
  by_cases hmem : .ask site gate ∈ p.rights (.top name (N.count name))
  · -- the call is this one, which has not been made before
    have hcall : site.call = .top name (N.count name) := Policy.call_of_mem_rights hmem
    have hzero : Scene.uses ⟨w, H, R⟩ site gate = 0 := by
      by_contra hne
      have hlt := hmade hne
      rw [hcall] at hlt
      exact Nat.lt_irrefl _ hlt
    have hcount : (p.rights (.top name (N.count name))).count (.ask site gate) ≤ 1 :=
      p.count_ask_rights _
    refine ⟨by omega, fun _ => ?_⟩
    rw [hcall]
    show N.count name < (name :: N).count name
    rw [List.count_cons_self]
    exact Nat.lt_succ_self _
  · rw [Multiset.count_eq_zero.mpr hmem, Nat.add_zero]
    exact ⟨hone, fun hne => hmono _ (hmade hne)⟩

end Scene

/-- **No gate is asked twice** on behalf of a call, and none before the call is made. -/
theorem Moment.once (h : Moment chance K N x) : x.Once N := by
  induction h with
  | start =>
    intro site gate
    have hzero : Scene.uses ⟨.start chance, 0, 0⟩ site gate = 0 := rfl
    rw [hzero]
    exact ⟨Nat.zero_le 1, fun h => absurd rfl h⟩
  | effect _ e ih => exact ih.effect e
  | tick _ t ht ih => exact ih
  | build _ p hp ih => exact ih
  | call _ name hp ih => exact ih.call _ name

/-! ### Policies and their keys -/

/-- A policy has one layer of each kind at most. -/
theorem Policy.eq_of_kind_eq (p : Policy) {a b : Layer} (ha : a ∈ p.layers) (hb : b ∈ p.layers)
    (hkind : a.kind = b.kind) : a = b := by
  have hnodup : (p.layers.map Layer.kind).Nodup := by
    refine List.pairwise_map.mpr (p.ordered.imp fun {a b} hlt heq => ?_)
    rw [heq] at hlt
    exact Nat.lt_irrefl _ hlt
  exact List.inj_on_of_nodup_map hnodup ha hb hkind

theorem Moment.keys (h : Moment chance K N x) :
    K.map (·.origin.key) = List.range K.length := by
  induction h with
  | start => rfl
  | effect _ _ ih => exact ih
  | tick _ _ _ ih => exact ih
  | build _ p hp ih =>
    rw [List.map_append, ih, List.length_append, List.length_singleton, List.range_succ]
    simp [hp]
  | call _ _ _ ih => exact ih

theorem Moment.key_lt (h : Moment chance K N x) {p : Policy} (hp : p ∈ K) :
    p.origin.key < K.length := by
  rw [← List.mem_range, ← h.keys]
  exact List.mem_map_of_mem hp

/-- Policies are told apart by their keys. -/
theorem Moment.eq_of_key_eq (h : Moment chance K N x) {p q : Policy} (hp : p ∈ K) (hq : q ∈ K)
    (hkey : p.origin.key = q.origin.key) : p = q := by
  have hnodup : (K.map (·.origin.key)).Nodup := h.keys ▸ List.nodup_range
  exact List.inj_on_of_nodup_map hnodup hp hq hkey

end CallPolicy
