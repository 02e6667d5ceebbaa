/-
What is done on behalf of a call, and what it leaves alone.

A `Scope` says for which calls something may be done, with which tokens, and what may
be recorded about the outermost one of them. `World.Confined σ m` says that whatever
has happened is within a scope: no time has passed, tokens were made and operations
invoked for calls in the scope alone, and a token was cancelled only if it was made
for such a call, after the `m`-th one, below the token that the call had. Root tokens
are no concern of a policy, so operations and hooks may cancel them at any time.

* **`Confined.trans`**, **`Confined.mono`** — things done one after the other, and in a
  wider scope;
* **`Confined.release`**, **`Confined.emit`**, … — what each operation on a world does;
* **`Confined.isCancelled_of_before`** — a token that was made before is not cancelled,
  unless its root is.

`World.Spares` says the opposite of what goes on elsewhere: none of certain tokens has
been cancelled, unless a token above all of them was.
-/
import CallPolicy.Proofs.Lineage
import CallPolicy.Script

namespace CallPolicy

/-- The layer that an event is told by. -/
def Event.teller : Event → LayerKind
  | .retrying _ _ => .retry
  | .circuitOpened => .breaker
  | .circuitHalfOpened => .breaker
  | .circuitClosed => .breaker
  | .circuitRefused => .breaker
  | .rateLimited => .rateLimit
  | .bulkheadFull => .bulkhead
  | .slotTaken => .bulkhead
  | .slotReleased => .bulkhead
  | .timedOut _ => .timeout
  | .attemptTimedOut _ _ => .retry
  | .hedgeLaunched _ => .hedge
  | .hedgeWon => .hedge
  | .fellBack _ => .fallback

/-- The layer that makes a record, if one does. -/
def Record.teller? : Record → Option LayerKind
  | .event _ e => some e.teller
  | .gate _ .tokenTaken => some .rateLimit
  | .gate _ (.permitIssued _) => some .breaker
  | .gate _ (.permitSettled _ _) => some .breaker
  | .asked _ _ _ => some .retry
  | _ => none

/-- What may be done on behalf of some calls. -/
structure Scope where
  /-- The call that the others are inside of. -/
  call : CallId
  /-- What may be recorded about that call. -/
  tells : Record → Prop
  /-- The calls that something may be done for, and the tokens that they have. -/
  acts : CallId → Token → Prop

namespace Scope

/-- May something be recorded? -/
structure Records (σ : Scope) (r : Record) : Prop where
  own : r.call = σ.call → σ.tells r
  inner : r.call ≠ σ.call → ∃ u, σ.acts r.call u

/-- May a token be cancelled? A root token may, and one that was made for a call after
the `m`-th one. -/
def Cancels (σ : Scope) (m : CallId → Nat) (w : World) (a : Token) : Prop :=
  a.path = [] ∨ a.Before w.minted ∧ ∃ c u n, σ.acts c u ∧ m c ≤ n ∧ a = u.child c n

/-- A wider scope. -/
structure Le (σ τ : Scope) : Prop where
  records : ∀ {r}, σ.Records r → τ.Records r
  acts : ∀ {c u}, σ.acts c u → τ.acts c u

/-- What layers of some kinds may do for the call `id` with the token `t`, and what is
done inside them. -/
def ofCall (id : CallId) (kinds : List LayerKind) (t : Token) : Scope where
  call := id
  tells r := ∀ k, r.teller? = some k → k ∈ kinds
  acts := Serves id t

/-- What the `k`-th invocation of a call's operation may do, with the token `t`. -/
def ofBody (id : CallId) (k : Nat) (t : Token) : Scope where
  call := id
  tells r := ∃ b, r = .probed id k b
  acts c u := ∃ position name, Serves (.nested id k position name) t c u

/-- May something that is held be given back? -/
def Holds (σ : Scope) : Holding → Prop
  | .invocation call k _ => ∀ b, σ.Records (.abandoned call k b)
  | .slot site => σ.Records (.event site .slotReleased)
  | .permit site _ p => (∀ o, σ.Records (.gate site (.permitSettled p o))) ∧
      ∀ st : BreakerState, σ.Records (.event site st.news)

variable {σ τ : Scope} {id : CallId} {kinds kinds' : List LayerKind} {t u : Token} {k : Nat}

theorem Le.refl (σ : Scope) : σ.Le σ := ⟨fun hr => hr, fun ha => ha⟩

theorem Le.cancels (h : σ.Le τ) {m m' : CallId → Nat} {w : World} {a : Token} (hm : m' ≤ m)
    (ha : σ.Cancels m w a) : τ.Cancels m' w a := by
  refine ha.imp_right fun ⟨hbefore, c, u, n, hacts, hn, heq⟩ => ⟨hbefore, c, u, n, ?_, ?_, heq⟩
  · exact h.acts hacts
  · exact Nat.le_trans (hm c) hn

theorem Le.holds (h : σ.Le τ) {hold : Holding} (hh : σ.Holds hold) : τ.Holds hold := by
  cases hold with
  | invocation call k token => exact fun b => h.records (hh b)
  | slot site => exact h.records hh
  | permit site s p => exact ⟨fun o => h.records (hh.1 o), fun st => h.records (hh.2 st)⟩

/-- More layers, and a token further up. -/
theorem ofCall_le (hk : kinds ⊆ kinds') (h : Token.Stems id t u) :
    (ofCall id kinds u).Le (ofCall id kinds' t) := by
  have hacts : ∀ {c v}, Serves id u c v → Serves id t c v := (Serves.own h).trans
  refine ⟨fun hr => ⟨fun heq k hk' => hk (hr.own heq k hk'), fun hne => ?_⟩, hacts⟩
  obtain ⟨v, hv⟩ := hr.inner hne
  exact ⟨v, hacts hv⟩

/-- What an invocation does is done for its call. -/
theorem ofBody_le (id : CallId) (k : Nat) (t : Token) (kinds : List LayerKind) :
    (ofBody id k t).Le (ofCall id kinds t) := by
  have hacts : ∀ {c u}, (ofBody id k t).acts c u → Serves id t c u := by
    rintro c u ⟨position, name, h⟩
    exact (Serves.nested k position name (.refl id t) (.refl _ t)).trans h
  refine ⟨fun {r} hr => ⟨fun heq k' hk' => ?_, fun hne => ?_⟩, hacts⟩
  · obtain ⟨b, rfl⟩ := hr.own heq
    cases hk'
  · obtain ⟨u, hu⟩ := hr.inner hne
    exact ⟨u, hacts hu⟩

/-- What is done for a call that an invocation makes is done by the invocation. -/
theorem ofCall_le_ofBody (id : CallId) (k position : Nat) (name : String)
    (kinds : List LayerKind) (t : Token) :
    (ofCall (.nested id k position name) kinds t).Le (ofBody id k t) := by
  have hacts : ∀ {c u}, Serves (.nested id k position name) t c u → (ofBody id k t).acts c u :=
    fun h => ⟨position, name, h⟩
  refine ⟨fun {r} hr => ?_, hacts⟩
  have hinner : ∃ u, Serves (.nested id k position name) t r.call u := by
    by_cases heq : r.call = .nested id k position name
    · rw [heq]
      exact ⟨t, .refl _ t⟩
    · exact hr.inner heq
  obtain ⟨u, hu⟩ := hinner
  exact ⟨fun heq => absurd heq (CallId.ne_of_within_nested hu.within), fun _ => ⟨u, hacts hu⟩⟩

/-- A layer may tell of what its call does. -/
theorem records_ofCall {r : Record} (hr : r.call = id) (h : ∀ k, r.teller? = some k → k ∈ kinds) :
    (ofCall id kinds t).Records r := ⟨fun _ => h, fun hne => absurd hr hne⟩

end Scope

/-! ### Things that are done -/

namespace World

variable {w w' w'' : World} {t u a : Token} {σ τ : Scope} {m m' : CallId → Nat} {site : Site}

theorem isCancelled_iff : w.isCancelled t = true ↔ ∃ a ∈ w.cancelled, a.governs t = true :=
  List.any_eq_true

/-- Whoever is below a cancelled token is cancelled. -/
theorem isCancelled_of_governs (h : w.isCancelled t = true) (hu : t.governs u = true) :
    w.isCancelled u = true := by
  obtain ⟨a, ha, hat⟩ := isCancelled_iff.mp h
  exact isCancelled_iff.mpr ⟨a, ha, Token.governs_trans hat hu⟩

/-- The cancelled tokens were made. -/
def Sane (w : World) : Prop := ∀ a ∈ w.cancelled, a.Before w.minted

theorem releaseAll_invoked (w : World) (hs : List Holding) :
    (w.releaseAll hs).invoked = w.invoked := by
  induction hs generalizing w with
  | nil => rfl
  | cons h hs ih => exact (ih (w.release h)).trans (w.release_invoked h)

/-- What has happened was done within a scope, with tokens made after the `m`-th ones. -/
structure Confined (σ : Scope) (m : CallId → Nat) (w w' : World) : Prop where
  now : w'.now = w.now
  minted : w.minted ≤ w'.minted
  invoked : ∀ c, ∃ us, w'.invoked c = us ++ w.invoked c ∧ ∀ u ∈ us, σ.acts c u
  cancelled : ∃ as, w'.cancelled = as ++ w.cancelled ∧ ∀ a ∈ as, σ.Cancels m w' a
  trace : ∃ es, w'.trace = es ++ w.trace ∧ ∀ e ∈ es, σ.Records e.record

namespace Confined

theorem refl (σ : Scope) (m : CallId → Nat) (w : World) : w.Confined σ m w :=
  ⟨rfl, fun _ => Nat.le_refl _, fun _ => ⟨[], rfl, nofun⟩, ⟨[], rfl, nofun⟩, [], rfl, nofun⟩

theorem trans (h : w.Confined σ m w') (h' : w'.Confined σ m w'') : w.Confined σ m w'' := by
  refine ⟨h'.now.trans h.now, fun c => Nat.le_trans (h.minted c) (h'.minted c), fun c => ?_, ?_, ?_⟩
  · obtain ⟨us, hw, hus⟩ := h.invoked c
    obtain ⟨us', hw', hus'⟩ := h'.invoked c
    refine ⟨us' ++ us, by rw [hw', hw, List.append_assoc], fun u hu => ?_⟩
    exact (List.mem_append.mp hu).elim (hus' u) (hus u)
  · obtain ⟨as, hw, has⟩ := h.cancelled
    obtain ⟨as', hw', has'⟩ := h'.cancelled
    refine ⟨as' ++ as, by rw [hw', hw, List.append_assoc], fun a ha => ?_⟩
    rcases List.mem_append.mp ha with ha | ha
    · exact has' a ha
    · -- a token that was made stays made
      exact (has a ha).imp_right fun ⟨hbefore, hmade⟩ => ⟨hbefore.mono h'.minted, hmade⟩
  · obtain ⟨es, hw, hes⟩ := h.trace
    obtain ⟨es', hw', hes'⟩ := h'.trace
    refine ⟨es' ++ es, by rw [hw', hw, List.append_assoc], fun e he => ?_⟩
    exact (List.mem_append.mp he).elim (hes' e) (hes e)

/-- A wider scope, and more tokens to act with. -/
theorem mono (h : w.Confined σ m w') (hσ : σ.Le τ) (hm : m' ≤ m) : w.Confined τ m' w' := by
  refine ⟨h.now, h.minted, fun c => ?_, ?_, ?_⟩
  · obtain ⟨us, hw, hus⟩ := h.invoked c
    exact ⟨us, hw, fun u hu => hσ.acts (hus u hu)⟩
  · obtain ⟨as, hw, has⟩ := h.cancelled
    exact ⟨as, hw, fun a ha => hσ.cancels hm (has a ha)⟩
  · obtain ⟨es, hw, hes⟩ := h.trace
    exact ⟨es, hw, fun e he => hσ.records (hes e he)⟩

/-! ### Operations -/

theorem note {r : Record} (w : World) (h : σ.Records r) : w.Confined σ m (w.note r) :=
  ⟨rfl, fun _ => Nat.le_refl _, fun _ => ⟨[], rfl, nofun⟩, ⟨[], rfl, nofun⟩,
    [⟨w.now, r⟩], rfl, fun e he => by rwa [List.mem_singleton.mp he]⟩

theorem cancel (w : World) (h : σ.Cancels m w a) : w.Confined σ m (w.cancel a) :=
  ⟨rfl, fun _ => Nat.le_refl _, fun _ => ⟨[], rfl, nofun⟩,
    ⟨[a], rfl, fun a' ha' => by rwa [List.mem_singleton.mp ha']⟩, [], rfl, nofun⟩

theorem cancel_named (w : World) (name : String) : w.Confined σ m (w.cancel (.named name)) :=
  cancel w (.inl rfl)

theorem emit {e : Event} (w : World) (h : σ.Records (.event site e)) :
    w.Confined σ m (w.emit site e) := by
  rcases w.emit_eq site e with heq | ⟨name, heq⟩
  · rw [heq]
    exact note w h
  · rw [heq]
    exact (note w h).trans (cancel_named _ name)

theorem mint (w : World) (call : CallId) (t : Token) : w.Confined σ m (w.mint call t).2 := by
  refine ⟨rfl, fun c => ?_, fun _ => ⟨[], rfl, nofun⟩, ⟨[], rfl, nofun⟩, [], rfl, nofun⟩
  show w.minted c ≤ assign w.minted call (w.minted call + 1) c
  by_cases hc : c = call
  · rw [hc, assign_self]
    exact Nat.le_succ _
  · exact Nat.le_of_eq (assign_of_ne hc).symm

theorem draw (w : World) : w.Confined σ m w.draw.2 :=
  ⟨rfl, fun _ => Nat.le_refl _, fun _ => ⟨[], rfl, nofun⟩, ⟨[], rfl, nofun⟩, [], rfl, nofun⟩

theorem modifyGates (w : World) (key : Nat) (f : Gates → Gates) :
    w.Confined σ m (w.modifyGates key f) :=
  ⟨rfl, fun _ => Nat.le_refl _, fun _ => ⟨[], rfl, nofun⟩, ⟨[], rfl, nofun⟩, [], rfl, nofun⟩

theorem setBreaker (w : World) (b : Breaker) (h : σ.Records (.event site b.state.news)) :
    w.Confined σ m (w.setBreaker site b) := by
  unfold World.setBreaker
  dsimp only
  split
  · exact modifyGates w _ _
  · exact (modifyGates w _ _).trans (emit _ h)

theorem settlePermit (w : World) (s : BreakerSettings) (p : Permit) (o : Outcome)
    (h : σ.Holds (.permit site s p)) : w.Confined σ m (w.settlePermit site s p o) :=
  (note w (h.1 o)).trans (setBreaker _ _ (h.2 _))

theorem release (w : World) {hold : Holding} (h : σ.Holds hold) :
    w.Confined σ m (w.release hold) := by
  cases hold with
  | invocation call k token => exact note w (h _)
  | slot site => exact (modifyGates w _ _).trans (emit _ h)
  | permit site s p => exact settlePermit w s p .ignored h

theorem releaseAll (w : World) {hs : List Holding} (h : ∀ hold ∈ hs, σ.Holds hold) :
    w.Confined σ m (w.releaseAll hs) := by
  induction hs generalizing w with
  | nil => exact refl σ m w
  | cons hold hs ih =>
    have hrest := ih (w.release hold) fun hold' h' => h hold' (List.mem_cons_of_mem _ h')
    exact (release w (h hold List.mem_cons_self)).trans hrest

theorem invoke (w : World) {call : CallId} {k : Nat} (hacts : σ.acts call t)
    (h : ∀ b, σ.Records (.invoked call k b)) : w.Confined σ m (w.invoke call k t) := by
  refine ⟨rfl, fun _ => Nat.le_refl _, fun c => ?_, ⟨[], rfl, nofun⟩, ?_⟩
  · rw [invoke_invoked]
    by_cases hc : c = call
    · rw [hc, assign_self]
      exact ⟨[t], rfl, fun u hu => by rwa [List.mem_singleton.mp hu]⟩
    · rw [assign_of_ne hc]
      exact ⟨[], rfl, nofun⟩
  · refine ⟨_, rfl, fun e (he : e ∈ [_]) => ?_⟩
    rw [List.mem_singleton.mp he]
    exact h _

/-! ### What follows -/

theorem sane (h : w.Confined σ m w') (hw : w.Sane) : w'.Sane := by
  obtain ⟨as, heq, has⟩ := h.cancelled
  intro a ha
  rw [heq] at ha
  rcases List.mem_append.mp ha with ha | ha
  · rcases has a ha with hroot | ⟨hbefore, -⟩
    · unfold Token.Before
      rw [hroot]
      exact nofun
    · exact hbefore
  · exact (hw a ha).mono h.minted

/-- What is cancelled stays cancelled. -/
theorem isCancelled (h : w.Confined σ m w') (ht : w.isCancelled t = true) :
    w'.isCancelled t = true := by
  obtain ⟨as, heq, -⟩ := h.cancelled
  obtain ⟨a, ha, hat⟩ := isCancelled_iff.mp ht
  exact isCancelled_iff.mpr ⟨a, heq ▸ List.mem_append_right _ ha, hat⟩

/-- A token that was made before is not cancelled, unless a root token is. -/
theorem isCancelled_of_before (h : w.Confined σ m w') (hu : u.Before m)
    (hc : w'.isCancelled u = true) :
    w.isCancelled u = true ∨ ∃ a ∈ w'.cancelled, a.path = [] ∧ a.root = u.root := by
  obtain ⟨as, heq, has⟩ := h.cancelled
  obtain ⟨a, ha, hau⟩ := isCancelled_iff.mp hc
  rw [heq] at ha
  rcases List.mem_append.mp ha with hnew | hold
  · rcases has a hnew with hroot | ⟨-, c, v, n, -, hn, rfl⟩
    · exact .inr ⟨a, heq ▸ List.mem_append_left _ hnew, hroot, (Token.governs_iff.mp hau).1⟩
    · -- its last step was not made yet
      have hlt := (hu.of_governs hau) (c, n) List.mem_cons_self
      exact absurd hn (Nat.not_le.mpr hlt)
  · exact .inl (isCancelled_iff.mpr ⟨a, hold, hau⟩)

end Confined

/-! ### Things that are done elsewhere -/

/-- Nothing has been cancelled that governs one of the tokens `F`, unless it governs the
token `t`. -/
structure Spares (F : CallId → Token → Prop) (t : Token) (w w' : World) : Prop where
  minted : w.minted ≤ w'.minted
  cancelled : ∃ as, w'.cancelled = as ++ w.cancelled ∧
    ∀ a ∈ as, ∀ {c u}, F c u → a.governs u = true → a.governs t = true

namespace Spares

variable {F G : CallId → Token → Prop} {c : CallId}

theorem refl (F : CallId → Token → Prop) (t : Token) (w : World) : w.Spares F t w :=
  ⟨fun _ => Nat.le_refl _, [], rfl, nofun⟩

theorem trans (h : w.Spares F t w') (h' : w'.Spares F t w'') : w.Spares F t w'' := by
  obtain ⟨as, hw, has⟩ := h.cancelled
  obtain ⟨as', hw', has'⟩ := h'.cancelled
  refine ⟨fun c => Nat.le_trans (h.minted c) (h'.minted c), as' ++ as, ?_, fun a ha => ?_⟩
  · rw [hw', hw, List.append_assoc]
  · rcases List.mem_append.mp ha with ha | ha
    · exact has' a ha
    · exact has a ha

/-- Fewer tokens, below one that lies lower. -/
theorem mono (h : w.Spares F t w') (hF : ∀ {c u}, G c u → F c u) (hu : t.governs u = true) :
    w.Spares G u w' := by
  obtain ⟨as, hw, has⟩ := h.cancelled
  exact ⟨h.minted, as, hw, fun a ha c v hv hav =>
    Token.governs_trans (has a ha (hF hv) hav) hu⟩

/-- What is cancelled stays cancelled. -/
theorem isCancelled (h : w.Spares F t w') (hu : w.isCancelled u = true) :
    w'.isCancelled u = true := by
  obtain ⟨as, heq, -⟩ := h.cancelled
  obtain ⟨a, ha, hau⟩ := isCancelled_iff.mp hu
  exact isCancelled_iff.mpr ⟨a, heq ▸ List.mem_append_right _ ha, hau⟩

/-- One of the tokens is cancelled only if it was before or all of them are. -/
theorem isCancelled_or (h : w.Spares F t w') (hu : F c u) (hc : w'.isCancelled u = true) :
    w.isCancelled u = true ∨ w'.isCancelled t = true := by
  obtain ⟨as, heq, has⟩ := h.cancelled
  obtain ⟨a, ha, hau⟩ := isCancelled_iff.mp hc
  rcases List.mem_append.mp (heq ▸ ha) with hnew | hold
  · exact .inr (isCancelled_iff.mpr ⟨a, ha, has a hnew hu hau⟩)
  · exact .inl (isCancelled_iff.mpr ⟨a, hold, hau⟩)

end Spares

end World

end CallPolicy
