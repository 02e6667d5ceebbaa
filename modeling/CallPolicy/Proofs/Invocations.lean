/-
Invocations and their tokens.

The invocations of a call's operation are numbered, and each of them has a token
(`World.Invoked`). Some have ended (`World.Finished`); one that has not is under way, or
was dropped. A layer drops what is inside it only together with the child token that it
made for it, so nothing of what has ended is below a token that is cancelled
(`World.Settled`).

An activity `Lasts` as long as the invocations that it has begun. What is known of it in a
state depends on how many invocations there were before it started, and on its token:
others may begin invocations under other tokens in the meantime (`World.Apart`).

* **`Affects.trans`**, **`Affects.invoke`**, … — what is done to the invocations of a call;
* **`Lasts.script`** — the operation of a script lasts as long as its one invocation.
-/
import CallPolicy.Proofs.Cancellation

namespace CallPolicy

open Activity Operation

variable {ο : Type} {w w' w'' w₁ w₂ w₃ : World} {t t₀ u v x c : Token} {id : CallId} {k n n' : Nat}
  {m : CallId → Nat} {site : Site} {kinds : List LayerKind}

namespace Token

/-- The tokens of a call have the same root. -/
theorem Stems.root_eq (h : Stems id t u) : u.root = t.root := by
  obtain ⟨l, -, rfl⟩ := h
  rfl

/-- What was made for another call is not below a token of the call, unless it is above all
of them. -/
theorem Stems.governs_of_child {d : CallId} (h : Stems id t u) (hd : d ≠ id)
    (ha : (x.child d n).governs u = true) : (x.child d n).governs t = true := by
  obtain ⟨l, hl, rfl⟩ := h
  obtain ⟨hroot, hpath⟩ := governs_iff.mp ha
  refine governs_iff.mpr ⟨hroot, ?_⟩
  clear ha hroot
  induction l with
  | nil => exact hpath
  | cons s l ih =>
    rcases List.suffix_cons_iff.mp hpath with heq | hsuffix
    · have hs : (d, n) = s := (List.cons.inj heq).1
      exact absurd (hl s List.mem_cons_self) (hs ▸ hd)
    · exact ih (fun s' hs' => hl s' (List.mem_cons_of_mem _ hs')) hsuffix

/-- A child that was made later does not govern a token. -/
theorem Before.not_governs (h : u.Before m) (hn : m id ≤ n) : (t.child id n).governs u ≠ true :=
  fun ha => absurd hn (Nat.not_le.mpr ((h.of_governs ha) (id, n) List.mem_cons_self))

end Token

namespace World

/-! ### Invocations -/

/-- The `k`-th invocation of a call's operation has the token. -/
def Invoked (w : World) (id : CallId) (k : Nat) (u : Token) : Prop :=
  (w.invoked id).reverse[k]? = some u

/-- The `k`-th invocation of a call's operation has ended. -/
def Finished (w : World) (id : CallId) (k : Nat) : Prop :=
  ∃ e ∈ w.trace, ∃ ending, e.record = .finished id k ending

namespace Invoked

theorem lt (h : w.Invoked id k u) : k < (w.invoked id).length := by
  have hlt := (List.getElem?_eq_some_iff.mp h).1
  rwa [List.length_reverse] at hlt

theorem mem (h : w.Invoked id k u) : u ∈ w.invoked id :=
  List.mem_reverse.mp (List.mem_of_getElem? h)

theorem unique (h : w.Invoked id k u) (h' : w.Invoked id k v) : u = v :=
  Option.some.inj (h.symm.trans h')

theorem exists_of_lt (h : k < (w.invoked id).length) : ∃ u, w.Invoked id k u := by
  rw [← List.length_reverse] at h
  exact ⟨_, List.getElem?_eq_getElem h⟩

variable {us : List Token} (heq : w'.invoked id = us ++ w.invoked id)

include heq

theorem later (h : w.Invoked id k u) : w'.Invoked id k u := by
  have hlt := h.lt
  rw [← List.length_reverse] at hlt
  rw [Invoked, heq, List.reverse_append, List.getElem?_append_left hlt]
  exact h

theorem earlier (h : w'.Invoked id k u) :
    w.Invoked id k u ∨ (w.invoked id).length ≤ k ∧ u ∈ us := by
  rw [Invoked, heq, List.reverse_append] at h
  rcases Nat.lt_or_ge k (w.invoked id).length with hlt | hle
  · rw [← List.length_reverse] at hlt
    rw [List.getElem?_append_left hlt] at h
    exact .inl h
  · rw [List.getElem?_append_right (by rwa [List.length_reverse])] at h
    exact .inr ⟨hle, List.mem_reverse.mp (List.mem_of_getElem? h)⟩

end Invoked

theorem Finished.later (h : w.Finished id k) (htr : w.trace <:+ w'.trace) : w'.Finished id k := by
  obtain ⟨e, he, hfinished⟩ := h
  exact ⟨e, htr.subset he, hfinished⟩

theorem Finished.of_invoke {j : Nat} (h : (w.invoke id k u).Finished id j) : w.Finished id j := by
  obtain ⟨e, he, ending, hr⟩ := h
  rcases List.mem_cons.mp he with rfl | he
  · cases hr
  · exact ⟨e, he, ending, hr⟩

theorem Keeps.finished_iff (h : w.Keeps (fun _ => ()) (Entry.ends id) w') :
    w'.Finished id k ↔ w.Finished id k := by
  obtain ⟨es, htr, hes⟩ := h.trace
  refine ⟨fun ⟨e, he, ending, heq⟩ => ?_, fun hk => hk.later ⟨es, htr.symm⟩⟩
  rw [htr] at he
  rcases List.mem_append.mp he with he | he
  · have hends := hes e he
    rw [Entry.ends, heq] at hends
    exact absurd rfl (of_decide_eq_false hends)
  · exact ⟨e, he, ending, heq⟩

/-- The invocations of a call are in order: only those that were begun have ended, and
their tokens were made for the call that got the token `t₀`. -/
structure Ledger (id : CallId) (t₀ : Token) (w : World) : Prop where
  numbered : ∀ {k}, w.Finished id k → k < (w.invoked id).length
  stems : ∀ {u}, u ∈ w.invoked id → Token.Stems id t₀ u
  made : ∀ {u}, u ∈ w.invoked id → u.Before w.minted

/-! ### Nothing done to them -/

/-- No invocation of a call has begun or ended, and only root tokens were cancelled. -/
structure Lull (id : CallId) (w w' : World) : Prop where
  quiet : w.Keeps (fun _ => ()) (Entry.ends id) w'
  invoked : w'.invoked id = w.invoked id
  minted : w.minted ≤ w'.minted
  cancelled : ∃ as, w'.cancelled = as ++ w.cancelled ∧ ∀ a ∈ as, a.path = []

namespace Lull

theorem refl (w : World) : w.Lull id w :=
  ⟨.refl w, rfl, fun _ => Nat.le_refl _, [], rfl, nofun⟩

theorem trans (h : w.Lull id w') (h' : w'.Lull id w'') : w.Lull id w'' := by
  obtain ⟨as, heq, has⟩ := h.cancelled
  obtain ⟨as', heq', has'⟩ := h'.cancelled
  refine ⟨h.quiet.trans h'.quiet, h'.invoked.trans h.invoked,
    fun c => Nat.le_trans (h.minted c) (h'.minted c), as' ++ as, ?_, fun a ha => ?_⟩
  · rw [heq', heq, List.append_assoc]
  · exact (List.mem_append.mp ha).elim (has' a) (has a)

theorem note (w : World) {r : Record} (h : Entry.ends id ⟨w.now, r⟩ = false) :
    w.Lull id (w.note r) :=
  ⟨.note w r h, rfl, fun _ => Nat.le_refl _, [], rfl, nofun⟩

theorem mint (w : World) (call : CallId) (t : Token) : w.Lull id (w.mint call t).2 :=
  ⟨.silent rfl rfl, rfl, w.minted_mint call t, [], rfl, nofun⟩

theorem draw (w : World) : w.Lull id w.draw.2 :=
  ⟨.silent rfl rfl, rfl, fun _ => Nat.le_refl _, [], rfl, nofun⟩

theorem modifyGates (w : World) (key : Nat) (f : Gates → Gates) :
    w.Lull id (w.modifyGates key f) :=
  ⟨.silent rfl rfl, rfl, fun _ => Nat.le_refl _, [], rfl, nofun⟩

theorem cancel_named (w : World) (name : String) : w.Lull id (w.cancel (.named name)) :=
  ⟨.silent rfl rfl, rfl, fun _ => Nat.le_refl _, [.named name], rfl, fun a ha => by
    rw [List.mem_singleton.mp ha]
    rfl⟩

theorem emit (w : World) (site : Site) (e : Event) : w.Lull id (w.emit site e) := by
  rcases w.emit_eq site e with heq | ⟨name, heq⟩
  · rw [heq]
    exact note w rfl
  · rw [heq]
    exact (note w rfl).trans (cancel_named _ name)

theorem setBreaker (w : World) (site : Site) (b : Breaker) : w.Lull id (w.setBreaker site b) := by
  unfold World.setBreaker
  dsimp only
  split
  · exact modifyGates w _ _
  · exact (modifyGates w _ _).trans (emit _ site _)

theorem settlePermit (w : World) (site : Site) (s : BreakerSettings) (p : Permit) (o : Outcome) :
    w.Lull id (w.settlePermit site s p o) := (note w rfl).trans (setBreaker _ site _)

theorem release (w : World) (h : Holding) : w.Lull id (w.release h) := by
  cases h with
  | invocation call k token => exact note w rfl
  | slot site => exact (modifyGates w _ _).trans (emit _ site _)
  | permit site s p => exact settlePermit w site s p .ignored

theorem releaseAll (w : World) (hs : List Holding) : w.Lull id (w.releaseAll hs) := by
  induction hs generalizing w with
  | nil => exact refl w
  | cons h hs ih => exact (release w h).trans (ih (w.release h))

end Lull

/-- No invocation of a call has begun or ended, and no token of it was cancelled unless the
token `t` was, too. -/
structure Still (id : CallId) (t₀ t : Token) (w w' : World) : Prop where
  quiet : w.Keeps (fun _ => ()) (Entry.ends id) w'
  invoked : w'.invoked id = w.invoked id
  spares : w.Spares (fun _ u => Token.Stems id t₀ u) t w'

namespace Still

/-- A root token is above all the tokens of the call, or above none. -/
theorem of_lull (ht : Token.Stems id t₀ t) (h : w.Lull id w') : w.Still id t₀ t w' := by
  obtain ⟨as, heq, has⟩ := h.cancelled
  refine ⟨h.quiet, h.invoked, h.minted, as, heq, fun a ha c u hu hau => ?_⟩
  refine Token.governs_of_path_nil (has a ha) ((Token.governs_iff.mp hau).1.trans ?_)
  exact hu.root_eq.trans ht.root_eq.symm

/-- What an invocation does itself is nothing to the others. -/
theorem of_body (ht : Token.Stems id t₀ t) (h : w.Confined (.ofBody id k u) m w') :
    w.Still id t₀ t w' := by
  obtain ⟨as, heq, has⟩ := h.cancelled
  obtain ⟨es, htr, hes⟩ := h.trace
  refine ⟨⟨rfl, h.now.ge, es, htr, fun e he => ?_⟩, (Dormant.of_body h).invoked, h.minted, as, heq,
    fun a ha d y hy hay => ?_⟩
  · unfold Entry.ends
    split
    next call j ending hr =>
      refine decide_eq_false ?_
      rintro rfl
      obtain ⟨b, hb⟩ := (hes e he).own (by rw [hr]; rfl)
      rw [hr] at hb
      cases hb
    next => rfl
  · rcases has a ha with hroot | ⟨-, d, z, j, ⟨position, name, hacts⟩, -, rfl⟩
    · refine Token.governs_of_path_nil hroot ((Token.governs_iff.mp hay).1.trans ?_)
      exact hy.root_eq.trans ht.root_eq.symm
    · have hd : d ≠ id := CallId.ne_of_within_nested hacts.within
      exact Token.governs_trans (hy.governs_of_child hd hay) ht.governs

theorem finished_iff (h : w.Still id t₀ t w') : w'.Finished id k ↔ w.Finished id k :=
  h.quiet.finished_iff

theorem invoked_iff (h : w.Still id t₀ t w') : w'.Invoked id k u ↔ w.Invoked id k u := by
  unfold Invoked
  rw [h.invoked]

theorem ledger (h : w.Still id t₀ t w') (hw : w.Ledger id t₀) : w'.Ledger id t₀ := by
  refine ⟨fun hk => ?_, fun hu => ?_, fun hu => ?_⟩
  · rw [h.invoked]
    exact hw.numbered (h.finished_iff.mp hk)
  · exact hw.stems (h.invoked ▸ hu)
  · exact (hw.made (h.invoked ▸ hu)).mono h.spares.minted

end Still

/-! ### Settled invocations -/

/-- An invocation is settled for the token `t`: if it has ended, its token was not cancelled
unless `t` was, and otherwise it was. -/
structure Settled (id : CallId) (t : Token) (k : Nat) (u : Token) (w : World) : Prop where
  ended : w.Finished id k → w.isCancelled u = true → w.isCancelled t = true
  dropped : ¬w.Finished id k → w.isCancelled u = true

namespace Settled

theorem still (h : w.Settled id t k u) (hu : Token.Stems id t₀ u) (hw : w.Still id t₀ t w') :
    w'.Settled id t k u := by
  refine ⟨fun hk hc => ?_, fun hk => ?_⟩
  · rcases hw.spares.isCancelled_or (c := id) hu hc with hold | ht
    · exact hw.spares.isCancelled (h.ended (hw.finished_iff.mp hk) hold)
    · exact ht
  · exact hw.spares.isCancelled (h.dropped fun hk' => hk (hw.finished_iff.mpr hk'))

/-- A child is cancelled only with its parent, as long as it is not cancelled itself. -/
theorem parent (h : w.Settled id c k u) (hc : w.isCancelled c = true → w.isCancelled t = true) :
    w.Settled id t k u := ⟨fun hk hu => hc (h.ended hk hu), h.dropped⟩

theorem cancel_iff : (w.cancel c).isCancelled u = true ↔ c.governs u = true ∨ w.isCancelled u = true := by
  unfold World.isCancelled World.cancel
  rw [List.any_cons, Bool.or_eq_true]

/-- The invocations below a token that is cancelled have not ended. -/
theorem cancel_below (h : ¬w.Finished id k) (hu : c.governs u = true) :
    (w.cancel c).Settled id t k u :=
  ⟨fun hk => absurd hk h, fun _ => cancel_iff.mpr (.inl hu)⟩

theorem cancel_apart (h : w.Settled id t k u) (hu : c.governs u ≠ true) :
    (w.cancel c).Settled id t k u := by
  refine ⟨fun hk hc => ?_, fun hk => cancel_iff.mpr (.inr (h.dropped hk))⟩
  exact cancel_iff.mpr (.inr (h.ended hk ((cancel_iff.mp hc).resolve_left hu)))

end Settled

/-! ### Invocations that an activity has begun -/

/-- The invocation was begun under a token, when there were `n` others or more. -/
structure Begun (id : CallId) (n : Nat) (t : Token) (k : Nat) (u : Token) (w : World) : Prop where
  since : n ≤ k
  invoked : w.Invoked id k u
  governs : t.governs u = true

/-- What was begun is settled. -/
def Clear (id : CallId) (n : Nat) (t : Token) (w : World) : Prop :=
  ∀ {k u}, w.Begun id n t k u → w.Settled id t k u

/-- Nothing of what was begun has ended. -/
def Underway (id : CallId) (n : Nat) (t : Token) (w : World) : Prop :=
  ∀ {k u}, w.Begun id n t k u → ¬w.Finished id k

/-- Nothing was begun under a token before there were `n` invocations. -/
def Since (id : CallId) (n : Nat) (c : Token) (w : World) : Prop :=
  ∀ {k u}, w.Invoked id k u → c.governs u = true → n ≤ k

/-- What an activity with the token `t` has done to the invocations of its call, if there
were `n` of them when it started: of the others, none has ended, and the token of none was
cancelled. -/
structure Affects (id : CallId) (t₀ : Token) (n : Nat) (t : Token) (w w' : World) : Prop where
  ledger : w'.Ledger id t₀
  trace : w.trace <:+ w'.trace
  cancelled : w.cancelled <:+ w'.cancelled
  invoked : ∃ us, w'.invoked id = us ++ w.invoked id ∧ ∀ u ∈ us, t.governs u = true
  finished : ∀ {k u}, w'.Invoked id k u → w'.Finished id k →
    w.Finished id k ∨ n ≤ k ∧ t.governs u = true
  spared : ∀ {k u}, w.Invoked id k u → k < n → w'.isCancelled u = true →
    w.isCancelled u = true ∨ w'.isCancelled t = true

namespace Affects

theorem of_still (hw : w.Ledger id t₀) (h : w.Still id t₀ t w') : w.Affects id t₀ n t w' := by
  obtain ⟨es, htr, -⟩ := h.quiet.trace
  obtain ⟨as, heq, -⟩ := h.spares.cancelled
  refine ⟨h.ledger hw, ⟨es, htr.symm⟩, ⟨as, heq.symm⟩, ⟨[], h.invoked, nofun⟩,
    fun _ hk => .inl (h.finished_iff.mp hk), fun {k u} hu _ hc => ?_⟩
  exact h.spares.isCancelled_or (c := id) (hw.stems hu.mem) hc

theorem later (h : w.Affects id t₀ n t w') (hu : w.Invoked id k u) : w'.Invoked id k u := by
  obtain ⟨us, heq, -⟩ := h.invoked
  exact hu.later heq

theorem trans (h : w.Affects id t₀ n t w') (h' : w'.Affects id t₀ n t w'') :
    w.Affects id t₀ n t w'' := by
  obtain ⟨us, heq, hus⟩ := h.invoked
  obtain ⟨us', heq', hus'⟩ := h'.invoked
  refine ⟨h'.ledger, h.trace.trans h'.trace, h.cancelled.trans h'.cancelled,
    ⟨us' ++ us, by rw [heq', heq, List.append_assoc], fun u hu => ?_⟩, fun {k u} hu hk => ?_,
    fun {k u} hu hn hc => ?_⟩
  · exact (List.mem_append.mp hu).elim (hus' u) (hus u)
  · rcases h'.finished hu hk with hk' | hown
    · obtain ⟨v, hv⟩ := Invoked.exists_of_lt (h.ledger.numbered hk')
      obtain rfl := (h'.later hv).unique hu
      exact h.finished hv hk'
    · exact .inr hown
  · rcases h'.spared (h.later hu) hn hc with hc' | ht
    · exact (h.spared hu hn hc').imp_right (isCancelled_of_suffix h'.cancelled)
    · exact .inr ht

/-- What is done under a child is done under the parent. -/
theorem parent (h : w.Affects id t₀ n c w') (hc : t.governs c = true)
    (hlive : w'.isCancelled c = true → w'.isCancelled t = true) : w.Affects id t₀ n t w' := by
  obtain ⟨us, heq, hus⟩ := h.invoked
  refine ⟨h.ledger, h.trace, h.cancelled, ⟨us, heq, fun u hu => Token.governs_trans hc (hus u hu)⟩,
    fun hu hk => ?_, fun hu hn hcu => (h.spared hu hn hcu).imp_right hlive⟩
  exact (h.finished hu hk).imp_right fun ⟨hn, hg⟩ => ⟨hn, Token.governs_trans hc hg⟩

theorem invoke (hw : w.Ledger id t₀) (ht : Token.Stems id t₀ t) (hmade : t.Before w.minted) :
    w.Affects id t₀ (w.invoked id).length t (w.invoke id (w.invoked id).length t) := by
  have heq : (w.invoke id (w.invoked id).length t).invoked id = [t] ++ w.invoked id :=
    assign_self _ _ _
  have hmem : ∀ {u}, u ∈ (w.invoke id (w.invoked id).length t).invoked id →
      u = t ∨ u ∈ w.invoked id := by
    intro u hu
    rw [heq] at hu
    exact List.mem_cons.mp hu
  refine ⟨⟨fun hk => ?_, fun hu => ?_, fun hu => ?_⟩, List.suffix_cons _ _, List.suffix_refl _,
    ⟨[t], heq, fun u hu => ?_⟩, fun _ hk => .inl hk.of_invoke, fun _ _ hc => .inl hc⟩
  · rw [heq]
    exact Nat.lt_succ_of_lt (hw.numbered hk.of_invoke)
  · rcases hmem hu with rfl | hu
    · exact ht
    · exact hw.stems hu
  · rcases hmem hu with rfl | hu
    · exact hmade
    · exact hw.made hu
  · rw [List.mem_singleton.mp hu]
    exact t.governs_self

theorem finish (hw : w.Ledger id t₀) (hk : w.Invoked id k u) (hn : n ≤ k) (hu : t.governs u = true)
    (ending : Ending) : w.Affects id t₀ n t (w.note (.finished id k ending)) := by
  have hfinished : ∀ {j}, (w.note (.finished id k ending)).Finished id j → j = k ∨ w.Finished id j := by
    rintro j ⟨e, he, ending', hr⟩
    rcases List.mem_cons.mp he with rfl | he
    · cases hr
      exact .inl rfl
    · exact .inr ⟨e, he, ending', hr⟩
  refine ⟨⟨fun hj => ?_, hw.stems, hw.made⟩, List.suffix_cons _ _, List.suffix_refl _,
    ⟨[], rfl, nofun⟩, fun {j v} hj hend => ?_, fun _ _ hc => .inl hc⟩
  · rcases hfinished hj with rfl | hj
    · exact hk.lt
    · exact hw.numbered hj
  · rcases hfinished hend with rfl | hend
    · obtain rfl : v = u := hj.unique hk
      exact .inr ⟨hn, hu⟩
    · exact .inl hend

/-- A token is cancelled that nothing was begun under before. -/
theorem cancel (hw : w.Ledger id t₀) (hs : w.Since id n c) : w.Affects id t₀ n t (w.cancel c) := by
  refine ⟨⟨hw.numbered, hw.stems, hw.made⟩, List.suffix_refl _, List.suffix_cons _ _,
    ⟨[], rfl, nofun⟩, fun _ hk => .inl hk, fun hu hn hc => ?_⟩
  rcases Settled.cancel_iff.mp hc with hg | hold
  · exact absurd (hs hu hg) (Nat.not_le.mpr hn)
  · exact .inl hold

/-- An activity that started later has done less. -/
theorem earlier (h : w.Affects id t₀ n' t w') (hn : n ≤ n') : w.Affects id t₀ n t w' := by
  refine ⟨h.ledger, h.trace, h.cancelled, h.invoked, fun hu hk => ?_,
    fun hu hlt hc => h.spared hu (Nat.lt_of_lt_of_le hlt hn) hc⟩
  exact (h.finished hu hk).imp_right fun hown => ⟨Nat.le_trans hn hown.1, hown.2⟩

end Affects

/-- What has been begun now was begun under the token that something was done with. -/
theorem Begun.affects (h : w'.Begun id n t k x) (hw : w.Affects id t₀ n' u w') :
    w.Begun id n t k x ∨ u.governs x = true := by
  obtain ⟨us, heq, hus⟩ := hw.invoked
  rcases h.invoked.earlier heq with hold | ⟨-, hmem⟩
  · exact .inl ⟨h.since, hold, h.governs⟩
  · exact .inr (hus x hmem)

theorem Begun.still (h : w'.Begun id n t k x) (hw : w.Still id t₀ v w') : w.Begun id n t k x :=
  ⟨h.since, hw.invoked_iff.mp h.invoked, h.governs⟩

/-- What was begun before is still known of a token. -/
theorem Since.affects (h : w.Since id n c) (hn : n ≤ (w.invoked id).length)
    (hw : w.Affects id t₀ n' t w') : w'.Since id n c := by
  intro k u hu hc
  obtain ⟨us, heq, -⟩ := hw.invoked
  rcases hu.earlier heq with hu | ⟨hk, -⟩
  · exact h hu hc
  · exact Nat.le_trans hn hk

/-- Nothing was begun under a new child. -/
theorem Since.mint (hw : w.Ledger id t₀) (n : Nat) :
    (w.mint id t).2.Since id n (w.mint id t).1 := fun hu hc =>
  absurd hc ((hw.made hu.mem).not_governs (Nat.le_refl _))

/-- Nothing has been done to the invocations that were begun under a token. -/
structure Apart (id : CallId) (t : Token) (w w' : World) : Prop where
  invoked : ∃ us, w'.invoked id = us ++ w.invoked id ∧ ∀ u ∈ us, t.governs u ≠ true
  finished : ∀ {k u}, w.Invoked id k u → t.governs u = true → w'.Finished id k → w.Finished id k

namespace Apart

theorem of_still (h : w.Still id t₀ v w') : w.Apart id t w' :=
  ⟨⟨[], h.invoked, nofun⟩, fun _ _ hk => h.finished_iff.mp hk⟩

theorem child (h : w.Apart id t w') (hc : t.governs c = true) : w.Apart id c w' := by
  obtain ⟨us, heq, hus⟩ := h.invoked
  exact ⟨⟨us, heq, fun u hu hcu => hus u hu (Token.governs_trans hc hcu)⟩,
    fun hu hcu => h.finished hu (Token.governs_trans hc hcu)⟩

/-- What is done under one child is nothing to another one. -/
theorem sibling (h : w.Affects id t₀ n v w')
    (hne : ∀ {x}, u.governs x = true → v.governs x = true → False) : w.Apart id u w' := by
  obtain ⟨us, heq, hus⟩ := h.invoked
  refine ⟨⟨us, heq, fun x hx hux => hne hux (hus x hx)⟩, fun hx hux hk => ?_⟩
  exact (h.finished (h.later hx) hk).resolve_right fun hown => hne hux hown.2

theorem later (h : w.Apart id t w') (hu : w.Invoked id k u) : w'.Invoked id k u := by
  obtain ⟨us, heq, -⟩ := h.invoked
  exact hu.later heq

theorem invoked_of_governs (h : w.Apart id t w') (hu : w'.Invoked id k u)
    (hg : t.governs u = true) : w.Invoked id k u := by
  obtain ⟨us, heq, hus⟩ := h.invoked
  rcases hu.earlier heq with hu | ⟨-, hmem⟩
  · exact hu
  · exact absurd hg (hus u hmem)

theorem begun (h : w.Apart id t w') (hu : w'.Begun id n t k u) : w.Begun id n t k u :=
  ⟨hu.since, h.invoked_of_governs hu.invoked hu.governs, hu.governs⟩

theorem since (h : w.Apart id t w') (hs : w.Since id n t) : w'.Since id n t :=
  fun hu hg => hs (h.invoked_of_governs hu hg) hg

end Apart

/-- Invocation `k` is under way under the token, and it is all that was begun there since
there were `n` invocations. -/
structure Sole (id : CallId) (n : Nat) (t : Token) (k : Nat) (w : World) : Prop where
  since : n ≤ k
  invoked : w.Invoked id k t
  only : ∀ {j u}, w.Begun id n t j u → j = k ∧ ¬w.Finished id j

namespace Sole

/-- The next invocation is all there is since. -/
theorem invoke (hw : w.Ledger id t₀) :
    (w.invoke id (w.invoked id).length t).Sole id (w.invoked id).length t
      (w.invoked id).length := by
  have heq : (w.invoke id (w.invoked id).length t).invoked id = [t] ++ w.invoked id :=
    assign_self _ _ _
  refine ⟨Nat.le_refl _, ?_, fun {j u} hj => ?_⟩
  · rw [World.Invoked, heq, List.reverse_append, List.getElem?_append_right (by simp)]
    simp
  · have hlt := hj.invoked.lt
    rw [heq] at hlt
    obtain rfl : j = (w.invoked id).length := Nat.le_antisymm (Nat.le_of_lt_succ hlt) hj.since
    exact ⟨rfl, fun hend => Nat.lt_irrefl _ (hw.numbered hend.of_invoke)⟩

theorem still (h : w.Sole id n t k) (hw : w.Still id t₀ v w') : w'.Sole id n t k := by
  refine ⟨h.since, hw.invoked_iff.mpr h.invoked, fun hj => ?_⟩
  obtain ⟨rfl, hunfinished⟩ := h.only (hj.still hw)
  exact ⟨rfl, fun hend => hunfinished (hw.finished_iff.mp hend)⟩

theorem apart (h : w.Sole id n t k) (hw : w.Apart id t w') : w'.Sole id n t k := by
  refine ⟨h.since, hw.later h.invoked, fun hj => ?_⟩
  obtain ⟨heq, hunfinished⟩ := h.only (hw.begun hj)
  exact ⟨heq, fun hend => hunfinished (hw.finished (hw.begun hj).invoked hj.governs hend)⟩

/-- When it has finished, all that was begun is settled. -/
theorem clear_finish (h : w.Sole id n t k) (ending : Ending) :
    (w.note (.finished id k ending)).Clear id n t := by
  intro j u hj
  obtain ⟨rfl, -⟩ := h.only ⟨hj.since, hj.invoked, hj.governs⟩
  obtain rfl : u = t := World.Invoked.unique hj.invoked h.invoked
  exact ⟨fun _ hc => hc, fun hend => absurd ⟨_, List.mem_cons_self, _, rfl⟩ hend⟩

end Sole

end World

/-! ### Activities that last -/

namespace Activity

/-- What has been done by an activity with the token `t`, and where that has led: it is
suspended in a state that something is known of, or what it has begun is settled. -/
def Tallies {κ : Type} (id : CallId) (t₀ : Token) (n : Nat) (t : Token) (P : κ → World → Prop)
    (w : World) : Status κ ο × World → Prop
  | (.pending s, w') => w.Affects id t₀ n t w' ∧ P s w'
  | (.done _, w') => w.Affects id t₀ n t w' ∧ w'.Clear id n t
  | (.panicked _, _) => True

theorem Tallies.after {κ : Type} {P : κ → World → Prop} {out : Status κ ο × World}
    (h : w.Affects id t₀ n t w') (h' : Tallies id t₀ n t P w' out) : Tallies id t₀ n t P w out := by
  rcases out with ⟨s | o | y, w''⟩
  · exact h'.imp_left h.trans
  · exact h'.imp_left h.trans
  · trivial

/-- The activity lasts until what it has begun is settled. `holds` is known of it whenever
it is suspended, if there were `n` invocations before it started. -/
structure Lasts (a : Activity Token ο) (id : CallId) (t₀ : Token)
    (keeps : (CallId → Nat) → Token → a.State → World → Prop)
    (holds : Nat → Token → a.State → World → Prop) : Prop where
  start : ∀ {t} {w : World}, w.Ready w.minted t → Token.Stems id t₀ t → w.Ledger id t₀ →
    Tallies id t₀ (w.invoked id).length t (holds (w.invoked id).length t) w (a.start t w)
  resume : ∀ {m n t s} {w : World}, w.Ready m t → Token.Stems id t₀ t → w.Ledger id t₀ →
    keeps m t s w → holds n t s w → Tallies id t₀ n t (holds n t) w (a.resume s w)
  stable : ∀ {n t s} {w w' : World}, holds n t s w → w.Apart id t w' → holds n t s w'
  reached : ∀ {n t s} {w : World}, holds n t s w → n ≤ (w.invoked id).length
  underway : ∀ {n t s} {w : World}, holds n t s w → w.Underway id n t

namespace Lasts

/-- The code of an invocation has been looked at. -/
theorem tallies_conclude {body : Activity Visit Ending}
    {out : Status body.State Ending × World} (hw : w.Ledger id t₀) (h : w.Sole id n t k)
    (hstill : w.Still id t₀ t out.2) :
    Tallies id t₀ n t (fun _ w => w.Sole id n t k) w (invocation.conclude id k body t out) := by
  have haffects : w.Affects id t₀ n t out.2 := .of_still hw hstill
  rcases out with ⟨s | (r | y) | y, w'⟩
  · exact ⟨haffects, h.still hstill⟩
  · have hsole : w'.Sole id n t k := h.still hstill
    exact ⟨haffects.trans (.finish haffects.ledger hsole.invoked hsole.since t.governs_self _),
      hsole.clear_finish _⟩
  · trivial
  · trivial

/-- **The operation of a script** lasts as long as its invocation. -/
theorem script (script : Script) (id : CallId) :
    ∃ keeps, (script.operation id).Attends id [] keeps ∧
      (∀ {m t s w}, keeps m t s w → s.2.1 = t) ∧
      ∀ t₀, (script.operation id).Lasts id t₀ keeps fun n t s w => w.Sole id n t s.1 := by
  choose keeps hbody using fun k => scriptBody_docile id k k script
  refine ⟨_, .numbered hbody, fun hs => hs.1, fun t₀ => ?_⟩
  have hlift : ∀ {n k t} {w : World} {out : Status (scriptBody id k k script).State Ending × World},
      w.Ledger id t₀ → w.Sole id n t k → w.Still id t₀ t out.2 →
      Tallies id t₀ n t (fun (s : (script.operation id).State) w => w.Sole id n t s.1) w
        (Status.lift (Sigma.mk (β := fun k => (invocation id k (scriptBody id k k script)).State) k)
          (invocation.conclude id k (scriptBody id k k script) t out)) := by
    intro n k t w out hw hsole hstill
    have htallies := tallies_conclude hw hsole hstill
    rcases out with ⟨s | (r | y) | y, w'⟩ <;> exact htallies
  refine ⟨fun {t w} hw ht hledger => ?_, ?_, fun hs hapart => hs.apart hapart,
    fun hs => Nat.le_of_lt (Nat.lt_of_le_of_lt hs.since hs.invoked.lt), fun hs _ _ hj => (hs.only hj).2⟩
  · have hinvoke := World.Affects.invoke hledger ht hw.token
    have hinvoked : w.Confined (.ofCall id [] t) w.minted (w.invoke id (w.invoked id).length t) :=
      .invoke w (.refl _ t) fun _ => Scope.records_ofCall rfl nofun
    have hstart := (hbody (w.invoked id).length).start_after (i := ⟨t, .ok ""⟩)
      (hinvoked.ready hw) (.refl _ _ _)
    exact .after hinvoke (hlift hinvoke.ledger (.invoke hledger) (.of_body ht hstart.confined))
  · rintro m n _ ⟨k, t, s⟩ w hw ht hledger ⟨rfl, hs⟩ hsole
    exact hlift hledger hsole (.of_body ht ((hbody k).resume hw hs).confined)

end Lasts

end Activity

end CallPolicy
