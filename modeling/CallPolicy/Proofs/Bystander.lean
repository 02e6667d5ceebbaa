/-
A call among bystanders.

To a call from outside the others are bystanders. Whatever they do, the world is the same
for the call afterwards, as long as they leave its root token alone
(`World.SameFor.allows`): the tokens that they cancel are their own, and what they record
is about themselves.

A suspended call is *poised* if it waits for instants to come and nothing but these, or the
cancellation of one of its tokens, can wake it (`Running.Poised`). Bystanders leave it so.

* **`Call.sameFor_start`**, **`Orderly.sameFor_resume`**, **`Call.sameFor_release`** — a
  bystander is started, goes on, or is dropped;
* **`Orderly.poised_resume`** — a call that has been looked at is poised, unless its token has
  just been cancelled.
-/
import CallPolicy.Proofs.StatelessScript
import CallPolicy.Proofs.Lives

namespace CallPolicy

variable {id call : CallId} {t u a : Token} {w w' : World} {timely : Prop}
  {S : Simulation} {r r' : Running} {c d : Call}

/-! ### What bystanders do -/

namespace World.SameFor

/-- Tokens that govern none of the call's may be cancelled. -/
theorem cancel_elsewhere (ha : ∀ {c u}, Serves id t c u → ¬a.governs u = true) :
    w.SameFor id t (w.cancel a) := by
  refine ⟨rfl, ⟨fun {c u} hu => ?_⟩, fun _ => rfl, fun _ => rfl, fun _ => rfl, rfl⟩
  show (a.governs u || w.isCancelled u) = w.isCancelled u
  rw [Bool.eq_false_iff.mpr (ha hu), Bool.false_or]

/-- Something may be recorded about other calls. -/
theorem note_elsewhere {r : Record} (hr : r.call.outermost ≠ id) : w.SameFor id t (w.note r) := by
  refine ⟨rfl, ⟨fun _ => rfl⟩, fun _ => rfl, fun _ => rfl, fun _ => rfl, ?_⟩
  exact List.filter_cons_of_neg (by simpa using hr)

/-- **What is done for other calls** makes no difference to a call from outside, short of the
cancellation of its root token. -/
theorem allows (hid : id.outermost = id) (ht : t.path = []) :
    World.Allows (SameFor id t) t.root fun c => c.outermost ≠ id where
  refl := .refl
  trans := .trans
  note _ _ hr := .note_elsewhere hr
  cancel_named w name hname := by
    refine .cancel_elsewhere fun hu hgoverns => hname ?_
    exact (Token.governs_iff.mp hgoverns).1.trans (Token.governs_iff.mp hu.governs).1.symm
  cancel_child w c v n hc := by
    refine .cancel_elsewhere fun hu hgoverns => hc ?_
    -- every step to a token of the call was made for a call inside it
    have hmem := (Token.governs_iff.mp hgoverns).2.subset (List.mem_cons_self (a := (c, n)))
    rcases hu.within_of_mem hmem with hroot | hwithin
    · rw [ht] at hroot
      cases hroot
    · exact hwithin.outermost_eq.trans hid
  mint w c v hc := by
    refine ⟨rfl, ⟨fun _ => rfl⟩, fun {d} hd => assign_of_ne ?_, fun _ => rfl, fun _ => rfl, rfl⟩
    rintro rfl
    exact hc hd
  invoke w c k v hc := by
    have hbegun : w.SameFor id t { w with invoked := assign w.invoked c (v :: w.invoked c) } := by
      refine ⟨rfl, ⟨fun _ => rfl⟩, fun _ => rfl, fun {d} hd => assign_of_ne ?_, fun _ => rfl, rfl⟩
      rintro rfl
      exact hc hd
    exact hbegun.trans (.note_elsewhere hc)
  draw _ := ⟨rfl, ⟨fun _ => rfl⟩, fun _ => rfl, fun _ => rfl, fun _ => rfl, rfl⟩
  modifyGates _ _ _ := ⟨rfl, ⟨fun _ => rfl⟩, fun _ => rfl, fun _ => rfl, fun _ => rfl, rfl⟩
  nested _ _ _ h := h

end World.SameFor

section

variable (hid : id.outermost = id) (ht : t.path = []) (hleaves : d.Leaves t.root)
  (hne : d.id.outermost ≠ id)

include hne

/-- A bystander ends. -/
theorem Running.sameFor_ofStatus {out : Status d.activity.State Result × World}
    (h : w.SameFor id t out.2) : w.SameFor id t (ofStatus d out).2 := by
  rcases out with ⟨s | r | x, w'⟩
  · exact h
  · exact h.trans (.note_elsewhere hne)
  · exact h.trans (.note_elsewhere hne)

include hid ht hleaves

theorem Call.obeys_sameFor : ∃ fits, d.activity.Obeys (World.SameFor id t) fits :=
  d.policy.obeys (World.SameFor.allows hid ht) hne hleaves.1 hleaves.2

/-- **A bystander is started**, and nothing changes for the call. -/
theorem Call.sameFor_start (w : World) :
    w.SameFor id t (Running.ofStatus d (d.activity.start d.token w)).2 := by
  obtain ⟨fits, hobeys⟩ := d.obeys_sameFor hid ht hleaves hne
  exact Running.sameFor_ofStatus hne (hobeys.start d.token w).obeys

/-- **A bystander is dropped**, and nothing changes for the call. -/
theorem Call.sameFor_release (s : d.activity.State) (w : World) :
    w.SameFor id t (w.releaseAll (d.activity.holdings s)) := by
  obtain ⟨fits, hobeys⟩ := d.obeys_sameFor hid ht hleaves hne
  exact hobeys.release s w

end

/-- **A bystander goes on**, and nothing changes for the call. -/
theorem Simulation.Orderly.sameFor_resume (h : S.Orderly timely) (hr : r ∈ S.running)
    (hid : id.outermost = id) (ht : t.path = []) (hleaves : r.call.Leaves t.root)
    (hne : r.call.id.outermost ≠ id) : S.world.SameFor id t (r.resume S.world).2 := by
  obtain ⟨w₀, -, hlives⟩ := h.lives r hr
  obtain ⟨fits, hobeys⟩ := r.call.obeys_sameFor hid ht hleaves hne
  exact Running.sameFor_ofStatus hne (hobeys.resume _ _ (hobeys.lives hlives)).obeys

/-! ### What the call does itself -/

/-- A call without state ends in the same way in both worlds. -/
theorem World.SameFor.settleCall (h : w.SameFor c.id c.token w') (hid : c.id.outermost = c.id)
    (hserved : ∀ u ∈ w.invoked c.id, Serves c.id c.token c.id u) (e : Ending) :
    (w.settleCall c e).SameFor c.id c.token (w'.settleCall c e) := by
  have hflags : (w.invoked c.id).reverse.map w'.isCancelled =
      (w.invoked c.id).reverse.map w.isCancelled :=
    List.map_congr_left fun u hu => h.isCancelled (hserved u (List.mem_reverse.mp hu))
  unfold World.settleCall
  rw [h.invoked hid, hflags]
  exact h.note _

/-- A call takes up the same status in both worlds. -/
theorem Abreast.ofStatus {fits : c.activity.State → Prop}
    {out out' : Status c.activity.State Result × World} (hid : c.id.outermost = c.id)
    (h : Abreast c.id c.token fits (fun _ => True) out out')
    (hserved : ∀ u ∈ out.2.invoked c.id, Serves c.id c.token c.id u) :
    (Running.ofStatus c out').1 = (Running.ofStatus c out).1 ∧
      (Running.ofStatus c out).2.SameFor c.id c.token (Running.ofStatus c out').2 ∧
      ∀ r ∈ (Running.ofStatus c out).1.toList, ∃ s, r = ⟨c, s⟩ ∧ fits s := by
  cases h with
  | pending hs hw =>
    refine ⟨rfl, hw, fun r hr => ⟨_, List.mem_singleton.mp hr, hs⟩⟩
  | done _ hw => exact ⟨rfl, hw.settleCall hid hserved _, nofun⟩
  | panicked hw => exact ⟨rfl, hw.settleCall hid hserved _, nofun⟩

/-- A suspended call waits for instants to come. Before they have, nothing comes of looking at
it in any world in which the same of its tokens are cancelled. -/
structure Running.Poised (r : Running) (w : World) : Prop where
  due : ∀ d ∈ r.deadlines, w.now < d
  rests : ∀ w' : World, w.Alike (Serves r.call.id r.call.token) w' →
    (∀ d ∈ r.deadlines, w'.now < d) → r.resume w' = (some r, w')

namespace Running.Poised

variable (h : r.Poised w)

include h

theorem resume_eq : r.resume w = (some r, w) := h.rests w ⟨fun _ => rfl⟩ h.due

theorem same (hcall : r.call = c) (hw : w.SameFor c.id c.token w') : r.Poised w' := by
  subst hcall
  refine ⟨fun d hd => ?_, fun w'' halike => h.rests w'' (hw.alike.trans halike)⟩
  rw [hw.now]
  exact h.due d hd

/-- Time may pass up to an instant that the call waits for. -/
theorem clock {n : Nat} (hn : ∀ d ∈ r.deadlines, n < d) : r.Poised { w with now := n } :=
  ⟨hn, fun w' halike => h.rests w' ⟨halike.isCancelled⟩⟩

end Running.Poised

namespace Simulation.Orderly

variable {s : c.activity.State} (h : S.Orderly timely) (hr : ⟨c, s⟩ ∈ S.running)

include h hr

/-- The tokens of a call's invocations are its own. -/
theorem served_resume :
    ∀ u ∈ (c.activity.resume s S.world).2.invoked c.id, Serves c.id c.token c.id u := by
  obtain ⟨w₀, hawaits, hlives⟩ := h.lives _ hr
  obtain ⟨keeps, hdocile⟩ := c.policy.docile c.id c.script
  exact fun u hu => (hdocile.served hawaits hlives.resume).1 .self hu

/-- **A call that has been looked at is poised**, unless its token has just been cancelled. -/
theorem poised_resume {fits : c.activity.State → Prop}
    (hresigns : c.activity.Resigns c.token (Serves c.id c.token c.id) fits) (hs : fits s)
    (hr' : r' ∈ (Running.resume ⟨c, s⟩ S.world).1.toList) :
    r'.Poised (Running.resume ⟨c, s⟩ S.world).2 ∨ S.world.isCancelled c.token = false ∧
      (Running.resume ⟨c, s⟩ S.world).2.isCancelled c.token = true := by
  obtain ⟨w₀, hawaits, hlives⟩ := h.lives _ hr
  obtain ⟨keeps, hdocile⟩ := c.policy.docile c.id c.script
  obtain ⟨hready, hkept⟩ := hdocile.lives hawaits.ready hlives
  have hlands : Lands (c.activity.Stands (.ofCall c.id c.policy.kinds c.token)
      (keeps w₀.minted) c.token) (fun _ => True) (c.activity.resume s S.world) :=
    (hdocile.resume hready hkept).lands
  have hspent := hresigns.resume (w := S.world) hs
  obtain ⟨s', rfl, hout⟩ := Running.of_mem_ofStatus hr'
  have hresume : ∀ {w' : World}, c.activity.resume s' w' = (.pending s', w') →
      Running.resume ⟨c, s'⟩ w' = (some ⟨c, s'⟩, w') := fun heq =>
    congrArg (Running.ofStatus c) heq
  change c.activity.resume s S.world = (.pending s', (Running.resume ⟨c, s⟩ S.world).2) at hout
  rw [hout] at hlands hspent
  cases hcancelled : S.world.isCancelled c.token with
  | true =>
    -- under a cancelled token nothing but time can wake it
    left
    obtain ⟨hstill, hs'⟩ := hspent hcancelled
    refine ⟨hlands.atRest.due, fun w' halike hearly => hresume (hs' w' ?_ hearly)⟩
    exact (halike.isCancelled (.refl c.id c.token)).trans hstill
  | false =>
    cases hlive : (Running.resume ⟨c, s⟩ S.world).2.isCancelled c.token with
    | true => exact .inr ⟨rfl, rfl⟩
    | false =>
      left
      exact ⟨hlands.atRest.due, fun w' halike hearly =>
        hresume (hlands.atRest.rests hlive w' halike hearly)⟩

end Simulation.Orderly

end CallPolicy
