/-
The invocations of a call.

A call invokes its operation at most as often as the retry layer tries it, or twice as often
if there is a hedge. Its rights say so (`Policy.count_invoke_rights`), and whatever it does
uses them up.

* **`Scene.Entitles.invoke`** — an invocation that begins uses up a right to invoke;
* **`Simulation.Reachable.liveIn_eq_zero`** — nothing is live of a call that does not run;
* **`invocations_bounded`** — how many invocations of a call there are, and when.
-/
import CallPolicy.Proofs.Overlap
import CallPolicy.Proofs.Balance

namespace CallPolicy

open Relation

variable {K : List Policy} {x y : Scene} {w w' w₀ : World} {site : Site} {id : CallId} {t : Token}
  {N : Nat} {tr : List Entry} {e : Entry} {timely : Prop} {chance : Chance} {S S' : Simulation}

/-! ### The right to invoke an operation -/

/-- How often the retry layer tries what is inside it. -/
def attemptsOf (layers : List Layer) : Nat :=
  (layers.findSome? fun
    | .retry r => some r.maxAttempts.toNat
    | _ => none).getD 1

/-- How often the hedge layer starts what is inside it. -/
def rivalsOf (layers : List Layer) : Nat :=
  if .hedge ∈ layers.map Layer.kind then 2 else 1

/-- How often a call through the policy may be tried. -/
def Policy.attempts (p : Policy) : Nat := attemptsOf p.layers

/-- How many invocations a call through the policy may have at a time. -/
def Policy.rivals (p : Policy) : Nat := rivalsOf p.layers

theorem attemptsOf_of_retry_not_mem {layers : List Layer} (h : .retry ∉ layers.map Layer.kind) :
    attemptsOf layers = 1 := by
  have hnone : (layers.findSome? fun
      | .retry r => some r.maxAttempts.toNat
      | _ => none) = none := by
    refine List.findSome?_eq_none_iff.mpr fun l hl => ?_
    cases l with
    | retry r => exact absurd (List.mem_map_of_mem (f := Layer.kind) hl) h
    | _ => rfl
  rw [attemptsOf, hnone]
  rfl

theorem attemptsOf_cons {l : Layer} {rest : List Layer} (h : l.kind ∉ rest.map Layer.kind) :
    attemptsOf (l :: rest) = attemptsOf [l] * attemptsOf rest := by
  cases l with
  | retry r =>
    rw [attemptsOf_of_retry_not_mem h, Nat.mul_one]
    rfl
  | _ => exact (Nat.one_mul _).symm

theorem rivalsOf_cons {l : Layer} {rest : List Layer} (h : l.kind ∉ rest.map Layer.kind) :
    rivalsOf (l :: rest) = rivalsOf [l] * rivalsOf rest := by
  by_cases hl : l.kind = .hedge
  · rw [hl] at h
    simp [rivalsOf, hl, h]
  · simp [rivalsOf, Ne.symm hl]

/-- A layer tries or starts what is inside it as often as it says. -/
theorem Layer.count_invoke_rights (l : Layer) (R : Multiset Right) :
    (l.rights site R).count (.invoke id) =
      attemptsOf [l] * rivalsOf [l] * R.count (.invoke id) := by
  cases l <;> simp [rights, attemptsOf, rivalsOf, kind, Multiset.count_nsmul]

/-- **The right to invoke**: as often as the layers try, and start, what is inside. -/
theorem count_invoke_stackRights {layers : List Layer} {inner : Multiset Right}
    (h : layers.Pairwise fun a b => a.kind.position < b.kind.position) :
    (stackRights site layers inner).count (.invoke id) =
      attemptsOf layers * rivalsOf layers * inner.count (.invoke id) := by
  induction layers with
  | nil => simp [stackRights, attemptsOf, rivalsOf]
  | cons l rest ih =>
    obtain ⟨hlt, hrest⟩ := List.pairwise_cons.mp h
    have hnot : l.kind ∉ rest.map Layer.kind := fun hmem => by
      obtain ⟨l', hl', hkind⟩ := List.mem_map.mp hmem
      exact Nat.ne_of_lt (hlt l' hl') (congrArg LayerKind.position hkind.symm)
    show (l.rights site (stackRights site rest inner)).count (.invoke id) = _
    rw [l.count_invoke_rights, ih hrest, attemptsOf_cons hnot, rivalsOf_cons hnot, ← Nat.mul_assoc,
      Nat.mul_mul_mul_comm]

theorem Policy.count_invoke_rights (p : Policy) (id : CallId) :
    (p.rights id).count (.invoke id) = p.attempts * p.rivals := by
  rw [Policy.rights, count_invoke_stackRights p.ordered, Multiset.count_singleton_self, Nat.mul_one]
  rfl

/-! ### Invocations that have begun -/

theorem begunIn_quiet (h : e.record.begun? id = none) : begunIn id (e :: tr) = begunIn id tr :=
  List.filterMap_cons_none h

theorem begunIn_begin {k : Nat} (h : e.record.begun? id = some k) :
    begunIn id (e :: tr) = k :: begunIn id tr := List.filterMap_cons_some h

theorem begunIn_append (es tr : List Entry) :
    begunIn id (es ++ tr) = begunIn id es ++ begunIn id tr := List.filterMap_append

/-- What is done for others begins no invocation. -/
theorem begunIn_elsewhere (h : ∀ e ∈ tr, ¬id.Within e.record.call) : begunIn id tr = [] := by
  refine List.filterMap_eq_nil_iff.mpr fun e he => Option.eq_none_iff_forall_ne_some.mpr ?_
  exact fun k hk => h e he (Record.call_of_begun? hk ▸ .self)

namespace World

/-- What others do begins no invocation of a call. -/
theorem Meanwhile.begunIn_eq (h : w.Meanwhile id t w') :
    begunIn id w'.trace = begunIn id w.trace := by
  obtain ⟨es, htr, hes⟩ := h.trace
  rw [htr, begunIn_append, begunIn_elsewhere hes, List.nil_append]

/-- Neither does an invocation end that somebody else has not begun. -/
theorem Meanwhile.liveIn_eq (h : w.Meanwhile id t w') :
    liveIn id w'.trace = liveIn id w.trace := by
  obtain ⟨es, htr, hes⟩ := h.trace
  rw [htr, liveIn_append fun e he => Entry.engages_of_ne fun hcall => hes e he (hcall ▸ .self)]

theorem Keeps.begunIn_eq (h : w.Keeps (fun _ => ()) (Entry.engages id) w') :
    begunIn id w'.trace = begunIn id w.trace := by
  obtain ⟨es, htr, hes⟩ := h.trace
  have hnone : begunIn id es = [] :=
    List.filterMap_eq_nil_iff.mpr fun e he => (Entry.engages_eq_false.mp (hes e he)).1
  rw [htr, begunIn_append, hnone, List.nil_append]

/-- No invocation begins when something is given back. -/
theorem begunIn_release (w : World) (hold : Holding) :
    begunIn id (w.release hold).trace = begunIn id w.trace := by
  rcases w.release_cases hold (fun _ => Entry.engages_of_isGate) fun _ => Entry.engages_of_ne with
    ⟨k, b, -, htr⟩ | ⟨-, hkeeps⟩
  · rw [htr]
    exact begunIn_quiet rfl
  · exact hkeeps.begunIn_eq

theorem begunIn_releaseAll (w : World) (hs : List Holding) :
    begunIn id (w.releaseAll hs).trace = begunIn id w.trace := by
  induction hs generalizing w with
  | nil => rfl
  | cons hold hs ih => exact (ih (w.release hold)).trans (w.begunIn_release hold)

end World

/-- All rights belong to a call, or to calls inside it, and no more than `N` invocations of
the call have begun or may begin. -/
structure Scene.Entitles (id : CallId) (N : Nat) (x : Scene) : Prop where
  own : ∀ r ∈ x.rights, id.Within r.call
  count_le : (begunIn id x.world.trace).length + x.rights.count (.invoke id) ≤ N

namespace Scene.Entitles

variable {H H' : Multiset Holding} {R R' : Multiset Right}

/-- Rights may lapse as long as no invocation begins. -/
theorem of_le (h : (Scene.mk w H R).Entitles id N) (hR : R' ≤ R)
    (hbegun : begunIn id w'.trace = begunIn id w.trace) : (Scene.mk w' H' R').Entitles id N := by
  refine ⟨fun r hmem => h.own r (Multiset.mem_of_le hR hmem), ?_⟩
  show (begunIn id w'.trace).length + R'.count (.invoke id) ≤ N
  rw [hbegun]
  exact (Nat.add_le_add_left (Multiset.count_le_of_le _ hR) _).trans h.count_le

/-- **An invocation that begins uses up a right.** -/
theorem invoke {call : CallId} {k : Nat} {actions : List Action}
    (h : (Scene.mk w H (.invoke call ::ₘ R)).Entitles id N) :
    (Scene.mk (w.invoke call k t) H' (actionsRights call k 0 actions + R)).Entitles id N := by
  have hcall : id.Within call := h.own (.invoke call) (Multiset.mem_cons_self _ _)
  -- the invocation brings rights of the calls that it makes, and none of its own call
  have hinner : ∀ r ∈ actionsRights call k 0 actions, id.Within r.call ∧ r.call ≠ id := by
    intro r hmem
    obtain ⟨i, name, -, hcall'⟩ := call_of_mem_actionsRights hmem
    rw [hcall']
    refine ⟨hcall.nested _ _ _, fun heq => ?_⟩
    rw [← heq] at hcall
    exact CallId.ne_of_within_nested hcall rfl
  refine ⟨fun r hmem => ?_, ?_⟩
  · rcases Multiset.mem_add.mp hmem with hmem | hmem
    · exact (hinner r hmem).1
    · exact h.own r (Multiset.mem_cons_of_mem hmem)
  · have hnone : (actionsRights call k 0 actions).count (.invoke id) = 0 :=
      Multiset.count_eq_zero.mpr fun hmem => (hinner _ hmem).2 rfl
    have hle : (begunIn id w.trace).length + (Right.invoke call ::ₘ R).count (.invoke id) ≤ N :=
      h.count_le
    rw [Multiset.count_add, hnone, Nat.zero_add, World.invoke_trace]
    by_cases heq : call = id
    · subst heq
      have hbegun : (Record.invoked call k (w.isCancelled t)).begun? call = some k := if_pos rfl
      rw [Multiset.count_cons_self] at hle
      rw [begunIn_begin hbegun, List.length_cons]
      omega
    · have hbegun : (Record.invoked call k (w.isCancelled t)).begun? id = none := if_neg heq
      rw [Multiset.count_cons_of_ne fun h => heq (Right.invoke.inj h).symm] at hle
      rw [begunIn_quiet hbegun]
      exact hle

end Scene.Entitles

/-- No effect exceeds the rights there are. -/
theorem Effect.entitles (he : Effect K x y) (h : x.Entitles id N) : y.Entitles id N := by
  cases he with
  | lapse w H hR => exact h.of_le hR rfl
  | plain hw H R =>
    have hkeeps : World.Keeps (fun _ => ()) (Entry.engages id) _ _ :=
      hw.keeps fun _ => Entry.engages_of_isPlain
    exact h.of_le le_rfl hkeeps.begunIn_eq
  | @ask σ gate w w' gain ha H R =>
    obtain ⟨hkeeps, -⟩ : w.Keeps (fun _ => ()) (Entry.engages id) w' ∧ invocationsAt id gain = 0 :=
      ha.keeps fun _ => Entry.engages_of_isGate
    exact h.of_le (Multiset.le_cons_self R _) hkeeps.begunIn_eq
  | settle w σ s permit o H R =>
    have hkeeps : w.Keeps (fun _ => ()) (Entry.engages id) _ :=
      .settlePermit_gate (fun _ => Entry.engages_of_isGate) w σ s permit o
    exact h.of_le le_rfl hkeeps.begunIn_eq
  | finish w call k token ending H R => exact h.of_le le_rfl (begunIn_quiet rfl)
  | release w hold H R => exact h.of_le le_rfl (w.begunIn_release hold)
  | invoke w call token actions H R => exact h.invoke

theorem Steps.entitles (hs : Steps K x y) (h : x.Entitles id N) : y.Entitles id N := by
  induction hs with
  | refl => exact h
  | tail _ e ih => exact e.entitles ih

/-- The rights of an activity where the status says. -/
def Activity.rightsIn {ι ο : Type} {a : Activity ι ο} (rights : a.State → Multiset Right) :
    Status a.State ο → Multiset Right
  | .pending s => rights s
  | .done _ => 0
  | .panicked _ => 0

/-- What an activity does is effects, wherever it has led. -/
theorem Leads.steps {ι ο : Type} {a : Activity ι ο} {rights : a.State → Multiset Right}
    {out : Status a.State ο × World} (h : Leads K x a.holdings rights out) :
    Steps K x ⟨out.2, a.heldIn out.1, Activity.rightsIn rights out.1⟩ := by
  rcases out with ⟨s | o | y, w⟩
  · exact h
  · exact h
  · exact h

/-- A call has begun no more invocations than it has the right to. -/
theorem Policy.begun_le (p : Policy) (script : Script)
    {out : Status (p.call id (script.operation id)).State Result × World}
    (hw₀ : w₀.Awaits id t) (hl : (p.call id (script.operation id)).Lives id timely t w₀ out) :
    (begunIn id out.2.trace).length ≤ p.attempts * p.rivals := by
  obtain ⟨K, hK⟩ := exists_scriptKnown script
  have hknown : scriptKnown (p :: K) script := scriptKnown_mono (List.subset_cons_self _ _) hK
  obtain ⟨rights, hlawful⟩ := Activity.Lawful.call List.mem_cons_self (Script.lawful id hknown)
  -- what a suspended call may still do is counted with what has begun
  have hall : Scene.Entitles id (p.attempts * p.rivals)
      ⟨out.2, (p.call id (script.operation id)).heldIn out.1, Activity.rightsIn rights out.1⟩ := by
    induction hl with
    | start =>
      refine (hlawful.start t w₀).steps.entitles ⟨fun r hr => ?_, ?_⟩
      · rw [Policy.call_of_mem_rights hr]
        exact .self
      · rw [begunIn_elsewhere hw₀.trace, p.count_invoke_rights]
        exact Nat.le_of_eq (Nat.zero_add _)
    | wait _ hw _ ih => exact ⟨ih.own, hw.begunIn_eq ▸ ih.count_le⟩
    | resume _ ih => exact (hlawful.resume _ _).steps.entitles ih
  exact (Nat.le_add_right _ _).trans hall.count_le

/-! ### Calls that do not run -/

/-- **Nothing is live of a call that does not run**, nor of one inside it. -/
theorem Simulation.Reachable.liveIn_eq_zero (h : S.Reachable chance)
    (hover : ∀ r ∈ S.running, ¬r.call.id.Within id) : liveIn id S.world.trace = 0 := by
  obtain ⟨R, hm⟩ := h.moment
  rw [hm.live]
  refine invocationsAt_eq_zero fun hold hmem => Option.eq_none_iff_forall_ne_some.mpr fun k hk => ?_
  obtain ⟨r, hr, hwithin⟩ := h.within_of_mem_held hmem
  refine hover r hr ?_
  cases hold with
  | invocation call j u =>
    have hcall : call = id := by
      by_contra hne
      rw [Holding.number?, if_neg hne] at hk
      cases hk
    exact hcall ▸ hwithin
  | _ => cases hk

/-- A call from outside is inside no other one. -/
theorem Simulation.Orderly.not_within {name : String} {n : Nat} (h : S.Orderly False)
    (hover : ∀ r ∈ S.running, r.call.id ≠ .top name n) :
    ∀ r ∈ S.running, ¬r.call.id.Within (.top name n) := by
  intro r hr hwithin
  obtain ⟨name', n', hid, -⟩ := (h.outside r hr).started
  have hne : CallId.top name' n' ≠ .top name n := hid ▸ hover r hr
  exact CallId.apart_of_top hne (hid ▸ hwithin) .self

/-! ### The invocations of a call -/

/-- **Invocations are bounded, and attempts do not overlap.** A call has begun at most so many
invocations as its policy has attempts and rivals for each, and no more are live at a time than
rivals. All those of an attempt have ended when one of a later attempt begins. None is live when
the call has ended or was dropped, and whatever others do then, none begins again: this holds of
calls from outside and of those that invocations make, and for the former in every simulation
that goes on from one in which they no longer run. -/
theorem invocations_bounded (p : Policy) (script : Script)
    {out : Status (p.call id (script.operation id)).State Result × World}
    (hw₀ : w₀.Awaits id t) (h : (p.call id (script.operation id)).Lives id timely t w₀ out) :
    let site : Site := ⟨p.origin, id⟩
    let call := p.call id (script.operation id)
    (begunIn id out.2.trace).length ≤ p.attempts * p.rivals ∧
    (∀ tr, tr <:+ out.2.trace → (liveIn id tr).card ≤ p.rivals) ∧
    (∀ {e n tr}, e :: tr <:+ out.2.trace → e.record.repeated? site = some n →
      n = attemptAt site tr) ∧
    (∀ {e e' k k' tr tr'}, e :: tr <:+ out.2.trace → e' :: tr' <:+ out.2.trace →
      e.record.begun? id = some k → e'.record.begun? id = some k' →
      attemptAt site tr < attemptAt site tr' → EndsBetween id k (e :: tr) tr') ∧
    ((∀ s, out.1 ≠ .pending s) → liveIn id out.2.trace = 0) ∧
    (∀ {s w}, out = (.pending s, w) →
      let dropped := w.releaseAll (call.holdings s)
      liveIn id dropped.trace = 0 ∧ begunIn id dropped.trace = begunIn id w.trace) ∧
    (∀ {w'}, (∀ s, out.1 ≠ .pending s) → out.2.Meanwhile id t w' →
      liveIn id w'.trace = 0 ∧ begunIn id w'.trace = begunIn id out.2.trace) ∧
    (∀ {s w w'}, out = (.pending s, w) → (w.releaseAll (call.holdings s)).Meanwhile id t w' →
      liveIn id w'.trace = 0 ∧ begunIn id w'.trace = begunIn id w.trace) ∧
    ∀ {name n chance S S'}, id = .top name n → Simulation.Reachable chance S →
      n < S.started.count name → (∀ r ∈ S.running, r.call.id ≠ id) →
      ReflTransGen Simulation.Move S S' →
      liveIn id S.world.trace = 0 ∧ liveIn id S'.world.trace = 0 ∧
        begunIn id S'.world.trace = begunIn id S.world.trace := by
  intro site call
  obtain ⟨keeps, hd, hone, hoperation⟩ := Activity.Spans.script script id
  -- the room for rivals is one without a hedge layer and two with it
  have hB : 1 ≤ p.rivals := by
    unfold Policy.rivals rivalsOf
    split <;> omega
  have hop : (script.operation id).Spans site p.rivals (Roomy p.rivals 1) keeps fun _ _ => True :=
    hoperation
  obtain ⟨fits, told, hfits, hspans⟩ := Activity.Spans.stack hd hone hop p.ordered hB
    fun hmem => Nat.le_of_eq (if_pos hmem).symm
  have hattends : call.Attends site.call _ _ := hd.stack site p.layers
  have hspanned := hspans.lives hattends hfits hw₀ h
  -- however it stands, the trace is spaced: attempts follow each other, and few are live
  obtain ⟨L, hspaced⟩ : ∃ L, Spaced site p.rivals L out.2.trace := by
    rcases out with ⟨s | r | x, w⟩
    · exact ⟨_, hspanned.1⟩
    · exact ⟨_, hspanned⟩
    · exact ⟨_, hspanned⟩
  have hended : (∀ s, out.1 ≠ .pending s) → liveIn id out.2.trace = 0 := by
    intro hover
    rcases out with ⟨s | r | x, w⟩
    · exact absurd rfl (hover s)
    · exact hspanned.live
    · exact hspanned.live
  -- dropping a call abandons what it holds, and begins nothing
  have hdropped : ∀ {s w}, out = (.pending s, w) →
      liveIn id (w.releaseAll (call.holdings s)).trace = 0 ∧
        begunIn id (w.releaseAll (call.holdings s)).trace = begunIn id w.trace := by
    rintro s w rfl
    exact ⟨hspanned.1.releaseAll.live, w.begunIn_releaseAll _⟩
  refine ⟨p.begun_le script hw₀ h, fun tr htr => hspaced.few htr,
    fun htr hr => ((hspaced.fits htr).apart hr).2,
    fun htr htr' hr _ hlt => hspaced.endsBetween htr ((List.suffix_cons _ _).trans htr') hr hlt,
    hended, hdropped, fun hover hw => ?_, fun heq hw => ?_, ?_⟩
  · exact ⟨hw.liveIn_eq.trans (hended hover), hw.begunIn_eq⟩
  · obtain ⟨hlive, hbegun⟩ := hdropped heq
    exact ⟨hw.liveIn_eq.trans hlive, hw.begunIn_eq.trans hbegun⟩
  -- an identity is never given twice, so what is over stays over in every later state
  · rintro name n chance S S' rfl hS hstarted hover hmoves
    obtain ⟨hw, hover'⟩ := hS.reaches.orderly.over hstarted hover hmoves (t := .named "") rfl
    have hS' : Simulation.Reachable chance S' := ReflTransGen.trans hS hmoves
    exact ⟨hS.liveIn_eq_zero (hS.reaches.orderly.not_within hover),
      hS'.liveIn_eq_zero (hS'.reaches.orderly.not_within hover'), hw.begunIn_eq⟩

/-- A policy that allows two attempts, each with a second try after five milliseconds. -/
def insistent : Policy where
  origin := ⟨0, "p", .none⟩
  layers := [.retry { maxAttempts := 2, backoff := .constant (.ofMillis 0) },
             .hedge (.ofMillis 5)]
  criticality := .critical
  dependencies := []
  ordered := List.pairwise_pair.mpr (by decide)
  faultless l hl := by
    rcases List.mem_pair.mp hl with rfl | rfl <;> decide

/-- An operation that hangs, fails, and succeeds. -/
def fickle : Script := [[.hang], [.give (.error (.operation "e" none))], [.give (.ok "v")]]

/-- A call through the policy to it. -/
def insisting : Operation := insistent.call (.top "c" 0) (fickle.operation (.top "c" 0))

/-- The world in which the call is started, with the policy built. -/
def beforeInsisting : World := insistent.install (.start .plain)

/-- The second try of the first attempt is due. -/
def slowAttempt : World :=
  { (insisting.start (.named "t") beforeInsisting).2 with now := 5000000 }

/-- The first try hangs, and the delay is set. -/
def stalledTry : insisting.State :=
  let u := (Token.named "t").child (.top "c" 0) 0
  .trying (.named "t") 1 (.early (.named "t") u 5000000 ⟨0, u, .inl ⟨u, .ok ""⟩⟩)

/-- Of the first attempt, one invocation is dropped when the other has failed, and then the
second attempt begins. -/
theorem invocations_bounded_insisting :
    beforeInsisting.Awaits (.top "c" 0) (.named "t") ∧
    ∃ s w, insisting.Lives (.top "c" 0) True (.named "t") beforeInsisting
        (.pending s, slowAttempt) ∧
      insisting.resume s slowAttempt = (.done (.ok "v"), w) ∧
      begunIn (.top "c" 0) w.trace = [2, 1, 0] ∧
      (begunIn (.top "c" 0) w.trace).length ≤ 2 * 2 ∧
      EndsBetween (.top "c" 0) 0 (w.trace.drop 8) (w.trace.drop 2) ∧
      liveIn (.top "c" 0) w.trace = 0 := by
  have hw₀ : beforeInsisting.Awaits (.top "c" 0) (.named "t") :=
    ⟨nofun, nofun, fun _ => rfl, nofun⟩
  obtain ⟨keeps, hd⟩ := insistent.docile (.top "c" 0) fickle
  have hfirst := (hd.start hw₀.ready).confined
  -- five milliseconds pass, in which nobody does anything
  have hmeanwhile : (insisting.start (.named "t") beforeInsisting).2.Meanwhile (.top "c" 0)
      (.named "t") slowAttempt :=
    ⟨hfirst.now.trans_le (Nat.zero_le _), hfirst.sane hw₀.sane,
      ⟨fun _ => Nat.le_refl _, [], rfl, nofun⟩, fun _ => rfl, [], rfl, nofun⟩
  have hl : insisting.Lives (.top "c" 0) True (.named "t") beforeInsisting
      (.pending stalledTry, slowAttempt) := by
    have hstart : insisting.Lives (.top "c" 0) True (.named "t") beforeInsisting
        (.pending stalledTry, (insisting.start (.named "t") beforeInsisting).2) := .start
    refine hstart.wait hmeanwhile fun _ d hd => ?_
    obtain rfl := List.mem_singleton.mp hd
    exact Nat.le_refl 5000000
  obtain ⟨hbound, -, -, hapart, hover, -⟩ := invocations_bounded insistent fickle hw₀ hl.resume
  have hends : insisting.resume stalledTry slowAttempt =
      (.done (.ok "v"), (insisting.resume stalledTry slowAttempt).2) := Prod.ext rfl rfl
  refine ⟨hw₀, stalledTry, _, hl, hends, rfl, hbound, ?_, hover nofun⟩
  have hlater : (insisting.resume stalledTry slowAttempt).2.trace.drop 1 <:+
      (insisting.resume stalledTry slowAttempt).2.trace := List.drop_suffix _ _
  have hearlier : (insisting.resume stalledTry slowAttempt).2.trace.drop 8 <:+
      (insisting.resume stalledTry slowAttempt).2.trace := List.drop_suffix _ _
  exact hapart hearlier hlater rfl rfl (Nat.lt_succ_self 1)

end CallPolicy
