/-
What a fallback hides, and from whom.

A policy with a fallback never fails, and below the fallback nothing can be told of it. What
happens to its layers and to the operations is the same without it at the same time
(`Backed.Covers`), and what can be read off the traces is the same but for the ends of the
calls (`Backed.Hides`).

* **`Backed.Covers.hides`** — what the traces tell of the fallback;
* **`fallback_is_invisible`** — so a run is the same with the fallback and without it, but for
  the ends of the calls, and no call fails with it.
-/
import CallPolicy.Proofs.Cover
import CallPolicy.Proofs.Usage

namespace CallPolicy

namespace Backed

variable (x : Backed)

/-! ### What can be told from a trace -/

/-- Whatever is not the end of an own call or a fallback of the policy. -/
def below? (own : CallId → Bool) (e : Entry) : Option Entry :=
  match e.record with
  | .event site (.fellBack _) => if site.origin.key = x.key then none else some e
  | .settled id _ _ => if own id then none else some e
  | _ => some e

/-- When a call used the fallback of the policy, and for which failure. -/
def fallback? (id : CallId) (e : Entry) : Option (Nat × Failure) :=
  match e.record with
  | .event site (.fellBack f) =>
    if site.origin.key = x.key ∧ site.call = id then some (e.time, f) else none
  | _ => none

end Backed

/-- When a call failed, and with what. -/
def CallId.failure? (id : CallId) (e : Entry) : Option (Nat × Failure) :=
  match e.record with
  | .settled c (.returned (.error f)) _ => if c = id then some (e.time, f) else none
  | _ => none

/-- When a call ended, and how. -/
def CallId.end? (id : CallId) (e : Entry) : Option (Nat × Ending) :=
  match e.record with
  | .settled c ending _ => if c = id then some (e.time, ending) else none
  | _ => none

/-- The end of a call that makes do with a value. -/
def Ending.orElse (value : String) : Ending → Ending
  | .returned (.error _) => .returned (.ok value)
  | e => e

namespace Backed

/-- What the traces of runs with and without the fallback have in common, and where they
differ. -/
structure Hides (x : Backed) (own : CallId → Bool) (backed bare : List Entry) : Prop where
  below : backed.filterMap (x.below? own) = bare.filterMap (x.below? own)
  ends : ∀ {id}, own id = true →
    backed.filterMap id.end? =
      bare.filterMap fun e => (id.end? e).map fun r => (r.1, r.2.orElse x.value)
  told : ∀ {id}, own id = true → backed.filterMap (x.fallback? id) = bare.filterMap id.failure?
  total : ∀ {id}, own id = true → backed.filterMap id.failure? = []

variable {x : Backed} {K : List Policy} {own : CallId → Bool} {e : Entry} {w w' : World}

/-- What is not heard is a fallback of the policy, in a call that an operation makes. -/
theorem of_heard (h : x.heard own e = false) :
    ∃ site f, e.record = .event site (.fellBack f) ∧ site.origin.key = x.key ∧
      own site.call = false := by
  unfold heard at h
  split at h
  next site f hrecord =>
    obtain ⟨hkey, hown⟩ := Bool.or_eq_false_iff.mp h
    exact ⟨site, f, hrecord, of_not_not (of_decide_eq_false hkey), hown⟩
  next => cases h

/-- An entry is mended, or it is not about a failure of the policy's own. -/
theorem mend_cases (x : Backed) (own : CallId → Bool) (e : Entry) :
    (∃ id f cs, own id = true ∧ e.record = .settled id (.returned (.error f)) cs ∧
      x.mend own e = [⟨e.time, .settled id (.returned (.ok x.value)) cs⟩,
        ⟨e.time, .event (x.site id) (.fellBack f)⟩]) ∨
    (x.mend own e = [e] ∧
      ∀ id f cs, e.record = .settled id (.returned (.error f)) cs → own id = false) := by
  unfold mend
  split
  next id f cs hrecord =>
    by_cases hown : own id = true
    · exact .inl ⟨id, f, cs, hown, hrecord, if_pos hown⟩
    · refine .inr ⟨if_neg hown, fun id' f' cs' hrecord' => ?_⟩
      cases hrecord.symm.trans hrecord'
      exact Bool.eq_false_of_not_eq_true hown
  next hother => exact .inr ⟨rfl, fun id f cs hrecord => absurd hrecord (hother id f cs)⟩

/-- What is read off a trace is read off the other one if it is read off each entry. -/
theorem Covers.filterMap {β : Type} {g g' : Entry → Option β} (h : x.Covers K own w w')
    (hheard : ∀ e, x.heard own e = false → g e = none)
    (hmended : ∀ {id}, own id = true → ∀ t f cs,
      [⟨t, .settled id (.returned (.ok x.value)) cs⟩,
        ⟨t, .event (x.site id) (.fellBack f)⟩].filterMap g =
      (g' ⟨t, .settled id (.returned (.error f)) cs⟩).toList)
    (hsame : ∀ e, ¬ x.Falls e →
      (∀ id f cs, e.record = .settled id (.returned (.error f)) cs → own id = false) →
      g e = g' e) :
    w.trace.filterMap g = w'.trace.filterMap g' := by
  have hfilter : w.trace.filterMap g = (w.trace.filter (x.heard own)).filterMap g := by
    rw [List.filterMap_filter]
    refine List.filterMap_congr fun e _ => ?_
    split
    · rfl
    next hunheard => exact hheard e (Bool.eq_false_of_not_eq_true hunheard)
  rw [hfilter, h.trace, List.filterMap_flatMap, List.filterMap_eq_flatMap_toList]
  refine List.flatMap_congr fun e he => ?_
  rcases x.mend_cases own e with ⟨id, f, cs, hown, hrecord, hmend⟩ | ⟨hmend, hother⟩
  · rw [hmend, hmended hown, ← hrecord]
  · rw [hmend, List.filterMap_eq_flatMap_toList, List.flatMap_singleton,
      hsame e (h.unused e he) hother]

/-- No failure of an own call is among entries that are not mended. -/
theorem failure?_eq_none {id : CallId} (hid : own id = true)
    (hother : ∀ id f cs, e.record = .settled id (.returned (.error f)) cs → own id = false) :
    id.failure? e = none := by
  unfold CallId.failure?
  split
  next c f cs hrecord =>
    refine if_neg fun heq => ?_
    rw [← heq, hother c f cs hrecord] at hid
    cases hid
  next => rfl

/-- **What the traces tell** of the fallback. -/
theorem Covers.hides (h : x.Covers K own w w') : x.Hides own w.trace w'.trace where
  below := by
    refine h.filterMap (fun e he => ?_) (fun hown t f cs => ?_) fun _ _ _ => rfl
    -- a value in place of a failure is heard of by its own key alone
    · obtain ⟨site, f, hrecord, hkey, -⟩ := of_heard he
      simp only [below?, hrecord, hkey, if_true]
    · simp [below?, hown, site, key]
  ends {id} hid := by
    refine h.filterMap (fun e he => ?_) (fun {id'} hown t f cs => ?_) fun e _ hother => ?_
    · obtain ⟨site, f, hrecord, -, -⟩ := of_heard he
      simp only [CallId.end?, hrecord]
    · by_cases heq : id' = id <;> simp [CallId.end?, heq, Ending.orElse]
    · unfold CallId.end?
      split
      next c ending cs hrecord =>
        split
        next heq =>
          -- no failure of another call is replaced
          have hsame : ending.orElse x.value = ending := by
            rcases ending with (f | v) | t
            · rw [← heq, hother c f cs hrecord] at hid
              cases hid
            · rfl
            · rfl
          rw [Option.map_some, hsame]
        next => rfl
      next => rfl
  told {id} hid := by
    refine h.filterMap (fun e he => ?_) (fun {id'} hown t f cs => ?_) fun e hfalls hother => ?_
    · obtain ⟨site, f, hrecord, hkey, hown⟩ := of_heard he
      simp only [fallback?, hrecord]
      refine if_neg fun hsite => ?_
      rw [hsite.2, hid] at hown
      cases hown
    · by_cases heq : id' = id <;>
        simp [List.filterMap_cons, fallback?, CallId.failure?, heq, site, key]
    · rw [failure?_eq_none hid hother]
      unfold fallback?
      split
      next site f hrecord => exact if_neg fun hsite => hfalls ⟨site, f, hrecord, hsite.1⟩
      next => rfl
  total {id} hid := by
    -- nobody fails within the covered call, so there is nothing to find
    have hnone : w.trace.filterMap id.failure? = w'.trace.filterMap fun _ => none := by
      refine h.filterMap (fun e he => ?_) (fun hown t f cs => ?_) fun e _ hother => ?_
      · obtain ⟨site, f, hrecord, -, -⟩ := of_heard he
        simp only [CallId.failure?, hrecord]
      · simp [CallId.failure?]
      · exact failure?_eq_none hid hother
    rw [hnone]
    exact List.filterMap_eq_nil_iff.mpr fun _ _ => rfl

end Backed

/-! ### A fallback is total and invisible -/

/-- An operation with a fallback does not fail. -/
theorem Operation.withFallback_total (site : Site) (value : String) (op : Operation)
    (f : Failure) :
    (∀ t w, ((withFallback site value op).start t w).1 ≠ .done (.error f)) ∧
      ∀ s w, ((withFallback site value op).resume s w).1 ≠ .done (.error f) := by
  have hfollow : ∀ (out : Status op.State Result × World) {g : Result → World → Result × World},
      (∀ r w, ∃ v, (g r w).1 = .ok v) → (Activity.after.follow g op out).1 ≠ .done (.error f) := by
    rintro ⟨s | r | t, w⟩ g hg hdone
    · cases hdone
    · obtain ⟨v, hv⟩ := hg r w
      have herror : (g r w).1 = .error f := Status.done.inj hdone
      cases hv.symm.trans herror
    · cases hdone
  refine ⟨fun t w => hfollow (op.start t w) fun r w => ?_,
    fun s w => hfollow (op.resume s w) fun r w => ?_⟩ <;>
  rcases r with f | v <;> exact ⟨_, rfl⟩

/-- Calls that are told apart by their identities can be told to be calls of a policy. -/
theorem Simulation.Lists.owns {S : Simulation} {cues : List Cue}
    (h : S.Lists (cues.filterMap Cue.call?)) (x : Backed) : ∃ own, x.Owns own cues := by
  refine ⟨fun id => (cues.filterMap Cue.call?).any fun c =>
    c.id = id ∧ c.policy.origin.key = x.key, fun parent k position name => ?_,
    fun cue hcue c hcall => ?_⟩
  · refine List.any_eq_false.mpr fun c hc hown => ?_
    obtain ⟨name', n, hid, -⟩ := h.outside c hc
    cases hid.symm.trans (of_decide_eq_true hown).1
  · have hc : c ∈ cues.filterMap Cue.call? := List.mem_filterMap.mpr ⟨cue, hcue, hcall⟩
    refine ⟨fun hown => ?_, fun hkey => List.any_eq_true.mpr ⟨c, hc, decide_eq_true ⟨rfl, hkey⟩⟩⟩
    obtain ⟨c', hc', hsame⟩ := List.any_eq_true.mp hown
    obtain ⟨hid, hkey⟩ := of_decide_eq_true hsame
    rw [← List.inj_on_of_nodup_map h.nodup hc' hc hid]
    exact hkey

/-- A policy of a simulation is told apart from the others by its key. -/
theorem Simulation.Reachable.fits {S : Simulation} {chance : Chance} (h : S.Reachable chance)
    {x : Backed} (hx : x.policy ∈ S.policies) : x.Fits S.policies := by
  obtain ⟨owners, -, -, hm⟩ := h.accounted
  exact fun p hp hkey => hm.eq_of_key_eq hp hx hkey

/-- **A fallback is total, and invisible to the layers below.** Whatever cues are played, a
policy with a fallback does what it does without: the worlds are in the same state, the same
calls run and wait for the same instants, and the same is recorded but for the ends of its
calls. Where a call fails without the fallback, it returns the value at the same instant, and
uses the fallback once and for that failure; other calls end as they did, and do not use it.
So no call of the policy fails, also not if an operation makes it. Any run of a simulation is
played by cues. Operations that do not call the policy themselves are the same without the
fallback, and the policy without it is built from the same description. -/
theorem fallback_is_invisible (x : Backed) (chance : Chance) :
    (∀ {K : List Policy} {own : CallId → Bool} {cues : List Cue}, x.Fits K → x.Owns own cues →
      (∀ cue ∈ cues, cue.Known K) →
      let backed := Conduct.plain.play chance cues
      let bare := x.conduct.play chance cues
      x.Covers K own backed.world bare.world ∧
        x.Hides own backed.world.trace bare.world.trace ∧
        bare.calls = backed.calls ∧ bare.deadlines = backed.deadlines) ∧
    (∀ {S : Simulation}, S.Reachable chance → x.policy ∈ S.policies →
      x.Fits S.policies ∧ ∃ own cues, x.Owns own cues ∧ (∀ cue ∈ cues, cue.Known S.policies) ∧
        Conduct.plain.play chance cues = S.stage) ∧
    (∀ id op, x.policy.call id op =
        Operation.withFallback (x.site id) x.value (x.policy.bare.call id op) ∧
      ∀ f, (∀ t w, ((x.policy.call id op).start t w).1 ≠ .done (.error f)) ∧
        ∀ s w, ((x.policy.call id op).resume s w).1 ≠ .done (.error f)) ∧
    (∀ {K : List Policy} {c : Call}, (∀ p ∈ K, p.origin.key ≠ x.key) → scriptKnown K c.script →
      x.conduct.activity c = (x.strip c.policy).call c.id (c.script.operation c.id)) ∧
    ∀ key name d, Policy.build key name (d.filter (·.slot ≠ "fallback")) =
      ⟨(Policy.build key name d).outcome.map Policy.bare,
        (Policy.build key name d).records.map BuildRecord.bare⟩ := by
  refine ⟨fun {K own cues} hK hown hcues => ?_, fun {S} hS hx => ?_, fun id op => ?_,
    x.activity_eq, Policy.build_bare⟩
  · have hparallel : Stage.Parallel (x.link K own) (Conduct.plain.play chance cues)
        (x.conduct.play chance cues) :=
      (x.imitates hK hown.nested).play fun cue hcue => ⟨hcues cue hcue, hown.outside cue hcue⟩
    have hcovers : x.Covers K own _ _ := hparallel.world
    exact ⟨hcovers, hcovers.hides, hparallel.waits⟩
  · obtain ⟨cues, hcues, hplay, hlists⟩ := hS.played_once (List.Subset.refl _)
    obtain ⟨own, hown⟩ := hlists.owns x
    exact ⟨hS.fits hx, own, cues, hown, hcues, hplay⟩
  · have hcall := x.policy.call_eq_withFallback x.fallback id op
    refine ⟨hcall, fun f => ?_⟩
    rw [hcall]
    exact Operation.withFallback_total _ _ _ f

/-- A policy that lets one call in at a time, and has a value for the others. -/
def cushioned : Policy where
  origin := ⟨0, "p", .none⟩
  layers := [.fallback "d", .bulkhead 1]
  criticality := .critical
  dependencies := []
  ordered := List.pairwise_pair.mpr (by decide)
  faultless l hl := by
    rcases List.mem_pair.mp hl with rfl | rfl <;> decide

/-- Its fallback. -/
def cushion : Backed := ⟨cushioned, "d", List.mem_cons_self, rfl⟩

/-- A call that will find no place. -/
def latecomer : Call := ⟨.top "b" 0, cushioned, [[.hang]], .named "t"⟩

/-- One call is let in, calls the policy again and hangs, and a second one is turned away. -/
def crowd : List Cue :=
  [.build cushioned,
   .start ⟨.top "a" 0, cushioned, [[.call cushioned [[.give (.ok "v")]], .hang]], .named "t"⟩,
   .start latecomer]

/-- Its calls from outside. -/
def ofCrowd (id : CallId) : Bool := [CallId.top "a" 0, .top "b" 0].contains id

/-- A simulation that has built the policy. -/
def cushionedRun : Simulation :=
  ((Simulation.start fun _ => 0).build "p" [.fallback "d", .bulkhead 1]).2

/-- The second call fails without the fallback, and makes do with the value when there is one.
The call in the first one is turned away as well. -/
theorem fallback_is_invisible_crowded :
    cushion.Fits [cushioned] ∧ cushion.Owns ofCrowd crowd ∧
    (∀ cue ∈ crowd, cue.Known [cushioned]) ∧
    let backed := Conduct.plain.play .plain crowd
    let bare := cushion.conduct.play .plain crowd
    bare.calls = backed.calls ∧ backed.calls.map (·.id) = [.top "a" 0] ∧
    (bare.world.gates 0).occupied = 1 ∧ (backed.world.gates 0).occupied = 1 ∧
    bare.world.trace.filterMap latecomer.id.failure? = [(0, .bulkheadFull)] ∧
    backed.world.trace.filterMap (cushion.fallback? latecomer.id) = [(0, .bulkheadFull)] ∧
    backed.world.trace.filterMap latecomer.id.failure? = [] ∧
    cushion.conduct.activity latecomer =
      cushioned.bare.call latecomer.id (latecomer.script.operation latecomer.id) ∧
    cushionedRun.Reachable .plain ∧ cushion.Fits cushionedRun.policies ∧
    ∃ own cues, cushion.Owns own cues ∧ (∀ cue ∈ cues, cue.Known cushionedRun.policies) ∧
      Conduct.plain.play .plain cues = cushionedRun.stage := by
  have hfits : cushion.Fits [cushioned] := fun p hp _ => List.mem_singleton.mp hp
  have howns : cushion.Owns ofCrowd crowd := by
    refine ⟨fun _ _ _ _ => rfl, fun cue hcue c hcall => ?_⟩
    simp only [crowd, List.mem_cons, List.not_mem_nil, or_false] at hcue
    rcases hcue with rfl | rfl | rfl <;> cases hcall
    · exact ⟨fun _ => rfl, fun _ => rfl⟩
    · exact ⟨fun _ => rfl, fun _ => rfl⟩
  have hcues : ∀ cue ∈ crowd, cue.Known [cushioned] := by
    simp [crowd, latecomer, Cue.Known, scriptKnown, actionsKnown, Action.Known]
  obtain ⟨hplay, hplayed, -, hactivity, -⟩ := fallback_is_invisible cushion .plain
  obtain ⟨hcovers, hhides, hcalls, -⟩ := hplay hfits howns hcues
  have hslot : ((Conduct.plain.play .plain crowd).world.gates 0).occupied = 1 := rfl
  have hfailed : (cushion.conduct.play .plain crowd).world.trace.filterMap
      latecomer.id.failure? = [(0, .bulkheadFull)] := by decide +kernel
  have hscript : scriptKnown [] latecomer.script := by
    simp [latecomer, scriptKnown, actionsKnown, Action.Known]
  have hrun : cushionedRun.Reachable .plain := .single (.build _ _ _)
  have hpolicies : cushionedRun.policies = [cushioned] := rfl
  have hbuilt := hplayed hrun (hpolicies ▸ List.mem_singleton_self cushioned)
  refine ⟨hfits, howns, hcues, hcalls, rfl, ?_, hslot, hfailed, ?_, hhides.total rfl,
    hactivity (fun _ hp => absurd hp List.not_mem_nil) hscript, hrun, hbuilt⟩
  · rw [← hslot]
    exact congrArg Gates.occupied (hcovers.gates cushioned (List.mem_singleton_self _))
  · exact (hhides.told rfl).trans hfailed

end CallPolicy
