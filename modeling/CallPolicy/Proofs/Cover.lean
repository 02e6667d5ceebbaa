/-
Runs with and without a fallback.

A fallback is used when everything below it has ended, and what it does then is nothing but
to tell of it. If calls are made of the bare policy instead, all else is therefore the same
at the same time. Operations may call the policy as well. With the bare policy, they have to
make do with the value themselves (`Backed.call`).

`Backed.Covers` relates a world to the one without the fallback. They are in the same state,
and of what is recorded only the ends of calls of the policy differ: where one fails without
the fallback, it makes do with the value, and tells of the failure just before that.

* **`Backed.mirrorNested`**, **`Backed.twin`** — a call of the policy, by an operation or from
  outside;
* **`Backed.imitates`** — calls and policies, without the fallback of one policy.
-/
import CallPolicy.Proofs.Bare
import CallPolicy.Proofs.Staging

namespace CallPolicy

/-- An operation that makes do with a value where another one fails. -/
def Operation.orElse (value : String) (op : Operation) : Operation :=
  op.after fun r w =>
    match r with
    | .ok v => (.ok v, w)
    | .error _ => (.ok value, w)

/-- Two worlds are in the same state, whatever has been recorded in them. -/
structure World.SameState (K : List Policy) (w w' : World) : Prop where
  now : w'.now = w.now
  cancelled : w'.cancelled = w.cancelled
  minted : w'.minted = w.minted
  invoked : w'.invoked = w.invoked
  gates : ∀ p ∈ K, w'.gates p.origin.key = w.gates p.origin.key
  chance : w'.chance = w.chance
  drawn : w'.drawn = w.drawn

/-- Worlds are in the same state iff everything has been done where it was done before. -/
theorem World.sameState_iff {K : List Policy} {w w' : World} :
    w.SameState K w' ↔ (Routing.stay (K.map Policy.origin)).Alike w w' := by
  constructor
  · intro h
    have hgates : ∀ {α : Type} (k : LayerKind) (part : Gates → α),
        (Routing.stay (K.map Policy.origin)).Finds k part w.gates w'.gates := by
      intro α k part o ho
      obtain ⟨p, hp, rfl⟩ := List.mem_map.mp ho
      exact congrArg part (h.gates p hp)
    exact
      { h with
        trace := rfl
        breaker := hgates _ _
        bucket := hgates _ _
        occupied := hgates _ _ }
  · intro h
    refine { h with gates := fun p hp => ?_ }
    have ho : p.origin ∈ K.map Policy.origin := List.mem_map_of_mem hp
    have hbreaker : (w'.gates p.origin.key).breaker = (w.gates p.origin.key).breaker :=
      h.breaker p.origin ho
    have hbucket : (w'.gates p.origin.key).bucket = (w.gates p.origin.key).bucket :=
      h.bucket p.origin ho
    have hoccupied : (w'.gates p.origin.key).occupied = (w.gates p.origin.key).occupied :=
      h.occupied p.origin ho
    show Gates.mk _ _ _ = Gates.mk _ _ _
    rw [hbreaker, hbucket, hoccupied]

/-- A policy with a fallback that cancels no token when it is used. -/
structure Backed where
  policy : Policy
  value : String
  fallback : .fallback value ∈ policy.layers
  quiet : policy.origin.hooks.cancelled? .fallbackUsed = none

namespace Backed

variable (x : Backed) {K : List Policy} {own : CallId → Bool} {p : Policy} {w w' : World}

/-- Tells the policy apart from others. -/
def key : Nat := x.policy.origin.key

/-- Where the fallback of a call is told of. -/
def site (id : CallId) : Site := ⟨x.policy.origin, id⟩

/-- Takes the fallback away from the policy, and leaves others as they are. -/
def strip (p : Policy) : Policy := if p.origin.key = x.key then p.bare else p

/-- Calls the bare policy instead of the policy, and makes do with the value if that fails. -/
def call : Carrier := fun p id op =>
  if p.origin.key = x.key then .orElse x.value (p.bare.call id op) else p.call id op

/-- Policies and calls as they are, but for the fallback of the policy. -/
def conduct : Conduct where
  install p := (x.strip p).install
  activity c := (x.strip c.policy).call c.id (c.script.operationBy x.call c.id)

/-- The policy is told apart from other policies by its key. -/
def Fits (K : List Policy) : Prop := ∀ p ∈ K, p.origin.key = x.key → p = x.policy

/-- If the cue starts a call, it is one of the policy iff it counts as such. -/
def Marks (own : CallId → Bool) (cue : Cue) : Prop :=
  ∀ c, cue.call? = some c → (own c.id = true ↔ c.policy.origin.key = x.key)

/-- Of the calls that cues start, those of the policy count as its own. No other calls do. -/
structure Owns (own : CallId → Bool) (cues : List Cue) : Prop where
  nested : ∀ parent k position name, own (.nested parent k position name) = false
  outside : ∀ cue ∈ cues, x.Marks own cue

/-! ### What differs in the traces -/

/-- A use of the fallback. -/
def Falls (e : Entry) : Prop :=
  ∃ site f, e.record = .event site (.fellBack f) ∧ site.origin.key = x.key

/-- Is it anything but a use of the fallback in a call that an operation makes? -/
def heard (own : CallId → Bool) (e : Entry) : Bool :=
  match e.record with
  | .event site (.fellBack _) => site.origin.key ≠ x.key || own site.call
  | _ => true

/-- What becomes of an entry when there is a fallback. A call of the policy that failed makes
do with the value, and before that it tells of the failure. -/
def mend (own : CallId → Bool) (e : Entry) : List Entry :=
  match e.record with
  | .settled id (.returned (.error f)) cancelled =>
    if own id then
      [⟨e.time, .settled id (.returned (.ok x.value)) cancelled⟩,
        ⟨e.time, .event (x.site id) (.fellBack f)⟩]
    else [e]
  | _ => [e]

/-- In the second world, everything has been done without the fallback. -/
structure Covers (K : List Policy) (own : CallId → Bool) (w w' : World) : Prop
    extends World.SameState K w w' where
  trace : w.trace.filter (x.heard own) = w'.trace.flatMap (x.mend own)
  unused : ∀ e ∈ w'.trace, ¬ x.Falls e

/-- The hook of the fallback cancels no token. -/
theorem emit_fellBack (w : World) (id : CallId) (f : Failure) :
    w.emit (x.site id) (.fellBack f) = w.note (.event (x.site id) (.fellBack f)) := by
  have hquiet : (Event.fellBack f).hook?.bind (x.site id).origin.hooks.cancelled? = none := x.quiet
  unfold World.emit
  rw [hquiet]

variable {x} {c : Call}

namespace Covers

/-- More is recorded in both worlds. -/
theorem append (h : x.Covers K own w w') (es es' : List Entry)
    (hes : es.filter (x.heard own) = es'.flatMap (x.mend own)) (hunused : ∀ e ∈ es', ¬ x.Falls e) :
    x.Covers K own { w with trace := es ++ w.trace } { w' with trace := es' ++ w'.trace } where
  toSameState := { h.toSameState with }
  trace := by
    show (es ++ w.trace).filter _ = (es' ++ w'.trace).flatMap _
    rw [List.filter_append, hes, h.trace, List.flatMap_append]
  unused e he := (List.mem_append.mp he).elim (hunused e) (h.unused e)

/-- What is recorded in the course of a call is the same. -/
theorem note (h : x.Covers K own w w') {r : Record} (hr : r.Told (·.origin.key ≠ x.key)) :
    x.Covers K own (w.note r) (w'.note r) := by
  have hes : [(⟨w.now, r⟩ : Entry)].filter (x.heard own) =
      [(⟨w'.now, r⟩ : Entry)].flatMap (x.mend own) := by
    rw [h.now]
    cases r with
    | settled => exact hr.elim
    | event site e =>
      cases e with
      | fellBack f =>
        have hheard : x.heard own ⟨w.now, .event site (.fellBack f)⟩ = true :=
          Bool.or_eq_true_iff.mpr (.inl (decide_eq_true hr))
        rw [List.filter_cons_of_pos hheard]
        rfl
      | _ => rfl
    | _ => rfl
  refine h.append [⟨w.now, r⟩] [⟨w'.now, r⟩] hes fun e he => ?_
  obtain rfl := List.mem_singleton.mp he
  rintro ⟨site, f, rfl, hkey⟩
  exact hr hkey

/-- A use of the fallback in a call that an operation makes. -/
theorem fallBack (h : x.Covers K own w w') {id : CallId} (hid : own id = false) (f : Failure) :
    x.Covers K own (w.emit (x.site id) (.fellBack f)) w' := by
  have hes : [(⟨w.now, .event (x.site id) (.fellBack f)⟩ : Entry)].filter (x.heard own) = [] := by
    simp [heard, site, key, hid]
  rw [x.emit_fellBack]
  exact h.append [⟨w.now, .event (x.site id) (.fellBack f)⟩] [] hes nofun

end Covers

/-- Everything but ends of calls is the same, and fallbacks of other policies are. -/
def link (x : Backed) (K : List Policy) (own : CallId → Bool) : Link where
  toRouting := .stay (K.map Policy.origin)
  Backs site := site.origin.key ≠ x.key
  Carries := x.Covers K own
  alike h := World.sameState_iff.mp h.toSameState
  silent h hv htrace htrace' :=
    { toSameState := World.sameState_iff.mpr hv
      trace := by rw [htrace, htrace', h.trace]
      unused := htrace' ▸ h.unused }
  note h hr := by
    rw [Routing.record_stay]
    exact h.note hr

namespace Covers

/-- A call has ended in the same way, and not with a failure if it is one of the policy. -/
theorem settleCall (h : x.Covers K own w w') {e : Ending}
    (he : own c.id = true → ∀ f, e ≠ .returned (.error f)) :
    x.Covers K own (w.settleCall c e) (w'.settleCall c e) := by
  have hes : ∀ cs, [(⟨w.now, .settled c.id e cs⟩ : Entry)].filter (x.heard own) =
      [(⟨w'.now, .settled c.id e cs⟩ : Entry)].flatMap (x.mend own) := by
    intro cs
    rw [h.now]
    cases e with
    | panicked t => rfl
    | returned r =>
      cases r with
      | ok v => rfl
      | error f =>
        have hother : ¬ own c.id = true := fun hown => he hown f rfl
        show _ = (if own c.id = true then _ else _) ++ []
        rw [if_neg hother]
        rfl
  have hlink : (x.link K own).Carries w w' := h
  rw [World.settleCall, World.settleCall, hlink.invocations]
  refine h.append [⟨w.now, _⟩] [⟨w'.now, _⟩] (hes _) fun e he => ?_
  obtain rfl := List.mem_singleton.mp he
  rintro ⟨site, f, hrecord, -⟩
  cases hrecord

/-- A call of the policy makes do with the value where the other one has failed. -/
theorem settleCall_error (h : x.Covers K own w w') (hown : own c.id = true) (f : Failure) :
    x.Covers K own
      ((w.emit (x.site c.id) (.fellBack f)).settleCall c (.returned (.ok x.value)))
      (w'.settleCall c (.returned (.error f))) := by
  have hes : ∀ cs,
      [⟨w.now, .settled c.id (.returned (.ok x.value)) cs⟩,
        (⟨w.now, .event (x.site c.id) (.fellBack f)⟩ : Entry)].filter (x.heard own) =
      [(⟨w'.now, .settled c.id (.returned (.error f)) cs⟩ : Entry)].flatMap (x.mend own) := by
    intro cs
    simp [heard, mend, site, hown, h.now]
  have hlink : (x.link K own).Carries w w' := h
  rw [x.emit_fellBack, World.settleCall, World.settleCall, hlink.invocations]
  refine h.append [⟨w.now, _⟩, ⟨w.now, _⟩] [⟨w'.now, _⟩] (hes _) fun e he => ?_
  obtain rfl := List.mem_singleton.mp he
  rintro ⟨site, f, hrecord, -⟩
  cases hrecord

end Covers

/-! ### Calls -/

variable (x)

theorem strip_origin (p : Policy) : (x.strip p).origin = p.origin := by
  unfold strip
  split <;> rfl

/-- A stripped policy has no fallback that the policy had. -/
theorem backs_strip {l : Layer} (hl : l ∈ (x.strip p).layers) (hkind : l.kind = .fallback)
    (id : CallId) : (x.link K own).Backs ⟨(x.strip p).origin, id⟩ := by
  intro hkey
  rw [strip_origin] at hkey
  have hstrip : x.strip p = p.bare := if_pos hkey
  rw [hstrip] at hl
  exact of_decide_eq_true (List.mem_filter.mp hl).2 hkind

/-- A call through a stripped policy is mirrored by itself. -/
def mirrorStrip (hp : p ∈ K) (id : CallId) {op op' : Operation}
    (m : Activity.Mirror (x.link K own) op op') :
    Activity.Mirror (x.link K own) ((x.strip p).call id op) ((x.strip p).call id op') :=
  have hsite : (x.strip p).origin ∈ (x.link K own).origins :=
    x.strip_origin p ▸ List.mem_map_of_mem hp
  m.stack hsite (x.strip p).layers (fun _ hl hkind => x.backs_strip hl hkind id) fun _ _ => rfl

/-- A policy is called with its fallback around the bare one. -/
theorem call_eq (hK : x.Fits K) (hp : p ∈ K) (hkey : p.origin.key = x.key) (id : CallId)
    (op : Operation) :
    p.call id op = .withFallback (x.site id) x.value ((x.strip p).call id op) := by
  have hstrip : x.strip p = p.bare := if_pos hkey
  obtain rfl := hK p hp hkey
  rw [hstrip, x.policy.call_eq_withFallback x.fallback]
  rfl

/-- An operation that does not call the policy is the same without the fallback. -/
theorem activity_eq (hK : ∀ p ∈ K, p.origin.key ≠ x.key) (hs : scriptKnown K c.script) :
    x.conduct.activity c = (x.strip c.policy).call c.id (c.script.operation c.id) := by
  have hcarry : ∀ p ∈ K, x.call p = p.call := fun p hp => by
    funext id op
    exact if_neg (hK p hp)
  exact congrArg ((x.strip c.policy).call c.id) (Script.operationBy_eq hcarry hs c.id)

/-- What an operation calls is mirrored by the bare policy, with which it makes do. -/
def mirrorNested (hK : x.Fits K) (hp : p ∈ K) {id : CallId} (hid : own id = false)
    {op op' : Operation} (m : Activity.Mirror (x.link K own) op op') :
    Activity.Mirror (x.link K own) (p.call id op) (x.call p id op') :=
  if hkey : p.origin.key = x.key then
    have hmend : Activity.Mirror (x.link K own)
        (Operation.withFallback (x.site id) x.value ((x.strip p).call id op))
        (Operation.orElse x.value ((x.strip p).call id op')) :=
      (x.mirrorStrip hp id m).after fun r w w' h => by
        cases r with
        | ok v => exact ⟨_, _, _, rfl, rfl, h⟩
        | error f => exact ⟨_, _, _, rfl, rfl, h.fallBack hid f⟩
    have hstrip : x.strip p = p.bare := if_pos hkey
    have hcall : x.call p id op' = .orElse x.value ((x.strip p).call id op') := by
      rw [call, if_pos hkey, hstrip]
    hcall ▸ x.call_eq hK hp hkey id op ▸ hmend
  else
    have hstrip : x.strip p = p := if_neg hkey
    have hcall : x.call p id op' = p.call id op' := if_neg hkey
    have hsame := x.mirrorStrip hp id m
    hcall ▸ hstrip ▸ hsame

/-- Where the bare policy fails, the policy makes do with the value. -/
theorem concurs_follow (hown : own c.id = true) {g : Result → World → Result × World}
    (hok : ∀ v w, g (.ok v) w = (.ok v, w))
    (herror : ∀ f w, g (.error f) w = (.ok x.value, w.emit (x.site c.id) (.fellBack f)))
    {a : Operation} {κ : Type} {state : a.State → κ} {out : Status a.State Result × World}
    {out' : Status κ Result × World} (h : (x.link K own).Mirrors state out out') :
    (x.link K own).Concurs c state (Activity.after.follow g a out) out' := by
  cases h with
  | pending h => exact .pending h
  | panicked h => exact .panicked (Covers.settleCall h fun _ _ he => by cases he)
  | @done r w w' h =>
    cases r with
    | ok v =>
      simp only [Activity.after.follow, hok]
      exact .done (Covers.settleCall h fun _ _ he => by cases he)
    | error f =>
      simp only [Activity.after.follow, herror]
      exact .done (Covers.settleCall_error h hown f)

/-- A call of the policy is carried out by the bare one, up to its end. -/
def twin (hown : own c.id = true) {a a' : Operation}
    (m : Activity.Mirror (x.link K own) a a') :
    c.Twin (x.link K own) (Operation.withFallback (x.site c.id) x.value a) a' where
  state := m.state
  start h := by
    refine x.concurs_follow hown ?_ ?_ (m.start c.token h) <;> exact fun _ _ => rfl
  resume s _ _ h := by
    refine x.concurs_follow hown ?_ ?_ (m.resume s h) <;> exact fun _ _ => rfl
  release s _ _ h := m.releaseAll s h
  deadlines := m.deadlines

/-- A policy gets the same gates without its fallback. -/
theorem covers_install (h : x.Covers K own w w') (p : Policy) :
    x.Covers K own (p.install w) ((x.strip p).install w') := by
  have hinstall : (x.strip p).install w' = p.install w' := by
    unfold strip
    split
    · exact p.install_bare w'
    · rfl
  rw [hinstall]
  refine { h with gates := fun q hq => ?_ }
  rw [Policy.install, Policy.install, World.modifyGates_gates, World.modifyGates_gates, h.now]
  by_cases hqp : q.origin.key = p.origin.key
  · rw [hqp, assign_self, assign_self]
  · rw [assign_of_ne hqp, assign_of_ne hqp, h.gates q hq]

/-- **Without the fallback**, calls and policies are what they are with it, up to their ends. -/
theorem imitates (hK : x.Fits K)
    (hnested : ∀ parent k position name, own (.nested parent k position name) = false) :
    Conduct.plain.Imitates (x.link K own) (fun cue => cue.Known K ∧ x.Marks own cue) x.conduct where
  begin _ := ⟨⟨rfl, rfl, rfl, rfl, fun _ _ => rfl, rfl, rfl⟩, rfl, nofun⟩
  install {p} _ _ _ h := x.covers_install h p
  activity {c} hc := by
    obtain ⟨⟨hp, hs⟩, hmarks⟩ := hc
    have hcarry : (x.link K own).CarriedBy K x.call := fun _ hp parent k position _ _ m =>
      x.mirrorNested hK hp (hnested parent k position _) m
    have m := x.mirrorStrip hp c.id (.script hcarry c.id hs)
    by_cases hkey : c.policy.origin.key = x.key
    · have htwin := x.twin ((hmarks c rfl).mpr hkey) m
      rw [← x.call_eq hK hp hkey] at htwin
      exact ⟨htwin⟩
    · have hstrip : x.strip c.policy = c.policy := if_neg hkey
      have hcall : (x.strip c.policy).call c.id (c.script.operation c.id) =
          Conduct.plain.activity c := by
        rw [hstrip]
        rfl
      have htwin : c.Twin (x.link K own) _ _ := m.twin fun e _ _ h =>
        Covers.settleCall h fun hown => absurd ((hmarks c rfl).mp hown) hkey
      rw [hcall] at htwin
      exact ⟨htwin⟩

end Backed

end CallPolicy
