/-
Calls that are turned away.

A call asks the gates of its policy one after the other, and the operation is invoked
as soon as all of them have let it pass. So a call whose operation is never invoked was
turned away by one of them, when it was started, and nothing is left of it (`Turned`):
the breaker that let it pass has its permit back, and the token that it took from the
rate limit is all that it cost.

* **`Guarded.stack`** — the first poll invokes the operation, or the call is turned away;
* **`rejections_are_clean`** — so it is with every call, all its life.
-/
import CallPolicy.Proofs.Bulkhead
import CallPolicy.Proofs.Lives
import CallPolicy.Proofs.OpenWindow

namespace CallPolicy

open Operation

variable {w w' w₁ w₂ w₀ : World} {t u : Token} {id : CallId} {m : CallId → Nat} {site : Site}
  {kinds : List LayerKind} {op : Operation} {gate : LayerKind} {layers : List Layer}
  {keeps : (CallId → Nat) → Token → op.State → World → Prop} {σ : Scope} {timely : Prop}

/-! ### Operations that are invoked -/

/-- The operation of the call is invoked whenever this one starts. -/
def Operation.Invokes (op : Operation) (id : CallId) : Prop :=
  ∀ ⦃t w⦄, w.Ready w.minted t → (w.invoked id).length < ((op.start t w).2.invoked id).length

theorem World.Confined.length_invoked (h : w.Confined σ m w') (id : CallId) :
    (w.invoked id).length ≤ (w'.invoked id).length := by
  obtain ⟨us, heq, -⟩ := h.invoked id
  rw [heq, List.length_append]
  exact Nat.le_add_left _ _

@[simp] theorem Activity.invocation.conclude_invoked (call : CallId) (k : Nat)
    (body : Activity Visit Ending) (t : Token) (out : Status body.State Ending × World) :
    (invocation.conclude call k body t out).2.invoked = out.2.invoked := by
  rcases out with ⟨_ | (_ | _) | _, w⟩ <;> rfl

@[simp] theorem Activity.after.follow_snd_of_pure {ο ο' : Type} {ι : Type} (a : Activity ι ο)
    (f : ο → ο') (out : Status a.State ο × World) :
    (after.follow (fun o w => (f o, w)) a out).2 = out.2 := by
  rcases out with ⟨_ | _ | _, w⟩ <;> rfl

@[simp] theorem Activity.within.check_invoked {ο : Type} (a : Activity Token ο) (t : Token)
    (deadline : Nat) (out : Status a.State ο × World) :
    (within.check a t deadline out).2.invoked = out.2.invoked := by
  rcases out with ⟨_ | _ | _, w⟩
  · unfold within.check
    dsimp only
    split
    · exact w.releaseAll_invoked _
    · rfl
  · rfl
  · rfl

namespace Operation.Invokes

/-- A scripted operation is invoked. -/
theorem script (script : Script) (id : CallId) : Invokes (script.operation id) id := by
  intro t w hw
  obtain ⟨keeps, hbody⟩ := scriptBody_docile id (w.invoked id).length (w.invoked id).length script
  let w₁ := w.invoke id (w.invoked id).length t
  have hinvoked : w.Confined (.ofCall id [] t) w.minted w₁ :=
    .invoke w (.refl id t) fun _ => Scope.records_ofCall rfl nofun
  have hready := hinvoked.ready hw
  have hstart := hbody.start_after (i := ⟨t, .ok ""⟩) hready (.refl _ _ _)
  have hgrown : (w₁.invoked id).length = (w.invoked id).length + 1 := by
    rw [World.invoke_invoked, assign_self, List.length_cons]
  have hrest : ((script.operation id).start t w).2.invoked =
      ((scriptBody id (w.invoked id).length (w.invoked id).length script).start
        ⟨t, .ok ""⟩ w₁).2.invoked :=
    (congrArg World.invoked (Status.lift_snd _ _)).trans
      (Activity.invocation.conclude_invoked _ _ _ _ _)
  rw [hrest]
  have hle := hstart.confined.length_invoked id
  omega

/-- A new child token is as good. -/
theorem start_child (h : op.Invokes id) (hw : w.Ready w.minted t) :
    (w.invoked id).length <
      ((op.start (w.mint id t).1 (w.mint id t).2).2.invoked id).length :=
  h (hw.child id)

theorem attempt (r : RetrySettings) (h : op.Invokes site.call) {t : Token} {w : World}
    (hw : w.Ready w.minted t) :
    (w.invoked site.call).length <
      (((attempt site r op).start t w).2.invoked site.call).length := by
  obtain ⟨maxAttempts, backoff, maxDelay, attemptTimeout, retryIf⟩ := r
  cases attemptTimeout with
  | none =>
    show _ < ((Activity.after.follow (fun r w => (some r, w)) op (op.start t w)).2.invoked
      site.call).length
    rw [Activity.after.follow_snd_of_pure]
    exact h hw
  | some length =>
    show _ < ((Activity.within.check op _ _ _).2.invoked site.call).length
    rw [Activity.within.check_invoked]
    exact h.start_child hw

theorem withRetry (r : RetrySettings) (hd : op.Attends site.call kinds keeps)
    (h : op.Invokes site.call) : (withRetry site r op).Invokes site.call := by
  intro t w hw
  have hmore : op.Attends site.call (.retry :: kinds) keeps := hd.attends_mono (List.subset_cons_self _ _)
  have hstart := (hmore.attempt r).start hw
  have hrest := hmore.proceed r List.mem_cons_self t (r.maxAttempts.toNat - 1)
    ((Operation.attempt site r op).start t w) (hstart.confined.ready hw) ⟨.refl _ _ _, hstart.lands⟩
  exact Nat.lt_of_lt_of_le (attempt r h hw) (hrest.confined.length_invoked site.call)

theorem withHedge (delay : Duration) (hd : op.Attends site.call kinds keeps)
    (h : op.Invokes site.call) : (withHedge site delay op).Invokes site.call := by
  intro t w hw
  have hmore : op.Attends site.call (.hedge :: kinds) keeps := hd.attends_mono (List.subset_cons_self _ _)
  let w₁ := (w.mint site.call t).2
  let u := (w.mint site.call t).1
  have hminted : w.Confined (.ofCall site.call (.hedge :: kinds) t) w.minted w₁ :=
    .mint w site.call t
  have hready := hminted.ready hw
  have hfosters : w₁.Fosters site.call w.minted t u := .mint hw
  have hstart := hmore.start_child hready hfosters
  have hrest : (op.start u w₁).2.Confined (.ofCall site.call (.hedge :: kinds) t) w.minted
      ((Operation.withHedge site delay op).start t w).2 :=
    (hmore.judgeFirst List.mem_cons_self (hstart.confined.ready hready)
      ⟨.refl _ _ _, hstart.lands⟩).confined
  exact Nat.lt_of_lt_of_le (h.start_child hw) (hrest.length_invoked site.call)

end Operation.Invokes

/-! ### Refusals in the trace -/

/-- The call that was turned away, and the gate. -/
def Record.refusal? : Record → Option (Site × LayerKind)
  | .event site .circuitRefused => some (site, .breaker)
  | .event site .rateLimited => some (site, .rateLimit)
  | .event site .bulkheadFull => some (site, .bulkhead)
  | _ => none

/-- Does the entry tell that the call was turned away? -/
def Entry.refuses (site : Site) (e : Entry) : Bool := e.record.refusal?.any (·.1 = site)

/-- The call is not turned away. -/
abbrev World.Quiet (site : Site) (w w' : World) : Prop :=
  w.Keeps (fun _ => ()) (Entry.refuses site) w'

theorem Entry.refuses_of_none {e : Entry} (h : e.record.refusal? = none) :
    e.refuses site = false := by
  rw [refuses, h]
  rfl

/-- A refusal is told by the gate. -/
theorem Record.of_refusal? {r : Record} (h : r.refusal? = some (site, gate)) :
    r.call = site.call ∧ r.teller? = some gate ∧
      (gate = .breaker ∨ gate = .rateLimit ∨ gate = .bulkhead) := by
  unfold refusal? at h
  split at h <;> cases h
  · exact ⟨rfl, rfl, .inl rfl⟩
  · exact ⟨rfl, rfl, .inr (.inl rfl)⟩
  · exact ⟨rfl, rfl, .inr (.inr rfl)⟩

theorem Entry.refuses_iff {e : Entry} :
    e.refuses site = true ↔ ∃ gate, e.record.refusal? = some (site, gate) := by
  unfold refuses
  cases e.record.refusal? with
  | none => simp
  | some x => simp [Prod.ext_iff]

theorem Record.refusal?_news (site : Site) (st : BreakerState) :
    (Record.event site st.news).refusal? = none := by
  cases st <;> rfl

/-- Giving something back turns nobody away. -/
theorem Record.refusal?_of_isReturn {r : Record} (h : r.isReturn = true) : r.refusal? = none := by
  unfold isReturn at h
  split at h
  case h_7 => cases h
  all_goals rfl

theorem Entry.refuses_of_isReturn {e : Entry} (h : e.record.isReturn = true) :
    e.refuses site = false := refuses_of_none (Record.refusal?_of_isReturn h)

namespace World.Quiet

/-- Layers that are no gates turn nobody away. -/
theorem of_confined (h : w.Confined (.ofCall site.call kinds t) m w')
    (hk : ∀ k ∈ kinds, LayerKind.retry.position ≤ k.position) : w.Quiet site w' := by
  obtain ⟨es, heq, hes⟩ := h.trace
  refine ⟨rfl, Nat.le_of_eq h.now.symm, es, heq, fun e he => ?_⟩
  by_contra hne
  obtain ⟨gate, hgate⟩ := Entry.refuses_iff.mp (by simpa using hne)
  obtain ⟨hcall, hteller, hcases⟩ := Record.of_refusal? hgate
  have hpos := hk gate ((hes e he).own hcall gate hteller)
  rcases hcases with rfl | rfl | rfl <;> exact absurd hpos (by decide)

end World.Quiet

/-! ### Turned away -/

/-- How a gate turns calls away. -/
def LayerKind.refusal? : LayerKind → Option Failure
  | .breaker => some .circuitOpen
  | .rateLimit => some .rateLimited
  | .bulkhead => some .bulkheadFull
  | _ => none

/-- The breaker after a call that was turned away behind it: half-open without probes if it
has been open for long enough, and as it was otherwise. -/
structure Breaker.Recovers (layers : List Layer) (now : Nat) (b b' : Breaker) : Prop where
  late : ∀ s, .breaker s ∈ layers → b.state = .open → s.recovery.nanos ≤ b.openFor now →
    b' = { b with state := .halfOpen, period := b.period + 1, admitted := 0, succeeded := 0 }
  early : (∀ s, .breaker s ∈ layers → b.state = .open → b.openFor now < s.recovery.nanos) → b' = b

/-- What becomes of the gates when one of the layers turns a call away. -/
structure Gates.Turned (layers : List Layer) (gate : LayerKind) (now : Nat) (g g' : Gates) :
    Prop where
  occupied : g'.occupied = g.occupied
  shut : gate = .breaker → g' = g
  recovers : gate ≠ .breaker → g.breaker.Recovers layers now g'.breaker
  unlimited : (∀ l, .rateLimit l ∉ layers) → g'.bucket = g.bucket
  limited : gate = .rateLimit → ∀ l, .rateLimit l ∈ layers → g'.bucket = g.bucket.refill l now
  spent : gate = .bulkhead → ∀ l, .rateLimit l ∈ layers →
    let full := g.bucket.refill l now
    g'.bucket = { full with balance := full.balance - (1 : UInt32).toFloat }

namespace World

/-- Who was turned away, the last first, and how many tokens the rate limit gave to the
call. No circuit has opened or closed. -/
def Tells (site : Site) (refusals : List (Site × LayerKind)) (taken : Nat) (w w' : World) : Prop :=
  ∃ es, w'.trace = es ++ w.trace ∧ es.filterMap (·.record.refusal?) = refusals ∧
    es.countP (·.record = .gate site .tokenTaken) = taken ∧
    ∀ e ∈ es, ∀ σ, e.record ≠ .event σ .circuitOpened ∧ e.record ≠ .event σ .circuitClosed

/-- One of the layers has turned the call away, which returns `r`. -/
structure Turned (site : Site) (layers : List Layer) (gate : LayerKind) (w : World) (r : Result)
    (w' : World) : Prop where
  isGate : gate ∈ layers.map Layer.kind
  refused : (∀ v, .fallback v ∉ layers) → ∃ f, gate.refusal? = some f ∧ r = .error f
  replaced : ∀ v, .fallback v ∈ layers → r = .ok v
  now : w'.now = w.now
  invoked : w'.invoked = w.invoked
  elsewhere : ∀ key, key ≠ site.origin.key → w'.gates key = w.gates key
  gates : (w.gatesOf site).Turned layers gate w.now (w'.gatesOf site)
  tells : w.Tells site [(site, gate)]
    (if gate = .bulkhead then (layers.map Layer.kind).count .rateLimit else 0) w'

namespace Tells

theorem silent (h : w'.trace = w.trace) : w.Tells site [] 0 w' := ⟨[], h, rfl, rfl, nofun⟩

theorem trans {gs gs' : List (Site × LayerKind)} {n n' : Nat} (h : w.Tells site gs n w₁)
    (h' : w₁.Tells site gs' n' w₂) : w.Tells site (gs' ++ gs) (n' + n) w₂ := by
  obtain ⟨es, htr, hgs, hn, hes⟩ := h
  obtain ⟨es', htr', hgs', hn', hes'⟩ := h'
  refine ⟨es' ++ es, ?_, ?_, ?_, fun e he => ?_⟩
  · rw [htr', htr, List.append_assoc]
  · rw [List.filterMap_append, hgs', hgs]
  · rw [List.countP_append, hn', hn]
  · exact (List.mem_append.mp he).elim (hes' e) (hes e)

theorem entry {r : Record} {gs : List (Site × LayerKind)} {n : Nat}
    (h : w'.trace = ⟨w.now, r⟩ :: w.trace) (hgs : r.refusal?.toList = gs)
    (hn : (if r = .gate site .tokenTaken then 1 else 0) = n)
    (hr : ∀ σ, r ≠ .event σ .circuitOpened ∧ r ≠ .event σ .circuitClosed) :
    w.Tells site gs n w' := by
  refine ⟨[⟨w.now, r⟩], h, ?_, ?_, fun e he => ?_⟩
  · cases hr : r.refusal? <;> simp [hr, ← hgs]
  · by_cases hr : r = .gate site .tokenTaken <;> simp [hr, ← hn]
  · rw [List.mem_singleton.mp he]
    exact hr

theorem setBreaker {b : Breaker}
    (h : b.state = (w.gatesOf site).breaker.state ∨ b.state = .halfOpen) :
    w.Tells site [] 0 (w.setBreaker site b) := by
  have htr := w.setBreaker_trace site b
  by_cases hsame : b.state = (w.gatesOf site).breaker.state
  · rw [if_pos hsame] at htr
    exact silent htr
  · rw [if_neg hsame] at htr
    rw [(h.resolve_left hsame)] at htr
    exact entry htr rfl (if_neg nofun) fun σ => ⟨nofun, nofun⟩

/-- A call that is let in by the breaker may make it half-open. -/
theorem acquired {s : BreakerSettings} {p : Permit} (h : acquirePermit site s w = (.ok p, w')) :
    w.Tells site [] 0 w' := by
  obtain ⟨b, hi, rfl⟩ := acquirePermit_ok h
  have hstate := Breaker.issue_state s (w.arrival s site.origin.key)
  rw [hi] at hstate
  have hset : w.Tells site [] 0 (w.setBreaker site b) := by
    refine setBreaker ?_
    rw [show b.state = _ from hstate]
    rcases Breaker.recover_cases s w.now (w.gatesOf site).breaker with hr | ⟨-, -, hr⟩
    · exact .inl (congrArg Breaker.state hr)
    · exact .inr (congrArg Breaker.state hr)
  have hissued : (w.setBreaker site b).Tells site [] 0
      ((w.setBreaker site b).note (.gate site (.permitIssued p))) :=
    entry (World.note_trace _ _) rfl (if_neg nofun) fun σ => ⟨nofun, nofun⟩
  exact hset.trans hissued

end Tells

end World

namespace Breaker

variable {s : BreakerSettings} {b b' : Breaker} {p : Permit} {now : Nat}

/-- A permit that is handed back at once leaves nothing behind. -/
theorem record_ignored_of_issue (h : b.issue s = (some p, b')) (now : Nat) :
    b'.record s now p .ignored = b := by
  obtain ⟨hb, hk⟩ | ⟨-, hk⟩ | ⟨hb, hlt, hk⟩ | ⟨-, -, hk⟩ := issue_cases s b <;> rw [hk] at h <;>
    cases h
  · exact record_ignored_of_ne_halfOpen (by rw [hb]; nofun)
  · have hsum := toNat_succ_of_lt (UInt32.lt_iff_toNat_lt.mp hlt)
    have hpred : saturatingPred (b.admitted + 1) = b.admitted := by
      rw [← UInt32.toNat_inj, toNat_saturatingPred, hsum, Nat.add_sub_cancel]
    exact (record_halfOpen_ignored (b := { b with admitted := b.admitted + 1 }) rfl hb).trans
      (congrArg (fun admitted => { b with admitted }) hpred)

/-- A breaker that has just gone half-open refuses nobody. -/
theorem recover_of_issue_none (hs : 0 < s.probes.toNat)
    (h : (b.recover s now).issue s = (none, b')) : b.recover s now = b := by
  rcases recover_cases s now b with hr | ⟨-, -, hr⟩
  · exact hr
  · rw [hr] at h
    rcases issue_cases s (b.moveTo .halfOpen now) with ⟨-, hk⟩ | ⟨hb, -⟩ | ⟨-, -, hk⟩ | ⟨-, hle, -⟩
    · cases hk.symm.trans h
    · cases hb
    · cases hk.symm.trans h
    · exact absurd hs (Nat.not_lt.mpr (UInt32.le_iff_toNat_le.mp hle))

theorem recovers_of_not_mem {layers : List Layer} (h : ∀ s, .breaker s ∉ layers) :
    b.Recovers layers now b := ⟨fun s hs => absurd hs (h s), fun _ => rfl⟩

theorem recovers_cons {layers : List Layer} (h : ∀ s, .breaker s ∉ layers) :
    b.Recovers (.breaker s :: layers) now (b.recover s now) := by
  refine ⟨fun s' hs' hopen hlate => ?_, fun hearly => ?_⟩
  · rcases List.mem_cons.mp hs' with heq | hs'
    · cases heq
      exact recover_of_open hopen hlate
    · exact absurd hs' (h s')
  · rcases recover_cases s now b with hr | ⟨hopen, hlate, -⟩
    · exact hr
    · exact absurd hlate (Nat.not_le.mpr (hearly s List.mem_cons_self hopen))

end Breaker

/-- Outer layers are not found further inside. -/
theorem Layer.not_mem_of_below {k : LayerKind} {l : Layer}
    (hbelow : ∀ l ∈ layers, k.position < l.kind.position) (hl : l.kind.position ≤ k.position) :
    l ∉ layers := fun hmem => absurd (hbelow l hmem) (Nat.not_lt.mpr hl)

theorem Layer.not_mem_cons {l l' : Layer}
    (hbelow : ∀ l ∈ layers, l'.kind.position < l.kind.position)
    (hl : l.kind.position < l'.kind.position) : l ∉ l' :: layers := by
  intro hmem
  rcases List.mem_cons.mp hmem with rfl | hmem
  · exact absurd hl (Nat.lt_irrefl _)
  · exact not_mem_of_below hbelow (Nat.le_of_lt hl) hmem

theorem Layer.count_rateLimit (h : ∀ l, .rateLimit l ∉ layers) :
    (layers.map Layer.kind).count .rateLimit = 0 := by
  refine List.count_eq_zero.mpr fun hmem => ?_
  obtain ⟨l, hl, hkind⟩ := List.mem_map.mp hmem
  cases l <;> cases hkind
  exact h _ hl

/-- A call that arrives at a bucket takes a token, or finds none; the bucket is brought up
to date anyway. -/
theorem Bucket.take_cases (l : RateLimit) (now : Nat) (b : Bucket) :
    b.take l now = (false, b.refill l now) ∨
      b.take l now = (true, { b.refill l now with
        balance := (b.refill l now).balance - (1 : UInt32).toFloat }) := by
  unfold take
  dsimp only
  split
  · exact .inr rfl
  · exact .inl rfl

theorem Operation.takeToken_false {l : RateLimit} (h : takeToken site l w = (false, w')) :
    w' = w.modifyGates site.origin.key fun g =>
      { g with bucket := (w.gatesOf site).bucket.refill l w.now } := by
  unfold takeToken at h
  rcases Bucket.take_cases l w.now (w.gatesOf site).bucket with htake | htake
  · rw [htake] at h
    exact (congrArg Prod.snd h).symm
  · rw [htake] at h
    cases congrArg Prod.fst h

theorem Operation.takeToken_true {l : RateLimit} (h : takeToken site l w = (true, w')) :
    let full := (w.gatesOf site).bucket.refill l w.now
    w' = w.modifyGates site.origin.key fun g =>
      { g with bucket := { full with balance := full.balance - (1 : UInt32).toFloat } } := by
  unfold takeToken at h
  rcases Bucket.take_cases l w.now (w.gatesOf site).bucket with htake | htake
  · rw [htake] at h
    cases congrArg Prod.fst h
  · rw [htake] at h
    exact (congrArg Prod.snd h).symm

namespace Gates.Turned

variable {g g' : Gates} {now : Nat} {l : Layer}

/-- Nothing is left behind where there is neither a breaker nor a rate limit. -/
theorem same (hbreaker : ∀ s, .breaker s ∉ layers) (hlimit : ∀ l, .rateLimit l ∉ layers) :
    g.Turned layers gate now g :=
  ⟨rfl, fun _ => rfl, fun _ => Breaker.recovers_of_not_mem hbreaker, fun _ => rfl,
    fun _ l hl => absurd hl (hlimit l), fun _ l hl => absurd hl (hlimit l)⟩

/-- Neither does it matter where other layers are. -/
theorem cons (h : g.Turned layers gate now g') (hl : l.kind ≠ .breaker)
    (hl' : l.kind ≠ .rateLimit) : g.Turned (l :: layers) gate now g' := by
  have hlimit : ∀ limit, .rateLimit limit ∈ l :: layers → .rateLimit limit ∈ layers := by
    intro limit hmem
    refine (List.mem_cons.mp hmem).resolve_left ?_
    rintro rfl
    exact hl' rfl
  refine ⟨h.occupied, h.shut, fun hgate => ⟨fun s hs => ?_, fun hall => ?_⟩, fun hnone => ?_,
    fun hgate limit hmem => h.limited hgate limit (hlimit limit hmem),
    fun hgate limit hmem => h.spent hgate limit (hlimit limit hmem)⟩
  · refine (h.recovers hgate).late s ((List.mem_cons.mp hs).resolve_left ?_)
    rintro rfl
    exact hl rfl
  · exact (h.recovers hgate).early fun s hs => hall s (List.mem_cons_of_mem _ hs)
  · exact h.unlimited fun limit hmem => hnone limit (List.mem_cons_of_mem _ hmem)

/-- The breaker around a gate that turned a call away has recovered. -/
theorem behindBreaker {s : BreakerSettings} {b : Breaker}
    (hbelow : ∀ l ∈ layers, LayerKind.breaker.position < l.kind.position) (hgate : gate ≠ .breaker)
    (h : { g with breaker := b }.Turned layers gate now g') :
    g.Turned (.breaker s :: layers) gate now { g' with breaker := g.breaker.recover s now } := by
  have hlimit : ∀ l, .rateLimit l ∈ .breaker s :: layers → .rateLimit l ∈ layers := fun l hl =>
    (List.mem_cons.mp hl).resolve_left nofun
  have hbreaker : ∀ s, .breaker s ∉ layers := fun s =>
    Layer.not_mem_of_below hbelow (Nat.le_refl _)
  exact ⟨h.occupied, fun heq => absurd heq hgate, fun _ => Breaker.recovers_cons hbreaker,
    fun hnone => h.unlimited fun l hl => hnone l (List.mem_cons_of_mem _ hl),
    fun hgate l hl => h.limited hgate l (hlimit l hl),
    fun hgate l hl => h.spent hgate l (hlimit l hl)⟩

/-- The rate limit in front of a bulkhead that turned a call away has one token less. -/
theorem behindRateLimit {limit : RateLimit}
    (hbelow : ∀ l ∈ layers, LayerKind.rateLimit.position < l.kind.position)
    (h : { g with bucket :=
        { g.bucket.refill limit now with
          balance := (g.bucket.refill limit now).balance - (1 : UInt32).toFloat } }.Turned
      layers .bulkhead now g') :
    g.Turned (.rateLimit limit :: layers) .bulkhead now g' := by
  have hlimit : ∀ l, .rateLimit l ∉ layers := fun l =>
    Layer.not_mem_of_below hbelow (Nat.le_refl _)
  have hbreaker : ∀ s, .breaker s ∈ .rateLimit limit :: layers → .breaker s ∈ layers :=
    fun s hs => (List.mem_cons.mp hs).resolve_left nofun
  refine ⟨h.occupied, nofun, fun hgate => ⟨fun s hs => (h.recovers hgate).late s (hbreaker s hs),
    fun hall => (h.recovers hgate).early fun s hs => hall s (List.mem_cons_of_mem _ hs)⟩,
    fun hnone => absurd List.mem_cons_self (hnone limit), nofun, fun _ l hl => ?_⟩
  rcases List.mem_cons.mp hl with heq | hl
  · cases heq
    exact h.unlimited hlimit
  · exact absurd hl (hlimit l)

end Gates.Turned

@[simp] theorem World.gatesOf_note (w : World) (r : Record) (site : Site) :
    (w.note r).gatesOf site = w.gatesOf site := rfl

@[simp] theorem World.gatesOf_modifyGates (w : World) (site : Site) (f : Gates → Gates) :
    (w.modifyGates site.origin.key f).gatesOf site = f (w.gatesOf site) := assign_self _ _ _

namespace World.Turned

variable {r : Result} {l : Layer}

/-- It has been told who turned the call away. -/
theorem exists_refusal (h : w.Turned site layers gate r w') :
    ∃ e ∈ w'.trace, e.record.refusal? = some (site, gate) := by
  obtain ⟨es, htr, hgs, -⟩ := h.tells
  have hmem : (site, gate) ∈ es.filterMap (·.record.refusal?) := hgs ▸ List.mem_singleton_self _
  obtain ⟨e, he, hgate⟩ := List.mem_filterMap.mp hmem
  exact ⟨e, htr ▸ List.mem_append_left _ he, hgate⟩

/-- The gates that turn calls away. -/
theorem gate_cases (h : w.Turned site layers gate r w') :
    gate = .breaker ∨ gate = .rateLimit ∨ gate = .bulkhead := by
  obtain ⟨e, -, hgate⟩ := h.exists_refusal
  exact (Record.of_refusal? hgate).2.2

theorem position_lt {k : LayerKind} (h : w.Turned site layers gate r w')
    (hbelow : ∀ l ∈ layers, k.position < l.kind.position) : k.position < gate.position := by
  obtain ⟨l, hl, rfl⟩ := List.mem_map.mp h.isGate
  exact hbelow l hl

/-- A gate tells that it turns a call away. -/
theorem of_emit {e : Event} {f : Failure} (hl : gate = l.kind)
    (he : (Record.event site e).refusal? = some (site, gate)) (hf : gate.refusal? = some f)
    (hbelow : ∀ l' ∈ layers, l.kind.position < l'.kind.position)
    (hw₁ : w₁.now = w.now ∧ w₁.invoked = w.invoked ∧ w₁.trace = w.trace ∧
      ∀ key, key ≠ site.origin.key → w₁.gates key = w.gates key)
    (hgates : (w.gatesOf site).Turned (l :: layers) gate w.now (w₁.gatesOf site)) :
    w.Turned site (l :: layers) gate (.error f) (w₁.emit site e) := by
  obtain ⟨hnow, hinvoked, htrace, helse⟩ := hw₁
  have hpos : LayerKind.fallback.position < l.kind.position := by
    rw [← hl]
    cases gate <;> cases hf <;> decide
  have hemit : (w₁.emit site e).gates = w₁.gates := w₁.emit_gates site e
  refine ⟨hl ▸ List.mem_cons_self, fun _ => ⟨f, hf, rfl⟩, fun v hv => ?_,
    (w₁.emit_now _ _).trans hnow, (w₁.emit_invoked _ _).trans hinvoked, fun key hkey => ?_, ?_, ?_⟩
  · exact absurd hv (Layer.not_mem_cons hbelow hpos)
  · rw [hemit]
    exact helse key hkey
  · rw [show World.gatesOf _ site = w₁.gatesOf site from congrFun hemit _]
    exact hgates
  · have hcount : (if gate = .bulkhead then ((l :: layers).map Layer.kind).count .rateLimit
        else 0) = 0 := by
      split
      next hgate =>
        refine Layer.count_rateLimit fun limit => Layer.not_mem_cons hbelow ?_
        rw [← hl, hgate]
        exact Nat.lt_succ_self 3
      next => rfl
    rw [hcount]
    refine .entry (r := .event site e) ?_ (by rw [he]; rfl) (if_neg nofun) fun σ => ?_
    · rw [World.emit_trace, htrace, hnow]
    · constructor <;> rintro ⟨⟩ <;> cases he

/-- The breaker turns a call away. -/
theorem crowded {s : BreakerSettings} (hs : (Layer.breaker s).fault? = none)
    (hbelow : ∀ l ∈ layers, LayerKind.breaker.position < l.kind.position)
    (h : acquirePermit site s w = (.error r, w')) :
    w.Turned site (.breaker s :: layers) .breaker r w' := by
  obtain ⟨rfl, hi, rfl⟩ := acquirePermit_error h
  have hsame : w.arrival s site.origin.key = (w.gatesOf site).breaker :=
    Breaker.recover_of_issue_none (BreakerSettings.probes_pos hs) hi
  rw [hsame, World.setBreaker_self]
  refine of_emit rfl rfl rfl hbelow ⟨rfl, rfl, rfl, fun _ _ => rfl⟩ ?_
  exact ⟨rfl, fun _ => rfl, fun hne => absurd rfl hne, fun _ => rfl, nofun, nofun⟩

/-- The rate limit turns a call away. -/
theorem dry {limit : RateLimit}
    (hbelow : ∀ l ∈ layers, LayerKind.rateLimit.position < l.kind.position)
    (h : takeToken site limit w = (false, w₁)) :
    w.Turned site (.rateLimit limit :: layers) .rateLimit (.error .rateLimited)
      (w₁.emit site .rateLimited) := by
  obtain rfl := takeToken_false h
  refine of_emit rfl rfl rfl hbelow ⟨rfl, rfl, rfl, fun _ => assign_of_ne⟩ ?_
  rw [World.gatesOf_modifyGates]
  refine ⟨rfl, nofun, fun _ => Breaker.recovers_of_not_mem fun s => ?_,
    fun hnone => absurd List.mem_cons_self (hnone limit), fun _ l hl => ?_, nofun⟩
  · exact Layer.not_mem_cons hbelow (by simp [Layer.kind, LayerKind.position])
  · rcases List.mem_cons.mp hl with heq | hl
    · cases heq
      rfl
    · exact absurd hl (Layer.not_mem_of_below hbelow (Nat.le_refl _))

/-- The bulkhead turns a call away. -/
theorem full {capacity : Nat}
    (hbelow : ∀ l ∈ layers, LayerKind.bulkhead.position < l.kind.position)
    (h : takeSlot site capacity w = (.error r, w')) :
    w.Turned site (.bulkhead capacity :: layers) .bulkhead r w' := by
  obtain ⟨-, rfl, rfl⟩ := takeSlot_error site w h
  refine of_emit rfl rfl rfl hbelow ⟨rfl, rfl, rfl, fun _ _ => rfl⟩ (.same (fun s => ?_) fun l => ?_)
  · exact Layer.not_mem_cons hbelow (by simp [Layer.kind, LayerKind.position])
  · exact Layer.not_mem_cons hbelow (by simp [Layer.kind, LayerKind.position])

/-- An outer layer that is no gate changes at most the result. -/
theorem outer {r' : Result} (h : w₁.Turned site layers gate r w₂) (hl : l.kind ≠ .breaker)
    (hl' : l.kind ≠ .rateLimit)
    (hbefore : w₁.now = w.now ∧ w₁.invoked = w.invoked ∧ w₁.gates = w.gates ∧ w₁.trace = w.trace)
    (hafter : w'.now = w₂.now ∧ w'.invoked = w₂.invoked ∧ w'.gates = w₂.gates ∧
      w₂.Tells site [] 0 w')
    (hrefused : (∀ v, .fallback v ∉ l :: layers) → r' = r)
    (hreplaced : ∀ v, .fallback v ∈ l :: layers → r' = .ok v) :
    w.Turned site (l :: layers) gate r' w' := by
  obtain ⟨hnow, hinvoked, hgates, htrace⟩ := hbefore
  obtain ⟨hnow', hinvoked', hgates', htells⟩ := hafter
  refine ⟨List.mem_cons_of_mem _ h.isGate, fun hnone => ?_, hreplaced,
    hnow'.trans (h.now.trans hnow), hinvoked'.trans (h.invoked.trans hinvoked), fun key hkey => ?_,
    ?_, ?_⟩
  · rw [hrefused hnone]
    exact h.refused fun v hv => hnone v (List.mem_cons_of_mem _ hv)
  · rw [hgates', h.elsewhere key hkey, hgates]
  · rw [World.gatesOf, World.gatesOf, hgates', ← hgates, ← hnow]
    exact h.gates.cons hl hl'
  · have htells₁ : w.Tells site [] 0 w₁ := .silent htrace
    have hall := (htells₁.trans h.tells).trans htells
    rw [List.map_cons, List.count_cons_of_ne (by simpa using hl')]
    simpa using hall

/-- A call that was turned away behind the rate limit has paid with a token. -/
theorem paid {limit : RateLimit}
    (hbelow : ∀ l ∈ layers, LayerKind.rateLimit.position < l.kind.position)
    (hpaid : takeToken site limit w = (true, w₁))
    (h : (w₁.note (.gate site .tokenTaken)).Turned site layers gate r w') :
    w.Turned site (.rateLimit limit :: layers) gate r w' := by
  obtain rfl : gate = .bulkhead := by
    have hpos := h.position_lt hbelow
    rcases h.gate_cases with rfl | rfl | rfl
    · exact absurd hpos (by decide)
    · exact absurd hpos (by decide)
    · rfl
  obtain rfl := takeToken_true hpaid
  have hgates := h.gates
  rw [World.gatesOf_note, World.gatesOf_modifyGates] at hgates
  refine ⟨List.mem_cons_of_mem _ h.isGate, fun _ => h.refused fun v => ?_, fun v hv => ?_, h.now,
    h.invoked, fun key hkey => (h.elsewhere key hkey).trans (assign_of_ne hkey),
    hgates.behindRateLimit hbelow, ?_⟩
  · exact Layer.not_mem_of_below hbelow (Nat.zero_le _)
  · exact absurd hv (Layer.not_mem_cons hbelow (by simp [Layer.kind, LayerKind.position]))
  · have hlimit : ∀ l, .rateLimit l ∉ layers := fun l =>
      Layer.not_mem_of_below hbelow (Nat.le_refl _)
    have htaken : w.Tells site [] 1 (World.note _ (.gate site .tokenTaken)) :=
      .entry (World.note_trace _ _) rfl (if_pos rfl) fun σ => by simp
    have hall := htaken.trans h.tells
    rw [if_pos rfl, Layer.count_rateLimit hlimit] at hall
    rw [if_pos rfl, List.map_cons, List.count_cons, Layer.count_rateLimit hlimit]
    exact hall

/-- A call that was turned away behind the breaker hands its permit back. -/
theorem handedBack {s : BreakerSettings} {p : Permit}
    (hbelow : ∀ l ∈ layers, LayerKind.breaker.position < l.kind.position)
    (hissued : acquirePermit site s w = (.ok p, w₁)) (h : w₁.Turned site layers gate r w₂) :
    w.Turned site (.breaker s :: layers) gate r (w₂.settlePermit site s p (.ofResult r)) := by
  have hne : gate ≠ .breaker := by
    rintro rfl
    exact absurd (h.position_lt hbelow) (Nat.lt_irrefl _)
  have hfallback : ∀ v, .fallback v ∉ layers := fun v =>
    Layer.not_mem_of_below hbelow (Nat.zero_le _)
  -- a rejection is no success and no failure to the breaker
  have hignored : Outcome.ofResult r = .ignored := by
    obtain ⟨f, hf, rfl⟩ := h.refused hfallback
    rcases h.gate_cases with rfl | rfl | rfl <;> cases hf <;> rfl
  have htells₁ := World.Tells.acquired hissued
  obtain ⟨b, hi, rfl⟩ := acquirePermit_ok hissued
  have hnow₁ : (w.setBreaker site b).now = w.now := w.setBreaker_now site b
  have hgates₁ := w.setBreaker_gates site b
  have hgates := h.gates
  rw [show World.gatesOf (World.note _ _) site = _ from
      (congrFun hgates₁ _).trans (assign_self _ _ _),
    show (World.note _ _).now = _ from hnow₁] at hgates
  -- the breaker has heard of nothing else since it issued the permit
  have hsame : (w₂.gatesOf site).breaker = b := (hgates.recovers hne).early fun s hs =>
    absurd hs (Layer.not_mem_of_below hbelow (Nat.le_refl _))
  -- a permit that comes back ignored leaves the breaker as it was on arrival
  have hback : (w₂.gatesOf site).breaker.record s w₂.now p .ignored =
      w.arrival s site.origin.key := by
    rw [hsame]
    exact Breaker.record_ignored_of_issue hi _
  have hgates₂ : (w₂.settlePermit site s p .ignored).gates = assign w₂.gates site.origin.key
      { w₂.gatesOf site with breaker := w.arrival s site.origin.key } := by
    rw [← hback]
    exact World.setBreaker_gates _ _ _
  -- what the gates inside have left is left, and the breaker is put back
  rw [hignored]
  refine ⟨List.mem_cons_of_mem _ h.isGate, fun _ => h.refused hfallback, fun v hv => ?_, ?_, ?_,
    fun key hkey => ?_, ?_, ?_⟩
  · exact absurd hv (Layer.not_mem_cons hbelow (by simp [Layer.kind, LayerKind.position]))
  · rw [World.settlePermit_now, h.now]
    exact hnow₁
  · rw [World.settlePermit_invoked, h.invoked]
    exact w.setBreaker_invoked site b
  · rw [hgates₂, assign_of_ne hkey, h.elsewhere key hkey]
    exact (congrFun hgates₁ key).trans (assign_of_ne hkey)
  · rw [show World.gatesOf _ site = _ from (congrFun hgates₂ _).trans (assign_self _ _ _)]
    exact hgates.behindBreaker hbelow hne
  · have hsettled : w₂.Tells site [] 0 (w₂.settlePermit site s p .ignored) := by
      refine .entry (r := .gate site (.permitSettled p .ignored)) ?_ rfl (if_neg (by simp))
        fun σ => by simp
      -- the breaker does not change its state by that, so nothing is told of it
      have hstate : ((w₂.breaker site.origin.key).record s w₂.now p .ignored).state =
          (w₂.breaker site.origin.key).state := by
        rw [show w₂.breaker site.origin.key = b from hsame, Breaker.record_ignored_of_issue hi]
        exact (Breaker.issue_state s _).symm.trans (congrArg (fun x => x.2.state) hi)
      rw [World.settlePermit_trace, if_pos hstate]
    have hall := (htells₁.trans h.tells).trans hsettled
    rw [List.map_cons, List.count_cons_of_ne (by simp [Layer.kind])]
    simpa using hall

end World.Turned

/-! ### Layers around an operation -/

/-- The call is not turned away, and its operation is not invoked. -/
structure World.Mute (site : Site) (w w' : World) : Prop where
  quiet : w.Quiet site w'
  invoked : w'.invoked = w.invoked

/-- The call is let in, and its operation is invoked. -/
structure World.Enters (site : Site) (w w' : World) : Prop where
  quiet : w.Quiet site w'
  invoked : (w.invoked site.call).length < (w'.invoked site.call).length

theorem World.Mute.enters (h : w.Mute site w₁) (h' : w₁.Enters site w₂) : w.Enters site w₂ :=
  ⟨h.quiet.trans h'.quiet, h.invoked ▸ h'.invoked⟩

theorem World.Enters.mute (h : w.Enters site w₁) (h' : w₁.Mute site w₂) : w.Enters site w₂ :=
  ⟨h.quiet.trans h'.quiet, h'.invoked.symm ▸ h.invoked⟩

namespace World.Mute

theorem refl (w : World) : w.Mute site w := ⟨.refl w, rfl⟩

theorem trans (h : w.Mute site w₁) (h' : w₁.Mute site w₂) : w.Mute site w₂ :=
  ⟨h.quiet.trans h'.quiet, h'.invoked.trans h.invoked⟩

theorem emit (w : World) {e : Event} (h : (Record.event site e).refusal? = none) :
    w.Mute site (w.emit site e) :=
  ⟨.emit w site e (Entry.refuses_of_none h), w.emit_invoked site e⟩

theorem acquired {s : BreakerSettings} {p : Permit} (h : acquirePermit site s w = (.ok p, w')) :
    w.Mute site w' := by
  obtain ⟨b, -, rfl⟩ := acquirePermit_ok h
  refine ⟨?_, World.setBreaker_invoked _ _ _⟩
  exact (Keeps.setBreaker w site b rfl (Entry.refuses_of_none (Record.refusal?_news site _))).trans
    (.note _ _ rfl)

theorem release (w : World) (h : Holding) : w.Mute site (w.release h) :=
  ⟨.release (fun _ => Entry.refuses_of_isReturn) w h, w.release_invoked h⟩

theorem drop (w : World) (hs : List Holding) (u : Token) :
    w.Mute site ((w.releaseAll hs).cancel u) :=
  ⟨(Keeps.releaseAll (fun _ => Entry.refuses_of_isReturn) w hs).trans (.silent rfl rfl),
    w.releaseAll_invoked hs⟩

theorem settlePermit (w : World) (s : BreakerSettings) (p : Permit) (o : Outcome) :
    w.Mute site (w.settlePermit site s p o) :=
  ⟨.settlePermit (fun _ => Entry.refuses_of_isReturn) w site s rfl, w.settlePermit_invoked _ _ _ _⟩

end World.Mute

/-- A call is let in and the operation invoked, or it is turned away at once. Once it is in,
it is not turned away any more. -/
structure Operation.Guarded (op : Operation) (site : Site) (layers : List Layer)
    (keeps : (CallId → Nat) → Token → op.State → World → Prop) : Prop where
  start : ∀ {t w}, w.Ready w.minted t → w.Enters site (op.start t w).2 ∨
    ∃ r gate w', op.start t w = (.done r, w') ∧ w.Turned site layers gate r w'
  resume : ∀ {m t s w}, w.Ready m t → keeps m t s w → w.Quiet site (op.resume s w).2

namespace Operation.Guarded

/-- Where there are no gates, nobody is turned away. -/
theorem of_invokes (hd : op.Attends site.call kinds keeps) (h : op.Invokes site.call)
    (hk : ∀ k ∈ kinds, LayerKind.retry.position ≤ k.position) : op.Guarded site layers keeps :=
  ⟨fun hw => .inl ⟨.of_confined (hd.start hw).confined hk, h hw⟩,
    fun hw hs => .of_confined (hd.resume hw hs).confined hk⟩

theorem withFallback (value : String) (h : op.Guarded site layers keeps)
    (hbelow : ∀ l ∈ layers, LayerKind.fallback.position < l.kind.position) :
    (withFallback site value op).Guarded site (.fallback value :: layers) keeps := by
  have hemit : ∀ (w : World) (f : Failure), w.Mute site (w.emit site (.fellBack f)) :=
    fun w _ => .emit w rfl
  have hpost := Activity.after.follow_rel op World.Mute.refl
    (withFallback_step site World.Mute.refl hemit value)
  refine ⟨fun {t w} hw => ?_, fun hw hs => (h.resume hw hs).trans (hpost _).quiet⟩
  rcases h.start hw with henters | ⟨r, gate, w', heq, hturned⟩
  · exact .inl (henters.mute (hpost _))
  · -- there is no other fallback inside, so this one replaces the refusal
    obtain ⟨f, -, rfl⟩ := hturned.refused fun v =>
      Layer.not_mem_of_below hbelow (Nat.le_refl _)
    refine .inr ⟨.ok value, gate, w'.emit site (.fellBack f), ?_, ?_⟩
    · show Activity.after.follow _ op (op.start t w) = _
      rw [heq]
      rfl
    · refine hturned.outer nofun nofun ⟨rfl, rfl, rfl, rfl⟩
        ⟨w'.emit_now _ _, w'.emit_invoked _ _, w'.emit_gates _ _, ?_⟩
        (fun hnone => absurd List.mem_cons_self (hnone value)) fun v hv => ?_
      · exact .entry (w'.emit_trace _ _) rfl (if_neg nofun) fun σ => ⟨nofun, nofun⟩
      · rcases List.mem_cons.mp hv with heq | hv
        · cases heq
          rfl
        · exact absurd hv (Layer.not_mem_of_below hbelow (Nat.le_refl _))

theorem withTimeout (length : Duration) (h : op.Guarded site layers keeps)
    (hbelow : ∀ l ∈ layers, LayerKind.timeout.position < l.kind.position) :
    (withTimeout site length op).Guarded site (.timeout length :: layers)
      (fun m t s => Activity.Raised site.call keeps m t s.token s.inner) := by
  have hlook : ∀ (u : Token) (d : Nat) (out : Status op.State Result × World),
      out.2.Mute site (Activity.after.follow _ (op.within site.call length)
        (Activity.within.check op u d out)).2 := fun u d out =>
    (Activity.within.check_rel op World.Mute.refl u (fun hs w => .drop w hs u) d out).trans
      (Activity.after.follow_rel (op.within site.call length) World.Mute.refl
        (withTimeout_step site length World.Mute.refl fun w => .emit w rfl) _)
  refine ⟨fun {t w} hw => ?_, fun {m t s w} hw hs => ?_⟩
  · let u := (w.mint site.call t).1
    let w₁ := (w.mint site.call t).2
    have hminted : w.Mute site w₁ := ⟨.silent rfl rfl, rfl⟩
    rcases h.start (hw.child site.call) with henters | ⟨r, gate, w', heq, hturned⟩
    · exact .inl (hminted.enters (henters.mute (hlook u _ _)))
    · refine .inr ⟨r, gate, w', ?_, ?_⟩
      · show Activity.after.follow _ (op.within site.call length)
          (Activity.within.check op u _ (op.start u w₁)) = _
        rw [heq]
        rfl
      · refine hturned.outer nofun nofun ⟨rfl, rfl, rfl, rfl⟩ ⟨rfl, rfl, rfl, .silent rfl⟩
          (fun _ => rfl) fun v hv => ?_
        refine absurd hv (Layer.not_mem_cons hbelow ?_)
        simp [Layer.kind, LayerKind.position]
  · obtain ⟨-, m', -, -, hready, hkept⟩ := hs
    exact (h.resume hready hkept).trans (hlook _ _ _).quiet

theorem behindBreaker {s : BreakerSettings} (hs : (Layer.breaker s).fault? = none)
    (h : op.Guarded site layers keeps)
    (hbelow : ∀ l ∈ layers, LayerKind.breaker.position < l.kind.position) :
    (behindBreaker site s op).Guarded site (.breaker s :: layers) (fun m t s => keeps m t s.2) := by
  have hkeep : ∀ p (out : Status op.State Result × World), out.2.Mute site
      (Activity.holding.keep (Holding.permit site s)
        (fun p r w => w.settlePermit site s p (.ofResult r)) op p out).2 :=
    Activity.holding.keep_rel op World.Mute.refl (fun p _ w => .settlePermit w s p _)
      fun _ w => .release w _
  refine ⟨fun {t w} hw => ?_, fun hw hs => (h.resume hw hs).trans (hkeep _ _).quiet⟩
  cases hacquire : acquirePermit site s w with
  | mk e w₁ =>
    cases e with
    | error r =>
      exact .inr ⟨r, .breaker, w₁, Activity.holding_start_error hacquire,
        .crowded hs hbelow hacquire⟩
    | ok p =>
      have hready := (World.Confined.of_acquirePermit (m := w.minted) site t hacquire).ready hw
      have hstart : (Operation.behindBreaker site s op).start t w = _ :=
        Activity.holding_start_ok hacquire
      rw [hstart]
      rcases h.start hready.later with henters | ⟨r, gate, w', heq, hturned⟩
      · exact .inl (((World.Mute.acquired hacquire).enters henters).mute (hkeep p _))
      · rw [heq]
        exact .inr ⟨r, gate, _, rfl, hturned.handedBack hbelow hacquire⟩

theorem behindRateLimit {limit : RateLimit} (h : op.Guarded site layers keeps)
    (hbelow : ∀ l ∈ layers, LayerKind.rateLimit.position < l.kind.position) :
    (behindRateLimit site limit op).Guarded site (.rateLimit limit :: layers) keeps := by
  refine ⟨fun {t w} hw => ?_, h.resume⟩
  unfold Operation.behindRateLimit
  dsimp only
  split
  next w₁ htaken =>
    let w₂ := w₁.note (.gate site .tokenTaken)
    have hready : w₂.Ready w.minted t :=
      (World.Confined.of_takeToken (m := w.minted) site t htaken).ready hw
    have hmute : w.Mute site w₂ := by
      obtain ⟨bucket, rfl⟩ := takeToken_eq site w htaken
      exact ⟨(World.Keeps.modifyGates w _ _ rfl).trans (.note _ _ rfl), rfl⟩
    rcases h.start hready.later with henters | ⟨r, gate, w', heq, hturned⟩
    · exact .inl (hmute.enters henters)
    · exact .inr ⟨r, gate, w', heq, hturned.paid hbelow htaken⟩
  next w₁ htaken => exact .inr ⟨_, .rateLimit, _, rfl, .dry hbelow htaken⟩

/-- Behind the bulkhead there are no gates any more. -/
theorem behindBulkhead {capacity : Nat} (h : op.Guarded site layers keeps)
    (hbelow : ∀ l ∈ layers, LayerKind.bulkhead.position < l.kind.position) :
    (behindBulkhead site capacity op).Guarded site (.bulkhead capacity :: layers)
      (fun m t s => keeps m t s.2) := by
  have hkeep : ∀ (u : Unit) (out : Status op.State Result × World), out.2.Mute site
      (Activity.holding.keep (fun _ => .slot site) (fun _ _ w => w.release (.slot site)) op u
        out).2 :=
    Activity.holding.keep_rel op World.Mute.refl (fun _ _ w => .release w _) fun _ w => .release w _
  refine ⟨fun {t w} hw => ?_, fun hw hs => (h.resume hw hs).trans (hkeep _ _).quiet⟩
  cases htake : takeSlot site capacity w with
  | mk e w₁ =>
    cases e with
    | error r =>
      exact .inr ⟨r, .bulkhead, w₁, Activity.holding_start_error htake, .full hbelow htake⟩
    | ok u =>
      have hready := (World.Confined.of_takeSlot (m := w.minted) site t htake).ready hw
      have hmute : w.Mute site w₁ := by
        obtain ⟨-, rfl⟩ := takeSlot_ok site w htake
        exact ⟨(World.Keeps.modifyGates w _ _ rfl).trans (.emit _ _ _ rfl), World.emit_invoked _ _ _⟩
      have hstart : (Operation.behindBulkhead site capacity op).start t w = _ :=
        Activity.holding_start_ok htake
      rw [hstart]
      rcases h.start hready.later with henters | ⟨r, gate, w', -, hturned⟩
      · exact .inl ((hmute.enters henters).mute (hkeep u _))
      -- what turned the call away is further inside, and no gate comes after the bulkhead
      · have hpos := hturned.position_lt hbelow
        rcases hturned.gate_cases with rfl | rfl | rfl <;> exact absurd hpos (by decide)

end Operation.Guarded

/-- Behind the gates, the operation is invoked. -/
theorem Operation.Invokes.stack (hd : op.Attends site.call [] keeps) (h : op.Invokes site.call)
    (hbelow : ∀ l ∈ layers, LayerKind.bulkhead.position < l.kind.position) :
    (stack site layers op).Invokes site.call := by
  induction layers with
  | nil => exact h
  | cons l rest ih =>
    have hrest := ih fun l' hl' => hbelow l' (List.mem_cons_of_mem _ hl')
    have hpos := hbelow l List.mem_cons_self
    cases l with
    | retry r => exact hrest.withRetry r (hd.stack site rest)
    | hedge delay => exact hrest.withHedge delay (hd.stack site rest)
    | _ => exact absurd hpos (by simp [Layer.kind, LayerKind.position])

namespace Operation.Guarded

/-- Behind the gates, nobody is turned away. -/
theorem stack_of_below (hd : op.Attends site.call [] keeps) (h : op.Invokes site.call)
    (hbelow : ∀ l ∈ layers, LayerKind.bulkhead.position < l.kind.position) :
    (stack site layers op).Guarded site layers (stackKeeps site op keeps layers) := by
  refine .of_invokes (hd.stack site layers) (.stack hd h hbelow) fun k hk => ?_
  rw [List.append_nil] at hk
  obtain ⟨l, hl, rfl⟩ := List.mem_map.mp hk
  exact hbelow l hl

/-- **A call is let in by all gates** and invokes the operation, or one of them turns it
away. -/
theorem stack (hd : op.Attends site.call [] keeps) (h : op.Invokes site.call)
    (hordered : layers.Pairwise fun a b => a.kind.position < b.kind.position)
    (hfaultless : ∀ l ∈ layers, l.fault? = none) :
    (stack site layers op).Guarded site layers (stackKeeps site op keeps layers) := by
  induction layers with
  | nil => exact .stack_of_below hd h nofun
  | cons l rest ih =>
    obtain ⟨hbelow, hrest⟩ := List.pairwise_cons.mp hordered
    have hinner := ih hrest fun l' hl' => hfaultless l' (List.mem_cons_of_mem _ hl')
    have hlast : LayerKind.bulkhead.position < l.kind.position →
        (CallPolicy.stack site (l :: rest) op).Guarded site (l :: rest)
          (stackKeeps site op keeps (l :: rest)) := by
      refine fun hpos => .stack_of_below hd h fun l' hl' => ?_
      rcases List.mem_cons.mp hl' with rfl | hl'
      · exact hpos
      · exact Nat.lt_trans hpos (hbelow l' hl')
    cases l with
    | fallback value => exact hinner.withFallback value hbelow
    | timeout length => exact hinner.withTimeout length hbelow
    | breaker s => exact hinner.behindBreaker (hfaultless _ List.mem_cons_self) hbelow
    | rateLimit limit => exact hinner.behindRateLimit hbelow
    | bulkhead capacity => exact hinner.behindBulkhead hbelow
    | retry r => exact hlast (Nat.lt_succ_self 4)
    | hedge delay => exact hlast (Nat.lt_of_sub_eq_succ rfl)

end Operation.Guarded

/-! ### Calls -/

/-- A call that was let in has not been turned away since. -/
theorem Operation.Guarded.lives {out : Status op.State Result × World}
    (h : op.Guarded site layers keeps) (hd : op.Attends site.call kinds keeps)
    (hw₀ : w₀.Awaits site.call t) (hl : op.Lives site.call timely t w₀ out) :
    w₀.Enters site out.2 ∨ ∃ r gate w', out = op.start t w₀ ∧ out = (.done r, w') ∧
      w₀.Turned site layers gate r w' := by
  induction hl with
  | start =>
    rcases h.start hw₀.ready with henters | ⟨r, gate, w', heq, hturned⟩
    · exact .inl henters
    · exact .inr ⟨r, gate, w', rfl, heq, hturned⟩
  | @wait s w w' _ hw _ ih =>
    rcases ih with henters | ⟨r, gate, w', -, heq, -⟩
    · have hquiet : w.Quiet site w' := by
        obtain ⟨es, htr, hes⟩ := hw.trace
        refine ⟨rfl, hw.now, es, htr, fun e he => ?_⟩
        by_contra hrefuses
        obtain ⟨gate, hgate⟩ := Entry.refuses_iff.mp (by simpa using hrefuses)
        exact hes e he ((Record.of_refusal? hgate).1 ▸ .self)
      exact .inl ⟨henters.quiet.trans hquiet, (hw.invoked .self).symm ▸ henters.invoked⟩
    · cases heq
  | resume hl ih =>
    rcases ih with henters | ⟨r, gate, w', -, heq, -⟩
    · obtain ⟨hready, hkept⟩ := hd.lives hw₀.ready hl
      have hgrown := (hd.resume hready hkept).confined.length_invoked site.call
      exact .inl ⟨henters.quiet.trans (h.resume hready hkept),
        Nat.lt_of_lt_of_le henters.invoked hgrown⟩
    · cases heq

/-- **Rejections are clean.** A call whose operation is not invoked has been turned away by
the breaker, the rate limit or the bulkhead of its policy, and such a call ends as soon as
it is started: nothing is left behind but what the gates before that one do with a call
that they let in and that says nothing. -/
theorem rejections_are_clean (p : Policy) (script : Script)
    {out : Status (p.call id (script.operation id)).State Result × World}
    (hw₀ : w₀.Awaits id t)
    (h : (p.call id (script.operation id)).Lives id timely t w₀ out) :
    (out.2.invoked id = [] ↔
      ∃ gate, ∃ e ∈ out.2.trace, e.record.refusal? = some (⟨p.origin, id⟩, gate)) ∧
    (out.2.invoked id = [] → ∃ r gate w', out = (p.call id (script.operation id)).start t w₀ ∧
      out = (.done r, w') ∧ w₀.Turned ⟨p.origin, id⟩ p.layers gate r w') := by
  obtain ⟨keeps, hd⟩ := script.docile id
  have hguarded : (stack ⟨p.origin, id⟩ p.layers (script.operation id)).Guarded ⟨p.origin, id⟩
      p.layers _ := .stack hd (.script script id) p.ordered p.faultless
  have hattends := hd.stack ⟨p.origin, id⟩ p.layers
  rcases hguarded.lives hattends hw₀ h with henters | ⟨r, gate, w', hstart, heq, hturned⟩
  · have hne : out.2.invoked id ≠ [] := List.ne_nil_of_length_pos (Nat.zero_lt_of_lt henters.invoked)
    refine ⟨⟨fun hnil => absurd hnil hne, fun ⟨gate, e, he, hgate⟩ => ?_⟩, fun hnil => absurd hnil hne⟩
    obtain ⟨es, htr, hes⟩ := henters.quiet.trace
    rw [htr] at he
    rcases List.mem_append.mp he with he | he
    · have hrefuses := Entry.refuses_iff.mpr ⟨gate, hgate⟩
      rw [hes e he] at hrefuses
      cases hrefuses
    · exact absurd ((Record.of_refusal? hgate).1 ▸ .self) (hw₀.trace e he)
  · rw [heq]
    have hnil : w'.invoked id = [] := by rw [hturned.invoked, hw₀.invoked .self]
    refine ⟨⟨fun _ => ⟨gate, ?_⟩, fun _ => hnil⟩, fun _ => ⟨r, gate, w', heq ▸ hstart, rfl, hturned⟩⟩
    exact hturned.exists_refusal

/-- A world in which the only slot of a policy is taken. -/
def occupiedWorld : World :=
  (narrow.install (.start .plain)).modifyGates 0 fun g => { g with occupied := 1 }

theorem rejections_are_clean_full :
    let id : CallId := .top "c" 0
    let out := (narrow.call id (Script.operation [[.hang]] id)).start (.named "t") occupiedWorld
    occupiedWorld.Awaits id (.named "t") ∧ out.2.invoked id = [] ∧
    ∃ r gate w', out = (.done r, w') ∧
      occupiedWorld.Turned ⟨narrow.origin, id⟩ narrow.layers gate r w' := by
  intro id out
  have hw₀ : occupiedWorld.Awaits id (.named "t") := ⟨nofun, nofun, fun _ => rfl, nofun⟩
  have hnil : out.2.invoked id = [] := rfl
  have hl : (narrow.call id (Script.operation [[.hang]] id)).Lives id False (.named "t")
    occupiedWorld out := .start
  obtain ⟨-, hturned⟩ := rejections_are_clean narrow [[.hang]] hw₀ hl
  obtain ⟨r, gate, w', -, heq, hturned⟩ := hturned hnil
  exact ⟨hw₀, hnil, r, gate, w', heq, hturned⟩

end CallPolicy
