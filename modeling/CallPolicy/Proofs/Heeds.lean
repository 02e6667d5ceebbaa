/-
New work under a cancelled token.

An invocation is new work for a call, and so is whatever leads to one: a failure is judged
worth another attempt or not, another attempt is announced, or a second one launched beside
the first. A call looks at its token before it begins anything new (`World.Heeds`), so
nothing new is begun once the token is cancelled, wherever the call may stand
(`World.Dormant`). If one of its own hooks cancels the token, it may be too late to look, and
a wait between attempts that is over when the token is found cancelled may be followed by
one more attempt; but no call is left waiting under a cancelled token.

* **`Heeds.dormant_of_cancelled`** — nothing new is begun under a cancelled token;
* **`Heeds.invokesLive`** — so no invocation is recorded under one, but for hooks;
* **`Minds.withRetry`**, **`Minds.withHedge`**, … — one lemma a layer;
* **`Minds.stack`** — so a call minds its token if its operation does;
* **`WaitsLive.stack`** — and it is suspended between attempts under a live token only.
-/
import CallPolicy.Proofs.Rejection

namespace CallPolicy

open Activity Operation

variable {ο : Type} {w w' w₁ w₂ w₀ : World} {t u v : Token} {id : CallId} {m : CallId → Nat}
  {site : Site} {kinds : List LayerKind} {σ : Scope}

/-- Does the record tell that a call is about to go on after a failure, or beside an attempt? -/
def Record.follows (id : CallId) : Record → Bool
  | .asked site _ _ => site.call = id
  | .event site (.retrying _ _) => site.call = id
  | .event site (.hedgeLaunched _) => site.call = id
  | _ => false

/-- Does the record tell of new work for a call: an invocation, or what leads to one? -/
def Record.begins (id : CallId) : Record → Bool
  | .invoked call _ _ => call = id
  | r => r.follows id

/-- Does the entry tell of new work for a call? -/
def Entry.begins (id : CallId) (e : Entry) : Bool := e.record.begins id

theorem Record.call_of_begins {r : Record} (h : r.begins id = true) : r.call = id := by
  unfold begins at h
  split at h
  · exact of_decide_eq_true h
  · unfold follows at h
    split at h <;> first | exact of_decide_eq_true h | cases h

theorem Entry.begins_of_isReturn {e : Entry} (h : e.record.isReturn = true) :
    e.begins id = false := by
  unfold begins
  generalize e.record = r at h
  unfold Record.isReturn at h
  split at h
  case h_7 => cases h
  all_goals rfl

theorem Entry.follows_of_begins {e : Entry} (h : e.begins id = false) :
    e.record.follows id = false := by
  unfold begins Record.begins at h
  split at h
  next heq =>
    rw [heq]
    rfl
  next => exact h

/-! ### Nothing new -/

namespace World

theorem Confined.suffix_trace (h : w.Confined σ m w') : w.trace <:+ w'.trace := by
  obtain ⟨es, heq, -⟩ := h.trace
  exact ⟨es, heq.symm⟩

theorem Confined.suffix_cancelled (h : w.Confined σ m w') : w.cancelled <:+ w'.cancelled := by
  obtain ⟨as, heq, -⟩ := h.cancelled
  exact ⟨as, heq.symm⟩

theorem cancelled_emit (w : World) (site : Site) (e : Event) :
    w.cancelled <:+ (w.emit site e).cancelled := by
  rcases w.emit_eq site e with h | ⟨name, h⟩ <;> rw [h]
  · exact List.suffix_refl _
  · exact List.suffix_cons _ _

theorem cancelled_setBreaker (w : World) (site : Site) (b : Breaker) :
    w.cancelled <:+ (w.setBreaker site b).cancelled := by
  unfold setBreaker
  dsimp only
  split
  · exact List.suffix_refl _
  · exact cancelled_emit (w.modifyGates site.origin.key _) site _

theorem cancelled_release (w : World) (h : Holding) :
    w.cancelled <:+ (w.release h).cancelled := by
  cases h with
  | invocation call k token => exact List.suffix_refl _
  | slot site => exact cancelled_emit (w.modifyGates site.origin.key _) site .slotReleased
  | permit site s p => exact cancelled_setBreaker (w.note _) site _

theorem cancelled_releaseAll (w : World) (hs : List Holding) :
    w.cancelled <:+ (w.releaseAll hs).cancelled := by
  induction hs generalizing w with
  | nil => exact List.suffix_refl _
  | cons h hs ih => exact (w.cancelled_release h).trans (ih (w.release h))

theorem isCancelled_of_suffix (h : w.cancelled <:+ w'.cancelled) (ht : w.isCancelled t = true) :
    w'.isCancelled t = true := by
  obtain ⟨a, ha, hat⟩ := isCancelled_iff.mp ht
  exact isCancelled_iff.mpr ⟨a, h.subset ha, hat⟩

/-- Nothing new has been begun for a call, and what was cancelled still is. -/
structure Dormant (id : CallId) (w w' : World) : Prop where
  quiet : w.Keeps (fun _ => ()) (Entry.begins id) w'
  invoked : w'.invoked id = w.invoked id
  cancelled : w.cancelled <:+ w'.cancelled

namespace Dormant

theorem refl (w : World) : w.Dormant id w := ⟨.refl w, rfl, List.suffix_refl _⟩

theorem trans (h : w.Dormant id w₁) (h' : w₁.Dormant id w₂) : w.Dormant id w₂ :=
  ⟨h.quiet.trans h'.quiet, h'.invoked.trans h.invoked, h.cancelled.trans h'.cancelled⟩

theorem note (w : World) {r : Record} (h : r.begins id = false) : w.Dormant id (w.note r) :=
  ⟨.note w r h, rfl, List.suffix_refl _⟩

theorem emit (w : World) (site : Site) {e : Event} (h : (Record.event site e).begins id = false) :
    w.Dormant id (w.emit site e) :=
  ⟨.emit w site e h, congrFun (w.emit_invoked site e) id, w.cancelled_emit site e⟩

theorem mint (w : World) (call : CallId) (t : Token) : w.Dormant id (w.mint call t).2 :=
  ⟨.silent rfl rfl, rfl, List.suffix_refl _⟩

theorem draw (w : World) : w.Dormant id w.draw.2 := ⟨.silent rfl rfl, rfl, List.suffix_refl _⟩

theorem cancel (w : World) (t : Token) : w.Dormant id (w.cancel t) :=
  ⟨.silent rfl rfl, rfl, List.suffix_cons _ _⟩

theorem modifyGates (w : World) (key : Nat) (f : Gates → Gates) :
    w.Dormant id (w.modifyGates key f) := ⟨.silent rfl rfl, rfl, List.suffix_refl _⟩

theorem setBreaker (w : World) (site : Site) (b : Breaker) :
    w.Dormant id (w.setBreaker site b) :=
  ⟨.setBreaker w site b rfl (Entry.begins_of_isReturn (Record.isReturn_news site _)),
    congrFun (w.setBreaker_invoked site b) id, w.cancelled_setBreaker site b⟩

theorem release (w : World) (h : Holding) : w.Dormant id (w.release h) :=
  ⟨.release (fun _ => Entry.begins_of_isReturn) w h, congrFun (w.release_invoked h) id,
    w.cancelled_release h⟩

theorem releaseAll (w : World) (hs : List Holding) : w.Dormant id (w.releaseAll hs) :=
  ⟨.releaseAll (fun _ => Entry.begins_of_isReturn) w hs, congrFun (w.releaseAll_invoked hs) id,
    w.cancelled_releaseAll hs⟩

theorem settlePermit (w : World) (site : Site) (s : BreakerSettings) (p : Permit) (o : Outcome) :
    w.Dormant id (w.settlePermit site s p o) := (note w rfl).trans (setBreaker _ site _)

/-- What an invocation does itself is nothing new. -/
theorem of_body {k : Nat} (h : w.Confined (.ofBody id k t) m w') : w.Dormant id w' := by
  obtain ⟨es, htr, hes⟩ := h.trace
  refine ⟨⟨rfl, Nat.le_of_eq h.now.symm, es, htr, fun e he => ?_⟩, ?_, ?_⟩
  · refine Bool.eq_false_iff.mpr fun hbegins => ?_
    obtain ⟨b, hb⟩ := (hes e he).own (Record.call_of_begins hbegins)
    rw [Entry.begins, hb] at hbegins
    cases hbegins
  · obtain ⟨us, heq, hus⟩ := h.invoked id
    cases us with
    | nil => exact heq
    | cons u us =>
      obtain ⟨position, name, hserves⟩ := hus u List.mem_cons_self
      exact absurd rfl (CallId.ne_of_within_nested hserves.within)
  · obtain ⟨as, heq, -⟩ := h.cancelled
    exact ⟨as, heq.symm⟩

/-- Nothing is begun for a call by others. -/
theorem of_meanwhile (h : w.Meanwhile id t w') : w.Dormant id w' := by
  obtain ⟨es, htr, hes⟩ := h.trace
  refine ⟨⟨rfl, h.now, es, htr, fun e he => ?_⟩, h.invoked .self, ?_⟩
  · exact Bool.eq_false_iff.mpr fun hbegins => hes e he (Record.call_of_begins hbegins ▸ .self)
  · obtain ⟨as, heq, -⟩ := h.spares.cancelled
    exact ⟨as, heq.symm⟩

end Dormant

/-! ### One invocation -/

/-- The operation of a call was invoked once at most, and nothing followed from it. -/
structure Once (id : CallId) (w w' : World) : Prop where
  quiet : w.Keeps (fun _ => ()) (fun e => e.record.follows id) w'
  invoked : (w'.invoked id).length ≤ (w.invoked id).length + 1
  cancelled : w.cancelled <:+ w'.cancelled

theorem Dormant.once (h : w.Dormant id w') : w.Once id w' :=
  ⟨h.quiet.mono fun _ => Entry.follows_of_begins, h.invoked ▸ Nat.le_succ _, h.cancelled⟩

theorem Once.dormant (h : w.Once id w₁) (h' : w₁.Dormant id w₂) : w.Once id w₂ :=
  ⟨h.quiet.trans h'.once.quiet, h'.invoked.symm ▸ h.invoked, h.cancelled.trans h'.cancelled⟩

theorem Dormant.then_once (h : w.Dormant id w₁) (h' : w₁.Once id w₂) : w.Once id w₂ :=
  ⟨h.once.quiet.trans h'.quiet, h.invoked ▸ h'.invoked, h.cancelled.trans h'.cancelled⟩

theorem Once.suffix_trace (h : w.Once id w') : w.trace <:+ w'.trace := by
  obtain ⟨es, heq, -⟩ := h.quiet.trace
  exact ⟨es, heq.symm⟩

theorem Once.invoke (w : World) (id : CallId) (k : Nat) (t : Token) : w.Once id (w.invoke id k t) := by
  refine ⟨.entry rfl rfl (w.invoke_trace id k t) rfl, ?_, List.suffix_refl _⟩
  rw [invoke_invoked, assign_self]
  exact Nat.le_refl _

/-! ### Looking at the token first -/

end World

/-- Does the record tell of an event whose hook cancels the token, itself or from above? -/
def Record.cancels (t : Token) : Record → Bool
  | .event site e =>
    (e.hook?.bind site.origin.hooks.cancelled?).any fun name => (Token.named name).governs t
  | _ => false

/-- Does it tell of such an event of a call? -/
def Record.revokes (site : Site) (t : Token) : Record → Bool
  | .event site' e => site' = site && (Record.event site e).cancels t
  | _ => false

namespace World

/-- A hook that cancels a live token is found in the record of its event. -/
theorem cancels_of_emit {e : Event} (hlive : w.isCancelled t = false)
    (h : (w.emit site e).isCancelled t = true) : (Record.event site e).cancels t = true := by
  unfold emit at h
  dsimp only at h
  split at h
  next name hname =>
    have hnamed : (Token.named name).governs t = true := by
      obtain ⟨a, ha, hat⟩ := isCancelled_iff.mp h
      rcases List.mem_cons.mp ha with rfl | hold
      · exact hat
      · have hbefore : w.isCancelled t = true := isCancelled_iff.mpr ⟨a, hold, hat⟩
        rw [hlive] at hbefore
        cases hbefore
    simp [Record.cancels, hname, hnamed]
  next =>
    have hold : w.isCancelled t = true := h
    rw [hlive] at hold
    cases hold

/-- Since the world `w`, the operation was invoked under live tokens only, as the records of
its invocations tell, unless a hook of the call had cancelled the token before. -/
def InvokesLive (site : Site) (t : Token) (w w' : World) : Prop :=
  ∃ es, w'.trace = es ++ w.trace ∧ ∀ e before k, e :: before <:+ es →
    e.record = .invoked site.call k true → ∃ e' ∈ before, e'.record.revokes site t = true

namespace InvokesLive

/-- Nothing is recorded that would have to be checked. -/
theorem of_entries {es : List Entry} (h : w'.trace = es ++ w.trace)
    (hes : ∀ e ∈ es, ∀ k, e.record ≠ .invoked site.call k true) : w.InvokesLive site t w' :=
  ⟨es, h, fun e _ k hsuffix he => absurd he (hes e (hsuffix.subset List.mem_cons_self) k)⟩

theorem trans (h : w.InvokesLive site t w₁) (h' : w₁.InvokesLive site t w₂) :
    w.InvokesLive site t w₂ := by
  obtain ⟨es, htr, hes⟩ := h
  obtain ⟨es', htr', hes'⟩ := h'
  refine ⟨es' ++ es, by rw [htr', htr, List.append_assoc], fun e before k hsuffix he => ?_⟩
  obtain ⟨later, hlater⟩ := hsuffix
  rcases List.append_eq_append_iff.mp hlater with ⟨mid, hnew, hmid⟩ | ⟨mid, -, hold⟩
  · cases mid with
    | nil => exact hes e before k ⟨[], hmid⟩ he
    | cons e₁ mid =>
      -- a later entry, which what has revoked its token may precede among the later ones
      obtain ⟨rfl, rfl⟩ := List.cons.inj hmid
      obtain ⟨e', hmem, hrevokes⟩ := hes' e mid k ⟨later, hnew.symm⟩ he
      exact ⟨e', List.mem_append_left _ hmem, hrevokes⟩
  · exact hes e before k ⟨mid, hold.symm⟩ he

end InvokesLive

/-- Whatever new work has been begun for the call, its token was live at that moment, and so
was that of an invocation. Nothing is promised about the time after one of its own hooks has
cancelled the token. -/
inductive Heeds (site : Site) (t : Token) : World → World → Prop
  | dormant {w w' : World} (h : w.Dormant site.call w') : Heeds site t w w'
  /-- Something new is begun. -/
  | begun {w w' : World} {e : Entry} (hlive : w.isCancelled t = false)
      (h : w'.trace = e :: w.trace) (hcancelled : w.cancelled <:+ w'.cancelled)
      (hflag : ∀ k, e.record ≠ .invoked site.call k true) : Heeds site t w w'
  /-- The token is cancelled by a hook of the call. -/
  | hooked {w w' : World} {e : Event} (hlive : w.isCancelled t = false)
      (h : (w.emit site e).isCancelled t = true) (hrest : (w.emit site e).trace <:+ w'.trace) :
      Heeds site t w w'
  | trans {w w₁ w₂ : World} (h : Heeds site t w w₁) (h' : Heeds site t w₁ w₂) : Heeds site t w w₂

namespace Heeds

theorem refl (w : World) : w.Heeds site t w := .dormant (.refl w)

/-- **Nothing new is begun under a cancelled token.** -/
theorem dormant_of_cancelled (h : w.Heeds site t w') (hc : w.isCancelled t = true) :
    w.Dormant site.call w' := by
  have hdead : ∀ {w : World}, w.isCancelled t = true → w.isCancelled t = false → False := by
    intro w h h'
    rw [h] at h'
    cases h'
  induction h with
  | dormant h => exact h
  | begun hlive => exact (hdead hc hlive).elim
  | hooked hlive => exact (hdead hc hlive).elim
  | trans _ _ ih ih' =>
    have hfirst := ih hc
    exact hfirst.trans (ih' (isCancelled_of_suffix hfirst.cancelled hc))

/-- **No invocation is recorded under a cancelled token** unless a hook has cancelled it. -/
theorem invokesLive (h : w.Heeds site t w') : w.InvokesLive site t w' := by
  induction h with
  | dormant h =>
    obtain ⟨es, htr, hes⟩ := h.quiet.trace
    refine .of_entries htr fun e he k hinvoked => ?_
    have hquiet := hes e he
    rw [Entry.begins, hinvoked] at hquiet
    exact absurd (decide_eq_true (rfl : site.call = site.call)) (Bool.eq_false_iff.mp hquiet)
  | @begun w w' e hlive h _ hflag =>
    have htr : w'.trace = [e] ++ w.trace := h
    exact .of_entries htr fun e' he => List.mem_singleton.mp he ▸ hflag
  | @hooked w w' e hlive h hrest =>
    obtain ⟨es, htr⟩ := hrest
    rw [emit_trace] at htr
    refine ⟨es ++ [⟨w.now, .event site e⟩], ?_, fun e' before k hsuffix he' => ?_⟩
    · rw [← htr, List.append_assoc, List.singleton_append]
    · -- the event comes first, so it is before the invocation
      have hlast := hsuffix.getLast (List.cons_ne_nil e' before)
      rw [List.getLast_append_singleton] at hlast
      have hmem := hlast ▸ List.getLast_mem (List.cons_ne_nil e' before)
      rcases List.mem_cons.mp hmem with rfl | hmem
      · cases he'
      · have hcancels := cancels_of_emit hlive h
        exact ⟨_, hmem, by simp [Record.revokes, hcancels]⟩
  | trans _ _ ih ih' => exact ih.trans ih'

/-- Whoever heeds a token heeds the tokens above it. -/
theorem mono (h : w.Heeds site u w') (hu : t.governs u = true) : w.Heeds site t w' := by
  have hup : ∀ {w : World}, w.isCancelled u = false → w.isCancelled t = false := by
    intro w hlive
    refine Bool.eq_false_iff.mpr fun hc => ?_
    rw [isCancelled_of_governs hc hu] at hlive
    cases hlive
  induction h with
  | dormant h => exact .dormant h
  | begun hlive h hcancelled hflag => exact .begun (hup hlive) h hcancelled hflag
  | @hooked w w' e hlive h hrest =>
    -- a hook cancels root tokens, and those are above both
    have hspares := w.spares_emit site e t
    refine .hooked (hup hlive) ?_ hrest
    rcases hspares.isCancelled_or (c := site.call) (show t.Below site.call u from hu) h with hold | hall
    · rw [hlive] at hold
      cases hold
    · exact hall
  | trans _ _ ih ih' => exact ih.trans ih'

end Heeds

end World

/-! ### Scripts -/

/-- A scripted operation begins its invocation when it is started, and nothing after that. -/
theorem Script.dormant (script : Script) (id : CallId) :
    ∃ keeps, (script.operation id).Attends id [] keeps ∧
      (∀ {t} {w : World}, w.Ready w.minted t →
        (w.invoke id (w.invoked id).length t).Dormant id ((script.operation id).start t w).2) ∧
      ∀ {m t s w}, w.Ready m t → keeps m t s w →
        w.Dormant id ((script.operation id).resume s w).2 := by
  choose keeps hbody using fun k => scriptBody_docile id k k script
  let body := fun k => scriptBody id k k script
  have hpost : ∀ k t (out : Status (body k).State Ending × World), out.2.Dormant id
      (Status.lift (Sigma.mk (β := fun k => (invocation id k (body k)).State) k)
        (invocation.conclude id k (body k) t out)).2 := by
    rintro k t ⟨s | (r | x) | x, w⟩
    · exact .refl w
    · exact .note w rfl
    · exact .note w rfl
    · exact .release w (.invocation id k t)
  refine ⟨_, .numbered hbody, fun {t w} hw => ?_, ?_⟩
  · let k := (w.invoked id).length
    have hinvoked : w.Confined (.ofCall id [] t) w.minted (w.invoke id k t) :=
      .invoke w (.refl _ t) fun _ => Scope.records_ofCall rfl nofun
    have hstart := (hbody k).start_after (i := ⟨t, .ok ""⟩) (hinvoked.ready hw) (.refl _ _ _)
    exact (World.Dormant.of_body hstart.confined).trans (hpost k t _)
  · rintro m _ ⟨k, t, s⟩ w hw ⟨rfl, hs⟩
    exact (World.Dormant.of_body ((hbody k).resume hw hs).confined).trans (hpost k t _)

/-! ### Activities that heed their token -/

/-- Whatever the activity begins for its call, it looks at the token first. Under a token
that is cancelled already, it invokes the operation once at most. Nothing is promised when a
wait is `due` at an instant and the token is found cancelled. -/
structure Activity.Minds (a : Activity Token ο) (site : Site)
    (keeps : (CallId → Nat) → Token → a.State → World → Prop) (due : a.State → Nat → Prop) :
    Prop where
  start : ∀ {t} {w : World}, w.Ready w.minted t → w.isCancelled t = false →
    w.Heeds site t (a.start t w).2
  late : ∀ {t} {w : World}, w.Ready w.minted t → w.isCancelled t = true →
    w.Once site.call (a.start t w).2
  resume : ∀ {m t s w}, w.Ready m t → keeps m t s w →
    (w.isCancelled t = true → ¬due s w.now) → w.Heeds site t (a.resume s w).2

namespace Activity.Minds

section

variable {a : Activity Token ο} {keeps : (CallId → Nat) → Token → a.State → World → Prop}
  {due : a.State → Nat → Prop} (h : a.Minds site keeps due)

include h

theorem start_child (hw : w.Ready m t) (hu : w.Fosters site.call m t u)
    (hlive : w.isCancelled t = false) : w.Heeds site t (a.start u w).2 := by
  have hstart := h.start ⟨hw.sane, hu.made, fun _ => Nat.le_refl _⟩ (hu.isCancelled_eq.trans hlive)
  exact hstart.mono hu.governs

theorem late_child (hw : w.Ready m t) (hu : w.Fosters site.call m t u)
    (hc : w.isCancelled t = true) : w.Once site.call (a.start u w).2 :=
  h.late ⟨hw.sane, hu.made, fun _ => Nat.le_refl _⟩ (hu.isCancelled_eq.trans hc)

theorem resume_child {s : a.State} (hs : Raised site.call keeps m t u s w)
    (hdue : w.isCancelled t = true → ¬due s w.now) : w.Heeds site t (a.resume s w).2 := by
  obtain ⟨hu, m', -, -, hready, hkept⟩ := hs
  exact (h.resume hready hkept fun hc => hdue (hu.isCancelled_eq.symm.trans hc)).mono hu.governs

theorem after {ο' : Type} {f : ο → World → ο' × World}
    (hf : ∀ o (w : World), w.Dormant site.call (f o w).2) : (a.after f).Minds site keeps due := by
  have hpost : ∀ out : Status a.State ο × World,
      out.2.Dormant site.call (Activity.after.follow f a out).2 :=
    Activity.after.follow_rel a World.Dormant.refl hf
  exact ⟨fun hw hlive => (h.start hw hlive).trans (.dormant (hpost _)),
    fun hw hc => (h.late hw hc).dormant (hpost _),
    fun hw hs hdue => (h.resume hw hs hdue).trans (.dormant (hpost _))⟩

/-- What is asked for first may make a hook cancel the token. -/
theorem holding {η : Type} {held : η → Holding} {take : World → Except ο η × World}
    {give : η → ο → World → World}
    (hconfined : ∀ {m t} {w : World}, w.Confined (.ofCall site.call kinds t) m (take w).2)
    (htake : ∀ w : World, w.Dormant site.call (take w).2)
    (hhooked : ∀ {t x w' w''} {w : World}, w.isCancelled t = false → take w = (.ok x, w') →
      w'.isCancelled t = true → w'.trace <:+ w''.trace → w.Heeds site t w'')
    (hgive : ∀ x o (w : World), w.Dormant site.call (give x o w)) :
    (a.holding held take give).Minds site (fun m t s => keeps m t s.2)
      (fun s now => due s.2 now) := by
  -- what is given back in the end begins nothing
  have hpost : ∀ x (out : Status a.State ο × World),
      out.2.Dormant site.call (Activity.holding.keep held give a x out).2 :=
    Activity.holding.keep_rel a World.Dormant.refl hgive fun _ w => .release w _
  refine ⟨fun {t w} hw hwlive => ?_, fun {t w} hw hc => ?_,
    fun hw hs hdue => (h.resume hw hs hdue).trans (.dormant (hpost _ _))⟩
  · have htaken := htake w
    have hready := (hconfined (m := w.minted) (t := t) (w := w)).ready hw
    cases htk : take w with
    | mk e w₁ =>
      rw [htk] at htaken hready
      cases e with
      | error o =>
        rw [holding_start_error htk]
        exact .dormant htaken
      | ok x =>
        rw [holding_start_ok htk]
        -- a hook may have cancelled the token while something was taken
        cases hc₁ : w₁.isCancelled t with
        | false =>
          have hstart := h.start hready.later hc₁
          exact (World.Heeds.dormant htaken).trans (hstart.trans (.dormant (hpost _ _)))
        | true =>
          have hlate := (h.late hready.later hc₁).dormant (hpost x (a.start t w₁))
          exact hhooked hwlive htk hc₁ hlate.suffix_trace
  -- under a cancelled token the one invocation is that of what is inside
  · have htaken := htake w
    have hready := (hconfined (m := w.minted) (t := t) (w := w)).ready hw
    cases htk : take w with
    | mk e w₁ =>
      rw [htk] at htaken hready
      cases e with
      | error o =>
        rw [holding_start_error htk]
        exact htaken.once
      | ok x =>
        rw [holding_start_ok htk]
        have hc₁ := World.isCancelled_of_suffix htaken.cancelled hc
        exact htaken.then_once ((h.late hready.later hc₁).dormant (hpost _ _))

theorem within (length : Duration) :
    (a.within site.call length).Minds site
      (fun m t s => Raised site.call keeps m t s.token s.inner)
      (fun s now => due s.inner now) := by
  have hpost : ∀ u d (out : Status a.State ο × World),
      out.2.Dormant site.call (Activity.within.check a u d out).2 :=
    fun u d => Activity.within.check_rel a World.Dormant.refl u
      (fun hs w => (World.Dormant.releaseAll w hs).trans (.cancel _ u)) d
  refine ⟨fun {t w} hw hlive => ?_, fun {t w} hw hc => ?_,
    fun hw hs hdue => (h.resume_child hs hdue).trans (.dormant (hpost _ _ _))⟩
  · have hminted : w.Dormant site.call (w.mint site.call t).2 := .mint w site.call t
    have hstart := h.start_child (hw.mint site.call t) (.mint hw) hlive
    exact (World.Heeds.dormant hminted).trans (hstart.trans (.dormant (hpost _ _ _)))
  · have hminted : w.Dormant site.call (w.mint site.call t).2 := .mint w site.call t
    have hlate := h.late_child (hw.mint site.call t) (.mint hw) hc
    exact hminted.then_once (hlate.dormant (hpost _ _ _))

end

/-- A scripted operation begins its invocation, and nothing else. -/
theorem script (script : Script) (site : Site) :
    ∃ keeps, (script.operation site.call).Attends site.call [] keeps ∧
      (script.operation site.call).Minds site keeps (fun _ _ => False) := by
  obtain ⟨keeps, hattends, hstart, hresume⟩ := script.dormant site.call
  refine ⟨keeps, hattends, fun {t w} hw hlive => ?_, fun {t w} hw hc => ?_,
    fun hw hs _ => .dormant (hresume hw hs)⟩
  · refine (World.Heeds.begun hlive (w.invoke_trace _ _ _) (List.suffix_refl _)
      fun k' hinvoked => ?_).trans (.dormant (hstart hw))
    rw [hlive] at hinvoked
    cases hinvoked
  · exact (World.Once.invoke w site.call _ t).dormant (hstart hw)

end Activity.Minds

/-! ### Gates and endings -/

namespace World

variable (site) in
theorem Dormant.acquirePermit (w : World) (s : BreakerSettings) :
    w.Dormant id (acquirePermit site s w).2 := by
  unfold Operation.acquirePermit
  split <;> dsimp only
  · exact (Dormant.setBreaker w site _).trans (.note _ rfl)
  · exact (Dormant.setBreaker w site _).trans (.emit _ site rfl)

variable (site) in
theorem Dormant.takeSlot (w : World) (capacity : Nat) : w.Dormant id (takeSlot site capacity w).2 := by
  unfold Operation.takeSlot
  split <;> dsimp only
  · exact (Dormant.modifyGates w _ _).trans (.emit _ site rfl)
  · exact .emit w site rfl

theorem Heeds.setBreaker_hooked {b : Breaker} (hlive : w.isCancelled t = false)
    (hc : (w.setBreaker site b).isCancelled t = true)
    (hrest : (w.setBreaker site b).trace <:+ w'.trace) : w.Heeds site t w' := by
  unfold World.setBreaker at hc hrest
  dsimp only at hc hrest
  by_cases hsame : b.state = (w.gatesOf site).breaker.state
  · rw [if_pos hsame] at hc
    have hold : w.isCancelled t = true := hc
    rw [hlive] at hold
    cases hold
  · rw [if_neg hsame] at hc hrest
    exact (Heeds.dormant (.modifyGates w _ _)).trans (.hooked hlive hc hrest)

theorem Heeds.takeSlot_hooked {capacity : Nat} {x : Unit} (hlive : w.isCancelled t = false)
    (h : Operation.takeSlot site capacity w = (.ok x, w₁)) (hc : w₁.isCancelled t = true)
    (hrest : w₁.trace <:+ w'.trace) : w.Heeds site t w' := by
  obtain ⟨-, rfl⟩ := takeSlot_ok site w h
  exact (Heeds.dormant (.modifyGates w _ _)).trans (.hooked hlive hc hrest)

end World

variable {op : Operation} {keeps : (CallId → Nat) → Token → op.State → World → Prop}
  {due : op.State → Nat → Prop}

namespace Activity.Minds

theorem withFallback (value : String) (h : op.Minds site keeps due) :
    (withFallback site value op).Minds site keeps due := by
  refine h.after fun r w => ?_
  cases r with
  | ok v => exact .refl w
  | error f => exact .emit w site rfl

theorem withTimeout (length : Duration) (h : op.Minds site keeps due) :
    (withTimeout site length op).Minds site
      (fun m t s => Raised site.call keeps m t s.token s.inner) (fun s now => due s.inner now) := by
  refine (h.within length).after fun r w => ?_
  cases r with
  | some r => exact .refl w
  | none => exact .emit w site rfl

theorem behindBreaker (s : BreakerSettings) (h : op.Minds site keeps due) :
    (behindBreaker site s op).Minds site (fun m t s => keeps m t s.2)
      (fun s now => due s.2 now) := by
  have hconfined : ∀ {m t} {w : World},
      w.Confined (.ofCall site.call [.breaker] t) m (acquirePermit site s w).2 :=
    fun {_ t w} => .acquirePermit site t w s List.mem_cons_self
  refine h.holding hconfined (fun w => .acquirePermit site w s)
    (fun {t p w' w'' w} hlive hp hc hrest => ?_) fun p r w => .settlePermit w site s p _
  obtain ⟨b, -, rfl⟩ := World.acquirePermit_ok hp
  exact .setBreaker_hooked hlive hc ((List.suffix_cons _ _).trans hrest)

theorem behindBulkhead (capacity : Nat) (h : op.Minds site keeps due) :
    (behindBulkhead site capacity op).Minds site (fun m t s => keeps m t s.2)
      (fun s now => due s.2 now) := by
  have hconfined : ∀ {m t} {w : World},
      w.Confined (.ofCall site.call [.bulkhead] t) m (takeSlot site capacity w).2 :=
    fun {_ t w} => .takeSlot site t w capacity List.mem_cons_self
  exact h.holding hconfined (fun w => .takeSlot site w capacity) World.Heeds.takeSlot_hooked
    fun _ _ w => .release w _

theorem behindRateLimit (limit : RateLimit) (h : op.Minds site keeps due) :
    (behindRateLimit site limit op).Minds site keeps due := by
  -- asking the bucket invokes nothing, whatever it answers
  have htaken : ∀ {t w'} {w : World}, w.Ready w.minted t → takeToken site limit w = (true, w') →
      w.Dormant site.call (w'.note (.gate site .tokenTaken)) ∧
        (w'.note (.gate site .tokenTaken)).Ready (w'.note (.gate site .tokenTaken)).minted t := by
    intro t w' w hw htk
    obtain ⟨bucket, rfl⟩ := takeToken_eq site w htk
    have hready := (World.Confined.of_takeToken (m := w.minted) site t htk).ready hw
    exact ⟨(World.Dormant.modifyGates w _ _).trans (.note _ rfl), hready.later⟩
  have hrefused : ∀ {w w' : World}, takeToken site limit w = (false, w') →
      w.Dormant site.call (w'.emit site .rateLimited) := by
    intro w w' htk
    obtain ⟨bucket, rfl⟩ := takeToken_eq site w htk
    exact (World.Dormant.modifyGates w _ _).trans (.emit _ site rfl)
  refine ⟨fun {t w} hw hlive => ?_, fun {t w} hw hc => ?_, h.resume⟩
  · unfold Operation.behindRateLimit
    dsimp only
    split
    next w' htk =>
      obtain ⟨hdormant, hready⟩ := htaken hw htk
      -- the bucket does not touch the token, so what was live is live behind it
      have hlive' : w'.isCancelled t = false := by
        obtain ⟨bucket, rfl⟩ := takeToken_eq site w htk
        exact hlive
      exact (World.Heeds.dormant hdormant).trans (h.start hready hlive')
    next w' htk => exact .dormant (hrefused htk)
  · unfold Operation.behindRateLimit
    dsimp only
    split
    next w' htk =>
      obtain ⟨hdormant, hready⟩ := htaken hw htk
      exact hdormant.then_once (h.late hready (World.isCancelled_of_suffix hdormant.cancelled hc))
    next w' htk => exact (hrefused htk).once

end Activity.Minds

/-! ### Retry -/

namespace World

variable (site) in
theorem Dormant.attemptResult (r : RetrySettings) (n : Nat) (o : Option Result) (w : World) :
    w.Dormant id (attemptResult site r n o w).2 := by
  unfold Operation.attemptResult
  split <;> dsimp only
  · exact .refl w
  · exact .emit w site rfl
  · exact .refl w

variable (site) in
/-- Under a cancelled token nobody is asked whether to go on. -/
theorem Heeds.mayRepeat (r : RetrySettings) (t : Token) (f : Failure) (w : World) :
    w.Heeds site t (mayRepeat site r t f w).2 := by
  unfold Operation.mayRepeat
  split
  · exact .refl w
  next hlive =>
    split
    · exact .refl w
    · exact .begun (Bool.eq_false_iff.mpr hlive) (w.note_trace _) (List.suffix_refl _) nofun

/-- Only under a live token it goes on. -/
theorem isCancelled_of_mayRepeat {r : RetrySettings} {f : Failure}
    (h : Operation.mayRepeat site r t f w = (true, w₁)) : w₁.isCancelled t = false := by
  unfold Operation.mayRepeat at h
  split at h
  · cases h
  next hlive =>
    split at h <;> obtain ⟨-, rfl⟩ := Prod.mk.inj h <;> exact Bool.eq_false_iff.mpr hlive

theorem Dormant.nextDelay (r : RetrySettings) (n : Nat) (w : World) :
    w.Dormant id (nextDelay r n w).2 := by
  unfold Operation.nextDelay
  split
  · exact .draw w
  · exact .refl w

/-- The choice of a delay neither cancels nor records anything. -/
theorem nextDelay_leaves (r : RetrySettings) (n : Nat) (w : World) :
    (nextDelay r n w).2.cancelled = w.cancelled ∧ (nextDelay r n w).2.trace = w.trace := by
  unfold Operation.nextDelay
  split <;> exact ⟨rfl, rfl⟩

section

variable {r : RetrySettings} {n : Nat} {o : Option Result} {f : Failure}

theorem Heeds.judged {again : Bool} (h₁ : Operation.attemptResult site r n o w = (.error f, w₁))
    (h₂ : Operation.mayRepeat site r t f w₁ = (again, w₂)) : w.Heeds site t w₂ := by
  have hresult : w.Dormant site.call _ := .attemptResult site r n o w
  have hmay := Heeds.mayRepeat site r t f w₁
  rw [h₁] at hresult
  rw [h₂] at hmay
  exact (Heeds.dormant hresult).trans hmay

theorem Heeds.repeated {delay : Duration} {w₃ : World}
    (h₁ : Operation.attemptResult site r n o w = (.error f, w₁))
    (h₂ : Operation.mayRepeat site r t f w₁ = (true, w₂))
    (h₃ : Operation.nextDelay r n (w₂.emit site (.retrying n f)) = (delay, w₃)) :
    w.Heeds site t w₃ := by
  have hdelay : (w₂.emit site (.retrying n f)).Dormant site.call _ := .nextDelay r n _
  rw [h₃] at hdelay
  have htold : w₂.Heeds site t (w₂.emit site (.retrying n f)) :=
    .begun (isCancelled_of_mayRepeat h₂) (w₂.emit_trace _ _) (w₂.cancelled_emit _ _) nofun
  exact (Heeds.judged h₁ h₂).trans (htold.trans (.dormant hdelay))

/-- If the token is cancelled by the time that the next attempt is due, a hook has done it. -/
theorem Heeds.overtaken {delay : Duration} {w₃ : World}
    (h₁ : Operation.attemptResult site r n o w = (.error f, w₁))
    (h₂ : Operation.mayRepeat site r t f w₁ = (true, w₂))
    (h₃ : Operation.nextDelay r n (w₂.emit site (.retrying n f)) = (delay, w₃))
    (hc : w₃.isCancelled t = true) (hrest : w₃.trace <:+ w'.trace) : w.Heeds site t w' := by
  obtain ⟨hcancelled, htrace⟩ := nextDelay_leaves r n (w₂.emit site (.retrying n f))
  rw [h₃] at hcancelled htrace
  refine (Heeds.judged h₁ h₂).trans (.hooked (isCancelled_of_mayRepeat h₂) ?_ (htrace ▸ hrest))
  rw [isCancelled, ← hcancelled]
  exact hc

end

end World

namespace Activity.Minds

theorem attempt (r : RetrySettings) (h : op.Minds site keeps (fun _ _ => False)) :
    (attempt site r op).Minds site (attemptKeeps site op keeps r) (fun _ _ => False) := by
  obtain ⟨maxAttempts, backoff, maxDelay, attemptTimeout, retryIf⟩ := r
  cases attemptTimeout with
  | none => exact h.after fun _ w => .refl w
  | some length => exact h.within length

section

variable {r : RetrySettings} (hd : op.Attends site.call kinds keeps)
  (h : op.Minds site keeps (fun _ _ => False))

include hd h

/-- Whatever comes of an attempt, the layer heeds the token. -/
theorem proceed (t : Token) (left : Nat)
    (out : Status (Operation.attempt site r op).State (Option Result) × World)
    (hw : out.2.Ready m t) : out.2.Heeds site t (proceed site r t left out).2 := by
  have hmore : op.Attends site.call (.retry :: kinds) keeps :=
    hd.attends_mono (List.subset_cons_self _ _)
  -- the loop starts attempts that are due at once, so the induction is on those left
  fun_induction Operation.proceed site r t left out
  case case1 left inner w => exact .refl w
  case case2 left x w => exact .refl w
  case case3 left o w n v w₁ h₁ =>
    have hresult : w.Dormant site.call _ := .attemptResult site r n o w
    rw [h₁] at hresult
    exact .dormant hresult
  case case4 left o w n f w₁ h₁ w₂ h₂ => exact .judged h₁ h₂
  case case5 o w f w₁ w₂ h₂ n h₁ => exact .judged h₁ h₂
  case case6 o w f w₁ w₂ h₂ left delay w₃ wakeAt n h₁ h₃ hcancel => exact .repeated h₁ h₂ h₃
  case case7 o w f w₁ w₂ h₂ left delay w₃ wakeAt hdue n h₁ h₃ hlive ih =>
    have hrepeated : w.Confined (.ofCall site.call (.retry :: kinds) t) m w₃ :=
      .repeated site r w t List.mem_cons_self h₁ h₂ h₃
    have hready := (hrepeated.ready hw).later
    have hbegun := (hmore.attempt r).start hready
    cases hc : w₃.isCancelled t with
    | false =>
      have hnext := ih (hbegun.confined.ready (hrepeated.ready hw))
      exact (World.Heeds.repeated h₁ h₂ h₃).trans (((h.attempt r).start hready hc).trans hnext)
    | true =>
      -- the wait was over as soon as the hook had cancelled the token
      have hrest := hmore.proceed r List.mem_cons_self t left _ hready hbegun
      exact .overtaken h₁ h₂ h₃ hc hrest.confined.suffix_trace
  case case8 o w f w₁ w₂ h₂ left delay w₃ wakeAt hlate n h₁ h₃ hlive =>
    exact .repeated h₁ h₂ h₃

theorem withRetry :
    (withRetry site r op).Minds site (RetryState.Keeps (attemptKeeps site op keeps r))
      (fun s now => ∃ token left wakeAt, s = .waiting token left wakeAt ∧ wakeAt ≤ now) := by
  have ha := h.attempt r
  have hda := hd.attempt r
  refine ⟨fun {t w} hw hlive => ?_, fun {t w} hw hc => ?_, fun {m t s w} hw hs hdue => ?_⟩
  · have hready := (hda.start hw).confined.ready hw
    exact (ha.start hw hlive).trans (h.proceed hd t _ _ hready)
  · have hready := (hda.start hw).confined.ready hw
    -- the attempt found the token cancelled, so the loop behind it starts nothing
    have hlate := ha.late hw hc
    have hc' := World.isCancelled_of_suffix hlate.cancelled hc
    exact hlate.dormant ((h.proceed hd t _ _ hready).dormant_of_cancelled hc')
  · cases s with
    | trying token left inner =>
      obtain ⟨rfl, hkept⟩ := hs
      have hready := (hda.resume hw hkept).confined.ready hw
      exact (ha.resume hw hkept fun _ => id).trans (h.proceed hd token _ _ hready)
    | waiting token left wakeAt =>
      obtain rfl : token = t := hs
      rw [resume_waiting]
      split
      · exact .refl w
      · split
        -- the wait is over, which the hypothesis allows under a live token alone
        next hwake =>
          have hlive : w.isCancelled token = false :=
            Bool.eq_false_iff.mpr fun hc => hdue hc ⟨_, _, _, rfl, hwake⟩
          have hready := (hda.start hw.later).confined.ready hw
          exact (ha.start hw.later hlive).trans (h.proceed hd token _ _ hready)
        · exact .refl w

end

/-! ### Hedge -/

section

variable {delay : Duration} (hd : op.Attends site.call kinds keeps)
  (h : op.Minds site keeps (fun _ _ => False))

/-- Whatever comes of the rival, nothing new is begun. -/
theorem judgeRival (u v : Token) (first : op.State) (out : Status op.State Result × World) :
    out.2.Dormant site.call (judgeRival site u first v out).2 := by
  rcases out with ⟨rival | r | x, w⟩
  · exact .refl w
  · have htold : (w.cancel u).Dormant site.call ((w.cancel u).emit site .hedgeWon) :=
      .emit _ site rfl
    exact (World.Dormant.cancel w u).trans (htold.trans (.releaseAll _ _))
  · exact .releaseAll w _

@[simp] theorem judgeAlone_snd (out : Status op.State Result × World) :
    (judgeAlone out).2 = out.2 := by
  rcases out with ⟨_ | _ | _, w⟩ <;> rfl

section

variable (hk : .hedge ∈ kinds)

include hk hd h

/-- The second attempt is launched under a live token. -/
theorem launch {first : op.State} (hw : w.Ready m t)
    (hfirst : Lodges site.call kinds op keeps m t u first w) :
    w.Heeds site t (launch site delay t u first w).2 := by
  rw [Operation.launch_eq]
  split
  · rw [judgeAlone_snd]
    exact h.resume_child hfirst.raised fun _ => id
  next hlive =>
    replace hlive := Bool.eq_false_iff.mpr hlive
    let w₁ := w.emit site (.hedgeLaunched delay)
    let w₂ := (w₁.mint site.call t).2
    let v := (w₁.mint site.call t).1
    cases hlive₁ : w₁.isCancelled t with
    | true =>
      have hrest := (Docile.launch_live hk hd delay hw hfirst hlive).confined
      rw [Operation.launch_eq, if_neg (Bool.eq_false_iff.mp hlive)] at hrest
      exact .hooked hlive hlive₁ hrest.suffix_trace
    | false =>
      have hspares := w.spares_emit site (.hedgeLaunched delay) t
      have htold : w.Confined (.ofCall site.call [.hedge] t) m w₁ :=
        .emit w (Scope.records_event site t List.mem_cons_self)
      have hready₁ := htold.ready hw
      have hbelow := hspares.alike hlive₁
      have halike : w.Alike (Scope.ofCall site.call kinds t).acts w₂ :=
        ⟨fun {c _} hx => hbelow.isCancelled (c := c) (Serves.governs hx)⟩
      have hnow : w₂.now = w.now := w.emit_now site (.hedgeLaunched delay)
      -- nothing comes of the second look at the first attempt
      rw [hfirst.rests hlive halike (hnow ▸ hfirst.atRest.due)]
      have hlaunched : w.Heeds site t w₁ :=
        .begun hlive (w.emit_trace _ _) (w.cancelled_emit _ _) nofun
      have hstart : w₂.Heeds site t (op.start v w₂).2 :=
        h.start_child (hready₁.mint site.call t) (.mint hready₁) hlive₁
      exact hlaunched.trans ((World.Heeds.dormant (.mint w₁ site.call t)).trans
        (hstart.trans (.dormant (judgeRival u v first _))))

theorem judgeFirst {launchAt : Nat} {out : Status op.State Result × World} (hw : out.2.Ready m t)
    (hlands : Lands (Lodges site.call kinds op keeps m t u) (fun _ => True) out) :
    out.2.Heeds site t (judgeFirst site delay t u launchAt out).2 := by
  rcases out with ⟨first | r | x, w⟩
  · unfold Operation.judgeFirst
    dsimp only
    split
    · exact h.launch hd hk hw hlands
    · exact .refl w
  · exact .refl w
  · exact .refl w

end

include hd h

theorem withHedge :
    (withHedge site delay op).Minds site (HedgeState.Keeps site.call keeps) (fun _ _ => False) := by
  have hmore : op.Attends site.call (.hedge :: kinds) keeps :=
    hd.attends_mono (List.subset_cons_self _ _)
  -- once the first attempt has been looked at, a rival may be launched
  have hstart : ∀ {t} {w : World}, w.Ready w.minted t →
      let u := (w.mint site.call t).1
      let out := op.start u (w.mint site.call t).2
      out.2.Heeds site t ((Operation.withHedge site delay op).start t w).2 := by
    intro t w hw u out
    have hready := hw.mint site.call t
    have hfirst := hmore.start_child hready (.mint hw)
    exact h.judgeFirst hmore List.mem_cons_self (hfirst.confined.ready hready) hfirst.lands
  refine ⟨fun {t w} hw hlive => ?_, fun {t w} hw hc => ?_, fun {m t s w} hw hs _ => ?_⟩
  · have hfirst := h.start_child (hw.mint site.call t) (.mint hw) hlive
    exact (World.Heeds.dormant (.mint w site.call t)).trans (hfirst.trans (hstart hw))
  · have hfirst := h.late_child (hw.mint site.call t) (.mint hw) hc
    have hc' := World.isCancelled_of_suffix hfirst.cancelled hc
    have hrest := (hstart hw).dormant_of_cancelled hc'
    exact (World.Dormant.mint w site.call t).then_once (hfirst.dormant hrest)
  · cases s with
    -- the delay may be over, so the rival may start at this look
    | early caller u launchAt first =>
      obtain ⟨rfl, hraised⟩ := hs
      have hresume := hmore.resume_child hraised
      exact (h.resume_child hraised fun _ => id).trans
        (h.judgeFirst hmore List.mem_cons_self (hresume.confined.ready hw) hresume.lands)
    | alone first =>
      obtain ⟨u, hraised⟩ := hs
      show w.Heeds site t (Operation.judgeAlone (op.resume first w)).2
      rw [judgeAlone_snd]
      exact h.resume_child hraised fun _ => id
    | racing u first v rival =>
      obtain ⟨hne, hfirst, hrival⟩ := hs
      have hheeds := h.resume_child hfirst fun _ => id
      have hrival' := hd.raised_beside hw hfirst hrival hne.symm
      -- no further attempt starts while two are under way
      rw [Operation.withHedge_resume_racing]
      split
      next first' w₁ heq =>
        rw [heq] at hheeds hrival'
        exact hheeds.trans ((h.resume_child hrival' fun _ => id).trans
          (.dormant (judgeRival u v first' _)))
      next r w₁ heq =>
        rw [heq] at hheeds
        exact hheeds.trans (.dormant ((World.Dormant.cancel w₁ v).trans (.releaseAll _ _)))
      next x w₁ heq =>
        rw [heq] at hheeds
        exact hheeds.trans (.dormant (.releaseAll w₁ _))

end

end Activity.Minds

/-! ### Waiting to repeat an attempt -/

/-- Does the suspended layer wait to repeat a failed attempt, and is the next one `due` at an
instant of a certain sort? It may also be what is inside that waits. -/
def Layer.Waits (site : Site) (op : Operation) (due : Nat → Prop) (inside : op.State → Prop) :
    (l : Layer) → (l.apply site op).State → Prop
  | .fallback _, s => inside s
  | .timeout _, s => inside s.inner
  | .breaker _, s => inside s.2
  | .rateLimit _, s => inside s
  | .bulkhead _, s => inside s.2
  | .retry _, s => ∃ token left wakeAt, s = .waiting token left wakeAt ∧ due wakeAt
  | .hedge _, _ => False

/-- Does the suspended call wait to repeat a failed attempt that is `due` at such an instant? -/
def stackWaits (site : Site) (op : Operation) (due : Nat → Prop) :
    (layers : List Layer) → (stack site layers op).State → Prop
  | [] => fun _ => False
  | l :: rest => l.Waits site (stack site rest op) due (stackWaits site op due rest)

/-- The instant may be of a sort that says less. -/
theorem stackWaits_mono {due due' : Nat → Prop} (hdue : ∀ wakeAt, due wakeAt → due' wakeAt)
    {layers : List Layer} {s : (stack site layers op).State}
    (h : stackWaits site op due layers s) : stackWaits site op due' layers s := by
  induction layers with
  | nil => exact h
  | cons l rest ih =>
    cases l with
    | retry r =>
      obtain ⟨token, left, wakeAt, rfl, hwake⟩ := h
      exact ⟨token, left, wakeAt, rfl, hdue wakeAt hwake⟩
    | hedge delay => exact h
    | _ => exact ih h

/-- Nothing within the retry layer waits to repeat an attempt. -/
theorem not_stackWaits {due : Nat → Prop} {layers : List Layer}
    (h : ∀ l ∈ layers, LayerKind.retry.position < l.kind.position)
    (s : (stack site layers op).State) : ¬stackWaits site op due layers s := by
  cases layers with
  | nil => exact id
  | cons l rest =>
    have hpos := h l List.mem_cons_self
    cases l with
    | hedge delay => exact id
    | _ => exact absurd hpos (by simp [Layer.kind, LayerKind.position])

/-! ### All the layers -/

/-- **Layers around an operation** that minds its token mind it, too. -/
theorem Activity.Minds.stack (site : Site) {op : Operation}
    {keeps : (CallId → Nat) → Token → op.State → World → Prop} {layers : List Layer}
    (hordered : layers.Pairwise fun a b => a.kind.position < b.kind.position)
    (hd : op.Attends site.call kinds keeps) (h : op.Minds site keeps (fun _ _ => False)) :
    (stack site layers op).Minds site (stackKeeps site op keeps layers)
      (fun s now => stackWaits site op (· ≤ now) layers s) := by
  induction layers with
  | nil => exact h
  | cons l rest ih =>
    obtain ⟨hbelow, hrest⟩ := List.pairwise_cons.mp hordered
    have hinner := ih hrest
    have hattends := hd.stack site rest
    -- a wait of its own is the only one that the layer has to do with
    have hquiet : LayerKind.retry.position ≤ l.kind.position →
        (CallPolicy.stack site rest op).Minds site (stackKeeps site op keeps rest)
          (fun _ _ => False) := by
      intro hpos
      have hnone : (fun s now => stackWaits site op (· ≤ now) rest s) = fun _ _ => False := by
        funext s now
        exact propext ⟨not_stackWaits (fun l' hl' => Nat.lt_of_le_of_lt hpos (hbelow l' hl')) s,
          False.elim⟩
      exact hnone ▸ hinner
    cases l with
    | fallback value => exact hinner.withFallback value
    | timeout length => exact hinner.withTimeout length
    | breaker s => exact hinner.behindBreaker s
    | rateLimit limit => exact hinner.behindRateLimit limit
    | bulkhead capacity => exact hinner.behindBulkhead capacity
    | retry r => exact (hquiet (Nat.le_refl _)).withRetry hattends
    | hedge delay => exact (hquiet (by simp [Layer.kind, LayerKind.position])).withHedge hattends

/-! ### Waits under a live token -/

/-- Whoever looks at the activity leaves it waiting under a live token only. -/
structure Activity.WaitsLive (a : Activity Token ο)
    (keeps : (CallId → Nat) → Token → a.State → World → Prop) (waits : a.State → Prop) :
    Prop where
  start : ∀ {t s w'} {w : World}, w.Ready w.minted t → a.start t w = (.pending s, w') →
    waits s → w'.isCancelled t = false
  resume : ∀ {m t s s' w'} {w : World}, w.Ready m t → keeps m t s w →
    a.resume s w = (.pending s', w') → waits s' → w'.isCancelled t = false

/-- Under a live token a layer goes on to wait. -/
theorem Operation.live_of_waiting {r : RetrySettings} {a : Activity Token (Option Result)}
    {left : Nat} {out : Status a.State (Option Result) × World} {token : Token} {left' wakeAt : Nat}
    (h : proceed site r t left out = (.pending (.waiting token left' wakeAt), w)) :
    w.isCancelled t = false := by
  fun_induction Operation.proceed site r t left out
  case case7 ih => exact ih h
  case case8 hlate _ _ _ hstays =>
    obtain ⟨-, rfl⟩ := Prod.mk.inj h
    rw [givesUp_of_lt (Nat.lt_of_not_le hlate)] at hstays
    exact Bool.eq_false_iff.mpr hstays
  all_goals cases h

namespace Activity.WaitsLive

section

variable {a : Activity Token ο} {keeps : (CallId → Nat) → Token → a.State → World → Prop}
  {waits : a.State → Prop}

theorem never (h : ∀ s, ¬waits s) : a.WaitsLive keeps waits :=
  ⟨fun _ _ hs => absurd hs (h _), fun _ _ _ hs => absurd hs (h _)⟩

variable (h : a.WaitsLive keeps waits)

include h

theorem after {ο' : Type} (f : ο → World → ο' × World) : (a.after f).WaitsLive keeps waits := by
  have hpost : ∀ {s w'} {out : Status a.State ο × World},
      Activity.after.follow f a out = (.pending s, w') → out = (.pending s, w') := by
    rintro s w' ⟨s | o | x, w⟩ heq <;> cases heq
    rfl
  exact ⟨fun hw heq => h.start hw (hpost heq), fun hw hs heq => h.resume hw hs (hpost heq)⟩

theorem holding {η : Type} {held : η → Holding} {take : World → Except ο η × World}
    {give : η → ο → World → World}
    (htake : ∀ {m t} {w : World}, w.Confined (.ofCall site.call kinds t) m (take w).2) :
    (a.holding held take give).WaitsLive (fun m t s => keeps m t s.2) (fun s => waits s.2) := by
  have hpost : ∀ {x s w'} {out : Status a.State ο × World},
      Activity.holding.keep held give a x out = (.pending s, w') → out = (.pending s.2, w') := by
    rintro x s w' ⟨s | o | y, w⟩ heq <;> cases heq
    rfl
  refine ⟨fun {t s w' w} hw heq hs => ?_, fun hw hs heq => h.resume hw hs (hpost heq)⟩
  have hready := (htake (m := w.minted) (t := t) (w := w)).ready hw
  cases htk : take w with
  | mk e w₁ =>
    rw [htk] at hready
    cases e with
    | error o => cases (holding_start_error htk).symm.trans heq
    | ok x => exact h.start hready.later (hpost ((holding_start_ok htk).symm.trans heq)) hs

theorem within (length : Duration) : (a.within site.call length).WaitsLive
    (fun m t s => Raised site.call keeps m t s.token s.inner) (fun s => waits s.inner) := by
  have hpost : ∀ {u d s w'} {out : Status a.State ο × World},
      Activity.within.check a u d out = (.pending s, w') → out = (.pending s.inner, w') := by
    rintro u d s w' ⟨s | o | x, w⟩ heq
    · unfold Activity.within.check at heq
      dsimp only at heq
      split at heq <;> cases heq
      rfl
    · cases heq
    · cases heq
  have hup : ∀ {u t} {w : World}, t.governs u = true → w.isCancelled u = false →
      w.isCancelled t = false := fun hu hlive =>
    Bool.eq_false_iff.mpr fun hc =>
      Bool.eq_false_iff.mp hlive (World.isCancelled_of_governs hc hu)
  refine ⟨fun {t s w' w} hw heq hs => ?_, fun {m t s s' w' w} hw hraised heq hs => ?_⟩
  · exact hup (Token.governs_child t site.call _) (h.start (hw.child site.call) (hpost heq) hs)
  · obtain ⟨hu, m', -, -, hready, hkept⟩ := hraised
    exact hup hu.governs (h.resume hready hkept (hpost heq) hs)

end

section

variable {waits : op.State → Prop} (h : op.WaitsLive keeps waits)

include h

theorem behindRateLimit (limit : RateLimit) :
    (behindRateLimit site limit op).WaitsLive keeps waits := by
  refine ⟨fun {t s w' w} hw heq hs => ?_, h.resume⟩
  change op.State at s
  cases htk : takeToken site limit w with
  | mk granted w₁ =>
    cases granted with
    | true =>
      have hready := (World.Confined.of_takeToken (m := w.minted) site t htk).ready hw
      simp only [Operation.behindRateLimit, htk] at heq
      exact h.start hready.later heq hs
    | false =>
      simp only [Operation.behindRateLimit, htk] at heq
      cases heq

omit h in
theorem withRetry (r : RetrySettings) (due : Nat → Prop) :
    (withRetry site r op).WaitsLive (RetryState.Keeps (attemptKeeps site op keeps r))
      (fun s => ∃ token left wakeAt, s = .waiting token left wakeAt ∧ due wakeAt) := by
  constructor
  · rintro t _ w' w hw heq ⟨token, left, wakeAt, rfl, -⟩
    exact live_of_waiting heq
  · rintro m t s _ w' w hw hkept heq ⟨token', left', wakeAt', rfl, -⟩
    cases s with
    | trying token left inner =>
      obtain ⟨rfl, -⟩ := hkept
      exact live_of_waiting heq
    | waiting token left wakeAt =>
      obtain rfl : token = t := hkept
      rw [resume_waiting] at heq
      split at heq
      · cases heq
      next hstays =>
        split at heq
        · exact live_of_waiting heq
        next hearly =>
          cases heq
          rw [givesUp_of_lt (Nat.lt_of_not_le hearly)] at hstays
          exact Bool.eq_false_iff.mpr hstays

end

/-- **No call waits under a cancelled token** to repeat an attempt. -/
theorem stack (site : Site) (op : Operation)
    (keeps : (CallId → Nat) → Token → op.State → World → Prop) (due : Nat → Prop)
    (layers : List Layer) :
    (stack site layers op).WaitsLive (stackKeeps site op keeps layers)
      (stackWaits site op due layers) := by
  induction layers with
  | nil => exact .never fun _ => id
  | cons l rest ih =>
    cases l with
    | fallback value => exact ih.after _
    | timeout length => exact (ih.within length).after _
    | breaker s =>
      have hconfined : ∀ {m t} {w : World},
          w.Confined (.ofCall site.call [.breaker] t) m (acquirePermit site s w).2 :=
        fun {_ t w} => .acquirePermit site t w s List.mem_cons_self
      exact ih.holding hconfined
    | rateLimit limit => exact ih.behindRateLimit limit
    | bulkhead capacity =>
      have hconfined : ∀ {m t} {w : World},
          w.Confined (.ofCall site.call [.bulkhead] t) m (takeSlot site capacity w).2 :=
        fun {_ t w} => .takeSlot site t w capacity List.mem_cons_self
      exact ih.holding hconfined
    | retry r => exact withRetry r due
    | hedge delay => exact .never fun _ => id

end Activity.WaitsLive

end CallPolicy
