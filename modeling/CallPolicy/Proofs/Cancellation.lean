/-
Cancelled calls.

A call whose token is cancelled comes to an end with what is under way: nothing new is
begun for it. When it is looked at, its breaker is told of a failure only for a reason that
the trace shows (`World.Faults`): the last invocation that has ended has failed, or an
attempt has taken too long since. An operation that answers the cancellation gives none.

The trace does not show a cancellation as such, but it shows the events at which hooks
cancel tokens. What else a layer does leaves the token of its call alone (`World.Calm`), so
once the last invocation has ended, a token that is live can only be cancelled on record.

* **`Reports.proceed`**, … — where a failure comes from, one lemma a layer;
* **`Fair.stack`** — the breaker is told of no other one;
* **`cancellation_stops_new_work`** — all that becomes of a cancelled call.
-/
import CallPolicy.Proofs.Heeds

namespace CallPolicy

open Activity Operation

variable {ο : Type} {w w' w₁ w₂ w₀ : World} {t u v : Token} {id : CallId} {m : CallId → Nat}
  {site : Site} {kinds : List LayerKind} {timely : Prop}

/-! ### Failures in the trace -/

/-- Does the entry tell that an invocation of a call has ended? -/
def Entry.ends (id : CallId) (e : Entry) : Bool :=
  match e.record with
  | .finished call _ _ => call = id
  | _ => false

/-- Does the entry tell that an invocation of a call has failed, or that an attempt has taken
too long? -/
def Entry.fails (id : CallId) (e : Entry) : Bool :=
  match e.record with
  | .finished call _ (.returned r) => call = id ∧ Outcome.ofResult r = .failure
  | .event site (.attemptTimedOut _ _) => site.call = id
  | _ => false

/-- Does the entry tell that the call has reported a failure to its breaker? -/
def Entry.blames (site : Site) (e : Entry) : Bool :=
  match e.record with
  | .gate site' (.permitSettled _ .failure) => site' = site
  | _ => false

theorem Entry.ends_of_isReturn {e : Entry} (h : e.record.isReturn = true) :
    e.ends id = false := by
  unfold ends
  generalize e.record = r at h
  unfold Record.isReturn at h
  split at h
  case h_7 => cases h
  all_goals rfl

theorem Entry.blames_of_isReturn {e : Entry} (h : e.record.isReturn = true) :
    e.blames site = false := by
  unfold blames
  generalize e.record = r at h
  unfold Record.isReturn at h
  split at h
  case h_7 => cases h
  all_goals rfl

theorem Entry.blames_of_records {e : Entry} (h : (Scope.ofCall site.call kinds t).Records e.record)
    (hk : .breaker ∉ kinds) : e.blames site = false := by
  unfold blames
  split
  next site' p heq =>
    refine decide_eq_false ?_
    rintro rfl
    rw [heq] at h
    exact hk (h.own rfl _ rfl)
  next => rfl

/-! ### Cancellations in the trace -/

theorem Record.cancels_of_governs {r : Record} (h : r.cancels u = true) (hu : t.governs u = true) :
    r.cancels t = true := by
  cases r with
  | event site e =>
    unfold cancels at h ⊢
    dsimp only at h ⊢
    cases hname : e.hook?.bind site.origin.hooks.cancelled? with
    | none =>
      rw [hname] at h
      cases h
    | some name =>
      rw [hname] at h
      -- a hook cancels a root token, so it has the root of both
      refine Token.governs_of_path_nil rfl ?_
      exact (Token.governs_iff.mp h).1.trans (Token.governs_iff.mp hu).1.symm
  | _ => cases h

namespace World

/-- Nothing has been recorded that is `about` something, and if the token was live and is
no more, the event is recorded whose hook has cancelled it. -/
structure Calm (about : Entry → Bool) (t : Token) (w w' : World) : Prop where
  quiet : w.Keeps (fun _ => ()) about w'
  shown : w.isCancelled t = false → w'.isCancelled t = true →
    ∃ es, w'.trace = es ++ w.trace ∧ ∃ e ∈ es, e.record.cancels t = true

namespace Calm

variable {about : Entry → Bool}

/-- The token is as live as before. -/
theorem of_isCancelled (h : w.Keeps (fun _ => ()) about w')
    (ht : w'.isCancelled t = w.isCancelled t) : w.Calm about t w' := by
  refine ⟨h, fun hlive hc => ?_⟩
  rw [← ht, hc] at hlive
  cases hlive

theorem refl (w : World) : w.Calm about t w := of_isCancelled (.refl w) rfl

theorem trans (h : w.Calm about t w₁) (h' : w₁.Calm about t w₂) : w.Calm about t w₂ := by
  refine ⟨h.quiet.trans h'.quiet, fun hlive hc => ?_⟩
  obtain ⟨es, htr, -⟩ := h.quiet.trace
  obtain ⟨es', htr', -⟩ := h'.quiet.trace
  have hall : w₂.trace = (es' ++ es) ++ w.trace := by rw [htr', htr, List.append_assoc]
  cases hc₁ : w₁.isCancelled t with
  | true =>
    obtain ⟨es₁, htr₁, e, he, hcancels⟩ := h.shown hlive hc₁
    obtain rfl := List.append_cancel_right (htr₁.symm.trans htr)
    exact ⟨_, hall, e, List.mem_append_right _ he, hcancels⟩
  | false =>
    obtain ⟨es₁, htr₁, e, he, hcancels⟩ := h'.shown hc₁ hc
    obtain rfl := List.append_cancel_right (htr₁.symm.trans htr')
    exact ⟨_, hall, e, List.mem_append_left _ he, hcancels⟩

theorem mono {about' : Entry → Bool} (h : w.Calm about t w')
    (habout : ∀ e, about e = false → about' e = false) : w.Calm about' t w' :=
  ⟨h.quiet.mono habout, h.shown⟩

theorem note (w : World) (r : Record) (h : about ⟨w.now, r⟩ = false) :
    w.Calm about t (w.note r) := of_isCancelled (.note w r h) rfl

theorem emit (w : World) (site : Site) (e : Event) (h : about ⟨w.now, .event site e⟩ = false) :
    w.Calm about t (w.emit site e) := by
  refine ⟨.emit w site e h, fun hlive hc => ?_⟩
  exact ⟨[_], w.emit_trace site e, _, List.mem_cons_self, cancels_of_emit hlive hc⟩

/-- A token that is cancelled is none above the one in question. -/
theorem cancel (w : World) (hu : ¬u.governs t = true) : w.Calm about t (w.cancel u) := by
  refine of_isCancelled (.silent rfl rfl) ?_
  show (u.governs t || w.isCancelled t) = w.isCancelled t
  rw [Bool.eq_false_iff.mpr hu, Bool.false_or]

theorem modifyGates (w : World) (key : Nat) (f : Gates → Gates) :
    w.Calm about t (w.modifyGates key f) := of_isCancelled (.silent rfl rfl) rfl

section

variable (habout : ∀ e, e.record.isReturn = true → about e = false)

include habout

theorem setBreaker (w : World) (site : Site) (b : Breaker) :
    w.Calm about t (w.setBreaker site b) := by
  unfold World.setBreaker
  dsimp only
  split
  · exact .modifyGates w _ _
  · exact (modifyGates w _ _).trans (.emit _ site _ (habout _ (Record.isReturn_news site _)))

theorem settlePermit (w : World) (site : Site) (s : BreakerSettings) {p : Permit} {o : Outcome}
    (h : about ⟨w.now, .gate site (.permitSettled p o)⟩ = false) :
    w.Calm about t (w.settlePermit site s p o) := (note w _ h).trans (setBreaker habout _ site _)

theorem release (w : World) (h : Holding) : w.Calm about t (w.release h) := by
  cases h with
  | invocation call k token => exact .note w _ (habout _ rfl)
  | slot site => exact (modifyGates w _ _).trans (.emit _ site .slotReleased (habout _ rfl))
  | permit site s p => exact settlePermit habout w site s (habout _ rfl)

theorem releaseAll (w : World) (hs : List Holding) : w.Calm about t (w.releaseAll hs) := by
  induction hs generalizing w with
  | nil => exact .refl w
  | cons h hs ih => exact (release habout w h).trans (ih (w.release h))

end

end Calm

/-- A parent is above its children alone. -/
theorem Fosters.not_governs {c : CallId} (h : w.Fosters c m t u) : ¬u.governs t = true := by
  obtain ⟨n, -, rfl⟩ := h.child
  exact t.not_governs_child c n

/-- There is a reason to count a call as a failure: since the world `w`, as the trace tells,
the last of its invocations to end has failed or an attempt has taken too long after that.
If neither is so, its token is live, or was before a hook has cancelled it after the end of
the last invocation. -/
inductive Faults (id : CallId) (t : Token) (w w' : World) : Prop
  | failed {newer older : List Entry} {e : Entry} (htrace : w'.trace = newer ++ e :: older)
      (hsince : w.trace <:+ older) (hends : ∀ e' ∈ newer, e'.ends id = false)
      (he : e.fails id = true)
  | live {newer older : List Entry} (htrace : w'.trace = newer ++ older)
      (hsince : w.trace <:+ older) (hends : ∀ e' ∈ newer, e'.ends id = false)
      (hlive : w.isCancelled t = false)
      (hnow : w'.isCancelled t = false ∨ ∃ e' ∈ newer, e'.record.cancels t = true)

namespace Faults

/-- Nothing that has happened before takes the reason away. -/
theorem before (h : w₁.Faults id t w') (hcancelled : w.cancelled <:+ w₁.cancelled)
    (htrace : w.trace <:+ w₁.trace) : w.Faults id t w' := by
  cases h with
  | failed htr hsince hends he => exact .failed htr (htrace.trans hsince) hends he
  | live htr hsince hends hlive hnow =>
    refine .live htr (htrace.trans hsince) hends (Bool.eq_false_iff.mpr fun hc => ?_) hnow
    exact Bool.eq_false_iff.mp hlive (isCancelled_of_suffix hcancelled hc)

/-- Neither does what happens later, unless another invocation ends. -/
theorem later (h : w.Faults id t w₁) (h' : w₁.Calm (Entry.ends id) t w₂) : w.Faults id t w₂ := by
  obtain ⟨es, htr', hes⟩ := h'.quiet.trace
  have hall : ∀ {newer : List Entry}, (∀ e ∈ newer, e.ends id = false) →
      ∀ e ∈ es ++ newer, e.ends id = false := fun hends e he =>
    (List.mem_append.mp he).elim (hes e) (hends e)
  cases h with
  | failed htr hsince hends he =>
    exact .failed (by rw [htr', htr, List.append_assoc]) hsince (hall hends) he
  | live htr hsince hends hlive hnow =>
    refine .live (by rw [htr', htr, List.append_assoc]) hsince (hall hends) hlive ?_
    rcases hnow with hlive₁ | ⟨e, he, hcancels⟩
    · cases hc : w₂.isCancelled t with
      | false => exact .inl rfl
      | true =>
        obtain ⟨es', htr₂, e, he, hcancels⟩ := h'.shown hlive₁ hc
        obtain rfl := List.append_cancel_right (htr₂.symm.trans htr')
        exact .inr ⟨e, List.mem_append_left _ he, hcancels⟩
    · exact .inr ⟨e, List.mem_append_right _ he, hcancels⟩

theorem mono (h : w.Faults id u w') (hu : t.governs u = true) : w.Faults id t w' := by
  have hup : ∀ {w : World}, w.isCancelled u = false → w.isCancelled t = false := fun hlive =>
    Bool.eq_false_iff.mpr fun hc => Bool.eq_false_iff.mp hlive (isCancelled_of_governs hc hu)
  cases h with
  | failed htr hsince hends he => exact .failed htr hsince hends he
  | live htr hsince hends hlive hnow =>
    refine .live htr hsince hends (hup hlive) (hnow.imp hup fun ⟨e, he, hcancels⟩ => ?_)
    exact ⟨e, he, Record.cancels_of_governs hcancels hu⟩

/-- A failure has just been told. -/
theorem of_entry {e : Entry} (htr : w'.trace = e :: w₁.trace) (hw : w.trace <:+ w₁.trace)
    (he : e.fails id = true) : w.Faults id t w' := by
  have hlast : w'.trace = [] ++ e :: w₁.trace := htr
  exact .failed hlast hw nofun he

/-- The token is still live. -/
theorem of_live (hlive : w'.isCancelled t = false) (hcancelled : w.cancelled <:+ w'.cancelled)
    (htrace : w.trace <:+ w'.trace) : w.Faults id t w' := by
  have hnone : w'.trace = [] ++ w'.trace := rfl
  have hbefore : w.isCancelled t = false := Bool.eq_false_iff.mpr fun hc =>
    Bool.eq_false_iff.mp hlive (isCancelled_of_suffix hcancelled hc)
  exact .live hnone htrace nofun hbefore (.inl hlive)

end Faults

theorem Faults.confined {σ : Scope} (h : w₁.Faults id t w') (hw : w.Confined σ m w₁) :
    w.Faults id t w' := h.before hw.suffix_cancelled hw.suffix_trace

end World

/-! ### Where failures come from -/

/-- The result counts as a failure. -/
def Failing (r : Result) : Prop := Outcome.ofResult r = .failure

/-- The activity ends with an output of the `bad` sort for a reason only. -/
structure Activity.Reports (a : Activity Token ο) (site : Site) (bad : ο → Prop)
    (keeps : (CallId → Nat) → Token → a.State → World → Prop) : Prop where
  start : ∀ {t o w'} {w : World}, w.Ready w.minted t → a.start t w = (.done o, w') → bad o →
    w.Faults site.call t w'
  resume : ∀ {m t s o w'} {w : World}, w.Ready m t → keeps m t s w →
    a.resume s w = (.done o, w') → bad o → w.Faults site.call t w'

namespace Activity.Reports

/-- What a scripted operation returns is recorded. -/
theorem script (script : Script) (site : Site) :
    ∃ keeps, (script.operation site.call).Attends site.call [] keeps ∧
      (script.operation site.call).Reports site Failing keeps := by
  choose keeps hbody using fun k => scriptBody_docile site.call k k script
  refine ⟨_, .numbered hbody, ?_⟩
  let body := fun k => scriptBody site.call k k script
  have hpost : ∀ k t (out : Status (body k).State Ending × World) {r w'}, Failing r →
      Status.lift (Sigma.mk (β := fun k => (invocation site.call k (body k)).State) k)
        (invocation.conclude site.call k (body k) t out) = (.done r, w') →
      ∃ e, w'.trace = e :: out.2.trace ∧ e.fails site.call = true := by
    rintro k t ⟨s | (r | x) | x, w⟩ r' w' hr heq <;> cases heq
    exact ⟨_, w.note_trace _, decide_eq_true ⟨rfl, hr⟩⟩
  refine ⟨fun {t r w' w} hw heq hr => ?_, ?_⟩
  · have hinvoked : w.Confined (.ofCall site.call [] t) w.minted
        (w.invoke site.call (w.invoked site.call).length t) :=
      .invoke w (.refl _ t) fun _ => Scope.records_ofCall rfl nofun
    have hstart := (hbody (w.invoked site.call).length).start_after (i := ⟨t, .ok ""⟩)
      (hinvoked.ready hw) (.refl _ _ _)
    obtain ⟨e, htr, he⟩ := hpost _ _ _ hr heq
    exact .of_entry htr (hinvoked.suffix_trace.trans hstart.confined.suffix_trace) he
  · rintro m _ ⟨k, t, s⟩ r w' w hw ⟨rfl, hs⟩ heq hr
    obtain ⟨e, htr, he⟩ := hpost _ _ _ hr heq
    exact .of_entry htr ((hbody k).resume hw hs).confined.suffix_trace he

section

variable {a : Activity Token ο} {bad : ο → Prop}
  {keeps : (CallId → Nat) → Token → a.State → World → Prop}
  (h : a.Reports site bad keeps)

include h

theorem start_child {o : ο} (hw : w.Ready m t) (hu : w.Fosters site.call m t u)
    (heq : a.start u w = (.done o, w')) (ho : bad o) : w.Faults site.call t w' :=
  (h.start ⟨hw.sane, hu.made, fun _ => Nat.le_refl _⟩ heq ho).mono hu.governs

theorem resume_child {s : a.State} {o : ο} (hs : Raised site.call keeps m t u s w)
    (heq : a.resume s w = (.done o, w')) (ho : bad o) : w.Faults site.call t w' := by
  obtain ⟨hu, m', -, -, hready, hkept⟩ := hs
  exact (h.resume hready hkept heq ho).mono hu.governs

end

/-! ### Attempts -/

variable {op : Operation} {keeps : (CallId → Nat) → Token → op.State → World → Prop}

/-- The attempt ends with a failure. -/
def AttemptFails (o : Option Result) : Prop := ∃ r, o = some r ∧ Failing r

theorem within (length : Duration) (h : op.Reports site Failing keeps) :
    (op.within site.call length).Reports site AttemptFails
      (fun m t s => Raised site.call keeps m t s.token s.inner) := by
  have hpost : ∀ {u d o w'} {out : Status op.State Result × World},
      Activity.within.check op u d out = (.done o, w') → AttemptFails o →
      ∃ r, out = (.done r, w') ∧ Failing r := by
    rintro u d o w' ⟨s | r | x, w⟩ heq ⟨r', rfl, hr⟩
    · unfold Activity.within.check at heq
      dsimp only at heq
      split at heq <;> cases heq
    · cases heq
      exact ⟨_, rfl, hr⟩
    · cases heq
  refine ⟨fun {t o w' w} hw heq ho => ?_, fun {m t s o w' w} hw hs heq ho => ?_⟩
  · obtain ⟨r, hr, hfails⟩ := hpost heq ho
    have hminted : w.Confined (.ofCall site.call [] t) w.minted (w.mint site.call t).2 :=
      .mint w site.call t
    exact (h.start_child (hw.mint site.call t) (.mint hw) hr hfails).confined hminted
  · obtain ⟨r, hr, hfails⟩ := hpost heq ho
    exact h.resume_child hs hr hfails

theorem attempt (r : RetrySettings) (h : op.Reports site Failing keeps) :
    (Operation.attempt site r op).Reports site AttemptFails (attemptKeeps site op keeps r) := by
  obtain ⟨maxAttempts, backoff, maxDelay, attemptTimeout, retryIf⟩ := r
  cases attemptTimeout with
  | none =>
    have hpost : ∀ {o w'} {out : Status op.State Result × World},
        Activity.after.follow (fun r w => (some r, w)) op out = (.done o, w') → AttemptFails o →
        ∃ r, out = (.done r, w') ∧ Failing r := by
      rintro o w' ⟨s | r | x, w⟩ heq ⟨r', rfl, hr⟩ <;> cases heq
      exact ⟨_, rfl, hr⟩
    refine ⟨fun {t o w' w} hw heq ho => ?_, fun {m t s o w' w} hw hs heq ho => ?_⟩
    · obtain ⟨r, hr, hfails⟩ := hpost heq ho
      exact h.start hw hr hfails
    · obtain ⟨r, hr, hfails⟩ := hpost heq ho
      exact h.resume hw hs hr hfails
  | some length => exact h.within length

/-- An attempt without a deadline ends with a result. -/
theorem attempt_isSome {r : RetrySettings} (hr : r.attemptTimeout = none) {o : Option Result}
    (h : (∃ t w, (Operation.attempt site r op).start t w = (.done o, w')) ∨
      ∃ s w, (Operation.attempt site r op).resume s w = (.done o, w')) : o ≠ none := by
  obtain ⟨maxAttempts, backoff, maxDelay, attemptTimeout, retryIf⟩ := r
  obtain rfl : attemptTimeout = none := hr
  have hpost : ∀ {out : Status op.State Result × World},
      Activity.after.follow (fun r w => (some r, w)) op out = (.done o, w') → o ≠ none := by
    rintro ⟨s | r | x, w⟩ heq <;> cases heq
    exact nofun
  rcases h with ⟨t, w, heq⟩ | ⟨s, w, heq⟩
  · exact hpost heq
  · exact hpost heq

/-! ### Retry -/

theorem attemptResult {r : RetrySettings} {n : Nat} {o : Option Result} {f : Failure}
    (h : Operation.attemptResult site r n o w₁ = (.error f, w₂)) (hf : Failing (.error f))
    (hw : w.trace <:+ w₁.trace) (ho : AttemptFails o → w.Faults site.call t w₁)
    (hnone : r.attemptTimeout = none → o ≠ none) : w.Faults site.call t w₂ := by
  unfold Operation.attemptResult at h
  split at h
  · cases h
    exact ho ⟨_, rfl, hf⟩
  next length _ =>
    cases h
    exact .of_entry (w₁.emit_trace _ _) hw (decide_eq_true rfl)
  next hr => exact absurd rfl (hnone hr)

variable (site) in
theorem mayRepeat_calm (r : RetrySettings) (t : Token) (f : Failure) (w : World) :
    w.Calm (Entry.ends id) t (Operation.mayRepeat site r t f w).2 := by
  unfold Operation.mayRepeat
  split
  · exact .refl w
  · split
    · exact .refl w
    · exact .note w _ rfl

section

variable {r : RetrySettings} (hd : op.Attends site.call kinds keeps)
  (h : op.Reports site Failing keeps)

include hd h

/-- A failure of the retry layer is one of the present attempt, or the token was live when
that had ended. -/
theorem proceed (t : Token) (left : Nat)
    (out : Status (Operation.attempt site r op).State (Option Result) × World) {x : Result}
    (hw : w.Ready m t) (hout : w.Confined (.ofCall site.call (.retry :: kinds) t) m out.2)
    (hfaults : ∀ o w', out = (.done o, w') → AttemptFails o → w.Faults site.call t w')
    (hnone : ∀ o w', out = (.done o, w') → r.attemptTimeout = none → o ≠ none)
    (heq : proceed site r t left out = (.done x, w')) (hx : Failing x) :
    w.Faults site.call t w' := by
  have hmore : op.Attends site.call (.retry :: kinds) keeps :=
    hd.attends_mono (List.subset_cons_self _ _)
  -- the loop starts attempts that are due at once, so the induction is on those left
  fun_induction Operation.proceed site r t left out
  case case1 => cases heq
  case case2 => cases heq
  case case3 left o w₀ n v w₁ h₁ =>
    cases heq
    cases hx
  case case4 left o w₀ n f w₁ h₁ w₂ h₂ =>
    cases heq
    have hfailed := attemptResult h₁ hx hout.suffix_trace (hfaults o w₀ rfl) (hnone o w₀ rfl)
    have hmay : w₁.Calm (Entry.ends site.call) t _ := mayRepeat_calm site r t f w₁
    rw [h₂] at hmay
    exact hfailed.later hmay
  case case5 o w₀ f w₁ w₂ h₂ n h₁ =>
    cases heq
    have hjudged : w.Confined (.ofCall site.call (.retry :: kinds) t) m w' :=
      hout.trans (.judged site r w₀ t List.mem_cons_self h₁ h₂)
    exact .of_live (World.isCancelled_of_mayRepeat h₂) hjudged.suffix_cancelled
      hjudged.suffix_trace
  case case6 =>
    cases heq
    cases hx
  case case7 o w₀ f w₁ w₂ h₂ left delay w₃ wakeAt hdue n h₁ h₃ hlive ih =>
    have hrepeated : w.Confined (.ofCall site.call (.retry :: kinds) t) m w₃ :=
      hout.trans (.repeated site r w₀ t List.mem_cons_self h₁ h₂ h₃)
    have hready := (hrepeated.ready hw).later
    have hstart := (hmore.attempt r).start_after hw hrepeated
    refine ih hstart.confined (fun o w'' hdone ho => ?_) (fun o w'' hdone hr => ?_) heq
    · exact ((h.attempt r).start hready hdone ho).confined hrepeated
    · exact attempt_isSome hr (.inl ⟨t, w₃, hdone⟩)
  case case8 => cases heq

theorem withRetry : (withRetry site r op).Reports site Failing
    (RetryState.Keeps (attemptKeeps site op keeps r)) := by
  -- the retry layer tells of repeated attempts, which the scope inside does not allow
  have hmore : op.Attends site.call (.retry :: kinds) keeps :=
    hd.attends_mono (List.subset_cons_self _ _)
  have ha := h.attempt r
  have hda := hmore.attempt r
  refine ⟨fun {t x w' w} hw heq hx => ?_, fun {m t s x w' w} hw hs heq hx => ?_⟩
  · exact h.proceed hd t _ _ hw (hda.start hw).confined
      (fun o w'' hdone ho => ha.start hw hdone ho)
      (fun o w'' hdone hr => attempt_isSome hr (.inl ⟨t, w, hdone⟩)) heq hx
  · cases s with
    | trying token left inner =>
      obtain ⟨rfl, hkept⟩ := hs
      exact h.proceed hd token _ _ hw (hda.resume hw hkept).confined
        (fun o w'' hdone ho => ha.resume hw hkept hdone ho)
        (fun o w'' hdone hr => attempt_isSome hr (.inr ⟨inner, w, hdone⟩)) heq hx
    | waiting token left wakeAt =>
      obtain rfl : token = t := hs
      rw [resume_waiting] at heq
      split at heq
      · cases heq
        cases hx
      · split at heq
        · exact h.proceed hd token _ _ hw.later (hda.start hw.later).confined
            (fun o w'' hdone ho => ha.start hw.later hdone ho)
            (fun o w'' hdone hr => attempt_isSome hr (.inl ⟨token, w, hdone⟩)) heq hx
        · cases heq

end

/-! ### Hedge -/

section

variable {delay : Duration} {r : Result}

theorem judgeRival {first : op.State} {out : Status op.State Result × World}
    (hu : ¬u.governs t = true)
    (hfaults : ∀ r w', out = (.done r, w') → Failing r → w.Faults site.call t w')
    (heq : judgeRival site u first v out = (.done r, w')) (hr : Failing r) :
    w.Faults site.call t w' := by
  rcases out with ⟨rival | r' | x, w₁⟩ <;> cases heq
  have hcancel : w₁.Calm (Entry.ends site.call) t (w₁.cancel u) := .cancel w₁ hu
  exact (hfaults _ _ rfl hr).later ((hcancel.trans (.emit _ site .hedgeWon rfl)).trans
    (.releaseAll (fun _ => Entry.ends_of_isReturn) _ _))

theorem of_judgeAlone {out : Status op.State Result × World}
    (heq : judgeAlone out = (.done r, w')) : out = (.done r, w') := by
  rcases out with ⟨_ | _ | _, w⟩ <;> cases heq
  rfl

variable (hk : .hedge ∈ kinds) (hd : op.Attends site.call kinds keeps)
  (h : op.Reports site Failing keeps)

include hk hd h

theorem launch {first : op.State} (hw : w.Ready m t)
    (hfirst : Lodges site.call kinds op keeps m t u first w)
    (heq : launch site delay t u first w = (.done r, w')) (hr : Failing r) :
    w.Faults site.call t w' := by
  rw [Operation.launch_eq] at heq
  split at heq
  · exact h.resume_child hfirst.raised (of_judgeAlone heq) hr
  · let w₁ := w.emit site (.hedgeLaunched delay)
    let w₂ := (w₁.mint site.call t).2
    let v := (w₁.mint site.call t).1
    obtain ⟨hlaunched, hready₂, hfirst₂, hv, hne⟩ :=
      Docile.launched hk hd delay hw hfirst
    have hresume := hd.resume_child hfirst₂
    obtain ⟨m₁, hconfined⟩ := hd.confined_resume hfirst₂
    have hspared := hconfined.spares_sibling hv hfirst₂.fosters hne.symm
    split at heq
    next first' w₃ hpending =>
      rw [hpending] at hresume hspared hconfined
      have hv₃ := hv.spares hspared (Token.governs_self v)
      refine judgeRival hfirst.raised.fosters.not_governs (fun r w' hdone hr => ?_) heq hr
      have hrival := h.start_child (hconfined.ready hready₂) hv₃ hdone hr
      exact (hrival.confined hresume.confined).confined hlaunched
    next r w₃ hdone =>
      cases heq
      exact ((h.resume_child hfirst₂ hdone hr).confined hlaunched).later (.cancel w₃ hv.not_governs)
    next => cases heq

theorem judgeFirst {launchAt : Nat} {out : Status op.State Result × World} (hw : out.2.Ready m t)
    (hlands : Lands (Lodges site.call kinds op keeps m t u) (fun _ => True) out)
    (hout : w.Confined (.ofCall site.call kinds t) m out.2)
    (hfaults : ∀ r w', out = (.done r, w') → Failing r → w.Faults site.call t w')
    (heq : judgeFirst site delay t u launchAt out = (.done r, w')) (hr : Failing r) :
    w.Faults site.call t w' := by
  rcases out with ⟨first | r' | x, w₁⟩
  · unfold Operation.judgeFirst at heq
    dsimp only at heq
    split at heq
    · exact (h.launch hk hd hw hlands heq hr).confined hout
    · cases heq
  · cases heq
    exact hfaults _ _ rfl hr
  · cases heq

theorem withHedge :
    (withHedge site delay op).Reports site Failing (HedgeState.Keeps site.call keeps) := by
  refine ⟨fun {t r w' w} hw heq hr => ?_, fun {m t s r w' w} hw hs heq hr => ?_⟩
  · have hready := hw.mint site.call t
    have hminted : w.Confined (.ofCall site.call kinds t) w.minted (w.mint site.call t).2 :=
      .mint w site.call t
    -- the first invocation is polled first, so its failure is reported before any rival starts
    have hfirst := hd.start_child hready (.mint hw)
    refine (h.judgeFirst hk hd (hfirst.confined.ready hready) hfirst.lands hfirst.confined
      (fun r w' hdone hr => ?_) heq hr).confined hminted
    exact h.start_child hready (.mint hw) hdone hr
  · cases s with
    | early caller u launchAt first =>
      obtain ⟨rfl, hraised⟩ := hs
      have hresume := hd.resume_child hraised
      exact h.judgeFirst hk hd (hresume.confined.ready hw) hresume.lands hresume.confined
        (fun r w' hdone hr => h.resume_child hraised hdone hr) heq hr
    | alone first =>
      obtain ⟨u, hraised⟩ := hs
      exact h.resume_child hraised (of_judgeAlone heq) hr
    | racing u first v rival =>
      obtain ⟨hne, hfirst, hrival⟩ := hs
      have hresume := hd.resume_child hfirst
      have hrival' := hd.raised_beside hw hfirst hrival hne.symm
      rw [Operation.withHedge_resume_racing] at heq
      split at heq
      -- only the rival has failed; it did so while the first stood still
      next first' w₁ hpending =>
        rw [hpending] at hresume hrival'
        refine judgeRival hfirst.fosters.not_governs (fun r w' hdone hr => ?_) heq hr
        exact (h.resume_child hrival' hdone hr).confined hresume.confined
      next r w₁ hdone =>
        cases heq
        -- the first failed: the rival is dropped, which ends no call
        have hcancel : w₁.Calm (Entry.ends site.call) t (w₁.cancel v) :=
          .cancel w₁ hrival.fosters.not_governs
        exact (h.resume_child hfirst hdone hr).later
          (hcancel.trans (.releaseAll (fun _ => Entry.ends_of_isReturn) _ _))
      next => cases heq

end

/-! ### Gates behind the breaker -/

theorem behindBulkhead (capacity : Nat) (h : op.Reports site Failing keeps) :
    (behindBulkhead site capacity op).Reports site Failing (fun m t s => keeps m t s.2) := by
  -- giving the slot back ends no call
  have hpost : ∀ {u : Unit} {t r w'} {out : Status op.State Result × World},
      Activity.holding.keep (fun _ => .slot site) (fun _ _ w => w.release (.slot site)) op u out =
        (.done r, w') →
      ∃ w₁, out = (.done r, w₁) ∧ w₁.Calm (Entry.ends site.call) t w' := by
    rintro u t r w' ⟨s | r' | x, w⟩ heq <;> cases heq
    exact ⟨w, rfl, .release (fun _ => Entry.ends_of_isReturn) w (.slot site)⟩
  refine ⟨fun {t r w' w} hw heq hr => ?_, fun {m t s r w' w} hw hs heq hr => ?_⟩
  · cases htake : takeSlot site capacity w with
    | mk e w₁ =>
      cases e with
      | error r' =>
        have hstart : (Operation.behindBulkhead site capacity op).start t w = _ :=
          Activity.holding_start_error htake
        obtain ⟨-, rfl, -⟩ := takeSlot_error site w htake
        cases hstart.symm.trans heq
        -- a full bulkhead refuses, which is no failure of the operation
        cases hr
      | ok x =>
        have hstart : (Operation.behindBulkhead site capacity op).start t w = _ :=
          Activity.holding_start_ok htake
        obtain ⟨w₂, hdone, hcalm⟩ := hpost (hstart.symm.trans heq)
        have htaken : w.Confined (.ofCall site.call [.bulkhead] t) w.minted w₁ :=
          .of_takeSlot site t htake
        exact ((h.start (htaken.ready hw).later hdone hr).later hcalm).confined htaken
  · obtain ⟨w₁, hdone, hcalm⟩ := hpost heq
    exact (h.resume hw hs hdone hr).later hcalm

theorem behindRateLimit (limit : RateLimit) (h : op.Reports site Failing keeps) :
    (behindRateLimit site limit op).Reports site Failing keeps := by
  refine ⟨fun {t r w' w} hw heq hr => ?_, h.resume⟩
  unfold Operation.behindRateLimit at heq
  dsimp only at heq
  split at heq
  next w₁ htk =>
    have hnoted : w.Confined (.ofCall site.call [.rateLimit] t) w.minted
        (w₁.note (.gate site .tokenTaken)) := .of_takeToken site t htk
    exact (h.start (hnoted.ready hw).later heq hr).confined hnoted
  next =>
    cases heq
    cases hr

/-- **Behind the breaker** a call fails for a reason only. -/
theorem stack (site : Site) {op : Operation}
    {keeps : (CallId → Nat) → Token → op.State → World → Prop} {layers : List Layer}
    (hbelow : ∀ l ∈ layers, LayerKind.breaker.position < l.kind.position)
    (hd : op.Attends site.call kinds keeps) (h : op.Reports site Failing keeps) :
    (stack site layers op).Reports site Failing (stackKeeps site op keeps layers) := by
  induction layers with
  | nil => exact h
  | cons l rest ih =>
    have hrest := ih fun l' hl' => hbelow l' (List.mem_cons_of_mem _ hl')
    have hpos := hbelow l List.mem_cons_self
    cases l with
    | rateLimit limit => exact hrest.behindRateLimit limit
    | bulkhead capacity => exact hrest.behindBulkhead capacity
    | retry r => exact hrest.withRetry (hd.stack site rest)
    | hedge delay =>
      have hmore := (hd.stack site rest).attends_mono (List.subset_cons_self LayerKind.hedge _)
      exact hrest.withHedge List.mem_cons_self hmore
    | _ => exact absurd hpos (by simp [Layer.kind, LayerKind.position])

end Activity.Reports

/-! ### What the breaker is told -/

/-- Does the entry tell of an end or of a failure? -/
def Entry.matters (site : Site) (e : Entry) : Bool := e.ends site.call || e.blames site

theorem Entry.matters_of_isReturn {e : Entry} (h : e.record.isReturn = true) :
    e.matters site = false := by
  rw [matters, ends_of_isReturn h, blames_of_isReturn h]
  rfl

/-- Neither has an invocation ended, nor has the breaker been told of a failure, and the
token is as live as it was or has been cancelled on record. -/
abbrev World.Aside (site : Site) (t : Token) (w w' : World) : Prop :=
  w.Calm (Entry.matters site) t w'

/-- The breaker has been told of no failure of the call, or there is a reason to count one. -/
def World.Fair (site : Site) (t : Token) (w w' : World) : Prop :=
  w.Keeps (fun _ => ()) (Entry.blames site) w' ∨ w.Faults site.call t w'

namespace World.Fair

theorem later (h : w.Fair site t w₁) (h' : w₁.Aside site t w₂) : w.Fair site t w₂ := by
  have hor : ∀ e : Entry, e.matters site = false → e.ends site.call = false ∧ e.blames site = false :=
    fun e he => by simpa [Entry.matters] using he
  exact h.imp (fun hkeeps => hkeeps.trans (h'.quiet.mono fun e he => (hor e he).2))
    fun hfaults => hfaults.later (h'.mono fun e he => (hor e he).1)

theorem before {σ : Scope} (h : w₁.Fair site t w₂) (hw : w.Confined σ m w₁)
    (hblames : w.Keeps (fun _ => ()) (Entry.blames site) w₁) : w.Fair site t w₂ :=
  h.imp hblames.trans fun hfaults => hfaults.confined hw

theorem mono (h : w.Fair site u w') (hu : t.governs u = true) : w.Fair site t w' :=
  h.imp_right fun hfaults => hfaults.mono hu

/-- Where there is no breaker, none is told of anything. -/
theorem of_confined (h : w.Confined (.ofCall site.call kinds u) m w') (hk : .breaker ∉ kinds) :
    w.Fair site t w' := by
  obtain ⟨es, heq, hes⟩ := h.trace
  exact .inl ⟨rfl, Nat.le_of_eq h.now.symm, es, heq, fun e he => Entry.blames_of_records (hes e he) hk⟩

end World.Fair

/-- The breaker is told of a failure for a reason only. -/
structure Operation.Fair (op : Operation) (site : Site)
    (keeps : (CallId → Nat) → Token → op.State → World → Prop) : Prop where
  start : ∀ {t} {w : World}, w.Ready w.minted t → w.Fair site t (op.start t w).2
  resume : ∀ {m t s} {w : World}, w.Ready m t → keeps m t s w → w.Fair site t (op.resume s w).2

namespace Operation.Fair

variable {op : Operation} {keeps : (CallId → Nat) → Token → op.State → World → Prop}
  {layers : List Layer}

theorem of_attends (hd : op.Attends site.call kinds keeps) (hk : .breaker ∉ kinds) :
    op.Fair site keeps :=
  ⟨fun hw => .of_confined (hd.start hw).confined hk,
    fun hw hs => .of_confined (hd.resume hw hs).confined hk⟩

theorem withFallback (value : String) (h : op.Fair site keeps) :
    (withFallback site value op).Fair site keeps := by
  have hemit : ∀ (t : Token) (w : World) (f : Failure), w.Aside site t (w.emit site (.fellBack f)) :=
    fun _ w _ => .emit w site _ rfl
  have hpost := fun t => Activity.after.follow_rel op World.Calm.refl
    (withFallback_step site World.Calm.refl (hemit t) value)
  exact ⟨fun hw => (h.start hw).later (hpost _ _), fun hw hs => (h.resume hw hs).later (hpost _ _)⟩

theorem withTimeout (length : Duration) (h : op.Fair site keeps) :
    (withTimeout site length op).Fair site
      (fun m t s => Activity.Raised site.call keeps m t s.token s.inner) := by
  have hemit : ∀ {t : Token} (w : World), w.Aside site t (w.emit site (.timedOut length)) :=
    fun w => .emit w site _ rfl
  have hdrop : ∀ {t u : Token}, ¬u.governs t = true → ∀ (hs : List Holding) (w : World),
      w.Aside site t ((w.releaseAll hs).cancel u) := fun hu hs w =>
    (World.Calm.releaseAll (fun _ => Entry.matters_of_isReturn) w hs).trans (.cancel _ hu)
  have hpost : ∀ {t u : Token}, ¬u.governs t = true → ∀ (d : Nat)
      (out : Status op.State Result × World),
      out.2.Aside site t (Activity.after.follow _ (op.within site.call length)
        (Activity.within.check op u d out)).2 := fun hu d out =>
    (Activity.within.check_rel op World.Calm.refl _ (hdrop hu) d out).trans
      (Activity.after.follow_rel (op.within site.call length) World.Calm.refl
        (withTimeout_step site length World.Calm.refl hemit) _)
  refine ⟨fun {t w} hw => ?_, fun {m t s w} hw hs => ?_⟩
  · have hminted : w.Confined (.ofCall site.call [] t) w.minted (w.mint site.call t).2 :=
      .mint w site.call t
    have hstart := (h.start (hw.child site.call)).mono (Token.governs_child t site.call _)
    exact (hstart.before hminted (.silent rfl rfl)).later (hpost (t.not_governs_child _ _) _ _)
  · obtain ⟨hu, m', -, -, hready, hkept⟩ := hs
    exact ((h.resume hready hkept).mono hu.governs).later (hpost hu.not_governs _ _)

/-- The breaker is told of what becomes of the call behind it. -/
theorem behindBreaker (s : BreakerSettings) (hd : op.Attends site.call kinds keeps)
    (hk : .breaker ∉ kinds) (h : op.Reports site Failing keeps) :
    (behindBreaker site s op).Fair site (fun m t s => keeps m t s.2) := by
  -- a permit that comes back with no failure is not held against anybody
  have hsettled : ∀ {t : Token} (w : World) (p : Permit) {o : Outcome}, o ≠ .failure →
      w.Aside site t (w.settlePermit site s p o) := by
    intro t w p o ho
    refine .settlePermit (fun _ => Entry.matters_of_isReturn) w site s ?_
    cases o with
    | failure => exact absurd rfl ho
    | _ => rfl
  -- when the operation has ended, the breaker learns of its result
  have hpost : ∀ {m : CallId → Nat} {t : Token} {p : Permit} {w : World}
      {out : Status op.State Result × World}, w.Confined (.ofCall site.call kinds t) m out.2 →
      (∀ r w', out = (.done r, w') → Failing r → w.Faults site.call t w') →
      w.Fair site t (Activity.holding.keep (Holding.permit site s)
        (fun p r w => w.settlePermit site s p (.ofResult r)) op p out).2 := by
    rintro m t p w ⟨s' | r | x, w₁⟩ hout hfaults
    · exact .of_confined hout hk
    · by_cases hr : Failing r
      · exact .inr ((hfaults r w₁ rfl hr).later
          (.settlePermit (fun _ => Entry.ends_of_isReturn) w₁ site s rfl))
      · exact (World.Fair.of_confined hout hk).later (hsettled w₁ p hr)
    · exact (World.Fair.of_confined hout hk).later (hsettled w₁ p nofun)
  refine ⟨fun {t w} hw => ?_, fun {m t s w} hw hs => ?_⟩
  -- the breaker is asked first, which reports no failure
  · have hblames : w.Keeps (fun _ => ()) (Entry.blames site) (acquirePermit site s w).2 := by
      have hset : ∀ b, w.Keeps (fun _ => ()) (Entry.blames site) (w.setBreaker site b) := fun b =>
        .setBreaker w site b rfl (Entry.blames_of_isReturn (Record.isReturn_news site _))
      unfold acquirePermit
      split <;> dsimp only
      · exact (hset _).trans (.note _ _ rfl)
      · exact (hset _).trans (.emit _ site _ rfl)
    cases htake : acquirePermit site s w with
    | mk e w₁ =>
      rw [htake] at hblames
      cases e with
      | error r =>
        have hstart : (Operation.behindBreaker site s op).start t w = _ :=
          Activity.holding_start_error htake
        rw [hstart]
        exact .inl hblames
      | ok p =>
        have hstart : (Operation.behindBreaker site s op).start t w = _ :=
          Activity.holding_start_ok htake
        have hconfined : w.Confined (.ofCall site.call [.breaker] t) w.minted w₁ :=
          .of_acquirePermit site t htake
        have hready := (hconfined.ready hw).later
        rw [hstart]
        refine (hpost (hd.start hready).confined fun r w' hdone hr => ?_).before hconfined hblames
        exact h.start hready hdone hr
  · exact hpost (hd.resume hw hs).confined fun r w' hdone hr => h.resume hw hs hdone hr

/-- **The breaker of a call** is told of a failure for a reason only. -/
theorem stack (hd : op.Attends site.call [] keeps) (h : op.Reports site Failing keeps)
    (hordered : layers.Pairwise fun a b => a.kind.position < b.kind.position) :
    (stack site layers op).Fair site (stackKeeps site op keeps layers) := by
  induction layers with
  | nil => exact .of_attends hd (by simp)
  | cons l rest ih =>
    obtain ⟨hbelow, hrest⟩ := List.pairwise_cons.mp hordered
    have hlast : LayerKind.breaker.position < l.kind.position →
        (CallPolicy.stack site (l :: rest) op).Fair site
          (stackKeeps site op keeps (l :: rest)) := by
      intro hpos
      obtain ⟨hattends, hk⟩ := hd.stack_of_below site <| List.forall_mem_cons.mpr
        ⟨hpos, fun l' hl' => Nat.lt_trans hpos (hbelow l' hl')⟩
      exact .of_attends hattends hk
    cases l with
    | fallback value => exact (ih hrest).withFallback value
    | timeout length => exact (ih hrest).withTimeout length
    | breaker s =>
      obtain ⟨hattends, hk⟩ := hd.stack_of_below site hbelow
      exact .behindBreaker s hattends hk (h.stack site hbelow hd)
    | rateLimit limit => exact hlast (by simp [Layer.kind, LayerKind.position])
    | bulkhead capacity => exact hlast (by simp [Layer.kind, LayerKind.position])
    | retry r => exact hlast (by simp [Layer.kind, LayerKind.position])
    | hedge delay => exact hlast (by simp [Layer.kind, LayerKind.position])

end Operation.Fair

/-! ### Waits that are given up -/

section

variable {op : Operation} {keeps : (CallId → Nat) → Token → op.State → World → Prop}
  {due : Nat → Prop}

/-- Outer layers give back what they hold and pass the failure on; a fallback replaces it. -/
theorem Layer.done_of_waits {inside : op.State → Prop} {good : Result → Prop}
    (hdue : ∀ wakeAt, due wakeAt → w.now < wakeAt)
    (hinside : ∀ {m t s}, keeps m t s w → inside s → w.isCancelled t = true →
      ∃ r w', op.resume s w = (.done r, w') ∧ good r)
    (hgood : good (.error .cancelled)) (l : Layer) {s : (l.apply site op).State}
    (hs : l.keeps site op keeps m t s w) (hwaits : l.Waits site op due inside s)
    (hc : w.isCancelled t = true) :
    ∃ r w', (l.apply site op).resume s w = (.done r, w') ∧
      (good r ∨ ∃ v, l = .fallback v ∧ r = .ok v) := by
  -- each layer passes on what is inside it, and the retry layer gives its wait up
  cases l with
  | fallback value =>
    obtain ⟨r, w', heq, hr⟩ := hinside hs hwaits hc
    rcases r with f | v
    · refine ⟨.ok value, w'.emit site (.fellBack f), ?_, .inr ⟨value, rfl, rfl⟩⟩
      show Activity.after.follow _ op (op.resume s w) = _
      rw [heq]
      rfl
    · refine ⟨.ok v, w', ?_, .inl hr⟩
      show Activity.after.follow _ op (op.resume s w) = _
      rw [heq]
      rfl
  -- the child of a cancelled token is cancelled
  | timeout length =>
    obtain ⟨hu, m', -, -, -, hkept⟩ := hs
    obtain ⟨r, w', heq, hr⟩ :=
      hinside hkept hwaits (World.isCancelled_of_governs hc hu.governs)
    refine ⟨r, w', ?_, .inl hr⟩
    show Activity.after.follow _ (op.within site.call length)
      (Activity.within.check op s.token s.deadline (op.resume s.inner w)) = _
    rw [heq]
    rfl
  | breaker b =>
    obtain ⟨r, w', heq, hr⟩ := hinside hs hwaits hc
    refine ⟨r, w'.settlePermit site b s.1 (.ofResult r), ?_, .inl hr⟩
    show Activity.holding.keep (Holding.permit site b)
      (fun p r w => w.settlePermit site b p (.ofResult r)) op s.1 (op.resume s.2 w) = _
    rw [heq]
    rfl
  | rateLimit limit =>
    change op.State at s
    have hdone := hinside hs hwaits hc
    exact hdone.imp fun r hr => hr.imp fun w' hw' => ⟨hw'.1, .inl hw'.2⟩
  | bulkhead capacity =>
    obtain ⟨r, w', heq, hr⟩ := hinside hs hwaits hc
    refine ⟨r, w'.release (.slot site), ?_, .inl hr⟩
    show Activity.holding.keep (fun _ => .slot site) (fun _ _ w => w.release (.slot site)) op s.1
      (op.resume s.2 w) = _
    rw [heq]
    rfl
  -- its wait is not over, so chance has no say
  | retry r =>
    obtain ⟨token, left, wakeAt, rfl, hearly⟩ := hwaits
    obtain rfl : token = t := hs
    refine ⟨.error .cancelled, w, if_pos ?_, .inl hgood⟩
    rw [givesUp_of_lt (hdue wakeAt hearly), hc]
  -- the hedge lies inside the retry layer, so nothing in it waits
  | hedge delay => exact hwaits.elim

/-- **A wait between attempts is given up** as soon as the token is cancelled. -/
theorem Operation.done_of_waits {layers : List Layer} {s : (stack site layers op).State}
    (hdue : ∀ wakeAt, due wakeAt → w.now < wakeAt)
    (hs : stackKeeps site op keeps layers m t s w) (hwaits : stackWaits site op due layers s)
    (hc : w.isCancelled t = true) :
    ∃ r w', (stack site layers op).resume s w = (.done r, w') ∧
      (r = .error .cancelled ∨ ∃ v, .fallback v ∈ layers ∧ r = .ok v) := by
  induction layers generalizing m t with
  | nil => exact hwaits.elim
  | cons l rest ih =>
    obtain ⟨r, w', heq, hr⟩ := l.done_of_waits hdue ih (.inl rfl) hs hwaits hc
    refine ⟨r, w', heq, ?_⟩
    rcases hr with (hr | ⟨v, hv, hr⟩) | ⟨v, rfl, hr⟩
    · exact .inl hr
    · exact .inr ⟨v, List.mem_cons_of_mem _ hv, hr⟩
    · exact .inr ⟨v, List.mem_cons_self, hr⟩

end

/-! ### Cancelled attempts -/

namespace Operation

/-- An attempt that has ended under a cancelled token ends the retry layer in the same way. -/
theorem proceed_of_isCancelled {r : RetrySettings} {a : Activity Token (Option Result)}
    {left : Nat} {o : Option Result} {e : Result}
    (h : attemptResult site r (r.maxAttempts.toNat - left) o w = (e, w'))
    (hc : w'.isCancelled t = true) :
    (proceed site r t left (.done o, w) : Status (RetryState a.State) Result × World) =
      (.done e, w') := by
  unfold proceed
  dsimp only
  rw [h]
  rcases e with f | v
  · dsimp only
    rw [mayRepeat, if_pos hc]
  · rfl

/-- The instant of a launch that comes under a cancelled token makes no difference. -/
theorem judgeFirst_of_isCancelled {op : Operation} {delay : Duration} {launchAt : Nat}
    {first : op.State} (hdue : launchAt ≤ w.now) (hc : w.isCancelled t = true) :
    judgeFirst site delay t u launchAt (.pending first, w) = judgeAlone (op.resume first w) := by
  rw [judgeFirst, if_pos hdue, launch, if_pos hc]

end Operation

/-! ### Calls -/

/-- How the activity of a call goes on from some point of its life. -/
inductive Activity.GoesOn (a : Activity Token ο) (id : CallId) (timely : Prop) (t : Token)
    (out : Status a.State ο × World) : Status a.State ο × World → Prop
  | here : GoesOn a id timely t out out
  | wait {s : a.State} {w w' : World} (h : GoesOn a id timely t out (.pending s, w))
      (hw : w.Meanwhile id t w') (htimely : timely → ∀ d ∈ a.deadlines s, w'.now ≤ d) :
      GoesOn a id timely t out (.pending s, w')
  | resume {s : a.State} {w : World} (h : GoesOn a id timely t out (.pending s, w)) :
      GoesOn a id timely t out (a.resume s w)

theorem Activity.GoesOn.lives {a : Activity Token ο} {out out' : Status a.State ο × World}
    (h : a.GoesOn id timely t out out') (hl : a.Lives id timely t w₀ out) :
    a.Lives id timely t w₀ out' := by
  induction h with
  | here => exact hl
  | wait _ hw htimely ih => exact ih.wait hw htimely
  | resume _ ih => exact ih.resume

/-- The looks at the activity of a call: the world that one finds, and what comes of it. -/
inductive Activity.Look (a : Activity Token ο) (id : CallId) (timely : Prop) (t : Token)
    (w₀ : World) : World → Status a.State ο × World → Prop
  | first : Look a id timely t w₀ w₀ (a.start t w₀)
  | again {s : a.State} {w : World} (h : a.Lives id timely t w₀ (.pending s, w)) :
      Look a id timely t w₀ w (a.resume s w)

theorem Activity.Look.lives {a : Activity Token ο} {out : Status a.State ο × World}
    (h : a.Look id timely t w₀ w out) : a.Lives id timely t w₀ out := by
  cases h with
  | first => exact .start
  | again h => exact h.resume

section

variable {op : Operation} {keeps : (CallId → Nat) → Token → op.State → World → Prop}
  {out out' : Status op.State Result × World} {due : op.State → Nat → Prop}
  {waits : op.State → Prop}

/-- Whoever looks at the call leaves it waiting under a live token only. -/
theorem Activity.WaitsLive.of_look (h : op.WaitsLive keeps waits)
    (hd : op.Attends id kinds keeps) (hw₀ : w₀.Ready w₀.minted t)
    (hl : op.Look id timely t w₀ w out) {s : op.State} (hs : out.1 = .pending s) (hwaits : waits s) :
    out.2.isCancelled t = false := by
  cases hl with
  | first => exact h.start hw₀ (Prod.ext hs rfl) hwaits
  | again hl =>
    obtain ⟨hready, hkept⟩ := hd.lives hw₀ hl
    exact h.resume hready hkept (Prod.ext hs rfl) hwaits

namespace Activity.Minds

/-- **Once its token is cancelled**, a call that does not wait begins nothing new. -/
theorem dormant_of_goesOn (h : op.Minds site keeps due) (hwaits : op.WaitsLive keeps waits)
    (hdue : ∀ {s now}, due s now → waits s) (hd : op.Attends site.call kinds keeps)
    (hw₀ : w₀.Ready w₀.minted t) (hl : op.Lives site.call timely t w₀ out)
    (hc : out.2.isCancelled t = true) (hstill : ∀ s, out.1 = .pending s → ¬waits s)
    (hg : op.GoesOn site.call timely t out out') :
    out.2.Dormant site.call out'.2 ∧ ∀ s, out'.1 = .pending s → ¬waits s := by
  induction hg with
  | here => exact ⟨.refl _, hstill⟩
  | wait _ hw _ ih => exact ⟨ih.1.trans (.of_meanwhile hw), ih.2⟩
  | @resume s w hg ih =>
    obtain ⟨hdormant, hrests⟩ := ih
    obtain ⟨hready, hkept⟩ := hd.lives hw₀ (hg.lives hl)
    have hc' := World.isCancelled_of_suffix hdormant.cancelled hc
    have hheeds := h.resume hready hkept fun _ hs => hrests s rfl (hdue hs)
    have hnew := hheeds.dormant_of_cancelled hc'
    refine ⟨hdormant.trans hnew, fun s' hs' hwaiting => ?_⟩
    -- nobody is left waiting under a cancelled token
    have hlive := hwaits.resume hready hkept (Prod.ext hs' rfl) hwaiting
    exact Bool.eq_false_iff.mp hlive (World.isCancelled_of_suffix hnew.cancelled hc')

/-- A call that was cancelled before it was started invokes its operation once at most. -/
theorem once_of_lives (h : op.Minds site keeps due) (hwaits : op.WaitsLive keeps waits)
    (hdue : ∀ {s now}, due s now → waits s) (hd : op.Attends site.call kinds keeps)
    (hw₀ : w₀.Ready w₀.minted t) (hc : w₀.isCancelled t = true)
    (hl : op.Lives site.call timely t w₀ out) : w₀.Once site.call out.2 := by
  have hlate := h.late hw₀ hc
  have hc' := World.isCancelled_of_suffix hlate.cancelled hc
  have hstill : ∀ s, (op.start t w₀).1 = .pending s → ¬waits s := fun s hs hwaiting =>
    Bool.eq_false_iff.mp (hwaits.start hw₀ (Prod.ext hs rfl) hwaiting) hc'
  have hgoesOn : op.GoesOn site.call timely t (op.start t w₀) out := by
    induction hl with
    | start => exact .here
    | wait _ hw htimely ih => exact ih.wait hw htimely
    | resume _ ih => exact ih.resume
  exact hlate.dormant
    (h.dormant_of_goesOn hwaits hdue hd hw₀ .start hc' hstill hgoesOn).1

end Activity.Minds

end

/-- **Cancellation stops new work.** Whenever a call has been looked at and its token is
cancelled, by whomever, nothing new is begun for it from then on: it is not left waiting for
another attempt, and the breaker was told of a failure only if the trace shows a reason. If
the token was cancelled while the call was suspended, nothing new is begun in that look
either, unless a wait between attempts is over by then; a wait that is not over is given up
at once. No invocation is recorded under a cancelled token unless a hook of the call has
cancelled it. A call that is let in under a token that was cancelled before invokes its
operation once. Under a cancelled token an attempt that ends decides, whatever its result,
and the hedge layer does not launch a second one. -/
theorem cancellation_stops_new_work (p : Policy) (script : Script) (timely : Prop)
    (hw₀ : w₀.Awaits id t) :
    let site : Site := ⟨p.origin, id⟩
    let f := script.operation id
    let call := p.call id f
    (∀ w out, call.Look id timely t w₀ w out → w.Fair site t out.2 ∧
      (out.2.isCancelled t = true →
        (∀ s, out.1 = .pending s → ¬stackWaits site f (fun _ => True) p.layers s) ∧
        ∀ out', call.GoesOn id timely t out out' → out.2.Dormant id out'.2)) ∧
    (∀ s w, call.Lives id timely t w₀ (.pending s, w) → w.isCancelled t = true →
      (¬stackWaits site f (· ≤ w.now) p.layers s → w.Dormant id (call.resume s w).2) ∧
      (stackWaits site f (w.now < ·) p.layers s → ∃ r w', w'.now = w.now ∧
        call.resume s w = (.done r, w') ∧
        (r = .error .cancelled ∨ ∃ v, .fallback v ∈ p.layers ∧ r = .ok v))) ∧
    (w₀.isCancelled t = false → w₀.InvokesLive site t (call.start t w₀).2) ∧
    (∀ s w, call.Lives id timely t w₀ (.pending s, w) →
      (w.isCancelled t = true → ¬stackWaits site f (· ≤ w.now) p.layers s) →
      w.InvokesLive site t (call.resume s w).2) ∧
    (w₀.isCancelled t = true → ∀ out, call.Lives id timely t w₀ out → w₀.Once id out.2 ∧
      ((out.2.invoked id).length = 1 ∨
        ∃ gate, ∃ e ∈ out.2.trace, e.record.refusal? = some (site, gate))) ∧
    (∀ (u : Token), t.governs u = true → ∀ (r : RetrySettings)
      (a : Activity Token (Option Result)) (left : Nat) (o : Option Result) (w : World),
      let ended := attemptResult site r (r.maxAttempts.toNat - left) o w
      ended.2.isCancelled t = true →
        proceed site r (a := a) u left (.done o, w) = (.done ended.1, ended.2)) ∧
    ∀ (u : Token), t.governs u = true → ∀ (op : Operation) (delay : Duration) (v : Token)
      (launchAt : Nat) (first : op.State) (w : World), launchAt ≤ w.now →
      w.isCancelled t = true → judgeFirst site delay u v launchAt (.pending first, w) =
        judgeAlone (op.resume first w) := by
  intro site f call
  -- what the operation heeds, and what it reports of its end, the layers pass on
  obtain ⟨keeps, hd, hminds⟩ := Minds.script script site
  obtain ⟨keeps', hd', hreports⟩ := Reports.script script site
  have hattends := hd.stack site p.layers
  have hattends' := hd'.stack site p.layers
  have hmind := hminds.stack site p.ordered hd
  -- a call that waits between attempts waits under a live token
  have hwaits : (stack site p.layers f).WaitsLive _ (stackWaits site f (fun _ => True) p.layers) :=
    .stack site f keeps (fun _ => True) p.layers
  have hdue : ∀ {s now}, stackWaits site f (· ≤ now) p.layers s →
      stackWaits site f (fun _ => True) p.layers s := stackWaits_mono fun _ _ => trivial
  have hfair := Operation.Fair.stack hd' hreports p.ordered
  have hguarded : (stack site p.layers f).Guarded site p.layers _ :=
    .stack hd (.script script id) p.ordered p.faultless
  refine ⟨fun w out hlook => ⟨?_, fun hc => ?_⟩, fun s w hl hc => ⟨fun hearly => ?_, fun hs => ?_⟩,
    fun hlive => ?_, fun s w hl hearly => ?_, fun hc out hl => ?_,
    fun u hu r a left o w hc => ?_, fun u hu op delay v launchAt first w hdue hc => ?_⟩
  -- a breaker is told of a failure for a reason only
  · cases hlook with
    | first => exact hfair.start hw₀.ready
    | again hl =>
      obtain ⟨hready, hkept⟩ := hattends'.lives hw₀.ready hl
      exact hfair.resume hready hkept
  -- after a look under a cancelled token nothing waits, so nothing begins
  · have hstill : ∀ s, out.1 = .pending s → ¬stackWaits site f (fun _ => True) p.layers s :=
      fun s hs hwaiting =>
        Bool.eq_false_iff.mp (hwaits.of_look hattends hw₀.ready hlook hs hwaiting) hc
    exact ⟨hstill, fun out' hg =>
      (hmind.dormant_of_goesOn hwaits hdue hattends hw₀.ready hlook.lives hc hstill hg).1⟩
  · obtain ⟨hready, hkept⟩ := hattends.lives hw₀.ready hl
    exact (hmind.resume hready hkept fun _ => hearly).dormant_of_cancelled hc
  · obtain ⟨hready, hkept⟩ := hattends.lives hw₀.ready hl
    -- the wait is given up at this very look
    obtain ⟨r, w', heq, hr⟩ := Operation.done_of_waits (fun _ h => h) hkept hs hc
    have hnow := (hattends.resume hready hkept).confined.now
    rw [heq] at hnow
    exact ⟨r, w', hnow, heq, hr⟩
  · exact (hmind.start hw₀.ready hlive).invokesLive
  · obtain ⟨hready, hkept⟩ := hattends.lives hw₀.ready hl
    exact (hmind.resume hready hkept hearly).invokesLive
  -- one invocation at most, and none only if a gate refused the call
  · have honce := hmind.once_of_lives hwaits hdue hattends hw₀.ready hc hl
    refine ⟨honce, ?_⟩
    rcases hguarded.lives hattends hw₀ hl with henters | ⟨r, gate, w', -, rfl, hturned⟩
    · have hnone : (w₀.invoked id).length = 0 := congrArg List.length (hw₀.invoked .self)
      have hsome : (w₀.invoked id).length < (out.2.invoked id).length := henters.invoked
      have hone : (out.2.invoked id).length ≤ (w₀.invoked id).length + 1 := honce.invoked
      exact .inl (by omega)
    · exact .inr ⟨gate, hturned.exists_refusal⟩
  · exact Operation.proceed_of_isCancelled rfl (World.isCancelled_of_governs hc hu)
  · exact Operation.judgeFirst_of_isCancelled hdue (World.isCancelled_of_governs hc hu)

/-- A policy that repeats failed attempts, ten milliseconds later, behind a breaker. -/
def patient : Policy where
  origin := ⟨0, "p", .none⟩
  layers := [.breaker {}, .retry { maxAttempts := 3, backoff := .constant (.ofMillis 10) }]
  criticality := .critical
  dependencies := []
  ordered := by simp [Layer.kind, LayerKind.position]
  faultless l hl := by
    simp only [List.mem_cons, List.not_mem_nil, or_false] at hl
    rcases hl with rfl | rfl <;> decide

/-- A script whose only response is a failure. -/
def failing : Script := [[.give (.error (.operation "e" none))]]

/-- A script that cancels its caller's token and answers that. -/
def quitting : Script := [[.cancel "t", .give (.error .cancelled)]]

/-- A call through the policy. -/
def patientCall (script : Script) : Operation :=
  patient.call (.top "c" 0) (script.operation (.top "c" 0))

/-- The world in which the call is started, with the policy built. -/
def beforeRetrying : World := patient.install (.start .plain)

/-- The first attempt has failed, and the caller gives up. -/
def givenUp : World :=
  ((patientCall failing).start (.named "t") beforeRetrying).2.cancel (.named "t")

/-- What comes of the only look at an operation that cancels the token itself. -/
def answered : Status (patientCall quitting).State Result × World :=
  (patientCall quitting).start (.named "t") beforeRetrying

/-- There is no second attempt, and an answer to the cancellation is no failure. -/
theorem cancellation_stops_new_work_patient :
    beforeRetrying.Awaits (.top "c" 0) (.named "t") ∧
    (∃ s r w, (patientCall failing).Lives (.top "c" 0) True (.named "t") beforeRetrying
        (.pending s, givenUp) ∧
      (patientCall failing).resume s givenUp = (.done r, w) ∧ r = .error .cancelled ∧
      givenUp.Dormant (.top "c" 0) w) ∧
    answered.1 = .done (.error .cancelled) ∧ answered.2.isCancelled (.named "t") = true ∧
    beforeRetrying.Keeps (fun _ => ()) (Entry.blames ⟨patient.origin, .top "c" 0⟩) answered.2 := by
  have hw₀ : beforeRetrying.Awaits (.top "c" 0) (.named "t") :=
    ⟨nofun, nofun, fun _ => rfl, nofun⟩
  refine ⟨hw₀, ?_, rfl, rfl, ?_⟩
  · -- the token is cancelled during the pause
    obtain ⟨keeps, hd⟩ := patient.docile (.top "c" 0) failing
    have hfirst := (hd.start hw₀.ready).confined
    have hmeanwhile : ((patientCall failing).start (.named "t") beforeRetrying).2.Meanwhile
        (.top "c" 0) (.named "t") givenUp := by
      refine ⟨Nat.le_refl _, fun a ha => ?_, ⟨fun _ => Nat.le_refl _, [.named "t"], rfl, ?_⟩,
        fun _ => rfl, [], rfl, nofun⟩
      · rcases List.mem_cons.mp ha with rfl | ha
        · exact nofun
        · exact hfirst.sane hw₀.sane a ha
      · intro a ha c v hv hav
        obtain rfl := List.mem_singleton.mp ha
        exact Token.governs_self _
    let s : (patientCall failing).State := (⟨0, false⟩, .waiting (.named "t") 1 10000000)
    have hl : (patientCall failing).Lives (.top "c" 0) True (.named "t") beforeRetrying
        (.pending s, givenUp) := by
      have hstart : (patientCall failing).Lives (.top "c" 0) True (.named "t") beforeRetrying
          (.pending s, ((patientCall failing).start (.named "t") beforeRetrying).2) := .start
      exact hstart.wait hmeanwhile fun _ d hd => Nat.zero_le _
    have hc : givenUp.isCancelled (.named "t") = true := rfl
    obtain ⟨-, hlater, -⟩ := cancellation_stops_new_work patient failing True hw₀
    obtain ⟨hearly, hwait⟩ := hlater s givenUp hl hc
    obtain ⟨r, w, -, hdone, hr⟩ := hwait ⟨_, _, _, rfl, by decide⟩
    have hnotOver : ¬stackWaits ⟨patient.origin, .top "c" 0⟩ (failing.operation (.top "c" 0))
        (· ≤ givenUp.now) patient.layers s := by
      rintro ⟨token, left, wakeAt, heq, hdue⟩
      obtain ⟨-, -, rfl⟩ := RetryState.waiting.inj heq
      exact absurd hdue (by decide)
    refine ⟨s, r, w, hl, hdone, ?_, ?_⟩
    · rcases hr with hr | ⟨v, hv, -⟩
      · exact hr
      · simp [patient] at hv
    · have hrest := hearly hnotOver
      rw [hdone] at hrest
      exact hrest
  · -- the operation cancels the token, and nothing that has ended has failed
    obtain ⟨hlooks, -⟩ := cancellation_stops_new_work patient quitting True hw₀
    rcases (hlooks _ _ .first).1 with hkeeps | hfaults
    · exact hkeeps
    · have hfine : ∀ e ∈ answered.2.trace, e.fails (.top "c" 0) = false := by decide
      have hhooks : ∀ e ∈ answered.2.trace, e.record.cancels (.named "t") = false := by decide
      cases hfaults with
      | failed htrace _ _ he =>
        have hmem := htrace ▸ List.mem_append_right _ List.mem_cons_self
        rw [hfine _ hmem] at he
        cases he
      | live htrace _ _ _ hnow =>
        rcases hnow with hlive | ⟨e, he, hcancels⟩
        · cases hlive
        · rw [hhooks e (htrace ▸ List.mem_append_left _ he)] at hcancels
          cases hcancels

end CallPolicy
