/-
The course that the retry layer takes.

The layer makes one attempt after the other. Each attempt that is followed by another
one is a `Trial` with the pause after it, and `Course` says how the trials so far have
led to where the layer stands: each was a life of its own, was not the last one by
`RetrySettings.isLast`, and the layer told of it what `RetrySettings.records` says.
`Progress` says what the layer is up to after some trials.

* **`Course.proceed`** — what comes of an attempt, once it has ended too;
* **`Operation.progress_of_lives`** — under a live token the layer takes such a course all
  its life;
* **`Course.retold_eq`** — what it has told of its trials, and nothing else.
-/
import CallPolicy.Proofs.Deadline

namespace CallPolicy

open Activity Operation

/-! ### What is to be done after an attempt -/

/-- The result of an attempt: one that has expired has failed by its deadline. -/
def Operation.outcome (o : Option Result) : Result := o.getD (.error .timeout)

namespace RetrySettings

/-- Does the policy's own condition, if it has one, let a failure be repeated? -/
def wants (s : RetrySettings) (f : Failure) : Bool := s.retryIf.elim true (· f)

/-- Is attempt number `n` the last one if it ends like this? -/
def isLast (s : RetrySettings) (n : Nat) : Result → Bool
  | .ok _ => true
  | .error f => f.isPermanent || !s.wants f || n = s.maxAttempts.toNat

/-- What the layer makes of the result of the last attempt. -/
def verdict (s : RetrySettings) : Result → Result
  | .ok v => .ok v
  | .error f =>
    if f.isPermanent || !s.wants f then .error f else .error (.exhausted s.maxAttempts.toNat f)

/-- What is recorded when an attempt has expired. -/
def expiry (site : Site) (s : RetrySettings) (n : Nat) (o : Option Result) : List Record :=
  if o.isNone then (s.attemptTimeout.map fun d => Record.event site (.attemptTimedOut n d)).toList
  else []

/-- What is recorded when the policy's own condition is asked about a failure. -/
def question (site : Site) (s : RetrySettings) (f : Failure) : List Record :=
  (s.retryIf.map fun p => Record.asked site f (p f)).toList

/-- **What the layer records** when attempt number `n` has ended, the last first: that the
attempt has expired, what the policy's own condition says, and that another attempt
follows. -/
def records (site : Site) (s : RetrySettings) (n : Nat) (o : Option Result) : List Record :=
  match outcome o with
  | .ok _ => []
  | .error f =>
    (if s.isLast n (.error f) then [] else [.event site (.retrying n f)]) ++
      (s.question site f ++ s.expiry site n o)

end RetrySettings

variable {site : Site} {s : RetrySettings} {op : Operation} {kinds : List LayerKind}
  {keeps : (CallId → Nat) → Token → op.State → World → Prop} {w w' w₀ w₁ w₂ w₃ x y : World}
  {t u : Token} {timely : Prop} {n left : Nat} {o : Option Result} {f : Failure}
  {m : CallId → Nat} {id : CallId}

/-- A layer that accepts its settings may make an attempt. -/
theorem RetrySettings.attempts_pos (hs : (Layer.retry s).fault? = none) :
    0 < s.maxAttempts.toNat := by
  refine Nat.pos_of_ne_zero fun hzero => ?_
  have hz : s.maxAttempts = 0 := UInt32.toNat_inj.mp hzero
  simp [Layer.fault?, hz] at hs

/-- A token that is live in the end was so before. -/
theorem World.Confined.live {σ : Scope} (h : w.Confined σ m w') (ht : w'.isCancelled t = false) :
    w.isCancelled t = false :=
  Bool.eq_false_iff.mpr fun hc => Bool.eq_false_iff.mp ht (h.isCancelled hc)

/-- A token that is live after a while was so before. -/
theorem World.Meanwhile.live (h : w.Meanwhile id u w') (ht : w'.isCancelled t = false) :
    w.isCancelled t = false :=
  Bool.eq_false_iff.mpr fun hc => Bool.eq_false_iff.mp ht (h.spares.isCancelled hc)

namespace Operation

/-- The result of an attempt and what is recorded of it. -/
theorem attemptResult_eq (site : Site) (s : RetrySettings) (n : Nat) (o : Option Result)
    (w : World) : (attemptResult site s n o w).1 = outcome o ∧
    (attemptResult site s n o w).2.trace = (s.expiry site n o).map (Entry.mk w.now) ++ w.trace := by
  unfold attemptResult RetrySettings.expiry outcome
  split
  · exact ⟨rfl, rfl⟩
  next d hd =>
    rw [hd]
    exact ⟨rfl, w.emit_trace _ _⟩
  next hd =>
    rw [hd]
    exact ⟨rfl, rfl⟩

/-- Whether an attempt may be repeated under a live token, and what is recorded then. -/
theorem mayRepeat_eq (site : Site) (s : RetrySettings) (f : Failure)
    (hlive : w.isCancelled t = false) : (mayRepeat site s t f w).1 = (s.wants f && !f.isPermanent) ∧
      (mayRepeat site s t f w).2.trace = (s.question site f).map (Entry.mk w.now) ++ w.trace := by
  unfold mayRepeat RetrySettings.question RetrySettings.wants
  rw [hlive, if_neg Bool.false_ne_true]
  split
  next hp =>
    rw [hp]
    exact ⟨rfl, rfl⟩
  next p hp =>
    rw [hp]
    exact ⟨rfl, rfl⟩

/-- A delay is the one that some draw gives. -/
theorem nextDelay_eq : (∃ draw, (nextDelay s n w).1 = s.delayAfter n draw) ∧
    (nextDelay s n w).2.trace = w.trace := by
  unfold nextDelay
  split
  · exact ⟨⟨_, rfl⟩, rfl⟩
  · exact ⟨⟨_, rfl⟩, rfl⟩

/-- A failed attempt that is not to be repeated, or may be. -/
theorem judged_eq {again : Bool} (h₁ : attemptResult site s n o w = (.error f, w₁))
    (h₂ : mayRepeat site s t f w₁ = (again, w₂)) (hlive : w₂.isCancelled t = false) :
    outcome o = .error f ∧ (f.isPermanent || !s.wants f) = !again ∧ w₂.trace =
      (s.question site f ++ s.expiry site n o).map (Entry.mk w.now) ++ w.trace := by
  have hconf₁ : w.Confined (.ofCall site.call [.retry] t) w.minted (attemptResult site s n o w).2 :=
    .attemptResult site s w t List.mem_cons_self n o
  have hconf₂ : w₁.Confined (.ofCall site.call [.retry] t) w.minted (mayRepeat site s t f w₁).2 :=
    .mayRepeat site s w₁ t List.mem_cons_self t f
  obtain ⟨hresult, htrace₁⟩ := attemptResult_eq site s n o w
  rw [h₁] at hconf₁ hresult htrace₁
  rw [h₂] at hconf₂
  obtain ⟨hagain, htrace₂⟩ := mayRepeat_eq site s f (hconf₂.live hlive)
  rw [h₂] at hagain htrace₂
  refine ⟨hresult.symm, ?_, ?_⟩
  · have hagain : again = (s.wants f && !f.isPermanent) := hagain
    rw [hagain, Bool.not_and, Bool.not_not, Bool.or_comm]
  · rw [htrace₂, htrace₁, List.map_append, List.append_assoc, hconf₁.now]

end Operation

/-- The layer has told of attempt number `n`, which has ended, and done nothing else. -/
structure World.Recounts (w : World) (site : Site) (s : RetrySettings) (t : Token)
    (m : CallId → Nat) (n : Nat) (o : Option Result) (w' : World) : Prop where
  confined : w.Confined (.ofCall site.call [.retry] t) m w'
  trace : w'.trace = (s.records site n o).map (Entry.mk w.now) ++ w.trace

namespace Operation

/-- An attempt has a value, and is the last one. -/
theorem tells_of_ok {v : String} (h₁ : attemptResult site s n o w = (.ok v, w₁)) :
    w.Recounts site s t m n o w₁ ∧ s.isLast n (outcome o) = true ∧
      s.verdict (outcome o) = .ok v := by
  have hconf : w.Confined (.ofCall site.call [.retry] t) m (attemptResult site s n o w).2 :=
    .attemptResult site s w t List.mem_cons_self n o
  obtain ⟨hresult, htrace⟩ := attemptResult_eq site s n o w
  rw [h₁] at hconf hresult htrace
  have ho : outcome o = .ok v := hresult.symm
  have hnone : s.expiry site n o = [] := by
    cases o with
    | none => cases ho
    | some r => rfl
  refine ⟨⟨hconf, ?_⟩, by rw [ho]; rfl, by rw [ho]; rfl⟩
  rw [htrace, hnone, RetrySettings.records, ho]

/-- An attempt has failed, and is the last one: the failure is not to be repeated. -/
theorem tells_of_refused (h₁ : attemptResult site s n o w = (.error f, w₁))
    (h₂ : mayRepeat site s t f w₁ = (false, w₂)) (hlive : w₂.isCancelled t = false) :
    w.Recounts site s t m n o w₂ ∧ s.isLast n (outcome o) = true ∧
      s.verdict (outcome o) = .error f := by
  obtain ⟨ho, hstop, htrace⟩ := judged_eq h₁ h₂ hlive
  have hlast : s.isLast n (.error f) = true := by
    rw [RetrySettings.isLast, hstop, Bool.not_false, Bool.true_or]
  refine ⟨⟨.judged site s w t List.mem_cons_self h₁ h₂, ?_⟩, by rw [ho]; exact hlast, ?_⟩
  · rw [htrace, RetrySettings.records, ho]
    dsimp only
    rw [hlast, if_pos rfl, List.nil_append]
  · rw [ho, RetrySettings.verdict, hstop, Bool.not_false, if_pos rfl]

/-- The last attempt of all has failed, and would be repeated otherwise. -/
theorem tells_of_spent (h₁ : attemptResult site s n o w = (.error f, w₁))
    (h₂ : mayRepeat site s t f w₁ = (true, w₂)) (hlive : w₂.isCancelled t = false)
    (hn : n = s.maxAttempts.toNat) :
    w.Recounts site s t m n o w₂ ∧ s.isLast n (outcome o) = true ∧
      s.verdict (outcome o) = .error (.exhausted n f) := by
  obtain ⟨ho, hgoes, htrace⟩ := judged_eq h₁ h₂ hlive
  have hlast : s.isLast n (.error f) = true := by
    rw [RetrySettings.isLast, hgoes, Bool.not_true, Bool.false_or, decide_eq_true hn]
  refine ⟨⟨.judged site s w t List.mem_cons_self h₁ h₂, ?_⟩, by rw [ho]; exact hlast, ?_⟩
  · rw [htrace, RetrySettings.records, ho]
    dsimp only
    rw [hlast, if_pos rfl, List.nil_append]
  · rw [ho, RetrySettings.verdict, hgoes, Bool.not_true, if_neg Bool.false_ne_true, hn]

/-- An attempt has failed, and another one follows after a delay. -/
theorem tells_of_repeated {d : Duration} (h₁ : attemptResult site s n o w = (.error f, w₁))
    (h₂ : mayRepeat site s t f w₁ = (true, w₂))
    (h₃ : nextDelay s n (w₂.emit site (.retrying n f)) = (d, w₃))
    (hlive : w₃.isCancelled t = false) (hn : n ≠ s.maxAttempts.toNat) :
    w.Recounts site s t m n o w₃ ∧ s.isLast n (outcome o) = false ∧
      ∃ draw, d = s.delayAfter n draw := by
  have hconf : w.Confined (.ofCall site.call [.retry] t) m w₃ :=
    .repeated site s w t List.mem_cons_self h₁ h₂ h₃
  obtain ⟨hdraw, htrace₃⟩ := nextDelay_eq (s := s) (n := n) (w := w₂.emit site (.retrying n f))
  have hconf₃ := World.Confined.nextDelay (σ := .ofCall site.call [.retry] t) (m := m) s
    (w₂.emit site (.retrying n f)) n
  rw [h₃] at hdraw htrace₃ hconf₃
  have htold : Event.teller (.retrying n f) ∈ [LayerKind.retry] := List.mem_cons_self
  have hconf₂ : w₂.Confined (.ofCall site.call [.retry] t) m w₃ :=
    (World.Confined.emit w₂ (Scope.records_event site t htold)).trans hconf₃
  obtain ⟨ho, hgoes, htrace⟩ := judged_eq h₁ h₂ (hconf₂.live hlive)
  have hlast : s.isLast n (.error f) = false := by
    rw [RetrySettings.isLast, hgoes, Bool.not_true, Bool.false_or, decide_eq_false hn]
  refine ⟨⟨hconf, ?_⟩, by rw [ho]; exact hlast, hdraw⟩
  rw [htrace₃, World.emit_trace, htrace, ← hconf₂.now, hconf.now, RetrySettings.records, ho]
  dsimp only
  rw [hlast]
  rfl

end Operation

/-! ### Trials -/

/-- An attempt that has ended, and the pause after it. -/
structure Trial where
  /-- Its number, from one on. -/
  number : Nat
  /-- The world that it started in. -/
  started : World
  output : Option Result
  /-- The world that it ended in. -/
  ended : World
  pause : Duration

namespace Trial

/-- The result of the attempt. -/
def result (e : Trial) : Result := outcome e.output

/-- What the layer has recorded of the attempt, the last first. -/
def entries (site : Site) (s : RetrySettings) (e : Trial) : List Entry :=
  (s.records site e.number e.output).map (Entry.mk e.ended.now)

/-- The instant at which the pause is over. -/
def wakeAt (e : Trial) : Nat := e.ended.wakeTime e.pause

end Trial

section

variable (site : Site) (s : RetrySettings) (op : Operation) (timely : Prop) (t : Token)

/-- After some trials, the last first, that have led to the world `x`, the next attempt
starts in the world `y`: at once, or when the pause is over. In a timely run it starts at
that very instant. -/
def Starts : List Trial → World → World → Prop
  | [], x, y => y = x
  | e :: _, x, y => x.Meanwhile site.call t y ∧ e.wakeAt ≤ y.now ∧ (timely → y.now = e.wakeAt)

/-- An attempt has ended, number and all. -/
structure Trial.Made (ts : List Trial) (x : World) (e : Trial) : Prop where
  number : e.number = ts.length + 1
  starts : Starts site timely t ts x e.started
  lives : (attempt site s op).Lives site.call timely t e.started (.done e.output, e.ended)

/-- **The course of the layer**: some trials, the last first, that other attempts follow
have led from the world `w₀` to the world `x`. -/
inductive Course (w₀ : World) : List Trial → World → Prop
  | start : Course w₀ [] w₀
  | again {ts : List Trial} {x x' : World} {e : Trial} (h : Course w₀ ts x)
      (made : e.Made site s op timely t ts x) (goesOn : s.isLast e.number e.result = false)
      (tells : e.ended.Recounts site s t w₀.minted e.number e.output x')
      (delay : ∃ draw, e.pause = s.delayAfter e.number draw) : Course w₀ (e :: ts) x'

/-- What the layer is up to after some trials, with the attempts that are left: an attempt
or a pause is under way, or the last attempt has ended. -/
inductive Progress (w₀ : World) :
    Status (RetryState (attempt site s op).State) Result × World → Prop
  | trying {ts : List Trial} {x y w : World} {left : Nat} {inner : (attempt site s op).State}
      (h : Course site s op timely t w₀ ts x) (starts : Starts site timely t ts x y)
      (lives : (attempt site s op).Lives site.call timely t y (.pending inner, w))
      (count : ts.length + 1 + left = s.maxAttempts.toNat) :
      Progress w₀ (.pending (.trying t left inner), w)
  | waiting {ts : List Trial} {x w : World} {left : Nat} {e : Trial}
      (h : Course site s op timely t w₀ (e :: ts) x) (meanwhile : x.Meanwhile site.call t w)
      (early : timely → w.now ≤ e.wakeAt)
      (count : (e :: ts).length + 1 + left = s.maxAttempts.toNat) :
      Progress w₀ (.pending (.waiting t left e.wakeAt), w)
  | done {ts : List Trial} {x w : World} {e : Trial}
      (h : Course site s op timely t w₀ ts x) (made : e.Made site s op timely t ts x)
      (last : s.isLast e.number e.result = true)
      (tells : e.ended.Recounts site s t w₀.minted e.number e.output w)
      (count : e.number ≤ s.maxAttempts.toNat) : Progress w₀ (.done (s.verdict e.result), w)
  | panicked {ts : List Trial} {x y w : World} {text : String}
      (h : Course site s op timely t w₀ ts x) (starts : Starts site timely t ts x y)
      (lives : (attempt site s op).Lives site.call timely t y (.panicked text, w))
      (count : ts.length < s.maxAttempts.toNat) : Progress w₀ (.panicked text, w)

end

theorem World.wakeTime_congr (h : w.now = w'.now) (d : Duration) :
    w.wakeTime d = w'.wakeTime d := by
  unfold World.wakeTime World.deadline
  rw [h]

theorem World.now_le_wakeTime (w : World) (d : Duration) : w.now ≤ w.wakeTime d :=
  w.now_le_deadline _

/-- Nothing happens between a world and itself. -/
theorem World.Ready.meanwhile (h : w.Ready m t) : w.Meanwhile id u w :=
  ⟨Nat.le_refl _, h.sane, .refl _ _ _, fun _ => rfl, [], rfl, nofun⟩

/-- What began later may be taken to have begun earlier. -/
theorem World.Ready.since (h : w'.Ready w.minted t) (hw : w.Ready m t) : w'.Ready m t :=
  ⟨h.sane, h.token, fun c => Nat.le_trans (hw.made c) (h.made c)⟩

/-- A pause that is over is followed by the next attempt. -/
theorem Operation.withRetry_resume_waiting {wakeAt : Nat} (hlive : w.isCancelled t = false) :
    (withRetry site s op).resume (.waiting t left wakeAt) w =
      if wakeAt ≤ w.now then proceed site s t left ((attempt site s op).start t w)
      else (.pending (.waiting t left wakeAt), w) := by
  rw [resume_waiting, if_neg (not_givesUp hlive)]

section

variable {ts : List Trial} (hd : op.Attends site.call kinds keeps) (hw₀ : w₀.Ready w₀.minted t)

/-- The layer may go on with its token when an attempt starts. -/
theorem Starts.ready (h : Starts site timely t ts x y) (hx : x.Ready m t) : y.Ready m t := by
  cases ts with
  | nil =>
    obtain rfl := h
    exact hx
  | cons e ts => exact h.1.spares.ready hx h.1.sane

include hd hw₀

/-- The layer may go on with its token after some trials. -/
theorem Course.ready (h : Course site s op timely t w₀ ts x) : x.Ready w₀.minted t := by
  induction h with
  | start => exact hw₀
  | again _ made _ tells _ ih =>
    have hstarted := made.starts.ready ih
    have hended := ((hd.attempt s).lives hstarted.later made.lives).1
    exact tells.confined.ready (hended.since hstarted)

/-- **What comes of an attempt** under a live token: it goes on, it is the last one, or the
next one is awaited or started. -/
theorem Course.proceed (h : Course site s op timely t w₀ ts x)
    (hstarts : Starts site timely t ts x y) (left : Nat)
    (out : Status (attempt site s op).State (Option Result) × World)
    (hlives : (attempt site s op).Lives site.call timely t y out)
    (hcount : ts.length + 1 + left = s.maxAttempts.toNat)
    (hlive : (proceed site s t left out).2.isCancelled t = false) :
    Progress site s op timely t w₀ (proceed site s t left out) := by
  -- the loop starts attempts that are due at once, so the induction is on those left
  fun_induction Operation.proceed site s t left out generalizing ts x y
  case case1 left inner w => exact .trying h hstarts hlives hcount
  case case2 left text w => exact .panicked h hstarts hlives (by omega)
  case case3 left o w n v w₁ h₁ =>
    have hn : n = ts.length + 1 := by omega
    obtain ⟨htells, hlast, hverdict⟩ := tells_of_ok (t := t) (m := w₀.minted) h₁
    rw [← hverdict]
    exact .done (e := ⟨n, y, o, w, .zero⟩) h ⟨hn, hstarts, hlives⟩ hlast htells (Nat.sub_le _ _)
  case case4 left o w n f w₁ h₁ w₂ h₂ =>
    have hn : n = ts.length + 1 := by omega
    obtain ⟨htells, hlast, hverdict⟩ := tells_of_refused (m := w₀.minted) h₁ h₂ hlive
    rw [← hverdict]
    exact .done (e := ⟨n, y, o, w, .zero⟩) h ⟨hn, hstarts, hlives⟩ hlast htells (Nat.sub_le _ _)
  case case5 o w f w₁ w₂ h₂ n h₁ =>
    have hn : n = ts.length + 1 := by omega
    obtain ⟨htells, hlast, hverdict⟩ := tells_of_spent (m := w₀.minted) h₁ h₂ hlive (by omega)
    rw [← hverdict]
    exact .done (e := ⟨n, y, o, w, .zero⟩) h ⟨hn, hstarts, hlives⟩ hlast htells (Nat.sub_le _ _)
  case case6 o w f w₁ w₂ h₂ left d w₃ wakeAt n h₁ h₃ hcancelled =>
    exact absurd hcancelled (not_givesUp hlive)
  case case7 o w f w₁ w₂ h₂ left d w₃ wakeAt hdue n h₁ h₃ hlive₃ ih =>
    have hn : n = ts.length + 1 := by omega
    -- the token, which is live in the end, was live when the pause was over
    have hended := ((hd.attempt s).lives (hstarts.ready (h.ready hd hw₀)).later hlives).1
    have hrepeated : w.Confined (.ofCall site.call [.retry] t) y.minted w₃ :=
      .repeated site s w t List.mem_cons_self h₁ h₂ h₃
    have hready := (hrepeated.ready hended).later
    have hmore : op.Attends site.call (.retry :: kinds) keeps :=
      hd.attends_mono (List.subset_cons_self _ _)
    have hrest := hmore.proceed s List.mem_cons_self t left _ hready ((hmore.attempt s).start hready)
    obtain ⟨htells, hgoes, hdraw⟩ := tells_of_repeated (t := t) (m := w₀.minted) h₁ h₂ h₃
      (hrest.confined.live hlive) (by omega)
    have hnext : Course site s op timely t w₀ (⟨n, y, o, w, d⟩ :: ts) w₃ :=
      .again h ⟨hn, hstarts, hlives⟩ hgoes htells hdraw
    have hwake : wakeAt = w.wakeTime d := World.wakeTime_congr htells.confined.now d
    -- the pause is over as soon as it begins
    have hover : w.wakeTime d ≤ w₃.now := hwake.symm.trans_le hdue
    refine ih hnext ⟨(hnext.ready hd hw₀).meanwhile, hover, fun _ => ?_⟩ .start
      (by simp only [List.length_cons]; omega) hlive
    exact Nat.le_antisymm ((w₃.now_le_wakeTime d).trans_eq hwake) hover
  case case8 o w f w₁ w₂ h₂ left d w₃ wakeAt hlate n h₁ h₃ hlive₃ =>
    have hn : n = ts.length + 1 := by omega
    obtain ⟨htells, hgoes, hdraw⟩ := tells_of_repeated (t := t) (m := w₀.minted) h₁ h₂ h₃ hlive
      (by omega)
    have hnext : Course site s op timely t w₀ (⟨n, y, o, w, d⟩ :: ts) w₃ :=
      .again h ⟨hn, hstarts, hlives⟩ hgoes htells hdraw
    have hwake : wakeAt = w.wakeTime d := World.wakeTime_congr htells.confined.now d
    have hearly : w₃.now ≤ w.wakeTime d := hwake.symm.ge.trans' (Nat.le_of_not_le hlate)
    rw [hwake]
    exact .waiting (e := ⟨n, y, o, w, d⟩) hnext (hnext.ready hd hw₀).meanwhile (fun _ => hearly)
      (by simp only [List.length_cons]; omega)

/-- **Under a live token** the layer takes such a course all its life. -/
theorem Operation.progress_of_lives (hs : 0 < s.maxAttempts.toNat)
    {out : Status (withRetry site s op).State Result × World}
    (h : (withRetry site s op).Lives site.call timely t w₀ out)
    (hlive : out.2.isCancelled t = false) : Progress site s op timely t w₀ out := by
  have hlayer := Docile.withRetry s List.mem_cons_self
    (hd.attends_mono (List.subset_cons_self .retry kinds))
  -- a look at the layer is one more look at the attempt under way, or starts the next one
  induction h with
  | start =>
    exact Course.proceed hd hw₀ .start rfl _ _ .start (by simp only [List.length_nil]; omega) hlive
  | @wait st w w' hl hw htimely ih =>
    cases ih (hw.live hlive) with
    | trying h starts lives count => exact .trying h starts (lives.wait hw htimely) count
    | waiting h meanwhile early count =>
      exact .waiting h (meanwhile.trans hw) (fun ht => htimely ht _ List.mem_cons_self) count
  | @resume st w hl ih =>
    have hlive' := (hlayer.confined_of_lives hw₀ hl).1.live hlive
    cases ih hlive' with
    | trying h starts lives count => exact h.proceed hd hw₀ starts _ _ lives.resume count hlive
    | @waiting ts x _ left e h meanwhile early count =>
      rw [withRetry_resume_waiting hlive'] at hlive ⊢
      split at hlive
      next hdue =>
        rw [if_pos hdue]
        refine h.proceed hd hw₀ ⟨meanwhile, hdue, fun ht => ?_⟩ _ _ .start count hlive
        exact Nat.le_antisymm (early ht) hdue
      next hearly =>
        rw [if_neg hearly]
        exact .waiting h meanwhile early count

end

/-! ### What is told of the trials -/

/-- What a layer of some kind has recorded of a call, the last first. -/
def toldBy (id : CallId) (k : LayerKind) (tr : List Entry) : List Entry :=
  tr.filter fun e => e.record.call = id ∧ e.record.teller? = some k

section

variable {k : LayerKind} {ts : List Trial}

theorem toldBy_append (es tr : List Entry) :
    toldBy id k (es ++ tr) = toldBy id k es ++ toldBy id k tr :=
  List.filter_append ..

theorem toldBy_eq_nil {es : List Entry}
    (h : ∀ e ∈ es, e.record.call = id → e.record.teller? ≠ some k) : toldBy id k es = [] := by
  refine List.filter_eq_nil_iff.mpr fun e he hp => ?_
  obtain ⟨hcall, hteller⟩ := of_decide_eq_true hp
  exact h e he hcall hteller

/-- Layers of other kinds record nothing as a layer of this kind. -/
theorem World.Confined.toldBy_eq (h : w.Confined (.ofCall id kinds t) m w') (hk : k ∉ kinds) :
    toldBy id k w'.trace = toldBy id k w.trace := by
  obtain ⟨es, htrace, hes⟩ := h.trace
  rw [htrace, toldBy_append, toldBy_eq_nil, List.nil_append]
  exact fun e he hcall hteller => hk ((hes e he).own hcall k hteller)

theorem World.Meanwhile.toldBy_eq (h : w.Meanwhile id t w') :
    toldBy id k w'.trace = toldBy id k w.trace := by
  obtain ⟨es, htrace, hes⟩ := h.trace
  rw [htrace, toldBy_append, toldBy_eq_nil, List.nil_append]
  exact fun e he hcall => absurd (hcall ▸ .self) (hes e he)

theorem Activity.Docile.toldBy_of_lives {ο : Type} {a : Activity Token ο}
    {keeps : (CallId → Nat) → Token → a.State → World → Prop} {out : Status a.State ο × World}
    (hd : a.Attends id kinds keeps) (hw₀ : w₀.Ready w₀.minted t) (hk : k ∉ kinds)
    (h : a.Lives id timely t w₀ out) : toldBy id k out.2.trace = toldBy id k w₀.trace := by
  induction h with
  | start => exact (hd.start hw₀).confined.toldBy_eq hk
  | wait _ hw _ ih => exact hw.toldBy_eq.trans ih
  | resume hl ih => exact ((hd.confined_of_lives hw₀ hl).1.toldBy_eq hk).trans ih

/-- What the retry layer records is its own. -/
theorem RetrySettings.teller_of_mem_records {r : Record} (h : r ∈ s.records site n o) :
    r.call = site.call ∧ r.teller? = some .retry := by
  have hquestion : ∀ f, r ∈ s.question site f → r.call = site.call ∧ r.teller? = some .retry := by
    intro f h
    obtain ⟨p, -, rfl⟩ := Option.map_eq_some_iff.mp (Option.mem_toList.mp h)
    exact ⟨rfl, rfl⟩
  have hexpiry : r ∈ s.expiry site n o → r.call = site.call ∧ r.teller? = some .retry := by
    intro h
    unfold RetrySettings.expiry at h
    split at h
    · obtain ⟨d, -, rfl⟩ := Option.map_eq_some_iff.mp (Option.mem_toList.mp h)
      exact ⟨rfl, rfl⟩
    · cases h
  unfold RetrySettings.records at h
  split at h
  · cases h
  · rcases List.mem_append.mp h with h | h
    · split at h
      · cases h
      · obtain rfl := List.mem_singleton.mp h
        exact ⟨rfl, rfl⟩
    · exact (List.mem_append.mp h).elim (hquestion _) hexpiry

/-- What is told of an attempt that has ended, is told by the retry layer. -/
theorem World.Recounts.toldBy_retry (h : w.Recounts site s t m n o w') :
    toldBy site.call .retry w'.trace =
      (s.records site n o).map (Entry.mk w.now) ++ toldBy site.call .retry w.trace := by
  rw [h.trace, toldBy_append]
  congr 1
  refine List.filter_eq_self.mpr fun e he => ?_
  obtain ⟨r, hr, rfl⟩ := List.mem_map.mp he
  exact decide_eq_true (RetrySettings.teller_of_mem_records hr)

theorem World.Recounts.toldBy_eq (h : w.Recounts site s t m n o w') (hk : k ≠ .retry) :
    toldBy site.call k w'.trace = toldBy site.call k w.trace :=
  h.confined.toldBy_eq fun hmem => hk (List.mem_singleton.mp hmem)

theorem Starts.toldBy_eq (h : Starts site timely t ts x y) :
    toldBy site.call k y.trace = toldBy site.call k x.trace := by
  cases ts with
  | nil => rw [show y = x from h]
  | cons e ts => exact h.1.toldBy_eq

/-- An attempt tells what the layers inside it tell. -/
theorem Starts.toldBy_of_lives {out : Status (attempt site s op).State (Option Result) × World}
    (h : Starts site timely t ts x y) (hd : op.Attends site.call kinds keeps) (hx : x.Ready m t)
    (hk : k ∉ kinds) (hlives : (attempt site s op).Lives site.call timely t y out) :
    toldBy site.call k out.2.trace = toldBy site.call k x.trace :=
  ((hd.attempt s).toldBy_of_lives (h.ready hx).later hk hlives).trans h.toldBy_eq

theorem Trial.Made.toldBy_eq {e : Trial} (h : e.Made site s op timely t ts x)
    (hd : op.Attends site.call kinds keeps) (hx : x.Ready m t) (hk : k ∉ kinds) :
    toldBy site.call k e.ended.trace = toldBy site.call k x.trace :=
  h.starts.toldBy_of_lives hd hx hk h.lives

section

variable (hd : op.Attends site.call kinds keeps) (hw₀ : w₀.Ready w₀.minted t)

include hd hw₀

/-- **What the layer has told of its trials**, and nothing else. -/
theorem Course.toldBy_retry (hk : .retry ∉ kinds) (h : Course site s op timely t w₀ ts x) :
    toldBy site.call .retry x.trace =
      ts.flatMap (Trial.entries site s) ++ toldBy site.call .retry w₀.trace := by
  induction h with
  | start => rfl
  | again h made _ tells _ ih =>
    rw [tells.toldBy_retry, made.toldBy_eq hd (h.ready hd hw₀) hk, ih, List.flatMap_cons,
      List.append_assoc]
    rfl

/-- Nothing is told by a layer that is neither this one nor inside it. -/
theorem Course.toldBy_eq (hk : k ∉ kinds) (hne : k ≠ .retry)
    (h : Course site s op timely t w₀ ts x) :
    toldBy site.call k x.trace = toldBy site.call k w₀.trace := by
  induction h with
  | start => rfl
  | again h made _ tells _ ih =>
    rw [tells.toldBy_eq hne, made.toldBy_eq hd (h.ready hd hw₀) hk, ih]

end

/-- The trials are numbered from one on. -/
theorem Course.numbers (h : Course site s op timely t w₀ ts x) :
    ts.map Trial.number = (List.range' 1 ts.length).reverse := by
  induction h with
  | start => rfl
  | @again ts x x' e h made _ _ _ ih =>
    rw [List.map_cons, ih, made.number, List.length_cons, List.range'_concat, List.reverse_append]
    simp [Nat.add_comm]

/-- No trial is the last attempt. -/
theorem Course.goesOn (h : Course site s op timely t w₀ ts x) :
    ∀ e ∈ ts, s.isLast e.number e.result = false := by
  induction h with
  | start => exact List.forall_mem_nil _
  | again _ _ goesOn _ _ ih => exact List.forall_mem_cons.mpr ⟨goesOn, ih⟩

end

end CallPolicy
