/-
What a call can see of the world, and activities that see no more.

Two worlds are the same for a call from outside (`World.SameFor`) if it is the same instant
in both, if the tokens of the call and of the calls inside it are cancelled in both or in
neither, if as much has been counted for these calls, if chance decides their ties alike, and
if the same has been recorded about them. Whatever belongs to other calls may differ: their
tokens, their ties, the gates, the random draws, and the rest of the trace.

Layers that keep no state between calls can tell two such worlds no more apart than the
call: they go on the same way in both, and what they make of them is the same for the call
again (`Activity.Insular`).

* **`Insular.withTimeout`**, **`Insular.withRetry`**, **`Insular.withHedge`**, … — the layers
  without state, one lemma each;
* **`Insular.stack`** — and all of them around an operation.
-/
import CallPolicy.Proofs.Docile
import CallPolicy.Layer

namespace CallPolicy

open Activity Operation

variable {α ι ο ο' κ : Type} {id c call : CallId} {t u v : Token} {w w' w'' : World} {site : Site}

/-! ### Worlds that are the same for a call -/

namespace World

/-- What has been recorded about a call from outside and the calls inside it. -/
def history (w : World) (id : CallId) : List Entry :=
  w.trace.filter fun e => e.record.call.outermost = id

/-- The worlds differ in nothing that is there for the call `id` with the token `t`. -/
structure SameFor (id : CallId) (t : Token) (w w' : World) : Prop where
  now : w'.now = w.now
  alike : w.Alike (Serves id t) w'
  minted : ∀ {c}, c.outermost = id → w'.minted c = w.minted c
  invoked : ∀ {c}, c.outermost = id → w'.invoked c = w.invoked c
  ties : ∀ {c}, c.outermost = id → w'.chance.ties c = w.chance.ties c
  history : w'.history id = w.history id

/-- Something comes out the same in both worlds. -/
def Agree (id : CallId) (t : Token) (x x' : α × World) : Prop :=
  ∃ a w w', x = (a, w) ∧ x' = (a, w') ∧ w.SameFor id t w'

namespace SameFor

theorem refl (w : World) : w.SameFor id t w :=
  ⟨rfl, ⟨fun _ => rfl⟩, fun _ => rfl, fun _ => rfl, fun _ => rfl, rfl⟩

theorem symm (h : w.SameFor id t w') : w'.SameFor id t w :=
  ⟨h.now.symm, ⟨fun hu => (h.alike.isCancelled hu).symm⟩, fun hc => (h.minted hc).symm,
    fun hc => (h.invoked hc).symm, fun hc => (h.ties hc).symm, h.history.symm⟩

theorem trans (h : w.SameFor id t w') (h' : w'.SameFor id t w'') : w.SameFor id t w'' :=
  ⟨h'.now.trans h.now, h.alike.trans h'.alike, fun hc => (h'.minted hc).trans (h.minted hc),
    fun hc => (h'.invoked hc).trans (h.invoked hc), fun hc => (h'.ties hc).trans (h.ties hc),
    h'.history.trans h.history⟩

section

variable (h : w.SameFor id t w')

include h

theorem isCancelled (hu : Serves id t c u) : w'.isCancelled u = w.isCancelled u :=
  h.alike.isCancelled hu

theorem deadline (d : Duration) : w'.deadline d = w.deadline d := by
  rw [World.deadline, World.deadline, h.now]

theorem wakeTime (d : Duration) : w'.wakeTime d = w.wakeTime d := h.deadline _

theorem note (r : Record) : (w.note r).SameFor id t (w'.note r) := by
  refine ⟨h.now, ⟨h.alike.isCancelled⟩, h.minted, h.invoked, h.ties, ?_⟩
  have hhistory := h.history
  simp only [World.history, note_trace, List.filter_cons, h.now] at hhistory ⊢
  rw [hhistory]

theorem cancel (a : Token) : (w.cancel a).SameFor id t (w'.cancel a) := by
  refine ⟨h.now, ⟨fun {c u} hu => ?_⟩, h.minted, h.invoked, h.ties, h.history⟩
  have hcancelled : ∀ w : World, (w.cancel a).isCancelled u = (a.governs u || w.isCancelled u) :=
    fun _ => rfl
  rw [hcancelled, hcancelled, h.isCancelled hu]

theorem emit (site : Site) (e : Event) : (w.emit site e).SameFor id t (w'.emit site e) := by
  unfold World.emit
  dsimp only
  split
  · exact (h.note _).cancel _
  · exact h.note _

/-- A child of a token of the call gets the same name in both worlds. -/
theorem mint (hcall : call.outermost = id) (hu : Serves id t call u) :
    ∃ v w₁ w₁', w.mint call u = (v, w₁) ∧ w'.mint call u = (v, w₁') ∧ Serves id t call v ∧
      w₁.SameFor id t w₁' := by
  have hcount : w'.minted call = w.minted call := h.minted hcall
  have htoken : (w'.mint call u).1 = (w.mint call u).1 := congrArg (u.child call) hcount
  have hmade : (w.mint call u).2.SameFor id t (w'.mint call u).2 := by
    refine ⟨h.now, ⟨h.alike.isCancelled⟩, fun {c} hc => ?_, h.invoked, h.ties, h.history⟩
    show assign w'.minted call (w'.minted call + 1) c = assign w.minted call (w.minted call + 1) c
    rw [hcount]
    by_cases heq : c = call
    · rw [heq, assign_self, assign_self]
    · rw [assign_of_ne heq, assign_of_ne heq, h.minted hc]
  have hserves : Serves id t call (w.mint call u).1 := hu.stems ((Token.Stems.refl call u).child _)
  exact ⟨_, _, (w'.mint call u).2, rfl, Prod.ext htoken rfl, hserves, hmade⟩

theorem invoke (k : Nat) (hu : Serves id t call u) :
    (w.invoke call k u).SameFor id t (w'.invoke call k u) := by
  have hbegun : SameFor id t { w with invoked := assign w.invoked call (u :: w.invoked call) }
      { w' with invoked := assign w'.invoked call (u :: w'.invoked call) } := by
    refine ⟨h.now, ⟨h.alike.isCancelled⟩, h.minted, fun {c} hc => ?_, h.ties, h.history⟩
    show assign w'.invoked call (u :: w'.invoked call) c =
      assign w.invoked call (u :: w.invoked call) c
    by_cases heq : c = call
    · rw [heq, assign_self, assign_self, h.invoked (heq ▸ hc)]
    · rw [assign_of_ne heq, assign_of_ne heq, h.invoked hc]
  unfold World.invoke
  rw [h.isCancelled hu]
  exact hbegun.note _

/-- An unfinished invocation is given up in both worlds. -/
theorem abandon (k : Nat) (hu : Serves id t call u) :
    (w.release (.invocation call k u)).SameFor id t (w'.release (.invocation call k u)) := by
  unfold World.release
  dsimp only
  rw [h.isCancelled hu]
  exact h.note _

end

end SameFor

theorem releaseAll_append (w : World) (hs hs' : List Holding) :
    w.releaseAll (hs ++ hs') = (w.releaseAll hs).releaseAll hs' := List.foldl_append

end World

/-! ### Going on the same way -/

/-- An activity has gone on the same way in two worlds that are still the same for the
call. Something is known of where it stands. -/
inductive Abreast (id : CallId) (t : Token) (pending : κ → Prop) (done : ο → Prop) :
    Status κ ο × World → Status κ ο × World → Prop
  | pending {s : κ} {w w' : World} (hs : pending s) (hw : w.SameFor id t w') :
      Abreast id t pending done (.pending s, w) (.pending s, w')
  | done {o : ο} {w w' : World} (ho : done o) (hw : w.SameFor id t w') :
      Abreast id t pending done (.done o, w) (.done o, w')
  | panicked {x : String} {w w' : World} (hw : w.SameFor id t w') :
      Abreast id t pending done (.panicked x, w) (.panicked x, w')

namespace Abreast

variable {P : κ → Prop} {E : ο → Prop} {out out' : Status κ ο × World}

theorem same (h : Abreast id t P E out out') : out.2.SameFor id t out'.2 := by
  cases h with
  | pending _ hw => exact hw
  | done _ hw => exact hw
  | panicked hw => exact hw

theorem lands (h : Abreast id t P E out out') : Lands (fun s _ => P s) E out := by
  cases h with
  | pending hs _ => exact hs
  | done ho _ => exact ho
  | panicked _ => trivial

end Abreast

namespace Activity

/-- The activity goes on the same way in worlds that are the same for a call, if what it is
given belongs to the call (`own`). `fits` is known of its states and `ends` of its output. -/
structure Insular (a : Activity ι ο) (id : CallId) (t : Token) (own : ι → Prop) (ends : ο → Prop)
    (fits : a.State → Prop) : Prop where
  start : ∀ {i} {w w' : World}, own i → w.SameFor id t w' →
    Abreast id t fits ends (a.start i w) (a.start i w')
  resume : ∀ {s} {w w' : World}, fits s → w.SameFor id t w' →
    Abreast id t fits ends (a.resume s w) (a.resume s w')
  release : ∀ {s} {w w' : World}, fits s → w.SameFor id t w' →
    (w.releaseAll (a.holdings s)).SameFor id t (w'.releaseAll (a.holdings s))

/-- An operation is insular on behalf of a call that is part of the one from outside. -/
abbrev InsularFor (a : Activity Token ο) (id : CallId) (t : Token) (call : CallId)
    (fits : a.State → Prop) : Prop :=
  a.Insular id t (Serves id t call) (fun _ => True) fits

namespace Insular

variable {own : ι → Prop} {ends : ο → Prop} {ends' : ο' → Prop}

/-! ### Building blocks -/

theorem atOnce {f : ι → World → ο × World}
    (hf : ∀ {i w w'}, own i → w.SameFor id t w' →
      World.Agree id t (f i w) (f i w') ∧ ends (f i w).1) :
    (Activity.atOnce f).Insular id t own ends (fun _ => True) := by
  refine ⟨fun {i w w'} hi hw => ?_, (fun {s _ _} => nomatch s), (fun {s _ _} => nomatch s)⟩
  obtain ⟨⟨o, w₁, w₁', e, e', h₁⟩, hends⟩ := hf hi hw
  rw [e] at hends
  show Abreast id t _ ends (.done (f i w).1, (f i w).2) (.done (f i w').1, (f i w').2)
  rw [e, e']
  exact .done hends h₁

/-- What a wait is for depends on what belongs to the call alone. -/
theorem wait {state : ι → World → κ} {ready : κ → World → Option ο} {deadlines : κ → List Nat}
    {fits : κ → Prop} (hstate : ∀ {i w w'}, own i → w.SameFor id t w' →
      fits (state i w) ∧ state i w' = state i w)
    (hready : ∀ {s w w'}, fits s → w.SameFor id t w' → ready s w' = ready s w)
    (hends : ∀ {s w o}, fits s → ready s w = some o → ends o) :
    (Activity.wait state ready deadlines).Insular id t own ends fits := by
  have hlook : ∀ {s w w'}, fits s → w.SameFor id t w' → Abreast id t fits ends
      (Activity.wait.look ready s w) (Activity.wait.look ready s w') := by
    intro s w w' hs hw
    unfold Activity.wait.look
    rw [hready hs hw]
    split
    next o ho => exact .done (hends hs ho) hw
    next => exact .pending hs hw
  refine ⟨fun {i w w'} hi hw => ?_, hlook, fun _ hw => hw⟩
  obtain ⟨hs, heq⟩ := hstate hi hw
  show Abreast id t fits ends (Activity.wait.look ready (state i w) w)
    (Activity.wait.look ready (state i w') w')
  rw [heq]
  exact hlook hs hw

theorem after {a : Activity ι ο} {fits : a.State → Prop} {f : ο → World → ο' × World}
    (h : a.Insular id t own ends fits)
    (hf : ∀ {o w w'}, ends o → w.SameFor id t w' →
      World.Agree id t (f o w) (f o w') ∧ ends' (f o w).1) :
    (a.after f).Insular id t own ends' fits := by
  have hfollow : ∀ {out out'}, Abreast id t fits ends out out' → Abreast id t fits ends'
      (Activity.after.follow f a out) (Activity.after.follow f a out') := by
    intro out out' hout
    cases hout with
    | pending hs hw => exact .pending hs hw
    | @done o w w' ho hw =>
      obtain ⟨⟨o', w₁, w₁', e, e', h₁⟩, hends⟩ := hf ho hw
      rw [e] at hends
      unfold Activity.after.follow
      dsimp only
      rw [e, e']
      exact .done hends h₁
    | panicked hw => exact .panicked hw
  exact ⟨fun hi hw => hfollow (h.start hi hw), fun hs hw => hfollow (h.resume hs hw), h.release⟩

theorem within {a : Activity Token ο} {fits : a.State → Prop} (hcall : call.outermost = id)
    (h : a.Insular id t (Serves id t call) ends fits)
    (length : Duration) :
    (a.within call length).InsularFor id t call (fun s => fits s.inner) := by
  have hcheck : ∀ {out out'} (u : Token) (d : Nat), Abreast id t fits ends out out' →
      Abreast id t (fun s => fits s.inner) (fun _ => True) (Activity.within.check a u d out)
        (Activity.within.check a u d out') := by
    intro out out' u d hout
    cases hout with
    | pending hs hw =>
      unfold Activity.within.check
      dsimp only
      rw [hw.now]
      split
      · exact .done trivial ((h.release hs hw).cancel u)
      · exact .pending hs hw
    | done _ hw => exact .done trivial hw
    | panicked hw => exact .panicked hw
  refine ⟨fun {u w w'} hu hw => ?_, fun hs hw => hcheck _ _ (h.resume hs hw),
    fun hs hw => h.release hs hw⟩
  obtain ⟨v, w₁, w₁', e, e', hv, h₁⟩ := hw.mint hcall hu
  unfold Activity.within
  dsimp only
  rw [e, e', h₁.deadline]
  exact hcheck _ _ (h.start hv h₁)

/-! ### Endings -/

section

variable {op : Operation} {fits : op.State → Prop} (hcall : site.call.outermost = id)
  (h : op.InsularFor id t site.call fits)

include h

theorem withFallback (value : String) :
    (withFallback site value op).InsularFor id t site.call fits := by
  refine h.after fun {r w w'} _ hw => ⟨?_, trivial⟩
  cases r with
  | ok v => exact ⟨_, _, _, rfl, rfl, hw⟩
  | error f => exact ⟨_, _, _, rfl, rfl, hw.emit site (.fellBack f)⟩

include hcall

theorem withTimeout (length : Duration) :
    (withTimeout site length op).InsularFor id t site.call (fun s => fits s.inner) := by
  refine (h.within hcall length).after fun {r w w'} _ hw => ⟨?_, trivial⟩
  cases r with
  | some r => exact ⟨_, _, _, rfl, rfl, hw⟩
  | none => exact ⟨_, _, _, rfl, rfl, hw.emit site (.timedOut length)⟩

end

end Insular

end Activity

/-! ### Retry -/

namespace World.SameFor

variable (h : w.SameFor id t w')

include h

/-- A tie is decided alike. -/
theorem givesUp (hcall : site.call.outermost = id) (hu : Serves id t c u) (n wakeAt : Nat) :
    givesUp site u n wakeAt w' = givesUp site u n wakeAt w := by
  unfold Operation.givesUp
  rw [h.isCancelled hu, h.now, h.ties hcall]

variable (s : RetrySettings)

theorem attemptResult (site : Site) (n : Nat) (o : Option Result) :
    Agree id t (attemptResult site s n o w) (attemptResult site s n o w') := by
  unfold Operation.attemptResult
  split
  next r => exact ⟨_, _, _, rfl, rfl, h⟩
  next length _ => exact ⟨_, _, _, rfl, rfl, h.emit site (.attemptTimedOut n length)⟩
  next => exact ⟨_, _, _, rfl, rfl, h⟩

theorem mayRepeat (site : Site) (hu : Serves id t c u) (f : Failure) :
    Agree id t (mayRepeat site s u f w) (mayRepeat site s u f w') := by
  unfold Operation.mayRepeat
  rw [h.isCancelled hu]
  split
  · exact ⟨_, _, _, rfl, rfl, h⟩
  · split
    next => exact ⟨_, _, _, rfl, rfl, h⟩
    next condition _ => exact ⟨_, _, _, rfl, rfl, h.note _⟩

/-- No draw is needed. -/
theorem nextDelay (hs : s.backoff.isRandom = false) (n : Nat) :
    Agree id t (nextDelay s n w) (nextDelay s n w') := by
  unfold Operation.nextDelay
  rw [if_neg (by rw [hs]; nofun), if_neg (by rw [hs]; nofun)]
  exact ⟨_, _, _, rfl, rfl, h⟩

end World.SameFor

/-- An attempt is in a fitting state if its operation is. -/
def Operation.attemptFits (site : Site) (op : Operation) (fits : op.State → Prop) :
    (s : RetrySettings) → (attempt site s op).State → Prop
  | { attemptTimeout := some _, .. }, a => fits a.inner
  | { attemptTimeout := none, .. }, a => fits a

/-- The token of a retry belongs to the call, and an attempt under way is in a fitting
state. -/
def Operation.RetryState.Fits (own : Token → Prop) (fits : κ → Prop) : RetryState κ → Prop
  | .trying u _ inner => own u ∧ fits inner
  | .waiting u _ _ => own u

/-- The tokens that a race hands on belong to the call, and the attempts are in fitting
states. -/
def Operation.HedgeState.Fits (own : Token → Prop) (fits : κ → Prop) : HedgeState κ → Prop
  | .early caller _ _ first => own caller ∧ fits first
  | .alone first => fits first
  | .racing _ first _ rival => fits first ∧ fits rival

namespace Activity.Insular

section

variable {op : Operation} {fits : op.State → Prop} (hcall : site.call.outermost = id)
  (h : op.InsularFor id t site.call fits)

include hcall h

theorem attempt (s : RetrySettings) :
    (attempt site s op).InsularFor id t site.call (attemptFits site op fits s) := by
  obtain ⟨maxAttempts, backoff, maxDelay, attemptTimeout, retryIf⟩ := s
  cases attemptTimeout with
  | none => exact h.after fun _ hw => ⟨⟨_, _, _, rfl, rfl, hw⟩, trivial⟩
  | some length => exact h.within hcall length

omit h in
/-- Whatever comes of an attempt, the layer goes on the same way. -/
theorem proceed {a : Activity Token (Option Result)} {fits : a.State → Prop}
    {out out' : Status a.State (Option Result) × World}
    (ha : a.InsularFor id t site.call fits) {s : RetrySettings}
    (hs : s.backoff.isRandom = false) (hu : Serves id t site.call u) (left : Nat)
    (hout : Abreast id t fits (fun _ => True) out out') :
    Abreast id t (RetryState.Fits (Serves id t site.call) fits) (fun _ => True)
      (proceed site s u left out) (proceed site s u left out') := by
  -- the loop is left in all cases but one, and then an attempt less is left
  induction left using Nat.strongRecOn generalizing out out' with
  | ind left ih =>
    unfold Operation.proceed
    cases hout with
    | pending hinner hw => exact .pending ⟨hu, hinner⟩ hw
    | panicked hw => exact .panicked hw
    | @done o w w' _ hw =>
      dsimp only
      generalize s.maxAttempts.toNat - left = n
      obtain ⟨r, w₁, w₁', e₁, e₁', h₁⟩ := hw.attemptResult s site n o
      rw [e₁, e₁']
      cases r with
      | ok v => exact .done trivial h₁
      | error f =>
        dsimp only
        -- the token is cancelled in both worlds or in none
        obtain ⟨again, w₂, w₂', e₂, e₂', h₂⟩ := h₁.mayRepeat s site hu f
        rw [e₂, e₂']
        cases again with
        | false => exact .done trivial h₂
        | true =>
          cases left with
          | zero => exact .done trivial h₂
          | succ left =>
            have htold := h₂.emit site (.retrying n f)
            obtain ⟨delay, w₃, w₃', e₃, e₃', h₃⟩ := htold.nextDelay s hs n
            dsimp only
            rw [e₃, e₃']
            dsimp only
            -- both worlds have the same clock, and chance decides alike for this call
            rw [h₃.wakeTime, h₃.givesUp hcall hu, h₃.now]
            split
            · exact .done trivial h₃
            · split
              · exact ih left (Nat.lt_succ_self left) (ha.start hu h₃)
              · exact .pending hu h₃

theorem withRetry {s : RetrySettings} (hs : s.backoff.isRandom = false) :
    (withRetry site s op).InsularFor id t site.call
      (RetryState.Fits (Serves id t site.call) (attemptFits site op fits s)) := by
  have ha := attempt hcall h s
  refine ⟨fun hu hw => proceed hcall ha hs hu _ (ha.start hu hw), fun {state w w'} hfits hw => ?_,
    fun {state w w'} hfits hw => ?_⟩
  · cases state with
    | trying u left inner => exact proceed hcall ha hs hfits.1 left (ha.resume hfits.2 hw)
    | waiting u left wakeAt =>
      rw [resume_waiting, resume_waiting, hw.givesUp hcall hfits, hw.now]
      split
      · exact .done trivial hw
      · split
        · exact proceed hcall ha hs hfits left (ha.start hfits hw)
        · exact .pending hfits hw
  · cases state with
    | trying u left inner => exact ha.release hfits.2 hw
    | waiting u left wakeAt => exact hw

/-! ### Hedge -/

section

variable {out out' : Status op.State Result × World} {first : op.State} {delay : Duration}

omit hcall h in
theorem judgeAlone (hout : Abreast id t fits (fun _ => True) out out') :
    Abreast id t (HedgeState.Fits (Serves id t site.call) fits) (fun _ => True) (judgeAlone out)
      (judgeAlone out') := by
  cases hout with
  | pending hs hw => exact .pending hs hw
  | done _ hw => exact .done trivial hw
  | panicked hw => exact .panicked hw

omit hcall in
theorem judgeRival (hfirst : fits first) (hout : Abreast id t fits (fun _ => True) out out') :
    Abreast id t (HedgeState.Fits (Serves id t site.call) fits) (fun _ => True)
      (judgeRival site u first v out) (judgeRival site u first v out') := by
  cases hout with
  | pending hs hw => exact .pending ⟨hfirst, hs⟩ hw
  | done _ hw => exact .done trivial (h.release hfirst ((hw.cancel u).emit site .hedgeWon))
  | panicked hw => exact .panicked (h.release hfirst hw)

theorem launch (hu : Serves id t site.call u) (hfirst : fits first) (hw : w.SameFor id t w') :
    Abreast id t (HedgeState.Fits (Serves id t site.call) fits) (fun _ => True)
      (launch site delay u v first w) (launch site delay u v first w') := by
  unfold Operation.launch
  rw [hw.isCancelled hu]
  split
  · exact judgeAlone (h.resume hfirst hw)
  · have htold := hw.emit site (.hedgeLaunched delay)
    obtain ⟨rival, w₁, w₁', e, e', hrival, h₁⟩ := htold.mint hcall hu
    have hresume := h.resume hfirst h₁
    dsimp only
    rw [e, e']
    dsimp only
    generalize op.resume first w₁ = out at hresume ⊢
    generalize op.resume first w₁' = out' at hresume ⊢
    cases hresume with
    | pending hs h₂ => exact judgeRival h hs (h.start hrival h₂)
    | done _ h₂ => exact .done trivial (h₂.cancel rival)
    | panicked h₂ => exact .panicked h₂

theorem judgeFirst {launchAt : Nat} (hu : Serves id t site.call u)
    (hout : Abreast id t fits (fun _ => True) out out') :
    Abreast id t (HedgeState.Fits (Serves id t site.call) fits) (fun _ => True)
      (judgeFirst site delay u v launchAt out) (judgeFirst site delay u v launchAt out') := by
  cases hout with
  | pending hs hw =>
    unfold Operation.judgeFirst
    dsimp only
    rw [hw.now]
    split
    · exact launch hcall h hu hs hw
    · exact .pending ⟨hu, hs⟩ hw
  | done _ hw => exact .done trivial hw
  | panicked hw => exact .panicked hw

end

theorem withHedge (delay : Duration) : (withHedge site delay op).InsularFor id t site.call
    (HedgeState.Fits (Serves id t site.call) fits) := by
  refine ⟨fun {u w w'} hu hw => ?_, fun {s w w'} hs hw => ?_, fun {s w w'} hs hw => ?_⟩
  · obtain ⟨v, w₁, w₁', e, e', hv, h₁⟩ := hw.mint hcall hu
    unfold Operation.withHedge
    dsimp only
    rw [e, e', h₁.wakeTime]
    exact judgeFirst hcall h hu (h.start hv h₁)
  · cases s with
    | early caller u launchAt first => exact judgeFirst hcall h hs.1 (h.resume hs.2 hw)
    | alone first => exact judgeAlone (h.resume hs hw)
    | racing u first v rival =>
      have hfirst := h.resume hs.1 hw
      rw [Operation.withHedge_resume_racing, Operation.withHedge_resume_racing]
      -- the first ends alike in both worlds, and the rival is polled or dropped in both
      generalize op.resume first w = out at hfirst ⊢
      generalize op.resume first w' = out' at hfirst ⊢
      cases hfirst with
      | pending hs' h₁ => exact judgeRival h hs' (h.resume hs.2 h₁)
      | done _ h₁ => exact .done trivial (h.release hs.2 (h₁.cancel v))
      | panicked h₁ => exact .panicked (h.release hs.2 h₁)
  · cases s with
    | early caller u launchAt first => exact h.release hs.2 hw
    | alone first => exact h.release hs hw
    | racing u first v rival =>
      show (w.releaseAll (op.holdings rival ++ op.holdings first)).SameFor id t
        (w'.releaseAll (op.holdings rival ++ op.holdings first))
      rw [World.releaseAll_append, World.releaseAll_append]
      exact h.release hs.1 (h.release hs.2 hw)

end

end Activity.Insular

/-! ### All the layers without state -/

/-- A layer that keeps no state between calls, and needs no random draws. -/
def Layer.Stateless : Layer → Prop
  | .fallback _ => True
  | .timeout _ => True
  | .retry s => s.backoff.isRandom = false
  | .hedge _ => True
  | _ => False

/-- A layer without state is in a fitting state if the operation inside it is, and if the
tokens that it hands on belong to the call. -/
def Layer.fits (site : Site) (own : Token → Prop) (op : Operation) (fits : op.State → Prop) :
    (l : Layer) → (l.apply site op).State → Prop
  | .fallback _, s => fits s
  | .timeout _, s => fits s.inner
  | .retry r, s => RetryState.Fits own (attemptFits site op fits r) s
  | .hedge _, s => HedgeState.Fits own fits s
  | .breaker _, _ => False
  | .rateLimit _, _ => False
  | .bulkhead _, _ => False

/-- Layers without state are in a fitting state if the operation inside them is. -/
def stackFits (site : Site) (own : Token → Prop) (op : Operation) (fits : op.State → Prop) :
    (layers : List Layer) → (stack site layers op).State → Prop
  | [] => fits
  | l :: rest => l.fits site own (stack site rest op) (stackFits site own op fits rest)

namespace Activity.Insular

variable {op : Operation} {fits : op.State → Prop} (hcall : site.call.outermost = id)
  (h : op.InsularFor id t site.call fits)

include hcall h

theorem apply {l : Layer} (hl : l.Stateless) :
    (l.apply site op).InsularFor id t site.call (l.fits site (Serves id t site.call) op fits) := by
  cases l with
  | fallback value => exact withFallback h value
  | timeout length => exact withTimeout hcall h length
  | retry s => exact withRetry hcall h hl
  | hedge delay => exact withHedge hcall h delay
  | _ => exact hl.elim

/-- **Layers without state around an operation** can tell no more than the operation. -/
theorem stack {layers : List Layer} (hlayers : ∀ l ∈ layers, l.Stateless) :
    (stack site layers op).InsularFor id t site.call
      (stackFits site (Serves id t site.call) op fits layers) := by
  induction layers with
  | nil => exact h
  | cons l rest ih =>
    obtain ⟨hl, hrest⟩ := List.forall_mem_cons.mp hlayers
    exact apply hcall (ih hrest) hl

end Activity.Insular

end CallPolicy
