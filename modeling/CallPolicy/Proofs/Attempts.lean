/-
Attempts and the invocations in them.

An attempt with a deadline and the hedge layer run what is inside them under tokens of
their own: whatever is begun is begun under one of these (`Under`, `Rivals`). So when one
of them is cancelled it is known what that does to the invocations of the call.

* **`Lasts.within`**, **`Lasts.attempt`** — an attempt lasts as long as what is inside it;
* **`Lasts.withHedge`** — the hedge layer lasts as long as the attempts in it;
* **`Affects.decide`** — when one of two attempts decides, the other one is cancelled.
-/
import CallPolicy.Proofs.Invocations

namespace CallPolicy

open Activity Operation

variable {ο : Type} {w w' w'' : World} {t t₀ u v : Token} {id : CallId} {n n' : Nat}
  {m : CallId → Nat} {site : Site} {kinds : List LayerKind}

namespace Activity.Lasts

/-! ### Activities under a child token -/

/-- Whatever was begun under the token, was begun by the activity. -/
def Owns {κ : Type} (id : CallId) (holds : Nat → Token → κ → World → Prop) (n : Nat) (u : Token)
    (s : κ) (w : World) : Prop :=
  ∃ n', n ≤ n' ∧ holds n' u s w ∧ w.Since id n' u

/-- Whatever was begun since, was begun by an activity under a child token. -/
structure Under {κ : Type} (id : CallId) (holds : Nat → Token → κ → World → Prop) (n : Nat)
    (t u : Token) (s : κ) (w : World) : Prop where
  governs : t.governs u = true
  owns : Owns id holds n u s w
  covers : ∀ {k x}, w.Begun id n t k x → u.governs x = true

section

variable {a : Activity Token ο} {keeps : (CallId → Nat) → Token → a.State → World → Prop}
  {holds : Nat → Token → a.State → World → Prop} {s : a.State}

theorem Owns.since (hs : Owns id holds n u s w) : w.Since id n u := by
  obtain ⟨n', hn, -, hsince⟩ := hs
  exact fun hk hg => Nat.le_trans hn (hsince hk hg)

/-- What is known of an activity when it counts from its own start. -/
theorem tallies_owns {out : Status a.State ο × World} (hn : n ≤ n') (hn' : n' ≤ (w.invoked id).length)
    (hs : w.Since id n' u) (hout : Tallies id t₀ n' u (holds n' u) w out) :
    Tallies id t₀ n u (Owns id holds n u) w out := by
  rcases out with ⟨s | o | y, w'⟩
  · obtain ⟨haffects, hheld⟩ := hout
    exact ⟨haffects.earlier hn, n', hn, hheld, hs.affects hn' haffects⟩
  · obtain ⟨haffects, hclear⟩ := hout
    refine ⟨haffects.earlier hn, fun hj => ?_⟩
    exact hclear ⟨hs.affects hn' haffects hj.invoked hj.governs, hj.invoked, hj.governs⟩
  · trivial

variable (hd : a.Attends id kinds keeps) (h : a.Lasts id t₀ keeps holds)

include h

theorem start_child (hw : w.Ready m t) (hu : w.Fosters id m t u) (ht : Token.Stems id t₀ t)
    (hl : w.Ledger id t₀) (hn : n ≤ (w.invoked id).length)
    (hs : w.Since id (w.invoked id).length u) :
    Tallies id t₀ n u (Owns id holds n u) w (a.start u w) := by
  refine tallies_owns hn (Nat.le_refl _) hs (h.start ⟨hw.sane, hu.made, fun _ => Nat.le_refl _⟩ ?_ hl)
  exact ht.trans hu.stems

theorem resume_child (hs : Raised id keeps m t u s w) (ht : Token.Stems id t₀ t)
    (hl : w.Ledger id t₀) (hheld : Owns id holds n u s w) :
    Tallies id t₀ n u (Owns id holds n u) w (a.resume s w) := by
  obtain ⟨hu, m', -, -, hready, hkept⟩ := hs
  obtain ⟨n', hn, hheld, hsince⟩ := hheld
  exact tallies_owns hn (h.reached hheld) hsince (h.resume hready (ht.trans hu.stems) hl hkept hheld)

theorem owns_stable (hs : Owns id holds n u s w) (hw : w.Apart id u w') :
    Owns id holds n u s w' := by
  obtain ⟨n', hn, hheld, hsince⟩ := hs
  exact ⟨n', hn, h.stable hheld hw, hw.since hsince⟩

theorem owns_reached (hs : Owns id holds n u s w) : n ≤ (w.invoked id).length := by
  obtain ⟨n', hn, hheld, -⟩ := hs
  exact Nat.le_trans hn (h.reached hheld)

theorem owns_underway (hs : Owns id holds n u s w) : w.Underway id n u := by
  obtain ⟨n', -, hheld, hsince⟩ := hs
  exact fun hj => h.underway hheld ⟨hsince hj.invoked hj.governs, hj.invoked, hj.governs⟩

theorem under_stable (hs : Under id holds n t u s w) (hw : w.Apart id t w') :
    Under id holds n t u s w' :=
  ⟨hs.governs, h.owns_stable hs.owns (hw.child hs.governs), fun hj => hs.covers (hw.begun hj)⟩

theorem under_underway (hs : Under id holds n t u s w) : w.Underway id n t :=
  fun hj => h.owns_underway hs.owns ⟨hj.since, hj.invoked, hs.covers hj⟩

omit h in
/-- What is known of a child's activity is known under its parent. -/
theorem tallies_child {out : Status a.State ο × World} (hu : out.2.Fosters id m t u)
    (hcovers : ∀ {k x}, w.Begun id n t k x → u.governs x = true)
    (hout : Tallies id t₀ n u (Owns id holds n u) w out) :
    Tallies id t₀ n t (Under id holds n t u) w out := by
  have hcovers' : ∀ {w' : World}, w.Affects id t₀ n u w' → ∀ {k x}, w'.Begun id n t k x →
      u.governs x = true := by
    intro w' haffects k x hj
    exact (hj.affects haffects).elim hcovers fun hg => hg
  have hlive : out.2.isCancelled u = true → out.2.isCancelled t = true := hu.live
  rcases out with ⟨s | o | y, w'⟩
  · obtain ⟨haffects, hheld⟩ := hout
    exact ⟨haffects.parent hu.governs hlive, hu.governs, hheld, hcovers' haffects⟩
  · obtain ⟨haffects, hclear⟩ := hout
    refine ⟨haffects.parent hu.governs hlive, fun hj => ?_⟩
    exact (hclear ⟨hj.since, hj.invoked, hcovers' haffects hj⟩).parent hlive
  · trivial

include hd

theorem resume_under (hs : Raised id keeps m t u s w) (ht : Token.Stems id t₀ t)
    (hl : w.Ledger id t₀) (hheld : Under id holds n t u s w) :
    Tallies id t₀ n t (Under id holds n t u) w (a.resume s w) :=
  tallies_child (hd.fosters_resume hs) hheld.covers (h.resume_child hs ht hl hheld.owns)

/-- A child that was made just now covers all that is begun from now on. -/
theorem start_under (hw : w.Ready w.minted t) (ht : Token.Stems id t₀ t) (hl : w.Ledger id t₀) :
    Tallies id t₀ (w.invoked id).length t
      (Under id holds (w.invoked id).length t (w.mint id t).1) (w.mint id t).2
      (a.start (w.mint id t).1 (w.mint id t).2) := by
  have hminted : w.Still id t₀ t (w.mint id t).2 := .of_lull ht (.mint w id t)
  have hready := hw.mint id t
  have hu : (w.mint id t).2.Fosters id w.minted t (w.mint id t).1 := .mint hw
  refine tallies_child (hd.fosters_start hready hu) (fun hj => ?_) (h.start_child hready hu ht
    (hminted.ledger hl) (Nat.le_refl _) (World.Since.mint hl _))
  exact absurd hj.since (Nat.not_le.mpr hj.invoked.lt)

/-- An attempt with a deadline lasts as long as what is inside it. -/
theorem within (length : Duration) :
    (a.within id length).Lasts id t₀ (fun m t s => Raised id keeps m t s.token s.inner)
      (fun n t s => Under id holds n t s.token s.inner) := by
  -- the expiry is the one case with work: what is inside is dropped before its token is cancelled
  have hcheck : ∀ {n t u} {w : World} (d : Nat) {out : Status a.State ο × World},
      Token.Stems id t₀ t → Tallies id t₀ n t (Under id holds n t u) w out →
      Tallies id t₀ n t (fun s => Under id holds n t s.token s.inner) w
        (Activity.within.check a u d out) := by
    rintro n t u w d ⟨s | o | y, w'⟩ ht hout
    · obtain ⟨haffects, hs⟩ := hout
      unfold Activity.within.check
      dsimp only
      split
      · have hstill : w'.Still id t₀ t (w'.releaseAll (a.holdings s)) :=
          .of_lull ht (.releaseAll w' _)
        have hs' := h.under_stable hs (.of_still hstill)
        have hreleased := haffects.trans (.of_still haffects.ledger hstill)
        refine ⟨hreleased.trans (.cancel hreleased.ledger hs'.owns.since), fun {k x} hj => ?_⟩
        have hj' : (w'.releaseAll (a.holdings s)).Begun id n t k x :=
          ⟨hj.since, hj.invoked, hj.governs⟩
        exact .cancel_below (h.under_underway hs' hj') (hs'.covers hj')
      · exact ⟨haffects, hs⟩
    · exact hout
    · trivial
  refine ⟨fun {t w} hw ht hl => ?_, fun {m n t s w} hw ht hl hs hheld => ?_,
    fun hs hw => h.under_stable hs hw, fun hs => h.owns_reached hs.owns,
    fun hs => h.under_underway hs⟩
  · have hminted : w.Still id t₀ t (w.mint id t).2 := .of_lull ht (.mint w id t)
    exact .after (.of_still hl hminted) (hcheck _ ht (h.start_under hd hw ht hl))
  · exact hcheck _ ht (h.resume_under hd hs ht hl hheld)

end

end Activity.Lasts

open Activity.Lasts (Owns Under)

variable {op : Operation} {keeps : (CallId → Nat) → Token → op.State → World → Prop}
  {holds : Nat → Token → op.State → World → Prop}

/-! ### Attempts -/

/-- What is known of the invocations of an attempt. -/
def Operation.attemptHolds (site : Site) (op : Operation)
    (holds : Nat → Token → op.State → World → Prop) :
    (r : RetrySettings) → Nat → Token → (attempt site r op).State → World → Prop
  | { attemptTimeout := some _, .. }, n, t, a, w => Under site.call holds n t a.token a.inner w
  | { attemptTimeout := none, .. }, n, t, a, w => holds n t a w

/-- **An attempt** lasts as long as what is inside it. -/
theorem Activity.Lasts.attempt (r : RetrySettings) (hd : op.Attends site.call kinds keeps)
    (h : op.Lasts site.call t₀ keeps holds) :
    (Operation.attempt site r op).Lasts site.call t₀ (attemptKeeps site op keeps r)
      (attemptHolds site op holds r) := by
  obtain ⟨maxAttempts, backoff, maxDelay, attemptTimeout, retryIf⟩ := r
  cases attemptTimeout with
  | none =>
    have hpost : ∀ {n t} {w : World} {out : Status op.State Result × World},
        Tallies site.call t₀ n t (holds n t) w out → Tallies site.call t₀ n t (holds n t) w
          (Activity.after.follow (fun r w => (some r, w)) op out) := by
      rintro n t w ⟨s | r | x, w'⟩ hout <;> exact hout
    exact ⟨fun hw ht hl => hpost (h.start hw ht hl),
      fun hw ht hl hs hheld => hpost (h.resume hw ht hl hs hheld), h.stable, h.reached, h.underway⟩
  | some length => exact h.within hd length

/-! ### Hedge -/

/-- Whatever was begun since, was begun by one of two activities under different tokens. -/
structure Operation.Rivals {κ : Type} (id : CallId) (holds : Nat → Token → κ → World → Prop)
    (n : Nat) (t u v : Token) (first rival : κ) (w : World) : Prop where
  governs : t.governs u = true
  governs' : t.governs v = true
  apart : ∀ {x}, u.governs x = true → v.governs x = true → False
  first : Owns id holds n u first w
  rival : Owns id holds n v rival w
  covers : ∀ {k x}, w.Begun id n t k x → u.governs x = true ∨ v.governs x = true

/-- What is known of the invocations of a hedge, if every attempt knows its `own` token. -/
def Operation.HedgeState.Holds {κ : Type} (id : CallId) (own : κ → Token)
    (holds : Nat → Token → κ → World → Prop) (n : Nat) (t : Token) : HedgeState κ → World → Prop
  | .early _ u _ first, w => Under id holds n t u first w
  | .alone first, w => Under id holds n t (own first) first w
  | .racing u first v rival, w => Rivals id holds n t u v first rival w

/-- Two children of a token have nothing below them in common. -/
theorem World.Fosters.apart (hu : w.Fosters id m t u) (hv : w'.Fosters id m t v) (hne : u ≠ v) :
    ∀ {x}, u.governs x = true → v.governs x = true → False := by
  intro x hx hx'
  obtain ⟨i, -, rfl⟩ := hu.child
  obtain ⟨j, -, rfl⟩ := hv.child
  exact hne (Token.eq_child_of_governs hx hx')

/-- One of two children has ended, and the other is cancelled. -/
theorem World.Affects.decide (ht : Token.Stems id t₀ t) (haffects : w.Affects id t₀ n t w')
    (hclear : w'.Clear id n u) (hlive : w'.isCancelled u = true → w'.isCancelled t = true)
    (hsince : w'.Since id n v) (hunderway : w'.Underway id n v)
    (happart : ∀ {x}, u.governs x = true → v.governs x = true → False)
    (hcovers : ∀ {k x}, w'.Begun id n t k x → u.governs x = true ∨ v.governs x = true)
    (hrest : (w'.cancel v).Lull id w'') : w.Affects id t₀ n t w'' ∧ w''.Clear id n t := by
  have hcancel := haffects.trans (.cancel haffects.ledger hsince)
  have hstill : (w'.cancel v).Still id t₀ t w'' := .of_lull ht hrest
  refine ⟨hcancel.trans (.of_still hcancel.ledger hstill), fun {k x} hj => ?_⟩
  have hj' := hj.still hstill
  have hbegun : w'.Begun id n t k x := ⟨hj'.since, hj'.invoked, hj'.governs⟩
  refine World.Settled.still ?_ (haffects.ledger.stems hbegun.invoked.mem) hstill
  rcases hcovers hbegun with hx | hx
  · have hsettled := (hclear ⟨hbegun.since, hbegun.invoked, hx⟩).parent hlive
    exact hsettled.cancel_apart fun hvx => happart hx hvx
  · exact .cancel_below (hunderway ⟨hbegun.since, hbegun.invoked, hx⟩) hx

namespace Activity.Lasts

section

variable {own : op.State → Token} {delay : Duration}

variable (own) in
/-- The first attempt stays alone. -/
theorem judgeAlone {out : Status op.State Result × World}
    (hown : ∀ s w', out = (.pending s, w') → own s = u)
    (hout : Tallies site.call t₀ n t (Under site.call holds n t u) w out) :
    Tallies site.call t₀ n t (HedgeState.Holds site.call own holds n t) w (judgeAlone out) := by
  rcases out with ⟨first | r | x, w'⟩
  · obtain rfl := hown first w' rfl
    exact hout
  · exact hout
  · trivial

variable (own) (hd : op.Attends site.call kinds keeps) (h : op.Lasts site.call t₀ keeps holds)

include h

/-- The rival has been looked at while the first attempt was suspended. -/
theorem judgeRival {first : op.State} {out : Status op.State Result × World}
    (ht : Token.Stems site.call t₀ t) (hu : t.governs u = true)
    (hv : out.2.Fosters site.call m t v)
    (happart : ∀ {x}, u.governs x = true → v.governs x = true → False)
    (hfirst : Owns site.call holds n u first w)
    (hcovers : ∀ {k x}, w.Begun site.call n t k x → u.governs x = true ∨ v.governs x = true)
    (hout : Tallies site.call t₀ n v (Owns site.call holds n v) w out) :
    Tallies site.call t₀ n t (HedgeState.Holds site.call own holds n t) w
      (judgeRival site u first v out) := by
  have hafter : ∀ {w' : World}, w.Affects site.call t₀ n v w' →
      Owns site.call holds n u first w' ∧ ∀ {k x}, w'.Begun site.call n t k x →
        u.governs x = true ∨ v.governs x = true := fun haffects =>
    ⟨h.owns_stable hfirst (.sibling haffects happart),
      fun hj => (hj.affects haffects).elim hcovers .inr⟩
  have hlive : out.2.isCancelled v = true → out.2.isCancelled t = true := hv.live
  rcases out with ⟨rival | r | x, w'⟩
  · obtain ⟨haffects, hrival⟩ := hout
    obtain ⟨hfirst', hcovers'⟩ := hafter haffects
    exact ⟨haffects.parent hv.governs hlive, hu, hv.governs, happart, hfirst', hrival, hcovers'⟩
  · obtain ⟨haffects, hclear⟩ := hout
    obtain ⟨hfirst', hcovers'⟩ := hafter haffects
    exact (haffects.parent hv.governs hlive).decide ht hclear hlive hfirst'.since
      (h.owns_underway hfirst') (fun hx hx' => happart hx' hx) (fun hj => (hcovers' hj).symm)
      ((World.Lull.emit _ site .hedgeWon).trans (.releaseAll _ _))
  · trivial

include hd

/-- Both attempts are looked at, the first one first. -/
theorem resumeRacing {first rival : op.State} (hw : w.Ready m t) (ht : Token.Stems site.call t₀ t)
    (hl : w.Ledger site.call t₀) (hne : u ≠ v) (hfirst : Raised site.call keeps m t u first w)
    (hrival : Raised site.call keeps m t v rival w)
    (hheld : Rivals site.call holds n t u v first rival w) :
    Tallies site.call t₀ n t (HedgeState.Holds site.call own holds n t) w
      ((withHedge site delay op).resume (.racing u first v rival) w) := by
  have happart : ∀ {x}, u.governs x = true → v.governs x = true → False := hheld.apart
  have hresume := h.resume_child hfirst ht hl hheld.first
  have hrival' := hd.raised_beside hw hfirst hrival hne.symm
  have hfosters := hd.fosters_resume hfirst
  -- nothing of what the first attempt does concerns what the rival has begun
  have hafter : ∀ {w' : World}, w.Affects site.call t₀ n u w' →
      Owns site.call holds n v rival w' ∧ ∀ {k x}, w'.Begun site.call n t k x →
        u.governs x = true ∨ v.governs x = true := fun haffects =>
    ⟨h.owns_stable hheld.rival (.sibling haffects fun hx hx' => happart hx' hx),
      fun hj => (hj.affects haffects).elim hheld.covers .inl⟩
  rw [Operation.withHedge_resume_racing]
  split
  next first' w₁ heq =>
    rw [heq] at hresume hrival' hfosters
    obtain ⟨haffects, hfirst₁⟩ := hresume
    obtain ⟨hrival₁, hcovers⟩ := hafter haffects
    refine .after (haffects.parent hheld.governs hfosters.live) ?_
    exact h.judgeRival own ht hheld.governs (hd.fosters_resume hrival') happart hfirst₁ hcovers
      (h.resume_child hrival' ht haffects.ledger hrival₁)
  next r w₁ heq =>
    rw [heq] at hresume hfosters
    obtain ⟨haffects, hclear⟩ := hresume
    obtain ⟨hrival₁, hcovers⟩ := hafter haffects
    exact (haffects.parent hheld.governs hfosters.live).decide ht hclear hfosters.live
      hrival₁.since (h.owns_underway hrival₁) happart hcovers (.releaseAll _ _)
  next => trivial

variable (hown : ∀ {m t s w}, keeps m t s w → own s = t)

include hown

/-- The instant of the launch has come. -/
theorem launch {first : op.State} (hk : .hedge ∈ kinds) (hw : w.Ready m t)
    (hfirst : Lodges site.call kinds op keeps m t u first w) (ht : Token.Stems site.call t₀ t)
    (hl : w.Ledger site.call t₀) (hheld : Under site.call holds n t u first w) :
    Tallies site.call t₀ n t (HedgeState.Holds site.call own holds n t) w
      (launch site delay t u first w) := by
  rw [Operation.launch_eq]
  split
  -- the rival is not launched under a cancelled token
  · refine judgeAlone own (fun s w' heq => ?_) (h.resume_under hd hfirst.raised ht hl hheld)
    have hresume := hd.resume_child hfirst.raised
    rw [heq] at hresume
    exact hresume.lands.raised.known hown
  · let w₁ := w.emit site (.hedgeLaunched delay)
    let w₂ := (w₁.mint site.call t).2
    let v := (w₁.mint site.call t).1
    have hlull : w.Still site.call t₀ t w₂ :=
      .of_lull ht ((World.Lull.emit w site _).trans (.mint w₁ site.call t))
    have hl₁ : w₁.Ledger site.call t₀ :=
      World.Still.ledger (.of_lull ht (.emit w site (.hedgeLaunched delay))) hl
    have hl₂ := hlull.ledger hl
    -- nothing was begun under the token of the rival
    have hnew : ∀ j, w₂.Since site.call j v := fun j => World.Since.mint hl₁ j
    have hheld₂ := h.under_stable hheld (.of_still hlull)
    obtain ⟨-, hready₂, hfirst₂, hv, hne⟩ := Docile.launched hk hd delay hw hfirst
    have happart := fun {x} => hfirst₂.fosters.apart hv hne (x := x)
    have hresume := hd.resume_child hfirst₂
    obtain ⟨m₁, hconfined⟩ := hd.confined_resume hfirst₂
    have hspared := hconfined.spares_sibling hv hfirst₂.fosters hne.symm
    have hfosters := hd.fosters_resume hfirst₂
    have htallies := h.resume_child hfirst₂ ht hl₂ hheld₂.owns
    -- which does not change while the first attempt is looked at
    have hafter : ∀ {w' : World}, w₂.Affects site.call t₀ n u w' →
        (∀ j, w'.Since site.call j v) ∧ ∀ {k x}, w'.Begun site.call n t k x →
          u.governs x = true ∨ v.governs x = true := by
      intro w' haffects
      have hapart : w₂.Apart site.call v w' := .sibling haffects fun hx hx' => happart hx' hx
      exact ⟨fun j => hapart.since (hnew j), fun hj =>
        .inl ((hj.affects haffects).elim hheld₂.covers fun hx => hx)⟩
    -- what follows is the look at the first attempt, and then the start of the rival
    refine .after (.of_still hl hlull) ?_
    split
    next first' w₃ heq =>
      rw [heq] at hspared hconfined htallies hfosters
      obtain ⟨haffects, hfirst₃⟩ := htallies
      obtain ⟨hsince, hcovers⟩ := hafter haffects
      have hready₃ := hconfined.ready hready₂
      have hv₃ := hv.spares hspared (Token.governs_self v)
      have hstart := h.start_child hready₃ hv₃ ht haffects.ledger (h.owns_reached hfirst₃) (hsince _)
      refine .after (haffects.parent hheld.governs hfosters.live) ?_
      exact h.judgeRival own ht hheld.governs (hd.fosters_start hready₃ hv₃) happart hfirst₃ hcovers
        hstart
    -- the first attempt has ended, so the rival does not start
    next r w₃ heq =>
      rw [heq] at htallies hfosters
      obtain ⟨haffects, hclear⟩ := htallies
      obtain ⟨hsince, hcovers⟩ := hafter haffects
      have hidle : w₃.Underway site.call n v := fun {k x} hj =>
        absurd (hsince (k + 1) hj.invoked hj.governs) (Nat.not_succ_le_self k)
      exact (haffects.parent hheld.governs hfosters.live).decide ht hclear hfosters.live (hsince n)
        hidle happart hcovers (.refl _)
    next => trivial

/-- The first attempt has been looked at while it is alone. -/
theorem judgeFirst {launchAt : Nat} {out : Status op.State Result × World} (hk : .hedge ∈ kinds)
    (hw : out.2.Ready m t) (ht : Token.Stems site.call t₀ t)
    (hlands : Lands (Lodges site.call kinds op keeps m t u) (fun _ => True) out)
    (hout : Tallies site.call t₀ n t (Under site.call holds n t u) w out) :
    Tallies site.call t₀ n t (HedgeState.Holds site.call own holds n t) w
      (judgeFirst site delay t u launchAt out) := by
  rcases out with ⟨first | r | x, w'⟩
  · obtain ⟨haffects, hheld⟩ := hout
    unfold Operation.judgeFirst
    dsimp only
    split
    · exact .after haffects (h.launch own hd hown hk hw hlands ht haffects.ledger hheld)
    · exact ⟨haffects, hheld⟩
  · exact hout
  · trivial

/-- **The hedge layer** lasts as long as the attempts in it. -/
theorem withHedge (hk : .hedge ∈ kinds) :
    (withHedge site delay op).Lasts site.call t₀ (HedgeState.Keeps site.call keeps)
      (HedgeState.Holds site.call own holds) := by
  refine ⟨fun {t w} hw ht hl => ?_, fun {m n t s w} hw ht hl hs hheld => ?_,
    fun {n t s w w'} hs hw => ?_, fun {n t s w} hs => ?_, fun {n t s w} hs => ?_⟩
  -- making a child of the token begins nothing
  · have hminted : w.Still site.call t₀ t (w.mint site.call t).2 := .of_lull ht (.mint w site.call t)
    have hready := hw.mint site.call t
    have hfirst := hd.start_child hready (.mint hw)
    exact .after (.of_still hl hminted) (h.judgeFirst own hd hown hk (hfirst.confined.ready hready)
      ht hfirst.lands (h.start_under hd hw ht hl))
  · cases s with
    | early caller u launchAt first =>
      obtain ⟨rfl, hraised⟩ := hs
      have hresume := hd.resume_child hraised
      exact h.judgeFirst own hd hown hk (hresume.confined.ready hw) ht hresume.lands
        (h.resume_under hd hraised ht hl hheld)
    | alone first =>
      obtain ⟨u, hraised⟩ := hs
      -- the only one that goes on owns its token
      obtain rfl : own first = u := hraised.known hown
      refine judgeAlone own (fun s w' heq => ?_) (h.resume_under hd hraised ht hl hheld)
      have hresume := hd.resume_child hraised
      rw [heq] at hresume
      exact hresume.lands.raised.known hown
    | racing u first v rival =>
      obtain ⟨hne, hfirst, hrival⟩ := hs
      exact h.resumeRacing own hd hw ht hl hne hfirst hrival hheld
  · cases s with
    | early caller u launchAt first => exact h.under_stable hs hw
    | alone first => exact h.under_stable hs hw
    | racing u first v rival =>
      exact ⟨hs.governs, hs.governs', hs.apart, h.owns_stable hs.first (hw.child hs.governs),
        h.owns_stable hs.rival (hw.child hs.governs'), fun hj => hs.covers (hw.begun hj)⟩
  · cases s with
    | early caller u launchAt first => exact h.owns_reached hs.owns
    | alone first => exact h.owns_reached hs.owns
    | racing u first v rival => exact h.owns_reached hs.first
  · cases s with
    | early caller u launchAt first => exact h.under_underway hs
    | alone first => exact h.under_underway hs
    | racing u first v rival =>
      intro k x hj
      -- what is under way is under way in one of the two
      rcases hs.covers hj with hx | hx
      · exact h.owns_underway hs.first ⟨hj.since, hj.invoked, hx⟩
      · exact h.owns_underway hs.rival ⟨hj.since, hj.invoked, hx⟩

end

end Activity.Lasts

end CallPolicy
