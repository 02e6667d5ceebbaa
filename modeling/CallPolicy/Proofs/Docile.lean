/-
Activities that keep within a scope and wait patiently.

An activity is `Docile` if whatever it does is within the scope of its token, and if it
is suspended only for lack of something: when it is looked at again before an instant that
it waits for, and none of its tokens has been cancelled in the meantime, nothing happens
(`Activity.AtRest`). Between two looks others may do what they like, as long as they
spare its tokens. What is known of a suspended activity is part of the property
(`keeps`), for those who have to know more about it.

* **`Docile.after`**, **`Docile.holding`**, **`Docile.within`**, … — the building blocks
  of activities keep this;
* **`Docile.resume_child`** — so does an activity under a child token, as long as nothing
  but the parent cancels the child (`World.Fosters`);
* **`World.Confined.spares_sibling`** — and what one child does, spares the others.
-/
import CallPolicy.Proofs.Confined

namespace CallPolicy

variable {ι ο ο' κ η : Type} {w w' w'' : World} {t u v : Token} {m m' : CallId → Nat} {σ τ : Scope}
  {F G : CallId → Token → Prop} {call : CallId} {kinds : List LayerKind}

/-- The tokens below a token, whoever has them. -/
def Token.Below (t : Token) (_ : CallId) (u : Token) : Prop := t.governs u = true

/-! ### Worlds that an activity goes on in -/

namespace World

/-- Something may go on with a token, and with tokens made after the `m`-th ones. -/
structure Ready (m : CallId → Nat) (t : Token) (w : World) : Prop where
  sane : w.Sane
  token : t.Before w.minted
  made : m ≤ w.minted

/-- What comes next is made later. -/
theorem Ready.later (h : w.Ready m t) : w.Ready w.minted t :=
  ⟨h.sane, h.token, fun _ => Nat.le_refl _⟩

theorem Confined.ready (h : w.Confined σ m' w') (hw : w.Ready m t) : w'.Ready m t :=
  ⟨h.sane hw.sane, hw.token.mono h.minted, fun c => Nat.le_trans (hw.made c) (h.minted c)⟩

theorem Spares.ready (h : w.Spares F u w') (hw : w.Ready m t) (hsane : w'.Sane) :
    w'.Ready m t :=
  ⟨hsane, hw.token.mono h.minted, fun c => Nat.le_trans (hw.made c) (h.minted c)⟩

theorem Ready.mint (h : w.Ready m t) (call : CallId) (u : Token) :
    (w.mint call u).2.Ready m t := by
  have hminted : w.Confined (.ofCall call [] u) m (w.mint call u).2 := .mint w call u
  exact hminted.ready h

/-- The same for some tokens. -/
structure Alike (F : CallId → Token → Prop) (w w' : World) : Prop where
  isCancelled : ∀ {c u}, F c u → w'.isCancelled u = w.isCancelled u

theorem Alike.trans (h : w.Alike F w') (h' : w'.Alike F w'') : w.Alike F w'' :=
  ⟨fun hu => (h'.isCancelled hu).trans (h.isCancelled hu)⟩

theorem Alike.mono (h : w.Alike F w') (hF : ∀ {c u}, G c u → F c u) : w.Alike G w' :=
  ⟨fun hu => h.isCancelled (hF hu)⟩

/-- What is done elsewhere goes unnoticed, unless it cancels a token above all. -/
theorem Spares.alike (h : w.Spares F t w') (hlive : w'.isCancelled t = false) :
    w.Alike F w' := by
  refine ⟨fun {c u} hu => ?_⟩
  cases hc : w'.isCancelled u with
  | false =>
    cases hc' : w.isCancelled u with
    | false => rfl
    | true => exact (h.isCancelled hc').symm.trans hc |>.symm
  | true =>
    rcases h.isCancelled_or hu hc with hold | hall
    · exact hold.symm
    · rw [hlive] at hall
      cases hall

/-! ### Children of a token -/

/-- A step during which only root tokens are cancelled. -/
theorem spares_of_roots (hm : w.minted ≤ w'.minted)
    (h : ∃ as, w'.cancelled = as ++ w.cancelled ∧ ∀ a ∈ as, a.path = []) :
    w.Spares t.Below t w' := by
  obtain ⟨as, heq, has⟩ := h
  refine ⟨hm, as, heq, fun a ha c u hu hau => ?_⟩
  exact Token.governs_of_path_nil (has a ha)
    ((Token.governs_iff.mp hau).1.trans (Token.governs_iff.mp hu).1.symm)

theorem spares_emit (w : World) (site : Site) (e : Event) (t : Token) :
    w.Spares t.Below t (w.emit site e) := by
  rcases w.emit_eq site e with heq | ⟨name, heq⟩ <;> rw [heq]
  · exact spares_of_roots (fun _ => Nat.le_refl _) ⟨[], rfl, nofun⟩
  · refine spares_of_roots (fun _ => Nat.le_refl _) ⟨[.named name], rfl, fun a ha => ?_⟩
    rw [List.mem_singleton.mp ha]
    rfl

theorem minted_mint (w : World) (call : CallId) (t : Token) :
    w.minted ≤ (w.mint call t).2.minted :=
  (Confined.mint (σ := .ofCall call [] t) (m := w.minted) w call t).minted

theorem spares_mint (w : World) (call : CallId) (t u : Token) :
    w.Spares u.Below u (w.mint call t).2 :=
  spares_of_roots (w.minted_mint call t) ⟨[], rfl, nofun⟩

/-- A token is a child that was made for a call, and nothing but its parent has cancelled
it so far. -/
structure Fosters (call : CallId) (m : CallId → Nat) (t u : Token) (w : World) : Prop where
  child : ∃ n, m call ≤ n ∧ u = t.child call n
  made : u.Before w.minted
  live : w.isCancelled u = true → w.isCancelled t = true

namespace Fosters

theorem stems (h : w.Fosters call m t u) : Token.Stems call t u := by
  obtain ⟨n, -, rfl⟩ := h.child
  exact (Token.Stems.refl call t).child n

theorem governs (h : w.Fosters call m t u) : t.governs u = true := h.stems.governs

/-- A child may be cancelled on behalf of its call. -/
theorem cancels (kinds : List LayerKind) (h : w.Fosters call m t u) (hw : w.minted ≤ w'.minted) :
    (Scope.ofCall call kinds t).Cancels m w' u := by
  obtain ⟨n, hn, rfl⟩ := h.child
  exact .inr ⟨h.made.mono hw, call, t, n, .refl call t, hn, rfl⟩

/-- A child is live for as long as its parent is. -/
theorem isCancelled_eq (h : w.Fosters call m t u) : w.isCancelled u = w.isCancelled t := by
  cases ht : w.isCancelled t with
  | true => exact isCancelled_of_governs ht h.governs
  | false =>
    cases hu : w.isCancelled u with
    | false => rfl
    | true => exact ht.symm.trans (h.live hu) |>.symm

/-- A new child is as live as its parent. -/
theorem mint (hw : w.Ready m t) :
    (w.mint call t).2.Fosters call m t (w.mint call t).1 := by
  refine ⟨⟨w.minted call, hw.made call, rfl⟩, ?_, fun hc => ?_⟩
  · have hlt : w.minted call < (w.mint call t).2.minted call := by
      show w.minted call < assign w.minted call (w.minted call + 1) call
      rw [assign_self]
      exact Nat.lt_succ_self _
    exact (hw.token.mono (w.minted_mint call t)).child hlt
  · obtain ⟨a, ha, hau⟩ := isCancelled_iff.mp hc
    rcases Token.governs_of_governs_child hau with heq | ht
    · -- no token was cancelled before it was made
      have hlt := hw.sane a ha (call, w.minted call) (heq ▸ List.mem_cons_self)
      exact absurd hlt (Nat.lt_irrefl _)
    · exact isCancelled_iff.mpr ⟨a, ha, ht⟩

/-- A new child is another one. -/
theorem ne_mint (h : w.Fosters call m t u) (t' : Token) : u ≠ (w.mint call t').1 := by
  intro heq
  have hlt := h.made (call, w.minted call) (heq ▸ List.mem_cons_self)
  exact Nat.lt_irrefl _ hlt

theorem spares (h : w.Fosters call m t u) (hw : w.Spares F t w') (hu : F call u) :
    w'.Fosters call m t u := by
  refine ⟨h.child, h.made.mono hw.minted, fun hc => ?_⟩
  rcases hw.isCancelled_or hu hc with hold | ht
  · exact hw.isCancelled (h.live hold)
  · exact ht

/-- What is done with a child alone is done to its parent only if it is done to a root. -/
theorem confined (h : w.Fosters call m t u) (hu : u.Before m') (hw : w.Confined σ m' w') :
    w'.Fosters call m t u := by
  refine ⟨h.child, h.made.mono hw.minted, fun hc => ?_⟩
  rcases hw.isCancelled_of_before hu hc with hold | ⟨a, ha, hroot, hau⟩
  · exact hw.isCancelled (h.live hold)
  · refine isCancelled_iff.mpr ⟨a, ha, Token.governs_of_path_nil hroot (hau.trans ?_)⟩
    exact (Token.governs_iff.mp h.governs).1.symm

end Fosters

/-- A child starts out as ready as its parent. -/
theorem Ready.child (h : w.Ready m t) (call : CallId) :
    (w.mint call t).2.Ready (w.mint call t).2.minted (w.mint call t).1 := by
  have hchild : (w.mint call t).2.Fosters call m t (w.mint call t).1 := .mint h
  exact ⟨(h.mint call t).sane, hchild.made, fun _ => Nat.le_refl _⟩

/-- **What one child does spares the others.** -/
theorem Confined.spares_sibling (hu : w.Fosters call m t u) (hv : w.Fosters call m t v)
    (hne : u ≠ v) (h : w.Confined (.ofCall call kinds v) m' w') :
    w.Spares u.Below t w' := by
  obtain ⟨as, heq, has⟩ := h.cancelled
  refine ⟨h.minted, as, heq, fun a ha c x hx hax => ?_⟩
  rcases has a ha with hroot | ⟨-, d, y, n, hacts, -, rfl⟩
  · refine Token.governs_of_path_nil hroot ((Token.governs_iff.mp hax).1.trans ?_)
    exact (Token.governs_iff.mp (Token.governs_trans hu.governs hx)).1.symm
  · -- otherwise a token would be below both
    have hvx : v.governs x = true :=
      Token.governs_trans (Token.governs_trans hacts.governs (y.governs_child d n)) hax
    obtain ⟨i, -, rfl⟩ := hu.child
    obtain ⟨j, -, rfl⟩ := hv.child
    exact absurd (Token.eq_child_of_governs hx hvx) hne

end World

/-! ### Docile activities -/

/-- What is true of where an activity stands. -/
def Lands (pending : κ → World → Prop) (done : ο → Prop) : Status κ ο × World → Prop
  | (.pending s, w) => pending s w
  | (.done o, _) => done o
  | (.panicked _, _) => True

/-- What has been done is within a scope, and something is true of where it has led. -/
structure Yields (σ : Scope) (m : CallId → Nat) (w : World) (pending : κ → World → Prop)
    (done : ο → Prop) (out : Status κ ο × World) : Prop where
  confined : w.Confined σ m out.2
  lands : Lands pending done out

namespace Yields

variable {P Q : κ → World → Prop} {E E' : ο → Prop} {out : Status κ ο × World}

theorem after (h : w.Confined σ m w') (h' : Yields σ m w' P E out) : Yields σ m w P E out :=
  ⟨h.trans h'.confined, h'.lands⟩

theorem imp (h : Yields σ m w P E out) (hσ : σ.Le τ) (hm : m' ≤ m)
    (hP : ∀ s w', w.Confined σ m w' → P s w' → Q s w') (hE : ∀ o, E o → E' o) :
    Yields τ m' w Q E' out := by
  obtain ⟨hw, hlands⟩ := h
  refine ⟨hw.mono hσ hm, ?_⟩
  rcases out with ⟨s | o | x, w⟩
  · exact hP s _ hw hlands
  · exact hE o hlands
  · trivial

end Yields

namespace Activity

/-- Nothing that a suspended activity waits for has come, and as long as that is so, nothing
comes of looking at it, even if time has passed. -/
structure AtRest (a : Activity ι ο) (F : CallId → Token → Prop) (t : Token) (s : a.State)
    (w : World) : Prop where
  due : ∀ d ∈ a.deadlines s, w.now < d
  rests : w.isCancelled t = false → ∀ w', w.Alike F w' → (∀ d ∈ a.deadlines s, w'.now < d) →
    a.resume s w' = (.pending s, w')

theorem AtRest.mono {a : Activity ι ο} {s : a.State} (h : a.AtRest F t s w)
    (hF : ∀ {c u}, F c u → G c u) : a.AtRest G t s w :=
  ⟨h.due, fun hlive w' hw hearly => h.rests hlive w' (hw.mono hF) hearly⟩

theorem AtRest.spares {a : Activity ι ο} {s : a.State} (h : a.AtRest F t s w)
    (hw : w.Spares F t w') (hnow : w'.now = w.now) : a.AtRest F t s w' := by
  refine ⟨by rw [hnow]; exact h.due, fun hlive w'' hw' hearly => ?_⟩
  have hlive' : w.isCancelled t = false := by
    cases hc : w.isCancelled t with
    | false => rfl
    | true => exact (hw.isCancelled hc).symm.trans hlive
  exact h.rests hlive' w'' ((hw.alike hlive).trans hw') hearly

/-- A suspended activity is at rest, and something is known of it. -/
structure Stands (a : Activity ι ο) (σ : Scope) (keeps : Token → a.State → World → Prop)
    (t : Token) (s : a.State) (w : World) : Prop where
  kept : keeps t s w
  atRest : a.AtRest σ.acts t s w

/-- Whatever the activity does is within the scope of its token. `keeps` is known of it
whenever it is suspended, and stays so while others spare its tokens; `ends` is known of
its output. -/
structure Docile (a : Activity ι ο) (σ : Token → Scope) (token : ι → Token)
    (ends : Token → ο → Prop) (keeps : (CallId → Nat) → Token → a.State → World → Prop) :
    Prop where
  start : ∀ {i w}, w.Ready w.minted (token i) → Yields (σ (token i)) w.minted w
    (a.Stands (σ (token i)) (keeps w.minted) (token i)) (ends (token i)) (a.start i w)
  resume : ∀ {m t s w}, w.Ready m t → keeps m t s w →
    Yields (σ t) m w (a.Stands (σ t) (keeps m) t) (ends t) (a.resume s w)
  stable : ∀ {m t s w w'}, w.Ready m t → keeps m t s w → w.Spares (σ t).acts t w' → w'.Sane →
    keeps m t s w'
  earlier : ∀ {m m' t s w}, m' ≤ m → keeps m t s w → keeps m' t s w
  holdings : ∀ {m t s w}, keeps m t s w → ∀ hold ∈ a.holdings s, (σ t).Holds hold

namespace Docile

variable {σ τ : Token → Scope} {token : ι → Token} {ends : Token → ο → Prop}
  {ends' : Token → ο' → Prop}

section

variable {a : Activity ι ο} {keeps : (CallId → Nat) → Token → a.State → World → Prop}

/-- What is within a scope is within a wider one. -/
theorem mono (h : a.Docile σ token ends keeps) (hσ : ∀ t, (σ t).Le (τ t)) :
    a.Docile τ token ends keeps := by
  have hstands : ∀ {m t s w}, a.Stands (σ t) (keeps m) t s w → a.Stands (τ t) (keeps m) t s w :=
    fun hs => ⟨hs.kept, hs.atRest.mono (hσ _).acts⟩
  constructor
  · exact fun hw => (h.start hw).imp (hσ _) (fun _ => Nat.le_refl _) (fun _ _ _ => hstands)
      fun _ he => he
  · exact fun hw hs => (h.resume hw hs).imp (hσ _) (fun _ => Nat.le_refl _)
      (fun _ _ _ => hstands) fun _ he => he
  · exact fun hw hs hspares => h.stable hw hs (hspares.mono (hσ _).acts (Token.governs_self _))
  · exact h.earlier
  · exact fun hs hold hmem => (hσ _).holds (h.holdings hs hold hmem)

/-- The activity starts when something has been done. Tokens that were made by then do
not count as made since. -/
theorem start_after {i : ι} (h : a.Docile σ token ends keeps) (hw : w.Ready m (token i))
    (hfirst : w.Confined (σ (token i)) m w') :
    Yields (σ (token i)) m w (a.Stands (σ (token i)) (keeps m) (token i)) (ends (token i))
      (a.start i w') := by
  have hready := hfirst.ready hw
  refine .after hfirst ((h.start hready.later).imp (.refl _) hready.made (fun _ _ _ hs => ?_)
    fun _ he => he)
  exact ⟨h.earlier hready.made hs.kept, hs.atRest⟩

end

/-! ### Building blocks -/

theorem atOnce {f : ι → World → ο × World}
    (h : ∀ {i w}, w.Ready w.minted (token i) →
      w.Confined (σ (token i)) w.minted (f i w).2 ∧ ends (token i) (f i w).1) :
    (atOnce f).Docile σ token ends (fun _ _ s _ => nomatch s) := by
  refine ⟨fun hw => ⟨(h hw).1, (h hw).2⟩, ?_, ?_, ?_, ?_⟩ <;> intro _ _ s <;> nomatch s

/-- What a wait is for depends on the tokens of the scope alone. -/
theorem wait {state : ι → World → κ} {ready : κ → World → Option ο} {deadlines : κ → List Nat}
    (tokenOf : κ → Token) (hstate : ∀ i w, tokenOf (state i w) = token i)
    (hdue : ∀ s w, ready s w = none → ∀ d ∈ deadlines s, w.now < d)
    (hready : ∀ {s w w'}, w.isCancelled (tokenOf s) = false → w.Alike (σ (tokenOf s)).acts w' →
      (∀ d ∈ deadlines s, w'.now < d) → ready s w = none → ready s w' = none)
    (hends : ∀ s w o, ready s w = some o → ends (tokenOf s) o) :
    (Activity.wait state ready deadlines).Docile σ token ends (fun _ t s _ => tokenOf s = t) := by
  have hlook : ∀ {m : CallId → Nat} {t : Token} {s : κ} {w : World}, tokenOf s = t →
      Yields (σ t) m w
        ((Activity.wait state ready deadlines).Stands (σ t) (fun t s _ => tokenOf s = t) t)
        (ends t) (Activity.wait.look ready s w) := by
    rintro m _ s w rfl
    unfold Activity.wait.look
    split
    next o ho => exact ⟨.refl _ _ _, hends s w o ho⟩
    next hnone =>
      refine ⟨.refl _ _ _, rfl, hdue s w hnone, fun hlive w' hw hearly => ?_⟩
      show Activity.wait.look ready s w' = _
      rw [Activity.wait.look, hready hlive hw hearly hnone]
      rfl
  exact ⟨fun {i w} _ => hlook (hstate i w), fun _ hs => hlook hs, fun _ hs _ _ => hs,
    fun _ hs => hs, nofun⟩

section

variable {a : Activity ι ο} {keeps : (CallId → Nat) → Token → a.State → World → Prop}

theorem after {f : ο → World → ο' × World}
    (hf : ∀ {m t o} {w : World}, w.Confined (σ t) m (f o w).2)
    (hends : ∀ {t o w}, ends t o → ends' t (f o w).1) (h : a.Docile σ token ends keeps) :
    (a.after f).Docile σ token ends' keeps := by
  have hfollow : ∀ {m : CallId → Nat} {t : Token} {w : World} {out : Status a.State ο × World},
      Yields (σ t) m w (a.Stands (σ t) (keeps m) t) (ends t) out →
      Yields (σ t) m w ((a.after f).Stands (σ t) (keeps m) t) (ends' t)
        (Activity.after.follow f a out) := by
    rintro m t w ⟨s | o | x, w'⟩ ⟨hw, hlands⟩
    · refine ⟨hw, hlands.kept, hlands.atRest.due, fun hlive w'' hw' hearly => ?_⟩
      show Activity.after.follow f a (a.resume s w'') = _
      rw [hlands.atRest.rests hlive w'' hw' hearly]
      rfl
    · exact ⟨hw.trans hf, hends hlands⟩
    · exact ⟨hw, trivial⟩
  exact ⟨fun hw => hfollow (h.start hw), fun hw hs => hfollow (h.resume hw hs), h.stable,
    h.earlier, h.holdings⟩

theorem holding {held : η → Holding} {take : World → Except ο η × World}
    {give : η → ο → World → World} (hheld : ∀ t x, (σ t).Holds (held x))
    (htake : ∀ {m t} {w : World}, w.Confined (σ t) m (take w).2)
    (herror : ∀ {t w o w'}, take w = (.error o, w') → ends t o)
    (hgive : ∀ {m t x o} {w : World}, w.Confined (σ t) m (give x o w))
    (h : a.Docile σ token ends keeps) :
    (a.holding held take give).Docile σ token ends (fun m t s => keeps m t s.2) := by
  -- a poll under what is held: it goes on and keeps it, ends and gives it back, or drops it
  have hkeep : ∀ {m : CallId → Nat} {t : Token} {w : World} {out : Status a.State ο × World}
      (x : η), Yields (σ t) m w (a.Stands (σ t) (keeps m) t) (ends t) out →
      Yields (σ t) m w
        ((a.holding held take give).Stands (σ t) (fun t s => keeps m t s.2) t) (ends t)
        (Activity.holding.keep held give a x out) := by
    rintro m t w ⟨s | o | y, w'⟩ x ⟨hw, hlands⟩
    · refine ⟨hw, hlands.kept, hlands.atRest.due, fun hlive w'' hw' hearly => ?_⟩
      show Activity.holding.keep held give a x (a.resume s w'') = _
      rw [hlands.atRest.rests hlive w'' hw' hearly]
      rfl
    · exact ⟨hw.trans hgive, hlands⟩
    · exact ⟨hw.trans (.release _ (hheld t x)), trivial⟩
  refine ⟨fun {i w} hw => ?_, fun hw hs => hkeep _ (h.resume hw hs), h.stable, h.earlier, ?_⟩
  · have htaken := htake (m := w.minted) (t := token i) (w := w)
    -- refused, it is over at once; admitted, what is inside starts a moment later
    cases htk : take w with
    | mk e w' =>
      rw [htk] at htaken
      cases e with
      | error o =>
        rw [holding_start_error htk]
        exact ⟨htaken, herror htk⟩
      | ok x =>
        rw [holding_start_ok htk]
        exact hkeep x (h.start_after hw htaken)
  · intro m t s w hs hold hmem
    rcases List.mem_append.mp hmem with hmem | hmem
    · exact h.holdings hs hold hmem
    · rw [List.mem_singleton.mp hmem]
      exact hheld t s.1

end

end Docile

/-! ### Activities under a child token -/

/-- Something goes on with a child of a token. -/
structure Raised (call : CallId) (keeps : (CallId → Nat) → Token → κ → World → Prop)
    (m : CallId → Nat) (t u : Token) (s : κ) (w : World) : Prop where
  fosters : w.Fosters call m t u
  kept : ∃ m', m ≤ m' ∧ u.Before m' ∧ w.Ready m' u ∧ keeps m' u s w

/-- A suspended activity under a child token is at rest. -/
structure Lodges (call : CallId) (kinds : List LayerKind) (a : Activity ι ο)
    (keeps : (CallId → Nat) → Token → a.State → World → Prop) (m : CallId → Nat) (t u : Token)
    (s : a.State) (w : World) : Prop where
  raised : Raised call keeps m t u s w
  atRest : a.AtRest (Scope.ofCall call kinds u).acts u s w

section

variable {a : Activity Token ο} {ends : Token → ο → Prop}
  {keeps : (CallId → Nat) → Token → a.State → World → Prop} {s : a.State}

/-- Nothing comes of looking at it again while the parent is live. -/
theorem Lodges.rests (hs : Lodges call kinds a keeps m t u s w) (hlive : w.isCancelled t = false)
    (hw : w.Alike (Scope.ofCall call kinds t).acts w')
    (hearly : ∀ d ∈ a.deadlines s, w'.now < d) : a.resume s w' = (.pending s, w') := by
  have hu := hs.raised.fosters
  exact hs.atRest.rests (hu.isCancelled_eq.trans hlive) w'
    (hw.mono (Scope.ofCall_le (List.Subset.refl kinds) hu.stems).acts) hearly

theorem Raised.earlier (hs : Raised call keeps m t u s w) (hm : m' ≤ m) :
    Raised call keeps m' t u s w := by
  obtain ⟨⟨⟨n, hn, rfl⟩, hmade, hlive⟩, m'', hm', hkept⟩ := hs
  exact ⟨⟨⟨n, Nat.le_trans (hm call) hn, rfl⟩, hmade, hlive⟩, m'',
    fun c => Nat.le_trans (hm c) (hm' c), hkept⟩

/-- What is kept anywhere tells of the activity under the child token. -/
theorem Raised.known {known : Token → a.State → Prop} (hs : Raised call keeps m t u s w)
    (h : ∀ {m t s w}, keeps m t s w → known t s) : known u s := by
  obtain ⟨-, m', -, -, -, hkept⟩ := hs
  exact h hkept

namespace Docile

theorem yields_child {out : Status a.State ο × World} (hu : w.Fosters call m t u) (hm : m ≤ m')
    (hmade : u.Before m') (hw : w.Ready m' u)
    (hout : Yields (.ofCall call kinds u) m' w (a.Stands (.ofCall call kinds u) (keeps m') u)
      (ends u) out) :
    Yields (.ofCall call kinds t) m w (Lodges call kinds a keeps m t u) (ends u) out := by
  refine hout.imp (Scope.ofCall_le (List.Subset.refl _) hu.stems) hm (fun s w' hw' hs => ?_)
    fun _ he => he
  exact ⟨⟨hu.confined hmade hw', m', hm, hmade, hw'.ready hw, hs.kept⟩, hs.atRest⟩

variable (h : a.Docile (.ofCall call kinds) (fun t => t) ends keeps)

include h

theorem confined_start (hw : w.Ready m t) (hu : w.Fosters call m t u) :
    w.Confined (.ofCall call kinds u) w.minted (a.start u w).2 :=
  (h.start ⟨hw.sane, hu.made, fun _ => Nat.le_refl _⟩).confined

theorem start_child (hw : w.Ready m t) (hu : w.Fosters call m t u) :
    Yields (.ofCall call kinds t) m w (Lodges call kinds a keeps m t u) (ends u) (a.start u w) := by
  have hready : w.Ready w.minted u := ⟨hw.sane, hu.made, fun _ => Nat.le_refl _⟩
  exact yields_child hu hw.made hu.made hready (h.start hready)

/-- **An activity under a child token** goes on within the scope of the parent. -/
theorem resume_child (hs : Raised call keeps m t u s w) :
    Yields (.ofCall call kinds t) m w (Lodges call kinds a keeps m t u) (ends u)
      (a.resume s w) := by
  obtain ⟨hu, m', hm, hmade, hw, hkept⟩ := hs
  exact yields_child hu hm hmade hw (h.resume hw hkept)

/-- Others may do what they like, as long as they spare the tokens of the child. -/
theorem stable_child (hs : Raised call keeps m t u s w) (hw : w.Spares F t w')
    (hF : ∀ {c x}, Serves call u c x → F c x) (hsane : w'.Sane) :
    Raised call keeps m t u s w' := by
  obtain ⟨hu, m', hm, hmade, hready, hkept⟩ := hs
  have hwu : w.Spares (Scope.ofCall call kinds u).acts u w' := hw.mono hF hu.governs
  exact ⟨hu.spares hw (hF (.refl call u)), m', hm, hmade, hwu.ready hready hsane,
    h.stable hready hkept hwu hsane⟩

theorem lodges_child (hs : Lodges call kinds a keeps m t u s w) (hw : w.Spares F t w')
    (hF : ∀ {c x}, Serves call u c x → F c x) (hnow : w'.now = w.now) (hsane : w'.Sane) :
    Lodges call kinds a keeps m t u s w' :=
  ⟨h.stable_child hs.raised hw hF hsane,
    hs.atRest.spares (hw.mono hF hs.raised.fosters.governs) hnow⟩

/-- What is done under a child token is within the scope of the child. -/
theorem confined_resume (hs : Raised call keeps m t u s w) :
    ∃ m', w.Confined (.ofCall call kinds u) m' (a.resume s w).2 := by
  obtain ⟨-, m', -, -, hready, hkept⟩ := hs
  exact ⟨m', (h.resume hready hkept).confined⟩

/-- The child stays as live as its parent. -/
theorem fosters_start (hw : w.Ready m t) (hu : w.Fosters call m t u) :
    (a.start u w).2.Fosters call m t u := hu.confined hu.made (h.confined_start hw hu)

theorem fosters_resume (hs : Raised call keeps m t u s w) :
    (a.resume s w).2.Fosters call m t u := by
  obtain ⟨hu, m', -, hmade, hready, hkept⟩ := hs
  exact hu.confined hmade (h.resume hready hkept).confined

/-- A child that is looked at leaves another one as it was. -/
theorem raised_beside {s' : a.State} (hw : w.Ready m t) (hs : Raised call keeps m t u s w)
    (hs' : Raised call keeps m t v s' w) (hne : v ≠ u) :
    Raised call keeps m t v s' (a.resume s w).2 := by
  obtain ⟨m', hconfined⟩ := h.confined_resume hs
  have hspared := hconfined.spares_sibling hs'.fosters hs.fosters hne
  exact h.stable_child hs' hspared Serves.governs (hconfined.ready hw).sane

theorem holdings_child (hs : Raised call keeps m t u s w) :
    ∀ hold ∈ a.holdings s, (Scope.ofCall call kinds t).Holds hold := by
  obtain ⟨hu, m', -, -, -, hkept⟩ := hs
  intro hold hmem
  exact (Scope.ofCall_le (List.Subset.refl kinds) hu.stems).holds (h.holdings hkept hold hmem)

/-- An activity with a deadline goes on under a child token. -/
theorem within (length : Duration) :
    (a.within call length).Docile (.ofCall call kinds) (fun t => t) (fun _ _ => True)
      (fun m t s => Raised call keeps m t s.token s.inner) := by
  -- the look at the deadline follows the poll of what is inside, at the start and at every resume
  have hcheck : ∀ {m : CallId → Nat} {t u : Token} {w : World} (d : Nat)
      {out : Status a.State ο × World},
      Yields (.ofCall call kinds t) m w (Lodges call kinds a keeps m t u) (ends u) out →
      Yields (.ofCall call kinds t) m w
        ((a.within call length).Stands (.ofCall call kinds t)
          (fun t s => Raised call keeps m t s.token s.inner) t)
        (fun _ => True) (Activity.within.check a u d out) := by
    rintro m t u w d ⟨s | o | x, w'⟩ ⟨hw, hlands⟩
    · unfold Activity.within.check
      dsimp only
      split
      next hpassed =>
        have hdropped : w'.Confined (.ofCall call kinds t) m (w'.releaseAll (a.holdings s)) :=
          .releaseAll w' (h.holdings_child hlands.raised)
        have hcancel := hlands.raised.fosters.cancels kinds hdropped.minted
        exact ⟨hw.trans (hdropped.trans (.cancel _ hcancel)), trivial⟩
      next hearly =>
        -- still early: what is inside rests, and so does the deadline
        refine ⟨hw, hlands.raised, fun d' hd' => ?_, fun hlive w'' hw' hearly' => ?_⟩
        · rcases List.mem_cons.mp hd' with rfl | hd'
          · exact Nat.lt_of_not_le hearly
          · exact hlands.atRest.due d' hd'
        · show Activity.within.check a u d (a.resume s w'') = _
          obtain ⟨hlate, hinner⟩ := List.forall_mem_cons.mp hearly'
          rw [hlands.rests hlive hw' hinner, Activity.within.check, if_neg (Nat.not_le.mpr hlate)]
          rfl
    · exact ⟨hw, trivial⟩
    · exact ⟨hw, trivial⟩
  refine ⟨fun {t w} hw => ?_, fun hw hs => hcheck _ (h.resume_child hs), ?_, ?_, ?_⟩
  · have hminted : w.Confined (.ofCall call kinds t) w.minted (w.mint call t).2 := .mint w call t
    exact .after hminted (hcheck _ (h.start_child (hminted.ready hw) (.mint hw)))
  · exact fun _ hs hspares hsane =>
      h.stable_child hs hspares (Serves.own hs.fosters.stems).trans hsane
  · exact fun hm hs => hs.earlier hm
  · exact fun hs => h.holdings_child hs

end Docile

end

end Activity

end CallPolicy
