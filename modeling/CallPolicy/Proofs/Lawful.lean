/-
What activities do is made of effects.

An activity is `Lawful` if it starts with certain rights and nothing in hand, and
whatever it does when it is started or resumed is a number of effects that leave
it with the holdings of its new state, and with rights that depend on its state
alone, or with nothing at all when it has ended.

The building blocks of activities keep this: **`Lawful.after`**, **`Lawful.holding`**
and **`Lawful.within`** here, and the layers of a policy below.
-/
import CallPolicy.Proofs.Effects

namespace CallPolicy

variable {K : List Policy} {ι ο ο' σ η : Type}

/-- The scene `x` leads to a status by effects, with the holdings and rights of the
state if it is suspended, and with nothing in hand otherwise. -/
def Leads (K : List Policy) (x : Scene) (holdings : σ → List Holding)
    (rights : σ → Multiset Right) : Status σ ο × World → Prop
  | (.pending s, w) => Steps K x ⟨w, holdings s, rights s⟩
  | (.done _, w) => Steps K x ⟨w, 0, 0⟩
  | (.panicked _, w) => Steps K x ⟨w, 0, 0⟩

/-- Effects come first. -/
theorem Leads.after_steps {x y : Scene} {holdings : σ → List Holding}
    {rights : σ → Multiset Right} {out : Status σ ο × World} (h : Steps K x y)
    (h' : Leads K y holdings rights out) : Leads K x holdings rights out := by
  rcases out with ⟨s | o | t, w⟩
  · exact h.trans h'
  · exact h.trans h'
  · exact h.trans h'

theorem Leads.mono {K' : List Policy} {x : Scene} {holdings : σ → List Holding}
    {rights : σ → Multiset Right} {out : Status σ ο × World} (h : Leads K x holdings rights out)
    (hK : K ⊆ K') : Leads K' x holdings rights out := by
  rcases out with ⟨s | o | t, w⟩
  · exact Steps.mono h hK
  · exact Steps.mono h hK
  · exact Steps.mono h hK

namespace Activity

/-- The activity starts with the rights `needs` and has the given rights whenever it
is suspended; all that it does is effects. -/
structure Lawful (K : List Policy) (a : Activity ι ο) (needs : Multiset Right)
    (rights : a.State → Multiset Right) : Prop where
  start : ∀ i w, Leads K ⟨w, 0, needs⟩ a.holdings rights (a.start i w)
  resume : ∀ s w, Leads K ⟨w, a.holdings s, rights s⟩ a.holdings rights (a.resume s w)

namespace Lawful

theorem mono {K' : List Policy} {a : Activity ι ο} {needs : Multiset Right}
    {rights : a.State → Multiset Right} (h : a.Lawful K needs rights) (hK : K ⊆ K') :
    a.Lawful K' needs rights :=
  ⟨fun i w => (h.start i w).mono hK, fun s w => (h.resume s w).mono hK⟩

/-! ### Building blocks -/

theorem atOnce {f : ι → World → ο × World} (hf : ∀ i w, Steps K ⟨w, 0, 0⟩ ⟨(f i w).2, 0, 0⟩) :
    (Activity.atOnce f).Lawful K 0 (fun s => nomatch s) where
  start := hf
  resume s := nomatch s

theorem wait (state : ι → World → σ) (ready : σ → World → Option ο) (deadlines : σ → List Nat) :
    (Activity.wait state ready deadlines).Lawful K 0 (fun _ => 0) := by
  have hlook : ∀ s w, Leads K ⟨w, 0, 0⟩ (fun _ : σ => []) (fun _ => 0)
      (Activity.wait.look ready s w) := by
    intro s w
    unfold Activity.wait.look
    split
    · exact .refl _
    · exact .refl _
  exact ⟨fun i w => hlook (state i w) w, hlook⟩

variable {a : Activity ι ο} {needs : Multiset Right} {rights : a.State → Multiset Right}

theorem after {f : ο → World → ο' × World} (hf : ∀ o w, Steps K ⟨w, 0, 0⟩ ⟨(f o w).2, 0, 0⟩)
    (h : a.Lawful K needs rights) : (a.after f).Lawful K needs rights := by
  have hfollow : ∀ {x : Scene} {out : Status a.State ο × World}, Leads K x a.holdings rights out →
      Leads K x a.holdings rights (Activity.after.follow f a out) := by
    rintro x ⟨s | o | t, w⟩ hout
    · exact hout
    · exact hout.trans (hf o w)
    · exact hout
  exact ⟨fun i w => hfollow (h.start i w), fun s w => hfollow (h.resume s w)⟩

theorem holding {held : η → Holding} {take : World → Except ο η × World}
    {give : η → ο → World → World} {all : Multiset Right}
    (hok : ∀ {w x w'}, take w = (.ok x, w') → Steps K ⟨w, 0, all⟩ ⟨w', {held x}, needs⟩)
    (herror : ∀ {w o w'}, take w = (.error o, w') → Steps K ⟨w, 0, all⟩ ⟨w', 0, 0⟩)
    (hgive : ∀ x o w, Steps K ⟨w, {held x}, 0⟩ ⟨give x o w, 0, 0⟩)
    (h : a.Lawful K needs rights) :
    (a.holding held take give).Lawful K all (fun s => rights s.2) := by
  -- while it is suspended, one thing more is held
  have hkeep : ∀ {y : Scene} {out : Status a.State ο × World} (x : η),
      Leads K y a.holdings rights out →
      Leads K (y.beside {held x} 0) (a.holding held take give).holdings (fun s => rights s.2)
        (Activity.holding.keep held give a x out) := by
    rintro y ⟨s | o | t, w⟩ x hout <;> have hframe := Steps.frame hout {held x} 0
    · rw [Scene.beside_mk w, add_zero] at hframe
      exact hframe
    · rw [Scene.beside_mk w, zero_add, zero_add] at hframe
      exact hframe.trans (hgive x o w)
    · rw [Scene.beside_mk w, zero_add, zero_add] at hframe
      exact hframe.trans (.single (.release w (held x) 0 0))
  constructor
  · -- nothing starts before it is clear whether the thing can be had
    intro i w
    rcases heq : take w with ⟨o | x, w'⟩
    · rw [Activity.holding_start_error heq]
      exact herror heq
    · rw [Activity.holding_start_ok heq]
      have hstart := hkeep x (h.start i w')
      rw [Scene.beside_mk, zero_add, add_zero] at hstart
      exact .after_steps (hok heq) hstart
  · rintro ⟨x, s⟩ w
    have hresume := hkeep x (h.resume s w)
    rw [Scene.beside_mk, add_zero] at hresume
    exact hresume

theorem within {a : Activity Token ο} {rights : a.State → Multiset Right} (call : CallId)
    (length : Duration) (h : a.Lawful K needs rights) :
    (a.within call length).Lawful K needs (fun s => rights s.inner) := by
  have hcheck : ∀ {x : Scene} {out : Status a.State ο × World} (token : Token) (deadline : Nat),
      Leads K x a.holdings rights out →
      Leads K x (a.within call length).holdings (fun s => rights s.inner)
        (Activity.within.check a token deadline out) := by
    rintro x ⟨s | o | t, w⟩ token deadline hout
    · unfold Activity.within.check
      dsimp only
      split
      · -- the deadline has come, so all is given back and the rights lapse
        exact hout.trans ((Steps.drop w (a.holdings s) (rights s)).trans
          (.plain (.cancel _ token) 0 0))
      · exact hout
    · exact hout
    · exact hout
  constructor
  · intro t w
    exact .after_steps (.plain (.mint w call t) 0 needs)
      (hcheck _ _ (h.start _ (w.mint call t).2))
  · exact fun s w => hcheck s.token s.deadline (h.resume s.inner w)

end Lawful

end Activity

end CallPolicy
