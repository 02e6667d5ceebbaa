/-
What calls do to the world, one thing at a time.

A `Scene` is a world with everything that is held in it and every right that its
calls still have. An `Effect` is one thing that some call does: it asks a gate,
gives something back, begins or ends an invocation, or does something that no
gate takes notice of (`World.Plain`). Asking a gate and invoking an operation use
a right up, and an invocation brings new rights for the calls that it makes. Rights
that are left over lapse.

* **`Steps.frame`** — effects do not depend on what else is held and allowed;
* **`Steps.releaseAll`** — dropping an activity is giving back one thing after
  another.
-/
import CallPolicy.Proofs.Rights
import CallPolicy.Proofs.Keeps
import Mathlib.Logic.Relation

namespace CallPolicy

open Relation Operation

/-- A world, what is held in it, and what its calls may still do. -/
structure Scene where
  world : World
  held : Multiset Holding
  rights : Multiset Right

/-- Is the event about no gate? -/
def Event.isPlain : Event → Bool
  | .retrying .. => true
  | .timedOut _ => true
  | .attemptTimedOut .. => true
  | .hedgeLaunched _ => true
  | .hedgeWon => true
  | .fellBack _ => true
  | _ => false

/-- Is the record about no gate and no beginning or end of an invocation? -/
def Record.isPlain : Record → Bool
  | .event _ e => e.isPlain
  | .asked .. => true
  | .probed .. => true
  | .settled .. => true
  | _ => false

/-- What happens to a world without any gate or invocation taking part. -/
inductive World.Plain : World → World → Prop
  | note (w : World) (r : Record) (h : r.isPlain = true) : Plain w (w.note r)
  | emit (w : World) (site : Site) (e : Event) (h : e.isPlain = true) : Plain w (w.emit site e)
  | cancel (w : World) (t : Token) : Plain w (w.cancel t)
  | mint (w : World) (call : CallId) (t : Token) : Plain w (w.mint call t).2
  | draw (w : World) : Plain w w.draw.2

/-- A gate of one of the policies `K` is asked on behalf of a call, and something is
gained by that, or nothing. -/
inductive Asked (K : List Policy) (site : Site) :
    LayerKind → World → World → Multiset Holding → Prop
  /-- The breaker issues a permit. -/
  | grant {p : Policy} (hp : p ∈ K) (hsite : site.origin = p.origin) {s : BreakerSettings}
      (hl : .breaker s ∈ p.layers) {w w' : World} {permit : Permit}
      (h : acquirePermit site s w = (.ok permit, w')) :
      Asked K site .breaker w w' {.permit site s permit}
  /-- The breaker refuses a call. -/
  | refuse {p : Policy} (hp : p ∈ K) (hsite : site.origin = p.origin) {s : BreakerSettings}
      (hl : .breaker s ∈ p.layers) {w w' : World} {r : Result}
      (h : acquirePermit site s w = (.error r, w')) : Asked K site .breaker w w' 0
  /-- The bulkhead gives a slot. -/
  | occupy {p : Policy} (hp : p ∈ K) (hsite : site.origin = p.origin) {capacity : Nat}
      (hl : .bulkhead capacity ∈ p.layers) {w w' : World}
      (h : takeSlot site capacity w = (.ok (), w')) : Asked K site .bulkhead w w' {.slot site}
  /-- The bulkhead is full. -/
  | crowd {p : Policy} (hp : p ∈ K) (hsite : site.origin = p.origin) {capacity : Nat}
      (hl : .bulkhead capacity ∈ p.layers) {w w' : World} {r : Result}
      (h : takeSlot site capacity w = (.error r, w')) : Asked K site .bulkhead w w' 0
  /-- The rate limit gives a token. -/
  | spend {p : Policy} (hp : p ∈ K) (hsite : site.origin = p.origin) {l : RateLimit}
      (hl : .rateLimit l ∈ p.layers) {w w' : World} (h : takeToken site l w = (true, w')) :
      Asked K site .rateLimit w (w'.note (.gate site .tokenTaken)) 0
  /-- The rate limit is exceeded. -/
  | limit {p : Policy} (hp : p ∈ K) (hsite : site.origin = p.origin) {l : RateLimit}
      (hl : .rateLimit l ∈ p.layers) {w w' : World} (h : takeToken site l w = (false, w')) :
      Asked K site .rateLimit w (w'.emit site .rateLimited) 0

/-- One thing that is done by a call through one of the policies `K`. -/
inductive Effect (K : List Policy) : Scene → Scene → Prop
  /-- Rights are given up. -/
  | lapse (w : World) (H : Multiset Holding) {R R' : Multiset Right} (h : R' ≤ R) :
      Effect K ⟨w, H, R⟩ ⟨w, H, R'⟩
  /-- Something happens that is nothing to the gates. -/
  | plain {w w' : World} (h : w.Plain w') (H : Multiset Holding) (R : Multiset Right) :
      Effect K ⟨w, H, R⟩ ⟨w', H, R⟩
  /-- A gate is asked. -/
  | ask {site : Site} {gate : LayerKind} {w w' : World} {gain : Multiset Holding}
      (h : Asked K site gate w w' gain) (H : Multiset Holding) (R : Multiset Right) :
      Effect K ⟨w, H, .ask site gate ::ₘ R⟩ ⟨w', gain + H, R⟩
  /-- A permit comes back with an outcome. -/
  | settle (w : World) (site : Site) (s : BreakerSettings) (permit : Permit) (o : Outcome)
      (H : Multiset Holding) (R : Multiset Right) :
      Effect K ⟨w, .permit site s permit ::ₘ H, R⟩ ⟨w.settlePermit site s permit o, H, R⟩
  /-- An invocation begins, which will take some actions. -/
  | invoke (w : World) (call : CallId) (token : Token) (actions : List Action)
      (H : Multiset Holding) (R : Multiset Right) :
      Effect K ⟨w, H, .invoke call ::ₘ R⟩
        ⟨w.invoke call (w.invoked call).length token,
          .invocation call (w.invoked call).length token ::ₘ H,
          actionsRights call (w.invoked call).length 0 actions + R⟩
  /-- An invocation ends. -/
  | finish (w : World) (call : CallId) (k : Nat) (token : Token) (e : Ending)
      (H : Multiset Holding) (R : Multiset Right) :
      Effect K ⟨w, .invocation call k token ::ₘ H, R⟩ ⟨w.note (.finished call k e), H, R⟩
  /-- Something is given back unasked. -/
  | release (w : World) (h : Holding) (H : Multiset Holding) (R : Multiset Right) :
      Effect K ⟨w, h ::ₘ H, R⟩ ⟨w.release h, H, R⟩

/-- Any number of effects. -/
def Steps (K : List Policy) : Scene → Scene → Prop := ReflTransGen (Effect K)

/-- A scene with more things held and more rights. -/
def Scene.beside (x : Scene) (H : Multiset Holding) (R : Multiset Right) : Scene :=
  ⟨x.world, x.held + H, x.rights + R⟩

/-- A scene with more rights. -/
def Scene.allow (x : Scene) (R : Multiset Right) : Scene := ⟨x.world, x.held, x.rights + R⟩

variable {K K' : List Policy} {x y z : Scene} {w w' : World}

theorem Scene.allow_mk (w : World) (H : Multiset Holding) (R R' : Multiset Right) :
    (Scene.mk w H R).allow R' = ⟨w, H, R + R'⟩ := rfl

theorem Scene.beside_mk (w : World) (H H' : Multiset Holding) (R R' : Multiset Right) :
    (Scene.mk w H R).beside H' R' = ⟨w, H + H', R + R'⟩ := rfl

theorem Effect.frame (h : Effect K x y) (H : Multiset Holding) (R : Multiset Right) :
    Effect K (x.beside H R) (y.beside H R) := by
  -- what an effect takes and gives stands in front of what is held and allowed
  cases h with
  | lapse w H' h => exact .lapse w _ (add_le_add_left h R)
  | plain h H' R' => exact .plain h _ _
  | ask h H' R' =>
    simp only [Scene.beside, Multiset.cons_add, add_assoc]
    exact .ask h _ _
  | settle w site s permit o H' R' =>
    simp only [Scene.beside, Multiset.cons_add]
    exact .settle w site s permit o _ _
  | invoke w call token actions H' R' =>
    simp only [Scene.beside, Multiset.cons_add, add_assoc]
    exact .invoke w call token actions _ _
  | finish w call k token e H' R' =>
    simp only [Scene.beside, Multiset.cons_add]
    exact .finish w call k token e _ _
  | release w h H' R' =>
    simp only [Scene.beside, Multiset.cons_add]
    exact .release w h _ _

/-- More policies can be asked for more. -/
theorem Asked.mono {site : Site} {gate : LayerKind} {gain : Multiset Holding}
    (h : Asked K site gate w w' gain) (hK : K ⊆ K') : Asked K' site gate w w' gain := by
  cases h with
  | grant hp hsite hl h => exact .grant (hK hp) hsite hl h
  | refuse hp hsite hl h => exact .refuse (hK hp) hsite hl h
  | occupy hp hsite hl h => exact .occupy (hK hp) hsite hl h
  | crowd hp hsite hl h => exact .crowd (hK hp) hsite hl h
  | spend hp hsite hl h => exact .spend (hK hp) hsite hl h
  | limit hp hsite hl h => exact .limit (hK hp) hsite hl h

namespace World.Plain

theorem now (h : w.Plain w') : w'.now = w.now := by
  cases h <;> simp

theorem gates (h : w.Plain w') : w'.gates = w.gates := by
  cases h <;> simp

theorem invoked (h : w.Plain w') : w'.invoked = w.invoked := by
  cases h <;> simp

theorem trace (h : w.Plain w') :
    ∃ es, w'.trace = es ++ w.trace ∧ ∀ e ∈ es, e.record.isPlain = true := by
  cases h with
  | note r h => exact ⟨[⟨w.now, r⟩], rfl, by simpa using h⟩
  | emit site e h =>
    refine ⟨[⟨w.now, .event site e⟩], w.emit_trace site e, ?_⟩
    intro e' he'
    rw [List.mem_singleton] at he'
    subst he'
    exact h
  | cancel t => exact ⟨[], rfl, nofun⟩
  | mint call t => exact ⟨[], rfl, nofun⟩
  | draw => exact ⟨[], rfl, nofun⟩

/-- What no gate takes notice of leaves all of them alone. -/
theorem keeps {α : Type} {view : (Nat → Gates) → α} {about : Entry → Bool} (h : w.Plain w')
    (habout : ∀ e : Entry, e.record.isPlain = true → about e = false) :
    w.Keeps view about w' := by
  obtain ⟨es, htr, hes⟩ := h.trace
  exact ⟨congrArg view h.gates, h.now.ge, es, htr, fun e he => habout e (hes e he)⟩

end World.Plain

theorem Asked.now {site : Site} {gate : LayerKind} {gain : Multiset Holding}
    (h : Asked K site gate w w' gain) : w'.now = w.now := by
  cases h with
  | grant _ _ _ h => exact (congrArg (·.2.now) h).symm.trans (acquirePermit_now _ _ _)
  | refuse _ _ _ h => exact (congrArg (·.2.now) h).symm.trans (acquirePermit_now _ _ _)
  | occupy _ _ _ h => exact (congrArg (·.2.now) h).symm.trans (takeSlot_now _ _ _)
  | crowd _ _ _ h => exact (congrArg (·.2.now) h).symm.trans (takeSlot_now _ _ _)
  | spend _ _ _ h => exact (congrArg (·.2.now) h).symm.trans (takeToken_now _ _ _)
  | limit _ _ _ h =>
    rw [World.emit_now]
    exact (congrArg (·.2.now) h).symm.trans (takeToken_now _ _ _)

theorem Asked.invoked {site : Site} {gate : LayerKind} {gain : Multiset Holding}
    (h : Asked K site gate w w' gain) : w'.invoked = w.invoked := by
  cases h with
  | grant _ _ _ h => exact (congrArg (·.2.invoked) h).symm.trans (acquirePermit_invoked _ _ _)
  | refuse _ _ _ h => exact (congrArg (·.2.invoked) h).symm.trans (acquirePermit_invoked _ _ _)
  | occupy _ _ _ h => exact (congrArg (·.2.invoked) h).symm.trans (takeSlot_invoked _ _ _)
  | crowd _ _ _ h => exact (congrArg (·.2.invoked) h).symm.trans (takeSlot_invoked _ _ _)
  | spend _ _ _ h => exact (congrArg (·.2.invoked) h).symm.trans (takeToken_invoked _ _ _)
  | limit _ _ _ h =>
    rw [World.emit_invoked]
    exact (congrArg (·.2.invoked) h).symm.trans (takeToken_invoked _ _ _)

/-- No effect takes time. -/
theorem Effect.now (h : Effect K x y) : y.world.now = x.world.now := by
  cases h with
  | lapse w H h => rfl
  | plain h H R => exact h.now
  | ask h H R => exact h.now
  | settle w site s permit o H R => exact w.settlePermit_now site s permit o
  | invoke w call token actions H R => rfl
  | finish w call k token e H R => rfl
  | release w h H R => exact w.release_now h

namespace Steps

theorem refl (x : Scene) : Steps K x x := ReflTransGen.refl

theorem trans (h : Steps K x y) (h' : Steps K y z) : Steps K x z := ReflTransGen.trans h h'

theorem single (h : Effect K x y) : Steps K x y := ReflTransGen.single h

/-- Effects do not depend on what else is held and allowed. -/
theorem frame (h : Steps K x y) (H : Multiset Holding) (R : Multiset Right) :
    Steps K (x.beside H R) (y.beside H R) := by
  induction h with
  | refl => exact refl _
  | tail _ e ih => exact ih.tail (e.frame H R)

/-- Other rights stay as they are. -/
theorem frame_rights (h : Steps K x y) (R : Multiset Right) : Steps K (x.allow R) (y.allow R) := by
  have hframe := h.frame 0 R
  rw [Scene.beside, Scene.beside, add_zero, add_zero] at hframe
  exact hframe

/-- Effects are effects when there are more policies. -/
theorem mono (h : Steps K x y) (hK : K ⊆ K') : Steps K' x y := by
  refine ReflTransGen.mono (fun x y e => ?_) _ _ h
  cases e with
  | lapse w H h => exact .lapse w H h
  | plain h H R => exact .plain h H R
  | ask h H R => exact .ask (h.mono hK) H R
  | settle w site s permit o H R => exact .settle w site s permit o H R
  | invoke w call token actions H R => exact .invoke w call token actions H R
  | finish w call k token e H R => exact .finish w call k token e H R
  | release w h H R => exact .release w h H R

/-- No number of effects takes time. -/
theorem now (h : Steps K x y) : y.world.now = x.world.now := by
  induction h with
  | refl => rfl
  | tail _ e ih => exact e.now.trans ih

/-- Something happens that is nothing to the gates. -/
theorem plain (h : w.Plain w') (H : Multiset Holding) (R : Multiset Right) :
    Steps K ⟨w, H, R⟩ ⟨w', H, R⟩ := single (.plain h H R)

/-- All rights are given up. -/
theorem lapse (w : World) (H : Multiset Holding) (R : Multiset Right) :
    Steps K ⟨w, H, R⟩ ⟨w, H, 0⟩ := single (.lapse w H (Multiset.zero_le R))

/-- Several things are given back, one after the other. -/
theorem releaseAll (w : World) (hs : List Holding) (H : Multiset Holding) (R : Multiset Right) :
    Steps K ⟨w, ↑hs + H, R⟩ ⟨w.releaseAll hs, H, R⟩ := by
  induction hs generalizing w with
  | nil =>
    rw [Multiset.coe_nil, zero_add]
    exact refl _
  | cons h hs ih =>
    rw [← Multiset.cons_coe, Multiset.cons_add]
    exact (single (.release w h _ R)).trans (ih (w.release h))

/-- An activity is dropped. -/
theorem drop (w : World) (hs : List Holding) (R : Multiset Right) :
    Steps K ⟨w, hs, R⟩ ⟨w.releaseAll hs, 0, 0⟩ := by
  have hdrop := releaseAll (K := K) w hs 0 R
  rw [add_zero] at hdrop
  exact hdrop.trans (lapse _ _ _)

end Steps

end CallPolicy
