/-
Attempts that end at a known instant, and what is told of them.

An activity lives amid things of some kind `A`: between two looks at it, something of that
kind is done (`Activity.Amid`). It `Ends` at an instant with an output if whatever happens
around it is of that kind, however often it is looked at; what it does itself is of a kind
`B`. Two activities do not affect each other if what each of them does is among the things
that the other one lives amid.

What matters of the trace for a hedged operation are its `milestones`: when an invocation
begins, when a second attempt is launched, and when it wins.

* **`Ends.now_le`** — no instant passes at which an activity would have ended;
* **`Docile.lives_of_amid`** — such lives are lives among others, in which time is kept;
* **`Operation.Single.script`** — a scripted operation begins one invocation, and tells of
  nothing else that matters;
* **`Lawful.liveIn_of_lives`** — what is live besides what was live before is held.
-/
import CallPolicy.Proofs.InvocationBound
import CallPolicy.Proofs.Rejection
import Mathlib.Order.WithBot

namespace CallPolicy

open Relation Activity

variable {ι ο κ : Type} {w w' w'' w₀ : World} {t u : Token} {id : CallId} {m m' : CallId → Nat}
  {site : Site} {kinds : List LayerKind} {timely : Prop} {K : List Policy}

/-! ### Lives amid things of some kind -/

namespace Activity

/-- One step in the life of an activity amid things of some kind: while it is suspended, such
a thing is done and no instant passes that it waits for, or it is looked at. -/
inductive Step (a : Activity ι ο) (A : World → World → Prop) :
    Status a.State ο × World → Status a.State ο × World → Prop
  | wait {s : a.State} {w w' : World} (h : A w w')
      (hdue : ∀ d ∈ a.deadlines s, w.now ≤ d → w'.now ≤ d) :
      Step a A (.pending s, w) (.pending s, w')
  | look {s : a.State} {w : World} : Step a A (.pending s, w) (a.resume s w)

/-- Any number of steps. -/
def Amid (a : Activity ι ο) (A : World → World → Prop) :
    Status a.State ο × World → Status a.State ο × World → Prop := ReflTransGen (a.Step A)

/-- Where an activity has led that ends at the instant `e` with the output `o`. -/
def Punctual (e : WithTop Nat) (o : ο) : Status κ ο × World → Prop
  | (.pending _, w) => WithTop.some w.now < e
  | (.done o', w) => WithTop.some w.now = e ∧ o' = o
  | (.panicked _, _) => False

/-- Started in the world `w₀`, the activity ends at the instant `e` with the output `o`, or
never, whatever is done around it that is of the kind `A`. What it does is of the kind `B`. -/
structure Ends (a : Activity ι ο) (A B : World → World → Prop) (i : ι) (w₀ : World)
    (e : WithTop Nat) (o : ο) : Prop where
  start : B w₀ (a.start i w₀).2 ∧ Punctual e o (a.start i w₀)
  look : ∀ {s w}, a.Amid A (a.start i w₀) (.pending s, w) →
    B w (a.resume s w).2 ∧ Punctual e o (a.resume s w)

section

variable {a : Activity ι ο} {A B : World → World → Prop} {i : ι} {e : WithTop Nat} {o : ο}
  {s : a.State} {x out : Status a.State ο × World}

theorem Amid.refl (x : Status a.State ο × World) : a.Amid A x x := ReflTransGen.refl

theorem Amid.look (h : a.Amid A x (.pending s, w)) : a.Amid A x (a.resume s w) :=
  ReflTransGen.tail h .look

theorem Amid.wait (h : a.Amid A x (.pending s, w)) (hA : A w w')
    (hdue : ∀ d ∈ a.deadlines s, w.now ≤ d → w'.now ≤ d) : a.Amid A x (.pending s, w') :=
  ReflTransGen.tail h (.wait hA hdue)

/-- Something is done that takes no time. -/
theorem Amid.done (h : a.Amid A x (.pending s, w)) (hA : A w w') (hnow : w'.now = w.now) :
    a.Amid A x (.pending s, w') := h.wait hA fun _ _ hd => hnow.trans_le hd

/-- No instant passes at which the activity would have ended. -/
theorem Ends.now_le (h : a.Ends A B i w₀ e o) (hx : a.Amid A (a.start i w₀) (.pending s, w))
    (hnow : (a.resume s w).2.now = w.now) : WithTop.some w.now ≤ e := by
  have hlook := (h.look hx).2
  rw [← hnow]
  generalize a.resume s w = out at hlook
  rcases out with ⟨s' | o' | text, w'⟩
  · exact le_of_lt hlook
  · exact le_of_eq hlook.1
  · exact absurd hlook id

/-- What happens in such a life is of a kind that allows for all that is done. -/
theorem Ends.amid_rel {R : World → World → Prop} (h : a.Ends A B i w₀ e o) (hrefl : ∀ w, R w w)
    (htrans : ∀ {w w' w''}, R w w' → R w' w'' → R w w'') (hA : ∀ {w w'}, A w w' → R w w')
    (hB : ∀ {w w'}, B w w' → R w w') (hx : a.Amid A (a.start i w₀) out) :
    R (a.start i w₀).2 out.2 := by
  induction hx with
  | refl => exact hrefl _
  | tail hx hstep ih =>
    cases hstep with
    | wait hw _ => exact htrans ih (hA hw)
    | look => exact htrans ih (hB (h.look hx).1)

section

variable {s₀ : a.State} {w₁ : World} {n : Nat}

/-- **An activity that waits for one instant** ends then, whatever is done around it. -/
theorem Ends.of_waiting (hstart : a.start i w₀ = (.pending s₀, w₁)) (hw₁ : w₁.now < n)
    (hdue : n ∈ a.deadlines s₀) (hearly : ∀ w, w.now < n → a.resume s₀ w = (.pending s₀, w))
    (hover : ∀ w, w.now = n → ∃ w', a.resume s₀ w = (.done o, w') ∧ w'.now = n ∧ B w w')
    (hB : ∀ w, B w w) (hB₁ : B w₀ w₁) : a.Ends A B i w₀ (.some n) o := by
  -- until it ends, the activity stays in its first state, and the instant does not pass
  have hall : ∀ {out}, a.Amid A (a.start i w₀) out →
      Lands (fun s w => s = s₀ ∧ w.now ≤ n) (fun _ => True) out := by
    intro out h
    induction h with
    | refl =>
      rw [hstart]
      exact ⟨rfl, hw₁.le⟩
    | tail _ hstep ih =>
      cases hstep with
      | wait _ hkept =>
        obtain ⟨rfl, hnow⟩ := ih
        exact ⟨rfl, hkept n hdue hnow⟩
      | look =>
        obtain ⟨rfl, hnow⟩ := ih
        rcases Nat.lt_or_eq_of_le hnow with hlt | heq
        · rw [hearly _ hlt]
          exact ⟨rfl, hnow⟩
        · obtain ⟨w', hdone, -⟩ := hover _ heq
          rw [hdone]
          trivial
  refine ⟨?_, fun {s w} h => ?_⟩
  · rw [hstart]
    exact ⟨hB₁, WithTop.coe_lt_coe.mpr hw₁⟩
  · obtain ⟨rfl, hnow⟩ : s = s₀ ∧ w.now ≤ n := hall h
    rcases Nat.lt_or_eq_of_le hnow with hlt | heq
    · rw [hearly _ hlt]
      exact ⟨hB w, WithTop.coe_lt_coe.mpr hlt⟩
    · obtain ⟨w', hdone, hnow', hw'⟩ := hover _ heq
      rw [hdone]
      exact ⟨hw', WithTop.coe_inj.mpr hnow', rfl⟩

end

end

/-- An operation that knows the number of its invocation ends when that invocation does. -/
theorem Ends.numbered {A B : World → World → Prop} {f : Nat → Operation} {k : Nat}
    {e : WithTop Nat} {r : Result} (hk : (w₀.invoked id).length = k)
    (h : (f k).Ends A B t w₀ e r) : (Activity.numbered id f).Ends A B t w₀ e r := by
  subst hk
  let k := (w₀.invoked id).length
  have hlift : ∀ {out : Status (f k).State Result × World}, Punctual e r out →
      Punctual e r (Status.lift (Sigma.mk (β := fun k => (f k).State) k) out) := by
    rintro ⟨s | o | x, w⟩ h <;> exact h
  -- the number is read once, at the start, so that one life goes along with the other
  have hamid : ∀ {out}, (Activity.numbered id f).Amid A ((Activity.numbered id f).start t w₀) out →
      ∃ out', (f k).Amid A ((f k).start t w₀) out' ∧
        out = Status.lift (Sigma.mk (β := fun k => (f k).State) k) out' := by
    intro out h
    induction h with
    | refl => exact ⟨_, .refl _, rfl⟩
    | @tail out₁ out₂ _ hstep ih =>
      obtain ⟨out', hout', heq⟩ := ih
      rcases out' with ⟨s' | o | x, w'⟩
      · cases hstep with
        | wait hw hkept =>
          cases heq
          exact ⟨_, hout'.wait hw hkept, rfl⟩
        | look =>
          cases heq
          exact ⟨_, hout'.look, rfl⟩
      · have heq : out₁ = (.done o, w') := heq
        rw [heq] at hstep
        cases hstep
      · have heq : out₁ = (.panicked x, w') := heq
        rw [heq] at hstep
        cases hstep
  have hsnd : ∀ (out : Status (f k).State Result × World),
      (Status.lift (Sigma.mk (β := fun k => (f k).State) k) out).2 = out.2 := Status.lift_snd _
  refine ⟨⟨(hsnd _).symm ▸ h.start.1, hlift h.start.2⟩, fun {s w} hx => ?_⟩
  -- so every look at the one is a look at the other
  obtain ⟨out', hout', heq⟩ := hamid hx
  rcases out' with ⟨s' | o | x, w'⟩
  · cases heq
    have hlook := h.look hout'
    exact ⟨(hsnd ((f k).resume s' w)).symm ▸ hlook.1, hlift hlook.2⟩
  · cases heq
  · cases heq

/-- A life amid what others do is the life of a call, and no instant passes that it waits
for. -/
theorem Docile.lives_of_amid {a : Activity Token ο} {A : World → World → Prop}
    {keeps : (CallId → Nat) → Token → a.State → World → Prop} {out : Status a.State ο × World}
    (hd : a.Attends id kinds keeps) (hw₀ : w₀.Ready w₀.minted t)
    (hA : ∀ {w w'}, A w w' → w.Meanwhile id t w') (h : a.Amid A (a.start t w₀) out) :
    a.Lives id True t w₀ out := by
  induction h with
  | refl => exact .start
  | tail _ hstep ih =>
    cases hstep with
    | wait h hdue =>
      have hearly := hd.due_of_lives hw₀ ih
      exact ih.wait (hA h) fun _ d hmem => hdue d hmem (hearly d hmem)
    | look => exact ih.resume

end Activity

/-! ### Milestones -/

/-- What matters of a hedged operation. -/
inductive Milestone
  /-- An invocation begins. -/
  | begun
  /-- A second attempt is launched after a delay. -/
  | launched (delay : Duration)
  /-- The second attempt wins. -/
  | won
deriving DecidableEq

/-- The milestone that is told of, and its instant. -/
def Entry.milestone? (site : Site) (e : Entry) : Option (Nat × Milestone) :=
  match e.record with
  | .invoked call _ _ => if call = site.call then some (e.time, .begun) else none
  | .event σ (.hedgeLaunched delay) => if σ = site then some (e.time, .launched delay) else none
  | .event σ .hedgeWon => if σ = site then some (e.time, .won) else none
  | _ => none

/-- The milestones of a hedged operation, the last first. -/
def milestones (site : Site) (tr : List Entry) : List (Nat × Milestone) :=
  tr.filterMap (Entry.milestone? site)

/-- Does the entry tell of a milestone? -/
def Entry.marks (site : Site) (e : Entry) : Bool := (e.milestone? site).isSome

section

variable {e : Entry} {tr : List Entry} {p : Nat × Milestone}

theorem milestones_cons_some (h : e.milestone? site = some p) :
    milestones site (e :: tr) = p :: milestones site tr := List.filterMap_cons_some h

/-- A milestone is told of the call by nobody or by the hedge layer. -/
theorem Entry.eq_of_marks (h : e.marks site = true) : e.record.call = site.call ∧
    (e.record.teller? = some .hedge ∨ (e.record.begun? site.call).isSome = true) := by
  obtain ⟨now, r⟩ := e
  unfold Entry.marks Entry.milestone? at h
  dsimp only at h ⊢
  split at h
  next call k b =>
    split at h
    next hcall => exact ⟨hcall, .inr (by rw [Record.begun?, if_pos hcall]; rfl)⟩
    next => cases h
  next σ delay =>
    split at h
    next hsite => exact ⟨congrArg Site.call hsite, .inl rfl⟩
    next => cases h
  next σ =>
    split at h
    next hsite => exact ⟨congrArg Site.call hsite, .inl rfl⟩
    next => cases h
  next => cases h

theorem Entry.marks_of_ne (h : e.record.call ≠ site.call) : e.marks site = false :=
  Bool.eq_false_iff.mpr fun hmarks => h (Entry.eq_of_marks hmarks).1

theorem Entry.marks_of_isReturn (h : e.record.isReturn = true) : e.marks site = false := by
  obtain ⟨now, r⟩ := e
  cases r with
  | event σ e => cases e <;> first | rfl | cases h
  | gate σ step => rfl
  | abandoned call k b => rfl
  | _ => cases h

end

namespace World

/-- No time passes, and no milestone is told of. -/
structure Uneventful (site : Site) (w w' : World) : Prop where
  now : w'.now = w.now
  told : milestones site w'.trace = milestones site w.trace

theorem Uneventful.trans (h : w.Uneventful site w') (h' : w'.Uneventful site w'') :
    w.Uneventful site w'' := ⟨h'.now.trans h.now, h'.told.trans h.told⟩

theorem Keeps.milestones_eq (h : w.Keeps (fun _ => ()) (Entry.marks site) w') :
    milestones site w'.trace = milestones site w.trace := by
  obtain ⟨es, htr, hes⟩ := h.trace
  have hnone : milestones site es = [] := List.filterMap_eq_nil_iff.mpr fun e he =>
    Option.isNone_iff_eq_none.mp (Option.isSome_eq_false_iff.mp (hes e he))
  rw [htr, milestones, List.filterMap_append]
  exact congrArg (· ++ _) hnone

theorem Meanwhile.milestones_eq (h : w.Meanwhile site.call t w') :
    milestones site w'.trace = milestones site w.trace := by
  obtain ⟨es, htr, hes⟩ := h.trace
  have hkeeps : w.Keeps (fun _ => ()) (Entry.marks site) w' :=
    ⟨rfl, h.now, es, htr, fun e he => Entry.marks_of_ne fun hcall => hes e he (hcall ▸ .self)⟩
  exact hkeeps.milestones_eq

/-- An invocation tells of no milestone while it is under way. -/
theorem Confined.uneventful {k : Nat} (h : w.Confined (.ofBody site.call k t) m w') :
    w.Uneventful site w' := by
  obtain ⟨es, htr, hes⟩ := h.trace
  refine ⟨h.now, Keeps.milestones_eq ⟨rfl, Nat.le_of_eq h.now.symm, es, htr, fun e he => ?_⟩⟩
  refine Bool.eq_false_iff.mpr fun hmarks => ?_
  obtain ⟨hcall, htold⟩ := Entry.eq_of_marks hmarks
  obtain ⟨b, hr⟩ := (hes e he).own hcall
  rw [hr] at htold
  rcases htold with htold | htold <;> cases htold

theorem releaseAll_now (w : World) (hs : List Holding) : (w.releaseAll hs).now = w.now := by
  induction hs generalizing w with
  | nil => rfl
  | cons h hs ih => exact (ih (w.release h)).trans (w.release_now h)

theorem uneventful_releaseAll (w : World) (hs : List Holding) :
    w.Uneventful site (w.releaseAll hs) :=
  ⟨w.releaseAll_now hs, (Keeps.releaseAll (fun _ => Entry.marks_of_isReturn) w hs).milestones_eq⟩

end World

/-! ### Operations that begin one invocation -/

/-- The operation begins an invocation when it starts, and no other milestone is told of. -/
structure Operation.Single (op : Operation) (site : Site)
    (keeps : (CallId → Nat) → Token → op.State → World → Prop) : Prop where
  attends : op.Attends site.call [] keeps
  start : ∀ {t} {w : World}, w.Ready w.minted t → (op.start t w).2.now = w.now ∧
    milestones site (op.start t w).2.trace = (w.now, .begun) :: milestones site w.trace
  resume : ∀ {m t s} {w : World}, w.Ready m t → keeps m t s w →
    w.Uneventful site (op.resume s w).2

namespace Operation.Single

/-- The end of an invocation is no milestone. -/
theorem uneventful_conclude {k : Nat} {body : Activity Visit Ending}
    (out : Status body.State Ending × World) :
    out.2.Uneventful site (invocation.conclude site.call k body t out).2 := by
  have hkeeps : ∀ (w : World) (r : Record), (Entry.mk w.now r).marks site = false →
      w.Uneventful site (w.note r) := fun w r h => ⟨rfl, (World.Keeps.note w r h).milestones_eq⟩
  rcases out with ⟨s | (r | x) | x, w⟩
  · exact ⟨rfl, rfl⟩
  · exact hkeeps w _ rfl
  · exact hkeeps w _ rfl
  · exact hkeeps w _ rfl

/-- **A scripted operation** begins one invocation. -/
theorem script (script : Script) (site : Site) :
    ∃ keeps, Single (script.operation site.call) site keeps := by
  choose keeps hbody using fun k => scriptBody_docile site.call k k script
  refine ⟨_, .numbered hbody, fun {t w} hw => ?_, ?_⟩
  · let k := (w.invoked site.call).length
    have hinvoked : w.Confined (.ofCall site.call [] t) w.minted (w.invoke site.call k t) :=
      .invoke w (.refl site.call t) fun _ => Scope.records_ofCall rfl nofun
    have hstart := ((hbody k).start (i := ⟨t, .ok ""⟩) (hinvoked.ready hw).later).confined
    have hbegun : Entry.milestone? site
        ⟨w.now, .invoked site.call k (w.isCancelled t)⟩ = some (w.now, .begun) := if_pos rfl
    have hrest := hstart.uneventful.trans (uneventful_conclude (t := t) (k := k) _)
    have hfollow : ((script.operation site.call).start t w).2 = _ := Status.lift_snd _ _
    rw [hfollow]
    exact ⟨hrest.now, hrest.told.trans (milestones_cons_some hbegun)⟩
  · rintro m _ ⟨k, t, s⟩ w hw ⟨rfl, hs⟩
    have hresume := ((hbody k).resume hw hs).confined
    have hfollow : ((script.operation site.call).resume ⟨k, t, s⟩ w).2 = _ := Status.lift_snd _ _
    rw [hfollow]
    exact hresume.uneventful.trans (uneventful_conclude _)

section

variable {op : Operation} {keeps : (CallId → Nat) → Token → op.State → World → Prop}
  {s : op.State} (h : op.Single site keeps)

include h

theorem start_child (hw : w.Ready m t) (hu : w.Fosters site.call m t u) :
    (op.start u w).2.now = w.now ∧
      milestones site (op.start u w).2.trace = (w.now, .begun) :: milestones site w.trace :=
  h.start ⟨hw.sane, hu.made, fun _ => Nat.le_refl _⟩

theorem resume_child (hs : Raised site.call keeps m t u s w) :
    w.Uneventful site (op.resume s w).2 := by
  obtain ⟨-, m', -, -, hready, hkept⟩ := hs
  exact h.resume hready hkept

end

end Operation.Single

/-! ### What is live -/

theorem Steps.live {x y : Scene} (h : Steps K x y)
    (hx : liveIn id x.world.trace = invocationsAt id x.held) :
    liveIn id y.world.trace = invocationsAt id y.held := by
  induction h with
  | refl => exact hx
  | tail _ e ih => exact e.live ih

/-- Looking at an activity takes no time. -/
theorem Activity.Lawful.resume_now {a : Activity ι ο} {needs : Multiset Right}
    {rights : a.State → Multiset Right} (h : a.Lawful K needs rights) (s : a.State) (w : World) :
    (a.resume s w).2.now = w.now := (h.resume s w).steps.now

/-- **What is live** besides what was live before is held. -/
theorem Activity.Lawful.liveIn_of_lives {a : Operation} {needs : Multiset Right}
    {rights : a.State → Multiset Right} {out : Status a.State Result × World}
    (h : a.Lawful K needs rights) (hl : a.Lives id timely t w₀ out) :
    liveIn id out.2.trace = invocationsAt id (a.heldIn out.1) + liveIn id w₀.trace := by
  -- what was live before is taken for something that somebody else holds
  let H : Multiset Holding := (liveIn id w₀.trace).map (.invocation id · t)
  have hH : invocationsAt id H = liveIn id w₀.trace := by
    rw [invocationsAt, Multiset.filterMap_map]
    have hnumber : Holding.number? id ∘ (Holding.invocation id · t) = some :=
      funext fun _ => if_pos rfl
    rw [hnumber, Multiset.filterMap_some]
  rw [← hH, ← invocationsAt_add]
  induction hl with
  | start =>
    have hsteps := (h.start t w₀).steps.frame H 0
    exact hsteps.live (by rw [Scene.beside_mk, zero_add, hH])
  | wait _ hw _ ih => exact hw.liveIn_eq.trans ih
  | @resume s w _ ih => exact ((h.resume s w).steps.frame H 0).live ih

end CallPolicy
