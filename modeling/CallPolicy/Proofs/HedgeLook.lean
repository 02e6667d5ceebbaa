/-
What comes of one look at a hedged operation.

Two attempts that do not affect each other (`Operation.Independent`) end at the instants
`a` and `b`, or never. The first one is alone until the delay is over, and for good if the
token is cancelled by then; otherwise the two race.

* **`look_early`**, **`launch_cases`** — the first attempt is alone, and may be joined;
* **`look_alone`** — it is alone for good;
* **`look_racing`** — two attempts race, and the first one is looked at before the other.
-/
import CallPolicy.Proofs.Milestones

namespace CallPolicy

open Activity Operation

/-! ### Two attempts -/

section

variable (site : Site) (delay : Duration) (op : Operation) (caller : Token) (w₀ : World)
  (A B : World → World → Prop) (a b : WithTop Nat) (ra rb : Result)

/-- The launch is announced, and the second attempt gets a token. -/
def Operation.announce (w : World) : Token × World :=
  (w.emit site (.hedgeLaunched delay)).mint site.call caller

theorem Operation.announce_now (w : World) : (announce site delay caller w).2.now = w.now :=
  w.emit_now site (.hedgeLaunched delay)

theorem Operation.announce_invoked (w : World) :
    (announce site delay caller w).2.invoked = w.invoked :=
  w.emit_invoked site (.hedgeLaunched delay)

/-- The first attempt, as it starts. -/
def Operation.firstStart : Status op.State Result × World :=
  op.start (w₀.mint site.call caller).1 (w₀.mint site.call caller).2

/-- **Two attempts that do not affect each other.** The first one ends at `a` with `ra`
whatever is done around it that is of the kind `A`, and the second one, launched when the
delay is over, ends at `b` with `rb` whatever is done around it that is of the kind `B`.
What the first one does is of the kind `B`, and what the second one does, as well as the
announcement of it, is of the kind `A`. -/
structure Operation.Independent : Prop where
  first : op.Ends A B (w₀.mint site.call caller).1 (w₀.mint site.call caller).2 a ra
  announced : ∀ {w}, w.now = w₀.wakeTime delay → w.isCancelled caller = false →
    A w (announce site delay caller w).2
  rival : ∀ {s w}, op.Amid A (firstStart site op caller w₀) (.pending s, w) →
    w.now = w₀.wakeTime delay → w.isCancelled caller = false →
    op.Ends B A (announce site delay caller w).1
      (op.resume s (announce site delay caller w).2).2 b rb

/-- Two attempts race, the second one under the token `v`. -/
structure Operation.Racing (s : op.State) (v : Token) (s' : op.State) (w : World) : Prop where
  first : op.Amid A (firstStart site op caller w₀) (.pending s, w)
  rival : ∃ x, op.Ends B A v x b rb ∧ op.Amid B (op.start v x) (.pending s', w)

end

/-! ### One look at a race -/

section

variable {site : Site} {delay : Duration} {op : Operation} {caller u v : Token} {w₀ w w' : World}
  {A B : World → World → Prop} {a b : WithTop Nat} {ra rb : Result} {m : CallId → Nat}
  {keeps : (CallId → Nat) → Token → op.State → World → Prop} {s s' : op.State}
  {out : Status op.State Result × World}

/-- The rival has been looked at: it is suspended, or it has won. -/
theorem judgeRival_cases (hfirst : op.Amid A (firstStart site op caller w₀) (.pending s, w))
    (hrival : ∃ x, op.Ends B A v x b rb ∧ op.Amid B (op.start v x) out)
    (hA : A w out.2) (hnow : out.2.now = w.now) (hpunctual : Punctual b rb out) :
    (∃ s', judgeRival site u s v out = (.pending (.racing u s v s'), out.2) ∧
      WithTop.some w.now < b ∧ Racing site op caller w₀ A B b rb s v s' out.2) ∨
    ∃ w', judgeRival site u s v out = (.done rb, w') ∧ WithTop.some w.now = b ∧
      w'.now = w.now ∧
      milestones site w'.trace = (w.now, .won) :: milestones site out.2.trace := by
  rcases out with ⟨s' | r | x, w'⟩
  · obtain ⟨x, hends, hamid⟩ := hrival
    exact .inl ⟨s', rfl, hnow ▸ hpunctual, hfirst.done hA hnow, x, hends, hamid⟩
  · obtain ⟨hb, rfl⟩ := hpunctual
    let w₁ := (w'.cancel u).emit site .hedgeWon
    have hgiven : w₁.Uneventful site (w₁.releaseAll (op.holdings s)) := w₁.uneventful_releaseAll _
    have hnow₁ : w₁.now = w.now := ((w'.cancel u).emit_now site .hedgeWon).trans hnow
    refine .inr ⟨_, rfl, hnow ▸ hb, hgiven.now.trans hnow₁, hgiven.told.trans ?_⟩
    have hwon : Entry.milestone? site ⟨w'.now, .event site .hedgeWon⟩ = some (w'.now, .won) :=
      if_pos rfl
    rw [World.emit_trace, ← hnow]
    exact milestones_cons_some hwon
  · exact absurd hpunctual id

variable (hI : Independent site delay op caller w₀ A B a b ra rb) (hop : op.Single site keeps)

include hI hop

/-- The first attempt, which is alone for good, goes on or ends. -/
theorem look_alone (hfirst : op.Amid A (firstStart site op caller w₀) (.pending s, w))
    (hs : Raised site.call keeps m caller u s w) :
    (∃ s' w', judgeAlone (op.resume s w) = (.pending (.alone s'), w') ∧ w.Uneventful site w' ∧
      WithTop.some w.now < a ∧ op.Amid A (firstStart site op caller w₀) (.pending s', w')) ∨
    ∃ w', judgeAlone (op.resume s w) = (.done ra, w') ∧ w.Uneventful site w' ∧
      WithTop.some w.now = a := by
  have hquiet := hop.resume_child hs
  have hpunctual := (hI.first.look hfirst).2
  have hamid := hfirst.look
  generalize op.resume s w = out at hquiet hpunctual hamid
  rcases out with ⟨s' | r | x, w'⟩
  · exact .inl ⟨s', w', rfl, hquiet, hquiet.now ▸ hpunctual, hamid⟩
  · obtain ⟨ha, rfl⟩ := hpunctual
    exact .inr ⟨w', rfl, hquiet, hquiet.now ▸ ha⟩
  · exact absurd hpunctual id

/-- Both attempts are looked at, the first one first. -/
theorem look_racing (hw : w.Ready m caller) (h : Racing site op caller w₀ A B b rb s v s' w)
    (hkept : HedgeState.Keeps site.call keeps m caller (.racing u s v s') w) :
    (∃ s₁ s₂ w', (withHedge site delay op).resume (.racing u s v s') w =
        (.pending (.racing u s₁ v s₂), w') ∧ w.Uneventful site w' ∧ WithTop.some w.now < a ∧
      WithTop.some w.now < b ∧ Racing site op caller w₀ A B b rb s₁ v s₂ w') ∨
    (∃ w', (withHedge site delay op).resume (.racing u s v s') w = (.done ra, w') ∧
      w.Uneventful site w' ∧ WithTop.some w.now = a ∧ a ≤ b) ∨
    ∃ w', (withHedge site delay op).resume (.racing u s v s') w = (.done rb, w') ∧
      w'.now = w.now ∧ WithTop.some w.now = b ∧ b < a ∧
      milestones site w'.trace = (w.now, .won) :: milestones site w.trace := by
  obtain ⟨hne, hraised, hraised'⟩ := hkept
  obtain ⟨hfirst, x, hends, hrival⟩ := h
  have hrest := hop.attends.raised_beside hw hraised hraised' hne.symm
  have hquiet := hop.resume_child hraised
  obtain ⟨hB, hpunctual⟩ := hI.first.look hfirst
  have hamid := hfirst.look
  have hamid' := hrival.done hB hquiet.now
  rw [Operation.withHedge_resume_racing]
  generalize op.resume s w = out at hrest hquiet hpunctual hamid hamid'
  -- the rival is looked at in the world that the first attempt leaves
  have hquiet' := hop.resume_child hrest
  have hle := hends.now_le hamid' hquiet'.now
  rcases out with ⟨s₁ | r | text, w₁⟩
  · obtain ⟨hA, hpunctual'⟩ := hends.look hamid'
    have ha : WithTop.some w.now < a := hquiet.now ▸ hpunctual
    rcases judgeRival_cases (u := u) hamid ⟨x, hends, hamid'.look⟩ hA hquiet'.now hpunctual' with
      ⟨s₂, heq, hb, hracing⟩ | ⟨w', heq, hb, hnow, htold⟩
    · exact .inl ⟨s₁, s₂, _, heq, hquiet.trans hquiet', ha, hquiet.now ▸ hb, hracing⟩
    · have hb' : WithTop.some w.now = b := hquiet.now ▸ hb
      refine .inr (.inr ⟨w', heq, hnow.trans hquiet.now, hb', hb' ▸ ha, ?_⟩)
      rw [htold, hquiet'.told, hquiet.told]
      exact congrArg (fun n => (n, Milestone.won) :: _) hquiet.now
  · obtain ⟨ha, rfl⟩ := hpunctual
    have hgiven : (w₁.cancel v).Uneventful site ((w₁.cancel v).releaseAll (op.holdings s')) :=
      (w₁.cancel v).uneventful_releaseAll _
    have hcancelled : w.Uneventful site (w₁.cancel v) := ⟨hquiet.now, hquiet.told⟩
    exact .inr (.inl ⟨_, rfl, hcancelled.trans hgiven, hquiet.now ▸ ha, ha ▸ hle⟩)
  · exact absurd hpunctual id

/-- The instant of the launch has come, and the first attempt has not ended. -/
theorem launch_cases (hfirst : op.Amid A (firstStart site op caller w₀) (.pending s, w))
    (hw : w.Ready m caller) (hs : Lodges site.call [.hedge] op keeps m caller u s w)
    (hdue : w.now = w₀.wakeTime delay) (hlate : WithTop.some w.now < a) :
    (w.isCancelled caller = true ∧ ∃ s' w', launch site delay caller u s w =
        (.pending (.alone s'), w') ∧ w.Uneventful site w' ∧
      op.Amid A (firstStart site op caller w₀) (.pending s', w')) ∨
    w.isCancelled caller = false ∧ ∃ told, told =
        (w.now, .begun) :: (w.now, .launched delay) :: milestones site w.trace ∧
      ((∃ s₁ v s₂ w', launch site delay caller u s w = (.pending (.racing u s₁ v s₂), w') ∧
          w'.now = w.now ∧ WithTop.some w.now < b ∧
          Racing site op caller w₀ A B b rb s₁ v s₂ w' ∧ milestones site w'.trace = told) ∨
        ∃ w', launch site delay caller u s w = (.done rb, w') ∧ w'.now = w.now ∧
          WithTop.some w.now = b ∧ milestones site w'.trace = (w.now, .won) :: told) := by
  have hmore : op.Attends site.call [.hedge] keeps := hop.attends.attends_mono (List.nil_subset _)
  cases hcancelled : w.isCancelled caller with
  | true =>
    -- nothing is launched, so the first attempt goes on alone
    rw [Operation.launch_eq, if_pos hcancelled]
    rcases look_alone hI hop hfirst hs.raised with ⟨s', w', heq, hquiet, -, hamid⟩ |
      ⟨w', -, -, ha⟩
    · exact .inl ⟨rfl, s', w', heq, hquiet, hamid⟩
    · exact absurd ha (ne_of_lt hlate)
  | false =>
    let w₁ := w.emit site (.hedgeLaunched delay)
    let w₂ := (announce site delay caller w).2
    let v := (announce site delay caller w).1
    obtain ⟨-, hready₂, hraised, hv, hne⟩ := Docile.launched List.mem_cons_self hmore delay hw hs
    have hready₂ : w₂.Ready m caller := hready₂
    have hraised : Raised site.call keeps m caller u s w₂ := hraised
    have hv : w₂.Fosters site.call m caller v := hv
    have hnow₂ : w₂.now = w.now := announce_now site delay caller w
    have htold₂ : milestones site w₂.trace =
        (w.now, .launched delay) :: milestones site w.trace := by
      have hlaunched : Entry.milestone? site ⟨w.now, .event site (.hedgeLaunched delay)⟩ =
        some (w.now, .launched delay) := if_pos rfl
      show milestones site w₁.trace = _
      rw [World.emit_trace]
      exact milestones_cons_some hlaunched
    -- the first attempt is looked at once more, at the same instant
    have hamid := hfirst.done (hI.announced hdue hcancelled) hnow₂
    have hpunctual := (hI.first.look hamid).2
    have hquiet : w₂.Uneventful site (op.resume s w₂).2 := hop.resume_child hraised
    have hready₃ := (hmore.resume_child hraised).confined.ready hready₂
    obtain ⟨m', hconfined⟩ := hmore.confined_resume hraised
    have hv₃ := hv.spares (hconfined.spares_sibling hv hraised.fosters hne.symm)
      (Token.governs_self v)
    -- and then the rival starts
    obtain ⟨hnow₄, htold₄⟩ := hop.start_child hready₃ hv₃
    have hends : op.Ends B A v (op.resume s w₂).2 b rb := hI.rival hfirst hdue hcancelled
    obtain ⟨hA, hpunctual'⟩ := hends.start
    have hamid' : op.Amid A (firstStart site op caller w₀) (op.resume s w₂) := hamid.look
    refine .inr ⟨rfl, _, rfl, ?_⟩
    rw [Operation.launch_eq, if_neg (Bool.eq_false_iff.mp hcancelled)]
    split
    next s₁ w₃ heq =>
      have heq : op.resume s w₂ = (.pending s₁, w₃) := heq
      rw [heq] at hquiet hnow₄ htold₄ hA hpunctual' hamid' hends
      have hnow₃ : w₃.now = w.now := hquiet.now.trans hnow₂
      have htold : milestones site (op.start v w₃).2.trace =
          (w.now, .begun) :: (w.now, .launched delay) :: milestones site w.trace := by
        rw [htold₄, hquiet.told, htold₂, hnow₃]
      -- both are under way unless the rival ends as it starts
      rcases judgeRival_cases (u := u) hamid' ⟨w₃, hends, .refl _⟩ hA hnow₄ hpunctual' with
        ⟨s₂, hrival, hb, hracing⟩ | ⟨w', hrival, hb, hnow, hwon⟩
      · exact .inl ⟨s₁, v, s₂, _, hrival, hnow₄.trans hnow₃, hnow₃ ▸ hb, hracing, htold⟩
      · rw [htold, hnow₃] at hwon
        exact .inr ⟨w', hrival, hnow.trans hnow₃, hnow₃ ▸ hb, hwon⟩
    -- the first attempt cannot end before its instant `a`, which is yet to come
    next r w₃ heq =>
      have heq : op.resume s w₂ = (.done r, w₃) := heq
      rw [heq] at hpunctual hquiet
      obtain ⟨ha, -⟩ := hpunctual
      rw [hquiet.now.trans hnow₂] at ha
      exact absurd ha (ne_of_lt hlate)
    next text w₃ heq =>
      have heq : op.resume s w₂ = (.panicked text, w₃) := heq
      rw [heq] at hpunctual
      exact absurd hpunctual id

/-- The first attempt is looked at while it is alone, and may be joined. -/
theorem look_early (hfirst : op.Amid A (firstStart site op caller w₀) (.pending s, w))
    (hw : w.Ready m caller) (hs : Raised site.call keeps m caller u s w)
    (hdue : w.now ≤ w₀.wakeTime delay) :
    (∃ s' w', (withHedge site delay op).resume (.early caller u (w₀.wakeTime delay) s) w =
        (.pending (.early caller u (w₀.wakeTime delay) s'), w') ∧ w.Uneventful site w' ∧
      WithTop.some w.now < a ∧ w.now < w₀.wakeTime delay ∧
      op.Amid A (firstStart site op caller w₀) (.pending s', w')) ∨
    (∃ w', (withHedge site delay op).resume (.early caller u (w₀.wakeTime delay) s) w =
        (.done ra, w') ∧ w.Uneventful site w' ∧ WithTop.some w.now = a) ∨
    (w.now = w₀.wakeTime delay ∧ WithTop.some w.now < a ∧ ∃ s' w', w.Uneventful site w' ∧
      op.resume s w = (.pending s', w') ∧
      (withHedge site delay op).resume (.early caller u (w₀.wakeTime delay) s) w =
        launch site delay caller u s' w' ∧
      op.Amid A (firstStart site op caller w₀) (.pending s', w') ∧ w'.Ready m caller ∧
      Lodges site.call [.hedge] op keeps m caller u s' w') := by
  have hmore : op.Attends site.call [.hedge] keeps := hop.attends.attends_mono (List.nil_subset _)
  have hquiet := hop.resume_child hs
  have hresume := hmore.resume_child hs
  have hpunctual := (hI.first.look hfirst).2
  have hamid := hfirst.look
  have heq : (withHedge site delay op).resume (.early caller u (w₀.wakeTime delay) s) w =
      judgeFirst site delay caller u (w₀.wakeTime delay) (op.resume s w) := rfl
  rw [heq]
  generalize op.resume s w = out at hquiet hresume hpunctual hamid
  rcases out with ⟨s' | r | text, w'⟩
  · have ha : WithTop.some w.now < a := hquiet.now ▸ hpunctual
    -- no instant after that of the launch has come, so a delay that is over is just over
    unfold Operation.judgeFirst
    dsimp only
    split
    next hover =>
      have hnow : w.now = w₀.wakeTime delay := Nat.le_antisymm hdue (hquiet.now ▸ hover)
      exact .inr (.inr ⟨hnow, ha, s', w', hquiet, rfl, rfl, hamid, hresume.confined.ready hw,
        hresume.lands⟩)
    next hearly =>
      exact .inl ⟨s', w', rfl, hquiet, ha, hquiet.now ▸ Nat.lt_of_not_le hearly, hamid⟩
  · obtain ⟨ha, rfl⟩ := hpunctual
    exact .inr (.inl ⟨w', rfl, hquiet, hquiet.now ▸ ha⟩)
  · exact absurd hpunctual id

end

end CallPolicy
