/-
The race of a hedged operation, in closed form.

When the second attempt is launched, at which instant the race ends, with what, and what is
told of it depends on the instants at which the two attempts would end, on that of the
launch, and on whether the token is found cancelled then, and on nothing else (`Duel`).

* **`Standing.wait`**, **`Standing.look`** — where a race stands after one more step;
* **`Standing.of_races`** — where it stands after any number of them;
* **`hedge_race_closed_form`** — when it ends, and how.
-/
import CallPolicy.Proofs.HedgeLook

namespace CallPolicy

open Relation Activity Operation

/-! ### The closed form -/

/-- What decides a race: the instant of the launch, when and with what each attempt ends, and
whether the launch is barred because the token is cancelled by then. -/
structure Duel where
  launchAt : Nat
  first : WithTop Nat
  firstResult : Result
  rival : WithTop Nat
  rivalResult : Result
  barred : Bool

namespace Duel

variable (d : Duel)

/-- A second attempt is launched if the first one has not ended by then, and the token is
live. -/
def Launches : Prop := WithTop.some d.launchAt < d.first ∧ d.barred = false

/-- The second attempt wins if it ends before the first one. -/
def RivalWins : Prop := d.Launches ∧ d.rival < d.first

instance : Decidable d.Launches := inferInstanceAs (Decidable (_ ∧ _))

instance : Decidable d.RivalWins := inferInstanceAs (Decidable (_ ∧ _))

/-- When the race ends. -/
def instant : WithTop Nat := if d.RivalWins then d.rival else d.first

/-- What it ends with. -/
def result : Result := if d.RivalWins then d.rivalResult else d.firstResult

/-- The milestones of a race that starts at an instant, the last first. -/
def story (startAt : Nat) (delay : Duration) : List (Nat × Milestone) :=
  (if d.RivalWins then [(d.rival.untopD 0, .won)] else []) ++
    (if d.Launches then [(d.launchAt, .begun), (d.launchAt, .launched delay)] else []) ++
    [(startAt, .begun)]

variable {d} (startAt : Nat) (delay : Duration)

/-- Without a second attempt, all depends on the first one. -/
theorem of_barred (h : d.barred = true) : d.instant = d.first ∧ d.result = d.firstResult ∧
    d.story startAt delay = [(startAt, .begun)] := by
  have hkept : ¬d.Launches := fun hlaunches => Bool.eq_false_iff.mp hlaunches.2 h
  have hlost : ¬d.RivalWins := fun hwins => hkept hwins.1
  refine ⟨if_neg hlost, if_neg hlost, ?_⟩
  rw [story, if_neg hlost, if_neg hkept]
  rfl

/-- The first attempt wins a tie. -/
theorem of_first_le (h : d.Launches) (hle : d.first ≤ d.rival) :
    d.instant = d.first ∧ d.result = d.firstResult ∧ d.story startAt delay =
      [(d.launchAt, .begun), (d.launchAt, .launched delay), (startAt, .begun)] := by
  have hlost : ¬d.RivalWins := fun hwins => not_lt_of_ge hle hwins.2
  refine ⟨if_neg hlost, if_neg hlost, ?_⟩
  rw [story, if_neg hlost, if_pos h]
  rfl

theorem of_rival_lt {n : Nat} (h : d.Launches) (hlt : d.rival < d.first)
    (hn : WithTop.some n = d.rival) :
    d.instant = d.rival ∧ d.result = d.rivalResult ∧ d.story startAt delay = [(n, .won),
      (d.launchAt, .begun), (d.launchAt, .launched delay), (startAt, .begun)] := by
  have hwins : d.RivalWins := ⟨h, hlt⟩
  refine ⟨if_pos hwins, if_pos hwins, ?_⟩
  rw [story, if_pos hwins, if_pos h, ← hn]
  rfl

end Duel

theorem World.now_lt_wakeTime (w : World) {d : Duration} (h : d.nanos ≠ 0) :
    w.now < w.wakeTime d := by
  have hpos : (d.shorter longestWait).nanos ≠ 0 := by
    rw [Duration.nanos_shorter]
    have hlongest : longestWait.nanos ≠ 0 := by decide
    omega
  rw [wakeTime, deadline]
  omega

/-! ### Races -/

section

variable (site : Site) (delay : Duration) (op : Operation) (caller : Token) (w₀ : World)
  (A B : World → World → Prop) (a b : WithTop Nat) (ra rb : Result)

/-- What may be done around the race of the two. -/
def Operation.Around (w w' : World) : Prop := w.Meanwhile site.call caller w' ∧ A w w' ∧ B w w'

/-- How far the race has got. -/
def Operation.Races (out : Status (withHedge site delay op).State Result × World) : Prop :=
  (withHedge site delay op).Amid (Around site caller A B)
    ((withHedge site delay op).start caller w₀) out

/-- The race has come by a look at the instant of the launch, when the first attempt was
alone, and the token was found cancelled or not. -/
def Operation.Bars (barred : Bool)
    (out : Status (withHedge site delay op).State Result × World) : Prop :=
  ∃ s w, Races site delay op caller w₀ A B
      (.pending (.early caller (w₀.mint site.call caller).1 (w₀.wakeTime delay) s), w) ∧
    w.now = w₀.wakeTime delay ∧
    (withHedge site delay op).Amid (Around site caller A B) ((withHedge site delay op).resume
      (.early caller (w₀.mint site.call caller).1 (w₀.wakeTime delay) s) w) out ∧
    (op.resume s w).2.isCancelled caller = barred

/-- What decides the race. -/
def Operation.duel (barred : Bool) : Duel := ⟨w₀.wakeTime delay, a, ra, b, rb, barred⟩

end

/-! ### Where a race stands -/

section

variable (site : Site) (delay : Duration) (op : Operation) (caller : Token) (w₀ : World)
  (A B : World → World → Prop) (a b : WithTop Nat) (ra rb : Result)

/-- Where a race stands: the first attempt is alone, for the time being or for good, two
attempts race, or the race has ended as the closed form says. -/
inductive Standing : Status (withHedge site delay op).State Result × World → Prop
  | early {s : op.State} {w : World}
      (first : op.Amid A (firstStart site op caller w₀) (.pending s, w))
      (due : w.now ≤ w₀.wakeTime delay)
      (told : milestones site w.trace = (w₀.now, .begun) :: milestones site w₀.trace) :
      Standing (.pending (.early caller (w₀.mint site.call caller).1 (w₀.wakeTime delay) s), w)
  | alone {s : op.State} {w : World}
      (first : op.Amid A (firstStart site op caller w₀) (.pending s, w))
      (bars : Bars site delay op caller w₀ A B true (.pending (.alone s), w))
      (told : milestones site w.trace = (w₀.now, .begun) :: milestones site w₀.trace) :
      Standing (.pending (.alone s), w)
  | racing {u v : Token} {s s' : op.State} {w : World}
      (racing : Racing site op caller w₀ A B b rb s v s' w)
      (late : WithTop.some (w₀.wakeTime delay) < a)
      (bars : Bars site delay op caller w₀ A B false (.pending (.racing u s v s'), w))
      (told : milestones site w.trace = (w₀.wakeTime delay, .begun) ::
        (w₀.wakeTime delay, .launched delay) :: (w₀.now, .begun) :: milestones site w₀.trace) :
      Standing (.pending (.racing u s v s'), w)
  | done {barred : Bool} {r : Result} {w : World}
      (decided : a ≤ .some (w₀.wakeTime delay) ∨
        Bars site delay op caller w₀ A B barred (.done r, w))
      (result : r = (duel delay w₀ a b ra rb barred).result)
      (instant : WithTop.some w.now = (duel delay w₀ a b ra rb barred).instant)
      (told : milestones site w.trace =
        (duel delay w₀ a b ra rb barred).story w₀.now delay ++ milestones site w₀.trace) :
      Standing (.done r, w)

end

section

variable {site : Site} {delay : Duration} {op : Operation} {caller u v : Token} {w₀ w w' : World}
  {A B : World → World → Prop} {a b : WithTop Nat} {ra rb : Result} {barred : Bool}
  {keeps : (CallId → Nat) → Token → op.State → World → Prop}
  {st : (withHedge site delay op).State}
  {out : Status (withHedge site delay op).State Result × World}

theorem Operation.Bars.wait (h : Bars site delay op caller w₀ A B barred (.pending st, w))
    (hw : Around site caller A B w w')
    (hdue : ∀ d ∈ (withHedge site delay op).deadlines st, w.now ≤ d → w'.now ≤ d) :
    Bars site delay op caller w₀ A B barred (.pending st, w') := by
  obtain ⟨s, x, hrun, hnow, hrest, hcancelled⟩ := h
  exact ⟨s, x, hrun, hnow, hrest.wait hw hdue, hcancelled⟩

theorem Operation.Bars.look (h : Bars site delay op caller w₀ A B barred (.pending st, w)) :
    Bars site delay op caller w₀ A B barred ((withHedge site delay op).resume st w) := by
  obtain ⟨s, x, hrun, hnow, hrest, hcancelled⟩ := h
  exact ⟨s, x, hrun, hnow, hrest.look, hcancelled⟩

/-- The first attempt has ended alone. -/
theorem Standing.of_first (decided : a ≤ .some (w₀.wakeTime delay) ∨
      Bars site delay op caller w₀ A B true (.done ra, w)) (instant : WithTop.some w.now = a)
    (told : milestones site w.trace = (w₀.now, .begun) :: milestones site w₀.trace) :
    Standing site delay op caller w₀ A B a b ra rb (.done ra, w) := by
  obtain ⟨hinstant, hresult, hstory⟩ :=
    Duel.of_barred (d := duel delay w₀ a b ra rb true) w₀.now delay rfl
  exact .done decided hresult.symm (instant.trans hinstant.symm) (told.trans (hstory ▸ rfl))

section

variable (late : WithTop.some (w₀.wakeTime delay) < a)

include late

/-- The first attempt has ended, and the second one would not have ended before. -/
theorem Standing.of_first_le (bars : Bars site delay op caller w₀ A B false (.done ra, w))
    (instant : WithTop.some w.now = a) (hle : a ≤ b)
    (told : milestones site w.trace = (w₀.wakeTime delay, .begun) ::
      (w₀.wakeTime delay, .launched delay) :: (w₀.now, .begun) :: milestones site w₀.trace) :
    Standing site delay op caller w₀ A B a b ra rb (.done ra, w) := by
  have hlaunches : (duel delay w₀ a b ra rb false).Launches := ⟨late, rfl⟩
  obtain ⟨hinstant, hresult, hstory⟩ := Duel.of_first_le w₀.now delay hlaunches hle
  exact .done (.inr bars) hresult.symm (instant.trans hinstant.symm) (told.trans (hstory ▸ rfl))

/-- The second attempt has won. -/
theorem Standing.of_rival_lt (bars : Bars site delay op caller w₀ A B false (.done rb, w))
    (instant : WithTop.some w.now = b) (hlt : b < a)
    (told : milestones site w.trace = (w.now, .won) :: (w₀.wakeTime delay, .begun) ::
      (w₀.wakeTime delay, .launched delay) :: (w₀.now, .begun) :: milestones site w₀.trace) :
    Standing site delay op caller w₀ A B a b ra rb (.done rb, w) := by
  have hlaunches : (duel delay w₀ a b ra rb false).Launches := ⟨late, rfl⟩
  obtain ⟨hinstant, hresult, hstory⟩ := Duel.of_rival_lt w₀.now delay hlaunches hlt instant
  exact .done (.inr bars) hresult.symm (instant.trans hinstant.symm) (told.trans (hstory ▸ rfl))

end

/-- The race waits, while something else is done. -/
theorem Standing.wait (h : Standing site delay op caller w₀ A B a b ra rb (.pending st, w))
    (hw : Around site caller A B w w')
    (hdue : ∀ d ∈ (withHedge site delay op).deadlines st, w.now ≤ d → w'.now ≤ d) :
    Standing site delay op caller w₀ A B a b ra rb (.pending st, w') := by
  have htold := hw.1.milestones_eq
  -- whatever the attempts wait for, the race waits for, and the early one for its timer too
  cases h with
  | early first due told =>
    refine .early (first.wait hw.2.1 fun d hd => hdue d (List.mem_cons_of_mem _ hd)) ?_
      (htold.trans told)
    exact hdue _ List.mem_cons_self due
  | alone first bars told =>
    exact .alone (first.wait hw.2.1 hdue) (bars.wait hw hdue) (htold.trans told)
  | racing racing late bars told =>
    obtain ⟨hfirst, x, hends, hrival⟩ := racing
    have hfirst' := hfirst.wait hw.2.1 fun d hd => hdue d (List.mem_append_left _ hd)
    have hrival' := hrival.wait hw.2.2 fun d hd => hdue d (List.mem_append_right _ hd)
    exact .racing ⟨hfirst', x, hends, hrival'⟩ late (bars.wait hw hdue) (htold.trans told)

variable (hI : Independent site delay op caller w₀ A B a b ra rb) (hop : op.Single site keeps)

include hI hop

/-- The instant of the launch has come, and the first attempt, which is alone, has not
ended. -/
theorem Standing.launch {s : op.State}
    (first : op.Amid A (firstStart site op caller w₀) (.pending s, w))
    (hw : w.Ready w₀.minted caller)
    (hs : Lodges site.call [.hedge] op keeps w₀.minted caller u s w)
    (hdue : w.now = w₀.wakeTime delay) (hlate : WithTop.some w.now < a)
    (hbars : ∀ {c}, w.isCancelled caller = c →
      Bars site delay op caller w₀ A B c (launch site delay caller u s w))
    (told : milestones site w.trace = (w₀.now, .begun) :: milestones site w₀.trace) :
    Standing site delay op caller w₀ A B a b ra rb (launch site delay caller u s w) := by
  rcases launch_cases hI hop first hw hs hdue hlate with
    ⟨hcancelled, s', w', heq, hquiet, hamid⟩ | ⟨hlive, story, rfl, hrace⟩
  · have hbars := hbars hcancelled
    rw [heq] at hbars ⊢
    exact .alone hamid hbars (hquiet.told.trans told)
  · have hbars := hbars hlive
    rw [hdue, told] at hrace
    rw [hdue] at hlate
    rcases hrace with ⟨s₁, v, s₂, w', heq, -, -, hracing, htold⟩ | ⟨w', heq, hnow, hb, htold⟩
    · rw [heq] at hbars ⊢
      exact .racing hracing hlate hbars htold
    · rw [heq] at hbars ⊢
      rw [← hnow] at htold
      exact .of_rival_lt hlate hbars (hnow ▸ hb) (hb ▸ hlate) (by rw [htold, hnow])

/-- The race is looked at. -/
theorem Standing.look (h : Standing site delay op caller w₀ A B a b ra rb (.pending st, w))
    (hrun : Races site delay op caller w₀ A B (.pending st, w)) (hw : w.Ready w₀.minted caller)
    (hkept : HedgeState.Keeps site.call keeps w₀.minted caller st w) :
    Standing site delay op caller w₀ A B a b ra rb ((withHedge site delay op).resume st w) := by
  cases h with
  | @early s _ first due told =>
    -- the delay is not over, the first attempt ends, or the rival is to be launched
    rcases look_early hI hop first hw hkept.2 due with ⟨s', w', heq, hquiet, -, hearly, hamid⟩ |
      ⟨w', heq, hquiet, ha⟩ | ⟨hnow, hlate, s', w', hquiet, hsame, heq, hamid, hw', hlodges⟩
    · rw [heq]
      exact .early hamid (hquiet.now.trans_le due) (hquiet.told.trans told)
    · rw [heq]
      refine .of_first (.inl ?_) (hquiet.now ▸ ha) (hquiet.told.trans told)
      rw [← ha]
      exact WithTop.coe_le_coe.mpr due
    · rw [heq]
      rw [← hquiet.now] at hlate
      refine .launch hI hop hamid hw' hlodges (hquiet.now.trans hnow) hlate (fun hc => ?_)
        (hquiet.told.trans told)
      exact ⟨s, w, hrun, hnow, heq ▸ .refl _, by rw [hsame]; exact hc⟩
  -- the first attempt goes on alone, or ends and decides
  | alone first bars told =>
    obtain ⟨u, hraised⟩ := hkept
    have hbars := bars.look
    rcases look_alone hI hop first hraised with ⟨s', w', heq, hquiet, -, hamid⟩ |
      ⟨w', heq, hquiet, ha⟩
    · have heq : (withHedge site delay op).resume (.alone _) w = _ := heq
      rw [heq] at hbars ⊢
      exact .alone hamid hbars (hquiet.told.trans told)
    · have heq : (withHedge site delay op).resume (.alone _) w = _ := heq
      rw [heq] at hbars ⊢
      exact .of_first (.inr hbars) (hquiet.now ▸ ha) (hquiet.told.trans told)
  | racing racing late bars told =>
    have hbars := bars.look
    -- both go on, or the first one ends in time, or the rival ends before it
    rcases look_racing hI hop hw racing hkept with ⟨s₁, s₂, w', heq, hquiet, -, -, hracing⟩ |
      ⟨w', heq, hquiet, ha, hle⟩ | ⟨w', heq, hnow, hb, hlt, htold⟩
    · rw [heq] at hbars ⊢
      exact .racing hracing late hbars (hquiet.told.trans told)
    · rw [heq] at hbars ⊢
      exact .of_first_le late hbars (hquiet.now ▸ ha) hle (hquiet.told.trans told)
    · rw [heq] at hbars ⊢
      rw [← hnow] at hb htold
      exact .of_rival_lt late hbars hb hlt (htold.trans (told ▸ rfl))

variable (hdelay : delay.nanos ≠ 0) (hw₀ : w₀.Ready w₀.minted caller)

include hw₀

omit hI hw₀ in
theorem attends_withHedge : (withHedge site delay op).Attends site.call [.hedge]
    (HedgeState.Keeps site.call keeps) :=
  Docile.withHedge List.mem_cons_self (hop.attends.attends_mono (List.nil_subset _))

omit hI in
/-- A race is the life of a call among others. -/
theorem lives_of_races (hrun : Races site delay op caller w₀ A B out) :
    (withHedge site delay op).Lives site.call True caller w₀ out :=
  (attends_withHedge hop).lives_of_amid hw₀ (fun hw => hw.1) hrun

omit hI in
/-- Something is known of a race that has not ended. -/
theorem keeps_of_races (hrun : Races site delay op caller w₀ A B (.pending st, w)) :
    w.Ready w₀.minted caller ∧ HedgeState.Keeps site.call keeps w₀.minted caller st w :=
  (attends_withHedge hop).lives hw₀ (lives_of_races hop hw₀ hrun)

include hdelay

/-- The race starts. -/
theorem Standing.start :
    Standing site delay op caller w₀ A B a b ra rb ((withHedge site delay op).start caller w₀) := by
  have hearly := w₀.now_lt_wakeTime hdelay
  obtain ⟨hnow, htold⟩ := hop.start_child (hw₀.mint site.call caller) (.mint hw₀)
  have hpunctual := hI.first.start.2
  have hamid : op.Amid A (firstStart site op caller w₀)
    (op.start (w₀.mint site.call caller).1 (w₀.mint site.call caller).2) := .refl _
  have hstart : (withHedge site delay op).start caller w₀ =
    judgeFirst site delay caller (w₀.mint site.call caller).1 (w₀.wakeTime delay)
      (op.start (w₀.mint site.call caller).1 (w₀.mint site.call caller).2) := rfl
  rw [hstart]
  generalize op.start (w₀.mint site.call caller).1 (w₀.mint site.call caller).2 = out at *
  have hnow : out.2.now = w₀.now := hnow
  -- the delay is not empty, so it is too early for a launch
  rcases out with ⟨s | r | text, w⟩
  · rw [Operation.judgeFirst, if_neg (by rw [hnow]; exact Nat.not_le.mpr hearly)]
    exact .early hamid (hnow.trans_le hearly.le) htold
  · obtain ⟨ha, rfl⟩ := hpunctual
    refine .of_first (.inl ?_) ha htold
    rw [← ha]
    exact WithTop.coe_le_coe.mpr (hnow.trans_le hearly.le)
  · exact absurd hpunctual id

/-- **Where a race stands** after any number of steps. -/
theorem Standing.of_races (hrun : Races site delay op caller w₀ A B out) :
    Standing site delay op caller w₀ A B a b ra rb out := by
  induction hrun with
  | refl => exact .start hI hop hdelay hw₀
  | tail hrun hstep ih =>
    cases hstep with
    | wait hw hdue => exact ih.wait hw hdue
    | look =>
      obtain ⟨hw, hkept⟩ := keeps_of_races hop hw₀ hrun
      exact ih.look hI hop hrun hw hkept

end

/-! ### The closed form of a race -/

section

variable {site : Site} {delay : Duration} {op : Operation} {caller u v : Token} {w₀ w w' : World}
  {A B : World → World → Prop} {a b : WithTop Nat} {ra rb : Result}
  {keeps : (CallId → Nat) → Token → op.State → World → Prop} {s s' : op.State}
  (hI : Independent site delay op caller w₀ A B a b ra rb) (hop : op.Single site keeps)

include hI hop

/-- Two attempts that race have not passed the end of the race, and when it has come, the
next look finds it. -/
theorem Operation.Racing.ends (h : Racing site op caller w₀ A B b rb s v s' w)
    (late : WithTop.some (w₀.wakeTime delay) < a) (hw : w.Ready w₀.minted caller)
    (hkept : HedgeState.Keeps site.call keeps w₀.minted caller (.racing u s v s') w) :
    let d := duel delay w₀ a b ra rb false
    WithTop.some w.now ≤ d.instant ∧ (WithTop.some w.now = d.instant →
      ∃ w', (withHedge site delay op).resume (.racing u s v s') w = (.done d.result, w')) := by
  intro d
  have hlaunches : d.Launches := ⟨late, rfl⟩
  have hcases := look_racing hI hop hw h hkept
  -- a tie goes to the first attempt
  rcases le_or_gt a b with hle | hlt
  · obtain ⟨hinstant, hresult, -⟩ := Duel.of_first_le w₀.now delay hlaunches hle
    rw [hinstant, hresult]
    rcases hcases with ⟨s₁, s₂, w', -, -, ha, -, -⟩ | ⟨w', heq, -, ha, -⟩ | ⟨w', -, -, -, hlt, -⟩
    · exact ⟨ha.le, fun heq => absurd heq ha.ne⟩
    · exact ⟨ha.le, fun _ => ⟨w', heq⟩⟩
    · exact absurd hle (not_le_of_gt hlt)
  · obtain ⟨n, hn⟩ := WithTop.ne_top_iff_exists.mp hlt.ne_top
    obtain ⟨hinstant, hresult, -⟩ := Duel.of_rival_lt w₀.now delay hlaunches hlt hn
    rw [hinstant, hresult]
    rcases hcases with ⟨s₁, s₂, w', -, -, -, hb, -⟩ | ⟨w', -, -, -, hle⟩ | ⟨w', heq, -, hb, -⟩
    · exact ⟨hb.le, fun heq => absurd heq hb.ne⟩
    · exact absurd hle (not_le_of_gt hlt)
    · exact ⟨hb.le, fun _ => ⟨w', heq⟩⟩

omit hI hop in
/-- What is told while two attempts race is all that will be told of the race, but for the
victory of the second one. -/
theorem Duel.story_of_racing {d : Duel} {n : Nat} (startAt : Nat) (delay : Duration)
    (h : d.Launches) (hn : WithTop.some n ≤ d.instant) :
    [(d.launchAt, .begun), (d.launchAt, .launched delay), (startAt, .begun)] <:+
        d.story startAt delay ∧
      ∀ p ∈ d.story startAt delay, p.1 < n →
        p ∈ [(d.launchAt, .begun), (d.launchAt, .launched delay), (startAt, .begun)] := by
  rcases le_or_gt d.first d.rival with hle | hlt
  · obtain ⟨-, -, hstory⟩ := of_first_le startAt delay h hle
    rw [hstory]
    exact ⟨List.suffix_refl _, fun _ hp _ => hp⟩
  · obtain ⟨k, hk⟩ := WithTop.ne_top_iff_exists.mp hlt.ne_top
    obtain ⟨hinstant, -, hstory⟩ := of_rival_lt startAt delay h hlt hk
    rw [hinstant, ← hk] at hn
    rw [hstory]
    refine ⟨List.suffix_cons _ _, fun p hp hlt => ?_⟩
    rcases List.mem_cons.mp hp with rfl | hp
    · exact absurd (WithTop.coe_le_coe.mp hn) (Nat.not_le.mpr hlt)
    · exact hp

/-- The first attempt alone has not passed its end, and when that has come, the next look
finds it. -/
theorem first_ends (first : op.Amid A (firstStart site op caller w₀) (.pending s, w))
    (hs : Raised site.call keeps w₀.minted caller u s w) : WithTop.some w.now ≤ a :=
  hI.first.now_le first (hop.resume_child hs).now

end

/-- **The race of a hedged operation in closed form.** Two attempts that do not affect each
other end at `a` with `ra`, and at `b` with `rb`, and the delay of an accepted policy is over
at `D`. The race is looked at whenever an instant has come that it waits for.

Unless the first attempt has ended by `D`, or `D` has not come, the token was found live or
cancelled by the look at `D`. Then the race ends with the result and at the instant that
`Duel` says; it has never passed that instant, and a look at it finds the end. All that is
told of it is what `Duel.story` says: its invocations begin at the start and, if a second
attempt is launched, right after the launch, which is told of once, as is the victory of
the second attempt. When the race has ended, none of its invocations is live any more. -/
theorem hedge_race_closed_form {site : Site} {delay : Duration} {caller : Token} {w₀ : World}
    {A B : World → World → Prop} {a b : WithTop Nat} {ra rb : Result} (script : Script)
    (hdelay : (Layer.hedge delay).fault? = none) (hw₀ : w₀.Ready w₀.minted caller)
    (hI : Independent site delay (script.operation site.call) caller w₀ A B a b ra rb)
    {out : Status (withHedge site delay (script.operation site.call)).State Result × World}
    (hrun : Races site delay (script.operation site.call) caller w₀ A B out) :
    let race := withHedge site delay (script.operation site.call)
    let D := w₀.wakeTime delay
    ∃ barred, let d := duel delay w₀ a b ra rb barred
      (a ≤ .some D ∨
        (out.2.now ≤ D ∧
          ∃ s, out.1 = .pending (.early caller (w₀.mint site.call caller).1 D s)) ∨
        Bars site delay (script.operation site.call) caller w₀ A B barred out) ∧
      (∃ told, milestones site out.2.trace = told ++ milestones site w₀.trace ∧
        told <:+ d.story w₀.now delay ∧
        ∀ p ∈ d.story w₀.now delay, p.1 < out.2.now → p ∈ told) ∧
      (∀ st w, out = (.pending st, w) → WithTop.some w.now ≤ d.instant ∧
        (WithTop.some w.now = d.instant → ∃ w', race.resume st w = (.done d.result, w'))) ∧
      (∀ r w, out = (.done r, w) → r = d.result ∧ WithTop.some w.now = d.instant ∧
        milestones site w.trace = d.story w₀.now delay ++ milestones site w₀.trace ∧
        liveIn site.call w.trace = liveIn site.call w₀.trace) ∧
      ∀ text w, out ≠ (.panicked text, w) := by
  intro race D
  obtain ⟨keeps, hop⟩ := Operation.Single.script script site
  -- an empty delay is a fault, so the delay ends later than the race begins
  have hnonzero : delay.nanos ≠ 0 := fun hzero => by
    rw [Layer.fault?, Layer.emptySpan?, if_pos hzero] at hdelay
    cases hdelay
  have hstage := Standing.of_races hI hop hnonzero hw₀ hrun
  obtain ⟨hinstant, hresult, hstory⟩ :=
    Duel.of_barred (d := duel delay w₀ a b ra rb true) w₀.now delay rfl
  cases hstage with
  -- the delay is not over, and nothing is told but the first beginning
  | @early s w first due told =>
    obtain ⟨hw, -, hraised⟩ := keeps_of_races hop hw₀ hrun
    refine ⟨true, .inr (.inl ⟨due, s, rfl⟩), ⟨[(w₀.now, .begun)], told, ?_, ?_⟩, ?_,
      by rintro r w' ⟨⟩, by rintro text w' ⟨⟩⟩
    · exact hstory ▸ List.suffix_refl _
    · exact fun p hp _ => hstory ▸ hp
    · intro st w' heq
      cases heq
      rw [hinstant, hresult]
      refine ⟨first_ends hI hop first hraised, fun ha => ?_⟩
      -- at its instant the first attempt ends, whatever else is due then
      rcases look_early hI hop first hw hraised due with ⟨s', w', -, -, hlt, -⟩ | ⟨w', heq, -⟩ |
        ⟨-, hlt, -⟩
      · exact absurd ha hlt.ne
      · exact ⟨w', heq⟩
      · exact absurd ha hlt.ne
  -- no rival was launched, so the first attempt decides alone
  | @alone s w first bars told =>
    obtain ⟨hw, u, hraised⟩ := keeps_of_races hop hw₀ hrun
    refine ⟨true, .inr (.inr bars), ⟨[(w₀.now, .begun)], told, ?_, ?_⟩, ?_,
      by rintro r w' ⟨⟩, by rintro text w' ⟨⟩⟩
    · exact hstory ▸ List.suffix_refl _
    · exact fun p hp _ => hstory ▸ hp
    · intro st w' heq
      cases heq
      rw [hinstant, hresult]
      refine ⟨first_ends hI hop first hraised, fun ha => ?_⟩
      rcases look_alone hI hop first hraised with ⟨s', w', -, -, hlt, -⟩ | ⟨w', heq, -⟩
      · exact absurd ha hlt.ne
      · exact ⟨w', heq⟩
  -- both are under way, and the earlier of the two instants decides
  | @racing u v s s' w racing late bars told =>
    obtain ⟨hw, hkept⟩ := keeps_of_races hop hw₀ hrun
    obtain ⟨hle, hends⟩ := racing.ends hI hop late hw hkept
    obtain ⟨hsuffix, hmem⟩ := Duel.story_of_racing w₀.now delay
      (d := duel delay w₀ a b ra rb false) ⟨late, rfl⟩ hle
    refine ⟨false, .inr (.inr bars), ⟨_, told, hsuffix, hmem⟩, ?_,
      by rintro r w' ⟨⟩, by rintro text w' ⟨⟩⟩
    intro st w' heq
    cases heq
    exact ⟨hle, hends⟩
  -- the race is over, and its whole story has been told
  | @done barred r w decided result instant told =>
    refine ⟨barred, decided.imp_right .inr, ⟨_, told, List.suffix_refl _, fun p hp _ => hp⟩,
      by rintro st w' ⟨⟩, ?_, by rintro text w' ⟨⟩⟩
    intro r' w' heq
    cases heq
    -- what is held by nobody is not live
    obtain ⟨K, hK⟩ := exists_scriptKnown script
    obtain ⟨rights, hlawful⟩ := Lawful.withHedge site delay (Script.lawful site.call hK)
    have hlive := hlawful.liveIn_of_lives (lives_of_races hop hw₀ hrun)
    exact ⟨result, instant, told, hlive.trans (zero_add _)⟩

/-! ### An operation that is slow at first -/

theorem Activity.pause_resume (length : Duration) (s : Visit × Nat) (w : World) :
    (Activity.pause length none).resume s w =
      if s.2 ≤ w.now then (.done (.next s.1), w) else (.pending s, w) := by
  unfold Activity.pause Activity.wait Activity.wait.look
  dsimp only
  by_cases h : s.2 ≤ w.now
  · rw [if_pos h, if_pos h]
  · rw [if_neg h, if_neg h]

/-- An invocation that sleeps for a while ends when it has slept enough. -/
theorem Activity.Ends.nap {call : CallId} {k : Nat} {r : Result} {A B : World → World → Prop}
    {u : Token} {w₀ : World} (length : Duration) (hlength : length.nanos ≠ 0)
    (hB : ∀ w, B w w) (hbegin : B w₀ (w₀.invoke call k u))
    (hend : ∀ w, B w (w.note (.finished call k (.returned r)))) :
    (invocation call k (actionsBody call k 0 [.sleep length, .give r])).Ends A B u w₀
      (.some (w₀.wakeTime length)) r := by
  let a := invocation call k (actionsBody call k 0 [.sleep length, .give r])
  let s₀ : Visit × Nat := (⟨u, .ok ""⟩, w₀.wakeTime length)
  let asleep : a.State := (u, .inl s₀)
  have hresume : ∀ w, a.resume asleep w = invocation.conclude call k _ u (followedBy.go _
    (actionsBody call k 1 [.give r]) ((pause length none).resume s₀ w)) := fun _ => rfl
  have hstart : a.start u w₀ = a.resume asleep (w₀.invoke call k u) := rfl
  have hearly : ∀ w, w.now < w₀.wakeTime length → a.resume asleep w = (.pending asleep, w) := by
    intro w hw
    rw [hresume, Activity.pause_resume, if_neg (Nat.not_le.mpr hw)]
    rfl
  have hnow := w₀.now_lt_wakeTime hlength
  refine .of_waiting (hstart.trans (hearly _ hnow)) hnow (List.mem_singleton.mpr rfl) hearly
    (fun w hw => ⟨w.note (.finished call k (.returned r)), ?_, hw, hend w⟩) hB hbegin
  rw [hresume, Activity.pause_resume, if_pos hw.ge]
  rfl

/-- An operation that takes ten milliseconds the first time, and two from then on. -/
def laggard : Script :=
  [[.sleep (.ofMillis 10), .give (.ok "slow")], [.sleep (.ofMillis 2), .give (.ok "fast")]]

/-- A call that is made without any policy around the layer. -/
def hedgedSite : Site := ⟨⟨0, "p", .none⟩, .top "c" 0⟩

/-- The layer around the operation. -/
def hedgedLaggard : Operation :=
  withHedge hedgedSite (.ofMillis 5) (laggard.operation hedgedSite.call)

/-- The world in which the layer is started. -/
def beforeRace : World := .start .plain

/-- Time does not turn back, and no invocation is forgotten. -/
def Onward (w w' : World) : Prop :=
  w.now ≤ w'.now ∧ (w.invoked hedgedSite.call).length ≤ (w'.invoked hedgedSite.call).length

theorem Onward.refl (w : World) : Onward w w := ⟨Nat.le_refl _, Nat.le_refl _⟩

theorem Onward.trans {w w' w'' : World} (h : Onward w w') (h' : Onward w' w'') : Onward w w'' :=
  ⟨h.1.trans h'.1, h.2.trans h'.2⟩

theorem Onward.invoke (w : World) (k : Nat) (u : Token) :
    Onward w (w.invoke hedgedSite.call k u) := by
  refine ⟨Nat.le_refl _, ?_⟩
  rw [World.invoke_invoked, assign_self]
  exact Nat.le_succ _

theorem ready_beforeRace : beforeRace.Ready beforeRace.minted (.named "t") :=
  ⟨nofun, nofun, fun _ => Nat.le_refl _⟩

/-- The two invocations do not affect each other. -/
theorem independent_laggard : Independent hedgedSite (.ofMillis 5)
    (laggard.operation hedgedSite.call) (.named "t") beforeRace Onward Onward
    (.some 10000000) (.some 7000000) (.ok "slow") (.ok "fast") := by
  have hfirst : (laggard.operation hedgedSite.call).Ends Onward Onward
      (beforeRace.mint hedgedSite.call (.named "t")).1
      (beforeRace.mint hedgedSite.call (.named "t")).2 (.some 10000000) (.ok "slow") :=
    .numbered (k := 0) rfl (.nap (.ofMillis 10) (by decide) .refl (.invoke _ _ _) .refl)
  have hannounced : ∀ w, Onward w (announce hedgedSite (.ofMillis 5) (.named "t") w).2 := by
    intro w
    rw [Onward, announce_now, announce_invoked]
    exact Onward.refl w
  refine ⟨hfirst, fun {w} _ _ => hannounced w, fun {s w} h hnow _ => ?_⟩
  let w₂ := (announce hedgedSite (.ofMillis 5) (.named "t") w).2
  let x := ((laggard.operation hedgedSite.call).resume s w₂).2
  obtain ⟨K, hK⟩ := exists_scriptKnown laggard
  obtain ⟨rights, hlawful⟩ := Script.lawful hedgedSite.call hK
  have hnow₂ : x.now = 5000000 :=
    (hlawful.resume_now s w₂).trans ((announce_now _ _ _ w).trans hnow)
  -- the first invocation has begun, so this is not the first one
  have hamid := (h.done (hannounced w) (announce_now _ _ _ w)).look
  have hinvoked := (hfirst.amid_rel Onward.refl Onward.trans (fun h => h) (fun h => h) hamid).2
  have hone : 1 ≤ (x.invoked hedgedSite.call).length := hinvoked
  obtain ⟨k, hk⟩ := Nat.exists_eq_add_of_le' hone
  have hrival : (laggard.operation hedgedSite.call).Ends Onward Onward
      (announce hedgedSite (.ofMillis 5) (.named "t") w).1 x (.some (x.wakeTime (.ofMillis 2)))
      (.ok "fast") :=
    .numbered hk (.nap (.ofMillis 2) (by decide) .refl (.invoke _ _ _) .refl)
  have hwake : x.wakeTime (.ofMillis 2) = 7000000 := by
    unfold World.wakeTime World.deadline
    rw [hnow₂]
    decide
  rwa [hwake] at hrival

/-- The tokens of the two invocations. -/
def napTokens : Token × Token :=
  ((Token.named "t").child hedgedSite.call 0, (Token.named "t").child hedgedSite.call 1)

/-- The first invocation sleeps, and the delay is over. -/
def launchDue : World := { (hedgedLaggard.start (.named "t") beforeRace).2 with now := 5000000 }

/-- The layer in that world. -/
def firstAsleep : hedgedLaggard.State :=
  .early (.named "t") napTokens.1 5000000
    ⟨0, napTokens.1, .inl (⟨napTokens.1, .ok ""⟩, 10000000)⟩

/-- Both invocations sleep, and the second one has slept enough. -/
def rivalDue : World := { (hedgedLaggard.resume firstAsleep launchDue).2 with now := 7000000 }

/-- The layer in that world. -/
def bothAsleep : hedgedLaggard.State :=
  .racing napTokens.1 ⟨0, napTokens.1, .inl (⟨napTokens.1, .ok ""⟩, 10000000)⟩
    napTokens.2 ⟨1, napTokens.2, .inl (⟨napTokens.2, .ok ""⟩, 7000000)⟩

theorem races_bothAsleep : Races hedgedSite (.ofMillis 5) (laggard.operation hedgedSite.call)
    (.named "t") beforeRace Onward Onward (.pending bothAsleep, rivalDue) := by
  obtain ⟨keeps, hop⟩ := Operation.Single.script laggard hedgedSite
  have hclock : ∀ {st w n}, Races hedgedSite (.ofMillis 5) (laggard.operation hedgedSite.call)
      (.named "t") beforeRace Onward Onward (.pending st, w) → w.now ≤ n →
      Around hedgedSite (.named "t") Onward Onward w { w with now := n } := fun hrun hn =>
    ⟨.clock (keeps_of_races hop ready_beforeRace hrun).1.sane hn, ⟨hn, Nat.le_refl _⟩, hn,
      Nat.le_refl _⟩
  have hstarts : hedgedLaggard.start (.named "t") beforeRace =
      (.pending firstAsleep, (hedgedLaggard.start (.named "t") beforeRace).2) := Prod.ext rfl rfl
  have hstart : Races hedgedSite (.ofMillis 5) (laggard.operation hedgedSite.call) (.named "t")
      beforeRace Onward Onward (hedgedLaggard.start (.named "t") beforeRace) := .refl _
  rw [hstarts] at hstart
  have hdelay := hstart.wait (hclock hstart (Nat.zero_le 5000000)) (by decide)
  have hlaunches : hedgedLaggard.resume firstAsleep launchDue =
      (.pending bothAsleep, (hedgedLaggard.resume firstAsleep launchDue).2) := Prod.ext rfl rfl
  have hlaunch := hlaunches ▸ hdelay.look
  exact hlaunch.wait (hclock hlaunch (by decide)) (by decide)

/-- The second invocation is launched after five milliseconds and wins after seven. -/
theorem hedge_race_closed_form_laggard :
    (Layer.hedge (.ofMillis 5)).fault? = none ∧
    beforeRace.Ready beforeRace.minted (.named "t") ∧
    Independent hedgedSite (.ofMillis 5) (laggard.operation hedgedSite.call) (.named "t")
      beforeRace Onward Onward (.some 10000000) (.some 7000000) (.ok "slow") (.ok "fast") ∧
    ∃ w, Races hedgedSite (.ofMillis 5) (laggard.operation hedgedSite.call) (.named "t") beforeRace
        Onward Onward (.done (.ok "fast"), w) ∧
      milestones hedgedSite w.trace = [(7000000, .won), (5000000, .begun),
        (5000000, .launched (.ofMillis 5)), (0, .begun)] ∧
      liveIn hedgedSite.call w.trace = 0 := by
  have hdelay : (Layer.hedge (.ofMillis 5)).fault? = none := by decide
  have hrun : Races hedgedSite (.ofMillis 5) (laggard.operation hedgedSite.call) (.named "t")
      beforeRace Onward Onward
      (.done (.ok "fast"), (hedgedLaggard.resume bothAsleep rivalDue).2) := races_bothAsleep.look
  refine ⟨hdelay, ready_beforeRace, independent_laggard, _, hrun, rfl, ?_⟩
  obtain ⟨barred, -, -, -, hdone, -⟩ :=
    hedge_race_closed_form laggard hdelay ready_beforeRace independent_laggard hrun
  exact (hdone _ _ rfl).2.2.2

end CallPolicy
