/-
When the retry layer makes its attempts.

In a timely run each attempt but the first starts at the very instant at which the
pause after the one before is over, so the time that the layer takes is made up of
attempts and pauses. The pauses come from the strategy: the delay for the index of the
failed attempt, clamped to the longest delay allowed.

* **`Course.started_at`** — when each attempt starts;
* **`Course.now_eq`** — the attempts and pauses add up;
* **`Course.now_le`** — and how long they can take, when each of them is limited;
* **`RetrySettings.nanos_delayAfter`**, … — the delays as numbers;
* **`Settled.retrying`** — the runs of the layer in a simulation;
* **`retry_schedule`** — all of it for a run of the layer.
-/
import CallPolicy.Proofs.BackoffOrder
import CallPolicy.Proofs.RetrySemantics
import Mathlib.Algebra.GroupWithZero.Nat

namespace CallPolicy

open Activity Operation

variable {site : Site} {s : RetrySettings} {op : Operation} {kinds : List LayerKind}
  {keeps : (CallId → Nat) → Token → op.State → World → Prop} {w w' w₀ x y : World}
  {t : Token} {timely : Prop} {left : Nat} {ts : List Trial} {e : Trial} {m : CallId → Nat}

/-! ### Delays as numbers -/

namespace RetrySettings

/-- A number of nanoseconds, or the longest delay allowed if that is shorter. -/
def clamp (s : RetrySettings) (n : Nat) : Nat := s.maxDelay.elim n fun d => min n d.nanos

theorem clamp_le (n : Nat) : s.clamp n ≤ n := by
  unfold clamp
  cases s.maxDelay with
  | none => exact Nat.le_refl n
  | some d => exact Nat.min_le_left ..

theorem clamp_le_maxDelay {d : Duration} (hd : s.maxDelay = some d) (n : Nat) :
    s.clamp n ≤ d.nanos := by
  rw [clamp, hd]
  exact Nat.min_le_right ..

/-- **The delay after an attempt** is that of the strategy, clamped. -/
theorem nanos_delayAfter (n : Nat) (draw : Float) :
    (s.delayAfter n draw).nanos = s.clamp (s.backoff.delay (n - 1) draw).nanos := by
  unfold delayAfter clamp
  cases s.maxDelay with
  | none => rfl
  | some d => exact Duration.nanos_shorter _ d

/-- The number of an attempt that may be made fits 32 bits, and so do the numbers next to
it that are computed from it. -/
theorem word_of_number {n : Nat} (hpos : 1 ≤ n) (hn : n ≤ s.maxAttempts.toNat) :
    (UInt32.ofNat (n - 1) + 1).toNat = n ∧ (UInt32.ofNat n - 1).toNat = n - 1 := by
  have hsize : s.maxAttempts.toNat < 4294967296 := s.maxAttempts.toNat_lt
  have hone : (1 : UInt32).toNat = 1 := rfl
  constructor
  · rw [UInt32.toNat_add, UInt32.toNat_ofNat', hone]
    omega
  · rw [UInt32.toNat_sub_of_le, UInt32.toNat_ofNat', hone]
    · omega
    · rw [UInt32.le_iff_toNat_le, UInt32.toNat_ofNat', hone]
      omega

/-- A linear strategy does not come to the limit of its count. -/
theorem nanos_linear {step : Duration} (hb : s.backoff = .linear step) {n : Nat} (hpos : 1 ≤ n)
    (hn : n ≤ s.maxAttempts.toNat) (draw : Float) :
    (s.delayAfter n draw).nanos = s.clamp (min (step.nanos * n) maxNanos) := by
  have hsize : s.maxAttempts.toNat < UInt32.size := s.maxAttempts.toNat_lt
  rw [nanos_delayAfter, hb]
  have hcount : min (n - 1 + 1) (UInt32.size - 1) = n := by omega
  simp only [Backoff.delay, hcount, Duration.nanos_scale]

theorem nanos_constant {base : Duration} (hb : s.backoff = .constant base) (n : Nat)
    (draw : Float) : (s.delayAfter n draw).nanos = s.clamp base.nanos := by
  rw [nanos_delayAfter, hb]
  rfl

end RetrySettings

/-- A random delay is no longer than its bound. -/
theorem RetrySettings.nanos_jitter_le {base : Duration} (hb : s.backoff = .jitter base) (n : Nat)
    (draw : Float) :
    (s.delayAfter n draw).nanos ≤ ((Backoff.exponential base).delay (n - 1) draw).nanos := by
  rw [nanos_delayAfter, hb]
  exact (s.clamp_le _).trans ((Backoff.nanos_drawBelow_le _ draw).trans (Nat.sub_le ..))

/-! ### Timers -/

/-- A number of nanoseconds, rounded up to whole milliseconds. -/
@[irreducible] def wholeMillis (n : Nat) : Nat := (n + 999999) / 1000000 * 1000000

theorem le_wholeMillis (n : Nat) : n ≤ wholeMillis n := by
  unfold wholeMillis
  omega

theorem wholeMillis_mono {n k : Nat} (h : n ≤ k) : wholeMillis n ≤ wholeMillis k := by
  unfold wholeMillis
  exact Nat.mul_le_mul_right _ (Nat.div_le_div_right (Nat.add_le_add_right h _))

theorem wholeMillis_add_le (n k : Nat) : wholeMillis (n + k) ≤ wholeMillis n + wholeMillis k := by
  unfold wholeMillis
  omega

theorem wholeMillis_idem (n : Nat) : wholeMillis (wholeMillis n) = wholeMillis n := by
  unfold wholeMillis
  omega

/-- A timer takes its length, rounded up, from the next whole millisecond on. -/
theorem World.wholeMillis_deadline_le (w : World) (d : Duration) :
    wholeMillis (w.deadline d) ≤ wholeMillis w.now + wholeMillis d.nanos := by
  have hdeadline : w.deadline d = wholeMillis (w.now + d.nanos) := by
    rw [World.deadline, wholeMillis]
  rw [hdeadline, wholeMillis_idem]
  exact wholeMillis_add_le ..

theorem World.wholeMillis_wakeTime_le (w : World) (d : Duration) :
    wholeMillis (w.wakeTime d) ≤ wholeMillis w.now + wholeMillis d.nanos := by
  refine (w.wholeMillis_deadline_le _).trans (Nat.add_le_add_left (wholeMillis_mono ?_) _)
  rw [Duration.nanos_shorter]
  exact Nat.min_le_left ..

/-! ### The course in time -/

namespace Trial

/-- How long the attempt took. -/
def lasted (e : Trial) : Nat := e.ended.now - e.started.now

/-- How long the pause after it takes: until the timer fires that is set when it ends. -/
def paused (e : Trial) : Nat := e.wakeAt - e.ended.now

/-- The instant at which the attempt after some trials is due. -/
def dueAt (w₀ : World) : List Trial → Nat
  | [] => w₀.now
  | e :: _ => e.wakeAt

end Trial

/-- An activity ends no earlier than it starts. -/
theorem Activity.Docile.le_now_of_lives {ο : Type} {a : Activity Token ο} {id : CallId}
    {keeps : (CallId → Nat) → Token → a.State → World → Prop} {out : Status a.State ο × World}
    (hd : a.Attends id kinds keeps) (hw₀ : w₀.Ready w₀.minted t)
    (h : a.Lives id timely t w₀ out) : w₀.now ≤ out.2.now := by
  induction h with
  | start => exact (hd.start hw₀).confined.now.ge
  | wait _ hw _ ih => exact ih.trans hw.now
  | resume hl ih => exact ih.trans (hd.confined_of_lives hw₀ hl).1.now.ge

/-- In a timely run an attempt starts when it is due. -/
theorem Starts.now_eq (h : Starts site True t ts x y) (hx : ts = [] → x = w₀) :
    y.now = Trial.dueAt w₀ ts := by
  cases ts with
  | nil => rw [show y = x from h, hx rfl, Trial.dueAt]
  | cons e ts => exact h.2.2 trivial

namespace Course

/-- Without trials the layer stands where it started. -/
theorem eq_of_nil (h : Course site s op timely t w₀ ts x) (hts : ts = []) : x = w₀ := by
  cases h with
  | start => rfl
  | again => cases hts

/-- **Every attempt starts** when the pause after the one before it is over. -/
theorem started_at (h : Course site s op True t w₀ ts x) :
    ∀ newer e older, ts = newer ++ e :: older → e.started.now = Trial.dueAt w₀ older := by
  induction h with
  | start =>
    intro newer e older heq
    exact absurd heq.symm (List.append_ne_nil_of_right_ne_nil _ (List.cons_ne_nil _ _))
  | again h made _ _ _ ih =>
    intro newer e older heq
    cases newer with
    | nil =>
      cases heq
      exact made.starts.now_eq h.eq_of_nil
    | cons e' newer =>
      cases heq
      exact ih newer e older rfl

/-- Every trial has a number, and a delay of the strategy after it. -/
theorem pauses (h : Course site s op timely t w₀ ts x) :
    ∀ e ∈ ts, 1 ≤ e.number ∧ e.number ≤ ts.length ∧
      ∃ draw, e.pause = s.delayAfter e.number draw := by
  induction h with
  | start => exact List.forall_mem_nil _
  | again h made _ _ delay ih =>
    refine List.forall_mem_cons.mpr ⟨⟨?_, ?_, delay⟩, fun e he => ?_⟩
    · rw [made.number]
      exact Nat.succ_pos _
    · rw [made.number]
      exact Nat.le_refl _
    · obtain ⟨hpos, hle, hdelay⟩ := ih e he
      exact ⟨hpos, hle.trans (Nat.le_succ _), hdelay⟩

variable (hd : op.Attends site.call kinds keeps) (hw₀ : w₀.Ready w₀.minted t)

include hd hw₀

/-- **The attempts and pauses add up** to the time that has passed. -/
theorem now_eq (h : Course site s op True t w₀ ts x) :
    Trial.dueAt w₀ ts = w₀.now + (ts.map Trial.lasted).sum + (ts.map Trial.paused).sum := by
  induction h with
  | start => rfl
  | @again ts x x' e h made _ _ _ ih =>
    have hstarted := made.starts.now_eq h.eq_of_nil
    have hended : e.started.now ≤ e.ended.now :=
      (hd.attempt s).le_now_of_lives (made.starts.ready (h.ready hd hw₀)).later made.lives
    have hpaused : e.ended.now ≤ e.wakeAt := e.ended.now_le_wakeTime e.pause
    simp only [List.map_cons, List.sum_cons, Trial.lasted, Trial.paused]
    rw [Trial.dueAt]
    omega

end Course

/-! ### Attempts and pauses that are limited -/

/-- In a timely run an attempt with a deadline does not go beyond it. -/
theorem Operation.attempt_now_le {p : Duration}
    {out : Status (attempt site s op).State (Option Result) × World}
    (hp : s.attemptTimeout = some p) (hd : op.Attends site.call kinds keeps)
    (hy : y.Ready y.minted t) (h : (attempt site s op).Lives site.call True t y out) :
    out.2.now ≤ y.deadline p := by
  obtain ⟨maxAttempts, backoff, maxDelay, attemptTimeout, retryIf⟩ := s
  obtain rfl : attemptTimeout = some p := hp
  refine (hd.within p).now_le_of_lives hy (y.now_le_deadline p) (fun st w hl => ?_) h
  cases hl.of_within with
  | pending => exact List.mem_cons_self

section

variable {p d : Duration} (hp : s.attemptTimeout = some p)
  (hd : op.Attends site.call kinds keeps) (hw₀ : w₀.Ready w₀.minted t)

include hp hd hw₀

/-- The attempt after some trials takes no longer than its deadline, rounded up. -/
theorem Course.attempt_le (h : Course site s op True t w₀ ts x)
    (hstarts : Starts site True t ts x y)
    {out : Status (attempt site s op).State (Option Result) × World}
    (hlives : (attempt site s op).Lives site.call True t y out) :
    wholeMillis out.2.now ≤ wholeMillis (Trial.dueAt w₀ ts) + wholeMillis p.nanos := by
  have hy : y.Ready y.minted t := (hstarts.ready (h.ready hd hw₀)).later
  refine (wholeMillis_mono (attempt_now_le hp hd hy hlives)).trans ?_
  rw [← hstarts.now_eq h.eq_of_nil]
  exact y.wholeMillis_deadline_le p

/-- **Attempts and pauses that are limited** are over in time. -/
theorem Course.dueAt_le (hmax : s.maxDelay = some d) (h : Course site s op True t w₀ ts x) :
    wholeMillis (Trial.dueAt w₀ ts) ≤
      wholeMillis w₀.now + ts.length * wholeMillis p.nanos + ts.length * wholeMillis d.nanos := by
  -- timers fire at whole milliseconds, so a bound without rounding would not be preserved
  induction h with
  | start =>
    rw [Trial.dueAt, Nat.add_assoc]
    exact Nat.le_add_right ..
  | @again ts x x' e h made _ _ delay ih =>
    have hattempt := h.attempt_le hp hd hw₀ made.starts made.lives
    dsimp only at hattempt
    have hpause : wholeMillis e.wakeAt ≤ wholeMillis e.ended.now + wholeMillis d.nanos := by
      refine (e.ended.wholeMillis_wakeTime_le e.pause).trans
        (Nat.add_le_add_left (wholeMillis_mono ?_) _)
      obtain ⟨draw, hdraw⟩ := delay
      rw [hdraw, RetrySettings.nanos_delayAfter]
      exact RetrySettings.clamp_le_maxDelay hmax _
    rw [Trial.dueAt, List.length_cons, Nat.succ_mul, Nat.succ_mul]
    omega

/-- All that the layer does is over in time: what is no later than the deadline of the
attempt after some trials is no later than those of all attempts and pauses together. -/
theorem Course.le_limit (hmax : s.maxDelay = some d) (h : Course site s op True t w₀ ts x)
    (hlen : ts.length < s.maxAttempts.toNat) {n : Nat}
    (hn : wholeMillis n ≤ wholeMillis (Trial.dueAt w₀ ts) + wholeMillis p.nanos) :
    n ≤ wholeMillis w₀.now + s.maxAttempts.toNat * wholeMillis p.nanos +
      (s.maxAttempts.toNat - 1) * wholeMillis d.nanos := by
  have hdue := h.dueAt_le hp hd hw₀ hmax
  have hattempts :
      (ts.length + 1) * wholeMillis p.nanos ≤ s.maxAttempts.toNat * wholeMillis p.nanos :=
    Nat.mul_le_mul_right _ hlen
  have hpauses : ts.length * wholeMillis d.nanos ≤
      (s.maxAttempts.toNat - 1) * wholeMillis d.nanos :=
    Nat.mul_le_mul_right _ (Nat.le_sub_one_of_lt hlen)
  have hwhole := le_wholeMillis n
  rw [Nat.succ_mul] at hattempts
  omega

end

/-! ### The schedule -/

/-- **A call in a simulation that has settled** leads a timely life as its retry layer does, if
that is the outermost one, and no pause is over yet. -/
theorem Simulation.Settled.retrying {S : Simulation} {r : Running} {chance : Chance}
    {inner : List Layer} (h : S.Settled chance) (hr : r ∈ S.running)
    (hlayers : r.call.policy.layers = .retry s :: inner) :
    let site : Site := ⟨r.call.policy.origin, r.call.id⟩
    let layer := withRetry site s (stack site inner (r.call.script.operation r.call.id))
    ∃ w₁ st, w₁.Awaits r.call.id r.call.token ∧
      layer.Lives r.call.id True r.call.token w₁ (.pending st, S.world) ∧
      ∀ d ∈ layer.deadlines st, S.world.now < d := by
  obtain ⟨⟨w₁, hw₁, hl⟩, hdue⟩ := h.lives hr
  obtain ⟨⟨id, ⟨origin, layers, _, _, _, _⟩, script, t⟩, st⟩ := r
  obtain rfl : layers = .retry s :: inner := hlayers
  exact ⟨w₁, st, hw₁, hl, hdue⟩

/-- **The schedule of the retry layer**, in a timely run under a token that is live so far.
Trials with pauses of the strategy have been made, each begun when it was due: the first one
at once, and each of the others at the instant of the timer that was set when the one before
it ended, for the delay of that one. The attempt under way was begun like this, or a timer is
set and when it fires the next attempt starts. When the layer has ended, the attempts and the
timers add up to the time that it took. If each attempt has a deadline and there is a longest
delay, then it never takes longer than `maxAttempts` deadlines and one longest delay less,
each rounded up to whole milliseconds. A simulation that is driven step by step is such a run
for a call whose outermost layer this is.

No number of an attempt overflows 32 bits when it is counted up to, or underflows when
it is made an index. The delay after attempt number `n` is that of the strategy for the
index `n - 1`, clamped: the same for a constant one, `n` steps for a linear one unless they
saturate, and no more than that of the exponential strategy for a random one. -/
theorem retry_schedule (hs : (Layer.retry s).fault? = none)
    (hd : op.Attends site.call kinds keeps) (hw₀ : w₀.Ready w₀.minted t) :
    (∀ out, (withRetry site s op).Lives site.call True t w₀ out → out.2.isCancelled t = false →
      ∃ ts x, Course site s op True t w₀ ts x ∧ ts.length < s.maxAttempts.toNat ∧
        (∀ e ∈ ts, 1 ≤ e.number ∧ e.number ≤ ts.length ∧
          ∃ draw, e.pause = s.delayAfter e.number draw) ∧
        (∀ newer e older, ts = newer ++ e :: older → e.started.now = Trial.dueAt w₀ older) ∧
        (∀ st w, out = (.pending st, w) →
          (∃ y left inner, y.now = Trial.dueAt w₀ ts ∧ st = .trying t left inner ∧
            (attempt site s op).Lives site.call True t y (.pending inner, w)) ∨
          ∃ left, ts ≠ [] ∧ st = .waiting t left (Trial.dueAt w₀ ts) ∧
            w.now ≤ Trial.dueAt w₀ ts ∧ (withRetry site s op).resume st w =
              if w.now = Trial.dueAt w₀ ts then
                proceed site s t left ((attempt site s op).start t w)
              else (.pending st, w)) ∧
        (∀ r w, out = (.done r, w) → ∃ e : Trial, e.Made site s op True t ts x ∧
          e.started.now = Trial.dueAt w₀ ts ∧ w.now = e.ended.now ∧
          w.now = w₀.now + ((e :: ts).map Trial.lasted).sum + (ts.map Trial.paused).sum) ∧
        ∀ p d, s.attemptTimeout = some p → s.maxDelay = some d →
          out.2.now ≤ wholeMillis w₀.now + s.maxAttempts.toNat * wholeMillis p.nanos +
            (s.maxAttempts.toNat - 1) * wholeMillis d.nanos) ∧
    (∀ {chance S inner} {r : Running}, Simulation.Driven chance S → r ∈ S.running →
      r.call.policy.layers = .retry s :: inner →
      let site : Site := ⟨r.call.policy.origin, r.call.id⟩
      let layer := withRetry site s (stack site inner (r.call.script.operation r.call.id))
      ∃ w₁ st, w₁.Awaits r.call.id r.call.token ∧
        layer.Lives r.call.id True r.call.token w₁ (.pending st, S.world) ∧
        ∀ d ∈ layer.deadlines st, S.world.now < d) ∧
    ∀ n, 1 ≤ n → n ≤ s.maxAttempts.toNat →
      (UInt32.ofNat (n - 1) + 1).toNat = n ∧ (UInt32.ofNat n - 1).toNat = n - 1 ∧
      ∀ draw, (s.delayAfter n draw).nanos = s.clamp (s.backoff.delay (n - 1) draw).nanos ∧
        (∀ base, s.backoff = .constant base →
          (s.delayAfter n draw).nanos = s.clamp base.nanos) ∧
        (∀ step, s.backoff = .linear step →
          (s.delayAfter n draw).nanos = s.clamp (min (step.nanos * n) maxNanos)) ∧
        (∀ base, s.backoff = .jitter base → (s.delayAfter n draw).nanos ≤
          ((Backoff.exponential base).delay (n - 1) draw).nanos) ∧
        ∀ d, s.maxDelay = some d → (s.delayAfter n draw).nanos ≤ d.nanos := by
  have hpos := RetrySettings.attempts_pos hs
  refine ⟨fun out hlives hlive => ?_, fun hS hr hlayers => hS.settled.retrying hr hlayers,
    fun n hn hle => ?_⟩
  -- the course of the layer says when each trial began, so only its end is to be timed
  · cases progress_of_lives hd hw₀ hpos hlives hlive with
    | @trying ts x y w left inner h starts lives count =>
      have hlen : ts.length < s.maxAttempts.toNat := by omega
      refine ⟨ts, x, h, hlen, h.pauses, h.started_at, ?_, nofun, fun p d hp hmax => ?_⟩
      · intro st w' heq
        cases heq
        exact .inl ⟨y, left, inner, starts.now_eq h.eq_of_nil, rfl, lives⟩
      · exact h.le_limit hp hd hw₀ hmax hlen (h.attempt_le hp hd hw₀ starts lives)
    -- the timer was set when the last trial ended
    | @waiting ts x w left e h meanwhile early count =>
      have hlen : (e :: ts).length < s.maxAttempts.toNat := by omega
      refine ⟨e :: ts, x, h, hlen, h.pauses, h.started_at, ?_, nofun, fun p d hp hmax => ?_⟩
      · intro st w' heq
        cases heq
        refine .inr ⟨left, List.cons_ne_nil _ _, rfl, early trivial, ?_⟩
        rw [withRetry_resume_waiting hlive]
        exact if_congr ⟨Nat.le_antisymm (early trivial), Nat.le_of_eq ∘ Eq.symm⟩ rfl rfl
      · refine h.le_limit hp hd hw₀ hmax hlen ?_
        exact (wholeMillis_mono (early trivial)).trans (Nat.le_add_right ..)
    -- one more trial than those that were repeated
    | @done ts x w e h made last tells count =>
      have hlen : ts.length < s.maxAttempts.toNat := by
        rw [made.number] at count
        exact count
      refine ⟨ts, x, h, hlen, h.pauses, h.started_at, nofun, ?_, fun p d hp hmax => ?_⟩
      · intro r w' heq
        cases heq
        -- what is told after the last attempt takes no time
        have hnow := tells.confined.now
        have hdue := made.starts.now_eq h.eq_of_nil
        have hended : e.started.now ≤ e.ended.now :=
          (hd.attempt s).le_now_of_lives (made.starts.ready (h.ready hd hw₀)).later made.lives
        refine ⟨e, made, hdue, hnow, ?_⟩
        rw [h.now_eq hd hw₀] at hdue
        rw [List.map_cons, List.sum_cons, Trial.lasted]
        omega
      · refine h.le_limit hp hd hw₀ hmax hlen ?_
        have hattempt := h.attempt_le hp hd hw₀ made.starts made.lives
        dsimp only at hattempt ⊢
        rw [tells.confined.now]
        exact hattempt
    | @panicked ts x y w text h starts lives count =>
      refine ⟨ts, x, h, count, h.pauses, h.started_at, nofun, nofun, fun p d hp hmax => ?_⟩
      exact h.le_limit hp hd hw₀ hmax count (h.attempt_le hp hd hw₀ starts lives)
  -- numbers up to the limit fit into a word, and so do the indices below them
  · obtain ⟨hup, hdown⟩ := RetrySettings.word_of_number hn hle
    refine ⟨hup, hdown, fun draw => ⟨RetrySettings.nanos_delayAfter n draw, ?_, ?_, ?_, ?_⟩⟩
    · exact fun base hb => RetrySettings.nanos_constant hb n draw
    · exact fun step hb => RetrySettings.nanos_linear hb hn hle draw
    · exact fun base hb => RetrySettings.nanos_jitter_le hb n draw
    · intro d hmax
      rw [RetrySettings.nanos_delayAfter]
      exact RetrySettings.clamp_le_maxDelay hmax _

/-- Two attempts and the pause between them take fifteen milliseconds; forty would be
allowed. -/
theorem retry_schedule_late :
    (Layer.retry threefold).fault? = none ∧
    beforeTrying.Ready beforeTrying.minted (.named "t") ∧
    ∃ w, tryingLate.Lives plainSite.call True (.named "t") beforeTrying (.done (.ok "v"), w) ∧
      w.isCancelled (.named "t") = false ∧ w.now = 15000000 ∧ w.now ≤ 40000000 ∧
      ∃ e ts, w.now = ((e :: ts).map Trial.lasted).sum + (ts.map Trial.paused).sum := by
  obtain ⟨keeps, hd⟩ := Script.docile [[.hang], [.give (.ok "v")]] plainSite.call
  have hs : (Layer.retry threefold).fault? = none := by decide
  have hl : tryingLate.Lives plainSite.call True (.named "t") beforeTrying
      (.done (.ok "v"), (tryingLate.resume firstPausing pauseOver).2) := lives_tryingLate.resume
  have hlive : (tryingLate.resume firstPausing pauseOver).2.isCancelled (.named "t") = false := rfl
  obtain ⟨ts, x, -, -, -, -, -, hdone, hlimit⟩ :=
    (retry_schedule hs hd ready_beforeTrying).1 _ hl hlive
  obtain ⟨e, -, -, -, hsum⟩ := hdone _ _ rfl
  refine ⟨hs, ready_beforeTrying, _, hl, hlive, rfl, ?_, e, ts, ?_⟩
  · refine (hlimit (.ofMillis 10) (.ofMillis 5) rfl rfl).trans ?_
    unfold wholeMillis
    decide
  · exact hsum.trans (by rw [show beforeTrying.now = 0 from rfl, Nat.zero_add])

end CallPolicy
