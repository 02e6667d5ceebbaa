/-
What the retry layer makes of the results of its attempts.

Under a live token the layer makes its attempts one after the other and stops at the
first one that is the last by `RetrySettings.isLast`: it has a value, its failure is
permanent, the policy's own condition speaks against it, or no attempt is left. What
it ends with is the `RetrySettings.verdict` on that result.

* **`Course.isLeast`** — the last attempt is the first one that can be;
* **`Operation.endless_attempt`** — the layer goes on for ever only if an attempt does;
* **`retry_reference_semantics`** — the whole of it, with what is told on the way.
-/
import CallPolicy.Proofs.RetryCourse
import Mathlib.Order.Bounds.Basic
import Mathlib.Order.WellFounded

namespace CallPolicy

open Activity Operation

variable {site : Site} {s : RetrySettings} {op : Operation} {kinds : List LayerKind}
  {keeps : (CallId → Nat) → Token → op.State → World → Prop} {w w' w₀ x : World}
  {t : Token} {timely : Prop} {left : Nat} {ts : List Trial} {e : Trial}

/-! ### The last attempt -/

/-- **The last attempt is the first one that can be**, whatever would have come of others. -/
theorem Course.isLeast (h : Course site s op timely t w₀ ts x)
    (hnumber : e.number = ts.length + 1) (hlast : s.isLast e.number e.result = true)
    {rs : Nat → Result} (hrs : ∀ e' ∈ e :: ts, rs e'.number = e'.result) :
    IsLeast {n | 1 ≤ n ∧ s.isLast n (rs n) = true} e.number := by
  refine ⟨⟨by omega, ?_⟩, ?_⟩
  · rw [hrs e List.mem_cons_self]
    exact hlast
  · rintro n ⟨hpos, hn⟩
    by_contra hlt
    -- then it is the number of a trial
    have hmem : n ∈ ts.map Trial.number := by
      rw [h.numbers, List.mem_reverse, List.mem_range'_1]
      omega
    obtain ⟨e', he', rfl⟩ := List.mem_map.mp hmem
    rw [hrs e' (List.mem_cons_of_mem _ he'), h.goesOn e' he'] at hn
    cases hn

/-- A failure is either transient or permanent. -/
theorem Failure.isPermanent_eq_not (f : Failure) : f.isPermanent = !f.isTransient := by
  unfold isPermanent isTransient
  cases f.tag <;> rfl

/-- If the layer wraps a failure, it was that of the last attempt of all and could have
been repeated. -/
theorem RetrySettings.verdict_eq_exhausted {r : Result} {n k : Nat} {f : Failure}
    (h : s.verdict r = .error (.exhausted n f)) (hne : s.verdict r ≠ r)
    (hlast : s.isLast k r = true) : r = .error f ∧ n = s.maxAttempts.toNat ∧
      k = s.maxAttempts.toNat ∧ f.isTransient = true ∧ s.wants f = true := by
  cases r with
  | ok v => cases h
  | error g =>
    simp only [verdict] at h hne
    simp only [isLast] at hlast
    split at h
    next hstop => exact absurd (if_pos hstop) hne
    next hgoes =>
      cases h
      rw [Bool.not_eq_true] at hgoes
      rw [hgoes, Bool.false_or] at hlast
      simp only [Failure.isPermanent_eq_not, Bool.or_eq_false_iff, Bool.not_eq_false'] at hgoes
      exact ⟨rfl, rfl, of_decide_eq_true hlast, hgoes⟩

/-! ### Going on for ever -/

/-- The activity is looked at again and again, at ever later instants and under a live
token, and never ends. -/
def Activity.Endless {ο : Type} (a : Activity Token ο) (id : CallId) (t : Token) (w₀ : World) :
    Prop :=
  ∃ (st : Nat → a.State) (w : Nat → World), a.Lives id False t w₀ (.pending (st 0), w 0) ∧
    (∀ i, ∃ w', (w i).Meanwhile id t w' ∧ a.resume (st i) w' = (.pending (st (i + 1)), w (i + 1))) ∧
    (∀ T, ∃ i, T ≤ (w i).now) ∧ ∀ i, (w i).isCancelled t = false

/-- How far the layer is from its end, at most. -/
def Operation.RetryState.distance {σ : Type} : RetryState σ → Nat
  | .trying _ left _ => 2 * left
  | .waiting _ left _ => 2 * left + 1

/-- An attempt that is looked at goes on, or the layer comes nearer to its end. -/
theorem Operation.proceed_pending {out : Status (attempt site s op).State (Option Result) × World}
    {st : RetryState (attempt site s op).State} (h : proceed site s t left out = (.pending st, w)) :
    (∃ inner, out = (.pending inner, w) ∧ st = .trying t left inner) ∨ st.distance < 2 * left := by
  fun_induction Operation.proceed site s t left out
  case case1 left inner w' =>
    cases h
    exact .inl ⟨inner, rfl, rfl⟩
  case case7 ih =>
    rcases ih h with ⟨inner, -, rfl⟩ | hlt
    · exact .inr (by simp only [RetryState.distance]; omega)
    · exact .inr (by omega)
  case case8 =>
    cases h
    exact .inr (by simp only [RetryState.distance]; omega)
  all_goals cases h

/-- A pause that is looked at goes on until it is over, and then the layer comes nearer to
its end. -/
theorem Operation.withRetry_resume_waiting_pending {wakeAt : Nat}
    {st : RetryState (attempt site s op).State} (hlive : w.isCancelled t = false)
    (h : (withRetry site s op).resume (.waiting t left wakeAt) w = (.pending st, w')) :
    st = .waiting t left wakeAt ∧ w.now < wakeAt ∨ st.distance < 2 * left + 1 := by
  rw [withRetry_resume_waiting hlive] at h
  split at h
  · right
    rcases proceed_pending h with ⟨inner, -, rfl⟩ | hlt
    · exact Nat.lt_succ_self _
    · exact Nat.lt_succ_of_lt hlt
  next hearly =>
    cases h
    exact .inl ⟨rfl, Nat.lt_of_not_le hearly⟩

/-- The looks at an activity that never ends: its states, and the worlds that they leave. -/
structure Activity.Looks {ο : Type} (a : Activity Token ο) (id : CallId) (t : Token)
    (st : Nat → a.State) (w : Nat → World) : Prop where
  look : ∀ i, ∃ w', (w i).Meanwhile id t w' ∧ w'.isCancelled t = false ∧
    w'.now = (w (i + 1)).now ∧ a.resume (st i) w' = (.pending (st (i + 1)), w (i + 1))
  late : ∀ i T, ∃ j, T ≤ (w (i + j)).now
  live : ∀ i, (w i).isCancelled t = false

/-- What goes on for ever is looked at like this, all its life. -/
theorem Activity.Docile.looks_of_endless {ο : Type} {a : Activity Token ο} {id : CallId}
    {keeps : (CallId → Nat) → Token → a.State → World → Prop} (hd : a.Attends id kinds keeps)
    (hw₀ : w₀.Ready w₀.minted t) (h : a.Endless id t w₀) :
    ∃ st w, a.Looks id t st w ∧ ∀ i, a.Lives id False t w₀ (.pending (st i), w i) := by
  obtain ⟨st, w, hfirst, hstep, htime, hlive⟩ := h
  have hlives : ∀ i, a.Lives id False t w₀ (.pending (st i), w i) := by
    intro i
    induction i with
    | zero => exact hfirst
    | succ i ih =>
      obtain ⟨w', hw, hresume⟩ := hstep i
      rw [← hresume]
      exact (ih.wait hw nofun).resume
  have hlook : ∀ i, ∃ w', (w i).Meanwhile id t w' ∧ w'.isCancelled t = false ∧
      w'.now = (w (i + 1)).now ∧ a.resume (st i) w' = (.pending (st (i + 1)), w (i + 1)) := by
    intro i
    obtain ⟨w', hw, hresume⟩ := hstep i
    have hconfined := (hd.confined_of_lives hw₀ ((hlives i).wait hw nofun)).1
    rw [hresume] at hconfined
    exact ⟨w', hw, hconfined.live (hlive _), hconfined.now.symm, hresume⟩
  have hmono : Monotone fun i => (w i).now := by
    refine monotone_nat_of_le_succ fun i => ?_
    obtain ⟨w', hw, -, hnow, -⟩ := hlook i
    exact hw.now.trans_eq hnow
  refine ⟨st, w, ⟨hlook, fun i T => ?_, hlive⟩, hlives⟩
  obtain ⟨j, hj⟩ := htime T
  exact ⟨j, hj.trans (hmono (Nat.le_add_left j i))⟩

section

variable {st : Nat → (withRetry site s op).State} {w : Nat → World} {i : Nat}

/-- An attempt that the layer never gets beyond goes on for ever. -/
theorem Operation.endless_of_trying {inner : (attempt site s op).State}
    (h : (withRetry site s op).Looks site.call t st w) (hi : st i = .trying t left inner)
    (hleast : ∀ k, 2 * left ≤ (st k).distance)
    (hlives : (attempt site s op).Lives site.call False t x (.pending inner, w i)) :
    (attempt site s op).Endless site.call t x := by
  -- the layer stays with the attempt, or it would come nearer to its end
  have hnext : ∀ j, ∃ inner, st (i + j) = .trying t left inner := by
    intro j
    induction j with
    | zero => exact ⟨inner, hi⟩
    | succ j ih =>
      obtain ⟨inner, hinner⟩ := ih
      obtain ⟨w', -, -, -, hresume⟩ := h.look (i + j)
      rw [hinner] at hresume
      rcases proceed_pending hresume with ⟨inner', -, heq⟩ | hlt
      · exact ⟨inner', heq⟩
      · exact absurd hlt (Nat.not_lt.mpr (hleast _))
  choose inners hinners using hnext
  refine ⟨inners, fun j => w (i + j), ?_, fun j => ?_, h.late i, fun j => h.live _⟩
  · have hzero := (hinners 0).symm.trans hi
    cases hzero
    exact hlives
  · obtain ⟨w', hw, -, -, hresume⟩ := h.look (i + j)
    rw [hinners j] at hresume
    refine ⟨w', hw, ?_⟩
    rcases proceed_pending hresume with ⟨inner', hattempt, heq⟩ | hlt
    · have hsame := (hinners (j + 1)).symm.trans heq
      cases hsame
      exact hattempt
    · exact absurd hlt (Nat.not_lt.mpr (hleast _))

/-- The layer gets beyond every pause. -/
theorem Operation.exists_distance_lt_of_waiting {wakeAt : Nat}
    (h : (withRetry site s op).Looks site.call t st w) (hi : st i = .waiting t left wakeAt) :
    ∃ k, (st k).distance < 2 * left + 1 := by
  by_contra hleast
  -- every look but the first one has come before the pause is over
  have hnext : ∀ j, st (i + j) = .waiting t left wakeAt ∧ ((w (i + j)).now < wakeAt ∨ j = 0) := by
    intro j
    induction j with
    | zero => exact ⟨hi, .inr rfl⟩
    | succ j ih =>
      obtain ⟨w', -, hlive', hnow, hresume⟩ := h.look (i + j)
      rw [ih.1] at hresume
      rcases withRetry_resume_waiting_pending hlive' hresume with ⟨heq, hearly⟩ | hlt
      · exact ⟨heq, .inl (hnow ▸ hearly)⟩
      · exact absurd ⟨_, hlt⟩ hleast
  obtain ⟨j, hj⟩ := h.late (i + 1) wakeAt
  rw [Nat.add_assoc, Nat.add_comm 1] at hj
  rcases (hnext (j + 1)).2 with hearly | hzero
  · exact absurd hj (Nat.not_le.mpr hearly)
  · cases hzero

end

/-- **The layer goes on for ever** only if one of its attempts does. -/
theorem Operation.endless_attempt (hd : op.Attends site.call kinds keeps)
    (hw₀ : w₀.Ready w₀.minted t) (hs : 0 < s.maxAttempts.toNat)
    (h : (withRetry site s op).Endless site.call t w₀) :
    ∃ ts x y, Course site s op False t w₀ ts x ∧ Starts site False t ts x y ∧
      (attempt site s op).Endless site.call t y := by
  have hlayer := Docile.withRetry s List.mem_cons_self
    (hd.attends_mono (List.subset_cons_self .retry kinds))
  obtain ⟨st, w, hlooks, hlives⟩ := hlayer.looks_of_endless hw₀ h
  -- the layer stays at the least distance that it comes to
  obtain ⟨N, -, hleast⟩ := (measure fun i => (st i).distance).wf.has_min Set.univ ⟨0, trivial⟩
  have hleast : ∀ i, (st N).distance ≤ (st i).distance := fun i => Nat.not_lt.mp (hleast i trivial)
  have hprogress := progress_of_lives hd hw₀ hs (hlives N) (hlooks.live N)
  generalize hN : st N = state at hprogress hleast
  cases hprogress with
  | @trying ts x y _ left inner hcourse starts lives _ =>
    exact ⟨ts, x, y, hcourse, starts, endless_of_trying hlooks hN hleast lives⟩
  | waiting =>
    obtain ⟨k, hk⟩ := exists_distance_lt_of_waiting hlooks hN
    exact absurd hk (Nat.not_lt.mpr (hleast k))

/-! ### The reference semantics -/

/-- Layers inside the retry layer are of other kinds. -/
theorem LayerKind.not_mem_of_position_le {k : LayerKind}
    (hk : k.position ≤ LayerKind.retry.position)
    (h : ∀ l ∈ kinds, LayerKind.retry.position < l.position) : k ∉ kinds :=
  fun hmem => Nat.not_lt.mpr hk (h k hmem)

/-- **The retry layer does as its settings say.** Let accepted settings `s` govern what is
around an operation with layers of later kinds, and let the token be live so far.

Then some trials have been made, numbered from one on, and none of them was the last
attempt by `RetrySettings.isLast`. If the layer has ended, there has been one more attempt,
and it is the last one: in any sequence of results that begins with those of the
attempts it is the least number at which there can be no other attempt. The layer ends
with the verdict on its result; it wraps a failure only if the failure is transient, met the
policy's own condition, and came from attempt number `maxAttempts`. If the layer has not
ended, an attempt or a pause is under way, and if it has panicked, so has an attempt.

The retry layer tells in order what `RetrySettings.records` says of each attempt that has
ended, and nothing else, and a deadline of the whole call is never told of.

The layer goes on for ever only if an attempt does. -/
theorem retry_reference_semantics (hs : (Layer.retry s).fault? = none)
    (hd : op.Attends site.call kinds keeps)
    (hk : ∀ k ∈ kinds, LayerKind.retry.position < k.position) (hw₀ : w₀.Ready w₀.minted t) :
    (∀ out, (withRetry site s op).Lives site.call timely t w₀ out →
      out.2.isCancelled t = false → ∃ ts x, Course site s op timely t w₀ ts x ∧
        toldBy site.call .timeout out.2.trace = toldBy site.call .timeout w₀.trace ∧
        (∀ r w, out = (.done r, w) → ∃ e : Trial, e.Made site s op timely t ts x ∧
          (∀ rs : Nat → Result, (∀ e' ∈ e :: ts, rs e'.number = e'.result) →
            IsLeast {n | 1 ≤ n ∧ s.isLast n (rs n) = true} e.number) ∧
          r = s.verdict e.result ∧
          (∀ n f, r = .error (.exhausted n f) → r ≠ e.result →
            e.result = .error f ∧ n = s.maxAttempts.toNat ∧ e.number = s.maxAttempts.toNat ∧
              f.isTransient = true ∧ s.wants f = true) ∧
          toldBy site.call .retry w.trace =
            (e :: ts).flatMap (Trial.entries site s) ++ toldBy site.call .retry w₀.trace) ∧
        (∀ st w, out = (.pending st, w) →
          toldBy site.call .retry w.trace =
            ts.flatMap (Trial.entries site s) ++ toldBy site.call .retry w₀.trace ∧
          ((∃ y left inner, Starts site timely t ts x y ∧ st = .trying t left inner ∧
              (attempt site s op).Lives site.call timely t y (.pending inner, w)) ∨
            ∃ e rest left, ts = e :: rest ∧ st = .waiting t left e.wakeAt ∧
              x.Meanwhile site.call t w)) ∧
        ∀ text w, out = (.panicked text, w) → ∃ y, Starts site timely t ts x y ∧
          (attempt site s op).Lives site.call timely t y (.panicked text, w)) ∧
    ((withRetry site s op).Endless site.call t w₀ →
      ∃ ts x y, Course site s op False t w₀ ts x ∧ Starts site False t ts x y ∧
        (attempt site s op).Endless site.call t y) := by
  have hpos := RetrySettings.attempts_pos hs
  have hretry := LayerKind.not_mem_of_position_le (Nat.le_refl _) hk
  have htimeout := LayerKind.not_mem_of_position_le (k := .timeout) (by decide) hk
  refine ⟨fun out hlives hlive => ?_, endless_attempt hd hw₀ hpos⟩
  -- the trials are those of the course, and each case says what was told since the last one
  cases progress_of_lives hd hw₀ hpos hlives hlive with
  | trying h starts lives count =>
    have hx := h.ready hd hw₀
    refine ⟨_, _, h, ?_, nofun, ?_, nofun⟩
    · exact (starts.toldBy_of_lives hd hx htimeout lives).trans
        (h.toldBy_eq hd hw₀ htimeout (by decide))
    · intro st w heq
      cases heq
      refine ⟨?_, .inl ⟨_, _, _, starts, rfl, lives⟩⟩
      exact (starts.toldBy_of_lives hd hx hretry lives).trans (h.toldBy_retry hd hw₀ hretry)
  -- in a pause only others do anything
  | waiting h meanwhile early count =>
    refine ⟨_, _, h, ?_, nofun, ?_, nofun⟩
    · exact meanwhile.toldBy_eq.trans (h.toldBy_eq hd hw₀ htimeout (by decide))
    · intro st w heq
      cases heq
      refine ⟨?_, .inr ⟨_, _, _, rfl, rfl, meanwhile⟩⟩
      exact meanwhile.toldBy_eq.trans (h.toldBy_retry hd hw₀ hretry)
  | @done ts x w e h made last tells count =>
    have hx := h.ready hd hw₀
    refine ⟨ts, x, h, ?_, ?_, nofun, nofun⟩
    · rw [tells.toldBy_eq (by decide), made.toldBy_eq hd hx htimeout,
        h.toldBy_eq hd hw₀ htimeout (by decide)]
    · intro r w' heq
      cases heq
      -- the last trial is the first one that may be the last
      refine ⟨e, made, fun rs hrs => h.isLeast made.number last hrs, rfl, ?_, ?_⟩
      · exact fun n f heq hne => RetrySettings.verdict_eq_exhausted heq hne last
      · rw [tells.toldBy_retry, made.toldBy_eq hd hx hretry, h.toldBy_retry hd hw₀ hretry,
          List.flatMap_cons, List.append_assoc]
        rfl
  | panicked h starts lives _ =>
    refine ⟨_, _, h, ?_, nofun, nofun, ?_⟩
    · exact (starts.toldBy_of_lives hd (h.ready hd hw₀) htimeout lives).trans
        (h.toldBy_eq hd hw₀ htimeout (by decide))
    · intro text w heq
      cases heq
      exact ⟨_, starts, lives⟩

/-- Settings that allow for three attempts of ten milliseconds each, whatever they fail
with. A delay of seven milliseconds is cut to five. -/
def threefold : RetrySettings where
  maxAttempts := 3
  backoff := .constant (.ofMillis 7)
  maxDelay := some (.ofMillis 5)
  attemptTimeout := some (.ofMillis 10)
  retryIf := some (Condition.always true).holds

/-- A call that is made without any policy around the layer. -/
def plainSite : Site := ⟨⟨0, "p", .none⟩, .top "c" 0⟩

/-- An operation that hangs the first time and has a value the second time. -/
def late : Operation := Script.operation [[.hang], [.give (.ok "v")]] (.top "c" 0)

/-- The layer around it. -/
def tryingLate : Operation := withRetry plainSite threefold late

/-- The world in which the layer is started. -/
def beforeTrying : World := .start .plain

/-- The first attempt is under way, and its deadline has come. -/
def firstOver : World := { (tryingLate.start (.named "t") beforeTrying).2 with now := 10000000 }

/-- The first attempt in that world. -/
def firstTrying : tryingLate.State :=
  .trying (.named "t") 2 ⟨(Token.named "t").child (.top "c" 0) 0, 10000000, 0,
    (Token.named "t").child (.top "c" 0) 0, .inl ⟨(Token.named "t").child (.top "c" 0) 0, .ok ""⟩⟩

/-- The pause after the first attempt is over. -/
def pauseOver : World := { (tryingLate.resume firstTrying firstOver).2 with now := 15000000 }

/-- The layer in that world. -/
def firstPausing : tryingLate.State := .waiting (.named "t") 1 15000000

theorem ready_beforeTrying : beforeTrying.Ready beforeTrying.minted (.named "t") :=
  ⟨nofun, nofun, fun _ => Nat.le_refl _⟩

theorem lives_tryingLate : tryingLate.Lives plainSite.call True (.named "t") beforeTrying
    (.pending firstPausing, pauseOver) := by
  obtain ⟨keeps, hd⟩ := Script.docile [[.hang], [.give (.ok "v")]] plainSite.call
  have hlayer : tryingLate.Attends plainSite.call [LayerKind.retry] _ :=
    Docile.withRetry threefold List.mem_cons_self (hd.attends_mono (List.subset_cons_self _ _))
  have hstart : tryingLate.Lives plainSite.call True (.named "t") beforeTrying
      (.pending firstTrying, (tryingLate.start (.named "t") beforeTrying).2) := .start
  have hsane := (hlayer.lives ready_beforeTrying hstart).1.sane
  have hover := hstart.wait (.clock hsane (Nat.zero_le 10000000)) fun _ d hd => by
    obtain rfl := List.mem_singleton.mp hd
    exact Nat.le_refl _
  have hpauses : tryingLate.resume firstTrying firstOver =
      (.pending firstPausing, (tryingLate.resume firstTrying firstOver).2) := Prod.ext rfl rfl
  have hpause := hpauses ▸ hover.resume
  have hsane' := (hlayer.lives ready_beforeTrying hpause).1.sane
  refine hpause.wait (.clock hsane' ?_) fun _ d hd => ?_
  · exact (hlayer.confined_of_lives ready_beforeTrying hover).1.now.trans_le (by decide)
  · obtain rfl := List.mem_singleton.mp hd
    exact Nat.le_refl _

/-- The first attempt expires, and the second one has a value. -/
theorem retry_reference_semantics_late :
    (Layer.retry threefold).fault? = none ∧
    beforeTrying.Ready beforeTrying.minted (.named "t") ∧
    ∃ w, tryingLate.Lives plainSite.call True (.named "t") beforeTrying (.done (.ok "v"), w) ∧
      w.isCancelled (.named "t") = false ∧
      ∃ e : Trial, e.result = .ok "v" ∧ 1 < e.number := by
  obtain ⟨keeps, hd⟩ := Script.docile [[.hang], [.give (.ok "v")]] plainSite.call
  have hs : (Layer.retry threefold).fault? = none := by decide
  have hl : tryingLate.Lives plainSite.call True (.named "t") beforeTrying
      (.done (.ok "v"), (tryingLate.resume firstPausing pauseOver).2) := lives_tryingLate.resume
  have hlive : (tryingLate.resume firstPausing pauseOver).2.isCancelled (.named "t") = false := rfl
  refine ⟨hs, ready_beforeTrying, _, hl, hlive, ?_⟩
  obtain ⟨ts, x, -, -, hdone, -⟩ := (retry_reference_semantics hs hd (List.forall_mem_nil _)
    ready_beforeTrying).1 _ hl hlive
  obtain ⟨e, made, -, hr, -, htold⟩ := hdone _ _ rfl
  have hresult : outcome e.output = .ok "v" := by
    change Except.ok "v" = threefold.verdict (outcome e.output) at hr
    cases ho : outcome e.output with
    | ok v =>
      rw [ho] at hr
      exact hr.symm
    | error f =>
      rw [ho] at hr
      simp only [RetrySettings.verdict] at hr
      split at hr <;> cases hr
  refine ⟨e, hresult, ?_⟩
  rw [made.number]
  cases ts with
  | nil =>
    -- three things are told of the first attempt
    have hentries : e.entries plainSite threefold = [] := by
      rw [Trial.entries, RetrySettings.records, hresult]
      rfl
    have hthree : (toldBy plainSite.call .retry
        (tryingLate.resume firstPausing pauseOver).2.trace).length = 3 := rfl
    rw [htold, List.flatMap_singleton, hentries] at hthree
    cases hthree
  | cons e' ts => exact Nat.succ_lt_succ (Nat.succ_pos _)

end CallPolicy
