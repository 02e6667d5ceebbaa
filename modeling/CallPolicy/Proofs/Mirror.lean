/-
Activities that are carried out elsewhere.

A `Mirror` of an activity does the same with layers that are somewhere else: its states
correspond to those of the activity, it ends in the same way at the same time, what it
holds is held elsewhere, and it waits for the same instants.

* **`Mirror.after`**, **`Mirror.holding`**, **`Mirror.within`**, … — one for each building block;
* **`Mirror.apply`** — a layer, wherever it is now;
* **`Mirror.stack`** — so layers that are moved together are mirrored by the same layers
  around a mirror of their operation.
-/
import CallPolicy.Proofs.Routing

namespace CallPolicy

open Operation

variable {ι ο ο' κ κ' η : Type} {ρ : Link} {site : Site} {w w' : World}

/-- Two activities stand at corresponding places. -/
inductive Link.Mirrors (ρ : Link) (f : κ → κ') :
    Status κ ο × World → Status κ' ο × World → Prop
  | pending {s : κ} {w w' : World} (h : ρ.Carries w w') :
      Mirrors ρ f (.pending s, w) (.pending (f s), w')
  | done {o : ο} {w w' : World} (h : ρ.Carries w w') : Mirrors ρ f (.done o, w) (.done o, w')
  | panicked {t : String} {w w' : World} (h : ρ.Carries w w') :
      Mirrors ρ f (.panicked t, w) (.panicked t, w')

/-- The second activity does the same elsewhere. -/
structure Activity.Mirror (ρ : Link) (a a' : Activity ι ο) where
  state : a.State → a'.State
  start : ∀ i {w w' : World}, ρ.Carries w w' → ρ.Mirrors state (a.start i w) (a'.start i w')
  resume : ∀ s {w w' : World}, ρ.Carries w w' →
    ρ.Mirrors state (a.resume s w) (a'.resume (state s) w')
  holdings : ∀ s, a'.holdings (state s) = (a.holdings s).map ρ.holding
  handles : ∀ s, ∀ x ∈ a.holdings s, ρ.Handles x
  deadlines : ∀ s, a'.deadlines (state s) = a.deadlines s

/-- What is held is given back in both worlds. -/
theorem Activity.Mirror.releaseAll {a a' : Activity ι ο} (m : Mirror ρ a a') (s : a.State)
    (h : ρ.Carries w w') :
    ρ.Carries (w.releaseAll (a.holdings s)) (w'.releaseAll (a'.holdings (m.state s))) := by
  rw [m.holdings]
  exact h.releaseAll (m.handles s)

/-! ### Immediate activities and waits -/

/-- An immediate activity. -/
def Activity.Mirror.atOnce {f : ι → World → ο × World}
    (hf : ∀ i {w w' : World}, ρ.Carries w w' → ρ.Matches (f i w) (f i w')) :
    Mirror ρ (.atOnce f) (.atOnce f) where
  state := id
  start i w w' h := by
    obtain ⟨o, w₁, w₁', e, e', h₁⟩ := hf i h
    simp only [Activity.atOnce, e, e']
    exact .done h₁
  resume s := nomatch s
  holdings s := nomatch s
  handles s := nomatch s
  deadlines s := nomatch s

theorem Link.Carries.mirrors_look {ready : κ → World → Option ο} {s : κ}
    (h : ρ.Carries w w') (hready : ready s w' = ready s w) :
    ρ.Mirrors id (Activity.wait.look ready s w) (Activity.wait.look ready s w') := by
  unfold Activity.wait.look
  rw [hready]
  split
  · exact .done h
  · exact .pending h

/-- A wait for something that becomes true in both worlds at once. -/
def Activity.Mirror.wait {state : ι → World → κ} {ready : κ → World → Option ο}
    {deadlines : κ → List Nat}
    (hstate : ∀ i {w w' : World}, ρ.Carries w w' → state i w' = state i w)
    (hready : ∀ s {w w' : World}, ρ.Carries w w' → ready s w' = ready s w) :
    Mirror ρ (.wait state ready deadlines) (.wait state ready deadlines) where
  state := id
  start i w w' h := by
    show ρ.Mirrors id (Activity.wait.look ready (state i w) w)
      (Activity.wait.look ready (state i w') w')
    rw [hstate i h]
    exact h.mirrors_look (hready _ h)
  resume s _ _ h := h.mirrors_look (hready s h)
  holdings _ := rfl
  handles _ := nofun
  deadlines _ := rfl

/-! ### Transformations, things held, deadlines -/

section

variable {a a' : Activity ι ο} {g : a.State → a'.State} {out : Status a.State ο × World}
  {out' : Status a'.State ο × World}

theorem Link.Mirrors.follow {f f' : ο → World → ο' × World} (h : ρ.Mirrors g out out')
    (hf : ∀ o {w w' : World}, ρ.Carries w w' → ρ.Matches (f o w) (f' o w')) :
    ρ.Mirrors g (Activity.after.follow f a out) (Activity.after.follow f' a' out') := by
  cases h with
  | pending h => exact .pending h
  | @done o w w' h =>
    obtain ⟨o, w₁, w₁', e, e', h₁⟩ := hf o h
    simp only [Activity.after.follow, e, e']
    exact .done h₁
  | panicked h => exact .panicked h

/-- A transformation of the output. -/
def Activity.Mirror.after {f f' : ο → World → ο' × World} (m : Mirror ρ a a')
    (hf : ∀ o {w w' : World}, ρ.Carries w w' → ρ.Matches (f o w) (f' o w')) :
    Mirror ρ (a.after f) (a'.after f') where
  state := m.state
  start i _ _ h := (m.start i h).follow hf
  resume s _ _ h := (m.resume s h).follow hf
  holdings := m.holdings
  handles := m.handles
  deadlines := m.deadlines

variable {held held' : η → Holding} {take take' : World → Except ο η × World}
  {give give' : η → ο → World → World}

theorem Link.Mirrors.keep (h : ρ.Mirrors g out out') (x : η)
    (hheld : held' x = ρ.holding (held x)) (hhandles : ρ.Handles (held x))
    (hgive : ∀ o {w w' : World}, ρ.Carries w w' → ρ.Carries (give x o w) (give' x o w')) :
    ρ.Mirrors (Prod.map id g) (Activity.holding.keep held give a x out)
      (Activity.holding.keep held' give' a' x out') := by
  cases h with
  | pending h => exact .pending h
  | @done o w w' h => exact .done (hgive o h)
  | @panicked t w w' h =>
    have hback := h.release hhandles
    rw [← hheld] at hback
    exact .panicked hback

/-- Something is held, elsewhere. -/
def Activity.Mirror.holding (m : Mirror ρ a a') (hheld : ∀ x, held' x = ρ.holding (held x))
    (hhandles : ∀ x, ρ.Handles (held x))
    (htake : ∀ {w w' : World}, ρ.Carries w w' → ρ.Matches (take w) (take' w'))
    (hgive : ∀ x o {w w' : World}, ρ.Carries w w' → ρ.Carries (give x o w) (give' x o w')) :
    Mirror ρ (a.holding held take give) (a'.holding held' take' give') where
  state := Prod.map id m.state
  start i w w' h := by
    obtain ⟨x, w₁, w₁', e, e', h₁⟩ := htake h
    cases x with
    | error o =>
      rw [holding_start_error e, holding_start_error e']
      exact .done h₁
    | ok x =>
      rw [holding_start_ok e, holding_start_ok e']
      exact (m.start i h₁).keep x (hheld x) (hhandles x) (hgive x)
  resume s _ _ h := (m.resume s.2 h).keep s.1 (hheld s.1) (hhandles s.1) (hgive s.1)
  holdings s := by
    show a'.holdings (m.state s.2) ++ [held' s.1] = (a.holdings s.2 ++ [held s.1]).map ρ.holding
    rw [m.holdings, hheld, List.map_append, List.map_singleton]
  handles s x hx := by
    rcases List.mem_append.mp hx with hx | hx
    · exact m.handles s.2 x hx
    · rw [List.mem_singleton.mp hx]
      exact hhandles s.1
  deadlines s := m.deadlines s.2

/-- A state under a deadline corresponds to one under the same deadline. -/
def Activity.Limited.map (f : κ → κ') (s : Limited κ) : Limited κ' :=
  ⟨s.token, s.deadline, f s.inner⟩

theorem Link.Mirrors.check {a a' : Activity Token ο} {m : Activity.Mirror ρ a a'}
    {out : Status a.State ο × World} {out' : Status a'.State ο × World}
    (h : ρ.Mirrors m.state out out') (token : Token) (deadline : Nat) :
    ρ.Mirrors (Activity.Limited.map m.state) (Activity.within.check a token deadline out)
      (Activity.within.check a' token deadline out') := by
  cases h with
  | @pending s w w' h =>
    have hback := (m.releaseAll s h).cancel token
    unfold Activity.within.check
    dsimp only
    rw [h.now]
    split
    · exact .done hback
    · exact .pending h
  | done h => exact .done h
  | panicked h => exact .panicked h

end

/-- A deadline. -/
def Activity.Mirror.within {a a' : Activity Token ο} (m : Mirror ρ a a') (call : CallId)
    (length : Duration) : Mirror ρ (a.within call length) (a'.within call length) where
  state := Limited.map m.state
  start t w w' h := by
    obtain ⟨token, w₁, w₁', e, e', h₁⟩ := h.mint call t
    simp only [Activity.within, e, e', h₁.deadline]
    exact (m.start token h₁).check token _
  resume s _ _ h := (m.resume s.inner h).check s.token s.deadline
  holdings s := m.holdings s.inner
  handles s := m.handles s.inner
  deadlines s := congrArg (s.deadline :: ·) (m.deadlines s.inner)

/-! ### Gates and endings -/

namespace Activity.Mirror

variable {op op' : Operation}

/-- A fallback value. -/
def withFallback (hsite : site.origin ∈ ρ.origins) (hback : ρ.Backs site) (value : String)
    (m : Mirror ρ op op') :
    Mirror ρ (withFallback site value op) (withFallback (ρ.site .fallback site) value op') :=
  m.after fun r w w' h => by
    cases r with
    | ok v => exact ⟨_, _, _, rfl, rfl, h⟩
    | error f => exact ⟨_, _, _, rfl, rfl, h.emit hsite (.fellBack f) hback⟩

/-- A deadline of the whole call. -/
def withTimeout (hsite : site.origin ∈ ρ.origins) (length : Duration) (m : Mirror ρ op op') :
    Mirror ρ (withTimeout site length op) (withTimeout (ρ.site .timeout site) length op') :=
  (m.within site.call length).after fun r w w' h => by
    cases r with
    | some r => exact ⟨_, _, _, rfl, rfl, h⟩
    | none => exact ⟨_, _, _, rfl, rfl, h.emit hsite (.timedOut length) trivial⟩

/-- A circuit breaker. -/
def behindBreaker (hsite : site.origin ∈ ρ.origins) (s : BreakerSettings) (m : Mirror ρ op op') :
    Mirror ρ (behindBreaker site s op) (behindBreaker (ρ.site .breaker site) s op') :=
  m.holding (fun _ => rfl) (fun _ => hsite) (·.acquirePermit hsite s)
    fun p r _ _ h => h.settlePermit hsite s p (.ofResult r)

/-- A bulkhead. -/
def behindBulkhead (hsite : site.origin ∈ ρ.origins) (capacity : Nat) (m : Mirror ρ op op') :
    Mirror ρ (behindBulkhead site capacity op)
      (behindBulkhead (ρ.site .bulkhead site) capacity op') :=
  m.holding (fun _ => rfl) (fun _ => hsite) (·.takeSlot hsite capacity)
    fun _ _ _ _ h => h.release (x := .slot site) hsite

/-- A rate limit. -/
def behindRateLimit (hsite : site.origin ∈ ρ.origins) (l : RateLimit) (m : Mirror ρ op op') :
    Mirror ρ (behindRateLimit site l op) (behindRateLimit (ρ.site .rateLimit site) l op') where
  state := m.state
  start t w w' h := by
    unfold Operation.behindRateLimit
    dsimp only
    obtain ⟨admitted, w₁, w₁', e, e', h₁⟩ := h.takeToken hsite l
    rw [e, e']
    cases admitted with
    | true => exact m.start t (h₁.note (.gate site .tokenTaken) trivial)
    | false => exact .done (h₁.emit hsite .rateLimited trivial)
  resume s _ _ h := m.resume s h
  holdings := m.holdings
  handles := m.handles
  deadlines := m.deadlines

end Activity.Mirror

/-! ### Retry -/

namespace Link.Carries

variable (h : ρ.Carries w w')

include h

/-- A tie is decided alike. -/
theorem givesUp (t : Token) (n wakeAt : Nat) :
    givesUp (ρ.site .retry site) t n wakeAt w' = givesUp site t n wakeAt w := by
  have hchance : w'.chance = w.chance := (ρ.alike h).chance
  unfold Operation.givesUp
  rw [h.isCancelled, h.now, hchance]
  rfl

variable (s : RetrySettings)

theorem nextDelay (n : Nat) : ρ.Matches (nextDelay s n w) (nextDelay s n w') := by
  unfold Operation.nextDelay
  split
  · obtain ⟨x, w₁, w₁', e, e', h₁⟩ := h.draw
    rw [e, e']
    exact ⟨_, _, _, rfl, rfl, h₁⟩
  · exact ⟨_, _, _, rfl, rfl, h⟩

theorem attemptResult (hsite : site.origin ∈ ρ.origins) (n : Nat) (o : Option Result) :
    ρ.Matches (attemptResult site s n o w) (attemptResult (ρ.site .retry site) s n o w') := by
  unfold Operation.attemptResult
  split
  · exact ⟨_, _, _, rfl, rfl, h⟩
  next length _ => exact ⟨_, _, _, rfl, rfl, h.emit hsite (.attemptTimedOut n length) trivial⟩
  · exact ⟨_, _, _, rfl, rfl, h⟩

theorem mayRepeat (t : Token) (f : Failure) :
    ρ.Matches (mayRepeat site s t f w) (mayRepeat (ρ.site .retry site) s t f w') := by
  unfold Operation.mayRepeat
  rw [h.isCancelled]
  split
  · exact ⟨_, _, _, rfl, rfl, h⟩
  · split
    · exact ⟨_, _, _, rfl, rfl, h⟩
    next condition _ => exact ⟨_, _, _, rfl, rfl, h.note (.asked site f (condition f)) trivial⟩

end Link.Carries

/-- The same place in the loop, with another state of the attempt. -/
def Operation.RetryState.map (f : κ → κ') : RetryState κ → RetryState κ'
  | .trying token left inner => .trying token left (f inner)
  | .waiting token left wakeAt => .waiting token left wakeAt

/-- What is done after an attempt is done elsewhere. -/
theorem Link.Mirrors.proceed {a a' : Activity Token (Option Result)}
    {m : Activity.Mirror ρ a a'} {out : Status a.State (Option Result) × World}
    {out' : Status a'.State (Option Result) × World} (h : ρ.Mirrors m.state out out')
    (hsite : site.origin ∈ ρ.origins) (s : RetrySettings) (token : Token) (left : Nat) :
    ρ.Mirrors (RetryState.map m.state) (proceed site s token left out)
      (proceed (ρ.site .retry site) s token left out') := by
  -- the loop is left in all cases but one, and then an attempt less is left
  induction left using Nat.strongRecOn generalizing out out' with
  | ind left ih =>
    unfold Operation.proceed
    cases h with
    | pending h => exact .pending h
    | panicked h => exact .panicked h
    | @done o w w' h =>
      dsimp only
      generalize s.maxAttempts.toNat - left = n
      obtain ⟨r, w₁, w₁', e₁, e₁', h₁⟩ := h.attemptResult s hsite n o
      rw [e₁, e₁']
      cases r with
      | ok v => exact .done h₁
      | error f =>
        dsimp only
        -- both sides ask the same condition about the same failure
        have hjudged : ρ.Matches (mayRepeat site s token f w₁)
          (mayRepeat (ρ.site .retry site) s token f w₁') := h₁.mayRepeat s token f
        obtain ⟨again, w₂, w₂', e₂, e₂', h₂⟩ := hjudged
        rw [e₂, e₂']
        cases again with
        | false => exact .done h₂
        | true =>
          cases left with
          | zero => exact .done h₂
          | succ left =>
            -- and take the same pause, with the same draw
            have htold := h₂.emit hsite (.retrying n f) trivial
            obtain ⟨delay, w₃, w₃', e₃, e₃', h₃⟩ := htold.nextDelay s n
            change nextDelay s n (w₂'.emit (ρ.site .retry site) (.retrying n f)) = _ at e₃'
            dsimp only
            rw [e₃, e₃']
            dsimp only
            -- the tie of pause and cancellation falls the same way in both
            rw [h₃.givesUp, h₃.wakeTime, h₃.now]
            split
            · exact .done h₃
            · split
              · exact ih left (Nat.lt_succ_self left) (m.start token h₃)
              · exact .pending h₃

namespace Activity.Mirror

/-- One attempt. -/
def attempt {op op' : Operation} (m : Mirror ρ op op') : (s : RetrySettings) →
    Mirror ρ (attempt site s op) (attempt (ρ.site .retry site) s op')
  | { attemptTimeout := some length, .. } => m.within site.call length
  | { attemptTimeout := none, .. } => m.after fun _ _ _ h => ⟨_, _, _, rfl, rfl, h⟩

/-- A retry. -/
def withRetry {op op' : Operation} (hsite : site.origin ∈ ρ.origins) (s : RetrySettings)
    (m : Mirror ρ op op') :
    Mirror ρ (withRetry site s op) (withRetry (ρ.site .retry site) s op') where
  state := RetryState.map (m.attempt s).state
  start token _ _ h := ((m.attempt s).start token h).proceed hsite s token _
  resume s' w w' h := by
    cases s' with
    | trying token left inner => exact ((m.attempt s).resume inner h).proceed hsite s token left
    | waiting token left wakeAt =>
      rw [RetryState.map, resume_waiting, resume_waiting, h.givesUp, h.now]
      split
      · exact .done h
      · split
        · exact ((m.attempt s).start token h).proceed hsite s token left
        · exact .pending h
  holdings
    | .trying _ _ inner => (m.attempt s).holdings inner
    | .waiting .. => rfl
  handles
    | .trying _ _ inner => (m.attempt s).handles inner
    | .waiting .. => nofun
  deadlines
    | .trying _ _ inner => (m.attempt s).deadlines inner
    | .waiting .. => rfl

end Activity.Mirror

/-! ### Hedge -/

/-- The same stage of the race, with other states of the attempts. -/
def Operation.HedgeState.map (f : κ → κ') : HedgeState κ → HedgeState κ'
  | .early caller token launchAt first => .early caller token launchAt (f first)
  | .alone first => .alone (f first)
  | .racing token first rivalToken rival => .racing token (f first) rivalToken (f rival)

namespace Link.Mirrors

section

variable {op op' : Operation} {m : Activity.Mirror ρ op op'} {out : Status op.State Result × World}
  {out' : Status op'.State Result × World}

theorem judgeAlone (h : ρ.Mirrors m.state out out') :
    ρ.Mirrors (HedgeState.map m.state) (judgeAlone out) (judgeAlone out') := by
  cases h with
  | pending h => exact .pending h
  | done h => exact .done h
  | panicked h => exact .panicked h

variable (hsite : site.origin ∈ ρ.origins)

include hsite

theorem judgeRival (h : ρ.Mirrors m.state out out') (token rivalToken : Token) (first : op.State) :
    ρ.Mirrors (HedgeState.map m.state) (judgeRival site token first rivalToken out)
      (judgeRival (ρ.site .hedge site) token (m.state first) rivalToken out') := by
  cases h with
  | pending h => exact .pending h
  | done h =>
    exact .done (m.releaseAll first ((h.cancel token).emit hsite .hedgeWon trivial))
  | panicked h =>
    exact .panicked (m.releaseAll first h)

theorem launch (h : ρ.Carries w w') (delay : Duration) (caller token : Token) (first : op.State) :
    ρ.Mirrors (HedgeState.map m.state) (launch site delay caller token first w)
      (launch (ρ.site .hedge site) delay caller token (m.state first) w') := by
  unfold Operation.launch
  rw [h.isCancelled]
  split
  · exact (m.resume first h).judgeAlone
  · have htold : ρ.Carries (w.emit site (.hedgeLaunched delay))
      (w'.emit (ρ.site .hedge site) (.hedgeLaunched delay)) :=
      h.emit hsite (.hedgeLaunched delay) trivial
    obtain ⟨rivalToken, w₁, w₁', e, e', h₁⟩ := htold.mint site.call caller
    have hfirst := m.resume first h₁
    dsimp only
    rw [ρ.site_call, e, e']
    dsimp only
    generalize op.resume first w₁ = out at hfirst ⊢
    generalize op'.resume (m.state first) w₁' = out' at hfirst ⊢
    cases hfirst with
    | pending h => exact (m.start rivalToken h).judgeRival hsite token rivalToken _
    | done h => exact .done (h.cancel rivalToken)
    | panicked h => exact .panicked h

theorem judgeFirst (h : ρ.Mirrors m.state out out') (delay : Duration) (caller token : Token)
    (launchAt : Nat) :
    ρ.Mirrors (HedgeState.map m.state) (judgeFirst site delay caller token launchAt out)
      (judgeFirst (ρ.site .hedge site) delay caller token launchAt out') := by
  cases h with
  | @pending first w w' h =>
    unfold Operation.judgeFirst
    dsimp only
    rw [h.now]
    split
    · exact launch hsite h delay caller token first
    · exact .pending h
  | done h => exact .done h
  | panicked h => exact .panicked h

/-- Both attempts are resumed. -/
theorem race (h : ρ.Carries w w') (token rivalToken : Token) (first rival : op.State)
    (delay : Duration) :
    ρ.Mirrors (HedgeState.map m.state)
      ((withHedge site delay op).resume (.racing token first rivalToken rival) w)
      ((withHedge (ρ.site .hedge site) delay op').resume
        (.racing token (m.state first) rivalToken (m.state rival)) w') := by
  have hfirst := m.resume first h
  unfold Operation.withHedge
  dsimp only
  generalize op.resume first w = out at hfirst ⊢
  generalize op'.resume (m.state first) w' = out' at hfirst ⊢
  cases hfirst with
  | pending h => exact (m.resume rival h).judgeRival hsite token rivalToken _
  | done h =>
    exact .done (m.releaseAll rival (h.cancel rivalToken))
  | panicked h =>
    exact .panicked (m.releaseAll rival h)

end

end Link.Mirrors

namespace Activity.Mirror

variable {op op' : Operation}

/-- A hedge. -/
def withHedge (hsite : site.origin ∈ ρ.origins) (delay : Duration) (m : Mirror ρ op op') :
    Mirror ρ (withHedge site delay op) (withHedge (ρ.site .hedge site) delay op') where
  state := HedgeState.map m.state
  start caller w w' h := by
    obtain ⟨token, w₁, w₁', e, e', h₁⟩ := h.mint site.call caller
    simp only [Operation.withHedge, ρ.site_call, e, e', h₁.wakeTime]
    exact (m.start token h₁).judgeFirst hsite delay caller token _
  resume s w w' h := by
    cases s with
    | early caller token launchAt first =>
      exact (m.resume first h).judgeFirst hsite delay caller token launchAt
    | alone first => exact (m.resume first h).judgeAlone
    | racing token first rivalToken rival => exact .race hsite h token rivalToken first rival delay
  holdings
    | .early _ _ _ first => m.holdings first
    | .alone first => m.holdings first
    | .racing _ first _ rival => by
      show op'.holdings (m.state rival) ++ op'.holdings (m.state first) =
        (op.holdings rival ++ op.holdings first).map ρ.holding
      rw [m.holdings, m.holdings, List.map_append]
  handles
    | .early _ _ _ first => m.handles first
    | .alone first => m.handles first
    | .racing _ first _ rival => fun x hx =>
      (List.mem_append.mp hx).elim (m.handles rival x) (m.handles first x)
  deadlines
    | .early _ _ launchAt first => congrArg (launchAt :: ·) (m.deadlines first)
    | .alone first => m.deadlines first
    | .racing _ first _ rival => by
      show op'.deadlines (m.state first) ++ op'.deadlines (m.state rival) =
        op.deadlines first ++ op.deadlines rival
      rw [m.deadlines, m.deadlines]

/-! ### Layers -/

/-- A layer, wherever it is now. -/
def apply (hsite : site.origin ∈ ρ.origins) (m : Mirror ρ op op') :
    (l : Layer) → (l.kind = .fallback → ρ.Backs site) →
      Mirror ρ (l.apply site op) (l.apply (ρ.site l.kind site) op')
  | .fallback value, h => m.withFallback hsite (h rfl) value
  | .timeout length, _ => m.withTimeout hsite length
  | .breaker s, _ => m.behindBreaker hsite s
  | .rateLimit l, _ => m.behindRateLimit hsite l
  | .bulkhead capacity, _ => m.behindBulkhead hsite capacity
  | .retry s, _ => m.withRetry hsite s
  | .hedge delay, _ => m.withHedge hsite delay

/-- Layers that are all at one place now. -/
def stack (hsite : site.origin ∈ ρ.origins) (m : Mirror ρ op op') {site' : Site} :
    (layers : List Layer) → (∀ l ∈ layers, l.kind = .fallback → ρ.Backs site) →
      (∀ l ∈ layers, ρ.site l.kind site = site') →
        Mirror ρ (stack site layers op) (stack site' layers op')
  | [], _, _ => m
  | l :: rest, hback, h =>
    have hl : ρ.site l.kind site = site' := h l List.mem_cons_self
    hl ▸ apply hsite
      (stack hsite m rest (fun x hx => hback x (List.mem_cons_of_mem l hx))
        fun x hx => h x (List.mem_cons_of_mem l hx))
      l (hback l List.mem_cons_self)

end Activity.Mirror

end CallPolicy
