/-
The deadline of a whole call.

What is inside the timeout layer lives under a child of the call's token, and for as long
as the layer lives. Either it ends in time, and so does the layer, in the same way; or it
is dropped when the deadline has come, and nothing is left of it.

* **`Lives.of_within`** — an activity with a deadline, seen from inside;
* **`Resolves.of_lives`** — what each look at what is inside makes of the call;
* **`Settled.before_deadline`** — a step of a simulation leaves no call suspended beyond its
  deadline;
* **`whole_call_deadline`** — a call with a deadline, in a run in which time passes no
  instant that the call waits for.
-/
import CallPolicy.Proofs.Balance
import CallPolicy.Proofs.Timely

namespace CallPolicy

open Activity Operation Relation

variable {ο ο' : Type} {w w' w₀ : World} {t u : Token} {id : CallId} {kinds : List LayerKind}
  {timely : Prop} {site : Site}

/-! ### Lives inside lives -/

/-- What spares the tokens of a call spares those below a child of its token. -/
theorem World.Meanwhile.child (h : w.Meanwhile id t w') (hu : Token.Stems id t u) :
    w.Meanwhile id u w' :=
  ⟨h.now, h.sane, h.spares.mono (Serves.own hu).trans hu.governs, h.invoked, h.trace⟩

/-- A child of the token of a call that has not begun is as good as the token. -/
theorem World.Awaits.mint (h : w.Awaits id t) : (w.mint id t).2.Awaits id (w.mint id t).1 := by
  have hready := h.ready.child id
  exact ⟨hready.sane, hready.token, h.invoked, h.trace⟩

namespace Activity

/-- What becomes of an activity that is followed by an immediate step. -/
theorem Lives.of_after {a : Activity Token ο} {f : ο → World → ο' × World}
    {out : Status (a.after f).State ο' × World} (h : (a.after f).Lives id timely t w₀ out) :
    ∃ out', a.Lives id timely t w₀ out' ∧ out = after.follow f a out' := by
  have hpending : ∀ {s : a.State} {w : World} {out' : Status a.State ο × World},
      (.pending s, w) = after.follow f a out' → out' = (.pending s, w) := by
    rintro s w ⟨s' | o | x, w'⟩ heq <;> cases heq
    rfl
  induction h with
  | start => exact ⟨_, .start, rfl⟩
  | wait _ hw htimely ih =>
    obtain ⟨out', hl, heq⟩ := ih
    rw [hpending heq] at hl
    exact ⟨_, hl.wait hw htimely, rfl⟩
  | resume _ ih =>
    obtain ⟨out', hl, heq⟩ := ih
    rw [hpending heq] at hl
    exact ⟨_, hl.resume, rfl⟩

/-- What has become of an activity that has to end by the instant `D`, if `lives` says what
becomes of it by itself. -/
inductive Limits (a : Activity Token ο) (lives : Status a.State ο × World → Prop) (u : Token)
    (D : Nat) : Status (Limited a.State) (Option ο) × World → Prop
  | pending {s : a.State} {w : World} (h : lives (.pending s, w)) :
      Limits a lives u D (.pending ⟨u, D, s⟩, w)
  | ready {o : ο} {w : World} (h : lives (.done o, w)) : Limits a lives u D (.done (some o), w)
  | expired {s : a.State} {w : World} (h : lives (.pending s, w)) (hD : D ≤ w.now) :
      Limits a lives u D (.done none, (w.releaseAll (a.holdings s)).cancel u)
  | panicked {x : String} {w : World} (h : lives (.panicked x, w)) :
      Limits a lives u D (.panicked x, w)

theorem Limits.check {a : Activity Token ο} {lives : Status a.State ο × World → Prop} {D : Nat}
    {out : Status a.State ο × World} (h : lives out) : a.Limits lives u D (within.check a u D out) := by
  rcases out with ⟨s | o | x, w⟩
  · unfold within.check
    dsimp only
    split
    next hD => exact .expired h hD
    next => exact .pending h
  · exact .ready h
  · exact .panicked h

/-- **An activity with a deadline** lives on under a child token until it ends or the
deadline has come. -/
theorem Lives.of_within {a : Activity Token ο} {length : Duration}
    {out : Status (a.within id length).State (Option ο) × World}
    (h : (a.within id length).Lives id timely t w₀ out) :
    a.Limits (a.Lives id timely (w₀.mint id t).1 (w₀.mint id t).2) (w₀.mint id t).1
      (w₀.deadline length) out := by
  have hstems : Token.Stems id t (w₀.mint id t).1 := (Token.Stems.refl id t).child _
  induction h with
  | start => exact .check .start
  | wait _ hw htimely ih =>
    cases ih with
    | pending hl =>
      exact .pending (hl.wait (hw.child hstems) fun htime d hd =>
        htimely htime d (List.mem_cons_of_mem _ hd))
  | resume _ ih =>
    cases ih with
    | pending hl => exact .check hl.resume

end Activity

theorem World.now_le_deadline (w : World) (d : Duration) : w.now ≤ w.deadline d := by
  unfold World.deadline
  omega

namespace Activity.Docile

variable {a : Activity Token ο} {keeps : (CallId → Nat) → Token → a.State → World → Prop}
  {out : Status a.State ο × World}

/-- A timely life does not go beyond an instant that it always waits for. -/
theorem now_le_of_lives {D : Nat} (hd : a.Attends id kinds keeps) (hw₀ : w₀.Ready w₀.minted t)
    (hD : w₀.now ≤ D)
    (hwaits : ∀ s w, a.Lives id True t w₀ (.pending s, w) → D ∈ a.deadlines s)
    (h : a.Lives id True t w₀ out) : out.2.now ≤ D := by
  cases h with
  | start => exact (hd.start hw₀).confined.now.trans_le hD
  | wait hl hw htimely => exact htimely trivial D (hwaits _ _ hl)
  | resume hl =>
    have hdue := hd.due_of_lives hw₀ hl D (hwaits _ _ hl)
    exact (hd.confined_of_lives hw₀ hl).1.now.trans_le hdue

end Activity.Docile

/-! ### The timeout layer in its policy -/

/-- What a fallback makes of the end of what is inside it, if there is one. -/
def Operation.replaced (site : Site) (outer : List Layer) (r : Result) (w : World) :
    Result × World :=
  match outer, r with
  | .fallback value :: _, .error f => (.ok value, w.emit site (.fellBack f))
  | _, _ => (r, w)

/-- There is at most a fallback around the timeout layer. -/
theorem Layer.outer_cases {outer inner : List Layer} {d : Duration}
    (hordered : (outer ++ .timeout d :: inner).Pairwise fun a b =>
      a.kind.position < b.kind.position) : outer = [] ∨ ∃ value, outer = [.fallback value] := by
  have hfallback : ∀ l ∈ outer, ∃ value, l = .fallback value := by
    intro l hl
    have hlt := (List.pairwise_append.mp hordered).2.2 l hl _ List.mem_cons_self
    cases l with
    | fallback value => exact ⟨value, rfl⟩
    | _ => exact absurd hlt (by simp [Layer.kind, LayerKind.position])
  rcases outer with _ | ⟨l, _ | ⟨l', rest⟩⟩
  · exact .inl rfl
  · obtain ⟨value, rfl⟩ := hfallback l List.mem_cons_self
    exact .inr ⟨value, rfl⟩
  · obtain ⟨value, rfl⟩ := hfallback l List.mem_cons_self
    obtain ⟨value', rfl⟩ := hfallback l' (List.mem_cons_of_mem _ List.mem_cons_self)
    have hlt := (List.pairwise_cons.mp hordered).1 _ List.mem_cons_self
    exact absurd hlt (Nat.lt_irrefl _)

/-- What is inside the timeout layer is dropped, its token is cancelled, and it is told that
the deadline has passed. -/
def World.expire (w : World) (site : Site) (held : List Holding) (u : Token) (d : Duration) :
    World := ((w.releaseAll held).cancel u).emit site (.timedOut d)

/-- What a look at what is inside the timeout layer makes of the call: its end is the end of the
call, whatever the time is, and if it is still suspended when its deadline has come, it is
dropped. -/
structure Operation.Resolves {σ : Type} (site : Site) (outer : List Layer) (chain : Operation)
    (d : Duration) (u : Token) (D : Nat) (look : Status chain.State Result × World)
    (out : Status σ Result × World) : Prop where
  ready : ∀ {r w}, look = (.done r, w) →
    out = (.done (replaced site outer r w).1, (replaced site outer r w).2)
  expired : ∀ {s w}, look = (.pending s, w) → D ≤ w.now →
    let w' := w.expire site (chain.holdings s) u d
    out = (.done (replaced site outer (.error .timeout) w').1,
      (replaced site outer (.error .timeout) w').2)
  pending : ∀ {s w}, look = (.pending s, w) → w.now < D → ∃ s', out = (.pending s', w)
  panicked : ∀ {x w}, look = (.panicked x, w) → out = (.panicked x, w)

namespace Operation.Resolves

variable {chain : Operation} {d : Duration} {D : Nat}

/-- The timeout layer looks inside first, and at the clock after that. -/
theorem of_check {f : Option Result → World → Result × World}
    (hsome : ∀ r w, f (some r) w = (r, w))
    (hnone : ∀ w, f none w = (.error .timeout, w.emit site (.timedOut d)))
    (look : Status chain.State Result × World) :
    Resolves site [] chain d u D look
      (after.follow f (chain.within site.call d) (within.check chain u D look)) := by
  refine ⟨?_, ?_, ?_, ?_⟩
  · rintro r w rfl
    simp only [within.check, after.follow, hsome]
    rfl
  · rintro s w rfl hD
    simp only [within.check, if_pos hD, after.follow, hnone]
    rfl
  · rintro s w rfl hD
    simp only [within.check, if_neg (Nat.not_le.mpr hD), after.follow]
    exact ⟨_, rfl⟩
  · rintro x w rfl
    rfl

theorem of_resume {s : Limited chain.State} (htoken : s.token = u) (hdeadline : s.deadline = D)
    (w : World) : Resolves site [] chain d u D (chain.resume s.inner w)
      ((withTimeout site d chain).resume s w) := by
  subst htoken hdeadline
  exact .of_check (fun _ _ => rfl) (fun _ => rfl) _

/-- A fallback replaces the failures, also that of the deadline. -/
theorem of_fallback {f : Result → World → Result × World} {value : String}
    (rest : Operation) (hf : ∀ r w, f r w = replaced site [.fallback value] r w)
    {look : Status chain.State Result × World} {out : Status rest.State Result × World}
    (h : Resolves site [] chain d u D look out) :
    Resolves site [.fallback value] chain d u D look (after.follow f rest out) := by
  refine ⟨fun hlook => ?_, fun hlook hD => ?_, fun hlook hD => ?_, fun hlook => ?_⟩
  · rw [h.ready hlook]
    simp only [after.follow, hf]
    rfl
  · rw [h.expired hlook hD]
    simp only [after.follow, hf]
    rfl
  · obtain ⟨s', hout⟩ := h.pending hlook hD
    rw [hout]
    exact ⟨s', rfl⟩
  · rw [h.panicked hlook]
    rfl

end Operation.Resolves

section

variable {op : Operation} {outer inner : List Layer}

/-- The end of a call with a fallback, seen from inside. -/
theorem Operation.done_of_outer (houter : outer = [] ∨ ∃ value, outer = [.fallback value])
    {r : Result} (h : (stack site (outer ++ inner) op).Lives id timely t w₀ (.done r, w)) :
    ∃ r' w', (stack site inner op).Lives id timely t w₀ (.done r', w') ∧
      (r, w) = replaced site outer r' w' := by
  rcases houter with rfl | ⟨value, rfl⟩
  · exact ⟨r, w, h, rfl⟩
  · obtain ⟨out', hl, heq⟩ := Lives.of_after (a := stack site inner op) h
    rcases out' with ⟨s' | (f | v) | x, w'⟩ <;> cases heq
    · exact ⟨_, _, hl, rfl⟩
    · exact ⟨_, _, hl, rfl⟩

/-- The timeout layer, seen from inside. -/
theorem Operation.lives_of_withTimeout {length : Duration}
    {out : Status (withTimeout site length op).State Result × World}
    (h : (withTimeout site length op).Lives site.call timely t w₀ out) :
    let u := (w₀.mint site.call t).1
    let lives := op.Lives site.call timely u (w₀.mint site.call t).2
    let D := w₀.deadline length
    (∀ s w, out = (.pending s, w) → s.token = u ∧ s.deadline = D ∧ lives (.pending s.inner, w)) ∧
    ∀ r w, out = (.done r, w) → lives (.done r, w) ∨
      ∃ s x, lives (.pending s, x) ∧ D ≤ x.now ∧ r = .error .timeout ∧
        w = x.expire site (op.holdings s) u length := by
  intro u lives D
  obtain ⟨out', hwithin, heq⟩ := Lives.of_after (a := op.within site.call length) h
  have hlimits := hwithin.of_within
  clear hwithin
  refine ⟨?_, ?_⟩
  · rintro s w rfl
    cases hlimits with
    | pending hl =>
      cases heq
      exact ⟨rfl, rfl, hl⟩
    | _ => cases heq
  · rintro r w rfl
    cases hlimits with
    | ready hl =>
      cases heq
      exact .inl hl
    | @expired s x hl hD =>
      cases heq
      exact .inr ⟨s, x, hl, hD, rfl, rfl⟩
    | _ => cases heq

section

variable {d : Duration} (houter : outer = [] ∨ ∃ value, outer = [.fallback value])

include houter

/-- The first look at what is inside. -/
theorem Operation.Resolves.start (t : Token) (w₀ : World) :
    Resolves site outer (stack site inner op) d (w₀.mint site.call t).1 (w₀.deadline d)
      ((stack site inner op).start (w₀.mint site.call t).1 (w₀.mint site.call t).2)
      ((stack site (outer ++ .timeout d :: inner) op).start t w₀) := by
  let chain := stack site inner op
  let u := (w₀.mint site.call t).1
  have hbare : Resolves site [] chain d u (w₀.deadline d) (chain.start u (w₀.mint site.call t).2)
      ((withTimeout site d chain).start t w₀) := .of_check (fun _ _ => rfl) (fun _ => rfl) _
  rcases houter with rfl | ⟨value, rfl⟩
  · exact hbare
  · refine .of_fallback (withTimeout site d chain) (fun r w => ?_) hbare
    rcases r with f | v <;> rfl

/-- **Every later look**, whenever it takes place: a suspended call with a deadline waits for
that, and for what is inside. -/
theorem Operation.Resolves.of_lives {s : (stack site (outer ++ .timeout d :: inner) op).State}
    (h : (stack site (outer ++ .timeout d :: inner) op).Lives site.call timely t w₀
      (.pending s, w)) :
    let chain := stack site inner op
    let u := (w₀.mint site.call t).1
    let D := w₀.deadline d
    D ∈ (stack site (outer ++ .timeout d :: inner) op).deadlines s ∧
      ∃ s', chain.Lives site.call timely u (w₀.mint site.call t).2 (.pending s', w) ∧
        ∀ w', Resolves site outer chain d u D (chain.resume s' w')
          ((stack site (outer ++ .timeout d :: inner) op).resume s w') := by
  intro chain u D
  have hbare : ∀ {s : (withTimeout site d chain).State},
      (withTimeout site d chain).Lives site.call timely t w₀ (.pending s, w) →
      D ∈ (withTimeout site d chain).deadlines s ∧
        chain.Lives site.call timely u (w₀.mint site.call t).2 (.pending s.inner, w) ∧
        ∀ w', Resolves site [] chain d u D (chain.resume s.inner w')
          ((withTimeout site d chain).resume s w') := by
    intro s hl
    obtain ⟨htoken, hdeadline, hinner⟩ := (lives_of_withTimeout hl).1 s w rfl
    refine ⟨List.mem_cons.mpr (.inl hdeadline.symm), hinner, fun w' => ?_⟩
    exact .of_resume htoken hdeadline w'
  rcases houter with rfl | ⟨value, rfl⟩
  · obtain ⟨hD, hl, hresume⟩ := hbare h
    exact ⟨hD, _, hl, hresume⟩
  · obtain ⟨out', hl, heq⟩ := Lives.of_after (a := withTimeout site d chain) h
    rcases out' with ⟨s' | r | x, w'⟩ <;> cases heq
    obtain ⟨hD, hl, hresume⟩ := hbare hl
    refine ⟨hD, _, hl, fun w' => ?_⟩
    refine .of_fallback (withTimeout site d chain) (fun r w => ?_) (hresume w')
    rcases r with f | v <;> rfl

/-- **The end of a call with a deadline, seen from inside.** -/
theorem Operation.done_of_deadline {r : Result}
    (h : (stack site (outer ++ .timeout d :: inner) op).Lives site.call timely t w₀ (.done r, w)) :
    let chain := stack site inner op
    let u := (w₀.mint site.call t).1
    let lives := chain.Lives site.call timely u (w₀.mint site.call t).2
    let D := w₀.deadline d
    ∃ r' w', (r, w) = replaced site outer r' w' ∧
      (lives (.done r', w') ∨ ∃ s x, lives (.pending s, x) ∧ D ≤ x.now ∧ r' = .error .timeout ∧
        w' = x.expire site (chain.holdings s) u d) := by
  intro chain u lives D
  obtain ⟨r', w', hl, hreplaced⟩ := done_of_outer houter h
  exact ⟨r', w', hreplaced, (lives_of_withTimeout hl).2 r' w' rfl⟩

end

end

/-- **Nothing is overdue** once a step is over: a call with a deadline that is still suspended
has been started before that deadline by its length, and the deadline is yet to come. -/
theorem Simulation.Settled.before_deadline {S : Simulation} {r : Running} {chance : Chance}
    {outer inner : List Layer} {d : Duration} (h : S.Settled chance) (hr : r ∈ S.running)
    (hlayers : r.call.policy.layers = outer ++ .timeout d :: inner) :
    ∃ w₀ : World, w₀.Awaits r.call.id r.call.token ∧
      r.call.activity.Lives r.call.id True r.call.token w₀ (.pending r.state, S.world) ∧
      S.world.now < w₀.deadline d := by
  obtain ⟨⟨w₀, hw₀, hl⟩, hdue⟩ := h.lives hr
  refine ⟨w₀, hw₀, hl, hdue _ ?_⟩
  -- the deadline is one of the instants that the call waits for
  obtain ⟨⟨id, ⟨origin, layers, criticality, dependencies, hordered, hfaultless⟩, script, t⟩, s⟩ := r
  obtain rfl : layers = outer ++ .timeout d :: inner := hlayers
  exact (Operation.Resolves.of_lives (Layer.outer_cases hordered) hl).1

/-! ### What is told of the deadline -/

/-- Does the entry tell that the deadline of the call has passed? -/
def Entry.expires (id : CallId) (e : Entry) : Bool :=
  match e.record with
  | .event site (.timedOut _) => site.call = id
  | _ => false

theorem Entry.expires_of_records {e : Entry} (h : (Scope.ofCall id kinds t).Records e.record)
    (hk : .timeout ∉ kinds) : e.expires id = false := by
  unfold Entry.expires
  split
  next site d heq =>
    rw [heq] at h
    refine decide_eq_false fun hcall => hk (h.own hcall _ rfl)
  next => rfl

/-- Nothing is told of a deadline where there is no timeout layer. -/
theorem World.Confined.countP_expires {m : CallId → Nat}
    (h : w.Confined (.ofCall id kinds t) m w') (hk : .timeout ∉ kinds) :
    w'.trace.countP (Entry.expires id) = w.trace.countP (Entry.expires id) := by
  obtain ⟨es, htr, hes⟩ := h.trace
  have hnone : es.countP (Entry.expires id) = 0 := by
    rw [List.countP_eq_zero]
    intro e he
    rw [Entry.expires_of_records (hes e he) hk]
    exact nofun
  rw [htr, List.countP_append, hnone, Nat.zero_add]

theorem Activity.Docile.countP_expires {a : Activity Token ο}
    {keeps : (CallId → Nat) → Token → a.State → World → Prop} {out : Status a.State ο × World}
    (hd : a.Attends id kinds keeps) (hk : .timeout ∉ kinds) (hw₀ : w₀.Awaits id t)
    (h : a.Lives id timely t w₀ out) : out.2.trace.countP (Entry.expires id) = 0 := by
  rw [List.countP_eq_zero]
  intro e he
  by_cases hcall : id.Within e.record.call
  · rw [Entry.expires_of_records ((hd.served hw₀ h).2 e he hcall) hk]
    exact nofun
  · intro hexpires
    unfold Entry.expires at hexpires
    split at hexpires
    next site d heq =>
      refine hcall ?_
      rw [heq, ← of_decide_eq_true hexpires]
      exact .self
    next => cases hexpires

/-- A fallback tells of no deadline and takes no time. -/
theorem Operation.replaced_after (site : Site) (outer : List Layer) (r : Result) (w : World) :
    (replaced site outer r w).2.now = w.now ∧
    (replaced site outer r w).2.trace.countP (Entry.expires site.call) =
      w.trace.countP (Entry.expires site.call) ∧
    (replaced site outer r w).2.invoked = w.invoked ∧
    ∀ v, w.isCancelled v = true → (replaced site outer r w).2.isCancelled v = true := by
  unfold replaced
  split
  next value outer f =>
    refine ⟨w.emit_now _ _, ?_, w.emit_invoked _ _, fun v hv => ?_⟩
    · rw [World.emit_trace, List.countP_cons_of_neg (by simp [Entry.expires])]
    · exact (World.spares_emit w site (.fellBack f) v).isCancelled hv
  next => exact ⟨rfl, rfl, rfl, fun v hv => hv⟩

/-- Behind the timeout layer there is no other one. -/
theorem Layer.timeout_not_mem {outer inner : List Layer} {d : Duration}
    (hordered : (outer ++ .timeout d :: inner).Pairwise fun a b =>
      a.kind.position < b.kind.position) : .timeout ∉ inner.map Layer.kind ++ [] := by
  have hinner := (List.pairwise_cons.mp (List.pairwise_append.mp hordered).2.1).1
  exact (List.append_nil _).symm ▸ kind_not_mem_of_below hinner (Nat.le_refl _)

/-- **Once the deadline has passed**, all the tokens that the operation was given are
cancelled, and the deadline is told of once. -/
theorem Activity.Docile.expired {a : Operation} {d : Duration} {s : a.State}
    {keeps : (CallId → Nat) → Token → a.State → World → Prop} (hd : a.Attends site.call kinds keeps)
    (hk : .timeout ∉ kinds) (hw₀ : w₀.Awaits site.call u)
    (h : a.Lives site.call timely u w₀ (.pending s, w)) :
    let w' := w.expire site (a.holdings s) u d
    w'.now = w.now ∧ w'.trace.countP (Entry.expires site.call) = 1 ∧
      ∀ v ∈ w'.invoked site.call, w'.isCancelled v = true := by
  intro w'
  have hdropped := (hd.confined_of_lives hw₀.ready h).2
  have hinvoked : w'.invoked = w.invoked :=
    (World.emit_invoked _ _ _).trans (w.releaseAll_invoked _)
  refine ⟨(World.emit_now _ _ _).trans hdropped.now, ?_, fun v hv => ?_⟩
  · have hbefore : (w.releaseAll (a.holdings s)).trace.countP (Entry.expires site.call) = 0 :=
      (hdropped.countP_expires hk).trans (hd.countP_expires hk hw₀ h)
    have htold : Entry.expires site.call ⟨((w.releaseAll (a.holdings s)).cancel u).now,
        .event site (.timedOut d)⟩ = true := decide_eq_true rfl
    show ((World.cancel _ u).emit site (.timedOut d)).trace.countP _ = 1
    rw [World.emit_trace, List.countP_cons_of_pos htold]
    exact congrArg (· + 1) hbefore
  · rw [hinvoked] at hv
    have hbelow : u.governs v = true := ((hd.served hw₀ h).1 .self hv).governs
    refine (World.spares_emit _ site (.timedOut d) u).isCancelled ?_
    exact World.isCancelled_iff.mpr ⟨u, List.mem_cons_self, hbelow⟩

/-- **The deadline of a whole call.** A call with a deadline is suspended only while what is
inside the timeout layer is, and never after a look at it when the deadline has come. Each
look at the call is one at what is inside: if that ends, even at the instant of the deadline,
the layer ends in the same way and nothing is told of a deadline; otherwise, when the
deadline has come, it is dropped, the token that was made for it is cancelled, and with it
every token that the operation was ever given, and the deadline is told of once. In a timely
run this is at the very instant of the deadline, and a simulation that is driven step by step
is such a run, so that no step leaves a call suspended beyond its deadline. Either way
everything has been given back, and nothing is done on behalf of the call after its end. -/
theorem whole_call_deadline {p : Policy} {outer inner : List Layer} {d : Duration}
    (hlayers : p.layers = outer ++ .timeout d :: inner) (script : Script)
    {out : Status (p.call id (script.operation id)).State Result × World}
    (hw₀ : w₀.Awaits id t)
    (h : (p.call id (script.operation id)).Lives id timely t w₀ out) :
    let site : Site := ⟨p.origin, id⟩
    let call := p.call id (script.operation id)
    let chain := stack site inner (script.operation id)
    let u := (w₀.mint id t).1
    let lives := chain.Lives id timely u (w₀.mint id t).2
    let D := w₀.deadline d
    Resolves site outer chain d u D (chain.start u (w₀.mint id t).2) (call.start t w₀) ∧
    (∀ s w, out = (.pending s, w) → (timely → w.now ≤ D) ∧
      (∃ s', lives (.pending s', w) ∧
        Resolves site outer chain d u D (chain.resume s' w) (call.resume s w)) ∧
      (D ≤ w.now → ∀ s' w', call.resume s w ≠ (.pending s', w'))) ∧
    (∀ r w, out = (.done r, w) → w.Balanced id 0 ∧
      ∃ r' w', (r, w) = replaced site outer r' w' ∧
        (lives (.done r', w') ∧ (timely → w'.now ≤ D) ∧ w.trace.countP (Entry.expires id) = 0 ∨
        ∃ s x, lives (.pending s, x) ∧ D ≤ x.now ∧ (timely → x.now = D) ∧
          r' = .error .timeout ∧ w' = x.expire site (chain.holdings s) u d ∧
          w.trace.countP (Entry.expires id) = 1 ∧
          ∀ v ∈ w.invoked id, w.isCancelled v = true)) ∧
    (∀ {chance S} {r : Running}, Simulation.Driven chance S → r ∈ S.running →
      r.call.policy = p → ∃ w₁ : World, w₁.Awaits r.call.id r.call.token ∧
        r.call.activity.Lives r.call.id True r.call.token w₁ (.pending r.state, S.world) ∧
        S.world.now < w₁.deadline d) ∧
    ∀ {name n chance S S'}, id = .top name n → Simulation.Reachable chance S →
      n < S.started.count name → (∀ r ∈ S.running, r.call.id ≠ id) →
      ReflTransGen Simulation.Move S S' →
      (∀ c, id.Within c → S'.world.invoked c = S.world.invoked c) ∧
        ∃ es, S'.world.trace = es ++ S.world.trace ∧ ∀ e ∈ es, ¬id.Within e.record.call := by
  obtain ⟨keeps, hd⟩ := script.docile id
  obtain ⟨keeps', hcall⟩ := p.docile id script
  have hbalanced := p.balanced script hw₀ h
  have hdriven : ∀ {chance : Chance} {S : Simulation} {r : Running}, S.Driven chance →
      r ∈ S.running → r.call.policy = p → ∃ w₁ : World, w₁.Awaits r.call.id r.call.token ∧
        r.call.activity.Lives r.call.id True r.call.token w₁ (.pending r.state, S.world) ∧
        S.world.now < w₁.deadline d :=
    fun hS hr hp => hS.settled.before_deadline hr (hp ▸ hlayers)
  obtain ⟨origin, layers, criticality, dependencies, hordered, hfaultless⟩ := p
  obtain rfl : layers = outer ++ .timeout d :: inner := hlayers
  intro site call chain u lives D
  have houter := Layer.outer_cases hordered
  -- a suspended call always waits for the deadline, whatever else it waits for
  have hwaits : ∀ {timely : Prop} s w, (stack site (outer ++ .timeout d :: inner)
      (script.operation id)).Lives id timely t w₀ (.pending s, w) → D ∈ call.deadlines s :=
    fun s w hl => (Resolves.of_lives houter hl).1
  have hnow : timely → out.2.now ≤ D := by
    intro htimely
    obtain rfl : timely = True := eq_true htimely
    exact hcall.now_le_of_lives hw₀.ready (w₀.now_le_deadline d) hwaits h
  refine ⟨.start houter t w₀, ?_, ?_, hdriven, ?_⟩
  · rintro s w rfl
    obtain ⟨-, s', hl', hresolves⟩ := Resolves.of_lives houter h
    refine ⟨hnow, ⟨s', hl', hresolves w⟩, fun hw s' w' hresume => ?_⟩
    -- nothing is suspended beyond what it waits for
    obtain ⟨hready, hkept⟩ := hcall.lives hw₀.ready h
    have hnext := hcall.resume hready hkept
    have hl := h.resume
    rw [hresume] at hnext hl
    have hlate := hnext.lands.atRest.due D (hwaits s' w' hl)
    rw [show w'.now = w.now from hnext.confined.now] at hlate
    exact absurd hw (Nat.not_le.mpr hlate)
  · rintro r w rfl
    obtain ⟨r', w', hreplaced, hcases⟩ := done_of_deadline houter h
    refine ⟨hbalanced, r', w', hreplaced, ?_⟩
    obtain ⟨hnow', hcount, hinvoked, hcancelled⟩ := replaced_after site outer r' w'
    rw [← hreplaced] at hnow' hcount hinvoked hcancelled
    -- no layer below has a deadline of its own, so an expiry is this layer's
    have hchain : chain.Attends site.call (inner.map Layer.kind ++ []) _ := hd.stack site inner
    have hkinds := Layer.timeout_not_mem hordered
    rcases hcases with hl | ⟨s, x, hl, hD, hr', rfl⟩
    · refine .inl ⟨hl, fun htimely => ?_, hcount.trans ?_⟩
      · exact hnow' ▸ hnow htimely
      · exact hchain.countP_expires hkinds hw₀.mint hl
    · obtain ⟨hexpired, honce, hall⟩ := hchain.expired (d := d) hkinds hw₀.mint hl
      refine .inr ⟨s, x, hl, hD, fun htimely => Nat.le_antisymm ?_ hD, hr', rfl, hcount.trans honce,
        fun v hv => hcancelled v (hall v (hinvoked ▸ hv))⟩
      exact (hexpired.symm.trans hnow'.symm).trans_le (hnow htimely)
  · rintro name n chance S S' rfl hS hstarted hover hmoves
    -- the call is over and its identity is never given again
    have hw := (hS.reaches.orderly.over hstarted hover hmoves (t := .named "") rfl).1
    exact ⟨fun c hc => hw.invoked hc, hw.trace⟩

/-- A policy with a deadline of five milliseconds. -/
def bounded : Policy where
  origin := ⟨0, "p", .none⟩
  layers := [.timeout (.ofMillis 5)]
  criticality := .critical
  dependencies := []
  ordered := List.pairwise_singleton _ _
  faultless l hl := by
    obtain rfl := List.mem_singleton.mp hl
    decide

/-- A call through it to an operation that hangs. -/
def hanging : Operation :=
  bounded.call (.top "c" 0) (Script.operation [[.hang]] (.top "c" 0))

/-- The world in which the call is started, with the policy built. -/
def beforeHanging : World := bounded.install (.start .plain)

/-- The call has been started, and its deadline has come. -/
def overdue : World := { (hanging.start (.named "t") beforeHanging).2 with now := 5000000 }

/-- The call is dropped. -/
theorem whole_call_deadline_hanging :
    bounded.layers = [] ++ .timeout (.ofMillis 5) :: [] ∧
    beforeHanging.Awaits (.top "c" 0) (.named "t") ∧
    ∃ s w, hanging.Lives (.top "c" 0) True (.named "t") beforeHanging (.pending s, overdue) ∧
      hanging.resume s overdue = (.done (.error .timeout), w) ∧
      w.trace.countP (Entry.expires (.top "c" 0)) = 1 ∧
      ∀ v ∈ w.invoked (.top "c" 0), w.isCancelled v = true := by
  have hlayers : bounded.layers = [] ++ .timeout (.ofMillis 5) :: [] := rfl
  have hw₀ : beforeHanging.Awaits (.top "c" 0) (.named "t") := ⟨nofun, nofun, fun _ => rfl, nofun⟩
  obtain ⟨keeps, hd⟩ := bounded.docile (.top "c" 0) [[.hang]]
  have hfirst := (hd.start hw₀.ready).confined
  -- five milliseconds pass, in which nobody does anything
  have hmeanwhile : (hanging.start (.named "t") beforeHanging).2.Meanwhile (.top "c" 0)
      (.named "t") overdue :=
    ⟨hfirst.now.trans_le (Nat.zero_le _), hfirst.sane hw₀.sane,
      ⟨fun _ => Nat.le_refl _, [], rfl, nofun⟩, fun _ => rfl, [], rfl, nofun⟩
  let u := (Token.named "t").child (.top "c" 0) 0
  let s : Limited ((_ : Nat) × Token × (Visit ⊕ Empty)) := ⟨u, 5000000, 0, u, .inl ⟨u, .ok ""⟩⟩
  have hl : hanging.Lives (.top "c" 0) True (.named "t") beforeHanging (.pending s, overdue) := by
    have hpending : hanging.start (.named "t") beforeHanging =
        (.pending s, (hanging.start (.named "t") beforeHanging).2) := rfl
    have hstart : hanging.Lives (.top "c" 0) True (.named "t") beforeHanging
        (hanging.start (.named "t") beforeHanging) := .start
    rw [hpending] at hstart
    refine hstart.wait hmeanwhile fun _ d hd => ?_
    obtain rfl := List.mem_singleton.mp hd
    exact Nat.le_refl 5000000
  obtain ⟨-, -, hdone, -⟩ := whole_call_deadline hlayers [[.hang]] hw₀ hl.resume
  refine ⟨hlayers, hw₀, s, _, hl, rfl, ?_⟩
  obtain ⟨-, r', w', hreplaced, hcases⟩ := hdone (.error .timeout) _ rfl
  rcases hcases with ⟨-, -, hnone⟩ | ⟨s, x, -, -, -, -, -, honce, hall⟩
  · exact absurd hnone (by decide)
  · exact ⟨honce, hall⟩

end CallPolicy
