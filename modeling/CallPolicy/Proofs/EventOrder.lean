/-
In which order a call tells its events.

The retry layer tells of its attempts one after the other, and of each of them only its
hedge tells anything. So a call speaks the words of its layers (`Speaks.stack`), all its
life. The words do not show that a call was refused by the breaker, but the trace does, and
such a call tells nothing itself (`Declines.stack`).

* **`events_in_order`** — a call that returns has told a word of its layers; one that is
  dropped or panics has told the beginning of one, and then that its slot is back, if it had
  one; and after that nothing is heard of it.
-/
import CallPolicy.Proofs.Speaks

namespace CallPolicy

open Activity Operation Relation

variable {ο κ : Type} {w w' w₀ w₁ w₂ w₃ : World} {t u v : Token} {site : Site} {id : CallId}
  {n : Nat} {m : CallId → Nat} {kinds kinds' : List LayerKind} {timely : Prop} {x y : List Event}

/-! ### Retry -/

section

variable {r : RetrySettings} {o : Option Result} {f : Failure} {delay : Duration} {again : Bool}

theorem heard_attemptResult (id : CallId) (w : World) (site : Site) (r : RetrySettings) (n : Nat)
    (o : Option Result) : heard id (attemptResult site r n o w).2.trace = heard id w.trace := by
  unfold Operation.attemptResult
  split
  · rfl
  · exact World.heard_emit_silent rfl
  · rfl

theorem heard_mayRepeat (id : CallId) (w : World) (site : Site) (r : RetrySettings) (t : Token)
    (f : Failure) :
    heard id (mayRepeat site r t f w).2.trace = heard id w.trace := by
  unfold Operation.mayRepeat
  split
  · rfl
  · split
    · rfl
    · exact World.heard_note rfl

theorem heard_nextDelay (id : CallId) (w : World) (r : RetrySettings) (n : Nat) :
    heard id (nextDelay r n w).2.trace = heard id w.trace := by
  unfold Operation.nextDelay
  split <;> rfl

/-- An attempt that has failed is told of only if it is repeated. -/
theorem heard_judged (h₁ : attemptResult site r n o w = (.error f, w₁))
    (h₂ : mayRepeat site r t f w₁ = (again, w₂)) : heard id w₂.trace = heard id w.trace := by
  have hresult := heard_attemptResult id w site r n o
  have hmay := heard_mayRepeat id w₁ site r t f
  rw [h₁] at hresult
  rw [h₂] at hmay
  exact hmay.trans hresult

theorem heard_repeated (h₁ : attemptResult site r n o w = (.error f, w₁))
    (h₂ : mayRepeat site r t f w₁ = (true, w₂))
    (h₃ : nextDelay r n (w₂.emit site (.retrying n f)) = (delay, w₃)) :
    heard site.call w₃.trace = heard site.call w.trace ++ [.retrying n f] := by
  have hdelay := heard_nextDelay site.call (w₂.emit site (.retrying n f)) r n
  rw [h₃] at hdelay
  rw [hdelay, World.heard_emit rfl, heard_judged h₁ h₂]

end

/-- The number of attempts that are left says how many have been repeated. -/
def Operation.RetryState.Says (maxAttempts : Nat) (kinds : List LayerKind)
    (told : κ → List Event → Prop) : RetryState κ → List Event → Prop
  | .trying _ left inner, y => ∃ n z a, y = z ++ a ∧ Retried (.retry :: kinds) n z ∧
      told inner a ∧ left = maxAttempts - n
  | .waiting _ left _, y => ∃ n, Retried (.retry :: kinds) n y ∧ left = maxAttempts - n

namespace Activity.Speaks

section

variable {op : Operation} {keeps : (CallId → Nat) → Token → op.State → World → Prop}
  {told : op.State → List Event → Prop} (r : RetrySettings)
  (hbelow : ∀ k ∈ kinds, LayerKind.retry.position < k.position)

include hbelow

/-- An attempt tells of its hedge at most. -/
theorem attempt (h : op.Speaks site.call kinds keeps told (Word kinds)) :
    ∃ told', (attempt site r op).Speaks site.call kinds (attemptKeeps site op keeps r) told'
      fun _ y => Hedging kinds y := by
  have hbreaker : .breaker ∉ kinds := LayerKind.not_mem_of_below hbelow (by decide)
  have hlimit : .rateLimit ∉ kinds := LayerKind.not_mem_of_below hbelow (by decide)
  have hbulkhead : .bulkhead ∉ kinds := LayerKind.not_mem_of_below hbelow (by decide)
  have htimeout : .timeout ∉ kinds := LayerKind.not_mem_of_below hbelow (by decide)
  have hretry : .retry ∉ kinds := LayerKind.not_mem_of_below hbelow (Nat.le_refl _)
  have hword : ∀ {q y}, Word kinds q y → Hedging kinds y := fun hy =>
    (hy.underway hbreaker hlimit hbulkhead htimeout).hedging hbreaker hbulkhead hretry
  obtain ⟨maxAttempts, backoff, maxDelay, attemptTimeout, retryIf⟩ := r
  cases attemptTimeout with
  | none =>
    refine ⟨_, after (fun q w y hy => ⟨[], (List.append_nil _).symm, ?_⟩) (fun _ hy => hy) rfl h⟩
    rw [List.append_nil]
    exact hword hy
  | some length =>
    refine ⟨_, (h.within length).imp fun o y hy => ?_⟩
    rcases hy with ⟨q, -, hy⟩ | ⟨-, z, rfl, hz⟩
    · exact hword hy
    · rw [slotBack_of_not_mem hbulkhead, List.append_nil]
      exact hz.hedging hbreaker hbulkhead hretry

variable {atold : (Operation.attempt site r op).State → List Event → Prop}
  (hd : op.Attends site.call kinds keeps)
  (h : (Operation.attempt site r op).Speaks site.call kinds (attemptKeeps site op keeps r) atold
    fun _ y => Hedging kinds y)

include hd h

/-- An attempt has been looked at, with what has been told of the earlier ones. -/
theorem proceed (t : Token) (left : Nat)
    (out : Status (Operation.attempt site r op).State (Option Result) × World) {z : List Event}
    (hw : out.2.Ready m t)
    (hout : Spoken site.call kinds (x ++ z) (Operation.attempt site r op).holdings atold
      (fun _ y => Hedging kinds y) out)
    (hz : Retried (.retry :: kinds) n z) (hleft : left = r.maxAttempts.toNat - n) :
    Spoken site.call (.retry :: kinds) x (withRetry site r op).holdings
      (RetryState.Says r.maxAttempts.toNat kinds atold) (fun _ y => Underway (.retry :: kinds) y)
      (proceed site r t left out) := by
  have hbreaker : .breaker ∉ kinds := LayerKind.not_mem_of_below hbelow (by decide)
  have hbulkhead : .bulkhead ∉ kinds := LayerKind.not_mem_of_below hbelow (by decide)
  have hretry : .retry ∉ kinds := LayerKind.not_mem_of_below hbelow (Nat.le_refl _)
  have hbulkhead' : .bulkhead ∉ .retry :: kinds := by simpa using hbulkhead
  have hmore : kinds ⊆ .retry :: kinds := List.subset_cons_self _ _
  have hback : slotBack (.retry :: kinds) = slotBack kinds := slotBack_cons (by decide)
  have hattends := hd.attempt r
  -- the number of the attempt is what is missing from those left
  have attempt_eq : ∀ {left n : Nat}, left + 1 = r.maxAttempts.toNat - n →
      r.maxAttempts.toNat - (left + 1) = n := by omega
  have left_eq : ∀ {left n : Nat}, left + 1 = r.maxAttempts.toNat - n →
      left = r.maxAttempts.toNat - (n + 1) := by omega
  have hended : ∀ {z a : List Event} {n : Nat}, Retried (.retry :: kinds) n z → Hedging kinds a →
      Underway (.retry :: kinds) (z ++ a) := fun hz ha => hz.underway (ha.mono hmore) hbulkhead'
  -- the loop starts attempts that are due at once, so the induction is on those left
  fun_induction Operation.proceed site r t left out generalizing n z
  case case1 left inner w =>
    obtain ⟨a, ha, htold, hheld⟩ := hout
    exact ⟨z ++ a, ha.trans (List.append_assoc ..), ⟨n, z, a, rfl, hz, htold, hleft⟩,
      hheld.trans hback.symm⟩
  -- a panic goes through the layer, which tells nothing of it
  case case2 left q w =>
    obtain ⟨a, ha, hunder⟩ := hout
    refine ⟨z ++ a, ?_, hended hz (hunder.hedging hbreaker hbulkhead hretry)⟩
    rw [ha, hback]
    simp only [List.append_assoc]
  case case3 left o w n' v w₁ h₁ =>
    obtain ⟨a, ha, hhedge⟩ := hout
    have hsame := heard_attemptResult site.call w site r n' o
    rw [h₁] at hsame
    exact ⟨z ++ a, by rw [hsame, ha, List.append_assoc], hended hz hhedge⟩
  case case4 left o w n' f w₁ h₁ w₂ h₂ =>
    obtain ⟨a, ha, hhedge⟩ := hout
    exact ⟨z ++ a, by rw [heard_judged h₁ h₂, ha, List.append_assoc], hended hz hhedge⟩
  case case5 o w f w₁ w₂ h₂ n' h₁ =>
    obtain ⟨a, ha, hhedge⟩ := hout
    exact ⟨z ++ a, by rw [heard_judged h₁ h₂, ha, List.append_assoc], hended hz hhedge⟩
  -- the retry is told before the wait is given up
  case case6 o w f w₁ w₂ h₂ left delay w₃ wakeAt n' h₁ h₃ hcancel =>
    obtain ⟨a, ha, hhedge⟩ := hout
    obtain rfl : n' = n := attempt_eq hleft
    have hnext := hz.again List.mem_cons_self (hhedge.mono hmore) f
    refine ⟨z ++ a ++ [.retrying n' f], ?_, ?_⟩
    · rw [heard_repeated h₁ h₂ h₃, ha]
      simp only [List.append_assoc]
    · have hunder := hended hnext .alone
      rwa [List.append_nil] at hunder
  -- the next attempt is due at once, so its word starts after the retry
  case case7 o w f w₁ w₂ h₂ left delay w₃ wakeAt hdue n' h₁ h₃ hlive ih =>
    obtain ⟨a, ha, hhedge⟩ := hout
    obtain rfl : n' = n := attempt_eq hleft
    have hrepeated : w.Confined (.ofCall site.call [.retry] t) m w₃ :=
      .repeated site r w t List.mem_cons_self h₁ h₂ h₃
    have hready := hrepeated.ready hw
    have hstart := (hattends.start_after hready (.refl _ _ _)).confined
    have hheard : heard site.call w₃.trace = x ++ (z ++ a ++ [.retrying n' f]) := by
      rw [heard_repeated h₁ h₂ h₃, ha]
      simp only [List.append_assoc]
    exact ih (hstart.ready hready) (hheard ▸ h.start hready.later)
      (hz.again List.mem_cons_self (hhedge.mono hmore) f) (left_eq hleft)
  case case8 o w f w₁ w₂ h₂ left delay w₃ wakeAt hlate n' h₁ h₃ hlive =>
    obtain ⟨a, ha, hhedge⟩ := hout
    obtain rfl : n' = n := attempt_eq hleft
    refine ⟨z ++ a ++ [.retrying n' f], ?_, ⟨n' + 1, ?_, left_eq hleft⟩, ?_⟩
    · rw [heard_repeated h₁ h₂ h₃, ha]
      simp only [List.append_assoc]
    · exact hz.again List.mem_cons_self (hhedge.mono hmore) f
    · exact (slotBack_of_not_mem hbulkhead').symm

/-- **The retry layer** tells of each attempt, one after the other. -/
theorem withRetry :
    (withRetry site r op).Speaks site.call (.retry :: kinds)
      (RetryState.Keeps (attemptKeeps site op keeps r))
      (RetryState.Says r.maxAttempts.toNat kinds atold) (Word (.retry :: kinds)) := by
  have hbreaker : .breaker ∉ kinds := LayerKind.not_mem_of_below hbelow (by decide)
  have hbulkhead : .bulkhead ∉ kinds := LayerKind.not_mem_of_below hbelow (by decide)
  have hretry : .retry ∉ kinds := LayerKind.not_mem_of_below hbelow (Nat.le_refl _)
  have hbulkhead' : .bulkhead ∉ .retry :: kinds := by simpa using hbulkhead
  have hmore : kinds ⊆ .retry :: kinds := List.subset_cons_self _ _
  have hback : slotBack (.retry :: kinds) = slotBack kinds := slotBack_cons (by decide)
  have hattends := hd.attempt r
  -- what the layer says is first taken for what a call under way says
  have hspeaks : (Operation.withRetry site r op).Speaks site.call (.retry :: kinds)
      (RetryState.Keeps (attemptKeeps site op keeps r))
      (RetryState.Says r.maxAttempts.toNat kinds atold)
      fun _ y => Underway (.retry :: kinds) y := by
    refine ⟨fun {s y} htold => ?_, fun {t w} hw => ?_,
      fun {m t s x y w} hw hkept hx htold hheld => ?_⟩
    · cases s with
      | trying token left inner =>
        obtain ⟨n, z, a, rfl, hz, ha, -⟩ := htold
        have hhedge := (h.underway ha).hedging hbreaker hbulkhead hretry
        exact hz.underway (hhedge.mono hmore) hbulkhead'
      | waiting token left wakeAt =>
        obtain ⟨n, hz, -⟩ := htold
        have hunder := hz.underway .alone hbulkhead'
        rwa [List.append_nil] at hunder
    -- the first attempt starts with nothing said
    · have hstart := (hattends.start hw).confined
      have hspoken := h.start hw
      rw [← List.append_nil (heard site.call w.trace)] at hspoken
      exact proceed r hbelow hd h t _ _ (hstart.ready hw) hspoken .first rfl
    · cases s with
      | trying token left inner =>
        obtain ⟨rfl, hkept⟩ := hkept
        obtain ⟨n, z, a, rfl, hz, ha, hleft⟩ := htold
        rw [← List.append_assoc] at hx
        have hresume := (hattends.resume hw hkept).confined
        exact proceed r hbelow hd h token left _ (hresume.ready hw)
          (h.resume hw hkept hx ha (hheld.trans hback)) hz hleft
      | waiting token left wakeAt =>
        obtain rfl : token = t := hkept
        obtain ⟨n, hz, hleft⟩ := htold
        have hunder := hz.underway .alone hbulkhead'
        rw [List.append_nil] at hunder
        -- the wait is given up, over, or goes on
        rw [resume_waiting]
        split
        · exact ⟨y, hx, hunder⟩
        · split
          · have hstart := (hattends.start hw.later).confined
            exact proceed r hbelow hd h token left _ (hstart.ready hw.later)
              (hx ▸ h.start hw.later) hz hleft
          · exact ⟨y, hx, ⟨n, hz, hleft⟩, hheld⟩
  -- a call that has ended has said a whole word
  exact hspeaks.imp fun q y hy => hy.word hbulkhead' q

end

end Activity.Speaks

/-! ### Hedge -/

/-- Nothing is told before the second attempt is launched. -/
def Operation.HedgeState.Says (delay : Duration) : HedgeState κ → List Event → Prop
  | .early .., y => y = []
  | .alone _, y => y = []
  | .racing .., y => y = [.hedgeLaunched delay]

namespace Activity.Speaks

section

variable {op : Operation} {keeps : (CallId → Nat) → Token → op.State → World → Prop}
  {delay : Duration} (hd : op.Attends site.call [] keeps)

include hd

theorem heard_start_child (hw : w.Ready m t) (hu : w.Fosters site.call m t u) :
    heard site.call (op.start u w).2.trace = heard site.call w.trace :=
  (hd.confined_start hw hu).heard_eq

theorem heard_resume_child {s : op.State} (hs : Raised site.call keeps m t u s w) :
    heard site.call (op.resume s w).2.trace = heard site.call w.trace := by
  obtain ⟨m', hconfined⟩ := hd.confined_resume hs
  exact hconfined.heard_eq

theorem heard?_holdings_child {s : op.State} (hs : Raised site.call keeps m t u s w) :
    (op.holdings s).filterMap (·.heard? site.call) = [] := by
  obtain ⟨-, m', -, -, -, hkept⟩ := hs
  exact heard?_holdings hd hkept

/-- The first attempt stays alone. -/
theorem judgeAlone {out : Status op.State Result × World}
    (hlands : Lands (Lodges site.call [.hedge] op keeps m t u) (fun _ => True) out)
    (hx : heard site.call out.2.trace = x) :
    Spoken site.call [.hedge] x (withHedge site delay op).holdings (HedgeState.Says delay)
      (fun _ y => Hedging [.hedge] y) (judgeAlone out) := by
  rcases out with ⟨first | r | q, w⟩
  · exact ⟨[], hx.trans (List.append_nil x).symm, rfl, heard?_holdings_child hd hlands.raised⟩
  · exact ⟨[], hx.trans (List.append_nil x).symm, .alone⟩
  · exact ⟨[], hx.trans (List.append_nil x).symm, Hedging.alone.underway (by decide)⟩

/-- The rival has been looked at after it was told of. -/
theorem judgeRival {first : op.State} {out : Status op.State Result × World}
    (hfirst : (op.holdings first).filterMap (·.heard? site.call) = [])
    (hlands : Lands (Lodges site.call [.hedge] op keeps m t v) (fun _ => True) out)
    (hx : heard site.call out.2.trace = x ++ [.hedgeLaunched delay]) :
    Spoken site.call [.hedge] x (withHedge site delay op).holdings (HedgeState.Says delay)
      (fun _ y => Hedging [.hedge] y) (judgeRival site u first v out) := by
  rcases out with ⟨rival | r | q, w⟩
  · refine ⟨_, hx, rfl, ?_⟩
    show (op.holdings rival ++ op.holdings first).filterMap _ = _
    rw [List.filterMap_append, hfirst, heard?_holdings_child hd hlands.raised]
    rfl
  · refine ⟨[.hedgeLaunched delay, .hedgeWon], ?_, .won List.mem_cons_self delay⟩
    show heard site.call (((w.cancel u).emit site .hedgeWon).releaseAll _).trace = _
    rw [World.heard_releaseAll, hfirst, World.heard_emit rfl, World.cancel_trace]
    rw [show heard site.call w.trace = _ from hx]
    simp
  · refine ⟨[.hedgeLaunched delay], ?_, ?_⟩
    · show heard site.call (w.releaseAll (op.holdings first)).trace = _
      rw [World.heard_releaseAll, hfirst, List.append_nil]
      exact hx
    · exact (Hedging.launched List.mem_cons_self delay).underway (by decide)

/-- The instant of the launch has come. -/
theorem launch {first : op.State} (hw : w.Ready m t)
    (hfirst : Lodges site.call [.hedge] op keeps m t u first w)
    (hx : heard site.call w.trace = x) :
    Spoken site.call [.hedge] x (withHedge site delay op).holdings (HedgeState.Says delay)
      (fun _ y => Hedging [.hedge] y) (launch site delay t u first w) := by
  have hmore : op.Attends site.call [.hedge] keeps := hd.attends_mono (List.nil_subset _)
  rw [Operation.launch_eq]
  split
  · exact judgeAlone hd (hmore.resume_child hfirst.raised).lands
      ((heard_resume_child hd hfirst.raised).trans hx)
  · let w₁ := w.emit site (.hedgeLaunched delay)
    let w₂ := (w₁.mint site.call t).2
    let v := (w₁.mint site.call t).1
    obtain ⟨-, hready₂, hfirst₂, hv, hne⟩ :=
      Docile.launched List.mem_cons_self hmore delay hw hfirst
    -- the launch is the one event before the rival is polled
    have htold : heard site.call w₂.trace = x ++ [.hedgeLaunched delay] := by
      rw [← hx]
      exact World.heard_emit rfl
    have hresume := hmore.resume_child hfirst₂
    obtain ⟨m₁, hconfined⟩ := hd.confined_resume hfirst₂
    have hspared := hconfined.spares_sibling hv hfirst₂.fosters hne.symm
    -- nothing further is heard from the first: no layer inside a hedge tells of anything
    have hx₃ := (heard_resume_child hd hfirst₂).trans htold
    split
    next first' w₃ heq =>
      rw [heq] at hresume hspared hconfined hx₃
      have hready₃ := hconfined.ready hready₂
      have hv₃ := hv.spares hspared (Token.governs_self v)
      exact judgeRival hd (heard?_holdings_child hd hresume.lands.raised)
        (hmore.start_child hready₃ hv₃).lands ((heard_start_child hd hready₃ hv₃).trans hx₃)
    -- the first has answered after all: a launch with no rival to tell of
    next r w₃ heq =>
      rw [heq] at hx₃
      exact ⟨_, hx₃, .launched List.mem_cons_self delay⟩
    next q w₃ heq =>
      rw [heq] at hx₃
      exact ⟨_, hx₃, (Hedging.launched List.mem_cons_self delay).underway (by decide)⟩

/-- The first attempt has been looked at while it is alone. -/
theorem judgeFirst {launchAt : Nat} {out : Status op.State Result × World}
    (hw : out.2.Ready m t)
    (hlands : Lands (Lodges site.call [.hedge] op keeps m t u) (fun _ => True) out)
    (hx : heard site.call out.2.trace = x) :
    Spoken site.call [.hedge] x (withHedge site delay op).holdings (HedgeState.Says delay)
      (fun _ y => Hedging [.hedge] y) (judgeFirst site delay t u launchAt out) := by
  rcases out with ⟨first | r | q, w⟩
  · unfold Operation.judgeFirst
    dsimp only
    split
    · exact launch hd hw hlands hx
    · exact ⟨[], hx.trans (List.append_nil x).symm, rfl, heard?_holdings_child hd hlands.raised⟩
  · exact ⟨[], hx.trans (List.append_nil x).symm, .alone⟩
  · exact ⟨[], hx.trans (List.append_nil x).symm, Hedging.alone.underway (by decide)⟩

/-- Both attempts are looked at, the first one first. -/
theorem resumeRacing {first rival : op.State} (hw : w.Ready m t) (hne : u ≠ v)
    (hfirst : Raised site.call keeps m t u first w) (hrival : Raised site.call keeps m t v rival w)
    (hx : heard site.call w.trace = x ++ [.hedgeLaunched delay]) :
    Spoken site.call [.hedge] x (withHedge site delay op).holdings (HedgeState.Says delay)
      (fun _ y => Hedging [.hedge] y)
      ((withHedge site delay op).resume (.racing u first v rival) w) := by
  have hmore : op.Attends site.call [.hedge] keeps := hd.attends_mono (List.nil_subset _)
  have hrival' := hmore.raised_beside hw hfirst hrival hne.symm
  have hheld := heard?_holdings_child hd hrival
  have hresume := hmore.resume_child hfirst
  have hx₁ := (heard_resume_child hd hfirst).trans hx
  rw [Operation.withHedge_resume_racing]
  split
  next first' w₁ heq =>
    rw [heq] at hrival' hresume hx₁
    exact judgeRival hd (heard?_holdings_child hd hresume.lands.raised)
      (hmore.resume_child hrival').lands ((heard_resume_child hd hrival').trans hx₁)
  next r w₁ heq =>
    rw [heq] at hx₁
    refine ⟨_, ?_, .launched List.mem_cons_self delay⟩
    show heard site.call ((w₁.cancel v).releaseAll (op.holdings rival)).trace = _
    rw [World.heard_releaseAll, hheld, List.append_nil]
    exact hx₁
  next q w₁ heq =>
    rw [heq] at hx₁
    refine ⟨_, ?_, (Hedging.launched List.mem_cons_self delay).underway (by decide)⟩
    show heard site.call (w₁.releaseAll (op.holdings rival)).trace = _
    rw [World.heard_releaseAll, hheld, List.append_nil]
    exact hx₁

/-- **The hedge layer** tells that a second attempt is launched, and perhaps that it came in
first. -/
theorem withHedge :
    (withHedge site delay op).Speaks site.call [.hedge] (HedgeState.Keeps site.call keeps)
      (HedgeState.Says delay) (Word [.hedge]) := by
  have hmore : op.Attends site.call [.hedge] keeps := hd.attends_mono (List.nil_subset _)
  -- a race says nothing until the rival is launched
  have hspeaks : (Operation.withHedge site delay op).Speaks site.call [.hedge]
      (HedgeState.Keeps site.call keeps) (HedgeState.Says delay)
      fun _ y => Hedging [.hedge] y := by
    refine ⟨fun {s y} htold => ?_, fun {t w} hw => ?_, fun {m t s x y w} hw hkept hx htold _ => ?_⟩
    · cases s with
      | early caller u launchAt first =>
        obtain rfl : y = [] := htold
        exact Hedging.alone.underway (by decide)
      | alone first =>
        obtain rfl : y = [] := htold
        exact Hedging.alone.underway (by decide)
      -- and then that, and perhaps in the end that the rival has won
      | racing u first v rival =>
        obtain rfl : y = [.hedgeLaunched delay] := htold
        exact (Hedging.launched List.mem_cons_self delay).underway (by decide)
    · have hready := hw.mint site.call t
      have hu : (w.mint site.call t).2.Fosters site.call w.minted t (w.mint site.call t).1 :=
        .mint hw
      have hfirst := hmore.start_child hready hu
      exact judgeFirst hd (hfirst.confined.ready hready) hfirst.lands
        (heard_start_child hd hready hu)
    · cases s with
      | early caller u launchAt first =>
        obtain ⟨rfl, hraised⟩ := hkept
        obtain rfl : y = [] := htold
        rw [List.append_nil] at hx
        have hresume := hmore.resume_child hraised
        exact judgeFirst hd (hresume.confined.ready hw) hresume.lands
          ((heard_resume_child hd hraised).trans hx)
      | alone first =>
        obtain ⟨u, hraised⟩ := hkept
        obtain rfl : y = [] := htold
        rw [List.append_nil] at hx
        exact judgeAlone hd (hmore.resume_child hraised).lands
          ((heard_resume_child hd hraised).trans hx)
      | racing u first v rival =>
        obtain ⟨hne, hfirst, hrival⟩ := hkept
        obtain rfl : y = [.hedgeLaunched delay] := htold
        exact resumeRacing hd hw hne hfirst hrival hx
  exact hspeaks.imp fun r y hy => (hy.underway (by decide)).word (by decide) r

end

end Activity.Speaks

/-! ### All the layers -/

section

variable {op : Operation} {keeps : (CallId → Nat) → Token → op.State → World → Prop}
  {layers : List Layer} (hd : op.Attends site.call [] keeps)
  (hordered : layers.Pairwise fun a b => a.kind.position < b.kind.position)
  (hfaultless : ∀ l ∈ layers, l.fault? = none)

include hd hordered hfaultless

/-- Inside the fallback, what is told comes with the result. -/
theorem Activity.Speaks.inside (hfallback : .fallback ∉ layers.map Layer.kind) :
    ∃ told, (stack site layers op).Speaks site.call (layers.map Layer.kind)
      (stackKeeps site op keeps layers) told (Word (layers.map Layer.kind)) := by
  induction layers with
  | nil =>
    refine ⟨_, (of_attends hd).imp fun r y hy => ?_⟩
    rw [show y = [] from hy]
    exact (Hedging.alone.underway List.not_mem_nil).word List.not_mem_nil r
  | cons l rest ih =>
    obtain ⟨hbelow, hrest⟩ := List.pairwise_cons.mp hordered
    rw [List.map_cons, List.mem_cons, not_or] at hfallback
    obtain ⟨told, hspeaks⟩ := ih hrest (fun l hl => hfaultless l (List.mem_cons_of_mem _ hl))
      hfallback.2
    have hattends := hd.stack site rest
    rw [List.append_nil] at hattends
    have hkinds : ∀ k ∈ rest.map Layer.kind, l.kind.position < k.position := by
      intro k hk
      obtain ⟨l', hl', rfl⟩ := List.mem_map.mp hk
      exact hbelow l' hl'
    cases l with
    | fallback value => exact absurd rfl hfallback.1
    | timeout length => exact ⟨_, hspeaks.withTimeout length⟩
    | breaker b =>
      have hprobes := BreakerSettings.probes_pos (hfaultless _ List.mem_cons_self)
      exact ⟨_, hspeaks.behindBreaker b hprobes hkinds⟩
    | rateLimit limit => exact ⟨_, hspeaks.behindRateLimit limit⟩
    | bulkhead capacity => exact ⟨_, hspeaks.behindBulkhead capacity hkinds⟩
    | retry r =>
      obtain ⟨told', hattempt⟩ := hspeaks.attempt r hkinds
      exact ⟨_, withRetry r hkinds hattends hattempt⟩
    | hedge delay =>
      -- no layer is further in
      have hnil : rest = [] := List.eq_nil_iff_forall_not_mem.mpr fun l' hl' => by
        have hlt := hbelow l' hl'
        cases l' <;> exact absurd hlt (by simp [Layer.kind, LayerKind.position])
      subst hnil
      exact ⟨_, withHedge hd⟩

/-- **A call through layers** tells the words of its layers. -/
theorem Activity.Speaks.stack :
    ∃ told, (stack site layers op).Speaks site.call (layers.map Layer.kind)
      (stackKeeps site op keeps layers) told (Told (layers.map Layer.kind)) := by
  by_cases hmem : .fallback ∈ layers.map Layer.kind
  · cases layers with
    | nil => cases hmem
    | cons l rest =>
      obtain ⟨hbelow, hrest⟩ := List.pairwise_cons.mp hordered
      have hkinds : ∀ k ∈ rest.map Layer.kind, l.kind.position < k.position := by
        intro k hk
        obtain ⟨l', hl', rfl⟩ := List.mem_map.mp hk
        exact hbelow l' hl'
      have hfallback : .fallback ∉ rest.map Layer.kind :=
        LayerKind.not_mem_of_below hkinds (Nat.zero_le _)
      obtain ⟨told, hspeaks⟩ := inside hd hrest
        (fun l hl => hfaultless l (List.mem_cons_of_mem _ hl)) hfallback
      have hkind : l.kind = .fallback := by
        rcases List.mem_cons.mp hmem with h | h
        · exact h.symm
        · exact absurd h hfallback
      cases l with
      | fallback value => exact ⟨_, hspeaks.withFallback value⟩
      | _ => cases hkind
  · obtain ⟨told, hspeaks⟩ := inside hd hordered hfaultless hmem
    exact ⟨told, hspeaks.imp fun r y hy => .plain hy fun h => absurd h hmem⟩

end

/-- **All its life**, an activity has told words that belong to where it stands. -/
theorem Activity.Speaks.lives {a : Operation} {told : a.State → List Event → Prop}
    {keeps : (CallId → Nat) → Token → a.State → World → Prop} {ended : Result → List Event → Prop}
    {out : Status a.State Result × World} (h : a.Speaks id kinds keeps told ended)
    (hd : a.Attends id kinds' keeps) (hw₀ : w₀.Awaits id t) (hl : a.Lives id timely t w₀ out) :
    Spoken id kinds [] a.holdings told ended out := by
  induction hl with
  | start => exact hw₀.heard_eq ▸ h.start hw₀.ready
  | wait _ hw _ ih =>
    obtain ⟨y, hy, hs⟩ := ih
    exact ⟨y, hw.heard_eq.trans hy, hs⟩
  | resume hl ih =>
    obtain ⟨hready, hkept⟩ := hd.lives hw₀.ready hl
    obtain ⟨y, hy, htold, hback⟩ := ih
    exact h.resume hready hkept hy htold hback

/-! ### Refusals by the breaker -/

/-- Does the entry tell that the breaker refuses the call? -/
def Entry.declines (site : Site) (e : Entry) : Bool := e.record = .event site .circuitRefused

theorem Entry.declines_of_ne {r : Record} (h : r ≠ .event site .circuitRefused) :
    (Entry.mk n r).declines site = false := decide_eq_false h

theorem Entry.declines_of_isReturn {e : Entry} (h : e.record.isReturn = true) :
    e.declines site = false := by
  refine decide_eq_false fun heq => ?_
  rw [heq] at h
  cases h

/-- The breaker does not refuse the call when the operation is started, or the call ends at
once, with a certain result and with certain events. -/
structure Operation.Declines (op : Operation) (site : Site) (r : Result) (told : List Event) :
    Prop where
  start : ∀ {t} {w : World}, w.Ready w.minted t →
    w.Keeps (fun _ => ()) (Entry.declines site) (op.start t w).2 ∨
    ∃ w', op.start t w = (.done r, w') ∧
      heard site.call w'.trace = heard site.call w.trace ++ told

namespace Operation.Declines

variable {op : Operation} {keeps : (CallId → Nat) → Token → op.State → World → Prop}
  {r : Result} {told : List Event}

theorem of_confined (h : w.Confined (.ofCall site.call kinds t) m w') (hk : .breaker ∉ kinds) :
    w.Keeps (fun _ => ()) (Entry.declines site) w' := by
  obtain ⟨es, heq, hes⟩ := h.trace
  refine ⟨rfl, Nat.le_of_eq h.now.symm, es, heq, fun e he => decide_eq_false fun hrecord => ?_⟩
  have htold := hes e he
  rw [hrecord] at htold
  exact hk (htold.own rfl _ rfl)

theorem withFallback {f : Failure} (value : String) (h : op.Declines site (.error f) told) :
    (withFallback site value op).Declines site (.ok value) (told ++ [.fellBack f]) := by
  have hemit : ∀ (w : World) (f : Failure),
      w.Keeps (fun _ => ()) (Entry.declines site) (w.emit site (.fellBack f)) :=
    fun w _ => .emit w site _ (Entry.declines_of_ne nofun)
  have hpost := Activity.after.follow_rel op World.Keeps.refl
    (withFallback_step site World.Keeps.refl hemit value)
  refine ⟨fun {t w} hw => ?_⟩
  rcases h.start hw with hkeeps | ⟨w', heq, htold⟩
  · exact .inl (hkeeps.trans (hpost _))
  · refine .inr ⟨w'.emit site (.fellBack f), ?_, ?_⟩
    · show Activity.after.follow _ op (op.start t w) = _
      rw [heq]
      rfl
    · rw [World.heard_emit rfl, htold, List.append_assoc]

theorem withTimeout (length : Duration) (h : op.Declines site r told) :
    (withTimeout site length op).Declines site r told := by
  have hlook : ∀ (u : Token) (d : Nat) (out : Status op.State Result × World),
      out.2.Keeps (fun _ => ()) (Entry.declines site) (Activity.after.follow _
        (op.within site.call length) (Activity.within.check op u d out)).2 := fun u d out =>
    (Activity.within.check_rel op World.Keeps.refl u
      (fun hs w => (World.Keeps.releaseAll (fun _ => Entry.declines_of_isReturn) w hs).trans
        (.silent rfl rfl)) d out).trans
      (Activity.after.follow_rel (op.within site.call length) World.Keeps.refl
        (withTimeout_step site length World.Keeps.refl fun w =>
          .emit w site _ (Entry.declines_of_ne nofun)) _)
  refine ⟨fun {t w} hw => ?_⟩
  let u := (w.mint site.call t).1
  let w₁ := (w.mint site.call t).2
  rcases h.start (hw.child site.call) with hkeeps | ⟨w', heq, htold⟩
  · have hminted : w.Keeps (fun _ => ()) (Entry.declines site) w₁ := .silent rfl rfl
    exact .inl (hminted.trans (hkeeps.trans (hlook u _ _)))
  · refine .inr ⟨w', ?_, htold⟩
    show Activity.after.follow _ (op.within site.call length)
      (Activity.within.check op u _ (op.start u w₁)) = _
    rw [heq]
    rfl

theorem behindBreaker {b : BreakerSettings} (hb : 0 < b.probes.toNat)
    (hd : op.Attends site.call kinds keeps) (hk : .breaker ∉ kinds) :
    (behindBreaker site b op).Declines site (.error .circuitOpen) [] := by
  refine ⟨fun {t w} hw => ?_⟩
  cases htake : acquirePermit site b w with
  | mk e w₁ =>
    cases e with
    | error r =>
      obtain ⟨hsame, rfl⟩ := Speaks.heard_refused hb htake
      exact .inr ⟨w₁, Activity.holding_start_error htake, hsame.trans (List.append_nil _).symm⟩
    | ok p =>
      -- an admitted call tells of none of these, and whatever follows is not the breaker's
      have htaken : w.Keeps (fun _ => ()) (Entry.declines site) w₁ := by
        obtain ⟨b', -, rfl⟩ := World.acquirePermit_ok htake
        exact (World.Keeps.setBreaker w site b' rfl
          (Entry.declines_of_isReturn (Record.isReturn_news site _))).trans (.note _ _ rfl)
      have hready := ((World.Confined.of_acquirePermit (m := w.minted) site t htake).ready hw).later
      have hstart : (Operation.behindBreaker site b op).start t w = _ :=
        Activity.holding_start_ok htake
      rw [hstart]
      refine .inl (htaken.trans ((of_confined (hd.start hready).confined hk).trans ?_))
      exact Activity.holding.keep_rel op World.Keeps.refl
        (fun p r w => .settlePermit (fun _ => Entry.declines_of_isReturn) w site b
          (Entry.declines_of_ne nofun))
        (fun p w => .release (fun _ => Entry.declines_of_isReturn) w _) p _

section

variable {layers : List Layer} (hd : op.Attends site.call [] keeps)
  (hordered : layers.Pairwise fun a b => a.kind.position < b.kind.position)
  (hfaultless : ∀ l ∈ layers, l.fault? = none)

include hd hordered hfaultless

/-- Inside the fallback, nothing is told. -/
theorem inside (hfallback : ∀ v, .fallback v ∉ layers) :
    (stack site layers op).Declines site (.error .circuitOpen) [] := by
  induction layers with
  | nil => exact ⟨fun hw => .inl (of_confined (hd.start hw).confined List.not_mem_nil)⟩
  | cons l rest ih =>
    obtain ⟨hbelow, hrest⟩ := List.pairwise_cons.mp hordered
    have hinner := ih hrest (fun l hl => hfaultless l (List.mem_cons_of_mem _ hl))
      fun v hv => hfallback v (List.mem_cons_of_mem _ hv)
    by_cases hpos : LayerKind.breaker.position < l.kind.position
    · -- there is no breaker
      obtain ⟨hattends, hk⟩ := hd.stack_of_below site <| List.forall_mem_cons.mpr
        ⟨hpos, fun l' hl' => Nat.lt_trans hpos (hbelow l' hl')⟩
      exact ⟨fun hw => .inl (of_confined (hattends.start hw).confined hk)⟩
    · cases l with
      | fallback value => exact absurd List.mem_cons_self (hfallback value)
      | timeout length => exact hinner.withTimeout length
      | breaker b =>
        obtain ⟨hattends, hk⟩ := hd.stack_of_below site hbelow
        exact behindBreaker (BreakerSettings.probes_pos (hfaultless _ List.mem_cons_self)) hattends hk
      | _ => exact absurd (by simp [Layer.kind, LayerKind.position]) hpos

/-- **A call that the breaker refuses** tells nothing but that it falls back, if it does. -/
theorem stack : (∀ v, .fallback v ∉ layers) ∧
      (stack site layers op).Declines site (.error .circuitOpen) [] ∨
    ∃ v, .fallback v ∈ layers ∧
      (stack site layers op).Declines site (.ok v) [.fellBack .circuitOpen] := by
  by_cases hmem : ∃ v, .fallback v ∈ layers
  · obtain ⟨v, hv⟩ := hmem
    refine .inr ⟨v, hv, ?_⟩
    cases layers with
    | nil => cases hv
    | cons l rest =>
      obtain ⟨hbelow, hrest⟩ := List.pairwise_cons.mp hordered
      have hnone : ∀ v, .fallback v ∉ rest := fun v' hv' =>
        absurd (hbelow _ hv') (Nat.not_lt_zero _)
      obtain rfl : .fallback v = l := (List.mem_cons.mp hv).resolve_right (hnone v)
      exact (inside hd hrest (fun l hl => hfaultless l (List.mem_cons_of_mem _ hl))
        hnone).withFallback v
  · have hnone : ∀ v, .fallback v ∉ layers := fun v hv => hmem ⟨v, hv⟩
    exact .inl ⟨hnone, inside hd hordered hfaultless hnone⟩

end

/-- **Whoever the breaker has refused** has ended as soon as it was started. -/
theorem lives {layers : List Layer} {out : Status op.State Result × World}
    (h : op.Declines site r told) (hguarded : op.Guarded site layers keeps)
    (hd : op.Attends site.call kinds keeps) (hw₀ : w₀.Awaits site.call t)
    (hl : op.Lives site.call timely t w₀ out)
    (hrefused : ∃ e ∈ out.2.trace, e.record = .event site .circuitRefused) :
    out.1 = .done r ∧ heard site.call out.2.trace = told := by
  obtain ⟨e, he, hrecord⟩ := hrefused
  -- the refusal is among what was recorded since the call was started
  have hsince : ∀ {about : Entry → Bool}, w₀.Keeps (fun _ => ()) about out.2 → about e = false := by
    intro about hkeeps
    obtain ⟨es, htr, hes⟩ := hkeeps.trace
    rw [htr] at he
    rcases List.mem_append.mp he with he | he
    · exact hes e he
    · refine absurd ?_ (hw₀.trace e he)
      rw [hrecord]
      exact .self
  rcases hguarded.lives hd hw₀ hl with henters | ⟨-, -, -, rfl, -, -⟩
  · have hquiet := hsince henters.quiet
    rw [Entry.refuses, hrecord] at hquiet
    simp [Record.refusal?] at hquiet
  · rcases h.start hw₀.ready with hkeeps | ⟨w', heq, htold⟩
    · exact absurd (decide_eq_true hrecord) (Bool.eq_false_iff.mp (hsince hkeeps))
    · rw [heq]
      exact ⟨rfl, by rw [htold, hw₀.heard_eq, List.nil_append]⟩

end Operation.Declines

/-! ### The events of a call -/

/-- **The events of a call come in order.** A call that has returned has told a word of its
layers, and one that the breaker has refused has returned at once and told nothing, but that
it fell back if it did. One that is suspended has told the beginning of such a word, and when
it is dropped all that it still tells is that its slot is back, if it took one; so it is when
it panics. What was told by then is a word itself. Afterwards nothing more is heard of the
call, neither while others are at work nor in all that follows in a simulation. -/
theorem events_in_order (p : Policy) (script : Script)
    {out : Status (p.call id (script.operation id)).State Result × World}
    (hw₀ : w₀.Awaits id t) (hl : (p.call id (script.operation id)).Lives id timely t w₀ out) :
    let call := p.call id (script.operation id)
    let back := fun y : List Event => if .slotTaken ∈ y then [Event.slotReleased] else []
    (∀ r w, out = (.done r, w) → Told p.kinds r (heard id w.trace)) ∧
    ((∃ e ∈ out.2.trace, e.record = .event ⟨p.origin, id⟩ .circuitRefused) →
      (∀ v, .fallback v ∉ p.layers) ∧ out.1 = .done (.error .circuitOpen) ∧
        heard id out.2.trace = [] ∨
      ∃ v, .fallback v ∈ p.layers ∧ out.1 = .done (.ok v) ∧
        heard id out.2.trace = [.fellBack .circuitOpen]) ∧
    (∀ s w, out = (.pending s, w) → Underway p.kinds (heard id w.trace) ∧
      heard id (w.releaseAll (call.holdings s)).trace =
        heard id w.trace ++ back (heard id w.trace)) ∧
    (∀ q w, out = (.panicked q, w) →
      ∃ y, Underway p.kinds y ∧ heard id w.trace = y ++ back y) ∧
    (∀ y, Underway p.kinds y → ∀ value, Told p.kinds (.ok value) (y ++ back y)) ∧
    (∀ w', out.2.Meanwhile id t w' → heard id w'.trace = heard id out.2.trace) ∧
    ∀ {name n chance S S'}, id = .top name n → Simulation.Reachable chance S →
      n < S.started.count name → (∀ r ∈ S.running, r.call.id ≠ id) →
      ReflTransGen Simulation.Move S S' → heard id S'.world.trace = heard id S.world.trace := by
  intro call back
  obtain ⟨keeps, hd⟩ := script.docile id
  let site : Site := ⟨p.origin, id⟩
  have hop : (script.operation id).Attends site.call [] keeps := hd
  obtain ⟨told, hspeaks⟩ := Activity.Speaks.stack hop p.ordered p.faultless
  have hattends : call.Attends id _ _ := hd.stack site p.layers
  -- the layers tell a word each, and the call the word of them all
  have hspoken : Spoken id p.kinds [] call.holdings told (Told p.kinds) out :=
    hspeaks.lives hattends hw₀ hl
  -- a slot that was taken in the word is the only thing that tells on its return
  have hback : ∀ {y}, Underway p.kinds y → back y = slotBack p.kinds := by
    intro y hy
    simp only [back, hy.slotTaken_mem_iff]
    rfl
  refine ⟨?_, fun hrefused => ?_, ?_, ?_, ?_, fun w' hw => hw.heard_eq, ?_⟩
  · rintro r w rfl
    obtain ⟨y, hy, htold⟩ := hspoken
    rw [hy]
    exact htold
  -- a call that its breaker refuses has asked the gates before it and nothing else
  · have hguarded : (stack site p.layers (script.operation id)).Guarded site p.layers _ :=
      .stack hd (.script script id) p.ordered p.faultless
    rcases Operation.Declines.stack hop p.ordered p.faultless with ⟨hnone, h⟩ | ⟨v, hv, h⟩
    · exact .inl ⟨hnone, h.lives hguarded hattends hw₀ hl hrefused⟩
    · exact .inr ⟨v, hv, h.lives hguarded hattends hw₀ hl hrefused⟩
  · rintro s w rfl
    obtain ⟨y, hy, htold, hheld⟩ := hspoken
    have hunder : Underway p.kinds (heard id w.trace) := hy.symm ▸ hspeaks.underway htold
    refine ⟨hunder, ?_⟩
    rw [hback hunder, ← hheld]
    exact w.heard_releaseAll _
  · rintro q w rfl
    obtain ⟨y, hy, hunder⟩ := hspoken
    refine ⟨y, hunder, ?_⟩
    rw [hback hunder]
    exact hy
  · intro y hy value
    rw [hback hy]
    exact hy.told value
  · rintro name n chance S S' rfl hS hstarted hover hmoves
    exact (hS.reaches.orderly.over hstarted hover hmoves (t := .named "") rfl).1.heard_eq

/-- A policy with a fallback value, a deadline of ten milliseconds, one slot, and two attempts
with a second try each after five milliseconds. -/
def talkative : Policy where
  origin := ⟨0, "p", .none⟩
  layers := [.fallback "d", .timeout (.ofMillis 10), .bulkhead 1,
             .retry { maxAttempts := 2, backoff := .constant (.ofMillis 0) },
             .hedge (.ofMillis 5)]
  criticality := .critical
  dependencies := []
  ordered := by simp [Layer.kind, LayerKind.position]
  faultless := by simp [Layer.fault?, Layer.emptySpan?, maxCapacity, Duration.ofMillis, maxNanos]

/-- An operation that fails, and hangs when it is tried again. -/
def faltering : Script := [[.give (.error (.operation "e" none))], [.hang]]

/-- A call through the policy to it. -/
def talking : Operation := talkative.call (.top "c" 0) (faltering.operation (.top "c" 0))

/-- The world in which the call is started, with the policy built. -/
def beforeTalking : World := talkative.install (.start .plain)

/-- The state in which the second attempt waits for its second try. -/
def talkingAlone : talking.State :=
  let u := (Token.named "t").child (.top "c" 0) 0
  let v := u.child (.top "c" 0) 2
  ⟨u, 10000000, (), .trying u 0 (.early u v 5000000 ⟨1, v, .inl ⟨v, .ok ""⟩⟩)⟩

/-- The state in which both tries hang. -/
def talkingTwice : talking.State :=
  let u := (Token.named "t").child (.top "c" 0) 0
  let v := u.child (.top "c" 0) 2
  let v' := u.child (.top "c" 0) 3
  ⟨u, 10000000, (),
    .trying u 0 (.racing v ⟨1, v, .inl ⟨v, .ok ""⟩⟩ v' ⟨2, v', .inl ⟨v', .ok ""⟩⟩)⟩

/-- The second try is due. -/
def talkingSlow : World :=
  { (talking.start (.named "t") beforeTalking).2 with now := 5000000 }

/-- The deadline of the call has come. -/
def talkingLate : World :=
  { (talking.resume talkingAlone talkingSlow).2 with now := 10000000 }

/-- The first attempt fails, the second one hangs twice, and when the deadline has come the
slot is given back before that is told. -/
theorem events_in_order_stuck :
    beforeTalking.Awaits (.top "c" 0) (.named "t") ∧
    ∃ w, talking.Lives (.top "c" 0) True (.named "t") beforeTalking
        (.pending talkingTwice, talkingLate) ∧
      talking.resume talkingTwice talkingLate = (.done (.ok "d"), w) ∧
      heard (.top "c" 0) w.trace = [.slotTaken, .retrying 1 (.operation "e" none),
        .hedgeLaunched (.ofMillis 5), .slotReleased, .timedOut (.ofMillis 10),
        .fellBack .timeout] ∧
      Told talkative.kinds (.ok "d") (heard (.top "c" 0) w.trace) ∧
      Underway talkative.kinds (heard (.top "c" 0) talkingLate.trace) := by
  have hw₀ : beforeTalking.Awaits (.top "c" 0) (.named "t") :=
    ⟨nofun, nofun, fun _ => rfl, nofun⟩
  obtain ⟨keeps, hd⟩ := talkative.docile (.top "c" 0) faltering
  have hstart : talking.Lives (.top "c" 0) True (.named "t") beforeTalking
      (.pending talkingAlone, (talking.start (.named "t") beforeTalking).2) := .start
  have hslow := hstart.wait (.clock (hd.lives hw₀.ready hstart).1.sane (Nat.zero_le 5000000))
    fun _ d hd => by
      rcases List.mem_cons.mp hd with rfl | hd
      · exact Nat.le_of_ble_eq_true rfl
      · exact Nat.le_of_eq (List.mem_singleton.mp hd).symm
  have hrace : talking.Lives (.top "c" 0) True (.named "t") beforeTalking
      (.pending talkingTwice, (talking.resume talkingAlone talkingSlow).2) := hslow.resume
  have hlate : talking.Lives (.top "c" 0) True (.named "t") beforeTalking
      (.pending talkingTwice, talkingLate) :=
    hrace.wait (.clock (hd.lives hw₀.ready hrace).1.sane (Nat.le_of_ble_eq_true rfl))
      fun _ d hd => Nat.le_of_eq (List.mem_singleton.mp hd).symm
  obtain ⟨hdone, -⟩ := events_in_order talkative faltering hw₀ hlate.resume
  obtain ⟨-, -, hpending, -⟩ := events_in_order talkative faltering hw₀ hlate
  exact ⟨hw₀, _, hlate, rfl, rfl, hdone _ _ rfl, (hpending _ _ rfl).1⟩

end CallPolicy
