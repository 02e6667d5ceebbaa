/-
Activities and what they tell.

Each layer adds letters to what is told inside it. An activity `Speaks` when, wherever it
stands, what has been told since it started is a word that belongs there (`Spoken`):
`told` for a suspended state, `ended` for an output; and when it panics it has given its
slot back at once. No activity holds another slot of its call than the one of the bulkhead.

* **`Speaks.of_attends`** — what is inside all layers tells nothing;
* **`Speaks.after`**, **`Speaks.holding`**, **`Speaks.within`** — the building blocks;
* **`Speaks.behindBreaker`**, **`Speaks.behindBulkhead`**, … — the gates and the endings.
-/
import CallPolicy.Proofs.EventGrammar

namespace CallPolicy

open Activity Operation

variable {ο ο' κ η : Type} {w w' : World} {t u : Token} {site : Site} {id : CallId}
  {m : CallId → Nat} {kinds kinds' : List LayerKind} {x y : List Event}

/-- What has been told for a call, since it had told `x`, belongs to where an activity has
led. -/
def Spoken (id : CallId) (kinds : List LayerKind) (x : List Event) (holdings : κ → List Holding)
    (told : κ → List Event → Prop) (ended : ο → List Event → Prop) : Status κ ο × World → Prop
  | (.pending s, w) => ∃ y, heard id w.trace = x ++ y ∧ told s y ∧
      (holdings s).filterMap (·.heard? id) = slotBack kinds
  | (.done o, w) => ∃ y, heard id w.trace = x ++ y ∧ ended o y
  | (.panicked _, w) => ∃ y, heard id w.trace = x ++ (y ++ slotBack kinds) ∧ Underway kinds y

/-- The words of an activity on behalf of a call. -/
structure Activity.Speaks (a : Activity Token ο) (id : CallId) (kinds : List LayerKind)
    (keeps : (CallId → Nat) → Token → a.State → World → Prop)
    (told : a.State → List Event → Prop) (ended : ο → List Event → Prop) : Prop where
  underway : ∀ {s y}, told s y → Underway kinds y
  start : ∀ {t} {w : World}, w.Ready w.minted t →
    Spoken id kinds (heard id w.trace) a.holdings told ended (a.start t w)
  resume : ∀ {m t s x y} {w : World}, w.Ready m t → keeps m t s w →
    heard id w.trace = x ++ y → told s y →
    (a.holdings s).filterMap (·.heard? id) = slotBack kinds →
    Spoken id kinds x a.holdings told ended (a.resume s w)

/-- What is inside all layers says nothing. -/
def Silent (_ : κ) (y : List Event) : Prop := y = []

namespace Activity.Speaks

/-! ### Activities inside all layers -/

/-- The slot of a call is none of what is held inside all its layers. -/
theorem heard?_holdings {a : Activity Token ο} {s : a.State}
    {keeps : (CallId → Nat) → Token → a.State → World → Prop} (hd : a.Attends id [] keeps)
    (hs : keeps m t s w) : (a.holdings s).filterMap (·.heard? id) = [] := by
  refine List.filterMap_eq_nil_iff.mpr fun hold hmem => ?_
  have hholds := hd.holdings hs hold hmem
  cases hold with
  | slot site =>
    refine if_neg fun hcall => ?_
    exact absurd (hholds.own hcall _ rfl) List.not_mem_nil
  | invocation => rfl
  | permit => rfl

/-- **What is inside all layers** is not heard of the call. -/
theorem of_attends {a : Activity Token ο} {keeps : (CallId → Nat) → Token → a.State → World → Prop}
    (hd : a.Attends id [] keeps) : a.Speaks id [] keeps Silent Silent := by
  have hpoll : ∀ {x m t} {w : World} {out : Status a.State ο × World},
      heard id w.trace = x → Yields (.ofCall id [] t) m w
        (a.Stands (.ofCall id [] t) (keeps m) t) (fun _ => True) out →
      Spoken id [] x a.holdings Silent Silent out := by
    rintro x m t w ⟨s | o | z, w'⟩ hx ⟨hw, hlands⟩ <;>
      have hsame : heard id w'.trace = x ++ [] := by rw [hw.heard_eq, hx, List.append_nil]
    · exact ⟨[], hsame, rfl, heard?_holdings hd hlands.kept⟩
    · exact ⟨[], hsame, rfl⟩
    · exact ⟨[], hsame, Hedging.alone.underway List.not_mem_nil⟩
  refine ⟨?_, fun hw => hpoll rfl (hd.start hw), ?_⟩
  · rintro s y rfl
    exact Hedging.alone.underway List.not_mem_nil
  · rintro m t s x y w hw hs hx rfl -
    exact hpoll (hx.trans (List.append_nil x)) (hd.resume hw hs)

/-! ### Building blocks -/

section

variable {a : Activity Token ο} {keeps : (CallId → Nat) → Token → a.State → World → Prop}
  {told : a.State → List Event → Prop} {ended ended' : ο → List Event → Prop}

/-- The same of what is known about outputs. -/
theorem imp (h : a.Speaks id kinds keeps told ended) (hended : ∀ o y, ended o y → ended' o y) :
    a.Speaks id kinds keeps told ended' := by
  have hout : ∀ {x} {out : Status a.State ο × World}, Spoken id kinds x a.holdings told ended out →
      Spoken id kinds x a.holdings told ended' out := by
    rintro x ⟨s | o | z, w⟩ hs
    · exact hs
    · obtain ⟨y, hy, ho⟩ := hs
      exact ⟨y, hy, hended o y ho⟩
    · exact hs
  exact ⟨h.underway, fun hw => hout (h.start hw),
    fun hw hs hx htold hback => hout (h.resume hw hs hx htold hback)⟩

/-- What follows at the end adds to what has been told. -/
theorem after {f : ο → World → ο' × World} {ended' : ο' → List Event → Prop}
    (hf : ∀ o (w : World) y, ended o y → ∃ z, heard id (f o w).2.trace = heard id w.trace ++ z ∧
      ended' (f o w).1 (y ++ z))
    (hunder : ∀ y, Underway kinds y → Underway kinds' y) (hback : slotBack kinds = slotBack kinds')
    (h : a.Speaks id kinds keeps told ended) : (a.after f).Speaks id kinds' keeps told ended' := by
  have hfollow : ∀ {x} {out : Status a.State ο × World},
      Spoken id kinds x a.holdings told ended out →
      Spoken id kinds' x a.holdings told ended' (Activity.after.follow f a out) := by
    rintro x ⟨s | o | z, w⟩ hs
    · obtain ⟨y, hy, htold, hs⟩ := hs
      exact ⟨y, hy, htold, hs.trans hback⟩
    · obtain ⟨y, hy, ho⟩ := hs
      obtain ⟨z, hz, ho'⟩ := hf o w y ho
      exact ⟨y ++ z, by rw [← List.append_assoc, ← hy]; exact hz, ho'⟩
    · obtain ⟨y, hy, hu⟩ := hs
      exact ⟨y, hback ▸ hy, hunder y hu⟩
  exact ⟨fun htold => hunder _ (h.underway htold), fun hw => hfollow (h.start hw),
    fun hw hs hx htold hheld => hfollow (h.resume hw hs hx htold (hheld.trans hback.symm))⟩

/-- What it takes to get hold of something is told before, and what it takes to give it back
is told after what is told meanwhile. -/
theorem holding {held : η → Holding} {take : World → Except ο η × World}
    {give : η → ο → World → World} {enters : List Event → Prop}
    (hready : ∀ {m t} {w : World}, w.Ready m t → (take w).2.Ready m t)
    (hok : ∀ {w e w'}, take w = (.ok e, w') → ∃ p, heard id w'.trace = heard id w.trace ++ p ∧
      enters p)
    (herror : ∀ {w o w'}, take w = (.error o, w') → ∃ y, heard id w'.trace = heard id w.trace ++ y ∧
      ended' o y)
    (hunder : ∀ {p y}, enters p → Underway kinds y → Underway kinds' (p ++ y))
    (hgive : ∀ {p o y} e (w : World), enters p → ended o y → ∃ z,
      heard id (give e o w).trace = heard id w.trace ++ z ∧ ended' o (p ++ y ++ z))
    (hheld : ∀ e, slotBack kinds ++ ((held e).heard? id).toList = slotBack kinds')
    (h : a.Speaks id kinds keeps told ended) :
    (a.holding held take give).Speaks id kinds' (fun m t s => keeps m t s.2)
      (fun s y => ∃ p z, y = p ++ z ∧ enters p ∧ told s.2 z) ended' := by
  -- what is held is given back last
  have hback : ∀ (e : η) (s : a.State), ((a.holding held take give).holdings (e, s)).filterMap
      (·.heard? id) = (a.holdings s).filterMap (·.heard? id) ++ ((held e).heard? id).toList := by
    intro e s
    show (a.holdings s ++ [held e]).filterMap _ = _
    rw [List.filterMap_append]
    cases hh : (held e).heard? id <;> simp [hh]
  -- the word goes on behind what was said on entering
  have hkeep : ∀ {x p} (e : η) {out : Status a.State ο × World}, enters p →
      Spoken id kinds (x ++ p) a.holdings told ended out →
      Spoken id kinds' x (a.holding held take give).holdings
        (fun s y => ∃ p z, y = p ++ z ∧ enters p ∧ told s.2 z) ended'
        (Activity.holding.keep held give a e out) := by
    rintro x p e ⟨s | o | z, w⟩ hp hs
    · obtain ⟨y, hy, htold, hs⟩ := hs
      refine ⟨p ++ y, by rw [← List.append_assoc]; exact hy, ⟨p, y, rfl, hp, htold⟩, ?_⟩
      rw [hback, hs, hheld]
    · obtain ⟨y, hy, ho⟩ := hs
      obtain ⟨z, hz, ho'⟩ := hgive e w hp ho
      refine ⟨p ++ y ++ z, ?_, ho'⟩
      show heard id (give e o w).trace = _
      rw [hz, hy]
      simp only [List.append_assoc]
    · obtain ⟨y, hy, hu⟩ := hs
      refine ⟨p ++ y, ?_, hunder hp hu⟩
      show heard id (w.release (held e)).trace = _
      rw [World.heard_release, hy, ← hheld e]
      simp only [List.append_assoc]
  refine ⟨?_, fun {t w} hw => ?_, ?_⟩
  · rintro s _ ⟨p, z, rfl, hp, htold⟩
    exact hunder hp (h.underway htold)
  -- what is to be held is taken first, or refused
  · have hw' := hready hw
    cases htk : take w with
    | mk e w' =>
      rw [htk] at hw'
      cases e with
      | error o =>
        rw [holding_start_error htk]
        exact herror htk
      | ok e =>
        obtain ⟨p, hp, henters⟩ := hok htk
        rw [holding_start_ok htk]
        exact hkeep e henters (hp ▸ h.start hw'.later)
  · rintro m t ⟨e, s⟩ x _ w hw hkept hx ⟨p, z, rfl, hp, htold⟩ hs
    rw [hback, ← hheld e, List.append_left_inj] at hs
    rw [← List.append_assoc] at hx
    exact hkeep e hp (h.resume hw hkept hx htold hs)

/-- What has been told when the deadline came is followed by the slot. -/
theorem within (length : Duration) (h : a.Speaks site.call kinds keeps told ended) :
    (a.within site.call length).Speaks site.call kinds
      (fun m t s => Raised site.call keeps m t s.token s.inner) (fun s y => told s.inner y)
      (fun o y => (∃ r, o = some r ∧ ended r y) ∨
        o = none ∧ ∃ z, y = z ++ slotBack kinds ∧ Underway kinds z) := by
  have hcheck : ∀ {x} (u : Token) (d : Nat) {out : Status a.State ο × World},
      Spoken site.call kinds x a.holdings told ended out →
      Spoken site.call kinds x (a.within site.call length).holdings (fun s y => told s.inner y)
        (fun o y => (∃ r, o = some r ∧ ended r y) ∨
          o = none ∧ ∃ z, y = z ++ slotBack kinds ∧ Underway kinds z)
        (Activity.within.check a u d out) := by
    rintro x u d ⟨s | o | z, w⟩ hs
    · obtain ⟨y, hy, htold, hback⟩ := hs
      unfold Activity.within.check
      dsimp only
      split
      · refine ⟨y ++ slotBack kinds, ?_, .inr ⟨rfl, y, rfl, h.underway htold⟩⟩
        show heard site.call (w.releaseAll (a.holdings s)).trace = _
        rw [World.heard_releaseAll, hy, hback, List.append_assoc]
      · exact ⟨y, hy, htold, hback⟩
    · obtain ⟨y, hy, ho⟩ := hs
      exact ⟨y, hy, .inl ⟨o, rfl, ho⟩⟩
    · exact hs
  refine ⟨h.underway, fun {t w} hw => hcheck _ _ (h.start (hw.child site.call)), ?_⟩
  intro m t s x y w hw hkept hx htold hback
  obtain ⟨-, m', -, -, hready, hkept⟩ := hkept
  exact hcheck _ _ (h.resume hready hkept hx htold hback)

end

/-! ### Endings and gates -/

section

variable {op : Operation} {keeps : (CallId → Nat) → Token → op.State → World → Prop}
  {told : op.State → List Event → Prop}

theorem withFallback (value : String)
    (h : op.Speaks site.call kinds keeps told (Word kinds)) :
    (withFallback site value op).Speaks site.call (.fallback :: kinds) keeps told
      (Told (.fallback :: kinds)) := by
  refine after (fun r w y hword => ?_) (fun y hy => hy.cons (by decide))
    (slotBack_cons (l := .fallback) (by decide)).symm h
  have hword' : Word (.fallback :: kinds) r y := hword.cons (by decide)
  cases r with
  | ok x =>
    refine ⟨[], (List.append_nil _).symm, ?_⟩
    rw [List.append_nil]
    exact .plain hword' fun _ => ⟨x, rfl⟩
  | error f =>
    exact ⟨[.fellBack f], World.heard_emit rfl, .fellBack List.mem_cons_self hword' value⟩

theorem withTimeout (length : Duration)
    (h : op.Speaks site.call kinds keeps told (Word kinds)) :
    (withTimeout site length op).Speaks site.call (.timeout :: kinds)
      (fun m t s => Raised site.call keeps m t s.token s.inner) (fun s y => told s.inner y)
      (Word (.timeout :: kinds)) := by
  refine after (fun o w y hended => ?_) (fun y hy => hy.cons (by decide))
    (slotBack_cons (l := .timeout) (by decide)).symm (h.within length)
  rcases hended with ⟨r, rfl, hword⟩ | ⟨rfl, z, rfl, hz⟩
  · refine ⟨[], (List.append_nil _).symm, ?_⟩
    rw [List.append_nil]
    exact hword.cons (by decide)
  · refine ⟨[.timedOut length], World.heard_emit rfl, ?_⟩
    rw [← slotBack_cons (l := .timeout) (by decide)]
    exact .admitted _ (hz.cons (by decide)) (.timedOut List.mem_cons_self length)

/-- A call that passes the breaker tells that the breaker is half-open now, if it was not. -/
theorem heard_acquired {b : BreakerSettings} {p : Permit}
    (h : acquirePermit site b w = (.ok p, w')) :
    ∃ y, heard site.call w'.trace = heard site.call w.trace ++ y ∧
      Waking (.breaker :: kinds) y := by
  obtain ⟨b', hi, rfl⟩ := World.acquirePermit_ok h
  have hstate := Breaker.issue_state b (w.arrival b site.origin.key)
  rw [hi] at hstate
  refine ⟨_, (World.heard_note (r := .gate site _) rfl).trans (w.heard_setBreaker site b'), ?_⟩
  split
  · exact .awake
  next hne =>
    have hhalf : b'.state = .halfOpen := by
      rcases Breaker.recover_cases b w.now (w.gatesOf site).breaker with hr | ⟨-, -, hr⟩
      · exact absurd (hstate.trans (congrArg Breaker.state hr)) hne
      · exact hstate.trans (congrArg Breaker.state hr)
    rw [hhalf]
    exact .woken List.mem_cons_self

/-- A call that the breaker refuses tells no hook of it. -/
theorem heard_refused {b : BreakerSettings} {r : Result} (hb : 0 < b.probes.toNat)
    (h : acquirePermit site b w = (.error r, w')) :
    heard site.call w'.trace = heard site.call w.trace ∧ r = .error .circuitOpen := by
  obtain ⟨hr, hi, rfl⟩ := World.acquirePermit_error h
  have hsame : w.arrival b site.origin.key = (w.gatesOf site).breaker :=
    Breaker.recover_of_issue_none hb hi
  rw [hsame, World.setBreaker_self]
  exact ⟨World.heard_emit_silent rfl, hr⟩

/-- The outcome of a call may open or close the breaker, unless it is ignored. -/
theorem heard_settled (kinds : List LayerKind) (w : World) (b : BreakerSettings) (p : Permit)
    (o : Outcome) :
    ∃ z, heard site.call (w.settlePermit site b p o).trace = heard site.call w.trace ++ z ∧
      Closing (.breaker :: kinds) z ∧ (o = .ignored → z = []) := by
  refine ⟨_, w.heard_settlePermit site b p o, ?_, ?_⟩
  · split
    · exact .silent
    next hne =>
      rcases Breaker.record_cases b w.now p o (w.gatesOf site).breaker with
        ⟨hsame, -⟩ | ⟨-, -, ⟨hopen, -⟩ | ⟨hclosed, -⟩⟩
      · exact absurd hsame hne
      · rw [hopen]
        exact .opened List.mem_cons_self
      · rw [hclosed]
        exact .closed List.mem_cons_self
  · rintro rfl
    exact if_pos (Breaker.record_ignored_state _ _ _ _)

theorem behindBreaker (b : BreakerSettings) (hb : 0 < b.probes.toNat)
    (hbelow : ∀ k ∈ kinds, LayerKind.breaker.position < k.position)
    (h : op.Speaks site.call kinds keeps told (Word kinds)) :
    (behindBreaker site b op).Speaks site.call (.breaker :: kinds) (fun m t s => keeps m t s.2)
      (fun s y => ∃ p z, y = p ++ z ∧ Waking (.breaker :: kinds) p ∧ told s.2 z)
      (Word (.breaker :: kinds)) := by
  have hbreaker : .breaker ∉ kinds := LayerKind.not_mem_of_below hbelow (Nat.le_refl _)
  have htimeout : .timeout ∉ kinds := LayerKind.not_mem_of_below hbelow (by decide)
  have hmore : kinds ⊆ .breaker :: kinds := List.subset_cons_self _ _
  have hback : slotBack (.breaker :: kinds) = slotBack kinds := slotBack_cons (by decide)
  have hunder : ∀ {p y}, Waking (.breaker :: kinds) p → Underway kinds y →
      Underway (.breaker :: kinds) (p ++ y) := by
    rintro p _ hp ⟨hq, hu, ha⟩
    rw [hq.eq_nil hbreaker, List.nil_append, ← slotTold_cons (l := .breaker) (by decide),
      ← List.append_assoc]
    exact .intro hp (hu.mono hmore) (ha.mono hmore)
  refine holding (fun {m t w} hw => ?_) heard_acquired (fun hacquire => ?_) hunder
    (fun {p r y} e w hp hword => ?_) (fun e => ?_) h
  · have htaken : w.Confined (.ofCall site.call [.breaker] t) m (acquirePermit site b w).2 :=
      .acquirePermit site t w b List.mem_cons_self
    exact htaken.ready hw
  · obtain ⟨hsame, rfl⟩ := heard_refused hb hacquire
    exact ⟨[], by rw [hsame, List.append_nil], .refused List.mem_cons_self⟩
  · obtain ⟨z, hz, hclosing, hignored⟩ := heard_settled kinds w b e (.ofResult r)
    refine ⟨z, hz, ?_⟩
    cases hword with
    | refused hmem => exact absurd hmem hbreaker
    | limited hmem hq =>
      -- what the gates further in refuse does not count
      rw [hignored rfl, hq.eq_nil hbreaker, List.append_nil, List.nil_append]
      exact .limited (hmore hmem) hp
    | full hmem hq =>
      rw [hignored rfl, hq.eq_nil hbreaker, List.append_nil, List.nil_append]
      exact .full (hmore hmem) hp
    | admitted _ hy hc =>
      rw [hc.eq_nil hbreaker htimeout, List.append_nil, ← List.append_assoc, ← hback]
      exact .admitted r (hunder hp hy) hclosing
  · rw [hback]
    exact List.append_nil _

theorem behindRateLimit (limit : RateLimit)
    (h : op.Speaks site.call kinds keeps told (Word kinds)) :
    (behindRateLimit site limit op).Speaks site.call (.rateLimit :: kinds) keeps told
      (Word (.rateLimit :: kinds)) := by
  have hback : slotBack (.rateLimit :: kinds) = slotBack kinds := slotBack_cons (by decide)
  have hout : ∀ {x} {out : Status op.State Result × World},
      Spoken site.call kinds x op.holdings told (Word kinds) out →
      Spoken site.call (.rateLimit :: kinds) x op.holdings told (Word (.rateLimit :: kinds))
        out := by
    rintro x ⟨s | o | z, w⟩ ⟨y, hy, hs⟩
    · exact ⟨y, hy, hs.1, hs.2.trans hback.symm⟩
    · exact ⟨y, hy, hs.cons (by decide)⟩
    · exact ⟨y, hback.symm ▸ hy, hs.cons (by decide)⟩
  refine ⟨fun htold => (h.underway htold).cons (by decide), fun {t w} hw => ?_,
    fun hw hs hx htold hheld => hout (h.resume hw hs hx htold (hheld.trans hback))⟩
  unfold Operation.behindRateLimit
  dsimp only
  split
  next w₁ htk =>
    have hready := (World.Confined.of_takeToken (m := w.minted) site t htk).ready hw
    obtain ⟨bucket, rfl⟩ := takeToken_eq site w htk
    have hstart := hout (h.start hready.later)
    rwa [World.heard_note (r := .gate site .tokenTaken) rfl] at hstart
  next w₁ htk =>
    obtain ⟨bucket, rfl⟩ := takeToken_eq site w htk
    exact ⟨[.rateLimited], World.heard_emit rfl, .limited List.mem_cons_self .awake⟩

theorem behindBulkhead (capacity : Nat)
    (hbelow : ∀ k ∈ kinds, LayerKind.bulkhead.position < k.position)
    (h : op.Speaks site.call kinds keeps told (Word kinds)) :
    (behindBulkhead site capacity op).Speaks site.call (.bulkhead :: kinds)
      (fun m t s => keeps m t s.2)
      (fun s y => ∃ p z, y = p ++ z ∧ p = [.slotTaken] ∧ told s.2 z)
      (Word (.bulkhead :: kinds)) := by
  -- what is inside comes after the bulkhead, so it has none of these gates
  have hbreaker : .breaker ∉ kinds := LayerKind.not_mem_of_below hbelow (by decide)
  have hlimit : .rateLimit ∉ kinds := LayerKind.not_mem_of_below hbelow (by decide)
  have hbulkhead : .bulkhead ∉ kinds := LayerKind.not_mem_of_below hbelow (Nat.le_refl _)
  have htimeout : .timeout ∉ kinds := LayerKind.not_mem_of_below hbelow (by decide)
  have hmore : kinds ⊆ .bulkhead :: kinds := List.subset_cons_self _ _
  have htold : slotTold (.bulkhead :: kinds) = [.slotTaken] := if_pos List.mem_cons_self
  have hback : slotBack (.bulkhead :: kinds) = [.slotReleased] := if_pos List.mem_cons_self
  -- the slot is told of before anything inside, and nothing has been awaited by then
  have hunder : ∀ {p y}, p = [.slotTaken] → Underway kinds y →
      Underway (.bulkhead :: kinds) (p ++ y) := by
    rintro p y rfl hy
    obtain ⟨n, u, a, hu, ha, rfl⟩ := hy.attempts hbreaker hbulkhead
    have hawake : Waking (.bulkhead :: kinds) [] := .awake
    have hunder := Underway.intro hawake (hu.mono hmore) (ha.mono hmore)
    rwa [htold] at hunder
  refine holding (fun {m t w} hw => ?_) (fun {w e w'} htake => ?_) (fun {w r w'} htake => ?_) hunder
    (fun {p r y} e w hp hword => ?_) (fun e => ?_) h
  · have htaken : w.Confined (.ofCall site.call [.bulkhead] t) m (takeSlot site capacity w).2 :=
      .takeSlot site t w capacity List.mem_cons_self
    exact htaken.ready hw
  · obtain ⟨-, rfl⟩ := takeSlot_ok site w htake
    exact ⟨[.slotTaken], World.heard_emit rfl, rfl⟩
  · obtain ⟨-, rfl, rfl⟩ := takeSlot_error site w htake
    exact ⟨[.bulkheadFull], World.heard_emit rfl, .full List.mem_cons_self .awake⟩
  -- the slot comes back last of all, which closes the word
  · refine ⟨[.slotReleased], World.heard_emit rfl, ?_⟩
    have hend := Word.admitted r (hunder hp (hword.underway hbreaker hlimit hbulkhead htimeout))
      .silent
    rwa [hback, List.append_nil] at hend
  · rw [slotBack_of_not_mem hbulkhead, hback, Holding.heard?, if_pos rfl]
    rfl

end

end Activity.Speaks

end CallPolicy
