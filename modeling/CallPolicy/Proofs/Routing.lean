/-
Policies whose layers are elsewhere.

A policy is no more than the place where its layers keep their gates, tell their events
and find their hooks. A `Routing` gives every layer of some policies another such place,
which need not be the same one for two layers of a policy. `Routing.Carries` relates a
world to one in which everything has been done at those places instead: the clocks and
the tokens agree, and each gate is found in the same condition where its layer is now.

What has been recorded plays no part in what is done next. So a `Link` is any relation of
two worlds that agree up to their traces, as long as it is kept when the same is done in
both of them, be it elsewhere in the second one.

* **`Link.Carries.emit`**, **`Link.Carries.setBreaker`**, … — what is done in one world, done
  elsewhere in the other one;
* **`Link.Carries.releaseAll`** — also when things are given back;
* **`Link.Carries.acquirePermit`**, **`Link.Carries.takeSlot`**, **`Link.Carries.takeToken`** —
  a gate answers the same.
-/
import CallPolicy.Proofs.Confined

namespace CallPolicy

open Operation

variable {α : Type}

/-- The record with another site, if a layer makes it. -/
def Record.relocate (f : Site → Site) : Record → Record
  | .event site e => .event (f site) e
  | .gate site step => .gate (f site) step
  | .asked site g again => .asked (f site) g again
  | r => r

/-- Another place for each layer of some policies. Layers of one kind are in the same place
iff they were before. -/
structure Routing where
  origins : List Origin
  route : Origin → LayerKind → Origin
  hooks_route : ∀ {o}, o ∈ origins → ∀ k, (route o k).hooks = o.hooks
  key_route : ∀ {o o'}, o ∈ origins → o' ∈ origins →
    ∀ k, (route o k).key = (route o' k).key ↔ o.key = o'.key

namespace Routing

/-- Where a layer is now that was at a site. -/
def site (ρ : Routing) (k : LayerKind) (site : Site) : Site := ⟨ρ.route site.origin k, site.call⟩

@[simp] theorem site_call (ρ : Routing) (k : LayerKind) (σ : Site) : (ρ.site k σ).call = σ.call :=
  rfl

/-- What is recorded elsewhere. -/
def record (ρ : Routing) (r : Record) : Record :=
  match r.teller? with
  | some k => r.relocate (ρ.site k)
  | none => r

/-- The entry of what is recorded elsewhere. -/
def entry (ρ : Routing) (e : Entry) : Entry := ⟨e.time, ρ.record e.record⟩

/-- What is held elsewhere. -/
def holding (ρ : Routing) : Holding → Holding
  | .slot site => .slot (ρ.site .bulkhead site)
  | .permit site s p => .permit (ρ.site .breaker site) s p
  | .invocation call k token => .invocation call k token

/-- Every layer stays where it is. -/
def stay (origins : List Origin) : Routing where
  origins
  route o _ := o
  hooks_route _ _ := rfl
  key_route _ _ _ := Iff.rfl

theorem record_stay (origins : List Origin) (r : Record) : (stay origins).record r = r := by
  unfold record
  split
  · cases r <;> rfl
  · rfl

/-- Is the thing held at a policy that takes part? -/
def Handles (ρ : Routing) : Holding → Prop
  | .slot site => site.origin ∈ ρ.origins
  | .permit site _ _ => site.origin ∈ ρ.origins
  | .invocation _ _ _ => True

/-- A part of the gates of each policy is found where the layer is now that it belongs to. -/
def Finds (ρ : Routing) (k : LayerKind) (part : Gates → α) (g g' : Nat → Gates) : Prop :=
  ∀ o ∈ ρ.origins, part (g' (ρ.route o k).key) = part (g o.key)

/-- In the second world everything has been done elsewhere. -/
structure Carries (ρ : Routing) (w w' : World) : Prop where
  now : w'.now = w.now
  cancelled : w'.cancelled = w.cancelled
  minted : w'.minted = w.minted
  invoked : w'.invoked = w.invoked
  chance : w'.chance = w.chance
  drawn : w'.drawn = w.drawn
  trace : w'.trace = w.trace.map ρ.entry
  breaker : ρ.Finds .breaker Gates.breaker w.gates w'.gates
  bucket : ρ.Finds .rateLimit Gates.bucket w.gates w'.gates
  occupied : ρ.Finds .bulkhead Gates.occupied w.gates w'.gates

/-- In the second world everything has been done elsewhere, whatever was recorded there. -/
abbrev Alike (ρ : Routing) (w w' : World) : Prop :=
  ρ.Carries w { w' with trace := w.trace.map ρ.entry }

theorem Carries.alike {ρ : Routing} {w w' : World} (h : ρ.Carries w w') : ρ.Alike w w' :=
  { h with trace := rfl }

theorem Carries.note {ρ : Routing} {w w' : World} (h : ρ.Carries w w') (r : Record) :
    ρ.Carries (w.note r) (w'.note (ρ.record r)) := by
  have htrace : (w'.note (ρ.record r)).trace = (w.note r).trace.map ρ.entry := by
    rw [World.note_trace, World.note_trace, h.now, h.trace]
    rfl
  exact { h with trace := htrace }

section

variable {ρ : Routing} {site : Site} {k : LayerKind} {part : Gates → α} {g g' : Nat → Gates}
  {v v' : Gates}

/-- The part is changed where it is. -/
theorem Finds.assign (h : ρ.Finds k part g g') (hsite : site.origin ∈ ρ.origins)
    (hv : part v' = part v) :
    ρ.Finds k part (assign g site.origin.key v) (assign g' (ρ.site k site).origin.key v') := by
  intro o ho
  have hkey : (ρ.route o k).key = (ρ.site k site).origin.key ↔ o.key = site.origin.key :=
    ρ.key_route ho hsite k
  by_cases heq : o.key = site.origin.key
  · rw [heq, assign_self, hkey.mpr heq, assign_self, hv]
  · rw [assign_of_ne heq, assign_of_ne (mt hkey.mp heq)]
    exact h o ho

/-- Another part is changed. -/
theorem Finds.frame {key key' : Nat} (h : ρ.Finds k part g g') (hv : part v = part (g key))
    (hv' : part v' = part (g' key')) :
    ρ.Finds k part (CallPolicy.assign g key v) (CallPolicy.assign g' key' v') := by
  have hsame : ∀ {g : Nat → Gates} {key v} (_ : part v = part (g key)) x,
      part (CallPolicy.assign g key v x) = part (g x) := by
    intro g key v hv x
    by_cases hx : x = key
    · rw [hx, assign_self, hv]
    · rw [assign_of_ne hx]
  intro o ho
  rw [hsame hv, hsame hv']
  exact h o ho

end

end Routing

/-- The record is made in the course of a call, and not by a fallback unless it is at one of
the sites. -/
def Record.Told (backs : Site → Prop) : Record → Prop
  | .settled .. => False
  | .event site (.fellBack _) => backs site
  | _ => True

/-- A relation of worlds that agree up to their traces, which is kept when the same is done
in both, elsewhere in the second one. It says nothing about ends of calls, and about
fallbacks at some sites only. -/
structure Link extends Routing where
  Backs : Site → Prop
  Carries : World → World → Prop
  alike : ∀ {w w'}, Carries w w' → toRouting.Alike w w'
  /-- Nothing is recorded. -/
  silent : ∀ {w w' v v'}, Carries w w' → toRouting.Alike v v' → v.trace = w.trace →
    v'.trace = w'.trace → Carries v v'
  note : ∀ {w w' r}, Carries w w' → r.Told Backs →
    Carries (w.note r) (w'.note (toRouting.record r))

/-- Everything has been done elsewhere, and recorded there. -/
abbrev Routing.link (ρ : Routing) : Link where
  toRouting := ρ
  Backs _ := True
  Carries := ρ.Carries
  alike := Routing.Carries.alike
  silent h hv htrace htrace' := { hv with trace := by rw [htrace', htrace, h.trace] }
  note h _ := h.note _

instance Routing.coeLink : Coe Routing Link := ⟨Routing.link⟩

/-- Something comes out the same when it is done elsewhere. -/
def Link.Matches (ρ : Link) (x x' : α × World) : Prop :=
  ∃ a w w', x = (a, w) ∧ x' = (a, w') ∧ ρ.Carries w w'

namespace Link.Carries

variable {ρ : Link} {w w' : World} {site : Site}

section

variable (h : ρ.Carries w w')

include h

theorem now : w'.now = w.now := (ρ.alike h).now

theorem cancelled : w'.cancelled = w.cancelled := (ρ.alike h).cancelled

theorem invoked : w'.invoked = w.invoked := (ρ.alike h).invoked

theorem isCancelled (t : Token) : w'.isCancelled t = w.isCancelled t := by
  rw [World.isCancelled, h.cancelled, World.isCancelled]

theorem deadline (d : Duration) : w'.deadline d = w.deadline d := by
  rw [World.deadline, h.now, World.deadline]

theorem wakeTime (d : Duration) : w'.wakeTime d = w.wakeTime d := h.deadline _

theorem setNow (t : Nat) : ρ.Carries { w with now := t } { w' with now := t } :=
  ρ.silent h { ρ.alike h with now := rfl } rfl rfl

theorem note (r : Record) (hr : r.Told ρ.Backs) :
    ρ.Carries (w.note r) (w'.note (ρ.record r)) := Link.note ρ h hr

theorem cancel (t : Token) : ρ.Carries (w.cancel t) (w'.cancel t) :=
  ρ.silent h { ρ.alike h with cancelled := congrArg (t :: ·) h.cancelled } rfl rfl

theorem mint (call : CallId) (t : Token) : ρ.Matches (w.mint call t) (w'.mint call t) := by
  have hsame : w'.minted = w.minted := (ρ.alike h).minted
  have hminted : assign w'.minted call (w'.minted call + 1) =
    assign w.minted call (w.minted call + 1) := by rw [hsame]
  have htoken : (w'.mint call t).1 = t.child call (w.minted call) := by rw [← hsame]; rfl
  exact ⟨_, _, _, rfl, Prod.ext htoken rfl,
    ρ.silent h { ρ.alike h with minted := hminted } rfl rfl⟩

theorem draw : ρ.Matches w.draw w'.draw := by
  have hsame : w'.drawn = w.drawn := (ρ.alike h).drawn
  have hchance : w'.chance = w.chance := (ρ.alike h).chance
  have hdrawn : w'.drawn + 1 = w.drawn + 1 := by rw [hsame]
  have hvalue : w'.draw.1 = w.chance.draws w.drawn := by rw [← hchance, ← hsame]; rfl
  exact ⟨_, _, _, rfl, Prod.ext hvalue rfl,
    ρ.silent h { ρ.alike h with drawn := hdrawn } rfl rfl⟩

theorem invoke (call : CallId) (k : Nat) (t : Token) :
    ρ.Carries (w.invoke call k t) (w'.invoke call k t) := by
  have hinvoked : assign w'.invoked call (t :: w'.invoked call) =
    assign w.invoked call (t :: w.invoked call) := by rw [h.invoked]
  have hbegun : ρ.Carries
      { w with invoked := assign w.invoked call (t :: w.invoked call) }
      { w' with invoked := assign w'.invoked call (t :: w'.invoked call) } :=
    ρ.silent h { ρ.alike h with invoked := hinvoked } rfl rfl
  have hnote := hbegun.note (.invoked call k (w.isCancelled t)) trivial
  rw [World.invoke, World.invoke, h.isCancelled]
  exact hnote

/-! ### Events -/

theorem emit (hsite : site.origin ∈ ρ.origins) (e : Event)
    (he : (Record.event site e).Told ρ.Backs) :
    ρ.Carries (w.emit site e) (w'.emit (ρ.site e.teller site) e) := by
  have hhooks : (ρ.site e.teller site).origin.hooks = site.origin.hooks :=
    ρ.hooks_route hsite e.teller
  have hnote := h.note (.event site e) he
  unfold World.emit
  rw [hhooks]
  dsimp only
  split
  · exact hnote.cancel _
  · exact hnote

/-! ### Gates -/

theorem modifyBreaker (hsite : site.origin ∈ ρ.origins) (b : Breaker) :
    ρ.Carries (w.modifyGates site.origin.key fun g => { g with breaker := b })
      (w'.modifyGates (ρ.site .breaker site).origin.key fun g => { g with breaker := b }) :=
  ρ.silent h
    { ρ.alike h with
      breaker := (ρ.alike h).breaker.assign hsite rfl
      bucket := (ρ.alike h).bucket.frame rfl rfl
      occupied := (ρ.alike h).occupied.frame rfl rfl } rfl rfl

theorem modifyBucket (hsite : site.origin ∈ ρ.origins) (b : Bucket) :
    ρ.Carries (w.modifyGates site.origin.key fun g => { g with bucket := b })
      (w'.modifyGates (ρ.site .rateLimit site).origin.key fun g => { g with bucket := b }) :=
  ρ.silent h
    { ρ.alike h with
      breaker := (ρ.alike h).breaker.frame rfl rfl
      bucket := (ρ.alike h).bucket.assign hsite rfl
      occupied := (ρ.alike h).occupied.frame rfl rfl } rfl rfl

theorem modifyOccupied (hsite : site.origin ∈ ρ.origins) (f : Nat → Nat) :
    ρ.Carries (w.modifyGates site.origin.key fun g => { g with occupied := f g.occupied })
      (w'.modifyGates (ρ.site .bulkhead site).origin.key
        fun g => { g with occupied := f g.occupied }) :=
  ρ.silent h
    { ρ.alike h with
      breaker := (ρ.alike h).breaker.frame rfl rfl
      bucket := (ρ.alike h).bucket.frame rfl rfl
      occupied := (ρ.alike h).occupied.assign hsite (congrArg f ((ρ.alike h).occupied _ hsite)) }
    rfl rfl

theorem setBreaker (hsite : site.origin ∈ ρ.origins) (b : Breaker) :
    ρ.Carries (w.setBreaker site b) (w'.setBreaker (ρ.site .breaker site) b) := by
  have hstate : (w'.gatesOf (ρ.site .breaker site)).breaker = (w.gatesOf site).breaker :=
    (ρ.alike h).breaker _ hsite
  have hnews : b.state.news.teller = .breaker := by cases b.state <;> rfl
  have hevent : (Record.event site b.state.news).Told ρ.Backs := by cases b.state <;> trivial
  have hset := h.modifyBreaker hsite b
  have htold := hset.emit hsite b.state.news hevent
  rw [hnews] at htold
  unfold World.setBreaker
  rw [hstate]
  dsimp only
  split
  · exact hset
  · exact htold

theorem settlePermit (hsite : site.origin ∈ ρ.origins) (s : BreakerSettings) (p : Permit)
    (o : Outcome) :
    ρ.Carries (w.settlePermit site s p o) (w'.settlePermit (ρ.site .breaker site) s p o) := by
  have hstate : (w'.gatesOf (ρ.site .breaker site)).breaker = (w.gatesOf site).breaker :=
    (ρ.alike h).breaker _ hsite
  have hnote := h.note (.gate site (.permitSettled p o)) trivial
  rw [World.settlePermit, World.settlePermit, hstate, h.now]
  exact hnote.setBreaker hsite _

/-! ### Giving things back -/

theorem release {x : Holding} (hx : ρ.Handles x) :
    ρ.Carries (w.release x) (w'.release (ρ.holding x)) := by
  cases x with
  | invocation call k token =>
    have hnote := h.note (.abandoned call k (w.isCancelled token)) trivial
    rw [World.release, Routing.holding, World.release, h.isCancelled]
    exact hnote
  | slot site => exact (h.modifyOccupied hx (· - 1)).emit hx .slotReleased trivial
  | permit site s p => exact h.settlePermit hx s p .ignored

theorem releaseAll {hs : List Holding} (hhs : ∀ x ∈ hs, ρ.Handles x) :
    ρ.Carries (w.releaseAll hs) (w'.releaseAll (hs.map ρ.holding)) := by
  induction hs generalizing w w' with
  | nil => exact h
  | cons x hs ih =>
    exact ih (h.release (hhs x List.mem_cons_self)) fun y hy => hhs y (List.mem_cons_of_mem _ hy)

/-! ### Asking a gate -/

theorem acquirePermit (hsite : site.origin ∈ ρ.origins) (s : BreakerSettings) :
    ρ.Matches (acquirePermit site s w) (acquirePermit (ρ.site .breaker site) s w') := by
  have hstate : (w'.gatesOf (ρ.site .breaker site)).breaker = (w.gatesOf site).breaker :=
    (ρ.alike h).breaker _ hsite
  unfold Operation.acquirePermit
  rw [hstate, h.now]
  split
  next p b _ =>
    have hnote := (h.setBreaker hsite b).note (.gate site (.permitIssued p)) trivial
    exact ⟨_, _, _, rfl, rfl, hnote⟩
  next b _ =>
    have htold := (h.setBreaker hsite b).emit hsite .circuitRefused trivial
    exact ⟨_, _, _, rfl, rfl, htold⟩

theorem takeSlot (hsite : site.origin ∈ ρ.origins) (capacity : Nat) :
    ρ.Matches (takeSlot site capacity w) (takeSlot (ρ.site .bulkhead site) capacity w') := by
  have hoccupied : (w'.gatesOf (ρ.site .bulkhead site)).occupied = (w.gatesOf site).occupied :=
    (ρ.alike h).occupied _ hsite
  unfold Operation.takeSlot
  rw [hoccupied]
  split
  · have htold := (h.modifyOccupied hsite (· + 1)).emit hsite .slotTaken trivial
    exact ⟨_, _, _, rfl, rfl, htold⟩
  · exact ⟨_, _, _, rfl, rfl, h.emit hsite .bulkheadFull trivial⟩

theorem takeToken (hsite : site.origin ∈ ρ.origins) (l : RateLimit) :
    ρ.Matches (takeToken site l w) (takeToken (ρ.site .rateLimit site) l w') := by
  have hbucket : (w'.gatesOf (ρ.site .rateLimit site)).bucket = (w.gatesOf site).bucket :=
    (ρ.alike h).bucket _ hsite
  unfold Operation.takeToken
  rw [hbucket, h.now]
  exact ⟨_, _, _, rfl, rfl, h.modifyBucket hsite _⟩

end

end Link.Carries

end CallPolicy
