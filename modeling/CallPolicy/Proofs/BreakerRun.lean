/-
One breaker and all the calls that reach it.

A `BreakerScene` is a world with the permits that are out from the breaker of
one policy. A `BreakerMove` is anything that can happen to it: a call is
admitted or refused, a permit comes back with an outcome or is dropped, and
everything else that goes on in the world, the clock included. Moves come in
any order and any number; a permit comes back once, and a call asks for one
once.

* **`BreakerRun.sound`** — in every scene that moves lead to, the counters of the
  breaker and the permits that are out agree with the history that the trace has
  of it (`Ledger`).

Periods are numbered by words of 64 bits, so this is said of runs with fewer
changes of state than there are such words.
-/
import CallPolicy.Proofs.BreakerHistory
import CallPolicy.Proofs.Keeps
import Mathlib.Algebra.Group.Nat.Defs
import Mathlib.Data.Multiset.Filter

namespace CallPolicy

open Trace

/-- The breaker of the policy with a given key. -/
def World.breaker (w : World) (key : Nat) : Breaker := (w.gates key).breaker

/-- A world, and the permits that are out from one of its breakers. -/
structure BreakerScene where
  world : World
  live : Multiset (Site × Permit)

/-- A world in which something has happened that has nothing to do with the
breaker of a policy. Time may have passed. -/
def World.Elsewhere (key : Nat) (w w' : World) : Prop :=
  w.Keeps (fun gates => (gates key).breaker) (Entry.concerns key) w'

theorem World.Elsewhere.breaker {key : Nat} {w w' : World} (h : w.Elsewhere key w') :
    w'.breaker key = w.breaker key := h.view

/-- What can happen to a breaker with settings `s`. -/
inductive BreakerMove (key : Nat) (s : BreakerSettings) : BreakerScene → BreakerScene → Prop
  /-- A call that has not asked before gets a permit. -/
  | grant {w w' : World} {live : Multiset (Site × Permit)} {site : Site} {p : Permit}
      (hkey : site.origin.key = key) (fresh : ∀ e ∈ w.trace, e.admits site = false)
      (h : Operation.acquirePermit site s w = (.ok p, w')) :
      BreakerMove key s ⟨w, live⟩ ⟨w', (site, p) ::ₘ live⟩
  /-- A call is refused. -/
  | refuse {w w' : World} {live : Multiset (Site × Permit)} {site : Site} {r : Result}
      (hkey : site.origin.key = key) (h : Operation.acquirePermit site s w = (.error r, w')) :
      BreakerMove key s ⟨w, live⟩ ⟨w', live⟩
  /-- A permit comes back with an outcome. -/
  | settle (w : World) (live : Multiset (Site × Permit)) (site : Site) (p : Permit) (o : Outcome) :
      BreakerMove key s ⟨w, (site, p) ::ₘ live⟩ ⟨w.settlePermit site s p o, live⟩
  /-- A permit is dropped. -/
  | drop (w : World) (live : Multiset (Site × Permit)) (site : Site) (p : Permit) :
      BreakerMove key s ⟨w, (site, p) ::ₘ live⟩ ⟨w.release (.permit site s p), live⟩
  /-- Something else happens. -/
  | elsewhere {w w' : World} {live : Multiset (Site × Permit)} (h : w.Elsewhere key w') :
      BreakerMove key s ⟨w, live⟩ ⟨w', live⟩

/-- The scenes that a new breaker can come to. -/
inductive BreakerRun (key : Nat) (s : BreakerSettings) : BreakerScene → Prop
  | start (w : World) (hnew : w.breaker key = .new)
      (hclean : ∀ e ∈ w.trace, e.concerns key = false) : BreakerRun key s ⟨w, 0⟩
  | move {x y : BreakerScene} (h : BreakerRun key s x) (m : BreakerMove key s x y) :
      BreakerRun key s y

/-- How many of some permits were issued since the last change of state. -/
def probesOut (key : Nat) (tr : List Entry) (live : Multiset (Site × Permit)) : Nat :=
  live.countP fun l => admittedNow key l.1 tr = true

/-- Each call that has a permit out was admitted once, and its permit has the
number of the period in which that was. -/
structure Dated (key : Nat) (tr : List Entry) (live : Multiset (Site × Permit)) : Prop where
  site : ∀ l ∈ live, l.1.origin.key = key
  distinct : (live.map Prod.fst).Nodup
  issued : ∀ l ∈ live, ∃ e ∈ tr, e.admits l.1 = true
  numbered : ∀ l ∈ live, l.2.period.toNat = changesBefore key l.1 tr % 2 ^ 64

/-- A breaker, the history that a trace has of it and the permits that are out
agree. -/
structure Ledger (key : Nat) (s : BreakerSettings) (b : Breaker) (tr : List Entry)
    (live : Multiset (Site × Permit)) : Prop where
  dated : Dated key tr live
  /-- The counters are those that the history calls for. -/
  tallies : b.Tallies s (specOf key tr) (probesOut key tr live)
  /-- Periods are numbered by the changes of state, as far as the word goes. -/
  period : b.period.toNat = (changes key tr).length % 2 ^ 64
  current : ∀ l ∈ live, admittedNow key l.1 tr = true → l.2 = ⟨b.period, b.state = .halfOpen⟩

section

variable {key : Nat} {s : BreakerSettings} {b b' : Breaker} {now : Nat} {tr : List Entry}
  {live : Multiset (Site × Permit)} {site : Site} {p : Permit} {o : Outcome} {e : Entry}

namespace Dated

/-- An entry that admits nobody changes nothing. -/
theorem cons (h : Dated key tr live) (he : ∀ site, e.admits site = false) :
    Dated key (e :: tr) live := by
  refine ⟨h.site, h.distinct, fun l hl => ?_, fun l hl => ?_⟩
  · obtain ⟨e', he', ha⟩ := h.issued l hl
    exact ⟨e', List.mem_cons_of_mem _ he', ha⟩
  · rw [changesBefore, if_neg (by rw [he]; decide)]
    exact h.numbered l hl

/-- A permit that is no longer out does not matter. -/
theorem of_cons {l : Site × Permit} (h : Dated key tr (l ::ₘ live)) : Dated key tr live := by
  have hmem : ∀ l' ∈ live, l' ∈ l ::ₘ live := fun l' hl' => Multiset.mem_cons_of_mem hl'
  have hdistinct := h.distinct
  rw [Multiset.map_cons, Multiset.nodup_cons] at hdistinct
  refine ⟨?_, hdistinct.2, ?_, ?_⟩
  · exact fun l' hl' => h.site l' (hmem l' hl')
  · exact fun l' hl' => h.issued l' (hmem l' hl')
  · exact fun l' hl' => h.numbered l' (hmem l' hl')

/-- A call is admitted that was not admitted before. -/
theorem issue (h : Dated key tr live) (hkey : site.origin.key = key)
    (fresh : ∀ e ∈ tr, e.admits site = false)
    (hp : p.period.toNat = (changes key tr).length % 2 ^ 64) :
    Dated key (⟨now, .gate site (.permitIssued p)⟩ :: tr) ((site, p) ::ₘ live) := by
  -- whoever has a permit out was admitted before, and this call was not
  have hne : ∀ l ∈ live, site ≠ l.1 := by
    rintro l hl rfl
    obtain ⟨e, he, ha⟩ := h.issued l hl
    rw [fresh e he] at ha
    cases ha
  refine ⟨?_, ?_, ?_, ?_⟩
  · intro l hl
    rcases Multiset.mem_cons.mp hl with rfl | hl
    · exact hkey
    · exact h.site l hl
  · rw [Multiset.map_cons, Multiset.nodup_cons]
    refine ⟨fun hmem => ?_, h.distinct⟩
    obtain ⟨l, hl, heq⟩ := Multiset.mem_map.mp hmem
    exact hne l hl heq.symm
  · intro l hl
    rcases Multiset.mem_cons.mp hl with rfl | hl
    · exact ⟨_, List.mem_cons_self, by simp [Entry.admits]⟩
    · obtain ⟨e, he, ha⟩ := h.issued l hl
      exact ⟨e, List.mem_cons_of_mem _ he, ha⟩
  · intro l hl
    rw [changesBefore]
    rcases Multiset.mem_cons.mp hl with rfl | hl
    · rw [if_pos (by simp [Entry.admits])]
      exact hp
    · rw [if_neg (by simp [Entry.admits, hne l hl])]
      exact h.numbered l hl

end Dated

namespace Ledger

theorem start (hs : 0 < s.failureThreshold.toNat) (h : ∀ e ∈ tr, e.concerns key = false) :
    Ledger key s .new tr 0 := by
  have hspec : specOf key tr = ⟨.closed, []⟩ := by
    rw [← List.append_nil tr, specOf_append h]
    rfl
  have hchanges : changes key tr = [] := by
    rw [← List.append_nil tr, changes_append h]
    rfl
  refine ⟨⟨by simp, by simp, by simp, by simp⟩, ?_, ?_, by simp⟩
  · rw [hspec]
    exact Breaker.tallies_new hs
  · rw [hchanges]
    rfl

/-- Entries about other things change nothing. -/
theorem elsewhere (h : Ledger key s b tr live) (es : List Entry)
    (hes : ∀ e ∈ es, e.concerns key = false) : Ledger key s b (es ++ tr) live := by
  have hsite := h.dated.site
  have hout : probesOut key (es ++ tr) live = probesOut key tr live := by
    refine Multiset.countP_congr rfl fun l hl => ?_
    rw [admittedNow_append (hsite l hl) hes]
  refine ⟨⟨hsite, h.dated.distinct, fun l hl => ?_, fun l hl => ?_⟩, ?_, ?_, fun l hl => ?_⟩
  · obtain ⟨e, he, ha⟩ := h.dated.issued l hl
    exact ⟨e, List.mem_append_right _ he, ha⟩
  · rw [changesBefore_append (hsite l hl) hes]
    exact h.dated.numbered l hl
  · rw [specOf_append hes, hout]
    exact h.tallies
  · rw [changes_append hes]
    exact h.period
  · rw [admittedNow_append (hsite l hl) hes]
    exact h.current l hl

/-- A change of state starts a period in which no permit is out. -/
theorem turn {st : BreakerState} (hd : Dated key tr live)
    (hp : b.period.toNat = (changes key tr).length % 2 ^ 64) (hb' : b'.Tallies s ⟨st, []⟩ 0)
    (hp' : b'.period = b.period + 1) (he : e.change? key = some st) :
    Ledger key s b' (e :: tr) live := by
  have hchanges : changes key (e :: tr) = st :: changes key tr := by
    rw [changes_cons, he]
    rfl
  -- nobody was admitted since the change
  have hold : ∀ site, admittedNow key site (e :: tr) = false := by
    intro site
    rw [admittedNow, he]
    rfl
  have hout : probesOut key (e :: tr) live = 0 := by
    rw [probesOut, Multiset.countP_eq_zero]
    intro l _
    rw [hold]
    decide
  have hadmits : ∀ site, e.admits site = false := by
    intro site
    by_contra hne
    rw [Entry.change?_of_admits (Bool.not_eq_false _ ▸ hne)] at he
    cases he
  refine ⟨hd.cons hadmits, ?_, ?_, fun l _ ha => ?_⟩
  · rw [specOf_change he, hout]
    exact hb'
  · rw [hchanges, List.length_cons, hp', UInt64.toNat_add, hp]
    exact Nat.mod_add_mod _ _ _
  · rw [hold] at ha
    cases ha

/-- A call arrives at a breaker that may have to recover first. -/
theorem recover (now : Nat) (hs : 0 < s.probes.toNat) (h : Ledger key s b tr live)
    (hkey : site.origin.key = key) :
    Ledger key s (b.recover s now)
      (if (b.recover s now).state = b.state then tr
      else ⟨now, .event site (b.recover s now).state.news⟩ :: tr) live := by
  have ht := h.tallies.recover hs now
  rcases Breaker.recover_cases s now b with hr | ⟨hb, hwait, hr⟩
  · rw [hr, if_pos rfl]
    exact h
  · have hne : ¬ (b.recover s now).state = b.state := by
      rw [hr, hb]
      nofun
    have hwake : (specOf key tr).wake s (b.openFor now) = ⟨.halfOpen, []⟩ :=
      if_pos ⟨h.tallies.state ▸ hb, hwait⟩
    rw [if_neg hne] at ht ⊢
    rw [hwake, hr] at ht
    rw [hr]
    exact turn h.dated h.period ht rfl (by simp [Entry.change?, hkey])

/-- A call gets a permit. -/
theorem issue (h : Ledger key s b tr live) (hi : b.issue s = (some p, b'))
    (hkey : site.origin.key = key) (fresh : ∀ e ∈ tr, e.admits site = false) :
    Ledger key s b' (⟨now, .gate site (.permitIssued p)⟩ :: tr) ((site, p) ::ₘ live) := by
  obtain ⟨ht, hopen, hp, hb'⟩ := h.tallies.issue hi
  have hstate : b'.state = b.state := by rw [hb']
  have hperiod : b'.period = b.period := by rw [hb']
  have hst := h.tallies.state
  have hpermit : p = ⟨b'.period, b'.state = .halfOpen⟩ := by rw [hstate, hperiod, hst]; exact hp
  have hd : Dated key (⟨now, .gate site (.permitIssued p)⟩ :: tr) ((site, p) ::ₘ live) :=
    h.dated.issue hkey fresh (by rw [hp]; exact h.period)
  -- in the new trace the site counts as admitted in this period, and nobody else changes
  have hself : admittedNow key site (⟨now, .gate site (.permitIssued p)⟩ :: tr) = true := by
    simp [admittedNow, Entry.change?, Entry.admits]
  have hother : ∀ l ∈ live, admittedNow key l.1 (⟨now, .gate site (.permitIssued p)⟩ :: tr) =
      admittedNow key l.1 tr := by
    intro l hl
    have hne : site ≠ l.1 := by
      rintro rfl
      obtain ⟨e, he, ha⟩ := h.dated.issued l hl
      rw [fresh e he] at ha
      cases ha
    simp [admittedNow, Entry.change?, Entry.admits, hne]
  -- so one more probe is out, which is what the permit machine has counted
  have hout : probesOut key (⟨now, .gate site (.permitIssued p)⟩ :: tr) ((site, p) ::ₘ live) =
      probesOut key tr live + 1 := by
    rw [probesOut, Multiset.countP_cons_of_pos _ (by exact hself), probesOut]
    exact congrArg (· + 1) (Multiset.countP_congr rfl fun l hl => by rw [hother l hl])
  refine ⟨hd, ?_, ?_, fun l hl ha => ?_⟩
  · rw [hout]
    exact ht
  · rw [hperiod]
    exact h.period
  · rcases Multiset.mem_cons.mp hl with rfl | hl
    · exact hpermit
    · rw [hother l hl] at ha
      rw [hstate, hperiod]
      exact h.current l hl ha

/-- The trace after a permit has come back, as long as the state is the same. -/
theorem note (h : Ledger key s b tr ((site, p) ::ₘ live)) (hstate : b'.state = b.state)
    (hperiod : b'.period = b.period)
    (ht : b'.Tallies s (specOf key (⟨now, .gate site (.permitSettled p o)⟩ :: tr))
      (probesOut key tr live)) :
    Ledger key s b' (⟨now, .gate site (.permitSettled p o)⟩ :: tr) live := by
  have hd := h.dated.of_cons.cons (e := ⟨now, .gate site (.permitSettled p o)⟩) fun _ => rfl
  refine ⟨hd, ht, ?_, fun l hl ha => ?_⟩
  · rw [hperiod]
    exact h.period
  · rw [hstate, hperiod]
    exact h.current l (Multiset.mem_cons_of_mem hl) ha

/-- An outcome that counts either joins the others or ends the period. -/
theorem hear_eq {a : BreakerSpec} (ho : o ≠ .ignored) (ha : a.state ≠ .open) :
    a.hear s o = if (a.hear s o).state = a.state then ⟨a.state, o :: a.counted⟩
      else ⟨(a.hear s o).state, []⟩ := by
  obtain ⟨st, os⟩ := a
  cases o with
  | ignored => exact absurd rfl ho
  | success =>
    cases st with
    | «open» => exact absurd rfl ha
    | closed => rfl
    | halfOpen =>
      by_cases hlast : os.length + 1 = s.probes <;> simp [BreakerSpec.hear, hlast]
  | failure =>
    cases st with
    | «open» => exact absurd rfl ha
    | halfOpen => rfl
    | closed =>
      by_cases htrip : failureRun os + 1 = s.failureThreshold <;> simp [BreakerSpec.hear, htrip]

/-- As long as periods are numbered apart, a permit has the number of the present
period iff its call was admitted in it. -/
theorem period_eq_iff {l : Site × Permit} (few : (changes key tr).length < 2 ^ 64)
    (h : Ledger key s b tr live) (hl : l ∈ live) :
    l.2.period = b.period ↔ admittedNow key l.1 tr = true := by
  have hle : changesBefore key l.1 tr ≤ (changes key tr).length := changesBefore_le
  rw [← changesBefore_eq_iff (h.dated.issued l hl), ← UInt64.toNat_inj, h.dated.numbered l hl,
    h.period, Nat.mod_eq_of_lt few, Nat.mod_eq_of_lt (Nat.lt_of_le_of_lt hle few)]

/-- A permit comes back: its outcome counts, or the breaker stays in its state. -/
theorem settle_cases (now : Nat) (hs : 0 < s.failureThreshold.toNat)
    (few : (changes key tr).length < 2 ^ 64) (h : Ledger key s b tr ((site, p) ::ₘ live))
    (o : Outcome) :
    (o ≠ .ignored ∧ admittedNow key site tr = true) ∧ (specOf key tr).state ≠ .open ∧
      (b.record s now p o).Tallies s ((specOf key tr).hear s o)
        (if (b.record s now p o).state = b.state then probesOut key tr live else 0) ∨
    ¬ (o ≠ .ignored ∧ admittedNow key site tr = true) ∧ (b.record s now p o).state = b.state ∧
      (b.record s now p o).Tallies s (specOf key tr) (probesOut key tr live) := by
  have hmem : (site, p) ∈ (site, p) ::ₘ live := Multiset.mem_cons_self _ _
  have ht := h.tallies
  by_cases hnow : admittedNow key site tr = true
  · have hp : p = ⟨b.period, b.state = .halfOpen⟩ := h.current _ hmem hnow
    have hout : probesOut key tr ((site, p) ::ₘ live) = probesOut key tr live + 1 :=
      Multiset.countP_cons_of_pos _ hnow
    rw [hout] at ht
    rw [ht.state] at hp
    have hopen : (specOf key tr).state ≠ .open := fun hc => Nat.succ_ne_zero _ (ht.shut hc)
    by_cases ho : o = .ignored
    · subst ho
      obtain ⟨ht', hsame⟩ := ht.handBack hp now
      exact .inr ⟨fun hc => hc.1 rfl, hsame, ht'⟩
    · exact .inl ⟨⟨ho, hnow⟩, hopen, ht.record hs ho hp hopen⟩
  · -- the permit is from an earlier period
    have hold : p.period ≠ b.period := fun hp => hnow ((h.period_eq_iff few hmem).mp hp)
    have hout : probesOut key tr ((site, p) ::ₘ live) = probesOut key tr live :=
      Multiset.countP_cons_of_neg _ hnow
    rw [hout] at ht
    rw [Breaker.record_of_period_ne hold]
    exact .inr ⟨fun hc => hnow hc.2, rfl, ht⟩

/-- A permit comes back. -/
theorem settle (now : Nat) (hs : 0 < s.failureThreshold.toNat)
    (few : (changes key tr).length < 2 ^ 64) (h : Ledger key s b tr ((site, p) ::ₘ live)) :
    Ledger key s (b.record s now p o)
      (if (b.record s now p o).state = b.state then
        ⟨now, .gate site (.permitSettled p o)⟩ :: tr
      else ⟨now, .event site (b.record s now p o).state.news⟩ ::
        ⟨now, .gate site (.permitSettled p o)⟩ :: tr) live := by
  have hkey : site.origin.key = key := h.dated.site _ (Multiset.mem_cons_self _ _)
  have hspec := specOf_settled now p o tr hkey
  have hst := h.tallies.state
  rcases h.settle_cases now hs few o with ⟨hc, hopen, ht⟩ | ⟨hc, hsame, ht⟩
  · -- the outcome counts, and the breaker goes where the history goes
    have hheard := ht.state
    rw [hear_eq hc.1 hopen, ← hheard, ← hst] at ht
    rw [if_pos hc, ← hst] at hspec
    rcases Breaker.record_cases s now p o b with ⟨hsame, hperiod, -⟩ | ⟨hne, hperiod, -⟩
    · rw [if_pos hsame, if_pos hsame] at ht
      rw [if_pos hsame]
      exact h.note hsame hperiod (by rw [hspec]; exact ht)
    · rw [if_neg hne, if_neg hne] at ht
      rw [if_neg hne]
      exact turn (h.dated.of_cons.cons fun _ => rfl) h.period ht hperiod
        (by simp [Entry.change?, hkey])
  · rw [if_neg hc] at hspec
    rw [if_pos hsame]
    rcases Breaker.record_cases s now p o b with ⟨-, hperiod, -⟩ | ⟨hne, -⟩
    · exact h.note hsame hperiod (by rw [hspec]; exact ht)
    · exact absurd hsame hne

end Ledger

end

/-! ### Runs -/

namespace World

variable {s : BreakerSettings} {w w' : World} {site : Site} {p : Permit} {o : Outcome} {r : Result}

/-- The breaker that a call meets: one that may have recovered just now. -/
def arrival (w : World) (s : BreakerSettings) (key : Nat) : Breaker :=
  (w.breaker key).recover s w.now

theorem breaker_setBreaker (b : Breaker) :
    (w.setBreaker site b).breaker site.origin.key = b := by
  simp [breaker]

theorem breaker_settlePermit : (w.settlePermit site s p o).breaker site.origin.key =
    (w.breaker site.origin.key).record s w.now p o := breaker_setBreaker _

theorem settlePermit_trace : (w.settlePermit site s p o).trace =
    if ((w.breaker site.origin.key).record s w.now p o).state =
        (w.breaker site.origin.key).state then
      ⟨w.now, .gate site (.permitSettled p o)⟩ :: w.trace
    else ⟨w.now, .event site ((w.breaker site.origin.key).record s w.now p o).state.news⟩ ::
      ⟨w.now, .gate site (.permitSettled p o)⟩ :: w.trace := by
  rw [settlePermit, setBreaker_trace]
  rfl

theorem acquirePermit_ok (h : Operation.acquirePermit site s w = (.ok p, w')) :
    ∃ b, (w.arrival s site.origin.key).issue s = (some p, b) ∧
      w' = (w.setBreaker site b).note (.gate site (.permitIssued p)) := by
  unfold Operation.acquirePermit at h
  split at h
  next p' b hi =>
    cases h
    exact ⟨b, hi, rfl⟩
  next => cases h

theorem acquirePermit_error (h : Operation.acquirePermit site s w = (.error r, w')) :
    r = .error .circuitOpen ∧ (w.arrival s site.origin.key).issue s =
        (none, w.arrival s site.origin.key) ∧
      w' = (w.setBreaker site (w.arrival s site.origin.key)).emit site .circuitRefused := by
  unfold Operation.acquirePermit at h
  split at h
  next => cases h
  next b hi =>
    cases h
    have hb : b = w.arrival s site.origin.key := Breaker.eq_of_issue_none hi
    subst hb
    exact ⟨rfl, hi, rfl⟩

end World

namespace BreakerScene

variable {key : Nat} {s : BreakerSettings} {x y : BreakerScene} {w w' : World}
  {live : Multiset (Site × Permit)} {site : Site} {p : Permit} {o : Outcome} {r : Result}

/-- The breaker of a scene agrees with the trace and the permits that are out. -/
def Sound (key : Nat) (s : BreakerSettings) (x : BreakerScene) : Prop :=
  Ledger key s (x.world.breaker key) x.world.trace x.live

/-- A call arrives, and nothing is decided yet. -/
theorem Sound.arrive {b : Breaker} (hs : 0 < s.probes.toNat) (h : Sound key s ⟨w, live⟩)
    (hkey : site.origin.key = key) (hb : b.state = (w.arrival s key).state) :
    Ledger key s (w.arrival s key) (w.setBreaker site b).trace live := by
  have hrec := Ledger.recover w.now hs h hkey
  rw [World.setBreaker_trace, hb]
  subst hkey
  rw [World.arrival] at hb ⊢
  rw [← hb] at hrec ⊢
  exact hrec

theorem Sound.grant (hs : 0 < s.probes.toNat) (h : Sound key s ⟨w, live⟩)
    (hkey : site.origin.key = key) (fresh : ∀ e ∈ w.trace, e.admits site = false)
    (hw : Operation.acquirePermit site s w = (.ok p, w')) :
    Sound key s ⟨w', (site, p) ::ₘ live⟩ := by
  obtain ⟨b, hi, rfl⟩ := World.acquirePermit_ok hw
  rw [hkey] at hi
  have hstate : b.state = (w.arrival s key).state := by
    have := Breaker.issue_state s (w.arrival s key)
    rwa [hi] at this
  have hl := h.arrive hs hkey hstate
  have fresh' : ∀ e ∈ (w.setBreaker site b).trace, e.admits site = false := by
    intro e he
    rw [World.setBreaker_trace] at he
    split at he
    · exact fresh e he
    · rcases List.mem_cons.mp he with rfl | he
      · rfl
      · exact fresh e he
  have hb : ((w.setBreaker site b).note (.gate site (.permitIssued p))).breaker key = b :=
    hkey ▸ World.breaker_setBreaker b
  rw [Sound, hb, World.note_trace, World.setBreaker_now]
  exact hl.issue hi hkey fresh'

theorem Sound.refuse (hs : 0 < s.probes.toNat) (h : Sound key s ⟨w, live⟩)
    (hkey : site.origin.key = key)
    (hw : Operation.acquirePermit site s w = (.error r, w')) : Sound key s ⟨w', live⟩ := by
  obtain ⟨-, -, rfl⟩ := World.acquirePermit_error hw
  rw [hkey]
  have hl := h.arrive hs hkey rfl
  have hb : ((w.setBreaker site (w.arrival s key)).emit site .circuitRefused).breaker key =
      w.arrival s key := by
    rw [World.breaker, World.emit_gates]
    exact hkey ▸ World.breaker_setBreaker _
  rw [Sound, hb, World.emit_trace, World.setBreaker_now]
  refine hl.elsewhere [_] fun e he => ?_
  rw [List.mem_singleton] at he
  subst he
  simp [Entry.concerns, Entry.change?, Event.reached?]

theorem Sound.settle (hs : 0 < s.failureThreshold.toNat)
    (few : (changes key w.trace).length < 2 ^ 64) (h : Sound key s ⟨w, (site, p) ::ₘ live⟩) :
    Sound key s ⟨w.settlePermit site s p o, live⟩ := by
  have hkey : site.origin.key = key := h.dated.site _ (Multiset.mem_cons_self _ _)
  have hl := Ledger.settle (o := o) w.now hs few h
  subst hkey
  rw [Sound, World.breaker_settlePermit, World.settlePermit_trace]
  exact hl

theorem Sound.move (hs : (Layer.breaker s).fault? = none)
    (few : (changes key x.world.trace).length < 2 ^ 64) (h : Sound key s x)
    (m : BreakerMove key s x y) : Sound key s y := by
  have hthreshold := BreakerSettings.threshold_pos hs
  have hprobes := BreakerSettings.probes_pos hs
  cases m with
  | grant hkey fresh hw => exact h.grant hprobes hkey fresh hw
  | refuse hkey hw => exact h.refuse hprobes hkey hw
  | settle w live site p o => exact h.settle hthreshold few
  | drop w live site p => exact h.settle hthreshold few
  | elsewhere he =>
    obtain ⟨es, htr, hes⟩ := he.trace
    rw [Sound, he.breaker, htr]
    exact Ledger.elsewhere h es hes

end BreakerScene

/-- A move adds to the trace. -/
theorem BreakerMove.trace {key : Nat} {s : BreakerSettings} {x y : BreakerScene}
    (m : BreakerMove key s x y) : ∃ es, y.world.trace = es ++ x.world.trace := by
  have hset : ∀ (w : World) (site : Site) (b : Breaker),
      ∃ es, (w.setBreaker site b).trace = es ++ w.trace := by
    intro w site b
    rw [World.setBreaker_trace]
    split
    · exact ⟨[], rfl⟩
    · exact ⟨[_], rfl⟩
  cases m with
  | grant hkey fresh hw =>
    obtain ⟨b, -, rfl⟩ := World.acquirePermit_ok hw
    obtain ⟨es, htr⟩ := hset _ _ b
    exact ⟨_ :: es, by rw [World.note_trace, htr]; rfl⟩
  | refuse hkey hw =>
    obtain ⟨-, -, rfl⟩ := World.acquirePermit_error hw
    obtain ⟨es, htr⟩ := hset _ _ _
    exact ⟨_ :: es, by rw [World.emit_trace, htr]; rfl⟩
  | settle w live site p o =>
    obtain ⟨es, htr⟩ := hset (w.note (.gate site (.permitSettled p o))) site _
    exact ⟨es ++ [_], by rw [World.settlePermit, htr, List.append_assoc]; rfl⟩
  | drop w live site p =>
    obtain ⟨es, htr⟩ := hset (w.note (.gate site (.permitSettled p .ignored))) site _
    exact ⟨es ++ [_], by rw [World.release, World.settlePermit, htr, List.append_assoc]; rfl⟩
  | elsewhere he =>
    obtain ⟨es, htr, -⟩ := he.trace
    exact ⟨es, htr⟩

/-- **The ledger of a run**: in every scene that a new breaker can come to, it
agrees with the history that the trace has of it, as long as periods are
numbered apart. -/
theorem BreakerRun.sound {key : Nat} {s : BreakerSettings} {x : BreakerScene}
    (hs : (Layer.breaker s).fault? = none) (hx : BreakerRun key s x)
    (few : (changes key x.world.trace).length < 2 ^ 64) : x.Sound key s := by
  induction hx with
  | start w hnew hclean =>
    rw [BreakerScene.Sound, hnew]
    exact Ledger.start (BreakerSettings.threshold_pos hs) hclean
  | @move x y _ m ih =>
    -- there were no more changes of state before the move than there are now
    have few' : (changes key x.world.trace).length < 2 ^ 64 := by
      obtain ⟨es, htr⟩ := m.trace
      rw [htr, changes, List.filterMap_append, List.length_append] at few
      exact Nat.lt_of_le_of_lt (Nat.le_add_left _ _) few
    exact (ih few').move hs few' m

end CallPolicy
