/-
Which descriptions give the same policy.

A description is read from front to back, and each setting writes its slot over
whatever stood there. What counts in the end is the last setting for each slot,
and for dependencies the whole row of them; the order between slots does not
count.

* **`SameWrites`** — two descriptions agree on that. They do when settings are
  moved past settings for other slots (`SameWrites.of_written`), and when a
  setting is put in front of a later one for its slot (`SameWrites.overwritten`);
* **`SameWrites.build`** — they then build the same policy with the same
  records, or fail alike;
* **`kinds_of_build`**, **`call_of_build`** — the layers of the policy are of the
  kinds whose slots are written, each once, nested in the order of
  `LayerKind.all` with the settings that were written last;
* **`layers_eq_mergeSort`** — layers that are made in the order in which the slots
  are checked and sorted afterwards are the same (`mergeSort_checkOrder`).
-/
import Mathlib.Data.List.Induction
import Mathlib.Data.List.Sort
import CallPolicy.Simulation

namespace CallPolicy

/-- The settings of a description that write a slot, in order. -/
def written (slot : String) (d : List Setting) : List Setting := d.filter (·.slot = slot)

/-- The last setting of a description that writes a slot. -/
def lastWrite? (slot : String) (d : List Setting) : Option Setting := (written slot d).getLast?

/-- The layer that a setting asks for, if it is about one. -/
def Setting.layer? : Setting → Option Layer
  | .timeout length => some (.timeout length)
  | .retry r => some (.retry r)
  | .breaker b => some (.breaker b)
  | .bulkhead capacity => some (.bulkhead capacity)
  | .rateLimit l => some (.rateLimit l)
  | .hedge delay => some (.hedge delay)
  | .fallback value => some (.fallback value)
  | .hooks _ | .criticality _ | .dependsOn _ | .registry _ => none

/-- The reporter that a setting adds, if it adds one. -/
def Setting.reporter? : Setting → Option Reporter
  | .dependsOn r => some r
  | _ => none

/-- Two descriptions have the same last setting for every slot that holds one,
and the same dependencies in the same order. -/
structure SameWrites (d e : List Setting) : Prop where
  last : ∀ slot, slot ≠ "depends-on" → lastWrite? slot d = lastWrite? slot e
  dependencies : written "depends-on" d = written "depends-on" e

section Descriptions

variable {slot : String} {d e : List Setting} {x : Setting}

@[simp] theorem written_append : written slot (d ++ e) = written slot d ++ written slot e := by
  simp [written]

theorem written_cons : written slot (x :: d) = written slot [x] ++ written slot d := by
  rw [← written_append, List.singleton_append]

theorem written_of_slot_eq (h : x.slot = slot) : written slot [x] = [x] := by
  simp [written, h]

theorem written_of_slot_ne (h : x.slot ≠ slot) : written slot [x] = [] := by
  simp [written, h]

theorem lastWrite?_concat_of_eq (h : x.slot = slot) : lastWrite? slot (d ++ [x]) = some x := by
  simp [lastWrite?, written_of_slot_eq h]

theorem lastWrite?_concat_of_ne (h : x.slot ≠ slot) :
    lastWrite? slot (d ++ [x]) = lastWrite? slot d := by
  simp [lastWrite?, written_of_slot_ne h]

theorem isSome_lastWrite? : (lastWrite? slot d).isSome = d.any (·.slot = slot) := by
  rw [Bool.eq_iff_iff]
  simp [lastWrite?, written]

theorem slot_of_lastWrite? (h : lastWrite? slot d = some x) : x.slot = slot := by
  have := List.mem_of_getLast? h
  simpa using (List.mem_filter.mp this).2

/-- A setting can be moved past settings for other slots. -/
theorem written_move (slot : String) (front between back : List Setting)
    (h : ∀ y ∈ between, y.slot ≠ x.slot) :
    written slot (front ++ x :: (between ++ back)) =
      written slot (front ++ (between ++ x :: back)) := by
  rw [written_append, written_cons, written_append, written_append, written_append,
    written_cons (d := back)]
  by_cases hx : x.slot = slot
  · have hb : written slot between = [] := by
      simpa [written, hx] using h
    simp [hb]
  · simp [written_of_slot_ne hx]

end Descriptions

namespace SameWrites

/-- Descriptions that agree on every slot's own settings agree on the last ones:
moving a setting past settings for other slots changes nothing that counts. -/
theorem of_written {d e : List Setting} (h : ∀ slot, written slot d = written slot e) :
    SameWrites d e := by
  constructor
  · intro slot _
    rw [lastWrite?, h, lastWrite?]
  · exact h _

/-- A setting that a later one overwrites does not count. -/
theorem overwritten {front back : List Setting} {x : Setting} (hx : x.slot ≠ "depends-on")
    (h : ∃ y ∈ back, y.slot = x.slot) : SameWrites (front ++ x :: back) (front ++ back) := by
  constructor
  · intro slot _
    simp only [lastWrite?, written_append, written_cons (d := back)]
    by_cases hs : x.slot = slot
    · obtain ⟨y, hy, hyx⟩ := h
      have hne : written slot back ≠ [] :=
        List.ne_nil_of_mem (List.mem_filter.mpr ⟨hy, by simp [hyx, hs]⟩)
      simp only [List.getLast?_append_of_ne_nil _ hne, ← List.append_assoc]
    · rw [written_of_slot_ne hs, List.nil_append]
  · rw [written_append, written_cons, written_of_slot_ne hx, List.nil_append, written_append]

theorem equivalence : Equivalence SameWrites where
  refl _ := ⟨fun _ _ => rfl, rfl⟩
  symm h := ⟨fun s hs => (h.last s hs).symm, h.dependencies.symm⟩
  trans h h' :=
    ⟨fun s hs => (h.last s hs).trans (h'.last s hs), h.dependencies.trans h'.dependencies⟩

end SameWrites

theorem LayerKind.position_injective : Function.Injective LayerKind.position := by
  intro k l h
  cases k <;> cases l <;> first | rfl | cases h

namespace Settings

theorem ofList_concat (d : List Setting) (x : Setting) :
    ofList (d ++ [x]) = (ofList d).write x := by
  simp [ofList]

/-- The settings for one slot, and no others, decide what `read` finds: the
`value` of the setting that was written. -/
structure Governs {α : Type} (slot : String) (read : Settings → α) (value : Setting → α) :
    Prop where
  hits : ∀ s x, x.slot = slot → read (write s x) = value x
  misses : ∀ s x, x.slot ≠ slot → read (write s x) = read s

/-- **What a slot holds in the end** is the value of its last setting. -/
theorem Governs.read_ofList {α : Type} {slot : String} {read : Settings → α}
    {value : Setting → α} (h : Governs slot read value) (d : List Setting) :
    read (ofList d) = ((lastWrite? slot d).map value).getD (read {}) := by
  induction d using List.reverseRecOn with
  | nil => rfl
  | append_singleton d x ih =>
    rw [ofList_concat]
    by_cases hx : x.slot = slot
    · rw [lastWrite?_concat_of_eq hx, h.hits _ x hx]
      rfl
    · rw [lastWrite?_concat_of_ne hx, h.misses _ x hx, ih]

/-- The label of a kind is the slot of its layer. -/
theorem governs_layer? (k : LayerKind) : Governs k.label (layer? · k) Setting.layer? := by
  constructor <;> intro s x hx <;> cases k <;> cases x <;>
    simp_all [Setting.slot, LayerKind.label, write, layer?, Setting.layer?]

theorem governs_hooks : Governs "hooks" hooks fun x => (write {} x).hooks := by
  constructor <;> intro s x hx <;> cases x <;> simp_all [Setting.slot, write]

theorem governs_criticality :
    Governs "criticality" criticality fun x => (write {} x).criticality := by
  constructor <;> intro s x hx <;> cases x <;> simp_all [Setting.slot, write]

theorem governs_registry : Governs "registry" registry fun x => (write {} x).registry := by
  constructor <;> intro s x hx <;> cases x <;> simp_all [Setting.slot, write]

/-- Only dependencies add up. -/
theorem dependencies_ofList (d : List Setting) :
    (ofList d).dependencies = (written "depends-on" d).filterMap Setting.reporter? := by
  induction d using List.reverseRecOn with
  | nil => rfl
  | append_singleton d x ih =>
    rw [ofList_concat, written_append, List.filterMap_append, ← ih]
    cases x <;> simp [write, written, Setting.slot, Setting.reporter?]

/-- The layer of a kind is the one that the last setting for its slot asks for. -/
theorem layer?_ofList (d : List Setting) (k : LayerKind) :
    (ofList d).layer? k = (lastWrite? k.label d).bind Setting.layer? := by
  rw [(governs_layer? k).read_ofList d]
  cases lastWrite? k.label d with
  | none => cases k <;> rfl
  | some x => rfl

/-- A kind has a layer as soon as its slot is written. -/
theorem isSome_layer?_ofList (d : List Setting) (k : LayerKind) :
    ((ofList d).layer? k).isSome = d.any (·.slot = k.label) := by
  rw [layer?_ofList, ← isSome_lastWrite?]
  cases h : lastWrite? k.label d with
  | none => rfl
  | some x =>
    have hx := slot_of_lastWrite? h
    cases k <;> cases x <;> simp_all [Setting.slot, LayerKind.label, Setting.layer?]

/-- Settings are known from their layers and from what else they hold. -/
theorem eq_of_layer?_eq {s t : Settings} (hl : ∀ k, s.layer? k = t.layer? k)
    (hh : s.hooks = t.hooks) (hc : s.criticality = t.criticality)
    (hd : s.dependencies = t.dependencies) (hr : s.registry = t.registry) : s = t := by
  have h₁ := hl .fallback
  have h₂ := hl .timeout
  have h₃ := hl .breaker
  have h₄ := hl .rateLimit
  have h₅ := hl .bulkhead
  have h₆ := hl .retry
  have h₇ := hl .hedge
  cases s
  cases t
  simp_all [layer?, Option.map_inj_right]

/-- **The order in which layers are made** does not matter once they are sorted. -/
theorem mergeSort_checkOrder (s : Settings) :
    ((checkOrder.filterMap s.layer?).mergeSort
      fun a b => decide (a.kind.position ≤ b.kind.position)) = s.layers := by
  have hperm : checkOrder.Perm LayerKind.all := by decide
  refine ((List.mergeSort_perm _ _).trans (hperm.filterMap _)).eq_of_pairwise ?_
    (List.pairwise_mergeSort ?_ ?_ _) (s.pairwise_kind_layers.imp ?_)
  · -- Layers of one kind are the same layer, since both stand in the same slot.
    intro a b ha hb hab hba
    have hk : a.kind = b.kind :=
      LayerKind.position_injective (Nat.le_antisymm (by simpa using hab) (by simpa using hba))
    have ha' := mem_layers_iff.mp
      ((hperm.filterMap _).mem_iff.mp ((List.mergeSort_perm _ _).mem_iff.mp ha))
    have hb' := mem_layers_iff.mp hb
    rw [hk, hb'] at ha'
    exact (Option.some.inj ha').symm
  · intro a b c hab hbc
    simp only [decide_eq_true_eq] at *
    omega
  · intro a b
    simp only [Bool.or_eq_true, decide_eq_true_eq]
    omega
  · intro a b hab
    simpa using hab.le

/-- The kinds of what is found for some kinds are those for which there is something. -/
theorem map_kind_filterMap_layer? (s : Settings) (ks : List LayerKind) :
    (ks.filterMap s.layer?).map Layer.kind = ks.filter fun k => (s.layer? k).isSome := by
  induction ks with
  | nil => rfl
  | cons k ks ih =>
    cases h : s.layer? k with
    | none => simp [h, ih]
    | some l => simp [h, ih, kind_of_layer? h]

end Settings

/-- Descriptions that agree on what counts leave the same in every slot. -/
theorem SameWrites.ofList {d e : List Setting} (h : SameWrites d e) :
    Settings.ofList d = Settings.ofList e := by
  apply Settings.eq_of_layer?_eq
  · intro k
    have hk : k.label ≠ "depends-on" := by cases k <;> decide
    rw [Settings.layer?_ofList, Settings.layer?_ofList, h.last _ hk]
  · simp only [Settings.governs_hooks.read_ofList, h.last "hooks" (by decide)]
  · simp only [Settings.governs_criticality.read_ofList, h.last "criticality" (by decide)]
  · rw [Settings.dependencies_ofList, Settings.dependencies_ofList, h.dependencies]
  · simp only [Settings.governs_registry.read_ofList, h.last "registry" (by decide)]

namespace Policy

variable {key : Nat} {name : String} {d e : List Setting} {p : Policy}

/-- **Descriptions that agree on what counts** build the same policy and tell the
same about it, or have the same fault. -/
theorem build_congr (h : SameWrites d e) (key : Nat) (name : String) :
    build key name d = build key name e := by
  unfold build
  rw [h.ofList]

theorem layers_of_build (h : (build key name d).outcome = .ok p) :
    p.layers = (Settings.ofList d).layers := by
  unfold build at h
  dsimp only at h
  split at h
  · cases h
  · cases h
    rfl

/-- **The kinds of a policy's layers** are those whose slots are written, each
once, in the order of all kinds. -/
theorem kinds_of_build (h : (build key name d).outcome = .ok p) :
    p.kinds = LayerKind.all.filter fun k => d.any (·.slot = k.label) := by
  rw [kinds, layers_of_build h, Settings.layers, Settings.map_kind_filterMap_layer?]
  simp only [Settings.isSome_layer?_ofList]

/-- **The layers of a policy** are made as the slots are checked, and then sorted. -/
theorem layers_eq_mergeSort (h : (build key name d).outcome = .ok p) :
    p.layers = (Settings.checkOrder.filterMap fun k =>
        (lastWrite? k.label d).bind Setting.layer?).mergeSort
      fun a b => decide (a.kind.position ≤ b.kind.position) := by
  have hmade : (Settings.checkOrder.filterMap fun k => (lastWrite? k.label d).bind Setting.layer?) =
      Settings.checkOrder.filterMap (Settings.ofList d).layer? := by
    congr 1
    funext k
    rw [Settings.layer?_ofList]
  rw [layers_of_build h, hmade, Settings.mergeSort_checkOrder]

/-- **A call through a policy** nests the layers that were written last, the
outermost first. -/
theorem call_of_build (h : (build key name d).outcome = .ok p) (id : CallId) (op : Operation) :
    p.call id op = LayerKind.all.foldr
      (fun k inner => ((lastWrite? k.label d).bind Setting.layer?).elim inner
        (·.apply ⟨p.origin, id⟩ inner)) op := by
  rw [call, stack, layers_of_build h, Settings.layers, List.foldr_filterMap]
  congr 1
  funext k inner
  rw [Settings.layer?_ofList]
  cases (lastWrite? k.label d).bind Setting.layer? <;> rfl

/-- A description without a fault can be built. -/
theorem exists_of_fault?_eq_none (key : Nat) (h : (Settings.ofList d).fault? name = none) :
    ∃ p, (build key name d).outcome = .ok p := by
  unfold build
  dsimp only
  split
  · next fault hf => simp [hf] at h
  · exact ⟨_, rfl⟩

/-- **Only the last settings count.** A policy that could be built has exactly the
layers whose slots are written, each once and with what was written last, nested
in the one order of layers: those that are made as the slots are checked, sorted.
Descriptions with the same last setting for every
slot and the same dependencies build the same policy or have the same fault, and
in every simulation the same comes of building them. Two descriptions are so
related when every slot has the same settings in both, however these are
interleaved, and when one has more settings that are later overwritten; so they
are after any number of such changes. -/
theorem last_writes_decide :
    (∀ key name d p, (build key name d).outcome = .ok p →
      (p.kinds = LayerKind.all.filter fun k => d.any (·.slot = k.label)) ∧
      (p.layers = (Settings.checkOrder.filterMap fun k =>
          (lastWrite? k.label d).bind Setting.layer?).mergeSort
        fun a b => decide (a.kind.position ≤ b.kind.position)) ∧
      ∀ id op, p.call id op = LayerKind.all.foldr
        (fun k inner => ((lastWrite? k.label d).bind Setting.layer?).elim inner
          (·.apply ⟨p.origin, id⟩ inner)) op) ∧
    (∀ d e, SameWrites d e →
      (∀ key name, build key name d = build key name e) ∧
      ∀ (S : Simulation) name, S.build name d = S.build name e) ∧
    Equivalence SameWrites ∧
    (∀ d e, (∀ slot, written slot d = written slot e) → SameWrites d e) ∧
    (∀ front x back, x.slot ≠ "depends-on" → (∃ y ∈ back, y.slot = x.slot) →
      SameWrites (front ++ x :: back) (front ++ back)) := by
  refine ⟨?_, ?_, SameWrites.equivalence, fun d e => SameWrites.of_written,
    fun front x back => SameWrites.overwritten⟩
  · intro key name d p h
    exact ⟨kinds_of_build h, layers_eq_mergeSort h, call_of_build h⟩
  · intro d e h
    refine ⟨build_congr h, ?_⟩
    intro S name
    simp only [Simulation.build, build_congr h]

/-- Two descriptions of one policy: the first sets a deadline that the second
leaves out, and names the layers in another order. -/
theorem last_writes_decide_two_deadlines :
    ∃ p, (build 0 "p" [.timeout (.ofMillis 5), .bulkhead 3, .fallback "x",
        .timeout (.ofMillis 9)]).outcome = .ok p ∧
      (build 0 "p" [.fallback "x", .bulkhead 3, .timeout (.ofMillis 9)]).outcome = .ok p ∧
      p.kinds = [.fallback, .timeout, .bulkhead] := by
  obtain ⟨hkinds, hsame, heq, hmove, hover⟩ := last_writes_decide
  have hsound : (Settings.ofList [.timeout (.ofMillis 5), .bulkhead 3, .fallback "x",
      .timeout (.ofMillis 9)]).fault? "p" = none := by decide
  obtain ⟨p, hp⟩ := exists_of_fault?_eq_none 0 hsound
  have hdrop := hover [] (.timeout (.ofMillis 5))
    [.bulkhead 3, .fallback "x", .timeout (.ofMillis 9)] (by decide)
    ⟨.timeout (.ofMillis 9), by simp, rfl⟩
  have hswap := hmove [.bulkhead 3, .fallback "x", .timeout (.ofMillis 9)]
    [.fallback "x", .bulkhead 3, .timeout (.ofMillis 9)] fun slot =>
      written_move slot [] [.fallback "x"] [.timeout (.ofMillis 9)] (by simp [Setting.slot])
  refine ⟨p, hp, ?_, ?_⟩
  · rw [← (hsame _ _ (heq.trans hdrop hswap)).1 0 "p"]
    exact hp
  · rw [(hkinds _ _ _ p hp).1]
    decide

end Policy

end CallPolicy
