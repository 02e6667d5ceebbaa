/-
Policies without their fallback.

The fallback is the outermost layer of a policy. `Policy.bare` is the same policy without
it: the layers that remain, the gates, the hooks and everything that is reported about the
policy are what they were.

* **`Policy.call_eq_withFallback`** — a call through a policy is one through the bare policy
  with the fallback around it;
* **`Policy.build_bare`** — a description that says nothing about a fallback builds the bare
  policy.
-/
import CallPolicy.Proofs.BuildFaults

namespace CallPolicy

/-- The policy without its fallback. -/
def Policy.bare (p : Policy) : Policy where
  origin := p.origin
  layers := p.layers.filter (·.kind ≠ .fallback)
  criticality := p.criticality
  dependencies := p.dependencies
  ordered := p.ordered.sublist List.filter_sublist
  faultless l hl := p.faultless l (List.mem_filter.mp hl).1

/-- What is told of a policy that was built, but for its fallback. -/
def BuildRecord.bare : BuildRecord → BuildRecord
  | .registered registry reporter => .registered registry reporter
  | .built name layers => .built name (layers.filter (· ≠ .fallback))

namespace Policy

variable (p : Policy) {value : String}

theorem kinds_bare : p.bare.kinds = p.kinds.filter (· ≠ .fallback) := by
  rw [kinds, kinds, List.filter_map]
  rfl

theorem has_bare {k : LayerKind} (hk : k ≠ .fallback) : p.bare.has k = p.has k := by
  rw [Bool.eq_iff_iff, has, has, kinds_bare, List.contains_iff_mem, List.contains_iff_mem,
    List.mem_filter]
  exact and_iff_left (decide_eq_true hk)

theorem reporter_bare : p.bare.reporter = p.reporter := by
  rw [reporter, p.has_bare (by decide)]
  rfl

/-- There is nothing outside the fallback. -/
theorem layers_eq_cons (h : .fallback value ∈ p.layers) :
    p.layers = .fallback value :: p.bare.layers := by
  obtain ⟨outer, inner, hlayers⟩ := List.append_of_mem h
  have hordered := p.ordered
  rw [hlayers, List.pairwise_append, List.pairwise_cons] at hordered
  obtain ⟨-, ⟨hinner, -⟩, houter⟩ := hordered
  have hnone : outer = [] := by
    refine List.eq_nil_iff_forall_not_mem.mpr fun l hl => ?_
    exact Nat.not_lt_zero _ (houter l hl _ List.mem_cons_self)
  have hkept : inner.filter (·.kind ≠ .fallback) = inner := by
    refine List.filter_eq_self.mpr fun l hl => decide_eq_true fun hkind => ?_
    have hlt := hinner l hl
    rw [hkind] at hlt
    exact Nat.lt_irrefl _ hlt
  show p.layers = .fallback value :: p.layers.filter (·.kind ≠ .fallback)
  rw [hlayers, hnone, List.nil_append, List.filter_cons_of_neg (by simp [Layer.kind]), hkept]

/-- A call is one through the bare policy with the fallback around it. -/
theorem call_eq_withFallback (h : .fallback value ∈ p.layers) (id : CallId) (op : Operation) :
    p.call id op = Operation.withFallback ⟨p.origin, id⟩ value (p.bare.call id op) := by
  rw [call, p.layers_eq_cons h]
  rfl

theorem rateLimit?_bare : p.bare.rateLimit? = p.rateLimit? := by
  unfold rateLimit? bare
  dsimp only
  induction p.layers with
  | nil => rfl
  | cons l layers ih =>
    cases l with
    | rateLimit l => rfl
    | _ => exact ih

/-- The bare policy gets the same gates. -/
theorem newGates_bare (now : Nat) : p.bare.newGates now = p.newGates now := by
  rw [newGates, newGates, rateLimit?_bare]

theorem install_bare (w : World) : p.bare.install w = p.install w := by
  rw [install, newGates_bare]
  rfl

end Policy

/-! ### Descriptions -/

namespace Settings

/-- The slots with none for a fallback. -/
def bare (s : Settings) : Settings := { s with fallback := none }

theorem ofList_bare (d : List Setting) :
    ofList (d.filter (·.slot ≠ "fallback")) = (ofList d).bare := by
  have hwrite : ∀ s : Settings, (d.filter (·.slot ≠ "fallback")).foldl write s.bare =
      (d.foldl write s).bare := by
    induction d with
    | nil => exact fun _ => rfl
    | cons x d ih =>
      intro s
      rw [List.foldl_cons, ← ih]
      cases x <;> rfl
  exact hwrite {}

theorem layer?_bare (s : Settings) (k : LayerKind) :
    s.bare.layer? k = (s.layer? k).filter (·.kind ≠ .fallback) := by
  by_cases hk : k = .fallback
  · subst hk
    cases h : s.layer? .fallback with
    | none => rfl
    | some l => rw [Option.filter_some_neg (by simp [kind_of_layer? h])]; rfl
  · have hsame : s.bare.layer? k = s.layer? k := by
      cases k with
      | fallback => exact absurd rfl hk
      | _ => rfl
    rw [hsame]
    cases h : s.layer? k with
    | none => rfl
    | some l => rw [Option.filter_some_pos (by simp [kind_of_layer? h, hk])]

theorem layers_bare (s : Settings) : s.bare.layers = s.layers.filter (·.kind ≠ .fallback) := by
  rw [layers, layers, List.filter_filterMap]
  exact congrArg (List.filterMap · _) (funext s.layer?_bare)

/-- There is never anything wrong with a fallback. -/
theorem fault?_bare (s : Settings) (name : String) : s.bare.fault? name = s.fault? name := by
  have hlayer : ∀ k, (s.bare.layer? k).bind Layer.fault? = (s.layer? k).bind Layer.fault? := by
    intro k
    cases k with
    | fallback => cases h : s.fallback <;> simp [layer?, bare, h, Layer.fault?]
    | _ => rfl
  rw [fault?, fault?]
  simp only [hlayer]

theorem policy_bare {name : String} (s : Settings) (key : Nat) (h : s.fault? name = none) :
    s.bare.policy key ((s.fault?_bare name).trans h) = (s.policy key h).bare := by
  unfold policy Policy.bare
  simp only [s.layers_bare]
  rfl

end Settings

/-- **Without a word about a fallback**, a description builds the bare policy, and what is told
of it differs by the fallback only. -/
theorem Policy.build_bare (key : Nat) (name : String) (d : List Setting) :
    Policy.build key name (d.filter (·.slot ≠ "fallback")) =
      ⟨(Policy.build key name d).outcome.map Policy.bare,
        (Policy.build key name d).records.map BuildRecord.bare⟩ := by
  have hbare := Settings.ofList_bare d
  have hregistry : (Settings.ofList d).bare.registry = (Settings.ofList d).registry := rfl
  cases h : (Settings.ofList d).fault? name with
  | some f =>
    have hf : (Settings.ofList (d.filter (·.slot ≠ "fallback"))).fault? name = some f := by
      rw [hbare, Settings.fault?_bare, h]
    rw [Policy.build_of_fault h, Policy.build_of_fault hf]
    rfl
  | none =>
    have hnone : (Settings.ofList (d.filter (·.slot ≠ "fallback"))).fault? name = none := by
      rw [hbare, Settings.fault?_bare, h]
    have hpolicy : (Settings.ofList (d.filter (·.slot ≠ "fallback"))).policy key hnone =
        ((Settings.ofList d).policy key h).bare := by
      rw [← Settings.policy_bare]
      congr
    rw [Policy.build_eq key h, Policy.build_eq key hnone, hpolicy, Policy.reporter_bare,
      Policy.kinds_bare, hbare, hregistry]
    cases (Settings.ofList d).registry <;> rfl

end CallPolicy
