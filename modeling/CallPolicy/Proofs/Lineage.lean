/-
Calls inside calls, and the tokens that they have.

A call that an invocation makes is inside the call that it belongs to
(`CallId.Within`). A call passes on the token that it got, or descendants of it that
were made for that call alone (`Token.Stems`), and so do the calls inside it
(`Serves`).

* **`Serves.governs`** — all these tokens lie below the one that the outer call got;
* **`Serves.within_of_mem`** — and every step between was made for a call inside it;
* **`Token.eq_child_of_governs`** — two children of one token have no descendant in
  common.
-/
import CallPolicy.World
import Mathlib.Order.Basic

namespace CallPolicy

/-- The call that a record is about. -/
def Record.call : Record → CallId
  | .event site _ => site.call
  | .gate site _ => site.call
  | .asked site _ _ => site.call
  | .invoked call _ _ => call
  | .probed call _ _ => call
  | .finished call _ _ => call
  | .abandoned call _ _ => call
  | .settled call _ _ => call

/-! ### Calls inside calls -/

namespace CallId

/-- Is the call the call `id`, or inside it? -/
inductive Within (id : CallId) : CallId → Prop
  | self : Within id id
  | nested {c : CallId} (k position : Nat) (name : String) (h : Within id c) :
      Within id (.nested c k position name)

/-- The call from outside that a call is inside of. -/
def outermost : CallId → CallId
  | top name n => top name n
  | nested parent _ _ _ => parent.outermost

/-- How many calls a call is inside of. -/
def depth : CallId → Nat
  | top _ _ => 0
  | nested parent _ _ _ => parent.depth + 1

variable {id c d : CallId}

theorem Within.outermost_eq (h : id.Within c) : c.outermost = id.outermost := by
  induction h with
  | self => rfl
  | nested k position name _ ih => exact ih

theorem Within.depth_le (h : id.Within c) : id.depth ≤ c.depth := by
  induction h with
  | self => exact Nat.le_refl _
  | nested k position name _ ih => exact Nat.le_succ_of_le ih

/-- A call inside another one has that one not inside it. -/
theorem ne_of_within_nested {k position : Nat} {name : String}
    (h : (nested id k position name).Within c) : c ≠ id := by
  rintro rfl
  exact Nat.not_succ_le_self _ h.depth_le

end CallId

/-! ### Descendants of a token -/

namespace Token

/-- Is `u` the token `t`, or a descendant of it with steps for `call` alone? -/
def Stems (call : CallId) (t u : Token) : Prop :=
  ∃ l : List (CallId × Nat), (∀ s ∈ l, s.1 = call) ∧ u = ⟨t.root, l ++ t.path⟩

/-- Were all the steps to the token made before so many had been made for each call? -/
def Before (m : CallId → Nat) (u : Token) : Prop := ∀ s ∈ u.path, s.2 < m s.1

variable {call : CallId} {t u v a b : Token} {m m' : CallId → Nat} {n n' : Nat}

theorem Stems.refl (call : CallId) (t : Token) : Stems call t t := ⟨[], nofun, rfl⟩

theorem Stems.trans (h : Stems call t u) (h' : Stems call u v) : Stems call t v := by
  obtain ⟨l, hl, rfl⟩ := h
  obtain ⟨l', hl', rfl⟩ := h'
  refine ⟨l' ++ l, fun s hs => ?_, by rw [List.append_assoc]⟩
  rcases List.mem_append.mp hs with hs | hs
  · exact hl' s hs
  · exact hl s hs

theorem Stems.child (h : Stems call t u) (n : Nat) : Stems call t (u.child call n) := by
  refine h.trans ⟨[(call, n)], fun s hs => ?_, rfl⟩
  rw [List.mem_singleton.mp hs]

theorem Stems.governs (h : Stems call t u) : t.governs u = true := by
  obtain ⟨l, -, rfl⟩ := h
  exact governs_iff.mpr ⟨rfl, List.suffix_append l t.path⟩

theorem Before.mono (h : u.Before m) (hm : m ≤ m') : u.Before m' :=
  fun s hs => Nat.lt_of_lt_of_le (h s hs) (hm s.1)

/-- What lies above a token was made before, too. -/
theorem Before.of_governs (h : u.Before m) (ha : a.governs u = true) : a.Before m :=
  fun s hs => h s ((governs_iff.mp ha).2.subset hs)

theorem Before.child (h : u.Before m) (hn : n < m call) : (u.child call n).Before m := by
  intro s hs
  rcases List.mem_cons.mp hs with rfl | hs
  · exact hn
  · exact h s hs

/-- A root token governs everything below it. -/
theorem governs_of_path_nil (h : a.path = []) (hroot : a.root = u.root) : a.governs u = true := by
  rw [governs_iff, h]
  exact ⟨hroot, List.nil_suffix⟩

/-- Of two tokens above a third, one is above the other. -/
theorem governs_or_governs (h : a.governs u = true) (h' : b.governs u = true) :
    a.governs b = true ∨ b.governs a = true := by
  obtain ⟨hroot, hpath⟩ := governs_iff.mp h
  obtain ⟨hroot', hpath'⟩ := governs_iff.mp h'
  rcases List.suffix_or_suffix_of_suffix hpath hpath' with hab | hba
  · exact .inl (governs_iff.mpr ⟨hroot.trans hroot'.symm, hab⟩)
  · exact .inr (governs_iff.mpr ⟨hroot'.trans hroot.symm, hba⟩)

/-- No other token of the same depth is above a token. -/
theorem eq_of_governs_of_length (h : a.governs b = true) (hlen : b.path.length ≤ a.path.length) :
    a = b := by
  obtain ⟨hroot, hpath⟩ := governs_iff.mp h
  obtain ⟨root, path⟩ := a
  obtain ⟨root', path'⟩ := b
  obtain rfl : root = root' := hroot
  obtain rfl : path = path' := hpath.eq_of_length_le hlen
  rfl

/-- A child is not above its parent. -/
theorem not_governs_child (t : Token) (call : CallId) (n : Nat) :
    ¬(t.child call n).governs t = true := by
  intro h
  have hlong := (governs_iff.mp h).2.length_le
  exact absurd hlong (Nat.not_succ_le_self _)

/-- Two children of a token that have a descendant in common are the same. -/
theorem eq_child_of_governs (h : (t.child call n).governs u = true)
    (h' : (t.child call n').governs u = true) : t.child call n = t.child call n' := by
  rcases governs_or_governs h h' with hg | hg
  · exact eq_of_governs_of_length hg (Nat.le_refl _)
  · exact (eq_of_governs_of_length hg (Nat.le_refl _)).symm

/-- What governs a child is that child, or governs the parent. -/
theorem governs_of_governs_child (h : a.governs (t.child call n) = true) :
    a = t.child call n ∨ a.governs t = true := by
  obtain ⟨hroot, hpath⟩ := governs_iff.mp h
  rcases List.suffix_cons_iff.mp hpath with heq | hsuffix
  · left
    obtain ⟨root, path⟩ := a
    obtain rfl : root = t.root := hroot
    rw [child, ← show path = (call, n) :: t.path from heq]
  · exact .inr (governs_iff.mpr ⟨hroot, hsuffix⟩)

end Token

/-! ### The tokens of a call and of the calls inside it -/

/-- A call with the token `t` is acted for, and so are the calls inside it: the call
`c` has the token `u`, or passes it on. -/
inductive Serves (id : CallId) (t : Token) : CallId → Token → Prop
  | own {u : Token} (h : Token.Stems id t u) : Serves id t id u
  | nested {c : CallId} {u v : Token} (k position : Nat) (name : String) (h : Serves id t c u)
      (hv : Token.Stems (.nested c k position name) u v) :
      Serves id t (.nested c k position name) v

namespace Serves

variable {id c d : CallId} {t u v : Token}

theorem refl (id : CallId) (t : Token) : Serves id t id t := .own (.refl id t)

theorem stems (h : Serves id t c u) (hv : Token.Stems c u v) : Serves id t c v := by
  cases h with
  | own h => exact .own (h.trans hv)
  | nested k position name h h' => exact .nested k position name h (h'.trans hv)

theorem trans (h : Serves id t c u) (h' : Serves c u d v) : Serves id t d v := by
  induction h' with
  | own hv => exact h.stems hv
  | nested k position name _ hv ih => exact .nested k position name ih hv

theorem governs (h : Serves id t c u) : t.governs u = true := by
  induction h with
  | own h => exact h.governs
  | nested k position name _ hv ih => exact Token.governs_trans ih hv.governs

theorem within (h : Serves id t c u) : id.Within c := by
  induction h with
  | own _ => exact .self
  | nested k position name _ _ ih => exact .nested k position name ih

/-- Every step on the way to one of the tokens was made for a call inside, or leads to
the token of the outer call. -/
theorem within_of_mem (h : Serves id t c u) {s : CallId × Nat} (hs : s ∈ u.path) :
    s ∈ t.path ∨ id.Within s.1 := by
  have hstems : ∀ {c : CallId} {u v : Token}, Token.Stems c u v → s ∈ v.path →
      s ∈ u.path ∨ s.1 = c := by
    rintro c u _ ⟨l, hl, rfl⟩ hs
    exact (List.mem_append.mp hs).symm.imp_right (hl s)
  induction h with
  | own h =>
    refine (hstems h hs).imp_right fun heq => ?_
    rw [heq]
    exact .self
  | nested k position name h hv ih =>
    rcases hstems hv hs with hs | heq
    · exact ih hs
    · rw [heq]
      exact .inr (.nested k position name h.within)

end Serves

end CallPolicy
