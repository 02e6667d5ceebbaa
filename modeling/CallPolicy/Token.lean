/-
Calls and their cancellation tokens.

A call is known by a `CallId`: calls made from outside have a name, and a call
made by an operation is placed under the invocation that makes it.

Tokens form trees. A root token is created by name, and whoever passes a token
on may pass a *child* of it instead. A token is the path to it from its root,
the last step first; each step names the call that made it and numbers the
children made on behalf of that call, so two different steps never collide.
Cancelling a token reaches the token and everything below it:

* **`governs_child`** — a token governs its children;
* **`governs_trans`** — and theirs.
-/

namespace CallPolicy

/-- Identifies a call. -/
inductive CallId
  /-- A call made from outside, the `occurrence`-th one with that name. -/
  | top (name : String) (occurrence : Nat)
  /-- A call to `policy` made by the action at `position` of the `k`-th
  invocation of another call's operation. -/
  | nested (parent : CallId) (k position : Nat) (policy : String)
deriving DecidableEq

/-- A call's identity as text. -/
def CallId.text : CallId → String
  | top name _ => name
  | nested parent k _ policy => parent.text ++ "#" ++ toString k ++ "/" ++ policy

/-- A cancellation token. -/
structure Token where
  root : String
  path : List (CallId × Nat)
deriving DecidableEq

namespace Token

/-- The root token with a given name. -/
def named (root : String) : Token := ⟨root, []⟩

/-- A child of a token: the `n`-th one made for a call. -/
def child (t : Token) (call : CallId) (n : Nat) : Token := ⟨t.root, (call, n) :: t.path⟩

/-- Does cancelling `a` cancel `t`? It does if `a` is `t` or above it. -/
def governs (a t : Token) : Bool := a.root = t.root ∧ a.path <:+ t.path

theorem governs_iff {a t : Token} : a.governs t = true ↔ a.root = t.root ∧ a.path <:+ t.path := by
  simp [governs]

theorem governs_self (t : Token) : t.governs t = true := by simp [governs_iff]

theorem governs_child (t : Token) (call : CallId) (n : Nat) :
    t.governs (t.child call n) = true := by
  simp [governs_iff, child]

theorem governs_trans {a b c : Token} (h : a.governs b = true) (h' : b.governs c = true) :
    a.governs c = true := by
  rw [governs_iff] at *
  exact ⟨h.1.trans h'.1, h.2.trans h'.2⟩

end Token

end CallPolicy
