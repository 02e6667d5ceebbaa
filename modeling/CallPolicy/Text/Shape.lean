/-
Values laid out as text.

A `Shape` is a value's outline: a word, a quoted text, a name applied to parts,
a name with named fields, or a list. `Shape.render` writes it on one line:
`Linear(10ms)`, `Policy { name: "p", layers: [Retry] }`.
-/
import CallPolicy.Text.Quoted

namespace CallPolicy.Text

/-- The outline of a value. -/
inductive Shape where
  | word (text : String)
  | quoted (text : String)
  | applied (name : String) (parts : List Shape)
  | fields (name : String) (parts : List (String × Shape))
  | items (parts : List Shape)

namespace Shape

mutual

/-- A shape on one line. -/
def render : Shape → String
  | .word t => t
  | .quoted t => quote t
  | .applied name parts => name ++ "(" ++ ", ".intercalate (renderAll parts) ++ ")"
  | .fields name parts =>
    name ++ " \x7b " ++ ", ".intercalate (renderFields parts) ++ " \x7d"
  | .items parts => "[" ++ ", ".intercalate (renderAll parts) ++ "]"

/-- Each shape on one line. -/
def renderAll : List Shape → List String
  | [] => []
  | s :: rest => s.render :: renderAll rest

/-- Each field as its name, a colon and its value. -/
def renderFields : List (String × Shape) → List String
  | [] => []
  | (name, s) :: rest => (name ++ ": " ++ s.render) :: renderFields rest

end

/-- An optional value. -/
def optional : Option Shape → Shape
  | none => .word "None"
  | some s => .applied "Some" [s]

/-- A number in decimal digits. -/
def number (n : Nat) : Shape := .word (toString n)

/-- A truth value. -/
def truth (b : Bool) : Shape := .word (if b then "true" else "false")

end Shape

end CallPolicy.Text
