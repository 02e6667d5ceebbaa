/-
Blank text.

`Char.isBlank` is the Unicode property White_Space, `String.trimBlank` removes
blank characters from both ends of a text, and `String.isBlank` says that
nothing else is there (**`isBlank_iff`**: every character is blank).
-/

namespace CallPolicy.Text

/-- The property White_Space, as ranges of code points. -/
def blankRanges : List (Nat × Nat) :=
  [(0x09, 0x0D), (0x20, 0x20), (0x85, 0x85), (0xA0, 0xA0), (0x1680, 0x1680), (0x2000, 0x200A),
   (0x2028, 0x2029), (0x202F, 0x202F), (0x205F, 0x205F), (0x3000, 0x3000)]

/-- Does a table of ranges hold the character? -/
def inRanges (table : List (Nat × Nat)) (c : Char) : Bool :=
  table.any fun r => r.1 ≤ c.toNat && c.toNat ≤ r.2

/-- Is the character white space? -/
def isBlankChar (c : Char) : Bool := inRanges blankRanges c

/-- The text without the blank characters at its two ends. -/
def trimBlank (s : String) : String :=
  String.ofList ((s.toList.dropWhile isBlankChar).reverse.dropWhile isBlankChar).reverse

/-- Are all characters blank? -/
def isBlank (s : String) : Bool := s.toList.all isBlankChar

theorem isBlank_iff (s : String) : isBlank s = true ↔ ∀ c ∈ s.toList, isBlankChar c = true := by
  simp [isBlank]

end CallPolicy.Text
