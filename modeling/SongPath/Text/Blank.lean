import SongPath.Text

/-!
# Blank characters

Blank means the Unicode property `White_Space`.  The table lists its ranges;
`trim` and the rule that a token must capture something visible both rest on
it.
-/

namespace SongPath

/-- The ranges of code points with the property `White_Space`, in order. -/
def blankRanges : List (Nat × Nat) :=
  [(0x09, 0x0D), (0x20, 0x20), (0x85, 0x85), (0xA0, 0xA0), (0x1680, 0x1680),
    (0x2000, 0x200A), (0x2028, 0x2029), (0x202F, 0x202F), (0x205F, 0x205F), (0x3000, 0x3000)]

/-- Membership in one of the listed ranges. -/
def isBlank (char : Char) : Bool :=
  blankRanges.any fun range => range.1 ≤ char.toNat && char.toNat ≤ range.2

namespace Text

/-- Drop the blank characters at the front. -/
def trimStart (text : Text) : Text :=
  text.dropWhile isBlank

/-- Drop the blank characters at the back. -/
def trimEnd (text : Text) : Text :=
  (text.reverse.dropWhile isBlank).reverse

/-- Drop blank characters at both ends; inner ones stay. -/
def trim (text : Text) : Text :=
  text.trimStart.trimEnd

/-- A text with at least one character that is not blank. -/
def isVisible (text : Text) : Bool :=
  text.any fun char => !isBlank char

theorem isVisible_eq_true_iff (text : Text) :
    text.isVisible = true <-> exists char, char ∈ text ∧ isBlank char = false := by
  simp [isVisible]

end Text
end SongPath
