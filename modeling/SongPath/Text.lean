/-!
# Texts

A text is a list of Unicode characters.  Every rule of the library is stated
on lists, so that recursion on the characters is recursion on the data; the
packed representation appears only where text enters or leaves the program.

The decimal notation of natural numbers stands here because messages and
reports both write it.
-/

namespace SongPath

/-- A text, first character first. -/
abbrev Text := List Char

namespace Text

/-- The characters of a packed string. -/
def ofString (string : String) : Text :=
  string.toList

/-- Pack a text for output. -/
def pack (text : Text) : String :=
  String.ofList text

/-- A natural number in decimal notation, without leading zeros. -/
def ofNat (number : Nat) : Text :=
  Nat.toDigits 10 number

/-- An integer in decimal notation; only a negative one carries a sign. -/
def ofInt : Int -> Text
  | .ofNat number => ofNat number
  | .negSucc number => '-' :: ofNat (number + 1)

/-- The number written by a nonempty run of ASCII digits; leading zeros are
allowed, signs are not. -/
def toNat? (text : Text) : Option Nat :=
  if text.isEmpty || !text.all Char.isDigit then none
  else some (Nat.ofDigitChars 10 text 0)

theorem toNat?_ofNat (number : Nat) : toNat? (ofNat number) = some number := by
  have digits : (Nat.toDigits 10 number).all Char.isDigit = true :=
    List.all_eq_true.mpr fun _ listed => Nat.isDigit_of_mem_toDigits (by decide) (by decide) listed
  have nonempty : (Nat.toDigits 10 number).isEmpty = false := by
    simp [Nat.toDigits_ne_nil]
  simp [toNat?, ofNat, digits, nonempty, Nat.ofDigitChars_toDigits]

/-- The number of bytes that a text takes in UTF-8. -/
def utf8Length : Text -> Nat
  | [] => 0
  | char :: rest => char.utf8Size + utf8Length rest

theorem utf8Length_append (first second : Text) :
    utf8Length (first ++ second) = utf8Length first + utf8Length second := by
  induction first with
  | nil => exact (Nat.zero_add _).symm
  | cons char first inductionHypothesis =>
      rw [List.cons_append, utf8Length, utf8Length, inductionHypothesis, Nat.add_assoc]

/-- The lower case of a character, if that is an ASCII letter: besides the ASCII
letters this moves only the Kelvin sign. -/
def lowerChar (char : Char) : Char :=
  if char = '\u212a' then 'k' else char.toLower

/-- A text in lower case, as far as that consists of ASCII letters; every other
character is kept.  The words and keys that are compared without regard to case
are all ASCII. -/
def lower (text : Text) : Text :=
  text.map lowerChar

end Text
end SongPath
