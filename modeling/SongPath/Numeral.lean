import SongPath.Text

/-!
# Numerals

The common shape of a number in a settings file, in a JSON text and in an
environment variable: sign, whole part, fraction, exponent.  Each format
restricts this shape by conditions of its own; the value is read off the parts
once, here, as an exact power of ten.
-/

namespace SongPath

/-- The exact number `± digits · 10 ^ exponent`. -/
structure Decimal where
  negative : Bool
  digits : Nat
  exponent : Int
  deriving DecidableEq, Repr

/-- The parts of a written number.  An absent part is told from an empty one,
because formats differ on whether `1.` and `1` are both numbers. -/
structure Numeral where
  sign : Option Char
  whole : Text
  fraction : Option Text
  exponent : Option (Option Char × Text)
  deriving DecidableEq, Repr

namespace Numeral

/-- A leading sign, if there is one, and what follows it. -/
def scanSign : Text -> Option Char × Text
  | '+' :: rest => (some '+', rest)
  | '-' :: rest => (some '-', rest)
  | rest => (none, rest)

/-- A fraction starts with a point. -/
def scanFraction : Text -> Option Text × Text
  | '.' :: rest => (some (rest.takeWhile Char.isDigit), rest.dropWhile Char.isDigit)
  | rest => (none, rest)

/-- The exponent behind its mark, with a sign of its own. -/
def scanPower (text : Text) : Option (Option Char × Text) × Text :=
  let (sign, rest) := scanSign text
  (some (sign, rest.takeWhile Char.isDigit), rest.dropWhile Char.isDigit)

/-- An exponent starts with `e` in either case. -/
def scanExponent : Text -> Option (Option Char × Text) × Text
  | 'e' :: rest => scanPower rest
  | 'E' :: rest => scanPower rest
  | rest => (none, rest)

/-- The longest numeral at the front and the rest.  Every part may turn out
empty; it is for the caller to refuse that. -/
def scan (text : Text) : Numeral × Text :=
  let (sign, rest) := scanSign text
  let whole := rest.takeWhile Char.isDigit
  let (fraction, rest) := scanFraction (rest.dropWhile Char.isDigit)
  let (exponent, rest) := scanExponent rest
  (⟨sign, whole, fraction, exponent⟩, rest)

/-- Neither fraction nor exponent is written. -/
def isWhole (numeral : Numeral) : Bool :=
  numeral.fraction.isNone && numeral.exponent.isNone

/-- An exponent, if written, has digits. -/
def hasPower (numeral : Numeral) : Bool :=
  numeral.exponent.all fun power => !power.2.isEmpty

/-- A fraction, if written, has digits. -/
def hasFraction (numeral : Numeral) : Bool :=
  numeral.fraction.all fun digits => !digits.isEmpty

/-- The whole part is a single zero or starts with another digit. -/
def isCanonical (numeral : Numeral) : Bool :=
  match numeral.whole with
  | [] => false
  | ['0'] => true
  | digit :: _ => digit != '0'

/-- The natural number written by a run of digits; an empty run writes zero. -/
def natural (digits : Text) : Nat :=
  Nat.ofDigitChars 10 digits 0

/-- The written power of ten, zero if none is written. -/
def power (numeral : Numeral) : Int :=
  match numeral.exponent with
  | none => 0
  | some (some '-', digits) => -(natural digits : Int)
  | some (_, digits) => natural digits

/-- The exact value: fraction digits count as whole digits and lower the power
of ten by their number. -/
def value (numeral : Numeral) : Decimal :=
  let fraction := numeral.fraction.getD []
  ⟨numeral.sign == some '-', natural (numeral.whole ++ fraction),
    numeral.power - fraction.length⟩

/-- The value of the whole part alone, with its sign. -/
def integer (numeral : Numeral) : Int :=
  if numeral.sign == some '-' then -(natural numeral.whole : Int) else natural numeral.whole

end Numeral
end SongPath
