import SongPath.Binary64.Stepwise
import SongPath.Json

/-!
# JSON numbers

What a written number stands for.  An integer below the limit is held exactly.
Any other number is held by its leading digits, as many as stay below the limit,
and has to lie in the range of double precision if it is read in steps.
-/

namespace SongPath
namespace Json
namespace Number

/-- The first number whose digits are too many to be held: that of 64 bits. -/
def limit : Nat :=
  18446744073709551616

/-- Append digits to a number as long as it stays below the limit; the digits
from the first one that does not fit are returned. -/
def gather (number : Nat) : Text -> Nat × Text
  | [] => (number, [])
  | digit :: rest =>
      let longer := number * 10 + (digit.toNat - '0'.toNat)
      if longer < limit then gather longer rest else (number, digit :: rest)

/-- The value of the leading digits.  Digits left out of the whole part still
count as places, and those left out of the fraction do not count at all. -/
def cut (numeral : Numeral) : Decimal :=
  let fraction := numeral.fraction.getD []
  let (whole, unheld) := gather 0 numeral.whole
  let (digits, dropped) := gather whole fraction
  let places : Int := (fraction.length : Int) - dropped.length
  ⟨numeral.sign == some '-', digits, numeral.power + unheld.length - places⟩

/-- Zero is the only whole part that starts with zero, and every written part
has digits. -/
def isWellFormed (numeral : Numeral) : Bool :=
  numeral.sign != some '+' && numeral.isCanonical && numeral.hasFraction && numeral.hasPower

/-- The numeral writes an integer that can be held.  Minus zero is none. -/
def isInteger (numeral : Numeral) : Bool :=
  numeral.isWhole && decide (numeral.integer.natAbs < limit)
    && !(numeral.sign.isSome && numeral.integer == 0)

/-- The value of a numeral. -/
def ofNumeral? (numeral : Numeral) : Option Json :=
  if !isWellFormed numeral then none
  else if isInteger numeral then some (.integer numeral.integer)
  else if (Binary64.stepwise (cut numeral)).isFinite then some (.decimal (cut numeral))
  else none

end Number
end Json
end SongPath
