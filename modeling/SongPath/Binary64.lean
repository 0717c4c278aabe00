import SongPath.Numeral

/-!
# Double precision numbers

Settings values that are not integers are kept to double precision.  A number
is held as an exact multiple of a power of two, so that rounding, the decimal
text and the conversion to a count are exact computations on natural numbers.
-/

namespace SongPath

/-- A double precision number.  The finite ones are
`± significand · 2 ^ exponent`. -/
inductive Binary64 where
  | finite (negative : Bool) (significand : Nat) (exponent : Int)
  | infinite (negative : Bool)
  | nan
  deriving DecidableEq, Repr

namespace Binary64

/-- A power of two. -/
def two (power : Nat) : Nat :=
  Nat.pow 2 power

/-- A power of ten. -/
def ten (power : Nat) : Nat :=
  Nat.pow 10 power

/-- The quotient rounded to the nearest natural number, a half to the even one. -/
def roundEven (numerator denominator : Nat) : Nat :=
  let quotient := numerator / denominator
  let twice := 2 * (numerator % denominator)
  if twice < denominator then quotient
  else if denominator < twice then quotient + 1
  else if quotient % 2 = 0 then quotient else quotient + 1

/-- The power of two that gives the significand 53 bits or, below the normal
range, the least power there is.  The first guess is the difference of the bit
lengths, which is at most one too high. -/
def scaleOf (numerator denominator : Nat) : Int :=
  let guess : Int := (numerator.log2 : Int) - denominator.log2 - 52
  let fits : Bool :=
    two 52 * (denominator * two guess.toNat) ≤ numerator * two (-guess).toNat
  max (if fits then guess else guess - 1) (-1074)

/-- The double nearest to a positive quotient.  A significand that rounds up to
54 bits moves to the next power; beyond the largest power the result is
infinite. -/
def nearestRatio (negative : Bool) (numerator denominator : Nat) : Binary64 :=
  let scale := scaleOf numerator denominator
  let rounded :=
    roundEven (numerator * two (-scale).toNat) (denominator * two scale.toNat)
  let (significand, exponent) :=
    if rounded = two 53 then (two 52, scale + 1) else (rounded, scale)
  if 971 < exponent then .infinite negative else .finite negative significand exponent

/-- The double nearest to an exact decimal.  Powers of ten far outside the range
are settled by their size alone. -/
def nearest (decimal : Decimal) : Binary64 :=
  let magnitude : Int := (Nat.toDigits 10 decimal.digits).length + decimal.exponent
  if decimal.digits = 0 || magnitude < -330 then .finite decimal.negative 0 0
  else if 320 < magnitude then .infinite decimal.negative
  else nearestRatio decimal.negative (decimal.digits * ten decimal.exponent.toNat)
    (ten (-decimal.exponent).toNat)

/-- Twice the distance to the lower end of the interval that rounds to a number,
in quarters of its last bit.  Just above a power of two the lower neighbour is
half as far away. -/
def lowerQuarters (significand : Nat) (exponent : Int) : Nat :=
  if significand = two 52 && decide (-1074 < exponent) then 1 else 2

/-- The point of the grid `10 ^ power` that rounds to the given positive number:
of two such neighbours the nearer one, and the upper one in a tie.  The ends of
the interval belong to it iff the significand is even. -/
def gridPoint? (significand : Nat) (exponent power : Int) : Option Nat :=
  let unit := two exponent.toNat * ten (-power).toNat
  let grid := ten power.toNat * two (-exponent).toNat
  let below := significand * unit / grid
  let low := (4 * significand - lowerQuarters significand exponent) * unit
  let high := (4 * significand + 2) * unit
  let inside (point : Nat) : Bool :=
    let place := 4 * point * grid
    (low < place && place < high) || (significand % 2 == 0 && (place == low || place == high))
  match inside below, inside (below + 1) with
  | false, false => none
  | true, false => some below
  | false, true => some (below + 1)
  | true, true =>
      if 2 * (significand * unit) < (2 * below + 1) * grid then some below else some (below + 1)

/-- Search the grids from coarse to fine.  The first hit has the fewest digits. -/
def shortestFrom (significand : Nat) (exponent : Int) : Nat -> Int -> Nat × Int
  | 0, power => (significand, power)
  | steps + 1, power =>
      match gridPoint? significand exponent power with
      | some digits => (digits, power)
      | none => shortestFrom significand exponent steps (power - 1)

/-- The fewest decimal digits that read back as the given positive number, with
their power of ten.  Grids from `10 ^ 309` down to `10 ^ -343` hold every
seventeen-digit decimal of the range. -/
def shortest (significand : Nat) (exponent : Int) : Nat × Int :=
  shortestFrom significand exponent 653 309

/-- Digits at a power of ten in positional notation, without a trailing point. -/
def positional (digits : Nat) (power : Int) : Text :=
  let written := Text.ofNat digits
  if 0 ≤ power then written ++ List.replicate power.toNat '0'
  else
    let places := (-power).toNat
    let padded := List.replicate (places + 1 - written.length) '0' ++ written
    padded.take (padded.length - places) ++ '.' :: padded.drop (padded.length - places)

/-- The shortest positional text that reads back as the number.  Zero keeps its
sign, and no exponent is ever written. -/
def text : Binary64 -> Text
  | .nan => "NaN".toList
  | .infinite negative => (if negative then ['-'] else []) ++ "inf".toList
  | .finite negative significand exponent =>
      (if negative then ['-'] else []) ++
        (if significand = 0 then ['0']
        else
          let (digits, power) := shortest significand exponent
          positional digits power)

/-- The nearest count, a half away from zero; negative numbers and `NaN` count
as zero and whatever exceeds the limit as the limit. -/
def toCount (limit : Nat) : Binary64 -> Nat
  | .nan => 0
  | .infinite negative => if negative then 0 else limit
  | .finite negative significand exponent =>
      if negative then 0
      else
        let denominator := two (-exponent).toNat
        min limit ((2 * (significand * two exponent.toNat) + denominator) / (2 * denominator))

/-- Neither infinite nor `NaN`. -/
def isFinite : Binary64 -> Bool
  | .finite _ _ _ => true
  | _ => false

end Binary64
end SongPath
