import SongPath.Binary64

/-!
# Decimals read in steps

A decimal can be read by exact rounding, or step by step: its digits are
rounded to a double, which is then multiplied or divided by the double nearest
to a power of ten and rounded again.  Reading in steps costs little but may miss
the nearest double by a few last bits.  Each single step is exact rounding.
-/

namespace SongPath
namespace Binary64

/-- The double nearest to a quotient times a power of two.  Zero keeps its sign. -/
def rounded (negative : Bool) (numerator denominator : Nat) (exponent : Int) : Binary64 :=
  if numerator = 0 then .finite negative 0 0
  else nearestRatio negative (numerator * two exponent.toNat) (denominator * two (-exponent).toNat)

/-- The rounded product of finite numbers; for others it is not defined here. -/
def product : Binary64 -> Binary64 -> Binary64
  | .finite negative significand exponent, .finite negative' significand' exponent' =>
      rounded (negative != negative') (significand * significand') 1 (exponent + exponent')
  | _, _ => .nan

/-- The rounded quotient of finite numbers; for others, and for a divisor that
is zero, it is not defined here. -/
def quotient : Binary64 -> Binary64 -> Binary64
  | .finite negative significand exponent, .finite negative' significand' exponent' =>
      if significand' = 0 then .nan
      else rounded (negative != negative') significand significand' (exponent - exponent')
  | _, _ => .nan

/-- Zero of either sign. -/
def isZero : Binary64 -> Bool
  | .finite _ significand _ => significand == 0
  | _ => false

/-- The double nearest to a power of ten. -/
def ofTens (power : Nat) : Binary64 :=
  nearest ⟨false, 1, power⟩

/-- The largest power of ten in the range of double precision. -/
def largestTens : Nat :=
  308

/-- Divide by a power of ten.  A power out of range is divided out in pieces,
until nothing of it is left or nothing of the number. -/
def overTens (number : Binary64) (power : Nat) : Binary64 :=
  if power ≤ largestTens then number.quotient (ofTens power)
  else if number.isZero then number
  else overTens (number.quotient (ofTens largestTens)) (power - largestTens)
termination_by power
decreasing_by simp only [largestTens] at *; omega

/-- Multiply by a power of ten.  Only zero bears a power out of range. -/
def timesTens (negative : Bool) (number : Binary64) (power : Nat) : Binary64 :=
  if power ≤ largestTens then number.product (ofTens power)
  else if number.isZero then number
  else .infinite negative

/-- The double that a decimal gives if it is read in steps. -/
def stepwise (decimal : Decimal) : Binary64 :=
  let digits := nearest ⟨decimal.negative, decimal.digits, 0⟩
  match decimal.exponent with
  | .ofNat power => timesTens decimal.negative digits power
  | .negSucc power => digits.overTens (power + 1)

end Binary64
end SongPath
