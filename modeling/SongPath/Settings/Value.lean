import SongPath.Binary64.Stepwise
import SongPath.Json.Record

/-!
# Settings values

What a settings source gives for a key, and how it is read as a count, a text
or a list of texts.  The reading is generous: a count may be written as a word,
and a text may have been read as a number or a truth value before.  Tables are
never useful, so only whether they are empty is kept.
-/

namespace SongPath
namespace Settings

/-- A value given by a settings file or an environment variable. -/
inductive Value where
  | missing
  | bool (value : Bool)
  | integer (value : Int)
  | real (value : Binary64)
  | text (content : Text)
  | list (items : List Value)
  | table (isEmpty : Bool)
  deriving Repr

namespace Value

/-- The integers that are kept exactly: those of 64 bits with a sign. -/
def fits (number : Int) : Bool :=
  -9223372036854775808 ≤ number && number < 9223372036854775808

/-- An integer, as a double if it has too many digits to be kept exactly. -/
def ofInt (number : Int) : Value :=
  if fits number then .integer number
  else .real (Binary64.nearest ⟨number < 0, number.natAbs, 0⟩)

mutual

/-- The value of a JSON text.  Numbers that are no integers are read in steps. -/
def ofJson : Json -> Value
  | .null => .missing
  | .bool value => .bool value
  | .integer number => ofInt number
  | .decimal number => .real (Binary64.stepwise number)
  | .string content => .text content
  | .array items => .list (ofJsonItems items)
  | .object members => .table members.isEmpty

/-- The values of JSON items, in order. -/
def ofJsonItems : List Json -> List Value
  | [] => []
  | item :: items => ofJson item :: ofJsonItems items

end

/-- An unsigned integer as it is written, with an optional plus sign, below the
first number that no count can have. -/
def writtenCount? (text : Text) : Option Nat := do
  let number <- Text.toNat? (match text with
    | '+' :: digits => digits
    | digits => digits)
  if number < Json.countLimit then some number else none

/-- A count: an integer that is not negative, a number rounded to one, a truth
value as one or zero, or a text that writes one of these. -/
def count? : Value -> Option Nat
  | .integer (.ofNat number) => some number
  | .bool value => some value.toNat
  | .real number => some (number.toCount (Json.countLimit - 1))
  | .text content =>
      if ["true".toList, "on".toList, "yes".toList].contains content.lower then some 1
      else if ["false".toList, "off".toList, "no".toList].contains content.lower then some 0
      else writtenCount? content
  | _ => none

/-- A text: numbers in their shortest form, truth values as words. -/
def text? : Value -> Option Text
  | .text content => some content
  | .bool value => some (if value then "true".toList else "false".toList)
  | .integer number => some (Text.ofInt number)
  | .real number => some number.text
  | _ => none

/-- A list of texts; a single text is none. -/
def texts? : Value -> Option (List Text)
  | .list items => items.mapM text?
  | _ => none

end Value
end Settings
end SongPath
