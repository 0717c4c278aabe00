import SongPath.Numeral

/-!
# JSON values

The values that reports are written as and that settings are read from.
Integers are told from other numbers by how they are written: `8` is an
integer and `8.0` is not; see the module on numbers for how much of a long one
is kept.  An object keeps its members as they stand in the
text, repeated keys included.
-/

namespace SongPath

/-- A JSON value. -/
inductive Json where
  | null
  | bool (value : Bool)
  | integer (value : Int)
  | decimal (value : Decimal)
  | string (text : Text)
  | array (items : List Json)
  | object (members : List (Text × Json))
  deriving Repr

namespace Json

/-- A natural number as a JSON integer. -/
def natural (number : Nat) : Json :=
  .integer number

/-- An absent value is written as `null`. -/
def ofOption (text : Option Text) : Json :=
  match text with
  | none => .null
  | some text => .string text

/-- The last value given for a key; earlier ones are overridden. -/
def lookup? (members : List (Text × Json)) (key : Text) : Option Json :=
  (members.reverse.find? fun member => member.1 == key).map (·.2)

end Json
end SongPath
