import SongPath.Json

/-!
# Records in JSON

A record is written as an object with its fields by name, unknown names being
ignored, or as an array with its fields in order.  Which of the two was used
decides whether a field may be left out, so absence is reported with its cause.
-/

namespace SongPath
namespace Json

/-- What a record holds for a field: a value, no member of that name, or an
array that ends before its place. -/
inductive Field where
  | given (value : Json)
  | unnamed
  | beyond
  deriving Repr

/-- The fields at the places of an array. -/
def placed : List Text -> List Json -> List Field
  | [], _ => []
  | _ :: names, [] => .beyond :: placed names []
  | _ :: names, item :: items => .given item :: placed names items

/-- The field of a name in an object. -/
def named (members : List (Text × Json)) (name : Text) : Field :=
  match lookup? members name with
  | some value => .given value
  | none => .unnamed

/-- The named fields of a record, in the order of the names.  An array with
more items than fields is no record. -/
def fields? (names : List Text) : Json -> Option (List Field)
  | .object members => some (names.map (named members))
  | .array items => if names.length < items.length then none else some (placed names items)
  | _ => none

namespace Field

/-- The value of a field that has to be there. -/
def required? : Field -> Option Json
  | .given value => some value
  | _ => none

/-- The value of a field that reads as `null` if an object leaves it out. -/
def nullable? : Field -> Option Json
  | .given value => some value
  | .unnamed => some .null
  | .beyond => none

/-- Read a field, or take its default if it is left out. -/
def orDefault? (default : α) (read : Json -> Option α) : Field -> Option α
  | .given value => read value
  | _ => some default

end Field

/-- A string. -/
def text? : Json -> Option Text
  | .string text => some text
  | _ => none

/-- A string or `null`. -/
def optionalText? : Json -> Option (Option Text)
  | .null => some none
  | .string text => some (some text)
  | _ => none

/-- Strings in an array. -/
def texts? : Json -> Option (List Text)
  | .array items => items.mapM text?
  | _ => none

/-- The first natural number that no count can have. -/
def countLimit : Nat :=
  18446744073709551616

/-- An integer that fits an unsigned 64-bit count. -/
def count? : Json -> Option Nat
  | .integer (.ofNat number) => if number < countLimit then some number else none
  | _ => none

end Json
end SongPath
