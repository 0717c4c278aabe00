import SongPath.Settings.Value

/-!
# Key paths

The name under which a source gives a value says where the value belongs: to a
root key, or further inside, by keys behind dots and indices in brackets.  A
name of any other form is a root key as it stands.  Root keys are compared
without regard to case, so they are kept in lower case.
-/

namespace SongPath
namespace Settings

/-- One step into a value: to a key of a table, or to an item of a list. -/
inductive Step where
  | key (name : Text)
  | item (index : Int)
  deriving DecidableEq, Repr

/-- The place of a value in the settings. -/
structure KeyPath where
  root : Text
  steps : List Step
  deriving DecidableEq, Repr

namespace KeyPath

/-- The characters of a key in a path.  A blank is one of them. -/
def isKeyChar (char : Char) : Bool :=
  char.isAlphanum || char == ' ' || char == '_' || char == '-'

/-- A key and the text behind it. -/
def key? (text : Text) : Option (Text × Text) :=
  let key := text.takeWhile isKeyChar
  if key.isEmpty then none else some (key, text.drop key.length)

/-- Space inside brackets. -/
def isSpace (char : Char) : Bool :=
  char == ' ' || char == '\t'

/-- An index behind its opening bracket, of 64 bits with a sign. -/
def index? (text : Text) : Option (Int × Text) :=
  let (negative, rest) := match text.dropWhile isSpace with
    | '-' :: rest => (true, rest)
    | rest => (false, rest)
  let digits := rest.takeWhile Char.isDigit
  match (rest.drop digits.length).dropWhile isSpace with
  | ']' :: rest => do
      let number <- Text.toNat? digits
      let index : Int := if negative then -number else number
      if Value.fits index then some (index, rest) else none
  | _ => none

/-- The steps behind the root.  The count bounds their number. -/
def steps? : Nat -> Text -> Option (List Step)
  | _, [] => some []
  | count + 1, '.' :: rest => do
      let (name, rest) <- key? rest
      (steps? count rest).map (.key name :: ·)
  | count + 1, '[' :: rest => do
      let (index, rest) <- index? rest
      (steps? count rest).map (.item index :: ·)
  | _, _ => none

/-- Read a name as a path. -/
def read? (name : Text) : Option KeyPath := do
  let (root, rest) <- key? name
  let steps <- steps? rest.length rest
  some ⟨root.lower, steps⟩

/-- The path of a name. -/
def ofName (name : Text) : KeyPath :=
  (read? name).getD ⟨name.lower, []⟩

end KeyPath

namespace Value

/-- The items of a list.  Any other value has none. -/
def items : Value -> List Value
  | .list items => items
  | _ => []

/-- Make room for an index: the position that it stands for, and the items with
as many missing ones as it takes to get there.  A negative index counts from
the end. -/
def withRoom (items : List Value) (index : Int) : Nat × List Value :=
  if 0 ≤ index then
    (index.toNat, items ++ List.replicate (index.toNat + 1 - items.length) .missing)
  else
    (items.length - index.natAbs,
      List.replicate (index.natAbs - items.length) .missing ++ items)

/-- Put a value at the end of some steps into another one.  Whatever stands in
the way gives way to a table or a list. -/
def put (value : Value) : List Step -> Value -> Value
  | [], _ => value
  | .key _ :: _, _ => .table false
  | .item index :: rest, current =>
      let (position, items) := withRoom current.items index
      .list (items.modify position (put value rest))

/-- Put a value into what stands at the root.  A table adds its entries to what
stands there, so an empty one changes nothing. -/
def putAtRoot (value : Value) (steps : List Step) : Option Value -> Value
  | none => put value steps .missing
  | some current =>
      match steps, value with
      | [], .table true => current
      | steps, value => put value steps current

end Value
end Settings
end SongPath
