import SongPath.Settings.Toml.Quoted
import SongPath.Settings.Toml.Word

/-!
# Settings files in TOML

The part of TOML in which settings are written: comments and lines of the form
`key = value`, where a value is a string, a number, a truth value, an array or
an inline table.  A key may be a path of keys between dots, and then its value
lies in a table of the first one.  Anything else is a syntax error.

A key that holds a value holds nothing else: it may not be given twice, nor may
another key go through it.
-/

namespace SongPath
namespace Settings
namespace Toml

/-- The characters of a key without quotes. -/
def isKeyChar (char : Char) : Bool :=
  char.isAlphanum || char == '_' || char == '-'

/-- A key and the text behind it. -/
def key? : Text -> Option (Text × Text)
  | '"' :: rest => basicString? (rest.length + 1) rest
  | '\'' :: rest => literalString? rest
  | text =>
      let key := text.takeWhile isKeyChar
      if key.isEmpty then none else some (key, text.drop key.length)

/-- How many arrays and tables may stand inside one another, and how many keys a
path may have. -/
def maxDepth : Nat :=
  79

/-- The keys of a path of at most the given length, and the text behind it. -/
def keys? : Nat -> Text -> Option (List Text × Text)
  | 0, _ => none
  | length + 1, text => do
      let (key, rest) <- key? (skipSpace text)
      match skipSpace rest with
      | '.' :: rest => (keys? length rest).map fun (keys, rest) => (key :: keys, rest)
      | rest => some ([key], rest)

/-- The keys of an entry, and the text of its value. -/
def entryKeys? (text : Text) : Option (List Text × Text) := do
  match <- keys? maxDepth text with
  | (keys, '=' :: rest) => some (keys, skipSpace rest)
  | _ => none

/-- Neither of two paths goes through the other. -/
def areApart (first second : List Text) : Bool :=
  !first.isPrefixOf second && !second.isPrefixOf first

/-- No path goes through another one. -/
def allApart : List (List Text) -> Bool
  | [] => true
  | keys :: rest => rest.all (areApart keys) && allApart rest

mutual

/-- One value and the text behind it, given how many more arrays and tables
may be opened. -/
def value? : Nat -> Nat -> Text -> Option (Value × Text)
  | 0, _, _ => none
  | _ + 1, _, '"' :: '"' :: '"' :: rest =>
      (multiline? '"' rest).map fun (text, rest) => (.text text, rest)
  | _ + 1, _, '\'' :: '\'' :: '\'' :: rest =>
      (multiline? '\'' rest).map fun (text, rest) => (.text text, rest)
  | _ + 1, _, '"' :: rest =>
      (basicString? (rest.length + 1) rest).map fun (text, rest) => (.text text, rest)
  | _ + 1, _, '\'' :: rest => (literalString? rest).map fun (text, rest) => (.text text, rest)
  | _ + 1, 0, '[' :: _ => none
  | _ + 1, 0, '\x7b' :: _ => none
  | steps + 1, depth + 1, '[' :: rest =>
      (items? steps depth rest).map fun (items, rest) => (.list items, rest)
  | steps + 1, depth + 1, '\x7b' :: rest =>
      match skipSpace rest with
      | '\x7d' :: rest => some (.table true, rest)
      | rest => do
          let (paths, rest) <- fields? steps depth rest
          if allApart paths then some (.table false, rest) else none
  | _ + 1, _, text => do
      let word := text.takeWhile fun char => !endsWord char
      let value <- word? word
      some (value, text.drop word.length)

/-- The items up to the closing bracket.  Lines may end between them, and a
comma may follow the last one. -/
def items? : Nat -> Nat -> Text -> Option (List Value × Text)
  | 0, _, _ => none
  | steps + 1, depth, text => do
      let rest <- skipLines? (text.length + 1) text
      match rest with
      | ']' :: rest => some ([], rest)
      | rest => do
          let (item, rest) <- value? steps depth rest
          let rest <- skipLines? (rest.length + 1) rest
          match rest with
          | ']' :: rest => some ([item], rest)
          | ',' :: rest => (items? steps depth rest).map fun (items, rest) => (item :: items, rest)
          | _ => none

/-- The paths of the entries in an inline table up to its closing brace.  They
stand on one line, and no comma follows the last one. -/
def fields? : Nat -> Nat -> Text -> Option (List (List Text) × Text)
  | 0, _, _ => none
  | steps + 1, depth, text => do
      let (keys, rest) <- entryKeys? text
      let (_, rest) <- value? steps depth rest
      match skipSpace rest with
      | '\x7d' :: rest => some ([keys], rest)
      | ',' :: rest => (fields? steps depth rest).map fun (paths, rest) => (keys :: paths, rest)
      | _ => none

end

/-- The entries of a file, each on a line of its own. -/
def entries? : Nat -> Text -> Option (List (List Text × Value))
  | 0, _ => none
  | steps + 1, text => do
      let rest <- skipLines? (text.length + 1) text
      if rest.isEmpty then some []
      else
        let (keys, rest) <- entryKeys? rest
        let (value, rest) <- value? (rest.length + 1) maxDepth rest
        let rest <- skipComment? rest
        match lineEnd? rest with
        | some rest => (entries? steps rest).map ((keys, value) :: ·)
        | none => if rest.isEmpty then some [(keys, value)] else none

/-- What an entry gives for the first of its keys. -/
def outermost? : List Text × Value -> Option (Text × Value)
  | ([], _) => none
  | ([key], value) => some (key, value)
  | (key :: _, _) => some (key, .table false)

/-- A text without a byte order mark in front. -/
def unmarked : Text -> Text
  | '\ufeff' :: rest => rest
  | text => text

/-- The entries of a settings file, in order. -/
def ofText? (text : Text) : Option (List (Text × Value)) := do
  let text := unmarked text
  let entries <- entries? (text.length + 1) text
  if allApart (entries.map (·.1)) then some (entries.filterMap outermost?) else none

end Toml
end Settings
end SongPath
