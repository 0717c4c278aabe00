import SongPath.Json.Number

/-!
# Reading JSON

A reader for one JSON text.  Recursion is bounded by a count of steps, one for
every value, item and character; the length of the text is always enough, so
`ofText?` gives no bound to its callers.  Arrays and objects inside one another
are bounded as well, and here the bound is a rule: a text with more is refused.
-/

namespace SongPath
namespace Json
namespace Reader

/-- The four characters that may stand between tokens. -/
def isSpace (char : Char) : Bool :=
  char == ' ' || char == '\t' || char == '\n' || char == '\r'

/-- Drop space in front of a token. -/
def skipSpace (text : Text) : Text :=
  text.dropWhile isSpace

/-- The value of a hexadecimal digit of either case. -/
def hexDigit? (char : Char) : Option Nat :=
  if '0' ≤ char && char ≤ '9' then some (char.toNat - '0'.toNat)
  else if 'a' ≤ char && char ≤ 'f' then some (char.toNat - 'a'.toNat + 10)
  else if 'A' ≤ char && char ≤ 'F' then some (char.toNat - 'A'.toNat + 10)
  else none

/-- Four hexadecimal digits. -/
def unit? : Text -> Option (Nat × Text)
  | a :: b :: c :: d :: rest => do
      let a <- hexDigit? a
      let b <- hexDigit? b
      let c <- hexDigit? c
      let d <- hexDigit? d
      some (((a * 16 + b) * 16 + c) * 16 + d, rest)
  | _ => none

/-- The character of a code point that is no surrogate. -/
def scalar? (code : Nat) : Option Char :=
  if code < 0xD800 || (0xE000 ≤ code && code ≤ 0x10FFFF) then some (Char.ofNat code) else none

/-- The character written by `\u`.  A high surrogate has to be followed by a
low one; any other surrogate is refused. -/
def unicode? (text : Text) : Option (Char × Text) := do
  let (first, rest) <- unit? text
  if 0xD800 ≤ first && first < 0xDC00 then
    match rest with
    | '\\' :: 'u' :: rest => do
        let (second, rest) <- unit? rest
        if 0xDC00 ≤ second && second < 0xE000 then
          let char <- scalar? (0x10000 + (first - 0xD800) * 0x400 + (second - 0xDC00))
          some (char, rest)
        else none
    | _ => none
  else
    let char <- scalar? first
    some (char, rest)

/-- The character written by an escape, given the text behind the backslash. -/
def escape? : Text -> Option (Char × Text)
  | '"' :: rest => some ('"', rest)
  | '\\' :: rest => some ('\\', rest)
  | '/' :: rest => some ('/', rest)
  | 'b' :: rest => some ('\x08', rest)
  | 'f' :: rest => some ('\x0c', rest)
  | 'n' :: rest => some ('\n', rest)
  | 'r' :: rest => some ('\r', rest)
  | 't' :: rest => some ('\t', rest)
  | 'u' :: rest => unicode? rest
  | _ => none

/-- The rest of a string behind its opening quote.  Control characters must be
escaped. -/
def string? : Nat -> Text -> Option (Text × Text)
  | 0, _ => none
  | _ + 1, [] => none
  | _ + 1, '"' :: rest => some ([], rest)
  | steps + 1, '\\' :: rest => do
      let (char, rest) <- escape? rest
      let (text, rest) <- string? steps rest
      some (char :: text, rest)
  | steps + 1, char :: rest =>
      if char.toNat < 0x20 then none
      else (string? steps rest).map fun (text, rest) => (char :: text, rest)

/-- A number and the text behind it. -/
def number? (text : Text) : Option (Json × Text) :=
  let (numeral, rest) := Numeral.scan text
  (Number.ofNumeral? numeral).map fun number => (number, rest)

/-- How many arrays and objects may stand inside one another. -/
def maxDepth : Nat :=
  127

mutual

/-- One value and the text behind it, given how many more arrays and objects may
be opened. -/
def value? : Nat -> Nat -> Text -> Option (Json × Text)
  | 0, _, _ => none
  | steps + 1, depth, text =>
      match skipSpace text, depth with
      | 'n' :: 'u' :: 'l' :: 'l' :: rest, _ => some (.null, rest)
      | 't' :: 'r' :: 'u' :: 'e' :: rest, _ => some (.bool true, rest)
      | 'f' :: 'a' :: 'l' :: 's' :: 'e' :: rest, _ => some (.bool false, rest)
      | '"' :: rest, _ => (string? steps rest).map fun (text, rest) => (.string text, rest)
      | '[' :: rest, depth + 1 =>
          match skipSpace rest with
          | ']' :: rest => some (.array [], rest)
          | rest => (items? steps depth rest).map fun (items, rest) => (.array items, rest)
      | '{' :: rest, depth + 1 =>
          match skipSpace rest with
          | '}' :: rest => some (.object [], rest)
          | rest => (members? steps depth rest).map fun (members, rest) => (.object members, rest)
      | other, _ => number? other

/-- The items of a nonempty array up to its closing bracket. -/
def items? : Nat -> Nat -> Text -> Option (List Json × Text)
  | 0, _, _ => none
  | steps + 1, depth, text => do
      let (item, rest) <- value? steps depth text
      match skipSpace rest with
      | ']' :: rest => some ([item], rest)
      | ',' :: rest => (items? steps depth rest).map fun (items, rest) => (item :: items, rest)
      | _ => none

/-- The members of a nonempty object up to its closing brace. -/
def members? : Nat -> Nat -> Text -> Option (List (Text × Json) × Text)
  | 0, _, _ => none
  | steps + 1, depth, text =>
      match skipSpace text with
      | '"' :: rest => do
          let (key, rest) <- string? steps rest
          match skipSpace rest with
          | ':' :: rest => do
              let (value, rest) <- value? steps depth rest
              match skipSpace rest with
              | '}' :: rest => some ([(key, value)], rest)
              | ',' :: rest =>
                  (members? steps depth rest).map fun (members, rest) => ((key, value) :: members, rest)
              | _ => none
          | _ => none
      | _ => none

end

end Reader

/-- The value of a JSON text; nothing but space may follow it. -/
def ofText? (text : Text) : Option Json := do
  let (value, rest) <- Reader.value? (text.length + 1) Reader.maxDepth text
  if (Reader.skipSpace rest).isEmpty then some value else none

end Json
end SongPath
