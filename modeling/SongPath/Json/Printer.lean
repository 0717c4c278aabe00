import SongPath.Json

/-!
# Writing JSON

The indented form in which reports are written: two spaces for each level, one
item or member on a line, and nothing between the brackets of an empty array
or object.  Only quotes, backslashes and control characters are escaped.
-/

namespace SongPath
namespace Json
namespace Printer

/-- A hexadecimal digit in lower case. -/
def hexDigit (value : Nat) : Char :=
  Nat.digitChar value

/-- A character inside a string. -/
def escape (char : Char) : Text :=
  match char with
  | '"' => ['\\', '"']
  | '\\' => ['\\', '\\']
  | '\x08' => ['\\', 'b']
  | '\x0c' => ['\\', 'f']
  | '\n' => ['\\', 'n']
  | '\r' => ['\\', 'r']
  | '\t' => ['\\', 't']
  | char =>
      if char.toNat < 0x20 then
        ['\\', 'u', '0', '0', hexDigit (char.toNat / 16), hexDigit (char.toNat % 16)]
      else [char]

/-- A text as a JSON string. -/
def quote (text : Text) : Text :=
  '"' :: text.flatMap escape ++ ['"']

/-- The start of a line at a level. -/
def newline (level : Nat) : Text :=
  '\n' :: List.replicate (2 * level) ' '

/-- An exact decimal: all digits, then the power of ten. -/
def decimal (value : Decimal) : Text :=
  (if value.negative then ['-'] else []) ++ Text.ofNat value.digits ++
    'e' :: Text.ofInt value.exponent

mutual

/-- A value that stands at the given level. -/
def value (level : Nat) : Json -> Text
  | .null => "null".toList
  | .bool true => "true".toList
  | .bool false => "false".toList
  | .integer number => Text.ofInt number
  | .decimal number => decimal number
  | .string text => quote text
  | .array [] => ['[', ']']
  | .array (item :: items) =>
      '[' :: newline (level + 1) ++ value (level + 1) item ++ laterItems (level + 1) items ++
        newline level ++ [']']
  | .object [] => ['{', '}']
  | .object ((key, member) :: members) =>
      '{' :: newline (level + 1) ++ quote key ++ ':' :: ' ' :: value (level + 1) member ++
        laterMembers (level + 1) members ++ newline level ++ ['}']

/-- The items behind the first one, each with the comma in front. -/
def laterItems (level : Nat) : List Json -> Text
  | [] => []
  | item :: items => ',' :: newline level ++ value level item ++ laterItems level items

/-- The members behind the first one, each with the comma in front. -/
def laterMembers (level : Nat) : List (Text × Json) -> Text
  | [] => []
  | (key, member) :: members =>
      ',' :: newline level ++ quote key ++ ':' :: ' ' :: value level member ++
        laterMembers level members

end

end Printer

/-- A JSON text that starts at the left margin. -/
def render (json : Json) : Text :=
  Printer.value 0 json

end Json
end SongPath
