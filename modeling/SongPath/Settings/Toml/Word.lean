import SongPath.Json.Reader
import SongPath.Settings.Toml.Line
import SongPath.Settings.Value

/-!
# Words in TOML

Values that are one word: truth values, integers in four bases and other
numbers.  Underscores may stand between digits.
-/

namespace SongPath
namespace Settings
namespace Toml

/-- A hexadecimal digit of either case. -/
def isHexDigit (char : Char) : Bool :=
  (Json.Reader.hexDigit? char).isSome

/-- Remove the underscores between digits; any other underscore is an error.
`afterDigit` tells whether a digit stands in front. -/
def joinDigits? (isDigit : Char -> Bool) (afterDigit : Bool) : Text -> Option Text
  | [] => some []
  | ['_'] => none
  | '_' :: char :: rest =>
      if afterDigit && isDigit char then joinDigits? isDigit false (char :: rest) else none
  | char :: rest => (joinDigits? isDigit (isDigit char) rest).map (char :: ·)

/-- A natural number in the given base, at least one digit. -/
def based? (base : Nat) (digits : Text) : Option Nat := do
  if digits.isEmpty then none
  digits.foldlM (fun value char => do
    let digit <- Json.Reader.hexDigit? char
    if digit < base then some (value * base + digit) else none) 0

/-- An integer that can be kept exactly. -/
def kept? (number : Int) : Option Value :=
  if Value.fits number then some (.integer number) else none

/-- An integer in another base than ten, without a sign. -/
def basedInteger? (base : Nat) (digits : Text) : Option Value := do
  let digits <- joinDigits? isHexDigit false digits
  let number <- based? base digits
  kept? number

/-- A number in decimal notation.  The whole part has no leading zeros, and a
number too large for double precision is an error. -/
def decimal? (text : Text) : Option Value :=
  let (numeral, rest) := Numeral.scan text
  if !rest.isEmpty || !numeral.isCanonical || !numeral.hasFraction || !numeral.hasPower then none
  else if numeral.isWhole then kept? numeral.integer
  else
    let number := Binary64.nearest numeral.value
    if number == .infinite false then none else some (.real number)

/-- A value that is one word: a truth value or a number. -/
def word? (word : Text) : Option Value :=
  match word with
  | ['t', 'r', 'u', 'e'] => some (.bool true)
  | ['f', 'a', 'l', 's', 'e'] => some (.bool false)
  | ['i', 'n', 'f'] | ['+', 'i', 'n', 'f'] => some (.real (.infinite false))
  | ['-', 'i', 'n', 'f'] => some (.real (.infinite true))
  | ['n', 'a', 'n'] | ['+', 'n', 'a', 'n'] | ['-', 'n', 'a', 'n'] => some (.real .nan)
  | '0' :: 'x' :: digits => basedInteger? 16 digits
  | '0' :: 'o' :: digits => basedInteger? 8 digits
  | '0' :: 'b' :: digits => basedInteger? 2 digits
  | word => joinDigits? Char.isDigit false word >>= decimal?

/-- The characters that end a word. -/
def endsWord (char : Char) : Bool :=
  isSpace char || char == '\n' || char == '\r' || char == ',' || char == ']' || char == '\x7d'
    || char == '#'

end Toml
end Settings
end SongPath
