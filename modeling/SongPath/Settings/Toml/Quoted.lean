import SongPath.Json.Reader
import SongPath.Settings.Toml.Line

/-!
# Strings in TOML

Strings in double quotes, in which a backslash escapes, and in single quotes, in
which nothing is escaped.  Either kind goes over several lines if its quotes are
tripled.
-/

namespace SongPath
namespace Settings
namespace Toml

/-- As many hexadecimal digits as asked for. -/
def hexadecimal? : Nat -> Nat -> Text -> Option (Nat × Text)
  | 0, value, rest => some (value, rest)
  | digits + 1, value, char :: rest => do
      let digit <- Json.Reader.hexDigit? char
      hexadecimal? digits (value * 16 + digit) rest
  | _ + 1, _, [] => none

/-- The character of a code point written with a number of digits. -/
def coded? (digits : Nat) (text : Text) : Option (Char × Text) := do
  let (code, rest) <- hexadecimal? digits 0 text
  let char <- Json.Reader.scalar? code
  some (char, rest)

/-- The character written by an escape, given the text behind the backslash. -/
def escape? : Text -> Option (Char × Text)
  | '"' :: rest => some ('"', rest)
  | '\\' :: rest => some ('\\', rest)
  | 'b' :: rest => some ('\x08', rest)
  | 'f' :: rest => some ('\x0c', rest)
  | 'n' :: rest => some ('\n', rest)
  | 'r' :: rest => some ('\r', rest)
  | 't' :: rest => some ('\t', rest)
  | 'u' :: rest => coded? 4 rest
  | 'U' :: rest => coded? 8 rest
  | _ => none

/-- The rest of a string in double quotes, behind the opening one. -/
def basicString? : Nat -> Text -> Option (Text × Text)
  | 0, _ => none
  | _ + 1, [] => none
  | _ + 1, '"' :: rest => some ([], rest)
  | steps + 1, '\\' :: rest => do
      let (char, rest) <- escape? rest
      let (text, rest) <- basicString? steps rest
      some (char :: text, rest)
  | steps + 1, char :: rest =>
      if isControl char then none
      else (basicString? steps rest).map fun (text, rest) => (char :: text, rest)

/-- The rest of a string in single quotes, in which nothing is escaped. -/
def literalString? (text : Text) : Option (Text × Text) :=
  let content := text.takeWhile (· != '\'')
  match text.drop content.length with
  | '\'' :: rest => if content.any isControl then none else some (content, rest)
  | _ => none

/-- The end of a string in triple quotes: up to two quotes of the string itself
may stand directly in front of the closing ones. -/
def closing? (quote : Char) (text : Text) : Option (Text × Text) :=
  let quotes := (text.takeWhile (· == quote)).length
  if quotes < 3 then none
  else
    let own := min (quotes - 3) 2
    some (List.replicate own quote, text.drop (own + 3))

/-- The text behind a backslash at the end of a line, from the next character
that is not blank. -/
def joinedLine? (text : Text) : Option Text :=
  (lineEnd? (skipSpace text)).map skipBlank

/-- The rest of a string in triple quotes.  It may go over several lines, whose
ends are all read as a line feed.  Escapes count if the quotes are double. -/
def lines? (quote : Char) : Nat -> Text -> Option (Text × Text)
  | 0, _ => none
  | steps + 1, text =>
      match closing? quote text, lineEnd? text, text with
      | some closed, _, _ => some closed
      | none, some rest, _ => (lines? quote steps rest).map fun (text, rest) => ('\n' :: text, rest)
      | none, none, [] => none
      | none, none, char :: rest =>
          if char == '\\' && quote == '"' then
            match joinedLine? rest with
            | some rest => lines? quote steps rest
            | none => do
                let (char, rest) <- escape? rest
                let (text, rest) <- lines? quote steps rest
                some (char :: text, rest)
          else if isControl char then none
          else (lines? quote steps rest).map fun (text, rest) => (char :: text, rest)

/-- A string in triple quotes, behind the opening ones.  A line end directly
behind them does not count. -/
def multiline? (quote : Char) (text : Text) : Option (Text × Text) :=
  let text := (lineEnd? text).getD text
  lines? quote (text.length + 1) text

end Toml
end Settings
end SongPath
