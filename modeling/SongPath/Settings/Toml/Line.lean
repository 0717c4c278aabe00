import SongPath.Text

/-!
# Lines in TOML

What stands around the entries of a file: space, line ends and comments.
-/

namespace SongPath
namespace Settings
namespace Toml

/-- Space within a line. -/
def isSpace (char : Char) : Bool :=
  char == ' ' || char == '\t'

/-- Drop space within a line. -/
def skipSpace (text : Text) : Text :=
  text.dropWhile isSpace

/-- Control characters that may not stand in comments and strings.  A tab may. -/
def isControl (char : Char) : Bool :=
  (char.toNat < 0x20 && char != '\t') || char.toNat == 0x7F

/-- The text behind a line end, if the text starts with one. -/
def lineEnd? : Text -> Option Text
  | '\n' :: rest => some rest
  | '\r' :: '\n' :: rest => some rest
  | _ => none

/-- Drop space and a comment.  Only the end of a line or of the text may follow. -/
def skipComment? (text : Text) : Option Text :=
  match skipSpace text with
  | '#' :: rest =>
      let comment := rest.takeWhile fun char => char != '\n' && char != '\r'
      if comment.any isControl then none else some (rest.drop comment.length)
  | rest => some rest

/-- Drop lines without an entry, and the space in front of the next entry. -/
def skipLines? : Nat -> Text -> Option Text
  | 0, _ => none
  | steps + 1, text => do
      let rest <- skipComment? text
      match lineEnd? rest with
      | some rest => skipLines? steps rest
      | none => some rest

/-- Drop space and line ends. -/
def skipBlank : Text -> Text
  | ' ' :: rest => skipBlank rest
  | '\t' :: rest => skipBlank rest
  | '\n' :: rest => skipBlank rest
  | '\r' :: '\n' :: rest => skipBlank rest
  | rest => rest

end Toml
end Settings
end SongPath
