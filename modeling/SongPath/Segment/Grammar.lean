import SongPath.Defect
import SongPath.Lexeme
import SongPath.Segment

/-!
# The grammar of one part

A part of a specification becomes a segment or is refused for its first
defect.  The order of the checks is part of the rule: an unclosed brace comes
before any other defect, then a run of three or more stars, then a `**` that
is not a whole folder, then a star that touches a group in braces (whatever
its name), then an unknown name, and the size limit last.
-/

namespace SongPath
namespace Segment

/-- The length of the first run of three or more stars. -/
def longRun? (lexemes : List Lexeme) : Option Nat :=
  lexemes.findSome? fun
    | .stars run => if 3 ≤ run then some run else none
    | _ => none

/-- The raw name of the first group in braces that a run of stars touches on
either side. -/
def touched? : List Lexeme -> Option Text
  | .stars _ :: .brace name :: _ => some name
  | .brace name :: .stars _ :: _ => some name
  | _ :: rest => touched? rest
  | [] => none

/-- The wildcard that stands for whole folders, if the part is nothing else. -/
def wholeWildcard? : List Lexeme -> Option Segment
  | [.stars 1] => some .anyFolder
  | [.stars 2] => some .anyFolders
  | _ => none

/-- The piece of a lexeme; an unknown name is the error. -/
def piece : Lexeme -> Except Text Piece
  | .literal text => .ok (.literal text)
  | .stars _ => .ok .wildcard
  | .brace name =>
      match Token.ofName? name with
      | some token => .ok (.slot token)
      | none => .error name

/-- A single literal or token is a segment of its own; everything else is a
composite, and only composites have a size limit. -/
def ofPieces (raw : Text) : List Piece -> Except Defect Segment
  | [.literal text] => .ok (.literal text)
  | [.slot token] => .ok (.slot token)
  | pieces =>
      if Piece.areOversized pieces then .error (.oversizedSegment raw) else .ok (.composite pieces)

/-- Read lexemes that are no whole-folder wildcard. -/
def ofLexemes (raw : Text) (lexemes : List Lexeme) : Except Defect Segment :=
  if lexemes.contains (.stars 2) then .error (.mixedDoubleStar raw)
  else
    match touched? lexemes with
    | some name => .error (.starTouchesToken raw name)
    | none =>
        match lexemes.mapM piece with
        | .error name => .error (.unknownToken raw name)
        | .ok pieces => ofPieces raw pieces

/-- The lexemes of a part without overlong star runs. -/
def lexemes (raw : Text) : Except Defect (List Lexeme) :=
  match Lexeme.ofText? raw with
  | none => .error (.unclosedToken raw)
  | some lexemes =>
      match longRun? lexemes with
      | some run => .error (.longStarRun raw run)
      | none => .ok lexemes

/-- Read a folder part.  Only here may a wildcard stand for whole folders. -/
def ofFolder (raw : Text) : Except Defect Segment := do
  let lexemes <- lexemes raw
  match wholeWildcard? lexemes with
  | some segment => .ok segment
  | none => ofLexemes raw lexemes

/-- Read the file part, already without its extension. -/
def ofFile (raw : Text) : Except Defect Segment := do
  let lexemes <- lexemes raw
  ofLexemes raw lexemes

end Segment
end SongPath
