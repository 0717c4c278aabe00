import SongPath.Token

/-!
# Segments

One folder or file name of a compiled pattern.  A name that mixes literal
text, tokens and wildcards is a composite of pieces; a name made of a single
literal or a single token has a form of its own, and so have the two wildcards
that stand for whole folders.
-/

namespace SongPath

/-- An element of a composite segment.  A slot is a placeholder for a token. -/
inductive Piece where
  | literal (text : Text)
  | slot (token : Token)
  | wildcard
  deriving DecidableEq, Repr

namespace Piece

/-- A piece in specification syntax. -/
def render : Piece -> Text
  | .literal text => text
  | .slot token => token.placeholder
  | .wildcard => ['*']

/-- The token of a placeholder piece. -/
def token? : Piece -> Option Token
  | .slot token => some token
  | _ => none

/-- What a piece costs against the size limit of a segment.  Literals are
charged by their UTF-8 bytes.

The limit is that of the engine which runs a composite as an expression, and the
engine does not say what an item takes up.  The costs are measured: by them 2850
slots, 10006 wildcards or 327681 bytes are the first too many, where the engine
gives up at about 2850, 10000 and 327000, and pieces of several kinds are taken to
add up.  Theorems use no more of the numbers than that fewer or shorter pieces
cost no more. -/
def weight : Piece -> Nat
  | .literal text => 32 * text.utf8Length
  | .slot _ => 3680
  | .wildcard => 1048

/-- The largest admissible total weight of the pieces of one segment: the ten
mebibytes that the engine grants an expression unless told otherwise. -/
def weightLimit : Nat :=
  10 * 1024 * 1024

/-- The weight of all pieces together. -/
def totalWeight : List Piece -> Nat
  | [] => 0
  | piece :: pieces => piece.weight + totalWeight pieces

/-- The pieces weigh more than one segment may. -/
def areOversized (pieces : List Piece) : Bool :=
  weightLimit < totalWeight pieces

end Piece

/-- One compiled part of a specification.  `anyFolder` is a whole folder `*`
and `anyFolders` a whole folder `**`. -/
inductive Segment where
  | literal (text : Text)
  | slot (token : Token)
  | anyFolder
  | anyFolders
  | composite (pieces : List Piece)
  deriving DecidableEq, Repr

namespace Segment

/-- A segment in specification syntax. -/
def render : Segment -> Text
  | .literal text => text
  | .slot token => token.placeholder
  | .anyFolder => ['*']
  | .anyFolders => ['*', '*']
  | .composite pieces => pieces.flatMap Piece.render

/-- The tokens of a segment from left to right, with repeats. -/
def tokens : Segment -> List Token
  | .slot token => [token]
  | .composite pieces => pieces.filterMap Piece.token?
  | _ => []

end Segment
end SongPath
