import SongPath.Segment
import SongPath.Text.Blank

/-!
# Captures of one segment

A composite segment describes a text if the text can be cut into consecutive
spans, one per piece: a literal has to be its own span, a token needs a span
with a visible character, and a wildcard takes any span.  Among several such
cuts the one with the shortest first span counts, then the shortest second
span, and so on.

The cut is computed for all suffixes of the text at once, piece by piece from
the right, so that the cost is one step per piece and suffix.
-/

namespace SongPath
namespace Segment

/-- The spans of a cut, one per piece. -/
abbrev Spans := List Text

/-- For a text, one entry per suffix from the whole text down to the empty one:
the chosen cut of that suffix, if there is any. -/
abbrev Cuts := List (Option Spans)

/-- Lengthen the first span by a character in front. -/
def grow (char : Char) : Spans -> Spans
  | span :: spans => (char :: span) :: spans
  | [] => []

/-- The entry of the longest suffix. -/
def longest (cuts : Cuts) : Option Spans :=
  cuts.head?.join

/-- Without pieces only the empty suffix has a cut, the empty one. -/
def cutsOfNothing : Text -> Cuts
  | [] => [some []]
  | _ :: rest => none :: cutsOfNothing rest

/-- Put a literal in front.  `later` starts with the entry for the suffix that
begins behind the literal. -/
def cutsOfLiteral (literal : Text) : Text -> Cuts -> Cuts
  | text, later =>
      let here :=
        if literal.isPrefixOf text then (longest later).map (literal :: ·) else none
      match text with
      | [] => [here]
      | _ :: rest => here :: cutsOfLiteral literal rest (later.drop 1)

/-- Put a span of any length in front, the empty one first. -/
def cutsOfWildcard : Text -> Cuts -> Cuts
  | [], later => [(longest later).map ([] :: ·)]
  | char :: rest, later =>
      let behind := cutsOfWildcard rest (later.drop 1)
      let here :=
        match longest later with
        | some spans => some ([] :: spans)
        | none => (longest behind).map (grow char)
      here :: behind

/-- Put a visible span in front.  Blank characters have to be followed by the
rest of such a span; the first visible one may be followed by anything.
`loose` holds the cuts with a span of any length in front. -/
def cutsOfToken : Text -> Cuts -> Cuts
  | [], _ => [none]
  | char :: rest, loose =>
      let behind := cutsOfToken rest (loose.drop 1)
      let here :=
        if isBlank char then (longest behind).map (grow char)
        else (longest (loose.drop 1)).map (grow char)
      here :: behind

/-- The cuts of every suffix of a text into the spans of the given pieces. -/
def cuts : List Piece -> Text -> Cuts
  | [], text => cutsOfNothing text
  | .literal expected :: pieces, text =>
      cutsOfLiteral expected text ((cuts pieces text).drop expected.length)
  | .wildcard :: pieces, text => cutsOfWildcard text (cuts pieces text)
  | .slot _ :: pieces, text => cutsOfToken text (cutsOfWildcard text (cuts pieces text))

/-- The chosen cut of a text into the spans of the given pieces. -/
def cut (pieces : List Piece) (text : Text) : Option Spans :=
  longest (cuts pieces text)

/-- The spans that belong to tokens, from left to right. -/
def tokenSpans : List Piece -> Spans -> List (Token × Text)
  | .slot token :: pieces, span :: spans => (token, span) :: tokenSpans pieces spans
  | _ :: pieces, _ :: spans => tokenSpans pieces spans
  | _, _ => []

/-- What the tokens of a segment capture in a text, untrimmed, or nothing if
the segment does not describe the text.  A token that is a whole segment takes
any text but the empty one. -/
def capture (segment : Segment) (text : Text) : Option (List (Token × Text)) :=
  match segment with
  | .anyFolder | .anyFolders => some []
  | .literal expected => if expected = text then some [] else none
  | .slot token => if text.isEmpty then none else some [(token, text)]
  | .composite pieces => (cut pieces text).map (tokenSpans pieces)

end Segment
end SongPath
