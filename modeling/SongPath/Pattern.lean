import SongPath.Path
import SongPath.Segment.Grammar

/-!
# Patterns

A format specification is cut into parts like a path.  All parts but the last
are folder segments, the last is the file segment.  Parts are read in order,
and only a specification whose parts are all sound is checked for the rules
that relate folders: at most one `**`, and no `*` folder beside it.
-/

namespace SongPath

/-- A compiled format specification. -/
structure Pattern where
  folders : List Segment
  file : Segment
  deriving DecidableEq, Repr

namespace Pattern

/-- The first defect among the folders from the given index on.  `previous` is
the folder in front, and `seen` tells whether a `**` stands before it. -/
def folderDefect? (index : Nat) (seen : Bool) (previous : Option Segment) :
    List Segment -> Option Defect
  | [] => none
  | .anyFolders :: rest =>
      if seen then some (.secondDoubleStar index)
      else if previous == some .anyFolder || rest.head? == some .anyFolder then
        some (.doubleStarBesideStar index)
      else folderDefect? (index + 1) true (some .anyFolders) rest
  | segment :: rest => folderDefect? (index + 1) seen (some segment) rest

/-- Compile a format specification. -/
def compile (spec : Text) : Except Defect Pattern :=
  match (Path.names spec).getLast? with
  | none => .error .emptySpecification
  | some last => do
      let folders <- (Path.names spec).dropLast.mapM Segment.ofFolder
      let file <- Segment.ofFile (Path.patternStem last)
      match folderDefect? 0 false none folders with
      | some defect => .error defect
      | none => .ok ⟨folders, file⟩

/-- The canonical specification: every folder followed by one slash, then the
file without an extension. -/
def render (pattern : Pattern) : Text :=
  (pattern.folders.flatMap fun folder => folder.render ++ ['/']) ++ pattern.file.render

/-- The segments in document order, the file last. -/
def segments (pattern : Pattern) : List Segment :=
  pattern.folders ++ [pattern.file]

/-- The index of the `**` folder. -/
def doubleStar? (pattern : Pattern) : Option Nat :=
  pattern.folders.findIdx? (· == .anyFolders)

/-- Every token that the pattern can fill, in report order. -/
def tokens (pattern : Pattern) : List Token :=
  Token.all.filter fun token => (pattern.segments.flatMap Segment.tokens).contains token

end Pattern
end SongPath
