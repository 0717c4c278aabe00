import SongPath.Alignment
import SongPath.Metadata
import SongPath.Pattern
import SongPath.Segment.Capture

/-!
# Matching

A candidate is tried unit by unit: the aligned folders in pattern order and
then the file.  The first unit that fails decides the outcome.  Captured values
are trimmed, and the first value of a token is the one that counts.
-/

namespace SongPath
namespace Metadata

/-- Record one raw capture.  A capture without visible characters is refused
even if the token has a value already. -/
def record (metadata : Metadata) (capture : Token × Text) : Except Mismatch Metadata :=
  if capture.2.trim.isEmpty then .error (.blankCapture capture.1)
  else .ok (metadata.put capture.1 capture.2.trim)

/-- Record captures in order, up to the first that is refused. -/
def recordAll (metadata : Metadata) (captures : List (Token × Text)) : Except Mismatch Metadata :=
  captures.foldlM record metadata

end Metadata

/-- A segment beside the text that it has to describe, and the outcome if it
does not. -/
structure Trial where
  segment : Segment
  actual : Text
  mismatch : Mismatch
  deriving DecidableEq, Repr

namespace Trial

/-- The trial of an aligned folder. -/
def ofFolder (aligned : Aligned) : Trial :=
  ⟨aligned.segment, aligned.actual,
    .folder aligned.index aligned.segment.render aligned.actual⟩

/-- The trial of the file name. -/
def ofFile (file : Segment) (fileName : Text) : Trial :=
  ⟨file, fileName, .file file.render fileName⟩

/-- Try one unit and record what it captures. -/
def run (metadata : Metadata) (trial : Trial) : Except Mismatch Metadata :=
  match trial.segment.capture trial.actual with
  | none => .error trial.mismatch
  | some captures => metadata.recordAll captures

end Trial

namespace Pattern

/-- The units of a candidate in the order in which they are tried. -/
def trials (pattern : Pattern) (candidate : Candidate) : Except Mismatch (List Trial) :=
  (Alignment.align pattern.folders candidate.folders).map fun aligned =>
    aligned.map Trial.ofFolder ++ [Trial.ofFile pattern.file candidate.fileName]

/-- Match a path that is already split. -/
def matchCandidate (pattern : Pattern) (candidate : Candidate) : Except Mismatch Metadata := do
  let trials <- pattern.trials candidate
  trials.foldlM Trial.run Metadata.empty

/-- Match a path. -/
def matchPath (pattern : Pattern) (path : Text) : Except Mismatch Metadata :=
  pattern.matchCandidate (Candidate.ofPath path)

end Pattern
end SongPath
