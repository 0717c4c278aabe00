import SongPath.Program
import SongPath.Proofs.OrderedFallback
import SongPath.Proofs.ReportReading
import SongPath.Proofs.SetConstruction

/-!
# Runs that resolve paths

Such a run compiles its formats twice, through two caches: once to check them
and once to use them.  Both stop at the first defective format or at none, so
that a run fails before it shows anything or has a result for every path.

The exit code is computed apart from the report.  All of them, the code, the
member `ok` and the headlines, say whether every path is matched.
-/

namespace SongPath

open Json (lookup? natural)

/-! ## What a report shows -/

namespace Report

/-- What the text report says about each captured value, in token order. -/
def details (metadata : Metadata) : List Text :=
  Token.all.flatMap fun token =>
    ((metadata.get token).map fun value => token.name ++ ": ".toList ++ value).toList

theorem metadataLines_eq (metadata : Metadata) :
    metadataLines metadata = (details metadata).flatMap indented := by
  rw [metadataLines, details, List.flatMap_assoc]
  refine List.flatMap_congr fun token _ => ?_
  cases metadata.get token with
  | none => rfl
  | some value => exact (List.flatMap_singleton _ _).symm

/-- The outcome as a block of the text report shows it: a headline, which tells
whether the path is matched, and indented lines. -/
structure IsBlockOf (resolution : Resolution) (block : Text) : Prop where
  matched : forall found, resolution.found = some found ->
    block = "OK ".toList ++ resolution.path ++ " [pattern ".toList ++
      Text.ofNat found.patternIndex ++ "]\n".toList ++ (details found.metadata).flatMap indented
  unmatched : resolution.found = none ->
    block = "NO MATCH ".toList ++ resolution.path ++ ['\n'] ++ resolution.reasons.flatMap indented

theorem isBlockOf_resolutionText (resolution : Resolution) :
    IsBlockOf resolution (resolutionText resolution) := by
  constructor
  · intro found same
    rw [resolutionText, same, ← metadataLines_eq]
  · intro same
    rw [resolutionText, same]
    exact List.append_cons _ _ _

variable (resolutions : List Resolution)

end Report

/-! ## Answers of a set -/

namespace PatternSet

end PatternSet

/-! ## The run -/

namespace Program

/-- The paths that count: those of the command line, or those on standard input
if it gives none. -/
def effectivePaths (input : Text) (given : List Text) : List Text :=
  if given = [] then inputPaths input else given

section

variable {settings : Settings} (json : Bool) (paths : List Text)

end

variable {read : ArgumentReader} {gatherer : Settings.Gatherer} {input : Text}
  {arguments : List Text} {config : Option Text} {formats : List Text} {json : Bool}
  {paths : List Text} {settings : Settings}

/-- Settings come first, and a run that cannot load them ends there.  Formats and
paths are then chosen apart from each other. -/
theorem execute_of_read
    (asked : read arguments = .ok ⟨config, .parse formats json paths⟩) :
    execute read gatherer input arguments =
      match Settings.loadBy gatherer config with
      | .error failure => .failed failure
      | .ok settings => parse (override settings formats) json (effectivePaths input paths) := by
  have same : (if paths.isEmpty then inputPaths input else paths) = effectivePaths input paths := by
    cases paths <;> rfl
  rw [execute, asked, ← same]
  rfl

end Program
end SongPath
