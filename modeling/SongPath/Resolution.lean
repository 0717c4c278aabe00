import SongPath.PatternSet

/-!
# Resolutions

What a set of patterns says about given paths, and what the compiler says about
given specifications.  These are the outcomes that reports write down.
-/

namespace SongPath

/-- The outcome for one path.  Reasons are given only where nothing matched. -/
structure Resolution where
  path : Text
  found : Option SetMatch
  reasons : List Text
  deriving DecidableEq, Repr

namespace Resolution

/-- Some pattern described the path. -/
def isMatch (resolution : Resolution) : Bool :=
  resolution.found.isSome

end Resolution

namespace PatternSet

/-- Resolve one path: the first match or, without any, one reason per pattern. -/
def resolve (set : PatternSet) (path : Text) : Resolution :=
  match set.matchFirst? path with
  | some found => ⟨path, some found, []⟩
  | none => ⟨path, none, (set.mismatches path).map Mismatch.message⟩

/-- Resolve paths in order. -/
def resolveAll (set : PatternSet) (paths : List Text) : List Resolution :=
  paths.map set.resolve

end PatternSet

/-- The outcome for one specification. -/
structure Verdict where
  spec : Text
  result : Compiled

namespace Verdict

/-- The verdict on a specification. -/
def ofSpec (spec : Text) : Verdict :=
  ⟨spec, Pattern.compile spec⟩

/-- The specification compiles. -/
def isValid (verdict : Verdict) : Bool :=
  verdict.result.isOk

end Verdict
end SongPath
