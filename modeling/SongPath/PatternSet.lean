import SongPath.Cache
import SongPath.Match

/-!
# Pattern sets

A library of songs often mixes naming schemes.  A set tries its patterns in
order and keeps the first that describes the path.  A set can be compiled
directly or through a cache; both stop at the first defective specification.
-/

namespace SongPath

/-- Patterns in the order in which they are tried. -/
structure PatternSet where
  patterns : List Pattern
  deriving DecidableEq, Repr

/-- The metadata of a matched path and the position of the pattern that gave
it. -/
structure SetMatch where
  patternIndex : Nat
  metadata : Metadata
  deriving DecidableEq, Repr

namespace PatternSet

/-- The set without patterns. -/
def empty : PatternSet :=
  ⟨[]⟩

/-- Add a pattern that is tried last. -/
def push (set : PatternSet) (pattern : Pattern) : PatternSet :=
  ⟨set.patterns ++ [pattern]⟩

/-- Compile every specification, up to the first defective one. -/
def compile (specs : List Text) : Except Defect PatternSet :=
  (specs.mapM Pattern.compile).map PatternSet.mk

/-- Look up one specification after the other, up to the first defective one.
Nothing is looked up behind it. -/
def lookupAll (cache : Cache) : List Text -> Except Defect (List Pattern) × Cache
  | [] => (.ok [], cache)
  | spec :: specs =>
      match cache.lookup spec with
      | (.error defect, cache) => (.error defect, cache)
      | (.ok pattern, cache) =>
          match lookupAll cache specs with
          | (.error defect, cache) => (.error defect, cache)
          | (.ok patterns, cache) => (.ok (pattern :: patterns), cache)

/-- Compile through a cache. -/
def fromCache (cache : Cache) (specs : List Text) : Except Defect PatternSet × Cache :=
  match lookupAll cache specs with
  | (.error defect, cache) => (.error defect, cache)
  | (.ok patterns, cache) => (.ok ⟨patterns⟩, cache)

/-- The first match among the given patterns, the first of which has the given
position. -/
def matchFrom? (index : Nat) (path : Text) : List Pattern -> Option SetMatch
  | [] => none
  | pattern :: patterns =>
      match pattern.matchPath path with
      | .ok metadata => some ⟨index, metadata⟩
      | .error _ => matchFrom? (index + 1) path patterns

/-- The first pattern that describes the path, with what it captured. -/
def matchFirst? (set : PatternSet) (path : Text) : Option SetMatch :=
  matchFrom? 0 path set.patterns

/-- Why each pattern that does not describe the path fails, in set order. -/
def mismatches (set : PatternSet) (path : Text) : List Mismatch :=
  set.patterns.filterMap fun pattern =>
    match pattern.matchPath path with
    | .ok _ => none
    | .error mismatch => some mismatch

end PatternSet
end SongPath
