import SongPath.Mismatch
import SongPath.Segment

/-!
# Folder alignment

Which folder of a path each folder segment of a pattern describes.  Without
`**` a pattern describes the last folders of the path, and whatever stands in
front is ignored.  With `**` the segments before it describe the first folders,
the segments behind it the last ones, and `**` takes what lies between.
-/

namespace SongPath

/-- A folder segment beside the folder that it has to describe.  `index` counts
the folders of the path from zero. -/
structure Aligned where
  index : Nat
  segment : Segment
  actual : Text
  deriving DecidableEq, Repr

namespace Alignment

/-- The segments before and after the first `**`.  Without one, every segment
belongs to the right side. -/
def sides (segments : List Segment) : List Segment × List Segment :=
  if segments.contains .anyFolders then
    (segments.takeWhile (· != .anyFolders), (segments.dropWhile (· != .anyFolders)).drop 1)
  else ([], segments)

/-- Pair segments with consecutive folders, the first of which has the given
index. -/
def pair (index : Nat) : List Segment -> List Text -> List Aligned
  | segment :: segments, folder :: folders =>
      ⟨index, segment, folder⟩ :: pair (index + 1) segments folders
  | _, _ => []

theorem length_pair (index : Nat) (segments : List Segment) (folders : List Text) :
    (pair index segments folders).length = min segments.length folders.length := by
  induction segments generalizing index folders with
  | nil => simp [pair]
  | cons segment segments inductionHypothesis =>
      cases folders with
      | nil => simp [pair]
      | cons folder folders => simp [pair, inductionHypothesis, Nat.succ_min_succ]

/-- The pair at a place has the index, the segment and the folder of that
place. -/
theorem getElem?_pair (index place : Nat) (segments : List Segment) (folders : List Text) :
    (pair index segments folders)[place]? =
      (segments[place]?).bind fun segment =>
        (folders[place]?).map fun folder => ⟨index + place, segment, folder⟩ := by
  induction segments generalizing index place folders with
  | nil => simp [pair]
  | cons segment segments inductionHypothesis =>
      cases folders with
      | nil =>
          cases place with
          | zero => simp [pair]
          | succ place => cases found : segments[place]? <;> simp [pair, found]
      | cons folder folders =>
          cases place with
          | zero => simp [pair]
          | succ place =>
              have shift : index + 1 + place = index + (place + 1) := by omega
              simp [pair, inductionHypothesis, shift]

/-- Align folder segments with folder names.  The `**` itself describes nothing
and is left out. -/
def align (segments : List Segment) (folders : List Text) : Except Mismatch (List Aligned) :=
  let (left, right) := sides segments
  let required := left.length + right.length
  if folders.length < required then .error (.tooFewFolders required folders.length)
  else
    let start := folders.length - right.length
    .ok (pair 0 left folders ++ pair start right (folders.drop start))

end Alignment
end SongPath
