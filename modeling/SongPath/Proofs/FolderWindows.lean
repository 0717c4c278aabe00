import SongPath.Proofs.FolderAlignment

/-!
# The windows of an alignment

The first `**` of a list of segments divides it.  The segments in front of it
describe the first folders one by one, those behind it the last folders, and a
folder for each of them is all that alignment asks for.  The folders between the
two windows are described by nothing.

Nothing here asks that the list is sound: a later `**` is one of the segments
behind the first, and takes one folder as they do.
-/

namespace SongPath
namespace Alignment

/-- The segments in front of the first `**` and those behind it.  Without a `**`
every segment stands behind. -/
inductive DividesInto : List Segment -> List Segment -> List Segment -> Prop where
  | around {left right : List Segment} :
      .anyFolders ∉ left -> DividesInto (left ++ .anyFolders :: right) left right
  | whole {segments : List Segment} :
      .anyFolders ∉ segments -> DividesInto segments [] segments

theorem DividesInto.eq_sides {segments left right : List Segment}
    (divides : DividesInto segments left right) :
    left = (sides segments).1 ∧ right = (sides segments).2 := by
  cases divides with
  | around absent =>
      rw [sides_of_split absent]
      exact ⟨rfl, rfl⟩
  | whole absent =>
      rw [sides_of_not_mem absent]
      exact ⟨rfl, rfl⟩

theorem dividesInto_sides (segments : List Segment) :
    DividesInto segments (sides segments).1 (sides segments).2 := by
  by_cases listed : .anyFolders ∈ segments
  · rcases List.eq_append_cons_of_mem listed with ⟨left, right, rfl, absent⟩
    rw [sides_of_split absent]
    exact .around absent
  · rw [sides_of_not_mem listed]
    exact .whole listed

/-- What an alignment gives for the segments of the two windows. -/
structure FillsWindows (left right : List Segment) (folders : List Text)
    (aligned : List Aligned) : Prop where
  /-- No segment is left out or repeated, and the order is that of the pattern. -/
  inOrder : aligned.map Aligned.segment = left ++ right
  /-- Every index is that of a folder, and the folder stands beside it. -/
  inBounds : forall unit, unit ∈ aligned ->
    unit.index < folders.length ∧ folders[unit.index]? = some unit.actual
  atFront : forall (place : Nat) (segment : Segment), left[place]? = some segment ->
    exists folder, folders[place]? = some folder ∧
      aligned[place]? = some ⟨place, segment, folder⟩
  atBack : forall (place : Nat) (segment : Segment), right[place]? = some segment ->
    exists folder, folders[folders.length - right.length + place]? = some folder ∧
      aligned[left.length + place]? =
        some ⟨folders.length - right.length + place, segment, folder⟩
  increasing : (aligned.map Aligned.index).Pairwise (· < ·)
  /-- No folder is described twice. -/
  distinct : (aligned.map Aligned.index).Nodup
  /-- The folders that are not described are those between the windows. -/
  unused : forall index, index < folders.length ->
    (index ∉ aligned.map Aligned.index <->
      left.length ≤ index ∧ index < folders.length - right.length)

/-! ## The indices of an alignment -/

theorem map_index_pair (index : Nat) {segments : List Segment} {folders : List Text}
    (enough : segments.length ≤ folders.length) :
    (pair index segments folders).map Aligned.index = List.range' index segments.length := by
  induction segments generalizing index folders with
  | nil => rfl
  | cons segment segments inductionHypothesis =>
      cases folders with
      | nil => exact absurd enough (Nat.not_succ_le_zero _)
      | cons folder folders =>
          exact congrArg (index :: ·)
            (inductionHypothesis (index + 1) (Nat.le_of_succ_le_succ enough))

theorem exists_getElem?_pair (index : Nat) {place : Nat} {segments : List Segment}
    {folders : List Text} (enough : segments.length ≤ folders.length) {segment : Segment}
    (stands : segments[place]? = some segment) :
    exists folder, folders[place]? = some folder ∧
      (pair index segments folders)[place]? = some ⟨index + place, segment, folder⟩ := by
  have inside : place < folders.length :=
    Nat.lt_of_lt_of_le (List.getElem?_eq_some_iff.mp stands).1 enough
  have folder : folders[place]? = some folders[place] := List.getElem?_eq_getElem inside
  refine ⟨folders[place], folder, ?_⟩
  rw [getElem?_pair, stands, folder]
  rfl

/-- Both windows are runs of consecutive indices. -/
theorem map_index_align {segments : List Segment} {folders : List Text} {aligned : List Aligned}
    (aligns : align segments folders = .ok aligned) :
    aligned.map Aligned.index =
      List.range' 0 (sides segments).1.length ++
        List.range' (folders.length - (sides segments).2.length) (sides segments).2.length := by
  rcases windows_of_align aligns with ⟨enoughLeft, enoughRight, rfl⟩
  rw [List.map_append, map_index_pair 0 enoughLeft, map_index_pair _ enoughRight]

theorem fillsWindows_of_align {segments : List Segment} {folders : List Text}
    {aligned : List Aligned} (aligns : align segments folders = .ok aligned) :
    FillsWindows (sides segments).1 (sides segments).2 folders aligned := by
  have enough := le_length_of_align aligns
  have indices := map_index_align aligns
  have placed : forall unit, unit ∈ aligned -> folders[unit.index]? = some unit.actual :=
    fun unit => getElem?_of_mem_align aligns
  have increasing : (aligned.map Aligned.index).Pairwise (· < ·) := by
    rw [indices]
    refine List.pairwise_append.mpr ⟨List.pairwise_lt_range', List.pairwise_lt_range', ?_⟩
    intro first inLeft second inRight
    rw [List.mem_range'_1] at inLeft inRight
    omega
  have unused : forall index, index < folders.length ->
      (index ∉ aligned.map Aligned.index <->
        (sides segments).1.length ≤ index ∧
          index < folders.length - (sides segments).2.length) := by
    intro index inside
    rw [indices, List.mem_append, List.mem_range'_1, List.mem_range'_1]
    omega
  rcases windows_of_align aligns with ⟨enoughLeft, enoughRight, windows⟩
  have leftLength : (pair 0 (sides segments).1 folders).length = (sides segments).1.length := by
    rw [length_pair, Nat.min_eq_left enoughLeft]
  refine ⟨map_segment_align aligns, ?_, ?_, ?_, increasing, increasing.imp Nat.ne_of_lt, unused⟩
  · intro unit listed
    exact ⟨(List.getElem?_eq_some_iff.mp (placed unit listed)).1, placed unit listed⟩
  · intro place segment stands
    rcases exists_getElem?_pair 0 enoughLeft stands with ⟨folder, named, paired⟩
    have inLeft := (List.getElem?_eq_some_iff.mp paired).1
    refine ⟨folder, named, ?_⟩
    rw [windows, List.getElem?_append_left inLeft, paired, Nat.zero_add]
  · intro place segment stands
    rcases exists_getElem?_pair _ enoughRight stands with ⟨folder, named, paired⟩
    rw [List.getElem?_drop] at named
    refine ⟨folder, named, ?_⟩
    rw [windows, ← leftLength, List.getElem?_append_right (Nat.le_add_right _ _),
      Nat.add_sub_cancel_left, paired]

/-! ## The outcome of an alignment -/

/-- Alignment fails exactly if there are fewer folders than segments on both
sides of the first `**`, and tells both numbers.  Otherwise the segments in front
of the `**` take the first folders and those behind it the last ones. -/
theorem align_outcome (segments : List Segment) :
    (exists left right, DividesInto segments left right) ∧
    forall left right, DividesInto segments left right -> forall folders : List Text,
      (forall mismatch, align segments folders = .error mismatch <->
        folders.length < left.length + right.length ∧
          mismatch = .tooFewFolders (left.length + right.length) folders.length) ∧
      (left.length + right.length ≤ folders.length ->
        exists aligned, align segments folders = .ok aligned ∧
          FillsWindows left right folders aligned) := by
  refine ⟨⟨_, _, dividesInto_sides segments⟩, ?_⟩
  intro left right divides folders
  rcases divides.eq_sides with ⟨rfl, rfl⟩
  constructor
  · intro mismatch
    constructor
    · intro failed
      rcases Nat.lt_or_ge folders.length
        ((sides segments).1.length + (sides segments).2.length) with fewer | enough
      · rw [align_of_lt fewer] at failed
        exact ⟨fewer, (Except.error.inj failed).symm⟩
      · rw [align_of_le enough] at failed
        cases failed
    · rintro ⟨fewer, rfl⟩
      exact align_of_lt fewer
  · intro enough
    have aligns := align_of_le enough
    exact ⟨_, aligns, fillsWindows_of_align aligns⟩

/-- The second `**` takes a folder of its own. -/
theorem align_outcome_of_two :
    exists segments left right aligned,
      segments = [.literal "root".toList, .anyFolders, .slot .artist, .anyFolders] ∧
      DividesInto segments left right ∧
      align segments ["root".toList, "a".toList, "b".toList, "ABBA".toList, "Live".toList] =
        .ok aligned ∧
      FillsWindows left right
        ["root".toList, "a".toList, "b".toList, "ABBA".toList, "Live".toList] aligned ∧
      aligned.map Aligned.index = [0, 3, 4] ∧
      align segments ["root".toList, "ABBA".toList] = .error (.tooFewFolders 3 2) := by
  have absent : .anyFolders ∉ [Segment.literal "root".toList] := by decide
  have divides :
      DividesInto ([.literal "root".toList] ++ .anyFolders :: [.slot .artist, .anyFolders])
        [.literal "root".toList] [.slot .artist, .anyFolders] := .around absent
  have outcome := (align_outcome _).2 _ _ divides
  rcases (outcome ["root".toList, "a".toList, "b".toList, "ABBA".toList, "Live".toList]).2
    (by decide) with ⟨aligned, aligns, fills⟩
  have refused := ((outcome ["root".toList, "ABBA".toList]).1 _).mpr ⟨by decide, rfl⟩
  refine ⟨_, _, _, aligned, rfl, divides, aligns, fills, ?_, refused⟩
  exact (map_index_align aligns).trans (by decide)

end Alignment
end SongPath
