import SongPath.Alignment
import SongPath.Proofs.Compilation

/-!
# Folder alignment of sound patterns

A sound pattern has at most one `**`, so the segments on its two sides are all
its segments but that one.  Alignment needs one folder for each of them, and
then gives each of them, in pattern order, a folder of the candidate.
-/

namespace SongPath
namespace Alignment

/-- The segments that describe one folder each. -/
def describing (segments : List Segment) : List Segment :=
  segments.filter (· != .anyFolders)

private theorem bne_anyFolders {segments : List Segment} (absent : .anyFolders ∉ segments)
    (segment : Segment) (listed : segment ∈ segments) : (segment != .anyFolders) = true := by
  apply bne_iff_ne.mpr
  rintro rfl
  exact absent listed

theorem sides_of_not_mem {segments : List Segment} (absent : .anyFolders ∉ segments) :
    sides segments = ([], segments) := by
  rw [sides, if_neg]
  rw [List.contains_iff_mem]
  exact absent

theorem sides_of_split {left : List Segment} (absent : .anyFolders ∉ left) (right : List Segment) :
    sides (left ++ .anyFolders :: right) = (left, right) := by
  have apart : forall segment, segment ∈ left -> (segment != .anyFolders) = true :=
    bne_anyFolders absent
  have listed : (left ++ .anyFolders :: right).contains .anyFolders = true :=
    List.contains_iff_mem.mpr (List.mem_append_right left List.mem_cons_self)
  rw [sides, if_pos listed, List.takeWhile_append_of_pos apart, List.dropWhile_append_of_pos apart]
  change (left ++ [], right) = _
  rw [List.append_nil]

theorem describing_of_not_mem {segments : List Segment} (absent : .anyFolders ∉ segments) :
    describing segments = segments :=
  List.filter_eq_self.mpr (bne_anyFolders absent)

theorem describing_of_split {left right : List Segment} (absentLeft : .anyFolders ∉ left)
    (absentRight : .anyFolders ∉ right) :
    describing (left ++ .anyFolders :: right) = left ++ right := by
  have leftPart := describing_of_not_mem absentLeft
  have rightPart := describing_of_not_mem absentRight
  unfold describing at leftPart rightPart
  rw [describing, List.filter_append, leftPart]
  change left ++ right.filter (· != .anyFolders) = _
  rw [rightPart]

/-- A second `**` would stand on the right side, so this needs a sound list. -/
theorem append_sides {segments : List Segment} (agreeing : Pattern.AgreeingFolders segments) :
    (sides segments).1 ++ (sides segments).2 = describing segments := by
  rcases agreeing with absent | ⟨left, right, rfl, absentLeft, absentRight, _⟩
  · rw [sides_of_not_mem absent, describing_of_not_mem absent]
    rfl
  · rw [sides_of_split absentLeft, describing_of_split absentLeft absentRight]

/-! ## Pairs of segments and folders -/

theorem map_segment_pair (index : Nat) {segments : List Segment} {folders : List Text}
    (enough : segments.length ≤ folders.length) :
    (pair index segments folders).map Aligned.segment = segments := by
  induction segments generalizing index folders with
  | nil => rfl
  | cons segment segments inductionHypothesis =>
      cases folders with
      | nil => exact absurd enough (Nat.not_succ_le_zero _)
      | cons folder folders =>
          exact congrArg (segment :: ·)
            (inductionHypothesis (index + 1) (Nat.le_of_succ_le_succ enough))

/-- Folders behind the last segment pair with nothing. -/
theorem pair_append {index : Nat} {segments : List Segment} {folders : List Text}
    (length : folders.length = segments.length) (behind : List Text) :
    pair index segments (folders ++ behind) = pair index segments folders := by
  induction segments generalizing index folders with
  | nil => rfl
  | cons segment segments inductionHypothesis =>
      cases folders with
      | nil => cases length
      | cons folder folders =>
          have later : pair (index + 1) segments (folders ++ behind) =
              pair (index + 1) segments folders :=
            inductionHypothesis (Nat.succ.inj length)
          exact congrArg (⟨index, segment, folder⟩ :: ·) later

theorem pair_append_pair {index : Nat} {first second : List Segment} {front back : List Text}
    (length : front.length = first.length) :
    pair index (first ++ second) (front ++ back) =
      pair index first front ++ pair (index + front.length) second back := by
  induction first generalizing index front with
  | nil =>
      rw [List.length_eq_zero_iff.mp length]
      rfl
  | cons segment first inductionHypothesis =>
      cases front with
      | nil => cases length
      | cons folder front =>
          have later : pair (index + 1) (first ++ second) (front ++ back) =
              pair (index + 1) first front ++ pair (index + 1 + front.length) second back :=
            inductionHypothesis (Nat.succ.inj length)
          rw [List.cons_append, List.cons_append, pair, pair, later, List.length_cons,
            Nat.add_right_comm, Nat.add_assoc]
          rfl

theorem getElem?_of_mem_pair {index : Nat} {segments : List Segment} {folders : List Text}
    {unit : Aligned} (listed : unit ∈ pair index segments folders) :
    exists place, unit.index = index + place ∧ folders[place]? = some unit.actual := by
  rcases List.mem_iff_getElem?.mp listed with ⟨place, found⟩
  rw [getElem?_pair] at found
  rcases Option.bind_eq_some_iff.mp found with ⟨segment, _, found⟩
  rcases Option.map_eq_some_iff.mp found with ⟨folder, stands, rfl⟩
  exact ⟨place, rfl, stands⟩

/-! ## The outcome of alignment -/

theorem align_of_lt {segments : List Segment} {folders : List Text}
    (fewer : folders.length < (sides segments).1.length + (sides segments).2.length) :
    align segments folders =
      .error (.tooFewFolders ((sides segments).1.length + (sides segments).2.length)
        folders.length) :=
  if_pos fewer

theorem align_of_le {segments : List Segment} {folders : List Text}
    (enough : (sides segments).1.length + (sides segments).2.length ≤ folders.length) :
    align segments folders =
      .ok (pair 0 (sides segments).1 folders ++
        pair (folders.length - (sides segments).2.length) (sides segments).2
          (folders.drop (folders.length - (sides segments).2.length))) :=
  if_neg (Nat.not_lt.mpr enough)

private theorem align_of_sides {segments left right : List Segment}
    (split : sides segments = (left, right)) {folders : List Text} {start : Nat}
    (length : folders.length = start + right.length) (enough : left.length ≤ start) :
    align segments folders =
      .ok (pair 0 left folders ++ pair start right (folders.drop start)) := by
  have place : folders.length - right.length = start := by omega
  have many : (sides segments).1.length + (sides segments).2.length ≤ folders.length := by
    rw [split, length]
    exact Nat.add_le_add_right enough _
  rw [align_of_le many, split]
  simp only [place]

/-- Without a `**` the last folders are described. -/
theorem align_trailing {segments : List Segment} (absent : .anyFolders ∉ segments)
    (front : List Text) {last : List Text} (length : last.length = segments.length) :
    align segments (front ++ last) = .ok (pair front.length segments last) := by
  have total : (front ++ last).length = front.length + segments.length := by
    rw [List.length_append, length]
  rw [align_of_sides (sides_of_not_mem absent) total (Nat.zero_le _), List.drop_left]
  rfl

/-- Around a `**` the first and the last folders are described. -/
theorem align_windows {left : List Segment} (absent : .anyFolders ∉ left) {right : List Segment}
    {first last : List Text} (leftLength : first.length = left.length)
    (rightLength : last.length = right.length) (middle : List Text) :
    align (left ++ .anyFolders :: right) (first ++ middle ++ last) =
      .ok (pair 0 left first ++ pair (first.length + middle.length) right last) := by
  have total : (first ++ middle ++ last).length = (first ++ middle).length + right.length := by
    rw [List.length_append, rightLength]
  have enough : left.length ≤ (first ++ middle).length := by
    rw [List.length_append, leftLength]
    exact Nat.le_add_right _ _
  rw [align_of_sides (sides_of_split absent right) total enough, List.drop_left,
    List.append_assoc, pair_append leftLength, List.length_append]

theorem le_length_of_align {segments : List Segment} {folders : List Text} {aligned : List Aligned}
    (aligns : align segments folders = .ok aligned) :
    (sides segments).1.length + (sides segments).2.length ≤ folders.length := by
  apply Nat.le_of_not_lt
  intro fewer
  rw [align_of_lt fewer] at aligns
  cases aligns

/-- An alignment is that of its two sides, for both of which there are folders
enough. -/
theorem windows_of_align {segments : List Segment} {folders : List Text} {aligned : List Aligned}
    (aligns : align segments folders = .ok aligned) :
    (sides segments).1.length ≤ folders.length ∧
      (sides segments).2.length ≤
        (folders.drop (folders.length - (sides segments).2.length)).length ∧
      aligned = pair 0 (sides segments).1 folders ++
        pair (folders.length - (sides segments).2.length) (sides segments).2
          (folders.drop (folders.length - (sides segments).2.length)) := by
  have enough := le_length_of_align aligns
  have behind : (folders.drop (folders.length - (sides segments).2.length)).length =
      (sides segments).2.length := by
    rw [List.length_drop, Nat.sub_sub_self (Nat.le_of_add_left_le enough)]
  rw [align_of_le enough] at aligns
  exact ⟨Nat.le_of_add_right_le enough, Nat.le_of_eq behind.symm, (Except.ok.inj aligns).symm⟩

/-- No segment is lost, and the order is that of the pattern. -/
theorem map_segment_align {segments : List Segment} {folders : List Text} {aligned : List Aligned}
    (aligns : align segments folders = .ok aligned) :
    aligned.map Aligned.segment = (sides segments).1 ++ (sides segments).2 := by
  rcases windows_of_align aligns with ⟨enoughLeft, enoughRight, rfl⟩
  rw [List.map_append, map_segment_pair 0 enoughLeft, map_segment_pair _ enoughRight]

theorem getElem?_of_mem_align {segments : List Segment} {folders : List Text}
    {aligned : List Aligned} (aligns : align segments folders = .ok aligned) {unit : Aligned}
    (listed : unit ∈ aligned) : folders[unit.index]? = some unit.actual := by
  rcases windows_of_align aligns with ⟨_, _, rfl⟩
  rcases List.mem_append.mp listed with left | right
  · rcases getElem?_of_mem_pair left with ⟨place, index, stands⟩
    rw [index, Nat.zero_add]
    exact stands
  · rcases getElem?_of_mem_pair right with ⟨place, index, stands⟩
    rw [List.getElem?_drop] at stands
    rw [index]
    exact stands

/-- The last items of a list that is long enough. -/
private theorem exists_last {α : Type} {items : List α} {count : Nat}
    (enough : count ≤ items.length) :
    exists front last, items = front ++ last ∧ last.length = count := by
  refine ⟨_, _, (List.take_append_drop (items.length - count) items).symm, ?_⟩
  rw [List.length_drop]
  omega

/-- The folders that are described stand at the end, or at both ends. -/
theorem exists_windows_of_align {segments : List Segment} {folders : List Text}
    {aligned : List Aligned} (agreeing : Pattern.AgreeingFolders segments)
    (aligns : align segments folders = .ok aligned) :
    (.anyFolders ∉ segments ∧ exists front last, folders = front ++ last ∧
      last.length = segments.length ∧ aligned = pair front.length segments last) ∨
    exists left right first middle last, segments = left ++ .anyFolders :: right ∧
      .anyFolders ∉ left ∧ .anyFolders ∉ right ∧ folders = first ++ middle ++ last ∧
      first.length = left.length ∧ last.length = right.length ∧
      aligned = pair 0 left first ++ pair (first.length + middle.length) right last := by
  have enough := le_length_of_align aligns
  rcases agreeing with absent | ⟨left, right, rfl, absentLeft, absentRight, _⟩
  · rw [sides_of_not_mem absent, List.length_nil, Nat.zero_add] at enough
    rcases exists_last enough with ⟨front, last, rfl, length⟩
    rw [align_trailing absent front length] at aligns
    exact Or.inl ⟨absent, front, last, rfl, length, (Except.ok.inj aligns).symm⟩
  · rw [sides_of_split absentLeft] at enough
    rcases exists_last (Nat.le_trans (Nat.le_add_left _ _) enough) with
      ⟨front, last, rfl, lastLength⟩
    rw [List.length_append, lastLength] at enough
    have firstLength : (front.take left.length).length = left.length := by
      rw [List.length_take]
      exact Nat.min_eq_left (Nat.le_of_add_le_add_right enough)
    have aligned := align_windows absentLeft firstLength lastLength (front.drop left.length)
    rw [List.take_append_drop, aligns] at aligned
    refine Or.inr ⟨left, right, _, _, last, rfl, absentLeft, absentRight, ?_, firstLength,
      lastLength, Except.ok.inj aligned⟩
    rw [List.take_append_drop]

end Alignment
end SongPath
