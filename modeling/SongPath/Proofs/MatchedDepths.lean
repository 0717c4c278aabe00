import SongPath.Proofs.CanonicalForm
import SongPath.Proofs.FirstFailure

/-!
# The depths at which a pattern matches

A segment describes its own text.  Literal text stands for itself, and a group in
braces or a star is as good a name as any other where a token or a wildcard takes
it.  So the canonical form of a compiled pattern, read as a path, is one that the
pattern matches, up to the folders that a `**` or the front of the path leaves
open.  Star folders fill these to any depth.

With fewer folders than the pattern asks for nothing matches.  The depths are
therefore known exactly, and no compiled pattern goes without a match.
-/

namespace SongPath

theorem Piece.admits_render (piece : Piece) : piece.Admits piece.render := by
  cases piece with
  | literal text => exact rfl
  | slot token => exact ⟨'{', List.mem_cons_self, by decide⟩
  | wildcard => trivial

theorem Segment.describes_render (segment : Segment) : segment.Describes segment.render := by
  cases segment with
  | literal text => exact rfl
  | slot token => exact (Piece.slot token).admits_render
  | anyFolder => trivial
  | anyFolders => trivial
  | composite pieces =>
      refine ⟨pieces.map Piece.render, ?_, List.flatMap_def.symm⟩
      apply List.forall₂_map_right_iff.mpr
      exact List.forall₂_same.mpr fun piece _ => piece.admits_render

namespace Alignment

theorem actual_of_mem_pair_map {index : Nat} {segments : List Segment} {name : Segment -> Text}
    {unit : Aligned} (listed : unit ∈ pair index segments (segments.map name)) :
    unit.actual = name unit.segment := by
  rcases List.mem_iff_getElem?.mp listed with ⟨place, found⟩
  rw [getElem?_pair, List.getElem?_map] at found
  rcases Option.bind_eq_some_iff.mp found with ⟨segment, stands, found⟩
  rw [stands] at found
  cases found
  rfl

/-- Folders of any sufficient depth, each named as the segment that describes it.
Where nothing describes a folder it is a star. -/
theorem exists_align_render {segments : List Segment} (agreeing : Pattern.AgreeingFolders segments)
    {depth : Nat} (enough : (describing segments).length ≤ depth) :
    exists folders aligned, folders.length = depth ∧
      (forall folder, folder ∈ folders -> folder = ['*'] ∨ folder ∈ segments.map Segment.render) ∧
      align segments folders = .ok aligned ∧
      forall unit, unit ∈ aligned -> unit.actual = unit.segment.render := by
  have star : forall (count : Nat) (folder : Text), folder ∈ List.replicate count ['*'] ->
      folder = ['*'] ∨ folder ∈ segments.map Segment.render :=
    fun count folder listed => Or.inl (List.eq_of_mem_replicate listed)
  rcases agreeing with absent | ⟨left, right, rfl, absentLeft, absentRight, _⟩
  · rw [describing_of_not_mem absent] at enough
    have length : (segments.map Segment.render).length = segments.length := List.length_map _
    refine ⟨List.replicate (depth - segments.length) ['*'] ++ segments.map Segment.render, _, ?_,
      ?_, align_trailing absent _ length, fun unit => actual_of_mem_pair_map⟩
    · rw [List.length_append, List.length_replicate, length]
      omega
    · exact List.forall_mem_append.mpr ⟨star _, fun folder => Or.inr⟩
  · rw [describing_of_split absentLeft absentRight, List.length_append] at enough
    have leftLength : (left.map Segment.render).length = left.length := List.length_map _
    have rightLength : (right.map Segment.render).length = right.length := List.length_map _
    refine ⟨left.map Segment.render ++
      List.replicate (depth - (left.length + right.length)) ['*'] ++ right.map Segment.render, _,
      ?_, ?_, align_windows absentLeft leftLength rightLength _, ?_⟩
    · rw [List.length_append, List.length_append, List.length_replicate, leftLength, rightLength]
      omega
    · rw [List.map_append, List.map_cons]
      refine List.forall_mem_append.mpr ⟨List.forall_mem_append.mpr ⟨?_, ?_⟩, ?_⟩
      · exact fun folder listed => Or.inr (List.mem_append_left _ listed)
      · exact fun folder listed => Or.inl (List.eq_of_mem_replicate listed)
      · exact fun folder listed =>
          Or.inr (List.mem_append_right _ (List.mem_cons_of_mem _ listed))
    · exact List.forall_mem_append.mpr
        ⟨fun unit => actual_of_mem_pair_map, fun unit => actual_of_mem_pair_map⟩

end Alignment

namespace Pattern

/-- A pattern matches its own text at every depth that has a folder for each of
its segments but a `**`. -/
theorem exists_matchCandidate_render {pattern : Pattern}
    (agreeing : AgreeingFolders pattern.folders) {depth : Nat}
    (enough : (Alignment.describing pattern.folders).length ≤ depth) :
    exists folders metadata, folders.length = depth ∧
      (forall folder, folder ∈ folders ->
        folder = ['*'] ∨ folder ∈ pattern.folders.map Segment.render) ∧
      pattern.matchCandidate ⟨folders, pattern.file.render⟩ = .ok metadata := by
  rcases Alignment.exists_align_render agreeing enough with
    ⟨folders, aligned, length, written, aligns, named⟩
  have described : AllDescribed aligned pattern.file pattern.file.render := by
    refine ⟨fun unit listed => ?_, pattern.file.describes_render⟩
    rw [named unit listed]
    exact unit.segment.describes_render
  have matched : pattern.matchCandidate ⟨folders, pattern.file.render⟩ = _ :=
    matchCandidate_of_allDescribed aligns described
  exact ⟨folders, _, length, written, matched⟩

/-- A compiled pattern matches some path, and it does so at every depth with a
folder for each of its segments but a `**`, and at no other. -/
theorem exists_matchPath_iff {spec : Text} {pattern : Pattern}
    (compiled : compile spec = .ok pattern) :
    (exists path metadata, pattern.matchPath path = .ok metadata) ∧
    forall depth,
      (exists path metadata, (Candidate.ofPath path).folders.length = depth ∧
        pattern.matchPath path = .ok metadata) <->
      (Alignment.describing pattern.folders).length ≤ depth := by
  rcases names_of_compile compiled with ⟨isName, isFileName, _⟩
  have agreeing := (isNormal_of_compile compiled).agreeing
  have matching : forall depth, (Alignment.describing pattern.folders).length ≤ depth ->
      exists path metadata, (Candidate.ofPath path).folders.length = depth ∧
        pattern.matchPath path = .ok metadata := by
    intro depth enough
    rcases exists_matchCandidate_render agreeing enough with
      ⟨folders, metadata, length, written, matched⟩
    have names : forall folder, folder ∈ folders -> Path.IsName folder := by
      intro folder listed
      rcases written folder listed with rfl | rendered
      · decide
      · exact isName folder rendered
    have split := Candidate.ofPath_intercalate names isFileName List.not_mem_nil
      (List.forall_mem_nil _)
    -- The dot is the extension, so a dot in the text of the file segment is not cut at.
    refine ⟨List.intercalate ['/'] (folders ++ [pattern.file.render ++ ['.']]), metadata, ?_, ?_⟩
    · rw [split]
      exact length
    · rw [matchPath, split]
      exact matched
  constructor
  · rcases matching _ (Nat.le_refl _) with ⟨path, metadata, _, matched⟩
    exact ⟨path, metadata, matched⟩
  · intro depth
    refine ⟨?_, matching depth⟩
    rintro ⟨path, metadata, rfl, matched⟩
    apply Nat.le_of_not_lt
    intro fewer
    rw [matchPath, matchCandidate_of_lt agreeing fewer] at matched
    cases matched

/-- The `**` may be left out, the creator and the disc may not. -/
theorem exists_matchPath_iff_disc :
    exists pattern,
      compile "\x7bcreator\x7d/**/Disc */\x7bartist\x7d\x7btitle\x7d".toList = .ok pattern ∧
      (exists path metadata, (Candidate.ofPath path).folders.length = 2 ∧
        pattern.matchPath path = .ok metadata) ∧
      ¬ exists path metadata, (Candidate.ofPath path).folders.length = 1 ∧
        pattern.matchPath path = .ok metadata := by
  have compiled :
      compile "\x7bcreator\x7d/**/Disc */\x7bartist\x7d\x7btitle\x7d".toList =
        .ok ⟨[.slot .creator, .anyFolders, .composite [.literal "Disc ".toList, .wildcard]],
          .composite [.slot .artist, .slot .title]⟩ := by
    decide +kernel
  rcases exists_matchPath_iff compiled with ⟨_, depths⟩
  refine ⟨_, compiled, (depths 2).mpr (by decide), fun shallow => ?_⟩
  exact absurd ((depths 1).mp shallow) (by decide)

end Pattern
end SongPath
