import SongPath.Proofs.CanonicalForm
import SongPath.Proofs.DocumentOrder

/-!
# Where the characters of an outcome come from

A match makes up no text.  The values that it yields consist of characters of
the path, and the fragments that a mismatch quotes consist of characters of the
path or of the specification.  What a path or a specification is free of, its
outcomes are therefore free of as well.
-/

namespace SongPath

/-! ## Parts of a path -/

namespace Path

theorem subset_of_mem_names {path name : Text} (listed : name ∈ names path) : name ⊆ path := by
  rcases exists_stands_of_mem_names listed with ⟨before, after, stands⟩
  rw [stands.written]
  exact fun char inner => List.mem_append_left after (List.mem_append_right before inner)

theorem stem_subset (file : Text) : stem file ⊆ file := by
  rcases stem_cases file with ⟨tail, _, written⟩ | ⟨whole, _⟩
  · intro char listed
    rw [written]
    exact List.mem_append_left _ listed
  · rw [whole]
    exact List.Subset.refl file

theorem patternStem_subset (file : Text) : patternStem file ⊆ file := by
  unfold patternStem
  split
  · next first before tail found =>
      split
      · intro char listed
        rw [eq_append_of_splitLastDot? found]
        exact List.mem_append_left _ listed
      · exact List.Subset.refl file
  · exact List.Subset.refl file

end Path

theorem Candidate.subset_of_ofPath {path name : Text}
    (listed : name ∈ (ofPath path).folders ++ [(ofPath path).fileName]) : name ⊆ path := by
  rcases List.eq_nil_or_concat (Path.names path) with none | ⟨folders, last, found⟩
  · rw [ofPath, none] at listed
    cases List.mem_singleton.mp listed
    exact List.nil_subset path
  · have inNames : forall part, part ∈ folders ++ [last] -> part ⊆ path := by
      intro part member
      rw [← List.concat_eq_append, ← found] at member
      exact Path.subset_of_mem_names member
    rw [ofPath_of_names (found.trans List.concat_eq_append)] at listed
    rcases List.mem_append.mp listed with folder | file
    · exact inNames name (List.mem_append_left _ folder)
    · rw [List.mem_singleton.mp file]
      exact List.Subset.trans (Path.stem_subset last)
        (inNames last (List.mem_append_right _ List.mem_cons_self))

/-! ## Parts of a specification -/

namespace Pattern

theorem render_subset_of_compile {spec : Text} {pattern : Pattern}
    (compiled : compile spec = .ok pattern) {segment : Segment}
    (listed : segment ∈ pattern.segments) : segment.render ⊆ spec := by
  rcases names_of_compile compiled with ⟨_, _, last, found, stem⟩
  have inNames : forall part, part ∈ pattern.folders.map Segment.render ++ [last] -> part ⊆ spec := by
    intro part member
    rw [← found] at member
    exact Path.subset_of_mem_names member
  rcases List.mem_append.mp listed with folder | file
  · exact inNames _ (List.mem_append_left _ (List.mem_map_of_mem folder))
  · rw [List.mem_singleton.mp file, ← stem]
    exact List.Subset.trans (Path.patternStem_subset last)
      (inNames last (List.mem_append_right _ List.mem_cons_self))

/-! ## Values -/

theorem value_subset_of_matchPath {pattern : Pattern} {path : Text} {metadata : Metadata}
    (matched : pattern.matchPath path = .ok metadata) {token : Token} {value : Text}
    (found : metadata.get token = some value) : value ⊆ path := by
  rcases (bind_eq_ok_iff _ _ _).mp matched with ⟨trials, tried, ran⟩
  rcases Trial.succeed_of_foldlM_run ran with ⟨succeed, rfl⟩
  rw [Metadata.get_putAll_empty] at found
  rcases Option.map_eq_some_iff.mp found with ⟨capture, chosen, rfl⟩
  rcases List.mem_flatMap.mp (List.mem_of_find?_eq_some chosen) with ⟨trial, member, listed⟩
  have captured := Trial.capture_of_succeeds (succeed trial member)
  have inName := (Text.trim_infix_self capture.2).trans (Segment.infix_of_mem_capture captured listed)
  exact List.Subset.trans inName.subset
    (Candidate.subset_of_ofPath (actual_mem_of_mem_trials tried member))

end Pattern

/-! ## Quoted fragments -/

namespace Mismatch

/-- The fragments that the message of a mismatch quotes. -/
def fragments : Mismatch -> List Text
  | .folder _ expected actual => [expected, actual]
  | .file expected actual => [expected, actual]
  | _ => []

end Mismatch

namespace Segment

/-- A mismatch is the one that stands ready for the unit, or a blank capture. -/
theorem fragments_failure_subset (segment : Segment) (text : Text) (otherwise : Mismatch) :
    (segment.failure text otherwise).fragments ⊆ otherwise.fragments := by
  unfold failure
  split
  · exact List.nil_subset _
  · exact List.Subset.refl _

end Segment

namespace Alignment

theorem sides_subset (segments : List Segment) :
    (sides segments).1 ++ (sides segments).2 ⊆ segments := by
  rw [sides]
  split
  · apply List.append_subset.mpr
    exact ⟨(List.takeWhile_prefix _).subset,
      List.Subset.trans (List.drop_subset 1 _) (List.dropWhile_suffix _).subset⟩
  · exact List.Subset.refl segments

theorem fragments_of_align {segments : List Segment} {folders : List Text} {mismatch : Mismatch}
    (fails : align segments folders = .error mismatch) : mismatch.fragments = [] := by
  unfold align at fails
  split at fails
  dsimp only at fails
  split at fails
  · cases fails
    rfl
  · cases fails

end Alignment

namespace Pattern

/-- A unit is tried with a segment of the pattern and a name of the candidate,
and these two are what it can report. -/
theorem fragments_of_mem_trials {pattern : Pattern} {candidate : Candidate} {trials : List Trial}
    (tried : pattern.trials candidate = .ok trials) {trial : Trial} (listed : trial ∈ trials) :
    trial.segment ∈ pattern.segments ∧
      trial.mismatch.fragments = [trial.segment.render, trial.actual] := by
  rw [Pattern.trials] at tried
  cases aligns : Alignment.align pattern.folders candidate.folders with
  | error mismatch =>
      rw [aligns] at tried
      cases tried
  | ok aligned =>
      rw [aligns] at tried
      cases tried
      rcases List.mem_append.mp listed with folder | file
      · rcases List.mem_map.mp folder with ⟨unit, member, rfl⟩
        have inSides : unit.segment ∈ aligned.map Aligned.segment := List.mem_map_of_mem member
        rw [Alignment.map_segment_align aligns] at inSides
        exact ⟨List.mem_append_left _ (Alignment.sides_subset _ inSides), rfl⟩
      · rw [List.mem_singleton.mp file]
        exact ⟨List.mem_append_right _ List.mem_cons_self, rfl⟩

theorem fragment_subset_of_matchPath {spec path : Text} {pattern : Pattern} {mismatch : Mismatch}
    (compiled : compile spec = .ok pattern) (failed : pattern.matchPath path = .error mismatch)
    {fragment : Text} (listed : fragment ∈ mismatch.fragments) :
    fragment ⊆ spec ∨ fragment ⊆ path := by
  rcases (bind_eq_error_iff _ _ _).mp failed with tooFew | ⟨trials, tried, ran⟩
  · -- Nothing is quoted where the folders are too few.
    rw [Pattern.trials] at tooFew
    cases aligns : Alignment.align pattern.folders (Candidate.ofPath path).folders with
    | error other =>
        rw [aligns] at tooFew
        cases tooFew
        rw [Alignment.fragments_of_align aligns] at listed
        cases listed
    | ok aligned =>
        rw [aligns] at tooFew
        cases tooFew
  · rcases all_or_first_not Trial.Succeeds trials with
      succeed | ⟨before, trial, after, rfl, earlier, fails⟩
    · rw [Trial.foldlM_run_of_succeed succeed] at ran
      cases ran
    · rw [Trial.foldlM_run_of_first_failure earlier fails] at ran
      cases ran
      have member : trial ∈ before ++ trial :: after := List.mem_append_right _ List.mem_cons_self
      rcases fragments_of_mem_trials tried member with ⟨inPattern, reported⟩
      have quoted := Segment.fragments_failure_subset _ _ _ listed
      rw [reported] at quoted
      rcases List.mem_cons.mp quoted with rfl | actual
      · exact Or.inl (render_subset_of_compile compiled inPattern)
      · rw [List.mem_singleton.mp actual]
        exact Or.inr (Candidate.subset_of_ofPath (actual_mem_of_mem_trials tried member))

end Pattern
end SongPath
