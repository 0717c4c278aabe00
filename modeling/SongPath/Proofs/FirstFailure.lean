import SongPath.Proofs.FolderAlignment
import SongPath.Proofs.Trials

/-!
# The outcome of a match

A candidate with too few folders is refused before anything is tried.  Any
other candidate is decided by the first of its units, the aligned folders in
pattern order and then the file, whose text does not belong to the language of
its segment.  What was captured before never matters, so a blank token in a
folder hides every later mismatch and is hidden by every earlier one.
-/

namespace SongPath
namespace Pattern

/-- Every unit belongs to the language of its segment. -/
def AllDescribed (aligned : List Aligned) (file : Segment) (fileName : Text) : Prop :=
  (forall unit, unit ∈ aligned -> unit.segment.Describes unit.actual) ∧ file.Describes fileName

/-- The mismatch is that of the first unit whose text does not belong to the
language of its segment.  A folder is reported with its index in the candidate,
its segment and its name, the file with its segment and its name. -/
def FirstFailure (aligned : List Aligned) (file : Segment) (fileName : Text)
    (mismatch : Mismatch) : Prop :=
  (exists before unit after, aligned = before ++ unit :: after ∧
    (forall earlier, earlier ∈ before -> earlier.segment.Describes earlier.actual) ∧
    ¬ unit.segment.Describes unit.actual ∧
    mismatch = unit.segment.failure unit.actual
      (.folder unit.index unit.segment.render unit.actual)) ∨
  ((forall unit, unit ∈ aligned -> unit.segment.Describes unit.actual) ∧
    ¬ file.Describes fileName ∧
    mismatch = file.failure fileName (.file file.render fileName))

/-- The first unit whose text does not belong to the language of its segment is
a blank text for the token as a whole segment. -/
def FirstBlank (aligned : List Aligned) (file : Segment) (fileName : Text) (token : Token) : Prop :=
  (exists before unit after, aligned = before ++ unit :: after ∧
    (forall earlier, earlier ∈ before -> earlier.segment.Describes earlier.actual) ∧
    unit.segment.IsBlankSlot unit.actual token) ∨
  ((forall unit, unit ∈ aligned -> unit.segment.Describes unit.actual) ∧
    file.IsBlankSlot fileName token)

/-- A blank capture is told by nothing but a first blank: composites, literals
and wildcards never give one. -/
theorem firstFailure_blankCapture_iff (aligned : List Aligned) (file : Segment) (fileName : Text)
    (token : Token) :
    FirstFailure aligned file fileName (.blankCapture token) <->
      FirstBlank aligned file fileName token := by
  have ofFolder : forall unit : Aligned, ¬ unit.segment.Describes unit.actual ->
      (unit.segment.failure unit.actual (.folder unit.index unit.segment.render unit.actual) =
        .blankCapture token <-> unit.segment.IsBlankSlot unit.actual token) := by
    intro unit fails
    exact Segment.failure_eq_blankCapture_iff fails Mismatch.noConfusion
  have ofFile : ¬ file.Describes fileName ->
      (file.failure fileName (.file file.render fileName) = .blankCapture token <->
        file.IsBlankSlot fileName token) := by
    intro fails
    exact Segment.failure_eq_blankCapture_iff fails Mismatch.noConfusion
  constructor
  · rintro (⟨before, unit, after, split, earlier, fails, reported⟩ | ⟨folders, fails, reported⟩)
    · have blank := (ofFolder unit fails).mp reported.symm
      exact Or.inl ⟨before, unit, after, split, earlier, blank⟩
    · have blank := (ofFile fails).mp reported.symm
      exact Or.inr ⟨folders, blank⟩
  · rintro (⟨before, unit, after, split, earlier, blank⟩ | ⟨folders, blank⟩)
    · have fails := blank.not_describes
      have reported := (ofFolder unit fails).mpr blank
      exact Or.inl ⟨before, unit, after, split, earlier, fails, reported.symm⟩
    · have fails := blank.not_describes
      have reported := (ofFile fails).mpr blank
      exact Or.inr ⟨folders, fails, reported.symm⟩

theorem FirstFailure.ne_tooFewFolders {aligned : List Aligned} {file : Segment} {fileName : Text}
    {mismatch : Mismatch} (failure : FirstFailure aligned file fileName mismatch)
    (required actual : Nat) : mismatch ≠ .tooFewFolders required actual := by
  have reported : forall (segment : Segment) (text : Text) (otherwise : Mismatch),
      otherwise ≠ .tooFewFolders required actual ->
      segment.failure text otherwise ≠ .tooFewFolders required actual := by
    intro segment text otherwise other
    unfold Segment.failure
    split
    · exact Mismatch.noConfusion
    · exact other
  rcases failure with ⟨_, _, _, _, _, _, rfl⟩ | ⟨_, _, rfl⟩
  · exact reported _ _ _ Mismatch.noConfusion
  · exact reported _ _ _ Mismatch.noConfusion

theorem allDescribed_or_firstFailure (aligned : List Aligned) (file : Segment) (fileName : Text) :
    AllDescribed aligned file fileName ∨
      exists mismatch, FirstFailure aligned file fileName mismatch := by
  rcases all_or_first_not Trial.Succeeds (aligned.map Trial.ofFolder) with
    all | ⟨before, trial, after, split, earlier, fails⟩
  · have folders : forall unit, unit ∈ aligned -> unit.segment.Describes unit.actual := by
      intro unit member
      exact all _ (List.mem_map_of_mem member)
    by_cases described : file.Describes fileName
    · exact Or.inl ⟨folders, described⟩
    · exact Or.inr ⟨_, Or.inr ⟨folders, described, rfl⟩⟩
  · rcases List.map_eq_append_iff.mp split with ⟨first, rest, rfl, rfl, tail⟩
    rcases List.map_eq_cons_iff.mp tail with ⟨unit, last, rfl, rfl, rfl⟩
    exact Or.inr ⟨_, Or.inl ⟨first, unit, last, rfl,
      fun described member => earlier _ (List.mem_map_of_mem member), fails, rfl⟩⟩

/-! ## The run of a match -/

theorem matchCandidate_of_align {pattern : Pattern} {candidate : Candidate}
    {aligned : List Aligned}
    (aligns : Alignment.align pattern.folders candidate.folders = .ok aligned) :
    pattern.matchCandidate candidate =
      (aligned.map Trial.ofFolder ++ [Trial.ofFile pattern.file candidate.fileName]).foldlM
        Trial.run Metadata.empty := by
  rw [matchCandidate, trials, aligns]
  rfl

/-- If every unit is described, the match puts all captures in document
order. -/
theorem matchCandidate_of_allDescribed {pattern : Pattern} {candidate : Candidate}
    {aligned : List Aligned}
    (aligns : Alignment.align pattern.folders candidate.folders = .ok aligned)
    (described : AllDescribed aligned pattern.file candidate.fileName) :
    pattern.matchCandidate candidate =
      .ok (Metadata.empty.putAll
        ((aligned.map Trial.ofFolder ++ [Trial.ofFile pattern.file candidate.fileName]).flatMap
          Trial.captures)) := by
  rw [matchCandidate_of_align aligns]
  apply Trial.foldlM_run_of_succeed
  intro trial listed
  rcases List.mem_append.mp listed with folder | last
  · rcases List.mem_map.mp folder with ⟨unit, member, rfl⟩
    exact described.1 unit member
  · rw [List.mem_singleton.mp last]
    exact described.2

theorem matchCandidate_of_firstFailure {pattern : Pattern} {candidate : Candidate}
    {aligned : List Aligned} {mismatch : Mismatch}
    (aligns : Alignment.align pattern.folders candidate.folders = .ok aligned)
    (failure : FirstFailure aligned pattern.file candidate.fileName mismatch) :
    pattern.matchCandidate candidate = .error mismatch := by
  have succeeding : forall units : List Aligned,
      (forall unit, unit ∈ units -> unit.segment.Describes unit.actual) ->
      forall trial, trial ∈ units.map Trial.ofFolder -> trial.Succeeds := by
    intro units described trial listed
    rcases List.mem_map.mp listed with ⟨unit, member, rfl⟩
    exact described unit member
  rw [matchCandidate_of_align aligns]
  rcases failure with ⟨before, unit, after, rfl, earlier, fails, rfl⟩ | ⟨folders, fails, rfl⟩
  · have unitFails : ¬ (Trial.ofFolder unit).Succeeds := fails
    rw [List.map_append, List.map_cons, List.append_assoc]
    exact Trial.foldlM_run_of_first_failure (succeeding before earlier) unitFails _ _
  · have fileFails : ¬ (Trial.ofFile pattern.file candidate.fileName).Succeeds := fails
    exact Trial.foldlM_run_of_first_failure (succeeding aligned folders) fileFails [] _

theorem exists_matchCandidate_iff {pattern : Pattern} {candidate : Candidate}
    {aligned : List Aligned}
    (aligns : Alignment.align pattern.folders candidate.folders = .ok aligned) :
    (exists metadata, pattern.matchCandidate candidate = .ok metadata) <->
      AllDescribed aligned pattern.file candidate.fileName := by
  constructor
  · rintro ⟨metadata, matched⟩
    rcases allDescribed_or_firstFailure aligned pattern.file candidate.fileName with
      described | ⟨mismatch, failure⟩
    · exact described
    · rw [matchCandidate_of_firstFailure aligns failure] at matched
      cases matched
  · intro described
    exact ⟨_, matchCandidate_of_allDescribed aligns described⟩

theorem matchCandidate_eq_error_iff {pattern : Pattern} {candidate : Candidate}
    {aligned : List Aligned}
    (aligns : Alignment.align pattern.folders candidate.folders = .ok aligned)
    (mismatch : Mismatch) :
    pattern.matchCandidate candidate = .error mismatch <->
      FirstFailure aligned pattern.file candidate.fileName mismatch := by
  constructor
  · intro failed
    rcases allDescribed_or_firstFailure aligned pattern.file candidate.fileName with
      described | ⟨found, failure⟩
    · rw [matchCandidate_of_allDescribed aligns described] at failed
      cases failed
    · rw [matchCandidate_of_firstFailure aligns failure] at failed
      cases failed
      exact failure
  · exact matchCandidate_of_firstFailure aligns

/-! ## Too few folders -/

theorem matchCandidate_of_lt {pattern : Pattern} {candidate : Candidate}
    (agreeing : AgreeingFolders pattern.folders)
    (fewer : candidate.folders.length < (Alignment.describing pattern.folders).length) :
    pattern.matchCandidate candidate =
      .error (.tooFewFolders (Alignment.describing pattern.folders).length
        candidate.folders.length) := by
  rw [← Alignment.append_sides agreeing, List.length_append] at fewer ⊢
  rw [matchCandidate, trials, Alignment.align_of_lt fewer]
  rfl

theorem exists_align_of_le {segments : List Segment} {folders : List Text}
    (agreeing : AgreeingFolders segments)
    (enough : (Alignment.describing segments).length ≤ folders.length) :
    exists aligned, Alignment.align segments folders = .ok aligned ∧
      aligned.map Aligned.segment = Alignment.describing segments := by
  rw [← Alignment.append_sides agreeing, List.length_append] at enough
  have aligns := Alignment.align_of_le enough
  exact ⟨_, aligns, (Alignment.map_segment_align aligns).trans (Alignment.append_sides agreeing)⟩

/-- The outcome of a match, success and every failure, told by the first unit
that is not described. -/
theorem matchCandidate_outcome {spec : Text} {pattern : Pattern}
    (compiled : compile spec = .ok pattern) (candidate : Candidate) :
    (forall required actual,
      pattern.matchCandidate candidate = .error (.tooFewFolders required actual) <->
        candidate.folders.length < (Alignment.describing pattern.folders).length ∧
          required = (Alignment.describing pattern.folders).length ∧
          actual = candidate.folders.length) ∧
    ((Alignment.describing pattern.folders).length ≤ candidate.folders.length ->
      exists aligned, Alignment.align pattern.folders candidate.folders = .ok aligned ∧
        aligned.map Aligned.segment = Alignment.describing pattern.folders ∧
        (forall unit, unit ∈ aligned -> candidate.folders[unit.index]? = some unit.actual) ∧
        ((exists metadata, pattern.matchCandidate candidate = .ok metadata) <->
          AllDescribed aligned pattern.file candidate.fileName) ∧
        (forall mismatch, pattern.matchCandidate candidate = .error mismatch <->
          FirstFailure aligned pattern.file candidate.fileName mismatch) ∧
        forall token, pattern.matchCandidate candidate = .error (.blankCapture token) <->
          FirstBlank aligned pattern.file candidate.fileName token) := by
  rcases (compile_eq_ok_iff spec pattern).mp compiled with ⟨_, _, _, _, _, agreeing⟩
  rcases Nat.lt_or_ge candidate.folders.length (Alignment.describing pattern.folders).length with
    fewer | enough
  · constructor
    · intro required actual
      rw [matchCandidate_of_lt agreeing fewer]
      constructor
      · intro same
        cases same
        exact ⟨fewer, rfl, rfl⟩
      · rintro ⟨_, rfl, rfl⟩
        rfl
    · intro enough
      exact absurd fewer (Nat.not_lt.mpr enough)
  · rcases exists_align_of_le agreeing enough with ⟨aligned, aligns, inOrder⟩
    have places : forall unit, unit ∈ aligned ->
        candidate.folders[unit.index]? = some unit.actual := by
      intro unit listed
      exact Alignment.getElem?_of_mem_align aligns listed
    have fails := matchCandidate_eq_error_iff aligns
    constructor
    · intro required actual
      constructor
      · intro few
        have failure := (fails _).mp few
        exact absurd rfl (failure.ne_tooFewFolders required actual)
      · rintro ⟨fewer, _⟩
        exact absurd fewer (Nat.not_lt.mpr enough)
    · intro _
      refine ⟨aligned, aligns, inOrder, places, exists_matchCandidate_iff aligns, fails, ?_⟩
      intro token
      rw [fails, firstFailure_blankCapture_iff]

/-- A blank folder is reported, although the file would not fit either. -/
theorem matchCandidate_outcome_blank_creator :
    exists pattern aligned,
      compile "\x7bcreator\x7d/Disc */\x7bartist\x7d - \x7btitle\x7d".toList = .ok pattern ∧
      pattern.matchCandidate ⟨["  ".toList, "Disc 1".toList], "SOS".toList⟩ =
        .error (.blankCapture .creator) ∧
      FirstBlank aligned pattern.file "SOS".toList .creator := by
  have compiled : compile "\x7bcreator\x7d/Disc */\x7bartist\x7d - \x7btitle\x7d".toList =
      .ok ⟨[.slot .creator, .composite [.literal "Disc ".toList, .wildcard]],
        .composite [.slot .artist, .literal " - ".toList, .slot .title]⟩ := by
    decide +kernel
  rcases matchCandidate_outcome compiled ⟨["  ".toList, "Disc 1".toList], "SOS".toList⟩ with
    ⟨_, outcome⟩
  rcases outcome (by decide +kernel) with ⟨aligned, _, _, _, _, _, blank⟩
  have first := (blank .creator).mp (by decide +kernel)
  exact ⟨_, aligned, compiled, (blank .creator).mpr first, first⟩

end Pattern
end SongPath
