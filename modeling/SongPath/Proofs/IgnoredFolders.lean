import SongPath.Proofs.FirstFailure

/-!
# Folders that never matter

A pattern looks at the folders in its windows only: the first and the last ones
around a `**`, and the last ones without it.  Other folders may be exchanged,
added or left out.  The same units are tried in the same order then, so the
outcome is the same, except that a mismatch tells the index that its folder has
now.
-/

namespace SongPath

/-- Tell another index for a folder; nothing else names one. -/
def Mismatch.reindex (move : Nat -> Nat) : Mismatch -> Mismatch
  | .folder index expected actual => .folder (move index) expected actual
  | mismatch => mismatch

/-- The same segment beside the same folder at another index. -/
def Aligned.reindex (move : Nat -> Nat) (unit : Aligned) : Aligned :=
  { unit with index := move unit.index }

namespace Trial

/-- The same trial with another index to tell. -/
def reindex (move : Nat -> Nat) (trial : Trial) : Trial :=
  { trial with mismatch := trial.mismatch.reindex move }

theorem ofFolder_reindex (move : Nat -> Nat) (unit : Aligned) :
    ofFolder (unit.reindex move) = (ofFolder unit).reindex move :=
  rfl

/-- Success does not depend on the index, and a failure tells it at most. -/
theorem run_reindex (move : Nat -> Nat) (metadata : Metadata) (trial : Trial) :
    run metadata (trial.reindex move) =
      (run metadata trial).mapError (Mismatch.reindex move) := by
  by_cases succeeds : trial.Succeeds
  · have moved : (trial.reindex move).Succeeds := succeeds
    rw [run_of_succeeds succeeds, run_of_succeeds moved]
    rfl
  · have moved : ¬ (trial.reindex move).Succeeds := succeeds
    have failure : trial.segment.failure trial.actual (trial.mismatch.reindex move) =
        (trial.segment.failure trial.actual trial.mismatch).reindex move := by
      unfold Segment.failure
      split <;> rfl
    rw [run_of_not_succeeds succeeds, run_of_not_succeeds moved]
    exact congrArg Except.error failure

theorem foldlM_run_reindex (move : Nat -> Nat) (trials : List Trial) (metadata : Metadata) :
    (trials.map (reindex move)).foldlM run metadata =
      (trials.foldlM run metadata).mapError (Mismatch.reindex move) := by
  induction trials generalizing metadata with
  | nil => rfl
  | cons trial trials inductionHypothesis =>
      rw [List.map_cons, List.foldlM_cons, List.foldlM_cons, run_reindex]
      cases ran : run metadata trial with
      | error mismatch => rfl
      | ok recorded => exact inductionHypothesis recorded

end Trial

namespace Alignment

/-- Pairing from another index on moves every index. -/
theorem pair_reindex {move : Nat -> Nat} {index other : Nat} {segments : List Segment}
    (moves : forall place, place < segments.length -> move (index + place) = other + place)
    (folders : List Text) :
    (pair index segments folders).map (Aligned.reindex move) = pair other segments folders := by
  induction segments generalizing index other folders with
  | nil => rfl
  | cons segment segments inductionHypothesis =>
      cases folders with
      | nil => rfl
      | cons folder folders =>
          have here : move index = other := moves 0 (Nat.zero_lt_succ _)
          have later : forall place, place < segments.length ->
              move (index + 1 + place) = other + 1 + place := by
            intro place inside
            have next := moves (place + 1) (Nat.succ_lt_succ inside)
            rw [Nat.add_right_comm, Nat.add_assoc, next]
            omega
          have first : Aligned.reindex move ⟨index, segment, folder⟩ = ⟨other, segment, folder⟩ :=
            congrArg (fun moved => Aligned.mk moved segment folder) here
          rw [pair, pair, List.map_cons, first, inductionHypothesis later]

end Alignment

namespace Pattern

/-- Two candidates whose units differ in their indices only have the same
outcome up to the index told. -/
theorem matchCandidate_of_reindexed {pattern : Pattern} {folders others : List Text}
    {aligned : List Aligned} {move : Nat -> Nat}
    (aligns : Alignment.align pattern.folders folders = .ok aligned)
    (alignsOthers : Alignment.align pattern.folders others =
      .ok (aligned.map (Aligned.reindex move))) (fileName : Text) :
    pattern.matchCandidate ⟨others, fileName⟩ =
      (pattern.matchCandidate ⟨folders, fileName⟩).mapError (Mismatch.reindex move) := by
  have trials : (aligned.map (Aligned.reindex move)).map Trial.ofFolder =
      (aligned.map Trial.ofFolder).map (Trial.reindex move) := by
    rw [List.map_map, List.map_map]
    exact List.map_congr_left fun unit _ => Trial.ofFolder_reindex move unit
  rw [matchCandidate_of_align alignsOthers, matchCandidate_of_align aligns,
    ← Trial.foldlM_run_reindex, List.map_append, trials]
  rfl

/-- Any way to move the indices does that leaves those of the first folders and
moves those of the last ones to where they stand behind the other middle. -/
theorem matchCandidate_of_windows {pattern : Pattern} {left right : List Segment}
    (split : pattern.folders = left ++ .anyFolders :: right) (absent : .anyFolders ∉ left)
    {first last : List Text} (leftLength : first.length = left.length)
    (rightLength : last.length = right.length) {middle other : List Text} {move : Nat -> Nat}
    (inFront : forall place, place < left.length -> move (0 + place) = 0 + place)
    (behind : forall place, place < right.length ->
      move (first.length + middle.length + place) = first.length + other.length + place)
    (fileName : Text) :
    pattern.matchCandidate ⟨first ++ other ++ last, fileName⟩ =
      (pattern.matchCandidate ⟨first ++ middle ++ last, fileName⟩).mapError
        (Mismatch.reindex move) := by
  have aligns := Alignment.align_windows absent leftLength rightLength middle
  have alignsOther := Alignment.align_windows absent leftLength rightLength other
  rw [← split] at aligns alignsOther
  apply matchCandidate_of_reindexed aligns
  rw [alignsOther, List.map_append, Alignment.pair_reindex inFront, Alignment.pair_reindex behind]

/-- What lies between the windows of a `**`, and what lies in front of the last
folders without it, never changes what is captured or why a match fails, except
that the index of a folder counts all folders in front of it. -/
theorem matchCandidate_reindex {spec : Text} {pattern : Pattern}
    (compiled : compile spec = .ok pattern) (fileName : Text) :
    (forall left right, pattern.folders = left ++ .anyFolders :: right ->
      forall first last : List Text, first.length = left.length -> last.length = right.length ->
      forall middle other : List Text,
        pattern.matchCandidate ⟨first ++ other ++ last, fileName⟩ =
          (pattern.matchCandidate ⟨first ++ middle ++ last, fileName⟩).mapError
            (Mismatch.reindex fun index =>
              if first.length + middle.length ≤ index then index + other.length - middle.length
              else index)) ∧
    (.anyFolders ∉ pattern.folders ->
      forall folders front : List Text, pattern.folders.length ≤ folders.length ->
        pattern.matchCandidate ⟨front ++ folders, fileName⟩ =
          (pattern.matchCandidate ⟨folders, fileName⟩).mapError
            (Mismatch.reindex fun index => front.length + index)) := by
  rcases (compile_eq_ok_iff spec pattern).mp compiled with ⟨_, _, _, _, _, agreeing⟩
  constructor
  · intro left right split first last leftLength rightLength middle other
    rw [split] at agreeing
    have absent := agreeing.absent_of_split.1
    apply matchCandidate_of_windows split absent leftLength rightLength
    · intro place inside
      exact if_neg (by omega)
    · intro place _
      rw [if_pos (Nat.le_add_right _ _)]
      omega
  · intro absent folders front enough
    have split : exists skipped last, folders = skipped ++ last ∧
        last.length = pattern.folders.length := by
      refine ⟨_, _, (List.take_append_drop (folders.length - pattern.folders.length) folders).symm,
        ?_⟩
      rw [List.length_drop]
      omega
    rcases split with ⟨skipped, last, rfl, length⟩
    have moves : forall place, place < pattern.folders.length ->
        front.length + (skipped.length + place) = (front ++ skipped).length + place := by
      intro place _
      rw [List.length_append, Nat.add_assoc]
    have aligns := Alignment.align_trailing absent skipped length
    have alignsFront := Alignment.align_trailing absent (front ++ skipped) length
    rw [List.append_assoc] at alignsFront
    apply matchCandidate_of_reindexed aligns
    rw [alignsFront, Alignment.pair_reindex moves]

/-- The disc does not match, wherever it stands. -/
theorem matchCandidate_reindex_disc :
    exists anchored trailing,
      compile "\x7bcreator\x7d/**/Disc */\x7btitle\x7d".toList = .ok anchored ∧
      compile "\x7bcreator\x7d/Disc */\x7btitle\x7d".toList = .ok trailing ∧
      anchored.matchCandidate ⟨["ABBA".toList, "CD 1".toList], "SOS".toList⟩ =
        .error (.folder 1 "Disc *".toList "CD 1".toList) ∧
      anchored.matchCandidate ⟨["ABBA".toList, "Live".toList, "1979".toList, "CD 1".toList],
        "SOS".toList⟩ = .error (.folder 3 "Disc *".toList "CD 1".toList) ∧
      trailing.matchCandidate ⟨["music".toList, "ABBA".toList, "CD 1".toList], "SOS".toList⟩ =
        .error (.folder 2 "Disc *".toList "CD 1".toList) := by
  have anchoredCompiled : compile "\x7bcreator\x7d/**/Disc */\x7btitle\x7d".toList =
      .ok ⟨[.slot .creator, .anyFolders, .composite [.literal "Disc ".toList, .wildcard]],
        .slot .title⟩ := by
    decide +kernel
  have trailingCompiled : compile "\x7bcreator\x7d/Disc */\x7btitle\x7d".toList =
      .ok ⟨[.slot .creator, .composite [.literal "Disc ".toList, .wildcard]], .slot .title⟩ := by
    decide +kernel
  have between := (matchCandidate_reindex anchoredCompiled "SOS".toList).1 [.slot .creator] _ rfl
    ["ABBA".toList] ["CD 1".toList] rfl rfl [] ["Live".toList, "1979".toList]
  have inFront := (matchCandidate_reindex trailingCompiled "SOS".toList).2 (by decide)
    ["ABBA".toList, "CD 1".toList] ["music".toList] (by decide)
  refine ⟨_, _, anchoredCompiled, trailingCompiled, by decide +kernel, between.trans ?_,
    inFront.trans ?_⟩
  · decide +kernel
  · decide +kernel

end Pattern
end SongPath
