import SongPath.Proofs.CanonicalForm
import SongPath.Proofs.FirstFailure

/-!
# Runs of star folders

A `**` takes any number of folders, and a `*` takes one and looks at nothing.  So
on a candidate of a given depth a `**` does what that many `*` folders in its
place would do, although without `**` a pattern is aligned in another way.  The
run is written into the specification itself, so that it is compiled like any
other.
-/

namespace SongPath

/-- As many `*` folders as asked for, in specification syntax. -/
def Path.starRun (count : Nat) : Text :=
  List.intercalate ['/'] (List.replicate count ['*'])

theorem Path.names_starRun (count : Nat) :
    names (starRun count) = List.replicate count ['*'] := by
  apply names_intercalate
  intro part listed
  rw [List.eq_of_mem_replicate listed]
  decide

namespace Trial

/-- Trials that record nothing, whatever was recorded before, make no
difference to a run. -/
theorem foldlM_run_insert {idle : List Trial}
    (records : forall trial, trial ∈ idle -> forall metadata, run metadata trial = .ok metadata)
    (before after : List Trial) (metadata : Metadata) :
    (before ++ (idle ++ after)).foldlM run metadata = (before ++ after).foldlM run metadata := by
  have skipped : forall metadata, idle.foldlM run metadata = .ok metadata := by
    induction idle with
    | nil => exact fun _ => rfl
    | cons trial idle inductionHypothesis =>
        intro metadata
        rcases List.forall_mem_cons.mp records with ⟨first, others⟩
        rw [List.foldlM_cons, first]
        exact inductionHypothesis others metadata
  rw [List.foldlM_append, List.foldlM_append]
  refine bind_congr fun recorded => ?_
  rw [List.foldlM_append, skipped]
  rfl

theorem run_of_pair_anyFolder {index count : Nat} {folders : List Text} {unit : Aligned}
    (listed : unit ∈ Alignment.pair index (List.replicate count .anyFolder) folders)
    (metadata : Metadata) : run metadata (ofFolder unit) = .ok metadata := by
  have wildcard : unit.segment = .anyFolder := by
    rcases List.mem_iff_getElem?.mp listed with ⟨place, found⟩
    rw [Alignment.getElem?_pair] at found
    rcases Option.bind_eq_some_iff.mp found with ⟨segment, stands, found⟩
    rcases Option.map_eq_some_iff.mp found with ⟨_, _, rfl⟩
    exact List.eq_of_mem_replicate (List.mem_of_getElem? stands)
  unfold run ofFolder
  rw [wildcard]
  rfl

end Trial

namespace Pattern

/-! ## The run in the specification -/

/-- The names in front of the `**` are the left folders, and those behind it are
the right folders and the file. -/
theorem names_around_doubleStar {spec : Text} {pattern : Pattern}
    (compiled : compile spec = .ok pattern) {left right : List Segment}
    (split : pattern.folders = left ++ .anyFolders :: right) {before after : Text}
    (stands : Path.Stands ['*', '*'] spec before after) :
    exists last, Path.names before = left.map Segment.render ∧
      Path.names after = right.map Segment.render ++ [last] ∧
      Path.patternStem last = pattern.file.render := by
  rcases (compile_eq_ok_iff spec pattern).mp compiled with ⟨_, _, _, _, _, agreeing⟩
  rw [split] at agreeing
  rcases agreeing.absent_of_split with ⟨absentLeft, absentRight⟩
  have double : Segment.ofFolder ['*', '*'] = .ok .anyFolders := by rfl
  -- No other folder is written `**`, and neither is the file.
  have single : forall folder, folder ∈ pattern.folders -> folder.render = ['*', '*'] ->
      folder = .anyFolders := by
    intro folder listed written
    have read := ofFolder_render compiled listed
    rw [written, double] at read
    exact (Except.ok.inj read).symm
  have notMapped : forall folders : List Segment, .anyFolders ∉ folders ->
      (forall folder, folder ∈ folders -> folder ∈ pattern.folders) ->
      ['*', '*'] ∉ folders.map Segment.render := by
    intro folders absent included listed
    rcases List.mem_map.mp listed with ⟨folder, member, written⟩
    exact absent (single folder (included folder member) written ▸ member)
  rcases names_of_compile compiled with ⟨_, _, last, names, stem⟩
  have notLast : last ≠ ['*', '*'] := by
    rintro rfl
    have fileStem : Path.patternStem ['*', '*'] = ['*', '*'] := by rfl
    have read := ofFile_render compiled
    rw [← stem, fileStem] at read
    cases read
  have notLeft : ['*', '*'] ∉ left.map Segment.render := by
    apply notMapped left absentLeft
    intro folder listed
    rw [split]
    exact List.mem_append_left _ listed
  have notRight : ['*', '*'] ∉ right.map Segment.render ++ [last] := by
    intro listed
    rcases List.mem_append.mp listed with folder | file
    · refine notMapped right absentRight (fun folder listed => ?_) folder
      rw [split]
      exact List.mem_append_right left (List.mem_cons_of_mem _ listed)
    · exact notLast (List.mem_singleton.mp file).symm
  have around : Path.names spec = Path.names before ++ ['*', '*'] :: Path.names after := by
    have named := stands.names_replace ['*', '*']
    rw [← stands.written] at named
    exact named
  rw [names, split, List.map_append, List.append_assoc] at around
  have parts := (List.append_cons_inj_of_notMem notLeft notRight).mp around
  exact ⟨last, parts.1.symm, parts.2.2.symm, stem⟩

private theorem not_mem_run {left right : List Segment} (absentLeft : .anyFolders ∉ left)
    (absentRight : .anyFolders ∉ right) (count : Nat) :
    .anyFolders ∉ left ++ (List.replicate count .anyFolder ++ right) := by
  intro listed
  rcases List.mem_append.mp listed with inLeft | behind
  · exact absentLeft inLeft
  · rcases List.mem_append.mp behind with inRun | inRight
    · cases List.eq_of_mem_replicate inRun
    · exact absentRight inRight

/-- With a run of `*` folders in place of its `**` a specification compiles, and
nothing else about its pattern changes. -/
theorem compile_starRun {spec : Text} {pattern : Pattern} (compiled : compile spec = .ok pattern)
    {left right : List Segment} (split : pattern.folders = left ++ .anyFolders :: right)
    {before after : Text} (stands : Path.Stands ['*', '*'] spec before after) (count : Nat) :
    compile (before ++ Path.starRun count ++ after) =
      .ok ⟨left ++ (List.replicate count .anyFolder ++ right), pattern.file⟩ := by
  rcases names_around_doubleStar compiled split stands with ⟨last, inFront, behind, stem⟩
  rcases (compile_eq_ok_iff spec pattern).mp compiled with ⟨_, _, _, _, _, agreeing⟩
  rw [split] at agreeing
  rcases agreeing.absent_of_split with ⟨absentLeft, absentRight⟩
  have names : Path.names (before ++ Path.starRun count ++ after) =
      (left ++ (List.replicate count Segment.anyFolder ++ right)).map Segment.render ++ [last] := by
    rw [stands.names_replace, inFront, behind, Path.names_starRun, List.map_append, List.map_append,
      List.map_replicate, List.append_assoc, List.append_assoc]
    rfl
  have foldersRead : List.Forall₂ (fun raw segment => Segment.ofFolder raw = .ok segment)
      ((left ++ (List.replicate count Segment.anyFolder ++ right)).map Segment.render)
      (left ++ (List.replicate count .anyFolder ++ right)) := by
    apply List.forall₂_map_left_iff.mpr
    apply List.forall₂_same.mpr
    have inPattern : forall folder, folder ∈ left ++ .anyFolders :: right ->
        Segment.ofFolder folder.render = .ok folder := by
      rw [← split]
      exact fun folder => ofFolder_render compiled
    rcases List.forall_mem_append.mp inPattern with ⟨inLeft, rest⟩
    refine List.forall_mem_append.mpr ⟨inLeft, List.forall_mem_append.mpr ⟨?_, ?_⟩⟩
    · intro folder listed
      rw [List.eq_of_mem_replicate listed]
      rfl
    · exact (List.forall_mem_cons.mp rest).2
  have fileRead : Segment.ofFile (Path.patternStem last) = .ok pattern.file := by
    rw [stem]
    exact ofFile_render compiled
  exact (compile_eq_ok_iff _ _).mpr ⟨_, last, names, foldersRead, fileRead,
    Or.inl (not_mem_run absentLeft absentRight count)⟩

/-! ## The run in a match -/

/-- The run is aligned with the folders between the windows, where it records
nothing, and the other folders keep their indices. -/
theorem matchCandidate_run {pattern : Pattern} {left right : List Segment}
    (split : pattern.folders = left ++ .anyFolders :: right) (absentLeft : .anyFolders ∉ left)
    (absentRight : .anyFolders ∉ right) {first middle last : List Text}
    (leftLength : first.length = left.length) (rightLength : last.length = right.length)
    (fileName : Text) :
    matchCandidate ⟨left ++ (List.replicate middle.length .anyFolder ++ right), pattern.file⟩
        ⟨first ++ middle ++ last, fileName⟩ =
      pattern.matchCandidate ⟨first ++ middle ++ last, fileName⟩ := by
  have windows := Alignment.align_windows absentLeft leftLength rightLength middle
  rw [← split] at windows
  have runLength : middle.length = (List.replicate middle.length Segment.anyFolder).length :=
    List.length_replicate.symm
  have trailing : Alignment.align (left ++ (List.replicate middle.length .anyFolder ++ right))
      (first ++ middle ++ last) =
        .ok (Alignment.pair 0 left first ++
          (Alignment.pair first.length (List.replicate middle.length .anyFolder) middle ++
            Alignment.pair (first.length + middle.length) right last)) := by
    have total : (first ++ (middle ++ last)).length =
        (left ++ (List.replicate middle.length Segment.anyFolder ++ right)).length := by
      simp only [List.length_append, List.length_replicate, leftLength, rightLength]
    have aligns := Alignment.align_trailing (not_mem_run absentLeft absentRight middle.length) []
      total
    rw [Alignment.pair_append_pair leftLength, Alignment.pair_append_pair runLength,
      List.length_nil, Nat.zero_add] at aligns
    rw [List.append_assoc]
    exact aligns
  rw [matchCandidate_of_align trailing, matchCandidate_of_align windows]
  simp only [List.map_append, List.append_assoc]
  apply Trial.foldlM_run_insert
  intro trial listed
  rcases List.mem_map.mp listed with ⟨unit, member, rfl⟩
  exact Trial.run_of_pair_anyFolder member

/-- A `**` stands somewhere in its specification.  Where it stands, write as many
`*` folders as a candidate has folders between the windows: the specification
still compiles, and the match of the candidate is the same, captures and
mismatches alike. -/
theorem matchCandidate_starRun {spec : Text} {pattern : Pattern}
    (compiled : compile spec = .ok pattern) {left right : List Segment}
    (split : pattern.folders = left ++ .anyFolders :: right) (candidate : Candidate)
    (enough : left.length + right.length ≤ candidate.folders.length) :
    (exists before after, Path.Stands ['*', '*'] spec before after) ∧
    forall before after, Path.Stands ['*', '*'] spec before after ->
      exists other : Pattern,
        compile (before ++ Path.starRun
          (candidate.folders.length - (left.length + right.length)) ++ after) = .ok other ∧
        other.folders = left ++ (List.replicate
          (candidate.folders.length - (left.length + right.length)) .anyFolder ++ right) ∧
        other.file = pattern.file ∧
        other.matchCandidate candidate = pattern.matchCandidate candidate := by
  constructor
  · rcases names_of_compile compiled with ⟨_, _, last, names, _⟩
    apply Path.exists_stands_of_mem_names
    rw [names, split, List.map_append, List.map_cons, List.append_assoc]
    exact List.mem_append_right _ List.mem_cons_self
  · intro before after stands
    rcases (compile_eq_ok_iff spec pattern).mp compiled with ⟨_, _, _, _, _, agreeing⟩
    rw [split] at agreeing
    rcases agreeing.absent_of_split with ⟨absentLeft, absentRight⟩
    refine ⟨_, compile_starRun compiled split stands _, rfl, rfl, ?_⟩
    rcases candidate with ⟨folders, fileName⟩
    obtain ⟨first, middle, last, rfl, leftLength, rightLength⟩ :
        exists first middle last, folders = first ++ middle ++ last ∧
          first.length = left.length ∧ last.length = right.length := by
      refine ⟨folders.take left.length, (folders.drop left.length).take
        (folders.length - (left.length + right.length)), (folders.drop left.length).drop
        (folders.length - (left.length + right.length)), ?_, ?_, ?_⟩
      · rw [List.append_assoc, List.take_append_drop, List.take_append_drop]
      · exact List.length_take_of_le (Nat.le_of_add_right_le enough)
      · rw [List.length_drop, List.length_drop]
        change _ ≤ folders.length at enough
        omega
    have between : (first ++ middle ++ last).length - (left.length + right.length) =
        middle.length := by
      rw [List.length_append, List.length_append, leftLength, rightLength]
      omega
    rw [between]
    exact matchCandidate_run split absentLeft absentRight leftLength rightLength fileName

/-- Two folders lie between the windows, and the disc does not match. -/
theorem matchCandidate_starRun_disc :
    exists pattern other,
      compile "\x7bcreator\x7d/**/Disc */\x7btitle\x7d".toList = .ok pattern ∧
      compile "\x7bcreator\x7d/*/*/Disc */\x7btitle\x7d".toList = .ok other ∧
      other.matchCandidate ⟨["ABBA".toList, "Live".toList, "1979".toList, "CD 1".toList],
        "SOS".toList⟩ = .error (.folder 3 "Disc *".toList "CD 1".toList) ∧
      pattern.matchCandidate ⟨["ABBA".toList, "Live".toList, "1979".toList, "CD 1".toList],
        "SOS".toList⟩ = .error (.folder 3 "Disc *".toList "CD 1".toList) := by
  have compiled : compile "\x7bcreator\x7d/**/Disc */\x7btitle\x7d".toList =
      .ok ⟨[.slot .creator, .anyFolders, .composite [.literal "Disc ".toList, .wildcard]],
        .slot .title⟩ := by
    decide +kernel
  have stands : Path.Stands ['*', '*'] "\x7bcreator\x7d/**/Disc */\x7btitle\x7d".toList
      "\x7bcreator\x7d/".toList "/Disc */\x7btitle\x7d".toList := by
    refine ⟨by decide, fun char last => ?_, fun char next => ?_⟩
    · cases last
      rfl
    · cases next
      rfl
  have split : [.slot .creator, .anyFolders, .composite [.literal "Disc ".toList, .wildcard]] =
      [Segment.slot .creator] ++ .anyFolders :: [.composite [.literal "Disc ".toList, .wildcard]] :=
    rfl
  have same := matchCandidate_starRun compiled split
    ⟨["ABBA".toList, "Live".toList, "1979".toList, "CD 1".toList], "SOS".toList⟩ (by decide)
  rcases same.2 _ _ stands with ⟨other, otherCompiled, _, _, agrees⟩
  have mismatch : matchCandidate
      ⟨[.slot .creator, .anyFolders, .composite [.literal "Disc ".toList, .wildcard]], .slot .title⟩
      ⟨["ABBA".toList, "Live".toList, "1979".toList, "CD 1".toList], "SOS".toList⟩ =
        .error (.folder 3 "Disc *".toList "CD 1".toList) := by
    decide +kernel
  exact ⟨_, other, compiled, otherCompiled, agrees.trans mismatch, mismatch⟩

end Pattern
end SongPath
