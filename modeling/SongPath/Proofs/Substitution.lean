import SongPath.Proofs.DocumentOrder
import SongPath.Proofs.Filling
import SongPath.Proofs.FirstFailure

/-!
# Substitution

A path that is written by filling a pattern is matched by it, and every token
gets back the value of its first occurrence.  The folders of the filling are
found again from the end of the path, or around a `**` from both ends, and the
file is found again because an extension ends it.
-/

namespace SongPath
namespace Alignment

/-- Names for folder segments, with the values of their tokens in document
order. -/
inductive Filling : List Segment -> List Text -> List (Token × Text) -> Prop where
  | nil : Filling [] [] []
  | cons {segment : Segment} {segments : List Segment} {names behind : List Text}
      {values later : List (Token × Text)} :
      segment.Fills names values -> Filling segments behind later ->
      Filling (segment :: segments) (names ++ behind) (values ++ later)

namespace Filling

theorem split {front rest : List Segment} {names : List Text} {values : List (Token × Text)}
    (filling : Filling (front ++ rest) names values) :
    exists first second earlier later, names = first ++ second ∧ values = earlier ++ later ∧
      Filling front first earlier ∧ Filling rest second later := by
  induction front generalizing names values with
  | nil => exact ⟨[], names, [], values, rfl, rfl, .nil, filling⟩
  | cons segment front inductionHypothesis =>
      cases filling with
      | @cons _ _ here _ found _ fills filling =>
          rcases inductionHypothesis filling with
            ⟨first, second, earlier, later, rfl, rfl, frontFilling, restFilling⟩
          exact ⟨here ++ first, second, found ++ earlier, later, (List.append_assoc _ _ _).symm,
            (List.append_assoc _ _ _).symm, .cons fills frontFilling, restFilling⟩

theorem map_fst {segments : List Segment} {names : List Text} {values : List (Token × Text)}
    (filling : Filling segments names values) :
    values.map Prod.fst = segments.flatMap Segment.tokens := by
  induction filling with
  | nil => rfl
  | cons fills _ inductionHypothesis =>
      rw [List.map_append, List.flatMap_cons, fills.map_fst, inductionHypothesis]

theorem trimmed {segments : List Segment} {names : List Text} {values : List (Token × Text)}
    (filling : Filling segments names values) :
    forall value, value ∈ values -> value.2.trim = value.2 := by
  induction filling with
  | nil => exact List.forall_mem_nil _
  | cons fills _ inductionHypothesis =>
      exact List.forall_mem_append.mpr ⟨fills.trimmed, inductionHypothesis⟩

theorem isName {segments : List Segment} {names : List Text} {values : List (Token × Text)}
    (filling : Filling segments names values)
    (folders : forall segment, segment ∈ segments ->
      segment.IsNormal ∧ segment ≠ .composite [.wildcard]) :
    forall name, name ∈ names -> Path.IsName name := by
  induction filling with
  | nil => exact List.forall_mem_nil _
  | cons fills _ inductionHypothesis =>
      rcases List.forall_mem_cons.mp folders with ⟨here, others⟩
      exact List.forall_mem_append.mpr
        ⟨fills.isName here.1 here.2, inductionHypothesis others⟩

/-- Without a `**` there is one name for each segment, and pairing them gives
units that are described and capture the values. -/
theorem pair {segments : List Segment} {names : List Text} {values : List (Token × Text)}
    (filling : Filling segments names values) (absent : .anyFolders ∉ segments)
    (sound : forall segment, segment ∈ segments -> segment.IsNormal ∧ segment.SlotsApart)
    (index : Nat) :
    names.length = segments.length ∧
      (forall unit, unit ∈ pair index segments names -> unit.segment.Describes unit.actual) ∧
      ((pair index segments names).map Trial.ofFolder).flatMap Trial.captures = values := by
  induction filling generalizing index with
  | nil => exact ⟨rfl, List.forall_mem_nil _, rfl⟩
  | @cons segment segments here names values later fills _ inductionHypothesis =>
      rcases List.forall_mem_cons.mp sound with ⟨⟨isNormal, apart⟩, others⟩
      have notLater : .anyFolders ∉ segments := List.not_mem_of_not_mem_cons absent
      have notHere : segment ≠ .anyFolders := by
        rintro rfl
        exact absent List.mem_cons_self
      rcases fills.single notHere with ⟨name, rfl⟩
      rcases fills.captures isNormal apart with ⟨describes, captures⟩
      rcases inductionHypothesis notLater others (index + 1) with ⟨length, described, captured⟩
      refine ⟨congrArg Nat.succ length, List.forall_mem_cons.mpr ⟨describes, described⟩, ?_⟩
      have here : (Trial.ofFolder ⟨index, segment, name⟩).captures = values := by
        rw [Trial.captures]
        change (segment.capture name).getD [] = values
        rw [captures, Option.getD_some]
      change (Trial.ofFolder ⟨index, segment, name⟩).captures ++ _ = _
      rw [here]
      exact congrArg (values ++ ·) captured

end Filling

/-- Folders that fill segments in front of which no others may be ignored, or
that have no `**`, are aligned with those segments. -/
theorem align_of_filling {segments : List Segment} {front folders : List Text}
    {values : List (Token × Text)} (agreeing : Pattern.AgreeingFolders segments)
    (filling : Filling segments folders values)
    (sound : forall segment, segment ∈ segments -> segment.IsNormal ∧ segment.SlotsApart)
    (anchored : .anyFolders ∈ segments -> front = []) :
    exists aligned, align segments (front ++ folders) = .ok aligned ∧
      (forall unit, unit ∈ aligned -> unit.segment.Describes unit.actual) ∧
      (aligned.map Trial.ofFolder).flatMap Trial.captures = values := by
  rcases agreeing with absent | ⟨left, right, rfl, absentLeft, absentRight, _⟩
  · rcases filling.pair absent sound front.length with ⟨length, described, captured⟩
    exact ⟨_, align_trailing absent front length, described, captured⟩
  · -- A `**` leaves nothing in front; the names it took lie between the two sides.
    cases anchored (List.mem_append_right left List.mem_cons_self)
    rcases List.forall_mem_append.mp sound with ⟨soundLeft, soundRest⟩
    rcases filling.split with ⟨first, second, earlier, later, rfl, rfl, leftFilling, restFilling⟩
    cases restFilling with
    | @cons _ _ middle last _ found fills rightFilling =>
        cases fills
        rcases leftFilling.pair absentLeft soundLeft 0 with
          ⟨leftLength, leftDescribed, leftCaptured⟩
        rcases rightFilling.pair absentRight (List.forall_mem_cons.mp soundRest).2
          (first.length + middle.length) with ⟨rightLength, rightDescribed, rightCaptured⟩
        have aligns := align_windows absentLeft leftLength rightLength middle
        rw [List.append_assoc] at aligns
        refine ⟨_, aligns, List.forall_mem_append.mpr ⟨leftDescribed, rightDescribed⟩, ?_⟩
        rw [List.map_append, List.flatMap_append, leftCaptured, rightCaptured]
        rfl

end Alignment

namespace Pattern

/-- A path that is written by filling a compiled pattern, whose composites keep
their tokens apart, is matched.  Each token gets the value of its first
occurrence, and a token that does not occur gets none. -/
theorem matchPath_of_filling {spec : Text} {pattern : Pattern}
    (compiled : compile spec = .ok pattern)
    (apart : forall segment, segment ∈ pattern.segments -> segment.SlotsApart)
    {front folders : List Text} {file extension : Text}
    {folderValues fileValues : List (Token × Text)}
    (filling : Alignment.Filling pattern.folders folders folderValues)
    (fileFills : pattern.file.Fills [file] fileValues) (nonempty : file ≠ [])
    (frontNames : forall folder, folder ∈ front -> Path.IsName folder)
    (anchored : .anyFolders ∈ pattern.folders -> front = [])
    (undotted : '.' ∉ extension) (plain : IsPlain extension) :
    exists metadata,
      pattern.matchPath
        (List.intercalate ['/'] (front ++ folders ++ [file ++ '.' :: extension])) = .ok metadata ∧
      (folderValues ++ fileValues).map Prod.fst = pattern.segments.flatMap Segment.tokens ∧
      forall token,
        metadata.get token =
          ((folderValues ++ fileValues).find? fun value => value.1 == token).map Prod.snd ∧
        (metadata.get token = none <-> token ∉ pattern.tokens) := by
  have isNormal := isNormal_of_compile compiled
  have apartFile := apart pattern.file (List.mem_append_right _ List.mem_cons_self)
  have sound : forall segment, segment ∈ pattern.folders ->
      segment.IsNormal ∧ segment.SlotsApart := by
    intro segment listed
    constructor
    · exact (isNormal.folders segment listed).1
    · exact apart segment (List.mem_append_left _ listed)
  have filePlain := fileFills.isPlain isNormal.file file List.mem_cons_self
  have names : forall folder, folder ∈ front ++ folders -> Path.IsName folder :=
    List.forall_mem_append.mpr ⟨frontNames, filling.isName isNormal.folders⟩
  have split := Candidate.ofPath_intercalate names ⟨nonempty, filePlain⟩ undotted plain
  have occurrences : (folderValues ++ fileValues).map Prod.fst =
      pattern.segments.flatMap Segment.tokens := by
    rw [List.map_append, filling.map_fst, fileFills.map_fst, segments, List.flatMap_append]
    exact congrArg (pattern.folders.flatMap Segment.tokens ++ ·) (List.append_nil _).symm
  have trimmed : forall value, value ∈ folderValues ++ fileValues -> value.2.trim = value.2 :=
    List.forall_mem_append.mpr ⟨filling.trimmed, fileFills.trimmed⟩
  rcases Alignment.align_of_filling isNormal.agreeing filling sound anchored with
    ⟨aligned, aligns, described, captured⟩
  rcases fileFills.captures isNormal.file apartFile with ⟨describesFile, capturedFile⟩
  have matched : pattern.matchCandidate ⟨front ++ folders, file⟩ = _ :=
    matchCandidate_of_allDescribed aligns ⟨described, describesFile⟩
  have fileCaptures : (Trial.ofFile pattern.file file).captures = fileValues := by
    change (pattern.file.capture file).getD [] = fileValues
    rw [capturedFile, Option.getD_some]
  rw [List.flatMap_append, captured, List.flatMap_singleton, fileCaptures] at matched
  refine ⟨Metadata.empty.putAll (folderValues ++ fileValues), ?_, occurrences, ?_⟩
  · rw [matchPath, split]
    exact matched
  · intro token
    rw [Metadata.get_putAll_empty]
    constructor
    · apply Option.map_congr
      intro value found
      exact trimmed value (List.mem_of_find?_eq_some found)
    · rw [← find?_isSome_iff occurrences token, Option.map_eq_none_iff,
        Option.not_isSome_iff_eq_none]

/-- Both folders between the creator and the disc are taken by the `**`. -/
theorem matchPath_of_filling_live_album :
    exists pattern metadata,
      compile "\x7bcreator\x7d/**/Disc */\x7bartist\x7d - \x7btitle\x7d".toList = .ok pattern ∧
      pattern.matchPath
        (List.intercalate ['/'] ["ABBA".toList, "Live".toList, "1979".toList, "Disc 2".toList,
          "Abba - S - O - S.mp3".toList]) = .ok metadata ∧
      metadata.get .creator = some "ABBA".toList ∧ metadata.get .artist = some "Abba".toList ∧
      metadata.get .title = some "S - O - S".toList ∧ metadata.get .identifier = none := by
  have compiled : compile "\x7bcreator\x7d/**/Disc */\x7bartist\x7d - \x7btitle\x7d".toList =
      .ok ⟨[.slot .creator, .anyFolders, .composite [.literal "Disc ".toList, .wildcard]],
        .composite [.slot .artist, .literal " - ".toList, .slot .title]⟩ := by
    decide +kernel
  have disc : Segment.Filled [.literal "Disc ".toList, .wildcard] ["Disc ".toList, "2".toList] :=
    .literal _ (.wildcard (by decide +kernel) trivial .nil)
  have file : Segment.Filled [.slot .artist, .literal " - ".toList, .slot .title]
      ["Abba".toList, " - ".toList, "S - O - S".toList] :=
    .slot .artist (by decide +kernel)
      (by decide +kernel : StandsOnlyAtEnd " - ".toList "Abba".toList)
      (.literal _ (.slot .title (by decide +kernel) trivial .nil))
  have between : forall name, name ∈ ["Live".toList, "1979".toList] -> Path.IsName name := by
    decide +kernel
  have creator : IsValue "ABBA".toList := by decide +kernel
  have folders := Alignment.Filling.cons (.slot .creator creator)
    (.cons (.anyFolders between) (.cons (.composite disc) .nil))
  have undotted : '.' ∉ "mp3".toList := by decide +kernel
  rcases matchPath_of_filling compiled (by decide +kernel) folders (.composite file)
    (by decide +kernel) (List.forall_mem_nil _) (fun _ => rfl) undotted (by decide +kernel) with
    ⟨metadata, matched, _, yields⟩
  exact ⟨_, metadata, compiled, matched, (yields .creator).1, (yields .artist).1,
    (yields .title).1, (yields .identifier).1⟩

end Pattern
end SongPath
