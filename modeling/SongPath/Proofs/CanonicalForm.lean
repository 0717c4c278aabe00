import SongPath.Proofs.PartText

/-!
# The canonical form of a pattern

A compiled pattern is written with one slash behind each folder and without the
extension of its specification.  Its folders are read back unchanged.  Its file
is too, unless what is left of it ends in something that looks like an extension
again: compiling the canonical form drops a second extension then.  With an
extension written behind it the canonical form is exact, so it determines the
pattern.
-/

namespace SongPath
namespace Path

/-! ## Extensions of specifications -/

/-- A tail that a specification may lose behind its last dot. -/
def IsExtension (tail : Text) : Prop :=
  tail = ['*'] ∨ forall char, char ∈ tail ->
    char ≠ '{' ∧ char ≠ '}' ∧ char ≠ '*' ∧ isBlank char = false

theorem isExtension_eq_true_iff (tail : Text) : isExtension tail = true <-> IsExtension tail := by
  simp only [isExtension, IsExtension, Bool.or_eq_true, beq_iff_eq, Bool.not_eq_true',
    List.any_eq_false, Bool.or_eq_true, not_or, Bool.not_eq_true, and_assoc]

instance (tail : Text) : Decidable (IsExtension tail) :=
  decidable_of_iff _ (isExtension_eq_true_iff tail)

/-- The file text loses a tail as a specification does. -/
def EndsInExtension (file : Text) : Prop :=
  exists before tail, before ≠ [] ∧ '.' ∉ tail ∧ IsExtension tail ∧ file = before ++ '.' :: tail

theorem patternStem_append {file tail : Text} (nonempty : file ≠ []) (undotted : '.' ∉ tail)
    (isExtension : IsExtension tail) : patternStem (file ++ '.' :: tail) = file := by
  rw [patternStem, splitLastDot?_append file undotted]
  cases file with
  | nil => exact absurd rfl nonempty
  | cons first rest => exact if_pos ((isExtension_eq_true_iff tail).mpr isExtension)

theorem patternStem_eq_self_iff (file : Text) :
    patternStem file = file <-> ¬ EndsInExtension file := by
  constructor
  · rintro same ⟨before, tail, nonempty, undotted, isExtension, rfl⟩
    rw [patternStem_append nonempty undotted isExtension] at same
    have lengths := congrArg List.length same
    rw [List.length_append, List.length_cons] at lengths
    omega
  · intro complete
    unfold patternStem
    split
    · next first before tail found =>
        rw [if_neg]
        intro isExtension
        apply complete
        exact ⟨first :: before, tail, List.cons_ne_nil _ _, undotted_of_splitLastDot? found,
          (isExtension_eq_true_iff tail).mp isExtension, eq_append_of_splitLastDot? found⟩
    · rfl

instance (file : Text) : Decidable (EndsInExtension file) :=
  decidable_of_iff (¬ patternStem file = file) (not_iff_comm.mp (patternStem_eq_self_iff file).symm)

end Path

namespace Piece

/-! ## Pieces in front of a dot -/

/-- Only literal text has dots. -/
theorem exists_literal_of_dot {piece : Piece} (dotted : '.' ∈ piece.render) :
    exists text, piece = .literal text := by
  cases piece with
  | literal text => exact ⟨text, rfl⟩
  | slot token => cases token <;> exact absurd dotted (by decide)
  | wildcard => exact absurd dotted (by decide)

private theorem isSound_literal_front {front behind : Text} (nonempty : front ≠ [])
    (isSound : IsSound (.literal (front ++ behind))) : IsSound (.literal front) :=
  ⟨nonempty, fun char inside => isSound.2 char (List.mem_append_left behind inside)⟩

private theorem weight_literal_front_le (front behind : Text) :
    weight (.literal front) ≤ weight (.literal (front ++ behind)) := by
  rw [weight, weight, Text.utf8Length_append]
  exact Nat.mul_le_mul_left 32 (Nat.le_add_right _ _)

/-- Whether a literal may follow does not depend on its text. -/
private theorem mayPrecede_literal {piece : Piece} {text other : Text}
    (mayPrecede : piece.MayPrecede (.literal text)) : piece.MayPrecede (.literal other) := by
  cases piece <;> exact mayPrecede

/-- What stands before a dot is written by normal pieces as well.  They are no
more and weigh no more, and whatever may precede the pieces may precede them. -/
theorem Normal.exists_before_dot {pieces : List Piece} (normal : Normal pieces)
    {before behind : Text} (written : pieces.flatMap render = before ++ '.' :: behind) :
    exists fewer, Normal fewer ∧ fewer.flatMap render = before ∧
      fewer.length ≤ pieces.length ∧ totalWeight fewer ≤ totalWeight pieces ∧
      forall first : Piece, (forall next, next ∈ pieces.head? -> first.MayPrecede next) ->
        forall next, next ∈ fewer.head? -> first.MayPrecede next := by
  induction pieces generalizing before with
  | nil =>
      have empty := List.append_eq_nil_iff.mp written.symm
      cases empty.2
  | cons piece pieces inductionHypothesis =>
      rcases List.forall_mem_cons.mp normal.sound with ⟨isSound, others⟩
      rcases List.isChain_cons.mp normal.ordered with ⟨ordered, later⟩
      rw [List.flatMap_cons] at written
      rcases List.append_eq_append_iff.mp written with ⟨rest, rfl, dotted⟩ | ⟨rest, here, dotted⟩
      · rcases inductionHypothesis ⟨others, later⟩ dotted with
          ⟨fewer, fewerNormal, rfl, shorter, lighter, precede⟩
        refine ⟨piece :: fewer, fewerNormal.cons isSound (precede piece ordered), rfl, ?_, ?_, ?_⟩
        · exact Nat.succ_le_succ shorter
        · exact Nat.add_le_add_left lighter piece.weight
        · exact fun first precedes => precedes
      · -- The dot stands in this piece or right behind it.
        cases rest with
        | nil =>
            rw [List.append_nil] at here
            refine ⟨[piece], Normal.nil.cons isSound nofun, ?_, ?_, ?_, fun first precedes => precedes⟩
            · rw [List.flatMap_singleton, here]
            · exact Nat.succ_le_succ (Nat.zero_le _)
            · exact Nat.add_le_add_left (Nat.zero_le _) piece.weight
        | cons dot rest =>
            cases List.head_eq_of_cons_eq dotted
            have member : '.' ∈ piece.render := by
              rw [here]
              exact List.mem_append_right before List.mem_cons_self
            rcases exists_literal_of_dot member with ⟨text, rfl⟩
            have text_eq : text = before ++ '.' :: rest := here
            cases before with
            | nil => exact ⟨[], Normal.nil, rfl, Nat.zero_le _, Nat.zero_le _, fun _ _ => nofun⟩
            | cons char before =>
                rw [text_eq] at isSound
                refine ⟨[.literal (char :: before)], Normal.nil.cons ?_ nofun,
                  List.flatMap_singleton _ _, ?_, ?_, ?_⟩
                · exact isSound_literal_front (List.cons_ne_nil _ _) isSound
                · exact Nat.succ_le_succ (Nat.zero_le _)
                · rw [text_eq]
                  exact Nat.add_le_add (weight_literal_front_le _ _) (Nat.zero_le _)
                · intro first precedes next head
                  cases head
                  exact mayPrecede_literal (precedes (.literal text) rfl)

theorem areOversized_of_lighter {pieces fewer : List Piece}
    (lighter : totalWeight fewer ≤ totalWeight pieces) (small : areOversized pieces = false) :
    areOversized fewer = false := by
  unfold areOversized at small ⊢
  rw [decide_eq_false_iff_not, Nat.not_lt] at small ⊢
  exact Nat.le_trans lighter small

end Piece

namespace Segment

/-- A file part that compiles still does without an extension of its own. -/
theorem exists_ofFile_patternStem {raw : Text} (isName : Path.IsName raw) {segment : Segment}
    (read : ofFile raw = .ok segment) :
    exists file, ofFile (Path.patternStem raw) = .ok file := by
  by_cases ends : Path.EndsInExtension raw
  · rcases ends with ⟨before, tail, nonempty, undotted, isExtension, rfl⟩
    have stem := Path.patternStem_append nonempty undotted isExtension
    have stemIsName : Path.IsName before := stem ▸ Path.isName_patternStem isName
    rcases (ofFile_eq_ok_iff isName.2 segment).mp read with ⟨pieces, normal, written, built⟩
    rcases normal.exists_before_dot written with
      ⟨fewer, fewerNormal, fewerWritten, shorter, lighter, _⟩
    have piecesNonempty : pieces ≠ [] := by
      rintro rfl
      exact isName.1 written.symm
    have fewerNonempty : fewer ≠ [] := by
      rintro rfl
      exact nonempty fewerWritten.symm
    have small : Composes fewer -> Piece.areOversized fewer = false := by
      intro composes
      rcases composes with several | rfl
      · have fits := (exists_ofPieces_iff _ piecesNonempty).mp ⟨segment, built⟩
        exact Piece.areOversized_of_lighter lighter (fits (Or.inl (Nat.le_trans several shorter)))
      · rfl
    rcases (exists_ofPieces_iff before fewerNonempty).mpr small with ⟨file, fileBuilt⟩
    rw [stem]
    exact ⟨file, (ofFile_eq_ok_iff stemIsName.2 file).mpr
      ⟨fewer, fewerNormal, fewerWritten, fileBuilt⟩⟩
  · rw [(Path.patternStem_eq_self_iff raw).mpr ends]
    exact ⟨segment, read⟩

end Segment

namespace Pattern

/-! ## Compiling a written pattern -/

/-- The names of a specification are the texts of the folders it compiles to and
a last name whose stem is the text of the file. -/
theorem names_of_compile {spec : Text} {pattern : Pattern} (compiled : compile spec = .ok pattern) :
    (forall part, part ∈ pattern.folders.map Segment.render -> Path.IsName part) ∧
      Path.IsName pattern.file.render ∧
      exists last, Path.names spec = pattern.folders.map Segment.render ++ [last] ∧
        Path.patternStem last = pattern.file.render := by
  rcases (compile_eq_ok_iff spec pattern).mp compiled with
    ⟨parts, last, names, foldersRead, fileRead, _⟩
  rcases Path.isName_of_names names with ⟨isName, isLastName⟩
  have isStemName := Path.isName_patternStem isLastName
  have stem := Segment.render_of_ofFile isStemName.2 fileRead
  rw [Segment.map_render_of_ofFolder isName foldersRead, stem]
  exact ⟨isName, isStemName, last, names, rfl⟩

/-- Only the names count, and of the last one only the stem. -/
theorem compile_of_names {spec other last : Text} {pattern : Pattern} {file : Segment}
    (compiled : compile spec = .ok pattern)
    (names : Path.names other = pattern.folders.map Segment.render ++ [last])
    (fileRead : Segment.ofFile (Path.patternStem last) = .ok file) :
    compile other = .ok ⟨pattern.folders, file⟩ := by
  rcases (compile_eq_ok_iff spec pattern).mp compiled with
    ⟨parts, _, specNames, foldersRead, _, agreeing⟩
  rcases Path.isName_of_names specNames with ⟨isName, _⟩
  rw [Segment.map_render_of_ofFolder isName foldersRead] at names
  exact (compile_eq_ok_iff other ⟨pattern.folders, file⟩).mpr
    ⟨parts, last, names, foldersRead, fileRead, agreeing⟩

theorem ofFile_render {spec : Text} {pattern : Pattern} (compiled : compile spec = .ok pattern) :
    Segment.ofFile pattern.file.render = .ok pattern.file := by
  rcases (compile_eq_ok_iff spec pattern).mp compiled with ⟨parts, last, names, _, fileRead, _⟩
  have isStemName := Path.isName_patternStem (Path.isName_of_names names).2
  rw [Segment.render_of_ofFile isStemName.2 fileRead]
  exact fileRead

theorem ofFolder_render {spec : Text} {pattern : Pattern} (compiled : compile spec = .ok pattern)
    {folder : Segment} (listed : folder ∈ pattern.folders) :
    Segment.ofFolder folder.render = .ok folder := by
  rcases (compile_eq_ok_iff spec pattern).mp compiled with ⟨parts, last, names, foldersRead, _⟩
  rcases exists_mem_of_forall₂ foldersRead listed with ⟨part, member, read⟩
  have isName := (Path.isName_of_names names).1 part member
  rw [Segment.render_of_ofFolder isName.2 read]
  exact read

theorem render_eq (pattern : Pattern) :
    pattern.render =
      ((pattern.folders.map Segment.render).flatMap fun part => part ++ ['/']) ++
        pattern.file.render := by
  rw [render, List.flatMap_map]

/-- The names of a written pattern are the texts of its segments, the last one
with its extension. -/
theorem names_render_append {pattern : Pattern}
    (isName : forall part, part ∈ pattern.folders.map Segment.render -> Path.IsName part)
    (isFileName : Path.IsName pattern.file.render) {tail : Text}
    (plain : forall char, char ∈ tail -> Path.isSeparator char = false) :
    Path.names (pattern.render ++ '.' :: tail) =
      pattern.folders.map Segment.render ++ [pattern.file.render ++ '.' :: tail] := by
  have isLastName : Path.IsName (pattern.file.render ++ '.' :: tail) := by
    refine ⟨List.append_ne_nil_of_left_ne_nil isFileName.1 _, ?_⟩
    refine List.forall_mem_append.mpr ⟨isFileName.2, List.forall_mem_cons.mpr ⟨rfl, plain⟩⟩
  rw [render_eq, List.append_assoc]
  exact Path.names_flatMap_slash isName isLastName

theorem compile_render_append {spec : Text} {pattern : Pattern}
    (compiled : compile spec = .ok pattern) {tail : Text} (undotted : '.' ∉ tail)
    (plain : forall char, char ∈ tail -> Path.isSeparator char = false)
    (isExtension : Path.IsExtension tail) :
    compile (pattern.render ++ '.' :: tail) = .ok pattern := by
  rcases names_of_compile compiled with ⟨isName, isFileName, _⟩
  have names := names_render_append isName isFileName plain
  have stem := Path.patternStem_append isFileName.1 undotted isExtension
  have fileRead : Segment.ofFile (Path.patternStem (pattern.file.render ++ '.' :: tail)) =
      .ok pattern.file := by
    rw [stem]
    exact ofFile_render compiled
  exact compile_of_names compiled names fileRead

/-- The canonical form of a compiled pattern compiles, to the same folders and
to a file without any further extension.  It is the same pattern exactly if the
canonical file text does not end in an extension. -/
theorem compile_render {spec : Text} {pattern : Pattern}
    (compiled : compile spec = .ok pattern) :
    exists file, compile pattern.render = .ok ⟨pattern.folders, file⟩ ∧
      file.render = Path.patternStem pattern.file.render ∧
      (compile pattern.render = .ok pattern <-> ¬ Path.EndsInExtension pattern.file.render) := by
  rcases names_of_compile compiled with ⟨isName, isFileName, _⟩
  have names := Path.names_flatMap_slash isName isFileName
  rw [← render_eq] at names
  rcases Segment.exists_ofFile_patternStem isFileName (ofFile_render compiled) with ⟨file, fileRead⟩
  have recompiled := compile_of_names compiled names fileRead
  have stem := Segment.render_of_ofFile (Path.isName_patternStem isFileName).2 fileRead
  refine ⟨file, recompiled, stem, ?_⟩
  rw [← Path.patternStem_eq_self_iff]
  constructor
  · intro same
    rw [recompiled] at same
    have sameFile : file = pattern.file := congrArg Pattern.file (Except.ok.inj same)
    rw [← stem, sameFile]
  · intro complete
    rw [complete, ofFile_render compiled] at fileRead
    rw [recompiled, ← Except.ok.inj fileRead]

/-- The first extension is gone already, and the next one goes with the second
compilation. -/
theorem compile_render_archive :
    exists pattern file,
      compile "\x7bcreator\x7d/**/\x7btitle\x7d.tar.gz".toList = .ok pattern ∧
      pattern.render = "\x7bcreator\x7d/**/\x7btitle\x7d.tar".toList ∧
      compile pattern.render = .ok ⟨pattern.folders, file⟩ ∧
      file.render = "\x7btitle\x7d".toList ∧ compile pattern.render ≠ .ok pattern := by
  have compiled : compile "\x7bcreator\x7d/**/\x7btitle\x7d.tar.gz".toList =
      .ok ⟨[.slot .creator, .anyFolders], .composite [.slot .title, .literal ".tar".toList]⟩ := by
    decide +kernel
  rcases compile_render compiled with ⟨file, recompiled, stem, exact⟩
  have ends : Path.EndsInExtension "\x7btitle\x7d.tar".toList := by
    decide +kernel
  have shorter : file.render = "\x7btitle\x7d".toList := stem.trans (by decide +kernel)
  exact ⟨_, file, compiled, by decide +kernel, recompiled, shorter, fun same => exact.mp same ends⟩

/-- Compiling the canonical form does not always lead back to the pattern. -/
theorem exists_compile_render_ne :
    exists pattern other, compile "\x7btitle\x7d.tar.gz".toList = .ok pattern ∧
      pattern.render = "\x7btitle\x7d.tar".toList ∧ compile pattern.render = .ok other ∧
      other ≠ pattern :=
  ⟨⟨[], .composite [.slot .title, .literal ".tar".toList]⟩, ⟨[], .slot .title⟩,
    by decide +kernel, by decide +kernel, by decide +kernel, by decide +kernel⟩

/-- With an extension written behind it the canonical form is the pattern again,
so patterns with the same canonical form are equal. -/
theorem compile_render_append_extension {spec : Text} {pattern : Pattern}
    (compiled : compile spec = .ok pattern) :
    (forall tail : Text, '.' ∉ tail ->
      (forall char, char ∈ tail -> Path.isSeparator char = false) -> Path.IsExtension tail ->
      compile (pattern.render ++ '.' :: tail) = .ok pattern) ∧
    forall (otherSpec : Text) (other : Pattern), compile otherSpec = .ok other ->
      other.render = pattern.render -> other = pattern := by
  constructor
  · intro tail undotted plain isExtension
    exact compile_render_append compiled undotted plain isExtension
  · intro otherSpec other otherCompiled same
    have none : Path.IsExtension [] := Or.inr (List.forall_mem_nil _)
    have written := compile_render_append compiled List.not_mem_nil (List.forall_mem_nil _) none
    have otherWritten :=
      compile_render_append otherCompiled List.not_mem_nil (List.forall_mem_nil _) none
    rw [same, written] at otherWritten
    exact (Except.ok.inj otherWritten).symm

/-- Dots and a closing brace of the file text stay where they are. -/
theorem compile_render_append_extension_star :
    exists pattern,
      compile "\\\x7bcreator\x7d//**/Vol. */\x7bartist\x7d\x7d.\x7btitle\x7d.tar.gz".toList =
        .ok pattern ∧
      pattern.render = "\x7bcreator\x7d/**/Vol. */\x7bartist\x7d\x7d.\x7btitle\x7d.tar".toList ∧
      compile (pattern.render ++ ".*".toList) = .ok pattern := by
  have compiled :
      compile "\\\x7bcreator\x7d//**/Vol. */\x7bartist\x7d\x7d.\x7btitle\x7d.tar.gz".toList =
        .ok ⟨[.slot .creator, .anyFolders, .composite [.literal "Vol. ".toList, .wildcard]],
          .composite [.slot .artist, .literal "\x7d.".toList, .slot .title,
            .literal ".tar".toList]⟩ := by
    decide +kernel
  rcases compile_render_append_extension compiled with ⟨exact, _⟩
  have written := exact ['*'] (by decide) (List.forall_mem_singleton.mpr rfl) (by decide)
  exact ⟨_, compiled, by decide +kernel, written⟩

end Pattern
end SongPath
