import SongPath.Proofs.CanonicalForm
import SongPath.Proofs.SpecificationGrammar

/-!
# Which patterns are compiled

The later stages of the program take more patterns than the compiler ever makes.
Those that it makes are described here by what can be seen in them: which
wildcards stand where, what literal text holds, which pieces are neighbours and
how many there are.  The description is complete.  A pattern that fits it, and
whose composites are not too large, is compiled from its own text.
-/

namespace SongPath

theorem isPlainLiteral_iff (text : Text) :
    IsPlainLiteral text <-> text ≠ [] ∧ '{' ∉ text ∧ '*' ∉ text ∧ '/' ∉ text ∧ '\\' ∉ text := by
  constructor
  · rintro ⟨nonempty, plain⟩
    refine ⟨nonempty, fun listed => (plain _ listed).1 rfl, fun listed => (plain _ listed).2.1 rfl,
      fun listed => ?_, fun listed => ?_⟩
    · cases (plain _ listed).2.2
    · cases (plain _ listed).2.2
  · rintro ⟨nonempty, noBrace, noStar, noSlash, noBackslash⟩
    refine ⟨nonempty, fun char listed => ⟨?_, ?_, ?_⟩⟩
    · rintro rfl
      exact noBrace listed
    · rintro rfl
      exact noStar listed
    · rw [Path.isSeparator, Bool.or_eq_false_iff, beq_eq_false_iff_ne, beq_eq_false_iff_ne]
      constructor
      · rintro rfl
        exact noSlash listed
      · rintro rfl
        exact noBackslash listed

namespace Piece

/-- The text of a literal piece. -/
def literal? : Piece -> Option Text
  | .literal text => some text
  | _ => none

/-- The text of a sound piece can be part of a name. -/
theorem isName_render {piece : Piece} (isSound : piece.IsSound) : Path.IsName piece.render := by
  cases piece with
  | literal text => exact ⟨isSound.1, fun char listed => (isSound.2 char listed).2.2⟩
  | slot token => cases token <;> decide
  | wildcard => decide

theorem isName_flatMap_render {pieces : List Piece} (nonempty : pieces ≠ [])
    (sound : forall piece, piece ∈ pieces -> piece.IsSound) :
    Path.IsName (pieces.flatMap render) := by
  constructor
  · cases pieces with
    | nil => exact absurd rfl nonempty
    | cons piece pieces =>
        have written := isName_render (sound piece List.mem_cons_self)
        exact List.append_ne_nil_of_left_ne_nil written.1 _
  · intro char listed
    rcases List.mem_flatMap.mp listed with ⟨piece, member, inner⟩
    exact (isName_render (sound piece member)).2 char inner

end Piece

namespace Segment

/-- The literal texts of a segment, whether it is one itself or has literal
pieces. -/
def literals : Segment -> List Text
  | .literal text => [text]
  | .composite pieces => pieces.filterMap Piece.literal?
  | _ => []

/-- The segment is not too large. -/
def IsSmall (segment : Segment) : Prop :=
  forall pieces, segment = .composite pieces -> Piece.areOversized pieces = false

theorem isNormal_iff (segment : Segment) :
    segment.IsNormal <->
      (forall text, text ∈ segment.literals -> IsPlainLiteral text) ∧
        forall pieces, segment = .composite pieces ->
          pieces.IsChain Piece.MayPrecede ∧ Composes pieces := by
  cases segment with
  | literal text => exact ⟨fun normal => ⟨List.forall_mem_singleton.mpr normal, nofun⟩,
      fun both => both.1 text List.mem_cons_self⟩
  | slot token => exact ⟨fun _ => ⟨List.forall_mem_nil _, nofun⟩, fun _ => trivial⟩
  | anyFolder => exact ⟨fun _ => ⟨List.forall_mem_nil _, nofun⟩, fun _ => trivial⟩
  | anyFolders => exact ⟨fun _ => ⟨List.forall_mem_nil _, nofun⟩, fun _ => trivial⟩
  | composite pieces =>
      constructor
      · rintro ⟨normal, composes⟩
        constructor
        · intro text listed
          rcases List.mem_filterMap.mp listed with ⟨piece, member, isLiteral⟩
          cases piece with
          | literal other =>
              cases isLiteral
              exact normal.sound _ member
          | slot token => cases isLiteral
          | wildcard => cases isLiteral
        · intro others same
          cases same
          exact ⟨normal.ordered, composes⟩
      · rintro ⟨plain, composed⟩
        rcases composed pieces rfl with ⟨ordered, composes⟩
        refine ⟨⟨fun piece member => ?_, ordered⟩, composes⟩
        cases piece with
        | literal text => exact plain text (List.mem_filterMap.mpr ⟨_, member, rfl⟩)
        | slot token => trivial
        | wildcard => trivial

theorem isSmall_of_ofPieces {raw : Text} {pieces : List Piece} {segment : Segment}
    (built : ofPieces raw pieces = .ok segment) : segment.IsSmall := by
  rintro others rfl
  unfold ofPieces at built
  split at built
  · cases built
  · cases built
  · split at built
    · cases built
    · next small =>
        cases built
        exact Bool.eq_false_iff.mpr small

theorem isSmall_of_ofFile {raw : Text} (isName : Path.IsName raw) {segment : Segment}
    (read : ofFile raw = .ok segment) : segment.IsSmall := by
  rcases (ofFile_eq_ok_iff isName.2 segment).mp read with ⟨pieces, _, _, built⟩
  exact isSmall_of_ofPieces built

theorem isSmall_of_ofFolder {raw : Text} (isName : Path.IsName raw) {segment : Segment}
    (read : ofFolder raw = .ok segment) : segment.IsSmall := by
  rcases (ofFolder_eq_ok_iff raw segment).mp read with ⟨_, rfl⟩ | ⟨_, rfl⟩ | ⟨_, readAsFile⟩
  · nofun
  · nofun
  · exact isSmall_of_ofFile isName readAsFile

/-- A segment in normal form is made up of pieces in normal form that write it. -/
theorem IsNormal.exists_pieces {segment : Segment} (normal : segment.IsNormal)
    (small : segment.IsSmall) (notAny : segment ≠ .anyFolder) (notAnyFolders : segment ≠ .anyFolders)
    (raw : Text) :
    exists pieces, pieces ≠ [] ∧ Piece.Normal pieces ∧
      pieces.flatMap Piece.render = segment.render ∧ ofPieces raw pieces = .ok segment := by
  cases segment with
  | literal text =>
      exact ⟨[.literal text], List.cons_ne_nil _ _, Piece.Normal.nil.cons normal nofun,
        List.flatMap_singleton _ _, rfl⟩
  | slot token =>
      exact ⟨[.slot token], List.cons_ne_nil _ _, Piece.Normal.nil.cons trivial nofun,
        List.flatMap_singleton _ _, rfl⟩
  | anyFolder => exact absurd rfl notAny
  | anyFolders => exact absurd rfl notAnyFolders
  | composite pieces =>
      refine ⟨pieces, ?_, normal.1, rfl, ofPieces_of_composes raw normal.2 (small pieces rfl)⟩
      rintro rfl
      rcases normal.2 with several | lone
      · cases several
      · cases lone

theorem isName_render_of_isNormal {segment : Segment} (normal : segment.IsNormal)
    (small : segment.IsSmall) : Path.IsName segment.render := by
  by_cases any : segment = .anyFolder
  · subst any
    decide
  · by_cases anyFolders : segment = .anyFolders
    · subst anyFolders
      decide
    · rcases normal.exists_pieces small any anyFolders [] with ⟨pieces, nonempty, piecesNormal, written, _⟩
      rw [← written]
      exact Piece.isName_flatMap_render nonempty piecesNormal.sound

/-- A segment in normal form is read back from its text as a file. -/
theorem ofFile_render_of_isNormal {segment : Segment} (normal : segment.IsNormal)
    (small : segment.IsSmall) (notAny : segment ≠ .anyFolder)
    (notAnyFolders : segment ≠ .anyFolders) : ofFile segment.render = .ok segment := by
  rcases normal.exists_pieces small notAny notAnyFolders segment.render with
    ⟨pieces, _, piecesNormal, written, built⟩
  exact (ofFile_eq_ok_iff (isName_render_of_isNormal normal small).2 segment).mpr
    ⟨pieces, piecesNormal, written, built⟩

/-- A segment in normal form is read back from its text as a folder. -/
theorem ofFolder_render_of_isNormal {segment : Segment} (normal : segment.IsNormal)
    (small : segment.IsSmall) (notLone : segment ≠ .composite [.wildcard]) :
    ofFolder segment.render = .ok segment := by
  by_cases any : segment = .anyFolder
  · subst any
    rfl
  · by_cases anyFolders : segment = .anyFolders
    · subst anyFolders
      rfl
    · have read := ofFile_render_of_isNormal normal small any anyFolders
      refine (ofFolder_eq_ok_iff segment.render segment).mpr (Or.inr (Or.inr ⟨fun star => ?_, read⟩))
      rw [star] at read
      cases read
      exact notLone rfl

end Segment

namespace Pattern

/-- What can be seen in every compiled pattern. -/
structure NormalForm (pattern : Pattern) : Prop where
  spaced : Grammar.Spaced .anyFolder .anyFolders pattern.folders
  fileKind : pattern.file ≠ .anyFolder ∧ pattern.file ≠ .anyFolders
  literal : forall segment, segment ∈ pattern.segments -> forall text, text ∈ segment.literals ->
    text ≠ [] ∧ '{' ∉ text ∧ '*' ∉ text ∧ '/' ∉ text ∧ '\\' ∉ text
  neighbours : forall pieces, .composite pieces ∈ pattern.segments ->
    pieces.IsChain Piece.MayPrecede
  folderPieces : forall pieces, .composite pieces ∈ pattern.folders -> 2 ≤ pieces.length
  filePieces : forall pieces, pattern.file = .composite pieces ->
    2 ≤ pieces.length ∨ pieces = [.wildcard]

theorem normalForm_iff (pattern : Pattern) : pattern.NormalForm <-> pattern.IsNormal := by
  have inFolders {segment : Segment} (listed : segment ∈ pattern.folders) :
      segment ∈ pattern.segments := List.mem_append_left _ listed
  have isLast : pattern.file ∈ pattern.segments := List.mem_append_right _ List.mem_cons_self
  constructor
  · intro normal
    have plain {segment : Segment} (listed : segment ∈ pattern.segments) (text : Text)
        (inside : text ∈ segment.literals) : IsPlainLiteral text :=
      (isPlainLiteral_iff text).mpr (normal.literal segment listed text inside)
    refine ⟨fun segment listed => ⟨?_, ?_⟩, (Grammar.agreeingFolders_iff _).mpr normal.spaced, ?_,
      normal.fileKind.1, normal.fileKind.2⟩
    · refine (Segment.isNormal_iff segment).mpr ⟨plain (inFolders listed), ?_⟩
      rintro pieces rfl
      exact ⟨normal.neighbours pieces (inFolders listed), Or.inl (normal.folderPieces pieces listed)⟩
    · rintro rfl
      exact absurd (normal.folderPieces _ listed) (Nat.not_succ_le_self 1)
    · refine (Segment.isNormal_iff pattern.file).mpr ⟨plain isLast, fun pieces same => ?_⟩
      exact ⟨normal.neighbours pieces (same ▸ isLast), normal.filePieces pieces same⟩
  · intro normal
    have each : forall segment, segment ∈ pattern.segments -> segment.IsNormal :=
      List.forall_mem_append.mpr ⟨fun segment listed => (normal.folders segment listed).1,
        List.forall_mem_singleton.mpr normal.file⟩
    constructor
    · exact (Grammar.agreeingFolders_iff _).mp normal.agreeing
    · exact ⟨normal.file_ne_anyFolder, normal.file_ne_anyFolders⟩
    · intro segment listed text inside
      exact (isPlainLiteral_iff text).mp
        (((Segment.isNormal_iff segment).mp (each segment listed)).1 text inside)
    · intro pieces listed
      exact (((Segment.isNormal_iff _).mp (each _ listed)).2 pieces rfl).1
    · intro pieces listed
      rcases normal.folders _ listed with ⟨isNormal, notLone⟩
      rcases isNormal.2 with several | rfl
      · exact several
      · exact absurd rfl notLone
    · intro pieces same
      exact (((Segment.isNormal_iff _).mp normal.file).2 pieces same).2

/-- A pattern in normal form is compiled from its own text.  The dot keeps the
rest of the file text from being taken for an extension. -/
theorem compile_render_of_isNormal {pattern : Pattern} (normal : pattern.IsNormal)
    (small : forall segment, segment ∈ pattern.segments -> segment.IsSmall) :
    compile (pattern.render ++ ['.']) = .ok pattern := by
  rcases List.forall_mem_append.mp small with ⟨smallFolders, smallFile⟩
  have fileSmall := List.forall_mem_singleton.mp smallFile
  have isFolderName : forall part, part ∈ pattern.folders.map Segment.render -> Path.IsName part := by
    intro part listed
    rcases List.mem_map.mp listed with ⟨folder, member, rfl⟩
    exact Segment.isName_render_of_isNormal (normal.folders folder member).1 (smallFolders folder member)
  have isFileName := Segment.isName_render_of_isNormal normal.file fileSmall
  have names := names_render_append isFolderName isFileName (List.forall_mem_nil _)
  refine (compile_eq_ok_iff _ pattern).mpr ⟨_, _, names, ?_, ?_, normal.agreeing⟩
  · rw [List.forall₂_map_left_iff, List.forall₂_same]
    intro folder listed
    exact Segment.ofFolder_render_of_isNormal (normal.folders folder listed).1
      (smallFolders folder listed) (normal.folders folder listed).2
  · have none : Path.IsExtension [] := Or.inr (List.forall_mem_nil _)
    rw [Path.patternStem_append isFileName.1 List.not_mem_nil none]
    exact Segment.ofFile_render_of_isNormal normal.file fileSmall normal.file_ne_anyFolder
      normal.file_ne_anyFolders

theorem isSmall_of_compile {spec : Text} {pattern : Pattern} (compiled : compile spec = .ok pattern) :
    forall segment, segment ∈ pattern.segments -> segment.IsSmall := by
  rcases (compile_eq_ok_iff spec pattern).mp compiled with
    ⟨parts, last, names, foldersRead, fileRead, _⟩
  rcases Path.isName_of_names names with ⟨isName, isLastName⟩
  refine List.forall_mem_append.mpr ⟨fun folder listed => ?_, List.forall_mem_singleton.mpr ?_⟩
  · rcases exists_mem_of_forall₂ foldersRead listed with ⟨part, member, read⟩
    exact Segment.isSmall_of_ofFolder (isName part member) read
  · exact Segment.isSmall_of_ofFile (Path.isName_patternStem isLastName) fileRead

/-- The compiled patterns are those in normal form whose composites are not too
large. -/
theorem exists_spec_iff_normalForm (pattern : Pattern) :
    (exists spec, compile spec = .ok pattern) <->
      pattern.NormalForm ∧ forall segment, segment ∈ pattern.segments -> segment.IsSmall := by
  constructor
  · rintro ⟨spec, compiled⟩
    exact ⟨(normalForm_iff pattern).mpr (isNormal_of_compile compiled), isSmall_of_compile compiled⟩
  · rintro ⟨normal, small⟩
    exact ⟨_, compile_render_of_isNormal ((normalForm_iff pattern).mp normal) small⟩

end Pattern
end SongPath
