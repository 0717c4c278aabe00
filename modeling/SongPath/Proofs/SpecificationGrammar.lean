import SongPath.Proofs.PartText

/-!
# The grammar of specifications

Which specifications compile is decided by a cascade of steps with early exits.
Here the accepted ones are described without it.  A part is read from left to
right into lexemes, where a group in braces closes at the next closing brace,
and the rules speak of those lexemes; the rules across folders speak of the
folder parts themselves.  Only the size of composites is left to the compiler's
own measure.
-/

namespace SongPath
namespace Grammar

/-- Where a part stands: the last one is the file, all others are folders. -/
inductive Place where
  | folder
  | file
  deriving DecidableEq, Repr

/-- The lexemes of a part that keeps to the rules.  They are canonical, so every
opening brace is closed and every run of stars is as long as it can be. -/
structure Reading (place : Place) (part : Text) (lexemes : List Lexeme) : Prop where
  written : lexemes.flatMap Lexeme.source = part
  canonical : Lexeme.Canonical lexemes
  named : forall name, .brace name ∈ lexemes ->
    name ∈ ["creator", "identifier", "artist", "title"].map String.toList
  short : forall run, .stars run ∈ lexemes -> run = 1 ∨ run = 2
  whole : .stars 2 ∈ lexemes -> place = .folder ∧ part = ['*', '*']
  untouched : lexemes.IsChain fun first second => ¬ Segment.Touching first second

/-- A part that keeps to the rules of its place. -/
def IsPart (place : Place) (part : Text) : Prop :=
  exists lexemes, Reading place part lexemes

/-- A part that is not too large.  Only composites have a size, and a lone star
is one only as the file. -/
def Fits (place : Place) (part : Text) : Prop :=
  forall pieces, Piece.Normal pieces -> pieces.flatMap Piece.render = part ->
    2 ≤ pieces.length ∨ (place = .file ∧ pieces = [.wildcard]) ->
    Piece.areOversized pieces = false

/-- Neighbours that are not a star and a double star, in either order. -/
def Clear {α : Type} (star doubleStar first second : α) : Prop :=
  ¬ (first = star ∧ second = doubleStar) ∧ ¬ (first = doubleStar ∧ second = star)

/-- At most one double star, and no star directly before or after it. -/
structure Spaced {α : Type} [BEq α] (star doubleStar : α) (items : List α) : Prop where
  single : items.count doubleStar ≤ 1
  apart : items.IsChain (Clear star doubleStar)

/-- A specification that keeps to the rules. -/
def IsSpecification (spec : Text) : Prop :=
  exists folders file, Path.names spec = folders ++ [file] ∧
    (forall folder, folder ∈ folders -> IsPart .folder folder) ∧
    IsPart .file (Path.patternStem file) ∧ Spaced ['*'] ['*', '*'] folders

/-- A specification whose parts are not too large. -/
def AllFit (spec : Text) : Prop :=
  forall folders file, Path.names spec = folders ++ [file] ->
    (forall folder, folder ∈ folders -> Fits .folder folder) ∧
    Fits .file (Path.patternStem file)

/-! ## Parts and pieces -/

/-- A name that stands for a token. -/
def IsTokenName (name : Text) : Prop :=
  name ∈ ["creator", "identifier", "artist", "title"].map String.toList

instance (name : Text) : Decidable (IsTokenName name) :=
  inferInstanceAs (Decidable (name ∈ ["creator", "identifier", "artist", "title"].map String.toList))

theorem isTokenName_iff (name : Text) : IsTokenName name <-> exists token : Token, name = token.name := by
  constructor
  · intro named
    simp only [IsTokenName, List.map_cons, List.map_nil, List.mem_cons, List.not_mem_nil,
      or_false] at named
    rcases named with rfl | rfl | rfl | rfl
    · exact ⟨.creator, rfl⟩
    · exact ⟨.identifier, rfl⟩
    · exact ⟨.artist, rfl⟩
    · exact ⟨.title, rfl⟩
  · rintro ⟨token, rfl⟩
    cases token <;> decide

/-- Lexemes whose groups name tokens have pieces. -/
private theorem exists_resolved {lexemes : List Lexeme}
    (named : forall name, .brace name ∈ lexemes -> exists token : Token, name = token.name) :
    exists pieces, List.Forall₂ (fun lexeme one => Segment.piece lexeme = .ok one) lexemes pieces := by
  induction lexemes with
  | nil => exact ⟨[], .nil⟩
  | cons lexeme lexemes inductionHypothesis =>
      rcases inductionHypothesis fun name listed => named name (List.mem_cons_of_mem _ listed) with
        ⟨pieces, resolved⟩
      cases lexeme with
      | literal text => exact ⟨.literal text :: pieces, .cons rfl resolved⟩
      | stars run => exact ⟨.wildcard :: pieces, .cons rfl resolved⟩
      | brace name =>
          rcases named name List.mem_cons_self with ⟨token, rfl⟩
          refine ⟨.slot token :: pieces, .cons ?_ resolved⟩
          exact (List.forall₂_cons.mp (Segment.resolved_map_lexeme [.slot token])).1

/-- A file part keeps to the rules exactly if pieces in normal form write it. -/
theorem isPart_file_iff {part : Text}
    (plain : forall char, char ∈ part -> Path.isSeparator char = false) :
    IsPart .file part <->
      exists pieces, Piece.Normal pieces ∧ pieces.flatMap Piece.render = part := by
  constructor
  · rintro ⟨lexemes, reading⟩
    have reads := (Lexeme.ofText?_eq_some_iff part lexemes).mpr ⟨reading.written, reading.canonical⟩
    have untouched := Segment.touched?_eq_none reading.untouched
    rcases exists_resolved fun name listed => (isTokenName_iff name).mp (reading.named name listed) with
      ⟨pieces, resolved⟩
    have single : forall run, .stars run ∈ lexemes -> run = 1 := by
      intro run listed
      rcases reading.short run listed with one | two
      · exact one
      · cases (reading.whole (two ▸ listed)).1
    refine ⟨pieces, Segment.normal_of_resolved plain reads untouched resolved, ?_⟩
    rw [← Piece.flatMap_source_lexeme, ← Segment.eq_map_lexeme_of_resolved single resolved]
    exact reading.written
  · rintro ⟨pieces, normal, rfl⟩
    refine ⟨pieces.map Piece.lexeme, Piece.flatMap_source_lexeme pieces, normal.canonical, ?_, ?_, ?_,
      normal.untouched⟩
    · intro name listed
      rcases List.mem_map.mp listed with ⟨piece, _, same⟩
      cases piece with
      | slot token =>
          cases same
          exact (isTokenName_iff token.name).mpr ⟨token, rfl⟩
      | literal text => cases same
      | wildcard => cases same
    · intro run listed
      rcases List.mem_map.mp listed with ⟨piece, _, same⟩
      cases piece <;> cases same
      exact Or.inl rfl
    · intro listed
      rcases List.mem_map.mp listed with ⟨piece, _, same⟩
      cases piece <;> cases same

theorem isPart_folder_iff (part : Text) :
    IsPart .folder part <-> part = ['*', '*'] ∨ IsPart .file part := by
  constructor
  · rintro ⟨lexemes, reading⟩
    by_cases double : part = ['*', '*']
    · exact Or.inl double
    · refine Or.inr ⟨lexemes, { reading with whole := fun listed => ?_ }⟩
      exact absurd (reading.whole listed).2 double
  · rintro (rfl | ⟨lexemes, reading⟩)
    · refine ⟨[.stars 2], rfl, Lexeme.Canonical.nil.cons (Nat.le_succ 1) nofun, ?_, ?_, ?_,
        .singleton _⟩
      · intro name listed
        cases List.mem_singleton.mp listed
      · intro run listed
        cases List.mem_singleton.mp listed
        exact Or.inr rfl
      · exact fun _ => ⟨rfl, rfl⟩
    · refine ⟨lexemes, { reading with whole := fun listed => ?_ }⟩
      cases (reading.whole listed).1

/-- The file part compiles if it keeps to the rules and is not too large. -/
theorem exists_ofFile_iff {part : Text} (isName : Path.IsName part) :
    (exists segment, Segment.ofFile part = .ok segment) <-> IsPart .file part ∧ Fits .file part := by
  have nonempty : forall pieces : List Piece, pieces.flatMap Piece.render = part -> pieces ≠ [] := by
    intro pieces written empty
    rw [empty] at written
    exact isName.1 written.symm
  constructor
  · rintro ⟨segment, read⟩
    rcases (Segment.ofFile_eq_ok_iff isName.2 segment).mp read with ⟨pieces, normal, written, built⟩
    refine ⟨(isPart_file_iff isName.2).mpr ⟨pieces, normal, written⟩, ?_⟩
    intro others otherNormal otherWritten composes
    have same : others = pieces := otherNormal.eq_of_render normal (otherWritten.trans written.symm)
    have fits := (Segment.exists_ofPieces_iff part (nonempty pieces written)).mp ⟨segment, built⟩
    rw [same] at composes ⊢
    exact fits (composes.imp_right And.right)
  · rintro ⟨isPart, fits⟩
    rcases (isPart_file_iff isName.2).mp isPart with ⟨pieces, normal, written⟩
    have small : Segment.Composes pieces -> Piece.areOversized pieces = false := by
      intro composes
      exact fits pieces normal written (composes.imp_right fun lone => ⟨rfl, lone⟩)
    rcases (Segment.exists_ofPieces_iff part (nonempty pieces written)).mpr small with
      ⟨segment, built⟩
    exact ⟨segment, (Segment.ofFile_eq_ok_iff isName.2 segment).mpr
      ⟨pieces, normal, written, built⟩⟩

private theorem not_normal_of_render_doubleStar {pieces : List Piece}
    (written : pieces.flatMap Piece.render = ['*', '*']) : ¬ Piece.Normal pieces := by
  intro normal
  have reads := normal.ofText?_render
  have double : Lexeme.ofText? ['*', '*'] = some [.stars 2] := by rfl
  rw [written, double] at reads
  have same : [Lexeme.stars 2] = pieces.map Piece.lexeme := Option.some.inj reads
  rcases List.map_eq_singleton_iff.mp same.symm with ⟨piece, _, two⟩
  cases piece <;> cases two

/-- Apart from `**`, a part keeps to the rules of either place or of none. -/
theorem isPart_iff_of_ne (place : Place) {part : Text} (notDouble : part ≠ ['*', '*']) :
    IsPart place part <-> IsPart .file part := by
  cases place with
  | folder => exact (isPart_folder_iff part).trans (or_iff_right notDouble)
  | file => exact Iff.rfl

/-- The place does not count for the size, since a lone star is never too large. -/
theorem fits_iff (place : Place) (part : Text) : Fits place part <-> Fits .file part := by
  constructor
  · intro fits pieces normal written composes
    rcases composes with several | ⟨_, rfl⟩
    · exact fits pieces normal written (Or.inl several)
    · rfl
  · intro fits pieces normal written composes
    exact fits pieces normal written (composes.imp_right fun lone => ⟨rfl, lone.2⟩)

/-- A folder part compiles under the same conditions. -/
theorem exists_ofFolder_iff {part : Text} (isName : Path.IsName part) :
    (exists segment, Segment.ofFolder part = .ok segment) <->
      IsPart .folder part ∧ Fits .folder part := by
  by_cases double : part = ['*', '*']
  · subst double
    have fits : Fits .folder ['*', '*'] := by
      intro pieces normal written
      exact absurd normal (not_normal_of_render_doubleStar written)
    have isPart : IsPart .folder ['*', '*'] := (isPart_folder_iff _).mpr (Or.inl rfl)
    exact ⟨fun _ => ⟨isPart, fits⟩, fun _ => ⟨.anyFolders, rfl⟩⟩
  · rw [isPart_iff_of_ne .folder double, fits_iff .folder, ← exists_ofFile_iff isName]
    by_cases star : part = ['*']
    · subst star
      exact ⟨fun _ => ⟨.composite [.wildcard], rfl⟩, fun _ => ⟨.anyFolder, rfl⟩⟩
    · rw [Segment.ofFolder_of_ne star double]

/-! ## Rules across folders -/

private theorem isChain_of_not_mem {α : Type} {star doubleStar : α} {items : List α}
    (absent : doubleStar ∉ items) : items.IsChain (Clear star doubleStar) := by
  induction items with
  | nil => exact .nil
  | cons first items inductionHypothesis =>
      have notFirst : first ≠ doubleStar := (List.ne_of_not_mem_cons absent).symm
      have notLater : doubleStar ∉ items := List.not_mem_of_not_mem_cons absent
      refine List.isChain_cons.mpr ⟨fun second head => ?_, inductionHypothesis notLater⟩
      have notSecond : second ≠ doubleStar := by
        intro same
        exact notLater (same ▸ List.mem_of_mem_head? head)
      exact ⟨fun same => notSecond same.2, fun same => notFirst same.1⟩

/-- Around its one `**`, spaced folders are the agreeing ones. -/
theorem agreeingFolders_iff (folders : List Segment) :
    Pattern.AgreeingFolders folders <-> Spaced .anyFolder .anyFolders folders := by
  constructor
  · intro agreeing
    rcases agreeing with absent |
      ⟨left, right, rfl, absentLeft, absentRight, apartLeft, apartRight⟩
    · have none : folders.count .anyFolders = 0 := List.count_eq_zero.mpr absent
      exact ⟨by omega, isChain_of_not_mem absent⟩
    · have noneLeft : left.count .anyFolders = 0 := List.count_eq_zero.mpr absentLeft
      have noneRight : right.count .anyFolders = 0 := List.count_eq_zero.mpr absentRight
      constructor
      · rw [List.count_append, List.count_cons_self]
        omega
      · refine List.isChain_append.mpr ⟨isChain_of_not_mem absentLeft, ?_, ?_⟩
        · refine List.isChain_cons.mpr ⟨fun second head => ?_, isChain_of_not_mem absentRight⟩
          refine ⟨fun same => (by cases same.1), fun same => apartRight ?_⟩
          rw [← same.2]
          exact head
        · intro first last second head
          cases head
          refine ⟨fun same => apartLeft ?_, fun same => (by cases same.2)⟩
          rw [← same.1]
          exact last
  · intro spaced
    by_cases listed : Segment.anyFolders ∈ folders
    · rcases List.eq_append_cons_of_mem listed with ⟨left, right, rfl, absentLeft⟩
      have single := spaced.single
      have noneLeft : left.count .anyFolders = 0 := List.count_eq_zero.mpr absentLeft
      rw [List.count_append, List.count_cons_self] at single
      have noneRight : right.count .anyFolders = 0 := by omega
      rcases List.isChain_append.mp spaced.apart with ⟨_, behind, between⟩
      refine Or.inr ⟨left, right, rfl, absentLeft, List.count_eq_zero.mp noneRight, ?_, ?_⟩
      · intro last
        exact (between .anyFolder last .anyFolders rfl).1 ⟨rfl, rfl⟩
      · intro head
        exact ((List.isChain_cons.mp behind).1 .anyFolder head).2 ⟨rfl, rfl⟩
    · exact Or.inl listed

/-- Folder parts and the segments that they compile to keep the same rules. -/
theorem spaced_iff_agreeing {parts : List Text} {folders : List Segment}
    (isName : forall part, part ∈ parts -> Path.IsName part)
    (read : List.Forall₂ (fun part folder => Segment.ofFolder part = .ok folder) parts folders) :
    Spaced ['*'] ['*', '*'] parts <-> Pattern.AgreeingFolders folders := by
  have written := Segment.map_render_of_ofFolder isName read
  have sameCount : (folders.map Segment.render).count ['*', '*'] = folders.count .anyFolders := by
    rw [List.count, List.countP_map]
    apply List.countP_congr
    intro folder listed
    simp only [Function.comp_apply, beq_iff_eq,
      (Segment.render_eq_wildcard_iff isName read listed).2]
  have sameApart : (folders.map Segment.render).IsChain (Clear ['*'] ['*', '*']) <->
      folders.IsChain (Clear .anyFolder .anyFolders) := by
    rw [List.isChain_map]
    apply List.IsChain.iff_of_mem_imp
    intro first second firstListed secondListed
    rcases Segment.render_eq_wildcard_iff isName read firstListed with ⟨firstStar, firstDouble⟩
    rcases Segment.render_eq_wildcard_iff isName read secondListed with ⟨secondStar, secondDouble⟩
    rw [Clear, Clear, firstStar, firstDouble, secondStar, secondDouble]
  rw [agreeingFolders_iff, ← written]
  constructor
  · intro spaced
    exact ⟨sameCount ▸ spaced.single, sameApart.mp spaced.apart⟩
  · intro spaced
    exact ⟨sameCount.symm ▸ spaced.single, sameApart.mpr spaced.apart⟩

end Grammar

namespace Pattern

/-- A specification compiles exactly if it keeps to the rules and its composites
are not too large. -/
theorem exists_compile_iff (spec : Text) :
    (exists pattern, compile spec = .ok pattern) <->
      Grammar.IsSpecification spec ∧ Grammar.AllFit spec := by
  constructor
  · rintro ⟨pattern, compiled⟩
    rcases (compile_eq_ok_iff spec pattern).mp compiled with
      ⟨parts, last, names, foldersRead, fileRead, agreeing⟩
    have isName := Path.isName_of_names names
    have foldersSound : forall part, part ∈ parts ->
        Grammar.IsPart .folder part ∧ Grammar.Fits .folder part := by
      intro part listed
      rcases exists_of_mem_forall₂ foldersRead listed with ⟨folder, _, built⟩
      exact (Grammar.exists_ofFolder_iff (isName.1 part listed)).mp ⟨folder, built⟩
    have fileSound := (Grammar.exists_ofFile_iff (Path.isName_patternStem isName.2)).mp
      ⟨pattern.file, fileRead⟩
    have spaced := (Grammar.spaced_iff_agreeing isName.1 foldersRead).mpr agreeing
    constructor
    · exact ⟨parts, last, names, fun part listed => (foldersSound part listed).1, fileSound.1, spaced⟩
    · intro others otherLast otherNames
      rcases List.append_inj' (names.symm.trans otherNames) rfl with ⟨rfl, sameLast⟩
      cases sameLast
      exact ⟨fun part listed => (foldersSound part listed).2, fileSound.2⟩
  · rintro ⟨⟨parts, last, names, folderParts, filePart, spaced⟩, allFit⟩
    have isName := Path.isName_of_names names
    rcases allFit parts last names with ⟨foldersFit, fileFits⟩
    have foldersRead : exists folders, List.Forall₂
        (fun part folder => Segment.ofFolder part = .ok folder) parts folders := by
      apply exists_forall₂_of_forall
      intro part listed
      exact (Grammar.exists_ofFolder_iff (isName.1 part listed)).mpr
        ⟨folderParts part listed, foldersFit part listed⟩
    rcases foldersRead with ⟨folders, foldersRead⟩
    rcases (Grammar.exists_ofFile_iff (Path.isName_patternStem isName.2)).mpr ⟨filePart, fileFits⟩
      with ⟨file, fileRead⟩
    have agreeing := (Grammar.spaced_iff_agreeing isName.1 foldersRead).mp spaced
    exact ⟨⟨folders, file⟩, (compile_eq_ok_iff spec ⟨folders, file⟩).mpr
      ⟨parts, last, names, foldersRead, fileRead, agreeing⟩⟩

end Pattern
end SongPath
