import SongPath.Proofs.CanonicalLexemes
import SongPath.Proofs.Compilation
import SongPath.Proofs.PathNames

/-!
# The normal form of compiled segments

What later stages may rely on is spread over the compiler: names are not empty
and have no separators, reading merges neighbours, and the checks of a part
refuse overlong runs, misplaced `**` and stars beside braces.  Here the pieces
of a segment are followed through all of them.
-/

namespace SongPath

/-- Literal text of a compiled part. -/
def IsPlainLiteral (text : Text) : Prop :=
  text ≠ [] ∧ forall char, char ∈ text ->
    char ≠ '{' ∧ char ≠ '*' ∧ Path.isSeparator char = false

namespace Piece

/-- A piece of a compiled part. -/
def IsSound : Piece -> Prop
  | .literal text => IsPlainLiteral text
  | _ => True

/-- Pieces that may stand side by side: a wildcard only beside a literal, and a
literal not beside a literal. -/
def MayPrecede : Piece -> Piece -> Prop
  | .literal _, .literal _ => False
  | .wildcard, .wildcard => False
  | .wildcard, .slot _ => False
  | .slot _, .wildcard => False
  | _, _ => True

/-- The pieces of a compiled part. -/
structure Normal (pieces : List Piece) : Prop where
  sound : forall piece, piece ∈ pieces -> piece.IsSound
  ordered : pieces.IsChain MayPrecede

theorem Normal.nil : Normal [] :=
  ⟨List.forall_mem_nil _, .nil⟩

theorem Normal.cons {piece : Piece} {pieces : List Piece} (isSound : piece.IsSound)
    (ordered : forall next, next ∈ pieces.head? -> piece.MayPrecede next)
    (normal : Normal pieces) : Normal (piece :: pieces) :=
  ⟨List.forall_mem_cons.mpr ⟨isSound, normal.sound⟩,
    List.isChain_cons.mpr ⟨ordered, normal.ordered⟩⟩

end Piece

namespace Segment

/-! ## Lexemes that pass the checks -/

/-- A run of stars beside a group in braces. -/
def Touching : Lexeme -> Lexeme -> Prop
  | .stars _, .brace _ => True
  | .brace _, .stars _ => True
  | _, _ => False

private theorem untouched_cons_cons {first second : Lexeme} {rest : List Lexeme}
    (untouched : touched? (first :: second :: rest) = none) :
    ¬ Touching first second ∧ touched? (second :: rest) = none := by
  cases first with
  | literal text => exact ⟨id, untouched⟩
  | stars run =>
      cases second with
      | literal text => exact ⟨id, untouched⟩
      | stars other => exact ⟨id, untouched⟩
      | brace name => cases untouched
  | brace name =>
      cases second with
      | literal text => exact ⟨id, untouched⟩
      | stars run => cases untouched
      | brace other => exact ⟨id, untouched⟩

/-- Neighbours in a part that passes the checks. -/
theorem isChain_of_untouched {lexemes : List Lexeme} (apart : lexemes.IsChain Lexeme.Apart)
    (untouched : touched? lexemes = none) :
    lexemes.IsChain fun first second => Lexeme.Apart first second ∧ ¬ Touching first second := by
  induction lexemes with
  | nil => exact .nil
  | cons first rest inductionHypothesis =>
      rcases List.isChain_cons.mp apart with ⟨beside, behind⟩
      cases rest with
      | nil => exact .singleton first
      | cons second rest =>
          rcases untouched_cons_cons untouched with ⟨free, later⟩
          exact List.isChain_cons_cons.mpr
            ⟨⟨beside second rfl, free⟩, inductionHypothesis behind later⟩

theorem longRun?_eq_none_iff (lexemes : List Lexeme) :
    longRun? lexemes = none <-> forall run, .stars run ∈ lexemes -> run ≤ 2 := by
  rw [longRun?, List.findSome?_eq_none_iff]
  constructor
  · intro short run listed
    have checked : (if 3 ≤ run then some run else none) = none := short (.stars run) listed
    refine Nat.le_of_not_lt fun long => ?_
    rw [if_pos (Nat.succ_le_of_lt long)] at checked
    cases checked
  · intro short lexeme listed
    cases lexeme with
    | stars run => exact if_neg (Nat.not_le_of_lt (Nat.lt_succ_of_le (short run listed)))
    | literal text => rfl
    | brace name => rfl

/-- What `Segment.lexemes` lets through is canonical and has short runs only. -/
theorem lexemes_eq_ok {raw : Text} {found : List Lexeme} (reads : lexemes raw = .ok found) :
    Lexeme.ofText? raw = some found ∧ forall run, .stars run ∈ found -> run ≤ 2 := by
  unfold lexemes at reads
  cases read : Lexeme.ofText? raw with
  | none =>
      rw [read] at reads
      cases reads
  | some listed =>
      cases short : longRun? listed with
      | some run =>
          simp only [read, short] at reads
          cases reads
      | none =>
          simp only [read, short] at reads
          cases reads
          exact ⟨rfl, (longRun?_eq_none_iff found).mp short⟩

theorem piece_eq_ok {lexeme : Lexeme} {found : Piece} (resolves : piece lexeme = .ok found) :
    (exists text, lexeme = .literal text ∧ found = .literal text) ∨
      (exists run, lexeme = .stars run ∧ found = .wildcard) ∨
      exists token, lexeme = .brace token.name ∧ found = .slot token := by
  cases lexeme with
  | literal text =>
      cases resolves
      exact Or.inl ⟨text, rfl, rfl⟩
  | stars run =>
      cases resolves
      exact Or.inr (Or.inl ⟨run, rfl, rfl⟩)
  | brace name =>
      rw [piece] at resolves
      cases named : Token.ofName? name with
      | none =>
          rw [named] at resolves
          cases resolves
      | some token =>
          rw [named] at resolves
          cases resolves
          have same := List.find?_some named
          exact Or.inr (Or.inr ⟨token, by rw [beq_iff_eq.mp same], rfl⟩)

/-! ## Pieces of a part -/

/-- A relation of neighbours carries over from lexemes to their pieces. -/
private theorem isChain_of_forall₂ {before : Lexeme -> Lexeme -> Prop}
    {after : Piece -> Piece -> Prop}
    (carries : forall first second one other, piece first = .ok one -> piece second = .ok other ->
      before first second -> after one other)
    {lexemes : List Lexeme} {pieces : List Piece}
    (resolved : List.Forall₂ (fun lexeme found => piece lexeme = .ok found) lexemes pieces)
    (ordered : lexemes.IsChain before) : pieces.IsChain after := by
  induction resolved with
  | nil => exact .nil
  | @cons first one lexemes pieces here later inductionHypothesis =>
      rcases List.isChain_cons.mp ordered with ⟨beside, behind⟩
      refine List.isChain_cons.mpr ⟨?_, inductionHypothesis behind⟩
      intro other head
      cases later with
      | nil => cases head
      | @cons second found _ _ next _ =>
          cases head
          exact carries first second one _ here next (beside second rfl)

private theorem mayPrecede_of_separate (first second : Lexeme) (one other : Piece)
    (here : piece first = .ok one) (next : piece second = .ok other)
    (separate : Lexeme.Apart first second ∧ ¬ Touching first second) :
    one.MayPrecede other := by
  rcases separate with ⟨apart, untouched⟩
  rcases piece_eq_ok here with ⟨_, rfl, rfl⟩ | ⟨_, rfl, rfl⟩ | ⟨_, rfl, rfl⟩
  · rcases piece_eq_ok next with ⟨_, rfl, rfl⟩ | ⟨_, rfl, rfl⟩ | ⟨_, rfl, rfl⟩
    · exact apart
    · trivial
    · trivial
  · rcases piece_eq_ok next with ⟨_, rfl, rfl⟩ | ⟨_, rfl, rfl⟩ | ⟨_, rfl, rfl⟩
    · trivial
    · exact apart
    · exact untouched trivial
  · rcases piece_eq_ok next with ⟨_, rfl, rfl⟩ | ⟨_, rfl, rfl⟩ | ⟨_, rfl, rfl⟩
    · trivial
    · exact untouched trivial
    · trivial

theorem normal_of_resolved {raw : Text}
    (plain : forall char, char ∈ raw -> Path.isSeparator char = false) {found : List Lexeme}
    (reads : Lexeme.ofText? raw = some found) (untouched : touched? found = none)
    {pieces : List Piece}
    (resolved : List.Forall₂ (fun lexeme found => piece lexeme = .ok found) found pieces) :
    Piece.Normal pieces := by
  have canonical := Lexeme.canonical_ofText? raw found reads
  constructor
  · intro one listed
    rcases exists_mem_of_forall₂ resolved listed with ⟨lexeme, member, resolves⟩
    rcases piece_eq_ok resolves with ⟨text, rfl, rfl⟩ | ⟨_, _, rfl⟩ | ⟨_, _, rfl⟩
    · rcases canonical.sound _ member with ⟨nonempty, noBrace, noRun⟩
      refine ⟨nonempty, fun char inner => ⟨?_, ?_, ?_⟩⟩
      · rintro rfl
        exact noBrace inner
      · rintro rfl
        exact noRun inner
      · exact plain char (Lexeme.mem_of_mem_literal reads member inner)
    · trivial
    · trivial
  · exact isChain_of_forall₂ mayPrecede_of_separate resolved
      (isChain_of_untouched canonical.apart untouched)

/-! ## Segments of a specification -/

/-- A compiled segment: its literal text is plain, its pieces are in normal
form, and a composite is neither a lone literal nor a lone token. -/
def IsNormal : Segment -> Prop
  | .literal text => IsPlainLiteral text
  | .slot _ => True
  | .anyFolder => True
  | .anyFolders => True
  | .composite pieces => Piece.Normal pieces ∧ (2 ≤ pieces.length ∨ pieces = [.wildcard])

private theorem isNormal_of_ofPieces {raw : Text} {pieces : List Piece} {segment : Segment}
    (normal : Piece.Normal pieces) (nonempty : pieces ≠ [])
    (built : ofPieces raw pieces = .ok segment) :
    segment.IsNormal ∧ segment ≠ .anyFolder ∧ segment ≠ .anyFolders ∧
      (segment = .composite [.wildcard] -> pieces = [.wildcard]) := by
  unfold ofPieces at built
  split at built
  · next text =>
      cases built
      exact ⟨normal.sound _ List.mem_cons_self, Segment.noConfusion, Segment.noConfusion,
        fun same => by cases same⟩
  · cases built
    exact ⟨trivial, Segment.noConfusion, Segment.noConfusion, fun same => by cases same⟩
  · next noLiteral noSlot =>
      split at built
      · cases built
      · cases built
        refine ⟨⟨normal, ?_⟩, Segment.noConfusion, Segment.noConfusion,
          fun same => Segment.composite.inj same⟩
        cases pieces with
        | nil => exact absurd rfl nonempty
        | cons piece pieces =>
            cases pieces with
            | cons second pieces =>
                have several : 2 ≤ (piece :: second :: pieces).length := Nat.le_add_left 2 _
                exact Or.inl several
            | nil =>
                cases piece with
                | literal text => exact absurd rfl (noLiteral text)
                | slot token => exact absurd rfl (noSlot token)
                | wildcard => exact Or.inr rfl

/-- Lexemes that are no whole-folder wildcard pass every check and resolve to
the pieces of the segment. -/
theorem ofLexemes_eq_ok_iff (raw : Text) (found : List Lexeme) (segment : Segment) :
    ofLexemes raw found = .ok segment <->
      .stars 2 ∉ found ∧ touched? found = none ∧
        exists pieces, List.Forall₂ (fun lexeme one => piece lexeme = .ok one) found pieces ∧
          ofPieces raw pieces = .ok segment := by
  unfold ofLexemes
  by_cases double : .stars 2 ∈ found
  · rw [if_pos (List.contains_iff_mem.mpr double)]
    constructor
    · intro built
      cases built
    · rintro ⟨absent, _⟩
      exact absurd double absent
  · rw [if_neg fun listed => double (List.contains_iff_mem.mp listed)]
    cases untouched : touched? found with
    | some name =>
        constructor
        · intro built
          cases built
        · rintro ⟨_, none, _⟩
          cases none
    | none =>
        cases mapped : found.mapM piece with
        | error name =>
            constructor
            · intro built
              cases built
            · rintro ⟨_, _, pieces, resolved, _⟩
              rw [(mapM_eq_ok_iff _ _ _).mpr resolved] at mapped
              cases mapped
        | ok pieces =>
            have resolved := (mapM_eq_ok_iff _ _ _).mp mapped
            constructor
            · intro built
              exact ⟨double, rfl, pieces, resolved, built⟩
            · rintro ⟨_, _, others, alike, built⟩
              have same := (mapM_eq_ok_iff _ _ _).mpr alike
              rw [mapped] at same
              cases same
              exact built

/-- Runs of stars that pass the checks are single stars. -/
theorem run_eq_one {raw : Text} {found : List Lexeme} (reads : Lexeme.ofText? raw = some found)
    (short : forall run, .stars run ∈ found -> run ≤ 2) (notDouble : .stars 2 ∉ found) {run : Nat}
    (listed : .stars run ∈ found) : run = 1 := by
  have bound := short run listed
  have sound : 1 ≤ run := (Lexeme.canonical_ofText? raw _ reads).sound _ listed
  have notTwo : run ≠ 2 := by
    rintro rfl
    exact notDouble listed
  omega

/-- A lone wildcard was written as a single star. -/
private theorem eq_star_of_wildcard {raw : Text} {found : List Lexeme}
    (reads : Lexeme.ofText? raw = some found) (short : forall run, .stars run ∈ found -> run ≤ 2)
    (notDouble : .stars 2 ∉ found)
    (resolved : List.Forall₂ (fun lexeme found => piece lexeme = .ok found) found [.wildcard]) :
    found = [.stars 1] := by
  cases resolved with
  | cons here later =>
      cases later
      rcases piece_eq_ok here with ⟨_, _, same⟩ | ⟨run, rfl, _⟩ | ⟨_, _, same⟩
      · cases same
      · rw [run_eq_one reads short notDouble List.mem_cons_self]
      · cases same

private theorem isNormal_of_ofLexemes {raw : Text} (isName : Path.IsName raw) {found : List Lexeme}
    (reads : Lexeme.ofText? raw = some found) (short : forall run, .stars run ∈ found -> run ≤ 2)
    {segment : Segment} (built : ofLexemes raw found = .ok segment) :
    segment.IsNormal ∧ segment ≠ .anyFolder ∧ segment ≠ .anyFolders ∧
      (segment = .composite [.wildcard] -> found = [.stars 1]) := by
  rcases (ofLexemes_eq_ok_iff raw found segment).mp built with
    ⟨noDouble, untouched, pieces, resolved, built⟩
  have normal := normal_of_resolved isName.2 reads untouched resolved
  have nonempty : pieces ≠ [] := by
    rintro rfl
    cases resolved
    exact Lexeme.ne_nil_of_ofText? isName.1 reads rfl
  rcases isNormal_of_ofPieces normal nonempty built with ⟨isNormal, notAny, notAnyFolders, lone⟩
  refine ⟨isNormal, notAny, notAnyFolders, ?_⟩
  intro same
  rw [lone same] at resolved
  exact eq_star_of_wildcard reads short noDouble resolved

/-- A folder segment; a lone wildcard stands for a whole folder there. -/
theorem isNormal_of_ofFolder {raw : Text} (isName : Path.IsName raw) {segment : Segment}
    (built : ofFolder raw = .ok segment) :
    segment.IsNormal ∧ segment ≠ .composite [.wildcard] := by
  rcases (bind_eq_ok_iff _ _ _).mp built with ⟨found, reads, built⟩
  rcases lexemes_eq_ok reads with ⟨reads, short⟩
  split at built
  · next whole =>
      cases built
      unfold wholeWildcard? at whole
      split at whole
      · cases whole
        exact ⟨trivial, Segment.noConfusion⟩
      · cases whole
        exact ⟨trivial, Segment.noConfusion⟩
      · cases whole
  · next notWhole =>
      rcases isNormal_of_ofLexemes isName reads short built with ⟨isNormal, _, _, lone⟩
      refine ⟨isNormal, fun same => ?_⟩
      rw [lone same] at notWhole
      cases notWhole

theorem isNormal_of_ofFile {raw : Text} (isName : Path.IsName raw) {segment : Segment}
    (built : ofFile raw = .ok segment) :
    segment.IsNormal ∧ segment ≠ .anyFolder ∧ segment ≠ .anyFolders := by
  rcases (bind_eq_ok_iff _ _ _).mp built with ⟨found, reads, built⟩
  rcases lexemes_eq_ok reads with ⟨reads, short⟩
  rcases isNormal_of_ofLexemes isName reads short built with ⟨isNormal, notAny, notAnyFolders, _⟩
  exact ⟨isNormal, notAny, notAnyFolders⟩

end Segment

namespace Pattern

/-- A compiled pattern.  Only folders stand for whole folders, and a lone star
is a composite only as the file. -/
structure IsNormal (pattern : Pattern) : Prop where
  folders : forall segment, segment ∈ pattern.folders ->
    segment.IsNormal ∧ segment ≠ .composite [.wildcard]
  agreeing : AgreeingFolders pattern.folders
  file : pattern.file.IsNormal
  file_ne_anyFolder : pattern.file ≠ .anyFolder
  file_ne_anyFolders : pattern.file ≠ .anyFolders

theorem isNormal_of_compile {spec : Text} {pattern : Pattern}
    (compiled : compile spec = .ok pattern) : pattern.IsNormal := by
  rcases (compile_eq_ok_iff spec pattern).mp compiled with
    ⟨raws, last, names, foldersRead, fileRead, agreeing⟩
  rcases Path.isName_of_names names with ⟨isName, isLastName⟩
  have file := Segment.isNormal_of_ofFile (Path.isName_patternStem isLastName) fileRead
  refine ⟨fun segment listed => ?_, agreeing, file.1, file.2.1, file.2.2⟩
  rcases exists_mem_of_forall₂ foldersRead listed with ⟨raw, member, built⟩
  exact Segment.isNormal_of_ofFolder (isName raw member) built

end Pattern
end SongPath
