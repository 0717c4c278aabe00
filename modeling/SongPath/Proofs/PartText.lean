import SongPath.Proofs.NormalForm
import SongPath.Proofs.Tokenization

/-!
# The text of a part

Pieces in normal form are read back from their text, so reading a part and
writing a segment are inverse to each other: a part is the file segment of the
one list of normal pieces that writes it, if there is such a list.  A folder is
read in the same way, except that `*` and `**` stand for whole folders.
-/

namespace SongPath
namespace Piece

/-- The lexeme that a piece was read from. -/
def lexeme : Piece -> Lexeme
  | .literal text => .literal text
  | .slot token => .brace token.name
  | .wildcard => .stars 1

@[simp]
theorem source_lexeme (piece : Piece) : piece.lexeme.source = piece.render := by
  cases piece <;> rfl

theorem flatMap_source_lexeme (pieces : List Piece) :
    (pieces.map lexeme).flatMap Lexeme.source = pieces.flatMap render := by
  rw [List.flatMap_map]
  exact List.flatMap_congr fun piece _ => source_lexeme piece

private theorem closing_not_mem_name (token : Token) : '}' ∉ token.name := by
  cases token <;> decide

private theorem isSound_lexeme {piece : Piece} (isSound : piece.IsSound) :
    piece.lexeme.IsSound := by
  cases piece with
  | literal text =>
      refine ⟨isSound.1, fun opens => ?_, fun star => ?_⟩
      · exact (isSound.2 _ opens).1 rfl
      · exact (isSound.2 _ star).2.1 rfl
  | slot token => exact closing_not_mem_name token
  | wildcard => exact Nat.le_refl 1

private theorem apart_lexeme {first second : Piece} (mayPrecede : first.MayPrecede second) :
    Lexeme.Apart first.lexeme second.lexeme ∧
      ¬ Segment.Touching first.lexeme second.lexeme := by
  cases first <;> cases second <;>
    first
      | exact mayPrecede.elim
      | exact ⟨trivial, id⟩

theorem Normal.canonical {pieces : List Piece} (normal : Normal pieces) :
    Lexeme.Canonical (pieces.map lexeme) := by
  constructor
  · intro lexeme listed
    rcases List.mem_map.mp listed with ⟨piece, member, rfl⟩
    exact isSound_lexeme (normal.sound piece member)
  · exact List.isChain_map_of_isChain lexeme (fun _ _ ordered => (apart_lexeme ordered).1)
      normal.ordered

theorem Normal.untouched {pieces : List Piece} (normal : Normal pieces) :
    (pieces.map lexeme).IsChain fun first second => ¬ Segment.Touching first second :=
  List.isChain_map_of_isChain lexeme (fun _ _ ordered => (apart_lexeme ordered).2) normal.ordered

/-- Pieces in normal form are read back from their text. -/
theorem Normal.ofText?_render {pieces : List Piece} (normal : Normal pieces) :
    Lexeme.ofText? (pieces.flatMap render) = some (pieces.map lexeme) := by
  rw [← flatMap_source_lexeme]
  exact Lexeme.ofText?_flatMap_source normal.canonical

theorem lexeme_injective : Function.Injective lexeme := by
  intro first second same
  cases first with
  | literal text =>
      cases second with
      | literal other =>
          cases same
          rfl
      | slot token => cases same
      | wildcard => cases same
  | slot token =>
      cases second with
      | literal other => cases same
      | slot other =>
          have names : token.name = other.name := Lexeme.brace.inj same
          have tokens := congrArg Token.ofName? names
          rw [Token.ofName?_name, Token.ofName?_name] at tokens
          rw [Option.some.inj tokens]
      | wildcard => cases same
  | wildcard =>
      cases second with
      | literal other => cases same
      | slot other => cases same
      | wildcard => rfl

/-- Different pieces in normal form write different texts. -/
theorem Normal.eq_of_render {pieces others : List Piece} (normal : Normal pieces)
    (otherNormal : Normal others) (same : pieces.flatMap render = others.flatMap render) :
    pieces = others := by
  have reads := normal.ofText?_render
  rw [same, otherNormal.ofText?_render] at reads
  exact (List.map_injective_iff.mpr lexeme_injective (Option.some.inj reads)).symm

end Piece

namespace Segment

/-! ## The checks on lexemes of pieces -/

theorem touched?_eq_none {lexemes : List Lexeme}
    (untouched : lexemes.IsChain fun first second => ¬ Touching first second) :
    touched? lexemes = none := by
  induction lexemes with
  | nil => rfl
  | cons first rest inductionHypothesis =>
      rcases List.isChain_cons.mp untouched with ⟨beside, behind⟩
      have later := inductionHypothesis behind
      cases rest with
      | nil => cases first <;> rfl
      | cons second rest =>
          have free := beside second rfl
          cases first <;> cases second <;>
            first
              | exact later
              | exact absurd trivial free

theorem resolved_map_lexeme (pieces : List Piece) :
    List.Forall₂ (fun lexeme one => piece lexeme = .ok one) (pieces.map Piece.lexeme) pieces := by
  rw [List.forall₂_map_left_iff, List.forall₂_same]
  intro one _
  cases one with
  | literal text => rfl
  | slot token => simp only [Piece.lexeme, piece, Token.ofName?_name]
  | wildcard => rfl

/-- Single stars are all that a piece does not remember of its lexeme. -/
theorem eq_map_lexeme_of_resolved {lexemes : List Lexeme} {pieces : List Piece}
    (single : forall run, .stars run ∈ lexemes -> run = 1)
    (resolved : List.Forall₂ (fun lexeme one => piece lexeme = .ok one) lexemes pieces) :
    lexemes = pieces.map Piece.lexeme := by
  induction resolved with
  | nil => rfl
  | cons here _ inductionHypothesis =>
      have later := inductionHypothesis fun run listed =>
        single run (List.mem_cons_of_mem _ listed)
      rw [List.map_cons, ← later]
      rcases piece_eq_ok here with ⟨text, rfl, rfl⟩ | ⟨run, rfl, rfl⟩ | ⟨token, rfl, rfl⟩
      · rfl
      · rw [single run List.mem_cons_self]
        rfl
      · rfl

theorem lexemes_render {pieces : List Piece} (normal : Piece.Normal pieces) :
    lexemes (pieces.flatMap Piece.render) = .ok (pieces.map Piece.lexeme) := by
  have short : longRun? (pieces.map Piece.lexeme) = none := by
    apply List.findSome?_eq_none_iff.mpr
    intro lexeme listed
    rcases List.mem_map.mp listed with ⟨piece, _, rfl⟩
    cases piece <;> rfl
  rw [lexemes, normal.ofText?_render]
  simp only [short]

/-! ## Segments of pieces -/

theorem render_of_ofPieces {raw : Text} {pieces : List Piece} {segment : Segment}
    (built : ofPieces raw pieces = .ok segment) :
    segment.render = pieces.flatMap Piece.render := by
  unfold ofPieces at built
  split at built
  · cases built
    simp only [List.flatMap_singleton, render, Piece.render]
  · cases built
    simp only [List.flatMap_singleton, render, Piece.render]
  · split at built
    · cases built
    · cases built
      rfl

/-- Pieces that form a composite.  A lone star is one, but only in a file. -/
def Composes (pieces : List Piece) : Prop :=
  2 ≤ pieces.length ∨ pieces = [.wildcard]

theorem not_composes_singleton {piece : Piece} (other : piece ≠ .wildcard) :
    ¬ Composes [piece] := by
  intro composes
  rcases composes with several | lone
  · exact absurd several (Nat.not_succ_le_self 1)
  · exact other (List.head_eq_of_cons_eq lone)

theorem ofPieces_of_composes (raw : Text) {pieces : List Piece} (composes : Composes pieces)
    (small : Piece.areOversized pieces = false) : ofPieces raw pieces = .ok (.composite pieces) := by
  unfold ofPieces
  split
  · exact absurd composes (not_composes_singleton Piece.noConfusion)
  · exact absurd composes (not_composes_singleton Piece.noConfusion)
  · rw [small]
    rfl

/-- Only composites can be too large. -/
theorem exists_ofPieces_iff (raw : Text) {pieces : List Piece} (nonempty : pieces ≠ []) :
    (exists segment, ofPieces raw pieces = .ok segment) <->
      (Composes pieces -> Piece.areOversized pieces = false) := by
  unfold ofPieces
  split
  · next text =>
      have lone : ¬ Composes [.literal text] := not_composes_singleton Piece.noConfusion
      exact ⟨fun _ composes => absurd composes lone, fun _ => ⟨_, rfl⟩⟩
  · next token =>
      have lone : ¬ Composes [.slot token] := not_composes_singleton Piece.noConfusion
      exact ⟨fun _ composes => absurd composes lone, fun _ => ⟨_, rfl⟩⟩
  · next noLiteral noSlot =>
      have composes : Composes pieces := by
        rcases pieces with _ | ⟨piece, _ | ⟨second, rest⟩⟩
        · exact absurd rfl nonempty
        · cases piece with
          | literal text => exact absurd rfl (noLiteral text)
          | slot token => exact absurd rfl (noSlot token)
          | wildcard => exact Or.inr rfl
        · exact Or.inl (Nat.le_add_left 2 _)
      cases oversized : Piece.areOversized pieces with
      | true =>
          constructor
          · rintro ⟨_, built⟩
            cases built
          · intro fits
            cases fits composes
      | false => exact ⟨fun _ _ => rfl, fun _ => ⟨_, rfl⟩⟩

/-! ## Reading a part as a file -/

/-- A part without separators is a file segment exactly if pieces in normal form
write it and are not too large. -/
theorem ofFile_eq_ok_iff {raw : Text}
    (plain : forall char, char ∈ raw -> Path.isSeparator char = false) (segment : Segment) :
    ofFile raw = .ok segment <->
      exists pieces, Piece.Normal pieces ∧ pieces.flatMap Piece.render = raw ∧
        ofPieces raw pieces = .ok segment := by
  constructor
  · intro read
    rcases (bind_eq_ok_iff _ _ _).mp read with ⟨found, reads, built⟩
    rcases Segment.lexemes_eq_ok reads with ⟨reads, short⟩
    rcases (ofLexemes_eq_ok_iff raw found segment).mp built with
      ⟨notDouble, untouched, pieces, resolved, built⟩
    have normal := normal_of_resolved plain reads untouched resolved
    have single : forall run, Lexeme.stars run ∈ found -> run = 1 := by
      intro run listed
      exact run_eq_one reads short notDouble listed
    refine ⟨pieces, normal, ?_, built⟩
    rw [← Piece.flatMap_source_lexeme, ← eq_map_lexeme_of_resolved single resolved]
    exact Lexeme.source_ofText? raw found reads
  · rintro ⟨pieces, normal, rfl, built⟩
    have notDouble : Lexeme.stars 2 ∉ pieces.map Piece.lexeme := by
      intro listed
      rcases List.mem_map.mp listed with ⟨piece, _, same⟩
      cases piece <;> cases same
    have passed := (ofLexemes_eq_ok_iff (pieces.flatMap Piece.render) _ segment).mpr
      ⟨notDouble, touched?_eq_none normal.untouched, pieces, resolved_map_lexeme pieces, built⟩
    exact (bind_eq_ok_iff _ _ _).mpr ⟨_, lexemes_render normal, passed⟩

theorem render_of_ofFile {raw : Text}
    (plain : forall char, char ∈ raw -> Path.isSeparator char = false) {segment : Segment}
    (read : ofFile raw = .ok segment) : segment.render = raw := by
  rcases (ofFile_eq_ok_iff plain segment).mp read with ⟨pieces, _, written, built⟩
  exact (render_of_ofPieces built).trans written

/-! ## Reading a part as a folder -/

/-- Whether a part stands for whole folders can be seen from its text. -/
theorem ofFolder_of_ne {raw : Text} (notStar : raw ≠ ['*']) (notDouble : raw ≠ ['*', '*']) :
    ofFolder raw = ofFile raw := by
  unfold ofFolder ofFile
  cases read : lexemes raw with
  | error defect => rfl
  | ok found =>
      have written := Lexeme.source_ofText? raw found (lexemes_eq_ok read).1
      have notWhole : wholeWildcard? found = none := by
        unfold wholeWildcard?
        split
        · exact absurd written.symm notStar
        · exact absurd written.symm notDouble
        · rfl
      simp only [bind, Except.bind, notWhole]

theorem ofFolder_eq_ok_iff (raw : Text) (segment : Segment) :
    ofFolder raw = .ok segment <->
      (raw = ['*'] ∧ segment = .anyFolder) ∨ (raw = ['*', '*'] ∧ segment = .anyFolders) ∨
        (raw ≠ ['*'] ∧ ofFile raw = .ok segment) := by
  have star : ofFolder ['*'] = .ok .anyFolder := by rfl
  have double : ofFolder ['*', '*'] = .ok .anyFolders := by rfl
  have mixed : ofFile ['*', '*'] = .error (.mixedDoubleStar ['*', '*']) := by rfl
  constructor
  · intro read
    by_cases isStar : raw = ['*']
    · rw [isStar, star] at read
      cases read
      exact Or.inl ⟨isStar, rfl⟩
    · by_cases isDouble : raw = ['*', '*']
      · rw [isDouble, double] at read
        cases read
        exact Or.inr (Or.inl ⟨isDouble, rfl⟩)
      · rw [ofFolder_of_ne isStar isDouble] at read
        exact Or.inr (Or.inr ⟨isStar, read⟩)
  · rintro (⟨rfl, rfl⟩ | ⟨rfl, rfl⟩ | ⟨notStar, read⟩)
    · exact star
    · exact double
    · have notDouble : raw ≠ ['*', '*'] := by
        rintro rfl
        rw [mixed] at read
        cases read
      rw [ofFolder_of_ne notStar notDouble]
      exact read

theorem render_of_ofFolder {raw : Text}
    (plain : forall char, char ∈ raw -> Path.isSeparator char = false) {segment : Segment}
    (read : ofFolder raw = .ok segment) : segment.render = raw := by
  rcases (ofFolder_eq_ok_iff raw segment).mp read with ⟨rfl, rfl⟩ | ⟨rfl, rfl⟩ | ⟨_, read⟩
  · rfl
  · rfl
  · exact render_of_ofFile plain read

/-- The wildcards for whole folders are known by their text. -/
theorem wholeFolder_iff {raw : Text} (isName : Path.IsName raw) {segment : Segment}
    (read : ofFolder raw = .ok segment) :
    (raw = ['*'] <-> segment = .anyFolder) ∧ (raw = ['*', '*'] <-> segment = .anyFolders) := by
  rcases (ofFolder_eq_ok_iff raw segment).mp read with
    ⟨rfl, rfl⟩ | ⟨rfl, rfl⟩ | ⟨notStar, readAsFile⟩
  · exact ⟨iff_of_true rfl rfl, iff_of_false (by decide) Segment.noConfusion⟩
  · exact ⟨iff_of_false (by decide) Segment.noConfusion, iff_of_true rfl rfl⟩
  · rcases isNormal_of_ofFile isName readAsFile with ⟨_, notAny, notAnyFolders⟩
    have notDouble : raw ≠ ['*', '*'] := by
      rintro rfl
      cases readAsFile
    exact ⟨iff_of_false notStar notAny, iff_of_false notDouble notAnyFolders⟩

/-- The segments of folders show in their text whether they stand for whole
folders. -/
theorem render_eq_wildcard_iff {raws : List Text} {segments : List Segment}
    (isName : forall raw, raw ∈ raws -> Path.IsName raw)
    (read : List.Forall₂ (fun raw segment => ofFolder raw = .ok segment) raws segments)
    {segment : Segment} (listed : segment ∈ segments) :
    (segment.render = ['*'] <-> segment = .anyFolder) ∧
      (segment.render = ['*', '*'] <-> segment = .anyFolders) := by
  rcases exists_mem_of_forall₂ read listed with ⟨raw, member, built⟩
  rw [render_of_ofFolder (isName raw member).2 built]
  exact wholeFolder_iff (isName raw member) built

theorem map_render_of_ofFolder {raws : List Text} {segments : List Segment}
    (isName : forall raw, raw ∈ raws -> Path.IsName raw)
    (read : List.Forall₂ (fun raw segment => ofFolder raw = .ok segment) raws segments) :
    segments.map render = raws := by
  induction read with
  | nil => rfl
  | cons here _ inductionHypothesis =>
      rcases List.forall_mem_cons.mp isName with ⟨isFirst, others⟩
      rw [List.map_cons, render_of_ofFolder isFirst.2 here, inductionHypothesis others]

end Segment
end SongPath
