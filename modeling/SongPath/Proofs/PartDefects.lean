import SongPath.Proofs.SpecificationGrammar

/-!
# The defect of a part

A part can break many rules at once, and the compiler reports one of them.  Which
one is said here without the cascade of checks: kinds of defects have an order,
and within a kind the first place counts.  Only a part that keeps to every rule
can be refused for its size.
-/

namespace SongPath
namespace Grammar

/-- The lexemes of a part, whatever rules they break. -/
structure IsReading (part : Text) (lexemes : List Lexeme) : Prop where
  written : lexemes.flatMap Lexeme.source = part
  canonical : Lexeme.Canonical lexemes

/-- No run of stars is longer than two. -/
def ShortRuns (lexemes : List Lexeme) : Prop :=
  forall run, .stars run ∈ lexemes -> run ≤ 2

/-- A `**` is a whole folder. -/
def WholeDoubleStar (place : Place) (part : Text) (lexemes : List Lexeme) : Prop :=
  .stars 2 ∈ lexemes -> place = .folder ∧ part = ['*', '*']

/-- No star stands beside a group in braces. -/
def Untouched (lexemes : List Lexeme) : Prop :=
  lexemes.IsChain fun first second => ¬ Segment.Touching first second

/-- A run of stars and the group with the given name, in either order. -/
def Touches (name : Text) : Lexeme -> Lexeme -> Prop
  | .stars _, .brace touched => touched = name
  | .brace touched, .stars _ => touched = name
  | _, _ => False

/-- The defect for which a part is refused.  Each kind is reported only if none of
the kinds above it occurs, and at its first place. -/
inductive FirstDefect (place : Place) (part : Text) : Defect -> Prop
  | unclosed (unclosed : Lexeme.Unclosed part) : FirstDefect place part (.unclosedToken part)
  | longRun {before after : List Lexeme} {run : Nat}
      (reading : IsReading part (before ++ .stars run :: after)) (long : 3 ≤ run)
      (earlier : ShortRuns before) : FirstDefect place part (.longStarRun part run)
  | mixed {lexemes : List Lexeme} (reading : IsReading part lexemes) (short : ShortRuns lexemes)
      (inner : ¬ WholeDoubleStar place part lexemes) :
      FirstDefect place part (.mixedDoubleStar part)
  | touched {before after : List Lexeme} {first second : Lexeme} {name : Text}
      (reading : IsReading part (before ++ first :: second :: after))
      (short : ShortRuns (before ++ first :: second :: after))
      (whole : WholeDoubleStar place part (before ++ first :: second :: after))
      (touches : Touches name first second) (earlier : Untouched (before ++ [first])) :
      FirstDefect place part (.starTouchesToken part name)
  | unknown {before after : List Lexeme} {name : Text}
      (reading : IsReading part (before ++ .brace name :: after))
      (short : ShortRuns (before ++ .brace name :: after))
      (whole : WholeDoubleStar place part (before ++ .brace name :: after))
      (untouched : Untouched (before ++ .brace name :: after)) (unknown : ¬ IsTokenName name)
      (earlier : forall other, .brace other ∈ before -> IsTokenName other) :
      FirstDefect place part (.unknownToken part name)
  | oversized (isPart : IsPart place part) (large : ¬ Fits place part) :
      FirstDefect place part (.oversizedSegment part)

theorem isReading_iff (part : Text) (lexemes : List Lexeme) :
    IsReading part lexemes <-> Lexeme.ofText? part = some lexemes := by
  rw [Lexeme.ofText?_eq_some_iff]
  exact ⟨fun reading => ⟨reading.written, reading.canonical⟩, fun both => ⟨both.1, both.2⟩⟩

/-- In a file no `**` is a whole folder. -/
theorem WholeDoubleStar.absent {part : Text} {lexemes : List Lexeme}
    (whole : WholeDoubleStar .file part lexemes) : .stars 2 ∉ lexemes :=
  fun listed => Place.noConfusion (whole listed).1

theorem wholeDoubleStar_iff_of_ne (place : Place) {part : Text} (notDouble : part ≠ ['*', '*'])
    (lexemes : List Lexeme) : WholeDoubleStar place part lexemes <-> .stars 2 ∉ lexemes :=
  ⟨fun whole listed => notDouble (whole listed).2, fun absent listed => absurd listed absent⟩

/-- Apart from `**`, a part has the same first defect in either place. -/
theorem FirstDefect.of_ne {part : Text} (notDouble : part ≠ ['*', '*']) {place : Place}
    {defect : Defect} (first : FirstDefect place part defect) (other : Place) :
    FirstDefect other part defect := by
  have sameWhole (lexemes : List Lexeme) :
      WholeDoubleStar place part lexemes <-> WholeDoubleStar other part lexemes := by
    rw [wholeDoubleStar_iff_of_ne place notDouble, wholeDoubleStar_iff_of_ne other notDouble]
  cases first with
  | unclosed unclosed => exact .unclosed unclosed
  | longRun reading long earlier => exact .longRun reading long earlier
  | mixed reading short inner => exact .mixed reading short (inner ∘ (sameWhole _).mpr)
  | touched reading short whole touches earlier =>
      exact .touched reading short ((sameWhole _).mp whole) touches earlier
  | unknown reading short whole untouched unknown earlier =>
      exact .unknown reading short ((sameWhole _).mp whole) untouched unknown earlier
  | oversized isPart large =>
      rw [isPart_iff_of_ne place notDouble] at isPart
      rw [fits_iff place] at large
      refine .oversized ((isPart_iff_of_ne other notDouble).mpr isPart) ?_
      rw [fits_iff other]
      exact large

/-- A part that breaks no rule keeps to all of them. -/
theorem IsReading.keeps {place : Place} {part : Text} {lexemes : List Lexeme}
    (isReading : IsReading part lexemes) (short : ShortRuns lexemes)
    (whole : WholeDoubleStar place part lexemes) (untouched : Untouched lexemes)
    (named : forall name, .brace name ∈ lexemes -> IsTokenName name) :
    Reading place part lexemes where
  written := isReading.written
  canonical := isReading.canonical
  named := named
  short := by
    intro run listed
    have bound := short run listed
    have sound : 1 ≤ run := isReading.canonical.sound _ listed
    omega
  whole := whole
  untouched := untouched

end Grammar

namespace Segment

open Grammar

/-! ## The first place of each kind -/

theorem longRun?_eq_some_iff (lexemes : List Lexeme) (run : Nat) :
    longRun? lexemes = some run <->
      exists before after, lexemes = before ++ .stars run :: after ∧ 3 ≤ run ∧
        ShortRuns before := by
  rw [longRun?, List.findSome?_eq_some_iff]
  constructor
  · rintro ⟨before, lexeme, after, split, found, earlier⟩
    have short := (longRun?_eq_none_iff before).mp (List.findSome?_eq_none_iff.mpr earlier)
    cases lexeme with
    | literal text => cases found
    | brace name => cases found
    | stars other =>
        rcases Option.ite_none_right_eq_some.mp found with ⟨long, same⟩
        cases same
        exact ⟨before, after, split, long, short⟩
  · rintro ⟨before, after, split, long, short⟩
    have earlier := List.findSome?_eq_none_iff.mp ((longRun?_eq_none_iff before).mpr short)
    exact ⟨before, .stars run, after, split, if_pos long, earlier⟩

theorem touching_iff_exists_touches (first second : Lexeme) :
    Touching first second <-> exists name, Touches name first second := by
  cases first <;> cases second <;> simp [Touching, Touches]

theorem touched?_of_touches {name : Text} {first second : Lexeme} (touches : Touches name first second)
    (rest : List Lexeme) : touched? (first :: second :: rest) = some name := by
  cases first with
  | literal text => cases touches
  | stars run =>
      cases second with
      | literal text => cases touches
      | stars other => cases touches
      | brace touched => exact congrArg some touches
  | brace touched =>
      cases second with
      | literal text => cases touches
      | stars run => exact congrArg some touches
      | brace other => cases touches

theorem touched?_of_not_touching {first second : Lexeme} (free : ¬ Touching first second)
    (rest : List Lexeme) : touched? (first :: second :: rest) = touched? (second :: rest) := by
  cases first <;> cases second <;>
    first
      | rfl
      | exact absurd trivial free

theorem touched?_append {before : List Lexeme} {first : Lexeme} (earlier : Untouched (before ++ [first]))
    (rest : List Lexeme) : touched? (before ++ first :: rest) = touched? (first :: rest) := by
  induction before with
  | nil => rfl
  | cons other before inductionHypothesis =>
      rcases List.isChain_cons.mp earlier with ⟨beside, behind⟩
      rw [← inductionHypothesis behind]
      cases before with
      | nil => exact touched?_of_not_touching (beside first rfl) rest
      | cons next before => exact touched?_of_not_touching (beside next rfl) _

/-- The first place where a star touches a group is found. -/
theorem touched?_append_of_touches {before : List Lexeme} {first second : Lexeme} {name : Text}
    (earlier : Untouched (before ++ [first])) (touches : Touches name first second)
    (after : List Lexeme) : touched? (before ++ first :: second :: after) = some name := by
  rw [touched?_append earlier, touched?_of_touches touches]

theorem piece_of_unknown {name : Text} (unknown : ¬ IsTokenName name) :
    piece (.brace name) = .error name := by
  rw [piece]
  cases found : Token.ofName? name with
  | none => rfl
  | some token =>
      have checked := List.find?_some found
      have same : token.name = name := beq_iff_eq.mp checked
      exact absurd ((isTokenName_iff name).mpr ⟨token, same.symm⟩) unknown

/-- Only a group in braces can fail to be a piece. -/
theorem exists_piece_iff (lexeme : Lexeme) :
    (exists one, piece lexeme = .ok one) <->
      forall name, lexeme = .brace name -> IsTokenName name := by
  constructor
  · rintro ⟨one, resolved⟩ name rfl
    by_contra unknown
    rw [piece_of_unknown unknown] at resolved
    cases resolved
  · intro named
    cases lexeme with
    | literal text => exact ⟨.literal text, rfl⟩
    | stars run => exact ⟨.wildcard, rfl⟩
    | brace name =>
        rcases (isTokenName_iff name).mp (named name rfl) with ⟨token, rfl⟩
        refine ⟨.slot token, ?_⟩
        rw [piece, Token.ofName?_name]

theorem forall_exists_piece_iff (lexemes : List Lexeme) :
    (forall lexeme, lexeme ∈ lexemes -> exists one, piece lexeme = .ok one) <->
      forall name, .brace name ∈ lexemes -> IsTokenName name := by
  constructor
  · intro resolved name listed
    exact (exists_piece_iff (.brace name)).mp (resolved _ listed) name rfl
  · intro named lexeme listed
    refine (exists_piece_iff lexeme).mpr ?_
    rintro name rfl
    exact named name listed

theorem exists_mapM_piece_iff (lexemes : List Lexeme) :
    (exists pieces, lexemes.mapM piece = .ok pieces) <->
      forall name, .brace name ∈ lexemes -> IsTokenName name := by
  rw [← forall_exists_piece_iff]
  constructor
  · rintro ⟨pieces, resolved⟩ lexeme listed
    rcases exists_of_mem_forall₂ ((mapM_eq_ok_iff _ _ _).mp resolved) listed with ⟨one, _, here⟩
    exact ⟨one, here⟩
  · intro each
    rcases exists_forall₂_of_forall each with ⟨pieces, resolved⟩
    exact ⟨pieces, (mapM_eq_ok_iff _ _ _).mpr resolved⟩

/-- The first unknown name is the one that is reported. -/
theorem mapM_piece_eq_error_iff (lexemes : List Lexeme) (name : Text) :
    lexemes.mapM piece = .error name <->
      exists before after, lexemes = before ++ .brace name :: after ∧ ¬ IsTokenName name ∧
        forall other, .brace other ∈ before -> IsTokenName other := by
  rw [mapM_eq_error_iff]
  constructor
  · rintro ⟨before, lexeme, after, split, earlier, fails⟩
    cases lexeme with
    | literal text => cases fails
    | stars run => cases fails
    | brace other =>
        have unknown : ¬ IsTokenName other := by
          intro named
          rcases (isTokenName_iff other).mp named with ⟨token, rfl⟩
          rw [piece, Token.ofName?_name] at fails
          cases fails
        rw [piece_of_unknown unknown] at fails
        cases fails
        exact ⟨before, after, split, unknown, (forall_exists_piece_iff before).mp earlier⟩
  · rintro ⟨before, after, split, unknown, named⟩
    exact ⟨before, _, after, split, (forall_exists_piece_iff before).mpr named,
      piece_of_unknown unknown⟩

/-! ## The checks one by one -/

theorem ofFile_of_unclosed {part : Text} (unclosed : Lexeme.Unclosed part) :
    ofFile part = .error (.unclosedToken part) := by
  rw [ofFile, lexemes, (Lexeme.ofText?_eq_none_iff part).mpr unclosed]
  rfl

theorem ofFile_of_longRun {part : Text} {found : List Lexeme} (reading : IsReading part found)
    {run : Nat} (long : longRun? found = some run) :
    ofFile part = .error (.longStarRun part run) := by
  rw [ofFile, lexemes, (isReading_iff part found).mp reading]
  simp only [long]
  rfl

theorem ofFile_of_short {part : Text} {found : List Lexeme} (reading : IsReading part found)
    (short : ShortRuns found) : ofFile part = ofLexemes part found := by
  rw [ofFile, lexemes, (isReading_iff part found).mp reading]
  simp only [(longRun?_eq_none_iff found).mpr short]
  rfl

variable {raw : Text} {found : List Lexeme}

theorem ofLexemes_of_double (double : .stars 2 ∈ found) :
    ofLexemes raw found = .error (.mixedDoubleStar raw) := by
  rw [ofLexemes, if_pos (List.contains_iff_mem.mpr double)]

theorem ofLexemes_of_touched (single : .stars 2 ∉ found) {name : Text}
    (touched : touched? found = some name) :
    ofLexemes raw found = .error (.starTouchesToken raw name) := by
  rw [ofLexemes, if_neg fun listed => single (List.contains_iff_mem.mp listed)]
  simp only [touched]

theorem ofLexemes_of_unknown (single : .stars 2 ∉ found) (untouched : Untouched found)
    {name : Text} (unknown : found.mapM piece = .error name) :
    ofLexemes raw found = .error (.unknownToken raw name) := by
  rw [ofLexemes, if_neg fun listed => single (List.contains_iff_mem.mp listed)]
  simp only [touched?_eq_none untouched, unknown]

theorem ofLexemes_of_resolved (single : .stars 2 ∉ found) (untouched : Untouched found)
    {pieces : List Piece} (resolved : found.mapM piece = .ok pieces) :
    ofLexemes raw found = ofPieces raw pieces := by
  rw [ofLexemes, if_neg fun listed => single (List.contains_iff_mem.mp listed)]
  simp only [touched?_eq_none untouched, resolved]

theorem eq_oversizedSegment_of_ofPieces {pieces : List Piece} {defect : Defect}
    (refused : ofPieces raw pieces = .error defect) : defect = .oversizedSegment raw := by
  unfold ofPieces at refused
  split at refused
  · cases refused
  · cases refused
  · split at refused
    · cases refused
      rfl
    · cases refused

/-! ## Parts read as a file -/

theorem firstDefect_of_ofFile {part : Text} (isName : Path.IsName part) {defect : Defect}
    (refused : ofFile part = .error defect) : FirstDefect .file part defect := by
  cases reads : Lexeme.ofText? part with
  | none =>
      have unclosed := (Lexeme.ofText?_eq_none_iff part).mp reads
      rw [ofFile_of_unclosed unclosed] at refused
      cases refused
      exact .unclosed unclosed
  | some found =>
      have reading := (isReading_iff part found).mpr reads
      cases long : longRun? found with
      | some run =>
          rw [ofFile_of_longRun reading long] at refused
          cases refused
          rcases (longRun?_eq_some_iff found run).mp long with ⟨before, after, rfl, three, earlier⟩
          exact .longRun reading three earlier
      | none =>
          have short := (longRun?_eq_none_iff found).mp long
          rw [ofFile_of_short reading short] at refused
          by_cases double : .stars 2 ∈ found
          · rw [ofLexemes_of_double double] at refused
            cases refused
            exact .mixed reading short fun whole => Place.noConfusion (whole double).1
          · have whole : WholeDoubleStar .file part found := fun listed => absurd listed double
            rcases isChain_or_first_not (fun first second => ¬ Touching first second) found with
              untouched | ⟨before, first, second, after, rfl, earlier, touching⟩
            · cases resolved : found.mapM piece with
              | error name =>
                  rw [ofLexemes_of_unknown double untouched resolved] at refused
                  cases refused
                  rcases (mapM_piece_eq_error_iff found name).mp resolved with
                    ⟨before, after, rfl, unknown, named⟩
                  exact .unknown reading short whole untouched unknown named
              | ok pieces =>
                  rw [ofLexemes_of_resolved double untouched resolved] at refused
                  cases eq_oversizedSegment_of_ofPieces refused
                  have isPart : IsPart .file part :=
                    ⟨found, reading.keeps short whole untouched
                      ((exists_mapM_piece_iff found).mp ⟨pieces, resolved⟩)⟩
                  refine .oversized isPart fun fits => ?_
                  rcases (exists_ofFile_iff isName).mpr ⟨isPart, fits⟩ with ⟨segment, built⟩
                  rw [ofFile_of_short reading short,
                    ofLexemes_of_resolved double untouched resolved, refused] at built
                  cases built
            · rcases (touching_iff_exists_touches first second).mp (not_not.mp touching) with
                ⟨name, touches⟩
              rw [ofLexemes_of_touched double (touched?_append_of_touches earlier touches after)]
                at refused
              cases refused
              exact .touched reading short whole touches earlier

theorem ofFile_of_firstDefect {part : Text} (isName : Path.IsName part) {defect : Defect}
    (first : FirstDefect .file part defect) : ofFile part = .error defect := by
  cases first with
  | unclosed unclosed => exact ofFile_of_unclosed unclosed
  | longRun reading long earlier =>
      exact ofFile_of_longRun reading ((longRun?_eq_some_iff _ _).mpr ⟨_, _, rfl, long, earlier⟩)
  | mixed reading short inner =>
      rw [ofFile_of_short reading short]
      refine ofLexemes_of_double ?_
      by_contra absent
      exact inner fun listed => absurd listed absent
  | touched reading short whole touches earlier =>
      rw [ofFile_of_short reading short]
      exact ofLexemes_of_touched whole.absent (touched?_append_of_touches earlier touches _)
  | unknown reading short whole untouched unknown earlier =>
      rw [ofFile_of_short reading short]
      exact ofLexemes_of_unknown whole.absent untouched
        ((mapM_piece_eq_error_iff _ _).mpr ⟨_, _, rfl, unknown, earlier⟩)
  | oversized isPart large =>
      rcases isPart with ⟨found, keeps⟩
      have reading : IsReading part found := ⟨keeps.written, keeps.canonical⟩
      have short : ShortRuns found := by
        intro run listed
        rcases keeps.short run listed with rfl | rfl
        · exact Nat.le_succ 1
        · exact Nat.le_refl 2
      have single : .stars 2 ∉ found := WholeDoubleStar.absent keeps.whole
      rcases (exists_mapM_piece_iff found).mpr keeps.named with ⟨pieces, resolved⟩
      have built := (ofFile_of_short reading short).trans
        (ofLexemes_of_resolved single keeps.untouched resolved)
      cases outcome : ofPieces part pieces with
      | ok segment =>
          have fits := ((exists_ofFile_iff isName).mp ⟨segment, built.trans outcome⟩).2
          exact absurd fits large
      | error defect => rw [built, outcome, eq_oversizedSegment_of_ofPieces outcome]

theorem ofFile_eq_error_iff {part : Text} (isName : Path.IsName part) (defect : Defect) :
    ofFile part = .error defect <-> FirstDefect .file part defect :=
  ⟨firstDefect_of_ofFile isName, ofFile_of_firstDefect isName⟩

/-! ## Parts read as a folder -/

/-- Of all parts only `**` is sound as a folder and not as a file. -/
theorem ofFolder_eq_error_iff_ofFile (part : Text) (defect : Defect) :
    ofFolder part = .error defect <-> part ≠ ['*', '*'] ∧ ofFile part = .error defect := by
  by_cases double : part = ['*', '*']
  · subst double
    have built : ofFolder ['*', '*'] = .ok .anyFolders := by rfl
    simp [built]
  · by_cases star : part = ['*']
    · subst star
      have built : ofFolder ['*'] = .ok .anyFolder := by rfl
      have read : ofFile ['*'] = .ok (.composite [.wildcard]) := by rfl
      simp [built, read]
    · rw [ofFolder_of_ne star double]
      exact ⟨fun refused => ⟨double, refused⟩, And.right⟩

private theorem not_firstDefect_doubleStar (defect : Defect) :
    ¬ FirstDefect .folder ['*', '*'] defect := by
  have reads : Lexeme.ofText? ['*', '*'] = some [.stars 2] := by rfl
  have only {lexemes : List Lexeme} (reading : IsReading ['*', '*'] lexemes) :
      [.stars 2] = lexemes :=
    Option.some.inj (reads.symm.trans ((isReading_iff _ _).mp reading))
  intro first
  cases first with
  | unclosed unclosed =>
      rw [(Lexeme.ofText?_eq_none_iff _).mpr unclosed] at reads
      cases reads
  | @longRun before after run reading long earlier =>
      rcases List.singleton_eq_append_iff.mp (only reading) with ⟨_, same⟩ | ⟨_, same⟩
      · cases same
        exact absurd long (Nat.not_succ_le_self 2)
      · cases same
  | mixed reading short inner => exact inner fun _ => ⟨rfl, rfl⟩
  | touched reading short whole touches earlier =>
      have lengths := congrArg List.length (only reading)
      simp only [List.length_append, List.length_cons, List.length_nil] at lengths
      omega
  | unknown reading short whole untouched unknown earlier =>
      rcases List.singleton_eq_append_iff.mp (only reading) with ⟨_, same⟩ | ⟨_, same⟩
      · cases same
      · cases same
  | oversized isPart large =>
      have isName : Path.IsName ['*', '*'] := by decide
      exact large ((exists_ofFolder_iff isName).mp ⟨.anyFolders, rfl⟩).2

theorem ofFolder_eq_error_iff {part : Text} (isName : Path.IsName part) (defect : Defect) :
    ofFolder part = .error defect <-> FirstDefect .folder part defect := by
  rw [ofFolder_eq_error_iff_ofFile, ofFile_eq_error_iff isName]
  constructor
  · rintro ⟨notDouble, first⟩
    exact first.of_ne notDouble .folder
  · intro first
    have notDouble : part ≠ ['*', '*'] := by
      rintro rfl
      exact not_firstDefect_doubleStar defect first
    exact ⟨notDouble, first.of_ne notDouble .file⟩

end Segment
end SongPath
