import SongPath.Proofs.ExpressionSearch
import SongPath.Proofs.ExpressionText
import SongPath.Proofs.LooseCut
import SongPath.Proofs.NormalForm

/-!
# Searching within one name

No item of the expression of a pattern but the written slashes takes a slash.
So on a text that starts with a name the attempts of the pieces of a composite
are the splits of that name, in the same order, and the slash behind them is
reached by those only that leave nothing of the name.
-/

namespace SongPath
namespace Regex

open Segment (fronts splits takings captured isSuffix)

/-- A place where a name ends: the end of the text, or a slash. -/
def EndsName (rest : Text) : Prop :=
  forall char, rest.head? = some char -> char = '/'

theorem endsName_nil : EndsName [] :=
  nofun

theorem endsName_slash (rest : Text) : EndsName ('/' :: rest) := by
  intro char first
  cases first
  rfl

/-- The named groups for captures.  A token that is seen already has none. -/
def groupsOf (seen : List Token) (captures : List (Token × Text)) : List (Text × Text) :=
  (unseen Prod.fst seen captures).map fun capture => (capture.1.name, capture.2)

theorem groupsOf_append (seen : List Token) (first second : List (Token × Text)) :
    groupsOf seen (first ++ second) =
      groupsOf seen first ++ groupsOf (first.map Prod.fst ++ seen) second := by
  rw [groupsOf, unseen_append, List.map_append]
  rfl

theorem groupsOf_cons (seen : List Token) (token : Token) (text : Text)
    (captures : List (Token × Text)) :
    groupsOf seen ((token, text) :: captures) =
      (if seen.contains token then [] else [(token.name, text)]) ++
        groupsOf (token :: seen) captures := by
  rw [groupsOf, unseen]
  split <;> rfl

theorem name_ne_of_mem_groupsOf {seen : List Token} {token : Token} (listed : token ∈ seen)
    {captures : List (Token × Text)} {group : Text × Text}
    (member : group ∈ groupsOf seen captures) : group.1 ≠ token.name := by
  rcases List.mem_map.mp member with ⟨capture, unseen, rfl⟩
  intro same
  apply not_mem_of_mem_unseen Prod.fst unseen
  rw [name_injective same]
  exact listed

/-- The group of a token holds its first capture. -/
theorem group?_of_groupsOf {seen : List Token} {token : Token} (absent : token ∉ seen)
    {captures : List (Token × Text)} {found : Reach}
    (groups : found.groups = groupsOf seen captures) :
    found.group? token.name =
      (captures.find? fun capture => capture.1 == token).map Prod.snd := by
  rw [Reach.group?, groups]
  clear groups
  induction captures generalizing seen with
  | nil => rfl
  | cons capture captures inductionHypothesis =>
      rcases capture with ⟨named, text⟩
      rw [groupsOf_cons, List.reverse_append, List.find?_append, List.find?_cons]
      by_cases same : named = token
      · subst same
        have later : ((groupsOf (named :: seen) captures).reverse.find? fun group =>
            group.1 == named.name) = none := by
          rw [List.find?_eq_none]
          intro group member
          rw [beq_iff_eq]
          exact name_ne_of_mem_groupsOf List.mem_cons_self (List.mem_reverse.mp member)
        rw [later]
        simp [absent]
      · have absentLater : token ∉ named :: seen := by
          simp [Ne.symm same, absent]
        have other : (named.name == token.name) = false :=
          beq_false_of_ne fun equal => same (name_injective equal)
        have here : (if seen.contains named then [] else [(named.name, text)]).reverse.find?
            (fun group => group.1 == token.name) = none := by
          split <;> simp [other]
        rw [here, Option.or_none, inductionHypothesis absentLater, beq_false_of_ne same]

/-- The attempt that belongs to a split of a name with something behind it. -/
def ofSplit (seen : List Token) (pieces : List Piece) (behind : Text)
    (split : Segment.Spans × Text) : Reach :=
  ⟨split.1.flatten, groupsOf seen (captured pieces split.1), split.2 ++ behind⟩

variable {name behind : Text} (whole : Text)

/-! ## Characters of a name -/

theorem admits_of_slashless {char : Char} (slashless : '/' ∉ char :: name) :
    admits (.noneOf ['/']) char = true := by
  simpa [admits] using Ne.symm (List.ne_of_not_mem_cons slashless)

theorem shortestFirst_append (slashless : '/' ∉ name) (ends : EndsName behind) :
    Atom.shortestFirst (admits (.noneOf ['/'])) (name ++ behind) =
      (fronts name).map fun taken => (taken.1, taken.2 ++ behind) := by
  induction name with
  | nil =>
      cases behind with
      | nil => rfl
      | cons char behind =>
          cases ends char rfl
          rfl
  | cons char name inductionHypothesis =>
      have later := inductionHypothesis (List.not_mem_of_not_mem_cons slashless)
      simp [Atom.shortestFirst, admits_of_slashless slashless, later, Atom.lengthen]

theorem attempts_nameChars_lazyMany (slashless : '/' ∉ name) (ends : EndsName behind) :
    attempts whole (nameChars .lazyMany) (name ++ behind) =
      (fronts name).map fun taken => ⟨taken.1, [], taken.2 ++ behind⟩ := by
  rw [nameChars, attempts_one_done, repeated_oneOf_lazyMany, shortestFirst_append slashless ends,
    List.map_map]
  rfl

theorem attempts_nameChars_lazySome (slashless : '/' ∉ name) (ends : EndsName behind) :
    attempts whole (nameChars .lazySome) (name ++ behind) =
      (fronts name).tail.map fun taken => ⟨taken.1, [], taken.2 ++ behind⟩ := by
  rw [nameChars, attempts_one_done, repeated_oneOf_lazySome]
  cases name with
  | nil =>
      cases behind with
      | nil => rfl
      | cons char behind =>
          cases ends char rfl
          rfl
  | cons char name =>
      have here := oneOf_cons_of_admits (admits_of_slashless slashless) (name ++ behind)
      have later := shortestFirst_append (List.not_mem_of_not_mem_cons slashless) ends
      rw [List.cons_append, inRow_of_singleton here, repeated_oneOf_lazyMany, later]
      simp [Function.comp_def, ofTaken, Atom.lengthen, Reach.followedBy]

theorem admits_only (char : Char) : admits (.only char) char = true :=
  beq_self_eq_true char

theorem attempts_ofText_append (text rest : Text) :
    attempts whole (ofText text) (text ++ rest) = [⟨text, [], rest⟩] := by
  induction text with
  | nil => rfl
  | cons char text inductionHypothesis =>
      have here : repeated (oneOf (.only char)) .once (char :: (text ++ rest)) =
          [⟨[char], [], text ++ rest⟩] :=
        oneOf_cons_of_admits (admits_only char) _
      change inRow _ (attempts whole (ofText text)) (char :: (text ++ rest)) = _
      rw [inRow_of_singleton here, inductionHypothesis]
      rfl

theorem attempts_ofText_of_absent {text rest : Text} (absent : ¬ text <+: rest) :
    attempts whole (ofText text) rest = [] := by
  induction text generalizing rest with
  | nil => exact absurd List.nil_prefix absent
  | cons char text inductionHypothesis =>
      change inRow (repeated (oneOf (.only char)) .once) (attempts whole (ofText text)) rest = _
      cases rest with
      | nil => rfl
      | cons first rest =>
          by_cases same : first = char
          · subst same
            have later : ¬ text <+: rest := fun stands =>
              absent (List.cons_prefix_cons.mpr ⟨rfl, stands⟩)
            have here : repeated (oneOf (.only first)) .once (first :: rest) =
                [⟨[first], [], rest⟩] :=
              oneOf_cons_of_admits (admits_only first) rest
            rw [inRow_of_singleton here, inductionHypothesis later]
            rfl
          · apply inRow_of_nil
            apply oneOf_cons_of_not_admits
            simpa [admits] using same

/-! ## Pieces -/

/-- A text without slashes that stands in front stands in the name. -/
theorem prefix_of_slashless {text : Text} (slashless : '/' ∉ text) (ends : EndsName behind)
    (stands : text <+: name ++ behind) : text <+: name := by
  rcases stands with ⟨rest, same⟩
  rcases List.append_eq_append_iff.mp same with ⟨inside, rfl, _⟩ | ⟨beyond, rfl, rfl⟩
  · exact List.prefix_append text inside
  · cases beyond with
    | nil =>
        rw [List.append_nil]
    | cons char beyond =>
        cases ends char rfl
        exact absurd (List.mem_append_right name List.mem_cons_self) slashless

/-- The attempts of a piece are what it takes of the name. -/
theorem attempts_ofPiece {piece : Piece} (isSound : piece.IsSound) (seen : List Token)
    (slashless : '/' ∉ name) (ends : EndsName behind) :
    attempts whole (ofPiece seen piece) (name ++ behind) =
      (takings piece name).map fun taken =>
        ⟨taken.1, groupsOf seen (captured [piece] [taken.1]), taken.2 ++ behind⟩ := by
  cases piece with
  | wildcard => exact attempts_nameChars_lazyMany whole slashless ends
  | literal text =>
      have plain : '/' ∉ text := fun listed => by
        have separator := (isSound.2 '/' listed).2.2
        cases separator
      by_cases stands : text <+: name
      · rcases stands with ⟨rest, rfl⟩
        have isPrefix : text.isPrefixOf (text ++ rest) = true :=
          List.isPrefixOf_iff_prefix.mpr (List.prefix_append text rest)
        rw [ofPiece, List.append_assoc, attempts_ofText_append, takings, if_pos isPrefix,
          List.drop_left]
        rfl
      · have isNoPrefix : ¬ text.isPrefixOf name = true :=
          fun isPrefix => stands (List.isPrefixOf_iff_prefix.mp isPrefix)
        rw [ofPiece, takings, if_neg isNoPrefix]
        exact attempts_ofText_of_absent whole fun inFront =>
          stands (prefix_of_slashless plain ends inFront)
  | slot token =>
      have captures : attempts whole (ofToken seen token) (name ++ behind) =
          (attempts whole (nameChars .lazySome) (name ++ behind)).map
            (Reach.capturedAs (if seen.contains token then none else some token.name)) := by
        rw [ofToken, attempts]
        exact congrFun (inRow_nothing _) (name ++ behind)
      rw [ofPiece, captures, attempts_nameChars_lazySome whole slashless ends, List.map_map]
      apply List.map_congr_left
      intro taken _
      change _ = (⟨taken.1, groupsOf seen [(token, taken.1)], taken.2 ++ behind⟩ : Reach)
      rw [groupsOf, unseen, Function.comp_apply]
      split <;> rfl

theorem slashless_of_mem_takings {piece : Piece} {taken : Atom.Taken} (slashless : '/' ∉ name)
    (listed : taken ∈ takings piece name) : '/' ∉ taken.2 := by
  rw [← (Segment.mem_takings_iff.mp listed).2] at slashless
  exact fun member => slashless (List.mem_append_right _ member)

/-- The attempts of pieces are the splits of the name. -/
theorem attempts_ofPieces {pieces : List Piece}
    (sound : forall piece, piece ∈ pieces -> piece.IsSound) (seen : List Token)
    (slashless : '/' ∉ name) (ends : EndsName behind) :
    attempts whole (ofPieces seen pieces) (name ++ behind) =
      (splits pieces name).map (ofSplit seen pieces behind) := by
  induction pieces generalizing seen name with
  | nil => rfl
  | cons piece pieces inductionHypothesis =>
      rcases List.forall_mem_cons.mp sound with ⟨isSound, others⟩
      rw [ofPieces_cons, attempts_append, inRow, attempts_ofPiece whole isSound seen slashless ends,
        splits, List.flatMap_map, List.map_flatMap]
      apply List.flatMap_congr
      intro taken listed
      rw [inductionHypothesis others _ (slashless_of_mem_takings slashless listed), List.map_map,
        List.map_map]
      apply List.map_congr_left
      intro split _
      simp [ofSplit, Reach.followedBy, Segment.captured_cons piece pieces, groupsOf_append,
        Segment.map_fst_captured_singleton]

/-! ## Folders -/

theorem slash_absent {rest : Text} (slashless : '/' ∉ rest) : ¬ ['/'] <+: rest := by
  rintro ⟨behind, rfl⟩
  exact slashless List.mem_cons_self

/-- The slash behind a name is reached with nothing left of the name. -/
theorem attempts_slash_append (slashless : '/' ∉ name) (behind : Text) :
    attempts whole (ofText ['/']) (name ++ '/' :: behind) =
      if name.isEmpty then [⟨['/'], [], behind⟩] else [] := by
  cases name with
  | nil => exact attempts_ofText_append whole ['/'] behind
  | cons char name =>
      apply attempts_ofText_of_absent whole
      intro stands
      rw [List.cons_append, List.cons_prefix_cons] at stands
      exact absurd stands.1 (List.ne_of_not_mem_cons slashless)

theorem flatMap_ite_singleton {α β : Type} (holds : α -> Bool) (result : α -> β) (items : List α) :
    (items.flatMap fun item => if holds item then [result item] else []) =
      (items.filter holds).map result := by
  induction items with
  | nil => rfl
  | cons item items inductionHypothesis =>
      rw [List.flatMap_cons, inductionHypothesis, List.filter_cons]
      split <;> rfl

theorem slashless_of_mem_splits {pieces : List Piece} {split : Segment.Spans × Text}
    (slashless : '/' ∉ name) (listed : split ∈ splits pieces name) : '/' ∉ split.2 := by
  rw [← (Segment.mem_splits_iff.mp listed).2] at slashless
  exact fun member => slashless (List.mem_append_right _ member)

/-- Pieces with a slash behind them take one name, with every loose cut of it. -/
theorem attempts_pieces_slash {pieces : List Piece}
    (sound : forall piece, piece ∈ pieces -> piece.IsSound) (seen : List Token)
    (slashless : '/' ∉ name) (behind : Text) :
    attempts whole (ofPieces seen pieces ++ ofText ['/']) (name ++ '/' :: behind) =
      ((splits pieces name).filter fun split => split.2.isEmpty).map fun split =>
        ⟨name ++ ['/'], groupsOf seen (captured pieces split.1), behind⟩ := by
  rw [attempts_append, inRow, attempts_ofPieces whole sound seen slashless (endsName_slash behind),
    List.flatMap_map, ← flatMap_ite_singleton]
  apply List.flatMap_congr
  intro split listed
  have reached := attempts_slash_append whole (slashless_of_mem_splits slashless listed) behind
  rw [ofSplit, reached]
  split
  · next empty =>
      have joined := (Segment.mem_splits_iff.mp listed).2
      rw [List.isEmpty_iff.mp empty, List.append_nil] at joined
      simp [Reach.followedBy, joined]
  · rfl

theorem attempts_pieces_slash_of_slashless {pieces : List Piece}
    (sound : forall piece, piece ∈ pieces -> piece.IsSound) (seen : List Token)
    (slashless : '/' ∉ name) :
    attempts whole (ofPieces seen pieces ++ ofText ['/']) name = [] := by
  have inName := attempts_ofPieces whole sound seen slashless endsName_nil
  rw [List.append_nil] at inName
  rw [attempts_append, inRow, inName, List.flatMap_map, List.flatMap_eq_nil_iff]
  intro split listed
  have missing := slash_absent (slashless_of_mem_splits slashless listed)
  rw [← List.append_nil split.2] at missing
  exact List.map_eq_nil_iff.mpr (attempts_ofText_of_absent whole missing)

/-- The folder names that a repeated class takes: with `+` nonempty ones. -/
def Takes (repetition : Repetition) (name : Text) : Prop :=
  '/' ∉ name ∧ (repetition = .many ∨ repetition = .some ∧ name ≠ [])

theorem attempts_many_slash (slashless : '/' ∉ name) (behind : Text) :
    attempts whole (nameChars .many ++ ofText ['/']) (name ++ '/' :: behind) =
      [⟨name ++ ['/'], [], behind⟩] := by
  rw [attempts_append, nameChars, attempts_one_done]
  induction name with
  | nil =>
      have refused : oneOf (.noneOf ['/']) ('/' :: behind) = [] :=
        oneOf_cons_of_not_admits (by simp [admits]) behind
      rw [List.nil_append, inRow_many_of_nil refused]
      exact attempts_ofText_append whole ['/'] behind
  | cons char name inductionHypothesis =>
      have here := oneOf_cons_of_admits (admits_of_slashless slashless) (name ++ '/' :: behind)
      have passed := attempts_slash_append whole slashless behind
      rw [List.cons_append] at passed ⊢
      rw [inRow_many_of_singleton here (Nat.lt_succ_self _),
        inductionHypothesis (List.not_mem_of_not_mem_cons slashless), passed]
      rfl

theorem attempts_many_slash_of_slashless (slashless : '/' ∉ name) :
    attempts whole (nameChars .many ++ ofText ['/']) name = [] := by
  rw [attempts_append, nameChars, attempts_one_done]
  have missing := attempts_ofText_of_absent whole (slash_absent slashless)
  induction name with
  | nil => rw [inRow_many_of_nil rfl, missing]
  | cons char name inductionHypothesis =>
      have later := List.not_mem_of_not_mem_cons slashless
      have here := oneOf_cons_of_admits (admits_of_slashless slashless) name
      rw [inRow_many_of_singleton here (Nat.lt_succ_self _), missing,
        inductionHypothesis later (attempts_ofText_of_absent whole (slash_absent later))]
      rfl

/-- At least one character: one, and then any number. -/
theorem attempts_some_cons {char : Char} {rest : Text}
    (admitted : admits (.noneOf ['/']) char = true) (expression : Regex) :
    attempts whole (nameChars .some ++ expression) (char :: rest) =
      (attempts whole (nameChars .many ++ expression) rest).map
        (Reach.followedBy ⟨[char], [], rest⟩) := by
  rw [attempts_append, attempts_append, nameChars, nameChars, attempts_one_done, attempts_one_done,
    repeated_oneOf_some, inRow_assoc, inRow_of_singleton (oneOf_cons_of_admits admitted rest)]

/-- Any characters with a slash behind them take one name. -/
theorem attempts_nameChars_slash {repetition : Repetition} (takes : Takes repetition name)
    (behind : Text) :
    attempts whole (nameChars repetition ++ ofText ['/']) (name ++ '/' :: behind) =
      [⟨name ++ ['/'], [], behind⟩] := by
  rcases takes with ⟨slashless, rfl | ⟨rfl, nonempty⟩⟩
  · exact attempts_many_slash whole slashless behind
  · cases name with
    | nil => exact absurd rfl nonempty
    | cons char name =>
        rw [List.cons_append, attempts_some_cons whole (admits_of_slashless slashless),
          attempts_many_slash whole (List.not_mem_of_not_mem_cons slashless)]
        rfl

theorem attempts_nameChars_slash_of_slashless {repetition : Repetition}
    (known : repetition = .many ∨ repetition = .some) (slashless : '/' ∉ name) :
    attempts whole (nameChars repetition ++ ofText ['/']) name = [] := by
  rcases known with rfl | rfl
  · exact attempts_many_slash_of_slashless whole slashless
  · cases name with
    | nil => rfl
    | cons char name =>
        rw [attempts_some_cons whole (admits_of_slashless slashless),
          attempts_many_slash_of_slashless whole (List.not_mem_of_not_mem_cons slashless)]
        rfl

/-! ## Segments -/

theorem slashless_of_isName (isName : Path.IsName name) : '/' ∉ name := by
  intro listed
  cases isName.2 '/' listed

theorem takes_many (isName : Path.IsName name) : Takes .many name :=
  ⟨slashless_of_isName isName, Or.inl rfl⟩

theorem takes_some (isName : Path.IsName name) : Takes .some name :=
  ⟨slashless_of_isName isName, Or.inr ⟨rfl, isName.1⟩⟩

theorem isSound_of_pieces? {segment : Segment} (isNormal : segment.IsNormal) {pieces : List Piece}
    (has : segment.pieces? = some pieces) : forall piece, piece ∈ pieces -> piece.IsSound := by
  intro piece listed
  cases segment with
  | anyFolder => cases has
  | anyFolders => cases has
  | literal text =>
      cases has
      rw [List.mem_singleton.mp listed]
      exact isNormal
  | slot token =>
      cases has
      rw [List.mem_singleton.mp listed]
      trivial
  | composite pieces =>
      cases has
      exact isNormal.1.sound piece listed

/-- A segment of one piece is attempted like that piece. -/
theorem attempts_ofSegment {segment : Segment} {pieces : List Piece}
    (has : segment.pieces? = some pieces) (seen : List Token) :
    attempts whole (ofSegment seen segment) = attempts whole (ofPieces seen pieces) := by
  cases segment with
  | anyFolder => cases has
  | anyFolders => cases has
  | composite pieces =>
      cases has
      rfl
  | literal text =>
      cases has
      exact ((attempts_append whole (ofText text) .done).trans (inRow_nothing _)).symm
  | slot token =>
      cases has
      exact ((attempts_append whole (ofToken seen token) .done).trans (inRow_nothing _)).symm

theorem eq_anyFolder_of_pieces? {segment : Segment} (single : segment ≠ .anyFolders)
    (none : segment.pieces? = none) : segment = .anyFolder := by
  cases segment with
  | anyFolder => rfl
  | anyFolders => exact absurd rfl single
  | _ => cases none

theorem attempts_ofSegment_append {segment : Segment} {pieces : List Piece}
    (has : segment.pieces? = some pieces) (seen : List Token) (later : Regex) :
    attempts whole (ofSegment seen segment ++ later) =
      attempts whole (ofPieces seen pieces ++ later) := by
  rw [attempts_append, attempts_ofSegment whole has, ← attempts_append]

/-- A folder segment with its slash takes one name, in whatever way. -/
theorem rest_of_mem_attempts_folder {segment : Segment} (isNormal : segment.IsNormal)
    (single : segment ≠ .anyFolders) (seen : List Token) (isName : Path.IsName name) (behind : Text)
    {reach : Reach}
    (listed : reach ∈
      attempts whole (ofSegment seen segment ++ ofText ['/']) (name ++ '/' :: behind)) :
    reach.rest = behind := by
  cases has : segment.pieces? with
  | none =>
      rw [eq_anyFolder_of_pieces? single has, ofSegment,
        attempts_nameChars_slash whole (takes_some isName)] at listed
      rw [List.mem_singleton.mp listed]
  | some pieces =>
      rw [attempts_ofSegment_append whole has, attempts_pieces_slash whole
        (isSound_of_pieces? isNormal has) seen (slashless_of_isName isName)] at listed
      rcases List.mem_map.mp listed with ⟨split, _, rfl⟩
      rfl

/-- The first way is the loose cut that counts. -/
theorem head?_attempts_folder {segment : Segment} (isNormal : segment.IsNormal)
    (single : segment ≠ .anyFolders) (seen : List Token) (isName : Path.IsName name)
    {captures : List (Token × Text)}
    (loosely : segment.LooselyCaptures name captures) (behind : Text) :
    (attempts whole (ofSegment seen segment ++ ofText ['/']) (name ++ '/' :: behind)).head? =
      some ⟨name ++ ['/'], groupsOf seen captures, behind⟩ := by
  cases has : segment.pieces? with
  | none =>
      rw [Segment.LooselyCaptures, has] at loosely
      rw [eq_anyFolder_of_pieces? single has, ofSegment,
        attempts_nameChars_slash whole (takes_some isName), loosely]
      rfl
  | some pieces =>
      rcases (Segment.looselyCaptures_iff has).mp loosely with ⟨spans, shortest, rfl⟩
      rw [attempts_ofSegment_append whole has, attempts_pieces_slash whole
        (isSound_of_pieces? isNormal has) seen (slashless_of_isName isName), List.head?_map,
        List.head?_filter, Segment.find?_splits_isEmpty_iff.mpr shortest]
      rfl

theorem attempts_folder_of_slashless {segment : Segment} (isNormal : segment.IsNormal)
    (single : segment ≠ .anyFolders) (seen : List Token)
    (slashless : '/' ∉ name) :
    attempts whole (ofSegment seen segment ++ ofText ['/']) name = [] := by
  cases has : segment.pieces? with
  | none =>
      rw [eq_anyFolder_of_pieces? single has]
      exact attempts_nameChars_slash_of_slashless whole (Or.inr rfl) slashless
  | some pieces =>
      rw [attempts_ofSegment_append whole has, attempts_pieces_slash_of_slashless whole
        (isSound_of_pieces? isNormal has) seen slashless]

/-! ## The file -/

/-- A class that is repeated up to the end takes everything or fails. -/
theorem head?_inRow_many_finish (symbols : CharClass) (text : Text) :
    (inRow (repeated (oneOf symbols) .many) (attempts whole (.finish .done)) text).head? =
      if text.all (admits symbols) then some ⟨text, [], []⟩ else none := by
  induction text with
  | nil => rfl
  | cons char text inductionHypothesis =>
      by_cases admitted : admits symbols char = true
      · have here := oneOf_cons_of_admits admitted text
        rw [inRow_many_of_singleton here (Nat.lt_succ_self _), List.head?_append, List.head?_map,
          inductionHypothesis]
        by_cases others : text.all (admits symbols) = true <;>
          simp [admitted, others, attempts, Reach.followedBy]
      · rw [inRow_many_of_nil (oneOf_cons_of_not_admits admitted text)]
        simp [admitted, attempts]

theorem all_admits_of_slashless (slashless : '/' ∉ name) :
    name.all (admits (.noneOf ['/', '.'])) = !name.contains '.' := by
  induction name with
  | nil => rfl
  | cons char name inductionHypothesis =>
      have noSlash : char ≠ '/' := Ne.symm (List.ne_of_not_mem_cons slashless)
      by_cases dot : char = '.'
      · simp [admits, dot]
      · simp [admits, dot, Ne.symm dot, noSlash, inductionHypothesis
          (List.not_mem_of_not_mem_cons slashless)]

/-- Behind the file stands one extension at most. -/
theorem head?_extension_finish (slashless : '/' ∉ name) :
    (attempts whole (extension ++ .finish .done) name).head? =
      if isSuffix name then some ⟨name, [], []⟩ else none := by
  rw [attempts_append, extension, attempts_group_none, inRow_optional, attempts_append,
    attempts_one_done, inRow_assoc]
  cases name with
  | nil => rfl
  | cons char name =>
      have unfinished : attempts whole (.finish .done) (char :: name) = [] := rfl
      rw [unfinished, List.append_nil]
      by_cases dot : char = '.'
      · subst dot
        have here : attempts whole (ofText ['.']) ('.' :: name) = [⟨['.'], [], name⟩] :=
          attempts_ofText_append whole ['.'] name
        rw [inRow_of_singleton here, List.head?_map, head?_inRow_many_finish,
          all_admits_of_slashless (List.not_mem_of_not_mem_cons slashless)]
        by_cases dotted : '.' ∈ name <;> simp [isSuffix, dotted, Reach.followedBy]
      · have here : attempts whole (ofText ['.']) (char :: name) = [] := by
          apply attempts_ofText_of_absent
          intro stands
          exact dot (List.cons_prefix_cons.mp stands).1.symm
        rw [inRow_of_nil here]
        simp [isSuffix, dot]

theorem findSome?_of_ite {α β : Type} {attempt : α -> Option β} {holds : α -> Bool}
    {result : α -> β} {items : List α} (each : forall item, item ∈ items ->
      attempt item = if holds item then some (result item) else none) :
    items.findSome? attempt = (items.find? holds).map result := by
  induction items with
  | nil => rfl
  | cons item items inductionHypothesis =>
      rcases List.forall_mem_cons.mp each with ⟨here, others⟩
      rw [List.findSome?_cons, List.find?_cons, here]
      cases holds item with
      | true => rfl
      | false => exact inductionHypothesis others

/-- The file with its extension ends the text, and its tokens get what they get
in the stem. -/
theorem exists_head?_file {segment : Segment} (isNormal : segment.IsNormal)
    {pieces : List Piece} (has : segment.pieces? = some pieces) (seen : List Token)
    (slashless : '/' ∉ name) {captures : List (Token × Text)}
    (loosely : segment.LooselyCaptures (Path.stem name) captures) :
    exists taken,
      (inRow (attempts whole (ofSegment seen segment)) (attempts whole (extension ++ .finish .done))
        name).head? = some ⟨taken, groupsOf seen captures, []⟩ := by
  rcases (Segment.looselyCaptures_iff has).mp loosely with ⟨spans, shortest, rfl⟩
  rcases Segment.exists_find?_splits_isSuffix shortest.toIsLooseCut with
    ⟨first, others, chosen, shortestOthers, same⟩
  have sound := isSound_of_pieces? isNormal has
  have inName := attempts_ofPieces whole sound seen slashless endsName_nil
  rw [List.append_nil] at inName
  have behind : forall split, split ∈ splits pieces name ->
      (attempts whole (extension ++ .finish .done) (ofSplit seen pieces [] split).rest).head?.map
          (ofSplit seen pieces [] split).followedBy =
        if isSuffix split.2 then
          some ((ofSplit seen pieces [] split).followedBy ⟨split.2, [], []⟩)
        else none := by
    intro split listed
    have left : (ofSplit seen pieces [] split).rest = split.2 := List.append_nil split.2
    rw [left, head?_extension_finish whole (slashless_of_mem_splits slashless listed)]
    cases isSuffix split.2 <;> rfl
  refine ⟨first.1.flatten ++ first.2, ?_⟩
  rw [attempts_ofSegment whole has, head?_inRow, inName, List.findSome?_map]
  apply (findSome?_of_ite behind).trans
  rw [chosen, Option.map_some, ← shortestOthers.unique shortest, ← same]
  simp [ofSplit, Reach.followedBy]

end Regex
end SongPath
