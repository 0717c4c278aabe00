import SongPath.Proofs.LeftmostFirst
import SongPath.Proofs.PathNames
import SongPath.Proofs.Trials

/-!
# Loose cuts

The expression of a composite asks less of a token than the composite itself:
any span but the empty one, a blank one as well.  So it may choose another cut.
It tries the cuts in the order of their lengths, first span first, and it may
leave something of the text, which has to be an extension then.

A loose cut that gives every token something to see is a cut, and if it is the
shortest loose one it is the shortest one.
-/

namespace SongPath

/-- The spans that the expression of a piece admits. -/
def Piece.AdmitsLoosely : Piece -> Text -> Prop
  | .literal expected, span => span = expected
  | .slot _, span => span ≠ []
  | .wildcard, _ => True

namespace Segment

/-- The spans, one per piece, are admitted loosely and make up the whole text. -/
structure IsLooseCut (pieces : List Piece) (text : Text) (spans : Spans) : Prop where
  admitted : List.Forall₂ Piece.AdmitsLoosely pieces spans
  joined : spans.flatten = text

/-- The loose cut that counts. -/
structure IsShortestLooseCut (pieces : List Piece) (text : Text) (spans : Spans) : Prop extends
    IsLooseCut pieces text spans where
  shortest : forall other, IsLooseCut pieces text other -> AtMostAsLong spans other

theorem IsShortestLooseCut.unique {pieces : List Piece} {text : Text} {first second : Spans}
    (one : IsShortestLooseCut pieces text first) (other : IsShortestLooseCut pieces text second) :
    first = second := by
  refine List.eq_iff_flatten_eq.mpr ⟨one.joined.trans other.joined.symm, ?_⟩
  exact (one.shortest second other.toIsLooseCut).antisymm (other.shortest first one.toIsLooseCut)

/-! ## Loose cuts and cuts -/

theorem admitsLoosely_of_admits {piece : Piece} {span : Text} (admits : piece.Admits span) :
    piece.AdmitsLoosely span := by
  cases piece with
  | literal expected => exact admits
  | wildcard => trivial
  | slot token =>
      rcases admits with ⟨visible, listed, _⟩
      exact List.ne_nil_of_mem listed

theorem IsCut.isLooseCut {pieces : List Piece} {text : Text} {spans : Spans}
    (isCut : IsCut pieces text spans) : IsLooseCut pieces text spans :=
  ⟨isCut.admitted.imp fun _ _ => admitsLoosely_of_admits, isCut.joined⟩

/-- A loose cut is a cut as soon as there is something to see in every token. -/
theorem IsLooseCut.isCut {pieces : List Piece} {text : Text} {spans : Spans}
    (isLoose : IsLooseCut pieces text spans)
    (visible : forall capture, capture ∈ captured pieces spans -> capture.2.isVisible = true) :
    IsCut pieces text spans := by
  refine ⟨?_, isLoose.joined⟩
  have admitted := isLoose.admitted
  clear isLoose
  induction admitted with
  | nil => exact .nil
  | @cons piece span pieces spans admits _ inductionHypothesis =>
      cases piece with
      | literal expected => exact .cons admits (inductionHypothesis visible)
      | wildcard => exact .cons trivial (inductionHypothesis visible)
      | slot token =>
          rcases List.forall_mem_cons.mp visible with ⟨seen, later⟩
          exact .cons ((Text.isVisible_eq_true_iff span).mp seen) (inductionHypothesis later)

theorem IsShortestLooseCut.isShortestCut {pieces : List Piece} {text : Text} {spans : Spans}
    (shortest : IsShortestLooseCut pieces text spans)
    (visible : forall capture, capture ∈ captured pieces spans -> capture.2.isVisible = true) :
    IsShortestCut pieces text spans where
  toIsCut := shortest.isCut visible
  shortest := fun other isCut => shortest.shortest other isCut.isLooseCut

/-! ## All fronts of a text -/

/-- A text in two, the first part as short as possible first. -/
def fronts (text : Text) : List Atom.Taken :=
  Atom.shortestFirst (fun _ => true) text

@[simp] theorem fronts_nil : fronts [] = [([], [])] :=
  rfl

@[simp] theorem fronts_cons (char : Char) (rest : Text) :
    fronts (char :: rest) = ([], char :: rest) :: (fronts rest).map (Atom.lengthen char) :=
  rfl

theorem mem_fronts_iff {text : Text} {taken : Atom.Taken} :
    taken ∈ fronts text <-> taken.1 ++ taken.2 = text := by
  rcases taken with ⟨span, rest⟩
  induction text generalizing span with
  | nil => simp
  | cons char text inductionHypothesis =>
      cases span with
      | nil => simp [Atom.lengthen]
      | cons first span => simp [Atom.lengthen, inductionHypothesis, and_comm, eq_comm]

theorem mem_tail_fronts_iff {text : Text} {taken : Atom.Taken} :
    taken ∈ (fronts text).tail <-> taken.1 ≠ [] ∧ taken.1 ++ taken.2 = text := by
  rcases taken with ⟨span, rest⟩
  cases text with
  | nil =>
      simp only [fronts_nil, List.tail_cons, List.not_mem_nil, List.append_eq_nil_iff, false_iff]
      exact fun both => both.1 both.2.1
  | cons char text =>
      cases span with
      | nil => simp [Atom.lengthen]
      | cons first span =>
          rw [← mem_fronts_iff]
          simp

theorem pairwise_fronts (text : Text) :
    (fronts text).Pairwise fun first second => first.1.length < second.1.length := by
  induction text with
  | nil => simp
  | cons char text inductionHypothesis =>
      refine List.Pairwise.cons ?_ ?_
      · intro taken listed
        rcases List.mem_map.mp listed with ⟨shorter, _, rfl⟩
        exact Nat.zero_lt_succ _
      · apply inductionHypothesis.map
        intro first second shorter
        exact Nat.succ_lt_succ shorter

/-! ## Cuts of a front -/

/-- What the expression of a piece may take of a text, in the order in which it
is tried. -/
def takings : Piece -> Text -> List Atom.Taken
  | .literal expected, text =>
      if expected.isPrefixOf text then [(expected, text.drop expected.length)] else []
  | .slot _, text => (fronts text).tail
  | .wildcard, text => fronts text

/-- The loose cuts of all fronts of a text with what they leave of it, in the
order in which they are tried. -/
def splits : List Piece -> Text -> List (Spans × Text)
  | [], text => [([], text)]
  | piece :: pieces, text =>
      (takings piece text).flatMap fun taken =>
        (splits pieces taken.2).map fun split => (taken.1 :: split.1, split.2)

theorem mem_takings_iff {piece : Piece} {text : Text} {taken : Atom.Taken} :
    taken ∈ takings piece text <->
      piece.AdmitsLoosely taken.1 ∧ taken.1 ++ taken.2 = text := by
  cases piece with
  | slot token => exact mem_tail_fronts_iff
  | wildcard =>
      rw [takings, mem_fronts_iff]
      exact (and_iff_right trivial).symm
  | literal expected =>
      rcases taken with ⟨span, rest⟩
      rw [takings]
      constructor
      · intro listed
        split at listed
        · next stands =>
            cases List.mem_singleton.mp listed
            rcases List.isPrefixOf_iff_prefix.mp stands with ⟨behind, rfl⟩
            rw [List.drop_left]
            exact ⟨rfl, rfl⟩
        · cases listed
      · rintro ⟨rfl, rfl⟩
        have stands : span.isPrefixOf (span ++ rest) = true :=
          List.isPrefixOf_iff_prefix.mpr (List.prefix_append span rest)
        simp [stands]

theorem pairwise_takings (piece : Piece) (text : Text) :
    (takings piece text).Pairwise fun first second => first.1.length < second.1.length := by
  cases piece with
  | slot token => exact (pairwise_fronts text).tail
  | wildcard => exact pairwise_fronts text
  | literal expected =>
      rw [takings]
      split <;> simp

theorem mem_splits_iff {pieces : List Piece} {text : Text} {split : Spans × Text} :
    split ∈ splits pieces text <->
      List.Forall₂ Piece.AdmitsLoosely pieces split.1 ∧ split.1.flatten ++ split.2 = text := by
  rcases split with ⟨spans, rest⟩
  induction pieces generalizing text spans rest with
  | nil =>
      cases spans <;> simp [splits, eq_comm]
  | cons piece pieces inductionHypothesis =>
      simp only [splits, List.mem_flatMap, List.mem_map, Prod.mk.injEq]
      constructor
      · rintro ⟨taken, front, ⟨others, behind⟩, later, rfl, rfl⟩
        rcases mem_takings_iff.mp front with ⟨admits, written⟩
        rcases (inductionHypothesis _ _).mp later with ⟨admitted, joined⟩
        refine ⟨.cons admits admitted, ?_⟩
        rw [List.flatten_cons, List.append_assoc, joined, written]
      · rintro ⟨admitted, joined⟩
        cases admitted with
        | @cons _ span _ others admits admitted =>
            rw [List.flatten_cons, List.append_assoc] at joined
            exact ⟨(span, others.flatten ++ rest), mem_takings_iff.mpr ⟨admits, joined⟩,
              (others, rest), (inductionHypothesis _ _).mpr ⟨admitted, rfl⟩, rfl, rfl⟩

/-- The lengths of the first spans are tried in order, and so on. -/
theorem pairwise_splits (pieces : List Piece) (text : Text) :
    (splits pieces text).Pairwise fun first second => AtMostAsLong first.1 second.1 := by
  induction pieces generalizing text with
  | nil => exact List.pairwise_singleton _ _
  | cons piece pieces inductionHypothesis =>
      rw [splits, List.pairwise_flatMap]
      constructor
      · intro taken _
        apply (inductionHypothesis taken.2).map
        intro first second atMost
        exact (atMostAsLong_cons_iff _ _ _ _).mpr (Or.inr ⟨rfl, atMost⟩)
      · apply (pairwise_takings piece text).imp
        intro first second shorter one listed other listedOther
        rcases List.mem_map.mp listed with ⟨spans, _, rfl⟩
        rcases List.mem_map.mp listedOther with ⟨others, _, rfl⟩
        exact (atMostAsLong_cons_iff _ _ _ _).mpr (Or.inl shorter)

/-! ## The first cut that leaves what it may leave -/

theorem exists_find?_of_pairwise {α : Type} {before : α -> α -> Prop} {items : List α}
    (sorted : items.Pairwise before) {holds : α -> Bool} {item : α} (listed : item ∈ items)
    (isOne : holds item = true) :
    exists first, items.find? holds = some first ∧ first ∈ items ∧ holds first = true ∧
      forall other, other ∈ items -> holds other = true -> first = other ∨ before first other := by
  have found := List.find?_isSome.mpr ⟨item, listed, isOne⟩
  rcases Option.isSome_iff_exists.mp found with ⟨first, chosen⟩
  rcases List.find?_eq_some_iff_append.mp chosen with ⟨holdsFirst, earlier, later, rfl, none⟩
  refine ⟨first, chosen, List.mem_append_right _ List.mem_cons_self, holdsFirst, ?_⟩
  intro other member isOther
  rcases List.mem_append.mp member with inFront | behind
  · have not := none other inFront
    rw [isOther] at not
    cases not
  · rcases List.mem_cons.mp behind with rfl | behind
    · exact Or.inl rfl
    · exact Or.inr ((List.pairwise_cons.mp (List.pairwise_append.mp sorted).2.1).1 other behind)

/-- Among the splits that leave something admitted, the first is the shortest. -/
theorem exists_find?_splits {pieces : List Piece} {text : Text} (holds : Spans × Text -> Bool)
    {split : Spans × Text} (listed : split ∈ splits pieces text) (isOne : holds split = true) :
    exists first, (splits pieces text).find? holds = some first ∧ first ∈ splits pieces text ∧
      holds first = true ∧
      forall other, other ∈ splits pieces text -> holds other = true ->
        AtMostAsLong first.1 other.1 := by
  rcases exists_find?_of_pairwise (pairwise_splits pieces text) listed isOne with
    ⟨first, chosen, member, holdsFirst, least⟩
  refine ⟨first, chosen, member, holdsFirst, ?_⟩
  intro other listedOther isOther
  rcases least other listedOther isOther with rfl | atMost
  · exact AtMostAsLong.refl _
  · exact atMost

theorem mem_splits_of_isLooseCut {pieces : List Piece} {text : Text} {spans : Spans}
    (isLoose : IsLooseCut pieces text spans) (rest : Text) :
    (spans, rest) ∈ splits pieces (text ++ rest) :=
  mem_splits_iff.mpr ⟨isLoose.admitted, by rw [isLoose.joined]⟩

theorem mem_splits_of_whole {pieces : List Piece} {text : Text} {spans : Spans}
    (isLoose : IsLooseCut pieces text spans) : (spans, []) ∈ splits pieces text := by
  have listed := mem_splits_of_isLooseCut isLoose []
  rwa [List.append_nil] at listed

/-- The first split that leaves nothing is the loose cut that counts. -/
theorem exists_find?_splits_isEmpty {pieces : List Piece} {text : Text} {others : Spans}
    (isLoose : IsLooseCut pieces text others) :
    exists spans, (splits pieces text).find? (fun split => split.2.isEmpty) = some (spans, []) ∧
      IsShortestLooseCut pieces text spans := by
  rcases exists_find?_splits (fun split => split.2.isEmpty)
    (mem_splits_of_whole isLoose) rfl with ⟨⟨spans, rest⟩, chosen, member, empty, least⟩
  cases List.isEmpty_iff.mp empty
  rcases mem_splits_iff.mp member with ⟨admitted, joined⟩
  rw [List.append_nil] at joined
  refine ⟨spans, chosen, ⟨admitted, joined⟩, ?_⟩
  intro other isOther
  exact least (other, []) (mem_splits_of_whole isOther) rfl

theorem find?_splits_isEmpty_iff {pieces : List Piece} {text : Text} {spans : Spans} :
    (splits pieces text).find? (fun split => split.2.isEmpty) = some (spans, []) <->
      IsShortestLooseCut pieces text spans := by
  constructor
  · intro chosen
    rcases mem_splits_iff.mp (List.mem_of_find?_eq_some chosen) with ⟨admitted, joined⟩
    rw [List.append_nil] at joined
    rcases exists_find?_splits_isEmpty ⟨admitted, joined⟩ with ⟨found, again, shortest⟩
    rw [chosen] at again
    cases again
    exact shortest
  · intro shortest
    rcases exists_find?_splits_isEmpty shortest.toIsLooseCut with ⟨found, chosen, shortestFound⟩
    rw [chosen, shortestFound.unique shortest]

/-! ## Cuts of a longer text -/

theorem IsLooseCut.cons {piece : Piece} {pieces : List Piece} {span rest : Text} {spans : Spans}
    (admits : piece.AdmitsLoosely span) (later : IsLooseCut pieces rest spans) :
    IsLooseCut (piece :: pieces) (span ++ rest) (span :: spans) :=
  ⟨.cons admits later.admitted, by rw [List.flatten_cons, later.joined]⟩

theorem IsLooseCut.uncons {piece : Piece} {pieces : List Piece} {text : Text} {spans : Spans}
    (isLoose : IsLooseCut (piece :: pieces) text spans) :
    exists span rest others, spans = span :: others ∧ text = span ++ rest ∧
      piece.AdmitsLoosely span ∧ IsLooseCut pieces rest others := by
  rcases isLoose with ⟨admitted, joined⟩
  cases admitted with
  | @cons _ span _ others admits admitted =>
      exact ⟨span, others.flatten, others, rfl, joined.symm, admits, admitted, rfl⟩

/-- What lies in length between two admitted spans is admitted as well. -/
theorem admitsLoosely_of_between {piece : Piece} {short span long : Text}
    (admitsShort : piece.AdmitsLoosely short) (admitsLong : piece.AdmitsLoosely long)
    (atLeast : short.length ≤ span.length) (below : span.length < long.length) :
    piece.AdmitsLoosely span := by
  cases piece with
  | wildcard => trivial
  | literal expected =>
      cases admitsShort
      cases admitsLong
      exact absurd below (Nat.not_lt.mpr atLeast)
  | slot token =>
      rintro rfl
      exact admitsShort (List.length_eq_zero_iff.mp (Nat.le_zero.mp atLeast))

/-- Pieces that cut some end of a text and also the text with something behind
it cut the text itself, with shorter spans.  Up to the piece where the two cuts
come apart the spans are those of the longer text; that piece takes less, and
the end of the text is left to the others. -/
theorem exists_shorter_isLooseCut {pieces : List Piece} {text behind tail : Text}
    {spans others : Spans} (nonempty : behind ≠ [])
    (isLoose : IsLooseCut pieces (text ++ behind) spans) (isTail : tail <:+ text)
    (isLooseTail : IsLooseCut pieces tail others) :
    exists shorter, IsLooseCut pieces text shorter ∧
      List.Lex (· < ·) (shorter.map List.length) (spans.map List.length) := by
  induction pieces generalizing text tail spans others with
  | nil =>
      rcases isLoose with ⟨admitted, joined⟩
      cases admitted
      exact absurd (List.append_eq_nil_iff.mp joined.symm).2 nonempty
  | cons piece pieces inductionHypothesis =>
      rcases isTail with ⟨front, rfl⟩
      rcases isLoose.uncons with ⟨span, rest, spans, rfl, same, admits, later⟩
      rcases isLooseTail.uncons with ⟨short, tail, others, rfl, rfl, admitsShort, laterTail⟩
      rw [← List.append_assoc] at same ⊢
      by_cases below : (front ++ short).length < span.length
      · have atLeast : short.length ≤ (front ++ short).length := by simp
        have admitsBetween := admitsLoosely_of_between admitsShort admits atLeast below
        exact ⟨(front ++ short) :: others, .cons admitsBetween laterTail, List.Lex.rel below⟩
      · have inFront : front ++ short <+: front ++ short ++ tail ++ behind :=
          (List.prefix_append _ tail).trans (List.prefix_append _ behind)
        rcases List.prefix_of_prefix_length_le ⟨rest, same.symm⟩ inFront (Nat.le_of_not_lt below)
          with ⟨between, written⟩
        rw [← written, List.append_assoc, List.append_assoc, List.append_cancel_left_eq,
          ← List.append_assoc] at same
        rw [← same] at later
        rcases inductionHypothesis later (List.suffix_append between tail) laterTail with
          ⟨shorter, isLooseShorter, lex⟩
        refine ⟨span :: shorter, ?_, List.Lex.cons lex⟩
        rw [← written, List.append_assoc]
        exact .cons admits isLooseShorter

/-! ## Cuts of a file name -/

theorem captured_cons (piece : Piece) (pieces : List Piece) (span : Text) (spans : Spans) :
    captured (piece :: pieces) (span :: spans) =
      captured [piece] [span] ++ captured pieces spans := by
  cases piece <;> rfl

theorem map_fst_captured_singleton (piece : Piece) (span : Text) :
    (captured [piece] [span]).map Prod.fst = piece.token?.toList := by
  cases piece <;> rfl

theorem map_fst_captured_of_loosely {pieces : List Piece} {spans : Spans}
    (admitted : List.Forall₂ Piece.AdmitsLoosely pieces spans) :
    (captured pieces spans).map Prod.fst = pieces.filterMap Piece.token? := by
  induction admitted with
  | nil => rfl
  | @cons piece span pieces spans _ _ inductionHypothesis =>
      rw [captured_cons, List.map_append, map_fst_captured_singleton, inductionHypothesis]
      cases piece <;> rfl

/-- Without any text no token gets a span. -/
theorem captured_of_flatten_eq_nil {pieces : List Piece} {spans : Spans}
    (admitted : List.Forall₂ Piece.AdmitsLoosely pieces spans) (empty : spans.flatten = []) :
    captured pieces spans = [] := by
  induction admitted with
  | nil => rfl
  | @cons piece span pieces spans admits _ inductionHypothesis =>
      rcases List.append_eq_nil_iff.mp empty with ⟨rfl, others⟩
      cases piece with
      | literal expected => exact inductionHypothesis others
      | wildcard => exact inductionHypothesis others
      | slot token => exact absurd rfl admits

/-- What an expression may leave of a file name: nothing, or one extension. -/
def isSuffix : Text -> Bool
  | [] => true
  | char :: extension => char == '.' && !extension.contains '.'

theorem isSuffix_eq_true_iff {rest : Text} :
    isSuffix rest = true <-> rest = [] ∨ exists tail, rest = '.' :: tail ∧ '.' ∉ tail := by
  cases rest with
  | nil => simp [isSuffix]
  | cons char rest =>
      simp only [isSuffix, Bool.and_eq_true, beq_iff_eq, Bool.not_eq_true', List.cons_ne_nil,
        false_or, List.cons.injEq]
      constructor
      · rintro ⟨rfl, undotted⟩
        exact ⟨rest, ⟨rfl, rfl⟩, by simpa using undotted⟩
      · rintro ⟨tail, ⟨rfl, rfl⟩, undotted⟩
        exact ⟨rfl, by simpa using undotted⟩

theorem AtMostAsLong.not_lex {first second : Spans} (atMost : AtMostAsLong first second) :
    ¬ List.Lex (· < ·) (second.map List.length) (first.map List.length) := by
  intro lex
  rcases atMost with same | before
  · rw [same] at lex
    exact List.lt_irrefl _ lex
  · exact List.lt_asymm lex before

/-- The stem is followed by the extension, if there is one. -/
theorem append_find?_splits {pieces : List Piece} {stem tail : Text} {others : Spans}
    (undotted : '.' ∉ tail) (isLoose : IsLooseCut pieces stem others) :
    exists spans,
      (splits pieces (stem ++ '.' :: tail)).find? (fun split => isSuffix split.2) =
        some (spans, '.' :: tail) ∧ IsShortestLooseCut pieces stem spans := by
  have extension : isSuffix ('.' :: tail) = true :=
    isSuffix_eq_true_iff.mpr (Or.inr ⟨tail, rfl, undotted⟩)
  have listed := mem_splits_of_isLooseCut isLoose ('.' :: tail)
  rcases exists_find?_splits (fun split => isSuffix split.2) listed extension with
    ⟨⟨spans, rest⟩, chosen, member, suffix, least⟩
  rcases mem_splits_iff.mp member with ⟨admitted, joined⟩
  have atMost : forall other, IsLooseCut pieces stem other -> AtMostAsLong spans other :=
    fun other isOther => least (other, _) (mem_splits_of_isLooseCut isOther _) extension
  rcases isSuffix_eq_true_iff.mp suffix with rfl | ⟨behind, rfl, plain⟩
  · -- A cut of the whole name would give way to a shorter one of the stem.
    rw [List.append_nil] at joined
    rcases exists_shorter_isLooseCut (List.cons_ne_nil '.' tail) ⟨admitted, joined⟩ List.suffix_rfl
      isLoose with ⟨shorter, isLooseShorter, lex⟩
    exact absurd lex (atMost shorter isLooseShorter).not_lex
  · have same := congrArg Path.splitLastDot? joined
    rw [Path.splitLastDot?_append _ plain, Path.splitLastDot?_append _ undotted] at same
    cases same
    exact ⟨spans, chosen, ⟨admitted, rfl⟩, atMost⟩

/-- A file name whose stem has a loose cut is split like the stem.  Only a name
that is nothing but a dot and an extension may be left as a whole, by pieces
without tokens. -/
theorem exists_find?_splits_isSuffix {pieces : List Piece} {file : Text} {others : Spans}
    (isLoose : IsLooseCut pieces (Path.stem file) others) :
    exists first spans, (splits pieces file).find? (fun split => isSuffix split.2) = some first ∧
      IsShortestLooseCut pieces (Path.stem file) spans ∧
      captured pieces first.1 = captured pieces spans := by
  rcases Path.stem_cases file with ⟨tail, undotted, written⟩ | ⟨whole, onlyInFront⟩
  · rcases append_find?_splits undotted isLoose with ⟨spans, chosen, shortest⟩
    rw [← written] at chosen
    exact ⟨_, spans, chosen, shortest, rfl⟩
  · rw [whole] at isLoose ⊢
    rcases exists_find?_splits (fun split => isSuffix split.2)
      (mem_splits_of_whole isLoose) rfl with ⟨⟨spans, rest⟩, chosen, member, suffix, least⟩
    rcases mem_splits_iff.mp member with ⟨admitted, joined⟩
    rcases isSuffix_eq_true_iff.mp suffix with rfl | ⟨tail, rfl, undotted⟩
    · rw [List.append_nil] at joined
      refine ⟨_, spans, chosen, ⟨⟨admitted, joined⟩, ?_⟩, rfl⟩
      intro other isOther
      exact least (other, []) (mem_splits_of_whole isOther) rfl
    · rcases exists_find?_splits_isEmpty isLoose with ⟨chosenWhole, _, shortest⟩
      have none := captured_of_flatten_eq_nil admitted (onlyInFront _ _ undotted joined.symm)
      have tokens := map_fst_captured_of_loosely shortest.admitted
      rw [← map_fst_captured_of_loosely admitted, none] at tokens
      exact ⟨_, chosenWhole, chosen, shortest, none.trans (List.map_eq_nil_iff.mp tokens).symm⟩

/-! ## Segments -/

/-- The pieces of a segment that describes one name.  A wildcard for whole
folders has none. -/
def pieces? : Segment -> Option (List Piece)
  | .literal text => some [.literal text]
  | .slot token => some [.slot token]
  | .composite pieces => some pieces
  | .anyFolder | .anyFolders => none

/-- What the tokens of a segment get in the loose cut that counts. -/
def LooselyCaptures (segment : Segment) (text : Text) (captures : List (Token × Text)) : Prop :=
  match segment.pieces? with
  | none => captures = []
  | some pieces =>
      exists spans, IsShortestLooseCut pieces text spans ∧ captures = captured pieces spans

theorem looselyCaptures_iff {segment : Segment} {pieces : List Piece}
    (has : segment.pieces? = some pieces) {text : Text} {captures : List (Token × Text)} :
    segment.LooselyCaptures text captures <->
      exists spans, IsShortestLooseCut pieces text spans ∧ captures = captured pieces spans := by
  rw [LooselyCaptures, has]

theorem exists_isLooseCut_of_describes {segment : Segment} {text : Text} {pieces : List Piece}
    (has : segment.pieces? = some pieces) (describes : segment.Describes text) :
    exists spans, IsLooseCut pieces text spans := by
  cases segment with
  | anyFolder => cases has
  | anyFolders => cases has
  | literal expected =>
      cases has
      exact ⟨[text], .cons describes .nil, List.append_nil text⟩
  | slot token =>
      cases has
      rcases describes with ⟨visible, listed, _⟩
      exact ⟨[text], .cons (List.ne_nil_of_mem listed) .nil, List.append_nil text⟩
  | composite pieces =>
      cases has
      rcases describes with ⟨spans, isCut⟩
      exact ⟨spans, isCut.isLooseCut⟩

theorem exists_looselyCaptures_of_describes {segment : Segment} {text : Text}
    (describes : segment.Describes text) :
    exists captures, segment.LooselyCaptures text captures := by
  cases has : segment.pieces? with
  | none =>
      refine ⟨[], ?_⟩
      rw [LooselyCaptures, has]
  | some pieces =>
      rcases exists_isLooseCut_of_describes has describes with ⟨others, isLoose⟩
      rcases exists_find?_splits_isEmpty isLoose with ⟨spans, _, shortest⟩
      exact ⟨_, (looselyCaptures_iff has).mpr ⟨spans, shortest, rfl⟩⟩

theorem LooselyCaptures.map_fst {segment : Segment} {text : Text} {captures : List (Token × Text)}
    (loosely : segment.LooselyCaptures text captures) :
    captures.map Prod.fst = segment.tokens := by
  cases segment with
  | anyFolder | anyFolders =>
      cases loosely
      rfl
  | literal | slot | composite =>
      rcases loosely with ⟨spans, shortest, rfl⟩
      exact map_fst_captured_of_loosely shortest.admitted

/-- If all tokens get something to see, the segment captures the same. -/
theorem LooselyCaptures.capture_eq {segment : Segment} {text : Text}
    {captures : List (Token × Text)} (loosely : segment.LooselyCaptures text captures)
    (describes : segment.Describes text)
    (visible : forall capture, capture ∈ captures -> capture.2.isVisible = true) :
    segment.capture text = some captures := by
  cases segment with
  | anyFolder | anyFolders =>
      cases loosely
      rfl
  | literal expected =>
      have none := loosely.map_fst
      rw [List.map_eq_nil_iff.mp none]
      exact if_pos describes.symm
  | slot token =>
      rcases loosely with ⟨spans, shortest, rfl⟩
      rcases shortest.toIsLooseCut.uncons with ⟨span, rest, others, rfl, rfl, nonempty, later⟩
      rcases later with ⟨admitted, joined⟩
      cases admitted
      cases joined
      rw [List.flatten_nil, List.append_nil, capture, if_neg]
      · rfl
      · exact fun empty => nonempty (List.isEmpty_iff.mp empty)
  | composite pieces =>
      rcases loosely with ⟨spans, shortest, rfl⟩
      rw [capture, (cut_eq_some_iff _ _ _).mpr (shortest.isShortestCut visible), Option.map_some,
        tokenSpans_eq_captured]

end Segment
end SongPath
