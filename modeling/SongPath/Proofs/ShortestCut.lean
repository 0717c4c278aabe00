import Mathlib.Data.List.Forall2
import SongPath.Segment.Capture

/-!
# The cut of a composite segment

A composite describes a text if the text falls into consecutive spans, one per
piece, that the pieces admit.  Usually there are many such cuts.  The order
that decides between them compares the lengths of the spans, first span first.

The table of `Segment.cuts` fills one entry per suffix and never compares two
cuts, so neither the existence of a cut nor the order shows in it.  Here the
table is first read as a recursion on pieces and text, and then that recursion
is shown to find a cut whenever there is one, and the least of them.
-/

namespace SongPath

/-- The spans that a piece admits: a literal only itself, a token any text with
a character that is not blank, a wildcard every text. -/
def Piece.Admits : Piece -> Text -> Prop
  | .literal expected, span => span = expected
  | .slot _, span => exists char, char ∈ span ∧ isBlank char = false
  | .wildcard, _ => True

namespace Segment

/-- The spans, one per piece, are admitted and make up the whole text. -/
structure IsCut (pieces : List Piece) (text : Text) (spans : Spans) : Prop where
  admitted : List.Forall₂ Piece.Admits pieces spans
  joined : spans.flatten = text

/-- The lengths of the first spans come before those of the second in
lexicographic order, or are the same. -/
def AtMostAsLong (first second : Spans) : Prop :=
  first.map List.length = second.map List.length ∨
    List.Lex (· < ·) (first.map List.length) (second.map List.length)

/-- The cut that counts. -/
structure IsShortestCut (pieces : List Piece) (text : Text) (spans : Spans) : Prop extends
    IsCut pieces text spans where
  shortest : forall other, IsCut pieces text other -> AtMostAsLong spans other

/-- The spans of the tokens with their tokens, in piece order. -/
def captured (pieces : List Piece) (spans : Spans) : List (Token × Text) :=
  (pieces.zip spans).filterMap fun pair => pair.1.token?.map fun token => (token, pair.2)

/-! ## The order of cuts -/

theorem AtMostAsLong.refl (spans : Spans) : AtMostAsLong spans spans :=
  Or.inl rfl

theorem atMostAsLong_cons_iff (span other : Text) (spans others : Spans) :
    AtMostAsLong (span :: spans) (other :: others) <->
      span.length < other.length ∨ span.length = other.length ∧ AtMostAsLong spans others := by
  simp only [AtMostAsLong, List.map_cons, List.cons_eq_cons, List.cons_lex_cons_iff]
  constructor
  · rintro (⟨same, rest⟩ | shorter | ⟨same, rest⟩)
    · exact Or.inr ⟨same, Or.inl rest⟩
    · exact Or.inl shorter
    · exact Or.inr ⟨same, Or.inr rest⟩
  · rintro (shorter | ⟨same, rest | rest⟩)
    · exact Or.inr (Or.inl shorter)
    · exact Or.inl ⟨same, rest⟩
    · exact Or.inr (Or.inr ⟨same, rest⟩)

/-- Both first spans may be lengthened by one character. -/
theorem AtMostAsLong.grow {char other : Char} {spans : Spans} {span : Text} {others : Spans}
    (least : AtMostAsLong spans (span :: others)) :
    AtMostAsLong (Segment.grow char spans) ((other :: span) :: others) := by
  cases spans with
  | nil =>
      rcases least with same | _
      · cases same
      · exact Or.inr List.Lex.nil
  | cons first spans =>
      rcases (atMostAsLong_cons_iff first span spans others).mp least with shorter | ⟨same, rest⟩
      · exact (atMostAsLong_cons_iff _ _ _ _).mpr (Or.inl (Nat.succ_lt_succ shorter))
      · exact (atMostAsLong_cons_iff _ _ _ _).mpr (Or.inr ⟨congrArg Nat.succ same, rest⟩)

theorem AtMostAsLong.antisymm {first second : Spans} (below : AtMostAsLong first second)
    (above : AtMostAsLong second first) :
    first.map List.length = second.map List.length := by
  rcases below with same | before
  · exact same
  · rcases above with same | behind
    · exact same.symm
    · exact absurd behind (List.lt_asymm before)

/-- A shortest cut is the only one: its text and its lengths fix the spans. -/
theorem IsShortestCut.unique {pieces : List Piece} {text : Text} {first second : Spans}
    (one : IsShortestCut pieces text first) (other : IsShortestCut pieces text second) :
    first = second := by
  refine List.eq_iff_flatten_eq.mpr ⟨one.joined.trans other.joined.symm, ?_⟩
  exact (one.shortest second other.toIsCut).antisymm (other.shortest first one.toIsCut)

/-! ## The table as a recursion -/

/-- Behind the entry of a text stand the entries of its proper suffixes. -/
theorem drop_one_cuts (pieces : List Piece) (char : Char) (rest : Text) :
    (cuts pieces (char :: rest)).drop 1 = cuts pieces rest := by
  induction pieces with
  | nil => rfl
  | cons piece pieces inductionHypothesis =>
      cases piece with
      | literal expected =>
          change cutsOfLiteral expected rest
            (((cuts pieces (char :: rest)).drop expected.length).drop 1) = _
          rw [List.drop_drop, Nat.add_comm, ← List.drop_drop, inductionHypothesis]
          rfl
      | slot token =>
          change cutsOfToken rest
            (cutsOfWildcard rest ((cuts pieces (char :: rest)).drop 1)) = _
          rw [inductionHypothesis]
          rfl
      | wildcard =>
          change cutsOfWildcard rest ((cuts pieces (char :: rest)).drop 1) = _
          rw [inductionHypothesis]
          rfl

theorem drop_cuts_append (pieces : List Piece) (before rest : Text) :
    (cuts pieces (before ++ rest)).drop before.length = cuts pieces rest := by
  induction before with
  | nil => rfl
  | cons char before inductionHypothesis =>
      rw [List.length_cons, Nat.add_comm, ← List.drop_drop, List.cons_append, drop_one_cuts,
        inductionHypothesis]

theorem cut_nil (text : Text) : cut [] text = if text = [] then some [] else none := by
  cases text with
  | nil => rfl
  | cons char rest => rfl

private theorem longest_cutsOfLiteral (expected text : Text) (later : Cuts) :
    longest (cutsOfLiteral expected text later) =
      if expected.isPrefixOf text then (longest later).map (expected :: ·) else none := by
  cases text <;> rfl

/-- A literal takes its own length, if it stands there. -/
theorem cut_literal_append (expected : Text) (pieces : List Piece) (rest : Text) :
    cut (.literal expected :: pieces) (expected ++ rest) =
      (cut pieces rest).map (expected :: ·) := by
  have stands : expected.isPrefixOf (expected ++ rest) = true :=
    List.isPrefixOf_iff_prefix.mpr (List.prefix_append expected rest)
  rw [cut, cuts, longest_cutsOfLiteral, if_pos stands, drop_cuts_append]
  rfl

theorem cut_literal_of_absent {expected text : Text} (pieces : List Piece)
    (absent : ¬ expected <+: text) : cut (.literal expected :: pieces) text = none := by
  have differs : ¬ expected.isPrefixOf text = true :=
    fun stands => absent (List.isPrefixOf_iff_prefix.mp stands)
  rw [cut, cuts, longest_cutsOfLiteral, if_neg differs]

theorem cut_wildcard_nil (pieces : List Piece) :
    cut (.wildcard :: pieces) [] = (cut pieces []).map ([] :: ·) :=
  rfl

/-- A wildcard is lengthened only if the empty span leads nowhere. -/
theorem cut_wildcard_cons (pieces : List Piece) (char : Char) (rest : Text) :
    cut (.wildcard :: pieces) (char :: rest) =
      match cut pieces (char :: rest) with
      | some spans => some ([] :: spans)
      | none => (cut (.wildcard :: pieces) rest).map (grow char) := by
  change (match cut pieces (char :: rest) with
    | some spans => some ([] :: spans)
    | none => (longest (cutsOfWildcard rest ((cuts pieces (char :: rest)).drop 1))).map
        (grow char)) = _
  rw [drop_one_cuts]
  rfl

theorem cut_slot_nil (token : Token) (pieces : List Piece) :
    cut (.slot token :: pieces) [] = none :=
  rfl

/-- A token span is lengthened while it is blank, and then goes on as a span of
any length. -/
theorem cut_slot_cons (token : Token) (pieces : List Piece) (char : Char) (rest : Text) :
    cut (.slot token :: pieces) (char :: rest) =
      if isBlank char then (cut (.slot token :: pieces) rest).map (grow char)
      else (cut (.wildcard :: pieces) rest).map (grow char) := by
  change (if isBlank char then
      (longest (cutsOfToken rest
        (cutsOfWildcard rest ((cuts pieces (char :: rest)).drop 1)))).map (grow char)
    else (longest (cutsOfWildcard rest ((cuts pieces (char :: rest)).drop 1))).map (grow char)) = _
  rw [drop_one_cuts]
  rfl

/-! ## Every chosen cut is a cut -/

theorem isCut_nil_iff (text : Text) (spans : Spans) :
    IsCut [] text spans <-> text = [] ∧ spans = [] := by
  constructor
  · rintro ⟨admitted, joined⟩
    cases admitted
    exact ⟨joined.symm, rfl⟩
  · rintro ⟨rfl, rfl⟩
    exact ⟨.nil, rfl⟩

theorem IsCut.cons {piece : Piece} {pieces : List Piece} {span rest : Text} {spans : Spans}
    (admits : piece.Admits span) (later : IsCut pieces rest spans) :
    IsCut (piece :: pieces) (span ++ rest) (span :: spans) :=
  ⟨.cons admits later.admitted, by rw [List.flatten_cons, later.joined]⟩

theorem IsCut.cons_empty {pieces : List Piece} {text : Text} {spans : Spans}
    (later : IsCut pieces text spans) : IsCut (.wildcard :: pieces) text ([] :: spans) :=
  ⟨.cons trivial later.admitted, later.joined⟩

theorem IsCut.uncons {piece : Piece} {pieces : List Piece} {text : Text} {spans : Spans}
    (isCut : IsCut (piece :: pieces) text spans) :
    exists span rest others, spans = span :: others ∧ text = span ++ rest ∧
      piece.Admits span ∧ IsCut pieces rest others := by
  rcases isCut with ⟨admitted, joined⟩
  cases admitted with
  | @cons _ span _ others admits admitted =>
      exact ⟨span, others.flatten, others, rfl, joined.symm, admits, admitted, rfl⟩

/-- A character joins the first span if the piece in front admits that. -/
theorem IsCut.grow {before after : Piece} {pieces : List Piece} {char : Char} {rest : Text}
    {spans : Spans} (admits : forall span, before.Admits span -> after.Admits (char :: span))
    (isCut : IsCut (before :: pieces) rest spans) :
    IsCut (after :: pieces) (char :: rest) (Segment.grow char spans) := by
  rcases isCut.uncons with ⟨span, behind, others, rfl, rfl, admitsSpan, later⟩
  exact IsCut.cons (admits span admitsSpan) later

private theorem isCut_of_cut_wildcard {pieces : List Piece}
    (sound : forall text spans, cut pieces text = some spans -> IsCut pieces text spans)
    (text : Text) (spans : Spans) (found : cut (.wildcard :: pieces) text = some spans) :
    IsCut (.wildcard :: pieces) text spans := by
  induction text generalizing spans with
  | nil =>
      rw [cut_wildcard_nil] at found
      rcases Option.map_eq_some_iff.mp found with ⟨later, foundLater, rfl⟩
      exact IsCut.cons_empty (sound _ _ foundLater)
  | cons char rest inductionHypothesis =>
      rw [cut_wildcard_cons] at found
      split at found
      · next later foundLater =>
          cases found
          exact IsCut.cons_empty (sound _ _ foundLater)
      · rcases Option.map_eq_some_iff.mp found with ⟨shorter, foundShorter, rfl⟩
        exact (inductionHypothesis shorter foundShorter).grow fun _ _ => trivial

private theorem isCut_of_cut_slot {token : Token} {pieces : List Piece}
    (sound : forall text spans, cut pieces text = some spans -> IsCut pieces text spans)
    (text : Text) (spans : Spans) (found : cut (.slot token :: pieces) text = some spans) :
    IsCut (.slot token :: pieces) text spans := by
  induction text generalizing spans with
  | nil => cases found
  | cons char rest inductionHypothesis =>
      rw [cut_slot_cons] at found
      split at found
      · rcases Option.map_eq_some_iff.mp found with ⟨shorter, foundShorter, rfl⟩
        refine (inductionHypothesis shorter foundShorter).grow ?_
        rintro span ⟨visible, listed, seen⟩
        exact ⟨visible, List.mem_cons_of_mem char listed, seen⟩
      · next seen =>
          rcases Option.map_eq_some_iff.mp found with ⟨shorter, foundShorter, rfl⟩
          refine (isCut_of_cut_wildcard sound rest shorter foundShorter).grow ?_
          intro span _
          exact ⟨char, List.mem_cons_self, Bool.eq_false_iff.mpr seen⟩

theorem isCut_of_cut {pieces : List Piece} {text : Text} {spans : Spans}
    (found : cut pieces text = some spans) : IsCut pieces text spans := by
  induction pieces generalizing text spans with
  | nil =>
      rw [cut_nil] at found
      split at found
      · next empty =>
          cases found
          exact (isCut_nil_iff text []).mpr ⟨empty, rfl⟩
      · cases found
  | cons piece pieces inductionHypothesis =>
      cases piece with
      | literal expected =>
          by_cases stands : expected <+: text
          · rcases stands with ⟨rest, rfl⟩
            rw [cut_literal_append] at found
            rcases Option.map_eq_some_iff.mp found with ⟨later, foundLater, rfl⟩
            exact IsCut.cons rfl (inductionHypothesis foundLater)
          · rw [cut_literal_of_absent pieces stands] at found
            cases found
      | slot token => exact isCut_of_cut_slot (fun _ _ => inductionHypothesis) text spans found
      | wildcard => exact isCut_of_cut_wildcard (fun _ _ => inductionHypothesis) text spans found

/-! ## A cut is found, and none is shorter -/

private theorem exists_cut_wildcard_atMostAsLong {pieces : List Piece}
    (least : forall text others, IsCut pieces text others ->
      exists spans, cut pieces text = some spans ∧ AtMostAsLong spans others)
    (span rest : Text) (others : Spans) (later : IsCut pieces rest others) :
    exists spans, cut (.wildcard :: pieces) (span ++ rest) = some spans ∧
      AtMostAsLong spans (span :: others) := by
  induction span with
  | nil =>
      rcases least rest others later with ⟨spans, found, atMost⟩
      refine ⟨[] :: spans, ?_, (atMostAsLong_cons_iff _ _ _ _).mpr (Or.inr ⟨rfl, atMost⟩)⟩
      cases rest with
      | nil => rw [List.nil_append, cut_wildcard_nil, found, Option.map_some]
      | cons char rest => rw [List.nil_append, cut_wildcard_cons, found]
  | cons char span inductionHypothesis =>
      -- An early success is shorter already; otherwise the span grows towards the given one.
      rw [List.cons_append, cut_wildcard_cons]
      cases early : cut pieces (char :: (span ++ rest)) with
      | some spans =>
          refine ⟨[] :: spans, rfl, (atMostAsLong_cons_iff _ _ _ _).mpr (Or.inl ?_)⟩
          exact Nat.zero_lt_succ span.length
      | none =>
          rcases inductionHypothesis with ⟨spans, found, atMost⟩
          exact ⟨grow char spans, by rw [found, Option.map_some], atMost.grow⟩

private theorem exists_cut_slot_atMostAsLong {pieces : List Piece} (token : Token)
    (least : forall text others, IsCut pieces text others ->
      exists spans, cut pieces text = some spans ∧ AtMostAsLong spans others)
    (span rest : Text) (others : Spans) (admits : (Piece.slot token).Admits span)
    (later : IsCut pieces rest others) :
    exists spans, cut (.slot token :: pieces) (span ++ rest) = some spans ∧
      AtMostAsLong spans (span :: others) := by
  induction span with
  | nil =>
      rcases admits with ⟨visible, listed, _⟩
      cases listed
  | cons char span inductionHypothesis =>
      rw [List.cons_append, cut_slot_cons]
      cases blank : isBlank char with
      | true =>
          have admitsRest : (Piece.slot token).Admits span := by
            rcases admits with ⟨visible, listed, seen⟩
            rcases List.mem_cons.mp listed with rfl | listed
            · rw [blank] at seen
              cases seen
            · exact ⟨visible, listed, seen⟩
          rcases inductionHypothesis admitsRest with ⟨spans, found, atMost⟩
          exact ⟨grow char spans, by rw [if_pos rfl, found, Option.map_some], atMost.grow⟩
      | false =>
          rcases exists_cut_wildcard_atMostAsLong least span rest others later with
            ⟨spans, found, atMost⟩
          refine ⟨grow char spans, ?_, atMost.grow⟩
          rw [if_neg Bool.false_ne_true, found, Option.map_some]

/-- Whatever cut there is, the table holds one that is at most as long.  A
wildcard whose empty span leads to no cut of the rest is lengthened, so an early
choice that fails later is taken back. -/
theorem exists_cut_atMostAsLong {pieces : List Piece} {text : Text} {others : Spans}
    (isCut : IsCut pieces text others) :
    exists spans, cut pieces text = some spans ∧ AtMostAsLong spans others := by
  induction pieces generalizing text others with
  | nil =>
      rcases (isCut_nil_iff text others).mp isCut with ⟨rfl, rfl⟩
      exact ⟨[], rfl, AtMostAsLong.refl []⟩
  | cons piece pieces inductionHypothesis =>
      rcases isCut.uncons with ⟨span, rest, others, rfl, rfl, admits, later⟩
      cases piece with
      | literal expected =>
          cases admits
          rcases inductionHypothesis later with ⟨spans, found, atMost⟩
          refine ⟨span :: spans, ?_, (atMostAsLong_cons_iff _ _ _ _).mpr (Or.inr ⟨rfl, atMost⟩)⟩
          rw [cut_literal_append, found, Option.map_some]
      | slot token =>
          exact exists_cut_slot_atMostAsLong token (fun _ _ => inductionHypothesis) span rest others
            admits later
      | wildcard =>
          exact exists_cut_wildcard_atMostAsLong (fun _ _ => inductionHypothesis) span rest others
            later

/-! ## The chosen cut -/

theorem cut_eq_none_iff (pieces : List Piece) (text : Text) :
    cut pieces text = none <-> ¬ exists spans, IsCut pieces text spans := by
  constructor
  · rintro missing ⟨others, isCut⟩
    rcases exists_cut_atMostAsLong isCut with ⟨spans, found, _⟩
    rw [missing] at found
    cases found
  · intro uncuttable
    cases found : cut pieces text with
    | none => rfl
    | some spans => exact absurd ⟨spans, isCut_of_cut found⟩ uncuttable

theorem cut_eq_some_iff (pieces : List Piece) (text : Text) (spans : Spans) :
    cut pieces text = some spans <-> IsShortestCut pieces text spans := by
  have chosen : forall found, cut pieces text = some found -> IsShortestCut pieces text found := by
    intro found choice
    refine ⟨isCut_of_cut choice, fun others isCut => ?_⟩
    rcases exists_cut_atMostAsLong isCut with ⟨least, again, atMost⟩
    rw [choice] at again
    cases again
    exact atMost
  constructor
  · exact chosen spans
  · intro shortest
    rcases exists_cut_atMostAsLong shortest.toIsCut with ⟨found, choice, _⟩
    rw [choice, (chosen found choice).unique shortest]

theorem tokenSpans_eq_captured (pieces : List Piece) (spans : Spans) :
    tokenSpans pieces spans = captured pieces spans := by
  induction pieces generalizing spans with
  | nil => rfl
  | cons piece pieces inductionHypothesis =>
      cases spans with
      | nil => cases piece <;> rfl
      | cons span spans =>
          cases piece with
          | literal expected => exact inductionHypothesis spans
          | slot token => exact congrArg ((token, span) :: ·) (inductionHypothesis spans)
          | wildcard => exact inductionHypothesis spans

end Segment
end SongPath
