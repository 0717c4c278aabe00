import SongPath.Proofs.NormalForm
import SongPath.Proofs.Trials
import SongPath.Proofs.Trimming

/-!
# Filled segments

A segment is filled by putting texts in the places of its tokens and wildcards.
Reading the filled text again has to find the same texts, although a composite
prefers short spans.  What keeps the spans from being shorter is that a literal
which follows a filler does not stand earlier in the two of them together.
-/

namespace SongPath

/-- A text without separators. -/
def IsPlain (text : Text) : Prop :=
  forall char, char ∈ text -> Path.isSeparator char = false

instance (text : Text) : Decidable (IsPlain text) :=
  List.decidableBAll (fun char => Path.isSeparator char = false) text

/-- A text that a token may stand for. -/
structure IsValue (value : Text) : Prop where
  nonempty : value ≠ []
  trimmed : value.trim = value
  plain : IsPlain value

instance (value : Text) : Decidable (IsValue value) :=
  decidable_of_iff (value ≠ [] ∧ value.trim = value ∧ IsPlain value)
    ⟨fun ⟨nonempty, trimmed, plain⟩ => ⟨nonempty, trimmed, plain⟩,
      fun ⟨nonempty, trimmed, plain⟩ => ⟨nonempty, trimmed, plain⟩⟩

namespace Piece

/-- Neighbours in a segment whose tokens are kept apart. -/
def NotBothSlots : Piece -> Piece -> Prop
  | .slot _, .slot _ => False
  | _, _ => True

instance : DecidableRel NotBothSlots
  | .slot _, .slot _ => isFalse id
  | .slot _, .literal _ | .slot _, .wildcard => isTrue trivial
  | .literal _, _ | .wildcard, _ => isTrue trivial

end Piece

/-- The literal does not stand in the filler followed by it, except at the
end. -/
def StandsOnlyAtEnd (literal filler : Text) : Prop :=
  forall place, place < filler.length -> ¬ literal <+: (filler ++ literal).drop place

instance (literal filler : Text) : Decidable (StandsOnlyAtEnd literal filler) :=
  Nat.decidableBallLT filler.length fun place _ => ¬ literal <+: (filler ++ literal).drop place

namespace Segment

/-- The tokens of a composite are kept apart. -/
def SlotsApart : Segment -> Prop
  | .composite pieces => pieces.IsChain Piece.NotBothSlots
  | _ => True

instance : DecidablePred SlotsApart
  | .composite pieces => inferInstanceAs (Decidable (pieces.IsChain Piece.NotBothSlots))
  | .literal _ | .slot _ | .anyFolder | .anyFolders => isTrue trivial

/-- A filler in front of pieces that start with a literal meets that literal
only where it ends. -/
def ClearOf (filler : Text) : List Piece -> Prop
  | .literal text :: _ => StandsOnlyAtEnd text filler
  | _ => True

/-- The pieces of a composite with the texts in their places. -/
inductive Filled : List Piece -> Spans -> Prop where
  | nil : Filled [] []
  | literal (text : Text) {pieces : List Piece} {spans : Spans} :
      Filled pieces spans -> Filled (.literal text :: pieces) (text :: spans)
  | slot (token : Token) {value : Text} {pieces : List Piece} {spans : Spans} :
      IsValue value -> ClearOf value pieces -> Filled pieces spans ->
      Filled (.slot token :: pieces) (value :: spans)
  | wildcard {text : Text} {pieces : List Piece} {spans : Spans} :
      IsPlain text -> ClearOf text pieces -> Filled pieces spans ->
      Filled (.wildcard :: pieces) (text :: spans)

/-- A segment filled with names: one name, or any number for `**`.  The values
are those of its tokens, in piece order. -/
inductive Fills : Segment -> List Text -> List (Token × Text) -> Prop where
  | literal (text : Text) : Fills (.literal text) [text] []
  | slot (token : Token) {value : Text} :
      IsValue value -> Fills (.slot token) [value] [(token, value)]
  | anyFolder {name : Text} : Path.IsName name -> Fills .anyFolder [name] []
  | anyFolders {names : List Text} :
      (forall name, name ∈ names -> Path.IsName name) -> Fills .anyFolders names []
  | composite {pieces : List Piece} {spans : Spans} :
      Filled pieces spans -> Fills (.composite pieces) [spans.flatten] (captured pieces spans)

/-! ## The spans of a filled composite -/

theorem isCut_of_filled {pieces : List Piece} {spans : Spans} (filled : Filled pieces spans) :
    IsCut pieces spans.flatten spans := by
  induction filled with
  | nil => exact ⟨.nil, rfl⟩
  | literal text _ inductionHypothesis => exact IsCut.cons rfl inductionHypothesis
  | slot token isValue _ _ inductionHypothesis =>
      have visible := Text.isVisible_of_trim_eq_self isValue.nonempty isValue.trimmed
      exact IsCut.cons ((Text.isVisible_eq_true_iff _).mp visible) inductionHypothesis
  | wildcard _ _ _ inductionHypothesis => exact IsCut.cons trivial inductionHypothesis

/-- A cut whose first span is shorter than the filler would find the following
literal too early, or leave something of the filler uncut. -/
private theorem not_length_lt_of_clear {pieces : List Piece} {filler span rest : Text}
    {spans others : Spans}
    (follows : pieces = [] ∨ exists text behind, pieces = .literal text :: behind)
    (clear : ClearOf filler pieces) (isCut : IsCut pieces spans.flatten spans)
    (isOther : IsCut pieces rest others) (same : filler ++ spans.flatten = span ++ rest) :
    ¬ span.length < filler.length := by
  intro shorter
  rcases follows with rfl | ⟨text, behind, rfl⟩
  · rcases (isCut_nil_iff rest others).mp isOther with ⟨rfl, _⟩
    have lengths := congrArg List.length same
    rw [List.length_append, List.length_append, List.length_nil] at lengths
    omega
  · rcases isCut.uncons with ⟨text, tail, _, _, joined, rfl, _⟩
    rcases isOther.uncons with ⟨text, otherTail, _, _, rfl, rfl, _⟩
    refine clear span.length shorter ?_
    -- The other cut has the literal right behind its shorter span, so it starts inside the filler.
    have early : text <+: (filler ++ text ++ tail).drop span.length := by
      rw [List.append_assoc, ← joined, same, List.drop_left]
      exact List.prefix_append text otherTail
    rw [List.drop_append_of_le_length (by rw [List.length_append]; omega)] at early
    refine List.prefix_of_prefix_length_le early (List.prefix_append _ tail) ?_
    rw [List.length_drop, List.length_append]
    omega

/-- No cut of the filled text has a shorter first span, and one with the same
first span cuts the same rest. -/
private theorem atMostAsLong_of_filler {piece : Piece} {pieces : List Piece} {filler : Text}
    {spans others : Spans}
    (follows : pieces = [] ∨ exists text behind, pieces = .literal text :: behind)
    (clear : ClearOf filler pieces) (isCut : IsCut pieces spans.flatten spans)
    (least : forall others, IsCut pieces spans.flatten others -> AtMostAsLong spans others)
    (isOther : IsCut (piece :: pieces) (filler ++ spans.flatten) others) :
    AtMostAsLong (filler :: spans) others := by
  rcases isOther.uncons with ⟨span, rest, others, rfl, same, _, later⟩
  refine (atMostAsLong_cons_iff _ _ _ _).mpr ?_
  rcases Nat.lt_trichotomy filler.length span.length with longer | equal | shorter
  · exact Or.inl longer
  · rcases List.append_inj same equal with ⟨_, rfl⟩
    exact Or.inr ⟨equal, least others later⟩
  · exact absurd shorter (not_length_lt_of_clear follows clear isCut later same)

/-- Behind a token or a wildcard stands a literal, or nothing. -/
private theorem literal_follows {piece : Piece} {pieces : List Piece}
    (filler : forall text, piece ≠ .literal text)
    (ordered : (piece :: pieces).IsChain Piece.MayPrecede)
    (apart : (piece :: pieces).IsChain Piece.NotBothSlots) :
    pieces = [] ∨ exists text behind, pieces = .literal text :: behind := by
  cases pieces with
  | nil => exact Or.inl rfl
  | cons next behind =>
      have mayPrecede := (List.isChain_cons_cons.mp ordered).1
      have notBoth := (List.isChain_cons_cons.mp apart).1
      cases next with
      | literal text => exact Or.inr ⟨text, behind, rfl⟩
      | slot other =>
          cases piece with
          | literal text => exact absurd rfl (filler text)
          | slot token => exact notBoth.elim
          | wildcard => exact mayPrecede.elim
      | wildcard =>
          cases piece with
          | literal text => exact absurd rfl (filler text)
          | slot token => exact mayPrecede.elim
          | wildcard => exact mayPrecede.elim

/-- The texts that were filled in are the spans of the cut that counts. -/
theorem isShortestCut_of_filled {pieces : List Piece} {spans : Spans}
    (filled : Filled pieces spans) (ordered : pieces.IsChain Piece.MayPrecede)
    (apart : pieces.IsChain Piece.NotBothSlots) : IsShortestCut pieces spans.flatten spans := by
  refine ⟨isCut_of_filled filled, ?_⟩
  induction filled with
  | nil =>
      intro others isCut
      rw [((isCut_nil_iff _ _).mp isCut).2]
      exact AtMostAsLong.refl []
  | literal text _ inductionHypothesis =>
      intro others isCut
      rcases isCut.uncons with ⟨span, rest, others, rfl, same, rfl, later⟩
      rw [← List.append_cancel_left same] at later
      refine (atMostAsLong_cons_iff _ _ _ _).mpr (Or.inr ⟨rfl, ?_⟩)
      exact inductionHypothesis ordered.tail apart.tail others later
  | slot token _ clear filled inductionHypothesis =>
      intro others
      have follows := literal_follows (fun _ => Piece.noConfusion) ordered apart
      have least := inductionHypothesis ordered.tail apart.tail
      exact atMostAsLong_of_filler follows clear (isCut_of_filled filled) least
  | wildcard _ clear filled inductionHypothesis =>
      intro others
      have follows := literal_follows (fun _ => Piece.noConfusion) ordered apart
      have least := inductionHypothesis ordered.tail apart.tail
      exact atMostAsLong_of_filler follows clear (isCut_of_filled filled) least

/-! ## A filled segment -/

private theorem token_captures_of_filled {pieces : List Piece} {spans : Spans}
    (filled : Filled pieces spans) (capture : Token × Text)
    (listed : capture ∈ captured pieces spans) : capture.2.trim = capture.2 := by
  induction filled with
  | nil => cases listed
  | literal text _ inductionHypothesis => exact inductionHypothesis listed
  | slot token isValue _ _ inductionHypothesis =>
      rcases List.mem_cons.mp listed with rfl | later
      · exact isValue.trimmed
      · exact inductionHypothesis later
  | wildcard _ _ _ inductionHypothesis => exact inductionHypothesis listed

theorem Fills.trimmed {segment : Segment} {names : List Text} {values : List (Token × Text)}
    (fills : segment.Fills names values) :
    forall value, value ∈ values -> value.2.trim = value.2 := by
  cases fills with
  | literal text => exact List.forall_mem_nil _
  | slot token isValue =>
      intro value listed
      rw [List.mem_singleton.mp listed]
      exact isValue.trimmed
  | anyFolder _ => exact List.forall_mem_nil _
  | anyFolders _ => exact List.forall_mem_nil _
  | composite filled => exact token_captures_of_filled filled

theorem Fills.map_fst {segment : Segment} {names : List Text} {values : List (Token × Text)}
    (fills : segment.Fills names values) : values.map Prod.fst = segment.tokens := by
  cases fills with
  | literal text => rfl
  | slot token _ => rfl
  | anyFolder _ => rfl
  | anyFolders _ => rfl
  | composite filled => exact map_fst_captured (isCut_of_filled filled).admitted

theorem Fills.single {segment : Segment} {names : List Text} {values : List (Token × Text)}
    (fills : segment.Fills names values) (notAnyFolders : segment ≠ .anyFolders) :
    exists name, names = [name] := by
  cases fills with
  | literal text => exact ⟨text, rfl⟩
  | @slot token value _ => exact ⟨value, rfl⟩
  | @anyFolder name _ => exact ⟨name, rfl⟩
  | anyFolders _ => exact absurd rfl notAnyFolders
  | @composite _ spans _ => exact ⟨spans.flatten, rfl⟩

/-- A segment describes the name it is filled with, and captures the values. -/
theorem Fills.captures {segment : Segment} {name : Text} {values : List (Token × Text)}
    (fills : segment.Fills [name] values) (isNormal : segment.IsNormal)
    (apart : segment.SlotsApart) :
    segment.Describes name ∧ segment.capture name = some values := by
  cases fills with
  | literal text => exact ⟨rfl, if_pos rfl⟩
  | slot token isValue =>
      have visible := Text.isVisible_of_trim_eq_self isValue.nonempty isValue.trimmed
      have nonempty : ¬ name.isEmpty = true := by
        intro empty
        exact isValue.nonempty (List.isEmpty_iff.mp empty)
      exact ⟨(Text.isVisible_eq_true_iff _).mp visible, if_neg nonempty⟩
  | anyFolder _ => exact ⟨trivial, rfl⟩
  | anyFolders _ => exact ⟨trivial, rfl⟩
  | @composite pieces spans filled =>
      have shortest := isShortestCut_of_filled filled isNormal.1.ordered apart
      refine ⟨⟨spans, shortest.toIsCut⟩, ?_⟩
      rw [Segment.capture, (cut_eq_some_iff _ _ _).mpr shortest, Option.map_some,
        tokenSpans_eq_captured]

private theorem isPlain_of_filled {pieces : List Piece} {spans : Spans}
    (filled : Filled pieces spans) (sound : forall piece, piece ∈ pieces -> piece.IsSound) :
    IsPlain spans.flatten := by
  induction filled with
  | nil => exact List.forall_mem_nil _
  | literal text _ inductionHypothesis =>
      rcases List.forall_mem_cons.mp sound with ⟨isPlainLiteral, others⟩
      have plain : IsPlain text := by
        intro char inner
        exact (isPlainLiteral.2 char inner).2.2
      exact List.forall_mem_append.mpr ⟨plain, inductionHypothesis others⟩
  | slot token isValue _ _ inductionHypothesis =>
      have others := (List.forall_mem_cons.mp sound).2
      exact List.forall_mem_append.mpr ⟨isValue.plain, inductionHypothesis others⟩
  | wildcard plain _ _ inductionHypothesis =>
      have others := (List.forall_mem_cons.mp sound).2
      exact List.forall_mem_append.mpr ⟨plain, inductionHypothesis others⟩

/-- Only wildcards may be filled with nothing. -/
private theorem flatten_ne_nil_of_filled {pieces : List Piece} {spans : Spans}
    (filled : Filled pieces spans) (sound : forall piece, piece ∈ pieces -> piece.IsSound)
    {piece : Piece} (listed : piece ∈ pieces) (notWildcard : piece ≠ .wildcard) :
    spans.flatten ≠ [] := by
  induction filled with
  | nil => cases listed
  | literal text _ _ =>
      apply List.append_ne_nil_of_left_ne_nil
      exact (sound _ List.mem_cons_self).1
  | slot token isValue _ _ _ =>
      apply List.append_ne_nil_of_left_ne_nil
      exact isValue.nonempty
  | wildcard _ _ _ inductionHypothesis =>
      rcases List.mem_cons.mp listed with same | later
      · exact absurd same notWildcard
      · have others := (List.forall_mem_cons.mp sound).2
        apply List.append_ne_nil_of_right_ne_nil
        exact inductionHypothesis others later

private theorem exists_ne_wildcard {pieces : List Piece} (normal : Piece.Normal pieces)
    (several : 2 ≤ pieces.length) : exists piece, piece ∈ pieces ∧ piece ≠ .wildcard := by
  rcases pieces with _ | ⟨first, _ | ⟨second, pieces⟩⟩
  · cases several
  · exact absurd several (Nat.not_succ_le_self 1)
  · have mayPrecede := (List.isChain_cons_cons.mp normal.ordered).1
    by_cases wildcard : first = .wildcard
    · refine ⟨second, List.mem_cons_of_mem _ List.mem_cons_self, ?_⟩
      rintro rfl
      rw [wildcard] at mayPrecede
      exact mayPrecede
    · exact ⟨first, List.mem_cons_self, wildcard⟩

/-- Filled segments are free of separators; a folder is filled with names. -/
theorem Fills.isPlain {segment : Segment} {names : List Text} {values : List (Token × Text)}
    (fills : segment.Fills names values) (isNormal : segment.IsNormal) :
    forall name, name ∈ names -> IsPlain name := by
  intro name listed
  cases fills with
  | literal text =>
      rw [List.mem_singleton.mp listed]
      intro char inner
      exact (isNormal.2 char inner).2.2
  | slot token isValue =>
      rw [List.mem_singleton.mp listed]
      exact isValue.plain
  | anyFolder isName =>
      rw [List.mem_singleton.mp listed]
      exact isName.2
  | anyFolders each => exact (each name listed).2
  | composite filled =>
      rw [List.mem_singleton.mp listed]
      exact isPlain_of_filled filled isNormal.1.sound

theorem Fills.isName {segment : Segment} {names : List Text} {values : List (Token × Text)}
    (fills : segment.Fills names values) (isNormal : segment.IsNormal)
    (notLone : segment ≠ .composite [.wildcard]) :
    forall name, name ∈ names -> Path.IsName name := by
  intro name listed
  refine ⟨?_, fills.isPlain isNormal name listed⟩
  cases fills with
  | literal text =>
      rw [List.mem_singleton.mp listed]
      exact isNormal.1
  | slot token isValue =>
      rw [List.mem_singleton.mp listed]
      exact isValue.nonempty
  | anyFolder isName =>
      rw [List.mem_singleton.mp listed]
      exact isName.1
  | anyFolders each => exact (each name listed).1
  | @composite pieces spans filled =>
      rw [List.mem_singleton.mp listed]
      rcases isNormal.2 with several | rfl
      · rcases exists_ne_wildcard isNormal.1 several with ⟨piece, member, notWildcard⟩
        exact flatten_ne_nil_of_filled filled isNormal.1.sound member notWildcard
      · exact absurd rfl notLone

end Segment
end SongPath
