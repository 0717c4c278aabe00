import SongPath.Proofs.Tokenization
import SongPath.Segment.Grammar

/-!
# The one reading of a part

Whether a part can be read is decided by a scan from left to right that knows
nothing of lexemes: it passes over each group in braces as a whole and stops at
the first opening brace that no closing brace follows.  Such a brace is what
makes a part defective.  Every other part has exactly one list of canonical
lexemes that writes it, and reading finds that list.
-/

namespace SongPath
namespace Lexeme

/-- A scan from left to right, over each group up to its first closing brace,
meets an opening brace without a later closing one. -/
inductive MeetsUnclosed : Text -> Prop
  | here {behind : Text} (absent : '}' ∉ behind) : MeetsUnclosed ('{' :: behind)
  | overGroup {name behind : Text} (closed : '}' ∉ name) (later : MeetsUnclosed behind) :
      MeetsUnclosed ('{' :: (name ++ '}' :: behind))
  | overChar {char : Char} {behind : Text} (plain : char ≠ '{') (later : MeetsUnclosed behind) :
      MeetsUnclosed (char :: behind)

theorem MeetsUnclosed.append_plain {front behind : Text} (plain : '{' ∉ front)
    (later : MeetsUnclosed behind) : MeetsUnclosed (front ++ behind) := by
  induction front with
  | nil => exact later
  | cons char front inductionHypothesis =>
      have notOpening : char ≠ '{' := (List.ne_of_not_mem_cons plain).symm
      exact .overChar notOpening (inductionHypothesis (List.not_mem_of_not_mem_cons plain))

/-- The scan gets over every lexeme that reading may give. -/
theorem MeetsUnclosed.append_source {lexeme : Lexeme} {behind : Text} (sound : lexeme.IsSound)
    (later : MeetsUnclosed behind) : MeetsUnclosed (lexeme.source ++ behind) := by
  cases lexeme with
  | literal text => exact later.append_plain sound.2.1
  | stars run =>
      refine later.append_plain fun member => ?_
      cases List.eq_of_mem_replicate member
  | brace name =>
      rw [source_brace_append]
      exact .overGroup sound later

theorem meetsUnclosed_of_unclosed {part : Text} (unclosed : Unclosed part) :
    MeetsUnclosed part := by
  rcases unclosed with ⟨lexemes, behind, canonical, rfl, absent⟩
  have sound := canonical.sound
  clear canonical
  induction lexemes with
  | nil => exact .here absent
  | cons lexeme lexemes inductionHypothesis =>
      rcases List.forall_mem_cons.mp sound with ⟨first, others⟩
      rw [List.flatMap_cons, List.append_assoc]
      exact (inductionHypothesis others).append_source first

/-- Where the scan stops, the lexemes in front are those that it has passed. -/
theorem unclosed_of_meetsUnclosed {part : Text} (meets : MeetsUnclosed part) : Unclosed part := by
  induction meets with
  | here absent => exact ⟨[], _, Canonical.nil, rfl, absent⟩
  | @overGroup name _ closed _ inductionHypothesis =>
      rcases inductionHypothesis with ⟨lexemes, behind, canonical, rfl, absent⟩
      refine ⟨.brace name :: lexemes, behind, canonical_brace closed canonical, ?_, absent⟩
      rw [List.flatMap_cons, List.append_assoc, source_brace_append]
  | @overChar char _ plain _ inductionHypothesis =>
      rcases inductionHypothesis with ⟨lexemes, behind, canonical, rfl, absent⟩
      refine ⟨push char lexemes, behind, canonical_push plain canonical, ?_, absent⟩
      rw [source_push, List.cons_append]

theorem ofText?_eq_none_iff_meetsUnclosed (part : Text) :
    ofText? part = none <-> MeetsUnclosed part :=
  (ofText?_eq_none_iff part).trans ⟨meetsUnclosed_of_unclosed, unclosed_of_meetsUnclosed⟩

/-- No other check on a part speaks of unclosed braces. -/
theorem lexemes_eq_unclosedToken_iff (part : Text) :
    Segment.lexemes part = .error (.unclosedToken part) <-> ofText? part = none := by
  rw [Segment.lexemes]
  cases ofText? part with
  | none => exact iff_of_true rfl rfl
  | some lexemes =>
      refine iff_of_false (fun fails => ?_) (Option.some_ne_none lexemes)
      dsimp only at fails
      split at fails
      · cases fails
      · cases fails

/-- Reading fails, and the part is refused as unclosed, exactly if the scan meets
an unclosed brace.  Otherwise reading gives canonical lexemes that write the
part, and no other list of lexemes is canonical and writes it. -/
theorem ofText?_only_reading (part : Text) :
    (ofText? part = none <-> MeetsUnclosed part) ∧
    (Segment.lexemes part = .error (.unclosedToken part) <-> MeetsUnclosed part) ∧
    (MeetsUnclosed part ∨ exists lexemes, ofText? part = some lexemes ∧
      forall others, others.flatMap source = part ∧ Canonical others <-> others = lexemes) := by
  have fails := ofText?_eq_none_iff_meetsUnclosed part
  refine ⟨fails, (lexemes_eq_unclosedToken_iff part).trans fails, ?_⟩
  cases reads : ofText? part with
  | none => exact Or.inl (fails.mp reads)
  | some lexemes =>
      refine Or.inr ⟨lexemes, rfl, fun others => ?_⟩
      rw [← ofText?_eq_some_iff, reads, Option.some_inj]
      exact eq_comm

/-- A closing brace without an opening one is literal text, and a group may hold
anything else. -/
example : ofText? "a\x7d\x7b*\x7bb\x7d***".toList =
    some [.literal ['a', '}'], .brace ['*', '{', 'b'], .stars 3] := by
  decide +kernel

end Lexeme
end SongPath
