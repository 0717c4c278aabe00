import SongPath.Proofs.CanonicalLexemes

/-!
# Reading lexemes back

Canonical lexemes are read back from the text that they write.  Plain characters
are pushed onto the lexeme behind them until another kind of lexeme begins, and
a group in braces ends at its first closing brace, so no boundary between two
lexemes can move.  A part therefore has at most one division into canonical
lexemes, and it is the one that reading gives.  Reading fails exactly if an
opening brace outside of groups is never closed.
-/

namespace SongPath
namespace Lexeme

/-! ## Runs of characters outside braces -/

theorem ofText?_append {front : Text} (plain : '{' ∉ front) (behind : Text) :
    ofText? (front ++ behind) = (ofText? behind).map fun lexemes => front.foldr push lexemes := by
  induction front with
  | nil => simp only [List.nil_append, List.foldr_nil, Option.map_id']
  | cons char front inductionHypothesis =>
      have notOpening : char ≠ '{' := (List.ne_of_not_mem_cons plain).symm
      have later := inductionHypothesis (List.not_mem_of_not_mem_cons plain)
      rw [List.cons_append, ofText?, if_neg notOpening, later, Option.map_map]
      rfl

theorem ofBrace?_append {name : Text} (closed : '}' ∉ name) (behind : Text) :
    ofBrace? (name ++ '}' :: behind) = (ofText? behind).map fun later => (name, later) := by
  induction name with
  | nil => rw [List.nil_append, ofBrace?, if_pos rfl]
  | cons char name inductionHypothesis =>
      have notClosing : char ≠ '}' := (List.ne_of_not_mem_cons closed).symm
      have later := inductionHypothesis (List.not_mem_of_not_mem_cons closed)
      rw [List.cons_append, ofBrace?, if_neg notClosing, later, Option.map_map]
      rfl

/-- How long a literal is does not matter to its neighbours. -/
private theorem Apart.of_literal {text : Text} (other : Text) {next : Lexeme}
    (apart : Apart (.literal text) next) : Apart (.literal other) next := by
  cases next <;> exact apart

private theorem Apart.of_stars {run : Nat} (other : Nat) {next : Lexeme}
    (apart : Apart (.stars run) next) : Apart (.stars other) next := by
  cases next <;> exact apart

/-- In front of anything but a literal a plain character starts one. -/
private theorem push_of_apart {char : Char} (plain : char ≠ '*') {lexemes : List Lexeme}
    (apart : forall next, next ∈ lexemes.head? -> Apart (.literal [char]) next) :
    push char lexemes = .literal [char] :: lexemes := by
  unfold push
  rw [if_neg plain]
  split
  · exact (apart _ rfl).elim
  · rfl

private theorem push_star_of_apart {lexemes : List Lexeme}
    (apart : forall next, next ∈ lexemes.head? -> Apart (.stars 1) next) :
    push '*' lexemes = .stars 1 :: lexemes := by
  unfold push
  rw [if_pos rfl]
  split
  · exact (apart _ rfl).elim
  · rfl

private theorem foldr_push_literal {text : Text} (nonempty : text ≠ []) (noStar : '*' ∉ text)
    {lexemes : List Lexeme}
    (apart : forall next, next ∈ lexemes.head? -> Apart (.literal text) next) :
    text.foldr push lexemes = .literal text :: lexemes := by
  induction text with
  | nil => exact absurd rfl nonempty
  | cons char rest inductionHypothesis =>
      have plain : char ≠ '*' := (List.ne_of_not_mem_cons noStar).symm
      cases rest with
      | nil => exact push_of_apart plain apart
      | cons second rest =>
          have later := inductionHypothesis (List.cons_ne_nil second rest)
            (List.not_mem_of_not_mem_cons noStar)
            fun next first => (apart next first).of_literal _
          rw [List.foldr_cons, later, push, if_neg plain]

private theorem foldr_push_stars (run : Nat) {lexemes : List Lexeme}
    (apart : forall next, next ∈ lexemes.head? -> Apart (.stars (run + 1)) next) :
    (List.replicate (run + 1) '*').foldr push lexemes = .stars (run + 1) :: lexemes := by
  induction run with
  | zero => exact push_star_of_apart apart
  | succ run inductionHypothesis =>
      have later := inductionHypothesis fun next first => (apart next first).of_stars _
      rw [List.replicate_succ, List.foldr_cons, later, push, if_pos rfl]

/-! ## Lexemes and their text -/

theorem source_brace_append (name behind : Text) :
    source (.brace name) ++ behind = '{' :: (name ++ '}' :: behind) := by
  simp only [source, List.cons_append, List.append_assoc, List.nil_append]

theorem ofText?_flatMap_source {lexemes : List Lexeme} (canonical : Canonical lexemes) :
    ofText? (lexemes.flatMap source) = some lexemes := by
  induction lexemes with
  | nil => rfl
  | cons lexeme lexemes inductionHypothesis =>
      rcases List.forall_mem_cons.mp canonical.sound with ⟨sound, others⟩
      rcases List.isChain_cons.mp canonical.apart with ⟨apart, behind⟩
      have later := inductionHypothesis ⟨others, behind⟩
      rw [List.flatMap_cons]
      cases lexeme with
      | literal text =>
          rcases sound with ⟨nonempty, noBrace, noStar⟩
          rw [source, ofText?_append noBrace, later, Option.map_some,
            foldr_push_literal nonempty noStar apart]
      | stars run =>
          have noBrace : '{' ∉ List.replicate run '*' := by
            intro member
            cases List.eq_of_mem_replicate member
          rcases Nat.exists_eq_succ_of_ne_zero (Nat.ne_of_gt sound) with ⟨fewer, rfl⟩
          rw [source, ofText?_append noBrace, later, Option.map_some,
            foldr_push_stars fewer apart]
      | brace name =>
          rw [source_brace_append, ofText?, if_pos rfl, ofBrace?_append sound, later]
          rfl

/-- Reading gives the one division of a part into canonical lexemes, if there is
any. -/
theorem ofText?_eq_some_iff (part : Text) (lexemes : List Lexeme) :
    ofText? part = some lexemes <-> lexemes.flatMap source = part ∧ Canonical lexemes := by
  constructor
  · intro reads
    exact ⟨source_ofText? part lexemes reads, canonical_ofText? part lexemes reads⟩
  · rintro ⟨rfl, canonical⟩
    exact ofText?_flatMap_source canonical

/-! ## Parts that cannot be read -/

/-- An opening brace that no closing brace follows.  It stands outside of groups,
for what is in front of it has lexemes of its own. -/
def Unclosed (part : Text) : Prop :=
  exists lexemes behind, Canonical lexemes ∧
    part = lexemes.flatMap source ++ '{' :: behind ∧ '}' ∉ behind

private theorem ofBrace?_of_not_mem {text : Text} (absent : '}' ∉ text) : ofBrace? text = none := by
  induction text with
  | nil => rfl
  | cons char text inductionHypothesis =>
      have notClosing : char ≠ '}' := (List.ne_of_not_mem_cons absent).symm
      rw [ofBrace?, if_neg notClosing, inductionHypothesis (List.not_mem_of_not_mem_cons absent)]
      rfl

private theorem ofText?_unclosed_append {lexemes : List Lexeme}
    (sound : forall lexeme, lexeme ∈ lexemes -> lexeme.IsSound) {behind : Text}
    (absent : '}' ∉ behind) : ofText? (lexemes.flatMap source ++ '{' :: behind) = none := by
  induction lexemes with
  | nil =>
      rw [List.flatMap_nil, List.nil_append, ofText?, if_pos rfl, ofBrace?_of_not_mem absent]
      rfl
  | cons lexeme lexemes inductionHypothesis =>
      rcases List.forall_mem_cons.mp sound with ⟨first, others⟩
      have later := inductionHypothesis others
      rw [List.flatMap_cons, List.append_assoc]
      cases lexeme with
      | literal text =>
          rw [source, ofText?_append first.2.1, later]
          rfl
      | stars run =>
          have noBrace : '{' ∉ List.replicate run '*' := by
            intro member
            cases List.eq_of_mem_replicate member
          rw [source, ofText?_append noBrace, later]
          rfl
      | brace name =>
          rw [source_brace_append, ofText?, if_pos rfl, ofBrace?_append first, later]
          rfl

mutual

theorem unclosed_of_ofText? (text : Text) (fails : ofText? text = none) : Unclosed text := by
  cases text with
  | nil => cases fails
  | cons char rest =>
      rw [ofText?] at fails
      split at fails
      · next opens =>
          subst opens
          rcases unclosed_of_ofBrace? rest (Option.map_eq_none_iff.mp fails) with
            absent | ⟨name, _, rfl, closed, lexemes, behind, canonical, rfl, absent⟩
          · exact ⟨[], rest, Canonical.nil, rfl, absent⟩
          · refine ⟨.brace name :: lexemes, behind, canonical_brace closed canonical, ?_, absent⟩
            rw [List.flatMap_cons, List.append_assoc, source_brace_append]
      · next plain =>
          rcases unclosed_of_ofText? rest (Option.map_eq_none_iff.mp fails) with
            ⟨lexemes, behind, canonical, rfl, absent⟩
          refine ⟨push char lexemes, behind, canonical_push plain canonical, ?_, absent⟩
          rw [source_push, List.cons_append]

/-- Inside braces, either the group is not closed or something behind it is not. -/
theorem unclosed_of_ofBrace? (text : Text) (fails : ofBrace? text = none) :
    '}' ∉ text ∨ exists name behind, text = name ++ '}' :: behind ∧ '}' ∉ name ∧
      Unclosed behind := by
  cases text with
  | nil => exact Or.inl List.not_mem_nil
  | cons char rest =>
      rw [ofBrace?] at fails
      split at fails
      · next closes =>
          subst closes
          have later := unclosed_of_ofText? rest (Option.map_eq_none_iff.mp fails)
          exact Or.inr ⟨[], rest, rfl, List.not_mem_nil, later⟩
      · next inner =>
          rcases unclosed_of_ofBrace? rest (Option.map_eq_none_iff.mp fails) with
            absent | ⟨name, behind, rfl, closed, later⟩
          · exact Or.inl (List.not_mem_cons_of_ne_of_not_mem (Ne.symm inner) absent)
          · exact Or.inr ⟨char :: name, behind, rfl,
              List.not_mem_cons_of_ne_of_not_mem (Ne.symm inner) closed, later⟩

end

theorem ofText?_eq_none_iff (part : Text) : ofText? part = none <-> Unclosed part := by
  constructor
  · exact unclosed_of_ofText? part
  · rintro ⟨lexemes, behind, canonical, rfl, absent⟩
    exact ofText?_unclosed_append canonical.sound absent

end Lexeme
end SongPath
