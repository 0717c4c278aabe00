import SongPath.Text

/-!
# Lexemes

One part of a specification is read as literal text, placeholders in braces
and runs of stars.  Names are not resolved here: a group in braces is kept as
raw text, so that the rules about its neighbours can be checked before its
name is looked up.  A closing brace without an opening one is literal text.
-/

namespace SongPath

/-- A unit of one part of a specification. -/
inductive Lexeme where
  | literal (text : Text)
  | brace (name : Text)
  | stars (run : Nat)
  deriving DecidableEq, Repr

namespace Lexeme

/-- How a lexeme stands in the specification. -/
def source : Lexeme -> Text
  | .literal text => text
  | .brace name => '{' :: name ++ ['}']
  | .stars run => List.replicate run '*'

/-- Put one character outside braces in front.  It joins a lexeme of its own
kind and otherwise starts one. -/
def push (char : Char) (lexemes : List Lexeme) : List Lexeme :=
  if char = '*' then
    match lexemes with
    | .stars run :: rest => .stars (run + 1) :: rest
    | rest => .stars 1 :: rest
  else
    match lexemes with
    | .literal text :: rest => .literal (char :: text) :: rest
    | rest => .literal [char] :: rest

/-- Pushing writes the character in front and changes nothing else. -/
theorem source_push (char : Char) (lexemes : List Lexeme) :
    (push char lexemes).flatMap source = char :: lexemes.flatMap source := by
  unfold push
  split
  · next star =>
      subst star
      split <;> simp [source, List.replicate_succ]
  · split <;> simp [source]

mutual

/-- The lexemes of a part, read outside braces.  There are none if an opening
brace is never closed. -/
def ofText? : Text -> Option (List Lexeme)
  | [] => some []
  | char :: rest =>
      if char = '{' then (ofBrace? rest).map fun (name, later) => .brace name :: later
      else (ofText? rest).map (push char)

/-- The name up to the next closing brace and the lexemes behind it. -/
def ofBrace? : Text -> Option (Text × List Lexeme)
  | [] => none
  | char :: rest =>
      if char = '}' then (ofText? rest).map fun later => ([], later)
      else (ofBrace? rest).map fun (name, later) => (char :: name, later)

end

mutual

/-- Reading loses nothing: the lexemes write the part they were read from. -/
theorem source_ofText? (text : Text) (lexemes : List Lexeme)
    (reads : ofText? text = some lexemes) : lexemes.flatMap source = text := by
  cases text with
  | nil =>
      cases reads
      rfl
  | cons char rest =>
      rw [ofText?] at reads
      split at reads
      · next opens =>
          obtain ⟨⟨name, later⟩, readsLater, rfl⟩ := Option.map_eq_some_iff.mp reads
          have closed := source_ofBrace? rest name later readsLater
          simp [source, opens, closed]
      · obtain ⟨later, readsLater, rfl⟩ := Option.map_eq_some_iff.mp reads
        rw [source_push, source_ofText? rest later readsLater]

/-- Inside braces, the name and its closing brace come before the lexemes. -/
theorem source_ofBrace? (text name : Text) (later : List Lexeme)
    (reads : ofBrace? text = some (name, later)) :
    name ++ '}' :: later.flatMap source = text := by
  cases text with
  | nil => cases reads
  | cons char rest =>
      rw [ofBrace?] at reads
      split at reads
      · next closes =>
          obtain ⟨found, readsLater, same⟩ := Option.map_eq_some_iff.mp reads
          cases same
          rw [source_ofText? rest later readsLater, closes]
          rfl
      · obtain ⟨⟨found, after⟩, readsLater, same⟩ := Option.map_eq_some_iff.mp reads
        cases same
        have inner := source_ofBrace? rest found later readsLater
        simp [← inner]

end

end Lexeme
end SongPath
