import Mathlib.Data.List.Chain
import SongPath.Lexeme

/-!
# Canonical lexemes

Reading a part never leaves two literals or two runs of stars side by side:
characters outside braces join the lexeme behind them if they can.  It never
gives an empty literal or an empty run either, and literal text holds neither a
star nor an opening brace.
-/

namespace SongPath
namespace Lexeme

/-- A lexeme that reading may give. -/
def IsSound : Lexeme -> Prop
  | .literal text => text ≠ [] ∧ '{' ∉ text ∧ '*' ∉ text
  | .brace name => '}' ∉ name
  | .stars run => 1 ≤ run

/-- Lexemes that may stand side by side: neither two literals nor two runs. -/
def Apart : Lexeme -> Lexeme -> Prop
  | .literal _, .literal _ => False
  | .stars _, .stars _ => False
  | _, _ => True

/-- The lexemes cannot be merged any further. -/
structure Canonical (lexemes : List Lexeme) : Prop where
  sound : forall lexeme, lexeme ∈ lexemes -> lexeme.IsSound
  apart : lexemes.IsChain Apart

theorem Canonical.nil : Canonical [] :=
  ⟨List.forall_mem_nil _, .nil⟩

theorem Canonical.cons {lexeme : Lexeme} {lexemes : List Lexeme} (sound : lexeme.IsSound)
    (apart : forall next, next ∈ lexemes.head? -> Apart lexeme next)
    (canonical : Canonical lexemes) : Canonical (lexeme :: lexemes) :=
  ⟨List.forall_mem_cons.mpr ⟨sound, canonical.sound⟩,
    List.isChain_cons.mpr ⟨apart, canonical.apart⟩⟩

/-- The first lexeme may be replaced by one that keeps off the same
neighbours. -/
theorem Canonical.replace {first other : Lexeme} {lexemes : List Lexeme}
    (canonical : Canonical (first :: lexemes)) (sound : other.IsSound)
    (keeps : forall next, Apart first next -> Apart other next) :
    Canonical (other :: lexemes) :=
  ⟨List.forall_mem_cons.mpr ⟨sound, (List.forall_mem_cons.mp canonical.sound).2⟩,
    canonical.apart.imp_head fun {next} => keeps next⟩

/-- A character outside braces keeps the lexemes canonical. -/
theorem canonical_push {char : Char} {lexemes : List Lexeme} (plain : char ≠ '{')
    (canonical : Canonical lexemes) : Canonical (push char lexemes) := by
  unfold push
  split
  · split
    · next run rest =>
        refine canonical.replace (Nat.succ_le_succ (Nat.zero_le run)) fun next apart => ?_
        cases next <;> exact apart
    · next noRun =>
        refine canonical.cons (Nat.le_refl 1) fun next first => ?_
        cases next with
        | stars run =>
            rcases List.head?_eq_some_iff.mp first with ⟨rest, same⟩
            exact absurd same (noRun run rest)
        | literal _ => trivial
        | brace _ => trivial
  · next noStar =>
      have single : ('{' ∉ [char]) ∧ '*' ∉ [char] :=
        ⟨fun member => plain (List.mem_singleton.mp member).symm,
          fun member => noStar (List.mem_singleton.mp member).symm⟩
      split
      · next text rest =>
          rcases canonical.sound _ List.mem_cons_self with ⟨_, noBrace, noRun⟩
          refine canonical.replace ⟨List.cons_ne_nil char text, ?_, ?_⟩ fun next apart => ?_
          · exact List.not_mem_cons_of_ne_of_not_mem (Ne.symm plain) noBrace
          · exact List.not_mem_cons_of_ne_of_not_mem (Ne.symm noStar) noRun
          · cases next <;> exact apart
      · next noLiteral =>
          refine canonical.cons ⟨List.cons_ne_nil char [], single⟩ fun next first => ?_
          cases next with
          | literal text =>
              rcases List.head?_eq_some_iff.mp first with ⟨rest, same⟩
              exact absurd same (noLiteral text rest)
          | stars _ => trivial
          | brace _ => trivial

theorem canonical_brace {name : Text} {lexemes : List Lexeme} (closed : '}' ∉ name)
    (canonical : Canonical lexemes) : Canonical (.brace name :: lexemes) :=
  canonical.cons closed fun next _ => by cases next <;> trivial

mutual

theorem canonical_ofText? (text : Text) (lexemes : List Lexeme)
    (reads : ofText? text = some lexemes) : Canonical lexemes := by
  cases text with
  | nil =>
      cases reads
      exact Canonical.nil
  | cons char rest =>
      rw [ofText?] at reads
      split at reads
      · rcases Option.map_eq_some_iff.mp reads with ⟨⟨name, later⟩, readsLater, rfl⟩
        rcases canonical_ofBrace? rest name later readsLater with ⟨closed, canonical⟩
        exact canonical_brace closed canonical
      · next plain =>
          rcases Option.map_eq_some_iff.mp reads with ⟨later, readsLater, rfl⟩
          exact canonical_push plain (canonical_ofText? rest later readsLater)

/-- Inside braces the name ends at the first closing brace. -/
theorem canonical_ofBrace? (text name : Text) (later : List Lexeme)
    (reads : ofBrace? text = some (name, later)) : '}' ∉ name ∧ Canonical later := by
  cases text with
  | nil => cases reads
  | cons char rest =>
      rw [ofBrace?] at reads
      split at reads
      · rcases Option.map_eq_some_iff.mp reads with ⟨found, readsLater, same⟩
        cases same
        exact ⟨List.not_mem_nil, canonical_ofText? rest later readsLater⟩
      · next inner =>
          rcases Option.map_eq_some_iff.mp reads with ⟨⟨found, after⟩, readsLater, same⟩
          cases same
          rcases canonical_ofBrace? rest found later readsLater with ⟨closed, canonical⟩
          exact ⟨List.not_mem_cons_of_ne_of_not_mem (Ne.symm inner) closed, canonical⟩

end

theorem ne_nil_of_ofText? {text : Text} {lexemes : List Lexeme} (nonempty : text ≠ [])
    (reads : ofText? text = some lexemes) : lexemes ≠ [] := by
  intro empty
  have written := source_ofText? text lexemes reads
  rw [empty] at written
  exact nonempty written.symm

theorem mem_of_mem_literal {text part : Text} {lexemes : List Lexeme}
    (reads : ofText? part = some lexemes) (listed : .literal text ∈ lexemes) {char : Char}
    (member : char ∈ text) : char ∈ part := by
  rw [← source_ofText? part lexemes reads]
  exact List.mem_flatMap.mpr ⟨.literal text, listed, member⟩

end Lexeme
end SongPath
