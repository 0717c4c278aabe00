import Mathlib.Data.List.DropRight
import SongPath.Text.Blank

/-!
# Trimming

A trimmed text is a stretch of the text it came from, and trimming it again
changes nothing.  The two ends do not disturb each other: what is dropped at
the back never uncovers a blank at the front.
-/

namespace SongPath
namespace Text

theorem trimEnd_prefix_self (text : Text) : text.trimEnd <+: text :=
  List.rdropWhile_prefix isBlank text

theorem trim_infix_self (text : Text) : text.trim <:+: text :=
  (trimEnd_prefix_self text.trimStart).isInfix.trans (List.dropWhile_suffix isBlank).isInfix

/-- Trimming leaves something exactly if there is something to see. -/
theorem trim_eq_nil_iff (text : Text) : text.trim = [] <-> text.isVisible = false := by
  have atFront : text.trim = [] <-> text.trimStart = [] := by
    refine (List.rdropWhile_eq_nil_iff (p := isBlank)).trans ?_
    rw [← List.dropWhile_eq_nil_iff, trimStart, List.dropWhile_idempotent]
  rw [atFront, trimStart, List.dropWhile_eq_nil_iff]
  simp [isVisible]

/-- Trimming the back keeps the first character or drops everything. -/
theorem trimStart_trimEnd_of_trimStart {text : Text} (trimmed : text.trimStart = text) :
    text.trimEnd.trimStart = text.trimEnd := by
  rcases trimEnd_prefix_self text with ⟨behind, same⟩
  cases kept : text.trimEnd with
  | nil => rfl
  | cons first middle =>
      rw [kept, List.cons_append] at same
      rw [← same, trimStart, List.dropWhile_cons] at trimmed
      split at trimmed
      · have shorter := (List.dropWhile_suffix (l := middle ++ behind) isBlank).length_le
        rw [trimmed, List.length_cons] at shorter
        exact absurd shorter (Nat.not_succ_le_self _)
      · next seen => exact List.dropWhile_cons_of_neg seen

theorem trim_trim (text : Text) : text.trim.trim = text.trim := by
  have front : text.trimStart.trimStart = text.trimStart := List.dropWhile_idempotent isBlank _
  rw [trim, trim, trimStart_trimEnd_of_trimStart front]
  exact List.rdropWhile_idempotent isBlank text.trimStart

/-- A text that is left by trimming, and is not empty, has something to see. -/
theorem isVisible_of_trim_eq_self {text : Text} (nonempty : text ≠ [])
    (trimmed : text.trim = text) : text.isVisible = true := by
  cases visible : text.isVisible with
  | true => rfl
  | false => exact absurd (trimmed.symm.trans ((trim_eq_nil_iff text).mpr visible)) nonempty

/-- A text that trimming keeps begins with something to see, if with anything. -/
theorem trimStart_of_trim_eq_self {text : Text} (trimmed : text.trim = text) :
    text.trimStart = text := by
  have shorter := (trimEnd_prefix_self text.trimStart).length_le
  rw [← trim, trimmed] at shorter
  exact (List.dropWhile_suffix isBlank).eq_of_length_le shorter

theorem trimEnd_append_of_blank (text : Text) {back : Text}
    (blank : forall char, char ∈ back -> isBlank char = true) :
    (text ++ back).trimEnd = text.trimEnd := by
  have blankReversed : forall char, char ∈ back.reverse -> isBlank char = true := by
    intro char listed
    exact blank char (List.mem_reverse.mp listed)
  rw [trimEnd, List.reverse_append, List.dropWhile_append_of_pos blankReversed, trimEnd]

/-- Trimming takes off blanks that were put around a trimmed text, and nothing
else. -/
theorem trim_padded {front text back : Text}
    (blankFront : forall char, char ∈ front -> isBlank char = true)
    (trimmed : text.trim = text)
    (blankBack : forall char, char ∈ back -> isBlank char = true) :
    Text.trim (front ++ (text ++ back)) = text := by
  have kept : List.dropWhile isBlank text = text := trimStart_of_trim_eq_self trimmed
  have keptEnd : text.trimEnd = text := by
    rwa [trim, trimStart_of_trim_eq_self trimmed] at trimmed
  rw [trim, trimStart, List.dropWhile_append_of_pos blankFront, List.dropWhile_append, kept]
  split
  · next empty =>
      rw [List.dropWhile_eq_nil_iff.mpr blankBack, List.isEmpty_iff.mp empty]
      rfl
  · rw [trimEnd_append_of_blank text blankBack, keptEnd]

/-- What trimming takes off is blank. -/
theorem exists_padding (text : Text) :
    exists front back, front ++ (text.trim ++ back) = text ∧
      (forall char, char ∈ front -> isBlank char = true) ∧
      forall char, char ∈ back -> isBlank char = true := by
  refine ⟨text.takeWhile isBlank, text.trimStart.rtakeWhile isBlank, ?_,
    fun _ => List.mem_takeWhile_imp, fun _ => List.mem_rtakeWhile_imp⟩
  have whole : text.trim ++ text.trimStart.rtakeWhile isBlank = text.trimStart :=
    List.rdropWhile_append_rtakeWhile
  rw [whole]
  exact List.takeWhile_append_dropWhile

end Text
end SongPath
