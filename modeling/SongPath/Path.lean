import SongPath.Text.Blank

/-!
# Paths

Paths and format specifications are cut into names in the same way: both
slashes separate, and empty names vanish.  They differ in what counts as the
extension of the last name.  For a real file it is everything from the last
dot on.  In a specification the tail after the last dot counts only if it
looks like an extension, so that `Mr. {title}` keeps its dot.
-/

namespace SongPath
namespace Path

/-- Both slashes separate names. -/
def isSeparator (char : Char) : Bool :=
  char == '/' || char == '\\'

/-- The nonempty names of a path, outermost first. -/
def names (path : Text) : List Text :=
  (path.splitOnP isSeparator).filter fun name => !name.isEmpty

/-- A separator ends one name and starts the next. -/
theorem names_append_separator (before after : Text) {char : Char}
    (separator : isSeparator char = true) :
    names (before ++ char :: after) = names before ++ names after := by
  rw [names, List.splitOnP_append_cons before after separator, List.filter_append]
  rfl

theorem names_separator_cons (rest : Text) {char : Char} (separator : isSeparator char = true) :
    names (char :: rest) = names rest :=
  names_append_separator [] rest separator

/-- A nonempty text without separators is a single name. -/
theorem names_of_name {name : Text} (nonempty : name ≠ [])
    (plain : forall char, char ∈ name -> isSeparator char = false) : names name = [name] := by
  rw [names, List.splitOnP_eq_singleton plain]
  cases name with
  | nil => exact absurd rfl nonempty
  | cons _ _ => rfl

/-- The text before the last dot and the text after it. -/
def splitLastDot? : Text -> Option (Text × Text)
  | [] => none
  | char :: rest =>
      match splitLastDot? rest with
      | some (before, after) => some (char :: before, after)
      | none => if char = '.' then some ([], rest) else none

theorem splitLastDot?_eq_none_iff (file : Text) : splitLastDot? file = none <-> '.' ∉ file := by
  induction file with
  | nil => simp [splitLastDot?]
  | cons char rest inductionHypothesis =>
      cases split : splitLastDot? rest with
      | some parts =>
          have dotted : '.' ∈ rest := by
            refine Classical.byContradiction fun undotted => ?_
            rw [inductionHypothesis.mpr undotted] at split
            cases split
          simp [splitLastDot?, split, dotted]
      | none =>
          have undotted := inductionHypothesis.mp split
          by_cases dot : char = '.'
          · simp [splitLastDot?, split, dot]
          · simp [splitLastDot?, split, dot, undotted, Ne.symm dot]

/-- The dot that counts is the one without a later dot. -/
theorem splitLastDot?_append (before : Text) {after : Text} (undotted : '.' ∉ after) :
    splitLastDot? (before ++ '.' :: after) = some (before, after) := by
  induction before with
  | nil => simp [splitLastDot?, (splitLastDot?_eq_none_iff after).mpr undotted]
  | cons char rest inductionHypothesis => simp [splitLastDot?, inductionHypothesis]

/-- A file name without its extension.  A dot in front belongs to the name. -/
def stem (file : Text) : Text :=
  match splitLastDot? file with
  | some (char :: before, _) => char :: before
  | _ => file

/-- The tails that a specification may write out as an extension: `*` alone,
or any text without braces, wildcards and blanks. -/
def isExtension (tail : Text) : Bool :=
  tail == ['*'] || !tail.any fun char => char == '{' || char == '}' || char == '*' || isBlank char

/-- The last name of a specification without a written-out extension. -/
def patternStem (file : Text) : Text :=
  match splitLastDot? file with
  | some (char :: before, tail) => if isExtension tail then char :: before else file
  | _ => file

end Path

/-- A path ready for matching: the folder names from the outermost inwards and
the file name without its extension. -/
structure Candidate where
  folders : List Text
  fileName : Text
  deriving DecidableEq, Repr

namespace Candidate

/-- Normalise a path.  A path without names has an empty file name. -/
def ofPath (path : Text) : Candidate :=
  match (Path.names path).getLast? with
  | none => ⟨[], []⟩
  | some file => ⟨(Path.names path).dropLast, Path.stem file⟩

end Candidate
end SongPath
