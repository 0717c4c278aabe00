import SongPath.Text

/-!
# Regular expressions

The fragment of regular expressions that describes patterns, as a sequence of
items, and its text.  The sequence is part of the type: every item carries what
follows it, so two different expressions never stand for the same sequence, and
a repetition can belong to nothing but a character class or a group.
-/

namespace SongPath

/-- How often an item is matched.  The lazy forms prefer fewer rounds. -/
inductive Repetition where
  | once
  | optional
  | many
  | lazyMany
  | some
  | lazySome
  deriving DecidableEq, Repr

/-- A set of characters: one, or all but the listed ones. -/
inductive CharClass where
  | only (symbol : Char)
  | noneOf (excluded : List Char)
  deriving DecidableEq, Repr

/-- A regular expression, read from left to right.  The anchors stand for the
two ends of the text; a group with a name captures what it matches. -/
inductive Regex where
  | done
  | start (rest : Regex)
  | finish (rest : Regex)
  | one (symbols : CharClass) (repetition : Repetition) (rest : Regex)
  | group (name : Option Text) (inner : Regex) (repetition : Repetition) (rest : Regex)
  deriving DecidableEq, Repr

namespace Repetition

/-- The written quantifier. -/
def render : Repetition -> Text
  | .once => []
  | .optional => ['?']
  | .many => ['*']
  | .lazyMany => ['*', '?']
  | .some => ['+']
  | .lazySome => ['+', '?']

end Repetition

namespace CharClass

/-- The characters that are written with a backslash to stand for themselves. -/
def specials : List Char :=
  ['\\', '.', '+', '*', '?', '(', ')', '|', '[', ']', '{', '}', '^', '$', '#', '&', '-', '~']

/-- A character that stands for itself. -/
def escape (char : Char) : Text :=
  if specials.contains char then ['\\', char] else [char]

/-- The text of a class. -/
def render : CharClass -> Text
  | .only symbol => escape symbol
  | .noneOf excluded => '[' :: '^' :: excluded ++ [']']

end CharClass

namespace Regex

/-- One expression behind another. -/
def append : Regex -> Regex -> Regex
  | .done, later => later
  | .start rest, later => .start (rest.append later)
  | .finish rest, later => .finish (rest.append later)
  | .one symbols repetition rest, later => .one symbols repetition (rest.append later)
  | .group name inner repetition rest, later => .group name inner repetition (rest.append later)

instance : Append Regex :=
  ⟨append⟩

/-- A text that stands for itself. -/
def ofText (text : Text) : Regex :=
  text.foldr (fun symbol rest => .one (.only symbol) .once rest) .done

/-- How a group opens. -/
def opening : Option Text -> Text
  | none => ['(', '?', ':']
  | some name => '(' :: '?' :: 'P' :: '<' :: name ++ ['>']

/-- The text of a regular expression. -/
def render : Regex -> Text
  | .done => []
  | .start rest => '^' :: rest.render
  | .finish rest => '$' :: rest.render
  | .one symbols repetition rest => symbols.render ++ repetition.render ++ rest.render
  | .group name inner repetition rest =>
      opening name ++ inner.render ++ ')' :: repetition.render ++ rest.render

theorem append_done (expression : Regex) : expression ++ .done = expression := by
  change expression.append .done = expression
  induction expression with
  | done => rfl
  | start rest inductionHypothesis => exact congrArg start inductionHypothesis
  | finish rest inductionHypothesis => exact congrArg finish inductionHypothesis
  | one symbols repetition rest inductionHypothesis =>
      exact congrArg (one symbols repetition) inductionHypothesis
  | group name inner repetition rest _ inductionHypothesis =>
      exact congrArg (group name inner repetition) inductionHypothesis

theorem append_assoc (first second third : Regex) :
    first ++ second ++ third = first ++ (second ++ third) := by
  change (first.append second).append third = first.append (second.append third)
  induction first with
  | done => rfl
  | start rest inductionHypothesis => exact congrArg start inductionHypothesis
  | finish rest inductionHypothesis => exact congrArg finish inductionHypothesis
  | one symbols repetition rest inductionHypothesis =>
      exact congrArg (one symbols repetition) inductionHypothesis
  | group name inner repetition rest _ inductionHypothesis =>
      exact congrArg (group name inner repetition) inductionHypothesis

theorem render_append (first second : Regex) :
    (first ++ second).render = first.render ++ second.render := by
  change (first.append second).render = first.render ++ second.render
  induction first with
  | done => rfl
  | start rest inductionHypothesis => simp [append, render, inductionHypothesis]
  | finish rest inductionHypothesis => simp [append, render, inductionHypothesis]
  | one symbols repetition rest inductionHypothesis =>
      simp [append, render, inductionHypothesis]
  | group name inner repetition rest _ inductionHypothesis =>
      simp [append, render, inductionHypothesis]

end Regex
end SongPath
