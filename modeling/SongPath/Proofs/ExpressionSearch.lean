import Mathlib.Data.List.Infix
import SongPath.Proofs.LeftmostFirst
import SongPath.Regex

/-!
# Searching with an expression

The meaning of expressions: every attempt of a search by backtracking to match
a text, in the order in which the attempts are made.  A search goes through the
places of the text from left to right and takes the first attempt at the first
place that has one.

Attempts in a row compose like functions, so the attempts of an expression
behind another one are those of the two in a row, and the attempts of a
repeated class are those of an atom.
-/

namespace SongPath
namespace Regex

/-- An attempt that came through: what it took, what its named groups took, and
what it left of the text. -/
structure Reach where
  taken : Text
  groups : List (Text × Text)
  rest : Text
  deriving DecidableEq, Repr

namespace Reach

/-- Take nothing. -/
def nothing (text : Text) : Reach :=
  ⟨[], [], text⟩

/-- One attempt behind another one that left what this one starts with. -/
def followedBy (first later : Reach) : Reach :=
  ⟨first.taken ++ later.taken, first.groups ++ later.groups, later.rest⟩

/-- The attempt as that of a group. -/
def capturedAs (name : Option Text) (reach : Reach) : Reach :=
  match name with
  | none => reach
  | some name => { reach with groups := reach.groups ++ [(name, reach.taken)] }

/-- What a group took, in the last round if it was repeated. -/
def group? (reach : Reach) (name : Text) : Option Text :=
  (reach.groups.reverse.find? fun group => group.1 == name).map Prod.snd

@[simp] theorem followedBy_nothing (reach : Reach) :
    reach.followedBy (nothing reach.rest) = reach := by
  simp [followedBy, nothing]

@[simp] theorem nothing_followedBy (text : Text) (reach : Reach) :
    (nothing text).followedBy reach = reach := by
  simp [followedBy, nothing]

theorem followedBy_assoc (first second third : Reach) :
    (first.followedBy second).followedBy third = first.followedBy (second.followedBy third) := by
  simp [followedBy]

end Reach

/-! ## The attempts of an expression -/

/-- Two ways to attempt a text, one behind the other.  The second is tried anew
for every attempt of the first. -/
def inRow (first second : Text -> List Reach) (text : Text) : List Reach :=
  (first text).flatMap fun reach => (second reach.rest).map reach.followedBy

/-- Rounds of a step, as many as possible first, or as few as possible first.  A
round has to take something, so the length of the text bounds their number. -/
def rounds (fewest : Bool) (step : Text -> List Reach) : Nat -> Text -> List Reach
  | 0, text => [.nothing text]
  | bound + 1, text =>
      let more :=
        inRow (fun text => (step text).filter fun reach => reach.rest.length < text.length)
          (rounds fewest step bound) text
      if fewest then .nothing text :: more else more ++ [.nothing text]

/-- A step that is repeated. -/
def repeated (step : Text -> List Reach) : Repetition -> Text -> List Reach
  | .once, text => step text
  | .optional, text => step text ++ [.nothing text]
  | .many, text => rounds false step text.length text
  | .lazyMany, text => rounds true step text.length text
  | .some, text => inRow step (fun text => rounds false step text.length text) text
  | .lazySome, text => inRow step (fun text => rounds true step text.length text) text

/-- The characters of a class. -/
def admits : CharClass -> Char -> Bool
  | .only symbol, char => char == symbol
  | .noneOf excluded, char => !excluded.contains char

/-- One character of a class. -/
def oneOf (symbols : CharClass) : Text -> List Reach
  | [] => []
  | char :: rest => if admits symbols char then [⟨[char], [], rest⟩] else []

/-- The attempts of an expression to take a front of the text, which is the end
of a whole one. -/
def attempts (whole : Text) : Regex -> Text -> List Reach
  | .done, text => [.nothing text]
  | .start rest, text => if text = whole then attempts whole rest text else []
  | .finish rest, text => if text = [] then attempts whole rest text else []
  | .one symbols repetition rest, text =>
      inRow (repeated (oneOf symbols) repetition) (attempts whole rest) text
  | .group name inner repetition rest, text =>
      inRow
        (repeated (fun text => (attempts whole inner text).map (Reach.capturedAs name)) repetition)
        (attempts whole rest) text

/-- The first attempt at the first place that has one. -/
def search (expression : Regex) (text : Text) : Option Reach :=
  text.tails.findSome? fun rest => (attempts text expression rest).head?

/-! ## Attempts in a row -/

/-- What goes on behind an attempt in a row goes on behind the row. -/
theorem flatMap_map_followedBy (first : Reach) (reaches : List Reach)
    (later : Text -> List Reach) :
    ((reaches.map first.followedBy).flatMap fun reach =>
      (later reach.rest).map reach.followedBy) =
      (reaches.flatMap fun reach => (later reach.rest).map reach.followedBy).map
        first.followedBy := by
  simp only [List.flatMap_map, List.map_flatMap, List.map_map]
  apply List.flatMap_congr
  intro reach _
  apply List.map_congr_left
  intro last _
  exact Reach.followedBy_assoc first reach last

theorem flatMap_nothing (text : Text) (later : Text -> List Reach) :
    ([Reach.nothing text].flatMap fun reach => (later reach.rest).map reach.followedBy) =
      later text := by
  have unchanged : (Reach.nothing text).followedBy = id := funext (Reach.nothing_followedBy text)
  rw [List.flatMap_singleton, unchanged, List.map_id]
  rfl

theorem inRow_assoc (first second third : Text -> List Reach) :
    inRow (inRow first second) third = inRow first (inRow second third) := by
  funext text
  simp only [inRow, List.flatMap_assoc, flatMap_map_followedBy]

@[simp] theorem nothing_inRow (later : Text -> List Reach) :
    inRow (fun text => [.nothing text]) later = later := by
  funext text
  exact flatMap_nothing text later

@[simp] theorem inRow_nothing (first : Text -> List Reach) :
    inRow first (fun text => [.nothing text]) = first := by
  funext text
  simp [inRow]

theorem inRow_of_nil {first : Text -> List Reach} {text : Text} (none : first text = [])
    (later : Text -> List Reach) : inRow first later text = [] := by
  simp [inRow, none]

theorem inRow_of_singleton {first : Text -> List Reach} {text : Text} {reach : Reach}
    (only : first text = [reach]) (later : Text -> List Reach) :
    inRow first later text = (later reach.rest).map reach.followedBy := by
  simp [inRow, only]

/-- The first attempt in a row is that of the first attempt with which the row
can be finished. -/
theorem head?_inRow (first second : Text -> List Reach) (text : Text) :
    (inRow first second text).head? =
      (first text).findSome? fun reach => (second reach.rest).head?.map reach.followedBy := by
  simp [inRow, List.head?_flatMap]

/-- If all attempts leave the same, the first of them is followed by the first
attempt there. -/
theorem head?_inRow_of_rest {first later : Text -> List Reach} {text rest : Text}
    (same : forall reach, reach ∈ first text -> reach.rest = rest) :
    (inRow first later text).head? =
      (first text).head?.bind fun reach => (later rest).head?.map reach.followedBy := by
  rw [head?_inRow]
  cases attempted : first text with
  | nil => rfl
  | cons reach others =>
      rw [attempted] at same
      cases found : (later rest).head? with
      | none =>
          have none : forall other, other ∈ reach :: others ->
              (later other.rest).head?.map other.followedBy = none := by
            intro other listed
            rw [same other listed, found]
            rfl
          rw [List.findSome?_eq_none_iff.mpr none]
          rfl
      | some last =>
          rw [List.findSome?_cons, same reach List.mem_cons_self, found]
          rfl

@[simp] theorem attempts_done (whole : Text) :
    attempts whole .done = fun text => [.nothing text] :=
  rfl

/-- A group without a name only repeats. -/
theorem attempts_group_none (whole : Text) (inner : Regex) (repetition : Repetition) :
    attempts whole (.group none inner repetition .done) =
      repeated (attempts whole inner) repetition := by
  have uncaptured : (fun text => (attempts whole inner text).map (Reach.capturedAs none)) =
      attempts whole inner := by
    funext text
    exact List.map_id _
  change inRow (repeated (fun text => (attempts whole inner text).map (Reach.capturedAs none))
    repetition) (fun text => [.nothing text]) = _
  rw [uncaptured, inRow_nothing]

theorem attempts_append (whole : Text) (first second : Regex) :
    attempts whole (first ++ second) = inRow (attempts whole first) (attempts whole second) := by
  change attempts whole (first.append second) = _
  induction first with
  | done => simp [append]
  | start rest inductionHypothesis =>
      funext text
      by_cases atStart : text = whole <;>
        simp [append, attempts, inRow, atStart, inductionHypothesis]
  | finish rest inductionHypothesis =>
      funext text
      by_cases atEnd : text = [] <;> simp [append, attempts, inRow, atEnd, inductionHypothesis]
  | one symbols repetition rest inductionHypothesis =>
      funext text
      rw [append, attempts, inductionHypothesis, ← inRow_assoc]
      rfl
  | group name inner repetition rest _ inductionHypothesis =>
      funext text
      rw [append, attempts, inductionHypothesis, ← inRow_assoc]
      rfl

/-- An expression that starts with an anchor is tried at the start only. -/
theorem search_start (expression : Regex) (text : Text) :
    (start expression).search text = (attempts text expression text).head? := by
  have elsewhere : forall rest, rest ≠ text ->
      (attempts text (start expression) rest).head? = none := by
    intro rest other
    rw [attempts, if_neg other]
    rfl
  have here : (attempts text (start expression) text).head? =
      (attempts text expression text).head? := by
    rw [attempts, if_pos rfl]
  cases text with
  | nil => simp [search, here]
  | cons char text =>
      have later : text.tails.findSome? (fun rest =>
          (attempts (char :: text) (start expression) rest).head?) = none := by
        rw [List.findSome?_eq_none_iff]
        intro rest listed
        apply elsewhere
        rintro rfl
        exact absurd ((List.mem_tails _ _).mp listed).length_le (Nat.not_succ_le_self _)
      rw [search, List.tails, List.findSome?_cons, here, later]
      cases (attempts (char :: text) expression (char :: text)).head? <;> rfl

/-! ## Rounds -/

/-- No more rounds than the text has characters are ever made. -/
theorem rounds_of_le (fewest : Bool) (step : Text -> List Reach) {bound : Nat} {text : Text}
    (enough : text.length ≤ bound) :
    rounds fewest step bound text = rounds fewest step text.length text := by
  induction bound using Nat.strongRecOn generalizing text with
  | ind bound inductionHypothesis =>
      have same : forall first second : Nat, first < bound -> second < text.length ->
          text.length ≤ first + 1 -> text.length ≤ second + 1 ->
          inRow (fun text => (step text).filter fun reach => reach.rest.length < text.length)
            (rounds fewest step first) text =
          inRow (fun text => (step text).filter fun reach => reach.rest.length < text.length)
            (rounds fewest step second) text := by
        intro first second below small firstEnough secondEnough
        apply List.flatMap_congr
        intro reach listed
        have shorter := (List.mem_filter.mp listed).2
        rw [decide_eq_true_eq] at shorter
        rw [inductionHypothesis first below (by omega),
          inductionHypothesis second (by omega) (by omega)]
      cases bound with
      | zero => rw [Nat.le_zero.mp enough]
      | succ bound =>
          cases length : text.length with
          | zero =>
              rw [List.length_eq_zero_iff.mp length]
              cases fewest <;> simp [rounds, inRow]
          | succ count =>
              rw [rounds, rounds, same bound count (Nat.lt_succ_self bound) (by omega) (by omega)
                (by omega)]

/-- A step that is repeated as often as possible, on a text where it can be made
in one way only. -/
theorem rounds_of_singleton {step : Text -> List Reach} {text : Text} {reach : Reach}
    (only : step text = [reach]) (shorter : reach.rest.length < text.length) :
    rounds false step text.length text =
      (rounds false step reach.rest.length reach.rest).map reach.followedBy ++
        [.nothing text] := by
  cases length : text.length with
  | zero =>
      rw [length] at shorter
      exact absurd shorter (Nat.not_lt_zero _)
  | succ bound =>
      have enough : reach.rest.length ≤ bound := by omega
      rw [rounds, ← rounds_of_le false step enough]
      simp [inRow, only, shorter]

theorem rounds_of_nil {step : Text -> List Reach} {text : Text} (none : step text = [])
    (fewest : Bool) (bound : Nat) : rounds fewest step bound text = [.nothing text] := by
  cases bound with
  | zero => rfl
  | succ bound => cases fewest <;> simp [rounds, inRow, none]

theorem inRow_many_of_singleton {step : Text -> List Reach} {text : Text} {reach : Reach}
    (only : step text = [reach]) (shorter : reach.rest.length < text.length)
    (later : Text -> List Reach) :
    inRow (repeated step .many) later text =
      (inRow (repeated step .many) later reach.rest).map reach.followedBy ++ later text := by
  rw [inRow, repeated, rounds_of_singleton only shorter, List.flatMap_append,
    flatMap_map_followedBy, flatMap_nothing]
  rfl

theorem inRow_many_of_nil {step : Text -> List Reach} {text : Text} (none : step text = [])
    (later : Text -> List Reach) : inRow (repeated step .many) later text = later text := by
  rw [inRow, repeated, rounds_of_nil none, flatMap_nothing]

theorem inRow_optional (step later : Text -> List Reach) (text : Text) :
    inRow (repeated step .optional) later text = inRow step later text ++ later text := by
  rw [inRow, repeated, List.flatMap_append, flatMap_nothing]
  rfl

/-! ## Runs of a class -/

/-- The attempts of a class that is repeated are those of an atom. -/
def ofTaken (taken : Atom.Taken) : Reach :=
  ⟨taken.1, [], taken.2⟩

theorem followedBy_ofTaken (char : Char) (rest : Text) (taken : Atom.Taken) :
    Reach.followedBy ⟨[char], [], rest⟩ (ofTaken taken) = ofTaken (Atom.lengthen char taken) :=
  rfl

theorem rounds_oneOf_fewest (symbols : CharClass) (text : Text) :
    rounds true (oneOf symbols) text.length text =
      (Atom.shortestFirst (admits symbols) text).map ofTaken := by
  induction text with
  | nil => rfl
  | cons char text inductionHypothesis =>
      rw [List.length_cons, rounds, Atom.shortestFirst]
      by_cases admitted : admits symbols char = true
      · simp [inRow, oneOf, admitted, inductionHypothesis, Function.comp_def, followedBy_ofTaken]
        rfl
      · simp [inRow, oneOf, admitted]
        rfl

theorem attempts_one_done (whole : Text) (symbols : CharClass) (repetition : Repetition) :
    attempts whole (.one symbols repetition .done) = repeated (oneOf symbols) repetition :=
  inRow_nothing _

theorem repeated_oneOf_lazyMany (symbols : CharClass) (text : Text) :
    repeated (oneOf symbols) .lazyMany text =
      (Atom.shortestFirst (admits symbols) text).map ofTaken :=
  rounds_oneOf_fewest symbols text

/-- Where at least one round is made, the others are those of any number. -/
theorem repeated_oneOf_lazySome (symbols : CharClass) :
    repeated (oneOf symbols) .lazySome =
      inRow (oneOf symbols) (repeated (oneOf symbols) .lazyMany) :=
  rfl

theorem repeated_oneOf_some (symbols : CharClass) :
    repeated (oneOf symbols) .some = inRow (oneOf symbols) (repeated (oneOf symbols) .many) :=
  rfl

theorem oneOf_cons_of_admits {symbols : CharClass} {char : Char}
    (admitted : admits symbols char = true) (rest : Text) :
    oneOf symbols (char :: rest) = [⟨[char], [], rest⟩] :=
  if_pos admitted

theorem oneOf_cons_of_not_admits {symbols : CharClass} {char : Char}
    (refused : ¬ admits symbols char = true) (rest : Text) : oneOf symbols (char :: rest) = [] :=
  if_neg refused

end Regex
end SongPath
