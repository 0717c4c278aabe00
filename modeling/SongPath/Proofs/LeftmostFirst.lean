import SongPath.Proofs.ShortestCut

/-!
# Leftmost-first search

A composite is also an expression for a search by backtracking: a literal stands
for its characters, a token for blanks, one visible character and anything, a
wildcard for anything, and the end of the text for itself.  Blanks are taken as
long as they last, anything is taken as short as it can be, and the first
attempt that reaches the end counts.

The search tries exponentially many cuts and the table holds one per suffix.
Here the two are shown to choose the same cut.
-/

namespace SongPath

/-- A part of an expression: one character, or a run of characters of which the
longest or the shortest is tried first. -/
inductive Atom where
  | one (admits : Char -> Bool)
  | greedy (admits : Char -> Bool)
  | reluctant (admits : Char -> Bool)

namespace Atom

/-- What an atom took and what it left. -/
abbrev Taken := Text × Text

/-- The same attempt with one more character in front. -/
def lengthen (char : Char) (taken : Taken) : Taken :=
  (char :: taken.1, taken.2)

def oneOf (admits : Char -> Bool) : Text -> List Taken
  | [] => []
  | char :: rest => if admits char then [([char], rest)] else []

/-- Runs of admitted characters, the longest first. -/
def longestFirst (admits : Char -> Bool) : Text -> List Taken
  | [] => [([], [])]
  | char :: rest =>
      (if admits char then (longestFirst admits rest).map (lengthen char) else []) ++
        [([], char :: rest)]

/-- Runs of admitted characters, the shortest first. -/
def shortestFirst (admits : Char -> Bool) : Text -> List Taken
  | [] => [([], [])]
  | char :: rest =>
      ([], char :: rest) ::
        if admits char then (shortestFirst admits rest).map (lengthen char) else []

/-- The attempts of one atom, in the order in which they are made. -/
def attempts : Atom -> Text -> List Taken
  | .one admits, text => oneOf admits text
  | .greedy admits, text => longestFirst admits text
  | .reluctant admits, text => shortestFirst admits text

/-- The attempts of atoms in a row.  A later one is tried anew for every
attempt of an earlier one. -/
def attemptsOfAll : List Atom -> Text -> List Taken
  | [], text => [([], text)]
  | atom :: atoms, text =>
      (atom.attempts text).flatMap fun taken =>
        (attemptsOfAll atoms taken.2).map fun later => (taken.1 ++ later.1, later.2)

/-! ## The order of attempts -/

theorem attemptsOfAll_singleton (atom : Atom) (text : Text) :
    attemptsOfAll [atom] text = atom.attempts text := by
  simp [attemptsOfAll]

private theorem flatMap_lengthen (atoms : List Atom) (char : Char) (taken : List Taken) :
    ((taken.map (lengthen char)).flatMap fun first =>
        (attemptsOfAll atoms first.2).map fun later => (first.1 ++ later.1, later.2)) =
      (taken.flatMap fun first =>
        (attemptsOfAll atoms first.2).map fun later => (first.1 ++ later.1, later.2)).map
          (lengthen char) := by
  rw [List.flatMap_map, List.map_flatMap]
  refine List.flatMap_congr fun first _ => ?_
  rw [List.map_map]
  rfl

theorem attemptsOfAll_one_cons (admits : Char -> Bool) (atoms : List Atom) (char : Char)
    (rest : Text) :
    attemptsOfAll (.one admits :: atoms) (char :: rest) =
      if admits char then (attemptsOfAll atoms rest).map (lengthen char) else [] := by
  change (if admits char then [([char], rest)] else []).flatMap _ = _
  split
  · rw [List.flatMap_singleton]
    rfl
  · rfl

/-- A greedy run is given up only after all longer runs failed. -/
theorem attemptsOfAll_greedy_cons (admits : Char -> Bool) (atoms : List Atom) (char : Char)
    (rest : Text) :
    attemptsOfAll (.greedy admits :: atoms) (char :: rest) =
      (if admits char then (attemptsOfAll (.greedy admits :: atoms) rest).map (lengthen char)
        else []) ++ attemptsOfAll atoms (char :: rest) := by
  change ((if admits char then (longestFirst admits rest).map (lengthen char) else []) ++
    [([], char :: rest)]).flatMap _ = _
  rw [List.flatMap_append, List.flatMap_singleton]
  change _ ++ (attemptsOfAll atoms (char :: rest)).map id = _
  rw [List.map_id]
  split
  · rw [flatMap_lengthen]
    rfl
  · rfl

end Atom

/-- A piece as a row of atoms. -/
def Piece.atoms : Piece -> List Atom
  | .literal text => text.map fun char => .one (· == char)
  | .slot _ => [.greedy isBlank, .one fun char => !isBlank char, .reluctant fun _ => true]
  | .wildcard => [.reluctant fun _ => true]

namespace Segment

/-- The cuts of a text in the order in which a search by backtracking comes to
them. -/
def search : List Piece -> Text -> List Spans
  | [], text => if text = [] then [[]] else []
  | piece :: pieces, text =>
      (Atom.attemptsOfAll piece.atoms text).flatMap fun taken =>
        (search pieces taken.2).map (taken.1 :: ·)

private theorem flatMap_search_lengthen (pieces : List Piece) (char : Char)
    (taken : List Atom.Taken) :
    ((taken.map (Atom.lengthen char)).flatMap fun first =>
        (search pieces first.2).map (first.1 :: ·)) =
      (taken.flatMap fun first => (search pieces first.2).map (first.1 :: ·)).map (grow char) := by
  rw [List.flatMap_map, List.map_flatMap]
  refine List.flatMap_congr fun first _ => ?_
  rw [List.map_map]
  rfl

/-! ## The attempts of a piece -/

private theorem attempts_literal_append (expected rest : Text) :
    Atom.attemptsOfAll (expected.map fun char => .one (· == char)) (expected ++ rest) =
      [(expected, rest)] := by
  induction expected with
  | nil => rfl
  | cons char expected inductionHypothesis =>
      rw [List.map_cons, List.cons_append, Atom.attemptsOfAll_one_cons, inductionHypothesis,
        if_pos (beq_self_eq_true char)]
      rfl

private theorem attempts_literal_of_absent {expected text : Text} (absent : ¬ expected <+: text) :
    Atom.attemptsOfAll (expected.map fun char => .one (· == char)) text = [] := by
  induction expected generalizing text with
  | nil => exact absurd List.nil_prefix absent
  | cons char expected inductionHypothesis =>
      cases text with
      | nil => rfl
      | cons first rest =>
          rw [List.map_cons, Atom.attemptsOfAll_one_cons]
          split
          · next same =>
              have behind : ¬ expected <+: rest := fun stands =>
                absent (List.cons_prefix_cons.mpr ⟨(beq_iff_eq.mp same).symm, stands⟩)
              rw [inductionHypothesis behind]
              rfl
          · rfl

private theorem search_literal_append (expected : Text) (pieces : List Piece) (rest : Text) :
    search (.literal expected :: pieces) (expected ++ rest) =
      (search pieces rest).map (expected :: ·) := by
  rw [search, Piece.atoms, attempts_literal_append, List.flatMap_singleton]

private theorem search_literal_of_absent {expected text : Text} (pieces : List Piece)
    (absent : ¬ expected <+: text) : search (.literal expected :: pieces) text = [] := by
  rw [search, Piece.atoms, attempts_literal_of_absent absent]
  rfl

private theorem search_wildcard_nil (pieces : List Piece) :
    search (.wildcard :: pieces) [] = (search pieces []).map ([] :: ·) := by
  rw [search, Piece.atoms, Atom.attemptsOfAll_singleton]
  exact List.flatMap_singleton _ _

private theorem search_wildcard_cons (pieces : List Piece) (char : Char) (rest : Text) :
    search (.wildcard :: pieces) (char :: rest) =
      (search pieces (char :: rest)).map ([] :: ·) ++
        (search (.wildcard :: pieces) rest).map (grow char) := by
  rw [search, search, Piece.atoms, Atom.attemptsOfAll_singleton, Atom.attemptsOfAll_singleton,
    ← flatMap_search_lengthen]
  rfl

private theorem search_slot_nil (token : Token) (pieces : List Piece) :
    search (.slot token :: pieces) [] = [] :=
  rfl

private theorem search_slot_cons (token : Token) (pieces : List Piece) (char : Char) (rest : Text) :
    search (.slot token :: pieces) (char :: rest) =
      if isBlank char then (search (.slot token :: pieces) rest).map (grow char)
      else (search (.wildcard :: pieces) rest).map (grow char) := by
  rw [search, search, search, Piece.atoms, Piece.atoms, Atom.attemptsOfAll_greedy_cons,
    Atom.attemptsOfAll_one_cons, ← flatMap_search_lengthen, ← flatMap_search_lengthen]
  cases isBlank char with
  | true => exact congrArg (List.flatMap _) (List.append_nil _)
  | false => rfl

/-! ## The first cut of the search -/

private theorem head?_search_wildcard {pieces : List Piece}
    (same : forall text, (search pieces text).head? = cut pieces text) (text : Text) :
    (search (.wildcard :: pieces) text).head? = cut (.wildcard :: pieces) text := by
  induction text with
  | nil => rw [search_wildcard_nil, cut_wildcard_nil, List.head?_map, same]
  | cons char rest inductionHypothesis =>
      rw [search_wildcard_cons, cut_wildcard_cons, List.head?_append, List.head?_map,
        List.head?_map, same, inductionHypothesis]
      cases cut pieces (char :: rest) with
      | some spans => rfl
      | none => rfl

private theorem head?_search_slot {pieces : List Piece} (token : Token)
    (same : forall text, (search pieces text).head? = cut pieces text) (text : Text) :
    (search (.slot token :: pieces) text).head? = cut (.slot token :: pieces) text := by
  induction text with
  | nil => rw [search_slot_nil, cut_slot_nil, List.head?_nil]
  | cons char rest inductionHypothesis =>
      rw [search_slot_cons, cut_slot_cons]
      cases isBlank char with
      | true =>
          rw [if_pos rfl, if_pos rfl, List.head?_map, inductionHypothesis]
      | false =>
          rw [if_neg Bool.false_ne_true, if_neg Bool.false_ne_true, List.head?_map,
            head?_search_wildcard same]

/-- The table holds the cut that the search comes to first. -/
theorem head?_search (pieces : List Piece) (text : Text) :
    (search pieces text).head? = cut pieces text := by
  induction pieces generalizing text with
  | nil =>
      rw [search, cut_nil]
      split <;> rfl
  | cons piece pieces inductionHypothesis =>
      cases piece with
      | literal expected =>
          by_cases stands : expected <+: text
          · rcases stands with ⟨rest, rfl⟩
            rw [search_literal_append, cut_literal_append, List.head?_map, inductionHypothesis]
          · rw [search_literal_of_absent pieces stands, cut_literal_of_absent pieces stands]
            rfl
      | slot token => exact head?_search_slot token inductionHypothesis text
      | wildcard => exact head?_search_wildcard inductionHypothesis text

/-- A composite captures the token spans of the cut that the search comes to
first.  There is none exactly if the text has no cut at all, and otherwise it is
the one cut whose lengths come first. -/
theorem capture_composite (pieces : List Piece) (text : Text) :
    capture (.composite pieces) text = (search pieces text).head?.map (captured pieces) ∧
      (capture (.composite pieces) text = none <-> ¬ exists spans, IsCut pieces text spans) ∧
      ((exists spans, IsCut pieces text spans) ->
        exists spans, IsShortestCut pieces text spans ∧
          capture (.composite pieces) text = some (captured pieces spans)) ∧
      forall spans, IsShortestCut pieces text spans ->
        capture (.composite pieces) text = some (captured pieces spans) := by
  have first : capture (.composite pieces) text =
      (search pieces text).head?.map (captured pieces) := by
    rw [capture, head?_search]
    exact Option.map_congr fun spans _ => tokenSpans_eq_captured pieces spans
  have captures : forall spans, IsShortestCut pieces text spans ->
      capture (.composite pieces) text = some (captured pieces spans) := by
    intro spans shortest
    rw [first, head?_search, (cut_eq_some_iff pieces text spans).mpr shortest, Option.map_some]
  refine ⟨first, ?_, ?_, captures⟩
  · rw [first, head?_search, Option.map_eq_none_iff, cut_eq_none_iff]
  · rintro ⟨others, isCut⟩
    rcases exists_cut_atMostAsLong isCut with ⟨spans, found, _⟩
    have shortest := (cut_eq_some_iff pieces text spans).mp found
    exact ⟨spans, shortest, captures spans shortest⟩

/-- The first hyphen is not the one that counts: what stands before it is
blank. -/
example : capture (.composite [.slot .artist, .literal ['-'], .slot .title])
    [' ', '-', 'x', '-', 'y'] = some [(.artist, [' ', '-', 'x']), (.title, ['y'])] := by
  decide

end Segment
end SongPath
