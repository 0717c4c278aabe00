import Mathlib.Data.List.Forall2
import SongPath.Resolution

/-!
# Ordered fallback

A set answers with the first of its patterns that matches the path, and with
nothing if none does.  Reasons are collected by a second run over the patterns,
which leaves out those that match.  It is made only where the first run found
nothing, so that it leaves out none, and the reasons stand beside the patterns
one by one.
-/

namespace SongPath

/-- The pattern matches the path, whatever it yields. -/
def Pattern.Matches (pattern : Pattern) (path : Text) : Prop :=
  exists metadata, pattern.matchPath path = .ok metadata

theorem Pattern.matches_of_ok {pattern : Pattern} {path : Text} {metadata : Metadata}
    (matched : pattern.matchPath path = .ok metadata) : pattern.Matches path :=
  ⟨metadata, matched⟩

theorem Pattern.not_matches_of_error {pattern : Pattern} {path : Text} {mismatch : Mismatch}
    (failed : pattern.matchPath path = .error mismatch) : ¬ pattern.Matches path := by
  rintro ⟨metadata, matched⟩
  rw [failed] at matched
  cases matched

namespace PatternSet

/-- The match is that of the pattern in its place, and no pattern in front of
that one matches the path. -/
structure IsFirstMatch (set : PatternSet) (path : Text) (found : SetMatch) : Prop where
  matched : exists pattern, set.patterns[found.patternIndex]? = some pattern ∧
    pattern.matchPath path = .ok found.metadata
  first : forall place pattern, place < found.patternIndex ->
    set.patterns[place]? = some pattern -> ¬ pattern.Matches path

/-- One reason for each pattern, in set order: the message of the mismatch that
the pattern gives. -/
def Explains (set : PatternSet) (path : Text) (reasons : List Text) : Prop :=
  List.Forall₂
    (fun pattern reason => exists mismatch, pattern.matchPath path = .error mismatch ∧
      reason = mismatch.message)
    set.patterns reasons

/-- The outcome for a path: its first match and no reasons or, where nothing
matches, a reason for each pattern. -/
structure Answers (set : PatternSet) (path : Text) (resolution : Resolution) : Prop where
  about : resolution.path = path
  found : resolution.found = set.matchFirst? path
  silent : resolution.isMatch = true -> resolution.reasons = []
  explained : resolution.isMatch = false -> set.Explains path resolution.reasons

/-! ## The first match -/

/-- The index is counted from that of the first of the patterns. -/
theorem le_of_matchFrom? {index : Nat} {path : Text} {patterns : List Pattern} {found : SetMatch}
    (answer : matchFrom? index path patterns = some found) : index ≤ found.patternIndex := by
  induction patterns generalizing index with
  | nil => cases answer
  | cons pattern patterns inductionHypothesis =>
      rw [matchFrom?] at answer
      split at answer
      · cases answer
        exact Nat.le_refl index
      · exact Nat.le_of_succ_le (inductionHypothesis answer)

theorem matchFrom?_eq_none_iff (index : Nat) (path : Text) (patterns : List Pattern) :
    matchFrom? index path patterns = none <->
      forall pattern, pattern ∈ patterns -> ¬ pattern.Matches path := by
  induction patterns generalizing index with
  | nil => simp [matchFrom?]
  | cons pattern patterns inductionHypothesis =>
      rw [matchFrom?, List.forall_mem_cons]
      cases outcome : pattern.matchPath path with
      | ok metadata => simp [Pattern.matches_of_ok outcome]
      | error mismatch => simp [Pattern.not_matches_of_error outcome, inductionHypothesis]

theorem matchFrom?_eq_some_iff (index : Nat) (path : Text) (patterns : List Pattern) (place : Nat)
    (metadata : Metadata) :
    matchFrom? index path patterns = some ⟨index + place, metadata⟩ <->
      (exists pattern, patterns[place]? = some pattern ∧
        pattern.matchPath path = .ok metadata) ∧
      forall earlier pattern, earlier < place -> patterns[earlier]? = some pattern ->
        ¬ pattern.Matches path := by
  induction patterns generalizing index place with
  | nil => simp [matchFrom?]
  | cons first patterns inductionHypothesis =>
      rw [matchFrom?]
      cases outcome : first.matchPath path with
      | ok yielded =>
          cases place with
          | zero => simp [outcome]
          | succ place =>
              constructor
              · intro answer
                cases answer
              · rintro ⟨_, unmatched⟩
                exact absurd (Pattern.matches_of_ok outcome)
                  (unmatched 0 first (Nat.succ_pos place) rfl)
      | error mismatch =>
          cases place with
          | zero =>
              constructor
              · intro answer
                exact absurd (le_of_matchFrom? answer) (Nat.not_succ_le_self index)
              · rintro ⟨⟨pattern, here, matched⟩, _⟩
                cases here
                rw [outcome] at matched
                cases matched
          | succ place =>
              have shift : index + (place + 1) = index + 1 + place := by omega
              dsimp only
              rw [shift, inductionHypothesis]
              refine and_congr Iff.rfl ?_
              constructor
              · intro later earlier pattern before here
                cases earlier with
                | zero =>
                    cases here
                    exact Pattern.not_matches_of_error outcome
                | succ earlier => exact later earlier pattern (Nat.lt_of_succ_lt_succ before) here
              · intro all earlier pattern before here
                exact all (earlier + 1) pattern (Nat.succ_lt_succ before) here

theorem matchFirst?_eq_some_iff (set : PatternSet) (path : Text) (found : SetMatch) :
    set.matchFirst? path = some found <-> set.IsFirstMatch path found := by
  have counted := matchFrom?_eq_some_iff 0 path set.patterns found.patternIndex found.metadata
  rw [Nat.zero_add] at counted
  constructor
  · intro answer
    rcases counted.mp answer with ⟨matched, first⟩
    exact ⟨matched, first⟩
  · rintro ⟨matched, first⟩
    exact counted.mpr ⟨matched, first⟩

/-- What stands behind the first match has no say. -/
theorem matchFrom?_append {index : Nat} {path : Text} {patterns : List Pattern} {found : SetMatch}
    (answer : matchFrom? index path patterns = some found) (later : List Pattern) :
    matchFrom? index path (patterns ++ later) = some found := by
  induction patterns generalizing index with
  | nil => cases answer
  | cons pattern patterns inductionHypothesis =>
      rw [matchFrom?] at answer
      rw [List.cons_append, matchFrom?]
      split at answer
      · exact answer
      · exact inductionHypothesis answer

theorem patterns_foldl_push (set : PatternSet) (later : List Pattern) :
    (later.foldl push set).patterns = set.patterns ++ later := by
  induction later generalizing set with
  | nil => simp
  | cons pattern later inductionHypothesis => simp [inductionHypothesis, push]

/-! ## The reasons -/

theorem explains_mismatches {set : PatternSet} {path : Text}
    (unmatched : forall pattern, pattern ∈ set.patterns -> ¬ pattern.Matches path) :
    set.Explains path ((set.mismatches path).map Mismatch.message) := by
  rcases set with ⟨patterns⟩
  induction patterns with
  | nil => exact .nil
  | cons pattern patterns inductionHypothesis =>
      rcases List.forall_mem_cons.mp unmatched with ⟨fails, others⟩
      cases outcome : pattern.matchPath path with
      | ok metadata => exact absurd (Pattern.matches_of_ok outcome) fails
      | error mismatch =>
          have kept : mismatches ⟨pattern :: patterns⟩ path =
              mismatch :: mismatches ⟨patterns⟩ path := by
            simp [mismatches, outcome]
          rw [kept]
          exact .cons ⟨mismatch, outcome, rfl⟩ (inductionHypothesis others)

theorem answers_resolve (set : PatternSet) (path : Text) :
    set.Answers path (set.resolve path) := by
  rw [resolve]
  cases answer : set.matchFirst? path with
  | some found => exact ⟨rfl, answer.symm, fun _ => rfl, nofun⟩
  | none =>
      have unmatched := (matchFrom?_eq_none_iff 0 path set.patterns).mp answer
      exact ⟨rfl, answer.symm, nofun, fun _ => explains_mismatches unmatched⟩

/-- The answer of a set is its first match, further patterns do not change it,
and there is none only if no pattern matches.  Every path has its outcome, in
order, and an outcome without a match explains every pattern of the set. -/
theorem firstMatch_and_reasons (set : PatternSet) :
    (forall path found, set.matchFirst? path = some found <-> set.IsFirstMatch path found) ∧
    (forall path, set.matchFirst? path = none <->
      forall pattern, pattern ∈ set.patterns -> ¬ pattern.Matches path) ∧
    (forall path found (later : List Pattern), set.matchFirst? path = some found ->
      (later.foldl push set).matchFirst? path = some found) ∧
    forall paths, List.Forall₂ set.Answers paths (set.resolveAll paths) := by
  refine ⟨set.matchFirst?_eq_some_iff, ?_, ?_, ?_⟩
  · intro path
    exact matchFrom?_eq_none_iff 0 path set.patterns
  · intro path found later answer
    rw [matchFirst?, patterns_foldl_push]
    exact matchFrom?_append answer later
  · intro paths
    rw [resolveAll, List.forall₂_map_right_iff]
    exact List.forall₂_same.mpr fun path _ => set.answers_resolve path

/-- The second pattern takes over where the first fails, a third one changes
nothing, and a path for neither of them is explained twice. -/
theorem firstMatch_and_reasons_of_two :
    exists (set : PatternSet) (found : SetMatch),
      compile ["\x7bcreator\x7d/\x7btitle\x7d".toList, "\x7btitle\x7d".toList] = .ok set ∧
      set.matchFirst? "SOS.mp3".toList = some found ∧ found.patternIndex = 1 ∧
      ((set.push ⟨[], .slot .artist⟩).matchFirst? "SOS.mp3".toList = some found) ∧
      set.Explains " ".toList
        ["Pattern needs at least 1 folders, path has 0".toList,
          "Token 'title' captured only whitespace".toList] := by
  have compiled : compile ["\x7bcreator\x7d/\x7btitle\x7d".toList, "\x7btitle\x7d".toList] =
      .ok ⟨[⟨[.slot .creator], .slot .title⟩, ⟨[], .slot .title⟩]⟩ := by
    decide +kernel
  have answer : matchFirst? ⟨[⟨[.slot .creator], .slot .title⟩, ⟨[], .slot .title⟩]⟩
      "SOS.mp3".toList = some ⟨1, ⟨none, none, none, some "SOS".toList⟩⟩ := by
    decide +kernel
  rcases firstMatch_and_reasons ⟨[⟨[.slot .creator], .slot .title⟩, ⟨[], .slot .title⟩]⟩ with
    ⟨_, _, pushed, resolved⟩
  rcases List.forall₂_cons.mp (resolved [" ".toList]) with ⟨answers, _⟩
  exact ⟨_, _, compiled, answer, rfl, pushed _ _ [⟨[], .slot .artist⟩] answer,
    answers.explained (by decide +kernel)⟩

end PatternSet
end SongPath
