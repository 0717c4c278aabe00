import SongPath.Proofs.CacheHistory
import SongPath.Proofs.Compilation
import SongPath.Settings

/-!
# Ways to build a set

A set can be compiled directly, looked up as a whole, or pushed together from
one lookup after the other, as the settings do it.  All of them are decided by
the first specification that does not compile, and it does not matter which
cache is used and what has happened to it.  A cached way looks up the
specifications up to the first defective one, each of them once, even if it has
been looked up before.
-/

namespace SongPath

/-- Every specification compiles, to the pattern in its place. -/
def AllCompile (specs : List Text) (patterns : List Pattern) : Prop :=
  List.Forall₂ (fun spec pattern => Pattern.compile spec = .ok pattern) specs patterns

/-- The first of the specifications that does not compile, its defect, and those
in front of it, which do. -/
structure FirstDefective (specs before : List Text) (spec : Text) (defect : Defect) : Prop where
  split : exists after, specs = before ++ spec :: after
  sound : exists patterns, AllCompile before patterns
  defective : Pattern.compile spec = .error defect

theorem allCompile_or_firstDefective (specs : List Text) :
    (exists patterns, AllCompile specs patterns) ∨
      exists before spec defect, FirstDefective specs before spec defect := by
  rcases all_or_first_not (fun spec => exists pattern, Pattern.compile spec = .ok pattern) specs
    with all | ⟨before, spec, after, split, earlier, fails⟩
  · exact Or.inl (exists_forall₂_of_forall all)
  · cases compiled : Pattern.compile spec with
    | ok pattern => exact absurd ⟨pattern, compiled⟩ fails
    | error defect =>
        exact Or.inr ⟨before, spec, defect, ⟨after, split⟩, exists_forall₂_of_forall earlier,
          compiled⟩

/-! ## Directly -/

namespace PatternSet

theorem compile_of_allCompile {specs : List Text} {patterns : List Pattern}
    (compiled : AllCompile specs patterns) : compile specs = .ok ⟨patterns⟩ := by
  rw [compile, (mapM_eq_ok_iff _ _ _).mpr compiled]
  rfl

theorem allCompile_of_compile {specs : List Text} {set : PatternSet}
    (compiled : compile specs = .ok set) : AllCompile specs set.patterns := by
  rw [compile] at compiled
  cases mapped : specs.mapM Pattern.compile with
  | error defect =>
      rw [mapped] at compiled
      cases compiled
  | ok patterns =>
      rw [mapped] at compiled
      cases compiled
      exact (mapM_eq_ok_iff _ _ _).mp mapped

theorem compile_of_firstDefective {specs before : List Text} {spec : Text} {defect : Defect}
    (first : FirstDefective specs before spec defect) : compile specs = .error defect := by
  rcases first with ⟨⟨after, rfl⟩, ⟨patterns, sound⟩, defective⟩
  rw [compile, List.mapM_append, (mapM_eq_ok_iff _ _ _).mpr sound, List.mapM_cons, defective]
  rfl

end PatternSet

/-! ## Through a cache -/

namespace Cache

/-- One lookup of each specification. -/
def lookups (specs : List Text) : List Operation :=
  specs.map .lookup

theorem append_lookups_nil (history : List Operation) : history ++ lookups [] = history :=
  List.append_nil history

theorem append_lookups_cons (history : List Operation) (spec : Text) (specs : List Text) :
    history ++ lookups (spec :: specs) = history ++ [.lookup spec] ++ lookups specs :=
  List.append_cons history (.lookup spec) (lookups specs)

theorem append_lookups_concat (history : List Operation) (specs : List Text) (spec : Text) :
    history ++ lookups (specs ++ [spec]) = history ++ lookups specs ++ [.lookup spec] := by
  rw [lookups, List.map_append, ← List.append_assoc]
  rfl

theorem counts_lookups (cache : Cache) (specs : List Text) :
    ((lookups specs).foldl perform cache).hits + ((lookups specs).foldl perform cache).misses =
      cache.hits + cache.misses + specs.length := by
  have requested : (lookups specs).filterMap Operation.spec? = specs := by
    rw [lookups, List.filterMap_map]
    exact List.filterMap_some
  have counted := (counts_run cache (lookups specs)).1
  rw [requested] at counted
  exact counted

end Cache

open Cache (after lookups)

variable (capacity : Nat) (history : List Cache.Operation)

namespace PatternSet

/-- Specifications that compile are looked up, and what they give is put in
front of what the others give. -/
theorem lookupAll_append {before : List Text} {patterns : List Pattern}
    (sound : AllCompile before patterns) (specs : List Text) :
    lookupAll (after capacity history) (before ++ specs) =
      (lookupAll (after capacity (history ++ lookups before)) specs).map
        (Except.map (patterns ++ ·)) id := by
  induction sound generalizing history with
  | nil =>
      rw [Cache.append_lookups_nil, List.nil_append]
      rcases lookupAll (after capacity history) specs with ⟨_ | _, _⟩
      · rfl
      · rfl
  | cons here _ inductionHypothesis =>
      -- The others are looked up in the cache of a longer history.
      rw [List.cons_append, lookupAll, Cache.lookup_after, here]
      dsimp only
      rw [inductionHypothesis, Cache.append_lookups_cons]
      rcases lookupAll _ specs with ⟨_ | _, _⟩
      · rfl
      · rfl

theorem fromCache_of_allCompile {specs : List Text} {patterns : List Pattern}
    (compiled : AllCompile specs patterns) :
    fromCache (after capacity history) specs =
      (.ok ⟨patterns⟩, after capacity (history ++ lookups specs)) := by
  have looked := lookupAll_append capacity history compiled []
  rw [List.append_nil] at looked
  rw [fromCache, looked]
  simp only [lookupAll, Prod.map, Except.map, List.append_nil, id]

theorem fromCache_of_firstDefective {specs before : List Text} {spec : Text} {defect : Defect}
    (first : FirstDefective specs before spec defect) :
    fromCache (after capacity history) specs =
      (.error defect, after capacity (history ++ lookups (before ++ [spec]))) := by
  rcases first with ⟨⟨rest, rfl⟩, ⟨patterns, sound⟩, defective⟩
  rw [fromCache, lookupAll_append capacity history sound, lookupAll, Cache.lookup_after, defective,
    Cache.append_lookups_concat]
  rfl

end PatternSet

namespace Settings

/-- Formats that compile are looked up, and what they give is put behind the
patterns that are there. -/
theorem pushAll_append {before : List Text} {patterns : List Pattern}
    (sound : AllCompile before patterns) (set : PatternSet) (formats : List Text) :
    pushAll set (after capacity history) (before ++ formats) =
      pushAll ⟨set.patterns ++ patterns⟩ (after capacity (history ++ lookups before)) formats := by
  induction sound generalizing set history with
  | nil => rw [List.append_nil, Cache.append_lookups_nil, List.nil_append]
  | @cons spec pattern before patterns here _ inductionHypothesis =>
      have pushed : (set.push pattern).patterns ++ patterns =
          set.patterns ++ pattern :: patterns := (List.append_cons _ _ _).symm
      rw [List.cons_append, pushAll, Cache.lookup_after, here]
      dsimp only
      rw [inductionHypothesis, pushed, Cache.append_lookups_cons]

theorem patternSet_of_allCompile {settings : Settings} {patterns : List Pattern}
    (compiled : AllCompile settings.formats patterns) :
    settings.patternSet (after capacity history) =
      (.ok ⟨patterns⟩, after capacity (history ++ lookups settings.formats)) := by
  have pushed := pushAll_append capacity history compiled PatternSet.empty []
  rw [List.append_nil] at pushed
  exact pushed

theorem patternSet_of_firstDefective {settings : Settings} {before : List Text} {spec : Text}
    {defect : Defect} (first : FirstDefective settings.formats before spec defect) :
    settings.patternSet (after capacity history) =
      (.error (.defectiveFormat spec defect),
        after capacity (history ++ lookups (before ++ [spec]))) := by
  rcases first with ⟨⟨rest, split⟩, ⟨patterns, sound⟩, defective⟩
  rw [patternSet, split, pushAll_append capacity history sound, pushAll, Cache.lookup_after,
    defective, Cache.append_lookups_concat]

/-- The set, or the failure, depends on the formats only. -/
theorem fst_patternSet_eq (settings : Settings) (otherCapacity : Nat)
    (otherHistory : List Cache.Operation) :
    (settings.patternSet (after capacity history)).1 =
      (settings.patternSet (after otherCapacity otherHistory)).1 := by
  rcases allCompile_or_firstDefective settings.formats with
    ⟨patterns, compiled⟩ | ⟨before, spec, defect, first⟩
  · rw [patternSet_of_allCompile capacity history compiled,
      patternSet_of_allCompile otherCapacity otherHistory compiled]
  · rw [patternSet_of_firstDefective capacity history first,
      patternSet_of_firstDefective otherCapacity otherHistory first]

theorem validate_eq {settings : Settings} (nonempty : settings.formats ≠ []) :
    settings.validate = (settings.patternSet (after capacity history)).1.map fun _ => () := by
  have listed : ¬ settings.formats.isEmpty = true := by
    rw [List.isEmpty_iff]
    exact nonempty
  -- The cache made for validating is one with the configured capacity and no history.
  rw [validate, if_neg listed, fst_patternSet_eq capacity history settings settings.cacheCapacity []]
  rfl

/-- On any cache a program can have, all ways to build a set give the patterns of
the formats in their order, or all of them end with the first defective format,
and the cached ones have then looked up the formats up to it, each once. -/
theorem patternSet_agrees (settings : Settings) :
    ((exists patterns, AllCompile settings.formats patterns ∧
        PatternSet.compile settings.formats = .ok ⟨patterns⟩ ∧
        PatternSet.fromCache (after capacity history) settings.formats =
          (.ok ⟨patterns⟩, after capacity (history ++ lookups settings.formats)) ∧
        settings.patternSet (after capacity history) =
          (.ok ⟨patterns⟩, after capacity (history ++ lookups settings.formats))) ∨
      exists before spec defect, FirstDefective settings.formats before spec defect ∧
        PatternSet.compile settings.formats = .error defect ∧
        PatternSet.fromCache (after capacity history) settings.formats =
          (.error defect, after capacity (history ++ lookups (before ++ [spec]))) ∧
        settings.patternSet (after capacity history) =
          (.error (.defectiveFormat spec defect),
            after capacity (history ++ lookups (before ++ [spec])))) ∧
    (forall specs,
      (after capacity (history ++ lookups specs)).hits +
          (after capacity (history ++ lookups specs)).misses =
        (after capacity history).hits + (after capacity history).misses + specs.length) ∧
    (settings.formats ≠ [] ->
      (settings.validate = .ok () <->
        exists set, (settings.patternSet (after capacity history)).1 = .ok set) ∧
      forall failure, settings.validate = .error failure <->
        (settings.patternSet (after capacity history)).1 = .error failure) := by
  refine ⟨?_, fun specs => ?_, fun nonempty => ?_⟩
  · rcases allCompile_or_firstDefective settings.formats with
      ⟨patterns, compiled⟩ | ⟨before, spec, defect, first⟩
    · exact Or.inl ⟨patterns, compiled, PatternSet.compile_of_allCompile compiled,
        PatternSet.fromCache_of_allCompile capacity history compiled,
        patternSet_of_allCompile capacity history compiled⟩
    · exact Or.inr ⟨before, spec, defect, first, PatternSet.compile_of_firstDefective first,
        PatternSet.fromCache_of_firstDefective capacity history first,
        patternSet_of_firstDefective capacity history first⟩
  · rw [Cache.after_append]
    exact Cache.counts_lookups (after capacity history) specs
  · rw [validate_eq capacity history nonempty]
    cases outcome : (settings.patternSet (after capacity history)).1 with
    | ok set => simp [Except.map]
    | error failure => simp [Except.map]

/-- A repeated format is sound twice, and the one behind it is the first offender. -/
theorem patternSet_agrees_repeated :
    exists settings : Settings,
      settings.formats = ["\x7btitle\x7d".toList, "\x7btitle\x7d".toList, "\x7bname\x7d".toList] ∧
      settings.formats ≠ [] ∧
      settings.validate = .error (.defectiveFormat "\x7bname\x7d".toList
        (.unknownToken "\x7bname\x7d".toList "name".toList)) := by
  refine ⟨⟨_, 1, defaultLogLevel⟩, rfl, List.cons_ne_nil _ _, ?_⟩
  -- The cache that is asked holds one entry at most, and has been cleared before.
  refine (((patternSet_agrees 1 [.lookup "*".toList, .clear] _).2.2 ?_).2 _).mpr ?_
  · exact List.cons_ne_nil _ _
  · decide +kernel

end Settings
end SongPath
