import SongPath.Proofs.DocumentOrder
import SongPath.Proofs.FirstFailure
import SongPath.Proofs.PathNames

/-!
# Leading folders of a pattern

A pattern without `**` describes the last folders of a path, so its first folder
segments ask for the least that is certain: leave them out, and the others still
describe the folders that they did.  Only the tokens of what was left out may get
another value, because they may stand again further on.

A `**` in front changes nothing either.  It takes the folders that were ignored,
and the segments behind it are aligned from the end as before, so that even the
indices in a mismatch are the same.
-/

namespace SongPath

/-- The first captures count for their own tokens only. -/
theorem Metadata.get_putAll_behind {first : List (Token × Text)} {token : Token}
    (absent : token ∉ first.map Prod.fst) (second : List (Token × Text)) :
    (empty.putAll (first ++ second)).get token = (empty.putAll second).get token := by
  rw [get_putAll_empty, get_putAll_empty, List.find?_append,
    Pattern.find?_eq_none_of_not_mem absent, Option.none_or]

/-- A run that goes through still does without its first trials, and yields the
same for every token that these do not have. -/
theorem Trial.exists_foldlM_run_behind {before after : List Trial} {metadata : Metadata}
    (ran : (before ++ after).foldlM run Metadata.empty = .ok metadata) :
    exists fewer, after.foldlM run Metadata.empty = .ok fewer ∧
      forall token, token ∉ (before.map Trial.segment).flatMap Segment.tokens ->
        fewer.get token = metadata.get token := by
  rcases succeed_of_foldlM_run ran with ⟨succeed, rfl⟩
  rcases List.forall_mem_append.mp succeed with ⟨succeedBefore, succeedAfter⟩
  refine ⟨_, foldlM_run_of_succeed succeedAfter Metadata.empty, ?_⟩
  intro token absent
  rw [← map_fst_captures succeedBefore] at absent
  rw [List.flatMap_append, Metadata.get_putAll_behind absent]

namespace Alignment

/-- Without a `**` the later segments are aligned as they are without the first
ones. -/
theorem exists_align_drop {segments : List Segment} (absent : .anyFolders ∉ segments)
    {folders : List Text} {aligned : List Aligned} (aligns : align segments folders = .ok aligned)
    (count : Nat) :
    exists before after, aligned = before ++ after ∧
      before.map Aligned.segment = segments.take count ∧
      align (segments.drop count) folders = .ok after := by
  rcases exists_windows_of_align (Or.inl absent) aligns with
    ⟨_, front, last, rfl, length, rfl⟩ | ⟨left, right, _, _, _, rfl, _⟩
  · -- The folders taken by the dropped segments join those that were ignored.
    have firstLength : (last.take count).length = (segments.take count).length := by
      rw [List.length_take, List.length_take, length]
    have restLength : (last.drop count).length = (segments.drop count).length := by
      rw [List.length_drop, List.length_drop, length]
    have absentBehind : .anyFolders ∉ segments.drop count :=
      fun listed => absent (List.mem_of_mem_drop listed)
    have aligned := align_trailing absentBehind (front ++ last.take count) restLength
    rw [List.append_assoc, List.take_append_drop, List.length_append] at aligned
    refine ⟨pair front.length (segments.take count) (last.take count), _, ?_, ?_, aligned⟩
    · rw [← pair_append_pair firstLength, List.take_append_drop, List.take_append_drop]
    · exact map_segment_pair _ (Nat.le_of_eq firstLength.symm)
  · exact absurd (List.mem_append_right left List.mem_cons_self) absent

/-- A `**` in front of segments without one leaves their alignment as it is. -/
theorem align_anyFolders_cons {segments : List Segment} (absent : .anyFolders ∉ segments)
    (folders : List Text) : align (.anyFolders :: segments) folders = align segments folders := by
  have split : sides (.anyFolders :: segments) = ([], segments) :=
    sides_of_split List.not_mem_nil segments
  rw [align, align, split, sides_of_not_mem absent]

end Alignment

namespace Pattern

/-- The pattern without its first folders. -/
def dropFolders (pattern : Pattern) (count : Nat) : Pattern :=
  { pattern with folders := pattern.folders.drop count }

theorem matchCandidate_dropFolders {pattern : Pattern} (absent : .anyFolders ∉ pattern.folders)
    {candidate : Candidate} {metadata : Metadata}
    (matched : pattern.matchCandidate candidate = .ok metadata) (count : Nat) :
    exists fewer, (pattern.dropFolders count).matchCandidate candidate = .ok fewer ∧
      forall token, token ∉ (pattern.folders.take count).flatMap Segment.tokens ->
        fewer.get token = metadata.get token := by
  rcases (bind_eq_ok_iff _ _ _).mp matched with ⟨trials, tried, _⟩
  cases aligns : Alignment.align pattern.folders candidate.folders with
  | error mismatch =>
      rw [Pattern.trials, aligns] at tried
      cases tried
  | ok aligned =>
      rcases Alignment.exists_align_drop absent aligns count with
        ⟨before, after, rfl, dropped, alignsBehind⟩
      have behind : Alignment.align (pattern.dropFolders count).folders candidate.folders =
          .ok after := alignsBehind
      have segments : (before.map Trial.ofFolder).map Trial.segment =
          pattern.folders.take count := List.map_map.trans dropped
      rw [matchCandidate_of_align aligns, List.map_append, List.append_assoc] at matched
      rw [matchCandidate_of_align behind, ← segments]
      exact Trial.exists_foldlM_run_behind matched

/-- The specification without its first folder names is one of the pattern without
its first folders. -/
theorem compile_dropFolders {spec : Text} {pattern : Pattern}
    (compiled : compile spec = .ok pattern) (absent : .anyFolders ∉ pattern.folders)
    {parts : List Text} {last : Text} (names : Path.names spec = parts ++ [last]) (count : Nat) :
    compile (List.intercalate ['/'] (parts.drop count ++ [last])) =
      .ok (pattern.dropFolders count) := by
  rcases (compile_eq_ok_iff spec pattern).mp compiled with
    ⟨raws, file, named, foldersRead, fileRead, _⟩
  rcases List.append_inj' (names.symm.trans named) rfl with ⟨rfl, same⟩
  cases same
  rcases Path.isName_of_names names with ⟨isName, isFileName⟩
  have each : forall part, part ∈ parts.drop count ++ [last] -> Path.IsName part :=
    List.forall_mem_append.mpr ⟨fun part listed => isName part (List.mem_of_mem_drop listed),
      List.forall_mem_singleton.mpr isFileName⟩
  have agreeing : AgreeingFolders (pattern.folders.drop count) :=
    Or.inl fun listed => absent (List.mem_of_mem_drop listed)
  exact (compile_eq_ok_iff _ _).mpr ⟨parts.drop count, last, Path.names_intercalate each,
    List.forall₂_drop count foldersRead, fileRead, agreeing⟩

/-- A `**` folder may be written in front of every folder but a `*`. -/
theorem compile_doubleStar_append {spec : Text} {pattern : Pattern}
    (compiled : compile spec = .ok pattern) (absent : .anyFolders ∉ pattern.folders)
    (apart : pattern.folders.head? ≠ some .anyFolder) :
    compile ("**/".toList ++ spec) = .ok ⟨.anyFolders :: pattern.folders, pattern.file⟩ := by
  rcases (compile_eq_ok_iff spec pattern).mp compiled with
    ⟨parts, last, names, foldersRead, fileRead, _⟩
  have double : Segment.ofFolder ['*', '*'] = .ok .anyFolders := by rfl
  have longer : Path.names ("**/".toList ++ spec) = (['*', '*'] :: parts) ++ [last] := by
    have cut : Path.names (['*', '*'] ++ '/' :: spec) =
        Path.names ['*', '*'] ++ Path.names spec := Path.names_append_separator _ _ rfl
    rw [names] at cut
    exact cut
  have agreeing : AgreeingFolders (.anyFolders :: pattern.folders) :=
    Or.inr ⟨[], pattern.folders, rfl, List.not_mem_nil, absent, nofun, apart⟩
  exact (compile_eq_ok_iff _ _).mpr
    ⟨_, last, longer, .cons double foldersRead, fileRead, agreeing⟩

theorem matchCandidate_anyFolders_cons {pattern : Pattern} (absent : .anyFolders ∉ pattern.folders)
    (candidate : Candidate) :
    matchCandidate ⟨.anyFolders :: pattern.folders, pattern.file⟩ candidate =
      pattern.matchCandidate candidate := by
  rw [matchCandidate, matchCandidate, trials, trials,
    Alignment.align_anyFolders_cons absent]

/-- A pattern without `**` matches what it did without its first folders, with the
same values for all tokens that these do not have.  With a `**` in front, unless
its first folder is a `*`, it does on every candidate just what it did. -/
theorem matchPath_of_leading_folders {spec : Text} {pattern : Pattern}
    (compiled : compile spec = .ok pattern) (absent : .anyFolders ∉ pattern.folders) :
    (forall count : Nat,
      (forall (parts : List Text) (last : Text), Path.names spec = parts ++ [last] ->
        compile (List.intercalate ['/'] (parts.drop count ++ [last])) =
          .ok (pattern.dropFolders count)) ∧
      forall (path : Text) (metadata : Metadata), pattern.matchPath path = .ok metadata ->
        exists fewer, (pattern.dropFolders count).matchPath path = .ok fewer ∧
          forall token, token ∉ (pattern.folders.take count).flatMap Segment.tokens ->
            fewer.get token = metadata.get token) ∧
    (pattern.folders.head? ≠ some .anyFolder ->
      exists anchored : Pattern, compile ("**/".toList ++ spec) = .ok anchored ∧
        forall candidate,
          anchored.matchCandidate candidate = pattern.matchCandidate candidate) := by
  constructor
  · intro count
    constructor
    · intro parts last names
      exact compile_dropFolders compiled absent names count
    · intro path metadata matched
      exact matchCandidate_dropFolders absent matched count
  · intro apart
    exact ⟨_, compile_doubleStar_append compiled absent apart,
      matchCandidate_anyFolders_cons absent⟩

/-- The artist is named twice, so without the first folder the file gives it. -/
theorem matchPath_of_leading_folders_artist :
    exists pattern fewer anchored,
      compile "\x7bartist\x7d/Disc */\x7bartist\x7d - \x7btitle\x7d".toList = .ok pattern ∧
      pattern.matchPath "ABBA/Disc 1/Abba - SOS.mp3".toList =
        .ok ⟨none, none, some "ABBA".toList, some "SOS".toList⟩ ∧
      compile "Disc */\x7bartist\x7d - \x7btitle\x7d".toList = .ok (pattern.dropFolders 1) ∧
      (pattern.dropFolders 1).matchPath "ABBA/Disc 1/Abba - SOS.mp3".toList = .ok fewer ∧
      fewer.get .title = some "SOS".toList ∧
      compile "**/\x7bartist\x7d/Disc */\x7bartist\x7d - \x7btitle\x7d".toList = .ok anchored ∧
      anchored.matchCandidate ⟨["Abba".toList], "SOS".toList⟩ = .error (.tooFewFolders 2 1) := by
  have compiled : compile "\x7bartist\x7d/Disc */\x7bartist\x7d - \x7btitle\x7d".toList =
      .ok ⟨[.slot .artist, .composite [.literal "Disc ".toList, .wildcard]],
        .composite [.slot .artist, .literal " - ".toList, .slot .title]⟩ := by
    decide +kernel
  have absent : .anyFolders ∉
      [Segment.slot .artist, .composite [.literal "Disc ".toList, .wildcard]] := by
    decide
  have matched : matchPath ⟨[.slot .artist, .composite [.literal "Disc ".toList, .wildcard]],
      .composite [.slot .artist, .literal " - ".toList, .slot .title]⟩
      "ABBA/Disc 1/Abba - SOS.mp3".toList =
        .ok ⟨none, none, some "ABBA".toList, some "SOS".toList⟩ := by
    decide +kernel
  rcases matchPath_of_leading_folders compiled absent with ⟨behind, inFront⟩
  rcases (behind 1).2 _ _ matched with ⟨fewer, matchedFewer, same⟩
  rcases inFront (by decide) with ⟨anchored, anchoredCompiled, agrees⟩
  have shorter := (behind 1).1 ["\x7bartist\x7d".toList, "Disc *".toList]
    "\x7bartist\x7d - \x7btitle\x7d".toList (by decide +kernel)
  have written : List.intercalate ['/'] (["\x7bartist\x7d".toList, "Disc *".toList].drop 1 ++
      ["\x7bartist\x7d - \x7btitle\x7d".toList]) =
        "Disc */\x7bartist\x7d - \x7btitle\x7d".toList := by
    decide +kernel
  rw [written] at shorter
  refine ⟨_, fewer, anchored, compiled, matched, shorter, matchedFewer, same .title (by decide),
    anchoredCompiled, (agrees _).trans ?_⟩
  decide +kernel

end Pattern
end SongPath
