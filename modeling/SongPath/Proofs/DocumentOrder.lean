import SongPath.Proofs.FolderAlignment
import SongPath.Proofs.Trials
import SongPath.Proofs.Trimming

/-!
# What a match yields

The raw captures of a match, unit by unit and piece by piece, stand for the
tokens of the pattern one by one and in document order: alignment drops only a
`**`, which has no tokens.  The metadata keep the first capture of each token,
trimmed, and a later capture of the same token changes nothing.
-/

namespace SongPath
namespace Alignment

/-- Alignment loses no token: what is left out captures nothing. -/
theorem flatMap_tokens_sides (segments : List Segment) :
    ((sides segments).1 ++ (sides segments).2).flatMap Segment.tokens =
      segments.flatMap Segment.tokens := by
  by_cases listed : Segment.anyFolders ∈ segments
  · rcases List.eq_append_cons_of_mem listed with ⟨left, right, rfl, absent⟩
    rw [sides_of_split absent, List.flatMap_append, List.flatMap_append]
    rfl
  · rw [sides_of_not_mem listed]
    rfl

end Alignment

namespace Trial

theorem capture_of_succeeds {trial : Trial} (succeeds : trial.Succeeds) :
    trial.segment.capture trial.actual = some trial.captures := by
  rcases Segment.exists_capture_of_describes succeeds with ⟨captures, found, _⟩
  rw [Trial.captures, found, Option.getD_some]

theorem map_fst_captures {trials : List Trial}
    (succeed : forall trial, trial ∈ trials -> trial.Succeeds) :
    (trials.flatMap captures).map Prod.fst = (trials.map Trial.segment).flatMap Segment.tokens := by
  rw [List.map_flatMap, List.flatMap_map]
  apply List.flatMap_congr
  intro trial listed
  exact Segment.map_fst_capture (capture_of_succeeds (succeed trial listed))

theorem succeed_of_foldlM_run {trials : List Trial} {metadata result : Metadata}
    (ran : trials.foldlM Trial.run metadata = .ok result) :
    (forall trial, trial ∈ trials -> trial.Succeeds) ∧
      result = metadata.putAll (trials.flatMap captures) := by
  rcases all_or_first_not Succeeds trials with
    succeed | ⟨before, trial, after, rfl, earlier, fails⟩
  · rw [foldlM_run_of_succeed succeed] at ran
    cases ran
    exact ⟨succeed, rfl⟩
  · rw [foldlM_run_of_first_failure earlier fails] at ran
    cases ran

end Trial

namespace Pattern

/-- The units are the folder segments but a `**`, and then the file. -/
theorem map_segment_trials {pattern : Pattern} {candidate : Candidate} {trials : List Trial}
    (tried : pattern.trials candidate = .ok trials) :
    (trials.map Trial.segment).flatMap Segment.tokens =
      pattern.segments.flatMap Segment.tokens := by
  rw [Pattern.trials] at tried
  cases aligns : Alignment.align pattern.folders candidate.folders with
  | error mismatch =>
      rw [aligns] at tried
      cases tried
  | ok aligned =>
      rw [aligns] at tried
      cases tried
      have folders : (aligned.map Trial.ofFolder).map Trial.segment =
          aligned.map Aligned.segment := List.map_map
      rw [List.map_append, folders, Alignment.map_segment_align aligns, List.flatMap_append,
        Alignment.flatMap_tokens_sides, segments, List.flatMap_append]
      rfl

theorem actual_mem_of_mem_trials {pattern : Pattern} {candidate : Candidate} {trials : List Trial}
    (tried : pattern.trials candidate = .ok trials) {trial : Trial} (listed : trial ∈ trials) :
    trial.actual ∈ candidate.folders ++ [candidate.fileName] := by
  rw [Pattern.trials] at tried
  cases aligns : Alignment.align pattern.folders candidate.folders with
  | error mismatch =>
      rw [aligns] at tried
      cases tried
  | ok aligned =>
      rw [aligns] at tried
      cases tried
      rcases List.mem_append.mp listed with folder | file
      · rcases List.mem_map.mp folder with ⟨unit, member, rfl⟩
        exact List.mem_append_left _
          (List.mem_of_getElem? (Alignment.getElem?_of_mem_align aligns member))
      · rw [List.mem_singleton.mp file]
        exact List.mem_append_right _ List.mem_cons_self

theorem mem_tokens_iff (pattern : Pattern) (token : Token) :
    token ∈ pattern.tokens <-> token ∈ pattern.segments.flatMap Segment.tokens := by
  rw [tokens, List.mem_filter, List.contains_iff_mem]
  exact ⟨And.right, fun listed => ⟨Token.mem_all token, listed⟩⟩

theorem find?_eq_none_of_not_mem {captures : List (Token × Text)} {token : Token}
    (absent : token ∉ captures.map Prod.fst) :
    (captures.find? fun capture => capture.1 == token) = none := by
  rw [List.find?_eq_none]
  intro capture listed named
  exact absent (List.mem_map.mpr ⟨capture, listed, beq_iff_eq.mp named⟩)

/-- Captures that stand for the tokens of a pattern, occurrence by occurrence,
hold one of each of its tokens and of no other. -/
theorem find?_isSome_iff {pattern : Pattern} {captures : List (Token × Text)}
    (occurrences : captures.map Prod.fst = pattern.segments.flatMap Segment.tokens)
    (token : Token) :
    (captures.find? fun capture => capture.1 == token).isSome = true <->
      token ∈ pattern.tokens := by
  rw [List.find?_isSome, mem_tokens_iff, ← occurrences, List.mem_map]
  constructor
  · rintro ⟨capture, listed, named⟩
    exact ⟨capture, listed, beq_iff_eq.mp named⟩
  · rintro ⟨capture, listed, named⟩
    exact ⟨capture, listed, beq_iff_eq.mpr named⟩

/-- A match yields for each token of the pattern, and for no other, the trimmed
text of its first raw capture.  The raw captures are the token occurrences of
the pattern in document order.  Such a value is not empty, is trimmed, is a
stretch of a single name of the path, and stays as it is from the unit on that
captured it. -/
theorem matchPath_yields {pattern : Pattern} {path : Text} {metadata : Metadata}
    (matched : pattern.matchPath path = .ok metadata) :
    exists trials, pattern.trials (Candidate.ofPath path) = .ok trials ∧
      (forall trial, trial ∈ trials ->
        trial.segment.capture trial.actual = some trial.captures) ∧
      (trials.flatMap Trial.captures).map Prod.fst = pattern.segments.flatMap Segment.tokens ∧
      forall token,
        metadata.get token =
          ((trials.flatMap Trial.captures).find? fun capture => capture.1 == token).map
            (fun capture => capture.2.trim) ∧
        ((metadata.get token).isSome = true <-> token ∈ pattern.tokens) ∧
        (forall value, metadata.get token = some value ->
          value ≠ [] ∧ value.trim = value ∧
            exists name,
              name ∈ (Candidate.ofPath path).folders ++ [(Candidate.ofPath path).fileName] ∧
                value <:+: name) ∧
        forall earlier later, trials = earlier ++ later ->
          exists partly, earlier.foldlM Trial.run Metadata.empty = .ok partly ∧
            forall value, partly.get token = some value -> metadata.get token = some value := by
  rcases (bind_eq_ok_iff _ _ _).mp matched with ⟨trials, tried, ran⟩
  rcases Trial.succeed_of_foldlM_run ran with ⟨succeed, rfl⟩
  have occurrences := (Trial.map_fst_captures succeed).trans (map_segment_trials tried)
  have first := Metadata.get_putAll_empty (trials.flatMap Trial.captures)
  have raw : forall trial, trial ∈ trials ->
      trial.segment.capture trial.actual = some trial.captures := by
    intro trial listed
    exact Trial.capture_of_succeeds (succeed trial listed)
  refine ⟨trials, tried, raw, occurrences, ?_⟩
  intro token
  refine ⟨first token, ?_, ?_, ?_⟩
  · rw [first, Option.isSome_map]
    exact find?_isSome_iff occurrences token
  · intro value found
    rw [first] at found
    rcases Option.map_eq_some_iff.mp found with ⟨capture, chosen, rfl⟩
    rcases List.mem_flatMap.mp (List.mem_of_find?_eq_some chosen) with ⟨trial, member, listed⟩
    rcases Segment.exists_capture_of_describes (succeed trial member) with
      ⟨captures, captured, visible⟩
    rw [Trial.captures, captured, Option.getD_some] at listed
    refine ⟨?_, Text.trim_trim capture.2, trial.actual, actual_mem_of_mem_trials tried member, ?_⟩
    · intro empty
      have blank := (Text.trim_eq_nil_iff capture.2).mp empty
      rw [visible capture listed] at blank
      cases blank
    · apply (Text.trim_infix_self capture.2).trans
      exact Segment.infix_of_mem_capture captured listed
  · rintro earlier later rfl
    have earlierSucceed := fun trial listed => succeed trial (List.mem_append_left later listed)
    refine ⟨_, Trial.foldlM_run_of_succeed earlierSucceed Metadata.empty, ?_⟩
    intro value found
    rw [List.flatMap_append, Metadata.putAll_append, Metadata.get_putAll, found]
    rfl

/-- The folder stands before the file, so it names the artist. -/
theorem matchPath_yields_folder_artist :
    exists (metadata : Metadata) (trials : List Trial),
      matchPath ⟨[.slot .artist],
        .composite [.slot .artist, .literal [' ', '-', ' '], .slot .title]⟩
        "ABBA/Abba - SOS.mp3".toList = .ok metadata ∧
      (trials.flatMap Trial.captures).map Prod.fst = [.artist, .artist, .title] ∧
      metadata.get .artist =
        ((trials.flatMap Trial.captures).find? fun capture => capture.1 == .artist).map
          (fun capture => capture.2.trim) ∧
      metadata.get .artist = some "ABBA".toList ∧ metadata.get .creator = none := by
  have matched : matchPath ⟨[.slot .artist],
      .composite [.slot .artist, .literal [' ', '-', ' '], .slot .title]⟩
      "ABBA/Abba - SOS.mp3".toList =
        .ok ⟨none, none, some "ABBA".toList, some "SOS".toList⟩ := by
    decide +kernel
  rcases matchPath_yields matched with ⟨trials, _, _, occurrences, yields⟩
  exact ⟨_, trials, matched, occurrences, (yields .artist).1, rfl, rfl⟩

end Pattern
end SongPath
