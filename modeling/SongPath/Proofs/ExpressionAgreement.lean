import SongPath.Proofs.FirstFailure
import SongPath.Proofs.PatternSearch

/-!
# The expression of a pattern and the pattern

Whatever a pattern matches its expression finds, read from the text that is
given away.  What the groups hold is another matter: a token of the expression
may take a blank text, which a pattern never captures.  Where every token gets
something to see the groups hold what the pattern captures.
-/

namespace SongPath
namespace Path

/-- Names joined by single slashes, with a slash in front of them or without. -/
def IsNormalized (path : Text) : Prop :=
  exists names, names ≠ [] ∧ (forall name, name ∈ names -> IsName name) ∧
    (path = List.intercalate ['/'] names ∨ path = '/' :: List.intercalate ['/'] names)

/-- The folders and the file of a normalized path. -/
theorem IsNormalized.exists_written {path : Text} (isNormalized : IsNormalized path) :
    exists lead folders file, (lead = [] ∨ lead = ['/']) ∧
      (forall folder, folder ∈ folders -> IsName folder) ∧ IsName file ∧
      path = lead ++ (joined folders ++ file) ∧
      Candidate.ofPath path = ⟨folders, stem file⟩ := by
  rcases isNormalized with ⟨parts, nonempty, each, written⟩
  rcases List.eq_nil_or_concat parts with rfl | ⟨folders, file, rfl⟩
  · exact absurd rfl nonempty
  rw [List.concat_eq_append] at each written
  rcases List.forall_mem_append.mp each with ⟨isFolder, isFile⟩
  have found : names (List.intercalate ['/'] (folders ++ [file])) = folders ++ [file] :=
    names_intercalate each
  rcases written with rfl | rfl
  · refine ⟨[], folders, file, Or.inl rfl, isFolder, isFile file List.mem_cons_self, ?_, ?_⟩
    · exact intercalate_concat folders file
    · exact Candidate.ofPath_of_names found
  · refine ⟨['/'], folders, file, Or.inr rfl, isFolder, isFile file List.mem_cons_self, ?_, ?_⟩
    · rw [intercalate_concat]
      rfl
    · exact Candidate.ofPath_of_names ((names_separator_cons _ rfl).trans found)

end Path

/-- What the tokens of a trial get in the loose cut that counts. -/
def Trial.LooselyCaptures (trial : Trial) (captures : List (Token × Text)) : Prop :=
  trial.segment.LooselyCaptures trial.actual captures

namespace Pattern

open Regex (Chosen groupsOf ofPattern)

/-! ## What the search finds -/

theorem exists_chosen {segments : List Segment} {names : List Text} {index : Nat}
    (normal : forall segment, segment ∈ segments -> segment.IsNormal)
    (absent : .anyFolders ∉ segments) (isName : forall name, name ∈ names -> Path.IsName name)
    (length : names.length = segments.length)
    (described : forall unit, unit ∈ Alignment.pair index segments names ->
      unit.segment.Describes unit.actual) :
    exists choices, Chosen segments names choices ∧
      List.Forall₂ Trial.LooselyCaptures
        ((Alignment.pair index segments names).map Trial.ofFolder) choices := by
  induction segments generalizing names index with
  | nil =>
      rw [List.length_eq_zero_iff.mp length]
      exact ⟨[], .nil, .nil⟩
  | cons segment segments inductionHypothesis =>
      cases names with
      | nil => cases length
      | cons name names =>
          rcases List.forall_mem_cons.mp normal with ⟨isNormal, normalLater⟩
          rcases List.forall_mem_cons.mp isName with ⟨isFirst, isLater⟩
          rcases List.forall_mem_cons.mp described with ⟨describes, describedLater⟩
          rcases inductionHypothesis normalLater (List.not_mem_of_not_mem_cons absent) isLater
            (Nat.succ.inj length) describedLater with ⟨choices, chosen, loosely⟩
          rcases Segment.exists_looselyCaptures_of_describes describes with ⟨captures, here⟩
          have single : segment ≠ .anyFolders := Ne.symm (List.ne_of_not_mem_cons absent)
          exact ⟨captures :: choices, .cons isNormal single isFirst here chosen,
            .cons here loosely⟩

/-- The search takes the aligned folders with their segments. -/
theorem exists_search_of_align {pattern : Pattern} (isNormal : pattern.IsNormal)
    {folders : List Text} {aligned : List Aligned}
    (aligns : Alignment.align pattern.folders folders = .ok aligned)
    (described : forall unit, unit ∈ aligned -> unit.segment.Describes unit.actual)
    (isFolder : forall folder, folder ∈ folders -> Path.IsName folder) {file : Text}
    (isFile : Path.IsName file) {captures : List (Token × Text)}
    (loosely : pattern.file.LooselyCaptures (Path.stem file) captures) {lead : Text}
    (isLead : lead = [] ∨ lead = ['/']) :
    exists choices found,
      List.Forall₂ Trial.LooselyCaptures (aligned.map Trial.ofFolder) choices ∧
      (ofPattern pattern).search (lead ++ (Path.joined folders ++ file)) = some found ∧
        found.groups = groupsOf [] (choices ++ [captures]).flatten := by
  have normal : forall segment, segment ∈ pattern.folders -> segment.IsNormal :=
    fun segment listed => (isNormal.folders segment listed).1
  rcases Alignment.exists_windows_of_align isNormal.agreeing aligns with
    ⟨absent, front, last, rfl, length, rfl⟩ |
    ⟨left, right, first, middle, last, split, absentLeft, absentRight, rfl, leftLength,
      rightLength, rfl⟩
  · rcases List.forall_mem_append.mp isFolder with ⟨isFront, isLast⟩
    rcases exists_chosen normal absent isLast length described with ⟨choices, chosen, each⟩
    have takesFront : forall name, name ∈ front -> Regex.Takes .many name :=
      fun name listed => Regex.takes_many (isFront name listed)
    rw [Path.joined_append]
    rcases isLead with rfl | rfl
    · rcases Regex.exists_search_trailing isNormal absent takesFront chosen isFile loosely with
        ⟨found, searched, groups⟩
      exact ⟨choices, found, each, searched, groups⟩
    · -- The slash in front ends an empty name, which is taken with those in front.
      have takesEmpty : forall name, name ∈ [] :: front -> Regex.Takes .many name :=
        List.forall_mem_cons.mpr ⟨⟨List.not_mem_nil, Or.inl rfl⟩, takesFront⟩
      rcases Regex.exists_search_trailing isNormal absent takesEmpty chosen isFile loosely with
        ⟨found, searched, groups⟩
      rw [Path.joined_cons] at searched
      exact ⟨choices, found, each, searched, groups⟩
  · rcases List.forall_mem_append.mp isFolder with ⟨isFront, isLast⟩
    rcases List.forall_mem_append.mp isFront with ⟨isFirst, isMiddle⟩
    rcases List.forall_mem_append.mp described with ⟨describedLeft, describedRight⟩
    rw [split] at normal
    rcases List.forall_mem_append.mp normal with ⟨normalLeft, normalRest⟩
    rcases exists_chosen normalLeft absentLeft isFirst leftLength describedLeft with
      ⟨leftChoices, chosenLeft, eachLeft⟩
    rcases exists_chosen (List.forall_mem_cons.mp normalRest).2 absentRight isLast rightLength
      describedRight with ⟨rightChoices, chosenRight, eachRight⟩
    rcases Regex.exists_search_windows isNormal split isLead chosenLeft chosenRight isMiddle
      isFile loosely with ⟨found, searched, groups⟩
    refine ⟨leftChoices ++ rightChoices, found, ?_, searched, groups⟩
    rw [List.map_append]
    exact List.rel_append eachLeft eachRight

/-- Whatever matches is found, and the groups are those of the loose cuts. -/
theorem exists_search {spec : Text} {pattern : Pattern} (compiled : compile spec = .ok pattern)
    {path : Text} (isNormalized : Path.IsNormalized path) {metadata : Metadata}
    (matched : pattern.matchPath path = .ok metadata) :
    exists trials choices found,
      pattern.trials (Candidate.ofPath path) = .ok trials ∧
      (forall trial, trial ∈ trials -> trial.Succeeds) ∧
      metadata = Metadata.empty.putAll (trials.flatMap Trial.captures) ∧
      List.Forall₂ Trial.LooselyCaptures trials choices ∧
      (ofPattern pattern).search path = some found ∧
        found.groups = groupsOf [] choices.flatten := by
  have isNormal := isNormal_of_compile compiled
  rcases isNormalized.exists_written with
    ⟨lead, folders, file, isLead, isFolder, isFile, rfl, candidate⟩
  rw [matchPath, candidate] at matched
  rw [candidate]
  rcases (bind_eq_ok_iff _ _ _).mp matched with ⟨trials, tried, ran⟩
  rcases Trial.succeed_of_foldlM_run ran with ⟨succeed, rfl⟩
  have triedFolders := tried
  rw [Pattern.trials] at triedFolders
  cases aligns : Alignment.align pattern.folders folders with
  | error mismatch =>
      rw [aligns] at triedFolders
      cases triedFolders
  | ok aligned =>
      rw [aligns] at triedFolders
      cases triedFolders
      rcases List.forall_mem_append.mp succeed with ⟨succeedFolders, succeedFile⟩
      have described : forall unit, unit ∈ aligned -> unit.segment.Describes unit.actual :=
        fun unit listed => succeedFolders _ (List.mem_map_of_mem listed)
      have describesFile : pattern.file.Describes (Path.stem file) :=
        succeedFile _ List.mem_cons_self
      rcases Segment.exists_looselyCaptures_of_describes describesFile with ⟨captures, loosely⟩
      rcases exists_search_of_align isNormal aligns described isFolder isFile loosely isLead with
        ⟨choices, found, each, searched, groups⟩
      exact ⟨_, choices ++ [captures], found, tried, succeed, rfl,
        List.rel_append each (.cons loosely .nil), searched, groups⟩

/-- The expression of a pattern never rejects what the pattern matches. -/
theorem search_of_matchPath {spec : Text} {pattern : Pattern}
    (compiled : compile spec = .ok pattern) {path : Text}
    (isNormalized : Path.IsNormalized path) {metadata : Metadata}
    (matched : pattern.matchPath path = .ok metadata) :
    exists expression, Regex.ofText? pattern.regexText = some expression ∧
      (expression.search path).isSome = true := by
  rcases exists_search compiled isNormalized matched with
    ⟨_, _, found, _, _, _, _, searched, _⟩
  refine ⟨ofPattern pattern, Regex.ofText?_regexText pattern, ?_⟩
  rw [searched]
  rfl

/-- With a slash in front, dots in every name, and folders for the `**`. -/
theorem search_of_matchPath_live :
    exists pattern path metadata expression,
      compile "\x7bcreator\x7d/**/\x7bartist\x7d - \x7btitle\x7d (x)".toList = .ok pattern ∧
      path = "/A.B/Live/.1979/A - b.c (x).mp3".toList ∧
      pattern.matchPath path = .ok metadata ∧
      Regex.ofText? pattern.regexText = some expression ∧
      (expression.search path).isSome = true := by
  have compiled : compile "\x7bcreator\x7d/**/\x7bartist\x7d - \x7btitle\x7d (x)".toList =
      .ok ⟨[.slot .creator, .anyFolders],
        .composite
          [.slot .artist, .literal " - ".toList, .slot .title, .literal " (x)".toList]⟩ := by
    decide +kernel
  have isNormalized : Path.IsNormalized "/A.B/Live/.1979/A - b.c (x).mp3".toList :=
    ⟨["A.B".toList, "Live".toList, ".1979".toList, "A - b.c (x).mp3".toList],
      List.cons_ne_nil _ _, by decide +kernel, Or.inr (by decide +kernel)⟩
  have matched : matchPath ⟨[.slot .creator, .anyFolders],
      .composite [.slot .artist, .literal " - ".toList, .slot .title, .literal " (x)".toList]⟩
      "/A.B/Live/.1979/A - b.c (x).mp3".toList =
        .ok ⟨some "A.B".toList, none, some "A".toList, some "b.c".toList⟩ := by
    decide +kernel
  rcases search_of_matchPath compiled isNormalized matched with ⟨expression, read, found⟩
  exact ⟨_, _, _, expression, compiled, rfl, matched, read, found⟩

/-! ## What the groups hold -/

/-- Where all tokens of a trial get something to see, a token gets what the
pattern captures for it.  A trial without the token captures nothing for it. -/
theorem find?_captures_eq {trial : Trial} (succeeds : trial.Succeeds)
    {choice : List (Token × Text)} (loosely : trial.LooselyCaptures choice) {token : Token}
    (visible : token ∈ choice.map Prod.fst ->
      forall capture, capture ∈ choice -> capture.2.isVisible = true) :
    (choice.find? fun capture => capture.1 == token) =
      trial.captures.find? fun capture => capture.1 == token := by
  by_cases listed : token ∈ choice.map Prod.fst
  · have same := loosely.capture_eq succeeds (visible listed)
    rw [Trial.captures, same, Option.getD_some]
  · have tokens : trial.captures.map Prod.fst = choice.map Prod.fst := by
      rw [Segment.map_fst_capture (Trial.capture_of_succeeds succeeds), loosely.map_fst]
    have absent := listed
    rw [← tokens] at absent
    rw [find?_eq_none_of_not_mem listed, find?_eq_none_of_not_mem absent]

theorem map_fst_flatten_of_loosely {trials : List Trial}
    {choices : List (List (Token × Text))}
    (each : List.Forall₂ Trial.LooselyCaptures trials choices) :
    choices.flatten.map Prod.fst = (trials.map Trial.segment).flatMap Segment.tokens := by
  induction each with
  | nil => rfl
  | cons loosely _ inductionHypothesis =>
      rw [List.flatten_cons, List.map_append, loosely.map_fst, inductionHypothesis]
      rfl

theorem find?_flatten_eq {trials : List Trial} {choices : List (List (Token × Text))}
    (succeed : forall trial, trial ∈ trials -> trial.Succeeds)
    (each : List.Forall₂ Trial.LooselyCaptures trials choices) {token : Token}
    (visible : forall choice, choice ∈ choices -> token ∈ choice.map Prod.fst ->
      forall capture, capture ∈ choice -> capture.2.isVisible = true) :
    (choices.flatten.find? fun capture => capture.1 == token) =
      (trials.flatMap Trial.captures).find? fun capture => capture.1 == token := by
  induction each with
  | nil => rfl
  | cons loosely _ inductionHypothesis =>
      rcases List.forall_mem_cons.mp succeed with ⟨succeeds, succeedLater⟩
      rcases List.forall_mem_cons.mp visible with ⟨visibleHere, visibleLater⟩
      rw [List.flatten_cons, List.flatMap_cons, List.find?_append, List.find?_append,
        find?_captures_eq succeeds loosely visibleHere,
        inductionHypothesis succeedLater visibleLater]

/-- The group of a token holds its first text in the loose cuts that count.
That is what the pattern captures, up to blanks at both ends, unless a token
gets a blank text in a name where the token stands. -/
theorem group?_of_matchPath {spec : Text} {pattern : Pattern}
    (compiled : compile spec = .ok pattern) {path : Text}
    (isNormalized : Path.IsNormalized path) {metadata : Metadata}
    (matched : pattern.matchPath path = .ok metadata) :
    exists trials choices expression found,
      pattern.trials (Candidate.ofPath path) = .ok trials ∧
      List.Forall₂ Trial.LooselyCaptures trials choices ∧
      Regex.ofText? pattern.regexText = some expression ∧
      expression.search path = some found ∧
      forall token,
        found.group? token.name =
          (choices.flatten.find? fun capture => capture.1 == token).map Prod.snd ∧
        ((found.group? token.name).isSome = true <-> token ∈ pattern.tokens) ∧
        ((forall choice, choice ∈ choices -> token ∈ choice.map Prod.fst ->
            forall capture, capture ∈ choice -> capture.2.isVisible = true) ->
          (found.group? token.name).map Text.trim = metadata.get token) := by
  rcases exists_search compiled isNormalized matched with
    ⟨trials, choices, found, tried, succeed, rfl, each, searched, groups⟩
  refine ⟨trials, choices, ofPattern pattern, found, tried, each, Regex.ofText?_regexText pattern,
    searched, ?_⟩
  intro token
  have held := Regex.group?_of_groupsOf (List.not_mem_nil : token ∉ []) groups
  refine ⟨held, ?_, ?_⟩
  · have tokens := (map_fst_flatten_of_loosely each).trans (map_segment_trials tried)
    rw [held, Option.isSome_map]
    exact find?_isSome_iff tokens token
  · intro visible
    rw [held, Metadata.get_putAll_empty, find?_flatten_eq succeed each visible, Option.map_map]
    rfl

/-- The blank behind the artist belongs to the group and not to the value. -/
theorem group?_of_matchPath_spaced :
    exists pattern metadata expression found,
      compile "\x7bartist\x7d-\x7btitle\x7d".toList = .ok pattern ∧
      pattern.matchPath "music/a -x-y.mp3".toList = .ok metadata ∧
      Regex.ofText? pattern.regexText = some expression ∧
      expression.search "music/a -x-y.mp3".toList = some found ∧
      found.group? Token.artist.name = some "a ".toList ∧
      metadata.get .artist = some "a".toList ∧
      (found.group? Token.artist.name).map Text.trim = metadata.get .artist ∧
      (found.group? Token.title.name).map Text.trim = metadata.get .title := by
  have compiled : compile "\x7bartist\x7d-\x7btitle\x7d".toList =
      .ok ⟨[], .composite [.slot .artist, .literal ['-'], .slot .title]⟩ := by
    decide +kernel
  have isNormalized : Path.IsNormalized "music/a -x-y.mp3".toList :=
    ⟨["music".toList, "a -x-y.mp3".toList], List.cons_ne_nil _ _, by decide +kernel,
      Or.inl (by decide +kernel)⟩
  have matched : matchPath ⟨[], .composite [.slot .artist, .literal ['-'], .slot .title]⟩
      "music/a -x-y.mp3".toList = .ok ⟨none, none, some "a".toList, some "x-y".toList⟩ := by
    decide +kernel
  have shortest : Segment.IsShortestLooseCut [.slot .artist, .literal ['-'], .slot .title]
      "a -x-y".toList ["a ".toList, ['-'], "x-y".toList] :=
    Segment.find?_splits_isEmpty_iff.mp (by decide +kernel)
  rcases group?_of_matchPath compiled isNormalized matched with
    ⟨trials, choices, expression, found, tried, each, read, searched, groups⟩
  have only : choices = [[(.artist, "a ".toList), (.title, "x-y".toList)]] := by
    have units : trials = [Trial.ofFile (.composite [.slot .artist, .literal ['-'], .slot .title])
        "a -x-y".toList] :=
      Except.ok.inj (tried.symm.trans (by decide +kernel))
    rw [units] at each
    rcases List.forall₂_cons_left_iff.mp each with ⟨choice, rest, loosely, none, rfl⟩
    rw [List.forall₂_nil_left_iff.mp none]
    rcases loosely with ⟨spans, other, rfl⟩
    rw [other.unique shortest]
    rfl
  have visible : forall choice, choice ∈ choices ->
      forall capture, capture ∈ choice -> capture.2.isVisible = true := by
    rw [only]
    decide +kernel
  have agrees := fun token => (groups token).2.2 fun choice listed _ => visible choice listed
  have held := (groups .artist).1
  rw [only] at held
  exact ⟨_, _, expression, found, compiled, matched, read, searched, held, rfl, agrees .artist,
    agrees .title⟩

/-- The expression takes the blank in front of the first hyphen for the artist.
The pattern looks for something to see and goes on to the second hyphen. -/
theorem exists_group?_ne :
    exists pattern metadata expression found,
      compile "\x7bartist\x7d-\x7btitle\x7d".toList = .ok pattern ∧
      Path.IsNormalized " -x-y.mp3".toList ∧
      pattern.matchPath " -x-y.mp3".toList = .ok metadata ∧
      Regex.ofText? pattern.regexText = some expression ∧
      expression.search " -x-y.mp3".toList = some found ∧
      Token.artist ∈ pattern.tokens ∧
      found.group? Token.artist.name = some [' '] ∧ metadata.get .artist = some "-x".toList ∧
      (found.group? Token.artist.name).map Text.trim ≠ metadata.get .artist := by
  have compiled : compile "\x7bartist\x7d-\x7btitle\x7d".toList =
      .ok ⟨[], .composite [.slot .artist, .literal ['-'], .slot .title]⟩ := by
    decide +kernel
  have matched : matchPath ⟨[], .composite [.slot .artist, .literal ['-'], .slot .title]⟩
      " -x-y.mp3".toList = .ok ⟨none, none, some "-x".toList, some "y".toList⟩ := by
    decide +kernel
  have searched : (ofPattern ⟨[], .composite [.slot .artist, .literal ['-'], .slot .title]⟩).search
      " -x-y.mp3".toList = some ⟨" -x-y.mp3".toList,
        [(Token.artist.name, [' ']), (Token.title.name, "x-y".toList)], []⟩ := by
    decide +kernel
  have isNormalized : Path.IsNormalized " -x-y.mp3".toList :=
    ⟨[" -x-y.mp3".toList], List.cons_ne_nil _ _, by decide +kernel, Or.inl (by decide +kernel)⟩
  exact ⟨_, _, _, _, compiled, isNormalized, matched, Regex.ofText?_regexText _, searched,
    by decide +kernel, by decide +kernel, rfl, by decide +kernel⟩

end Pattern
end SongPath
