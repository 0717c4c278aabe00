import Mathlib.Data.List.DropRight
import SongPath.Proofs.ParseRuns
import SongPath.Proofs.Provenance

/-!
# Reading the text report

Nothing is escaped in the text report, and a path may look like a headline of
its own.  The report can be read back all the same if nothing in it holds a line
feed.  Lines are read from the last to the first: indented ones are details and
wait for their headline, in a headline the path ends where the last bracket
opens, and in a line of metadata the value begins where the name of its token
ends.  A match has no reasons, so that its details are metadata and nothing
else.
-/

namespace SongPath
namespace Report
namespace Reader

/-- The path and the pattern index behind the word of a match. -/
def numbered? (text : Text) : Option (Text × Nat) := do
  let numbered <- text.dropSuffix? [']']
  let index <- Text.toNat? (numbered.rtakeWhile Char.isDigit)
  let path <- (numbered.rdropWhile Char.isDigit).dropSuffix? " [pattern ".toList
  some (path, index)

/-- What stands in front of the value of a token. -/
def label (token : Token) : Text :=
  token.name ++ ": ".toList

/-- The value of a token among the details of a match. -/
def value? (details : List Text) (token : Token) : Option Text :=
  details.findSome? fun detail => detail.dropPrefix? (label token)

/-- The resolution with the given headline and details. -/
def resolution? (headline : Text) (details : List Text) : Option Resolution :=
  match headline.dropPrefix? "OK ".toList with
  | some rest =>
      (numbered? rest).map fun (path, index) =>
        let value := value? details
        ⟨path, some ⟨index, ⟨value .creator, value .identifier, value .artist, value .title⟩⟩, []⟩
  | none => (headline.dropPrefix? "NO MATCH ".toList).map fun path => ⟨path, none, details⟩

/-- What has been read from the last line upwards: details without a headline as
yet, and the resolutions below them. -/
structure Progress where
  details : List Text
  resolutions : List Resolution

/-- Read the line above. -/
def line? (line : Text) (below : Progress) : Option Progress :=
  match line.dropPrefix? "    ".toList with
  | some detail => some { below with details := detail :: below.details }
  | none => (resolution? line below.details).map fun found => ⟨[], found :: below.resolutions⟩

end Reader

/-- The resolutions of a text report.  No line stands behind its last line
feed. -/
def ofText? (text : Text) : Option (List Resolution) := do
  let read <- (text.splitOn '\n').dropLast.foldrM Reader.line? ⟨[], []⟩
  if read.details = [] then some read.resolutions else none

/-! ## The lines of a report -/

/-- The first line of a resolution. -/
def headline (resolution : Resolution) : Text :=
  match resolution.found with
  | some found =>
      "OK ".toList ++ (resolution.path ++ " [pattern ".toList ++ Text.ofNat found.patternIndex ++
        [']'])
  | none => "NO MATCH ".toList ++ resolution.path

/-- The further lines of a resolution without their indentation. -/
def further (resolution : Resolution) : List Text :=
  match resolution.found with
  | some found => details found.metadata
  | none => resolution.reasons

/-- The lines of a resolution without their line feeds. -/
def lines (resolution : Resolution) : List Text :=
  headline resolution :: (further resolution).map fun detail => "    ".toList ++ detail

theorem resolutionText_eq (resolution : Resolution) :
    resolutionText resolution = (lines resolution).flatMap fun line => line ++ ['\n'] := by
  have below : ((further resolution).map fun detail => "    ".toList ++ detail).flatMap
      (fun line => line ++ ['\n']) = (further resolution).flatMap indented := by
    rw [List.flatMap_map]
    rfl
  have block := isBlockOf_resolutionText resolution
  rw [lines, List.flatMap_cons, below]
  cases outcome : resolution.found with
  | none =>
      rw [block.unmatched outcome, headline, further, outcome]
  | some found =>
      rw [block.matched found outcome, headline, further, outcome]
      simp only [List.append_assoc]
      rfl

theorem text_eq (resolutions : List Resolution) :
    text resolutions = (resolutions.flatMap lines).flatMap fun line => line ++ ['\n'] := by
  rw [text, List.flatMap_assoc]
  exact List.flatMap_congr fun resolution _ => resolutionText_eq resolution

/-- Lines that end with line feeds are cut there. -/
theorem splitOn_flatMap_newline {lines : List Text}
    (unbroken : forall line, line ∈ lines -> '\n' ∉ line) :
    (lines.flatMap fun line => line ++ ['\n']).splitOn '\n' = lines ++ [[]] := by
  induction lines with
  | nil => rfl
  | cons line lines inductionHypothesis =>
      rcases List.forall_mem_cons.mp unbroken with ⟨first, others⟩
      have cut : (line ++ '\n' :: lines.flatMap fun line => line ++ ['\n']).splitOn '\n' =
          line.splitOn '\n' ++ (lines.flatMap fun line => line ++ ['\n']).splitOn '\n' :=
        List.splitOnP_append_cons line _ (beq_self_eq_true '\n')
      rw [List.flatMap_cons, List.append_assoc, List.singleton_append, cut,
        List.splitOn_eq_singleton first, inductionHypothesis others]
      rfl

/-! ## Reading lines -/

theorem line?_indented (detail : Text) (below : Reader.Progress) :
    Reader.line? ("    ".toList ++ detail) below =
      some { below with details := detail :: below.details } := by
  rw [Reader.line?, List.dropPrefix?_append_of_beq detail (beq_self_eq_true _)]

theorem foldrM_indented (details : List Text) (resolutions : List Resolution) :
    (details.map fun detail => "    ".toList ++ detail).foldrM Reader.line? ⟨[], resolutions⟩ =
      some ⟨details, resolutions⟩ := by
  induction details with
  | nil => rfl
  | cons detail details inductionHypothesis =>
      rw [List.map_cons, List.foldrM_cons, inductionHypothesis]
      exact line?_indented detail _

/-- The digits at the end of a text are those behind its last other character. -/
theorem rtakeWhile_digits {digits : Text} (all : forall char, char ∈ digits -> char.isDigit = true)
    {last : Char} (other : last.isDigit = false) (front : Text) :
    (front ++ last :: digits).rtakeWhile Char.isDigit = digits ∧
      (front ++ last :: digits).rdropWhile Char.isDigit = front ++ [last] := by
  have reversed : forall char, char ∈ digits.reverse -> char.isDigit = true := by
    intro char listed
    exact all char (List.mem_reverse.mp listed)
  constructor
  · rw [List.rtakeWhile, List.reverse_append, List.reverse_cons, List.append_assoc,
      List.takeWhile_append_of_pos reversed]
    simp [other]
  · rw [List.rdropWhile, List.reverse_append, List.reverse_cons, List.append_assoc,
      List.dropWhile_append_of_pos reversed]
    simp [other]

theorem numbered?_append (path : Text) (index : Nat) :
    Reader.numbered? (path ++ " [pattern ".toList ++ Text.ofNat index ++ [']']) =
      some (path, index) := by
  have closed : (path ++ " [pattern ".toList ++ Text.ofNat index ++ [']']).dropSuffix? [']'] =
      some (path ++ " [pattern ".toList ++ Text.ofNat index) :=
    List.dropSuffix?_eq_some_iff.mpr ⟨[']'], rfl, beq_self_eq_true _⟩
  have opened : (path ++ " [pattern ".toList).dropSuffix? " [pattern ".toList = some path :=
    List.dropSuffix?_eq_some_iff.mpr ⟨_, rfl, beq_self_eq_true _⟩
  have digits : forall char, char ∈ Text.ofNat index -> char.isDigit = true := fun char listed =>
    Nat.isDigit_of_mem_toDigits (by decide) (by decide) listed
  have front : path ++ " [pattern ".toList ++ Text.ofNat index =
      (path ++ " [pattern".toList) ++ ' ' :: Text.ofNat index := by
    rw [List.append_assoc, List.append_assoc]
    rfl
  rcases rtakeWhile_digits digits (by decide : ' '.isDigit = false) (path ++ " [pattern".toList)
    with ⟨taken, dropped⟩
  have lastBlank : path ++ " [pattern".toList ++ [' '] = path ++ " [pattern ".toList := by
    rw [List.append_assoc]
    rfl
  rw [lastBlank] at dropped
  rw [Reader.numbered?, closed]
  simp only [Option.bind_eq_bind, Option.bind_some, front, taken, dropped, Text.toNat?_ofNat, opened]

/-- No label is the front of another one. -/
theorem dropPrefix?_label_append (token other : Token) (value : Text) :
    (Reader.label other ++ value).dropPrefix? (Reader.label token) =
      if other = token then some value else none := by
  by_cases same : other = token
  · rw [if_pos same, same, List.dropPrefix?_append_of_beq value (beq_self_eq_true _)]
  · rw [if_neg same]
    cases token <;> cases other <;> first | rfl | exact absurd rfl same

theorem value?_details (metadata : Metadata) (token : Token) :
    Reader.value? (details metadata) token = metadata.get token := by
  have one (other : Token) : Reader.value?
      ((metadata.get other).map fun value => Reader.label other ++ value).toList token =
        if other = token then metadata.get token else none := by
    rw [Reader.value?]
    by_cases same : other = token
    · subst same
      cases metadata.get other <;> simp [dropPrefix?_label_append]
    · cases metadata.get other <;> simp [dropPrefix?_label_append, same]
  have among (tokens : List Token) : Reader.value?
      (tokens.flatMap fun other =>
        ((metadata.get other).map fun value => Reader.label other ++ value).toList) token =
        if token ∈ tokens then metadata.get token else none := by
    induction tokens with
    | nil => rfl
    | cons other tokens inductionHypothesis =>
        rw [Reader.value?, List.flatMap_cons, List.findSome?_append]
        change (Reader.value? _ token).or (Reader.value? _ token) = _
        rw [one other, inductionHypothesis]
        by_cases same : other = token
        · cases metadata.get token <;> simp [same]
        · simp [same, Ne.symm same]
  exact (among Token.all).trans (if_pos token.mem_all)

/-- A match has no reasons, so its headline and its metadata are all of it. -/
theorem resolution?_headline {resolution : Resolution}
    (silent : resolution.isMatch = true -> resolution.reasons = []) :
    Reader.resolution? (headline resolution) (further resolution) = some resolution := by
  rcases resolution with ⟨path, _ | found, reasons⟩
  · have other : ("NO MATCH ".toList ++ path).dropPrefix? "OK ".toList = none := rfl
    rw [headline, further, Reader.resolution?, other]
    dsimp only
    rw [List.dropPrefix?_append_of_beq path (beq_self_eq_true _)]
    rfl
  · cases silent rfl
    rw [headline, further, Reader.resolution?, List.dropPrefix?_append_of_beq _ (beq_self_eq_true _)]
    dsimp only
    rw [numbered?_append]
    simp only [Option.map_some, value?_details]
    rfl

theorem line?_headline {resolution : Resolution}
    (silent : resolution.isMatch = true -> resolution.reasons = [])
    (resolutions : List Resolution) :
    Reader.line? (headline resolution) ⟨further resolution, resolutions⟩ =
      some ⟨[], resolution :: resolutions⟩ := by
  have unindented : (headline resolution).dropPrefix? "    ".toList = none := by
    rw [headline]
    cases resolution.found <;> rfl
  rw [Reader.line?, unindented]
  dsimp only
  rw [resolution?_headline silent]
  rfl

/-! ## Reading a whole report -/

/-- A resolution that is shown on unbroken lines; a match has no reasons. -/
structure IsPlain (resolution : Resolution) : Prop where
  unbroken : forall line, line ∈ lines resolution -> '\n' ∉ line
  silent : resolution.isMatch = true -> resolution.reasons = []

theorem foldrM_lines {resolution : Resolution}
    (silent : resolution.isMatch = true -> resolution.reasons = [])
    (resolutions : List Resolution) :
    (lines resolution).foldrM Reader.line? ⟨[], resolutions⟩ =
      some ⟨[], resolution :: resolutions⟩ := by
  rw [lines, List.foldrM_cons, foldrM_indented]
  exact line?_headline silent resolutions

/-- Plain resolutions are read back from their text. -/
theorem ofText?_text {resolutions : List Resolution}
    (plain : forall resolution, resolution ∈ resolutions -> IsPlain resolution) :
    ofText? (text resolutions) = some resolutions := by
  have unbroken : forall line, line ∈ resolutions.flatMap lines -> '\n' ∉ line := by
    intro line listed
    rcases List.mem_flatMap.mp listed with ⟨resolution, member, inside⟩
    exact (plain resolution member).unbroken line inside
  have read : (resolutions.flatMap lines).foldrM Reader.line? ⟨[], []⟩ =
      some ⟨[], resolutions⟩ := by
    clear unbroken
    induction resolutions with
    | nil => rfl
    | cons resolution resolutions inductionHypothesis =>
        rcases List.forall_mem_cons.mp plain with ⟨first, others⟩
        rw [List.flatMap_cons, List.foldrM_append, inductionHypothesis others]
        exact foldrM_lines first.silent resolutions
  rw [ofText?, text_eq, splitOn_flatMap_newline unbroken, List.dropLast_concat, read]
  rfl

/-! ## What a set reports -/

theorem newline_not_mem_ofNat (number : Nat) : '\n' ∉ Text.ofNat number := by
  intro listed
  have digit : '\n'.isDigit = true :=
    Nat.isDigit_of_mem_toDigits (by decide) (by decide) listed
  cases digit

theorem newline_not_mem_quoted {fragment : Text} (unbroken : '\n' ∉ fragment) :
    '\n' ∉ Defect.quoted fragment := by
  rw [Defect.quoted, List.cons_append]
  exact List.not_mem_cons_of_ne_of_not_mem (by decide) (List.not_mem_append unbroken (by decide))

/-- A message quotes its fragments and is of one line apart from them. -/
theorem newline_not_mem_message {mismatch : Mismatch}
    (unbroken : forall fragment, fragment ∈ mismatch.fragments -> '\n' ∉ fragment) :
    '\n' ∉ mismatch.message := by
  cases mismatch with
  | tooFewFolders required actual =>
      have front := List.not_mem_append (by decide : '\n' ∉ "Pattern needs at least ".toList)
        (newline_not_mem_ofNat required)
      exact List.not_mem_append (List.not_mem_append front (by decide)) (newline_not_mem_ofNat actual)
  | folder index expected actual =>
      rcases List.forall_mem_cons.mp unbroken with ⟨unbrokenExpected, others⟩
      have unbrokenActual := others actual List.mem_cons_self
      have front := List.not_mem_append (by decide : '\n' ∉ "Folder ".toList)
        (newline_not_mem_ofNat index)
      have name := List.not_mem_append (List.not_mem_append front (by decide : '\n' ∉ " ".toList))
        (newline_not_mem_quoted unbrokenActual)
      exact List.not_mem_append (List.not_mem_append name (by decide))
        (newline_not_mem_quoted unbrokenExpected)
  | file expected actual =>
      rcases List.forall_mem_cons.mp unbroken with ⟨unbrokenExpected, others⟩
      have unbrokenActual := others actual List.mem_cons_self
      have name := List.not_mem_append (by decide : '\n' ∉ "File name ".toList)
        (newline_not_mem_quoted unbrokenActual)
      exact List.not_mem_append (List.not_mem_append name (by decide))
        (newline_not_mem_quoted unbrokenExpected)
  | blankCapture token => cases token <;> decide

theorem newline_not_mem_headline {resolution : Resolution} (unbroken : '\n' ∉ resolution.path) :
    '\n' ∉ headline resolution := by
  rw [headline]
  cases resolution.found with
  | none => exact List.not_mem_append (by decide) unbroken
  | some found =>
      have front := List.not_mem_append unbroken (by decide : '\n' ∉ " [pattern ".toList)
      have numbered := List.not_mem_append front (newline_not_mem_ofNat found.patternIndex)
      exact List.not_mem_append (by decide) (List.not_mem_append numbered (by decide))

variable {specs : List Text} {set : PatternSet} {path : Text}

/-- Without line feeds in the specifications and the path, no line of the outcome
is broken: it shows characters of these and texts of its own. -/
theorem isPlain_resolve (compiled : AllCompile specs set.patterns)
    (unbrokenSpecs : forall spec, spec ∈ specs -> '\n' ∉ spec) (unbroken : '\n' ∉ path) :
    IsPlain (set.resolve path) := by
  have answers := set.answers_resolve path
  refine ⟨?_, answers.silent⟩
  have unbrokenHeadline : '\n' ∉ headline (set.resolve path) :=
    newline_not_mem_headline (answers.about.symm ▸ unbroken)
  have unbrokenDetails : forall detail, detail ∈ further (set.resolve path) -> '\n' ∉ detail := by
    intro detail listed
    rw [further] at listed
    cases outcome : (set.resolve path).found with
    | some found =>
        rw [outcome] at listed
        rw [answers.found, PatternSet.matchFirst?_eq_some_iff] at outcome
        rcases outcome.matched with ⟨pattern, _, matched⟩
        rcases List.mem_flatMap.mp listed with ⟨token, _, shown⟩
        rcases Option.map_eq_some_iff.mp (Option.mem_toList.mp shown) with ⟨value, given, rfl⟩
        have unbrokenValue : '\n' ∉ value := fun inside =>
          unbroken (Pattern.value_subset_of_matchPath matched given inside)
        have unbrokenLabel : '\n' ∉ Reader.label token := by cases token <;> decide
        exact List.not_mem_append unbrokenLabel unbrokenValue
    | none =>
        rw [outcome] at listed
        have unmatched : (set.resolve path).isMatch = false := by
          rw [Resolution.isMatch, outcome]
          rfl
        rcases exists_mem_of_forall₂ (answers.explained unmatched) listed with
          ⟨pattern, inSet, mismatch, failed, rfl⟩
        rcases exists_mem_of_forall₂ compiled inSet with ⟨spec, inSpecs, compiles⟩
        refine newline_not_mem_message fun fragment quoted inside => ?_
        rcases Pattern.fragment_subset_of_matchPath compiles failed quoted with ofSpec | ofPath
        · exact unbrokenSpecs spec inSpecs (ofSpec inside)
        · exact unbroken (ofPath inside)
  rw [lines, List.forall_mem_cons]
  refine ⟨unbrokenHeadline, List.forall_mem_map.mpr fun detail listed => ?_⟩
  exact List.not_mem_append (by decide) (unbrokenDetails detail listed)

theorem ofText?_text_resolveAll (compiled : AllCompile specs set.patterns)
    (unbrokenSpecs : forall spec, spec ∈ specs -> '\n' ∉ spec) {paths : List Text}
    (unbroken : forall path, path ∈ paths -> '\n' ∉ path) :
    ofText? (text (set.resolveAll paths)) = some (set.resolveAll paths) := by
  apply ofText?_text
  intro resolution listed
  rcases List.mem_map.mp listed with ⟨path, member, rfl⟩
  exact isPlain_resolve compiled unbrokenSpecs (unbroken path member)

/-- Reports on different outcomes differ.  Neither the sets nor the paths need
to be known: whatever was asked of whichever patterns, the text alone tells all
outcomes and their order. -/
theorem resolveAll_eq_of_text_eq {others : List Text} {other : PatternSet}
    {paths otherPaths : List Text}
    (compiled : PatternSet.compile specs = .ok set)
    (otherCompiled : PatternSet.compile others = .ok other)
    (unbrokenSpecs : forall spec, spec ∈ specs -> '\n' ∉ spec)
    (unbrokenOthers : forall spec, spec ∈ others -> '\n' ∉ spec)
    (unbroken : forall path, path ∈ paths -> '\n' ∉ path)
    (otherUnbroken : forall path, path ∈ otherPaths -> '\n' ∉ path)
    (same : text (set.resolveAll paths) = text (other.resolveAll otherPaths)) :
    set.resolveAll paths = other.resolveAll otherPaths := by
  have read := ofText?_text_resolveAll (PatternSet.allCompile_of_compile compiled) unbrokenSpecs
    unbroken
  have otherRead := ofText?_text_resolveAll (PatternSet.allCompile_of_compile otherCompiled)
    unbrokenOthers otherUnbroken
  rw [same, otherRead] at read
  exact (Option.some.inj read).symm

/-- Two sets give one text, although the first path looks like a headline and
the second is not matched. -/
theorem resolveAll_eq_of_text_eq_headline :
    exists set other : PatternSet,
      PatternSet.compile ["\x7btitle\x7d".toList] = .ok set ∧
      PatternSet.compile ["**/\x7btitle\x7d.*".toList] = .ok other ∧ set ≠ other ∧
      text (set.resolveAll ["OK x [pattern 3]".toList, " .mp3".toList]) =
        text (other.resolveAll ["OK x [pattern 3]".toList, " .mp3".toList]) ∧
      set.resolveAll ["OK x [pattern 3]".toList, " .mp3".toList] =
        other.resolveAll ["OK x [pattern 3]".toList, " .mp3".toList] := by
  have compiled : PatternSet.compile ["\x7btitle\x7d".toList] = .ok ⟨[⟨[], .slot .title⟩]⟩ := by
    decide +kernel
  have otherCompiled : PatternSet.compile ["**/\x7btitle\x7d.*".toList] =
      .ok ⟨[⟨[.anyFolders], .slot .title⟩]⟩ := by
    decide +kernel
  have unbroken : forall path, path ∈ ["OK x [pattern 3]".toList, " .mp3".toList] -> '\n' ∉ path := by
    decide
  have same : text (PatternSet.resolveAll ⟨[⟨[], .slot .title⟩]⟩
      ["OK x [pattern 3]".toList, " .mp3".toList]) =
      text (PatternSet.resolveAll ⟨[⟨[.anyFolders], .slot .title⟩]⟩
        ["OK x [pattern 3]".toList, " .mp3".toList]) := by
    decide +kernel
  exact ⟨_, _, compiled, otherCompiled, by decide, same,
    resolveAll_eq_of_text_eq compiled otherCompiled (by decide) (by decide) unbroken unbroken same⟩

end Report
end SongPath
