import Mathlib.Data.Set.List
import SongPath.Proofs.CommandLines
import SongPath.Proofs.ParseRuns
import SongPath.Proofs.PathNames
import SongPath.Proofs.Trimming

/-!
# Paths on standard input

A line of standard input is blank, or it is a path with padding around it, and
every text consists of such lines.  The carriage return of a line end is padding
like any other white space, and a line feed behind the last line makes one more
line, which is blank.  Reading keeps the paths as they are, in order, so that a
run on them is the run that has them as arguments.
-/

namespace SongPath

/-! ## Lines -/

/-- White space that stays on its line. -/
structure Padding where
  text : Text
  blank : forall char, char ∈ text -> isBlank char = true
  unbroken : '\n' ∉ text

/-- A path that a line can hold. -/
structure LinePath where
  text : Text
  nonempty : text ≠ []
  trimmed : text.trim = text
  unbroken : '\n' ∉ text

/-- A line of standard input: blank, or a path with padding around it. -/
inductive InputLine where
  | blank (padding : Padding)
  | padded (front : Padding) (path : LinePath) (back : Padding)

namespace InputLine

/-- What the line consists of. -/
def text : InputLine -> Text
  | .blank padding => padding.text
  | .padded front path back => front.text ++ (path.text ++ back.text)

/-- The path on the line. -/
def path? : InputLine -> Option LinePath
  | .blank _ => none
  | .padded _ path _ => some path

/-- Lines as they stand on standard input, with line feeds between them. -/
def document (lines : List InputLine) : Text :=
  ['\n'].intercalate (lines.map text)

theorem newline_not_mem_text (line : InputLine) : '\n' ∉ line.text := by
  cases line with
  | blank padding => exact padding.unbroken
  | padded front path back => simp [text, front.unbroken, path.unbroken, back.unbroken]

/-- Trimming takes the padding off a line, and the whole of a blank one. -/
theorem trim_text (line : InputLine) : line.text.trim = (line.path?.map LinePath.text).getD [] := by
  cases line with
  | blank padding =>
      have trimmed : Text.trim (padding.text ++ ([] ++ [])) = [] :=
        Text.trim_padded padding.blank rfl nofun
      rwa [List.append_nil, List.append_nil] at trimmed
  | padded front path back => exact Text.trim_padded front.blank path.trimmed back.blank

/-- Whatever stands on one line is a line. -/
theorem exists_text_eq {text : Text} (unbroken : '\n' ∉ text) :
    exists line : InputLine, line.text = text := by
  rcases text.exists_padding with ⟨front, back, whole, blankFront, blankBack⟩
  have unbrokenFront : '\n' ∉ front := fun listed =>
    unbroken (whole ▸ List.mem_append_left _ listed)
  have unbrokenRest : '\n' ∉ text.trim ++ back := fun listed =>
    unbroken (whole ▸ List.mem_append_right front listed)
  rw [List.mem_append, not_or] at unbrokenRest
  by_cases nothing : text.trim = []
  · rw [nothing, List.nil_append] at whole
    have blank : forall char, char ∈ text -> isBlank char = true := by
      rw [← whole, List.forall_mem_append]
      exact ⟨blankFront, blankBack⟩
    exact ⟨.blank ⟨text, blank, unbroken⟩, rfl⟩
  · exact ⟨.padded ⟨front, blankFront, unbrokenFront⟩
      ⟨text.trim, nothing, text.trim_trim, unbrokenRest.1⟩
      ⟨back, blankBack, unbrokenRest.2⟩, whole⟩

/-- Every text can stand on standard input: it consists of lines. -/
theorem exists_document_eq (input : Text) : exists lines, document lines = input := by
  have spelled : input.splitOn '\n' ∈ Set.range (List.map text) := by
    rw [Set.range_list_map]
    intro part listed
    refine exists_text_eq fun broken => ?_
    have kept := Path.not_of_mem_splitOnP (· == '\n') input part listed '\n' broken
    cases kept
  rcases spelled with ⟨lines, texts⟩
  exact ⟨lines, by rw [document, texts, List.intercalate_splitOn]⟩

end InputLine

namespace Program

open InputLine (document)

/-- No path is lost, split, merged or altered. -/
theorem inputPaths_document (lines : List InputLine) :
    inputPaths (document lines) = (lines.filterMap InputLine.path?).map LinePath.text := by
  -- Without lines there is one empty line, which is dropped.
  have cut : lines = [] ∨ (document lines).splitOnP (· == '\n') = lines.map InputLine.text := by
    cases lines with
    | nil => exact Or.inl rfl
    | cons line lines =>
        refine Or.inr (List.splitOn_intercalate '\n' ?_ (List.cons_ne_nil _ _))
        exact List.forall_mem_map.mpr fun line _ => line.newline_not_mem_text
  rcases cut with rfl | cut
  · rfl
  rw [inputPaths, cut, List.map_map]
  clear cut
  induction lines with
  | nil => rfl
  | cons line lines inductionHypothesis =>
      have trimmed := line.trim_text
      rw [List.map_cons, List.filter_cons, inductionHypothesis, Function.comp_apply, trimmed]
      cases line with
      | blank padding => rfl
      | padded front path back =>
          have visible : (!path.text.isEmpty) = true := by simp [path.nonempty]
          exact if_pos visible

variable {read : ArgumentReader} {gatherer : Settings.Gatherer} {options arguments : List Text}
  {config : Option Text} {formats : List Text} {json : Bool}

/-- Paths on standard input, in order, with any padding and any blank lines, are
as good as paths behind the mark: the outcome is the same in every respect,
whatever gathers the settings and whatever reads the arguments, if only it heeds
the mark.  Standard input is not looked at if there are paths behind the mark. -/
theorem execute_document (heeds : HeedsMark read) {lines : List InputLine}
    {paths : List LinePath} (listed : lines.filterMap InputLine.path? = paths)
    (nonempty : paths ≠ []) (unmarked : CommandLine.mark ∉ options)
    (asked : read options = .ok ⟨config, .parse formats json []⟩)
    (alike : read arguments = .ok ⟨config, .parse formats json []⟩) (input : Text) :
    execute read gatherer input (options ++ CommandLine.mark :: paths.map LinePath.text) =
      execute read gatherer (document lines) arguments := by
  have further := heeds options _ _ _ _ unmarked asked (paths.map LinePath.text)
  have behind : effectivePaths input ([] ++ paths.map LinePath.text) =
      paths.map LinePath.text := by
    rw [List.nil_append, effectivePaths, if_neg (mt List.map_eq_nil_iff.mp nonempty)]
  have onInput : effectivePaths (document lines) [] = paths.map LinePath.text := by
    rw [effectivePaths, if_pos rfl, inputPaths_document, listed]
  rw [execute_of_read further, execute_of_read alike, behind, onInput]

/-- A blank line, a path that looks like an option, and a line feed at the end. -/
theorem execute_document_of_two :
    exists lines : List InputLine, document lines = "\r\n\t-x.mp3 \r\nSOS.mp3\n".toList ∧
      run (fun _ => none) [] []
          ("parse".toList :: CommandLine.parseOptions none ["\x7btitle\x7d".toList] true ++
            CommandLine.mark :: ["-x.mp3".toList, "SOS.mp3".toList]) =
        run (fun _ => none) [] (document lines)
          ["parse".toList, "--json".toList, "-f".toList, "\x7btitle\x7d".toList] := by
  let first : LinePath :=
    ⟨"-x.mp3".toList, by decide +kernel, by decide +kernel, by decide +kernel⟩
  let second : LinePath :=
    ⟨"SOS.mp3".toList, by decide +kernel, by decide +kernel, by decide +kernel⟩
  let nothing : Padding := ⟨[], nofun, nofun⟩
  let lines : List InputLine :=
    [.blank ⟨['\r'], List.all_eq_true.mp (by decide +kernel), by decide +kernel⟩,
      .padded ⟨['\t'], List.all_eq_true.mp (by decide +kernel), by decide +kernel⟩ first
        ⟨[' ', '\r'], List.all_eq_true.mp (by decide +kernel), by decide +kernel⟩,
      .padded nothing second nothing,
      .blank nothing]
  have listed : lines.filterMap InputLine.path? = [first, second] := rfl
  have unmarked : CommandLine.mark ∉
      "parse".toList :: CommandLine.parseOptions none ["\x7btitle\x7d".toList] true :=
    List.not_mem_cons_of_ne_of_not_mem (by decide) (CommandLine.mark_not_mem_parseOptions _ _ _)
  have asked : readArguments []
      ("parse".toList :: CommandLine.parseOptions none ["\x7btitle\x7d".toList] true) =
        .ok ⟨none, .parse ["\x7btitle\x7d".toList] true []⟩ :=
    (readArguments_eq_ok_iff _ _ _).mpr
      (CommandLine.read?_parseOptions (by decide) (by decide) _ true)
  have alike : readArguments []
      ["parse".toList, "--json".toList, "-f".toList, "\x7btitle\x7d".toList] =
        .ok ⟨none, .parse ["\x7btitle\x7d".toList] true []⟩ := by
    decide +kernel
  refine ⟨lines, by decide +kernel, ?_⟩
  exact execute_document (heedsMark_readArguments []) listed (List.cons_ne_nil _ _) unmarked asked
    alike []

end Program
end SongPath
