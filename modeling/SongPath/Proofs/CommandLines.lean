import SongPath.Program

/-!
# Command lines

Whatever reads arguments has to take all of them as positional behind the mark.
That is all that is asked of a reader here.

The reader at hand goes from left to right, and each argument is read without
regard to what stands behind its value.  A command line that is read can
therefore be taken further: as long as it has no mark for positional arguments,
further arguments are read as if what was gathered in front of them had been
given at the start.
-/

namespace SongPath
namespace CommandLine

/-- The mark behind which everything is positional. -/
def mark : Text :=
  ['-', '-']

variable {verb : Verb} {options : List Text} {before after : Gathered}

theorem gather?_mark (verb : Verb) (before : Gathered) (texts : List Text) :
    gather? verb before (mark :: texts) = some (before.withPositionals texts) := by
  rw [mark, gather?]

/-- What stands behind arguments that are read goes on from what they gave. -/
theorem gather?_append (unmarked : mark ∉ options)
    (read : gather? verb before options = some after) (more : List Text) :
    gather? verb before (options ++ more) = gather? verb after more := by
  induction before, options using gather?.induct with
  | case1 before =>
      rw [gather?] at read
      cases read
      rfl
  | case2 before rest => exact absurd List.mem_cons_self unmarked
  | case3 before argument rest other text form inductionHypothesis =>
      simp only [gather?, form] at read
      simp only [List.cons_append, gather?, form]
      exact inductionHypothesis (List.not_mem_of_not_mem_cons unmarked) read
  | case4 before argument rest other form inductionHypothesis =>
      simp only [gather?, form, Option.bind_eq_some_iff] at read
      rcases read with ⟨middle, given, read⟩
      simp only [List.cons_append, gather?, form, given, Option.bind_some]
      exact inductionHypothesis middle (List.not_mem_of_not_mem_cons unmarked) read
  | case5 before argument rest other option value form inductionHypothesis =>
      simp only [gather?, form, Option.bind_eq_some_iff] at read
      rcases read with ⟨middle, given, read⟩
      simp only [List.cons_append, gather?, form, given, Option.bind_some]
      exact inductionHypothesis middle (List.not_mem_of_not_mem_cons unmarked) read
  | case6 before argument other option form value rest isValue inductionHypothesis =>
      simp only [gather?, form, isValue, if_true, Option.bind_eq_some_iff] at read
      rcases read with ⟨middle, given, read⟩
      simp only [List.cons_append, gather?, form, isValue, if_true, given, Option.bind_some]
      have unmarkedRest := List.not_mem_of_not_mem_cons (List.not_mem_of_not_mem_cons unmarked)
      exact inductionHypothesis middle unmarkedRest read
  -- An option without its value or an unknown one is not read.
  | case7 before argument other option form value rest isValue =>
      simp [gather?, form, isValue] at read
  | case8 before argument other option form => simp [gather?, form] at read
  | case9 before argument rest other form => simp [gather?, form] at read

/-- The arguments behind the command word are an end of all the arguments, and
further arguments only make that end longer. -/
theorem gatherFront?_append {rest : List Text}
    (read : gatherFront? before options = some (after, verb, rest)) :
    rest <:+ options ∧
      forall more, gatherFront? before (options ++ more) = some (after, verb, rest ++ more) := by
  induction before, options using gatherFront?.induct with
  | case1 before => cases read
  | case2 before argument others text form =>
      simp only [gatherFront?, form, Option.map_eq_some_iff] at read
      rcases read with ⟨word, isWord, same⟩
      cases same
      refine ⟨List.suffix_cons argument rest, fun more => ?_⟩
      simp only [List.cons_append, gatherFront?, form, isWord, Option.map_some]
  | case3 before argument others option value form inductionHypothesis =>
      simp only [gatherFront?, form, Option.bind_eq_some_iff] at read
      rcases read with ⟨middle, given, read⟩
      rcases inductionHypothesis middle read with ⟨suffix, longer⟩
      refine ⟨suffix.trans (List.suffix_cons argument others), fun more => ?_⟩
      simp only [List.cons_append, gatherFront?, form, given, Option.bind_some, longer]
  | case4 before argument option form value others isValue inductionHypothesis =>
      simp only [gatherFront?, form, isValue, if_true, Option.bind_eq_some_iff] at read
      rcases read with ⟨middle, given, read⟩
      rcases inductionHypothesis middle read with ⟨suffix, longer⟩
      refine ⟨suffix.trans (List.suffix_append [argument, value] others), fun more => ?_⟩
      simp only [List.cons_append, gatherFront?, form, isValue, if_true, given, Option.bind_some,
        longer]
  | case5 before argument option form value others isValue =>
      simp [gatherFront?, form, isValue] at read
  | case6 before argument option form => simp [gatherFront?, form] at read
  | case7 before argument others form => simp [gatherFront?, form] at read
  | case8 before argument others form => simp [gatherFront?, form] at read

theorem command?_eq_parse_iff {gathered : Gathered} {formats : List Text} {json : Bool}
    {paths : List Text} :
    command? verb gathered = some (.parse formats json paths) <->
      verb = .parse ∧ gathered.formats = formats ∧ gathered.json = json ∧
        gathered.positionals = paths := by
  rcases gathered with ⟨config, formats, json, _ | ⟨first, _ | ⟨second, more⟩⟩⟩ <;>
    cases verb <;> simp [command?]

/-- Behind the mark every argument is a path, and nothing else changes. -/
theorem read?_append_mark {fallback config : Option Text} {formats : List Text} {json : Bool}
    {given : List Text} (unmarked : mark ∉ options)
    (read : read? fallback options = some ⟨config, .parse formats json given⟩)
    (paths : List Text) :
    read? fallback (options ++ mark :: paths) =
      some ⟨config, .parse formats json (given ++ paths)⟩ := by
  simp only [read?, Option.bind_eq_bind, Option.bind_eq_some_iff] at read
  rcases read with ⟨⟨front, verb, rest⟩, inFront, gathered, behind, command, commanded, read⟩
  rcases gatherFront?_append inFront with ⟨suffix, longer⟩
  have unmarkedRest : mark ∉ rest := fun listed => unmarked (suffix.subset listed)
  have marked : gather? verb Gathered.nothing (rest ++ mark :: paths) =
      some (gathered.withPositionals paths) := by
    rw [gather?_append unmarkedRest behind, gather?_mark]
  split at read
  · cases read
  · next acceptable =>
      rw [Option.some.injEq, Invocation.mk.injEq] at read
      rcases read with ⟨rfl, rfl⟩
      rcases command?_eq_parse_iff.mp commanded with ⟨rfl, rfl, rfl, rfl⟩
      have longerCommand : command? .parse (gathered.withPositionals paths) =
          some (.parse gathered.formats gathered.json (gathered.positionals ++ paths)) :=
        command?_eq_parse_iff.mpr ⟨rfl, rfl, rfl, rfl⟩
      -- The settings file is named in front of the mark, so it is judged as before.
      have same : (gathered.withPositionals paths).config = gathered.config := rfl
      simp only [read?, longer, Option.bind_eq_bind, Option.bind_some, marked, longerCommand, same,
        if_neg acceptable]

/-! ## Asking for anything -/

/-- An option with its value attached to it. -/
def Valued.attach : Valued -> Text -> Text
  | .config, value => "--config=".toList ++ value
  | .format, value => "--format=".toList ++ value

theorem ofText_attach (option : Valued) (value : Text) :
    Argument.ofText (option.attach value) = .valued option (some value) := by
  cases option <;> rfl

theorem attach_ne_mark (option : Valued) (value : Text) : option.attach value ≠ mark := by
  cases option <;> nofun

/-- The options that ask for a settings file, for formats and for JSON. -/
def parseOptions (config : Option Text) (formats : List Text) (json : Bool) : List Text :=
  config.toList.map Valued.config.attach ++
    (formats.map Valued.format.attach ++ if json then ["--json".toList] else [])

theorem mark_not_mem_parseOptions (config : Option Text) (formats : List Text) (json : Bool) :
    mark ∉ parseOptions config formats json := by
  intro listed
  rcases List.mem_append.mp listed with named | listed
  · rcases List.mem_map.mp named with ⟨path, _, same⟩
    exact attach_ne_mark .config path same
  · rcases List.mem_append.mp listed with named | switch
    · rcases List.mem_map.mp named with ⟨format, _, same⟩
      exact attach_ne_mark .format format same
    · cases json with
      | false => cases switch
      | true => exact absurd switch (by decide)

theorem gather?_attach_cons (verb : Verb) (before : Gathered) (option : Valued) (value : Text)
    (rest : List Text) :
    gather? verb before (option.attach value :: rest) =
      (before.withOption? verb option value).bind fun middle => gather? verb middle rest := by
  rw [gather?, ofText_attach]
  exact attach_ne_mark option value

theorem gather?_formats_append (formats : List Text) (before : Gathered) (rest : List Text) :
    gather? .parse before (formats.map Valued.format.attach ++ rest) =
      gather? .parse { before with formats := before.formats ++ formats } rest := by
  induction formats generalizing before with
  | nil => rw [List.append_nil, List.map_nil, List.nil_append]
  | cons format formats inductionHypothesis =>
      rw [List.map_cons, List.cons_append, gather?_attach_cons]
      simp [Gathered.withOption?, inductionHypothesis]

theorem gather?_parseOptions {config : Option Text} (named : config ≠ some [])
    (formats : List Text) (json : Bool) :
    gather? .parse Gathered.nothing (parseOptions config formats json) =
      some ⟨config, formats, json, []⟩ := by
  have switched (before : Gathered) (unset : before.json = false) :
      gather? .parse before (if json then ["--json".toList] else []) =
        some { before with json := json } := by
    rcases before with ⟨config, formats, _, paths⟩
    cases unset
    cases json <;> rfl
  cases config with
  | none =>
      rw [parseOptions, Option.toList_none, List.map_nil, List.nil_append, gather?_formats_append]
      exact switched _ rfl
  | some path =>
      have nonempty : path ≠ [] := fun empty => named (congrArg some empty)
      have given : Gathered.nothing.withOption? (some .parse) .config path =
          some ⟨some path, [], false, []⟩ := by
        simp [Gathered.withOption?, Gathered.nothing, nonempty]
      rw [parseOptions, Option.toList_some, List.map_singleton, List.singleton_append,
        gather?_attach_cons, given, Option.bind_some, gather?_formats_append]
      exact switched _ rfl

/-- There is a command line for every choice of settings file, formats and form
of the report. -/
theorem read?_parseOptions {fallback config : Option Text} (set : fallback ≠ some [])
    (named : config ≠ some []) (formats : List Text) (json : Bool) :
    read? fallback ("parse".toList :: parseOptions config formats json) =
      some ⟨config.or fallback, .parse formats json []⟩ := by
  have inFront : gatherFront? Gathered.nothing
      ("parse".toList :: parseOptions config formats json) =
        some (Gathered.nothing, .parse, parseOptions config formats json) := by
    rfl
  have commanded : command? .parse ⟨config, formats, json, []⟩ = some (.parse formats json []) := rfl
  simp only [read?, inFront, Option.bind_eq_bind, Option.bind_some, gather?_parseOptions named,
    commanded]
  simp [Gathered.nothing, set]

end CommandLine

/-! ## Readers of arguments -/

namespace Program

open CommandLine (mark)

/-- Behind the mark every argument is positional, however it begins: a command
line that asks for paths to be resolved, and has no mark as yet, asks for the
paths behind one as well. -/
def HeedsMark (read : ArgumentReader) : Prop :=
  forall options config formats json given, mark ∉ options ->
    read options = .ok ⟨config, .parse formats json given⟩ ->
    forall paths,
      read (options ++ mark :: paths) = .ok ⟨config, .parse formats json (given ++ paths)⟩

theorem readArguments_eq_ok_iff (environment : Settings.Environment) (arguments : List Text)
    (invocation : Invocation) :
    readArguments environment arguments = .ok invocation <->
      CommandLine.read? (environment.value? configVariable) arguments = some invocation := by
  rw [readArguments]
  cases CommandLine.read? (environment.value? configVariable) arguments <;> simp

theorem heedsMark_readArguments (environment : Settings.Environment) :
    HeedsMark (readArguments environment) := by
  intro options config formats json given unmarked read paths
  rw [readArguments_eq_ok_iff] at read ⊢
  exact CommandLine.read?_append_mark unmarked read paths

end Program
end SongPath
