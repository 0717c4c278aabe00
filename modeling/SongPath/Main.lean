import SongPath.Program

/-!
# Entry point

Gathers the arguments, the environment, the settings files and standard input,
runs the program on them and writes what it gives.
-/

open SongPath

/-- The environment variables, as the system lists them. -/
def environmentVariables : IO Settings.Environment := do
  let listing <- try IO.FS.readFile "/proc/self/environ" catch _ => pure ""
  let entries := listing.toList.splitOnP (· == '\x00')
  return entries.map fun entry =>
    let name := entry.takeWhile (· != '=')
    (name, entry.drop (name.length + 1))

/-- The files among the given paths that exist, with their contents. -/
def existingFiles (paths : List Text) : IO (List (Text × Text)) :=
  paths.filterMapM fun path => do
    try
      let contents <- IO.FS.readFile path.pack
      return some (path, Text.ofString contents)
    catch _ => return none

/-- The paths at which a run may look for its settings. -/
def settingsPaths (invocation : Option Invocation) : List Text :=
  match invocation with
  | some ⟨config, .parse _ _ _⟩ => Settings.searchPaths (config.getD Settings.defaultFile)
  | _ => []

/-- Whether a run reads its paths from standard input. -/
def readsInput (invocation : Option Invocation) : Bool :=
  match invocation with
  | some ⟨_, .parse _ _ []⟩ => true
  | _ => false

/-- Write an outcome and hand on its exit code. -/
def finish (outcome : Program.Outcome) : IO UInt32 := do
  (<- IO.getStdout).putStr outcome.output.pack
  match outcome.fatal with
  | some failure => IO.eprintln ("Error: " ++ failure.message.pack)
  | none => if outcome.exit == 2 then IO.eprintln "usage: [-c FILE] check SPEC... | regex SPEC | parse [-f SPEC] [--json] [PATH...]"
  return outcome.exit

/-- Run the program.  A run that fails before it looks at any path does not
wait for standard input. -/
def main (args : List String) : IO UInt32 := do
  let arguments := args.map Text.ofString
  let environment <- environmentVariables
  let invocation := (Program.readArguments environment arguments).toOption
  let found <- existingFiles (settingsPaths invocation)
  let files (path : Text) := (found.find? fun file => file.1 == path).map (·.2)
  let early := Program.run files environment [] arguments
  if readsInput invocation && early.fatal.isNone then
    let input <- (<- IO.getStdin).readToEnd
    finish (Program.run files environment (Text.ofString input) arguments)
  else
    finish early
