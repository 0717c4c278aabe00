import SongPath.Invocation
import SongPath.Regex.OfPattern
import SongPath.Report
import SongPath.Settings

/-!
# Runs

A whole run as a function of its arguments and its standard input.  How
arguments are read and how settings are gathered is left to the run: both are
parameters, and nothing is assumed of them here.  Only `parse` reads settings;
it compiles all formats before it looks at any path, so a run that fails shows
no results.
-/

namespace SongPath
namespace Program

/-- How a run ended: its exit code, its output and its fatal error. -/
structure Outcome where
  exit : UInt32
  output : Text
  fatal : Option Failure
  deriving DecidableEq, Repr

namespace Outcome

/-- The run was asked for something it does not know. -/
def usageError : Outcome :=
  ⟨2, [], none⟩

/-- The run ended without results. -/
def failed (failure : Failure) : Outcome :=
  ⟨1, [], some failure⟩

/-- The run gave results, which were all good or not. -/
def finished (good : Bool) (output : Text) : Outcome :=
  ⟨if good then 0 else 1, output, none⟩

end Outcome

/-- The paths on standard input: one per line, trimmed, blank lines dropped. -/
def inputPaths (input : Text) : List Text :=
  ((input.splitOnP (· == '\n')).map Text.trim).filter fun path => !path.isEmpty

/-- Report on specifications. -/
def check (specs : List Text) : Outcome :=
  let verdicts := specs.map Verdict.ofSpec
  .finished (verdicts.all Verdict.isValid) (Report.verdicts verdicts)

/-- Show the regular expression of a specification. -/
def regex (spec : Text) : Outcome :=
  match Pattern.compile spec with
  | .error defect => .failed (.defectiveFormat spec defect)
  | .ok pattern => .finished true (pattern.regexText ++ ['\n'])

/-- The settings with the formats of the command line, if it gives any. -/
def override (settings : Settings) (formats : List Text) : Settings :=
  if formats.isEmpty then settings else { settings with formats := formats }

/-- The report on resolutions in the form asked for. -/
def report (json : Bool) (resolutions : List Resolution) : Text :=
  if json then Report.json resolutions ++ ['\n'] else Report.text resolutions

/-- Resolve paths with the formats of the settings. -/
def parse (settings : Settings) (json : Bool) (paths : List Text) : Outcome :=
  match settings.validate with
  | .error failure => .failed failure
  | .ok () =>
      match (settings.patternSet (Cache.new settings.cacheCapacity)).1 with
      | .error failure => .failed failure
      | .ok set =>
          let resolutions := set.resolveAll paths
          .finished (resolutions.all Resolution.isMatch) (report json resolutions)

/-- Carry out an invocation.  Paths are read from standard input if none are
given. -/
def perform (gatherer : Settings.Gatherer) (input : Text) (invocation : Invocation) : Outcome :=
  match invocation.command with
  | .check specs => check specs
  | .regex spec => regex spec
  | .parse formats json paths =>
      match Settings.loadBy gatherer invocation.config with
      | .error failure => .failed failure
      | .ok settings =>
          parse (override settings formats) json (if paths.isEmpty then inputPaths input else paths)

/-- How arguments are read: as an invocation, or as something that ends the run
at once, such as a usage error or the wish for help. -/
abbrev ArgumentReader := List Text -> Except Outcome Invocation

/-- A whole run, given how its arguments are read and its settings gathered. -/
def execute (read : ArgumentReader) (gatherer : Settings.Gatherer) (input : Text)
    (arguments : List Text) : Outcome :=
  match read arguments with
  | .error ended => ended
  | .ok invocation => perform gatherer input invocation

end Program
end SongPath
