import SongPath.CommandLine
import SongPath.Program.Execution
import SongPath.Settings.Gathering

/-!
# The program

A run that needs nothing else: arguments are read and settings are gathered as
this library does it.
-/

namespace SongPath
namespace Program

/-- The variable that names the settings file. -/
def configVariable : Text :=
  "KARA_CONFIG".toList

/-- Read the arguments.  Those that make no invocation are a usage error. -/
def readArguments (environment : Settings.Environment) : ArgumentReader := fun arguments =>
  match CommandLine.read? (environment.value? configVariable) arguments with
  | none => .error .usageError
  | some invocation => .ok invocation

/-- A whole run. -/
def run (files : Settings.Files) (environment : Settings.Environment) (input : Text)
    (arguments : List Text) : Outcome :=
  execute (readArguments environment) (Settings.gather files environment) input arguments

end Program
end SongPath
