import SongPath.Settings
import SongPath.Settings.Environment
import SongPath.Settings.File
import SongPath.Settings.KeyPath

/-!
# Gathering settings

A gatherer for files in JSON and in plain TOML, one entry a line.  It reads no
tables with headers, no dates and no files in other formats, so it refuses
sources that a fuller one reads; nothing about a run rests on it.
-/

namespace SongPath
namespace Settings

/-- The value of a key after one more entry. -/
def assign (key : Text) (current : Option Value) (entry : Text × Value) : Option Value :=
  let path := KeyPath.ofName entry.1
  if path.root == key then some (entry.2.putAtRoot path.steps current) else current

/-- The entries of a source that count: of those with the same name the last. -/
def effective : List (Text × Value) -> List (Text × Value)
  | [] => []
  | entry :: rest =>
      if rest.any fun later => later.1 == entry.1 then effective rest else entry :: effective rest

/-- The value that the entries give for a key, if they give any.  Later entries
override earlier ones, or the part of them that they name. -/
def value? (entries : List (Text × Value)) (key : Text) : Option Value :=
  entries.foldl (assign key) none

/-- Read the value of a key, unless no entry gives one. -/
def setting? (entries : List (Text × Value)) (key : Text) (read : Value -> Option α) :
    Option (Option α) :=
  match value? entries key with
  | some value => (read value).map some
  | none => some none

/-- What the entries of all sources give, later ones overriding earlier ones.
Unknown keys are ignored. -/
def ofEntries? (entries : List (Text × Value)) : Option Given := do
  let formats <- setting? entries "formats".toList Value.texts?
  let capacity <- setting? entries "cache_capacity".toList Value.count?
  let level <- setting? entries "log_level".toList Value.text?
  some ⟨formats, capacity, level⟩

/-- The entries of a settings file. -/
def fileEntries? (files : Files) (path : Text) (required : Bool) : Option (List (Text × Value)) :=
  match locate files path with
  | .absent => if required then none else some []
  | .unknownFormat => none
  | .found format contents => format.entries? contents

/-- The entries of a source. -/
def entries? (files : Files) (environment : Environment) : Source -> Option (List (Text × Value))
  | .file path required => fileEntries? files path required
  | .environment => some (Environment.entries environment)

/-- Gather the settings from the files and the environment variables that
exist. -/
def gather (files : Files) (environment : Environment) : Gatherer := fun sources => do
  let entries <- sources.mapM (entries? files environment)
  ofEntries? (entries.flatMap effective)

/-- Load the settings: the file, overridden by the environment. -/
def load (files : Files) (environment : Environment) (path : Option Text) :
    Except Failure Settings :=
  loadBy (gather files environment) path

end Settings
end SongPath
