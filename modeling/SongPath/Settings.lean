import SongPath.Failure
import SongPath.Json.Record
import SongPath.PatternSet
import SongPath.Preset

/-!
# Settings

The settings of the program: default values, values from a file, and values
from environment variables, which override the file.  A file named by the user
must exist; the default file is optional.  How a source is written is not
settled here: whatever gathers the values is a parameter of loading.
-/

namespace SongPath

/-- The settings of the program.  Cache capacity zero means no bound. -/
structure Settings where
  formats : List Text
  cacheCapacity : Nat
  logLevel : Text
  deriving DecidableEq, Repr

namespace Settings

/-- The specifications tried if none are configured. -/
def defaultFormats : List Text :=
  [Preset.identifierArtistTitle.spec, Preset.artistTitle.spec]

/-- The log filter used if none is configured. -/
def defaultLogLevel : Text :=
  "kara_cli=info,kara_pattern=warn".toList

/-- The settings without any source. -/
def default : Settings :=
  ⟨defaultFormats, Cache.defaultCapacity, defaultLogLevel⟩

/-- The names of the settings, in declaration order. -/
def keys : List Text :=
  ["formats".toList, "cache_capacity".toList, "log_level".toList]

/-- Settings from a JSON record in which every value has exactly its type.
Fields that are left out have their defaults. -/
def ofJson? (json : Json) : Option Settings := do
  match <- json.fields? keys with
  | [formats, capacity, level] =>
      let formats <- formats.orDefault? defaultFormats Json.texts?
      let capacity <- capacity.orDefault? Cache.defaultCapacity Json.count?
      let level <- level.orDefault? defaultLogLevel Json.text?
      some ⟨formats, capacity, level⟩
  | _ => none

/-- The file that is read if the user names none. -/
def defaultFile : Text :=
  "kara.toml".toList

/-- Where settings come from: a file, which may have to exist, or the
environment variables of the program, whose names start with `KARA_`. -/
inductive Source where
  | file (path : Text) (required : Bool)
  | environment
  deriving DecidableEq, Repr

/-- The settings that sources give; the others are left out. -/
structure Given where
  formats : Option (List Text)
  cacheCapacity : Option Nat
  logLevel : Option Text
  deriving DecidableEq, Repr

/-- How settings are gathered from sources, later ones overriding earlier ones.
Nothing comes of a source that cannot be read, or of a value of another type. -/
abbrev Gatherer := List Source -> Option Given

/-- The settings with the default for each that is left out. -/
def Given.settings (given : Given) : Settings :=
  ⟨given.formats.getD defaultFormats, given.cacheCapacity.getD Cache.defaultCapacity,
    given.logLevel.getD defaultLogLevel⟩

/-- The sources for the settings file that is named, if one is. -/
def sources (path : Option Text) : List Source :=
  [.file (path.getD defaultFile) path.isSome, .environment]

/-- Load the settings with what the sources give. -/
def loadBy (gatherer : Gatherer) (path : Option Text) : Except Failure Settings :=
  match gatherer (sources path) with
  | none => .error .unusableSettings
  | some given => .ok given.settings

/-- Add the patterns of formats to a set, looking up one after the other.  The
first defective one ends this and is reported with its text. -/
def pushAll (set : PatternSet) (cache : Cache) : List Text -> Except Failure PatternSet × Cache
  | [] => (.ok set, cache)
  | format :: formats =>
      match cache.lookup format with
      | (.error defect, cache) => (.error (.defectiveFormat format defect), cache)
      | (.ok pattern, cache) => pushAll (set.push pattern) cache formats

/-- The set of the formats, compiled through a cache. -/
def patternSet (settings : Settings) (cache : Cache) : Except Failure PatternSet × Cache :=
  pushAll PatternSet.empty cache settings.formats

/-- Check that there are formats and that all of them compile. -/
def validate (settings : Settings) : Except Failure Unit :=
  if settings.formats.isEmpty then .error .noFormats
  else (settings.patternSet (Cache.new settings.cacheCapacity)).1.map fun _ => ()

end Settings
end SongPath
