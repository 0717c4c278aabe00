import SongPath.Path
import SongPath.Settings.Toml

/-!
# Settings files

Where a settings file is looked for and how its format is told.  The path that
was given counts if there is a file; otherwise the known extensions are added
to the last name of the path, slashes and dots behind it being left out.
-/

namespace SongPath
namespace Settings

/-- The contents of the files that exist, by path. -/
abbrev Files := Text -> Option Text

/-- The parts of a path between slashes. -/
def pathParts (path : Text) : List Text :=
  path.splitOnP (· == '/')

/-- A part that leads nowhere: nothing, or a dot. -/
def staysPut (part : Text) : Bool :=
  part.isEmpty || part == ['.']

/-- The part that leads up. -/
def upwards : Text :=
  ['.', '.']

/-- A directory without directories in it: contents by file name. -/
abbrev Directory := List (Text × Text)

/-- The files of a directory as they are seen from inside it. -/
def Directory.files (directory : Directory) : Files := fun path =>
  match (pathParts path).getLast? with
  | none => none
  | some name =>
      if path.head? != some '/' && (pathParts path).dropLast.all staysPut then
        (directory.find? fun file => file.1 == name).map (·.2)
      else none

/-- The path up to its last name; a path that ends by leading up has none. -/
def trunk? (path : Text) : Option Text :=
  match (pathParts path).reverse.dropWhile staysPut with
  | [] => none
  | name :: outer => if name = upwards then none else some (['/'].intercalate (name :: outer).reverse)

/-- The formats in which settings files are written. -/
inductive FileFormat where
  | toml
  | json
  deriving DecidableEq, Repr

namespace FileFormat

/-- Every format, in the order in which extensions are tried. -/
def all : List FileFormat :=
  [.toml, .json]

/-- The extension of files in a format. -/
def extension : FileFormat -> Text
  | .toml => "toml".toList
  | .json => "json".toList

/-- The format that the extension of a path stands for. -/
def ofPath? (path : Text) : Option FileFormat := do
  let name <- (pathParts path).getLast?
  match Path.splitLastDot? name with
  | some (_ :: _, tail) => all.find? fun format => format.extension == tail
  | _ => none

/-- The entries of a file in a format.  A JSON file has to be an object. -/
def entries? (format : FileFormat) (contents : Text) : Option (List (Text × Value)) :=
  match format with
  | .toml => Toml.ofText? contents
  | .json =>
      match Json.ofText? contents with
      | some (.object members) => some (members.map fun member => (member.1, Value.ofJson member.2))
      | _ => none

end FileFormat

/-- A settings file as it was found: the contents with their format, or nothing
known about the format. -/
inductive Located where
  | absent
  | unknownFormat
  | found (format : FileFormat) (contents : Text)
  deriving DecidableEq, Repr

/-- The paths at which a settings file is looked for: the given one first, then
its trunk with each known extension behind it. -/
def searchPaths (path : Text) : List Text :=
  match trunk? path with
  | none => [path]
  | some trunk => path :: FileFormat.all.map fun format => trunk ++ '.' :: format.extension

/-- Find a settings file.  The extension of the path that exists decides on the
format. -/
def locate (files : Files) (path : Text) : Located :=
  match (searchPaths path).find? fun candidate => (files candidate).isSome with
  | none => .absent
  | some candidate =>
      match FileFormat.ofPath? candidate, files candidate with
      | some format, some contents => .found format contents
      | _, _ => .unknownFormat

end Settings
end SongPath
