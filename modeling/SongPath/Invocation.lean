import SongPath.Text

/-!
# Invocations

What a run is asked to do.  How arguments are written is a matter of whatever
reads them.
-/

namespace SongPath

/-- What to do. -/
inductive Command where
  | check (specs : List Text)
  | regex (spec : Text)
  | parse (formats : List Text) (json : Bool) (paths : List Text)
  deriving DecidableEq, Repr

/-- What to do, and the settings file if one is named. -/
structure Invocation where
  config : Option Text
  command : Command
  deriving DecidableEq, Repr

end SongPath
