import SongPath.Defect

/-!
# Failures

Why a run ends without results.  A defective specification is reported with its
text; how exactly a settings source is unusable is not told apart.
-/

namespace SongPath

/-- The cause of a fatal error. -/
inductive Failure where
  | unusableSettings
  | noFormats
  | defectiveFormat (spec : Text) (defect : Defect)
  deriving DecidableEq, Repr

namespace Failure

/-- The wording shown to the user. -/
def message : Failure -> Text
  | .unusableSettings => "Configuration error".toList
  | .noFormats =>
      "Configuration error: At least one format specification is required ".toList ++
        "(set KARA_FORMATS)".toList
  | .defectiveFormat spec defect =>
      "Invalid format specification ".toList ++ Defect.quoted spec ++ ": ".toList ++ defect.message

end Failure
end SongPath
