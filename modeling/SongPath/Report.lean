import SongPath.Json.Metadata
import SongPath.Json.Printer
import SongPath.Resolution

/-!
# Reports

How outcomes are shown.  The text report has a headline for each path and
indented lines below it; the JSON report has one record for each path and a
summary.  Nothing is escaped in the text report.
-/

namespace SongPath
namespace Report

/-- A line below a headline. -/
def indented (text : Text) : Text :=
  "    ".toList ++ text ++ ['\n']

/-- The captured values, one line each, in token order. -/
def metadataLines (metadata : Metadata) : Text :=
  Token.all.flatMap fun token =>
    match metadata.get token with
    | some value => indented (token.name ++ ": ".toList ++ value)
    | none => []

/-- The text of one resolved path. -/
def resolutionText (resolution : Resolution) : Text :=
  match resolution.found with
  | some found =>
      "OK ".toList ++ resolution.path ++ " [pattern ".toList ++ Text.ofNat found.patternIndex ++
        "]\n".toList ++ metadataLines found.metadata
  | none =>
      "NO MATCH ".toList ++ resolution.path ++ '\n' :: resolution.reasons.flatMap indented

/-- The text report. -/
def text (resolutions : List Resolution) : Text :=
  resolutions.flatMap resolutionText

/-- The record of one resolved path.  Reasons are left out if there are none. -/
def resolutionJson (resolution : Resolution) : Json :=
  .object (
    ("path".toList, .string resolution.path) ::
    (match resolution.found with
      | some found => found.members
      | none => []) ++
    if resolution.reasons.isEmpty then []
    else [("reasons".toList, .array (resolution.reasons.map Json.string))])

/-- The number of matched paths. -/
def matchedCount (resolutions : List Resolution) : Nat :=
  resolutions.countP Resolution.isMatch

/-- The report as a JSON value. -/
def toJson (resolutions : List Resolution) : Json :=
  let total := resolutions.length
  let matched := matchedCount resolutions
  .object [
    ("ok".toList, .bool (matched == total)),
    ("results".toList, .array (resolutions.map resolutionJson)),
    ("summary".toList, .object [
      ("total".toList, Json.natural total),
      ("matched".toList, Json.natural matched),
      ("unmatched".toList, Json.natural (total - matched))])]

/-- The JSON report. -/
def json (resolutions : List Resolution) : Text :=
  (toJson resolutions).render

/-- The line for one specification: its canonical form, or the defect. -/
def verdictLine (verdict : Verdict) : Text :=
  match verdict.result with
  | .ok pattern => "OK ".toList ++ pattern.render ++ ['\n']
  | .error defect =>
      "INVALID ".toList ++ verdict.spec ++ ": ".toList ++ defect.message ++ ['\n']

/-- The report on specifications. -/
def verdicts (verdicts : List Verdict) : Text :=
  verdicts.flatMap verdictLine

end Report
end SongPath
