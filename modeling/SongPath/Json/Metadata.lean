import SongPath.Json.Record
import SongPath.PatternSet

/-!
# Metadata in JSON

Metadata and set matches as JSON records.  Writing gives every field, an absent
value as `null`; reading an object accepts missing metadata fields as absent.
-/

namespace SongPath
namespace Metadata

/-- The JSON names of the fields, in token order. -/
def fieldNames : List Text :=
  ["creatorName".toList, "identifier".toList, "artistName".toList, "songTitle".toList]

/-- Every field in token order. -/
def toJson (metadata : Metadata) : Json :=
  .object (fieldNames.zip (Token.all.map fun token => Json.ofOption (metadata.get token)))

/-- Metadata from a JSON record. -/
def ofJson? (json : Json) : Option Metadata := do
  let fields <- json.fields? fieldNames
  let values <- fields.mapM fun field => field.nullable? >>= Json.optionalText?
  match values with
  | [creator, identifier, artist, title] => some ⟨creator, identifier, artist, title⟩
  | _ => none

end Metadata

namespace SetMatch

/-- The JSON names of the fields. -/
def fieldNames : List Text :=
  ["patternIndex".toList, "metadata".toList]

/-- The members that describe a match. -/
def members (found : SetMatch) : List (Text × Json) :=
  fieldNames.zip [Json.natural found.patternIndex, found.metadata.toJson]

/-- A set match from a JSON record. -/
def ofJson? (json : Json) : Option SetMatch := do
  match <- json.fields? fieldNames with
  | [index, metadata] =>
      let index <- index.required? >>= Json.count?
      let metadata <- metadata.required? >>= Metadata.ofJson?
      some ⟨index, metadata⟩
  | _ => none

end SetMatch
end SongPath
