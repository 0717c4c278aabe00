import Mathlib.Data.List.Forall2
import SongPath.Proofs.JsonText
import SongPath.Report

/-!
# Reading a report

The JSON report keeps everything that a resolution holds.  Reading its text
gives an object with one entry for each resolution, in order, and a summary.
An entry holds the members of a match exactly if there is one, so that reading
it as a match gives the match or fails, and it holds reasons exactly if there
are any.  Counts are those of a machine word; a larger one would be read as a
decimal number.
-/

namespace SongPath

open Json (lookup? natural Readable ReadableItems ReadableMembers)

namespace Metadata

theorem ofJson?_toJson (metadata : Metadata) : ofJson? metadata.toJson = some metadata := by
  rcases metadata with ⟨_ | _, _ | _, _ | _, _ | _⟩ <;> rfl

theorem readable_toJson (metadata : Metadata) (depth : Nat) :
    Readable (depth + 1) metadata.toJson := by
  rcases metadata with ⟨_ | _, _ | _, _ | _, _ | _⟩ <;>
    exact ⟨trivial, trivial, trivial, trivial, trivial⟩

end Metadata

namespace SetMatch

/-- A match is read off any object that holds its two members. -/
theorem ofJson?_object {found : SetMatch} (small : found.patternIndex < Json.countLimit)
    {members : List (Text × Json)}
    (index : lookup? members "patternIndex".toList = some (natural found.patternIndex))
    (metadata : lookup? members "metadata".toList = some found.metadata.toJson) :
    ofJson? (.object members) = some found := by
  have fields : (Json.object members).fields? fieldNames =
      some [.given (natural found.patternIndex), .given found.metadata.toJson] := by
    simp only [Json.fields?, fieldNames, List.map_cons, List.map_nil, Json.named, index, metadata]
  have count : Json.count? (natural found.patternIndex) = some found.patternIndex :=
    if_pos small
  simp [ofJson?, fields, Json.Field.required?, count, Metadata.ofJson?_toJson]

/-- Without an index there is no match to be read. -/
theorem ofJson?_object_eq_none {members : List (Text × Json)}
    (index : lookup? members "patternIndex".toList = none) :
    ofJson? (.object members) = none := by
  have fields : (Json.object members).fields? fieldNames =
      some [.unnamed, Json.named members "metadata".toList] := by
    simp only [Json.fields?, fieldNames, List.map_cons, List.map_nil, Json.named, index]
  simp [ofJson?, fields, Json.Field.required?]

end SetMatch

namespace Report

/-! ## Entries -/

/-- What the entry for a resolution holds. -/
structure IsEntryOf (resolution : Resolution) (entry : List (Text × Json)) : Prop where
  named : lookup? entry "path".toList = some (.string resolution.path)
  indexed : (lookup? entry "patternIndex".toList).isSome = resolution.isMatch
  described : (lookup? entry "metadata".toList).isSome = resolution.isMatch
  readAsMatch : SetMatch.ofJson? (.object entry) = resolution.found
  explained : lookup? entry "reasons".toList =
    if resolution.reasons = [] then none
    else some (.array (resolution.reasons.map Json.string))

/-- The members of the record of a resolution. -/
def entry (resolution : Resolution) : List (Text × Json) :=
  ("path".toList, .string resolution.path) ::
    (match resolution.found with
      | some found => found.members
      | none => []) ++
    if resolution.reasons.isEmpty then []
    else [("reasons".toList, .array (resolution.reasons.map Json.string))]

theorem isEntryOf_entry {resolution : Resolution}
    (small : forall found, resolution.found = some found ->
      found.patternIndex < Json.countLimit) :
    IsEntryOf resolution (entry resolution) := by
  rcases resolution with ⟨path, found, reasons⟩
  cases found with
  | none => cases reasons <;> exact ⟨rfl, rfl, rfl, SetMatch.ofJson?_object_eq_none rfl, rfl⟩
  | some found =>
      cases reasons <;>
        exact ⟨rfl, rfl, rfl, SetMatch.ofJson?_object (small found rfl) rfl rfl, rfl⟩

theorem readableItems_string (texts : List Text) (depth : Nat) :
    ReadableItems depth (texts.map Json.string) := by
  induction texts with
  | nil => trivial
  | cons text texts inductionHypothesis => exact ⟨trivial, inductionHypothesis⟩

theorem readable_resolutionJson {resolution : Resolution}
    (small : forall found, resolution.found = some found ->
      found.patternIndex < Json.countLimit) (depth : Nat) :
    Readable (depth + 2) (resolutionJson resolution) := by
  have reasons (texts : List Text) : Readable (depth + 1) (.array (texts.map Json.string)) :=
    readableItems_string texts depth
  rcases resolution with ⟨path, _ | found, _ | ⟨reason, more⟩⟩
  · exact ⟨trivial, trivial⟩
  · exact ⟨trivial, reasons (reason :: more), trivial⟩
  · exact ⟨trivial, ⟨_, rfl, small found rfl⟩, found.metadata.readable_toJson depth, trivial⟩
  · exact ⟨trivial, ⟨_, rfl, small found rfl⟩, found.metadata.readable_toJson depth,
      reasons (reason :: more), trivial⟩

/-! ## The whole report -/

/-- What the summary of a report holds. -/
structure IsSummaryOf (resolutions : List Resolution) (summary : List (Text × Json))
    (matchedCount unmatchedCount : Nat) : Prop where
  total : lookup? summary "total".toList = some (natural resolutions.length)
  matched : lookup? summary "matched".toList = some (natural matchedCount)
  unmatched : lookup? summary "unmatched".toList = some (natural unmatchedCount)
  counted : matchedCount = (resolutions.filter Resolution.isMatch).length
  complete : matchedCount + unmatchedCount = resolutions.length

theorem matchedCount_le_length (resolutions : List Resolution) :
    matchedCount resolutions ≤ resolutions.length :=
  List.countP_le_length

/-- The members of the summary. -/
def summary (resolutions : List Resolution) : List (Text × Json) :=
  [("total".toList, natural resolutions.length),
    ("matched".toList, natural (matchedCount resolutions)),
    ("unmatched".toList, natural (resolutions.length - matchedCount resolutions))]

theorem isSummaryOf_summary (resolutions : List Resolution) :
    IsSummaryOf resolutions (summary resolutions) (matchedCount resolutions)
      (resolutions.length - matchedCount resolutions) where
  total := rfl
  matched := rfl
  unmatched := rfl
  counted := List.countP_eq_length_filter
  complete := Nat.add_sub_cancel' (matchedCount_le_length resolutions)

/-- The members of the report. -/
def members (resolutions : List Resolution) : List (Text × Json) :=
  [("ok".toList, .bool (matchedCount resolutions == resolutions.length)),
    ("results".toList, .array ((resolutions.map entry).map Json.object)),
    ("summary".toList, .object (summary resolutions))]

theorem toJson_eq (resolutions : List Resolution) :
    toJson resolutions = .object (members resolutions) := by
  rw [members, List.map_map]
  rfl

variable {resolutions : List Resolution}

theorem readable_toJson (few : resolutions.length < Json.countLimit)
    (small : forall resolution found, resolution ∈ resolutions ->
      resolution.found = some found -> found.patternIndex < Json.countLimit) (depth : Nat) :
    Readable (depth + 4) (toJson resolutions) := by
  have limited {count : Nat} (bound : count ≤ resolutions.length) :
      Readable (depth + 2) (natural count) :=
    ⟨count, rfl, Nat.lt_of_le_of_lt bound few⟩
  have items : ReadableItems (depth + 2) (resolutions.map resolutionJson) := by
    clear limited few
    induction resolutions with
    | nil => trivial
    | cons resolution resolutions inductionHypothesis =>
        refine ⟨readable_resolutionJson (fun found => ?_) depth, inductionHypothesis ?_⟩
        · exact small resolution found List.mem_cons_self
        · intro other found listed
          exact small other found (List.mem_cons_of_mem resolution listed)
  exact ⟨trivial, items,
    ⟨limited le_rfl, limited (matchedCount_le_length resolutions), limited (Nat.sub_le _ _),
      trivial⟩, trivial⟩

/-- The report loses nothing: its text is well formed, and what is read back
holds every resolution in order and counts them rightly. -/
theorem json_keeps_resolutions (few : resolutions.length < Json.countLimit)
    (small : forall resolution found, resolution ∈ resolutions ->
      resolution.found = some found -> found.patternIndex < Json.countLimit) :
    exists members entries summary matched unmatched,
      Json.ofText? (json resolutions) = some (.object members) ∧
      lookup? members "results".toList = some (.array (entries.map Json.object)) ∧
      List.Forall₂ IsEntryOf resolutions entries ∧
      lookup? members "summary".toList = some (.object summary) ∧
      IsSummaryOf resolutions summary matched unmatched ∧
      lookup? members "ok".toList = some (.bool (unmatched == 0)) := by
  refine ⟨members resolutions, resolutions.map entry, summary resolutions,
    matchedCount resolutions, resolutions.length - matchedCount resolutions,
    ?_, rfl, ?_, rfl, isSummaryOf_summary resolutions, ?_⟩
  · rw [← toJson_eq]
    exact Json.ofText?_render (readable_toJson few small 123)
  · rw [List.forall₂_map_right_iff, List.forall₂_same]
    intro resolution listed
    exact isEntryOf_entry fun found => small resolution found listed
  · -- All paths are matched exactly if none is left over.
    have bound := matchedCount_le_length resolutions
    have same : (matchedCount resolutions == resolutions.length) =
        (resolutions.length - matchedCount resolutions == 0) := by
      rw [Bool.eq_iff_iff, beq_iff_eq, beq_iff_eq]
      omega
    exact congrArg (fun all => some (Json.bool all)) same

/-- One matched and one unmatched path, with characters that have to be escaped. -/
theorem json_keeps_resolutions_of_two :
    exists first second members entries summary matched unmatched,
      first = Resolution.mk ['"', '\n'] (some ⟨0, ⟨none, none, none, some ['\\', 'x']⟩⟩) [] ∧
      second = Resolution.mk ['b', '\x01'] none ["no".toList] ∧
      Json.ofText? (json [first, second]) = some (.object members) ∧
      lookup? members "results".toList = some (.array (entries.map Json.object)) ∧
      List.Forall₂ IsEntryOf [first, second] entries ∧
      lookup? members "summary".toList = some (.object summary) ∧
      IsSummaryOf [first, second] summary matched unmatched ∧
      lookup? members "ok".toList = some (.bool (unmatched == 0)) := by
  have small : forall resolution found,
      resolution ∈ [Resolution.mk ['"', '\n'] (some ⟨0, ⟨none, none, none, some ['\\', 'x']⟩⟩) [],
        Resolution.mk ['b', '\x01'] none ["no".toList]] ->
      resolution.found = some found -> found.patternIndex < Json.countLimit := by
    intro resolution found listed matched
    rcases List.mem_cons.mp listed with rfl | later
    · cases matched
      decide
    · rw [List.mem_singleton.mp later] at matched
      cases matched
  rcases json_keeps_resolutions (by decide) small with
    ⟨members, entries, summary, matched, unmatched, report⟩
  exact ⟨_, _, members, entries, summary, matched, unmatched, rfl, rfl, report⟩

end Report
end SongPath
