import SongPath.Match
import SongPath.Proofs.ShortestCut
import SongPath.Proofs.Trimming

/-!
# Trials

A unit of a candidate either belongs to the language of its segment or not.  If
it does, everything it captures is visible and is put into the metadata; if it
does not, the trial fails, whatever the metadata hold.  So a run over trials
in order is decided by the first that does not belong, and otherwise adds up
the captures of all of them.
-/

namespace SongPath
namespace Segment

/-- The language of a segment. -/
def Describes : Segment -> Text -> Prop
  | .literal expected, text => text = expected
  | .slot _, text => exists char, char ∈ text ∧ isBlank char = false
  | .anyFolder, _ => True
  | .anyFolders, _ => True
  | .composite pieces, text => exists spans, IsCut pieces text spans

/-- What is reported of a text that a segment does not describe: blank text is
reported of a token that is a whole segment, and of nothing else. -/
def failure (segment : Segment) (text : Text) (otherwise : Mismatch) : Mismatch :=
  match segment, text with
  | .slot token, _ :: _ => .blankCapture token
  | _, _ => otherwise

/-- The token is the whole segment, and the text is blank without being empty. -/
structure IsBlankSlot (segment : Segment) (text : Text) (token : Token) : Prop where
  slot : segment = .slot token
  nonempty : text ≠ []
  blank : text.isVisible = false

theorem IsBlankSlot.not_describes {segment : Segment} {text : Text} {token : Token}
    (isBlankSlot : segment.IsBlankSlot text token) : ¬ segment.Describes text := by
  rcases isBlankSlot with ⟨rfl, _, blank⟩
  intro describes
  rw [(Text.isVisible_eq_true_iff text).mpr describes] at blank
  cases blank

theorem failure_eq_blankCapture_iff {segment : Segment} {text : Text} {otherwise : Mismatch}
    {token : Token} (undescribed : ¬ segment.Describes text)
    (other : otherwise ≠ .blankCapture token) :
    segment.failure text otherwise = .blankCapture token <-> segment.IsBlankSlot text token := by
  constructor
  · intro reported
    unfold failure at reported
    split at reported
    · next found first rest =>
        cases reported
        refine ⟨rfl, List.cons_ne_nil first rest, ?_⟩
        apply Bool.eq_false_iff.mpr
        intro visible
        exact undescribed ((Text.isVisible_eq_true_iff _).mp visible)
    · exact absurd reported other
  · rintro ⟨rfl, nonempty, _⟩
    cases text with
    | nil => exact absurd rfl nonempty
    | cons first rest => rfl

/-- A token takes every span with something to see, in a composite as well. -/
private theorem isVisible_of_mem_captured {pieces : List Piece} {spans : Spans}
    (admitted : List.Forall₂ Piece.Admits pieces spans) {capture : Token × Text}
    (listed : capture ∈ captured pieces spans) : capture.2.isVisible = true := by
  induction admitted with
  | nil => cases listed
  | @cons piece span pieces spans admits _ inductionHypothesis =>
      cases piece with
      | literal expected => exact inductionHypothesis listed
      | wildcard => exact inductionHypothesis listed
      | slot token =>
          rcases List.mem_cons.mp listed with rfl | later
          · exact (Text.isVisible_eq_true_iff span).mpr admits
          · exact inductionHypothesis later

theorem map_fst_captured {pieces : List Piece} {spans : Spans}
    (admitted : List.Forall₂ Piece.Admits pieces spans) :
    (captured pieces spans).map Prod.fst = pieces.filterMap Piece.token? := by
  induction admitted with
  | nil => rfl
  | @cons piece span pieces spans _ _ inductionHypothesis =>
      cases piece with
      | literal expected => exact inductionHypothesis
      | wildcard => exact inductionHypothesis
      | slot token => exact congrArg (token :: ·) inductionHypothesis

private theorem snd_mem_of_mem_captured {pieces : List Piece} {spans : Spans}
    {capture : Token × Text} (listed : capture ∈ captured pieces spans) : capture.2 ∈ spans := by
  rcases List.mem_filterMap.mp listed with ⟨⟨piece, span⟩, pair, named⟩
  rcases Option.map_eq_some_iff.mp named with ⟨token, _, rfl⟩
  exact (List.of_mem_zip pair).2

private theorem capture_composite_eq_some {pieces : List Piece} {text : Text}
    {captures : List (Token × Text)} (found : capture (.composite pieces) text = some captures) :
    exists spans, IsCut pieces text spans ∧ captures = captured pieces spans := by
  rcases Option.map_eq_some_iff.mp found with ⟨spans, choice, rfl⟩
  exact ⟨spans, isCut_of_cut choice, tokenSpans_eq_captured pieces spans⟩

theorem map_fst_capture {segment : Segment} {text : Text} {captures : List (Token × Text)}
    (found : segment.capture text = some captures) : captures.map Prod.fst = segment.tokens := by
  cases segment with
  | anyFolder => cases found; rfl
  | anyFolders => cases found; rfl
  | literal expected =>
      rw [capture] at found
      split at found
      · cases found; rfl
      · cases found
  | slot token =>
      rw [capture] at found
      split at found
      · cases found
      · cases found; rfl
  | composite pieces =>
      rcases capture_composite_eq_some found with ⟨spans, isCut, rfl⟩
      exact map_fst_captured isCut.admitted

theorem infix_of_mem_capture {segment : Segment} {text : Text} {captures : List (Token × Text)}
    (found : segment.capture text = some captures) {capture : Token × Text}
    (listed : capture ∈ captures) : capture.2 <:+: text := by
  cases segment with
  | anyFolder => cases found; cases listed
  | anyFolders => cases found; cases listed
  | literal expected =>
      rw [Segment.capture] at found
      split at found
      · cases found; cases listed
      · cases found
  | slot token =>
      rw [Segment.capture] at found
      split at found
      · cases found
      · cases found
        cases List.mem_singleton.mp listed
        exact List.infix_rfl
  | composite pieces =>
      rcases capture_composite_eq_some found with ⟨spans, isCut, rfl⟩
      rw [← isCut.joined]
      exact List.infix_of_mem_flatten (snd_mem_of_mem_captured listed)

/-- A segment captures from every text that it describes, and then nothing
blank. -/
theorem exists_capture_of_describes {segment : Segment} {text : Text}
    (describes : segment.Describes text) :
    exists captures, segment.capture text = some captures ∧
      forall capture, capture ∈ captures -> capture.2.isVisible = true := by
  cases segment with
  | anyFolder => exact ⟨[], rfl, List.forall_mem_nil _⟩
  | anyFolders => exact ⟨[], rfl, List.forall_mem_nil _⟩
  | literal expected => exact ⟨[], if_pos describes.symm, List.forall_mem_nil _⟩
  | slot token =>
      have visible := (Text.isVisible_eq_true_iff text).mpr describes
      have nonempty : ¬ text.isEmpty = true := by
        intro empty
        rw [List.isEmpty_iff.mp empty] at visible
        cases visible
      refine ⟨[(token, text)], if_neg nonempty, ?_⟩
      intro capture listed
      rw [List.mem_singleton.mp listed]
      exact visible
  | composite pieces =>
      rcases describes with ⟨others, isCut⟩
      rcases exists_cut_atMostAsLong isCut with ⟨spans, choice, _⟩
      refine ⟨captured pieces spans, ?_, ?_⟩
      · rw [Segment.capture, choice, Option.map_some, tokenSpans_eq_captured]
      · intro capture listed
        exact isVisible_of_mem_captured (isCut_of_cut choice).admitted listed

/-- From a text that it does not describe a segment captures nothing at all,
except that a token takes blank text. -/
theorem capture_of_not_describes {segment : Segment} {text : Text}
    (undescribed : ¬ segment.Describes text) :
    segment.capture text = none ∨
      exists token, segment = .slot token ∧ text ≠ [] ∧ text.isVisible = false ∧
        segment.capture text = some [(token, text)] := by
  cases segment with
  | anyFolder => exact absurd trivial undescribed
  | anyFolders => exact absurd trivial undescribed
  | literal expected => exact Or.inl (if_neg fun same => undescribed same.symm)
  | slot token =>
      cases text with
      | nil => exact Or.inl rfl
      | cons first rest =>
          refine Or.inr ⟨token, rfl, List.cons_ne_nil first rest, ?_, rfl⟩
          apply Bool.eq_false_iff.mpr
          intro visible
          exact undescribed ((Text.isVisible_eq_true_iff _).mp visible)
  | composite pieces =>
      rw [capture, (cut_eq_none_iff pieces text).mpr undescribed]
      exact Or.inl rfl

end Segment

namespace Metadata

/-- Put the trimmed captures in order, each unless its token has a value. -/
def putAll (metadata : Metadata) (captures : List (Token × Text)) : Metadata :=
  captures.foldl (fun metadata capture => metadata.put capture.1 capture.2.trim) metadata

theorem putAll_append (metadata : Metadata) (first second : List (Token × Text)) :
    metadata.putAll (first ++ second) = (metadata.putAll first).putAll second :=
  List.foldl_append

/-- A token keeps the value it has, and otherwise gets its first capture. -/
theorem get_putAll (metadata : Metadata) (captures : List (Token × Text)) (token : Token) :
    (metadata.putAll captures).get token =
      (metadata.get token).or
        ((captures.find? fun capture => capture.1 == token).map fun capture => capture.2.trim) := by
  induction captures generalizing metadata with
  | nil => exact (Option.or_none).symm
  | cons capture captures inductionHypothesis =>
      rcases capture with ⟨named, raw⟩
      change ((metadata.put named raw.trim).putAll captures).get token = _
      rw [inductionHypothesis, List.find?_cons]
      by_cases same : named = token
      · subst same
        rw [get_put_same, beq_self_eq_true]
        cases metadata.get named <;> rfl
      · rw [metadata.get_put_of_ne raw.trim (Ne.symm same), beq_false_of_ne same]

theorem get_putAll_empty (captures : List (Token × Text)) (token : Token) :
    (empty.putAll captures).get token =
      (captures.find? fun capture => capture.1 == token).map fun capture => capture.2.trim := by
  rw [get_putAll]
  cases token <;> rfl

theorem recordAll_of_visible (metadata : Metadata) {captures : List (Token × Text)}
    (visible : forall capture, capture ∈ captures -> capture.2.isVisible = true) :
    metadata.recordAll captures = .ok (metadata.putAll captures) := by
  induction captures generalizing metadata with
  | nil => rfl
  | cons capture captures inductionHypothesis =>
      have seen : ¬ capture.2.trim.isEmpty = true := by
        intro empty
        have blank := (Text.trim_eq_nil_iff capture.2).mp (List.isEmpty_iff.mp empty)
        rw [visible capture List.mem_cons_self] at blank
        cases blank
      rw [recordAll, List.foldlM_cons, record, if_neg seen]
      apply inductionHypothesis
      intro later listed
      exact visible later (List.mem_cons_of_mem _ listed)

end Metadata

namespace Trial

/-- The text of the trial belongs to the language of its segment. -/
def Succeeds (trial : Trial) : Prop :=
  trial.segment.Describes trial.actual

/-- The raw captures of a trial. -/
def captures (trial : Trial) : List (Token × Text) :=
  (trial.segment.capture trial.actual).getD []

theorem run_of_succeeds {trial : Trial} (succeeds : trial.Succeeds) (metadata : Metadata) :
    Trial.run metadata trial = .ok (metadata.putAll trial.captures) := by
  rcases Segment.exists_capture_of_describes succeeds with ⟨captures, found, visible⟩
  rw [run, Trial.captures, found, Option.getD_some]
  exact metadata.recordAll_of_visible visible

/-- How a trial fails does not depend on what was captured before. -/
theorem run_of_not_succeeds {trial : Trial} (fails : ¬ trial.Succeeds) (metadata : Metadata) :
    Trial.run metadata trial =
      .error (trial.segment.failure trial.actual trial.mismatch) := by
  rcases Segment.capture_of_not_describes fails with missing | ⟨token, slot, nonempty, blank, found⟩
  · rw [run, missing]
    cases described : trial.segment with
    | slot token =>
        rw [described] at missing
        cases text : trial.actual with
        | nil => rfl
        | cons first rest =>
            rw [text] at missing
            cases missing
    | _ => rfl
  · have empty : trial.actual.trim.isEmpty = true :=
      List.isEmpty_iff.mpr ((Text.trim_eq_nil_iff trial.actual).mpr blank)
    rw [run, found, slot]
    cases text : trial.actual with
    | nil => exact absurd text nonempty
    | cons first rest =>
        rw [text] at empty
        change (Metadata.record metadata (token, first :: rest)).bind _ = _
        rw [Metadata.record, if_pos empty]
        rfl

theorem foldlM_run_append {before : List Trial}
    (succeed : forall trial, trial ∈ before -> trial.Succeeds) (after : List Trial)
    (metadata : Metadata) :
    (before ++ after).foldlM Trial.run metadata =
      after.foldlM Trial.run (metadata.putAll (before.flatMap captures)) := by
  induction before generalizing metadata with
  | nil => rfl
  | cons trial before inductionHypothesis =>
      rw [List.cons_append, List.foldlM_cons, run_of_succeeds (succeed trial List.mem_cons_self),
        List.flatMap_cons, Metadata.putAll_append]
      apply inductionHypothesis
      intro later listed
      exact succeed later (List.mem_cons_of_mem _ listed)

theorem foldlM_run_of_succeed {trials : List Trial}
    (succeed : forall trial, trial ∈ trials -> trial.Succeeds) (metadata : Metadata) :
    trials.foldlM Trial.run metadata = .ok (metadata.putAll (trials.flatMap captures)) := by
  have whole := foldlM_run_append succeed [] metadata
  rw [List.append_nil] at whole
  exact whole

/-- The first trial that fails decides, however the later ones would go. -/
theorem foldlM_run_of_first_failure {before : List Trial}
    (succeed : forall trial, trial ∈ before -> trial.Succeeds) {trial : Trial}
    (fails : ¬ trial.Succeeds) (after : List Trial) (metadata : Metadata) :
    (before ++ trial :: after).foldlM Trial.run metadata =
      .error (trial.segment.failure trial.actual trial.mismatch) := by
  rw [foldlM_run_append succeed, List.foldlM_cons, run_of_not_succeeds fails]
  rfl

end Trial
end SongPath
