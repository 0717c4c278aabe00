import SongPath.Proofs.CompiledPatterns
import SongPath.Proofs.PatternSearch

/-!
# Groups and literals of an expression

A token has a group at its first occurrence and literal text has none, whatever
it spells.  Two views of the written expression say so.  The brackets that
capture are found in the text itself, by a scan that knows only escapes and
classes.  The characters that stand for themselves are found in the expression
that a reader makes of the text.  A literal is such characters and nothing else:
any other text in its place leaves all that stands around it as it is.
-/

namespace SongPath

/-! ## Patterns with an open place -/

namespace Segment

/-- A segment in which one literal text is left open. -/
inductive Frame where
  | whole
  | within (before after : List Piece)

namespace Frame

/-- The segment with the given text in the open place. -/
def fill (text : Text) : Frame -> Segment
  | .whole => .literal text
  | .within before after => .composite (before ++ .literal text :: after)

/-- The tokens around the open place. -/
def tokens : Frame -> List Token
  | .whole => []
  | .within before after => before.filterMap Piece.token? ++ after.filterMap Piece.token?

theorem tokens_fill (frame : Frame) (text : Text) : (frame.fill text).tokens = frame.tokens := by
  cases frame with
  | whole => rfl
  | within before after =>
      rw [fill, Segment.tokens, List.filterMap_append]
      rfl

theorem fill_ne_anyFolders (frame : Frame) (text : Text) : frame.fill text ≠ .anyFolders := by
  cases frame <;> exact Segment.noConfusion

end Frame

theorem exists_fill_of_mem_literals {segment : Segment} {text : Text}
    (listed : text ∈ segment.literals) : exists frame : Frame, frame.fill text = segment := by
  cases segment with
  | literal other =>
      cases List.mem_singleton.mp listed
      exact ⟨.whole, rfl⟩
  | composite pieces =>
      rcases List.mem_filterMap.mp listed with ⟨piece, member, isLiteral⟩
      rcases List.append_of_mem member with ⟨before, after, rfl⟩
      cases piece with
      | literal other =>
          cases isLiteral
          exact ⟨.within before after, rfl⟩
      | slot token => cases isLiteral
      | wildcard => cases isLiteral
  | slot token => cases listed
  | anyFolder => cases listed
  | anyFolders => cases listed

end Segment

namespace Pattern

/-- A pattern in which one literal text is left open, in a folder or in the
file. -/
inductive Frame where
  | inFolder (before : List Segment) (place : Segment.Frame) (after : List Segment) (last : Segment)
  | inFile (front : List Segment) (place : Segment.Frame)

/-- The pattern with the given text in the open place. -/
def Frame.fill (text : Text) : Frame -> Pattern
  | .inFolder before place after last => ⟨before ++ place.fill text :: after, last⟩
  | .inFile front place => ⟨front, place.fill text⟩

/-- Every literal of a pattern stands in an open place. -/
theorem exists_fill_of_mem_literals {pattern : Pattern} {text : Text}
    (listed : text ∈ pattern.segments.flatMap Segment.literals) :
    exists frame : Frame, frame.fill text = pattern := by
  rcases List.mem_flatMap.mp listed with ⟨segment, member, inside⟩
  rcases Segment.exists_fill_of_mem_literals inside with ⟨place, rfl⟩
  rcases pattern with ⟨folders, file⟩
  rcases List.mem_append.mp member with folder | last
  · rcases List.append_of_mem folder with ⟨before, after, rfl⟩
    exact ⟨.inFolder before place after file, rfl⟩
  · exact ⟨.inFile folders place, congrArg (Pattern.mk folders) (List.mem_singleton.mp last)⟩

/-- The literal texts in document order, with the slash behind each folder that
has a name of its own. -/
def literalText (pattern : Pattern) : Text :=
  (pattern.folders.flatMap fun folder =>
    if folder = .anyFolders then [] else folder.literals.flatten ++ ['/']) ++
    pattern.file.literals.flatten

end Pattern

namespace Regex

/-! ## Brackets that capture -/

/-- What an opening bracket captures, given the text behind it: nothing, a group
with a name or a group without one. -/
def capture? : Text -> Option (Option Text)
  | '?' :: ':' :: _ => none
  | '?' :: 'P' :: '<' :: rest => some (some (rest.takeWhile (· != '>')))
  | _ => some none

/-- The groups of a text that capture, in the order in which they open, each with
its name if it has one.  `inside` tells whether a class is open. -/
def captures (inside : Bool) : Text -> List (Option Text)
  | [] => []
  | '\\' :: _ :: rest => captures inside rest
  | char :: rest =>
      if inside then captures (char != ']') rest
      else if char = '[' then captures true rest
      else if char = '(' then (capture? rest).toList ++ captures false rest
      else captures false rest

/-- The characters that the scan has to heed outside classes. -/
def marks : List Char :=
  ['\\', '[', '(']

theorem captures_cons {char : Char} (plain : char ∉ marks) (rest : Text) :
    captures false (char :: rest) = captures false rest := by
  simp only [marks, List.mem_cons, List.not_mem_nil, or_false, not_or] at plain
  rw [captures]
  · simp [plain]
  · rintro _ _ rfl
    exact absurd rfl plain.1

theorem captures_append {front : Text} (plain : forall char, char ∈ front -> char ∉ marks)
    (rest : Text) : captures false (front ++ rest) = captures false rest := by
  induction front with
  | nil => rfl
  | cons char front inductionHypothesis =>
      rcases List.forall_mem_cons.mp plain with ⟨first, others⟩
      rw [List.cons_append, captures_cons first, inductionHypothesis others]

/-- A class ends at its bracket. -/
theorem captures_excluded {excluded : List Char}
    (plain : forall char, char ∈ excluded -> char ∉ Reader.bracketOperators) (rest : Text) :
    captures true (excluded ++ ']' :: rest) = captures false rest := by
  induction excluded with
  | nil => rfl
  | cons char excluded inductionHypothesis =>
      rcases List.forall_mem_cons.mp plain with ⟨first, others⟩
      simp only [Reader.bracketOperators, List.mem_cons, not_or] at first
      have inside : (char != ']') = true := bne_iff_ne.mpr first.2.2.1
      rw [List.cons_append, captures, if_pos rfl, inside, inductionHypothesis others]
      rintro _ _ rfl
      exact absurd rfl first.1

theorem captures_symbols {symbols : CharClass} (readable : IsReadableClass symbols) (rest : Text) :
    captures false (symbols.render ++ rest) = captures false rest := by
  cases symbols with
  | only symbol =>
      rw [CharClass.render, CharClass.escape]
      split
      · rfl
      · next unescaped =>
          have special : marks ⊆ CharClass.specials := by simp [marks, CharClass.specials]
          refine captures_append (List.forall_mem_singleton.mpr fun listed => unescaped ?_) rest
          exact List.contains_iff_mem.mpr (special listed)
  | noneOf excluded =>
      have opened : captures false (CharClass.render (.noneOf excluded) ++ rest) =
          captures true (excluded ++ ']' :: rest) := by
        simp [CharClass.render, captures]
      rw [opened, captures_excluded readable.2]

theorem captures_repetition (repetition : Repetition) (rest : Text) :
    captures false (repetition.render ++ rest) = captures false rest := by
  apply captures_append
  cases repetition <;> simp [Repetition.render, marks]

theorem not_mem_of_isNameChar {char : Char} (admitted : Reader.isNameChar char = true) :
    char ∉ '>' :: marks := by
  intro listed
  simp only [marks, List.mem_cons, List.not_mem_nil, or_false] at listed
  rcases listed with rfl | rfl | rfl | rfl <;> cases admitted

theorem captures_opening {name : Option Text}
    (isName : forall given, name = some given -> IsGroupName given) (rest : Text) :
    captures false (opening name ++ rest) = name.toList.map some ++ captures false rest := by
  cases name with
  | none => rfl
  | some name =>
      have plain : forall char, char ∈ name -> char ∉ '>' :: marks :=
        fun char listed => not_mem_of_isNameChar ((isName name rfl).2 char listed)
      have named : (name ++ '>' :: rest).takeWhile (· != '>') = name := by
        rw [List.takeWhile_append_of_pos]
        · exact List.append_nil name
        · exact fun char listed => bne_iff_ne.mpr (List.ne_of_not_mem_cons (plain char listed))
      have unmarked : forall char, char ∈ name ++ ['>'] -> char ∉ marks :=
        List.forall_mem_append.mpr ⟨fun char listed => List.not_mem_of_not_mem_cons (plain char listed),
          List.forall_mem_singleton.mpr (by decide)⟩
      have scanned : captures false ('?' :: 'P' :: '<' :: (name ++ '>' :: rest)) =
          captures false rest := by
        rw [captures_cons (by decide), captures_cons (by decide), captures_cons (by decide)]
        simpa using captures_append unmarked rest
      simp [opening, captures, capture?, named, scanned]

/-- The scan finds the names of a written expression and no other group. -/
theorem captures_render_append {expression : Regex} (readable : expression.IsReadable)
    (rest : Text) :
    captures false (expression.render ++ rest) =
      expression.names.map some ++ captures false rest := by
  induction expression generalizing rest with
  | done => rfl
  | start later inductionHypothesis =>
      exact (captures_cons (by decide) _).trans (inductionHypothesis readable rest)
  | finish later inductionHypothesis =>
      exact (captures_cons (by decide) _).trans (inductionHypothesis readable rest)
  | one symbols repetition later inductionHypothesis =>
      simp only [render, List.append_assoc]
      rw [captures_symbols readable.1, captures_repetition, inductionHypothesis readable.2]
      rfl
  | group name inner repetition later readInner readLater =>
      rcases readable with ⟨isName, readableInner, readableLater⟩
      simp only [render, List.append_assoc, List.cons_append]
      rw [captures_opening isName, readInner readableInner, captures_cons (by decide),
        captures_repetition, readLater readableLater]
      simp [names]

/-- A bracket without a question mark would be found as well; an escaped one and
one in a class open nothing. -/
example : captures false "(a)\\((?:b)[(](?P<x>c)".toList = [none, some ['x']] := by
  decide +kernel

/-! ## First occurrences in order -/

/-- Tokens seen before are left out, and of the others all repeats. -/
theorem unseen_id_eq (seen items : List Token) :
    unseen id seen items = (items.filter fun token => !seen.contains token).eraseDups := by
  induction items generalizing seen with
  | nil => rfl
  | cons token items inductionHypothesis =>
      rw [unseen, id]
      by_cases before : token ∈ seen
      · have noNews : forall other, other ∈ token :: seen <-> other ∈ seen := by simp [before]
        rw [if_pos (List.contains_iff_mem.mpr before), unseen_congr id noNews, inductionHypothesis,
          List.filter_cons_of_neg]
        simpa using before
      · have kept : (items.filter fun other => !(token :: seen).contains other) =
            (items.filter fun other => !seen.contains other).filter fun other => !other == token := by
          rw [List.filter_filter]
          apply List.filter_congr
          intro other _
          rw [List.contains_cons, Bool.not_or]
        rw [if_neg (mt List.contains_iff_mem.mp before), inductionHypothesis, kept,
          List.filter_cons_of_pos, List.eraseDups_cons]
        simpa using before

theorem names_ofPattern_eq_eraseDups (pattern : Pattern) :
    (ofPattern pattern).names =
      (pattern.segments.flatMap Segment.tokens).eraseDups.map Token.name := by
  rw [names_ofPattern, unseen_id_eq]
  simp

/-! ## Characters that stand for themselves -/

/-- The characters that an expression asks for one by one, outside its groups. -/
def spelled : Regex -> Text
  | .done => []
  | .start rest => rest.spelled
  | .finish rest => rest.spelled
  | .one (.only symbol) .once rest => symbol :: rest.spelled
  | .one _ _ rest => rest.spelled
  | .group _ _ _ rest => rest.spelled

theorem spelled_append (first second : Regex) :
    (first ++ second).spelled = first.spelled ++ second.spelled := by
  change (first.append second).spelled = _
  induction first with
  | done => rfl
  | start rest inductionHypothesis => exact inductionHypothesis
  | finish rest inductionHypothesis => exact inductionHypothesis
  | one symbols repetition rest inductionHypothesis =>
      cases symbols <;> cases repetition <;> simp [append, spelled, inductionHypothesis]
  | group name inner repetition rest _ inductionHypothesis => exact inductionHypothesis

theorem spelled_ofText (text : Text) : (ofText text).spelled = text := by
  induction text with
  | nil => rfl
  | cons char text inductionHypothesis => exact congrArg (List.cons char) inductionHypothesis

theorem spelled_ofPieces (seen : List Token) (pieces : List Piece) :
    (ofPieces seen pieces).spelled = (pieces.filterMap Piece.literal?).flatten := by
  induction pieces generalizing seen with
  | nil => rfl
  | cons piece pieces inductionHypothesis =>
      rw [ofPieces_cons, spelled_append, inductionHypothesis]
      cases piece with
      | literal text => exact congrArg (· ++ _) (spelled_ofText text)
      | slot token => rfl
      | wildcard => rfl

theorem spelled_ofSegment (seen : List Token) (segment : Segment) :
    (ofSegment seen segment).spelled = segment.literals.flatten := by
  cases segment with
  | literal text => exact (spelled_ofText text).trans (List.append_nil text).symm
  | slot token => rfl
  | anyFolder => rfl
  | anyFolders => rfl
  | composite pieces => exact spelled_ofPieces seen pieces

theorem spelled_ofFolders (seen : List Token) (folders : List Segment) :
    (ofFolders seen folders).spelled =
      folders.flatMap fun folder =>
        if folder = .anyFolders then [] else folder.literals.flatten ++ ['/'] := by
  induction folders generalizing seen with
  | nil => rfl
  | cons folder folders inductionHypothesis =>
      rw [List.flatMap_cons]
      by_cases run : folder = .anyFolders
      · subst run
        exact inductionHypothesis seen
      · rw [ofFolders_cons_of_ne run, if_neg run, spelled_append, spelled_append,
          spelled_ofSegment, spelled_ofText, inductionHypothesis]

theorem spelled_ofPattern (pattern : Pattern) :
    (ofPattern pattern).spelled = pattern.literalText := by
  have frontSilent : (front pattern).spelled = [] := by
    rw [front]
    split <;> rfl
  have behindSilent : extension.spelled ++ (Regex.finish .done).spelled = [] := rfl
  change (front pattern ++ _ ++ _ ++ _ ++ _).spelled = _
  rw [spelled_append, spelled_append, List.append_assoc, behindSilent, spelled_append,
    spelled_append, frontSilent, spelled_ofFolders, spelled_ofSegment, List.append_nil]
  rfl

/-- A text without the backslashes of its escapes. -/
def unescape : Text -> Text
  | [] => []
  | '\\' :: char :: rest => char :: unescape rest
  | char :: rest => char :: unescape rest

theorem unescape_escape_append (char : Char) (rest : Text) :
    unescape (CharClass.escape char ++ rest) = char :: unescape rest := by
  rw [CharClass.escape]
  split
  · rfl
  · next plain =>
      rw [List.singleton_append, unescape]
      rintro _ _ rfl
      exact absurd (by decide) plain

theorem unescape_render_ofText (text : Text) : unescape (ofText text).render = text := by
  induction text with
  | nil => rfl
  | cons char text inductionHypothesis =>
      have written : (ofText (char :: text)).render =
          CharClass.escape char ++ (ofText text).render :=
        congrArg (· ++ (ofText text).render) (List.append_nil (CharClass.escape char))
      rw [written, unescape_escape_append, inductionHypothesis]

/-! ## Text in a place -/

/-- What is written for the later pieces depends on the earlier ones only through
the tokens that are seen. -/
theorem exists_ofPieces_append (seen : List Token) (first : List Piece) :
    exists others, forall rest, ofPieces seen (first ++ rest) =
      ofPieces seen first ++ ofPieces others rest := by
  induction first generalizing seen with
  | nil => exact ⟨seen, fun _ => rfl⟩
  | cons piece first inductionHypothesis =>
      rcases inductionHypothesis (piece.token?.toList ++ seen) with ⟨others, inTwo⟩
      refine ⟨others, fun rest => ?_⟩
      rw [List.cons_append, ofPieces_cons, ofPieces_cons, inTwo, append_assoc]

/-- In a segment, a text stands between two expressions that do not know it. -/
theorem exists_ofSegment_fill (seen : List Token) (place : Segment.Frame) :
    exists before behind, forall text,
      ofSegment seen (place.fill text) = before ++ ofText text ++ behind := by
  cases place with
  | whole => exact ⟨.done, .done, fun text => (append_done (ofText text)).symm⟩
  | within before after =>
      rcases exists_ofPieces_append seen before with ⟨others, inTwo⟩
      refine ⟨ofPieces seen before, ofPieces others after, fun text => ?_⟩
      rw [append_assoc]
      exact inTwo (.literal text :: after)

theorem front_fill (frame : Pattern.Frame) (text other : Text) :
    front (frame.fill text) = front (frame.fill other) := by
  have present : (frame.fill text).doubleStar?.isSome = (frame.fill other).doubleStar?.isSome := by
    have plain : forall (place : Segment.Frame) (text : Text),
        (place.fill text == .anyFolders) = false :=
      fun place text => beq_false_of_ne (place.fill_ne_anyFolders text)
    cases frame with
    | inFolder before place after last =>
        simp [Pattern.doubleStar?, Pattern.Frame.fill, List.findIdx?_isSome, plain]
    | inFile folders place => rfl
  rw [front, front, present]

/-- In a pattern, a text stands between two expressions that do not know it. -/
theorem exists_ofPattern_fill (frame : Pattern.Frame) :
    exists before behind, forall text,
      ofPattern (frame.fill text) = before ++ ofText text ++ behind := by
  have opened : forall expression later : Regex,
      Regex.start expression ++ later = .start (expression ++ later) := fun _ _ => rfl
  have sameFront := fun text => front_fill frame text []
  cases frame with
  | inFolder first place after last =>
      rcases exists_ofFolders_append [] first with ⟨others, _, inTwo⟩
      rcases exists_ofSegment_fill others place with ⟨before, behind, filled⟩
      refine ⟨.start (front (Pattern.Frame.fill [] (.inFolder first place after last)) ++
          ofFolders [] first ++ before), behind ++ ofText ['/'] ++
          ofFolders (place.tokens ++ others) after ++
          ofSegment (first.flatMap Segment.tokens ++ (place.tokens ++ after.flatMap Segment.tokens))
            last ++ extension ++ .finish .done, fun text => ?_⟩
      rw [ofPattern, sameFront]
      simp only [Pattern.Frame.fill, inTwo, ofFolders_cons_of_ne (place.fill_ne_anyFolders text),
        filled, place.tokens_fill, List.flatMap_append, List.flatMap_cons, opened, append_assoc]
  | inFile folders place =>
      rcases exists_ofSegment_fill (folders.flatMap Segment.tokens) place with
        ⟨before, behind, filled⟩
      refine ⟨.start (front (Pattern.Frame.fill [] (.inFile folders place)) ++
          ofFolders [] folders ++ before), behind ++ extension ++ .finish .done, fun text => ?_⟩
      rw [ofPattern, sameFront]
      simp only [Pattern.Frame.fill, filled, opened, append_assoc]

end Regex

namespace Pattern

/-- The text of the expression of a pattern can be read, and its groups are named
after the tokens of the pattern, each once, in the order in which they stand
first; no other bracket captures.  The characters that stand for themselves are
the literal text.  Wherever a literal stands, it is written with escapes that
leave it when they are removed, and any other text in its place is read as itself
between the same two expressions. -/
theorem regexText_groups_and_literals (pattern : Pattern) :
    exists expression, Regex.ofText? pattern.regexText = some expression ∧
      expression.names =
        (pattern.segments.flatMap Segment.tokens).eraseDups.map Token.name ∧
      expression.names.Nodup ∧
      (forall name, name ∈ expression.names <->
        exists token, token ∈ pattern.tokens ∧ token.name = name) ∧
      Regex.captures false pattern.regexText = expression.names.map some ∧
      expression.spelled = pattern.literalText ∧
      (forall text, text ∈ pattern.segments.flatMap Segment.literals ->
        exists frame : Frame, frame.fill text = pattern) ∧
      forall (frame : Frame) (text : Text), frame.fill text = pattern ->
        exists before behind, expression = before ++ Regex.ofText text ++ behind ∧
          (exists written, pattern.regexText = before.render ++ written ++ behind.render ∧
            Regex.unescape written = text) ∧
          forall other, Regex.ofText? (frame.fill other).regexText =
            some (before ++ Regex.ofText other ++ behind) := by
  have named := Regex.names_ofPattern_eq_eraseDups pattern
  have scanned := Regex.captures_render_append (Regex.isReadable_ofPattern pattern) []
  rw [List.append_nil, Regex.captures, List.append_nil] at scanned
  refine ⟨Regex.ofPattern pattern, Regex.ofText?_regexText pattern, named,
    Regex.nodup_names_ofPattern pattern, fun name => ?_, scanned,
    Regex.spelled_ofPattern pattern, fun text => exists_fill_of_mem_literals, ?_⟩
  · rw [named, List.mem_map]
    simp only [List.mem_eraseDups, mem_tokens_iff]
  · rintro frame text rfl
    rcases Regex.exists_ofPattern_fill frame with ⟨before, behind, filled⟩
    refine ⟨before, behind, filled text,
      ⟨_, ?_, Regex.unescape_render_ofText text⟩, fun other => ?_⟩
    · rw [regexText, filled, Regex.render_append, Regex.render_append]
    · rw [Regex.ofText?_regexText, filled]

/-- A folder that spells a group and a file of operators write neither. -/
theorem regexText_groups_and_literals_spelled_group :
    exists pattern expression,
      compile "(?P<artist>[/\x7btitle\x7d+ - \x7bartist\x7d?$^\x7btitle\x7d".toList = .ok pattern ∧
      Regex.ofText? pattern.regexText = some expression ∧
      expression.names = ["title".toList, "artist".toList] ∧
      Regex.captures false pattern.regexText =
        [some "title".toList, some "artist".toList] ∧
      expression.spelled = "(?P<artist>[/+ - ?$^".toList ∧
      exists before behind, expression = before ++ Regex.ofText "(?P<artist>[".toList ++ behind := by
  have compiled : compile "(?P<artist>[/\x7btitle\x7d+ - \x7bartist\x7d?$^\x7btitle\x7d".toList =
      .ok ⟨[.literal "(?P<artist>[".toList],
        .composite [.slot .title, .literal "+ - ".toList, .slot .artist, .literal "?$^".toList,
          .slot .title]⟩ := by
    decide +kernel
  rcases regexText_groups_and_literals ⟨[.literal "(?P<artist>[".toList],
      .composite [.slot .title, .literal "+ - ".toList, .slot .artist, .literal "?$^".toList,
        .slot .title]⟩ with
    ⟨expression, read, names, _, _, scanned, spelled, _, places⟩
  rcases places (.inFolder [] .whole [] _) "(?P<artist>[".toList rfl with ⟨before, behind, stands, _⟩
  have named : expression.names = ["title".toList, "artist".toList] := names.trans (by decide)
  rw [named] at scanned
  exact ⟨_, expression, compiled, read, named, scanned, spelled, before, behind, stands⟩

end Pattern
end SongPath
