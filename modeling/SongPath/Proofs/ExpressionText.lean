import Mathlib.Data.List.Nodup
import Mathlib.Data.List.TakeDrop
import SongPath.Regex.OfPattern

/-!
# Reading an expression

The text of an expression is given away, and whoever reads it knows nothing of
the pattern.  The reader here takes the common syntax as far as expressions of
patterns go and refuses everything else, so nothing is read in another sense
than the common one.  What is written for a pattern is read back, escapes
included, and every token names one group at most.
-/

namespace SongPath
namespace Regex
namespace Reader

/-- The characters with a meaning of their own. -/
def operators : List Char :=
  ['\\', '.', '+', '*', '?', '(', ')', '|', '[', '{', '^', '$']

/-- The characters with a meaning of their own within brackets. -/
def bracketOperators : List Char :=
  ['\\', '[', ']', '^', '&', '-', '~']

/-- The characters of group names; the first must not be a digit. -/
def isNameChar (char : Char) : Bool :=
  char.isAlphanum || char == '_'

/-- The quantifier of an item and the text behind it. -/
def quantifier : Text -> Repetition × Text
  | '*' :: '?' :: rest => (.lazyMany, rest)
  | '*' :: rest => (.many, rest)
  | '+' :: '?' :: rest => (.lazySome, rest)
  | '+' :: rest => (.some, rest)
  | '?' :: rest => (.optional, rest)
  | rest => (.once, rest)

/-- A character class and the text behind it. -/
def symbols? : Text -> Option (CharClass × Text)
  | [] => none
  | '\\' :: rest =>
      match rest with
      | char :: rest => if CharClass.specials.contains char then some (.only char, rest) else none
      | [] => none
  | '[' :: '^' :: rest =>
      match rest.span fun char => !bracketOperators.contains char with
      | (char :: excluded, ']' :: rest) => some (.noneOf (char :: excluded), rest)
      | _ => none
  | char :: rest => if operators.contains char then none else some (.only char, rest)

/-- How a group opens, given the text behind its bracket. -/
def opening? : Text -> Option (Option Text × Text)
  | '?' :: ':' :: rest => some (none, rest)
  | '?' :: 'P' :: '<' :: rest =>
      match rest.span isNameChar with
      | (first :: name, '>' :: rest) =>
          if first.isDigit then none else some (some (first :: name), rest)
      | _ => none
  | _ => none

/-- The items up to the end of the text or to the bracket that closes a group.
Every item takes one step at least, and the length of the text is enough. -/
def items? : Nat -> Text -> Option (Regex × Text)
  | 0, _ => none
  | _ + 1, [] => some (.done, [])
  | _ + 1, ')' :: rest => some (.done, ')' :: rest)
  | steps + 1, '^' :: rest => (items? steps rest).map fun (later, rest) => (.start later, rest)
  | steps + 1, '$' :: rest => (items? steps rest).map fun (later, rest) => (.finish later, rest)
  | steps + 1, '(' :: rest => do
      let (name, rest) <- opening? rest
      let (inner, rest) <- items? steps rest
      match rest with
      | ')' :: rest =>
          let (repetition, rest) := quantifier rest
          let (later, rest) <- items? steps rest
          some (.group name inner repetition later, rest)
      | _ => none
  | steps + 1, text => do
      let (symbols, rest) <- symbols? text
      let (repetition, rest) := quantifier rest
      let (later, rest) <- items? steps rest
      some (.one symbols repetition later, rest)

end Reader

/-- The names of the groups. -/
def names : Regex -> List Text
  | .done => []
  | .start rest => rest.names
  | .finish rest => rest.names
  | .one _ _ rest => rest.names
  | .group name inner _ rest => name.toList ++ inner.names ++ rest.names

/-- The expression of a text.  No two groups may have the same name. -/
def ofText? (text : Text) : Option Regex := do
  let (expression, rest) <- Reader.items? (text.length + 1) text
  if rest = [] ∧ expression.names.Nodup then some expression else none

/-! ## Items -/

/-- A name that a group may have. -/
def IsGroupName (name : Text) : Prop :=
  (exists first, name.head? = some first ∧ first.isDigit = false) ∧
    forall char, char ∈ name -> Reader.isNameChar char = true

/-- A class that is written as it is meant. -/
def IsReadableClass : CharClass -> Prop
  | .only _ => True
  | .noneOf excluded =>
      excluded ≠ [] ∧ forall char, char ∈ excluded -> char ∉ Reader.bracketOperators

/-- Every class and every name is written as it is meant. -/
def IsReadable : Regex -> Prop
  | .done => True
  | .start rest => rest.IsReadable
  | .finish rest => rest.IsReadable
  | .one symbols _ rest => IsReadableClass symbols ∧ rest.IsReadable
  | .group name inner _ rest =>
      (forall given, name = some given -> IsGroupName given) ∧ inner.IsReadable ∧ rest.IsReadable

/-- A rest of the text that does not go on with a quantifier. -/
def EndsItem (rest : Text) : Prop :=
  forall char, rest.head? = some char -> char ∉ ['*', '+', '?']

/-- The end of the items of a group, or of all items. -/
def EndsItems (rest : Text) : Prop :=
  rest = [] ∨ exists behind, rest = ')' :: behind

theorem quantifier_render_append (repetition : Repetition) {rest : Text} (ends : EndsItem rest) :
    Reader.quantifier (repetition.render ++ rest) = (repetition, rest) := by
  cases rest with
  | nil => cases repetition <;> rfl
  | cons char rest =>
      have plain := ends char rfl
      simp only [List.mem_cons, List.not_mem_nil, not_or] at plain
      cases repetition <;> simp [Repetition.render, Reader.quantifier, plain]

theorem span_append_cons {α : Type} {admits : α -> Bool} {run : List α}
    (admitted : forall item, item ∈ run -> admits item = true) {item : α}
    (stops : admits item = false) (rest : List α) :
    (run ++ item :: rest).span admits = (run, item :: rest) := by
  rw [List.span_eq_takeWhile_dropWhile, List.takeWhile_append_of_pos admitted,
    List.dropWhile_append_of_pos admitted]
  simp [stops]

theorem operators_subset : Reader.operators ⊆ CharClass.specials := by
  simp [Reader.operators, CharClass.specials]

theorem symbols?_render_append {symbols : CharClass} (readable : IsReadableClass symbols)
    (rest : Text) : Reader.symbols? (symbols.render ++ rest) = some (symbols, rest) := by
  cases symbols with
  | only symbol =>
      rw [CharClass.render, CharClass.escape]
      split
      · next special => exact if_pos special
      · next plain =>
          have noOperator : ¬ Reader.operators.contains symbol = true := by
            simp only [List.contains_iff_mem] at plain ⊢
            exact fun operator => plain (operators_subset operator)
          rw [List.singleton_append]
          unfold Reader.symbols?
          split
          · next same => cases same
          · next same =>
              rw [(List.cons.inj same).1] at noOperator
              exact absurd (by decide) noOperator
          · next same =>
              rw [(List.cons.inj same).1] at noOperator
              exact absurd (by decide) noOperator
          · next same =>
              cases same
              exact if_neg noOperator
  | noneOf excluded =>
      rcases readable with ⟨nonempty, plain⟩
      have admitted : forall char, char ∈ excluded ->
          (!Reader.bracketOperators.contains char) = true := by
        intro char listed
        simpa using plain char listed
      rcases excluded with _ | ⟨first, excluded⟩
      · exact absurd rfl nonempty
      · simp only [CharClass.render, List.cons_append, List.append_assoc, List.nil_append]
        have read : (first :: (excluded ++ ']' :: rest)).span
            (fun char => !Reader.bracketOperators.contains char) =
            (first :: excluded, ']' :: rest) :=
          span_append_cons admitted rfl rest
        rw [Reader.symbols?, read]
        rfl

theorem opening?_opening_append {name : Option Text}
    (isName : forall given, name = some given -> IsGroupName given) (rest : Text) :
    exists behind, opening name ++ rest = '(' :: behind ∧
      Reader.opening? behind = some (name, rest) := by
  cases name with
  | none => exact ⟨_, rfl, rfl⟩
  | some name =>
      rcases isName name rfl with ⟨⟨first, leading, noDigit⟩, admitted⟩
      rcases List.head?_eq_some_iff.mp leading with ⟨later, rfl⟩
      refine ⟨'?' :: 'P' :: '<' :: (first :: later ++ '>' :: rest), by simp [opening], ?_⟩
      rw [Reader.opening?, span_append_cons admitted (by decide)]
      simp [noDigit]

theorem length_pos_symbols (symbols : CharClass) : 0 < symbols.render.length := by
  cases symbols with
  | only symbol =>
      rw [CharClass.render, CharClass.escape]
      split <;> exact Nat.zero_lt_succ _
  | noneOf excluded => exact Nat.zero_lt_succ _

/-- An item that is no anchor and no group is a class. -/
theorem items?_of_symbols {text behind rest : Text} {symbols : CharClass} {later : Regex}
    {repetition : Repetition} {steps : Nat}
    (read : Reader.symbols? text = some (symbols, repetition.render ++ behind))
    (ends : EndsItem behind) (readLater : Reader.items? steps behind = some (later, rest)) :
    Reader.items? (steps + 1) text = some (.one symbols repetition later, rest) := by
  rw [Reader.items?]
  · simp [read, quantifier_render_append repetition ends, readLater]
  · rintro rfl
    cases read
  -- The other items start with characters that are no class.
  all_goals
    rintro _ rfl
    cases read

theorem items?_of_group {text inside behind rest : Text} {name : Option Text} {inner later : Regex}
    {repetition : Repetition} {steps : Nat} (opens : Reader.opening? text = some (name, inside))
    (readInner : Reader.items? steps inside =
      some (inner, ')' :: (repetition.render ++ behind)))
    (ends : EndsItem behind) (readLater : Reader.items? steps behind = some (later, rest)) :
    Reader.items? (steps + 1) ('(' :: text) = some (.group name inner repetition later, rest) := by
  simp [Reader.items?, opens, readInner, quantifier_render_append repetition ends, readLater]

theorem items?_of_endsItems {rest : Text} (ends : EndsItems rest) (steps : Nat) :
    Reader.items? (steps + 1) rest = some (.done, rest) := by
  rcases ends with rfl | ⟨behind, rfl⟩ <;> rfl

/-- No item starts with a quantifier. -/
theorem endsItem_render_append (expression : Regex) {rest : Text} (ends : EndsItems rest) :
    EndsItem (expression.render ++ rest) := by
  intro char first
  cases expression with
  | done =>
      rcases ends with rfl | ⟨behind, rfl⟩
      · cases first
      · cases first
        decide
  | start later =>
      cases first
      decide
  | finish later =>
      cases first
      decide
  | one symbols repetition later =>
      cases symbols with
      | only symbol =>
          simp only [render, CharClass.render, CharClass.escape] at first
          split at first
          · cases first
            decide
          · next plain =>
              cases first
              have escaped : ['*', '+', '?'] ⊆ CharClass.specials := by
                simp [CharClass.specials]
              intro listed
              exact plain (List.contains_iff_mem.mpr (escaped listed))
      | noneOf excluded =>
          cases first
          decide
  | group name inner repetition later =>
      cases name <;>
        · cases first
          decide

/-! ## Expressions -/

/-- What is written is read back, up to the bracket that closes a group. -/
theorem items?_render_append {expression : Regex} (readable : expression.IsReadable) {rest : Text}
    (ends : EndsItems rest) {steps : Nat} (enough : expression.render.length < steps) :
    Reader.items? steps (expression.render ++ rest) = some (expression, rest) := by
  induction expression generalizing rest steps with
  | done =>
      cases steps with
      | zero => cases enough
      | succ steps => exact items?_of_endsItems ends steps
  | start later inductionHypothesis =>
      cases steps with
      | zero => cases enough
      | succ steps =>
          have read := inductionHypothesis readable ends (Nat.lt_of_succ_lt_succ enough)
          simp [render, Reader.items?, read]
  | finish later inductionHypothesis =>
      cases steps with
      | zero => cases enough
      | succ steps =>
          have read := inductionHypothesis readable ends (Nat.lt_of_succ_lt_succ enough)
          simp [render, Reader.items?, read]
  | one symbols repetition later inductionHypothesis =>
      cases steps with
      | zero => cases enough
      | succ steps =>
          have room := length_pos_symbols symbols
          simp only [render, List.length_append, List.append_assoc] at enough ⊢
          apply items?_of_symbols (symbols?_render_append readable.1 _)
            (endsItem_render_append later ends)
          exact inductionHypothesis readable.2 ends (by omega)
  | group name inner repetition later readInner readLater =>
      cases steps with
      | zero => cases enough
      | succ steps =>
          rcases readable with ⟨isName, readableInner, readableLater⟩
          simp only [render, List.length_append, List.length_cons, List.append_assoc,
            List.cons_append] at enough ⊢
          rcases opening?_opening_append isName
            (inner.render ++ ')' :: (repetition.render ++ (later.render ++ rest))) with
            ⟨behind, opens, readName⟩
          rw [opens]
          apply items?_of_group readName _ (endsItem_render_append later ends)
          · exact readLater readableLater ends (by omega)
          · exact readInner readableInner (Or.inr ⟨_, rfl⟩) (by omega)

theorem ofText?_render {expression : Regex} (readable : expression.IsReadable)
    (nodup : expression.names.Nodup) : ofText? expression.render = some expression := by
  have read := items?_render_append readable (Or.inl rfl) (Nat.lt_succ_self _)
  rw [List.append_nil] at read
  rw [ofText?, read]
  exact if_pos ⟨rfl, nodup⟩

/-! ## First occurrences -/

/-- The items whose token is neither seen before nor that of an earlier item. -/
def unseen {α : Type} (token : α -> Token) (seen : List Token) : List α -> List α
  | [] => []
  | item :: items =>
      if seen.contains (token item) then unseen token (token item :: seen) items
      else item :: unseen token (token item :: seen) items

section Unseen

variable {α : Type} (token : α -> Token)

/-- The order of the seen tokens does not matter, and neither do repeats. -/
theorem unseen_congr {seen others : List Token}
    (same : forall token, token ∈ seen <-> token ∈ others) (items : List α) :
    unseen token seen items = unseen token others items := by
  induction items generalizing seen others with
  | nil => rfl
  | cons item items inductionHypothesis =>
      have later : unseen token (token item :: seen) items =
          unseen token (token item :: others) items := by
        apply inductionHypothesis
        simp [same]
      simp [unseen, same, later]

theorem unseen_append (seen : List Token) (first second : List α) :
    unseen token seen (first ++ second) =
      unseen token seen first ++ unseen token (first.map token ++ seen) second := by
  induction first generalizing seen with
  | nil => rfl
  | cons item first inductionHypothesis =>
      have later : unseen token (first.map token ++ token item :: seen) second =
          unseen token (token item :: (first.map token ++ seen)) second := by
        apply unseen_congr
        simp [or_left_comm]
      rw [List.cons_append, unseen, unseen, inductionHypothesis, later]
      split <;> rfl

theorem not_mem_of_mem_unseen {seen : List Token} {items : List α} {item : α}
    (listed : item ∈ unseen token seen items) : token item ∉ seen := by
  induction items generalizing seen with
  | nil => cases listed
  | cons first items inductionHypothesis =>
      rw [unseen] at listed
      split at listed
      · exact fun member => inductionHypothesis listed (List.mem_cons_of_mem _ member)
      · next absent =>
          rcases List.mem_cons.mp listed with rfl | later
          · exact fun member => absent (List.contains_iff_mem.mpr member)
          · exact fun member => inductionHypothesis later (List.mem_cons_of_mem _ member)

theorem nodup_map_unseen (seen : List Token) (items : List α) :
    ((unseen token seen items).map token).Nodup := by
  induction items generalizing seen with
  | nil => exact List.nodup_nil
  | cons item items inductionHypothesis =>
      rw [unseen]
      split
      · exact inductionHypothesis (token item :: seen)
      · refine List.nodup_cons.mpr ⟨?_, inductionHypothesis (token item :: seen)⟩
        intro again
        rcases List.mem_map.mp again with ⟨later, listed, same⟩
        apply not_mem_of_mem_unseen token listed
        rw [same]
        exact List.mem_cons_self

end Unseen

/-! ## The expression of a pattern -/

theorem isGroupName_name (token : Token) : IsGroupName token.name := by
  cases token <;> exact ⟨⟨_, rfl, rfl⟩, List.all_eq_true.mp rfl⟩

theorem name_injective {first second : Token} (same : first.name = second.name) :
    first = second := by
  have read := Token.ofName?_name first
  rw [same, Token.ofName?_name] at read
  exact (Option.some.inj read).symm

theorem isReadable_append {first second : Regex} :
    (first ++ second).IsReadable <-> first.IsReadable ∧ second.IsReadable := by
  change (first.append second).IsReadable <-> _
  induction first with
  | done => simp [append, IsReadable]
  | start rest inductionHypothesis => simp [append, IsReadable, inductionHypothesis]
  | finish rest inductionHypothesis => simp [append, IsReadable, inductionHypothesis]
  | one symbols repetition rest inductionHypothesis =>
      simp [append, IsReadable, inductionHypothesis, and_assoc]
  | group name inner repetition rest _ inductionHypothesis =>
      simp [append, IsReadable, inductionHypothesis, and_assoc]

theorem names_append (first second : Regex) :
    (first ++ second).names = first.names ++ second.names := by
  change (first.append second).names = _
  induction first with
  | done => rfl
  | start rest inductionHypothesis => simp [append, names, inductionHypothesis]
  | finish rest inductionHypothesis => simp [append, names, inductionHypothesis]
  | one symbols repetition rest inductionHypothesis => simp [append, names, inductionHypothesis]
  | group name inner repetition rest _ inductionHypothesis =>
      simp [append, names, inductionHypothesis]

theorem isReadable_ofText (text : Text) : (ofText text).IsReadable := by
  induction text with
  | nil => trivial
  | cons char text inductionHypothesis => exact ⟨trivial, inductionHypothesis⟩

theorem names_ofText (text : Text) : (ofText text).names = [] := by
  induction text with
  | nil => rfl
  | cons char text inductionHypothesis => exact inductionHypothesis

theorem isReadable_nameChars (repetition : Repetition) : (nameChars repetition).IsReadable :=
  ⟨⟨List.cons_ne_nil _ _, by simp [Reader.bracketOperators]⟩, trivial⟩

theorem isReadable_folderRun (repetition : Repetition) : (folderRun repetition).IsReadable :=
  ⟨nofun, isReadable_append.mpr ⟨isReadable_nameChars repetition, isReadable_ofText ['/']⟩,
    trivial⟩

theorem isReadable_extension : extension.IsReadable :=
  ⟨nofun, ⟨trivial, ⟨List.cons_ne_nil _ _, by simp [Reader.bracketOperators]⟩, trivial⟩, trivial⟩

theorem isReadable_ofToken (seen : List Token) (token : Token) :
    (ofToken seen token).IsReadable := by
  refine ⟨?_, isReadable_nameChars .lazySome, trivial⟩
  intro given named
  split at named
  · cases named
  · cases named
    exact isGroupName_name token

/-- A token has its named group unless it is seen already. -/
theorem names_ofToken (seen : List Token) (token : Token) :
    (ofToken seen token).names = (unseen id seen [token]).map Token.name := by
  rw [ofToken, unseen]
  split <;> simp_all [names, nameChars, unseen]

/-- One piece of a composite. -/
def ofPiece (seen : List Token) : Piece -> Regex
  | .literal text => ofText text
  | .slot token => ofToken seen token
  | .wildcard => nameChars .lazyMany

theorem ofPieces_cons (seen : List Token) (piece : Piece) (pieces : List Piece) :
    ofPieces seen (piece :: pieces) =
      ofPiece seen piece ++ ofPieces (piece.token?.toList ++ seen) pieces := by
  cases piece <;> rfl

theorem isReadable_ofPieces (seen : List Token) (pieces : List Piece) :
    (ofPieces seen pieces).IsReadable := by
  induction pieces generalizing seen with
  | nil => trivial
  | cons piece pieces inductionHypothesis =>
      have readable : (ofPiece seen piece).IsReadable := by
        cases piece with
        | literal text => exact isReadable_ofText text
        | slot token => exact isReadable_ofToken seen token
        | wildcard => exact isReadable_nameChars .lazyMany
      rw [ofPieces_cons, isReadable_append]
      exact ⟨readable, inductionHypothesis _⟩

theorem names_ofPieces (seen : List Token) (pieces : List Piece) :
    (ofPieces seen pieces).names =
      (unseen id seen (pieces.filterMap Piece.token?)).map Token.name := by
  induction pieces generalizing seen with
  | nil => rfl
  | cons piece pieces inductionHypothesis =>
      have named : (ofPiece seen piece).names =
          (unseen id seen piece.token?.toList).map Token.name := by
        cases piece with
        | literal text => exact names_ofText text
        | slot token => exact names_ofToken seen token
        | wildcard => rfl
      have split : (piece :: pieces).filterMap Piece.token? =
          piece.token?.toList ++ pieces.filterMap Piece.token? := by
        cases piece <;> rfl
      rw [ofPieces_cons, names_append, named, inductionHypothesis, split, unseen_append,
        List.map_append, List.map_id]

theorem isReadable_ofSegment (seen : List Token) (segment : Segment) :
    (ofSegment seen segment).IsReadable := by
  cases segment with
  | literal text => exact isReadable_ofText text
  | slot token => exact isReadable_ofToken seen token
  | anyFolder => exact isReadable_nameChars .some
  | anyFolders => exact isReadable_folderRun .some
  | composite pieces => exact isReadable_ofPieces seen pieces

theorem names_ofSegment (seen : List Token) (segment : Segment) :
    (ofSegment seen segment).names = (unseen id seen segment.tokens).map Token.name := by
  cases segment with
  | literal text => exact names_ofText text
  | slot token => exact names_ofToken seen token
  | anyFolder => rfl
  | anyFolders => rfl
  | composite pieces => exact names_ofPieces seen pieces

/-- Any folder segment but `**` brings its own slash. -/
theorem ofFolders_cons_of_ne {seen : List Token} {folder : Segment} (other : folder ≠ .anyFolders)
    (folders : List Segment) :
    ofFolders seen (folder :: folders) =
      ofSegment seen folder ++ ofText ['/'] ++ ofFolders (folder.tokens ++ seen) folders := by
  cases folder with
  | anyFolders => exact absurd rfl other
  | _ => rfl

theorem isReadable_ofFolders (seen : List Token) (folders : List Segment) :
    (ofFolders seen folders).IsReadable := by
  induction folders generalizing seen with
  | nil => trivial
  | cons folder folders inductionHypothesis =>
      by_cases run : folder = .anyFolders
      · subst run
        exact isReadable_append.mpr ⟨isReadable_folderRun .some, inductionHypothesis seen⟩
      · rw [ofFolders_cons_of_ne run]
        simp [isReadable_append, isReadable_ofSegment, isReadable_ofText, inductionHypothesis]

theorem names_ofFolders (seen : List Token) (folders : List Segment) :
    (ofFolders seen folders).names =
      (unseen id seen (folders.flatMap Segment.tokens)).map Token.name := by
  induction folders generalizing seen with
  | nil => rfl
  | cons folder folders inductionHypothesis =>
      by_cases run : folder = .anyFolders
      · subst run
        rw [ofFolders, names_append, inductionHypothesis]
        rfl
      · rw [ofFolders_cons_of_ne run, names_append, names_append, names_ofSegment, names_ofText,
          inductionHypothesis, List.append_nil, ← List.map_append, List.flatMap_cons, unseen_append,
          List.map_id]

theorem isReadable_ofPattern (pattern : Pattern) : (ofPattern pattern).IsReadable := by
  have readableFront : (front pattern).IsReadable := by
    rw [front]
    split
    · exact ⟨trivial, trivial⟩
    · exact isReadable_folderRun .many
  change (front pattern ++ _ ++ _ ++ _ ++ _).IsReadable
  simp only [isReadable_append]
  exact ⟨⟨⟨⟨readableFront, isReadable_ofFolders _ _⟩, isReadable_ofSegment _ _⟩,
    isReadable_extension⟩, trivial⟩

/-- The tokens of a pattern, each where it stands first, name the groups. -/
theorem names_ofPattern (pattern : Pattern) :
    (ofPattern pattern).names =
      (unseen id [] (pattern.segments.flatMap Segment.tokens)).map Token.name := by
  have noNames : (front pattern).names = [] := by
    rw [front]
    split <;> rfl
  have noneBehind : extension.names ++ (Regex.finish .done).names = [] := rfl
  change (front pattern ++ _ ++ _ ++ _ ++ _).names = _
  rw [names_append, names_append, List.append_assoc, noneBehind, names_append, names_append,
    noNames, names_ofFolders, names_ofSegment, Pattern.segments, List.flatMap_append,
    unseen_append, List.map_append]
  simp

theorem nodup_names_ofPattern (pattern : Pattern) : (ofPattern pattern).names.Nodup := by
  rw [names_ofPattern]
  apply List.Nodup.map (fun _ _ => name_injective)
  have nodup := nodup_map_unseen id [] (pattern.segments.flatMap Segment.tokens)
  rwa [List.map_id] at nodup

/-- Whoever reads the text of the expression of a pattern reads that expression. -/
theorem ofText?_regexText (pattern : Pattern) :
    ofText? pattern.regexText = some (ofPattern pattern) :=
  ofText?_render (isReadable_ofPattern pattern) (nodup_names_ofPattern pattern)

end Regex
end SongPath
