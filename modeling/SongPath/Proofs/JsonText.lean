import Mathlib.Tactic.IntervalCases
import SongPath.Json.Printer
import SongPath.Json.Reader

/-!
# JSON texts

What is written in the indented form is read back as it was.  The reader is
followed over the written text with an arbitrary rest behind it; only a number
needs to know how that rest begins, because nothing else marks its end.  The
bound on the steps of the reader never shows: it is larger than the text, and
every step is paid for by a character.
-/

namespace SongPath
namespace Json

/-! ## Strings -/

theorem hexDigit?_hexDigit {value : Nat} (small : value < 16) :
    Reader.hexDigit? (Printer.hexDigit value) = some value := by
  interval_cases value <;> decide

private theorem scalar?_toNat {char : Char} (control : char.toNat < 0x20) :
    Reader.scalar? char.toNat = some char := by
  have early : char.toNat < 0xD800 := Nat.lt_trans control (by decide)
  simp [Reader.scalar?, early, Char.ofNat_toNat]

/-- The four digits of a control character. -/
theorem unicode?_control {char : Char} (control : char.toNat < 0x20) (rest : Text) :
    Reader.unicode? ('0' :: '0' :: Printer.hexDigit (char.toNat / 16) ::
      Printer.hexDigit (char.toNat % 16) :: rest) = some (char, rest) := by
  have zero : Reader.hexDigit? '0' = some 0 := by decide
  have high : Reader.hexDigit? (Printer.hexDigit (char.toNat / 16)) = some (char.toNat / 16) :=
    hexDigit?_hexDigit (by omega)
  have low : Reader.hexDigit? (Printer.hexDigit (char.toNat % 16)) = some (char.toNat % 16) :=
    hexDigit?_hexDigit (by omega)
  have code : ((0 * 16 + 0) * 16 + char.toNat / 16) * 16 + char.toNat % 16 = char.toNat := by omega
  have noSurrogate : ¬ 0xD800 ≤ char.toNat := by omega
  simp [Reader.unicode?, Reader.unit?, zero, high, low, noSurrogate, scalar?_toNat control,
    Nat.div_add_mod']

/-- An escaped character is read in one step. -/
theorem string?_escape_append (steps : Nat) (char : Char) (rest : Text) :
    Reader.string? (steps + 1) (Printer.escape char ++ rest) =
      (Reader.string? steps rest).map fun read => (char :: read.1, read.2) := by
  unfold Printer.escape
  split
  case h_8 plain quote backslash _ _ _ _ _ =>
    split
    · next control =>
        change (Reader.unicode? ('0' :: '0' :: Printer.hexDigit (char.toNat / 16) ::
          Printer.hexDigit (char.toNat % 16) :: rest) >>= _) = _
        rw [unicode?_control control]
        cases read : Reader.string? steps rest <;> simp [read]
    · next visible =>
        rw [List.singleton_append, Reader.string?]
        · rw [if_neg visible]
        · exact quote
        · exact backslash
  all_goals
    cases read : Reader.string? steps rest <;> simp [Reader.string?, Reader.escape?, read]

theorem string?_escaped {text rest : Text} {steps : Nat} (enough : text.length < steps) :
    Reader.string? steps (text.flatMap Printer.escape ++ '"' :: rest) = some (text, rest) := by
  induction text generalizing steps with
  | nil =>
      cases steps with
      | zero => cases enough
      | succ steps => rfl
  | cons char text inductionHypothesis =>
      cases steps with
      | zero => cases enough
      | succ steps =>
          rw [List.flatMap_cons, List.append_assoc, string?_escape_append,
            inductionHypothesis (Nat.lt_of_succ_lt_succ enough)]
          rfl

theorem quote_append (text rest : Text) :
    Printer.quote text ++ rest = '"' :: (text.flatMap Printer.escape ++ '"' :: rest) := by
  simp [Printer.quote]

theorem length_pos_escape (char : Char) : 0 < (Printer.escape char).length := by
  unfold Printer.escape
  split
  case h_8 => split <;> exact Nat.zero_lt_succ _
  all_goals exact Nat.zero_lt_succ _

/-- Every character takes room between the quotes. -/
theorem length_lt_quote (text : Text) : text.length + 1 < (Printer.quote text).length := by
  induction text with
  | nil => decide
  | cons char text inductionHypothesis =>
      have room := length_pos_escape char
      simp only [Printer.quote, List.flatMap_cons, List.length_append, List.length_cons]
        at inductionHypothesis ⊢
      omega

/-! ## Numbers -/

/-- A rest of the text with which a number does not go on. -/
def EndsNumber (rest : Text) : Prop :=
  forall char, rest.head? = some char ->
    char.isDigit = false ∧ char ≠ '.' ∧ char ≠ 'e' ∧ char ≠ 'E'

private theorem isDigit_of_mem_ofNat {number : Nat} {char : Char}
    (listed : char ∈ Text.ofNat number) : char.isDigit = true :=
  Nat.isDigit_of_mem_toDigits (by decide) (by decide) listed

theorem exists_ofNat_eq_cons (number : Nat) :
    exists digit more, Text.ofNat number = digit :: more ∧ digit.isDigit = true := by
  cases written : Text.ofNat number with
  | nil => exact absurd written Nat.toDigits_ne_nil
  | cons digit more => exact ⟨digit, more, rfl, isDigit_of_mem_ofNat (written ▸ List.mem_cons_self)⟩

theorem head?_ofNat_ne_zero {number : Nat} (positive : 0 < number) :
    (Text.ofNat number).head? ≠ some '0' := by
  induction number using Nat.strongRecOn with
  | ind number inductionHypothesis =>
      by_cases small : number < 10
      · rw [Text.ofNat, Nat.toDigits_of_lt_base small]
        interval_cases number <;> decide
      · -- All digits but the last are those of the quotient.
        have split := Nat.toDigits_of_base_le (by decide : 1 < 10) (Nat.le_of_not_lt small)
        have quotient := inductionHypothesis (number / 10) (by omega) (by omega)
        rw [Text.ofNat, split]
        cases written : Nat.toDigits 10 (number / 10) with
        | nil => exact absurd written Nat.toDigits_ne_nil
        | cons digit more => simpa [Text.ofNat, written] using quotient

theorem isCanonical_ofNat (number : Nat) :
    Numeral.isCanonical ⟨none, Text.ofNat number, none, none⟩ = true := by
  rcases Nat.eq_zero_or_pos number with rfl | positive
  · rfl
  · have leading := head?_ofNat_ne_zero positive
    unfold Numeral.isCanonical
    split
    · next empty => exact absurd empty Nat.toDigits_ne_nil
    · rfl
    · next digit rest written =>
        dsimp only at written
        rw [written, List.head?_cons] at leading
        exact bne_iff_ne.mpr fun same => leading (congrArg some same)

theorem scanSign_ofNat_append (number : Nat) (rest : Text) :
    Numeral.scanSign (Text.ofNat number ++ rest) = (none, Text.ofNat number ++ rest) := by
  rcases exists_ofNat_eq_cons number with ⟨digit, more, written, isDigit⟩
  rw [written]
  unfold Numeral.scanSign
  split
  · next found =>
      cases found
      cases isDigit
  · next found =>
      cases found
      cases isDigit
  · rfl

theorem scan_ofNat_append (number : Nat) {rest : Text} (ends : EndsNumber rest) :
    Numeral.scan (Text.ofNat number ++ rest) = (⟨none, Text.ofNat number, none, none⟩, rest) := by
  have digits : forall char, char ∈ Text.ofNat number -> char.isDigit = true :=
    fun _ => isDigit_of_mem_ofNat
  have taken : (Text.ofNat number ++ rest).takeWhile Char.isDigit = Text.ofNat number := by
    rw [List.takeWhile_append_of_pos digits]
    cases rest with
    | nil => simp
    | cons char rest => simp [(ends char rfl).1]
  have left : (Text.ofNat number ++ rest).dropWhile Char.isDigit = rest := by
    rw [List.dropWhile_append_of_pos digits]
    cases rest with
    | nil => rfl
    | cons char rest => simp [(ends char rfl).1]
  have noFraction : Numeral.scanFraction rest = (none, rest) := by
    unfold Numeral.scanFraction
    split
    · exact absurd rfl (ends _ rfl).2.1
    · rfl
  have noExponent : Numeral.scanExponent rest = (none, rest) := by
    unfold Numeral.scanExponent
    split
    · exact absurd rfl (ends _ rfl).2.2.1
    · exact absurd rfl (ends _ rfl).2.2.2
    · rfl
  simp only [Numeral.scan, scanSign_ofNat_append, taken, left, noFraction, noExponent]

theorem number?_ofNat_append {number : Nat} (held : number < Number.limit) {rest : Text}
    (ends : EndsNumber rest) :
    Reader.number? (Text.ofNat number ++ rest) = some (natural number, rest) := by
  have value : Numeral.natural (Text.ofNat number) = number :=
    Nat.ofDigitChars_toDigits (by decide) (by decide)
  have wellFormed : Number.isWellFormed ⟨none, Text.ofNat number, none, none⟩ = true := by
    simp [Number.isWellFormed, isCanonical_ofNat, Numeral.hasFraction, Numeral.hasPower]
  simp [Reader.number?, scan_ofNat_append number ends, Number.ofNumeral?, wellFormed,
    Number.isInteger, Numeral.isWhole, Numeral.integer, value, held, natural]

/-! ## Values -/

mutual

/-- A value whose text is read back: its numbers are natural ones that can be
held, and its arrays and objects stand at most so many inside one another. -/
def Readable : Nat -> Json -> Prop
  | _, .null => True
  | _, .bool _ => True
  | _, .integer number => exists held : Nat, number = held ∧ held < Number.limit
  | _, .decimal _ => False
  | _, .string _ => True
  | 0, .array _ => False
  | 0, .object _ => False
  | depth + 1, .array items => ReadableItems depth items
  | depth + 1, .object members => ReadableMembers depth members

/-- Every item is readable. -/
def ReadableItems : Nat -> List Json -> Prop
  | _, [] => True
  | depth, item :: items => Readable depth item ∧ ReadableItems depth items

/-- Every member is readable. -/
def ReadableMembers : Nat -> List (Text × Json) -> Prop
  | _, [] => True
  | depth, (_, member) :: members => Readable depth member ∧ ReadableMembers depth members

end

theorem skipSpace_cons {char : Char} (seen : Reader.isSpace char = false) (rest : Text) :
    Reader.skipSpace (char :: rest) = char :: rest := by
  simp [Reader.skipSpace, seen]

theorem skipSpace_newline_append (level : Nat) (rest : Text) :
    Reader.skipSpace (Printer.newline level ++ rest) = Reader.skipSpace rest := by
  have blank : forall char, char ∈ Printer.newline level -> Reader.isSpace char = true := by
    intro char listed
    rcases List.mem_cons.mp listed with rfl | inside
    · rfl
    · rw [List.eq_of_mem_replicate inside]
      rfl
  exact List.dropWhile_append_of_pos blank

/-- The first character of a written value is no space and closes nothing. -/
theorem exists_cons_value (level : Nat) {depth : Nat} {json : Json}
    (readable : Readable depth json) :
    exists char rest, Printer.value level json = char :: rest ∧ Reader.isSpace char = false ∧
      char ≠ ']' := by
  cases json with
  | null => exact ⟨_, _, rfl, by decide, by decide⟩
  | bool value => cases value <;> exact ⟨_, _, rfl, by decide, by decide⟩
  | decimal value => exact readable.elim
  | string text => exact ⟨_, _, rfl, by decide, by decide⟩
  | array items => cases items <;> exact ⟨_, _, rfl, by decide, by decide⟩
  | object members => cases members <;> exact ⟨_, _, rfl, by decide, by decide⟩
  | integer number =>
      rcases readable with ⟨held, rfl, _⟩
      rcases exists_ofNat_eq_cons held with ⟨digit, more, written, isDigit⟩
      refine ⟨digit, more, written, ?_, ?_⟩
      · apply Bool.eq_false_iff.mpr
        simp only [Reader.isSpace, Bool.or_eq_true, beq_iff_eq, ne_eq]
        rintro (((rfl | rfl) | rfl) | rfl) <;> cases isDigit
      · rintro rfl
        cases isDigit

theorem skipSpace_value_append (level : Nat) {depth : Nat} {json : Json}
    (readable : Readable depth json) (rest : Text) :
    Reader.skipSpace (Printer.value level json ++ rest) = Printer.value level json ++ rest := by
  rcases exists_cons_value level readable with ⟨char, more, written, seen, _⟩
  rw [written, List.cons_append, skipSpace_cons seen]

theorem value?_of_integer {number : Nat} (held : number < Number.limit) {rest text : Text}
    (ends : EndsNumber rest) (skipped : Reader.skipSpace text = Text.ofNat number ++ rest)
    (steps depth : Nat) :
    Reader.value? (steps + 1) depth text = some (natural number, rest) := by
  rw [← number?_ofNat_append held ends, ← skipped]
  unfold Reader.value?
  rcases exists_ofNat_eq_cons number with ⟨digit, more, written, isDigit⟩
  rw [written, List.cons_append] at skipped
  rw [skipped]
  split
  case h_7 => rfl
  all_goals
    next same =>
      rw [(List.cons.inj same).1] at isDigit
      cases isDigit

theorem endsNumber_laterItems (level outer : Nat) (items : List Json) (rest : Text) :
    EndsNumber (Printer.laterItems level items ++ (Printer.newline outer ++ ']' :: rest)) := by
  intro char first
  cases items <;> cases first <;> decide

theorem endsNumber_laterMembers (level outer : Nat) (members : List (Text × Json)) (rest : Text) :
    EndsNumber (Printer.laterMembers level members ++ (Printer.newline outer ++ '}' :: rest)) := by
  intro char first
  rcases members with _ | ⟨⟨key, member⟩, members⟩ <;> cases first <;> decide

/-! ## Arrays and objects -/

/-- Items as they are written one behind the other, without a comma in front. -/
def writtenItems (level : Nat) : List Json -> Text
  | [] => []
  | item :: items => Printer.value level item ++ Printer.laterItems level items

/-- Members as they are written one behind the other. -/
def writtenMembers (level : Nat) : List (Text × Json) -> Text
  | [] => []
  | (key, member) :: members =>
      Printer.quote key ++ ':' :: ' ' :: (Printer.value level member ++
        Printer.laterMembers level members)

theorem skipSpace_writtenItems_append (level : Nat) {depth : Nat} {item : Json}
    (readable : Readable depth item) (items : List Json) (rest : Text) :
    Reader.skipSpace (writtenItems level (item :: items) ++ rest) =
      writtenItems level (item :: items) ++ rest := by
  rw [writtenItems, List.append_assoc, skipSpace_value_append level readable]

theorem skipSpace_writtenMembers_append (level : Nat) (key : Text) (member : Json)
    (members : List (Text × Json)) (rest : Text) :
    Reader.skipSpace (writtenMembers level ((key, member) :: members) ++ rest) =
      writtenMembers level ((key, member) :: members) ++ rest := by
  rw [writtenMembers, quote_append]
  exact skipSpace_cons rfl _

/-- An array that holds something is read by its items. -/
theorem value?_of_items {text rest : Text} {item : Json} {items : List Json}
    {level steps depth : Nat} (readable : Readable depth item)
    (skipped : Reader.skipSpace text = Printer.value level (.array (item :: items)) ++ rest)
    (read : Reader.items? steps depth (writtenItems (level + 1) (item :: items) ++
      (Printer.newline level ++ ']' :: rest)) = some (item :: items, rest)) :
    Reader.value? (steps + 1) (depth + 1) text = some (.array (item :: items), rest) := by
  have opened : Reader.skipSpace text = '[' :: (Printer.newline (level + 1) ++
      (writtenItems (level + 1) (item :: items) ++ (Printer.newline level ++ ']' :: rest))) := by
    simp [skipped, Printer.value, writtenItems]
  have inner := skipSpace_writtenItems_append (level + 1) readable items
    (Printer.newline level ++ ']' :: rest)
  rw [← skipSpace_newline_append (level + 1)] at inner
  rcases exists_cons_value (level + 1) readable with ⟨char, more, written, _, nonempty⟩
  rw [writtenItems, written, List.append_assoc, List.cons_append] at opened inner read
  simp [Reader.value?, opened, inner, nonempty, read]

/-- An object that holds something is read by its members. -/
theorem value?_of_members {text rest key : Text} {member : Json} {members : List (Text × Json)}
    {level steps depth : Nat}
    (skipped : Reader.skipSpace text =
      Printer.value level (.object ((key, member) :: members)) ++ rest)
    (read : Reader.members? steps depth (writtenMembers (level + 1) ((key, member) :: members) ++
      (Printer.newline level ++ '}' :: rest)) = some ((key, member) :: members, rest)) :
    Reader.value? (steps + 1) (depth + 1) text = some (.object ((key, member) :: members), rest) := by
  have opened : Reader.skipSpace text = '{' :: (Printer.newline (level + 1) ++
      (writtenMembers (level + 1) ((key, member) :: members) ++
        (Printer.newline level ++ '}' :: rest))) := by
    simp [skipped, Printer.value, writtenMembers]
  have inner := skipSpace_writtenMembers_append (level + 1) key member members
    (Printer.newline level ++ '}' :: rest)
  rw [← skipSpace_newline_append (level + 1)] at inner
  simp only [writtenMembers, quote_append, List.cons_append, List.append_assoc]
    at opened inner read
  simp [Reader.value?, opened, inner, read]

theorem items?_of_last {text after rest : Text} {item : Json} {steps depth : Nat}
    (read : Reader.value? steps depth text = some (item, after))
    (closes : Reader.skipSpace after = ']' :: rest) :
    Reader.items? (steps + 1) depth text = some ([item], rest) := by
  simp [Reader.items?, read, closes]

theorem items?_of_comma {text after later rest : Text} {item : Json} {items : List Json}
    {steps depth : Nat} (read : Reader.value? steps depth text = some (item, after))
    (goesOn : Reader.skipSpace after = ',' :: later)
    (readLater : Reader.items? steps depth later = some (items, rest)) :
    Reader.items? (steps + 1) depth text = some (item :: items, rest) := by
  simp [Reader.items?, read, goesOn, readLater]

section Members

variable {text key inner after later rest : Text} {member : Json} {members : List (Text × Json)}
  {steps depth : Nat}

theorem members?_of_last
    (skipped : Reader.skipSpace text = Printer.quote key ++ ':' :: inner)
    (enough : key.length < steps)
    (read : Reader.value? steps depth inner = some (member, after))
    (closes : Reader.skipSpace after = '}' :: rest) :
    Reader.members? (steps + 1) depth text = some ([(key, member)], rest) := by
  rw [quote_append] at skipped
  have colon : Reader.skipSpace (':' :: inner) = ':' :: inner := skipSpace_cons rfl inner
  simp [Reader.members?, skipped, string?_escaped enough, colon, read, closes]

theorem members?_of_comma
    (skipped : Reader.skipSpace text = Printer.quote key ++ ':' :: inner)
    (enough : key.length < steps)
    (read : Reader.value? steps depth inner = some (member, after))
    (goesOn : Reader.skipSpace after = ',' :: later)
    (readLater : Reader.members? steps depth later = some (members, rest)) :
    Reader.members? (steps + 1) depth text = some ((key, member) :: members, rest) := by
  rw [quote_append] at skipped
  have colon : Reader.skipSpace (':' :: inner) = ':' :: inner := skipSpace_cons rfl inner
  simp [Reader.members?, skipped, string?_escaped enough, colon, read, goesOn, readLater]

end Members

mutual

/-- A written value is read, whatever stands behind it.  One step is for the
value itself, and the steps inside it are paid for by its text. -/
theorem value?_of_skipSpace (json : Json) (level depth steps : Nat) (text rest : Text)
    (readable : Readable depth json)
    (skipped : Reader.skipSpace text = Printer.value level json ++ rest)
    (enough : (Printer.value level json).length < steps) (ends : EndsNumber rest) :
    Reader.value? steps depth text = some (json, rest) := by
  rcases steps with _ | steps
  · cases enough
  cases json with
  | null => simp [Reader.value?, skipped, Printer.value]
  | bool value => cases value <;> simp [Reader.value?, skipped, Printer.value]
  | decimal value => exact readable.elim
  | integer number =>
      rcases readable with ⟨held, rfl, small⟩
      exact value?_of_integer small ends skipped steps depth
  | string content =>
      have short := length_lt_quote content
      rw [Printer.value] at skipped enough
      rw [quote_append] at skipped
      simp [Reader.value?, skipped, string?_escaped (by omega : content.length < steps)]
  | array items =>
      rcases depth with _ | depth
      · exact readable.elim
      · rcases items with _ | ⟨item, items⟩
        · have closing : Reader.isSpace ']' = false := rfl
          simp [Reader.value?, skipped, Printer.value, skipSpace_cons closing]
        · refine value?_of_items readable.1 skipped ?_
          apply items?_of_skipSpace (item :: items) (level + 1) level depth steps _ rest readable
          · exact List.cons_ne_nil item items
          · exact skipSpace_writtenItems_append (level + 1) readable.1 items _
          · simp only [Printer.value, writtenItems, List.length_append, List.length_cons] at enough ⊢
            omega
  | object members =>
      rcases depth with _ | depth
      · exact readable.elim
      · rcases members with _ | ⟨⟨key, member⟩, members⟩
        · have closing : Reader.isSpace '}' = false := rfl
          simp [Reader.value?, skipped, Printer.value, skipSpace_cons closing]
        · refine value?_of_members skipped ?_
          apply members?_of_skipSpace ((key, member) :: members) (level + 1) level depth steps _
            rest readable
          · exact List.cons_ne_nil _ members
          · exact skipSpace_writtenMembers_append (level + 1) key member members _
          · simp only [Printer.value, writtenMembers, List.length_append, List.length_cons]
              at enough ⊢
            omega

/-- The items of a written array are read up to its end. -/
theorem items?_of_skipSpace (items : List Json) (level outer depth steps : Nat)
    (text rest : Text) (readable : ReadableItems depth items) (nonempty : items ≠ [])
    (skipped : Reader.skipSpace text =
      writtenItems level items ++ (Printer.newline outer ++ ']' :: rest))
    (enough : (writtenItems level items).length + 1 < steps) :
    Reader.items? steps depth text = some (items, rest) := by
  rcases steps with _ | steps
  · cases enough
  rcases items with _ | ⟨item, items⟩
  · exact absurd rfl nonempty
  rw [writtenItems, List.append_assoc] at skipped
  rw [writtenItems, List.length_append] at enough
  have read := value?_of_skipSpace item level depth steps text _ readable.1 skipped (by omega)
    (endsNumber_laterItems level outer items rest)
  rcases items with _ | ⟨second, items⟩
  · exact items?_of_last read (skipSpace_newline_append outer (']' :: rest))
  · simp only [Printer.laterItems, List.append_assoc, List.cons_append, List.length_cons,
      List.length_append] at read enough
    refine items?_of_comma read rfl ?_
    apply items?_of_skipSpace (second :: items) level outer depth steps _ rest readable.2
    · exact List.cons_ne_nil second items
    · rw [skipSpace_newline_append, ← List.append_assoc]
      exact skipSpace_writtenItems_append level readable.2.1 items _
    · rw [writtenItems, List.length_append]
      omega

/-- The members of a written object are read up to its end. -/
theorem members?_of_skipSpace (members : List (Text × Json)) (level outer depth steps : Nat)
    (text rest : Text) (readable : ReadableMembers depth members) (nonempty : members ≠ [])
    (skipped : Reader.skipSpace text =
      writtenMembers level members ++ (Printer.newline outer ++ '}' :: rest))
    (enough : (writtenMembers level members).length + 1 < steps) :
    Reader.members? steps depth text = some (members, rest) := by
  rcases steps with _ | steps
  · cases enough
  rcases members with _ | ⟨⟨key, member⟩, members⟩
  · exact absurd rfl nonempty
  have short := length_lt_quote key
  simp only [writtenMembers, List.append_assoc, List.cons_append, List.length_append,
    List.length_cons] at skipped enough
  have spaced : Reader.skipSpace (' ' :: (Printer.value level member ++
      (Printer.laterMembers level members ++ (Printer.newline outer ++ '}' :: rest)))) = _ :=
    skipSpace_value_append level readable.1 _
  have read := value?_of_skipSpace member level depth steps _ _ readable.1 spaced (by omega)
    (endsNumber_laterMembers level outer members rest)
  rcases members with _ | ⟨⟨nextKey, next⟩, members⟩
  · exact members?_of_last skipped (by omega) read (skipSpace_newline_append outer ('}' :: rest))
  · simp only [Printer.laterMembers, List.append_assoc, List.cons_append, List.length_cons,
      List.length_append] at skipped read enough
    refine members?_of_comma skipped (by omega) read rfl ?_
    apply members?_of_skipSpace ((nextKey, next) :: members) level outer depth steps _ rest
      readable.2
    · exact List.cons_ne_nil _ members
    · have written := skipSpace_writtenMembers_append level nextKey next members
        (Printer.newline outer ++ '}' :: rest)
      simpa [skipSpace_newline_append, writtenMembers] using written
    · simp only [writtenMembers, List.length_append, List.length_cons]
      omega

end

/-- A written text is well formed, and reading it gives the value back.  Space
may follow it. -/
theorem ofText?_render_append {json : Json} (readable : Readable Reader.maxDepth json)
    {rest : Text} (ends : EndsNumber rest) (space : Reader.skipSpace rest = []) :
    ofText? (json.render ++ rest) = some json := by
  have enough : json.render.length < (json.render ++ rest).length + 1 := by
    rw [List.length_append]
    omega
  have read := value?_of_skipSpace json 0 Reader.maxDepth _ (json.render ++ rest) rest readable
    (skipSpace_value_append 0 readable rest) enough ends
  rw [ofText?, read]
  simp [space]

theorem ofText?_render {json : Json} (readable : Readable Reader.maxDepth json) :
    ofText? json.render = some json := by
  have ends : EndsNumber [] := nofun
  have read := ofText?_render_append readable ends rfl
  rwa [List.append_nil] at read

end Json
end SongPath
