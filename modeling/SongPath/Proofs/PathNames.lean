import SongPath.Path

/-!
# Names of a path

Cutting a path gives names only, and names that are joined by slashes come back
as they were.  An extension without a dot of its own is exactly what the stem
of a file name loses.
-/

namespace SongPath
namespace Path

/-- A text that can be one name of a path. -/
def IsName (text : Text) : Prop :=
  text ≠ [] ∧ forall char, char ∈ text -> isSeparator char = false

instance (text : Text) : Decidable (IsName text) :=
  @instDecidableAnd _ _ inferInstance
    (List.decidableBAll (fun char => isSeparator char = false) text)

theorem not_of_mem_splitOnP (cuts : Char -> Bool) (text : Text) :
    forall part, part ∈ text.splitOnP cuts ->
      forall char, char ∈ part -> cuts char = false := by
  induction text with
  | nil =>
      intro part listed char member
      rw [List.splitOnP_nil, List.mem_singleton] at listed
      rw [listed] at member
      cases member
  | cons first text inductionHypothesis =>
      intro part listed char member
      rw [List.splitOnP_cons_eq_if_modifyHead] at listed
      split at listed
      · rcases List.mem_cons.mp listed with rfl | later
        · cases member
        · exact inductionHypothesis part later char member
      · next plain =>
          cases parts : text.splitOnP cuts with
          | nil => exact absurd parts (List.splitOnP_ne_nil cuts text)
          | cons head tail =>
              rw [parts] at listed inductionHypothesis
              rcases List.mem_cons.mp listed with rfl | later
              · rcases List.mem_cons.mp member with rfl | inner
                · exact Bool.eq_false_iff.mpr plain
                · exact inductionHypothesis head List.mem_cons_self char inner
              · exact inductionHypothesis part (List.mem_cons_of_mem head later) char member

theorem isName_of_mem_names {path name : Text} (listed : name ∈ names path) : IsName name := by
  rcases List.mem_filter.mp listed with ⟨part, visible⟩
  constructor
  · intro empty
    rw [empty] at visible
    cases visible
  · exact not_of_mem_splitOnP isSeparator path name part

theorem isName_of_names {path last : Text} {parts : List Text}
    (found : names path = parts ++ [last]) :
    (forall part, part ∈ parts -> IsName part) ∧ IsName last := by
  have isName : forall part, part ∈ parts ++ [last] -> IsName part := by
    intro part listed
    rw [← found] at listed
    exact isName_of_mem_names listed
  rcases List.forall_mem_append.mp isName with ⟨inside, atEnd⟩
  exact ⟨inside, atEnd last List.mem_cons_self⟩

/-- Names joined by slashes come back in order. -/
theorem names_intercalate {parts : List Text} (each : forall part, part ∈ parts -> IsName part) :
    names (List.intercalate ['/'] parts) = parts := by
  induction parts with
  | nil => rfl
  | cons first parts inductionHypothesis =>
      have one := each first List.mem_cons_self
      cases parts with
      | nil =>
          rw [List.intercalate_singleton]
          exact names_of_name one.1 one.2
      | cons second parts =>
          rw [List.intercalate_cons_cons, List.append_assoc, List.singleton_append,
            names_append_separator _ _ rfl, names_of_name one.1 one.2,
            inductionHypothesis fun part later => each part (List.mem_cons_of_mem first later)]
          rfl

/-- Names with a slash behind each but the last come back in order. -/
theorem names_flatMap_slash {parts : List Text} (each : forall part, part ∈ parts -> IsName part)
    {last : Text} (isName : IsName last) :
    names ((parts.flatMap fun part => part ++ ['/']) ++ last) = parts ++ [last] := by
  induction parts with
  | nil => exact names_of_name isName.1 isName.2
  | cons part parts inductionHypothesis =>
      rcases List.forall_mem_cons.mp each with ⟨isFirst, others⟩
      rw [List.flatMap_cons, List.append_assoc, List.append_assoc, List.singleton_append,
        names_append_separator _ _ rfl, names_of_name isFirst.1 isFirst.2,
        inductionHypothesis others]
      rfl

/-- A name that stands in a path between two texts: next to it there is a
separator or nothing on either side. -/
structure Stands (name path before after : Text) : Prop where
  written : path = before ++ name ++ after
  front : forall char, before.getLast? = some char -> isSeparator char = true
  behind : forall char, after.head? = some char -> isSeparator char = true

/-- Another text in the place of the name gives its own names there. -/
theorem Stands.names_replace {name path before after : Text}
    (stands : Stands name path before after) (other : Text) :
    names (before ++ other ++ after) = names before ++ (names other ++ names after) := by
  have inFront : forall rest, names (before ++ rest) = names before ++ names rest := by
    intro rest
    cases last : before.getLast? with
    | none =>
        rw [List.getLast?_eq_none_iff.mp last]
        rfl
    | some char =>
        have separator := stands.front char last
        rcases List.getLast?_eq_some_iff.mp last with ⟨first, rfl⟩
        rw [List.append_assoc, List.singleton_append, names_append_separator _ _ separator,
          names_append_separator _ _ separator]
        exact congrArg (· ++ names rest) (List.append_nil _).symm
  have behind : forall text, names (text ++ after) = names text ++ names after := by
    intro text
    cases split : after with
    | nil => rw [List.append_nil]; exact (List.append_nil _).symm
    | cons char rest =>
        have separator := stands.behind char (congrArg List.head? split)
        rw [names_append_separator _ _ separator, names_separator_cons _ separator]
  rw [List.append_assoc, inFront, behind]

/-- What stands behind a separator stands in the whole path as well. -/
theorem Stands.append_separator {name path before after : Text}
    (stands : Stands name path before after) (first : Text) {char : Char}
    (separator : isSeparator char = true) :
    Stands name (first ++ char :: path) (first ++ char :: before) after := by
  refine ⟨?_, ?_, stands.behind⟩
  · rw [stands.written, List.append_assoc, List.append_assoc, List.append_assoc]
    rfl
  · intro last found
    rw [List.getLast?_append, List.getLast?_cons] at found
    cases inside : before.getLast? with
    | none =>
        rw [inside] at found
        cases found
        exact separator
    | some other =>
        rw [inside] at found
        cases found
        exact stands.front other inside

/-- Every name stands somewhere in its path. -/
theorem exists_stands_of_mem_names {name path : Text} (listed : name ∈ names path) :
    exists before after, Stands name path before after := by
  -- `start` is the part that has been read of the first name.
  have reading : forall rest start : Text,
      (forall char, char ∈ start -> isSeparator char = false) -> name ∈ names (start ++ rest) ->
      exists before after, Stands name (start ++ rest) before after := by
    intro rest
    induction rest with
    | nil =>
        intro start plain listed
        rw [List.append_nil] at listed ⊢
        by_cases empty : start = []
        · rw [empty] at listed
          cases listed
        · rw [names_of_name empty plain] at listed
          cases List.mem_singleton.mp listed
          exact ⟨[], [], (List.append_nil _).symm, nofun, nofun⟩
    | cons char rest inductionHypothesis =>
        intro start plain listed
        cases separator : isSeparator char with
        | false =>
            have longer : forall inner, inner ∈ start ++ [char] -> isSeparator inner = false :=
              List.forall_mem_append.mpr ⟨plain, List.forall_mem_singleton.mpr separator⟩
            have found := inductionHypothesis (start ++ [char]) longer
            rw [List.append_assoc, List.singleton_append] at found
            exact found listed
        | true =>
            rw [names_append_separator _ _ separator] at listed
            rcases List.mem_append.mp listed with first | later
            · by_cases empty : start = []
              · rw [empty] at first
                cases first
              · rw [names_of_name empty plain] at first
                cases List.mem_singleton.mp first
                refine ⟨[], char :: rest, rfl, nofun, ?_⟩
                intro next found
                cases found
                exact separator
            · rcases inductionHypothesis [] (List.forall_mem_nil _) later with
                ⟨before, after, stands⟩
              exact ⟨_, after, stands.append_separator start separator⟩
  exact reading path [] (List.forall_mem_nil _) listed

/-- The extension is what stands behind the last dot. -/
theorem stem_append_extension {file extension : Text} (nonempty : file ≠ [])
    (undotted : '.' ∉ extension) : stem (file ++ '.' :: extension) = file := by
  rw [stem, splitLastDot?_append file undotted]
  cases file with
  | nil => exact absurd rfl nonempty
  | cons first rest => rfl

theorem eq_append_of_splitLastDot? {file before tail : Text}
    (found : splitLastDot? file = some (before, tail)) : file = before ++ '.' :: tail := by
  induction file generalizing before tail with
  | nil => cases found
  | cons first rest inductionHypothesis =>
      rw [splitLastDot?] at found
      cases later : splitLastDot? rest with
      | some parts =>
          rw [later] at found
          cases found
          exact congrArg (first :: ·) (inductionHypothesis later)
      | none =>
          rw [later] at found
          by_cases dot : first = '.'
          · rw [if_pos dot] at found
            cases found
            rw [dot]
            rfl
          · rw [if_neg dot] at found
            cases found

theorem undotted_of_splitLastDot? {file before tail : Text}
    (found : splitLastDot? file = some (before, tail)) : '.' ∉ tail := by
  induction file generalizing before tail with
  | nil => cases found
  | cons first rest inductionHypothesis =>
      rw [splitLastDot?] at found
      cases later : splitLastDot? rest with
      | some parts =>
          rw [later] at found
          cases found
          exact inductionHypothesis later
      | none =>
          rw [later] at found
          by_cases dot : first = '.'
          · rw [if_pos dot] at found
            cases found
            exact (splitLastDot?_eq_none_iff rest).mp later
          · rw [if_neg dot] at found
            cases found

/-- Either the extension is what the stem loses, or a dot stands in front of the
name at most. -/
theorem stem_cases (file : Text) :
    (exists tail, '.' ∉ tail ∧ file = stem file ++ '.' :: tail) ∨
      stem file = file ∧
        forall before tail, '.' ∉ tail -> file = before ++ '.' :: tail -> before = [] := by
  unfold stem
  split
  · next first before tail found =>
      exact Or.inl ⟨tail, undotted_of_splitLastDot? found, eq_append_of_splitLastDot? found⟩
  · next found =>
      refine Or.inr ⟨rfl, ?_⟩
      rintro before tail undotted rfl
      rw [splitLastDot?_append before undotted] at found
      cases before with
      | nil => rfl
      | cons first before => exact absurd rfl (found first before tail)

theorem isName_patternStem {file : Text} (isName : IsName file) : IsName (patternStem file) := by
  unfold patternStem
  split
  · next first before tail found =>
      split
      · constructor
        · exact List.cons_ne_nil first before
        · intro char member
          apply isName.2 char
          rw [eq_append_of_splitLastDot? found]
          exact List.mem_append_left _ member
      · exact isName
  · exact isName

end Path

theorem Candidate.ofPath_of_names {folders : List Text} {last path : Text}
    (names : Path.names path = folders ++ [last]) :
    ofPath path = ⟨folders, Path.stem last⟩ := by
  rw [ofPath, names, List.getLast?_concat, List.dropLast_concat]

/-- A path of names with an extension is split into the names and the stem. -/
theorem Candidate.ofPath_intercalate {folders : List Text} {file extension : Text}
    (each : forall folder, folder ∈ folders -> Path.IsName folder) (isName : Path.IsName file)
    (undotted : '.' ∉ extension)
    (plain : forall char, char ∈ extension -> Path.isSeparator char = false) :
    Candidate.ofPath (List.intercalate ['/'] (folders ++ [file ++ '.' :: extension])) =
      ⟨folders, file⟩ := by
  have isLastName : Path.IsName (file ++ '.' :: extension) := by
    constructor
    · exact List.append_ne_nil_of_left_ne_nil isName.1 _
    · intro char member
      rcases List.mem_append.mp member with inFile | behind
      · exact isName.2 char inFile
      · rcases List.mem_cons.mp behind with rfl | inExtension
        · rfl
        · exact plain char inExtension
  have names : Path.names (List.intercalate ['/'] (folders ++ [file ++ '.' :: extension])) =
      folders ++ [file ++ '.' :: extension] := by
    apply Path.names_intercalate
    intro part listed
    rcases List.mem_append.mp listed with folder | last
    · exact each part folder
    · rw [List.mem_singleton.mp last]
      exact isLastName
  rw [Candidate.ofPath_of_names names, Path.stem_append_extension isName.1 undotted]

end SongPath
