import SongPath.Match
import SongPath.Proofs.PathNames

/-!
# Separators

Names can be written as a path in many ways: with either slash, with one or more
of them between neighbours, and with any number in front and behind.  Cutting
gives the names back from each of these spellings, and every path that has a
name is a spelling of its names.  So neither a path nor a specification can tell
by its separators anything else than where a name ends.

The extension rules see the last name only.  What a path loses of it is stated
here without the search for its last dot.
-/

namespace SongPath
namespace Path

/-- A text of separators only, possibly empty. -/
def IsSeparators (run : Text) : Prop :=
  forall char, char ∈ run -> isSeparator char = true

/-- Names in a row, the first of them in front.  Separators stand between two
neighbours, and behind the last name there may be some. -/
inductive SpellsFrom : List Text -> Text -> Prop where
  | last {name behind : Text} :
      IsName name -> IsSeparators behind -> SpellsFrom [name] (name ++ behind)
  | cons {name between rest : Text} {names : List Text} :
      IsName name -> between ≠ [] -> IsSeparators between -> SpellsFrom names rest ->
      SpellsFrom (name :: names) (name ++ (between ++ rest))

/-- The path consists of the names and of separators, which may stand in front
as well. -/
def Spells (parts : List Text) (path : Text) : Prop :=
  exists front rest, IsSeparators front ∧ SpellsFrom parts rest ∧ path = front ++ rest

/-! ## Reading a spelling -/

theorem names_separators_append {front : Text} (separators : IsSeparators front) (rest : Text) :
    names (front ++ rest) = names rest := by
  induction front with
  | nil => rfl
  | cons char front inductionHypothesis =>
      rcases List.forall_mem_cons.mp separators with ⟨first, others⟩
      rw [List.cons_append, names_separator_cons _ first, inductionHypothesis others]

theorem names_of_separators {run : Text} (separators : IsSeparators run) : names run = [] := by
  have empty := names_separators_append separators []
  rw [List.append_nil] at empty
  exact empty

/-- A name ends where a separator follows, and one separator does it. -/
theorem names_append_separators {name between : Text} (isName : IsName name)
    (nonempty : between ≠ []) (separators : IsSeparators between) (rest : Text) :
    names (name ++ (between ++ rest)) = name :: names rest := by
  cases between with
  | nil => exact absurd rfl nonempty
  | cons char between =>
      rcases List.forall_mem_cons.mp separators with ⟨first, others⟩
      rw [List.cons_append, names_append_separator _ _ first, names_of_name isName.1 isName.2,
        names_separators_append others]
      rfl

theorem names_of_spellsFrom {parts : List Text} {rest : Text} (spells : SpellsFrom parts rest) :
    names rest = parts := by
  induction spells with
  | @last name behind isName separators =>
      cases behind with
      | nil =>
          rw [List.append_nil]
          exact names_of_name isName.1 isName.2
      | cons char behind =>
          have cut := names_append_separators isName (List.cons_ne_nil _ _) separators []
          rw [List.append_nil] at cut
          exact cut
  | cons isName nonempty separators _ inductionHypothesis =>
      rw [names_append_separators isName nonempty separators, inductionHypothesis]

theorem SpellsFrom.parts_ne_nil {parts : List Text} {rest : Text}
    (spells : SpellsFrom parts rest) : parts ≠ [] := by
  cases spells with
  | last _ _ => exact List.cons_ne_nil _ _
  | cons _ _ _ _ => exact List.cons_ne_nil _ _

/-! ## Every path is a spelling -/

/-- A character in front of the first name joins that name. -/
theorem SpellsFrom.grow {parts : List Text} {rest : Text} {char : Char}
    (plain : isSeparator char = false) (spells : SpellsFrom parts rest) :
    exists longer, SpellsFrom longer (char :: rest) := by
  have isName : forall {name : Text}, IsName name -> IsName (char :: name) := by
    intro name named
    exact ⟨List.cons_ne_nil _ _, List.forall_mem_cons.mpr ⟨plain, named.2⟩⟩
  cases spells with
  | last named separators => exact ⟨_, .last (isName named) separators⟩
  | cons named nonempty separators later =>
      exact ⟨_, .cons (isName named) nonempty separators later⟩

theorem isSeparators_or_exists_spells (path : Text) :
    IsSeparators path ∨ exists parts, Spells parts path := by
  induction path with
  | nil => exact Or.inl (List.forall_mem_nil _)
  | cons char path inductionHypothesis =>
      cases kind : isSeparator char with
      | true =>
          rcases inductionHypothesis with separators | ⟨parts, front, rest, separators, spells, rfl⟩
          · exact Or.inl (List.forall_mem_cons.mpr ⟨kind, separators⟩)
          · exact Or.inr ⟨parts, char :: front, rest,
              List.forall_mem_cons.mpr ⟨kind, separators⟩, spells, rfl⟩
      | false =>
          have isName : IsName [char] :=
            ⟨List.cons_ne_nil _ _, List.forall_mem_singleton.mpr kind⟩
          have none : IsSeparators [] := List.forall_mem_nil _
          rcases inductionHypothesis with separators | ⟨parts, front, rest, separators, spells, rfl⟩
          · exact Or.inr ⟨_, [], _, none, .last isName separators, rfl⟩
          · -- Without a separator between them the character belongs to the first name.
            cases front with
            | nil =>
                rcases spells.grow kind with ⟨longer, spellsLonger⟩
                exact Or.inr ⟨longer, [], _, none, spellsLonger, rfl⟩
            | cons first front =>
                exact Or.inr ⟨_, [], _, none,
                  .cons isName (List.cons_ne_nil _ _) separators spells, rfl⟩

/-- The spellings of some names are the paths that are cut into these names. -/
theorem spells_iff (parts : List Text) (path : Text) :
    Spells parts path <-> parts ≠ [] ∧ names path = parts := by
  have reads : forall {parts : List Text},
      Spells parts path -> parts ≠ [] ∧ names path = parts := by
    rintro parts ⟨front, rest, separators, spells, rfl⟩
    rw [names_separators_append separators, names_of_spellsFrom spells]
    exact ⟨spells.parts_ne_nil, rfl⟩
  constructor
  · exact reads
  · rintro ⟨nonempty, cut⟩
    rcases isSeparators_or_exists_spells path with separators | ⟨others, spells⟩
    · rw [names_of_separators separators] at cut
      exact absurd cut.symm nonempty
    · rw [← cut, (reads spells).2]
      exact spells

/-! ## The last name of a path -/

/-- A file name beside what is left without its extension.  Everything from the
last dot on is lost, unless that dot stands in front. -/
inductive IsStem : Text -> Text -> Prop where
  | cut {before tail : Text} :
      before ≠ [] -> '.' ∉ tail -> IsStem (before ++ '.' :: tail) before
  | hidden {tail : Text} : '.' ∉ tail -> IsStem ('.' :: tail) ('.' :: tail)
  | undotted {file : Text} : '.' ∉ file -> IsStem file file

theorem stem_hidden {tail : Text} (undotted : '.' ∉ tail) : stem ('.' :: tail) = '.' :: tail := by
  have split : splitLastDot? ('.' :: tail) = some ([], tail) := splitLastDot?_append [] undotted
  rw [stem, split]

theorem stem_undotted {file : Text} (undotted : '.' ∉ file) : stem file = file := by
  rw [stem, (splitLastDot?_eq_none_iff file).mpr undotted]

theorem isStem_stem (file : Text) : IsStem file (stem file) := by
  cases split : splitLastDot? file with
  | none =>
      have undotted := (splitLastDot?_eq_none_iff file).mp split
      rw [stem_undotted undotted]
      exact .undotted undotted
  | some parts =>
      rcases parts with ⟨before, tail⟩
      have undotted := undotted_of_splitLastDot? split
      rw [eq_append_of_splitLastDot? split]
      cases before with
      | nil =>
          rw [List.nil_append, stem_hidden undotted]
          exact .hidden undotted
      | cons first before =>
          rw [stem_append_extension (List.cons_ne_nil first before) undotted]
          exact .cut (List.cons_ne_nil first before) undotted

theorem isStem_iff (file found : Text) : IsStem file found <-> found = stem file := by
  constructor
  · intro isStem
    cases isStem with
    | cut nonempty undotted => exact (stem_append_extension nonempty undotted).symm
    | hidden undotted => exact (stem_hidden undotted).symm
    | undotted undotted => exact (stem_undotted undotted).symm
  · rintro rfl
    exact isStem_stem file

end Path

/-- However names are written as a path, the last of them is the file, without
its extension, and the others are the folders.  As specifications all spellings
of the same names compile alike, and as paths they are matched alike. -/
theorem ofPath_of_spells {folders : List Text} {last path : Text}
    (spells : Path.Spells (folders ++ [last]) path) :
    (exists file, (forall found, Path.IsStem last found <-> found = file) ∧
      Candidate.ofPath path = ⟨folders, file⟩) ∧
    forall other, Path.Spells (folders ++ [last]) other ->
      Pattern.compile other = Pattern.compile path ∧
      forall pattern : Pattern, pattern.matchPath other = pattern.matchPath path := by
  have names := ((Path.spells_iff _ _).mp spells).2
  have split := Candidate.ofPath_of_names names
  refine ⟨⟨_, Path.isStem_iff last, split⟩, ?_⟩
  intro other otherSpells
  have otherNames := ((Path.spells_iff _ _).mp otherSpells).2
  constructor
  · rw [Pattern.compile, Pattern.compile, otherNames, names]
  · intro pattern
    rw [Pattern.matchPath, Pattern.matchPath, Candidate.ofPath_of_names otherNames, split]

/-- Mixed slashes, doubled and at both ends, around names that serve as a path and
as a specification. -/
theorem ofPath_of_spells_mixed :
    exists path other,
      path = "\\\\ABBA/\\Live//\x7btitle\x7d.tar.gz/".toList ∧
      other = "ABBA/Live\\\x7btitle\x7d.tar.gz".toList ∧
      Path.Spells ["ABBA".toList, "Live".toList, "\x7btitle\x7d.tar.gz".toList] path ∧
      Candidate.ofPath path = ⟨["ABBA".toList, "Live".toList], "\x7btitle\x7d.tar".toList⟩ ∧
      Pattern.compile path = Pattern.compile other := by
  have spells : Path.Spells (["ABBA".toList, "Live".toList] ++ ["\x7btitle\x7d.tar.gz".toList])
      "\\\\ABBA/\\Live//\x7btitle\x7d.tar.gz/".toList :=
    (Path.spells_iff _ _).mpr (by decide +kernel)
  have otherSpells : Path.Spells (["ABBA".toList, "Live".toList] ++
      ["\x7btitle\x7d.tar.gz".toList]) "ABBA/Live\\\x7btitle\x7d.tar.gz".toList :=
    (Path.spells_iff _ _).mpr (by decide +kernel)
  rcases ofPath_of_spells spells with ⟨⟨file, isFile, split⟩, alike⟩
  have undotted : '.' ∉ "gz".toList := by decide +kernel
  have nonempty : "\x7btitle\x7d.tar".toList ≠ [] := by decide +kernel
  have isStem : Path.IsStem "\x7btitle\x7d.tar.gz".toList "\x7btitle\x7d.tar".toList :=
    .cut nonempty undotted
  rw [← (isFile _).mp isStem] at split
  exact ⟨_, _, rfl, rfl, spells, split, (alike _ otherSpells).1.symm⟩

end SongPath
