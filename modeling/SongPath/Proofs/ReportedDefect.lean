import SongPath.Proofs.PartDefects

/-!
# The reported defect

A specification is refused for the first part in document order that is not
sound, and for the way its folders stand to each other only if all parts are
sound.  Which defects there are across folders is said of the texts of the
folders, as they stand in the specification.  Together with the defects of parts
this is an exact description: a specification is refused for a defect exactly if
the description gives it, so there is never a second candidate.
-/

namespace SongPath
namespace Grammar

/-- The defect across folders.  The first double star must not be beside a star,
and only if it is not, a second one is looked for.  Folders are counted from
zero. -/
inductive FolderDefect {α : Type} (star doubleStar : α) (folders : List α) : Defect -> Prop
  | beside {left right : List α} (split : folders = left ++ doubleStar :: right)
      (first : doubleStar ∉ left) (near : left.getLast? = some star ∨ right.head? = some star) :
      FolderDefect star doubleStar folders (.doubleStarBesideStar left.length)
  | second {left middle right : List α}
      (split : folders = left ++ doubleStar :: (middle ++ doubleStar :: right))
      (first : doubleStar ∉ left) (next : doubleStar ∉ middle)
      (apart : ¬ (left.getLast? = some star ∨ middle.head? = some star)) :
      FolderDefect star doubleStar folders (.secondDoubleStar (left.length + 1 + middle.length))

/-- A part that compiles. -/
def IsSound (place : Place) (part : Text) : Prop :=
  IsPart place part ∧ Fits place part

/-- The defect for which a specification is refused. -/
inductive Reported (spec : Text) : Defect -> Prop
  | empty (nameless : Path.names spec = []) : Reported spec .emptySpecification
  | folder {before after : List Text} {part file : Text} {defect : Defect}
      (names : Path.names spec = (before ++ part :: after) ++ [file])
      (sound : forall earlier, earlier ∈ before -> IsSound .folder earlier)
      (first : FirstDefect .folder part defect) : Reported spec defect
  | file {folders : List Text} {file : Text} {defect : Defect}
      (names : Path.names spec = folders ++ [file])
      (sound : forall folder, folder ∈ folders -> IsSound .folder folder)
      (first : FirstDefect .file (Path.patternStem file) defect) : Reported spec defect
  | across {folders : List Text} {file : Text} {defect : Defect}
      (names : Path.names spec = folders ++ [file])
      (sound : forall folder, folder ∈ folders -> IsSound .folder folder)
      (fileSound : IsSound .file (Path.patternStem file))
      (rule : FolderDefect ['*'] ['*', '*'] folders defect) : Reported spec defect

/-! ## Folders and their texts -/

section Written

variable {α β : Type} (change : α -> β)

/-- Among the items only one is changed to what it is changed to. -/
def Distinguishes (item : α) (items : List α) : Prop :=
  forall other, other ∈ items -> change other = change item -> other = item

variable {change} {item : α} {items : List α}

theorem Distinguishes.mem_map_iff (only : Distinguishes change item items) :
    change item ∈ items.map change <-> item ∈ items := by
  constructor
  · intro listed
    rcases List.mem_map.mp listed with ⟨other, member, same⟩
    rw [← only other member same]
    exact member
  · exact List.mem_map_of_mem

theorem Distinguishes.getLast?_map_iff (only : Distinguishes change item items) :
    (items.map change).getLast? = some (change item) <-> items.getLast? = some item := by
  rw [List.getLast?_map, Option.map_eq_some_iff]
  constructor
  · rintro ⟨other, last, same⟩
    rw [last, only other (List.mem_of_getLast? last) same]
  · intro last
    exact ⟨item, last, rfl⟩

theorem Distinguishes.head?_map_iff (only : Distinguishes change item items) :
    (items.map change).head? = some (change item) <-> items.head? = some item := by
  rw [List.head?_map, Option.map_eq_some_iff]
  constructor
  · rintro ⟨other, first, same⟩
    rw [first, only other (List.mem_of_mem_head? first) same]
  · intro first
    exact ⟨item, first, rfl⟩

theorem Distinguishes.append {before after : List α}
    (only : Distinguishes change item (before ++ after)) :
    Distinguishes change item before ∧ Distinguishes change item after :=
  ⟨fun other listed => only other (List.mem_append_left after listed),
    fun other listed => only other (List.mem_append_right before listed)⟩

theorem Distinguishes.cons {first : α} (only : Distinguishes change item (first :: items)) :
    (change first = change item -> first = item) ∧ Distinguishes change item items :=
  ⟨only first List.mem_cons_self, fun other listed => only other (List.mem_cons_of_mem first listed)⟩

/-- Where the text of an item first stands, the item first stands. -/
theorem Distinguishes.exists_split (only : Distinguishes change item items) {before after : List β}
    (split : items.map change = before ++ change item :: after) :
    exists left right, items = left ++ item :: right ∧ before = left.map change ∧
      after = right.map change := by
  rcases List.map_eq_append_iff.mp split with ⟨left, later, rfl, rfl, behind⟩
  rcases List.map_eq_cons_iff.mp behind with ⟨other, right, rfl, same, rfl⟩
  rw [only.append.2.cons.1 same]
  exact ⟨left, right, rfl, rfl, rfl⟩

/-- The defect across folders can be seen from their texts. -/
theorem folderDefect_map_iff {star doubleStar : α} (onlyStar : Distinguishes change star items)
    (onlyDouble : Distinguishes change doubleStar items) (defect : Defect) :
    FolderDefect (change star) (change doubleStar) (items.map change) defect <->
      FolderDefect star doubleStar items defect := by
  constructor
  · intro rule
    cases rule with
    | beside split first near =>
        rcases onlyDouble.exists_split split with ⟨left, right, rfl, rfl, rfl⟩
        rcases onlyStar.append with ⟨starLeft, starLater⟩
        rw [starLeft.getLast?_map_iff, starLater.cons.2.head?_map_iff] at near
        rw [onlyDouble.append.1.mem_map_iff] at first
        rw [List.length_map]
        exact .beside rfl first near
    | second split first next apart =>
        rcases onlyDouble.exists_split split with ⟨left, later, rfl, rfl, behind⟩
        rcases onlyDouble.append with ⟨doubleLeft, doubleLater⟩
        rcases doubleLater.cons.2.exists_split behind.symm with ⟨middle, right, rfl, rfl, rfl⟩
        rcases onlyStar.append with ⟨starLeft, starLater⟩
        rw [starLeft.getLast?_map_iff, starLater.cons.2.append.1.head?_map_iff] at apart
        rw [doubleLeft.mem_map_iff] at first
        rw [doubleLater.cons.2.append.1.mem_map_iff] at next
        rw [List.length_map, List.length_map]
        exact .second rfl first next apart
  · intro rule
    cases rule with
    | @beside left right split first near =>
        subst split
        rcases onlyStar.append with ⟨starLeft, starLater⟩
        rw [← starLeft.getLast?_map_iff, ← starLater.cons.2.head?_map_iff] at near
        rw [← onlyDouble.append.1.mem_map_iff] at first
        rw [← List.length_map change]
        exact .beside List.map_append first near
    | @second left middle right split first next apart =>
        subst split
        rcases onlyStar.append with ⟨starLeft, starLater⟩
        rcases onlyDouble.append with ⟨doubleLeft, doubleLater⟩
        rw [← starLeft.getLast?_map_iff, ← starLater.cons.2.append.1.head?_map_iff] at apart
        rw [← doubleLeft.mem_map_iff] at first
        rw [← doubleLater.cons.2.append.1.mem_map_iff] at next
        have same : middle.length = (middle.map change).length := (List.length_map change).symm
        rw [← List.length_map change, same]
        exact .second (by rw [List.map_append, List.map_cons, List.map_append, List.map_cons])
          first next apart

end Written

end Grammar

namespace Pattern

open Grammar

theorem folderDefect?_eq_some_iff (folders : List Segment) (defect : Defect) :
    folderDefect? 0 false none folders = some defect <->
      FolderDefect .anyFolder .anyFolders folders defect := by
  constructor
  · intro found
    by_cases listed : .anyFolders ∈ folders
    · rcases List.eq_append_cons_of_mem listed with ⟨left, right, rfl, first⟩
      rw [folderDefect?_unseen_append 0 none first, Option.or_none, Nat.zero_add] at found
      split at found
      · next near =>
          cases found
          exact .beside rfl first near
      · next apart =>
          by_cases again : .anyFolders ∈ right
          · rcases List.eq_append_cons_of_mem again with ⟨middle, last, rfl, next⟩
            rw [folderDefect?_seen_append _ _ next] at found
            cases found
            refine .second rfl first next fun near => apart (near.imp_right fun head => ?_)
            rw [List.head?_append, head]
            rfl
          · rw [(folderDefect?_seen_eq_none_iff _ _ right).mpr again] at found
            cases found
    · rw [(folderDefect?_eq_none_iff folders).mpr (Or.inl listed)] at found
      cases found
  · intro rule
    cases rule with
    | beside split first near =>
        rw [split, folderDefect?_unseen_append 0 none first, Option.or_none, Nat.zero_add,
          if_pos near]
    | @second left middle right split first next apart =>
        have notBeside : ¬ (left.getLast? = some .anyFolder ∨
            (middle ++ .anyFolders :: right).head? = some .anyFolder) := by
          refine fun near => apart (near.imp_right fun head => ?_)
          cases middle with
          | nil => cases head
          | cons segment middle => exact head
        rw [split, folderDefect?_unseen_append 0 none first, Option.or_none, Nat.zero_add,
          if_neg notBeside, folderDefect?_seen_append _ _ next]

/-- Folders that are sound one by one are judged by their texts. -/
theorem folderDefect?_of_read {parts : List Text} {folders : List Segment}
    (isName : forall part, part ∈ parts -> Path.IsName part)
    (read : List.Forall₂ (fun part folder => Segment.ofFolder part = .ok folder) parts folders)
    (defect : Defect) :
    folderDefect? 0 false none folders = some defect <->
      FolderDefect ['*'] ['*', '*'] parts defect := by
  have whole {folder : Segment} (listed : folder ∈ folders) :=
    Segment.render_eq_wildcard_iff isName read listed
  have onlyStar : Distinguishes Segment.render .anyFolder folders :=
    fun _ listed => (whole listed).1.mp
  have onlyDouble : Distinguishes Segment.render .anyFolders folders :=
    fun _ listed => (whole listed).2.mp
  rw [folderDefect?_eq_some_iff, ← folderDefect_map_iff onlyStar onlyDouble,
    Segment.map_render_of_ofFolder isName read]
  rfl

/-! ## Specifications -/

/-- Sound folder parts are read one by one. -/
private theorem exists_read_of_sound {parts : List Text}
    (isName : forall part, part ∈ parts -> Path.IsName part)
    (sound : forall part, part ∈ parts -> IsSound .folder part) :
    exists folders, parts.mapM Segment.ofFolder = .ok folders := by
  have each : forall part, part ∈ parts -> exists folder, Segment.ofFolder part = .ok folder :=
    fun part listed => (exists_ofFolder_iff (isName part listed)).mpr (sound part listed)
  rcases exists_forall₂_of_forall each with ⟨folders, read⟩
  exact ⟨folders, (mapM_eq_ok_iff _ _ _).mpr read⟩

private theorem sound_of_read {parts : List Text}
    (isName : forall part, part ∈ parts -> Path.IsName part)
    (each : forall part, part ∈ parts -> exists folder, Segment.ofFolder part = .ok folder) :
    forall part, part ∈ parts -> IsSound .folder part :=
  fun part listed => (exists_ofFolder_iff (isName part listed)).mp (each part listed)

theorem reported_of_compile {spec : Text} {defect : Defect} (refused : compile spec = .error defect) :
    Reported spec defect := by
  rcases List.eq_nil_or_concat (Path.names spec) with nameless | ⟨parts, last, names⟩
  · rw [compile_of_nameless nameless] at refused
    cases refused
    exact .empty nameless
  · rw [List.concat_eq_append] at names
    rcases Path.isName_of_names names with ⟨isName, isLastName⟩
    have isStemName := Path.isName_patternStem isLastName
    rw [compile_of_parts names, bind_eq_error_iff] at refused
    rcases refused with foldersRefused | ⟨folders, foldersRead, refused⟩
    · rcases (mapM_eq_error_iff _ _ _).mp foldersRefused with
        ⟨before, part, after, rfl, earlier, fails⟩
      rcases List.forall_mem_append.mp isName with ⟨isEarlierName, isLaterName⟩
      have isPartName := isLaterName part List.mem_cons_self
      exact .folder names (sound_of_read isEarlierName earlier)
        ((Segment.ofFolder_eq_error_iff isPartName defect).mp fails)
    · have read := (mapM_eq_ok_iff _ _ _).mp foldersRead
      have sound := sound_of_read isName fun part listed =>
        (exists_of_mem_forall₂ read listed).imp fun _ => And.right
      rcases (bind_eq_error_iff _ _ _).mp refused with fileRefused | ⟨file, fileRead, refused⟩
      · exact .file names sound ((Segment.ofFile_eq_error_iff isStemName defect).mp fileRefused)
      · have fileSound := (exists_ofFile_iff isStemName).mp ⟨file, fileRead⟩
        split at refused
        · next found rule =>
            cases refused
            exact .across names sound fileSound ((folderDefect?_of_read isName read defect).mp rule)
        · cases refused

theorem compile_of_reported {spec : Text} {defect : Defect} (reported : Reported spec defect) :
    compile spec = .error defect := by
  cases reported with
  | empty nameless => exact compile_of_nameless nameless
  | folder names sound first =>
      rcases List.forall_mem_append.mp (Path.isName_of_names names).1 with ⟨isEarlierName, isLaterName⟩
      have isPartName := isLaterName _ List.mem_cons_self
      rw [compile_of_parts names, bind_eq_error_iff, mapM_eq_error_iff]
      refine Or.inl ⟨_, _, _, rfl, ?_, (Segment.ofFolder_eq_error_iff isPartName defect).mpr first⟩
      exact fun part listed =>
        (exists_ofFolder_iff (isEarlierName part listed)).mpr (sound part listed)
  | file names sound first =>
      rcases Path.isName_of_names names with ⟨isName, isLastName⟩
      rcases exists_read_of_sound isName sound with ⟨folders, foldersRead⟩
      rw [compile_of_parts names]
      refine (bind_eq_error_iff _ _ _).mpr (Or.inr ⟨folders, foldersRead, ?_⟩)
      refine (bind_eq_error_iff _ _ _).mpr (Or.inl ?_)
      exact (Segment.ofFile_eq_error_iff (Path.isName_patternStem isLastName) defect).mpr first
  | across names sound fileSound rule =>
      rcases Path.isName_of_names names with ⟨isName, isLastName⟩
      rcases exists_read_of_sound isName sound with ⟨folders, foldersRead⟩
      rcases (exists_ofFile_iff (Path.isName_patternStem isLastName)).mpr fileSound with
        ⟨file, fileRead⟩
      have read := (mapM_eq_ok_iff _ _ _).mp foldersRead
      have found := (folderDefect?_of_read isName read defect).mpr rule
      rw [compile_of_parts names]
      refine (bind_eq_error_iff _ _ _).mpr (Or.inr ⟨folders, foldersRead, ?_⟩)
      refine (bind_eq_error_iff _ _ _).mpr (Or.inr ⟨file, fileRead, ?_⟩)
      rw [found]

/-- A specification is refused exactly for the defect that is reported of it. -/
theorem compile_eq_error_iff (spec : Text) (defect : Defect) :
    compile spec = .error defect <-> Reported spec defect :=
  ⟨reported_of_compile, compile_of_reported⟩

/-- Only the part in the middle counts: what stands in front of it is sound as a
part, and what stands behind it is not looked at. -/
example : compile "**/*/\x7bname\x7d*/***\x7b".toList =
    .error (.starTouchesToken "\x7bname\x7d*".toList "name".toList) := by
  decide +kernel

end Pattern
end SongPath
