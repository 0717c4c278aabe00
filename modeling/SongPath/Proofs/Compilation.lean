import Mathlib.Data.List.Forall2
import SongPath.Pattern

/-!
# What compiles

A specification compiles exactly if its parts do and its folders agree with
each other.  The two facts here are the way into every statement on compiled
patterns: where their segments come from, and how a `**` stands among the
folders.
-/

namespace SongPath

/-! ## Chains of fallible steps -/

theorem bind_eq_ok_iff {ε α β : Type} (first : Except ε α) (next : α -> Except ε β) (result : β) :
    (first >>= next) = .ok result <->
      exists value, first = .ok value ∧ next value = .ok result := by
  constructor
  · intro succeeds
    cases first with
    | error _ => cases succeeds
    | ok value => exact ⟨value, rfl, succeeds⟩
  · rintro ⟨value, rfl, succeeds⟩
    exact succeeds

theorem bind_eq_error_iff {ε α β : Type} (first : Except ε α) (next : α -> Except ε β) (failure : ε) :
    (first >>= next) = .error failure <->
      first = .error failure ∨ exists value, first = .ok value ∧ next value = .error failure := by
  cases first with
  | error other =>
      constructor
      · intro fails
        cases fails
        exact Or.inl rfl
      · rintro (same | ⟨value, none, _⟩)
        · cases same
          rfl
        · cases none
  | ok value =>
      constructor
      · intro fails
        exact Or.inr ⟨value, rfl, fails⟩
      · rintro (none | ⟨_, same, fails⟩)
        · cases none
        · cases same
          exact fails

theorem mapM_eq_ok_iff {ε α β : Type} (step : α -> Except ε β) (items : List α)
    (results : List β) :
    items.mapM step = .ok results <->
      List.Forall₂ (fun item result => step item = .ok result) items results := by
  induction items generalizing results with
  | nil =>
      constructor
      · intro mapped
        cases mapped
        exact .nil
      · intro mapped
        cases mapped
        rfl
  | cons item items inductionHypothesis =>
      rw [List.mapM_cons, bind_eq_ok_iff]
      constructor
      · rintro ⟨result, stepped, mapped⟩
        rcases (bind_eq_ok_iff _ _ _).mp mapped with ⟨later, mappedLater, same⟩
        cases same
        exact .cons stepped ((inductionHypothesis later).mp mappedLater)
      · intro mapped
        cases mapped with
        | @cons _ result _ later stepped mappedLater =>
            refine ⟨result, stepped, (bind_eq_ok_iff _ _ _).mpr ⟨later, ?_, rfl⟩⟩
            exact (inductionHypothesis later).mpr mappedLater

theorem exists_mem_of_forall₂ {α β : Type} {relation : α -> β -> Prop} {items : List α}
    {results : List β} (related : List.Forall₂ relation items results) {result : β}
    (listed : result ∈ results) : exists item, item ∈ items ∧ relation item result := by
  induction related with
  | nil => cases listed
  | @cons item _ items _ here _ inductionHypothesis =>
      rcases List.mem_cons.mp listed with rfl | later
      · exact ⟨item, List.mem_cons_self, here⟩
      · rcases inductionHypothesis later with ⟨source, member, maps⟩
        exact ⟨source, List.mem_cons_of_mem item member, maps⟩

theorem exists_of_mem_forall₂ {α β : Type} {relation : α -> β -> Prop} {items : List α}
    {results : List β} (related : List.Forall₂ relation items results) {item : α}
    (listed : item ∈ items) : exists result, result ∈ results ∧ relation item result :=
  exists_mem_of_forall₂ related.flip listed

theorem exists_forall₂_of_forall {α β : Type} {relation : α -> β -> Prop} {items : List α}
    (each : forall item, item ∈ items -> exists result, relation item result) :
    exists results, List.Forall₂ relation items results := by
  induction items with
  | nil => exact ⟨[], .nil⟩
  | cons item items inductionHypothesis =>
      rcases List.forall_mem_cons.mp each with ⟨⟨result, here⟩, others⟩
      rcases inductionHypothesis others with ⟨results, later⟩
      exact ⟨result :: results, .cons here later⟩

/-- A sequence of steps either goes through or stops at a first step that does
not. -/
theorem all_or_first_not {α : Type} (holds : α -> Prop) (items : List α) :
    (forall item, item ∈ items -> holds item) ∨
      exists before item after, items = before ++ item :: after ∧
        (forall earlier, earlier ∈ before -> holds earlier) ∧ ¬ holds item := by
  induction items with
  | nil => exact Or.inl (List.forall_mem_nil _)
  | cons first items inductionHypothesis =>
      by_cases here : holds first
      · rcases inductionHypothesis with all | ⟨before, item, after, rfl, earlier, fails⟩
        · exact Or.inl (List.forall_mem_cons.mpr ⟨here, all⟩)
        · exact Or.inr ⟨first :: before, item, after, rfl,
            List.forall_mem_cons.mpr ⟨here, earlier⟩, fails⟩
      · exact Or.inr ⟨[], first, items, rfl, List.forall_mem_nil _, here⟩

/-- Neighbours either all keep a relation, or there is a first place where they
do not. -/
theorem isChain_or_first_not {α : Type} (relation : α -> α -> Prop) (items : List α) :
    items.IsChain relation ∨
      exists before first second after, items = before ++ first :: second :: after ∧
        (before ++ [first]).IsChain relation ∧ ¬ relation first second := by
  induction items with
  | nil => exact Or.inl .nil
  | cons item items inductionHypothesis =>
      cases items with
      | nil => exact Or.inl (.singleton item)
      | cons next items =>
          by_cases here : relation item next
          · rcases inductionHypothesis with all | ⟨before, first, second, after, split, chain, fails⟩
            · exact Or.inl (List.isChain_cons_cons.mpr ⟨here, all⟩)
            · refine Or.inr ⟨item :: before, first, second, after, congrArg (item :: ·) split, ?_, fails⟩
              cases before with
              | nil =>
                  cases List.head_eq_of_cons_eq split
                  exact List.isChain_cons_cons.mpr ⟨here, chain⟩
              | cons other before =>
                  cases List.head_eq_of_cons_eq split
                  exact List.isChain_cons_cons.mpr ⟨here, chain⟩
          · exact Or.inr ⟨[], item, next, items, rfl, .singleton item, here⟩

/-- Steps in a row fail as the first of them does that fails. -/
theorem mapM_eq_error_iff {ε α β : Type} (step : α -> Except ε β) (items : List α) (failure : ε) :
    items.mapM step = .error failure <->
      exists before item after, items = before ++ item :: after ∧
        (forall earlier, earlier ∈ before -> exists result, step earlier = .ok result) ∧
        step item = .error failure := by
  constructor
  · intro mapped
    rcases all_or_first_not (fun item => exists result, step item = .ok result) items with
      all | ⟨before, item, after, rfl, earlier, fails⟩
    · rcases exists_forall₂_of_forall all with ⟨results, stepped⟩
      rw [(mapM_eq_ok_iff _ _ _).mpr stepped] at mapped
      cases mapped
    · rcases exists_forall₂_of_forall earlier with ⟨results, stepped⟩
      rw [List.mapM_append, (mapM_eq_ok_iff _ _ _).mpr stepped, List.mapM_cons] at mapped
      cases here : step item with
      | ok result => exact absurd ⟨result, here⟩ fails
      | error other =>
          rw [here] at mapped
          cases mapped
          exact ⟨before, item, after, rfl, earlier, here⟩
  · rintro ⟨before, item, after, rfl, earlier, fails⟩
    rcases exists_forall₂_of_forall earlier with ⟨results, stepped⟩
    rw [List.mapM_append, (mapM_eq_ok_iff _ _ _).mpr stepped, List.mapM_cons, fails]
    rfl

namespace Pattern

/-! ## The rules that relate folders -/

/-- Folders with at most one `**`, and no `*` beside it. -/
def AgreeingFolders (folders : List Segment) : Prop :=
  .anyFolders ∉ folders ∨
    exists left right, folders = left ++ .anyFolders :: right ∧ .anyFolders ∉ left ∧
      .anyFolders ∉ right ∧ left.getLast? ≠ some .anyFolder ∧ right.head? ≠ some .anyFolder

/-- The two sides of a `**` hold no other one. -/
theorem AgreeingFolders.absent_of_split {left right : List Segment}
    (agreeing : AgreeingFolders (left ++ .anyFolders :: right)) :
    .anyFolders ∉ left ∧ .anyFolders ∉ right := by
  rcases agreeing with absent | ⟨first, last, split, absentFirst, absentLast, _⟩
  · exact absurd (List.mem_append_right left List.mem_cons_self) absent
  · have counts := congrArg (List.count Segment.anyFolders) split
    rw [List.count_append, List.count_append, List.count_cons_self, List.count_cons_self,
      List.count_eq_zero.mpr absentFirst, List.count_eq_zero.mpr absentLast] at counts
    exact ⟨List.count_eq_zero.mp (by omega), List.count_eq_zero.mp (by omega)⟩

private theorem folderDefect?_cons_of_ne (index : Nat) (seen : Bool) (previous : Option Segment)
    {segment : Segment} (rest : List Segment) (other : segment ≠ .anyFolders) :
    folderDefect? index seen previous (segment :: rest) =
      folderDefect? (index + 1) seen (some segment) rest := by
  cases segment with
  | anyFolders => exact absurd rfl other
  | _ => rfl

/-- The segment in front counts as the last one as long as nothing follows it. -/
private theorem getLast?_cons_or (segment : Segment) (left : List Segment)
    (previous : Option Segment) :
    (segment :: left).getLast?.or previous = left.getLast?.or (some segment) := by
  rw [List.getLast?_cons]
  cases left.getLast? <;> rfl

theorem folderDefect?_seen_eq_none_iff (index : Nat) (previous : Option Segment)
    (folders : List Segment) :
    folderDefect? index true previous folders = none <-> .anyFolders ∉ folders := by
  induction folders generalizing index previous with
  | nil => exact ⟨fun _ listed => (by cases listed), fun _ => rfl⟩
  | cons segment rest inductionHypothesis =>
      by_cases double : segment = .anyFolders
      · subst double
        constructor
        · intro sound
          cases sound
        · intro absent
          exact absurd List.mem_cons_self absent
      · rw [folderDefect?_cons_of_ne index true previous rest double, inductionHypothesis,
          List.mem_cons, not_or]
        exact ⟨fun absent => ⟨Ne.symm double, absent⟩, And.right⟩

/-- The folders are sound from some folder on.  The folder in front counts as
the last one on the left as long as nothing else stands there. -/
private theorem folderDefect?_unseen_eq_none_iff (index : Nat) (previous : Option Segment)
    (folders : List Segment) :
    folderDefect? index false previous folders = none <->
      .anyFolders ∉ folders ∨
        exists left right, folders = left ++ .anyFolders :: right ∧ .anyFolders ∉ left ∧
          .anyFolders ∉ right ∧ left.getLast?.or previous ≠ some .anyFolder ∧
          right.head? ≠ some .anyFolder := by
  induction folders generalizing index previous with
  | nil => exact ⟨fun _ => Or.inl fun listed => (by cases listed), fun _ => rfl⟩
  | cons segment rest inductionHypothesis =>
      -- Only the first `**` is judged here, and a `*` in front of it may be `previous`.
      by_cases double : segment = .anyFolders
      · subst double
        have here : folderDefect? index false previous (.anyFolders :: rest) =
            if previous == some .anyFolder || rest.head? == some .anyFolder then
              some (.doubleStarBesideStar index)
            else folderDefect? (index + 1) true (some .anyFolders) rest := rfl
        rw [here]
        constructor
        · intro sound
          split at sound
          · cases sound
          · next apart =>
              rw [Bool.or_eq_true, not_or, beq_iff_eq, beq_iff_eq] at apart
              have absent := (folderDefect?_seen_eq_none_iff _ _ rest).mp sound
              exact Or.inr ⟨[], rest, rfl, List.not_mem_nil, absent, apart.1, apart.2⟩
        · rintro (absent | ⟨left, right, same, absentLeft, absentRight, apartLeft, apartRight⟩)
          · exact absurd List.mem_cons_self absent
          · cases left with
            | nil =>
                cases same
                rw [if_neg, folderDefect?_seen_eq_none_iff]
                · exact absentRight
                · rw [Bool.or_eq_true, not_or, beq_iff_eq, beq_iff_eq]
                  exact ⟨apartLeft, apartRight⟩
            | cons first left =>
                cases same
                exact absurd List.mem_cons_self absentLeft
      · rw [folderDefect?_cons_of_ne index false previous rest double, inductionHypothesis]
        constructor
        · rintro (absent | ⟨left, right, rfl, absentLeft, absentRight, apartLeft, apartRight⟩)
          · exact Or.inl (List.not_mem_cons_of_ne_of_not_mem (Ne.symm double) absent)
          · refine Or.inr ⟨segment :: left, right, rfl, ?_, absentRight, ?_, apartRight⟩
            · exact List.not_mem_cons_of_ne_of_not_mem (Ne.symm double) absentLeft
            · rw [getLast?_cons_or]
              exact apartLeft
        · rintro (absent | ⟨left, right, same, absentLeft, absentRight, apartLeft, apartRight⟩)
          · exact Or.inl (List.not_mem_of_not_mem_cons absent)
          · cases left with
            | nil =>
                cases same
                exact absurd rfl double
            | cons first left =>
                cases same
                rw [getLast?_cons_or] at apartLeft
                exact Or.inr ⟨left, right, rfl, List.not_mem_of_not_mem_cons absentLeft,
                  absentRight, apartLeft, apartRight⟩

theorem folderDefect?_eq_none_iff (folders : List Segment) :
    folderDefect? 0 false none folders = none <-> AgreeingFolders folders := by
  rw [folderDefect?_unseen_eq_none_iff]
  simp only [Option.or_none, AgreeingFolders]

/-- Behind a `**` the next one is reported, whatever stands beside it. -/
theorem folderDefect?_seen_append (index : Nat) (previous : Option Segment)
    {middle : List Segment} (absent : .anyFolders ∉ middle) (right : List Segment) :
    folderDefect? index true previous (middle ++ .anyFolders :: right) =
      some (.secondDoubleStar (index + middle.length)) := by
  induction middle generalizing index previous with
  | nil => rfl
  | cons segment middle inductionHypothesis =>
      have other : segment ≠ .anyFolders := (List.ne_of_not_mem_cons absent).symm
      rw [List.cons_append, folderDefect?_cons_of_ne index true previous _ other,
        inductionHypothesis _ _ (List.not_mem_of_not_mem_cons absent), List.length_cons,
        Nat.add_assoc, Nat.add_comm 1]

/-- The first `**` is judged by its neighbours, and what follows it only if they
are no `*`. -/
theorem folderDefect?_unseen_append (index : Nat) (previous : Option Segment)
    {left : List Segment} (absent : .anyFolders ∉ left) (right : List Segment) :
    folderDefect? index false previous (left ++ .anyFolders :: right) =
      if left.getLast?.or previous = some .anyFolder ∨ right.head? = some .anyFolder then
        some (.doubleStarBesideStar (index + left.length))
      else folderDefect? (index + left.length + 1) true (some .anyFolders) right := by
  induction left generalizing index previous with
  | nil =>
      rw [List.nil_append, folderDefect?, if_neg Bool.false_ne_true]
      refine if_congr ?_ rfl rfl
      rw [Bool.or_eq_true, beq_iff_eq, beq_iff_eq]
      rfl
  | cons segment left inductionHypothesis =>
      have other : segment ≠ .anyFolders := (List.ne_of_not_mem_cons absent).symm
      rw [List.cons_append, folderDefect?_cons_of_ne index false previous _ other,
        inductionHypothesis _ _ (List.not_mem_of_not_mem_cons absent), getLast?_cons_or,
        List.length_cons, Nat.add_assoc index, Nat.add_comm 1]

/-! ## The parts of a compiled specification -/

theorem compile_of_nameless {spec : Text} (nameless : Path.names spec = []) :
    compile spec = .error .emptySpecification := by
  rw [compile, nameless]
  rfl

theorem compile_of_parts {spec last : Text} {parts : List Text}
    (names : Path.names spec = parts ++ [last]) :
    compile spec = parts.mapM Segment.ofFolder >>= fun folders =>
      Segment.ofFile (Path.patternStem last) >>= fun file =>
        match folderDefect? 0 false none folders with
        | some defect => .error defect
        | none => .ok ⟨folders, file⟩ := by
  rw [compile, names, List.getLast?_concat]
  exact congrArg (fun front => front.mapM Segment.ofFolder >>= _) List.dropLast_concat

/-- The names of the specification but the last become the folders, the last
one without its extension becomes the file. -/
theorem compile_eq_ok_iff (spec : Text) (pattern : Pattern) :
    compile spec = .ok pattern <->
      exists raws last, Path.names spec = raws ++ [last] ∧
        List.Forall₂ (fun raw segment => Segment.ofFolder raw = .ok segment) raws pattern.folders ∧
        Segment.ofFile (Path.patternStem last) = .ok pattern.file ∧
        AgreeingFolders pattern.folders := by
  constructor
  · intro compiled
    rcases List.eq_nil_or_concat (Path.names spec) with nameless | ⟨raws, last, names⟩
    · rw [compile_of_nameless nameless] at compiled
      cases compiled
    · rw [List.concat_eq_append] at names
      rw [compile_of_parts names] at compiled
      rcases (bind_eq_ok_iff _ _ _).mp compiled with ⟨folders, foldersRead, compiled⟩
      rcases (bind_eq_ok_iff _ _ _).mp compiled with ⟨file, fileRead, compiled⟩
      split at compiled
      · cases compiled
      · next agreeing =>
          cases compiled
          exact ⟨raws, last, names, (mapM_eq_ok_iff _ _ _).mp foldersRead, fileRead,
            (folderDefect?_eq_none_iff folders).mp agreeing⟩
  · rintro ⟨raws, last, names, foldersRead, fileRead, agreeing⟩
    have mapped := (mapM_eq_ok_iff _ _ _).mpr foldersRead
    rw [compile_of_parts names]
    refine (bind_eq_ok_iff _ _ _).mpr ⟨pattern.folders, mapped, ?_⟩
    refine (bind_eq_ok_iff _ _ _).mpr ⟨pattern.file, fileRead, ?_⟩
    rw [(folderDefect?_eq_none_iff pattern.folders).mpr agreeing]

end Pattern
end SongPath
