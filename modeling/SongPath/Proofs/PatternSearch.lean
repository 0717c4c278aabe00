import SongPath.Proofs.DocumentOrder
import SongPath.Proofs.NameSearch

/-!
# Searching with the expression of a pattern

The expression of a pattern takes a path folder by folder.  The folders in
front and those of a `**` are taken in rounds, as many as possible first, but
the rest of the expression needs as many names as it has segments, so only one
number of rounds leads to the end.  The folders it leaves are those with which
the segments are aligned, so whatever the pattern matches is found, and the
groups are the captures of the loose cuts.
-/

namespace SongPath
namespace Path

/-- Folder names with a slash behind each. -/
def joined (names : List Text) : Text :=
  names.flatMap fun name => name ++ ['/']

theorem joined_cons (name : Text) (names : List Text) (rest : Text) :
    joined (name :: names) ++ rest = name ++ '/' :: (joined names ++ rest) := by
  simp [joined]

theorem joined_append (first second : List Text) (rest : Text) :
    joined (first ++ second) ++ rest = joined first ++ (joined second ++ rest) := by
  simp [joined]

theorem intercalate_concat (folders : List Text) (file : Text) :
    List.intercalate ['/'] (folders ++ [file]) = joined folders ++ file := by
  induction folders with
  | nil => exact List.intercalate_singleton
  | cons folder folders inductionHypothesis =>
      cases behind : folders ++ [file] with
      | nil => exact absurd behind (List.append_ne_nil_of_right_ne_nil _ (List.cons_ne_nil _ _))
      | cons second others =>
          rw [List.cons_append, behind, List.intercalate_cons_cons, ← behind, inductionHypothesis,
            joined_cons]
          simp

end Path

namespace Regex

open SongPath.Path (joined joined_cons joined_append)

variable (whole : Text)

/-! ## Runs of folders -/

section Run

variable {repetition : Repetition} (later : Text -> List Reach)

theorem attempts_folderRun (repetition : Repetition) :
    attempts whole (folderRun repetition) =
      repeated (attempts whole (nameChars repetition ++ ofText ['/'])) .many :=
  attempts_group_none whole _ .many

/-- A run takes one more folder, or leaves it to what follows. -/
theorem inRow_folderRun_cons {name : Text} (takes : Takes repetition name) (behind : Text) :
    inRow (attempts whole (folderRun repetition)) later (name ++ '/' :: behind) =
      (inRow (attempts whole (folderRun repetition)) later behind).map
          (Reach.followedBy ⟨name ++ ['/'], [], behind⟩) ++
        later (name ++ '/' :: behind) := by
  have shorter : behind.length < (name ++ '/' :: behind).length := by
    rw [List.length_append, List.length_cons]
    omega
  rw [attempts_folderRun]
  exact inRow_many_of_singleton (attempts_nameChars_slash whole takes behind) shorter later

theorem inRow_folderRun_of_slashless (known : repetition = .many ∨ repetition = .some)
    {file : Text} (slashless : '/' ∉ file) :
    inRow (attempts whole (folderRun repetition)) later file = later file := by
  rw [attempts_folderRun]
  exact inRow_many_of_nil (attempts_nameChars_slash_of_slashless whole known slashless) later

variable {file : Text}

/-- A run in front of what fails on any of the last folders fails as well. -/
theorem inRow_folderRun_eq_nil (known : repetition = .many ∨ repetition = .some)
    (slashless : '/' ∉ file) {names : List Text}
    (takes : forall name, name ∈ names -> Takes repetition name)
    (fails : forall last, last <:+ names -> later (joined last ++ file) = []) :
    inRow (attempts whole (folderRun repetition)) later (joined names ++ file) = [] := by
  induction names with
  | nil =>
      have failsHere := fails [] List.suffix_rfl
      exact (inRow_folderRun_of_slashless whole later known slashless).trans failsHere
  | cons name names inductionHypothesis =>
      rcases List.forall_mem_cons.mp takes with ⟨here, others⟩
      have failsHere := fails (name :: names) List.suffix_rfl
      have laterFails := inductionHypothesis others fun last isLast =>
        fails last (isLast.trans (List.suffix_cons name names))
      rw [joined_cons] at failsHere ⊢
      rw [inRow_folderRun_cons whole later here, laterFails, failsHere]
      rfl

/-- A run takes as many folders as it can leave to what follows. -/
theorem head?_folderRun (known : repetition = .many ∨ repetition = .some)
    (slashless : '/' ∉ file) {front back : List Text}
    (takesFront : forall name, name ∈ front -> Takes repetition name)
    (takesBack : forall name, name ∈ back -> Takes repetition name)
    (fewer : forall last, last <:+ back -> last.length < back.length ->
      later (joined last ++ file) = [])
    {reach : Reach} (found : (later (joined back ++ file)).head? = some reach) :
    (inRow (attempts whole (folderRun repetition)) later
      (joined front ++ (joined back ++ file))).head? =
      some (Reach.followedBy ⟨joined front, [], joined back ++ file⟩ reach) := by
  induction front with
  | nil =>
      have unchanged : Reach.followedBy ⟨joined [], [], joined back ++ file⟩ reach = reach :=
        Reach.nothing_followedBy (joined back ++ file) reach
      rw [unchanged]
      cases back with
      | nil =>
          change (inRow _ later file).head? = _
          rw [inRow_folderRun_of_slashless whole later known slashless]
          exact found
      | cons name back =>
          rcases List.forall_mem_cons.mp takesBack with ⟨here, others⟩
          have none :
              inRow (attempts whole (folderRun repetition)) later (joined back ++ file) = [] := by
            apply inRow_folderRun_eq_nil whole later known slashless others
            intro last isLast
            exact fewer last (isLast.trans (List.suffix_cons name back))
              (Nat.lt_succ_of_le isLast.length_le)
          change (inRow _ later (joined (name :: back) ++ file)).head? = _
          rw [joined_cons] at found ⊢
          rw [inRow_folderRun_cons whole later here, none]
          exact found
  | cons name front inductionHypothesis =>
      rcases List.forall_mem_cons.mp takesFront with ⟨here, others⟩
      rw [joined_cons, inRow_folderRun_cons whole later here, List.head?_append, List.head?_map,
        inductionHypothesis others]
      simp [Reach.followedBy, joined]

end Run

/-! ## Folder segments -/

/-- Folder segments beside names, and what their tokens get loosely. -/
inductive Chosen : List Segment -> List Text -> List (List (Token × Text)) -> Prop where
  | nil : Chosen [] [] []
  | cons {segment : Segment} {segments : List Segment} {name : Text} {names : List Text}
      {captures : List (Token × Text)} {choices : List (List (Token × Text))} :
      segment.IsNormal -> segment ≠ .anyFolders -> Path.IsName name ->
      segment.LooselyCaptures name captures -> Chosen segments names choices ->
      Chosen (segment :: segments) (name :: names) (captures :: choices)

theorem Chosen.isName {segments : List Segment} {names : List Text}
    {choices : List (List (Token × Text))} (chosen : Chosen segments names choices) :
    forall name, name ∈ names -> Path.IsName name := by
  induction chosen with
  | nil => exact List.forall_mem_nil _
  | cons _ _ isName _ _ inductionHypothesis =>
      exact List.forall_mem_cons.mpr ⟨isName, inductionHypothesis⟩

theorem Chosen.normal {segments : List Segment} {names : List Text}
    {choices : List (List (Token × Text))} (chosen : Chosen segments names choices) :
    forall segment, segment ∈ segments -> segment.IsNormal ∧ segment ≠ .anyFolders := by
  induction chosen with
  | nil => exact List.forall_mem_nil _
  | cons isNormal single _ _ _ inductionHypothesis =>
      exact List.forall_mem_cons.mpr ⟨⟨isNormal, single⟩, inductionHypothesis⟩

theorem Chosen.length_eq {segments : List Segment} {names : List Text}
    {choices : List (List (Token × Text))} (chosen : Chosen segments names choices) :
    names.length = segments.length := by
  induction chosen with
  | nil => rfl
  | cons _ _ _ _ _ inductionHypothesis => exact congrArg Nat.succ inductionHypothesis

theorem Chosen.map_fst {segments : List Segment} {names : List Text}
    {choices : List (List (Token × Text))} (chosen : Chosen segments names choices) :
    choices.flatten.map Prod.fst = segments.flatMap Segment.tokens := by
  induction chosen with
  | nil => rfl
  | cons _ _ _ loosely _ inductionHypothesis =>
      rw [List.flatten_cons, List.map_append, loosely.map_fst, inductionHypothesis]
      rfl

/-- Segments take their names, one behind the other. -/
theorem head?_ofFolders {segments : List Segment} {names : List Text}
    {choices : List (List (Token × Text))} (chosen : Chosen segments names choices)
    (seen : List Token) (later : Text -> List Reach) (behind : Text) :
    (inRow (attempts whole (ofFolders seen segments)) later (joined names ++ behind)).head? =
      (later behind).head?.map
        (Reach.followedBy ⟨joined names, groupsOf seen choices.flatten, behind⟩) := by
  induction chosen generalizing seen with
  | nil =>
      change (inRow (fun text => [.nothing text]) later behind).head? = _
      rw [nothing_inRow]
      have unchanged : Reach.followedBy ⟨joined [], groupsOf seen [], behind⟩ = id :=
        funext (Reach.nothing_followedBy behind)
      rw [List.flatten_nil, unchanged, Option.map_id]
      rfl
  | @cons segment segments name names captures choices isNormal single isName loosely _
      inductionHypothesis =>
      have rest : forall reach, reach ∈ attempts whole (ofSegment seen segment ++ ofText ['/'])
          (name ++ '/' :: (joined names ++ behind)) -> reach.rest = joined names ++ behind :=
        fun _ => rest_of_mem_attempts_folder whole isNormal single seen isName _
      have together : Reach.followedBy
            ⟨name ++ ['/'], groupsOf seen captures, joined names ++ behind⟩ ∘
          Reach.followedBy
            ⟨joined names, groupsOf (segment.tokens ++ seen) choices.flatten, behind⟩ =
          Reach.followedBy
            ⟨joined (name :: names), groupsOf seen (captures :: choices).flatten, behind⟩ := by
        funext reach
        simp [Reach.followedBy, joined, groupsOf_append, loosely.map_fst]
      rw [ofFolders_cons_of_ne single, attempts_append, inRow_assoc, joined_cons,
        head?_inRow_of_rest rest,
        head?_attempts_folder whole isNormal single seen isName loosely, inductionHypothesis,
        Option.bind_some, Option.map_map, together]

/-- Fewer names than segments are not enough. -/
theorem inRow_ofFolders_eq_nil {segments : List Segment}
    (normal : forall segment, segment ∈ segments -> segment.IsNormal ∧ segment ≠ .anyFolders)
    {names : List Text} (isName : forall name, name ∈ names -> Path.IsName name)
    (fewer : names.length < segments.length) {file : Text} (slashless : '/' ∉ file)
    (seen : List Token) (later : Text -> List Reach) :
    inRow (attempts whole (ofFolders seen segments)) later (joined names ++ file) = [] := by
  induction names generalizing segments seen with
  | nil =>
      cases segments with
      | nil => exact absurd fewer (Nat.not_lt_zero _)
      | cons segment segments =>
          rcases normal segment List.mem_cons_self with ⟨isNormal, single⟩
          rw [ofFolders_cons_of_ne single, attempts_append, inRow_assoc]
          exact inRow_of_nil (attempts_folder_of_slashless whole isNormal single seen slashless) _
  | cons name names inductionHypothesis =>
      cases segments with
      | nil => exact absurd fewer (Nat.not_lt_zero _)
      | cons segment segments =>
          rcases List.forall_mem_cons.mp normal with ⟨⟨isNormal, single⟩, others⟩
          rcases List.forall_mem_cons.mp isName with ⟨isFirst, isLater⟩
          have fails := inductionHypothesis others isLater (Nat.lt_of_succ_lt_succ fewer)
            (segment.tokens ++ seen)
          rw [ofFolders_cons_of_ne single, attempts_append, inRow_assoc, joined_cons, inRow,
            List.flatMap_eq_nil_iff]
          intro reach listed
          rw [rest_of_mem_attempts_folder whole isNormal single seen isFirst _ listed, fails]
          rfl

/-! ## The search of a pattern -/

theorem groupsOf_congr {seen others : List Token}
    (same : forall token, token ∈ seen <-> token ∈ others) (captures : List (Token × Text)) :
    groupsOf seen captures = groupsOf others captures := by
  rw [groupsOf, groupsOf, unseen_congr Prod.fst same]

/-- Folder segments in two parts; the second part has seen the tokens of the
first. -/
theorem exists_ofFolders_append (seen : List Token) (first : List Segment) :
    exists others,
      (forall token, token ∈ others <-> token ∈ first.flatMap Segment.tokens ++ seen) ∧
      forall rest, ofFolders seen (first ++ rest) =
        ofFolders seen first ++ ofFolders others rest := by
  induction first generalizing seen with
  | nil => exact ⟨seen, fun _ => Iff.rfl, fun _ => rfl⟩
  | cons segment first inductionHypothesis =>
      by_cases run : segment = .anyFolders
      · subst run
        rcases inductionHypothesis seen with ⟨others, same, inTwo⟩
        refine ⟨others, same, fun rest => ?_⟩
        rw [List.cons_append, ofFolders, ofFolders, inTwo, append_assoc]
      · rcases inductionHypothesis (segment.tokens ++ seen) with ⟨others, same, inTwo⟩
        refine ⟨others, ?_, fun rest => ?_⟩
        · intro token
          rw [same]
          simp [or_left_comm]
        · rw [List.cons_append, ofFolders_cons_of_ne run, ofFolders_cons_of_ne run, inTwo]
          simp only [append_assoc]

theorem exists_attempts_ofFolders_append (seen : List Token) (first rest : List Segment) :
    exists others,
      (forall token, token ∈ others <-> token ∈ first.flatMap Segment.tokens ++ seen) ∧
      attempts whole (ofFolders seen (first ++ rest)) =
        inRow (attempts whole (ofFolders seen first)) (attempts whole (ofFolders others rest)) := by
  rcases exists_ofFolders_append seen first with ⟨others, same, inTwo⟩
  exact ⟨others, same, (congrArg (attempts whole) (inTwo rest)).trans (attempts_append whole _ _)⟩

/-- The file with all that stands behind it. -/
def attemptsOfFile (pattern : Pattern) : Text -> List Reach :=
  inRow (attempts whole (ofSegment (pattern.folders.flatMap Segment.tokens) pattern.file))
    (attempts whole (extension ++ .finish .done))

theorem search_ofPattern (pattern : Pattern) (path : Text) :
    (ofPattern pattern).search path =
      (inRow (attempts path (front pattern))
        (inRow (attempts path (ofFolders [] pattern.folders)) (attemptsOfFile path pattern))
          path).head? := by
  rw [ofPattern, search_start, attemptsOfFile]
  simp only [attempts_append, inRow_assoc]

theorem front_of_not_mem {pattern : Pattern} (absent : .anyFolders ∉ pattern.folders) :
    front pattern = folderRun .many := by
  have none : pattern.doubleStar? = none := by
    rw [Pattern.doubleStar?, List.findIdx?_eq_none_iff]
    intro segment listed
    apply beq_false_of_ne
    rintro rfl
    exact absent listed
  rw [front, none]
  rfl

theorem front_of_mem {pattern : Pattern} (listed : .anyFolders ∈ pattern.folders) :
    front pattern = .one (.only '/') .optional .done := by
  have some : pattern.doubleStar?.isSome = true := by
    rw [Pattern.doubleStar?, List.findIdx?_isSome, List.any_eq_true]
    exact ⟨_, listed, beq_self_eq_true _⟩
  rw [front, if_pos some]

/-- One slash in front is taken if it is there. -/
theorem head?_optionalSlash {lead rest : Text} (isLead : lead = [] ∨ lead = ['/'])
    (plain : rest.head? ≠ some '/') {later : Text -> List Reach} {reach : Reach}
    (found : (later rest).head? = some reach) :
    exists taken,
      (inRow (attempts whole (.one (.only '/') .optional .done)) later (lead ++ rest)).head? =
        some ⟨taken, reach.groups, reach.rest⟩ := by
  rw [attempts_one_done, inRow_optional]
  rcases isLead with rfl | rfl
  · have none : oneOf (.only '/') rest = [] := by
      cases rest with
      | nil => rfl
      | cons char rest =>
          apply oneOf_cons_of_not_admits
          rw [List.head?_cons] at plain
          simpa [admits] using plain
    refine ⟨reach.taken, ?_⟩
    rw [List.nil_append, inRow_of_nil none]
    exact found
  · have here := oneOf_cons_of_admits (admits_only '/') rest
    refine ⟨'/' :: reach.taken, ?_⟩
    rw [List.singleton_append, inRow_of_singleton here, List.head?_append, List.head?_map, found]
    rfl

/-- A path does not start with a slash if its names are joined only. -/
theorem head?_joined_ne {names : List Text} (isName : forall name, name ∈ names -> Path.IsName name)
    {file : Text} (isFile : Path.IsName file) : (joined names ++ file).head? ≠ some '/' := by
  have plain : forall name rest : Text, Path.IsName name -> (name ++ rest).head? ≠ some '/' := by
    intro name rest isName
    cases name with
    | nil => exact absurd rfl isName.1
    | cons char name =>
        intro same
        cases same
        cases isName.2 '/' List.mem_cons_self
  cases names with
  | nil =>
      have here := plain file [] isFile
      rwa [List.append_nil] at here
  | cons name names =>
      rw [joined_cons]
      exact plain name _ (isName name List.mem_cons_self)

section Found

variable {pattern : Pattern} {file : Text} {captures : List (Token × Text)}

theorem exists_head?_attemptsOfFile (isNormal : pattern.IsNormal) (isFile : Path.IsName file)
    (loosely : pattern.file.LooselyCaptures (Path.stem file) captures) :
    exists taken, (attemptsOfFile whole pattern file).head? =
      some ⟨taken, groupsOf (pattern.folders.flatMap Segment.tokens) captures, []⟩ := by
  cases has : pattern.file.pieces? with
  | some pieces =>
      exact exists_head?_file whole isNormal.file has _ (slashless_of_isName isFile) loosely
  | none =>
      have folder := eq_anyFolder_of_pieces? isNormal.file_ne_anyFolders has
      exact absurd folder isNormal.file_ne_anyFolder

/-- Segments in front of something that has an attempt. -/
theorem head?_ofFolders_of_head? {segments : List Segment} {names : List Text}
    {choices : List (List (Token × Text))} (chosen : Chosen segments names choices)
    (seen : List Token) {later : Text -> List Reach} {behind : Text} {reach : Reach}
    (found : (later behind).head? = some reach) :
    (inRow (attempts whole (ofFolders seen segments)) later (joined names ++ behind)).head? =
      some (Reach.followedBy ⟨joined names, groupsOf seen choices.flatten, behind⟩ reach) := by
  rw [head?_ofFolders whole chosen, found]
  rfl

/-- A run in front of segments takes the folders in front of theirs. -/
theorem head?_folderRun_ofFolders {repetition : Repetition}
    (known : repetition = .many ∨ repetition = .some) {segments : List Segment}
    {front back : List Text} {choices : List (List (Token × Text))}
    (chosen : Chosen segments back choices) (seen : List Token)
    (takesFront : forall name, name ∈ front -> Takes repetition name)
    (takesBack : forall name, name ∈ back -> Takes repetition name)
    (isFile : Path.IsName file) {later : Text -> List Reach} {reach : Reach}
    (found : (later file).head? = some reach) :
    exists taken,
      (inRow (attempts whole (folderRun repetition))
        (inRow (attempts whole (ofFolders seen segments)) later)
        (joined front ++ (joined back ++ file))).head? =
          some ⟨taken, groupsOf seen choices.flatten ++ reach.groups, reach.rest⟩ := by
  have slashless := slashless_of_isName isFile
  have reached := head?_ofFolders_of_head? whole chosen seen found
  refine ⟨joined front ++ (joined back ++ reach.taken), ?_⟩
  refine (head?_folderRun whole _ known slashless takesFront takesBack ?_ reached).trans rfl
  intro last isLast fewer
  rw [chosen.length_eq] at fewer
  have isName : forall name, name ∈ last -> Path.IsName name :=
    fun name listed => chosen.isName name (isLast.mem listed)
  exact inRow_ofFolders_eq_nil whole chosen.normal isName fewer slashless seen later

/-- Without a `**` the last folders are taken by the segments. -/
theorem exists_search_trailing (isNormal : pattern.IsNormal)
    (absent : .anyFolders ∉ pattern.folders) {front back : List Text}
    (takesFront : forall name, name ∈ front -> Takes .many name)
    {choices : List (List (Token × Text))} (chosen : Chosen pattern.folders back choices)
    (isFile : Path.IsName file)
    (loosely : pattern.file.LooselyCaptures (Path.stem file) captures) :
    exists found,
      (ofPattern pattern).search (joined front ++ (joined back ++ file)) = some found ∧
        found.groups = groupsOf [] (choices ++ [captures]).flatten := by
  rcases exists_head?_attemptsOfFile (joined front ++ (joined back ++ file)) isNormal isFile loosely
    with ⟨_, foundFile⟩
  have takesBack : forall name, name ∈ back -> Takes .many name :=
    fun name listed => takes_many (chosen.isName name listed)
  rcases head?_folderRun_ofFolders _ (Or.inl rfl) chosen [] takesFront takesBack isFile foundFile
    with ⟨taken, found⟩
  rw [search_ofPattern, front_of_not_mem absent, found]
  refine ⟨_, rfl, ?_⟩
  simp [groupsOf_append, chosen.map_fst]

/-- Around a `**` the first and the last folders are taken by the segments, and
those between them by the `**`. -/
theorem exists_head?_ofFolders_windows {left right : List Segment} {first middle last : List Text}
    {leftChoices rightChoices : List (List (Token × Text))}
    (chosenLeft : Chosen left first leftChoices) (chosenRight : Chosen right last rightChoices)
    (isMiddle : forall name, name ∈ middle -> Path.IsName name) (isFile : Path.IsName file)
    {later : Text -> List Reach} {reach : Reach} (found : (later file).head? = some reach) :
    exists taken,
      (inRow (attempts whole (ofFolders [] (left ++ .anyFolders :: right))) later
        (joined (first ++ middle ++ last) ++ file)).head? =
          some ⟨taken, groupsOf [] (leftChoices ++ rightChoices).flatten ++ reach.groups,
            reach.rest⟩ := by
  rcases exists_attempts_ofFolders_append whole [] left (.anyFolders :: right) with
    ⟨seen, same, inTwo⟩
  have takesMiddle : forall name, name ∈ middle -> Takes .some name :=
    fun name listed => takes_some (isMiddle name listed)
  have takesLast : forall name, name ∈ last -> Takes .some name :=
    fun name listed => takes_some (chosenRight.isName name listed)
  rcases head?_folderRun_ofFolders whole (Or.inr rfl) chosenRight seen takesMiddle takesLast isFile
    found with ⟨taken, foundRun⟩
  have foundLeft := head?_ofFolders_of_head? whole chosenLeft [] foundRun
  have inRun : attempts whole (ofFolders seen (.anyFolders :: right)) =
      inRow (attempts whole (folderRun .some)) (attempts whole (ofFolders seen right)) :=
    attempts_append whole _ _
  have groups : groupsOf [] (leftChoices ++ rightChoices).flatten =
      groupsOf [] leftChoices.flatten ++ groupsOf seen rightChoices.flatten := by
    rw [List.flatten_append, groupsOf_append, groupsOf_congr same, chosenLeft.map_fst]
  refine ⟨joined first ++ taken, ?_⟩
  rw [joined_append, joined_append, inTwo, inRun, inRow_assoc, inRow_assoc, foundLeft, groups]
  simp [Reach.followedBy]

theorem exists_search_windows (isNormal : pattern.IsNormal) {left right : List Segment}
    (split : pattern.folders = left ++ .anyFolders :: right) {lead : Text}
    (isLead : lead = [] ∨ lead = ['/']) {first middle last : List Text}
    {leftChoices rightChoices : List (List (Token × Text))}
    (chosenLeft : Chosen left first leftChoices) (chosenRight : Chosen right last rightChoices)
    (isMiddle : forall name, name ∈ middle -> Path.IsName name) (isFile : Path.IsName file)
    (loosely : pattern.file.LooselyCaptures (Path.stem file) captures) :
    exists found,
      (ofPattern pattern).search (lead ++ (joined (first ++ middle ++ last) ++ file)) =
          some found ∧
        found.groups = groupsOf [] (leftChoices ++ rightChoices ++ [captures]).flatten := by
  have inside : Segment.anyFolders ∈ pattern.folders := by
    rw [split]
    exact List.mem_append_right left List.mem_cons_self
  have isName : forall name, name ∈ first ++ middle ++ last -> Path.IsName name := by
    simp only [List.forall_mem_append]
    exact ⟨⟨chosenLeft.isName, isMiddle⟩, chosenRight.isName⟩
  have tokens : pattern.folders.flatMap Segment.tokens =
      (leftChoices ++ rightChoices).flatten.map Prod.fst := by
    rw [List.flatten_append, List.map_append, chosenLeft.map_fst, chosenRight.map_fst, split,
      List.flatMap_append]
    rfl
  rcases exists_head?_attemptsOfFile (lead ++ (joined (first ++ middle ++ last) ++ file)) isNormal
    isFile loosely with ⟨_, foundFile⟩
  rcases exists_head?_ofFolders_windows _ chosenLeft chosenRight isMiddle isFile foundFile with
    ⟨_, foundFolders⟩
  rcases head?_optionalSlash _ isLead (head?_joined_ne isName isFile) foundFolders with ⟨_, found⟩
  rw [search_ofPattern, front_of_mem inside, split, found]
  refine ⟨_, rfl, ?_⟩
  rw [List.flatten_concat, groupsOf_append, List.append_nil, tokens]

end Found

end Regex
end SongPath
