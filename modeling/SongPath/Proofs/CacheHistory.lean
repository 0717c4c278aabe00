import Mathlib.Data.Finset.Dedup
import Mathlib.Data.Finset.Card
import Mathlib.Data.List.TakeWhile
import SongPath.Cache

/-!
# Histories of a cache

What a cache holds after any lookups and clearings is determined by the
specifications requested since the last clearing: the most recently requested
distinct ones, as many as the capacity allows, each with what compiling it
gives.  So a lookup is a hit exactly if not too many other specifications were
requested since the last request of its own, and what it returns never depends
on the history.  Whether a specification compiles makes no difference to any of
this.
-/

namespace SongPath

/-! ## Recency -/

/-- The distinct specifications among requests that are given latest first, each
at the place of its latest request. -/
def recency : List Text -> List Text
  | [] => []
  | spec :: earlier => spec :: (recency earlier).filter (· != spec)

theorem mem_recency_iff (spec : Text) (requests : List Text) :
    spec ∈ recency requests <-> spec ∈ requests := by
  induction requests with
  | nil => exact Iff.rfl
  | cons latest earlier inductionHypothesis =>
      rw [recency, List.mem_cons, List.mem_cons, List.mem_filter, inductionHypothesis, bne_iff_ne]
      constructor
      · exact Or.imp_right And.left
      · rintro (same | listed)
        · exact Or.inl same
        · by_cases same : spec = latest
          · exact Or.inl same
          · exact Or.inr ⟨listed, same⟩

theorem nodup_recency (requests : List Text) : (recency requests).Nodup := by
  induction requests with
  | nil => exact List.nodup_nil
  | cons latest earlier inductionHypothesis =>
      refine List.nodup_cons.mpr ⟨?_, inductionHypothesis.filter _⟩
      intro listed
      exact absurd rfl (bne_iff_ne.mp (List.mem_filter.mp listed).2)

theorem length_recency (requests : List Text) :
    (recency requests).length = requests.toFinset.card := by
  have members : (recency requests).toFinset = requests.toFinset := by
    ext spec
    rw [List.mem_toFinset, List.mem_toFinset, mem_recency_iff]
  rw [← members, List.toFinset_card_of_nodup (nodup_recency requests)]

/-- In front of a requested specification stand those requested after it. -/
theorem recency_split {spec : Text} {requests : List Text} (requested : spec ∈ requests) :
    exists behind,
      recency requests = recency (requests.takeWhile (· != spec)) ++ spec :: behind := by
  induction requests with
  | nil => cases requested
  | cons latest earlier inductionHypothesis =>
      by_cases same : latest = spec
      · subst same
        have front : (latest :: earlier).takeWhile (· != latest) = [] :=
          List.takeWhile_cons_of_neg (by simp)
        rw [front]
        exact ⟨_, rfl⟩
      · have inEarlier : spec ∈ earlier := (List.mem_cons.mp requested).resolve_left (Ne.symm same)
        rcases inductionHypothesis inEarlier with ⟨behind, split⟩
        have front : (latest :: earlier).takeWhile (· != spec) =
            latest :: earlier.takeWhile (· != spec) :=
          List.takeWhile_cons_of_pos (bne_iff_ne.mpr same)
        have kept : (spec :: behind).filter (· != latest) = spec :: behind.filter (· != latest) :=
          List.filter_cons_of_pos (bne_iff_ne.mpr (Ne.symm same))
        rw [front, recency, recency, split, List.filter_append, kept]
        exact ⟨_, rfl⟩

namespace Cache

/-! ## What the capacity keeps -/

theorem keep_map {α β : Type} (capacity : Nat) (change : α -> β) (items : List α) :
    keep capacity (items.map change) = (keep capacity items).map change := by
  unfold keep
  split
  · rfl
  · exact (List.map_take).symm

theorem keep_eq_self_iff {α : Type} (capacity : Nat) (items : List α) :
    keep capacity items = items <-> capacity = 0 ∨ items.length ≤ capacity := by
  unfold keep
  split
  · next unbounded => exact ⟨fun _ => Or.inl unbounded, fun _ => rfl⟩
  · next bounded => rw [List.take_eq_self_iff, or_iff_right bounded]

theorem keep_keep {α : Type} (capacity : Nat) (items : List α) :
    keep capacity (keep capacity items) = keep capacity items := by
  by_cases unbounded : capacity = 0
  · simp only [keep, if_pos unbounded]
  · simp only [keep, if_neg unbounded, List.take_take, Nat.min_self]

theorem length_keep {α : Type} (capacity : Nat) (items : List α) :
    (keep capacity items).length =
      if capacity = 0 then items.length else min capacity items.length := by
  unfold keep
  split
  · rfl
  · exact List.length_take

theorem nodup_keep {α : Type} (capacity : Nat) {items : List α} (distinct : items.Nodup) :
    (keep capacity items).Nodup := by
  unfold keep
  split
  · exact distinct
  · exact distinct.sublist (List.take_sublist capacity items)

private theorem take_erase_take (count : Nat) (item : Text) (items : List Text) :
    ((items.take (count + 1)).erase item).take count = (items.erase item).take count := by
  induction items generalizing count with
  | nil => rfl
  | cons first items inductionHypothesis =>
      rw [List.take_succ_cons]
      by_cases same : first = item
      · subst same
        rw [List.erase_cons_head, List.erase_cons_head, List.take_take, Nat.min_self]
      · have other : ¬ (first == item) = true := fun equal => same (beq_iff_eq.mp equal)
        rw [List.erase_cons_tail other, List.erase_cons_tail other]
        cases count with
        | zero => rfl
        | succ count => rw [List.take_succ_cons, List.take_succ_cons, inductionHypothesis]

/-- An item that moves to the front is not needed behind it, and what the
capacity has cut off before would be cut off now. -/
theorem keep_cons_erase_keep (capacity : Nat) (item : Text) (items : List Text) :
    keep capacity (item :: (keep capacity items).erase item) =
      keep capacity (item :: items.erase item) := by
  cases capacity with
  | zero => rfl
  | succ count =>
      have cut : keep (count + 1) (item :: (items.take (count + 1)).erase item) =
          item :: ((items.take (count + 1)).erase item).take count := rfl
      have uncut : keep (count + 1) (item :: items.erase item) =
          item :: (items.erase item).take count := rfl
      have inner : keep (count + 1) items = items.take (count + 1) := rfl
      rw [inner, cut, uncut, take_erase_take]

/-! ## One lookup -/

/-- What a cache holds for a specification. -/
def entryOf (spec : Text) : Text × Compiled :=
  (spec, Pattern.compile spec)

private theorem find?_map_entryOf (spec : Text) (specs : List Text) :
    ((specs.map entryOf).find? fun entry => entry.1 == spec).map (·.2) =
      if spec ∈ specs then some (Pattern.compile spec) else none := by
  induction specs with
  | nil => rfl
  | cons first specs inductionHypothesis =>
      rw [List.map_cons, List.find?_cons]
      by_cases same : first = spec
      · subst same
        have found : ((entryOf first).1 == first) = true := beq_self_eq_true first
        rw [found, if_pos List.mem_cons_self]
        rfl
      · have passed : ((entryOf first).1 == spec) = false := beq_false_of_ne same
        have other : spec ∈ first :: specs <-> spec ∈ specs :=
          List.mem_cons.trans (or_iff_right (Ne.symm same))
        rw [passed, inductionHypothesis]
        simp only [other]

/-- A lookup in a cache that holds true entries and no more than its capacity
allows.  It returns what compiling gives, and the specification is in front
afterwards, wherever it was before. -/
theorem lookup_of_entries {cache : Cache} {specs : List Text}
    (held : cache.entries = specs.map entryOf) (fits : keep cache.capacity specs = specs)
    (spec : Text) :
    cache.lookup spec = (Pattern.compile spec,
      ⟨cache.capacity, (keep cache.capacity (spec :: specs.erase spec)).map entryOf,
        cache.hits + (if spec ∈ specs then 1 else 0),
        cache.misses + (if spec ∈ specs then 0 else 1)⟩) := by
  have found : cache.find? spec =
      if spec ∈ specs then some (Pattern.compile spec) else none := by
    rw [find?, held]
    exact find?_map_entryOf spec specs
  by_cases listed : spec ∈ specs
  · have sameLength : (spec :: specs.erase spec).length = specs.length := by
      have nonempty := List.length_pos_of_mem listed
      rw [List.length_cons, List.length_erase_of_mem listed]
      omega
    have fitsMoved : keep cache.capacity (spec :: specs.erase spec) = spec :: specs.erase spec := by
      rw [keep_eq_self_iff, sameLength]
      exact (keep_eq_self_iff _ _).mp fits
    have erased : (cache.entries.eraseP fun entry => entry.1 == spec) =
        (specs.erase spec).map entryOf := by
      rw [held, List.eraseP_map, List.erase_eq_eraseP']
      rfl
    rw [lookup, found, if_pos listed, if_pos listed, if_pos listed, fitsMoved]
    simp only [erased]
    rfl
  · rw [lookup, found, if_neg listed, if_neg listed, if_neg listed, List.erase_of_not_mem listed,
      ← keep_map, held]
    rfl

/-! ## A whole history -/

/-- What is done with a cache. -/
inductive Operation where
  | lookup (spec : Text)
  | clear
  deriving DecidableEq, Repr

/-- The specification that is looked up. -/
def Operation.spec? : Operation -> Option Text
  | .lookup spec => some spec
  | .clear => none

/-- The cache after one operation. -/
def perform (cache : Cache) : Operation -> Cache
  | .lookup spec => (cache.lookup spec).2
  | .clear => cache.clear

/-- A fresh cache after a history of operations, the first of them done first. -/
def after (capacity : Nat) (history : List Operation) : Cache :=
  history.foldl perform (new capacity)

/-- The specifications requested since the last clearing, the latest first. -/
def requests (history : List Operation) : List Text :=
  (history.reverse.takeWhile (· != .clear)).filterMap Operation.spec?

/-- The specifications that are held after a history, the most recently requested
first. -/
def residents (capacity : Nat) (history : List Operation) : List Text :=
  keep capacity (recency (requests history))

/-- The specification was requested since the last clearing, and since then
fewer others than the capacity allows. -/
def Recalls (capacity : Nat) (history : List Operation) (spec : Text) : Prop :=
  spec ∈ requests history ∧
    (capacity = 0 ∨ ((requests history).takeWhile (· != spec)).toFinset.card < capacity)

instance (capacity : Nat) (history : List Operation) (spec : Text) :
    Decidable (Recalls capacity history spec) :=
  inferInstanceAs (Decidable (_ ∧ _))

theorem after_append (capacity : Nat) (history later : List Operation) :
    after capacity (history ++ later) = later.foldl perform (after capacity history) :=
  List.foldl_append

theorem requests_append_lookup (history : List Operation) (spec : Text) :
    requests (history ++ [.lookup spec]) = spec :: requests history := by
  rw [requests, List.reverse_append]
  rfl

theorem requests_append_clear (history : List Operation) :
    requests (history ++ [.clear]) = [] := by
  rw [requests, List.reverse_append]
  rfl

private theorem mem_take_iff {spec : Text} {front : List Text} (absent : spec ∉ front)
    (behind : List Text) (count : Nat) :
    spec ∈ (front ++ spec :: behind).take count <-> front.length < count := by
  rw [List.take_append, List.mem_append]
  constructor
  · rintro (inFront | inRest)
    · exact absurd (List.mem_of_mem_take inFront) absent
    · apply Nat.lt_of_sub_pos
      apply Nat.pos_of_ne_zero
      intro none
      rw [none] at inRest
      cases inRest
  · intro reached
    refine Or.inr ?_
    rcases Nat.exists_eq_succ_of_ne_zero (Nat.sub_ne_zero_of_lt reached) with ⟨more, rest⟩
    rw [rest, List.take_succ_cons]
    exact List.mem_cons_self

theorem mem_residents_iff (capacity : Nat) (history : List Operation) (spec : Text) :
    spec ∈ residents capacity history <-> Recalls capacity history spec := by
  by_cases requested : spec ∈ requests history
  · rw [Recalls, and_iff_right requested, residents, keep]
    split
    · next unbounded => exact iff_of_true ((mem_recency_iff _ _).mpr requested) (Or.inl unbounded)
    · next bounded =>
        rcases recency_split requested with ⟨behind, split⟩
        have absent : spec ∉ recency ((requests history).takeWhile (· != spec)) := by
          rw [mem_recency_iff]
          intro listed
          have other := List.mem_takeWhile_imp listed
          exact absurd rfl (bne_iff_ne.mp other)
        rw [or_iff_right bounded, ← length_recency, split]
        exact mem_take_iff absent behind capacity
  · refine iff_of_false (fun listed => requested ?_) (fun recalls => requested recalls.1)
    rw [← mem_recency_iff]
    rw [residents, keep] at listed
    split at listed
    · exact listed
    · exact List.mem_of_mem_take listed

theorem residents_append_lookup (capacity : Nat) (history : List Operation) (spec : Text) :
    residents capacity (history ++ [.lookup spec]) =
      keep capacity (spec :: (residents capacity history).erase spec) := by
  rw [residents, requests_append_lookup, recency,
    ← (nodup_recency (requests history)).erase_eq_filter spec, ← keep_cons_erase_keep]
  rfl

theorem residents_append_clear (capacity : Nat) (history : List Operation) :
    residents capacity (history ++ [.clear]) = [] := by
  rw [residents, requests_append_clear, recency, keep_eq_self_iff]
  exact Or.inr (Nat.zero_le capacity)

/-- The cache holds what the history determines, and every entry is true. -/
structure Holds (capacity : Nat) (history : List Operation) (cache : Cache) : Prop where
  bounded : cache.capacity = capacity
  held : cache.entries = (residents capacity history).map entryOf

/-- One more lookup, in full. -/
theorem Holds.lookup_eq {capacity : Nat} {history : List Operation} {cache : Cache}
    (holds : Holds capacity history cache) (spec : Text) :
    cache.lookup spec = (Pattern.compile spec,
      ⟨capacity, (residents capacity (history ++ [.lookup spec])).map entryOf,
        cache.hits + (if Recalls capacity history spec then 1 else 0),
        cache.misses + (if Recalls capacity history spec then 0 else 1)⟩) := by
  have fits : keep cache.capacity (residents capacity history) = residents capacity history := by
    rw [holds.bounded]
    exact keep_keep capacity _
  have recalled := mem_residents_iff capacity history spec
  rw [lookup_of_entries holds.held fits spec, holds.bounded, ← residents_append_lookup,
    if_congr recalled rfl rfl, if_congr recalled rfl rfl]

theorem holds_after (capacity : Nat) (history : List Operation) :
    Holds capacity history (after capacity history) := by
  induction history using List.reverseRecOn with
  | nil => exact ⟨rfl, (congrArg (List.map entryOf) (residents_append_clear capacity [])).symm⟩
  | append_singleton history operation inductionHypothesis =>
      rw [after_append]
      cases operation with
      | clear =>
          refine ⟨inductionHypothesis.bounded, ?_⟩
          rw [residents_append_clear]
          rfl
      | lookup spec =>
          have looked := congrArg Prod.snd (inductionHypothesis.lookup_eq spec)
          exact ⟨congrArg Cache.capacity looked, congrArg Cache.entries looked⟩

/-- A lookup returns what compiling gives, and the history goes on with it. -/
theorem lookup_after (capacity : Nat) (history : List Operation) (spec : Text) :
    (after capacity history).lookup spec =
      (Pattern.compile spec, after capacity (history ++ [.lookup spec])) := by
  have result := congrArg Prod.fst ((holds_after capacity history).lookup_eq spec)
  rw [after_append]
  exact Prod.ext result rfl

theorem map_fst_entries_after (capacity : Nat) (history : List Operation) :
    (after capacity history).entries.map Prod.fst = residents capacity history := by
  rw [(holds_after capacity history).held, List.map_map]
  exact List.map_id _

/-- Whether a lookup is a hit, and how many specifications are held, can be told
from the requests since the last clearing.  Requests of specifications that do
not compile are requests like all others. -/
theorem lookup_isHit_iff_recalls (capacity : Nat) (history : List Operation) :
    (forall spec,
      ((((after capacity history).lookup spec).2.hits = (after capacity history).hits + 1 ∧
        ((after capacity history).lookup spec).2.misses = (after capacity history).misses) <->
          Recalls capacity history spec) ∧
      ((((after capacity history).lookup spec).2.hits = (after capacity history).hits ∧
        ((after capacity history).lookup spec).2.misses = (after capacity history).misses + 1) <->
          ¬ Recalls capacity history spec)) ∧
    (after capacity history).entries.map Prod.fst =
      (if capacity = 0 then recency (requests history)
        else (recency (requests history)).take capacity) ∧
    (after capacity history).size =
      (if capacity = 0 then (requests history).toFinset.card
        else min capacity (requests history).toFinset.card) := by
  refine ⟨fun spec => ?_, map_fst_entries_after capacity history, ?_⟩
  · rw [(holds_after capacity history).lookup_eq spec]
    by_cases recalls : Recalls capacity history spec
    · simp [recalls]
    · simp [recalls]
  · rw [size, (holds_after capacity history).held, List.length_map, residents, length_keep,
      length_recency]

/-- The second request of the first specification makes the other one the least
recent. -/
example :
    Recalls 2 [.lookup ['a'], .lookup ['b'], .lookup ['a'], .lookup ['c']] ['a'] ∧
      ¬ Recalls 2 [.lookup ['a'], .lookup ['b'], .lookup ['a'], .lookup ['c']] ['b'] := by
  decide

/-! ## The accounts -/

/-- Every lookup is counted once. -/
theorem counts_lookup (cache : Cache) (spec : Text) :
    ((cache.lookup spec).2.hits = cache.hits + 1 ∧
      (cache.lookup spec).2.misses = cache.misses) ∨
    ((cache.lookup spec).2.hits = cache.hits ∧
      (cache.lookup spec).2.misses = cache.misses + 1) := by
  cases found : cache.find? spec with
  | some compiled =>
      rw [lookup, found]
      exact Or.inl ⟨rfl, rfl⟩
  | none =>
      rw [lookup, found]
      exact Or.inr ⟨rfl, rfl⟩

theorem counts_perform (cache : Cache) (operation : Operation) :
    (cache.perform operation).hits + (cache.perform operation).misses =
        cache.hits + cache.misses + ([operation].filterMap Operation.spec?).length ∧
      cache.hits ≤ (cache.perform operation).hits ∧
      cache.misses ≤ (cache.perform operation).misses := by
  cases operation with
  | clear => exact ⟨rfl, Nat.le_refl _, Nat.le_refl _⟩
  | lookup spec =>
      have one : ([Operation.lookup spec].filterMap Operation.spec?).length = 1 := rfl
      have counted := counts_lookup cache spec
      rw [one, perform]
      omega

/-- The counts of a run grow by one for each lookup in it, and nothing makes
either of them smaller. -/
theorem counts_run (cache : Cache) (operations : List Operation) :
    (operations.foldl perform cache).hits + (operations.foldl perform cache).misses =
        cache.hits + cache.misses + (operations.filterMap Operation.spec?).length ∧
      cache.hits ≤ (operations.foldl perform cache).hits ∧
      cache.misses ≤ (operations.foldl perform cache).misses := by
  induction operations generalizing cache with
  | nil => exact ⟨rfl, Nat.le_refl _, Nat.le_refl _⟩
  | cons operation operations inductionHypothesis =>
      have first := counts_perform cache operation
      have rest := inductionHypothesis (cache.perform operation)
      have lookups : ((operation :: operations).filterMap Operation.spec?).length =
          ([operation].filterMap Operation.spec?).length +
            (operations.filterMap Operation.spec?).length := by
        rw [← List.length_append, ← List.filterMap_append]
        rfl
      rw [List.foldl_cons, lookups]
      omega

/-- Whatever a cache has held, dropped or forgotten, a lookup returns what
compiling gives.  The entries are true and distinct, every lookup is a hit or a
miss, no count ever goes down, and clearing leaves the counts alone. -/
theorem lookup_transparent (capacity : Nat) (history : List Operation) :
    (forall spec, ((after capacity history).lookup spec).1 = Pattern.compile spec) ∧
    ((after capacity history).entries.map Prod.fst).Nodup ∧
    (after capacity history).entries =
      ((after capacity history).entries.map Prod.fst).map
        (fun spec => (spec, Pattern.compile spec)) ∧
    (after capacity history).hits + (after capacity history).misses =
      (history.filterMap Operation.spec?).length ∧
    (forall later,
      (after capacity history).hits ≤ (after capacity (history ++ later)).hits ∧
      (after capacity history).misses ≤ (after capacity (history ++ later)).misses) ∧
    (after capacity history).clear.hits = (after capacity history).hits ∧
    (after capacity history).clear.misses = (after capacity history).misses := by
  refine ⟨fun spec => ?_, ?_, ?_, ?_, fun later => ?_, rfl, rfl⟩
  · exact congrArg Prod.fst (lookup_after capacity history spec)
  · rw [map_fst_entries_after]
    exact nodup_keep capacity (nodup_recency _)
  · rw [map_fst_entries_after]
    exact (holds_after capacity history).held
  · have counted := (counts_run (new capacity) history).1
    have fresh : (new capacity).hits + (new capacity).misses = 0 := rfl
    rw [fresh, Nat.zero_add] at counted
    exact counted
  · rw [after_append]
    exact (counts_run (after capacity history) later).2

end Cache
end SongPath
