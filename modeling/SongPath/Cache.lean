import SongPath.Pattern

/-!
# The cache of compiled specifications

Compiling is remembered by specification text, failures included.  Entries are
kept most recently used first.  A bounded cache that is full forgets its least
recently used entry when a new one comes in.
-/

namespace SongPath

/-- What compiling a specification gave. -/
abbrev Compiled := Except Defect Pattern

/-- Remembered results, most recently used first, and the counts of lookups
that found one and that did not.  Capacity zero means no bound. -/
structure Cache where
  capacity : Nat
  entries : List (Text × Compiled)
  hits : Nat
  misses : Nat

namespace Cache

/-- The capacity used when none is asked for. -/
def defaultCapacity : Nat :=
  64

/-- A cache that remembers nothing yet.  It takes up room as it fills, so it can
be made for every capacity.  A table that is laid out for its whole capacity at
the start is taken to fit into memory. -/
def new (capacity : Nat) : Cache :=
  ⟨capacity, [], 0, 0⟩

/-- The remembered result of a specification. -/
def find? (cache : Cache) (spec : Text) : Option Compiled :=
  (cache.entries.find? fun entry => entry.1 == spec).map (·.2)

/-- Items cut down to what the capacity allows, the first ones kept. -/
def keep {α : Type} (capacity : Nat) (items : List α) : List α :=
  if capacity = 0 then items else items.take capacity

/-- Look a specification up, compiling it if it is not remembered.  Either way
it becomes the most recently used entry. -/
def lookup (cache : Cache) (spec : Text) : Compiled × Cache :=
  match cache.find? spec with
  | some compiled =>
      (compiled, { cache with
        entries := (spec, compiled) :: cache.entries.eraseP fun entry => entry.1 == spec
        hits := cache.hits + 1 })
  | none =>
      let compiled := Pattern.compile spec
      (compiled, { cache with
        entries := keep cache.capacity ((spec, compiled) :: cache.entries)
        misses := cache.misses + 1 })

/-- Forget every entry; the counts stay. -/
def clear (cache : Cache) : Cache :=
  { cache with entries := [] }

/-- The number of remembered specifications. -/
def size (cache : Cache) : Nat :=
  cache.entries.length

end Cache
end SongPath
