import Mathlib.Data.Char
import Mathlib.Data.List.Lex
import Mathlib.Data.List.Sort
import LoggerHigh.Sinks.ShardName

/-!
# The eviction sweep

The parts of `EvictionRunner::SweepOnce_`: the body of the listing loop, the sort,
and the body of the removal loop. What the file system answers comes with each
of them.

## Main definitions

- `looksLikeShard` — the filter on names
- `DirEntry`, `Listing`, `listEntry` — one round of the listing loop
- `sortEntries` — oldest first, by name
- `examine` — one round of the removal loop
-/

namespace LoggerHigh

/-- `LooksLikeShard`: longer than prefix and suffix together, with both in place. -/
def looksLikeShard (name : FileName) : Bool :=
  8 < name.length && name.take 4 == ['l', 'o', 'g', '-'] &&
    name.drop (name.length - 4) == ['.', 'b', 'i', 'n']

/-- The `Entry` of a sweep; its path is `dir_ / filename`. -/
structure Entry where
  filename : FileName
  size : ℕ
  deriving DecidableEq, Repr

/-- A directory entry and the file system's answers about it, `none` for an error. -/
structure DirEntry where
  filename : FileName
  isRegularFile : Option Bool
  fileSize : Option ℕ
  deriving DecidableEq, Repr

/-- The variables of the listing loop; `ec` is shared by all its calls. -/
structure Listing where
  entries : List Entry
  total : ℕ
  ec : Bool
  deriving DecidableEq, Repr

/-- Before the first entry. -/
def Listing.empty : Listing := ⟨[], 0, false⟩

/-- One round of the listing loop; `none` when `SweepOnce_` returns. A call that
succeeds clears `ec`. -/
def listEntry (l : Listing) (de : DirEntry) : Option Listing :=
  if l.ec then none
  else match de.isRegularFile with
    | none => some { l with ec := true }
    | some false => some { l with ec := false }
    | some true =>
      if looksLikeShard de.filename then
        match de.fileSize with
        | none => some { l with ec := true }
        | some sz => some ⟨l.entries ++ [⟨de.filename, sz⟩], addSize l.total sz, false⟩
      else some { l with ec := false }

/-- `std::sort` by file name. -/
def sortEntries (entries : List Entry) : List Entry :=
  entries.insertionSort fun a b => a.filename ≤ b.filename

/-- What the removal loop does with an entry. -/
inductive Verdict
  /-- The total is within the cap. -/
  | stop
  /-- The entry is the active shard. -/
  | skip
  /-- `remove` is called. -/
  | remove
  deriving DecidableEq, Repr

/-- The decision of the removal loop. Canonical paths are `none` when the call
failed; that of the active shard is then the empty path. -/
def examine {κ : Type} [DecidableEq κ] (cap total : ℕ) (activeCanon curCanon : Option κ) :
    Verdict :=
  if total ≤ cap then .stop
  else if activeCanon ≠ none ∧ curCanon ≠ none ∧ curCanon = activeCanon then .skip
  else .remove

/-- `total -= e.size` on a `std::uintmax_t`. -/
def subSize (a b : ℕ) : ℕ := (a + 2 ^ 64 - b % 2 ^ 64) % 2 ^ 64

end LoggerHigh
