import Mathlib.Data.List.Basic
import Mathlib.Tactic.Common

/-!
# Buffered output files

What is written to a file goes through the buffer of the stream and the cache of
the kernel before it is durable. A process writes one file at a time.

## Main definitions

- `File` — a file by how far its bytes have got
- `Op` — the calls of the library and of the system
- `Disk` — the open file and those closed before it

## Main results

- `File.durable_sync_flush` — flushing and syncing makes everything durable
- `File.durable_flush_iff` — closing makes nothing durable
-/

namespace Stdio

/-- The bytes of a file: those that survive a power failure, those in the cache of
the kernel, and those in the buffer of the stream. -/
structure File (α : Type*) where
  durable : List α
  kernel : List α
  buffer : List α
  deriving DecidableEq, Repr

namespace File

variable {α : Type*}

/-- A file that was just created. -/
def empty : File α := ⟨[], [], []⟩

/-- All bytes written so far. -/
def content (f : File α) : List α := f.durable ++ f.kernel ++ f.buffer

/-- `fwrite` -/
def write (d : List α) (f : File α) : File α := { f with buffer := f.buffer ++ d }

/-- `fflush` -/
def flush (f : File α) : File α := { f with kernel := f.kernel ++ f.buffer, buffer := [] }

/-- `fsync` -/
def sync (f : File α) : File α := { f with durable := f.durable ++ f.kernel, kernel := [] }

/-- Everything written so far is durable. -/
def Durable (f : File α) : Prop := f.durable = f.content

instance [DecidableEq α] (f : File α) : Decidable f.Durable :=
  inferInstanceAs (Decidable (_ = _))

@[simp] theorem content_empty : (empty : File α).content = [] := rfl

@[simp] theorem content_write (d : List α) (f : File α) : (f.write d).content = f.content ++ d :=
  (List.append_assoc _ _ _).symm

@[simp] theorem content_flush (f : File α) : f.flush.content = f.content := by
  simp only [content, flush, List.append_assoc, List.append_nil]

@[simp] theorem content_sync (f : File α) : f.sync.content = f.content := by
  simp only [content, sync, List.append_nil]

/-- Flushing and syncing makes everything durable. -/
theorem durable_sync_flush (f : File α) : f.flush.sync.Durable := by
  rw [Durable, content_sync, content_flush]
  simp only [flush, sync, content, List.append_assoc]

/-- Flushing alone makes nothing durable. -/
theorem durable_flush_iff (f : File α) : f.flush.Durable ↔ f.Durable := by
  rw [Durable, content_flush]
  exact Iff.rfl

end File

/-- The calls that concern the open file. -/
inductive Op (α : Type*)
  | fopen
  | fwrite (d : List α)
  | fflush
  | fclose
  | fsync
  deriving DecidableEq, Repr

/-- The files of a process that has at most one of them open. -/
structure Disk (α : Type*) where
  closed : List (File α)
  current : Option (File α)
  deriving DecidableEq, Repr

namespace Disk

variable {α : Type*}

/-- No file has been opened. -/
def blank : Disk α := ⟨[], none⟩

/-- All files, in the order of opening. -/
def files (d : Disk α) : List (File α) := d.closed ++ d.current.toList

/-- One call; `fclose` flushes. -/
def apply (d : Disk α) : Op α → Disk α
  | .fopen => { d with current := some .empty }
  | .fwrite b => { d with current := d.current.map (File.write b) }
  | .fflush => { d with current := d.current.map File.flush }
  | .fclose => ⟨d.closed ++ (d.current.map File.flush).toList, none⟩
  | .fsync => { d with current := d.current.map File.sync }

/-- Several calls. -/
def applyAll (d : Disk α) (ops : List (Op α)) : Disk α := ops.foldl apply d

end Disk

end Stdio
