import LoggerHigh.Lib.ByteMemory
import LoggerHigh.Lib.LittleEndian

/-!
# Length-prefixed frames

A frame is a payload after its length in four little-endian bytes; a stream of
frames is their concatenation. `layoutFrom` says at which position of a memory
each frame of such a stream lies.

## Main definitions

- `frame`, `frames`, `span`: one frame, a stream of frames, its length
- `layoutFrom`: the frames of a stream with their positions
- `Stored`: a frame lies complete in memory

## Main results

- `layoutFrom_disjoint`: different frames of a layout occupy disjoint ranges
- `mem_layoutFrom_bounds`: every frame lies within the span of the stream
-/

namespace LengthPrefix

/-- `payload` after its length. -/
def frame (payload : List UInt8) : List UInt8 :=
  LittleEndian.encode 4 payload.length ++ payload

/-- The frames of several payloads, one after the other. -/
def frames (payloads : List (List UInt8)) : List UInt8 := payloads.flatMap frame

/-- How many bytes the frames of `payloads` take. -/
def span : List (List UInt8) → ℕ
  | [] => 0
  | p :: ps => 4 + p.length + span ps

/-- The payloads with the positions of their frames, the first at `pos`. -/
def layoutFrom (pos : ℕ) : List (List UInt8) → List (ℕ × List UInt8)
  | [] => []
  | p :: ps => (pos, p) :: layoutFrom (pos + (4 + p.length)) ps

/-- The frame of `payload` lies complete at `pos`. -/
def Stored (m : ByteMemory) (pos : ℕ) (payload : List UInt8) : Prop :=
  m.slice pos 4 = LittleEndian.encode 4 payload.length ∧
    m.slice (pos + 4) payload.length = payload

variable {pos : ℕ} {ps qs : List (List UInt8)}

@[simp] theorem length_frame (p : List UInt8) : (frame p).length = 4 + p.length := by
  rw [frame, List.length_append, LittleEndian.length_encode]

@[simp] theorem span_nil : span [] = 0 := rfl

@[simp] theorem span_cons (p : List UInt8) (ps : List (List UInt8)) :
    span (p :: ps) = 4 + p.length + span ps := rfl

@[simp] theorem span_append (ps qs : List (List UInt8)) : span (ps ++ qs) = span ps + span qs := by
  induction ps with
  | nil => rw [List.nil_append, span_nil, Nat.zero_add]
  | cons p ps ih =>
    rw [List.cons_append, span_cons, span_cons, ih]
    omega

theorem eq_nil_of_span_eq_zero (h : span ps = 0) : ps = [] := by
  cases ps with
  | nil => rfl
  | cons p ps =>
    rw [span_cons] at h
    omega

theorem frames_append_singleton (ps : List (List UInt8)) (p : List UInt8) :
    frames (ps ++ [p]) = frames ps ++ frame p := by
  rw [frames, frames, List.flatMap_append, List.flatMap_singleton]

@[simp] theorem layoutFrom_nil (pos : ℕ) : layoutFrom pos [] = [] := rfl

theorem layoutFrom_cons (pos : ℕ) (p : List UInt8) (ps : List (List UInt8)) :
    layoutFrom pos (p :: ps) = (pos, p) :: layoutFrom (pos + (4 + p.length)) ps := rfl

/-- A stream after another one starts where that one ends. -/
theorem layoutFrom_append (pos : ℕ) (ps qs : List (List UInt8)) :
    layoutFrom pos (ps ++ qs) = layoutFrom pos ps ++ layoutFrom (pos + span ps) qs := by
  induction ps generalizing pos with
  | nil => rfl
  | cons p ps ih =>
    rw [List.cons_append, layoutFrom_cons, layoutFrom_cons, ih, List.cons_append, span_cons,
      Nat.add_assoc]

theorem layoutFrom_append_singleton (pos : ℕ) (ps : List (List UInt8)) (p : List UInt8) :
    layoutFrom pos (ps ++ [p]) = layoutFrom pos ps ++ [(pos + span ps, p)] :=
  layoutFrom_append pos ps [p]

/-- A layout lists the payloads in order. -/
theorem map_snd_layoutFrom (pos : ℕ) (ps : List (List UInt8)) :
    (layoutFrom pos ps).map Prod.snd = ps := by
  induction ps generalizing pos with
  | nil => rfl
  | cons p ps ih => rw [layoutFrom_cons, List.map_cons, ih]

/-- Every frame lies within the span of its stream. -/
theorem mem_layoutFrom_bounds {x : ℕ × List UInt8} (h : x ∈ layoutFrom pos ps) :
    pos ≤ x.1 ∧ x.1 + (4 + x.2.length) ≤ pos + span ps := by
  induction ps generalizing pos with
  | nil => cases h
  | cons p ps ih =>
    rw [layoutFrom_cons, List.mem_cons] at h
    rw [span_cons]
    rcases h with rfl | h
    · exact ⟨Nat.le_refl _, by simp only; omega⟩
    · have := ih h
      omega

/-- Later frames start where earlier ones have ended. -/
theorem pairwise_layoutFrom (pos : ℕ) (ps : List (List UInt8)) :
    (layoutFrom pos ps).Pairwise fun x y => x.1 + (4 + x.2.length) ≤ y.1 := by
  induction ps generalizing pos with
  | nil => exact List.Pairwise.nil
  | cons p ps ih =>
    rw [layoutFrom_cons, List.pairwise_cons]
    exact ⟨fun y hy => (mem_layoutFrom_bounds hy).1, ih _⟩

/-- The frames of a layout are in order of their positions. -/
theorem sorted_layoutFrom (pos : ℕ) (ps : List (List UInt8)) :
    (layoutFrom pos ps).Pairwise fun x y => x.1 < y.1 :=
  (pairwise_layoutFrom pos ps).imp fun {x y} h => by omega

theorem nodup_layoutFrom (pos : ℕ) (ps : List (List UInt8)) : (layoutFrom pos ps).Nodup := by
  refine (sorted_layoutFrom pos ps).imp fun {x y} h => ?_
  rintro rfl
  exact Nat.lt_irrefl _ h

/-- Different frames of a layout occupy disjoint ranges. -/
theorem layoutFrom_disjoint {x y : ℕ × List UInt8} (hx : x ∈ layoutFrom pos ps)
    (hy : y ∈ layoutFrom pos ps) (hne : x ≠ y) :
    x.1 + (4 + x.2.length) ≤ y.1 ∨ y.1 + (4 + y.2.length) ≤ x.1 := by
  induction ps generalizing pos with
  | nil => cases hx
  | cons p ps ih =>
    rw [layoutFrom_cons, List.mem_cons] at hx hy
    rcases hx with rfl | hx <;> rcases hy with rfl | hy
    · exact absurd rfl hne
    · exact .inl (mem_layoutFrom_bounds hy).1
    · exact .inr (mem_layoutFrom_bounds hx).1
    · exact ih hx hy

/-- The position of a frame determines it. -/
theorem eq_of_fst_eq {x y : ℕ × List UInt8} (hx : x ∈ layoutFrom pos ps)
    (hy : y ∈ layoutFrom pos ps) (h : x.1 = y.1) : x = y := by
  by_contra hne
  have := layoutFrom_disjoint hx hy hne
  omega

theorem mem_layoutFrom_append_left {x : ℕ × List UInt8} (h : x ∈ layoutFrom pos ps) :
    x ∈ layoutFrom pos (ps ++ qs) := by
  rw [layoutFrom_append]
  exact List.mem_append_left _ h

/-- A complete frame reads back as header and payload in one piece. -/
theorem Stored.slice_eq {m : ByteMemory} {p : List UInt8} (h : Stored m pos p) :
    m.slice pos (4 + p.length) = frame p := by
  rw [ByteMemory.slice_add, h.1, h.2, frame]

end LengthPrefix
