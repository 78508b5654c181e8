import LoggerHigh.Sinks.EvictionSweep

/-!
# Sweeps with file system errors

An error of one entry ends the sweep at the next entry, since the loop tests the
`ec` its own calls have set. An error of `weakly_canonical` lifts the protection
of the active shard.

## Main definitions

- `Enforced` — the cap is met, or only the active shard is left
- `StopsRight` — the running total never hides an overflow
- `Reached` — the removal loop comes to the active shard over the cap

## Main results

- `enforced_iff` — when a sweep enforces the cap
- `active_spared_iff` — when it spares the active shard
-/

namespace LoggerHigh

open Trim

section Errors

variable {κ : Type} [DecidableEq κ] {cap : ℕ} {w : SweepAnswers κ}

-- ═══════════════════════════════════════════════════════════════════════════
-- Entries that cannot be read
-- ═══════════════════════════════════════════════════════════════════════════

/-- Of the shards that can be read, those left meet the cap, or they are the active
shard only. -/
def Enforced (cap : ℕ) (w : SweepAnswers κ) (removed : List Entry) : Prop :=
  weight Entry.size (w.left removed) ≤ cap ∨ ∀ e ∈ w.left removed, w.IsActive e

/-- Whenever the running total is within the cap with shards still to remove, so is the
true one: sizes below `2 ^ 64` in total make sure of this. -/
def StopsRight (cap : ℕ) (w : SweepAnswers κ) : Prop :=
  ∀ p, p <+: w.evictable → p ≠ w.evictable →
    (w.readable - weight Entry.size p) % 2 ^ 64 ≤ cap → w.readable - weight Entry.size p ≤ cap

theorem stopsRight_of_lt (cap : ℕ) (h : w.readable < 2 ^ 64) : StopsRight cap w := by
  intro p _ _ hle
  rwa [Nat.mod_eq_of_lt (by omega)] at hle

/-- The shards that can be read are those to evict and the active one. -/
theorem perm_evictable (w : SweepAnswers κ) :
    (w.evictable ++ w.sorted.filter fun e => w.IsActive e).Perm (shardEntries w.listing) := by
  have hsplit := List.filter_append_perm (fun e => decide ¬ w.IsActive e) w.sorted
  simp only [decide_not, Bool.not_not] at hsplit
  refine List.Perm.trans ?_ w.perm_sorted
  simpa only [SweepAnswers.evictable, decide_not] using hsplit

/-- After the removal of a prefix, the shards behind it and the active one are left. -/
theorem left_perm_of_append {p back : List Entry} (h : w.evictable = p ++ back) :
    (w.left p).Perm (back ++ w.sorted.filter fun e => w.IsActive e) := by
  refine SweepAnswers.left_perm ?_
  rw [← List.append_assoc, ← h]
  exact perm_evictable w

/-- The size of what is left. -/
theorem weight_left {p : List Entry} (h : p <+: w.evictable) :
    weight Entry.size (w.left p) = w.readable - weight Entry.size p := by
  obtain ⟨back, hback⟩ := h
  have hreadable : w.readable = weight Entry.size w.evictable +
      weight Entry.size (w.sorted.filter fun e => w.IsActive e) := by
    rw [← weight_append]
    exact (weight_perm (perm_evictable w)).symm
  rw [weight_perm (left_perm_of_append hback.symm), hreadable, ← hback, weight_append,
    weight_append]
  omega

/-- Only the active shard is left when all others have been removed. -/
theorem left_active_iff {p : List Entry} (h : p <+: w.evictable) :
    (∀ e ∈ w.left p, w.IsActive e) ↔ p = w.evictable := by
  obtain ⟨back, hback⟩ := h
  simp only [(left_perm_of_append hback.symm).mem_iff]
  constructor
  · intro hactive
    have hnone : back = [] := by
      refine List.eq_nil_iff_forall_not_mem.mpr fun e he => ?_
      have hmem : e ∈ w.evictable := hback ▸ List.mem_append_right p he
      have hnot := (List.mem_filter.mp hmem).2
      exact of_decide_eq_true hnot (hactive e (List.mem_append_left _ he))
    rw [← hback, hnone, List.append_nil]
  · rintro rfl e he
    rw [List.append_right_eq_self.mp hback, List.nil_append] at he
    exact of_decide_eq_true (List.mem_filter.mp he).2

/-- For every listing and every error of `is_regular_file` and `file_size`, and no other
error, a sweep enforces the cap on the shards that can be read exactly if these meet it
already, or no entry but the last fails and the running total stops the loop rightly. -/
theorem enforced_iff (cap : ℕ) (hrest : w.RestOk) : Enforced cap w (sweepOnce cap w) ↔
    Enforced cap w [] ∨ ListsAll w.listing ∧ StopsRight cap w := by
  have hEnforced : ∀ {p}, p <+: w.evictable → (Enforced cap w p ↔
      w.readable - weight Entry.size p ≤ cap ∨ p = w.evictable) := by
    intro p hp
    rw [Enforced, weight_left hp, left_active_iff hp]
  rw [hrest.sweepOnce_eq]
  by_cases hlist : ListsAll w.listing
  case neg => rw [if_neg hlist, or_iff_left fun h => hlist h.1]
  rw [if_pos hlist, and_iff_right hlist]
  have hshortest : IsShortest Entry.size (Over cap) w.readable w.evictable _ :=
    isShortest_taken w.readable w.evictable
  generalize taken Entry.size (Over cap) w.readable w.evictable = removed at hshortest ⊢
  rw [hEnforced hshortest.isPrefix, hEnforced List.nil_prefix]
  constructor
  case mp =>
    intro hdone
    refine .inr fun p hp hne hstop => ?_
    -- the loop stops at `p` at the latest
    have hlater : removed <+: p := by
      rcases List.prefix_or_prefix_of_prefix hshortest.isPrefix hp with hpre | hpre
      · exact hpre
      · by_cases heq : p = removed
        · exact heq ▸ List.prefix_rfl
        · exact absurd hstop (Nat.not_le.mpr (hshortest.minimal p hpre heq))
    rcases hdone with hcap | rfl
    · have : weight Entry.size removed ≤ weight Entry.size p := weight_le_of_prefix hlater
      omega
    · exact absurd (hp.eq_of_length (Nat.le_antisymm hp.length_le hlater.length_le)) hne
  case mpr =>
    rintro (hinit | hstops)
    · rcases hinit with hcap | hempty
      · refine .inl (Nat.le_trans ?_ hcap)
        rw [weight_nil]
        omega
      · exact .inr (List.prefix_nil.mp (hempty ▸ hshortest.isPrefix) ▸ hempty)
    · by_cases hall : removed = w.evictable
      · exact .inr hall
      · have hnot := hshortest.enough.resolve_right hall
        exact .inl (hstops removed hshortest.isPrefix hall (Nat.not_lt.mp hnot))

-- ═══════════════════════════════════════════════════════════════════════════
-- Canonical paths that cannot be had
-- ═══════════════════════════════════════════════════════════════════════════

variable {a : FileName}

/-- `weakly_canonical` answers for the active path and for its entry, and the same. -/
def ActiveRecognised (w : SweepAnswers κ) (a : FileName) : Prop :=
  w.activeCanon ≠ none ∧ w.canon a = w.activeCanon

/-- The removal loop comes to the shard while the running total is over the cap. -/
def Reached (cap : ℕ) (w : SweepAnswers κ) (a : FileName) : Prop :=
  w.dirExists = true ∧ ListsAll w.listing ∧ ∃ front e back,
    w.sorted = front ++ e :: back ∧ e.filename = a ∧
      ∀ p, p <+: front → Over cap (w.readable - weight Entry.size (p.filter w.removable))

omit [DecidableEq κ] in
/-- The entry of the active shard is passed over exactly if it is recognised. -/
theorem spared_iff_recognised (hactive : w.active = some a) {e : Entry} (he : e.filename = a) :
    w.Spared e ↔ ActiveRecognised w a := by
  have hpath : w.activePath = w.activeCanon := by rw [SweepAnswers.activePath, hactive]; rfl
  rw [SweepAnswers.Spared, ActiveRecognised, hpath, he]
  constructor
  · exact fun h => ⟨h.1, h.2.2⟩
  · exact fun h => ⟨h.1, h.2 ▸ h.1, h.2⟩

/-- For every listing, every cap and all answers of the file system, a sweep leaves the
file of the active shard in place exactly if both canonical paths are had and equal, or
`remove` fails on it, or the removal loop does not come to it over the cap. -/
theorem active_spared_iff (cap : ℕ) (hactive : w.active = some a) :
    (∀ e ∈ sweepOnce cap w, e.filename ≠ a) ↔
      ActiveRecognised w a ∨ w.removeOk a = false ∨ ¬ Reached cap w a := by
  have hremovable : ∀ {e : Entry}, e.filename = a →
      (w.removable e = true ↔ ¬ ActiveRecognised w a ∧ w.removeOk a = true) := by
    intro e he
    rw [removable_iff, spared_iff_recognised hactive he, he]
  rw [sweepOnce_eq]
  by_cases hrun : w.dirExists = true ∧ ListsAll w.listing
  case neg =>
    rw [if_neg hrun]
    exact iff_of_true (List.forall_mem_nil _) (.inr (.inr fun h => hrun ⟨h.1, h.2.1⟩))
  rw [if_pos hrun]
  constructor
  · intro hspared
    by_contra hnot
    simp only [not_or, not_not, Bool.not_eq_false] at hnot
    obtain ⟨hunknown, hok, -, -, front, e, back, hsorted, he, hover⟩ := hnot
    refine hspared e (mem_taken_filter_iff.mpr ?_) he
    exact ⟨(hremovable he).mpr ⟨hunknown, hok⟩, front, back, hsorted, hover⟩
  · intro hcond e hmem he
    obtain ⟨hremove, front, back, hsorted, hover⟩ := mem_taken_filter_iff.mp hmem
    obtain ⟨hunknown, hok⟩ := (hremovable he).mp hremove
    rcases hcond with hknown | hfails | hunreached
    · exact hunknown hknown
    · rw [hfails] at hok
      cases hok
    · exact hunreached ⟨hrun.1, hrun.2, front, e, back, hsorted, he, hover⟩

end Errors

-- ═══════════════════════════════════════════════════════════════════════════
-- One error
-- ═══════════════════════════════════════════════════════════════════════════

/-- An entry whose type cannot be read comes before two shards. -/
def unreadableFirst : SweepAnswers FileName :=
  { plainAnswers [("log-1.bin".toList, 70), ("log-2.bin".toList, 40)] "log-2.bin".toList with
    listing := [⟨"gone".toList, none, none⟩, ⟨"log-1.bin".toList, some true, some 70⟩,
      ⟨"log-2.bin".toList, some true, some 40⟩] }

theorem restOk_unreadableFirst : unreadableFirst.RestOk where
  dirExists := rfl
  activeCanon _ ha := ha
  canon _ := Option.some_ne_none _
  removeOk _ := rfl

theorem enforced_iff_unreadableFirst :
    Enforced 50 unreadableFirst (sweepOnce 50 unreadableFirst) ↔
      Enforced 50 unreadableFirst [] ∨
        ListsAll unreadableFirst.listing ∧ StopsRight 50 unreadableFirst :=
  enforced_iff 50 restOk_unreadableFirst

/-- The sweep returns at the first shard, and 110 bytes stay in a directory for 50. -/
theorem unreadable_entry_stops_sweep :
    ¬ ∀ (cap : ℕ) (w : SweepAnswers FileName), w.RestOk → Enforced cap w (sweepOnce cap w) := by
  intro h
  have hleft : unreadableFirst.left (sweepOnce 50 unreadableFirst) =
      [⟨"log-1.bin".toList, 70⟩, ⟨"log-2.bin".toList, 40⟩] := by decide +kernel
  have henforced := h 50 unreadableFirst restOk_unreadableFirst
  rw [Enforced, hleft] at henforced
  revert henforced
  decide

/-- The canonical path of the active shard cannot be had. -/
def unknownActive : SweepAnswers FileName :=
  { plainAnswers [("log-1.bin".toList, 70)] "log-1.bin".toList with activeCanon := none }

theorem active_spared_iff_unknownActive :
    (∀ e ∈ sweepOnce 50 unknownActive, e.filename ≠ "log-1.bin".toList) ↔
      ActiveRecognised unknownActive "log-1.bin".toList ∨
        unknownActive.removeOk "log-1.bin".toList = false ∨
          ¬ Reached 50 unknownActive "log-1.bin".toList :=
  active_spared_iff 50 rfl

/-- The sweep then removes the active shard. -/
theorem unknown_active_removed :
    ¬ ∀ (cap : ℕ) (w : SweepAnswers FileName) (a : FileName), w.active = some a →
      ∀ e ∈ sweepOnce cap w, e.filename ≠ a := by
  intro h
  have hremoved : sweepOnce 50 unknownActive = [⟨"log-1.bin".toList, 70⟩] := by decide +kernel
  have hspared := h 50 unknownActive _ rfl ⟨"log-1.bin".toList, 70⟩
    (hremoved ▸ List.mem_singleton_self _)
  exact hspared rfl

end LoggerHigh
