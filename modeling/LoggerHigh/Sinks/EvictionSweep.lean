import LoggerHigh.Lib.Loop
import LoggerHigh.Lib.Trim
import LoggerHigh.Sinks.EvictionRunner

/-!
# One sweep

`EvictionRunner::SweepOnce_` as a whole: the listing loop over any directory, the
sort, and the removal loop, with any answers of the file system.

## Main definitions

- `SweepAnswers` — what the file system and the callback answer during one sweep
- `Removal`, `removalBody`, `removalLoop` — the removal loop
- `sweepOnce` — the entries it removes, in order
- `shardEntries` — the shards of a listing whose metadata can be read

## Main results

- `foldlM_listEntry`, `foldlM_listEntry_of_fails` — what the listing loop finds
- `removed_removalLoop` — the removal loop takes a shortest prefix
- `sweep_minimal` — without errors it removes the oldest shards, and no more than needed
-/

namespace LoggerHigh

open Loop Trim

/-- What the file system and `get_active_shard` answer. Canonical paths are `none` for an
error, and the active path is `none` when it is empty. -/
structure SweepAnswers (κ : Type) where
  dirExists : Bool
  listing : List DirEntry
  active : Option FileName
  activeCanon : Option κ
  canon : FileName → Option κ
  removeOk : FileName → Bool

/-- The variables of the removal loop, and the entries removed so far. -/
structure Removal where
  total : ℕ
  removed : List Entry
  rest : List Entry
  deriving DecidableEq, Repr

section Sweep

variable {κ : Type} [DecidableEq κ] (cap : ℕ) (w : SweepAnswers κ)

/-- `active_canon`, `none` for the empty path. -/
def SweepAnswers.activePath : Option κ := if w.active.isSome then w.activeCanon else none

/-- One round of the removal loop; it is left at the end of the entries or by `break`. -/
def removalBody (r : Removal) : Removal ⊕ Removal :=
  match r.rest with
  | [] => .inr r
  | e :: rest =>
    match examine cap r.total w.activePath (w.canon e.filename) with
    | .stop => .inr r
    | .skip => .inl { r with rest }
    | .remove =>
      if w.removeOk e.filename then .inl ⟨subSize r.total e.size, r.removed ++ [e], rest⟩
      else .inl { r with rest }

/-- The removal loop; there are no more rounds than entries, and the end. -/
def removalLoop (r : Removal) : Removal :=
  (rounds (removalBody cap w) (r.rest.length + 1) r).elim id id

/-- The start of the removal loop. -/
def Removal.start (l : Listing) : Removal := ⟨l.total, [], sortEntries l.entries⟩

/-- `SweepOnce_` -/
def sweepOnce : List Entry :=
  if w.dirExists then
    match w.listing.foldlM listEntry .empty with
    | none => []
    | some l => if l.total ≤ cap then [] else (removalLoop cap w (.start l)).removed
  else []

end Sweep

-- ═══════════════════════════════════════════════════════════════════════════
-- The listing loop
-- ═══════════════════════════════════════════════════════════════════════════

/-- The metadata of the entry cannot be read as far as the loop asks for it. -/
def DirEntry.Fails (de : DirEntry) : Prop :=
  de.isRegularFile = none ∨
    de.isRegularFile = some true ∧ looksLikeShard de.filename = true ∧ de.fileSize = none

instance (de : DirEntry) : Decidable de.Fails := inferInstanceAs (Decidable (_ ∨ _))

/-- The `Entry` of a shard whose metadata can be read. -/
def DirEntry.shard (de : DirEntry) : Option Entry :=
  if de.isRegularFile = some true ∧ looksLikeShard de.filename = true then
    de.fileSize.map (Entry.mk de.filename)
  else none

/-- The shards of a listing whose metadata can be read. -/
def shardEntries (listing : List DirEntry) : List Entry := listing.filterMap DirEntry.shard

/-- No entry but the last fails. -/
def ListsAll (listing : List DirEntry) : Prop := ∀ de ∈ listing.dropLast, ¬ de.Fails

instance (listing : List DirEntry) : Decidable (ListsAll listing) :=
  inferInstanceAs (Decidable (∀ de ∈ listing.dropLast, ¬ de.Fails))

/-- One round of the listing loop. -/
theorem listEntry_eq {l : Listing} (h : l.ec = false) (de : DirEntry) :
    listEntry l de = some ⟨l.entries ++ de.shard.toList,
      de.shard.elim l.total fun e => addSize l.total e.size, decide de.Fails⟩ := by
  obtain ⟨entries, total, ec⟩ := l
  obtain ⟨name, regular, size⟩ := de
  obtain rfl : ec = false := h
  cases regular with
  | none => simp [listEntry, DirEntry.shard, DirEntry.Fails]
  | some regular =>
    cases regular with
    | false => simp [listEntry, DirEntry.shard, DirEntry.Fails]
    | true =>
      by_cases hname : looksLikeShard name = true
      · cases size <;> simp [listEntry, DirEntry.shard, DirEntry.Fails, hname]
      · simp [listEntry, DirEntry.shard, DirEntry.Fails, hname]

theorem listEntry_of_ec {l : Listing} (h : l.ec = true) (de : DirEntry) : listEntry l de = none :=
  if_pos h

/-- When no entry but the last fails, the loop finds all shards it can read. -/
theorem foldlM_listEntry {l : Listing} {listing : List DirEntry} {sum : ℕ} (h : ListsAll listing)
    (hec : l.ec = false) (htotal : l.total = sum % 2 ^ 64) :
    ∃ ec, listing.foldlM listEntry l = some ⟨l.entries ++ shardEntries listing,
      (sum + weight Entry.size (shardEntries listing)) % 2 ^ 64, ec⟩ := by
  induction listing generalizing l sum with
  | nil =>
    refine ⟨l.ec, ?_⟩
    rw [shardEntries, List.filterMap_nil, List.append_nil, weight_nil, Nat.add_zero, ← htotal]
    rfl
  | cons de listing ih =>
    have hentries : l.entries ++ shardEntries (de :: listing) =
        l.entries ++ de.shard.toList ++ shardEntries listing := by
      rw [shardEntries, List.filterMap_cons, List.append_assoc]
      cases de.shard <;> rfl
    have hsum : de.shard.elim l.total (fun e => addSize l.total e.size) =
        (sum + weight Entry.size de.shard.toList) % 2 ^ 64 := by
      cases de.shard with
      | none => exact htotal
      | some e =>
        show (l.total + e.size) % 2 ^ 64 = (sum + (e.size + 0)) % 2 ^ 64
        rw [htotal, Nat.add_zero, Nat.mod_add_mod]
    have hweight : sum + weight Entry.size (shardEntries (de :: listing)) =
        sum + weight Entry.size de.shard.toList + weight Entry.size (shardEntries listing) := by
      rw [Nat.add_assoc, ← weight_append]
      rw [shardEntries, List.filterMap_cons]
      cases de.shard <;> rfl
    rw [List.foldlM_cons, listEntry_eq hec, hsum, hentries, hweight]
    cases listing with
    | nil =>
      refine ⟨decide de.Fails, ?_⟩
      rw [shardEntries, List.filterMap_nil, List.append_nil, weight_nil, Nat.add_zero]
      rfl
    | cons de' listing =>
      have hde : ¬ de.Fails := h de List.mem_cons_self
      exact ih (fun d hd => h d (List.mem_cons_of_mem de hd)) (decide_eq_false hde) rfl

/-- Otherwise the loop returns at the entry behind one that fails. -/
theorem foldlM_listEntry_of_fails {l : Listing} {listing : List DirEntry} (h : ¬ ListsAll listing)
    (hec : l.ec = false) : listing.foldlM listEntry l = none := by
  induction listing generalizing l with
  | nil => exact absurd (List.forall_mem_nil _) h
  | cons de listing ih =>
    cases listing with
    | nil => exact absurd (List.forall_mem_nil _) h
    | cons de' listing =>
      rw [List.foldlM_cons, listEntry_eq hec]
      by_cases hde : de.Fails
      · rw [Option.bind_eq_bind, Option.bind_some, List.foldlM_cons,
          listEntry_of_ec (decide_eq_true hde)]
        rfl
      · refine ih (fun hall => h fun d hd => ?_) (decide_eq_false hde)
        rcases List.mem_cons.mp hd with rfl | hd
        · exact hde
        · exact hall d hd

-- ═══════════════════════════════════════════════════════════════════════════
-- The removal loop
-- ═══════════════════════════════════════════════════════════════════════════

section Removal

variable {κ : Type} [DecidableEq κ] {cap : ℕ} {w : SweepAnswers κ}

/-- The loop goes past the entry: it is found to be the active shard. -/
def SweepAnswers.Spared (w : SweepAnswers κ) (e : Entry) : Prop :=
  w.activePath ≠ none ∧ w.canon e.filename ≠ none ∧ w.canon e.filename = w.activePath

instance (w : SweepAnswers κ) (e : Entry) : Decidable (w.Spared e) :=
  inferInstanceAs (Decidable (_ ∧ _ ∧ _))

/-- Over the cap, the loop removes the entry. -/
def SweepAnswers.removable (w : SweepAnswers κ) (e : Entry) : Bool :=
  ¬ w.Spared e ∧ w.removeOk e.filename = true

theorem removable_iff {e : Entry} :
    w.removable e = true ↔ ¬ w.Spared e ∧ w.removeOk e.filename = true := decide_eq_true_iff

/-- What is left is too much, as far as the running total shows it. -/
def Over (cap rest : ℕ) : Prop := cap < rest % 2 ^ 64

instance (cap rest : ℕ) : Decidable (Over cap rest) := inferInstanceAs (Decidable (_ < _))

theorem removalBody_nil {r : Removal} (h : r.rest = []) : removalBody cap w r = .inr r := by
  rw [removalBody, h]

theorem examine_eq (total : ℕ) (e : Entry) :
    examine cap total w.activePath (w.canon e.filename) =
      if total ≤ cap then .stop else if w.Spared e then .skip else .remove := rfl

/-- One round with an entry. -/
theorem removalBody_cons {r : Removal} {e : Entry} {rest : List Entry} (h : r.rest = e :: rest) :
    removalBody cap w r =
      if r.total ≤ cap then .inr r
      else if w.removable e then .inl ⟨subSize r.total e.size, r.removed ++ [e], rest⟩
      else .inl { r with rest } := by
  rw [removalBody, h]
  simp only [examine_eq]
  by_cases hcap : r.total ≤ cap
  · rw [if_pos hcap, if_pos hcap]
  · rw [if_neg hcap, if_neg hcap]
    by_cases hspared : w.Spared e
    · rw [if_pos hspared, if_neg fun h => (removable_iff.mp h).1 hspared]
    · rw [if_neg hspared]
      by_cases hok : w.removeOk e.filename = true
      · rw [if_pos (removable_iff.mpr ⟨hspared, hok⟩)]
        exact if_pos hok
      · rw [if_neg fun h => hok (removable_iff.mp h).2]
        exact if_neg hok

/-- Subtracting modulo the size of the type. -/
theorem subSize_mod {a b : ℕ} (h : b ≤ a) : subSize (a % 2 ^ 64) b = (a - b) % 2 ^ 64 := by
  rw [subSize]
  omega

/-- The rounds from a state in which `sum` bytes are left take a shortest prefix of
the entries that can be removed. -/
theorem exists_rounds_removalBody {r : Removal} {sum n : ℕ} (hn : r.rest.length < n)
    (htotal : r.total = sum % 2 ^ 64) (hsum : weight Entry.size r.rest ≤ sum) :
    ∃ r', rounds (removalBody cap w) n r = .inr r' ∧
      r'.removed = r.removed ++ taken Entry.size (Over cap) sum (r.rest.filter w.removable) := by
  induction n generalizing r sum with
  | zero => exact absurd hn (Nat.not_lt_zero _)
  | succ n ih =>
    cases hrest : r.rest with
    | nil =>
      refine ⟨r, ?_, (List.append_nil _).symm⟩
      rw [rounds, removalBody_nil hrest]
      rfl
    | cons e rest =>
      rw [hrest, List.length_cons] at hn
      rw [hrest, weight_cons] at hsum
      have hbody := @removalBody_cons κ _ cap w r e rest hrest
      by_cases hcap : r.total ≤ cap
      · rw [if_pos hcap] at hbody
        have hover : ¬ Over cap sum := fun hlt => Nat.not_lt.mpr hcap (htotal ▸ hlt)
        refine ⟨r, ?_, ?_⟩
        · rw [rounds, hbody]
          rfl
        · rw [taken_of_not_over hover, List.append_nil]
      · rw [if_neg hcap] at hbody
        have hover : Over cap sum := by
          rw [Over, ← htotal]
          exact Nat.lt_of_not_le hcap
        rw [List.filter_cons]
        by_cases hremove : w.removable e
        · rw [if_pos hremove] at hbody ⊢
          obtain ⟨r', hr', hremoved⟩ := @ih
            ⟨subSize r.total e.size, r.removed ++ [e], rest⟩ (sum - e.size)
            (Nat.lt_of_succ_lt_succ hn) (by rw [htotal, subSize_mod (by omega)])
            (show weight Entry.size rest ≤ _ by omega)
          refine ⟨r', (rounds_succ_of_inl hbody n).trans hr', ?_⟩
          rw [hremoved, taken_cons_of_over hover, List.append_assoc, List.singleton_append]
        · rw [if_neg hremove] at hbody ⊢
          obtain ⟨r', hr', hremoved⟩ := @ih { r with rest } sum
            (Nat.lt_of_succ_lt_succ hn) htotal (show weight Entry.size rest ≤ _ by omega)
          exact ⟨r', (rounds_succ_of_inl hbody n).trans hr', hremoved⟩

/-- The bytes in the shards the sweep can read. -/
def SweepAnswers.readable (w : SweepAnswers κ) : ℕ := weight Entry.size (shardEntries w.listing)

/-- The entries in the order of the removal loop. -/
def SweepAnswers.sorted (w : SweepAnswers κ) : List Entry := sortEntries (shardEntries w.listing)

omit [DecidableEq κ] in
theorem SweepAnswers.perm_sorted (w : SweepAnswers κ) : w.sorted.Perm (shardEntries w.listing) :=
  List.perm_insertionSort _ _

/-- What a sweep removes, whatever the file system answers. -/
theorem sweepOnce_eq (cap : ℕ) (w : SweepAnswers κ) :
    sweepOnce cap w = if w.dirExists = true ∧ ListsAll w.listing then
      taken Entry.size (Over cap) w.readable (w.sorted.filter w.removable) else [] := by
  rw [sweepOnce]
  by_cases hdir : w.dirExists = true
  case neg => rw [if_neg hdir, if_neg fun h => hdir h.1]
  rw [if_pos hdir]
  by_cases hlist : ListsAll w.listing
  case neg =>
    rw [if_neg fun h => hlist h.2, foldlM_listEntry_of_fails hlist rfl]
  rw [if_pos ⟨hdir, hlist⟩]
  obtain ⟨ec, hfold⟩ := @foldlM_listEntry .empty _ 0 hlist rfl rfl
  rw [hfold, Nat.zero_add]
  by_cases hcap : w.readable % 2 ^ 64 ≤ cap
  · have hover : ¬ Over cap w.readable := Nat.not_lt.mpr hcap
    rw [taken_of_not_over hover]
    exact if_pos hcap
  · refine (if_neg hcap).trans ?_
    obtain ⟨r', hr', hremoved⟩ := @exists_rounds_removalBody κ _ cap w
      (.start ⟨shardEntries w.listing, w.readable % 2 ^ 64, ec⟩) w.readable _
      (Nat.lt_succ_self _) rfl
      (show weight Entry.size w.sorted ≤ w.readable from Nat.le_of_eq (weight_perm w.perm_sorted))
    exact (congrArg (fun r => (r.elim id id).removed) hr').trans hremoved

/-- What the sweep leaves of the shards it can read. -/
def SweepAnswers.left (w : SweepAnswers κ) (removed : List Entry) : List Entry :=
  (shardEntries w.listing).diff removed

omit [DecidableEq κ] in
/-- What is left completes what was removed. -/
theorem SweepAnswers.left_perm {removed rest : List Entry}
    (h : (removed ++ rest).Perm (shardEntries w.listing)) : (w.left removed).Perm rest := by
  have hself : ∀ removed : List Entry, (removed ++ rest).diff removed = rest := by
    intro removed
    induction removed with
    | nil => rfl
    | cons e removed ih => rwa [List.diff_cons, List.cons_append, List.erase_cons_head]
  have hperm := h.symm.diff_right removed
  rwa [hself] at hperm

/-- Between two rounds: the entries removed, passed over and to come are those listed,
and the running total is the size of those not removed. -/
structure RemovalInv (w : SweepAnswers κ) (r : Removal) (kept : List Entry) : Prop where
  perm : (r.removed ++ (kept ++ r.rest)).Perm (shardEntries w.listing)
  total : r.total = weight Entry.size (kept ++ r.rest) % 2 ^ 64

theorem RemovalInv.round {r r' : Removal} {kept : List Entry} (h : RemovalInv w r kept)
    (hbody : removalBody cap w r = .inl r') : ∃ kept', RemovalInv w r' kept' := by
  obtain ⟨hperm, htotal⟩ := h
  cases hrest : r.rest with
  | nil =>
    rw [removalBody_nil hrest] at hbody
    cases hbody
  | cons e rest =>
    rw [removalBody_cons hrest] at hbody
    rw [hrest] at hperm htotal
    split at hbody
    · cases hbody
    split at hbody
    · cases hbody
      have hmove :
          (r.removed ++ [e] ++ (kept ++ rest)).Perm (r.removed ++ (kept ++ e :: rest)) := by
        rw [List.append_assoc]
        exact List.Perm.append_left _
          (show (e :: (kept ++ rest)).Perm (kept ++ e :: rest) from List.perm_middle.symm)
      have hweight : weight Entry.size (kept ++ e :: rest) =
          weight Entry.size (kept ++ rest) + e.size := by
        rw [weight_append, weight_append, weight_cons]
        omega
      refine ⟨kept, hmove.trans hperm, ?_⟩
      show subSize r.total e.size = weight Entry.size (kept ++ rest) % 2 ^ 64
      rw [htotal, hweight, subSize_mod (Nat.le_add_left _ _), Nat.add_sub_cancel]
    · cases hbody
      refine ⟨kept ++ [e], ?_, ?_⟩
      · rwa [List.append_assoc, List.singleton_append]
      · rwa [List.append_assoc, List.singleton_append]

/-- The start of the removal loop when the listing loop has found all shards. -/
def SweepAnswers.start (w : SweepAnswers κ) : Removal := ⟨w.readable % 2 ^ 64, [], w.sorted⟩

/-- What the removal loop knows at the start of every round. -/
theorem removalInv_of_visits {r : Removal} (h : Visits (removalBody cap w) w.start r) :
    ∃ kept, RemovalInv w r kept := by
  refine h.invariant (I := fun r => ∃ kept, RemovalInv w r kept) ⟨[], w.perm_sorted, ?_⟩
    fun r r' hr hbody => ?_
  · exact congrArg (· % 2 ^ 64) (weight_perm w.perm_sorted).symm
  · obtain ⟨kept, hinv⟩ := hr
    exact hinv.round hbody

end Removal

-- ═══════════════════════════════════════════════════════════════════════════
-- Sweeps without errors
-- ═══════════════════════════════════════════════════════════════════════════

section Minimal

variable {κ : Type} [DecidableEq κ] {cap : ℕ} {w : SweepAnswers κ}

/-- The entry is the active shard: the canonical path is the same. -/
def SweepAnswers.IsActive (w : SweepAnswers κ) (e : Entry) : Prop :=
  ∃ a ∈ w.active, w.canon e.filename = w.canon a

instance (w : SweepAnswers κ) (e : Entry) : Decidable (w.IsActive e) :=
  inferInstanceAs (Decidable (∃ a ∈ w.active, _))

/-- The shards but the active one, in the order of their names. -/
def SweepAnswers.evictable (w : SweepAnswers κ) : List Entry :=
  w.sorted.filter fun e => ¬ w.IsActive e

/-- Apart from the metadata of the entries nothing fails, and the canonical path of the
active shard is that of its entry. -/
structure SweepAnswers.RestOk (w : SweepAnswers κ) : Prop where
  dirExists : w.dirExists = true
  activeCanon : ∀ a ∈ w.active, w.activeCanon = w.canon a
  canon : ∀ name, w.canon name ≠ none
  removeOk : ∀ name, w.removeOk name = true

omit [DecidableEq κ] in
theorem SweepAnswers.RestOk.spared_iff (h : w.RestOk) (e : Entry) : w.Spared e ↔ w.IsActive e := by
  rw [SweepAnswers.Spared, SweepAnswers.IsActive, SweepAnswers.activePath]
  cases hactive : w.active with
  | none => simp
  | some a =>
    have hcanon : w.activeCanon = w.canon a := h.activeCanon a hactive
    simp [hcanon, h.canon]

/-- The sweep without errors in the file system calls after the listing. -/
theorem SweepAnswers.RestOk.sweepOnce_eq (h : w.RestOk) : sweepOnce cap w =
    if ListsAll w.listing then taken Entry.size (Over cap) w.readable w.evictable else [] := by
  have hfilter : w.sorted.filter w.removable = w.evictable := by
    refine List.filter_congr fun e _ => ?_
    rw [SweepAnswers.removable, h.removeOk e.filename]
    simp [h.spared_iff]
  rw [LoggerHigh.sweepOnce_eq, hfilter]
  simp [h.dirExists]

omit [DecidableEq κ] in
/-- The removal loop starts with all shards that can be read. -/
theorem start_of_foldlM {l : Listing} (h : w.listing.foldlM listEntry .empty = some l) :
    Removal.start l = w.start := by
  have hlist : ListsAll w.listing := by
    by_contra hnot
    rw [foldlM_listEntry_of_fails hnot rfl] at h
    cases h
  obtain ⟨ec, hfold⟩ := @foldlM_listEntry .empty _ 0 hlist rfl rfl
  cases h.symm.trans hfold
  rw [Nat.zero_add]
  rfl

/-- What a sweep without errors does. -/
structure SweepsMinimal (cap : ℕ) (w : SweepAnswers κ) : Prop where
  /-- Only `log-*.bin` files of the directory are touched. -/
  onlyShards : ∀ e ∈ sweepOnce cap w, looksLikeShard e.filename = true ∧
    e ∈ shardEntries w.listing
  within : w.readable ≤ cap → sweepOnce cap w = []
  candidates : w.evictable.Perm ((shardEntries w.listing).filter fun e => ¬ w.IsActive e)
  sorted : w.evictable.Pairwise fun e e' => e.filename ≤ e'.filename
  /-- The shards removed are the fewest, oldest first, that bring the rest within the cap. -/
  shortest : IsShortest Entry.size (cap < ·) w.readable w.evictable (sweepOnce cap w)
  /-- At the start of every round the running total is the size of what is left. -/
  total : ∀ l r, w.listing.foldlM listEntry .empty = some l →
    Visits (removalBody cap w) (.start l) r → r.total = weight Entry.size (w.left r.removed)
  /-- No subtraction underflows. -/
  covers : ∀ l r e rest, w.listing.foldlM listEntry .empty = some l →
    Visits (removalBody cap w) (.start l) r → r.rest = e :: rest → e.size ≤ r.total

omit [DecidableEq κ] in
theorem looksLikeShard_of_mem {listing : List DirEntry} {e : Entry}
    (h : e ∈ shardEntries listing) : looksLikeShard e.filename = true := by
  obtain ⟨de, -, hde⟩ := List.mem_filterMap.mp h
  rw [DirEntry.shard] at hde
  split at hde
  · next hshard =>
    obtain ⟨size, -, rfl⟩ := Option.map_eq_some_iff.mp hde
    exact hshard.2
  · cases hde

omit [DecidableEq κ] in
/-- At the start of every round the running total is the size of what is left, also
when calls of the file system fail. -/
theorem RemovalInv.total_eq {r : Removal} {kept : List Entry} (h : RemovalInv w r kept)
    (hsum : w.readable < 2 ^ 64) : r.total = weight Entry.size (w.left r.removed) ∧
      r.total = weight Entry.size (kept ++ r.rest) := by
  have hleft : weight Entry.size (w.left r.removed) = weight Entry.size (kept ++ r.rest) :=
    weight_perm (SweepAnswers.left_perm h.perm)
  have hle : weight Entry.size r.removed + weight Entry.size (kept ++ r.rest) = w.readable := by
    rw [← weight_append]
    exact weight_perm h.perm
  have htotal : r.total = weight Entry.size (kept ++ r.rest) := by
    rw [h.total, Nat.mod_eq_of_lt (by omega)]
  exact ⟨htotal.trans hleft.symm, htotal⟩

/-- For every content of the directory with sizes below `2 ^ 64` in total, every cap and
every active path, a sweep without errors removes the shortest prefix of the shards but
the active one, sorted by name, that brings the rest within the cap. -/
theorem sweep_minimal (cap : ℕ) (hrest : w.RestOk) (hread : ∀ de ∈ w.listing, ¬ de.Fails)
    (hsum : w.readable < 2 ^ 64) : SweepsMinimal cap w := by
  have hlist : ListsAll w.listing := fun de hde => hread de (List.mem_of_mem_dropLast hde)
  have hsweep : sweepOnce cap w = taken Entry.size (Over cap) w.readable w.evictable := by
    rw [hrest.sweepOnce_eq, if_pos hlist]
  have hperm : w.evictable.Perm ((shardEntries w.listing).filter fun e => ¬ w.IsActive e) :=
    w.perm_sorted.filter _
  have hshortest : IsShortest Entry.size (cap < ·) w.readable w.evictable (sweepOnce cap w) := by
    rw [hsweep]
    refine (isShortest_taken w.readable w.evictable).congr fun n hn => ?_
    rw [Over, Nat.mod_eq_of_lt (by omega)]
  refine ⟨?onlyShards, ?within, hperm, ?sorted, hshortest, ?total, ?covers⟩
  case onlyShards =>
    intro e he
    have hmem := List.mem_of_mem_filter (hperm.mem_iff.mp (hshortest.isPrefix.subset he))
    exact ⟨looksLikeShard_of_mem hmem, hmem⟩
  case within =>
    intro hcap
    rw [hsweep, taken_of_not_over]
    exact Nat.not_lt.mpr (Nat.le_trans (Nat.mod_le _ _) hcap)
  case sorted => exact (List.pairwise_insertionSort _ _).filter _
  case total =>
    intro l r hl hvisits
    rw [start_of_foldlM hl] at hvisits
    obtain ⟨kept, hinv⟩ := removalInv_of_visits hvisits
    exact (hinv.total_eq hsum).1
  case covers =>
    intro l r e rest hl hvisits hr
    rw [start_of_foldlM hl] at hvisits
    obtain ⟨kept, hinv⟩ := removalInv_of_visits hvisits
    rw [(hinv.total_eq hsum).2, hr, weight_append, weight_cons]
    omega

end Minimal

/-- Regular files without errors; canonical paths are the names themselves. -/
def plainAnswers (files : List (FileName × ℕ)) (active : FileName) : SweepAnswers FileName where
  dirExists := true
  listing := files.map fun f => ⟨f.1, some true, some f.2⟩
  active := some active
  activeCanon := some active
  canon := some
  removeOk _ := true

/-- The active shard stands between an empty shard and newer ones. -/
def mixedFiles : List (FileName × ℕ) :=
  [("log-4.bin".toList, 30), ("notes.txt".toList, 500), ("log-1.bin".toList, 20),
    ("log-3.bin".toList, 40), ("log-0.bin".toList, 0), ("log-2.bin".toList, 25)]

/-- With a cap of 60 of the 115 bytes the shards 0, 1 and 3 go. -/
theorem sweep_minimal_mixedFiles :
    sweepOnce 60 (plainAnswers mixedFiles "log-2.bin".toList) =
        [⟨"log-0.bin".toList, 0⟩, ⟨"log-1.bin".toList, 20⟩, ⟨"log-3.bin".toList, 40⟩] ∧
      SweepsMinimal 60 (plainAnswers mixedFiles "log-2.bin".toList) := by
  refine ⟨by decide +kernel,
    sweep_minimal 60 ⟨rfl, ?_, fun _ => Option.some_ne_none _, fun _ => rfl⟩
    (by decide) (by decide)⟩
  intro a ha
  exact ha

end LoggerHigh
