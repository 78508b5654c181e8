import LoggerHigh.Lib.OrderedText
import LoggerHigh.Sinks.LocalTime

/-!
# The fields of a shard name as text

The date and the time of day are fields of fixed width, so they sort like the
second of local time. The milliseconds have a sign in readings before 1970, and
the number of the opening may be wider than its field.

## Main definitions

- `stampText` — date and time of day
- `millisRank` — the order of the milliseconds as text
- `seqAdvances` — the next number sorts after this one

## Main results

- `shardName_eq` — a name is a stamp, the milliseconds and the number
- `sorts_stamp`, `millis_lt_iff`, `seq_lt_iff` — the order of each part
-/

namespace LoggerHigh

open OrderedText

-- ═══════════════════════════════════════════════════════════════════════════
-- Numbers
-- ═══════════════════════════════════════════════════════════════════════════

theorem isDigits_padDigits (w n : ℕ) : IsDigits (padDigits w n) := by
  intro c hc
  rcases List.mem_append.mp hc with hzero | hdigit
  · rw [List.eq_of_mem_replicate hzero]
    rfl
  · exact Nat.isDigit_of_mem_toDigits (by decide) (by decide) hdigit

theorem length_padDigits (w n : ℕ) :
    (padDigits w n).length = max w (Nat.toDigits 10 n).length := by
  rw [padDigits, List.length_append, List.length_replicate]
  omega

/-- A number with at most `w` digits takes `w` places. -/
theorem length_padDigits_of_lt {w n : ℕ} (hw : 0 < w) (hn : n < 10 ^ w) :
    (padDigits w n).length = w := by
  have hle := (Nat.length_toDigits_le_iff (b := 10) (by decide) hw).mpr hn
  rw [length_padDigits]
  omega

/-- The zeros in front do not count. -/
theorem ofDigitChars_padDigits (w n : ℕ) : Nat.ofDigitChars 10 (padDigits w n) 0 = n := by
  rw [padDigits, Nat.ofDigitChars_append, Nat.ofDigitChars_replicate_zero, Nat.mul_zero,
    Nat.ofDigitChars_toDigits (by decide) (by decide)]

theorem padDigits_lt_iff {w n m : ℕ} (h : (padDigits w n).length = (padDigits w m).length) :
    padDigits w n < padDigits w m ↔ n < m := by
  rw [digits_lt_iff (isDigits_padDigits w n) (isDigits_padDigits w m) h, ofDigitChars_padDigits,
    ofDigitChars_padDigits]

theorem padDigits_inj {w n m : ℕ} : padDigits w n = padDigits w m ↔ n = m := by
  refine ⟨fun h => ?_, congrArg _⟩
  rw [← ofDigitChars_padDigits w n, h, ofDigitChars_padDigits]

/-- Numbers of at most `w` digits. -/
theorem sorts_padDigits {w : ℕ} (hw : 0 < w) : Sorts {n : ℕ | n < 10 ^ w} (padDigits w) w where
  length _ hn := length_padDigits_of_lt hw hn
  lt_iff _ hn _ hm :=
    padDigits_lt_iff ((length_padDigits_of_lt hw hn).trans (length_padDigits_of_lt hw hm).symm)

-- ═══════════════════════════════════════════════════════════════════════════
-- The stamp
-- ═══════════════════════════════════════════════════════════════════════════

/-- The month and the day of a place in a year. -/
def monthText (year place : ℕ) : List Char :=
  padDigits 2 ((Blocks.locate (monthLengths year) place).1 + 1) ++
    padDigits 2 ((Blocks.locate (monthLengths year) place).2 + 1)

/-- Year, month and day of a day of the calendar. -/
def dateText (day : ℕ) : List Char :=
  padDigits 4 (civilYear day) ++ monthText (civilYear day) (Blocks.locate yearLengths day).2

/-- Minute and second of a second of an hour. -/
def minuteText (second : ℕ) : List Char := padDigits 2 (second / 60) ++ padDigits 2 (second % 60)

/-- Hour, minute and second of a second of a day. -/
def timeText (second : ℕ) : List Char := padDigits 2 (second / 3600) ++ minuteText (second % 3600)

/-- Date and time of day of a second of local time. -/
def stampText (second : ℕ) : List Char :=
  dateText (second / 86400) ++ '-' :: timeText (second % 86400)

theorem sorts_minute : Sorts {n : ℕ | n < 3600} minuteText 4 := by
  show Sorts _ (fun n => padDigits 2 (n / 60) ++ padDigits 2 (n % 60)) (2 + 2)
  refine (sorts_padDigits (w := 2) (by decide)).append (u := fun n : ℕ => n / 60) ?_ ?_ ?_ ?_
  · intro n hn
    change n < 3600 at hn
    show n / 60 < 100
    omega
  · intro n _ m _ h
    change n / 60 < m / 60 at h
    omega
  · intro n _
    exact length_padDigits_of_lt (by decide) (show n % 60 < 100 by omega)
  · intro n _ m _ h
    change n / 60 = m / 60 at h
    rw [(sorts_padDigits (w := 2) (by decide)).lt_iff _ (show n % 60 < 100 by omega) _
      (show m % 60 < 100 by omega)]
    omega

theorem sorts_time : Sorts {n : ℕ | n < 86400} timeText 6 := by
  show Sorts _ (fun n => padDigits 2 (n / 3600) ++ minuteText (n % 3600)) (2 + 4)
  refine (sorts_padDigits (w := 2) (by decide)).append (u := fun n : ℕ => n / 3600) ?_ ?_ ?_ ?_
  · intro n hn
    change n < 86400 at hn
    show n / 3600 < 100
    omega
  · intro n _ m _ h
    change n / 3600 < m / 3600 at h
    omega
  · intro n _
    exact sorts_minute.length _ (Nat.mod_lt n (by decide))
  · intro n _ m _ h
    change n / 3600 = m / 3600 at h
    rw [sorts_minute.lt_iff _ (Nat.mod_lt n (by decide)) _ (Nat.mod_lt m (by decide))]
    omega

theorem sorts_month (year : ℕ) :
    Sorts {n : ℕ | n < (monthLengths year).sum} (monthText year) 4 := by
  have htwo := sorts_padDigits (w := 2) (by decide)
  show Sorts _ (fun n => padDigits 2 ((Blocks.locate (monthLengths year) n).1 + 1) ++
    padDigits 2 ((Blocks.locate (monthLengths year) n).2 + 1)) (2 + 2)
  refine (htwo.comp (S := {n : ℕ | n < 12}) (v := (· + 1)) ?_ ?_).append
    (u := fun n => (Blocks.locate (monthLengths year) n).1) ?_ ?_ ?_ ?_
  · intro n hn
    change n < 12 at hn
    show n + 1 < 100
    omega
  · intro n m
    exact Nat.succ_lt_succ_iff
  · exact fun n hn => (civilMonth_lt hn).1
  · exact fun n _ m _ h => Blocks.locate_mono h
  · intro n hn
    have hplace := (civilMonth_lt hn).2
    exact htwo.length _ (show _ + 1 < 100 by omega)
  · intro n hn m hm h
    have hn' := (civilMonth_lt hn).2
    have hm' := (civilMonth_lt hm).2
    rw [htwo.lt_iff _ (show _ + 1 < 100 by omega) _ (show _ + 1 < 100 by omega),
      Nat.succ_lt_succ_iff]
    exact Blocks.locate_place_iff h

theorem sorts_date : Sorts {n : ℕ | n < kCalendarDays} dateText 8 := by
  have hfour := sorts_padDigits (w := 4) (by decide)
  show Sorts _ (fun n => padDigits 4 (firstYear + (Blocks.locate yearLengths n).1) ++
    monthText (civilYear n) (Blocks.locate yearLengths n).2) (4 + 4)
  refine (hfour.comp (S := {n : ℕ | n < 800}) (v := (firstYear + ·)) ?_ ?_).append
    (u := fun n => (Blocks.locate yearLengths n).1) ?_ ?_ ?_ ?_
  · intro n hn
    change n < 800 at hn
    show 1600 + n < 10000
    omega
  · intro n m
    exact Nat.add_lt_add_iff_left
  · exact fun n hn => (civil_lt hn).1
  · exact fun n _ m _ h => Blocks.locate_mono h
  · exact fun n hn => (sorts_month _).length _ (civil_lt hn).2
  · intro n hn m hm h
    have hyear : civilYear n = civilYear m := congrArg (firstYear + ·) h
    have hplace := (civil_lt hm).2
    rw [← hyear] at hplace ⊢
    rw [(sorts_month _).lt_iff _ (civil_lt hn).2 _ hplace]
    exact Blocks.locate_place_iff h

/-- Stamps sort like the seconds of local time. -/
theorem sorts_stamp : Sorts {n : ℕ | n < kCalendarDays * 86400} stampText 15 := by
  have htime := sorts_time.cons '-'
  show Sorts _ (fun n => dateText (n / 86400) ++ '-' :: timeText (n % 86400)) (8 + 7)
  refine sorts_date.append (u := fun n => n / 86400) ?_ ?_ ?_ ?_
  · intro n hn
    exact Nat.div_lt_of_lt_mul (Nat.lt_of_lt_of_eq hn (Nat.mul_comm _ _))
  · intro n _ m _ h
    change n / 86400 < m / 86400 at h
    omega
  · exact fun n _ => htime.length _ (Nat.mod_lt n (by decide))
  · intro n _ m _ h
    change n / 86400 = m / 86400 at h
    rw [htime.lt_iff _ (Nat.mod_lt n (by decide)) _ (Nat.mod_lt m (by decide))]
    omega

-- ═══════════════════════════════════════════════════════════════════════════
-- The milliseconds
-- ═══════════════════════════════════════════════════════════════════════════

/-- The order of the milliseconds of a reading as text. Those of readings before
1970 come first, and sort by the two digits after the sign, then by the third one
if there is one. -/
def millisRank (ms : ℤ) : ℕ :=
  if 0 ≤ ms then 2000 + ms.natAbs
  else if ms.natAbs < 100 then 11 * ms.natAbs
  else 11 * (ms.natAbs / 10) + ms.natAbs % 10 + 1

/-- The separator sorts before every digit. -/
theorem dash_lt_digit {c : Char} (h : c.isDigit) : '-' < c := by
  rw [digit_lt_iff]
  exact Nat.lt_of_lt_of_le (by decide) (isDigit_iff.mp h).1

theorem not_digit_lt_dash {c : Char} (h : c.isDigit) : ¬ c < '-' := by
  rw [digit_lt_iff, Nat.not_lt]
  exact Nat.le_trans (by decide) (isDigit_iff.mp h).1

theorem digit_ne_dash {c : Char} (h : c.isDigit) : c ≠ '-' := by
  rintro rfl
  cases h

theorem digitChar_lt_iff {n m : ℕ} (hn : n < 10) (hm : m < 10) :
    n.digitChar < m.digitChar ↔ n < m := by
  rw [digit_lt_iff, Nat.toNat_digitChar_of_lt_ten hn, Nat.toNat_digitChar_of_lt_ten hm]
  omega

theorem digitChar_inj {n m : ℕ} (hn : n < 10) (hm : m < 10) :
    n.digitChar = m.digitChar ↔ n = m := by
  rw [← Char.toNat_inj, Nat.toNat_digitChar_of_lt_ten hn, Nat.toNat_digitChar_of_lt_ten hm]
  omega

theorem padDigits_eq_cons (w n : ℕ) : ∃ c a, padDigits w n = c :: a ∧ c.isDigit := by
  cases h : padDigits w n with
  | nil =>
    have hlength := length_padDigits w n
    have hpos := Nat.length_toDigits_pos (b := 10) (n := n)
    rw [h, List.length_nil] at hlength
    omega
  | cons c a => exact ⟨c, a, rfl, isDigits_padDigits w n c (h ▸ List.mem_cons_self)⟩

/-- Three digits in a field for two. -/
theorem padDigits_three {n : ℕ} (hle : 100 ≤ n) (hlt : n < 1000) :
    padDigits 2 n = padDigits 2 (n / 10) ++ [(n % 10).digitChar] := by
  have hdigits := Nat.toDigits_of_base_le (b := 10) (n := n) (by decide) (by omega)
  have hpos := (Nat.length_toDigits_le_iff (b := 10) (n := n / 10) (k := 1) (by decide)
    (by decide)).not.mpr (by omega)
  have hzero : 2 - (Nat.toDigits 10 (n / 10)).length = 0 := by omega
  rw [padDigits, padDigits, hdigits, List.length_append, List.length_singleton, hzero,
    Nat.sub_eq_zero_of_le (by omega), List.replicate_zero, List.nil_append, List.nil_append]

/-- Milliseconds before 1970, without the sign. -/
theorem negMillis_lt_iff {n m : ℕ} (hn : n < 1000) (hm : m < 1000) {x y : List Char} :
    padDigits 2 n ++ '-' :: x < padDigits 2 m ++ '-' :: y ↔
      (if n < 100 then 11 * n else 11 * (n / 10) + n % 10 + 1) <
          (if m < 100 then 11 * m else 11 * (m / 10) + m % 10 + 1) ∨ n = m ∧ x < y := by
  have htwo : ∀ {k : ℕ}, k < 100 → (padDigits 2 k).length = 2 := fun hk =>
    length_padDigits_of_lt (by decide) hk
  have hcompare : ∀ {j k : ℕ} {u v : List Char}, j < 100 → k < 100 →
      (padDigits 2 j ++ u < padDigits 2 k ++ v ↔ j < k ∨ j = k ∧ u < v) := by
    intro j k u v hj hk
    have hlength := (htwo hj).trans (htwo hk).symm
    rw [append_lt_append_iff hlength, padDigits_lt_iff hlength, padDigits_inj]
  have hdigit : ∀ k : ℕ, (k % 10).digitChar.isDigit := fun k => by
    rw [Nat.isDigit_digitChar]
    exact decide_eq_true (Nat.mod_lt k (by decide))
  by_cases hn' : n < 100
  · rw [if_pos hn']
    by_cases hm' : m < 100
    · rw [if_pos hm', hcompare hn' hm', List.cons_lt_cons_self]
      exact or_congr_left (by omega)
    · rw [if_neg hm', padDigits_three (by omega) hm, List.append_assoc,
        hcompare hn' (by omega), List.singleton_append, List.cons_lt_cons_iff]
      have hlt := dash_lt_digit (hdigit m)
      simp only [hlt, true_or, and_true]
      omega
  · rw [if_neg hn', padDigits_three (by omega) hn, List.append_assoc]
    by_cases hm' : m < 100
    · rw [if_pos hm', hcompare (by omega) hm', List.singleton_append, List.cons_lt_cons_iff]
      simp only [not_digit_lt_dash (hdigit n), digit_ne_dash (hdigit n), false_and, or_false,
        and_false]
      omega
    · rw [if_neg hm', padDigits_three (by omega) hm, List.append_assoc,
        hcompare (by omega) (by omega), List.singleton_append, List.singleton_append,
        List.cons_lt_cons_iff, List.cons_lt_cons_self,
        digitChar_lt_iff (Nat.mod_lt _ (by decide)) (Nat.mod_lt _ (by decide)),
        digitChar_inj (Nat.mod_lt _ (by decide)) (Nat.mod_lt _ (by decide))]
      by_cases hxy : x < y
      · simp only [hxy, and_true]
        omega
      · simp only [hxy, and_false, or_false]
        omega

/-- The field of the milliseconds sorts by `millisRank`. -/
theorem millis_lt_iff {ms ms' : ℤ} (h : ms.natAbs < 1000) (h' : ms'.natAbs < 1000)
    {x y : List Char} :
    formatInt 3 ms ++ '-' :: x < formatInt 3 ms' ++ '-' :: y ↔
      millisRank ms < millisRank ms' ∨ ms = ms' ∧ x < y := by
  rw [formatInt, formatInt, millisRank, millisRank]
  by_cases hpos : 0 ≤ ms
  · rw [if_pos hpos, if_pos hpos]
    by_cases hpos' : 0 ≤ ms'
    · have hlength : (padDigits 3 ms.toNat).length = (padDigits 3 ms'.toNat).length :=
        (length_padDigits_of_lt (by decide) (show ms.toNat < 1000 by omega)).trans
          (length_padDigits_of_lt (by decide) (show ms'.toNat < 1000 by omega)).symm
      rw [if_pos hpos', if_pos hpos', append_lt_append_iff hlength, padDigits_lt_iff hlength,
        padDigits_inj, List.cons_lt_cons_self]
      exact or_congr (by omega) (and_congr_left fun _ => by omega)
    · rw [if_neg hpos', if_neg hpos']
      obtain ⟨c, a, hca, hc⟩ := padDigits_eq_cons 3 ms.toNat
      rw [hca, List.cons_append, List.cons_append, List.cons_lt_cons_iff]
      refine iff_of_false ?_ ?_
      · rintro (hlt | ⟨heq, -⟩)
        · exact not_digit_lt_dash hc hlt
        · exact digit_ne_dash hc heq
      · rintro (hlt | ⟨heq, -⟩)
        · split at hlt <;> omega
        · omega
  · rw [if_neg hpos, if_neg hpos]
    by_cases hpos' : 0 ≤ ms'
    · rw [if_pos hpos', if_pos hpos']
      obtain ⟨c, a, hca, hc⟩ := padDigits_eq_cons 3 ms'.toNat
      rw [hca, List.cons_append, List.cons_append, List.cons_lt_cons_iff]
      refine iff_of_true (.inl (dash_lt_digit hc)) (.inl ?_)
      split <;> omega
    · rw [if_neg hpos', if_neg hpos', List.cons_append, List.cons_append,
        List.cons_lt_cons_self, negMillis_lt_iff h h']
      have heq : ms.natAbs = ms'.natAbs ↔ ms = ms' := by omega
      rw [heq]

-- ═══════════════════════════════════════════════════════════════════════════
-- The number of the opening
-- ═══════════════════════════════════════════════════════════════════════════

/-- Where `seq_` outgrows its field or gains another digit, and where it starts again. -/
def kSeqTurns : List ℕ := [10 ^ 4, 10 ^ 5, 10 ^ 6, 10 ^ 7, 10 ^ 8, 10 ^ 9, 2 ^ 32]

/-- The next value of `seq_` is as wide as this one. -/
def seqAdvances (seq : ℕ) : Prop := seq + 1 ∉ kSeqTurns

instance (seq : ℕ) : Decidable (seqAdvances seq) := inferInstanceAs (Decidable (_ ∉ _))

/-- Elsewhere the field keeps its width. -/
theorem length_padDigits_succ {seq : ℕ} (hseq : seq < 2 ^ 32) (h : seqAdvances seq) :
    (padDigits 4 seq).length = (padDigits 4 (seq + 1)).length := by
  have hle : ∀ k, 4 ≤ k →
      ((Nat.toDigits 10 seq).length ≤ k ↔ (Nat.toDigits 10 (seq + 1)).length ≤ k) := by
    intro k hk
    rw [Nat.length_toDigits_le_iff (by decide) (by omega),
      Nat.length_toDigits_le_iff (by decide) (by omega)]
    by_cases hk' : k < 10
    · have hturns : ∀ k < 10, 4 ≤ k → 10 ^ k ∈ kSeqTurns := by decide
      have hne : seq + 1 ≠ 10 ^ k := fun heq => h (heq ▸ hturns k hk' hk)
      omega
    · have hpow : 10 ^ 10 ≤ 10 ^ k := Nat.pow_le_pow_right (by decide) (by omega)
      exact iff_of_true (by omega) (by omega)
  have hmax := hle (max 4 (Nat.toDigits 10 seq).length) (Nat.le_max_left ..)
  have hmax' := hle (max 4 (Nat.toDigits 10 (seq + 1)).length) (Nat.le_max_left ..)
  rw [length_padDigits, length_padDigits]
  omega

/-- The end of a name sorts before that of the next one unless `seq_` turns. -/
theorem seq_lt_iff {seq : ℕ} (hseq : seq < 2 ^ 32) :
    padDigits 4 seq ++ ['.', 'b', 'i', 'n'] < padDigits 4 (nextSeq seq) ++ ['.', 'b', 'i', 'n'] ↔
      seqAdvances seq := by
  constructor
  · intro hlt hturn
    rw [kSeqTurns] at hturn
    simp only [List.mem_cons, List.not_mem_nil, or_false] at hturn
    -- nines before a one and zeros, or the largest value before zero
    obtain h | h | h | h | h | h | h := hturn <;> obtain rfl := Nat.eq_sub_of_add_eq h <;>
      revert hlt <;> decide
  · intro hadv
    have hlast : seq + 1 ≠ 2 ^ 32 := by
      rintro heq
      exact hadv (heq ▸ by decide)
    have hnext : nextSeq seq = seq + 1 := Nat.mod_eq_of_lt (by omega)
    have hlength := length_padDigits_succ hseq hadv
    rw [hnext, append_lt_append_iff hlength, padDigits_lt_iff hlength]
    exact .inl (Nat.lt_succ_self seq)

-- ═══════════════════════════════════════════════════════════════════════════
-- Names
-- ═══════════════════════════════════════════════════════════════════════════

theorem formatInt_natCast (w n : ℕ) : formatInt w n = padDigits w n := by
  rw [formatInt, if_pos (Int.natCast_nonneg n), Int.toNat_natCast]

/-- A name is a stamp, the milliseconds and the number. -/
theorem shardName_eq (second : ℕ) (ms : ℤ) (seq : ℕ) :
    shardName (civilTime second) ms seq =
      ['l', 'o', 'g', '-'] ++ (stampText second ++
        '-' :: (formatInt 3 ms ++ '-' :: (padDigits 4 seq ++ ['.', 'b', 'i', 'n']))) := by
  have hyear : (civilTime second).tmYear + 1900 = (civilYear (second / 86400) : ℤ) :=
    Int.sub_add_cancel _ _
  have hmonth : (civilTime second).tmMon + 1 = ((civilMonth (second / 86400)).1 + 1 : ℕ) := rfl
  have hday : (civilTime second).tmMday = ((civilMonth (second / 86400)).2 + 1 : ℕ) := rfl
  rw [shardName, hyear, hmonth, hday]
  simp only [civilTime, formatInt_natCast, stampText, dateText, monthText, timeText, minuteText,
    civilMonth, List.append_assoc, List.cons_append, List.nil_append]

end LoggerHigh
