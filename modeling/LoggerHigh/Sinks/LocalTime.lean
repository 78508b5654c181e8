import Mathlib.Tactic.NormNum
import LoggerHigh.Lib.Blocks
import LoggerHigh.Sinks.ShardName

/-!
# Local time

What `localtime_r` computes from the seconds of a clock reading: a rule gives the
offset of local time from UTC, and the fields are those of the civil calendar.

## Main definitions

- `isLeapYear`, `yearLengths`, `monthLengths` — the calendar
- `civilTime` — the fields of a second of local time
- `LocalTimeRule` — the offset of local time from UTC
- `LocalTimeRule.read` — a clock reading with its fields

## Main results

- `LocalTimeRule.localSecond_lt` — all readings lie in the calendar
-/

namespace LoggerHigh

/-- The calendar starts here, before every reading of the clock. -/
def firstYear : ℕ := 1600

/-- Every fourth year, but of the full centuries only every fourth. -/
def isLeapYear (year : ℕ) : Bool := year % 4 == 0 && (year % 100 != 0 || year % 400 == 0)

/-- The days of the years from `firstYear` on. -/
def yearLengths : List ℕ :=
  (List.range 800).map fun i => if isLeapYear (firstYear + i) then 366 else 365

/-- The days of the months of a year. -/
def monthLengths (year : ℕ) : List ℕ :=
  [31, if isLeapYear year then 29 else 28, 31, 30, 31, 30, 31, 31, 30, 31, 30, 31]

/-- The days of the calendar. -/
def kCalendarDays : ℕ := 292194

/-- The seconds from the start of `firstYear` to the start of 1970. -/
def kEpochSecond : ℕ := 11676096000

/-- The year of a day of the calendar. -/
def civilYear (day : ℕ) : ℕ := firstYear + (Blocks.locate yearLengths day).1

/-- The month of a day of the calendar and its place there, both from zero. -/
def civilMonth (day : ℕ) : ℕ × ℕ :=
  Blocks.locate (monthLengths (civilYear day)) (Blocks.locate yearLengths day).2

/-- The fields of a second of local time, counted from the start of `firstYear`. -/
def civilTime (second : ℕ) : Tm where
  tmYear := civilYear (second / 86400) - 1900
  tmMon := (civilMonth (second / 86400)).1
  tmMday := (civilMonth (second / 86400)).2 + 1
  tmHour := (second % 86400 / 3600 : ℕ)
  tmMin := (second % 86400 % 3600 / 60 : ℕ)
  tmSec := (second % 86400 % 3600 % 60 : ℕ)

/-- The offset of local time from UTC at each UTC second; time zone files hold it in
32 bits. -/
structure LocalTimeRule where
  offset : ℤ → ℤ
  le_offset : ∀ t, -2 ^ 31 ≤ offset t
  offset_lt : ∀ t, offset t < 2 ^ 31

/-- The second of local time at a reading of the clock. -/
def LocalTimeRule.localSecond (zone : LocalTimeRule) (now : Int64) : ℕ :=
  (kEpochSecond + secondsOf now.toInt + zone.offset (secondsOf now.toInt)).toNat

/-- The reading with the fields `localtime_r` fills in. -/
def LocalTimeRule.read (zone : LocalTimeRule) (now : Int64) : ClockReading :=
  ⟨now.toInt, civilTime (zone.localSecond now)⟩

/-- The same offset at all times. -/
def fixedZone (offset : ℤ) (hle : -2 ^ 31 ≤ offset) (hlt : offset < 2 ^ 31) : LocalTimeRule :=
  ⟨fun _ => offset, fun _ => hle, fun _ => hlt⟩

/-- The reading of the example in `ShardName`, eight hours east. -/
example : (fixedZone 28800 (by decide) (by decide)).read 1779460182434000000 =
    ⟨1779460182434000000, ⟨126, 4, 22, 22, 29, 42⟩⟩ := by decide +kernel

-- ═══════════════════════════════════════════════════════════════════════════
-- Ranges
-- ═══════════════════════════════════════════════════════════════════════════

theorem sum_yearLengths : yearLengths.sum = kCalendarDays := by decide +kernel

theorem sum_monthLengths (year : ℕ) :
    (monthLengths year).sum = if isLeapYear year then 366 else 365 := by
  rw [monthLengths]
  cases isLeapYear year <;> rfl

/-- The clock counts nanoseconds in 64 bits, 292 years to either side of 1970. -/
theorem secondsOf_bounds (now : Int64) :
    -9223372038 < secondsOf now.toInt ∧ secondsOf now.toInt < 9223372038 := by
  have hle : -2 ^ 63 ≤ now.toInt := now.le_toInt
  have hlt : now.toInt < 2 ^ 63 := now.toInt_lt
  have htrunc : now.toInt = 10 ^ 9 * secondsOf now.toInt + now.toInt.tmod (10 ^ 9) :=
    (Int.mul_tdiv_add_tmod _ _).symm
  have hrest : -(10 ^ 9) < now.toInt.tmod (10 ^ 9) ∧ now.toInt.tmod (10 ^ 9) < 10 ^ 9 :=
    ⟨Int.lt_tmod_of_pos _ (by decide), Int.tmod_lt_of_pos _ (by decide)⟩
  omega

/-- All readings lie in the calendar. -/
theorem LocalTimeRule.localSecond_lt (zone : LocalTimeRule) (now : Int64) :
    zone.localSecond now < kCalendarDays * 86400 := by
  have hnow := secondsOf_bounds now
  have hlt := zone.offset_lt (secondsOf now.toInt)
  rw [localSecond, kEpochSecond, kCalendarDays]
  omega

theorem getElem_yearLengths (i : ℕ) (hi : i < yearLengths.length) :
    yearLengths[i] = if isLeapYear (firstYear + i) then 366 else 365 := by
  rw [yearLengths] at hi
  simp only [yearLengths, List.getElem_map, List.getElem_range]

/-- A day of the calendar has a year, a month of it and a place there. -/
theorem civil_lt {day : ℕ} (h : day < kCalendarDays) :
    (Blocks.locate yearLengths day).1 < 800 ∧
      (Blocks.locate yearLengths day).2 < (monthLengths (civilYear day)).sum := by
  rw [← sum_yearLengths] at h
  obtain ⟨hyear, hplace⟩ := Blocks.locate_lt h
  have hlength : yearLengths.length = 800 := by rw [yearLengths, List.length_map, List.length_range]
  rw [getElem_yearLengths] at hplace
  rw [sum_monthLengths]
  exact ⟨Nat.lt_of_lt_of_eq hyear hlength, hplace⟩

theorem civilMonth_lt {year place : ℕ} (h : place < (monthLengths year).sum) :
    (Blocks.locate (monthLengths year) place).1 < 12 ∧
      (Blocks.locate (monthLengths year) place).2 < 31 := by
  obtain ⟨hmonth, hplace⟩ := Blocks.locate_lt h
  refine ⟨hmonth, Nat.lt_of_lt_of_le hplace ?_⟩
  have hle : ∀ len ∈ monthLengths year, len ≤ 31 := by
    rw [monthLengths]
    cases isLeapYear year <;> decide
  exact hle _ (List.getElem_mem hmonth)

end LoggerHigh
