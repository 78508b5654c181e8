import Mathlib.Data.Int.Notation
import LoggerHigh.Basic

/-!
# Names of shard files

`ShardWriter::MakeShardName_`: the text of a shard's name as a function of the
broken-down local time, the milliseconds of the clock reading and the number of
the opening.

## Main definitions

- `formatInt` — the replacement field `{:0w}`
- `shardName` — the text `log-YYYYMMDD-HHMMSS-mmm-ssss.bin`
- `ClockReading` — what the clock and `localtime_r` answer
- `makeShardName` — the name of the next shard
-/

namespace LoggerHigh

/-- The file name of a shard; all shards of one writer lie in its directory. -/
abbrev FileName := List Char

/-- The fields of `std::tm` a name shows. -/
structure Tm where
  tmYear : ℤ
  tmMon : ℤ
  tmMday : ℤ
  tmHour : ℤ
  tmMin : ℤ
  tmSec : ℤ
  deriving DecidableEq, Repr

/-- Decimal digits, padded with zeros to at least `width`. -/
def padDigits (width n : ℕ) : List Char :=
  List.replicate (width - (Nat.toDigits 10 n).length) '0' ++ Nat.toDigits 10 n

/-- The replacement field `{:0w}`: the sign counts towards the width and stands
before the zeros. -/
def formatInt (width : ℕ) (n : ℤ) : List Char :=
  if 0 ≤ n then padDigits width n.toNat else '-' :: padDigits (width - 1) n.natAbs

/-- `log-{:04}{:02}{:02}-{:02}{:02}{:02}-{:03}-{:04}.bin` -/
def shardName (tmv : Tm) (millis : ℤ) (s : ℕ) : FileName :=
  ['l', 'o', 'g', '-'] ++ formatInt 4 (tmv.tmYear + 1900) ++ formatInt 2 (tmv.tmMon + 1) ++
    formatInt 2 tmv.tmMday ++ ['-'] ++ formatInt 2 tmv.tmHour ++ formatInt 2 tmv.tmMin ++
    formatInt 2 tmv.tmSec ++ ['-'] ++ formatInt 3 millis ++ ['-'] ++ padDigits 4 s ++
    ['.', 'b', 'i', 'n']

/-- What `clock::now()` reads, in nanoseconds since the epoch, and the fields
`localtime_r` fills in for its seconds. -/
structure ClockReading where
  now : ℤ
  tmv : Tm
  deriving DecidableEq, Repr

/-- `duration_cast<seconds>(epoch).count()`, which truncates toward zero. -/
def secondsOf (now : ℤ) : ℤ := now.tdiv (10 ^ 9)

/-- `duration_cast<milliseconds>(epoch).count() % 1000`; its sign is that of the
reading. -/
def millisOf (now : ℤ) : ℤ := (now.tdiv (10 ^ 6)).tmod 1000

/-- `MakeShardName_` at the value `seq` of `seq_`. -/
def makeShardName (r : ClockReading) (seq : ℕ) : FileName := shardName r.tmv (millisOf r.now) seq

/-- `seq_++` on a `std::uint32_t`. -/
def nextSeq (seq : ℕ) : ℕ := (seq + 1) % 2 ^ 32

example : makeShardName ⟨1779460182434000000, ⟨126, 4, 22, 22, 29, 42⟩⟩ 7 =
    "log-20260522-222942-434-0007.bin".toList := by decide

end LoggerHigh
