import Mathlib.Algebra.Ring.Int.Defs
import Mathlib.Algebra.Ring.Nat
import Mathlib.Data.List.Basic

/-!
# Machine types

What the modules share of C++'s built-in types.
-/

namespace LoggerHigh

/-- `std::string` and `std::byte` ranges. -/
abbrev Bytes := List UInt8

/-- `std::size_t` addition. -/
def addSize (a b : ℕ) : ℕ := (a + b) % 2 ^ 64

theorem addSize_of_lt {a b : ℕ} (h : a + b < 2 ^ 64) : addSize a b = a + b := Nat.mod_eq_of_lt h

end LoggerHigh
