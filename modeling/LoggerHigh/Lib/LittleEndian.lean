import Mathlib.Algebra.Ring.Nat
import Mathlib.Data.List.Basic
import Mathlib.Tactic.Common

/-!
# Little-endian numerals

Fixed-width little-endian encodings of natural numbers, least significant byte
first, and their decoder.

## Main results

- `decode_encode`: numbers below `256 ^ w` survive a round trip through `w` bytes
- `encode_decode`: every byte string is the encoding of its own value
-/

namespace LittleEndian

/-- The `w` low bytes of `v`, least significant first. -/
def encode : ℕ → ℕ → List UInt8
  | 0, _ => []
  | w + 1, v => UInt8.ofNat v :: encode w (v / 256)

/-- The number a byte string denotes, least significant byte first. -/
def decode : List UInt8 → ℕ
  | [] => 0
  | b :: bs => b.toNat + 256 * decode bs

@[simp] theorem encode_zero (v : ℕ) : encode 0 v = [] := rfl

theorem encode_succ (w v : ℕ) : encode (w + 1) v = UInt8.ofNat v :: encode w (v / 256) := rfl

@[simp] theorem decode_nil : decode [] = 0 := rfl

@[simp] theorem decode_cons (b : UInt8) (bs : List UInt8) :
    decode (b :: bs) = b.toNat + 256 * decode bs := rfl

@[simp] theorem length_encode (w v : ℕ) : (encode w v).length = w := by
  induction w generalizing v with
  | zero => rfl
  | succ w ih => rw [encode_succ, List.length_cons, ih]

/-- Decoding an encoding keeps the value modulo `256 ^ w`. -/
theorem decode_encode_mod (w v : ℕ) : decode (encode w v) = v % 256 ^ w := by
  induction w generalizing v with
  | zero => rw [encode_zero, decode_nil, Nat.pow_zero, Nat.mod_one]
  | succ w ih =>
    have hsplit : v % 256 ^ (w + 1) = v % 256 + 256 * (v / 256 % 256 ^ w) := by
      rw [Nat.pow_succ', Nat.mod_mul]
    rw [encode_succ, decode_cons, ih, UInt8.toNat_ofNat', hsplit]

/-- Numbers that fit survive the round trip. -/
theorem decode_encode {w v : ℕ} (h : v < 256 ^ w) : decode (encode w v) = v := by
  rw [decode_encode_mod, Nat.mod_eq_of_lt h]

theorem decode_lt (bs : List UInt8) : decode bs < 256 ^ bs.length := by
  induction bs with
  | nil => exact Nat.one_pos
  | cons b bs ih =>
    have hb : b.toNat < 256 := b.toNat_lt
    rw [decode_cons, List.length_cons, Nat.pow_succ]
    omega

/-- Every byte string is the encoding of the number it denotes. -/
theorem encode_decode (bs : List UInt8) : encode bs.length (decode bs) = bs := by
  induction bs with
  | nil => rfl
  | cons b bs ih =>
    have hb : b.toNat < 256 := b.toNat_lt
    have hlow : UInt8.ofNat (b.toNat + 256 * decode bs) = b := by
      apply UInt8.toNat_inj.mp
      rw [UInt8.toNat_ofNat']
      omega
    have hhigh : (b.toNat + 256 * decode bs) / 256 = decode bs := by omega
    rw [List.length_cons, decode_cons, encode_succ, hlow, hhigh, ih]

/-- A string of zero bytes denotes zero. -/
theorem decode_eq_zero {bs : List UInt8} (h : ∀ b ∈ bs, b = 0) : decode bs = 0 := by
  induction bs with
  | nil => rfl
  | cons b bs ih =>
    rw [decode_cons, h b List.mem_cons_self, ih fun b' hb' => h b' (List.mem_cons_of_mem b hb')]
    rfl

end LittleEndian
