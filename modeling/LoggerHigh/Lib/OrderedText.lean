import Mathlib.Algebra.Ring.Nat
import Mathlib.Data.List.Lex
import Mathlib.Data.Nat.Notation
import Mathlib.Data.Set.Defs
import Mathlib.Order.Basic
import Mathlib.Order.Lattice
import Mathlib.Tactic.Common

/-!
# Texts that sort like what they show

A value shown in a field of fixed width can be sorted as text when the text of a
smaller value is smaller. Fields put one after the other keep this property when
the first one is monotone and the rest sorts the values that agree on it.

## Main definitions

- `IsDigits` — decimal digits only
- `Sorts` — a text of fixed width that sorts like the values it shows

## Main results

- `last_field_inj` — the last field of a text with separators
- `digits_lt_iff` — digits of equal number sort like the numbers
- `Sorts.append`, `Sorts.cons`, `Sorts.comp` — fields, separators and computed values
-/

namespace OrderedText

/-- Texts of equal length decide the order before what follows them. -/
theorem append_lt_append_iff {α : Type*} [LT α] {a b x y : List α} (h : a.length = b.length) :
    a ++ x < b ++ y ↔ a < b ∨ a = b ∧ x < y := by
  induction a generalizing b with
  | nil =>
    obtain rfl := List.length_eq_zero_iff.mp h.symm
    constructor
    · exact fun hlt => .inr ⟨rfl, hlt⟩
    · rintro (hlt | ⟨-, hlt⟩)
      · exact absurd hlt (List.not_lt_nil _)
      · exact hlt
  | cons c a ih =>
    obtain ⟨d, b, rfl⟩ := List.exists_cons_of_length_eq_add_one h.symm
    rw [List.cons_append, List.cons_append, List.cons_lt_cons_iff, List.cons_lt_cons_iff,
      ih (Nat.succ.inj h), List.cons.injEq]
    tauto

/-- What stands behind the last separator of a text is determined by the text. -/
theorem last_field_inj {α : Type*} {a : α} {x x' z z' : List α} (h : x ++ a :: z = x' ++ a :: z')
    (hz : a ∉ z) (hz' : a ∉ z') : z = z' := by
  induction x generalizing x' with
  | nil =>
    cases x' with
    | nil => exact List.tail_eq_of_cons_eq h
    | cons b x' =>
      have htail : z = x' ++ a :: z' := List.tail_eq_of_cons_eq h
      exact absurd (htail ▸ List.mem_append_right x' List.mem_cons_self) hz
  | cons b x ih =>
    cases x' with
    | nil =>
      have htail : x ++ a :: z = z' := List.tail_eq_of_cons_eq h
      exact absurd (htail ▸ List.mem_append_right x List.mem_cons_self) hz'
    | cons b' x' => exact ih (List.tail_eq_of_cons_eq h)

-- ═══════════════════════════════════════════════════════════════════════════
-- Digits
-- ═══════════════════════════════════════════════════════════════════════════

/-- Decimal digits only. -/
def IsDigits (a : List Char) : Prop := ∀ c ∈ a, c.isDigit

/-- The number a digit stands for. -/
theorem isDigit_iff {c : Char} : c.isDigit ↔ 48 ≤ c.toNat ∧ c.toNat ≤ 57 := by
  rw [Char.isDigit, Bool.and_eq_true, decide_eq_true_iff, decide_eq_true_iff]
  exact Iff.rfl

theorem digit_lt_iff {c d : Char} : c < d ↔ c.toNat < d.toNat := Iff.rfl

theorem ofDigitChars_cons_zero (c : Char) (a : List Char) :
    Nat.ofDigitChars 10 (c :: a) 0 =
      10 ^ a.length * (c.toNat - 48) + Nat.ofDigitChars 10 a 0 := by
  rw [Nat.ofDigitChars_cons, Nat.ofDigitChars_eq_ofDigitChars_zero, Nat.mul_zero, Nat.zero_add]
  rfl

/-- A number of `n` digits is less than ten to the `n`. -/
theorem ofDigitChars_lt {a : List Char} (h : IsDigits a) :
    Nat.ofDigitChars 10 a 0 < 10 ^ a.length := by
  induction a with
  | nil => exact Nat.one_pos
  | cons c a ih =>
    have htail := ih fun d hd => h d (List.mem_cons_of_mem c hd)
    have hc := isDigit_iff.mp (h c List.mem_cons_self)
    have hle : 10 ^ a.length * (c.toNat - 48) ≤ 10 ^ a.length * 9 :=
      Nat.mul_le_mul_left _ (by omega)
    rw [ofDigitChars_cons_zero, List.length_cons, Nat.pow_succ]
    omega

/-- Digits of equal number sort like the numbers they stand for. -/
theorem digits_lt_iff {a b : List Char} (ha : IsDigits a) (hb : IsDigits b)
    (h : a.length = b.length) :
    a < b ↔ Nat.ofDigitChars 10 a 0 < Nat.ofDigitChars 10 b 0 := by
  induction a generalizing b with
  | nil =>
    obtain rfl := List.length_eq_zero_iff.mp h.symm
    exact iff_of_false (List.not_lt_nil _) (Nat.lt_irrefl _)
  | cons c a ih =>
    obtain ⟨d, b, rfl⟩ := List.exists_cons_of_length_eq_add_one h.symm
    have hlength : a.length = b.length := Nat.succ.inj h
    have ha' : IsDigits a := fun e he => ha e (List.mem_cons_of_mem c he)
    have hb' : IsDigits b := fun e he => hb e (List.mem_cons_of_mem d he)
    have hc := isDigit_iff.mp (ha c List.mem_cons_self)
    have hd := isDigit_iff.mp (hb d List.mem_cons_self)
    have hlta := ofDigitChars_lt ha'
    have hltb := ofDigitChars_lt hb'
    rw [List.cons_lt_cons_iff, ih ha' hb' hlength, ofDigitChars_cons_zero,
      ofDigitChars_cons_zero, ← hlength, digit_lt_iff]
    rw [← hlength] at hltb
    generalize Nat.ofDigitChars 10 a 0 = x at hlta ⊢
    generalize Nat.ofDigitChars 10 b 0 = y at hltb ⊢
    generalize 10 ^ a.length = w at hlta hltb ⊢
    rcases Nat.lt_trichotomy c.toNat d.toNat with hlt | heq | hgt
    · have hmul : w * (c.toNat - 48 + 1) ≤ w * (d.toNat - 48) := Nat.mul_le_mul_left w (by omega)
      rw [Nat.mul_add] at hmul
      exact iff_of_true (.inl hlt) (by omega)
    · have hcd : c = d := Char.toNat_inj.mp heq
      rw [hcd]
      constructor
      · rintro (hlt | ⟨-, hlt⟩)
        · exact absurd hlt (Nat.lt_irrefl _)
        · omega
      · exact fun hlt => .inr ⟨rfl, by omega⟩
    · have hmul : w * (d.toNat - 48 + 1) ≤ w * (c.toNat - 48) := Nat.mul_le_mul_left w (by omega)
      rw [Nat.mul_add] at hmul
      refine iff_of_false ?_ (by omega)
      rintro (hlt | ⟨heq, -⟩)
      · omega
      · rw [heq] at hgt
        exact Nat.lt_irrefl _ hgt

-- ═══════════════════════════════════════════════════════════════════════════
-- Fields
-- ═══════════════════════════════════════════════════════════════════════════

/-- The text `f a` of the values in `S` is `w` long and sorts like they do. -/
structure Sorts {α : Type*} [LinearOrder α] (S : Set α) (f : α → List Char) (w : ℕ) : Prop where
  length : ∀ a ∈ S, (f a).length = w
  lt_iff : ∀ a ∈ S, ∀ b ∈ S, f a < f b ↔ a < b

variable {α β : Type*} [LinearOrder α] [LinearOrder β] {S : Set α} {A : Set β}
  {f : β → List Char} {g : α → List Char} {w w' : ℕ}

/-- Different values have different texts. -/
theorem Sorts.eq_iff {f : α → List Char} (h : Sorts S f w) {a b : α} (ha : a ∈ S) (hb : b ∈ S) :
    f a = f b ↔ a = b := by
  refine ⟨fun heq => ?_, congrArg f⟩
  rcases lt_trichotomy a b with hlt | hab | hgt
  · have hf := (h.lt_iff a ha b hb).mpr hlt
    rw [heq] at hf
    exact absurd hf (List.lt_irrefl _)
  · exact hab
  · have hf := (h.lt_iff b hb a ha).mpr hgt
    rw [heq] at hf
    exact absurd hf (List.lt_irrefl _)

/-- The text of a value computed from another one in an order-preserving way. -/
theorem Sorts.comp {v : α → β} (h : Sorts A f w) (hv : ∀ a ∈ S, v a ∈ A)
    (hmono : ∀ a b, v a < v b ↔ a < b) : Sorts S (fun a => f (v a)) w where
  length a ha := h.length _ (hv a ha)
  lt_iff a ha b hb := (h.lt_iff _ (hv a ha) _ (hv b hb)).trans (hmono a b)

/-- A field for a monotone part of the value, followed by a text that sorts the
values that agree on it. -/
theorem Sorts.append {u : α → β} (hf : Sorts A f w) (hu : ∀ a ∈ S, u a ∈ A)
    (hmono : ∀ a ∈ S, ∀ b ∈ S, u a < u b → a < b) (hlength : ∀ a ∈ S, (g a).length = w')
    (hrest : ∀ a ∈ S, ∀ b ∈ S, u a = u b → (g a < g b ↔ a < b)) :
    Sorts S (fun a => f (u a) ++ g a) (w + w') where
  length a ha := by rw [List.length_append, hf.length _ (hu a ha), hlength a ha]
  lt_iff a ha b hb := by
    have hwidth : (f (u a)).length = (f (u b)).length :=
      (hf.length _ (hu a ha)).trans (hf.length _ (hu b hb)).symm
    rw [append_lt_append_iff hwidth, hf.lt_iff _ (hu a ha) _ (hu b hb),
      hf.eq_iff (hu a ha) (hu b hb)]
    constructor
    · rintro (hlt | ⟨heq, hlt⟩)
      · exact hmono a ha b hb hlt
      · exact (hrest a ha b hb heq).mp hlt
    · intro hlt
      rcases lt_trichotomy (u a) (u b) with hu' | heq | hu'
      · exact .inl hu'
      · exact .inr ⟨heq, (hrest a ha b hb heq).mpr hlt⟩
      · exact absurd (hmono b hb a ha hu') (lt_asymm hlt)

/-- A separator in front. -/
theorem Sorts.cons {f : α → List Char} (h : Sorts S f w) (c : Char) :
    Sorts S (fun a => c :: f a) (w + 1) where
  length a ha := congrArg (· + 1) (h.length a ha)
  lt_iff a ha b hb := by rw [List.cons_lt_cons_self, h.lt_iff a ha b hb]

end OrderedText
