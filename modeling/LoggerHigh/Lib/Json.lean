import Mathlib.Algebra.Ring.Int.Defs
import Mathlib.Algebra.Ring.Nat
import Mathlib.Data.List.Basic
import Mathlib.Tactic.Common
import LoggerHigh.Lib.OrderedText

/-!
# JSON

The grammar of JSON as a parser of bytes. In a string every byte from `0x20` on
stands for itself, whatever the encoding of the text is; an escape stands for the
UTF-8 encoding of its character.

## Main definitions

- `Value` — what a text stands for
- `value`, `parse` — the parser
- `Spells`, `Reads`, `Members` — the texts of a string, a value, the members of an object
- `Printable` — texts without control characters

## Main results

- `Spells.plain` — bytes that are read as they stand
- `Reads.string`, `Reads.integer`, `Reads.object` — texts the parser reads back
- `parse_of_reads` — the same of a whole text
- `splitOn_lines` — one text a line
-/

namespace Json

/-- A number is `mantissa * 10 ^ exponent`. -/
inductive Value
  | null
  | bool (b : Bool)
  | number (mantissa exponent : ℤ)
  | string (s : List UInt8)
  | array (items : List Value)
  | object (members : List (List UInt8 × Value))

/-- A text in ASCII. -/
def ascii (text : List Char) : List UInt8 := text.map Char.toUInt8

-- ═══════════════════════════════════════════════════════════════════════════
-- The grammar
-- ═══════════════════════════════════════════════════════════════════════════

/-- Space, tab, line feed, carriage return. -/
def isSpace (c : UInt8) : Bool := c == 32 || c == 9 || c == 10 || c == 13

def isDigit (c : UInt8) : Bool := 48 ≤ c.toNat && c.toNat ≤ 57

/-- The value of a hexadecimal digit. -/
def hexDigit (c : UInt8) : Option ℕ :=
  if isDigit c then some (c.toNat - 48)
  else if 97 ≤ c.toNat ∧ c.toNat ≤ 102 then some (c.toNat - 87)
  else if 65 ≤ c.toNat ∧ c.toNat ≤ 70 then some (c.toNat - 55)
  else none

/-- Four hexadecimal digits. -/
def codeUnit : List UInt8 → Option (ℕ × List UInt8)
  | a :: b :: c :: d :: s => do
    some (((← hexDigit a) * 16 + (← hexDigit b)) * 256 + (← hexDigit c) * 16 + (← hexDigit d), s)
  | _ => none

/-- What follows `\u`: a character, or the first half of one that needs two. -/
def unicode (s : List UInt8) : Option (List UInt8 × List UInt8) := do
  let (unit, s) ← codeUnit s
  if 0xD800 ≤ unit ∧ unit < 0xDC00 then
    if s.take 2 = ascii ['\\', 'u'] then
      let (low, s) ← codeUnit (s.drop 2)
      if 0xDC00 ≤ low ∧ low < 0xE000 then
        some (String.utf8EncodeChar (Char.ofNat
          (0x10000 + (unit - 0xD800) * 0x400 + (low - 0xDC00))), s)
      else none
    else none
  else if 0xDC00 ≤ unit ∧ unit < 0xE000 then none
  else some (String.utf8EncodeChar (Char.ofNat unit), s)

/-- The escapes of one character: `"` `\` `/` `b` `f` `n` `r` `t`. -/
def escapes : List (UInt8 × UInt8) :=
  [(34, 34), (92, 92), (47, 47), (98, 8), (102, 12), (110, 10), (114, 13), (116, 9)]

/-- A character of a string. -/
def char : List UInt8 → Option (List UInt8 × List UInt8)
  | [] => none
  | c :: s =>
    if c = 92 then
      match s with
      | [] => none
      | e :: s => if e = 117 then unicode s else (escapes.lookup e).map fun b => ([b], s)
    else if c.toNat < 32 then none
    else some ([c], s)

/-- The characters up to the closing quote. -/
def chars : ℕ → List UInt8 → Option (List UInt8 × List UInt8)
  | 0, _ => none
  | n + 1, s =>
    if s.head? = some 34 then some ([], s.tail)
    else do
      let (b, s) ← char s
      let (bs, s) ← chars n s
      some (b ++ bs, s)

/-- A string from its opening quote on. -/
def string (s : List UInt8) : Option (List UInt8 × List UInt8) :=
  if s.head? = some 34 then chars (s.length + 1) s.tail else none

/-- Digits, at least one. -/
def digits (s : List UInt8) : Option (List UInt8 × List UInt8) :=
  if s.takeWhile isDigit = [] then none else some (s.takeWhile isDigit, s.dropWhile isDigit)

/-- The number some digits stand for. -/
def ofDigits (ds : List UInt8) : ℕ := Nat.ofDigitChars 10 (ds.map Char.ofUInt8) 0

/-- The part of a number behind its decimal point. -/
def fraction (s : List UInt8) : Option (List UInt8 × List UInt8) :=
  if s.head? = some 46 then digits s.tail else some ([], s)

/-- The exponent of a number. -/
def exponent (s : List UInt8) : Option (ℤ × List UInt8) :=
  if s.head? = some 101 ∨ s.head? = some 69 then
    if s.tail.head? = some 45 then (digits s.tail.tail).map fun (ds, s) => (-(ofDigits ds : ℤ), s)
    else if s.tail.head? = some 43 then (digits s.tail.tail).map fun (ds, s) => (ofDigits ds, s)
    else (digits s.tail).map fun (ds, s) => (ofDigits ds, s)
  else some (0, s)

/-- A number without its sign; its digits have no leading zero. -/
def magnitude (s : List UInt8) : Option ((ℕ × ℤ) × List UInt8) := do
  let (ds, s) ← digits s
  if ds.head? = some 48 ∧ ds ≠ [48] then none
  else
    let (fs, s) ← fraction s
    let (e, s) ← exponent s
    some ((ofDigits (ds ++ fs), e - fs.length), s)

def number (s : List UInt8) : Option (Value × List UInt8) :=
  if s.head? = some 45 then (magnitude s.tail).map fun ((m, e), s) => (.number (-(m : ℤ)) e, s)
  else (magnitude s).map fun ((m, e), s) => (.number m e, s)

/-- A word that stands for a value. -/
def word (w : List Char) (v : Value) (s : List UInt8) : Option (Value × List UInt8) :=
  if s.take w.length = ascii w then some (v, s.drop w.length) else none

/-- What stands between commas, up to a closing bracket. -/
def items {α : Type} (item : List UInt8 → Option (α × List UInt8)) (close : UInt8) :
    ℕ → List UInt8 → Option (List α × List UInt8)
  | 0, _ => none
  | n + 1, s => do
    let (a, s) ← item s
    let s := s.dropWhile isSpace
    if s.head? = some close then some ([a], s.tail)
    else if s.head? = some 44 then
      let (as, s) ← items item close n s.tail
      some (a :: as, s)
    else none

/-- The same, where there may be nothing. -/
def bracketed {α : Type} (item : List UInt8 → Option (α × List UInt8)) (close : UInt8) (n : ℕ)
    (s : List UInt8) : Option (List α × List UInt8) :=
  if (s.dropWhile isSpace).head? = some close then some ([], (s.dropWhile isSpace).tail)
  else items item close n s

/-- A member of an object: its name, a colon, its value. -/
def member {α : Type} (value : List UInt8 → Option (α × List UInt8)) (s : List UInt8) :
    Option ((List UInt8 × α) × List UInt8) := do
  let (name, s) ← string (s.dropWhile isSpace)
  let s := s.dropWhile isSpace
  if s.head? = some 58 then
    let (v, s) ← value s.tail
    some ((name, v), s)
  else none

/-- A value; `n` bounds the nesting and the numbers of items. -/
def value : ℕ → List UInt8 → Option (Value × List UInt8)
  | 0, _ => none
  | n + 1, s =>
    let s := s.dropWhile isSpace
    match s.head? with
    | none => none
    | some c =>
      if c = 123 then
        (bracketed (member (value n)) 125 n s.tail).map fun (ms, s) => (.object ms, s)
      else if c = 91 then (bracketed (value n) 93 n s.tail).map fun (vs, s) => (.array vs, s)
      else if c = 34 then (string s).map fun (t, s) => (.string t, s)
      else if c = 116 then word ['t', 'r', 'u', 'e'] (.bool true) s
      else if c = 102 then word ['f', 'a', 'l', 's', 'e'] (.bool false) s
      else if c = 110 then word ['n', 'u', 'l', 'l'] .null s
      else number s

/-- A text with one value. -/
def parse (s : List UInt8) : Option Value := do
  let (v, s) ← value (s.length + 1) s
  if s.all isSpace then some v else none

-- ═══════════════════════════════════════════════════════════════════════════
-- Strings
-- ═══════════════════════════════════════════════════════════════════════════

variable {s t rest : List UInt8}

/-- What is read as a code unit is read so whatever follows it. -/
theorem codeUnit_append {u : ℕ} (h : codeUnit s = some (u, t)) :
    codeUnit (s ++ rest) = some (u, t ++ rest) := by
  rcases s with _ | ⟨a, _ | ⟨b, _ | ⟨c, _ | ⟨d, s⟩⟩⟩⟩
  case cons.cons.cons.cons =>
    simp only [codeUnit, Option.bind_eq_bind, Option.bind_eq_some_iff, Option.some.injEq,
      Prod.mk.injEq] at h
    obtain ⟨x, hx, y, hy, z, hz, w, hw, hu, rfl⟩ := h
    simp only [List.cons_append, codeUnit, hx, hy, hz, hw, hu, Option.bind_eq_bind,
      Option.bind_some]
  all_goals cases h

theorem unicode_append {b : List UInt8} (h : unicode s = some (b, t)) :
    unicode (s ++ rest) = some (b, t ++ rest) := by
  simp only [unicode, Option.bind_eq_bind, Option.bind_eq_some_iff] at h
  obtain ⟨⟨u, s'⟩, hunit, h⟩ := h
  simp only [unicode, codeUnit_append hunit, Option.bind_eq_bind, Option.bind_some]
  by_cases hhigh : 0xD800 ≤ u ∧ u < 0xDC00
  · -- the second half follows
    rw [if_pos hhigh] at h ⊢
    by_cases hmark : s'.take 2 = ascii ['\\', 'u']
    · have hlength : 2 ≤ s'.length := by
        have := congrArg List.length hmark
        rw [List.length_take] at this
        exact Nat.le_trans (Nat.le_of_eq this.symm) (Nat.min_le_right _ _)
      rw [if_pos hmark] at h
      simp only [Option.bind_eq_some_iff] at h
      obtain ⟨⟨low, s''⟩, hlow, h⟩ := h
      rw [List.take_append_of_le_length hlength, if_pos hmark,
        List.drop_append_of_le_length hlength, codeUnit_append hlow, Option.bind_some]
      split at h
      · next hrange =>
        obtain ⟨hb, ht⟩ := Prod.mk.inj (Option.some.inj h)
        rw [if_pos hrange, hb, ← ht]
      · cases h
    · rw [if_neg hmark] at h
      cases h
  · rw [if_neg hhigh] at h ⊢
    split at h
    · cases h
    · next hlow =>
      cases h
      rw [if_neg hlow]

/-- What is read as a character is read so whatever follows it. -/
theorem char_append {b : List UInt8} (h : char s = some (b, t)) :
    char (s ++ rest) = some (b, t ++ rest) := by
  rcases s with _ | ⟨c, s⟩
  · cases h
  rw [List.cons_append]
  by_cases hescape : c = 92
  · rcases s with _ | ⟨e, s⟩
    · simp only [char, if_pos hescape] at h
      cases h
    · simp only [char, if_pos hescape] at h
      simp only [List.cons_append, char, if_pos hescape]
      by_cases hunicode : e = 117
      · rw [if_pos hunicode] at h ⊢
        exact unicode_append h
      · rw [if_neg hunicode] at h ⊢
        rw [Option.map_eq_some_iff] at h ⊢
        obtain ⟨d, hd, h⟩ := h
        cases h
        exact ⟨d, hd, rfl⟩
  · simp only [char, if_neg hescape] at h ⊢
    split at h
    · cases h
    · next hplain =>
      cases h
      rw [if_neg hplain]

/-- There is no control character in the text. -/
def Printable (t : List UInt8) : Prop := ∀ b ∈ t, 32 ≤ b.toNat

instance : Decidable (Printable t) :=
  List.decidableBAll (fun b : UInt8 => 32 ≤ b.toNat) t

theorem printable_append : Printable (s ++ t) ↔ Printable s ∧ Printable t := List.forall_mem_append

theorem printable_cons {b : UInt8} : Printable (b :: t) ↔ 32 ≤ b.toNat ∧ Printable t :=
  List.forall_mem_cons

/-- A text that spells a string between quotes, one piece for each of its bytes. -/
inductive Spells : List UInt8 → List UInt8 → Prop
  | nil : Spells [] []
  | cons {b : UInt8} {piece s t : List UInt8}
      (hpiece : char piece = some ([b], [])) (hquote : piece.head? ≠ some 34) (h : Spells s t) :
      Spells (b :: s) (piece ++ t)

theorem Spells.chars (h : Spells s t) {n : ℕ} (hn : t.length < n) :
    Json.chars n (t ++ 34 :: rest) = some (s, rest) := by
  induction h generalizing n with
  | nil =>
    obtain ⟨n, rfl⟩ : ∃ k, n = k + 1 := ⟨n - 1, by omega⟩
    rfl
  | @cons b piece s t hpiece hquote _ ih =>
    obtain ⟨n, rfl⟩ : ∃ k, n = k + 1 := ⟨n - 1, by omega⟩
    have hne : piece ≠ [] := by
      rintro rfl
      cases hpiece
    have hpos : 0 < piece.length := List.length_pos_of_ne_nil hne
    rw [List.length_append] at hn
    have hhead : (piece ++ t ++ 34 :: rest).head? ≠ some 34 := by
      rwa [List.append_assoc, List.head?_append_of_ne_nil _ hne]
    rw [Json.chars, if_neg hhead, List.append_assoc, char_append hpiece]
    show (Json.chars n (t ++ 34 :: rest)).bind _ = _
    rw [ih (by omega)]
    rfl

/-- A text spelled between quotes is read as a string. -/
theorem Spells.string (h : Spells s t) : Json.string (34 :: t ++ 34 :: rest) = some (s, rest) := by
  rw [Json.string, List.cons_append, if_pos (List.head?_cons)]
  refine h.chars ?_
  rw [List.length_cons, List.length_append]
  omega

/-- Byte by byte. -/
theorem Spells.flatMap {piece : UInt8 → List UInt8}
    (h : ∀ b, char (piece b) = some ([b], []) ∧ (piece b).head? ≠ some 34) (s : List UInt8) :
    Spells s (s.flatMap piece) := by
  induction s with
  | nil => exact .nil
  | cons b s ih =>
    rw [List.flatMap_cons]
    exact .cons (h b).1 (h b).2 ih

/-- A byte that stands for itself. -/
theorem char_plain {b : UInt8} (hcontrol : 32 ≤ b.toNat) (hescape : b ≠ 92) :
    char [b] = some ([b], []) := by
  simp only [char, if_neg hescape, if_neg (Nat.not_lt.mpr hcontrol)]

/-- Bytes that are read as they stand. -/
def isPlain (s : List UInt8) : Bool := s.all fun b => 32 ≤ b.toNat && b != 92 && b != 34

theorem Spells.plain (h : isPlain s) : Spells s s := by
  induction s with
  | nil => exact .nil
  | cons b s ih =>
    simp only [isPlain, List.all_cons, Bool.and_eq_true, decide_eq_true_iff, bne_iff_ne] at h
    obtain ⟨⟨⟨hcontrol, hescape⟩, hquote⟩, hs⟩ := h
    show Spells (b :: s) ([b] ++ s)
    exact .cons (char_plain hcontrol hescape) (by rwa [List.head?_cons, Ne, Option.some_inj])
      (ih hs)

-- ═══════════════════════════════════════════════════════════════════════════
-- Values
-- ═══════════════════════════════════════════════════════════════════════════

/-- What follows does not continue a number. -/
def Stops (rest : List UInt8) : Prop :=
  ∀ c, rest.head? = some c → isDigit c = false ∧ c ≠ 46 ∧ c ≠ 101 ∧ c ≠ 69

/-- A text the parser reads as `v`, whatever follows it. -/
def Reads (v : Value) (t : List UInt8) : Prop :=
  ∀ n rest, t.length ≤ n → Stops rest → value n (t ++ rest) = some (v, rest)

theorem stops_cons (c : UInt8) (rest : List UInt8)
    (h : isDigit c = false ∧ c ≠ 46 ∧ c ≠ 101 ∧ c ≠ 69) : Stops (c :: rest) := by
  rintro d ⟨⟩
  exact h

/-- A string in quotes. -/
theorem Reads.string (h : Spells s t) : Reads (.string s) (34 :: t ++ [34]) := by
  intro n rest hn _
  obtain ⟨n, rfl⟩ : ∃ k, n = k + 1 :=
   ⟨n - 1, by rw [List.length_append, List.length_cons] at hn; omega⟩
  have hread : Json.string (34 :: t ++ 34 :: rest) = some (s, rest) := h.string
  rw [List.cons_append] at hread
  rw [List.append_assoc, List.cons_append, List.singleton_append]
  simp only [value, List.dropWhile_cons, show isSpace 34 = false from rfl, List.head?_cons,
    Bool.false_eq_true, if_false, hread]
  rfl

/-- An integer in decimal notation. -/
def integer (n : ℤ) : List UInt8 :=
  ascii (if n < 0 then '-' :: Nat.toDigits 10 n.natAbs else Nat.toDigits 10 n.natAbs)

/-- A decimal digit as a byte. -/
theorem isDigit_toUInt8 {c : Char} (h : c.isDigit) :
    isDigit c.toUInt8 = true ∧ Char.ofUInt8 c.toUInt8 = c := by
  obtain ⟨hle, hge⟩ := OrderedText.isDigit_iff.mp h
  have hbyte : c.toUInt8.toNat = c.toNat := by
    show c.toNat % 2 ^ 8 = c.toNat
    omega
  constructor
  · rw [isDigit, Bool.and_eq_true, decide_eq_true_iff, decide_eq_true_iff, hbyte]
    exact ⟨hle, hge⟩
  · apply Char.ext
    apply UInt32.toNat_inj.mp
    show c.toUInt8.toUInt32.toNat = c.toNat
    rw [UInt8.toNat_toUInt32, hbyte]

/-- The digits of a number have no leading zero. -/
theorem head_toDigits_ne {n : ℕ} (h : 0 < n) : (Nat.toDigits 10 n).head? ≠ some '0' := by
  induction n using Nat.strongRecOn with
  | ind n ih =>
    by_cases hlt : n < 10
    · rw [Nat.toDigits_of_lt_base hlt]
      have hdigit : ∀ d < 10, 0 < d → [d.digitChar].head? ≠ some '0' := by decide
      exact hdigit n hlt h
    · rw [Nat.toDigits_of_base_le (by decide) (by omega),
        List.head?_append_of_ne_nil _ Nat.toDigits_ne_nil]
      exact ih (n / 10) (by omega) (by omega)

/-- Digits are read up to where they end. -/
theorem digits_ascii {ds : List Char} (h : OrderedText.IsDigits ds) (hne : ds ≠ [])
    (hrest : Stops rest) : digits (ascii ds ++ rest) = some (ascii ds, rest) := by
  have hds : ∀ c ∈ ascii ds, isDigit c := by
    intro c hc
    obtain ⟨d, hd, rfl⟩ := List.mem_map.mp hc
    exact (isDigit_toUInt8 (h d hd)).1
  have hnone : rest.takeWhile isDigit = [] ∧ rest.dropWhile isDigit = rest := by
    cases rest with
    | nil => exact ⟨rfl, rfl⟩
    | cons c rest =>
      have hc : isDigit c = false := (hrest c rfl).1
      exact ⟨List.takeWhile_cons_of_neg (by simp [hc]), List.dropWhile_cons_of_neg (by simp [hc])⟩
  have hsome : ascii ds ≠ [] := fun hnil => hne (List.map_eq_nil_iff.mp hnil)
  rw [digits, List.takeWhile_append_of_pos hds, List.dropWhile_append_of_pos hds, hnone.1, hnone.2,
    List.append_nil, if_neg hsome]

theorem ofDigits_ascii {ds : List Char} (h : OrderedText.IsDigits ds) :
    ofDigits (ascii ds) = Nat.ofDigitChars 10 ds 0 := by
  have hsame : ds.map (Char.ofUInt8 ∘ Char.toUInt8) = ds.map id :=
    List.map_congr_left fun c hc => (isDigit_toUInt8 (h c hc)).2
  rw [ofDigits, ascii, List.map_map, hsame, List.map_id]

/-- In bytes as well. -/
theorem head_ascii_toDigits {m : ℕ} (h : (ascii (Nat.toDigits 10 m)).head? = some 48) :
    ascii (Nat.toDigits 10 m) = [48] := by
  obtain rfl | hpos := Nat.eq_zero_or_pos m
  · rfl
  · rw [ascii, List.head?_map, Option.map_eq_some_iff] at h
    obtain ⟨c, hc, hbyte⟩ := h
    have hdigit : c.isDigit :=
      Nat.isDigit_of_mem_toDigits (by decide) (by decide) (List.mem_of_mem_head? hc)
    have hchar : c = '0' := by
      rw [← (isDigit_toUInt8 hdigit).2, hbyte]
      rfl
    exact absurd (hchar ▸ hc) (head_toDigits_ne hpos)

/-- The digits of a natural number are read as this number. -/
theorem magnitude_toDigits (m : ℕ) (hrest : Stops rest) :
    magnitude (ascii (Nat.toDigits 10 m) ++ rest) = some ((m, 0), rest) := by
  have hds : OrderedText.IsDigits (Nat.toDigits 10 m) := fun c hc =>
    Nat.isDigit_of_mem_toDigits (by decide) (by decide) hc
  have hzero : ¬ ((ascii (Nat.toDigits 10 m)).head? = some 48 ∧ ascii (Nat.toDigits 10 m) ≠ [48]) :=
    fun hzero => hzero.2 (head_ascii_toDigits hzero.1)
  have hpoint : rest.head? ≠ some 46 := fun hc => (hrest _ hc).2.1 rfl
  have hletter : ¬ (rest.head? = some 101 ∨ rest.head? = some 69) := by
    rintro (hc | hc)
    · exact (hrest _ hc).2.2.1 rfl
    · exact (hrest _ hc).2.2.2 rfl
  rw [magnitude, digits_ascii hds Nat.toDigits_ne_nil hrest]
  simp only [Option.bind_eq_bind, Option.bind_some, if_neg hzero, fraction, if_neg hpoint, exponent,
    if_neg hletter, List.append_nil, ofDigits_ascii hds, Nat.ofDigitChars_ten_toDigits]
  rfl

/-- What starts like a number is read as one. -/
theorem value_number {c : UInt8} (h : isDigit c = true ∨ c = 45) (n : ℕ) :
    value (n + 1) (c :: rest) = number (c :: rest) := by
  have hne : ∀ d, isDigit d = false ∧ d ≠ 45 → c ≠ d := by
    rintro d ⟨hd, hminus⟩ rfl
    rcases h with h | h
    · exact absurd (h.symm.trans hd) (by decide)
    · exact hminus h
  have hspace : isSpace c = false := by
    simp only [isSpace, beq_eq_false_iff_ne.mpr (hne 32 (by decide)),
      beq_eq_false_iff_ne.mpr (hne 9 (by decide)), beq_eq_false_iff_ne.mpr (hne 10 (by decide)),
      beq_eq_false_iff_ne.mpr (hne 13 (by decide)), Bool.or_self]
  simp only [value, List.dropWhile_cons, hspace, List.head?_cons, Bool.false_eq_true, if_false,
    if_neg (hne 123 (by decide)), if_neg (hne 91 (by decide)), if_neg (hne 34 (by decide)),
    if_neg (hne 116 (by decide)), if_neg (hne 102 (by decide)), if_neg (hne 110 (by decide))]

/-- An integer. -/
theorem Reads.integer (k : ℤ) : Reads (.number k 0) (integer k) := by
  intro n rest hn hrest
  obtain ⟨n, rfl⟩ : ∃ j, n = j + 1 := ⟨n - 1, by
    have hpos : 0 < (Json.integer k).length := by
      rw [Json.integer, ascii, List.length_map]
      split
      · exact Nat.succ_pos _
      · exact Nat.length_toDigits_pos
    omega⟩
  rw [Json.integer]
  split
  · next hneg =>
    show value (n + 1) (45 :: (ascii (Nat.toDigits 10 k.natAbs) ++ rest)) = _
    rw [value_number (.inr rfl), number, if_pos List.head?_cons, List.tail_cons,
      magnitude_toDigits _ hrest, Option.map_some]
    show some (Value.number (-(k.natAbs : ℤ)) 0, rest) = some (Value.number k 0, rest)
    rw [show -(k.natAbs : ℤ) = k by omega]
  · next hnonneg =>
    obtain ⟨c, ds, hds⟩ := List.exists_cons_of_ne_nil (@Nat.toDigits_ne_nil k.natAbs 10)
    have hdigit : isDigit c.toUInt8 = true := (isDigit_toUInt8
      (Nat.isDigit_of_mem_toDigits (by decide) (by decide) (hds ▸ List.mem_cons_self))).1
    have hread := magnitude_toDigits k.natAbs hrest
    rw [hds] at hread ⊢
    have hminus : (c.toUInt8 :: (ascii ds ++ rest)).head? ≠ some 45 := by
      rw [List.head?_cons]
      intro heq
      rw [Option.some_inj.mp heq] at hdigit
      exact absurd hdigit (by decide)
    show value (n + 1) (c.toUInt8 :: (ascii ds ++ rest)) = _
    rw [value_number (.inl hdigit), number, if_neg hminus]
    show (magnitude (ascii (c :: ds) ++ rest)).map _ = _
    rw [hread, Option.map_some]
    show some (Value.number (k.natAbs : ℤ) 0, rest) = some (Value.number k 0, rest)
    rw [show (k.natAbs : ℤ) = k by omega]

/-- There is no control character in an integer. -/
theorem printable_integer (k : ℤ) : Printable (integer k) := by
  have hdigits : Printable (ascii (Nat.toDigits 10 k.natAbs)) := by
    intro b hb
    obtain ⟨c, hc, rfl⟩ := List.mem_map.mp hb
    have hdigit : isDigit c.toUInt8 = true :=
      (isDigit_toUInt8 (Nat.isDigit_of_mem_toDigits (by decide) (by decide) hc)).1
    rw [isDigit, Bool.and_eq_true, decide_eq_true_iff] at hdigit
    exact Nat.le_trans (by decide) hdigit.1
  rw [integer]
  split
  · exact printable_cons.mpr ⟨by decide, hdigits⟩
  · exact hdigits

-- ═══════════════════════════════════════════════════════════════════════════
-- Objects
-- ═══════════════════════════════════════════════════════════════════════════

/-- A text of the members of an object: names in quotes, colons, values, and commas
between the members. -/
inductive Members : List (List UInt8 × Value) → List UInt8 → Prop
  | last {name spelled t : List UInt8} {v : Value} (hname : Spells name spelled) (hv : Reads v t) :
      Members [(name, v)] (34 :: spelled ++ 34 :: 58 :: t)
  | cons {name spelled t more : List UInt8} {v : Value} {ms : List (List UInt8 × Value)}
      (hname : Spells name spelled) (hv : Reads v t) (h : Members ms more) :
      Members ((name, v) :: ms) (34 :: spelled ++ 34 :: 58 :: (t ++ 44 :: more))

variable {ms : List (List UInt8 × Value)}

/-- A member of an object. -/
theorem member_of_reads {name spelled : List UInt8} {v : Value} (hname : Spells name spelled)
    (hv : Reads v t) {n : ℕ} (hn : t.length ≤ n) (hrest : Stops rest) :
    member (value n) (34 :: spelled ++ 34 :: 58 :: (t ++ rest)) = some ((name, v), rest) := by
  have hstring : Json.string (34 :: spelled ++ 34 :: 58 :: (t ++ rest)) =
      some (name, 58 :: (t ++ rest)) := hname.string
  rw [List.cons_append] at hstring ⊢
  simp only [member, List.dropWhile_cons, show isSpace 34 = false from rfl,
    show isSpace 58 = false from rfl, Bool.false_eq_true, if_false, hstring, Option.bind_eq_bind,
    Option.bind_some, List.head?_cons, if_true, List.tail_cons, hv n rest hn hrest]

/-- The members up to the closing brace. -/
theorem Members.items (h : Members ms t) {n m : ℕ} (hn : t.length ≤ n) (hm : t.length ≤ m) :
    Json.items (member (value n)) 125 m (t ++ 125 :: rest) = some (ms, rest) := by
  induction h generalizing m with
  | @last name spelled t v hname hv =>
    simp only [List.length_append, List.length_cons] at hn hm
    obtain ⟨m, rfl⟩ : ∃ k, m = k + 1 := ⟨m - 1, by omega⟩
    have hmember := member_of_reads hname hv (n := n) (by omega)
      (stops_cons 125 rest (by decide))
    have htext : 34 :: spelled ++ 34 :: 58 :: t ++ 125 :: rest =
        34 :: spelled ++ 34 :: 58 :: (t ++ 125 :: rest) := by
      simp only [List.append_assoc, List.cons_append]
    rw [htext, Json.items, hmember]
    rfl
  | @cons name spelled t more v ms hname hv h ih =>
    simp only [List.length_append, List.length_cons] at hn hm
    obtain ⟨m, rfl⟩ : ∃ k, m = k + 1 := ⟨m - 1, by omega⟩
    have hmember := member_of_reads hname hv (n := n) (by omega)
      (stops_cons 44 (more ++ 125 :: rest) (by decide))
    have hitems : Json.items (member (value n)) 125 m (more ++ 125 :: rest) = some (ms, rest) :=
      ih (by omega) (by omega)
    have htext : 34 :: spelled ++ 34 :: 58 :: (t ++ 44 :: more) ++ 125 :: rest =
        34 :: spelled ++ 34 :: 58 :: (t ++ 44 :: (more ++ 125 :: rest)) := by
      simp only [List.append_assoc, List.cons_append]
    rw [htext, Json.items, hmember]
    simp only [Option.bind_eq_bind, Option.bind_some, List.dropWhile_cons,
      show isSpace 44 = false from rfl, Bool.false_eq_true, if_false, List.head?_cons, if_true,
      List.tail_cons, hitems]
    rfl

/-- An object. -/
theorem Reads.object (h : Members ms t) : Reads (.object ms) (123 :: t ++ [125]) := by
  intro n rest hn _
  rw [List.length_append, List.length_cons, List.length_singleton] at hn
  obtain ⟨n, rfl⟩ : ∃ k, n = k + 1 := ⟨n - 1, by omega⟩
  have hitems : Json.items (member (value n)) 125 n (t ++ 125 :: rest) = some (ms, rest) :=
    h.items (by omega) (by omega)
  have hstart : ((t ++ 125 :: rest).dropWhile isSpace).head? ≠ some 125 := by
    cases h <;> exact of_decide_eq_false rfl
  rw [List.append_assoc, List.cons_append, List.singleton_append]
  simp only [value, List.dropWhile_cons, show isSpace 123 = false from rfl, Bool.false_eq_true,
    if_false, List.head?_cons, if_true, List.tail_cons, bracketed, if_neg hstart, hitems,
    Option.map_some]

/-- A text of a value, with space behind it. -/
theorem parse_of_reads {v : Value} (h : Reads v t) (hrest : rest.all isSpace) :
    parse (t ++ rest) = some v := by
  have hstops : Stops rest := by
    intro c hc
    have hspace := List.all_eq_true.mp hrest c (List.mem_of_mem_head? hc)
    rw [isSpace, Bool.or_eq_true, Bool.or_eq_true, Bool.or_eq_true, beq_iff_eq, beq_iff_eq,
      beq_iff_eq, beq_iff_eq] at hspace
    rcases hspace with ((rfl | rfl) | rfl) | rfl <;> decide
  rw [parse, h _ rest (by rw [List.length_append]; omega) hstops]
  exact if_pos hrest

-- ═══════════════════════════════════════════════════════════════════════════
-- Lines
-- ═══════════════════════════════════════════════════════════════════════════

/-- Lines without a line feed of their own are told apart by those at their ends. -/
theorem splitOn_lines {lines : List (List UInt8)} (h : ∀ line ∈ lines, 10 ∉ line) :
    (lines.flatMap (· ++ [10])).splitOn 10 = lines ++ [[]] := by
  have hjoin : lines.flatMap (· ++ [10]) = [10].intercalate (lines ++ [[]]) := by
    induction lines with
    | nil => rfl
    | cons line lines ih =>
      rw [List.flatMap_cons, ih fun l hl => h l (List.mem_cons_of_mem _ hl), List.cons_append,
        List.intercalate_cons_of_ne_nil
         (List.append_ne_nil_of_right_ne_nil _ (List.cons_ne_nil _ _))]
  rw [hjoin,
    List.splitOn_intercalate 10 _ (List.append_ne_nil_of_right_ne_nil _ (List.cons_ne_nil _ _))]
  intro line hline
  rcases List.mem_append.mp hline with hline | hline
  · exact h line hline
  · rw [List.mem_singleton.mp hline]
    exact List.not_mem_nil

end Json
