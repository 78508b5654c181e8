import LoggerHigh.Compress.CompressLoop

/-!
# Both directions

What zlib promises about `deflate` and `inflate` together, and an instance of it
without compression.

## Main definitions

- `Zlib` — both engines; `inflate` opens what `deflate` has put out
- `plainZlib` — the bytes themselves, and a zero at the end

## Main results

- `decompress_of_compress` — `Decompress` gives back what `Compress` was called with
-/

namespace LoggerHigh

/-- zlib: whatever `deflate` puts out for a text at some level is a whole stream, and
it inflates to this text. -/
structure Zlib where
  deflater : Deflater
  inflater : Inflater
  opens_of_deflates : ∀ {level : ℕ} {input output : Bytes},
    deflater.Deflates level input output → inflater.Opens output input

/-- `Decompress` gives back what `Compress` was called with, in as many rounds as it takes. -/
theorem decompress_of_compress (Z : Zlib) {alloc alloc' : ℕ → Bool} {level fuel : ℕ}
    {input output : Bytes} (halloc : ∀ n, alloc' n = true) (hinput : input.length < 2 ^ 31)
    (houtput : output.length < 2 ^ 32)
    (h : compress Z.deflater.toDeflateEngine level alloc input [] fuel = some (.returned output)) :
    ∃ n, ∀ fuel', n ≤ fuel' →
      decompress Z.inflater.toInflateEngine alloc' output [] fuel' = some (.returned input) :=
  decompress_of_opens halloc houtput hinput (Z.opens_of_deflates (deflates_of_compress h))

-- ═══════════════════════════════════════════════════════════════════════════
-- An instance
-- ═══════════════════════════════════════════════════════════════════════════

/-- The encoder of the format `plainAnswer` reads; there is none for a zero byte. -/
def plainDeflate (offered : Bytes) (room : ℕ) (flush : Flush) : ZAnswer Unit :=
  match offered with
  | [] => if flush = .finish ∧ 0 < room then ⟨.streamEnd, (), 0, [0]⟩ else ⟨.bufError, (), 0, []⟩
  | b :: _ =>
    if b = 0 then ⟨.other (-2), (), 0, []⟩
    else if room = 0 then ⟨.bufError, (), 0, []⟩
    else ⟨.ok, (), 1, [b]⟩

/-- The encoder waits, copies a byte, ends the stream, or refuses a zero. -/
theorem plainDeflate_cases (offered : Bytes) (room : ℕ) (flush : Flush) :
    plainDeflate offered room flush = ⟨.bufError, (), 0, []⟩ ∨
      (∃ b rest, offered = b :: rest ∧ b ≠ 0 ∧ 0 < room ∧
        plainDeflate offered room flush = ⟨.ok, (), 1, [b]⟩) ∨
      (offered = [] ∧ flush = .finish ∧ 0 < room ∧
        plainDeflate offered room flush = ⟨.streamEnd, (), 0, [0]⟩) ∨
      plainDeflate offered room flush = ⟨.other (-2), (), 0, []⟩ := by
  cases offered with
  | nil =>
    by_cases h : flush = .finish ∧ 0 < room
    · exact .inr (.inr (.inl ⟨rfl, h.1, h.2, if_pos h⟩))
    · exact .inl (if_neg h)
  | cons b rest =>
    rw [plainDeflate]
    by_cases hb : b = 0
    · exact .inr (.inr (.inr (if_pos hb)))
    · rw [if_neg hb]
      by_cases hroom : room = 0
      · exact .inl (if_pos hroom)
      · exact .inr (.inl ⟨b, rest, rfl, hb, Nat.pos_of_ne_zero hroom, if_neg hroom⟩)

/-- The decoder waits for input or room, copies a byte, or ends the stream at a zero. -/
theorem plainEngine_cases (s : plainEngine.State) (offered : Bytes) (room : ℕ) :
    (offered = [] ∨ room = 0) ∧ plainEngine.inflate s offered room = ⟨.bufError, (), 0, []⟩ ∨
      (∃ b rest, offered = b :: rest ∧ b ≠ 0 ∧ 0 < room ∧
        plainEngine.inflate s offered room = ⟨.ok, (), 1, [b]⟩) ∨
      ∃ rest, offered = 0 :: rest ∧
        plainEngine.inflate s offered room = ⟨.streamEnd, (), 1, []⟩ := by
  show (_ ∧ plainAnswer offered room = _) ∨ (∃ b rest, _ ∧ _ ∧ _ ∧ plainAnswer offered room = _) ∨
    ∃ rest, _ ∧ plainAnswer offered room = _
  cases offered with
  | nil => exact .inl ⟨.inl rfl, rfl⟩
  | cons b rest =>
    rw [plainAnswer]
    by_cases hb : b = 0
    · exact .inr (.inr ⟨rest, by rw [hb], if_pos hb⟩)
    · rw [if_neg hb]
      by_cases hroom : room = 0
      · exact .inl ⟨.inr hroom, if_pos hroom⟩
      · exact .inr (.inl ⟨b, rest, rfl, hb, Nat.pos_of_ne_zero hroom, if_neg hroom⟩)

/-- The encoder meets the contract of `deflate`. -/
def plainDeflater : Deflater where
  State := Unit
  init _ := .ok ()
  bound _ n := (n + 1) % 2 ^ 64
  deflate _ := plainDeflate
  consumed_le _ offered room flush := by
    rcases plainDeflate_cases offered room flush with h | ⟨b, rest, rfl, -, -, h⟩ | ⟨-, -, -, h⟩ | h
    all_goals
      rw [h]
      simp
  produced_le _ offered room flush := by
    rcases plainDeflate_cases offered room flush with
      h | ⟨_, _, -, -, hroom, h⟩ | ⟨-, -, hroom, h⟩ | h
    all_goals rw [h]
    · exact Nat.zero_le _
    · exact hroom
    · exact hroom
    · exact Nat.zero_le _
  streamEnd _ offered room flush := by
    rcases plainDeflate_cases offered room flush with
      h | ⟨_, _, -, -, -, h⟩ | ⟨rfl, hflush, -, h⟩ | h
    all_goals rw [h]
    · exact fun hend => nomatch hend
    · exact fun hend => nomatch hend
    · exact fun _ => ⟨hflush, rfl⟩
    · exact fun hend => nomatch hend
  bound_lt _ _ := Nat.mod_lt _ (by decide)

variable {input output emitted : Bytes} {level c : ℕ}

/-- The first byte of a piece that is offered is the next one. -/
theorem take_succ_of_offered {len : ℕ} {b : UInt8} {rest : Bytes}
    (h : (input.drop c).take len = b :: rest) :
    c < input.length ∧ input.take (c + 1) = input.take c ++ [b] := by
  have hlt : c < input.length := by
    by_contra hge
    rw [List.drop_eq_nil_of_le (by omega), List.take_nil] at h
    cases h
  refine ⟨hlt, ?_⟩
  cases len with
  | zero => cases h
  | succ len =>
    rw [List.drop_eq_getElem_cons hlt, List.take_succ_cons] at h
    rw [List.take_succ_eq_append_getElem hlt, (List.cons.inj h).1]

/-- The encoder copies bytes other than zero. -/
theorem plainDeflater_streams {s : plainDeflater.State}
    (h : plainDeflater.Streams level input s c emitted) :
    c ≤ input.length ∧ emitted = input.take c ∧ 0 ∉ emitted := by
  induction h with
  | init => exact ⟨Nat.zero_le _, rfl, List.not_mem_nil⟩
  | @call s c len room flush emitted _ _ a ha hret ih =>
    obtain ⟨hle, rfl, hzero⟩ := ih
    replace ha : a = plainDeflate ((input.drop c).take len) room flush := ha
    rcases plainDeflate_cases ((input.drop c).take len) room flush with
      h | ⟨b, rest, hoffered, hb, -, h⟩ | ⟨-, -, -, h⟩ | h
    all_goals
      rw [h] at ha
      subst ha
    · exact ⟨hle, List.append_nil _, by rwa [List.append_nil]⟩
    · obtain ⟨hlt, htake⟩ := take_succ_of_offered hoffered
      refine ⟨hlt, htake.symm, fun hmem => ?_⟩
      rcases List.mem_append.mp hmem with hmem | hmem
      · exact hzero hmem
      · exact hb (List.mem_singleton.mp hmem).symm
    · rcases hret with hret | hret <;> cases hret
    · rcases hret with hret | hret <;> cases hret

/-- What it puts out is the text and a zero. -/
theorem plainDeflater_deflates (h : plainDeflater.Deflates level input output) :
    output = input ++ [0] ∧ 0 ∉ input := by
  obtain ⟨s, c, emitted, len, room, hstreams, hall, hlast⟩ := h
  obtain ⟨hle, rfl, hzero⟩ := plainDeflater_streams hstreams
  replace hlast : let a := plainDeflate ((input.drop c).take len) room .finish
    a.ret = .streamEnd ∧ a.consumed = len ∧ output = input.take c ++ a.produced := hlast
  rcases plainDeflate_cases ((input.drop c).take len) room .finish with
    h | ⟨_, _, -, -, -, h⟩ | ⟨-, -, -, h⟩ | h
  all_goals
    rw [h] at hlast
    obtain ⟨hend, rfl, rfl⟩ := hlast
  · cases hend
  · cases hend
  · obtain rfl : c = input.length := hall
    rw [List.take_length] at hzero ⊢
    exact ⟨rfl, hzero⟩
  · cases hend

/-- Before the closing zero stands the text. -/
theorem take_succ_of_copied {len : ℕ} {b : UInt8} {rest : Bytes} (hle : c ≤ input.length)
    (h : ((input ++ [0]).drop c).take len = b :: rest) (hb : b ≠ 0) :
    c < input.length ∧ input.take (c + 1) = input.take c ++ [b] := by
  obtain ⟨-, htake⟩ := take_succ_of_offered h
  have hlt : c < input.length := by
    refine Nat.lt_of_le_of_ne hle fun heq => hb ?_
    have hall : (input ++ [0]).take (input.length + 1) = input ++ [0] :=
      List.take_of_length_le (by rw [List.length_append, List.length_singleton])
    rw [heq, hall, List.take_left] at htake
    exact (List.cons.inj (List.append_cancel_left htake)).1.symm
  rw [List.take_append_of_le_length hlt, List.take_append_of_le_length hle] at htake
  exact ⟨hlt, htake⟩

/-- The decoder copies what stands before the zero. -/
theorem plainEngine_streams {s : plainEngine.State}
    (h : plainEngine.Streams (input ++ [0]) s c emitted) :
    c ≤ input.length ∧ emitted = input.take c := by
  induction h with
  | init => exact ⟨Nat.zero_le _, rfl⟩
  | @call s c len room emitted _ a ha hret ih =>
    obtain ⟨hle, rfl⟩ := ih
    rcases plainEngine_cases s (((input ++ [0]).drop c).take len) room with
      ⟨-, h⟩ | ⟨b, rest, hoffered, hb, -, h⟩ | ⟨rest, -, h⟩
    all_goals
      rw [h] at ha
      subst ha
    · exact ⟨hle, List.append_nil _⟩
    · obtain ⟨hlt, htake⟩ := take_succ_of_copied hle hoffered hb
      exact ⟨hlt, htake.symm⟩
    · rcases hret with hret | hret <;> cases hret

/-- It opens what the encoder puts out. -/
theorem plainEngine_opens (hinput : 0 ∉ input) : plainEngine.Opens (input ++ [0]) input := by
  refine ⟨⟨(), rfl⟩, fun {s c emitted} hstreams len room => ?answers,
    fun {s c emitted} hstreams len room hroom hsome => ?progress⟩
  all_goals
    obtain ⟨hle, rfl⟩ := plainEngine_streams hstreams
  case answers =>
    rcases plainEngine_cases s (((input ++ [0]).drop c).take len) room with
      ⟨-, h⟩ | ⟨b, rest, hoffered, hb, -, h⟩ | ⟨rest, hoffered, h⟩
    all_goals rw [h]
    · exact .inl ⟨.inr rfl, by rw [List.append_nil]; exact List.take_prefix _ _⟩
    · obtain ⟨-, htake⟩ := take_succ_of_copied hle hoffered hb
      exact .inl ⟨.inl rfl, by rw [← htake]; exact List.take_prefix _ _⟩
    · refine .inr ⟨rfl, ?_⟩
      obtain ⟨-, htake⟩ := take_succ_of_offered hoffered
      obtain rfl | hlt := Nat.eq_or_lt_of_le hle
      · rw [List.append_nil, List.take_length]
      · rw [List.take_append_of_le_length hlt, List.take_append_of_le_length hle] at htake
        refine absurd (List.mem_of_mem_take (i := c + 1) ?_) hinput
        rw [htake]
        exact List.mem_append_right _ (List.mem_singleton_self _)
  case progress =>
    rcases plainEngine_cases s (((input ++ [0]).drop c).take len) room with
      ⟨hwaits, -⟩ | ⟨b, rest, -, -, -, h⟩ | ⟨rest, -, h⟩
    · rcases hwaits with hnil | hzero
      · have hlength := congrArg List.length hnil
        rw [List.length_append, List.length_singleton] at hsome
        rw [List.length_take, List.length_drop, List.length_append, List.length_singleton,
          List.length_nil] at hlength
        omega
      · omega
    · rw [h]
      exact fun _ hidle => Nat.one_ne_zero hidle.1
    · rw [h]
      exact fun hret => by rcases hret with hret | hret <;> cases hret

/-- The two together. -/
def plainZlib : Zlib where
  deflater := plainDeflater
  inflater := plainInflater
  opens_of_deflates := by
    intro level input output h
    obtain ⟨rfl, hzero⟩ := plainDeflater_deflates h
    exact plainEngine_opens hzero

end LoggerHigh
