import LoggerHigh.Compress.ZlibCompressor
import LoggerHigh.Crypt.AesGcmCipher
import LoggerHigh.Lib.LengthPrefix
import LoggerHigh.Sinks.ShardWriter

/-!
# The shard reader

`audit/shard_reader.cpp`. A stream is what is left of it: `read` takes as many
bytes as there are. Crypto++, zlib and protobuf are parameters; the functions
throw the `what()` of their exceptions.

## Main definitions

- `readShardHeader` — the header and what follows it
- `readFrame`, `readFrames` — one round of the frame loop, and the loop
- `AuditDeps`, `decodeFrame` — the libraries, and what the loop does with a frame
- `decodeShardFile` — the whole function
- `splitFrames` — the frames the loop comes across

## Main results

- `readFrame_frame`, `eq_frame_of_readFrame` — a round reads exactly one frame
- `readFrames_eq` — the loop decodes the frames it sees
-/

namespace LoggerHigh

open LengthPrefix

/-- `kFrameMinBytes`: nonce and tag. -/
def kFrameMinBytes : ℕ := 12 + 16

/-- `kServerPrivBytes` and `kClientEphPubBytes` -/
def kServerPrivBytes : ℕ := 32
def kClientEphPubBytes : ℕ := 32

/-- `DecodeLEU32` -/
def decodeLEU32 (p : Bytes) : UInt32 :=
  (p.getD 0 0).toUInt32 ||| (p.getD 1 0).toUInt32 <<< 8 ||| (p.getD 2 0).toUInt32 <<< 16 |||
    (p.getD 3 0).toUInt32 <<< 24

/-- `IsShardFilename` -/
def isShardFilename (name : FileName) : Bool :=
  8 < name.length && name.take 4 == ['l', 'o', 'g', '-'] &&
    name.drop (name.length - 4) == ['.', 'b', 'i', 'n']

/-- `ShardHeader` -/
structure ShardHeader where
  algoId : UInt32
  clientEphPub : Bytes
  deriving DecidableEq, Repr

/-- `ReadShardHeader`; what is left of the stream stands at the first frame. -/
def readShardHeader (input : Bytes) : Except String (ShardHeader × Bytes) :=
  let hdr := input.take kHeaderBytes
  if hdr.length ≠ kHeaderBytes then .error "audit: short shard header (file truncated?)"
  else if hdr.take 8 ≠ kMagic then .error "audit: shard magic mismatch (not an LGRH shard)"
  else
    let algoId := decodeLEU32 (hdr.drop 8)
    if algoId.toNat ≠ kAlgoId then
      .error ("audit: unsupported algo_id " ++ toString algoId.toNat)
    else .ok (⟨algoId, (hdr.drop 12).take kClientEphPubBytes⟩, input.drop kHeaderBytes)

/-- One round of the frame loop up to the call of `Decrypt`: the body of the frame
and what is left of the stream, or `none` at its end. -/
def readFrame (input : Bytes) : Except String (Option (Bytes × Bytes)) :=
  let lenbuf := input.take 4
  if lenbuf.length = 0 then .ok none
  else if lenbuf.length ≠ 4 then .error "audit: truncated frame length"
  else
    let flen := (decodeLEU32 lenbuf).toNat
    if flen < kFrameMinBytes then .error "audit: frame too small (corrupt or wrong format)"
    else
      let encrypted := (input.drop 4).take flen
      if encrypted.length ≠ flen then .error "audit: short frame body read"
      else .ok (some (encrypted, (input.drop 4).drop flen))

/-- A round consumes something. -/
theorem length_lt_of_readFrame {input body rest : Bytes}
    (h : readFrame input = .ok (some (body, rest))) : rest.length < input.length := by
  simp only [readFrame] at h
  split at h
  · cases h
  · next hsome =>
    split at h
    · cases h
    · split at h
      · cases h
      · split at h
        · cases h
        · cases h
          rw [List.length_take] at hsome
          rw [List.length_drop, List.length_drop]
          omega

section Reader

variable {ρ : Type}

/-- The frame loop with what it does with a body; `none` when that does not return. -/
def readFrames (decode : Bytes → Option (Except String ρ)) (input : Bytes) (records : List ρ) :
    Option (Except String (List ρ)) :=
  match _h : readFrame input with
  | .error what => some (.error what)
  | .ok none => some (.ok records)
  | .ok (some (body, rest)) =>
    match decode body with
    | none => none
    | some (.error what) => some (.error what)
    | some (.ok record) => readFrames decode rest (records ++ [record])
termination_by input.length
decreasing_by exact length_lt_of_readFrame _h

/-- What the reader uses of Crypto++, zlib and protobuf; `alloc` says whether there
is memory for a buffer. -/
structure AuditDeps (ρ : Type) where
  agree : (privateKey publicKey : Bytes) → Option Bytes
  hkdfSha256 : (secret salt info : Bytes) → (outLen : ℕ) → Except String Bytes
  gcm : Gcm
  engine : InflateEngine
  alloc : ℕ → Bool
  parseFromString : Bytes → Option ρ
  /-- the key material has the length asked for -/
  length_hkdfSha256 : ∀ {secret salt info okm : Bytes} {outLen : ℕ},
    hkdfSha256 secret salt info outLen = .ok okm → okm.length = outLen

variable (deps : AuditDeps ρ)

/-- The `info` of the key derivation: `logger-high aes-256-gcm`. -/
def kHkdfInfo : Bytes := "logger-high aes-256-gcm".toUTF8.toList

/-- `DeriveAesKey` -/
def deriveAesKey (serverPriv clientEphPub : Bytes) : Except String Bytes :=
  if serverPriv.length ≠ kServerPrivBytes then
    .error "audit: server private key must be 32 bytes"
  else if clientEphPub.length ≠ kClientEphPubBytes then
    .error "audit: client ephemeral public key must be 32 bytes"
  else
    match deps.agree serverPriv clientEphPub with
    | none => .error "audit: X25519 Agree failed (peer key invalid?)"
    | some shared => deps.hkdfSha256 shared [] kHkdfInfo 32

/-- What the loop does with the body of a frame: `Decrypt`, `Decompress` cut off
after `fuel` rounds, `ParseFromString`. -/
def decodeFrame (key : Bytes) (fuel : ℕ) (encrypted : Bytes) : Option (Except String ρ) :=
  match AesGcmCipher.decrypt deps.gcm key encrypted [] with
  | .error what => some (.error what)
  | .ok compressed =>
    match decompress deps.engine deps.alloc compressed [] fuel with
    | none => none
    | some (.threw e) => some (.error (String.ofList e.what))
    | some (.returned protoBytes) =>
      match deps.parseFromString protoBytes with
      | none => some (.error "audit: protobuf parse failed")
      | some record => some (.ok record)

/-- `DecodeShardFile`; `content` is `none` when the file cannot be opened. -/
def decodeShardFile (path : String) (content : Option Bytes) (serverPriv : Bytes) (fuel : ℕ) :
    Option (Except String (List ρ)) :=
  match content with
  | none => some (.error ("audit: cannot open shard " ++ path))
  | some input =>
    match readShardHeader input with
    | .error what => some (.error what)
    | .ok (hdr, frames) =>
      match deriveAesKey deps serverPriv hdr.clientEphPub with
      | .error what => some (.error what)
      | .ok key =>
        if key.length ≠ kKeyBytes then
          some (.error "AesGcmCipher: key must be 32 bytes (AES-256)")
        else readFrames (decodeFrame deps key fuel) frames []

end Reader

-- ═══════════════════════════════════════════════════════════════════════════
-- Lengths
-- ═══════════════════════════════════════════════════════════════════════════

/-- Four bytes denote a little-endian number. -/
theorem toNat_decodeLEU32 {p : Bytes} (h : p.length = 4) :
    (decodeLEU32 p).toNat = LittleEndian.decode p := by
  match p, h with
  | [a, b, c, d], _ =>
    have hor : ∀ {i x : ℕ} (y : ℕ), x < 2 ^ i → x ||| y * 2 ^ i = x + y * 2 ^ i := by
      intro i x y hx
      rw [Nat.or_comm, Nat.mul_comm, ← Nat.two_pow_add_eq_or_of_lt hx, Nat.add_comm]
    have ha : a.toNat < 2 ^ 8 := a.toNat_lt
    have hb : b.toNat < 2 ^ 8 := b.toNat_lt
    have hc : c.toNat < 2 ^ 8 := c.toNat_lt
    have hd : d.toNat < 2 ^ 8 := d.toNat_lt
    have hshift : ∀ {x k : ℕ}, x < 2 ^ 8 → k ≤ 24 → x * 2 ^ k % 2 ^ 32 = x * 2 ^ k := by
      intro x k hx hk
      have hpow : 2 ^ k ≤ 2 ^ 24 := Nat.pow_le_pow_right Nat.two_pos hk
      have hmul : x * 2 ^ k ≤ x * 2 ^ 24 := Nat.mul_le_mul_left x hpow
      exact Nat.mod_eq_of_lt (by omega)
    have hvalue : (decodeLEU32 [a, b, c, d]).toNat =
        a.toNat ||| b.toNat * 2 ^ 8 % 2 ^ 32 ||| c.toNat * 2 ^ 16 % 2 ^ 32 |||
          d.toNat * 2 ^ 24 % 2 ^ 32 := by
      simp [decodeLEU32, Nat.shiftLeft_eq]
    have hab : a.toNat + b.toNat * 2 ^ 8 < 2 ^ 16 := by omega
    have habc : a.toNat + b.toNat * 2 ^ 8 + c.toNat * 2 ^ 16 < 2 ^ 24 := by omega
    rw [hvalue, hshift hb (by decide), hshift hc (by decide), hshift hd (by decide),
      hor b.toNat ha, hor c.toNat hab, hor d.toNat habc]
    simp only [LittleEndian.decode_cons, LittleEndian.decode_nil]
    omega

/-- Only the first four bytes matter. -/
theorem decodeLEU32_take (p : Bytes) : decodeLEU32 (p.take 4) = decodeLEU32 p := by
  simp [decodeLEU32, List.getD_eq_getElem?_getD]

theorem encode_decodeLEU32 {p : Bytes} (h : p.length = 4) :
    LittleEndian.encode 4 (decodeLEU32 p).toNat = p := by
  rw [toNat_decodeLEU32 h, ← h, LittleEndian.encode_decode]

-- ═══════════════════════════════════════════════════════════════════════════
-- One round of the loop
-- ═══════════════════════════════════════════════════════════════════════════

/-- What may stand in a frame. -/
def FrameBody (body : Bytes) : Prop := kFrameMinBytes ≤ body.length ∧ body.length < 2 ^ 32

instance (body : Bytes) : Decidable (FrameBody body) := inferInstanceAs (Decidable (_ ∧ _))

variable {input body rest : Bytes} {bodies : List Bytes}

/-- A frame is read back, and nothing of what follows it. -/
theorem readFrame_frame (h : FrameBody body) (rest : Bytes) :
    readFrame (frame body ++ rest) = .ok (some (body, rest)) := by
  have hlen : (LittleEndian.encode 4 body.length).length = 4 := LittleEndian.length_encode _ _
  have hflen : (decodeLEU32 (LittleEndian.encode 4 body.length)).toNat = body.length := by
    rw [toNat_decodeLEU32 hlen, LittleEndian.decode_encode (by exact h.2)]
  have hmin := h.1
  rw [readFrame, frame, List.append_assoc, List.take_left' hlen, List.drop_left' hlen, hlen, hflen]
  simp [Nat.not_lt.mpr hmin]

/-- What a round reads is a frame. -/
theorem eq_frame_of_readFrame (h : readFrame input = .ok (some (body, rest))) :
    FrameBody body ∧ input = frame body ++ rest := by
  simp only [readFrame] at h
  split at h
  · cases h
  · split at h
    · cases h
    · next hfour =>
      split at h
      · cases h
      · next hmin =>
        split at h
        · cases h
        · next hlen =>
          cases h
          have hfour : (input.take 4).length = 4 := not_not.mp hfour
          have hlen := not_not.mp hlen
          rw [FrameBody, frame, hlen]
          have hlt := (decodeLEU32 (input.take 4)).toNat_lt
          refine ⟨⟨Nat.le_of_not_lt hmin, hlt⟩, ?_⟩
          rw [encode_decodeLEU32 hfour, List.append_assoc, List.take_append_drop,
            List.take_append_drop]

/-- The loop ends where the stream does. -/
theorem readFrame_eq_none_iff : readFrame input = .ok none ↔ input = [] := by
  constructor
  · intro h
    simp only [readFrame] at h
    split at h
    · next hnil =>
      rw [List.length_take] at hnil
      exact List.eq_nil_of_length_eq_zero (by omega)
    · split at h
      · cases h
      · split at h
        · cases h
        · split at h <;> cases h
  · rintro rfl
    rfl

-- ═══════════════════════════════════════════════════════════════════════════
-- The loop
-- ═══════════════════════════════════════════════════════════════════════════

/-- The bodies of the frames the loop comes across, and how it ends if all of them
can be decoded. -/
def splitFrames (input : Bytes) : List Bytes × Except String Unit :=
  match _h : readFrame input with
  | .error what => ([], .error what)
  | .ok none => ([], .ok ())
  | .ok (some (body, rest)) => (body :: (splitFrames rest).1, (splitFrames rest).2)
termination_by input.length
decreasing_by all_goals exact length_lt_of_readFrame _h

theorem splitFrames_nil : splitFrames [] = ([], .ok ()) := by
  rw [splitFrames]
  rfl

/-- Frames at the front of a stream are split off. -/
theorem splitFrames_append (h : ∀ b ∈ bodies, FrameBody b) (rest : Bytes) :
    splitFrames (frames bodies ++ rest) =
      (bodies ++ (splitFrames rest).1, (splitFrames rest).2) := by
  induction bodies with
  | nil => rfl
  | cons body bodies ih =>
    have hbody := h body List.mem_cons_self
    have hrest := ih fun b hb => h b (List.mem_cons_of_mem body hb)
    have hframes : frames (body :: bodies) ++ rest = frame body ++ (frames bodies ++ rest) := by
      rw [frames, List.flatMap_cons, List.append_assoc, frames]
    rw [hframes, splitFrames, readFrame_frame hbody]
    simp [hrest]

theorem splitFrames_frames (h : ∀ b ∈ bodies, FrameBody b) :
    splitFrames (frames bodies) = (bodies, .ok ()) := by
  have happend := splitFrames_append h []
  rwa [List.append_nil, splitFrames_nil, List.append_nil] at happend

/-- A stream is the frames the loop comes across and what it ends at. -/
theorem splitFrames_spec (input : Bytes) : (∀ b ∈ (splitFrames input).1, FrameBody b) ∧
    ∃ rest, input = frames (splitFrames input).1 ++ rest ∧
      ((splitFrames input).2 = .ok () ↔ rest = []) := by
  fun_induction splitFrames input with
  | case1 input what h =>
    have hne : input ≠ [] := by
      rintro rfl
      cases h
    exact ⟨by simp, input, rfl, by simp [hne]⟩
  | case2 input h => exact ⟨by simp, [], by simp [frames, readFrame_eq_none_iff.mp h], by simp⟩
  | case3 input body rest h ih =>
    obtain ⟨hbody, rfl⟩ := eq_frame_of_readFrame h
    obtain ⟨hbodies, tail, hrest, hend⟩ := ih
    refine ⟨by simpa [hbody] using hbodies, tail, ?_, hend⟩
    rw [frames, List.flatMap_cons, List.append_assoc, ← frames, ← hrest]

variable {ρ : Type} {decode : Bytes → Option (Except String ρ)} {records decoded : List ρ}

theorem readFrames_of_error {what : String} (h : readFrame input = .error what) :
    readFrames decode input records = some (.error what) := by
  rw [readFrames]
  split <;> simp_all

theorem readFrames_of_end (h : readFrame input = .ok none) :
    readFrames decode input records = some (.ok records) := by
  rw [readFrames]
  split <;> simp_all

theorem readFrames_of_frame (h : readFrame input = .ok (some (body, rest))) {record : ρ}
    (hdecode : decode body = some (.ok record)) :
    readFrames decode input records = readFrames decode rest (records ++ [record]) := by
  rw [readFrames]
  split <;> simp_all

/-- The loop decodes the frames it comes across, one by one. -/
theorem readFrames_eq
    (h : List.Forall₂ (fun b r => decode b = some (.ok r)) (splitFrames input).1 decoded) :
    readFrames decode input records =
      some ((splitFrames input).2.map fun _ => records ++ decoded) := by
  fun_induction splitFrames input generalizing records decoded with
  | case1 input what hread =>
    cases h
    exact readFrames_of_error hread
  | case2 input hread =>
    cases h
    rw [readFrames_of_end hread, List.append_nil]
    rfl
  | case3 input body rest hread ih =>
    obtain ⟨record, others, hbody, hothers, rfl⟩ := List.forall₂_cons_left_iff.mp h
    rw [readFrames_of_frame hread hbody, ih hothers, List.append_assoc, List.singleton_append]

end LoggerHigh
