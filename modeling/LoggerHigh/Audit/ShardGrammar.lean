import LoggerHigh.Audit.ShardReader
import LoggerHigh.Compress.DecompressLoop

/-!
# What the reader accepts

A shard is a header followed by length-prefixed frames. Provided that the key can
be derived and every frame the loop comes across can be decoded, reading a byte
string succeeds exactly for shards; there is one way to see a byte string as a
shard, and what a truncated shard yields is a prefix of its records.

## Main definitions

- `IsShard` — the grammar
- `handed` — what the loop hands to `Decrypt`

## Main results

- `readShardHeader_eq_ok_iff` — what `ReadShardHeader` accepts
- `isShard_iff` — the grammar in terms of the reader
- `shard_grammar` — acceptance, unique readability and truncation
-/

namespace LoggerHigh

open LengthPrefix

/-- The header of a shard with these bytes after the magic and the algorithm. -/
def headerText (pub reserved : Bytes) : Bytes :=
  kMagic ++ LittleEndian.encode 4 kAlgoId ++ pub ++ reserved

/-- `s` is a header and the frames of `bodies`. -/
def IsShard (s : Bytes) (bodies : List Bytes) : Prop :=
  ∃ pub reserved, pub.length = kClientEphPubBytes ∧ reserved.length = 4 ∧
    (∀ b ∈ bodies, FrameBody b) ∧ s = headerText pub reserved ++ frames bodies

/-- The bodies the loop hands to `Decrypt`, in this order, as long as they can be
decoded. -/
def handed (s : Bytes) : List Bytes :=
  match readShardHeader s with
  | .error _ => []
  | .ok (_, rest) => (splitFrames rest).1

section Header

variable {s pub reserved rest : Bytes} {hdr : ShardHeader} {bodies : List Bytes}

theorem length_headerText (hpub : pub.length = kClientEphPubBytes)
    (hreserved : reserved.length = 4) :
    (headerText pub reserved).length = kHeaderBytes := by
  simp only [headerText, List.length_append, LittleEndian.length_encode, hpub, hreserved]
  rfl

/-- A header is read back, and nothing of what follows it. -/
theorem readShardHeader_headerText (hpub : pub.length = kClientEphPubBytes)
    (hreserved : reserved.length = 4) (rest : Bytes) :
    readShardHeader (headerText pub reserved ++ rest) = .ok (⟨1, pub⟩, rest) := by
  have hlen := length_headerText hpub hreserved
  have halgo : decodeLEU32 (LittleEndian.encode 4 kAlgoId ++ (pub ++ reserved)) = 1 := by
    rw [← decodeLEU32_take, List.take_left' (LittleEndian.length_encode _ _)]
    decide
  have hmagic : (headerText pub reserved).take 8 = kMagic := by
    rw [headerText, List.append_assoc, List.append_assoc]
    exact List.take_left' rfl
  have hdrop : (headerText pub reserved).drop 8 =
      LittleEndian.encode 4 kAlgoId ++ (pub ++ reserved) := by
    rw [headerText, List.append_assoc, List.append_assoc]
    exact List.drop_left' rfl
  have hkey : ((headerText pub reserved).drop 12).take kClientEphPubBytes = pub := by
    rw [headerText, List.append_assoc, List.drop_left' (by rfl), List.take_left' hpub]
  rw [readShardHeader, List.take_left' hlen, List.drop_left' hlen, hlen, hmagic, hdrop, halgo, hkey]
  simp [kAlgoId]

/-- Forty-eight bytes with the magic and the algorithm in place are a header. -/
theorem headerText_of_fields {h : Bytes} (hlen : h.length = kHeaderBytes)
    (hmagic : h.take 8 = kMagic) (halgo : (decodeLEU32 (h.drop 8)).toNat = kAlgoId) :
    ((h.drop 12).take kClientEphPubBytes).length = kClientEphPubBytes ∧
      (h.drop 44).length = 4 ∧
      h = headerText ((h.drop 12).take kClientEphPubBytes) (h.drop 44) := by
  have hfour : ((h.drop 8).take 4).length = 4 := by
    rw [List.length_take, List.length_drop, hlen]
    rfl
  have hencoded : (h.drop 8).take 4 = LittleEndian.encode 4 kAlgoId := by
    rw [← halgo, ← decodeLEU32_take, encode_decodeLEU32 hfour]
  refine ⟨?pub, ?reserved, ?split⟩
  case pub =>
    rw [List.length_take, List.length_drop, hlen]
    rfl
  case reserved => rw [List.length_drop, hlen, kHeaderBytes]
  case split =>
    calc h = h.take 8 ++ ((h.drop 8).take 4 ++ ((h.drop 12).take 32 ++ h.drop 44)) := by
          rw [show h.drop 44 = (h.drop 12).drop 32 by rw [List.drop_drop],
            List.take_append_drop, show h.drop 12 = (h.drop 8).drop 4 by rw [List.drop_drop],
            List.take_append_drop, List.take_append_drop]
      _ = headerText ((h.drop 12).take kClientEphPubBytes) (h.drop 44) := by
          rw [hmagic, hencoded, headerText, kClientEphPubBytes, List.append_assoc,
            List.append_assoc]

/-- What `ReadShardHeader` accepts is a header. -/
theorem readShardHeader_eq_ok_iff : readShardHeader s = .ok (hdr, rest) ↔
    ∃ pub reserved, pub.length = kClientEphPubBytes ∧ reserved.length = 4 ∧
      s = headerText pub reserved ++ rest ∧ hdr = ⟨1, pub⟩ := by
  constructor
  · intro h
    simp only [readShardHeader] at h
    split at h
    · cases h
    · next hshort =>
      split at h
      · cases h
      · next hmagic =>
        split at h
        · cases h
        · next halgo =>
          cases h
          have hlen : (s.take kHeaderBytes).length = kHeaderBytes := not_not.mp hshort
          obtain ⟨hpub, hreserved, hsplit⟩ := headerText_of_fields hlen (not_not.mp hmagic)
            (not_not.mp halgo)
          refine ⟨_, _, hpub, hreserved, ?_, ?_⟩
          · rw [← hsplit, List.take_append_drop]
          · rw [UInt32.toNat_inj.mp (not_not.mp halgo : _ = (1 : UInt32).toNat)]
  · rintro ⟨pub, reserved, hpub, hreserved, rfl, rfl⟩
    exact readShardHeader_headerText hpub hreserved rest

-- ═══════════════════════════════════════════════════════════════════════════
-- Shards
-- ═══════════════════════════════════════════════════════════════════════════

/-- A string is a shard when its header is accepted and the frame loop comes to
its end; it is the shard of the bodies that are handed on. -/
theorem isShard_iff : IsShard s bodies ↔
    bodies = handed s ∧ ∃ hdr rest, readShardHeader s = .ok (hdr, rest) ∧
      (splitFrames rest).2 = .ok () := by
  constructor
  · rintro ⟨pub, reserved, hpub, hreserved, hbodies, rfl⟩
    have hread := readShardHeader_headerText hpub hreserved (frames bodies)
    have hsplit := splitFrames_frames hbodies
    simp [handed, hread, hsplit]
  · rintro ⟨rfl, hdr, rest, hread, hend⟩
    obtain ⟨pub, reserved, hpub, hreserved, rfl, -⟩ := readShardHeader_eq_ok_iff.mp hread
    obtain ⟨hbodies, tail, hrest, hnil⟩ := splitFrames_spec rest
    rw [hnil.mp hend, List.append_nil] at hrest
    rw [handed, hread]
    exact ⟨pub, reserved, hpub, hreserved, hbodies, by rw [← hrest]⟩

/-- What is handed on from a part of a stream is the beginning of what is handed
on from the whole. -/
theorem splitFrames_take_prefix (rest : Bytes) (n : ℕ) :
    (splitFrames (rest.take n)).1 <+: (splitFrames rest).1 := by
  obtain ⟨hbodies, tail, htake, -⟩ := splitFrames_spec (rest.take n)
  have hrest : rest = frames (splitFrames (rest.take n)).1 ++ (tail ++ rest.drop n) := by
    rw [← List.append_assoc, ← htake, List.take_append_drop]
  have hsplit := congrArg Prod.fst (splitFrames_append hbodies (tail ++ rest.drop n))
  rw [← hrest] at hsplit
  exact ⟨_, hsplit.symm⟩

/-- A truncated shard has lost its header, or is one with less behind it. -/
theorem readShardHeader_take (h : readShardHeader s = .ok (hdr, rest)) (n : ℕ) :
    (∃ what, readShardHeader (s.take n) = .error what) ∨
      readShardHeader (s.take n) = .ok (hdr, rest.take (n - kHeaderBytes)) := by
  obtain ⟨pub, reserved, hpub, hreserved, rfl, rfl⟩ := readShardHeader_eq_ok_iff.mp h
  have hlen := length_headerText hpub hreserved
  by_cases hn : n < kHeaderBytes
  · left
    refine ⟨"audit: short shard header (file truncated?)", ?_⟩
    rw [readShardHeader, if_pos]
    rw [List.length_take, List.length_take]
    omega
  · right
    have htake : (headerText pub reserved ++ rest).take n =
        headerText pub reserved ++ rest.take (n - kHeaderBytes) := by
      rw [List.take_append, hlen, List.take_of_length_le (by omega)]
    rw [htake]
    exact readShardHeader_headerText hpub hreserved _

end Header

section Reading

variable {ρ : Type} {deps : AuditDeps ρ} {path : String} {priv key s : Bytes} {fuel : ℕ}
  {bodies : List Bytes} {records : List ρ}

/-- The key derivation succeeds with `key`, if the header is accepted. -/
def KeyDerived (deps : AuditDeps ρ) (priv key s : Bytes) : Prop :=
  ∀ hdr rest, readShardHeader s = .ok (hdr, rest) →
    deriveAesKey deps priv hdr.clientEphPub = .ok key

/-- The body decrypts, inflates and parses. -/
def Decodes (deps : AuditDeps ρ) (key : Bytes) (fuel : ℕ) (body : Bytes) (record : ρ) : Prop :=
  decodeFrame deps key fuel body = some (.ok record)

/-- A derived key has the size a cipher needs. -/
theorem length_of_deriveAesKey {pub : Bytes} (h : deriveAesKey deps priv pub = .ok key) :
    key.length = kKeyBytes := by
  rw [deriveAesKey] at h
  split at h
  · cases h
  · split at h
    · cases h
    · split at h
      · cases h
      · exact deps.length_hkdfSha256 h

theorem decodeShardFile_of_error {what : String} (h : readShardHeader s = .error what) :
    decodeShardFile deps path (some s) priv fuel = some (.error what) := by
  simp only [decodeShardFile, h]

/-- Behind an accepted header the outcome is that of the frames. -/
theorem decodeShardFile_eq {hdr : ShardHeader} {rest : Bytes} (hkey : KeyDerived deps priv key s)
    (hread : readShardHeader s = .ok (hdr, rest))
    (h : List.Forall₂ (Decodes deps key fuel) (handed s) records) :
    decodeShardFile deps path (some s) priv fuel =
      some ((splitFrames rest).2.map fun _ => records) := by
  have hderived := hkey hdr rest hread
  simp only [handed, hread] at h
  simp only [decodeShardFile, hread, hderived, length_of_deriveAesKey hderived, ne_eq,
    not_true_eq_false, if_false]
  rw [readFrames_eq h]
  simp

/-- All bodies that are handed on decode, to one record each. -/
theorem exists_records (h : ∀ b ∈ bodies, ∃ record, Decodes deps key fuel b record) :
    ∃ records, List.Forall₂ (Decodes deps key fuel) bodies records := by
  induction bodies with
  | nil => exact ⟨[], .nil⟩
  | cons b bodies ih =>
    obtain ⟨record, hrecord⟩ := h b List.mem_cons_self
    obtain ⟨records, hrecords⟩ := ih fun b' hb' => h b' (List.mem_cons_of_mem b hb')
    exact ⟨record :: records, .cons hrecord hrecords⟩

/-- Reading succeeds exactly for shards, and decodes what is handed on. -/
theorem decodeShardFile_eq_ok_iff (hkey : KeyDerived deps priv key s)
    (h : List.Forall₂ (Decodes deps key fuel) (handed s) records) {result : List ρ} :
    decodeShardFile deps path (some s) priv fuel = some (.ok result) ↔
      IsShard s (handed s) ∧ result = records := by
  rw [isShard_iff]
  cases hread : readShardHeader s with
  | error what => simp [decodeShardFile_of_error hread]
  | ok found =>
    obtain ⟨hdr, rest⟩ := found
    rw [decodeShardFile_eq hkey hread h]
    cases hend : (splitFrames rest).2 with
    | error what => simp [Except.map, hend]
    | ok _ => simp [Except.map, hend, eq_comm]

/-- Reading a truncated shard throws, or ends between two frames of the shard with
the records before. -/
theorem decodeShardFile_take (hkey : KeyDerived deps priv key s)
    (h : List.Forall₂ (Decodes deps key fuel) (handed s) records) (hshard : IsShard s bodies)
    (n : ℕ) :
    (∃ what, decodeShardFile deps path (some (s.take n)) priv fuel = some (.error what)) ∨
      ∃ k, IsShard (s.take n) (bodies.take k) ∧
        decodeShardFile deps path (some (s.take n)) priv fuel = some (.ok (records.take k)) := by
  obtain ⟨rfl, hdr, rest, hread, -⟩ := isShard_iff.mp hshard
  rcases readShardHeader_take hread n with ⟨what, herror⟩ | hcut
  · exact .inl ⟨what, decodeShardFile_of_error herror⟩
  · have hprefix : handed (s.take n) <+: handed s := by
      simp only [handed, hread, hcut]
      exact splitFrames_take_prefix rest _
    have hbodies := List.prefix_iff_eq_take.mp hprefix
    have hdecodes : List.Forall₂ (Decodes deps key fuel) (handed (s.take n))
        (records.take (handed (s.take n)).length) := by
      conv_lhs => rw [hbodies]
      exact List.forall₂_take _ h
    have hderived : KeyDerived deps priv key (s.take n) := by
      intro hdr' rest' hread'
      rw [hcut] at hread'
      cases hread'
      exact hkey hdr rest hread
    have hresult : decodeShardFile deps path (some (s.take n)) priv fuel = _ :=
      decodeShardFile_eq hderived hcut hdecodes
    cases hend : (splitFrames (rest.take (n - kHeaderBytes))).2 with
    | error what =>
      rw [hend] at hresult
      exact .inl ⟨what, hresult⟩
    | ok _ =>
      rw [hend] at hresult
      refine .inr ⟨(handed (s.take n)).length, ?_, hresult⟩
      rw [← hbodies]
      exact isShard_iff.mpr ⟨rfl, hdr, _, hcut, hend⟩

end Reading

/-- Let the key derivation succeed and every body that is handed on decrypt,
inflate and parse. Then reading `s` succeeds exactly when `s` is a shard; its
bodies are determined by `s`, are those handed to `Decrypt`, in order, and become
the records one by one; and every truncation of a shard either throws or ends
between two frames, with the records up to there. -/
theorem shard_grammar {ρ : Type} (deps : AuditDeps ρ) (path : String) (priv key s : Bytes)
    (fuel : ℕ) (hkey : KeyDerived deps priv key s)
    (hdecodes : ∀ b ∈ handed s, ∃ record, Decodes deps key fuel b record) :
    ((∃ records, decodeShardFile deps path (some s) priv fuel = some (.ok records)) ↔
      ∃ bodies, IsShard s bodies) ∧
    (∀ bodies, IsShard s bodies →
      bodies = handed s ∧ (∀ bodies', IsShard s bodies' → bodies' = bodies) ∧
      ∃ records, decodeShardFile deps path (some s) priv fuel = some (.ok records) ∧
        List.Forall₂ (Decodes deps key fuel) bodies records ∧
        ∀ n, (∃ what,
            decodeShardFile deps path (some (s.take n)) priv fuel = some (.error what)) ∨
          ∃ k, IsShard (s.take n) (bodies.take k) ∧
            decodeShardFile deps path (some (s.take n)) priv fuel =
              some (.ok (records.take k))) := by
  obtain ⟨records, hrecords⟩ := exists_records hdecodes
  have hiff := @decodeShardFile_eq_ok_iff _ deps path priv key s fuel records hkey hrecords
  have hunique : ∀ bodies, IsShard s bodies → bodies = handed s := fun bodies h =>
    (isShard_iff.mp h).1
  refine ⟨⟨?_, ?_⟩, fun bodies h => ?_⟩
  · rintro ⟨result, hresult⟩
    exact ⟨handed s, (hiff.mp hresult).1⟩
  · rintro ⟨bodies, h⟩
    exact ⟨records, hiff.mpr ⟨hunique bodies h ▸ h, rfl⟩⟩
  · obtain rfl := hunique bodies h
    exact ⟨rfl, hunique, records, hiff.mpr ⟨h, rfl⟩, hrecords, decodeShardFile_take hkey hrecords h⟩

-- ═══════════════════════════════════════════════════════════════════════════
-- A shard with two frames
-- ═══════════════════════════════════════════════════════════════════════════

/-- Libraries that leave everything as it is: a tag of zeros, a shared key of
zeros, the stream format without compression, records of bytes. -/
def plainDeps : AuditDeps Bytes where
  agree _ _ := some (List.replicate 32 0)
  hkdfSha256 _ _ _ outLen := .ok (List.replicate outLen 0)
  gcm :=
    { sealBody := fun _ _ plaintext => .ok (plaintext ++ List.replicate 16 0)
      openBody := fun _ _ body => .ok (body.take (body.length - 16))
      length_sealBody := by
        rintro key nonce plaintext _ ⟨⟩
        simp
      openBody_sealBody := by
        rintro key nonce plaintext _ ⟨⟩
        simp }
  engine := plainEngine
  alloc _ := true
  parseFromString := some
  length_hkdfSha256 := by
    rintro secret salt info _ outLen ⟨⟩
    exact List.length_replicate

/-- Nonces, the streams of one byte and of two, tags. -/
def plainBodies : List Bytes :=
  [List.replicate 12 9 ++ [7, 0] ++ List.replicate 16 0,
    List.replicate 12 8 ++ [5, 6, 0] ++ List.replicate 16 0]

def plainShard : Bytes :=
  headerText (List.replicate 32 3) (List.replicate 4 0) ++ frames plainBodies

theorem shard_grammar_plainShard : ∃ records,
    decodeShardFile plainDeps "log-.bin" (some plainShard) (List.replicate 32 1) 9 =
      some (.ok records) ∧
    ∀ n, (∃ what, decodeShardFile plainDeps "log-.bin" (some (plainShard.take n))
        (List.replicate 32 1) 9 = some (.error what)) ∨
      ∃ k, IsShard (plainShard.take n) (plainBodies.take k) ∧
        decodeShardFile plainDeps "log-.bin" (some (plainShard.take n)) (List.replicate 32 1) 9 =
          some (.ok (records.take k)) := by
  have hshard : IsShard plainShard plainBodies :=
    ⟨List.replicate 32 3, List.replicate 4 0, rfl, rfl, by decide, rfl⟩
  have hkey : KeyDerived plainDeps (List.replicate 32 1) (List.replicate 32 0) plainShard := by
    intro hdr rest hread
    have hpub := readShardHeader_headerText (List.length_replicate (n := 32) (a := 3))
      (List.length_replicate (n := 4) (a := 0)) (frames plainBodies)
    cases hread.symm.trans hpub
    rfl
  have hdecodes : ∀ b ∈ handed plainShard,
      ∃ record, Decodes plainDeps (List.replicate 32 0) 9 b record := by
    rw [← (isShard_iff.mp hshard).1]
    refine List.forall_mem_cons.mpr ⟨⟨[7], ?first⟩, List.forall_mem_singleton.mpr ⟨[5, 6], ?second⟩⟩
    all_goals
      rw [Decodes]
      decide +kernel
  obtain ⟨-, -, records, hrecords, -, htake⟩ := (shard_grammar plainDeps "log-.bin"
    (List.replicate 32 1) (List.replicate 32 0) plainShard 9 hkey hdecodes).2 _ hshard
  exact ⟨records, hrecords, htake⟩

end LoggerHigh
