import LoggerHigh.Basic
import LoggerHigh.Lib.LittleEndian
import Mathlib.Data.Vector.Basic

/-!
# AesGcmCipher

`crypt/aes_gcm_cipher.cpp`. Crypto++'s `GCM<AES>` is the parameter `Gcm`; the
nonce construction, the output layout and the error paths are the source's own.

## Main definitions

- `Gcm` — authenticated encryption with a 16-byte tag, as Crypto++ supplies it
- `AesGcmCipher.buildNonce`, `AesGcmCipher.encrypt`, `AesGcmCipher.decrypt`

## Main results

- `nonceBytes_injective` — different counter values give different nonces
- `AesGcmCipher.decrypt_of_encrypt` — a cipher with the same key opens what
  `encrypt` produced
-/

namespace LoggerHigh

/-- Crypto++'s AES-256-GCM with a 16-byte tag. `sealBody` returns ciphertext and tag
in one string, or the `what()` of a `CryptoPP::Exception`; `openBody` takes that
string back, or reports why it does not. -/
structure Gcm where
  sealBody : (key nonce plaintext : Bytes) → Except String Bytes
  openBody : (key nonce body : Bytes) → Except String Bytes
  /-- the ciphertext is as long as the plaintext, the tag has 16 bytes -/
  length_sealBody : ∀ {key nonce plaintext body : Bytes},
    sealBody key nonce plaintext = .ok body → body.length = plaintext.length + 16
  /-- decryption inverts encryption under the same key and nonce -/
  openBody_sealBody : ∀ {key nonce plaintext body : Bytes},
    sealBody key nonce plaintext = .ok body → openBody key nonce body = .ok plaintext

/-- `std::numeric_limits<std::uint32_t>::max()`. -/
def counterMax : ℕ := 2 ^ 32 - 1

def kKeyBytes : ℕ := 32

def kNonceBytes : ℕ := 12

def kTagBytes : ℕ := 16

/-- What `counter_.fetch_add(1)` leaves in the `uint32_t` counter. -/
def fetchAddCounter (c : ℕ) : ℕ := (c + 1) % 2 ^ 32

/-- The nonce for counter value `c`: the random prefix, then `c` big-endian. -/
def nonceBytes (noncePrefix : Vector UInt8 8) (c : ℕ) : Bytes :=
  noncePrefix.toList ++
    [UInt8.ofNat (c >>> 24), UInt8.ofNat (c >>> 16), UInt8.ofNat (c >>> 8), UInt8.ofNat c]

/-- `BuildNonce_` once `fetch_add` has returned `c`. -/
def nonceOf (noncePrefix : Vector UInt8 8) (c : ℕ) : Except String Bytes :=
  if c = counterMax then .error "AesGcmCipher: nonce counter exhausted"
  else .ok (nonceBytes noncePrefix c)

theorem nonceOf_counterMax (noncePrefix : Vector UInt8 8) :
    nonceOf noncePrefix counterMax = .error "AesGcmCipher: nonce counter exhausted" := by
  rw [nonceOf, if_pos rfl]

theorem nonceOf_of_ne (noncePrefix : Vector UInt8 8) {c : ℕ} (h : c ≠ counterMax) :
    nonceOf noncePrefix c = .ok (nonceBytes noncePrefix c) := by
  rw [nonceOf, if_neg h]

@[simp] theorem length_nonceBytes (noncePrefix : Vector UInt8 8) (c : ℕ) :
    (nonceBytes noncePrefix c).length = kNonceBytes := by
  rw [nonceBytes, List.length_append, Vector.length_toList]
  rfl

/-- The four counter bytes determine the 32-bit counter. -/
private theorem counter_bytes_injective {c c' : ℕ} (h : c < 2 ^ 32) (h' : c' < 2 ^ 32)
    (h24 : UInt8.ofNat (c >>> 24) = UInt8.ofNat (c' >>> 24))
    (h16 : UInt8.ofNat (c >>> 16) = UInt8.ofNat (c' >>> 16))
    (h8 : UInt8.ofNat (c >>> 8) = UInt8.ofNat (c' >>> 8))
    (h0 : UInt8.ofNat c = UInt8.ofNat c') : c = c' := by
  have low : ∀ {a b : ℕ}, UInt8.ofNat a = UInt8.ofNat b → a % 256 = b % 256 := by
    intro a b hab
    have := congrArg UInt8.toNat hab
    rwa [UInt8.toNat_ofNat', UInt8.toNat_ofNat'] at this
  have h24 := low h24
  have h16 := low h16
  have h8 := low h8
  have h0 := low h0
  simp only [Nat.shiftRight_eq_div_pow] at h24 h16 h8
  omega

/-- Different 32-bit counter values give different nonces. -/
theorem nonceBytes_injective (noncePrefix : Vector UInt8 8) {c c' : ℕ}
    (h : c < 2 ^ 32) (h' : c' < 2 ^ 32)
    (heq : nonceBytes noncePrefix c = nonceBytes noncePrefix c') : c = c' := by
  have htail := List.append_cancel_left heq
  simp only [List.cons.injEq, and_true] at htail
  obtain ⟨h24, h16, h8, h0⟩ := htail
  exact counter_bytes_injective h h' h24 h16 h8 h0

/-- `crypt::AesGcmCipher`. -/
structure AesGcmCipher where
  key : Bytes
  noncePrefix : Vector UInt8 8
  counter : ℕ

namespace AesGcmCipher

/-- `BuildNonce_`: the counter advances also on the call that throws. -/
def buildNonce (self : AesGcmCipher) : Except String Bytes × AesGcmCipher :=
  (nonceOf self.noncePrefix self.counter,
    { self with counter := fetchAddCounter self.counter })

/-- `Encrypt`: appends `[12B nonce][ciphertext][16B tag]` to `out`. -/
def encrypt (gcm : Gcm) (self : AesGcmCipher) (plaintext out : Bytes) :
    Except String Bytes × AesGcmCipher :=
  let (built, self') := self.buildNonce
  match built with
  | .error what => (.error what, self')
  | .ok nonce =>
    match gcm.sealBody self.key nonce plaintext with
    | .ok body => (.ok (out ++ nonce ++ body), self')
    | .error what => (.error ("AesGcmCipher::Encrypt: " ++ what), self')

/-- `Decrypt`: appends the plaintext to `out`. -/
def decrypt (gcm : Gcm) (key ciphertext out : Bytes) : Except String Bytes :=
  if ciphertext.length < kNonceBytes + kTagBytes then
    .error "AesGcmCipher::Decrypt: input too short"
  else
    match gcm.openBody key (ciphertext.take kNonceBytes) (ciphertext.drop kNonceBytes) with
    | .ok plaintext => .ok (out ++ plaintext)
    | .error what => .error ("AesGcmCipher::Decrypt: " ++ what)

/-- What a successful `encrypt` produced, and the counter value it drew. -/
theorem encrypt_ok {gcm : Gcm} {self self' : AesGcmCipher} {plaintext out out' : Bytes}
    (h : self.encrypt gcm plaintext out = (.ok out', self')) :
    self.counter ≠ counterMax ∧ ∃ body,
      gcm.sealBody self.key (nonceBytes self.noncePrefix self.counter) plaintext = .ok body ∧
      out' = out ++ nonceBytes self.noncePrefix self.counter ++ body ∧
      self' = { self with counter := fetchAddCounter self.counter } := by
  simp only [encrypt, buildNonce] at h
  by_cases hmax : self.counter = counterMax
  · rw [hmax, nonceOf_counterMax] at h
    simp at h
  · rw [nonceOf_of_ne _ hmax] at h
    simp only at h
    refine ⟨hmax, ?_⟩
    cases hseal : gcm.sealBody self.key (nonceBytes self.noncePrefix self.counter) plaintext with
    | error what =>
      rw [hseal] at h
      simp at h
    | ok body =>
      rw [hseal] at h
      simp only [Prod.mk.injEq, Except.ok.injEq] at h
      exact ⟨body, rfl, h.1.symm, h.2.symm⟩

/-- Every call of `encrypt` advances the counter by one, whatever its outcome. -/
theorem encrypt_snd (gcm : Gcm) (self : AesGcmCipher) (plaintext out : Bytes) :
    (self.encrypt gcm plaintext out).2 =
      { self with counter := fetchAddCounter self.counter } := by
  simp only [encrypt, buildNonce]
  split
  · rfl
  · split <;> rfl

/-- A cipher with the same key opens what `encrypt` produced. -/
theorem decrypt_of_encrypt {gcm : Gcm} {self self' : AesGcmCipher}
    {plaintext sealed : Bytes} (h : self.encrypt gcm plaintext [] = (.ok sealed, self'))
    (out : Bytes) :
    decrypt gcm self.key sealed out = .ok (out ++ plaintext) ∧
      kNonceBytes + kTagBytes ≤ sealed.length := by
  obtain ⟨-, body, hseal, rfl, -⟩ := encrypt_ok h
  have hnonce : (nonceBytes self.noncePrefix self.counter).length = kNonceBytes :=
    length_nonceBytes _ _
  have hlen : kNonceBytes + kTagBytes ≤
      ([] ++ nonceBytes self.noncePrefix self.counter ++ body).length := by
    rw [List.nil_append, List.length_append, hnonce, gcm.length_sealBody hseal]
    simp only [kTagBytes]
    omega
  refine ⟨?_, hlen⟩
  rw [decrypt, if_neg (by omega), List.nil_append, List.take_left' hnonce,
    List.drop_left' hnonce, gcm.openBody_sealBody hseal]

end AesGcmCipher

end LoggerHigh
