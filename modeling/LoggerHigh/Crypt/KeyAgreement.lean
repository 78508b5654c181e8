import LoggerHigh.Audit.ShardReader

/-!
# The keys of both ends

`crypt/server_key_loader.cpp`, `crypt/x25519_agreement.cpp` and
`crypt/kdf.cpp`. Crypto++'s X25519 is the parameter `X25519`.

## Main definitions

- `X25519` — key pairs and agreement
- `loadServerPublicKey` — the file of the public key
- `deriveSharedSecret` — the end that writes the shards

## Main results

- `deriveAesKey_of_deriveSharedSecret` — the reader derives the writer's key
-/

namespace LoggerHigh

/-- Crypto++'s `x25519`: the public key of a private key, and `Agree`, which
validates the other public key. -/
structure X25519 where
  generatePublicKey : (privateKey : Bytes) → Bytes
  agree : (privateKey otherPublicKey : Bytes) → Option Bytes
  length_generatePublicKey : ∀ privateKey, (generatePublicKey privateKey).length = 32
  /-- both ends arrive at the same secret -/
  agree_comm : ∀ a b, agree a (generatePublicKey b) = agree b (generatePublicKey a)

/-- `kServerPublicKeyBytes` -/
def kServerPublicKeyBytes : ℕ := 32

/-- What the file system answers about the file of the server's public key:
whether it exists, its size, and what it holds when it is opened. -/
structure KeyFile where
  found : Bool
  size : Option ℕ
  content : Option Bytes

/-- `LoadServerPublicKey` -/
def loadServerPublicKey (path : String) (file : KeyFile) : Except String Bytes :=
  if file.found = false then .error ("server public key file does not exist: " ++ path)
  else
    match file.size with
    | none => .error ("failed to stat server public key file: " ++ path)
    | some size =>
      if size ≠ kServerPublicKeyBytes then
        .error ("server public key size mismatch (expect 32 raw bytes), got " ++ toString size ++
          " at " ++ path)
      else
        match file.content with
        | none => .error ("failed to open server public key file: " ++ path)
        | some content =>
          let out := content.take kServerPublicKeyBytes
          if out.length ≠ kServerPublicKeyBytes then
            .error ("short read on server public key file: " ++ path)
          else .ok out

/-- `DeriveSharedSecret` with the private key the generator has drawn: the public
key to publish, and the secret. -/
def deriveSharedSecret (x25519 : X25519) (ephPriv peerPublic : Bytes) :
    Except String (Bytes × Bytes) :=
  if peerPublic.length ≠ 32 then .error "X25519KeyAgreement: peer_public must be 32 bytes"
  else
    match x25519.agree ephPriv peerPublic with
    | none => .error "X25519KeyAgreement: Agree() failed"
    | some shared => .ok (x25519.generatePublicKey ephPriv, shared)

/-- The reader, with the private key of the server and the public key from a
header, derives the key that the writer derived from the public key of the
server. -/
theorem deriveAesKey_of_deriveSharedSecret {ρ : Type} {deps : AuditDeps ρ} {x25519 : X25519}
    {serverPriv ephPriv pub shared key : Bytes} (hagree : deps.agree = x25519.agree)
    (hpriv : serverPriv.length = kServerPrivBytes)
    (hshared : deriveSharedSecret x25519 ephPriv (x25519.generatePublicKey serverPriv) =
      .ok (pub, shared))
    (hkey : deps.hkdfSha256 shared [] kHkdfInfo 32 = .ok key) :
    pub.length = kClientEphPubBytes ∧ deriveAesKey deps serverPriv pub = .ok key := by
  rw [deriveSharedSecret] at hshared
  split at hshared
  · cases hshared
  · split at hshared
    · cases hshared
    · next hsome =>
      cases hshared
      have hlength : (x25519.generatePublicKey ephPriv).length = kClientEphPubBytes :=
        x25519.length_generatePublicKey ephPriv
      refine ⟨hlength, ?_⟩
      rw [deriveAesKey, if_neg (not_not_intro hpriv), if_neg (not_not_intro hlength), hagree,
        x25519.agree_comm, hsome]
      exact hkey

end LoggerHigh
