import Initos.Lib.Bytes
import Initos.Lib.Text

/-!
# The crates

The X.509 decoder, the SPKI encoder, SHA-256, RSA and Ed25519 verification, base64 and the
conversions of the `uefi` crate come from libraries; both boot stages link the same ones. They are
functions here, with what their documentation promises as named hypotheses. What the code
computes from them (the key id and the signature file names) is modelled.
-/

namespace Initos

/-- The library functions of both boot stages, and what is documented of them. -/
structure Crates where
  Cert : Type
  /-- `Certificate::from_der`; an error is its text. -/
  fromDer : List UInt8 → Except String Cert
  /-- `subject_public_key_info.to_der()`. -/
  spkiToDer : Cert → Except String (List UInt8)
  /-- `subject_public_key.as_bytes()`: `none` for a bit string with unused bits. -/
  publicKeyBytes : Cert → Option (List UInt8)
  /-- `subject_public_key_info.algorithm.oid`, dotted. -/
  algorithmOid : Cert → String
  RsaPublicKey : Type
  /-- `RsaPublicKey::from_pkcs1_der`. -/
  fromPkcs1Der : List UInt8 → Option RsaPublicKey
  /-- PKCS#1 v1.5 verification of a signature over a SHA-256 digest. -/
  rsaVerify : RsaPublicKey → (digest signature : List UInt8) → Bool
  Ed25519Key : Type
  /-- `VerifyingKey::from_bytes` on 32 bytes; an error is its text. -/
  ed25519FromBytes : List UInt8 → Except String Ed25519Key
  /-- `verify_strict` of a 64-byte signature. -/
  ed25519Verify : Ed25519Key → (message signature : List UInt8) → Bool
  sha256 : List UInt8 → List UInt8
  sha256_length : ∀ b, (sha256 b).length = 32
  /-- `STANDARD.encode`. -/
  base64Encode : List UInt8 → String
  /-- `STANDARD.decode`; an error is its text. -/
  base64Decode : String → Except String (List UInt8)
  base64Decode_encode : ∀ b, base64Decode (base64Encode b) = .ok b
  base64Encode_eq_empty_iff : ∀ b, base64Encode b = "" ↔ b = []
  /-- `CStr16::from_str_with_buf` succeeds with a buffer of this many units. -/
  cstr16Fits : Nat → String → Bool
  /-- Characters of one UCS-2 unit that are not NUL, and the terminating NUL fits. -/
  cstr16Fits_of_ucs2 : ∀ size s, s.toList.length < size →
    (∀ c ∈ s.toList, 0 < c.toNat ∧ c.toNat < 0x10000) → cstr16Fits size s = true
  Guid : Type
  guidDecidableEq : DecidableEq Guid
  /-- `Guid::from_bytes` of 16 bytes. -/
  guidFromBytes : List UInt8 → Guid
  guidFromBytes_injective : ∀ b b', b.length = 16 → b'.length = 16 →
    guidFromBytes b = guidFromBytes b' → b = b'
  /-- `guid!` -/
  guid : String → Guid
  /-- The first three fields are little-endian in the bytes. -/
  guid_certX509 : guid "a5c059a1-94e4-4aa7-87b5-ab155c2bf072" = guidFromBytes
    [0xa1, 0x59, 0xc0, 0xa5, 0xe4, 0x94, 0xa7, 0x4a, 0x87, 0xb5, 0xab, 0x15, 0x5c, 0x2b, 0xf0, 0x72]

namespace Crates

variable (X : Crates)

/-- First 16 lowercase hex characters of SHA-256 of the SubjectPublicKeyInfo
    (`src/efi.rs:493-504`, and inline in `src/bin/efi.rs:476-483`). -/
def publicKeyId (spkiDer : List UInt8) : String := Text.hex ((X.sha256 spkiDer).take 8)

instance : DecidableEq X.Guid := X.guidDecidableEq

theorem base64Decode_empty : X.base64Decode "" = .ok [] := by
  have encoded := (X.base64Encode_eq_empty_iff []).mpr rfl
  rw [← encoded, X.base64Decode_encode]

/-- The loader's `rsa_oid`, rsaEncryption (`src/bin/efi.rs:424`). -/
def rsaOid : String := "1.2.840.113549.1.1.1"

/-- `signature` is a PKCS#1 v1.5 SHA-256 signature of `data` under the PKCS#1 key `keyDer`. -/
def Signs (keyDer data signature : List UInt8) : Prop :=
  ∃ key, X.fromPkcs1Der keyDer = some key ∧ X.rsaVerify key (X.sha256 data) signature = true

end Crates

end Initos
