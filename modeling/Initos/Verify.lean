import Initos.Efi.Vars
import Initos.Lib.UnixPath

/-!
# Image verification in the initrd

Images are verified by their fs-verity digest: `verify_image` checks an Ed25519
signature with a given key (`src/verify.rs:14-113`). `verify_image_db`
(`src/verify.rs:115-213`) asks for a signature by a certificate of `db`, in a
file beside the image that carries the certificate's key id in its name.
-/

namespace Initos.Verify

open Interact Efi

/-- `signature_path` (`src/verify.rs:207-213`). -/
def signaturePath (img suffix : String) : String :=
  UnixPath.withExtension img <|
    match UnixPath.extension img with
    | some e => s!"{e}.{suffix}"
    | none => suffix

/-- `measure_or_enable_verity` (`src/verify.rs:174-205`). -/
def measureOrEnableVerity (img : String) : Io (Nat × List UInt8) := do
  match ← Fallible.attempt (measureVerity img) with
  | .ok v => return v
  | .error e =>
    match ← Fallible.attempt (openRead img) with
    | .ok () =>
      match ← Fallible.attempt (enableVerity img) with
      | .error enableErr =>
        throw ⟨e.kind, s!"Measure failed: {e.text}, Enable failed: {enableErr.text}"⟩
      | .ok () => measureVerity img
    | .error _ => throw e

section

variable (X : Crates)

/-- `verify_signature` (`src/verify.rs:25-82`). -/
def verifySignature (digest signatureBytes : List UInt8) (pubKeyB64 : String) : Except Err Bool :=
  match X.base64Decode pubKeyB64 with
  | .error e => .error (.io .invalidData s!"bad base64 pub_key: {e}")
  | .ok pubKeyBytes =>
    if pubKeyBytes.length ≠ 32 then
      .error (.io .invalidData s!"ed25519 public key must be 32 bytes, got {pubKeyBytes.length}")
    else
      match X.ed25519FromBytes pubKeyBytes with
      | .error e => .error (.io .invalidData s!"bad ed25519 key: {e}")
      | .ok verifyingKey =>
        if signatureBytes.length ≠ 64 then
          .error (.io .invalidData
            s!"ed25519 signature must be 64 bytes, got {signatureBytes.length}")
        else .ok (X.ed25519Verify verifyingKey digest signatureBytes)

/-- `verify_image` (`src/verify.rs:97-113`). -/
def verifyImage (img pubKeyB64 : String) : Io Bool := do
  let (_, digest) ← measureOrEnableVerity img
  let sigPath := signaturePath img "sig"
  match ← Fallible.attempt (readFile sigPath) with
  | .error e =>
    throw ⟨e.kind, s!"failed to read signature file {Text.debug sigPath}: {e.text}"⟩
  | .ok signatureBytes => ofExcept (verifySignature X digest signatureBytes pubKeyB64)

/-- The certificate loop of `verify_image_db` (`src/verify.rs:129-171`). -/
def verifyCerts (img : String) (signedDigest : List UInt8) : List EfiCert → Io Bool
  | [] => return false
  | cert :: rest => do
    if cert.rsaPublicKeyB64 = "" then verifyCerts img signedDigest rest
    else
      let sigPath := signaturePath img (cert.keyId ++ ".db.sig")
      match ← Fallible.attempt (readFile sigPath) with
      | .error e =>
        if e.kind = some .notFound then verifyCerts img signedDigest rest
        else throw ⟨e.kind, s!"failed to read db signature file {Text.debug sigPath}: {e.text}"⟩
      | .ok signatureBytes =>
        match X.base64Decode cert.rsaPublicKeyB64 with
        | .error e => throw (.io .invalidData s!"db key: {e}")
        | .ok keyDer =>
          match X.fromPkcs1Der keyDer with
          | none => verifyCerts img signedDigest rest
          | some rsaPub =>
            if X.rsaVerify rsaPub signedDigest signatureBytes then return true
            else verifyCerts img signedDigest rest

/-- `verify_image_db` (`src/verify.rs:121-172`). -/
def verifyImageDb (img efiBasePath : String) : Io Bool := do
  let (_, digest) ← measureOrEnableVerity img
  let certs ← readDb X efiBasePath
  verifyCerts X img (X.sha256 digest) certs

/-! ## The certificate loop -/

/-- The signature files `sigs` lie beside the image; a file that is not there is
    reported as not found. -/
def ImageFiles (img : String) (sigs : String → Option (List UInt8)) : Rely Sys := fun _ e =>
  match e with
  | ⟨.readFile path, r⟩ => ∀ keyId, path = signaturePath img (keyId ++ ".db.sig") →
      match sigs keyId with
      | some signature => r = Except.ok signature
      | none => ∃ err : Err, r = Except.error err ∧ err.kind = some .notFound
  | _ => True

/-- The certificate has a key, and the file for its key id holds a signature of the
    digest under that key. -/
def CertSigns (sigs : String → Option (List UInt8)) (signedDigest : List UInt8) (cert : EfiCert) :
    Prop :=
  cert.rsaPublicKeyB64 ≠ "" ∧ ∃ signature keyDer rsaPub, sigs cert.keyId = some signature ∧
    X.base64Decode cert.rsaPublicKeyB64 = .ok keyDer ∧ X.fromPkcs1Der keyDer = some rsaPub ∧
    X.rsaVerify rsaPub signedDigest signature = true

/-- The key of a parsed certificate is encoded text, so decoding it cannot fail. -/
theorem decodable_of_parsed {der : List UInt8} {cert : EfiCert}
    (parsed : parseX509Cert X der = .ok cert) :
    ∃ keyDer, X.base64Decode cert.rsaPublicKeyB64 = .ok keyDer := by
  unfold parseX509Cert at parsed
  cases decoded : X.fromDer der with
  | error e => rw [decoded] at parsed; cases parsed
  | ok x509 =>
    cases spki : X.spkiToDer x509 with
    | error e => rw [decoded] at parsed; simp [spki] at parsed
    | ok spkiDer =>
      simp only [decoded, spki, Except.ok.injEq] at parsed
      subst parsed
      cases X.publicKeyBytes x509 with
      | none => exact ⟨[], X.base64Decode_empty⟩
      | some bytes => exact ⟨bytes, X.base64Decode_encode bytes⟩

/-- For a certificate with a key, the file and the key decide. -/
theorem certSigns_iff {sigs : String → Option (List UInt8)} {signedDigest keyDer : List UInt8}
    {cert : EfiCert} (nonempty : cert.rsaPublicKeyB64 ≠ "")
    (decoded : X.base64Decode cert.rsaPublicKeyB64 = .ok keyDer) :
    CertSigns X sigs signedDigest cert ↔ ∃ signature rsaPub,
      sigs cert.keyId = some signature ∧ X.fromPkcs1Der keyDer = some rsaPub ∧
        X.rsaVerify rsaPub signedDigest signature = true := by
  constructor
  · rintro ⟨-, signature, keyDer', rsaPub, stored, decoded', key, verified⟩
    rw [decoded, Except.ok.injEq] at decoded'
    subst decoded'
    exact ⟨signature, rsaPub, stored, key, verified⟩
  · rintro ⟨signature, rsaPub, stored, key, verified⟩
    exact ⟨nonempty, signature, keyDer, rsaPub, stored, decoded, key, verified⟩

/-- The loop returns whether a certificate of the list signs. -/
theorem verifyCerts_wp {img : String} {sigs : String → Option (List UInt8)}
    (signedDigest : List UInt8) {certs : List EfiCert}
    (decodable : ∀ cert ∈ certs, ∃ keyDer, X.base64Decode cert.rsaPublicKeyB64 = .ok keyDer)
    (h : History Sys) :
    Prog.wp (ImageFiles img sigs)
      (fun _ out => ∃ b, out = .done (.ok b) ∧
        (b = true ↔ ∃ cert ∈ certs, CertSigns X sigs signedDigest cert))
      (verifyCerts X img signedDigest certs).run h := by
  induction certs generalizing h with
  | nil =>
    rw [verifyCerts, Fallible.run_pure, Prog.wp_pure]
    exact ⟨false, rfl, by simp⟩
  | cons cert rest ih =>
    have ih := ih fun cert' member => decodable cert' (List.mem_cons_of_mem _ member)
    -- where the head does not sign, the rest decides
    have skip : ¬CertSigns X sigs signedDigest cert → ∀ h',
        Prog.wp (ImageFiles img sigs)
          (fun _ out => ∃ b, out = .done (.ok b) ∧
            (b = true ↔ ∃ cert' ∈ cert :: rest, CertSigns X sigs signedDigest cert'))
          (verifyCerts X img signedDigest rest).run h' := by
      intro unsigned h'
      apply Prog.wp_mono (ih h')
      intro h'' out post
      obtain ⟨b, done, b_iff⟩ := post
      refine ⟨b, done, ?_⟩
      rw [b_iff, List.exists_mem_cons_iff]
      exact (or_iff_right unsigned).symm
    obtain ⟨keyDer, decoded⟩ := decodable cert List.mem_cons_self
    rw [verifyCerts]
    by_cases empty : cert.rsaPublicKeyB64 = ""
    · rw [if_pos empty]
      exact skip (fun signs => signs.1 empty) h
    · have signs_iff : CertSigns X sigs signedDigest cert ↔ _ := certSigns_iff X empty decoded
      rw [if_neg empty, Fallible.wp_attempt_call_bind]
      intro answer read
      have read := read cert.keyId rfl
      cases stored : sigs cert.keyId with
      | none =>
        simp only [stored] at read
        obtain ⟨err, rfl, notFound⟩ := read
        dsimp only
        rw [if_pos notFound]
        exact skip (by simp [signs_iff, stored]) _
      | some signature =>
        simp only [stored] at read
        subst read
        simp only [decoded]
        cases key : X.fromPkcs1Der keyDer with
        | none => exact skip (by simp [signs_iff, key]) _
        | some rsaPub =>
          dsimp only
          by_cases verified : X.rsaVerify rsaPub signedDigest signature = true
          · rw [if_pos verified, Fallible.run_pure, Prog.wp_pure]
            have signs := signs_iff.mpr ⟨signature, rsaPub, stored, key, verified⟩
            exact ⟨true, rfl, iff_of_true rfl ⟨cert, List.mem_cons_self, signs⟩⟩
          · rw [if_neg verified]
            exact skip (by simp [signs_iff, stored, key, verified]) _

end

end Initos.Verify
