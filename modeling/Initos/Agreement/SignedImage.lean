import Initos.Agreement.SignedBoot
import Initos.Boot.Mode

/-!
# From signing an image to trusting it

`image` of `sign.sh` signs the fs-verity digest of an image with the key of `db`, and with the
Ed25519 key where there is one. On a machine with the same image and the files that were written
beside it, `initos verify` accepts the image by either key.
-/

namespace Initos.Agreement

open Interact Efi Verify Boot Sidecar

variable {X : Crates} {T : Tools} {E E' : Surroundings}

/-- `cmd_verify` (`src/main.rs:462-467`). -/
def cmdVerify (X : Crates) (img : String) : Io Unit := do
  let pubKey ← envVarOr "INITOS_PUB_KEY" ""
  verifyImageTrusted X img pubKey true

/-! ## What is written -/

/-- The files beside the image `imgName`, which was signed with the keys of `E`. -/
structure SignedWith (X : Crates) (T : Tools) (E : Surroundings) (imgName : String)
    (digest : List UInt8) (written : Stage) : Prop where
  db : ∃ key crt keyId signature, E.files s!"{E.secrets}/db.key" = some key ∧
    E.files s!"{E.secrets}/db.crt" = some crt ∧ dbKeyId X T crt = some keyId ∧
    T.dgstSign key digest = some signature ∧
    written.read (imgName ++ ("." ++ (keyId ++ ".db.sig"))) = some signature
  image : ∀ key, E.files s!"{E.secrets}/image_key.pem" = some key →
    ∃ signature, T.pkeyutlSign key digest = some signature ∧
      written.read (imgName ++ ("." ++ "sig")) = some signature

section

variable {imgName : String} {digest : List UInt8} {written : Stage}

/-- What a successful signing has read. -/
theorem ok_of_signDigest {signature : List UInt8} {privateKey : String}
    (signed : signDigest T E digest privateKey = .ok signature) :
    ∃ key, E.files privateKey = some key ∧ T.pkeyutlSign key digest = some signature := by
  unfold signDigest at signed
  cases stored : E.files privateKey with
  | none => simp [stored] at signed
  | some key =>
    cases made : T.pkeyutlSign key digest with
    | none => simp [stored, made] at signed
    | some made =>
      simp only [stored, made, Except.ok.injEq] at signed
      exact ⟨key, rfl, by rw [made, signed]⟩

/-- With an image key, the signature is written to `.sig`. -/
theorem ok_of_signWithImageKey (signed : signWithImageKey T E imgName digest = .ok written)
    {key : List UInt8} (stored : E.files s!"{E.secrets}/image_key.pem" = some key) :
    ∃ signature, T.pkeyutlSign key digest = some signature ∧
      written = [(s!"{imgName}.sig", signature)] := by
  have there : E.isFile s!"{E.secrets}/image_key.pem" = true := by
    rw [Surroundings.isFile, stored]
    rfl
  rw [signWithImageKey, if_pos there] at signed
  cases made : signDigest T E digest s!"{E.secrets}/image_key.pem" with
  | error e =>
    rw [made] at signed
    cases signed
  | ok signature =>
    rw [made] at signed
    cases signed
    obtain ⟨key', stored', signs⟩ := ok_of_signDigest made
    obtain rfl := Option.some.inj (stored.symm.trans stored')
    exact ⟨signature, signs, rfl⟩

/-- With a `db` key, it is written under the key id. -/
theorem ok_of_signWithDbKey {first : Stage}
    (signed : signWithDbKey X T E imgName digest first = .ok written) :
    ∃ key crt keyId signature, E.files s!"{E.secrets}/db.key" = some key ∧
      E.files s!"{E.secrets}/db.crt" = some crt ∧ dbKeyId X T crt = some keyId ∧
      T.dgstSign key digest = some signature ∧
      written = (s!"{imgName}.{keyId}.db.sig", signature) :: first := by
  unfold signWithDbKey at signed
  split at signed
  next => cases signed
  next key keyStored =>
    split at signed
    next => cases signed
    next keyId named =>
      obtain ⟨crt, crtStored, named⟩ := Option.bind_eq_some_iff.mp named
      split at signed
      next => cases signed
      next signature made =>
        cases signed
        exact ⟨key, crt, keyId, signature, keyStored, crtStored, named, made, rfl⟩

end

/-- What a successful run of `image` has written. -/
theorem signedWith_of_image {imageDir filen : String} {digest : List UInt8} {written : Stage}
    (signed : Sidecar.image X T E imageDir filen = .ok written) (keys : signInit T E = .ok E')
    (measures : (E'.files s!"{imageDir}/{filen}").bind T.fsverityDigest = some digest) :
    SignedWith X T E' s!"{imageDir}/{filen}" digest written := by
  unfold Sidecar.image at signed
  dsimp only at signed
  split at signed
  · cases signed
  · obtain ⟨made, generated, signed⟩ := ok_of_bind signed
    obtain rfl : E' = made := Except.ok.inj (keys.symm.trans generated)
    rw [measures] at signed
    obtain ⟨first, imageSigned, dbSigned⟩ := ok_of_bind signed
    obtain ⟨key, crt, keyId, signature, keyStored, crtStored, named, made, rfl⟩ :=
      ok_of_signWithDbKey dbSigned
    have name (imgName : String) :
        s!"{imgName}.{keyId}.db.sig" = imgName ++ ("." ++ (keyId ++ ".db.sig")) := by
      simp only [← String.append_assoc]
      rfl
    rw [name]
    refine ⟨⟨key, crt, keyId, signature, keyStored, crtStored, named, made, read_write_same⟩, ?_⟩
    intro imageKey imageStored
    obtain ⟨imageSignature, imageMade, rfl⟩ := ok_of_signWithImageKey imageSigned imageStored
    refine ⟨imageSignature, imageMade, ?_⟩
    have other : s!"{imageDir}/{filen}" ++ ("." ++ (keyId ++ ".db.sig")) ≠
        s!"{imageDir}/{filen}" ++ ("." ++ "sig") := by
      intro same
      have lengths := congrArg String.length same
      simp only [String.length_append, show ".db.sig".length = 7 from rfl,
        show "sig".length = 3 from rfl] at lengths
      omega
    rw [← Stage.write, read_write_other other]
    exact read_write_same

/-! ## The machine -/

/-- The certificate of `db.key` is in the database. -/
def DbTrusts (X : Crates) (T : Tools) (E : Surroundings) (db : List UInt8) : Prop :=
  ∃ key crt cert attributes payload slices, E.files s!"{E.secrets}/db.key" = some key ∧
    E.files s!"{E.secrets}/db.crt" = some crt ∧ Certifies X T key crt cert ∧
    db = attributes ++ payload ∧ attributes.length = 4 ∧ payload.length < 2 ^ 63 ∧
    eslWalk payload 0 = .ok slices ∧ ∃ der ∈ slices, X.fromDer der = .ok cert

/-- The text is the public key of `image_key.pem`. -/
def KeyTrusts (X : Crates) (T : Tools) (E : Surroundings) (pubKey : String) : Prop :=
  ∃ key keyBytes verifyingKey, E.files s!"{E.secrets}/image_key.pem" = some key ∧
    X.base64Decode pubKey = .ok keyBytes ∧ keyBytes.length = 32 ∧
    X.ed25519FromBytes keyBytes = .ok verifyingKey ∧
    ∀ data signature, T.pkeyutlSign key data = some signature →
      signature.length = 64 ∧ X.ed25519Verify verifyingKey data signature = true

/-- The answers of a machine that has the image under `img` and beside it the files that were
    written beside `imgName`. -/
def Delivered (written : Stage) (imgName img pubKey basePath : String) (digest db : List UInt8) :
    Rely Sys := fun h e =>
  match e with
  | ⟨.envVar name, r⟩ => (name = "INITOS_PUB_KEY" → Option.getD r "" = pubKey) ∧
      (name = "INITOS_EFI_PATH" → Option.getD r "/sys/firmware/efi/efivars" = basePath)
  | ⟨.readFile path, r⟩ =>
      (path = s!"{basePath}/db-{efiImageSecurityDbGuid}" → r = Except.ok db) ∧
      ∀ suffix, path = img ++ ("." ++ suffix) →
        match written.read (imgName ++ ("." ++ suffix)) with
        | some data => r = Except.ok data
        | none => ∃ err : Err, r = Except.error err ∧ err.kind = some .notFound
  | ⟨.measureVerity _, r⟩ => (∃ alg, r = Except.ok (alg, digest)) ∨
      ((∃ err, r = Except.error err) ∧ ⟨.enableVerity img, Except.ok ()⟩ ∉ h)
  | ⟨.openRead _, r⟩ => r = Except.ok ()
  | ⟨.enableVerity _, r⟩ => r = Except.ok ()
  | _ => True

section

variable {written : Stage} {imgName img pubKey basePath : String} {digest db : List UInt8}
  {h : History Sys}

/-- The db signatures among the files. -/
def dbSignatures (written : Stage) (imgName keyId : String) : Option (List UInt8) :=
  written.read (imgName ++ ("." ++ (keyId ++ ".db.sig")))

/-- The machine with the files measures the image that was signed. -/
theorem measuredImage_of_delivered (ends : UnixPath.EndsInName img) {e : Event Sys}
    (delivered : Delivered written imgName img pubKey basePath digest db h e) :
    MeasuredImage img basePath (dbSignatures written imgName) digest db h e := by
  obtain ⟨c, r⟩ := e
  cases c with
  | readFile path =>
    refine ⟨fun keyId isSignature => ?_, delivered.1⟩
    have nonempty : keyId ++ ".db.sig" ≠ "" := fun empty => by
      have length := congrArg String.length empty
      rw [String.length_append, show ".db.sig".length = 7 from rfl] at length
      exact absurd length (by simp)
    rw [signaturePath_eq ends nonempty] at isSignature
    exact delivered.2 _ isSignature
  | measureVerity path => exact ⟨trivial, delivered⟩
  | openRead path => exact ⟨trivial, delivered⟩
  | enableVerity path => exact ⟨trivial, delivered⟩
  | _ => exact ⟨trivial, trivial⟩

/-- The certificate of the key accepts the written signature. -/
theorem certSigns_of_signedWith (signed : SignedWith X T E imgName digest written)
    {key crt : List UInt8} {cert : X.Cert} {der : List UInt8}
    (keyStored : E.files s!"{E.secrets}/db.key" = some key)
    (crtStored : E.files s!"{E.secrets}/db.crt" = some crt) (certifies : Certifies X T key crt cert)
    (decoded : X.fromDer der = .ok cert) :
    ∃ efiCert, parseX509Cert X der = .ok efiCert ∧
      CertSigns X (dbSignatures written imgName) (X.sha256 digest) efiCert := by
  obtain ⟨key', crt', keyId, signature, keyStored', crtStored', named, made, stored⟩ := signed.db
  obtain rfl := Option.some.inj (keyStored.symm.trans keyStored')
  obtain rfl := Option.some.inj (crtStored.symm.trans crtStored')
  obtain rfl := Option.some.inj (named.symm.trans certifies.dbKeyId)
  obtain ⟨spkiDer, encoded, -⟩ := certifies.spki
  rw [certSigns_iff_signer]
  refine ⟨cert, decoded, ⟨signature, stored, certifies.signs _ _ made⟩, ?_, certifies.keyThere⟩
  rw [encoded]
  exact Option.some_ne_none _

/-- With the certificate in `db`, the image is verified by `db`. -/
theorem verifyImageDb_delivered (ends : UnixPath.EndsInName img)
    (signed : SignedWith X T E imgName digest written) (trusts : DbTrusts X T E db) :
    Prog.wp (Delivered written imgName img pubKey basePath digest db)
      (Fallible.Yields fun _ valid => valid = true) (verifyImageDb X img basePath).run h := by
  obtain ⟨key, crt, cert, attributes, payload, slices, keyStored, crtStored, certifies, rfl, four,
    addressable, walked, der, member, decoded⟩ := trusts
  obtain ⟨efiCert, parsed, signs⟩ := certSigns_of_signedWith signed keyStored crtStored certifies
    decoded
  have parses : parseEsl X payload =
      some (.ok (slices.foldl (pushParsed (parseX509Cert X)) [])) := by
    rw [parseEsl, parseEslWith_eq _ addressable, walked]
    rfl
  have inDb := (mem_foldl_pushParsed (parseX509Cert X) efiCert slices []).mpr
    (.inr ⟨der, member, parsed⟩)
  refine Prog.wp_rely_mono (R := MeasuredImage img basePath (dbSignatures written imgName) digest
    (attributes ++ payload)) ?_ fun h e => measuredImage_of_delivered ends
  rw [verifyImageDb, Fallible.wp_bind]
  apply Prog.wp_mono (measureOrEnableVerity_wp img basePath _ digest _ h)
  rintro h₁ _ ⟨alg, rfl⟩
  rw [Prog.andThen_done, Fallible.cont_ok]
  dsimp only
  rw [Fallible.wp_bind]
  apply Prog.wp_mono (readDb_wp X img basePath _ digest four parses h₁)
  rintro h₂ _ rfl
  rw [Prog.andThen_done, Fallible.cont_ok]
  apply Prog.wp_mono (Prog.wp_rely_mono (verifyCerts_wp X (X.sha256 digest)
    (decodable_of_mem_db addressable parses) h₂) fun _ _ a => a.1)
  rintro h₃ _ ⟨valid, rfl, valid_iff⟩
  exact ⟨valid, rfl, valid_iff.mpr ⟨efiCert, inDb, signs⟩⟩

/-- With its own key, the image is verified by that key. -/
theorem verifyImage_delivered (ends : UnixPath.EndsInName img)
    (signed : SignedWith X T E imgName digest written) (trusts : KeyTrusts X T E pubKey) :
    Prog.wp (Delivered written imgName img pubKey basePath digest db)
      (Fallible.Yields fun _ valid => valid = true) (verifyImage X img pubKey).run h := by
  obtain ⟨key, keyBytes, verifyingKey, stored, decoded, length, parsed, signs⟩ := trusts
  obtain ⟨signature, made, beside⟩ := signed.image key stored
  obtain ⟨long, verified⟩ := signs digest signature made
  rw [verifyImage, Fallible.wp_bind]
  refine Prog.wp_mono (Prog.wp_rely_mono (measureOrEnableVerity_wp img basePath
    (dbSignatures written imgName) digest db h) fun h e => measuredImage_of_delivered ends) ?_
  rintro h₁ _ ⟨alg, rfl⟩
  rw [Prog.andThen_done, Fallible.cont_ok]
  dsimp only
  rw [Fallible.wp_attempt_call_bind]
  intro answer delivered
  have read := delivered.2 "sig" (signaturePath_eq ends (by decide))
  rw [beside] at read
  dsimp only at read
  subst read
  dsimp only
  have accepted : verifySignature X digest signature pubKey = .ok true := by
    rw [verifySignature, decoded]
    dsimp only
    rw [if_neg (not_not_intro length), parsed]
    dsimp only
    rw [if_neg (not_not_intro long), verified]
  rw [accepted]
  exact (Prog.wp_pure _ _ _ _).mpr ⟨true, rfl, rfl⟩

/-- No text that is a key is empty. -/
theorem KeyTrusts.ne_empty (trusts : KeyTrusts X T E pubKey) : pubKey ≠ "" := by
  rintro rfl
  obtain ⟨-, keyBytes, -, -, decoded, length, -⟩ := trusts
  obtain rfl : [] = keyBytes := Except.ok.inj (X.base64Decode_empty.symm.trans decoded)
  cases length

end

/-- An image that `image` has signed is accepted by `initos verify` where the files arrive with
    the image: under the key of the image if that is configured, and else under a `db` with the
    certificate. -/
theorem signed_image_verifies {imageDir filen img pubKey basePath : String}
    {digest db : List UInt8} {written : Stage} {tr : History Sys}
    {out : Outcome Sys (Except Err Unit)}
    (signed : Sidecar.image X T E imageDir filen = .ok written) (keys : signInit T E = .ok E')
    (measures : (E'.files s!"{imageDir}/{filen}").bind T.fsverityDigest = some digest)
    (trusts : KeyTrusts X T E' pubKey ∨ pubKey = "" ∧ DbTrusts X T E' db)
    (ends : UnixPath.EndsInName img) (run : Runs (cmdVerify X img).run tr out)
    (delivered : Admits
      (Delivered written s!"{imageDir}/{filen}" img pubKey basePath digest db) [] tr) :
    out = .done (.ok ()) := by
  have signedWith := signedWith_of_image signed keys measures
  have verifies : Prog.wp (Delivered written s!"{imageDir}/{filen}" img pubKey basePath digest db)
      (Fallible.Yields fun _ _ => True) (cmdVerify X img).run [] := by
    rw [cmdVerify, envVarOr, bind_assoc, Fallible.wp_ask_bind]
    intro answer configured
    obtain rfl := configured.1 rfl
    rw [pure_bind, verifyImageTrusted]
    rcases trusts with byKey | ⟨none, byDb⟩
    · rw [if_pos byKey.ne_empty, verifyImageIfKey, if_neg byKey.ne_empty]
      refine Fallible.yields_bind (verifyImage_delivered ends signedWith byKey) ?_
      rintro h valid rfl
      exact Fallible.yields_pure trivial
    · rw [if_neg (not_not_intro none), if_pos rfl, efiBasePath, envVarOr, bind_assoc,
        Fallible.wp_ask_bind]
      intro path located
      obtain rfl := located.2 rfl
      rw [pure_bind]
      refine Fallible.yields_bind (verifyImageDb_delivered ends signedWith byDb) ?_
      rintro h valid rfl
      exact Fallible.yields_pure trivial
  obtain ⟨result, rfl, -, rfl, -⟩ := Prog.exists_of_delivers verifies run delivered
  rfl

/-- The signing host of the example: the keys and the image are there. -/
def sampleKeys : Surroundings where
  files path :=
    if path ∈ ["/s/root.key", "/s/db.key", "/s/db.crt", "/a/root.erofs"] then some [1] else none
  baseDir := "/b"
  secrets := "/s"
  initosCmdline := none
  nixBuildTop := none
  signingKeysRequired := none

/-- A machine with the image under the path under which it was signed. -/
def sampleMachine (written : Stage) : (c : SysCmd) → c.Resp
  | .envVar name => if name = "INITOS_EFI_PATH" then some "/efi" else none
  | .readFile path =>
    if path = s!"/efi/db-{efiImageSecurityDbGuid}" then .ok ([7, 0, 0, 0] ++ sampleDb 45 1)
    else (written.read path).elim (.error (.io .notFound "")) .ok
  | .measureVerity _ => .ok (1, [1])
  | .openRead _ => .ok ()
  | .enableVerity _ => .ok ()
  | c => c.fail (.io .notFound "")

theorem delivered_sample (written : Stage) {imgName : String} (same : imgName = "/a/root.erofs")
    (h : History Sys) (c : SysCmd) :
    Delivered written imgName "/a/root.erofs" "" "/efi" [1] ([7, 0, 0, 0] ++ sampleDb 45 1) h
      ⟨c, sampleMachine written c⟩ := by
  subst same
  cases c with
  | envVar name =>
    refine ⟨?_, ?_⟩
    · rintro rfl
      rfl
    · rintro rfl
      rfl
  | readFile path =>
    refine ⟨fun isDb => if_pos isDb, fun suffix isSignature => ?_⟩
    have other : path ≠ s!"/efi/db-{efiImageSecurityDbGuid}" := by
      rintro isDb
      have heads := congrArg (fun p => p.toList.take 2) (isSignature.symm.trans isDb)
      rw [String.toList_append, List.take_append_of_le_length (by decide)] at heads
      exact absurd heads (by decide)
    have answer : sampleMachine written (.readFile path) =
        (written.read path).elim (.error (.io .notFound "")) .ok := if_neg other
    rw [answer, isSignature]
    cases written.read ("/a/root.erofs" ++ ("." ++ suffix)) with
    | none => exact ⟨_, rfl, rfl⟩
    | some data => rfl
  | measureVerity path => exact .inl ⟨1, rfl⟩
  | openRead path => rfl
  | enableVerity path => rfl
  | _ => trivial

theorem signed_image_verifies_db :
    ∃ written tr,
      Sidecar.image sampleCrates sampleTools sampleKeys "/a" "root.erofs" = .ok written ∧
      Runs (cmdVerify sampleCrates "/a/root.erofs").run tr (.done (.ok ())) := by
  obtain ⟨written, signed⟩ : ∃ written,
      Sidecar.image sampleCrates sampleTools sampleKeys "/a" "root.erofs" = .ok written :=
    ⟨[("/a/root.erofs.0100000000000000.db.sig", [1])], by decide +kernel⟩
  have run := Prog.runs_exec (fun _ => sampleMachine written)
    (cmdVerify sampleCrates "/a/root.erofs").run []
  have name : "/a" ++ "/" ++ "root.erofs" = "/a/root.erofs" := by decide
  have delivered := Prog.admits_exec (delivered_sample written name)
    (cmdVerify sampleCrates "/a/root.erofs").run []
  have trusts : DbTrusts sampleCrates sampleTools sampleKeys ([7, 0, 0, 0] ++ sampleDb 45 1) :=
    ⟨[1], [1], [1], [7, 0, 0, 0], sampleDb 45 1, [[1]], by decide +kernel, by decide +kernel,
      certifies_sample, rfl, rfl, by decide, by decide +kernel, [1], List.mem_cons_self, rfl⟩
  have ends : UnixPath.EndsInName "/a/root.erofs" :=
    name ▸ UnixPath.endsInName_slash "/a" (by decide : UnixPath.IsName "root.erofs")
  have keys : signInit sampleTools sampleKeys = .ok sampleKeys := by
    rw [signInit, if_neg (by decide), if_pos (by decide +kernel)]
  have done := signed_image_verifies signed keys (by decide +kernel) (.inr ⟨rfl, trusts⟩) ends run
    delivered
  rw [done] at run
  exact ⟨written, _, signed, run⟩

end Initos.Agreement
