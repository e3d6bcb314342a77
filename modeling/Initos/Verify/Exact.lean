import Initos.Verify
import Initos.Efi.Format

/-!
# What `verify_image_db` decides

Where the image can be measured, `db` parses and every signature file is either readable or
absent, `verify_image_db` returns whether some certificate of `db` signed the digest. The
answer is a property of the set of certificates, so it depends neither on their order nor
on certificates that do not sign.
-/

namespace Initos.Verify

open Interact Bytes Efi

variable (X : Crates) (img basePath : String) (sigs : String → Option (List UInt8))
  (digest : List UInt8)

/-- The answers of a system on which the image can be measured, at the latest once
    fs-verity is enabled, `db` has the given contents, and the signature files are `sigs`. -/
def MeasuredImage (db : List UInt8) : Rely Sys := fun h e =>
  ImageFiles img sigs h e ∧
    match e with
    | ⟨.readFile path, r⟩ =>
      path = s!"{basePath}/db-{efiImageSecurityDbGuid}" → r = Except.ok db
    | ⟨.measureVerity _, r⟩ => (∃ alg, r = Except.ok (alg, digest)) ∨
        ((∃ err, r = Except.error err) ∧ ⟨.enableVerity img, Except.ok ()⟩ ∉ h)
    | ⟨.openRead _, r⟩ => r = Except.ok ()
    | ⟨.enableVerity _, r⟩ => r = Except.ok ()
    | _ => True

/-- The digest of the image is measured. -/
theorem measureOrEnableVerity_wp (db : List UInt8) (h : History Sys) :
    Prog.wp (MeasuredImage img basePath sigs digest db)
      (fun _ out => ∃ alg, out = .done (.ok (alg, digest))) (measureOrEnableVerity img).run h := by
  rw [measureOrEnableVerity, Fallible.wp_attempt_call_bind]
  intro measured admitted
  rcases admitted.2 with ⟨alg, rfl⟩ | ⟨⟨err, rfl⟩, -⟩
  · exact (Prog.wp_pure _ _ _ _).mpr ⟨alg, rfl⟩
  · dsimp only
    rw [Fallible.wp_attempt_call_bind]
    intro opened admitted
    have opened : opened = Except.ok () := admitted.2
    subst opened
    dsimp only
    rw [Fallible.wp_attempt_call_bind]
    intro enabled admitted
    have enabled : enabled = Except.ok () := admitted.2
    subst enabled
    dsimp only
    rw [Fallible.wp_call]
    intro again admitted
    rcases admitted.2 with ⟨alg, rfl⟩ | ⟨-, notEnabled⟩
    · exact ⟨alg, rfl⟩
    · exact absurd (by simp) notEnabled

/-- The certificates of `db` are read. -/
theorem readDb_wp {attributes payload : List UInt8} {certs : List EfiCert}
    (attributes_length : attributes.length = 4) (parses : parseEsl X payload = some (.ok certs))
    (h : History Sys) :
    Prog.wp (MeasuredImage img basePath sigs digest (attributes ++ payload))
      (fun _ out => out = .done (.ok certs)) (readDb X basePath).run h := by
  rw [readDb, Fallible.wp_call_bind]
  intro answer admitted
  have read : answer = Except.ok (attributes ++ payload) := admitted.2 rfl
  subst read
  have long : ¬(attributes ++ payload).length < 4 := by simp [attributes_length]
  have rest := slice_eq_some (attributes ++ payload)
    (show 4 ≤ (attributes ++ payload).length by omega) (Nat.le_refl _)
  have isPayload : ((attributes ++ payload).drop 4).take ((attributes ++ payload).length - 4) =
      payload := by
    rw [← attributes_length, List.drop_left]
    exact List.take_of_length_le (by simp)
  rw [Fallible.cont_ok, stripAttributes, if_neg long, rest, isPayload, ofChecked, pure_bind, parses,
    ofChecked, pure_bind, ofExcept, Fallible.run_pure, Prog.wp_pure]

/-- Some certificate of the list has a key and a signature of the digest under it. -/
def SignedByOne (certs : List EfiCert) : Prop :=
  ∃ cert ∈ certs, CertSigns X sigs (X.sha256 digest) cert

/-- A run of `verify_image_db` with the certificates `certs` in `db` ends with `out`. -/
def DbRun (certs : List EfiCert) (out : Outcome Sys (Except Err Bool)) : Prop :=
  ∃ attributes payload tr, attributes.length = 4 ∧ payload.length < 2 ^ 63 ∧
    parseEsl X payload = some (.ok certs) ∧ Runs (verifyImageDb X img basePath).run tr out ∧
    Admits (MeasuredImage img basePath sigs digest (attributes ++ payload)) [] tr

variable {X img basePath sigs digest}

/-- Every certificate of a parsed database comes from `parse_x509_cert`. -/
theorem parsed_of_mem_db {payload : List UInt8} (addressable : payload.length < 2 ^ 63)
    {certs : List EfiCert} (parses : parseEsl X payload = some (.ok certs)) :
    ∀ cert ∈ certs, ∃ der, parseX509Cert X der = .ok cert := by
  intro cert member
  rw [parseEsl, parseEslWith_eq _ addressable] at parses
  cases walk : eslWalk payload 0 with
  | error e => simp [walk, Except.map] at parses
  | ok slices =>
    simp only [walk, Except.map, Option.some.injEq, Except.ok.injEq, foldl_pushParsed,
      List.nil_append] at parses
    subst parses
    obtain ⟨der, -, parsed⟩ := List.mem_filterMap.mp member
    cases result : parseX509Cert X der with
    | error e => simp [result, Except.toOption] at parsed
    | ok cert' =>
      simp only [result, Except.toOption, Option.some.injEq] at parsed
      subst parsed
      exact ⟨der, result⟩

/-- The public keys of `db` were encoded by `parse_x509_cert`, so they decode. -/
theorem decodable_of_mem_db {payload : List UInt8} (addressable : payload.length < 2 ^ 63)
    {certs : List EfiCert} (parses : parseEsl X payload = some (.ok certs)) :
    ∀ cert ∈ certs, ∃ keyDer, X.base64Decode cert.rsaPublicKeyB64 = .ok keyDer := by
  intro cert member
  obtain ⟨der, parsed⟩ := parsed_of_mem_db addressable parses cert member
  exact decodable_of_parsed X parsed

/-- Every run returns whether a certificate signs. -/
theorem DbRun.answer {certs : List EfiCert} {out : Outcome Sys (Except Err Bool)}
    (run : DbRun X img basePath sigs digest certs out) :
    ∃ b, out = .done (.ok b) ∧ (b = true ↔ SignedByOne X sigs digest certs) := by
  obtain ⟨attributes, payload, tr, attributes_length, addressable, parses, runs, admitted⟩ := run
  have decodable := decodable_of_mem_db addressable parses
  have spec : Prog.wp (MeasuredImage img basePath sigs digest (attributes ++ payload))
      (fun _ out => ∃ b, out = .done (.ok b) ∧ (b = true ↔ SignedByOne X sigs digest certs))
      (verifyImageDb X img basePath).run [] := by
    rw [verifyImageDb, Fallible.wp_bind]
    apply Prog.wp_mono (measureOrEnableVerity_wp img basePath sigs digest _ [])
    rintro h₁ _ ⟨alg, rfl⟩
    rw [Prog.andThen_done, Fallible.cont_ok]
    dsimp only
    rw [Fallible.wp_bind]
    apply Prog.wp_mono (readDb_wp X img basePath sigs digest attributes_length parses h₁)
    rintro h₂ _ rfl
    rw [Prog.andThen_done, Fallible.cont_ok]
    exact Prog.wp_rely_mono (verifyCerts_wp X (X.sha256 digest) decodable h₂) fun _ _ a => a.1
  exact (Prog.wp_iff_runs _ _ _ _).mp spec tr out runs admitted

/-- `verify_image_db` is exact: it returns true where a certificate of `db` signs and false
    where none does, whatever the order of the certificates, and more certificates never
    turn true into false. The key of a parsed certificate always decodes. -/
theorem verifyImageDb_exact (X : Crates) (img basePath : String)
    (sigs : String → Option (List UInt8)) (digest : List UInt8) :
    (∀ certs out, DbRun X img basePath sigs digest certs out →
      (out = .done (.ok true) ↔ SignedByOne X sigs digest certs) ∧
      (out = .done (.ok false) ↔ ¬SignedByOne X sigs digest certs)) ∧
    (∀ certs certs' out out', certs.Perm certs' → DbRun X img basePath sigs digest certs out →
      DbRun X img basePath sigs digest certs' out' → out = out') ∧
    (∀ certs certs' out', certs ⊆ certs' →
      DbRun X img basePath sigs digest certs (.done (.ok true)) →
      DbRun X img basePath sigs digest certs' out' → out' = .done (.ok true)) ∧
    ∀ der cert, parseX509Cert X der = .ok cert →
      ∃ keyDer, X.base64Decode cert.rsaPublicKeyB64 = .ok keyDer := by
  refine ⟨?_, ?_, ?_, fun der cert parsed => decodable_of_parsed X parsed⟩
  · intro certs out run
    obtain ⟨b, rfl, signed⟩ := run.answer
    rw [← signed]
    cases b <;> simp
  · intro certs certs' out out' same run run'
    obtain ⟨b, rfl, signed⟩ := run.answer
    obtain ⟨b', rfl, signed'⟩ := run'.answer
    have equal : (b = true) ↔ (b' = true) := by
      rw [signed, signed']
      exact exists_congr fun cert => and_congr_left' same.mem_iff
    rw [Bool.eq_iff_iff.mpr equal]
  · intro certs certs' out' more run run'
    obtain ⟨b, returned, signed⟩ := run.answer
    obtain ⟨b', rfl, signed'⟩ := run'.answer
    cases returned
    obtain ⟨cert, member, signs⟩ := signed.mp rfl
    rw [signed'.mpr ⟨cert, more member, signs⟩]

/-- A system with a measurable image, two certificates in `db` and signature files that the
    first of them verifies. -/
def sampleImageFiles (path : String) : List UInt8 :=
  if path = s!"/efi/db-{efiImageSecurityDbGuid}" then
    [7, 0, 0, 0] ++ [twoCertificates].flatMap SignatureList.encode
  else [1]

/-- The system of the example: every file it names can be read. -/
def sampleImageSystem : (c : SysCmd) → c.Resp
  | .readFile path => .ok (sampleImageFiles path)
  | .measureVerity _ => .ok (1, [])
  | .openRead _ => .ok ()
  | .enableVerity _ => .ok ()
  | c => c.fail (.io .notFound "")

/-- The signature files next to the image. -/
def sampleSignatures (keyId : String) : Option (List UInt8) :=
  some (sampleImageFiles (signaturePath "/z/img/root.erofs" (keyId ++ ".db.sig")))

theorem measuredImage_sample (h : History Sys) (c : SysCmd) :
    MeasuredImage "/z/img/root.erofs" "/efi" sampleSignatures []
      ([7, 0, 0, 0] ++ [twoCertificates].flatMap SignatureList.encode) h
      ⟨c, sampleImageSystem c⟩ := by
  cases c with
  | readFile path =>
    refine ⟨fun keyId isSignature => ?_, fun isDb => ?_⟩
    · subst isSignature
      rfl
    · subst isDb
      rfl
  | measureVerity _ => exact ⟨trivial, .inl ⟨1, rfl⟩⟩
  | openRead _ => exact ⟨trivial, rfl⟩
  | enableVerity _ => exact ⟨trivial, rfl⟩
  | _ => exact ⟨trivial, trivial⟩

theorem verifyImageDb_exact_two_certificates :
    ∃ certs, certs.length = 2 ∧
      DbRun sampleCrates "/z/img/root.erofs" "/efi" sampleSignatures [] certs
        (.done (.ok true)) := by
  let verify := (verifyImageDb sampleCrates "/z/img/root.erofs" "/efi").run
  have runs := Prog.runs_exec (fun _ => sampleImageSystem) verify []
  have admitted := Prog.admits_exec measuredImage_sample verify []
  generalize (verify.exec (fun _ => sampleImageSystem) []).1 = tr at runs admitted
  generalize (verify.exec (fun _ => sampleImageSystem) []).2 = out at runs
  let certs := ([twoCertificates].flatMap SignatureList.certificates).filterMap fun der =>
    (parseX509Cert sampleCrates der).toOption
  have run : DbRun sampleCrates "/z/img/root.erofs" "/efi" sampleSignatures [] certs out :=
    ⟨_, _, tr, by decide, by decide +kernel, parseEsl_encode sampleCrates (by decide +kernel),
      runs, admitted⟩
  have signed : SignedByOne sampleCrates sampleSignatures [] certs := by
    refine ⟨_, List.mem_cons_self, by decide +kernel, [1], [1], [1], ?_, ?_, rfl, rfl⟩
    · decide +kernel
    · decide +kernel
  have returned := ((verifyImageDb_exact sampleCrates "/z/img/root.erofs" "/efi" sampleSignatures
    []).1 certs out run).1.mpr signed
  exact ⟨certs, by decide +kernel, returned ▸ run⟩

end Initos.Verify
