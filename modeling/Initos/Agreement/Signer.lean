import Initos.Agreement.Db
import Initos.Verify

/-!
# The two decisions about the signer

Both boot stages accept data that some certificate of `db` signed, the signature
being in a file named after the certificate's key id. The loader asks for the
rsaEncryption OID; the initrd does not, but it drops certificates whose SPKI does not
encode or whose key is empty. The stages agree exactly if each finds a signer that
passes its own filter or neither does.
-/

namespace Initos.Agreement

open Interact Bytes Efi Loader Verify

section

variable (X : Crates) (sigs : String → Option (List UInt8)) (data : List UInt8)

/-- The file for the certificate's key id holds its signature of `data`. -/
def SignedBy (cert : X.Cert) : Prop :=
  ∃ signature, sigs (loaderKeyId X cert) = some signature ∧
    X.Signs ((X.publicKeyBytes cert).getD []) data signature

/-- The certificate passes the loader's filter. -/
def LoaderTakes (cert : X.Cert) : Prop := X.algorithmOid cert = Crates.rsaOid

/-- The certificate passes the initrd's filters. -/
def InitrdTakes (cert : X.Cert) : Prop :=
  (X.spkiToDer cert).toOption ≠ none ∧ (X.publicKeyBytes cert).getD [] ≠ []

/-- A certificate of the slice `der` that passes `takes` signed the data. -/
def Signer (takes : X.Cert → Prop) (der : List UInt8) : Prop :=
  ∃ cert, X.fromDer der = .ok cert ∧ SignedBy X sigs data cert ∧ takes cert

/-! ## The loader -/

/-- The boot partition holds the signature files `sigs` under the names the loader uses
    for a component, and every call on them succeeds. -/
def BootFiles (c : Component) : Rely Uefi := fun _ e =>
  match e with
  | ⟨.loadedImageDevice, r⟩ => r = Except.ok true
  | ⟨.openVolume, r⟩ => r = Except.ok ()
  | ⟨.openFile path, r⟩ => ∀ keyId, path = sigPath c.template keyId →
      match sigs keyId with
      | some _ => r = Except.ok FileType.regular
      | none => ∃ status, r = Except.error status
  | ⟨.fileSize path, r⟩ => ∀ keyId signature, path = sigPath c.template keyId →
      sigs keyId = some signature → r = Except.ok signature.length
  | ⟨.readFile path _, r⟩ => ∀ keyId signature, path = sigPath c.template keyId →
      sigs keyId = some signature → r = Except.ok signature
  | _ => True

/-- Key ids are short and plain, so the signature paths fit the loader's buffer. -/
theorem cstr16Fits_sigPath (c : Component) (spkiDer : List UInt8) :
    X.cstr16Fits 128 (sigPath c.template (X.publicKeyId spkiDer)) = true := by
  have length : (X.publicKeyId spkiDer).toList.length = 16 := by
    rw [Crates.publicKeyId, Text.length_hex, List.length_take, X.sha256_length]
    rfl
  have ascii : ∀ ch ∈ (X.publicKeyId spkiDer).toList, 0 < ch.toNat ∧ ch.toNat < 0x10000 := by
    intro ch member
    have := Text.hex_ascii member
    omega
  have front : ∀ ch ∈ "\\EFI\\BOOT\\".toList, 0 < ch.toNat ∧ ch.toNat < 0x10000 :=
    Text.forall_chars (by decide)
  have back : ∀ ch ∈ c.suffix.toList, 0 < ch.toNat ∧ ch.toNat < 0x10000 := by
    cases c <;> exact Text.forall_chars (by decide)
  refine X.cstr16Fits_of_ucs2 _ _ ?_ fun ch member => ?_
  · rw [Component.sigPath_template, List.length_append, List.length_append, length]
    cases c <;> decide
  · rw [Component.sigPath_template] at member
    rcases List.mem_append.mp member with member | member
    · rcases List.mem_append.mp member with member | member
      · exact front ch member
      · exact ascii ch member
    · exact back ch member

/-- The loader reads the signature file of a key id, where there is one. -/
theorem loadFileToMemory_bootFiles (c : Component) {keyId : String}
    (fitsPath : X.cstr16Fits 128 (sigPath c.template keyId) = true) (h : History Uefi) :
    Prog.wp (BootFiles sigs c)
      (fun _ out => match sigs keyId with
        | some signature => out = .done (.ok signature)
        | none => ∃ status, out = .done (.error status))
      (loadFileToMemory X (sigPath c.template keyId)).run h := by
  rw [loadFileToMemory, openRegular, fitsPath]
  simp only [Bool.not_true, Bool.false_eq_true, if_false, bind_assoc]
  rw [Fallible.wp_call_bind]
  intro device answered
  obtain rfl : device = Except.ok true := answered
  simp only [Fallible.cont_ok, Bool.not_true, Bool.false_eq_true, if_false, bind_assoc]
  rw [Fallible.wp_call_bind]
  intro volume answered
  obtain rfl : volume = Except.ok () := answered
  rw [Fallible.cont_ok, Fallible.wp_call_bind]
  intro file opened
  have opened := opened keyId rfl
  cases stored : sigs keyId with
  | none =>
    simp only [stored] at opened ⊢
    obtain ⟨status, rfl⟩ := opened
    rw [Fallible.cont_error, Prog.wp_pure]
    exact ⟨status, rfl⟩
  | some signature =>
    simp only [stored] at opened ⊢
    subst opened
    rw [Fallible.cont_ok, Fallible.wp_call_bind]
    intro size sized
    obtain rfl := sized keyId signature rfl stored
    rw [Fallible.cont_ok, Fallible.wp_call]
    intro read answered
    obtain rfl := answered keyId signature rfl stored
    rfl

/-- For a slice that decodes, the signer is the certificate it decodes to. -/
theorem signer_iff {takes : X.Cert → Prop} {der : List UInt8} {cert : X.Cert}
    (decoded : X.fromDer der = .ok cert) :
    Signer X sigs data takes der ↔ SignedBy X sigs data cert ∧ takes cert := by
  simp [Signer, decoded]

/-- The visit of an entry accepts exactly if a certificate of the right kind signed. -/
theorem visitCert_bootFiles (c : Component) (t : Tally) (der : List UInt8) (h : History Uefi) :
    Prog.wp (BootFiles sigs c)
      (fun _ out => Flow.Post (Signer X sigs data (LoaderTakes X) der)
        (¬Signer X sigs data (LoaderTakes X) der) False out)
      (visitCert X data c.template t der) h := by
  rw [visitCert]
  cases decoded : X.fromDer der with
  | error e =>
    dsimp only
    rw [Prog.wp_pure]
    rintro ⟨cert, decoded', -⟩
    rw [decoded] at decoded'
    cases decoded'
  | ok cert =>
    have fitsPath : X.cstr16Fits 128 (sigPath c.template (loaderKeyId X cert)) = true :=
      cstr16Fits_sigPath X c _
    simp only [signer_iff X sigs data decoded]
    rw [Prog.wp_bind]
    apply Prog.wp_mono (loadFileToMemory_bootFiles X sigs c fitsPath h)
    intro h' out loaded
    cases stored : sigs (loaderKeyId X cert) with
    | none =>
      simp only [stored] at loaded
      obtain ⟨status, rfl⟩ := loaded
      rw [Prog.andThen_done, Prog.wp_pure]
      simp [Flow.Post, SignedBy, stored]
    | some signature =>
      simp only [stored] at loaded
      subst loaded
      rw [Prog.andThen_done]
      -- the certificate signed exactly if its key verifies the file's content
      have signedBy_iff : SignedBy X sigs data cert ↔
          X.Signs ((X.publicKeyBytes cert).getD []) data signature := by
        simp [SignedBy, stored]
      simp only [signedBy_iff, LoaderTakes]
      by_cases rsa : X.algorithmOid cert = Crates.rsaOid
      · rw [if_pos rsa]
        cases key : X.fromPkcs1Der ((X.publicKeyBytes cert).getD []) with
        | none =>
          dsimp only
          rw [Prog.wp_pure]
          simp [Flow.Post, Crates.Signs, key]
        | some rsaPub =>
          dsimp only
          by_cases verified : X.rsaVerify rsaPub (X.sha256 data) signature = true
          · rw [if_pos verified, Prog.wp_pure]
            exact ⟨⟨rsaPub, key, verified⟩, rsa⟩
          · rw [if_neg verified, Prog.wp_pure]
            simp [Flow.Post, Crates.Signs, key, verified]
      · rw [if_neg rsa, Prog.wp_pure]
        exact fun signed => rsa signed.2

/-- The loader accepts exactly if some certificate it takes has signed. -/
theorem verifyDataSignature_bootFiles (c : Component) {db : List UInt8}
    (addressable : db.length < 2 ^ 63) {slices : List (List UInt8)}
    (walked : loaderSlices X db = pure (.ok (.next slices))) (h : History Uefi) :
    Prog.wp (BootFiles sigs c)
      (fun _ out => out = .done (.ok ()) ↔ ∃ der ∈ slices, Signer X sigs data (LoaderTakes X) der)
      (verifyDataSignature X data db c.template c.label) h := by
  have visits := visitAll_wp (visitCert X data c.template)
    (visitCert_bootFiles X sigs data c) slices {} h
  rw [verifyDataSignature_eq X addressable walked, Prog.wp_bind]
  apply Prog.wp_mono visits
  intro h' out post
  rcases out with flow | stop
  · cases flow with
    | accept =>
      rw [Prog.andThen_done, Prog.wp_pure]
      exact iff_of_true rfl post
    | next t =>
      rw [Prog.andThen_done, Prog.wp_pure]
      apply iff_of_false
      · intro eq
        cases eq
      · intro signer
        obtain ⟨der, member, signed⟩ := signer
        exact post der member signed
  · exact absurd post id

/-! ## The initrd -/

/-- The parsed certificates are those of the slices that parse. -/
theorem mem_foldl_pushParsed {α : Type} (parse : List UInt8 → Except Err α) (x : α)
    (slices : List (List UInt8)) (seen : List α) :
    x ∈ slices.foldl (pushParsed parse) seen ↔
      x ∈ seen ∨ ∃ der ∈ slices, parse der = .ok x := by
  induction slices generalizing seen with
  | nil => simp
  | cons der rest ih =>
    rw [List.foldl_cons, ih, pushParsed]
    cases parsed : parse der with
    | ok cert =>
      simp only [List.mem_append, List.mem_singleton, List.exists_mem_cons_iff, parsed,
        Except.ok.injEq, or_assoc, eq_comm]
    | error e => simp [parsed]

/-- A parsed certificate signs exactly if the certificate it was parsed from does and
    passes the initrd's filters. -/
theorem certSigns_iff_signer (der : List UInt8) :
    (∃ cert, parseX509Cert X der = .ok cert ∧ CertSigns X sigs (X.sha256 data) cert) ↔
      Signer X sigs data (InitrdTakes X) der := by
  unfold parseX509Cert Signer InitrdTakes SignedBy loaderKeyId CertSigns Crates.Signs
  cases decoded : X.fromDer der with
  | error e => simp
  | ok cert =>
    cases spki : X.spkiToDer cert with
    | error e => simp [spki, Except.toOption]
    | ok spkiDer =>
      have keyText : ((X.publicKeyBytes cert).map X.base64Encode).getD "" =
          X.base64Encode ((X.publicKeyBytes cert).getD []) := by
        cases X.publicKeyBytes cert with
        | none => exact ((X.base64Encode_eq_empty_iff []).mpr rfl).symm
        | some bytes => rfl
      simp only [Except.ok.injEq, exists_eq_left', keyText, X.base64Decode_encode,
        spki, Except.toOption, Option.getD_some, ne_eq, reduceCtorEq,
        not_false_eq_true, true_and, X.base64Encode_eq_empty_iff]
      constructor
      · intro signs
        obtain ⟨nonempty, signature, _, rsaPub, stored, rfl, key, verified⟩ := signs
        exact ⟨⟨signature, stored, rsaPub, key, verified⟩, nonempty⟩
      · intro signs
        obtain ⟨⟨signature, stored, rsaPub, key, verified⟩, nonempty⟩ := signs
        exact ⟨nonempty, signature, _, rsaPub, stored, rfl, key, verified⟩

/-- The initrd accepts exactly if some certificate it takes has signed. -/
theorem verifyCerts_imageFiles (img : String) (slices : List (List UInt8)) (h : History Sys) :
    Prog.wp (ImageFiles img sigs)
      (fun _ out => out = .done (.ok true) ↔
        ∃ der ∈ slices, Signer X sigs data (InitrdTakes X) der)
      (verifyCerts X img (X.sha256 data)
        (slices.foldl (pushParsed (parseX509Cert X)) [])).run h := by
  have decodable : ∀ cert ∈ slices.foldl (pushParsed (parseX509Cert X)) [],
      ∃ keyDer, X.base64Decode cert.rsaPublicKeyB64 = .ok keyDer := by
    intro cert member
    rcases (mem_foldl_pushParsed _ _ _ _).mp member with member | ⟨der, -, parsed⟩
    · cases member
    · exact decodable_of_parsed X parsed
  apply Prog.wp_mono (verifyCerts_wp X (X.sha256 data) decodable h)
  intro h' out post
  obtain ⟨b, rfl, b_iff⟩ := post
  have found : (∃ cert ∈ slices.foldl (pushParsed (parseX509Cert X)) [],
      CertSigns X sigs (X.sha256 data) cert) ↔
      ∃ der ∈ slices, Signer X sigs data (InitrdTakes X) der := by
    constructor
    · intro ⟨cert, member, signs⟩
      rcases (mem_foldl_pushParsed _ _ _ _).mp member with member | ⟨der, member, parsed⟩
      · cases member
      · exact ⟨der, member, (certSigns_iff_signer X sigs data der).mp ⟨cert, parsed, signs⟩⟩
    · intro ⟨der, member, signer⟩
      obtain ⟨cert, parsed, signs⟩ := (certSigns_iff_signer X sigs data der).mpr signer
      exact ⟨cert, (mem_foldl_pushParsed _ _ _ _).mpr (.inr ⟨der, member, parsed⟩), signs⟩
  rw [← found, ← b_iff]
  simp

end

/-! ## Agreement -/

/-- For a database both stages accept and signature files both stages can read, the stages
    agree exactly if a signer with the rsaEncryption OID exists just in case a signer with
    an encodable SPKI and a non-empty key does. -/
theorem stages_agree_on_signer_iff (X : Crates) (sigs : String → Option (List UInt8))
    (data : List UInt8) (c : Component) (img : String) {db : List UInt8}
    (addressable : db.length < 2 ^ 63) {slices : List (List UInt8)}
    (walked : loaderSlices X db = pure (.ok (.next slices))) {certs : List EfiCert}
    (parses : parseEsl X db = some (.ok certs)) {tr₁ : History Uefi}
    {out₁ : Outcome Uefi (Except VerifyError Unit)}
    (loader : Runs (verifyDataSignature X data db c.template c.label) tr₁ out₁)
    (bootFiles : Admits (BootFiles sigs c) [] tr₁) {tr₂ : History Sys}
    {out₂ : Outcome Sys (Except Err Bool)}
    (initrd : Runs (verifyCerts X img (X.sha256 data) certs).run tr₂ out₂)
    (imageFiles : Admits (ImageFiles img sigs) [] tr₂) :
    (out₁ = .done (.ok ()) ↔ out₂ = .done (.ok true)) ↔
      ((∃ der ∈ slices, Signer X sigs data (LoaderTakes X) der) ↔
        ∃ der ∈ slices, Signer X sigs data (InitrdTakes X) der) := by
  have loaderDecides := (Prog.wp_iff_runs _ _ _ _).mp
    (verifyDataSignature_bootFiles X sigs data c addressable walked []) _ _ loader bootFiles
  rw [parseEsl_eq_of_loaderSlices X addressable walked parses] at initrd
  have initrdDecides := (Prog.wp_iff_runs _ _ _ _).mp
    (verifyCerts_imageFiles X sigs data img slices []) _ _ initrd imageFiles
  rw [loaderDecides, initrdDecides]

/-- A boot partition on which every file holds `content`. -/
def uniformFiles (content : List UInt8) : (c : UefiCmd) → c.Resp
  | .loadedImageDevice => .ok true
  | .openVolume => .ok ()
  | .openFile _ => .ok .regular
  | .fileSize _ => .ok content.length
  | .readFile _ _ => .ok content
  | c => c.fail .notFound

/-- A system on which every file holds `content`. -/
def uniformImages (content : List UInt8) : (c : SysCmd) → c.Resp
  | .readFile _ => .ok content
  | c => c.fail (.io .notFound "")

theorem bootFiles_uniform (content : List UInt8) (comp : Component) (h : History Uefi)
    (c : UefiCmd) : BootFiles (fun _ => some content) comp h ⟨c, uniformFiles content c⟩ := by
  cases c with
  | openFile path => intro keyId _; rfl
  | fileSize path =>
    intro keyId signature _ stored
    cases stored
    rfl
  | readFile path len =>
    intro keyId signature _ stored
    cases stored
    rfl
  | _ => first | rfl | trivial

theorem imageFiles_uniform (content : List UInt8) (img : String) (h : History Sys) (c : SysCmd) :
    ImageFiles img (fun _ => some content) h ⟨c, uniformImages content c⟩ := by
  cases c with
  | readFile path => intro keyId _; rfl
  | _ => trivial

/-- The certificates of `sampleDb 45 cert`. -/
def sampleCerts (cert : UInt8) : List EfiCert := pushParsed (parseX509Cert sampleCrates) [] [cert]

/-- The two stages on `sampleDb 45 cert`, every signature file being the certificate's byte. -/
def sampleLoader (cert : UInt8) : Prog Uefi (Except VerifyError Unit) :=
  verifyDataSignature sampleCrates [] (sampleDb 45 cert) Component.config.template
    Component.config.label

/-- The check of the initrd in the examples, with the certificates of a `db`. -/
def sampleInitrd (cert : UInt8) : Prog Sys (Except Err Bool) :=
  (verifyCerts sampleCrates "/z/img/root.erofs" (sampleCrates.sha256 []) (sampleCerts cert)).run

theorem sampleLoader_rsa :
    ((sampleLoader 1).exec (fun _ => uniformFiles [1]) []).2 = .done (.ok ()) := by
  rw [sampleLoader, verifyDataSignature_eq sampleCrates (by decide) loaderSlices_sampleDb]
  rfl

theorem stages_agree_on_signer_iff_sample :
    (∃ der ∈ [[(1 : UInt8)]], Signer sampleCrates (fun _ => some [1]) [] (LoaderTakes _) der) ↔
      ∃ der ∈ [[(1 : UInt8)]], Signer sampleCrates (fun _ => some [1]) [] (InitrdTakes _) der := by
  have loader := Prog.runs_exec (fun _ => uniformFiles [1]) (sampleLoader 1) []
  have bootFiles := Prog.admits_exec (bootFiles_uniform [1] .config) (sampleLoader 1) []
  have initrd := Prog.runs_exec (fun _ => uniformImages [1]) (sampleInitrd 1) []
  have imageFiles := Prog.admits_exec (imageFiles_uniform [1] "/z/img/root.erofs")
    (sampleInitrd 1) []
  have parses : parseEsl sampleCrates (sampleDb 45 1) = some (.ok (sampleCerts 1)) := by
    decide +kernel
  apply (stages_agree_on_signer_iff sampleCrates (fun _ => some [1]) [] .config
    "/z/img/root.erofs" (by decide) loaderSlices_sampleDb parses loader bootFiles initrd
    imageFiles).mp
  exact iff_of_true sampleLoader_rsa rfl

/-- A certificate with the RSASSA-PSS OID: the loader refuses what the initrd accepts. -/
theorem stages_split_on_pss_signer :
    ∃ tr₁ tr₂, loaderSlices sampleCrates (sampleDb 45 2) = pure (.ok (.next [[2]])) ∧
      parseEsl sampleCrates (sampleDb 45 2) = some (.ok (sampleCerts 2)) ∧
      Runs (sampleLoader 2) tr₁ (.done (.error (.unsupported "config" 1 1))) ∧
      Admits (BootFiles (fun _ => some [2]) .config) [] tr₁ ∧
      Runs (sampleInitrd 2) tr₂ (.done (.ok true)) ∧
      Admits (ImageFiles "/z/img/root.erofs" fun _ => some [2]) [] tr₂ := by
  have walked : loaderSlices sampleCrates (sampleDb 45 2) = pure (.ok (.next [[2]])) :=
    loaderSlices_of_dbWalk (by decide) (by decide +kernel)
  have refused : ((sampleLoader 2).exec (fun _ => uniformFiles [2]) []).2 =
      .done (.error (.unsupported "config" 1 1)) := by
    rw [sampleLoader, verifyDataSignature_eq sampleCrates (by decide) walked]
    rfl
  have loader := Prog.runs_exec (fun _ => uniformFiles [2]) (sampleLoader 2) []
  have initrd := Prog.runs_exec (fun _ => uniformImages [2]) (sampleInitrd 2) []
  rw [refused] at loader
  exact ⟨_, _, walked, by decide +kernel, loader,
    Prog.admits_exec (bootFiles_uniform [2] .config) _ _, initrd,
    Prog.admits_exec (imageFiles_uniform [2] "/z/img/root.erofs") _ _⟩

end Initos.Agreement
