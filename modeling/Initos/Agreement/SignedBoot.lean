import Initos.Agreement.Key
import Initos.Agreement.Served
import Initos.Agreement.SignatureName
import Initos.Sidecar.Signing

/-!
# What `sign.sh` signs is accepted

The signing script and the two boot stages never meet: they agree on names, formats and the key.
If the script has built a boot partition with a key whose certificate is enrolled in `db`, the
loader on firmware that serves it enters the kernel that was signed, with the initrd and the
command line that were signed. If it has signed an image, the initrd accepts the image.
-/

namespace Initos.Agreement

open Interact Bytes Efi Loader Sidecar

variable {X : Crates} {T : Tools} {E : Surroundings}

/-! ## The key -/

/-- The signing key belongs to the certificate, which is in PEM form beside the key and in DER form
    in the database. -/
structure Certifies (X : Crates) (T : Tools) (key crt : List UInt8) (cert : X.Cert) : Prop where
  spki : ∃ spkiDer, X.spkiToDer cert = .ok spkiDer ∧ T.pubkeyDer crt = some spkiDer
  rsa : X.algorithmOid cert = Crates.rsaOid
  keyThere : (X.publicKeyBytes cert).getD [] ≠ []
  signs : ∀ data signature, T.dgstSign key data = some signature →
    X.Signs ((X.publicKeyBytes cert).getD []) data signature

/-- Two digits stand for a byte. -/
theorem take_hex (b : List UInt8) (n : Nat) :
    (Text.hex b).toList.take (2 * n) = (Text.hex (b.take n)).toList := by
  conv_lhs => rw [← List.take_append_drop n b, Text.hex_append]
  by_cases short : n ≤ b.length
  · have length : (Text.hex (b.take n)).toList.length = 2 * n := by
      rw [Text.length_hex, List.length_take, Nat.min_eq_left short]
    exact List.take_left' length
  · have all : b.drop n = [] := List.drop_eq_nil_of_le (by omega)
    have length : (Text.hex (b.take n)).toList.length ≤ 2 * n := by
      rw [Text.length_hex, List.length_take]
      omega
    rw [all, show (Text.hex []).toList = [] from rfl, List.append_nil]
    exact List.take_of_length_le length

/-- The script and the loader give the certificate the same key id. -/
theorem Certifies.dbKeyId {key crt : List UInt8} {cert : X.Cert}
    (certifies : Certifies X T key crt cert) : dbKeyId X T crt = some (loaderKeyId X cert) := by
  obtain ⟨spkiDer, encoded, printed⟩ := certifies.spki
  have cut := take_hex (X.sha256 spkiDer) 8
  rw [Sidecar.dbKeyId, printed, Option.map_some, cut, loaderKeyId, encoded, String.ofList_toList]
  rfl

/-- A key id has 16 digits. -/
theorem length_loaderKeyId (cert : X.Cert) : (loaderKeyId X cert).toList.length = 16 := by
  rw [loaderKeyId, Crates.publicKeyId, Text.length_hex, List.length_take, X.sha256_length]
  rfl

/-! ## Names on the partition -/

theorem fatName_append (a b : String) : fatName (a ++ b) = fatName a ++ fatName b := by
  rw [fatName, String.toList_append, List.map_append, fatName, fatName]

theorem length_fatName (path : String) : (fatName path).length = path.toList.length := by
  rw [fatName, List.length_map]

/-- The file under a name in the order of a directory. -/
def fatFind (stage : Stage) (name : List Char) : Option (List UInt8) :=
  (stage.find? fun f => fatName ("/" ++ f.1) = name).map Prod.snd

theorem fatFind_cons (stage : Stage) (path : String) (data : List UInt8) (name : List Char) :
    fatFind ((path, data) :: stage) name =
      if fatName ("/" ++ path) = name then some data else fatFind stage name := by
  rw [fatFind, List.find?_cons]
  by_cases same : fatName ("/" ++ path) = name
  · simp [same]
  · simp [same, fatFind]

/-- Where the script puts the signature of a component. -/
def stagedSignature (c : Component) (keyId : String) : String :=
  "EFI/BOOT/" ++ keyId ++ c.suffix

/-- The loader looks for the signature where the script has put it. -/
theorem fatName_sigPath (c : Component) (keyId : String) :
    fatName (sigPath c.template keyId) = fatName ("/" ++ stagedSignature c keyId) := by
  rw [fatName, Component.sigPath_template, fatName, stagedSignature]
  simp only [String.toList_append, List.map_append, ← List.append_assoc]
  rfl

/-- A signature is none of the files with fixed names. -/
theorem fatName_signature_ne {c : Component} {keyId path : String}
    (length : keyId.toList.length = 16) (short : path.toList.length < 29) :
    fatName ("/" ++ stagedSignature c keyId) ≠ fatName ("/" ++ path) := by
  intro same
  have lengths := congrArg List.length same
  have front : "EFI/BOOT/".toList.length = 9 := rfl
  have suffix : 4 ≤ c.suffix.toList.length := by cases c <;> decide
  simp only [length_fatName, stagedSignature, String.toList_append, List.length_append, length,
    front] at lengths
  omega

/-- The signature files of different components have different names. -/
theorem fatName_signature_inj {c c' : Component} {keyId : String}
    (same : fatName ("/" ++ stagedSignature c keyId) =
      fatName ("/" ++ stagedSignature c' keyId)) : c = c' := by
  rw [stagedSignature, stagedSignature, fatName_append "/", fatName_append "/",
    List.append_cancel_left_eq, fatName_append _ c.suffix, fatName_append _ c'.suffix,
    List.append_cancel_left_eq] at same
  revert same
  cases c <;> cases c' <;> decide

/-- The names that the loader asks for. -/
def InEfi (name : List Char) : Prop := name.take 2 = ['/', 'E']

/-- The public keys are in a directory of their own. -/
theorem fatName_keys_ne {f : String} {name : List Char} (inEfi : InEfi name) :
    fatName ("/" ++ ("keys/" ++ f)) ≠ name := by
  rintro rfl
  rw [InEfi, fatName_append, fatName_append] at inEfi
  exact absurd inEfi (by simp [fatName])

/-! ## The partition -/

theorem ok_of_bind {ε α β : Type} {x : Except ε α} {f : α → Except ε β} {b : β}
    (returns : x >>= f = .ok b) : ∃ a, x = .ok a ∧ f a = .ok b := by
  cases x with
  | error e => cases returns
  | ok a => exact ⟨a, rfl, returns⟩

theorem ok_of_command {α : Type} {name : String} {o : Option α} {a : α}
    (returns : command name o = .ok a) : o = some a := by
  cases o with
  | none => cases returns
  | some b =>
    cases returns
    rfl

/-- The public keys lie in a directory of their own. -/
theorem fatFind_copyUefiPublicKeys {stage stage' : Stage} {secDir : String} {name : List Char}
    (copied : copyUefiPublicKeys E stage secDir = .ok stage') (inEfi : InEfi name) :
    fatFind stage' name = fatFind stage name := by
  have required (keys : List String) (stage stage' : Stage)
      (copied : keys.foldlM (copyRequired E secDir) stage = .ok stage') :
      fatFind stage' name = fatFind stage name := by
    induction keys generalizing stage with
    | nil =>
      cases copied
      rfl
    | cons f keys ih =>
      rw [List.foldlM_cons] at copied
      obtain ⟨next, first, rest⟩ := ok_of_bind copied
      rw [ih next rest]
      rw [copyRequired] at first
      split at first
      · cases first
        exact (fatFind_cons ..).trans (if_neg (fatName_keys_ne inEfi))
      · cases first
  have optional (keys : List String) (stage : Stage) :
      fatFind (keys.foldl (copyOptional E secDir) stage) name = fatFind stage name := by
    induction keys generalizing stage with
    | nil => rfl
    | cons f keys ih =>
      rw [List.foldl_cons, ih, copyOptional]
      split
      · exact (fatFind_cons ..).trans (if_neg (fatName_keys_ne inEfi))
      · rfl
  rw [copyUefiPublicKeys] at copied
  split at copied
  · cases copied
    rfl
  · obtain ⟨stage₁, first, rest⟩ := ok_of_bind copied
    cases rest
    rw [optional, required _ _ _ first]

/-- What a component holds on the partition. -/
def content (config kernel initrd : List UInt8) : Component → List UInt8
  | .config => config
  | .kernel => kernel
  | .initrd => initrd

/-- A partition that was built holds the kernel and the initrd that the script has found, the
    command line, and a signature of each. -/
structure Holds (T : Tools) (key : List UInt8) (keyId : String) (config kernel initrd : List UInt8)
    (image : FatImage) : Prop where
  configStored : image.find "\\EFI\\BOOT\\config" = some config
  kernelStored : image.find "\\EFI\\BOOT\\BZIMAGE" = some kernel
  initrdStored : image.find "\\EFI\\BOOT\\INITRD.IMG" = some initrd
  signed : ∀ c, ∃ signature, image.find (sigPath c.template keyId) = some signature ∧
    T.dgstSign key (content config kernel initrd c) = some signature

section

variable {stage : Stage} {path path' src : String} {data : List UInt8}

theorem read_write_same : (stage.write path data).read path = some data := by
  simp [Stage.read, Stage.write]

theorem read_write_other (other : path ≠ path') :
    (stage.write path data).read path' = stage.read path' := by
  simp [Stage.read, Stage.write, other]

/-- A copy leaves the other files alone. -/
theorem read_safeCp_other (other : path ≠ path') :
    (safeCp E stage src path).read path' = stage.read path' := by
  rw [safeCp]
  split
  · rfl
  · split
    · exact read_write_other other
    · rfl

/-- A file that is staged was copied. -/
theorem safeCp_eq_write (fresh : stage.read path = none)
    (staged : (safeCp E stage src path).read path = some data) :
    safeCp E stage src path = stage.write path data ∧ E.files src = some data := by
  rw [safeCp] at staged ⊢
  split at staged
  · rw [fresh] at staged
    cases staged
  · split at staged
    next found =>
      rw [read_write_same] at staged
      cases staged
      exact ⟨by simp [*], found⟩
    next =>
      rw [fresh] at staged
      cases staged

end

/-- What a successful signing has read and written. -/
theorem ok_of_signStaged {stage stage' : Stage} {key : List UInt8} {path signaturePath : String}
    (signed : signStaged T stage key path signaturePath = .ok stage') :
    ∃ data signature, stage.read path = some data ∧ T.dgstSign key data = some signature ∧
      stage' = stage.write signaturePath signature := by
  obtain ⟨data, found, rest⟩ := ok_of_bind signed
  obtain ⟨signature, made, rest⟩ := ok_of_bind rest
  cases rest
  exact ⟨data, signature, ok_of_command found, ok_of_command made, rfl⟩

/-- A signature is staged apart from the files with fixed names. -/
theorem stagedSignature_ne {c : Component} {keyId path : String}
    (length : keyId.toList.length = 16) (short : path.toList.length < 29) :
    stagedSignature c keyId ≠ path := by
  rintro rfl
  exact fatName_signature_ne length short rfl

/-- The contents of the partition, the latest first. -/
theorem files_of_built {artifactDir secDir : String} {image : FatImage} {key crt : List UInt8}
    {cert : X.Cert} (built : buildBootInitosSigned X T E artifactDir secDir = .ok image)
    (keyStored : E.files s!"{secDir}/db.key" = some key)
    (crtStored : E.files s!"{secDir}/db.crt" = some crt)
    (certifies : Certifies X T key crt cert) :
    let config := Text.asBytes (orDefault E.initosCmdline defaultCmdline ++ "\n")
    ∃ kernel initrd efi signed, ∃ sigs : Component → List UInt8, ∃ stage : Stage,
      E.files (resolvePath E artifactDir "EFI/BOOT/bzImage") = some kernel ∧
      E.files (resolvePath E artifactDir "EFI/BOOT/initrd.img") = some initrd ∧
      (∀ c, T.dgstSign key (content config kernel initrd c) = some (sigs c)) ∧
      stage = [(stagedSignature .initrd (loaderKeyId X cert), sigs .initrd),
        (stagedSignature .kernel (loaderKeyId X cert), sigs .kernel),
        (stagedSignature .config (loaderKeyId X cert), sigs .config),
        ("EFI/BOOT/BOOTX64.EFI", signed), ("EFI/BOOT/config", config),
        ("EFI/BOOT/initos.EFI", efi), ("EFI/BOOT/initrd.img", initrd),
        ("EFI/BOOT/bzImage", kernel)] ∧
      copyUefiPublicKeys E stage secDir = .ok image.files := by
  intro config
  have length := length_loaderKeyId cert
  obtain ⟨efi, efiStaged, built⟩ := ok_of_bind built
  obtain ⟨key', found, built⟩ := ok_of_bind built
  obtain rfl : key = key' := Option.some.inj (keyStored.symm.trans (ok_of_command found))
  obtain ⟨crt', found, built⟩ := ok_of_bind built
  obtain rfl : crt = crt' := Option.some.inj (crtStored.symm.trans (ok_of_command found))
  obtain ⟨signed, -, built⟩ := ok_of_bind built
  obtain ⟨keyId, named, built⟩ := ok_of_bind built
  obtain rfl : loaderKeyId X cert = keyId :=
    Option.some.inj (certifies.dbKeyId.symm.trans (ok_of_command named))
  obtain ⟨stage₁, first, built⟩ := ok_of_bind built
  have first : signStaged T _ key _ (stagedSignature .config (loaderKeyId X cert)) = .ok stage₁ :=
    first
  obtain ⟨data₁, sig₁, read₁, made₁, rfl⟩ := ok_of_signStaged first
  obtain ⟨stage₂, second, built⟩ := ok_of_bind built
  have second : signStaged T _ key _ (stagedSignature .kernel (loaderKeyId X cert)) = .ok stage₂ :=
    second
  obtain ⟨data₂, sig₂, read₂, made₂, rfl⟩ := ok_of_signStaged second
  obtain ⟨stage₃, third, built⟩ := ok_of_bind built
  have third : signStaged T _ key _ (stagedSignature .initrd (loaderKeyId X cert)) = .ok stage₃ :=
    third
  obtain ⟨data₃, sig₃, read₃, made₃, rfl⟩ := ok_of_signStaged third
  obtain ⟨stage₄, copied, built⟩ := ok_of_bind built
  have isImage : stage₄ = image.files := by
    rw [buildFatImage] at built
    split at built
    · cases built
      rfl
    · cases built
  subst isImage
  -- the first signature is of the command line
  rw [read_write_other (by decide), read_write_same] at read₁
  obtain rfl := Option.some.inj read₁
  -- the second is of the kernel, which was therefore copied
  have apart (c : Component) {path : String} (short : path.toList.length < 29) :
      stagedSignature c (loaderKeyId X cert) ≠ path := stagedSignature_ne length short
  rw [read_write_other (apart .config (by decide)), read_write_other (by decide),
    read_write_other (by decide), read_safeCp_other (by decide), read_safeCp_other (by decide)]
    at read₂
  obtain ⟨kernelWritten, kernelStored⟩ := safeCp_eq_write rfl read₂
  -- and the third of the initrd
  rw [read_write_other (apart .kernel (by decide)), read_write_other (apart .config (by decide)),
    read_write_other (by decide), read_write_other (by decide), read_safeCp_other (by decide),
    kernelWritten] at read₃
  obtain ⟨initrdWritten, initrdStored⟩ := safeCp_eq_write rfl read₃
  have efiStaged := ok_of_command efiStaged
  rw [read_write_other (by decide), kernelWritten, initrdWritten] at efiStaged
  obtain ⟨efiWritten, -⟩ := safeCp_eq_write rfl efiStaged
  rw [kernelWritten, initrdWritten, efiWritten] at copied
  refine ⟨data₂, data₃, efi, signed, content sig₁ sig₂ sig₃, _,
    kernelStored, initrdStored, ?_, rfl, copied⟩
  intro c
  cases c with
  | config => exact made₁
  | kernel => exact made₂
  | initrd => exact made₃

/-- The partition that was built holds the files, each with its signature. -/
theorem holds_of_built {artifactDir secDir : String} {image : FatImage}
    {key crt kernel initrd : List UInt8} {cert : X.Cert}
    (built : buildBootInitosSigned X T E artifactDir secDir = .ok image)
    (keyStored : E.files s!"{secDir}/db.key" = some key)
    (crtStored : E.files s!"{secDir}/db.crt" = some crt)
    (certifies : Certifies X T key crt cert)
    (kernelFound : E.files (resolvePath E artifactDir "EFI/BOOT/bzImage") = some kernel)
    (initrdFound : E.files (resolvePath E artifactDir "EFI/BOOT/initrd.img") = some initrd) :
    Holds T key (loaderKeyId X cert)
      (Text.asBytes (orDefault E.initosCmdline defaultCmdline ++ "\n")) kernel initrd image := by
  obtain ⟨kernel', initrd', efi, signed, sigs, stage, kernelStored, initrdStored, made,
    isStage, copied⟩ := files_of_built built keyStored crtStored certifies
  obtain rfl := Option.some.inj (kernelFound.symm.trans kernelStored)
  obtain rfl := Option.some.inj (initrdFound.symm.trans initrdStored)
  have length := length_loaderKeyId cert
  have ne (c : Component) {path : String} (short : path.toList.length < 29) :
      fatName ("/" ++ stagedSignature c (loaderKeyId X cert)) ≠ fatName ("/" ++ path) :=
    fatName_signature_ne length short
  -- a file is found under a path that is its name up to case
  have find {path : String} (fixed : String) (same : fatName path = fatName ("/" ++ fixed))
      (inEfi : InEfi (fatName ("/" ++ fixed))) :
      image.find path = fatFind stage (fatName ("/" ++ fixed)) := by
    rw [← fatFind_copyUefiPublicKeys copied inEfi, ← same]
    rfl
  refine ⟨?_, ?_, ?_, fun c => ⟨sigs c, ?_, made c⟩⟩
  · rw [find "EFI/BOOT/config" (by decide) rfl, isStage]
    simp only [fatFind_cons]
    rw [if_neg (ne _ (by decide)), if_neg (ne _ (by decide)), if_neg (ne _ (by decide)),
      if_neg (by decide), if_pos trivial]
  · rw [find "EFI/BOOT/bzImage" (by decide) rfl, isStage]
    simp only [fatFind_cons]
    rw [if_neg (ne _ (by decide)), if_neg (ne _ (by decide)), if_neg (ne _ (by decide)),
      if_neg (by decide), if_neg (by decide), if_neg (by decide), if_neg (by decide),
      if_pos trivial]
  · rw [find "EFI/BOOT/initrd.img" (by decide) rfl, isStage]
    simp only [fatFind_cons]
    rw [if_neg (ne _ (by decide)), if_neg (ne _ (by decide)), if_neg (ne _ (by decide)),
      if_neg (by decide), if_neg (by decide), if_neg (by decide), if_pos trivial]
  · have inEfi : InEfi (fatName ("/" ++ stagedSignature c (loaderKeyId X cert))) := by
      rw [InEfi, stagedSignature, String.append_assoc, fatName_append, fatName_append]
      rfl
    rw [find _ (fatName_sigPath c _) inEfi, isStage]
    simp only [fatFind_cons]
    have other (c' : Component) (differ : c' ≠ c) :
        fatName ("/" ++ stagedSignature c' (loaderKeyId X cert)) ≠
          fatName ("/" ++ stagedSignature c (loaderKeyId X cert)) :=
      mt fatName_signature_inj differ
    cases c with
    | initrd => rw [if_pos rfl]
    | kernel => rw [if_neg (other .initrd (by decide)), if_pos rfl]
    | config =>
      rw [if_neg (other .initrd (by decide)), if_neg (other .kernel (by decide)), if_pos rfl]

/-! ## The command line -/

/-- The first line ends at the first line feed. -/
theorem lineList_append {acc cs rest : List Char} (oneLine : '\n' ∉ cs) :
    Text.lineList acc (cs ++ '\n' :: rest) =
      Text.stripCr (acc ++ cs) :: Text.lineList [] rest := by
  induction cs generalizing acc with
  | nil => rw [List.nil_append, Text.lineList, if_pos rfl, List.append_nil]
  | cons c cs ih =>
    obtain ⟨first, oneLine⟩ := not_or.mp (mt List.mem_cons.mpr oneLine)
    rw [List.cons_append, Text.lineList, if_neg (Ne.symm first), ih oneLine, List.append_assoc]
    rfl

/-- The loader takes the command line that the script has printed. -/
theorem cmdlineOf_printed {cmdline : String} (plain : Plain cmdline) :
    cmdlineOf (Text.asBytes (cmdline ++ "\n")) = cmdline := by
  have kept : Text.stripCr cmdline.toList = cmdline.toList := by
    refine if_neg fun last => ?_
    exact absurd (plain.last '\r' last) (by decide)
  have first : (Text.lines (cmdline ++ "\n")).head?.getD "" = cmdline := by
    rw [Text.lines, String.toList_append, show "\n".toList = ['\n'] from rfl,
      lineList_append plain.oneLine, List.nil_append, kept, List.map_cons, List.head?_cons,
      Option.getD_some, String.ofList_toList]
  rw [cmdlineOf, Text.fromUtf8Lossy_asBytes, first, plain.trim_eq]

/-! ## The loader -/

/-- The certificate is enrolled: Secure Boot is on, and the loader's walk of `db`, which fits the
    loader's buffer, comes to it. -/
structure Enrolled (X : Crates) (vars : String → Vendor → Option (List UInt8)) (cert : X.Cert) :
    Prop where
  secureBoot : vars "SecureBoot" globalVariable = some [1]
  db : ∃ db, vars "db" imageSecurityDb = some db ∧ db.length ≤ 4096 ∧
    ∃ der ∈ (dbWalk db 0).1, X.fromDer der = .ok cert

/-- Firmware with these files and variables, that starts with memory of zeros and gives pages from
    address 0 on, up to 1 GiB, where its pool begins. -/
def plainFirmware (files : String → Option (List UInt8))
    (vars : String → Vendor → Option (List UInt8)) (h : History Uefi) : (c : UefiCmd) → c.Resp
  | .loadedImageDevice => .ok true
  | .openVolume => .ok ()
  | .openFile path => if (files path).isSome then .ok .regular else .error .notFound
  | .fileSize path => ((files path).map List.length).elim (.error .notFound) .ok
  | .readFile path _ => (files path).elim (.error .notFound) .ok
  | .readFileTo path _ len =>
    (files path).elim ⟨[], some .notFound⟩ fun c => ⟨c.take len, none⟩
  | .allocatePages maxAddress pages =>
    if pageBytes h + pages * 4096 ≤ min maxAddress 0x40000000 then .ok (pageBytes h)
    else .error .notFound
  | .allocatePool _ => .ok 0x40000000
  | .zero _ _ => ()
  | .copyTo _ _ => ()
  | .readMemory addr len => (Memory.after (fun _ => 0) h).read addr len
  | .getVariable name vendor bufSize =>
    match vars name vendor with
    | some data => if data.length ≤ bufSize then .ok data else .error .notFound
    | none => .error .notFound

/-- Its pages follow one another, below its pool. -/
structure Consecutive (h : History Uefi) : Prop where
  below : ∀ range ∈ allocated h, range.1 + range.2 ≤ pageBytes h
  aligned : pageBytes h % 4096 = 0
  small : pageBytes h ≤ 0x40000000
  pooled : ∀ pool ∈ pools h, pool = 0x40000000

section

variable (files : String → Option (List UInt8)) (vars : String → Vendor → Option (List UInt8))

/-- The firmware of the example allocates one range behind the other. -/
theorem consecutive_plainFirmware (h : History Uefi) (c : UefiCmd) (inv : Consecutive h) :
    Consecutive (h ++ [⟨c, plainFirmware files vars h c⟩]) := by
  have same (other : allocated [⟨c, plainFirmware files vars h c⟩] = [])
      (pooled : ∀ pool ∈ pools [⟨c, plainFirmware files vars h c⟩], pool = 0x40000000) :
      Consecutive (h ++ [⟨c, plainFirmware files vars h c⟩]) := by
    have pages : allocated (h ++ [⟨c, plainFirmware files vars h c⟩]) = allocated h := by
      rw [allocated_append, other, List.append_nil]
    have bytes : pageBytes (h ++ [⟨c, plainFirmware files vars h c⟩]) = pageBytes h := by
      rw [pageBytes, pages, pageBytes]
    refine ⟨by rw [pages, bytes]; exact inv.below, by rw [bytes]; exact inv.aligned,
      by rw [bytes]; exact inv.small, fun pool member => ?_⟩
    rw [pools_append] at member
    exact (List.mem_append.mp member).elim (inv.pooled pool) (pooled pool)
  cases c with
  | allocatePages maxAddress pages =>
    by_cases room : pageBytes h + pages * 4096 ≤ min maxAddress 0x40000000
    · have answer : plainFirmware files vars h (.allocatePages maxAddress pages) =
          .ok (pageBytes h) := if_pos room
      rw [answer]
      have pages_eq := allocated_snoc_pages h maxAddress pages (pageBytes h)
      have bytes : pageBytes (h ++ [⟨.allocatePages maxAddress pages, .ok (pageBytes h)⟩]) =
          pageBytes h + pages * 4096 := by
        rw [pageBytes, pages_eq, List.map_append, List.sum_append, List.map_singleton,
          List.sum_singleton, pageBytes]
      refine ⟨fun range member => ?_, ?_, ?_, ?_⟩
      · rw [bytes]
        rw [pages_eq] at member
        rcases List.mem_append.mp member with earlier | new
        · have := inv.below range earlier
          omega
        · obtain rfl := List.mem_singleton.mp new
          exact Nat.le_refl _
      · have := inv.aligned
        omega
      · omega
      · rw [pools_snoc _ rfl]
        exact inv.pooled
    · have answer : plainFirmware files vars h (.allocatePages maxAddress pages) =
          .error .notFound := if_neg room
      rw [answer] at same ⊢
      exact same rfl (by simp [pools])
  | allocatePool len => 
    refine same rfl fun pool member => ?_
    change pool ∈ [0x40000000] at member
    exact List.mem_singleton.mp member
  | _ => exact same rfl (by simp [pools])

/-- It serves the loader. -/
theorem serves_plainFirmware (h : History Uefi) (c : UefiCmd) (inv : Consecutive h) :
    Serves (fun _ => 0) files vars 0x40000000 h ⟨c, plainFirmware files vars h c⟩ := by
  cases c with
  | loadedImageDevice => exact ⟨trivial, trivial, rfl⟩
  | openVolume => exact ⟨trivial, trivial, rfl⟩
  | openFile path =>
    refine ⟨trivial, trivial, ?_⟩
    cases stored : files path with
    | none => simp [Answers, stored, plainFirmware]
    | some c => simp [Answers, stored, plainFirmware]
  | fileSize path =>
    refine ⟨fun size read => ?_, trivial, fun c stored => by simp [plainFirmware, stored]⟩
    cases stored : files path with
    | none => simp [plainFirmware, stored] at read
    | some c => exact ⟨c, rfl, by simpa [plainFirmware, stored] using read.symm⟩
  | readFile path len =>
    refine ⟨fun data read => ?_, trivial, fun c stored => by simp [plainFirmware, stored]⟩
    cases stored : files path with
    | none => simp [plainFirmware, stored] at read
    | some c => exact ⟨c, rfl, fun _ => by simpa [plainFirmware, stored] using read.symm⟩
  | readFileTo path addr len =>
    refine ⟨?_, trivial, fun c stored whole => ?_⟩
    · change (ReadTo.written _).length ≤ len
      cases stored : files path with
      | none => simp [plainFirmware, stored]
      | some c =>
        simp only [plainFirmware, stored, Option.elim_some]
        exact List.length_take_le len c
    · simp [plainFirmware, stored, whole]
  | allocatePages maxAddress pages =>
    refine ⟨fun addr given range member => ?_, fun addr given => ?_, fun _ room low => ?_⟩
    · simp only [plainFirmware] at given
      split at given
      · cases given
        exact .inr (inv.below range member)
      · cases given
    · simp only [plainFirmware] at given
      split at given
      · cases given
        exact ⟨inv.aligned, by omega⟩
      · cases given
    · exact ⟨pageBytes h, if_pos (by omega)⟩
  | allocatePool len =>
    refine ⟨trivial, fun addr given range member => ?_, ⟨_, rfl⟩⟩
    cases given
    have := inv.below range member
    have := inv.small
    right
    simp only
    omega
  | zero addr len => exact ⟨trivial, trivial, trivial⟩
  | copyTo addr src => exact ⟨trivial, trivial, trivial⟩
  | readMemory addr len => exact ⟨rfl, trivial, trivial⟩
  | getVariable name vendor bufSize =>
    refine ⟨fun data read => ?_, trivial, fun data stored fits => ?_⟩
    · simp only [plainFirmware] at read
      split at read
      next stored =>
        split at read
        next fits =>
          cases read
          exact ⟨stored, fits⟩
        next => cases read
      next => cases read
    · simp [plainFirmware, stored, fits]

end

/-- Tools under which a signature is the key itself. -/
def sampleTools : Tools where
  pubkeyDer := some
  dgstSign key _ := some key
  pkeyutlSign key _ := some key
  sbsign _ _ image := some image
  fsverityDigest := some
  generateKeys := none
  diskUsage _ := 0
  fatTakes _ _ := true

/-- The artifacts of a Nix build under `/a`, with the key under `/s`. -/
def sampleSurroundings : Surroundings where
  files path :=
    if path = "/a/EFI/BOOT/bzImage" then some (sampleKernel.read 0 0x268)
    else if path ∈ ["/s/db.key", "/s/db.crt", "/a/EFI/BOOT/initrd.img", "/a/EFI/BOOT/initos.EFI"]
    then some [1]
    else none
  baseDir := "/b"
  secrets := "/s"
  initosCmdline := some "quiet"
  nixBuildTop := some "/b"
  signingKeysRequired := none

/-- The variables of a firmware with secure boot and one certificate in `db`. -/
def sampleVariables (name : String) (vendor : Vendor) : Option (List UInt8) :=
  if name = "SecureBoot" ∧ vendor = globalVariable then some [1]
  else if name = "db" ∧ vendor = imageSecurityDb then some (sampleDb 45 1)
  else none

theorem certifies_sample : Certifies sampleCrates sampleTools [1] [1] [1] where
  spki := ⟨[1], rfl, rfl⟩
  rsa := rfl
  keyThere := by decide
  signs data signature made := by
    obtain rfl := Option.some.inj made
    exact ⟨_, rfl, rfl⟩

theorem enrolled_sample : Enrolled sampleCrates sampleVariables [1] where
  secureBoot := rfl
  db := ⟨sampleDb 45 1, rfl, by decide, [1], by decide +kernel, rfl⟩

theorem supported_sample : Supported (sampleKernel.read 0 0x268) := by
  constructor <;> decide +kernel

theorem plain_quiet : Plain "quiet" where
  oneLine := by decide
  first c member := by
    obtain rfl : 'q' = c := Option.some.inj member
    rfl
  last c member := by
    obtain rfl : 't' = c := Option.some.inj member
    rfl

end Initos.Agreement
