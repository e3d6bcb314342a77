import Initos.Crates
import Initos.Lib.UnixPath

/-!
# What `sign.sh` signs

`build_boot_initos_signed` puts kernel, initrd and loader on a boot partition, with a detached
signature for each part that the loader verifies. `image` signs the fs-verity digest of an image.
Both name their signatures after the key id of the certificate (`db_key_id`). The script runs
under `set -euo pipefail`: a command that fails ends it.
-/

namespace Initos.Sidecar

/-! ## The machine that signs -/

/-- Files in the order they were written, the latest first. -/
abbrev Stage := List (String × List UInt8)

namespace Stage

/-- The file at a path of the directory. -/
def read (stage : Stage) (path : String) : Option (List UInt8) :=
  (stage.find? (·.1 = path)).map Prod.snd

/-- The directory with the file written. -/
def write (stage : Stage) (path : String) (data : List UInt8) : Stage := (path, data) :: stage

end Stage

/-- The tools that the script calls; `none` is a failure. -/
structure Tools where
  /-- `openssl x509 -pubkey -noout` and `openssl pkey -pubin -pubout -outform DER`. -/
  pubkeyDer : (cert : List UInt8) → Option (List UInt8)
  /-- `openssl dgst -sha256 -sign`. -/
  dgstSign : (key data : List UInt8) → Option (List UInt8)
  /-- `openssl pkeyutl -sign -rawin`. -/
  pkeyutlSign : (key data : List UInt8) → Option (List UInt8)
  sbsign : (key cert image : List UInt8) → Option (List UInt8)
  /-- `fsverity digest`, of which the script takes the digest. -/
  fsverityDigest : (image : List UInt8) → Option (List UInt8)
  /-- The files that the commands of `sign_init` make (`sidecar/bin/sign.sh:70-108`). -/
  generateKeys : Option (List (String × List UInt8))
  /-- `du -sk`. -/
  diskUsage : Stage → Nat
  /-- Whether `mformat` and `mcopy` get the files into a file system of so many MiB. -/
  fatTakes : (sizeMb : Nat) → Stage → Bool

/-- The variables and the files the script finds. `baseDir` is the directory two levels above the
    script. -/
structure Surroundings where
  files : String → Option (List UInt8)
  baseDir : String
  secrets : String
  initosCmdline : Option String
  nixBuildTop : Option String
  signingKeysRequired : Option String

/-- `${name:-default}`. -/
def orDefault (value : Option String) (default : String) : String :=
  match value with
  | some v => if v = "" then default else v
  | none => default

/-- How the script ends early. -/
inductive SignError where
  /-- The script says why it exits. -/
  | message (text : String)
  /-- A command failed. -/
  | failed (command : String)
  deriving DecidableEq

/-- The result of a command that must not fail. -/
def command {α : Type} (name : String) : Option α → Except SignError α
  | some a => .ok a
  | none => .error (.failed name)

variable (X : Crates) (T : Tools) (E : Surroundings)

/-- `[ -f path ]`. -/
def Surroundings.isFile (path : String) : Bool := (E.files path).isSome

/-! ## Keys -/

/-- `db_key_id` (`sidecar/bin/sign.sh:200-208`). -/
def dbKeyId (cert : List UInt8) : Option String :=
  (T.pubkeyDer cert).map fun der => String.ofList ((Text.hex (X.sha256 der)).toList.take 16)

/-- The files `require_signing_keys` asks for (`sidecar/bin/sign.sh:31-35`). -/
def requiredKeys : List String :=
  ["PK.crt", "PK.cer", "PK.esl", "PK.auth", "KEK.crt", "KEK.cer", "KEK.esl", "KEK.auth",
    "db.key", "db.crt", "db.cer", "db.esl", "db.auth", "root.pem"]

/-- `require_signing_keys` (`sidecar/bin/sign.sh:28-42`): every file is there and not empty. -/
def requireSigningKeys : Bool :=
  requiredKeys.all fun key => (E.files s!"{E.secrets}/{key}").any (· ≠ [])

/-- `sign_init` (`sidecar/bin/sign.sh:47-121`). -/
def signInit : Except SignError Surroundings :=
  if orDefault E.signingKeysRequired "0" = "1" then
    if requireSigningKeys E then .ok E else .error (.failed "require_signing_keys")
  else if E.isFile s!"{E.secrets}/root.key" then .ok E
  else do
    let keys ← command "openssl" T.generateKeys
    let made : Stage := keys.map fun (name, data) => (s!"{E.secrets}/{name}", data)
    return { E with files := fun path => (made.read path).or (E.files path) }

/-! ## Images -/

/-- `sign_digest` (`sidecar/bin/sign.sh:157-181`), for a digest that was just written. -/
def signDigest (digest : List UInt8) (privateKey : String) : Except SignError (List UInt8) :=
  match E.files privateKey with
  | none => .error (.message s!"ERROR: Private key not found: {privateKey}")
  | some key =>
    match T.pkeyutlSign key digest with
    | none => .error (.message "ERROR: openssl pkeyutl failed to sign digest")
    | some signature => .ok signature

/-- The signature by the Ed25519 key, where there is one (`sidecar/bin/sign.sh:236-244`). -/
def signWithImageKey (imgName : String) (digest : List UInt8) : Except SignError Stage :=
  let imageKey := s!"{E.secrets}/image_key.pem"
  if E.isFile imageKey then
    match signDigest T E digest imageKey with
    | .error _ => .error (.message s!"ERROR: Failed to sign digest with Ed25519 key for {imgName}")
    | .ok signature => .ok (Stage.write [] s!"{imgName}.sig" signature)
  else .ok []

/-- The signature by the key of `db` (`sidecar/bin/sign.sh:246-265`). -/
def signWithDbKey (imgName : String) (digest : List UInt8) (written : Stage) :
    Except SignError Stage :=
  match E.files s!"{E.secrets}/db.key" with
  | none => .error (.message s!"ERROR: db.key not found in {E.secrets}")
  | some key =>
    match (E.files s!"{E.secrets}/db.crt").bind (dbKeyId X T) with
    | none => .error (.message s!"ERROR: Failed to compute db key ID from {E.secrets}/db.crt")
    | some keyId =>
      match T.dgstSign key digest with
      | none => .error (.message s!"ERROR: Failed to sign digest with db.key for {imgName}")
      | some signature => .ok (written.write s!"{imgName}.{keyId}.db.sig" signature)

/-- `image` (`sidecar/bin/sign.sh:214-267`): the files it writes. -/
def image (imageDir filen : String) : Except SignError Stage :=
  let imgName := s!"{imageDir}/{filen}"
  if !E.isFile imgName then .error (.message s!"ERROR: Image file not found: {imgName}")
  else do
    let E ← signInit T E
    match (E.files imgName).bind T.fsverityDigest with
    | none => .error (.message s!"ERROR: Failed to compute fsverity digest for {imgName}")
    | some digest =>
      let written ← signWithImageKey T E imgName digest
      signWithDbKey X T E imgName digest written

/-! ## The boot partition -/

/-- `_resolve_path` (`sidecar/bin/sign.sh:715-741`). -/
def resolvePath (dir relPath : String) : String :=
  let isBzImage := UnixPath.fileName relPath == some "bzImage"
  if E.isFile s!"{dir}/{relPath}" then s!"{dir}/{relPath}"
  else if E.isFile s!"{dir}/boot/{relPath}" then s!"{dir}/boot/{relPath}"
  else if E.isFile s!"{dir}/disks/boot/{relPath}" then s!"{dir}/disks/boot/{relPath}"
  else if E.isFile s!"{E.baseDir}/{relPath}" then s!"{E.baseDir}/{relPath}"
  else if isBzImage && E.isFile s!"{E.baseDir}/target/linux/arch/x86/boot/bzImage" then
    s!"{E.baseDir}/target/linux/arch/x86/boot/bzImage"
  else if isBzImage && E.isFile s!"{E.baseDir}/target/linux/arch/x86_64/boot/bzImage" then
    s!"{E.baseDir}/target/linux/arch/x86_64/boot/bzImage"
  else if isBzImage && E.isFile s!"{E.baseDir}/target/img/bzImage" then
    s!"{E.baseDir}/target/img/bzImage"
  else if E.isFile s!"{E.baseDir}/prebuilt/{relPath}" then s!"{E.baseDir}/prebuilt/{relPath}"
  else ""

/-- `_safe_cp` (`sidecar/bin/sign.sh:743-755`): a file that is not there is passed over. -/
def safeCp (stage : Stage) (srcFile destFile : String) : Stage :=
  if srcFile = "" then stage
  else
    match E.files srcFile with
    | some data => stage.write destFile data
    | none => stage

/-- The files that must be there (`sidecar/bin/sign.sh:769`). -/
def publicKeys : List String :=
  ["PK.cer", "PK.crt", "PK.esl", "PK.auth", "KEK.cer", "KEK.crt", "KEK.auth", "KEK.esl", "db.cer",
    "db.esl", "db.crt", "db.auth", "root.pem"]

/-- The files that may be missing (`sidecar/bin/sign.sh:777`). -/
def optionalKeys : List String := ["image_key_pub.pem", "image_key.pub.b64"]

/-- One round of the first loop (`sidecar/bin/sign.sh:769-775`). -/
def copyRequired (secDir : String) (stage : Stage) (f : String) : Except SignError Stage :=
  match E.files s!"{secDir}/{f}" with
  | some data => .ok (stage.write ("keys/" ++ f) data)
  | none => .error (.message s!"ERROR: Missing required key {secDir}/{f}")

/-- One round of the second loop (`sidecar/bin/sign.sh:777-781`). -/
def copyOptional (secDir : String) (stage : Stage) (f : String) : Stage :=
  match E.files s!"{secDir}/{f}" with
  | some data => stage.write ("keys/" ++ f) data
  | none => stage

/-- `_copy_uefi_public_keys` (`sidecar/bin/sign.sh:757-784`). -/
def copyUefiPublicKeys (stage : Stage) (secDir : String) : Except SignError Stage := do
  if orDefault E.nixBuildTop "" ≠ "" then return stage
  let stage ← publicKeys.foldlM (copyRequired E secDir) stage
  return optionalKeys.foldl (copyOptional E secDir) stage

/-- A FAT file system with its label. -/
structure FatImage where
  label : String
  sizeMb : Nat
  files : Stage

/-- The size of the image (`sidecar/bin/sign.sh:280-283`). -/
def imgSizeMb (stage : Stage) : Nat :=
  let sizeMb := T.diskUsage stage * 12 / 10 / 1024 + 1
  if sizeMb < 64 then 64 else sizeMb

/-- `_build_fat_image` (`sidecar/bin/sign.sh:269-291`). -/
def buildFatImage (stage : Stage) (label : String) : Except SignError FatImage :=
  if T.fatTakes (imgSizeMb T stage) stage then .ok ⟨label, imgSizeMb T stage, stage⟩
  else .error (.failed "mcopy")

/-- The command line without `INITOS_CMDLINE` (`sidecar/bin/sign.sh:911`). -/
def defaultCmdline : String :=
  "rdinit=/init console=tty1 systemd.default_timeout_start_sec=15 console=ttyS0,115200" ++
    " console=hvc0 loglevel=6 net.ifnames=0 panic=5"

/-- `openssl dgst -sha256 -sign` of a staged file. -/
def signStaged (stage : Stage) (key : List UInt8) (path signaturePath : String) :
    Except SignError Stage := do
  let data ← command "openssl dgst" (stage.read path)
  let signature ← command "openssl dgst" (T.dgstSign key data)
  return stage.write signaturePath signature

/-- `build_boot_initos_signed` (`sidecar/bin/sign.sh:887-944`). -/
def buildBootInitosSigned (artifactDir secDir : String) : Except SignError FatImage := do
  let bzimageSrc := resolvePath E artifactDir "EFI/BOOT/bzImage"
  let initrdSrc := resolvePath E artifactDir "EFI/BOOT/initrd.img"
  let initosEfiSrc := resolvePath E artifactDir "EFI/BOOT/initos.EFI"
  let initosEfiSrc :=
    if initosEfiSrc = "" then
      resolvePath E artifactDir "target/x86_64-unknown-uefi/release/efi.efi"
    else initosEfiSrc
  let stage := safeCp E [] bzimageSrc "EFI/BOOT/bzImage"
  let stage := safeCp E stage initrdSrc "EFI/BOOT/initrd.img"
  let stage := safeCp E stage initosEfiSrc "EFI/BOOT/initos.EFI"
  let cmdline := orDefault E.initosCmdline defaultCmdline
  let stage := stage.write "EFI/BOOT/config" (Text.asBytes (cmdline ++ "\n"))
  let efi ← command "sbsign" (stage.read "EFI/BOOT/initos.EFI")
  let key ← command "sbsign" (E.files s!"{secDir}/db.key")
  let cert ← command "sbsign" (E.files s!"{secDir}/db.crt")
  let signed ← command "sbsign" (T.sbsign key cert efi)
  let stage := stage.write "EFI/BOOT/BOOTX64.EFI" signed
  let keyId ← command "openssl" (dbKeyId X T cert)
  let stage ← signStaged T stage key "EFI/BOOT/config" s!"EFI/BOOT/{keyId}.sig"
  let stage ← signStaged T stage key "EFI/BOOT/bzImage" s!"EFI/BOOT/{keyId}.kernel.sig"
  let stage ← signStaged T stage key "EFI/BOOT/initrd.img" s!"EFI/BOOT/{keyId}.initrd.sig"
  let stage ← copyUefiPublicKeys E stage secDir
  buildFatImage T stage "INITOSB"

/-! ## Names on the partition -/

/-- Names of a FAT file system are compared without regard to case. -/
def fatName (path : String) : List Char :=
  path.toList.map fun c => if c = '\\' then '/' else c.toUpper

/-- The file that firmware finds under a path. -/
def FatImage.find (image : FatImage) (path : String) : Option (List UInt8) :=
  (image.files.find? fun f => fatName ("/" ++ f.1) = fatName path).map Prod.snd

end Initos.Sidecar
