import Initos.Tpm2.Wire
import Initos.Lib.UnixPath

/-!
# Unlocking the encrypted directory

`unlock_state_c` (`src/boot.rs:458-488`) unlocks `<state>/c` with the key that the TPM
releases, or else with a password, and leaves PCR 7 extended behind the first.
-/

namespace Initos.Boot

open Interact Tpm2

/-- `DEV_TPM_PREFIX`, the bytes of `devc:`. -/
def devTpmPrefix : List UInt8 := [0x64, 0x65, 0x76, 0x63, 0x3a]

/-- `SECURE_TPM_PREFIX`, the bytes of `secc:`. -/
def secureTpmPrefix : List UInt8 := [0x73, 0x65, 0x63, 0x63, 0x3a]

/-- `strip_tpm_prefix` (`src/boot.rs:624-633`). -/
def stripTpmPrefix (secret pre : List UInt8) (mode : String) : Except Err (List UInt8) :=
  if pre.isPrefixOf secret then .ok (secret.drop pre.length)
  else .error (.msg s!"TPM {mode} secret has wrong prefix")

/-- `unseal_key_from_handle` (`src/boot.rs:35-58`). -/
def unsealKeyFromHandle (handle : UInt32) (pre : List UInt8) (mode : String) :
    Io (List UInt8) := do
  openDevice
  let session ← startPolicySession
  policyPcr session
  -- the digest only goes to the log
  let _ ← policyGetDigest session
  let secret ← unsealItem handle session
  ofExcept (stripTpmPrefix secret pre mode)

/-- `unseal_key` (`src/boot.rs:18-33`). -/
def unsealKey (secureBoot : Bool) : Io (List UInt8) :=
  if secureBoot then unsealKeyFromHandle defaultSealedHandleSecure secureTpmPrefix "secure"
  else unsealKeyFromHandle defaultSealedHandleDev devTpmPrefix "dev"

/-- `c_is_unlocked` (`src/boot.rs:490-492`). -/
def cIsUnlocked (cDir : String) : Io Bool := isDir (UnixPath.join cDir "home")

/-- The 64-byte key of `add_fscrypt_key`: the raw key over and over (`src/boot.rs:571-574`). -/
def repeatKey (rawKey : List UInt8) : List UInt8 :=
  (List.range 64).map fun i => rawKey.getD (i % rawKey.length) 0

/-- `add_fscrypt_key` (`src/boot.rs:563-581`). -/
def addFscryptKey (dir : String) (rawKey : List UInt8) : Io Unit := do
  if rawKey = [] then throw (.msg "fscrypt key is empty")
  else addKey dir (repeatKey rawKey)

/-- `decrypt_age_with_key` (`src/boot.rs:591-622`): the age library tries the text as a
    passphrase and as an identity. -/
def decryptAgeWithKey (cipher keyMaterial : List UInt8) : Io (List UInt8) := do
  let keyString := Text.trim (Text.fromUtf8Lossy keyMaterial)
  if keyString = "" then throw (.msg "age decrypt key is empty")
  else ageDecrypt cipher keyString

/-- `decrypt_age_with_key_file` (`src/boot.rs:583-589`). -/
def decryptAgeWithKeyFile (path : String) (keyMaterial : List UInt8) : Io (List UInt8) := do
  let cipher ← readFile path
  decryptAgeWithKey cipher keyMaterial

/-- The anti-replay step of `unlock_c_with_tpm`; no failure of it is fatal
    (`src/boot.rs:502-515`). -/
def extendPcr7 : Io Unit := do
  match ← Fallible.attempt openDevice with
  | .ok () =>
    let _ ← Fallible.attempt (pcrExtend 7)
  | .error _ => return ()

/-- `unlock_c_with_tpm` (`src/boot.rs:494-518`). -/
def unlockCWithTpm (cDir : String) (verifiedBoot : Bool) : Io Unit := do
  let fscryptKey ← unsealKey verifiedBoot
  addFscryptKey cDir fscryptKey
  if !(← cIsUnlocked cDir) then throw (.msg s!"{cDir} did not unlock with TPM")
  else extendPcr7

/-- The bytes of a password. -/
def passwordBytes (pass : String) : List UInt8 := pass.toList.flatMap String.utf8EncodeChar

/-- Try one password that is not empty (`src/boot.rs:532-544`). -/
def tryPassword (cDir cAge pass : String) : Io Unit := do
  let key ← if ← pathExists cAge then decryptAgeWithKeyFile cAge (passwordBytes pass)
    else pure (passwordBytes pass)
  addFscryptKey cDir key
  if !(← cIsUnlocked cDir) then throw (.msg s!"{cDir} did not unlock")
  else return ()

/-- The attempts of `unlock_c_with_password` that are left. -/
def passwordAttempts (cDir cAge : String) : (left : Nat) → Io Unit
  | 0 => throw (.msg s!"failed to unlock {cDir}")
  | left + 1 => do
    let prompt := if ← pathExists cAge then "Enter host unlock password: "
      else "Enter crypt password: "
    let pass ← readSecret prompt
    if pass = "" then passwordAttempts cDir cAge left
    else
      match ← Fallible.attempt (tryPassword cDir cAge pass) with
      | .ok () => return ()
      | .error e => if 0 < left then passwordAttempts cDir cAge left else throw e

/-- `unlock_c_with_password` (`src/boot.rs:520-561`). -/
def unlockCWithPassword (cDir cAge : String) : Io Unit := passwordAttempts cDir cAge 3

/-- `unlock_state_c` (`src/boot.rs:458-488`). -/
def unlockStateC (stateMount : String) (verifiedBoot : Bool) : Io Unit := do
  let cDir := UnixPath.join stateMount "c"
  if !(← pathExists cDir) then return ()
  else if ← cIsUnlocked cDir then
    if verifiedBoot then throw (.msg s!"{cDir} is already unlocked before initrd unlock")
    else return ()
  else
    let cAge := UnixPath.join stateMount "initos/c.age"
    if ← pathExists "/dev/tpmrm0" then
      match ← Fallible.attempt (unlockCWithTpm cDir verifiedBoot) with
      | .ok () => return ()
      | .error _ => unlockCWithPassword cDir cAge
    else unlockCWithPassword cDir cAge

end Initos.Boot
