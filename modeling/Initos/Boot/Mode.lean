import Initos.Verify

/-!
# Verified and development mode

The initrd boots in verified mode when EFI Secure Boot is on (`src/boot.rs:634-671`);
only then are images verified against `db` (`src/boot.rs:1131-1168`).
-/

namespace Initos.Boot

open Interact Efi Verify

/-- `env::var("INITOS_EFI_PATH")` with its default. -/
def efiBasePath : Io String := envVarOr "INITOS_EFI_PATH" "/sys/firmware/efi/efivars"

/-- `detect_verified_boot_strict` (`src/boot.rs:659-671`). -/
def detectVerifiedBootStrict : Io Bool := do
  let basePath ← efiBasePath
  match ← Fallible.attempt (readSecureBoot basePath) with
  | .error e =>
    throw (.msg s!"failed to read EFI SecureBoot from {basePath}: {e.text} (refusing to boot without a verified-mode decision; enable Secure Boot or fix efivarfs)")
  | .ok value => return value != 0

section

variable (X : Crates)

/-- `verify_image_if_key` (`src/boot.rs:1132-1144`). -/
def verifyImageIfKey (img pubKey : String) : Io Unit := do
  if pubKey = "" then return ()
  let valid ← verifyImage X img pubKey
  if !valid then throw (.msg "image signature verification FAILED")

/-- `verify_image_trusted` (`src/boot.rs:1146-1168`). -/
def verifyImageTrusted (img pubKey : String) (verifiedBoot : Bool) : Io Unit := do
  if pubKey ≠ "" then verifyImageIfKey X img pubKey
  else if verifiedBoot then
    let basePath ← efiBasePath
    let valid ← verifyImageDb X img basePath
    if !valid then throw (.msg "image db signature verification FAILED")
  else return ()

end

end Initos.Boot
