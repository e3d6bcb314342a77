import Initos.Efi.SigList

/-!
# EFI variables in the initrd

The variables are read from the files of efivarfs: four bytes of attributes, then
the payload (`src/efi.rs:78-125` and `443-454`).
-/

namespace Initos.Efi

open Interact Bytes

/-- `EFI_GLOBAL_GUID`. -/
def efiGlobalGuid : String := "8be4df61-93ca-11d2-aa0d-00e098032b8c"

/-- `EFI_IMAGE_SECURITY_DB_GUID`. -/
def efiImageSecurityDbGuid : String := "d719b2cb-3d3a-4596-a3bc-dad00e67656f"

/-- The efivarfs file of a global variable. -/
def efiVarPath (name basePath : String) : String := s!"{basePath}/{name}-{efiGlobalGuid}"

/-- The payload of an efivarfs file. -/
def stripAttributes (data : List UInt8) : Io (List UInt8) :=
  if data.length < 4 then
    throw (.io .invalidData s!"EFI variable too short: {data.length} bytes")
  else ofChecked (slice data 4 data.length)

/-- `read_efi_var` (`src/efi.rs:78-89`). -/
def readEfiVar (name basePath : String) : Io (List UInt8) := do
  let data ← readFile (efiVarPath name basePath)
  stripAttributes data

/-- `read_secure_boot` (`src/efi.rs:104-113`). -/
def readSecureBoot (basePath : String) : Io UInt8 := do
  let payload ← readEfiVar "SecureBoot" basePath
  if payload = [] then throw (.io .invalidData "SecureBoot payload is empty")
  ofChecked (index payload 0)

/-- `read_boot_current` (`src/efi.rs:116-125`). -/
def readBootCurrent (basePath : String) : Io Nat := do
  let payload ← readEfiVar "BootCurrent" basePath
  if payload.length < 2 then
    throw (.io .invalidData s!"BootCurrent payload too short: {payload.length} bytes")
  let lo ← ofChecked (index payload 0)
  let hi ← ofChecked (index payload 1)
  return ofLe16 lo hi

/-- `read_db` (`src/efi.rs:444-454`). -/
def readDb (X : Crates) (basePath : String) : Io (List EfiCert) := do
  let data ← readFile s!"{basePath}/db-{efiImageSecurityDbGuid}"
  let payload ← stripAttributes data
  let parsed ← ofChecked (parseEsl X payload)
  ofExcept parsed

end Initos.Efi
