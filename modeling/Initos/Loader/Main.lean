import Initos.Loader.Verify

/-!
# The EFI loader

`main` (`src/bin/efi.rs:542-675`) up to the call of `linux_exec`: read the config,
find out about Secure Boot, and with Secure Boot on verify config, kernel and initrd
against `db`. The kernel and the initrd are verified where they were loaded to.
-/

namespace Initos.Loader

open Interact Bytes

/-- `fail_and_reboot` (`src/bin/efi.rs:100-108`). -/
def failAndReboot {α : Type} (message : String) : Prog Uefi α := .halt (.reboot message)

/-- `fail_signature` (`src/bin/efi.rs:119-124`). -/
def failSignature {α : Type} (label dbSha detail : String) : Prog Uefi α :=
  failAndReboot s!"{label} verification failed; db_sha256={dbSha}; {detail}"

/-- `read_u32_le` (`src/bin/efi.rs:262-272`). -/
def readU32Le (data : List UInt8) (offset : Nat) : Checked (Option Nat) :=
  if offset + 4 > data.length then some none else (readLe32 data offset).map some

/-- `pe_size_of_image` (`src/bin/efi.rs:274-285`). -/
def peSizeOfImage (data : List UInt8) : Checked (Option Nat) := do
  if data.length < 0x40 ∨ slice data 0 2 ≠ some [0x4d, 0x5a] then return none
  match ← readU32Le data 0x3c with
  | none => return none
  | some peOffset =>
    if peOffset + 0x5c > data.length ∨
        slice data peOffset (peOffset + 4) ≠ some [0x50, 0x45, 0, 0] then return none
    readU32Le data (peOffset + 0x50)

/-- A computation with bounds checks in a function that returns `uefi::Result`. -/
def bootChecked {α : Type} : Checked α → Boot α
  | some a => pure a
  | none => Fallible.halt .panic

/-- `load_pe_kernel_to_address` (`src/bin/efi.rs:287-306`): address, file size, image size. -/
def loadPeKernelToAddress (X : Crates) (path : String) : Boot (Nat × Nat × Nat) := do
  let data ← loadFileToMemory X path
  let fileSize := data.length
  let peSize ← bootChecked (peSizeOfImage data)
  let imageSize := max (peSize.getD fileSize) fileSize
  let pagesNeeded := (imageSize + 4095) / 4096
  let addr ← allocatePages 0x40000000 pagesNeeded
  Fallible.ask (I := Uefi) (.zero addr (pagesNeeded * 4096))
  Fallible.ask (I := Uefi) (.copyTo addr data)
  return (addr, fileSize, imageSize)

/-- `load_kernel_to_address` (`src/bin/efi.rs:225-260`): address and size. -/
def loadKernelToAddress (X : Crates) (path : String) : Boot (Nat × Nat) := do
  let size ← openRegular X path
  let pagesNeeded := (size + 4095) / 4096
  let addr ← allocatePages 0x40000000 pagesNeeded
  readFileTo path addr size
  return (addr, size)

/-- The Secure Boot status (`src/bin/efi.rs:559-570`). -/
def secureBootStatus : Prog Uefi Bool := do
  match ← (getVariable "SecureBoot" globalVariable 1).run with
  | .ok data => return data.head?.getD 0 == 1
  | .error _ => return false

/-- The signature database, when Secure Boot is on (`src/bin/efi.rs:572-597`). -/
def readDbVariable (secureBoot : Bool) : Prog Uefi (List UInt8) := do
  if secureBoot then
    match ← (getVariable "db" imageSecurityDb 4096).run with
    | .ok data =>
      if data = [] then
        failAndReboot
          "db variable is empty; refusing to boot without a usable signature database"
      else return data
    | .error _ => failAndReboot "db variable read failed"
  else return []

/-- What `main` has when it calls `linux_exec`. -/
structure Launch where
  cmdline : String
  kernelAddr : Nat
  kernelSize : Nat
  initrdAddr : Nat
  initrdSize : Nat

section

variable (X : Crates)

/-- Verify data or reboot. -/
def requireSignature (c : Component) (data db : List UInt8) (dbSha : String) : Prog Uefi Unit := do
  match ← verifyDataSignature X data db c.template c.label with
  | .ok () => return ()
  | .error detail => failSignature c.label dbSha detail.text

/-- `config_str.lines().next().unwrap_or("").trim()` (`src/bin/efi.rs:556-557`). -/
def cmdlineOf (config : List UInt8) : String :=
  Text.trim ((Text.lines (Text.fromUtf8Lossy config)).head?.getD "")

/-- The kernel (`src/bin/efi.rs:613-640`). -/
def loadKernel (secureBoot : Bool) (db : List UInt8) (dbSha : String) : Prog Uefi (Nat × Nat) := do
  match ← (loadPeKernelToAddress X "\\EFI\\BOOT\\BZIMAGE").run with
  | .error _ => failAndReboot "Kernel load failed"
  | .ok (addr, size, _) =>
    if secureBoot then
      let data ← Prog.perform (I := Uefi) (.readMemory addr size)
      requireSignature X .kernel data db dbSha
    return (addr, size)

/-- The initrd, which is optional (`src/bin/efi.rs:642-664`). -/
def loadInitrd (secureBoot : Bool) (db : List UInt8) (dbSha : String) : Prog Uefi (Nat × Nat) := do
  match ← (loadKernelToAddress X "\\EFI\\BOOT\\INITRD.IMG").run with
  | .error _ => return (0, 0)
  | .ok (addr, size) =>
    if secureBoot && !db.isEmpty then
      let data ← Prog.perform (I := Uefi) (.readMemory addr size)
      requireSignature X .initrd data db dbSha
    return (addr, size)

/-- `main` (`src/bin/efi.rs:542-675`). -/
def main : Prog Uefi Launch := do
  match ← (loadFileToMemory X "\\EFI\\BOOT\\config").run with
  | .error _ => failAndReboot "Config load failed"
  | .ok config =>
    let secureBoot ← secureBootStatus
    let db ← readDbVariable secureBoot
    let dbSha := if secureBoot then Text.hex (X.sha256 db) else ""
    if secureBoot then requireSignature X .config config db dbSha
    let (kernelAddr, kernelSize) ← loadKernel X secureBoot db dbSha
    let (initrdAddr, initrdSize) ← loadInitrd X secureBoot db dbSha
    return ⟨cmdlineOf config, kernelAddr, kernelSize, initrdAddr, initrdSize⟩

end

end Initos.Loader
