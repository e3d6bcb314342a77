import Initos.Lib.Interact
import Initos.Lib.Bytes

/-!
# What the EFI loader asks of the firmware

The loader (`src/bin/efi.rs`) runs on UEFI boot services. Memory that it addresses
by number (the pages the kernel and the initrd are loaded to) is not part of the
program's state: reading and writing it are commands, and `Memory.after` says what
a history of commands has left there. Timing and console output are left out.
-/

namespace Initos.Loader

open Interact Bytes

/-- UEFI status codes: those that the loader names, and any other with what `Debug` shows of it. -/
inductive Status where
  | invalidParameter
  | notFound
  | other (shown : String)
  deriving DecidableEq, Repr

/-- `{:?}` of a status. -/
def Status.shown : Status → String
  | invalidParameter => "INVALID_PARAMETER"
  | notFound => "NOT_FOUND"
  | other shown => shown

/-- What `into_type` makes of a file handle. -/
inductive FileType where
  | regular
  | directory
  deriving DecidableEq, Repr

/-- A vendor GUID of a variable, in text form. -/
abbrev Vendor := String

/-- `VariableVendor::GLOBAL_VARIABLE`. -/
def globalVariable : Vendor := "8be4df61-93ca-11d2-aa0d-00e098032b8c"

/-- The image security database GUID (`src/bin/efi.rs:580`). -/
def imageSecurityDb : Vendor := "d719b2cb-3d3a-4596-a3bc-dad00e67656f"

/-- The calls of boot and runtime services, and the accesses to memory by address. -/
inductive UefiCmd where
  /-- `open_protocol_exclusive::<LoadedImage>` on the image handle, and its device. -/
  | loadedImageDevice
  /-- `open_protocol_exclusive::<SimpleFileSystem>` and `open_volume`. -/
  | openVolume
  | openFile (path : String)
  | fileSize (path : String)
  /-- `file.read` into a fresh buffer of `len` bytes. -/
  | readFile (path : String) (len : Nat)
  /-- `file.read` into memory at `addr`. -/
  | readFileTo (path : String) (addr len : Nat)
  /-- `allocate_pages` with a maximum address. -/
  | allocatePages (maxAddress pages : Nat)
  | allocatePool (len : Nat)
  /-- `write_bytes(addr, 0, len)`. -/
  | zero (addr len : Nat)
  /-- `copy_nonoverlapping` from a buffer of the program. -/
  | copyTo (addr : Nat) (src : List UInt8)
  /-- The slice `from_raw_parts(addr, len)`. -/
  | readMemory (addr len : Nat)
  | getVariable (name : String) (vendor : Vendor) (bufSize : Nat)
  deriving DecidableEq

/-- A read into memory reports a status, and the firmware may have written to the
    buffer also when the read failed. -/
structure ReadTo where
  written : List UInt8
  status : Option Status

/-- What a call returns. -/
@[reducible] def UefiCmd.Resp : UefiCmd → Type
  -- the device handle may be missing
  | .loadedImageDevice => Except Status Bool
  | .openVolume => Except Status Unit
  | .openFile _ => Except Status FileType
  | .fileSize _ => Except Status Nat
  | .readFile _ _ => Except Status (List UInt8)
  | .readFileTo _ _ _ => ReadTo
  | .allocatePages _ _ => Except Status Nat
  | .allocatePool _ => Except Status Nat
  | .zero _ _ => Unit
  | .copyTo _ _ => Unit
  | .readMemory _ _ => List UInt8
  | .getVariable _ _ _ => Except Status (List UInt8)

/-- The answers of a firmware on which every call fails. -/
def UefiCmd.fail (status : Status) : (c : UefiCmd) → c.Resp
  | .loadedImageDevice => .error status
  | .openVolume => .error status
  | .openFile _ => .error status
  | .fileSize _ => .error status
  | .readFile _ _ => .error status
  | .readFileTo _ _ _ => ⟨[], some status⟩
  | .allocatePages _ _ => .error status
  | .allocatePool _ => .error status
  | .zero _ _ => ()
  | .copyTo _ _ => ()
  | .readMemory _ _ => []
  | .getVariable _ _ _ => .error status

/-- How the loader stops: a panic, or `fail_and_reboot` with its message. -/
inductive LoaderStop where
  | panic
  | reboot (message : String)
  deriving DecidableEq, Repr

/-- The firmware, as the loader calls it. -/
abbrev Uefi : Iface := ⟨UefiCmd, UefiCmd.Resp, LoaderStop⟩

/-- Loader functions that return `uefi::Result`. -/
abbrev Boot := Fallible Uefi Status

/-- Open `LoadedImage` of the loader, and whether it has a device. -/
abbrev loadedImageDevice : Boot Bool := .call (I := Uefi) UefiCmd.loadedImageDevice fun r => r

/-- Open `SimpleFileSystem` of the device, and its root directory. -/
abbrev openVolume : Boot Unit := .call (I := Uefi) UefiCmd.openVolume fun r => r

/-- `Directory::open` and `into_type`. -/
abbrev openFile (path : String) : Boot FileType := .call (I := Uefi) (.openFile path) fun r => r

/-- `file_size` of `get_info::<FileInfo>`. -/
abbrev fileSize (path : String) : Boot Nat := .call (I := Uefi) (.fileSize path) fun r => r

/-- `RegularFile::read` into a buffer of the program. -/
abbrev readFile (path : String) (len : Nat) : Boot (List UInt8) :=
  .call (I := Uefi) (.readFile path len) fun r => r

/-- `RegularFile::read` into allocated pages. -/
abbrev readFileTo (path : String) (addr len : Nat) : Boot Unit :=
  .call (I := Uefi) (.readFileTo path addr len) fun r =>
    match r.status with
    | none => .ok ()
    | some status => .error status

/-- `boot::allocate_pages` with `AllocateType::MaxAddress`. -/
abbrev allocatePages (maxAddress pages : Nat) : Boot Nat :=
  .call (I := Uefi) (.allocatePages maxAddress pages) fun r => r

/-- `boot::allocate_pool`. -/
abbrev allocatePool (len : Nat) : Boot Nat := .call (I := Uefi) (.allocatePool len) fun r => r

/-- `runtime::get_variable` into a buffer of a size. -/
abbrev getVariable (name : String) (vendor : Vendor) (bufSize : Nat) : Boot (List UInt8) :=
  .call (I := Uefi) (.getVariable name vendor bufSize) fun r => r

/-! ## Memory -/

/-- Memory, byte by byte. -/
abbrev Memory := Nat → UInt8

/-- Store bytes at an address. -/
def Memory.store (m : Memory) (addr : Nat) (bytes : List UInt8) : Memory := fun a =>
  if addr ≤ a ∧ a < addr + bytes.length then bytes.getD (a - addr) 0 else m a

/-- The effect of one answered command on memory. -/
def Memory.step (m : Memory) : Event Uefi → Memory
  | ⟨.readFileTo _ addr _, r⟩ => m.store addr (ReadTo.written r)
  | ⟨.zero addr len, _⟩ => m.store addr (List.replicate len 0)
  | ⟨.copyTo addr src, _⟩ => m.store addr src
  | _ => m

/-- Memory after a history. -/
def Memory.after (m : Memory) (h : History Uefi) : Memory := h.foldl Memory.step m

/-- The bytes at `addr`. -/
def Memory.read (m : Memory) (addr len : Nat) : List UInt8 :=
  (List.range len).map fun i => m (addr + i)

/-- The page ranges, address and length, that a history has allocated. -/
def allocated (h : History Uefi) : List (Nat × Nat) :=
  h.filterMap fun
    | ⟨.allocatePages _ pages, r⟩ =>
      match (show Except Status Nat from r) with
      | .ok addr => some (addr, pages * 4096)
      | .error _ => none
    | _ => none

/-- Two ranges, address and length, without a common byte. -/
def Disjoint (a b : Nat × Nat) : Prop := a.1 + a.2 ≤ b.1 ∨ b.1 + b.2 ≤ a.1

/-- What the loader relies on. `files` are the files of the boot partition and `vars`
    the variables: reading memory returns what was stored there, fresh pages overlap no
    earlier ones, a read writes only into its buffer, file sizes and file contents are
    those of `files` and a variable is read whole or not at all. Any call may fail. -/
def Firmware (m : Memory) (files : String → Option (List UInt8))
    (vars : String → Vendor → Option (List UInt8)) : Rely Uefi := fun h e =>
  match e with
  | ⟨.readMemory addr len, r⟩ => r = (m.after h).read addr len
  | ⟨.allocatePages _ pages, r⟩ =>
    ∀ addr, r = Except.ok addr → ∀ range ∈ allocated h, Disjoint (addr, pages * 4096) range
  | ⟨.readFileTo _ _ len, r⟩ => (ReadTo.written r).length ≤ len
  | ⟨.fileSize path, r⟩ => ∀ size, r = Except.ok size → ∃ c, files path = some c ∧ size = c.length
  | ⟨.readFile path len, r⟩ =>
    ∀ data, r = Except.ok data → ∃ c, files path = some c ∧ (len = c.length → data = c)
  | ⟨.getVariable name vendor bufSize, r⟩ =>
    ∀ data, r = Except.ok data → vars name vendor = some data ∧ data.length ≤ bufSize
  | _ => True

end Initos.Loader
