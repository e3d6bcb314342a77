import Initos.Boot.DataDevice
import Initos.Boot.Unlock
import Initos.Boot.Images
import Initos.Efi.BootEntry

/-!
# The boot sequence

`cmd_boot` (`src/boot.rs:62-219`), from the pseudo file systems to the switch to the
new root, with the mounts inside the new root and the choice of its init.
-/

namespace Initos.Boot

open Interact Mount

/-! ## Inside the new root -/

/-- The loop of `resolve_root_path` over the components (`src/boot.rs:897-921`). -/
def resolveComponents (root : String) : (resolved : String) → List UnixPath.Component → Io String
  | resolved, [] => return resolved
  | resolved, .normal part :: rest => do
    let candidate := UnixPath.join resolved part
    match ← Fallible.attempt (readLink candidate) with
    | .ok link =>
      if UnixPath.isAbsolute link then
        resolveComponents root (UnixPath.join root (UnixPath.stripRoot link)) rest
      else resolveComponents root (UnixPath.join resolved link) rest
    | .error e =>
      if e.kind = some .invalidInput ∨ e.kind = some .notFound then
        resolveComponents root candidate rest
      else throw e
  | resolved, _ :: rest => resolveComponents root resolved rest

/-- `resolve_root_path` (`src/boot.rs:893-924`). -/
def resolveRootPath (rootMount relPath : String) : Io String :=
  resolveComponents rootMount rootMount (UnixPath.components relPath)

/-- `bind_if_root_dir_exists` (`src/boot.rs:838-867`). -/
def bindIfRootDirExists (rootMount sourceRel targetRel : String) : Io Unit := do
  let target ← resolveRootPath rootMount targetRel
  if !(← isDir target) then return ()
  else recursiveBindMount (UnixPath.join rootMount sourceRel) target

/-- `bind_host_image_mounts` (`src/boot.rs:832-836`). -/
def bindHostImageMounts (rootMount : String) : Io Unit := do
  bindIfRootDirExists rootMount "mnt/firmware" "lib/firmware"
  bindIfRootDirExists rootMount "mnt/modules" "lib/modules"

/-- `source.is_dir() && target.is_dir()`. -/
def bothDirs (source target : String) : Io Bool := do
  if ← isDir source then isDir target else return false

/-- `bind_if_both_dirs_exist` (`src/boot.rs:807-830`). -/
def bindIfBothDirsExist (source target : String) : Io Unit := do
  if !(← bothDirs source target) then return () else recursiveBindMount source target

/-- `bind_encrypted_state_paths` (`src/boot.rs:788-805`). -/
def bindEncryptedStatePaths (stateMount rootMount : String) : Io Unit := do
  bindIfBothDirsExist (UnixPath.join stateMount "c/home") (UnixPath.join rootMount "home")
  bindIfBothDirsExist (UnixPath.join stateMount "c/home/root") (UnixPath.join rootMount "root")
  bindIfBothDirsExist (UnixPath.join stateMount "c/nix") (UnixPath.join rootMount "nix")

/-- `mount_pseudo_in_root` (`src/boot.rs:960-972`). -/
def mountPseudoInRoot (rootMount fsType targetRel : String) : Io Unit :=
  mountPseudoFs fsType (UnixPath.join rootMount targetRel)

/-- `mount_optional_pseudo_in_root` (`src/boot.rs:939-958`). -/
def mountOptionalPseudoInRoot (rootMount fsType targetRel : String) : Io Unit := do
  let _ ← Fallible.attempt (mountPseudoInRoot rootMount fsType targetRel)

/-- `mount_fs_in_root` (`src/boot.rs:974-987`). -/
def mountFsInRoot (rootMount source targetRel fsType : String) : Io Unit :=
  mountFilesystem source (UnixPath.join rootMount targetRel) fsType false

/-- `mount_system_filesystems` (`src/boot.rs:926-937`). -/
def mountSystemFilesystems (rootMount : String) : Io Unit := do
  mountPseudoInRoot rootMount "proc" "proc"
  mountPseudoInRoot rootMount "sysfs" "sys"
  mountOptionalPseudoInRoot rootMount "efivarfs" "sys/firmware/efi/efivars"
  mountPseudoInRoot rootMount "devtmpfs" "dev"
  mountFsInRoot rootMount "devpts" "dev/pts" "devpts"
  mountFsInRoot rootMount "tmpfs" "dev/shm" "tmpfs"
  mountFsInRoot rootMount "tmpfs" "run" "tmpfs"
  mountFsInRoot rootMount "none" "sys/fs/cgroup" "cgroup2"
  mountFsInRoot rootMount "tmpfs" "tmp" "tmpfs"

/-- `SelectedInit` (`src/boot.rs:399-402`). -/
structure SelectedInit where
  path : String
  args : List String

/-- The first of the candidates that is a file in the root. -/
def firstInit (rootMount : String) : List String → Io (Option String)
  | [] => return none
  | candidate :: rest => do
    if ← isFile (UnixPath.join rootMount (Text.trimStartMatches '/' candidate)) then
      return some candidate
    else firstInit rootMount rest

/-- `select_init` (`src/boot.rs:404-456`). -/
def selectInit (stateMount rootMount : String) : Io SelectedInit := do
  match ← envVar "INITOS_INIT" with
  | some init => return ⟨init, []⟩
  | none =>
    if ← isFile (UnixPath.join stateMount "c/initos/init") then return ⟨"/z/c/initos/init", []⟩
    else
      match ← firstInit rootMount ["/nix/var/nix/profiles/system/bin/init", "/sbin/init"] with
      | some candidate => return ⟨candidate, []⟩
      | none =>
        let systemd := "/lib/systemd/systemd"
        let resolved ← resolveRootPath rootMount (Text.trimStartMatches '/' systemd)
        if ← isFile resolved then return ⟨systemd, ["--system"]⟩
        else
          match ← firstInit rootMount ["/opt/initos/bin/initos-init"] with
          | some candidate => return ⟨candidate, []⟩
          | none =>
            throw (.msg "no init found: checked /z/c/initos/init, /opt/initos/bin/initos-init, /sbin/init, /lib/systemd/systemd")

/-! ## The sequence -/

section

variable (X : Crates)

/-- The firmware tree of a slot for development (`src/boot.rs:695-698`). -/
def developmentTree (stateMount : String) (slot : Nat) : String :=
  UnixPath.join (UnixPath.join (UnixPath.join stateMount "img") (toString slot))
    "firmware-objects/current"

/-- The firmware part of `mount_host_images` (`src/boot.rs:689-716`). -/
def mountFirmware (stateMount rootMount : String) (slot : Nat) (verifiedBoot : Bool) :
    Io Unit := do
  match ← Fallible.attempt
      (mountSlotComposefsFirmware X stateMount rootMount slot verifiedBoot) with
  | .ok () => return ()
  | .error composefsError =>
    if verifiedBoot then throw composefsError
    else if !(← isDir (developmentTree stateMount slot)) then throw composefsError
    else bindMount (developmentTree stateMount slot) (UnixPath.join rootMount "mnt/firmware")

/-- `mount_host_images` (`src/boot.rs:673-730`). -/
def mountHostImages (stateMount rootMount : String) (verifiedBoot : Bool)
    (bootPartitionId : Option Nat) : Io Unit := do
  mountFilesystem "tmpfs" (UnixPath.join rootMount "mnt") "tmpfs" false
  match bootPartitionId with
  | none => throw (.msg "boot partition ID is unavailable")
  | some slot =>
    mountFirmware X stateMount rootMount slot verifiedBoot
    let kernel ← kernelRelease
    mountHostImage X stateMount rootMount s!"modules-{kernel}.erofs" s!"mnt/modules/{kernel}"
      verifiedBoot bootPartitionId
    bindHostImageMounts rootMount

/-- The early pseudo file systems; a failed mount is only logged (`src/boot.rs:81-91`). -/
def mountEarly : List (String × String) → Io Unit
  | [] => return ()
  | (fs, mp) :: rest => do
    let _ ← Fallible.attempt (mountPseudoFs fs mp)
    mountEarly rest

/-- The part of `boot_run` up to the decision on the mode (`src/boot.rs:69-93`):
    `INITOS_IMG`, `INITOS_DATA` and whether this is a verified boot. -/
def bootStart : Io (String × String × Bool) := do
  let img ← envVarOr "INITOS_IMG" "/img/initos.erofs"
  let data ← envVarOr "INITOS_DATA" "STATE"
  let _ ← Fallible.attempt kernelRelease
  mountEarly [("proc", "/proc"), ("sysfs", "/sys"), ("efivarfs", "/sys/firmware/efi/efivars"),
    ("devtmpfs", "/dev")]
  let verifiedBoot ← detectVerifiedBootStrict
  return (img, data, verifiedBoot)

/-- The boot device and the boot disk (`src/boot.rs:95-156`). -/
def findBootDevice : Io (Option Nat × Option String) := do
  let basePath ← efiBasePath
  let bootDeviceInfo := match ← Fallible.attempt (Efi.extractBootDeviceInfo basePath) with
    | .ok info => info
    | .error _ => none
  match bootDeviceInfo with
  | none => return (none, none)
  | some info =>
    match ← Fallible.attempt (findBootDisk info.partitionGuid (some info.partitionNumber)) with
    | .ok (some (disk, part)) =>
      setVar "INITOS_BOOT_DISK" disk
      setVar "INITOS_BOOT_PARTITION" part
      return (some info.partitionNumber, some disk)
    | _ => return (some info.partitionNumber, none)

/-- The part of `boot_run` after the decision on the mode (`src/boot.rs:95-186`). -/
def bootRest (fuel : Nat) (img data : String) (verifiedBoot : Bool) : Io Unit := do
  let (bootPartitionId, bootDisk) ← findBootDevice
  let dev ← findDataDevice fuel data bootDisk
  let stateMount := "/z"
  mountFilesystem dev stateMount "ext4" false
  unlockStateC stateMount verifiedBoot
  let rootMount := "/sysroot"
  mountRootfs X stateMount rootMount img verifiedBoot bootPartitionId
  bindMount stateMount s!"{rootMount}/z"
  mountHostImages X stateMount rootMount verifiedBoot bootPartitionId
  bindEncryptedStatePaths stateMount rootMount
  mountSystemFilesystems rootMount
  let init ← selectInit stateMount rootMount
  switchRootWithArgs rootMount init.path init.args

/-- What follows a failed boot (`src/boot.rs:188-216`): the initrd for development runs
    only where Secure Boot is known to be off. -/
def bootFailed (verifiedBootMode : Option Bool) (e : Err) : Io Unit := do
  if verifiedBootMode = some false then
    setVar "INITOS_BOOT_ERROR" (Text.replaceChar e.text (Char.ofNat 0) "\\0")
    execv "/opt/initos/bin/initos-initrd"
    Fallible.halt (.exit 1)
  else
    sleep 10000
    Fallible.halt (.exit 1)

/-- `cmd_boot` (`src/boot.rs:62-219`). -/
def cmdBoot (fuel : Nat) : Io Unit := do
  match ← Fallible.attempt bootStart with
  | .error e => bootFailed none e
  | .ok (img, data, verifiedBoot) =>
    match ← Fallible.attempt (bootRest X fuel img data verifiedBoot) with
    | .error e => bootFailed (some verifiedBoot) e
    | .ok () => return ()

end

end Initos.Boot
