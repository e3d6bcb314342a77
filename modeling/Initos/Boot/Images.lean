import Initos.Boot.Mode
import Initos.Mount

/-!
# The root file system and the images

Which root and which images a boot uses, and how they are mounted
(`src/boot.rs:321-397`, `732-786` and `989-1129`). Each boot slot has a directory with
its own images beside the default ones; `check_partitioned_image` looks there first.
-/

namespace Initos.Boot

open Interact Mount

/-- `partitioned_image_path` (`src/boot.rs:1027-1031`). -/
def partitionedImagePath (path : String) (partId : Nat) : Option String := do
  let parent ← UnixPath.parent path
  let fileName ← UnixPath.fileName path
  return UnixPath.join (UnixPath.join parent (toString partId)) fileName

/-- A name that stands for a signature of the file `fileName` (`src/boot.rs:1052-1056`). -/
def isSignatureName (fileName name : String) : Bool :=
  Text.startsWith name (fileName ++ ".") && Text.endsWith name ".sig"

/-- Whether a signature lies beside the image (`src/boot.rs:1039-1061`). -/
def signatureBeside (partPath : String) : Io Bool := do
  if ← pathExists (Verify.signaturePath partPath "sig") then return true
  else
    match UnixPath.parent partPath with
    | none => return false
    | some parent =>
      match ← Fallible.attempt (readDir parent) with
      | .error _ => return false
      | .ok entries =>
        match UnixPath.fileName partPath with
        | none => Fallible.halt .panic
        | some fileName => return (flatten entries).any (isSignatureName fileName)

/-- `check_partitioned_image` (`src/boot.rs:1033-1080`). -/
def checkPartitionedImage (origPath : String) (partId : Nat) (verifiedBoot : Bool) :
    Io (Option String) := do
  match partitionedImagePath origPath partId with
  | none => return none
  | some partPath =>
    let sigExists ← signatureBeside partPath
    if ← pathExists partPath then
      if sigExists then return some partPath
      else if verifiedBoot then
        throw (.msg s!"partitioned image {partPath} exists but has no signature (Secure Boot requires signatures)")
      else return none
    else return none

/-- The places where a slot directory may hold a host image (`src/boot.rs:1089-1094`). -/
def hostCandidates (stateMount imageName : String) : List String :=
  [UnixPath.join (UnixPath.join stateMount "initos") imageName,
    UnixPath.join (UnixPath.join stateMount "img") imageName,
    UnixPath.join "/img" imageName,
    UnixPath.join "/data/img" imageName]

/-- The places of a host image outside the slots (`src/boot.rs:1102-1106`). -/
def hostDefaults (stateMount imageName : String) : List String :=
  [UnixPath.join (UnixPath.join stateMount "img") imageName,
    UnixPath.join "/img" imageName,
    UnixPath.join "/data/img" imageName]

/-- The first candidate with an image in the slot's directory (`src/boot.rs:1095-1099`). -/
def firstPartitioned (partId : Nat) (verifiedBoot : Bool) : List String → Io (Option String)
  | [] => return none
  | cand :: rest => do
    match ← checkPartitionedImage cand partId verifiedBoot with
    | some partPath => return some partPath
    | none => firstPartitioned partId verifiedBoot rest

/-- `.find(|path| path.exists())`. -/
def firstExisting : List String → Io (Option String)
  | [] => return none
  | path :: rest => do
    if ← pathExists path then return some path else firstExisting rest

/-- `find_host_image` (`src/boot.rs:1082-1109`). -/
def findHostImage (stateMount imageName : String) (bootPartitionId : Option Nat)
    (verifiedBoot : Bool) : Io (Option String) := do
  let partitioned ← match bootPartitionId with
    | some partId => firstPartitioned partId verifiedBoot (hostCandidates stateMount imageName)
    | none => pure none
  match partitioned with
  | some partPath => return some partPath
  | none => firstExisting (hostDefaults stateMount imageName)

/-- The root directories of `mount_rootfs`, in the order of its tests
    (`src/boot.rs:330-355`). -/
def rootDirs (stateMount rootName : String) (bootPartitionId : Option Nat) : List String :=
  (match bootPartitionId with
    | some partId =>
      [UnixPath.join (UnixPath.join (UnixPath.join stateMount "c/roots") (toString partId)) rootName,
        UnixPath.join (UnixPath.join (UnixPath.join stateMount "roots") (toString partId)) rootName]
    | none => []) ++
  [UnixPath.join (UnixPath.join stateMount "c/roots") rootName]

/-- The default image of `mount_rootfs` (`src/boot.rs:369`). -/
def defaultImage (stateMount img : String) : String :=
  UnixPath.join stateMount (Text.trimStartMatches '/' img)

/-- The choice of the root image (`src/boot.rs:370-387`). -/
def rootImage (stateMount img : String) (verifiedBoot : Bool) (bootPartitionId : Option Nat) :
    Io String := do
  match bootPartitionId with
  | none => return defaultImage stateMount img
  | some partId =>
    match UnixPath.fileName (defaultImage stateMount img) with
    | none => throw (.msg "root image has no file name")
    | some fileName =>
      let slotLinkBase := UnixPath.join (UnixPath.join stateMount "initos") fileName
      match ← firstPartitioned partId verifiedBoot
          [slotLinkBase, defaultImage stateMount img] with
      | some partPath => return partPath
      | none => return defaultImage stateMount img

/-- The firmware image of a slot and its object directory (`src/boot.rs:738-751`). -/
def slotFirmware (stateMount : String) (slot : Nat) : Io (String × String) := do
  let slotDir := UnixPath.join (UnixPath.join stateMount "img") (toString slot)
  let image := UnixPath.join slotDir "firmware-light.composefs"
  let sharedObjects := UnixPath.join stateMount "img/composefs/objects"
  let legacyObjects := UnixPath.join slotDir "firmware-objects/objects"
  let objects := if ← isDir sharedObjects then sharedObjects else legacyObjects
  -- `||` only asks for the objects where the image is there
  let complete ← if ← isFile image then isDir objects else pure false
  if !complete then throw (.msg s!"slot {slot} light image or object directory is missing")
  else return (image, objects)

section

variable (X : Crates)

/-- `mount_rootfs` (`src/boot.rs:321-397`). -/
def mountRootfs (stateMount rootMount img : String) (verifiedBoot : Bool)
    (bootPartitionId : Option Nat) : Io Unit := do
  let rootName ← envVarOr "INITOS_ROOT" "ROOTA"
  match ← firstExisting (rootDirs stateMount rootName bootPartitionId) with
  | some rootPath => recursiveBindMount rootPath rootMount
  | none =>
    let imgPath ← rootImage stateMount img verifiedBoot bootPartitionId
    verifyImageTrusted X imgPath "" verifiedBoot
    mountLoop imgPath rootMount

/-- `mount_slot_composefs_firmware` (`src/boot.rs:732-786`). -/
def mountSlotComposefsFirmware (stateMount rootMount : String) (slot : Nat)
    (verifiedBoot : Bool) : Io Unit := do
  let (image, objects) ← slotFirmware stateMount slot
  verifyImageTrusted X image "" verifiedBoot
  let metadata := UnixPath.join rootMount "mnt/.firmware-composefs"
  let target := UnixPath.join rootMount "mnt/firmware"
  mountLoop image metadata
  mountFilesystemWithOptions "composefs" target "overlay" true
    s!"metacopy=on,redirect_dir=on,lowerdir={metadata}::{objects},verity=require"

/-- `mount_host_image` (`src/boot.rs:989-1025`). -/
def mountHostImage (stateMount rootMount imageName targetRel : String) (verifiedBoot : Bool)
    (bootPartitionId : Option Nat) : Io Unit := do
  match ← findHostImage stateMount imageName bootPartitionId verifiedBoot with
  | none => return ()
  | some imagePath =>
    verifyImageTrusted X imagePath "" verifiedBoot
    mountLoop imagePath (UnixPath.join rootMount targetRel)

end

/-- `kernel_release` (`src/boot.rs:1111-1129`). -/
def kernelRelease : Io String := do
  match ← Fallible.attempt (readToString "/proc/sys/kernel/osrelease") with
  | .ok release => return Text.trim release
  | .error _ =>
    let release ← uname
    match Text.fromUtf8 (release.takeWhile (· ≠ 0)) with
    | some release => return release
    | none => throw (.msg "invalid utf-8 sequence")

end Initos.Boot
