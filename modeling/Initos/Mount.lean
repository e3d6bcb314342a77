import Initos.Sys
import Initos.Lib.Text
import Initos.Lib.UnixPath

/-!
# Finding block devices

The searches of `src/mount.rs` over sysfs and the superblocks of the partitions. The
mount calls themselves are calls of `Sys`.
-/

namespace Initos.Mount

open Interact Bytes

/-- `entries.flatten()`: the entries that could be read. -/
def flatten (entries : List (Except Err String)) : List String :=
  entries.filterMap Except.toOption

/-- The first value of a key in a uevent file. -/
def ueventValue (uevent key : String) : Option String :=
  (Text.lines uevent).findSome? fun line => Text.stripPrefix line (key ++ "=")

/-- A line `PARTNAME=label` (`src/mount.rs:115-123` and `320-328`). -/
def hasPartName (uevent label : String) : Bool :=
  (Text.lines uevent).any fun line => Text.stripPrefix line "PARTNAME=" == some label

/-- `read_uevent_value` (`src/mount.rs:130-136`). -/
def readUeventValue (path key : String) : Io (Option String) := do
  let uevent ← readToString path
  return ueventValue uevent key

/-- The label in an ext4 superblock (`src/mount.rs:145-161`). -/
def ext4Label (superblock : List UInt8) : Checked (Option String) := do
  let lo ← index superblock 56
  let hi ← index superblock 57
  if lo ≠ 0x53 ∨ hi ≠ 0xef then return none
  let rawLabel ← slice superblock 120 136
  let label := Text.trim (Text.fromUtf8Lossy (rawLabel.takeWhile (· ≠ 0)))
  return if label = "" then none else some label

theorem ext4Label_checked {superblock : List UInt8} (length : superblock.length = 136) :
    ∃ label, ext4Label superblock = some label := by
  have magic {i : Nat} (small : i < 136) :
      ∃ b, Bytes.index superblock i = some b := ⟨_, Bytes.index_eq_some (length ▸ small)⟩
  obtain ⟨lo, lo_eq⟩ := magic (show 56 < 136 by decide)
  obtain ⟨hi, hi_eq⟩ := magic (show 57 < 136 by decide)
  have rawLabel := Bytes.slice_eq_some superblock (show 120 ≤ 136 by decide)
    (Nat.le_of_eq length.symm)
  simp only [ext4Label, lo_eq, hi_eq, rawLabel, Option.bind_eq_bind, Option.bind_some]
  split <;> exact ⟨_, rfl⟩

/-- `read_ext4_label` (`src/mount.rs:139-162`). -/
def readExt4Label (device : String) : Io (Option String) := do
  let superblock ← readAt device 1024 136
  ofChecked (ext4Label superblock)

/-- `partition_parent_disk` (`src/mount.rs:166-180`). -/
def partitionParentDisk (partitionName : String) : Option String :=
  let rev := partitionName.toList.reverse.dropWhile Text.isDigit
  let rev := match rev with
    | 'p' :: d :: rest => if Text.isDigit d then d :: rest else rev
    | _ => rev
  if rev = [] then none else some (String.ofList rev.reverse)

/-- The first disk of `/sys/block` that has the partition (`src/mount.rs:212-222`). -/
def diskWithPartition (devName : String) : List (Except Err String) → Io (Option String)
  | [] => return none
  | entry :: rest => do
    let diskName ← ofExcept entry
    let partPath := UnixPath.join (UnixPath.join "/sys/block" diskName) devName
    if ← pathExists partPath then
      if ← pathExists (UnixPath.join partPath "partition") then return some ("/dev/" ++ diskName)
      else diskWithPartition devName rest
    else diskWithPartition devName rest

/-- The name-based fallback (`src/mount.rs:224-230`). -/
def parentDiskByName (devName : String) : Io (Option String) := do
  match partitionParentDisk devName with
  | none => return none
  | some diskName =>
    let diskDev := "/dev/" ++ diskName
    if ← pathExists diskDev then return some diskDev else return none

/-- The disk above a partition's sysfs directory (`src/mount.rs:198-209`). -/
def parentDiskBySysfs (partSys : String) : Io (Option String) := do
  if ← pathExists partSys then
    if ← pathExists (UnixPath.join partSys "partition") then
      match ← Fallible.attempt (canonicalize partSys) with
      | .error _ => return none
      | .ok canonical =>
        match (UnixPath.parent canonical).bind UnixPath.fileName with
        | some diskName => return some ("/dev/" ++ diskName)
        | none => return none
    else return none
  else return none

/-- `resolve_parent_disk` (`src/mount.rs:184-233`). -/
def resolveParentDisk (partitionPath : String) : Io (Option String) := do
  match UnixPath.fileName partitionPath with
  | none => throw (.io .invalidInput "cannot extract device name")
  | some devName =>
    if !(← pathExists "/sys/block") then return none
    else
      match ← parentDiskBySysfs (UnixPath.join "/sys/block" devName) with
      | some disk => return some disk
      | none =>
        let entries ← readDir "/sys/block"
        match ← diskWithPartition devName entries with
        | some disk => return some disk
        | none => parentDiskByName devName

/-- The number a partition is sorted by: all digits of its name (`src/mount.rs:256-277`). -/
def sortNumber (device : String) : Nat :=
  let name := (UnixPath.fileName device).getD ""
  (Text.parseU32 (String.ofList (name.toList.filter Text.isDigit))).getD 0

/-- The entries of a disk's sysfs directory that are partitions (`src/mount.rs:246-253`). -/
def partitionEntries (diskSys : String) : List String → Io (List String)
  | [] => return []
  | name :: rest => do
    let isPartition ← pathExists (UnixPath.join (UnixPath.join diskSys name) "partition")
    let others ← partitionEntries diskSys rest
    return if isPartition then ("/dev/" ++ name) :: others else others

/-- `list_disk_partitions` (`src/mount.rs:236-281`). -/
def listDiskPartitions (diskPath : String) : Io (List String) := do
  match UnixPath.fileName diskPath with
  | none => throw (.io .invalidInput "cannot extract disk name")
  | some diskName =>
    let diskSys := "/sys/block/" ++ diskName
    let partitions ← match ← Fallible.attempt (readDir diskSys) with
      | .ok entries => partitionEntries diskSys (flatten entries)
      | .error _ => pure []
    return partitions.mergeSort fun a b => sortNumber a ≤ sortNumber b

/-- `is_ext4` (`src/mount.rs:284-290`). -/
def isExt4 (device : String) : Io Bool := do
  let magic ← readAt device (1024 + 56) 2
  return magic == [0x53, 0xef]

/-- One partition of the scan in `find_partition_on_disk_by_label` (`src/mount.rs:300-337`). -/
def partitionHasLabel (diskPath label part : String) : Io Bool := do
  let byLabel ← Fallible.attempt (readExt4Label part)
  if byLabel = .ok (some label) then return true
  else
    let partName := (UnixPath.fileName part).getD ""
    let diskName := (UnixPath.fileName diskPath).getD ""
    let named ← match ← Fallible.attempt (readToString s!"/sys/block/{diskName}/{partName}/uevent") with
      | .ok uevent => pure (hasPartName uevent label)
      | .error _ => pure false
    if named then return true
    else
      let labelPath := UnixPath.join "/dev/disk/by-label" label
      if ← pathExists labelPath then
        match ← Fallible.attempt (canonicalize labelPath) with
        | .ok canonical => return UnixPath.endsWith canonical part
        | .error _ => return false
      else return false

/-- The loop of `find_partition_on_disk_by_label` (`src/mount.rs:300-338`). -/
def firstWithLabel (diskPath label : String) : List String → Io (Option String)
  | [] => return none
  | part :: rest => do
    if ← partitionHasLabel diskPath label part then return some part
    else firstWithLabel diskPath label rest

/-- `find_partition_on_disk_by_label` (`src/mount.rs:294-341`). -/
def findPartitionOnDiskByLabel (diskPath label : String) : Io (Option String) := do
  let partitions ← listDiskPartitions diskPath
  firstWithLabel diskPath label partitions

/-- The loop of `find_partition_by_number` (`src/mount.rs:350-368`). -/
def firstWithNumber (diskPath : String) (partitionNumber : Nat) : List String → Io (Option String)
  | [] => return none
  | part :: rest => do
    let partName := (UnixPath.fileName part).getD ""
    let diskName := (UnixPath.fileName diskPath).getD ""
    let path := UnixPath.join (UnixPath.join (UnixPath.join "/sys/block" diskName) partName)
      "partition"
    match ← Fallible.attempt (readToString path) with
    | .ok numStr =>
      if Text.parseU32 (Text.trim numStr) = some partitionNumber then return some part
      else firstWithNumber diskPath partitionNumber rest
    | .error _ => firstWithNumber diskPath partitionNumber rest

/-- `find_partition_by_number` (`src/mount.rs:344-371`). -/
def findPartitionByNumber (diskPath : String) (partitionNumber : Nat) : Io (Option String) := do
  let partitions ← listDiskPartitions diskPath
  firstWithNumber diskPath partitionNumber partitions

/-- `device_by_filesystem_label` (`src/mount.rs:85-94`). -/
def deviceByFilesystemLabel (label : String) : Io (Option String) := do
  let labelPath := UnixPath.join "/dev/disk/by-label" label
  if ← pathExists labelPath then
    match ← Fallible.attempt (canonicalize labelPath) with
    | .ok path => return some path
    | .error _ => return some labelPath
  else return none

/-- The loop of `scan_sysfs_for_label` (`src/mount.rs:105-125`). -/
def firstSysfsLabel (label : String) : List String → Io (Option String)
  | [] => return none
  | devName :: rest => do
    let devPath := "/dev/" ++ devName
    let byLabel ← Fallible.attempt (readExt4Label devPath)
    if byLabel = .ok (some label) then return some devPath
    else
      let ueventPath := UnixPath.join (UnixPath.join "/sys/class/block" devName) "uevent"
      match ← Fallible.attempt (readToString ueventPath) with
      | .ok uevent =>
        if hasPartName uevent label then return some devPath else firstSysfsLabel label rest
      | .error _ => firstSysfsLabel label rest

/-- `scan_sysfs_for_label` (`src/mount.rs:98-128`). -/
def scanSysfsForLabel (label : String) : Io (Option String) := do
  if !(← pathExists "/sys/class/block") then return none
  else
    match ← Fallible.attempt (readDir "/sys/class/block") with
    | .ok entries => firstSysfsLabel label (flatten entries)
    | .error _ => return none

/-- One attempt of `find_partition_by_label` (`src/mount.rs:65-71`). -/
def labelAttempt (label : String) : Io (Option String) := do
  match ← deviceByFilesystemLabel label with
  | some dev => return some dev
  | none => scanSysfsForLabel label

/-- The attempts of `find_partition_by_label`; there is no pause after the last. -/
def labelAttempts (label : String) : Nat → Io String
  | 0 => throw (.io .notFound s!"block device with label '{label}' not found")
  | left + 1 => do
    match ← labelAttempt label with
    | some dev => return dev
    | none =>
      if 0 < left then sleep 1000
      labelAttempts label left

/-- `find_partition_by_label` (`src/mount.rs:57-82`). -/
def findPartitionByLabel (label : String) : Io String := do
  if Text.startsWith label "/dev/" then return label
  else labelAttempts label (if Text.startsWith label "USB" then 10 else 1)

/-! ## The boot disk -/

/-- A GPT partition GUID as 32 hexadecimal digits, its first three fields in little
    endian (`src/mount.rs:384-389`). -/
def guidDigits (g : List UInt8) : Checked String := do
  let bytes ← [3, 2, 1, 0, 5, 4, 7, 6, 8, 9, 10, 11, 12, 13, 14, 15].mapM (index g)
  return Text.hex bytes

/-- `value.replace('-', "").to_lowercase()`. -/
def plainGuid (value : String) : String :=
  String.ofList ((value.toList.filter (· ≠ '-')).map Char.toLower)

/-- The loop over `/sys/class/block` (`src/mount.rs:393-425`): a match by GUID ends it,
    the matches by number are collected. -/
def matchBootDisk (partitionGuid : Option String) (partitionNumber : Option Nat) :
    List (Except Err String) → List (String × String) →
    Io (Option (String × String) × List (String × String))
  | [], numberMatches => return (none, numberMatches)
  | entry :: rest, numberMatches => do
    let devName ← ofExcept entry
    let devPath := "/dev/" ++ devName
    let entryPath := UnixPath.join "/sys/class/block" devName
    let partNumPath := UnixPath.join entryPath "partition"
    if !(← pathExists partNumPath) then
      matchBootDisk partitionGuid partitionNumber rest numberMatches
    else
      let actualNumber := match ← Fallible.attempt (readToString partNumPath) with
        | .ok value => Text.parseU32 (Text.trim value)
        | .error _ => none
      if partitionNumber.isSome ∧ actualNumber ≠ partitionNumber then
        matchBootDisk partitionGuid partitionNumber rest numberMatches
      else
        match ← resolveParentDisk devPath with
        | none => matchBootDisk partitionGuid partitionNumber rest numberMatches
        | some diskPath =>
          match partitionGuid with
          | some expectedGuid =>
            let value ← readUeventValue (UnixPath.join entryPath "uevent") "PARTUUID"
            if value.map plainGuid = some expectedGuid then
              return (some (diskPath, devPath), numberMatches)
            else matchBootDisk partitionGuid partitionNumber rest numberMatches
          | none =>
            matchBootDisk partitionGuid partitionNumber rest
              (if partitionNumber.isSome then numberMatches ++ [(diskPath, devPath)]
              else numberMatches)

/-- `find_boot_disk` (`src/mount.rs:375-440`). -/
def findBootDisk (partitionGuid : Option (List UInt8)) (partitionNumber : Option Nat) :
    Io (Option (String × String)) := do
  if !(← pathExists "/sys/class/block") then return none
  else
    let partitionGuid ← match partitionGuid with
      | some g => some <$> ofChecked (guidDigits g)
      | none => pure none
    let entries ← readDir "/sys/class/block"
    match ← matchBootDisk partitionGuid partitionNumber entries [] with
    | (some found, _) => return some found
    | (none, [only]) => return some only
    | (none, _) => return none

end Initos.Mount
