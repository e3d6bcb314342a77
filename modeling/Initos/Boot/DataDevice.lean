import Initos.Mount

/-!
# Finding the data partition

`find_data_device` (`src/boot.rs:221-319`) polls for the labelled partition, first on
the boot disk and then on every disk, and in the end takes the first partition of the
boot disk. Its two loops end by the clock, which is the environment's: `fuel` bounds
the number of polls of the model, and a run that uses it up halts with `Stop.fuel`.
-/

namespace Initos.Boot

open Interact Mount

/-- The loop over the boot disk (`src/boot.rs:231-249`). -/
def scanBootDisk (disk label : String) (deadline : Nat) : (fuel : Nat) → Io (Option String)
  | 0 => Fallible.halt .fuel
  | fuel + 1 => do
    if deadline ≤ (← now) then return none
    else
      match ← Fallible.attempt (findPartitionOnDiskByLabel disk label) with
      | .ok (some dev) => return some dev
      | _ =>
        sleep 500
        scanBootDisk disk label deadline fuel

/-- The last resort when the deadline passes during a pause: partition 1 of the boot disk, if
    it is ext4 (`src/boot.rs:260-289`). -/
def fallbackPartition (bootDisk : Option String) (lastError : Err) : Io String := do
  match bootDisk with
  | none => throw lastError
  | some disk =>
    match ← Fallible.attempt (findPartitionByNumber disk 1) with
    | .ok (some part1) => if ← isExt4 part1 then return part1 else throw lastError
    | _ => throw lastError

/-- The last resort when the deadline passes during a search, which the source writes out a
    second time (`src/boot.rs:291-316`). -/
def fallbackPartitionLate (bootDisk : Option String) (e : Err) : Io String := do
  match bootDisk with
  | none => throw e
  | some disk =>
    match ← Fallible.attempt (findPartitionByNumber disk 1) with
    | .ok (some part1) => if ← isExt4 part1 then return part1 else throw e
    | .ok none => throw e
    | .error _ => throw e

/-- The loop over all disks (`src/boot.rs:253-318`). -/
def waitForLabel (label : String) (bootDisk : Option String) (deadline : Nat) :
    (fuel : Nat) → Io String
  | 0 => Fallible.halt .fuel
  | fuel + 1 => do
    match ← Fallible.attempt (findPartitionByLabel label) with
    | .ok dev => return dev
    | .error e =>
      if (← now) < deadline then
        sleep 1000
        if deadline ≤ (← now) then fallbackPartition bootDisk e
        else waitForLabel label bootDisk deadline fuel
      else fallbackPartitionLate bootDisk e

/-- `find_data_device` (`src/boot.rs:221-319`). -/
def findDataDevice (fuel : Nat) (label : String) (bootDisk : Option String) : Io String := do
  let deadline := (← now) + 20000
  let onBootDisk ← match bootDisk with
    | some disk => scanBootDisk disk label deadline fuel
    | none => pure none
  match onBootDisk with
  | some dev => return dev
  | none => waitForLabel label bootDisk deadline fuel

end Initos.Boot
