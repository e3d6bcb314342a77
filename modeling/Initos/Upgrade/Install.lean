import Mathlib.Data.List.Basic
import Mathlib.Logic.Function.Basic
import Initos.Lib.LiveFs
import Initos.Lib.Script

/-!
# Installing a slot

`install_slot` of `sidecar/bin/initos-upgrade` (lines 341-416) as its lines, over a file tree with
symbolic links and the boot partitions. A command that copies or removes many files may stop
half-way, and any command may fail. `tar` writes below its `-C` directory only, and what it makes
of the archive is any tree, links included.
-/

namespace Initos.Upgrade

open Script LiveFs

/-! ## The machine -/

/-- The slots that line 352 admits. -/
inductive Slot where
  | s101
  | s102
deriving DecidableEq

/-- `${slot}` as it stands in paths. -/
def Slot.text : Slot → String
  | s101 => "101"
  | s102 => "102"

/-- `/z/img` -/
def imgDir : Location := [.text "z", .text "img"]

/-- `/z/img/${slot}` -/
def slotDir (s : Slot) : Location := imgDir ++ [.text s.text]

/-- `${previous_slot}` (line 398). -/
def previousDir (s : Slot) : Location := imgDir ++ [.text (s.text ++ ".previous")]

/-- `/z/img/composefs/objects` -/
def storeDir : Location := imgDir ++ [.text "composefs", .text "objects"]

/-- The image that is written to the partition (line 410). -/
def bootImage : String := "boot-initos-signed.vfat"

/-- The image that has to be signed (line 387). -/
def firmwareImage : String := "firmware-light.composefs"

/-- The files a payload has to have (lines 380-383). -/
def payloadFiles : List String :=
  [bootImage, "initos.erofs", firmwareImage, "firmware-light.basedir"]

/-- Each file of a payload passes `[ -f ]` in the directory. -/
def Complete (fs : Fs (List UInt8)) (dir : Location) : Prop :=
  ∀ name ∈ payloadFiles, IsFile fs (path (dir ++ [.text name]))

/-- `image_has_signature` (lines 43-46). -/
def ImageHasSignature (fs : Fs (List UInt8)) (dir : Location) (image : String) : Prop :=
  IsFile fs (path (dir ++ [.text (image ++ ".sig")])) ∨
    ∃ signer, fs (dir ++ [.text (image ++ "." ++ signer ++ ".db.sig")]) ≠ none

/-- `partition_device` (lines 317-324), for any number. -/
def partitionName (disk number : String) : String :=
  if disk.toList.getLast?.any Char.isDigit then disk ++ "p" ++ number else disk ++ number

/-- `${partition}` (line 365). -/
def partitionDevice (disk : String) (slot : Slot) : String := partitionName disk slot.text

/-- The slots have different partitions, whatever the disks. -/
theorem partitionDevice_ne {disk disk' : String} {slot slot' : Slot} (different : slot ≠ slot') :
    partitionDevice disk slot ≠ partitionDevice disk' slot' := by
  have last : ∀ disk slot, (partitionDevice disk slot).toList.getLast? =
      slot.text.toList.getLast? := by
    intro disk slot
    cases slot <;> unfold partitionDevice partitionName <;> split <;> simp [Slot.text]
  intro same
  have ends := (last disk slot).symm.trans
    ((congrArg (·.toList.getLast?) same).trans (last disk' slot'))
  cases slot <;> cases slot' <;> simp_all [Slot.text]

/-- What a run is given: its arguments, the release directory, and the name `mktemp` picks. -/
structure Install where
  slot : Slot
  disk : String
  confirm : String
  /-- `initos-signed-slot.tar.gz` is a file. -/
  hasArchive : Bool
  /-- `SHA256SUMS` is a file. -/
  hasSums : Bool
  /-- The tree that `tar` makes of the archive. -/
  payload : Fs (List UInt8)
  payload_dir : payload [] = some .dir
  process : Nat

namespace Install

/-- `${partition}` -/
def partition (a : Install) : String := partitionDevice a.disk a.slot

/-- `${slot_stage}` (line 377). -/
def stageDir (a : Install) : Location := imgDir ++ [.temp ".initos-slot." a.process 0]

/-- The path of the image that `dd` reads (line 410). -/
def imagePath (a : Install) : Path := path (slotDir a.slot ++ [.text bootImage])

end Install

/-- The file tree, and the block devices with what they hold. -/
structure Machine where
  tree : Fs (List UInt8)
  partition : String → List UInt8
  isBlock : String → Bool

/-- What a device holds after bytes have been written from its start. -/
def overlay (old bytes : List UInt8) : List UInt8 := bytes ++ old.drop bytes.length

theorem overlay_nil (old : List UInt8) : overlay old [] = old := rfl

/-- Writing leaves the device as it was if the bytes were there. -/
theorem overlay_eq_self_iff {old bytes : List UInt8} : overlay old bytes = old ↔ bytes <+: old := by
  constructor
  · intro same
    exact ⟨_, same⟩
  · rintro ⟨rest, rfl⟩
    simp [overlay]

/-- Writing a longer start of the same bytes covers the shorter one. -/
theorem overlay_overlay_take (old bytes : List UInt8) (j k : Nat) :
    overlay (overlay old (bytes.take j)) (bytes.take k) = overlay old (bytes.take (max j k)) := by
  rcases Nat.le_total j k with le | le
  · have short : (bytes.take j).length ≤ (bytes.take k).length := by
      rw [List.length_take, List.length_take]
      omega
    rw [Nat.max_eq_right le]
    simp only [overlay, List.drop_append, List.drop_drop]
    rw [List.drop_eq_nil_of_le short, List.nil_append, Nat.add_sub_cancel' short]
  · rw [Nat.max_eq_left le]
    have split : bytes.take j = bytes.take k ++ (bytes.take j).drop k := by
      conv_lhs => rw [← List.take_append_drop k (bytes.take j)]
      rw [List.take_take, Nat.min_eq_left le]
    rcases Nat.le_total k bytes.length with within | beyond
    · have length : (bytes.take k).length = k := by simp [within]
      have longer : k ≤ (bytes.take j).length := by
        rw [List.length_take]
        omega
      simp only [overlay, length]
      rw [List.drop_append_of_le_length longer, ← List.append_assoc, ← split]
    · rw [List.take_of_length_le beyond, List.take_of_length_le (Nat.le_trans beyond le)]
      simp [overlay]

/-! ## The script -/

/-- The commands of `install_slot`, in the order of its lines. -/
inductive Command where
  /-- `cd "${release_dir}"` (line 348) -/
  | enterRelease
  /-- `echo message >&2; exit 1` -/
  | abort (message : String)
  /-- `sha256sum -c SHA256SUMS` (line 374) -/
  | sha256sum
  /-- `install -d -m 0755 /z/img` (line 376) -/
  | installDir
  /-- `mktemp -d /z/img/.initos-slot.XXXXXX` (line 377) -/
  | mktemp
  /-- `tar -xzf "${slot_archive}" -C "${slot_stage}"` (line 379) -/
  | tar
  /-- `composefs-info missing-objects` (line 395) -/
  | missingObjects
  /-- `mv -T "/z/img/${slot}" "${previous_slot}"` (line 404) -/
  | backup
  /-- `mv -T "${slot_stage}" "/z/img/${slot}"` (line 406) -/
  | activate
  /-- `sync` (line 407) -/
  | syncSlot
  /-- `dd` (line 410) -/
  | dd
  /-- `sync` (line 412) -/
  | syncPartition
  /-- `rm -rf "${previous_slot}"` (line 413) -/
  | removePrevious
  /-- `rm -rf -- "${slot_stage}"`, the EXIT trap (line 378) -/
  | removeStage
deriving DecidableEq

/-- The tests of `install_slot`, in the order of its lines. -/
inductive Check where
  /-- `[ "${confirm}" = --write ]` (line 356) -/
  | confirmed
  /-- `[ -b "${disk}" ]` (line 360) -/
  | diskIsBlock
  /-- `[ -b "${partition}" ]` (line 366) -/
  | partitionIsBlock
  /-- `[ -f "${slot_archive}" ] && [ -f "${sums}" ]` (line 370) -/
  | releaseFiles
  /-- The files of the payload (lines 380-383) -/
  | complete
  /-- `image_has_signature` (line 387) -/
  | signed
  /-- `[ -d /z/img/composefs/objects ]` (line 391) -/
  | storeExists
  /-- `[ -e "${previous_slot}" ]` (line 399) -/
  | previousExists
  /-- `[ -e "/z/img/${slot}" ]` (line 403) -/
  | slotExists

section Effects

variable (a : Install)

namespace Machine

/-- A command that changes the file tree. -/
def OnTree (R : Fs (List UInt8) → Fs (List UInt8) → Prop) (w w' : Machine) : Prop :=
  ∃ fs, R w.tree fs ∧ w' = { w with tree := fs }

/-- The machine with these bytes on the partition. -/
def withPartition (w : Machine) (bytes : List UInt8) : Machine :=
  { w with partition := Function.update w.partition a.partition bytes }

end Machine

/-- What a command may do before it succeeds or fails. -/
def part : Command → Machine → Machine → Prop
  | .installDir, w, w' => w.OnTree (MakesDir (path imgDir)) w'
  | .tar, w, w' => w.OnTree (WorksIn (path a.stageDir)) w'
  | .dd, w, w' => ∃ image k, Reads w.tree a.imagePath image ∧
      (image.take k).length ≤ (w.partition a.partition).length ∧
      w' = w.withPartition a (overlay (w.partition a.partition) (image.take k))
  | .removePrevious, w, w' => w.OnTree (Prunes (path (previousDir a.slot))) w'
  | .removeStage, w, w' => w.OnTree (Prunes (path a.stageDir)) w'
  | _, _, _ => False

/-- What a command has done when it succeeds. -/
def whole : Command → Machine → Machine → Prop
  | .abort _, _, _ => False
  | .installDir, w, w' => IsDir w.tree (path imgDir) ∧ w' = w
  | .mktemp, w, w' => w.OnTree (Creates .dir (path a.stageDir)) w'
  | .tar, w, w' => w.OnTree (Unpacks a.payload (path a.stageDir)) w'
  | .backup, w, w' => w.OnTree (Renames (path (slotDir a.slot)) (path (previousDir a.slot))) w'
  | .activate, w, w' => w.OnTree (Renames (path a.stageDir) (path (slotDir a.slot))) w'
  | .dd, w, w' => ∃ image, Reads w.tree a.imagePath image ∧
      image.length ≤ (w.partition a.partition).length ∧
      w' = w.withPartition a (overlay (w.partition a.partition) image)
  | .removePrevious, w, w' => Pruned w.tree (path (previousDir a.slot)) ∧ w' = w
  | .removeStage, w, w' => Pruned w.tree (path a.stageDir) ∧ w' = w
  | .enterRelease, w, w' | .sha256sum, w, w' | .missingObjects, w, w' | .syncSlot, w, w'
  | .syncPartition, w, w' => w' = w

/-- When a test succeeds. -/
def test : Check → Machine → Prop
  | .confirmed, _ => a.confirm = "--write"
  | .diskIsBlock, w => w.isBlock a.disk
  | .partitionIsBlock, w => w.isBlock a.partition
  | .releaseFiles, _ => a.hasArchive ∧ a.hasSums
  | .complete, w => Complete w.tree a.stageDir
  | .signed, w => ImageHasSignature w.tree a.stageDir firmwareImage
  | .storeExists, w => IsDir w.tree (path storeDir)
  | .previousExists, w => Exists w.tree (path (previousDir a.slot))
  | .slotExists, w => Exists w.tree (path (slotDir a.slot))

/-- The commands and tests of a run. -/
def effects : Effects Command Check Machine := ⟨part a, whole a, test a⟩

/-- Go on if the check holds, else report an error and exit. -/
def require (t : Check) (message : String) : Line Command Check :=
  .cond t [] [.run (.abort message)]

/-- Lines 399-414. -/
def activation : List (Line Command Check) :=
  [.cond .previousExists [.run (.abort
      s!"ERROR: previous interrupted upgrade backup exists: /z/img/{a.slot.text}.previous")] [],
    .cond .slotExists [.run .backup] [],
    .run .activate,
    .run .syncSlot,
    .run .dd,
    .run .syncPartition,
    .run .removePrevious,
    .trap []]

/-- Lines 374-396. -/
def staging : List (Line Command Check) :=
  [.run .sha256sum,
    .run .installDir,
    .run .mktemp,
    .trap [.removeStage],
    .run .tar,
    require .complete "ERROR: signed release payload is incomplete",
    require .signed "ERROR: firmware payload contains an unsigned image",
    require .storeExists
      "ERROR: shared composefs object store is missing; import OCI or fetch Git firmware first",
    .run .missingObjects]

/-- Lines 348-373. -/
def requests : List (Line Command Check) :=
  [.run .enterRelease,
    require .confirmed "ERROR: refusing to write a boot partition without --write",
    require .diskIsBlock s!"ERROR: not a block device: {a.disk}",
    require .partitionIsBlock s!"ERROR: slot partition is not a block device: {a.partition}",
    require .releaseFiles
      "ERROR: release directory must contain the signed slot archive and SHA256SUMS"]

/-- `install_slot` (lines 341-416). -/
def installSlot : List (Line Command Check) := requests a ++ (staging ++ activation a)

/-- What a run may have come to at some moment; it may be cut off there. -/
def Runs (w : Machine) (failed : Option Command) (w' : Machine) : Prop :=
  ∃ p, Reaches (effects a) (start (installSlot a), w) (p, w') ∧ p.failed = failed

end Effects

end Initos.Upgrade
