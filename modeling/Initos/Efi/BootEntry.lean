import Initos.Efi.Vars

/-!
# The boot entry

The slot a system was started from is the partition number in the device path of the
current boot option (`src/efi.rs:127-369`). Payloads are indexed as the code does,
with a check at every index.
-/

namespace Initos.Efi

open Interact Bytes

/-- `BootDeviceInfo` (`src/efi.rs:19-30`). -/
structure BootDeviceInfo where
  partitionNumber : Nat
  partitionGuid : Option (List UInt8)
  mbrSignature : Option Nat
  partitionFormat : UInt8
  deriving DecidableEq

/-- The GUID as Linux writes a PARTUUID. -/
def guidUuid (g : List UInt8) : Checked String := do
  let timeLow ← [3, 2, 1, 0].mapM (index g)
  let timeMid ← [5, 4].mapM (index g)
  let timeHigh ← [7, 6].mapM (index g)
  let clock ← [8, 9].mapM (index g)
  let node ← [10, 11, 12, 13, 14, 15].mapM (index g)
  return Text.hex timeLow ++ "-" ++ Text.hex timeMid ++ "-" ++ Text.hex timeHigh ++ "-" ++
    Text.hex clock ++ "-" ++ Text.hex node

/-- `partition_guid_uuid` (`src/efi.rs:34-41`). -/
def BootDeviceInfo.partitionGuidUuid (info : BootDeviceInfo) : Checked (Option String) :=
  match info.partitionGuid with
  | none => some none
  | some g => some <$> guidUuid g

/-- `u16::from_le_bytes([b[off], b[off + 1]])`. -/
def readLe16 (b : List UInt8) (off : Nat) : Checked Nat := do
  return ofLe16 (← index b off) (← index b (off + 1))

/-- Skip the NUL-terminated UTF-16 description: the offset behind it, if it ends
    (`src/efi.rs:266-276`). -/
def skipDescription (payload : List UInt8) (offset : Nat) : Checked (Option Nat) := do
  if _more : offset + 1 < payload.length then
    let charVal ← readLe16 payload offset
    if charVal = 0 then return some (offset + 2)
    else skipDescription payload (offset + 2)
  else return none
termination_by payload.length - offset

/-- A Hard Drive node (`src/efi.rs:318-362`). -/
def hardDriveNode (filePathList : List UInt8) (base nodeLength : Nat) :
    Checked BootDeviceInfo := do
  let partNum ← readLe32 filePathList (base + 4)
  if nodeLength ≥ 42 then
    let partitionFormat ← index filePathList (base + 40)
    let signatureType ← index filePathList (base + 41)
    if partitionFormat = 2 ∧ signatureType = 2 then
      let guid ← slice filePathList (base + 24) (base + 40)
      return ⟨partNum, some guid, none, partitionFormat⟩
    else if partitionFormat = 1 ∧ signatureType = 1 then
      let signature ← readLe32 filePathList (base + 24)
      return ⟨partNum, none, some signature, partitionFormat⟩
    else return ⟨partNum, none, none, partitionFormat⟩
  else if nodeLength ≥ 25 then
    let partitionFormat ← index filePathList (base + 24)
    return ⟨partNum, none, none, partitionFormat⟩
  else return ⟨partNum, none, none, 0⟩

/-- The walk over the device path nodes (`src/efi.rs:304-366`). -/
def walkNodes (filePathList : List UInt8) (nodeOffset : Nat) : Checked (Option BootDeviceInfo) := do
  if _more : nodeOffset + 4 ≤ filePathList.length then
    let nodeType ← index filePathList nodeOffset
    let nodeSubtype ← index filePathList (nodeOffset + 1)
    let nodeLength ← readLe16 filePathList (nodeOffset + 2)
    if _stop : nodeLength < 4 ∨ nodeOffset + nodeLength > filePathList.length then return none
    else if nodeType = 4 ∧ nodeSubtype = 1 then
      return some (← hardDriveNode filePathList nodeOffset nodeLength)
    else walkNodes filePathList (nodeOffset + nodeLength)
  else return none
termination_by filePathList.length - nodeOffset

/-- The file path list of a boot option (`src/efi.rs:252-302`). -/
def filePathListOf (bootVarName : String) (payload : List UInt8) :
    Checked (Except Err (List UInt8)) := do
  if payload.length < 6 then
    return .error (.io .invalidData
      s!"Boot variable {bootVarName} payload too short: {payload.length} bytes")
  else
    let filePathListLen ← readLe16 payload 4
    match ← skipDescription payload 6 with
    | none =>
      return .error (.io .invalidData
        s!"Boot variable {bootVarName} Description is not null-terminated")
    | some offset =>
      let filePathListEnd := offset + filePathListLen
      if filePathListEnd > payload.length then
        return .error (.io .invalidData
          s!"Boot variable {bootVarName} FilePathList extends beyond payload ({filePathListEnd} > {payload.length})")
      else return .ok (← slice payload offset filePathListEnd)

/-- The walk of `extract_boot_partition_id`, which passes over Hard Drive nodes shorter than
    42 bytes (`src/efi.rs:197-226`). -/
def walkSlots (filePathList : List UInt8) (nodeOffset : Nat) : Checked (Option Nat) := do
  if _more : nodeOffset + 4 ≤ filePathList.length then
    let nodeType ← index filePathList nodeOffset
    let nodeSubtype ← index filePathList (nodeOffset + 1)
    let nodeLength ← readLe16 filePathList (nodeOffset + 2)
    if _stop : nodeLength < 4 ∨ nodeOffset + nodeLength > filePathList.length then return none
    else if (nodeType = 4 ∧ nodeSubtype = 1) ∧ nodeLength ≥ 42 then
      return some (← readLe32 filePathList (nodeOffset + 4))
    else walkSlots filePathList (nodeOffset + nodeLength)
  else return none
termination_by filePathList.length - nodeOffset

/-- What the two decoders have in common: everything but the walk. -/
def extractWith {α : Type} (walk : List UInt8 → Nat → Checked (Option α)) (basePath : String) :
    Io (Option α) := do
  match ← Fallible.attempt (readBootCurrent basePath) with
  | .error _ => return none
  | .ok bootCurrent =>
    let bootVarName := "Boot" ++ Text.hex16Upper bootCurrent
    match ← Fallible.attempt (readEfiVar bootVarName basePath) with
    | .error _ => return none
    | .ok payload =>
      let list ← ofChecked (filePathListOf bootVarName payload)
      let filePathList ← ofExcept list
      ofChecked (walk filePathList 0)

/-- `extract_boot_device_info` (`src/efi.rs:232-369`). -/
def extractBootDeviceInfo (basePath : String) : Io (Option BootDeviceInfo) :=
  extractWith walkNodes basePath

/-- `extract_boot_partition_id` (`src/efi.rs:128-228`). -/
def extractBootPartitionId (basePath : String) : Io (Option Nat) := extractWith walkSlots basePath

/-! ## Which payloads the walk survives

The walk admits a Hard Drive node of any length from 4 on, but reads the partition number
from its bytes 4 to 7. `firstHardDrive` is the node the walk stops at. -/

/-- The number `readLe16` reads where it does not abort. -/
def le16At (b : List UInt8) (off : Nat) : Nat := ofLe16 (b.getD off 0) (b.getD (off + 1) 0)

theorem readLe16_eq_some (b : List UInt8) {off : Nat} (inside : off + 2 ≤ b.length) :
    readLe16 b off = some (le16At b off) := by
  simp only [readLe16, index_eq_some (show off < b.length by omega),
    index_eq_some (show off + 1 < b.length by omega)]
  rfl

/-- The offset of the first Hard Drive node that the walk admits, from `nodeOffset` on. -/
def firstHardDrive (filePathList : List UInt8) (nodeOffset : Nat) : Option Nat :=
  if _more : nodeOffset + 4 ≤ filePathList.length then
    if _stop : le16At filePathList (nodeOffset + 2) < 4 ∨
        nodeOffset + le16At filePathList (nodeOffset + 2) > filePathList.length then none
    else if filePathList.getD nodeOffset 0 = 4 ∧ filePathList.getD (nodeOffset + 1) 0 = 1 then
      some nodeOffset
    else firstHardDrive filePathList (nodeOffset + le16At filePathList (nodeOffset + 2))
  else none
termination_by filePathList.length - nodeOffset

/-- A Hard Drive node of `nodeLength` bytes is read without an abort just when its first
    eight bytes are there: the later fields lie inside the length that is asked for. -/
theorem hardDriveNode_isSome_iff {filePathList : List UInt8} {base nodeLength : Nat}
    (admitted : base + nodeLength ≤ filePathList.length) :
    (hardDriveNode filePathList base nodeLength).isSome = true ↔
      base + 8 ≤ filePathList.length := by
  by_cases number : base + 8 ≤ filePathList.length
  · refine iff_of_true ?_ number
    have partNum := readLe32_eq_some filePathList (base + 4) (by omega)
    unfold hardDriveNode
    rw [partNum]
    by_cases gpt : nodeLength ≥ 42
    · have format := index_eq_some (b := filePathList) (show base + 40 < _ by omega)
      have sigType := index_eq_some (b := filePathList) (show base + 41 < _ by omega)
      have guid := slice_eq_some filePathList (show base + 24 ≤ base + 40 by omega) (by omega)
      have signature := readLe32_eq_some filePathList (base + 24) (by omega)
      simp only [gpt, if_true, format, sigType, guid, signature, Option.bind_eq_bind,
        Option.bind_some]
      split
      · rfl
      · split <;> rfl
    · by_cases mbr : nodeLength ≥ 25
      · have format := index_eq_some (b := filePathList) (show base + 24 < _ by omega)
        simp only [gpt, mbr, if_true, if_false, format, Option.bind_eq_bind, Option.bind_some]
        rfl
      · simp only [gpt, mbr, if_false, Option.bind_eq_bind, Option.bind_some]
        rfl
  · refine iff_of_false ?_ number
    -- the last byte of the partition number lies behind the list
    have absent : readLe32 filePathList (base + 4) = none := by
      have last : index filePathList (base + 4 + 3) = none :=
        List.getElem?_eq_none (by omega)
      simp [readLe32, last]
    simp [hardDriveNode, absent]

/-- What a walk reads of the header of a node. -/
theorem header_eq_some {filePathList : List UInt8} {nodeOffset : Nat}
    (more : nodeOffset + 4 ≤ filePathList.length) :
    index filePathList nodeOffset = some (filePathList.getD nodeOffset 0) ∧
      index filePathList (nodeOffset + 1) = some (filePathList.getD (nodeOffset + 1) 0) ∧
      readLe16 filePathList (nodeOffset + 2) = some (le16At filePathList (nodeOffset + 2)) :=
  ⟨index_eq_some (by omega), index_eq_some (by omega), readLe16_eq_some filePathList (by omega)⟩

/-- The walk stops at the first Hard Drive node. -/
theorem walkNodes_eq (filePathList : List UInt8) (nodeOffset : Nat) :
    walkNodes filePathList nodeOffset =
      match firstHardDrive filePathList nodeOffset with
      | none => some none
      | some base =>
        (hardDriveNode filePathList base (le16At filePathList (base + 2))).map some := by
  fun_induction firstHardDrive filePathList nodeOffset with
  | case1 offset more stop =>
    obtain ⟨type, subtype, length⟩ := header_eq_some more
    rw [walkNodes, dif_pos more, type, subtype, length]
    simp only [Option.bind_eq_bind, Option.bind_some, dif_pos stop]
    rfl
  | case2 offset more go drive =>
    obtain ⟨type, subtype, length⟩ := header_eq_some more
    rw [walkNodes, dif_pos more, type, subtype, length]
    simp only [Option.bind_eq_bind, Option.bind_some, dif_neg go, if_pos drive]
    cases hardDriveNode filePathList offset (le16At filePathList (offset + 2)) <;> rfl
  | case3 offset more go other ih =>
    obtain ⟨type, subtype, length⟩ := header_eq_some more
    rw [walkNodes, dif_pos more, type, subtype, length]
    simp only [Option.bind_eq_bind, Option.bind_some, dif_neg go, if_neg other]
    exact ih
  | case4 offset done =>
    rw [walkNodes, dif_neg done]
    rfl

/-- A node the walk admits lies inside the list. -/
theorem firstHardDrive_inside {filePathList : List UInt8} {nodeOffset base : Nat}
    (first : firstHardDrive filePathList nodeOffset = some base) :
    base + le16At filePathList (base + 2) ≤ filePathList.length := by
  fun_induction firstHardDrive filePathList nodeOffset with
  | case1 => cases first
  | case2 offset more go drive =>
    obtain rfl := Option.some_inj.mp first
    omega
  | case3 offset more go other ih => exact ih first
  | case4 => cases first

/-- The walk aborts exactly at a Hard Drive node without its first eight bytes. -/
theorem walkNodes_isSome_iff (filePathList : List UInt8) (nodeOffset : Nat) :
    (walkNodes filePathList nodeOffset).isSome = true ↔
      ∀ base, firstHardDrive filePathList nodeOffset = some base →
        base + 8 ≤ filePathList.length := by
  rw [walkNodes_eq]
  cases first : firstHardDrive filePathList nodeOffset with
  | none => simp
  | some base =>
    have node := hardDriveNode_isSome_iff (firstHardDrive_inside first)
    simpa using node

/-- Skipping the description reads inside the payload. -/
theorem skipDescription_eq_some (payload : List UInt8) (offset : Nat) :
    ∃ found, skipDescription payload offset = some found := by
  induction count : payload.length - offset using Nat.strongRecOn generalizing offset with
  | ind n ih =>
    rw [skipDescription]
    by_cases more : offset + 1 < payload.length
    · have char := readLe16_eq_some payload (show offset + 2 ≤ _ by omega)
      simp only [more, dif_pos, char, Option.bind_eq_bind, Option.bind_some]
      by_cases zero : le16At payload offset = 0
      · exact ⟨some (offset + 2), by simp [zero]⟩
      · simp only [zero, if_false]
        exact ih _ (by omega) _ rfl
    · exact ⟨none, by simp [more]⟩

/-- So does finding the file path list. -/
theorem filePathListOf_isSome (bootVarName : String) (payload : List UInt8) :
    (filePathListOf bootVarName payload).isSome = true := by
  unfold filePathListOf
  split
  · rfl
  · have length := readLe16_eq_some payload (show 4 + 2 ≤ _ by omega)
    obtain ⟨found, skipped⟩ := skipDescription_eq_some payload 6
    simp only [length, skipped, Option.bind_eq_bind, Option.bind_some]
    cases found with
    | none => rfl
    | some offset =>
      dsimp only
      split
      · rfl
      · have list := slice_eq_some payload
          (show offset ≤ offset + le16At payload 4 by omega) (by omega)
        rw [list]
        rfl

/-! ## The variables -/

/-- The answers of a system whose files have these contents. -/
def OnFiles (files : String → Except Err (List UInt8)) : Rely Sys := fun _ e =>
  ∀ path r, e = ⟨.readFile path, r⟩ → r = files path

/-- A system with these files, on which everything else fails. -/
def filesSystem (files : String → Except Err (List UInt8)) : (c : SysCmd) → c.Resp
  | .readFile path => files path
  | c => c.fail (.io .notFound "not found")

theorem filesSystem_onFiles (files : String → Except Err (List UInt8)) (h : History Sys)
    (c : SysCmd) : OnFiles files h ⟨c, filesSystem files c⟩ := by
  intro path r same
  cases c with
  | readFile path' =>
    simp only [Event.mk.injEq, SysCmd.readFile.injEq] at same
    obtain ⟨rfl, same⟩ := same
    exact (eq_of_heq same).symm
  | _ => cases same

/-- The payload of a variable in the files. -/
def efiPayload (files : String → Except Err (List UInt8)) (name basePath : String) :
    Except Err (List UInt8) := do
  let data ← files (efiVarPath name basePath)
  if data.length < 4 then
    .error (.io .invalidData s!"EFI variable too short: {data.length} bytes")
  else .ok (data.drop 4)

/-- The number of the current boot option in the files. -/
def bootCurrentOf (files : String → Except Err (List UInt8)) (basePath : String) :
    Except Err Nat := do
  let payload ← efiPayload files "BootCurrent" basePath
  if payload.length < 2 then
    .error (.io .invalidData s!"BootCurrent payload too short: {payload.length} bytes")
  else .ok (le16At payload 0)

section

variable (files : String → Except Err (List UInt8)) (basePath : String) (h : History Sys)

/-- What `read_efi_var` makes of the file. -/
theorem readEfiVar_wp (name : String) :
    Prog.wp (OnFiles files) (fun _ out => out = .done (efiPayload files name basePath))
      (readEfiVar name basePath).run h := by
  rw [readEfiVar, Fallible.wp_call_bind]
  intro answer fromFiles
  have read : answer = files (efiVarPath name basePath) := fromFiles _ _ rfl
  subst read
  unfold efiPayload
  cases files (efiVarPath name basePath) with
  | error e => exact (Prog.wp_pure _ _ _ _).mpr rfl
  | ok data =>
    rw [Fallible.cont_ok, stripAttributes]
    by_cases short : data.length < 4
    · rw [if_pos short, Fallible.run_throw, Prog.wp_pure]
      simp only [bind, Except.bind, short, if_true]
    · have rest := slice_eq_some data (show 4 ≤ data.length by omega) (Nat.le_refl _)
      have whole : (data.drop 4).take (data.length - 4) = data.drop 4 :=
        List.take_of_length_le (by simp)
      rw [if_neg short, rest, ofChecked, Fallible.run_pure, Prog.wp_pure, whole]
      simp only [bind, Except.bind, short, if_false]

/-- What `read_boot_current` makes of its file. -/
theorem readBootCurrent_wp :
    Prog.wp (OnFiles files) (fun _ out => out = .done (bootCurrentOf files basePath))
      (readBootCurrent basePath).run h := by
  rw [readBootCurrent, Fallible.wp_bind]
  apply Prog.wp_mono (readEfiVar_wp files basePath h "BootCurrent")
  rintro h' _ rfl
  unfold bootCurrentOf
  cases efiPayload files "BootCurrent" basePath with
  | error e => exact (Prog.wp_pure _ _ _ _).mpr rfl
  | ok payload =>
    rw [Prog.andThen_done, Fallible.cont_ok]
    by_cases short : payload.length < 2
    · rw [if_pos short, Fallible.throw_bind, Fallible.run_throw, Prog.wp_pure]
      simp only [bind, Except.bind, short, if_true]
    · have lo := index_eq_some (b := payload) (show 0 < _ by omega)
      have hi := index_eq_some (b := payload) (show 1 < _ by omega)
      rw [if_neg short, lo, hi]
      refine (Prog.wp_pure _ _ _ _).mpr ?_
      simp only [bind, Except.bind, short, if_false]
      rfl

end

/-- The first Hard Drive node of the current boot option, where there is one, has its first
    eight bytes inside the file path list. -/
def HardDriveInside (files : String → Except Err (List UInt8)) (basePath : String) : Prop :=
  ∀ bootCurrent payload filePathList base, bootCurrentOf files basePath = .ok bootCurrent →
    efiPayload files ("Boot" ++ Text.hex16Upper bootCurrent) basePath = .ok payload →
    filePathListOf ("Boot" ++ Text.hex16Upper bootCurrent) payload = some (.ok filePathList) →
    firstHardDrive filePathList 0 = some base → base + 8 ≤ filePathList.length

/-- The same for one file path list. -/
def DriveInside (bootVarName : String) (payload : List UInt8) : Prop :=
  ∀ filePathList base, filePathListOf bootVarName payload = some (.ok filePathList) →
    firstHardDrive filePathList 0 = some base → base + 8 ≤ filePathList.length

theorem hardDriveInside_iff {files : String → Except Err (List UInt8)} {basePath : String}
    {bootCurrent : Nat} {payload : List UInt8}
    (current : bootCurrentOf files basePath = .ok bootCurrent)
    (option : efiPayload files ("Boot" ++ Text.hex16Upper bootCurrent) basePath = .ok payload) :
    HardDriveInside files basePath ↔
      DriveInside ("Boot" ++ Text.hex16Upper bootCurrent) payload := by
  constructor
  · intro inside filePathList base
    exact inside bootCurrent payload filePathList base current option
  · intro inside bootCurrent' payload' filePathList base current' option'
    rw [current] at current'
    cases current'
    rw [option] at option'
    cases option'
    exact inside filePathList base

/-- A failed check aborts the process. -/
def outcomeOf {α : Type} : Checked α → Outcome Sys (Except Err α)
  | none => .halted .panic
  | some a => .done (.ok a)

/-- What a decoder comes to on these files. -/
def decodeWith {α : Type} (walk : List UInt8 → Nat → Checked (Option α))
    (files : String → Except Err (List UInt8)) (basePath : String) :
    Outcome Sys (Except Err (Option α)) :=
  match bootCurrentOf files basePath with
  | .error _ => .done (.ok none)
  | .ok bootCurrent =>
    match efiPayload files ("Boot" ++ Text.hex16Upper bootCurrent) basePath with
    | .error _ => .done (.ok none)
    | .ok payload =>
      match filePathListOf ("Boot" ++ Text.hex16Upper bootCurrent) payload with
      | none => .halted .panic
      | some (.error e) => .done (.error e)
      | some (.ok filePathList) => outcomeOf (walk filePathList 0)

/-- The decoders are functions of the two files. -/
theorem extractWith_wp {α : Type} (walk : List UInt8 → Nat → Checked (Option α))
    (files : String → Except Err (List UInt8)) (basePath : String) (h : History Sys) :
    Prog.wp (OnFiles files) (fun _ out => out = decodeWith walk files basePath)
      (extractWith walk basePath).run h := by
  unfold decodeWith
  rw [extractWith, Fallible.wp_bind, Fallible.wp_attempt]
  apply Prog.wp_mono (readBootCurrent_wp files basePath h)
  rintro h₁ _ rfl
  rw [Prog.andThen_done, Prog.wp_pure, Prog.andThen_done, Fallible.cont_ok]
  cases bootCurrentOf files basePath with
  | error e => exact (Prog.wp_pure _ _ _ _).mpr rfl
  | ok bootCurrent =>
    dsimp only
    rw [Fallible.wp_bind, Fallible.wp_attempt]
    apply Prog.wp_mono (readEfiVar_wp files basePath h₁ ("Boot" ++ Text.hex16Upper bootCurrent))
    rintro h₂ _ rfl
    rw [Prog.andThen_done, Prog.wp_pure, Prog.andThen_done, Fallible.cont_ok]
    cases efiPayload files ("Boot" ++ Text.hex16Upper bootCurrent) basePath with
    | error e => exact (Prog.wp_pure _ _ _ _).mpr rfl
    | ok payload =>
      dsimp only
      match filePathListOf ("Boot" ++ Text.hex16Upper bootCurrent) payload with
      | none => exact (Prog.wp_halt _ _ _ _).mpr rfl
      | some (.error e) => exact (Prog.wp_pure _ _ _ _).mpr rfl
      | some (.ok filePathList) =>
        rw [ofChecked, pure_bind, ofExcept, pure_bind]
        dsimp only
        cases walk filePathList 0 with
        | none => exact (Prog.wp_halt _ _ _ _).mpr rfl
        | some found => exact (Prog.wp_pure _ _ _ _).mpr rfl

theorem extractWith_runs {α : Type} {walk : List UInt8 → Nat → Checked (Option α)}
    {files : String → Except Err (List UInt8)} {basePath : String} {tr : History Sys}
    {out : Outcome Sys (Except Err (Option α))} (run : Runs (extractWith walk basePath).run tr out)
    (onFiles : Admits (OnFiles files) [] tr) : out = decodeWith walk files basePath :=
  (Prog.wp_iff_runs _ _ _ _).mp (extractWith_wp walk files basePath []) tr out run onFiles

/-- The computation returns where `inside` holds, and aborts where it does not. -/
def ReturnsIff {α : Type} (inside : Prop) (out : Outcome Sys (Except Err α)) : Prop :=
  (inside → ∃ r, out = .done r) ∧ (¬inside → out = .halted .panic)

theorem returnsIff_of_done {α : Type} {inside : Prop} (r : Except Err α) (holds : inside) :
    ReturnsIff inside (.done r : Outcome Sys (Except Err α)) :=
  ⟨fun _ => ⟨r, rfl⟩, fun outside => absurd holds outside⟩

/-- The walk aborts exactly at a node that is cut off. -/
theorem decodeWith_walkNodes_returnsIff (files : String → Except Err (List UInt8))
    (basePath : String) :
    ReturnsIff (HardDriveInside files basePath) (decodeWith walkNodes files basePath) := by
  unfold decodeWith
  cases current : bootCurrentOf files basePath with
  | error e =>
    refine returnsIff_of_done _ fun bootCurrent payload filePathList base current' => ?_
    rw [current] at current'
    cases current'
  | ok bootCurrent =>
    dsimp only
    cases option : efiPayload files ("Boot" ++ Text.hex16Upper bootCurrent) basePath with
    | error e =>
      refine returnsIff_of_done _ fun bootCurrent' payload filePathList base current' option' => ?_
      rw [current] at current'
      cases current'
      rw [option] at option'
      cases option'
    | ok payload =>
      dsimp only
      rw [hardDriveInside_iff current option]
      obtain ⟨list, parsed⟩ := Option.isSome_iff_exists.mp
        (filePathListOf_isSome ("Boot" ++ Text.hex16Upper bootCurrent) payload)
      cases list with
      | error e =>
        rw [parsed]
        refine returnsIff_of_done _ fun filePathList base parsed' => ?_
        rw [parsed] at parsed'
        cases parsed'
      | ok filePathList =>
        have inside_iff : DriveInside ("Boot" ++ Text.hex16Upper bootCurrent) payload ↔
            (walkNodes filePathList 0).isSome = true := by
          rw [walkNodes_isSome_iff]
          constructor
          · intro inside base
            exact inside filePathList base parsed
          · intro inside filePathList' base parsed'
            rw [parsed] at parsed'
            cases parsed'
            exact inside base
        rw [parsed, inside_iff]
        dsimp only
        cases walkNodes filePathList 0 with
        | none => exact ⟨fun inside => absurd inside (by simp), fun _ => rfl⟩
        | some info => exact returnsIff_of_done _ rfl

/-- `extract_boot_device_info` returns, with a value or an error, if and only if the first
    Hard Drive node of the boot option is not cut off behind its first eight bytes. -/
theorem extractBootDeviceInfo_returns_iff (files : String → Except Err (List UInt8))
    (basePath : String) {tr : History Sys}
    {out : Outcome Sys (Except Err (Option BootDeviceInfo))}
    (run : Runs (extractBootDeviceInfo basePath).run tr out)
    (onFiles : Admits (OnFiles files) [] tr) :
    (∃ r, out = .done r) ↔ HardDriveInside files basePath := by
  have returns := decodeWith_walkNodes_returnsIff files basePath
  rw [← extractWith_runs run onFiles] at returns
  constructor
  · rintro ⟨r, rfl⟩
    by_contra outside
    cases returns.2 outside
  · exact returns.1

/-- Boot option 0 with an empty description and one Hard Drive node of `nodeLength` bytes. -/
def drivePayload (nodeLength : UInt8) : List UInt8 :=
  [1, 0, 0, 0, nodeLength, 0, 0, 0] ++ [4, 1, nodeLength, 0] ++
    List.replicate (nodeLength.toNat - 4) 0

/-- The variables `BootCurrent` and `Boot0007` of the example. -/
def driveFiles (nodeLength : UInt8) (path : String) : Except Err (List UInt8) :=
  if path = efiVarPath "BootCurrent" "/efi" then .ok [7, 0, 0, 0, 0, 0]
  else .ok ([7, 0, 0, 0] ++ drivePayload nodeLength)

/-- A system with these files. -/
def driveSystem (nodeLength : UInt8) : (c : SysCmd) → c.Resp
  | .readFile path => driveFiles nodeLength path
  | c => c.fail (.io .notFound "not found")

theorem driveSystem_onFiles (nodeLength : UInt8) (h : History Sys) (c : SysCmd) :
    OnFiles (driveFiles nodeLength) h ⟨c, driveSystem nodeLength c⟩ := by
  have same : driveSystem nodeLength c = filesSystem (driveFiles nodeLength) c := by
    cases c <;> rfl
  rw [same]
  exact filesSystem_onFiles _ h c

theorem drivePayload_list : ∀ nodeLength ∈ [(4 : UInt8), 8], ∃ filePathList,
    filePathListOf "Boot0000" (drivePayload nodeLength) = some (.ok filePathList) ∧
      firstHardDrive filePathList 0 = some 0 ∧ filePathList.length = nodeLength.toNat := by
  intro nodeLength member
  simp only [List.mem_cons, List.not_mem_nil, or_false] at member
  rcases member with rfl | rfl
  · refine ⟨[4, 1, 4, 0], ?_, ?_, rfl⟩
    · rw [filePathListOf, skipDescription]
      rfl
    · rw [firstHardDrive]
      rfl
  · refine ⟨[4, 1, 8, 0, 0, 0, 0, 0], ?_, ?_, rfl⟩
    · rw [filePathListOf, skipDescription]
      rfl
    · rw [firstHardDrive]
      rfl

/-- The condition, for the files of the examples. -/
theorem driveFiles_inside_iff (nodeLength : UInt8) :
    HardDriveInside (driveFiles nodeLength) "/efi" ↔
      DriveInside "Boot0000" (drivePayload nodeLength) := by
  have name : "Boot" ++ Text.hex16Upper 0 = "Boot0000" := by decide +kernel
  have current : bootCurrentOf (driveFiles nodeLength) "/efi" = .ok 0 := by rfl
  have option : efiPayload (driveFiles nodeLength) ("Boot" ++ Text.hex16Upper 0) "/efi" =
      .ok (drivePayload nodeLength) := by rfl
  rw [← name]
  exact hardDriveInside_iff current option

theorem extractBootDeviceInfo_returns_iff_eight :
    ∃ r, ((extractBootDeviceInfo "/efi").run.exec (fun _ => driveSystem 8) []).2 = .done r := by
  refine (extractBootDeviceInfo_returns_iff (driveFiles 8) "/efi" (Prog.runs_exec _ _ _)
    (Prog.admits_exec (driveSystem_onFiles 8) _ _)).mpr ?_
  obtain ⟨filePathList, parsed, first, length⟩ := drivePayload_list 8 (by simp)
  rw [driveFiles_inside_iff]
  intro filePathList' base parsed' found
  rw [parsed] at parsed'
  cases parsed'
  rw [first] at found
  cases found
  simp [length]

/-- A Hard Drive node of four bytes at the end of the list aborts the process. -/
theorem extractBootDeviceInfo_panics_on_short_node :
    ∃ tr, Runs (extractBootDeviceInfo "/efi").run tr (.halted .panic) ∧
      Admits (OnFiles (driveFiles 4)) [] tr := by
  have run := Prog.runs_exec (fun _ => driveSystem 4) (extractBootDeviceInfo "/efi").run []
  have onFiles := Prog.admits_exec (driveSystem_onFiles 4) (extractBootDeviceInfo "/efi").run []
  have returns := decodeWith_walkNodes_returnsIff (driveFiles 4) "/efi"
  rw [← extractWith_runs run onFiles] at returns
  have outside : ¬HardDriveInside (driveFiles 4) "/efi" := by
    obtain ⟨filePathList, parsed, first, length⟩ := drivePayload_list 4 (by simp)
    rw [driveFiles_inside_iff]
    intro inside
    have := inside filePathList 0 parsed first
    simp [length] at this
  refine ⟨_, ?_, onFiles⟩
  rw [← returns.2 outside]
  exact run

end Initos.Efi
