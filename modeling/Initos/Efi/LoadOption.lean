import Initos.Efi.BootEntry

/-!
# Boot options

A boot variable holds an `EFI_LOAD_OPTION`: attributes, the length of the file path list, a
description, the device path nodes and optional data. A `LoadOption` carries what its encoding
needs; the decoders of the initrd read back the Hard Drive node of every well-formed option.

On payloads that are not well formed the two decoders may differ: only one of them passes over
Hard Drive nodes that are too short for their fields.
-/

namespace Initos.Efi

open Interact Bytes

/-- A device path node; its length field covers its header of four bytes. -/
structure PathNode where
  type : UInt8
  subtype : UInt8
  data : List UInt8

namespace PathNode

/-- The length field of the node counts its header, too. -/
def size (node : PathNode) : Nat := 4 + node.data.length

/-- The node in a device path, `EFI_DEVICE_PATH_PROTOCOL`. -/
def encode (node : PathNode) : List UInt8 :=
  [node.type, node.subtype] ++ (le16 node.size ++ node.data)

/-- `MEDIA_DEVICE_PATH` with `MEDIA_HARDDRIVE_DP`. -/
def isHardDrive (node : PathNode) : Bool := node.type = 4 ∧ node.subtype = 1

/-- A node is as long as its header says. -/
theorem length_encode (node : PathNode) : node.encode.length = node.size := by
  simp [encode, size]
  omega

end PathNode

/-- A Hard Drive node that holds all of its fields. -/
structure HardDrive where
  number : UInt32
  /-- Start and size of the partition. -/
  area : List UInt8
  signature : List UInt8
  format : UInt8
  signatureType : UInt8
  rest : List UInt8
  area_length : area.length = 16
  signature_length : signature.length = 16

namespace HardDrive

/-- The device path node of the partition. -/
def node (d : HardDrive) : PathNode where
  type := 4
  subtype := 1
  data := le32 d.number.toNat ++
    (d.area ++ (d.signature ++ (d.format :: d.signatureType :: d.rest)))

/-- What is to be known of the boot device. -/
def info (d : HardDrive) : BootDeviceInfo where
  partitionNumber := d.number.toNat
  partitionGuid := if d.format = 2 ∧ d.signatureType = 2 then some d.signature else none
  mbrSignature := if d.format = 1 ∧ d.signatureType = 1 then some (le32At d.signature 0) else none
  partitionFormat := d.format

end HardDrive

/-- `EFI_LOAD_OPTION` -/
structure LoadOption where
  attributes : UInt32
  /-- UTF-16 units. -/
  description : List UInt16
  nodes : List PathNode
  optionalData : List UInt8
  description_ne : ∀ unit ∈ description, unit ≠ 0
  nodes_lt : (nodes.flatMap PathNode.encode).length < 2 ^ 16

namespace LoadOption

/-- The device path of the option. -/
def filePathList (o : LoadOption) : List UInt8 := o.nodes.flatMap PathNode.encode

/-- The payload of the variable `Boot####`, an `EFI_LOAD_OPTION`. -/
def encode (o : LoadOption) : List UInt8 :=
  le32 o.attributes.toNat ++ le16 o.filePathList.length ++
    (o.description.flatMap (fun unit => le16 unit.toNat) ++
      (le16 0 ++ (o.filePathList ++ o.optionalData)))

/-- The size of a node fits its field. -/
theorem size_lt (o : LoadOption) : ∀ node ∈ o.nodes, node.size < 2 ^ 16 := by
  intro node member
  have whole := o.nodes_lt
  obtain ⟨before, after, split⟩ := List.append_of_mem member
  rw [split, List.flatMap_append, List.flatMap_cons, List.length_append, List.length_append,
    node.length_encode] at whole
  omega

end LoadOption

/-! ## Reading an option back -/

theorem readLe16_append_right (before b : List UInt8) (off : Nat) :
    readLe16 (before ++ b) (before.length + off) = readLe16 b off := by
  simp only [readLe16, Nat.add_assoc, index_append_right]

theorem readLe16_le16 {n : Nat} (small : n < 2 ^ 16) (after : List UInt8) :
    readLe16 (le16 n ++ after) 0 = some n := by
  have value := ofLe16_le16 small
  exact congrArg some value

/-- The description ends at its terminator. -/
theorem skipDescription_encode (units : List UInt16) (nonzero : ∀ unit ∈ units, unit ≠ 0)
    (before after : List UInt8) :
    skipDescription
        (before ++ (units.flatMap (fun unit => le16 unit.toNat) ++ (le16 0 ++ after)))
        before.length =
      some (some (before.length + 2 * units.length + 2)) := by
  induction units generalizing before with
  | nil =>
    have more : before.length + 1 < (before ++ ([] ++ (le16 0 ++ after))).length := by
      simp
      omega
    have char := readLe16_append_right before (le16 0 ++ after) 0
    rw [readLe16_le16 (by decide)] at char
    rw [skipDescription, List.flatMap_nil, dif_pos more]
    simp only [Nat.add_zero] at char
    simp only [List.nil_append, char, Option.bind_eq_bind, Option.bind_some, if_true]
    rfl
  | cons unit rest ih =>
    have later := ih (fun u member => nonzero u (List.mem_cons_of_mem _ member))
      (before ++ le16 unit.toNat)
    have unit_ne : unit.toNat ≠ 0 := fun zero =>
      nonzero unit List.mem_cons_self (UInt16.toNat.inj zero)
    rw [List.flatMap_cons, List.append_assoc]
    generalize rest.flatMap (fun unit => le16 unit.toNat) ++ (le16 0 ++ after) = tail at later ⊢
    have more : before.length + 1 < (before ++ (le16 unit.toNat ++ tail)).length := by
      simp
      omega
    have char := readLe16_append_right before (le16 unit.toNat ++ tail) 0
    rw [readLe16_le16 unit.toNat_lt, Nat.add_zero] at char
    rw [skipDescription, dif_pos more, char]
    simp only [Option.bind_eq_bind, Option.bind_some, unit_ne, if_false]
    rw [List.append_assoc, List.length_append, length_le16] at later
    rw [later, List.length_cons]
    congr 2
    omega

/-- The decoders look for the nodes where they are. -/
theorem filePathListOf_encode (bootVarName : String) (o : LoadOption) :
    filePathListOf bootVarName o.encode = some (.ok o.filePathList) := by
  have small : o.filePathList.length < 2 ^ 16 := o.nodes_lt
  have start : (le32 o.attributes.toNat ++ le16 o.filePathList.length).length = 6 := rfl
  have skipped := skipDescription_encode o.description o.description_ne
    (le32 o.attributes.toNat ++ le16 o.filePathList.length) (o.filePathList ++ o.optionalData)
  rw [start] at skipped
  have length : readLe16 o.encode 4 = some o.filePathList.length := by
    have shifted := readLe16_append_right (le32 o.attributes.toNat)
      (le16 o.filePathList.length ++ (o.description.flatMap (fun unit => le16 unit.toNat) ++
        (le16 0 ++ (o.filePathList ++ o.optionalData)))) 0
    rw [readLe16_le16 small] at shifted
    rw [LoadOption.encode, List.append_assoc]
    exact shifted
  have units : (o.description.flatMap fun unit => le16 unit.toNat).length =
      2 * o.description.length := by
    simp [List.length_flatMap, Nat.mul_comm]
  have long : o.encode.length =
      6 + 2 * o.description.length + 2 + o.filePathList.length + o.optionalData.length := by
    simp only [LoadOption.encode, List.length_append, length_le32, length_le16, units]
    omega
  have list : slice o.encode (6 + 2 * o.description.length + 2)
      (6 + 2 * o.description.length + 2 + o.filePathList.length) = some o.filePathList := by
    have shifted := slice_append_right (le32 o.attributes.toNat ++ le16 o.filePathList.length ++
      o.description.flatMap (fun unit => le16 unit.toNat) ++ le16 0)
      (o.filePathList ++ o.optionalData) 0 o.filePathList.length
    rw [slice_eq_some _ (Nat.zero_le _) (by simp), List.drop_zero, Nat.sub_zero,
      List.take_left] at shifted
    simp only [List.length_append, length_le32, length_le16, units, Nat.add_zero,
      List.append_assoc] at shifted
    have offset : 4 + (2 + (2 * o.description.length + 2)) = 6 + 2 * o.description.length + 2 := by
      omega
    rw [offset] at shifted
    rw [LoadOption.encode, List.append_assoc]
    exact shifted
  rw [filePathListOf, if_neg (by omega), length]
  simp only [Option.bind_eq_bind, Option.bind_some]
  rw [show skipDescription o.encode 6 = _ from skipped]
  simp only [Option.bind_some]
  rw [if_neg (by omega), list]
  rfl

section Walks

variable (node : PathNode) (before after : List UInt8)

/-- A walk that stands at a node has all of it in front of it. -/
theorem node_inside :
    before.length + 4 ≤ (before ++ (node.encode ++ after)).length ∧
      ¬(node.size < 4 ∨ before.length + node.size > (before ++ (node.encode ++ after)).length) := by
  simp only [List.length_append, node.length_encode]
  unfold PathNode.size
  omega

variable (small : node.size < 2 ^ 16)

include small

/-- The header of a node, wherever it stands. -/
theorem header_encode :
    index (before ++ (node.encode ++ after)) before.length = some node.type ∧
      index (before ++ (node.encode ++ after)) (before.length + 1) = some node.subtype ∧
      readLe16 (before ++ (node.encode ++ after)) (before.length + 2) = some node.size := by
  refine ⟨index_append_right before _ 0, index_append_right before _ 1, ?_⟩
  rw [readLe16_append_right]
  have shifted := readLe16_append_right [node.type, node.subtype]
    (le16 node.size ++ (node.data ++ after)) 0
  rw [readLe16_le16 small] at shifted
  simpa [PathNode.encode] using shifted

/-- One node of the walk of `extract_boot_device_info`. -/
theorem walkNodes_encode_cons :
    walkNodes (before ++ (node.encode ++ after)) before.length =
      if node.isHardDrive = true then
        (hardDriveNode (before ++ (node.encode ++ after)) before.length node.size).map some
      else walkNodes (before ++ (node.encode ++ after)) (before.length + node.size) := by
  obtain ⟨type, subtype, length⟩ := header_encode node before after small
  obtain ⟨more, go⟩ := node_inside node before after
  rw [walkNodes, dif_pos more, type, subtype, length]
  simp only [Option.bind_eq_bind, Option.bind_some, go, dif_neg, not_false_eq_true,
    PathNode.isHardDrive, decide_eq_true_eq]
  split
  · cases hardDriveNode (before ++ (node.encode ++ after)) before.length node.size <;> rfl
  · rfl

/-- One node of the walk of `extract_boot_partition_id`. -/
theorem walkSlots_encode_cons :
    walkSlots (before ++ (node.encode ++ after)) before.length =
      if node.isHardDrive = true ∧ node.size ≥ 42 then
        (readLe32 (before ++ (node.encode ++ after)) (before.length + 4)).map some
      else walkSlots (before ++ (node.encode ++ after)) (before.length + node.size) := by
  obtain ⟨type, subtype, length⟩ := header_encode node before after small
  obtain ⟨more, go⟩ := node_inside node before after
  rw [walkSlots, dif_pos more, type, subtype, length]
  simp only [Option.bind_eq_bind, Option.bind_some, go, dif_neg, not_false_eq_true,
    PathNode.isHardDrive, decide_eq_true_eq]
  split
  · cases readLe32 (before ++ (node.encode ++ after)) (before.length + 4) <;> rfl
  · rfl

end Walks

namespace HardDrive

variable (d : HardDrive) (before after : List UInt8)

theorem size_node : d.node.size = 42 + d.rest.length := by
  simp only [node, PathNode.size, List.length_append, length_le32, d.area_length,
    d.signature_length, List.length_cons]
  omega

theorem readLe32_number :
    readLe32 (before ++ (d.node.encode ++ after)) (before.length + 4) = some d.number.toNat := by
  have value := ofLe32_le32 d.number.toNat_lt
  rw [readLe32_append_right]
  exact congrArg some value

/-- The fields behind the partition number. -/
theorem fields_encode :
    index (d.node.encode ++ after) 40 = some d.format ∧
      index (d.node.encode ++ after) 41 = some d.signatureType ∧
      slice (d.node.encode ++ after) 24 40 = some d.signature ∧
      readLe32 (d.node.encode ++ after) 24 = some (le32At d.signature 0) := by
  let front := [4, 1] ++ (le16 d.node.size ++ (le32 d.number.toNat ++ d.area))
  let tail := d.format :: d.signatureType :: (d.rest ++ after)
  have layout : d.node.encode ++ after = front ++ (d.signature ++ tail) := by
    simp [front, tail, PathNode.encode, node]
  have start : front.length = 24 := by
    simp [front, d.area_length]
  have format := index_append_right (front ++ d.signature) tail 0
  have sigType := index_append_right (front ++ d.signature) tail 1
  have guid : slice (d.signature ++ tail) 0 16 = some d.signature := by
    rw [← d.signature_length, slice_eq_some _ (Nat.zero_le _) (by simp), List.drop_zero,
      Nat.sub_zero, List.take_left]
  have byte : ∀ i < 16, (d.signature ++ tail).getD i 0 = d.signature.getD i 0 := by
    intro i within
    rw [← d.signature_length] at within
    rw [List.getD_eq_getElem?_getD, List.getElem?_append_left within, List.getD_eq_getElem?_getD]
  have mbr : readLe32 (d.signature ++ tail) 0 = some (le32At d.signature 0) := by
    rw [readLe32_eq_some _ 0 (by simp [d.signature_length]; omega), le32At, byte 0 (by decide),
      byte 1 (by decide), byte 2 (by decide), byte 3 (by decide)]
    rfl
  rw [← slice_append_right front, start] at guid
  rw [← readLe32_append_right front, start] at mbr
  rw [List.append_assoc, List.length_append, start, d.signature_length] at format sigType
  rw [layout]
  exact ⟨format, sigType, guid, mbr⟩

/-- A Hard Drive node is decoded as it was encoded. -/
theorem hardDriveNode_encode :
    hardDriveNode (before ++ (d.node.encode ++ after)) before.length d.node.size = some d.info := by
  obtain ⟨format, sigType, guid, mbr⟩ := d.fields_encode after
  have long : d.node.size ≥ 42 := by
    rw [d.size_node]
    omega
  rw [hardDriveNode, d.readLe32_number]
  simp only [Option.bind_eq_bind, Option.bind_some, long, if_true, index_append_right,
    slice_append_right, readLe32_append_right, format, sigType, guid, mbr]
  by_cases gpt : d.format = 2 ∧ d.signatureType = 2
  · simp [gpt, info]
  · by_cases legacy : d.format = 1 ∧ d.signatureType = 1
    · simp [legacy, info]
    · simp [gpt, legacy, info]

end HardDrive

theorem walkNodes_encode_none (nodes : List PathNode) (small : ∀ node ∈ nodes, node.size < 2 ^ 16)
    (none : nodes.find? PathNode.isHardDrive = none) (before : List UInt8) :
    walkNodes (before ++ nodes.flatMap PathNode.encode) before.length = some Option.none := by
  induction nodes generalizing before with
  | nil =>
    rw [walkNodes, dif_neg (by simp)]
    rfl
  | cons node rest ih =>
    rw [List.find?_eq_none] at none
    have other : node.isHardDrive = false := Bool.not_eq_true _ ▸ none node List.mem_cons_self
    have later := ih (fun n member => small n (List.mem_cons_of_mem _ member))
      (List.find?_eq_none.mpr fun n member => none n (List.mem_cons_of_mem _ member))
      (before ++ node.encode)
    rw [List.append_assoc, List.length_append, node.length_encode] at later
    rw [List.flatMap_cons, walkNodes_encode_cons node before _ (small node List.mem_cons_self),
      other, later]
    rfl

/-- Both walks find the first Hard Drive node. -/
theorem walks_encode (nodes : List PathNode) (small : ∀ node ∈ nodes, node.size < 2 ^ 16)
    (d : HardDrive) (first : nodes.find? PathNode.isHardDrive = some d.node) (before : List UInt8) :
    walkNodes (before ++ nodes.flatMap PathNode.encode) before.length = some (some d.info) ∧
      walkSlots (before ++ nodes.flatMap PathNode.encode) before.length =
        some (some d.number.toNat) := by
  induction nodes generalizing before with
  | nil => simp at first
  | cons node rest ih =>
    have fits := small node List.mem_cons_self
    rw [List.flatMap_cons, walkNodes_encode_cons node before _ fits,
      walkSlots_encode_cons node before _ fits]
    cases drive : node.isHardDrive with
    | true =>
      obtain rfl : node = d.node := by simpa [List.find?_cons, drive] using first
      have long : d.node.size ≥ 42 := by
        rw [d.size_node]
        omega
      rw [d.hardDriveNode_encode, d.readLe32_number, if_pos rfl, if_pos ⟨rfl, long⟩]
      exact ⟨rfl, rfl⟩
    | false =>
      have later := ih (fun n member => small n (List.mem_cons_of_mem _ member))
        (by simpa [List.find?_cons, drive] using first) (before ++ node.encode)
      rw [List.append_assoc, List.length_append, node.length_encode] at later
      simpa using later

/-- Both decoders read a well-formed boot option as it was built. -/
theorem decoders_of_loadOption (files : String → Except Err (List UInt8)) (basePath : String)
    (o : LoadOption) {bootCurrent : Nat} (current : bootCurrentOf files basePath = .ok bootCurrent)
    (option : efiPayload files ("Boot" ++ Text.hex16Upper bootCurrent) basePath = .ok o.encode)
    {tr₁ tr₂ : History Sys} {out₁ : Outcome Sys (Except Err (Option BootDeviceInfo))}
    {out₂ : Outcome Sys (Except Err (Option Nat))}
    (run₁ : Runs (extractBootDeviceInfo basePath).run tr₁ out₁)
    (onFiles₁ : Admits (OnFiles files) [] tr₁)
    (run₂ : Runs (extractBootPartitionId basePath).run tr₂ out₂)
    (onFiles₂ : Admits (OnFiles files) [] tr₂) :
    (o.nodes.find? PathNode.isHardDrive = none → out₁ = .done (.ok none)) ∧
      ∀ d : HardDrive, o.nodes.find? PathNode.isHardDrive = some d.node →
        out₁ = .done (.ok (some d.info)) ∧ out₂ = .done (.ok (some d.number.toNat)) := by
  have info := extractWith_runs run₁ onFiles₁
  have slot := extractWith_runs run₂ onFiles₂
  simp only [decodeWith, current, option, filePathListOf_encode] at info slot
  refine ⟨fun none => ?_, fun d first => ?_⟩
  · have walked := walkNodes_encode_none o.nodes o.size_lt none []
    rw [info, show walkNodes o.filePathList 0 = _ from walked]
    rfl
  · obtain ⟨walked, walked'⟩ := walks_encode o.nodes o.size_lt d first []
    rw [info, slot, show walkNodes o.filePathList 0 = _ from walked,
      show walkSlots o.filePathList 0 = _ from walked']
    exact ⟨rfl, rfl⟩

/-- A GPT partition 101. -/
def sampleDrive : HardDrive where
  number := 101
  area := List.replicate 16 0
  signature := List.replicate 16 7
  format := 2
  signatureType := 2
  rest := []
  area_length := List.length_replicate
  signature_length := List.length_replicate

/-- Description `A`, a node of another kind, and the partition. -/
def sampleOption : LoadOption where
  attributes := 1
  description := [65]
  nodes := [⟨2, 1, [0, 0]⟩, sampleDrive.node]
  optionalData := [9]
  description_ne := by simp
  nodes_lt := by decide

/-- The variables of a machine that booted `Boot0007`. -/
def optionFiles (payload : List UInt8) (path : String) : Except Err (List UInt8) :=
  if path = efiVarPath "BootCurrent" "/efi" then .ok [7, 0, 0, 0, 0, 0]
  else .ok ([7, 0, 0, 0] ++ payload)

theorem decoders_of_loadOption_sample :
    ((extractBootDeviceInfo "/efi").run.exec
      (fun _ => filesSystem (optionFiles sampleOption.encode)) []).2 =
      .done (.ok (some sampleDrive.info)) := by
  have both := decoders_of_loadOption (optionFiles sampleOption.encode) "/efi" sampleOption rfl rfl
    (Prog.runs_exec (fun _ => filesSystem (optionFiles sampleOption.encode)) _ [])
    (Prog.admits_exec (filesSystem_onFiles _) _ [])
    (Prog.runs_exec (fun _ => filesSystem (optionFiles sampleOption.encode)) _ [])
    (Prog.admits_exec (filesSystem_onFiles _) _ [])
  exact (both.2 sampleDrive rfl).1

/-! ## Where the decoders agree -/

/-- The offset of the first Hard Drive node of at least 42 bytes that the walk admits. -/
def firstLongDrive (filePathList : List UInt8) (nodeOffset : Nat) : Option Nat :=
  if _more : nodeOffset + 4 ≤ filePathList.length then
    if _stop : le16At filePathList (nodeOffset + 2) < 4 ∨
        nodeOffset + le16At filePathList (nodeOffset + 2) > filePathList.length then none
    else if (filePathList.getD nodeOffset 0 = 4 ∧ filePathList.getD (nodeOffset + 1) 0 = 1) ∧
        le16At filePathList (nodeOffset + 2) ≥ 42 then some nodeOffset
    else firstLongDrive filePathList (nodeOffset + le16At filePathList (nodeOffset + 2))
  else none
termination_by filePathList.length - nodeOffset

/-- The walk of `extract_boot_partition_id` never aborts. -/
theorem walkSlots_eq (filePathList : List UInt8) (nodeOffset : Nat) :
    walkSlots filePathList nodeOffset =
      some ((firstLongDrive filePathList nodeOffset).map
        fun base => le32At filePathList (base + 4)) := by
  fun_induction firstLongDrive filePathList nodeOffset with
  | case1 offset more stop =>
    obtain ⟨type, subtype, length⟩ := header_eq_some more
    rw [walkSlots, dif_pos more, type, subtype, length]
    simp only [Option.bind_eq_bind, Option.bind_some, dif_pos stop]
    rfl
  | case2 offset more go drive =>
    obtain ⟨type, subtype, length⟩ := header_eq_some more
    have number := readLe32_eq_some filePathList (offset + 4) (by omega)
    rw [walkSlots, dif_pos more, type, subtype, length]
    simp only [Option.bind_eq_bind, Option.bind_some, dif_neg go, if_pos drive, number]
    rfl
  | case3 offset more go other ih =>
    obtain ⟨type, subtype, length⟩ := header_eq_some more
    rw [walkSlots, dif_pos more, type, subtype, length]
    simp only [Option.bind_eq_bind, Option.bind_some, dif_neg go, if_neg other]
    exact ih
  | case4 offset done =>
    rw [walkSlots, dif_neg done]
    rfl

/-- Where there is a long node, the first Hard Drive node lies at it or before it. -/
theorem firstHardDrive_of_long {filePathList : List UInt8} {nodeOffset base : Nat}
    (long : firstLongDrive filePathList nodeOffset = some base) :
    nodeOffset ≤ base ∧ base + 42 ≤ filePathList.length ∧
      ∃ first, firstHardDrive filePathList nodeOffset = some first ∧ first ≤ base := by
  fun_induction firstLongDrive filePathList nodeOffset with
  | case1 => cases long
  | case2 offset more go drive =>
    obtain rfl := Option.some_inj.mp long
    refine ⟨Nat.le_refl _, by omega, offset, ?_, Nat.le_refl _⟩
    rw [firstHardDrive, dif_pos more, dif_neg go, if_pos drive.1]
  | case3 offset more go other ih =>
    obtain ⟨behind, inside, first, found, before⟩ := ih long
    refine ⟨by omega, inside, ?_⟩
    rw [firstHardDrive, dif_pos more, dif_neg go]
    split
    · -- a short node, which only the other walk passes over
      exact ⟨offset, rfl, by omega⟩
    · exact ⟨first, found, before⟩
  | case4 => cases long

/-- The number in the result is the one in the node. -/
theorem hardDriveNode_number {filePathList : List UInt8} {base nodeLength : Nat}
    {info : BootDeviceInfo} (inside : base + 8 ≤ filePathList.length)
    (read : hardDriveNode filePathList base nodeLength = some info) :
    info.partitionNumber = le32At filePathList (base + 4) := by
  have number := readLe32_eq_some filePathList (base + 4) (by omega)
  rw [hardDriveNode, number] at read
  simp only [Option.bind_eq_bind, Option.bind_some] at read
  split at read
  · simp only [Option.bind_eq_some_iff] at read
    obtain ⟨format, _, sigType, _, read⟩ := read
    split at read
    · obtain ⟨guid, _, made⟩ := Option.bind_eq_some_iff.mp read
      cases made
      rfl
    · split at read
      · obtain ⟨signature, _, made⟩ := Option.bind_eq_some_iff.mp read
        cases made
        rfl
      · cases read
        rfl
  · split at read
    · obtain ⟨format, _, made⟩ := Option.bind_eq_some_iff.mp read
      cases made
      rfl
    · cases read
      rfl

/-- The number is that of the first Hard Drive node. -/
theorem walkNodes_number {filePathList : List UInt8} {nodeOffset base : Nat}
    (first : firstHardDrive filePathList nodeOffset = some base)
    (inside : base + 8 ≤ filePathList.length) :
    ∃ info, walkNodes filePathList nodeOffset = some (some info) ∧
      info.partitionNumber = le32At filePathList (base + 4) := by
  have node := (hardDriveNode_isSome_iff (firstHardDrive_inside first)).mpr inside
  obtain ⟨info, read⟩ := Option.isSome_iff_exists.mp node
  refine ⟨info, ?_, hardDriveNode_number inside read⟩
  rw [walkNodes_eq, first]
  simp only [read, Option.map_some]

/-- What one decoder finds the other finds, and they fail together. -/
def Agree (slot : Outcome Sys (Except Err (Option Nat)))
    (device : Outcome Sys (Except Err (Option BootDeviceInfo))) : Prop :=
  (∀ p, slot = .done (.ok (some p)) →
    ∃ info, device = .done (.ok (some info)) ∧ info.partitionNumber = p) ∧
  ((∃ e, slot = .done (.error e)) ↔ ∃ e, device = .done (.error e))

/-- The first Hard Drive node of the current boot option has the same partition number as the
    first one of at least 42 bytes, where there is one. -/
def SameNumber (files : String → Except Err (List UInt8)) (basePath : String) : Prop :=
  ∀ bootCurrent payload filePathList base long, bootCurrentOf files basePath = .ok bootCurrent →
    efiPayload files ("Boot" ++ Text.hex16Upper bootCurrent) basePath = .ok payload →
    filePathListOf ("Boot" ++ Text.hex16Upper bootCurrent) payload = some (.ok filePathList) →
    firstHardDrive filePathList 0 = some base → firstLongDrive filePathList 0 = some long →
    le32At filePathList (base + 4) = le32At filePathList (long + 4)

/-- Outcomes without a slot agree when they are errors together. -/
theorem agree_of_none {slot : Outcome Sys (Except Err (Option Nat))}
    {device : Outcome Sys (Except Err (Option BootDeviceInfo))}
    (none : ∀ p, slot ≠ .done (.ok (some p)))
    (errors : (∃ e, slot = .done (.error e)) ↔ ∃ e, device = .done (.error e)) :
    Agree slot device :=
  ⟨fun p found => absurd found (none p), errors⟩

/-- The walks agree where their first nodes have the same number. -/
theorem agree_walks_iff (filePathList : List UInt8) :
    Agree (outcomeOf (walkSlots filePathList 0)) (outcomeOf (walkNodes filePathList 0)) ↔
      ∀ base long, firstHardDrive filePathList 0 = some base →
        firstLongDrive filePathList 0 = some long →
        le32At filePathList (base + 4) = le32At filePathList (long + 4) := by
  have errors : (∃ e, outcomeOf (walkSlots filePathList 0) = .done (.error e)) ↔
      ∃ e, outcomeOf (walkNodes filePathList 0) = .done (.error e) := by
    refine iff_of_false ?_ ?_
    · cases walkSlots filePathList 0 <;> simp [outcomeOf]
    · cases walkNodes filePathList 0 <;> simp [outcomeOf]
  rw [walkSlots_eq] at errors ⊢
  cases long : firstLongDrive filePathList 0 with
  | none =>
    rw [long] at errors
    exact iff_of_true (agree_of_none (by simp [outcomeOf]) errors) (by simp)
  | some base' =>
    rw [long] at errors
    obtain ⟨_, inside, base, first, before⟩ := firstHardDrive_of_long long
    obtain ⟨info, walked, number⟩ := walkNodes_number first (by omega)
    rw [walked] at errors ⊢
    constructor
    · intro agree base₁ long₁ first₁ long₁'
      obtain rfl := Option.some_inj.mp (first.symm.trans first₁)
      obtain rfl := Option.some_inj.mp long₁'
      obtain ⟨info', same, number'⟩ := agree.1 _ rfl
      cases same
      exact number.symm.trans number'
    · intro same
      refine ⟨fun p found => ⟨info, rfl, ?_⟩, errors⟩
      cases found
      exact number.trans (same base base' first rfl)

/-- The decoders agree if and only if no Hard Drive node with another number, too short for its
    fields, stands in front of the one that `extract_boot_partition_id` uses. -/
theorem decoders_agree_iff (files : String → Except Err (List UInt8)) (basePath : String)
    {tr₁ tr₂ : History Sys} {slot : Outcome Sys (Except Err (Option Nat))}
    {device : Outcome Sys (Except Err (Option BootDeviceInfo))}
    (run₁ : Runs (extractBootPartitionId basePath).run tr₁ slot)
    (onFiles₁ : Admits (OnFiles files) [] tr₁)
    (run₂ : Runs (extractBootDeviceInfo basePath).run tr₂ device)
    (onFiles₂ : Admits (OnFiles files) [] tr₂) :
    Agree slot device ↔ SameNumber files basePath := by
  rw [extractWith_runs run₁ onFiles₁, extractWith_runs run₂ onFiles₂]
  unfold decodeWith SameNumber
  cases current : bootCurrentOf files basePath with
  | error e => exact iff_of_true (agree_of_none nofun (iff_of_false nofun nofun)) nofun
  | ok bootCurrent =>
    dsimp only
    cases option : efiPayload files ("Boot" ++ Text.hex16Upper bootCurrent) basePath with
    | error e =>
      refine iff_of_true (agree_of_none (by simp) (by simp)) ?_
      intro bootCurrent' payload filePathList base long current' option'
      cases current'
      rw [option] at option'
      cases option'
    | ok payload =>
      dsimp only
      obtain ⟨list, parsed⟩ := Option.isSome_iff_exists.mp
        (filePathListOf_isSome ("Boot" ++ Text.hex16Upper bootCurrent) payload)
      rw [parsed]
      cases list with
      | error e =>
        refine iff_of_true (agree_of_none (by simp) (by simp)) ?_
        intro bootCurrent' payload' filePathList base long current' option' parsed'
        cases current'
        rw [option] at option'
        cases option'
        rw [parsed] at parsed'
        cases parsed'
      | ok filePathList =>
        dsimp only
        rw [agree_walks_iff]
        constructor
        · intro same bootCurrent' payload' filePathList' base long current' option' parsed'
          cases current'
          rw [option] at option'
          cases option'
          rw [parsed] at parsed'
          cases parsed'
          exact same base long
        · intro same base long
          exact same bootCurrent payload filePathList base long rfl option parsed

theorem decoders_agree_iff_sample :
    Agree
      ((extractBootPartitionId "/efi").run.exec
        (fun _ => filesSystem (optionFiles sampleOption.encode)) []).2
      ((extractBootDeviceInfo "/efi").run.exec
        (fun _ => filesSystem (optionFiles sampleOption.encode)) []).2 := by
  refine (decoders_agree_iff (optionFiles sampleOption.encode) "/efi" (Prog.runs_exec _ _ [])
    (Prog.admits_exec (filesSystem_onFiles _) _ []) (Prog.runs_exec _ _ [])
    (Prog.admits_exec (filesSystem_onFiles _) _ [])).mpr ?_
  intro bootCurrent payload filePathList base long current option parsed first found
  cases current
  cases option
  have list := filePathListOf_encode ("Boot" ++ Text.hex16Upper 0) sampleOption
  cases list.symm.trans parsed
  have atFirst : firstHardDrive sampleOption.filePathList 0 = some 6 := by decide +kernel
  have atLong : firstLongDrive sampleOption.filePathList 0 = some 6 := by decide +kernel
  rw [atFirst] at first
  rw [atLong] at found
  cases first
  cases found
  rfl

/-- A Hard Drive node of eight bytes with number 5, in front of the one of partition 101. -/
def shortFirst : LoadOption where
  attributes := 1
  description := []
  nodes := [⟨4, 1, [5, 0, 0, 0]⟩, sampleDrive.node]
  optionalData := []
  description_ne := nofun
  nodes_lt := by decide

/-- One decoder takes the slot to be 101, the other takes it to be 5. -/
theorem decoders_differ_on_short_node :
    ((extractBootPartitionId "/efi").run.exec
        (fun _ => filesSystem (optionFiles shortFirst.encode)) []).2 = .done (.ok (some 101)) ∧
      ((extractBootDeviceInfo "/efi").run.exec
        (fun _ => filesSystem (optionFiles shortFirst.encode)) []).2 =
          .done (.ok (some ⟨5, none, none, 0⟩)) := by
  have slot := extractWith_runs
    (Prog.runs_exec (fun _ => filesSystem (optionFiles shortFirst.encode))
      (extractBootPartitionId "/efi").run [])
    (Prog.admits_exec (filesSystem_onFiles _) _ [])
  have device := extractWith_runs
    (Prog.runs_exec (fun _ => filesSystem (optionFiles shortFirst.encode))
      (extractBootDeviceInfo "/efi").run [])
    (Prog.admits_exec (filesSystem_onFiles _) _ [])
  have current : bootCurrentOf (optionFiles shortFirst.encode) "/efi" = .ok 0 := rfl
  have option : efiPayload (optionFiles shortFirst.encode) ("Boot" ++ Text.hex16Upper 0) "/efi" =
      .ok shortFirst.encode := rfl
  have slots : walkSlots shortFirst.filePathList 0 = some (some 101) := by decide +kernel
  have nodes : walkNodes shortFirst.filePathList 0 = some (some ⟨5, none, none, 0⟩) := by
    decide +kernel
  rw [slot, device]
  simp only [decodeWith, current, option, filePathListOf_encode, slots, nodes]
  exact ⟨rfl, rfl⟩

end Initos.Efi
