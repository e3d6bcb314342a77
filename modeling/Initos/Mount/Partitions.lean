import Mathlib.Data.List.Induction
import Mathlib.Data.List.Pairwise
import Mathlib.Data.List.Sort
import Mathlib.Tactic.Ring
import Initos.Lib.Static
import Initos.Mount.BootDisk
import Initos.Upgrade.Install

/-!
# The names of partitions

The kernel names a partition after its disk and its number, with a `p` between them when the
disk's name ends in a digit. `partition_parent_disk` reads the disk back from the name. The
order of `list_disk_partitions` comes from all digits of the name, those of the disk included:
it is that of the numbers as long as the digits fit 32 bits.
-/

namespace Initos.Mount

open Interact Upgrade

/-! ## The name and the disk -/

theorem isDigit_eq (c : Char) : Text.isDigit c = c.isDigit := by
  rw [Text.isDigit, Char.isDigit, Bool.eq_iff_iff]
  simp [UInt32.le_iff_toNat_le]

/-- The characters of a partition's name; only a `p` may stand between disk and number. -/
theorem toList_partitionName (disk number : String) :
    ∃ sep, (partitionName disk number).toList = disk.toList ++ (sep ++ number.toList) ∧
      (sep = [] ∧ (∀ c ∈ disk.toList.getLast?, Text.isDigit c = false) ∨
        sep = ['p'] ∧ ∃ front c, disk.toList = front ++ [c] ∧ Text.isDigit c = true) := by
  rw [partitionName]
  cases last : disk.toList.getLast? with
  | none => exact ⟨[], by simp, .inl ⟨rfl, by simp⟩⟩
  | some c =>
    rw [Option.any_some, ← isDigit_eq]
    cases digit : Text.isDigit c with
    | true =>
      obtain ⟨front, chars⟩ := List.getLast?_eq_some_iff.mp last
      exact ⟨['p'], by simp, .inr ⟨rfl, front, c, chars, digit⟩⟩
    | false => exact ⟨[], by simp, .inl ⟨rfl, by simpa using digit⟩⟩

theorem isDigit_of_mem_toString {n : Nat} {c : Char} (member : c ∈ (toString n).toList) :
    Text.isDigit c = true := by
  rw [Nat.toString_eq_repr, Nat.toList_repr] at member
  rw [isDigit_eq]
  exact Nat.isDigit_of_mem_toDigits (by decide) (by decide) member

/-- A name that ends in digits loses them, and the separator before them. -/
theorem partitionParentDisk_of_digits {disk number : String} (nonempty : disk ≠ "")
    (noSeparator : ∀ front c, disk.toList = front ++ [c, 'p'] → Text.isDigit c = false)
    (isNumber : ∀ c ∈ number.toList, Text.isDigit c = true) :
    partitionParentDisk (partitionName disk number) = some disk := by
  have chars : disk.toList ≠ [] := fun empty => nonempty (String.toList_eq_nil_iff.mp empty)
  have digits : ∀ c ∈ number.toList.reverse, Text.isDigit c = true :=
    fun c member => isNumber c (List.mem_reverse.mp member)
  have whole : String.ofList disk.toList.reverse.reverse = disk := by
    rw [List.reverse_reverse, String.ofList_toList]
  obtain ⟨sep, name, ⟨rfl, last⟩ | ⟨rfl, front, c, split, digit⟩⟩ :=
    toList_partitionName disk number
  · -- what is left after the number is the disk, which does not look like one with a separator
    have left : (partitionName disk number).toList.reverse.dropWhile Text.isDigit =
        disk.toList.reverse := by
      rw [name, List.nil_append, List.reverse_append, List.dropWhile_append_of_pos digits]
      cases back : disk.toList.reverse with
      | nil => rfl
      | cons c rest =>
        have digit : Text.isDigit c = false :=
          last c (by rw [← List.head?_reverse, back]; rfl)
        rw [List.dropWhile_cons_of_neg (by simp [digit])]
    rw [partitionParentDisk, left]
    split
    · rename_i d rest back
      have split : disk.toList = rest.reverse ++ [d, 'p'] := by
        rw [← List.reverse_reverse disk.toList, back]
        simp
      rw [noSeparator rest.reverse d split, if_neg Bool.false_ne_true,
        if_neg (by simpa using chars), whole]
    · rw [if_neg (by simpa using chars), whole]
  · have left : (partitionName disk number).toList.reverse.dropWhile Text.isDigit =
        'p' :: c :: front.reverse := by
      rw [name, List.reverse_append, List.reverse_append, List.append_assoc,
        List.dropWhile_append_of_pos digits, split, List.reverse_append]
      rfl
    rw [partitionParentDisk]
    simp only [left, digit, if_true]
    rw [if_neg (List.cons_ne_nil _ _)]
    simp [← split]

/-- The disk is read back from the name of each of its partitions, the slots of an upgrade
    among them. -/
theorem partitionParentDisk_partitionName {disk : String} (nonempty : disk ≠ "")
    (noSeparator : ∀ front c, disk.toList = front ++ [c, 'p'] → Text.isDigit c = false) :
    (∀ n : Nat, partitionParentDisk (partitionName disk (toString n)) = some disk) ∧
      ∀ slot, partitionParentDisk (partitionDevice disk slot) = some disk := by
  refine ⟨fun n => ?_, fun slot => ?_⟩
  · exact partitionParentDisk_of_digits nonempty noSeparator fun _ => isDigit_of_mem_toString
  · rw [partitionDevice]
    refine partitionParentDisk_of_digits nonempty noSeparator ?_
    cases slot <;> exact Text.forall_chars rfl

/-- The name of a disk on which the number is read back. -/
theorem partitionParentDisk_partitionName_common :
    partitionParentDisk (partitionName "nvme0n1" (toString 101)) = some "nvme0n1" ∧
      partitionParentDisk (partitionName "loop" (toString 1)) = some "loop" := by
  refine ⟨(partitionParentDisk_partitionName (by decide) ?_).1 101,
    (partitionParentDisk_partitionName (by decide) ?_).1 1⟩
  · intro front c split
    have back := congrArg List.reverse split
    simp at back
  · intro front c split
    have back := congrArg List.reverse split
    obtain ⟨rfl, -⟩ : 'o' = c ∧ ['o', 'l'] = front.reverse := by simpa using back
    decide

/-! ## The order of the partitions -/

/-- All digits of a partition's name, as one number. -/
def nameNumber (disk : String) (n : Nat) : Nat :=
  Text.digitsValue ((partitionName disk (toString n)).toList.filter Text.isDigit)

/-- The device of partition `n`. -/
def devicePath (disk : String) (n : Nat) : String := "/dev/" ++ partitionName disk (toString n)

/-- The digits of a partition name: those of the disk, then the number. -/
theorem filter_partitionName (disk : String) (n : Nat) :
    (partitionName disk (toString n)).toList.filter Text.isDigit =
      disk.toList.filter Text.isDigit ++ (toString n).toList := by
  have digits : (toString n).toList.filter Text.isDigit = (toString n).toList :=
    List.filter_eq_self.mpr fun c member => isDigit_of_mem_toString member
  obtain ⟨sep, name, ⟨rfl, -⟩ | ⟨rfl, -⟩⟩ := toList_partitionName disk (toString n)
  · rw [name, List.nil_append, List.filter_append, digits]
  · rw [name, List.filter_append, List.filter_append, digits]
    rfl

theorem digitsValue_append (a b : List Char) :
    Text.digitsValue (a ++ b) = Text.digitsValue a * 10 ^ b.length + Text.digitsValue b := by
  induction b using List.reverseRecOn with
  | nil => simp [Text.digitsValue]
  | append_singleton b c ih =>
    have last (l : List Char) : Text.digitsValue (l ++ [c]) =
        10 * Text.digitsValue l + (c.toNat - 48) := by
      simp [Text.digitsValue]
    rw [← List.append_assoc, last, last, ih, List.length_append, List.length_singleton, pow_succ]
    ring

/-- The sort key counts the digits of the disk in front. -/
theorem nameNumber_eq (disk : String) (n : Nat) : nameNumber disk n =
    Text.digitsValue (disk.toList.filter Text.isDigit) * 10 ^ (toString n).toList.length + n := by
  rw [nameNumber, filter_partitionName, digitsValue_append, Text.digitsValue_toString]

theorem length_toString_mono {n m : Nat} (le : n ≤ m) :
    (toString n).toList.length ≤ (toString m).toList.length := by
  have bound := (Nat.length_repr_le_iff (Nat.length_repr_pos (n := m))).mp (Nat.le_refl _)
  exact (Nat.length_repr_le_iff Nat.length_repr_pos).mpr (Nat.lt_of_le_of_lt le bound)

/-- A larger number gives a larger value, also when it has more digits. -/
theorem nameNumber_strictMono (disk : String) : StrictMono (nameNumber disk) := by
  intro n m less
  rw [nameNumber_eq, nameNumber_eq]
  have longer : 10 ^ (toString n).toList.length ≤ 10 ^ (toString m).toList.length :=
    Nat.pow_le_pow_right (by decide) (length_toString_mono (Nat.le_of_lt less))
  exact Nat.add_lt_add_of_le_of_lt (Nat.mul_le_mul_left _ longer) less

theorem isName_partitionName {disk : String} (isName : UnixPath.IsName disk) (n : Nat) :
    UnixPath.IsName (partitionName disk (toString n)) := by
  have number := UnixPath.isName_toString n
  obtain ⟨sep, name, separator⟩ := toList_partitionName disk (toString n)
  have sepChars : ∀ c ∈ sep, c = 'p' := by
    rcases separator with ⟨rfl, -⟩ | ⟨rfl, -⟩ <;> simp
  -- a digit is part of the name
  have notDots {other : String} (same : partitionName disk (toString n) = other)
      (noDigit : ∀ c ∈ other.toList, Text.isDigit c = false) : False := by
    refine number.ne_empty (String.toList_eq_nil_iff.mp (List.eq_nil_iff_forall_not_mem.mpr ?_))
    intro c member
    have isDigit := isDigit_of_mem_toString member
    have inName : c ∈ other.toList := by
      rw [← same, name]
      exact List.mem_append_right _ (List.mem_append_right _ member)
    rw [noDigit c inName] at isDigit
    cases isDigit
  constructor
  · rw [name, List.mem_append, List.mem_append]
    rintro (inDisk | inSep | inNumber)
    · exact isName.noSlash inDisk
    · exact absurd (sepChars _ inSep) (by decide)
    · exact number.noSlash inNumber
  · exact fun same => notDots same (Text.forall_chars rfl)
  · exact fun same => notDots same (Text.forall_chars rfl)
  · exact fun same => notDots same (Text.forall_chars rfl)

/-- Digits that do not fit 32 bits are no number. -/
theorem parseU32_digits {cs : List Char} (nonempty : cs ≠ [])
    (digits : ∀ c ∈ cs, Text.isDigit c = true) : Text.parseU32 (String.ofList cs) =
      if Text.digitsValue cs < 2 ^ 32 then some (Text.digitsValue cs) else none := by
  have allDigits : cs.all Text.isDigit = true := List.all_eq_true.mpr digits
  rw [Text.parseU32, String.toList_ofList]
  cases cs with
  | nil => exact absurd rfl nonempty
  | cons c cs =>
    have notPlus : c ≠ '+' := fun plus =>
      absurd (digits c List.mem_cons_self) (by rw [plus]; decide)
    simp [notPlus, allDigits]

/-- What `list_disk_partitions` sorts by. -/
theorem sortNumber_devicePath {disk : String} (isName : UnixPath.IsName disk) (n : Nat) :
    sortNumber (devicePath disk n) =
      if nameNumber disk n < 2 ^ 32 then nameNumber disk n else 0 := by
  have named : UnixPath.fileName (devicePath disk n) = some (partitionName disk (toString n)) :=
    fileName_dev (isName_partitionName isName n)
  have digits := filter_partitionName disk n
  have nonempty : disk.toList.filter Text.isDigit ++ (toString n).toList ≠ [] := by
    intro empty
    exact (UnixPath.isName_toString n).ne_empty
      (String.toList_eq_nil_iff.mp (List.append_eq_nil_iff.mp empty).2)
  have allDigits : ∀ c ∈ disk.toList.filter Text.isDigit ++ (toString n).toList,
      Text.isDigit c = true := by
    rw [← digits]
    exact fun c member => (List.mem_filter.mp member).2
  rw [sortNumber, named, Option.getD_some, nameNumber, digits, parseU32_digits nonempty allDigits]
  split <;> rfl

section

variable {disk : String} {numbers : List Nat}

/-- The numbers of a disk's partitions, in the order of their names' digits. -/
def sortedNumbers (disk : String) (numbers : List Nat) : List Nat :=
  numbers.mergeSort fun a b => sortNumber (devicePath disk a) ≤ sortNumber (devicePath disk b)

theorem sortedNumbers_perm (disk : String) (numbers : List Nat) :
    (sortedNumbers disk numbers).Perm numbers := List.mergeSort_perm _ _

theorem sortedNumbers_pairwise (disk : String) (numbers : List Nat) :
    (sortedNumbers disk numbers).Pairwise fun a b =>
      sortNumber (devicePath disk a) ≤ sortNumber (devicePath disk b) := by
  have sorted : (sortedNumbers disk numbers).Pairwise fun a b =>
      decide (sortNumber (devicePath disk a) ≤ sortNumber (devicePath disk b)) = true :=
    List.pairwise_mergeSort (by simpa using fun a b c => Nat.le_trans) (by simp [Nat.le_total])
      numbers
  simpa using sorted

/-- The digits of the name count for nothing: they are all zeros, or they do not fit. -/
def Unranked (disk : String) (n : Nat) : Prop :=
  nameNumber disk n = 0 ∨ 2 ^ 32 ≤ nameNumber disk n

/-- The digits of all names fit, or those of no name count and the directory has the order. -/
def DigitsFit (disk : String) (numbers : List Nat) : Prop :=
  (∀ n ∈ numbers, nameNumber disk n < 2 ^ 32) ∨
    (∀ n ∈ numbers, Unranked disk n) ∧ numbers.Pairwise (· < ·)

/-- The key, where it fits 32 bits. -/
theorem sortNumber_of_fits (isName : UnixPath.IsName disk) {n : Nat}
    (small : nameNumber disk n < 2 ^ 32) :
    sortNumber (devicePath disk n) = nameNumber disk n := by
  rw [sortNumber_devicePath isName, if_pos small]

/-- The key, where it does not. -/
theorem sortNumber_eq_zero_iff (isName : UnixPath.IsName disk) (n : Nat) :
    sortNumber (devicePath disk n) = 0 ↔ Unranked disk n := by
  rw [sortNumber_devicePath isName, Unranked]
  split <;> omega

/-- Without any digits that count, the order of the directory stays. -/
theorem sortedNumbers_of_unranked (isName : UnixPath.IsName disk)
    (unranked : ∀ n ∈ numbers, Unranked disk n) : sortedNumbers disk numbers = numbers := by
  refine List.mergeSort_of_pairwise (List.pairwise_of_forall_mem_list fun a inA b inB => ?_)
  rw [(sortNumber_eq_zero_iff isName a).mpr (unranked a inA),
    (sortNumber_eq_zero_iff isName b).mpr (unranked b inB)]
  rfl

/-- One name whose digits do not fit comes before every name whose digits count. -/
theorem unranked_of_overflow (isName : UnixPath.IsName disk)
    (increasing : (sortedNumbers disk numbers).Pairwise (· < ·)) {n o : Nat}
    (inNumbers : n ∈ numbers) (overflowing : o ∈ numbers)
    (large : 2 ^ 32 ≤ nameNumber disk o) : Unranked disk n := by
  have perm := sortedNumbers_perm disk numbers
  by_contra ranked
  have counts : sortNumber (devicePath disk n) ≠ 0 := by
    rwa [Ne, sortNumber_eq_zero_iff isName]
  have less : n < o := by
    rw [Unranked] at ranked
    exact (nameNumber_strictMono disk).lt_iff_lt.mp (by omega)
  obtain ⟨i, hi, atN⟩ := List.mem_iff_getElem.mp (perm.mem_iff.mpr inNumbers)
  obtain ⟨j, hj, atO⟩ := List.mem_iff_getElem.mp (perm.mem_iff.mpr overflowing)
  rcases Nat.lt_trichotomy i j with before | rfl | after
  · have sorted := sortedNumbers_pairwise disk numbers
    have ordered := List.pairwise_iff_getElem.mp sorted i j hi hj before
    rw [atN, atO, (sortNumber_eq_zero_iff isName o).mpr (.inr large)] at ordered
    omega
  · omega
  · have ordered := List.pairwise_iff_getElem.mp increasing j i hj hi after
    omega

/-- When sorting by the key is sorting by the number. -/
theorem sortedNumbers_increasing_iff (isName : UnixPath.IsName disk) (distinct : numbers.Nodup) :
    (sortedNumbers disk numbers).Pairwise (· < ·) ↔ DigitsFit disk numbers := by
  have perm := sortedNumbers_perm disk numbers
  constructor
  · intro increasing
    by_cases allFit : ∀ n ∈ numbers, nameNumber disk n < 2 ^ 32
    · exact .inl allFit
    · obtain ⟨o, overflowing, large⟩ : ∃ o ∈ numbers, 2 ^ 32 ≤ nameNumber disk o := by
        simpa using allFit
      have unranked : ∀ n ∈ numbers, Unranked disk n := fun n inNumbers =>
        unranked_of_overflow isName increasing inNumbers overflowing large
      rw [sortedNumbers_of_unranked isName unranked] at increasing
      exact .inr ⟨unranked, increasing⟩
  · rintro (allFit | ⟨unranked, increasing⟩)
    · have different : (sortedNumbers disk numbers).Pairwise (· ≠ ·) := perm.nodup_iff.mpr distinct
      refine ((sortedNumbers_pairwise disk numbers).and different).imp_of_mem
        fun {a b} inA inB both => ?_
      rw [sortNumber_of_fits isName (allFit a (perm.mem_iff.mp inA)),
        sortNumber_of_fits isName (allFit b (perm.mem_iff.mp inB))] at both
      exact Nat.lt_of_le_of_ne ((nameNumber_strictMono disk).le_iff_le.mp both.1) both.2
    · rwa [sortedNumbers_of_unranked isName unranked]

/-! The functions, on a system whose answers do not change. -/

variable {answers : (c : SysCmd) → c.Resp}

/-- The entry of the disk's directory is one of its partitions. -/
def isPartitionOf (answers : (c : SysCmd) → c.Resp) (disk name : String) : Bool :=
  answers (.pathExists (UnixPath.join (UnixPath.join ("/sys/block/" ++ disk) name) "partition"))

/-- The entries that are partitions. -/
theorem partitionEntries_eval (names : List String) :
    (partitionEntries ("/sys/block/" ++ disk) names).run.eval answers =
      .done (.ok ((names.filter (isPartitionOf answers disk)).map ("/dev/" ++ ·))) := by
  induction names with
  | nil => rfl
  | cons name rest ih =>
    rw [partitionEntries, Fallible.eval_ask_bind, Fallible.eval_bind_ok ih, Fallible.eval_pure]
    change Outcome.done (Except.ok (if isPartitionOf answers disk name then _ else _)) = _
    by_cases isPartition : isPartitionOf answers disk name
    · rw [List.filter_cons_of_pos isPartition, if_pos isPartition]
      rfl
    · rw [List.filter_cons_of_neg isPartition, if_neg isPartition]

/-- The partitions of a disk, in the order in which its directory lists them. -/
structure HasPartitions (answers : (c : SysCmd) → c.Resp) (disk : String) (numbers : List Nat) :
    Prop where
  isName : UnixPath.IsName disk
  listed : ∃ entries, answers (.readDir ("/sys/block/" ++ disk)) = .ok entries ∧
    (flatten entries).filter (isPartitionOf answers disk) =
      numbers.map fun n => partitionName disk (toString n)
  distinct : numbers.Nodup

/-- The listing, sorted by the key. -/
theorem listDiskPartitions_eval (partitions : HasPartitions answers disk numbers) :
    (listDiskPartitions ("/dev/" ++ disk)).run.eval answers =
      .done (.ok ((sortedNumbers disk numbers).map (devicePath disk))) := by
  obtain ⟨entries, read, filtered⟩ := partitions.listed
  have sorted : (sortedNumbers disk numbers).map (devicePath disk) =
      (numbers.map (devicePath disk)).mergeSort fun a b => sortNumber a ≤ sortNumber b :=
    List.map_mergeSort fun _ _ _ _ => rfl
  rw [listDiskPartitions, fileName_dev partitions.isName]
  dsimp only
  rw [Fallible.eval_attempt_call_bind, read]
  dsimp only
  rw [Fallible.eval_bind, partitionEntries_eval, filtered, sorted, List.map_map]
  rfl

/-- A read fills its buffer, as `read_exact` does. -/
def FillsBuffers (answers : (c : SysCmd) → c.Resp) : Prop :=
  ∀ device off len bytes, answers (.readAt device off len) = .ok bytes → bytes.length = len

/-- What the test of a partition for the label says. -/
def HasLabel (answers : (c : SysCmd) → c.Resp) (disk label part : String) (b : Bool) : Prop :=
  (partitionHasLabel ("/dev/" ++ disk) label part).run.eval answers = .done (.ok b)

theorem HasLabel.unique {label part : String} {b b' : Bool} (h : HasLabel answers disk label part b)
    (h' : HasLabel answers disk label part b') : b = b' := by
  rw [HasLabel, h] at h'
  cases h'
  rfl

theorem exists_hasLabel (fills : FillsBuffers answers) (disk label part : String) :
    ∃ b, HasLabel answers disk label part b := by
  have read : ∃ r, (readExt4Label part).run.eval answers = .done r := by
    rw [readExt4Label, readAt, Fallible.eval_call_bind]
    cases answer : answers (.readAt part 1024 136) with
    | error e => exact ⟨.error e, rfl⟩
    | ok superblock =>
      obtain ⟨found, checked⟩ := ext4Label_checked (fills _ _ _ _ answer)
      exact ⟨.ok found, by rw [Fallible.cont_ok, checked]; rfl⟩
  obtain ⟨r, read⟩ := read
  refine Fallible.returns_bind ⟨r, Fallible.eval_attempt read⟩ fun byLabel => ?_
  split
  · exact Fallible.returns_pure true
  · refine Fallible.returns_bind (Fallible.returns_attempt_call _ _) fun uevent => ?_
    cases uevent
    -- whether the file could be read or not, the links under `by-label` come last
    all_goals
      refine Fallible.returns_bind (Fallible.returns_pure _) fun named => ?_
      dsimp only
      split
      · exact Fallible.returns_pure true
      · refine Fallible.returns_ask_bind ?_
        split
        · refine Fallible.returns_bind (Fallible.returns_attempt_call _ _) fun canonical => ?_
          cases canonical <;> exact Fallible.returns_pure _
        · exact Fallible.returns_pure false

/-- The partition that is returned is the first with the label. -/
theorem firstWithLabel_eval (fills : FillsBuffers answers) (label : String) (parts : List String) :
    ∃ r, (firstWithLabel ("/dev/" ++ disk) label parts).run.eval answers = .done (.ok r) ∧
      (r = none ∧ (∀ part ∈ parts, HasLabel answers disk label part false) ∨
        ∃ before part after, parts = before ++ part :: after ∧ r = some part ∧
          HasLabel answers disk label part true ∧
          ∀ b ∈ before, HasLabel answers disk label b false) := by
  induction parts with
  | nil => exact ⟨none, rfl, .inl ⟨rfl, nofun⟩⟩
  | cons part rest ih =>
    obtain ⟨found, tested⟩ := exists_hasLabel fills disk label part
    rw [firstWithLabel, Fallible.eval_bind_ok tested]
    cases found with
    | true => exact ⟨some part, rfl, .inr ⟨[], part, rest, rfl, rfl, tested, nofun⟩⟩
    | false =>
      obtain ⟨r, returned, ⟨none_found, others⟩ |
        ⟨before, first, after, split, found, labelled, others⟩⟩ := ih
      · exact ⟨r, returned, .inl ⟨none_found, List.forall_mem_cons.mpr ⟨tested, others⟩⟩⟩
      · exact ⟨r, returned, .inr ⟨part :: before, first, after, by rw [split, List.cons_append],
          found, labelled, List.forall_mem_cons.mpr ⟨tested, others⟩⟩⟩

/-- The result is the partition with the lowest number among those with the label. -/
def Lowest (answers : (c : SysCmd) → c.Resp) (disk label : String) (numbers : List Nat) :
    Option String → Prop
  | none => ∀ n ∈ numbers, HasLabel answers disk label (devicePath disk n) false
  | some part => ∃ n ∈ numbers, part = devicePath disk n ∧
      HasLabel answers disk label (devicePath disk n) true ∧
      ∀ m ∈ numbers, HasLabel answers disk label (devicePath disk m) true → n ≤ m

/-- In an increasing list, the first partition with a label is the lowest one. -/
theorem lowest_of_increasing (partitions : HasPartitions answers disk numbers)
    (fills : FillsBuffers answers) (increasing : (sortedNumbers disk numbers).Pairwise (· < ·))
    (label : String) :
    ∃ r, (findPartitionOnDiskByLabel ("/dev/" ++ disk) label).run.eval answers = .done (.ok r) ∧
      Lowest answers disk label numbers r := by
  have perm := sortedNumbers_perm disk numbers
  obtain ⟨r, returned, first⟩ :=
    firstWithLabel_eval fills label ((sortedNumbers disk numbers).map (devicePath disk))
  rw [findPartitionOnDiskByLabel, Fallible.eval_bind_ok (listDiskPartitions_eval partitions)]
  refine ⟨r, returned, ?_⟩
  obtain ⟨rfl, others⟩ | ⟨before, part, after, split, rfl, labelled, others⟩ := first
  · exact fun n member => others _ (List.mem_map_of_mem (perm.mem_iff.mpr member))
  · obtain ⟨earlier, rest, sorted, rfl, back⟩ := List.map_eq_append_iff.mp split
    obtain ⟨n, later, rfl, rfl, rfl⟩ := List.map_eq_cons_iff.mp back
    refine ⟨n, perm.mem_iff.mp (by simp [sorted]), rfl, labelled, fun m member isLabelled => ?_⟩
    have place := perm.mem_iff.mpr member
    rw [sorted] at increasing place
    rcases List.mem_append.mp place with inEarlier | inRest
    · cases isLabelled.unique (others _ (List.mem_map_of_mem inEarlier))
    · rcases List.mem_cons.mp inRest with rfl | inLater
      · exact Nat.le_refl m
      · exact Nat.le_of_lt
          ((List.pairwise_cons.mp (List.pairwise_append.mp increasing).2.1).1 m inLater)

/-- The partitions are listed by their numbers, and the lowest with a label is found, exactly if
    the digits of their names fit 32 bits (or no digits count, and the directory has the order). -/
theorem listDiskPartitions_ordered_iff (partitions : HasPartitions answers disk numbers)
    (fills : FillsBuffers answers) :
    ∃ sorted : List Nat, sorted.Perm numbers ∧
      (listDiskPartitions ("/dev/" ++ disk)).run.eval answers =
        .done (.ok (sorted.map (devicePath disk))) ∧
      ((sorted.Pairwise (· < ·) ∧ ∀ label, ∃ r,
        (findPartitionOnDiskByLabel ("/dev/" ++ disk) label).run.eval answers = .done (.ok r) ∧
          Lowest answers disk label numbers r) ↔ DigitsFit disk numbers) := by
  have order := sortedNumbers_increasing_iff partitions.isName partitions.distinct
  refine ⟨sortedNumbers disk numbers, sortedNumbers_perm disk numbers,
    listDiskPartitions_eval partitions, fun both => order.mp both.1, fun fit => ?_⟩
  have increasing := order.mpr fit
  exact ⟨increasing, lowest_of_increasing partitions fills increasing⟩

end

/-- A disk with the partitions, each of them named `initos`. -/
def diskSystem (disk : String) (names : List String) : (c : SysCmd) → c.Resp
  | .readDir _ => .ok (.ok "queue" :: names.map .ok)
  | .pathExists path => path ∈ names.map fun name =>
      UnixPath.join (UnixPath.join ("/sys/block/" ++ disk) name) "partition"
  | .readToString _ => .ok "DEVTYPE=partition\nPARTNAME=initos\n"
  | c => c.fail (.io .notFound "not found")

theorem fillsBuffers_diskSystem (disk : String) (names : List String) :
    FillsBuffers (diskSystem disk names) := nofun

theorem listDiskPartitions_ordered_iff_nvme :
    HasPartitions (diskSystem "nvme0n1" ["nvme0n1p10", "nvme0n1p2", "nvme0n1p1"]) "nvme0n1"
      [10, 2, 1] ∧
    (listDiskPartitions "/dev/nvme0n1").run.eval
        (diskSystem "nvme0n1" ["nvme0n1p10", "nvme0n1p2", "nvme0n1p1"]) =
      .done (.ok ["/dev/nvme0n1p1", "/dev/nvme0n1p2", "/dev/nvme0n1p10"]) := by
  have partitions : HasPartitions (diskSystem "nvme0n1" ["nvme0n1p10", "nvme0n1p2", "nvme0n1p1"])
      "nvme0n1" [10, 2, 1] :=
    ⟨by decide, ⟨_, rfl, by decide +kernel⟩, by decide⟩
  obtain ⟨sorted, perm, listed, ordered⟩ :=
    listDiskPartitions_ordered_iff partitions (fillsBuffers_diskSystem _ _)
  have increasing := (ordered.mpr (.inl (by decide +kernel))).1
  have only : sorted = [1, 2, 10] := by
    refine List.Perm.eq_of_pairwise' increasing (by decide) (perm.trans (by decide))
  rw [only] at listed
  exact ⟨partitions, listed.trans (by decide +kernel)⟩

theorem listDiskPartitions_overflow :
    HasPartitions (diskSystem "nvme0n99999999" ["nvme0n99999999p1", "nvme0n99999999p10"])
      "nvme0n99999999" [1, 10] ∧
    (listDiskPartitions "/dev/nvme0n99999999").run.eval
        (diskSystem "nvme0n99999999" ["nvme0n99999999p1", "nvme0n99999999p10"]) =
      .done (.ok ["/dev/nvme0n99999999p10", "/dev/nvme0n99999999p1"]) ∧
    (findPartitionOnDiskByLabel "/dev/nvme0n99999999" "initos").run.eval
        (diskSystem "nvme0n99999999" ["nvme0n99999999p1", "nvme0n99999999p10"]) =
      .done (.ok (some "/dev/nvme0n99999999p10")) ∧
    HasLabel (diskSystem "nvme0n99999999" ["nvme0n99999999p1", "nvme0n99999999p10"])
      "nvme0n99999999" "initos" "/dev/nvme0n99999999p1" true := by
  have partitions : HasPartitions
      (diskSystem "nvme0n99999999" ["nvme0n99999999p1", "nvme0n99999999p10"]) "nvme0n99999999"
      [1, 10] :=
    ⟨by decide, ⟨_, rfl, by decide +kernel⟩, by decide⟩
  have low : sortNumber (devicePath "nvme0n99999999" 1) = 999999991 := by decide +kernel
  have high : sortNumber (devicePath "nvme0n99999999" 10) = 0 := by decide +kernel
  have sorted : sortedNumbers "nvme0n99999999" [1, 10] = [10, 1] := by
    simp [sortedNumbers, List.mergeSort, low, high]
  have listed := listDiskPartitions_eval partitions
  rw [sorted] at listed
  refine ⟨partitions, listed.trans (by decide +kernel), ?_, by unfold HasLabel; decide +kernel⟩
  exact (Fallible.eval_bind_ok listed _).trans (by decide +kernel)

end Initos.Mount
