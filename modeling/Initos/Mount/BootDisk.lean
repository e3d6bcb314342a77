import Initos.Efi.BootEntry
import Initos.Lib.Static
import Initos.Mount

/-!
# Which partition is the boot partition

`find_boot_disk` on a system whose sysfs does not change while it runs. The entries of
`/sys/class/block` come in any order; what is returned is told by the entries alone.
-/

namespace Initos.Mount

open Interact Bytes

/-! ## The text of a GUID -/

/-- The bytes of a GUID in the order in which it is written: its first three fields are stored
in little endian. -/
def mixedEndian (g : List UInt8) : List UInt8 :=
  (g.take 4).reverse ++ ((g.drop 4).take 2).reverse ++ ((g.drop 6).take 2).reverse ++ g.drop 8

/-- Sixteen bytes, one by one. -/
theorem exists_sixteen {g : List UInt8} (length : g.length = 16) :
    ∃ a b c d e f h i j k l m n o p q, g = [a, b, c, d, e, f, h, i, j, k, l, m, n, o, p, q] := by
  match g, length with
  | [a, b, c, d, e, f, h, i, j, k, l, m, n, o, p, q], _ =>
    exact ⟨a, b, c, d, e, f, h, i, j, k, l, m, n, o, p, q, rfl⟩

/-- The text that is compared: the first three fields with their bytes turned. -/
theorem guidDigits_eq {g : List UInt8} (length : g.length = 16) :
    guidDigits g = some (Text.hex (mixedEndian g)) := by
  obtain ⟨a, b, c, d, e, f, h, i, j, k, l, m, n, o, p, q, rfl⟩ := exists_sixteen length
  rfl

/-- Different GUIDs have different texts. -/
theorem mixedEndian_injective {g g' : List UInt8} (length : g.length = 16)
    (length' : g'.length = 16) (same : mixedEndian g = mixedEndian g') : g = g' := by
  obtain ⟨a, b, c, d, e, f, h, i, j, k, l, m, n, o, p, q, rfl⟩ := exists_sixteen length
  obtain ⟨a', b', c', d', e', f', h', i', j', k', l', m', n', o', p', q', rfl⟩ :=
    exists_sixteen length'
  simp only [mixedEndian, List.take_succ_cons, List.take_zero, List.drop_succ_cons, List.drop_zero,
    List.reverse_cons, List.reverse_nil, List.nil_append, List.cons_append, List.cons.injEq] at same
  simp [same]

/-- `partition_guid_uuid` writes the same digits, with dashes. -/
theorem guidUuid_digits {g : List UInt8} (length : g.length = 16) :
    ∃ uuid, Efi.guidUuid g = some uuid ∧
      uuid.toList.filter (· ≠ '-') = (Text.hex (mixedEndian g)).toList := by
  obtain ⟨a, b, c, d, e, f, h, i, j, k, l, m, n, o, p, q, rfl⟩ := exists_sixteen length
  refine ⟨_, rfl, ?_⟩
  have fields : mixedEndian [a, b, c, d, e, f, h, i, j, k, l, m, n, o, p, q] =
      [d, c, b, a] ++ [f, e] ++ [i, h] ++ [j, k] ++ [l, m, n, o, p, q] := rfl
  have dash : "-".toList.filter (· ≠ '-') = [] := rfl
  rw [fields]
  simp only [String.toList_append, List.filter_append, Text.filter_hex, Text.hex_append, dash,
    List.append_nil]
  rfl

/-! ## What sysfs says -/

section

variable (sys : (c : SysCmd) → c.Resp)

/-- Where sysfs has the number of a partition. -/
def partitionFile (name : String) : String :=
  UnixPath.join (UnixPath.join "/sys/class/block" name) "partition"

/-- Where sysfs has the identifiers of a block device. -/
def ueventFile (name : String) : String :=
  UnixPath.join (UnixPath.join "/sys/class/block" name) "uevent"

/-- The block device is a partition. -/
def IsPartition (name : String) : Prop := sys (.pathExists (partitionFile name)) = true

instance (name : String) : Decidable (IsPartition sys name) :=
  inferInstanceAs (Decidable (_ = true))

/-- The number of the partition, where the entry is one. -/
def numberOf (name : String) : Option Nat :=
  if IsPartition sys name then
    match sys (.readToString (partitionFile name)) with
    | .ok value => Text.parseU32 (Text.trim value)
    | .error _ => none
  else none

/-- The `PARTUUID` of a block device, where sysfs knows one. -/
def partUuidOf (name : String) : Option String :=
  match sys (.readToString (ueventFile name)) with
  | .ok uevent => ueventValue uevent "PARTUUID"
  | .error _ => none

/-- What `resolve_parent_disk` finds. -/
def parentOf (name : String) : Option String :=
  match (resolveParentDisk ("/dev/" ++ name)).run.eval sys with
  | .done (.ok disk) => disk
  | _ => none

/-- `/sys/class/block` has these entries, and what the search reads can be read. -/
structure Listed (names : List String) : Prop where
  exists_dir : sys (.pathExists "/sys/class/block") = true
  entries : sys (.readDir "/sys/class/block") = .ok (names.map .ok)
  nodup : names.Nodup
  isName : ∀ name ∈ names, UnixPath.IsName name
  uevents : ∀ name ∈ names, IsPartition sys name →
    ∃ uevent, sys (.readToString (ueventFile name)) = .ok uevent
  disks : ∃ disks : List String, sys (.readDir "/sys/block") = .ok (disks.map .ok)

variable {sys}

theorem fileName_dev {name : String} (isName : UnixPath.IsName name) :
    UnixPath.fileName ("/dev/" ++ name) = some name := by
  have relative := UnixPath.not_absolute_of_noSlash isName.noSlash
  have joined : UnixPath.join "/dev/" name = "/dev/" ++ name := by
    simp [UnixPath.join, relative]
  rw [← joined]
  exact UnixPath.fileName_join_name "/dev/" isName

theorem parentDiskBySysfs_returns (partSys : String) :
    Fallible.Returns sys (parentDiskBySysfs partSys) := by
  unfold parentDiskBySysfs
  refine Fallible.returns_ask_bind ?_
  split
  · refine Fallible.returns_ask_bind ?_
    split
    · rw [Fallible.Returns]
      rw [Fallible.eval_attempt_call_bind]
      split
      · exact ⟨_, rfl⟩
      · split <;> exact ⟨_, rfl⟩
    · exact Fallible.returns_pure _
  · exact Fallible.returns_pure _

theorem diskWithPartition_returns (devName : String) (disks : List String) :
    Fallible.Returns sys (diskWithPartition devName (disks.map .ok)) := by
  induction disks with
  | nil => exact Fallible.returns_pure _
  | cons disk rest ih =>
    refine Fallible.returns_bind (Fallible.returns_pure disk) fun diskName => ?_
    refine Fallible.returns_ask_bind ?_
    split
    · refine Fallible.returns_ask_bind ?_
      split
      · exact Fallible.returns_pure _
      · exact ih
    · exact ih

theorem parentDiskByName_returns (devName : String) :
    Fallible.Returns sys (parentDiskByName devName) := by
  unfold parentDiskByName
  split
  · exact Fallible.returns_pure _
  · refine Fallible.returns_ask_bind ?_
    split <;> exact Fallible.returns_pure _

/-- What `resolve_parent_disk` finds for an entry. -/
theorem resolveParentDisk_eval {names : List String} (listed : Listed sys names) {name : String}
    (member : name ∈ names) :
    (resolveParentDisk ("/dev/" ++ name)).run.eval sys = .done (.ok (parentOf sys name)) := by
  obtain ⟨disks, entries⟩ := listed.disks
  have returns : Fallible.Returns sys (resolveParentDisk ("/dev/" ++ name)) := by
    rw [resolveParentDisk, fileName_dev (listed.isName name member)]
    refine Fallible.returns_ask_bind ?_
    split
    · exact Fallible.returns_pure _
    · refine Fallible.returns_bind (parentDiskBySysfs_returns _) fun found => ?_
      split
      · exact Fallible.returns_pure _
      · rw [Fallible.Returns, Fallible.eval_call_bind, entries]
        refine Fallible.returns_bind (diskWithPartition_returns _ disks) fun found => ?_
        split
        · exact Fallible.returns_pure _
        · exact parentDiskByName_returns _
  obtain ⟨disk, done⟩ := returns
  rw [parentOf, done]

/-- The `PARTUUID` of an entry. -/
theorem readUeventValue_eval {names : List String} (listed : Listed sys names) {name : String}
    (member : name ∈ names) (partition : IsPartition sys name) :
    (readUeventValue (ueventFile name) "PARTUUID").run.eval sys =
      .done (.ok (partUuidOf sys name)) := by
  obtain ⟨uevent, readable⟩ := listed.uevents name member partition
  rw [readUeventValue, partUuidOf, Fallible.eval_call_bind, readable]
  rfl

/-- The entry as a match by number, with its disk. -/
def candidate (sys : (c : SysCmd) → c.Resp) (n : Nat) (name : String) : Option (String × String) :=
  if numberOf sys name = some n then (parentOf sys name).map (·, "/dev/" ++ name) else none

/-- The entry as a match by number and GUID text. -/
def guidCandidate (sys : (c : SysCmd) → c.Resp) (text : String) (n : Nat) (name : String) :
    Option (String × String) :=
  if (partUuidOf sys name).map plainGuid = some text then candidate sys n name else none

section Loop

variable {name : String} {names rest : List String} {n : Nat} {found : List (String × String)}

/-- One round of the loop. -/
theorem matchBootDisk_cons (listed : Listed sys names) (member : name ∈ names)
    (guid : Option String) :
    (matchBootDisk guid (some n) (.ok name :: rest.map .ok) found).run.eval sys =
      match candidate sys n name, guid with
      | none, _ => (matchBootDisk guid (some n) (rest.map .ok) found).run.eval sys
      | some match_, none =>
        (matchBootDisk none (some n) (rest.map .ok) (found ++ [match_])).run.eval sys
      | some match_, some text =>
        if (partUuidOf sys name).map plainGuid = some text then .done (.ok (some match_, found))
        else (matchBootDisk (some text) (some n) (rest.map .ok) found).run.eval sys := by
  have parent := resolveParentDisk_eval listed member
  rw [matchBootDisk, ofExcept, pure_bind]
  dsimp only
  rw [Fallible.eval_ask_bind, ← partitionFile]
  unfold candidate numberOf
  by_cases partition : IsPartition sys name
  · have partUuid := readUeventValue_eval listed member partition
    have present : sys (.pathExists (partitionFile name)) = true := partition
    rw [present]
    simp only [Bool.not_true, Bool.false_eq_true, if_false, if_pos partition]
    rw [Fallible.eval_attempt_call_bind]
    cases sys (.readToString (partitionFile name)) with
    | error e => simp
    | ok value =>
      dsimp only
      -- the number is compared before the disk is looked for
      by_cases same : Text.parseU32 (Text.trim value) = some n
      · rw [if_neg (by simp [same]), if_pos same, Fallible.eval_bind_ok parent]
        cases parentOf sys name with
        | none => rfl
        | some disk =>
          cases guid with
          | none => rfl
          | some text =>
            simp only [Option.map_some]
            rw [← ueventFile, Fallible.eval_bind_ok partUuid]
            split <;> rfl
      · rw [if_pos (by simpa using same), if_neg same]
  · have absent : sys (.pathExists (partitionFile name)) = false := Bool.not_eq_true _ ▸ partition
    simp [absent, partition]

/-- With a GUID the first match ends the loop. -/
theorem matchBootDisk_guid (listed : Listed sys names) (subset : ∀ name ∈ rest, name ∈ names)
    (text : String) :
    (matchBootDisk (some text) (some n) (rest.map .ok) found).run.eval sys =
      .done (.ok (rest.findSome? (guidCandidate sys text n), found)) := by
  induction rest with
  | nil => rfl
  | cons name rest ih =>
    have later := ih fun other member => subset other (List.mem_cons_of_mem _ member)
    rw [List.map_cons, matchBootDisk_cons listed (subset name List.mem_cons_self),
      List.findSome?_cons, guidCandidate]
    cases candidate sys n name with
    | none => simpa using later
    | some match_ =>
      dsimp only
      by_cases same : (partUuidOf sys name).map plainGuid = some text
      · rw [if_pos same, if_pos same]
      · rw [if_neg same, if_neg same, later]

/-- Without one the matches are collected. -/
theorem matchBootDisk_number (listed : Listed sys names) (subset : ∀ name ∈ rest, name ∈ names) :
    (matchBootDisk none (some n) (rest.map .ok) found).run.eval sys =
      .done (.ok (none, found ++ rest.filterMap (candidate sys n))) := by
  induction rest generalizing found with
  | nil =>
    rw [List.filterMap_nil, List.append_nil]
    rfl
  | cons name rest ih =>
    have subset' : ∀ other ∈ rest, other ∈ names := fun other member =>
      subset other (List.mem_cons_of_mem _ member)
    rw [List.map_cons, matchBootDisk_cons listed (subset name List.mem_cons_self),
      List.filterMap_cons]
    cases candidate sys n name with
    | none => exact ih subset'
    | some match_ =>
      dsimp only
      rw [ih subset', List.append_assoc, List.singleton_append]

end Loop

/-- With a GUID: the first entry that matches. -/
theorem findBootDisk_guid {names : List String} (listed : Listed sys names) {g : List UInt8}
    (length : g.length = 16) (n : Nat) :
    (findBootDisk (some g) (some n)).run.eval sys =
      .done (.ok (names.findSome? (guidCandidate sys (Text.hex (mixedEndian g)) n))) := by
  have loop := @matchBootDisk_guid sys names names n [] listed (fun name member => member)
    (Text.hex (mixedEndian g))
  rw [findBootDisk, Fallible.eval_ask_bind, listed.exists_dir]
  simp only [Bool.not_true, Bool.false_eq_true, if_false, guidDigits_eq length, ofChecked, map_pure,
    pure_bind]
  rw [Fallible.eval_call_bind, listed.entries, Fallible.cont_ok, Fallible.eval_bind_ok loop]
  cases names.findSome? (guidCandidate sys (Text.hex (mixedEndian g)) n) <;> rfl

/-- With a number only: the one entry that matches, if there is just one. -/
theorem findBootDisk_number {names : List String} (listed : Listed sys names) (n : Nat) :
    (findBootDisk none (some n)).run.eval sys =
      .done (.ok (match names.filterMap (candidate sys n) with
        | [only] => some only
        | _ => none)) := by
  have loop := @matchBootDisk_number sys names names n [] listed (fun name member => member)
  rw [findBootDisk, Fallible.eval_ask_bind, listed.exists_dir]
  simp only [Bool.not_true, Bool.false_eq_true, if_false, pure_bind]
  rw [Fallible.eval_call_bind, listed.entries, Fallible.cont_ok, Fallible.eval_bind_ok loop,
    List.nil_append]
  match names.filterMap (candidate sys n) with
  | [] => rfl
  | [only] => rfl
  | _ :: _ :: _ => rfl

end

/-! ## The result does not depend on the order -/

section Lists

variable {α β : Type} {f : α → Option β} {l : List α} {x : β}

theorem findSome?_eq_some_iff_of_unique
    (unique : ∀ a ∈ l, ∀ b ∈ l, f a ≠ none → f b ≠ none → a = b) :
    l.findSome? f = some x ↔ ∃ a ∈ l, f a = some x := by
  constructor
  · exact List.exists_of_findSome?_eq_some
  · rintro ⟨a, member, found⟩
    cases first : l.findSome? f with
    | none => exact absurd (List.findSome?_eq_none_iff.mp first a member) (by simp [found])
    | some y =>
      obtain ⟨b, member', found'⟩ := List.exists_of_findSome?_eq_some first
      obtain rfl := unique a member b member' (by simp [found]) (by simp [found'])
      exact found'.symm.trans found

theorem filterMap_eq_singleton_iff (nodup : l.Nodup) :
    l.filterMap f = [x] ↔ ∃ a ∈ l, f a = some x ∧ ∀ b ∈ l, f b ≠ none → b = a := by
  induction l with
  | nil => simp
  | cons c l ih =>
    obtain ⟨fresh, nodup⟩ := List.nodup_cons.mp nodup
    cases head : f c with
    | none =>
      rw [List.filterMap_cons_none head, ih nodup]
      constructor
      · rintro ⟨a, member, found, only⟩
        refine ⟨a, List.mem_cons_of_mem _ member, found, fun b within some_ => ?_⟩
        rcases List.mem_cons.mp within with rfl | within
        · exact absurd head some_
        · exact only b within some_
      · rintro ⟨a, member, found, only⟩
        rcases List.mem_cons.mp member with rfl | member
        · exact absurd (head.symm.trans found) nofun
        · exact ⟨a, member, found, fun b within => only b (List.mem_cons_of_mem _ within)⟩
    | some y =>
      rw [List.filterMap_cons_some head, List.cons.injEq, List.filterMap_eq_nil_iff]
      constructor
      · rintro ⟨rfl, others⟩
        refine ⟨c, List.mem_cons_self, head, fun b within some_ => ?_⟩
        rcases List.mem_cons.mp within with rfl | within
        · rfl
        · exact absurd (others b within) some_
      · rintro ⟨a, member, found, only⟩
        obtain rfl := only c List.mem_cons_self (by simp [head])
        refine ⟨Option.some_inj.mp (head.symm.trans found), fun b within => ?_⟩
        by_contra some_
        exact fresh (only b (List.mem_cons_of_mem _ within) some_ ▸ within)

end Lists

section Exact

variable (sys : (c : SysCmd) → c.Resp)

/-- The entry is the partition with this number and this GUID. -/
def IsBootPartition (g : List UInt8) (n : Nat) (name : String) : Prop :=
  numberOf sys name = some n ∧
    ∃ value, partUuidOf sys name = some value ∧ plainGuid value = Text.hex (mixedEndian g)

theorem isPartition_of_numberOf {n : Nat} {name : String} (number : numberOf sys name = some n) :
    IsPartition sys name := by
  by_contra other
  rw [numberOf, if_neg other] at number
  cases number

/-- When an entry matches a number. -/
theorem candidate_eq_some_iff {n : Nat} {name disk dev : String} :
    candidate sys n name = some (disk, dev) ↔
      numberOf sys name = some n ∧ parentOf sys name = some disk ∧ dev = "/dev/" ++ name := by
  unfold candidate
  split
  · rename_i number
    cases parentOf sys name with
    | none => simp
    | some disk' => simp [number, eq_comm]
  · rename_i other
    simp [other]

theorem candidate_ne_none_iff {n : Nat} {name : String} :
    candidate sys n name ≠ none ↔ numberOf sys name = some n ∧ parentOf sys name ≠ none := by
  unfold candidate
  split <;> simp_all

/-- When an entry matches a GUID. -/
theorem guidCandidate_eq_some_iff {g : List UInt8} {n : Nat} {name disk dev : String} :
    guidCandidate sys (Text.hex (mixedEndian g)) n name = some (disk, dev) ↔
      IsBootPartition sys g n name ∧ parentOf sys name = some disk ∧ dev = "/dev/" ++ name := by
  unfold guidCandidate IsBootPartition
  split
  · rename_i same
    rw [candidate_eq_some_iff, and_assoc]
    rw [Option.map_eq_some_iff] at same
    simp [same]
  · rename_i other
    rw [Option.map_eq_some_iff] at other
    simp [other]

end Exact

/-- `find_boot_disk` finds exactly the partition it is asked for. -/
theorem findBootDisk_exact (sys : (c : SysCmd) → c.Resp) {names : List String}
    (listed : Listed sys names)
    (distinct : ∀ a ∈ names, ∀ b ∈ names, IsPartition sys a → IsPartition sys b →
      partUuidOf sys a ≠ none →
      (partUuidOf sys a).map plainGuid = (partUuidOf sys b).map plainGuid → a = b)
    {g : List UInt8} (length : g.length = 16) (n : Nat) :
    (∀ tr out, Runs (findBootDisk (some g) (some n)).run tr out → Admits (Always sys) [] tr →
      ∃ r, out = .done (.ok r) ∧ ∀ disk dev, r = some (disk, dev) ↔
        ∃ name ∈ names, IsBootPartition sys g n name ∧ parentOf sys name = some disk ∧
          dev = "/dev/" ++ name) ∧
    (∀ tr out, Runs (findBootDisk none (some n)).run tr out → Admits (Always sys) [] tr →
      ∃ r, out = .done (.ok r) ∧ ∀ disk dev, r = some (disk, dev) ↔
        ∃ name ∈ names, (numberOf sys name = some n ∧ parentOf sys name = some disk ∧
          dev = "/dev/" ++ name) ∧
          ∀ other ∈ names, numberOf sys other = some n → parentOf sys other ≠ none →
            other = name) ∧
    (∃ digits uuid, guidDigits g = some digits ∧ digits = Text.hex (mixedEndian g) ∧
      (∀ info : Efi.BootDeviceInfo, info.partitionGuid = some g →
        info.partitionGuidUuid = some (some uuid)) ∧
      digits = String.ofList (uuid.toList.filter (· ≠ '-')) ∧
      ∀ g', g'.length = 16 → guidDigits g' = some digits → g' = g) := by
  refine ⟨fun tr out run always => ?_, fun tr out run always => ?_, ?_⟩
  · refine ⟨_, (Prog.eval_of_runs run always).trans (findBootDisk_guid listed length n),
      fun disk dev => ?_⟩
    have unique : ∀ a ∈ names, ∀ b ∈ names,
        guidCandidate sys (Text.hex (mixedEndian g)) n a ≠ none →
        guidCandidate sys (Text.hex (mixedEndian g)) n b ≠ none → a = b := by
      intro a memberA b memberB foundA foundB
      obtain ⟨⟨_, _⟩, foundA⟩ := Option.ne_none_iff_exists'.mp foundA
      obtain ⟨⟨_, _⟩, foundB⟩ := Option.ne_none_iff_exists'.mp foundB
      obtain ⟨⟨numberA, value, uuidA, textA⟩, _⟩ := (guidCandidate_eq_some_iff sys).mp foundA
      obtain ⟨⟨numberB, value', uuidB, textB⟩, _⟩ := (guidCandidate_eq_some_iff sys).mp foundB
      refine distinct a memberA b memberB (isPartition_of_numberOf sys numberA)
        (isPartition_of_numberOf sys numberB) (by simp [uuidA]) ?_
      simp [uuidA, uuidB, textA, textB]
    rw [findSome?_eq_some_iff_of_unique unique]
    simp only [guidCandidate_eq_some_iff]
  · refine ⟨_, (Prog.eval_of_runs run always).trans (findBootDisk_number listed n),
      fun disk dev => ?_⟩
    have single := filterMap_eq_singleton_iff (f := candidate sys n) (x := (disk, dev)) listed.nodup
    simp only [candidate_eq_some_iff, candidate_ne_none_iff, and_imp] at single
    rw [← single]
    match names.filterMap (candidate sys n) with
    | [] => simp
    | [only] => simp
    | _ :: _ :: _ => simp
  · obtain ⟨uuid, written, digits⟩ := guidUuid_digits length
    refine ⟨_, uuid, guidDigits_eq length, rfl, fun info guid => ?_, ?_, fun g' length' same => ?_⟩
    · simp [Efi.BootDeviceInfo.partitionGuidUuid, guid, written]
    · rw [digits, String.ofList_toList]
    · rw [guidDigits_eq length', Option.some_inj] at same
      exact mixedEndian_injective length' length (Text.hex_injective same)

/-- A disk `sda` with one partition. -/
def sampleSysfs : (c : SysCmd) → c.Resp
  | .pathExists path => path ∈ ["/sys/class/block", "/sys/class/block/sda1/partition", "/sys/block",
      "/sys/block/sda/sda1", "/sys/block/sda/sda1/partition"]
  | .readDir path =>
    if path = "/sys/class/block" then .ok [.ok "sda", .ok "sda1"]
    else if path = "/sys/block" then .ok [.ok "sda"]
    else .error (.io .notFound "not found")
  | .readToString path =>
    if path = "/sys/class/block/sda1/partition" then .ok "1\n"
    else if path = "/sys/class/block/sda1/uevent" then
      .ok "PARTN=1\nPARTUUID=03020100-0504-0706-0809-0A0B0C0D0E0F\n"
    else .error (.io .notFound "not found")
  | c => c.fail (.io .notFound "not found")

theorem sampleSysfs_listed : Listed sampleSysfs ["sda", "sda1"] where
  exists_dir := by decide
  entries := by decide
  nodup := by decide
  isName := by decide
  uevents := by
    intro name member partition
    have only : name = "sda1" := by
      rcases List.mem_cons.mp member with rfl | member
      · exact absurd partition (by decide +kernel)
      · exact List.mem_singleton.mp member
    subst only
    exact ⟨"PARTN=1\nPARTUUID=03020100-0504-0706-0809-0A0B0C0D0E0F\n", by decide +kernel⟩
  disks := ⟨["sda"], by decide⟩

theorem findBootDisk_exact_sample :
    (findBootDisk (some (List.range 16 |>.map UInt8.ofNat)) (some 1)).run.eval sampleSysfs =
      .done (.ok (some ("/dev/sda", "/dev/sda1"))) := by
  obtain ⟨tr, run, always⟩ := Prog.runs_eval sampleSysfs
    (findBootDisk (some (List.range 16 |>.map UInt8.ofNat)) (some 1)).run []
  have exact_ := findBootDisk_exact sampleSysfs sampleSysfs_listed (by decide +kernel)
    (show (List.range 16 |>.map UInt8.ofNat).length = 16 by decide) 1
  obtain ⟨r, done, found⟩ := exact_.1 tr _ run always
  rw [done, (found "/dev/sda" "/dev/sda1").mpr]
  exact ⟨"sda1", by decide, ⟨by decide +kernel, _, rfl, by decide +kernel⟩,
    by decide +kernel, by decide⟩

end Initos.Mount
