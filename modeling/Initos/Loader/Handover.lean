import Initos.Loader.Safety

/-!
# The kernel handover

`linux_exec` (`src/bin/efi.rs:308-406`) checks the setup header of the kernel, fills in a boot
record of its own and jumps to the kernel. The record names the command line and the initrd by
32-bit addresses. It lies below 1 GiB, as the initrd does; the copy of the command line comes
from the pool, which may be anywhere.
-/

namespace Initos.Loader

open Interact Bytes Efi

/-! ## The setup header -/

/-- The fields of `SetupHeader` (`src/bin/efi.rs:28-71`). -/
inductive SetupField where
  | bootSector | setupSecs | rootFlags | sysSize | ramSize | videoMode | rootDev | signature
  | jump | header | version | suSwitch | setupSeg | startSys | kernelVer | loaderId | loadFlags
  | movesize | code32Start | ramdiskStart | ramdiskLen | bootsectKludge | heapEnd | extLoaderVer
  | extLoaderType | cmdLinePtr | ramdiskMax | kernelAlignment | relocatableKernel | minAlignment
  | xloadflags | cmdlineSize | hardwareSubarch | hardwareSubarchData | payloadOffset
  | payloadLength | setupData | prefAddress | initSize | handoverOffset
  deriving DecidableEq

/-- The fields in their order, with their sizes: the structure is packed. -/
def setupLayout : List (SetupField × Nat) :=
  [(.bootSector, 0x01f1), (.setupSecs, 1), (.rootFlags, 2), (.sysSize, 4), (.ramSize, 2),
    (.videoMode, 2), (.rootDev, 2), (.signature, 2), (.jump, 2), (.header, 4), (.version, 2),
    (.suSwitch, 2), (.setupSeg, 2), (.startSys, 2), (.kernelVer, 2), (.loaderId, 1),
    (.loadFlags, 1), (.movesize, 2), (.code32Start, 4), (.ramdiskStart, 4), (.ramdiskLen, 4),
    (.bootsectKludge, 4), (.heapEnd, 2), (.extLoaderVer, 1), (.extLoaderType, 1),
    (.cmdLinePtr, 4), (.ramdiskMax, 4), (.kernelAlignment, 4), (.relocatableKernel, 1),
    (.minAlignment, 1), (.xloadflags, 2), (.cmdlineSize, 4), (.hardwareSubarch, 4),
    (.hardwareSubarchData, 8), (.payloadOffset, 4), (.payloadLength, 4), (.setupData, 8),
    (.prefAddress, 8), (.initSize, 4), (.handoverOffset, 4)]

namespace SetupField

/-- The bytes of a field. -/
def size (f : SetupField) : Nat := (setupLayout.lookup f).getD 0

/-- `offset_of!`. -/
def offset (f : SetupField) : Nat := ((setupLayout.takeWhile (·.1 ≠ f)).map Prod.snd).sum

end SetupField

/-- `SETUP_MAGIC`, "HdrS". -/
def setupMagic : Nat := 0x53726448

/-- `read_unaligned` of a field of the header at an address. -/
def readSetup (addr : Nat) (f : SetupField) : Prog Uefi Nat :=
  leValue <$> Prog.perform (I := Uefi) (.readMemory (addr + f.offset) f.size)

/-- Assign a field of the header at an address. -/
def writeSetup (addr : Nat) (f : SetupField) (value : Nat) : Prog Uefi Unit :=
  Prog.perform (I := Uefi) (.copyTo (addr + f.offset) (leBytes f.size value))

/-! ## `linux_exec` -/

/-- `{:x}`. -/
def lowerHex (n : Nat) : String := String.ofList (Nat.toDigits 16 n)

/-- What the kernel is entered with. -/
structure Handover where
  handoverAddr : Nat
  bootSetup : Nat
  deriving DecidableEq

/-- The checks of the kernel's header (`src/bin/efi.rs:317-344`). -/
def checkSetup (kernelAddr : Nat) : Prog Uefi Unit := do
  let sig ← readSetup kernelAddr .signature
  let hdr ← readSetup kernelAddr .header
  if sig ≠ 0xAA55 ∨ hdr ≠ setupMagic then
    failAndReboot ("Kernel handover failed: invalid setup " ++
      s!"signature=0x{lowerHex sig}, header=0x{lowerHex hdr}")
  else
    let version ← readSetup kernelAddr .version
    let relocatable ← readSetup kernelAddr .relocatableKernel
    let xloadflags ← readSetup kernelAddr .xloadflags
    if xloadflags &&& 0x08 = 0 then
      failAndReboot (s!"Kernel handover failed: xloadflags=0x{lowerHex xloadflags} " ++
        "does not report 64-bit EFI handover support")
    else if version < 0x20b ∨ relocatable = 0 then
      failAndReboot ("Kernel handover failed: unsupported " ++
        s!"version=0x{lowerHex version}, relocatable={relocatable}")
    else return ()

/-- The copy of the command line and the fields that name it and the initrd
    (`src/bin/efi.rs:380-398`); `as u32` keeps the low 32 bits. -/
def fillSetup (bootSetup : Nat) (cmdline : String) (initrdAddr initrdSize : Nat) :
    Prog Uefi Unit := do
  let bytes := Text.asBytes cmdline
  match ← (allocatePool (bytes.length + 1)).run with
  | .error status =>
    failAndReboot s!"Kernel handover failed: cmdline allocation failed: {status.shown}"
  | .ok cmdlinePool =>
    Prog.perform (I := Uefi) (.copyTo cmdlinePool bytes)
    Prog.perform (I := Uefi) (.copyTo (cmdlinePool + bytes.length) [0])
    writeSetup bootSetup .cmdLinePtr (cmdlinePool % 2 ^ 32)
    if initrdSize > 0 then
      writeSetup bootSetup .ramdiskStart (initrdAddr % 2 ^ 32)
      writeSetup bootSetup .ramdiskLen (initrdSize % 2 ^ 32)

/-- `linux_exec` (`src/bin/efi.rs:308-406`) up to the jump into the kernel. -/
def linuxExec (cmdline : String) (kernelAddr initrdAddr initrdSize : Nat) :
    Prog Uefi Handover := do
  checkSetup kernelAddr
  let pagesNeeded := 4
  match ← (allocatePages 0x40000000 pagesNeeded).run with
  | .error status =>
    failAndReboot s!"Kernel handover failed: boot setup allocation failed: {status.shown}"
  | .ok bootSetup =>
    Prog.perform (I := Uefi) (.zero bootSetup (pagesNeeded * 4096))
    let setupSecs ← readSetup kernelAddr .setupSecs
    let ramdiskMax ← readSetup kernelAddr .ramdiskMax
    let handoverOffset ← readSetup kernelAddr .handoverOffset
    let code32Start := kernelAddr + (setupSecs + 1) * 512
    let handoverAddr := code32Start + 512 + handoverOffset
    writeSetup bootSetup .loaderId 0x21
    writeSetup bootSetup .ramdiskMax ramdiskMax
    fillSetup bootSetup cmdline initrdAddr initrdSize
    return ⟨handoverAddr, bootSetup⟩

/-! ## What the kernel finds -/

/-- A field of the record at an address, as the kernel reads it. -/
def Memory.field (memory : Memory) (addr : Nat) (f : SetupField) : Nat :=
  leValue (memory.read (addr + f.offset) f.size)

/-- The record names the copy of the command line, and the initrd with its size. -/
structure Faithful (memory : Memory) (bootSetup pool : Nat) (cmdline : String)
    (initrdAddr initrdSize : Nat) : Prop where
  cmdLinePtr : memory.field bootSetup .cmdLinePtr = pool
  copied : memory.read pool ((Text.asBytes cmdline).length + 1) = Text.asBytes cmdline ++ [0]
  ramdiskLen : memory.field bootSetup .ramdiskLen = initrdSize
  ramdiskStart : 0 < initrdSize → memory.field bootSetup .ramdiskStart = initrdAddr

/-- What the firmware promises: pages are aligned and lie below the limit, the pool gives any
    addresses that are not in use. -/
def Allocates : Rely Uefi := fun h e =>
  match e with
  | ⟨.allocatePages maxAddress pages, r⟩ =>
    ∀ addr, r = Except.ok addr → addr % 4096 = 0 ∧ addr + pages * 4096 ≤ maxAddress
  | ⟨.allocatePool len, r⟩ =>
    ∀ addr, r = Except.ok addr → ∀ range ∈ allocated h, Disjoint (addr, len) range
  | _ => True

/-- The addresses the pool has given. -/
def pools (h : History Uefi) : List Nat :=
  h.filterMap fun
    | ⟨.allocatePool _, r⟩ => (show Except Status Nat from r).toOption
    | _ => none

/-! ## Reading back -/

namespace Memory

/-- What was stored is read back. -/
theorem read_store_same (m : Memory) (addr : Nat) (bytes : List UInt8) :
    (m.store addr bytes).read addr bytes.length = bytes := by
  apply List.ext_getElem
  · simp [Memory.read]
  · intro i low high
    simp [Memory.read, Memory.store, high]

/-- A store elsewhere does not matter. -/
theorem read_store_other {m : Memory} {addr addr' len : Nat} {bytes : List UInt8}
    (apart : Disjoint (addr, bytes.length) (addr', len)) :
    (m.store addr bytes).read addr' len = m.read addr' len := by
  refine Memory.read_congr fun a low high => Memory.store_other ?_
  rcases apart with before | behind
  · simp only at before
    omega
  · simp only at behind
    omega

/-- Two stores side by side are one. -/
theorem store_append (m : Memory) (addr : Nat) (first second : List UInt8) :
    (m.store addr first).store (addr + first.length) second = m.store addr (first ++ second) := by
  funext a
  simp only [Memory.store, List.length_append]
  by_cases inSecond : addr + first.length ≤ a ∧ a < addr + first.length + second.length
  · rw [if_pos inSecond, if_pos (by omega), List.getD_eq_getElem?_getD,
      List.getD_eq_getElem?_getD, List.getElem?_append_right (by omega), Nat.sub_add_eq]
  · rw [if_neg inSecond]
    by_cases inFirst : addr ≤ a ∧ a < addr + first.length
    · rw [if_pos inFirst, if_pos (by omega), List.getD_eq_getElem?_getD,
        List.getD_eq_getElem?_getD, List.getElem?_append_left (by omega)]
    · rw [if_neg inFirst, if_neg (by omega)]

/-- Assign a field of the record at an address. -/
def setField (m : Memory) (addr : Nat) (f : SetupField) (value : Nat) : Memory :=
  m.store (addr + f.offset) (leBytes f.size value)

section

variable {m : Memory} {addr len : Nat} {f g : SetupField}

/-- A 32-bit field holds the low 32 bits. -/
theorem field_setField_same (word : f.size = 4) (value : Nat) :
    (m.setField addr f (value % 2 ^ 32)).field addr f = value % 2 ^ 32 := by
  have same := read_store_same m (addr + f.offset) (leBytes f.size (value % 2 ^ 32))
  rw [length_leBytes] at same
  rw [field, setField, same, leValue_leBytes, word]
  exact Nat.mod_mod value (2 ^ 32)

/-- A field keeps its value when another one is set. -/
theorem field_setField_other {value : Nat}
    (apart : f.offset + f.size ≤ g.offset ∨ g.offset + g.size ≤ f.offset) :
    (m.setField addr f value).field addr g = m.field addr g := by
  rw [field, setField, read_store_other, field]
  simp only [Disjoint, length_leBytes]
  omega

/-- A field of a zeroed record is 0. -/
theorem field_zeroed (inside : g.offset + g.size ≤ len) :
    (m.store addr (List.replicate len 0)).field addr g = 0 := by
  have zeros : (m.store addr (List.replicate len 0)).read (addr + g.offset) g.size =
      List.replicate g.size 0 := by
    apply List.ext_getElem
    · simp [Memory.read]
    · intro i low high
      rw [List.length_replicate] at high
      have within : addr ≤ addr + g.offset + i ∧ addr + g.offset + i < addr + len := by omega
      have position : addr + g.offset + i - addr < len := by omega
      simp [Memory.read, Memory.store, within, List.getElem?_replicate, position]
  rw [field, zeros, leValue_replicate_zero]

/-- A store outside the record leaves its fields. -/
theorem field_store_other {other : Nat} {bytes : List UInt8}
    (apart : Disjoint (other, bytes.length) (addr, len)) (inside : g.offset + g.size ≤ len) :
    (m.store other bytes).field addr g = m.field addr g := by
  rw [field, read_store_other, field]
  simp only [Disjoint] at apart ⊢
  omega

/-- A field of the record is no part of what lies outside. -/
theorem read_setField_other {other size value : Nat}
    (apart : Disjoint (other, size) (addr, len)) (inside : f.offset + f.size ≤ len) :
    (m.setField addr f value).read other size = m.read other size := by
  rw [setField, read_store_other]
  simp only [Disjoint, length_leBytes] at apart ⊢
  omega

end

/-- Memory after `fillSetup` with this pool address. -/
def filled (m : Memory) (bootSetup pool : Nat) (cmdline : String) (initrdAddr initrdSize : Nat) :
    Memory :=
  let named := (m.store pool (Text.asBytes cmdline ++ [0])).setField bootSetup .cmdLinePtr
    (pool % 2 ^ 32)
  if initrdSize > 0 then
    (named.setField bootSetup .ramdiskStart (initrdAddr % 2 ^ 32)).setField bootSetup .ramdiskLen
      (initrdSize % 2 ^ 32)
  else named

end Memory

/-- The record is faithful just when the command line lies in the first 4 GiB. -/
theorem faithful_filled_iff {m : Memory} {bootSetup pool : Nat} {cmdline : String}
    {initrdAddr initrdSize : Nat}
    (apart : Disjoint (pool, (Text.asBytes cmdline).length + 1) (bootSetup, 4 * 4096))
    (blank : m.field bootSetup .ramdiskLen = 0) (low : initrdAddr + initrdSize ≤ 0x40000000) :
    Faithful (m.filled bootSetup pool cmdline initrdAddr initrdSize) bootSetup pool cmdline
      initrdAddr initrdSize ↔ pool < 2 ^ 32 := by
  -- the record up to the initrd: the copy is in place, and its address cut to 32 bits
  let named := (m.store pool (Text.asBytes cmdline ++ [0])).setField bootSetup .cmdLinePtr
    (pool % 2 ^ 32)
  have apart' : Disjoint (pool, (Text.asBytes cmdline ++ [0]).length) (bootSetup, 4 * 4096) := by
    rwa [List.length_append]
  have namedPtr : named.field bootSetup .cmdLinePtr = pool % 2 ^ 32 := by
    exact Memory.field_setField_same rfl pool
  have namedCopy : named.read pool ((Text.asBytes cmdline).length + 1) =
      Text.asBytes cmdline ++ [0] := by
    rw [Memory.read_setField_other apart (by decide)]
    have same := Memory.read_store_same m pool (Text.asBytes cmdline ++ [0])
    rwa [List.length_append] at same
  have namedLen : named.field bootSetup .ramdiskLen = 0 := by
    rw [Memory.field_setField_other (by decide), Memory.field_store_other apart' (by decide), blank]
  have fits : pool % 2 ^ 32 = pool ↔ pool < 2 ^ 32 := by omega
  by_cases present : initrdSize > 0
  · have memory : m.filled bootSetup pool cmdline initrdAddr initrdSize =
        (named.setField bootSetup .ramdiskStart (initrdAddr % 2 ^ 32)).setField bootSetup
          .ramdiskLen (initrdSize % 2 ^ 32) := if_pos present
    rw [memory, ← fits, ← namedPtr]
    constructor
    · intro faithful
      have read := faithful.cmdLinePtr
      rwa [Memory.field_setField_other (by decide), Memory.field_setField_other (by decide)] at read
    · intro whole
      refine ⟨?_, ?_, ?_, fun _ => ?_⟩
      · rwa [Memory.field_setField_other (by decide), Memory.field_setField_other (by decide)]
      · rw [Memory.read_setField_other apart (by decide),
          Memory.read_setField_other apart (by decide), namedCopy]
      · rw [Memory.field_setField_same rfl, Nat.mod_eq_of_lt (by omega)]
      · rw [Memory.field_setField_other (by decide), Memory.field_setField_same rfl,
          Nat.mod_eq_of_lt (by omega)]
  · have memory : m.filled bootSetup pool cmdline initrdAddr initrdSize = named := if_neg present
    rw [memory, ← fits, ← namedPtr]
    constructor
    · exact Faithful.cmdLinePtr
    · intro whole
      refine ⟨whole, namedCopy, ?_, fun some => absurd some present⟩
      rw [namedLen]
      omega

/-! ## Runs -/

section

variable (m : Memory) {h : History Uefi} {bootSetup : Nat}

theorem pools_append (h tr : History Uefi) : pools (h ++ tr) = pools h ++ pools tr :=
  List.filterMap_append

theorem pools_snoc (h : History Uefi) {e : Event Uefi} (other : pools [e] = []) :
    pools (h ++ [e]) = pools h := by
  rw [pools_append, other, List.append_nil]

variable {R : Rely Uefi} {β : Type} {Q : History Uefi → Outcome Uefi β → Prop}
  {f : Unit → Prog Uefi β}

theorem copyTo_bind_wp {addr : Nat} {src : List UInt8}
    (next : Prog.wp R Q (f ()) (h ++ [⟨.copyTo addr src, ()⟩])) :
    Prog.wp R Q (Prog.perform (I := Uefi) (.copyTo addr src) >>= f) h := by
  rw [Prog.wp_bind, Prog.wp_perform]
  exact fun _ _ => next

theorem writeSetup_wp {Q : History Uefi → Outcome Uefi Unit → Prop} {addr value : Nat}
    {field : SetupField}
    (post : Q (h ++ [⟨.copyTo (addr + field.offset) (leBytes field.size value), ()⟩]) (.done ())) :
    Prog.wp R Q (writeSetup addr field value) h :=
  (Prog.wp_perform R (I := Uefi) (.copyTo _ _) Q h).mpr fun _ _ => post

theorem zero_bind_wp {addr len : Nat} (next : Prog.wp R Q (f ()) (h ++ [⟨.zero addr len, ()⟩])) :
    Prog.wp R Q (Prog.perform (I := Uefi) (.zero addr len) >>= f) h := by
  rw [Prog.wp_bind, Prog.wp_perform]
  exact fun _ _ => next

/-- What is in the record when it has been filled in. -/
theorem fillSetup_wp (cmdline : String) (initrdAddr initrdSize : Nat)
    (held : (bootSetup, 4 * 4096) ∈ allocated h) :
    Prog.wp Allocates (Prog.OnDone fun h' _ => ∃ pool, pools h' = pools h ++ [pool] ∧
        Disjoint (pool, (Text.asBytes cmdline).length + 1) (bootSetup, 4 * 4096) ∧
        m.after h' = (m.after h).filled bootSetup pool cmdline initrdAddr initrdSize)
      (fillSetup bootSetup cmdline initrdAddr initrdSize) h := by
  rw [fillSetup, Prog.wp_bind, Fallible.wp_call]
  intro answer promised
  cases answer with
  | error status => exact Prog.wp_onDone_halt ..
  | ok pool =>
    have apart := promised pool rfl _ held
    rw [Prog.andThen_done]
    refine copyTo_bind_wp (copyTo_bind_wp (copyTo_bind_wp ?_))
    by_cases present : initrdSize > 0
    · rw [if_pos present]
      refine copyTo_bind_wp (writeSetup_wp ⟨pool, ?_, apart, ?_⟩)
      · simp only [pools_append, List.append_assoc]
        rfl
      · simp only [Memory.after_snoc, Memory.step, Memory.store_append, Memory.filled, present,
          if_true, Memory.setField]
    · rw [if_neg present, Prog.wp_pure]
      refine ⟨pool, ?_, apart, ?_⟩
      · simp only [pools_append, List.append_assoc]
        rfl
      · simp only [Memory.after_snoc, Memory.step, Memory.store_append, Memory.filled, present,
          if_false, Memory.setField]

/-- Reading the kernel's header. -/
def Reads : UefiCmd → Prop
  | .readMemory _ _ => True
  | _ => False

theorem pools_reads {tr : History Uefi} (reads : ∀ e ∈ tr, Reads e.cmd) : pools tr = [] := by
  apply List.filterMap_eq_nil_iff.mpr
  intro e member
  have read := reads e member
  obtain ⟨c, r⟩ := e
  cases c <;> first | rfl | exact absurd read id

/-- A part that only reads the header leaves memory, pages and pool as they are. -/
theorem reads_bind_wp {α : Type} {p : Prog Uefi α} {f : α → Prog Uefi β}
    {P : History Uefi → β → Prop} (reads : p.Uses Reads)
    (next : ∀ h' a, Still m h h' → pools h' = pools h → Prog.wp R (Prog.OnDone P) (f a) h') :
    Prog.wp R (Prog.OnDone P) (p >>= f) h := by
  apply Prog.wp_bind_onDone
  apply Prog.wp_mono (reads.wp R h)
  intro h' out extended
  obtain ⟨tr, rfl, reads⟩ := extended
  have quiet : ∀ e ∈ tr, Quiet e.cmd := by
    intro e member
    have read := reads e member
    obtain ⟨c, r⟩ := e
    cases c <;> trivial
  cases out with
  | halted => trivial
  | done a =>
    refine next _ a ⟨?_, ?_⟩ ?_
    · rw [Memory.after_append, Memory.after_quiet _ quiet]
    · rw [allocated_append, allocated_quiet quiet, List.append_nil]
    · rw [pools_append, pools_reads reads, List.append_nil]

theorem readSetup_uses (addr : Nat) (field : SetupField) : (readSetup addr field).Uses Reads :=
  (Prog.uses_map _ _ _).mpr ((Prog.uses_perform _ _).mpr trivial)

/-- The checks only read. -/
theorem checkSetup_uses (kernelAddr : Nat) : (checkSetup kernelAddr).Uses Reads := by
  refine Prog.uses_bind (readSetup_uses _ _) fun sig => ?_
  refine Prog.uses_bind (readSetup_uses _ _) fun hdr => ?_
  split
  · trivial
  · refine Prog.uses_bind (readSetup_uses _ _) fun version => ?_
    refine Prog.uses_bind (readSetup_uses _ _) fun relocatable => ?_
    refine Prog.uses_bind (readSetup_uses _ _) fun xloadflags => ?_
    split
    · trivial
    · split <;> trivial

/-- The record is faithful where the pool address fits 32 bits, and only there. -/
theorem linuxExec_wp (cmdline : String) (kernelAddr : Nat) {initrdAddr initrdSize : Nat}
    (low : initrdAddr + initrdSize ≤ 0x40000000) :
    Prog.wp Allocates (Prog.OnDone fun h' handover => ∃ pool, pools h' = pools h ++ [pool] ∧
        (Faithful (m.after h') handover.bootSetup pool cmdline initrdAddr initrdSize ↔
          pool < 2 ^ 32))
      (linuxExec cmdline kernelAddr initrdAddr initrdSize) h := by
  refine reads_bind_wp m (checkSetup_uses kernelAddr) fun h₁ _ still₁ pools₁ => ?_
  rw [Prog.wp_bind, Fallible.wp_call]
  intro answer _
  cases answer with
  | error status => exact Prog.wp_onDone_halt ..
  | ok bootSetup =>
    refine zero_bind_wp ?_
    refine reads_bind_wp m (readSetup_uses _ _) fun h₂ _ still₂ pools₂ => ?_
    refine reads_bind_wp m (readSetup_uses _ _) fun h₃ ramdiskMax still₃ pools₃ => ?_
    refine reads_bind_wp m (readSetup_uses _ _) fun h₄ _ still₄ pools₄ => ?_
    refine copyTo_bind_wp (copyTo_bind_wp ?_)
    have still := (still₂.trans still₃).trans still₄
    have zeroed : m.after h₄ = (m.after h₁).store bootSetup (List.replicate (4 * 4096) 0) := by
      rw [still.1, Memory.after_snoc, Memory.after_snoc]
      rfl
    have held : (bootSetup, 4 * 4096) ∈ allocated h₄ := by
      rw [still.2, allocated_append, allocated_append]
      simp [allocated]
    have noPool : pools h₄ = pools h := by
      rw [pools₄, pools₃, pools₂, pools_snoc _ rfl, pools_snoc _ rfl, pools₁]
    apply Prog.wp_bind_onDone
    refine Prog.wp_mono (fillSetup_wp m cmdline initrdAddr initrdSize ?_) fun h₅ out post => ?_
    · rw [allocated_append, allocated_append]
      exact List.mem_append_left _ (List.mem_append_left _ held)
    · cases out with
      | halted => trivial
      | done =>
        obtain ⟨pool, pools₅, apart, memory⟩ := post
        refine (Prog.wp_pure _ _ _ _).mpr ⟨pool, ?_, ?_⟩
        · rw [pools₅, pools_snoc _ rfl, pools_snoc _ rfl, noPool]
        · rw [memory]
          refine faithful_filled_iff apart ?_ low
          rw [Memory.after_snoc, Memory.after_snoc, zeroed]
          change (Memory.setField (Memory.setField _ bootSetup .loaderId 0x21) bootSetup .ramdiskMax
            ramdiskMax).field bootSetup .ramdiskLen = 0
          rw [Memory.field_setField_other (by decide), Memory.field_setField_other (by decide),
            Memory.field_zeroed (by decide)]

/-- Files are loaded below 1 GiB. -/
theorem loadKernelToAddress_low (X : Crates) (path : String) :
    Prog.wp Allocates (Fallible.OnOk fun _ r => r.1 + r.2 ≤ 0x40000000)
      (loadKernelToAddress X path).run h := by
  rw [loadKernelToAddress]
  apply Fallible.wp_skip_onOk
  intro h₁ size
  apply Fallible.wp_bind_onOk
  apply Fallible.wp_call_onOk
  intro answer addr promised ok
  have low := (promised addr ok).2
  apply Fallible.wp_skip_onOk
  intro h₂ _
  have pages := le_pages size
  exact Fallible.wp_pure_onOk (show addr + size ≤ 0x40000000 by omega)

/-- Where the initrd lies: in pages below 1 GiB, or nowhere. -/
theorem loadInitrd_low (X : Crates) (secureBoot : Bool) (db : List UInt8) (dbSha : String) :
    Prog.wp Allocates (Prog.OnDone fun _ r => r.1 + r.2 ≤ 0x40000000)
      (loadInitrd X secureBoot db dbSha) h := by
  rw [loadInitrd]
  apply Prog.wp_bind_onDone
  apply Prog.wp_mono (loadKernelToAddress_low X "\\EFI\\BOOT\\INITRD.IMG")
  intro h₁ out low
  rcases out with (status | ⟨addr, size⟩) | stop
  · exact (Prog.wp_pure ..).mpr (show 0 + 0 ≤ 0x40000000 by decide)
  · have low : addr + size ≤ 0x40000000 := low
    dsimp only [Prog.OnDone]
    split
    · apply Prog.wp_skip_onDone
      intro h₂ data
      apply Prog.wp_skip_onDone
      intro h₃ _
      exact (Prog.wp_pure ..).mpr low
    · exact (Prog.wp_pure ..).mpr low
  · trivial

end

/-- In every run that loads an initrd and hands over to the kernel, the record is faithful just
    when the pool has placed the command line below 4 GiB. -/
theorem linuxExec_faithful_iff (X : Crates) (m : Memory) (secureBoot : Bool) (db : List UInt8)
    (dbSha cmdline : String) (kernelAddr : Nat) {initrdAddr initrdSize : Nat}
    {h tr tr' : History Uefi} {handover : Handover}
    (loaded : Runs (loadInitrd X secureBoot db dbSha) tr (.done (initrdAddr, initrdSize)))
    (runs : Runs (linuxExec cmdline kernelAddr initrdAddr initrdSize) tr' (.done handover))
    (promised : Admits Allocates h (tr ++ tr')) :
    ∃ pool, pools tr' = [pool] ∧
      (Faithful (m.after (h ++ tr ++ tr')) handover.bootSetup pool cmdline initrdAddr initrdSize ↔
        pool < 2 ^ 32) := by
  rw [admits_append] at promised
  have low : initrdAddr + initrdSize ≤ 0x40000000 :=
    (Prog.wp_iff_runs _ _ _ _).mp (loadInitrd_low X secureBoot db dbSha) tr _ loaded promised.1
  obtain ⟨pool, pools_eq, faithful_iff⟩ := (Prog.wp_iff_runs _ _ _ _).mp
    (linuxExec_wp m cmdline kernelAddr low) tr' _ runs promised.2
  rw [pools_append, List.append_cancel_left_eq] at pools_eq
  exact ⟨pool, pools_eq, faithful_iff⟩

/-- A kernel that supports the handover, at address 0. -/
def sampleKernel : Memory :=
  let blank : Memory := fun _ => 0
  ((((blank.setField 0 .signature 0xAA55).setField 0 .header setupMagic).setField 0 .version
    0x20f).setField 0 .relocatableKernel 1).setField 0 .xloadflags 0x08

/-- Firmware without a boot partition, whose pool begins at an address. -/
def poolFirmware (start : Nat) (h : History Uefi) : (c : UefiCmd) → c.Resp
  | .allocatePages maxAddress pages =>
    if 0x10000 + pages * 4096 ≤ maxAddress then .ok 0x10000 else .error .notFound
  | .allocatePool _ => .ok (max start (top (allocated h)))
  | .readMemory addr len => sampleKernel.read addr len
  | c => c.fail .notFound

/-- The firmware of the examples allocates as firmware does. -/
theorem allocates_poolFirmware (start : Nat) (h : History Uefi) (c : UefiCmd) :
    Allocates h ⟨c, poolFirmware start h c⟩ := by
  cases c with
  | allocatePages maxAddress pages =>
    intro addr ok
    simp only [poolFirmware] at ok
    split at ok
    next fits =>
      cases ok
      exact ⟨by decide, fits⟩
    next => cases ok
  | allocatePool len =>
    intro addr ok range member
    cases ok
    have high := le_top member
    right
    simp only
    omega
  | _ => trivial

/-- The loader on that firmware, from the initrd on. -/
def poolRun (start : Nat) : History Uefi × Outcome Uefi (Nat × Nat) :=
  (loadInitrd sampleCrates false [] "").exec (poolFirmware start) []

/-- The handover after it. -/
def poolHandover (start : Nat) : History Uefi × Outcome Uefi Handover :=
  (linuxExec "quiet" 0 0 0).exec (poolFirmware start) (poolRun start).1

theorem poolRun_runs {start : Nat} (returns : (poolRun start).2 = .done (0, 0)) :
    Runs (loadInitrd sampleCrates false [] "") (poolRun start).1 (.done (0, 0)) :=
  returns ▸ Prog.runs_exec (poolFirmware start) (loadInitrd sampleCrates false [] "") []

theorem poolHandover_runs {start : Nat} {handover : Handover}
    (returns : (poolHandover start).2 = .done handover) :
    Runs (linuxExec "quiet" 0 0 0) (poolHandover start).1 (.done handover) :=
  returns ▸ Prog.runs_exec (poolFirmware start) (linuxExec "quiet" 0 0 0) (poolRun start).1

theorem admits_poolHandover (start : Nat) :
    Admits Allocates [] ((poolRun start).1 ++ (poolHandover start).1) :=
  (admits_append _ _ _ _).mpr
    ⟨Prog.admits_exec (allocates_poolFirmware start) _ _,
      Prog.admits_exec (allocates_poolFirmware start) _ _⟩

/-- A pool in the first megabyte. -/
theorem linuxExec_faithful_iff_sample :
    ∃ tr tr' handover pool, Runs (loadInitrd sampleCrates false [] "") tr (.done (0, 0)) ∧
      Runs (linuxExec "quiet" 0 0 0) tr' (.done handover) ∧ pools tr' = [pool] ∧
      (Faithful (sampleKernel.after ([] ++ tr ++ tr')) handover.bootSetup pool "quiet" 0 0 ↔
        pool < 2 ^ 32) := by
  have loaded := @poolRun_runs 0 (by decide +kernel)
  have runs := @poolHandover_runs 0 ⟨0x400, 0x10000⟩ (by decide +kernel)
  obtain ⟨pool, pools_eq, faithful_iff⟩ := linuxExec_faithful_iff sampleCrates sampleKernel false []
    "" "quiet" 0 loaded runs (admits_poolHandover 0)
  exact ⟨_, _, _, pool, loaded, runs, pools_eq, faithful_iff⟩

/-- A pool above 4 GiB: the record names address 0 for the command line. -/
theorem linuxExec_high_pool :
    ∃ tr tr' handover, Runs (loadInitrd sampleCrates false [] "") tr (.done (0, 0)) ∧
      Runs (linuxExec "quiet" 0 0 0) tr' (.done handover) ∧
      Admits Allocates [] (tr ++ tr') ∧ pools tr' = [2 ^ 32] ∧
      (sampleKernel.after (tr ++ tr')).field handover.bootSetup .cmdLinePtr = 0 := by
  have loaded := @poolRun_runs (2 ^ 32) (by decide +kernel)
  have runs := @poolHandover_runs (2 ^ 32) ⟨0x400, 0x10000⟩ (by decide +kernel)
  exact ⟨_, _, _, loaded, runs, admits_poolHandover _, by decide +kernel, by decide +kernel⟩

end Initos.Loader
