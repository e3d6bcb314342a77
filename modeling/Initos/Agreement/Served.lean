import Initos.Lib.Total
import Initos.Agreement.Signer
import Initos.Loader.Handover

/-!
# The loader on firmware that serves it

What the loader starts is signed, or it does not start anything (`Loader/Safety`). Here the
firmware answers: files of the boot partition are read, variables fit their buffers and there is
room for the pages. A boot partition with a command line, a kernel and an initrd that one
certificate of `db` signed is then started, whatever else `db` contains, and the kernel is entered
with these bytes in place.
-/

namespace Initos.Agreement

open Interact Bytes Efi Loader

/-! ## The firmware -/

/-- The bytes in the pages that a history has allocated. -/
def pageBytes (h : History Uefi) : Nat := ((allocated h).map Prod.snd).sum

section

variable (m : Memory) (files : String → Option (List UInt8))
  (vars : String → Vendor → Option (List UInt8)) (room : Nat)

/-- Nothing that the loader can ask for fails without a reason: files and variables that exist are
    read, and pages are given as long as the `room` bytes below the limit suffice. -/
def Answers : Rely Uefi := fun h e =>
  match e with
  | ⟨.loadedImageDevice, r⟩ => r = Except.ok true
  | ⟨.openVolume, r⟩ => r = Except.ok ()
  | ⟨.openFile path, r⟩ =>
    match files path with
    | some _ => r = Except.ok FileType.regular
    | none => ∃ status, r = Except.error status
  | ⟨.fileSize path, r⟩ => ∀ c, files path = some c → r = Except.ok c.length
  | ⟨.readFile path _, r⟩ => ∀ c, files path = some c → r = Except.ok c
  | ⟨.readFileTo path _ len, r⟩ => ∀ c, files path = some c → len = c.length → r = ReadTo.mk c none
  | ⟨.allocatePages maxAddress pages, r⟩ =>
    0 < pages → pageBytes h + pages * 4096 ≤ room → room ≤ maxAddress → ∃ addr, r = Except.ok addr
  | ⟨.allocatePool _, r⟩ => ∃ addr, r = Except.ok addr
  | ⟨.getVariable name vendor bufSize, r⟩ =>
    ∀ data, vars name vendor = some data → data.length ≤ bufSize → r = Except.ok data
  | _ => True

/-- The firmware keeps its promises and answers. -/
def Serves : Rely Uefi := fun h e =>
  Firmware m files vars h e ∧ Allocates h e ∧ Answers files vars room h e

end

section

variable {m : Memory} {files : String → Option (List UInt8)}
  {vars : String → Vendor → Option (List UInt8)} {room : Nat} {h h' h'' : History Uefi}

/-! ## Files and signatures -/

/-- A file of the partition can be opened. -/
theorem openRegular_serves {X : Crates} {path : String} {c : List UInt8}
    (fits : X.cstr16Fits 128 path = true) (stored : files path = some c) :
    Prog.wp (Serves m files vars room) (Fallible.Yields fun _ size => size = c.length)
      (openRegular X path).run h := by
  rw [openRegular, fits]
  refine Fallible.yields_bind (P := fun _ device => device = true) ?_ ?_
  · exact Fallible.yields_call fun r served => ⟨true, served.2.2, rfl⟩
  rintro h₁ _ rfl
  refine Fallible.yields_bind (P := fun _ _ => True) ?_ fun h₂ _ _ => ?_
  · exact Fallible.yields_call fun r served => ⟨(), served.2.2, trivial⟩
  refine Fallible.yields_bind (P := fun _ fileType => fileType = .regular) ?_ ?_
  · refine Fallible.yields_call fun r served => ?_
    have opened := served.2.2
    simp only [Answers, stored] at opened
    exact ⟨.regular, opened, rfl⟩
  rintro h₃ _ rfl
  exact Fallible.yields_call fun r served => ⟨c.length, served.2.2 c stored, rfl⟩

/-- A file of the partition is read whole, and memory stays as it was. -/
theorem loadFileToMemory_serves {X : Crates} {path : String} {c : List UInt8}
    (fits : X.cstr16Fits 128 path = true) (stored : files path = some c) :
    Prog.wp (Serves m files vars room) (Fallible.Yields fun h' data => data = c ∧ Still m h h')
      (loadFileToMemory X path).run h := by
  refine Fallible.yields_frame ?_ (still_of_uses (loadFileToMemory_uses X path) _ h)
  refine Fallible.yields_bind (openRegular_serves fits stored) fun h₁ size _ => ?_
  exact Fallible.yields_call fun r served => ⟨c, served.2.2 c stored, rfl⟩

variable (X : Crates)

/-- Firmware that serves the loader shows it the signature files. -/
theorem bootFiles_of_serves (c : Component) (e : Event Uefi)
    (served : Serves m files vars room h e) :
    BootFiles (fun keyId => files (sigPath c.template keyId)) c h e := by
  obtain ⟨-, -, answers⟩ := served
  obtain ⟨cmd, r⟩ := e
  cases cmd with
  | loadedImageDevice => exact answers
  | openVolume => exact answers
  | openFile path =>
    intro keyId same
    subst same
    exact answers
  | fileSize path =>
    intro keyId signature same stored
    subst same
    exact answers signature stored
  | readFile path len =>
    intro keyId signature same stored
    subst same
    exact answers signature stored
  | _ => trivial

/-- A certificate that the walk visits signed the data of a component. -/
def DbSigns (files : String → Option (List UInt8)) (db : List UInt8) (c : Component)
    (data : List UInt8) : Prop :=
  ∃ der ∈ (dbWalk db 0).1,
    Signer X (fun keyId => files (sigPath c.template keyId)) data (LoaderTakes X) der

variable {X} {db : List UInt8}

/-- The walk gets to the signer: entries before it that do not sign are passed, and what comes
    after it, an error of the format included, is not looked at. -/
theorem verifyDataSignature_serves {c : Component} {data : List UInt8}
    (addressable : db.length < 2 ^ 63) (signs : DbSigns X files db c data) :
    Prog.wp (Serves m files vars room) (Prog.Delivers fun _ r => r = .ok ())
      (verifyDataSignature X data db c.template c.label) h := by
  obtain ⟨der, member, signer⟩ := signs
  have visits : Prog.wp (Serves m files vars room) _
      (visitAll (visitCert X data c.template) (dbWalk db 0).1 {}) h :=
    Prog.wp_rely_mono (visitAll_wp _ (visitCert_bootFiles X _ data c) _ {} h)
      fun _ => bootFiles_of_serves c
  rw [verifyDataSignature, walkDb_eq X _ addressable, Prog.bind_assoc]
  refine Prog.delivers_bind (P := fun _ flow => flow = .accept) ?_ ?_
  · refine Prog.wp_mono visits fun h' out post => ?_
    rcases out with flow | stop
    · cases flow with
      | accept => exact rfl
      | next t => exact absurd signer (post der member)
    · exact post
  · rintro h' _ rfl
    rw [Prog.pure_bind]
    exact (Prog.wp_pure _ _ _ _).mpr rfl

/-- The check of a component that the database signs is passed. -/
theorem requireSignature_serves {c : Component} {data : List UInt8} {dbSha : String}
    (addressable : db.length < 2 ^ 63) (signs : DbSigns X files db c data) :
    Prog.wp (Serves m files vars room) (Prog.Delivers fun h' _ => Still m h h')
      (requireSignature X c data db dbSha) h := by
  have frame := still_of_uses (m := m) (requireSignature_uses X c data addressable dbSha)
    (Serves m files vars room) h
  have done : Prog.wp (Serves m files vars room) (Prog.Delivers fun _ _ => True)
      (requireSignature X c data db dbSha) h := by
    refine Prog.delivers_bind (verifyDataSignature_serves addressable signs) ?_
    rintro h' _ rfl
    exact (Prog.wp_pure _ _ _ _).mpr trivial
  exact Prog.delivers_mono (Prog.delivers_frame done frame) fun h' _ post => post.2

/-! ## Pages -/

/-- Pages for so many bytes. -/
def pagesFor (size : Nat) : Nat := (size + 4095) / 4096

/-- The bytes lie in pages of their own, allocated since `h`, and earlier pages are as they were. -/
structure Placed (m : Memory) (h h' : History Uefi) (addr size : Nat) (bytes : List UInt8) :
    Prop where
  pages : allocated h' = allocated h ++ [(addr, pagesFor size * 4096)]
  inside : bytes.length ≤ pagesFor size * 4096
  read : (m.after h').read addr bytes.length = bytes
  keeps : Keeps m h h'

/-- The range is allocated afterwards. -/
theorem Placed.mem {addr size : Nat} {bytes : List UInt8} (placed : Placed m h h' addr size bytes) :
    (addr, pagesFor size * 4096) ∈ allocated h' := by
  rw [placed.pages]
  exact List.mem_append_right _ List.mem_cons_self

theorem Placed.pageBytes {addr size : Nat} {bytes : List UInt8}
    (placed : Placed m h h' addr size bytes) :
    pageBytes h' = pageBytes h + pagesFor size * 4096 := by
  rw [Agreement.pageBytes, placed.pages, List.map_append, List.sum_append, List.map_singleton,
    List.sum_singleton, Agreement.pageBytes]

/-- What leaves memory alone leaves placed bytes alone. -/
theorem Placed.still {addr size : Nat} {bytes : List UInt8}
    (placed : Placed m h h' addr size bytes) (still : Still m h' h'') :
    Placed m h h'' addr size bytes where
  pages := by rw [still.2, placed.pages]
  inside := placed.inside
  read := by rw [still.1, placed.read]
  keeps := placed.keeps.still still

theorem pageBytes_of_still (still : Still m h h') : pageBytes h' = pageBytes h := by
  rw [pageBytes, still.2, pageBytes]

theorem pagesFor_pos {size : Nat} (pos : 0 < size) : 0 < pagesFor size := by
  rw [pagesFor]
  omega

theorem allocated_snoc_pages (h : History Uefi) (maxAddress pages addr : Nat) :
    allocated (h ++ [⟨.allocatePages maxAddress pages, .ok addr⟩]) =
      allocated h ++ [(addr, pages * 4096)] := by
  simp [allocated]

/-- Two writes at one address change nothing beyond the longer one. -/
theorem store_store_other {m : Memory} {addr : Nat} {zeros bytes : List UInt8} {a : Nat}
    (shorter : bytes.length ≤ zeros.length) (outside : a < addr ∨ addr + zeros.length ≤ a) :
    (m.store addr zeros).store addr bytes a = m a := by
  rw [Memory.store_other (by omega), Memory.store_other outside]

/-- The size the loader reserves for a kernel. -/
def kernelImageSize (kernel : List UInt8) : Nat :=
  max (((peSizeOfImage kernel).bind id).getD kernel.length) kernel.length

/-- Reading the size from the PE header stays inside the file. -/
theorem peSizeOfImage_returns (data : List UInt8) : ∃ size, peSizeOfImage data = some size := by
  have readU32Le_returns (offset : Nat) : ∃ v, readU32Le data offset = some v := by
    rw [readU32Le]
    split
    · exact ⟨none, rfl⟩
    · rw [readLe32_eq_some data offset (by omega)]
      exact ⟨_, rfl⟩
  obtain ⟨peOffset, read⟩ := readU32Le_returns 0x3c
  rw [peSizeOfImage, read]
  split
  · exact ⟨none, rfl⟩
  · cases peOffset with
    | none => exact ⟨none, rfl⟩
    | some peOffset =>
      simp only [Option.bind_eq_bind, Option.bind_some]
      split
      · exact ⟨none, rfl⟩
      · exact readU32Le_returns _

/-- Where there is room for it, the kernel gets its pages and its bytes. -/
theorem loadPeKernelToAddress_serves {path : String} {kernel : List UInt8}
    (fits : X.cstr16Fits 128 path = true) (stored : files path = some kernel)
    (nonempty : kernel ≠ [])
    (enough : pageBytes h + pagesFor (kernelImageSize kernel) * 4096 ≤ room)
    (low : room ≤ 0x40000000) :
    Prog.wp (Serves m files vars room)
      (Fallible.Yields fun h' r => r = (r.1, kernel.length, kernelImageSize kernel) ∧
        Placed m h h' r.1 (kernelImageSize kernel) kernel)
      (loadPeKernelToAddress X path).run h := by
  obtain ⟨peSize, header⟩ := peSizeOfImage_returns kernel
  have size : kernelImageSize kernel = max (peSize.getD kernel.length) kernel.length := by
    rw [kernelImageSize, header]
    rfl
  have pos : 0 < kernelImageSize kernel := by
    have := List.length_pos_iff.mpr nonempty
    omega
  refine Fallible.yields_bind (loadFileToMemory_serves fits stored) ?_
  rintro h₁ data ⟨same, still⟩
  obtain rfl : kernel = data := same.symm
  rw [header, bootChecked, pure_bind]
  dsimp only
  rw [← size, ← pagesFor]
  refine Fallible.yields_bind (P := fun h₂ addr =>
    allocated h₂ = allocated h₁ ++ [(addr, pagesFor (kernelImageSize kernel) * 4096)] ∧
    m.after h₂ = m.after h₁ ∧
    ∀ range ∈ allocated h₁,
      Loader.Disjoint (addr, pagesFor (kernelImageSize kernel) * 4096) range) ?_ ?_
  · refine Fallible.yields_call fun r served => ?_
    obtain ⟨fresh, -, given⟩ := served
    obtain ⟨addr, rfl⟩ :=
      given (pagesFor_pos pos) (by rw [pageBytes_of_still still]; exact enough) low
    refine ⟨addr, rfl, ?_, ?_, fresh addr rfl⟩
    · exact allocated_snoc_pages h₁ 0x40000000 _ addr
    · rw [Memory.after_snoc]
      rfl
  rintro h₂ addr ⟨pages, same, fresh⟩
  refine Fallible.yields_ask_bind fun zeroed _ => Fallible.yields_ask_bind fun copied _ => ?_
  have memory : m.after (h₂ ++ [⟨.zero addr (pagesFor (kernelImageSize kernel) * 4096), zeroed⟩] ++
      [⟨.copyTo addr kernel, copied⟩]) = ((m.after h).store addr
        (List.replicate (pagesFor (kernelImageSize kernel) * 4096) 0)).store addr kernel := by
    rw [Memory.after_snoc, Memory.after_snoc, same, still.1]
    rfl
  have inside : kernel.length ≤ pagesFor (kernelImageSize kernel) * 4096 := by
    have := le_pages (kernelImageSize kernel)
    rw [pagesFor]
    omega
  refine Fallible.yields_pure ⟨rfl, ?_, inside, ?_, ?_⟩
  · rw [allocated_append, allocated_append, pages, still.2]
    simp [allocated]
  · rw [memory]
    exact Memory.read_store_same _ addr kernel
  · intro range member a low high
    rw [memory]
    refine store_store_other (by rwa [List.length_replicate]) ?_
    rw [List.length_replicate]
    rcases fresh range (by rwa [still.2]) with before | behind
    · simp only at before
      omega
    · simp only at behind
      omega

/-- The same for a file that is loaded as it is. -/
theorem loadKernelToAddress_serves {path : String} {bytes : List UInt8}
    (fits : X.cstr16Fits 128 path = true) (stored : files path = some bytes) (nonempty : bytes ≠ [])
    (enough : pageBytes h + pagesFor bytes.length * 4096 ≤ room) (low : room ≤ 0x40000000) :
    Prog.wp (Serves m files vars room)
      (Fallible.Yields fun h' r => r = (r.1, bytes.length) ∧ Placed m h h' r.1 bytes.length bytes)
      (loadKernelToAddress X path).run h := by
  have pos := List.length_pos_iff.mpr nonempty
  refine Fallible.yields_bind (Fallible.yields_frame (openRegular_serves fits stored)
    (still_of_uses (m := m) (openRegular_uses X path) _ h)) ?_
  rintro h₁ _ ⟨rfl, still⟩
  rw [← pagesFor]
  refine Fallible.yields_bind (P := fun h₂ addr =>
    allocated h₂ = allocated h₁ ++ [(addr, pagesFor bytes.length * 4096)] ∧
    m.after h₂ = m.after h₁ ∧
    ∀ range ∈ allocated h₁, Loader.Disjoint (addr, pagesFor bytes.length * 4096) range) ?_ ?_
  · refine Fallible.yields_call fun r served => ?_
    obtain ⟨fresh, -, given⟩ := served
    obtain ⟨addr, rfl⟩ :=
      given (pagesFor_pos pos) (by rw [pageBytes_of_still still]; exact enough) low
    refine ⟨addr, rfl, ?_, ?_, fresh addr rfl⟩
    · exact allocated_snoc_pages h₁ 0x40000000 _ addr
    · rw [Memory.after_snoc]
      rfl
  rintro h₂ addr ⟨pages, same, fresh⟩
  have inside : bytes.length ≤ pagesFor bytes.length * 4096 := le_pages bytes.length
  refine Fallible.yields_bind (P := fun h₃ _ => Placed m h h₃ addr bytes.length bytes) ?_ ?_
  · refine Fallible.yields_call fun r served => ?_
    obtain rfl := served.2.2 bytes stored rfl
    have memory : m.after (h₂ ++ [⟨.readFileTo path addr bytes.length, ⟨bytes, none⟩⟩]) =
        (m.after h).store addr bytes := by
      rw [Memory.after_snoc, same, still.1]
      rfl
    refine ⟨(), rfl, ?_, inside, ?_, ?_⟩
    · rw [allocated_append, pages, still.2]
      simp [allocated]
    · rw [memory]
      exact Memory.read_store_same _ addr bytes
    · refine keeps_store inside ?_ memory
      rwa [still.2] at fresh
  intro h₃ _ placed
  exact Fallible.yields_pure ⟨rfl, placed⟩

variable {kernel initrd : List UInt8} {dbSha : String}

/-- Verifying the bytes where they lie. -/
theorem verifyInMemory_serves {c : Component} {addr size : Nat} {bytes : List UInt8}
    {β : Type} {P : History Uefi → β → Prop} {rest : Prog Uefi β}
    (addressable : db.length < 2 ^ 63) (signs : DbSigns X files db c bytes)
    (placed : Placed m h h' addr size bytes)
    (next : ∀ h'', Placed m h h'' addr size bytes →
      Prog.wp (Serves m files vars room) (Prog.Delivers P) rest h'') :
    Prog.wp (Serves m files vars room) (Prog.Delivers P)
      (do
        let data ← Prog.perform (I := Uefi) (.readMemory addr bytes.length)
        requireSignature X c data db dbSha
        rest) h' := by
  refine Prog.delivers_perform_bind fun data served => ?_
  have read : data = (m.after h').read addr bytes.length := served.1
  obtain rfl : bytes = data := by rw [read, placed.read]
  have reading : Still m h' (h' ++ [⟨.readMemory addr bytes.length, bytes⟩]) := by
    refine ⟨?_, ?_⟩
    · rw [Memory.after_snoc]
      rfl
    · simp [allocated]
  refine Prog.delivers_bind (requireSignature_serves addressable signs) fun h'' _ still => ?_
  exact next h'' (placed.still (reading.trans still))

/-- A signed kernel is loaded. -/
theorem loadKernel_serves (addressable : db.length < 2 ^ 63)
    (stored : files "\\EFI\\BOOT\\BZIMAGE" = some kernel) (nonempty : kernel ≠ [])
    (enough : pageBytes h + pagesFor (kernelImageSize kernel) * 4096 ≤ room)
    (low : room ≤ 0x40000000) (signs : DbSigns X files db .kernel kernel) :
    Prog.wp (Serves m files vars room)
      (Prog.Delivers fun h' r => r = (r.1, kernel.length) ∧
        Placed m h h' r.1 (kernelImageSize kernel) kernel)
      (loadKernel X true db dbSha) h := by
  have fits : X.cstr16Fits 128 "\\EFI\\BOOT\\BZIMAGE" = true :=
    X.cstr16Fits_of_ucs2 _ _ (by decide) (Text.forall_chars (by decide))
  refine Fallible.delivers_run_bind
    (loadPeKernelToAddress_serves fits stored nonempty enough low) ?_
  rintro h₁ ⟨addr, size, imageSize⟩ ⟨same, placed⟩
  obtain ⟨rfl, rfl⟩ := Prod.mk.inj (Prod.mk.inj same).2
  have placed : Placed m h h₁ addr (kernelImageSize kernel) kernel := placed
  simp only [if_true]
  refine verifyInMemory_serves addressable signs placed fun h₂ placed => ?_
  exact (Prog.wp_pure _ _ _ _).mpr ⟨rfl, placed⟩

/-- A signed initrd is loaded. -/
theorem loadInitrd_serves (dbThere : db ≠ []) (addressable : db.length < 2 ^ 63)
    (stored : files "\\EFI\\BOOT\\INITRD.IMG" = some initrd) (nonempty : initrd ≠ [])
    (enough : pageBytes h + pagesFor initrd.length * 4096 ≤ room) (low : room ≤ 0x40000000)
    (signs : DbSigns X files db .initrd initrd) :
    Prog.wp (Serves m files vars room)
      (Prog.Delivers fun h' r => r = (r.1, initrd.length) ∧
        Placed m h h' r.1 initrd.length initrd)
      (loadInitrd X true db dbSha) h := by
  have fits : X.cstr16Fits 128 "\\EFI\\BOOT\\INITRD.IMG" = true :=
    X.cstr16Fits_of_ucs2 _ _ (by decide) (Text.forall_chars (by decide))
  have dbSeen : (true && !db.isEmpty) = true := by simpa using dbThere
  refine Fallible.delivers_run_bind (loadKernelToAddress_serves fits stored nonempty enough low) ?_
  rintro h₁ ⟨addr, size⟩ ⟨same, placed⟩
  obtain rfl := (Prod.mk.inj same).2
  have placed : Placed m h h₁ addr initrd.length initrd := placed
  simp only [dbSeen, if_true]
  refine verifyInMemory_serves addressable signs placed fun h₂ placed => ?_
  exact (Prog.wp_pure _ _ _ _).mpr ⟨rfl, placed⟩

/-! ## Up to the kernel -/

/-- A boot partition with all that the loader starts, signed by certificates of the database, and
    room for it. -/
structure Startable (X : Crates) (files : String → Option (List UInt8))
    (vars : String → Vendor → Option (List UInt8)) (room : Nat)
    (config kernel initrd db : List UInt8) : Prop where
  configStored : files "\\EFI\\BOOT\\config" = some config
  kernelStored : files "\\EFI\\BOOT\\BZIMAGE" = some kernel
  initrdStored : files "\\EFI\\BOOT\\INITRD.IMG" = some initrd
  secureBoot : vars "SecureBoot" globalVariable = some [1]
  dbStored : vars "db" imageSecurityDb = some db
  dbSmall : db.length ≤ 4096
  configSigned : DbSigns X files db .config config
  kernelSigned : DbSigns X files db .kernel kernel
  initrdSigned : DbSigns X files db .initrd initrd
  kernelNonempty : kernel ≠ []
  initrdNonempty : initrd ≠ []
  enough : pagesFor (kernelImageSize kernel) * 4096 + pagesFor initrd.length * 4096 + 4 * 4096 ≤
    room
  roomLow : room ≤ 0x40000000

/-- The bytes lie in allocated pages. -/
structure InPages (m : Memory) (h : History Uefi) (addr : Nat) (bytes : List UInt8) : Prop where
  pages : ∃ size, (addr, size) ∈ allocated h ∧ bytes.length ≤ size
  read : (m.after h).read addr bytes.length = bytes

theorem InPages.keeps {addr : Nat} {bytes : List UInt8} (inPages : InPages m h addr bytes)
    (keeps : Keeps m h h') (more : allocated h ⊆ allocated h') : InPages m h' addr bytes := by
  obtain ⟨⟨size, member, inside⟩, read⟩ := inPages
  exact ⟨⟨size, more member, inside⟩, by rw [keeps.read member inside, read]⟩

theorem Placed.inPages {addr size : Nat} {bytes : List UInt8}
    (placed : Placed m h h' addr size bytes) : InPages m h' addr bytes :=
  ⟨⟨_, placed.mem, placed.inside⟩, placed.read⟩

/-- The loader has what it starts, in pages that leave four. -/
structure Loaded (m : Memory) (room : Nat) (config kernel initrd : List UInt8)
    (h : History Uefi) (launch : Launch) : Prop where
  cmdline : launch.cmdline = cmdlineOf config
  kernelSize : launch.kernelSize = kernel.length
  initrdSize : launch.initrdSize = initrd.length
  kernelThere : InPages m h launch.kernelAddr kernel
  initrdThere : InPages m h launch.initrdAddr initrd
  left : pageBytes h + 4 * 4096 ≤ room
  low : launch.initrdAddr + launch.initrdSize ≤ 0x40000000

theorem DbSigns.nonempty {c : Component} {data : List UInt8} (signs : DbSigns X files db c data) :
    db ≠ [] := by
  rintro rfl
  obtain ⟨der, member, -⟩ := signs
  rw [dbWalk, dif_neg (by decide)] at member
  cases member

/-- The loader comes to the start of the kernel with both files in memory. -/
theorem main_serves {config : List UInt8}
    (startable : Startable X files vars room config kernel initrd db) :
    Prog.wp (Serves m files vars room) (Prog.Delivers (Loaded m room config kernel initrd))
      (main X) [] := by
  have addressable : db.length < 2 ^ 63 := Nat.lt_of_le_of_lt startable.dbSmall (by decide)
  have fits : X.cstr16Fits 128 "\\EFI\\BOOT\\config" = true :=
    X.cstr16Fits_of_ucs2 _ _ (by decide) (Text.forall_chars (by decide))
  have dbThere := startable.configSigned.nonempty
  refine Fallible.delivers_run_bind (loadFileToMemory_serves fits startable.configStored) ?_
  rintro h₁ data ⟨same, still₁⟩
  obtain rfl : config = data := same.symm
  refine Prog.delivers_bind (P := fun h' secureBoot => secureBoot = true ∧ Still m h₁ h') ?_ ?_
  · refine Fallible.delivers_run_bind
      (P := fun h' data => data = [1] ∧ Still m h₁ h') ?_ ?_
    · refine Fallible.yields_call fun r served => ?_
      refine ⟨[1], served.2.2 [1] startable.secureBoot (by decide), rfl, ?_, ?_⟩
      · rw [Memory.after_snoc]
        rfl
      · simp [allocated]
    · rintro h' _ ⟨rfl, still⟩
      exact (Prog.wp_pure _ _ _ _).mpr ⟨rfl, still⟩
  rintro h₂ _ ⟨rfl, still₂⟩
  refine Prog.delivers_bind (P := fun h' data => data = db ∧ Still m h₂ h') ?_ ?_
  · rw [readDbVariable, if_pos rfl]
    refine Fallible.delivers_run_bind
      (P := fun h' data => data = db ∧ Still m h₂ h') ?_ ?_
    · refine Fallible.yields_call fun r served => ?_
      refine ⟨db, served.2.2 db startable.dbStored startable.dbSmall, rfl, ?_, ?_⟩
      · rw [Memory.after_snoc]
        rfl
      · simp [allocated]
    · rintro h' data ⟨same, still⟩
      subst same
      dsimp only
      rw [if_neg dbThere]
      exact (Prog.wp_pure _ _ _ _).mpr ⟨rfl, still⟩
  rintro h₃ data ⟨same, still₃⟩
  obtain rfl : db = data := same.symm
  simp only [if_true]
  refine Prog.delivers_bind (requireSignature_serves addressable startable.configSigned) ?_
  intro h₄ _ still₄
  have still := ((still₁.trans still₂).trans still₃).trans still₄
  have none : pageBytes h₄ = 0 := by
    rw [pageBytes_of_still still]
    rfl
  have enough := startable.enough
  refine Prog.delivers_bind (loadKernel_serves addressable startable.kernelStored
    startable.kernelNonempty (by omega) startable.roomLow startable.kernelSigned) ?_
  rintro h₅ ⟨kernelAddr, kernelSize⟩ ⟨same, placed₁⟩
  obtain rfl := (Prod.mk.inj same).2
  have used := placed₁.pageBytes
  refine Prog.delivers_bind (Prog.delivers_and (loadInitrd_serves dbThere addressable
    startable.initrdStored startable.initrdNonempty (by omega) startable.roomLow
    startable.initrdSigned)
    (Prog.wp_rely_mono (loadInitrd_low X true db _) fun _ _ served => served.2.1)) ?_
  rintro h₆ ⟨initrdAddr, initrdSize⟩ ⟨⟨same, placed₂⟩, low⟩
  obtain rfl := (Prod.mk.inj same).2
  have used' := placed₂.pageBytes
  have more : allocated h₅ ⊆ allocated h₆ := by
    rw [placed₂.pages]
    exact List.subset_append_left _ _
  refine (Prog.wp_pure _ _ _ _).mpr ⟨rfl, rfl, rfl, ?_, placed₂.inPages, by omega, low⟩
  exact placed₁.inPages.keeps placed₂.keeps more

/-! ## Into the kernel -/

/-- Every field lies inside the part of the header that is copied. -/
theorem field_inside (f : SetupField) : f.offset + f.size ≤ 0x268 := by
  cases f <;> decide

/-- A field of the setup header in the kernel's file. -/
def kernelField (kernel : List UInt8) (f : SetupField) : Nat :=
  leValue ((kernel.drop f.offset).take f.size)

/-- The kernel has a setup header that `linux_exec` accepts. -/
structure Supported (kernel : List UInt8) : Prop where
  whole : 0x268 ≤ kernel.length
  signature : kernelField kernel .signature = 0xAA55
  header : kernelField kernel .header = setupMagic
  xloadflags : kernelField kernel .xloadflags &&& 0x08 ≠ 0
  version : 0x20b ≤ kernelField kernel .version
  relocatable : kernelField kernel .relocatableKernel ≠ 0

theorem read_part {m : Memory} {addr offset size : Nat} {bytes : List UInt8}
    (read : m.read addr bytes.length = bytes) (inside : offset + size ≤ bytes.length) :
    m.read (addr + offset) size = (bytes.drop offset).take size := by
  apply List.ext_getElem
  · simp only [Memory.read, List.length_map, List.length_range, List.length_take, List.length_drop]
    omega
  · intro i low high
    have small : i < size := by simpa [Memory.read] using low
    have whole : offset + i < (m.read addr bytes.length).length := by
      simp only [Memory.read, List.length_map, List.length_range]
      omega
    have there := List.getElem_of_eq read whole
    simp only [Memory.read, List.getElem_map, List.getElem_range] at there ⊢
    rw [List.getElem_take, List.getElem_drop, ← there, Nat.add_assoc]

/-- A field of the loaded kernel is read as it is in the file. -/
theorem readSetup_serves {kernelAddr : Nat} (supported : Supported kernel)
    (there : InPages m h kernelAddr kernel) (f : SetupField) :
    Prog.wp (Serves m files vars room)
      (Prog.Delivers fun h' v => v = kernelField kernel f ∧ Still m h h')
      (readSetup kernelAddr f) h := by
  rw [readSetup, map_eq_pure_bind]
  refine Prog.delivers_perform_bind fun data served => ?_
  have read : data = (m.after h).read (kernelAddr + f.offset) f.size := served.1
  have inside := Nat.le_trans (field_inside f) supported.whole
  refine (Prog.wp_pure _ _ _ _).mpr ⟨?_, ?_, ?_⟩
  · rw [read, read_part there.read inside]
    rfl
  · rw [Memory.after_snoc]
    rfl
  · simp [allocated]

theorem InPages.still {addr : Nat} {bytes : List UInt8} (inPages : InPages m h addr bytes)
    (still : Still m h h') : InPages m h' addr bytes where
  pages := by rw [still.2]; exact inPages.pages
  read := by rw [still.1]; exact inPages.read

/-- The checks pass a supported kernel. -/
theorem checkSetup_serves {kernelAddr : Nat} (supported : Supported kernel)
    (there : InPages m h kernelAddr kernel) :
    Prog.wp (Serves m files vars room) (Prog.Delivers fun h' _ => Still m h h')
      (checkSetup kernelAddr) h := by
  refine Prog.delivers_bind (readSetup_serves supported there .signature) ?_
  rintro h₁ _ ⟨rfl, still₁⟩
  have there := there.still still₁
  refine Prog.delivers_bind (readSetup_serves supported there .header) ?_
  rintro h₂ _ ⟨rfl, still₂⟩
  have there := there.still still₂
  rw [if_neg (by simp [supported.signature, supported.header])]
  refine Prog.delivers_bind (readSetup_serves supported there .version) ?_
  rintro h₃ _ ⟨rfl, still₃⟩
  have there := there.still still₃
  refine Prog.delivers_bind (readSetup_serves supported there .relocatableKernel) ?_
  rintro h₄ _ ⟨rfl, still₄⟩
  have there := there.still still₄
  refine Prog.delivers_bind (readSetup_serves supported there .xloadflags) ?_
  rintro h₅ _ ⟨rfl, still₅⟩
  rw [if_neg supported.xloadflags,
    if_neg (not_or.mpr ⟨Nat.not_lt.mpr supported.version, supported.relocatable⟩)]
  refine (Prog.wp_pure _ _ _ _).mpr ?_
  exact (((still₁.trans still₂).trans still₃).trans still₄).trans still₅

/-- A store outside the pages that were there. -/
theorem keeps_snoc {e : Event Uefi} {addr : Nat} {bytes : List UInt8} (keeps : Keeps m h h')
    (stores : (m.after h').step e = (m.after h').store addr bytes)
    (apart : ∀ range ∈ allocated h, Loader.Disjoint (addr, bytes.length) range) :
    Keeps m h (h' ++ [e]) := by
  intro range member a low high
  rw [Memory.after_snoc, stores, Memory.store_other, keeps range member a low high]
  rcases apart range member with before | behind
  · simp only at before
    omega
  · simp only at behind
    omega

/-- A field of the record lies where the record lies. -/
theorem disjoint_field {bootSetup : Nat} {range : Nat × Nat} (f : SetupField) {value : Nat}
    (apart : Loader.Disjoint (bootSetup, 4 * 4096) range) :
    Loader.Disjoint (bootSetup + f.offset, (leBytes f.size value).length) range := by
  have inside := field_inside f
  rw [length_leBytes]
  simp only [Loader.Disjoint] at apart ⊢
  omega

variable {bootSetup : Nat} {β : Type} {P : History Uefi → β → Prop} {rest : Prog Uefi β}

/-- A write to the record keeps what is in other pages. -/
theorem writeSetup_serves (f : SetupField) {value : Nat} (keeps : Keeps m h h')
    (apart : ∀ range ∈ allocated h, Loader.Disjoint (bootSetup, 4 * 4096) range)
    (next : ∀ h'', Keeps m h h'' → allocated h'' = allocated h' →
      Prog.wp (Serves m files vars room) (Prog.Delivers P) rest h'') :
    Prog.wp (Serves m files vars room) (Prog.Delivers P)
      (writeSetup bootSetup f value >>= fun _ => rest) h' := by
  refine Prog.delivers_perform_bind fun _ _ => next _ (keeps_snoc keeps rfl ?_) ?_
  · exact fun range member => disjoint_field f (apart range member)
  · simp [allocated]

/-- Filling in the record keeps the kernel and the initrd. -/
theorem fillSetup_serves {cmdline : String} {initrdAddr initrdSize : Nat} (keeps : Keeps m h h')
    (apart : ∀ range ∈ allocated h, Loader.Disjoint (bootSetup, 4 * 4096) range)
    (more : allocated h ⊆ allocated h') :
    Prog.wp (Serves m files vars room) (Prog.Delivers fun h'' _ => Keeps m h h'')
      (fillSetup bootSetup cmdline initrdAddr initrdSize) h' := by
  rw [fillSetup]
  refine Fallible.delivers_run_bind (P := fun h'' pool => Keeps m h h'' ∧
    ∀ range ∈ allocated h, Loader.Disjoint (pool, (Text.asBytes cmdline).length + 1) range) ?_ ?_
  · refine Fallible.yields_call fun r served => ?_
    obtain ⟨-, free, given⟩ := served
    obtain ⟨pool, rfl⟩ := given
    refine ⟨pool, rfl, ?_, fun range member => free pool rfl range (more member)⟩
    intro range member a low high
    rw [Memory.after_snoc]
    exact keeps range member a low high
  rintro h₁ pool ⟨keeps, poolApart⟩
  refine Prog.delivers_perform_bind fun copied _ => Prog.delivers_perform_bind fun ended _ => ?_
  have keeps : Keeps m h (h₁ ++ [⟨.copyTo pool (Text.asBytes cmdline), copied⟩] ++
      [⟨.copyTo (pool + (Text.asBytes cmdline).length) [0], ended⟩]) := by
    refine keeps_snoc (keeps_snoc keeps rfl fun range member => ?_) rfl fun range member => ?_
    · have apart := poolApart range member
      simp only [Loader.Disjoint] at apart ⊢
      omega
    · have apart := poolApart range member
      simp only [Loader.Disjoint, List.length_singleton] at apart ⊢
      omega
  refine writeSetup_serves _ keeps apart fun h₂ keeps _ => ?_
  split
  · refine writeSetup_serves _ keeps apart fun h₃ keeps _ => ?_
    refine writeSetup_wp (keeps_snoc keeps rfl fun range member => ?_)
    exact disjoint_field _ (apart range member)
  · exact (Prog.wp_pure _ _ _ _).mpr keeps

/-- Where the kernel is entered. -/
def entryPoint (kernel : List UInt8) (kernelAddr : Nat) : Nat :=
  kernelAddr + (kernelField kernel .setupSecs + 1) * 512 + 512 + kernelField kernel .handoverOffset

/-- With four more pages, a supported kernel is started. -/
theorem linuxExec_serves {cmdline : String} {kernelAddr initrdAddr initrdSize : Nat}
    (supported : Supported kernel) (there : InPages m h kernelAddr kernel)
    (left : pageBytes h + 4 * 4096 ≤ room) (low : room ≤ 0x40000000) :
    Prog.wp (Serves m files vars room)
      (Prog.Delivers fun h' handover =>
        handover.handoverAddr = entryPoint kernel kernelAddr ∧ Keeps m h h')
      (linuxExec cmdline kernelAddr initrdAddr initrdSize) h := by
  refine Prog.delivers_bind (checkSetup_serves supported there) fun h₁ _ still₁ => ?_
  refine Fallible.delivers_run_bind (P := fun h' bootSetup =>
    Keeps m h h' ∧ allocated h' = allocated h ++ [(bootSetup, 4 * 4096)] ∧
      ∀ range ∈ allocated h, Loader.Disjoint (bootSetup, 4 * 4096) range) ?_ ?_
  · refine Fallible.yields_call fun r served => ?_
    obtain ⟨fresh, -, given⟩ := served
    obtain ⟨bootSetup, rfl⟩ :=
      given (by decide) (by rw [pageBytes_of_still still₁]; exact left) low
    have fresh := fresh bootSetup rfl
    rw [still₁.2] at fresh
    refine ⟨bootSetup, rfl, ?_, ?_, fresh⟩
    · intro range member a low high
      rw [Memory.after_snoc, still₁.1]
      rfl
    · rw [← still₁.2]
      exact allocated_snoc_pages h₁ 0x40000000 4 bootSetup
  rintro h₂ bootSetup ⟨keeps, pages, apart⟩
  refine Prog.delivers_perform_bind fun zeroed _ => ?_
  have keeps : Keeps m h (h₂ ++ [⟨.zero bootSetup (4 * 4096), zeroed⟩]) := by
    refine keeps_snoc keeps rfl fun range member => ?_
    rw [List.length_replicate]
    exact apart range member
  have more : allocated h ⊆ allocated (h₂ ++ [⟨.zero bootSetup (4 * 4096), zeroed⟩]) := by
    rw [allocated_append, pages, List.append_assoc]
    exact List.subset_append_left _ _
  have there := there.keeps keeps more
  refine Prog.delivers_bind (readSetup_serves supported there .setupSecs) ?_
  rintro h₃ _ ⟨rfl, still₃⟩
  have there := there.still still₃
  refine Prog.delivers_bind (readSetup_serves supported there .ramdiskMax) ?_
  rintro h₄ _ ⟨rfl, still₄⟩
  have there := there.still still₄
  refine Prog.delivers_bind (readSetup_serves supported there .handoverOffset) ?_
  rintro h₅ _ ⟨rfl, still₅⟩
  have still := (still₃.trans still₄).trans still₅
  have keeps := keeps.still still
  rw [← still.2] at more
  refine writeSetup_serves _ keeps apart fun h₆ keeps same₆ => ?_
  refine writeSetup_serves _ keeps apart fun h₇ keeps same₇ => ?_
  rw [← same₆, ← same₇] at more
  refine Prog.delivers_bind (fillSetup_serves keeps apart more) fun h₈ _ keeps => ?_
  exact (Prog.wp_pure _ _ _ _).mpr ⟨rfl, keeps⟩

/-- `main` with its last call (`src/bin/efi.rs:542-675`). -/
def startLinux (X : Crates) : Prog Uefi (Launch × Handover) := do
  let launch ← main X
  let handover ← linuxExec launch.cmdline launch.kernelAddr launch.initrdAddr launch.initrdSize
  return (launch, handover)

/-- The kernel is entered at its entry point with the kernel and the initrd in place, and its
    record names the command line, if it lies in the first 4 GiB, and the initrd. -/
structure Started (m : Memory) (config kernel initrd : List UInt8) (h : History Uefi)
    (launch : Launch) (handover : Handover) : Prop where
  cmdline : launch.cmdline = cmdlineOf config
  kernelThere : (m.after h).read launch.kernelAddr kernel.length = kernel
  entered : handover.handoverAddr = entryPoint kernel launch.kernelAddr
  initrdThere : (m.after h).read launch.initrdAddr initrd.length = initrd
  named : ∃ pool ∈ pools h, pool < 2 ^ 32 →
    Faithful (m.after h) handover.bootSetup pool launch.cmdline launch.initrdAddr initrd.length

/-- The whole loader, on firmware that serves it. -/
theorem startLinux_serves {config : List UInt8}
    (startable : Startable X files vars room config kernel initrd db)
    (supported : Supported kernel) :
    Prog.wp (Serves m files vars room)
      (Prog.Delivers fun h r => Started m config kernel initrd h r.1 r.2) (startLinux X) [] := by
  refine Prog.delivers_bind (main_serves startable) fun h₁ launch loaded => ?_
  have executing : Prog.wp (Serves m files vars room) _ _ h₁ := Prog.delivers_and
    (linuxExec_serves supported loaded.kernelThere loaded.left startable.roomLow)
    (Prog.wp_rely_mono (linuxExec_wp m launch.cmdline launch.kernelAddr loaded.low)
      fun _ _ served => served.2.1)
  refine Prog.delivers_bind executing ?_
  rintro h₂ handover ⟨⟨entered, keeps⟩, pool, pooled, faithful⟩
  obtain ⟨kernelSize, kernelMember, kernelInside⟩ := loaded.kernelThere.pages
  obtain ⟨initrdSize, initrdMember, initrdInside⟩ := loaded.initrdThere.pages
  refine (Prog.wp_pure _ _ _ _).mpr ⟨loaded.cmdline, ?_, entered, ?_, pool, ?_, ?_⟩
  · rw [keeps.read kernelMember kernelInside, loaded.kernelThere.read]
  · rw [keeps.read initrdMember initrdInside, loaded.initrdThere.read]
  · rw [pooled]
    exact List.mem_append_right _ List.mem_cons_self
  · intro low
    rw [← loaded.initrdSize]
    exact faithful.mpr low

end

end Initos.Agreement
