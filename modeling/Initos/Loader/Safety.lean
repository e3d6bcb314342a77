import Initos.Loader.Main

/-!
# What the loader starts is signed

With Secure Boot on, everything `linux_exec` is given was signed by a certificate of
`db`. The verification is of bytes in memory, so the argument has two parts: an
accepting walk names a certificate and a signature file, and what the loader does
after a verification leaves the verified bytes alone.
-/

namespace Initos.Loader

open Interact Bytes Efi

/-! ## Memory -/

theorem Memory.read_congr {m m' : Memory} {addr len : Nat}
    (same : ∀ a, addr ≤ a → a < addr + len → m' a = m a) : m'.read addr len = m.read addr len := by
  apply List.map_congr_left
  intro i member
  rw [List.mem_range] at member
  exact same (addr + i) (by omega) (by omega)

/-- A store changes its own range only. -/
theorem Memory.store_other {m : Memory} {addr : Nat} {bytes : List UInt8} {a : Nat}
    (outside : a < addr ∨ addr + bytes.length ≤ a) : m.store addr bytes a = m a :=
  if_neg (by omega)

theorem Memory.after_snoc (m : Memory) (h : History Uefi) (e : Event Uefi) :
    m.after (h ++ [e]) = (m.after h).step e := by
  simp [Memory.after]

theorem Memory.after_append (m : Memory) (h tr : History Uefi) :
    m.after (h ++ tr) = (m.after h).after tr := by
  simp [Memory.after]

theorem allocated_append (h tr : History Uefi) :
    allocated (h ++ tr) = allocated h ++ allocated tr := by
  simp [allocated]

/-- Commands that neither write memory nor allocate it. -/
def Quiet : UefiCmd → Prop
  | .readFileTo _ _ _ | .allocatePages _ _ | .zero _ _ | .copyTo _ _ => False
  | _ => True

/-- Quiet commands leave memory alone. -/
theorem Memory.after_quiet (m : Memory) {tr : History Uefi} (quiet : ∀ e ∈ tr, Quiet e.cmd) :
    m.after tr = m := by
  induction tr generalizing m with
  | nil => rfl
  | cons e tr ih =>
    have step : m.step e = m := by
      have quiet := quiet e List.mem_cons_self
      obtain ⟨c, r⟩ := e
      cases c <;> first | rfl | exact absurd quiet id
    have rest := ih (m.step e) fun e' member => quiet e' (List.mem_cons_of_mem _ member)
    rw [step] at rest
    simp only [Memory.after, List.foldl_cons, step] at rest ⊢
    exact rest

theorem allocated_quiet {tr : History Uefi} (quiet : ∀ e ∈ tr, Quiet e.cmd) :
    allocated tr = [] := by
  apply List.filterMap_eq_nil_iff.mpr
  intro e member
  have quiet := quiet e member
  obtain ⟨c, r⟩ := e
  cases c <;> first | rfl | exact absurd quiet id

/-- Memory that was allocated before `h'` continued `h` still holds the same bytes. -/
def Keeps (m : Memory) (h h' : History Uefi) : Prop :=
  ∀ range ∈ allocated h, ∀ a, range.1 ≤ a → a < range.1 + range.2 → m.after h' a = m.after h a

/-- What lies in an allocated range is read as before. -/
theorem Keeps.read {m : Memory} {h h' : History Uefi} (keeps : Keeps m h h') {addr size len : Nat}
    (member : (addr, size) ∈ allocated h) (small : len ≤ size) :
    (m.after h').read addr len = (m.after h).read addr len := by
  apply Memory.read_congr
  intro a low high
  exact keeps (addr, size) member a low (by simp only; omega)

/-! ## Quiet parts -/

theorem openRegular_uses (X : Crates) (path : String) : (openRegular X path).run.Uses Quiet := by
  rw [openRegular]
  by_cases fitsPath : X.cstr16Fits 128 path
  · simp only [fitsPath, Bool.not_true, Bool.false_eq_true, if_false]
    apply Fallible.uses_bind (by simp [Quiet])
    intro device
    cases device with
    | false => simp
    | true =>
      simp only [Bool.not_true, Bool.false_eq_true, if_false]
      apply Fallible.uses_bind (by simp [Quiet])
      intro _
      apply Fallible.uses_bind (by simp [Quiet])
      intro fileType
      cases fileType <;> simp [Quiet]
  · simp [fitsPath]

/-- Reading a file into a buffer is quiet. -/
theorem loadFileToMemory_uses (X : Crates) (path : String) :
    (loadFileToMemory X path).run.Uses Quiet := by
  rw [loadFileToMemory]
  apply Fallible.uses_bind (openRegular_uses X path)
  intro size
  simp [Quiet]

/-- The commands of the walk are those of its visits. -/
theorem visitAll_uses {σ : Type} {A : UefiCmd → Prop}
    {visit : σ → List UInt8 → Prog Uefi (Flow σ)} (each : ∀ s der, (visit s der).Uses A)
    (slices : List (List UInt8)) (s : σ) : (visitAll visit slices s).Uses A := by
  induction slices generalizing s with
  | nil => trivial
  | cons der rest ih =>
    apply Prog.uses_bind (each s der)
    intro flow
    cases flow with
    | accept => trivial
    | next s' => exact ih s'

section

variable (X : Crates)

theorem visitCert_uses (data : List UInt8) (template : String) (t : Tally) (der : List UInt8) :
    (visitCert X data template t der).Uses Quiet := by
  rw [visitCert]
  cases X.fromDer der with
  | error e => trivial
  | ok cert =>
    apply Prog.uses_bind (loadFileToMemory_uses X _)
    intro loaded
    cases loaded with
    | error e => trivial
    | ok sigData =>
      dsimp only
      split
      · split
        · split <;> trivial
        · trivial
      · trivial

/-- The verification is quiet. -/
theorem verifyDataSignature_uses (data : List UInt8) {db : List UInt8}
    (addressable : db.length < 2 ^ 63) (template label : String) :
    (verifyDataSignature X data db template label).Uses Quiet := by
  rw [verifyDataSignature, walkDb_eq X _ addressable]
  apply Prog.uses_bind
  · apply Prog.uses_bind (visitAll_uses (visitCert_uses X data template) _ _)
    intro flow
    trivial
  · intro walked
    rcases walked with e | flow
    · trivial
    · cases flow <;> trivial

theorem requireSignature_uses (c : Component) (data : List UInt8) {db : List UInt8}
    (addressable : db.length < 2 ^ 63) (dbSha : String) :
    (requireSignature X c data db dbSha).Uses Quiet := by
  apply Prog.uses_bind (verifyDataSignature_uses X data addressable _ _)
  intro verified
  cases verified <;> trivial

/-! ## An accepting walk -/

/-- The bytes are signed, with the signature file of a component, by an RSA certificate
    of the database. -/
def SignedComponent (files : String → Option (List UInt8)) (db : List UInt8) (c : Component)
    (data : List UInt8) : Prop :=
  ∃ der cert signature, X509Entry db der ∧ X.fromDer der = .ok cert ∧
    X.algorithmOid cert = Crates.rsaOid ∧
    files (sigPath c.template (loaderKeyId X cert)) = some signature ∧
    X.Signs ((X.publicKeyBytes cert).getD []) data signature

end

/-- The walk only visits entries of X.509 lists that lie inside the database. -/
theorem x509Entry_of_mem_dbWalk {db : List UInt8} {offset : Nat} (start : ListStart db offset)
    {der : List UInt8} (member : der ∈ (dbWalk db offset).1) : X509Entry db der := by
  induction count : db.length - offset using Nat.strongRecOn generalizing offset with
  | ind n ih =>
    rw [dbWalk] at member
    by_cases inside : offset + 28 ≤ db.length
    · simp only [inside, dif_pos] at member
      by_cases empty : (headerAt db offset).listSize = 0
      · simp [empty] at member
      · simp only [empty, dif_neg, not_false_eq_true] at member
        have next := ListStart.next start inside empty
        by_cases past : offset + (headerAt db offset).listSize > db.length
        · simp [past] at member
        · simp only [past, if_neg, not_false_eq_true] at member
          by_cases x509 : (headerAt db offset).sigType = certX509Guid
          · by_cases bad : (headerAt db offset).sigSize < 16 ∨
                (headerAt db offset).listSize < 28 + (headerAt db offset).headerSize
            · simp [x509, bad] at member
            · simp only [x509, bad, ne_eq, not_true_eq_false, if_false, List.mem_append] at member
              rcases member with here | later
              · obtain ⟨index, inRange, rfl⟩ := List.mem_map.mp here
                rw [List.mem_range, Nat.lt_div_iff_mul_lt (by omega)] at inRange
                refine ⟨offset, index, start, inside, x509, by omega, ?_, by omega, rfl⟩
                rw [Nat.succ_mul]
                omega
              · exact ih _ (by omega) next later rfl
          · simp only [x509, ne_eq, not_false_eq_true, if_pos] at member
            exact ih _ (by omega) next member rfl
    · simp [inside] at member

section

variable {m : Memory} {files : String → Option (List UInt8)}
  {vars : String → Vendor → Option (List UInt8)}

/-- A file that was opened and sized is one of `files`. -/
theorem openRegular_wp (X : Crates) (path : String) (h : History Uefi) :
    Prog.wp (Firmware m files vars)
      (Fallible.OnOk fun _ size => ∃ c, files path = some c ∧ size = c.length)
      (openRegular X path).run h := by
  rw [openRegular]
  by_cases fitsPath : X.cstr16Fits 128 path
  · simp only [fitsPath, Bool.not_true, Bool.false_eq_true, if_false]
    apply Fallible.wp_bind_onOk
    apply Fallible.wp_call_onOk
    intro _ device _ _
    cases device with
    | false => exact Fallible.wp_halt_onOk ..
    | true =>
      simp only [Bool.not_true, Bool.false_eq_true, if_false]
      apply Fallible.wp_bind_onOk
      apply Fallible.wp_call_onOk
      intro _ _ _ _
      apply Fallible.wp_bind_onOk
      apply Fallible.wp_call_onOk
      intro _ fileType _ _
      cases fileType with
      | regular =>
        apply Fallible.wp_call_onOk
        intro answer size sized ok
        exact sized size ok
      | directory => exact Fallible.wp_throw_onOk ..
  · simp only [fitsPath, Bool.not_false, if_true]
    exact Fallible.wp_throw_onOk ..

/-- What is read is the content of the file. -/
theorem loadFileToMemory_wp (X : Crates) (path : String) (h : History Uefi) :
    Prog.wp (Firmware m files vars) (Fallible.OnOk fun _ data => files path = some data)
      (loadFileToMemory X path).run h := by
  rw [loadFileToMemory]
  apply Fallible.wp_bind_onOk
  apply Prog.wp_mono (openRegular_wp X path h)
  intro h' out opened
  rcases out with (status | size) | stop
  · trivial
  · obtain ⟨c, stored, rfl⟩ := opened
    apply Fallible.wp_call_onOk
    intro answer data read ok
    obtain ⟨c', stored', whole⟩ := read data ok
    rw [stored] at stored'
    cases stored'
    rw [stored, whole rfl]
  · trivial

variable (X : Crates)

/-- A certificate accepts the data only with its signature over it. -/
theorem visitCert_wp (c : Component) (data : List UInt8) (t : Tally) (der : List UInt8)
    (h : History Uefi) :
    Prog.wp (Firmware m files vars)
      (fun _ out => Flow.Post (∃ cert signature, X.fromDer der = .ok cert ∧
        X.algorithmOid cert = Crates.rsaOid ∧
        files (sigPath c.template (loaderKeyId X cert)) = some signature ∧
        X.Signs ((X.publicKeyBytes cert).getD []) data signature) True True out)
      (visitCert X data c.template t der) h := by
  rw [visitCert]
  cases decoded : X.fromDer der with
  | error e =>
    dsimp only
    rw [Prog.wp_pure]
    trivial
  | ok cert =>
    dsimp only
    rw [Prog.wp_bind]
    apply Prog.wp_mono (loadFileToMemory_wp X _ h)
    intro h' out loaded
    rcases out with (status | sigData) | stop
    · rw [Prog.andThen_done, Prog.wp_pure]
      trivial
    · have stored : files (sigPath c.template (loaderKeyId X cert)) = some sigData := loaded
      rw [Prog.andThen_done]
      dsimp only
      by_cases rsa : X.algorithmOid cert = Crates.rsaOid
      · rw [if_pos rsa]
        cases key : X.fromPkcs1Der ((X.publicKeyBytes cert).getD []) with
        | none =>
          dsimp only
          rw [Prog.wp_pure]
          trivial
        | some rsaPub =>
          dsimp only
          by_cases verified : X.rsaVerify rsaPub (X.sha256 data) sigData = true
          · rw [if_pos verified, Prog.wp_pure]
            exact ⟨cert, sigData, rfl, rsa, stored, rsaPub, key, verified⟩
          · rw [if_neg verified, Prog.wp_pure]
            trivial
      · rw [if_neg rsa, Prog.wp_pure]
        trivial
    · rw [Prog.andThen_halted]
      trivial

/-- Data that is accepted is signed. -/
theorem verifyDataSignature_wp (c : Component) (data : List UInt8) {db : List UInt8}
    (addressable : db.length < 2 ^ 63) (h : History Uefi) :
    Prog.wp (Firmware m files vars)
      (fun _ out => out = .done (.ok ()) → SignedComponent X files db c data)
      (verifyDataSignature X data db c.template c.label) h := by
  rw [verifyDataSignature, walkDb_eq X _ addressable, Prog.bind_assoc, Prog.wp_bind]
  apply Prog.wp_mono (visitAll_wp (visitCert X data c.template) (visitCert_wp X c data) _ _ h)
  intro h' out post
  rcases out with flow | stop
  · rw [Prog.andThen_done, Prog.pure_bind]
    cases flow with
    | accept =>
      obtain ⟨der, member, cert, signature, decoded, rsa, stored, signs⟩ := post
      dsimp only [walkResult]
      rw [Prog.wp_pure]
      intro _
      exact ⟨der, cert, signature, x509Entry_of_mem_dbWalk .first member, decoded, rsa, stored,
        signs⟩
    | next t =>
      cases (dbWalk db 0).2 with
      | none =>
        dsimp only [walkResult]
        rw [Prog.wp_pure]
        intro eq
        cases eq
      | some e =>
        dsimp only [walkResult]
        rw [Prog.wp_pure]
        intro eq
        cases eq
  · rw [Prog.andThen_halted]
    intro eq
    cases eq

/-- A quiet program keeps memory and allocations. -/
def Still (m : Memory) (h h' : History Uefi) : Prop :=
  m.after h' = m.after h ∧ allocated h' = allocated h

/-- Quiet programs leave memory and its allocation alone. -/
theorem still_of_uses {α : Type} {p : Prog Uefi α} (quiet : p.Uses Quiet) (R : Rely Uefi)
    (h : History Uefi) : Prog.wp R (fun h' _ => Still m h h') p h := by
  apply Prog.wp_mono (quiet.wp R h)
  intro h' out extends_
  obtain ⟨tr, rfl, quiet⟩ := extends_
  refine ⟨?_, ?_⟩
  · rw [Memory.after_append, Memory.after_quiet _ quiet]
  · rw [allocated_append, allocated_quiet quiet, List.append_nil]

/-- After the check, the component is signed and memory is as before. -/
theorem requireSignature_wp (c : Component) (data : List UInt8) {db : List UInt8}
    (addressable : db.length < 2 ^ 63) (dbSha : String) (h : History Uefi) :
    Prog.wp (Firmware m files vars)
      (Prog.OnDone fun h' _ => Still m h h' ∧ SignedComponent X files db c data)
      (requireSignature X c data db dbSha) h := by
  have still := still_of_uses (m := m) (requireSignature_uses X c data addressable dbSha)
    (Firmware m files vars) h
  have signed : Prog.wp (Firmware m files vars)
      (Prog.OnDone fun _ _ => SignedComponent X files db c data)
      (requireSignature X c data db dbSha) h := by
    apply Prog.wp_bind_onDone
    apply Prog.wp_mono (verifyDataSignature_wp X c data addressable h)
    intro h' out accepted
    rcases out with (detail | _) | stop
    · exact Prog.wp_onDone_halt ..
    · exact (Prog.wp_pure ..).mpr (accepted rfl)
    · trivial
  apply Prog.wp_mono (Prog.wp_and still signed)
  intro h' out post
  cases out with
  | done _ => exact post
  | halted _ => trivial

/-! ## Kernel and initrd -/

/-- Page ranges cover the sizes they were requested for. -/
theorem le_pages (n : Nat) : n ≤ (n + 4095) / 4096 * 4096 := by omega

/-- A fresh allocation keeps what is there. -/
theorem keeps_store {h h' : History Uefi} {addr size : Nat} {bytes : List UInt8}
    (small : bytes.length ≤ size)
    (fresh : ∀ range ∈ allocated h, Disjoint (addr, size) range)
    (stored : m.after h' = (m.after h).store addr bytes) : Keeps m h h' := by
  intro range member a low high
  rw [stored]
  apply Memory.store_other
  rcases fresh range member with before | behind
  · simp only at before
    omega
  · simp only at behind
    omega

/-- The kernel lies in pages of its own. -/
theorem loadPeKernelToAddress_wp (path : String) (h : History Uefi) :
    Prog.wp (Firmware m files vars)
      (Fallible.OnOk fun h' r => ∃ pages, (r.1, pages) ∈ allocated h' ∧ r.2.1 ≤ pages)
      (loadPeKernelToAddress X path).run h := by
  rw [loadPeKernelToAddress]
  apply Fallible.wp_bind_onOk
  apply Prog.wp_mono (loadFileToMemory_wp X path h)
  intro h₁ out _
  rcases out with (status | data) | stop
  · trivial
  · dsimp only [Fallible.OnOk]
    cases peSizeOfImage data with
    | none => exact Fallible.wp_halt_onOk ..
    | some peSize =>
      rw [bootChecked, pure_bind]
      apply Fallible.wp_bind_onOk
      apply Fallible.wp_call_onOk
      intro answer addr _ ok
      cases ok
      rw [Fallible.wp_ask_bind]
      intro _ _
      rw [Fallible.wp_ask_bind]
      intro _ _
      apply Fallible.wp_pure_onOk
      refine ⟨(max (peSize.getD data.length) data.length + 4095) / 4096 * 4096, ?_, ?_⟩
      · simp [allocated]
      · simp only
        omega
  · trivial

/-- Loading the initrd, also where it fails, leaves earlier pages alone. -/
theorem loadKernelToAddress_wp (path : String) (h : History Uefi) :
    Prog.wp (Firmware m files vars) (Prog.OnDone fun h' _ => Keeps m h h')
      (loadKernelToAddress X path).run h := by
  rw [loadKernelToAddress, Fallible.wp_bind]
  apply Prog.wp_mono (still_of_uses (m := m) (openRegular_uses X path) _ h)
  intro h₁ out still
  obtain ⟨same, noAlloc⟩ := still
  rcases out with (status | size) | stop
  · rw [Prog.andThen_done, Fallible.cont_error, Prog.wp_pure]
    intro range member a low high
    rw [same]
  · rw [Prog.andThen_done, Fallible.cont_ok, Fallible.wp_call_bind]
    intro answer fresh
    rcases answer with status | addr
    · rw [Fallible.cont_error, Prog.wp_pure]
      intro range member a low high
      rw [Memory.after_snoc, same]
      rfl
    · have fresh := fresh addr rfl
      rw [noAlloc] at fresh
      rw [Fallible.cont_ok, Fallible.wp_call_bind]
      intro read bounded
      have stored : m.after (h₁ ++ [⟨.allocatePages 0x40000000 ((size + 4095) / 4096), .ok addr⟩] ++
          [⟨.readFileTo path addr size, read⟩]) = (m.after h).store addr read.written := by
        rw [Memory.after_snoc, Memory.after_snoc, same]
        rfl
      have keeps := keeps_store (Nat.le_trans bounded (le_pages size)) fresh stored
      cases read.status with
      | none => exact (Prog.wp_pure ..).mpr keeps
      | some status => exact (Prog.wp_pure ..).mpr keeps
  · trivial

theorem Still.trans {h h' h'' : History Uefi} (first : Still m h h') (second : Still m h' h'') :
    Still m h h'' :=
  ⟨second.1.trans first.1, second.2.trans first.2⟩

theorem Keeps.still {h h' h'' : History Uefi} (keeps : Keeps m h h') (still : Still m h' h'') :
    Keeps m h h'' := by
  intro range member a low high
  rw [still.1]
  exact keeps range member a low high

/-- Reading memory and verifying what was read: the bytes are still there, and signed. -/
theorem verifyInMemory_wp (c : Component) (addr size : Nat) {db : List UInt8}
    (addressable : db.length < 2 ^ 63) (dbSha : String) (h : History Uefi) :
    Prog.wp (Firmware m files vars)
      (Prog.OnDone fun h' _ => Still m h h' ∧
        SignedComponent X files db c ((m.after h').read addr size))
      (do
        let data ← Prog.perform (I := Uefi) (.readMemory addr size)
        requireSignature X c data db dbSha) h := by
  rw [Prog.wp_bind, Prog.wp_perform]
  intro data read
  have read : data = (m.after h).read addr size := read
  rw [Prog.andThen_done]
  apply Prog.wp_mono (requireSignature_wp X c data addressable dbSha _)
  intro h' out post
  cases out with
  | halted _ => trivial
  | done _ =>
    obtain ⟨still, signed⟩ := post
    have first : Still m h (h ++ [⟨.readMemory addr size, data⟩]) := by
      refine ⟨?_, ?_⟩
      · rw [Memory.after_snoc]
        rfl
      · simp [allocated]
    have whole := first.trans still
    refine ⟨whole, ?_⟩
    rw [whole.1, ← read]
    exact signed

/-- A loaded kernel is signed, and its bytes are in its pages. -/
theorem loadKernel_wp {db : List UInt8} (addressable : db.length < 2 ^ 63) (dbSha : String)
    (h : History Uefi) :
    Prog.wp (Firmware m files vars)
      (Prog.OnDone fun h' r => ∃ pages, (r.1, pages) ∈ allocated h' ∧ r.2 ≤ pages ∧
        SignedComponent X files db .kernel ((m.after h').read r.1 r.2))
      (loadKernel X true db dbSha) h := by
  rw [loadKernel]
  apply Prog.wp_bind_onDone
  apply Prog.wp_mono (loadPeKernelToAddress_wp X _ h)
  intro h₁ out placed
  rcases out with (status | ⟨addr, size, imageSize⟩) | stop
  · exact Prog.wp_onDone_halt ..
  · obtain ⟨pages, member, fitsPages⟩ := placed
    simp only [Prog.OnDone, if_true]
    rw [← Prog.bind_assoc]
    apply Prog.wp_bind_onDone
    apply Prog.wp_mono (verifyInMemory_wp X .kernel addr size addressable dbSha h₁)
    intro h₂ out post
    cases out with
    | halted _ => trivial
    | done _ =>
      obtain ⟨still, signed⟩ := post
      rw [Prog.OnDone, Prog.wp_pure]
      refine ⟨pages, ?_, fitsPages, signed⟩
      rw [still.2]
      exact member
  · trivial

/-- So is the initrd, and it overwrites nothing. -/
theorem loadInitrd_wp {db : List UInt8} (nonempty : db ≠ []) (addressable : db.length < 2 ^ 63)
    (dbSha : String) (h : History Uefi) :
    Prog.wp (Firmware m files vars)
      (Prog.OnDone fun h' r => Keeps m h h' ∧
        (0 < r.2 → SignedComponent X files db .initrd ((m.after h').read r.1 r.2)))
      (loadInitrd X true db dbSha) h := by
  have dbSeen : (true && !db.isEmpty) = true := by simpa using nonempty
  rw [loadInitrd]
  apply Prog.wp_bind_onDone
  apply Prog.wp_mono (loadKernelToAddress_wp X _ h)
  intro h₁ out keeps
  rcases out with (status | ⟨addr, size⟩) | stop
  · rw [Prog.OnDone, Prog.wp_pure]
    exact ⟨keeps, fun large => absurd large (Nat.lt_irrefl 0)⟩
  · simp only [Prog.OnDone, dbSeen, if_true]
    rw [← Prog.bind_assoc]
    apply Prog.wp_bind_onDone
    apply Prog.wp_mono (verifyInMemory_wp X .initrd addr size addressable dbSha h₁)
    intro h₂ out post
    cases out with
    | halted _ => trivial
    | done _ =>
      obtain ⟨still, signed⟩ := post
      rw [Prog.OnDone, Prog.wp_pure]
      exact ⟨Keeps.still keeps still, fun _ => signed⟩
  · trivial

end

/-! ## The whole loader -/

/-- Firmware on which the SecureBoot variable reads as 1. -/
def SecureFirmware (m : Memory) (files : String → Option (List UInt8))
    (vars : String → Vendor → Option (List UInt8)) : Rely Uefi := fun h e =>
  Firmware m files vars h e ∧
    match e with
    | ⟨.getVariable name vendor bufSize, r⟩ =>
        name = "SecureBoot" → vendor = globalVariable → 0 < bufSize →
          ∃ data, r = Except.ok data ∧ data.head? = some 1
    | _ => True

/-- Everything handed to `linux_exec` is signed: the config, whose trimmed first line is
    the command line, and the kernel and initrd bytes in memory. -/
structure LaunchesSigned (X : Crates) (files : String → Option (List UInt8)) (db : List UInt8)
    (memory : Memory) (launch : Launch) : Prop where
  config : ∃ config, files "\\EFI\\BOOT\\config" = some config ∧
    SignedComponent X files db .config config ∧ launch.cmdline = cmdlineOf config
  kernel : SignedComponent X files db .kernel (memory.read launch.kernelAddr launch.kernelSize)
  initrd : 0 < launch.initrdSize →
    SignedComponent X files db .initrd (memory.read launch.initrdAddr launch.initrdSize)

/-- What `main` hands over is signed, with Secure Boot on. -/
theorem main_wp (X : Crates) {m : Memory} {files : String → Option (List UInt8)}
    {vars : String → Vendor → Option (List UInt8)} (h : History Uefi) :
    Prog.wp (SecureFirmware m files vars)
      (Prog.OnDone fun h' launch => ∃ db, vars "db" imageSecurityDb = some db ∧
        LaunchesSigned X files db (m.after h') launch)
      (main X) h := by
  have weaken : ∀ h e, SecureFirmware m files vars h e → Firmware m files vars h e :=
    fun _ _ secure => secure.1
  rw [main]
  apply Prog.wp_bind_onDone
  apply Prog.wp_mono (Prog.wp_rely_mono (loadFileToMemory_wp X _ h) weaken)
  intro h₁ out loaded
  rcases out with (status | config) | stop
  · exact Prog.wp_onDone_halt ..
  · have stored : files "\\EFI\\BOOT\\config" = some config := loaded
    dsimp only [Prog.OnDone]
    apply Prog.wp_bind_onDone
    rw [secureBootStatus, Prog.wp_bind, Fallible.wp_call]
    intro answer reads
    obtain ⟨data, rfl, one⟩ := reads.2 rfl rfl Nat.one_pos
    rw [Prog.andThen_done, Prog.wp_pure]
    have secure : (data.head?.getD 0 == 1) = true := by rw [one]; rfl
    rw [Prog.OnDone, secure]
    apply Prog.wp_bind_onDone
    rw [readDbVariable, if_pos rfl, Prog.wp_bind, Fallible.wp_call]
    intro answer reads
    rcases answer with status | db
    · rw [Prog.andThen_done]
      exact Prog.wp_onDone_halt ..
    · obtain ⟨variable_, small⟩ := reads.1 db rfl
      rw [Prog.andThen_done]
      dsimp only
      by_cases empty : db = []
      · rw [if_pos empty]
        exact Prog.wp_onDone_halt ..
      · have addressable : db.length < 2 ^ 63 := by omega
        rw [if_neg empty, Prog.wp_pure, Prog.OnDone]
        simp only [if_true]
        apply Prog.wp_bind_onDone
        apply Prog.wp_mono
          (Prog.wp_rely_mono (requireSignature_wp X .config config addressable _ _) weaken)
        intro h₂ out post
        cases out with
        | halted _ => trivial
        | done _ =>
          obtain ⟨-, configSigned⟩ := post
          apply Prog.wp_bind_onDone
          apply Prog.wp_mono (Prog.wp_rely_mono (loadKernel_wp X addressable _ _) weaken)
          intro h₃ out post
          cases out with
          | halted _ => trivial
          | done kernel =>
            obtain ⟨pages, member, fitsPages, kernelSigned⟩ := post
            apply Prog.wp_bind_onDone
            apply Prog.wp_mono (Prog.wp_rely_mono (loadInitrd_wp X empty addressable _ _) weaken)
            intro h₄ out post
            cases out with
            | halted _ => trivial
            | done initrd =>
              obtain ⟨keeps, initrdSigned⟩ := post
              rw [Prog.OnDone, Prog.wp_pure]
              refine ⟨db, variable_, ⟨config, stored, configSigned, rfl⟩, ?_, initrdSigned⟩
              rw [Keeps.read keeps member fitsPages]
              exact kernelSigned
  · trivial

/-- With Secure Boot on, a loader run that reaches `linux_exec` starts only what a
    certificate of `db` signed. -/
theorem linux_exec_only_of_signed (X : Crates) (m : Memory)
    (files : String → Option (List UInt8)) (vars : String → Vendor → Option (List UInt8))
    {tr : History Uefi} {launch : Launch} (run : Runs (main X) tr (.done launch))
    (secure : Admits (SecureFirmware m files vars) [] tr) :
    ∃ db, vars "db" imageSecurityDb = some db ∧
      LaunchesSigned X files db (m.after tr) launch :=
  (Prog.wp_iff_runs _ _ _ _).mp (main_wp X []) tr _ run secure

/-- The end of the highest of some ranges. -/
def top (ranges : List (Nat × Nat)) : Nat :=
  ranges.foldr (fun range high => max (range.1 + range.2) high) 0

theorem le_top {ranges : List (Nat × Nat)} {range : Nat × Nat} (member : range ∈ ranges) :
    range.1 + range.2 ≤ top ranges := by
  induction ranges with
  | nil => cases member
  | cons first rest ih =>
    simp only [top, List.foldr_cons] at ih ⊢
    rcases List.mem_cons.mp member with rfl | member
    · omega
    · have := ih member
      omega

/-- Firmware with Secure Boot on, the database `sampleDb 45 1`, memory that starts as
    zeros, and the single byte 1 as every file. -/
def sampleFirmware (h : History Uefi) : (c : UefiCmd) → c.Resp
  | .loadedImageDevice => .ok true
  | .openVolume => .ok ()
  | .openFile _ => .ok .regular
  | .fileSize _ => .ok 1
  | .readFile _ _ => .ok [1]
  | .readFileTo _ _ len => ⟨[1].take len, none⟩
  | .allocatePages _ _ => .ok (top (allocated h))
  | .allocatePool _ => .error .notFound
  | .zero _ _ => ()
  | .copyTo _ _ => ()
  | .readMemory addr len => (Memory.after (fun _ => 0) h).read addr len
  | .getVariable name _ bufSize =>
    if name = "SecureBoot" then if 1 ≤ bufSize then .ok [1] else .error .notFound
    else if 45 ≤ bufSize then .ok (sampleDb 45 1) else .error .notFound

/-- The variables of the firmware of the example. -/
def sampleVars (name : String) (_ : Vendor) : Option (List UInt8) :=
  if name = "SecureBoot" then some [1] else some (sampleDb 45 1)

theorem secureFirmware_sample (h : History Uefi) (c : UefiCmd) :
    SecureFirmware (fun _ => 0) (fun _ => some [1]) sampleVars h ⟨c, sampleFirmware h c⟩ := by
  cases c with
  | fileSize path =>
    refine ⟨?_, trivial⟩
    intro size ok
    cases ok
    exact ⟨[1], rfl, rfl⟩
  | readFile path len =>
    refine ⟨?_, trivial⟩
    intro data ok
    cases ok
    exact ⟨[1], rfl, fun _ => rfl⟩
  | readFileTo path addr len =>
    refine ⟨?_, trivial⟩
    exact List.length_take_le len [1]
  | allocatePages maxAddress pages =>
    refine ⟨?_, trivial⟩
    intro addr ok
    cases ok
    intro range member
    exact .inr (le_top member)
  | readMemory addr len => exact ⟨rfl, trivial⟩
  | getVariable name vendor bufSize =>
    refine ⟨?_, ?_⟩
    · intro data ok
      simp only [sampleFirmware] at ok
      unfold sampleVars
      by_cases secureBoot : name = "SecureBoot"
      · by_cases large : 1 ≤ bufSize
        · simp only [secureBoot, large, if_true, Except.ok.injEq] at ok ⊢
          subst ok
          exact ⟨rfl, large⟩
        · simp [secureBoot, large] at ok
      · by_cases large : 45 ≤ bufSize
        · simp only [secureBoot, large, if_true, if_false, Except.ok.injEq] at ok ⊢
          subst ok
          exact ⟨rfl, large⟩
        · simp [secureBoot, large] at ok
    · intro secureBoot _ large
      exact ⟨[1], by simp only [sampleFirmware, secureBoot, if_true,
        if_pos (show 1 ≤ bufSize from large)], rfl⟩
  | _ => exact ⟨trivial, trivial⟩

theorem linux_exec_only_of_signed_sample :
    ∃ tr launch, Runs (main sampleCrates) tr (.done launch) ∧
      LaunchesSigned sampleCrates (fun _ => some [1]) (sampleDb 45 1)
        (Memory.after (fun _ => 0) tr) launch := by
  have run := Prog.runs_exec sampleFirmware (main sampleCrates) []
  have secure := Prog.admits_exec secureFirmware_sample (main sampleCrates) []
  have returns : ((main sampleCrates).exec sampleFirmware []).2.isDone = true := by decide +kernel
  revert run secure returns
  rcases (main sampleCrates).exec sampleFirmware [] with ⟨tr, launch | stop⟩
  · intro run secure _
    obtain ⟨db, variable_, signed⟩ := linux_exec_only_of_signed sampleCrates _ _ _ run secure
    cases variable_
    exact ⟨tr, launch, run, signed⟩
  · intro _ _ returns
    cases returns

end Initos.Loader
