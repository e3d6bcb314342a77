import Initos.Loader.Uefi
import Initos.Efi.SigList

/-!
# Signature verification in the EFI loader

`verify_data_signature` (`src/bin/efi.rs:410-539`) walks the signature database on
its own, with a visitor that loads the signature file of each certificate and
verifies it. The walk is modelled over any visitor. `dbWalk` says which slices it
visits and how it ends; `walkDb_eq` shows that for every visitor, hence for the one
that verifies, the walk is the visits of those slices in order.
-/

namespace Initos.Loader

open Interact Bytes Efi

/-! ## Files -/

/-- The common first part of `load_file_to_memory` and `load_kernel_to_address`
    (`src/bin/efi.rs:195-216` and `226-247`): open a regular file and read its size. -/
def openRegular (X : Crates) (path : String) : Boot Nat := do
  if !X.cstr16Fits 128 path then throw .invalidParameter
  let device ← loadedImageDevice
  -- `loaded_image.device().expect("No device handle")`
  if !device then Fallible.halt .panic
  openVolume
  let fileType ← openFile path
  match fileType with
  | .regular => fileSize path
  | .directory => throw .notFound

/-- `load_file_to_memory` (`src/bin/efi.rs:194-223`). -/
def loadFileToMemory (X : Crates) (path : String) : Boot (List UInt8) := do
  let size ← openRegular X path
  readFile path size

/-! ## GUIDs -/

/-- `EFI_CERT_X509_GUID` (`src/bin/efi.rs:408`). -/
def efiCertX509Guid (X : Crates) : X.Guid := X.guid "a5c059a1-94e4-4aa7-87b5-ab155c2bf072"

/-- The loader's GUID is the byte string the initrd compares with. -/
theorem guidFromBytes_eq_certX509 (X : Crates) {b : List UInt8} (length : b.length = 16) :
    X.guidFromBytes b = efiCertX509Guid X ↔ b = certX509Guid := by
  rw [efiCertX509Guid, X.guid_certX509]
  constructor
  · exact X.guidFromBytes_injective b certX509Guid length rfl
  · rintro rfl
    rfl

/-! ## The walk over the database -/

/-- Why the loader refuses data (`src/bin/efi.rs:440-459` and `521-538`). -/
inductive VerifyError where
  | listPastEnd (offset dbSize : Nat)
  | invalidList (offset headerSize sigSize : Nat)
  | noCertificates
  | noSignatureFile (label : String) (certCount : Nat) (lastPath lastKeyId : String)
  | mismatch (label : String) (sigFileCount : Nat) (lastPath lastKeyId : String)
  | unsupported (label : String) (sigFileCount unsupportedCount : Nat)
  deriving DecidableEq

/-- The texts of the errors, as they are formatted. -/
def VerifyError.text : VerifyError → String
  | .listPastEnd offset dbSize =>
    s!"malformed db: signature list at offset {offset} extends past db size {dbSize}"
  | .invalidList offset headerSize sigSize =>
    s!"malformed db: invalid X.509 list at offset {offset} header_size={headerSize} sig_size={sigSize}"
  | .noCertificates => "no X.509 certificates found in db"
  | .noSignatureFile label certCount lastPath lastKeyId =>
    s!"no {label} signature file matched any db cert; checked {certCount} cert(s); last expected path={lastPath} KEY_ID={lastKeyId}"
  | .mismatch label sigFileCount lastPath lastKeyId =>
    s!"{label} RSA signature mismatch; checked {sigFileCount} signature file(s); last path={lastPath} KEY_ID={lastKeyId}"
  | .unsupported label sigFileCount unsupportedCount =>
    s!"unsupported {label} signing key or signature format; checked {sigFileCount} signature file(s), unsupported {unsupportedCount}"

/-- The offset of the list for which the database is refused as malformed. -/
def VerifyError.malformedAt : VerifyError → Option Nat
  | .listPastEnd offset _ => some offset
  | .invalidList offset _ _ => some offset
  | _ => none

/-- What a visit of a certificate decides: return `Ok(())`, or go on. -/
inductive Flow (σ : Type) where
  | accept
  | next (s : σ)

/-- A computation with bounds checks; a failed check aborts the loader. -/
def checked {α : Type} : Checked α → Prog Uefi α
  | some a => pure a
  | none => .halt .panic

section Walk

variable {σ : Type} (X : Crates) (visit : σ → List UInt8 → Prog Uefi (Flow σ))

/-- The inner loop (`src/bin/efi.rs:464-517`). -/
def walkEntries (db : List UInt8) (sigSize certDataSize sigsEnd : Nat) (pos : 0 < sigSize)
    (sigOffset : Nat) (s : σ) : Prog Uefi (Flow σ) := do
  checked (fits (sigOffset + sigSize))
  if _more : sigOffset + sigSize ≤ sigsEnd then
    checked (fits (sigOffset + 16 + certDataSize))
    let derBytes ← checked (slice db (sigOffset + 16) (sigOffset + 16 + certDataSize))
    match ← visit s derBytes with
    | .accept => return .accept
    | .next s => walkEntries db sigSize certDataSize sigsEnd pos (sigOffset + sigSize) s
  else return .next s
termination_by sigsEnd - sigOffset

/-- The outer loop (`src/bin/efi.rs:426-519`). -/
def walkDb (db : List UInt8) (offset : Nat) (s : σ) : Prog Uefi (Except VerifyError (Flow σ)) := do
  checked (fits (offset + 28))
  if _inside : offset + 28 ≤ db.length then
    let hdr ← checked (readListHeader db offset)
    let sigType := X.guidFromBytes hdr.sigType
    if _empty : hdr.listSize = 0 then return .ok (.next s)
    else
      checked (fits (offset + hdr.listSize))
      if offset + hdr.listSize > db.length then return .error (.listPastEnd offset db.length)
      if sigType ≠ efiCertX509Guid X then walkDb db (offset + hdr.listSize) s
      else
        checked (fits (offset + 28 + hdr.headerSize))
        if bad : hdr.sigSize < 16 ∨ offset + 28 + hdr.headerSize > offset + hdr.listSize then
          return .error (.invalidList offset hdr.headerSize hdr.sigSize)
        else
          let certDataSize ← checked (subSize hdr.sigSize 16)
          match ← walkEntries visit db hdr.sigSize certDataSize (offset + hdr.listSize)
            (by omega) (offset + 28 + hdr.headerSize) s with
          | .accept => return .ok .accept
          | .next s => walkDb db (offset + hdr.listSize) s
  else return .ok (.next s)
termination_by db.length - offset

/-- Visit slices one after the other. -/
def visitAll : List (List UInt8) → σ → Prog Uefi (Flow σ)
  | [], s => return .next s
  | der :: rest, s => do
    match ← visit s der with
    | .accept => return .accept
    | .next s => visitAll rest s

end Walk

/-! ## What the walk visits -/

/-- The slices the loader's walk visits from `offset` on, and the error it ends with
    if no visit accepts. -/
def dbWalk (db : List UInt8) (offset : Nat) : List (List UInt8) × Option VerifyError :=
  if _inside : offset + 28 ≤ db.length then
    let hdr := headerAt db offset
    if _empty : hdr.listSize = 0 then ([], none)
    else if offset + hdr.listSize > db.length then ([], some (.listPastEnd offset db.length))
    else if hdr.sigType ≠ certX509Guid then dbWalk db (offset + hdr.listSize)
    else if hdr.sigSize < 16 ∨ hdr.listSize < 28 + hdr.headerSize then
      ([], some (.invalidList offset hdr.headerSize hdr.sigSize))
    else
      let rest := dbWalk db (offset + hdr.listSize)
      (entries db hdr.sigSize (offset + 28 + hdr.headerSize) (offset + hdr.listSize) ++ rest.1,
        rest.2)
  else ([], none)
termination_by db.length - offset
decreasing_by
  all_goals
    simp +zetaDelta only at *
    omega

section Walk

variable {σ : Type} (X : Crates) (visit : σ → List UInt8 → Prog Uefi (Flow σ))

/-- Visits of two lists one behind the other. -/
theorem visitAll_append (xs ys : List (List UInt8)) (s : σ) :
    visitAll visit (xs ++ ys) s = (do
      match ← visitAll visit xs s with
      | .accept => return .accept
      | .next s => visitAll visit ys s) := by
  induction xs generalizing s with
  | nil => rfl
  | cons x xs ih =>
    simp only [List.cons_append, visitAll, Prog.bind_assoc]
    congr 1
    funext flow
    cases flow with
    | accept => rfl
    | next s => exact ih s

/-- The inner loop visits the entries of an X.509 list that lies inside the database. -/
theorem walkEntries_eq {db : List UInt8} (addressable : db.length < 2 ^ 63) {sigSize sigsEnd : Nat}
    (large : 16 ≤ sigSize) (small : sigSize < 2 ^ 32) (inDb : sigsEnd ≤ db.length)
    {sigOffset : Nat} (started : sigOffset ≤ sigsEnd) (pos : 0 < sigSize) (s : σ) :
    walkEntries visit db sigSize (sigSize - 16) sigsEnd pos sigOffset s =
      visitAll visit (entries db sigSize sigOffset sigsEnd) s := by
  induction count : sigsEnd - sigOffset using Nat.strongRecOn generalizing sigOffset s with
  | ind n ih =>
    have sum : fits (sigOffset + sigSize) = some () := fits_of_lt (by omega)
    have derFits : sigOffset + sigSize ≤ sigsEnd →
        fits (sigOffset + 16 + (sigSize - 16)) = some () := fun _ => fits_of_lt (by omega)
    rw [walkEntries, sum]
    by_cases more : sigOffset + sigSize ≤ sigsEnd
    · have der := slice_eq_some db
        (show sigOffset + 16 ≤ sigOffset + 16 + (sigSize - 16) by omega) (by omega)
      rw [entries_cons pos more, visitAll]
      simp only [more, der, derFits more, dif_pos, checked, Prog.pure_bind,
        Nat.add_sub_cancel_left]
      unfold entryDer
      congr 1
      funext flow
      cases flow with
      | accept => rfl
      | next s => exact ih _ (by omega) more s rfl
    · rw [entries_nil pos (by omega)]
      simp only [more, dif_neg, not_false_eq_true, checked, Prog.pure_bind]
      rfl

/-- The result of a walk whose visits ended with `flow`. -/
def walkResult (flow : Flow σ) (error : Option VerifyError) : Except VerifyError (Flow σ) :=
  match flow, error with
  | .accept, _ => .ok .accept
  | .next s, none => .ok (.next s)
  | .next _, some e => .error e

/-- The walk from an offset is one visit of each slice behind it. -/
theorem walkDb_eq_from {db : List UInt8} (addressable : db.length < 2 ^ 63) (offset : Nat)
    (reached : offset ≤ db.length) (s : σ) :
    walkDb X visit db offset s = (do
      let flow ← visitAll visit (dbWalk db offset).1 s
      return walkResult flow (dbWalk db offset).2) := by
  induction count : db.length - offset using Nat.strongRecOn generalizing offset s with
  | ind n ih =>
    have fixedFits : fits (offset + 28) = some () := fits_of_lt (by omega)
    rw [walkDb, dbWalk]
    by_cases inside : offset + 28 ≤ db.length
    · obtain ⟨listSmall, headerSmall, sigSmall⟩ := headerAt_lt db offset
      have guidLength : (headerAt db offset).sigType.length = 16 := by
        simp only [headerAt, List.length_take, List.length_drop]
        omega
      have guid_iff := guidFromBytes_eq_certX509 X guidLength
      simp only [fixedFits, inside, dif_pos, readListHeader_eq inside, checked, Prog.pure_bind]
      by_cases empty : (headerAt db offset).listSize = 0
      · simp only [empty, dif_pos]
        rfl
      · have sumList : fits (offset + (headerAt db offset).listSize) = some () :=
          fits_of_lt (by omega)
        have sumHeader : fits (offset + 28 + (headerAt db offset).headerSize) = some () :=
          fits_of_lt (by omega)
        simp only [empty, dif_neg, not_false_eq_true, sumList, sumHeader, Prog.pure_bind]
        by_cases past : offset + (headerAt db offset).listSize > db.length
        · simp only [past, if_pos]
          rfl
        · simp only [past, if_neg, not_false_eq_true]
          by_cases other : (headerAt db offset).sigType = certX509Guid
          · have isX509 : X.guidFromBytes certX509Guid = efiCertX509Guid X :=
              (guidFromBytes_eq_certX509 X rfl).mpr rfl
            simp only [other, isX509, ne_eq, not_true_eq_false, if_false]
            by_cases bad : (headerAt db offset).sigSize < 16 ∨
                (headerAt db offset).listSize < 28 + (headerAt db offset).headerSize
            · have bad' : (headerAt db offset).sigSize < 16 ∨
                  offset + 28 + (headerAt db offset).headerSize >
                    offset + (headerAt db offset).listSize := by omega
              simp only [bad, bad', dif_pos, if_pos]
              rfl
            · have good : ¬((headerAt db offset).sigSize < 16 ∨
                  offset + 28 + (headerAt db offset).headerSize >
                    offset + (headerAt db offset).listSize) := by omega
              have size := subSize_eq_some (show 16 ≤ (headerAt db offset).sigSize by omega)
              have started : offset + 28 + (headerAt db offset).headerSize ≤
                  offset + (headerAt db offset).listSize := by omega
              have visited := walkEntries_eq visit addressable (by omega) sigSmall
                (show offset + (headerAt db offset).listSize ≤ db.length by omega) started
                (by omega) s
              simp only [bad, good, dif_neg, if_neg, not_false_eq_true, size, Prog.pure_bind,
                visited, visitAll_append, Prog.bind_assoc]
              congr 1
              funext flow
              cases flow with
              | accept => rfl
              | next s => exact ih _ (by omega) _ (by omega) s rfl
          · have notX509 : X.guidFromBytes (headerAt db offset).sigType ≠ efiCertX509Guid X :=
              fun eq => other (guid_iff.mp eq)
            simp only [other, notX509, ne_eq, not_false_eq_true, if_pos]
            exact ih _ (by omega) _ (by omega) s rfl
    · simp only [fixedFits, inside, dif_neg, not_false_eq_true, checked, Prog.pure_bind]
      rfl

/-- The walk is the visits of the slices of `dbWalk`, for every visitor. -/
theorem walkDb_eq {db : List UInt8} (addressable : db.length < 2 ^ 63) (s : σ) :
    walkDb X visit db 0 s = (do
      let flow ← visitAll visit (dbWalk db 0).1 s
      return walkResult flow (dbWalk db 0).2) :=
  walkDb_eq_from X visit addressable 0 (Nat.zero_le _) s

/-- `accept` only where `P` holds, `next` only where `N` holds, a stop only where `H` holds. -/
def Flow.Post (P N H : Prop) : Outcome Uefi (Flow σ) → Prop
  | .done .accept => P
  | .done (.next _) => N
  | .halted _ => H

/-- Visiting slices one after the other accepts because of one of them, or passes all. -/
theorem visitAll_wp {R : Rely Uefi} {P N : List UInt8 → Prop} {H : Prop}
    (each : ∀ s der h, Prog.wp R (fun _ out => Flow.Post (P der) (N der) H out) (visit s der) h)
    (slices : List (List UInt8)) (s : σ) (h : History Uefi) :
    Prog.wp R (fun _ out => Flow.Post (∃ der ∈ slices, P der) (∀ der ∈ slices, N der) H out)
      (visitAll visit slices s) h := by
  induction slices generalizing s h with
  | nil =>
    rw [visitAll, Prog.wp_pure]
    intro der member
    cases member
  | cons der rest ih =>
    rw [visitAll, Prog.wp_bind]
    apply Prog.wp_mono (each s der h)
    intro h' out post
    rcases out with flow | stop
    · cases flow with
      | accept =>
        rw [Prog.andThen_done, Prog.wp_pure]
        exact ⟨der, List.mem_cons_self, post⟩
      | next s' =>
        rw [Prog.andThen_done]
        apply Prog.wp_mono (ih s' h')
        intro h'' out' post'
        rcases out' with flow' | stop'
        · cases flow' with
          | accept =>
            obtain ⟨der', member, accepted⟩ := post'
            exact ⟨der', List.mem_cons_of_mem _ member, accepted⟩
          | next s'' =>
            intro der' member
            rcases List.mem_cons.mp member with rfl | member
            · exact post
            · exact post' der' member
        · exact post'
    · exact post

end Walk

/-! ## `verify_data_signature` -/

/-- What the function counts while it walks (`src/bin/efi.rs:416-422`). -/
structure Tally where
  certCount : Nat := 0
  sigFileCount : Nat := 0
  mismatchCount : Nat := 0
  unsupportedCount : Nat := 0
  lastKeyId : String := ""
  lastSigPath : String := ""

/-- `sig_path_template.replace("{}", &key_id)`. -/
def sigPath (template keyId : String) : String :=
  String.ofList (Text.replacePair (Char.ofNat 0x7b) (Char.ofNat 0x7d) keyId.toList template.toList)

/-- What the loader verifies before it starts Linux. -/
inductive Component where
  | config
  | kernel
  | initrd
  deriving DecidableEq, Repr

namespace Component

/-- The signature path templates (`src/bin/efi.rs:607`, `634` and `654`). -/
def template : Component → String
  | config => "\\EFI\\BOOT\\\x7b\x7d.sig"
  | kernel => "\\EFI\\BOOT\\\x7b\x7d.kernel.sig"
  | initrd => "\\EFI\\BOOT\\\x7b\x7d.initrd.sig"

/-- The name of the component in the messages. -/
def label : Component → String
  | config => "config"
  | kernel => "kernel"
  | initrd => "initrd"

/-- What a template puts behind the key id. -/
def suffix : Component → String
  | config => ".sig"
  | kernel => ".kernel.sig"
  | initrd => ".initrd.sig"

/-- The path of a signature file has the key id in it. -/
theorem sigPath_template (c : Component) (keyId : String) :
    (sigPath c.template keyId).toList =
      "\\EFI\\BOOT\\".toList ++ keyId.toList ++ c.suffix.toList := by
  rw [sigPath, String.toList_ofList]
  cases c <;> rfl

end Component

section Verify

variable (X : Crates)

/-- The key id the loader computes: an SPKI that does not encode counts as empty. -/
def loaderKeyId (cert : X.Cert) : String := X.publicKeyId ((X.spkiToDer cert).toOption.getD [])

/-- The visit of one entry (`src/bin/efi.rs:466-515`). -/
def visitCert (data : List UInt8) (template : String) (t : Tally) (derBytes : List UInt8) :
    Prog Uefi (Flow Tally) := do
  match X.fromDer derBytes with
  | .error _ => return .next t
  | .ok cert =>
    let pubKeyBytes := (X.publicKeyBytes cert).getD []
    let keyId := loaderKeyId X cert
    let path := sigPath template keyId
    let t := { t with certCount := t.certCount + 1, lastKeyId := keyId, lastSigPath := path }
    match ← (loadFileToMemory X path).run with
    | .error _ => return .next t
    | .ok sigData =>
      let t := { t with sigFileCount := t.sigFileCount + 1 }
      if X.algorithmOid cert = Crates.rsaOid then
        match X.fromPkcs1Der pubKeyBytes with
        | some rsaPub =>
          if X.rsaVerify rsaPub (X.sha256 data) sigData then return .accept
          else return .next { t with mismatchCount := t.mismatchCount + 1 }
        | none => return .next { t with unsupportedCount := t.unsupportedCount + 1 }
      else return .next { t with unsupportedCount := t.unsupportedCount + 1 }

/-- The error for a walk that accepted nothing (`src/bin/efi.rs:521-538`). -/
def Tally.error (t : Tally) (label : String) : VerifyError :=
  if t.certCount = 0 then .noCertificates
  else if t.sigFileCount = 0 then
    .noSignatureFile label t.certCount t.lastSigPath t.lastKeyId
  else if t.mismatchCount > 0 then .mismatch label t.sigFileCount t.lastSigPath t.lastKeyId
  else .unsupported label t.sigFileCount t.unsupportedCount

/-- `verify_data_signature` (`src/bin/efi.rs:410-539`). -/
def verifyDataSignature (data db : List UInt8) (template label : String) :
    Prog Uefi (Except VerifyError Unit) := do
  match ← walkDb X (visitCert X data template) db 0 {} with
  | .error e => return .error e
  | .ok .accept => return .ok ()
  | .ok (.next t) => return .error (t.error label)

end Verify

end Initos.Loader
