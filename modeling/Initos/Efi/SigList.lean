import Initos.Sys
import Initos.Crates

/-!
# The signature database

`parse_esl` (`src/efi.rs:371-441`) walks the EFI signature lists of the `db`
variable and hands the DER bytes of every entry of an X.509 list to the
certificate parser. The walk is modelled with every bounds check and every 64-bit
sum it makes. `eslWalk` says, without checks, which entries the walk visits;
`parseEslWith_eq` shows that the code visits exactly those and that no check can
fail.
-/

namespace Initos.Efi

open Bytes

/-- `EFI_CERT_X509_GUID` (`src/efi.rs:48-50`). -/
def certX509Guid : List UInt8 :=
  [0xa1, 0x59, 0xc0, 0xa5, 0xe4, 0x94, 0xa7, 0x4a, 0x87, 0xb5, 0xab, 0x15, 0x5c, 0x2b, 0xf0, 0x72]

/-- The fixed part of a signature list. -/
structure ListHeader where
  sigType : List UInt8
  listSize : Nat
  headerSize : Nat
  sigSize : Nat
  deriving DecidableEq

/-- The four fields at `offset`, as both walkers read them. -/
def readListHeader (data : List UInt8) (offset : Nat) : Checked ListHeader := do
  let sigType ← slice data offset (offset + 16)
  let listSize ← readLe32 data (offset + 16)
  let headerSize ← readLe32 data (offset + 20)
  let sigSize ← readLe32 data (offset + 24)
  return ⟨sigType, listSize, headerSize, sigSize⟩

/-! ## `parse_esl` -/

section Parse

variable {α : Type} (parse : List UInt8 → Except Err α)

/-- `match parse_x509_cert(der_bytes)` (`src/efi.rs:429-434`): a certificate that does
    not parse is left out. -/
def pushParsed (certs : List α) (derBytes : List UInt8) : List α :=
  match parse derBytes with
  | .ok cert => certs ++ [cert]
  | .error _ => certs

/-- The inner loop of `parse_esl` (`src/efi.rs:420-436`). -/
def parseEslEntries (data : List UInt8) (sigSize certDataSize sigsEnd : Nat) (pos : 0 < sigSize)
    (sigOffset : Nat) (certs : List α) : Checked (List α) := do
  fits (sigOffset + sigSize)
  if _more : sigOffset + sigSize ≤ sigsEnd then
    let derStart := sigOffset + 16
    let derEnd := derStart + certDataSize
    fits derEnd
    if derEnd > data.length then return certs
    let derBytes ← slice data derStart derEnd
    parseEslEntries data sigSize certDataSize sigsEnd pos (sigOffset + sigSize)
      (pushParsed parse certs derBytes)
  else return certs
termination_by sigsEnd - sigOffset

/-- The outer loop of `parse_esl` (`src/efi.rs:388-438`). -/
def parseEslLoop (data : List UInt8) (offset : Nat) (certs : List α) :
    Checked (Except Err (List α)) := do
  fits (offset + 28)
  if _inside : offset + 28 ≤ data.length then
    let hdr ← readListHeader data offset
    if hdr.sigType ≠ certX509Guid then
      -- lists of another type are skipped
      if _empty : hdr.listSize = 0 then return .ok certs
      else
        fits (offset + hdr.listSize)
        parseEslLoop data (offset + hdr.listSize) certs
    else
      fits (28 + hdr.headerSize)
      if bad : hdr.sigSize < 16 ∨ hdr.listSize < 28 + hdr.headerSize then
        return .error (.io .invalidData "Invalid ESL signature size")
      else
        fits (offset + 28 + hdr.headerSize)
        fits (offset + hdr.listSize)
        let certDataSize ← subSize hdr.sigSize 16
        let certs ← parseEslEntries parse data hdr.sigSize certDataSize (offset + hdr.listSize)
          (by omega) (offset + 28 + hdr.headerSize) certs
        parseEslLoop data (offset + hdr.listSize) certs
  else return .ok certs
termination_by data.length - offset

/-- `parse_esl` over any certificate parser. -/
def parseEslWith (data : List UInt8) : Checked (Except Err (List α)) :=
  parseEslLoop parse data 0 []

end Parse

/-! ## What the walk visits -/

/-- The header at an offset that has 28 bytes. -/
def headerAt (data : List UInt8) (offset : Nat) : ListHeader :=
  ⟨(data.drop offset).take 16, le32At data (offset + 16), le32At data (offset + 20),
    le32At data (offset + 24)⟩

/-- A header that lies inside can be read. -/
theorem readListHeader_eq {data : List UInt8} {offset : Nat} (inside : offset + 28 ≤ data.length) :
    readListHeader data offset = some (headerAt data offset) := by
  have sigType := slice_eq_some data (show offset ≤ offset + 16 by omega) (by omega)
  have listSize := readLe32_eq_some data (offset + 16) (by omega)
  have headerSize := readLe32_eq_some data (offset + 20) (by omega)
  have sigSize := readLe32_eq_some data (offset + 24) (by omega)
  rw [readListHeader, sigType, listSize, headerSize, sigSize, Nat.add_sub_cancel_left]
  rfl

/-- The certificate bytes of the entry at `sigOffset`, behind its owner GUID. -/
def entryDer (data : List UInt8) (sigSize sigOffset : Nat) : List UInt8 :=
  (data.drop (sigOffset + 16)).take (sigSize - 16)

/-- The certificate bytes of the entries that lie between `start` and `stop`. -/
def entries (data : List UInt8) (sigSize start stop : Nat) : List (List UInt8) :=
  (List.range ((stop - start) / sigSize)).map fun i => entryDer data sigSize (start + i * sigSize)

theorem entries_cons {data : List UInt8} {sigSize start stop : Nat} (pos : 0 < sigSize)
    (more : start + sigSize ≤ stop) :
    entries data sigSize start stop =
      entryDer data sigSize start :: entries data sigSize (start + sigSize) stop := by
  have count : (stop - start) / sigSize = (stop - (start + sigSize)) / sigSize + 1 := by
    rw [← Nat.add_div_right _ pos]
    congr 1
    omega
  rw [entries, count, List.range_succ_eq_map, List.map_cons, List.map_map]
  congr 1
  · simp
  · apply List.map_congr_left
    intro i _
    simp only [Function.comp, Nat.succ_mul]
    congr 1
    omega

theorem entries_nil {data : List UInt8} {sigSize start stop : Nat} (pos : 0 < sigSize)
    (done : stop < start + sigSize) : entries data sigSize start stop = [] := by
  rw [entries, Nat.div_eq_of_lt (by omega)]
  rfl

/-- The DER slices `parse_esl` hands to the certificate parser from `offset` on. -/
def eslWalk (data : List UInt8) (offset : Nat) : Except Err (List (List UInt8)) :=
  if _inside : offset + 28 ≤ data.length then
    let hdr := headerAt data offset
    if hdr.sigType ≠ certX509Guid then
      if _empty : hdr.listSize = 0 then .ok []
      else eslWalk data (offset + hdr.listSize)
    else if _bad : hdr.sigSize < 16 ∨ hdr.listSize < 28 + hdr.headerSize then
      .error (.io .invalidData "Invalid ESL signature size")
    else
      (entries data hdr.sigSize (offset + 28 + hdr.headerSize)
        (min (offset + hdr.listSize) data.length) ++ ·) <$> eslWalk data (offset + hdr.listSize)
  else .ok []
termination_by data.length - offset
decreasing_by
  all_goals
    simp +zetaDelta only at *
    omega

/-- The inner loop pushes what parses of the entries up to the end of the list or of
    the data. The sizes are those of 32-bit fields, so no sum overflows. -/
theorem parseEslEntries_eq {α : Type} (parse : List UInt8 → Except Err α) (data : List UInt8)
    {sigSize sigsEnd : Nat} (large : 16 ≤ sigSize) (small : sigSize < 2 ^ 32)
    (endFits : sigsEnd < 2 ^ 63 + 2 ^ 32) {sigOffset : Nat} (started : sigOffset ≤ sigsEnd)
    (pos : 0 < sigSize) (certs : List α) :
    parseEslEntries parse data sigSize (sigSize - 16) sigsEnd pos sigOffset certs =
      some ((entries data sigSize sigOffset (min sigsEnd data.length)).foldl (pushParsed parse)
        certs) := by
  induction count : sigsEnd - sigOffset using Nat.strongRecOn generalizing sigOffset certs with
  | ind n ih =>
    have sum : fits (sigOffset + sigSize) = some () := fits_of_lt (by omega)
    have derFits : fits (sigOffset + 16 + (sigSize - 16)) = some () := fits_of_lt (by omega)
    rw [parseEslEntries, sum]
    by_cases more : sigOffset + sigSize ≤ sigsEnd
    · by_cases cut : sigOffset + 16 + (sigSize - 16) > data.length
      · -- the entry starts inside the list but ends behind the data
        rw [entries_nil pos (by omega)]
        simp [more, cut, derFits]
      · have der := slice_eq_some data
          (show sigOffset + 16 ≤ sigOffset + 16 + (sigSize - 16) by omega) (by omega)
        have rest := ih (sigsEnd - (sigOffset + sigSize)) (by omega) more
          (pushParsed parse certs (entryDer data sigSize sigOffset)) rfl
        rw [entries_cons pos (by omega), List.foldl_cons, ← rest]
        simp only [more, cut, der, derFits, Nat.add_sub_cancel_left]
        rfl
    · rw [entries_nil pos (by omega)]
      simp [more]

theorem headerAt_lt (data : List UInt8) (offset : Nat) :
    (headerAt data offset).listSize < 2 ^ 32 ∧ (headerAt data offset).headerSize < 2 ^ 32 ∧
      (headerAt data offset).sigSize < 2 ^ 32 :=
  ⟨le32At_lt .., le32At_lt .., le32At_lt ..⟩

/-- From any offset that a 32-bit size leads to, the code pushes what parses of the slices
    of `eslWalk`, and no check fails. -/
theorem parseEslLoop_eq {α : Type} (parse : List UInt8 → Except Err α) {data : List UInt8}
    (addressable : data.length < 2 ^ 63) (offset : Nat) (reached : offset < 2 ^ 63 + 2 ^ 32)
    (certs : List α) :
    parseEslLoop parse data offset certs =
      some ((eslWalk data offset).map fun slices => slices.foldl (pushParsed parse) certs) := by
  induction count : data.length - offset using Nat.strongRecOn generalizing offset certs with
  | ind n ih =>
    have fixedFits : fits (offset + 28) = some () := fits_of_lt (by omega)
    rw [parseEslLoop, eslWalk]
    by_cases inside : offset + 28 ≤ data.length
    · obtain ⟨listSmall, headerSmall, sigSmall⟩ := headerAt_lt data offset
      simp only [fixedFits, inside, dif_pos, readListHeader_eq inside, Option.bind_eq_bind,
        Option.bind_some]
      by_cases other : (headerAt data offset).sigType ≠ certX509Guid
      · simp only [other, if_pos, ne_eq, not_false_eq_true]
        by_cases empty : (headerAt data offset).listSize = 0
        · simp [empty]; rfl
        · have sum : fits (offset + (headerAt data offset).listSize) = some () :=
            fits_of_lt (by omega)
          simp only [empty, dif_neg, not_false_eq_true, sum, Option.bind_some]
          exact ih _ (by omega) _ (by omega) _ rfl
      · have headerFits : fits (28 + (headerAt data offset).headerSize) = some () :=
          fits_of_lt (by omega)
        simp only [other, if_neg, not_false_eq_true, headerFits, Option.bind_some]
        by_cases bad : (headerAt data offset).sigSize < 16 ∨
            (headerAt data offset).listSize < 28 + (headerAt data offset).headerSize
        · simp only [bad, dif_pos]
          rfl
        · have sumHeader : fits (offset + 28 + (headerAt data offset).headerSize) = some () :=
            fits_of_lt (by omega)
          have sumList : fits (offset + (headerAt data offset).listSize) = some () :=
            fits_of_lt (by omega)
          have size := subSize_eq_some (show 16 ≤ (headerAt data offset).sigSize by omega)
          have started : offset + 28 + (headerAt data offset).headerSize ≤
              offset + (headerAt data offset).listSize := by omega
          have visited := parseEslEntries_eq parse data (by omega) sigSmall (by omega) started
            (by omega) certs
          simp only [bad, dif_neg, not_false_eq_true, sumHeader, sumList, size, visited,
            Option.bind_some]
          rw [ih _ (by omega) _ (by omega) _ rfl]
          cases eslWalk data (offset + (headerAt data offset).listSize) with
          | error e => rfl
          | ok slices => simp [Except.map, Functor.map]
    · simp only [fixedFits, inside, dif_neg, not_false_eq_true]
      rfl

theorem length_foldl_pushParsed_le {α : Type} (parse : List UInt8 → Except Err α)
    (slices : List (List UInt8)) (certs : List α) :
    (slices.foldl (pushParsed parse) certs).length ≤ slices.length + certs.length := by
  induction slices generalizing certs with
  | nil => simp
  | cons der rest ih =>
    have pushed : (pushParsed parse certs der).length ≤ certs.length + 1 := by
      unfold pushParsed
      split <;> simp
    have later := ih (pushParsed parse certs der)
    rw [List.foldl_cons, List.length_cons]
    omega

/-- The code hands exactly the slices of `eslWalk` to the parser. -/
theorem parseEslWith_eq {α : Type} (parse : List UInt8 → Except Err α) {data : List UInt8}
    (addressable : data.length < 2 ^ 63) :
    parseEslWith parse data =
      some ((eslWalk data 0).map fun slices => slices.foldl (pushParsed parse) []) :=
  parseEslLoop_eq parse addressable 0 (by omega) []

/-! ## Certificates -/

/-- A certificate of a signature list (`src/efi.rs:53-65`), without the names that
    only the log shows. -/
structure EfiCert where
  keyId : String
  publicKeyB64 : String
  rsaPublicKeyB64 : String
  deriving DecidableEq

/-- `parse_x509_cert` (`src/efi.rs:457-491`). -/
def parseX509Cert (X : Crates) (derBytes : List UInt8) : Except Err EfiCert :=
  match X.fromDer derBytes with
  | .error e => .error (.io .invalidData ("DER parse: " ++ e))
  | .ok cert =>
    match X.spkiToDer cert with
    | .error e => .error (.io .invalidData ("SPKI DER: " ++ e))
    | .ok spkiDer =>
      .ok
        { keyId := X.publicKeyId spkiDer
          publicKeyB64 := X.base64Encode spkiDer
          rsaPublicKeyB64 := ((X.publicKeyBytes cert).map X.base64Encode).getD "" }

/-- `parse_esl` (`src/efi.rs:384-441`). -/
def parseEsl (X : Crates) (data : List UInt8) : Checked (Except Err (List EfiCert)) :=
  parseEslWith (parseX509Cert X) data

/-! ## The format

What an X.509 entry of a database is, independent of either walker: the database
is a sequence of lists, each as long as its size field says, and an X.509 list is
its header followed by entries of equal size. -/

/-- A signature list starts at this offset. -/
inductive ListStart (db : List UInt8) : Nat → Prop where
  | first : ListStart db 0
  | next {offset : Nat} (start : ListStart db offset) (inside : offset + 28 ≤ db.length)
      (nonempty : (headerAt db offset).listSize ≠ 0) :
      ListStart db (offset + (headerAt db offset).listSize)

/-- `der` is the certificate part of entry `index` of the X.509 list at `offset`, and
    that list lies inside the database. -/
structure X509EntryAt (db der : List UInt8) (offset index : Nat) : Prop where
  start : ListStart db offset
  fixed : offset + 28 ≤ db.length
  sigType : (headerAt db offset).sigType = certX509Guid
  owner : 16 ≤ (headerAt db offset).sigSize
  inList : 28 + (headerAt db offset).headerSize + (index + 1) * (headerAt db offset).sigSize ≤
    (headerAt db offset).listSize
  inDb : offset + (headerAt db offset).listSize ≤ db.length
  der_eq : der = entryDer db (headerAt db offset).sigSize
    (offset + 28 + (headerAt db offset).headerSize + index * (headerAt db offset).sigSize)

/-- `der` is the certificate part of an entry of an X.509 list of the database. -/
def X509Entry (db der : List UInt8) : Prop := ∃ offset index, X509EntryAt db der offset index

/-! ## A small database

A decoder that takes any non-empty byte string as a certificate that is its own SPKI
and key, with the rsaEncryption OID when it starts with 1 and the RSASSA-PSS OID
otherwise, and a verifier for which the signature of anything is the key. -/

/-- Libraries of this kind. -/
def sampleCrates : Crates where
  Cert := List UInt8
  fromDer der := if der = [] then .error "empty" else .ok der
  spkiToDer cert := .ok cert
  publicKeyBytes cert := some cert
  algorithmOid cert := if cert.head? = some 1 then Crates.rsaOid else "1.2.840.113549.1.1.10"
  RsaPublicKey := List UInt8
  fromPkcs1Der der := some der
  rsaVerify key _ signature := key == signature
  Ed25519Key := List UInt8
  ed25519FromBytes b := .ok b
  ed25519Verify key _ signature := key == signature
  sha256 b := (b ++ List.replicate 32 0).take 32
  sha256_length b := by simp
  base64Encode b := String.ofList (b.map fun x => Char.ofNat x.toNat)
  base64Decode s := .ok (s.toList.map fun c => UInt8.ofNat c.toNat)
  base64Decode_encode b := by
    have small : ∀ n < 256, UInt8.ofNat (Char.ofNat n).toNat = UInt8.ofNat n := by decide +kernel
    have kept : ∀ x : UInt8, UInt8.ofNat (Char.ofNat x.toNat).toNat = x := fun x =>
      (small x.toNat x.toNat_lt).trans UInt8.ofNat_toNat
    simp [Function.comp_def, kept]
  base64Encode_eq_empty_iff b := by simp
  cstr16Fits size s := s.toList.length < size &&
    s.toList.all fun c => 0 < c.toNat && c.toNat < 0x10000
  cstr16Fits_of_ucs2 size s short units := by simp_all
  Guid := List UInt8
  guidDecidableEq := inferInstance
  guidFromBytes b := b
  guidFromBytes_injective b b' _ _ same := same
  guid _ := certX509Guid
  guid_certX509 := rfl

/-- One X.509 list with one entry of 17 bytes, whose certificate is the byte `cert`. -/
def sampleDb (listSize cert : UInt8) : List UInt8 :=
  certX509Guid ++ [listSize, 0, 0, 0, 0, 0, 0, 0, 17, 0, 0, 0] ++ List.replicate 16 0 ++ [cert]

end Initos.Efi
