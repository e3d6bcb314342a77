import Initos.Efi.SigList

/-!
# The format of a signature database

A database is a sequence of signature lists as `src/efi.rs:371-383` describes them. A
`SignatureList` carries the sizes its fields can hold, so that every list has an encoding;
`parse_esl` gives back the certificates of the X.509 lists, in order.
-/

namespace Initos.Efi

open Bytes

/-- A well-formed signature list. -/
structure SignatureList where
  sigType : List UInt8
  header : List UInt8
  sigSize : Nat
  signatures : List (List UInt8)
  type_length : sigType.length = 16
  signature_length : ∀ signature ∈ signatures, signature.length = sigSize
  /-- An X.509 entry starts with its owner. -/
  owner : sigType = certX509Guid → 16 ≤ sigSize
  sigSize_lt : sigSize < 2 ^ 32
  size_lt : 28 + header.length + signatures.length * sigSize < 2 ^ 32

namespace SignatureList

/-- `SignatureListSize`. -/
def listSize (l : SignatureList) : Nat := 28 + l.header.length + l.signatures.length * l.sigSize

/-- The bytes of a list. -/
def encode (l : SignatureList) : List UInt8 :=
  l.sigType ++ (le32 l.listSize ++ (le32 l.header.length ++ (le32 l.sigSize ++
    (l.header ++ l.signatures.flatten))))

/-- The certificates of an X.509 list, without their owners; lists of another type have
    none. -/
def certificates (l : SignatureList) : List (List UInt8) :=
  if l.sigType = certX509Guid then l.signatures.map (·.drop 16) else []

theorem length_flatten {sigSize : Nat} {signatures : List (List UInt8)}
    (lengths : ∀ signature ∈ signatures, signature.length = sigSize) :
    signatures.flatten.length = signatures.length * sigSize := by
  induction signatures with
  | nil => simp
  | cons signature rest ih =>
    have head := lengths signature List.mem_cons_self
    have tail := ih fun s member => lengths s (List.mem_cons_of_mem _ member)
    rw [List.flatten_cons, List.length_append, head, tail, List.length_cons, Nat.succ_mul]
    omega

/-- A list is as long as its header says. -/
theorem length_encode (l : SignatureList) : l.encode.length = l.listSize := by
  have signatures := length_flatten l.signature_length
  simp only [encode, List.length_append, l.type_length, length_le32, signatures, listSize]
  omega

/-- The fields of a list are read back wherever it stands. -/
theorem headerAt_encode (l : SignatureList) (before after : List UInt8) :
    headerAt (before ++ (l.encode ++ after)) before.length =
      ⟨l.sigType, l.listSize, l.header.length, l.sigSize⟩ := by
  have listSmall : l.listSize < 2 ^ 32 := l.size_lt
  have headerSmall : l.header.length < 2 ^ 32 := by
    unfold listSize at listSmall
    omega
  have typeIs : ((before ++ (l.encode ++ after)).drop before.length).take 16 = l.sigType := by
    rw [List.drop_left, encode, List.append_assoc, ← l.type_length, List.take_left]
  have size := le32At_append listSmall (before ++ l.sigType)
    (le32 l.header.length ++ (le32 l.sigSize ++ (l.header ++ (l.signatures.flatten ++ after))))
  have headerSize := le32At_append headerSmall (before ++ l.sigType ++ le32 l.listSize)
    (le32 l.sigSize ++ (l.header ++ (l.signatures.flatten ++ after)))
  have sigSize := le32At_append l.sigSize_lt
    (before ++ l.sigType ++ le32 l.listSize ++ le32 l.header.length)
    (l.header ++ (l.signatures.flatten ++ after))
  simp only [List.length_append, l.type_length, length_le32] at size headerSize sigSize
  simp only [headerAt, typeIs, ListHeader.mk.injEq, true_and]
  simp only [encode, List.append_assoc] at size headerSize sigSize ⊢
  exact ⟨size, headerSize, sigSize⟩

end SignatureList

/-- The entries between two offsets are the signatures that stand there. -/
theorem entries_flatten {sigSize : Nat} (large : 16 ≤ sigSize) {signatures : List (List UInt8)}
    (lengths : ∀ signature ∈ signatures, signature.length = sigSize) (before after : List UInt8) :
    entries (before ++ (signatures.flatten ++ after)) sigSize before.length
        (before.length + signatures.length * sigSize) = signatures.map (·.drop 16) := by
  induction signatures generalizing before with
  | nil => exact entries_nil (by omega) (by simp; omega)
  | cons signature rest ih =>
    have head := lengths signature List.mem_cons_self
    have tail := ih (fun s member => lengths s (List.mem_cons_of_mem _ member))
      (before ++ signature)
    have size : (signature :: rest).length * sigSize = sigSize + rest.length * sigSize := by
      rw [List.length_cons, Nat.succ_mul, Nat.add_comm]
    have first : entryDer (before ++ ((signature :: rest).flatten ++ after)) sigSize before.length =
        signature.drop 16 := by
      rw [entryDer, List.drop_append, List.drop_of_length_le (by omega), List.nil_append,
        Nat.add_sub_cancel_left, List.flatten_cons, List.append_assoc,
        List.drop_append_of_le_length (by omega), ← head]
      exact List.take_left' (by simp)
    rw [size, entries_cons (by omega) (by omega), first, List.map_cons]
    congr 1
    rw [List.length_append, head] at tail
    rw [← tail, List.flatten_cons]
    simp only [List.append_assoc]
    congr 1
    omega

/-- From the start of a sequence of lists on, the walk visits their certificates. -/
theorem eslWalk_encode (lists : List SignatureList) (before : List UInt8) :
    eslWalk (before ++ lists.flatMap SignatureList.encode) before.length =
      .ok (lists.flatMap SignatureList.certificates) := by
  induction lists generalizing before with
  | nil =>
    rw [eslWalk, dif_neg (by simp)]
    rfl
  | cons l rest ih =>
    have hdr := l.headerAt_encode before (rest.flatMap SignatureList.encode)
    have later := ih (before ++ l.encode)
    have inside : before.length + 28 ≤
        (before ++ (l.encode ++ rest.flatMap SignatureList.encode)).length := by
      simp only [List.length_append, l.length_encode, SignatureList.listSize]
      omega
    rw [List.length_append, l.length_encode, List.append_assoc] at later
    rw [List.flatMap_cons, List.flatMap_cons, eslWalk, dif_pos inside]
    simp only [hdr]
    by_cases other : l.sigType ≠ certX509Guid
    · have nonempty : l.listSize ≠ 0 := by
        unfold SignatureList.listSize
        omega
      have none : l.certificates = [] := if_neg other
      rw [if_pos other, dif_neg nonempty, later, none, List.nil_append]
    · rw [if_neg other]
      simp only [ne_eq, Decidable.not_not] at other
      have large := l.owner other
      have good : ¬(l.sigSize < 16 ∨ l.listSize < 28 + l.header.length) := by
        unfold SignatureList.listSize
        omega
      have certs : l.certificates = l.signatures.map (·.drop 16) := if_pos other
      rw [dif_neg good, later, certs]
      -- the entries stand behind the fixed part and the header
      have visited := entries_flatten large l.signature_length
        (before ++ (l.sigType ++ (le32 l.listSize ++ (le32 l.header.length ++ (le32 l.sigSize ++
          l.header))))) (rest.flatMap SignatureList.encode)
      simp only [List.length_append, l.type_length, length_le32] at visited
      have stop : min (before.length + l.listSize)
          (before ++ (l.encode ++ rest.flatMap SignatureList.encode)).length =
          before.length + (16 + (4 + (4 + (4 + l.header.length)))) +
            l.signatures.length * l.sigSize := by
        simp only [List.length_append, l.length_encode, SignatureList.listSize]
        omega
      have start : before.length + 28 + l.header.length =
          before.length + (16 + (4 + (4 + (4 + l.header.length)))) := by omega
      rw [stop, start, ← visited]
      simp only [SignatureList.encode, List.append_assoc]
      rfl

/-- What the code keeps of the slices it visits. -/
theorem foldl_pushParsed {α : Type} (parse : List UInt8 → Except Err α)
    (slices : List (List UInt8)) (certs : List α) :
    slices.foldl (pushParsed parse) certs =
      certs ++ slices.filterMap fun der => (parse der).toOption := by
  induction slices generalizing certs with
  | nil => simp
  | cons der rest ih =>
    rw [List.foldl_cons, ih, pushParsed, List.filterMap_cons]
    cases parse der with
    | error e => rfl
    | ok cert => simp [Except.toOption]

/-- `parse_esl` of a sequence of well-formed lists is what parses of the entries of its X.509
    lists, in order. -/
theorem parseEsl_encode (X : Crates) {lists : List SignatureList}
    (addressable : (lists.flatMap SignatureList.encode).length < 2 ^ 63) :
    parseEsl X (lists.flatMap SignatureList.encode) =
      some (.ok ((lists.flatMap SignatureList.certificates).filterMap fun der =>
        (parseX509Cert X der).toOption)) := by
  have walk := eslWalk_encode lists []
  rw [List.nil_append, List.length_nil] at walk
  rw [parseEsl, parseEslWith_eq _ addressable, walk]
  simp [Except.map, foldl_pushParsed]

/-- A list of two certificates, with a header of one byte. -/
def twoCertificates : SignatureList where
  sigType := certX509Guid
  header := [0]
  sigSize := 17
  signatures := [List.replicate 16 0 ++ [1], List.replicate 16 0 ++ [2]]
  type_length := rfl
  signature_length := by decide
  owner _ := by decide
  sigSize_lt := by decide
  size_lt := by decide

/-- A list of another type, whose entries have no bytes. -/
def emptyEntries : SignatureList where
  sigType := List.replicate 16 0
  header := []
  sigSize := 0
  signatures := [[], []]
  type_length := rfl
  signature_length := by decide
  owner isX509 := absurd isX509 (by decide)
  sigSize_lt := by decide
  size_lt := by decide

theorem parseEsl_encode_three_lists :
    ∃ certs, parseEsl sampleCrates
        ([twoCertificates, emptyEntries, twoCertificates].flatMap SignatureList.encode) =
          some (.ok certs) ∧ certs.length = 4 :=
  ⟨_, parseEsl_encode sampleCrates (by decide +kernel), by decide +kernel⟩

end Initos.Efi
