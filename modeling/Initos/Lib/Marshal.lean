import Initos.Lib.Bytes

/-!
# Messages of big-endian fields

A message is built by filling a buffer of zeros from the front, one field after
the other, and read back by a parser that consumes fields from the front. `fill_eq`
says what a builder produces; the `run_` lemmas let `simp` parse a message whose
fields are known.
-/

namespace Marshal

open Bytes

/-- A field of a message. -/
inductive Field where
  | u8 (v : UInt8)
  | u16 (v : UInt16)
  | u32 (v : UInt32)
  | bytes (b : List UInt8)

/-- The bytes of a field, most significant first. -/
def Field.encode : Field → List UInt8
  | .u8 v => [v]
  | .u16 v => be16 v
  | .u32 v => be32 v
  | .bytes b => b

/-- The bytes of a sequence of fields. -/
def encode (fields : List Field) : List UInt8 := fields.flatMap Field.encode

@[simp] theorem encode_nil : encode [] = [] := rfl

@[simp] theorem encode_cons (f : Field) (fields : List Field) :
    encode (f :: fields) = f.encode ++ encode fields := rfl

@[simp] theorem encode_append (fields fields' : List Field) :
    encode (fields ++ fields') = encode fields ++ encode fields' := List.flatMap_append

/-- The number of bytes of a field. -/
def Field.size : Field → Nat
  | .u8 _ => 1
  | .u16 _ => 2
  | .u32 _ => 4
  | .bytes b => b.length

theorem length_encode (fields : List Field) :
    (encode fields).length = (fields.map Field.size).sum := by
  induction fields with
  | nil => rfl
  | cons f fields ih =>
    rw [encode_cons, List.length_append, ih, List.map_cons, List.sum_cons]
    cases f <;> rfl

/-- Write a field at the running offset and move behind it. -/
def put (at_ : List UInt8 × Nat) (f : Field) : Checked (List UInt8 × Nat) := do
  return (← putSlice at_.1 at_.2 f.encode, at_.2 + f.encode.length)

/-- Allocate `size` zeros and write the fields from the front. -/
def fill (size : Nat) (fields : List Field) : Checked (List UInt8) := do
  let (buf, _) ← fields.foldlM put (List.replicate size 0, 0)
  return buf

/-- Fields are written one behind the other, as long as there is room. -/
theorem foldlM_put (fields : List Field) (w : List UInt8) (n : Nat) :
    fields.foldlM put (w ++ List.replicate n 0, w.length) =
      if (encode fields).length ≤ n then
        some (w ++ encode fields ++ List.replicate (n - (encode fields).length) 0,
          (w ++ encode fields).length)
      else none := by
  induction fields generalizing w n with
  | nil => simp
  | cons f fields ih =>
    rw [List.foldlM_cons, put, encode_cons, List.length_append]
    by_cases fits : f.encode.length ≤ n
    · rw [putSlice_zeros w f.encode fits]
      have next := ih (w ++ f.encode) (n - f.encode.length)
      rw [List.length_append] at next
      simp only [Option.bind_eq_bind, Option.bind_some, Option.pure_def, next]
      by_cases rest : (encode fields).length ≤ n - f.encode.length
      · rw [if_pos rest, if_pos (by omega), Nat.sub_sub]
        simp only [List.append_assoc, List.length_append]
      · rw [if_neg rest, if_neg (by omega)]
    · rw [putSlice_eq_none w f.encode (by omega), if_neg (by omega)]
      rfl

/-- A builder writes its fields and leaves zeros behind them, or aborts where they do
    not fit. -/
theorem fill_eq (size : Nat) (fields : List Field) :
    fill size fields =
      if (encode fields).length ≤ size then
        some (encode fields ++ List.replicate (size - (encode fields).length) 0)
      else none := by
  have filled := foldlM_put fields [] size
  rw [List.nil_append, List.nil_append, List.length_nil] at filled
  rw [fill, filled]
  split <;> rfl

theorem length_le_of_fill {size : Nat} {fields : List Field} {buf : List UInt8}
    (built : fill size fields = some buf) : (encode fields).length ≤ size := by
  rw [fill_eq] at built
  by_contra long
  rw [if_neg long] at built
  cases built

-- from here on a message is what `fill_eq` says, never the run of a builder
attribute [irreducible] fill

/-! ## Reading fields -/

/-- `get_u16` at an offset. -/
def getU16 (b : List UInt8) (off : Nat) : Checked UInt16 := do
  return ofBe16 (← index b off) (← index b (off + 1))

/-- `get_u32` at an offset. -/
def getU32 (b : List UInt8) (off : Nat) : Checked UInt32 := do
  return ofBe32 (← index b off) (← index b (off + 1)) (← index b (off + 2)) (← index b (off + 3))

theorem getU32_isSome_iff (b : List UInt8) (off : Nat) :
    (getU32 b off).isSome ↔ off + 4 ≤ b.length := by
  by_cases inside : off + 3 < b.length
  · have first := index_eq_some (show off < b.length by omega)
    have second := index_eq_some (show off + 1 < b.length by omega)
    have third := index_eq_some (show off + 2 < b.length by omega)
    simp [getU32, first, second, third, index_eq_some inside]
    omega
  · have last : index b (off + 3) = none := List.getElem?_eq_none (by omega)
    have outside : ¬off + 4 ≤ b.length := by omega
    simp only [getU32, last, outside, iff_false]
    cases index b off <;> cases index b (off + 1) <;> cases index b (off + 2) <;> simp

theorem getU16_append (w rest : List UInt8) (v : UInt16) :
    getU16 (w ++ (be16 v ++ rest)) w.length = some v := by
  have read : ∀ a b, getU16 (w ++ a :: b :: rest) w.length = some (ofBe16 a b) := by
    intro a b
    simp [getU16, index]
  exact (read _ _).trans (congrArg some (ofBe16_be16 v))

theorem getU32_append (w rest : List UInt8) (v : UInt32) :
    getU32 (w ++ (be32 v ++ rest)) w.length = some v := by
  have read : ∀ a b c d, getU32 (w ++ a :: b :: c :: d :: rest) w.length =
      some (ofBe32 a b c d) := by
    intro a b c d
    simp [getU32, index]
  exact (read _ _ _ _).trans (congrArg some (ofBe32_be32 v))

theorem getU16_of_append {b : List UInt8} {off : Nat} {v : UInt16} (read : getU16 b off = some v)
    (rest : List UInt8) : getU16 (b ++ rest) off = some v := by
  obtain ⟨first, firstRead, read⟩ := Option.bind_eq_some_iff.mp read
  obtain ⟨second, secondRead, read⟩ := Option.bind_eq_some_iff.mp read
  rw [getU16, index_of_append firstRead, index_of_append secondRead]
  exact read

theorem slice_append (w b rest : List UInt8) :
    slice (w ++ (b ++ rest)) w.length (w.length + b.length) = some b := by
  rw [slice_eq_some _ (by omega) (by simp)]
  simp

/-! A field is read back at the offset that the fields in front of it add up to. -/

section

variable (before : List Field) {after : List Field} {rest : List UInt8} {off : Nat}

theorem encode_split (f : Field) (after : List Field) (rest : List UInt8) :
    encode (before ++ f :: after) ++ rest =
      encode before ++ (f.encode ++ (encode after ++ rest)) := by
  rw [encode_append, encode_cons, List.append_assoc, List.append_assoc]

/-- A 16-bit field is read back at its offset. -/
theorem getU16_encode {v : UInt16} (off_eq : (before.map Field.size).sum = off) :
    getU16 (encode (before ++ .u16 v :: after) ++ rest) off = some v := by
  rw [encode_split, ← off_eq, ← length_encode]
  exact getU16_append _ _ v

/-- A 32-bit field is read back at its offset. -/
theorem getU32_encode {v : UInt32} (off_eq : (before.map Field.size).sum = off) :
    getU32 (encode (before ++ .u32 v :: after) ++ rest) off = some v := by
  rw [encode_split, ← off_eq, ← length_encode]
  exact getU32_append _ _ v

/-- A byte string is read back at its offset. -/
theorem slice_encode {b : List UInt8} (off_eq : (before.map Field.size).sum = off) :
    slice (encode (before ++ .bytes b :: after) ++ rest) off (off + b.length) = some b := by
  rw [encode_split, ← off_eq, ← length_encode]
  exact slice_append _ b _

end

/-! ## Parsing -/

/-- A parser consumes bytes from the front, or refuses the message. -/
abbrev Parser := StateT (List UInt8) Option

namespace Parser

variable {α β : Type}

/-- Read one byte. -/
def u8 : Parser UInt8 := fun
  | a :: rest => some (a, rest)
  | _ => none

/-- Read a 16-bit number, most significant byte first. -/
def u16 : Parser UInt16 := fun
  | a :: b :: rest => some (ofBe16 a b, rest)
  | _ => none

/-- Read a 32-bit number, most significant byte first. -/
def u32 : Parser UInt32 := fun
  | a :: b :: c :: d :: rest => some (ofBe32 a b c d, rest)
  | _ => none

/-- Read a number of bytes. -/
def bytes (n : Nat) : Parser (List UInt8) := fun b =>
  if n ≤ b.length then some (b.take n, b.drop n) else none

/-- A byte string behind its 16-bit length. -/
def sized : Parser (List UInt8) := do
  let n ← u16
  bytes n.toNat

/-- Refuse the message where `p` fails. -/
def ensure (p : Prop) [Decidable p] : Parser Unit := fun b => if p then some ((), b) else none

/-- What `p` parses fills exactly the 16-bit length in front of it. -/
def within (p : Parser α) : Parser α := do
  let n ← u16
  let start ← get
  let a ← p
  let rest ← get
  ensure (start.length = n.toNat + rest.length)
  return a

/-- Nothing is left. -/
def eof : Parser Unit := fun
  | [] => some ((), [])
  | _ => none

theorem u8_bind (f : UInt8 → Parser β) (v : UInt8) (fields : List Field) :
    (u8 >>= f) (encode (.u8 v :: fields)) = f v (encode fields) := rfl

theorem u16_bind (f : UInt16 → Parser β) (v : UInt16) (fields : List Field) :
    (u16 >>= f) (encode (.u16 v :: fields)) = f v (encode fields) := by
  change f (ofBe16 _ _) (encode fields) = _
  rw [ofBe16_be16]

theorem u32_bind (f : UInt32 → Parser β) (v : UInt32) (fields : List Field) :
    (u32 >>= f) (encode (.u32 v :: fields)) = f v (encode fields) := by
  change f (ofBe32 _ _ _ _) (encode fields) = _
  rw [ofBe32_be32]

theorem bytes_bind (f : List UInt8 → Parser β) (b : List UInt8) (fields : List Field) :
    (bytes b.length >>= f) (encode (.bytes b :: fields)) = f b (encode fields) := by
  change ((if b.length ≤ (b ++ encode fields).length then
    some ((b ++ encode fields).take b.length, (b ++ encode fields).drop b.length) else none) >>=
      fun r => f r.1 r.2) = _
  rw [if_pos (by simp), List.take_left, List.drop_left]
  rfl

theorem sized_bind (f : List UInt8 → Parser β) {n : UInt16} {b : List UInt8}
    (size : n.toNat = b.length) (fields : List Field) :
    (sized >>= f) (encode (.u16 n :: .bytes b :: fields)) = f b (encode fields) := by
  rw [sized, bind_assoc, u16_bind, size, bytes_bind]

theorem sized_zero_bind (f : List UInt8 → Parser β) (fields : List Field) :
    (sized >>= f) (encode (.u16 0 :: fields)) = f [] (encode fields) :=
  sized_bind f (n := 0) (b := []) rfl fields

theorem ensure_bind {p : Prop} [Decidable p] (holds : p) (f : Unit → Parser β) (b : List UInt8) :
    (ensure p >>= f) b = f () b := by
  change ((if p then some ((), b) else none) >>= fun r => f r.1 r.2) = _
  rw [if_pos holds]
  rfl

/-- A part behind its 16-bit length. -/
theorem within_bind (p : Parser α) (f : α → Parser β) {n : UInt16} {a : α}
    {fields rest : List Field} (parsed : p (encode fields) = some (a, encode rest))
    (size : (encode fields).length = n.toNat + (encode rest).length) :
    (within p >>= f) (encode (.u16 n :: fields)) = f a (encode rest) := by
  rw [within, bind_assoc, u16_bind]
  change ((p (encode fields)).bind fun r =>
    (if (encode fields).length = n.toNat + r.2.length then some ((), r.2) else none).bind
      fun r' => some (r.1, r'.2)).bind (fun r => f r.1 r.2) = _
  rw [parsed]
  simp only [Option.bind_some, if_pos size]

theorem eof_bind (f : Unit → Parser β) : (eof >>= f) (encode []) = f () [] := rfl

end Parser

end Marshal
