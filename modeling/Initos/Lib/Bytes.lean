import Mathlib.Algebra.GroupWithZero.Nat
import Mathlib.Data.List.Basic

/-!
# Byte strings

Byte strings are `List UInt8`. An operation that a bounds check or an overflow
check would abort is `Checked`: `none` is the abort. The 64-bit address
arithmetic of lengths and offsets is checked in the same way, so that a result
`some` says at once that every index was in range and no sum overflowed.

The second half is about buffers that are allocated as zeros and then filled from
the front, field by field: after the fields `w` the buffer is `w` followed by the
zeros that are left (`putSlice_zeros`).
-/

namespace Bytes

/-- A computation that may abort: `none` is a failed bounds or overflow check. -/
abbrev Checked (α : Type) := Option α

/-- `b[i]`. -/
def index (b : List UInt8) (i : Nat) : Checked UInt8 := b[i]?

/-- `b[lo..hi]`. -/
def slice (b : List UInt8) (lo hi : Nat) : Checked (List UInt8) :=
  if lo ≤ hi ∧ hi ≤ b.length then some ((b.drop lo).take (hi - lo)) else none

/-- The sum or product `n` of sizes does not overflow 64 bits. -/
def fits (n : Nat) : Checked Unit := if n < 2 ^ 64 then some () else none

/-- Subtraction of 64-bit sizes. -/
def subSize (m n : Nat) : Checked Nat := if n ≤ m then some (m - n) else none

theorem slice_eq_some (b : List UInt8) {lo hi : Nat} (h₁ : lo ≤ hi) (h₂ : hi ≤ b.length) :
    slice b lo hi = some ((b.drop lo).take (hi - lo)) := if_pos ⟨h₁, h₂⟩

theorem slice_eq_some_iff {b s : List UInt8} {lo hi : Nat} :
    slice b lo hi = some s ↔ lo ≤ hi ∧ hi ≤ b.length ∧ s = (b.drop lo).take (hi - lo) := by
  unfold slice
  split
  · rename_i h
    simp only [Option.some.injEq, h, true_and]
    exact eq_comm
  · rename_i h
    simp only [reduceCtorEq, false_iff]
    rintro ⟨h₁, h₂, -⟩
    exact h ⟨h₁, h₂⟩

theorem fits_of_lt {n : Nat} (h : n < 2 ^ 64) : fits n = some () := if_pos h

theorem subSize_eq_some {m n : Nat} (h : n ≤ m) : subSize m n = some (m - n) := if_pos h

/-! ## Fixed-width integers -/

/-- The value of two little-endian bytes. -/
def ofLe16 (a b : UInt8) : Nat := a.toNat + 2 ^ 8 * b.toNat

/-- The value of four little-endian bytes. -/
def ofLe32 (a b c d : UInt8) : Nat :=
  a.toNat + 2 ^ 8 * b.toNat + 2 ^ 16 * c.toNat + 2 ^ 24 * d.toNat

theorem ofLe32_lt (a b c d : UInt8) : ofLe32 a b c d < 2 ^ 32 := by
  have := a.toNat_lt; have := b.toNat_lt; have := c.toNat_lt; have := d.toNat_lt
  unfold ofLe32; omega

/-- The four bytes at `off`, read as a little-endian number. -/
def readLe32 (b : List UInt8) (off : Nat) : Checked Nat := do
  return ofLe32 (← index b off) (← index b (off + 1)) (← index b (off + 2)) (← index b (off + 3))

/-- The number `readLe32` reads where it does not abort. -/
def le32At (b : List UInt8) (off : Nat) : Nat :=
  ofLe32 (b.getD off 0) (b.getD (off + 1) 0) (b.getD (off + 2) 0) (b.getD (off + 3) 0)

theorem le32At_lt (b : List UInt8) (off : Nat) : le32At b off < 2 ^ 32 := ofLe32_lt ..

theorem index_eq_some {b : List UInt8} {i : Nat} (h : i < b.length) :
    index b i = some (b.getD i 0) := by
  simp [index, List.getD, List.getElem?_eq_getElem h]

theorem readLe32_eq_some (b : List UInt8) (off : Nat) (h : off + 4 ≤ b.length) :
    readLe32 b off = some (le32At b off) := by
  simp only [readLe32, index_eq_some (show off < b.length by omega),
    index_eq_some (show off + 1 < b.length by omega),
    index_eq_some (show off + 2 < b.length by omega),
    index_eq_some (show off + 3 < b.length by omega)]
  rfl

/-- The four little-endian bytes of a number below `2 ^ 32`. -/
def le32 (n : Nat) : List UInt8 :=
  [UInt8.ofNat n, UInt8.ofNat (n / 2 ^ 8), UInt8.ofNat (n / 2 ^ 16), UInt8.ofNat (n / 2 ^ 24)]

@[simp] theorem length_le32 (n : Nat) : (le32 n).length = 4 := rfl

/-- The bytes of a number read back as the number, wherever they stand. -/
theorem le32At_append {n : Nat} (small : n < 2 ^ 32) (before after : List UInt8) :
    le32At (before ++ (le32 n ++ after)) before.length = n := by
  have byte : ∀ i, (before ++ (le32 n ++ after)).getD (before.length + i) 0 =
      (le32 n ++ after).getD i 0 := by
    intro i
    rw [List.getD_eq_getElem?_getD, List.getElem?_append_right (Nat.le_add_right _ _),
      Nat.add_sub_cancel_left, ← List.getD_eq_getElem?_getD]
  have first := byte 0
  rw [Nat.add_zero] at first
  rw [le32At, first, byte 1, byte 2, byte 3]
  simp only [le32, List.cons_append, List.nil_append, List.getD_cons_zero, List.getD_cons_succ,
    ofLe32, UInt8.toNat_ofNat']
  omega

/-- The two little-endian bytes of a number below `2 ^ 16`. -/
def le16 (n : Nat) : List UInt8 := [UInt8.ofNat n, UInt8.ofNat (n / 2 ^ 8)]

@[simp] theorem length_le16 (n : Nat) : (le16 n).length = 2 := rfl

theorem ofLe16_le16 {n : Nat} (small : n < 2 ^ 16) :
    ofLe16 (UInt8.ofNat n) (UInt8.ofNat (n / 2 ^ 8)) = n := by
  simp only [ofLe16, UInt8.toNat_ofNat']
  omega

theorem ofLe32_le32 {n : Nat} (small : n < 2 ^ 32) :
    ofLe32 (UInt8.ofNat n) (UInt8.ofNat (n / 2 ^ 8)) (UInt8.ofNat (n / 2 ^ 16))
      (UInt8.ofNat (n / 2 ^ 24)) = n := by
  simp only [ofLe32, UInt8.toNat_ofNat']
  omega

/-- The little-endian bytes of a number, cut to a width. -/
def leBytes : (width : Nat) → Nat → List UInt8
  | 0, _ => []
  | width + 1, n => UInt8.ofNat n :: leBytes width (n / 2 ^ 8)

/-- The number that little-endian bytes stand for. -/
def leValue (b : List UInt8) : Nat := b.foldr (fun byte n => byte.toNat + 2 ^ 8 * n) 0

@[simp] theorem length_leBytes (width n : Nat) : (leBytes width n).length = width := by
  induction width generalizing n with
  | zero => rfl
  | succ width ih => rw [leBytes, List.length_cons, ih]

/-- A number is cut off at the width. -/
theorem leValue_leBytes (width n : Nat) : leValue (leBytes width n) = n % (2 ^ 8) ^ width := by
  induction width generalizing n with
  | zero => rw [Nat.pow_zero, Nat.mod_one]; rfl
  | succ width ih =>
    have tail := ih (n / 2 ^ 8)
    have split : (2 ^ 8) ^ (width + 1) = 2 ^ 8 * (2 ^ 8) ^ width := Nat.pow_succ'
    rw [leValue] at tail
    rw [leBytes, leValue, List.foldr_cons, tail, UInt8.toNat_ofNat', split, Nat.mod_mul]

theorem leValue_replicate_zero (width : Nat) : leValue (List.replicate width 0) = 0 := by
  induction width with
  | zero => rfl
  | succ width ih =>
    rw [leValue] at ih
    rw [List.replicate_succ, leValue, List.foldr_cons, ih]
    rfl

/-! What is read of a part does not depend on what stands in front of it. -/

/-- An index into the second part. -/
theorem index_append_right (before b : List UInt8) (i : Nat) :
    index (before ++ b) (before.length + i) = index b i := by
  rw [index, List.getElem?_append_right (Nat.le_add_right _ _), Nat.add_sub_cancel_left, index]

/-- A slice of the second part. -/
theorem slice_append_right (before b : List UInt8) (lo hi : Nat) :
    slice (before ++ b) (before.length + lo) (before.length + hi) = slice b lo hi := by
  simp only [slice, List.length_append, Nat.add_le_add_iff_left, List.drop_append,
    Nat.add_sub_add_left]
  rw [List.drop_eq_nil_of_le (Nat.le_add_right _ _), List.nil_append, Nat.add_sub_cancel_left]

theorem readLe32_append_right (before b : List UInt8) (off : Nat) :
    readLe32 (before ++ b) (before.length + off) = readLe32 b off := by
  simp only [readLe32, Nat.add_assoc, index_append_right]

/-! What is read of a part does not depend on what stands behind it. -/

/-- What was read stays the same when bytes are appended. -/
theorem index_of_append {b : List UInt8} {i : Nat} {v : UInt8} (read : index b i = some v)
    (rest : List UInt8) : index (b ++ rest) i = some v := by
  have inside : i < b.length := (List.getElem?_eq_some_iff.mp read).1
  rw [index, List.getElem?_append_left inside]
  exact read

theorem slice_of_append {b s : List UInt8} {lo hi : Nat} (cut : slice b lo hi = some s)
    (rest : List UInt8) : slice (b ++ rest) lo hi = some s := by
  obtain ⟨ordered, inside, rfl⟩ := slice_eq_some_iff.mp cut
  rw [slice_eq_some _ ordered (by rw [List.length_append]; omega), List.drop_append_of_le_length
    (by omega), List.take_append_of_le_length (by rw [List.length_drop]; omega)]

/-- `v.to_be_bytes()` of a 16-bit number. -/
def be16 (v : UInt16) : List UInt8 := [UInt8.ofNat (v.toNat / 2 ^ 8), UInt8.ofNat v.toNat]

@[simp] theorem length_be16 (v : UInt16) : (be16 v).length = 2 := rfl

/-- `v.to_be_bytes()` of a 32-bit number. -/
def be32 (v : UInt32) : List UInt8 :=
  [UInt8.ofNat (v.toNat / 2 ^ 24), UInt8.ofNat (v.toNat / 2 ^ 16), UInt8.ofNat (v.toNat / 2 ^ 8),
    UInt8.ofNat v.toNat]

@[simp] theorem length_be32 (v : UInt32) : (be32 v).length = 4 := rfl

/-- The value of two big-endian bytes. -/
def ofBe16 (a b : UInt8) : UInt16 := UInt16.ofNat (2 ^ 8 * a.toNat + b.toNat)

/-- The value of four big-endian bytes. -/
def ofBe32 (a b c d : UInt8) : UInt32 :=
  UInt32.ofNat (2 ^ 24 * a.toNat + 2 ^ 16 * b.toNat + 2 ^ 8 * c.toNat + d.toNat)

@[simp] theorem ofBe16_be16 (v : UInt16) :
    ofBe16 (UInt8.ofNat (v.toNat / 2 ^ 8)) (UInt8.ofNat v.toNat) = v := by
  apply UInt16.toNat.inj
  have := v.toNat_lt
  simp only [ofBe16, UInt16.toNat_ofNat', UInt8.toNat_ofNat']
  omega

@[simp] theorem ofBe32_be32 (v : UInt32) :
    ofBe32 (UInt8.ofNat (v.toNat / 2 ^ 24)) (UInt8.ofNat (v.toNat / 2 ^ 16))
      (UInt8.ofNat (v.toNat / 2 ^ 8)) (UInt8.ofNat v.toNat) = v := by
  apply UInt32.toNat.inj
  have := v.toNat_lt
  simp only [ofBe32, UInt32.toNat_ofNat', UInt8.toNat_ofNat']
  omega

/-! ## Buffers filled from the front -/

/-- `buf[off..off + src.len()].copy_from_slice(src)`. -/
def putSlice (buf : List UInt8) (off : Nat) (src : List UInt8) : Checked (List UInt8) :=
  if off + src.length ≤ buf.length then
    some (buf.take off ++ src ++ buf.drop (off + src.length))
  else none

/-- Writing the next field of a buffer that holds `w` and `n` zeros. -/
theorem putSlice_zeros (w src : List UInt8) {n : Nat} (h : src.length ≤ n) :
    putSlice (w ++ List.replicate n 0) w.length src =
      some ((w ++ src) ++ List.replicate (n - src.length) 0) := by
  unfold putSlice
  rw [if_pos (by simpa using h)]
  simp [List.drop_append]

/-- A field that does not fit aborts. -/
theorem putSlice_eq_none (w src : List UInt8) {n : Nat} (h : n < src.length) :
    putSlice (w ++ List.replicate n 0) w.length src = none :=
  if_neg (by simpa using h)

end Bytes
