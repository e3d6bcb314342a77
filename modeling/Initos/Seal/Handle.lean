import Initos.Seal.Command
import Initos.Tpm2.Semantics

/-!
# Reading a TPM handle

What `parse_tpm_handle` accepts, as a grammar of the text without whitespace around it: up to
four digits name the low half of a persistent handle, any other digits the whole of one.
-/

namespace Initos.Seal

open Tpm2

/-- One to four digits: the low half of a handle. -/
def IsShort (text : String) : Prop :=
  text.toList ≠ [] ∧ text.toList.length ≤ 4 ∧ ∀ c ∈ text.toList, Text.isHexDigit c = true

/-- At least one digit, behind an optional `0x` or `0X`. -/
def HasDigits (text : String) (digits : List Char) : Prop :=
  digits ≠ [] ∧ (∀ c ∈ digits, Text.isHexDigit c = true) ∧
    ∃ mark ∈ ["", "0x", "0X"], text.toList = mark.toList ++ digits

/-- The text, without whitespace around it, names the handle. -/
def Names (text : String) (handle : UInt32) : Prop :=
  IsShort text ∧ handle = 0x81000000 ||| UInt32.ofNat (Text.hexValue text.toList) ∨
    ¬IsShort text ∧ ∃ digits, HasDigits text digits ∧
      0x81000000 ≤ Text.hexValue digits ∧ Text.hexValue digits ≤ 0x81FFFFFF ∧
      handle.toNat = Text.hexValue digits

theorem u32FromHex_ok_iff {digits : List Char} {v : UInt32} :
    u32FromHex digits = .ok v ↔
      digits ≠ [] ∧ Text.hexValue digits < 2 ^ 32 ∧ v = UInt32.ofNat (Text.hexValue digits) := by
  rw [u32FromHex]
  by_cases empty : digits = []
  · simp [empty]
  · rw [if_neg empty]
    by_cases small : Text.hexValue digits < 2 ^ 32
    · rw [if_pos small, Except.ok.injEq]
      exact ⟨fun same => ⟨empty, small, same.symm⟩, fun ⟨_, _, same⟩ => same.symm⟩
    · rw [if_neg small]
      exact ⟨nofun, fun ⟨_, fits, _⟩ => absurd fits small⟩

/-- How the text is taken apart: whether a mark stands in front, and the rest. -/
structure Splits (text : String) (marked : Bool) (digits : List Char) : Prop where
  stripped : ((Text.stripPrefix text "0x").or (Text.stripPrefix text "0X")).getD text =
    String.ofList digits
  starts : (!Text.startsWith text "0x" && !Text.startsWith text "0X") = !marked
  chars : if marked then ∃ mark ∈ ["0x", "0X"], text.toList = mark.toList ++ digits
    else text.toList = digits

theorem exists_splits (text : String) : ∃ marked digits, Splits text marked digits := by
  cases lower : Text.startsWith text "0x" with
  | true =>
    obtain ⟨digits, chars⟩ := (Text.startsWith_iff text "0x").mp lower
    exact ⟨true, digits, by rw [Text.stripPrefix_eq chars]; rfl, by rw [lower]; rfl,
      "0x", by simp, chars⟩
  | false =>
    cases upper : Text.startsWith text "0X" with
    | true =>
      obtain ⟨digits, chars⟩ := (Text.startsWith_iff text "0X").mp upper
      exact ⟨true, digits, by rw [Text.stripPrefix_eq_none lower, Text.stripPrefix_eq chars]; rfl,
        by rw [lower, upper]; rfl, "0X", by simp, chars⟩
    | false =>
      refine ⟨false, text.toList, ?_, by rw [lower, upper]; rfl, rfl⟩
      rw [Text.stripPrefix_eq_none lower, Text.stripPrefix_eq_none upper]
      exact String.ofList_toList.symm

/-- The handle, before its range is looked at. -/
def handleOf (marked : Bool) (digits : List Char) : UInt32 :=
  if !marked && decide (digits.length ≤ 4) then 0x81000000 ||| UInt32.ofNat (Text.hexValue digits)
  else UInt32.ofNat (Text.hexValue digits)

theorem parseTpmHandle_splits {value : String} {marked : Bool} {digits : List Char}
    (splits : Splits (Text.trim value) marked digits) (handle : UInt32) :
    parseTpmHandle value = .ok handle ↔
      digits ≠ [] ∧ (∀ c ∈ digits, Text.isHexDigit c = true) ∧ Text.hexValue digits < 2 ^ 32 ∧
        handle = handleOf marked digits ∧ IsPersistent handle := by
  rw [parseTpmHandle, splits.stripped, splits.starts]
  dsimp only
  rw [String.toList_ofList]
  by_cases empty : Text.trim value = ""
  · have noDigits : digits = [] := by
      have stripped := splits.stripped
      rw [empty] at stripped
      exact (String.ofList_eq_empty_iff.mp stripped.symm)
    simp [empty, noDigits]
  · rw [if_neg empty]
    by_cases allHex : ∀ c ∈ digits, Text.isHexDigit c = true
    · rw [if_neg (by simpa using allHex)]
      cases parsed : u32FromHex digits with
      | error e =>
        refine ⟨nofun, fun ⟨nonempty, _, small, _⟩ => ?_⟩
        rw [u32FromHex_ok_iff.mpr ⟨nonempty, small, rfl⟩] at parsed
        cases parsed
      | ok v =>
        obtain ⟨nonempty, small, rfl⟩ := u32FromHex_ok_iff.mp parsed
        change (if IsPersistent (handleOf marked digits) then Except.ok (handleOf marked digits)
          else .error _) = _ ↔ _
        split
        next inRange =>
          rw [Except.ok.injEq]
          exact ⟨fun same => ⟨nonempty, allHex, small, same.symm, same ▸ inRange⟩,
            fun ⟨_, _, _, same, _⟩ => same.symm⟩
        next outside =>
          exact ⟨nofun, fun ⟨_, _, _, same, inRange⟩ => absurd (same ▸ inRange) outside⟩
    · rw [if_pos (by simpa using allHex)]
      simp [allHex]

/-! The two kinds of text, by how the parser takes them apart. -/

section

variable {text : String} {marked : Bool} {digits : List Char} (splits : Splits text marked digits)

include splits

theorem not_hex_of_marked (isMarked : marked = true) :
    ¬∀ c ∈ text.toList, Text.isHexDigit c = true := by
  intro allHex
  subst isMarked
  obtain ⟨mark, member, chars⟩ := splits.chars
  rw [chars] at allHex
  rcases List.mem_pair.mp member with rfl | rfl
  · exact absurd (allHex 'x' (by simp)) (by decide)
  · exact absurd (allHex 'X' (by simp)) (by decide)

theorem isShort_iff :
    IsShort text ↔ marked = false ∧ digits ≠ [] ∧ digits.length ≤ 4 ∧
      ∀ c ∈ digits, Text.isHexDigit c = true := by
  cases isMarked : marked with
  | true => exact ⟨fun short => absurd short.2.2 (not_hex_of_marked splits isMarked), nofun⟩
  | false =>
    subst isMarked
    have chars : text.toList = digits := splits.chars
    rw [IsShort, chars]
    simp

theorem hasDigits_iff (ds : List Char) :
    HasDigits text ds ↔ ds = digits ∧ digits ≠ [] ∧ ∀ c ∈ digits, Text.isHexDigit c = true := by
  constructor
  · rintro ⟨nonempty, allHex, mark, member, chars⟩
    suffices same : ds = digits from ⟨same, same ▸ nonempty, same ▸ allHex⟩
    cases isMarked : marked with
    | false =>
      subst isMarked
      have bare : text.toList = digits := splits.chars
      have starts := splits.starts
      simp only [Bool.not_false, Bool.and_eq_true, Bool.not_eq_eq_eq_not, Bool.not_true] at starts
      rcases List.mem_cons.mp member with rfl | member
      · rw [← bare, chars]
        rfl
      · have begins := (Text.startsWith_iff text mark).mpr ⟨ds, chars⟩
        rcases List.mem_pair.mp member with rfl | rfl
        · rw [starts.1] at begins
          cases begins
        · rw [starts.2] at begins
          cases begins
    | true =>
      rcases List.mem_cons.mp member with rfl | member
      · have noHex := not_hex_of_marked splits isMarked
        rw [chars] at noHex
        exact absurd allHex noHex
      · subst isMarked
        obtain ⟨mark', member', chars'⟩ := splits.chars
        have length (m : String) (two : m ∈ ["0x", "0X"]) : m.toList.length = 2 := by
          rcases List.mem_pair.mp two with rfl | rfl <;> rfl
        rw [chars] at chars'
        exact (List.append_inj chars' ((length mark member).trans (length mark' member').symm)).2
  · rintro ⟨rfl, nonempty, allHex⟩
    refine ⟨nonempty, allHex, ?_⟩
    cases isMarked : marked with
    | false =>
      subst isMarked
      exact ⟨"", by simp, splits.chars⟩
    | true =>
      subst isMarked
      obtain ⟨mark, member, chars⟩ := splits.chars
      exact ⟨mark, List.mem_cons_of_mem _ member, chars⟩

end

/-- Four digits fill in the low half. -/
theorem toNat_short {v : Nat} (small : v < 2 ^ 16) :
    (0x81000000 ||| UInt32.ofNat v).toNat = 0x81000000 + v := by
  rw [UInt32.toNat_or, UInt32.toNat_ofNat_of_lt' (Nat.lt_trans small (by decide))]
  exact (Nat.two_pow_add_eq_or_of_lt (show v < 2 ^ 24 by omega) 0x81).symm

theorem isPersistent_iff (handle : UInt32) :
    IsPersistent handle ↔ 0x81000000 ≤ handle.toNat ∧ handle.toNat ≤ 0x81FFFFFF := by
  rw [IsPersistent, UInt32.le_iff_toNat_le, UInt32.le_iff_toNat_le]
  rfl

theorem isPersistent_of_names {text : String} {handle : UInt32} (names : Names text handle) :
    IsPersistent handle := by
  rw [isPersistent_iff]
  obtain ⟨⟨-, length, allHex⟩, rfl⟩ | ⟨-, digits, -, low, high, value⟩ := names
  · have small : Text.hexValue text.toList < 2 ^ 16 :=
      calc Text.hexValue text.toList < 16 ^ text.toList.length := Text.hexValue_lt allHex
        _ ≤ 16 ^ 4 := Nat.pow_le_pow_right (by decide) length
        _ = 2 ^ 16 := by decide
    rw [toNat_short small]
    omega
  · omega

theorem parseTpmHandle_iff_names (value : String) (handle : UInt32) :
    parseTpmHandle value = .ok handle ↔ Names (Text.trim value) handle := by
  obtain ⟨marked, digits, splits⟩ := exists_splits (Text.trim value)
  rw [parseTpmHandle_splits splits]
  by_cases short : IsShort (Text.trim value)
  · have bare := (isShort_iff splits).mp short
    obtain ⟨rfl, nonempty, length, allHex⟩ := bare
    have chars : (Text.trim value).toList = digits := splits.chars
    have handleShort : handleOf false digits =
        0x81000000 ||| UInt32.ofNat (Text.hexValue (Text.trim value).toList) := by
      rw [handleOf, if_pos (by simpa using length), chars]
    constructor
    · rintro ⟨-, -, -, same, -⟩
      exact .inl ⟨short, same.trans handleShort⟩
    · intro names
      have inRange := isPersistent_of_names names
      obtain ⟨-, same⟩ | ⟨long, -⟩ := names
      · have small : Text.hexValue digits < 2 ^ 32 :=
          calc Text.hexValue digits < 16 ^ digits.length := Text.hexValue_lt allHex
            _ ≤ 16 ^ 4 := Nat.pow_le_pow_right (by decide) length
            _ < 2 ^ 32 := by decide
        exact ⟨nonempty, allHex, small, same.trans handleShort.symm, inRange⟩
      · exact absurd short long
  · have handleLong (nonempty : digits ≠ []) (allHex : ∀ c ∈ digits, Text.isHexDigit c = true) :
        handleOf marked digits = UInt32.ofNat (Text.hexValue digits) := by
      rw [handleOf, if_neg]
      intro both
      rw [Bool.and_eq_true, Bool.not_eq_true', decide_eq_true_eq] at both
      exact short ((isShort_iff splits).mpr ⟨both.1, nonempty, both.2, allHex⟩)
    constructor
    · rintro ⟨nonempty, allHex, small, same, inRange⟩
      have value : handle.toNat = Text.hexValue digits := by
        rw [same, handleLong nonempty allHex, UInt32.toNat_ofNat_of_lt' small]
      rw [isPersistent_iff, value] at inRange
      exact .inr ⟨short, digits, (hasDigits_iff splits digits).mpr ⟨rfl, nonempty, allHex⟩,
        inRange.1, inRange.2, value⟩
    · intro names
      have inRange := isPersistent_of_names names
      obtain ⟨isShort, -⟩ | ⟨-, ds, hasDigits, low, high, value⟩ := names
      · exact absurd isShort short
      · obtain ⟨rfl, nonempty, allHex⟩ := (hasDigits_iff splits ds).mp hasDigits
        refine ⟨nonempty, allHex, Nat.lt_of_le_of_lt high (by decide), ?_, inRange⟩
        rw [handleLong nonempty allHex, ← value, UInt32.ofNat_toNat]

/-- A persistent handle, written with eight digits of either case. -/
theorem names_rendering {handle : UInt32} (inRange : IsPersistent handle) {digit : Nat → Char}
    (writes : Text.WritesHex digit) {mark : String} (member : mark ∈ ["", "0x", "0X"])
    {text : String} (chars : text.toList = mark.toList ++ Text.eightDigits digit handle.toNat) :
    Names text handle := by
  rw [isPersistent_iff] at inRange
  have value := Text.hexValue_eightDigits writes handle.toNat_lt
  refine .inr ⟨fun short => ?_, _, ⟨by simp [Text.eightDigits],
    fun c => Text.isHexDigit_of_mem_eightDigits writes, mark, member, chars⟩, ?_⟩
  · have length := short.2.1
    rw [chars, List.length_append] at length
    simp [Text.eightDigits] at length
  · rw [value]
    exact ⟨inRange.1, inRange.2, rfl⟩

theorem parseTpmHandle_rendering {handle : UInt32} (inRange : IsPersistent handle)
    {digit : Nat → Char} (writes : Text.WritesHex digit) {mark digits : String}
    (member : mark ∈ ["", "0x", "0X"])
    (chars : digits.toList = Text.eightDigits digit handle.toNat) :
    parseTpmHandle (mark ++ digits) = .ok handle := by
  have whole : (mark ++ digits).toList = mark.toList ++ Text.eightDigits digit handle.toNat := by
    rw [String.toList_append, chars]
  have noBlank : ∀ c ∈ (mark ++ digits).toList, Text.isWhitespace c = false := by
    intro c inText
    rw [whole] at inText
    rcases List.mem_append.mp inText with inMark | inDigits
    · have blankFree : ∀ c ∈ mark.toList, Text.isWhitespace c = false := by
        rcases List.mem_cons.mp member with rfl | member
        · exact nofun
        · rcases List.mem_pair.mp member with rfl | rfl <;> exact Text.forall_chars rfl
      exact blankFree c inMark
    · exact Text.not_isWhitespace_of_isHexDigit (Text.isHexDigit_of_mem_eightDigits writes inDigits)
  have trimmed : Text.trim (mark ++ digits) = mark ++ digits := Text.trim_eq_self noBlank
  rw [parseTpmHandle_iff_names, trimmed]
  exact names_rendering inRange writes member whole

/-- The text is accepted exactly if it names the handle. -/
theorem parseTpmHandle_grammar (value : String) (handle : UInt32) :
    (parseTpmHandle value = .ok handle ↔ Names (Text.trim value) handle) ∧
    (parseTpmHandle value = .ok handle → IsPersistent handle) ∧
    (IsPersistent handle → ∀ mark ∈ ["", "0x", "0X"],
      parseTpmHandle (mark ++ Text.hex32 handle.toNat) = .ok handle ∧
      parseTpmHandle (mark ++ Text.hex32Upper handle.toNat) = .ok handle) := by
  have grammar := parseTpmHandle_iff_names value handle
  refine ⟨grammar, fun ok => isPersistent_of_names (grammar.mp ok), fun inRange mark member => ?_⟩
  exact ⟨parseTpmHandle_rendering inRange Text.writesHex_lower member (Text.toList_hex32 _),
    parseTpmHandle_rendering inRange Text.writesHex_upper member (Text.toList_hex32Upper _)⟩

theorem parseTpmHandle_grammar_dev :
    parseTpmHandle " 1001\n" = .ok 0x81001001 ∧ parseTpmHandle "0x81001001" = .ok 0x81001001 := by
  have short : parseTpmHandle " 1001\n" = .ok 0x81001001 :=
    (parseTpmHandle_grammar " 1001\n" 0x81001001).1.mpr
      (.inl ⟨⟨by decide, by decide, Text.forall_chars (by decide)⟩, by decide⟩)
  obtain ⟨-, inRange, rendered⟩ := parseTpmHandle_grammar " 1001\n" 0x81001001
  exact ⟨short, (rendered (inRange short) "0x" (by simp)).1⟩

end Initos.Seal
