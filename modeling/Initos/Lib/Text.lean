import Mathlib.Algebra.Group.Nat.Defs
import Mathlib.Data.List.Basic
import Mathlib.Data.List.Induction

/-!
# Text

The operations on Unicode strings that systems code in Rust uses, with the
behaviour its standard library documents. They are defined on lists of
characters and lifted to `String`.
-/

namespace Text

/-- The Unicode property `White_Space`, as `char::is_whitespace` uses it. -/
def isWhitespace (c : Char) : Bool :=
  let n := c.toNat
  (0x09 ≤ n && n ≤ 0x0D) || n == 0x20 || n == 0x85 || n == 0xA0 || n == 0x1680 ||
    (0x2000 ≤ n && n ≤ 0x200A) || n == 0x2028 || n == 0x2029 || n == 0x202F || n == 0x205F ||
    n == 0x3000

/-- A property of all characters of a text is decided along the text, not over all of Unicode. -/
theorem forall_chars {p : Char → Prop} [DecidablePred p] {cs : List Char}
    (all : cs.all (p ·) = true) : ∀ c ∈ cs, p c := by
  simpa using all

/-- `str::trim_end`. -/
def trimEnd (s : String) : String :=
  String.ofList (s.toList.reverse.dropWhile isWhitespace).reverse

/-- `str::trim`. -/
def trim (s : String) : String :=
  String.ofList ((s.toList.dropWhile isWhitespace).reverse.dropWhile isWhitespace).reverse

/-- What a text is after whitespace in front of it has been dropped. -/
theorem dropWhile_blank {blank core : List Char} (blanks : ∀ c ∈ blank, isWhitespace c = true)
    (first : ∀ c ∈ core.head?, isWhitespace c = false) :
    (blank ++ core).dropWhile isWhitespace = core := by
  rw [List.dropWhile_append_of_pos blanks]
  cases core with
  | nil => rfl
  | cons c core => rw [List.dropWhile_cons_of_neg (by simpa using first c rfl)]

theorem trimEnd_append {core blank : List Char} (blanks : ∀ c ∈ blank, isWhitespace c = true)
    (last : ∀ c ∈ core.getLast?, isWhitespace c = false) :
    trimEnd (String.ofList (core ++ blank)) = String.ofList core := by
  rw [trimEnd, String.toList_ofList, List.reverse_append, dropWhile_blank, List.reverse_reverse]
  · exact fun c member => blanks c (List.mem_reverse.mp member)
  · rwa [List.head?_reverse]

theorem trim_append {core blank : List Char} (blanks : ∀ c ∈ blank, isWhitespace c = true)
    (first : ∀ c ∈ core.head?, isWhitespace c = false)
    (last : ∀ c ∈ core.getLast?, isWhitespace c = false) :
    trim (String.ofList (core ++ blank)) = String.ofList core := by
  have trimmed := trimEnd_append blanks last
  rw [trimEnd, String.toList_ofList] at trimmed
  rw [trim, String.toList_ofList]
  cases core with
  | nil =>
    have dropped : blank.dropWhile isWhitespace = [] := by
      simpa using @dropWhile_blank blank [] blanks (by simp)
    rw [List.nil_append, dropped]
    rfl
  | cons c core =>
    rwa [List.cons_append, List.dropWhile_cons_of_neg (by simpa using first c rfl)]

theorem trim_eq_self {s : String} (noBlank : ∀ c ∈ s.toList, isWhitespace c = false) :
    trim s = s := by
  have trimmed : trim (String.ofList (s.toList ++ [])) = String.ofList s.toList :=
    trim_append nofun (fun c head => noBlank c (List.mem_of_mem_head? head))
      (fun c last => noBlank c (List.mem_of_mem_getLast? last))
  rwa [List.append_nil, String.ofList_toList] at trimmed

/-- `str::trim_start_matches(c)` for a character pattern. -/
def trimStartMatches (c : Char) (s : String) : String :=
  String.ofList (s.toList.dropWhile (· == c))

/-- `str::starts_with`. -/
def startsWith (s pat : String) : Bool := pat.toList.isPrefixOf s.toList

/-- `str::ends_with`. -/
def endsWith (s pat : String) : Bool := pat.toList.isSuffixOf s.toList

/-- `str::strip_prefix`. -/
def stripPrefix (s pat : String) : Option String :=
  if startsWith s pat then some (String.ofList (s.toList.drop pat.toList.length)) else none

theorem startsWith_iff (s pat : String) :
    startsWith s pat = true ↔ ∃ rest, s.toList = pat.toList ++ rest := by
  rw [startsWith, List.isPrefixOf_iff_prefix]
  exact ⟨fun ⟨rest, same⟩ => ⟨rest, same.symm⟩, fun ⟨rest, same⟩ => ⟨rest, same.symm⟩⟩

theorem stripPrefix_eq {s pat : String} {rest : List Char}
    (begins : s.toList = pat.toList ++ rest) : stripPrefix s pat = some (String.ofList rest) := by
  rw [stripPrefix, if_pos ((startsWith_iff s pat).mpr ⟨rest, begins⟩), begins, List.drop_left]

theorem stripPrefix_eq_none {s pat : String} (other : startsWith s pat = false) :
    stripPrefix s pat = none := by
  rw [stripPrefix, other]
  rfl

/-- `str::replace(c, with)` for a character pattern. -/
def replaceChar (s : String) (c : Char) (new : String) : String :=
  String.ofList (s.toList.flatMap fun x => if x = c then new.toList else [x])

/-- `char::is_ascii_digit`. -/
def isDigit (c : Char) : Bool := 48 ≤ c.toNat && c.toNat ≤ 57

/-- The value of decimal digits. -/
def digitsValue (cs : List Char) : Nat := cs.foldl (fun n c => 10 * n + (c.toNat - 48)) 0

theorem digitsValue_toString (n : Nat) : digitsValue (toString n).toList = n := by
  rw [Nat.toString_eq_repr, Nat.toList_repr]
  exact Nat.ofDigitChars_ten_toDigits

/-- `str::parse::<u32>`. -/
def parseU32 (s : String) : Option Nat :=
  let digits := match s.toList with
    | '+' :: rest => rest
    | cs => cs
  if digits ≠ [] ∧ digits.all isDigit ∧ digitsValue digits < 2 ^ 32 then some (digitsValue digits)
  else none

/-- `char::is_ascii_hexdigit`. -/
def isHexDigit (c : Char) : Bool :=
  isDigit c || (97 ≤ c.toNat && c.toNat ≤ 102) || (65 ≤ c.toNat && c.toNat ≤ 70)

/-- The value of a hexadecimal digit. -/
def hexDigitValue (c : Char) : Nat :=
  if isDigit c then c.toNat - 48 else if 97 ≤ c.toNat then c.toNat - 87 else c.toNat - 55

/-- The value of hexadecimal digits. -/
def hexValue (cs : List Char) : Nat := cs.foldl (fun n c => 16 * n + hexDigitValue c) 0

theorem hexDigitValue_lt {c : Char} (digit : isHexDigit c = true) : hexDigitValue c < 16 := by
  simp only [isHexDigit, isDigit, Bool.or_eq_true, Bool.and_eq_true, decide_eq_true_eq] at digit
  simp only [hexDigitValue, isDigit, Bool.and_eq_true, decide_eq_true_eq]
  split
  · omega
  · split <;> omega

theorem hexValue_lt {cs : List Char} (digits : ∀ c ∈ cs, isHexDigit c = true) :
    hexValue cs < 16 ^ cs.length := by
  induction cs using List.reverseRecOn with
  | nil => decide
  | append_singleton cs c ih =>
    have digit := hexDigitValue_lt (digits c (by simp))
    have front := ih fun x member => digits x (List.mem_append_left _ member)
    rw [hexValue, List.foldl_append, List.length_append, List.length_singleton, Nat.pow_succ]
    change 16 * hexValue cs + hexDigitValue c < _
    omega

theorem not_isWhitespace_of_isHexDigit {c : Char} (digit : isHexDigit c = true) :
    isWhitespace c = false := by
  simp only [isHexDigit, isDigit, Bool.or_eq_true, Bool.and_eq_true, decide_eq_true_eq] at digit
  simp only [isWhitespace, Bool.or_eq_false_iff, Bool.and_eq_false_iff, decide_eq_false_iff_not,
    beq_eq_false_iff_ne]
  omega

/-- `str::as_bytes`. -/
def asBytes (s : String) : List UInt8 := s.toList.flatMap String.utf8EncodeChar

/-- Drop one trailing carriage return. -/
def stripCr (line : List Char) : List Char :=
  if line.getLast? = some '\r' then line.dropLast else line

/-- `str::lines`: a line ends at a line feed, which is dropped together with a
    carriage return before it; a last line without line feed is kept as it is. -/
def lineList (acc : List Char) : List Char → List (List Char)
  | [] => if acc = [] then [] else [acc]
  | c :: rest => if c = '\n' then stripCr acc :: lineList [] rest else lineList (acc ++ [c]) rest

/-- `str::lines`. -/
def lines (s : String) : List String := (lineList [] s.toList).map String.ofList

/-- A lower-case hexadecimal digit. -/
def hexDigit (n : Nat) : Char := if n < 10 then Char.ofNat (48 + n) else Char.ofNat (87 + n)

/-- Two hexadecimal digits for every byte, as `{:02x}` writes them. -/
def hex (b : List UInt8) : String :=
  String.ofList (b.flatMap fun x => [hexDigit (x.toNat / 16), hexDigit (x.toNat % 16)])

theorem length_hex (b : List UInt8) : (hex b).toList.length = 2 * b.length := by
  rw [hex, String.toList_ofList]
  induction b with
  | nil => rfl
  | cons x b ih =>
    rw [List.flatMap_cons, List.length_append, ih, List.length_cons, List.length_cons,
      List.length_cons, List.length_nil]
    omega

theorem hexDigit_ascii : ∀ n < 16, 0 < (hexDigit n).toNat ∧ (hexDigit n).toNat < 128 := by
  decide

theorem exists_hexDigit_of_mem {b : List UInt8} {c : Char} (member : c ∈ (hex b).toList) :
    ∃ n < 16, c = hexDigit n := by
  rw [hex, String.toList_ofList, List.mem_flatMap] at member
  obtain ⟨x, -, digit⟩ := member
  have small := x.toNat_lt
  rcases List.mem_cons.mp digit with high | digit
  · exact ⟨_, by omega, high⟩
  · rcases List.mem_cons.mp digit with low | digit
    · exact ⟨_, by omega, low⟩
    · cases digit

theorem hex_ascii {b : List UInt8} {c : Char} (member : c ∈ (hex b).toList) :
    0 < c.toNat ∧ c.toNat < 128 := by
  obtain ⟨n, small, rfl⟩ := exists_hexDigit_of_mem member
  exact hexDigit_ascii n small

theorem hexDigit_ne_slash : ∀ n < 16, hexDigit n ≠ '/' := by
  decide

theorem slash_notMem_hex (b : List UInt8) : '/' ∉ (hex b).toList := by
  intro member
  obtain ⟨n, small, isSlash⟩ := exists_hexDigit_of_mem member
  exact hexDigit_ne_slash n small isSlash.symm

theorem hexDigit_ne_dash : ∀ n < 16, hexDigit n ≠ '-' := by
  decide

/-- Removing dashes leaves hexadecimal digits alone. -/
theorem filter_hex (b : List UInt8) : (hex b).toList.filter (· ≠ '-') = (hex b).toList := by
  rw [List.filter_eq_self]
  intro c member
  obtain ⟨n, small, rfl⟩ := exists_hexDigit_of_mem member
  exact decide_eq_true (hexDigit_ne_dash n small)

theorem hex_append (a b : List UInt8) :
    (hex (a ++ b)).toList = (hex a).toList ++ (hex b).toList := by
  simp [hex]

theorem hexDigit_injective : ∀ m < 16, ∀ n < 16, hexDigit m = hexDigit n → m = n := by
  decide

theorem hex_injective {a b : List UInt8} (same : hex a = hex b) : a = b := by
  have chars := String.ofList_injective same
  clear same
  induction a generalizing b with
  | nil =>
    cases b with
    | nil => rfl
    | cons y b => simp at chars
  | cons x a ih =>
    cases b with
    | nil => simp at chars
    | cons y b =>
      have smallX := x.toNat_lt
      have smallY := y.toNat_lt
      simp only [List.flatMap_cons, List.cons_append, List.nil_append, List.cons.injEq] at chars
      obtain ⟨high, low, rest⟩ := chars
      have high := hexDigit_injective _ (by omega) _ (by omega) high
      have low := hexDigit_injective _ (by omega) _ (by omega) low
      have byte : x = y := UInt8.toNat.inj (by omega)
      rw [byte, ih rest]

/-- `template.replace(open ++ close, value)` for a two-character placeholder. -/
def replacePair (o c : Char) (value : List Char) : List Char → List Char
  | a :: b :: rest =>
    if a = o ∧ b = c then value ++ replacePair o c value rest
    else a :: replacePair o c value (b :: rest)
  | rest => rest

/-- A character inside a `{:?}` string. -/
def debugChar (c : Char) : List Char :=
  if c = '"' then ['\\', '"']
  else if c = '\\' then ['\\', '\\']
  else if c = '\n' then ['\\', 'n']
  else if c = '\r' then ['\\', 'r']
  else if c = '\t' then ['\\', 't']
  else if c.toNat = 0 then ['\\', '0']
  else [c]

/-- `{:?}` of a string of printable characters. -/
def debug (s : String) : String := String.ofList ('"' :: s.toList.flatMap debugChar ++ ['"'])

/-- `{:04X}` of a 16-bit number. -/
def hex16Upper (n : Nat) : String :=
  String.ofList ([n / 4096, n / 256, n / 16, n].map fun d => (hexDigit (d % 16)).toUpper)

/-- `{:08X}` of a 32-bit number. -/
def hex32Upper (n : Nat) : String := hex16Upper (n / 65536) ++ hex16Upper n

/-- `{:04x}` of a 16-bit number. -/
def hex16 (n : Nat) : String :=
  String.ofList ([n / 4096, n / 256, n / 16, n].map fun d => hexDigit (d % 16))

/-- `{:08x}` of a 32-bit number. -/
def hex32 (n : Nat) : String := hex16 (n / 65536) ++ hex16 n

/-- A way to write the digits that reads back. -/
structure WritesHex (digit : Nat → Char) : Prop where
  isHexDigit : ∀ d < 16, Text.isHexDigit (digit d) = true
  value : ∀ d < 16, hexDigitValue (digit d) = d

theorem writesHex_lower : WritesHex hexDigit := ⟨by decide, by decide⟩

theorem writesHex_upper : WritesHex fun d => (hexDigit d).toUpper := ⟨by decide, by decide⟩

/-- The eight digits of a 32-bit number. -/
def eightDigits (digit : Nat → Char) (n : Nat) : List Char :=
  [n / 65536 / 4096, n / 65536 / 256, n / 65536 / 16, n / 65536, n / 4096, n / 256, n / 16, n].map
    fun d => digit (d % 16)

theorem toList_hex32 (n : Nat) : (hex32 n).toList = eightDigits hexDigit n := by
  rw [hex32, hex16, hex16, String.toList_append, String.toList_ofList, String.toList_ofList]
  rfl

theorem toList_hex32Upper (n : Nat) :
    (hex32Upper n).toList = eightDigits (fun d => (hexDigit d).toUpper) n := by
  rw [hex32Upper, hex16Upper, hex16Upper, String.toList_append, String.toList_ofList,
    String.toList_ofList]
  rfl

section

variable {digit : Nat → Char} (writes : WritesHex digit)

include writes

theorem isHexDigit_of_mem_eightDigits {n : Nat} {c : Char} (member : c ∈ eightDigits digit n) :
    isHexDigit c = true := by
  obtain ⟨d, -, rfl⟩ := List.mem_map.mp member
  exact writes.isHexDigit _ (Nat.mod_lt _ (by decide))

theorem hexValue_eightDigits {n : Nat} (small : n < 2 ^ 32) :
    hexValue (eightDigits digit n) = n := by
  simp only [eightDigits, hexValue, List.map_cons, List.map_nil, List.foldl_cons, List.foldl_nil,
    writes.value _ (Nat.mod_lt _ (show 0 < 16 by decide))]
  omega

end

/-! ## Decoding UTF-8

`String::from_utf8_lossy` replaces every maximal ill-formed sequence by U+FFFD. -/

/-- What a byte at a character boundary starts. -/
inductive Lead where
  | ascii (c : Char)
  /-- `need` continuation bytes, the first between `lo` and `hi`; `acc` holds the
      payload bits of the lead byte. -/
  | multi (need lo hi acc : Nat)
  | invalid

/-- What the first byte of a UTF-8 sequence announces. -/
def lead (b : Nat) : Lead :=
  if b < 0x80 then .ascii (Char.ofNat b)
  else if 0xC2 ≤ b && b ≤ 0xDF then .multi 1 0x80 0xBF (b % 32)
  else if b == 0xE0 then .multi 2 0xA0 0xBF (b % 16)
  else if b == 0xED then .multi 2 0x80 0x9F (b % 16)
  else if 0xE1 ≤ b && b ≤ 0xEF then .multi 2 0x80 0xBF (b % 16)
  else if b == 0xF0 then .multi 3 0x90 0xBF (b % 8)
  else if 0xF1 ≤ b && b ≤ 0xF3 then .multi 3 0x80 0xBF (b % 8)
  else if b == 0xF4 then .multi 3 0x80 0x8F (b % 8)
  else .invalid

/-- The replacement character. -/
def replacement : Char := Char.ofNat 0xFFFD

/-- The decoder: `pending` is the unfinished character, if any. -/
def lossyChars : (pending : Option (Nat × Nat × Nat × Nat)) → List UInt8 → List Char
  | none, [] => []
  | some _, [] => [replacement]
  | none, b :: rest =>
    match lead b.toNat with
    | .ascii c => c :: lossyChars none rest
    | .multi need lo hi acc => lossyChars (some (need, lo, hi, acc)) rest
    | .invalid => replacement :: lossyChars none rest
  | some (need, lo, hi, acc), b :: rest =>
    if lo ≤ b.toNat ∧ b.toNat ≤ hi then
      let acc := acc * 64 + b.toNat % 64
      if need ≤ 1 then Char.ofNat acc :: lossyChars none rest
      else lossyChars (some (need - 1, 0x80, 0xBF, acc)) rest
    else
      -- the unfinished character is replaced and `b` starts the next one
      match lead b.toNat with
      | .ascii c => replacement :: c :: lossyChars none rest
      | .multi need lo hi acc => replacement :: lossyChars (some (need, lo, hi, acc)) rest
      | .invalid => replacement :: replacement :: lossyChars none rest

/-- `String::from_utf8`. -/
def fromUtf8 (b : List UInt8) : Option String := String.fromUTF8? ⟨b.toArray⟩

/-- `String::from_utf8_lossy`. -/
def fromUtf8Lossy (b : List UInt8) : String := String.ofList (lossyChars none b)

example : fromUtf8Lossy [0x61, 0xC3, 0xA9, 0xE2, 0x82, 0x62, 0xFF] =
    String.ofList ['a', Char.ofNat 0xE9, replacement, 'b', replacement] := by decide

/-! What is encoded decodes to itself. -/

section

variable {lo hi acc b : Nat} (rest : List UInt8)

/-- The last continuation byte. -/
theorem lossyChars_last (above : lo ≤ b) (below : b ≤ hi) (byte : b < 256) :
    lossyChars (some (1, lo, hi, acc)) (UInt8.ofNat b :: rest) =
      Char.ofNat (acc * 64 + b % 64) :: lossyChars none rest := by
  rw [lossyChars, UInt8.toNat_ofNat', Nat.mod_eq_of_lt byte, if_pos ⟨above, below⟩]
  rfl

/-- A continuation byte with more to come. -/
theorem lossyChars_next (need : Nat) (above : lo ≤ b) (below : b ≤ hi) (byte : b < 256) :
    lossyChars (some (need + 2, lo, hi, acc)) (UInt8.ofNat b :: rest) =
      lossyChars (some (need + 1, 0x80, 0xBF, acc * 64 + b % 64)) rest := by
  rw [lossyChars, UInt8.toNat_ofNat', Nat.mod_eq_of_lt byte, if_pos ⟨above, below⟩]
  exact if_neg (by omega)

theorem lossyChars_lead {need : Nat} (byte : b < 256) (starts : lead b = .multi need lo hi acc) :
    lossyChars none (UInt8.ofNat b :: rest) = lossyChars (some (need, lo, hi, acc)) rest := by
  rw [lossyChars, UInt8.toNat_ofNat', Nat.mod_eq_of_lt byte, starts]

end

/-- The lead byte of three has narrower bounds for the next byte at both ends of its range. -/
theorem lead_three {n : Nat} (small : 0x7ff < n) (large : n ≤ 0xffff)
    (valid : n < 0xD800 ∨ 0xDFFF < n) :
    ∃ lo hi, lead (n / 4096 % 16 + 224) = .multi 2 lo hi (n / 4096) ∧
      lo ≤ n / 64 % 64 + 128 ∧ n / 64 % 64 + 128 ≤ hi := by
  have high : n / 4096 % 16 = n / 4096 := Nat.mod_eq_of_lt (by omega)
  have payload : (n / 4096 + 224) % 16 = n / 4096 := by omega
  rw [high, lead, if_neg (by omega), if_neg (by simp)]
  by_cases least : n / 4096 = 0
  · refine ⟨0xA0, 0xBF, ?_, by omega, by omega⟩
    rw [if_pos (by simp [least]), payload]
  · rw [if_neg (by simpa using least)]
    by_cases surrogates : n / 4096 = 13
    · refine ⟨0x80, 0x9F, ?_, by omega, by omega⟩
      rw [if_pos (by simp [surrogates]), payload]
    · refine ⟨0x80, 0xBF, ?_, by omega, by omega⟩
      rw [if_neg (by simp; omega), if_pos (by simp; omega), payload]

theorem lead_four {n : Nat} (small : 0xffff < n) (large : n < 0x110000) :
    ∃ lo hi, lead (n / 262144 % 8 + 240) = .multi 3 lo hi (n / 262144) ∧
      lo ≤ n / 4096 % 64 + 128 ∧ n / 4096 % 64 + 128 ≤ hi := by
  have high : n / 262144 % 8 = n / 262144 := Nat.mod_eq_of_lt (by omega)
  have payload : (n / 262144 + 240) % 8 = n / 262144 := by omega
  rw [high, lead, if_neg (by omega), if_neg (by simp), if_neg (by simp),
    if_neg (by simp), if_neg (by simp)]
  by_cases least : n / 262144 = 0
  · refine ⟨0x90, 0xBF, ?_, by omega, by omega⟩
    rw [if_pos (by simp [least]), payload]
  · rw [if_neg (by simpa using least)]
    by_cases most : n / 262144 = 4
    · refine ⟨0x80, 0x8F, ?_, by omega, by omega⟩
      rw [if_neg (by simp; omega), if_pos (by simp [most]), payload]
    · refine ⟨0x80, 0xBF, ?_, by omega, by omega⟩
      rw [if_pos (by simp; omega), payload]

theorem lossyChars_utf8EncodeChar (c : Char) (rest : List UInt8) :
    lossyChars none (String.utf8EncodeChar c ++ rest) = c :: lossyChars none rest := by
  have ofNat_val : Char.ofNat c.val.toNat = c := Char.ofNat_toNat c
  have valid : c.val.toNat < 0xD800 ∨ 0xDFFF < c.val.toNat ∧ c.val.toNat < 0x110000 := c.valid
  unfold String.utf8EncodeChar
  generalize c.val.toNat = n at ofNat_val valid
  subst ofNat_val
  dsimp only
  by_cases one : n ≤ 127
  · rw [if_pos one, List.singleton_append, lossyChars, UInt8.toNat_ofNat',
      Nat.mod_eq_of_lt (by omega), lead, if_pos (by omega)]
  rw [if_neg one]
  by_cases two : n ≤ 2047
  · have starts : lead (n / 64 % 32 + 192) = .multi 1 0x80 0xBF (n / 64) := by
      have high : n / 64 % 32 = n / 64 := Nat.mod_eq_of_lt (by omega)
      have payload : (n / 64 + 192) % 32 = n / 64 := by omega
      rw [high, lead, if_neg (by omega), if_pos (by simp; omega), payload]
    rw [if_pos two, List.cons_append, List.singleton_append,
      lossyChars_lead _ (by omega) starts, lossyChars_last _ (by omega) (by omega) (by omega)]
    congr 2
    omega
  rw [if_neg two]
  by_cases three : n ≤ 65535
  · obtain ⟨lo, hi, starts, above, below⟩ :=
      lead_three (by omega) three (valid.imp_right And.left)
    rw [if_pos three, List.cons_append, List.cons_append, List.singleton_append,
      lossyChars_lead _ (by omega) starts, lossyChars_next _ 0 above below (by omega),
      lossyChars_last _ (by omega) (by omega) (by omega)]
    congr 2
    omega
  · obtain ⟨lo, hi, starts, above, below⟩ := lead_four (by omega) (by omega : n < 0x110000)
    rw [if_neg three, List.cons_append, List.cons_append, List.cons_append, List.singleton_append,
      lossyChars_lead _ (by omega) starts, lossyChars_next _ 1 above below (by omega),
      lossyChars_next _ 0 (by omega) (by omega) (by omega),
      lossyChars_last _ (by omega) (by omega) (by omega)]
    congr 2
    omega

/-- Decoding gives back what was encoded. -/
theorem fromUtf8Lossy_asBytes (s : String) : fromUtf8Lossy (asBytes s) = s := by
  have chars : ∀ cs : List Char, lossyChars none (cs.flatMap String.utf8EncodeChar) = cs := by
    intro cs
    induction cs with
    | nil => rfl
    | cons c cs ih => rw [List.flatMap_cons, lossyChars_utf8EncodeChar, ih]
  rw [fromUtf8Lossy, asBytes, chars, String.ofList_toList]

end Text
