import Mathlib.Data.List.Induction
import Initos.Lib.Bytes
import Initos.Lib.Text

/-!
# Signatures of kernel modules

A signature is appended to a module as a trailer: the signature, a block of 12 bytes that ends
with its length, and a magic text. `sign.sh` removes the trailers that a module already has
before it signs it again (`sidecar/bin/sign.sh:310-332` and `453-462`). The loop takes the
length from the file, so the file decides how much is cut off.
-/

namespace Initos.Sidecar

open Bytes

/-! ## The loop -/

/-- The output of `printf '%s\n' "${magic}"`. -/
def magic : List UInt8 := Text.asBytes "~Module signature appended~\n"

/-- `magic_len` (`sidecar/bin/sign.sh:313`). -/
def magicLen : Nat := 28

/-- `sig_info_len` (`sidecar/bin/sign.sh:314`). -/
def sigInfoLen : Nat := 12

/-- `tail -c n`. -/
def tailBytes (n : Nat) (file : List UInt8) : List UInt8 := file.drop (file.length - n)

/-- `dd bs=1 skip=skip count=count`. -/
def readBytes (skip count : Nat) (file : List UInt8) : List UInt8 := (file.drop skip).take count

/-- The condition of the loop (`sidecar/bin/sign.sh:317-318`). -/
def hasTrailer (file : List UInt8) : Bool :=
  magicLen + sigInfoLen ≤ file.length && tailBytes magicLen file == magic

/-- `$((($1 << 24) + ($2 << 16) + ($3 << 8) + $4))`, with the bytes as the arguments. -/
def sigLen : List UInt8 → Nat
  | b1 :: b2 :: b3 :: b4 :: _ =>
    (b1.toNat <<< 24) + (b2.toNat <<< 16) + (b3.toNat <<< 8) + b4.toNat
  | _ => 0

/-- The size that is left without the last trailer (`sidecar/bin/sign.sh:319-325`). -/
def unsignedSize (file : List UInt8) : Int :=
  let sigLenOffset := file.length - magicLen - 4
  (file.length : Int) - magicLen - sigInfoLen - sigLen (readBytes sigLenOffset 4 file)

/-- How the loop ends, with what it leaves in the file. -/
inductive Stripped where
  | done (file : List UInt8)
  | invalid (message : String) (file : List UInt8)
  deriving DecidableEq

/-- The module as the loop leaves it. -/
def Stripped.file : Stripped → List UInt8
  | .done file => file
  | .invalid _ file => file

/-- The message of the loop for a trailer that it cannot take off. -/
def invalidTrailer (path : String) : String :=
  s!"ERROR: invalid existing kernel module signature trailer in {path}"

/-- `_strip_kernel_module_signature` (`sidecar/bin/sign.sh:310-332`); `none` when the rounds
    of the loop are used up. -/
def stripKernelModuleSignature (path : String) : (fuel : Nat) → List UInt8 → Option Stripped
  | 0, _ => none
  | fuel + 1, file =>
    if hasTrailer file then
      if unsignedSize file ≤ 0 ∨ unsignedSize file ≥ file.length then
        some (.invalid (invalidTrailer path) file)
      else stripKernelModuleSignature path fuel (file.take (unsignedSize file).toNat)
    else some (.done file)

/-- A module is stripped and signed; `sign-file` appends to it what `sign` says
    (`sidecar/bin/sign.sh:455-460`, `293-303`). -/
def signAgain (sign : List UInt8 → List UInt8) (path : String) (fuel : Nat) (file : List UInt8) :
    Option Stripped :=
  (stripKernelModuleSignature path fuel file).map fun
    | .done stripped => .done (stripped ++ sign stripped)
    | .invalid message stripped => .invalid message stripped

/-! ## What a round leaves -/

theorem length_magic : magic.length = magicLen := by decide

theorem magic_suffix_of_hasTrailer {file : List UInt8} (signed : hasTrailer file = true) :
    magic <:+ file := by
  rw [hasTrailer, Bool.and_eq_true, beq_iff_eq] at signed
  rw [← signed.2]
  exact List.drop_suffix _ _

/-- The loop ends after so many rounds as the file has bytes, with a part of the file. -/
theorem strip_returns (path : String) (file : List UInt8) :
    ∃ r, (∀ fuel, file.length < fuel → stripKernelModuleSignature path fuel file = some r) ∧
      r.file <+: file := by
  induction file using (measure List.length).wf.induction with
  | _ file ih =>
    by_cases signed : hasTrailer file = true
    · by_cases bad : unsignedSize file ≤ 0 ∨ unsignedSize file ≥ file.length
      · refine ⟨.invalid (invalidTrailer path) file, fun fuel enough => ?_, List.prefix_refl file⟩
        obtain ⟨fuel, rfl⟩ := Nat.exists_eq_add_one_of_ne_zero (Nat.ne_zero_of_lt enough)
        rw [stripKernelModuleSignature, if_pos signed, if_pos bad]
      · -- what is left is shorter, and not empty
        have shorter : (file.take (unsignedSize file).toNat).length < file.length := by
          rw [List.length_take]
          omega
        obtain ⟨r, returns, isPart⟩ := ih _ shorter
        refine ⟨r, fun fuel enough => ?_, isPart.trans (List.take_prefix _ _)⟩
        obtain ⟨fuel, rfl⟩ := Nat.exists_eq_add_one_of_ne_zero (Nat.ne_zero_of_lt enough)
        rw [stripKernelModuleSignature, if_pos signed, if_neg bad]
        exact returns fuel (by omega)
    · refine ⟨.done file, fun fuel enough => ?_, List.prefix_refl file⟩
      obtain ⟨fuel, rfl⟩ := Nat.exists_eq_add_one_of_ne_zero (Nat.ne_zero_of_lt enough)
      rw [stripKernelModuleSignature, if_neg signed]

/-! ## Trailers -/

/-- What `sign-file` appends to a module. -/
structure Trailer where
  signature : List UInt8
  /-- The first eight bytes of the info block. -/
  info : List UInt8
  info_length : info.length = 8
  short : signature.length < 2 ^ 32

/-- The trailer as it stands behind the module. -/
def Trailer.bytes (t : Trailer) : List UInt8 :=
  t.signature ++ (t.info ++ (be32 (UInt32.ofNat t.signature.length) ++ magic))

/-- A module with signatures on top of each other. -/
def signedModule (body : List UInt8) (trailers : List Trailer) : List UInt8 :=
  body ++ trailers.flatMap Trailer.bytes

theorem sigLen_be32 (v : UInt32) : sigLen (be32 v) = v.toNat := by
  have small := v.toNat_lt
  simp only [be32, sigLen, UInt8.toNat_ofNat', Nat.shiftLeft_eq]
  omega

theorem Trailer.length_bytes (t : Trailer) :
    t.bytes.length = t.signature.length + (sigInfoLen + magicLen) := by
  simp [Trailer.bytes, t.info_length, length_magic, sigInfoLen]
  omega

/-- A file that ends with a trailer has one, and the size without it is that of the rest. -/
theorem hasTrailer_append (rest : List UInt8) (t : Trailer) :
    hasTrailer (rest ++ t.bytes) = true ∧ unsignedSize (rest ++ t.bytes) = rest.length := by
  have size : (rest ++ t.bytes).length = rest.length + t.signature.length + 40 := by
    rw [List.length_append, t.length_bytes, sigInfoLen, magicLen]
    omega
  have tail : tailBytes magicLen (rest ++ t.bytes) = magic := by
    have split : rest ++ t.bytes = rest ++ (t.signature ++ (t.info ++
        be32 (UInt32.ofNat t.signature.length))) ++ magic := by
      simp [Trailer.bytes]
    rw [tailBytes, size, split]
    refine List.drop_left' ?_
    simp [t.info_length, magicLen]
    omega
  have length : readBytes ((rest ++ t.bytes).length - magicLen - 4) 4 (rest ++ t.bytes) =
      be32 (UInt32.ofNat t.signature.length) := by
    have split : rest ++ t.bytes = rest ++ (t.signature ++ t.info) ++
        (be32 (UInt32.ofNat t.signature.length) ++ magic) := by
      simp [Trailer.bytes]
    rw [readBytes, size, split, List.drop_left', List.take_left']
    · rfl
    · simp [t.info_length, magicLen]
      omega
  have value : (UInt32.ofNat t.signature.length).toNat = t.signature.length :=
    UInt32.toNat_ofNat_of_lt' t.short
  constructor
  · rw [hasTrailer, tail, size]
    simp [magicLen, sigInfoLen]
  · rw [unsignedSize, length, sigLen_be32, value, size]
    simp only [magicLen, sigInfoLen]
    omega

/-- One round takes off one trailer. -/
theorem strip_round (path : String) {rest : List UInt8} (nonempty : rest ≠ []) (t : Trailer)
    (fuel : Nat) : stripKernelModuleSignature path (fuel + 1) (rest ++ t.bytes) =
      stripKernelModuleSignature path fuel rest := by
  obtain ⟨signed, size⟩ := hasTrailer_append rest t
  have positive := List.length_pos_of_ne_nil nonempty
  have longer := t.length_bytes
  rw [stripKernelModuleSignature, if_pos signed, size, if_neg, Int.toNat_natCast, List.take_left]
  rw [List.length_append, longer, sigInfoLen]
  omega

/-- The loop undoes any number of signatures. -/
theorem strip_signedModule (path : String) {body : List UInt8} (nonempty : body ≠ [])
    (unsigned : ¬magic <:+ body) (trailers : List Trailer) {fuel : Nat}
    (enough : (signedModule body trailers).length < fuel) :
    stripKernelModuleSignature path fuel (signedModule body trailers) = some (.done body) := by
  induction trailers using List.reverseRecOn generalizing fuel with
  | nil =>
    obtain ⟨fuel, rfl⟩ := Nat.exists_eq_add_one_of_ne_zero (Nat.ne_zero_of_lt enough)
    rw [signedModule, List.flatMap_nil, List.append_nil, stripKernelModuleSignature, if_neg]
    exact fun signed => unsigned (magic_suffix_of_hasTrailer signed)
  | append_singleton trailers t ih =>
    have split : signedModule body (trailers ++ [t]) = signedModule body trailers ++ t.bytes := by
      simp [signedModule]
    have rest : signedModule body trailers ≠ [] := by simp [signedModule, nonempty]
    rw [split] at enough ⊢
    obtain ⟨fuel, rfl⟩ := Nat.exists_eq_add_one_of_ne_zero (Nat.ne_zero_of_lt enough)
    rw [strip_round path rest]
    refine ih ?_
    rw [List.length_append, t.length_bytes, sigInfoLen] at enough
    omega

/-- Stripping ends on every file with a part of it from the front, and it undoes signing. -/
theorem strip_undoes_signing (path : String) :
    (∀ file, ∃ r,
      (∀ fuel, file.length < fuel → stripKernelModuleSignature path fuel file = some r) ∧
      r.file <+: file) ∧
    ∀ body trailers, body ≠ [] → ¬magic <:+ body →
      ∀ fuel, (signedModule body trailers).length < fuel →
        stripKernelModuleSignature path fuel (signedModule body trailers) = some (.done body) :=
  ⟨strip_returns path, fun _ trailers nonempty unsigned _ enough =>
    strip_signedModule path nonempty unsigned trailers enough⟩

/-- A trailer without a signature in it. -/
def emptyTrailer : Trailer := ⟨[], List.replicate 8 0, rfl, by decide⟩

/-- Two signatures on a body of a single byte. -/
theorem strip_undoes_signing_twice :
    stripKernelModuleSignature "e1000e.ko" 100 (signedModule [127] [emptyTrailer, emptyTrailer]) =
      some (.done [127]) :=
  (strip_undoes_signing "e1000e.ko").2 [127] [emptyTrailer, emptyTrailer] (by decide) (by decide)
    100 (by decide)

/-- Signing a module again leaves one signature, the new one. -/
theorem signAgain_signedModule (sign : List UInt8 → Trailer) (path : String) {body : List UInt8}
    (nonempty : body ≠ []) (unsigned : ¬magic <:+ body) (trailers : List Trailer) {fuel : Nat}
    (enough : (signedModule body trailers).length < fuel) :
    signAgain (fun file => (sign file).bytes) path fuel (signedModule body trailers) =
      some (.done (signedModule body [sign body])) := by
  rw [signAgain, strip_signedModule path nonempty unsigned trailers enough]
  simp [signedModule]

end Initos.Sidecar
