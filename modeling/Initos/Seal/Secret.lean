import Initos.Seal.Command
import Initos.Tpm2.Encoding

/-!
# Secrets of any length

`initos seal` takes the secret as it comes, from a file, the environment or the standard input.
`create` counts it in 16 bits, four bytes of the structure around it included.
-/

namespace Initos.Seal

open Interact Tpm2 Bytes Marshal

/-- What `cmd_seal` seals: the secret behind the mark of its mode. -/
def sealedSecret (mode : SealMode) (secret : String) : List UInt8 :=
  mode.mark ++ Text.asBytes secret

theorem length_sealedSecret (mode : SealMode) (secret : String) :
    (sealedSecret mode secret).length = 5 + (Text.asBytes secret).length := by
  rw [sealedSecret, List.length_append]
  cases mode <;> rfl

/-- The digest comes out of one reply, so it is shorter than the buffer. -/
theorem length_of_policyGetDigest {session : UInt32} {tr : History Sys} {digest : List UInt8}
    (runs : Runs (policyGetDigest session).run tr (.done (.ok digest))) :
    digest.length ≤ rspBufSize := by
  obtain ⟨cmd, built, -⟩ := builds_policyGetDigest session
  simp only [policyGetDigest, ofChecked_bind, built] at runs
  obtain ⟨e, ⟨⟩, -⟩ | ⟨rsp, accepted, made⟩ := request_read_ends runs
  cases read : (getU16 rsp 10).bind fun size => slice rsp 12 (12 + size.toNat) with
  | none =>
    rw [read] at made
    cases made
  | some cut =>
    rw [read] at made
    cases made
    obtain ⟨size, -, cut⟩ := Option.bind_eq_some_iff.mp read
    obtain ⟨-, -, rfl⟩ := slice_eq_some_iff.mp cut
    have short := length_of_acceptedReply accepted
    simp only [List.length_take, List.length_drop]
    omega

/-- The 16-bit sizes that `create` computes are the sizes of what it writes. -/
structure SizesExact (data policy : List UInt8) : Prop where
  sensitive : (2 + 2 + UInt16.ofNat data.length : UInt16).toNat = 4 + data.length
  template : (2 + 2 + 4 + (2 + UInt16.ofNat policy.length) + 2 + 2 : UInt16).toNat =
    14 + policy.length

/-- The 16-bit sums of the command do not wrap. -/
theorem sizesExact {data policy : List UInt8} (dataSmall : data.length ≤ 65531)
    (policySmall : policy.length ≤ 65521) : SizesExact data policy := by
  constructor <;> simp only [UInt16.toNat_add, UInt16.toNat_ofNat', UInt16.reduceToNat] <;> omega

/-- Sealing the secret goes as it should: no size wraps, and every run of `create` has sent a
    command that carries the whole secret, or has failed with an error. -/
def SealsWhole (mode : SealMode) (secret : String) (digest : List UInt8) : Prop :=
  SizesExact (sealedSecret mode secret) digest ∧
    ∀ tr out, Runs (create defaultPrimaryHandle (sealedSecret mode secret) digest).run tr out →
      Conveys tr (.create defaultPrimaryHandle (sealedSecret mode secret) digest) ∨
        ∃ e, out = .done (.error e)

/-- A secret that is too long for 16 bits makes `create` abort before it sends anything. -/
theorem create_aborts {parent : UInt32} {data : List UInt8} (long : 65531 < data.length)
    (policy : List UInt8) : Runs (create parent data policy).run [] (.halted .panic) := by
  have none : createCmd parent data policy = none := by
    rw [← Option.not_isSome_iff_eq_none, createCmd_isSome_iff]
    omega
  rw [create, none]
  exact .halted _

/-- Just the secrets of at most 65526 bytes are sealed whole, whatever digest the TPM gives. -/
theorem sealsWhole_iff (mode : SealMode) (secret : String) {session : UInt32} {tr : History Sys}
    {digest : List UInt8} (digested : Runs (policyGetDigest session).run tr (.done (.ok digest))) :
    SealsWhole mode secret digest ↔ (Text.asBytes secret).length ≤ 65526 := by
  have length := length_sealedSecret mode secret
  have short : digest.length ≤ 4096 := length_of_policyGetDigest digested
  constructor
  · intro whole
    by_contra long
    rcases whole.2 _ _ (create_aborts (by omega) digest) with ⟨_, _, sent, -⟩ | ⟨e, failed⟩
    · cases sent
    · cases failed
  · intro fits
    refine ⟨sizesExact (by omega) (by omega), fun tr out runs => .inl ?_⟩
    exact create_sends _ (by omega) (by omega) tr out runs

/-- A secret of so many letters. -/
def letters (n : Nat) : String := String.ofList (List.replicate n 'a')

theorem length_letters (n : Nat) : (Text.asBytes (letters n)).length = n := by
  have one : (String.utf8EncodeChar 'a').length = 1 := by decide
  rw [letters, Text.asBytes, String.toList_ofList, List.length_flatMap, List.map_replicate, one,
    List.sum_replicate_nat, Nat.mul_one]

/-- One letter too many, with a digest as a TPM gives it. -/
theorem letters_abort :
    Runs (create defaultPrimaryHandle (sealedSecret .dev (letters 65527))
      (List.replicate sha256DigestSize 0)).run [] (.halted .panic) := by
  have length := length_sealedSecret .dev (letters 65527)
  rw [length_letters] at length
  exact create_aborts (by omega) _

/-- The reply to `TPM2_PolicyGetDigest` with an empty digest. -/
theorem sealsWhole_iff_sample :
    ∃ cmd, policyGetDigestCmd 0 = some cmd ∧
      Runs (policyGetDigest 0).run (turn cmd [0x80, 0x01, 0, 0, 0, 12, 0, 0, 0, 0, 0, 0])
        (.done (.ok [])) ∧
      (SealsWhole .dev "key" [] ↔ (Text.asBytes "key").length ≤ 65526) := by
  obtain ⟨cmd, built, -⟩ := builds_policyGetDigest 0
  have digested : Runs (policyGetDigest 0).run
      (turn cmd [0x80, 0x01, 0, 0, 0, 12, 0, 0, 0, 0, 0, 0]) (.done (.ok [])) := by
    rw [policyGetDigest, built]
    exact .call _ (.call _ (.done _))
  exact ⟨cmd, built, digested, sealsWhole_iff .dev "key" digested⟩

end Initos.Seal
