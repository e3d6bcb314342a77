import Initos.Seal.Run
import Initos.Boot.Unlock

/-!
# What is sealed is unsealed

A secret that `cmd_seal` has stored comes back from `unseal_key_from_handle` with the mark of
its mode, as long as PCR 7 has the value it was sealed under, and not otherwise.
-/

namespace Initos.Seal

open Interact Bytes Marshal Tpm2 Boot

variable {T : TpmSpec} {reliable : Bool} {c c' : Chip T}

/-! ## Unsealing -/

/-- What `unseal_key_from_handle` returns is the data of the object at the handle, if that has
    the policy of PCR 7 as it is. -/
theorem unsealKeyFromHandle_on {handle : UInt32} {mark : List UInt8} {name : String}
    {out : Outcome Sys (Except Err (List UInt8))} (range : IsPersistent handle)
    (run : RunsOn (device reliable) (unsealKeyFromHandle handle mark name).run c c' out) :
    (∃ data, c.tpm.persistent handle = some (.sealedData data (T.policyDigest [c.tpm.pcr7])) ∧
      out = .done (stripTpmPrefix data mark name)) ∨
    ((∃ e, out = .done (.error e)) ∧ (reliable = true → ∀ data, data.length ≤ maxSealedData →
      c.tpm.persistent handle ≠ some (.sealedData data (T.policyDigest [c.tpm.pcr7])))) := by
  rcases policySession_on run with
    ⟨m, session, keeps, opened, afterDigest⟩ | ⟨unreliable, keeps, error⟩
  swap
  · refine .inr ⟨error, fun isReliable => ?_⟩
    rw [unreliable] at isReliable
    cases isReliable
  rw [← keeps.pcr7_eq] at opened ⊢
  rw [← keeps.persistent_eq]
  rcases operated_bind unsealItem_on afterDigest with
    ⟨_, data, m', done, ⟨paramSize, size, rfl⟩, rest⟩ | ⟨unable, left, error⟩
  · obtain ⟨values, opened', stored⟩ := done.performs.unsealed
    rw [opened, Option.some.injEq] at opened'
    subst opened'
    rw [TpmState.object, if_pos range] at stored
    refine .inl ⟨data, stored, ?_⟩
    generalize stripTpmPrefix data mark name = result at rest
    cases result <;> exact (runsOn_pure.mp rest).2
  · exact .inr ⟨error, fun isReliable data small stored =>
      unable isReliable (TpmState.can_unseal range opened stored small)⟩

/-! ## The mark of the mode -/

theorem stripTpmPrefix_append (mark key : List UInt8) (name : String) :
    stripTpmPrefix (mark ++ key) mark name = .ok key := by
  rw [stripTpmPrefix, if_pos (List.isPrefixOf_iff_prefix.mpr (List.prefix_append mark key)),
    List.drop_left]

/-- The marks are of one length, so neither is the start of data with the other. -/
theorem stripTpmPrefix_other {mode other : SealMode} (differ : other ≠ mode) (key : List UInt8)
    (name : String) : ∃ e, stripTpmPrefix (mode.mark ++ key) other.mark name = .error e := by
  refine ⟨_, if_neg ?_⟩
  cases mode <;> cases other <;> first | exact absurd rfl differ | exact Bool.false_ne_true

/-! ## The round trip -/

/-- A TPM on which nothing stands in the way seals. -/
theorem exists_cmdSeal {secret : String} {mode : SealMode} {handle : Option UInt32}
    (ready : Sealable c secret mode) (owner : IsOwnerPersistent (sealTarget mode handle)) :
    ∃ c' loaded, RunsOn (device true) (cmdSeal secret mode handle).run c c' (.done (.ok ())) ∧
      Persisted loaded (sealTarget mode handle) (sealedObject T secret mode c.tpm.pcr7) c c' := by
  obtain ⟨c', out, run⟩ := exists_runsOn (device_total true) (cmdSeal secret mode handle).run c
  rcases cmdSeal_on run with ⟨rfl, -, loaded, persisted⟩ | ⟨-, unready, -⟩
  · exact ⟨c', loaded, run, persisted⟩
  · exact absurd owner (unready rfl ready)

/-- A TPM with two PCR values that wraps nothing. -/
def sampleSpec : TpmSpec where
  Pcr := Bool
  policyDigest values := List.replicate 31 0 ++ [if values = [true] then 1 else 0]
  unwrap privArea pubArea := some (.sealedData privArea pubArea)
  length_policyDigest _ := rfl
  policyDigest_inj := by decide

/-- The primary is there, and nothing else. -/
def sampleChip : Chip sampleSpec where
  tpm :=
    { persistent := fun handle => if handle = defaultPrimaryHandle then some .storage else none
      transient := fun _ => none
      sessions := fun _ => none
      pcr7 := false
      former := []
      fresh := List.not_mem_nil }
  reply := []
  performed := []

theorem sealable_sampleChip (mode : SealMode) : Sealable sampleChip "key" mode where
  primary := rfl
  small := by cases mode <;> decide
  wrapped := ⟨mode.mark ++ Text.asBytes "key", sampleSpec.policyDigest [false],
    by cases mode <;> decide, rfl⟩

theorem unsealKeyFromHandle_of_cmdSeal {secret : String} {mode : SealMode} {handle : Option UInt32}
    (stored : RunsOn (device reliable) (cmdSeal secret mode handle).run c c' (.done (.ok ())))
    (later : Chip T)
    (kept : later.tpm.persistent (sealTarget mode handle) =
      c'.tpm.persistent (sealTarget mode handle)) :
    -- PCR 7 is as it was
    (later.tpm.pcr7 = c'.tpm.pcr7 → ∀ name,
      (∃ after out, RunsOn (device true)
        (unsealKeyFromHandle (sealTarget mode handle) mode.mark name).run later after out) ∧
      ∀ after out, RunsOn (device true)
        (unsealKeyFromHandle (sealTarget mode handle) mode.mark name).run later after out →
          out = .done (.ok (Text.asBytes secret))) ∧
    -- the other mode
    (∀ other, other ≠ mode → ∀ name reliable after out, RunsOn (device reliable)
      (unsealKeyFromHandle (sealTarget mode handle) other.mark name).run later after out →
        ∃ e, out = .done (.error e)) ∧
    -- PCR 7 has been extended
    (∀ requests digest, Performed c'.tpm requests later.tpm → .pcrExtend 7 digest ∈ requests →
      ∀ mark name reliable after out, RunsOn (device reliable)
        (unsealKeyFromHandle (sealTarget mode handle) mark name).run later after out →
          ∃ e, out = .done (.error e)) := by
  obtain ⟨-, small, loaded, persisted⟩ | ⟨impossible, -⟩ := cmdSeal_on stored
  swap
  · exact absurd rfl impossible
  have range := persisted.owner.isPersistent
  rw [persisted.persistent_eq, Function.update_self] at kept
  have pcr7_eq := persisted.pcr7_eq
  refine ⟨fun same name => ⟨exists_runsOn (device_total true) _ _, ?_⟩, ?_, ?_⟩
  · intro after out run
    rw [sealedObject, ← pcr7_eq, ← same] at kept
    rcases unsealKeyFromHandle_on range run with ⟨data, found, rfl⟩ | ⟨-, missing⟩
    · rw [kept, Option.some.injEq] at found
      cases found
      rw [stripTpmPrefix_append]
    · exact absurd kept (missing rfl _ small)
  · intro other differ name reliable after out run
    rcases unsealKeyFromHandle_on range run with ⟨data, found, rfl⟩ | ⟨error, -⟩
    · rw [kept, Option.some.injEq, sealedObject, Object.sealedData.injEq] at found
      obtain ⟨e, stripped⟩ := stripTpmPrefix_other differ (Text.asBytes secret) name
      exact ⟨e, by rw [← found.1, stripped]⟩
    · exact error
  · intro requests digest performed extended mark name reliable after out run
    rcases unsealKeyFromHandle_on range run with ⟨data, found, rfl⟩ | ⟨error, -⟩
    · rw [kept, Option.some.injEq, sealedObject, Object.sealedData.injEq] at found
      have same := T.policyDigest_inj _ _ found.2
      exact absurd (same.symm.trans pcr7_eq.symm) (performed.pcr7_ne extended)
    · exact error

theorem unsealKeyFromHandle_of_cmdSeal_key :
    ∃ sealed, RunsOn (device true) (cmdSeal "key" .dev none).run sampleChip sealed
      (.done (.ok ())) ∧
      ∀ after out, RunsOn (device true)
        (unsealKeyFromHandle defaultSealedHandleDev devTpmPrefix "dev").run sealed after out →
          out = .done (.ok (Text.asBytes "key")) := by
  have owner : IsOwnerPersistent (sealTarget .dev none) := by decide
  obtain ⟨sealed, loaded, stored, -⟩ := exists_cmdSeal (sealable_sampleChip .dev) owner
  exact ⟨sealed, stored, ((unsealKeyFromHandle_of_cmdSeal stored sealed rfl).1 rfl "dev").2⟩

end Initos.Seal
