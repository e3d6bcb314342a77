import Initos.Tpm2.Session
import Initos.Seal.Command

/-!
# Runs of the seal and primary commands

What `cmd_seal` and `cmd_primary` do to the TPM, whatever it refuses and wherever the device
fails: everything up to the eviction leaves the persistent objects alone, and what follows
replaces the object at the target in two steps.
-/

namespace Initos.Tpm2

open Interact Bytes Marshal

variable {T : TpmSpec} {reliable : Bool}

namespace Chip

variable {c c' m : Chip T} {request : Request} {fields : List Field} {object target : UInt32}

/-- The state, the object and the target of an entry that is an eviction. -/
def eviction : TpmState T × Request → Option (TpmState T × UInt32 × UInt32)
  | (s, .evictControl object target) => some (s, object, target)
  | _ => none

/-- The evictions among the requests performed. -/
def evictions (c : Chip T) : List (TpmState T × UInt32 × UInt32) := c.performed.filterMap eviction

/-- The persistent objects and PCR 7 have stayed, and nothing has been evicted. -/
structure Keeps (c c' : Chip T) : Prop where
  persistent_eq : c'.tpm.persistent = c.tpm.persistent
  pcr7_eq : c'.tpm.pcr7 = c.tpm.pcr7
  evictions_eq : c'.evictions = c.evictions

theorem Keeps.refl (c : Chip T) : c.Keeps c := ⟨rfl, rfl, rfl⟩

theorem Keeps.trans (first : c.Keeps m) (second : m.Keeps c') : c.Keeps c' :=
  ⟨second.1.trans first.1, second.2.trans first.2, second.3.trans first.3⟩

theorem Quiet.evictions_eq (quiet : c.Quiet c') : c'.evictions = c.evictions := by
  obtain ⟨-, resets, record, all⟩ := quiet
  have none_evicts : resets.filterMap eviction = [] := by
    refine List.filterMap_eq_nil_iff.mpr fun entry member => ?_
    obtain ⟨s, request⟩ := entry
    cases all _ member
    rfl
  rw [evictions, record, List.filterMap_append, none_evicts, List.append_nil]
  rfl

theorem Quiet.keeps (quiet : c.Quiet c') : c.Keeps c' :=
  ⟨by rw [quiet.1], by rw [quiet.1], quiet.evictions_eq⟩

theorem Done.evictions_eq (done : c.Done request fields c') :
    c'.evictions = c.evictions ++ (eviction (c.tpm, request)).toList := by
  obtain ⟨m, quiet, -, -, record⟩ := done
  rw [← quiet.evictions_eq, ← quiet.1, evictions, record, List.filterMap_append]
  cases request <;> rfl

/-- A request for a transient object or a session keeps the persistent ones. -/
theorem Done.keeps (done : c.Done request fields c') (transient : request.Transient) :
    c.Keeps c' := by
  obtain ⟨persistent_eq, pcr7_eq⟩ := done.performs.persistent_eq transient
  refine ⟨persistent_eq, pcr7_eq, ?_⟩
  rw [done.evictions_eq]
  cases request <;> first | exact List.append_nil _ | exact transient.elim

/-- An extension leaves the persistent objects and takes PCR 7 to a new value. -/
theorem Done.extended {digest : List UInt8} (done : c.Done (.pcrExtend 7 digest) fields c') :
    c'.tpm.persistent = c.tpm.persistent ∧ c'.tpm.pcr7 ≠ c.tpm.pcr7 := by
  have performs := done.performs
  generalize c'.tpm = s' at performs
  cases performs with
  | pcrExtend new => exact ⟨rfl, fun same => new (same ▸ List.mem_cons_self)⟩
  | pcrExtendOther other => exact absurd rfl other

/-- What an operation leaves behind when it fails. -/
theorem keeps_of_failed (left : c.Quiet c' ∨ ∃ fields, c.Done request fields c')
    (transient : request.Transient) : c.Keeps c' := by
  rcases left with quiet | ⟨fields, done⟩
  · exact quiet.keeps
  · exact done.keeps transient

end Chip

/-! ## What a reliable device cannot refuse -/

namespace TpmState

variable {s s' : TpmState T} {request : Request} {fields : List Field} {session : UInt32}
  {values : List T.Pcr}

theorem can_of_performs (performs : Performs s request s' fields)
    (fits : 10 + (fields.map Field.size).sum ≤ rspBufSize) : s.Can request := by
  obtain ⟨reply, isReply⟩ := exists_isReply 0 fits
  exact ⟨s', fields, reply, performs, isReply⟩

theorem can_startAuthSession (s : TpmState T) : s.Can (.startAuthSession sePolicy) :=
  can_of_performs (.startAuthSession 0) (by decide)

theorem can_policyPcr (opened : s.sessions session = some values) : s.Can (.policyPcr session) :=
  can_of_performs (.policyPcr opened) (by decide)

theorem can_policyGetDigest (opened : s.sessions session = some values) :
    s.Can (.policyGetDigest session) := by
  have length := T.length_policyDigest values
  have size_eq : (32 : UInt16).toNat = (T.policyDigest values).length := length.symm
  refine can_of_performs (.policyGetDigest opened size_eq) ?_
  simp only [List.map_cons, List.map_nil, Field.size, length]
  decide

theorem can_flushContext (opened : (s.sessions session).isSome) : s.Can (.flushContext session) :=
  can_of_performs (.flushSession opened) (by decide)

/-- A persistent sealed object can be unsealed in a session with its policy. -/
theorem can_unseal {handle : UInt32} {data : List UInt8} (range : IsPersistent handle)
    (opened : s.sessions session = some [s.pcr7])
    (stored : s.persistent handle = some (.sealedData data (T.policyDigest [s.pcr7])))
    (small : data.length ≤ maxSealedData) : s.Can (.unsealItem handle session) := by
  rw [maxSealedData] at small
  have stored : s.object handle = some (.sealedData data (T.policyDigest [s.pcr7])) := by
    rw [object, if_pos range, stored]
  have current : ∀ value ∈ [s.pcr7], value = s.pcr7 := fun value member =>
    List.mem_singleton.mp member
  have size_eq : (UInt16.ofNat data.length).toNat = data.length := by
    rw [UInt16.toNat_ofNat']; omega
  refine can_of_performs (.unsealItem 0 stored opened current size_eq) ?_
  simp only [List.map_cons, List.map_nil, List.sum_cons, List.sum_nil, Field.size, rspBufSize]
  omega

end TpmState

/-- A TPM that refuses what it could do is not reliable. -/
theorem unreliable_of_can {s : TpmState T} {request : Request} (can : s.Can request)
    (unable : reliable = true → ¬s.Can request) : reliable = false :=
  Bool.eq_false_iff.mpr fun isReliable => unable isReliable can

/-! ## The policy session -/

section

variable {α : Type} {c c' : Chip T}

/-- The start of `cmd_seal` and of `unseal_key_from_handle`: a session with the policy of PCR 7
    as it is. -/
theorem policySession_on {next : UInt32 → List UInt8 → Io α} {out : Outcome Sys (Except Err α)}
    (run : RunsOn (device reliable) (do
      openDevice
      let session ← startPolicySession
      policyPcr session
      let digest ← policyGetDigest session
      next session digest : Io α).run c c' out) :
    (∃ m session, c.Keeps m ∧ m.tpm.sessions session = some [c.tpm.pcr7] ∧
      RunsOn (device reliable) (next session (T.policyDigest [c.tpm.pcr7])).run m c' out) ∨
    (reliable = false ∧ c.Keeps c' ∧ ∃ e, out = .done (.error e)) := by
  rcases openDevice_bind run with afterOpen | ⟨unreliable, rfl, failed⟩
  swap
  · exact .inr ⟨unreliable, .refl _, failed⟩
  rcases operated_bind startPolicySession_on afterOpen with
    ⟨_, session, started, done, rfl, afterStart⟩ | ⟨unable, left, failed⟩
  swap
  · exact .inr ⟨unreliable_of_can (TpmState.can_startAuthSession _) unable,
      Chip.keeps_of_failed left trivial, failed⟩
  have keeps := done.keeps trivial
  have opened : started.tpm.sessions session = some [] := by
    rw [done.performs.started]
    exact Function.update_self ..
  rcases operated_bind policyPcr_on afterStart with
    ⟨fields, _, asserted, policyDone, -, afterPcr⟩ | ⟨unable, left, failed⟩
  swap
  · exact .inr ⟨unreliable_of_can (TpmState.can_policyPcr opened) unable,
      keeps.trans (Chip.keeps_of_failed left trivial), failed⟩
  have keeps' := keeps.trans (policyDone.keeps trivial)
  have holds : asserted.tpm.sessions session = some [c.tpm.pcr7] := by
    obtain ⟨values, opened', after⟩ := policyDone.performs.policyAdded
    rw [opened, Option.some.injEq] at opened'
    rw [after, ← opened', ← keeps.pcr7_eq]
    exact Function.update_self ..
  rcases operated_bind policyGetDigest_on afterPcr with
    ⟨_, digest, m, digestDone, ⟨size, rfl⟩, rest⟩ | ⟨unable, left, failed⟩
  swap
  · exact .inr ⟨unreliable_of_can (TpmState.can_policyGetDigest holds) unable,
      keeps'.trans (Chip.keeps_of_failed left trivial), failed⟩
  obtain ⟨same, values, holds', rfl⟩ := digestDone.performs.digested
  rw [holds, Option.some.injEq] at holds'
  subst holds'
  exact .inl ⟨m, session, keeps'.trans (digestDone.keeps trivial), same ▸ holds, rest⟩

end

/-! ## Replacing a persistent object -/

section

variable {c c' m : Chip T} {loaded target : UInt32} {object : Object}

open Function (update)

/-- The object at the target is gone, and nothing else. -/
structure Evicted (target : UInt32) (c c' : Chip T) : Prop where
  owner : IsOwnerPersistent target
  persistent_eq : c'.tpm.persistent = update c.tpm.persistent target none
  pcr7_eq : c'.tpm.pcr7 = c.tpm.pcr7
  evictions_eq : ∃ s, c'.evictions = c.evictions ++ [(s, target, target)]

/-- The loaded object is at the target, which was free or has been freed before. -/
structure Persisted (loaded target : UInt32) (object : Object) (c c' : Chip T) : Prop where
  range : IsTransient loaded
  owner : IsOwnerPersistent target
  persistent_eq : c'.tpm.persistent = update c.tpm.persistent target (some object)
  pcr7_eq : c'.tpm.pcr7 = c.tpm.pcr7
  evictions_eq : ∃ before s, c'.evictions = c.evictions ++ before ++ [(s, loaded, target)] ∧
    s.transient loaded = some object ∧
    ((before = [] ∧ c.tpm.persistent target = none) ∨ ∃ s', before = [(s', target, target)])

theorem Evicted.of_keeps (keeps : c.Keeps m) (evicted : Evicted target m c') :
    Evicted target c c' := by
  obtain ⟨owner, persistent_eq, pcr7_eq, evictions_eq⟩ := evicted
  rw [keeps.persistent_eq] at persistent_eq
  rw [keeps.pcr7_eq] at pcr7_eq
  rw [keeps.evictions_eq] at evictions_eq
  exact ⟨owner, persistent_eq, pcr7_eq, evictions_eq⟩

theorem Persisted.of_keeps (keeps : c.Keeps m) (persisted : Persisted loaded target object m c') :
    Persisted loaded target object c c' := by
  obtain ⟨range, owner, persistent_eq, pcr7_eq, evictions_eq⟩ := persisted
  rw [keeps.persistent_eq] at persistent_eq
  rw [keeps.pcr7_eq] at pcr7_eq
  rw [keeps.evictions_eq, keeps.persistent_eq] at evictions_eq
  exact ⟨range, owner, persistent_eq, pcr7_eq, evictions_eq⟩

theorem Evicted.of_quiet (evicted : Evicted target c m) (quiet : m.Quiet c') :
    Evicted target c c' := by
  obtain ⟨owner, persistent_eq, pcr7_eq, evictions_eq⟩ := evicted
  rw [← quiet.1] at persistent_eq pcr7_eq
  rw [← quiet.evictions_eq] at evictions_eq
  exact ⟨owner, persistent_eq, pcr7_eq, evictions_eq⟩

/-- After `try_evict_persistent` the target is free, or nothing has happened. -/
theorem tryEvictPersistent_evicts {out : Outcome Sys (Except Err Unit)}
    (run : RunsOn (device reliable) (tryEvictPersistent target).run c c' out) :
    out = .done (.ok ()) ∧ c'.tpm.transient = c.tpm.transient ∧
      ((((reliable = true → IsOwnerPersistent target → c.tpm.persistent target = none)) ∧
        c.Keeps c') ∨ Evicted target c c') := by
  obtain ⟨done, ⟨unable, quiet⟩ | ⟨fields, m, evicted, quiet⟩⟩ := tryEvictPersistent_on run
  · refine ⟨done, by rw [quiet.1], .inl ⟨fun isReliable owner => ?_, quiet.keeps⟩⟩
    by_contra occupied
    have stored := Option.isSome_iff_ne_none.mpr occupied
    exact unable isReliable (TpmState.can_of_performs (.evict owner stored) (by decide))
  · obtain ⟨owner, -, after⟩ := evicted.performs.evicted
    refine ⟨done, by rw [quiet.1, after],
      .inr ⟨owner, by rw [quiet.1, after], by rw [quiet.1, after],
      c.tpm, ?_⟩⟩
    rw [quiet.evictions_eq, evicted.evictions_eq]
    rfl

/-- A loaded object is persisted where nothing has been done before. -/
theorem Chip.Done.persisted {fields : List Field} (range : IsTransient loaded)
    (held : m.tpm.transient loaded = some object) (keeps : c.Keeps m)
    (done : m.Done (.evictControl loaded target) fields c') :
    Persisted loaded target object c c' := by
  obtain ⟨object', held', owner, free, after⟩ := done.performs.persisted range
  rw [held, Option.some.injEq] at held'
  subst held'
  refine ⟨range, owner, ?_, ?_, [], m.tpm, ?_, held, .inl ⟨rfl, keeps.persistent_eq ▸ free⟩⟩
  · rw [after, keeps.persistent_eq]
  · rw [after, keeps.pcr7_eq]
  · rw [List.append_nil, done.evictions_eq, keeps.evictions_eq]
    rfl

/-- A loaded object is persisted where the old one has been evicted. -/
theorem Chip.Done.persisted_of_evicted {fields : List Field} (range : IsTransient loaded)
    (held : m.tpm.transient loaded = some object) (evicted : Evicted target c m)
    (done : m.Done (.evictControl loaded target) fields c') :
    Persisted loaded target object c c' := by
  obtain ⟨object', held', owner, free, after⟩ := done.performs.persisted range
  rw [held, Option.some.injEq] at held'
  subst held'
  obtain ⟨s, record⟩ := evicted.evictions_eq
  refine ⟨range, owner, ?_, ?_, [(s, target, target)], m.tpm, ?_, held, .inr ⟨s, rfl⟩⟩
  · rw [after, evicted.persistent_eq, Function.update_idem]
  · rw [after, evicted.pcr7_eq]
  · rw [done.evictions_eq, record]
    rfl

/-- The end of `cmd_seal` and of `cmd_primary`. -/
theorem replace_on {out : Outcome Sys (Except Err Unit)} (range : IsTransient loaded)
    (held : c.tpm.transient loaded = some object)
    (run : RunsOn (device reliable) (do
      tryEvictPersistent target
      evictControl loaded target : Io Unit).run c c' out) :
    (out = .done (.ok ()) ∧ Persisted loaded target object c c') ∨
    ((∃ e, out = .done (.error e)) ∧ (reliable = true → ¬IsOwnerPersistent target) ∧
      (c.Keeps c' ∨ Evicted target c c' ∨ Persisted loaded target object c c')) := by
  rcases Fallible.runsOn_fallible_bind.mp run with
    ⟨_, m, first, rest⟩ | ⟨e, rfl, first⟩ | ⟨stop, rfl, first⟩
  · obtain ⟨-, same, freed⟩ := tryEvictPersistent_evicts first
    rw [← same] at held
    have persisted : ∀ {fields}, m.Done (.evictControl loaded target) fields c' →
        Persisted loaded target object c c' := fun done =>
      freed.elim (fun kept => done.persisted range held kept.2)
        (done.persisted_of_evicted range held)
    have operated := evictControl_on rest
    rcases out with (e | _) | stop
    · obtain ⟨unable, left⟩ := operated
      refine .inr ⟨⟨e, rfl⟩, fun isReliable owner => ?_, ?_⟩
      · have free : m.tpm.persistent target = none := by
          rcases freed with ⟨empty, keeps⟩ | evicted
          · rw [keeps.persistent_eq, empty isReliable owner]
          · rw [evicted.persistent_eq, Function.update_self]
        exact unable isReliable
          (TpmState.can_of_performs (.persist range held owner free) (by decide))
      · rcases left with quiet | ⟨fields, done⟩
        · rcases freed with ⟨-, keeps⟩ | evicted
          · exact .inl (keeps.trans quiet.keeps)
          · exact .inr (.inl (evicted.of_quiet quiet))
        · exact .inr (.inr (persisted done))
    · obtain ⟨fields, done, -⟩ := operated
      exact .inl ⟨rfl, persisted done⟩
    · exact operated.elim
  · cases (tryEvictPersistent_evicts first).1
  · cases (tryEvictPersistent_evicts first).1

end

end Initos.Tpm2

namespace Initos.Seal

open Interact Bytes Marshal Tpm2

variable {T : TpmSpec} {reliable : Bool} {c c' : Chip T}

/-! ## The commands -/

theorem isPersistent_primary : IsPersistent defaultPrimaryHandle := by decide

theorem object_primary (s : TpmState T) :
    s.object defaultPrimaryHandle = s.persistent defaultPrimaryHandle :=
  if_pos isPersistent_primary

/-- The object that `cmd_seal` makes of a secret. -/
def sealedObject (T : TpmSpec) (secret : String) (mode : SealMode) (pcr : T.Pcr) : Object :=
  .sealedData (mode.mark ++ Text.asBytes secret) (T.policyDigest [pcr])

/-- Nothing stands in the way of making the object: the primary is there, the secret fits, and
    the TPM can wrap it. -/
structure Sealable (c : Chip T) (secret : String) (mode : SealMode) : Prop where
  primary : c.tpm.persistent defaultPrimaryHandle = some .storage
  small : (mode.mark ++ Text.asBytes secret).length ≤ maxSealedData
  wrapped : ∃ privArea pubArea, privArea.length + pubArea.length ≤ 4000 ∧
    T.unwrap privArea pubArea = some (sealedObject T secret mode c.tpm.pcr7)

section

variable {m : Chip T} {secret : String} {mode : SealMode} {handle : Option UInt32}

theorem Sealable.under (ready : Sealable c secret mode) (keeps : c.Keeps m) :
    m.tpm.object defaultPrimaryHandle = some .storage := by
  rw [object_primary, keeps.persistent_eq, ready.primary]

/-- The object of a seal can be created. -/
theorem Sealable.can_create (ready : Sealable c secret mode) (keeps : c.Keeps m) :
    m.tpm.Can (.create defaultPrimaryHandle (mode.mark ++ Text.asBytes secret)
      (T.policyDigest [c.tpm.pcr7])) := by
  obtain ⟨privArea, pubArea, fits, wrapped⟩ := ready.wrapped
  have privSize : (UInt16.ofNat privArea.length).toNat = privArea.length := by
    rw [UInt16.toNat_ofNat']; omega
  have pubSize : (UInt16.ofNat pubArea.length).toNat = pubArea.length := by
    rw [UInt16.toNat_ofNat']; omega
  refine TpmState.can_of_performs (.create 0 (ready.under keeps) ready.small wrapped privSize
    pubSize) ?_
  simp only [List.map_cons, List.map_nil, List.sum_cons, List.sum_nil, Field.size, rspBufSize]
  omega

/-- A secret that the TPM takes also fits the size fields of the command. -/
theorem Sealable.createCmd_ne_none (ready : Sealable c secret mode) :
    createCmd defaultPrimaryHandle (mode.mark ++ Text.asBytes secret)
      (T.policyDigest [c.tpm.pcr7]) ≠ none := by
  have dataSmall := ready.small
  rw [maxSealedData] at dataSmall
  have policyLength := T.length_policyDigest [c.tpm.pcr7]
  obtain ⟨bytes, built, -⟩ := builds_create defaultPrimaryHandle
    (mode.mark ++ Text.asBytes secret) (T.policyDigest [c.tpm.pcr7]) (by omega)
    (by rw [policyLength]; decide)
  rw [built]
  exact Option.some_ne_none bytes

/-- The steps of `cmd_seal` up to the loaded object. -/
def loadSealed (secret : String) (mode : SealMode) : Io UInt32 := do
  openDevice
  let policy ← startPolicySession
  policyPcr policy
  let digest ← policyGetDigest policy
  flushContext policy
  let (privArea, pubArea) ← create defaultPrimaryHandle (mode.mark ++ Text.asBytes secret) digest
  load defaultPrimaryHandle privArea pubArea

/-- `cmd_seal` loads the new object, evicts the old one and stores the new one. -/
theorem cmdSeal_eq (secret : String) (mode : SealMode) (handle : Option UInt32) :
    cmdSeal secret mode handle = (do
      let loaded ← loadSealed secret mode
      tryEvictPersistent (sealTarget mode handle)
      evictControl loaded (sealTarget mode handle)) := by
  simp only [cmdSeal, loadSealed, bind_assoc]

/-- Up to the loaded object nothing persistent is touched, and only a TPM that cannot make it,
    or a device that fails, stops there. -/
theorem loadSealed_on {out : Outcome Sys (Except Err UInt32)}
    (run : RunsOn (device reliable) (loadSealed secret mode).run c c' out) :
    c.Keeps c' ∧
    ((∃ loaded, out = .done (.ok loaded) ∧
      (mode.mark ++ Text.asBytes secret).length ≤ maxSealedData ∧ IsTransient loaded ∧
      c'.tpm.transient loaded = some (sealedObject T secret mode c.tpm.pcr7)) ∨
    ((∀ loaded, out ≠ .done (.ok loaded)) ∧ (reliable = true → ¬Sealable c secret mode))) := by
  have failed : ∀ {out : Outcome Sys (Except Err UInt32)}, (∃ e, out = .done (.error e)) →
      ∀ loaded, out ≠ .done (.ok loaded) := by
    rintro _ ⟨e, rfl⟩ loaded ⟨⟩
  rcases policySession_on run with
    ⟨opened, session, keepsOpen, holds, afterDigest⟩ | ⟨unreliable, keeps, error⟩
  swap
  · refine ⟨keeps, .inr ⟨failed error, fun isReliable => ?_⟩⟩
    rw [unreliable] at isReliable
    cases isReliable
  rcases operated_bind flushContext_on afterDigest with
    ⟨_, _, flushed, done, -, afterFlush⟩ | ⟨unable, left, error⟩
  swap
  · refine ⟨keepsOpen.trans (Chip.keeps_of_failed left trivial),
      .inr ⟨failed error, fun isReliable _ => unable isReliable ?_⟩⟩
    exact TpmState.can_flushContext (holds ▸ rfl)
  have keeps := keepsOpen.trans (done.keeps trivial)
  rcases Fallible.runsOn_fallible_bind.mp afterFlush with
    ⟨areas, created, first, afterCreate⟩ | ⟨e, rfl, first⟩ | ⟨stop, rfl, first⟩
  · rcases create_on first with
      ⟨_, createDone, paramSize, privSize, privArea, pubSize, pubArea, rfl, rfl⟩ | ⟨-, -, ⟨⟩⟩
    obtain ⟨same, small, wrapped, privSize_eq, pubSize_eq⟩ := createDone.performs.created
    have keepsCreated := keeps.trans (createDone.keeps trivial)
    have loading := load_on privSize_eq pubSize_eq afterCreate
    rcases out with (e | loaded) | stop
    · obtain ⟨unable, left⟩ := loading
      refine ⟨keepsCreated.trans (Chip.keeps_of_failed left trivial),
        .inr ⟨nofun, fun isReliable ready => unable isReliable ?_⟩⟩
      have range : IsTransient 0x80000000 := by decide
      exact TpmState.can_of_performs (.load (ready.under keepsCreated) wrapped range) (by decide)
    · obtain ⟨_, loadDone, rfl⟩ := loading
      obtain ⟨range, after⟩ := loadDone.performs.loaded wrapped
      refine ⟨keepsCreated.trans (loadDone.keeps trivial), .inl ⟨loaded, rfl, small, range, ?_⟩⟩
      rw [after]
      exact Function.update_self ..
    · exact loading.elim
  · rcases create_on first with ⟨unable, left⟩ | ⟨-, -, ⟨⟩⟩
    exact ⟨keeps.trans (Chip.keeps_of_failed left trivial),
      .inr ⟨nofun, fun isReliable ready => unable isReliable (ready.can_create keeps)⟩⟩
  · rcases create_on first with ⟨⟨⟩⟩ | ⟨unbuilt, rfl, -⟩
    exact ⟨keeps, .inr ⟨nofun, fun _ ready => ready.createCmd_ne_none unbuilt⟩⟩

/-- What `cmd_seal` leaves behind, whatever its result. -/
theorem cmdSeal_on {out : Outcome Sys (Except Err Unit)}
    (run : RunsOn (device reliable) (cmdSeal secret mode handle).run c c' out) :
    (out = .done (.ok ()) ∧ (mode.mark ++ Text.asBytes secret).length ≤ maxSealedData ∧
      ∃ loaded, Persisted loaded (sealTarget mode handle)
        (sealedObject T secret mode c.tpm.pcr7) c c') ∨
    (out ≠ .done (.ok ()) ∧
      (reliable = true → Sealable c secret mode → ¬IsOwnerPersistent (sealTarget mode handle)) ∧
      (c.Keeps c' ∨ Evicted (sealTarget mode handle) c c' ∨
        ∃ loaded, Persisted loaded (sealTarget mode handle)
          (sealedObject T secret mode c.tpm.pcr7) c c')) := by
  rw [cmdSeal_eq] at run
  rcases Fallible.runsOn_fallible_bind.mp run with
    ⟨loaded, m, first, rest⟩ | ⟨e, rfl, first⟩ | ⟨stop, rfl, first⟩
  · obtain ⟨keeps, ⟨_, ⟨⟩, small, range, held⟩ | ⟨impossible, -⟩⟩ := loadSealed_on first
    swap
    · exact absurd rfl (impossible loaded)
    rcases replace_on range held rest with
      ⟨rfl, persisted⟩ | ⟨⟨e, rfl⟩, notOwner, kept | evicted | persisted⟩
    · exact .inl ⟨rfl, small, loaded, persisted.of_keeps keeps⟩
    · exact .inr ⟨nofun, fun isReliable _ => notOwner isReliable, .inl (keeps.trans kept)⟩
    · exact .inr ⟨nofun, fun isReliable _ => notOwner isReliable,
        .inr (.inl (evicted.of_keeps keeps))⟩
    · exact .inr ⟨nofun, fun isReliable _ => notOwner isReliable,
        .inr (.inr ⟨loaded, persisted.of_keeps keeps⟩)⟩
  · obtain ⟨keeps, ⟨_, ⟨⟩, -⟩ | ⟨-, unready⟩⟩ := loadSealed_on first
    exact .inr ⟨nofun, fun isReliable ready => absurd ready (unready isReliable), .inl keeps⟩
  · obtain ⟨keeps, ⟨_, ⟨⟩, -⟩ | ⟨-, unready⟩⟩ := loadSealed_on first
    exact .inr ⟨nofun, fun isReliable ready => absurd ready (unready isReliable), .inl keeps⟩

end

/-- What a run of `cmd_primary` comes to. -/
theorem cmdPrimary_on {out : Outcome Sys (Except Err Unit)}
    (run : RunsOn (device reliable) cmdPrimary.run c c' out) :
    (out = .done (.ok ()) ∧ ∃ loaded, Persisted loaded defaultPrimaryHandle .storage c c') ∨
    (out ≠ .done (.ok ()) ∧ (c.Keeps c' ∨ Evicted defaultPrimaryHandle c c' ∨
      ∃ loaded, Persisted loaded defaultPrimaryHandle .storage c c')) := by
  rcases openDevice_bind run with afterOpen | ⟨-, rfl, e, rfl⟩
  swap
  · exact .inr ⟨nofun, .inl (.refl _)⟩
  rcases operated_bind createPrimary_on afterOpen with
    ⟨_, loaded, m, done, rfl, afterCreate⟩ | ⟨-, left, e, rfl⟩
  swap
  · exact .inr ⟨nofun, .inl (Chip.keeps_of_failed left trivial)⟩
  have keeps := done.keeps trivial
  obtain ⟨range, after⟩ := done.performs.primaryCreated
  have held : m.tpm.transient loaded = some .storage := by
    rw [after]
    exact Function.update_self ..
  rcases replace_on range held afterCreate with
    ⟨rfl, persisted⟩ | ⟨⟨e, rfl⟩, -, kept | evicted | persisted⟩
  · exact .inl ⟨rfl, loaded, persisted.of_keeps keeps⟩
  · exact .inr ⟨nofun, .inl (keeps.trans kept)⟩
  · exact .inr ⟨nofun, .inr (.inl (evicted.of_keeps keeps))⟩
  · exact .inr ⟨nofun, .inr (.inr ⟨loaded, persisted.of_keeps keeps⟩)⟩

end Initos.Seal
