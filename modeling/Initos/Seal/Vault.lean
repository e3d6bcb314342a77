import Mathlib.Logic.Function.Basic
import Initos.Lib.GuardedStore
import Initos.Seal.Tool

/-!
# The TPM as a vault

What `initos seal` stores is an entry under a handle: a value of PCR 7, a mode and a secret.
Whatever `initos` does to the TPM, at boot or as a command, is to this vault a put, a drop or a
change of PCR 7; another program may also persist or evict what it likes. So what `initos unseal`
prints was sealed before, for the value PCR 7 has now, unless another program has meddled with
its handle, and after `initos lock_tpm` nothing comes out until the machine is reset, unless it is
sealed again.

The acts are whole runs of a command, one after another; the TPM may refuse what it likes and
every device access may fail. Other programs send the requests that `src/tpm2.rs` sends; what
else a TPM can do (`TPM2_Clear`, for instance) is not an act.
-/

namespace Initos.Seal

open Interact Tpm2 Boot GuardedStore

variable {T : TpmSpec} {reliable : Bool} {c c' : Chip T}

/-! ## The entries -/

/-- The object that holds an entry. -/
def entryObject (entry : T.Pcr × SealMode × List UInt8) : Object :=
  .sealedData (entry.2.1.mark ++ entry.2.2) (T.policyDigest [entry.1])

/-- An object is one entry: its policy says for which value it was sealed. -/
theorem entryObject_injective : Function.Injective (entryObject (T := T)) := by
  rintro ⟨pcr, mode, secret⟩ ⟨pcr', mode', secret'⟩ same
  obtain ⟨data, policy⟩ := Object.sealedData.inj same
  obtain rfl := T.policyDigest_inj _ _ policy
  -- the marks are of one length
  obtain ⟨marks, rfl⟩ := List.append_inj data (by cases mode <;> cases mode' <;> rfl)
  have modes : mode = mode' := by cases mode <;> cases mode' <;> first | rfl | cases marks
  rw [modes]

/-- The entry under a handle; other objects are none. -/
noncomputable def contents (persistent : UInt32 → Option Object) (handle : UInt32) :
    Option (T.Pcr × SealMode × List UInt8) :=
  (persistent handle).bind (Function.partialInv entryObject)

/-- The TPM as a guarded store. -/
noncomputable def vault (c : Chip T) : Store UInt32 T.Pcr (SealMode × List UInt8) where
  entries := contents c.tpm.persistent
  current := c.tpm.pcr7

theorem entries_vault {handle : UInt32} {entry : T.Pcr × SealMode × List UInt8} :
    (vault c).entries handle = some entry ↔ c.tpm.persistent handle = some (entryObject entry) := by
  have inverse := (entryObject_injective (T := T)).isPartialInv
  constructor
  · intro held
    obtain ⟨object, stored, read⟩ := Option.bind_eq_some_iff.mp held
    rw [stored, (inverse entry object).mp read]
  · intro stored
    exact Option.bind_eq_some_iff.mpr ⟨_, stored, (inverse entry _).mpr rfl⟩

theorem contents_update (persistent : UInt32 → Option Object) (target : UInt32)
    (object : Option Object) :
    contents (T := T) (Function.update persistent target object) =
      Function.update (contents persistent) target
        (object.bind (Function.partialInv entryObject)) := by
  funext handle
  by_cases same : handle = target
  · subst same
    rw [contents, Function.update_self, Function.update_self]
  · rw [contents, Function.update_of_ne same, Function.update_of_ne same, contents]

theorem partialInv_storage : Function.partialInv (entryObject (T := T)) .storage = none := by
  rw [Option.eq_none_iff_forall_ne_some]
  intro entry read
  cases (entryObject_injective.isPartialInv _ _).mp read

/-- What keeps the persistent objects and PCR 7 keeps the vault. -/
theorem vault_of_keeps (keeps : c.Keeps c') : vault c' = vault c := by
  rw [vault, keeps.persistent_eq, keeps.pcr7_eq, vault]

/-- An extend shifts the vault to another value. -/
theorem vault_of_persistent (same : c'.tpm.persistent = c.tpm.persistent) :
    vault c' = (vault c).apply (.shift c'.tpm.pcr7) := by
  rw [vault, same]
  rfl

/-- An eviction drops an entry. -/
theorem vault_of_evicted {target : UInt32} (evicted : Evicted target c c') :
    vault c' = (vault c).apply (.drop target) := by
  rw [vault, evicted.persistent_eq, evicted.pcr7_eq, contents_update]
  rfl

/-- A seal puts one. -/
theorem vault_of_persisted {loaded target : UInt32} {secret : String} {mode : SealMode}
    (persisted : Persisted loaded target (sealedObject T secret mode c.tpm.pcr7) c c') :
    vault c' = (vault c).apply (.put target (mode, Text.asBytes secret)) := by
  have read : Function.partialInv entryObject (sealedObject T secret mode c.tpm.pcr7) =
      some (c.tpm.pcr7, mode, Text.asBytes secret) :=
    (entryObject_injective.isPartialInv _ _).mpr rfl
  rw [vault, persisted.persistent_eq, persisted.pcr7_eq, contents_update, Option.bind_some, read]
  rfl

theorem vault_of_persisted_storage {loaded target : UInt32}
    (persisted : Persisted loaded target .storage c c') :
    vault c' = (vault c).apply (.drop target) := by
  rw [vault, persisted.persistent_eq, persisted.pcr7_eq, contents_update, Option.bind_some,
    partialInv_storage]
  rfl

/-- Another program may put anything. -/
theorem vault_of_meddled {target : UInt32} {object : Option Object}
    (persistent_eq : c'.tpm.persistent = Function.update c.tpm.persistent target object)
    (pcr7_eq : c'.tpm.pcr7 = c.tpm.pcr7) :
    vault c' = (vault c).apply
      (.meddle target (object.bind (Function.partialInv entryObject))) := by
  rw [vault, persistent_eq, pcr7_eq, contents_update]
  rfl

/-! ## The acts -/

/-- What may happen to the TPM, with how it ended. -/
inductive Act where
  | unsealing (mode : SealMode) (handle : Option UInt32)
      (out : Outcome Sys (Except Err (List UInt8)))
  | locking (out : Outcome Sys (Except Err Unit))
  | renewing (out : Outcome Sys (Except Err Unit))
  | sealing (secret : String) (mode : SealMode) (handle : Option UInt32)
      (out : Outcome Sys (Except Err Unit))
  /-- The unlocking of the encrypted directory at boot. -/
  | unlocking (state : String) (verifiedBoot : Bool) (out : Outcome Sys (Except Err Unit))
  /-- A request of another program. -/
  | other (request : Request)
  /-- The machine is reset, and PCR 7 measured again. -/
  | reset

namespace Act

/-- Another program's `EvictControl` for the handle. -/
def Meddles : Act → UInt32 → Prop
  | .other (.evictControl _ handle), target => handle = target
  | _, _ => False

/-- The handle that the act may store at or clear. -/
def Targets : Act → UInt32 → Prop
  | .sealing _ mode handle _, target => sealTarget mode handle = target
  | .renewing _, target => defaultPrimaryHandle = target
  | .other (.evictControl _ handle), target => handle = target
  | _, _ => False

/-- It has ended well, and what the handle held before is gone. -/
def Completes (act : Act) (target : UInt32) : Prop :=
  act.Targets target ∧
    match act with
    | .sealing _ _ _ out | .renewing out => out = .done (.ok ())
    | _ => False

/-- The entry it may put. -/
def Puts : Act → UInt32 → SealMode × List UInt8 → Prop
  | .sealing secret mode handle _, target, entry =>
    sealTarget mode handle = target ∧ entry = (mode, Text.asBytes secret)
  | _, _, _ => False

/-- The TPM after the act. -/
def Does (c : Chip T) (act : Act) (c' : Chip T) : Prop :=
  match act with
  | .unsealing mode handle out => RunsOn (machine false) (cmdUnseal mode handle).run c c' out
  | .locking out => RunsOn (machine false) cmdLockTpm.run c c' out
  | .renewing out => RunsOn (machine false) cmdPrimary.run c c' out
  | .sealing secret mode handle out =>
    RunsOn (machine false) (cmdSeal secret mode handle).run c c' out
  | .unlocking state verifiedBoot out =>
    RunsOn (machine false) (unlockStateC state verifiedBoot).run c c' out
  | .other request => ∃ fields, Performs c.tpm request c'.tpm fields
  | .reset => c'.tpm.persistent = c.tpm.persistent

end Act

/-- Act after act. -/
def Acts : Chip T → List Act → Chip T → Prop := Steps Act.Does

/-! ## What each act does to the vault -/

namespace Act

/-- Only `seal`, `primary` and another program's `EvictControl` touch the persistent objects. -/
theorem Does.persistent_eq {act : Act} (does : act.Does c c')
    (spares : ∀ target, ¬act.Targets target) : c'.tpm.persistent = c.tpm.persistent := by
  cases act with
  | unsealing mode handle out =>
    rw [Does, cmdUnseal_eq] at does
    exact (unsealKeyFromHandle_keeps (does.mono device_of_machine)).persistent_eq
  | locking out => exact (cmdLockTpm_on does).1
  | unlocking state verifiedBoot out => exact unlockStateC_persistent does
  | other request =>
    obtain ⟨fields, performs⟩ := does
    refine performs.persistent_of_not_evict ?_
    rintro handle target rfl
    exact spares target rfl
  | reset => exact does
  | renewing | sealing => exact absurd rfl (spares _)

/-- The operation of the vault that the act is. -/
def ExplainedBy (act : Act) (c c' : Chip T) (op : Op UInt32 T.Pcr (SealMode × List UInt8)) : Prop :=
  vault c' = (vault c).apply op ∧ (∀ target entry, op = .put target entry → act.Puts target entry) ∧
    ∀ target entry, op = .meddle target entry → act.Meddles target

/-- Every act is one operation on the vault, or none. -/
theorem explained {act : Act} (does : act.Does c c') :
    vault c' = vault c ∨ ∃ op, act.ExplainedBy c c' op := by
  have unchanged : (∀ target, ¬act.Targets target) → ∃ op, act.ExplainedBy c c' op := fun spares =>
    ⟨_, vault_of_persistent (does.persistent_eq spares), by rintro _ _ ⟨⟩, by rintro _ _ ⟨⟩⟩
  have dropped : ∀ {target}, vault c' = (vault c).apply (.drop target) →
      ∃ op, act.ExplainedBy c c' op := fun after =>
    ⟨_, after, by rintro _ _ ⟨⟩, by rintro _ _ ⟨⟩⟩
  cases act with
  | sealing secret mode handle out =>
    have replaced : c.Keeps c' ∨ Evicted (sealTarget mode handle) c c' ∨
        ∃ loaded, Persisted loaded (sealTarget mode handle)
          (sealedObject T secret mode c.tpm.pcr7) c c' := by
      obtain ⟨-, -, persisted⟩ | ⟨-, -, replaced⟩ := cmdSeal_on (does.mono device_of_machine)
      · exact .inr (.inr persisted)
      · exact replaced
    rcases replaced with keeps | evicted | ⟨loaded, persisted⟩
    · exact .inl (vault_of_keeps keeps)
    · exact .inr (dropped (vault_of_evicted evicted))
    · refine .inr ⟨_, vault_of_persisted persisted, ?_, by rintro _ _ ⟨⟩⟩
      rintro _ _ ⟨⟩
      exact ⟨rfl, rfl⟩
  | renewing out =>
    rcases cmdPrimary_on (does.mono device_of_machine) with
      ⟨-, loaded, persisted⟩ | ⟨-, keeps | evicted | ⟨loaded, persisted⟩⟩
    · exact .inr (dropped (vault_of_persisted_storage persisted))
    · exact .inl (vault_of_keeps keeps)
    · exact .inr (dropped (vault_of_evicted evicted))
    · exact .inr (dropped (vault_of_persisted_storage persisted))
  | other request =>
    cases request with
    | evictControl handle target =>
      obtain ⟨fields, performs⟩ := does
      obtain ⟨pcr7_eq, object, persistent_eq⟩ := performs.persistent_of_evict
      refine .inr ⟨_, vault_of_meddled persistent_eq pcr7_eq, by rintro _ _ ⟨⟩, ?_⟩
      rintro _ _ ⟨⟩
      rfl
    | _ => exact .inr (unchanged fun _ => id)
  | unsealing | locking | unlocking | reset => exact .inr (unchanged fun _ => id)

/-- A completed act has put or dropped the entry of its target. -/
theorem completed {act : Act} {target : UInt32} (does : act.Does c c')
    (completes : act.Completes target) :
    (∃ entry, act.Puts target entry ∧ vault c' = (vault c).apply (.put target entry)) ∨
      vault c' = (vault c).apply (.drop target) := by
  obtain ⟨targets, ended⟩ := completes
  cases act with
  | sealing secret mode handle out =>
    obtain rfl : sealTarget mode handle = target := targets
    rcases cmdSeal_on (does.mono device_of_machine) with
      ⟨-, -, loaded, persisted⟩ | ⟨impossible, -⟩
    · exact .inl ⟨_, ⟨rfl, rfl⟩, vault_of_persisted persisted⟩
    · exact absurd ended impossible
  | renewing out =>
    obtain rfl : defaultPrimaryHandle = target := targets
    rcases cmdPrimary_on (does.mono device_of_machine) with ⟨-, loaded, persisted⟩ | ⟨impossible, -⟩
    · exact .inr (vault_of_persisted_storage persisted)
    · exact absurd ended impossible
  | unsealing | locking | unlocking | other | reset => exact ended.elim

/-- The acts on a TPM refine the operations of a guarded store. -/
theorem refines : Refines (Does (T := T)) vault Puts Meddles Completes where
  explained := explained
  completed := completed

/-- PCR 7 never comes back to a value it has left, but by a reset. -/
theorem Does.onward {act : Act} (does : act.Does c c') (running : act ≠ .reset) :
    Onward c.tpm c'.tpm := by
  cases act with
  | unsealing | locking | renewing | sealing | unlocking =>
    exact onward_of_runsOn (RunsOn.mono device_of_machine does)
  | other request =>
    obtain ⟨fields, performs⟩ := does
    exact performs.onward
  | reset => exact absurd rfl running

/-- An act leaves the handles alone that it does not target. -/
theorem Does.frame {act : Act} {target : UInt32} (does : act.Does c c')
    (spares : ¬act.Targets target) : c'.tpm.persistent target = c.tpm.persistent target := by
  cases act with
  | sealing secret mode handle out =>
    exact cmdSeal_frame (does.mono device_of_machine) fun same => spares same.symm
  | renewing out =>
    have differ : target ≠ defaultPrimaryHandle := fun same => spares same.symm
    rcases cmdPrimary_on (does.mono device_of_machine) with
      ⟨-, loaded, persisted⟩ | ⟨-, keeps | evicted | ⟨loaded, persisted⟩⟩
    · rw [persisted.persistent_eq, Function.update_of_ne differ]
    · rw [keeps.persistent_eq]
    · rw [evicted.persistent_eq, Function.update_of_ne differ]
    · rw [persisted.persistent_eq, Function.update_of_ne differ]
  | other request =>
    cases request with
    | evictControl handle target' =>
      obtain ⟨fields, performs⟩ := does
      obtain ⟨-, object, persistent_eq⟩ := performs.persistent_of_evict
      rw [persistent_eq, Function.update_of_ne fun same => spares same.symm]
    | _ => rw [does.persistent_eq fun _ => id]
  | unsealing | locking | unlocking | reset =>
    rw [does.persistent_eq fun _ => id]

end Act

/-- So do any number of acts. -/
theorem Acts.frame {acts : List Act} {target : UInt32} (happened : Acts c acts c')
    (spares : ∀ act ∈ acts, ¬act.Targets target) :
    c'.tpm.persistent target = c.tpm.persistent target := by
  induction acts generalizing c with
  | nil => rw [happened]
  | cons act acts ih =>
    obtain ⟨m, first, rest⟩ := happened
    rw [List.forall_mem_cons] at spares
    rw [ih rest spares.2, first.frame spares.1]

/-- Without a reset, PCR 7 does not come back to an earlier value. -/
theorem Acts.onward {acts : List Act} (happened : Acts c acts c') (running : Act.reset ∉ acts) :
    Onward c.tpm c'.tpm := by
  induction acts generalizing c with
  | nil =>
    rw [happened]
    exact .refl _
  | cons act acts ih =>
    obtain ⟨m, first, rest⟩ := happened
    rw [List.mem_cons, not_or] at running
    exact (first.onward (Ne.symm running.1)).trans (ih rest running.2)

/-! ## The commands as acts -/

/-- The act that a command comes down to. -/
def Act.Serves : Act → TpmCommand → Prop
  | .unsealing mode handle _, command => command.Asks mode handle
  | .locking _, .lockTpm => True
  | .renewing _, .primary => True
  | .sealing secret mode handle _, .sealing args =>
    secret ≠ "" ∧ Seal.Targets args (sealTarget mode handle)
  | _, _ => False

/-- A command that opens the TPM does one act, or leaves the TPM alone. -/
theorem does_of_command {command : TpmCommand} {out : Outcome Sys (Except Err (List UInt8))}
    (run : RunsOn (machine false) command.run c c' out) :
    c' = c ∨ ∃ act : Act, act.Serves command ∧ act.Does c c' := by
  have ended : ∀ {p : Io Unit} {out : Outcome Sys (Except Err (List UInt8))},
      RunsOn (machine false) (do p; return [] : Io (List UInt8)).run c c' out →
        ∃ out', RunsOn (machine false) p.run c c' out' := by
    intro p out run
    rcases Fallible.runsOn_fallible_bind.mp run with
      ⟨_, m, first, rest⟩ | ⟨e, -, first⟩ | ⟨stop, -, first⟩
    · rw [(runsOn_pure.mp rest).1]
      exact ⟨_, first⟩
    · exact ⟨_, first⟩
    · exact ⟨_, first⟩
  cases command with
  | bare =>
    refine (Fallible.runsOn_bind_of_uses machine_host detectSealMode_uses run).imp_right ?_
    rintro ⟨mode, -, rest⟩
    exact ⟨.unsealing mode none out, rfl, rest⟩
  | unsealing args =>
    refine (Fallible.runsOn_bind_of_uses machine_host (parseUnsealArgs_uses args) run).elim .inl ?_
    rintro ⟨result, parsing, rest⟩
    cases result with
    | error e => exact .inl (runsOn_halt.mp rest).1
    | ok result =>
      obtain ⟨mode, handle⟩ := result
      exact .inr ⟨.unsealing mode handle out, (parseUnsealArgs_on parsing).2, rest⟩
  | lockTpm =>
    obtain ⟨out', locking⟩ := ended run
    exact .inr ⟨.locking out', trivial, locking⟩
  | primary =>
    obtain ⟨out', renewing⟩ := ended run
    exact .inr ⟨.renewing out', trivial, renewing⟩
  | sealing args =>
    obtain ⟨out', sealing⟩ := ended run
    refine (Fallible.runsOn_bind_of_uses machine_host (parseSealArgs_uses args) sealing).elim
      .inl ?_
    rintro ⟨parsed, parsing, rest⟩
    cases parsed with
    | error e => exact .inl (runsOn_halt.mp rest).1
    | ok parsed =>
      obtain ⟨mode, handle, secretFile⟩ := parsed
      obtain ⟨-, targets⟩ := parseSealArgs_on (parsing.mono device_of_machine)
      refine (Fallible.runsOn_attempt_bind_of_uses machine_host (readSecretInput_uses secretFile)
        rest).elim .inl ?_
      rintro ⟨result, -, afterRead⟩
      cases result with
      | error e => exact .inl (runsOn_halt.mp afterRead).1
      | ok secret =>
        dsimp only at afterRead
        split at afterRead
        case isTrue given =>
          exact .inr ⟨.sealing secret mode handle out', ⟨given, targets⟩, afterRead⟩
        case isFalse => exact .inl (runsOn_halt.mp afterRead).1

/-! ## Runs on a reliable TPM -/

/-- A TPM on which nothing stands in the way stores the entry. -/
theorem exists_sealing {secret : String} {mode : SealMode} {handle : Option UInt32}
    (ready : Sealable c secret mode) (owner : IsOwnerPersistent (sealTarget mode handle)) :
    ∃ m, Act.Does c (.sealing secret mode handle (.done (.ok ()))) m ∧
      m.tpm.pcr7 = c.tpm.pcr7 ∧ m.tpm.persistent (sealTarget mode handle) =
        some (sealedObject T secret mode c.tpm.pcr7) := by
  obtain ⟨m, out, run⟩ := exists_runsOn (machine_total true) (cmdSeal secret mode handle).run c
  rcases cmdSeal_on (run.mono device_of_machine) with
    ⟨rfl, -, loaded, persisted⟩ | ⟨-, unready, -⟩
  · refine ⟨m, run.mono machine_of_reliable, persisted.pcr7_eq, ?_⟩
    rw [persisted.persistent_eq, Function.update_self]
  · exact absurd owner (unready rfl ready)

theorem exists_unsealing {secret : String} {mode : SealMode} {pcr : T.Pcr}
    (small : (mode.mark ++ Text.asBytes secret).length ≤ maxSealedData)
    (stored : c.tpm.persistent (sealTarget mode none) = some (sealedObject T secret mode pcr))
    (current : c.tpm.pcr7 = pcr) :
    ∃ after, RunsOn (machine true) (cmdUnseal mode none).run c after
      (.done (.ok (Text.asBytes secret))) := by
  subst current
  obtain ⟨after, out, run⟩ := exists_runsOn (machine_total true) (cmdUnseal mode none).run c
  have range := isPersistent_sealTarget mode (show ∀ given, none = some given → _ by rintro _ ⟨⟩)
  cases cmdUnseal_prints range stored small (run.mono device_of_machine)
  exact ⟨after, run⟩

/-- `initos unseal --dev` with the sample TPM. -/
theorem exists_unsealing_dev {m : Chip sampleSpec} {pcr : Bool} (current : m.tpm.pcr7 = pcr)
    (stored : m.tpm.persistent (sealTarget .dev none) =
      some (sealedObject sampleSpec "key" .dev pcr)) :
    ∃ after, RunsOn (machine true) (TpmCommand.unsealing ["--dev"]).run m after
      (.done (.ok (Text.asBytes "key"))) := by
  obtain ⟨after, run⟩ := exists_unsealing (by decide) stored current
  exact ⟨after, Fallible.runsOn_fallible_bind.mpr (.inl ⟨.ok (.dev, none), m,
    runsOn_pure.mpr ⟨rfl, rfl⟩, run⟩)⟩

theorem blank_sampleChip (target : UInt32) : (vault sampleChip).entries target = none := by
  rw [Option.eq_none_iff_forall_ne_some]
  intro entry held
  have stored := entries_vault.mp held
  simp only [sampleChip] at stored
  split at stored <;> cases stored

/-! ## Where a printed secret comes from -/

/-- What `cmd_unseal` prints is in the vault, for the present value of PCR 7. -/
theorem reads_of_cmdUnseal {mode : SealMode} {handle : Option UInt32} {printed : List UInt8}
    (range : IsPersistent (sealTarget mode handle))
    (run : RunsOn (machine reliable) (cmdUnseal mode handle).run c c' (.done (.ok printed))) :
    (vault c).Reads (sealTarget mode handle) (mode, printed) :=
  entries_vault.mpr (cmdUnseal_on range (run.mono device_of_machine))

/-- One of the acts between `c` and `c'` has sealed `printed` in this mode at the target, while
    PCR 7 had the value it has at the end; the target has not been replaced or cleared since. -/
def SealedIn (c : Chip T) (acts : List Act) (c' : Chip T) (mode : SealMode) (target : UInt32)
    (printed : List UInt8) : Prop :=
  ∃ earlier later secret handle out m m',
    acts = earlier ++ .sealing secret mode handle out :: later ∧
    Acts c earlier m ∧ Act.Does m (.sealing secret mode handle out) m' ∧ Acts m' later c' ∧
    sealTarget mode handle = target ∧ printed = Text.asBytes secret ∧
    m.tpm.pcr7 = c'.tpm.pcr7 ∧ ∀ act ∈ later, ¬act.Completes target

/-- No other program persists or evicts anything at a handle that the command asks for. -/
def LeftAlone (acts : List Act) (command : TpmCommand) : Prop :=
  ∀ act ∈ acts, ∀ mode handle, command.Asks mode handle → ¬act.Meddles (sealTarget mode handle)

/-- The vault starts without entries. Whatever an `initos unseal` prints after any acts was given
    to one of them to seal, for what is asked, if other programs have left its handle alone. -/
theorem unseal_prints_sealed {acts : List Act} {command : TpmCommand} {printed : List UInt8}
    {after : Chip T} (blank : ∀ target, (vault c).entries target = none)
    (happened : Acts c acts c') (alone : LeftAlone acts command) (unseals : command.Unseals)
    (run : RunsOn (machine reliable) command.run c' after (.done (.ok printed))) :
    ∃ mode handle, command.Asks mode handle ∧
      SealedIn c acts c' mode (sealTarget mode handle) printed := by
  obtain ⟨mode, handle, asks, range, unsealing⟩ := unseals_on unseals run
  refine ⟨mode, handle, asks, ?_⟩
  rcases Act.refines.exists_origin (fun act member => alone act member mode handle asks) happened
    (reads_of_cmdUnseal range unsealing) with ⟨there, -⟩ | origin
  · rw [blank] at there
    cases there
  cases origin with
  | @intro earlier later act m m' led put follows isPut under last =>
    cases act with
    | sealing secret mode' handle' out =>
      obtain ⟨target, entry⟩ := isPut
      obtain ⟨rfl, rfl⟩ := Prod.mk.inj entry
      exact ⟨earlier, later, secret, handle', out, m, m', rfl, led, put, follows, target, rfl,
        under, last⟩
    | unsealing | locking | renewing | unlocking | other | reset => exact isPut.elim

theorem unseal_prints_sealed_dev : ∃ (m after : Chip sampleSpec) (mode : SealMode)
    (handle : Option UInt32), RunsOn (machine true) (TpmCommand.unsealing ["--dev"]).run m after
      (.done (.ok (Text.asBytes "key"))) ∧
    SealedIn sampleChip [.sealing "key" .dev none (.done (.ok ()))] m mode (sealTarget mode handle)
      (Text.asBytes "key") := by
  obtain ⟨m, sealing, current, stored⟩ :=
    exists_sealing (sealable_sampleChip .dev)
      (show IsOwnerPersistent (sealTarget .dev none) by decide)
  obtain ⟨after, run⟩ := exists_unsealing_dev current stored
  have unseals : (TpmCommand.unsealing ["--dev"]).Unseals := trivial
  have alone : LeftAlone [.sealing "key" .dev none (.done (.ok ()))] (.unsealing ["--dev"]) := by
    simp [LeftAlone, Act.Meddles]
  obtain ⟨mode, handle, -, origin⟩ :=
    unseal_prints_sealed blank_sampleChip (steps_singleton.mpr sealing) alone unseals run
  exact ⟨m, after, mode, handle, run, origin⟩

/-! ## After a lock -/

/-- Nothing that was stored for some other value than PCR 7 had in `c` was stored for the value it
    has in `c'`: an extension with random bytes meets none of them. -/
def Unforeseen (c c' : Chip T) : Prop :=
  ∀ target entry, (vault c).entries target = some entry → entry.1 ≠ c.tpm.pcr7 →
    entry.1 ≠ c'.tpm.pcr7

/-- A seal leaves PCR 7 alone. -/
theorem Act.Does.pcr7_eq {secret : String} {mode : SealMode} {handle : Option UInt32}
    {out : Outcome Sys (Except Err Unit)} (does : Act.Does c (.sealing secret mode handle out) c') :
    c'.tpm.pcr7 = c.tpm.pcr7 := by
  rcases cmdSeal_on (does.mono device_of_machine) with
    ⟨-, -, loaded, persisted⟩ | ⟨-, -, keeps | evicted | ⟨loaded, persisted⟩⟩
  · exact persisted.pcr7_eq
  · exact keeps.pcr7_eq
  · exact evicted.pcr7_eq
  · exact persisted.pcr7_eq

/-- Once PCR 7 has moved on, by an `initos lock_tpm` that succeeded or otherwise, to values that
    nothing older was sealed for, `initos unseal` prints until the next reset only what is sealed
    from then on, if other programs leave its handle alone. -/
theorem unseal_after_lock {acts : List Act} {act : Act} {command : TpmCommand}
    {printed : List UInt8} {m after : Chip T} (does : act.Does c m) (running : act ≠ .reset)
    (moved : act = .locking (.done (.ok ())) ∨ m.tpm.pcr7 ≠ c.tpm.pcr7)
    (happened : Acts m acts c') (still : Act.reset ∉ acts) (unforeseen : Unforeseen c c')
    (alone : LeftAlone (act :: acts) command) (unseals : command.Unseals)
    (run : RunsOn (machine reliable) command.run c' after (.done (.ok printed))) :
    ∃ mode handle secret handle' out, command.Asks mode handle ∧
      .sealing secret mode handle' out ∈ acts ∧
      sealTarget mode handle' = sealTarget mode handle ∧ printed = Text.asBytes secret := by
  obtain ⟨mode, handle, asks, range, unsealing⟩ := unseals_on unseals run
  have left : m.tpm.pcr7 ≠ c.tpm.pcr7 := by
    rcases moved with rfl | moved
    · exact (cmdLockTpm_on does).2 rfl
    · exact moved
  have gone : c'.tpm.pcr7 ≠ c.tpm.pcr7 :=
    (does.onward running).pcr7_ne left (happened.onward still)
  have all : Acts c (act :: acts) c' := ⟨m, does, happened⟩
  rcases Act.refines.exists_origin (fun act member => alone act member mode handle asks) all
    (reads_of_cmdUnseal range unsealing) with ⟨there, -⟩ | origin
  · exact absurd rfl (unforeseen _ _ there gone)
  obtain ⟨act', member, isPut⟩ := origin.mem
  cases act' with
  | sealing secret mode' handle' out =>
    obtain ⟨target, entry⟩ := isPut
    obtain ⟨rfl, rfl⟩ := Prod.mk.inj entry
    -- the first act has moved PCR 7, so it was no seal
    rcases List.mem_cons.mp member with rfl | later
    · exact absurd does.pcr7_eq left
    · exact ⟨mode, handle, secret, handle', out, asks, later, target, rfl⟩
  | unsealing | locking | renewing | unlocking | other | reset => exact isPut.elim

/-- A reliable TPM that has a value left for PCR 7 is locked. -/
theorem exists_cmdLockTpm {value : T.Pcr} (new : value ∉ c.tpm.pcr7 :: c.tpm.former) :
    ∃ m, RunsOn (machine true) cmdLockTpm.run c m (.done (.ok ())) := by
  have length : (List.replicate 32 (0 : UInt8)).length = 32 := List.length_replicate
  have carries :
      Carries (pcrExtendCmd 7 (List.replicate 32 0)) (.pcrExtend 7 (List.replicate 32 0)) :=
    (builds_pcrExtend 7 length).carries (decode_pcrExtend length)
  obtain ⟨m, out, extending⟩ := exists_runsOn (machine_total true) (do
    let _ ← Tpm2.request (pcrExtendCmd 7 (List.replicate 32 0)) "PCR_Extend" : Io Unit).run c
  have operated := operated_of_request_unit carries (extending.mono device_of_machine)
  have done : out = .done (.ok ()) := by
    rcases out with (e | _) | stop
    · exact absurd (TpmState.can_of_performs (.pcrExtend new) (by decide)) (operated.1 rfl)
    · rfl
    · exact operated.elim
  subst done
  refine ⟨m, Fallible.runsOn_fallible_bind.mpr (.inl ⟨(), c, ?_, ?_⟩)⟩
  · exact Fallible.runsOn_attempt_call_bind.mpr
      ⟨.ok (), c, ⟨rfl, trivial⟩, runsOn_pure.mpr ⟨rfl, rfl⟩⟩
  · refine Fallible.runsOn_attempt_call_bind.mpr ⟨.ok (), c, ⟨rfl, trivial⟩, ?_⟩
    refine Fallible.runsOn_call_bind.mpr ⟨.ok (List.replicate 32 0), c, ⟨rfl, ?_⟩, extending⟩
    rintro _ ⟨⟩
    exact length

theorem unseal_after_lock_dev : ∃ (m c' after : Chip sampleSpec) (mode : SealMode)
    (handle : Option UInt32) (secret : String) (handle' : Option UInt32)
    (out : Outcome Sys (Except Err Unit)),
    Act.Does sampleChip (.locking (.done (.ok ()))) m ∧
    RunsOn (machine true) (TpmCommand.unsealing ["--dev"]).run c' after
      (.done (.ok (Text.asBytes "key"))) ∧
    Act.sealing secret mode handle' out ∈ [Act.sealing "key" .dev none (.done (.ok ()))] ∧
    sealTarget mode handle' = sealTarget mode handle ∧
    Text.asBytes "key" = Text.asBytes secret := by
  have new : true ∉ sampleChip.tpm.pcr7 :: sampleChip.tpm.former := by
    intro member
    cases List.mem_singleton.mp member
  obtain ⟨m, run⟩ := exists_cmdLockTpm new
  have locking : Act.Does sampleChip (.locking (.done (.ok ()))) m := run.mono machine_of_reliable
  have ready : Sealable m "key" .dev :=
    { primary := by rw [(cmdLockTpm_on run).1]; rfl
      small := (sealable_sampleChip .dev).small
      wrapped := ⟨SealMode.dev.mark ++ Text.asBytes "key", sampleSpec.policyDigest [m.tpm.pcr7],
        by rw [sampleSpec.length_policyDigest]; decide, rfl⟩ }
  obtain ⟨c', sealing, current, stored⟩ :=
    exists_sealing ready (show IsOwnerPersistent (sealTarget .dev none) by decide)
  obtain ⟨after, run⟩ := exists_unsealing_dev current stored
  have unseals : (TpmCommand.unsealing ["--dev"]).Unseals := trivial
  have unforeseen : Unforeseen sampleChip c' := by
    intro target entry held
    rw [blank_sampleChip] at held
    cases held
  have alone : LeftAlone [.locking (.done (.ok ())), .sealing "key" .dev none (.done (.ok ()))]
      (.unsealing ["--dev"]) := by
    simp [LeftAlone, Act.Meddles]
  obtain ⟨mode, handle, secret, handle', out, -, member, target, printed⟩ :=
    unseal_after_lock locking (by simp) (.inl rfl) (steps_singleton.mpr sealing) (by simp)
      unforeseen alone unseals run
  exact ⟨m, c', after, mode, handle, secret, handle', out, locking, run, member, target, printed⟩

/-! ## While nobody stores at the handle -/

/-- A sealed secret stays available: as long as nobody, `initos` or not, stores at its handle or
    clears it, whatever else happens, `cmd_unseal` on a reliable TPM prints it while PCR 7 has the
    value it was sealed for, and no `cmd_unseal` of the handle prints anything while it has
    another. -/
theorem sealed_stays {acts : List Act} {secret : String} {mode : SealMode} {handle : Option UInt32}
    {m : Chip T} (stored : Act.Does c (.sealing secret mode handle (.done (.ok ()))) m)
    (happened : Acts m acts c') (spares : ∀ act ∈ acts, ¬act.Targets (sealTarget mode handle)) :
    (c'.tpm.pcr7 = c.tpm.pcr7 →
      (∃ after out, RunsOn (machine true) (cmdUnseal mode handle).run c' after out) ∧
      ∀ after out, RunsOn (machine true) (cmdUnseal mode handle).run c' after out →
        out = .done (.ok (Text.asBytes secret))) ∧
    (c'.tpm.pcr7 ≠ c.tpm.pcr7 → ∀ mode' reliable after out,
      RunsOn (machine reliable) (cmdUnseal mode' (some (sealTarget mode handle))).run
        c' after out →
        ∃ e, out = .done (.error e)) := by
  obtain ⟨-, small, loaded, persisted⟩ | ⟨impossible, -⟩ :=
    cmdSeal_on (stored.mono device_of_machine)
  swap
  · exact absurd rfl impossible
  have range := persisted.owner.isPersistent
  have kept := happened.frame spares
  rw [persisted.persistent_eq, Function.update_self] at kept
  constructor
  · intro same
    refine ⟨exists_runsOn (machine_total true) _ _, fun after out run => ?_⟩
    rw [sealedObject, ← same] at kept
    exact cmdUnseal_prints range kept small (run.mono device_of_machine)
  · intro differ mode' reliable after out run
    exact cmdUnseal_refused range kept differ (run.mono device_of_machine)

theorem sealed_stays_key : ∃ m : Chip sampleSpec,
    Act.Does sampleChip (.sealing "key" .dev none (.done (.ok ()))) m ∧
      ∀ after out, RunsOn (machine true) (cmdUnseal .dev none).run m after out →
        out = .done (.ok (Text.asBytes "key")) := by
  obtain ⟨m, sealing, current, -⟩ :=
    exists_sealing (sealable_sampleChip .dev)
      (show IsOwnerPersistent (sealTarget .dev none) by decide)
  have happened : Acts m [] m := rfl
  exact ⟨m, sealing, ((sealed_stays sealing happened (List.forall_mem_nil _)).1 current).2⟩

end Initos.Seal
