import Initos.Seal.RoundTrip

/-!
# What becomes of the persistent objects

A seal that fails may already have evicted the object it was to replace; nothing but the
target of a seal is ever touched.
-/

namespace Initos.Seal

open Interact Tpm2

variable {T : TpmSpec} {reliable : Bool} {c c' : Chip T}

/-! ## Failures -/

/-- The end of a replacement that failed with its last command: the new object had been loaded,
    the TPM had evicted the old one, and the `EvictControl` of the new one failed. The handle is
    free then, unless the TPM has persisted the new object and only the answer got lost. -/
def ReplacementFailed (reliable : Bool) (loads : Io UInt32) (target : UInt32) (e : Err)
    (c c' : Chip T) : Prop :=
  ∃ loaded m m', RunsOn (device reliable) loads.run c m (.done (.ok loaded)) ∧
    RunsOn (device reliable) (tryEvictPersistent target).run m m' (.done (.ok ())) ∧
    Evicted target m m' ∧
    RunsOn (device reliable) (evictControl loaded target).run m' c' (.done (.error e)) ∧
    (c'.tpm.persistent target = none ∨
      c'.tpm.persistent target = m'.tpm.transient loaded)

/-- No persistent object has changed, unless a replacement failed with its last command. -/
def KeptUnlessEvicted (reliable : Bool) (loads : Io UInt32) (target : UInt32) (e : Err)
    (c c' : Chip T) : Prop :=
  c'.tpm.persistent = c.tpm.persistent ∨ ReplacementFailed reliable loads target e c c'

/-- The steps of `cmd_primary` up to the loaded object. -/
def loadPrimary : Io UInt32 := do
  openDevice
  createPrimary

/-- `cmd_primary` loads the new object, evicts the old one and stores the new one. -/
theorem cmdPrimary_eq : cmdPrimary = (do
    let loaded ← loadPrimary
    tryEvictPersistent defaultPrimaryHandle
    evictControl loaded defaultPrimaryHandle) := by
  simp only [cmdPrimary, loadPrimary, bind_assoc]

/-- Up to the load, the persistent objects stay as they are. -/
theorem loadPrimary_on {out : Outcome Sys (Except Err UInt32)}
    (run : RunsOn (device reliable) loadPrimary.run c c' out) :
    c.Keeps c' ∧ ((∃ loaded, out = .done (.ok loaded) ∧ IsTransient loaded) ∨
      (reliable = false ∧ ∃ e, out = .done (.error e))) := by
  rcases openDevice_bind run with created | ⟨unreliable, rfl, error⟩
  swap
  · exact ⟨.refl _, .inr ⟨unreliable, error⟩⟩
  have operated := createPrimary_on created
  rcases out with (e | loaded) | stop
  · obtain ⟨unable, left⟩ := operated
    have range : IsTransient 0x80000000 := by decide
    have can : c.tpm.Can .createPrimary :=
      TpmState.can_of_performs (.createPrimary range) (by decide)
    exact ⟨Chip.keeps_of_failed left trivial, .inr ⟨unreliable_of_can can unable, e, rfl⟩⟩
  · obtain ⟨fields, done, rfl⟩ := operated
    exact ⟨done.keeps trivial, .inl ⟨loaded, rfl, done.performs.primaryCreated.1⟩⟩
  · exact operated.elim

/-- A replacement of what is stored that fails, whatever is loaded for it. -/
theorem keptUnlessEvicted_of_replacement {loads : Io UInt32} {target : UInt32} {e : Err}
    (loading : ∀ {m out}, RunsOn (device reliable) loads.run c m out →
      c.Keeps m ∧ ∀ loaded, out = .done (.ok loaded) → IsTransient loaded)
    (stored : (c.tpm.persistent target).isSome)
    (run : RunsOn (device reliable) (do
      let loaded ← loads
      tryEvictPersistent target
      evictControl loaded target : Io Unit).run c c' (.done (.error e))) :
    KeptUnlessEvicted reliable loads target e c c' := by
  rcases Fallible.runsOn_fallible_bind.mp run with
    ⟨loaded, m, first, rest⟩ | ⟨e', failed, first⟩ | ⟨stop, impossible, -⟩
  · obtain ⟨keeps, range⟩ := loading first
    obtain ⟨_, m', evicting, persisting⟩ | ⟨_, -, evicting⟩ | ⟨stop, impossible, -⟩ :=
      Fallible.runsOn_fallible_bind.mp rest
    · obtain ⟨-, same, ⟨-, kept⟩ | evicted⟩ := tryEvictPersistent_evicts evicting
      · -- the old object is in the way of the new one
        obtain ⟨-, quiet | ⟨fields, done⟩⟩ := evictControl_on persisting
        · exact .inl ((keeps.trans kept).trans quiet.keeps).persistent_eq
        · obtain ⟨-, -, -, free, -⟩ := done.performs.persisted (range loaded rfl)
          rw [kept.persistent_eq, keeps.persistent_eq] at free
          rw [free] at stored
          cases stored
      · refine .inr ⟨loaded, m, m', first, evicting, evicted, persisting, ?_⟩
        obtain ⟨-, quiet | ⟨fields, done⟩⟩ := evictControl_on persisting
        · exact .inl ((evicted.of_quiet quiet).persistent_eq ▸ Function.update_self ..)
        · obtain ⟨object, held, -, -, after⟩ := done.performs.persisted (range loaded rfl)
          rw [held, after]
          exact .inr (Function.update_self ..)
    · cases (tryEvictPersistent_evicts evicting).1
    · cases impossible
  · exact .inl (loading first).1.persistent_eq
  · cases impossible

/-- A failed `cmd_seal` or `cmd_primary` has kept what was stored at its target, unless the
    object to be put there was loaded, the old one evicted, and the last command failed. -/
theorem kept_unless_evicted :
    (∀ (secret : String) (mode : SealMode) (handle : Option UInt32) (c c' : Chip T) (e : Err),
      (c.tpm.persistent (sealTarget mode handle)).isSome →
      RunsOn (device reliable) (cmdSeal secret mode handle).run c c' (.done (.error e)) →
        KeptUnlessEvicted reliable (loadSealed secret mode) (sealTarget mode handle) e c c') ∧
    (∀ (c c' : Chip T) (e : Err), (c.tpm.persistent defaultPrimaryHandle).isSome →
      RunsOn (device reliable) cmdPrimary.run c c' (.done (.error e)) →
        KeptUnlessEvicted reliable loadPrimary defaultPrimaryHandle e c c') := by
  constructor
  · intro secret mode handle c c' e stored run
    rw [cmdSeal_eq] at run
    refine keptUnlessEvicted_of_replacement (fun loading => ?_) stored run
    obtain ⟨keeps, ⟨loaded, rfl, -, range, -⟩ | ⟨failed, -⟩⟩ := loadSealed_on loading
    · exact ⟨keeps, by rintro _ ⟨⟩; exact range⟩
    · exact ⟨keeps, fun loaded same => absurd same (failed loaded)⟩
  · intro c c' e stored run
    rw [cmdPrimary_eq] at run
    refine keptUnlessEvicted_of_replacement (fun loading => ?_) stored run
    obtain ⟨keeps, ⟨loaded, rfl, range⟩ | ⟨-, e, rfl⟩⟩ := loadPrimary_on loading
    · exact ⟨keeps, by rintro _ ⟨⟩; exact range⟩
    · exact ⟨keeps, nofun⟩

/-- The write of `TPM2_EvictControl` fails. -/
theorem evictControl_fails (object target : UInt32) (c : Chip T) :
    RunsOn (device false) (evictControl object target).run c c (.done (.error (.msg "io"))) := by
  obtain ⟨bytes, built, -⟩ := builds_evictControl object target
  have writing : RunsOn (device false) (exchange bytes).run c c (.done (.error (.msg "io"))) :=
    Fallible.runsOn_call_bind.mpr
      ⟨.error (.msg "io"), c, ⟨rfl, .inl rfl⟩, runsOn_pure.mpr ⟨rfl, rfl⟩⟩
  have transacting : RunsOn (device false) (tpmTransact bytes).run c c
      (.done (.error (.msg "io"))) :=
    Fallible.runsOn_fallible_bind.mpr (.inr (.inl ⟨_, rfl, writing⟩))
  rw [evictControl, request, built, ofChecked, pure_bind]
  exact Fallible.runsOn_fallible_bind.mpr (.inr (.inl ⟨_, rfl,
    Fallible.runsOn_fallible_bind.mpr (.inr (.inl ⟨_, rfl, transacting⟩))⟩))

/-- Every command is performed but the last, whose write fails. -/
theorem exists_replacement_fails {m : Chip T} {loads : Io UInt32} {loaded target : UInt32}
    (loading : RunsOn (device true) loads.run c m (.done (.ok loaded)))
    (owner : IsOwnerPersistent target) (stored : (m.tpm.persistent target).isSome) :
    ∃ c', RunsOn (device false) (do
        let loaded ← loads
        tryEvictPersistent target
        evictControl loaded target : Io Unit).run c c' (.done (.error (.msg "io"))) ∧
      c'.tpm.persistent target = none := by
  obtain ⟨m', out, evicting⟩ :=
    exists_runsOn (device_total true) (tryEvictPersistent target).run m
  obtain ⟨rfl, -, ⟨empty, -⟩ | evicted⟩ := tryEvictPersistent_evicts evicting
  · rw [empty rfl owner] at stored
    cases stored
  refine ⟨m', ?_, ?_⟩
  · refine Fallible.runsOn_fallible_bind.mpr (.inl ⟨loaded, m, loading.mono device_of_reliable, ?_⟩)
    exact Fallible.runsOn_fallible_bind.mpr (.inl ⟨(), m', evicting.mono device_of_reliable,
      evictControl_fails loaded target m'⟩)
  · rw [evicted.persistent_eq, Function.update_self]

/-- A run that comes to the eviction. -/
theorem exists_loadSealed {secret : String} {mode : SealMode} (ready : Sealable c secret mode) :
    ∃ m loaded, RunsOn (device true) (loadSealed secret mode).run c m (.done (.ok loaded)) ∧
      c.Keeps m ∧ IsTransient loaded ∧
      m.tpm.transient loaded = some (sealedObject T secret mode c.tpm.pcr7) := by
  obtain ⟨m, out, loading⟩ := exists_runsOn (device_total true) (loadSealed secret mode).run c
  obtain ⟨keeps, ⟨loaded, rfl, -, range, held⟩ | ⟨-, unready⟩⟩ := loadSealed_on loading
  · exact ⟨m, loaded, loading, keeps, range, held⟩
  · exact absurd ready (unready rfl)

/-- An old key is sealed for the dev mode. -/
def storedChip : Chip sampleSpec :=
  { sampleChip with
    tpm := { sampleChip.tpm with
      persistent := Function.update sampleChip.tpm.persistent defaultSealedHandleDev
        (some (sealedObject sampleSpec "old" .dev false)) } }

theorem sealable_storedChip : Sealable storedChip "key" .dev where
  primary := rfl
  small := (sealable_sampleChip .dev).small
  wrapped := (sealable_sampleChip .dev).wrapped

/-- The old key is evicted, the write of the last command fails, and no key is left. -/
theorem cmdSeal_loses_old_key :
    storedChip.tpm.persistent defaultSealedHandleDev =
        some (sealedObject sampleSpec "old" .dev false) ∧
      ∃ c' e, RunsOn (device false) (cmdSeal "key" .dev none).run storedChip c' (.done (.error e)) ∧
        c'.tpm.persistent defaultSealedHandleDev = none := by
  refine ⟨rfl, ?_⟩
  have owner : IsOwnerPersistent (sealTarget .dev none) := by decide
  obtain ⟨m, loaded, loading, keeps, -⟩ := exists_loadSealed sealable_storedChip
  obtain ⟨c', run, gone⟩ := exists_replacement_fails loading owner (keeps.persistent_eq ▸ rfl)
  rw [← cmdSeal_eq] at run
  exact ⟨c', _, run, gone⟩

/-- A handle of the platform, which the owner cannot evict. -/
def platformHandle : UInt32 := 0x81800000

/-- An old key is at a handle of the platform. -/
def platformChip : Chip sampleSpec :=
  { sampleChip with
    tpm := { sampleChip.tpm with
      persistent := Function.update sampleChip.tpm.persistent platformHandle
        (some (sealedObject sampleSpec "old" .dev false)) } }

/-- The TPM refuses the last command of a seal to a handle of the platform, and the old key is
    still there; `cmd_primary` whose last command cannot be written has lost the primary. -/
theorem kept_unless_evicted_platform :
    (∃ c' e, RunsOn (device true) (cmdSeal "key" .dev (some platformHandle)).run platformChip c'
        (.done (.error e)) ∧
      c'.tpm.persistent platformHandle = some (sealedObject sampleSpec "old" .dev false)) ∧
    ∃ c' e, RunsOn (device false) cmdPrimary.run sampleChip c' (.done (.error e)) ∧
      ReplacementFailed false loadPrimary defaultPrimaryHandle e sampleChip c' := by
  constructor
  · have ready : Sealable platformChip "key" .dev :=
      ⟨rfl, (sealable_sampleChip .dev).small, (sealable_sampleChip .dev).wrapped⟩
    have foreign : ¬IsOwnerPersistent (sealTarget .dev (some platformHandle)) := by decide
    obtain ⟨m, loaded, loading, -, range, held⟩ := exists_loadSealed ready
    obtain ⟨c', out, replacing⟩ := exists_runsOn (device_total true) (do
      tryEvictPersistent (sealTarget .dev (some platformHandle))
      evictControl loaded (sealTarget .dev (some platformHandle)) : Io Unit).run m
    obtain ⟨-, persisted⟩ | ⟨⟨e, rfl⟩, -⟩ := replace_on range held replacing
    · exact absurd persisted.owner foreign
    have run : RunsOn (device true) (cmdSeal "key" .dev (some platformHandle)).run platformChip c'
        (.done (.error e)) := by
      rw [cmdSeal_eq]
      exact Fallible.runsOn_fallible_bind.mpr (.inl ⟨loaded, m, loading, replacing⟩)
    refine ⟨c', e, run, ?_⟩
    obtain kept | ⟨_, _, _, -, -, evicted, -⟩ := kept_unless_evicted.1 _ _ _ _ _ _ rfl run
    · rw [kept]
      rfl
    · exact absurd evicted.owner foreign
  · have owner : IsOwnerPersistent defaultPrimaryHandle := by decide
    obtain ⟨m, out, loading⟩ := exists_runsOn (device_total true) loadPrimary.run sampleChip
    obtain ⟨keeps, ⟨loaded, rfl, -⟩ | ⟨⟨⟩, -⟩⟩ := loadPrimary_on loading
    obtain ⟨c', run, gone⟩ := exists_replacement_fails loading owner (keeps.persistent_eq ▸ rfl)
    rw [← cmdPrimary_eq] at run
    refine ⟨c', _, run, ?_⟩
    obtain kept | failed := kept_unless_evicted.2 _ _ _ rfl run
    · rw [kept] at gone
      cases gone
    · exact failed

/-! ## Sequences of seals -/

/-- The commands of `parse_seal_args` and `read_secret_input`: none goes to the TPM. -/
def HostCmd : SysCmd → Prop
  | .envVar _ | .readFile _ | .readToString _ | .readStdin => True
  | _ => False

/-- Commands that are not for the TPM leave it alone. -/
theorem device_host (c : Chip T) (cmd : SysCmd) (r : cmd.Resp) (c' : Chip T) (host : HostCmd cmd)
    (step : device reliable c ⟨cmd, r⟩ c') : c' = c := by
  cases cmd <;> first | exact step | exact host.elim

theorem readSecureBoot_uses (basePath : String) :
    (Efi.readSecureBoot basePath).run.Uses HostCmd := by
  unfold Efi.readSecureBoot Efi.readEfiVar Efi.stripAttributes
  refine Fallible.uses_bind (Fallible.uses_bind ((Fallible.uses_call _ _ _).mpr trivial) ?_) ?_
  · intro data
    split
    · trivial
    · exact ofChecked_uses _ _
  · intro payload
    split
    · trivial
    · exact ofChecked_uses _ _

theorem detectSealMode_uses : detectSealMode.run.Uses HostCmd := by
  unfold detectSealMode envVarOr
  refine Fallible.uses_bind (Fallible.uses_bind ((Fallible.uses_ask _ _).mpr trivial) fun _ =>
    trivial) fun basePath => ?_
  refine Fallible.uses_bind ((Fallible.uses_attempt _ _).mpr (readSecureBoot_uses basePath)) ?_
  intro result
  cases result <;> trivial

theorem parseSealArgs_uses (args : List String) : (parseSealArgs args).run.Uses HostCmd := by
  unfold parseSealArgs
  split
  · trivial
  · split
    · trivial
    · exact Fallible.uses_bind detectSealMode_uses fun _ => trivial

theorem readStdin_uses : (do return Text.trimEnd (← readStdin) : Io String).run.Uses HostCmd :=
  Fallible.uses_bind ((Fallible.uses_call _ _ _).mpr trivial) fun _ => trivial

theorem readSecretInput_uses (secretFile : Option String) :
    (readSecretInput secretFile).run.Uses HostCmd := by
  unfold readSecretInput
  cases secretFile with
  | some path =>
    dsimp only
    split
    · exact readStdin_uses
    · exact Fallible.uses_bind ((Fallible.uses_call _ _ _).mpr trivial) fun _ => trivial
  | none =>
    refine Fallible.uses_bind ((Fallible.uses_ask _ _).mpr trivial) fun value => ?_
    cases value with
    | none => exact readStdin_uses
    | some secret =>
      dsimp only
      split
      · trivial
      · exact readStdin_uses

/-- The handle that a seal with these arguments is for; a mode that is not given is looked up. -/
def Targets (args : List String) (target : UInt32) : Prop :=
  ∃ opts mode, sealOptions args ⟨none, none, none⟩ = .ok opts ∧
    (∀ given, opts.mode = some given → mode = given) ∧ target = sealTarget mode opts.handle

/-- No persistent handle has changed but the target of the arguments. -/
def OnlyTarget (args : List String) (c c' : Chip T) : Prop :=
  c'.tpm.persistent = c.tpm.persistent ∨ ∃ target, Targets args target ∧
    ∀ handle, handle ≠ target → c'.tpm.persistent handle = c.tpm.persistent handle

/-- The arguments that are passed on have been parsed. -/
theorem parseSealArgs_on {args : List String} {mode : SealMode} {handle : Option UInt32}
    {secretFile : Option String} (run : RunsOn (device reliable) (parseSealArgs args).run c c'
      (.done (.ok (.ok (mode, handle, secretFile))))) :
    c' = c ∧ Targets args (sealTarget mode handle) := by
  refine ⟨run.eq_of_uses device_host (parseSealArgs_uses args), ?_⟩
  unfold parseSealArgs at run
  cases parsed : sealOptions args ⟨none, none, none⟩ with
  | error e =>
    rw [parsed] at run
    cases (runsOn_pure.mp run).2
  | ok opts =>
    rw [parsed] at run
    obtain ⟨given, handle', secretFile'⟩ := opts
    cases given with
    | some given =>
      cases (runsOn_pure.mp run).2
      exact ⟨_, mode, parsed, fun given' same => Option.some.inj same, rfl⟩
    | none =>
      obtain ⟨mode', m, -, rest⟩ := Fallible.runsOn_bind_ok run
      cases (runsOn_pure.mp rest).2
      exact ⟨_, mode, parsed, nofun, rfl⟩

/-- `cmd_seal` leaves every handle but its target alone. -/
theorem cmdSeal_frame {secret : String} {mode : SealMode} {handle : Option UInt32} {other : UInt32}
    {out : Outcome Sys (Except Err Unit)}
    (run : RunsOn (device reliable) (cmdSeal secret mode handle).run c c' out)
    (differ : other ≠ sealTarget mode handle) :
    c'.tpm.persistent other = c.tpm.persistent other := by
  have replaced : c.Keeps c' ∨ Evicted (sealTarget mode handle) c c' ∨
      ∃ loaded, Persisted loaded (sealTarget mode handle)
        (sealedObject T secret mode c.tpm.pcr7) c c' := by
    obtain ⟨-, -, persisted⟩ | ⟨-, -, replaced⟩ := cmdSeal_on run
    · exact .inr (.inr persisted)
    · exact replaced
  rcases replaced with keeps | evicted | ⟨loaded, persisted⟩
  · rw [keeps.persistent_eq]
  · rw [evicted.persistent_eq, Function.update_of_ne differ]
  · rw [persisted.persistent_eq, Function.update_of_ne differ]

/-- One seal, whatever its arguments and however it ends. -/
theorem sealCommand_on {args : List String} {out : Outcome Sys (Except Err Unit)}
    (run : RunsOn (device reliable) (sealCommand args).run c c' out) : OnlyTarget args c c' := by
  have still : c' = c → OnlyTarget args c c' := by
    rintro rfl
    exact .inl rfl
  rcases Fallible.runsOn_fallible_bind.mp run with
    ⟨parsed, m, parsing, rest⟩ | ⟨e, rfl, parsing⟩ | ⟨stop, rfl, parsing⟩
  · cases parsed with
    | error e =>
      have same := parsing.eq_of_uses device_host (parseSealArgs_uses args)
      exact still ((runsOn_halt.mp rest).1.trans same)
    | ok parsed =>
      obtain ⟨mode, handle, secretFile⟩ := parsed
      obtain ⟨rfl, targets⟩ := parseSealArgs_on parsing
      rcases Fallible.runsOn_attempt_bind.mp rest with
        ⟨result, m', reading, afterRead⟩ | ⟨stop, rfl, reading⟩
      · have same := reading.eq_of_uses device_host (readSecretInput_uses secretFile)
        subst same
        cases result with
        | error e => exact still (runsOn_halt.mp afterRead).1
        | ok secret =>
          dsimp only at afterRead
          split at afterRead
          · exact .inr ⟨_, targets, fun other differ => cmdSeal_frame afterRead differ⟩
          · exact still (runsOn_halt.mp afterRead).1
      · exact still (reading.eq_of_uses device_host (readSecretInput_uses secretFile))
  · exact still (parsing.eq_of_uses device_host (parseSealArgs_uses args))
  · exact still (parsing.eq_of_uses device_host (parseSealArgs_uses args))

/-- A sequence of seals, each with its own arguments and any end. In between, sessions and
    loaded objects may come and go, and PCR 7 may change. -/
def Sealings (reliable : Bool) : List (List String) → Chip T → Chip T → Prop
  | [], c, c' => c' = c
  | args :: rest, c, c' => ∃ m m' out, RunsOn (device reliable) (sealCommand args).run c m out ∧
      m'.tpm.persistent = m.tpm.persistent ∧ Sealings reliable rest m' c'

/-- The arguments name the handle of the primary. -/
def NamesPrimary (args : List String) : Prop :=
  ∃ opts, sealOptions args ⟨none, none, none⟩ = .ok opts ∧ opts.handle = some defaultPrimaryHandle

/-- A seal can only hit the primary by its name. -/
theorem namesPrimary_of_targets {args : List String} (targets : Targets args defaultPrimaryHandle) :
    NamesPrimary args := by
  obtain ⟨opts, mode, parsed, -, same⟩ := targets
  refine ⟨opts, parsed, ?_⟩
  cases named : opts.handle with
  | some handle => rw [same, sealTarget, named, Option.getD_some]
  | none =>
    rw [sealTarget, named, Option.getD_none] at same
    cases mode <;> exact absurd same (by decide)

/-- Each seal of a sequence changes no handle but its target, and the primary survives a
    sequence in which no seal names its handle. -/
theorem sealings_keep_primary :
    (∀ (args : List String) (c c' : Chip T) (out : Outcome Sys (Except Err Unit)),
      RunsOn (device reliable) (sealCommand args).run c c' out → OnlyTarget args c c') ∧
    (∀ (runs : List (List String)) (c c' : Chip T), (∀ args ∈ runs, ¬NamesPrimary args) →
      c.tpm.persistent defaultPrimaryHandle = some .storage → Sealings reliable runs c c' →
        c'.tpm.persistent defaultPrimaryHandle = some .storage) := by
  refine ⟨fun args c c' out run => sealCommand_on run, ?_⟩
  intro runs
  induction runs with
  | nil =>
    rintro c _ - stored rfl
    exact stored
  | cons args runs ih =>
    intro c c' spared stored sealings
    obtain ⟨m, m', out, run, between, rest⟩ := sealings
    refine ih m' c' (fun args' member => spared args' (List.mem_cons_of_mem _ member)) ?_ rest
    rw [between]
    rcases sealCommand_on run with same | ⟨target, targets, others⟩
    · rw [same, stored]
    · have differ : defaultPrimaryHandle ≠ target := by
        rintro rfl
        exact spared args List.mem_cons_self (namesPrimary_of_targets targets)
      rw [others _ differ, stored]

theorem sealings_keep_primary_dev :
    ∃ c' : Chip sampleSpec, Sealings true [["--dev"]] sampleChip c' ∧
      c'.tpm.persistent defaultPrimaryHandle = some .storage := by
  obtain ⟨c', out, run⟩ := exists_runsOn (device_total true) (sealCommand ["--dev"]).run sampleChip
  have sealings : Sealings true [["--dev"]] sampleChip c' := ⟨c', c', out, run, rfl, rfl⟩
  refine ⟨c', sealings, sealings_keep_primary.2 _ sampleChip c' ?_ rfl sealings⟩
  intro args member
  rw [List.mem_singleton.mp member]
  rintro ⟨opts, parsed, named⟩
  cases parsed
  cases named

/-- `initos seal --dev --handle 0` puts the sealed key in the place of the primary. -/
theorem sealCommand_replaces_primary :
    sampleChip.tpm.persistent defaultPrimaryHandle = some .storage ∧
      ∃ c', RunsOn (device true) (sealCommand ["--dev", "--handle", "0"]).run sampleChip c'
          (.done (.ok ())) ∧
        c'.tpm.persistent defaultPrimaryHandle =
          some (sealedObject sampleSpec "key" .dev false) := by
  refine ⟨rfl, ?_⟩
  have owner : IsOwnerPersistent (sealTarget .dev (some defaultPrimaryHandle)) := by decide
  obtain ⟨c', loaded, sealing, persisted⟩ := exists_cmdSeal (sealable_sampleChip .dev) owner
  have parsed : sealOptions ["--dev", "--handle", "0"] ⟨none, none, none⟩ =
      .ok ⟨some .dev, some defaultPrimaryHandle, none⟩ := by decide +kernel
  have parsing : RunsOn (device true) (parseSealArgs ["--dev", "--handle", "0"]).run sampleChip
      sampleChip (.done (.ok (.ok (.dev, some defaultPrimaryHandle, none)))) := by
    rw [parseSealArgs, parsed]
    exact runsOn_pure.mpr ⟨rfl, rfl⟩
  -- the secret is in the environment
  have reading : RunsOn (device true) (readSecretInput none).run sampleChip sampleChip
      (.done (.ok "key")) :=
    Fallible.runsOn_ask_bind.mpr ⟨some "key", sampleChip, rfl, runsOn_pure.mpr ⟨rfl, rfl⟩⟩
  refine ⟨c', Fallible.runsOn_fallible_bind.mpr (.inl ⟨_, sampleChip, parsing, ?_⟩), ?_⟩
  · exact Fallible.runsOn_attempt_bind.mpr (.inl ⟨.ok "key", sampleChip, reading, sealing⟩)
  · rw [persisted.persistent_eq]
    exact Function.update_self ..

end Initos.Seal
