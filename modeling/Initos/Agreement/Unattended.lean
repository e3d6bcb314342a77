import Initos.Seal.Vault
import Initos.Agreement.Key

/-!
# Boots that nobody attends

A machine with a TPM that works and an encrypted directory. Where the directory has been set up
with a key and the key has been sealed, the boot opens the directory without a prompt, as long as
PCR 7 starts with the value of the seal, and whatever else has happened to the TPM in between.
After that the key cannot be unsealed again.
-/

namespace Initos.Agreement

open Interact Tpm2 Boot Seal

variable {T : TpmSpec} {c c' : Chip T}

/-! ## The machine -/

/-- The encrypted directory. -/
structure Directory where
  /-- The key of its policy. -/
  key : List UInt8
  /-- This key has been added. -/
  opened : Bool
  /-- How often somebody has been asked for a password. -/
  prompts : Nat

/-- What the kernel answers: the directory and the TPM are there, a key is taken whether or not
    it is the right one, and the names in the directory can be read once the right one has been
    added. There are random bytes. -/
def Directory.Answers (cDir : String) (d : Directory) (e : Event Sys) (d' : Directory) : Prop :=
  match e with
  | ⟨.pathExists path, found⟩ => (path ∈ [cDir, "/dev/tpmrm0"] → found = true) ∧ d' = d
  | ⟨.isDir path, found⟩ => (path = UnixPath.join cDir "home" → found = d.opened) ∧ d' = d
  | ⟨.addKey dir key, r⟩ => (dir = cDir → r = .ok ()) ∧
      d' = { d with opened := d.opened || decide (dir = cDir ∧ key = d.key) }
  | ⟨.readSecret _, _⟩ => d' = { d with prompts := d.prompts + 1 }
  | ⟨.urandomOpen, r⟩ => r = .ok () ∧ d' = d
  | ⟨.urandomRead _, r⟩ => (∃ bytes, r = .ok bytes) ∧ d' = d
  | _ => d' = d

/-- The TPM and the directory. -/
def host (cDir : String) : Device Sys (Chip T × Directory) := fun h e h' =>
  machine true h.1 e h'.1 ∧ h.2.Answers cDir e h'.2

variable {cDir : String} {d : Directory} {h : Chip T × Directory}

theorem machine_of_host (h : Chip T × Directory) (e : Event Sys) (h' : Chip T × Directory)
    (step : host cDir h e h') : machine true h.1 e h'.1 := step.1

/-- Commands to the TPM leave the directory alone. -/
theorem answers_device {codes : List UInt32} (d : Directory) (cmd : SysCmd) (r : cmd.Resp)
    (d' : Directory) (device : DeviceCmd codes cmd) (answers : d.Answers cDir ⟨cmd, r⟩ d') :
    d' = d := by
  cases cmd <;> first | exact answers | exact device.elim

/-- What goes to the TPM leaves the directory as it is. -/
theorem directory_eq {codes : List UInt32} {tr : History Sys}
    (cmds : ∀ e ∈ tr, DeviceCmd codes e.cmd) (path : Path (host cDir) (c, d) tr h) : h.2 = d := by
  have others : Path (fun d e d' => Directory.Answers cDir d e d') d tr h.2 :=
    path_map Prod.snd (fun _ _ _ step => step.2) path
  exact path_eq_of_cmds answers_device cmds others

/-! ## Unsealing -/

/-- The key is sealed in the mode, for PCR 7 as it is. -/
structure KeySealed (c : Chip T) (mode : SealMode) (k : String) : Prop where
  stored : c.tpm.persistent (sealTarget mode none) = some (sealedObject T k mode c.tpm.pcr7)
  small : (mode.mark ++ Text.asBytes k).length ≤ maxSealedData
  nonempty : k ≠ ""

theorem isPersistent_default (mode : SealMode) : IsPersistent (sealTarget mode none) :=
  isPersistent_sealTarget mode (by rintro _ ⟨⟩)

/-- A sealed key is unsealed, and nothing else changes. -/
theorem unsealKey_host {mode : SealMode} {k : String}
    {out : Outcome Sys (Except Err (List UInt8))} (keySealed : KeySealed c mode k)
    (run : RunsOn (host cDir) (unsealKey mode.isSecure).run (c, d) h out) :
    out = .done (.ok (Text.asBytes k)) ∧ h.2 = d ∧ h.1.tpm.pcr7 = c.tpm.pcr7 ∧
      h.1.tpm.former = c.tpm.former := by
  have unsealing : RunsOn (machine true) (cmdUnseal mode none).run c h.1 out :=
    run.map Prod.fst machine_of_host
  refine ⟨?_, ?_, ?_⟩
  · exact cmdUnseal_prints (isPersistent_default mode) keySealed.stored keySealed.small
      (unsealing.mono device_of_machine)
  · obtain ⟨tr, runs, path⟩ := run
    obtain ⟨opened, tr', rfl, cmds⟩ := unsealKey_shape runs
    obtain ⟨⟨m, dm⟩, step, rest⟩ := path
    obtain rfl : dm = d := step.2
    exact directory_eq cmds rest
  · rw [cmdUnseal_eq] at unsealing
    have unsealing := unsealing.mono device_of_machine
    exact ⟨(unsealKeyFromHandle_keeps unsealing).pcr7_eq, unsealKeyFromHandle_former unsealing⟩

/-! ## Extending -/

section

variable {value : T.Pcr} {out : Outcome Sys (Except Err Unit)}

theorem openDevice_host (run : RunsOn (host cDir) openDevice.run (c, d) h out) :
    out = .done (.ok ()) ∧ h = (c, d) := by
  obtain ⟨opened, m, ⟨⟨step, -⟩, same⟩, rest⟩ := Fallible.runsOn_attempt_call_bind.mp run
  cases opened with
  | error e => cases step.1
  | ok _ =>
    obtain ⟨rfl, rfl⟩ := runsOn_pure.mp rest
    exact ⟨rfl, Prod.ext step same⟩

/-- With random bytes and a TPM that works, PCR 7 is extended. -/
theorem pcrExtend_host (new : value ∉ c.tpm.pcr7 :: c.tpm.former)
    (run : RunsOn (host cDir) (pcrExtend 7).run (c, d) h out) :
    out = .done (.ok ()) ∧ h.2 = d ∧ h.1.tpm.pcr7 ≠ c.tpm.pcr7 := by
  obtain ⟨opened, m, openStep, afterOpen⟩ := Fallible.runsOn_attempt_call_bind.mp run
  obtain rfl : m = (c, d) := Prod.ext openStep.1.1 openStep.2.2
  obtain rfl : opened = .ok () := openStep.2.1
  obtain ⟨digest, m, readStep, afterRead⟩ := Fallible.runsOn_call_bind.mp afterOpen
  obtain rfl : m = (c, d) := Prod.ext readStep.1.1 readStep.2.2
  obtain ⟨digest, rfl⟩ : ∃ bytes, digest = .ok bytes := readStep.2.1
  have length : digest.length = 32 := readStep.1.2 digest rfl
  have carries : Carries (pcrExtendCmd 7 digest) (.pcrExtend 7 digest) :=
    (builds_pcrExtend 7 length).carries (decode_pcrExtend length)
  have operated : Operated true c (.pcrExtend 7 digest) (fun _ _ => True) h.1 out :=
    operated_of_request_unit carries
      ((afterRead.map Prod.fst machine_of_host).mono device_of_machine)
  have same : h.2 = d := by
    obtain ⟨tr, runs, path⟩ := afterRead
    have uses : (request (pcrExtendCmd 7 digest) "PCR_Extend").run.Uses
        (DeviceCmd [ccPcrExtend, ccDaLockReset]) :=
      request_uses (builds_pcrExtend 7 length) _ (by simp) (by simp)
    have all : (do let _ ← request (pcrExtendCmd 7 digest) "PCR_Extend" : Io Unit).run.Uses
        (DeviceCmd [ccPcrExtend, ccDaLockReset]) := Fallible.uses_bind uses fun _ => trivial
    exact directory_eq (all.runs runs) path
  rcases out with (e | _) | stop
  · exact absurd (TpmState.can_of_performs (.pcrExtend new) (by decide)) (operated.1 rfl)
  · obtain ⟨fields, done, -⟩ := operated
    exact ⟨rfl, same, done.extended.2⟩
  · exact operated.elim

/-- The extend moves PCR 7. -/
theorem extendPcr7_host (new : value ∉ c.tpm.pcr7 :: c.tpm.former)
    (run : RunsOn (host cDir) extendPcr7.run (c, d) h out) :
    out = .done (.ok ()) ∧ h.2 = d ∧ h.1.tpm.pcr7 ≠ c.tpm.pcr7 := by
  rcases Fallible.runsOn_attempt_bind.mp run with ⟨opened, m, opening, rest⟩ | ⟨stop, -, opening⟩
  swap
  · cases (openDevice_host opening).1
  obtain ⟨same, rfl⟩ := openDevice_host opening
  cases same
  rcases Fallible.runsOn_attempt_bind.mp rest with ⟨r, m, extending, last⟩ | ⟨stop, -, extending⟩
  · obtain ⟨rfl, rfl⟩ := runsOn_pure.mp last
    exact ⟨rfl, (pcrExtend_host new extending).2⟩
  · cases (pcrExtend_host new extending).1

/-! ## The boot -/

/-- The key opens the directory, and PCR 7 is extended. -/
theorem unlockCWithTpm_host {mode : SealMode} {k : String} (keySealed : KeySealed c mode k)
    (new : value ∉ c.tpm.pcr7 :: c.tpm.former) (set : d.key = repeatKey (Text.asBytes k))
    (run : RunsOn (host cDir) (unlockCWithTpm cDir mode.isSecure).run (c, d) h out) :
    out = .done (.ok ()) ∧ h.2 = { d with opened := true } ∧ h.1.tpm.pcr7 ≠ c.tpm.pcr7 := by
  rcases Fallible.runsOn_fallible_bind.mp run with
    ⟨key, ⟨m, dm⟩, unsealing, rest⟩ | ⟨e, -, unsealing⟩ | ⟨stop, -, unsealing⟩
  rotate_left
  · cases (unsealKey_host keySealed unsealing).1
  · cases (unsealKey_host keySealed unsealing).1
  obtain ⟨same, rfl, pcr7_eq, former_eq⟩ := unsealKey_host keySealed unsealing
  cases same
  rw [addFscryptKey, if_neg (asBytes_ne_nil keySealed.nonempty)] at rest
  obtain ⟨r, ⟨m', dm'⟩, adding, afterAdd⟩ := Fallible.runsOn_call_bind.mp rest
  obtain rfl : m' = m := adding.1.1
  obtain rfl : r = .ok () := adding.2.1 rfl
  obtain rfl : dm' = { dm with opened := true } := by
    have key : dm.key = repeatKey (Text.asBytes k) := set
    exact adding.2.2.trans (by simp [key])
  obtain ⟨found, m, looking, afterLook⟩ := Fallible.runsOn_ask_bind.mp afterAdd
  obtain rfl : m = (m', { dm with opened := true }) := Prod.ext looking.1.1 looking.2.2
  obtain rfl : found = true := looking.2.1 rfl
  rw [← pcr7_eq, ← former_eq] at new
  obtain ⟨ended, same, moved⟩ := extendPcr7_host new afterLook
  exact ⟨ended, same, pcr7_eq ▸ moved⟩

/-- Each way of the unlocking but one is closed. -/
theorem unlockStateC_host {mode : SealMode} {state k : String} (keySealed : KeySealed c mode k)
    (new : value ∉ c.tpm.pcr7 :: c.tpm.former) (set : d.key = repeatKey (Text.asBytes k))
    (closed : d.opened = false) (run : RunsOn (host (UnixPath.join state "c"))
      (unlockStateC state mode.isSecure).run (c, d) h out) :
    out = .done (.ok ()) ∧ h.2 = { d with opened := true } ∧ h.1.tpm.pcr7 ≠ c.tpm.pcr7 := by
  obtain ⟨found, m, looking, rest⟩ := Fallible.runsOn_ask_bind.mp run
  obtain rfl : m = (c, d) := Prod.ext looking.1.1 looking.2.2
  obtain rfl : found = true := looking.2.1 (by simp)
  obtain ⟨found, m, looking, rest⟩ := Fallible.runsOn_ask_bind.mp rest
  obtain rfl : m = (c, d) := Prod.ext looking.1.1 looking.2.2
  obtain rfl : found = false := (looking.2.1 rfl).trans closed
  obtain ⟨found, m, looking, rest⟩ := Fallible.runsOn_ask_bind.mp rest
  obtain rfl : m = (c, d) := Prod.ext looking.1.1 looking.2.2
  obtain rfl : found = true := looking.2.1 (by simp)
  rcases Fallible.runsOn_attempt_bind.mp rest with ⟨r, m, trying, last⟩ | ⟨stop, -, trying⟩
  · obtain ⟨same, facts⟩ := unlockCWithTpm_host keySealed new set trying
    cases same
    obtain ⟨rfl, rfl⟩ := runsOn_pure.mp last
    exact ⟨rfl, facts⟩
  · cases (unlockCWithTpm_host keySealed new set trying).1

end

/-- The key of the directory is sealed with the default handle of a mode. Whatever happens to the
    TPM then, as long as nothing is stored at the handle, and whenever PCR 7 starts with the value
    of the seal: a boot in this mode opens the directory without a prompt, and nobody can unseal
    the key after it. -/
theorem boot_unattended {c₀ m : Chip T} {acts : List Act} {mode : SealMode} {state k : String}
    {value : T.Pcr} {d' : Directory} {out : Outcome Sys (Except Err Unit)} (nonempty : k ≠ "")
    (setUp : Runs getFscryptKey.run [⟨.envVar "FSCRYPT_KEY", some k⟩] (.done (.ok d.key)))
    (stored : Act.Does c₀ (.sealing k mode none (.done (.ok ()))) m) (happened : Acts m acts c)
    (spares : ∀ act ∈ acts, ¬act.Targets (sealTarget mode none))
    (same : c.tpm.pcr7 = c₀.tpm.pcr7) (new : value ∉ c.tpm.pcr7 :: c.tpm.former)
    (closed : d.opened = false)
    (run : RunsOn (host (UnixPath.join state "c")) (unlockStateC state mode.isSecure).run
      (c, d) (c', d') out) :
    out = .done (.ok ()) ∧ d' = { d with opened := true } ∧
      ∀ mode' reliable after out', RunsOn (machine reliable)
        (cmdUnseal mode' (some (sealTarget mode none))).run c' after out' →
          ∃ e, out' = .done (.error e) := by
  obtain ⟨-, small, loaded, persisted⟩ | ⟨impossible, -⟩ :=
    cmdSeal_on (stored.mono device_of_machine)
  swap
  · exact absurd rfl impossible
  have kept := happened.frame spares
  rw [persisted.persistent_eq, Function.update_self] at kept
  have keySealed : KeySealed c mode k := ⟨by rw [kept, same], small, nonempty⟩
  have set : d.key = repeatKey (Text.asBytes k) := by
    obtain ⟨-, read⟩ := (getFscryptKey_runs nonempty).mp setUp
    exact Except.ok.inj (Outcome.done.inj read)
  obtain ⟨ended, opened, moved⟩ := unlockStateC_host keySealed new set closed run
  refine ⟨ended, opened, fun mode' reliable after out' unsealing => ?_⟩
  have left := unlockStateC_persistent (run.map Prod.fst machine_of_host)
  rw [← left, ← same] at kept
  exact cmdUnseal_refused (isPersistent_default mode) kept moved (unsealing.mono device_of_machine)

/-- The machine has an answer to everything. -/
theorem host_total (cDir : String) (h : Chip T × Directory) (cmd : SysCmd) :
    ∃ r h', host cDir h ⟨cmd, r⟩ h' := by
  obtain ⟨c, d⟩ := h
  cases cmd with
  | pathExists path => exact ⟨true, (c, d), ⟨rfl, trivial⟩, fun _ => rfl, rfl⟩
  | isDir path => exact ⟨d.opened, (c, d), ⟨rfl, trivial⟩, fun _ => rfl, rfl⟩
  | addKey dir key =>
    let added : Directory := { d with opened := d.opened || decide (dir = cDir ∧ key = d.key) }
    exact ⟨.ok (), (c, added), ⟨rfl, trivial⟩, fun _ => rfl, rfl⟩
  | readSecret prompt =>
    let asked : Directory := { d with prompts := d.prompts + 1 }
    exact ⟨.ok "", (c, asked), ⟨rfl, trivial⟩, rfl⟩
  | urandomOpen => exact ⟨.ok (), (c, d), ⟨rfl, trivial⟩, rfl, rfl⟩
  | urandomRead len =>
    refine ⟨.ok (List.replicate len 0), (c, d), ⟨rfl, ?_⟩, ⟨_, rfl⟩, rfl⟩
    rintro _ ⟨⟩
    exact List.length_replicate
  | _ =>
    obtain ⟨r, c', step⟩ := machine_total true c _
    exact ⟨r, (c', d), step, rfl⟩

/-- The key is sealed, the machine is reset, and the boot opens the directory. -/
theorem boot_unattended_key : ∃ (m c c' : Chip sampleSpec) (d' : Directory)
    (out : Outcome Sys (Except Err Unit)),
    Act.Does sampleChip (.sealing "key" .dev none (.done (.ok ()))) m ∧ Acts m [.reset] c ∧
    RunsOn (host "/z/c") (unlockStateC "/z" false).run
      (c, ⟨repeatKey (Text.asBytes "key"), false, 0⟩) (c', d') out ∧
    d' = ⟨repeatKey (Text.asBytes "key"), true, 0⟩ := by
  obtain ⟨m, sealing, current, -⟩ := exists_sealing (sealable_sampleChip .dev)
    (show IsOwnerPersistent (sealTarget .dev none) by decide)
  let c : Chip sampleSpec :=
    { m with tpm := { m.tpm with pcr7 := false, former := [], fresh := List.not_mem_nil } }
  have reset : Acts m [.reset] c :=
    GuardedStore.steps_singleton.mpr rfl
  have new : true ∉ c.tpm.pcr7 :: c.tpm.former := by
    intro member
    cases List.mem_singleton.mp member
  obtain ⟨⟨c', d'⟩, out, run⟩ := exists_runsOn (host_total "/z/c") (unlockStateC "/z" false).run
    (c, ⟨repeatKey (Text.asBytes "key"), false, 0⟩)
  have joined : UnixPath.join "/z" "c" = "/z/c" := by decide
  rw [← joined] at run
  have setUp := (getFscryptKey_runs (show "key" ≠ "" by decide)).mpr ⟨rfl, rfl⟩
  have booted :=
    boot_unattended (by decide) setUp sealing reset (by simp [Act.Targets]) rfl new rfl run
  exact ⟨m, c, c', d', out, sealing, reset, run, booted.2.1⟩

end Initos.Agreement
