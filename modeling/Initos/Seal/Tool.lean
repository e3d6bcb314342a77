import Initos.Seal.Persistence
import Initos.Seal.Handle
import Initos.Boot.UnlockProtocol

/-!
# The commands that open the TPM

Besides `seal` and `primary`, `initos` opens the TPM for `unseal` and `lock_tpm`
(`src/main.rs:36-52`, `148-164` and `237-257`), and without arguments, which is an `unseal` of
the default handle. `unseal` and the unlocking at boot leave the persistent objects alone;
`lock_tpm` leaves them too, and moves PCR 7 on.
-/

namespace Initos.Seal

open Interact Tpm2 Boot

/-! ## The commands -/

namespace SealMode

/-- `is_secure` (`src/main.rs:211-213`). -/
def isSecure : SealMode → Bool
  | .dev => false
  | .secure => true

/-- `name` (`src/main.rs:229-234`). -/
def name : SealMode → String
  | .dev => "dev"
  | .secure => "secure"

end SealMode

/-- What `parse_unseal_args` collects. -/
structure UnsealOptions where
  mode : Option SealMode
  handle : Option UInt32
  deriving DecidableEq

/-- The loop of `parse_unseal_args` (`src/main.rs:237-255`). -/
def unsealOptions : List String → UnsealOptions → Except String UnsealOptions
  | [], opts => .ok opts
  | arg :: rest, opts =>
    if arg = "--secure" then unsealOptions rest { opts with mode := some .secure }
    else if arg = "--dev" then unsealOptions rest { opts with mode := some .dev }
    else if arg = "--handle" then
      match rest with
      | [] => .error "--handle requires a value"
      | value :: rest => do
        let handle ← parseTpmHandle value
        unsealOptions rest { opts with handle := some handle }
    else .error s!"unexpected unseal argument: {arg}"

/-- `parse_unseal_args` (`src/main.rs:237-257`). -/
def parseUnsealArgs (args : List String) : Io (Except String (SealMode × Option UInt32)) := do
  match unsealOptions args ⟨none, none⟩ with
  | .error e => return .error e
  | .ok opts =>
    match opts.mode with
    | some mode => return .ok (mode, opts.handle)
    | none =>
      let mode ← detectSealMode
      return .ok (mode, opts.handle)

/-- `cmd_unseal` (`src/main.rs:156-163`), with what it writes to the standard output. -/
def cmdUnseal (mode : SealMode) (handle : Option UInt32) : Io (List UInt8) :=
  match handle with
  | some handle => unsealKeyFromHandle handle mode.mark mode.name
  | none => unsealKey mode.isSecure

/-- `cmd_lock_tpm` (`src/main.rs:148-153`). -/
def cmdLockTpm : Io Unit := do
  openDevice
  pcrExtend 7

/-- The branches of `main` that open the TPM, for a process that is not PID 1
    (`src/main.rs:36-72`); what they print. -/
inductive TpmCommand where
  /-- No arguments. -/
  | bare
  | unsealing (args : List String)
  | lockTpm
  | primary
  | sealing (args : List String)

/-- What the branch of `main` does, and what it prints. -/
def TpmCommand.run : TpmCommand → Io (List UInt8)
  | .bare => do cmdUnseal (← detectSealMode) none
  | .unsealing args => do
    match ← parseUnsealArgs args with
    | .ok (mode, handle) => cmdUnseal mode handle
    | .error _ => Fallible.halt (.exit 1)
  | .lockTpm => do
    cmdLockTpm
    return []
  | .primary => do
    cmdPrimary
    return []
  | .sealing args => do
    sealCommand args
    return []

/-- The command prints what it unseals. -/
def TpmCommand.Unseals : TpmCommand → Prop
  | .bare | .unsealing _ => True
  | _ => False

/-- What the arguments ask for; a mode that is not given is looked up. -/
def TpmCommand.Asks : TpmCommand → SealMode → Option UInt32 → Prop
  | .bare, _, handle => handle = none
  | .unsealing args, mode, handle => ∃ opts, unsealOptions args ⟨none, none⟩ = .ok opts ∧
      (∀ given, opts.mode = some given → mode = given) ∧ handle = opts.handle
  | _, _, _ => False

/-! ## Unsealing -/

variable {T : TpmSpec} {reliable : Bool} {c c' : Chip T}

/-- `cmd_unseal` asks for the handle of its target. -/
theorem cmdUnseal_eq (mode : SealMode) (handle : Option UInt32) :
    cmdUnseal mode handle = unsealKeyFromHandle (sealTarget mode handle) mode.mark mode.name := by
  cases handle with
  | some handle => rfl
  | none => cases mode <;> rfl

/-- Unsealing keeps the persistent objects and PCR 7. -/
theorem unsealKeyFromHandle_keeps {handle : UInt32} {mark : List UInt8} {name : String}
    {out : Outcome Sys (Except Err (List UInt8))}
    (run : RunsOn (device reliable) (unsealKeyFromHandle handle mark name).run c c' out) :
    c.Keeps c' := by
  rcases policySession_on run with ⟨m, session, keeps, -, afterDigest⟩ | ⟨-, keeps, -⟩
  swap
  · exact keeps
  rcases operated_bind unsealItem_on afterDigest with
    ⟨_, data, m', done, -, rest⟩ | ⟨-, left, -⟩
  · have same : c' = m' := by
      generalize stripTpmPrefix data mark name = result at rest
      cases result <;> exact (runsOn_pure.mp rest).1
    exact keeps.trans (same ▸ done.keeps trivial)
  · exact keeps.trans (Chip.keeps_of_failed left trivial)

/-- The values that PCR 7 has had are changed by an extension only. -/
theorem former_of_failed {request : Request}
    (left : c.Quiet c' ∨ ∃ fields, c.Done request fields c') (transient : request.Transient) :
    c'.tpm.former = c.tpm.former := by
  rcases left with quiet | ⟨fields, done⟩
  · rw [quiet.1]
  · have performs := done.performs
    generalize c'.tpm = s' at performs
    cases performs <;> first | rfl | exact transient.elim

theorem unsealKeyFromHandle_former {handle : UInt32} {mark : List UInt8} {name : String}
    {out : Outcome Sys (Except Err (List UInt8))}
    (run : RunsOn (device reliable) (unsealKeyFromHandle handle mark name).run c c' out) :
    c'.tpm.former = c.tpm.former := by
  rcases openDevice_bind run with afterOpen | ⟨-, rfl, -⟩
  swap
  · rfl
  rcases operated_bind startPolicySession_on afterOpen with
    ⟨_, session, m₁, done, -, afterStart⟩ | ⟨-, left, -⟩
  swap
  · exact former_of_failed left trivial
  rw [← former_of_failed (.inr ⟨_, done⟩) trivial]
  rcases operated_bind policyPcr_on afterStart with
    ⟨_, _, m₂, done, -, afterPcr⟩ | ⟨-, left, -⟩
  swap
  · exact former_of_failed left trivial
  rw [← former_of_failed (.inr ⟨_, done⟩) trivial]
  rcases operated_bind policyGetDigest_on afterPcr with
    ⟨_, digest, m₃, done, -, afterDigest⟩ | ⟨-, left, -⟩
  swap
  · exact former_of_failed left trivial
  rw [← former_of_failed (.inr ⟨_, done⟩) trivial]
  rcases operated_bind unsealItem_on afterDigest with ⟨_, data, m₄, done, -, rest⟩ | ⟨-, left, -⟩
  · rw [← former_of_failed (.inr ⟨_, done⟩) trivial]
    generalize stripTpmPrefix data mark name = result at rest
    cases result <;> rw [(runsOn_pure.mp rest).1]
  · exact former_of_failed left trivial

/-- What `cmd_unseal` prints is stored at its target, behind the mark of the mode and under the
    policy of PCR 7 as it is. -/
theorem cmdUnseal_on {mode : SealMode} {handle : Option UInt32} {printed : List UInt8}
    (range : IsPersistent (sealTarget mode handle))
    (run : RunsOn (device reliable) (cmdUnseal mode handle).run c c' (.done (.ok printed))) :
    c.tpm.persistent (sealTarget mode handle) =
      some (.sealedData (mode.mark ++ printed) (T.policyDigest [c.tpm.pcr7])) := by
  rw [cmdUnseal_eq] at run
  rcases unsealKeyFromHandle_on range run with ⟨data, stored, released⟩ | ⟨⟨e, ⟨⟩⟩, -⟩
  have stripped := (Outcome.done.inj released).symm
  rw [stored, stripTpmPrefix_eq_ok stripped]

/-- A reliable TPM prints what is stored for PCR 7 as it is. -/
theorem cmdUnseal_prints {mode : SealMode} {handle : Option UInt32} {secret : List UInt8}
    {out : Outcome Sys (Except Err (List UInt8))} (range : IsPersistent (sealTarget mode handle))
    (stored : c.tpm.persistent (sealTarget mode handle) =
      some (.sealedData (mode.mark ++ secret) (T.policyDigest [c.tpm.pcr7])))
    (small : (mode.mark ++ secret).length ≤ maxSealedData)
    (run : RunsOn (device true) (cmdUnseal mode handle).run c c' out) :
    out = .done (.ok secret) := by
  rw [cmdUnseal_eq] at run
  rcases unsealKeyFromHandle_on range run with ⟨data, found, rfl⟩ | ⟨-, missing⟩
  · rw [stored, Option.some.injEq] at found
    cases found
    rw [stripTpmPrefix_append]
  · exact absurd stored (missing rfl _ small)

/-- Nothing is printed that is stored for another value of PCR 7. -/
theorem cmdUnseal_refused {mode : SealMode} {handle : UInt32} {data : List UInt8} {pcr : T.Pcr}
    {out : Outcome Sys (Except Err (List UInt8))} (range : IsPersistent handle)
    (stored : c.tpm.persistent handle = some (.sealedData data (T.policyDigest [pcr])))
    (differ : c.tpm.pcr7 ≠ pcr)
    (run : RunsOn (device reliable) (cmdUnseal mode (some handle)).run c c' out) :
    ∃ e, out = .done (.error e) := by
  rcases unsealKeyFromHandle_on range run with ⟨data', found, -⟩ | ⟨error, -⟩
  · rw [stored, Option.some.injEq, Object.sealedData.injEq] at found
    exact absurd (T.policyDigest_inj _ _ found.2).symm differ
  · exact error

/-- A handle that is given is a persistent one. -/
theorem unsealOptions_range {args : List String} {opts opts' : UnsealOptions}
    (range : ∀ handle, opts.handle = some handle → IsPersistent handle)
    (parsed : unsealOptions args opts = .ok opts') (handle : UInt32)
    (given : opts'.handle = some handle) : IsPersistent handle := by
  fun_induction unsealOptions args opts with
  | case1 opts =>
    cases parsed
    exact range handle given
  | case2 opts rest ih => exact ih range parsed
  | case3 opts rest _ ih => exact ih range parsed
  | case4 => cases parsed
  | case5 opts value rest _ _ ih =>
    cases read : parseTpmHandle value with
    | error e =>
      rw [read] at parsed
      cases parsed
    | ok handle' =>
      rw [read] at parsed
      refine ih handle' (fun handle'' same => ?_) parsed
      cases same
      exact isPersistent_of_names ((parseTpmHandle_iff_names value handle').mp read)
  | case6 => cases parsed

theorem isPersistent_sealTarget (mode : SealMode) {handle : Option UInt32}
    (range : ∀ given, handle = some given → IsPersistent given) :
    IsPersistent (sealTarget mode handle) := by
  cases handle with
  | some handle => exact range handle rfl
  | none => cases mode <;> decide

theorem parseUnsealArgs_uses (args : List String) : (parseUnsealArgs args).run.Uses HostCmd := by
  unfold parseUnsealArgs
  split
  · trivial
  · split
    · trivial
    · exact Fallible.uses_bind detectSealMode_uses fun _ => trivial

/-! ## Locking -/

/-- The device, together with `/dev/urandom`, of which every read is of the length asked for. -/
def machine (reliable : Bool) : Device Sys (Chip T) := fun c e c' =>
  device reliable c e c' ∧ ExactRead e

theorem device_of_machine (c : Chip T) (e : Event Sys) (c' : Chip T)
    (step : machine reliable c e c') : device reliable c e c' := step.1

/-- A machine answers every command. -/
theorem machine_total (reliable : Bool) (c : Chip T) (cmd : SysCmd) :
    ∃ r c', machine reliable c ⟨cmd, r⟩ c' := by
  by_cases random : ∃ len, cmd = .urandomRead len
  · obtain ⟨len, rfl⟩ := random
    refine ⟨.ok (List.replicate len 0), c, rfl, ?_⟩
    rintro _ ⟨⟩
    exact List.length_replicate
  · obtain ⟨r, c', step⟩ := device_total reliable c cmd
    refine ⟨r, c', step, ?_⟩
    cases cmd with
    | urandomRead len => exact absurd ⟨len, rfl⟩ random
    | _ => trivial

/-- What a reliable machine does, any machine may do. -/
theorem machine_of_reliable (c : Chip T) (e : Event Sys) (c' : Chip T)
    (step : machine true c e c') : machine false c e c' :=
  ⟨device_of_reliable c e c' step.1, step.2⟩

/-- Only a write changes the TPM. -/
def NoWrite : SysCmd → Prop
  | .tpmWrite _ => False
  | _ => True

theorem machine_still (c : Chip T) (cmd : SysCmd) (r : cmd.Resp) (c' : Chip T)
    (noWrite : NoWrite cmd) (step : machine reliable c ⟨cmd, r⟩ c') : c' = c := by
  obtain ⟨step, -⟩ := step
  cases cmd with
  | tpmWrite bytes => exact noWrite.elim
  | tpmRead => cases r <;> exact step.2
  | tpmOpen =>
    cases r with
    | ok _ => exact step
    | error e => exact step.2
  | _ => exact step

theorem machine_host (c : Chip T) (cmd : SysCmd) (r : cmd.Resp) (c' : Chip T) (host : HostCmd cmd)
    (step : machine reliable c ⟨cmd, r⟩ c') : c' = c := device_host c cmd r c' host step.1

/-- The arguments that are passed on have been parsed. -/
theorem parseUnsealArgs_on {args : List String} {mode : SealMode} {handle : Option UInt32}
    (run : RunsOn (machine reliable) (parseUnsealArgs args).run c c'
      (.done (.ok (.ok (mode, handle))))) :
    c' = c ∧ (TpmCommand.unsealing args).Asks mode handle := by
  refine ⟨run.eq_of_uses machine_host (parseUnsealArgs_uses args), ?_⟩
  unfold parseUnsealArgs at run
  cases parsed : unsealOptions args ⟨none, none⟩ with
  | error e =>
    rw [parsed] at run
    cases (runsOn_pure.mp run).2
  | ok opts =>
    rw [parsed] at run
    obtain ⟨given, handle'⟩ := opts
    cases given with
    | some given =>
      cases (runsOn_pure.mp run).2
      exact ⟨_, parsed, fun given' same => Option.some.inj same, rfl⟩
    | none =>
      obtain ⟨mode', m, -, rest⟩ := Fallible.runsOn_bind_ok run
      cases (runsOn_pure.mp rest).2
      exact ⟨_, parsed, by rintro _ ⟨⟩, rfl⟩

/-- A command that prints has run `cmd_unseal` on what it was asked for. -/
theorem unseals_on {command : TpmCommand} {printed : List UInt8} (unseals : command.Unseals)
    (run : RunsOn (machine reliable) command.run c c' (.done (.ok printed))) :
    ∃ mode handle, command.Asks mode handle ∧ IsPersistent (sealTarget mode handle) ∧
      RunsOn (machine reliable) (cmdUnseal mode handle).run c c' (.done (.ok printed)) := by
  cases command with
  | bare =>
    obtain ⟨mode, m, detecting, rest⟩ := Fallible.runsOn_bind_ok run
    obtain rfl := detecting.eq_of_uses machine_host detectSealMode_uses
    exact ⟨mode, none, rfl, isPersistent_sealTarget mode (by rintro _ ⟨⟩), rest⟩
  | unsealing args =>
    obtain ⟨result, m, parsing, rest⟩ := Fallible.runsOn_bind_ok run
    cases result with
    | error e => cases (runsOn_halt.mp rest).2
    | ok result =>
      obtain ⟨mode, handle⟩ := result
      obtain ⟨rfl, opts, parsed, given, rfl⟩ := parseUnsealArgs_on parsing
      have range := unsealOptions_range (by rintro _ ⟨⟩) parsed
      exact ⟨mode, opts.handle, ⟨opts, parsed, given, rfl⟩, isPersistent_sealTarget mode range,
        rest⟩
  | lockTpm | primary | sealing => exact unseals.elim

/-- `pcr_extend` of PCR 7: it is extended, or the operation fails. -/
theorem pcrExtend_on {out : Outcome Sys (Except Err Unit)}
    (run : RunsOn (machine reliable) (pcrExtend 7).run c c' out) :
    (∃ digest fields, c.Done (.pcrExtend 7 digest) fields c') ∨
      (∃ e, out = .done (.error e)) ∧ c.Quiet c' := by
  obtain ⟨opened, m, openStep, afterOpen⟩ := Fallible.runsOn_attempt_call_bind.mp run
  obtain rfl := machine_still c .urandomOpen opened m trivial openStep
  cases opened with
  | error e =>
    obtain ⟨rfl, rfl⟩ := runsOn_pure.mp afterOpen
    exact .inr ⟨⟨_, rfl⟩, .refl _⟩
  | ok _ =>
    obtain ⟨digest, m', readStep, afterRead⟩ := Fallible.runsOn_call_bind.mp afterOpen
    obtain rfl := machine_still m (.urandomRead 32) digest m' trivial readStep
    cases digest with
    | error e =>
      obtain ⟨rfl, rfl⟩ := runsOn_pure.mp afterRead
      exact .inr ⟨⟨_, rfl⟩, .refl _⟩
    | ok digest =>
      have length : digest.length = 32 := readStep.2 digest rfl
      have carries : Carries (pcrExtendCmd 7 digest) (.pcrExtend 7 digest) :=
        (builds_pcrExtend 7 length).carries (decode_pcrExtend length)
      have operated : Operated reliable m' (.pcrExtend 7 digest) (fun _ _ => True) c' out :=
        operated_of_request_unit carries (afterRead.mono device_of_machine)
      rcases out with (e | _) | stop
      · obtain ⟨-, quiet | ⟨fields, done⟩⟩ := operated
        · exact .inr ⟨⟨e, rfl⟩, quiet⟩
        · exact .inl ⟨digest, fields, done⟩
      · obtain ⟨fields, done, -⟩ := operated
        exact .inl ⟨digest, fields, done⟩
      · exact operated.elim

theorem pcrExtend_persistent {out : Outcome Sys (Except Err Unit)}
    (run : RunsOn (machine reliable) (pcrExtend 7).run c c' out) :
    c'.tpm.persistent = c.tpm.persistent := by
  rcases pcrExtend_on run with ⟨digest, fields, done⟩ | ⟨-, quiet⟩
  · exact done.extended.1
  · rw [quiet.1]

theorem openDevice_still {out : Outcome Sys (Except Err Unit)}
    (run : RunsOn (machine reliable) openDevice.run c c' out) : c' = c := by
  refine run.eq_of_uses machine_still ?_
  refine Fallible.uses_bind ((Fallible.uses_attempt _ _).mpr
    ((Fallible.uses_call _ _ _).mpr trivial)) fun opened => ?_
  cases opened <;> trivial

/-- `lock_tpm` that succeeds has extended PCR 7. -/
theorem cmdLockTpm_on {out : Outcome Sys (Except Err Unit)}
    (run : RunsOn (machine reliable) cmdLockTpm.run c c' out) :
    c'.tpm.persistent = c.tpm.persistent ∧
      (out = .done (.ok ()) → c'.tpm.pcr7 ≠ c.tpm.pcr7) := by
  rcases Fallible.runsOn_fallible_bind.mp run with
    ⟨_, m, opening, extending⟩ | ⟨e, rfl, opening⟩ | ⟨stop, rfl, opening⟩
  · obtain rfl := openDevice_still opening
    refine ⟨pcrExtend_persistent extending, ?_⟩
    rintro rfl
    rcases pcrExtend_on extending with ⟨digest, fields, done⟩ | ⟨⟨e, ⟨⟩⟩, -⟩
    exact done.extended.2
  · obtain rfl := openDevice_still opening
    exact ⟨rfl, by rintro ⟨⟩⟩
  · obtain rfl := openDevice_still opening
    exact ⟨rfl, by rintro ⟨⟩⟩

/-! ## The unlocking at boot -/

/-- The extend step keeps the persistent objects. -/
theorem extendPcr7_persistent {out : Outcome Sys (Except Err Unit)}
    (run : RunsOn (machine reliable) extendPcr7.run c c' out) :
    c'.tpm.persistent = c.tpm.persistent := by
  rcases Fallible.runsOn_attempt_bind.mp run with ⟨opened, m, opening, rest⟩ | ⟨stop, -, opening⟩
  · obtain rfl := openDevice_still opening
    cases opened with
    | error e => rw [(runsOn_pure.mp rest).1]
    | ok _ =>
      rcases Fallible.runsOn_attempt_bind.mp rest with
        ⟨r, m', extending, last⟩ | ⟨stop, -, extending⟩
      · rw [(runsOn_pure.mp last).1]
        exact pcrExtend_persistent extending
      · exact pcrExtend_persistent extending
  · rw [openDevice_still opening]

theorem path_still {tr : History Sys} (noWrite : ∀ e ∈ tr, NoWrite e.cmd)
    (path : Path (machine reliable) c tr c') : c' = c :=
  path_eq_of_cmds machine_still noWrite path

theorem unsealKey_persistent {verifiedBoot : Bool} {tr : History Sys}
    {out : Outcome Sys (Except Err (List UInt8))} (runs : Runs (unsealKey verifiedBoot).run tr out)
    (path : Path (machine reliable) c tr c') : c'.tpm.persistent = c.tpm.persistent := by
  obtain ⟨handle, mark, mode, unseals⟩ := unsealKey_eq verifiedBoot
  rw [unseals] at runs
  have run : RunsOn (machine reliable) _ c c' out := ⟨tr, runs, path⟩
  exact (unsealKeyFromHandle_keeps (run.mono device_of_machine)).persistent_eq

/-- So does an attempt to unlock with the TPM. -/
theorem TpmUnlock.persistent {cDir : String} {verifiedBoot : Bool} {tr : History Sys}
    {out : Outcome Sys (Except Err Unit)} (tried : TpmUnlock cDir verifiedBoot tr out)
    (path : Path (machine reliable) c tr c') : c'.tpm.persistent = c.tpm.persistent := by
  cases tried with
  | notUnsealed runs => exact unsealKey_persistent runs path
  | stopped runs => exact unsealKey_persistent runs path
  | unsealed runs tried =>
    obtain ⟨m, unsealing, trying⟩ := path_append.mp path
    rw [← unsealKey_persistent runs unsealing]
    cases tried with
    | refused | notAdded | closed => rw [path_still (by simp [NoWrite]) trying]
    | @opened tr _ runs =>
      obtain ⟨m', adding, m'', looking, extending⟩ := trying
      obtain rfl := machine_still _ (.addKey _ _) _ _ trivial adding
      obtain rfl := machine_still _ (.isDir _) _ _ trivial looking
      exact extendPcr7_persistent ⟨tr, runs, extending⟩

/-- The unlocking at boot stores and removes nothing. -/
theorem unlockStateC_persistent {state : String} {verifiedBoot : Bool}
    {out : Outcome Sys (Except Err Unit)}
    (run : RunsOn (machine reliable) (unlockStateC state verifiedBoot).run c c' out) :
    c'.tpm.persistent = c.tpm.persistent := by
  obtain ⟨tr, runs, path⟩ := run
  have password : ∀ {m m' : Chip T} {cDir cAge : String} {left : Nat} {tr : History Sys},
      PasswordRun cDir cAge left tr out → Path (machine reliable) m tr m' → m' = m := by
    intro m m' cDir cAge left tr run path
    refine path_still (fun e member => ?_) path
    have cmd := run.cmds e member
    obtain ⟨c, r⟩ := e
    cases c <;> trivial
  have entered : ∀ {m : Chip T} {device : Bool} {tr : History Sys},
      Path (machine reliable) c (entry state device ++ tr) m → Path (machine reliable) c tr m := by
    intro m device tr path
    obtain ⟨m', looking, rest⟩ := path_append.mp path
    rwa [path_still (by simp [entry, NoWrite]) looking] at rest
  cases unlockRun_of_runs runs with
  | absent => rw [path_still (by simp [NoWrite]) path]
  | alreadyOpen => rw [path_still (by simp [NoWrite, seenOpen]) path]
  | noTpm run => rw [password run (entered path)]
  | tpm tried => exact TpmUnlock.persistent tried (entered path)
  | tpmFailed tried run =>
    obtain ⟨m, trying, typing⟩ := path_append.mp (entered path)
    rw [password run typing]
    exact TpmUnlock.persistent tried trying

end Initos.Seal
