import Initos.Boot.UnlockRun
import Initos.Tpm2.Exchange

/-!
# The unlock protocol

Two properties of every run of `unlock_state_c`, whatever the file system, the TPM and the
person at the prompt do. The first is the protocol of a verified boot: when the directory
counts as unlocked, how many prompts there are, and where the keys come from. The second is
about PCR 7: a secret that the TPM has released cannot be had again in this boot.
-/

namespace Initos.Boot

open Interact Bytes Marshal Tpm2

/-! ## Unsealing -/

/-- The codes of the commands that unseal a key. -/
def unsealCodes : List UInt32 :=
  [ccStartAuthSession, ccPolicyPcr, ccPolicyGetDigest, ccUnseal, ccDaLockReset]

/-- A TPM that cannot be opened is an error. -/
theorem openDevice_shape {tr : History Sys} {out : Outcome Sys (Except Err Unit)}
    (runs : Runs openDevice.run tr out) :
    (tr = [⟨.tpmOpen, .ok ()⟩] ∧ out = .done (.ok ())) ∨
      ∃ e e', tr = [⟨.tpmOpen, .error e⟩] ∧ out = .done (.error e') := by
  obtain ⟨opened, tr', rfl, rest⟩ := Fallible.runs_attempt_call_bind.mp runs
  cases opened with
  | ok _ =>
    obtain ⟨rfl, rfl⟩ := Fallible.runs_pure_iff.mp rest
    exact .inl ⟨rfl, rfl⟩
  | error e =>
    obtain ⟨rfl, rfl⟩ := Fallible.runs_pure_iff.mp rest
    exact .inr ⟨e, _, rfl, rfl⟩

section

variable {handle : UInt32} {mark : List UInt8} {mode : String} {tr : History Sys}

/-- The device is opened first and never again. -/
theorem unsealKeyFromHandle_shape {out : Outcome Sys (Except Err (List UInt8))}
    (runs : Runs (unsealKeyFromHandle handle mark mode).run tr out) :
    ∃ opened tr', tr = ⟨.tpmOpen, opened⟩ :: tr' ∧ ∀ e ∈ tr', DeviceCmd unsealCodes e.cmd := by
  rcases runs_fallible_bind.mp runs with ⟨_, tr₁, tr₂, rfl, opened, rest⟩ | ⟨e, rfl, opened⟩ |
    ⟨stop, rfl, opened⟩
  · rcases openDevice_shape opened with ⟨rfl, -⟩ | ⟨e, e', rfl, failed⟩
    · refine ⟨_, tr₂, rfl, Prog.Uses.runs ?_ rest⟩
      have reset : ccDaLockReset ∈ unsealCodes := by simp [unsealCodes]
      refine Fallible.uses_bind (startPolicySession_uses (by simp [unsealCodes]) reset)
        fun session => ?_
      refine Fallible.uses_bind (policyPcr_uses session (by simp [unsealCodes]) reset) fun _ => ?_
      refine Fallible.uses_bind (policyGetDigest_uses session (by simp [unsealCodes]) reset)
        fun _ => ?_
      refine Fallible.uses_bind (unsealItem_uses handle session (by simp [unsealCodes]) reset)
        fun secret => ?_
      cases stripTpmPrefix secret mark mode <;> trivial
    · cases failed
  · rcases openDevice_shape opened with ⟨-, failed⟩ | ⟨e, e', rfl, -⟩
    · cases failed
    · exact ⟨_, [], rfl, by simp⟩
  · rcases openDevice_shape opened with ⟨-, failed⟩ | ⟨e, e', -, failed⟩ <;> cases failed

theorem stripTpmPrefix_eq_ok {secret key : List UInt8}
    (stripped : stripTpmPrefix secret mark mode = .ok key) : secret = mark ++ key := by
  unfold stripTpmPrefix at stripped
  split at stripped
  next marked =>
    obtain ⟨rest, rfl⟩ := List.isPrefixOf_iff_prefix.mp marked
    cases stripped
    rw [List.drop_left]
  next => cases stripped

/-- An unsealed key was read from the handle, behind the mark. -/
theorem unsealKeyFromHandle_ok {rawKey : List UInt8}
    (runs : Runs (unsealKeyFromHandle handle mark mode).run tr (.done (.ok rawKey))) :
    ∃ session first last, tr = first ++ last ∧
      Runs (unsealItem handle session).run last (.done (.ok (mark ++ rawKey))) := by
  obtain ⟨_, tr₁, _, rfl, -, runs⟩ := Fallible.runs_bind_ok runs
  obtain ⟨session, tr₂, _, rfl, -, runs⟩ := Fallible.runs_bind_ok runs
  obtain ⟨_, tr₃, _, rfl, -, runs⟩ := Fallible.runs_bind_ok runs
  obtain ⟨_, tr₄, _, rfl, -, runs⟩ := Fallible.runs_bind_ok runs
  obtain ⟨secret, tr₅, tr₆, rfl, unsealed, runs⟩ := Fallible.runs_bind_ok runs
  cases stripped : stripTpmPrefix secret mark mode with
  | error e =>
    rw [stripped] at runs
    cases runs
  | ok key =>
    rw [stripped] at runs
    cases runs
    rw [stripTpmPrefix_eq_ok stripped] at unsealed
    exact ⟨session, tr₁ ++ (tr₂ ++ (tr₃ ++ tr₄)), tr₅, by simp, unsealed⟩

/-- Unsealing aborts only at a reply that is too short. -/
theorem unsealKeyFromHandle_wp {R : Rely Sys} {h : History Sys} (fitting : Fitting h) :
    Prog.wp R EndsFitting (unsealKeyFromHandle handle mark mode).run h := by
  refine endsFitting_bind (openDevice_wp fitting) fun _ _ fitting => ?_
  refine endsFitting_bind (startPolicySession_wp fitting) fun _ session fitting => ?_
  refine endsFitting_bind (policyPcr_wp session fitting) fun _ _ fitting => ?_
  refine endsFitting_bind (policyGetDigest_wp session fitting) fun _ _ fitting => ?_
  refine endsFitting_bind (unsealItem_wp handle session fitting) fun _ secret fitting => ?_
  cases stripTpmPrefix secret mark mode with
  | error e => exact (Prog.wp_pure _ _ _ _).mpr (iff_of_true fitting rfl)
  | ok key => exact (Prog.wp_pure _ _ _ _).mpr (iff_of_true fitting rfl)

end

/-! ## Extending PCR 7 -/

/-- A run of the anti-replay step. -/
inductive ExtendRun : History Sys → Outcome Sys (Except Err Unit) → Prop where
  | noTpm (e : Err) : ExtendRun [⟨.tpmOpen, .error e⟩] (.done (.ok ()))
  | noUrandom (e : Err) :
      ExtendRun [⟨.tpmOpen, .ok ()⟩, ⟨.urandomOpen, .error e⟩] (.done (.ok ()))
  | notRead (e : Err) :
      ExtendRun [⟨.tpmOpen, .ok ()⟩, ⟨.urandomOpen, .ok ()⟩, ⟨.urandomRead 32, .error e⟩]
        (.done (.ok ()))
  /-- More random bytes than were asked for do not fit into the command. -/
  | aborted {digest : List UInt8} {stop : Stop} : pcrExtendCmd 7 digest = none →
      ExtendRun [⟨.tpmOpen, .ok ()⟩, ⟨.urandomOpen, .ok ()⟩, ⟨.urandomRead 32, .ok digest⟩]
        (.halted stop)
  | sent {digest cmd : List UInt8} {tr : History Sys} {r : Except Err (List UInt8)} :
      pcrExtendCmd 7 digest = some cmd → Runs (request (some cmd) "PCR_Extend").run tr (.done r) →
      ExtendRun
        (⟨.tpmOpen, .ok ()⟩ :: ⟨.urandomOpen, .ok ()⟩ :: ⟨.urandomRead 32, .ok digest⟩ :: tr)
        (.done (.ok ()))

/-- A request is one exchange with retries, which returns. -/
theorem request_done {cmd : List UInt8} {code : UInt32} (isCode : commandCode cmd = some code)
    {cmdName : String} {tr : History Sys} {out : Outcome Sys (Except Err (List UInt8))}
    (runs : Runs (request (some cmd) cmdName).run tr out) : ∃ r, out = .done r := by
  have spec := request_wp (R := fun _ _ => True) (h := []) ⟨cmd, rfl, isCode⟩ cmdName
    (P := fun _ _ => True) (fun _ => trivial) trivial
  rcases (Prog.wp_iff_runs _ _ _ _).mp spec tr out runs ((admits_const _ _).mpr fun _ _ => trivial)
    with ⟨e, done, -⟩ | ⟨rsp, done, -⟩
  · exact ⟨_, done⟩
  · exact ⟨_, done⟩

/-- A run of `pcr_extend` of PCR 7, whose result is not looked at. -/
theorem pcrExtend_shape {tr : History Sys} {out : Outcome Sys (Except Err Unit)}
    (runs : Runs (pcrExtend 7).run tr out) :
    (∃ e, tr = [⟨.urandomOpen, .error e⟩] ∧ out.isDone) ∨
    (∃ e, tr = [⟨.urandomOpen, .ok ()⟩, ⟨.urandomRead 32, .error e⟩] ∧ out.isDone) ∨
    (∃ digest, tr = [⟨.urandomOpen, .ok ()⟩, ⟨.urandomRead 32, .ok digest⟩] ∧
      pcrExtendCmd 7 digest = none ∧ ¬out.isDone) ∨
    (∃ digest cmd tr' r, tr = ⟨.urandomOpen, .ok ()⟩ :: ⟨.urandomRead 32, .ok digest⟩ :: tr' ∧
      pcrExtendCmd 7 digest = some cmd ∧
      Runs (request (some cmd) "PCR_Extend").run tr' (.done r) ∧ out.isDone) := by
  obtain ⟨opened, tr₁, rfl, afterOpen⟩ := Fallible.runs_attempt_call_bind.mp runs
  cases opened with
  | error e =>
    obtain ⟨rfl, rfl⟩ := Fallible.runs_pure_iff.mp afterOpen
    exact .inl ⟨e, rfl, rfl⟩
  | ok _ =>
    obtain ⟨digest, tr₂, rfl, afterRead⟩ := Fallible.runs_call_bind.mp afterOpen
    cases digest with
    | error e =>
      obtain ⟨rfl, rfl⟩ := Fallible.runs_pure_iff.mp afterRead
      exact .inr (.inl ⟨e, rfl, rfl⟩)
    | ok digest =>
      rw [Fallible.cont_ok] at afterRead
      cases built : pcrExtendCmd 7 digest with
      | none =>
        rw [built] at afterRead
        cases afterRead
        exact .inr (.inr (.inl ⟨digest, rfl, built, Bool.false_ne_true⟩))
      | some cmd =>
        rw [built] at afterRead
        refine .inr (.inr (.inr ?_))
        rcases runs_fallible_bind.mp afterRead with ⟨rsp, tr₃, tr₄, rfl, sent, rest⟩ |
          ⟨e, rfl, sent⟩ | ⟨stop, rfl, sent⟩
        · obtain ⟨rfl, rfl⟩ := Fallible.runs_pure_iff.mp rest
          rw [List.append_nil]
          exact ⟨digest, cmd, tr₃, _, rfl, built, sent, rfl⟩
        · exact ⟨digest, cmd, _, _, rfl, built, sent, rfl⟩
        · obtain ⟨r, done⟩ := request_done (commandCode_fill built) sent
          cases done

/-- The runs of the extend step. -/
theorem extendRun_of_runs {tr : History Sys} {out : Outcome Sys (Except Err Unit)}
    (runs : Runs extendPcr7.run tr out) : ExtendRun tr out := by
  rcases Fallible.runs_attempt_bind.mp runs with ⟨r, tr₁, tr₂, rfl, opened, rest⟩ |
    ⟨stop, rfl, opened⟩
  · rcases openDevice_shape opened with ⟨rfl, ok⟩ | ⟨e, e', rfl, failed⟩
    · cases ok
      rcases Fallible.runs_attempt_bind.mp rest with ⟨r, tr₃, tr₄, rfl, extended, rest⟩ |
        ⟨stop, rfl, extended⟩
      · obtain ⟨rfl, rfl⟩ := Fallible.runs_pure_iff.mp rest
        rw [List.append_nil]
        rcases pcrExtend_shape extended with ⟨e, rfl, -⟩ | ⟨e, rfl, -⟩ | ⟨digest, rfl, -, stops⟩ |
          ⟨digest, cmd, tr', r, rfl, built, sent, -⟩
        · exact .noUrandom e
        · exact .notRead e
        · exact absurd rfl stops
        · exact .sent built sent
      · rcases pcrExtend_shape extended with ⟨e, -, ⟨⟩⟩ | ⟨e, -, ⟨⟩⟩ | ⟨digest, rfl, tooLong, -⟩ |
          ⟨digest, cmd, tr', r, -, -, -, ⟨⟩⟩
        exact .aborted tooLong
    · cases failed
      obtain ⟨rfl, rfl⟩ := Fallible.runs_pure_iff.mp rest
      exact .noTpm e
  · rcases openDevice_shape opened with ⟨-, failed⟩ | ⟨e, e', -, failed⟩ <;> cases failed

/-- `read_exact` fills the buffer it is given. -/
def ExactRead (e : Event Sys) : Prop :=
  match e with
  | ⟨.urandomRead len, r⟩ => ∀ bytes, r = Except.ok bytes → bytes.length = len
  | _ => True

/-- The commands of the anti-replay step. -/
def ExtendCmd : SysCmd → Prop
  | .tpmOpen | .urandomOpen | .urandomRead _ => True
  | c => DeviceCmd [ccPcrExtend, ccDaLockReset] c

section

variable {tr : History Sys} {out : Outcome Sys (Except Err Unit)}

theorem extend_cmds {digest cmd : List UInt8} {r : Except Err (List UInt8)}
    (built : pcrExtendCmd 7 digest = some cmd)
    (sent : Runs (request (some cmd) "PCR_Extend").run tr (.done r)) :
    ∀ e ∈ tr, DeviceCmd [ccPcrExtend, ccDaLockReset] e.cmd := by
  have uses : (request (some cmd) "PCR_Extend").run.Uses
      (DeviceCmd [ccPcrExtend, ccDaLockReset]) :=
    request_uses ⟨cmd, rfl, commandCode_fill built⟩ _ (by simp) (by simp)
  exact uses.runs sent

/-- The commands of the extend step. -/
theorem ExtendRun.cmds (run : ExtendRun tr out) : ∀ e ∈ tr, ExtendCmd e.cmd := by
  cases run with
  | noTpm | noUrandom | notRead | aborted => simp [ExtendCmd]
  | sent built sent =>
    have device : ∀ c, DeviceCmd [ccPcrExtend, ccDaLockReset] c → ExtendCmd c := by
      intro c device
      cases c <;> trivial
    simp only [List.forall_mem_cons]
    exact ⟨trivial, trivial, trivial, fun e member => device _ (extend_cmds built sent e member)⟩

/-- The extend step does not fail the unlocking. -/
theorem ExtendRun.ok (run : ExtendRun tr out) (exact : ∀ e ∈ tr, ExactRead e) :
    out = .done (.ok ()) := by
  cases run with
  | noTpm | noUrandom | notRead | sent => rfl
  | @aborted digest _ tooLong =>
    have length : digest.length = 32 := exact ⟨.urandomRead 32, .ok digest⟩ (by simp) digest rfl
    obtain ⟨cmd, built, -⟩ := builds_pcrExtend 7 length
    rw [tooLong] at built
    cases built

end

/-! ## Fitting replies -/

theorem ExtendRun.fitting {h tr : History Sys} {out : Outcome Sys (Except Err Unit)}
    (run : ExtendRun tr out) (fitting : Fitting h) : Fitting (h ++ tr) := by
  cases run with
  | noTpm | noUrandom | notRead | aborted => exact accepted_append_of_notRead fitting (by simp)
  | @sent digest cmd tr r built sent =>
    have before : Fitting (h ++ [⟨.tpmOpen, .ok ()⟩, ⟨.urandomOpen, .ok ()⟩,
        ⟨.urandomRead 32, .ok digest⟩]) := accepted_append_of_notRead fitting (by simp)
    have spec := request_wp (R := fun _ _ => True) ⟨cmd, rfl, commandCode_fill built⟩ "PCR_Extend"
      (fun _ => trivial) before
    rcases (Prog.wp_iff_runs _ _ _ _).mp spec tr _ sent ((admits_const _ _).mpr fun _ _ => trivial)
      with ⟨e, -, fitting⟩ | ⟨rsp, -, fits⟩
    · simpa [Fitting] using fitting
    · simpa [Fitting] using fits.mpr trivial

section

variable {cDir : String} {verifiedBoot : Bool} {h tr : History Sys}
  {out : Outcome Sys (Except Err Unit)}

/-- Both modes unseal in the same way. -/
theorem unsealKey_eq (verifiedBoot : Bool) : ∃ handle mark mode,
    unsealKey verifiedBoot = unsealKeyFromHandle handle mark mode := by
  cases verifiedBoot with
  | true => exact ⟨_, _, _, rfl⟩
  | false => exact ⟨_, _, _, rfl⟩

/-- An abort means a reply that is too short. -/
theorem unsealKey_endsFitting {out : Outcome Sys (Except Err (List UInt8))}
    (runs : Runs (unsealKey verifiedBoot).run tr out) (fitting : Fitting h) :
    EndsFitting (h ++ tr) out := by
  obtain ⟨handle, mark, mode, eq⟩ := unsealKey_eq verifiedBoot
  rw [eq] at runs
  exact (Prog.wp_iff_runs (fun _ _ => True) _ _ _).mp (unsealKeyFromHandle_wp fitting) tr out runs
    ((admits_const _ _).mpr fun _ _ => trivial)

/-- The key is unsealed with the commands for it only. -/
theorem unsealKey_shape {out : Outcome Sys (Except Err (List UInt8))}
    (runs : Runs (unsealKey verifiedBoot).run tr out) :
    ∃ opened tr', tr = ⟨.tpmOpen, opened⟩ :: tr' ∧ ∀ e ∈ tr', DeviceCmd unsealCodes e.cmd := by
  obtain ⟨handle, mark, mode, eq⟩ := unsealKey_eq verifiedBoot
  rw [eq] at runs
  exact unsealKeyFromHandle_shape runs

/-- An attempt with the TPM returns just when every reply has fitted. -/
theorem TpmUnlock.endsFitting (tried : TpmUnlock cDir verifiedBoot tr out) (fitting : Fitting h)
    (exact : ∀ e ∈ tr, ExactRead e) : EndsFitting (h ++ tr) out := by
  cases tried with
  | notUnsealed runs => exact unsealKey_endsFitting runs fitting
  | stopped runs => exact unsealKey_endsFitting runs fitting
  | @unsealed first second rawKey _ runs tried =>
    have fitting := (unsealKey_endsFitting runs fitting).mpr rfl
    have done : Fitting (h ++ first ++ second) ∧ out.isDone = true := by
      cases tried with
      | refused | notAdded | closed =>
        exact ⟨accepted_append_of_notRead fitting (by simp), rfl⟩
      | @opened rest _ runs =>
        have run := extendRun_of_runs runs
        have added : Fitting (h ++ first ++ [⟨.addKey cDir (repeatKey rawKey), .ok ()⟩,
            seenOpen cDir]) :=
          accepted_append_of_notRead fitting (by simp [seenOpen])
        refine ⟨by simpa using run.fitting added, ?_⟩
        rw [run.ok fun e member => exact e (by simp [member])]
        rfl
    rw [← List.append_assoc]
    exact iff_of_true done.1 done.2

/-- The commands of an attempt with the TPM. -/
def TpmUnlockCmd : SysCmd → Prop
  | .addKey _ _ | .isDir _ => True
  | c => ExtendCmd c ∨ DeviceCmd unsealCodes c

theorem TpmUnlock.cmds (tried : TpmUnlock cDir verifiedBoot tr out) :
    ∀ e ∈ tr, TpmUnlockCmd e.cmd := by
  have device : ∀ {c : SysCmd}, DeviceCmd unsealCodes c → TpmUnlockCmd c := by
    intro c device
    cases c <;> first | trivial | exact .inr device
  have extend : ∀ {c : SysCmd}, ExtendCmd c → TpmUnlockCmd c := by
    intro c extend
    cases c <;> first | trivial | exact .inl extend
  have unsealing : ∀ {tr : History Sys} {out : Outcome Sys (Except Err (List UInt8))},
      Runs (unsealKey verifiedBoot).run tr out → ∀ e ∈ tr, TpmUnlockCmd e.cmd := by
    intro tr out runs
    obtain ⟨opened, tr', rfl, uses⟩ := unsealKey_shape runs
    exact List.forall_mem_cons.mpr ⟨.inl trivial, fun e member => device (uses e member)⟩
  cases tried with
  | notUnsealed runs => exact unsealing runs
  | stopped runs => exact unsealing runs
  | unsealed runs tried =>
    refine List.forall_mem_append.mpr ⟨unsealing runs, ?_⟩
    cases tried with
    | refused | notAdded | closed => simp [TpmUnlockCmd]
    | opened runs =>
      refine List.forall_mem_cons.mpr ⟨trivial, List.forall_mem_cons.mpr ⟨trivial, ?_⟩⟩
      exact fun e member => extend ((extendRun_of_runs runs).cmds e member)

theorem TpmUnlock.isPrompt_eq_false (tried : TpmUnlock cDir verifiedBoot tr out) :
    ∀ e ∈ tr, isPrompt e = false := by
  rintro ⟨c, r⟩ member
  have cmd := tried.cmds _ member
  cases c <;> first | rfl | exact (cmd.elim id id).elim

/-- The attempt succeeds exactly if the directory was seen open. -/
theorem TpmUnlock.seenOpen_iff (tried : TpmUnlock cDir verifiedBoot tr out)
    (exact : ∀ e ∈ tr, ExactRead e) : seenOpen cDir ∈ tr ↔ out = .done (.ok ()) := by
  have notSeen : ∀ {tr : History Sys} {out : Outcome Sys (Except Err (List UInt8))},
      Runs (unsealKey verifiedBoot).run tr out → seenOpen cDir ∉ tr := by
    intro tr out runs member
    obtain ⟨opened, tr', rfl, uses⟩ := unsealKey_shape runs
    rcases List.mem_cons.mp member with same | member
    · cases same
    · exact uses _ member
  cases tried with
  | notUnsealed runs => simp [notSeen runs]
  | stopped runs => simp [notSeen runs]
  | unsealed runs tried =>
    rw [List.mem_append, or_iff_right (notSeen runs)]
    refine tried.seenOpen_iff fun tr' inside runs => ?_
    exact (extendRun_of_runs runs).ok fun e member =>
      exact e (List.mem_append_right _ (inside member))

/-- A successful attempt has added a key, and then seen the directory open. -/
theorem TpmUnlock.unlocked (tried : TpmUnlock cDir verifiedBoot tr (.done (.ok ()))) :
    UnlockedIn cDir tr := by
  cases tried with
  | unsealed _ tried => exact tried.unlocked.prepend _

/-- The key that an attempt with the TPM adds comes from the handle of the mode. -/
theorem TpmUnlock.addKey_eq (tried : TpmUnlock cDir true tr out) {before after : History Sys}
    {dir : String} {key : List UInt8} {r : Except Err Unit}
    (split : tr = before ++ ⟨.addKey dir key, r⟩ :: after) :
    ∃ session first last raw, before = first ++ last ∧
      Runs (unsealItem defaultSealedHandleSecure session).run last
        (.done (.ok (secureTpmPrefix ++ raw))) ∧ key = repeatKey raw := by
  have notAdded : ∀ {tr : History Sys} {out : Outcome Sys (Except Err (List UInt8))},
      Runs (unsealKey true).run tr out → ⟨.addKey dir key, r⟩ ∉ tr := by
    intro tr out runs member
    obtain ⟨opened, tr', rfl, uses⟩ := unsealKey_shape runs
    rcases List.mem_cons.mp member with same | member
    · cases same
    · exact uses _ member
  cases tried with
  | notUnsealed runs => exact absurd (by simp [split]) (notAdded runs)
  | stopped runs => exact absurd (by simp [split]) (notAdded runs)
  | unsealed runs tried =>
    rcases append_eq_append_cons split with ⟨rest, first_eq, -⟩ | ⟨first, rfl, second_eq⟩
    · exact absurd (by simp [first_eq]) (notAdded runs)
    · obtain ⟨rfl, rfl⟩ := tried.addKey_eq
        (fun _ _ runs _ _ _ member => (extendRun_of_runs runs).cmds _ member) second_eq
      obtain ⟨session, first, last, rfl, unsealed⟩ := unsealKeyFromHandle_ok runs
      exact ⟨session, first, last, _, by simp, unsealed, rfl⟩

end

/-! ## The protocol of a verified boot -/

/-- The directory is there and closed when the unlocking starts; `rest` is what follows. -/
def Entered (state : String) (tr rest : History Sys) : Prop :=
  tr = ⟨.pathExists (UnixPath.join state "c"), true⟩ ::
    ⟨.isDir (UnixPath.join (UnixPath.join state "c") "home"), false⟩ :: rest

/-- What the prompts and the keys of a verified boot keep to, whatever the result. -/
structure KeyRules (state : String) (tr : History Sys) : Prop where
  prompts_le : tr.countP isPrompt ≤ 3
  /-- An empty password is followed by the next prompt, or by nothing. -/
  empty_skipped : ∀ before prompt after, tr = before ++ ⟨.readSecret prompt, .ok ""⟩ :: after →
    after = [] ∨ ∃ there prompt' r rest, after =
      ⟨.pathExists (UnixPath.join state "initos/c.age"), there⟩ :: ⟨.readSecret prompt', r⟩ :: rest
  /-- A key that was added before any prompt was unsealed from the secure handle, with the
      mark of a verified boot. -/
  tpm_key : ∀ before dir key r after, tr = before ++ ⟨.addKey dir key, r⟩ :: after →
    (∀ e ∈ before, isPrompt e = false) →
    ∃ session first last raw, before = first ++ last ∧
      Runs (unsealItem defaultSealedHandleSecure session).run last
        (.done (.ok (secureTpmPrefix ++ raw))) ∧ key = repeatKey raw

/-- What a run of `unlock_state_c` in a verified boot keeps to. -/
structure UnlockProtocol (state : String) (tr : History Sys)
    (out : Outcome Sys (Except Err Unit)) : Prop extends KeyRules state tr where
  /-- It succeeds just where there is no directory, or where a key opened a closed one. -/
  ok_iff : out = .done (.ok ()) ↔ tr = [⟨.pathExists (UnixPath.join state "c"), false⟩] ∨
    ∃ rest, Entered state tr rest ∧ UnlockedIn (UnixPath.join state "c") rest
  /-- Where nothing unlocks the directory and every prompt is answered, there are three. -/
  three_attempts : ∀ rest, Entered state tr rest →
    (∀ prompt e, ⟨.readSecret prompt, .error e⟩ ∉ tr) → out ≠ .done (.ok ()) →
    tr.countP isPrompt = 3

section

variable {state : String} {tr : History Sys} {out : Outcome Sys (Except Err Unit)}

/-- A run returns just when every reply of the TPM has fitted. -/
theorem UnlockRun.endsFitting {verifiedBoot : Bool} (run : UnlockRun state verifiedBoot tr out)
    (exact : ∀ e ∈ tr, ExactRead e) : EndsFitting tr out := by
  have password : ∀ {h tr : History Sys} {cDir cAge : String} {left : Nat}, Fitting h →
      PasswordRun cDir cAge left tr out → EndsFitting (h ++ tr) out := by
    intro h tr cDir cAge left fitting run
    obtain ⟨r, rfl⟩ := run.done
    refine iff_of_true (accepted_append_of_notRead fitting fun e member isRead => ?_) rfl
    have cmd := run.cmds e member
    rw [isRead] at cmd
    exact cmd
  have start : ∀ {tr : History Sys}, (∀ e ∈ tr, e.cmd ≠ .tpmRead) → Fitting tr := fun notRead =>
    accepted_append_of_notRead (h := []) trivial notRead
  have entered : ∀ device, Fitting (entry state device) := fun device => start (by simp [entry])
  cases run with
  | absent => exact iff_of_true (start (by simp)) rfl
  | alreadyOpen r => exact iff_of_true (start (by simp [seenOpen])) rfl
  | noTpm run => exact password (entered false) run
  | tpm tried => exact tried.endsFitting (entered true) fun e member => exact e (by simp [member])
  | tpmFailed tried run =>
    have fitting := (tried.endsFitting (entered true) fun e member =>
      exact e (by simp [member])).mpr rfl
    rw [← List.append_assoc]
    exact password fitting run

/-- What holds of the keys that are tried, once the directory is there and closed. -/
structure KeysTried (state : String) (tr : History Sys) (out : Outcome Sys (Except Err Unit)) :
    Prop extends KeyRules state tr where
  seenOpen_iff : seenOpen (UnixPath.join state "c") ∈ tr ↔ out = .done (.ok ())
  unlocked : out = .done (.ok ()) → UnlockedIn (UnixPath.join state "c") tr
  three_attempts : out.isDone = true → (∀ prompt e, ⟨.readSecret prompt, .error e⟩ ∉ tr) →
    out ≠ .done (.ok ()) → tr.countP isPrompt = 3
  /-- A run that does not return has asked for no password. -/
  stopped : ¬out.isDone = true → tr.countP isPrompt = 0

/-- The protocol, for the attempts with passwords. -/
theorem PasswordRun.keysTried
    (run : PasswordRun (UnixPath.join state "c") (UnixPath.join state "initos/c.age") 3 tr out) :
    KeysTried state tr out where
  seenOpen_iff := run.seenOpen_iff
  unlocked := run.unlocked
  prompts_le := run.prompts_le
  empty_skipped _ _ _ split := run.empty_skipped split
  tpm_key before dir key r after split noPrompt := by
    obtain ⟨e, member, prompt⟩ := run.prompt_of_addKey split
    rw [noPrompt e member] at prompt
    cases prompt
  three_attempts _ read failed := run.prompts_eq read failed
  stopped notDone := by
    obtain ⟨r, rfl⟩ := run.done
    exact absurd rfl notDone

theorem TpmUnlock.countP_eq_zero {cDir : String} {verifiedBoot : Bool}
    (tried : TpmUnlock cDir verifiedBoot tr out) : tr.countP isPrompt = 0 :=
  List.countP_eq_zero.mpr fun e member => by simpa using tried.isPrompt_eq_false e member

theorem TpmUnlock.prompt_notMem {cDir : String} {verifiedBoot : Bool}
    (tried : TpmUnlock cDir verifiedBoot tr out) (prompt : String) (r : Except Err String) :
    ⟨.readSecret prompt, r⟩ ∉ tr := fun member =>
  Bool.noConfusion (tried.isPrompt_eq_false _ member)

/-- The protocol, for an attempt with the TPM that decides. -/
theorem TpmUnlock.keysTried (tried : TpmUnlock (UnixPath.join state "c") true tr out)
    (decides : out = .done (.ok ()) ∨ ∃ stop, out = .halted stop)
    (exact : ∀ e ∈ tr, ExactRead e) : KeysTried state tr out where
  seenOpen_iff := tried.seenOpen_iff exact
  unlocked ok := by
    subst ok
    exact tried.unlocked
  prompts_le := by simp [tried.countP_eq_zero]
  empty_skipped before prompt after split :=
    absurd (by simp [split]) (tried.prompt_notMem prompt (.ok ""))
  tpm_key _ _ _ _ _ split _ := tried.addKey_eq split
  three_attempts returns _ failed := by
    obtain ⟨stop, rfl⟩ := decides.resolve_left failed
    cases returns
  stopped _ := tried.countP_eq_zero

/-- After the TPM has failed, the password path is as if there were no TPM. -/
theorem KeysTried.append {tr' : History Sys} {e : Err}
    (tried : TpmUnlock (UnixPath.join state "c") true tr (.done (.error e)))
    (exact : ∀ e ∈ tr, ExactRead e) (password : KeysTried state tr' out) :
    KeysTried state (tr ++ tr') out where
  seenOpen_iff := by
    have closed : seenOpen (UnixPath.join state "c") ∉ tr := fun seen => by
      simpa using (tried.seenOpen_iff exact).mp seen
    rw [List.mem_append, or_iff_right closed]
    exact password.seenOpen_iff
  unlocked ok := (password.unlocked ok).prepend _
  prompts_le := by
    rw [List.countP_append, tried.countP_eq_zero, Nat.zero_add]
    exact password.prompts_le
  empty_skipped before prompt after split := by
    rcases append_eq_append_cons split with ⟨rest, first, -⟩ | ⟨first, -, second⟩
    · exact absurd (by simp [first]) (tried.prompt_notMem prompt (.ok ""))
    · exact password.empty_skipped first prompt after second
  tpm_key before dir key r after split noPrompt := by
    rcases append_eq_append_cons split with ⟨rest, first, -⟩ | ⟨first, rfl, second⟩
    · exact tried.addKey_eq first
    · obtain ⟨session, first', last, raw, rfl, unsealed, key_eq⟩ :=
        password.tpm_key first dir key r after second fun e member =>
          noPrompt e (List.mem_append_right _ member)
      exact ⟨session, tr ++ first', last, raw, by simp, unsealed, key_eq⟩
  three_attempts returns read failed := by
    rw [List.countP_append, tried.countP_eq_zero, Nat.zero_add]
    exact password.three_attempts returns
      (fun prompt e member => read prompt e (List.mem_append_right _ member)) failed
  stopped notDone := by
    rw [List.countP_append, tried.countP_eq_zero, Nat.zero_add]
    exact password.stopped notDone

/-- Either there is nothing to unlock, or the directory was open already, or keys are tried. -/
theorem UnlockRun.cases (run : UnlockRun state true tr out) (exact : ∀ e ∈ tr, ExactRead e) :
    (tr = [⟨.pathExists (UnixPath.join state "c"), false⟩] ∧ out = .done (.ok ())) ∨
    (tr = [⟨.pathExists (UnixPath.join state "c"), true⟩, seenOpen (UnixPath.join state "c")] ∧
      ∃ e, out = .done (.error e)) ∨
    ∃ device tr', tr = entry state device ++ tr' ∧ KeysTried state tr' out := by
  cases run with
  | absent => exact .inl ⟨rfl, rfl⟩
  | alreadyOpen r fails =>
    obtain ⟨e, rfl⟩ := fails rfl
    exact .inr (.inl ⟨rfl, e, rfl⟩)
  | noTpm run => exact .inr (.inr ⟨false, _, rfl, run.keysTried⟩)
  | tpm tried decides =>
    exact .inr (.inr ⟨true, _, rfl, tried.keysTried decides fun e member =>
      exact e (by simp [member])⟩)
  | tpmFailed tried run =>
    exact .inr (.inr ⟨true, _, rfl, run.keysTried.append tried fun e member =>
      exact e (by simp [member])⟩)

theorem entry_append_entered {device : Bool} {tr' rest : History Sys}
    (entered : Entered state (entry state device ++ tr') rest) :
    rest = ⟨.pathExists "/dev/tpmrm0", device⟩ :: tr' := by
  simpa [Entered, entry] using entered.symm

/-- A run that asks for no password and adds no key. -/
theorem unlockProtocol_of_quiet
    (quiet : ∀ e ∈ tr, isPrompt e = false ∧ ∀ dir key, e.cmd ≠ .addKey dir key)
    (notEntered : ∀ rest, ¬Entered state tr rest)
    (ok_iff : out = .done (.ok ()) ↔ tr = [⟨.pathExists (UnixPath.join state "c"), false⟩]) :
    UnlockProtocol state tr out where
  ok_iff := by
    rw [ok_iff, or_iff_left]
    rintro ⟨rest, entered, -⟩
    exact notEntered rest entered
  prompts_le := by
    rw [List.countP_eq_zero.mpr fun e member => by simpa using (quiet e member).1]
    omega
  empty_skipped before prompt after split := by
    have noPrompt := (quiet ⟨.readSecret prompt, .ok ""⟩ (by simp [split])).1
    cases noPrompt
  tpm_key before dir key r after split _ :=
    absurd rfl ((quiet ⟨.addKey dir key, r⟩ (by simp [split])).2 dir key)
  three_attempts rest entered := absurd entered (notEntered rest)

theorem countP_entry (device : Bool) (tr' : History Sys) :
    (entry state device ++ tr').countP isPrompt = tr'.countP isPrompt := by
  rw [List.countP_append, show (entry state device).countP isPrompt = 0 from rfl, Nat.zero_add]

/-- The protocol of a run in which keys are tried. -/
theorem KeysTried.protocol {device : Bool} (tried : KeysTried state tr out)
    (returns : out.isDone = true) : UnlockProtocol state (entry state device ++ tr) out where
  ok_iff := by
    constructor
    · intro ok
      exact .inr ⟨⟨.pathExists "/dev/tpmrm0", device⟩ :: tr, rfl, (tried.unlocked ok).prepend [_]⟩
    · rintro (absent | ⟨rest, entered, unlocked⟩)
      · simp [entry] at absent
      · have seen := unlocked.seenOpen_mem
        rw [entry_append_entered entered] at seen
        exact tried.seenOpen_iff.mp ((List.mem_cons.mp seen).resolve_left (by simp [seenOpen]))
  prompts_le := by
    rw [countP_entry]
    exact tried.prompts_le
  empty_skipped before prompt after split := by
    rcases append_eq_append_cons split with ⟨rest, first, -⟩ | ⟨first, -, second⟩
    · have member : (⟨.readSecret prompt, .ok ""⟩ : Event Sys) ∈ entry state device := by
        simp [first]
      simp [entry] at member
    · exact tried.empty_skipped first prompt after second
  tpm_key before dir key r after split noPrompt := by
    rcases append_eq_append_cons split with ⟨rest, first, -⟩ | ⟨first, rfl, second⟩
    · have member : (⟨.addKey dir key, r⟩ : Event Sys) ∈ entry state device := by
        simp [first]
      simp [entry] at member
    · obtain ⟨session, first', last, raw, rfl, unsealed, key_eq⟩ :=
        tried.tpm_key first dir key r after second fun e member =>
          noPrompt e (List.mem_append_right _ member)
      exact ⟨session, entry state device ++ first', last, raw, by simp, unsealed, key_eq⟩
  three_attempts rest entered read failed := by
    rw [countP_entry]
    exact tried.three_attempts returns
      (fun prompt e member => read prompt e (by simp [member])) failed

/-- A run that does not return has asked for no password, where it should have asked thrice. -/
theorem UnlockRun.not_protocol_of_stopped (run : UnlockRun state true tr out)
    (exact : ∀ e ∈ tr, ExactRead e) (stopped : ¬out.isDone = true) :
    tr.countP isPrompt = 0 ∧ ¬UnlockProtocol state tr out := by
  rcases run.cases exact with ⟨rfl, rfl⟩ | ⟨rfl, e, rfl⟩ | ⟨device, tr', rfl, tried⟩
  · exact absurd rfl stopped
  · exact absurd rfl stopped
  · have none : (entry state device ++ tr').countP isPrompt = 0 := by
      rw [countP_entry]
      exact tried.stopped stopped
    refine ⟨none, fun protocol => ?_⟩
    have three := protocol.three_attempts _ rfl
      (fun prompt e member => absurd rfl (List.countP_eq_zero.mp none _ member))
      (fun ok => stopped (by rw [ok]; rfl))
    omega

/-- In a verified boot `unlock_state_c` keeps to the protocol just in those runs in which
    every reply of the TPM holds what the code reads of it. -/
theorem unlockStateC_protocol_iff (runs : Runs (unlockStateC state true).run tr out)
    (exact : ∀ e ∈ tr, ExactRead e) : UnlockProtocol state tr out ↔ Fitting tr := by
  have run := unlockRun_of_runs runs
  have ends : Fitting tr ↔ out.isDone = true := run.endsFitting exact
  rw [ends]
  rcases run.cases exact with ⟨rfl, rfl⟩ | ⟨rfl, e, rfl⟩ | ⟨device, tr', rfl, tried⟩
  · exact iff_of_true (unlockProtocol_of_quiet (by simp [isPrompt]) (by simp [Entered])
      (by simp)) rfl
  · exact iff_of_true (unlockProtocol_of_quiet (by simp [isPrompt, seenOpen])
      (by simp [Entered, seenOpen]) (by simp)) rfl
  · refine ⟨fun protocol => ?_, fun returns => tried.protocol returns⟩
    by_contra stopped
    exact (run.not_protocol_of_stopped exact stopped).2 protocol

end

/-- A TPM with this one answer to every command, a directory `c` that a key opens, and a person
    who types `x`. -/
def sampleAnswers (answer : List UInt8) (h : History Sys) : (c : SysCmd) → c.Resp
  | .pathExists path => path != "/z/initos/c.age"
  | .isDir _ => h.any fun e => match e.cmd with
    | .addKey _ _ => true
    | _ => false
  | .addKey _ _ | .tpmOpen | .tpmWrite _ | .urandomOpen => .ok ()
  | .urandomRead len => .ok (List.replicate len 0)
  | .readSecret _ => .ok "x"
  | .tpmRead => .ok answer
  | c => c.fail (.io .other "")

/-- The unlocking of `/z/c` against such a system. -/
def sampleUnlocking (verifiedBoot : Bool) (answer : List UInt8) :
    History Sys × Outcome Sys (Except Err Unit) :=
  (unlockStateC "/z" verifiedBoot).run.exec (sampleAnswers answer) []

theorem exactRead_sample (answer : List UInt8) (verifiedBoot : Bool) :
    ∀ e ∈ (sampleUnlocking verifiedBoot answer).1, ExactRead e := by
  have keeps : ∀ h c, (fun (_ : History Sys) e => ExactRead e) h ⟨c, sampleAnswers answer h c⟩ := by
    intro h c
    cases c with
    | urandomRead len =>
      rintro bytes ⟨⟩
      simp
    | _ => trivial
  exact (admits_const _ _).mp (Prog.admits_exec keeps _ _)

/-- A session handle, an empty digest and the secret `[7]`, all read from the same bytes. -/
def wrongMark : List UInt8 := List.replicate 15 0 ++ [1, 7]

theorem sampleUnlocking_runs (verifiedBoot : Bool) (answer : List UInt8) :
    Runs (unlockStateC "/z" verifiedBoot).run (sampleUnlocking verifiedBoot answer).1
      (sampleUnlocking verifiedBoot answer).2 := Prog.runs_exec _ _ _

theorem unlockStateC_protocol_iff_wrongMark :
    UnlockProtocol "/z" (sampleUnlocking true wrongMark).1 (.done (.ok ())) := by
  have runs := sampleUnlocking_runs true wrongMark
  have returned : (sampleUnlocking true wrongMark).2 = .done (.ok ()) := by decide +kernel
  rw [returned] at runs
  have exact := exactRead_sample wrongMark true
  have fitting := ((unlockRun_of_runs runs).endsFitting exact).mpr rfl
  exact (unlockStateC_protocol_iff runs exact).mpr fitting

/-- An accepted reply without a session handle aborts the boot before any prompt. -/
theorem unlockStateC_aborts_on_short_reply :
    ∃ tr, Runs (unlockStateC "/z" true).run tr (.halted .panic) ∧ (∀ e ∈ tr, ExactRead e) ∧
      tr.countP isPrompt = 0 ∧ ¬UnlockProtocol "/z" tr (.halted .panic) := by
  have runs := sampleUnlocking_runs true (List.replicate 10 0)
  have aborted : (sampleUnlocking true (List.replicate 10 0)).2 = .halted .panic := by
    decide +kernel
  rw [aborted] at runs
  have exact := exactRead_sample (List.replicate 10 0) true
  exact ⟨_, runs, exact, (unlockRun_of_runs runs).not_protocol_of_stopped exact nofun⟩

end Initos.Boot
