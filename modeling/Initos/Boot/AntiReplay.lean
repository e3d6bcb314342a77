import Initos.Boot.UnlockProtocol

/-!
# No second release of the sealed secret

`unlock_c_with_tpm` extends PCR 7 once the TPM's key has unlocked the directory, so that the
running system cannot unseal the key again (`src/boot.rs:502-515`). The step belongs to that
one way out: a run in which the TPM has released the secret and a password has unlocked the
directory ends without it. `Cooperates` says what the surroundings have to answer for the step
to be reached and to do its work.
-/

namespace Initos.Boot

open Interact Bytes Marshal Tpm2

/-- The TPM has released the secret: it accepted an unseal command. `before` and `after` are
    what came before the command and behind the reply. -/
def ReleasedAt (tr before after : History Sys) : Prop :=
  ∃ cmd answer, tr = before ++ ⟨.tpmWrite cmd, .ok ()⟩ :: ⟨.tpmRead, .ok answer⟩ :: after ∧
    commandCode cmd = some ccUnseal ∧ responseCode answer = some 0

/-- An extend of PCR 7 was sent: the TPM has taken the command. -/
def ExtendsPcr7 (e : Event Sys) : Prop :=
  ∃ cmd, e = ⟨.tpmWrite cmd, .ok ()⟩ ∧ commandCode cmd = some ccPcrExtend ∧
    getU32 cmd 10 = some 7

/-- The TPM or the source of random bytes could not be opened. -/
def NotOpened (e : Event Sys) : Prop :=
  ∃ err, e = ⟨.tpmOpen, .error err⟩ ∨ e = ⟨.urandomOpen, .error err⟩

/-- PCR 7 was extended, or a device could not be opened for it. -/
def Effective (tr : History Sys) : Prop := ∃ e ∈ tr, ExtendsPcr7 e ∨ NotOpened e

/-- This is so after every release of the secret. -/
def AntiReplay (tr : History Sys) : Prop :=
  ∀ before after, ReleasedAt tr before after → Effective after

/-- The mark that `unseal_key` asks for (`src/boot.rs:19-31`). -/
def unsealMark (secureBoot : Bool) : List UInt8 :=
  if secureBoot then secureTpmPrefix else devTpmPrefix

/-- The bytes that `unseal` takes from an accepted reply (`src/tpm2.rs:250-251`). -/
def unsealedBytes (rsp : List UInt8) : Checked (List UInt8) :=
  (getU16 rsp 14).bind fun size => slice rsp 16 (16 + size.toNat)

/-- A released secret has the mark, and a key behind it. -/
def Marked (mark : List UInt8) (code : UInt32) (rsp : List UInt8) : Prop :=
  code = ccUnseal → ∃ key, key ≠ [] ∧ unsealedBytes rsp = some (mark ++ key)

/-- The surroundings answer so that the anti-replay step is reached and does its work. -/
structure Cooperates (cDir : String) (verifiedBoot : Bool) (tr : History Sys) : Prop where
  /-- What the TPM releases was sealed for this mode. -/
  marked : Accepted (Marked (unsealMark verifiedBoot)) tr
  /-- The kernel takes every key. -/
  added : ∀ dir key err, ⟨.addKey dir key, .error err⟩ ∉ tr
  /-- A key that was taken opens the directory. -/
  opens : ∀ before dir key after, tr ≠ before ++ ⟨.addKey dir key, .ok ()⟩ ::
    ⟨.isDir (UnixPath.join cDir "home"), false⟩ :: after
  /-- Random bytes can be read. -/
  random : ∀ len err, ⟨.urandomRead len, .error err⟩ ∉ tr
  /-- The extend can be written to the TPM. -/
  written : ∀ cmd err, commandCode cmd = some ccPcrExtend → ⟨.tpmWrite cmd, .error err⟩ ∉ tr

/-! ## The extend step -/

theorem Effective.of_subset {tr tr' : History Sys} (effective : Effective tr) (inside : tr ⊆ tr') :
    Effective tr' := by
  obtain ⟨e, member, effect⟩ := effective
  exact ⟨e, inside member, effect⟩

/-- The step does its work where random bytes can be read and the command can be written. -/
theorem ExtendRun.effective {tr : History Sys} (run : ExtendRun tr (.done (.ok ())))
    (random : ∀ err, ⟨.urandomRead 32, .error err⟩ ∉ tr)
    (written : ∀ cmd err, commandCode cmd = some ccPcrExtend → ⟨.tpmWrite cmd, .error err⟩ ∉ tr) :
    Effective tr := by
  cases run with
  | noTpm e => exact ⟨_, List.mem_cons_self, .inr ⟨e, .inl rfl⟩⟩
  | noUrandom e => exact ⟨⟨.urandomOpen, .error e⟩, by simp, .inr ⟨e, .inr rfl⟩⟩
  | notRead e => exact absurd (by simp) (random e)
  | @sent digest cmd tr r built sent =>
    obtain ⟨answer, tr', rfl⟩ := request_starts sent
    have isExtend := commandCode_fill built
    cases answer with
    | error err => exact absurd (by simp) (written cmd err isExtend)
    | ok _ =>
      exact ⟨⟨.tpmWrite cmd, .ok ()⟩, by simp, .inl ⟨cmd, rfl, isExtend, pcrExtendCmd_index built⟩⟩

/-! ## Unsealing -/

/-- The TPM has released nothing so far. -/
def Unreleased (h : History Sys) : Prop := Accepted (fun code _ => code ≠ ccUnseal) h

theorem Unreleased.not_releasedAt {tr before after : History Sys} (unreleased : Unreleased tr) :
    ¬ReleasedAt tr before after := by
  rintro ⟨cmd, answer, rfl, isUnseal, accepted⟩
  obtain ⟨-, -, reply, -⟩ := (admits_append _ _ _ _).mp unreleased
  exact reply answer cmd ccUnseal rfl (lastWritten_write _ _ _) isUnseal accepted rfl

/-- Where nothing was released, everything that was is marked. -/
theorem Unreleased.marked {h : History Sys} {mark : List UInt8} (unreleased : Unreleased h) :
    Accepted (Marked mark) h :=
  unreleased.mono fun _ _ other isUnseal => absurd isUnseal other

section

variable {α β : Type} {R : Rely Sys} {h : History Sys} {mark : List UInt8}

/-- Another command than the unsealing one releases nothing. -/
theorem request_unreleased {cmd : Checked (List UInt8)} {code : UInt32} (builds : Builds cmd code)
    (cmdName : String) (read : List UInt8 → Checked α) (other : code ≠ ccUnseal)
    (unreleased : Unreleased h) :
    Prog.wp R (fun h' _ => Unreleased h') (do
      let rsp ← request cmd cmdName
      ofChecked (read rsp) : Io α).run h := by
  rw [Fallible.wp_bind]
  apply Prog.wp_mono (request_wp builds cmdName (fun _ => by decide) unreleased)
  rintro h' _ (⟨e, rfl, unreleased⟩ | ⟨rsp, rfl, accepted⟩)
  · exact (Prog.wp_pure _ _ _ _).mpr unreleased
  · rw [Prog.andThen_done, Fallible.cont_ok]
    cases read rsp with
    | none => exact (Prog.wp_halt _ _ _ _).mpr (accepted.mpr other)
    | some a => exact (Prog.wp_pure _ _ _ _).mpr (accepted.mpr other)

/-- If every released secret is marked, then an error says that there was none, and what is
    returned is as expected. -/
def Told (mark : List UInt8) (expected : List UInt8 → Prop) (h : History Sys)
    (out : Outcome Sys (Except Err (List UInt8))) : Prop :=
  Accepted (Marked mark) h → (∀ e, out = .done (.error e) → Unreleased h) ∧
    ∀ secret, out = .done (.ok secret) → expected secret

section Told

variable {expected : List UInt8 → Prop}

/-- An error is right where nothing was released. -/
theorem told_error {e : Err} (unreleased : Accepted (Marked mark) h → Unreleased h) :
    Told mark expected h (.done (.error e)) := by
  intro marked
  refine ⟨fun _ _ => unreleased marked, fun secret returned => ?_⟩
  cases returned

/-- A returned secret is right where it is the expected one. -/
theorem told_ok {secret : List UInt8} (right : Accepted (Marked mark) h → expected secret) :
    Told mark expected h (.done (.ok secret)) := by
  intro marked
  refine ⟨fun e failed => ?_, fun secret returned => ?_⟩
  · cases failed
  · cases returned
    exact right marked

/-- An abort tells nothing. -/
theorem told_halted {stop : Stop} : Told mark expected h (.halted stop) := by
  intro _
  refine ⟨fun e failed => ?_, fun secret returned => ?_⟩
  · cases failed
  · cases returned

end Told

/-- A released secret is what `unseal` returns, with its mark. -/
theorem unsealItem_told (itemHandle session : UInt32) (unreleased : Unreleased h) :
    Prog.wp R (Told mark fun secret => ∃ key, key ≠ [] ∧ secret = mark ++ key)
      (unsealItem itemHandle session).run h := by
  simp only [unsealItem, ofChecked_bind]
  rw [Fallible.wp_bind]
  apply Prog.wp_mono (Prog.wp_and
    (request_wp (builds_unseal itemHandle session) "Unseal" (fun _ => by decide) unreleased)
    (request_wp (P := Marked mark) (builds_unseal itemHandle session) "Unseal"
      (fun _ isUnseal => absurd isUnseal (by decide)) unreleased.marked))
  rintro h' out ⟨⟨e, rfl, unreleased⟩ | ⟨rsp, rfl, -⟩, second⟩
  · exact (Prog.wp_pure _ _ _ _).mpr (told_error fun _ => unreleased)
  · obtain ⟨_, same, -⟩ | ⟨_, same, marked⟩ := second
    · cases same
    · cases same
      rw [Prog.andThen_done, Fallible.cont_ok]
      change Prog.wp R _ (ofChecked (unsealedBytes rsp)).run h'
      cases found : unsealedBytes rsp with
      | none => exact (Prog.wp_halt _ _ _ _).mpr told_halted
      | some secret =>
        refine (Prog.wp_pure _ _ _ _).mpr (told_ok fun accepted => ?_)
        obtain ⟨key, something, same⟩ := marked.mp accepted rfl
        exact ⟨key, something, Option.some_inj.mp (found.symm.trans same)⟩

variable {expected : List UInt8 → Prop}

/-- The steps before the unsealing release nothing. -/
theorem told_bind {x : Io α} {f : α → Io (List UInt8)}
    (first : Prog.wp R (fun h' _ => Unreleased h') x.run h)
    (rest : ∀ h' a, Unreleased h' → Prog.wp R (Told mark expected) (f a).run h') :
    Prog.wp R (Told mark expected) (x >>= f).run h := by
  rw [Fallible.wp_bind]
  apply Prog.wp_mono first
  intro h' out unreleased
  rcases out with (e | a) | stop
  · exact (Prog.wp_pure _ _ _ _).mpr (told_error fun _ => unreleased)
  · exact rest h' a unreleased
  · exact told_halted

/-- Opening the TPM releases nothing. -/
theorem openDevice_unreleased (unreleased : Unreleased h) :
    Prog.wp R (fun h' _ => Unreleased h') openDevice.run h := by
  rw [openDevice, Fallible.wp_attempt_call_bind]
  intro opened _
  have unreleased : Unreleased (h ++ [⟨.tpmOpen, opened⟩]) :=
    (accepted_append _ _ _).mpr ⟨unreleased, trivial⟩
  cases opened with
  | ok _ => exact (Prog.wp_pure _ _ _ _).mpr unreleased
  | error e => exact (Prog.wp_pure _ _ _ _).mpr unreleased

/-- The key behind the mark is returned wherever it was released. -/
theorem unsealKeyFromHandle_told (handle : UInt32) (mode : String) (unreleased : Unreleased h) :
    Prog.wp R (Told mark (· ≠ [])) (unsealKeyFromHandle handle mark mode).run h := by
  refine told_bind (openDevice_unreleased unreleased) fun h _ unreleased => ?_
  refine told_bind (request_unreleased (builds_startAuthSession sePolicy) _ (getU32 · 10)
    (by decide) unreleased) fun h session unreleased => ?_
  refine told_bind (request_unreleased (builds_policyPcr session) _ (fun _ => some ())
    (by decide) unreleased) fun h _ unreleased => ?_
  have digest : Prog.wp R (fun h' _ => Unreleased h') (policyGetDigest session).run h := by
    simp only [policyGetDigest, ofChecked_bind]
    exact request_unreleased (builds_policyGetDigest session) _ _ (by decide) unreleased
  refine told_bind digest fun h _ unreleased => ?_
  rw [Fallible.wp_bind]
  apply Prog.wp_mono (unsealItem_told handle session unreleased)
  intro h' out told
  rcases out with (e | secret) | stop
  · exact (Prog.wp_pure _ _ _ _).mpr (told_error fun marked => (told marked).1 e rfl)
  · rw [Prog.andThen_done, Fallible.cont_ok]
    cases stripped : stripTpmPrefix secret mark mode with
    | error e =>
      refine (Prog.wp_pure _ _ _ _).mpr (told_error fun marked => ?_)
      obtain ⟨key, -, rfl⟩ := (told marked).2 secret rfl
      simp [stripTpmPrefix] at stripped
    | ok key =>
      refine (Prog.wp_pure _ _ _ _).mpr (told_ok fun marked => ?_)
      obtain ⟨key', something, same⟩ := (told marked).2 secret rfl
      rw [stripTpmPrefix_eq_ok stripped] at same
      rwa [List.append_cancel_left same]
  · exact told_halted

end

theorem unsealKey_told {verifiedBoot : Bool} {h tr : History Sys}
    {out : Outcome Sys (Except Err (List UInt8))} (unreleased : Unreleased h)
    (runs : Runs (unsealKey verifiedBoot).run tr out) :
    Told (unsealMark verifiedBoot) (· ≠ []) (h ++ tr) out := by
  cases verifiedBoot with
  | true =>
    exact (Prog.wp_iff_runs (fun _ _ => True) _ _ _).mp
      (unsealKeyFromHandle_told _ "secure" unreleased) tr out runs
      ((admits_const _ _).mpr fun _ _ => trivial)
  | false =>
    exact (Prog.wp_iff_runs (fun _ _ => True) _ _ _).mp
      (unsealKeyFromHandle_told _ "dev" unreleased) tr out runs
      ((admits_const _ _).mpr fun _ _ => trivial)

/-- Where the surroundings cooperate, the TPM's key fails only if nothing was released. -/
theorem TpmUnlock.unreleased {cDir : String} {verifiedBoot : Bool} {h tr rest : History Sys}
    {e : Err} (tried : TpmUnlock cDir verifiedBoot tr (.done (.error e)))
    (unreleased : Unreleased h) (cooperates : Cooperates cDir verifiedBoot (h ++ (tr ++ rest))) :
    Unreleased (h ++ tr) := by
  obtain ⟨marked, added, opens, -, -⟩ := cooperates
  cases tried with
  | notUnsealed runs =>
    rw [← List.append_assoc] at marked
    exact (unsealKey_told unreleased runs marked.of_append).1 e rfl
  | @unsealed first second rawKey _ runs tried =>
    cases tried with
    | refused _ empty =>
      rw [List.append_nil, ← List.append_assoc] at marked
      exact absurd empty ((unsealKey_told unreleased runs marked.of_append).2 rawKey rfl)
    | notAdded => exact absurd (by simp) (added cDir (repeatKey rawKey) e)
    | closed => exact absurd (by simp) (opens (h ++ first) cDir (repeatKey rawKey) rest)
    | opened runs =>
      -- the step never returns an error
      have run := extendRun_of_runs runs
      cases run

/-! ## Where the release is -/

/-- A release lies in the unsealing, behind the opening of the device. -/
theorem released_in_unsealing {h unsealing rest before after : History Sys}
    {opened : Except Err Unit} (noWrite : ∀ cmd r, ⟨.tpmWrite cmd, r⟩ ∉ h)
    (noUnseal : ∀ cmd r, ⟨.tpmWrite cmd, r⟩ ∈ rest → commandCode cmd ≠ some ccUnseal)
    (noReply : ∀ r rest', rest ≠ ⟨.tpmRead, r⟩ :: rest')
    (released : ReleasedAt (h ++ (⟨.tpmOpen, opened⟩ :: unsealing ++ rest)) before after) :
    ∃ unsealing', (∀ e ∈ unsealing', e ∈ unsealing) ∧ after = unsealing' ++ rest := by
  obtain ⟨cmd, answer, split, isUnseal, -⟩ := released
  rcases append_eq_append_cons split with ⟨_, inside, -⟩ | ⟨first, -, split⟩
  · exact absurd (by simp [inside]) (noWrite cmd (.ok ()))
  rcases List.cons_eq_append_iff.mp split with ⟨-, same⟩ | ⟨first', -, split⟩
  · cases same
  rcases append_eq_append_cons split with ⟨rest', inside, split⟩ | ⟨_, -, inside⟩
  · rcases List.cons_eq_append_iff.mp split with ⟨-, starts⟩ | ⟨unsealing', rfl, after_eq⟩
    · exact absurd starts (noReply _ _)
    · exact ⟨unsealing', fun e member => by simp [inside, member], after_eq⟩
  · exact absurd isUnseal (noUnseal cmd (.ok ()) (by simp [inside]))

/-- The commands that try a key. -/
def TriedCmd : SysCmd → Prop
  | .addKey _ _ | .isDir _ => True
  | _ => False

theorem entry_noWrite (state : String) (device : Bool) (cmd : List UInt8) (r : Except Err Unit) :
    ⟨.tpmWrite cmd, r⟩ ∉ entry state device := by
  simp [entry]

section

variable {cDir : String} {verifiedBoot : Bool} {tr : History Sys}

/-- Where the TPM's key unlocks the directory, the step follows the unsealing. -/
theorem TpmUnlock.ok_shape (tried : TpmUnlock cDir verifiedBoot tr (.done (.ok ()))) :
    ∃ opened unsealing key tr', tr = ⟨.tpmOpen, opened⟩ :: unsealing ++ (key ++ tr') ∧
      (∀ e ∈ unsealing, DeviceCmd unsealCodes e.cmd) ∧ (∀ e ∈ key, TriedCmd e.cmd) ∧
      ExtendRun tr' (.done (.ok ())) := by
  cases tried with
  | @unsealed _ _ rawKey _ runs tried =>
    obtain ⟨opened, unsealing, rfl, cmds⟩ := unsealKey_shape runs
    cases tried with
    | opened runs =>
      exact ⟨opened, unsealing, [⟨.addKey cDir (repeatKey rawKey), .ok ()⟩, seenOpen cDir], _, rfl,
        cmds, by simp [TriedCmd, seenOpen], extendRun_of_runs runs⟩

end

/-- The extend step sends no unsealing. -/
theorem ExtendRun.noUnseal {tr : History Sys} {out : Outcome Sys (Except Err Unit)}
    (run : ExtendRun tr out) {cmd : List UInt8} {r : Except Err Unit}
    (member : ⟨.tpmWrite cmd, r⟩ ∈ tr) : commandCode cmd ≠ some ccUnseal := by
  intro isUnseal
  obtain ⟨code, listed, isCode⟩ := run.cmds _ member
  rw [isUnseal, Option.some.injEq] at isCode
  subst isCode
  revert listed
  decide

theorem ExtendRun.noReply {tr : History Sys} {out : Outcome Sys (Except Err Unit)}
    (run : ExtendRun tr out) (r : Except Err (List UInt8)) (rest : History Sys) :
    tr ≠ ⟨.tpmRead, r⟩ :: rest := by
  cases run <;> simp

/-- The TPM's key has unlocked the directory: the step follows every release. -/
theorem antiReplay_tpm {state : String} {verifiedBoot : Bool} {tr : History Sys}
    (tried : TpmUnlock (UnixPath.join state "c") verifiedBoot tr (.done (.ok ())))
    (random : ∀ err, ⟨.urandomRead 32, .error err⟩ ∉ tr)
    (written : ∀ cmd err, commandCode cmd = some ccPcrExtend → ⟨.tpmWrite cmd, .error err⟩ ∉ tr) :
    AntiReplay (entry state true ++ tr) := by
  obtain ⟨opened, unsealing, key, tr', rfl, cmds, tried, run⟩ := tried.ok_shape
  intro before after released
  have noUnseal : ∀ cmd r, ⟨.tpmWrite cmd, r⟩ ∈ key ++ tr' → commandCode cmd ≠ some ccUnseal := by
    intro cmd r member
    rcases List.mem_append.mp member with member | member
    · exact (tried _ member).elim
    · exact run.noUnseal member
  have noReply : ∀ r rest, key ++ tr' ≠ ⟨.tpmRead, r⟩ :: rest := by
    intro r rest starts
    rcases List.append_eq_cons_iff.mp starts with ⟨-, starts⟩ | ⟨key', rfl, -⟩
    · exact run.noReply r rest starts
    · exact tried ⟨.tpmRead, r⟩ List.mem_cons_self
  obtain ⟨unsealing', -, rfl⟩ :=
    released_in_unsealing (entry_noWrite state true) noUnseal noReply released
  have effective : Effective tr' := run.effective (fun err member => random err (by simp [member]))
    fun cmd err isExtend member => written cmd err isExtend (by simp [member])
  exact effective.of_subset fun e member => by simp [member]

theorem unreleased_of_noWrite {tr : History Sys} (noWrite : ∀ cmd r, ⟨.tpmWrite cmd, r⟩ ∉ tr)
    {before after : History Sys} : ¬ReleasedAt tr before after := by
  rintro ⟨cmd, answer, rfl, -⟩
  exact noWrite cmd (.ok ()) (by simp)

/-- In a run that succeeds and in which the surroundings cooperate, every release of the secret is
    followed by an extend of PCR 7, where the devices can be opened. -/
theorem unlockStateC_antiReplay {state : String} {verifiedBoot : Bool} {tr : History Sys}
    (runs : Runs (unlockStateC state verifiedBoot).run tr (.done (.ok ())))
    (cooperates : Cooperates (UnixPath.join state "c") verifiedBoot tr) : AntiReplay tr := by
  have run := unlockRun_of_runs runs
  generalize outcome : (.done (.ok ()) : Outcome Sys (Except Err Unit)) = out at run
  cases run with
  | absent => exact fun _ _ released => (unreleased_of_noWrite (by simp) released).elim
  | alreadyOpen =>
    exact fun _ _ released => (unreleased_of_noWrite (by simp [seenOpen]) released).elim
  | noTpm run =>
    refine fun _ _ released => (unreleased_of_noWrite (fun cmd r member => ?_) released).elim
    rcases List.mem_append.mp member with member | member
    · exact entry_noWrite _ _ _ _ member
    · exact run.cmds _ member
  | tpm tried =>
    subst outcome
    refine antiReplay_tpm tried (fun err member => ?_) fun cmd err isExtend member => ?_
    · exact cooperates.random 32 err (List.mem_append_right _ member)
    · exact cooperates.written cmd err isExtend (List.mem_append_right _ member)
  | tpmFailed tried run =>
    -- nothing was released, and the passwords have no part in it
    have entered : Unreleased (entry state true) :=
      accepted_append_of_notRead (h := []) trivial (by simp)
    have unreleased := accepted_append_of_notRead (tried.unreleased entered cooperates)
      fun e member isRead => by simpa [isRead, PasswordCmd] using run.cmds e member
    rw [List.append_assoc] at unreleased
    exact fun _ _ released => (Unreleased.not_releasedAt unreleased released).elim

/-- As `wrongMark`, with a secret that carries the mark of a verified boot. -/
def rightMark : List UInt8 := List.replicate 15 0 ++ [6] ++ secureTpmPrefix ++ [7]

/-- The fourth command of the sample runs unseals the secret. -/
theorem released_sample (answer : List UInt8) (tr : History Sys)
    (tr_eq : tr = tr.take 10 ++
      ⟨.tpmWrite ((unsealCmd defaultSealedHandleSecure 0).getD []), .ok ()⟩ ::
      ⟨.tpmRead, .ok answer⟩ :: tr.drop 12) (accepted : responseCode answer = some 0) :
    ReleasedAt tr (tr.take 10) (tr.drop 12) := by
  obtain ⟨cmd, built, isUnseal⟩ := builds_unseal defaultSealedHandleSecure 0
  rw [built] at tr_eq
  exact ⟨cmd, answer, tr_eq, isUnseal, accepted⟩

/-- Every answer of a sample run is the one of the system. -/
theorem answered_sample {verifiedBoot : Bool} {answer : List UInt8} {before after : History Sys}
    {e : Event Sys} (split : (sampleUnlocking verifiedBoot answer).1 = before ++ e :: after) :
    e.resp = sampleAnswers answer before e.cmd := by
  have all : Admits (fun h e => e.resp = sampleAnswers answer h e.cmd) []
      (sampleUnlocking verifiedBoot answer).1 := Prog.admits_exec (fun _ _ => rfl) _ _
  rw [split] at all
  exact ((admits_append _ _ _ _).mp all).2.1

theorem cooperates_rightMark :
    Cooperates (UnixPath.join "/z" "c") true (sampleUnlocking true rightMark).1 where
  marked := by
    refine Prog.admits_exec (fun h c => ?_) _ _
    cases c with
    | tpmRead =>
      intro answer cmd code read _ _ _ _
      cases read
      exact ⟨[7], by simp, by decide +kernel⟩
    | _ => trivial
  added dir key err member := by
    obtain ⟨before, after, split⟩ := List.append_of_mem member
    cases answered_sample split
  opens before dir key after split := by
    have closed := answered_sample (split.trans (List.append_cons ..))
    simp [sampleAnswers] at closed
  random len err member := by
    obtain ⟨before, after, split⟩ := List.append_of_mem member
    cases answered_sample split
  written cmd err _ member := by
    obtain ⟨before, after, split⟩ := List.append_of_mem member
    cases answered_sample split

/-- The secret has the mark, its key opens the directory, and PCR 7 is extended. -/
theorem unlockStateC_antiReplay_rightMark : ∃ before after,
    ReleasedAt (sampleUnlocking true rightMark).1 before after ∧ Effective after := by
  have runs := sampleUnlocking_runs true rightMark
  have returned : (sampleUnlocking true rightMark).2 = .done (.ok ()) := by decide +kernel
  rw [returned] at runs
  have released := released_sample rightMark (sampleUnlocking true rightMark).1
    (by decide +kernel) (by decide +kernel)
  exact ⟨_, _, released, unlockStateC_antiReplay runs cooperates_rightMark _ _ released⟩

/-- The TPM releases a secret with another mark, and a password unlocks the directory: PCR 7 is
    as it was. -/
theorem unlockStateC_replayable_after_password :
    ∃ tr before after, Runs (unlockStateC "/z" true).run tr (.done (.ok ())) ∧
      ReleasedAt tr before after ∧ ¬AntiReplay tr := by
  have runs := sampleUnlocking_runs true wrongMark
  have returned : (sampleUnlocking true wrongMark).2 = .done (.ok ()) := by decide +kernel
  rw [returned] at runs
  have released := released_sample wrongMark (sampleUnlocking true wrongMark).1
    (by decide +kernel) (by decide +kernel)
  refine ⟨_, _, _, runs, released, fun antiReplay => ?_⟩
  have effective := antiReplay _ _ released
  have typed : (sampleUnlocking true wrongMark).1.drop 12 =
      [⟨.pathExists "/z/initos/c.age", false⟩, ⟨.readSecret "Enter crypt password: ", .ok "x"⟩,
        ⟨.pathExists "/z/initos/c.age", false⟩,
        ⟨.addKey "/z/c" (repeatKey (passwordBytes "x")), .ok ()⟩, ⟨.isDir "/z/c/home", true⟩] := by
    decide +kernel
  rw [typed] at effective
  obtain ⟨e, member, ⟨cmd, rfl, -⟩ | ⟨err, rfl | rfl⟩⟩ := effective
  · simp at member
  · simp at member
  · simp at member

end Initos.Boot
