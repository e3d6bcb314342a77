import Initos.Boot.Unlock

/-!
# The runs of `unlock_state_c`

What the system can see of an unlocking, case by case: `UnlockRun` has one constructor for
each way through `unlock_state_c`, `PasswordRun` one for each way an attempt at the prompt can
end, and `KeyTried` one for each end of adding a key. Every run of the program is of this
shape, and the properties of runs are proved from the shapes.
-/

namespace Initos.Boot

open Interact

/-- In this history a key was added to `cDir`, and `cDir` was open after that. -/
def UnlockedIn (cDir : String) (h : History Sys) : Prop :=
  ∃ before key after, h = before ++ ⟨.addKey cDir key, Except.ok ()⟩ :: after ∧
    ⟨.isDir (UnixPath.join cDir "home"), true⟩ ∈ after

theorem UnlockedIn.prepend {cDir : String} {h : History Sys} (unlocked : UnlockedIn cDir h)
    (tr : History Sys) : UnlockedIn cDir (tr ++ h) := by
  obtain ⟨before, key, after, rfl, home⟩ := unlocked
  exact ⟨tr ++ before, key, after, by simp, home⟩

/-- The check for an open directory was passed. -/
def seenOpen (cDir : String) : Event Sys := ⟨.isDir (UnixPath.join cDir "home"), true⟩

theorem UnlockedIn.seenOpen_mem {cDir : String} {h : History Sys} (unlocked : UnlockedIn cDir h) :
    seenOpen cDir ∈ h := by
  obtain ⟨before, key, after, rfl, home⟩ := unlocked
  exact List.mem_append_right _ (List.mem_cons_of_mem _ home)

/-! ## Adding a key -/

/-- Both ways to unlock end with the same steps: add the key, look for `home`, and where it
    is there go on with `rest`. -/
inductive KeyTried (cDir : String) (rawKey : List UInt8) (rest : Io Unit) :
    History Sys → Outcome Sys (Except Err Unit) → Prop where
  /-- An empty key. -/
  | refused (e : Err) : rawKey = [] → KeyTried cDir rawKey rest [] (.done (.error e))
  | notAdded (e : Err) : KeyTried cDir rawKey rest
      [⟨.addKey cDir (repeatKey rawKey), .error e⟩] (.done (.error e))
  | closed (e : Err) : KeyTried cDir rawKey rest
      [⟨.addKey cDir (repeatKey rawKey), .ok ()⟩, ⟨.isDir (UnixPath.join cDir "home"), false⟩]
      (.done (.error e))
  | opened {tr : History Sys} {out : Outcome Sys (Except Err Unit)} : Runs rest.run tr out →
      KeyTried cDir rawKey rest
        (⟨.addKey cDir (repeatKey rawKey), .ok ()⟩ :: seenOpen cDir :: tr) out

/-- The runs of adding a key and looking whether it opened the directory. -/
theorem keyTried_of_runs {cDir : String} {rawKey : List UInt8} {e : Err} {rest : Io Unit}
    {tr : History Sys} {out : Outcome Sys (Except Err Unit)}
    (runs : Runs (do
      addFscryptKey cDir rawKey
      if !(← cIsUnlocked cDir) then throw e else rest : Io Unit).run tr out) :
    KeyTried cDir rawKey rest tr out := by
  unfold addFscryptKey at runs
  split at runs
  · next empty =>
    obtain ⟨rfl, rfl⟩ := Fallible.runs_pure_iff.mp runs
    exact .refused _ empty
  · obtain ⟨added, tr', rfl, afterAdd⟩ := Fallible.runs_call_bind.mp runs
    cases added with
    | error e' =>
      obtain ⟨rfl, rfl⟩ := Fallible.runs_pure_iff.mp afterAdd
      exact .notAdded e'
    | ok _ =>
      obtain ⟨home, tr', rfl, afterLook⟩ := Fallible.runs_ask_bind.mp afterAdd
      cases home with
      | false =>
        obtain ⟨rfl, rfl⟩ := Fallible.runs_pure_iff.mp afterLook
        exact .closed e
      | true => exact .opened afterLook

section

variable {cDir : String} {rawKey : List UInt8} {rest : Io Unit} {tr : History Sys}
  {out : Outcome Sys (Except Err Unit)}

/-- The only key that is added is the one that is tried, and it is added first. -/
theorem KeyTried.addKey_eq (tried : KeyTried cDir rawKey rest tr out)
    (rest_adds : ∀ tr' out', Runs rest.run tr' out' → ∀ dir key r, ⟨.addKey dir key, r⟩ ∉ tr')
    {before after : History Sys} {dir : String} {key : List UInt8} {r : Except Err Unit}
    (split : tr = before ++ ⟨.addKey dir key, r⟩ :: after) :
    before = [] ∧ key = repeatKey rawKey := by
  have first : ∀ {answer : Except Err Unit} {tail : History Sys},
      (∀ dir key r, ⟨.addKey dir key, r⟩ ∉ tail) →
      ⟨.addKey cDir (repeatKey rawKey), answer⟩ :: tail = before ++ ⟨.addKey dir key, r⟩ :: after →
      before = [] ∧ key = repeatKey rawKey := by
    intro answer tail adds split
    rcases List.cons_eq_append_iff.mp split with ⟨rfl, same⟩ | ⟨before', rfl, tail_eq⟩
    · cases same
      exact ⟨rfl, rfl⟩
    · subst tail_eq
      exact absurd (by simp) (adds dir key r)
  cases tried with
  | refused e => simp at split
  | notAdded e => exact first (by simp) split
  | closed e => exact first (by simp) split
  | opened runs =>
    refine first (fun dir key r member => ?_) split
    rcases List.mem_cons.mp member with same | member
    · cases same
    · exact rest_adds _ _ runs dir key r member

/-- A key that was taken has opened the directory. -/
theorem KeyTried.unlocked (tried : KeyTried cDir rawKey rest tr (.done (.ok ()))) :
    UnlockedIn cDir tr := by
  cases tried with
  | opened => exact ⟨[], _, _, rfl, List.mem_cons_self⟩

/-- Where the rest cannot fail, the key was right just when the directory was seen open. -/
theorem KeyTried.seenOpen_iff (tried : KeyTried cDir rawKey rest tr out)
    (rest_ok : ∀ tr', tr' ⊆ tr → Runs rest.run tr' out → out = .done (.ok ())) :
    seenOpen cDir ∈ tr ↔ out = .done (.ok ()) := by
  cases tried with
  | refused | notAdded | closed => simp [seenOpen]
  | opened runs =>
    refine iff_of_true (by simp) (rest_ok _ ?_ runs)
    exact fun e member => List.mem_cons_of_mem _ (List.mem_cons_of_mem _ member)

end

/-! ## The TPM -/

/-- A run of `unlock_c_with_tpm`. -/
inductive TpmUnlock (cDir : String) (verifiedBoot : Bool) :
    History Sys → Outcome Sys (Except Err Unit) → Prop where
  | notUnsealed {tr : History Sys} {e : Err} :
      Runs (unsealKey verifiedBoot).run tr (.done (.error e)) →
      TpmUnlock cDir verifiedBoot tr (.done (.error e))
  | stopped {tr : History Sys} {stop : Stop} :
      Runs (unsealKey verifiedBoot).run tr (.halted stop) →
      TpmUnlock cDir verifiedBoot tr (.halted stop)
  | unsealed {tr tr' : History Sys} {rawKey : List UInt8} {out : Outcome Sys (Except Err Unit)} :
      Runs (unsealKey verifiedBoot).run tr (.done (.ok rawKey)) →
      KeyTried cDir rawKey extendPcr7 tr' out → TpmUnlock cDir verifiedBoot (tr ++ tr') out

/-- The runs of `unlock_c_with_tpm`. -/
theorem tpmUnlock_of_runs {cDir : String} {verifiedBoot : Bool} {tr : History Sys}
    {out : Outcome Sys (Except Err Unit)}
    (runs : Runs (unlockCWithTpm cDir verifiedBoot).run tr out) :
    TpmUnlock cDir verifiedBoot tr out := by
  rcases runs_fallible_bind.mp runs with ⟨rawKey, tr₁, tr₂, rfl, unsealed, rest⟩ |
    ⟨e, rfl, unsealed⟩ | ⟨stop, rfl, unsealed⟩
  · exact .unsealed unsealed (keyTried_of_runs rest)
  · exact .notUnsealed unsealed
  · exact .stopped unsealed

/-! ## Passwords -/

/-- A password prompt. -/
def isPrompt (e : Event Sys) : Bool :=
  match e.cmd with
  | .readSecret _ => true
  | _ => false

/-- The commands that find the key of a password. -/
def KeyCmd (cAge : String) : SysCmd → Prop
  | .pathExists path => path = cAge
  | .readFile path => path = cAge
  | .ageDecrypt _ _ => True
  | _ => False

/-- A run of one attempt with a password. -/
inductive PasswordTried (cDir cAge : String) :
    History Sys → Outcome Sys (Except Err Unit) → Prop where
  | noKey {tr : History Sys} (e : Err) : (∀ e ∈ tr, KeyCmd cAge e.cmd) →
      PasswordTried cDir cAge tr (.done (.error e))
  | key {tr tr' : History Sys} {rawKey : List UInt8} {out : Outcome Sys (Except Err Unit)} :
      (∀ e ∈ tr, KeyCmd cAge e.cmd) → KeyTried cDir rawKey (pure ()) tr' out →
      PasswordTried cDir cAge (tr ++ tr') out

/-- The age file is read and decrypted, and nothing else. -/
theorem decryptAgeWithKeyFile_shape {cAge : String} {keyMaterial : List UInt8} {tr : History Sys}
    {out : Outcome Sys (Except Err (List UInt8))}
    (runs : Runs (decryptAgeWithKeyFile cAge keyMaterial).run tr out) :
    (∀ e ∈ tr, KeyCmd cAge e.cmd) ∧ ∃ r, out = .done r := by
  obtain ⟨cipher, tr', rfl, afterRead⟩ := Fallible.runs_call_bind.mp runs
  cases cipher with
  | error e =>
    obtain ⟨rfl, rfl⟩ := Fallible.runs_pure_iff.mp afterRead
    exact ⟨by simp [KeyCmd], _, rfl⟩
  | ok cipher =>
    rw [Fallible.cont_ok, decryptAgeWithKey] at afterRead
    split at afterRead
    · obtain ⟨rfl, rfl⟩ := Fallible.runs_pure_iff.mp afterRead
      exact ⟨by simp [KeyCmd], _, rfl⟩
    · cases afterRead with
      | call r returned =>
        obtain ⟨rfl, rfl⟩ := Fallible.runs_pure_iff.mp returned
        exact ⟨by simp [KeyCmd], _, rfl⟩

/-- The runs of one attempt with a password. -/
theorem passwordTried_of_runs {cDir cAge pass : String} {tr : History Sys}
    {out : Outcome Sys (Except Err Unit)} (runs : Runs (tryPassword cDir cAge pass).run tr out) :
    PasswordTried cDir cAge tr out := by
  obtain ⟨there, tr', rfl, afterLook⟩ := Fallible.runs_ask_bind.mp runs
  have looked : KeyCmd cAge (.pathExists cAge) := rfl
  cases there with
  | false =>
    change PasswordTried cDir cAge ([⟨.pathExists cAge, false⟩] ++ tr') out
    exact .key (by simpa using looked) (keyTried_of_runs afterLook)
  | true =>
    rcases runs_fallible_bind.mp afterLook with ⟨rawKey, tr₁, tr₂, rfl, decrypted, rest⟩ |
      ⟨e, rfl, decrypted⟩ | ⟨stop, rfl, decrypted⟩
    · change PasswordTried cDir cAge (⟨.pathExists cAge, true⟩ :: tr₁ ++ tr₂) out
      refine .key ?_ (keyTried_of_runs rest)
      exact List.forall_mem_cons.mpr ⟨looked, (decryptAgeWithKeyFile_shape decrypted).1⟩
    · exact .noKey e (List.forall_mem_cons.mpr ⟨looked, (decryptAgeWithKeyFile_shape decrypted).1⟩)
    · obtain ⟨-, r, done⟩ := decryptAgeWithKeyFile_shape decrypted
      cases done

section

variable {cDir cAge : String} {tr : History Sys} {out : Outcome Sys (Except Err Unit)}

theorem PasswordTried.done (tried : PasswordTried cDir cAge tr out) : ∃ r, out = .done r := by
  cases tried with
  | noKey e => exact ⟨_, rfl⟩
  | key _ tried =>
    cases tried with
    | refused | notAdded | closed => exact ⟨_, rfl⟩
    | opened runs => exact ⟨_, (Fallible.runs_pure_iff.mp runs).2⟩

/-- It succeeds exactly if the directory was seen open. -/
theorem PasswordTried.seenOpen_iff (tried : PasswordTried cDir cAge tr out) :
    seenOpen cDir ∈ tr ↔ out = .done (.ok ()) := by
  have notSeen : ∀ {tr : History Sys}, (∀ e ∈ tr, KeyCmd cAge e.cmd) → seenOpen cDir ∉ tr :=
    fun finds seen => finds _ seen
  cases tried with
  | noKey e finds => simp [notSeen finds]
  | key finds tried =>
    rw [List.mem_append, or_iff_right (notSeen finds)]
    exact tried.seenOpen_iff fun _ _ runs => (Fallible.runs_pure_iff.mp runs).2

theorem PasswordTried.unlocked (tried : PasswordTried cDir cAge tr (.done (.ok ()))) :
    UnlockedIn cDir tr := by
  cases tried with
  | key _ tried => exact tried.unlocked.prepend _

theorem PasswordTried.isPrompt_eq_false (tried : PasswordTried cDir cAge tr out) :
    ∀ e ∈ tr, isPrompt e = false := by
  have finds_no : ∀ {tr : History Sys}, (∀ e ∈ tr, KeyCmd cAge e.cmd) →
      ∀ e ∈ tr, isPrompt e = false := by
    rintro tr finds ⟨c, r⟩ member
    have isKeyCmd := finds _ member
    cases c <;> first | rfl | exact isKeyCmd.elim
  cases tried with
  | noKey e finds => exact finds_no finds
  | key finds tried =>
    rw [List.forall_mem_append]
    refine ⟨finds_no finds, ?_⟩
    cases tried with
    | refused | notAdded | closed => simp [isPrompt]
    | opened runs =>
      obtain ⟨rfl, -⟩ := Fallible.runs_pure_iff.mp runs
      simp [isPrompt, seenOpen]

end

/-- A run of the attempts that are left. -/
inductive PasswordRun (cDir cAge : String) :
    Nat → History Sys → Outcome Sys (Except Err Unit) → Prop where
  | exhausted (e : Err) : PasswordRun cDir cAge 0 [] (.done (.error e))
  | notRead {left : Nat} {there : Bool} {prompt : String} (e : Err) :
      PasswordRun cDir cAge (left + 1)
        [⟨.pathExists cAge, there⟩, ⟨.readSecret prompt, .error e⟩] (.done (.error e))
  | empty {left : Nat} {there : Bool} {prompt : String} {tr : History Sys}
      {out : Outcome Sys (Except Err Unit)} : PasswordRun cDir cAge left tr out →
      PasswordRun cDir cAge (left + 1)
        (⟨.pathExists cAge, there⟩ :: ⟨.readSecret prompt, .ok ""⟩ :: tr) out
  /-- The attempt decides: it unlocks, or it is the last one. -/
  | last {left : Nat} {there : Bool} {prompt pass : String} {tr : History Sys}
      {out : Outcome Sys (Except Err Unit)} : pass ≠ "" → PasswordTried cDir cAge tr out →
      (out = .done (.ok ()) ∨ left = 0) →
      PasswordRun cDir cAge (left + 1)
        (⟨.pathExists cAge, there⟩ :: ⟨.readSecret prompt, .ok pass⟩ :: tr) out
  | again {left : Nat} {there : Bool} {prompt pass : String} {tr tr' : History Sys} {e : Err}
      {out : Outcome Sys (Except Err Unit)} : pass ≠ "" →
      PasswordTried cDir cAge tr (.done (.error e)) → PasswordRun cDir cAge left tr' out →
      PasswordRun cDir cAge (left + 1)
        (⟨.pathExists cAge, there⟩ :: ⟨.readSecret prompt, .ok pass⟩ :: (tr ++ tr')) out

/-- The runs of the loop over the attempts. -/
theorem passwordRun_of_runs {cDir cAge : String} {left : Nat} {tr : History Sys}
    {out : Outcome Sys (Except Err Unit)}
    (runs : Runs (passwordAttempts cDir cAge left).run tr out) :
    PasswordRun cDir cAge left tr out := by
  induction left generalizing tr with
  | zero =>
    obtain ⟨rfl, rfl⟩ := Fallible.runs_pure_iff.mp runs
    exact .exhausted _
  | succ left ih =>
    rw [passwordAttempts] at runs
    obtain ⟨there, tr, rfl, afterLook⟩ := Fallible.runs_ask_bind.mp runs
    obtain ⟨pass, tr, rfl, afterPrompt⟩ := Fallible.runs_call_bind.mp afterLook
    cases pass with
    | error e =>
      obtain ⟨rfl, rfl⟩ := Fallible.runs_pure_iff.mp afterPrompt
      exact .notRead e
    | ok pass =>
      rw [Fallible.cont_ok] at afterPrompt
      split at afterPrompt
      next isEmpty =>
        subst isEmpty
        exact .empty (ih afterPrompt)
      next nonempty =>
        rcases Fallible.runs_attempt_bind.mp afterPrompt with ⟨r, tr₁, tr₂, rfl, tried, rest⟩ |
          ⟨stop, rfl, tried⟩
        · have tried := passwordTried_of_runs tried
          cases r with
          | ok =>
            obtain ⟨rfl, rfl⟩ := Fallible.runs_pure_iff.mp rest
            rw [List.append_nil]
            exact .last nonempty tried (.inl rfl)
          | error e =>
            dsimp only at rest
            split at rest
            · exact .again nonempty tried (ih rest)
            next none_left =>
              obtain ⟨rfl, rfl⟩ := Fallible.runs_pure_iff.mp rest
              rw [List.append_nil]
              exact .last nonempty tried (.inr (by omega))
        · obtain ⟨r, done⟩ := (passwordTried_of_runs tried).done
          cases done

section

variable {cDir cAge : String} {left : Nat} {tr : History Sys} {out : Outcome Sys (Except Err Unit)}

theorem PasswordRun.done (run : PasswordRun cDir cAge left tr out) : ∃ r, out = .done r := by
  induction run with
  | exhausted | notRead => exact ⟨_, rfl⟩
  | empty _ ih => exact ih
  | last _ tried => exact tried.done
  | again _ _ _ ih => exact ih

/-- The loop succeeds exactly if the directory was seen open. -/
theorem PasswordRun.seenOpen_iff (run : PasswordRun cDir cAge left tr out) :
    seenOpen cDir ∈ tr ↔ out = .done (.ok ()) := by
  induction run with
  | exhausted | notRead => simp [seenOpen]
  | empty _ ih => simpa [seenOpen] using ih
  | last _ tried => simpa [seenOpen] using tried.seenOpen_iff
  | again _ tried _ ih =>
    have closed : seenOpen cDir ∉ _ := fun seen => by simpa using tried.seenOpen_iff.mp seen
    simpa [seenOpen] using (or_iff_right closed).trans ih

/-- Where there is an attempt, it starts with a prompt. -/
theorem PasswordRun.starts (run : PasswordRun cDir cAge left tr out) :
    tr = [] ∨ ∃ there prompt r rest,
      tr = ⟨.pathExists cAge, there⟩ :: ⟨.readSecret prompt, r⟩ :: rest := by
  cases run with
  | exhausted => exact .inl rfl
  | notRead | empty | last | again => exact .inr ⟨_, _, _, _, rfl⟩

/-- No key is added before the first prompt. -/
theorem PasswordRun.prompt_of_addKey (run : PasswordRun cDir cAge left tr out)
    {before after : History Sys} {dir : String} {key : List UInt8} {r : Except Err Unit}
    (split : tr = before ++ ⟨.addKey dir key, r⟩ :: after) : ∃ e ∈ before, isPrompt e = true := by
  rcases run.starts with rfl | ⟨there, prompt, answer, rest, rfl⟩
  · simp at split
  · rcases List.cons_eq_append_iff.mp split with ⟨-, same⟩ | ⟨before', rfl, tail_eq⟩
    · cases same
    · rcases List.cons_eq_append_iff.mp tail_eq with ⟨-, same⟩ | ⟨before'', rfl, -⟩
      · cases same
      · exact ⟨⟨.readSecret prompt, answer⟩, by simp, rfl⟩

theorem PasswordTried.countP_eq_zero (tried : PasswordTried cDir cAge tr out) :
    tr.countP isPrompt = 0 :=
  List.countP_eq_zero.mpr fun e member => by simpa using tried.isPrompt_eq_false e member

theorem countP_attempt (cAge prompt : String) (there : Bool) (r : Except Err String)
    (tr : History Sys) :
    (⟨.pathExists cAge, there⟩ :: ⟨.readSecret prompt, r⟩ :: tr : History Sys).countP isPrompt =
      tr.countP isPrompt + 1 := by
  rw [List.countP_cons_of_neg (by simp [isPrompt]), List.countP_cons_of_pos rfl]

/-- There is one prompt for each attempt. -/
theorem PasswordRun.prompts_le (run : PasswordRun cDir cAge left tr out) :
    tr.countP isPrompt ≤ left := by
  induction run with
  | exhausted => exact Nat.le_refl 0
  | notRead e => rw [countP_attempt]; simp
  | empty _ ih => rw [countP_attempt]; omega
  | last _ tried => rw [countP_attempt, tried.countP_eq_zero]; omega
  | again _ tried _ ih => rw [countP_attempt, List.countP_append, tried.countP_eq_zero]; omega

/-- Where every prompt is answered and no answer is right, all attempts are made. -/
theorem PasswordRun.prompts_eq (run : PasswordRun cDir cAge left tr out)
    (read : ∀ prompt e, ⟨.readSecret prompt, .error e⟩ ∉ tr) (failed : out ≠ .done (.ok ())) :
    tr.countP isPrompt = left := by
  induction run with
  | exhausted => rfl
  | @notRead _ _ prompt e => exact absurd (by simp) (read prompt e)
  | empty _ ih =>
    rw [countP_attempt, ih (fun prompt e member => read prompt e (by simp [member])) failed]
  | last _ tried decides =>
    rw [countP_attempt, tried.countP_eq_zero, decides.resolve_left failed]
  | again _ tried _ ih =>
    rw [countP_attempt, List.countP_append, tried.countP_eq_zero,
      ih (fun prompt e member => read prompt e (by simp [member])) failed, Nat.zero_add]

/-- A prompt in the trace of an attempt and what follows is the prompt of the attempt, or it
    follows. -/
theorem split_attempt {there : Bool} {asked prompt : String} {r r' : Except Err String}
    {before after : History Sys}
    (split : ⟨.pathExists cAge, there⟩ :: ⟨.readSecret asked, r⟩ :: tr =
      before ++ ⟨.readSecret prompt, r'⟩ :: after) :
    (r = r' ∧ after = tr) ∨ ∃ before', tr = before' ++ ⟨.readSecret prompt, r'⟩ :: after := by
  rcases List.cons_eq_append_iff.mp split with ⟨-, same⟩ | ⟨before', -, tail_eq⟩
  · cases same
  · rcases List.cons_eq_append_iff.mp tail_eq with ⟨-, same⟩ | ⟨before'', -, rest_eq⟩
    · cases same
      exact .inl ⟨rfl, rfl⟩
    · exact .inr ⟨before'', rest_eq⟩

theorem PasswordTried.prompt_notMem (tried : PasswordTried cDir cAge tr out) (prompt : String)
    (r : Except Err String) : ⟨.readSecret prompt, r⟩ ∉ tr := fun member =>
  Bool.noConfusion (tried.isPrompt_eq_false _ member)

/-- After an empty password there is the next prompt, or nothing. -/
theorem PasswordRun.empty_skipped (run : PasswordRun cDir cAge left tr out)
    {before after : History Sys} {prompt : String}
    (split : tr = before ++ ⟨.readSecret prompt, .ok ""⟩ :: after) :
    after = [] ∨ ∃ there prompt' r rest,
      after = ⟨.pathExists cAge, there⟩ :: ⟨.readSecret prompt', r⟩ :: rest := by
  induction run generalizing before with
  | exhausted => simp at split
  | notRead e =>
    rcases split_attempt split with ⟨same, -⟩ | ⟨before', rest⟩
    · cases same
    · simp at rest
  | empty run ih =>
    rcases split_attempt split with ⟨-, rfl⟩ | ⟨before', rest⟩
    · exact run.starts
    · exact ih rest
  | last nonempty tried =>
    rcases split_attempt split with ⟨same, -⟩ | ⟨before', rest⟩
    · cases same
      exact absurd rfl nonempty
    · exact absurd (by simp [rest]) (tried.prompt_notMem prompt (.ok ""))
  | again nonempty tried _ ih =>
    rcases split_attempt split with ⟨same, -⟩ | ⟨before', rest⟩
    · cases same
      exact absurd rfl nonempty
    · rcases append_eq_append_cons rest with ⟨rest', first, -⟩ | ⟨first, -, second⟩
      · exact absurd (by simp [first]) (tried.prompt_notMem prompt (.ok ""))
      · exact ih second

/-- The commands of the password path; none of them touches the TPM. -/
def PasswordCmd : SysCmd → Prop
  | .pathExists _ | .readSecret _ | .readFile _ | .ageDecrypt _ _ | .addKey _ _ | .isDir _ => True
  | _ => False

theorem PasswordTried.cmds (tried : PasswordTried cDir cAge tr out) :
    ∀ e ∈ tr, PasswordCmd e.cmd := by
  have finds_only : ∀ {tr : History Sys}, (∀ e ∈ tr, KeyCmd cAge e.cmd) →
      ∀ e ∈ tr, PasswordCmd e.cmd := by
    rintro tr finds ⟨c, r⟩ member
    have isKeyCmd := finds _ member
    cases c <;> trivial
  cases tried with
  | noKey e finds => exact finds_only finds
  | key finds tried =>
    refine List.forall_mem_append.mpr ⟨finds_only finds, ?_⟩
    cases tried with
    | refused | notAdded | closed => simp [PasswordCmd]
    | opened runs =>
      obtain ⟨rfl, -⟩ := Fallible.runs_pure_iff.mp runs
      simp [PasswordCmd, seenOpen]

theorem PasswordRun.cmds (run : PasswordRun cDir cAge left tr out) :
    ∀ e ∈ tr, PasswordCmd e.cmd := by
  have attempt : ∀ {there : Bool} {prompt : String} {r : Except Err String} {tr : History Sys},
      (∀ e ∈ tr, PasswordCmd e.cmd) →
      ∀ e ∈ (⟨.pathExists cAge, there⟩ :: ⟨.readSecret prompt, r⟩ :: tr : History Sys),
        PasswordCmd e.cmd := fun rest =>
    List.forall_mem_cons.mpr ⟨trivial, List.forall_mem_cons.mpr ⟨trivial, rest⟩⟩
  induction run with
  | exhausted => simp
  | notRead e => exact attempt (by simp)
  | empty _ ih => exact attempt ih
  | last _ tried => exact attempt tried.cmds
  | again _ tried _ ih => exact attempt (List.forall_mem_append.mpr ⟨tried.cmds, ih⟩)

/-- After a success, a key was added and the directory seen open. -/
theorem PasswordRun.unlocked (run : PasswordRun cDir cAge left tr out)
    (ok : out = .done (.ok ())) : UnlockedIn cDir tr := by
  induction run with
  | exhausted | notRead => cases ok
  | empty _ ih => exact (ih ok).prepend [_, _]
  | last _ tried =>
    subst ok
    exact tried.unlocked.prepend [_, _]
  | again _ _ _ ih => exact ((ih ok).prepend _).prepend [_, _]

end

/-! ## The whole -/

/-- What `unlock_state_c` looks at before it tries a key: the directory is there and closed. -/
def entry (state : String) (device : Bool) : History Sys :=
  [⟨.pathExists (UnixPath.join state "c"), true⟩,
    ⟨.isDir (UnixPath.join (UnixPath.join state "c") "home"), false⟩,
    ⟨.pathExists "/dev/tpmrm0", device⟩]

/-- A run of `unlock_state_c`. -/
inductive UnlockRun (state : String) (verifiedBoot : Bool) :
    History Sys → Outcome Sys (Except Err Unit) → Prop where
  | absent : UnlockRun state verifiedBoot [⟨.pathExists (UnixPath.join state "c"), false⟩]
      (.done (.ok ()))
  | alreadyOpen (r : Except Err Unit) : (verifiedBoot = true → ∃ e, r = .error e) →
      UnlockRun state verifiedBoot
        [⟨.pathExists (UnixPath.join state "c"), true⟩, seenOpen (UnixPath.join state "c")]
        (.done r)
  | noTpm {tr : History Sys} {out : Outcome Sys (Except Err Unit)} :
      PasswordRun (UnixPath.join state "c") (UnixPath.join state "initos/c.age") 3 tr out →
      UnlockRun state verifiedBoot (entry state false ++ tr) out
  /-- The TPM decides: it unlocks, or the process dies in the attempt. -/
  | tpm {tr : History Sys} {out : Outcome Sys (Except Err Unit)} :
      TpmUnlock (UnixPath.join state "c") verifiedBoot tr out →
      (out = .done (.ok ()) ∨ ∃ stop, out = .halted stop) →
      UnlockRun state verifiedBoot (entry state true ++ tr) out
  | tpmFailed {tr tr' : History Sys} {e : Err} {out : Outcome Sys (Except Err Unit)} :
      TpmUnlock (UnixPath.join state "c") verifiedBoot tr (.done (.error e)) →
      PasswordRun (UnixPath.join state "c") (UnixPath.join state "initos/c.age") 3 tr' out →
      UnlockRun state verifiedBoot (entry state true ++ (tr ++ tr')) out

/-- The runs of `unlock_state_c`. -/
theorem unlockRun_of_runs {state : String} {verifiedBoot : Bool} {tr : History Sys}
    {out : Outcome Sys (Except Err Unit)}
    (runs : Runs (unlockStateC state verifiedBoot).run tr out) :
    UnlockRun state verifiedBoot tr out := by
  rw [unlockStateC] at runs
  obtain ⟨there, tr, rfl, afterLook⟩ := Fallible.runs_ask_bind.mp runs
  cases there with
  | false =>
    obtain ⟨rfl, rfl⟩ := Fallible.runs_pure_iff.mp afterLook
    exact .absent
  | true =>
    obtain ⟨home, tr, rfl, afterHome⟩ := Fallible.runs_ask_bind.mp afterLook
    cases home with
    | true =>
      cases verifiedBoot with
      | true =>
        obtain ⟨rfl, rfl⟩ := Fallible.runs_pure_iff.mp afterHome
        exact .alreadyOpen _ fun _ => ⟨_, rfl⟩
      | false =>
        obtain ⟨rfl, rfl⟩ := Fallible.runs_pure_iff.mp afterHome
        exact .alreadyOpen (.ok ()) nofun
    | false =>
      obtain ⟨device, tr, rfl, afterDevice⟩ := Fallible.runs_ask_bind.mp afterHome
      cases device with
      | false => exact .noTpm (passwordRun_of_runs afterDevice)
      | true =>
        rcases Fallible.runs_attempt_bind.mp afterDevice with ⟨r, tr₁, tr₂, rfl, tried, rest⟩ |
          ⟨stop, rfl, tried⟩
        · have tried := tpmUnlock_of_runs tried
          cases r with
          | ok =>
            obtain ⟨rfl, rfl⟩ := Fallible.runs_pure_iff.mp rest
            rw [List.append_nil]
            exact .tpm tried (.inl rfl)
          | error e => exact .tpmFailed tried (passwordRun_of_runs rest)
        · exact .tpm (tpmUnlock_of_runs tried) (.inr ⟨stop, rfl⟩)

/-- In a verified boot `unlock_state_c` succeeds only where there is no directory `c`, or
    where it has unlocked it. -/
theorem UnlockRun.unlocked {state : String} {tr : History Sys}
    (run : UnlockRun state true tr (.done (.ok ()))) :
    ⟨.pathExists (UnixPath.join state "c"), false⟩ ∈ tr ∨
      UnlockedIn (UnixPath.join state "c") tr := by
  cases run with
  | absent => exact .inl List.mem_cons_self
  | alreadyOpen _ fails =>
    obtain ⟨e, failed⟩ := fails rfl
    cases failed
  | noTpm run => exact .inr ((run.unlocked rfl).prepend (entry state _))
  | tpm tried =>
    cases tried with
    | unsealed _ tried => exact .inr ((tried.unlocked.prepend _).prepend (entry state _))
  | tpmFailed _ run => exact .inr (((run.unlocked rfl).prepend _).prepend (entry state _))

end Initos.Boot
