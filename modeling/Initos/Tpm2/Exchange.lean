import Initos.Tpm2.Wire

/-!
# Exchanges with the TPM

A command carries its code behind the tag and the size, a reply its response code at the
same place. Which command a reply answers is a matter of the history: it is the last one
written. The functions of `src/tpm2.rs` read fields of an accepted reply without asking how
long it is; `ReplyFits` is what they need, and a session of theirs runs to its end just when
every reply fits.
-/

namespace Initos.Tpm2

open Interact Bytes Marshal

/-! ## The codes of the commands -/

/-- The command code of a command. -/
def commandCode (cmd : List UInt8) : Option UInt32 := getU32 cmd 6

theorem commandCode_append (tag : UInt16) (size code : UInt32) (rest : List UInt8) :
    commandCode (encode (header tag size code) ++ rest) = some code := by
  have read := getU32_append (be16 tag ++ be32 size) rest code
  rw [commandCode]
  simpa [header, Field.encode, length_be16, length_be32] using read

/-- The command code is that of the header. -/
theorem commandCode_fill {tag : UInt16} {size code : UInt32} {fields : List Field} {n : Nat}
    {cmd : List UInt8} (built : fill n (header tag size code ++ fields) = some cmd) :
    commandCode cmd = some code := by
  rw [fill_eq] at built
  split at built
  · cases built
    rw [encode_append, List.append_assoc]
    exact commandCode_append tag size code _
  · cases built

/-- A command whose fields fit into its size is built. -/
theorem fill_header {tag : UInt16} {size code : UInt32} {fields : List Field} {n : Nat}
    (fits : (encode (header tag size code ++ fields)).length ≤ n) :
    ∃ cmd, fill n (header tag size code ++ fields) = some cmd ∧ commandCode cmd = some code := by
  have built := fill_eq n (header tag size code ++ fields)
  rw [if_pos fits] at built
  exact ⟨_, built, commandCode_fill built⟩

/-- The builder makes a command with this code. -/
def Builds (cmd : Checked (List UInt8)) (code : UInt32) : Prop :=
  ∃ bytes, cmd = some bytes ∧ commandCode bytes = some code

theorem builds_startup : Builds startupCmd ccStartup := fill_header (by decide)

theorem builds_startAuthSession (sessionType : UInt8) :
    Builds (startAuthSessionCmd sessionType) ccStartAuthSession :=
  fill_header (by simp [header, Field.encode, length_be16, length_be32, sha256DigestSize])

theorem builds_policyPcr (session : UInt32) : Builds (policyPcrCmd session) ccPolicyPcr :=
  fill_header (by simp [header, Field.encode, length_be16, length_be32])

theorem builds_policyGetDigest (session : UInt32) :
    Builds (policyGetDigestCmd session) ccPolicyGetDigest :=
  fill_header (by simp [header, Field.encode, length_be16, length_be32])

theorem builds_unseal (itemHandle session : UInt32) :
    Builds (unsealCmd itemHandle session) ccUnseal :=
  fill_header (by simp [header, Field.encode, length_be16, length_be32])

theorem builds_pcrExtend (pcrIndex : UInt32) {digest : List UInt8} (size : digest.length = 32) :
    Builds (pcrExtendCmd pcrIndex digest) ccPcrExtend :=
  fill_header (by
    simp [header, pwAuth, Field.encode, length_be16, length_be32, size, sha256DigestSize,
      pwAuthSize])

theorem builds_flushContext (handle : UInt32) : Builds (flushContextCmd handle) ccFlushContext :=
  fill_header (by simp [header, Field.encode, length_be16, length_be32])

theorem builds_createPrimary : Builds createPrimaryCmd ccCreatePrimary :=
  fill_header (by decide)

theorem builds_evictControl (objectHandle persistentHandle : UInt32) :
    Builds (evictControlCmd objectHandle persistentHandle) ccEvictControl :=
  fill_header (by
    simp [header, pwAuth, Field.encode, length_be16, length_be32, pwAuthSize])

theorem builds_create (parent : UInt32) (data policy : List UInt8)
    (dataSmall : data.length + 4 < 2 ^ 16) (policySmall : policy.length + 14 < 2 ^ 16) :
    Builds (createCmd parent data policy) ccCreate :=
  fill_header (by
    simp only [length_encode, header, pwAuth, List.cons_append, List.nil_append, List.map_cons,
      List.map_nil, List.sum_cons, List.sum_nil, Field.size, pwAuthSize, UInt32.toNat_add,
      UInt16.toNat_add, UInt16.toNat_toUInt32, UInt16.toNat_ofNat', UInt32.reduceToNat,
      UInt16.reduceToNat]
    omega)

theorem builds_load (parent : UInt32) (privArea pubArea : List UInt8)
    (small : 27 + privArea.length + pubArea.length < 2 ^ 32) :
    Builds (loadCmd parent privArea pubArea) ccLoad :=
  fill_header (by
    simp only [length_encode, header, pwAuth, List.cons_append, List.nil_append, List.map_cons,
      List.map_nil, List.sum_cons, List.sum_nil, Field.size, pwAuthSize, UInt32.toNat_add,
      UInt32.toNat_ofNat', UInt32.reduceToNat]
    omega)

theorem builds_daLockReset : Builds daLockResetCmd ccDaLockReset :=
  fill_header (by decide)

/-! ## What is written -/

/-- The device commands of the functions below: nothing but commands with these codes is
    written. -/
def DeviceCmd (codes : List UInt32) : SysCmd → Prop
  | .tpmWrite cmd => ∃ code ∈ codes, commandCode cmd = some code
  | .tpmRead | .sleep _ => True
  | _ => False

/-- The calls of a transaction with this command are among these. -/
structure Covers (A : SysCmd → Prop) (cmd : List UInt8) : Prop where
  write : A (.tpmWrite cmd)
  reset : ∀ bytes, daLockResetCmd = some bytes → A (.tpmWrite bytes)
  read : A .tpmRead
  sleep : A (.sleep 50)

section

variable {A : SysCmd → Prop} {cmd : List UInt8}

theorem exchange_uses (covers : Covers A cmd) : (exchange cmd).run.Uses A := by
  refine Fallible.uses_bind ((Fallible.uses_call _ _ _).mpr covers.write) fun _ => ?_
  refine Fallible.uses_bind ((Fallible.uses_call _ _ _).mpr covers.read) fun answer => ?_
  dsimp only
  split
  · trivial
  · cases getU32 (answer.take rspBufSize) 6 <;> trivial

theorem daLockResetRaw_uses (covers : Covers A cmd) : daLockResetRaw.run.Uses A := by
  obtain ⟨bytes, built, -⟩ := builds_daLockReset
  rw [daLockResetRaw, built, ofChecked, pure_bind]
  exact ⟨covers.reset bytes built, fun _ => ⟨covers.read, fun _ => trivial⟩⟩

/-- The retries send the command and the reset only. -/
theorem transactLoop_uses (covers : Covers A cmd) (left : Nat) :
    (transactLoop cmd left).run.Uses A := by
  induction left with
  | zero => exact Fallible.uses_bind (exchange_uses covers) fun _ => trivial
  | succ left ih =>
    refine Fallible.uses_bind (exchange_uses covers) fun reply => ?_
    have sleepAndTry : (do sleep 50; transactLoop cmd left : Io (List UInt8)).run.Uses A :=
      Fallible.uses_bind ((Fallible.uses_ask _ _).mpr covers.sleep) fun _ => ih
    dsimp only
    split
    · split
      · exact Fallible.uses_bind (daLockResetRaw_uses covers) fun _ => sleepAndTry
      · exact sleepAndTry
    · trivial

theorem request_uses_of (covers : Covers A cmd) (cmdName : String) :
    (request (some cmd) cmdName).run.Uses A := by
  rw [request, ofChecked, pure_bind]
  refine Fallible.uses_bind (transactLoop_uses covers _) fun rsp => ?_
  refine Fallible.uses_bind ?_ fun _ => trivial
  unfold checkResponse
  cases getU32 rsp 6 with
  | none => trivial
  | some rc =>
    rw [ofChecked, pure_bind]
    split
    · split <;> trivial
    · trivial

end

section

variable {codes : List UInt32}

theorem request_uses {cmd : Checked (List UInt8)} {code : UInt32} (builds : Builds cmd code)
    (cmdName : String) (listed : code ∈ codes) (reset : ccDaLockReset ∈ codes) :
    (request cmd cmdName).run.Uses (DeviceCmd codes) := by
  obtain ⟨bytes, rfl, isCode⟩ := builds
  refine request_uses_of ⟨⟨code, listed, isCode⟩, ?_, trivial, trivial⟩ cmdName
  exact fun _ built => ⟨ccDaLockReset, reset, commandCode_fill built⟩

/-- The first thing a request does is to write its command. -/
theorem request_starts {cmd : List UInt8} {cmdName : String} {tr : History Sys}
    {out : Outcome Sys (Except Err (List UInt8))}
    (runs : Runs (request (some cmd) cmdName).run tr out) :
    ∃ written tr', tr = ⟨.tpmWrite cmd, written⟩ :: tr' := by
  cases runs with
  | call written => exact ⟨written, _, rfl⟩

theorem ofChecked_uses {α : Type} (A : SysCmd → Prop) (a : Checked α) :
    (ofChecked a).run.Uses A := by
  cases a <;> trivial

theorem startPolicySession_uses (listed : ccStartAuthSession ∈ codes)
    (reset : ccDaLockReset ∈ codes) : startPolicySession.run.Uses (DeviceCmd codes) := by
  have asks := request_uses (builds_startAuthSession sePolicy) "StartAuthSession" listed reset
  unfold startPolicySession startAuthSession
  exact Fallible.uses_bind asks fun _ => ofChecked_uses _ _

theorem policyPcr_uses (session : UInt32) (listed : ccPolicyPcr ∈ codes)
    (reset : ccDaLockReset ∈ codes) : (policyPcr session).run.Uses (DeviceCmd codes) := by
  have asks := request_uses (builds_policyPcr session) "PolicyPCR" listed reset
  unfold policyPcr
  exact Fallible.uses_bind asks fun _ => trivial

theorem policyGetDigest_uses (session : UInt32) (listed : ccPolicyGetDigest ∈ codes)
    (reset : ccDaLockReset ∈ codes) : (policyGetDigest session).run.Uses (DeviceCmd codes) := by
  have asks := request_uses (builds_policyGetDigest session) "PolicyGetDigest" listed reset
  unfold policyGetDigest
  refine Fallible.uses_bind asks fun _ => ?_
  exact Fallible.uses_bind (ofChecked_uses _ _) fun _ => ofChecked_uses _ _

theorem unsealItem_uses (itemHandle session : UInt32) (listed : ccUnseal ∈ codes)
    (reset : ccDaLockReset ∈ codes) :
    (unsealItem itemHandle session).run.Uses (DeviceCmd codes) := by
  have asks := request_uses (builds_unseal itemHandle session) "Unseal" listed reset
  unfold unsealItem
  refine Fallible.uses_bind asks fun _ => ?_
  exact Fallible.uses_bind (ofChecked_uses _ _) fun _ => ofChecked_uses _ _

end

/-! ## Replies and the commands they answer -/

/-- The last command written to the device. -/
def lastWritten (h : History Sys) : Option (List UInt8) :=
  h.foldl (fun last e => match e.cmd with
    | .tpmWrite cmd => some cmd
    | _ => last) none

@[simp] theorem lastWritten_write (h : History Sys) (cmd : List UInt8) (r : Except Err Unit) :
    lastWritten (h ++ [⟨.tpmWrite cmd, r⟩]) = some cmd := by
  simp [lastWritten]

/-- The response code of an answer; the code reads `RSP_BUF_SIZE` bytes of it. -/
def responseCode (answer : List UInt8) : Option UInt32 := getU32 (answer.take rspBufSize) 6

/-- An accepted reply to a command with this code holds what the code reads of it. -/
def ReplyFits (code : UInt32) (rsp : List UInt8) : Prop :=
  if code = ccStartAuthSession then 14 ≤ rsp.length
  else if code = ccPolicyGetDigest then
    ∃ size, getU16 rsp 10 = some size ∧ 12 + size.toNat ≤ rsp.length
  else if code = ccUnseal then ∃ size, getU16 rsp 14 = some size ∧ 16 + size.toNat ≤ rsp.length
  else True

/-- A TPM whose accepted replies have a property, given the code of the command they answer. -/
def AcceptedReplies (P : UInt32 → List UInt8 → Prop) : Rely Sys := fun h e =>
  match e with
  | ⟨.tpmRead, r⟩ => ∀ answer cmd code, r = Except.ok answer → lastWritten h = some cmd →
      commandCode cmd = some code → responseCode answer = some 0 → P code (answer.take rspBufSize)
  | _ => True

/-- Every accepted reply so far has the property. -/
def Accepted (P : UInt32 → List UInt8 → Prop) (h : History Sys) : Prop :=
  Admits (AcceptedReplies P) [] h

theorem accepted_append (P : UInt32 → List UInt8 → Prop) (h : History Sys) (e : Event Sys) :
    Accepted P (h ++ [e]) ↔ Accepted P h ∧ AcceptedReplies P h e := by
  rw [Accepted, admits_append]
  simp [Admits, Accepted]

theorem Accepted.of_append {P : UInt32 → List UInt8 → Prop} {h tr : History Sys}
    (accepted : Accepted P (h ++ tr)) : Accepted P h :=
  ((admits_append _ _ _ _).mp accepted).1

theorem Accepted.mono {P Q : UInt32 → List UInt8 → Prop} {h : History Sys} (accepted : Accepted P h)
    (weaker : ∀ code rsp, P code rsp → Q code rsp) : Accepted Q h := by
  refine Admits.mono (fun h e replies => ?_) accepted
  obtain ⟨c, r⟩ := e
  cases c with
  | tpmRead =>
    intro answer cmd code read written isCode code0
    exact weaker _ _ (replies answer cmd code read written isCode code0)
  | _ => trivial

theorem accepted_append_of_notRead {P : UInt32 → List UInt8 → Prop} {h tr : History Sys}
    (accepted : Accepted P h) (notRead : ∀ e ∈ tr, e.cmd ≠ .tpmRead) : Accepted P (h ++ tr) := by
  induction tr generalizing h with
  | nil => simpa using accepted
  | cons e tr ih =>
    have first : Accepted P (h ++ [e]) := by
      refine (accepted_append P h e).mpr ⟨accepted, ?_⟩
      obtain ⟨c, r⟩ := e
      have other := notRead ⟨c, r⟩ (by simp)
      cases c <;> trivial
    have rest := ih first fun e member => notRead e (List.mem_cons_of_mem _ member)
    simpa using rest

/-- Every accepted reply so far fits. -/
def Fitting (h : History Sys) : Prop := Accepted ReplyFits h

section

variable {R : Rely Sys} {h : History Sys} {P : UInt32 → List UInt8 → Prop}

/-- The exchange of one command: the reply is the last event, and only it may lack the property. -/
theorem exchange_wp {cmd : List UInt8} {code : UInt32} (isCode : commandCode cmd = some code)
    (fitting : Accepted P h) :
    Prog.wp R (fun h' out => (∃ e, out = .done (.error e) ∧ Accepted P h') ∨
      ∃ rsp rc, out = .done (.ok (rsp, rc)) ∧ getU32 rsp 6 = some rc ∧
        (Accepted P h' ↔ (rc = 0 → P code rsp))) (exchange cmd).run h := by
  rw [exchange, Fallible.wp_call_bind]
  intro written _
  have fitting : Accepted P (h ++ [⟨.tpmWrite cmd, written⟩]) :=
    (accepted_append _ _ _).mpr ⟨fitting, trivial⟩
  cases written with
  | error e => exact (Prog.wp_pure _ _ _ _).mpr (.inl ⟨e, rfl, fitting⟩)
  | ok _ =>
    rw [Fallible.cont_ok, Fallible.wp_call_bind]
    intro answer _
    cases answer with
    | error e =>
      refine (Prog.wp_pure _ _ _ _).mpr (.inl ⟨e, rfl, (accepted_append _ _ _).mpr ⟨fitting, ?_⟩⟩)
      rintro _ _ _ ⟨⟩
    | ok answer =>
      rw [Fallible.cont_ok]
      dsimp only
      split
      next short =>
        refine (Prog.wp_pure _ _ _ _).mpr (.inl ⟨_, rfl, (accepted_append _ _ _).mpr ⟨fitting, ?_⟩⟩)
        rintro _ _ _ ⟨⟩ - - accepted
        have enough := (getU32_isSome_iff _ _).mp (Option.isSome_of_eq_some accepted)
        omega
      next long =>
        have enough := (getU32_isSome_iff (answer.take rspBufSize) 6).mpr (by omega)
        obtain ⟨rc, read⟩ := Option.isSome_iff_exists.mp enough
        rw [read, ofChecked, pure_bind]
        refine (Prog.wp_pure _ _ _ _).mpr (.inr ⟨_, rc, rfl, read, ?_⟩)
        rw [accepted_append, and_iff_right fitting]
        constructor
        · rintro fits rfl
          exact fits answer cmd code rfl (lastWritten_write _ _ _) isCode read
        · rintro fits _ cmd' code' ⟨⟩ written isCode' accepted
          rw [lastWritten_write, Option.some.injEq] at written
          subst written
          rw [isCode, Option.some.injEq] at isCode'
          subst isCode'
          rw [responseCode, read, Option.some.injEq] at accepted
          exact fits accepted

theorem daLockResetRaw_wp (reset : ∀ rsp, P ccDaLockReset rsp) (fitting : Accepted P h) :
    Prog.wp R (fun h' out => out = .done (.ok ()) ∧ Accepted P h') daLockResetRaw.run h := by
  obtain ⟨cmd, built, isCode⟩ := builds_daLockReset
  rw [daLockResetRaw, built, ofChecked, pure_bind, Fallible.wp_attempt_call_bind]
  intro written _
  rw [Fallible.wp_attempt_call_bind]
  intro answer _
  refine (Prog.wp_pure _ _ _ _).mpr ⟨rfl, ?_⟩
  rw [accepted_append, accepted_append]
  refine ⟨⟨fitting, trivial⟩, ?_⟩
  rintro _ cmd' code' - written isCode' -
  rw [lastWritten_write, Option.some.injEq] at written
  subst written
  rw [isCode, Option.some.injEq] at isCode'
  subst isCode'
  exact reset _

/-- Only the last reply of a transaction may lack the property, and only where it is accepted. -/
def Transacted (P : UInt32 → List UInt8 → Prop) (code : UInt32) (h : History Sys)
    (out : Outcome Sys (Except Err (List UInt8))) : Prop :=
  (∃ e, out = .done (.error e) ∧ Accepted P h) ∨
    ∃ rsp rc, out = .done (.ok rsp) ∧ getU32 rsp 6 = some rc ∧
      (Accepted P h ↔ (rc = 0 → P code rsp))

/-- The retries keep what holds of accepted replies. -/
theorem transactLoop_wp {cmd : List UInt8} {code : UInt32} (isCode : commandCode cmd = some code)
    (reset : ∀ rsp, P ccDaLockReset rsp) (left : Nat) (fitting : Accepted P h) :
    Prog.wp R (Transacted P code) (transactLoop cmd left).run h := by
  induction left generalizing h with
  | zero =>
    rw [transactLoop, Fallible.wp_bind]
    apply Prog.wp_mono (exchange_wp isCode fitting)
    rintro h' _ (⟨e, rfl, fitting⟩ | ⟨rsp, rc, rfl, read, fits⟩)
    · exact (Prog.wp_pure _ _ _ _).mpr (.inl ⟨e, rfl, fitting⟩)
    · exact (Prog.wp_pure _ _ _ _).mpr (.inr ⟨rsp, rc, rfl, read, fits⟩)
  | succ left ih =>
    rw [transactLoop, Fallible.wp_bind]
    apply Prog.wp_mono (exchange_wp isCode fitting)
    rintro h' _ (⟨e, rfl, fitting⟩ | ⟨rsp, rc, rfl, read, fits⟩)
    · exact (Prog.wp_pure _ _ _ _).mpr (.inl ⟨e, rfl, fitting⟩)
    · rw [Prog.andThen_done, Fallible.cont_ok]
      dsimp only
      split
      next again =>
        -- the codes that are tried again are not zero, so the reply was refused
        have refused : rc ≠ 0 := by
          rintro rfl
          revert again
          decide
        have fitting := fits.mpr fun accepted => absurd accepted refused
        have sleepAndTry : ∀ h', Accepted P h' → Prog.wp R (Transacted P code)
            (do sleep 50; transactLoop cmd left : Io (List UInt8)).run h' := by
          intro h' fitting
          rw [Fallible.wp_ask_bind]
          intro _ _
          exact ih ((accepted_append _ _ _).mpr ⟨fitting, trivial⟩)
        split
        · rw [Fallible.wp_bind]
          apply Prog.wp_mono (daLockResetRaw_wp reset fitting)
          rintro h'' _ ⟨rfl, fitting⟩
          exact sleepAndTry h'' fitting
        · exact sleepAndTry h' fitting
      next => exact (Prog.wp_pure _ _ _ _).mpr (.inr ⟨rsp, rc, rfl, read, fits⟩)

/-- A request returns an accepted reply, the first one that may lack the property. -/
theorem request_wp {cmd : Checked (List UInt8)} {code : UInt32} (builds : Builds cmd code)
    (cmdName : String) (reset : ∀ rsp, P ccDaLockReset rsp) (fitting : Accepted P h) :
    Prog.wp R (fun h' out => (∃ e, out = .done (.error e) ∧ Accepted P h') ∨
      ∃ rsp, out = .done (.ok rsp) ∧ (Accepted P h' ↔ P code rsp))
      (request cmd cmdName).run h := by
  obtain ⟨bytes, rfl, isCode⟩ := builds
  rw [request, ofChecked, pure_bind, Fallible.wp_bind, tpmTransact]
  apply Prog.wp_mono (transactLoop_wp isCode reset maxRetries fitting)
  rintro h' _ (⟨e, rfl, fitting⟩ | ⟨rsp, rc, rfl, read, fits⟩)
  · exact (Prog.wp_pure _ _ _ _).mpr (.inl ⟨e, rfl, fitting⟩)
  · rw [Prog.andThen_done, Fallible.cont_ok, Fallible.wp_bind, checkResponse, read, ofChecked,
      pure_bind]
    by_cases accepted : rc = 0
    · rw [if_neg (not_not.mpr accepted)]
      rw [Fallible.run_pure, Prog.wp_pure, Prog.andThen_done, Fallible.cont_ok, Fallible.run_pure,
        Prog.wp_pure]
      refine .inr ⟨rsp, rfl, ?_⟩
      rw [fits]
      exact ⟨fun all => all accepted, fun fit _ => fit⟩
    · rw [if_pos accepted]
      have fitting := fits.mpr fun zero => absurd zero accepted
      cases responseCodeReason rc with
      | none =>
        rw [Fallible.run_throw, Prog.wp_pure, Prog.andThen_done, Fallible.cont_error, Prog.wp_pure]
        exact .inl ⟨_, rfl, fitting⟩
      | some reason =>
        rw [Fallible.run_throw, Prog.wp_pure, Prog.andThen_done, Fallible.cont_error, Prog.wp_pure]
        exact .inl ⟨_, rfl, fitting⟩

end

/-- A run that ends, with a value or an error, just when every reply has fitted. -/
def EndsFitting {α : Type} (h : History Sys) (out : Outcome Sys α) : Prop :=
  Fitting h ↔ out.isDone = true

section

variable {α β : Type} {R : Rely Sys} {h : History Sys}

/-- Steps that abort only at short replies compose. -/
theorem endsFitting_bind {x : Io α} {f : α → Io β} (first : Prog.wp R EndsFitting x.run h)
    (rest : ∀ h' a, Fitting h' → Prog.wp R EndsFitting (f a).run h') :
    Prog.wp R EndsFitting (x >>= f).run h := by
  rw [Fallible.wp_bind]
  apply Prog.wp_mono first
  intro h' out ends
  rcases out with (e | a) | stop
  · exact (Prog.wp_pure _ _ _ _).mpr ends
  · exact rest h' a (ends.mpr rfl)
  · exact ends

/-- A request whose reply is read with the checks that `ReplyFits` states. -/
theorem request_read_wp {cmd : Checked (List UInt8)} {code : UInt32} (builds : Builds cmd code)
    (cmdName : String) {read : List UInt8 → Checked α}
    (reads : ∀ rsp, (read rsp).isSome ↔ ReplyFits code rsp) (fitting : Fitting h) :
    Prog.wp R EndsFitting (do
      let rsp ← request cmd cmdName
      ofChecked (read rsp) : Io α).run h := by
  rw [Fallible.wp_bind]
  apply Prog.wp_mono (request_wp builds cmdName (fun _ => trivial) fitting)
  rintro h' _ (⟨e, rfl, fitting⟩ | ⟨rsp, rfl, fits⟩)
  · exact (Prog.wp_pure _ _ _ _).mpr (iff_of_true fitting rfl)
  · rw [Prog.andThen_done, Fallible.cont_ok]
    rw [← reads] at fits
    cases result : read rsp with
    | none =>
      rw [result] at fits
      exact (Prog.wp_halt _ _ _ _).mpr fits
    | some a =>
      rw [result] at fits
      exact (Prog.wp_pure _ _ _ _).mpr fits

end

/-! ## Sessions -/

theorem ofChecked_bind {α β : Type} (a : Checked α) (f : α → Checked β) :
    (ofChecked a >>= fun x => ofChecked (f x)) = ofChecked (a.bind f) := by
  cases a <;> rfl

/-- Bytes with their 16-bit size in front. -/
theorem sizedSlice_isSome_iff (rsp : List UInt8) (off : Nat) :
    ((getU16 rsp off).bind fun size => slice rsp (off + 2) (off + 2 + size.toNat)).isSome ↔
      ∃ size, getU16 rsp off = some size ∧ off + 2 + size.toNat ≤ rsp.length := by
  cases getU16 rsp off with
  | none => simp
  | some size => simp [slice]

section

variable {R : Rely Sys} {h : History Sys}

theorem startPolicySession_wp (fitting : Fitting h) :
    Prog.wp R EndsFitting startPolicySession.run h := by
  refine request_read_wp (builds_startAuthSession sePolicy) _ (fun rsp => ?_) fitting
  exact getU32_isSome_iff rsp 10

theorem policyPcr_wp (session : UInt32) (fitting : Fitting h) :
    Prog.wp R EndsFitting (policyPcr session).run h :=
  @request_read_wp Unit R h _ _ (builds_policyPcr session) _ (fun _ => some ())
    (fun _ => iff_of_true rfl trivial) fitting

theorem policyGetDigest_wp (session : UInt32) (fitting : Fitting h) :
    Prog.wp R EndsFitting (policyGetDigest session).run h := by
  simp only [policyGetDigest, ofChecked_bind]
  exact request_read_wp (builds_policyGetDigest session) _ (sizedSlice_isSome_iff · 10) fitting

theorem unsealItem_wp (itemHandle session : UInt32) (fitting : Fitting h) :
    Prog.wp R EndsFitting (unsealItem itemHandle session).run h := by
  simp only [unsealItem, ofChecked_bind]
  exact request_read_wp (builds_unseal itemHandle session) _ (sizedSlice_isSome_iff · 14) fitting

theorem pcrExtendCmd_index {pcrIndex : UInt32} {digest cmd : List UInt8}
    (built : pcrExtendCmd pcrIndex digest = some cmd) : getU32 cmd 10 = some pcrIndex := by
  rw [pcrExtendCmd, authCommand, fill_eq] at built
  split at built
  · cases built
    have read := getU32_append (encode (header stSessions
      (10 + 4 + 4 + pwAuthSize + 4 + 2 + UInt32.ofNat sha256DigestSize) ccPcrExtend))
    simpa [header, Field.encode, length_be16, length_be32] using read _ pcrIndex
  · cases built

theorem openDevice_wp (fitting : Fitting h) : Prog.wp R EndsFitting openDevice.run h := by
  rw [openDevice, Fallible.wp_attempt_call_bind]
  intro opened _
  have fitting : Fitting (h ++ [⟨.tpmOpen, opened⟩]) :=
    (accepted_append _ _ _).mpr ⟨fitting, trivial⟩
  cases opened with
  | ok _ => exact (Prog.wp_pure _ _ _ _).mpr (iff_of_true fitting rfl)
  | error e => exact (Prog.wp_pure _ _ _ _).mpr (iff_of_true fitting rfl)

end

end Initos.Tpm2
