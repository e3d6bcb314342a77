import Initos.Tpm2.Semantics

/-!
# The operations against the TPM

Each function of `src/tpm2.rs` asks the TPM for one request. `Operated` is what comes of it:
the request is performed exactly once and its result is what the reply says, or the function
returns an error and the request was performed once or not at all. No reply makes it abort.
-/

namespace Initos.Tpm2

open Interact Bytes Marshal

variable {T : TpmSpec} {reliable : Bool}

/-- The TPM can perform the request now. -/
def TpmState.Can (s : TpmState T) (request : Request) : Prop :=
  ∃ s' fields reply, Performs s request s' fields ∧ IsReply 0 fields reply

namespace Chip

variable {c c' m : Chip T} {request : Request} {fields : List Field} {cmd : List UInt8}

/-- Nothing happened but resets of the lockout. -/
def Quiet (c c' : Chip T) : Prop :=
  c'.tpm = c.tpm ∧ ∃ resets, c'.performed = c.performed ++ resets ∧
    ∀ entry ∈ resets, entry.2 = .daLockReset

theorem Quiet.refl (c : Chip T) : c.Quiet c :=
  ⟨rfl, [], (List.append_nil _).symm, fun _ impossible => nomatch impossible⟩

theorem Quiet.trans (first : c.Quiet m) (second : m.Quiet c') : c.Quiet c' := by
  obtain ⟨same, resets, record, all⟩ := first
  obtain ⟨same', resets', record', all'⟩ := second
  refine ⟨same'.trans same, resets ++ resets', by rw [record', record, List.append_assoc], ?_⟩
  intro entry member
  exact (List.mem_append.mp member).elim (all entry) (all' entry)

theorem Refuses.quiet (refuses : c.Refuses c') : c.Quiet c' := by
  obtain ⟨rc, reply, -, -, rfl⟩ := refuses
  exact Quiet.refl c

theorem Did.quiet_of_reset (did : c.Did .daLockReset fields c') : c.Quiet c' := by
  obtain ⟨performs, -, record⟩ := did
  generalize after : c'.tpm = s' at performs
  cases performs
  refine ⟨after, _, record, ?_⟩
  intro entry member
  rw [List.mem_singleton.mp member]

/-- The request is performed, once, with nothing but resets before it. -/
def Done (c : Chip T) (request : Request) (fields : List Field) (c' : Chip T) : Prop :=
  ∃ m, c.Quiet m ∧ m.Did request fields c'

theorem Did.done (did : c.Did request fields c') : c.Done request fields c' := ⟨c, .refl c, did⟩

theorem Done.performs (done : c.Done request fields c') :
    Performs c.tpm request c'.tpm fields := by
  obtain ⟨m, quiet, performs, -, -⟩ := done
  rwa [quiet.1] at performs

theorem Done.of_quiet (quiet : c.Quiet m) (done : m.Done request fields c') :
    c.Done request fields c' := by
  obtain ⟨m', quiet', did⟩ := done
  exact ⟨m', quiet.trans quiet', did⟩

theorem executes_iff (decoded : decode cmd = some request) :
    c.Executes cmd c' ↔ ∃ fields, c.Did request fields c' := by
  constructor
  · rintro ⟨request', fields, decoded', did⟩
    rw [decoded, Option.some.injEq] at decoded'
    subst decoded'
    exact ⟨fields, did⟩
  · rintro ⟨fields, did⟩
    exact ⟨request, fields, decoded, did⟩

theorem exists_executes (decoded : decode cmd = some request) (can : c.tpm.Can request) :
    ∃ c', c.Executes cmd c' := by
  obtain ⟨s', fields, reply, performs, isReply⟩ := can
  exact ⟨⟨s', reply, _⟩, request, fields, decoded, performs, isReply, rfl⟩

end Chip

/-! ## Reading replies -/

section

variable {rc : UInt32} {fields : List Field} {reply : List UInt8}

theorem IsReply.take (isReply : IsReply rc fields reply) : reply.take rspBufSize = reply := by
  obtain ⟨_, _, _, -, -, fits⟩ := isReply
  exact List.take_of_length_le fits

theorem IsReply.responseCode (isReply : IsReply rc fields reply) : getU32 reply 6 = some rc := by
  obtain ⟨tag, size, rest, rfl, -, -⟩ := isReply
  exact getU32_encode [.u16 tag, .u32 size] rfl

theorem IsReply.length (isReply : IsReply rc fields reply) : 10 ≤ reply.length := by
  have read := isReply.responseCode
  have enough := (getU32_isSome_iff reply 6).mp (read ▸ rfl)
  omega

end

section

variable (before : List Field) {after : List Field} {reply : List UInt8} {rc : UInt32} {off : Nat}

theorem size_header (tag : UInt16) (size rc : UInt32)
    (off_eq : 10 + (before.map Field.size).sum = off) :
    ((header tag size rc ++ before).map Field.size).sum = off := by
  rw [List.map_append, List.sum_append]
  exact off_eq

theorem IsReply.getU16 {v : UInt16} (isReply : IsReply rc (before ++ .u16 v :: after) reply)
    (off_eq : 10 + (before.map Field.size).sum = off) : getU16 reply off = some v := by
  obtain ⟨tag, size, rest, rfl, -, -⟩ := isReply
  rw [← List.append_assoc]
  exact getU16_encode _ (size_header before tag size rc off_eq)

theorem IsReply.getU32 {v : UInt32} (isReply : IsReply rc (before ++ .u32 v :: after) reply)
    (off_eq : 10 + (before.map Field.size).sum = off) : getU32 reply off = some v := by
  obtain ⟨tag, size, rest, rfl, -, -⟩ := isReply
  rw [← List.append_assoc]
  exact getU32_encode _ (size_header before tag size rc off_eq)

theorem IsReply.slice {b : List UInt8} (isReply : IsReply rc (before ++ .bytes b :: after) reply)
    (off_eq : 10 + (before.map Field.size).sum = off) :
    slice reply off (off + b.length) = some b := by
  obtain ⟨tag, size, rest, rfl, -, -⟩ := isReply
  rw [← List.append_assoc]
  exact slice_encode _ (size_header before tag size rc off_eq)

end

/-! ## One exchange -/

section

variable {c c' : Chip T} {cmd : List UInt8} {request : Request}

/-- One exchange: performed, or answered with an error, or failed on the way there or back. -/
theorem exchange_on {out : Outcome Sys (Except Err (List UInt8 × UInt32))}
    (decoded : decode cmd = some request)
    (run : RunsOn (device reliable) (exchange cmd).run c c' out) :
    (∃ fields, c.Did request fields c' ∧ out = .done (.ok (c'.reply, 0))) ∨
    ((reliable = true → ¬c.tpm.Can request) ∧
      ((∃ rc, rc ≠ 0 ∧ c.Quiet c' ∧ getU32 c'.reply 6 = some rc ∧
        out = .done (.ok (c'.reply, rc))) ∨
      ∃ e, out = .done (.error e) ∧ (c.Quiet c' ∨ ∃ fields, c.Did request fields c'))) := by
  rw [exchange, Fallible.runsOn_call_bind] at run
  obtain ⟨written, m, wrote, afterWrite⟩ := run
  cases written with
  | error e =>
    obtain ⟨rfl, rfl⟩ := runsOn_pure.mp afterWrite
    obtain ⟨rfl, reached⟩ := wrote
    rw [Chip.executes_iff decoded] at reached
    refine .inr ⟨by rintro ⟨⟩, .inr ⟨e, rfl, reached.imp_left ?_⟩⟩
    rintro rfl
    exact .refl _
  | ok _ =>
    have answered : (∃ fields, c.Did request fields m) ∨
        (c.Refuses m ∧ (reliable = true → ¬c.tpm.Can request)) := by
      refine wrote.imp (Chip.executes_iff decoded).mp fun refused => ⟨refused.1, ?_⟩
      intro isReliable can
      exact refused.2 isReliable (Chip.exists_executes decoded can)
    rw [Fallible.cont_ok, Fallible.runsOn_call_bind] at afterWrite
    obtain ⟨answer, m', read, afterRead⟩ := afterWrite
    cases answer with
    | error e =>
      obtain ⟨rfl, rfl⟩ := runsOn_pure.mp afterRead
      obtain ⟨rfl, rfl⟩ := read
      refine .inr ⟨by rintro ⟨⟩, .inr ⟨e, rfl, answered.symm.imp_left fun refused => ?_⟩⟩
      exact refused.1.quiet
    | ok answer =>
      obtain ⟨rfl, rfl⟩ := read
      have isReply : ∃ rc fields, IsReply rc fields m'.reply := by
        rcases answered with ⟨fields, -, isReply, -⟩ | ⟨⟨rc, reply, -, isReply, rfl⟩, -⟩
        · exact ⟨0, fields, isReply⟩
        · exact ⟨rc, [], isReply⟩
      obtain ⟨rc, fields, isReply⟩ := isReply
      have long := isReply.length
      rw [Fallible.cont_ok] at afterRead
      dsimp only at afterRead
      rw [isReply.take, if_neg (by omega), isReply.responseCode] at afterRead
      obtain ⟨rfl, rfl⟩ := runsOn_pure.mp afterRead
      rcases answered with ⟨fields', did⟩ | ⟨refuses, unable⟩
      · have accepted := did.2.1.responseCode
        rw [isReply.responseCode, Option.some.injEq] at accepted
        subst accepted
        exact .inl ⟨fields', did, rfl⟩
      · have quiet := refuses.quiet
        obtain ⟨rc', reply, nonzero, isReply', rfl⟩ := refuses
        have refused := isReply'.responseCode
        rw [isReply.responseCode, Option.some.injEq] at refused
        subst refused
        exact .inr ⟨unable, .inl ⟨rc, nonzero, quiet, isReply.responseCode, rfl⟩⟩

/-- One exchange with the device: done, refused or, on an unreliable one, failed. -/
theorem exchange_bind_on {α : Type} {next : List UInt8 × UInt32 → Io α}
    {out : Outcome Sys (Except Err α)} (decoded : decode cmd = some request)
    (run : RunsOn (device reliable) (exchange cmd >>= next).run c c' out) :
    (∃ fields m, c.Did request fields m ∧
      RunsOn (device reliable) (next (m.reply, 0)).run m c' out) ∨
    ((reliable = true → ¬c.tpm.Can request) ∧
      ((∃ rc m, rc ≠ 0 ∧ c.Quiet m ∧ getU32 m.reply 6 = some rc ∧
        RunsOn (device reliable) (next (m.reply, rc)).run m c' out) ∨
      ∃ e, out = .done (.error e) ∧ (c.Quiet c' ∨ ∃ fields, c.Did request fields c'))) := by
  rcases Fallible.runsOn_fallible_bind.mp run with
    ⟨a, m, first, rest⟩ | ⟨e, rfl, first⟩ | ⟨stop, rfl, first⟩
  · rcases exchange_on decoded first with
      ⟨fields, did, ⟨⟩⟩ | ⟨unable, ⟨rc, nonzero, quiet, read, ⟨⟩⟩ | ⟨e, ⟨⟩, -⟩⟩
    · exact .inl ⟨fields, m, did, rest⟩
    · exact .inr ⟨unable, .inl ⟨rc, m, nonzero, quiet, read, rest⟩⟩
  · rcases exchange_on decoded first with
      ⟨fields, did, ⟨⟩⟩ | ⟨unable, ⟨rc, nonzero, quiet, read, ⟨⟩⟩ | ⟨e, ⟨⟩, reached⟩⟩
    exact .inr ⟨unable, .inr ⟨e, rfl, reached⟩⟩
  · rcases exchange_on decoded first with
      ⟨fields, did, ⟨⟩⟩ | ⟨unable, ⟨rc, nonzero, quiet, read, ⟨⟩⟩ | ⟨e, ⟨⟩, reached⟩⟩

/-- The reset of the lockout keeps the objects. -/
theorem daLockResetRaw_on {out : Outcome Sys (Except Err Unit)}
    (run : RunsOn (device reliable) daLockResetRaw.run c c' out) :
    c.Quiet c' ∧ out = .done (.ok ()) := by
  obtain ⟨reset, built, -⟩ := builds_daLockReset
  rw [daLockResetRaw, built, ofChecked, pure_bind, Fallible.runsOn_attempt_call_bind] at run
  obtain ⟨written, m, wrote, afterWrite⟩ := run
  have decoded := decode_daLockReset built
  have reached : c.Quiet m := by
    have executes : c.Executes reset m → c.Quiet m := fun executes => by
      obtain ⟨fields, did⟩ := (Chip.executes_iff decoded).mp executes
      exact did.quiet_of_reset
    cases written with
    | error e =>
      rcases wrote.2 with rfl | executed
      · exact .refl _
      · exact executes executed
    | ok _ => exact wrote.elim executes fun refused => refused.1.quiet
  rw [Fallible.runsOn_attempt_call_bind] at afterWrite
  obtain ⟨answer, m', read, afterRead⟩ := afterWrite
  obtain ⟨rfl, rfl⟩ := runsOn_pure.mp afterRead
  have same : c' = m := by
    cases answer with
    | error e => exact read.2
    | ok answer => exact read.2
  exact ⟨same ▸ reached, rfl⟩

end

/-! ## Operations -/

/-- What comes of an operation that asks for one request and reads `reads` off its reply. -/
def Operated {α : Type} (reliable : Bool) (c : Chip T) (request : Request)
    (reads : List Field → α → Prop) (c' : Chip T) : Outcome Sys (Except Err α) → Prop
  | .done (.ok a) => ∃ fields, c.Done request fields c' ∧ reads fields a
  | .done (.error _) => (reliable = true → ¬c.tpm.Can request) ∧
      (c.Quiet c' ∨ ∃ fields, c.Done request fields c')
  | .halted _ => False

section

variable {c c' : Chip T} {cmd : List UInt8} {request : Request}

theorem Operated.of_quiet {α : Type} {m : Chip T} {reads : List Field → α → Prop}
    {out : Outcome Sys (Except Err α)} (quiet : c.Quiet m)
    (operated : Operated reliable m request reads c' out) :
    Operated reliable c request reads c' out := by
  rcases out with (e | a) | stop
  · obtain ⟨unable, left⟩ := operated
    rw [quiet.1] at unable
    refine ⟨unable, left.imp quiet.trans ?_⟩
    rintro ⟨fields, done⟩
    exact ⟨fields, done.of_quiet quiet⟩
  · obtain ⟨fields, done, read⟩ := operated
    exact ⟨fields, done.of_quiet quiet, read⟩
  · exact operated

/-- What comes of a transaction, which also returns the last refusal. -/
def Transacts (reliable : Bool) (c : Chip T) (request : Request) (c' : Chip T)
    (out : Outcome Sys (Except Err (List UInt8))) : Prop :=
  Operated reliable c request (IsReply 0) c' out ∨
    ((reliable = true → ¬c.tpm.Can request) ∧ c.Quiet c' ∧
      ∃ rsp rc, rc ≠ 0 ∧ getU32 rsp 6 = some rc ∧ out = .done (.ok rsp))

theorem Transacts.of_quiet {m : Chip T} {out : Outcome Sys (Except Err (List UInt8))}
    (quiet : c.Quiet m) (transacts : Transacts reliable m request c' out) :
    Transacts reliable c request c' out := by
  rcases transacts with operated | ⟨unable, still, refused⟩
  · exact .inl (operated.of_quiet quiet)
  · rw [quiet.1] at unable
    exact .inr ⟨unable, quiet.trans still, refused⟩

/-- The request is done once, or not at all. -/
theorem transactLoop_on {out : Outcome Sys (Except Err (List UInt8))}
    (decoded : decode cmd = some request) (left : Nat)
    (run : RunsOn (device reliable) (transactLoop cmd left).run c c' out) :
    Transacts reliable c request c' out := by
  induction left generalizing c with
  | zero =>
    rcases exchange_bind_on decoded run with
      ⟨fields, m, did, rest⟩ | ⟨unable, ⟨rc, m, nonzero, quiet, read, rest⟩ | ⟨e, rfl, reached⟩⟩
    · obtain ⟨rfl, rfl⟩ := runsOn_pure.mp rest
      exact .inl ⟨fields, did.done, did.2.1⟩
    · obtain ⟨rfl, rfl⟩ := runsOn_pure.mp rest
      exact .inr ⟨unable, quiet, _, rc, nonzero, read, rfl⟩
    · exact .inl ⟨unable, reached.imp_right fun ⟨fields, did⟩ => ⟨fields, did.done⟩⟩
  | succ left ih =>
    rcases exchange_bind_on decoded run with
      ⟨fields, m, did, rest⟩ | ⟨unable, ⟨rc, m, nonzero, quiet, read, rest⟩ | ⟨e, rfl, reached⟩⟩
    · have accepted : ¬((0 : UInt32) = rcRetry ∨ (0 : UInt32) = rcYielded ∨
          (0 : UInt32) = rcLockout) := by decide
      dsimp only at rest
      rw [if_neg accepted] at rest
      obtain ⟨rfl, rfl⟩ := runsOn_pure.mp rest
      exact .inl ⟨fields, did.done, did.2.1⟩
    · have again : ∀ m', c.Quiet m' → RunsOn (device reliable)
          (do sleep 50; transactLoop cmd left : Io (List UInt8)).run m' c' out →
            Transacts reliable c request c' out := by
        intro m' quiet' rest
        obtain ⟨_, m'', rfl, afterSleep⟩ := Fallible.runsOn_ask_bind.mp rest
        exact (ih afterSleep).of_quiet quiet'
      dsimp only at rest
      split at rest
      · split at rest
        · rcases Fallible.runsOn_fallible_bind.mp rest with
            ⟨_, m', reset, rest⟩ | ⟨e, rfl, reset⟩ | ⟨stop, rfl, reset⟩
          · exact again m' (quiet.trans (daLockResetRaw_on reset).1) rest
          · cases (daLockResetRaw_on reset).2
          · cases (daLockResetRaw_on reset).2
        · exact again m quiet rest
      · obtain ⟨rfl, rfl⟩ := runsOn_pure.mp rest
        exact .inr ⟨unable, quiet, _, rc, nonzero, read, rfl⟩
    · exact .inl ⟨unable, reached.imp_right fun ⟨fields, did⟩ => ⟨fields, did.done⟩⟩

/-- The builder makes the bytes of this request. -/
def Carries (cmd : Checked (List UInt8)) (request : Request) : Prop :=
  ∃ bytes, cmd = some bytes ∧ decode bytes = some request

theorem Builds.carries {cmd : Checked (List UInt8)} {code : UInt32} (builds : Builds cmd code)
    (decodes : ∀ {bytes}, cmd = some bytes → decode bytes = some request) :
    Carries cmd request := by
  obtain ⟨bytes, built, -⟩ := builds
  exact ⟨bytes, built, decodes built⟩

/-- The same for a request with its check of the reply. -/
theorem request_on {cmd : Checked (List UInt8)} {cmdName : String}
    {out : Outcome Sys (Except Err (List UInt8))} (carries : Carries cmd request)
    (run : RunsOn (device reliable) (Tpm2.request cmd cmdName).run c c' out) :
    Operated reliable c request (IsReply 0) c' out := by
  obtain ⟨bytes, rfl, decoded⟩ := carries
  rw [Tpm2.request, ofChecked, pure_bind, tpmTransact] at run
  rcases Fallible.runsOn_fallible_bind.mp run with
    ⟨rsp, m, first, rest⟩ | ⟨e, rfl, first⟩ | ⟨stop, rfl, first⟩
  · rcases transactLoop_on decoded maxRetries first with
      ⟨fields, done, isReply⟩ | ⟨unable, quiet, rsp', rc, nonzero, read, ⟨⟩⟩
    · rw [checkResponse, isReply.responseCode, ofChecked, pure_bind,
        if_neg (not_not.mpr rfl)] at rest
      obtain ⟨rfl, rfl⟩ := runsOn_pure.mp rest
      exact ⟨fields, done, isReply⟩
    · rw [checkResponse, read, ofChecked, pure_bind, if_pos nonzero] at rest
      have failed : ∃ e, c' = m ∧ out = .done (.error e) := by
        generalize responseCodeReason rc = reason at rest
        cases reason <;> exact ⟨_, runsOn_pure.mp rest⟩
      obtain ⟨e, rfl, rfl⟩ := failed
      exact ⟨unable, .inl quiet⟩
  · refine (transactLoop_on decoded maxRetries first).elim id ?_
    rintro ⟨-, -, -, -, -, -, ⟨⟩⟩
  · refine (transactLoop_on decoded maxRetries first).elim id ?_
    rintro ⟨-, -, -, -, -, -, ⟨⟩⟩

/-- An operation that asks for a request and reads its reply. -/
theorem operated_of_request {α : Type} {cmd : Checked (List UInt8)} {cmdName : String}
    (read : List UInt8 → Checked α) {reads : List Field → α → Prop}
    {out : Outcome Sys (Except Err α)} (carries : Carries cmd request)
    (readable : ∀ {s s' : TpmState T} {fields rsp}, Performs s request s' fields →
      IsReply 0 fields rsp → ∃ a, read rsp = some a ∧ reads fields a)
    (run : RunsOn (device reliable) (do
      let rsp ← Tpm2.request cmd cmdName
      ofChecked (read rsp) : Io α).run c c' out) :
    Operated reliable c request reads c' out := by
  rcases Fallible.runsOn_fallible_bind.mp run with
    ⟨rsp, m, first, rest⟩ | ⟨e, rfl, first⟩ | ⟨stop, rfl, first⟩
  · obtain ⟨fields, done, isReply⟩ := request_on carries first
    obtain ⟨a, value, isRead⟩ := readable done.performs isReply
    rw [value] at rest
    obtain ⟨rfl, rfl⟩ := runsOn_pure.mp rest
    exact ⟨fields, done, isRead⟩
  · exact request_on carries first
  · exact request_on carries first

/-- An operation of whose reply nothing is read. -/
theorem operated_of_request_unit {cmd : Checked (List UInt8)} {cmdName : String}
    {out : Outcome Sys (Except Err Unit)} (carries : Carries cmd request)
    (run : RunsOn (device reliable) (do
      let _ ← Tpm2.request cmd cmdName : Io Unit).run c c' out) :
    Operated reliable c request (fun _ _ => True) c' out :=
  operated_of_request (fun _ => some ()) carries (fun _ _ => ⟨(), rfl, trivial⟩) run

end

section

variable {c c' : Chip T} {handle session parent : UInt32}

theorem startPolicySession_on {out : Outcome Sys (Except Err UInt32)}
    (run : RunsOn (device reliable) startPolicySession.run c c' out) :
    Operated reliable c (.startAuthSession sePolicy) (fun fields handle => fields = [.u32 handle])
      c' out := by
  refine operated_of_request _ ((builds_startAuthSession _).carries decode_startAuthSession) ?_ run
  rintro s s' fields rsp ⟨handle⟩ isReply
  exact ⟨handle, isReply.getU32 [] rfl, rfl⟩

theorem policyPcr_on {out : Outcome Sys (Except Err Unit)}
    (run : RunsOn (device reliable) (policyPcr session).run c c' out) :
    Operated reliable c (.policyPcr session) (fun _ _ => True) c' out :=
  operated_of_request_unit ((builds_policyPcr _).carries decode_policyPcr) run

theorem policyGetDigest_on {out : Outcome Sys (Except Err (List UInt8))}
    (run : RunsOn (device reliable) (policyGetDigest session).run c c' out) :
    Operated reliable c (.policyGetDigest session)
      (fun fields digest => ∃ size, fields = [.u16 size, .bytes digest]) c' out := by
  simp only [policyGetDigest, ofChecked_bind] at run
  refine operated_of_request _ ((builds_policyGetDigest _).carries decode_policyGetDigest) ?_ run
  intro s s' fields rsp performs isReply
  cases performs with
  | @policyGetDigest _ values size opened size_eq =>
    refine ⟨T.policyDigest values, ?_, size, rfl⟩
    have sizeRead : getU16 rsp 10 = some size := isReply.getU16 [] rfl
    rw [sizeRead, Option.bind_some, size_eq]
    exact isReply.slice [.u16 size] rfl

theorem unsealItem_on {out : Outcome Sys (Except Err (List UInt8))}
    (run : RunsOn (device reliable) (unsealItem handle session).run c c' out) :
    Operated reliable c (.unsealItem handle session)
      (fun fields data => ∃ paramSize size, fields = [.u32 paramSize, .u16 size, .bytes data])
      c' out := by
  simp only [unsealItem, ofChecked_bind] at run
  refine operated_of_request _ ((builds_unseal _ _).carries decode_unsealItem) ?_ run
  intro s s' fields rsp performs isReply
  cases performs with
  | @unsealItem _ _ data values size paramSize stored opened current size_eq =>
    refine ⟨data, ?_, paramSize, size, rfl⟩
    have sizeRead : getU16 rsp 14 = some size := isReply.getU16 [.u32 paramSize] rfl
    rw [sizeRead, Option.bind_some, size_eq]
    exact isReply.slice [.u32 paramSize, .u16 size] rfl

theorem flushContext_on {out : Outcome Sys (Except Err Unit)}
    (run : RunsOn (device reliable) (flushContext handle).run c c' out) :
    Operated reliable c (.flushContext handle) (fun _ _ => True) c' out :=
  operated_of_request_unit ((builds_flushContext _).carries decode_flushContext) run

theorem createPrimary_on {out : Outcome Sys (Except Err UInt32)}
    (run : RunsOn (device reliable) createPrimary.run c c' out) :
    Operated reliable c .createPrimary (fun fields handle => fields = [.u32 handle]) c' out := by
  refine operated_of_request _ (builds_createPrimary.carries decode_createPrimary) ?_ run
  intro s s' fields rsp performs isReply
  cases performs with
  | createPrimary => exact ⟨_, isReply.getU32 [] rfl, rfl⟩

theorem evictControl_on {object target : UInt32} {out : Outcome Sys (Except Err Unit)}
    (run : RunsOn (device reliable) (evictControl object target).run c c' out) :
    Operated reliable c (.evictControl object target) (fun _ _ => True) c' out :=
  operated_of_request_unit ((builds_evictControl _ _).carries decode_evictControl) run

theorem dictionaryAttackLockReset_on {out : Outcome Sys (Except Err Unit)}
    (run : RunsOn (device reliable) dictionaryAttackLockReset.run c c' out) :
    Operated reliable c .daLockReset (fun _ _ => True) c' out :=
  operated_of_request_unit (builds_daLockReset.carries decode_daLockReset) run

/-- The areas in the reply to `TPM2_Create`, each with its size in front. -/
def createdAreas (rsp : List UInt8) : Checked (List UInt8 × List UInt8) := do
  let privSize ← getU16 rsp 14
  let privBlob ← slice rsp 14 (14 + (2 + privSize.toNat))
  let roff := 14 + (2 + privSize.toNat)
  let pubSize ← getU16 rsp roff
  let pubBlob ← slice rsp roff (roff + (2 + pubSize.toNat))
  return (privBlob, pubBlob)

/-- `create` reads both areas from one reply. -/
theorem create_eq (parent : UInt32) (data policy : List UInt8) :
    create parent data policy = (do
      let rsp ← request (createCmd parent data policy) "Create"
      ofChecked (createdAreas rsp)) := by
  have pushed : ∀ {α β : Type} (a : Checked α) (f : α → Checked β),
      ofChecked (a >>= f) = ofChecked a >>= fun x => ofChecked (f x) :=
    fun a f => (ofChecked_bind a f).symm
  simp only [create, createdAreas, pushed]
  rfl

theorem createdAreas_encode {tag : UInt16} {size rc paramSize : UInt32} {privSize pubSize : UInt16}
    {privArea pubArea : List UInt8} (privSize_eq : privSize.toNat = privArea.length)
    (pubSize_eq : pubSize.toNat = pubArea.length) (rest : List UInt8) :
    createdAreas (encode (header tag size rc ++ [.u32 paramSize, .u16 privSize, .bytes privArea,
        .u16 pubSize, .bytes pubArea]) ++ rest) =
      some (encode [.u16 privSize, .bytes privArea], encode [.u16 pubSize, .bytes pubArea]) := by
  generalize reply_eq : encode (header tag size rc ++ [.u32 paramSize, .u16 privSize,
    .bytes privArea, .u16 pubSize, .bytes pubArea]) ++ rest = reply
  have pubOffset : ((header tag size rc ++ ([.u32 paramSize, .u16 privSize, .bytes privArea] :
      List Field)).map Field.size).sum = 14 + (2 + privArea.length) := by
    simp only [header, List.cons_append, List.nil_append, List.map_cons, List.map_nil,
      List.sum_cons, List.sum_nil, Field.size]
    omega
  have privSizeRead : getU16 reply 14 = some privSize := by
    rw [← reply_eq]
    exact getU16_encode (header tag size rc ++ [.u32 paramSize]) rfl
  have pubSizeRead : getU16 reply (14 + (2 + privArea.length)) = some pubSize := by
    rw [← reply_eq]
    exact getU16_encode (header tag size rc ++ [.u32 paramSize, .u16 privSize, .bytes privArea])
      pubOffset
  -- an area is read together with its size, as one field
  have privRead : slice reply 14 (14 + (2 + privArea.length)) =
      some (encode [.u16 privSize, .bytes privArea]) := by
    have read := @slice_encode (header tag size rc ++ [.u32 paramSize])
      [.u16 pubSize, .bytes pubArea] rest 14 (encode [.u16 privSize, .bytes privArea]) rfl
    rw [length_encode] at read
    rw [← reply_eq]
    simpa [Field.encode, Field.size] using read
  have pubRead : slice reply (14 + (2 + privArea.length))
      (14 + (2 + privArea.length) + (2 + pubArea.length)) =
      some (encode [.u16 pubSize, .bytes pubArea]) := by
    have read := @slice_encode
      (header tag size rc ++ [.u32 paramSize, .u16 privSize, .bytes privArea]) [] rest
      (14 + (2 + privArea.length)) (encode [.u16 pubSize, .bytes pubArea]) pubOffset
    rw [length_encode] at read
    rw [← reply_eq]
    simpa [Field.encode, Field.size] using read
  simp only [createdAreas, privSizeRead, pubSizeRead, privSize_eq, pubSize_eq, privRead, pubRead,
    Option.bind_eq_bind, Option.bind_some, Option.pure_def]

theorem createdAreas_eq {rsp privArea pubArea : List UInt8} {paramSize : UInt32}
    {privSize pubSize : UInt16} (privSize_eq : privSize.toNat = privArea.length)
    (pubSize_eq : pubSize.toNat = pubArea.length)
    (isReply : IsReply 0 [.u32 paramSize, .u16 privSize, .bytes privArea, .u16 pubSize,
      .bytes pubArea] rsp) :
    createdAreas rsp =
      some (encode [.u16 privSize, .bytes privArea], encode [.u16 pubSize, .bytes pubArea]) := by
  obtain ⟨tag, size, rest, rfl, -, -⟩ := isReply
  exact createdAreas_encode privSize_eq pubSize_eq rest

theorem create_on {data policy : List UInt8}
    {out : Outcome Sys (Except Err (List UInt8 × List UInt8))}
    (run : RunsOn (device reliable) (create parent data policy).run c c' out) :
    Operated reliable c (.create parent data policy)
        (fun fields areas => ∃ paramSize privSize privArea pubSize pubArea,
          fields = [.u32 paramSize, .u16 privSize, .bytes privArea, .u16 pubSize, .bytes pubArea] ∧
          areas = (encode [.u16 privSize, .bytes privArea], encode [.u16 pubSize, .bytes pubArea]))
        c' out ∨
      (createCmd parent data policy = none ∧ c' = c ∧ out = .halted .panic) := by
  rw [create_eq] at run
  cases built : createCmd parent data policy with
  | none =>
    rw [built] at run
    obtain ⟨rfl, rfl⟩ := runsOn_halt.mp run
    exact .inr ⟨rfl, rfl, rfl⟩
  | some bytes =>
    refine .inl (operated_of_request createdAreas ⟨bytes, built, decode_create built⟩ ?_ run)
    intro s s' fields rsp performs isReply
    cases performs with
    | create paramSize under small wrapped privSize_eq pubSize_eq =>
      exact ⟨_, createdAreas_eq privSize_eq pubSize_eq isReply, _, _, _, _, _, rfl, rfl⟩

theorem load_on {privSize pubSize : UInt16} {privArea pubArea : List UInt8}
    (privSize_eq : privSize.toNat = privArea.length) (pubSize_eq : pubSize.toNat = pubArea.length)
    {out : Outcome Sys (Except Err UInt32)}
    (run : RunsOn (device reliable) (load parent (encode [.u16 privSize, .bytes privArea])
      (encode [.u16 pubSize, .bytes pubArea])).run c c' out) :
    Operated reliable c (.load parent privArea pubArea)
      (fun fields handle => fields = [.u32 handle])
      c' out := by
  have carries : Carries (loadCmd parent (encode [.u16 privSize, .bytes privArea])
      (encode [.u16 pubSize, .bytes pubArea])) (.load parent privArea pubArea) := by
    have built := builds_load parent (encode [.u16 privSize, .bytes privArea])
      (encode [.u16 pubSize, .bytes pubArea]) (by
        have privSmall := privSize.toNat_lt
        have pubSmall := pubSize.toNat_lt
        simp only [length_encode, List.map_cons, List.map_nil, List.sum_cons, List.sum_nil,
          Field.size]
        omega)
    exact built.carries (decode_load privSize_eq pubSize_eq)
  refine operated_of_request _ carries ?_ run
  intro s s' fields rsp performs isReply
  cases performs with
  | load => exact ⟨_, isReply.getU32 [] rfl, rfl⟩

theorem Chip.Done.quiet_of_reset {fields : List Field} (done : c.Done .daLockReset fields c') :
    c.Quiet c' := by
  obtain ⟨m, quiet, did⟩ := done
  exact quiet.trans did.quiet_of_reset

/-- `try_evict_persistent` never fails: it has evicted the object, or it has done nothing. -/
theorem tryEvictPersistent_on {out : Outcome Sys (Except Err Unit)}
    (run : RunsOn (device reliable) (tryEvictPersistent handle).run c c' out) :
    out = .done (.ok ()) ∧
      (((reliable = true → ¬c.tpm.Can (.evictControl handle handle)) ∧ c.Quiet c') ∨
        ∃ fields m, c.Done (.evictControl handle handle) fields m ∧ m.Quiet c') := by
  rw [tryEvictPersistent] at run
  rcases Fallible.runsOn_attempt_bind.mp run with ⟨r, m, first, rest⟩ | ⟨stop, -, first⟩
  · have evicted := evictControl_on first
    cases r with
    | ok _ =>
      obtain ⟨rfl, rfl⟩ := runsOn_pure.mp rest
      obtain ⟨fields, done, -⟩ := evicted
      exact ⟨rfl, .inr ⟨fields, _, done, .refl _⟩⟩
    | error e =>
      obtain ⟨unable, left⟩ := evicted
      have reset : out = .done (.ok ()) ∧ m.Quiet c' := by
        rcases Fallible.runsOn_attempt_bind.mp rest with ⟨r, m', reset, last⟩ | ⟨stop, -, reset⟩
        · obtain ⟨rfl, rfl⟩ := runsOn_pure.mp last
          have operated := dictionaryAttackLockReset_on reset
          refine ⟨rfl, ?_⟩
          cases r with
          | ok _ =>
            obtain ⟨fields, done, -⟩ := operated
            exact done.quiet_of_reset
          | error e => exact operated.2.elim id fun ⟨fields, done⟩ => done.quiet_of_reset
        · exact (dictionaryAttackLockReset_on reset).elim
      refine ⟨reset.1, left.imp (fun quiet => ⟨unable, quiet.trans reset.2⟩) ?_⟩
      rintro ⟨fields, done⟩
      exact ⟨fields, m, done, reset.2⟩
  · exact (evictControl_on first).elim

end

/-! ## Sequences of operations -/

section

variable {α β : Type} {c c' : Chip T} {request : Request} {reads : List Field → α → Prop}

theorem openDevice_bind {next : Unit → Io β} {out : Outcome Sys (Except Err β)}
    (run : RunsOn (device reliable) (openDevice >>= next).run c c' out) :
    RunsOn (device reliable) (next ()).run c c' out ∨
      (reliable = false ∧ c' = c ∧ ∃ e, out = .done (.error e)) := by
  rw [openDevice, bind_assoc, Fallible.runsOn_attempt_call_bind] at run
  obtain ⟨opened, m, step, rest⟩ := run
  cases opened with
  | ok _ =>
    cases step
    exact .inl rest
  | error e =>
    obtain ⟨rfl, rfl⟩ := runsOn_pure.mp rest
    exact .inr ⟨step.1, step.2, _, rfl⟩

/-- What follows an operation runs on the TPM that it leaves. -/
theorem operated_bind {x : Io α} {next : α → Io β} {out : Outcome Sys (Except Err β)}
    (operates : ∀ {m out}, RunsOn (device reliable) x.run c m out →
      Operated reliable c request reads m out)
    (run : RunsOn (device reliable) (x >>= next).run c c' out) :
    (∃ fields a m, c.Done request fields m ∧ reads fields a ∧
      RunsOn (device reliable) (next a).run m c' out) ∨
    ((reliable = true → ¬c.tpm.Can request) ∧ (c.Quiet c' ∨ ∃ fields, c.Done request fields c') ∧
      ∃ e, out = .done (.error e)) := by
  rcases Fallible.runsOn_fallible_bind.mp run with
    ⟨a, m, first, rest⟩ | ⟨e, rfl, first⟩ | ⟨stop, rfl, first⟩
  · obtain ⟨fields, done, read⟩ := operates first
    exact .inl ⟨fields, a, m, done, read, rest⟩
  · obtain ⟨unable, left⟩ := operates first
    exact .inr ⟨unable, left, e, rfl⟩
  · exact (operates first).elim

end

end Initos.Tpm2
