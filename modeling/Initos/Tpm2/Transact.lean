import Initos.Tpm2.Exchange

/-!
# The retry loop of `tpm_transact`

The device answers every command it is sent, and the loop reads each answer before it
writes again. A conversation with it is therefore one pass per attempt: the command and its
reply, the reset and its reply where the TPM reports a lockout, a pause. `transactAttempts`
is the loop as `src/tpm2.rs` writes it, with the `unreachable!()` behind it.
-/

namespace Initos.Tpm2

open Interact Bytes Marshal

/-- `tpm_transact` (`src/tpm2.rs:436-462`), the attempts in the order of its `for`. -/
def transactAttempts (cmd : List UInt8) : (attempts : List Nat) → Io (List UInt8)
  | [] => Fallible.halt .panic
  | attempt :: attempts => do
    let (rsp, rc) ← exchange cmd
    if (rc = rcRetry ∨ rc = rcYielded ∨ rc = rcLockout) ∧ attempt < maxRetries then
      if rc = rcLockout then daLockResetRaw
      sleep 50
      transactAttempts cmd attempts
    else return rsp

theorem transactAttempts_range' (cmd : List UInt8) (left : Nat) (few : left ≤ maxRetries) :
    transactAttempts cmd (List.range' (maxRetries - left) (left + 1)) = transactLoop cmd left := by
  induction left with
  | zero =>
    have last (rc : UInt32) : ¬((rc = rcRetry ∨ rc = rcYielded ∨ rc = rcLockout) ∧
        maxRetries - 0 < maxRetries) := by omega
    simp only [List.range', transactAttempts, transactLoop, if_neg (last _)]
  | succ left ih =>
    have early : maxRetries - (left + 1) < maxRetries := by omega
    have next : maxRetries - (left + 1) + 1 = maxRetries - left := by omega
    rw [List.range', next, transactAttempts, transactLoop, ih (by omega)]
    simp only [and_iff_left early]

/-- The two forms of the loop are one. -/
theorem transactAttempts_eq (cmd : List UInt8) :
    transactAttempts cmd (List.range (maxRetries + 1)) = tpmTransact cmd := by
  rw [List.range_eq_range']
  exact transactAttempts_range' cmd maxRetries (Nat.le_refl _)

/-! ## Conversations -/

/-- The bytes of `da_lock_reset_raw`. -/
def resetBytes : List UInt8 := daLockResetCmd.getD []

theorem daLockResetCmd_eq : daLockResetCmd = some resetBytes := by
  obtain ⟨cmd, built, -⟩ := builds_daLockReset
  rw [resetBytes, built]
  rfl

/-- A reply after which the command is sent again, while attempts are left. -/
def Again (reply : List UInt8) : Prop :=
  responseCode reply = some rcRetry ∨ responseCode reply = some rcYielded ∨
    responseCode reply = some rcLockout

instance (reply : List UInt8) : Decidable (Again reply) := by unfold Again; infer_instance

/-- A command and its reply. -/
def turn (cmd reply : List UInt8) : History Sys :=
  [⟨.tpmWrite cmd, .ok ()⟩, ⟨.tpmRead, .ok reply⟩]

/-- What comes between a reply and the next attempt: the lockout is reset, if there is one, and
    what the TPM says to that is `reset`. -/
def interlude (reply reset : List UInt8) : History Sys :=
  (if responseCode reply = some rcLockout then turn resetBytes reset else []) ++
    [⟨.sleep 50, ()⟩]

/-- An attempt that is followed by another. -/
def pass (cmd reply reset : List UInt8) : History Sys := turn cmd reply ++ interlude reply reset

/-- The conversation in which attempt `n` is the last one. -/
def conversation (cmd : List UInt8) (replies resets : Nat → List UInt8) (n : Nat) : History Sys :=
  (List.range n).flatMap (fun k => pass cmd (replies k) (resets k)) ++ turn cmd (replies n)

/-- The first pass, and the others after it. -/
theorem conversation_succ (cmd : List UInt8) (replies resets : Nat → List UInt8) (n : Nat) :
    conversation cmd replies resets (n + 1) = pass cmd (replies 0) (resets 0) ++
      conversation cmd (fun k => replies (k + 1)) (fun k => resets (k + 1)) n := by
  simp [conversation, List.range_succ_eq_map, List.flatMap_map]

/-- What is returned for the last reply. -/
def returned (reply : List UInt8) : Outcome Sys (Except Err (List UInt8)) :=
  let rsp := reply.take rspBufSize
  if rsp.length < 10 then .done (.error (.msg s!"TPM response too short: {rsp.length} bytes"))
  else .done (.ok rsp)

/-- Attempt `n` is the first of `limit + 1` whose reply is final. -/
structure StopsAt (limit : Nat) (replies : Nat → List UInt8) (n : Nat) : Prop where
  le : n ≤ limit
  before : ∀ k < n, Again (replies k)
  last : n = limit ∨ ¬Again (replies n)

/-- The attempts come to an end. -/
theorem exists_stopsAt (limit : Nat) (replies : Nat → List UInt8) :
    ∃ n, StopsAt limit replies n := by
  induction limit generalizing replies with
  | zero => exact ⟨0, Nat.le_refl 0, nofun, .inl rfl⟩
  | succ limit ih =>
    by_cases again : Again (replies 0)
    · obtain ⟨n, stops⟩ := ih fun k => replies (k + 1)
      refine ⟨n + 1, Nat.succ_le_succ stops.le, fun k small => ?_, ?_⟩
      · cases k with
        | zero => exact again
        | succ k => exact stops.before k (Nat.lt_of_succ_lt_succ small)
      · exact stops.last.imp_left (congrArg Nat.succ)
    · exact ⟨0, Nat.zero_le _, nofun, .inr again⟩

/-- A device that answers: no write and no read fails. -/
def Responds (tr : History Sys) : Prop :=
  ∀ e ∈ tr, match e with
    | ⟨.tpmWrite _, r⟩ => r = Except.ok ()
    | ⟨.tpmRead, r⟩ => ∃ answer, r = Except.ok answer
    | _ => True

theorem responds_append (tr tr' : History Sys) :
    Responds (tr ++ tr') ↔ Responds tr ∧ Responds tr' :=
  List.forall_mem_append

/-! ## One pass -/

/-- What an exchange makes of a reply. -/
def exchanged (reply : List UInt8) : Except Err (List UInt8 × UInt32) :=
  let rsp := reply.take rspBufSize
  match responseCode reply with
  | none => .error (.msg s!"TPM response too short: {rsp.length} bytes")
  | some rc => .ok (rsp, rc)

theorem responseCode_eq_none_iff (reply : List UInt8) :
    responseCode reply = none ↔ (reply.take rspBufSize).length < 10 := by
  have some_iff := getU32_isSome_iff (reply.take rspBufSize) 6
  rw [responseCode, ← Option.not_isSome_iff_eq_none, some_iff]
  omega

section

variable {cmd : List UInt8} {tr : History Sys}

/-- An exchange with a device that responds. -/
theorem exchange_runs {out : Outcome Sys (Except Err (List UInt8 × UInt32))}
    (responds : Responds tr) :
    Runs (exchange cmd).run tr out ↔
      ∃ reply, tr = turn cmd reply ∧ out = .done (exchanged reply) := by
  have rest (reply : List UInt8) : (if (reply.take rspBufSize).length < 10 then
        throw (.msg s!"TPM response too short: {(reply.take rspBufSize).length} bytes")
      else do
        let rc ← ofChecked (getU32 (reply.take rspBufSize) 6)
        return (reply.take rspBufSize, rc) : Io (List UInt8 × UInt32)).run =
      Pure.pure (exchanged reply) := by
    have short_iff := responseCode_eq_none_iff reply
    rw [exchanged]
    cases code : responseCode reply with
    | none => rw [if_pos (short_iff.mp code)]; rfl
    | some rc =>
      rw [code] at short_iff
      rw [responseCode] at code
      rw [if_neg (fun short => Option.some_ne_none rc (short_iff.mpr short)), code]
      rfl
  constructor
  · intro runs
    obtain ⟨written, tr₁, rfl, reading⟩ := Fallible.runs_call_bind.mp runs
    obtain rfl : written = .ok () := responds _ List.mem_cons_self
    obtain ⟨answer, tr₂, rfl, ending⟩ := Fallible.runs_call_bind.mp reading
    obtain ⟨reply, rfl⟩ : ∃ reply, answer = .ok reply :=
      responds _ (List.mem_cons_of_mem _ List.mem_cons_self)
    rw [Fallible.cont_ok, rest, Fallible.runs_pure_iff] at ending
    obtain ⟨rfl, rfl⟩ := ending
    exact ⟨reply, rfl, rfl⟩
  · rintro ⟨reply, tr_eq, out_eq⟩
    refine Fallible.runs_call_bind.mpr ⟨.ok (), _, tr_eq, ?_⟩
    refine Fallible.runs_call_bind.mpr ⟨.ok reply, _, rfl, ?_⟩
    rw [Fallible.cont_ok, rest]
    exact Fallible.runs_pure_iff.mpr ⟨rfl, out_eq⟩

theorem daLockResetRaw_runs {out : Outcome Sys (Except Err Unit)} (responds : Responds tr) :
    Runs daLockResetRaw.run tr out ↔
      ∃ reset, tr = turn resetBytes reset ∧ out = .done (.ok ()) := by
  rw [daLockResetRaw, daLockResetCmd_eq, ofChecked, pure_bind]
  constructor
  · intro runs
    obtain ⟨written, tr₁, rfl, reading⟩ := Fallible.runs_attempt_call_bind.mp runs
    obtain rfl : written = .ok () := responds _ List.mem_cons_self
    obtain ⟨answer, tr₂, rfl, ending⟩ := Fallible.runs_attempt_call_bind.mp reading
    obtain ⟨reset, rfl⟩ : ∃ reset, answer = .ok reset :=
      responds _ (List.mem_cons_of_mem _ List.mem_cons_self)
    obtain ⟨rfl, rfl⟩ := Fallible.runs_pure_iff.mp ending
    exact ⟨reset, rfl, rfl⟩
  · rintro ⟨reset, tr_eq, out_eq⟩
    refine Fallible.runs_attempt_call_bind.mpr ⟨.ok (), _, tr_eq, ?_⟩
    refine Fallible.runs_attempt_call_bind.mpr ⟨.ok reset, _, rfl, ?_⟩
    exact Fallible.runs_pure_iff.mpr ⟨rfl, out_eq⟩

theorem responds_turn (cmd reply : List UInt8) : Responds (turn cmd reply) := by
  simp [Responds, turn]

theorem responds_pass (cmd reply reset : List UInt8) : Responds (pass cmd reply reset) := by
  have slept : Responds [⟨.sleep 50, ()⟩] := by simp [Responds]
  rw [pass, interlude, responds_append, responds_append]
  refine ⟨responds_turn _ _, ?_, slept⟩
  split
  · exact responds_turn _ _
  · exact nofun

variable {out : Outcome Sys (Except Err (List UInt8))}

/-- A part that is one turn of the conversation, and the rest. -/
theorem turn_bind_runs {α : Type} {x : Io α} {result : List UInt8 → Except Err α}
    (shape : ∀ {tr out}, Responds tr →
      (Runs x.run tr out ↔ ∃ reply, tr = turn cmd reply ∧ out = .done (result reply)))
    {f : α → Io (List UInt8)} (responds : Responds tr) :
    Runs (x >>= f).run tr out ↔
      ∃ reply tr', tr = turn cmd reply ++ tr' ∧ Runs (Fallible.cont f (result reply)) tr' out := by
  rw [Fallible.run_bind, runs_bind]
  constructor
  · rintro (⟨_, tr₁, tr₂, rfl, first, rest⟩ | ⟨stop, rfl, first⟩)
    · obtain ⟨reply, rfl, ⟨⟩⟩ := (shape ((responds_append _ _).mp responds).1).mp first
      exact ⟨reply, tr₂, rfl, rest⟩
    · obtain ⟨reply, rfl, ⟨⟩⟩ := (shape responds).mp first
  · intro ⟨reply, tr', tr_eq, rest⟩
    have first := (shape (responds_turn cmd reply)).mpr ⟨reply, rfl, rfl⟩
    exact .inl ⟨_, _, tr', tr_eq, first, rest⟩

/-- The answer to a reply, by its response code. -/
theorem returned_eq (reply : List UInt8) :
    returned reply = .done ((exchanged reply).map Prod.fst) := by
  have short_iff := responseCode_eq_none_iff reply
  rw [returned, exchanged]
  cases code : responseCode reply with
  | none => rw [if_pos (short_iff.mp code)]; rfl
  | some rc =>
    rw [code] at short_iff
    rw [if_neg fun short => nomatch short_iff.mpr short]
    rfl

/-- The last attempt. -/
theorem transactLoop_zero_runs (responds : Responds tr) :
    Runs (transactLoop cmd 0).run tr out ↔
      ∃ reply, tr = turn cmd reply ∧ out = returned reply := by
  have ending (reply : List UInt8) (tr' : History Sys) :
      Runs (Fallible.cont (fun x : List UInt8 × UInt32 => (pure x.1 : Io (List UInt8)))
        (exchanged reply)) tr' out ↔ tr' = [] ∧ out = returned reply := by
    rw [returned_eq]
    cases exchanged reply <;> exact Fallible.runs_pure_iff
  rw [transactLoop, turn_bind_runs exchange_runs responds]
  constructor
  · rintro ⟨reply, tr', tr_eq, rest⟩
    obtain ⟨rfl, out_eq⟩ := (ending reply tr').mp rest
    exact ⟨reply, by rw [tr_eq, List.append_nil], out_eq⟩
  · rintro ⟨reply, tr_eq, out_eq⟩
    exact ⟨reply, [], by rw [tr_eq, List.append_nil], (ending reply []).mpr ⟨rfl, out_eq⟩⟩

theorem interlude_runs {reply : List UInt8} {rc : UInt32} {next : Io (List UInt8)}
    (code : responseCode reply = some rc) (responds : Responds tr) :
    Runs (if rc = rcLockout then do daLockResetRaw; sleep 50; next
      else do sleep 50; next : Io (List UInt8)).run tr out ↔
      ∃ reset tr', tr = interlude reply reset ++ tr' ∧ Runs next.run tr' out := by
  have pause (tr : History Sys) : Runs (sleep 50 >>= fun _ => next).run tr out ↔
      ∃ tr', tr = ⟨.sleep 50, ()⟩ :: tr' ∧ Runs next.run tr' out :=
    Fallible.runs_ask_bind.trans ⟨fun ⟨_, rest⟩ => rest, fun rest => ⟨(), rest⟩⟩
  by_cases locked : rc = rcLockout
  · have between (reset : List UInt8) :
        interlude reply reset = turn resetBytes reset ++ [⟨.sleep 50, ()⟩] := by
      rw [interlude, if_pos (by rw [code, locked])]
    rw [if_pos locked, turn_bind_runs daLockResetRaw_runs responds]
    simp only [Fallible.cont_ok, pause, between, List.append_assoc, List.singleton_append]
    constructor
    · intro ⟨reset, _, tr_eq, tr', rest_eq, rest⟩
      exact ⟨reset, tr', by rw [tr_eq, rest_eq], rest⟩
    · intro ⟨reset, tr', tr_eq, rest⟩
      exact ⟨reset, _, tr_eq, tr', rfl, rest⟩
  · have between (reset : List UInt8) : interlude reply reset = [⟨.sleep 50, ()⟩] := by
      rw [interlude, if_neg (by rwa [code, Option.some.injEq])]
      rfl
    rw [if_neg locked, pause]
    simp only [between, List.singleton_append]
    exact ⟨fun rest => ⟨[], rest⟩, fun ⟨_, rest⟩ => rest⟩

/-- The loop with an attempt left: its first reply is final, or a pass comes first. -/
theorem transactLoop_succ_runs {left : Nat} (responds : Responds tr) :
    Runs (transactLoop cmd (left + 1)).run tr out ↔ ∃ reply,
      (¬Again reply ∧ tr = turn cmd reply ∧ out = returned reply) ∨
      (Again reply ∧ ∃ reset tr', tr = pass cmd reply reset ++ tr' ∧
        Runs (transactLoop cmd left).run tr' out) := by
  rw [transactLoop, turn_bind_runs exchange_runs responds]
  refine exists_congr fun reply => ?_
  rw [returned_eq, exchanged]
  cases code : responseCode reply with
  | none =>
    have final : ¬Again reply := by simp [Again, code]
    simp [final, Fallible.runs_pure_iff, Except.map]
  | some rc =>
    have again_iff : Again reply ↔ rc = rcRetry ∨ rc = rcYielded ∨ rc = rcLockout := by
      simp [Again, code]
    simp only [Fallible.cont_ok, ← again_iff]
    by_cases again : Again reply
    · simp only [again, if_true, not_true_eq_false, false_and, false_or, true_and, pass,
        List.append_assoc]
      constructor
      · rintro ⟨between, tr_eq, runs⟩
        rw [tr_eq, responds_append] at responds
        obtain ⟨reset, tr', rfl, rest⟩ := (interlude_runs code responds.2).mp runs
        exact ⟨reset, tr', tr_eq, rest⟩
      · rintro ⟨reset, tr', tr_eq, rest⟩
        rw [tr_eq, responds_append] at responds
        exact ⟨_, tr_eq, (interlude_runs code responds.2).mpr ⟨reset, tr', rfl, rest⟩⟩
    · simp [again, Fallible.runs_pure_iff, Except.map]

end

/-! ## All attempts -/

section

variable {cmd : List UInt8}

theorem responds_conversation (cmd : List UInt8) (replies resets : Nat → List UInt8) (n : Nat) :
    Responds (conversation cmd replies resets n) := by
  refine (responds_append _ _).mpr ⟨fun e inside => ?_, responds_turn _ _⟩
  obtain ⟨k, -, inPass⟩ := List.mem_flatMap.mp inside
  exact responds_pass _ _ _ e inPass

/-- The loop goes through the conversation up to the first final reply. -/
theorem transactLoop_conversation {left n : Nat} {replies : Nat → List UInt8}
    (resets : Nat → List UInt8) (stops : StopsAt left replies n) :
    Runs (transactLoop cmd left).run (conversation cmd replies resets n)
      (returned (replies n)) := by
  induction left generalizing n replies resets with
  | zero =>
    obtain rfl := Nat.le_zero.mp stops.le
    exact (transactLoop_zero_runs (responds_turn _ _)).mpr ⟨replies 0, rfl, rfl⟩
  | succ left ih =>
    refine (transactLoop_succ_runs (responds_conversation _ _ _ _)).mpr ⟨replies 0, ?_⟩
    cases n with
    | zero => exact .inl ⟨stops.last.resolve_left nofun, rfl, rfl⟩
    | succ n =>
      refine .inr ⟨stops.before 0 (Nat.succ_pos n), resets 0, _, conversation_succ _ _ _ _, ?_⟩
      refine ih (fun k => resets (k + 1)) ⟨Nat.le_of_succ_le_succ stops.le, ?_, ?_⟩
      · exact fun k small => stops.before (k + 1) (Nat.succ_lt_succ small)
      · exact stops.last.imp_left Nat.succ.inj

/-- Every run of the loop against a device that answers is such a conversation. -/
theorem exists_conversation {left : Nat} {tr : History Sys}
    {out : Outcome Sys (Except Err (List UInt8))} (runs : Runs (transactLoop cmd left).run tr out)
    (responds : Responds tr) :
    ∃ replies resets n, StopsAt left replies n ∧ tr = conversation cmd replies resets n ∧
      out = returned (replies n) := by
  induction left generalizing tr with
  | zero =>
    obtain ⟨reply, tr_eq, out_eq⟩ := (transactLoop_zero_runs responds).mp runs
    exact ⟨fun _ => reply, fun _ => [], 0, ⟨Nat.le_refl 0, nofun, .inl rfl⟩, tr_eq, out_eq⟩
  | succ left ih =>
    obtain ⟨reply, ⟨final, tr_eq, out_eq⟩ | ⟨again, reset, tr', rfl, rest⟩⟩ :=
      (transactLoop_succ_runs responds).mp runs
    · exact ⟨fun _ => reply, fun _ => [], 0, ⟨Nat.zero_le _, nofun, .inr final⟩, tr_eq, out_eq⟩
    · obtain ⟨replies, resets, n, stops, rfl, rfl⟩ := ih rest ((responds_append _ _).mp responds).2
      refine ⟨fun k => k.casesOn reply replies, fun k => k.casesOn reset resets, n + 1,
        ⟨Nat.succ_le_succ stops.le, fun k small => ?_, ?_⟩, ?_, rfl⟩
      · cases k with
        | zero => exact again
        | succ k => exact stops.before k (Nat.lt_of_succ_lt_succ small)
      · exact stops.last.imp_left (congrArg Nat.succ)
      · rw [conversation_succ]
        rfl

/-- `tpm_transact` on a device that answers what it is sent, whatever the replies to the command
    and to the resets are: it sends the command up to the first reply that is final, at most
    21 times, with one reset after each lockout that it tries again, and returns that reply. There
    is no other conversation. -/
theorem transactAttempts_exact (cmd : List UInt8) :
    (∀ replies resets, ∃ n, StopsAt 20 replies n ∧
      Runs (transactAttempts cmd (List.range (maxRetries + 1))).run
        (conversation cmd replies resets n) (returned (replies n))) ∧
    ∀ tr out, Runs (transactAttempts cmd (List.range (maxRetries + 1))).run tr out →
      Responds tr → ∃ replies resets n, StopsAt 20 replies n ∧
        tr = conversation cmd replies resets n ∧ out = returned (replies n) := by
  rw [transactAttempts_eq]
  constructor
  · intro replies resets
    obtain ⟨n, stops⟩ := exists_stopsAt 20 replies
    exact ⟨n, stops, transactLoop_conversation resets stops⟩
  · exact fun tr out runs responds => exists_conversation runs responds

end

end Initos.Tpm2
