import Initos.Tpm2.Session
import Initos.Tpm2.Transact

/-!
# What the operations read of a reply

An operation of `src/tpm2.rs` ends with the reply it accepts: the response code is zero, and
nothing else is looked at before the fields are read. `acceptedReply` is that reply in a run,
and each operation returns just when it holds the fields that the operation reads.
-/

namespace Initos.Tpm2

open Interact Bytes Marshal

/-- What the last read gave, as far as the buffer takes it. -/
def lastReply (h : History Sys) : Option (List UInt8) :=
  h.getLast?.bind fun e => match e with
    | ⟨.tpmRead, .ok answer⟩ => some (answer.take rspBufSize)
    | _ => none

/-- The reply that a request has accepted. -/
def acceptedReply (h : History Sys) : Option (List UInt8) :=
  (lastReply h).filter fun rsp => getU32 rsp 6 = some 0

@[simp] theorem lastReply_append (h : History Sys) (e : Event Sys) :
    lastReply (h ++ [e]) = lastReply [e] := by
  simp [lastReply]

theorem length_of_acceptedReply {h : History Sys} {rsp : List UInt8}
    (accepted : acceptedReply h = some rsp) : rsp.length ≤ rspBufSize := by
  obtain ⟨last, -⟩ := Option.filter_eq_some_iff.mp accepted
  obtain ⟨e, -, read⟩ := Option.bind_eq_some_iff.mp last
  split at read
  next answer =>
    rw [← Option.some.inj read]
    exact List.length_take_le _ _
  next => cases read

section

variable {R : Rely Sys} {h : History Sys}

/-- An exchange ends with the reply that it returns. -/
theorem exchange_ends (cmd : List UInt8) :
    Prog.wp R (fun h' out => (∃ e, out = .done (.error e) ∧ acceptedReply h' = none) ∨
      ∃ rsp rc, out = .done (.ok (rsp, rc)) ∧ getU32 rsp 6 = some rc ∧ lastReply h' = some rsp)
      (exchange cmd).run h := by
  rw [exchange, Fallible.wp_call_bind]
  intro written _
  cases written with
  | error e => exact (Prog.wp_pure _ _ _ _).mpr (.inl ⟨e, rfl, by simp [acceptedReply, lastReply]⟩)
  | ok _ =>
    rw [Fallible.cont_ok, Fallible.wp_call_bind]
    intro answer _
    cases answer with
    | error e =>
      exact (Prog.wp_pure _ _ _ _).mpr (.inl ⟨e, rfl, by simp [acceptedReply, lastReply]⟩)
    | ok answer =>
      have last : lastReply (h ++ [⟨.tpmWrite cmd, .ok ()⟩] ++ [⟨.tpmRead, .ok answer⟩]) =
          some (answer.take rspBufSize) := lastReply_append _ _
      have code := responseCode_eq_none_iff answer
      rw [responseCode] at code
      rw [Fallible.cont_ok]
      dsimp only
      split
      next short =>
        refine (Prog.wp_pure _ _ _ _).mpr (.inl ⟨_, rfl, ?_⟩)
        rw [acceptedReply, last, Option.filter_some, code.mpr short]
        rfl
      next long =>
        cases read : getU32 (answer.take rspBufSize) 6 with
        | none => exact absurd (code.mp read) long
        | some rc => exact (Prog.wp_pure _ _ _ _).mpr (.inr ⟨_, rc, rfl, read, last⟩)

/-- The reset between two attempts leaves nothing behind that a request ends with. -/
theorem transactLoop_ends (cmd : List UInt8) (left : Nat) :
    Prog.wp R (fun h' out => (∃ e, out = .done (.error e) ∧ acceptedReply h' = none) ∨
      ∃ rsp rc, out = .done (.ok rsp) ∧ getU32 rsp 6 = some rc ∧ lastReply h' = some rsp)
      (transactLoop cmd left).run h := by
  induction left generalizing h with
  | zero =>
    rw [transactLoop, Fallible.wp_bind]
    apply Prog.wp_mono (exchange_ends cmd)
    rintro h' _ (⟨e, rfl, refused⟩ | ⟨rsp, rc, rfl, read, last⟩)
    · exact (Prog.wp_pure _ _ _ _).mpr (.inl ⟨e, rfl, refused⟩)
    · exact (Prog.wp_pure _ _ _ _).mpr (.inr ⟨rsp, rc, rfl, read, last⟩)
  | succ left ih =>
    rw [transactLoop, Fallible.wp_bind]
    apply Prog.wp_mono (exchange_ends cmd)
    rintro h' _ (⟨e, rfl, refused⟩ | ⟨rsp, rc, rfl, read, last⟩)
    · exact (Prog.wp_pure _ _ _ _).mpr (.inl ⟨e, rfl, refused⟩)
    · rw [Prog.andThen_done, Fallible.cont_ok]
      dsimp only
      split
      · split
        · rw [daLockResetRaw, daLockResetCmd_eq, ofChecked, pure_bind, bind_assoc,
            Fallible.wp_attempt_call_bind]
          intro _ _
          rw [bind_assoc, Fallible.wp_attempt_call_bind]
          intro _ _
          rw [pure_bind, Fallible.wp_ask_bind]
          exact fun _ _ => ih
        · rw [Fallible.wp_ask_bind]
          exact fun _ _ => ih
      · exact (Prog.wp_pure _ _ _ _).mpr (.inr ⟨rsp, rc, rfl, read, last⟩)

end

/-- A request fails without an accepted reply, or returns the one it has accepted. -/
theorem request_ends {cmd : List UInt8} {cmdName : String} {tr : History Sys}
    {out : Outcome Sys (Except Err (List UInt8))}
    (runs : Runs (request (some cmd) cmdName).run tr out) :
    (∃ e, out = .done (.error e) ∧ acceptedReply tr = none) ∨
      ∃ rsp, out = .done (.ok rsp) ∧ acceptedReply tr = some rsp := by
  have ends : Prog.wp (fun _ _ => True) (fun h' out =>
      (∃ e, out = .done (.error e) ∧ acceptedReply h' = none) ∨
        ∃ rsp, out = .done (.ok rsp) ∧ acceptedReply h' = some rsp)
      (request (some cmd) cmdName).run [] := by
    rw [request, ofChecked, pure_bind, Fallible.wp_bind, tpmTransact]
    apply Prog.wp_mono (transactLoop_ends cmd maxRetries)
    rintro h' _ (⟨e, rfl, refused⟩ | ⟨rsp, rc, rfl, read, last⟩)
    · exact (Prog.wp_pure _ _ _ _).mpr (.inl ⟨e, rfl, refused⟩)
    · rw [Prog.andThen_done, Fallible.cont_ok, checkResponse, read, ofChecked, pure_bind]
      by_cases accepted : rc = 0
      · rw [if_neg (not_not.mpr accepted), pure_bind]
        refine (Prog.wp_pure _ _ _ _).mpr (.inr ⟨rsp, rfl, ?_⟩)
        rw [acceptedReply, last, Option.filter_some, read, accepted]
        rfl
      · have refused : acceptedReply h' = none := by
          rw [acceptedReply, last, Option.filter_some, read]
          simp [accepted]
        rw [if_pos accepted]
        cases responseCodeReason rc with
        | none => exact (Prog.wp_pure _ _ _ _).mpr (.inl ⟨_, rfl, refused⟩)
        | some reason => exact (Prog.wp_pure _ _ _ _).mpr (.inl ⟨_, rfl, refused⟩)
  have admitted : Admits (fun _ _ => True) [] tr := (admits_const [] tr).mpr fun _ _ => trivial
  exact (Prog.wp_iff_runs _ _ _ _).mp ends tr out runs admitted

/-- What becomes of a reply whose fields are read. -/
def outcomeOfRead {α : Type} : Checked α → Outcome Sys (Except Err α)
  | some a => .done (.ok a)
  | none => .halted .panic

/-- A request whose reply is read: the accepted reply is all that counts. -/
theorem request_read_ends {α : Type} {cmd : List UInt8} {cmdName : String}
    {read : List UInt8 → Checked α} {tr : History Sys} {out : Outcome Sys (Except Err α)}
    (runs : Runs (do
      let rsp ← request (some cmd) cmdName
      ofChecked (read rsp) : Io α).run tr out) :
    (∃ e, out = .done (.error e) ∧ acceptedReply tr = none) ∨
      ∃ rsp, acceptedReply tr = some rsp ∧ out = outcomeOfRead (read rsp) := by
  rcases runs_fallible_bind.mp runs with ⟨rsp, tr₁, tr₂, rfl, first, rest⟩ |
    ⟨e, rfl, first⟩ | ⟨stop, rfl, first⟩
  · obtain ⟨e, ⟨⟩, -⟩ | ⟨rsp', ⟨⟩, accepted⟩ := request_ends first
    have ending : tr₂ = [] ∧ out = outcomeOfRead (read rsp) := by
      cases result : read rsp with
      | none =>
        rw [result] at rest
        cases rest
        exact ⟨rfl, rfl⟩
      | some a =>
        rw [result] at rest
        cases rest
        exact ⟨rfl, rfl⟩
    rw [ending.1, List.append_nil]
    exact .inr ⟨rsp, accepted, ending.2⟩
  · obtain ⟨e', ⟨⟩, refused⟩ | ⟨rsp', ⟨⟩, -⟩ := request_ends first
    exact .inl ⟨e, rfl, refused⟩
  · obtain ⟨e', ⟨⟩, -⟩ | ⟨rsp', ⟨⟩, -⟩ := request_ends first

/-- Every run of the operation ends, with a value or an error, just when its arguments are
    sized so that the command is built and the reply it accepts, if there is one, holds what
    it reads. -/
def ReturnsIff {α : Type} (x : Io α) (Sized : Prop) (Holds : List UInt8 → Prop) : Prop :=
  ∀ tr out, Runs x.run tr out →
    (out.isDone = true ↔ Sized ∧ ∀ rsp, acceptedReply tr = some rsp → Holds rsp)

theorem request_read_returnsIff {α : Type} {cmd : Checked (List UInt8)} {cmdName : String}
    {read : List UInt8 → Checked α} {Sized : Prop} {Holds : List UInt8 → Prop}
    (sized : cmd.isSome ↔ Sized) (holds : ∀ rsp, (read rsp).isSome ↔ Holds rsp) :
    ReturnsIff (do
      let rsp ← request cmd cmdName
      ofChecked (read rsp) : Io α) Sized Holds := by
  intro tr out runs
  cases cmd with
  | none =>
    have halted : out = .halted .panic := by
      cases runs
      rfl
    rw [halted]
    exact iff_of_false nofun fun both => nomatch sized.mpr both.1
  | some bytes =>
    rw [and_iff_right (sized.mp rfl)]
    obtain ⟨e, rfl, refused⟩ | ⟨rsp, accepted, rfl⟩ := request_read_ends runs
    · rw [refused]
      exact iff_of_true rfl nofun
    · have done_iff : (outcomeOfRead (read rsp)).isDone = true ↔ Holds rsp := by
        rw [← holds]
        cases read rsp <;> rfl
      rw [accepted, done_iff]
      exact ⟨fun fits _ same => Option.some.inj same ▸ fits, fun fits => fits rsp rfl⟩

theorem Builds.isSome_iff {cmd : Checked (List UInt8)} {code : UInt32} (builds : Builds cmd code) :
    cmd.isSome ↔ True := by
  obtain ⟨bytes, rfl, -⟩ := builds
  exact iff_of_true rfl trivial

/-- A request of whose reply nothing is read. -/
theorem request_returnsIff {cmd : Checked (List UInt8)} {cmdName : String} {code : UInt32}
    (builds : Builds cmd code) :
    ReturnsIff (do
      let _ ← request cmd cmdName : Io Unit) True fun _ => True := by
  exact @request_read_returnsIff Unit cmd cmdName (fun _ => some ()) _ _ builds.isSome_iff
    fun _ => iff_of_true rfl trivial

/-- The two areas of the reply to `TPM2_Create`, each behind its size, end inside the reply. -/
def AreasFit (rsp : List UInt8) : Prop :=
  ∃ privSize pubSize, getU16 rsp 14 = some privSize ∧
    getU16 rsp (16 + privSize.toNat) = some pubSize ∧
    18 + privSize.toNat + pubSize.toNat ≤ rsp.length

/-- Reading the two areas aborts exactly where they do not fit. -/
theorem createdAreas_isSome_iff (rsp : List UInt8) : (createdAreas rsp).isSome ↔ AreasFit rsp := by
  have offset (n : Nat) : 14 + (2 + n) = 16 + n := by omega
  constructor
  · intro made
    obtain ⟨areas, made⟩ := Option.isSome_iff_exists.mp made
    obtain ⟨privSize, privRead, made⟩ := Option.bind_eq_some_iff.mp made
    obtain ⟨privBlob, -, made⟩ := Option.bind_eq_some_iff.mp made
    obtain ⟨pubSize, pubRead, made⟩ := Option.bind_eq_some_iff.mp made
    obtain ⟨pubBlob, cut, -⟩ := Option.bind_eq_some_iff.mp made
    have inside := (slice_eq_some_iff.mp cut).2.1
    rw [offset] at pubRead
    exact ⟨privSize, pubSize, privRead, pubRead, by omega⟩
  · intro ⟨privSize, pubSize, privRead, pubRead, inside⟩
    have privCut := slice_eq_some rsp (Nat.le_add_right 14 (2 + privSize.toNat)) (by omega)
    have pubCut := slice_eq_some rsp (Nat.le_add_right (16 + privSize.toNat) (2 + pubSize.toNat))
      (by omega)
    simp only [createdAreas, privRead, Option.bind_eq_bind, Option.bind_some, privCut]
    simp only [offset, pubRead, Option.bind_some, pubCut]
    rfl

theorem operations_returnIff (sessionType : UInt8)
    (session item parent object persistent handle : UInt32)
    (data policy privArea pubArea : List UInt8) :
    ReturnsIff (startAuthSession sessionType) True (fun rsp => 14 ≤ rsp.length) ∧
    ReturnsIff (policyPcr session) True (fun _ => True) ∧
    ReturnsIff (policyGetDigest session) True (fun rsp =>
      ∃ size, getU16 rsp 10 = some size ∧ 12 + size.toNat ≤ rsp.length) ∧
    ReturnsIff (unsealItem item session) True (fun rsp =>
      ∃ size, getU16 rsp 14 = some size ∧ 16 + size.toNat ≤ rsp.length) ∧
    ReturnsIff createPrimary True (fun rsp => 14 ≤ rsp.length) ∧
    ReturnsIff (create parent data policy)
      (data.length ≤ 65531 ∧ policy.length ≤ 65521) AreasFit ∧
    ReturnsIff (load parent privArea pubArea)
      (27 + privArea.length + pubArea.length < 2 ^ 32) (fun rsp => 14 ≤ rsp.length) ∧
    ReturnsIff (evictControl object persistent) True (fun _ => True) ∧
    ReturnsIff (flushContext handle) True (fun _ => True) := by
  refine ⟨?_, ?_, ?_, ?_, ?_, ?_, ?_, ?_, ?_⟩
  · exact request_read_returnsIff (builds_startAuthSession sessionType).isSome_iff
      (getU32_isSome_iff · 10)
  · exact request_returnsIff (builds_policyPcr session)
  · simp only [policyGetDigest, ofChecked_bind]
    exact request_read_returnsIff (builds_policyGetDigest session).isSome_iff
      (sizedSlice_isSome_iff · 10)
  · simp only [unsealItem, ofChecked_bind]
    exact request_read_returnsIff (builds_unseal item session).isSome_iff
      (sizedSlice_isSome_iff · 14)
  · exact request_read_returnsIff builds_createPrimary.isSome_iff (getU32_isSome_iff · 10)
  · rw [create_eq]
    exact request_read_returnsIff (createCmd_isSome_iff parent data policy) createdAreas_isSome_iff
  · exact request_read_returnsIff (loadCmd_isSome_iff parent privArea pubArea)
      (getU32_isSome_iff · 10)
  · exact request_returnsIff (builds_evictControl object persistent)
  · exact request_returnsIff (builds_flushContext handle)

/-- A reply that is a header and nothing else: the size and the code are right, and the session
    handle behind them is missing. -/
theorem startAuthSession_short_reply :
    ∃ cmd, startAuthSessionCmd sePolicy = some cmd ∧
      Runs (startAuthSession sePolicy).run (turn cmd [0x80, 0x01, 0, 0, 0, 10, 0, 0, 0, 0])
        (.halted .panic) := by
  obtain ⟨cmd, built, -⟩ := builds_startAuthSession sePolicy
  refine ⟨cmd, built, ?_⟩
  rw [startAuthSession, built]
  exact .call _ (.call _ (.halted _))

end Initos.Tpm2
