import Initos.Tpm2.Replies

/-!
# What the operations write

Every operation of `src/tpm2.rs` writes one command, as often as the TPM asks for it again,
and between two attempts at most the reset of the lockout. The bytes are the request that the
arguments name: the header states their length, and the grammar reads them to the last one.
-/

namespace Initos.Tpm2

open Interact Bytes Marshal

/-- The bytes of a command state their own length and are the request. -/
structure Exact (cmd : List UInt8) (request : Request) : Prop where
  size : ∃ size, getU32 cmd 2 = some size ∧ size.toNat = cmd.length
  decoded : decode cmd = some request

/-- A filled buffer is as long as its header says. -/
theorem exact_of_fill {tag : UInt16} {size code : UInt32} {fields : List Field} {cmd : List UInt8}
    {request : Request} (built : fill size.toNat (header tag size code ++ fields) = some cmd)
    (decoded : decode cmd = some request) : Exact cmd request := by
  refine ⟨⟨size, ?_⟩, decoded⟩
  have fits := length_le_of_fill built
  rw [fill_eq, if_pos fits, Option.some.injEq] at built
  rw [← built]
  refine ⟨getU32_encode [.u16 tag] rfl, ?_⟩
  rw [List.length_append, List.length_replicate]
  omega

/-- The commands written to the device, in their order. -/
def commandsOf (tr : History Sys) : List (List UInt8) :=
  tr.filterMap fun e => match e.cmd with
    | .tpmWrite cmd => some cmd
    | _ => none

theorem exists_write_of_mem {tr : History Sys} {cmd : List UInt8} (sent : cmd ∈ commandsOf tr) :
    ∃ e ∈ tr, e.cmd = .tpmWrite cmd := by
  obtain ⟨e, inside, written⟩ := List.mem_filterMap.mp sent
  refine ⟨e, inside, ?_⟩
  split at written
  next same => rw [same, Option.some.inj written]
  next => cases written

/-- The device is sent the request, perhaps several times, and else only resets of the
    lockout. -/
def Conveys (tr : History Sys) (request : Request) : Prop :=
  ∃ cmd rest, commandsOf tr = cmd :: rest ∧ Exact cmd request ∧
    ∀ other ∈ rest, other = cmd ∨ Exact other .daLockReset

/-- Every run of the operation conveys the request. -/
def Sends {α : Type} (x : Io α) (request : Request) : Prop :=
  ∀ tr out, Runs x.run tr out → Conveys tr request

/-- What a request with these bytes may do: write them, or reset the lockout. -/
def Sendable (bytes : List UInt8) : SysCmd → Prop
  | .tpmWrite other => other = bytes ∨ Exact other .daLockReset
  | _ => True

/-- A request, and a rest that asks for nothing. -/
theorem request_sends {α : Type} {cmd : Checked (List UInt8)} {code : UInt32} {cmdName : String}
    {request : Request} {f : List UInt8 → Io α} (builds : Builds cmd code)
    (exact : ∀ {bytes}, cmd = some bytes → Exact bytes request)
    (silent : ∀ rsp A, (f rsp).run.Uses A) : Sends (Tpm2.request cmd cmdName >>= f) request := by
  intro tr out runs
  obtain ⟨bytes, rfl, -⟩ := builds
  have covers : Covers (Sendable bytes) bytes :=
    ⟨.inl rfl, fun _ built => .inr (exact_of_fill built (decode_daLockReset built)), trivial,
      trivial⟩
  have uses : (Tpm2.request (some bytes) cmdName >>= f).run.Uses (Sendable bytes) :=
    Fallible.uses_bind (request_uses_of covers cmdName) fun rsp => silent rsp _
  have only := uses.runs runs
  cases runs with
  | call written rest =>
    refine ⟨bytes, commandsOf _, rfl, exact rfl, fun other sent => ?_⟩
    obtain ⟨e, inside, same⟩ := exists_write_of_mem sent
    have listed := only e (List.mem_cons_of_mem _ inside)
    rwa [same] at listed

theorem ofChecked_silent {α : Type} (read : List UInt8 → Checked α) (rsp : List UInt8)
    (A : SysCmd → Prop) : (ofChecked (read rsp)).run.Uses A := ofChecked_uses A _

theorem pure_silent (_rsp : List UInt8) (A : SysCmd → Prop) :
    (pure () : Io Unit).run.Uses A := trivial

/-! ## The blobs -/

/-- A `TPM2B`: bytes that a 16-bit size stands in front of. -/
structure Tpm2b where
  area : List UInt8
  small : area.length < 2 ^ 16

namespace Tpm2b

/-- The size that stands in front of the bytes. -/
def size (b : Tpm2b) : UInt16 := UInt16.ofNat b.area.length

theorem size_eq (b : Tpm2b) : b.size.toNat = b.area.length := by
  have small := b.small
  rw [size, UInt16.toNat_ofNat']
  omega

/-- The blob as it stands in a message. -/
def blob (b : Tpm2b) : List UInt8 := encode [.u16 b.size, .bytes b.area]

theorem length_blob (b : Tpm2b) : b.blob.length = 2 + b.area.length := by
  rw [blob, length_encode]
  rfl

end Tpm2b

/-- A well-formed reply to `TPM2_Create`: behind the parameter size stand the private and the
    public blob, and behind them the creation data and the rest. -/
def IsCreateReply (priv pub : Tpm2b) (answer : List UInt8) : Prop :=
  ∃ tag size paramSize rest, size.toNat = answer.length ∧
    answer = encode (header tag size 0 ++ [.u32 paramSize]) ++ (priv.blob ++ (pub.blob ++ rest))

section

variable {priv pub : Tpm2b} {answer : List UInt8}

/-- The areas that `create` returns are the two blobs. -/
theorem IsCreateReply.createdAreas_eq (reply : IsCreateReply priv pub answer) :
    createdAreas answer = some (priv.blob, pub.blob) := by
  obtain ⟨tag, size, paramSize, rest, -, rfl⟩ := reply
  have read := @createdAreas_encode tag size 0 paramSize _ _ _ _ priv.size_eq pub.size_eq rest
  simpa [Tpm2b.blob, Field.encode] using read

theorem IsCreateReply.responseCode_eq (reply : IsCreateReply priv pub answer) :
    getU32 (answer.take rspBufSize) 6 = some 0 := by
  obtain ⟨tag, size, paramSize, rest, -, rfl⟩ := reply
  have fits : (encode (header tag size 0 ++ [.u32 paramSize])).length ≤ rspBufSize := by
    rw [length_encode]
    simp [header, Field.size, rspBufSize]
  rw [List.take_append, List.take_of_length_le fits]
  exact getU32_encode [.u16 tag, .u32 size] rfl

/-- Where the buffer cuts a reply off, what is read of it is what it holds. -/
theorem createdAreas_of_append {rsp : List UInt8} {areas : List UInt8 × List UInt8}
    (made : createdAreas rsp = some areas) (rest : List UInt8) :
    createdAreas (rsp ++ rest) = some areas := by
  obtain ⟨privSize, privRead, made⟩ := Option.bind_eq_some_iff.mp made
  obtain ⟨privBlob, privCut, made⟩ := Option.bind_eq_some_iff.mp made
  obtain ⟨pubSize, pubRead, made⟩ := Option.bind_eq_some_iff.mp made
  obtain ⟨pubBlob, pubCut, made⟩ := Option.bind_eq_some_iff.mp made
  simp only [createdAreas, getU16_of_append privRead, slice_of_append privCut,
    getU16_of_append pubRead, slice_of_append pubCut, Option.bind_eq_bind, Option.bind_some]
  exact made

/-- `create` makes of a well-formed reply its two blobs. -/
theorem create_blobs (reply : IsCreateReply priv pub answer) {parent : UInt32}
    {data policy : List UInt8} {before : History Sys}
    {out : Outcome Sys (Except Err (List UInt8 × List UInt8))}
    (runs : Runs (create parent data policy).run (before ++ [⟨.tpmRead, .ok answer⟩]) out) :
    (answer.length ≤ rspBufSize → out = .done (.ok (priv.blob, pub.blob))) ∧
      ∀ blobs, out = .done (.ok blobs) → blobs = (priv.blob, pub.blob) := by
  have accepted : acceptedReply (before ++ [⟨.tpmRead, .ok answer⟩]) =
      some (answer.take rspBufSize) := by
    rw [acceptedReply, lastReply_append]
    exact Option.filter_eq_some_iff.mpr ⟨rfl, decide_eq_true reply.responseCode_eq⟩
  rw [create_eq] at runs
  cases built : createCmd parent data policy with
  | none =>
    rw [built] at runs
    generalize before ++ [⟨.tpmRead, .ok answer⟩] = tr at runs accepted
    cases runs
    cases accepted
  | some cmd =>
    rw [built] at runs
    obtain ⟨e, -, refused⟩ | ⟨rsp, same, rfl⟩ := request_read_ends runs
    · rw [refused] at accepted
      cases accepted
    · rw [accepted, Option.some.injEq] at same
      subst same
      constructor
      · intro fits
        rw [List.take_of_length_le fits, reply.createdAreas_eq]
        rfl
      · intro blobs done
        cases made : createdAreas (answer.take rspBufSize) with
        | none =>
          rw [made] at done
          cases done
        | some areas =>
          have whole := createdAreas_of_append made (answer.drop rspBufSize)
          rw [List.take_append_drop, reply.createdAreas_eq, Option.some.injEq] at whole
          rw [made] at done
          cases done
          exact whole.symm

end

/-- The command of `load` is its header, the parent and the password, and then the blobs. -/
theorem loadCmd_eq {parent : UInt32} {privArea pubArea cmd : List UInt8}
    (built : loadCmd parent privArea pubArea = some cmd) :
    ∃ head, head.length = 27 ∧ cmd = head ++ (privArea ++ pubArea) := by
  have small := (loadCmd_isSome_iff parent privArea pubArea).mp (Option.isSome_of_eq_some built)
  have fits := length_le_of_fill built
  have full : (10 + 4 + 4 + pwAuthSize + UInt32.ofNat privArea.length +
      UInt32.ofNat pubArea.length).toNat - (27 + (privArea.length + pubArea.length)) = 0 := by
    simp only [pwAuthSize, UInt32.toNat_add, UInt32.toNat_ofNat', UInt32.reduceToNat]
    omega
  refine ⟨encode (header stSessions (10 + 4 + 4 + pwAuthSize + UInt32.ofNat privArea.length +
    UInt32.ofNat pubArea.length) ccLoad ++ ([.u32 parent, .u32 pwAuthSize] ++ pwAuth)), ?_, ?_⟩
  · rw [length_encode]
    rfl
  · rw [loadCmd, authCommand, fill_eq, if_pos fits, Option.some.injEq, ← List.append_assoc,
      encode_append _ [.bytes privArea, .bytes pubArea]] at built
    have areas : encode [.bytes privArea, .bytes pubArea] = privArea ++ pubArea := by
      simp [Field.encode]
    have length : (encode (header stSessions (10 + 4 + 4 + pwAuthSize + UInt32.ofNat privArea.length
        + UInt32.ofNat pubArea.length) ccLoad ++ ([.u32 parent, .u32 pwAuthSize] ++ pwAuth))
        ++ (privArea ++ pubArea)).length = 27 + (privArea.length + pubArea.length) := by
      rw [List.length_append, length_encode, List.length_append]
      rfl
    rw [← built, areas, length, full]
    exact List.append_nil _

/-! ## The operations -/

theorem startup_sends : Sends startup .startup :=
  request_sends builds_startup (fun built => exact_of_fill built (decode_startup built)) pure_silent

theorem startAuthSession_sends (sessionType : UInt8) :
    Sends (startAuthSession sessionType) (.startAuthSession sessionType) :=
  request_sends (builds_startAuthSession sessionType)
    (fun built => exact_of_fill built (decode_startAuthSession built))
    (ofChecked_silent (getU32 · 10))

theorem policyPcr_sends (session : UInt32) : Sends (policyPcr session) (.policyPcr session) :=
  request_sends (builds_policyPcr session)
    (fun built => exact_of_fill built (decode_policyPcr built)) pure_silent

theorem policyGetDigest_sends (session : UInt32) :
    Sends (policyGetDigest session) (.policyGetDigest session) := by
  simp only [policyGetDigest, ofChecked_bind]
  exact request_sends (builds_policyGetDigest session)
    (fun built => exact_of_fill built (decode_policyGetDigest built)) (ofChecked_silent _)

theorem flushContext_sends (handle : UInt32) :
    Sends (flushContext handle) (.flushContext handle) :=
  request_sends (builds_flushContext handle)
    (fun built => exact_of_fill built (decode_flushContext built)) pure_silent

theorem unsealItem_sends (item session : UInt32) :
    Sends (unsealItem item session) (.unsealItem item session) := by
  simp only [unsealItem, ofChecked_bind]
  exact request_sends (builds_unseal item session)
    (fun built => exact_of_fill built (decode_unsealItem built)) (ofChecked_silent _)

theorem createPrimary_sends : Sends createPrimary .createPrimary :=
  request_sends builds_createPrimary
    (fun built => exact_of_fill built (decode_createPrimary built)) (ofChecked_silent (getU32 · 10))

theorem evictControl_sends (object persistent : UInt32) :
    Sends (evictControl object persistent) (.evictControl object persistent) :=
  request_sends (builds_evictControl object persistent)
    (fun built => exact_of_fill built (decode_evictControl built)) pure_silent

theorem dictionaryAttackLockReset_sends : Sends dictionaryAttackLockReset .daLockReset :=
  request_sends builds_daLockReset
    (fun built => exact_of_fill built (decode_daLockReset built)) pure_silent

theorem create_sends (parent : UInt32) {data policy : List UInt8} (dataSmall : data.length ≤ 65531)
    (policySmall : policy.length ≤ 65521) :
    Sends (create parent data policy) (.create parent data policy) := by
  rw [create_eq]
  exact request_sends (builds_create parent data policy (by omega) (by omega))
    (fun built => exact_of_fill built (decode_create built)) (ofChecked_silent createdAreas)

theorem load_sends (parent : UInt32) (priv pub : Tpm2b) :
    Sends (load parent priv.blob pub.blob) (.load parent priv.area pub.area) := by
  have privSmall := priv.small
  have pubSmall := pub.small
  refine request_sends (builds_load parent priv.blob pub.blob ?_)
    (fun built => exact_of_fill built (decode_load priv.size_eq pub.size_eq built))
    (ofChecked_silent (getU32 · 10))
  rw [priv.length_blob, pub.length_blob]
  omega

/-- `pcr_extend` sends what it has read from `/dev/urandom`. -/
theorem pcrExtend_conveys {index : UInt32} {digest : List UInt8} {tr : History Sys}
    {out : Outcome Sys (Except Err Unit)} (length : digest.length = sha256DigestSize)
    (runs : Runs (pcrExtend index).run
      (⟨.urandomOpen, .ok ()⟩ :: ⟨.urandomRead sha256DigestSize, .ok digest⟩ :: tr) out) :
    Conveys tr (.pcrExtend index digest) := by
  have sends : Sends (do let _ ← request (pcrExtendCmd index digest) "PCR_Extend" : Io Unit)
      (.pcrExtend index digest) :=
    request_sends (builds_pcrExtend index length)
      (fun built => exact_of_fill built (decode_pcrExtend length built)) pure_silent
  cases runs with
  | call _ reading => cases reading with
    | call _ rest => exact sends tr out rest

/-- `load` sends the two blobs it is given, one behind the other. -/
theorem load_blobs {parent : UInt32} {priv pub : Tpm2b} {tr : History Sys}
    {out : Outcome Sys (Except Err UInt32)}
    (runs : Runs (load parent priv.blob pub.blob).run tr out) :
    ∃ head rest, head.length = 27 ∧ commandsOf tr = (head ++ (priv.blob ++ pub.blob)) :: rest := by
  have privSmall := priv.small
  have pubSmall := pub.small
  obtain ⟨cmd, built⟩ := Option.isSome_iff_exists.mp ((loadCmd_isSome_iff parent priv.blob
    pub.blob).mpr (by rw [priv.length_blob, pub.length_blob]; omega))
  obtain ⟨head, length, rfl⟩ := loadCmd_eq built
  rw [load, built] at runs
  cases runs with
  | call written rest => exact ⟨head, commandsOf _, length, rfl⟩

/-- The encoding of every command: each operation sends the request that its arguments name.
    For `load` these are any two blobs; those that `create` takes from a well-formed reply are
    the reply's own, and `load` sends them one behind the other. -/
theorem operations_send :
    Sends startup .startup ∧
    (∀ sessionType, Sends (startAuthSession sessionType) (.startAuthSession sessionType)) ∧
    Sends startPolicySession (.startAuthSession sePolicy) ∧
    Sends startTrialSession (.startAuthSession seTrial) ∧
    (∀ session, Sends (policyPcr session) (.policyPcr session)) ∧
    (∀ session, Sends (policyGetDigest session) (.policyGetDigest session)) ∧
    (∀ index digest tr out, digest.length = sha256DigestSize →
      Runs (pcrExtend index).run
        (⟨.urandomOpen, .ok ()⟩ :: ⟨.urandomRead sha256DigestSize, .ok digest⟩ :: tr) out →
      Conveys tr (.pcrExtend index digest)) ∧
    (∀ handle, Sends (flushContext handle) (.flushContext handle)) ∧
    (∀ item session, Sends (unsealItem item session) (.unsealItem item session)) ∧
    Sends createPrimary .createPrimary ∧
    (∀ object persistent, Sends (evictControl object persistent)
      (.evictControl object persistent)) ∧
    Sends dictionaryAttackLockReset .daLockReset ∧
    (∀ parent data policy, data.length ≤ 65531 → policy.length ≤ 65521 →
      Sends (create parent data policy) (.create parent data policy)) ∧
    (∀ parent (priv pub : Tpm2b),
      Sends (load parent priv.blob pub.blob) (.load parent priv.area pub.area)) ∧
    ∀ priv pub answer, IsCreateReply priv pub answer → ∀ parent data policy before out,
      Runs (create parent data policy).run (before ++ [⟨.tpmRead, .ok answer⟩]) out →
      (answer.length ≤ rspBufSize → out = .done (.ok (priv.blob, pub.blob))) ∧
      ∀ blobs, out = .done (.ok blobs) → ∀ parent tr out,
        Runs (load parent blobs.1 blobs.2).run tr out →
        ∃ head rest, head.length = 27 ∧
          commandsOf tr = (head ++ (priv.blob ++ pub.blob)) :: rest := by
  refine ⟨startup_sends, startAuthSession_sends, startAuthSession_sends sePolicy,
    startAuthSession_sends seTrial, policyPcr_sends, policyGetDigest_sends,
    fun _ _ _ _ length runs => pcrExtend_conveys length runs, flushContext_sends,
    unsealItem_sends, createPrimary_sends, evictControl_sends, dictionaryAttackLockReset_sends,
    fun parent _ _ => create_sends parent, load_sends, ?_⟩
  intro priv pub answer reply parent data policy before out created
  obtain ⟨returns, own⟩ := create_blobs reply created
  refine ⟨returns, fun blobs done parent tr out loaded => ?_⟩
  rw [own blobs done] at loaded
  exact load_blobs loaded

end Initos.Tpm2
