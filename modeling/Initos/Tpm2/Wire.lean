import Initos.Sys
import Initos.Lib.Marshal
import Initos.Lib.Text

/-!
# The TPM2 wire protocol

The command builders and reply readers of `src/tpm2.rs`, over the device
`/dev/tpmrm0`. A builder allocates a buffer of zeros and writes its fields from the
front; a field that does not fit, and an index behind the end of a reply, abort.
16-bit and 32-bit sums wrap, as in a release build.
-/

namespace Initos.Tpm2

open Interact Bytes Marshal

/-! ## Constants (`src/tpm2.rs:13-63`) -/

/-- `TPM2_CC_STARTUP`. -/
def ccStartup : UInt32 := 0x00000144
/-- `TPM2_CC_START_AUTH_SESSION`. -/
def ccStartAuthSession : UInt32 := 0x00000176
/-- `TPM2_CC_POLICY_PCR`. -/
def ccPolicyPcr : UInt32 := 0x0000017F
/-- `TPM2_CC_UNSEAL`. -/
def ccUnseal : UInt32 := 0x0000015E
/-- `TPM2_CC_CREATE_PRIMARY`. -/
def ccCreatePrimary : UInt32 := 0x00000131
/-- `TPM2_CC_CREATE`. -/
def ccCreate : UInt32 := 0x00000153
/-- `TPM2_CC_LOAD`. -/
def ccLoad : UInt32 := 0x00000157
/-- `TPM2_CC_EVICT_CONTROL`. -/
def ccEvictControl : UInt32 := 0x00000120
/-- `TPM2_CC_POLICY_GET_DIGEST`. -/
def ccPolicyGetDigest : UInt32 := 0x00000189
/-- `TPM2_CC_FLUSH_CONTEXT`. -/
def ccFlushContext : UInt32 := 0x00000165
/-- `TPM2_CC_PCR_EXTEND`. -/
def ccPcrExtend : UInt32 := 0x00000182
/-- `TPM2_CC_DA_LOCK_RESET`. -/
def ccDaLockReset : UInt32 := 0x00000139

/-- `TPM_ST_NO_SESSIONS`. -/
def stNoSessions : UInt16 := 0x8001
/-- `TPM_ST_SESSIONS`. -/
def stSessions : UInt16 := 0x8002
/-- `TPM_RH_NULL`. -/
def rhNull : UInt32 := 0x40000007
/-- `TPM_RH_OWNER`. -/
def rhOwner : UInt32 := 0x40000001
/-- `TPM_RH_LOCKOUT`. -/
def rhLockout : UInt32 := 0x4000000A
/-- `TPM_RS_PW`. -/
def rsPw : UInt32 := 0x40000009
/-- `TPM_SE_POLICY`. -/
def sePolicy : UInt8 := 0x01
/-- `TPM_SE_TRIAL`. -/
def seTrial : UInt8 := 0x03
/-- `TPM_ALG_SHA256`. -/
def algSha256 : UInt16 := 0x000B
/-- `TPM_ALG_NULL`. -/
def algNull : UInt16 := 0x0010
/-- `TPM_ALG_RSA`. -/
def algRsa : UInt16 := 0x0001
/-- `TPM_ALG_AES`. -/
def algAes : UInt16 := 0x0006
/-- `TPM_ALG_CFB`. -/
def algCfb : UInt16 := 0x0043
/-- `TPM_ALG_KEYEDHASH`. -/
def algKeyedhash : UInt16 := 0x0008

/-- `SHA256_DIGEST_SIZE`. -/
def sha256DigestSize : Nat := 32
/-- `RSP_BUF_SIZE`. -/
def rspBufSize : Nat := 4096
/-- `STORAGE_KEY_ATTRS`: fixedTPM, fixedParent, sensitiveDataOrigin, userWithAuth,
    restricted and decrypt. -/
def storageKeyAttrs : UInt32 := 0x00030072
/-- `SEALED_OBJ_ATTRS`: fixedTPM and fixedParent. -/
def sealedObjAttrs : UInt32 := 0x00000012
/-- `DEFAULT_PRIMARY_HANDLE`. -/
def defaultPrimaryHandle : UInt32 := 0x81000000
/-- `DEFAULT_SEALED_HANDLE_DEV`. -/
def defaultSealedHandleDev : UInt32 := 0x81001002
/-- `DEFAULT_SEALED_HANDLE_SECURE`. -/
def defaultSealedHandleSecure : UInt32 := 0x81001003
/-- `PW_AUTH_SIZE`. -/
def pwAuthSize : UInt32 := 9

/-- `TPM_RC_RETRY`. -/
def rcRetry : UInt32 := 0x00000922
/-- `TPM_RC_YIELDED`. -/
def rcYielded : UInt32 := 0x00000908
/-- `TPM_RC_LOCKOUT`. -/
def rcLockout : UInt32 := 0x00000921
/-- `TPM_MAX_RETRIES`. -/
def maxRetries : Nat := 20

/-! ## Commands -/

/-- `write_header` (`src/tpm2.rs:531-536`). -/
def header (tag : UInt16) (size code : UInt32) : List Field := [.u16 tag, .u32 size, .u32 code]

/-- `write_pw_auth` (`src/tpm2.rs:502-510`). -/
def pwAuth : List Field := [.u32 rsPw, .u16 0, .u8 0x00, .u16 0]

/-- A command without sessions: the buffer has the size that its header states. -/
def plainCommand (size code : UInt32) (fields : List Field) : Checked (List UInt8) :=
  fill size.toNat (header stNoSessions size code ++ fields)

/-- A command with an authorization area. -/
def authCommand (size code : UInt32) (fields : List Field) : Checked (List UInt8) :=
  fill size.toNat (header stSessions size code ++ fields)

/-- The command of `startup` (`src/tpm2.rs:78-81`): `TPM_SU_CLEAR`. -/
def startupCmd : Checked (List UInt8) := plainCommand (10 + 2) ccStartup [.u16 0x0000]

/-- The command of `start_auth_session` (`src/tpm2.rs:91-108`). The nonce stays zero. -/
def startAuthSessionCmd (sessionType : UInt8) : Checked (List UInt8) :=
  plainCommand (10 + 4 + 4 + (2 + UInt32.ofNat sha256DigestSize) + 2 + 1 + 2 + 2)
    ccStartAuthSession
    [.u32 rhNull, .u32 rhNull, .u16 (UInt16.ofNat sha256DigestSize),
      .bytes (List.replicate sha256DigestSize 0), .u16 0, .u8 sessionType, .u16 algNull,
      .u16 algSha256]

/-- The command of `policy_pcr` (`src/tpm2.rs:134-144`): PCR 7 of the SHA-256 bank. -/
def policyPcrCmd (session : UInt32) : Checked (List UInt8) :=
  plainCommand (10 + 4 + 2 + 4 + 2 + 1 + 3) ccPolicyPcr
    [.u32 session, .u16 0, .u32 1, .u16 algSha256, .u8 3, .u8 0x80]

/-- The command of `policy_get_digest` (`src/tpm2.rs:155-163`). -/
def policyGetDigestCmd (session : UInt32) : Checked (List UInt8) :=
  plainCommand (10 + 4) ccPolicyGetDigest [.u32 session]

/-- The command of `pcr_extend` (`src/tpm2.rs:192-201`). -/
def pcrExtendCmd (pcrIndex : UInt32) (digest : List UInt8) : Checked (List UInt8) :=
  authCommand (10 + 4 + 4 + pwAuthSize + 4 + 2 + UInt32.ofNat sha256DigestSize) ccPcrExtend
    ([.u32 pcrIndex, .u32 pwAuthSize] ++ pwAuth ++ [.u32 1, .u16 algSha256, .bytes digest])

/-- The command of `flush_context` (`src/tpm2.rs:212-220`). -/
def flushContextCmd (handle : UInt32) : Checked (List UInt8) :=
  plainCommand (10 + 4) ccFlushContext [.u32 handle]

/-- The command of `unseal` (`src/tpm2.rs:232-243`): a policy session authorizes it. -/
def unsealCmd (itemHandle session : UInt32) : Checked (List UInt8) :=
  authCommand (10 + 4 + 4 + (4 + 2 + 1 + 2)) ccUnseal
    [.u32 itemHandle, .u32 (4 + 2 + 1 + 2), .u32 session, .u16 0, .u8 0x00, .u16 0]

/-- The command of `create_primary` (`src/tpm2.rs:255-286`). -/
def createPrimaryCmd : Checked (List UInt8) :=
  authCommand (10 + 4 + 4 + pwAuthSize + 2 + 4 + 2 + 26 + 2 + 4) ccCreatePrimary
    ([.u32 rhOwner, .u32 pwAuthSize] ++ pwAuth ++
      [.u16 4, .u16 0, .u16 0, .u16 26, .u16 algRsa, .u16 algSha256, .u32 storageKeyAttrs, .u16 0,
        .u16 algAes, .u16 128, .u16 algCfb, .u16 algNull, .u16 2048, .u32 0, .u16 0, .u16 0,
        .u32 0])

/-- The command of `evict_control` (`src/tpm2.rs:299-307`). -/
def evictControlCmd (objectHandle persistentHandle : UInt32) : Checked (List UInt8) :=
  authCommand (10 + 4 + 4 + 4 + pwAuthSize + 4) ccEvictControl
    ([.u32 rhOwner, .u32 objectHandle, .u32 pwAuthSize] ++ pwAuth ++ [.u32 persistentHandle])

/-- The command of `dictionary_attack_lock_reset` and `da_lock_reset_raw`
    (`src/tpm2.rs:328-333` and `466-471`). -/
def daLockResetCmd : Checked (List UInt8) :=
  authCommand (10 + 4 + 4 + pwAuthSize) ccDaLockReset ([.u32 rhLockout, .u32 pwAuthSize] ++ pwAuth)

/-- The command of `create` (`src/tpm2.rs:347-383`). -/
def createCmd (parent : UInt32) (data policyDigest : List UInt8) : Checked (List UInt8) :=
  let sensitiveInner : UInt16 := 2 + 2 + UInt16.ofNat data.length
  let tpmtPublicSize : UInt16 := 2 + 2 + 4 + (2 + UInt16.ofNat policyDigest.length) + 2 + 2
  authCommand
    (10 + 4 + 4 + pwAuthSize + (2 + sensitiveInner.toUInt32) + (2 + tpmtPublicSize.toUInt32) + 2
      + 4)
    ccCreate
    ([.u32 parent, .u32 pwAuthSize] ++ pwAuth ++
      [.u16 sensitiveInner, .u16 0, .u16 (UInt16.ofNat data.length), .bytes data,
        .u16 tpmtPublicSize, .u16 algKeyedhash, .u16 algSha256, .u32 sealedObjAttrs,
        .u16 (UInt16.ofNat policyDigest.length), .bytes policyDigest, .u16 algNull, .u16 0,
        .u16 0, .u32 0])

/-- The command of `load` (`src/tpm2.rs:406-416`). -/
def loadCmd (parent : UInt32) (privArea pubArea : List UInt8) : Checked (List UInt8) :=
  authCommand
    (10 + 4 + 4 + pwAuthSize + UInt32.ofNat privArea.length + UInt32.ofNat pubArea.length) ccLoad
    ([.u32 parent, .u32 pwAuthSize] ++ pwAuth ++ [.bytes privArea, .bytes pubArea])

/-! ## The device -/

/-- `open` (`src/tpm2.rs:68-74`). -/
def openDevice : Io Unit := do
  match ← Fallible.attempt tpmOpen with
  | .ok () => return ()
  | .error e => throw (.msg s!"failed to open /dev/tpmrm0: {e.text}")

/-- `da_lock_reset_raw` (`src/tpm2.rs:465-475`): nothing of the exchange is looked at. -/
def daLockResetRaw : Io Unit := do
  let cmd ← ofChecked daLockResetCmd
  let _ ← Fallible.attempt (tpmWrite cmd)
  let _ ← Fallible.attempt tpmRead

/-- Send a command and read the reply with its response code (`src/tpm2.rs:441-448`). -/
def exchange (cmd : List UInt8) : Io (List UInt8 × UInt32) := do
  tpmWrite cmd
  let answer ← tpmRead
  let rsp := answer.take rspBufSize
  if rsp.length < 10 then throw (.msg s!"TPM response too short: {rsp.length} bytes")
  else
    let rc ← ofChecked (getU32 rsp 6)
    return (rsp, rc)

/-- The loop of `tpm_transact` with `left` retries (`src/tpm2.rs:440-461`). -/
def transactLoop (cmd : List UInt8) : (left : Nat) → Io (List UInt8)
  | 0 => do
    let (rsp, _) ← exchange cmd
    return rsp
  | left + 1 => do
    let (rsp, rc) ← exchange cmd
    if rc = rcRetry ∨ rc = rcYielded ∨ rc = rcLockout then
      if rc = rcLockout then daLockResetRaw
      sleep 50
      transactLoop cmd left
    else return rsp

/-- `tpm_transact` (`src/tpm2.rs:436-462`). -/
def tpmTransact (cmd : List UInt8) : Io (List UInt8) := transactLoop cmd maxRetries

/-- `response_code_reason` (`src/tpm2.rs:490-500`). -/
def responseCodeReason (rc : UInt32) : Option String :=
  if rc = 0x0000099d then
    some "TPM_RC_POLICY_FAIL: policy session did not satisfy the sealed object's authPolicy"
  else if rc = 0x00000922 then some "TPM_RC_RETRY: TPM asks caller to retry"
  else if rc = 0x00000908 then some "TPM_RC_YIELDED: TPM yielded and asks caller to retry"
  else if rc = 0x00000921 then some "TPM_RC_LOCKOUT: dictionary-attack lockout is active"
  else none

/-- `check_response` (`src/tpm2.rs:477-488`). -/
def checkResponse (rsp : List UInt8) (cmdName : String) : Io Unit := do
  let rc ← ofChecked (getU32 rsp 6)
  if rc ≠ 0 then
    match responseCodeReason rc with
    | some reason => throw (.msg s!"{cmdName}: TPM2 error 0x{Text.hex32Upper rc.toNat} ({reason})")
    | none => throw (.msg s!"{cmdName}: TPM2 error 0x{Text.hex32Upper rc.toNat}")
  else return ()

/-- Build a command, send it and check the reply. -/
def request (cmd : Checked (List UInt8)) (cmdName : String) : Io (List UInt8) := do
  let cmd ← ofChecked cmd
  let rsp ← tpmTransact cmd
  checkResponse rsp cmdName
  return rsp

/-! ## The operations -/

/-- `startup` (`src/tpm2.rs:77-84`). -/
def startup : Io Unit := do
  let _ ← request startupCmd "Startup"

/-- `start_auth_session` (`src/tpm2.rs:87-113`). -/
def startAuthSession (sessionType : UInt8) : Io UInt32 := do
  let rsp ← request (startAuthSessionCmd sessionType) "StartAuthSession"
  ofChecked (getU32 rsp 10)

/-- `start_policy_session` (`src/tpm2.rs:116-120`). -/
def startPolicySession : Io UInt32 := startAuthSession sePolicy

/-- `start_trial_session` (`src/tpm2.rs:123-127`). -/
def startTrialSession : Io UInt32 := startAuthSession seTrial

/-- `policy_pcr` (`src/tpm2.rs:130-148`). -/
def policyPcr (session : UInt32) : Io Unit := do
  let _ ← request (policyPcrCmd session) "PolicyPCR"

/-- `policy_get_digest` (`src/tpm2.rs:151-169`). -/
def policyGetDigest (session : UInt32) : Io (List UInt8) := do
  let rsp ← request (policyGetDigestCmd session) "PolicyGetDigest"
  let sz ← ofChecked (getU16 rsp 10)
  ofChecked (slice rsp 12 (12 + sz.toNat))

/-- `pcr_extend` (`src/tpm2.rs:181-205`), with random bytes as the digest. -/
def pcrExtend (pcrIndex : UInt32) : Io Unit := do
  match ← Fallible.attempt urandomOpen with
  | .error e => throw (.msg s!"open /dev/urandom: {e.text}")
  | .ok () =>
    let digest ← urandomRead sha256DigestSize
    let _ ← request (pcrExtendCmd pcrIndex digest) "PCR_Extend"

/-- `flush_context` (`src/tpm2.rs:208-224`). -/
def flushContext (handle : UInt32) : Io Unit := do
  let _ ← request (flushContextCmd handle) "FlushContext"

/-- `unseal` (`src/tpm2.rs:227-250`). -/
def unsealItem (itemHandle session : UInt32) : Io (List UInt8) := do
  let rsp ← request (unsealCmd itemHandle session) "Unseal"
  let dataSize ← ofChecked (getU16 rsp 14)
  ofChecked (slice rsp 16 (16 + dataSize.toNat))

/-- `create_primary` (`src/tpm2.rs:254-291`). -/
def createPrimary : Io UInt32 := do
  let rsp ← request createPrimaryCmd "CreatePrimary"
  ofChecked (getU32 rsp 10)

/-- `evict_control` (`src/tpm2.rs:294-311`). -/
def evictControl (objectHandle persistentHandle : UInt32) : Io Unit := do
  let _ ← request (evictControlCmd objectHandle persistentHandle) "EvictControl"

/-- `dictionary_attack_lock_reset` (`src/tpm2.rs:325-337`). -/
def dictionaryAttackLockReset : Io Unit := do
  let _ ← request daLockResetCmd "DictionaryAttackLockReset"

/-- `try_evict_persistent` (`src/tpm2.rs:315-321`). -/
def tryEvictPersistent (persistentHandle : UInt32) : Io Unit := do
  match ← Fallible.attempt (evictControl persistentHandle persistentHandle) with
  | .ok () => return ()
  | .error _ =>
    let _ ← Fallible.attempt dictionaryAttackLockReset

/-- `create` (`src/tpm2.rs:341-397`): the private and the public area, each with its
    16-bit size in front. -/
def create (parent : UInt32) (data policyDigest : List UInt8) :
    Io (List UInt8 × List UInt8) := do
  let rsp ← request (createCmd parent data policyDigest) "Create"
  let privSize ← ofChecked (getU16 rsp 14)
  let privBlob ← ofChecked (slice rsp 14 (14 + (2 + privSize.toNat)))
  let roff := 14 + (2 + privSize.toNat)
  let pubSize ← ofChecked (getU16 rsp roff)
  let pubBlob ← ofChecked (slice rsp roff (roff + (2 + pubSize.toNat)))
  return (privBlob, pubBlob)

/-- `load` (`src/tpm2.rs:400-421`). -/
def load (parent : UInt32) (privArea pubArea : List UInt8) : Io UInt32 := do
  let rsp ← request (loadCmd parent privArea pubArea) "Load"
  ofChecked (getU32 rsp 10)

end Initos.Tpm2
