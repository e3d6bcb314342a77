import Initos.Tpm2.Exchange

/-!
# The commands as the TPM reads them

The TPM parses the bytes it is sent. `decode` is that parser, for the commands this code
sends: it checks the header, the authorization area and every size field, and refuses what
does not parse to the last byte. Its numbers are those of TPM 2.0 and not the constants of
`src/tpm2.rs`. Each builder of `src/tpm2.rs` is shown to build the request that its arguments
name, so that no constant, offset or length field is off.
-/

namespace Initos.Tpm2

open Bytes Marshal Parser

/-- A parsed command. -/
inductive Request where
  | startup
  | startAuthSession (sessionType : UInt8)
  | policyPcr (session : UInt32)
  | policyGetDigest (session : UInt32)
  | flushContext (handle : UInt32)
  | createPrimary
  | create (parent : UInt32) (data policy : List UInt8)
  | load (parent : UInt32) (privArea pubArea : List UInt8)
  | evictControl (object persistent : UInt32)
  | unsealItem (item session : UInt32)
  | pcrExtend (index : UInt32) (digest : List UInt8)
  | daLockReset
  deriving DecidableEq

/-- An authorization area with one session: its handle, with an empty nonce and no HMAC. -/
def authArea : Parser UInt32 := do
  let size ← u32
  ensure (size = 9)
  let session ← u32
  let nonce ← sized
  let _ ← u8
  let hmac ← sized
  ensure (nonce = [] ∧ hmac = [])
  return session

/-- The empty password, `TPM_RS_PW`. -/
def password : Parser Unit := do
  let session ← authArea
  ensure (session = 0x40000009)

/-- PCR 7 of the bank of `TPM_ALG_SHA256`. -/
def pcr7Selection : Parser Unit := do
  let count ← u32
  let alg ← u16
  let selectSize ← u8
  let select ← bytes 3
  ensure (count = 1 ∧ alg = 0x000B ∧ selectSize = 3 ∧ select = [0x80, 0, 0])

/-- The public template of a sealed object (`TPM_ALG_KEYEDHASH` under `TPM_ALG_SHA256`,
    `fixedTPM` and `fixedParent`, no scheme); what varies is its policy. -/
def sealedPublic : Parser (List UInt8) := do
  let type ← u16
  let nameAlg ← u16
  let attributes ← u32
  let policy ← sized
  let scheme ← u16
  let unique ← sized
  ensure (type = 0x0008 ∧ nameAlg = 0x000B ∧ attributes = 0x00000012 ∧ scheme = 0x0010 ∧
    unique = [])
  return policy

/-- The sensitive data of a sealed object, without a password of its own. -/
def sealedSensitive : Parser (List UInt8) := do
  let userAuth ← sized
  let data ← sized
  ensure (userAuth = [])
  return data

/-- The public template of an RSA 2048 storage key: `TPM_ALG_RSA` under `TPM_ALG_SHA256`, with
    AES-128 in mode CFB, no scheme and the default exponent. Its attributes are `fixedTPM`,
    `fixedParent`, `sensitiveDataOrigin`, `userWithAuth`, `restricted` and `decrypt`. -/
def storagePublic : Parser Unit := do
  let type ← u16
  let nameAlg ← u16
  let attributes ← u32
  let policy ← sized
  let symmetric ← u16
  let keyBits ← u16
  let mode ← u16
  let scheme ← u16
  let rsaBits ← u16
  let exponent ← u32
  let unique ← sized
  ensure (type = 0x0001 ∧ nameAlg = 0x000B ∧ attributes = 0x00030072 ∧ policy = [] ∧
    symmetric = 0x0006 ∧ keyBits = 128 ∧ mode = 0x0043 ∧ scheme = 0x0010 ∧ rsaBits = 2048 ∧
    exponent = 0 ∧ unique = [])

/-- No outside information and no creation PCRs, and the end of the command. -/
def creationEnd : Parser Unit := do
  let outsideInfo ← sized
  let count ← u32
  eof
  ensure (outsideInfo = [] ∧ count = 0)

/-! ## The commands, from behind the header

The tag is `TPM_ST_NO_SESSIONS` (0x8001) or `TPM_ST_SESSIONS` (0x8002). -/

/-- `TPM2_Startup` with `TPM_SU_CLEAR`. -/
def startupBody (tag : UInt16) : Parser Request := do
  let startupType ← u16
  eof
  ensure (tag = 0x8001 ∧ startupType = 0x0000)
  return .startup

/-- `TPM2_StartAuthSession` with neither key nor bound object (`TPM_RH_NULL`), no encryption and
    SHA-256. -/
def startAuthSessionBody (tag : UInt16) : Parser Request := do
  let tpmKey ← u32
  let bind ← u32
  let _ ← sized
  let salt ← sized
  let sessionType ← u8
  let symmetric ← u16
  let hash ← u16
  eof
  ensure (tag = 0x8001 ∧ tpmKey = 0x40000007 ∧ bind = 0x40000007 ∧ salt = [] ∧
    symmetric = 0x0010 ∧ hash = 0x000B)
  return .startAuthSession sessionType

/-- `TPM2_PolicyPCR` for the present value of PCR 7. -/
def policyPcrBody (tag : UInt16) : Parser Request := do
  let session ← u32
  let digest ← sized
  pcr7Selection
  eof
  ensure (tag = 0x8001 ∧ digest = [])
  return .policyPcr session

/-- A command without sessions whose only parameter is a handle. -/
def handleBody (request : UInt32 → Request) (tag : UInt16) : Parser Request := do
  let handle ← u32
  eof
  ensure (tag = 0x8001)
  return request handle

/-- `TPM2_CreatePrimary` in the owner hierarchy (`TPM_RH_OWNER`). -/
def createPrimaryBody (tag : UInt16) : Parser Request := do
  let hierarchy ← u32
  password
  let data ← within sealedSensitive
  within storagePublic
  creationEnd
  ensure (tag = 0x8002 ∧ hierarchy = 0x40000001 ∧ data = [])
  return .createPrimary

/-- `TPM2_Create` of a sealed object. -/
def createBody (tag : UInt16) : Parser Request := do
  let parent ← u32
  password
  let data ← within sealedSensitive
  let policy ← within sealedPublic
  creationEnd
  ensure (tag = 0x8002)
  return .create parent data policy

/-- `TPM2_Load` -/
def loadBody (tag : UInt16) : Parser Request := do
  let parent ← u32
  password
  let privArea ← sized
  let pubArea ← sized
  eof
  ensure (tag = 0x8002)
  return .load parent privArea pubArea

/-- `TPM2_EvictControl` by the owner. -/
def evictControlBody (tag : UInt16) : Parser Request := do
  let hierarchy ← u32
  let object ← u32
  password
  let persistent ← u32
  eof
  ensure (tag = 0x8002 ∧ hierarchy = 0x40000001)
  return .evictControl object persistent

/-- `TPM2_Unseal` -/
def unsealBody (tag : UInt16) : Parser Request := do
  let item ← u32
  let session ← authArea
  eof
  ensure (tag = 0x8002)
  return .unsealItem item session

/-- `TPM2_PCR_Extend` with one SHA-256 digest. -/
def pcrExtendBody (tag : UInt16) : Parser Request := do
  let index ← u32
  password
  let count ← u32
  let alg ← u16
  let digest ← bytes 32
  eof
  ensure (tag = 0x8002 ∧ count = 1 ∧ alg = 0x000B)
  return .pcrExtend index digest

/-- `TPM2_DictionaryAttackLockReset` (`TPM_RH_LOCKOUT`). -/
def daLockResetBody (tag : UInt16) : Parser Request := do
  let handle ← u32
  password
  eof
  ensure (tag = 0x8002 ∧ handle = 0x4000000A)
  return .daLockReset

/-- What follows the header, by the code of the command. -/
def body (code : UInt32) : UInt16 → Parser Request :=
  if code = 0x00000144 then startupBody
  else if code = 0x00000176 then startAuthSessionBody
  else if code = 0x0000017F then policyPcrBody
  else if code = 0x00000189 then handleBody .policyGetDigest
  else if code = 0x00000165 then handleBody .flushContext
  else if code = 0x00000131 then createPrimaryBody
  else if code = 0x00000153 then createBody
  else if code = 0x00000157 then loadBody
  else if code = 0x00000120 then evictControlBody
  else if code = 0x0000015E then unsealBody
  else if code = 0x00000182 then pcrExtendBody
  else if code = 0x00000139 then daLockResetBody
  else fun _ => failure

/-- A command of this many bytes. -/
def command (length : Nat) : Parser Request := do
  let tag ← u16
  let size ← u32
  let code ← u32
  ensure (size.toNat = length)
  body code tag

/-- The request in the bytes of a command. -/
def decode (cmd : List UInt8) : Option Request := (command cmd.length cmd).map Prod.fst

/-- The fields of a request, behind a header that states their size. -/
theorem decode_encode {tag : UInt16} {size code : UInt32} {fields : List Field} {request : Request}
    (size_eq : size.toNat = (encode (header tag size code ++ fields)).length)
    (parsed : body code tag (encode fields) = some (request, [])) :
    decode (encode (header tag size code ++ fields)) = some request := by
  have header_eq : command (encode (header tag size code ++ fields)).length
      (encode (header tag size code ++ fields)) = body code tag (encode fields) := by
    generalize (encode (header tag size code ++ fields)).length = length at size_eq
    rw [command, show header tag size code ++ fields =
      .u16 tag :: .u32 size :: .u32 code :: fields from rfl, u16_bind, u32_bind, u32_bind,
      ensure_bind size_eq]
  rw [decode, header_eq, parsed]
  rfl

/-- A builder whose fields and zeros behind them are the given fields. -/
theorem decode_fill {tag : UInt16} {size code : UInt32} {fields : List Field} (zeros : List Field)
    {request : Request} {cmd : List UInt8}
    (built : fill size.toNat (header tag size code ++ fields) = some cmd)
    (padding : List.replicate (size.toNat - (encode (header tag size code ++ fields)).length) 0 =
      encode zeros)
    (parsed : body code tag (encode (fields ++ zeros)) = some (request, [])) :
    decode cmd = some request := by
  have fits := length_le_of_fill built
  rw [fill_eq, if_pos fits] at built
  cases built
  have length := congrArg List.length padding
  rw [List.length_replicate] at length
  rw [padding, ← encode_append, List.append_assoc]
  refine decode_encode ?_ parsed
  rw [← List.append_assoc, encode_append, List.length_append]
  omega

/-- A builder whose fields fill the buffer. -/
theorem decode_fill_exact {tag : UInt16} {size code : UInt32} {fields : List Field}
    {request : Request} {cmd : List UInt8}
    (built : fill size.toNat (header tag size code ++ fields) = some cmd)
    (full : size.toNat ≤ 10 + (fields.map Field.size).sum)
    (parsed : body code tag (encode fields) = some (request, [])) :
    decode cmd = some request := by
  refine decode_fill [] built ?_ (by rwa [List.append_nil])
  rw [length_encode, List.map_append, List.sum_append, show
    ((header tag size code).map Field.size).sum = 10 from rfl, Nat.sub_eq_zero_of_le full]
  rfl

/-! ## The parts of a command -/

section

variable {β : Type} {fields : List Field}

theorem authArea_bind (f : UInt32 → Parser β) (session : UInt32) (attributes : UInt8) :
    (authArea >>= f) (encode (.u32 9 :: .u32 session :: .u16 0 :: .u8 attributes :: .u16 0 ::
      fields)) = f session (encode fields) := by
  simp only [authArea, bind_assoc, pure_bind]
  rw [u32_bind, ensure_bind rfl, u32_bind, sized_zero_bind, u8_bind, sized_zero_bind,
    ensure_bind ⟨rfl, rfl⟩]

theorem password_bind (f : Unit → Parser β) :
    (password >>= f) (encode (.u32 pwAuthSize :: pwAuth ++ fields)) = f () (encode fields) := by
  simp only [password, bind_assoc]
  rw [show .u32 pwAuthSize :: pwAuth ++ fields =
    .u32 9 :: .u32 rsPw :: .u16 0 :: .u8 0 :: .u16 0 :: fields from rfl, authArea_bind,
    ensure_bind (show rsPw = 0x40000009 from rfl)]

theorem pcr7Selection_bind (f : Unit → Parser β) :
    (pcr7Selection >>= f) (encode (.u32 1 :: .u16 algSha256 :: .u8 3 :: .u8 0x80 :: .u8 0 ::
      .u8 0 :: fields)) = f () (encode fields) := by
  simp only [pcr7Selection, bind_assoc]
  rw [u32_bind, u16_bind, u8_bind]
  have select := bytes_bind (fun select => ensure ((1 : UInt32) = 1 ∧ algSha256 = 0x000B ∧
    (3 : UInt8) = 3 ∧ select = [0x80, 0, 0]) >>= f) [0x80, 0, 0] fields
  exact select.trans (ensure_bind ⟨rfl, rfl, rfl, rfl⟩ f _)

theorem creationEnd_bind (f : Unit → Parser β) :
    (creationEnd >>= f) (encode [.u16 0, .u32 0]) = f () [] := by
  simp only [creationEnd, bind_assoc]
  rw [sized_zero_bind, u32_bind, eof_bind, ensure_bind ⟨rfl, rfl⟩]

theorem sealedSensitive_eq {size : UInt16} {data : List UInt8}
    (size_eq : size.toNat = data.length) :
    sealedSensitive (encode (.u16 0 :: .u16 size :: .bytes data :: fields)) =
      some (data, encode fields) := by
  rw [sealedSensitive, sized_zero_bind, sized_bind _ size_eq, ensure_bind rfl]
  rfl

theorem sealedSensitive_empty :
    sealedSensitive (encode (.u16 0 :: .u16 0 :: fields)) = some ([], encode fields) := by
  rw [sealedSensitive, sized_zero_bind, sized_zero_bind, ensure_bind rfl]
  rfl

theorem sealedPublic_eq {size : UInt16} {policy : List UInt8}
    (size_eq : size.toNat = policy.length) :
    sealedPublic (encode (.u16 algKeyedhash :: .u16 algSha256 :: .u32 sealedObjAttrs :: .u16 size ::
      .bytes policy :: .u16 algNull :: .u16 0 :: fields)) = some (policy, encode fields) := by
  rw [sealedPublic, u16_bind, u16_bind, u32_bind, sized_bind _ size_eq, u16_bind, sized_zero_bind,
    ensure_bind ⟨rfl, rfl, rfl, rfl, rfl⟩]
  rfl

theorem storagePublic_eq :
    storagePublic (encode (.u16 algRsa :: .u16 algSha256 :: .u32 storageKeyAttrs :: .u16 0 ::
      .u16 algAes :: .u16 128 :: .u16 algCfb :: .u16 algNull :: .u16 2048 :: .u32 0 :: .u16 0 ::
      fields)) = some ((), encode fields) := by
  rw [storagePublic, u16_bind, u16_bind, u32_bind, sized_zero_bind, u16_bind, u16_bind, u16_bind,
    u16_bind, u16_bind, u32_bind, sized_zero_bind, ensure]
  rfl

end

/-! ## Each builder builds its request -/

section

variable {cmd : List UInt8}

theorem decode_startup (built : startupCmd = some cmd) : decode cmd = some .startup := by
  refine decode_fill [] built rfl ?_
  rw [show body ccStartup = startupBody from rfl, startupBody, List.append_nil, u16_bind, eof_bind,
    ensure_bind ⟨rfl, rfl⟩]
  rfl

theorem decode_startAuthSession {sessionType : UInt8}
    (built : startAuthSessionCmd sessionType = some cmd) :
    decode cmd = some (.startAuthSession sessionType) := by
  refine decode_fill [] built rfl ?_
  rw [show body ccStartAuthSession = startAuthSessionBody from rfl, startAuthSessionBody,
    List.append_nil, u32_bind, u32_bind, sized_bind _ rfl, sized_zero_bind, u8_bind, u16_bind,
    u16_bind, eof_bind, ensure_bind ⟨rfl, rfl, rfl, rfl, rfl, rfl⟩]
  rfl

theorem decode_policyPcr {session : UInt32} (built : policyPcrCmd session = some cmd) :
    decode cmd = some (.policyPcr session) := by
  -- the buffer has room for three bytes of the selection, and only the first is written
  refine decode_fill [.u8 0, .u8 0] built rfl ?_
  simp only [List.cons_append, List.nil_append]
  rw [show body ccPolicyPcr = policyPcrBody from rfl, policyPcrBody, u32_bind, sized_zero_bind,
    pcr7Selection_bind, eof_bind, ensure_bind ⟨rfl, rfl⟩]
  rfl

theorem decode_policyGetDigest {session : UInt32} (built : policyGetDigestCmd session = some cmd) :
    decode cmd = some (.policyGetDigest session) := by
  refine decode_fill [] built rfl ?_
  rw [show body ccPolicyGetDigest = handleBody .policyGetDigest from rfl, handleBody,
    List.append_nil, u32_bind, eof_bind, ensure_bind (show stNoSessions = 0x8001 from rfl)]
  rfl

theorem decode_flushContext {handle : UInt32} (built : flushContextCmd handle = some cmd) :
    decode cmd = some (.flushContext handle) := by
  refine decode_fill [] built rfl ?_
  rw [show body ccFlushContext = handleBody .flushContext from rfl, handleBody,
    List.append_nil, u32_bind, eof_bind, ensure_bind (show stNoSessions = 0x8001 from rfl)]
  rfl

theorem decode_unsealItem {item session : UInt32} (built : unsealCmd item session = some cmd) :
    decode cmd = some (.unsealItem item session) := by
  refine decode_fill [] built rfl ?_
  rw [show body ccUnseal = unsealBody from rfl, unsealBody, List.append_nil, u32_bind,
    show (4 + 2 + 1 + 2 : UInt32) = 9 from rfl, authArea_bind, eof_bind,
    ensure_bind (show stSessions = 0x8002 from rfl)]
  rfl

theorem decode_createPrimary (built : createPrimaryCmd = some cmd) :
    decode cmd = some .createPrimary := by
  refine decode_fill [] built rfl ?_
  rw [show body ccCreatePrimary = createPrimaryBody from rfl, createPrimaryBody, List.append_nil,
    List.append_assoc, List.cons_append, List.cons_append, List.nil_append, u32_bind,
    ← List.cons_append, password_bind, within_bind _ _ sealedSensitive_empty rfl,
    within_bind _ _ storagePublic_eq rfl, creationEnd_bind, ensure_bind ⟨rfl, rfl, rfl⟩]
  rfl

theorem decode_evictControl {object persistent : UInt32}
    (built : evictControlCmd object persistent = some cmd) :
    decode cmd = some (.evictControl object persistent) := by
  refine decode_fill [] built rfl ?_
  rw [show body ccEvictControl = evictControlBody from rfl, evictControlBody, List.append_nil,
    List.append_assoc, List.cons_append, List.cons_append, List.cons_append, List.nil_append,
    u32_bind, u32_bind, ← List.cons_append, password_bind, u32_bind, eof_bind,
    ensure_bind ⟨rfl, rfl⟩]
  rfl

/-- Data or a policy too long for its 16-bit size makes the builder abort. -/
theorem createCmd_fits {parent : UInt32} {data policy : List UInt8}
    (built : createCmd parent data policy = some cmd) :
    data.length + 4 < 2 ^ 16 ∧ policy.length + 14 < 2 ^ 16 := by
  have fits := length_le_of_fill built
  rw [length_encode] at fits
  simp only [header, pwAuth, pwAuthSize, List.cons_append, List.nil_append, List.map_cons,
    List.map_nil, List.sum_cons, List.sum_nil, Field.size, UInt32.toNat_add, UInt16.toNat_add,
    UInt16.toNat_toUInt32, UInt16.toNat_ofNat', UInt32.reduceToNat, UInt16.reduceToNat] at fits
  omega

/-- The arguments for which the command of `create` is built. -/
theorem createCmd_isSome_iff (parent : UInt32) (data policy : List UInt8) :
    (createCmd parent data policy).isSome ↔ data.length ≤ 65531 ∧ policy.length ≤ 65521 := by
  constructor
  · intro built
    obtain ⟨cmd, built⟩ := Option.isSome_iff_exists.mp built
    have fits := createCmd_fits built
    omega
  · intro ⟨dataSmall, policySmall⟩
    obtain ⟨cmd, built, -⟩ := builds_create parent data policy (by omega) (by omega)
    exact Option.isSome_of_eq_some built

/-- The blobs for which the command of `load` is built. -/
theorem loadCmd_isSome_iff (parent : UInt32) (privArea pubArea : List UInt8) :
    (loadCmd parent privArea pubArea).isSome ↔
      27 + privArea.length + pubArea.length < 2 ^ 32 := by
  constructor
  · intro built
    obtain ⟨cmd, built⟩ := Option.isSome_iff_exists.mp built
    have fits := length_le_of_fill built
    rw [length_encode] at fits
    simp only [header, pwAuth, pwAuthSize, List.cons_append, List.nil_append, List.map_cons,
      List.map_nil, List.sum_cons, List.sum_nil, Field.size, UInt32.toNat_add,
      UInt32.toNat_ofNat', UInt32.reduceToNat] at fits
    omega
  · intro small
    obtain ⟨cmd, built, -⟩ := builds_load parent privArea pubArea small
    exact Option.isSome_of_eq_some built

/-- Where the command could be built, no size in it has wrapped. -/
theorem decode_create {parent : UInt32} {data policy : List UInt8}
    (built : createCmd parent data policy = some cmd) :
    decode cmd = some (.create parent data policy) := by
  obtain ⟨data_fits, policy_fits⟩ := createCmd_fits built
  have dataSize : (UInt16.ofNat data.length).toNat = data.length := by
    rw [UInt16.toNat_ofNat']; omega
  have policySize : (UInt16.ofNat policy.length).toNat = policy.length := by
    rw [UInt16.toNat_ofNat']; omega
  have sensitiveSize : (2 + 2 + UInt16.ofNat data.length : UInt16).toNat = 4 + data.length := by
    simp only [UInt16.toNat_add, dataSize, UInt16.reduceToNat]; omega
  have publicSize : (2 + 2 + 4 + (2 + UInt16.ofNat policy.length) + 2 + 2 : UInt16).toNat =
      14 + policy.length := by
    simp only [UInt16.toNat_add, policySize, UInt16.reduceToNat]; omega
  refine decode_fill_exact built ?_ ?_
  · simp only [pwAuth, pwAuthSize, List.cons_append, List.nil_append, List.map_cons,
      List.map_nil, List.sum_cons, List.sum_nil, Field.size, UInt32.toNat_add,
      UInt16.toNat_toUInt32, sensitiveSize, publicSize, UInt32.reduceToNat]
    omega
  rw [show body ccCreate = createBody from rfl, createBody, List.append_assoc, List.cons_append,
    List.cons_append, List.nil_append, u32_bind, ← List.cons_append, password_bind,
    within_bind _ _ (sealedSensitive_eq dataSize), within_bind _ _ (sealedPublic_eq policySize),
    creationEnd_bind, ensure_bind (show stSessions = 0x8002 from rfl)]
  · rfl
  · rw [length_encode, length_encode, publicSize]
    simp only [List.map_cons, List.sum_cons, Field.size]
    omega
  · rw [length_encode, length_encode, sensitiveSize]
    simp only [List.map_cons, List.sum_cons, Field.size]
    omega

theorem decode_load {parent : UInt32} {privSize pubSize : UInt16} {privArea pubArea : List UInt8}
    (privSize_eq : privSize.toNat = privArea.length) (pubSize_eq : pubSize.toNat = pubArea.length)
    (built : loadCmd parent (encode [.u16 privSize, .bytes privArea])
      (encode [.u16 pubSize, .bytes pubArea]) = some cmd) :
    decode cmd = some (.load parent privArea pubArea) := by
  refine decode_fill_exact built ?_ ?_
  · have fits := length_le_of_fill built
    simp only [pwAuth, pwAuthSize, List.cons_append, List.nil_append, List.map_cons,
      List.map_nil, List.sum_cons, List.sum_nil, Field.size, UInt32.toNat_add,
      UInt32.toNat_ofNat', UInt32.reduceToNat]
    omega
  rw [show body ccLoad = loadBody from rfl, loadBody, List.append_assoc, List.cons_append,
    List.cons_append, List.nil_append, u32_bind, ← List.cons_append, password_bind]
  have areas : encode [.bytes (encode [.u16 privSize, .bytes privArea]),
      .bytes (encode [.u16 pubSize, .bytes pubArea])] =
      encode [.u16 privSize, .bytes privArea, .u16 pubSize, .bytes pubArea] := by
    simp only [encode_cons, encode_nil, Field.encode, List.append_assoc, List.append_nil]
  rw [areas, sized_bind _ privSize_eq, sized_bind _ pubSize_eq, eof_bind,
    ensure_bind (show stSessions = 0x8002 from rfl)]
  rfl

theorem decode_pcrExtend {index : UInt32} {digest : List UInt8}
    (digest_length : digest.length = sha256DigestSize)
    (built : pcrExtendCmd index digest = some cmd) :
    decode cmd = some (.pcrExtend index digest) := by
  refine decode_fill_exact built ?_ ?_
  · rw [pwAuth]
    simp only [List.cons_append, List.nil_append, List.map_cons, List.map_nil, Field.size,
      digest_length]
    decide
  rw [show body ccPcrExtend = pcrExtendBody from rfl, pcrExtendBody,
    List.append_assoc, List.cons_append, List.cons_append, List.nil_append, u32_bind,
    ← List.cons_append, password_bind, u32_bind, u16_bind,
    show (32 : Nat) = digest.length from digest_length.symm, bytes_bind, eof_bind,
    ensure_bind ⟨rfl, rfl, rfl⟩]
  rfl

theorem decode_daLockReset (built : daLockResetCmd = some cmd) :
    decode cmd = some .daLockReset := by
  refine decode_fill [] built rfl ?_
  rw [show body ccDaLockReset = daLockResetBody from rfl, daLockResetBody,
    List.append_assoc, List.cons_append, List.cons_append, List.nil_append, u32_bind,
    ← List.cons_append, password_bind, eof_bind, ensure_bind ⟨rfl, rfl⟩]
  rfl

end

end Initos.Tpm2
