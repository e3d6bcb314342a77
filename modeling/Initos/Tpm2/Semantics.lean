import Mathlib.Logic.Function.Basic
import Initos.Lib.Device
import Initos.Tpm2.Grammar

/-!
# What the TPM does

The part of the TPM that the commands of `src/tpm2.rs` touch: its persistent and transient
objects, its policy sessions and PCR 7. `Performs` says when a request may be performed and
what it does then; the TPM picks handles, blobs and nonces as it likes. The device around it
may refuse a request or lose an answer; a reliable one does neither without need.
-/

namespace Initos.Tpm2

open Interact Bytes Marshal

/-- An object behind a handle. The storage key is derived from the owner seed and a fixed
    template, so there is one. -/
inductive Object where
  | storage
  | sealedData (data policy : List UInt8)
  deriving DecidableEq

/-- What is left open about a TPM: its PCR values, its policy hash, and which object a pair of
    wrapped areas holds. The hash tells the values of one `PolicyPCR` apart. -/
structure TpmSpec where
  Pcr : Type
  /-- The digest of a policy session in which `PolicyPCR` has seen these values of PCR 7. -/
  policyDigest : List Pcr → List UInt8
  unwrap : (privArea pubArea : List UInt8) → Option Object
  length_policyDigest : ∀ values, (policyDigest values).length = sha256DigestSize
  policyDigest_inj : ∀ value value', policyDigest [value] = policyDigest [value'] → value = value'

/-- The part of a TPM that the commands of the initrd see. -/
structure TpmState (T : TpmSpec) where
  persistent : UInt32 → Option Object
  transient : UInt32 → Option Object
  /-- The open policy sessions, each with the values of PCR 7 it was given. -/
  sessions : UInt32 → Option (List T.Pcr)
  pcr7 : T.Pcr
  /-- The earlier values of PCR 7: extending is one-way, so none of them comes back. -/
  former : List T.Pcr
  fresh : pcr7 ∉ former

/-- `TPM_HT_TRANSIENT`. -/
def IsTransient (handle : UInt32) : Prop := 0x80000000 ≤ handle ∧ handle ≤ 0x80FFFFFF

/-- `TPM_HT_PERSISTENT`. -/
def IsPersistent (handle : UInt32) : Prop := 0x81000000 ≤ handle ∧ handle ≤ 0x81FFFFFF

/-- The persistent handles that the owner may fill; the rest is the platform's. -/
def IsOwnerPersistent (handle : UInt32) : Prop := 0x81000000 ≤ handle ∧ handle ≤ 0x817FFFFF

instance (handle : UInt32) : Decidable (IsTransient handle) := inferInstanceAs (Decidable (_ ∧ _))
instance (handle : UInt32) : Decidable (IsPersistent handle) := inferInstanceAs (Decidable (_ ∧ _))
instance (handle : UInt32) : Decidable (IsOwnerPersistent handle) :=
  inferInstanceAs (Decidable (_ ∧ _))

theorem IsOwnerPersistent.isPersistent {handle : UInt32} (owner : IsOwnerPersistent handle) :
    IsPersistent handle := by
  obtain ⟨low, high⟩ := owner
  refine ⟨low, UInt32.le_trans high ?_⟩
  decide

/-- `MAX_SYM_DATA`, the most a sealed object holds. -/
def maxSealedData : Nat := 128

variable {T : TpmSpec}

namespace TpmState

/-- The object that a handle stands for. -/
def object (s : TpmState T) (handle : UInt32) : Option Object :=
  if IsPersistent handle then s.persistent handle else s.transient handle

/-- Extend PCR 7 to a value it never had. -/
def extend (s : TpmState T) (value : T.Pcr) (new : value ∉ s.pcr7 :: s.former) : TpmState T :=
  { s with pcr7 := value, former := s.pcr7 :: s.former, fresh := new }

end TpmState

open Function (update)

/-- A TPM in state `s` may perform the request: the state it goes to, and the fields of its
    reply as far as the code reads them. -/
inductive Performs (s : TpmState T) : Request → TpmState T → List Field → Prop where
  | startAuthSession (handle : UInt32) :
      Performs s (.startAuthSession sePolicy)
        { s with sessions := update s.sessions handle (some []) } [.u32 handle]
  | policyPcr {session : UInt32} {values : List T.Pcr} (opened : s.sessions session = some values) :
      Performs s (.policyPcr session)
        { s with sessions := update s.sessions session (some (values ++ [s.pcr7])) } []
  | policyGetDigest {session : UInt32} {values : List T.Pcr} {size : UInt16}
      (opened : s.sessions session = some values)
      (size_eq : size.toNat = (T.policyDigest values).length) :
      Performs s (.policyGetDigest session) s [.u16 size, .bytes (T.policyDigest values)]
  | flushSession {handle : UInt32} (opened : (s.sessions handle).isSome) :
      Performs s (.flushContext handle)
        { s with sessions := update s.sessions handle none } []
  | flushObject {handle : UInt32} (loaded : (s.transient handle).isSome) :
      Performs s (.flushContext handle)
        { s with transient := update s.transient handle none } []
  | createPrimary {handle : UInt32} (range : IsTransient handle) :
      Performs s .createPrimary
        { s with transient := update s.transient handle (some .storage) } [.u32 handle]
  | create {parent : UInt32} {data policy privArea pubArea : List UInt8}
      {privSize pubSize : UInt16} (paramSize : UInt32) (under : s.object parent = some .storage)
      (small : data.length ≤ maxSealedData)
      (wrapped : T.unwrap privArea pubArea = some (.sealedData data policy))
      (privSize_eq : privSize.toNat = privArea.length)
      (pubSize_eq : pubSize.toNat = pubArea.length) :
      Performs s (.create parent data policy) s
        [.u32 paramSize, .u16 privSize, .bytes privArea, .u16 pubSize, .bytes pubArea]
  | load {parent handle : UInt32} {privArea pubArea : List UInt8} {object : Object}
      (under : s.object parent = some .storage) (wrapped : T.unwrap privArea pubArea = some object)
      (range : IsTransient handle) :
      Performs s (.load parent privArea pubArea)
        { s with transient := update s.transient handle (some object) } [.u32 handle]
  | persist {handle target : UInt32} {object : Object} (range : IsTransient handle)
      (loaded : s.transient handle = some object) (owner : IsOwnerPersistent target)
      (free : s.persistent target = none) :
      Performs s (.evictControl handle target)
        { s with persistent := update s.persistent target (some object) } []
  | evict {target : UInt32} (owner : IsOwnerPersistent target)
      (stored : (s.persistent target).isSome) :
      Performs s (.evictControl target target)
        { s with persistent := update s.persistent target none } []
  /-- The session must have the object's policy, for the PCR as it is now, and is closed. -/
  | unsealItem {item session : UInt32} {data : List UInt8} {values : List T.Pcr} {size : UInt16}
      (paramSize : UInt32)
      (stored : s.object item = some (.sealedData data (T.policyDigest values)))
      (opened : s.sessions session = some values) (current : ∀ value ∈ values, value = s.pcr7)
      (size_eq : size.toNat = data.length) :
      Performs s (.unsealItem item session)
        { s with sessions := update s.sessions session none }
        [.u32 paramSize, .u16 size, .bytes data]
  | pcrExtend {digest : List UInt8} {value : T.Pcr} (new : value ∉ s.pcr7 :: s.former) :
      Performs s (.pcrExtend 7 digest) (s.extend value new) []
  | pcrExtendOther {index : UInt32} {digest : List UInt8} (other : index ≠ 7) :
      Performs s (.pcrExtend index digest) s []
  | daLockReset : Performs s .daLockReset s []

/-! ## What a performed request has done -/

section

variable {s s' : TpmState T} {fields : List Field} {handle session parent target : UInt32}

theorem Performs.started {sessionType : UInt8}
    (performs : Performs s (.startAuthSession sessionType) s' [.u32 handle]) :
    s' = { s with sessions := update s.sessions handle (some []) } := by
  cases performs
  rfl

/-- `PolicyPCR` adds the present value of PCR 7 to the session. -/
theorem Performs.policyAdded (performs : Performs s (.policyPcr session) s' fields) :
    ∃ values, s.sessions session = some values ∧
      s' = { s with sessions := update s.sessions session (some (values ++ [s.pcr7])) } := by
  cases performs with
  | policyPcr opened => exact ⟨_, opened, rfl⟩

theorem Performs.digested {digest : List UInt8} {size : UInt16}
    (performs : Performs s (.policyGetDigest session) s' [.u16 size, .bytes digest]) :
    s' = s ∧ ∃ values, s.sessions session = some values ∧ digest = T.policyDigest values := by
  cases performs with
  | policyGetDigest opened => exact ⟨rfl, _, opened, rfl⟩

theorem Performs.created {data policy privArea pubArea : List UInt8} {paramSize : UInt32}
    {privSize pubSize : UInt16} (performs : Performs s (.create parent data policy) s'
      [.u32 paramSize, .u16 privSize, .bytes privArea, .u16 pubSize, .bytes pubArea]) :
    s' = s ∧ data.length ≤ maxSealedData ∧
      T.unwrap privArea pubArea = some (.sealedData data policy) ∧
      privSize.toNat = privArea.length ∧ pubSize.toNat = pubArea.length := by
  cases performs with
  | create _ _ small wrapped privSize_eq pubSize_eq =>
    exact ⟨rfl, small, wrapped, privSize_eq, pubSize_eq⟩

theorem Performs.loaded {privArea pubArea : List UInt8} {object : Object}
    (wrapped : T.unwrap privArea pubArea = some object)
    (performs : Performs s (.load parent privArea pubArea) s' [.u32 handle]) :
    IsTransient handle ∧ s' = { s with transient := update s.transient handle (some object) } := by
  cases performs with
  | load _ wrapped' range =>
    rw [wrapped, Option.some.injEq] at wrapped'
    subst wrapped'
    exact ⟨range, rfl⟩

theorem Performs.primaryCreated (performs : Performs s .createPrimary s' [.u32 handle]) :
    IsTransient handle ∧
      s' = { s with transient := update s.transient handle (some .storage) } := by
  cases performs with
  | createPrimary range => exact ⟨range, rfl⟩

theorem not_isOwnerPersistent_of_isTransient (range : IsTransient handle) :
    ¬IsOwnerPersistent handle := fun owner => by
  have gap : (0x80FFFFFF : UInt32) < 0x81000000 := by decide
  exact absurd (UInt32.le_trans owner.1 range.2) (UInt32.not_le.mpr gap)

/-- `EvictControl` of a transient object stores it at a free handle. -/
theorem Performs.persisted (range : IsTransient handle)
    (performs : Performs s (.evictControl handle target) s' fields) :
    ∃ object, s.transient handle = some object ∧ IsOwnerPersistent target ∧
      s.persistent target = none ∧
      s' = { s with persistent := update s.persistent target (some object) } := by
  cases performs with
  | persist _ loaded owner free => exact ⟨_, loaded, owner, free, rfl⟩
  | evict owner => exact absurd owner (not_isOwnerPersistent_of_isTransient range)

/-- `EvictControl` of a persistent object removes it. -/
theorem Performs.evicted (performs : Performs s (.evictControl target target) s' fields) :
    IsOwnerPersistent target ∧ (s.persistent target).isSome ∧
      s' = { s with persistent := update s.persistent target none } := by
  cases performs with
  | persist range _ owner => exact absurd owner (not_isOwnerPersistent_of_isTransient range)
  | evict owner stored => exact ⟨owner, stored, rfl⟩

/-- `Unseal` needs a session whose policy is that of the object. -/
theorem Performs.unsealed {data : List UInt8} {paramSize : UInt32} {size : UInt16}
    (performs : Performs s (.unsealItem handle session) s'
      [.u32 paramSize, .u16 size, .bytes data]) :
    ∃ values, s.sessions session = some values ∧
      s.object handle = some (.sealedData data (T.policyDigest values)) := by
  cases performs with
  | unsealItem _ stored opened => exact ⟨_, opened, stored⟩

/-- The requests that touch neither a persistent handle nor PCR 7. -/
def Request.Transient : Request → Prop
  | .evictControl _ _ | .pcrExtend _ _ => False
  | _ => True

theorem Performs.persistent_eq {request : Request} (transient : request.Transient)
    (performs : Performs s request s' fields) :
    s'.persistent = s.persistent ∧ s'.pcr7 = s.pcr7 := by
  cases performs <;> first | exact ⟨rfl, rfl⟩ | exact transient.elim

theorem Performs.persistent_of_not_evict {request : Request}
    (spares : ∀ handle target, request ≠ .evictControl handle target)
    (performs : Performs s request s' fields) : s'.persistent = s.persistent := by
  cases performs <;> first | rfl | exact absurd rfl (spares _ _)

/-- An `EvictControl` of whoever puts one object, or none, under its target. -/
theorem Performs.persistent_of_evict
    (performs : Performs s (.evictControl handle target) s' fields) :
    s'.pcr7 = s.pcr7 ∧ ∃ object, s'.persistent = update s.persistent target object := by
  cases performs with
  | persist => exact ⟨rfl, _, rfl⟩
  | evict => exact ⟨rfl, _, rfl⟩

end

/-- The TPM has performed these requests, whoever asked for them. -/
def Performed : TpmState T → List Request → TpmState T → Prop
  | s, [], s' => s' = s
  | s, request :: requests, s' => ∃ m fields, Performs s request m fields ∧ Performed m requests s'

/-- PCR 7 is where it was or has gone on, and the values it has had stay behind it. -/
structure Onward (s s' : TpmState T) : Prop where
  former : s.former ⊆ s'.former
  pcr7 : s'.pcr7 = s.pcr7 ∨ s.pcr7 ∈ s'.former

section

variable {s m s' : TpmState T} {requests : List Request}

theorem Onward.refl (s : TpmState T) : Onward s s := ⟨List.Subset.refl _, .inl rfl⟩

theorem Onward.trans (first : Onward s m) (rest : Onward m s') : Onward s s' := by
  refine ⟨List.Subset.trans first.former rest.former, ?_⟩
  rcases first.pcr7 with same | left
  · rw [← same]
    exact rest.pcr7
  · exact .inr (rest.former left)

/-- PCR 7 does not come back to a value that it has left. -/
theorem Onward.pcr7_ne (first : Onward s m) (moved : m.pcr7 ≠ s.pcr7) (rest : Onward m s') :
    s'.pcr7 ≠ s.pcr7 := by
  intro same
  have left : s.pcr7 ∈ m.former := first.pcr7.resolve_left moved
  exact s'.fresh (same ▸ rest.former left)

/-- PCR 7 does not come back to an earlier value. -/
theorem Performs.onward {request : Request} {fields : List Field}
    (performs : Performs s request s' fields) : Onward s s' := by
  cases performs with
  | pcrExtend new => exact ⟨List.subset_cons_self _ _, .inr List.mem_cons_self⟩
  | _ => exact ⟨List.Subset.refl _, .inl rfl⟩

theorem Performed.onward (performed : Performed s requests s') : Onward s s' := by
  induction requests generalizing s with
  | nil =>
    rw [performed]
    exact .refl s
  | cons request requests ih =>
    obtain ⟨m, fields, performs, rest⟩ := performed
    exact performs.onward.trans (ih rest)

/-- A value of PCR 7 that was extended does not come back. -/
theorem Performed.pcr7_ne {digest : List UInt8} (performed : Performed s requests s')
    (extended : .pcrExtend 7 digest ∈ requests) : s'.pcr7 ≠ s.pcr7 := by
  induction requests generalizing s with
  | nil => cases extended
  | cons request requests ih =>
    obtain ⟨m, fields, performs, rest⟩ := performed
    by_cases moved : m.pcr7 = s.pcr7
    · rcases List.mem_cons.mp extended with rfl | later
      · cases performs with
        | pcrExtend new => exact absurd (moved ▸ List.mem_cons_self) new
        | pcrExtendOther other => exact absurd rfl other
      · rw [← moved]
        exact ih rest later
    · exact performs.onward.pcr7_ne moved rest.onward

end

/-! ## Replies -/

/-- A reply: its response code and fields, and behind them what the code does not read. It
    fits the buffer of the code. -/
def IsReply (rc : UInt32) (fields : List Field) (reply : List UInt8) : Prop :=
  ∃ tag size rest, reply = encode (header tag size rc ++ fields) ++ rest ∧
    size.toNat = reply.length ∧ reply.length ≤ rspBufSize

theorem exists_isReply (rc : UInt32) {fields : List Field}
    (fits : 10 + (fields.map Field.size).sum ≤ rspBufSize) : ∃ reply, IsReply rc fields reply := by
  have length : ∀ size, (encode (header stNoSessions size rc ++ fields) ++ []).length =
      10 + (fields.map Field.size).sum := by
    intro size
    rw [List.append_nil, length_encode, List.map_append, List.sum_append]
    rfl
  refine ⟨_, stNoSessions, UInt32.ofNat (10 + (fields.map Field.size).sum), [], rfl, ?_, ?_⟩
  · rw [length, UInt32.toNat_ofNat']
    have : rspBufSize < 2 ^ 32 := by decide
    omega
  · rw [length]
    exact fits

/-! ## The device -/

/-- The TPM behind `/dev/tpmrm0`: its state, the reply that waits to be read, and a record of
    the requests performed, each with the state it found. -/
structure Chip (T : TpmSpec) where
  tpm : TpmState T
  reply : List UInt8
  performed : List (TpmState T × Request)

namespace Chip

variable (c : Chip T)

/-- The TPM performs the request and answers. -/
def Did (request : Request) (fields : List Field) (c' : Chip T) : Prop :=
  Performs c.tpm request c'.tpm fields ∧ IsReply 0 fields c'.reply ∧
    c'.performed = c.performed ++ [(c.tpm, request)]

/-- The bytes are a request, and the TPM performs it. -/
def Executes (cmd : List UInt8) (c' : Chip T) : Prop :=
  ∃ request fields, decode cmd = some request ∧ c.Did request fields c'

/-- The TPM answers with an error. -/
def Refuses (c' : Chip T) : Prop :=
  ∃ rc reply, rc ≠ 0 ∧ IsReply rc [] reply ∧ c' = { c with reply }

end Chip

/-- How `/dev/tpmrm0` answers. Whether or not a failed write reaches the TPM is left open; a
    reliable device has no failures and refuses only what the TPM cannot perform. -/
def device (reliable : Bool) : Device Sys (Chip T) := fun c e c' =>
  match e with
  | ⟨.tpmWrite cmd, .ok _⟩ =>
    c.Executes cmd c' ∨ (c.Refuses c' ∧ (reliable → ¬∃ c', c.Executes cmd c'))
  | ⟨.tpmWrite cmd, .error _⟩ => reliable = false ∧ (c' = c ∨ c.Executes cmd c')
  | ⟨.tpmRead, .ok answer⟩ => answer = c.reply ∧ c' = c
  | ⟨.tpmRead, .error _⟩ => reliable = false ∧ c' = c
  | ⟨.tpmOpen, .error _⟩ => reliable = false ∧ c' = c
  | _ => c' = c

/-- The device has an answer to everything. -/
theorem device_total (reliable : Bool) (c : Chip T) (cmd : SysCmd) :
    ∃ r c', device reliable c ⟨cmd, r⟩ c' := by
  obtain ⟨reply, isReply⟩ := exists_isReply 1
    (show 10 + (([] : List Field).map Field.size).sum ≤ rspBufSize by decide)
  have other : cmd.Resp := SysCmd.fail (.msg "") cmd
  cases cmd with
  | tpmWrite cmd =>
    by_cases possible : ∃ c', c.Executes cmd c'
    · obtain ⟨c', executes⟩ := possible
      exact ⟨.ok (), c', .inl executes⟩
    · exact ⟨.ok (), _, .inr ⟨⟨1, reply, by decide, isReply, rfl⟩, fun _ => possible⟩⟩
  | tpmRead => exact ⟨.ok c.reply, c, rfl, rfl⟩
  | tpmOpen => exact ⟨.ok (), c, rfl⟩
  | _ => exact ⟨other, c, rfl⟩

/-- No answer takes PCR 7 back. -/
theorem device_onward (reliable : Bool) (c : Chip T) (e : Event Sys) (c' : Chip T)
    (step : device reliable c e c') : Onward c.tpm c'.tpm := by
  have executed : ∀ {cmd}, c.Executes cmd c' → Onward c.tpm c'.tpm := by
    rintro cmd ⟨request, fields, -, performs, -⟩
    exact performs.onward
  have still : c' = c → Onward c.tpm c'.tpm := by
    rintro rfl
    exact .refl _
  obtain ⟨cmd, r⟩ := e
  cases cmd with
  | tpmWrite cmd =>
    cases r with
    | ok _ =>
      rcases step with executes | ⟨⟨rc, reply, -, -, rfl⟩, -⟩
      · exact executed executes
      · exact .refl _
    | error e => exact step.2.elim still executed
  | tpmRead => cases r <;> exact still step.2
  | tpmOpen =>
    cases r with
    | ok _ => exact still step
    | error e => exact still step.2
  | _ => exact still step

/-- No program takes PCR 7 back. -/
theorem onward_of_runsOn {α : Type} {reliable : Bool} {p : Prog Sys α} {c c' : Chip T}
    {out : Outcome Sys α} (run : RunsOn (device reliable) p c c' out) : Onward c.tpm c'.tpm := by
  obtain ⟨tr, -, path⟩ := run
  exact path_rel (Q := fun c c' => Onward c.tpm c'.tpm) (fun c => .refl c.tpm) Onward.trans
    (device_onward reliable) path

/-- What a reliable device does, any device may do. -/
theorem device_of_reliable (c : Chip T) (e : Event Sys) (c' : Chip T) (step : device true c e c') :
    device false c e c' := by
  obtain ⟨cmd, r⟩ := e
  cases cmd with
  | tpmWrite cmd =>
    cases r with
    | ok _ => exact step.imp_right fun refuses => ⟨refuses.1, nofun⟩
    | error e => exact nomatch step.1
  | tpmRead =>
    cases r with
    | ok answer => exact step
    | error e => exact nomatch step.1
  | tpmOpen =>
    cases r with
    | ok _ => exact step
    | error e => exact nomatch step.1
  | _ => exact step

end Initos.Tpm2
