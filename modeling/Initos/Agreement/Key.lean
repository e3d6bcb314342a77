import Initos.Seal.RoundTrip
import Initos.Boot.UnlockProtocol

/-!
# The key at the setup and the key at boot

`initos fscrypt-setup` takes the key from `FSCRYPT_KEY`, byte for byte. At boot the key comes
from the TPM, out of `c.age`, or from the prompt, and what went in there has passed through
`read_secret_input`, `cmd_encrypt` or `read_secret`. These trim: a sealed file and the standard
input at the end, the prompt at both ends.
-/

namespace Initos.Agreement

open Interact Tpm2 Boot Seal

/-! ## The setup -/

/-- The padding loop of `get_fscrypt_key` (`src/cmd.rs:75-78`), a copy of the one of
    `add_fscrypt_key`. -/
def padKey (raw : List UInt8) : List UInt8 :=
  (List.range 64).foldl (fun key i => key.set i (raw.getD (i % raw.length) 0))
    (List.replicate 64 0)

/-- `get_fscrypt_key` (`src/cmd.rs:61-84`). -/
def getFscryptKey : Io (List UInt8) := do
  let raw ← match ← envVar "FSCRYPT_KEY" with
    | some keyStr => pure (Text.asBytes keyStr)
    | none => Text.asBytes <$> readSecret "Enter key: "
  if raw = [] then throw (.msg "fscrypt key is empty")
  else return padKey raw

/-- A loop that sets every place of a buffer, one after the other. -/
theorem foldl_set_range {α : Type} (f : Nat → α) (a : α) (m n : Nat) :
    (List.range m).foldl (fun key i => key.set i (f i)) (List.replicate (m + n) a) =
      (List.range m).map f ++ List.replicate n a := by
  induction m generalizing n with
  | zero => rw [Nat.zero_add]; rfl
  | succ m ih =>
    have front : ((List.range m).map f).length = m := by rw [List.length_map, List.length_range]
    rw [List.range_succ, List.foldl_append, Nat.add_right_comm, Nat.add_assoc, ih (n + 1)]
    rw [List.foldl_cons, List.foldl_nil, List.set_append_right _ _ (Nat.le_of_eq front), front,
      Nat.sub_self, List.replicate_succ, List.set_cons_zero, List.map_append, List.append_assoc]
    rfl

/-- The two copies agree. -/
theorem padKey_eq (raw : List UInt8) : padKey raw = repeatKey raw := by
  rw [padKey, foldl_set_range _ _ 64 0, List.replicate_zero, List.append_nil, repeatKey]

theorem asBytes_ne_nil {text : String} (nonempty : text ≠ "") : Text.asBytes text ≠ [] := by
  intro empty
  cases chars : text.toList with
  | nil => exact nonempty (String.toList_eq_nil_iff.mp chars)
  | cons c rest =>
    rw [Text.asBytes, chars, List.flatMap_cons, List.append_eq_nil_iff] at empty
    exact String.utf8EncodeChar_ne_nil empty.1

/-- With `FSCRYPT_KEY` set, its bytes are padded and nothing else is asked. -/
theorem getFscryptKey_runs {k : String} (nonempty : k ≠ "") {tr : History Sys}
    {out : Outcome Sys (Except Err (List UInt8))} :
    Runs getFscryptKey.run (⟨.envVar "FSCRYPT_KEY", some k⟩ :: tr) out ↔
      tr = [] ∧ out = .done (.ok (repeatKey (Text.asBytes k))) := by
  have filled : (if Text.asBytes k = [] then throw (.msg "fscrypt key is empty")
      else return padKey (Text.asBytes k) : Io (List UInt8)) =
      pure (repeatKey (Text.asBytes k)) := by
    rw [if_neg (asBytes_ne_nil nonempty), padKey_eq]
  constructor
  · intro runs
    obtain ⟨found, tr', same, rest⟩ := Fallible.runs_ask_bind.mp runs
    obtain ⟨⟨⟩, rfl⟩ := List.cons.inj same
    exact Fallible.runs_pure_iff.mp (filled ▸ rest)
  · intro returns
    refine Fallible.runs_ask_bind.mpr ⟨some k, tr, rfl, ?_⟩
    have rest : Runs (pure (repeatKey (Text.asBytes k)) : Io (List UInt8)).run tr out :=
      Fallible.runs_pure_iff.mpr returns
    rw [← filled] at rest
    exact rest

/-! ## The prompt -/

/-- `read_line`: up to the first line feed, which is kept. -/
def readLine (input : String) : String :=
  let line := input.toList.takeWhile (· ≠ '\n')
  String.ofList (line ++ (input.toList.drop line.length).take 1)

/-- What `read_secret` makes of its input (`src/cmd.rs:17-48`). -/
def enteredSecret (input : String) : String := Text.trim (readLine input)

/-- A text of one line without whitespace at the ends. -/
structure Plain (text : String) : Prop where
  oneLine : '\n' ∉ text.toList
  first : ∀ c ∈ text.toList.head?, Text.isWhitespace c = false
  last : ∀ c ∈ text.toList.getLast?, Text.isWhitespace c = false

theorem Plain.trim_eq {text : String} (plain : Plain text) : Text.trim text = text := by
  have trimmed := @Text.trim_append text.toList [] nofun plain.first plain.last
  rwa [List.append_nil, String.ofList_toList] at trimmed

/-- A plain text is read back as it was typed. -/
theorem Plain.enteredSecret_eq {text : String} (plain : Plain text) :
    enteredSecret (text ++ "\n") = text := by
  have line : (text.toList ++ ['\n']).takeWhile (· ≠ '\n') = text.toList := by
    rw [List.takeWhile_append_of_pos fun c member => by
      simpa using fun newline : c = '\n' => plain.oneLine (newline ▸ member)]
    simp
  have read : readLine (text ++ "\n") = String.ofList (text.toList ++ ['\n']) := by
    rw [readLine, String.toList_append, show "\n".toList = ['\n'] from rfl, line, List.drop_left]
    rfl
  have newline : ∀ c ∈ ['\n'], Text.isWhitespace c = true := Text.forall_chars rfl
  rw [enteredSecret, read, Text.trim_append newline plain.first plain.last, String.ofList_toList]

/-! ## The age file -/

/-- Whom an age file is encrypted for. -/
inductive Recipient where
  /-- A passphrase. -/
  | scrypt (pass : String)
  | x25519 (key : String)
  deriving DecidableEq

/-- `cmd_encrypt` (`src/cmd.rs:89-131`), up to the age library: what is encrypted, and for
    whom. -/
def cmdEncrypt (isX25519 : String → Bool) (stdin : List UInt8) (key : Option String)
    (args : List String) : Except Err (List UInt8 × List Recipient) :=
  let passphrase := match key with
    | some pass => if pass ≠ "" then [.scrypt pass] else []
    | none => []
  let recipients := passphrase ++ (args.filter isX25519).map .x25519
  if recipients = [] then
    .error (.msg "need KEY env var or at least one x25519 recipient argument")
  else .ok (stdin, recipients)

/-- A file that the age library wrote. -/
structure AgeFile where
  cipher : List UInt8
  plaintext : List UInt8
  recipients : List Recipient
  /-- A passphrase is not combined with other recipients. -/
  alone : ∀ pass, .scrypt pass ∈ recipients → recipients = [.scrypt pass]

/-- The age library opens a file for its passphrase and for no other. -/
def AgeFile.Answers (file : AgeFile) (pass : String) (r : Except Err (List UInt8)) : Prop :=
  ∀ right, file.recipients = [.scrypt right] →
    if pass = right then r = .ok file.plaintext else ∃ e, r = .error e

/-! ## The routes -/

/-- Where `initos seal` gets the secret from. -/
inductive Source where
  /-- `INITOS_SECRET`. -/
  | environment
  | file (path : String) (named : path ≠ "-")
  /-- With `--secret-file -`, or without a file and with nothing in `INITOS_SECRET`. -/
  | stdin (dash : Bool)

namespace Source

/-- The `--secret-file`. -/
def secretFile : Source → Option String
  | environment => none
  | file path _ => some path
  | stdin dash => if dash then some "-" else none

/-- The source holds exactly `k`. -/
def Holds (k : String) : Source → Event Sys → Prop
  | environment, ⟨.envVar name, value⟩ => name = "INITOS_SECRET" → value = some k
  | file path _, ⟨.readToString opened, r⟩ => opened = path → ∀ text, r = .ok text → text = k
  | stdin _, ⟨.envVar name, value⟩ => name = "INITOS_SECRET" → value = none ∨ value = some ""
  | stdin _, ⟨.readStdin, r⟩ => ∀ text, r = .ok text → text = k
  | _, _ => True

/-- What of `k` gets into the TPM. -/
def carried (k : String) : Source → String
  | environment => k
  | file _ _ | stdin _ => Text.trimEnd k

end Source

/-- What `read_secret_input` returns is what the source carries. -/
theorem readSecretInput_runs {source : Source} {k secret : String} (nonempty : k ≠ "")
    {tr : History Sys} (holds : ∀ e ∈ tr, source.Holds k e)
    (runs : Runs (readSecretInput source.secretFile).run tr (.done (.ok secret))) :
    secret = source.carried k := by
  -- the three reads that trim are one program up to the call
  have trims : ∀ {c : SysCmd} {as : c.Resp → Except Err String} {tr : History Sys},
      (∀ e ∈ tr, source.Holds k e) →
      (∀ r, source.Holds k ⟨c, r⟩ → ∀ text, as r = .ok text → text = k) →
      Runs (do return Text.trimEnd (← Fallible.call (I := Sys) c as) : Io String).run tr
        (.done (.ok secret)) →
      secret = Text.trimEnd k := by
    intro c as tr holds exact runs
    obtain ⟨r, tr', rfl, rest⟩ := Fallible.runs_call_bind.mp runs
    cases read : as r with
    | error e =>
      rw [read] at rest
      obtain ⟨-, impossible⟩ := Fallible.runs_pure_iff.mp rest
      cases impossible
    | ok text =>
      rw [read] at rest
      obtain ⟨-, same⟩ := Fallible.runs_pure_iff.mp rest
      rw [← exact r (holds _ List.mem_cons_self) text read]
      cases same
      rfl
  cases source with
  | environment =>
    obtain ⟨value, tr', rfl, rest⟩ := Fallible.runs_ask_bind.mp runs
    have found : value = some k := holds _ List.mem_cons_self rfl
    subst found
    dsimp only at rest
    rw [if_pos nonempty] at rest
    obtain ⟨-, same⟩ := Fallible.runs_pure_iff.mp rest
    cases same
    rfl
  | file path named =>
    rw [Source.secretFile, readSecretInput, if_neg named] at runs
    refine trims holds ?_ runs
    exact fun r read => read rfl
  | stdin dash =>
    cases dash with
    | true =>
      refine trims holds ?_ runs
      exact fun r read => read
    | false =>
      obtain ⟨value, tr', rfl, rest⟩ := Fallible.runs_ask_bind.mp runs
      have unset : value = none ∨ value = some "" := holds _ List.mem_cons_self rfl
      have later : ∀ e ∈ tr', (Source.stdin false).Holds k e := fun e member =>
        holds e (List.mem_cons_of_mem _ member)
      rcases unset with rfl | rfl
      all_goals
        refine trims later ?_ rest
        exact fun r read => read

/-- How a key gets from the setup to the boot. -/
inductive Route where
  | sealed (source : Source)
  /-- As the plaintext of `c.age`, with this passphrase. -/
  | age (pass : String)
  /-- At the prompt. -/
  | typed

/-- What reaches `add_fscrypt_key`, if anything does. -/
def Route.carried (k : String) : Route → Option String
  | sealed source => some (source.carried k)
  | age pass => if Text.trim (enteredSecret (pass ++ "\n")) = pass then some k else none
  | typed => some (enteredSecret (k ++ "\n"))

/-- What goes by the route is not trimmed. -/
def Route.Clean (k : String) : Route → Prop
  | sealed .environment => True
  | sealed _ => ∀ c ∈ k.toList.getLast?, Text.isWhitespace c = false
  | age pass => Plain pass
  | typed => Plain k

/-- A clean route carries the key unchanged. -/
theorem Route.carried_of_clean {k : String} {route : Route} (clean : route.Clean k) :
    route.carried k = some k := by
  have trimEnd_eq (last : ∀ c ∈ k.toList.getLast?, Text.isWhitespace c = false) :
      Text.trimEnd k = k := by
    have trimmed := @Text.trimEnd_append k.toList [] nofun last
    rwa [List.append_nil, String.ofList_toList] at trimmed
  cases route with
  | sealed source =>
    cases source with
    | environment => rfl
    | file path named => exact congrArg some (trimEnd_eq clean)
    | stdin dash => exact congrArg some (trimEnd_eq clean)
  | age pass =>
    have plain : Plain pass := clean
    rw [Route.carried, plain.enteredSecret_eq, plain.trim_eq, if_pos rfl]
  | typed =>
    have plain : Plain k := clean
    rw [Route.carried, plain.enteredSecret_eq]

/-! ## The boot -/

/-- The keys that are added, with the directories. -/
def keysAdded (tr : History Sys) : List (String × List UInt8) :=
  tr.filterMap fun e => match e.cmd with
    | .addKey dir key => some (dir, key)
    | _ => none

/-- What the boot finds when it asks for a password: `typed` is typed at every prompt, and
    `age` is the file `c.age`. A reliable system answers every call. -/
def Prompted (reliable : Bool) (cAge typed : String) (age : Option AgeFile) : Event Sys → Prop
  | ⟨.readSecret _, r⟩ => r = .ok (enteredSecret (typed ++ "\n")) ∨
      reliable = false ∧ ∃ e, r = .error e
  | ⟨.pathExists path, there⟩ => path = cAge → there = age.isSome
  | ⟨.readFile path, r⟩ => path = cAge → ∀ file ∈ age, r = .ok file.cipher ∨
      reliable = false ∧ ∃ e, r = .error e
  | ⟨.ageDecrypt cipher pass, r⟩ => ∀ file ∈ age, cipher = file.cipher → file.Answers pass r
  | _ => True

/-- An unlocking of `cDir` at boot, after `k` has gone by the route. -/
inductive Boots (T : TpmSpec) (reliable : Bool) (cDir k : String) : Route → History Sys → Prop where
  | unsealed {source : Source} {mode : SealMode} {handle : Option UInt32} {secret : String}
      {reading tr : History Sys} {sealing : Bool} {c c' later after : Chip T}
      {out : Outcome Sys (Except Err Unit)} :
      Runs (readSecretInput source.secretFile).run reading (.done (.ok secret)) →
      (∀ e ∈ reading, source.Holds k e) →
      RunsOn (device sealing) (cmdSeal secret mode handle).run c c' (.done (.ok ())) →
      sealTarget mode handle = mode.persistentHandle →
      -- at boot the object is still there, and PCR 7 is as it was
      later.tpm.persistent mode.persistentHandle = c'.tpm.persistent mode.persistentHandle →
      later.tpm.pcr7 = c'.tpm.pcr7 →
      Runs (unlockCWithTpm cDir (decide (mode = .secure))).run tr out →
      Path (device reliable) later tr after →
      Boots T reliable cDir k (.sealed source) tr
  | decrypted {pass cAge : String} {isX25519 : String → Bool} {args : List String}
      {file : AgeFile} {tr : History Sys} {out : Outcome Sys (Except Err Unit)} :
      pass ≠ "" →
      cmdEncrypt isX25519 (Text.asBytes k) (some pass) args =
        .ok (file.plaintext, file.recipients) →
      Runs (unlockCWithPassword cDir cAge).run tr out →
      (∀ e ∈ tr, Prompted reliable cAge pass (some file) e) →
      Boots T reliable cDir k (.age pass) tr
  | typed {cAge : String} {tr : History Sys} {out : Outcome Sys (Except Err Unit)} :
      Runs (unlockCWithPassword cDir cAge).run tr out →
      (∀ e ∈ tr, Prompted reliable cAge k none e) →
      Boots T reliable cDir k .typed tr

theorem keysAdded_append (tr₁ tr₂ : History Sys) :
    keysAdded (tr₁ ++ tr₂) = keysAdded tr₁ ++ keysAdded tr₂ := List.filterMap_append

/-- Calls that add no key. -/
theorem keysAdded_eq_nil {tr : History Sys}
    (others : ∀ e ∈ tr, ∀ dir key, e.cmd ≠ .addKey dir key) : keysAdded tr = [] := by
  refine List.filterMap_eq_nil_iff.mpr fun e member => ?_
  have other := others e member
  obtain ⟨c, r⟩ := e
  cases c with
  | addKey dir key => exact absurd rfl (other dir key)
  | _ => rfl

/-- The keys that an unlocking adds where `given` is the key that it is given. -/
structure Adds (reliable : Bool) (cDir : String) (given : Option (List UInt8))
    (tr : History Sys) : Prop where
  only : ∀ entry ∈ keysAdded tr, ∃ raw ∈ given, entry = (cDir, repeatKey raw)
  some : reliable = true → ∀ raw ∈ given, raw ≠ [] → keysAdded tr ≠ []

section

variable {cDir cAge : String} {tr : History Sys} {reliable : Bool} {given : Option (List UInt8)}

theorem Adds.prepend (tr₁ : History Sys) (first : keysAdded tr₁ = [])
    (adds : Adds reliable cDir given tr) : Adds reliable cDir given (tr₁ ++ tr) := by
  obtain ⟨only, some⟩ := adds
  constructor <;> rwa [keysAdded_append, first, List.nil_append]

theorem Adds.nothing (none_added : keysAdded tr = []) (excused : reliable = false ∨ given = none) :
    Adds reliable cDir given tr := by
  constructor
  · simp [none_added]
  · intro isReliable raw isGiven
    rcases excused with unreliable | nothing
    · rw [unreliable] at isReliable
      cases isReliable
    · rw [nothing] at isGiven
      cases isGiven

/-- Both ways to unlock add the key that they have, padded. -/
theorem adds_of_tried {rawKey : List UInt8} {e : Err} {rest : Io Unit}
    {out : Outcome Sys (Except Err Unit)}
    (rest_adds : ∀ tr out, Runs rest.run tr out → keysAdded tr = [])
    (runs : Runs (do
      addFscryptKey cDir rawKey
      if !(← cIsUnlocked cDir) then throw e else rest : Io Unit).run tr out) :
    Adds reliable cDir (some rawKey) tr := by
  by_cases empty : rawKey = []
  · rw [addFscryptKey, if_pos empty] at runs
    obtain ⟨rfl, -⟩ := Fallible.runs_pure_iff.mp runs
    exact ⟨nofun, fun _ raw isGiven nonempty => absurd (Option.some.inj isGiven ▸ empty) nonempty⟩
  rw [addFscryptKey, if_neg empty] at runs
  obtain ⟨added, tr', rfl, afterAdd⟩ := Fallible.runs_call_bind.mp runs
  have first : ∀ {tail : History Sys}, keysAdded tail = [] → Adds reliable cDir (some rawKey)
      (⟨.addKey cDir (repeatKey rawKey), added⟩ :: tail) := by
    intro tail none_added
    have one : keysAdded (⟨.addKey cDir (repeatKey rawKey), added⟩ :: tail) =
        [(cDir, repeatKey rawKey)] := congrArg (_ :: ·) none_added
    constructor
    · rw [one]
      exact fun entry member => ⟨rawKey, rfl, List.mem_singleton.mp member⟩
    · rw [one]
      exact fun _ _ _ _ => List.cons_ne_nil _ _
  cases added with
  | error e' =>
    obtain ⟨rfl, -⟩ := Fallible.runs_pure_iff.mp afterAdd
    exact first rfl
  | ok _ =>
    obtain ⟨home, tr', rfl, afterLook⟩ := Fallible.runs_ask_bind.mp afterAdd
    cases home with
    | false =>
      obtain ⟨rfl, -⟩ := Fallible.runs_pure_iff.mp afterLook
      exact first rfl
    | true => exact first (rest_adds tr' out afterLook)

/-! ### The TPM -/

/-- Unsealing adds no key to the kernel. -/
theorem unsealKey_adds {verifiedBoot : Bool} {out : Outcome Sys (Except Err (List UInt8))}
    (runs : Runs (unsealKey verifiedBoot).run tr out) : keysAdded tr = [] := by
  obtain ⟨opened, tr', rfl, uses⟩ := unsealKey_shape runs
  refine keysAdded_eq_nil (List.forall_mem_cons.mpr ⟨nofun, fun e member dir key same => ?_⟩)
  have isDevice := uses e member
  rw [same] at isDevice
  exact isDevice

/-- Nor does the extend step. -/
theorem extendPcr7_adds (tr : History Sys) (out : Outcome Sys (Except Err Unit))
    (runs : Runs extendPcr7.run tr out) : keysAdded tr = [] := by
  refine keysAdded_eq_nil fun e member dir key same => ?_
  have isExtend := (extendRun_of_runs runs).cmds e member
  rw [same] at isExtend
  exact isExtend

/-- The handle and the mark that the boot uses are those of the mode. -/
theorem unsealKey_mode (mode : SealMode) : ∃ name, unsealKey (decide (mode = .secure)) =
    unsealKeyFromHandle mode.persistentHandle mode.mark name := by
  cases mode with
  | dev => exact ⟨"dev", rfl⟩
  | secure => exact ⟨"secure", rfl⟩

/-- A boot with the TPM adds the key that was sealed. -/
theorem adds_of_sealed {T : TpmSpec} {c c' later after : Chip T} {secret : String} {mode : SealMode}
    {handle : Option UInt32} {sealing : Bool} {out : Outcome Sys (Except Err Unit)}
    (stored : RunsOn (device sealing) (cmdSeal secret mode handle).run c c' (.done (.ok ())))
    (target : sealTarget mode handle = mode.persistentHandle)
    (kept : later.tpm.persistent mode.persistentHandle = c'.tpm.persistent mode.persistentHandle)
    (same : later.tpm.pcr7 = c'.tpm.pcr7)
    (runs : Runs (unlockCWithTpm cDir (decide (mode = .secure))).run tr out)
    (path : Path (device reliable) later tr after) :
    Adds reliable cDir (some (Text.asBytes secret)) tr := by
  obtain ⟨-, small, loaded, persisted⟩ | ⟨impossible, -⟩ := cmdSeal_on stored
  swap
  · exact absurd rfl impossible
  have range := persisted.owner.isPersistent
  rw [target] at persisted range
  rw [persisted.persistent_eq, Function.update_self, sealedObject, ← persisted.pcr7_eq,
    ← same] at kept
  obtain ⟨name, unseals⟩ := unsealKey_mode mode
  -- what the unsealing can return
  have released : ∀ {tr : History Sys} {out : Outcome Sys (Except Err (List UInt8))} {m : Chip T},
      Runs (unsealKey (decide (mode = .secure))).run tr out → Path (device reliable) later tr m →
      out = .done (.ok (Text.asBytes secret)) ∨
        (∃ e, out = .done (.error e)) ∧ reliable = false := by
    intro tr out m unsealing path
    rw [unseals] at unsealing
    rcases unsealKeyFromHandle_on range ⟨tr, unsealing, path⟩ with
      ⟨data, found, rfl⟩ | ⟨error, missing⟩
    · rw [kept, Option.some.injEq] at found
      cases found
      exact .inl (by rw [stripTpmPrefix_append])
    · refine .inr ⟨error, Bool.eq_false_iff.mpr fun isReliable => ?_⟩
      exact missing isReliable _ small kept
  rw [unlockCWithTpm] at runs
  rcases runs_fallible_bind.mp runs with ⟨rawKey, tr₁, tr₂, rfl, unsealing, rest⟩ |
    ⟨e, rfl, unsealing⟩ | ⟨stop, rfl, unsealing⟩
  · obtain ⟨m, path₁, -⟩ := path_append.mp path
    obtain ⟨⟨⟩⟩ | ⟨⟨e, ⟨⟩⟩, -⟩ := released unsealing path₁
    exact (adds_of_tried extendPcr7_adds rest).prepend _ (unsealKey_adds unsealing)
  · obtain ⟨⟨⟩⟩ | ⟨-, unreliable⟩ := released unsealing path
    exact .nothing (unsealKey_adds unsealing) (.inl unreliable)
  · obtain ⟨⟨⟩⟩ | ⟨⟨e, ⟨⟩⟩, -⟩ := released unsealing path

/-! ### The password -/

/-- The key that an attempt with a password is given. -/
def passwordKey (pass : String) : Option AgeFile → Option (List UInt8)
  | none => some (passwordBytes pass)
  | some file => if file.recipients = [.scrypt (Text.trim pass)] then some file.plaintext else none

variable {typed : String} {age : Option AgeFile}

/-- Decryption gives the plaintext for the passphrase, and nothing for another one. -/
theorem decryptAgeWithKeyFile_runs {file : AgeFile} {pass right : String}
    {out : Outcome Sys (Except Err (List UInt8))}
    (prompted : ∀ e ∈ tr, Prompted reliable cAge typed (some file) e)
    (locked : file.recipients = [.scrypt right]) (nonempty : right ≠ "")
    (runs : Runs (decryptAgeWithKeyFile cAge (passwordBytes pass)).run tr out) :
    keysAdded tr = [] ∧ (out = .done (.ok file.plaintext) ∧ Text.trim pass = right ∨
      (∃ e, out = .done (.error e)) ∧ (reliable = false ∨ Text.trim pass ≠ right)) := by
  have decodes : Text.fromUtf8Lossy (passwordBytes pass) = pass := Text.fromUtf8Lossy_asBytes pass
  refine ⟨keysAdded_eq_nil fun e member dir key same => ?_, ?_⟩
  · have isKeyCmd := (decryptAgeWithKeyFile_shape runs).1 e member
    rw [same] at isKeyCmd
    exact isKeyCmd
  obtain ⟨cipher, tr', rfl, afterRead⟩ := Fallible.runs_call_bind.mp runs
  rcases prompted _ List.mem_cons_self rfl file rfl with rfl | ⟨unreliable, e, rfl⟩
  swap
  · obtain ⟨-, rfl⟩ := Fallible.runs_pure_iff.mp afterRead
    exact .inr ⟨⟨e, rfl⟩, .inl unreliable⟩
  rw [Fallible.cont_ok, decryptAgeWithKey, decodes] at afterRead
  by_cases empty : Text.trim pass = ""
  · rw [if_pos empty] at afterRead
    obtain ⟨-, rfl⟩ := Fallible.runs_pure_iff.mp afterRead
    exact .inr ⟨⟨_, rfl⟩, .inr fun same => nonempty (same.symm.trans empty)⟩
  rw [if_neg empty] at afterRead
  cases afterRead with
  | call r returned =>
    obtain ⟨rfl, rfl⟩ := Fallible.runs_pure_iff.mp returned
    have answers := prompted _ (List.mem_cons_of_mem _ List.mem_cons_self) file rfl rfl right locked
    by_cases same : Text.trim pass = right
    · rw [if_pos same] at answers
      exact .inl ⟨congrArg _ answers, same⟩
    · rw [if_neg same] at answers
      obtain ⟨e, failed⟩ := answers
      exact .inr ⟨⟨e, congrArg _ failed⟩, .inr same⟩

theorem adds_of_tryPassword {pass : String} {out : Outcome Sys (Except Err Unit)}
    (prompted : ∀ e ∈ tr, Prompted reliable cAge typed age e)
    (locked : ∀ file ∈ age, ∃ right, right ≠ "" ∧ file.recipients = [.scrypt right])
    (runs : Runs (tryPassword cDir cAge pass).run tr out) :
    Adds reliable cDir (passwordKey pass age) tr := by
  have pure_adds : ∀ (tr : History Sys) (out : Outcome Sys (Except Err Unit)),
      Runs (pure () : Io Unit).run tr out → keysAdded tr = [] := by
    intro tr out runs
    rw [(Fallible.runs_pure_iff.mp runs).1]
    rfl
  obtain ⟨there, tr', rfl, afterLook⟩ := Fallible.runs_ask_bind.mp runs
  have looked : there = age.isSome := prompted _ List.mem_cons_self rfl
  subst looked
  cases age with
  | none => exact (adds_of_tried pure_adds afterLook).prepend [_] rfl
  | some file =>
    obtain ⟨right, nonempty, recipients_eq⟩ := locked file rfl
    have later : ∀ e ∈ tr', Prompted reliable cAge typed (some file) e := fun e member =>
      prompted e (List.mem_cons_of_mem _ member)
    have given : passwordKey pass (some file) =
        if right = Text.trim pass then some file.plaintext else none := by
      simp [passwordKey, recipients_eq]
    rw [given]
    refine Adds.prepend [_] rfl ?_
    rcases runs_fallible_bind.mp afterLook with ⟨rawKey, tr₁, tr₂, rfl, decrypting, rest⟩ |
      ⟨e, rfl, decrypting⟩ | ⟨stop, rfl, decrypting⟩
    · obtain ⟨quiet, ⟨⟨⟩, same⟩ | ⟨⟨e, ⟨⟩⟩, -⟩⟩ := decryptAgeWithKeyFile_runs
        (fun e member => later e (List.mem_append_left _ member)) recipients_eq nonempty decrypting
      rw [if_pos same.symm]
      exact (adds_of_tried pure_adds rest).prepend _ quiet
    · obtain ⟨quiet, ⟨⟨⟩, -⟩ | ⟨-, excused⟩⟩ :=
        decryptAgeWithKeyFile_runs later recipients_eq nonempty decrypting
      refine .nothing quiet (excused.imp_right fun differ => if_neg (Ne.symm differ))
    · obtain ⟨-, ⟨⟨⟩, -⟩ | ⟨⟨e, ⟨⟩⟩, -⟩⟩ :=
        decryptAgeWithKeyFile_runs later recipients_eq nonempty decrypting

/-- All attempts try the same, and there is one. -/
theorem adds_of_attempts {left : Nat} {out : Outcome Sys (Except Err Unit)}
    (prompted : ∀ e ∈ tr, Prompted reliable cAge typed age e)
    (locked : ∀ file ∈ age, ∃ right, right ≠ "" ∧ file.recipients = [.scrypt right])
    (runs : Runs (passwordAttempts cDir cAge left).run tr out) :
    (∀ entry ∈ keysAdded tr, ∃ raw ∈ passwordKey (enteredSecret (typed ++ "\n")) age,
      entry = (cDir, repeatKey raw)) ∧
    (0 < left → Adds reliable cDir (passwordKey (enteredSecret (typed ++ "\n")) age) tr) := by
  induction left generalizing tr with
  | zero =>
    obtain ⟨rfl, -⟩ := Fallible.runs_pure_iff.mp runs
    exact ⟨List.forall_mem_nil _, fun impossible => absurd impossible (Nat.lt_irrefl 0)⟩
  | succ left ih =>
    suffices adds : Adds reliable cDir (passwordKey (enteredSecret (typed ++ "\n")) age) tr from
      ⟨adds.only, fun _ => adds⟩
    rw [passwordAttempts] at runs
    obtain ⟨there, tr, rfl, afterLook⟩ := Fallible.runs_ask_bind.mp runs
    obtain ⟨answer, tr, rfl, afterPrompt⟩ := Fallible.runs_call_bind.mp afterLook
    refine Adds.prepend [_, _] rfl ?_
    have later : ∀ e ∈ tr, Prompted reliable cAge typed age e := fun e member =>
      prompted e (List.mem_cons_of_mem _ (List.mem_cons_of_mem _ member))
    rcases prompted _ (List.mem_cons_of_mem _ List.mem_cons_self) with rfl | ⟨unreliable, e, rfl⟩
    swap
    · obtain ⟨rfl, -⟩ := Fallible.runs_pure_iff.mp afterPrompt
      exact .nothing rfl (.inl unreliable)
    rw [Fallible.cont_ok] at afterPrompt
    by_cases empty : enteredSecret (typed ++ "\n") = ""
    · rw [if_pos empty] at afterPrompt
      refine ⟨(ih later afterPrompt).1, fun _ raw isGiven nonempty => absurd ?_ nonempty⟩
      rw [empty] at isGiven
      cases age with
      | none => exact (Option.some.inj isGiven).symm
      | some file =>
        obtain ⟨right, right_ne, recipients_eq⟩ := locked file rfl
        have blank : Text.trim "" = "" := by decide
        simp [passwordKey, recipients_eq, blank, right_ne] at isGiven
    rw [if_neg empty] at afterPrompt
    rcases Fallible.runs_attempt_bind.mp afterPrompt with ⟨r, tr₁, tr₂, rfl, tried, rest⟩ |
      ⟨stop, rfl, tried⟩
    swap
    · exact adds_of_tryPassword later locked tried
    have first := adds_of_tryPassword
      (fun e member => later e (List.mem_append_left _ member)) locked tried
    have second : ∀ entry ∈ keysAdded tr₂,
        ∃ raw ∈ passwordKey (enteredSecret (typed ++ "\n")) age, entry = (cDir, repeatKey raw) := by
      have ended (returned : ∃ a : Except Err Unit, Runs (.pure a : Prog Sys _) tr₂ out) :
          keysAdded tr₂ = [] := by
        obtain ⟨a, returned⟩ := returned
        obtain ⟨rfl, -⟩ := Fallible.runs_pure_iff.mp returned
        rfl
      cases r with
      | ok =>
        rw [ended ⟨_, rest⟩]
        exact List.forall_mem_nil _
      | error e =>
        dsimp only at rest
        split at rest
        · exact (ih (fun e member => later e (List.mem_append_right _ member)) rest).1
        · rw [ended ⟨_, rest⟩]
          exact List.forall_mem_nil _
    constructor
    · intro entry member
      rw [keysAdded_append] at member
      exact (List.mem_append.mp member).elim (first.only entry) (second entry)
    · intro isReliable raw isGiven nonempty nothing
      rw [keysAdded_append] at nothing
      exact first.some isReliable raw isGiven nonempty (List.append_eq_nil_iff.mp nothing).1

variable {T : TpmSpec} {k : String} {route : Route}

/-- What a boot adds to the kernel is the key that the route has carried. -/
theorem Boots.adds (nonempty : k ≠ "") (boots : Boots T reliable cDir k route tr) :
    Adds reliable cDir ((route.carried k).map Text.asBytes) tr := by
  cases boots with
  | unsealed reads holds stored target kept same runs path =>
    rw [readSecretInput_runs nonempty holds reads] at stored
    exact adds_of_sealed stored target kept same runs path
  | @decrypted pass cAge isX25519 args file _ _ pass_ne encrypted runs prompted =>
    obtain ⟨plaintext_eq, recipients_eq⟩ : Text.asBytes k = file.plaintext ∧
        .scrypt pass :: (args.filter isX25519).map .x25519 = file.recipients := by
      simpa [cmdEncrypt, pass_ne] using encrypted
    have locked : file.recipients = [.scrypt pass] := file.alone pass (by simp [← recipients_eq])
    have adds := (adds_of_attempts prompted
      (by rintro _ ⟨⟩; exact ⟨pass, pass_ne, locked⟩) runs).2 (by decide)
    have given : passwordKey (enteredSecret (pass ++ "\n")) (some file) =
        ((Route.age pass).carried k).map Text.asBytes := by
      rw [passwordKey, locked, ← plaintext_eq, Route.carried]
      by_cases same : Text.trim (enteredSecret (pass ++ "\n")) = pass
      · simp [same]
      · simp [same, Ne.symm same]
    rwa [given] at adds
  | typed runs prompted => exact (adds_of_attempts prompted nofun runs).2 (by decide)

theorem bootKey_eq_setupKey (nonempty : k ≠ "") (boots : Boots T reliable cDir k route tr) :
    ∃ key : List UInt8, key.length = 64 ∧
      (∀ setup out, Runs getFscryptKey.run (⟨.envVar "FSCRYPT_KEY", some k⟩ :: setup) out ↔
        setup = [] ∧ out = .done (.ok key)) ∧
      -- what went by the route untrimmed gives the key of the setup
      (route.Clean k → (∀ entry ∈ keysAdded tr, entry = (cDir, key)) ∧
        (reliable = true → keysAdded tr ≠ [])) ∧
      -- in any case the key is made of what the route carries
      ∀ entry ∈ keysAdded tr, ∃ text ∈ route.carried k,
        entry = (cDir, repeatKey (Text.asBytes text)) := by
  have adds := boots.adds nonempty
  refine ⟨repeatKey (Text.asBytes k), by rw [repeatKey, List.length_map, List.length_range],
    fun _ _ => getFscryptKey_runs nonempty, fun clean => ?_, fun entry member => ?_⟩
  · rw [Route.carried_of_clean clean] at adds
    refine ⟨fun entry member => ?_, fun isReliable => ?_⟩
    · obtain ⟨raw, ⟨⟩, entry_eq⟩ := adds.only entry member
      exact entry_eq
    · exact adds.some isReliable _ rfl (asBytes_ne_nil nonempty)
  · obtain ⟨raw, given, entry_eq⟩ := adds.only entry member
    obtain ⟨text, carried, rfl⟩ := Option.map_eq_some_iff.mp given
    exact ⟨text, carried, entry_eq⟩

end

/-- The sample TPM takes `key` from the source and gives it back. -/
theorem exists_boots_sealed (k : String) (source : Source) {reading : History Sys}
    (reads : Runs (readSecretInput source.secretFile).run reading (.done (.ok "key")))
    (holds : ∀ e ∈ reading, source.Holds k e) :
    ∃ tr, Boots sampleSpec true "/z/c" k (.sealed source) tr := by
  have owner : IsOwnerPersistent (sealTarget .dev none) := by decide
  obtain ⟨sealed, loaded, stored, -⟩ := exists_cmdSeal (sealable_sampleChip .dev) owner
  obtain ⟨after, out, tr, runs, path⟩ := exists_runsOn (device_total true)
    (unlockCWithTpm "/z/c" (decide (SealMode.dev = .secure))).run sealed
  exact ⟨tr, .unsealed reads holds stored rfl rfl rfl runs path⟩

theorem bootKey_eq_setupKey_environment :
    ∃ tr key, Boots sampleSpec true "/z/c" "key" (.sealed .environment) tr ∧
      Runs getFscryptKey.run [⟨.envVar "FSCRYPT_KEY", some "key"⟩] (.done (.ok key)) ∧
      keysAdded tr ≠ [] ∧ ∀ entry ∈ keysAdded tr, entry = ("/z/c", key) := by
  have reads : Runs (readSecretInput Source.environment.secretFile).run
      [⟨.envVar "INITOS_SECRET", some "key"⟩] (.done (.ok "key")) := .call _ (.done _)
  obtain ⟨tr, boots⟩ := exists_boots_sealed "key" .environment reads (by simp [Source.Holds])
  obtain ⟨key, -, setup, agrees, -⟩ := bootKey_eq_setupKey (by decide) boots
  obtain ⟨same, added⟩ := agrees trivial
  exact ⟨tr, key, boots, (setup _ _).mpr ⟨rfl, rfl⟩, added rfl, same⟩

/-- A blank behind the key is lost on the way through the standard input. -/
theorem stdin_blank_differs :
    ∃ tr key, Boots sampleSpec true "/z/c" "key " (.sealed (.stdin true)) tr ∧
      Runs getFscryptKey.run [⟨.envVar "FSCRYPT_KEY", some "key "⟩] (.done (.ok key)) ∧
      keysAdded tr ≠ [] ∧ ∀ entry ∈ keysAdded tr, entry.2 ≠ key := by
  have trimmed : Text.trimEnd "key " = "key" := by decide
  have differ : repeatKey (Text.asBytes "key") ≠ repeatKey (Text.asBytes "key ") := by decide
  have reads : Runs (readSecretInput (Source.stdin true).secretFile).run
      [⟨.readStdin, .ok "key "⟩] (.done (.ok "key")) := by
    refine Fallible.runs_call_bind.mpr ⟨.ok "key ", [], rfl, ?_⟩
    exact Fallible.runs_pure_iff.mpr ⟨rfl, by rw [trimmed]⟩
  obtain ⟨tr, boots⟩ := exists_boots_sealed "key " (.stdin true) reads (by simp [Source.Holds])
  have adds := boots.adds (by decide)
  rw [Route.carried, Source.carried, trimmed] at adds
  refine ⟨tr, _, boots, (getFscryptKey_runs (by decide)).mpr ⟨rfl, rfl⟩,
    adds.some rfl _ rfl (asBytes_ne_nil (by decide)), fun entry member => ?_⟩
  obtain ⟨raw, ⟨⟩, rfl⟩ := adds.only entry member
  exact differ

end Initos.Agreement
