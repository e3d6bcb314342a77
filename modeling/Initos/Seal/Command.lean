import Initos.Tpm2.Wire
import Initos.Efi.Vars

/-!
# The seal and primary commands

`initos primary` makes the storage key that everything is sealed under, `initos seal` seals
a secret (`src/main.rs:53-72`, `192-347` and `384-457`).
-/

namespace Initos.Seal

open Interact Tpm2

/-! ## Modes and arguments -/

/-- `SealMode`. -/
inductive SealMode where
  | dev
  | secure
  deriving DecidableEq

namespace SealMode

/-- `persistent_handle` (`src/main.rs:215-220`). -/
def persistentHandle : SealMode → UInt32
  | .dev => defaultSealedHandleDev
  | .secure => defaultSealedHandleSecure

/-- The mark of `prefix` (`src/main.rs:222-227`): `devc:` or `secc:`. -/
def mark : SealMode → List UInt8
  | .dev => [0x64, 0x65, 0x76, 0x63, 0x3a]
  | .secure => [0x73, 0x65, 0x63, 0x63, 0x3a]

end SealMode

/-- `u32::from_str_radix` with radix 16, of hexadecimal digits. -/
def u32FromHex (hex : List Char) : Except String UInt32 :=
  if hex = [] then .error "cannot parse integer from empty string"
  else if Text.hexValue hex < 2 ^ 32 then .ok (UInt32.ofNat (Text.hexValue hex))
  else .error "number too large to fit in target type"

/-- `parse_tpm_handle` (`src/main.rs:319-347`). Up to four digits without a `0x` are the low
    half of a persistent handle. -/
def parseTpmHandle (value : String) : Except String UInt32 :=
  let trimmed := Text.trim value
  if trimmed = "" then .error "TPM handle is empty"
  else
    let hex := ((Text.stripPrefix trimmed "0x").or (Text.stripPrefix trimmed "0X")).getD trimmed
    if !hex.toList.all Text.isHexDigit then .error s!"bad TPM handle '{value}': expected hex"
    else
      match u32FromHex hex.toList with
      | .error e => .error s!"bad TPM handle '{value}': {e}"
      | .ok parsed =>
        let handle :=
          if !Text.startsWith trimmed "0x" && !Text.startsWith trimmed "0X" &&
            hex.toList.length ≤ 4 then 0x81000000 ||| parsed
          else parsed
        if 0x81000000 ≤ handle ∧ handle ≤ 0x81FFFFFF then .ok handle
        else .error (s!"bad TPM handle 0x{Text.hex32Upper handle.toNat}: " ++
          "expected persistent handle 0x81000000..0x81FFFFFF")

/-- What `parse_seal_args` collects. -/
structure SealOptions where
  mode : Option SealMode
  handle : Option UInt32
  secretFile : Option String
  deriving DecidableEq

/-- The loop of `parse_seal_args` (`src/main.rs:259-293`). -/
def sealOptions : List String → SealOptions → Except String SealOptions
  | [], opts => .ok opts
  | arg :: rest, opts =>
    if arg = "--secure" then sealOptions rest { opts with mode := some .secure }
    else if arg = "--dev" then sealOptions rest { opts with mode := some .dev }
    else if arg = "--handle" then
      match rest with
      | [] => .error "--handle requires a value"
      | value :: rest => do
        let handle ← parseTpmHandle value
        sealOptions rest { opts with handle := some handle }
    else if arg = "--secret-file" then
      match rest with
      | [] => .error "--secret-file requires a value"
      | value :: rest => sealOptions rest { opts with secretFile := some value }
    else if Text.startsWith arg "--" then .error s!"unexpected seal argument: {arg}"
    else .error ("seal no longer accepts SECRET as a positional argument (visible in " ++
      "/proc/cmdline and shell history); use --secret-file PATH, INITOS_SECRET env, or stdin: " ++
      s!"got '{arg}'")

/-- `detect_seal_mode` (`src/main.rs:388-408`). -/
def detectSealMode : Io SealMode := do
  let basePath ← envVarOr "INITOS_EFI_PATH" "/sys/firmware/efi/efivars"
  match ← Fallible.attempt (Efi.readSecureBoot basePath) with
  | .ok value => return if value ≠ 0 then .secure else .dev
  | .error _ => return .dev

/-- `parse_seal_args` (`src/main.rs:259-296`): the mode is looked up only where none is given. -/
def parseSealArgs (args : List String) :
    Io (Except String (SealMode × Option UInt32 × Option String)) := do
  match sealOptions args ⟨none, none, none⟩ with
  | .error e => return .error e
  | .ok opts =>
    match opts.mode with
    | some mode => return .ok (mode, opts.handle, opts.secretFile)
    | none =>
      let mode ← detectSealMode
      return .ok (mode, opts.handle, opts.secretFile)

/-- `read_secret_input` (`src/main.rs:300-317`). -/
def readSecretInput (secretFile : Option String) : Io String := do
  match secretFile with
  | some path =>
    if path = "-" then return Text.trimEnd (← readStdin)
    else return Text.trimEnd (← readToString path)
  | none =>
    match ← envVar "INITOS_SECRET" with
    | some secret =>
      if secret ≠ "" then return secret
      else return Text.trimEnd (← readStdin)
    | none => return Text.trimEnd (← readStdin)

/-! ## The commands -/

/-- `cmd_primary` (`src/main.rs:192-203`). -/
def cmdPrimary : Io Unit := do
  openDevice
  let transient ← createPrimary
  tryEvictPersistent defaultPrimaryHandle
  evictControl transient defaultPrimaryHandle

/-- The handle that `cmd_seal` persists to. -/
def sealTarget (mode : SealMode) (handle : Option UInt32) : UInt32 :=
  handle.getD mode.persistentHandle

/-- `cmd_seal` (`src/main.rs:411-457`). -/
def cmdSeal (secret : String) (mode : SealMode) (handle : Option UInt32) : Io Unit := do
  openDevice
  let policy ← startPolicySession
  policyPcr policy
  let digest ← policyGetDigest policy
  flushContext policy
  let sealedSecret := mode.mark ++ Text.asBytes secret
  let (privArea, pubArea) ← create defaultPrimaryHandle sealedSecret digest
  let loaded ← load defaultPrimaryHandle privArea pubArea
  let persistent := sealTarget mode handle
  tryEvictPersistent persistent
  evictControl loaded persistent

/-- The `seal` branch of `main` (`src/main.rs:53-72`). -/
def sealCommand (args : List String) : Io Unit := do
  match ← parseSealArgs args with
  | .error _ => Fallible.halt (.exit 1)
  | .ok (mode, handle, secretFile) =>
    match ← Fallible.attempt (readSecretInput secretFile) with
    | .ok secret =>
      if secret ≠ "" then cmdSeal secret mode handle
      else Fallible.halt (.exit 1)
    | .error _ => Fallible.halt (.exit 1)

end Initos.Seal
