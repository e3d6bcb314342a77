import Initos.Lib.Interact
import Initos.Lib.Bytes

/-!
# What the initrd asks of the kernel

The programs of the initrd are modelled over one interface, `Sys`: the system
calls and the library calls that leave the process. Every one of them may fail at
any time; the models say nothing about the answers, the theorems that need a file
system or a TPM behind the calls say so.

Paths and directory entries are Unicode strings, and what only goes to the log is
left out.
-/

namespace Initos

open Interact Bytes

/-- The kinds of `std::io::Error` that the code distinguishes. -/
inductive ErrorKind where
  | notFound
  | invalidInput
  | invalidData
  /-- Any kind the code does not name. -/
  | other
  deriving DecidableEq, Repr

/-- An `io::Error` has a kind; an error made from a string has none. -/
structure Err where
  kind : Option ErrorKind
  text : String
  deriving DecidableEq, Repr

/-- `io::Error::new`. -/
def Err.io (kind : ErrorKind) (text : String) : Err := ⟨some kind, text⟩

/-- `"..".into()` as a boxed error. -/
def Err.msg (text : String) : Err := ⟨none, text⟩

/-- How a process ends without returning. -/
inductive Stop where
  | panic
  | exit (code : Nat)
  /-- Another program runs in the process now. -/
  | replaced
  /-- The bound on the polling loops of the model is used up. -/
  | fuel
  deriving DecidableEq, Repr

/-- A call that leaves the process. -/
inductive SysCmd where
  | envVar (name : String)
  | setVar (name value : String)
  | pathExists (path : String)
  | isDir (path : String)
  | isFile (path : String)
  | readFile (path : String)
  | readToString (path : String)
  /-- `read_to_string` on the standard input. -/
  | readStdin
  | readDir (path : String)
  | readLink (path : String)
  | canonicalize (path : String)
  /-- Open a device, seek to `off` and `read_exact` `len` bytes. -/
  | readAt (device : String) (off len : Nat)
  | uname
  | now
  | sleep (millis : Nat)
  | mountPseudoFs (fstype target : String)
  | mountFilesystem (device target fstype : String) (readonly : Bool)
  | mountFilesystemWithOptions (device target fstype : String) (readonly : Bool) (options : String)
  | bindMount (source target : String)
  | recursiveBindMount (source target : String)
  | mountLoop (image target : String)
  | switchRoot (newRoot init : String) (args : List String)
  | execv (path : String)
  | measureVerity (path : String)
  | openRead (path : String)
  | enableVerity (path : String)
  | addKey (dir : String) (key : List UInt8)
  | readSecret (prompt : String)
  | ageDecrypt (cipher : List UInt8) (passphrase : String)
  | tpmOpen
  | tpmWrite (cmd : List UInt8)
  | tpmRead
  | urandomOpen
  | urandomRead (len : Nat)
  deriving DecidableEq

/-- The answers. Where the code only asks whether a call failed, the answer of a
    success carries nothing. -/
@[reducible] def SysCmd.Resp : SysCmd → Type
  | .envVar _ => Option String
  | .setVar _ _ => Unit
  | .pathExists _ | .isDir _ | .isFile _ => Bool
  | .readFile _ | .readAt _ _ _ => Except Err (List UInt8)
  | .readToString _ | .readStdin | .readLink _ | .canonicalize _ | .readSecret _ =>
    Except Err String
  | .readDir _ => Except Err (List (Except Err String))
  | .uname => Except Err (List UInt8)
  | .now => Nat
  | .sleep _ => Unit
  | .mountPseudoFs _ _ | .mountFilesystem _ _ _ _ | .mountFilesystemWithOptions _ _ _ _ _
  | .bindMount _ _ | .recursiveBindMount _ _ | .mountLoop _ _ | .openRead _
  | .enableVerity _ | .addKey _ _ | .tpmOpen | .tpmWrite _ | .urandomOpen => Except Err Unit
  -- after a success of these two, the process runs another program
  | .switchRoot _ _ _ | .execv _ => Except Err Unit
  | .measureVerity _ => Except Err (Nat × List UInt8)
  | .ageDecrypt _ _ | .tpmRead | .urandomRead _ => Except Err (List UInt8)

instance (c : SysCmd) : DecidableEq c.Resp := by
  cases c <;> infer_instance

/-- The answers of a system on which nothing exists and every call fails. -/
def SysCmd.fail (e : Err) : (c : SysCmd) → c.Resp
  | .envVar _ => none
  | .setVar _ _ => ()
  | .pathExists _ | .isDir _ | .isFile _ => false
  | .readFile _ | .readAt _ _ _ => .error e
  | .readToString _ | .readStdin | .readLink _ | .canonicalize _ | .readSecret _ => .error e
  | .readDir _ => .error e
  | .uname => .error e
  | .now => (0 : Nat)
  | .sleep _ => ()
  | .mountPseudoFs _ _ | .mountFilesystem _ _ _ _ | .mountFilesystemWithOptions _ _ _ _ _
  | .bindMount _ _ | .recursiveBindMount _ _ | .mountLoop _ _ | .openRead _
  | .enableVerity _ | .addKey _ _ | .tpmOpen | .tpmWrite _ | .urandomOpen => .error e
  | .switchRoot _ _ _ | .execv _ => .error e
  | .measureVerity _ => .error e
  | .ageDecrypt _ _ | .tpmRead | .urandomRead _ => .error e

/-- The kernel, as the programs of the initrd call it. -/
abbrev Sys : Iface := ⟨SysCmd, SysCmd.Resp, Stop⟩

/-- The programs of the initrd. -/
abbrev Io := Fallible Sys Err

/-! ## The calls, under the names of the functions that make them -/

/-- `std::env::var`. -/
abbrev envVar (name : String) : Io (Option String) := .ask (I := Sys) (.envVar name)

/-- `std::env::set_var`. -/
abbrev setVar (name value : String) : Io Unit := .ask (I := Sys) (.setVar name value)

/-- `Path::exists`. -/
abbrev pathExists (path : String) : Io Bool := .ask (I := Sys) (.pathExists path)

/-- `Path::is_dir`. -/
abbrev isDir (path : String) : Io Bool := .ask (I := Sys) (.isDir path)

/-- `Path::is_file`. -/
abbrev isFile (path : String) : Io Bool := .ask (I := Sys) (.isFile path)

/-- `fs::read`. -/
abbrev readFile (path : String) : Io (List UInt8) := .call (I := Sys) (.readFile path) fun r => r

/-- `fs::read_to_string`. -/
abbrev readToString (path : String) : Io String := .call (I := Sys) (.readToString path) fun r => r

/-- `io::stdin().read_to_string`. -/
abbrev readStdin : Io String := .call (I := Sys) SysCmd.readStdin fun r => r

/-- `fs::read_dir`: the names of the entries, each of which may be an error. -/
abbrev readDir (path : String) : Io (List (Except Err String)) :=
  .call (I := Sys) (.readDir path) fun r => r

/-- `fs::read_link`. -/
abbrev readLink (path : String) : Io String := .call (I := Sys) (.readLink path) fun r => r

/-- `fs::canonicalize`. -/
abbrev canonicalize (path : String) : Io String := .call (I := Sys) (.canonicalize path) fun r => r

/-- `File::open`, `seek` and `read_exact`. -/
abbrev readAt (device : String) (off len : Nat) : Io (List UInt8) :=
  .call (I := Sys) (.readAt device off len) fun r => r

/-- `libc::uname`: the bytes of the release. -/
abbrev uname : Io (List UInt8) := .call (I := Sys) SysCmd.uname fun r => r

/-- `Instant::now`, in milliseconds. -/
abbrev now : Io Nat := .ask (I := Sys) SysCmd.now

/-- `thread::sleep`. -/
abbrev sleep (millis : Nat) : Io Unit := .ask (I := Sys) (.sleep millis)

/-- `mount_pseudo_fs` (`src/mount.rs:18-48`). -/
abbrev mountPseudoFs (fstype target : String) : Io Unit :=
  .call (I := Sys) (.mountPseudoFs fstype target) fun r => r

/-- `mount_filesystem` (`src/mount.rs:448-478`). -/
abbrev mountFilesystem (device target fstype : String) (readonly : Bool) : Io Unit :=
  .call (I := Sys) (.mountFilesystem device target fstype readonly) fun r => r

/-- `mount_filesystem_with_options` (`src/mount.rs:481-510`). -/
abbrev mountFilesystemWithOptions (device target fstype : String) (readonly : Bool)
    (options : String) : Io Unit :=
  .call (I := Sys) (.mountFilesystemWithOptions device target fstype readonly options) fun r => r

/-- `bind_mount` (`src/mount.rs:513-535`). -/
abbrev bindMount (source target : String) : Io Unit :=
  .call (I := Sys) (.bindMount source target) fun r => r

/-- `recursive_bind_mount` (`src/boot.rs:869-891`). -/
abbrev recursiveBindMount (source target : String) : Io Unit :=
  .call (I := Sys) (.recursiveBindMount source target) fun r => r

/-- `mount_loop` (`src/mount.rs:550-597`). -/
abbrev mountLoop (image target : String) : Io Unit :=
  .call (I := Sys) (.mountLoop image target) fun r => r

/-- `switch_root_with_args`, which returns only where it fails (`src/mount.rs:613-674`). -/
def switchRootWithArgs (newRoot init : String) (args : List String) : Io Unit := do
  Fallible.call (I := Sys) (.switchRoot newRoot init args) fun r => r
  Fallible.halt .replaced

/-- `execv`, whose error the caller only logs. -/
def execv (path : String) : Io Unit := do
  match ← Fallible.ask (I := Sys) (.execv path) with
  | .ok () => Fallible.halt .replaced
  | .error _ => return ()

/-- `measure_verity` (`src/verity.rs:47-67`): the algorithm and the digest. -/
abbrev measureVerity (path : String) : Io (Nat × List UInt8) :=
  .call (I := Sys) (.measureVerity path) fun r => r

/-- `File::open` for reading. -/
abbrev openRead (path : String) : Io Unit := .call (I := Sys) (.openRead path) fun r => r

/-- `enable_verity_fd` (`src/verity.rs:72-91`) on the opened file. -/
abbrev enableVerity (path : String) : Io Unit := .call (I := Sys) (.enableVerity path) fun r => r

/-- `add_key` (`src/fscrypt.rs:30-69`), without the identifier it returns. -/
abbrev addKey (dir : String) (key : List UInt8) : Io Unit :=
  .call (I := Sys) (.addKey dir key) fun r => r

/-- `read_secret` (`src/cmd.rs:13-51`). -/
abbrev readSecret (prompt : String) : Io String := .call (I := Sys) (.readSecret prompt) fun r => r

/-- The decryption in `decrypt_age_with_key` (`src/boot.rs:610-619`), by the age library. -/
abbrev ageDecrypt (cipher : List UInt8) (passphrase : String) : Io (List UInt8) :=
  .call (I := Sys) (.ageDecrypt cipher passphrase) fun r => r

/-- `tpm2::open` (`src/tpm2.rs:68-74`). -/
abbrev tpmOpen : Io Unit := .call (I := Sys) SysCmd.tpmOpen fun r => r

/-- `write_all` to the TPM device. -/
abbrev tpmWrite (cmd : List UInt8) : Io Unit := .call (I := Sys) (.tpmWrite cmd) fun r => r

/-- `read` from the TPM device into the reply buffer. -/
abbrev tpmRead : Io (List UInt8) := .call (I := Sys) SysCmd.tpmRead fun r => r

/-- `File::open("/dev/urandom")`. -/
abbrev urandomOpen : Io Unit := .call (I := Sys) SysCmd.urandomOpen fun r => r

/-- `read_exact` from the opened `/dev/urandom`. -/
abbrev urandomRead (len : Nat) : Io (List UInt8) := .call (I := Sys) (.urandomRead len) fun r => r

/-- A computation with bounds checks; a failed check aborts the process. -/
def ofChecked {α : Type} : Checked α → Io α
  | some a => pure a
  | none => Fallible.halt .panic

/-- The `?` on a result that needs no call. -/
def ofExcept {α : Type} : Except Err α → Io α
  | .ok a => pure a
  | .error e => throw e

/-- `env::var(name).unwrap_or_else(|_| default)`. -/
def envVarOr (name default : String) : Io String := do
  return (← envVar name).getD default

end Initos
