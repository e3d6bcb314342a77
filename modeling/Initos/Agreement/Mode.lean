import Initos.Loader.Main
import Initos.Boot.Mode

/-!
# The two decisions about the mode

Both boot stages derive their mode from the SecureBoot variable. The loader reads it
into a buffer of one byte and asks for the value 1; the initrd reads all of it and
asks for a first byte other than 0. They part on payloads other than `[0]` and `[1]`.
-/

namespace Initos.Agreement

open Interact Bytes Efi Loader Boot

/-- What may be found under the name SecureBoot. -/
inductive VarState where
  | absent
  | unreadable
  | payload (bytes : List UInt8)
  deriving DecidableEq

/-- `get_variable` returns the payload when it fits the caller's buffer and an error
    otherwise. -/
def LoaderSees (st : VarState) : Rely Uefi := fun _ e =>
  match e with
  | ⟨.getVariable name vendor bufSize, r⟩ => name = "SecureBoot" → vendor = globalVariable →
      match st with
      | .payload bytes =>
        if bytes.length ≤ bufSize then r = Except.ok bytes else ∃ status, r = Except.error status
      | _ => ∃ status, r = Except.error status
  | _ => True

/-- efivarfs shows the payload behind four bytes of attributes, below any base path. -/
def InitrdSees (st : VarState) (attributes : List UInt8) : Rely Sys := fun _ e =>
  match e with
  | ⟨.readFile path, r⟩ => ∀ basePath, path = efiVarPath "SecureBoot" basePath →
      match st with
      | .payload bytes => r = Except.ok (attributes ++ bytes)
      | _ => ∃ err, r = Except.error err
  | _ => True

/-- The loader's decision. -/
def loaderMode : VarState → Bool
  | .payload bytes => bytes == [1]
  | _ => false

/-- The initrd's decision, where it makes one. -/
def initrdMode : VarState → Option Bool
  | .payload (b :: _) => some (b != 0)
  | _ => none

/-- What the loader takes the mode to be. -/
theorem secureBootStatus_wp (st : VarState) (h : History Uefi) :
    Prog.wp (LoaderSees st) (fun _ out => out = .done (loaderMode st)) secureBootStatus h := by
  rw [secureBootStatus, Prog.wp_bind, Fallible.wp_call]
  intro answer read
  have read := read rfl rfl
  cases st with
  | absent =>
    obtain ⟨status, rfl⟩ := read
    rw [Prog.andThen_done, Prog.wp_pure]
    rfl
  | unreadable =>
    obtain ⟨status, rfl⟩ := read
    rw [Prog.andThen_done, Prog.wp_pure]
    rfl
  | payload bytes =>
    dsimp only at read
    match bytes with
    | [] =>
      rw [if_pos (by decide)] at read
      subst read
      rw [Prog.andThen_done, Prog.wp_pure]
      rfl
    | [b] =>
      rw [if_pos (by simp)] at read
      subst read
      rw [Prog.andThen_done, Prog.wp_pure]
      simp [loaderMode]
    | b :: b' :: rest =>
      rw [if_neg (by simp)] at read
      obtain ⟨status, rfl⟩ := read
      rw [Prog.andThen_done, Prog.wp_pure]
      simp [loaderMode]

/-- What the initrd reads: the first byte of the payload, if there is one. -/
theorem readSecureBoot_wp (st : VarState) {attributes : List UInt8}
    (four : attributes.length = 4) (basePath : String) (h : History Sys) :
    Prog.wp (InitrdSees st attributes)
      (fun _ out => match st with
        | .payload (b :: _) => out = .done (.ok b)
        | _ => ∃ err, out = .done (.error err))
      (readSecureBoot basePath).run h := by
  rw [readSecureBoot, readEfiVar, bind_assoc, Fallible.wp_call_bind]
  intro answer read
  have read := read basePath rfl
  match st with
  | .absent =>
    obtain ⟨err, rfl⟩ := read
    rw [Fallible.cont_error, Prog.wp_pure]
    exact ⟨err, rfl⟩
  | .unreadable =>
    obtain ⟨err, rfl⟩ := read
    rw [Fallible.cont_error, Prog.wp_pure]
    exact ⟨err, rfl⟩
  | .payload bytes =>
    dsimp only at read
    subst read
    have long : ¬(attributes ++ bytes).length < 4 := by simp [four]
    have payload : slice (attributes ++ bytes) 4 (attributes ++ bytes).length = some bytes := by
      rw [slice_eq_some _ (by simp [four]) (Nat.le_refl _), ← four]
      simp
    rw [Fallible.cont_ok, stripAttributes, if_neg long, payload, ofChecked, pure_bind]
    match bytes with
    | [] =>
      rw [if_pos rfl, Fallible.throw_bind, Fallible.run_throw, Prog.wp_pure]
      exact ⟨_, rfl⟩
    | b :: rest =>
      rw [if_neg (by simp), index_eq_some (by simp), ofChecked]
      dsimp only
      rw [Fallible.run_pure, Prog.wp_pure]
      rfl

/-- What the initrd takes the mode to be. -/
theorem detectVerifiedBootStrict_wp (st : VarState) {attributes : List UInt8}
    (four : attributes.length = 4) (h : History Sys) :
    Prog.wp (InitrdSees st attributes)
      (fun _ out => match initrdMode st with
        | some verified => out = .done (.ok verified)
        | none => ∃ err, out = .done (.error err))
      detectVerifiedBootStrict.run h := by
  rw [detectVerifiedBootStrict, efiBasePath, envVarOr, bind_assoc, Fallible.wp_ask_bind]
  intro var _
  rw [pure_bind, Fallible.wp_bind, Fallible.wp_attempt]
  apply Prog.wp_mono (readSecureBoot_wp st four _ _)
  intro h' out post
  match st with
  | .absent | .unreadable | .payload [] =>
    obtain ⟨err, rfl⟩ := post
    rw [Prog.andThen_done, Prog.wp_pure, Prog.andThen_done, Fallible.cont_ok, Fallible.run_throw,
      Prog.wp_pure]
    exact ⟨_, rfl⟩
  | .payload (b :: rest) =>
    dsimp only at post
    subst post
    rw [Prog.andThen_done, Prog.wp_pure, Prog.andThen_done, Fallible.cont_ok, Fallible.run_pure,
      Prog.wp_pure]
    rfl

/-- The initrd boots verified only after a loader that verified, exactly for the variable
    states where it makes no decision, decides for development mode, or reads the single
    byte 1. -/
theorem verified_initrd_after_verified_loader_iff (st : VarState) {attributes : List UInt8}
    (four : attributes.length = 4) {tr₁ : History Uefi} {out₁ : Outcome Uefi Bool}
    (loader : Runs secureBootStatus tr₁ out₁) (loaderSees : Admits (LoaderSees st) [] tr₁)
    {tr₂ : History Sys} {out₂ : Outcome Sys (Except Err Bool)}
    (initrd : Runs detectVerifiedBootStrict.run tr₂ out₂)
    (initrdSees : Admits (InitrdSees st attributes) [] tr₂) :
    (out₂ = .done (.ok true) → out₁ = .done true) ↔
      st = .absent ∨ st = .unreadable ∨ st = .payload [] ∨
        (∃ rest, st = .payload (0 :: rest)) ∨ st = .payload [1] := by
  have loaderDecides := (Prog.wp_iff_runs _ _ _ _).mp (secureBootStatus_wp st []) _ _ loader
    loaderSees
  have initrdDecides := (Prog.wp_iff_runs _ _ _ _).mp (detectVerifiedBootStrict_wp st four []) _ _
    initrd initrdSees
  subst loaderDecides
  match st with
  | .absent | .unreadable | .payload [] =>
    obtain ⟨err, rfl⟩ := initrdDecides
    simp
  | .payload (b :: rest) =>
    dsimp only [initrdMode] at initrdDecides
    subst initrdDecides
    by_cases zero : b = 0
    · simp [zero]
    · simp [loaderMode, zero]

/-- Firmware whose only variable is SecureBoot. -/
def firmwareWith (bytes : List UInt8) : (c : UefiCmd) → c.Resp
  | .getVariable _ _ bufSize => if bytes.length ≤ bufSize then .ok bytes else .error .notFound
  | c => c.fail .notFound

/-- efivarfs with that variable. -/
def efivarfsWith (bytes : List UInt8) : (c : SysCmd) → c.Resp
  | .readFile _ => .ok ([6, 0, 0, 0] ++ bytes)
  | c => c.fail (.io .notFound "")

/-- The firmware of the examples shows the variable to the loader. -/
theorem loaderSees_firmwareWith (bytes : List UInt8) (h : History Uefi) (c : UefiCmd) :
    LoaderSees (.payload bytes) h ⟨c, firmwareWith bytes c⟩ := by
  cases c with
  | getVariable name vendor bufSize =>
    intro _ _
    simp only [firmwareWith]
    by_cases small : bytes.length ≤ bufSize
    · simp [small]
    · simp only [small, if_false]
      exact ⟨_, rfl⟩
  | _ => trivial

/-- The file system of the examples shows it to the initrd. -/
theorem initrdSees_efivarfsWith (bytes : List UInt8) (h : History Sys) (c : SysCmd) :
    InitrdSees (.payload bytes) [6, 0, 0, 0] h ⟨c, efivarfsWith bytes c⟩ := by
  cases c with
  | readFile path =>
    intro _ _
    rfl
  | _ => trivial

theorem verified_initrd_after_verified_loader_iff_one :
    VarState.payload [1] = .absent ∨ VarState.payload [1] = .unreadable ∨
      VarState.payload [1] = .payload [] ∨
        (∃ rest, VarState.payload [1] = .payload (0 :: rest)) ∨
          VarState.payload [1] = .payload [1] := by
  apply (verified_initrd_after_verified_loader_iff (.payload [1]) rfl
    (Prog.runs_exec (fun _ => firmwareWith [1]) secureBootStatus [])
    (Prog.admits_exec (loaderSees_firmwareWith [1]) _ _)
    (Prog.runs_exec (fun _ => efivarfsWith [1]) detectVerifiedBootStrict.run [])
    (Prog.admits_exec (initrdSees_efivarfsWith [1]) _ _)).mp
  intro _
  rfl

/-- With the payload `[2]` the loader verifies nothing and the initrd boots verified. -/
theorem verified_initrd_after_unverified_loader :
    ∃ tr₁ tr₂, Runs secureBootStatus tr₁ (.done false) ∧
      Admits (LoaderSees (.payload [2])) [] tr₁ ∧
      Runs detectVerifiedBootStrict.run tr₂ (.done (.ok true)) ∧
      Admits (InitrdSees (.payload [2]) [6, 0, 0, 0]) [] tr₂ :=
  ⟨_, _, Prog.runs_exec (fun _ => firmwareWith [2]) secureBootStatus [],
    Prog.admits_exec (loaderSees_firmwareWith [2]) _ _,
    Prog.runs_exec (fun _ => efivarfsWith [2]) detectVerifiedBootStrict.run [],
    Prog.admits_exec (initrdSees_efivarfsWith [2]) _ _⟩

end Initos.Agreement
