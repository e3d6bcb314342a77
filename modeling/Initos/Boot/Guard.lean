import Initos.Boot.Frame

/-!
# Guarded steps of a boot

Three kinds of steps of a boot are guarded. An image is mounted only after
`verify_image_db` accepted it; a directory is bound only where the list `BootBind` has it, in
which the fallback to the firmware tree for development is missing; and the initrd for
development never runs. `Permitted` says this of a single step, in the terms of the history
before it, and the theorems show that every step of every run is permitted unless the
SecureBoot variable was read as 0.
-/

namespace Initos.Boot

open Interact Bytes Efi Verify

variable (X : Crates)

/-- In this history `verify_image_db` was run on the image and returned true. -/
def VerifiedIn (image : String) (h : History Sys) : Prop :=
  ∃ basePath before run after, h = before ++ run ++ after ∧
    Runs (verifyImageDb X image basePath).run run (.done (.ok true))

/-- The directories that a verified boot binds with what is mounted in them: the root
    directory that `INITOS_ROOT` names (`mount_rootfs`), the mounted firmware and modules
    (`bind_host_image_mounts`) and the encrypted paths (`bind_encrypted_state_paths`). -/
inductive BootBind (h : History Sys) : (source target : String) → Prop where
  | root {answer : Option String} {partId : Option Nat} {dir : String}
      (named : ⟨.envVar "INITOS_ROOT", answer⟩ ∈ h)
      (member : dir ∈ rootDirs "/z" (answer.getD "ROOTA") partId) : BootBind h dir "/sysroot"
  | firmware (target : String) : BootBind h "/sysroot/mnt/firmware" target
  | modules (target : String) : BootBind h "/sysroot/mnt/modules" target
  | home : BootBind h "/z/c/home" "/sysroot/home"
  | rootHome : BootBind h "/z/c/home/root" "/sysroot/root"
  | nix : BootBind h "/z/c/nix" "/sysroot/nix"

/-- What a verified boot may do after a history. The bind of the firmware tree for development
    at `mnt/firmware` (`src/boot.rs:714`) is none of it. -/
def Permitted : Rely Sys := fun h e =>
  match e.cmd with
  | .mountLoop image _ => VerifiedIn X image h
  | .bindMount source target => source = "/z" ∧ target = "/sysroot/z"
  | .recursiveBindMount source target => BootBind h source target
  | .execv _ => False
  | _ => True

/-- Every step of the history was permitted. -/
abbrev Guarded (h : History Sys) : Prop := Admits (Permitted X) [] h

variable {X}

theorem VerifiedIn.append_left {image : String} {h : History Sys} (verified : VerifiedIn X image h)
    (earlier : History Sys) : VerifiedIn X image (earlier ++ h) := by
  obtain ⟨basePath, before, run, after, rfl, ran⟩ := verified
  exact ⟨basePath, earlier ++ before, run, after, by simp, ran⟩

theorem BootBind.mono {h h' : History Sys} {source target : String} (more : h ⊆ h')
    (listed : BootBind h source target) : BootBind h' source target := by
  cases listed with
  | root named member => exact .root (more named) member
  | firmware => exact .firmware _
  | modules => exact .modules _
  | home => exact .home
  | rootHome => exact .rootHome
  | nix => exact .nix

theorem Guarded.snoc {h : History Sys} {e : Event Sys} (guarded : Guarded X h)
    (permitted : Permitted X h e) : Guarded X (h ++ [e]) := by
  rw [Guarded, admits_append]
  exact ⟨guarded, permitted, trivial⟩

/-- Quiet steps are always permitted. -/
theorem Guarded.quiet (h tr : History Sys) (guarded : Guarded X h)
    (quiet : ∀ e ∈ tr, Quiet e.cmd) : Guarded X (h ++ tr) := by
  induction tr generalizing h with
  | nil => simpa using guarded
  | cons e tr ih =>
    have step : Permitted X h e := by
      have quietStep := quiet e List.mem_cons_self
      obtain ⟨c, r⟩ := e
      cases c <;> first | exact trivial | exact False.elim quietStep
    have rest := ih (h ++ [e]) (guarded.snoc step) fun e' member =>
      quiet e' (List.mem_cons_of_mem _ member)
    simpa using rest

/-- Every step of a guarded history is permitted by what precedes it. -/
theorem Guarded.permitted {before after : History Sys} {e : Event Sys}
    (guarded : Guarded X (before ++ e :: after)) : Permitted X before e := by
  rw [Guarded, admits_append, List.nil_append] at guarded
  exact guarded.2.1

/-! ## The parts of a verified boot -/

section

variable {R : Rely Sys} {h : History Sys}

/-- A program that only looks keeps the guard. -/
theorem keeps_quiet {α : Type} {x : Io α} (quiet : x.run.Uses Quiet) (guarded : Guarded X h) :
    Fallible.Keeps R (Guarded X)
      (fun h' a => ∃ tr, h' = h ++ tr ∧ Runs x.run tr (.done (.ok a))) x h :=
  Fallible.keeps_of_uses quiet Guarded.quiet guarded

/-- In verified mode the verification of an image is quiet, and where it succeeds
    `verify_image_db` accepted the image. -/
theorem verifyImageTrusted_wp (R : Rely Sys) (image : String) (h : History Sys) :
    Prog.wp R (fun h' out => ∃ tr, h' = h ++ tr ∧ (∀ e ∈ tr, Quiet e.cmd) ∧
        (out = .done (.ok ()) → VerifiedIn X image tr))
      (verifyImageTrusted X image "" true).run h := by
  have quiet : (verifyImageTrusted X image "" true).run.Uses Quiet := by
    rw [verifyImageTrusted, if_neg (by simp), if_pos rfl, efiBasePath]
    refine Fallible.uses_bind (by simp) fun basePath => ?_
    refine Fallible.uses_bind (by simp) fun valid => ?_
    cases valid <;> exact trivial
  have accepted : ∀ tr, Runs (verifyImageTrusted X image "" true).run tr (.done (.ok ())) →
      VerifiedIn X image tr := by
    intro tr run
    rw [verifyImageTrusted, if_neg (by simp), if_pos rfl] at run
    rcases runs_fallible_bind.mp run with
      ⟨basePath, tr₁, tr₂, rfl, -, run⟩ | ⟨_, ⟨⟩, _⟩ | ⟨_, ⟨⟩, _⟩
    rcases runs_fallible_bind.mp run with ⟨valid, tr₃, tr₄, rfl, ran, run⟩ | ⟨_, ⟨⟩, _⟩ | ⟨_, ⟨⟩, _⟩
    cases valid with
    | false => cases run
    | true => exact ⟨basePath, tr₁, tr₃, tr₄, by simp, ran⟩
  apply Prog.wp_mono (Prog.wp_and (quiet.wp R h) (Prog.wp_runs R _ h))
  rintro h' out ⟨⟨tr, rfl, quietSteps⟩, tr', same, run⟩
  cases List.append_cancel_left same
  exact ⟨tr, rfl, quietSteps, fun ok => accepted tr (ok ▸ run)⟩

/-- After `verify_image_trusted` in a verified boot, the image was verified. -/
theorem verifyImageTrusted_keeps (image : String) (guarded : Guarded X h) :
    Fallible.Keeps R (Guarded X) (fun h' _ => VerifiedIn X image h')
      (verifyImageTrusted X image "" true) h := by
  apply Prog.wp_mono (verifyImageTrusted_wp R image h)
  rintro h' out ⟨tr, rfl, quiet, verified⟩
  refine ⟨Guarded.quiet h tr guarded quiet, ?_⟩
  rcases out with (e | _) | e
  · trivial
  · exact (verified rfl).append_left h
  · trivial

/-- A verified image may be mounted. -/
theorem mountLoop_keeps {image target : String} (guarded : Guarded X h)
    (verified : VerifiedIn X image h) :
    Fallible.Keeps R (Guarded X) (fun _ _ => True) (mountLoop image target) h := by
  apply Fallible.keeps_call
  intro r _
  exact ⟨guarded.snoc verified, fun _ _ => trivial⟩

/-- A bind of the list. -/
theorem recursiveBindMount_keeps {source target : String} (guarded : Guarded X h)
    (listed : BootBind h source target) :
    Fallible.Keeps R (Guarded X) (fun _ _ => True) (recursiveBindMount source target) h := by
  apply Fallible.keeps_call
  intro r _
  exact ⟨guarded.snoc listed, fun _ _ => trivial⟩

end

/-! ## Where the firmware trees for development are -/

/-- The firmware trees for development lie below `/z/img`. -/
theorem isPrefix_developmentTree (slot : Nat) :
    "/z/img".toList <+: (developmentTree "/z" slot).toList := by
  have number : UnixPath.isAbsolute (toString slot) = false :=
    UnixPath.not_absolute_of_noSlash (UnixPath.isName_toString slot).noSlash
  have inner : "/z/img".toList <+: (UnixPath.join "/z/img" (toString slot)).toList :=
    UnixPath.isPrefix_join _ number
  exact inner.trans (UnixPath.isPrefix_join _ (by decide))

theorem ne_developmentTree {source : String} (elsewhere : ¬"/z/img".toList <+: source.toList)
    (slot : Nat) : source ≠ developmentTree "/z" slot := by
  rintro rfl
  exact elsewhere (isPrefix_developmentTree slot)

/-- A root directory is a firmware tree for development only where `INITOS_ROOT` is its
    absolute path. -/
theorem rootName_of_developmentTree {rootName : String} {partId : Option Nat} {slot : Nat}
    (member : developmentTree "/z" slot ∈ rootDirs "/z" rootName partId) :
    rootName = developmentTree "/z" slot := by
  cases absolute : UnixPath.isAbsolute rootName with
  | true =>
    -- an absolute name replaces the directory it is joined to
    have joined : ∀ dir, UnixPath.join dir rootName = rootName := fun dir => by
      rw [UnixPath.join, if_pos absolute]
    cases partId <;> simpa [rootDirs, joined, eq_comm] using member
  | false =>
    exfalso
    have number : ∀ n : Nat, UnixPath.isAbsolute (toString n) = false := fun n =>
      UnixPath.not_absolute_of_noSlash (UnixPath.isName_toString n).noSlash
    have outside : ∀ base : String, ¬base.toList <+: "/z/img".toList →
        ¬"/z/img".toList <+: base.toList → ∀ dir, base.toList <+: dir.toList →
        developmentTree "/z" slot ≠ UnixPath.join dir rootName := by
      intro base shorter longer dir inBase same
      have inTree : base.toList <+: (developmentTree "/z" slot).toList := by
        rw [same]
        exact inBase.trans (UnixPath.isPrefix_join dir absolute)
      rcases List.prefix_or_prefix_of_prefix inTree (isPrefix_developmentTree slot) with le | le
      · exact shorter le
      · exact longer le
    have encrypted := outside "/z/c/roots" (by decide) (by decide)
    have plain := outside "/z/roots" (by decide) (by decide)
    have default := encrypted (UnixPath.join "/z" "c/roots") (by decide)
    cases partId with
    | none => exact default (by simpa [rootDirs] using member)
    | some n =>
      have slotDir := encrypted (UnixPath.join (UnixPath.join "/z" "c/roots") (toString n))
        (UnixPath.isPrefix_join _ (number n))
      have plainDir := plain (UnixPath.join (UnixPath.join "/z" "roots") (toString n))
        (UnixPath.isPrefix_join _ (number n))
      simp only [rootDirs, List.cons_append, List.nil_append, List.mem_cons, List.not_mem_nil,
        or_false] at member
      rcases member with same | same | same
      · exact slotDir same
      · exact plainDir same
      · exact default same

/-! ## The sequence -/

/-- What is found is one of the paths. -/
theorem firstExisting_onOk (R : Rely Sys) (paths : List String) (h : History Sys) :
    Prog.wp R (Fallible.OnOk fun _ found => ∀ path, found = some path → path ∈ paths)
      (firstExisting paths).run h := by
  induction paths generalizing h with
  | nil => exact Fallible.wp_pure_onOk (by simp)
  | cons first rest ih =>
    rw [firstExisting, Fallible.wp_ask_bind]
    intro there _
    cases there with
    | true => exact Fallible.wp_pure_onOk (by simp)
    | false =>
      apply Prog.wp_mono (ih _)
      intro h' out post
      rcases out with (e | found) | e
      · trivial
      · exact fun path same => List.mem_cons_of_mem _ (post path same)
      · trivial

section

variable {R : Rely Sys} {h : History Sys}

/-- The root is verified before it is mounted, or it is bound under its name. -/
theorem mountRootfs_keeps (img : String) (partId : Option Nat) (guarded : Guarded X h) :
    Fallible.Keeps R (Guarded X) (fun _ _ => True) (mountRootfs X "/z" "/sysroot" img true partId)
      h := by
  rw [mountRootfs]
  have named : Fallible.Keeps R (Guarded X)
      (fun h' rootName => ∃ answer : Option String, rootName = answer.getD "ROOTA" ∧
        (⟨SysCmd.envVar "INITOS_ROOT", answer⟩ : Event Sys) ∈ h')
      (envVarOr "INITOS_ROOT" "ROOTA") h := by
    apply Fallible.keeps_bind (Fallible.keeps_ask (P := fun h' answer =>
      (⟨SysCmd.envVar "INITOS_ROOT", answer⟩ : Event Sys) ∈ h') ?_)
    · intro h₁ answer guarded₁ asked
      exact Fallible.keeps_pure guarded₁ ⟨answer, rfl, asked⟩
    · intro answer _
      exact ⟨guarded.snoc trivial, by simp⟩
  apply Fallible.keeps_bind named
  rintro h₁ _ guarded₁ ⟨answer, rfl, asked⟩
  apply Fallible.keeps_bind (Fallible.keeps_and (keeps_quiet (firstExisting_quiet _) guarded₁)
    (firstExisting_onOk R _ h₁))
  rintro h₂ found guarded₂ ⟨⟨tr, rfl, -⟩, member⟩
  cases found with
  | some rootPath =>
    exact recursiveBindMount_keeps guarded₂
      (.root (List.mem_append_left _ asked) (member rootPath rfl))
  | none =>
    apply Fallible.keeps_bind (keeps_quiet (rootImage_quiet "/z" img true partId) guarded₂)
    intro h₃ imgPath guarded₃ _
    apply Fallible.keeps_bind (verifyImageTrusted_keeps imgPath guarded₃)
    intro h₄ _ guarded₄ verified
    exact mountLoop_keeps guarded₄ verified

/-- An image of the host is verified before it is mounted. -/
theorem mountHostImage_keeps (rootMount imageName targetRel : String) (partId : Option Nat)
    (guarded : Guarded X h) :
    Fallible.Keeps R (Guarded X) (fun _ _ => True)
      (mountHostImage X "/z" rootMount imageName targetRel true partId) h := by
  rw [mountHostImage]
  apply Fallible.keeps_bind (keeps_quiet (findHostImage_quiet "/z" imageName partId true) guarded)
  intro h₁ found guarded₁ _
  cases found with
  | none => exact Fallible.keeps_pure guarded₁ trivial
  | some imagePath =>
    apply Fallible.keeps_bind (verifyImageTrusted_keeps imagePath guarded₁)
    intro h₂ _ guarded₂ verified
    exact mountLoop_keeps guarded₂ verified

/-- So is the metadata of the firmware. -/
theorem mountSlotComposefsFirmware_keeps (rootMount : String) (slot : Nat)
    (guarded : Guarded X h) :
    Fallible.Keeps R (Guarded X) (fun _ _ => True)
      (mountSlotComposefsFirmware X "/z" rootMount slot true) h := by
  rw [mountSlotComposefsFirmware]
  apply Fallible.keeps_bind (keeps_quiet (slotFirmware_quiet "/z" slot) guarded)
  rintro h₁ ⟨image, objects⟩ guarded₁ -
  apply Fallible.keeps_bind (verifyImageTrusted_keeps image guarded₁)
  intro h₂ _ guarded₂ verified
  apply Fallible.keeps_bind (mountLoop_keeps guarded₂ verified)
  intro h₃ _ guarded₃ _
  exact Fallible.keeps_mono (keeps_quiet (by simp) guarded₃) fun _ _ _ _ => trivial

/-- In verified mode a failure of the firmware image is final. -/
theorem mountFirmware_keeps (rootMount : String) (slot : Nat) (guarded : Guarded X h) :
    Fallible.Keeps R (Guarded X) (fun _ _ => True) (mountFirmware X "/z" rootMount slot true)
      h := by
  rw [mountFirmware]
  apply Fallible.keeps_bind
    (Fallible.keeps_attempt (mountSlotComposefsFirmware_keeps rootMount slot guarded))
  intro h₁ result guarded₁ _
  cases result with
  | ok _ => exact Fallible.keeps_pure guarded₁ trivial
  | error e => exact Fallible.keeps_throw e guarded₁

theorem bindIfRootDirExists_keeps {sourceRel : String} (targetRel : String)
    (listed : ∀ h target, BootBind h (UnixPath.join "/sysroot" sourceRel) target)
    (guarded : Guarded X h) :
    Fallible.Keeps R (Guarded X) (fun _ _ => True)
      (bindIfRootDirExists "/sysroot" sourceRel targetRel) h := by
  rw [bindIfRootDirExists]
  apply Fallible.keeps_bind (keeps_quiet (resolveComponents_quiet _ _ _) guarded)
  intro h₁ target guarded₁ _
  apply Fallible.keeps_bind (keeps_quiet (quiet_ask (c := .isDir target) trivial) guarded₁)
  intro h₂ there guarded₂ _
  cases there with
  | false => exact Fallible.keeps_pure guarded₂ trivial
  | true => exact recursiveBindMount_keeps guarded₂ (listed _ target)

theorem bindIfBothDirsExist_keeps {source target : String}
    (listed : ∀ h, BootBind h source target) (guarded : Guarded X h) :
    Fallible.Keeps R (Guarded X) (fun _ _ => True) (bindIfBothDirsExist source target) h := by
  rw [bindIfBothDirsExist]
  have quiet : (bothDirs source target).run.Uses Quiet := by
    refine Fallible.uses_bind (quiet_ask trivial) fun there => ?_
    cases there with
    | false => exact trivial
    | true => exact quiet_ask trivial
  apply Fallible.keeps_bind (keeps_quiet quiet guarded)
  intro h₁ both guarded₁ _
  cases both with
  | false => exact Fallible.keeps_pure guarded₁ trivial
  | true => exact recursiveBindMount_keeps guarded₁ (listed _)

/-- The binds of the encrypted state are on the list. -/
theorem bindEncryptedStatePaths_keeps (guarded : Guarded X h) :
    Fallible.Keeps R (Guarded X) (fun _ _ => True) (bindEncryptedStatePaths "/z" "/sysroot") h := by
  rw [bindEncryptedStatePaths]
  apply Fallible.keeps_bind (bindIfBothDirsExist_keeps (fun _ => .home) guarded)
  intro h₁ _ guarded₁ _
  apply Fallible.keeps_bind (bindIfBothDirsExist_keeps (fun _ => .rootHome) guarded₁)
  intro h₂ _ guarded₂ _
  exact bindIfBothDirsExist_keeps (fun _ => .nix) guarded₂

/-- A verified boot does not take the branch for development (`src/boot.rs:714`). -/
theorem mountHostImages_keeps (partId : Option Nat) (guarded : Guarded X h) :
    Fallible.Keeps R (Guarded X) (fun _ _ => True) (mountHostImages X "/z" "/sysroot" true partId)
      h := by
  unfold mountHostImages
  apply Fallible.keeps_bind (keeps_quiet (by simp) guarded)
  intro h₁ _ guarded₁ _
  cases partId with
  | none => exact Fallible.keeps_throw _ guarded₁
  | some slot =>
    apply Fallible.keeps_bind (mountFirmware_keeps "/sysroot" slot guarded₁)
    intro h₂ _ guarded₂ _
    apply Fallible.keeps_bind (keeps_quiet kernelRelease_quiet guarded₂)
    intro h₃ kernel guarded₃ _
    apply Fallible.keeps_bind (mountHostImage_keeps "/sysroot" _ _ (some slot) guarded₃)
    intro h₄ _ guarded₄ _
    apply Fallible.keeps_bind (bindIfRootDirExists_keeps _ (fun _ => .firmware) guarded₄)
    intro h₅ _ guarded₅ _
    exact bindIfRootDirExists_keeps _ (fun _ => .modules) guarded₅

/-- The state partition may be bound. -/
theorem bindState_keeps (guarded : Guarded X h) :
    Fallible.Keeps R (Guarded X) (fun _ _ => True) (bindMount "/z" "/sysroot/z") h := by
  apply Fallible.keeps_call
  intro r _
  exact ⟨guarded.snoc ⟨rfl, rfl⟩, fun _ _ => trivial⟩

/-- The part of a verified boot after the decision on the mode. -/
theorem bootRest_keeps (fuel : Nat) (img data : String) (guarded : Guarded X h) :
    Fallible.Keeps R (Guarded X) (fun _ _ => True) (bootRest X fuel img data true) h := by
  rw [bootRest]
  apply Fallible.keeps_bind (keeps_quiet findBootDevice_quiet guarded)
  rintro h₁ ⟨partId, bootDisk⟩ guarded₁ -
  apply Fallible.keeps_bind (keeps_quiet (findDataDevice_quiet fuel data bootDisk) guarded₁)
  intro h₂ dev guarded₂ _
  apply Fallible.keeps_bind (keeps_quiet (by simp) guarded₂)
  intro h₃ _ guarded₃ _
  apply Fallible.keeps_bind (keeps_quiet (unlockStateC_quiet "/z" true) guarded₃)
  intro h₄ _ guarded₄ _
  apply Fallible.keeps_bind (mountRootfs_keeps img partId guarded₄)
  intro h₅ _ guarded₅ _
  apply Fallible.keeps_bind (bindState_keeps guarded₅)
  intro h₆ _ guarded₆ _
  apply Fallible.keeps_bind (mountHostImages_keeps partId guarded₆)
  intro h₇ _ guarded₇ _
  apply Fallible.keeps_bind (bindEncryptedStatePaths_keeps guarded₇)
  intro h₈ _ guarded₈ _
  apply Fallible.keeps_bind (keeps_quiet (mountSystemFilesystems_quiet "/sysroot") guarded₈)
  intro h₉ _ guarded₉ _
  apply Fallible.keeps_bind (keeps_quiet (selectInit_quiet "/z" "/sysroot") guarded₉)
  intro h₁₀ init guarded₁₀ _
  apply Fallible.keeps_bind (keeps_quiet (by simp) guarded₁₀)
  intro h₁₁ _ guarded₁₁ _
  exact Fallible.keeps_halt _ guarded₁₁

/-- Without a decision, or in verified mode, a failed boot only waits and exits. -/
theorem bootFailed_keeps {mode : Option Bool} (verified : mode ≠ some false) (e : Err)
    (guarded : Guarded X h) :
    Fallible.Keeps R (Guarded X) (fun _ _ => True) (bootFailed mode e) h := by
  rw [bootFailed, if_neg verified]
  apply Fallible.keeps_bind (keeps_quiet (quiet_ask (c := .sleep 10000) trivial) guarded)
  intro h₁ _ guarded₁ _
  exact Fallible.keeps_halt _ guarded₁

end

/-! ## The decision on the mode -/

/-- The SecureBoot variable is never read as 0. -/
def NotDisabled (e : Event Sys) : Prop :=
  ∀ basePath data, e = ⟨.readFile (efiVarPath "SecureBoot" basePath), Except.ok data⟩ →
    data[4]? ≠ some 0

/-- What is read is not 0. -/
theorem readSecureBoot_notDisabled (basePath : String) (h : History Sys) :
    Prog.wp (fun _ e => NotDisabled e) (Fallible.OnOk fun _ value => value ≠ 0)
      (readSecureBoot basePath).run h := by
  rw [readSecureBoot, readEfiVar, bind_assoc]
  apply Fallible.wp_bind_onOk
  apply Fallible.wp_call_onOk
  rintro answer data notOff rfl
  have notOff := notOff basePath data rfl
  rw [stripAttributes]
  by_cases short : data.length < 4
  · rw [if_pos short, Fallible.throw_bind]
    exact Fallible.wp_throw_onOk _ _ _ _
  · rw [if_neg short, slice_eq_some _ (by omega) (Nat.le_refl _), ofChecked, pure_bind]
    generalize payloadIs : (data.drop 4).take (data.length - 4) = payload
    cases payload with
    | nil =>
      rw [if_pos rfl, Fallible.throw_bind]
      exact Fallible.wp_throw_onOk _ _ _ _
    | cons value rest =>
      rw [if_neg (by simp), index_eq_some (by simp), ofChecked]
      apply Fallible.wp_pure_onOk
      rintro rfl
      apply notOff
      have first := congrArg List.head? payloadIs
      rw [List.take_of_length_le (by simp), List.head?_drop] at first
      simpa using first

theorem detectVerifiedBootStrict_notDisabled (h : History Sys) :
    Prog.wp (fun _ e => NotDisabled e) (Fallible.OnOk fun _ verified => verified = true)
      detectVerifiedBootStrict.run h := by
  rw [detectVerifiedBootStrict, efiBasePath, envVarOr, bind_assoc, Fallible.wp_ask_bind]
  intro answer _
  rw [pure_bind, Fallible.wp_bind, Fallible.wp_attempt]
  apply Prog.wp_mono (readSecureBoot_notDisabled _ _)
  intro h' out post
  rcases out with (e | value) | e
  · rw [Prog.andThen_done, Prog.wp_pure, Prog.andThen_done, Fallible.cont_ok]
    exact Fallible.wp_throw_onOk _ _ _ _
  · rw [Prog.andThen_done, Prog.wp_pure, Prog.andThen_done, Fallible.cont_ok]
    have nonzero : value ≠ 0 := post
    exact Fallible.wp_pure_onOk (by simpa using nonzero)
  · trivial

/-- The boot goes on as a verified one. -/
theorem bootStart_keeps {h : History Sys} (guarded : Guarded X h) :
    Fallible.Keeps (fun _ e => NotDisabled e) (Guarded X) (fun _ r => r.2.2 = true) bootStart
      h := by
  rw [bootStart]
  apply Fallible.keeps_bind (keeps_quiet (envVarOr_quiet _ _) guarded)
  intro h₁ img guarded₁ _
  apply Fallible.keeps_bind (keeps_quiet (envVarOr_quiet _ _) guarded₁)
  intro h₂ data guarded₂ _
  apply Fallible.keeps_bind (keeps_quiet (by simp) guarded₂)
  intro h₃ _ guarded₃ _
  apply Fallible.keeps_bind (keeps_quiet (mountEarly_quiet _) guarded₃)
  intro h₄ _ guarded₄ _
  apply Fallible.keeps_bind (Fallible.keeps_and
    (keeps_quiet detectVerifiedBootStrict_quiet guarded₄) (detectVerifiedBootStrict_notDisabled h₄))
  intro h₅ verified guarded₅ decided
  exact Fallible.keeps_pure guarded₅ decided.2

/-- The whole boot keeps the guard, its error path included. -/
theorem cmdBoot_keeps (fuel : Nat) :
    Fallible.Keeps (fun _ e => NotDisabled e) (Guarded X) (fun _ _ => True) (cmdBoot X fuel)
      [] := by
  rw [cmdBoot]
  apply Fallible.keeps_bind (Fallible.keeps_attempt (bootStart_keeps (X := X) (h := []) trivial))
  intro h₁ start guarded₁ verified
  match start with
  | .error e => exact bootFailed_keeps (by simp) e guarded₁
  | .ok (img, data, verifiedBoot) =>
    have verified : verifiedBoot = true := verified _ rfl
    subst verified
    apply Fallible.keeps_bind (Fallible.keeps_attempt (bootRest_keeps fuel img data guarded₁))
    intro h₂ rest guarded₂ _
    cases rest with
    | error e => exact bootFailed_keeps (by simp) e guarded₂
    | ok _ => exact Fallible.keeps_pure guarded₂ trivial

/-- By its own path a firmware tree for development is bound only as the root, where
    `INITOS_ROOT` is that path. -/
theorem BootBind.developmentTree_root {h : History Sys} {slot : Nat} {target : String}
    (listed : BootBind h (developmentTree "/z" slot) target) :
    target = "/sysroot" ∧ ⟨.envVar "INITOS_ROOT", some (developmentTree "/z" slot)⟩ ∈ h := by
  generalize source_eq : developmentTree "/z" slot = source at listed
  have elsewhere : "/z/img".toList <+: source.toList := source_eq ▸ isPrefix_developmentTree slot
  cases listed with
  | @root answer partId dir named member =>
    subst source_eq
    have rootIs := rootName_of_developmentTree member
    cases answer with
    | none => exact absurd rootIs (ne_developmentTree (by decide) slot)
    | some rootName =>
      rw [Option.getD_some] at rootIs
      exact ⟨rfl, rootIs ▸ named⟩
  | firmware | modules | home | rootHome | nix => exact absurd elsewhere (by decide)

/-- Unless the SecureBoot variable was read as 0, every image that a boot mounts was accepted
    by `verify_image_db` before, the fallback that binds the firmware tree for development is
    not taken (`bind_mount` only binds the state partition, and the recursive binds are those of
    the list, with the tree among them only as the root that `INITOS_ROOT` names), and the
    initrd for development does not run. -/
theorem boot_guarded_unless_disabled (X : Crates) (fuel : Nat) {tr : History Sys}
    {out : Outcome Sys (Except Err Unit)} (run : Runs (cmdBoot X fuel).run tr out)
    (notDisabled : ∀ e ∈ tr, NotDisabled e) :
    (∀ before image target r after, tr = before ++ ⟨.mountLoop image target, r⟩ :: after →
        VerifiedIn X image before) ∧
      (∀ source target r, ⟨.bindMount source target, r⟩ ∈ tr →
        source = "/z" ∧ target = "/sysroot/z") ∧
      (∀ source target r, ⟨.recursiveBindMount source target, r⟩ ∈ tr →
        BootBind tr source target) ∧
      (∀ slot target r, ⟨.recursiveBindMount (developmentTree "/z" slot) target, r⟩ ∈ tr →
        target = "/sysroot" ∧ ⟨.envVar "INITOS_ROOT", some (developmentTree "/z" slot)⟩ ∈ tr) ∧
      ∀ r, ⟨.execv "/opt/initos/bin/initos-initrd", r⟩ ∉ tr := by
  have keeps := (Prog.wp_iff_runs _ _ _ _).mp (cmdBoot_keeps (X := X) fuel) tr out run
    ((admits_const [] tr).mpr notDisabled)
  have guarded : Guarded X tr := keeps.1
  have permitted : ∀ e ∈ tr, ∃ before after, tr = before ++ e :: after ∧ Permitted X before e := by
    intro e member
    obtain ⟨before, after, rfl⟩ := List.append_of_mem member
    exact ⟨before, after, rfl, guarded.permitted⟩
  have listed : ∀ source target r, ⟨.recursiveBindMount source target, r⟩ ∈ tr →
      BootBind tr source target := by
    intro source target r member
    obtain ⟨before, after, rfl, listed⟩ := permitted _ member
    exact BootBind.mono (List.subset_append_left _ _) listed
  refine ⟨?_, ?_, listed, ?_, ?_⟩
  · rintro before image target r after rfl
    exact guarded.permitted (e := ⟨.mountLoop image target, r⟩)
  · intro source target r member
    obtain ⟨_, _, -, isState⟩ := permitted _ member
    exact isState
  · intro slot target r member
    exact (listed _ _ _ member).developmentTree_root
  · intro r member
    obtain ⟨_, _, -, never⟩ := permitted _ member
    exact never

/-- Secure Boot is on, `db` has one certificate, and signatures are by that certificate. -/
def sampleFiles (path : String) : Except Err (List UInt8) :=
  if path = efiVarPath "SecureBoot" "/sys/firmware/efi/efivars" then .ok [6, 0, 0, 0, 1]
  else if Text.endsWith path efiImageSecurityDbGuid then .ok ([6, 0, 0, 0] ++ sampleDb 45 1)
  else if Text.endsWith path ".db.sig" then .ok [1]
  else .error (.io .notFound "not found")

theorem sampleFiles_notDisabled {path : String} {data : List UInt8}
    (read : sampleFiles path = .ok data) : data[4]? ≠ some 0 := by
  unfold sampleFiles at read
  split at read
  · cases read
    decide
  · split at read
    · cases read
      decide
    · split at read
      · cases read
        decide
      · cases read

/-- A system on which the boot mounts the root image and then fails, for want of a boot
    partition; `root` is the value of `INITOS_ROOT`. -/
def sampleSystem (root : Option String) : (c : SysCmd) → c.Resp
  | .envVar name => if name = "INITOS_ROOT" then root else none
  | .readFile path => sampleFiles path
  | .pathExists path => path == "/dev/disk/by-label/STATE" || root == some path
  | .measureVerity _ => .ok (1, [])
  | .mountFilesystem _ _ _ _ | .mountLoop _ _ | .bindMount _ _ | .recursiveBindMount _ _ => .ok ()
  | c => c.fail (.io .notFound "not found")

/-- The run of a boot on that system. -/
def sampleBoot (root : Option String) : History Sys × Outcome Sys (Except Err Unit) :=
  (cmdBoot sampleCrates 1).run.exec (fun _ => sampleSystem root) []

theorem sampleBoot_notDisabled (root : Option String) :
    ∀ e ∈ (sampleBoot root).1, NotDisabled e := by
  refine (admits_const [] _).mp (Prog.admits_exec (fun h c => ?_) _ _)
  intro basePath data same
  cases c with
  | readFile path =>
    simp only [Event.mk.injEq, SysCmd.readFile.injEq] at same
    obtain ⟨rfl, same⟩ := same
    exact sampleFiles_notDisabled (eq_of_heq same)
  | _ => cases same

theorem boot_guarded_unless_disabled_sample :
    ((sampleBoot none).1.any fun e => e.cmd == .mountLoop "/z/img/initos.erofs" "/sysroot") = true ∧
      (∀ source target r, ⟨.bindMount source target, r⟩ ∈ (sampleBoot none).1 →
        source = "/z" ∧ target = "/sysroot/z") ∧
      ∀ r, ⟨.execv "/opt/initos/bin/initos-initrd", r⟩ ∉ (sampleBoot none).1 := by
  have guarded := boot_guarded_unless_disabled sampleCrates 1 (Prog.runs_exec _ _ _)
    (sampleBoot_notDisabled none)
  exact ⟨by decide +kernel, guarded.2.1, guarded.2.2.2.2⟩

/-- Where `INITOS_ROOT` is the path of a firmware tree for development, a verified boot binds
    that tree, as the root. -/
theorem boot_binds_development_tree_as_root :
    ∃ tr out, Runs (cmdBoot sampleCrates 1).run tr out ∧ (∀ e ∈ tr, NotDisabled e) ∧
      (tr.any fun e => e.cmd == .recursiveBindMount (developmentTree "/z" 101) "/sysroot") = true :=
  ⟨_, _, Prog.runs_exec _ _ _, sampleBoot_notDisabled (some (developmentTree "/z" 101)),
    by decide +kernel⟩

end Initos.Boot
