import Initos.Boot.Slots
import Initos.Boot.UnlockRun

/-!
# The root of a verified boot

`unlock_state_c` runs before `mount_rootfs`. Where it succeeds on a state partition with a
directory `c`, it has added a key to that directory and seen the directory open. The root is
authenticated when it is a directory below `c`, or an image that `verify_image_db` accepted;
the theorems say for which file trees this is so.
-/

namespace Initos.Boot

open Interact UnixFs

variable {α : Type}

/-! ## The root -/

/-- What `mount_rootfs` has mounted, in `tr₂` and after the unlocking in `tr₁`, is authentic:
    a directory below the unlocked directory `c`, or an image accepted by `verify_image_db`
    before it was mounted. -/
structure Authenticated (X : Crates) (t : FileTree α) (state rootMount : String)
    (tr₁ tr₂ : History Sys) : Prop where
  mounts : ∃ source, ⟨.recursiveBindMount source rootMount, Except.ok ()⟩ ∈ tr₂ ∨
    ⟨.mountLoop source rootMount, Except.ok ()⟩ ∈ tr₂
  encrypted : ∀ dir target r, ⟨.recursiveBindMount dir target, r⟩ ∈ tr₂ →
    t.Below (UnixPath.join state "c") dir ∧ UnlockedIn (UnixPath.join state "c") tr₁
  verified : ∀ before image target r after,
    tr₂ = before ++ ⟨.mountLoop image target, r⟩ :: after → VerifiedIn X image before

/-- Quiet steps mount nothing. -/
theorem not_mounted_of_quiet {tr : History Sys} (quiet : ∀ e ∈ tr, Quiet e.cmd)
    {e : Event Sys} (loud : ¬Quiet e.cmd) : e ∉ tr := fun member => loud (quiet e member)

/-- A bound root is authentic just when it lies below the unlocked directory. -/
theorem authenticated_bound_iff {X : Crates} {t : FileTree α} {state rootMount dir : String}
    {tr₁ tr : History Sys} (quiet : ∀ e ∈ tr, Quiet e.cmd)
    (unlocked : t.pathExists (UnixPath.join state "c") = true →
      UnlockedIn (UnixPath.join state "c") tr₁) :
    Authenticated X t state rootMount tr₁
        (tr ++ [⟨.recursiveBindMount dir rootMount, Except.ok ()⟩]) ↔
      t.Below (UnixPath.join state "c") dir := by
  constructor
  · intro authenticated
    exact (authenticated.encrypted dir rootMount (.ok ()) (by simp)).1
  · intro below
    refine ⟨⟨dir, .inl (by simp)⟩, ?_, ?_⟩
    · intro dir' target r member
      rcases List.mem_append.mp member with member | member
      · exact absurd member (not_mounted_of_quiet quiet id)
      · rw [List.mem_singleton] at member
        cases member
        exact ⟨below, unlocked below.exists_base⟩
    · intro before image target r after split
      have member : (⟨.mountLoop image target, r⟩ : Event Sys) ∈
          tr ++ [⟨.recursiveBindMount dir rootMount, Except.ok ()⟩] := by
        rw [split]
        simp
      rcases List.mem_append.mp member with member | member
      · exact absurd member (not_mounted_of_quiet quiet id)
      · rw [List.mem_singleton] at member
        cases member

/-- An image that was verified before it was mounted is an authentic root. -/
theorem authenticated_mounted {X : Crates} {t : FileTree α} {state rootMount image : String}
    {tr₁ tr : History Sys} (quiet : ∀ e ∈ tr, Quiet e.cmd) (verified : VerifiedIn X image tr) :
    Authenticated X t state rootMount tr₁
      (tr ++ [⟨.mountLoop image rootMount, Except.ok ()⟩]) := by
  refine ⟨⟨image, .inr (by simp)⟩, ?_, ?_⟩
  · intro dir target r member
    rcases List.mem_append.mp member with member | member
    · exact absurd member (not_mounted_of_quiet quiet id)
    · rw [List.mem_singleton] at member
      cases member
  · intro before image' target r after split
    -- the mount is the last step, so nothing follows it
    rcases List.append_eq_append_iff.mp split with ⟨mid, rfl, last⟩ | ⟨mid, rfl, rest⟩
    · cases mid with
      | nil =>
        cases last
        simpa using verified
      | cons e mid =>
        have := congrArg List.length last
        simp at this
    · cases mid with
      | nil =>
        cases rest
        simpa using verified
      | cons e mid =>
        cases rest
        exact absurd (List.mem_append_right before List.mem_cons_self)
          (not_mounted_of_quiet quiet id)

/-- In a verified boot the root is authentic if and only if the root directory, where one is
    there, lies below the encrypted directory: the test for `roots/<id>/<root>` outside `c`
    takes a directory that nothing has verified. -/
theorem root_authenticated_iff (X : Crates) (t : FileTree α) (state rootMount img : String)
    (root : Option String) (partId : Option Nat) {tr₁ tr₂ : History Sys}
    (unlocking : Runs (unlockStateC state true).run tr₁ (.done (.ok ())))
    (seen : ∀ r, ⟨.pathExists (UnixPath.join state "c"), r⟩ ∈ tr₁ →
      r = t.pathExists (UnixPath.join state "c"))
    (mounting : Runs (mountRootfs X state rootMount img true partId).run tr₂ (.done (.ok ())))
    (named : Admits (RootNamed t root) [] tr₂) :
    Authenticated X t state rootMount tr₁ tr₂ ↔
      ∀ dir, (rootDirs state (root.getD "ROOTA") partId).find? t.pathExists = some dir →
        t.Below (UnixPath.join state "c") dir := by
  have unlocked : t.pathExists (UnixPath.join state "c") = true →
      UnlockedIn (UnixPath.join state "c") tr₁ := by
    intro there
    rcases (unlockRun_of_runs unlocking).unlocked with absent | unlocked
    · have := seen false absent
      rw [there] at this
      cases this
    · exact unlocked
  obtain ⟨_, rfl, run⟩ := (Prog.wp_iff_runs _ _ _ _).mp
    (mountRootfs_wp X t state rootMount img root partId []) tr₂ _ mounting named
  generalize outcome : (.done (.ok ()) : Outcome Sys (Except Err Unit)) = out at run
  cases run with
  | bound found quiet =>
    cases outcome
    refine (authenticated_bound_iff quiet unlocked).trans ?_
    rw [found]
    simp
  | noImage noDir quiet => cases outcome
  | rejected noDir choice quiet failed => exact absurd outcome.symm failed
  | mounted noDir choice quiet verified =>
    cases outcome
    rw [noDir]
    exact ⟨fun _ dir found => (by cases found), fun _ => authenticated_mounted quiet verified⟩

/-- A root directory in the encrypted directory, and a directory for slot 101 outside it. -/
def rootsTree : FileTree Unit where
  nodes := [(["z"], .dir), (["z", "c"], .dir), (["z", "c", "roots"], .dir),
    (["z", "c", "roots", "ROOTA"], .dir), (["z", "roots"], .dir), (["z", "roots", "101"], .dir),
    (["z", "roots", "101", "ROOTA"], .dir)]
  inDir := by decide

/-- A system without a TPM, on which a password unlocks the encrypted directory. -/
def passwordSystem (h : History Sys) : (c : SysCmd) → c.Resp
  | .pathExists path => rootsTree.pathExists path
  | .isDir _ => h.any fun e => match e.cmd with
    | .addKey _ _ => true
    | _ => false
  | .readSecret _ => .ok "secret"
  | .addKey _ _ => .ok ()
  | c => c.fail (.io .notFound "not found")

/-- The run of `unlock_state_c` on that system. -/
def sampleUnlock : History Sys × Outcome Sys (Except Err Unit) :=
  (unlockStateC "/z" true).run.exec passwordSystem []

theorem sampleUnlock_runs : Runs (unlockStateC "/z" true).run sampleUnlock.1 (.done (.ok ())) := by
  have run := Prog.runs_exec passwordSystem (unlockStateC "/z" true).run []
  have ok : ((unlockStateC "/z" true).run.exec passwordSystem []).2 = .done (.ok ()) := rfl
  rw [ok] at run
  exact run

theorem sampleUnlock_seen (r : Bool)
    (member : (⟨SysCmd.pathExists "/z/c", r⟩ : Event Sys) ∈ sampleUnlock.1) :
    r = rootsTree.pathExists "/z/c" := by
  have admitted : Admits (I := Sys) (fun _ e => ∀ r, e = ⟨SysCmd.pathExists "/z/c", r⟩ →
      r = rootsTree.pathExists "/z/c") [] sampleUnlock.1 := by
    apply Prog.admits_exec
    intro h c r same
    cases c with
    | pathExists path =>
      simp only [Event.mk.injEq, SysCmd.pathExists.injEq] at same
      obtain ⟨rfl, same⟩ := same
      exact (eq_of_heq same).symm
    | _ => cases same
  exact (admits_const [] _).mp admitted _ member r rfl

/-- The run of `mount_rootfs` on the tree. -/
def sampleRoot (partId : Option Nat) : History Sys × Outcome Sys (Except Err Unit) :=
  (mountRootfs Efi.sampleCrates "/z" "/sysroot" "/img/initos.erofs" true partId).run.exec
    (fun _ => treeSystem rootsTree none) []

theorem sampleRoot_runs {partId : Option Nat}
    (ok : (sampleRoot partId).2 = .done (.ok ())) :
    Runs (mountRootfs Efi.sampleCrates "/z" "/sysroot" "/img/initos.erofs" true partId).run
        (sampleRoot partId).1 (.done (.ok ())) ∧
      Admits (RootNamed rootsTree none) [] (sampleRoot partId).1 := by
  refine ⟨?_, Prog.admits_exec (treeSystem_rootNamed rootsTree none) _ _⟩
  rw [← ok]
  exact Prog.runs_exec _ _ _

theorem sampleRoot_ok : ∀ partId ∈ [none, some 101],
    (sampleRoot partId).2 = .done (.ok ()) := by
  intro partId member
  simp only [List.mem_cons, List.not_mem_nil, or_false] at member
  rcases member with rfl | rfl <;> rfl

/-- Without a boot partition the root of the tree is the one below `c`. -/
theorem root_authenticated_iff_encrypted :
    Authenticated Efi.sampleCrates rootsTree "/z" "/sysroot"
      sampleUnlock.1 (sampleRoot none).1 := by
  obtain ⟨run, named⟩ := sampleRoot_runs (sampleRoot_ok none (by simp))
  refine (root_authenticated_iff Efi.sampleCrates rootsTree "/z" "/sysroot" "/img/initos.erofs" none
    none sampleUnlock_runs sampleUnlock_seen run named).mpr ?_
  intro dir found
  have first : (rootDirs "/z" (Option.getD none "ROOTA") none).find? rootsTree.pathExists =
      some "/z/c/roots/ROOTA" := by decide +kernel
  rw [first] at found
  cases found
  decide +kernel

/-- A boot from partition 101 takes the directory outside `c` as its root. -/
theorem root_not_authenticated_plain :
    ∃ tr₁ tr₂, Runs (unlockStateC "/z" true).run tr₁ (.done (.ok ())) ∧
      (∀ r, ⟨.pathExists (UnixPath.join "/z" "c"), r⟩ ∈ tr₁ →
        r = rootsTree.pathExists (UnixPath.join "/z" "c")) ∧
      Runs (mountRootfs Efi.sampleCrates "/z" "/sysroot" "/img/initos.erofs" true (some 101)).run
        tr₂
        (.done (.ok ())) ∧
      Admits (RootNamed rootsTree none) [] tr₂ ∧
      ¬Authenticated Efi.sampleCrates rootsTree "/z" "/sysroot" tr₁ tr₂ := by
  obtain ⟨run, named⟩ := sampleRoot_runs (sampleRoot_ok (some 101) (by simp))
  refine ⟨sampleUnlock.1, (sampleRoot (some 101)).1, sampleUnlock_runs, sampleUnlock_seen,
    run, named,
    fun authenticated => ?_⟩
  have bound : (⟨SysCmd.recursiveBindMount "/z/roots/101/ROOTA" "/sysroot", Except.ok ()⟩ :
      Event Sys) ∈ (sampleRoot (some 101)).1 := by
    have last : (sampleRoot (some 101)).1.getLast? =
        some ⟨SysCmd.recursiveBindMount "/z/roots/101/ROOTA" "/sysroot", Except.ok ()⟩ := rfl
    exact List.mem_of_getLast? last
  have outside : ¬rootsTree.Below (UnixPath.join "/z" "c") "/z/roots/101/ROOTA" := by
    decide +kernel
  exact outside (authenticated.encrypted _ _ _ bound).1

end Initos.Boot
