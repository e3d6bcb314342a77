import Initos.Boot.Run
import Initos.Tpm2.Exchange

/-!
# What the parts of a boot leave alone

Most parts of a boot look at files and devices, talk to the TPM, or mount file systems
of a fixed kind. They are *quiet*: they neither mount an image nor bind a directory nor
start another program. The lemmas follow the call graph of the model; a loop is quiet
because its body is.
-/

namespace Initos.Boot

open Interact Mount Tpm2 Efi Verify

/-- The calls that do not mount an image, bind a directory or start a program. -/
@[simp] def Quiet : SysCmd → Prop
  | .mountLoop _ _ | .bindMount _ _ | .recursiveBindMount _ _ | .execv _ => False
  | _ => True

theorem quiet_ask {c : SysCmd} (quiet : Quiet c) :
    (Fallible.ask (I := Sys) c : Io (Sys.Resp c)).run.Uses Quiet :=
  (Fallible.uses_ask _ _).mpr quiet

@[simp] theorem ofExcept_quiet {α : Type} (r : Except Err α) : (ofExcept r).run.Uses Quiet := by
  cases r <;> exact trivial

@[simp] theorem ofChecked_quiet {α : Type} (r : Bytes.Checked α) :
    (ofChecked r).run.Uses Quiet := by
  cases r <;> exact trivial

@[simp] theorem envVarOr_quiet (name default : String) :
    (envVarOr name default).run.Uses Quiet :=
  Fallible.uses_bind (quiet_ask trivial) fun _ => trivial

/-! ## Devices -/

@[simp] theorem readExt4Label_quiet (device : String) : (readExt4Label device).run.Uses Quiet :=
  Fallible.uses_bind ((Fallible.uses_call ..).mpr trivial) fun _ => ofChecked_quiet _

@[simp] theorem diskWithPartition_quiet (devName : String) (entries : List (Except Err String)) :
    (diskWithPartition devName entries).run.Uses Quiet := by
  induction entries with
  | nil => exact trivial
  | cons entry rest ih =>
    unfold diskWithPartition
    repeat' first
      | with_reducible refine Fallible.uses_bind ?_ fun _ => ?_
      | split | simp [ih] | exact quiet_ask trivial

@[simp] theorem resolveParentDisk_quiet (partitionPath : String) :
    (resolveParentDisk partitionPath).run.Uses Quiet := by
  unfold resolveParentDisk parentDiskBySysfs parentDiskByName
  repeat' first
    | with_reducible refine Fallible.uses_bind ?_ fun _ => ?_
    | split | simp | exact quiet_ask trivial

@[simp] theorem partitionEntries_quiet (diskSys : String) (names : List String) :
    (partitionEntries diskSys names).run.Uses Quiet := by
  induction names with
  | nil => exact trivial
  | cons name rest ih =>
    unfold partitionEntries
    repeat' first
      | with_reducible refine Fallible.uses_bind ?_ fun _ => ?_
      | split | simp [ih] | exact quiet_ask trivial

@[simp] theorem listDiskPartitions_quiet (diskPath : String) :
    (listDiskPartitions diskPath).run.Uses Quiet := by
  unfold listDiskPartitions
  repeat' first
    | with_reducible refine Fallible.uses_bind ?_ fun _ => ?_
    | split | simp

@[simp] theorem firstWithLabel_quiet (diskPath label : String) (parts : List String) :
    (firstWithLabel diskPath label parts).run.Uses Quiet := by
  induction parts with
  | nil => exact trivial
  | cons part rest ih =>
    unfold firstWithLabel partitionHasLabel
    repeat' first
      | with_reducible refine Fallible.uses_bind ?_ fun _ => ?_
      | split | simp [ih] | exact quiet_ask trivial

@[simp] theorem firstWithNumber_quiet (diskPath : String) (number : Nat) (parts : List String) :
    (firstWithNumber diskPath number parts).run.Uses Quiet := by
  induction parts with
  | nil => exact trivial
  | cons part rest ih =>
    unfold firstWithNumber
    repeat' first
      | with_reducible refine Fallible.uses_bind ?_ fun _ => ?_
      | split | simp [ih]

@[simp] theorem firstSysfsLabel_quiet (label : String) (names : List String) :
    (firstSysfsLabel label names).run.Uses Quiet := by
  induction names with
  | nil => exact trivial
  | cons name rest ih =>
    unfold firstSysfsLabel
    repeat' first
      | with_reducible refine Fallible.uses_bind ?_ fun _ => ?_
      | split | simp [ih]

@[simp] theorem labelAttempts_quiet (label : String) (left : Nat) :
    (labelAttempts label left).run.Uses Quiet := by
  induction left with
  | zero => exact trivial
  | succ left ih =>
    unfold labelAttempts labelAttempt deviceByFilesystemLabel scanSysfsForLabel
    repeat' first
      | with_reducible refine Fallible.uses_bind ?_ fun _ => ?_
      | split | simp [ih] | exact quiet_ask trivial

@[simp] theorem matchBootDisk_quiet (guid : Option String) (number : Option Nat)
    (entries : List (Except Err String))
    (found : List (String × String)) :
    (matchBootDisk guid number entries found).run.Uses Quiet := by
  induction entries generalizing found with
  | nil => exact trivial
  | cons entry rest ih =>
    unfold matchBootDisk readUeventValue
    repeat' first
      | with_reducible refine Fallible.uses_bind ?_ fun _ => ?_
      | split | simp [ih] | exact quiet_ask trivial

@[simp] theorem findBootDisk_quiet (guid : Option (List UInt8)) (number : Option Nat) :
    (findBootDisk guid number).run.Uses Quiet := by
  unfold findBootDisk
  repeat' first
    | with_reducible refine Fallible.uses_bind ?_ fun _ => ?_
    | split | simp | exact quiet_ask trivial

@[simp] theorem findPartitionOnDiskByLabel_quiet (disk label : String) :
    (findPartitionOnDiskByLabel disk label).run.Uses Quiet :=
  Fallible.uses_bind (listDiskPartitions_quiet disk) (firstWithLabel_quiet disk label)

@[simp] theorem findPartitionByNumber_quiet (disk : String) (number : Nat) :
    (findPartitionByNumber disk number).run.Uses Quiet :=
  Fallible.uses_bind (listDiskPartitions_quiet disk) (firstWithNumber_quiet disk number)

@[simp] theorem scanBootDisk_quiet (disk label : String) (deadline fuel : Nat) :
    (scanBootDisk disk label deadline fuel).run.Uses Quiet := by
  induction fuel with
  | zero => exact trivial
  | succ fuel ih =>
    unfold scanBootDisk
    repeat' first
      | with_reducible refine Fallible.uses_bind ?_ fun _ => ?_
      | split | simp [ih] | exact quiet_ask trivial

@[simp] theorem fallbackPartition_quiet (bootDisk : Option String) (e : Err) :
    (fallbackPartition bootDisk e).run.Uses Quiet := by
  unfold fallbackPartition isExt4
  repeat' first
    | with_reducible refine Fallible.uses_bind ?_ fun _ => ?_
    | split | simp

@[simp] theorem fallbackPartitionLate_quiet (bootDisk : Option String) (e : Err) :
    (fallbackPartitionLate bootDisk e).run.Uses Quiet := by
  unfold fallbackPartitionLate isExt4
  repeat' first
    | with_reducible refine Fallible.uses_bind ?_ fun _ => ?_
    | split | simp

@[simp] theorem waitForLabel_quiet (label : String) (bootDisk : Option String)
    (deadline fuel : Nat) :
    (waitForLabel label bootDisk deadline fuel).run.Uses Quiet := by
  induction fuel with
  | zero => exact trivial
  | succ fuel ih =>
    unfold waitForLabel findPartitionByLabel
    repeat' first
      | with_reducible refine Fallible.uses_bind ?_ fun _ => ?_
      | split | simp [ih] | exact quiet_ask trivial

@[simp] theorem findDataDevice_quiet (fuel : Nat) (label : String) (bootDisk : Option String) :
    (findDataDevice fuel label bootDisk).run.Uses Quiet := by
  unfold findDataDevice
  repeat' first
    | with_reducible refine Fallible.uses_bind ?_ fun _ => ?_
    | split | simp | exact quiet_ask trivial

/-! ## EFI variables and signatures -/

@[simp] theorem readEfiVar_quiet (name basePath : String) :
    (readEfiVar name basePath).run.Uses Quiet := by
  unfold readEfiVar stripAttributes
  repeat' first
    | with_reducible refine Fallible.uses_bind ?_ fun _ => ?_
    | split | simp

@[simp] theorem readSecureBoot_quiet (basePath : String) :
    (readSecureBoot basePath).run.Uses Quiet := by
  unfold readSecureBoot
  repeat' first
    | with_reducible refine Fallible.uses_bind ?_ fun _ => ?_
    | split | simp

@[simp] theorem detectVerifiedBootStrict_quiet :
    (detectVerifiedBootStrict).run.Uses Quiet := by
  unfold detectVerifiedBootStrict efiBasePath envVarOr
  repeat' first
    | with_reducible refine Fallible.uses_bind ?_ fun _ => ?_
    | split | simp | exact quiet_ask trivial

@[simp] theorem readBootCurrent_quiet (basePath : String) :
    (readBootCurrent basePath).run.Uses Quiet := by
  unfold readBootCurrent
  repeat' first
    | with_reducible refine Fallible.uses_bind ?_ fun _ => ?_
    | split | simp

@[simp] theorem extractBootDeviceInfo_quiet (basePath : String) :
    (extractBootDeviceInfo basePath).run.Uses Quiet := by
  unfold extractBootDeviceInfo extractWith
  repeat' first
    | with_reducible refine Fallible.uses_bind ?_ fun _ => ?_
    | split | simp

@[simp] theorem measureOrEnableVerity_quiet (img : String) :
    (measureOrEnableVerity img).run.Uses Quiet := by
  unfold measureOrEnableVerity
  repeat' first
    | with_reducible refine Fallible.uses_bind ?_ fun _ => ?_
    | split | simp

section

variable (X : Crates)

@[simp] theorem verifyCerts_quiet (img : String) (digest : List UInt8) (certs : List EfiCert) :
    (verifyCerts X img digest certs).run.Uses Quiet := by
  induction certs with
  | nil => exact trivial
  | cons cert rest ih =>
    unfold verifyCerts
    repeat' first
      | with_reducible refine Fallible.uses_bind ?_ fun _ => ?_
      | split | simp [ih]

@[simp] theorem verifyImageDb_quiet (img basePath : String) :
    (verifyImageDb X img basePath).run.Uses Quiet := by
  unfold verifyImageDb readDb stripAttributes
  repeat' first
    | with_reducible refine Fallible.uses_bind ?_ fun _ => ?_
    | split | simp

end

/-! ## Unlocking -/

@[simp] theorem request_quiet (cmd : Bytes.Checked (List UInt8)) (cmdName : String) :
    (request cmd cmdName).run.Uses Quiet := by
  cases cmd with
  | none => trivial
  | some cmd => exact request_uses_of ⟨trivial, fun _ _ => trivial, trivial, trivial⟩ cmdName

@[simp] theorem openDevice_quiet :
    (openDevice).run.Uses Quiet := by
  unfold openDevice
  repeat' first
    | with_reducible refine Fallible.uses_bind ?_ fun _ => ?_
    | split | simp

@[simp] theorem startPolicySession_quiet :
    (startPolicySession).run.Uses Quiet := by
  unfold startPolicySession startAuthSession
  repeat' first
    | with_reducible refine Fallible.uses_bind ?_ fun _ => ?_
    | split | simp

@[simp] theorem policyPcr_quiet (session : UInt32) :
    (policyPcr session).run.Uses Quiet := by
  unfold policyPcr
  repeat' first
    | with_reducible refine Fallible.uses_bind ?_ fun _ => ?_
    | split | simp

@[simp] theorem policyGetDigest_quiet (session : UInt32) :
    (policyGetDigest session).run.Uses Quiet := by
  unfold policyGetDigest
  repeat' first
    | with_reducible refine Fallible.uses_bind ?_ fun _ => ?_
    | split | simp

@[simp] theorem unsealItem_quiet (itemHandle session : UInt32) :
    (unsealItem itemHandle session).run.Uses Quiet := by
  unfold unsealItem
  repeat' first
    | with_reducible refine Fallible.uses_bind ?_ fun _ => ?_
    | split | simp

@[simp] theorem pcrExtend_quiet (pcrIndex : UInt32) :
    (pcrExtend pcrIndex).run.Uses Quiet := by
  unfold pcrExtend
  repeat' first
    | with_reducible refine Fallible.uses_bind ?_ fun _ => ?_
    | split | simp

@[simp] theorem unsealKey_quiet (secureBoot : Bool) :
    (unsealKey secureBoot).run.Uses Quiet := by
  unfold unsealKey unsealKeyFromHandle
  repeat' first
    | with_reducible refine Fallible.uses_bind ?_ fun _ => ?_
    | split | simp

@[simp] theorem addFscryptKey_quiet (dir : String) (rawKey : List UInt8) :
    (addFscryptKey dir rawKey).run.Uses Quiet := by
  unfold addFscryptKey
  repeat' first
    | with_reducible refine Fallible.uses_bind ?_ fun _ => ?_
    | split | simp

@[simp] theorem unlockCWithTpm_quiet (cDir : String) (verifiedBoot : Bool) :
    (unlockCWithTpm cDir verifiedBoot).run.Uses Quiet := by
  unfold unlockCWithTpm cIsUnlocked extendPcr7
  repeat' first
    | with_reducible refine Fallible.uses_bind ?_ fun _ => ?_
    | split | simp | exact quiet_ask trivial

@[simp] theorem decryptAgeWithKeyFile_quiet (path : String) (key : List UInt8) :
    (decryptAgeWithKeyFile path key).run.Uses Quiet := by
  unfold decryptAgeWithKeyFile decryptAgeWithKey
  repeat' first
    | with_reducible refine Fallible.uses_bind ?_ fun _ => ?_
    | split | simp

@[simp] theorem tryPassword_quiet (cDir cAge pass : String) :
    (tryPassword cDir cAge pass).run.Uses Quiet := by
  unfold tryPassword cIsUnlocked
  repeat' first
    | with_reducible refine Fallible.uses_bind ?_ fun _ => ?_
    | split | simp | exact quiet_ask trivial

@[simp] theorem passwordAttempts_quiet (cDir cAge : String) (left : Nat) :
    (passwordAttempts cDir cAge left).run.Uses Quiet := by
  induction left with
  | zero => exact trivial
  | succ left ih =>
    unfold passwordAttempts
    repeat' first
      | with_reducible refine Fallible.uses_bind ?_ fun _ => ?_
      | split | simp [ih] | exact quiet_ask trivial

@[simp] theorem unlockStateC_quiet (stateMount : String) (verifiedBoot : Bool) :
    (unlockStateC stateMount verifiedBoot).run.Uses Quiet := by
  unfold unlockStateC cIsUnlocked unlockCWithPassword
  repeat' first
    | with_reducible refine Fallible.uses_bind ?_ fun _ => ?_
    | split | simp | exact quiet_ask trivial

/-! ## Choosing images and the init -/

@[simp] theorem signatureBeside_quiet (partPath : String) :
    (signatureBeside partPath).run.Uses Quiet := by
  unfold signatureBeside
  repeat' first
    | with_reducible refine Fallible.uses_bind ?_ fun _ => ?_
    | split | simp | exact quiet_ask trivial

@[simp] theorem firstPartitioned_quiet (partId : Nat) (verifiedBoot : Bool) (cands : List String) :
    (firstPartitioned partId verifiedBoot cands).run.Uses Quiet := by
  induction cands with
  | nil => exact trivial
  | cons cand rest ih =>
    unfold firstPartitioned checkPartitionedImage
    repeat' first
      | with_reducible refine Fallible.uses_bind ?_ fun _ => ?_
      | split | simp [ih] | exact quiet_ask trivial

@[simp] theorem firstExisting_quiet (paths : List String) :
    (firstExisting paths).run.Uses Quiet := by
  induction paths with
  | nil => exact trivial
  | cons path rest ih =>
    unfold firstExisting
    repeat' first
      | with_reducible refine Fallible.uses_bind ?_ fun _ => ?_
      | split | simp [ih] | exact quiet_ask trivial

@[simp] theorem findHostImage_quiet (stateMount imageName : String) (partId : Option Nat)
    (verifiedBoot : Bool) :
    (findHostImage stateMount imageName partId verifiedBoot).run.Uses Quiet := by
  unfold findHostImage
  repeat' first
    | with_reducible refine Fallible.uses_bind ?_ fun _ => ?_
    | split | simp

@[simp] theorem rootImage_quiet (stateMount img : String) (verifiedBoot : Bool)
    (partId : Option Nat) :
    (rootImage stateMount img verifiedBoot partId).run.Uses Quiet := by
  unfold rootImage
  repeat' first
    | with_reducible refine Fallible.uses_bind ?_ fun _ => ?_
    | split | simp

@[simp] theorem slotFirmware_quiet (stateMount : String) (slot : Nat) :
    (slotFirmware stateMount slot).run.Uses Quiet := by
  unfold slotFirmware
  repeat' first
    | with_reducible refine Fallible.uses_bind ?_ fun _ => ?_
    | split | simp | exact quiet_ask trivial

@[simp] theorem kernelRelease_quiet :
    (kernelRelease).run.Uses Quiet := by
  unfold kernelRelease
  repeat' first
    | with_reducible refine Fallible.uses_bind ?_ fun _ => ?_
    | split | simp

@[simp] theorem resolveComponents_quiet (root resolved : String) (parts : List UnixPath.Component) :
    (resolveComponents root resolved parts).run.Uses Quiet := by
  induction parts generalizing resolved with
  | nil => exact trivial
  | cons part rest ih =>
    cases part <;> unfold resolveComponents
    all_goals
      repeat' first
        | with_reducible refine Fallible.uses_bind ?_ fun _ => ?_
        | split | simp [ih]

@[simp] theorem firstInit_quiet (rootMount : String) (candidates : List String) :
    (firstInit rootMount candidates).run.Uses Quiet := by
  induction candidates with
  | nil => exact trivial
  | cons candidate rest ih =>
    unfold firstInit
    repeat' first
      | with_reducible refine Fallible.uses_bind ?_ fun _ => ?_
      | split | simp [ih] | exact quiet_ask trivial

@[simp] theorem selectInit_quiet (stateMount rootMount : String) :
    (selectInit stateMount rootMount).run.Uses Quiet := by
  unfold selectInit resolveRootPath
  repeat' first
    | with_reducible refine Fallible.uses_bind ?_ fun _ => ?_
    | split | simp | exact quiet_ask trivial

/-! ## The file systems of a fixed kind -/

@[simp] theorem mountEarly_quiet (list : List (String × String)) :
    (mountEarly list).run.Uses Quiet := by
  induction list with
  | nil => exact trivial
  | cons entry rest ih =>
    unfold mountEarly
    repeat' first
      | with_reducible refine Fallible.uses_bind ?_ fun _ => ?_
      | split | simp [ih]

@[simp] theorem mountSystemFilesystems_quiet (rootMount : String) :
    (mountSystemFilesystems rootMount).run.Uses Quiet := by
  unfold mountSystemFilesystems mountPseudoInRoot mountOptionalPseudoInRoot mountFsInRoot
  repeat' first
    | with_reducible refine Fallible.uses_bind ?_ fun _ => ?_
    | split | simp | exact quiet_ask trivial

@[simp] theorem findBootDevice_quiet :
    (findBootDevice).run.Uses Quiet := by
  unfold findBootDevice efiBasePath envVarOr
  repeat' first
    | with_reducible refine Fallible.uses_bind ?_ fun _ => ?_
    | split | simp | exact quiet_ask trivial

end Initos.Boot
