import Initos.Upgrade.Moments

/-!
# Crashes and errors of an install

Runs of `install_slot` one after another, each ending anywhere, never touch the other slot. They
never lose the last complete payload of a slot either, as long as the names in a payload do not
lead out of it: `[ -f ]` follows links, and a link out of the staging directory may lead to the
very files that the run replaces. A run that fails is not always undone: once the slot directory
has been renamed away, only the staging directory is cleaned up.
-/

namespace Initos.Upgrade

open Script LiveFs

/-! ## Payloads -/

/-- No file name of a payload leads out of the tree. -/
def SelfContained (t : Fs (List UInt8)) : Prop :=
  ∀ name ∈ payloadFiles, ¬Leaves t [] [.down (.text name)]

/-- A payload that has all its files in itself. -/
structure Sound (t : Fs (List UInt8)) : Prop where
  top : t [] = some .dir
  files : ∀ name ∈ payloadFiles, ∃ x content verity, Inside t [] [.down (.text name)] x ∧
    t x = some (.file content verity)

section

variable {fs : Fs (List UInt8)} {dir : Location} {n : Name}

/-- A complete payload that leads nowhere else is sound. -/
theorem sound_of_complete (solid : Solid fs dir) (nonempty : dir ≠ [])
    (contained : SelfContained (treeAt fs dir)) (complete : Complete fs dir) :
    Sound (treeAt fs dir) := by
  constructor
  · rw [treeAt_nil]
    exact solid dir List.prefix_rfl nonempty
  · intro name member
    obtain ⟨content, l, verity, walk, holds⟩ := complete name member
    rw [path_append, solid.walk_iff] at walk
    rcases walk.inside_or_leaves (List.append_nil dir).symm with ⟨x, rfl, inside⟩ | leaves
    · exact ⟨x, content, verity, inside, holds⟩
    · exact absurd leaves (contained name member)

theorem Sound.solid (sound : Sound (treeAt fs (dir ++ [n]))) (solid : Solid fs dir) :
    Solid fs (dir ++ [n]) := by
  have top := sound.top
  rw [treeAt_nil] at top
  exact solid.concat top

/-- A sound payload is complete wherever it stands. -/
theorem Sound.complete (sound : Sound (treeAt fs (dir ++ [n]))) (solid : Solid fs dir) :
    Complete fs (dir ++ [n]) := by
  intro name member
  obtain ⟨x, content, verity, inside, holds⟩ := sound.files name member
  refine ⟨content, dir ++ [n] ++ x, verity, ?_, holds⟩
  rw [path_append, (sound.solid solid).walk_iff]
  have walk := inside.walk
  rwa [List.append_nil] at walk

end

/-! ## Recovery -/

/-- A complete payload can be found for the slot. -/
def Recoverable (w : Machine) (s : Slot) : Prop :=
  Complete w.tree (slotDir s) ∨ Complete w.tree (previousDir s)

/-- The slot's directories and its partition on any disk are the same. -/
def SameSlot (w w' : Machine) (s : Slot) : Prop :=
  treeAt w'.tree (slotDir s) = treeAt w.tree (slotDir s) ∧
    treeAt w'.tree (previousDir s) = treeAt w.tree (previousDir s) ∧
    ∀ disk, w'.partition (partitionDevice disk s) = w.partition (partitionDevice disk s)

/-- A machine as it is before the first install: both slots are directories, reached through
    directories, and complete payloads whose names do not lead out of them. -/
structure Started (w : Machine) : Prop where
  root : w.tree [] = some .dir
  solid : ∀ s, Solid w.tree (slotDir s)
  complete : ∀ s, Complete w.tree (slotDir s)
  contained : ∀ s, SelfContained (treeAt w.tree (slotDir s))

/-- One run of an install for either slot, of an archive whose names do not lead out of it, up to
    the moment at which it ended or was cut off. -/
def Ran (w w' : Machine) : Prop := ∃ a failed, SelfContained a.payload ∧ Runs a w failed w'

/-- The machine after any number of installs. -/
def Installed : Machine → Machine → Prop := Relation.ReflTransGen Ran

/-- What the installs keep: each slot or its backup has a payload with all its files in itself. -/
structure Recovers (w : Machine) : Prop where
  clear : Clear w.tree imgDir
  solid : Solid w.tree imgDir
  sound : ∀ s, Sound (treeAt w.tree (slotDir s)) ∨ Sound (treeAt w.tree (previousDir s))

/-- What the invariant is for. -/
theorem Recovers.recoverable {w : Machine} (recovers : Recovers w) (s : Slot) : Recoverable w s :=
  (recovers.sound s).imp (·.complete recovers.solid) (·.complete recovers.solid)

theorem Started.recovers {w : Machine} (started : Started w) : Recovers w := by
  have solid : Solid w.tree imgDir := fun q above nonempty =>
    started.solid .s101 q (above.trans (List.prefix_append _ _)) nonempty
  refine ⟨fun q above => ?_, solid, fun s => .inl ?_⟩
  · by_cases nonempty : q = []
    · rw [nonempty, started.root]
      exact id
    · rw [solid q above nonempty]
      exact id
  · exact sound_of_complete (started.solid s) (by simp [slotDir]) (started.contained s)
      (started.complete s)

section

variable {a : Install} {w w' : Machine} {failed : Option Command} {s : Slot}

/-- A moment of a run leaves the other slot as it was. -/
theorem Moment.sameSlot (moment : Moment a w failed w') (other : s ≠ a.slot) : SameSlot w w' s := by
  have device : ∀ disk, partitionDevice disk s ≠ a.partition := fun _ => partitionDevice_ne other
  refine ⟨?_, ?_, fun disk => ?_⟩
  · funext x
    exact moment.elsewhere (not_above (List.prefix_append _ x))
      ((slot_apart_slot other.symm).not_below x) (slot_apart_previous.symm.not_below x)
      (stage_apart_slot.not_below x)
  · funext x
    exact moment.elsewhere (not_above (List.prefix_append _ x))
      (slot_apart_previous.not_below x) ((previous_apart_previous other.symm).not_below x)
      (stage_apart_previous.not_below x)
  · cases moment with
    | before _ _ partitions | moved _ _ _ partitions => exact congrFun partitions _
    | activated _ _ _ _ _ _ partitions | pruned _ _ _ _ _ partitions =>
      rw [partitions, Function.update_of_ne (device disk)]

/-- Before the renames the slot and its backup are as they were. -/
theorem treeAt_before {fs fs₀ : Fs (List UInt8)} {n : Name}
    (tree : ∀ x, ¬a.stageDir <+: x → fs x = fs₀ x ∨ fs x = made fs₀ x)
    (apart : Apart a.stageDir (imgDir ++ [n])) :
    treeAt fs (imgDir ++ [n]) = treeAt fs₀ (imgDir ++ [n]) := by
  funext x
  rcases tree _ (apart.not_below x) with same | same
  · exact same
  · exact same.trans (made_of_not_above (not_above (List.prefix_append _ x)))

/-- A payload that has passed the checks, and does not lead out of itself. -/
theorem Checked.sound {fs : Fs (List UInt8)} (checked : Checked a fs)
    (contained : SelfContained a.payload) : Sound a.payload := by
  have payload : treeAt (staged a fs) a.stageDir = a.payload := treeAt_graft_self
  rw [← payload] at contained ⊢
  exact sound_of_complete (solid_staged.concat staged_stage) (by simp [Install.stageDir]) contained
    checked.complete

/-- Where there is no backup it is the slot itself that is complete, and it becomes the backup. -/
theorem Checked.sound_previous {fs : Fs (List UInt8)} (checked : Checked a fs)
    (sound : Sound (treeAt fs (slotDir a.slot)) ∨ Sound (treeAt fs (previousDir a.slot))) :
    Sound (treeAt (cleared a fs) (previousDir a.slot)) := by
  have slot : treeAt (staged a fs) (slotDir a.slot) = treeAt fs (slotDir a.slot) :=
    treeAt_staged stage_apart_slot
  have previous : treeAt (staged a fs) (previousDir a.slot) = treeAt fs (previousDir a.slot) :=
    treeAt_staged stage_apart_previous
  rw [← slot, ← previous] at sound
  rcases sound with sound | sound
  · have solid : Solid (staged a fs) (slotDir a.slot) := sound.solid solid_staged
    rw [cleared, if_pos (solid.exists (by simp [slotDir])),
      if_pos (solid _ List.prefix_rfl (by simp [slotDir])), treeAt_moveTree_dst]
    exact sound
  · exact absurd ((sound.solid solid_staged).exists (by simp [imgDir])) checked.fresh

/-- Each moment of a run keeps the invariant. -/
theorem Moment.recovers (moment : Moment a w failed w') (contained : SelfContained a.payload)
    (recovers : Recovers w) : Recovers w' := by
  refine ⟨moment.clear recovers.clear, fun q above nonempty => ?_, fun s => ?_⟩
  · rcases moment.above above with same | same
    · rw [same, recovers.solid q above nonempty]
    · rw [same, made_of_above above nonempty]
  by_cases same : s = a.slot
  swap
  · obtain ⟨slot, previous, -⟩ := moment.sameSlot same
    rw [slot, previous]
    exact recovers.sound s
  subst same
  cases moment with
  | before _ tree =>
    have slot : treeAt w'.tree (slotDir a.slot) = treeAt w.tree (slotDir a.slot) :=
      treeAt_before tree stage_apart_slot
    have previous : treeAt w'.tree (previousDir a.slot) = treeAt w.tree (previousDir a.slot) :=
      treeAt_before tree stage_apart_previous
    rw [slot, previous]
    exact recovers.sound a.slot
  | moved _ checked tree =>
    right
    rw [tree.treeAt_eq stage_apart_previous]
    exact checked.sound_previous (recovers.sound a.slot)
  | activated _ _ _ checked _ tree =>
    left
    rw [tree.treeAt_eq stage_apart_slot, treeAt_activated_slot]
    exact checked.sound contained
  | pruned _ _ checked _ tree =>
    left
    rw [treeAt_slot_of_activated tree]
    exact checked.sound contained

/-- So do any number of runs. -/
theorem Installed.recovers (installed : Installed w w') (recovers : Recovers w) : Recovers w' := by
  induction installed with
  | refl => exact recovers
  | tail _ ran ih =>
    obtain ⟨a, failed, contained, runs⟩ := ran
    exact (runs.moment ih.clear).recovers contained ih

end

/-- However often installs are run, and wherever each of them ends, every slot still has a
    complete payload, and a further run, at each of its moments, has not touched the other slot. -/
theorem installs_recoverable {w w' : Machine} (started : Started w) (installed : Installed w w') :
    (∀ s, Recoverable w' s) ∧
      ∀ a failed w'', Runs a w' failed w'' → ∀ s ≠ a.slot, SameSlot w' w'' s := by
  have recovers := installed.recovers started.recovers
  exact ⟨recovers.recoverable, fun a failed w'' runs s other =>
    (runs.moment recovers.clear).sameSlot other⟩

/-! ## Errors -/

/-- The slot's directory and its boot partition are as they were. -/
def Kept (a : Install) (w w' : Machine) : Prop :=
  treeAt w'.tree (slotDir a.slot) = treeAt w.tree (slotDir a.slot) ∧
    w'.partition a.partition = w.partition a.partition

/-- When the failure of a command leaves no trace: before the slot is renamed away always, later
    only if the slot was not there (as `[ -e ]` sees it), or already was what is being installed,
    down to the bytes of the boot image that have been written. -/
def LeavesNoTrace (a : Install) (w : Machine) (written : List UInt8) : Command → Prop
  | .activate => ¬Exists (staged a w.tree) (path (slotDir a.slot))
  | .syncSlot => treeAt w.tree (slotDir a.slot) = a.payload
  | .dd | .syncPartition | .removePrevious =>
    treeAt w.tree (slotDir a.slot) = a.payload ∧ written <+: w.partition a.partition
  | _ => True

section

variable {a : Install} {w w' : Machine}

/-- When the new payload and what was written to the partition are the old ones. -/
theorem kept_iff_of_overlay {bytes : List UInt8}
    (slot : treeAt w'.tree (slotDir a.slot) = a.payload)
    (partitions : w'.partition =
      Function.update w.partition a.partition (overlay (w.partition a.partition) bytes)) :
    Kept a w w' ↔
      treeAt w.tree (slotDir a.slot) = a.payload ∧ bytes <+: w.partition a.partition := by
  unfold Kept
  rw [slot, partitions, Function.update_self, overlay_eq_self_iff, eq_comm]

/-- The first rename leaves the slot as it was only if it was not there. -/
theorem treeAt_cleared_slot :
    treeAt (cleared a w.tree) (slotDir a.slot) = treeAt w.tree (slotDir a.slot) ↔
      ¬Exists (staged a w.tree) (path (slotDir a.slot)) := by
  have before : treeAt (staged a w.tree) (slotDir a.slot) = treeAt w.tree (slotDir a.slot) :=
    treeAt_staged stage_apart_slot
  by_cases there : Exists (staged a w.tree) (path (slotDir a.slot))
  · refine iff_of_false (fun same => ?_) (not_not.mpr there)
    have top := congrFun (same.trans before.symm) []
    rw [treeAt_nil, treeAt_nil, cleared_slot there] at top
    exact solid_staged.ne_none_of_exists there top.symm
  · refine iff_of_true ?_ there
    rw [cleared, if_neg there, before]

/-- For a run that has failed at `c`, with `written` bytes of the image on the partition when it
    was `dd` that failed. -/
theorem kept_iff_leavesNoTrace {c : Command} (clear : Clear w.tree imgDir)
    (runs : Runs a w (some c) w') :
    ∃ image written, IsImage a w.tree image ∧ (c ≠ .dd → written = image.length) ∧
      (c = .dd → w'.partition a.partition =
        overlay (w.partition a.partition) (image.take written)) ∧
      (Kept a w w' ↔ LeavesNoTrace a w (image.take written) c) := by
  cases runs.moment clear with
  | before early tree partitions =>
    obtain ⟨image, isImage⟩ := exists_isImage a w.tree
    have early : c.BeforeActivation := early c rfl
    have kept : Kept a w w' := ⟨treeAt_before tree stage_apart_slot, congrFun partitions _⟩
    refine ⟨image, image.length, isImage, fun _ => rfl, ?_⟩
    cases c <;> first | exact early.elim | simp [kept, LeavesNoTrace]
  | moved at_ _ tree partitions =>
    obtain rfl := at_ c rfl
    obtain ⟨image, isImage⟩ := exists_isImage a w.tree
    refine ⟨image, image.length, isImage, fun _ => rfl, nofun, ?_⟩
    rw [Kept, tree.treeAt_eq stage_apart_slot, treeAt_cleared_slot, partitions]
    exact and_iff_left rfl
  | activated image written at_ _ isImage tree partitions =>
    have kept := kept_iff_of_overlay
      ((tree.treeAt_eq stage_apart_slot).trans treeAt_activated_slot) partitions
    rcases at_ c rfl with ⟨rfl, rfl⟩ | rfl | ⟨rfl, rfl⟩
    · exact ⟨image, image.length, isImage, fun _ => rfl, nofun,
        kept.trans (and_iff_left List.nil_prefix)⟩
    · refine ⟨image, written, isImage, fun other => absurd rfl other, fun _ => ?_, kept⟩
      rw [partitions, Function.update_self]
    · exact ⟨image, image.length, isImage, fun _ => rfl, nofun, kept⟩
  | pruned image at_ _ isImage tree partitions =>
    obtain rfl := at_ c rfl
    rw [← List.take_length (l := image)] at partitions
    exact ⟨image, image.length, isImage, fun _ => rfl, nofun,
      kept_iff_of_overlay (treeAt_slot_of_activated tree) partitions⟩

end

/-! ## Runs that get as far as the renames -/

/-- Nothing stands in the way of a run up to the renames: the checks succeed, the slot is a
    directory, and there is no backup. -/
structure Accepts (a : Install) (w : Machine) : Prop where
  confirmed : a.confirm = "--write"
  blocks : w.isBlock a.disk = true ∧ w.isBlock a.partition = true
  release : a.hasArchive = true ∧ a.hasSums = true
  solid : Solid w.tree (slotDir a.slot)
  unused : ∀ x, a.stageDir <+: x → w.tree x = none
  complete : Complete (staged a w.tree) a.stageDir
  signed : ImageHasSignature (staged a w.tree) a.stageDir firmwareImage
  store : IsDir (staged a w.tree) (path storeDir)
  free : ∀ x, previousDir a.slot <+: x → w.tree x = none

namespace Accepts

variable {a : Install} {w : Machine}

theorem solid_img (accepts : Accepts a w) : Solid w.tree imgDir := fun q above nonempty =>
  accepts.solid q (above.trans (List.prefix_append _ _)) nonempty

/-- The payload comes to be in the staging directory. -/
theorem reaches_staged (accepts : Accepts a w) :
    Reaches (effects a) (start (installSlot a), w)
      (⟨activation a, [.removeStage], none⟩, { w with tree := staged a w.tree }) := by
  have made : Upgrade.made w.tree = w.tree := made_of_solid accepts.solid_img
  let empty : Fs (List UInt8) := Function.update w.tree a.stageDir (some .dir)
  have same : SameBut a.stageDir w.tree empty := sameBut_update List.prefix_rfl
  have solid : Solid empty a.stageDir := by
    refine Solid.concat (fun q above nonempty => ?_) (Function.update_self ..)
    rw [same q (not_in above), accepts.solid_img q above nonempty]
  have isDir : IsDir w.tree (path imgDir) :=
    ⟨imgDir, accepts.solid_img.walk, accepts.solid_img _ List.prefix_rfl (by simp [imgDir])⟩
  have unpacks : Unpacks a.payload (path a.stageDir) empty (staged a w.tree) := by
    refine ⟨a.stageDir, solid.walk, ?_⟩
    rw [staged, made, same.graft_eq]
  refine .head (.whole rfl) ?_
  refine .head (.yes accepts.confirmed) ?_
  refine .head (.yes accepts.blocks.1) ?_
  refine .head (.yes accepts.blocks.2) ?_
  refine .head (.yes accepts.release) ?_
  refine .head (.whole rfl) ?_
  refine .head (.whole ⟨isDir, rfl⟩) ?_
  refine .head (.whole ⟨empty, ⟨a.stageDir, accepts.solid_img.place (by simp [imgDir]),
    accepts.unused, rfl⟩, rfl⟩) ?_
  refine .head .setTrap ?_
  refine .head (.whole ⟨staged a w.tree, unpacks, rfl⟩) ?_
  refine .head (.yes accepts.complete) ?_
  refine .head (.yes accepts.signed) ?_
  refine .head (.yes accepts.store) ?_
  exact .single (.whole rfl)

theorem staged_slot (accepts : Accepts a w) : staged a w.tree (slotDir a.slot) = some .dir := by
  have same : treeAt (staged a w.tree) (slotDir a.slot) = treeAt w.tree (slotDir a.slot) :=
    treeAt_staged stage_apart_slot
  have top := congrFun same []
  rw [treeAt_nil, treeAt_nil] at top
  rw [top, accepts.solid _ List.prefix_rfl (by simp [slotDir])]

theorem exists_slot (accepts : Accepts a w) :
    Exists (staged a w.tree) (path (slotDir a.slot)) :=
  (solid_staged.concat accepts.staged_slot).exists (by simp [imgDir])

/-- The slot is renamed to its backup. -/
theorem cleared_eq (accepts : Accepts a w) :
    cleared a w.tree = moveTree (staged a w.tree) (slotDir a.slot) (previousDir a.slot) := by
  rw [cleared, if_pos accepts.exists_slot, if_pos accepts.staged_slot]

theorem staged_previous (accepts : Accepts a w) :
    ∀ x, previousDir a.slot <+: x → staged a w.tree x = none := by
  rintro _ ⟨x, rfl⟩
  have same : treeAt (staged a w.tree) (previousDir a.slot) =
      treeAt w.tree (previousDir a.slot) := treeAt_staged stage_apart_previous
  exact (congrFun same x).trans (accepts.free _ (List.prefix_append _ x))

/-- The slot is about to be renamed away. -/
theorem reaches_backup (accepts : Accepts a w) :
    Reaches (effects a) (start (installSlot a), w)
      (⟨.run .backup :: (activation a).drop 2, [.removeStage], none⟩,
        { w with tree := staged a w.tree }) := by
  have absent : ¬Exists (staged a w.tree) (path (previousDir a.slot)) := fun there =>
    solid_staged.ne_none_of_exists there (accepts.staged_previous _ List.prefix_rfl)
  exact accepts.reaches_staged.trans (.head (.no absent) (.single (.yes accepts.exists_slot)))

/-- The slot is renamed away. -/
theorem reaches_cleared (accepts : Accepts a w) :
    Reaches (effects a) (start (installSlot a), w)
      (⟨(activation a).drop 2, [.removeStage], none⟩, { w with tree := cleared a w.tree }) := by
  have renames : Renames (path (slotDir a.slot)) (path (previousDir a.slot)) (staged a w.tree)
      (cleared a w.tree) :=
    ⟨slotDir a.slot, previousDir a.slot, .dir, solid_staged.place (by simp [imgDir]),
      accepts.staged_slot, solid_staged.place (by simp [imgDir]),
      .inr ⟨rfl, slot_apart_previous.1, .inl (accepts.staged_previous _ List.prefix_rfl),
        fun x start _ => accepts.staged_previous x start, accepts.cleared_eq⟩⟩
  exact accepts.reaches_backup.tail (.whole ⟨_, renames, rfl⟩)

/-- The staging directory takes the place of the slot. -/
theorem reaches_activated (accepts : Accepts a w) :
    Reaches (effects a) (start (installSlot a), w)
      (⟨(activation a).drop 3, [.removeStage], none⟩, { w with tree := activated a w.tree }) := by
  have solid : Solid (cleared a w.tree) imgDir := by
    intro q above nonempty
    rw [cleared_of_above above]
    exact solid_staged q above nonempty
  have gone : ∀ x, slotDir a.slot <+: x → cleared a w.tree x = none := by
    rintro _ ⟨x, rfl⟩
    rw [accepts.cleared_eq]
    exact treeAt_moveTree_src slot_apart_previous x
  have renames : Renames (path a.stageDir) (path (slotDir a.slot)) (cleared a w.tree)
      (activated a w.tree) :=
    ⟨a.stageDir, slotDir a.slot, .dir, solid.place (by simp [imgDir]), cleared_stage,
      solid.place (by simp [imgDir]), .inr ⟨rfl, stage_apart_slot.1,
        .inl (gone _ List.prefix_rfl), fun x start _ => gone x start, rfl⟩⟩
  exact accepts.reaches_cleared.tail (.whole ⟨_, renames, rfl⟩)

/-- After the renames the slot is in the backup. -/
theorem treeAt_previous (accepts : Accepts a w) :
    treeAt (activated a w.tree) (previousDir a.slot) = treeAt w.tree (slotDir a.slot) := by
  have moved : treeAt (activated a w.tree) (previousDir a.slot) =
      treeAt (cleared a w.tree) (previousDir a.slot) := by
    funext x
    exact activated_of_not (slot_apart_previous.not_below x) (stage_apart_previous.not_below x)
  rw [moved, accepts.cleared_eq, treeAt_moveTree_dst]
  exact treeAt_staged stage_apart_slot

end Accepts

section Sample

/-- A directory with the files of a payload. -/
def slotEntries (dir : Location) (content : UInt8) : List (Location × Node (List UInt8)) :=
  (dir, .dir) :: payloadFiles.map fun name => (dir ++ [.text name], .file [content] false)

/-- Both slots hold an older release. -/
def sampleTree : List (Location × Node (List UInt8)) :=
  [([], .dir), ([.text "z"], .dir), (imgDir, .dir), (imgDir ++ [.text "composefs"], .dir),
    (storeDir, .dir)] ++ (slotEntries (slotDir .s101) 1 ++ slotEntries (slotDir .s102) 1)

/-- A machine with these slots. -/
def sampleMachine : Machine where
  tree := ofList sampleTree
  partition _ := [1]
  isBlock _ := true

/-- The image of a payload: a file, or the link `../101/initos.erofs`. -/
def initosNode : (linked : Bool) → Node (List UInt8)
  | true => .link [.up, .down (.text "101"), .down (.text "initos.erofs")]
  | false => .file [2] false

/-- A payload with this image. -/
def samplePayload (linked : Bool) : List (Location × Node (List UInt8)) :=
  [([], .dir), ([.text bootImage], .file [2] false),
    ([.text "initos.erofs"], initosNode linked), ([.text firmwareImage], .file [2] false),
    ([.text "firmware-light.basedir"], .file [2] false),
    ([.text (firmwareImage ++ ".sig")], .file [] false)]

/-- `initos-upgrade install DIR /dev/sda 101 --write` of this payload. -/
def sampleInstall (linked : Bool) : Install where
  slot := .s101
  disk := "/dev/sda"
  confirm := "--write"
  hasArchive := true
  hasSums := true
  payload := ofList (samplePayload linked)
  payload_dir := rfl
  process := 0

/-- The names of a payload whose files are plain files stay in it. -/
theorem selfContained_of_files {t : Fs (List UInt8)} (content : List UInt8)
    (files : ∀ name ∈ payloadFiles, t [.text name] = some (.file content false)) :
    SelfContained t := fun name member => not_leaves_of_file (files name member)

theorem started_sampleMachine : Started sampleMachine where
  root := rfl
  solid s := by
    have root : Solid sampleMachine.tree [] := fun q start nonempty =>
      absurd (List.prefix_nil.mp start) nonempty
    have z : Solid sampleMachine.tree [.text "z"] := root.concat rfl
    have img : Solid sampleMachine.tree imgDir := z.concat rfl
    exact img.concat (by cases s <;> decide)
  complete s := by
    have computed : ∀ name ∈ payloadFiles,
        isFileAt sampleMachine.tree (path (slotDir s ++ [.text name])) = true := by
      cases s <;> decide +kernel
    exact fun name member => isFile_of_isFileAt (computed name member)
  contained s := selfContained_of_files [1] (by cases s <;> decide)

theorem accepts_sample (linked : Bool) : Accepts (sampleInstall linked) sampleMachine where
  confirmed := rfl
  blocks := ⟨rfl, rfl⟩
  release := ⟨rfl, rfl⟩
  solid := started_sampleMachine.solid .s101
  unused x start := ofList_eq_none fun e member same => by
    have outside : ∀ e ∈ sampleTree, ¬(sampleInstall linked).stageDir <+: e.1 := by
      cases linked <;> decide
    exact outside e member (same ▸ start)
  complete name member := by
    have computed : ∀ name ∈ payloadFiles, isFileAt (staged (sampleInstall linked)
        sampleMachine.tree) (path ((sampleInstall linked).stageDir ++ [.text name])) = true := by
      cases linked <;> decide +kernel
    exact isFile_of_isFileAt (computed name member)
  signed := .inl (isFile_of_isFileAt (by cases linked <;> decide +kernel))
  store := isDir_of_isDirAt (by cases linked <;> decide +kernel)
  free x start := ofList_eq_none fun e member same => by
    have outside : ∀ e ∈ sampleTree, ¬previousDir .s101 <+: e.1 := by decide
    exact outside e member (same ▸ start)

/-- The rename of the staging directory may fail after the slot has been renamed away. -/
theorem sampleInstall_fails (linked : Bool) :
    ∃ w', Runs (sampleInstall linked) sampleMachine (some .activate) w' ∧
      w'.tree (slotDir .s101) = none := by
  have accepts := accepts_sample linked
  exact ⟨_, ⟨_, accepts.reaches_cleared.tail .fail, rfl⟩, cleared_slot accepts.exists_slot⟩

theorem installs_recoverable_sample : ∃ w', Installed sampleMachine w' ∧
    w'.tree (slotDir .s101) = none ∧ ∀ s, Recoverable w' s := by
  obtain ⟨w', runs, missing⟩ := sampleInstall_fails false
  have contained : SelfContained (sampleInstall false).payload :=
    selfContained_of_files [2] (by decide)
  have installed : Installed sampleMachine w' := .single ⟨_, _, contained, runs⟩
  exact ⟨w', installed, missing, (installs_recoverable started_sampleMachine installed).1⟩

/-- A link to itself by way of its own directory leads nowhere. -/
theorem not_walk_of_loop {fs : Fs (List UInt8)} {d l : Location} {n f : Name}
    (isDir : fs (d ++ [n]) = some .dir)
    (loops : fs (d ++ [n] ++ [f]) = some (.link [.up, .down n, .down f])) :
    ¬Walk fs (d ++ [n]) [.down f] l := by
  -- the walk only ever comes to three paths, and to the end of none of them
  suffices never : ∀ {cur p l}, Walk fs cur p l →
      ¬(cur = d ++ [n] ∧ (p = [.down f] ∨ p = [.up, .down n, .down f]) ∨
        cur = d ∧ p = [.down n, .down f]) from
    fun walk => never walk (.inl ⟨rfl, .inl rfl⟩)
  intro cur p l walk
  induction walk with
  | nil | root => simp
  | up _ ih =>
    rintro (⟨rfl, same | same⟩ | ⟨rfl, same⟩) <;> cases same
    exact ih (.inr ⟨List.dropLast_concat, rfl⟩)
  | last notLink =>
    rintro (⟨rfl, same | same⟩ | ⟨rfl, same⟩) <;> cases same
    rw [loops] at notLink
    exact notLink trivial
  | dir here _ ih =>
    rintro (⟨rfl, same | same⟩ | ⟨rfl, same⟩) <;> cases same
    · exact absurd (loops.symm.trans here) nofun
    · exact ih (.inl ⟨rfl, .inl rfl⟩)
  | link here _ ih =>
    rintro (⟨rfl, same | same⟩ | ⟨rfl, same⟩) <;> cases same
    · obtain rfl : _ = _ := by simpa using loops.symm.trans here
      exact ih (.inl ⟨rfl, .inr rfl⟩)
    · exact absurd (isDir.symm.trans here) nofun

/-- The image of the old release, once it is in the backup. -/
def oldImage : Location := previousDir .s101 ++ [.text "initos.erofs"]

/-- The tree once `rm -rf` has removed the old image. -/
noncomputable def lostTree : Fs (List UInt8) :=
  Function.update (activated (sampleInstall true) sampleMachine.tree) oldImage none

theorem lostTree_slot (x : Location) :
    lostTree (slotDir .s101 ++ x) = (sampleInstall true).payload x := by
  have other : slotDir .s101 ++ x ≠ oldImage := by simp [slotDir, oldImage, previousDir, Slot.text]
  rw [lostTree, Function.update_of_ne other]
  exact congrFun treeAt_activated_slot x

/-- The run comes to the removal of the backup, and its first step. -/
theorem sampleInstall_loses : Runs (sampleInstall true) sampleMachine none
    { sampleMachine.withPartition (sampleInstall true) [2] with tree := lostTree } := by
  have accepts := accepts_sample true
  have slot : ∀ x, activated (sampleInstall true) sampleMachine.tree (slotDir .s101 ++ x) =
      (sampleInstall true).payload x := congrFun treeAt_activated_slot
  have solid : Solid (activated (sampleInstall true) sampleMachine.tree) (slotDir .s101) :=
    solid_activated.concat (slot [])
  have reads : Reads (activated (sampleInstall true) sampleMachine.tree)
      (sampleInstall true).imagePath [2] := by
    have file : ¬IsLink (activated (sampleInstall true) sampleMachine.tree
        (slotDir .s101 ++ [.text bootImage])) := by
      rw [slot]
      exact id
    exact ⟨_, false, solid.walk_iff.mpr (.last file), slot [.text bootImage]⟩
  have leaf : ∀ y, oldImage <+: y → y ≠ oldImage →
      activated (sampleInstall true) sampleMachine.tree y = none := by
    rintro _ ⟨x, rfl⟩ below
    have moved : activated (sampleInstall true) sampleMachine.tree
        (previousDir .s101 ++ (.text "initos.erofs" :: x)) =
          sampleMachine.tree (slotDir .s101 ++ (.text "initos.erofs" :: x)) :=
      congrFun accepts.treeAt_previous (.text "initos.erofs" :: x)
    rw [oldImage, List.append_assoc, List.singleton_append, moved]
    refine ofList_eq_none fun e member same => ?_
    have shallow : ∀ e ∈ sampleTree, e.1.length ≤ 4 := by decide
    have deep : 0 < x.length := List.length_pos_iff.mpr fun nothing => below (by simp [nothing])
    have := same ▸ shallow e member
    simp only [slotDir, imgDir, List.length_append, List.length_cons, List.length_nil] at this
    omega
  have prunes : Prunes (path (previousDir .s101))
      (activated (sampleInstall true) sampleMachine.tree) lostTree :=
    ⟨previousDir .s101, oldImage, solid_activated.place (by simp [imgDir]),
      List.prefix_append _ _, leaf, rfl⟩
  refine ⟨⟨(activation (sampleInstall true)).drop 6, [.removeStage], none⟩,
    accepts.reaches_activated.trans ?_, rfl⟩
  refine .head (.whole rfl) ?_
  refine .head (.whole ⟨[2], reads, Nat.le_refl _, rfl⟩) ?_
  refine .head (.whole rfl) ?_
  exact .single (.part ⟨lostTree, prunes, rfl⟩)

/-- `[ -f ]` has followed the link to the image of the slot, which is then replaced by the link. -/
theorem linked_payload_lost :
    Started sampleMachine ∧ (∀ s, sampleMachine.tree (previousDir s) = none) ∧
      ∃ w', Runs (sampleInstall true) sampleMachine none w' ∧ ¬Recoverable w' .s101 := by
  refine ⟨started_sampleMachine, fun s => by cases s <;> decide, _, sampleInstall_loses, ?_⟩
  have img : Solid lostTree imgDir := by
    intro q above nonempty
    have other : q ≠ oldImage := fun same => by
      have := above.length_le
      simp [same, oldImage, previousDir, imgDir] at this
    rw [lostTree, Function.update_of_ne other]
    exact solid_activated q above nonempty
  have named : "initos.erofs" ∈ payloadFiles := by decide
  rintro (complete | complete)
  · obtain ⟨_, l, _, walk, _⟩ := complete "initos.erofs" named
    have slot : Solid lostTree (slotDir .s101) := img.concat (lostTree_slot [])
    rw [path_append, slot.walk_iff] at walk
    exact not_walk_of_loop (lostTree_slot []) (lostTree_slot [.text "initos.erofs"]) walk
  · have previous : Solid lostTree (previousDir .s101) := by
      have top : activated (sampleInstall true) sampleMachine.tree (previousDir .s101 ++ []) =
          sampleMachine.tree (slotDir .s101 ++ []) :=
        congrFun (accepts_sample true).treeAt_previous []
      refine img.concat (Eq.trans ?_ top)
      exact Function.update_of_ne (by decide) _ _
    exact previous.ne_none_of_exists (complete "initos.erofs" named).exists
      (Function.update_self ..)

/-- The last command at which a failure leaves no trace, and the first at which it does. -/
theorem kept_iff_leavesNoTrace_sample :
    (∃ w', Runs (sampleInstall false) sampleMachine (some .backup) w' ∧
        Kept (sampleInstall false) sampleMachine w') ∧
      ∃ w', Runs (sampleInstall false) sampleMachine (some .activate) w' ∧
        ¬Kept (sampleInstall false) sampleMachine w' := by
  have accepts := accepts_sample false
  have clear : Clear sampleMachine.tree imgDir := started_sampleMachine.recovers.clear
  constructor
  · have runs : Runs (sampleInstall false) sampleMachine (some .backup) _ :=
      ⟨_, accepts.reaches_backup.tail .fail, rfl⟩
    obtain ⟨_, _, _, _, _, kept⟩ := kept_iff_leavesNoTrace clear runs
    exact ⟨_, runs, kept.mpr trivial⟩
  · obtain ⟨w', runs, _⟩ := sampleInstall_fails false
    obtain ⟨_, _, _, _, _, kept⟩ := kept_iff_leavesNoTrace clear runs
    exact ⟨w', runs, fun same => kept.mp same accepts.exists_slot⟩

/-- A confirmed run that fails need not leave the slot as it was. -/
theorem failed_install_not_atomic : ¬∀ a w c w', a.confirm = "--write" → Runs a w (some c) w' →
    Kept a w w' := by
  intro atomic
  obtain ⟨w', runs, missing⟩ := sampleInstall_fails false
  have kept := (atomic (sampleInstall false) sampleMachine .activate w' rfl runs).1
  have top : w'.tree (slotDir .s101) = sampleMachine.tree (slotDir .s101) := congrFun kept []
  exact absurd (missing.symm.trans top) nofun

end Sample

end Initos.Upgrade
