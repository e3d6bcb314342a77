import Initos.Upgrade.Install

/-!
# The moments of an install

Up to the payload in the staging directory a run is a copy beside the slots; from there on its
tree is one of four, each a function of the tree it began with. `Moment` says what a run may have
done to the machine at any of its moments, together with the command that has failed by then.
What holds across crashes and errors is read off from it.
-/

namespace Initos.Upgrade

open Script LiveFs

/-! ## The trees of a run -/

section Trees

variable (a : Install) (fs : Fs (List UInt8))

/-- The tree once `/z/img` is there. -/
def made : Fs (List UInt8) := fun x => if x <+: imgDir ∧ x ≠ [] then some .dir else fs x

/-- The tree with the payload in the staging directory. -/
def staged : Fs (List UInt8) := graft (made fs) a.stageDir a.payload

open Classical in
/-- The tree with the slot out of the way, if there was one. -/
noncomputable def cleared : Fs (List UInt8) :=
  if Exists (staged a fs) (path (slotDir a.slot)) then
    if staged a fs (slotDir a.slot) = some .dir then
      moveTree (staged a fs) (slotDir a.slot) (previousDir a.slot)
    else Function.update (Function.update (staged a fs) (slotDir a.slot) none) (previousDir a.slot)
      (staged a fs (slotDir a.slot))
  else staged a fs

/-- The tree with the payload in the place of the slot. -/
noncomputable def activated : Fs (List UInt8) :=
  moveTree (cleared a fs) a.stageDir (slotDir a.slot)

/-- What `dd` has to write: the content of the boot image where its name leads to, which is
    nothing where it leads nowhere. -/
def IsImage (image : List UInt8) : Prop :=
  Reads (activated a fs) a.imagePath image ∨
    (∀ content, ¬Reads (activated a fs) a.imagePath content) ∧ image = []

/-- What the script has made sure of before it touches the slot. -/
structure Checked : Prop where
  complete : Complete (staged a fs) a.stageDir
  fresh : ¬Exists (staged a fs) (path (previousDir a.slot))

end Trees

section Places

variable {a : Install} {fs : Fs (List UInt8)} {s s' : Slot} {n : Name} {x q : Location}

theorem stage_apart_slot : Apart a.stageDir (slotDir s) := apart_of_ne nofun

theorem stage_apart_previous : Apart a.stageDir (previousDir s) := apart_of_ne nofun

theorem slot_apart_previous : Apart (slotDir s) (previousDir s') := by
  refine apart_of_ne ?_
  cases s <;> cases s' <;> decide

theorem slot_apart_slot (other : s ≠ s') : Apart (slotDir s) (slotDir s') := by
  refine apart_of_ne ?_
  cases s <;> cases s' <;> first | exact absurd rfl other | decide

theorem previous_apart_previous (other : s ≠ s') : Apart (previousDir s) (previousDir s') := by
  refine apart_of_ne ?_
  cases s <;> cases s' <;> first | exact absurd rfl other | decide

/-- Nothing in `/z/img` is on the way to it. -/
theorem not_above (start : imgDir ++ [n] <+: x) : ¬x <+: imgDir := by
  intro above
  have := (start.trans above).length_le
  simp [imgDir] at this

/-- What is on the way to `/z/img` is not in it. -/
theorem not_in (above : q <+: imgDir) : ¬imgDir ++ [n] <+: q := fun start => not_above start above

theorem made_of_above (above : q <+: imgDir) (nonempty : q ≠ []) : made fs q = some .dir :=
  if_pos ⟨above, nonempty⟩

theorem made_of_not_above (elsewhere : ¬x <+: imgDir) : made fs x = fs x :=
  if_neg fun both => elsewhere both.1

/-- Where the directory is there, nothing is made. -/
theorem made_of_solid (solid : Solid fs imgDir) : made fs = fs := by
  funext x
  unfold made
  split
  · next both => exact (solid x both.1 both.2).symm
  · rfl

theorem staged_of_not (outside : ¬a.stageDir <+: x) : staged a fs x = made fs x := if_neg outside

theorem solid_staged : Solid (staged a fs) imgDir := by
  intro q above nonempty
  rw [staged_of_not (not_in above), made_of_above above nonempty]

theorem staged_stage : staged a fs a.stageDir = some .dir := by
  have top : treeAt (staged a fs) a.stageDir [] = a.payload [] := congrFun treeAt_graft_self []
  rwa [treeAt_nil, a.payload_dir] at top

/-- Apart from the staging directory the slots are as they were. -/
theorem treeAt_staged (apart : Apart a.stageDir (imgDir ++ [n])) :
    treeAt (staged a fs) (imgDir ++ [n]) = treeAt fs (imgDir ++ [n]) := by
  funext x
  rw [treeAt, staged_of_not (apart.not_below x),
    made_of_not_above (not_above (List.prefix_append _ x))]
  rfl

theorem cleared_of_not (outside : ¬slotDir a.slot <+: x)
    (outside' : ¬previousDir a.slot <+: x) : cleared a fs x = staged a fs x := by
  unfold cleared
  split
  · split
    · exact moveTree_of_not outside' outside
    · have notSlot : x ≠ slotDir a.slot := fun same => outside (same ▸ List.prefix_rfl)
      have notPrevious : x ≠ previousDir a.slot := fun same => outside' (same ▸ List.prefix_rfl)
      rw [Function.update_of_ne notPrevious, Function.update_of_ne notSlot]
  · rfl

theorem cleared_of_above (above : q <+: imgDir) : cleared a fs q = staged a fs q :=
  cleared_of_not (not_in above) (not_in above)

theorem cleared_stage : cleared a fs a.stageDir = some .dir := by
  rw [cleared_of_not stage_apart_slot.2 stage_apart_previous.2, staged_stage]

/-- A slot that was there is away. -/
theorem cleared_slot (there : Exists (staged a fs) (path (slotDir a.slot))) :
    cleared a fs (slotDir a.slot) = none := by
  rw [cleared, if_pos there]
  split
  · have gone : treeAt (moveTree (staged a fs) (slotDir a.slot) (previousDir a.slot))
        (slotDir a.slot) [] = none := treeAt_moveTree_src slot_apart_previous []
    rwa [treeAt_nil] at gone
  · have other : slotDir a.slot ≠ previousDir a.slot := by
      intro same
      have apart : Apart (slotDir a.slot) (previousDir a.slot) := slot_apart_previous
      exact apart.1 (same ▸ List.prefix_rfl)
    rw [Function.update_of_ne other, Function.update_self]

theorem activated_of_not (outside : ¬slotDir a.slot <+: x) (outside' : ¬a.stageDir <+: x) :
    activated a fs x = cleared a fs x := moveTree_of_not outside outside'

theorem solid_activated : Solid (activated a fs) imgDir := by
  intro q above nonempty
  rw [activated_of_not (not_in above) (not_in above), cleared_of_above above]
  exact solid_staged q above nonempty

/-- After the renames the slot is the payload. -/
theorem treeAt_activated_slot : treeAt (activated a fs) (slotDir a.slot) = a.payload := by
  have same : treeAt (cleared a fs) a.stageDir = treeAt (staged a fs) a.stageDir := by
    funext x
    exact cleared_of_not (stage_apart_slot.symm.not_below x)
      (stage_apart_previous.symm.not_below x)
  rw [activated, treeAt_moveTree_dst, same]
  exact treeAt_graft_self

/-- Whatever then happens to the staging directory and the backup. -/
theorem treeAt_slot_of_activated {fs' : Fs (List UInt8)}
    (tree : ∀ x, ¬a.stageDir <+: x → ¬previousDir a.slot <+: x → fs' x = activated a fs x) :
    treeAt fs' (slotDir a.slot) = a.payload := by
  rw [← treeAt_activated_slot]
  funext x
  exact tree _ (stage_apart_slot.not_below x) (slot_apart_previous.symm.not_below x)

/-- `dd` reads one image. -/
theorem IsImage.unique {image image' : List UInt8} (isImage : IsImage a fs image)
    (reads : Reads (activated a fs) a.imagePath image') : image' = image := by
  rcases isImage with ⟨l, verity, walk, holds⟩ | ⟨unreadable, -⟩
  · obtain ⟨l', verity', walk', holds'⟩ := reads
    rw [Walk.unique walk walk', holds] at holds'
    simp_all
  · exact absurd reads (unreadable image')

theorem exists_isImage (a : Install) (fs : Fs (List UInt8)) : ∃ image, IsImage a fs image := by
  by_cases readable : ∃ content, Reads (activated a fs) a.imagePath content
  · obtain ⟨content, reads⟩ := readable
    exact ⟨content, .inl reads⟩
  · exact ⟨[], .inr ⟨fun content reads => readable ⟨content, reads⟩, rfl⟩⟩

end Places

/-! ## Moments -/

/-- The commands up to the first rename. -/
def Command.BeforeActivation : Command → Prop
  | .enterRelease | .abort _ | .sha256sum | .installDir | .mktemp | .tar | .missingObjects
  | .backup => True
  | _ => False

/-- The tree and the partitions at a moment of a run that began in `w₀`; of the staging directory
    nothing is said. -/
inductive Moment (a : Install) (w₀ : Machine) : Option Command → Machine → Prop where
  | before {failed w} : (∀ c ∈ failed, c.BeforeActivation) →
      (∀ x, ¬a.stageDir <+: x → w.tree x = w₀.tree x ∨ w.tree x = made w₀.tree x) →
      w.partition = w₀.partition → Moment a w₀ failed w
  | moved {failed w} : (∀ c ∈ failed, c = .activate) → Checked a w₀.tree →
      SameBut a.stageDir (cleared a w₀.tree) w.tree → w.partition = w₀.partition →
      Moment a w₀ failed w
  /-- `written` bytes of the image are on the partition. -/
  | activated {failed w} (image : List UInt8) (written : Nat) :
      (∀ c ∈ failed, c = .syncSlot ∧ written = 0 ∨ c = .dd ∨
        c = .syncPartition ∧ written = image.length) →
      Checked a w₀.tree → IsImage a w₀.tree image →
      SameBut a.stageDir (activated a w₀.tree) w.tree →
      w.partition = Function.update w₀.partition a.partition
        (overlay (w₀.partition a.partition) (image.take written)) → Moment a w₀ failed w
  | pruned {failed w} (image : List UInt8) : (∀ c ∈ failed, c = .removePrevious) →
      Checked a w₀.tree → IsImage a w₀.tree image →
      (∀ x, ¬a.stageDir <+: x → ¬previousDir a.slot <+: x →
        w.tree x = Upgrade.activated a w₀.tree x) →
      w.partition = Function.update w₀.partition a.partition
        (overlay (w₀.partition a.partition) image) → Moment a w₀ failed w

section Moments

variable {a : Install} {w₀ w w' : Machine} {failed : Option Command} {x q : Location}

/-- On the way to `/z/img` directories are made, and nothing else happens. -/
theorem Moment.above (moment : Moment a w₀ failed w) (above : q <+: imgDir) :
    w.tree q = w₀.tree q ∨ w.tree q = made w₀.tree q := by
  cases moment with
  | before _ tree => exact tree q (not_in above)
  | moved _ _ tree =>
    rw [tree q (not_in above), cleared_of_above above, staged_of_not (not_in above)]
    exact .inr rfl
  | activated _ _ _ _ _ tree =>
    rw [tree q (not_in above), activated_of_not (not_in above) (not_in above),
      cleared_of_above above, staged_of_not (not_in above)]
    exact .inr rfl
  | pruned _ _ _ _ tree =>
    rw [tree q (not_in above) (not_in above), activated_of_not (not_in above) (not_in above),
      cleared_of_above above, staged_of_not (not_in above)]
    exact .inr rfl

/-- Beside the directories of the slot nothing changes. -/
theorem Moment.elsewhere (moment : Moment a w₀ failed w) (notAbove : ¬x <+: imgDir)
    (notSlot : ¬slotDir a.slot <+: x) (notPrevious : ¬previousDir a.slot <+: x)
    (notStage : ¬a.stageDir <+: x) : w.tree x = w₀.tree x := by
  have rest : Upgrade.activated a w₀.tree x = w₀.tree x := by
    rw [activated_of_not notSlot notStage, cleared_of_not notSlot notPrevious,
      staged_of_not notStage, made_of_not_above notAbove]
  cases moment with
  | before _ tree =>
    rcases tree x notStage with same | same
    · exact same
    · rw [same, made_of_not_above notAbove]
  | moved _ _ tree =>
    rw [tree x notStage, cleared_of_not notSlot notPrevious, staged_of_not notStage,
      made_of_not_above notAbove]
  | activated _ _ _ _ _ tree => rw [tree x notStage, rest]
  | pruned _ _ _ _ tree => rw [tree x notStage notPrevious, rest]

theorem clear_of_made {fs fs₀ : Fs (List UInt8)} (clear : Clear fs₀ imgDir)
    (same : ∀ q, q <+: imgDir → fs q = fs₀ q ∨ fs q = made fs₀ q) : Clear fs imgDir := by
  intro q above
  rcases same q above with same | same
  · rw [same]
    exact clear q above
  · rw [same]
    unfold made
    split
    · exact id
    · exact clear q above

/-- No moment puts a link in place of `/z/img`. -/
theorem Moment.clear (moment : Moment a w₀ failed w) (clear : Clear w₀.tree imgDir) :
    Clear w.tree imgDir := clear_of_made clear fun _ => moment.above

/-- With the payload staged, nothing has been activated. -/
theorem Moment.of_staged (early : ∀ c ∈ failed, c.BeforeActivation)
    (tree : w.tree = staged a w₀.tree) (partitions : w.partition = w₀.partition) :
    Moment a w₀ failed w :=
  .before early (fun x outside => .inr ((congrFun tree x).trans (staged_of_not outside))) partitions

/-- What happens in the staging directory is nothing to a moment. -/
theorem Moment.of_sameBut (moment : Moment a w₀ failed w)
    (same : SameBut a.stageDir w.tree w'.tree) (partitions : w'.partition = w.partition) :
    Moment a w₀ failed w' := by
  cases moment with
  | before early tree kept =>
    refine .before early (fun x outside => ?_) (partitions.trans kept)
    rw [same x outside]
    exact tree x outside
  | moved at_ checked tree kept =>
    exact .moved at_ checked (tree.trans same) (partitions.trans kept)
  | activated image written at_ checked isImage tree kept =>
    exact .activated image written at_ checked isImage (tree.trans same) (partitions.trans kept)
  | pruned image at_ checked isImage tree kept =>
    refine .pruned image at_ checked isImage (fun x outside outside' => ?_)
      (partitions.trans kept)
    rw [same x outside, tree x outside outside']

/-- `rm -rf` of an entry of `/z/img` removes that entry only. -/
theorem sameBut_of_prunes {fs fs' : Fs (List UInt8)} {n : Name} (clear : Clear fs imgDir)
    (pruned : Prunes (path (imgDir ++ [n])) fs fs') : SameBut (imgDir ++ [n]) fs fs' := by
  obtain ⟨l, x, place, start, -, rfl⟩ := pruned
  obtain rfl := Place.eq_of_firm clear.firm place
  exact sameBut_update start

/-- The trap only removes the staging directory. -/
theorem trapKeeps_removeStage (clear : Clear w₀.tree imgDir) :
    TrapKeeps (effects a) (Moment a w₀) [.removeStage] := by
  intro c member failed w w' moment ran
  obtain rfl : c = .removeStage := List.mem_singleton.mp member
  rcases ran with ⟨fs, pruned, rfl⟩ | ⟨-, rfl⟩
  · exact moment.of_sameBut (sameBut_of_prunes (moment.clear clear) pruned) rfl
  · exact moment

theorem trapKeeps_nil {I : Option Command → Machine → Prop} : TrapKeeps (effects a) I [] :=
  fun _ member => absurd member List.not_mem_nil

/-! ## Line by line -/

/-- A command with no effect on the machine. -/
theorem safe_idle {c : Command} {rest : List (Line Command Check)} {trap : List Command}
    (keeps : TrapKeeps (effects a) (Moment a w₀) trap) (atomic : ∀ x y, ¬part a c x y)
    (idle : ∀ x y, whole a c x y → y = x) (now : Moment a w₀ none w)
    (fails : Moment a w₀ (some c) w)
    (next : Safe (effects a) (Moment a w₀) ⟨rest, trap, none⟩ w) :
    Safe (effects a) (Moment a w₀) ⟨.run c :: rest, trap, none⟩ w := by
  refine .run_atomic keeps atomic now fails fun y done => ?_
  obtain rfl := idle w y done
  exact next

/-- An `exit 1` ends in the trap. -/
theorem safe_abort {message : String} {rest : List (Line Command Check)} {trap : List Command}
    (keeps : TrapKeeps (effects a) (Moment a w₀) trap) (now : Moment a w₀ none w)
    (fails : Moment a w₀ (some (.abort message)) w) :
    Safe (effects a) (Moment a w₀) ⟨.run (.abort message) :: rest, trap, none⟩ w :=
  .run_atomic keeps (fun _ _ => id) now fails fun _ done => done.elim

/-- A check that may fail. -/
theorem safe_require {t : Check} {message : String} {rest : List (Line Command Check)}
    {trap : List Command} (keeps : TrapKeeps (effects a) (Moment a w₀) trap)
    (now : Moment a w₀ none w) (fails : Moment a w₀ (some (.abort message)) w)
    (next : test a t w → Safe (effects a) (Moment a w₀) ⟨rest, trap, none⟩ w) :
    Safe (effects a) (Moment a w₀) ⟨require t message :: rest, trap, none⟩ w :=
  .cond now next fun _ => safe_abort keeps now fails

/-- The removal of the backup. -/
theorem safe_prune (clear : Clear w₀.tree imgDir) (checked : Checked a w₀.tree)
    {image : List UInt8} (isImage : IsImage a w₀.tree image)
    (tree : w.tree = Upgrade.activated a w₀.tree)
    (partitions : w.partition = Function.update w₀.partition a.partition
      (overlay (w₀.partition a.partition) image)) :
    Safe (effects a) (Moment a w₀) ⟨[.run .removePrevious, .trap []], [.removeStage], none⟩ w := by
  let P (x : Machine) : Prop := SameBut (previousDir a.slot) (Upgrade.activated a w₀.tree) x.tree ∧
    x.partition = Function.update w₀.partition a.partition
      (overlay (w₀.partition a.partition) image)
  have moment : ∀ {failed x}, (∀ c ∈ failed, c = .removePrevious) → P x → Moment a w₀ failed x :=
    fun at_ holds => .pruned image at_ checked isImage (fun y _ outside => holds.1 y outside)
      holds.2
  refine .run_parts P (trapKeeps_removeStage clear) ⟨fun y _ => congrFun tree y, partitions⟩ ?_
    (fun x holds => moment (by simp) holds) (fun x holds => moment (by simp) holds) ?_
  · rintro x y holds ⟨fs, pruned, rfl⟩
    have now : Moment a w₀ none x := moment (by simp) holds
    exact ⟨holds.1.trans (sameBut_of_prunes (now.clear clear) pruned), holds.2⟩
  · rintro x y holds ⟨-, rfl⟩
    have now : Moment a w₀ none y := moment (by simp) holds
    exact .setTrap now (.exit now fun trapped => absurd rfl trapped)

/-- From the first write to the partition on. -/
theorem safe_write (clear : Clear w₀.tree imgDir) (checked : Checked a w₀.tree)
    (tree : w.tree = Upgrade.activated a w₀.tree) (partitions : w.partition = w₀.partition) :
    Safe (effects a) (Moment a w₀)
      ⟨[.run .dd, .run .syncPartition, .run .removePrevious, .trap []],
        [.removeStage], none⟩ w := by
  obtain ⟨image, isImage⟩ := exists_isImage a w₀.tree
  -- while `dd` runs, some start of the image is on the partition
  let P (x : Machine) : Prop := x.tree = Upgrade.activated a w₀.tree ∧ ∃ written,
    x.partition = Function.update w₀.partition a.partition
      (overlay (w₀.partition a.partition) (image.take written))
  have moment : ∀ {failed x}, (∀ c ∈ failed, c = .dd) → P x → Moment a w₀ failed x := by
    rintro failed x at_ ⟨tree, written, partitions⟩
    exact .activated image written (fun c member => .inr (.inl (at_ c member))) checked isImage
      (fun y _ => congrFun tree y) partitions
  refine .run_parts P (trapKeeps_removeStage clear) ⟨tree, 0, ?_⟩ ?_
    (fun x holds => moment (by simp) holds) (fun x holds => moment (by simp) holds) ?_
  · rw [List.take_zero, overlay_nil, Function.update_eq_self, partitions]
  · rintro x y ⟨tree, j, partitions⟩ ⟨image', k, reads, -, rfl⟩
    obtain rfl := isImage.unique (tree ▸ reads)
    refine ⟨tree, max j k, ?_⟩
    simp [Machine.withPartition, partitions, overlay_overlay_take]
  rintro x y ⟨tree, j, partitions⟩ ⟨image', reads, -, rfl⟩
  obtain rfl := isImage.unique (tree ▸ reads)
  have full : (x.withPartition a (overlay (x.partition a.partition) image')).partition =
      Function.update w₀.partition a.partition (overlay (w₀.partition a.partition) image') := by
    have := overlay_overlay_take (w₀.partition a.partition) image' j image'.length
    rw [List.take_length, List.take_of_length_le (Nat.le_max_right j _)] at this
    simp [Machine.withPartition, partitions, this]
  have done : ∀ {failed : Option Command}, (∀ c ∈ failed, c = .syncPartition) →
      Moment a w₀ failed (x.withPartition a (overlay (x.partition a.partition) image')) := by
    intro failed at_
    refine .activated image' image'.length (fun c member => .inr (.inr ⟨at_ c member, rfl⟩))
      checked isImage (fun y _ => congrFun tree y) ?_
    rw [List.take_length]
    exact full
  refine safe_idle (trapKeeps_removeStage clear) (fun _ _ => id) (fun _ _ => id) (done (by simp))
    (done (by simp)) ?_
  exact safe_prune clear checked isImage tree full

/-- From the rename of the staging directory on. -/
theorem safe_activate (clear : Clear w₀.tree imgDir) (checked : Checked a w₀.tree)
    (tree : w.tree = cleared a w₀.tree) (partitions : w.partition = w₀.partition) :
    Safe (effects a) (Moment a w₀) ⟨(activation a).drop 2, [.removeStage], none⟩ w := by
  have moved : ∀ {failed : Option Command}, (∀ c ∈ failed, c = .activate) → Moment a w₀ failed w :=
    fun at_ => .moved at_ checked (fun x _ => congrFun tree x) partitions
  have now : Moment a w₀ none w := moved (by simp)
  refine .run_atomic (trapKeeps_removeStage clear) (fun _ _ => id) now (moved (by simp)) ?_
  rintro y ⟨fs, ⟨l, l', node, place, found, place', done⟩, rfl⟩
  obtain rfl := Place.eq_of_firm (now.clear clear).firm place
  obtain rfl := Place.eq_of_firm (now.clear clear).firm place'
  have isDir : node = .dir := by
    have stage : cleared a w₀.tree a.stageDir = some .dir := cleared_stage
    rw [← tree] at stage
    exact Option.some_inj.mp (found.symm.trans stage)
  obtain ⟨other, -⟩ | ⟨-, -, -, -, rfl⟩ := done
  · exact absurd isDir other
  have tree : moveTree w.tree a.stageDir (slotDir a.slot) = Upgrade.activated a w₀.tree := by
    rw [tree]
    rfl
  have done : ∀ {failed : Option Command}, (∀ c ∈ failed, c = .syncSlot) → Moment a w₀ failed
      { w with tree := moveTree w.tree a.stageDir (slotDir a.slot) } := by
    intro failed at_
    obtain ⟨image, isImage⟩ := exists_isImage a w₀.tree
    refine .activated image 0 (fun c member => .inl ⟨at_ c member, rfl⟩) checked isImage
      (fun x _ => congrFun tree x) ?_
    rw [List.take_zero, overlay_nil, Function.update_eq_self]
    exact partitions
  refine safe_idle (trapKeeps_removeStage clear) (fun _ _ => id) (fun _ _ => id) (done (by simp))
    (done (by simp)) ?_
  exact safe_write clear checked tree partitions

/-- From the test for a backup on. -/
theorem safe_activation (clear : Clear w₀.tree imgDir) (complete : Complete w.tree a.stageDir)
    (tree : w.tree = staged a w₀.tree) (partitions : w.partition = w₀.partition) :
    Safe (effects a) (Moment a w₀) ⟨activation a, [.removeStage], none⟩ w := by
  have before : ∀ {failed : Option Command}, (∀ c ∈ failed, c.BeforeActivation) →
      Moment a w₀ failed w := fun early => .of_staged early tree partitions
  have now : Moment a w₀ none w := before (by simp)
  refine .cond now (fun _ => safe_abort (trapKeeps_removeStage clear) now (before ?_))
    fun absent => ?_
  · simp [Command.BeforeActivation]
  have checked : Checked a w₀.tree := by
    refine ⟨tree ▸ complete, ?_⟩
    rw [← tree]
    exact absent
  refine .cond now (fun there => ?_) fun missing => ?_
  · refine .run_atomic (trapKeeps_removeStage clear) (fun _ _ => id) now
      (before (by simp [Command.BeforeActivation])) ?_
    rintro y ⟨fs, ⟨l, l', node, place, found, place', done⟩, rfl⟩
    obtain rfl := Place.eq_of_firm (now.clear clear).firm place
    obtain rfl := Place.eq_of_firm (now.clear clear).firm place'
    have there : Exists (staged a w₀.tree) (path (slotDir a.slot)) := tree ▸ there
    have found : staged a w₀.tree (slotDir a.slot) = some node := tree ▸ found
    refine safe_activate clear checked ?_ partitions
    rw [cleared, if_pos there]
    rcases done with ⟨other, -, rfl⟩ | ⟨rfl, -, -, -, rfl⟩
    · have notDir : staged a w₀.tree (slotDir a.slot) ≠ some .dir := by
        rw [found]
        exact fun same => other (Option.some_inj.mp same)
      rw [if_neg notDir, found, tree]
      rfl
    · rw [if_pos found, tree]
      rfl
  · have missing : ¬Exists (staged a w₀.tree) (path (slotDir a.slot)) := tree ▸ missing
    refine safe_activate clear checked ?_ partitions
    rw [cleared, if_neg missing, tree]

/-- Where `/z/img` is a directory, the tree is as if it had been made. -/
theorem eq_made {fs fs₀ : Fs (List UInt8)} (solid : Solid fs imgDir)
    (same : ∀ x, fs x = fs₀ x ∨ fs x = made fs₀ x) : fs = made fs₀ := by
  funext x
  by_cases above : x <+: imgDir ∧ x ≠ []
  · rw [solid x above.1 above.2, made_of_above above.1 above.2]
  · rcases same x with same | same
    · rw [same, made, if_neg above]
    · exact same

/-- The directories that `install -d` makes. -/
theorem made_of_makesDir {fs fs' fs₀ : Fs (List UInt8)} (clear : Clear fs imgDir)
    (same : ∀ x, fs x = fs₀ x ∨ fs x = made fs₀ x) (makes : MakesDir (path imgDir) fs fs')
    (x : Location) : fs' x = fs₀ x ∨ fs' x = made fs₀ x := by
  have firm : ∀ q n, q ++ [n] <+: imgDir → Firm fs q := fun q n start =>
    (clear.mono ((List.prefix_append q [n]).trans start)).firm
  obtain ⟨q, n, above, -, rfl⟩ := makes.inv firm
  by_cases here : x = q ++ [n]
  · rw [here, Function.update_self, made_of_above above (by simp)]
    exact .inr rfl
  · rw [Function.update_of_ne here]
    exact same x

/-- From the payload in the staging directory on. -/
theorem safe_checks (clear : Clear w₀.tree imgDir) (tree : w.tree = staged a w₀.tree)
    (partitions : w.partition = w₀.partition) :
    Safe (effects a) (Moment a w₀) ⟨staging.drop 5 ++ activation a, [.removeStage], none⟩ w := by
  have before : ∀ {failed : Option Command}, (∀ c ∈ failed, c.BeforeActivation) →
      Moment a w₀ failed w := fun early => .of_staged early tree partitions
  have now : Moment a w₀ none w := before (by simp)
  have refused : ∀ message, Moment a w₀ (some (.abort message)) w := fun message =>
    before (by simp [Command.BeforeActivation])
  refine safe_require (trapKeeps_removeStage clear) now (refused _) fun complete => ?_
  refine safe_require (trapKeeps_removeStage clear) now (refused _) fun _ => ?_
  refine safe_require (trapKeeps_removeStage clear) now (refused _) fun _ => ?_
  refine safe_idle (trapKeeps_removeStage clear) (fun _ _ => id) (fun _ _ => id) now
    (before (by simp [Command.BeforeActivation])) ?_
  exact safe_activation clear complete tree partitions

/-- From the staging directory on, which is empty at first. -/
theorem safe_unpack (clear : Clear w₀.tree imgDir)
    (same : SameBut a.stageDir (made w₀.tree) w.tree) (isDir : w.tree a.stageDir = some .dir)
    (partitions : w.partition = w₀.partition) :
    Safe (effects a) (Moment a w₀) ⟨staging.drop 4 ++ activation a, [.removeStage], none⟩ w := by
  let P (x : Machine) : Prop := SameBut a.stageDir (made w₀.tree) x.tree ∧
    x.tree a.stageDir = some .dir ∧ x.partition = w₀.partition
  have moment : ∀ {failed x}, (∀ c ∈ failed, c = .tar) → P x → Moment a w₀ failed x := by
    intro failed x at_ holds
    refine .before (fun c member => ?_) (fun y outside => .inr (holds.1 y outside)) holds.2.2
    rw [at_ c member]
    trivial
  have leads : ∀ {x l}, P x → Walk x.tree [] (path a.stageDir) l → l = a.stageDir := by
    intro x l holds walk
    have now : Moment a w₀ none x := moment (by simp) holds
    refine Walk.eq_of_clear ((now.clear clear).concat ?_) walk
    rw [show imgDir ++ [_] = a.stageDir from rfl, holds.2.1]
    exact id
  refine .run_parts P (trapKeeps_removeStage clear) ⟨same, isDir, partitions⟩ ?_
    (fun x holds => moment (by simp) holds) (fun x holds => moment (by simp) holds) ?_
  · rintro x y holds ⟨fs, ⟨l, walk, outside, top⟩, rfl⟩
    obtain rfl := leads holds walk
    refine ⟨holds.1.trans outside, ?_, holds.2.2⟩
    exact top.elim (fun same => same.trans holds.2.1) id
  · rintro x y holds ⟨fs, ⟨l, walk, rfl⟩, rfl⟩
    obtain rfl := leads holds walk
    exact safe_checks clear holds.1.graft_eq holds.2.2

/-- While the payload is staged and checked neither slots nor partitions change. -/
theorem safe_staging (clear : Clear w₀.tree imgDir) :
    Safe (effects a) (Moment a w₀) ⟨staging ++ activation a, [], none⟩ w₀ := by
  let P (x : Machine) : Prop := (∀ y, x.tree y = w₀.tree y ∨ x.tree y = made w₀.tree y) ∧
    x.partition = w₀.partition
  have moment : ∀ {failed x}, (∀ c ∈ failed, c.BeforeActivation) → P x → Moment a w₀ failed x :=
    fun early holds => .before early (fun y _ => holds.1 y) holds.2
  have start : P w₀ := ⟨fun y => .inl rfl, rfl⟩
  refine safe_idle trapKeeps_nil (fun _ _ => id) (fun _ _ => id) (moment (by simp) start)
    (moment (by simp [Command.BeforeActivation]) start) ?_
  refine .run_parts P trapKeeps_nil start ?_ (fun x holds => moment (by simp) holds)
    (fun x holds => moment (by simp [Command.BeforeActivation]) holds) ?_
  · rintro x y holds ⟨fs, makes, rfl⟩
    exact ⟨made_of_makesDir (clear_of_made clear fun q _ => holds.1 q) holds.1 makes, holds.2⟩
  rintro _ w holds ⟨isDir, rfl⟩
  have clear' : Clear w.tree imgDir := clear_of_made clear fun q _ => holds.1 q
  have tree : w.tree = made w₀.tree := eq_made (clear'.solid isDir) holds.1
  refine .run_atomic trapKeeps_nil (fun _ _ => id) (moment (by simp) holds)
    (moment (by simp [Command.BeforeActivation]) holds) ?_
  rintro y ⟨fs, ⟨l, place, -, rfl⟩, rfl⟩
  obtain rfl := Place.eq_of_firm clear'.firm place
  have same : SameBut a.stageDir (made w₀.tree)
      (Function.update w.tree a.stageDir (some .dir)) := tree ▸ sameBut_update List.prefix_rfl
  refine .setTrap (.before (by simp) (fun x outside => .inr (same x outside)) holds.2) ?_
  exact safe_unpack clear same (Function.update_self ..) holds.2

/-- Every moment of a run is one of the list. -/
theorem safe_installSlot (clear : Clear w₀.tree imgDir) :
    Safe (effects a) (Moment a w₀) (start (installSlot a)) w₀ := by
  have at_start : ∀ {failed : Option Command}, (∀ c ∈ failed, c.BeforeActivation) →
      Moment a w₀ failed w₀ := fun early => .before early (fun _ _ => .inl rfl) rfl
  have now : Moment a w₀ none w₀ := at_start (by simp)
  have refused : ∀ message, Moment a w₀ (some (.abort message)) w₀ := fun message =>
    at_start (by simp [Command.BeforeActivation])
  refine safe_idle trapKeeps_nil (fun _ _ => id) (fun _ _ => id) now
    (at_start (by simp [Command.BeforeActivation])) ?_
  refine safe_require trapKeeps_nil now (refused _) fun _ => ?_
  refine safe_require trapKeeps_nil now (refused _) fun _ => ?_
  refine safe_require trapKeeps_nil now (refused _) fun _ => ?_
  refine safe_require trapKeeps_nil now (refused _) fun _ => ?_
  exact safe_staging clear

/-- Every moment of a run, where neither `/z` nor `/z/img` is a link. -/
theorem Runs.moment (runs : Runs a w failed w') (clear : Clear w.tree imgDir) :
    Moment a w failed w' := by
  obtain ⟨p, reaches, rfl⟩ := runs
  exact (safe_installSlot clear).reaches reaches

end Moments

end Initos.Upgrade
