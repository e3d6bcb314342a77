import Initos.Firmware.Scripts

/-!
# The firmware store that the slots share

Runs of `firmware_fetch` and `import_oci` side by side, each of which may fail or be killed at any
moment. `Orderly` says what may stand where; `Promises` is what a step of one process may do, and
`Relies` what it expects of the others.
-/

namespace Initos.Firmware

open LiveFs Script
open Upgrade (Slot)

variable {α : Type} {V : Content α} {fs fs' fs'' : Fs α} {l : Location} {n : Nat}

/-- Every object in the store is sealed and has the digest that its path says. -/
def Sound (V : Content α) (fs : Fs α) : Prop :=
  ∀ a b content verity, fs (objectAt a b) = some (.file content verity) →
    verity = true ∧ V.digest content = a ++ b

/-- Every object is still there, with its content. -/
def Appends (fs fs' : Fs α) : Prop :=
  ∀ a b content verity, fs (objectAt a b) = some (.file content verity) →
    fs' (objectAt a b) = some (.file content verity)

section Paths

theorem length_stripped_le (s : String) : (stripped s).length ≤ s.length := by
  have shorter := (List.dropWhile_sublist (· = '\n') (l := s.toList.reverse)).length_le
  simpa [stripped, String.length_ofList, String.length_toList] using shorter

/-- A command substitution changes the last name of a path only, and makes it shorter. -/
theorem prefix_substituted {q : Location} {x : Name} (start : q ++ [x] <+: substituted l) :
    q ++ [x] <+: l ∨
      ∃ s kept : String, l = q ++ [.text s] ∧ x = .text kept ∧ kept.length ≤ s.length := by
  unfold substituted at start
  split at start
  · rename_i s last
    obtain ⟨front, rfl⟩ := List.getLast?_eq_some_iff.mp last
    rw [List.dropLast_concat] at start
    split at start
    · exact .inl (start.trans (List.prefix_append _ _))
    · rcases List.prefix_concat_iff.mp start with same | before
      · obtain ⟨rfl, rfl⟩ : q = front ∧ x = .text (stripped s) := by simpa using same
        exact .inr ⟨s, stripped s, rfl, rfl, length_stripped_le s⟩
      · exact .inl (before.trans (List.prefix_append _ _))
  · exact .inl start

/-- An object is found again by its digest. -/
theorem objectDir_append_objectName (digest : String) :
    objectDir digest ++ objectName digest = digest := by
  rw [objectDir, objectName, ← String.ofList_append, List.take_append_drop, String.ofList_toList]

theorem length_objectDir (digest : String) : (objectDir digest).length ≤ 2 := by
  rw [objectDir, String.length_ofList, List.length_take]
  exact Nat.min_le_left ..

theorem objectDir_ne (digest : String) : objectDir digest ≠ "objects" := by
  intro same
  have short := length_objectDir digest
  rw [same] at short
  exact absurd short (by decide)

end Paths

section Order

/-- The places that the scripts walk through. -/
def Fixed (l : Location) : Prop :=
  l <+: objects ∨ l <+: repo ∨
    ∃ slot s, l <+: revisions slot ++ [.text s] ∨ l <+: trees slot ++ [.text s]

/-- What may stand at a place. -/
structure Fits (V : Content α) (l : Location) (node : Node α) : Prop where
  fixed : Fixed l → ∀ target, node ≠ .link target
  /-- The link is made when two runs race to link `firmware-objects/objects`. -/
  shelf : ∀ s, l = objects ++ [.text s] →
    (∀ target, node = .link target → s = "objects") ∧ (node = .dir → s.length < 64)
  object : ∀ a b, l = objectAt a b →
    ∃ content, node = .file content true ∧ V.digest content = a ++ b
  shared : ∀ slot, l = destination slot ++ [.text "objects"] →
    ∀ target, node = .link target → target = casTarget

/-- Every node fits where it is. -/
def Orderly (V : Content α) (fs : Fs α) : Prop := ∀ l node, fs l = some node → Fits V l node

/-- An orderly tree has a sound store. -/
theorem Orderly.sound (orderly : Orderly V fs) : Sound V fs := by
  intro a b content verity found
  obtain ⟨content', same, digest⟩ := (orderly _ _ found).object a b rfl
  obtain ⟨rfl, rfl⟩ : content = content' ∧ verity = true := by simpa using same
  exact ⟨rfl, digest⟩

theorem Fixed.mono {l' : Location} (fixed : Fixed l') (start : l <+: l') : Fixed l := by
  rcases fixed with store | git | ⟨slot, s, revised | tree⟩
  · exact .inl (start.trans store)
  · exact .inr (.inl (start.trans git))
  · exact .inr (.inr ⟨slot, s, .inl (start.trans revised)⟩)
  · exact .inr (.inr ⟨slot, s, .inr (start.trans tree)⟩)

theorem fixed_destination (slot : Slot) : Fixed (destination slot) :=
  .inr (.inr ⟨slot, "", .inl ((List.prefix_append _ _).trans (List.prefix_append _ _))⟩)

theorem fixed_revisions (slot : Slot) (s : String) : Fixed (revisions slot ++ [.text s]) :=
  .inr (.inr ⟨slot, s, .inl List.prefix_rfl⟩)

theorem fixed_trees (slot : Slot) (s : String) : Fixed (trees slot ++ [.text s]) :=
  .inr (.inr ⟨slot, s, .inr List.prefix_rfl⟩)

theorem fixed_objects : Fixed objects := .inl List.prefix_rfl

theorem fixed_repo : Fixed repo := .inr (.inl List.prefix_rfl)

/-- No link is in the way of a fixed place. -/
theorem Orderly.clear (orderly : Orderly V fs) (fixed : Fixed l) : Clear fs l := by
  intro q start
  refine not_isLink_of_eq fun target link => ?_
  exact (orderly q _ link).fixed (fixed.mono start) target rfl

theorem Orderly.clear_shelf (orderly : Orderly V fs) {s : String} (other : s ≠ "objects") :
    Clear fs (objects ++ [.text s]) := by
  refine (orderly.clear (.inl List.prefix_rfl)).concat (not_isLink_of_eq fun target link => ?_)
  exact other (((orderly _ _ link).shelf s rfl).1 target rfl)

/-- Nor in the way of an object. -/
theorem Orderly.clear_object (orderly : Orderly V fs) {a b : String} (other : a ≠ "objects") :
    Clear fs (objectAt a b) := by
  have front : objectAt a b = objects ++ [.text a] ++ [.text b] := rfl
  rw [front]
  refine (orderly.clear_shelf other).concat (not_isLink_of_eq fun target link => ?_)
  obtain ⟨_, same, _⟩ := (orderly _ _ link).object a b front.symm
  exact absurd same nofun

/-- An object is no directory. -/
theorem Orderly.object_ne_dir (orderly : Orderly V fs) (a b : String) :
    fs (objectAt a b) ≠ some .dir := by
  intro isDir
  obtain ⟨_, same, _⟩ := (orderly _ _ isDir).object a b rfl
  exact absurd same nofun

@[simp]
theorem owner_destination (slot : Slot) : owner (destination slot) = none := rfl

@[simp]
theorem owner_composefs : owner composefs = none := rfl

theorem Fixed.owner (fixed : Fixed l) : owner l = none := by
  rcases fixed with store | git | ⟨slot, s, revised | tree⟩
  · exact owner_of_prefix store rfl
  · exact owner_of_prefix git rfl
  · exact owner_of_prefix revised rfl
  · exact owner_of_prefix tree rfl

/-- Anything fits into a temporary directory. -/
theorem Fits.of_owner (owned : owner l = some n) (node : Node α) : Fits V l node := by
  have other : ∀ l', owner l' = none → l ≠ l' := by
    intro l' unowned same
    rw [same, unowned] at owned
    exact absurd owned nofun
  refine ⟨fun fixed => ?_, fun s same => ?_, fun a b same => ?_, fun slot same => ?_⟩
  · exact absurd rfl (other l fixed.owner)
  · exact absurd same (other _ rfl)
  · exact absurd same (other _ rfl)
  · exact absurd same (other _ rfl)

theorem not_fixed_store (x : Name) (rest : Location) : ¬Fixed (objects ++ x :: rest) := by
  intro fixed
  rcases fixed with store | git | ⟨slot, s, revised | tree⟩
  · simp [objects, composefs, img] at store
  · simp [objects, composefs, img, repo, Firmware.git] at git
  · cases slot <;> simp [objects, composefs, img, revisions, destination, Slot.text] at revised
  · cases slot <;> simp [objects, composefs, img, trees, destination, Slot.text] at tree

/-- A place that is none of those the scripts rely on. -/
def Free (l : Location) : Prop :=
  ¬Fixed l ∧ ¬objects <+: l ∧ ∀ slot, l ≠ destination slot ++ [.text "objects"]

/-- Anything fits into a place that nothing is said about. -/
theorem Fits.of_free (free : Free l) (node : Node α) : Fits V l node := by
  obtain ⟨notFixed, outside, other⟩ := free
  refine ⟨fun fixed => absurd fixed notFixed, fun s same => ?_, fun a b same => ?_,
    fun slot same => ?_⟩
  · exact absurd (same ▸ List.prefix_append _ _) outside
  · exact absurd (same ▸ List.prefix_append _ _) outside
  · exact absurd same (other slot)

theorem free_destination {slot : Slot} {s : String} {rest : Location}
    (other : s ≠ "revisions" ∧ s ≠ "trees") (below : s = "objects" → rest ≠ []) :
    Free (destination slot ++ .text s :: rest) := by
  refine ⟨fun fixed => ?_, ?_, fun slot' same => ?_⟩
  · rcases fixed with store | git | ⟨slot', s, revised | tree⟩
    · cases slot <;> simp [objects, composefs, img, destination, Slot.text] at store
    · cases slot <;> simp [repo, Firmware.git, img, destination, Slot.text] at git
    · simp [revisions, destination, img, other] at revised
    · simp [trees, destination, img, other] at tree
  · cases slot <;> simp [objects, composefs, img, destination, Slot.text]
  · obtain ⟨_, rfl, rfl⟩ : _ ∧ s = "objects" ∧ rest = [] := by
      simpa [destination, img] using same
    exact below rfl rfl

theorem free_repo (x : Name) (rest : Location) : Free (repo ++ x :: rest) := by
  refine ⟨fun fixed => ?_, ?_, fun slot' => ?_⟩
  · rcases fixed with store | git | ⟨slot', s, revised | tree⟩
    · simp [objects, composefs, img, repo, git] at store
    · simp [repo, img, Firmware.git] at git
    · cases slot' <;> simp [revisions, destination, img, repo, git, Slot.text] at revised
    · cases slot' <;> simp [trees, destination, img, repo, git, Slot.text] at tree
  · simp [objects, composefs, img, repo, git]
  · cases slot' <;> simp [destination, img, repo, git, Slot.text]

theorem free_tree (slot : Slot) (s : String) (x : Name) (rest : Location) :
    Free (trees slot ++ .text s :: x :: rest) := by
  refine ⟨fun fixed => ?_, ?_, fun slot' => ?_⟩
  · rcases fixed with store | git | ⟨slot', s, revised | tree⟩
    · cases slot <;> simp [objects, composefs, img, destination, trees, Slot.text] at store
    · cases slot <;> simp [repo, Firmware.git, img, destination, trees, Slot.text] at git
    · simp [revisions, destination, img, trees] at revised
    · simp [trees, destination, img] at tree
  · cases slot <;> simp [objects, composefs, img, destination, trees, Slot.text]
  · simp [destination, img, trees]

/-- Anything but a link fits into a fixed place. -/
theorem Fits.of_fixed (fixed : Fixed l) {node : Node α} (plain : ∀ target, node ≠ .link target) :
    Fits V l node := by
  refine ⟨fun _ => plain, fun s same => ?_, fun a b same => ?_, fun slot same target link => ?_⟩
  · exact absurd (same ▸ fixed) (not_fixed_store _ _)
  · exact absurd (same ▸ fixed) (not_fixed_store _ _)
  · exact absurd link (plain target)

/-- A directory outside the store. -/
theorem Fits.dir (outside : objects <+: l → l = objects) : Fits V l (.dir : Node α) := by
  have other : ∀ x rest, l ≠ objects ++ x :: rest := by
    intro x rest same
    have top := outside (same ▸ List.prefix_append _ _)
    simp [same] at top
  refine ⟨fun _ => nofun, fun s same => ?_, fun a b same => ?_, fun _ _ _ link => absurd link nofun⟩
  · exact absurd same (other _ _)
  · exact absurd same (other _ _)

/-- The link to the store that stands for a slot's own objects. -/
theorem fits_shared (slot : Slot) :
    Fits V (destination slot ++ [.text "objects"]) (.link casTarget : Node α) := by
  refine ⟨fun fixed => ?_, fun s same => ?_, fun a b same => ?_, fun _ _ target link => ?_⟩
  · rcases fixed with store | git | ⟨slot', s, revised | tree⟩
    · cases slot <;> simp [objects, composefs, img, destination, Slot.text] at store
    · cases slot <;> simp [repo, Firmware.git, img, destination, Slot.text] at git
    · simp [revisions, destination, img] at revised
    · simp [trees, destination, img] at tree
  · cases slot <;> simp [objects, composefs, img, destination, Slot.text] at same
  · cases slot <;> simp [objectAt, objects, composefs, img, destination, Slot.text] at same
  · simpa using link.symm

/-- The same link in the store, from two runs that both found no link. -/
theorem fits_shared_twice :
    Fits V (objects ++ [.text "objects"]) (.link casTarget : Node α) := by
  refine ⟨fun fixed => absurd fixed (not_fixed_store _ _), fun s same => ⟨fun _ _ => ?_, nofun⟩,
    fun a b same => ?_, fun slot same => ?_⟩
  · simpa using same.symm
  · simp [objectAt] at same
  · cases slot <;> simp [objects, composefs, img, destination, Slot.text] at same

/-- A directory of the store. -/
theorem fits_shelf {s : String} (short : s.length < 64) :
    Fits V (objects ++ [.text s]) (.dir : Node α) := by
  refine ⟨fun fixed => absurd fixed (not_fixed_store _ _), fun s' same => ⟨nofun, fun _ => ?_⟩,
    fun a b same => ?_, fun _ _ _ link => absurd link nofun⟩
  · obtain rfl : s = s' := by simpa using same
    exact short
  · simp [objectAt] at same

/-- A file that stands in the store itself. -/
theorem fits_top (s : String) (content : α) :
    Fits V (objects ++ [.text s]) (.file content true : Node α) := by
  refine ⟨fun fixed => absurd fixed (not_fixed_store _ _), fun _ _ => ⟨nofun, nofun⟩,
    fun a b same => ?_, fun _ _ _ link => absurd link nofun⟩
  simp [objectAt] at same

/-- A sealed file fits under its digest. -/
theorem fits_object {a b : String} {content : α} (digest : V.digest content = a ++ b) :
    Fits V (objectAt a b) (.file content true) := by
  refine ⟨fun fixed => absurd fixed (not_fixed_store _ _), fun s same => ?_, fun a' b' same => ?_,
    fun _ _ _ link => absurd link nofun⟩
  · simp [objectAt] at same
  · obtain ⟨rfl, rfl⟩ : a = a' ∧ b = b' := by simpa [objectAt] using same
    exact ⟨content, rfl, digest⟩

end Order

section Steps

/-- The directories that all processes work in. -/
def Common (l : Location) : Prop := repo <+: l ∨ ∃ slot, trees slot <+: l

/-- A temporary file of process `n`, or a place below one. -/
def Own (n : Nat) (l : Location) : Prop := owner l = some n ∧ ¬Common l

/-- What a process may leave at a place that it changes. -/
structure Change (V : Content α) (n : Nat) (l : Location) (after : Option (Node α)) : Prop where
  fits : ∀ node, after = some node → Fits V l node
  stays : ∀ a b, l = objectAt a b → after ≠ none
  own : ∀ m, Own m l → m = n

/-- What a step of process `n` does. -/
structure Promises (V : Content α) (n : Nat) (fs fs' : Fs α) : Prop where
  orderly : Orderly V fs'
  appends : Appends fs fs'
  others : ∀ l m, m ≠ n → Own m l → fs' l = fs l

/-- What process `n` sees of a step of another. -/
structure Relies (V : Content α) (n : Nat) (fs fs' : Fs α) : Prop where
  orderly : Orderly V fs'
  appends : Appends fs fs'
  own : ∀ l, Own n l → fs' l = fs l

/-- What one process promises is what the others rely on. -/
theorem Promises.relies {m : Nat} (promises : Promises V m fs fs') (other : m ≠ n) :
    Relies V n fs fs' :=
  ⟨promises.orderly, promises.appends, fun l owned => promises.others l n other.symm owned⟩

theorem Promises.refl (orderly : Orderly V fs) : Promises V n fs fs :=
  ⟨orderly, fun _ _ _ _ found => found, fun _ _ _ _ => rfl⟩

/-- Promises hold over several steps. -/
theorem Promises.trans (first : Promises V n fs fs') (second : Promises V n fs' fs'') :
    Promises V n fs fs'' := by
  refine ⟨second.orderly, fun a b content verity found => ?_, fun l m other owned => ?_⟩
  · exact second.appends a b content verity (first.appends a b content verity found)
  · exact (second.others l m other owned).trans (first.others l m other owned)

/-- A new object at the place of an old one has the same digest, so it is the same. -/
theorem Promises.of_changes (orderly : Orderly V fs)
    (changes : ∀ l, fs' l = fs l ∨ Change V n l (fs' l)) : Promises V n fs fs' := by
  have orderly' : Orderly V fs' := by
    intro l node found
    rcases changes l with same | change
    · exact orderly l node (same ▸ found)
    · exact change.fits node found
  refine ⟨orderly', fun a b content verity found => ?_, fun l m other owned => ?_⟩
  · rcases changes (objectAt a b) with same | change
    · exact same.trans found
    · obtain ⟨node, found'⟩ := Option.ne_none_iff_exists'.mp (change.stays a b rfl)
      obtain ⟨content', rfl, digest'⟩ := (orderly' _ _ found').object a b rfl
      obtain ⟨rfl, digest⟩ := orderly.sound a b content verity found
      rw [V.digest_injective (digest.trans digest'.symm)]
      exact found'
  · rcases changes l with same | change
    · exact same
    · exact absurd (change.own m owned) other

/-- A change that the rules admit is a promise kept. -/
theorem Promises.update {after : Option (Node α)} (orderly : Orderly V fs)
    (change : Change V n l after) : Promises V n fs (Function.update fs l after) := by
  refine .of_changes orderly fun x => ?_
  by_cases here : x = l
  · subst here
    rw [Function.update_self]
    exact .inr change
  · exact .inl (Function.update_of_ne here _ _)

theorem Change.of_owner (owned : owner l = some n) (after : Option (Node α)) :
    Change V n l after := by
  refine ⟨fun node _ => .of_owner owned node, fun a b same => ?_, fun m owned' => ?_⟩
  · rw [same] at owned
    exact absurd owned nofun
  · exact Option.some_inj.mp (owned'.1.symm.trans owned)

/-- A place of the tree that belongs to no process. -/
theorem Change.of_unowned {node : Node α} (fits : Fits V l node) (unowned : owner l = none) :
    Change V n l (some node) := by
  refine ⟨fun node' same => ?_, fun _ _ _ => nofun, fun m owned => ?_⟩
  · obtain rfl := Option.some_inj.mp same
    exact fits
  · exact absurd (unowned.symm.trans owned.1) nofun

theorem Change.of_common (common : Common l) (free : Free l) (after : Option (Node α)) :
    Change V n l after := by
  refine ⟨fun node _ => .of_free free node, fun a b same => ?_, fun m owned => ?_⟩
  · exact absurd (same ▸ List.prefix_append _ _) free.2.1
  · exact absurd common owned.2

/-- A place where a directory may be made. -/
def Room (n : Nat) (l : Location) : Prop :=
  Fixed l ∨ owner l = some n ∨ ∃ s : String, s.length < 64 ∧ l = objects ++ [.text s]

theorem room_shelf {s : String} {q : Location} {x : Name} (short : s.length < 64)
    (start : q ++ [x] <+: objects ++ [.text s]) : Room n (q ++ [x]) := by
  rcases List.prefix_concat_iff.mp start with same | before
  · exact .inr (.inr ⟨s, short, same⟩)
  · exact .inl (.inl before)

theorem Room.change (room : Room n l) : Change V n l (some .dir) := by
  rcases room with fixed | owned | ⟨s, short, rfl⟩
  · exact .of_unowned (.of_fixed fixed nofun) fixed.owner
  · exact .of_owner owned _
  · exact .of_unowned (fits_shelf short) rfl

end Steps

section Commands

variable {x : Name}

/-- `mkdir -p` of a place with room. -/
theorem promises_of_makesDir (orderly : Orderly V fs) (made : MakesDir (path l) fs fs')
    (firm : ∀ q x, q ++ [x] <+: l → Firm fs q) (room : ∀ q x, q ++ [x] <+: l → Room n (q ++ [x])) :
    ∃ y, fs y = none ∧ fs' = Function.update fs y (some .dir) ∧ Promises V n fs fs' := by
  obtain ⟨q, x, start, nothing, rfl⟩ := made.inv firm
  exact ⟨q ++ [x], nothing, rfl, .update orderly (room q x start).change⟩

theorem promises_of_fixed_makesDir (orderly : Orderly V fs) (fixed : Fixed l)
    (made : MakesDir (path l) fs fs') : Promises V n fs fs' := by
  have clear := orderly.clear fixed
  obtain ⟨_, _, _, promises⟩ := promises_of_makesDir orderly made
    (fun q x start => (clear.mono ((List.prefix_append q [x]).trans start)).firm)
    (fun q x start => .inl (fixed.mono start))
  exact promises

/-- A tool that works in a directory of its own, or in the repository. -/
theorem promises_of_worksIn (orderly : Orderly V fs) (works : WorksIn (path l) fs fs')
    (clear : Clear fs l) (room : Room n l)
    (below : ∀ y rest after, Change V n (l ++ y :: rest) after) :
    Promises V n fs fs' ∧ (fs' l = fs l ∨ fs' l = some .dir) ∧ ∀ y, ¬l <+: y → fs' y = fs y := by
  obtain ⟨d, walk, changed, self⟩ := works
  obtain rfl := Walk.eq_of_clear clear walk
  refine ⟨.of_changes orderly fun y => ?_, self, changed⟩
  by_cases inside : d <+: y
  · obtain ⟨rest, rfl⟩ := inside
    cases rest with
    | nil =>
      rw [List.append_nil]
      rcases self with same | isDir
      · exact .inl same
      · rw [isDir]
        exact .inr room.change
    | cons y rest => exact .inr (below y rest _)
  · exact .inl (changed y inside)

/-- `rm -rf` of a place of the process itself. -/
theorem promises_of_prunes (orderly : Orderly V fs) (pruned : Prunes (path (l ++ [x])) fs fs')
    (firm : Firm fs l) (owned : owner (l ++ [x]) = some n) : Promises V n fs fs' := by
  obtain ⟨d, y, place, ⟨rest, rfl⟩, _, rfl⟩ := pruned
  obtain rfl := Place.eq_of_firm firm place
  refine .update orderly (.of_owner ?_ _)
  rw [owner_append, owned, Option.some_or]

/-- A file of the process takes its place in the store. -/
theorem promises_of_move {target : Location} {node : Node α} (orderly : Orderly V fs)
    (moved : Moves (path (l ++ [x])) (path target) fs fs') (firm : Firm fs l)
    (owned : owner (l ++ [x]) = some n) (found : fs (l ++ [x]) = some node) (isFile : node ≠ .dir)
    (clear : Clear fs target) (other : fs target ≠ some .dir) (fits : Fits V target node)
    (unowned : owner target = none) :
    fs' = Function.update (Function.update fs (l ++ [x]) none) target (some node) ∧
      Promises V n fs (Function.update fs (l ++ [x]) none) ∧
      Promises V n (Function.update fs (l ++ [x]) none) fs' := by
  obtain ⟨node', y, found', place, done⟩ := moved.inv firm clear.firm
  obtain rfl : node' = node := by simpa using found'.symm.trans found
  have here : y = target := place.resolve_right fun ⟨isDir, _⟩ => other isDir
  obtain ⟨_, same⟩ := done.resolve_right fun ⟨isDir, _⟩ => isFile isDir
  rw [here] at same
  have first : Promises V n fs (Function.update fs (l ++ [x]) none) :=
    .update orderly (.of_owner owned _)
  refine ⟨same, first, ?_⟩
  rw [same]
  exact .update first.orderly (.of_unowned fits unowned)

end Commands

section Blocks

/-- `rm -rf` of temporary directories. -/
def Cleans (n : Nat) (c : Cmd α) : Prop :=
  ∃ ps, c = .prune ps ∧ ∀ p ∈ ps, ∃ l x, p = path (l ++ [x]) ∧ Fixed l ∧ owner (l ++ [x]) = some n

theorem cleans_nil : ∀ c ∈ ([] : List (Cmd α)), Cleans n c := by simp

/-- Lines of a process `n` among others that keep to the same promises. -/
abbrev Lines (V : Content α) (n : Nat) (trap : List (Cmd α)) (P : Fs α → Prop)
    (lines : List (Line (Cmd α) Test)) (Q : Fs α → Prop) : Prop :=
  Block (effects V) (Relies V n) (Promises V n) trap P lines Q

variable {trap : List (Cmd α)} {P Q : Fs α → Prop}

/-- A command of a trap keeps the promise. -/
theorem Cleans.promises {c : Cmd α} (cleans : Cleans n c) (orderly : Orderly V fs)
    (does : part c fs fs' ∨ whole V c fs fs') : Promises V n fs fs' := by
  obtain ⟨ps, rfl, own⟩ := cleans
  rcases does with ⟨p, member, pruned⟩ | ⟨rfl, _⟩
  · obtain ⟨l, x, rfl, fixed, owned⟩ := own p member
    exact promises_of_prunes orderly pruned (orderly.clear fixed).firm owned
  · exact .refl orderly

/-- A trap of cleaning commands may run at any time. -/
theorem rests (cleans : ∀ c ∈ trap, Cleans n c) (orderly : ∀ x, P x → Orderly V x)
    (env : ∀ x y, P x → Relies V n x y → P y) :
    Rests (effects V) (Relies V n) (Promises V n) trap P := by
  refine ⟨env, fun x holds failed => ?_⟩
  refine .of_trap (Orderly V) (fun _ _ _ step => step.orderly) ?_ (orderly x holds) failed
  intro c member x y orderly does
  have promises := (cleans c member).promises orderly does
  exact ⟨promises.orderly, promises⟩

theorem rests_orderly (cleans : ∀ c ∈ trap, Cleans n c) :
    Rests (effects V) (Relies V n) (Promises V n) trap (Orderly V) :=
  rests cleans (fun _ holds => holds) (fun _ _ _ step => step.orderly)

/-- A command that keeps its promise wherever the tree is in order. -/
theorem lines_orderly (cleans : ∀ c ∈ trap, Cleans n c) {c : Cmd α}
    (does : ∀ x y, Orderly V x → part c x y ∨ whole V c x y → Promises V n x y) :
    Lines V n trap (Orderly V) [.run c] (Orderly V) := by
  refine .run (rests_orderly cleans) (fun x y holds part => ?_) (fun x y holds whole => ?_)
  · exact ⟨(does x y holds (.inl part)).orderly, does x y holds (.inl part)⟩
  · exact ⟨(does x y holds (.inr whole)).orderly, does x y holds (.inr whole)⟩

/-- A command that only looks. -/
theorem lines_check (rests : Rests (effects V) (Relies V n) (Promises V n) trap P)
    (orderly : ∀ x, P x → Orderly V x) : Lines V n trap P [.run .check] P := by
  refine .run rests (fun x y _ part => part.elim) (fun x y holds same => ?_)
  obtain rfl : y = x := same
  exact ⟨holds, .refl (orderly y holds)⟩

/-- The script ends. -/
theorem lines_exit (rests : Rests (effects V) (Relies V n) (Promises V n) trap P) :
    Lines V n trap P [.run .exit] Q :=
  .run rests (fun _ _ _ part => part.elim) (fun _ _ _ whole => whole.elim)

/-- The fixed directories are made. -/
theorem lines_mkdirs (cleans : ∀ c ∈ trap, Cleans n c) {ls : List Location}
    (fixed : ∀ l ∈ ls, Fixed l) :
    Lines V n trap (Orderly V) [.run (.mkdirs (ls.map path))] (Orderly V) := by
  refine lines_orderly cleans fun x y orderly does => ?_
  rcases does with ⟨p, member, made⟩ | ⟨rfl, _⟩
  · obtain ⟨l, listed, rfl⟩ := List.mem_map.mp member
    exact promises_of_fixed_makesDir orderly (fixed l listed) made
  · exact .refl orderly

end Blocks

end Initos.Firmware
