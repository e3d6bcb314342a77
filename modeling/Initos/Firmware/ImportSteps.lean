import Initos.Firmware.Store

/-!
# What `import_oci` does to the store

The image is unpacked into a directory of the process. `find` follows no links, so the path of
every file that it lists is clear of them, and stays so: the file whose digest has been checked is
the one that is sealed and renamed.
-/

namespace Initos.Firmware

open LiveFs Script
open Upgrade (Slot)

variable {α : Type} {V : Content α} {fs fs' : Fs α} {n : Nat} {a : Import}

section Names

/-- A file name without line feeds is printed on one line. -/
theorem listed_eq {cwd base : Location} {relative : String} (noFeed : '\n' ∉ relative.toList) :
    listed cwd base relative = [⟨path base ++ steps relative, relative⟩] := by
  rw [listed, List.splitOn_eq_singleton noFeed]
  simp

theorem Proper.ne_nil {relative : String} (proper : Proper relative) {piece : List Char}
    (member : piece ∈ UnixPath.pieces relative) : piece ≠ [] := by
  rintro rfl
  exact absurd (proper [] member) (by simp [stepOf])

/-- The names of a proper path are its pieces. -/
theorem Proper.names_eq {relative : String} (proper : Proper relative) :
    names relative = (UnixPath.pieces relative).map fun piece => .text (String.ofList piece) := by
  rw [names, List.filter_eq_self.mpr fun piece member => decide_eq_true (proper.ne_nil member)]

theorem Proper.steps_eq {relative : String} (proper : Proper relative) :
    steps relative = path (names relative) := by
  rw [steps, List.filterMap_congr proper, List.filterMap_eq_map', proper.names_eq,
    path, List.map_map]
  rfl

/-- A digest is hexadecimal. -/
theorem not_mem_digest (V : Content α) (content : α) {c : Char}
    (other : c ∉ "0123456789abcdef".toList) : c ∉ (V.digest content).toList :=
  fun member => other (V.hex_digest content c member)

/-- A path whose text is a digest but for one slash: there is one slash, or none. -/
theorem names_of_digest {relative : String} {content : α} (proper : Proper relative)
    (digest : V.digest content = expected relative) :
    (∃ s, names relative = [.text s] ∧ s.length = 64) ∨
      ∃ u v, names relative = [.text u, .text v] ∧ V.digest content = u ++ v ∧ u ≠ "objects" ∧
        u.length < 64 := by
  have size := V.length_digest content
  by_cases slash : '/' ∈ relative.toList
  · obtain ⟨u, v, split, first⟩ := List.eq_append_cons_of_mem slash
    have chars : V.digest content = String.ofList u ++ String.ofList v := by
      rw [digest, expected, split, List.erase_append_right _ first, List.erase_cons_head,
        String.ofList_append]
    have only : '/' ∉ v := by
      have absent := not_mem_digest V content (c := '/') (by decide)
      rw [chars, String.toList_append, List.mem_append, not_or, String.toList_ofList,
        String.toList_ofList] at absent
      exact absent.2
    have pieces : UnixPath.pieces relative = [u, v] := by
      rw [UnixPath.pieces, split, List.splitOn_append_cons_self, List.splitOn_eq_singleton first,
        List.splitOn_eq_singleton only, List.singleton_append]
    have solid : v ≠ [] := proper.ne_nil (by simp [pieces])
    refine .inr ⟨String.ofList u, String.ofList v, by simp [proper.names_eq, pieces], chars, ?_, ?_⟩
    · intro same
      have absent := not_mem_digest V content (c := 'o') (by decide)
      rw [chars, same, String.toList_append, List.mem_append, not_or] at absent
      exact absent.1 (by decide)
    · have positive := List.length_pos_iff.mpr solid
      rw [chars, String.length_append, String.length_ofList, String.length_ofList] at size
      rw [String.length_ofList]
      omega
  · refine .inl ⟨relative, ?_, ?_⟩
    · rw [proper.names_eq, UnixPath.pieces, List.splitOn_eq_singleton slash]
      simp
    · rw [digest, expected, List.erase_of_not_mem slash, String.ofList_toList] at size
      exact size

end Names

section Bundle

/-- A temporary directory beside the store belongs to the process. -/
theorem own_composefs (template : String) (n index : Nat) (below : Location) :
    Own n (composefs ++ .temp template n index :: below) := by
  refine ⟨rfl, fun common => ?_⟩
  rcases common with git | ⟨slot, tree⟩
  · simp [composefs, img, repo, Firmware.git] at git
  · cases slot <;> simp [composefs, destination, img, trees, Slot.text] at tree

theorem fixed_composefs : Fixed composefs := fixed_objects.mono (List.prefix_append _ _)

/-- What the trap of `import_oci` removes. -/
def importTrap (n : Nat) (a : Import) : List (Cmd α) :=
  [.prune [path (a.layoutDir n), path (a.bundleDir n)]]

theorem cleans_importTrap : ∀ c ∈ importTrap (α := α) n a, Cleans n c := by
  intro c member
  refine ⟨_, List.mem_singleton.mp member, fun p member => ?_⟩
  rcases List.mem_pair.mp member with rfl | rfl
  · exact ⟨composefs, .temp ".oci-layout." n a.layout, rfl, fixed_composefs, rfl⟩
  · exact ⟨composefs, .temp ".oci-bundle." n a.bundle, rfl, fixed_composefs, rfl⟩

/-- The ways to these temporary places are clear. -/
def Cleared (V : Content α) (ls : List Location) (fs : Fs α) : Prop :=
  Orderly V fs ∧ ∀ l ∈ ls, Clear fs l

/-- Places below a temporary directory of the process. -/
def Temporary (n : Nat) (l : Location) : Prop :=
  ∃ template index below, l = composefs ++ .temp template n index :: below

variable {ls : List Location} {l : Location} {trap : List (Cmd α)}

/-- Others make no link on the way. -/
theorem Clear.env (temporary : Temporary n l) (clear : Clear fs l) (step : Relies V n fs fs') :
    Clear fs' l := by
  obtain ⟨template, index, below, rfl⟩ := temporary
  intro q start
  rcases prefix_append_cases start with before | ⟨rest, rfl, inside⟩
  · exact step.orderly.clear fixed_composefs q before
  cases rest with
  | nil =>
    rw [List.append_nil]
    exact step.orderly.clear fixed_composefs composefs List.prefix_rfl
  | cons x rest =>
    obtain ⟨rfl, _⟩ := List.cons_prefix_cons.mp inside
    rw [step.own _ (own_composefs template n index rest)]
    exact clear _ start

/-- Other processes leave the temporary directories alone. -/
theorem Cleared.env (temporary : ∀ l ∈ ls, Temporary n l) (cleared : Cleared V ls fs)
    (step : Relies V n fs fs') : Cleared V ls fs' :=
  ⟨step.orderly, fun l member => Clear.env (temporary l member) (cleared.2 l member) step⟩

theorem rests_cleared (cleans : ∀ c ∈ trap, Cleans n c) (temporary : ∀ l ∈ ls, Temporary n l) :
    Rests (effects V) (Relies V n) (Promises V n) trap (Cleared V ls) :=
  rests cleans (fun _ cleared => cleared.1) fun _ _ cleared step => cleared.env temporary step

/-- A change that leaves no link. -/
theorem Cleared.update {x : Location} {after : Option (Node α)} (cleared : Cleared V ls fs)
    (promises : Promises V n fs (Function.update fs x after)) (plain : ¬IsLink after) :
    Cleared V ls (Function.update fs x after) :=
  ⟨promises.orderly, fun l member => (cleared.2 l member).update plain⟩

/-- `mktemp -d` of a new name. -/
theorem lines_tempDir {template : String} {index : Nat} (temporary : ∀ l ∈ ls, Temporary n l) :
    Lines V n [] (Cleared V ls) [.run (.mktempDir (path (composefs ++ [.temp template n index])))]
      (Cleared V ((composefs ++ [.temp template n index]) :: ls)) := by
  refine .run (rests_cleared cleans_nil temporary) (fun _ _ _ part => part.elim)
    (fun fs fs' cleared made => ?_)
  obtain ⟨l, place, _, rfl⟩ :
      Creates .dir (path (composefs ++ [Name.temp template n index])) fs fs' := made
  obtain rfl := Place.eq_of_firm (cleared.1.clear fixed_composefs).firm place
  have promises : Promises V n fs
      (Function.update fs (composefs ++ [.temp template n index]) (some .dir)) :=
    .update cleared.1 (.of_owner rfl _)
  have after : Cleared V ls (Function.update fs (composefs ++ [.temp template n index])
      (some .dir)) := cleared.update promises id
  refine ⟨⟨after.1, fun l member => ?_⟩, promises⟩
  rcases List.mem_cons.mp member with rfl | member
  · refine (after.1.clear fixed_composefs).concat ?_
    rw [Function.update_self]
    exact id
  · exact after.2 l member

/-- The lines before the trap is set. -/
theorem importHead_lines (a : Import) : Lines V n [] (Orderly V) (importHead n a)
    (Cleared V [a.bundleDir n, a.layoutDir n]) := by
  have temporary : ∀ l ∈ [a.bundleDir n, a.layoutDir n], Temporary n l := by
    intro l member
    rcases List.mem_pair.mp member with rfl | rfl
    · exact ⟨_, _, [], rfl⟩
    · exact ⟨_, _, [], rfl⟩
  have fixed : ∀ l ∈ [composefs, objects], Fixed l := by
    intro l member
    rcases List.mem_pair.mp member with rfl | rfl
    · exact fixed_composefs
    · exact fixed_objects
  refine (lines_check (rests_orderly cleans_nil) fun _ orderly => orderly).cons ?_
  refine (lines_mkdirs cleans_nil fixed).cons ?_
  have layout : Lines V n [] (Cleared V []) [.run (.mktempDir (path (a.layoutDir n)))]
      (Cleared V [a.layoutDir n]) := lines_tempDir (by simp)
  refine .cons (Q := Cleared V [a.layoutDir n]) ?_ ?_
  · exact .append (.nil fun _ orderly => ⟨orderly, by simp⟩) layout
  refine (lines_tempDir fun l member => temporary l (List.mem_cons_of_mem _ member)).cons ?_
  refine .run (rests_cleared cleans_nil temporary) (fun _ _ _ part => part.elim)
    (fun fs fs' cleared removed => ?_)
  obtain ⟨l, place, _, _, rfl⟩ : RemovesDir (path (a.bundleDir n)) fs fs' := removed
  obtain rfl : l = a.bundleDir n :=
    Place.eq_of_firm (cleared.1.clear fixed_composefs).firm place
  have promises : Promises V n fs (Function.update fs (a.bundleDir n) none) :=
    .update cleared.1 (.of_owner rfl _)
  exact ⟨cleared.update promises id, promises⟩

/-- A tool works in one of the temporary directories, and makes no link of it. -/
theorem Cleared.worksIn {template : String} {index : Nat} (cleared : Cleared V ls fs)
    (tops : ∀ l ∈ ls, ∃ y, l = composefs ++ [y])
    (member : composefs ++ [.temp template n index] ∈ ls)
    (works : WorksIn (path (composefs ++ [.temp template n index])) fs fs') :
    Cleared V ls fs' ∧ Promises V n fs fs' := by
  have clear := cleared.2 _ member
  have inside : ∀ y rest (after : Option (Node α)),
      Change V n (composefs ++ [.temp template n index] ++ y :: rest) after :=
    fun y rest after => .of_owner (by simp [owner]) after
  obtain ⟨promises, self, others⟩ :=
    promises_of_worksIn cleared.1 works clear (.inr (.inl rfl)) inside
  refine ⟨⟨promises.orderly, fun l among => ?_⟩, promises⟩
  obtain ⟨y, rfl⟩ := tops l among
  refine (promises.orderly.clear fixed_composefs).concat ?_
  by_cases same : y = .temp template n index
  · subst same
    rcases self with same | isDir
    · rw [same]
      exact clear _ List.prefix_rfl
    · rw [isDir]
      exact id
  · rw [others _ (by simpa using Ne.symm same)]
    exact cleared.2 _ among _ List.prefix_rfl

/-- The files that are still to be imported. -/
def Unpacked (V : Content α) (n : Nat) (a : Import) (relatives : List String) (fs : Fs α) : Prop :=
  (∀ relative ∈ relatives, Proper relative) ∧
    Cleared V (relatives.map fun relative => a.base n ++ names relative) fs

theorem temporary_base (a : Import) (n : Nat) (below : Location) :
    Temporary n (a.base n ++ below) :=
  ⟨".oci-bundle.", a.bundle, .text "rootfs" :: .text "objects" :: below, by
    simp [Import.base, Import.bundleDir]⟩

theorem rests_unpacked {relatives : List String} :
    Rests (effects V) (Relies V n) (Promises V n) (importTrap n a) (Unpacked V n a relatives) := by
  refine rests cleans_importTrap (fun _ unpacked => unpacked.2.1) fun fs fs' unpacked step => ?_
  refine ⟨unpacked.1, unpacked.2.env (fun l member => ?_) step⟩
  obtain ⟨relative, _, rfl⟩ := List.mem_map.mp member
  exact temporary_base a n _

/-- The path to a file that `find` has come to is clear. -/
theorem Found.clear {x : Name} {below : Location} (found : Found fs (l ++ [x]) below)
    (clear : Clear fs l) : Clear fs (l ++ [x] ++ below) := by
  obtain ⟨dirs, content, verity, isFile⟩ := found
  have plain : ∀ q, q <+: below → ¬IsLink (fs (l ++ [x] ++ q)) := by
    intro q start
    by_cases whole : q = below
    · rw [whole, isFile]
      exact id
    · rw [dirs q start whole]
      exact id
  intro q start
  rcases prefix_append_cases start with before | ⟨rest, rfl, inside⟩
  · rcases List.prefix_concat_iff.mp before with rfl | before
    · simpa using plain [] List.nil_prefix
    · exact clear q before
  · exact plain rest inside

/-- The image is copied, unpacked and listed. -/
theorem lines_unpack (a : Import) : Lines V n (importTrap n a)
    (Cleared V [a.bundleDir n, a.layoutDir n])
    [.run (.tool (path (a.layoutDir n))), .run (.unpack (path (a.bundleDir n))),
      .run (.find (path (a.base n)) a.relatives)] (Unpacked V n a a.relatives) := by
  have tops : ∀ l ∈ [a.bundleDir n, a.layoutDir n], ∃ y, l = composefs ++ [y] := by
    intro l member
    rcases List.mem_pair.mp member with rfl | rfl
    · exact ⟨_, rfl⟩
    · exact ⟨_, rfl⟩
  have temporary : ∀ l ∈ [a.bundleDir n, a.layoutDir n], Temporary n l := by
    intro l member
    rcases List.mem_pair.mp member with rfl | rfl
    · exact ⟨_, _, [], rfl⟩
    · exact ⟨_, _, [], rfl⟩
  have rest : Rests (effects V) (Relies V n) (Promises V n) (importTrap n a)
      (Cleared V [a.bundleDir n, a.layoutDir n]) := rests_cleared cleans_importTrap temporary
  have tool : ∀ fs fs', Cleared V [a.bundleDir n, a.layoutDir n] fs →
      WorksIn (path (a.layoutDir n)) fs fs' →
      Cleared V [a.bundleDir n, a.layoutDir n] fs' ∧ Promises V n fs fs' :=
    fun fs fs' cleared works =>
      cleared.worksIn tops (List.mem_cons_of_mem _ List.mem_cons_self) works
  have unpack : ∀ fs fs', Cleared V [a.bundleDir n, a.layoutDir n] fs →
      WorksIn (path (a.bundleDir n)) fs fs' →
      Cleared V [a.bundleDir n, a.layoutDir n] fs' ∧ Promises V n fs fs' :=
    fun fs fs' cleared works => cleared.worksIn tops List.mem_cons_self works
  refine .cons (.run rest tool tool) ?_
  refine .cons (Q := Cleared V [a.bundleDir n ++ [.text "rootfs"]])
    (.run rest unpack fun fs fs' cleared whole => ?_) ?_
  · obtain ⟨works, l, walk, isDir⟩ : WorksIn (path (a.bundleDir n)) fs fs' ∧
      ∃ l, Walk fs' [] (path (a.bundleDir n)) l ∧ fs' (l ++ [Name.text "rootfs"]) = some .dir :=
      whole
    obtain ⟨cleared, promises⟩ := unpack fs fs' cleared works
    have clear := cleared.2 _ List.mem_cons_self
    obtain rfl := Walk.eq_of_clear clear walk
    refine ⟨⟨cleared.1, fun l member => ?_⟩, promises⟩
    obtain rfl := List.mem_singleton.mp member
    refine clear.concat ?_
    rw [isDir]
    exact id
  have temporary' : ∀ l ∈ [a.bundleDir n ++ [.text "rootfs"]], Temporary n l := by
    intro l member
    obtain rfl := List.mem_singleton.mp member
    exact ⟨".oci-bundle.", a.bundle, [.text "rootfs"], by simp [Import.bundleDir]⟩
  refine .run (rests_cleared cleans_importTrap temporary') (fun _ _ _ part => part.elim)
    (fun fs fs' cleared whole => ?_)
  obtain ⟨rfl, l, place, _, files, _⟩ : fs' = fs ∧ ∃ l, Place fs (path (a.base n)) l ∧
    (fs l = some .dir ∨ IsLink (fs l)) ∧
    (∀ relative ∈ a.relatives, Proper relative ∧ Found fs l (names relative)) ∧ _ := whole
  have clear := cleared.2 _ List.mem_cons_self
  have split : a.base n = a.bundleDir n ++ [.text "rootfs"] ++ [.text "objects"] := by
    simp [Import.base]
  rw [split] at place
  obtain rfl := Place.eq_of_firm clear.firm place
  refine ⟨⟨fun relative listed => (files relative listed).1, cleared.1, fun l member => ?_⟩,
    .refl cleared.1⟩
  obtain ⟨relative, listed, rfl⟩ := List.mem_map.mp member
  rw [split]
  exact (files relative listed).2.clear clear

end Bundle

section Files

variable {relative : String} {relatives : List String} {S : Bool → Prop}

/-- The file has the digest that its path says. -/
def Checked (V : Content α) (n : Nat) (a : Import) (relative : String) (relatives : List String)
    (S : Bool → Prop) (fs : Fs α) : Prop :=
  Unpacked V n a (relative :: relatives) fs ∧
    ∃ content verity, fs (a.base n ++ names relative) = some (.file content verity) ∧
      V.digest content = expected relative ∧ S verity

theorem Unpacked.tail {fs : Fs α} (unpacked : Unpacked V n a (relative :: relatives) fs) :
    Unpacked V n a relatives fs :=
  ⟨fun r member => unpacked.1 r (List.mem_cons_of_mem _ member), unpacked.2.1,
    fun l member => unpacked.2.2 l (List.mem_cons_of_mem _ member)⟩

theorem Unpacked.clear (unpacked : Unpacked V n a (relative :: relatives) fs) :
    Clear fs (a.base n ++ names relative) :=
  unpacked.2.2 _ List.mem_cons_self

theorem Unpacked.path_eq (unpacked : Unpacked V n a (relative :: relatives) fs) :
    path (a.base n) ++ steps relative = path (a.base n ++ names relative) := by
  rw [(unpacked.1 relative List.mem_cons_self).steps_eq, path, path, path, List.map_append]

/-- A change that makes no link. -/
theorem Unpacked.update {x : Location} {after : Option (Node α)}
    (unpacked : Unpacked V n a relatives fs)
    (promises : Promises V n fs (Function.update fs x after)) (plain : ¬IsLink after) :
    Unpacked V n a relatives (Function.update fs x after) :=
  ⟨unpacked.1, unpacked.2.update promises plain⟩

@[simp]
theorem owner_bundleDir (a : Import) (n : Nat) : owner (a.bundleDir n) = some n := rfl

theorem owner_base (a : Import) (n : Nat) (below : Location) :
    owner (a.base n ++ below) = some n := by
  simp [Import.base]

theorem own_base (a : Import) (n : Nat) (below : Location) : Own n (a.base n ++ below) := by
  obtain ⟨template, index, rest, same⟩ := temporary_base a n below
  rw [same]
  exact own_composefs template n index rest

theorem rests_checked : Rests (effects V) (Relies V n) (Promises V n) (importTrap n a)
    (Checked V n a relative relatives S) := by
  refine rests cleans_importTrap (fun _ checked => checked.1.2.1) fun fs fs' checked step => ?_
  obtain ⟨unpacked, content, verity, found, facts⟩ := checked
  exact ⟨rests_unpacked.env fs fs' unpacked step, content, verity,
    (step.own _ (own_base a n _)).trans found, facts⟩

/-- The digest of a file is the one of its path. -/
theorem lines_file_digest : Lines V n (importTrap n a) (Unpacked V n a (relative :: relatives))
    [.run (.digest (path (a.base n) ++ steps relative) (expected relative))]
    (Checked V n a relative relatives fun _ => True) := by
  refine .run rests_unpacked (fun _ _ _ part => part.elim) (fun fs fs' unpacked whole => ?_)
  obtain ⟨rfl, l, content, verity, walk, found, digest⟩ : fs' = fs ∧ ∃ l content verity,
    Walk fs [] (path (a.base n) ++ steps relative) l ∧ fs l = some (.file content verity) ∧
      V.digest content = expected relative := whole
  rw [unpacked.path_eq] at walk
  obtain rfl := Walk.eq_of_clear unpacked.clear walk
  exact ⟨⟨unpacked, content, verity, found, digest, trivial⟩, .refl unpacked.2.1⟩

/-- An object that was there already is measured. -/
theorem lines_measure : Lines V n (importTrap n a) (Unpacked V n a relatives)
    [.run (.measure (path (objects ++ names relative)) (expected relative))]
    (Unpacked V n a relatives) := by
  refine .run rests_unpacked (fun _ _ _ part => part.elim) (fun fs fs' unpacked whole => ?_)
  obtain ⟨rfl, _⟩ : fs' = fs ∧ _ := whole
  exact ⟨unpacked, .refl unpacked.2.1⟩

theorem dirname_top (s : String) : dirname (objects ++ [.text s]) = objects := by
  rw [dirname, List.dropLast_concat]
  decide

/-- The directory of an object is in the store. -/
theorem room_dirname {content : α} (proper : Proper relative)
    (digest : V.digest content = expected relative) {q : Location} {x : Name}
    (start : q ++ [x] <+: dirname (objects ++ names relative)) :
    q <+: objects ∧ Room n (q ++ [x]) := by
  rcases names_of_digest proper digest with ⟨s, same, _⟩ | ⟨u, v, same, _, _, short⟩
  · rw [same, dirname_top] at start
    exact ⟨(List.prefix_append _ _).trans start, .inl (.inl start)⟩
  · rw [same, dirname, show (objects ++ [.text u, .text v] : Location) =
      objects ++ [.text u] ++ [.text v] by simp, List.dropLast_concat] at start
    rcases prefix_substituted start with start | ⟨s, kept, last, rfl, shorter⟩
    · refine ⟨?_, room_shelf short start⟩
      rcases List.prefix_concat_iff.mp start with last | before
      · obtain ⟨rfl, _⟩ := List.append_inj' last rfl
        exact List.prefix_rfl
      · exact (List.prefix_append _ _).trans before
    · obtain ⟨rfl, rfl⟩ : objects = q ∧ u = s := by simpa using last
      exact ⟨List.prefix_rfl, .inr (.inr ⟨kept, by omega, rfl⟩)⟩

/-- The directory of the object. -/
theorem lines_file_dir : Lines V n (importTrap n a) (Checked V n a relative relatives S)
    [.run (.mkdirs [path (dirname (objects ++ names relative))])]
    (Checked V n a relative relatives S) := by
  refine .run rests_checked (fun fs fs' checked part => ?_) (fun fs fs' checked whole => ?_)
  · obtain ⟨p, member, made⟩ :
      ∃ p ∈ [path (dirname (objects ++ names relative))], MakesDir p fs fs' := part
    obtain rfl := List.mem_singleton.mp member
    obtain ⟨unpacked, content, verity, found, digest, fact⟩ := checked
    have room : ∀ q x, q ++ [x] <+: dirname (objects ++ names relative) →
        q <+: objects ∧ Room n (q ++ [x]) :=
      fun q x start => room_dirname (unpacked.1 relative List.mem_cons_self) digest start
    have clear := unpacked.2.1.clear fixed_objects
    obtain ⟨y, nothing, rfl, promises⟩ := promises_of_makesDir unpacked.2.1 made
      (fun q x start => (clear.mono (room q x start).1).firm) (fun q x start => (room q x start).2)
    refine ⟨⟨unpacked.update promises id, content, verity, ?_, digest, fact⟩, promises⟩
    have other : a.base n ++ names relative ≠ y := by
      intro same
      rw [same, nothing] at found
      exact absurd found nofun
    rw [Function.update_of_ne other, found]
  · obtain ⟨rfl, _⟩ : fs' = fs ∧ _ := whole
    exact ⟨checked, .refl checked.1.2.1⟩

/-- The file is sealed. -/
theorem lines_file_enable : Lines V n (importTrap n a) (Checked V n a relative relatives S)
    [.run (.enable (path (a.base n) ++ steps relative))]
    (Checked V n a relative relatives (· = true)) := by
  refine .run rests_checked (fun _ _ _ part => part.elim) (fun fs fs' checked whole => ?_)
  obtain ⟨l, content, walk, found, rfl⟩ :
    Enables (path (a.base n) ++ steps relative) fs fs' := whole
  obtain ⟨unpacked, content', verity, found', digest, _⟩ := checked
  rw [unpacked.path_eq] at walk
  obtain rfl := Walk.eq_of_clear unpacked.clear walk
  obtain ⟨rfl, _⟩ : content = content' ∧ false = verity := by simpa using found.symm.trans found'
  have promises : Promises V n fs (Function.update fs (a.base n ++ names relative)
      (some (.file content true))) := .update unpacked.2.1 (.of_owner (owner_base a n _) _)
  exact ⟨⟨unpacked.update promises id, content, true, Function.update_self ..,
    digest, rfl⟩, promises⟩

/-- The file becomes the object. -/
theorem lines_file_move : Lines V n (importTrap n a) (Checked V n a relative relatives (· = true))
    [.run (.move (path (a.base n) ++ steps relative) (path (objects ++ names relative)))]
    (Unpacked V n a relatives) := by
  refine .run rests_checked (fun _ _ _ part => part.elim) (fun fs fs' checked whole => ?_)
  obtain ⟨unpacked, content, _, found, digest, rfl⟩ := checked
  have moved : Moves (path (a.base n) ++ steps relative) (path (objects ++ names relative))
      fs fs' :=
    whole
  have orderly := unpacked.2.1
  have clear := unpacked.clear
  have owned := owner_base a n (names relative)
  rw [unpacked.path_eq] at moved
  have done : ∀ target, fs' = Function.update (Function.update fs (a.base n ++ names relative) none)
        target (some (.file content true)) ∧
      Promises V n fs (Function.update fs (a.base n ++ names relative) none) ∧
      Promises V n (Function.update fs (a.base n ++ names relative) none) fs' →
      Unpacked V n a relatives fs' ∧ Promises V n fs fs' := by
    intro target ⟨same, first, second⟩
    subst same
    exact ⟨(unpacked.tail.update first id).update second id, first.trans second⟩
  rcases names_of_digest (unpacked.1 relative List.mem_cons_self) digest with
    ⟨s, shape, size⟩ | ⟨u, v, shape, concat, other, _⟩
  · rw [shape] at moved clear owned found done
    have notLink : s ≠ "objects" := by
      intro same
      rw [same] at size
      exact absurd size (by decide)
    refine done _ (promises_of_move orderly moved (clear.mono (List.prefix_append _ _)).firm owned
      found nofun (orderly.clear_shelf notLink) (fun isDir => ?_) (fits_top s content) rfl)
    have short := ((orderly _ _ isDir).shelf s rfl).2 rfl
    omega
  · have split : a.base n ++ [.text u, .text v] = a.base n ++ [.text u] ++ [.text v] := by simp
    rw [shape] at moved
    rw [shape, split] at clear owned found done
    rw [split] at moved
    exact done _ (promises_of_move orderly moved (clear.mono (List.prefix_append _ _)).firm owned
      found nofun (orderly.clear_object other) (orderly.object_ne_dir u v) (fits_object concat) rfl)

/-- The body of the loop. -/
theorem fileLines_lines : Lines V n (importTrap n a) (Unpacked V n a (relative :: relatives))
    (fileLines ⟨path (a.base n) ++ steps relative, relative⟩) (Unpacked V n a relatives) := by
  unfold fileLines
  dsimp only
  split
  · exact lines_exit rests_unpacked
  · refine lines_file_digest.cons ?_
    refine Block.cond rests_checked (fun _ checked _ => checked.1.tail) (fun _ checked _ => checked)
      lines_measure ?_
    exact lines_file_dir.cons (lines_file_enable.cons lines_file_move)

/-- The loop: the files that are left are still as `find` has seen them. -/
theorem files_lines (noFeed : ∀ relative ∈ relatives, '\n' ∉ relative.toList) :
    Lines V n (importTrap n a) (Unpacked V n a relatives)
      ((relatives.flatMap (listed a.cwd (a.base n))).flatMap fileLines) (Orderly V) := by
  induction relatives with
  | nil => exact .nil fun _ unpacked => unpacked.2.1
  | cons relative relatives ih =>
    rw [List.flatMap_cons, List.flatMap_append, listed_eq (noFeed relative List.mem_cons_self),
      List.flatMap_singleton]
    exact fileLines_lines.append (ih fun r member => noFeed r (List.mem_cons_of_mem _ member))

/-- Every step of `import_oci` keeps its promise. -/
theorem importOci_guarded (noFeed : ∀ relative ∈ a.relatives, '\n' ∉ relative.toList)
    (orderly : Orderly V fs) :
    Guarded (effects V) (Relies V n) (Promises V n) (start (importOci n a)) fs := by
  refine importHead_lines a _ none fs orderly fun fs cleared => ?_
  have temporary : ∀ l ∈ [a.bundleDir n, a.layoutDir n], Temporary n l := by
    intro l member
    rcases List.mem_pair.mp member with rfl | rfl
    · exact ⟨_, _, [], rfl⟩
    · exact ⟨_, _, [], rfl⟩
  refine .setTrap_stable (Cleared V [a.bundleDir n, a.layoutDir n]) cleared
    (fun _ _ cleared step => cleared.env temporary step) fun fs cleared => ?_
  have check : Lines V n (importTrap n a) (Orderly V) [.run .check] (Orderly V) :=
    lines_check (rests_orderly cleans_importTrap) fun _ orderly => orderly
  have clean : Lines V n [] (Orderly V) (importTrap n a |>.map .run) (Orderly V) :=
    lines_orderly cleans_nil fun fs fs' orderly does =>
      (cleans_importTrap _ List.mem_cons_self).promises orderly does
  have body := (lines_unpack (V := V) a).append ((files_lines noFeed).append check)
  have body := body (.trap [] :: (importTrap n a).map .run) none fs cleared fun fs orderly => by
    refine .setTrap_stable (Orderly V) orderly (fun _ _ _ step => step.orderly) fun fs orderly => ?_
    have last := clean [] none fs orderly fun _ _ => .exit fun trapped => absurd rfl trapped
    simpa using last
  simpa [importTrap, importBody] using body

end Files

end Initos.Firmware
