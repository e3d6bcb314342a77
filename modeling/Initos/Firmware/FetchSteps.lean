import Initos.Firmware.Store

/-!
# What `firmware_fetch` does to the store

The loop builds a tree of links in the staging directory. As long as the tree has no entry at or
below a symbolic link of its own, every link that a command may come across leads to an object,
so the commands stay in the staging directory and the store: `Staged.firm`.
-/

namespace Initos.Firmware

open LiveFs Script
open Upgrade (Slot)

variable {α : Type} {V : Content α} {fs fs' : Fs α} {n : Nat} {a : Fetch α}

section Head

@[simp]
theorem owner_stageDir (a : Fetch α) (n : Nat) : owner (a.stageDir n) = some n := rfl

/-- The staging directory belongs to the process. -/
theorem own_stageDir (a : Fetch α) (n : Nat) (below : Location) :
    Own n (a.stageDir n ++ below) := by
  refine ⟨by simp, fun common => ?_⟩
  rcases common with git | ⟨slot, tree⟩
  · cases h : a.slot <;>
      simp [Fetch.stageDir, h, destination, img, repo, Firmware.git, Slot.text] at git
  · simp [Fetch.stageDir, destination, img, trees] at tree

/-- The link to the store leads there. -/
theorem Orderly.walk_shared {slot : Slot} {d : Location} (orderly : Orderly V fs)
    (walk : Walk fs [] (path (destination slot ++ [.text "objects"])) d) :
    d = destination slot ++ [.text "objects"] ∨ d = objects := by
  have clear := orderly.clear (fixed_destination slot)
  rw [show path (destination slot ++ [.text "objects"]) =
    path (destination slot) ++ [.down (.text "objects")] from List.map_append] at walk
  rcases Walk.of_clear (fun q start => by simpa using clear q start) walk with
    ⟨nothing, _⟩ | ⟨_, walk⟩
  · exact absurd nothing nofun
  cases walk with
  | last _ => exact .inl rfl
  | dir _ walk =>
    cases walk
    exact .inl rfl
  | link isLink walk =>
    obtain rfl := (orderly _ _ isLink).shared slot rfl _ rfl
    have store := orderly.clear fixed_objects
    cases walk with
    | up walk =>
      cases walk with
      | up walk =>
        have onward : Walk fs img (path [.text "composefs", .text "objects"] ++ []) d := walk
        rcases Walk.of_clear
          (fun q start => store _ ((List.prefix_append_right_inj img).mpr start)) onward with
          ⟨_, same⟩ | ⟨_, stop⟩
        · exact .inr same
        · cases stop
          exact .inr rfl

/-- The link to the shared store is the one link that fits there. -/
theorem promises_of_link_shared {slot : Slot} (orderly : Orderly V fs)
    (made : Links casTarget (some (.text "objects")) (path (destination slot ++ [.text "objects"]))
      fs fs') : Promises V n fs fs' := by
  obtain ⟨dest, x, goes, place, _, rfl⟩ := made
  refine .update orderly ?_
  rcases goes with ⟨_, m, named, rfl⟩ | ⟨_, rfl⟩
  · -- the link has been made meanwhile, and `ln` follows it
    obtain ⟨front, m', d, same, walk, _, rfl⟩ := place
    obtain rfl := Option.some_inj.mp named
    obtain ⟨rfl, rfl⟩ : path (destination slot ++ [.text "objects"]) = front ∧
        .text "objects" = m' := by
      simpa using same
    rcases orderly.walk_shared walk with rfl | rfl
    · rw [List.append_assoc]
      exact .of_unowned (.of_free (free_destination (by simp) (by simp)) _) rfl
    · exact .of_unowned fits_shared_twice rfl
  · obtain rfl := Place.eq_of_firm (orderly.clear (fixed_destination slot)).firm place
    exact .of_unowned (fits_shared slot) rfl

theorem clear_stageDir (orderly : Orderly V fs) (isDir : fs (a.stageDir n) = some .dir) :
    Clear fs (a.stageDir n) := by
  refine (orderly.clear (fixed_destination a.slot)).concat ?_
  rw [show destination a.slot ++ [.temp ".objects." n a.stage] = a.stageDir n from rfl, isDir]
  exact id

/-- The staging directory has been made, and no link is in it. -/
structure Fresh (V : Content α) (stage : Location) (fs : Fs α) : Prop where
  orderly : Orderly V fs
  isDir : fs stage = some .dir
  plain : ∀ below, ¬IsLink (fs (stage ++ below))

/-- Other processes leave a fresh staging directory alone. -/
theorem Fresh.env (fresh : Fresh V (a.stageDir n) fs) (step : Relies V n fs fs') :
    Fresh V (a.stageDir n) fs' := by
  have own : ∀ below, fs' (a.stageDir n ++ below) = fs (a.stageDir n ++ below) :=
    fun below => step.own _ (own_stageDir a n below)
  refine ⟨step.orderly, ?_, fun below => ?_⟩
  · simpa [fresh.isDir] using own []
  · rw [own]
    exact fresh.plain below

/-- The staging directory is made. -/
theorem lines_mktempDir (a : Fetch α) :
    Lines V n [] (Orderly V) [.run (.mktempDir (path (a.stageDir n)))]
      (Fresh V (a.stageDir n)) := by
  refine .run (rests_orderly cleans_nil) (fun x y _ part => part.elim)
    (fun fs fs' orderly made => ?_)
  obtain ⟨l, place, nothing, rfl⟩ : Creates .dir (path (a.stageDir n)) fs fs' := made
  obtain rfl : l = a.stageDir n :=
    Place.eq_of_firm (orderly.clear (fixed_destination a.slot)).firm place
  have promises : Promises V n fs (Function.update fs (a.stageDir n) (some .dir)) :=
    .update orderly (.of_owner (owner_stageDir a n) _)
  refine ⟨⟨promises.orderly, Function.update_self .., fun below => ?_⟩, promises⟩
  by_cases here : a.stageDir n ++ below = a.stageDir n
  · rw [here, Function.update_self]
    exact id
  · rw [Function.update_of_ne here, nothing _ (List.prefix_append _ _)]
    exact id

/-- The lines before the loop. -/
theorem fetchHead_lines (url : isOption a.gitUrl = false) :
    Lines V n [] (Orderly V) (fetchHead n a) (Fresh V (a.stageDir n)) := by
  have rest : Rests (effects V) (Relies V n) (Promises V n) [] (Orderly V) :=
    rests_orderly cleans_nil
  have check : Lines V n [] (Orderly V) [.run .check] (Orderly V) := lines_check rest fun _ h => h
  have done : Lines V n [] (Orderly V) [] (Orderly V) := .nil fun _ h => h
  have tool : Lines V n [] (Orderly V) [.run (.tool (path repo))] (Orderly V) := by
    refine lines_orderly cleans_nil fun x y orderly does => ?_
    have works : WorksIn (path repo) x y := does.elim id id
    refine (promises_of_worksIn orderly works (orderly.clear fixed_repo) (.inl fixed_repo) ?_).1
    exact fun y rest after => .of_common (.inl (List.prefix_append _ _)) (free_repo y rest) after
  have link : Lines V n [] (Orderly V) [.run (.link casTarget (some (.text "objects"))
      (path (destination a.slot ++ [.text "objects"])))] (Orderly V) :=
    lines_orderly cleans_nil fun x y orderly does =>
      promises_of_link_shared orderly (does.resolve_left id)
  have fixed : ∀ l ∈ [destination a.slot, revisions a.slot, trees a.slot, composefs, objects, git],
      Fixed l := by
    intro l member
    simp only [List.mem_cons, List.not_mem_nil, or_false] at member
    rcases member with rfl | rfl | rfl | rfl | rfl | rfl
    · exact fixed_destination a.slot
    · exact (fixed_revisions a.slot "").mono (List.prefix_append _ _)
    · exact (fixed_trees a.slot "").mono (List.prefix_append _ _)
    · exact fixed_objects.mono (List.prefix_append _ _)
    · exact fixed_objects
    · exact fixed_repo.mono (List.prefix_append _ _)
  have same : ∀ (t : Test) x, Orderly V x → (effects V).test t x → Orderly V x := fun _ _ h _ => h
  have same' : ∀ (t : Test) x, Orderly V x → ¬(effects V).test t x → Orderly V x := fun _ _ h _ => h
  refine .append (Q := Orderly V) ?_ ?_
  · split
    · exact done
    · exact lines_exit rest
  refine check.cons ?_
  refine (lines_mkdirs cleans_nil fixed).cons ?_
  refine (Block.cond rest (same _) (same' _) done link).cons ?_
  refine (Block.cond rest (same _) (same' _) done ?_).cons ?_
  · have fetch : fetchCommand a = .tool (path repo) := if_neg (by simp [url])
    rw [fetch]
    exact (Block.cond rest (same _) (same' _) done tool).cons tool
  exact check.cons (lines_mktempDir a)

end Head

section Stage

/-- A link target that is an object of the store. -/
def ToObject (fs : Fs α) (target : Path) : Prop :=
  ∃ a b content, a ≠ "objects" ∧ target = .root :: path (objectAt a b) ∧
    fs (objectAt a b) = some (.file content true)

/-- A link to an object leads to a file. -/
theorem ToObject.leadsToFile {target : Path} (leads : ToObject fs target) (orderly : Orderly V fs) :
    LeadsToFile fs target := by
  obtain ⟨a, b, content, other, rfl, found⟩ := leads
  exact ⟨objectAt a b, content, true, by simp [objectAt], rfl, orderly.clear_object other, found⟩

theorem ToObject.appends {target : Path} (leads : ToObject fs target) (appends : Appends fs fs') :
    ToObject fs' target := by
  obtain ⟨a, b, content, other, rfl, found⟩ := leads
  exact ⟨a, b, content, other, rfl, appends a b content true found⟩

/-- The tree of the staging directory, where `links` are the paths of the symbolic links among
the records so far. -/
structure Staged (V : Content α) (stage : Location) (links : List Location) (fs : Fs α) : Prop where
  orderly : Orderly V fs
  isDir : fs stage = some .dir
  tree : fs (stage ++ [.text "tree"]) = some .dir
  links : ∀ below target, fs (stage ++ .text "tree" :: below) = some (.link target) →
    ToObject fs target ∨ ∃ p ∈ links, p <+: below

variable {links : List Location} {x : Location}

/-- Other processes leave the staged tree alone. -/
theorem Staged.env (staged : Staged V (a.stageDir n) links fs) (step : Relies V n fs fs') :
    Staged V (a.stageDir n) links fs' := by
  have own : ∀ below, fs' (a.stageDir n ++ below) = fs (a.stageDir n ++ below) :=
    fun below => step.own _ (own_stageDir a n below)
  refine ⟨step.orderly, ?_, (own _).trans staged.tree, ?_⟩
  · simpa [staged.isDir] using own []
  intro below target link
  rw [own] at link
  exact (staged.links below target link).imp_left fun leads => leads.appends step.appends

/-- A change at a place other than the two directories, which makes no stray link. -/
theorem Staged.update {stage : Location} {links' : List Location} {after : Option (Node α)}
    (staged : Staged V stage links fs) (promises : Promises V n fs (Function.update fs x after))
    (other : fs x ≠ some .dir) (more : links ⊆ links')
    (linked : ∀ below target, x = stage ++ .text "tree" :: below → after = some (.link target) →
      ToObject fs target ∨ ∃ p ∈ links', p <+: below) :
    Staged V stage links' (Function.update fs x after) := by
  have kept : ∀ l, fs l = some .dir → Function.update fs x after l = some .dir := by
    intro l isDir
    rw [Function.update_of_ne (fun same : l = x => other (same ▸ isDir)), isDir]
  refine ⟨promises.orderly, kept _ staged.isDir, kept _ staged.tree, fun below target link => ?_⟩
  have leads : ToObject fs target ∨ ∃ p ∈ links', p <+: below := by
    by_cases here : x = stage ++ .text "tree" :: below
    · rw [here, Function.update_self] at link
      exact linked below target here link
    · rw [Function.update_of_ne (Ne.symm here)] at link
      exact (staged.links below target link).imp_right
        fun ⟨p, member, start⟩ => ⟨p, more member, start⟩
  exact leads.imp_left fun leads => leads.appends promises.appends

/-- A change that makes no link. -/
theorem Staged.update_plain {stage : Location} {after : Option (Node α)}
    (staged : Staged V stage links fs) (promises : Promises V n fs (Function.update fs x after))
    (other : fs x ≠ some .dir) (plain : ∀ target, after ≠ some (.link target)) :
    Staged V stage links (Function.update fs x after) :=
  staged.update promises other (List.Subset.refl _)
    fun _ target _ link => absurd link (plain target)

theorem Staged.clear (staged : Staged V (a.stageDir n) links fs) : Clear fs (a.stageDir n) :=
  clear_stageDir staged.orderly staged.isDir

/-- No link of the tree leads away from a path that is not below one of its own links. -/
theorem Staged.firm {below : Location} (staged : Staged V (a.stageDir n) links fs)
    (apart : ∀ p ∈ links, ¬p <+: below) : Firm fs (a.stageDir n ++ .text "tree" :: below) := by
  intro q start target link
  rcases prefix_append_cases start with before | ⟨tail, rfl, onward⟩
  · exact staged.clear.firm q before target link
  rcases List.prefix_cons_iff.mp onward with rfl | ⟨rest, rfl, inside⟩
  · rw [List.append_nil, staged.isDir] at link
    exact absurd link nofun
  rcases staged.links rest target link with leads | ⟨p, member, start'⟩
  · exact leads.leadsToFile staged.orderly
  · exact absurd (start'.trans inside) (apart p member)

/-- A directory in the staged tree. -/
theorem Staged.makesDir {l : Location} (staged : Staged V (a.stageDir n) links fs)
    (made : MakesDir (path l) fs fs') (firm : ∀ q x, q ++ [x] <+: l → Firm fs q)
    (room : ∀ q x, q ++ [x] <+: l → Room n (q ++ [x])) :
    Staged V (a.stageDir n) links fs' ∧ Promises V n fs fs' ∧ ∀ y, fs y ≠ none → fs' y = fs y := by
  obtain ⟨y, nothing, rfl, promises⟩ := promises_of_makesDir staged.orderly made firm room
  refine ⟨staged.update_plain promises (by simp [nothing]) nofun, promises, fun z there => ?_⟩
  exact Function.update_of_ne (fun same : z = y => there (same ▸ nothing)) _ _

theorem room_stage {below q : Location} {x : Name} (start : q ++ [x] <+: a.stageDir n ++ below) :
    Room n (q ++ [x]) := by
  rcases prefix_append_cases start with before | ⟨rest, same, _⟩
  · rcases List.prefix_concat_iff.mp before with same | before
    · rw [same]
      exact .inr (.inl rfl)
    · exact .inl ((fixed_destination a.slot).mono before)
  · rw [same]
    exact .inr (.inl (by simp))

/-- The directory that holds an entry of the tree. -/
theorem Staged.makesDirname {below : Location} (staged : Staged V (a.stageDir n) links fs)
    (apart : ∀ p ∈ links, ¬p <+: below)
    (made : MakesDir (path (dirname (a.stageDir n ++ .text "tree" :: below))) fs fs') :
    Staged V (a.stageDir n) links fs' ∧ Promises V n fs fs' := by
  have firm := staged.firm apart
  have shorter := List.dropLast_prefix (a.stageDir n ++ .text "tree" :: below)
  have firms : ∀ q x, q ++ [x] <+: dirname (a.stageDir n ++ .text "tree" :: below) → Firm fs q := by
    intro q x start
    rcases prefix_substituted start with start | ⟨s, kept, same, _⟩
    · exact firm.mono (((List.prefix_append q [x]).trans start).trans shorter)
    · rw [same] at shorter
      exact firm.mono ((List.prefix_append q [.text s]).trans shorter)
  have rooms : ∀ q x, q ++ [x] <+: dirname (a.stageDir n ++ .text "tree" :: below) →
      Room n (q ++ [x]) := by
    intro q x start
    rcases prefix_substituted start with start | ⟨s, kept, same, rfl, _⟩
    · exact room_stage (start.trans shorter)
    · refine .inr (.inl ?_)
      have owned : owner (q ++ [.text s]) = some n := by
        rw [← same, List.dropLast_append_of_ne_nil (List.cons_ne_nil _ _), owner_append,
          owner_stageDir, Option.some_or]
      simpa [owner] using owned
  obtain ⟨after, promises, _⟩ := staged.makesDir made firms rooms
  exact ⟨after, promises⟩

/-- A link that a record makes, at the record's path or in the directory that is there. -/
theorem Staged.link {below : Location} {links' : List Location} {target : Path} {name : Option Name}
    (staged : Staged V (a.stageDir n) links fs) (apart : ∀ p ∈ links, ¬p <+: below)
    (more : links ⊆ links') (leads : ToObject fs target ∨ below ∈ links')
    (made : Links target name (path (a.stageDir n ++ .text "tree" :: below)) fs fs') :
    Staged V (a.stageDir n) links' fs' ∧ Promises V n fs fs' := by
  obtain ⟨rest, nothing, rfl⟩ := made.inv (staged.firm apart)
  have promises : Promises V n fs (Function.update fs
      (a.stageDir n ++ .text "tree" :: below ++ rest) (some (.link target))) :=
    .update staged.orderly (.of_owner (by simp) _)
  have other : fs (a.stageDir n ++ .text "tree" :: below ++ rest) ≠ some .dir := by
    rw [nothing]
    exact nofun
  refine ⟨staged.update promises other more fun below' target' here same => ?_, promises⟩
  obtain rfl : target = target' := by simpa using same
  obtain rfl : below ++ rest = below' := by simpa using here
  exact leads.imp_right fun member => ⟨below, member, List.prefix_append _ _⟩

end Stage

section Records

/-- What the trap of `firmware_fetch` removes. -/
def stageTrap (n : Nat) (a : Fetch α) : List (Cmd α) := [.prune [path (a.stageDir n)]]

theorem cleans_stageTrap : ∀ c ∈ stageTrap n a, Cleans n c := by
  intro c member
  refine ⟨[path (a.stageDir n)], List.mem_singleton.mp member, fun p member => ?_⟩
  exact ⟨destination a.slot, .temp ".objects." n a.stage, List.mem_singleton.mp member,
    fixed_destination a.slot, rfl⟩

variable {links : List Location} {r : Record α} {verity : Bool} {D : α → Prop}

/-- The file that a blob is written to is there. -/
def Drafted (V : Content α) (n : Nat) (a : Fetch α) (links : List Location) (r : Record α)
    (verity : Bool) (D : α → Prop) (fs : Fs α) : Prop :=
  Staged V (a.stageDir n) links fs ∧
    ∃ content, fs (objectFile n (a.stageDir n) r) = some (.file content verity) ∧ D content

/-- The object of a record is in the store. -/
def Stored (V : Content α) (n : Nat) (a : Fetch α) (links : List Location) (r : Record α)
    (fs : Fs α) : Prop :=
  Staged V (a.stageDir n) links fs ∧ ∃ content, fs (object r) = some (.file content true)

theorem owner_objectFile : owner (objectFile n (a.stageDir n) r) = some n := by
  simp [objectFile]

/-- The trap may run at any time. -/
theorem rests_staged : Rests (effects V) (Relies V n) (Promises V n) (stageTrap n a)
    (Staged V (a.stageDir n) links) :=
  rests cleans_stageTrap (fun _ staged => staged.orderly)
    (fun _ _ staged step => staged.env step)

theorem rests_drafted : Rests (effects V) (Relies V n) (Promises V n) (stageTrap n a)
    (Drafted V n a links r verity D) := by
  refine rests cleans_stageTrap (fun _ drafted => drafted.1.orderly) fun fs fs' drafted step => ?_
  obtain ⟨staged, content, found, fact⟩ := drafted
  exact ⟨staged.env step, content,
    (step.own _ (own_stageDir a n _)).trans found, fact⟩

theorem rests_stored : Rests (effects V) (Relies V n) (Promises V n) (stageTrap n a)
    (Stored V n a links r) := by
  refine rests cleans_stageTrap (fun _ stored => stored.1.orderly) fun fs fs' stored step => ?_
  obtain ⟨staged, content, found⟩ := stored
  exact ⟨staged.env step, content, step.appends _ _ content true found⟩

theorem Drafted.clear (drafted : Drafted V n a links r verity D fs) :
    Clear fs (objectFile n (a.stageDir n) r) := by
  obtain ⟨staged, content, found, _⟩ := drafted
  refine staged.clear.concat ?_
  rw [show a.stageDir n ++ [.temp "object." n r.temp] = objectFile n (a.stageDir n) r from rfl,
    found]
  exact id

/-- The file is written or sealed. -/
theorem Drafted.update {content : α} {verity' : Bool} {D' : α → Prop}
    (drafted : Drafted V n a links r verity D fs) (fact : D' content) :
    Drafted V n a links r verity' D' (Function.update fs (objectFile n (a.stageDir n) r)
      (some (.file content verity'))) ∧
    Promises V n fs (Function.update fs (objectFile n (a.stageDir n) r)
      (some (.file content verity'))) := by
  obtain ⟨staged, old, found, _⟩ := drafted
  have promises : Promises V n fs (Function.update fs (objectFile n (a.stageDir n) r)
      (some (.file content verity'))) := .update staged.orderly (.of_owner owner_objectFile _)
  refine ⟨⟨staged.update_plain promises ?_ nofun, content, Function.update_self .., fact⟩, promises⟩
  rw [found]
  exact nofun

/-- The file for the blob. -/
theorem lines_mktemp : Lines V n (stageTrap n a) (Staged V (a.stageDir n) links)
    [.run (.mktemp (path (objectFile n (a.stageDir n) r)))]
    (Drafted V n a links r false fun _ => True) := by
  refine .run rests_staged (fun _ _ _ part => part.elim) (fun fs fs' staged made => ?_)
  obtain ⟨l, place, nothing, rfl⟩ :
    Creates (.file (V.text "") false) (path (objectFile n (a.stageDir n) r)) fs fs' := made
  obtain rfl : l = objectFile n (a.stageDir n) r := Place.eq_of_firm staged.clear.firm place
  have promises : Promises V n fs (Function.update fs (objectFile n (a.stageDir n) r)
      (some (.file (V.text "") false))) := .update staged.orderly (.of_owner owner_objectFile _)
  refine ⟨⟨staged.update_plain promises ?_ nofun, _, Function.update_self .., trivial⟩, promises⟩
  rw [nothing _ List.prefix_rfl]
  exact nofun

/-- The blob is written to it. -/
theorem lines_write : Lines V n (stageTrap n a) (Drafted V n a links r false fun _ => True)
    [.run (.write r.content (path (objectFile n (a.stageDir n) r)))]
    (Drafted V n a links r false fun _ => True) := by
  have write : ∀ fs fs' content, Drafted V n a links r false (fun _ => True) fs →
      Writes content (path (objectFile n (a.stageDir n) r)) fs fs' →
      Drafted V n a links r false (fun _ => True) fs' ∧ Promises V n fs fs' := by
    intro fs fs' content drafted written
    obtain ⟨l, walk, _, rfl⟩ := written
    obtain rfl := Walk.eq_of_clear drafted.clear walk
    exact drafted.update trivial
  refine .run rests_drafted (fun fs fs' drafted part => ?_) (fun fs fs' drafted whole => ?_)
  · obtain ⟨content, written⟩ : ∃ content, Writes content _ fs fs' := part
    exact write fs fs' content drafted written
  · exact write fs fs' r.content drafted whole

/-- Its digest is the one that is printed. -/
theorem lines_digest : Lines V n (stageTrap n a) (Drafted V n a links r false fun _ => True)
    [.run (.digest (path (objectFile n (a.stageDir n) r)) r.digest)]
    (Drafted V n a links r false fun content => V.digest content = r.digest) := by
  refine .run rests_drafted (fun _ _ _ part => part.elim) (fun fs fs' drafted whole => ?_)
  obtain ⟨rfl, l, content, verity, walk, found, digest⟩ : fs' = fs ∧ ∃ l content verity,
    Walk fs [] (path (objectFile n (a.stageDir n) r)) l ∧ fs l = some (.file content verity) ∧
      V.digest content = r.digest := whole
  obtain rfl := Walk.eq_of_clear drafted.clear walk
  obtain ⟨staged, content', found', _⟩ := drafted
  obtain ⟨rfl, rfl⟩ : content = content' ∧ verity = false := by simpa using found.symm.trans found'
  exact ⟨⟨staged, content, found, digest⟩, .refl staged.orderly⟩

/-- The directory of the object. -/
theorem lines_objectDir : Lines V n (stageTrap n a) (Drafted V n a links r verity D)
    [.run (.mkdirs [path (objects ++ [.text (objectDir r.digest)])])]
    (Drafted V n a links r verity D) := by
  refine .run rests_drafted (fun fs fs' drafted part => ?_) (fun fs fs' drafted whole => ?_)
  · obtain ⟨p, member, made⟩ : ∃ p ∈ [path (objects ++ [Name.text (objectDir r.digest)])],
      MakesDir p fs fs' := part
    obtain rfl := List.mem_singleton.mp member
    obtain ⟨staged, content, found, fact⟩ := drafted
    have clear := staged.orderly.clear_shelf (objectDir_ne r.digest)
    obtain ⟨staged', promises, kept⟩ := staged.makesDir made
      (fun q x start => (clear.mono ((List.prefix_append q [x]).trans start)).firm)
      (fun q x start =>
        room_shelf (Nat.lt_of_le_of_lt (length_objectDir r.digest) (by decide)) start)
    refine ⟨⟨staged', content, (kept _ ?_).trans found, fact⟩, promises⟩
    rw [found]
    exact nofun
  · obtain ⟨rfl, _⟩ : fs' = fs ∧ _ := whole
    exact ⟨drafted, .refl drafted.1.orderly⟩

/-- The file is sealed. -/
theorem lines_enable : Lines V n (stageTrap n a) (Drafted V n a links r false D)
    [.run (.enable (path (objectFile n (a.stageDir n) r)))]
    (Drafted V n a links r true D) := by
  refine .run rests_drafted (fun _ _ _ part => part.elim) (fun fs fs' drafted whole => ?_)
  obtain ⟨l, content, walk, found, rfl⟩ : Enables (path (objectFile n (a.stageDir n) r)) fs fs' :=
    whole
  obtain rfl := Walk.eq_of_clear drafted.clear walk
  obtain ⟨_, content', found', fact⟩ := id drafted
  obtain rfl : content = content' := by simpa using found.symm.trans found'
  exact drafted.update fact

/-- An object that was there already: the file goes. -/
theorem lines_unlink : Lines V n (stageTrap n a) (Stored V n a links r)
    [.run (.unlink (path (objectFile n (a.stageDir n) r)))] (Stored V n a links r) := by
  refine .run rests_stored (fun _ _ _ part => part.elim) (fun fs fs' stored whole => ?_)
  obtain ⟨l, node, place, found, other, rfl⟩ :
    Unlinks (path (objectFile n (a.stageDir n) r)) fs fs' := whole
  obtain ⟨staged, content, there⟩ := stored
  obtain rfl : l = objectFile n (a.stageDir n) r := Place.eq_of_firm staged.clear.firm place
  have promises : Promises V n fs (Function.update fs (objectFile n (a.stageDir n) r) none) :=
    .update staged.orderly (.of_owner owner_objectFile _)
  refine ⟨⟨staged.update_plain promises ?_ nofun, content,
    promises.appends _ _ _ _ there⟩, promises⟩
  rw [found]
  simpa using other

/-- A new object: the file becomes the object, with its digest and sealed. -/
theorem lines_move : Lines V n (stageTrap n a)
    (Drafted V n a links r true fun content => V.digest content = r.digest)
    [.run (.move (path (objectFile n (a.stageDir n) r)) (path (object r)))]
    (Stored V n a links r) := by
  refine .run rests_drafted (fun _ _ _ part => part.elim) (fun fs fs' drafted whole => ?_)
  obtain ⟨staged, content, found, digest⟩ := drafted
  have digest' : V.digest content = objectDir r.digest ++ objectName r.digest :=
    digest.trans (objectDir_append_objectName r.digest).symm
  have clear : Clear fs (object r) := staged.orderly.clear_object (objectDir_ne r.digest)
  obtain ⟨rfl, first, second⟩ := promises_of_move staged.orderly whole staged.clear.firm
    owner_objectFile found nofun clear (staged.orderly.object_ne_dir _ _) (fits_object digest') rfl
  have other : fs (objectFile n (a.stageDir n) r) ≠ some .dir := by
    rw [found]
    exact nofun
  have staged' := staged.update_plain first other nofun
  exact ⟨⟨staged'.update_plain second (first.orderly.object_ne_dir _ _) nofun, content,
    Function.update_self ..⟩, first.trans second⟩

/-- The tree gets a link to the object. -/
theorem lines_object_link (apart : ∀ p ∈ links, ¬p <+: names r.path) :
    Lines V n (stageTrap n a) (Stored V n a links r)
      [.run (.link (.root :: path (object r)) (some (.text (objectName r.digest)))
        (path (treePath (a.stageDir n) r)))] (Staged V (a.stageDir n) links) := by
  refine .run rests_stored (fun _ _ _ part => part.elim) (fun fs fs' stored made => ?_)
  obtain ⟨staged, content, found⟩ := stored
  have leads : ToObject fs (.root :: path (object r)) :=
    ⟨_, _, content, objectDir_ne r.digest, rfl, found⟩
  exact staged.link apart (List.Subset.refl _) (.inl leads) made

/-- The lines for a blob. -/
theorem blobLines_lines (apart : ∀ p ∈ links, ¬p <+: names r.path) :
    Lines V n (stageTrap n a) (Staged V (a.stageDir n) links) (blobLines n (a.stageDir n) r)
      (Staged V (a.stageDir n) links) := by
  have shown : ∀ fs, Drafted V n a links r false (fun content => V.digest content = r.digest) fs →
      Exists fs (path (object r)) → Stored V n a links r fs := by
    intro fs drafted there
    obtain ⟨l, walk, found⟩ := there
    obtain rfl := Walk.eq_of_clear (drafted.1.orderly.clear_object (objectDir_ne r.digest)) walk
    obtain ⟨node, found⟩ := Option.ne_none_iff_exists'.mp found
    obtain ⟨content, rfl, _⟩ := (drafted.1.orderly _ _ found).object _ _ rfl
    exact ⟨drafted.1, content, found⟩
  refine lines_mktemp.cons (lines_write.cons (lines_digest.cons (lines_objectDir.cons ?_)))
  refine (Block.cond rests_drafted shown (fun _ drafted _ => drafted) lines_unlink ?_).cons ?_
  · exact lines_enable.cons lines_move
  · exact lines_object_link apart

/-- The links that the tree may have after a record. -/
def linksAfter (links : List Location) (r : Record α) : List Location :=
  if r.objectType = "blob" ∧ r.mode = "120000" then names r.path :: links else links

/-- The body of the loop. -/
theorem recordLines_lines (apart : r.objectType = "blob" → ∀ p ∈ links, ¬p <+: names r.path)
    (target : r.objectType = "blob" → r.mode = "120000" → isOption r.target = false) :
    Lines V n (stageTrap n a) (Staged V (a.stageDir n) links) (recordLines n (a.stageDir n) r)
      (Staged V (a.stageDir n) (linksAfter links r)) := by
  have dirs (blob : r.objectType = "blob") : Lines V n (stageTrap n a)
      (Staged V (a.stageDir n) links) [.run (.mkdirs [path (dirname (treePath (a.stageDir n) r))])]
      (Staged V (a.stageDir n) links) := by
    refine .run rests_staged (fun fs fs' staged part => ?_) (fun fs fs' staged whole => ?_)
    · obtain ⟨p, member, made⟩ :
        ∃ p ∈ [path (dirname (treePath (a.stageDir n) r))], MakesDir p fs fs' := part
      obtain rfl := List.mem_singleton.mp member
      exact staged.makesDirname (apart blob) made
    · obtain ⟨rfl, _⟩ : fs' = fs ∧ _ := whole
      exact ⟨staged, .refl staged.orderly⟩
  unfold recordLines
  split
  · next other =>
    rw [linksAfter, if_neg fun ⟨blob, _⟩ => other blob]
    exact .nil fun _ staged => staged
  next blob =>
  have blob := not_not.mp blob
  split
  · exact lines_exit rests_staged
  refine (dirs blob).cons ?_
  split
  · next mode =>
    have link : linkTarget (a.stageDir n) r =
        .link (parse r.target) (baseName r.target) (path (treePath (a.stageDir n) r)) :=
      if_neg (by simp [target blob mode])
    rw [linksAfter, if_pos ⟨blob, mode⟩, link]
    refine .run rests_staged (fun _ _ _ part => part.elim) (fun fs fs' staged made => ?_)
    exact staged.link (apart blob) (List.subset_cons_self _ _) (.inr List.mem_cons_self) made
  · next mode =>
    rw [linksAfter, if_neg fun ⟨_, link⟩ => mode link]
    exact blobLines_lines (apart blob)

/-- No record lies at or below a symbolic link that comes before it. -/
def Treelike (records : List (Record α)) : Prop :=
  records.Pairwise fun r r' => r.objectType = "blob" → r.mode = "120000" →
    r'.objectType = "blob" → ¬names r.path <+: names r'.path

/-- The inputs of a fetch that cannot lead a command astray. -/
structure Tame (a : Fetch α) : Prop where
  url : isOption a.gitUrl = false
  targets : ∀ r ∈ a.records, r.objectType = "blob" → r.mode = "120000" → isOption r.target = false
  treelike : Treelike a.records

/-- The loop: after every record the links of the tree are those of the records so far. -/
theorem records_lines {records : List (Record α)} (treelike : Treelike records)
    (targets : ∀ r ∈ records, r.objectType = "blob" → r.mode = "120000" →
      isOption r.target = false)
    (apart : ∀ r ∈ records, r.objectType = "blob" → ∀ p ∈ links, ¬p <+: names r.path) :
    Lines V n (stageTrap n a) (Staged V (a.stageDir n) links)
      (records.flatMap (recordLines n (a.stageDir n)))
      fun fs => ∃ links, Staged V (a.stageDir n) links fs := by
  induction records generalizing links with
  | nil => exact .nil fun fs staged => ⟨links, staged⟩
  | cons r records ih =>
    obtain ⟨later, treelike⟩ := List.pairwise_cons.mp treelike
    obtain ⟨target, targets⟩ := List.forall_mem_cons.mp targets
    rw [List.flatMap_cons]
    refine (recordLines_lines (apart r List.mem_cons_self) target).append
      (ih treelike targets fun r' member blob p => ?_)
    unfold linksAfter
    split
    · next link =>
      intro among
      rcases List.mem_cons.mp among with rfl | among
      · exact later r' member link.1 link.2 blob
      · exact apart r' (List.mem_cons_of_mem _ member) blob p among
    · exact apart r' (List.mem_cons_of_mem _ member) blob p

end Records

section Tail

/-- The tree is put in its place, under a name of its own. -/
theorem promises_of_move_tree {links : List Location} {s : String}
    (staged : Staged V (a.stageDir n) links fs)
    (moved : Moves (path (a.stageDir n ++ [.text "tree"])) (path (trees a.slot ++ [.text s]))
      fs fs') :
    Promises V n fs fs' := by
  have clear := staged.orderly.clear (fixed_trees a.slot s)
  obtain ⟨node, x, found, place, done⟩ := moved.inv staged.clear.firm clear.firm
  obtain rfl : node = .dir := by simpa using found.symm.trans staged.tree
  obtain ⟨_, rfl⟩ := done.resolve_left fun ⟨other, _⟩ => other rfl
  obtain ⟨tail, rfl⟩ : ∃ tail, x = trees a.slot ++ [.text s] ++ tail := by
    rcases place with here | ⟨_, inside⟩
    · exact ⟨[], by simpa using here⟩
    · exact ⟨_, inside⟩
  refine .of_changes staged.orderly fun y => ?_
  unfold moveTree
  split
  · next inside =>
    obtain ⟨rest, rfl⟩ := inside
    rw [List.drop_left, List.append_assoc _ tail]
    cases together : tail ++ rest with
    | nil =>
      obtain ⟨rfl, rfl⟩ := List.append_eq_nil_iff.mp together
      rw [List.append_nil, List.append_nil, staged.tree]
      exact .inr (Room.change (.inl (fixed_trees a.slot s)))
    | cons y more =>
      rw [List.append_assoc]
      exact .inr (.of_common (.inr ⟨a.slot, List.prefix_append _ _⟩) (free_tree a.slot s y more) _)
  split
  · next inside =>
    obtain ⟨rest, rfl⟩ := inside
    exact .inr (.of_owner (by simp) _)
  · exact .inl rfl

/-- While the tree is removed, the staging directory is there. -/
theorem lines_prune_tree (a : Fetch α) : Lines V n (stageTrap n a)
    (fun fs => Orderly V fs ∧ fs (a.stageDir n) = some .dir)
    [.run (.prune [path (a.stageDir n ++ [.text "tree"])])] (Orderly V) := by
  have rest : Rests (effects V) (Relies V n) (Promises V n) (stageTrap n a)
      fun fs => Orderly V fs ∧ fs (a.stageDir n) = some .dir := by
    refine rests cleans_stageTrap (fun _ holds => holds.1) fun fs fs' ⟨_, isDir⟩ step => ?_
    have own := step.own _ (own_stageDir a n [])
    rw [List.append_nil] at own
    exact ⟨step.orderly, own.trans isDir⟩
  refine .run rest (fun fs fs' ⟨orderly, isDir⟩ part => ?_) (fun fs fs' ⟨orderly, _⟩ whole => ?_)
  · obtain ⟨p, member, pruned⟩ :
      ∃ p ∈ [path (a.stageDir n ++ [Name.text "tree"])], Prunes p fs fs' := part
    obtain rfl := List.mem_singleton.mp member
    have clear := clear_stageDir orderly isDir
    have promises : Promises V n fs fs' := promises_of_prunes orderly pruned clear.firm (by simp)
    obtain ⟨d, y, place, ⟨tail, rfl⟩, _, rfl⟩ := pruned
    obtain rfl := Place.eq_of_firm clear.firm place
    refine ⟨⟨promises.orderly, ?_⟩, promises⟩
    rw [Function.update_of_ne (by simp), isDir]
  · obtain ⟨rfl, _⟩ : fs' = fs ∧ _ := whole
    exact ⟨orderly, .refl orderly⟩

/-- The lines after the loop. -/
theorem fetchTail_lines (a : Fetch α) : Lines V n (stageTrap n a)
    (fun fs => ∃ links, Staged V (a.stageDir n) links fs) (fetchTail V n a) (Orderly V) := by
  have rest : Rests (effects V) (Relies V n) (Promises V n) (stageTrap n a)
      fun fs => ∃ links, Staged V (a.stageDir n) links fs := by
    refine rests cleans_stageTrap (fun _ ⟨_, staged⟩ => staged.orderly)
      fun _ _ ⟨links, staged⟩ step => ?_
    exact ⟨links, staged.env step⟩
  have move : Lines V n (stageTrap n a) (fun fs => ∃ links, Staged V (a.stageDir n) links fs)
      [.run (.move (path (a.stageDir n ++ [.text "tree"]))
        (path (trees a.slot ++ [.text a.revision])))]
      (Orderly V) := by
    refine .run rest (fun _ _ _ part => part.elim) fun fs fs' ⟨links, staged⟩ moved => ?_
    have promises := promises_of_move_tree staged moved
    exact ⟨promises.orderly, promises⟩
  have write : Lines V n (stageTrap n a) (Orderly V)
      [.run (.write (V.text (a.gitUrl ++ "\n"))
        (path (revisions a.slot ++ [.text (a.revision ++ ".source")])))] (Orderly V) := by
    refine lines_orderly cleans_stageTrap fun fs fs' orderly does => ?_
    obtain ⟨content, l, walk, _, rfl⟩ : ∃ content,
        Writes content (path (revisions a.slot ++ [Name.text (a.revision ++ ".source")])) fs fs' :=
      does.elim id fun whole => ⟨_, whole⟩
    have fixed := fixed_revisions a.slot (a.revision ++ ".source")
    obtain rfl := Walk.eq_of_clear (orderly.clear fixed) walk
    exact .update orderly (.of_unowned (.of_fixed fixed nofun) fixed.owner)
  have relink : Lines V n (stageTrap n a) (Orderly V)
      [.run (.relink [.down (.text "trees"), .down (.text a.revision)] (some (.text a.revision))
        (path (destination a.slot ++ [.text "current"])))] (Orderly V) := by
    refine lines_orderly cleans_stageTrap fun fs fs' orderly does => ?_
    obtain ⟨l, l', place, goes, rfl⟩ := does.resolve_left id
    obtain rfl := Place.eq_of_firm (orderly.clear (fixed_destination a.slot)).firm place
    obtain ⟨tail, rfl, unowned⟩ : ∃ tail, l' = destination a.slot ++ .text "current" :: tail ∧
        owner tail = none := by
      rcases goes with ⟨_, rfl⟩ | ⟨_, m, named, rfl, _⟩
      · exact ⟨[], rfl, rfl⟩
      · obtain rfl := Option.some_inj.mp named
        exact ⟨[.text a.revision], by simp, rfl⟩
    exact .update orderly (.of_unowned (.of_free (free_destination (by simp) (by simp)) _)
      (by simpa [owner] using unowned))
  have clean : Lines V n (stageTrap n a) (Orderly V) [.run (.prune [path (a.stageDir n)])]
      (Orderly V) :=
    lines_orderly cleans_stageTrap fun fs fs' orderly does =>
      (cleans_stageTrap _ List.mem_cons_self).promises orderly does
  refine (lines_check rest fun _ ⟨_, staged⟩ => staged.orderly).cons ?_
  refine (Block.cond rest (fun _ holds _ => ?_) (fun _ holds _ => holds)
    (lines_prune_tree a) move).cons ?_
  · obtain ⟨_, staged⟩ := holds
    exact ⟨staged.orderly, staged.isDir⟩
  exact write.cons (relink.cons clean)

/-- The first directory of the tree. -/
theorem lines_tree (a : Fetch α) : Lines V n (stageTrap n a) (Fresh V (a.stageDir n))
    [.run (.mkdirs [path (a.stageDir n ++ [.text "tree"])])] (Staged V (a.stageDir n) []) := by
  have rest : Rests (effects V) (Relies V n) (Promises V n) (stageTrap n a)
      (Fresh V (a.stageDir n)) :=
    rests cleans_stageTrap (fun _ fresh => fresh.orderly) fun _ _ fresh step => fresh.env step
  have clear : ∀ fs, Fresh V (a.stageDir n) fs → Clear fs (a.stageDir n ++ [.text "tree"]) :=
    fun fs fresh => (clear_stageDir fresh.orderly fresh.isDir).concat (fresh.plain _)
  refine .run rest (fun fs fs' fresh part => ?_) (fun fs fs' fresh whole => ?_)
  · obtain ⟨p, member, made⟩ :
      ∃ p ∈ [path (a.stageDir n ++ [Name.text "tree"])], MakesDir p fs fs' := part
    obtain rfl := List.mem_singleton.mp member
    obtain ⟨y, nothing, rfl, promises⟩ := promises_of_makesDir fresh.orderly made
      (fun q x start => ((clear fs fresh).mono ((List.prefix_append q [x]).trans start)).firm)
      (fun q x start => room_stage start)
    have kept : ∀ l, fs l = some .dir → Function.update fs y (some .dir) l = some .dir := by
      intro l isDir
      have other : l ≠ y := by
        intro same
        rw [same, nothing] at isDir
        exact absurd isDir nofun
      rw [Function.update_of_ne other, isDir]
    refine ⟨⟨promises.orderly, kept _ fresh.isDir, fun below => ?_⟩, promises⟩
    by_cases here : a.stageDir n ++ below = y
    · rw [here, Function.update_self]
      exact id
    · rw [Function.update_of_ne here]
      exact fresh.plain below
  · obtain ⟨rfl, made⟩ : fs' = fs ∧ ∀ p ∈ [path (a.stageDir n ++ [Name.text "tree"])], IsDir fs p :=
      whole
    have isDir := (made _ List.mem_cons_self).of_firm (clear fs' fresh).firm
    refine ⟨⟨fresh.orderly, fresh.isDir, isDir, fun below target link => ?_⟩, .refl fresh.orderly⟩
    have plain := fresh.plain (.text "tree" :: below)
    rw [link] at plain
    exact absurd trivial plain

/-- Every step of `firmware_fetch` keeps its promise. -/
theorem firmwareFetch_guarded (tame : Tame a) (orderly : Orderly V fs) :
    Guarded (effects V) (Relies V n) (Promises V n) (start (firmwareFetch V n a)) fs := by
  refine fetchHead_lines tame.url _ none fs orderly fun fs fresh => ?_
  refine .setTrap_stable (Fresh V (a.stageDir n)) fresh (fun _ _ fresh step => fresh.env step)
    fun fs fresh => ?_
  have body := (lines_tree (V := V) (n := n) a).append
    ((records_lines tame.treelike tame.targets
      fun _ _ _ p among => absurd among List.not_mem_nil).append (fetchTail_lines a))
  have body := body [.trap []] none fs fresh fun fs orderly =>
    .setTrap_stable (Orderly V) orderly (fun _ _ _ step => step.orderly)
      fun fs _ => .exit fun trapped => absurd rfl trapped
  simpa [stageTrap] using body

end Tail

end Initos.Firmware
