import Initos.Firmware.Runs
import Initos.Lib.Completion

/-!
# What a completed run has stored

A run of `firmware_fetch` or `import_oci` that completes has put every object it was given into
the store, whatever other runs have done in between, and there the objects stay.
-/

namespace Initos.Firmware

open LiveFs Script

variable {α : Type} {V : Content α} {fs fs' : Fs α}

/-- The objects of a Git tree: its blobs that are no links. -/
def blobs (records : List (Record α)) : List (String × String) :=
  (records.filter fun r => r.objectType = "blob" ∧ r.mode ≠ "120000").map fun r =>
    (objectDir r.digest, objectName r.digest)

/-- The two names of a path that has two. -/
def twoNames : Location → Option (String × String)
  | [.text u, .text v] => some (u, v)
  | _ => none

/-- The objects of an image. A file with a digest for its only name is put beside them. -/
def imported (relatives : List String) : List (String × String) :=
  relatives.filterMap fun relative => twoNames (names relative)

/-- What a run is started for. -/
inductive Job (α : Type) where
  | fetch (a : Fetch α)
  | import (a : Import)

namespace Job

/-- The lines that the run executes. -/
def script (V : Content α) (n : Nat) : Job α → List (Line (Cmd α) Test)
  | .fetch a => firmwareFetch V n a
  | .import a => importOci n a

/-- The condition on the arguments, for either script. -/
def Tame : Job α → Prop
  | .fetch a => Firmware.Tame a
  | .import a => ∀ relative ∈ a.relatives, '\n' ∉ relative.toList

/-- The objects that the run is to store. -/
def objects : Job α → List (String × String)
  | .fetch a => blobs a.records
  | .import a => imported a.relatives

end Job

/-- An object that is sealed and has the digest of its path. -/
def InStore (V : Content α) (fs : Fs α) (o : String × String) : Prop :=
  ∃ content, fs (objectAt o.1 o.2) = some (.file content true) ∧ V.digest content = o.1 ++ o.2

/-- What every step of a run keeps. -/
def Grows (V : Content α) (fs fs' : Fs α) : Prop :=
  (Orderly V fs → Orderly V fs') ∧ Appends fs fs'

/-- Objects stay in the store. -/
theorem inStore_of_grows {o : String × String} (stored : InStore V fs o) (grows : Grows V fs fs') :
    InStore V fs' o := by
  obtain ⟨content, found, digest⟩ := stored
  exact ⟨content, grows.2 _ _ _ _ found, digest⟩

/-- What is in the store of an orderly tree is sealed and has its digest. -/
theorem Orderly.inStore (orderly : Orderly V fs) {o : String × String}
    (there : fs (objectAt o.1 o.2) ≠ none) : InStore V fs o := by
  obtain ⟨node, found⟩ := Option.ne_none_iff_exists'.mp there
  obtain ⟨content, rfl, digest⟩ := (orderly _ _ found).object o.1 o.2 rfl
  exact ⟨content, found, digest⟩

/-- So is what `[ -e ]` finds there. -/
theorem inStore_of_exists (orderly : Orderly V fs) {o : String × String} (other : o.1 ≠ "objects")
    (there : Exists fs (path (objectAt o.1 o.2))) : InStore V fs o := by
  obtain ⟨l, walk, found⟩ := there
  obtain rfl := Walk.eq_of_clear (orderly.clear_object other) walk
  exact orderly.inStore found

/-- What is moved to the place of an object is there. -/
theorem inStore_of_moves (orderly : Orderly V fs) (orderly' : Orderly V fs') {o : String × String}
    (other : o.1 ≠ "objects") {src : Path} (moved : Moves src (path (objectAt o.1 o.2)) fs fs') :
    InStore V fs' o := by
  obtain ⟨front, n, dest, _, goes, l, l', node, _, found, place, done⟩ := moved
  have here : l' = objectAt o.1 o.2 := by
    rcases goes.place place (orderly.clear_object other).firm with here | ⟨isDir, _⟩
    · exact here
    · exact absurd isDir (orderly.object_ne_dir _ _)
  subst here
  refine orderly'.inStore ?_
  rcases done with ⟨_, _, rfl⟩ | ⟨_, _, _, _, rfl⟩
  · rw [Function.update_self]
    exact Option.some_ne_none node
  · rw [moveTree, if_pos List.prefix_rfl, List.drop_length, List.append_nil, found]
    exact Option.some_ne_none node

/-! ## Lines -/

section

variable {n : Nat} {trap : List (Cmd α)} {P : Fs α → Prop}

/-- Lines of a script that lead from `P` to `Q` among runs that let the store grow. -/
abbrev Reaching (V : Content α) (trap : List (Cmd α)) (P : Fs α → Prop)
    (lines : List (Line (Cmd α) Test)) (Q : Fs α → Prop) : Prop :=
  Leads ((effects V).within (Grows V)) (Grows V) trap P lines Q

/-- The store is in order and has some objects already. -/
def Holding (V : Content α) (os : List (String × String)) (fs : Fs α) : Prop :=
  Orderly V fs ∧ ∀ o ∈ os, InStore V fs o

theorem Holding.grows {os : List (String × String)} (holding : Holding V os fs)
    (grows : Grows V fs fs') : Holding V os fs' :=
  ⟨grows.1 holding.1, fun o member => inStore_of_grows (holding.2 o member) grows⟩

variable {os : List (String × String)} {o : String × String}

/-- Lines that store nothing. -/
theorem reaching_keep (lines : List (Line (Cmd α) Test)) (plain : untrapped lines = true) :
    Reaching V trap (Holding V os) lines (Holding V os) :=
  .keep (fun _ _ holding grows => holding.grows grows)
    (fun _ _ _ holding part => holding.grows part.2)
    (fun _ _ _ holding whole => holding.grows whole.2) lines plain

theorem reaching_step (c : Cmd α) : Reaching V trap (Holding V os) [.run c] (Holding V os) :=
  reaching_keep [.run c] (by simp [untrapped])

/-- A command after which the object is stored. -/
theorem reaching_run {c : Cmd α} (stores : ∀ fs fs', Orderly V fs → Orderly V fs' →
    whole V c fs fs' → InStore V fs' o) :
    Reaching V trap (Holding V os) [.run c] (Holding V (o :: os)) := by
  refine .run (fun _ _ holding grows => holding.grows grows)
    (fun _ _ holding part => holding.grows part.2) fun fs fs' holding done => ?_
  have after := holding.grows done.2
  refine ⟨after.1, List.forall_mem_cons.mpr ⟨?_, after.2⟩⟩
  exact stores fs fs' holding.1 after.1 done.1

/-- Where the object exists, it is stored already. -/
theorem reaching_exists {lines more : List (Line (Cmd α) Test)} (other : o.1 ≠ "objects")
    (plain : untrapped lines = true)
    (no : Reaching V trap (Holding V os) more (Holding V (o :: os))) :
    Reaching V trap (Holding V os) [.cond (.exist (path (objectAt o.1 o.2))) lines more]
      (Holding V (o :: os)) := by
  refine .cond (fun _ _ holding grows => holding.grows grows) ?_ ?_
  · refine (reaching_keep lines plain).mono (fun fs both => ?_) fun _ holding => holding
    exact ⟨both.1.1, List.forall_mem_cons.mpr ⟨inStore_of_exists both.1.1 other both.2, both.1.2⟩⟩
  · exact no.mono (fun _ both => both.1) fun _ holding => holding

/-! ## `firmware_fetch` -/

/-- After the lines for a blob, it is in the store. -/
theorem blobLines_reaching (stage : Location) (r : Record α) :
    Reaching V trap (Holding V os) (blobLines n stage r)
      (Holding V ((objectDir r.digest, objectName r.digest) :: os)) := by
  have other := objectDir_ne r.digest
  refine (reaching_step _).cons <| (reaching_step _).cons <| (reaching_step _).cons <|
    (reaching_step _).cons ?_
  refine .cons (Q := Holding V ((objectDir r.digest, objectName r.digest) :: os)) ?_
    (reaching_step _)
  refine reaching_exists other (by simp [untrapped]) ?_
  refine (reaching_step _).cons (reaching_run fun fs fs' orderly orderly' done => ?_)
  have moved : Moves (path (objectFile n stage r)) (path (object r)) fs fs' := done
  exact inStore_of_moves orderly orderly' other moved

/-- After the lines for a record, its blob is, if it has one. -/
theorem recordLines_reaching (stage : Location) (r : Record α) :
    Reaching V trap (Holding V os) (recordLines n stage r) (Holding V (blobs [r] ++ os)) := by
  unfold recordLines
  by_cases blob : r.objectType = "blob"
  · rw [if_neg (not_not_intro blob)]
    by_cases unsafePath : unsafePath r.path
    · rw [if_pos unsafePath]
      exact .run (fun _ _ holding grows => holding.grows grows) (fun _ _ _ part => part.1.elim)
        fun _ _ _ done => done.1.elim
    · rw [if_neg unsafePath]
      refine (reaching_step _).cons ?_
      by_cases link : r.mode = "120000"
      · rw [if_pos link]
        have none : blobs [r] = [] := by simp [blobs, link]
        rw [none]
        exact reaching_step _
      · rw [if_neg link]
        have one : blobs [r] = [(objectDir r.digest, objectName r.digest)] := by
          simp [blobs, blob, link]
        rw [one]
        exact blobLines_reaching stage r
  · rw [if_pos blob]
    have none : blobs [r] = [] := by simp [blobs, blob]
    rw [none]
    exact .nil fun _ holding => holding

/-- After the loop, the blobs of all records are. -/
theorem records_reaching (stage : Location) (records : List (Record α)) :
    Reaching V trap (Holding V os) (records.flatMap (recordLines n stage))
      (Holding V (blobs records ++ os)) := by
  induction records generalizing os with
  | nil => exact .nil fun _ holding => holding
  | cons r rest ih =>
    refine .append (recordLines_reaching stage r) ?_
    refine ih.mono (fun _ holding => holding) fun fs holding =>
      ⟨holding.1, fun o member => holding.2 o ?_⟩
    have split : blobs (r :: rest) = blobs [r] ++ blobs rest := by
      rw [blobs, ← List.singleton_append, List.filter_append, List.map_append, blobs, blobs]
    rw [split] at member
    simp only [List.mem_append] at member ⊢
    tauto

/-! ## `import_oci` -/

/-- After the lines for a file, it is in the store. -/
theorem fileLines_reaching (object : Path) {relative : String} (proper : Proper relative) :
    Reaching V trap (Holding V os) (fileLines ⟨object, relative⟩)
      (Holding V (imported [relative] ++ os)) := by
  unfold fileLines
  dsimp only
  split
  · exact .run (fun _ _ holding grows => holding.grows grows) (fun _ _ _ part => part.1.elim)
      fun _ _ _ done => done.1.elim
  · -- the digest is the one that the path says, so the path has one slash or none
    refine .cons (Q := fun fs => Holding V os fs ∧ ∃ content, V.digest content = expected relative)
      ?_ ?_
    · refine .run (fun _ _ holding grows => holding.grows grows)
        (fun _ _ holding part => holding.grows part.2) fun fs fs' holding done => ?_
      obtain ⟨⟨_, l, content, verity, _, _, digest⟩, grows⟩ := done
      exact ⟨holding.grows grows, content, digest⟩
    intro T rest fs before next
    obtain ⟨holding, content, digest⟩ := before
    refine Leads.mono (P := Holding V os) (Q := Holding V (imported [relative] ++ os)) ?_
      (fun _ holding => holding) (fun _ holding => holding) T rest fs holding next
    rcases names_of_digest proper digest with ⟨s, named, _⟩ | ⟨u, v, named, _, other, _⟩
    · have none : imported [relative] = [] := by simp [imported, named, twoNames]
      rw [none]
      exact reaching_keep _ (by simp [untrapped])
    · have one : imported [relative] = [(u, v)] := by simp [imported, named, twoNames]
      rw [one, named]
      refine reaching_exists (o := (u, v)) other (by simp [untrapped]) ?_
      refine (reaching_step _).cons <| (reaching_step _).cons ?_
      refine reaching_run fun fs fs' orderly orderly' done => ?_
      have moved : Moves object (path (objectAt u v)) fs fs' := done
      exact inStore_of_moves orderly orderly' other moved

/-- After the loop, all files are. -/
theorem files_reaching (cwd base : Location) {relatives : List String}
    (proper : ∀ relative ∈ relatives, Proper relative)
    (noFeed : ∀ relative ∈ relatives, '\n' ∉ relative.toList) :
    Reaching V trap (Holding V os) ((relatives.flatMap (listed cwd base)).flatMap fileLines)
      (Holding V (imported relatives ++ os)) := by
  induction relatives generalizing os with
  | nil => exact .nil fun _ holding => holding
  | cons relative rest ih =>
    obtain ⟨first, others⟩ := List.forall_mem_cons.mp proper
    obtain ⟨firstFeed, othersFeed⟩ := List.forall_mem_cons.mp noFeed
    rw [List.flatMap_cons, listed_eq firstFeed, List.singleton_append, List.flatMap_cons]
    refine .append (fileLines_reaching _ first) ?_
    refine (ih others othersFeed).mono (fun _ holding => holding) fun fs holding =>
      ⟨holding.1, fun o member => holding.2 o ?_⟩
    have split : imported (relative :: rest) = imported [relative] ++ imported rest := by
      rw [imported, ← List.singleton_append, List.filterMap_append, imported, imported]
    rw [split] at member
    simp only [List.mem_append] at member ⊢
    tauto

/-! ## Whole runs -/

theorem untrapped_fetchHead (n : Nat) (a : Fetch α) : untrapped (fetchHead n a) = true := by
  unfold fetchHead
  split <;> simp [untrapped]

/-- A fetch that comes to its end has stored its blobs. -/
theorem fetch_ends (n : Nat) (a : Fetch α) (holding : Holding V [] fs) :
    Ends ((effects V).within (Grows V)) (Grows V) (Holding V (blobs a.records))
      (start (firmwareFetch V n a)) fs := by
  have grows {os : List (String × String)} (fs fs' : Fs α) (holding : Holding V os fs)
      (grows : Grows V fs fs') : Holding V os fs' := holding.grows grows
  refine reaching_keep _ (untrapped_fetchHead n a) _ _ fs holding fun fs holding => ?_
  refine Leads.ends_trap grows grows ?_ holding fun fs holding =>
    .exit fun x steps => stable_star grows holding steps
  refine .append ?_ (reaching_keep _ (by simp [fetchTail, untrapped]))
  refine (reaching_step _).cons ?_
  exact (records_reaching _ a.records).mono (fun _ holding => holding) fun fs holding =>
    ⟨holding.1, fun o member => holding.2 o (List.mem_append_left _ member)⟩

/-- An import that comes to its end has stored its files. -/
theorem import_ends (n : Nat) {a : Import}
    (noFeed : ∀ relative ∈ a.relatives, '\n' ∉ relative.toList) (holding : Holding V [] fs) :
    Ends ((effects V).within (Grows V)) (Grows V) (Holding V (imported a.relatives))
      (start (importOci n a)) fs := by
  have grows {os : List (String × String)} (fs fs' : Fs α) (holding : Holding V os fs)
      (grows : Grows V fs fs') : Holding V os fs' := holding.grows grows
  refine reaching_keep _ (by simp [importHead, untrapped]) _ _ fs holding fun fs holding => ?_
  refine Leads.ends_trap (Q := Holding V (imported a.relatives)) grows grows ?_ holding
    fun fs holding => ?_
  · refine .append (.append (Q := fun fs => Holding V [] fs ∧
      ∀ relative ∈ a.relatives, Proper relative) ?_ ?_) (reaching_step _)
    · refine (reaching_step _).cons <| (reaching_step _).cons ?_
      refine .run grows (fun _ _ holding part => holding.grows part.2) fun fs fs' holding done => ?_
      obtain ⟨⟨_, l, _, _, files, _⟩, growing⟩ := done
      exact ⟨holding.grows growing, fun relative member => (files relative member).1⟩
    · intro T rest fs before next
      obtain ⟨holding, proper⟩ := before
      refine files_reaching a.cwd (a.base n) proper noFeed T rest fs holding fun x after => ?_
      exact next x ⟨after.1, fun o member => after.2 o (List.mem_append_left _ member)⟩
  · exact reaching_step _ _ _ fs holding fun fs holding =>
      .exit fun x steps => stable_star grows holding steps

theorem job_ends {n : Nat} {job : Job α} (tame : job.Tame) (orderly : Orderly V fs) :
    Ends ((effects V).within (Grows V)) (Grows V) (Holding V job.objects)
      (start (job.script V n)) fs := by
  have holding : Holding V [] fs := ⟨orderly, fun o member => absurd member List.not_mem_nil⟩
  cases job with
  | fetch a => exact fetch_ends n a holding
  | «import» a => exact import_ends n tame holding

end

/-- Process `n` is started for the job, and the others for anything. -/
def StartsFor (V : Content α) (n : Nat) (job : Job α) (m : Nat)
    (script : List (Line (Cmd α) Test)) : Prop :=
  TameScripts V m script ∧ (m = n → script = job.script V n)

/-- What a process promises makes the store grow only. -/
theorem grows_of_promises {n : Nat} {fs fs' : Fs α} (promises : Promises V n fs fs') :
    Grows V fs fs' :=
  ⟨fun _ => promises.orderly, promises.appends⟩

section Sample

/-! An import of an image with one object. -/

/-- The arguments of the import of one object. -/
def sampleImport : Import := ⟨[], 0, 1, [zeroObject.1 ++ "/" ++ zeroObject.2]⟩

/-- The directories of the unpacked image. -/
def bundled : List (Location × Node Bool) :=
  [[.text "rootfs", .text "objects", .text "00"], [.text "rootfs", .text "objects"],
    [.text "rootfs"], []].map fun l => (sampleImport.bundleDir 0 ++ l, .dir)

/-- The store in which the import has made its layout directory. -/
def layouts : List (Location × Node Bool) := (sampleImport.layoutDir 0, .dir) :: shelves

/-- Where the image has the object. -/
def zeroSource : Location := sampleImport.base 0 ++ [.text zeroObject.1, .text zeroObject.2]

section Listed

variable {entries front back : List (Location × Node α)} {l x : Location} {node : Node α} {p : Path}

theorem remove_ofList (absent : ∀ e ∈ front ++ back, e.1 ≠ x) :
    Function.update (ofList (front ++ (x, node) :: back)) x none = ofList (front ++ back) := by
  funext y
  by_cases here : y = x
  · rw [here, Function.update_self]
    exact (ofList_eq_none absent).symm
  · rw [Function.update_of_ne here, ofList, ofList, List.lookup_append, List.lookup_append,
      List.lookup_cons, beq_eq_false_iff_ne.mpr here]

/-- Nothing is below an entry. -/
theorem ofList_below (absent : ∀ e ∈ front ++ back, ¬x <+: e.1) (y : Location) (start : x <+: y)
    (other : y ≠ x) : ofList (front ++ (x, node) :: back) y = none := by
  refine ofList_eq_none fun e member same => ?_
  subst same
  rcases List.mem_append.mp member with early | late
  · exact absent e (List.mem_append_left _ early) start
  · rcases List.mem_cons.mp late with rfl | late
    · exact other rfl
    · exact absent e (List.mem_append_right _ late) start

theorem removeEntry_ofList (absent : ∀ e ∈ front ++ back, ¬x <+: e.1) :
    Function.update (ofList (front ++ (x, node) :: back)) x none = ofList (front ++ back) :=
  remove_ofList fun e member same => absent e member (same ▸ List.prefix_rfl)

/-- Links are followed up to forty times. -/
theorem walk_of_forty {fs : Fs α} (walk : walkTo fs 40 [] p = some l) : Walk fs [] p l :=
  walk_of_walkTo walk

theorem place_ofList {n : Name} (walk : walkTo (ofList entries) 40 [] (path l) = some l)
    (isDir : ofList entries l = some .dir) : Place (ofList entries) (path (l ++ [n])) (l ++ [n]) :=
  ⟨path l, n, l, by simp [path], walk_of_walkTo walk, isDir, rfl⟩

/-- `rm -rf` removes an entry that has nothing below it. -/
theorem prunes_ofList (place : Place (ofList (front ++ (x, node) :: back)) p l) (below : l <+: x)
    (absent : ∀ e ∈ front ++ back, ¬x <+: e.1) :
    Prunes p (ofList (front ++ (x, node) :: back)) (ofList (front ++ back)) :=
  ⟨l, x, place, below, ofList_below absent, (removeEntry_ofList absent).symm⟩

/-- An entry that is new, below a directory where a tool works. -/
theorem ofList_cons_of_not {below : Location} (outside : ¬l <+: x) :
    ofList ((l ++ below, node) :: entries) x = ofList entries x := by
  rw [ofList, List.lookup_cons, beq_eq_false_iff_ne.mpr]
  · rfl
  · rintro rfl
    exact outside (List.prefix_append _ _)

end Listed

/-- The tree once the image is unpacked. -/
def unpacked (verity : Bool) : List (Location × Node Bool) :=
  (zeroSource, .file false verity) :: (bundled ++ layouts)

/-- The object of the image in the store. -/
def stored : List (Location × Node Bool) :=
  [(objectAt zeroObject.1 zeroObject.2, .file false true)]

theorem sampleHead_run {rest : List (Line (Cmd Bool) Test)} : Reaches (effects twoContents)
    (⟨importHead 0 sampleImport ++ rest, [], none⟩, ofList shelves)
    (⟨rest, [], none⟩, ofList layouts) := by
  have dirs : ∀ p ∈ [path composefs, path objects], IsDir (ofList shelves) p := by
    intro p member
    have computed : ∀ p ∈ [path composefs, path objects], isDirAt (ofList shelves) p = true := by
      decide
    exact isDir_of_isDirAt (computed p member)
  have layout : Creates .dir (path (sampleImport.layoutDir 0)) (ofList shelves) (ofList layouts) :=
    creates_ofList (l := composefs) (by decide) (by decide) (by decide)
  have bundle : Creates .dir (path (sampleImport.bundleDir 0)) (ofList layouts)
      (ofList ((sampleImport.bundleDir 0, .dir) :: layouts)) :=
    creates_ofList (l := composefs) (by decide) (by decide) (by decide)
  have absent : ∀ e ∈ [] ++ layouts, ¬sampleImport.bundleDir 0 <+: e.1 := by decide
  have removed : RemovesDir (path (sampleImport.bundleDir 0))
      (ofList ((sampleImport.bundleDir 0, .dir) :: layouts)) (ofList layouts) :=
    ⟨sampleImport.bundleDir 0, place_ofList (l := composefs) (by decide) (by decide), by decide,
      ofList_below absent, (removeEntry_ofList absent).symm⟩
  refine .head (.whole rfl) (.head (.whole ⟨rfl, dirs⟩) ?_)
  exact .head (.whole layout) (.head (.whole bundle) (.single (.whole removed)))

theorem sampleUnpack : whole twoContents (.unpack (path (sampleImport.bundleDir 0)))
    (ofList layouts) (ofList (unpacked false)) := by
  refine ⟨⟨sampleImport.bundleDir 0, walk_of_forty (by decide), fun x outside => ?_,
    .inr (by decide)⟩, sampleImport.bundleDir 0, walk_of_forty (by decide), by decide⟩
  rw [unpacked, zeroSource, Import.base, List.append_assoc, ofList_cons_of_not outside]
  simp only [bundled, List.map_cons, List.map_nil, List.cons_append, List.nil_append,
    ofList_cons_of_not outside]

theorem sampleFind : whole twoContents (.find (path (sampleImport.base 0)) sampleImport.relatives)
    (ofList (unpacked false)) (ofList (unpacked false)) := by
  have base : sampleImport.base 0 =
      (sampleImport.bundleDir 0 ++ [.text "rootfs"]) ++ [.text "objects"] := by simp [Import.base]
  have place : Place (ofList (unpacked false)) (path (sampleImport.base 0))
      (sampleImport.base 0) := by
    rw [base]
    exact place_ofList (by decide) (by decide)
  have named : names (zeroObject.1 ++ "/" ++ zeroObject.2) =
      [.text zeroObject.1, .text zeroObject.2] := by decide
  refine ⟨rfl, sampleImport.base 0, place, .inl (by decide), fun relative member => ?_,
    fun below found => ⟨_, List.mem_cons_self, ?_⟩⟩
  · obtain rfl := List.mem_singleton.mp member
    have proper : Proper (zeroObject.1 ++ "/" ++ zeroObject.2) := by
      unfold Proper
      decide
    have dirs : ∀ q ∈ [Name.text zeroObject.1, .text zeroObject.2].inits,
        q ≠ [.text zeroObject.1, .text zeroObject.2] →
        ofList (unpacked false) (sampleImport.base 0 ++ q) = some .dir := by decide
    rw [named]
    exact ⟨proper, fun q start => dirs q ((List.mem_inits _ _).mpr start), false, false, by decide⟩
  · obtain ⟨_, content, verity, file⟩ := found
    obtain ⟨front, back, same, _⟩ := List.lookup_eq_some_iff.mp file
    have only : ∀ e ∈ unpacked false, e.2 ≠ .dir → e.1 = zeroSource := by decide
    have member : (sampleImport.base 0 ++ below, .file content verity) ∈ unpacked false :=
      same ▸ List.mem_append_right _ List.mem_cons_self
    rw [named, ← List.append_cancel_left (only _ member (by simp))]

/-- The object goes into the store. -/
theorem sampleStore_run {rest : List (Line (Cmd Bool) Test)} {trap : List (Cmd Bool)} :
    Reaches (effects twoContents)
      (⟨fileLines ⟨path zeroSource, zeroObject.1 ++ "/" ++ zeroObject.2⟩ ++ rest, trap, none⟩,
        ofList (unpacked false))
      (⟨rest, trap, none⟩, ofList (stored ++ (bundled ++ layouts))) := by
  have long : ¬(expected (zeroObject.1 ++ "/" ++ zeroObject.2)).length ≠ 64 := by decide
  have walk (verity : Bool) : Walk (ofList (unpacked verity)) [] (path zeroSource) zeroSource := by
    cases verity <;> exact walk_of_forty (by decide)
  have goal (verity : Bool) : Walk (ofList (unpacked verity)) []
      (path (objectAt zeroObject.1 zeroObject.2)) (objectAt zeroObject.1 zeroObject.2) := by
    cases verity <;> exact walk_of_forty (by decide)
  have only : ∀ e ∈ [] ++ (bundled ++ layouts), e.1 ≠ zeroSource := by decide
  have removed (verity : Bool) : Function.update (ofList (unpacked verity)) zeroSource none =
      ofList (bundled ++ layouts) :=
    remove_ofList only
  have named : objects ++ names (zeroObject.1 ++ "/" ++ zeroObject.2) =
      objectAt zeroObject.1 zeroObject.2 := by decide
  have digest : whole twoContents (.digest (path zeroSource)
      (expected (zeroObject.1 ++ "/" ++ zeroObject.2))) (ofList (unpacked false))
      (ofList (unpacked false)) :=
    ⟨rfl, zeroSource, false, false, walk false, by decide, by decide⟩
  have absent : ¬Exists (ofList (unpacked false)) (path (objectAt zeroObject.1 zeroObject.2)) := by
    rintro ⟨l, led, there⟩
    rw [Walk.unique (goal false) led] at there
    exact there (by decide)
  have shelf : ∀ p ∈ [path (dirname (objectAt zeroObject.1 zeroObject.2))],
      IsDir (ofList (unpacked false)) p := by
    intro p member
    obtain rfl := List.mem_singleton.mp member
    exact isDir_of_isDirAt (by decide)
  have enabled : Enables (path zeroSource) (ofList (unpacked false)) (ofList (unpacked true)) := by
    have twice := Function.update_idem (a := zeroSource) none (some (.file false true))
      (ofList (unpacked false))
    rw [removed, update_ofList] at twice
    exact ⟨zeroSource, false, walk false, by decide, twice⟩
  have moved : Moves (path zeroSource) (path (objectAt zeroObject.1 zeroObject.2))
      (ofList (unpacked true)) (ofList (stored ++ (bundled ++ layouts))) := by
    have split : zeroSource = (sampleImport.base 0 ++ [.text zeroObject.1]) ++
      [.text zeroObject.2] := by decide
    have split' : objectAt zeroObject.1 zeroObject.2 = (objects ++ [.text zeroObject.1]) ++
      [.text zeroObject.2] := by decide
    have source : Place (ofList (unpacked true)) (path zeroSource) zeroSource := by
      rw [split]
      exact place_ofList (by decide) (by decide)
    have place : Place (ofList (unpacked true)) (path (objectAt zeroObject.1 zeroObject.2))
        (objectAt zeroObject.1 zeroObject.2) := by
      rw [split']
      exact place_ofList (by decide) (by decide)
    have noDir : ¬IsDir (ofList (unpacked true)) (path (objectAt zeroObject.1 zeroObject.2)) := by
      rintro ⟨l, led, isDir⟩
      rw [Walk.unique (goal true) led] at isDir
      exact absurd isDir (by decide)
    refine ⟨path (sampleImport.base 0 ++ [.text zeroObject.1]), .text zeroObject.2, _, by decide,
      .inr ⟨noDir, rfl⟩, _, _, .file false true, source, by decide, place,
      .inl ⟨nofun, by decide, ?_⟩⟩
    rw [removed, update_ofList, stored, List.singleton_append]
  rw [fileLines, if_neg long, named]
  refine .head (.whole digest) (.head (.no absent) (.head (.whole ⟨rfl, shelf⟩) ?_))
  exact .head (.whole enabled) (.single (.whole moved))

theorem sampleBody_run {rest : List (Line (Cmd Bool) Test)} {trap : List (Cmd Bool)} :
    Reaches (effects twoContents) (⟨importBody 0 sampleImport ++ rest, trap, none⟩, ofList layouts)
      (⟨rest, trap, none⟩, ofList (stored ++ (bundled ++ layouts))) := by
  have tool : WorksIn (path (sampleImport.layoutDir 0)) (ofList layouts) (ofList layouts) :=
    ⟨sampleImport.layoutDir 0, walk_of_forty (by decide), fun _ _ => rfl, .inl rfl⟩
  have noFeed : '\n' ∉ (zeroObject.1 ++ "/" ++ zeroObject.2).toList := by decide
  have source : path (sampleImport.base 0) ++ steps (zeroObject.1 ++ "/" ++ zeroObject.2) =
      path zeroSource := by decide
  have lines : (sampleImport.relatives.flatMap
      (listed sampleImport.cwd (sampleImport.base 0))).flatMap fileLines =
      (fileLines ⟨path zeroSource, zeroObject.1 ++ "/" ++ zeroObject.2⟩ :
        List (Line (Cmd Bool) Test)) := by
    rw [sampleImport, List.flatMap_singleton, listed_eq noFeed, List.flatMap_singleton]
    exact congrArg (fun p => fileLines ⟨p, _⟩) source
  rw [importBody, lines, List.append_assoc, List.append_assoc]
  refine .head (.whole tool) (.head (.whole sampleUnpack) (.head (.whole sampleFind) ?_))
  exact sampleStore_run.tail (.whole rfl)

theorem samplePrune_run {rest : List (Line (Cmd Bool) Test)} {trap : List (Cmd Bool)} :
    Reaches (effects twoContents)
      (⟨.run (.prune [path (sampleImport.layoutDir 0), path (sampleImport.bundleDir 0)]) :: rest,
        trap, none⟩, ofList (stored ++ (bundled ++ layouts)))
      (⟨rest, trap, none⟩, ofList (stored ++ shelves)) := by
  have below {back : List (Location × Node Bool)} {l : Location}
      (walk : walkTo (ofList (stored ++ (sampleImport.bundleDir 0 ++ l, .dir) :: back)) 40 []
        (path composefs) = some composefs)
      (isDir : ofList (stored ++ (sampleImport.bundleDir 0 ++ l, .dir) :: back) composefs =
        some .dir)
      (absent : ∀ e ∈ stored ++ back, ¬sampleImport.bundleDir 0 ++ l <+: e.1) :
      part (.prune [path (sampleImport.layoutDir 0), path (sampleImport.bundleDir 0)])
        (ofList (stored ++ (sampleImport.bundleDir 0 ++ l, .dir) :: back))
        (ofList (stored ++ back)) :=
    ⟨_, List.mem_cons_of_mem _ List.mem_cons_self,
      prunes_ofList (place_ofList walk isDir) (List.prefix_append _ _) absent⟩
  have layout : part (.prune [path (sampleImport.layoutDir 0), path (sampleImport.bundleDir 0)])
      (ofList (stored ++ layouts)) (ofList (stored ++ shelves)) :=
    ⟨_, List.mem_cons_self, prunes_ofList (place_ofList (l := composefs) (by decide) (by decide))
      List.prefix_rfl (by decide)⟩
  have pruned {x : Name} (absent : ∀ e ∈ stored ++ shelves, ¬composefs ++ [x] <+: e.1) :
      Pruned (ofList (stored ++ shelves)) (path (composefs ++ [x])) := by
    intro l place y start
    have dirs : ∀ q ∈ composefs.inits, ofList (stored ++ shelves) q = some .dir := by decide
    have firm : Firm (ofList (stored ++ shelves)) composefs := fun q start target link =>
      absurd ((dirs q ((List.mem_inits _ _).mpr start)).symm.trans link) nofun
    obtain rfl := Place.eq_of_firm firm place
    exact ofList_eq_none fun e member same => absent e member (same ▸ start)
  refine .head (.part (below (by decide) (by decide) (by decide))) ?_
  refine .head (.part (below (by decide) (by decide) (by decide))) ?_
  refine .head (.part (below (by decide) (by decide) (by decide))) ?_
  refine .head (.part (below (by decide) (by decide) (by decide))) ?_
  refine .head (.part layout) (.single (.whole ⟨rfl, fun p member => ?_⟩))
  rcases List.mem_cons.mp member with rfl | member
  · exact pruned (by decide)
  · obtain rfl := List.mem_singleton.mp member
    exact pruned (by decide)

end Sample

end Initos.Firmware
