import Initos.Firmware.FetchSteps
import Initos.Firmware.ImportSteps

/-!
# Runs that share the store

Any number of runs of `firmware_fetch` and `import_oci`, started, interleaved, failing and killed
at any moment. The store is sound and only grows in every run in which no Git tree has an entry
at or below one of its own symbolic links, no URL and no link target begins with `-`, and no
unpacked image has a line feed in a file name. Without this the scripts write through a link that
the Git tree has brought along, or take its text for options.
-/

namespace Initos.Firmware

open LiveFs Script
open Upgrade (Slot)

variable {α : Type} {V : Content α} {fs : Fs α}

/-- The scripts that may be started as process `n`. -/
def Scripts (V : Content α) (n : Nat) (script : List (Line (Cmd α) Test)) : Prop :=
  (∃ a, script = firmwareFetch V n a) ∨ ∃ a, script = importOci n a

/-- The scripts with inputs that cannot lead a command astray. -/
def TameScripts (V : Content α) (n : Nat) (script : List (Line (Cmd α) Test)) : Prop :=
  (∃ a, Tame a ∧ script = firmwareFetch V n a) ∨
    ∃ a : Import, (∀ relative ∈ a.relatives, '\n' ∉ relative.toList) ∧ script = importOci n a

/-- A tame script keeps its promises while the others keep theirs. -/
theorem guarded_of_tame {n : Nat} {script : List (Line (Cmd α) Test)}
    (starts : TameScripts V n script) (orderly : Orderly V fs) :
    Guarded (effects V) (Relies V n) (Promises V n) (start script) fs := by
  rcases starts with ⟨a, tame, rfl⟩ | ⟨a, noFeed, rfl⟩
  · exact firmwareFetch_guarded tame orderly
  · exact importOci_guarded noFeed orderly

/-- No promise removes or replaces an object. -/
theorem appends_of_promises {fs' : Fs α}
    (steps : Relation.ReflTransGen (fun x y => ∃ n, Promises V n x y) fs fs') : Appends fs fs' := by
  induction steps with
  | refl => exact fun _ _ _ _ found => found
  | tail _ step ih =>
    obtain ⟨_, promises⟩ := step
    exact fun a b content verity found =>
      promises.appends a b content verity (ih a b content verity found)

/-- In every run the tree is in order, and every object stays. -/
theorem orderly_of_reaches {s s' : Pool (Cmd α) Test (Fs α)}
    (sheltered : Sheltered (effects V) (Relies V) (Promises V) (Orderly V) s)
    (reaches : PoolReaches (effects V) (TameScripts V) s s') :
    Sheltered (effects V) (Relies V) (Promises V) (Orderly V) s' ∧ Appends s.world s'.world := by
  obtain ⟨sheltered', steps⟩ := sheltered.reaches
    (fun _ _ _ _ other promises => promises.relies other)
    (fun _ _ _ promises => promises.orderly)
    (fun _ _ _ starts orderly => guarded_of_tame starts orderly) reaches
  exact ⟨sheltered', appends_of_promises steps⟩

/-- The store is sound at every moment, and no object is removed or replaced later. -/
theorem store_append_only {s s' : Pool (Cmd α) Test (Fs α)} (orderly : Orderly V fs)
    (reaches : PoolReaches (effects V) (TameScripts V) (Pool.quiet fs) s)
    (later : PoolReaches (effects V) (TameScripts V) s s') :
    Sound V s.world ∧ Appends s.world s'.world := by
  obtain ⟨sheltered, _⟩ := orderly_of_reaches (.quiet orderly) reaches
  exact ⟨sheltered.1.sound, (orderly_of_reaches sheltered later).2⟩

section Sample

/-- Two contents, with two digests. -/
def twoContents : Content Bool where
  text s := s = ""
  digest content := String.ofList (List.replicate 64 (if content then '1' else '0'))
  digest_injective := by
    intro x y same
    have chars := congrArg String.toList same
    rw [String.toList_ofList, String.toList_ofList] at chars
    cases x <;> cases y <;> first | rfl | exact absurd chars (by decide)
  length_digest content := by simp
  hex_digest content := by
    intro c member
    rw [String.toList_ofList] at member
    obtain rfl := List.eq_of_mem_replicate member
    cases content <;> decide

/-- The record of a symbolic link. -/
def linkRecord (path target : String) : Record Bool :=
  ⟨"120000", "blob", path, false, target, "", 0⟩

/-- A commit id. -/
def zeroRevision : String := "0000000000000000000000000000000000000000"

/-- A fetch from a repository on this machine. -/
def sampleFetch (gitUrl : String) (records : List (Record Bool)) : Fetch Bool :=
  ⟨gitUrl, zeroRevision, .s101, [], 0, records⟩

/-- The directories that a fetch finds. -/
def sampleDirs : List (Location × Node Bool) :=
  [[], [.text "s"], [.text "s", .text "objects"], [.text "z"], img, composefs, objects, git,
    img ++ [.text "101"], destination .s101, revisions .s101, trees .s101,
    destination .s101 ++ [.text "objects"]].map fun l => (l, .dir)

/-- A fetch of a tree with an entry below one of its own links. -/
def straying : Fetch Bool :=
  sampleFetch "/s" [linkRecord "x" "/z/img/git",
    linkRecord "x/initos-firmware.git" "/z/img/composefs/objects"]

/-- The tree after the records, with a link in place of the repository. -/
def strayed : List (Location × Node Bool) :=
  (repo, .link (.root :: path objects)) ::
    (straying.stageDir 0 ++ [.text "tree", .text "x"], .link (.root :: path git)) ::
    (straying.stageDir 0 ++ [.text "tree"], .dir) :: (straying.stageDir 0, .dir) :: sampleDirs

theorem exists_of_isDir {p : Path} (isDir : IsDir fs p) : Exists fs p := by
  obtain ⟨l, walk, isDir⟩ := isDir
  refine ⟨l, walk, ?_⟩
  rw [isDir]
  exact nofun

section Listed

variable {entries : List (Location × Node α)} {l : Location} {x : Name}

/-- `mktemp` of a name that no entry has. -/
theorem creates_ofList {node : Node α} (walk : walkTo (ofList entries) 40 [] (path l) = some l)
    (isDir : ofList entries l = some .dir) (absent : ∀ e ∈ entries, ¬l ++ [x] <+: e.1) :
    Creates node (path (l ++ [x])) (ofList entries) (ofList ((l ++ [x], node) :: entries)) := by
  refine ⟨l ++ [x], ⟨path l, x, l, by simp [path], walk_of_walkTo walk, isDir, rfl⟩, ?_, ?_⟩
  · intro y start
    exact ofList_eq_none fun e member same => absent e member (same ▸ start)
  · rw [update_ofList]

/-- `ln -s` where nothing is. -/
theorem links_ofList {target front : Path} {name : Option Name}
    (walk : walkTo (ofList entries) 40 [] front = some l) (isDir : ofList entries l = some .dir)
    (whole : walkTo (ofList entries) 40 [] (front ++ [.down x]) = some (l ++ [x]))
    (absent : ofList entries (l ++ [x]) = none) :
    Links target name (front ++ [.down x]) (ofList entries)
      (ofList ((l ++ [x], .link target) :: entries)) := by
  refine ⟨front ++ [.down x], l ++ [x], .inr ⟨fun ⟨d, walk', isDir'⟩ => ?_, rfl⟩,
    ⟨front, x, l, rfl, walk_of_walkTo walk, isDir, rfl⟩, absent, by rw [update_ofList]⟩
  rw [Walk.unique (walk_of_walkTo whole) walk', absent] at isDir'
  exact absurd isDir' nofun

/-- One `mkdir` of `mkdir -p`, for the last name. -/
theorem makesDir_ofList (walk : walkTo (ofList entries) 40 [] (path l) = some l)
    (isDir : ofList entries l = some .dir) (absent : ofList entries (l ++ [x]) = none) :
    MakesDir (path (l ++ [x])) (ofList entries) (ofList ((l ++ [x], .dir) :: entries)) :=
  ⟨path l, x, [], l ++ [x], by simp [path],
    ⟨path l, x, l, rfl, walk_of_walkTo walk, isDir, rfl⟩, absent, by rw [update_ofList]⟩

end Listed

/-- The head of a fetch from a local repository, where all directories are there. -/
theorem fetchHead_local {a : Fetch α} {n : Nat} {fs' : Fs α} {rest : List (Line (Cmd α) Test)}
    (revised : isRevision a.revision = true)
    (dirs : ∀ l ∈ [destination a.slot, revisions a.slot, trees a.slot, composefs, objects, git],
      isDirAt fs (path l) = true)
    (linked : isDirAt fs (path (destination a.slot ++ [.text "objects"])) = true)
    (source : isDirAt fs (path a.cwd ++ parse (a.gitUrl ++ "/objects")) = true)
    (made : Creates .dir (path (a.stageDir n)) fs fs') :
    Reaches (effects V) (⟨fetchHead n a ++ rest, [], none⟩, fs) (⟨rest, [], none⟩, fs') := by
  have dirs' : ∀ p ∈ [destination a.slot, revisions a.slot, trees a.slot, composefs, objects,
      git].map path, IsDir fs p := by
    intro p member
    obtain ⟨l, listed, rfl⟩ := List.mem_map.mp member
    exact isDir_of_isDirAt (dirs l listed)
  rw [fetchHead, if_pos revised]
  refine .head (.whole rfl) (.head (.whole ⟨rfl, dirs'⟩) ?_)
  refine .head (.yes (exists_of_isDir (isDir_of_isDirAt linked))) ?_
  refine .head (.yes (isDir_of_isDirAt source)) ?_
  exact .head (.whole rfl) (.single (.whole made))

theorem orderly_sampleDirs : Orderly twoContents (ofList sampleDirs) := by
  have entries : ∀ e ∈ sampleDirs, (objects <+: e.1 → e.1 = objects) ∧ e.2 = .dir := by decide
  intro l node found
  obtain ⟨front, back, same, _⟩ := List.lookup_eq_some_iff.mp found
  obtain ⟨outside, rfl⟩ := entries (l, node) (same ▸ List.mem_append_right _ List.mem_cons_self)
  exact .dir outside

/-- One more node that fits. -/
theorem orderly_cons {entries : List (Location × Node α)} {l : Location} {node : Node α}
    (orderly : Orderly V (ofList entries)) (fits : Fits V l node) :
    Orderly V (ofList ((l, node) :: entries)) := by
  intro x other found
  rw [← update_ofList] at found
  by_cases here : x = l
  · subst here
    rw [Function.update_self] at found
    obtain rfl := Option.some_inj.mp found
    exact fits
  · rw [Function.update_of_ne here] at found
    exact orderly x other found

/-- The path of the object that has the digest of `false`. -/
def zeroObject : String × String :=
  ("00", "00000000000000000000000000000000000000000000000000000000000000")

/-- The directories of a store with no object. -/
def shelves : List (Location × Node Bool) := (objects ++ [.text "00"], .dir) :: sampleDirs

theorem orderly_shelves : Orderly twoContents (ofList shelves) :=
  orderly_cons orderly_sampleDirs (fits_shelf (by decide))

/-- The directories of a store with one object. -/
def stocked : List (Location × Node Bool) :=
  (objectAt zeroObject.1 zeroObject.2, .file false true) :: shelves

theorem orderly_stocked : Orderly twoContents (ofList stocked) :=
  orderly_cons orderly_shelves (fits_object (by decide))

/-- The object is there after a fetch has made its staging directory. -/
theorem store_append_only_stocked : ∃ s,
    PoolReaches (effects twoContents) (TameScripts twoContents) (Pool.quiet (ofList stocked)) s ∧
    ofList stocked ≠ s.world ∧ Sound twoContents (ofList stocked) ∧
    s.world (objectAt zeroObject.1 zeroObject.2) = some (.file false true) := by
  let a := sampleFetch "/s" [linkRecord "x" "/z/img/git", linkRecord "y" "x"]
  have treelike : Treelike a.records := by
    unfold Treelike
    decide
  have tame : Tame a := ⟨by decide, by decide, treelike⟩
  have made : Creates .dir (path (a.stageDir 0)) (ofList stocked)
      (ofList ((a.stageDir 0, .dir) :: stocked)) :=
    creates_ofList (l := destination .s101) (by decide) (by decide) (by decide)
  have steps : Reaches (effects twoContents) (start (firmwareFetch twoContents 0 a), ofList stocked)
      (_, ofList ((a.stageDir 0, .dir) :: stocked)) :=
    fetchHead_local (by decide) (by decide) (by decide) (by decide) made
  have run : PoolReaches (effects twoContents) (TameScripts twoContents)
      (Pool.quiet (ofList stocked)) _ :=
    PoolReaches.run (n := 0) rfl (.inl ⟨a, tame, rfl⟩) steps
  obtain ⟨sound, appends⟩ := store_append_only orderly_stocked .refl run
  have new : ofList stocked (a.stageDir 0) ≠ ofList ((a.stageDir 0, .dir) :: stocked)
      (a.stageDir 0) := by decide
  exact ⟨_, run, fun same => new (congrFun same _), sound,
    appends zeroObject.1 zeroObject.2 false true (by decide)⟩

/-- Both records of the tree: the second one goes through the link that the first has made. -/
theorem straying_run : Reaches (effects twoContents)
    (start (firmwareFetch twoContents 0 straying), ofList sampleDirs)
    (⟨fetchTail twoContents 0 straying ++ [.trap []], stageTrap 0 straying, none⟩,
      ofList strayed) := by
  let stage := straying.stageDir 0
  let staged := (stage, .dir) :: sampleDirs
  let treed := (stage ++ [.text "tree"], .dir) :: staged
  let linked := (stage ++ [.text "tree", .text "x"], .link (.root :: path git)) :: treed
  have made : Creates .dir (path stage) (ofList sampleDirs) (ofList staged) :=
    creates_ofList (l := destination .s101) (by decide) (by decide) (by decide)
  have tree : MakesDir (path (stage ++ [.text "tree"])) (ofList staged) (ofList treed) :=
    makesDir_ofList (by decide) (by decide) (by decide)
  have first : Links (.root :: path git) (some (.text "git"))
      (path (stage ++ [.text "tree"]) ++ [.down (.text "x")]) (ofList treed) (ofList linked) :=
    links_ofList (l := stage ++ [.text "tree"]) (by decide) (by decide) (by decide) (by decide)
  have second : Links (.root :: path objects) (some (.text "objects"))
      (path (stage ++ [.text "tree", .text "x"]) ++ [.down (.text "initos-firmware.git")])
      (ofList linked) (ofList strayed) :=
    links_ofList (l := git) (by decide) (by decide) (by decide) (by decide)
  have isDir : ∀ {entries : List (Location × Node Bool)} {p : Path},
      isDirAt (ofList entries) p = true → ∀ q ∈ [p], IsDir (ofList entries) q := by
    intro entries p computed q member
    obtain rfl := List.mem_singleton.mp member
    exact isDir_of_isDirAt computed
  refine (fetchHead_local (by decide) (by decide) (by decide) (by decide) made).trans ?_
  refine .head .setTrap (.head (.part ⟨_, List.mem_cons_self, tree⟩) ?_)
  refine .head (.whole ⟨rfl, isDir (by decide)⟩) ?_
  refine .head (.whole ⟨rfl, isDir (by decide)⟩) (.head (.whole first) ?_)
  exact .head (.whole ⟨rfl, isDir (by decide)⟩) (.single (.whole second))

/-- A fetch from elsewhere, which needs the repository. -/
def following : Fetch Bool := sampleFetch "firmware.git" []

/-- What `git init` leaves where the link leads. -/
def initialised : List (Location × Node Bool) :=
  (objectAt "info" "exclude", .file false false) :: (objects ++ [.text "info"], .dir) :: strayed

/-- `git init` follows the link into the store. -/
theorem following_run : ∃ p, Reaches (effects twoContents)
    (start (firmwareFetch twoContents 1 following), ofList strayed) (p, ofList initialised) := by
  have dirs : ∀ p ∈ [destination .s101, revisions .s101, trees .s101, composefs, objects,
      git].map path, IsDir (ofList strayed) p := by
    intro p member
    obtain ⟨l, listed, rfl⟩ := List.mem_map.mp member
    have computed : ∀ l ∈ [destination .s101, revisions .s101, trees .s101,
        composefs, objects, git],
        isDirAt (ofList strayed) (path l) = true := by decide
    exact isDir_of_isDirAt (computed l listed)
  have shared : Exists (ofList strayed) (path (destination .s101 ++ [.text "objects"])) :=
    exists_of_isDir (isDir_of_isDirAt (by decide))
  have remote : ¬IsDir (ofList strayed) (path [] ++ parse ("firmware.git" ++ "/objects")) := by
    intro ⟨l, walk, _⟩
    have absent : ofList strayed ([] ++ [.text "firmware.git"]) = none := by decide
    have steps : path [] ++ parse ("firmware.git" ++ "/objects") =
        [.down (.text "firmware.git"), .down (.text "objects")] := by decide
    rw [steps] at walk
    cases walk with
    | dir isDir _ => exact absurd (absent.symm.trans isDir) nofun
    | link isLink _ => exact absurd (absent.symm.trans isLink) nofun
  have noHead : ¬IsFile (ofList strayed) (path (repo ++ [.text "HEAD"])) := by
    intro ⟨content, l, verity, walk, found⟩
    have led : walkTo (ofList strayed) 40 [] (path (repo ++ [.text "HEAD"])) =
        some (objects ++ [.text "HEAD"]) := by decide
    have absent : ofList strayed (objects ++ [.text "HEAD"]) = none := by decide
    rw [Walk.unique (walk_of_walkTo led) walk, absent] at found
    exact absurd found nofun
  have works : WorksIn (path repo) (ofList strayed) (ofList initialised) := by
    have led : walkTo (ofList strayed) 40 [] (path repo) = some objects := by decide
    refine ⟨objects, walk_of_walkTo led, fun x outside => ?_, .inl (by decide)⟩
    have other : ∀ below, x ≠ objects ++ below :=
      fun below same => outside (same ▸ List.prefix_append _ _)
    rw [initialised, objectAt, ← update_ofList, ← update_ofList, Function.update_of_ne (other _),
      Function.update_of_ne (other _)]
  have revised : isRevision following.revision = true := by decide
  rw [start, firmwareFetch, fetchHead, if_pos revised]
  exact ⟨_, .head (.whole rfl) (.head (.whole ⟨rfl, dirs⟩) (.head (.yes shared)
    (.head (.no remote) (.head (.no noHead) (.single (.part works))))))⟩

/-- A Git tree with a link to `/z/img/git` and an entry below it puts a link to the store in place
of the repository, and the next fetch makes its repository in the store. -/
theorem store_not_sound : ∃ s, Orderly twoContents (ofList sampleDirs) ∧
    PoolReaches (effects twoContents) (Scripts twoContents) (Pool.quiet (ofList sampleDirs)) s ∧
    s.world (objectAt "info" "exclude") = some (.file false false) ∧
    ¬Sound twoContents s.world := by
  obtain ⟨p, second⟩ := following_run
  have first : PoolReaches (effects twoContents) (Scripts twoContents)
      (Pool.quiet (ofList sampleDirs)) _ :=
    PoolReaches.run (n := 0) rfl (.inl ⟨straying, rfl⟩) straying_run
  have both := first.trans (PoolReaches.run (n := 1) rfl (.inl ⟨following, rfl⟩) second)
  have unsealed : ofList initialised (objectAt "info" "exclude") = some (.file false false) := by
    decide
  refine ⟨_, orderly_sampleDirs, both, unsealed, fun sound => ?_⟩
  exact absurd (sound "info" "exclude" false false unsealed).1 nofun

end Sample

end Initos.Firmware
