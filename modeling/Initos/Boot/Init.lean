import Initos.Boot.RootPath

/-!
# The init of the new root

`select_init` looks for an init before the root is switched, below `root_mount`; the kernel
resolves the path that it returns afterwards, inside the new root. The two agree on every
candidate whose path stays below the root. A path that an absolute symbolic link leads out of
it is looked up in the initrd instead; only for `/lib/systemd/systemd` the links of its own
components are taken as links of the new root.
-/

namespace Initos.Boot

open Interact UnixFs UnixFs.FileTree

variable {α : Type}

/-! ## Candidates -/

/-- How a candidate is looked up. -/
inductive Lookup where
  /-- Below the state partition, which is bound to `/z` of the new root. -/
  | state (rel : String)
  /-- With `is_file` below `root_mount`. -/
  | plain
  /-- After `resolve_root_path`. -/
  | resolving

/-- A program that `select_init` may choose, and where it looks for it. -/
structure Candidate where
  path : String
  args : List String
  lookup : Lookup

/-- The candidates of `select_init`, in its order. -/
def initCandidates : List Candidate :=
  [⟨"/z/c/initos/init", [], .state "c/initos/init"⟩,
    ⟨"/nix/var/nix/profiles/system/bin/init", [], .plain⟩, ⟨"/sbin/init", [], .plain⟩,
    ⟨"/lib/systemd/systemd", ["--system"], .resolving⟩,
    ⟨"/opt/initos/bin/initos-init", [], .plain⟩]

/-- The path of a candidate below the root. -/
def Candidate.relative (c : Candidate) : String := Text.trimStartMatches '/' c.path

section

variable (stateMount rootMount : String)

/-- The test of `select_init` for a candidate. -/
def Candidate.look (c : Candidate) : Io Bool :=
  match c.lookup with
  | .state rel => isFile (UnixPath.join stateMount rel)
  | .plain => isFile (UnixPath.join rootMount c.relative)
  | .resolving => do isFile (← resolveRootPath rootMount c.relative)

/-- One candidate after the other. -/
def tryCandidates : List Candidate → Io SelectedInit
  | [] => throw (.msg "no init found: checked /z/c/initos/init, /opt/initos/bin/initos-init, /sbin/init, /lib/systemd/systemd")
  | c :: rest => do
    if ← c.look stateMount rootMount then return ⟨c.path, c.args⟩ else tryCandidates rest

/-- The loop over the programs tests one after the other. -/
theorem firstInit_cons (candidate : String) (rest : List String)
    (next : Option String → Io SelectedInit) :
    (firstInit rootMount (candidate :: rest) >>= next) = (do
      if ← isFile (UnixPath.join rootMount (Text.trimStartMatches '/' candidate)) then
        next (some candidate)
      else firstInit rootMount rest >>= next) := by
  rw [firstInit, bind_assoc]
  congr 1
  funext found
  cases found <;> simp

/-- `select_init` goes through the list of candidates. -/
theorem selectInit_eq : selectInit stateMount rootMount = (do
    match ← envVar "INITOS_INIT" with
    | some init => return ⟨init, []⟩
    | none => tryCandidates stateMount rootMount initCandidates) := by
  have none_left (next : Option String → Io SelectedInit) :
      (firstInit rootMount [] >>= next) = next none := pure_bind none next
  rw [selectInit]
  congr 1
  funext init
  cases init with
  | some init => rfl
  | none =>
    simp only [firstInit_cons, none_left, tryCandidates, initCandidates, Candidate.look, bind_assoc]
    rfl

variable (answers : (c : SysCmd) → c.Resp)

theorem selectInit_eval {answers : (c : SysCmd) → c.Resp} {stateMount rootMount : String}
    (unset : answers (.envVar "INITOS_INIT") = none) :
    (selectInit stateMount rootMount).run.eval answers =
      (tryCandidates stateMount rootMount initCandidates).run.eval answers := by
  rw [selectInit_eq, Fallible.eval_ask_bind, unset]

/-- What the test for a candidate returns. -/
def Candidate.Found (c : Candidate) (found : Bool) : Prop :=
  (c.look stateMount rootMount).run.eval answers = .done (.ok found)

variable {stateMount rootMount answers}

/-- The candidate that is returned is the first one whose test succeeds, and the tests before
    it have all been made. -/
theorem tryCandidates_eval {candidates : List Candidate} {init : SelectedInit} :
    (tryCandidates stateMount rootMount candidates).run.eval answers = .done (.ok init) ↔
      ∃ before c after, candidates = before ++ c :: after ∧
        (∀ e ∈ before, e.Found stateMount rootMount answers false) ∧
        c.Found stateMount rootMount answers true ∧ init = ⟨c.path, c.args⟩ := by
  induction candidates with
  | nil => exact iff_of_false nofun (by simp)
  | cons c rest ih =>
    have tried : (tryCandidates stateMount rootMount (c :: rest)).run.eval answers =
        .done (.ok init) ↔ c.Found stateMount rootMount answers true ∧ init = ⟨c.path, c.args⟩ ∨
        c.Found stateMount rootMount answers false ∧
          (tryCandidates stateMount rootMount rest).run.eval answers = .done (.ok init) := by
      rw [tryCandidates, Fallible.eval_bind, Candidate.Found, Candidate.Found]
      cases (c.look stateMount rootMount).run.eval answers with
      | halted stop => simp
      | done r =>
        cases r with
        | error e => simp
        | ok found =>
          cases found with
          | true =>
            dsimp only
            rw [if_pos rfl, Fallible.eval_pure]
            simp [eq_comm]
          | false => simp
    rw [tried, ih]
    constructor
    · rintro (⟨found, rfl⟩ | ⟨notFound, before, d, after, rfl, first, found, rfl⟩)
      · exact ⟨[], c, rest, rfl, nofun, found, rfl⟩
      · refine ⟨c :: before, d, after, rfl, ?_, found, rfl⟩
        exact List.forall_mem_cons.mpr ⟨notFound, first⟩
    · rintro ⟨before, d, after, split, first, found, rfl⟩
      rcases List.cons_eq_append_iff.mp split with ⟨rfl, same⟩ | ⟨before', rfl, rest_eq⟩
      · obtain ⟨rfl, -⟩ := List.cons.inj same
        exact .inl ⟨found, rfl⟩
      · obtain ⟨notFound, first⟩ := List.forall_mem_cons.mp first
        exact .inr ⟨notFound, before', d, after, rest_eq, first, found, rfl⟩

end

/-! ## The file systems -/

/-- The answers of a system whose files are those of `t`. -/
structure Shows (t : FileTree α) (answers : (c : SysCmd) → c.Resp) : Prop
    extends ShowsLinks t answers where
  isFile : ∀ p, answers (.isFile p) = t.isFile p

/-- The directory `z` of the new root is the state partition. -/
structure NewRoot (t : FileTree α) (stateMount rootMount : String) (state root : Location) : Prop
    extends LeadsToRoot t rootMount root where
  stateLeads : t.walk [] 0 [] (steps stateMount) = some state
  stateIsDir : t.find state = some .dir
  bound : ∀ loc, t.find (root ++ ["z"] ++ loc) = t.find (state ++ loc)

/-! ## The selection -/

/-- The names of a path. -/
def pathNames (p : String) : List String :=
  (UnixPath.components p).filterMap fun component => match component with
    | .normal name => some name
    | _ => none

/-- The trip of a candidate inside the new root, as far as its test follows it. -/
def Candidate.trip (t : FileTree α) (root : Location) (c : Candidate) : Trip :=
  match c.lookup with
  | .state rel => t.trip (root ++ ["z"]) maxLinks [] (steps rel)
  | .plain => t.trip root maxLinks [] (steps c.relative)
  | .resolving => resolveTrip t root maxLinks [] (pathNames c.relative)

/-- The path of a candidate is the one that its test is about. -/
def Candidate.Proper (c : Candidate) : Prop :=
  match c.lookup with
  | .state rel => UnixPath.isAbsolute rel = false ∧ steps c.path = .root :: .down "z" :: steps rel
  | .plain => UnixPath.isAbsolute c.relative = false ∧ steps c.path = .root :: steps c.relative
  | .resolving => UnixPath.components c.relative = (pathNames c.relative).map .normal ∧
    (∀ name ∈ pathNames c.relative, UnixPath.IsName name) ∧
    steps c.path = .root :: (pathNames c.relative).map .down

instance (c : Candidate) : Decidable c.Proper :=
  match c with
  | ⟨_, _, .state _⟩ => inferInstanceAs (Decidable (_ ∧ _))
  | ⟨_, _, .plain⟩ => inferInstanceAs (Decidable (_ ∧ _))
  | ⟨_, _, .resolving⟩ => inferInstanceAs (Decidable (_ ∧ _ ∧ _))

/-- The paths of the candidates are made of names. -/
theorem initCandidates_proper : ∀ c ∈ initCandidates, c.Proper := by
  decide +kernel

section

variable {t : FileTree α} {stateMount rootMount : String} {state root : Location}
  {answers : (c : SysCmd) → c.Resp}

/-- A file below a directory that a path leads to, as the trip from there says. -/
theorem isFile_join {mount rel : String} {dir : Location}
    (leads : t.walk [] 0 [] (steps mount) = some dir) (isDir : t.find dir = some .dir)
    (relative : UnixPath.isAbsolute rel = false)
    (stays : t.trip dir maxLinks [] (steps rel) ≠ .leaves) :
    t.isFile (UnixPath.join mount rel) = (t.trip dir maxLinks [] (steps rel)).atFile t dir := by
  refine isFileIn_eq_atFile (Nat.zero_le _) isDir ?_ stays
  have walked := walk_join t [] maxLinks [] mount relative []
  rwa [List.append_nil, List.append_nil, walk_append _ leads isDir] at walked

theorem eq_isFile_of_eval (shows : Shows t answers) {p : String} {found : Bool}
    (isFound : (isFile p).run.eval answers = .done (.ok found)) : found = t.isFile p := by
  cases isFound
  exact shows.isFile p

/-- The test after `resolve_root_path`. -/
theorem resolved_of_eval (shows : Shows t answers) {rel : String} {found : Bool}
    (isFound : (do isFile (← resolveRootPath rootMount rel)).run.eval answers =
      .done (.ok found)) :
    ∃ p, (resolveRootPath rootMount rel).run.eval answers = .done (.ok p) ∧
      found = t.isFile p := by
  rw [Fallible.eval_bind] at isFound
  cases resolved : (resolveRootPath rootMount rel).run.eval answers with
  | halted stop => simp [resolved] at isFound
  | done r =>
    rw [resolved] at isFound
    cases r with
    | error e => cases isFound
    | ok p => exact ⟨p, rfl, eq_isFile_of_eval shows isFound⟩

/-- The test before the switch gives what the kernel finds after it, if the path of the
    candidate does not lead out of the new root. -/
theorem Candidate.Found.eq_isFileIn (shows : Shows t answers)
    (newRoot : NewRoot t stateMount rootMount state root) {c : Candidate} (proper : c.Proper)
    (stays : c.trip t root ≠ .leaves) {found : Bool}
    (isFound : c.Found stateMount rootMount answers found) : found = t.isFileIn root c.path := by
  obtain ⟨path, args, lookup⟩ := c
  cases lookup with
  | state rel =>
    obtain ⟨relative, steps_eq⟩ := proper
    have stateDir : t.find (root ++ ["z"]) = some .dir := by
      have bound := newRoot.bound []
      rwa [List.append_nil, List.append_nil, newRoot.stateIsDir] at bound
    have trip_eq := trip_congr newRoot.bound maxLinks [] (steps rel)
    have before := isFile_join newRoot.stateLeads newRoot.stateIsDir relative (trip_eq ▸ stays)
    have after : t.isFileIn root path =
        (t.trip (root ++ ["z"]) maxLinks [] (steps rel)).atFile t (root ++ ["z"]) := by
      refine isFileIn_eq_atFile (by simp) stateDir ?_ stays
      rw [steps_eq, walk_root, walk_dir _ _ stateDir]
    rw [eq_isFile_of_eval shows isFound, before, after, ← trip_eq, Trip.atFile_congr newRoot.bound]
  | plain =>
    obtain ⟨relative, steps_eq⟩ := proper
    have before := isFile_join newRoot.leads newRoot.isDir relative stays
    have after : t.isFileIn root path =
        (Candidate.trip t root ⟨path, args, .plain⟩).atFile t root := by
      refine isFileIn_eq_atFile (Nat.le_refl _) newRoot.isDir ?_ stays
      rw [steps_eq, walk_root]
    rw [eq_isFile_of_eval shows isFound, before, after]
    rfl
  | resolving =>
    obtain ⟨components_eq, areNames, steps_eq⟩ := proper
    obtain ⟨p, resolved, looked⟩ := resolved_of_eval shows isFound
    rw [resolveRootPath, components_eq] at resolved
    have same := (resolveComponents_resolve shows.toShowsLinks resolved).trans
      (initrdEnd_eq_walk newRoot.toLeadsToRoot areNames stays)
    rw [resolve] at same
    rw [looked, FileTree.isFile, isFileIn, isFileIn, same, steps_eq, walk_root]

/-- The first candidate that is a regular file inside the new root. -/
def firstInRoot (t : FileTree α) (root : Location) : Option String :=
  (initCandidates.map (·.path)).find? (t.isFileIn root)

theorem find?_append_cons {β : Type} {p : β → Bool} {before after : List β} {b : β}
    (fresh : b ∉ before) : (before ++ b :: after).find? p = some b ↔
      p b = true ∧ ∀ a ∈ before, p a = false := by
  constructor
  · intro found
    refine ⟨List.find?_some found, fun a member => ?_⟩
    by_contra holds
    rw [Bool.not_eq_false] at holds
    cases first : before.find? p with
    | none => simpa [holds] using List.find?_eq_none.mp first a member
    | some c =>
      rw [List.find?_append, first, Option.some_or, Option.some.injEq] at found
      exact fresh (found ▸ List.mem_of_find?_eq_some first)
  · rintro ⟨holds, others⟩
    have none_before : before.find? p = none :=
      List.find?_eq_none.mpr fun a member => by simp [others a member]
    rw [List.find?_append, none_before, Option.none_or, List.find?_cons_of_pos holds]

/-- A candidate splits off the candidates before it, which have other paths. -/
theorem firstInRoot_eq_iff {before after : List Candidate} {c : Candidate}
    (split : initCandidates = before ++ c :: after) : firstInRoot t root = some c.path ↔
      t.isFileIn root c.path = true ∧ ∀ e ∈ before, t.isFileIn root e.path = false := by
  have distinct : (initCandidates.map (·.path)).Nodup := by decide
  rw [split, List.map_append, List.map_cons] at distinct
  have fresh : c.path ∉ before.map (·.path) := fun member =>
    (List.nodup_append.mp distinct).2.2 _ member _ List.mem_cons_self rfl
  rw [firstInRoot, split, List.map_append, List.map_cons, find?_append_cons fresh,
    List.forall_mem_map]

/-- No candidate up to the first one that is a regular file inside the new root leads out of
    it. -/
def CandidatesStay (t : FileTree α) (root : Location) : Prop :=
  ∀ before c after, initCandidates = before ++ c :: after →
    (∀ e ∈ before, t.isFileIn root e.path = false) → c.trip t root ≠ .leaves

/-- The candidates whose tests fail are not there after the switch either. -/
theorem CandidatesStay.notInRoot (stay : CandidatesStay t root) (shows : Shows t answers)
    (newRoot : NewRoot t stateMount rootMount state root) {before rest : List Candidate}
    (split : initCandidates = before ++ rest)
    (notFound : ∀ e ∈ before, e.Found stateMount rootMount answers false) :
    ∀ e ∈ before, t.isFileIn root e.path = false := by
  -- the candidates before the last one are passed over after the switch, too, so it stays inside
  induction before using List.reverseRecOn generalizing rest with
  | nil => exact nofun
  | append_singleton earlier last ih =>
    rw [List.append_assoc] at split
    obtain ⟨notFound, lastNot⟩ := List.forall_mem_append.mp notFound
    have passed := ih split notFound
    have proper : last.Proper := initCandidates_proper last (split ▸ by simp)
    have here := (List.forall_mem_singleton.mp lastNot).eq_isFileIn shows newRoot proper
      (stay earlier last rest split passed)
    exact List.forall_mem_append.mpr ⟨passed, List.forall_mem_singleton.mpr here.symm⟩

end

theorem shows_fileAnswers (t : FileTree α) : Shows t (fileAnswers t) where
  toShowsLinks := showsLinks_fileAnswers t
  isFile _ := rfl

theorem newRoot_usrTree : NewRoot usrTree "/z" "/sysroot" ["z"] ["sysroot"] where
  toLeadsToRoot := leadsToRoot_usrTree
  stateLeads := by decide +kernel
  stateIsDir := rfl
  bound loc := by
    cases loc with
    | nil => rfl
    | cons name loc => simp [FileTree.find, lookup, usrTree, List.lookup_cons]

theorem found_isFile {t : FileTree α} {c : Candidate} {stateMount rootMount p : String}
    {found : Bool} (look : c.look stateMount rootMount = isFile p)
    (isFound : t.isFile p = found) : c.Found stateMount rootMount (fileAnswers t) found := by
  rw [Candidate.Found, look, ← isFound]
  rfl

/-- The candidates before systemd are not in the tree. -/
theorem selectInit_usrTree : (selectInit "/z" "/sysroot").run.eval (fileAnswers usrTree) =
    .done (.ok ⟨"/lib/systemd/systemd", ["--system"]⟩) := by
  have resolved : (resolveRootPath "/sysroot" "lib/systemd/systemd").run.eval
      (fileAnswers usrTree) = .done (.ok "/sysroot/usr/lib/systemd/systemd") := by
    have ofNames : UnixPath.components "lib/systemd/systemd" =
        ["lib", "systemd", "systemd"].map .normal := by decide
    rw [resolveRootPath_fileAnswers usrTree "/sysroot" ofNames]
    decide +kernel
  rw [selectInit_eval rfl, tryCandidates_eval]
  refine ⟨_, _, _, List.take_append_drop 3 initCandidates |>.symm, ?_, ?_, rfl⟩
  · refine List.forall_mem_cons.mpr ⟨found_isFile rfl (by decide +kernel), ?_⟩
    refine List.forall_mem_cons.mpr ⟨found_isFile rfl (by decide +kernel), ?_⟩
    exact List.forall_mem_singleton.mpr (found_isFile rfl (by decide +kernel))
  · exact (Fallible.eval_bind_ok resolved isFile).trans (by decide +kernel)

/-- A root whose `/sbin/init` is an absolute link to a program that only the initrd has. -/
def danglingTree : FileTree Unit where
  nodes := [(["z"], .dir), (["opt"], .dir), (["opt", "initos"], .dir),
    (["opt", "initos", "bin"], .dir), (["opt", "initos", "bin", "initos-initrd"], .file ()),
    (["sysroot"], .dir), (["sysroot", "z"], .dir), (["sysroot", "sbin"], .dir),
    (["sysroot", "sbin", "init"], .link "/opt/initos/bin/initos-initrd")]
  inDir := by decide

theorem newRoot_danglingTree : NewRoot danglingTree "/z" "/sysroot" ["z"] ["sysroot"] where
  leads := by decide +kernel
  isDir := rfl
  stateLeads := by decide +kernel
  stateIsDir := rfl
  bound loc := by
    cases loc with
    | nil => rfl
    | cons name loc => simp [FileTree.find, lookup, danglingTree, List.lookup_cons]

end Initos.Boot
