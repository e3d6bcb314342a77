import Initos.Boot.Run
import Initos.Lib.Static
import Initos.Lib.UnixWalk

/-!
# Paths below the new root

`resolve_root_path` builds a path in the initrd for a path of the new root. It reads the
symbolic link at each name of the path, once, and takes an absolute one below `root_mount`.
What a link leads through is left to the kernel, which follows it in the initrd: a second
absolute link, or a `..` above the new root, leads out of it.
-/

namespace Initos.Boot

open Interact UnixFs UnixFs.FileTree

variable {α : Type}

/-- The answers of `read_link` for the files of `t`. What kind of error a failed one gives is
    left open. -/
structure ShowsLinks (t : FileTree α) (answers : (c : SysCmd) → c.Resp) : Prop where
  link : ∀ p target, t.linkAt p = some target → answers (.readLink p) = .ok target
  noLink : ∀ p, t.linkAt p = none → ∃ e, answers (.readLink p) = .error e

/-- The new root is the directory `root`, to which `rootMount` leads through directories. -/
structure LeadsToRoot (t : FileTree α) (rootMount : String) (root : Location) : Prop where
  leads : t.walk [] 0 [] (steps rootMount) = some root
  isDir : t.find root = some .dir

/-! ## Trips below the root -/

/-- Where the walk goes on, and with which steps, when `resolve_root_path` meets a link in the
    directory `rel`. An absolute link is taken below the root, without the slashes in front and
    at the end. -/
def linkStart (rel : Location) (target : String) : Option (Location × List Step) :=
  if UnixPath.isAbsolute target then
    if steps target = .root :: steps (UnixPath.stripRoot target) then
      some ([], steps (UnixPath.stripRoot target))
    else none
  else some (rel, steps target)

/-- The trip that `resolve_root_path` makes. -/
def resolveTrip (t : FileTree α) (root : Location) : Nat → Location → List String → Trip
  | links, rel, [] => .ends rel links
  | links, rel, name :: rest =>
    match t.find (root ++ (rel ++ [name])) with
    | none => .lost
    | some .dir => resolveTrip t root links (rel ++ [name]) rest
    | some (.file _) => if rest = [] then .ends (rel ++ [name]) links else .lost
    | some (.link target) =>
      match links, linkStart rel target with
      | links + 1, some (start, s) =>
        match t.trip root links start s with
        | .leaves => .leaves
        | .lost => .lost
        | .ends loc left =>
          match t.find (root ++ loc) with
          | some .dir => resolveTrip t root left loc rest
          | _ => if rest = [] then .ends loc left else .lost
      | _, _ => .leaves

/-- What `resolve_root_path` finds at a name, and the trip from there on, when it does not leave
    the root. -/
inductive NameResolved (t : FileTree α) (root rel : Location) (name : String)
    (rest : List String) : Nat → Trip → Prop
  | missing {links : Nat} (found : t.find (root ++ (rel ++ [name])) = none) :
    NameResolved t root rel name rest links .lost
  | dir {links : Nat} (found : t.find (root ++ (rel ++ [name])) = some .dir) :
    NameResolved t root rel name rest links (resolveTrip t root links (rel ++ [name]) rest)
  | file {links : Nat} {content : α}
    (found : t.find (root ++ (rel ++ [name])) = some (.file content)) :
    NameResolved t root rel name rest links
      (if rest = [] then .ends (rel ++ [name]) links else .lost)
  | linkLost {links : Nat} {target : String} {start : Location} {s : List Step}
    (found : t.find (root ++ (rel ++ [name])) = some (.link target))
    (starts : linkStart rel target = some (start, s))
    (followed : t.trip root links start s = .lost) :
    NameResolved t root rel name rest (links + 1) .lost
  | linkDir {links left : Nat} {target : String} {start loc : Location} {s : List Step}
    (found : t.find (root ++ (rel ++ [name])) = some (.link target))
    (starts : linkStart rel target = some (start, s))
    (followed : t.trip root links start s = .ends loc left)
    (isDir : t.find (root ++ loc) = some .dir) :
    NameResolved t root rel name rest (links + 1) (resolveTrip t root left loc rest)
  | linkFile {links left : Nat} {target : String} {start loc : Location} {s : List Step}
    (found : t.find (root ++ (rel ++ [name])) = some (.link target))
    (starts : linkStart rel target = some (start, s))
    (followed : t.trip root links start s = .ends loc left)
    (notDir : t.find (root ++ loc) ≠ some .dir) :
    NameResolved t root rel name rest (links + 1)
      (if rest = [] then .ends loc left else .lost)

theorem nameResolved_of_stays {t : FileTree α} {root rel : Location} {links : Nat} {name : String}
    {rest : List String} (stays : resolveTrip t root links rel (name :: rest) ≠ .leaves) :
    NameResolved t root rel name rest links (resolveTrip t root links rel (name :: rest)) := by
  rw [resolveTrip] at stays ⊢
  cases found : t.find (root ++ (rel ++ [name])) with
  | none => exact .missing found
  | some node =>
    cases node with
    | dir => exact .dir found
    | file content => exact .file found
    | link target =>
      simp only [found] at stays
      cases links with
      | zero => exact absurd rfl stays
      | succ links =>
        cases starts : linkStart rel target with
        | none => simp [starts] at stays
        | some following =>
          obtain ⟨start, s⟩ := following
          simp only [starts] at stays ⊢
          cases followed : t.trip root links start s with
          | leaves => simp [followed] at stays
          | lost => exact .linkLost found starts followed
          | ends loc left =>
            dsimp only
            split
            next isDir => exact .linkDir found starts followed isDir
            next notDir => exact .linkFile found starts followed notDir

/-- The path with which `resolve_root_path` goes on at a link. -/
def linkPath (rootMount resolved target : String) : String :=
  if UnixPath.isAbsolute target then UnixPath.join rootMount (UnixPath.stripRoot target)
  else UnixPath.join resolved target

theorem not_absolute_stripRoot {target : String}
    (same : steps target = .root :: steps (UnixPath.stripRoot target))
    (absolute : UnixPath.isAbsolute target = true) :
    UnixPath.isAbsolute (UnixPath.stripRoot target) = false := by
  by_contra again
  rw [Bool.not_eq_false] at again
  rw [steps, if_pos absolute] at same
  have root_mem : Step.root ∈ (UnixPath.pieces target).tail.map stepOf := by
    rw [List.tail_eq_of_cons_eq same, steps, if_pos again]
    exact List.mem_cons_self
  obtain ⟨piece, -, isRoot⟩ := List.mem_map.mp root_mem
  unfold stepOf at isRoot
  split at isRoot
  · cases isRoot
  · split at isRoot <;> cases isRoot

section

variable {t : FileTree α} {rootMount : String} {root : Location}
  {answers : (c : SysCmd) → c.Resp}

/-- Outside the new root, `resolved` leads to its directory `rel`, with at least `links` links
    left. -/
def LeadsTo (t : FileTree α) (root : Location) (resolved : String) (links : Nat)
    (rel : Location) (s : List Step) : Prop :=
  ∃ left, links ≤ left ∧ ∀ rest, t.walk [] maxLinks [] (steps resolved ++ rest) =
    t.walk [] left (root ++ rel) (s ++ rest)

/-- The link is followed inside the new root, and the path with which the code goes on leads
    there from outside. -/
theorem linkStart_spec (atRoot : LeadsToRoot t rootMount root) {rel : Location}
    {target : String} {start : Location} {s : List Step}
    (starts : linkStart rel target = some (start, s))
    (relDir : t.find (root ++ rel) = some .dir) :
    t.find (root ++ start) = some .dir ∧
    (∀ n rest, t.walk root n (root ++ rel) (steps target ++ rest) =
      t.walk root n (root ++ start) (s ++ rest)) ∧
    ∀ resolved links, links < maxLinks → LeadsTo t root resolved (links + 1) rel [] →
      LeadsTo t root (linkPath rootMount resolved target) links start s := by
  rw [linkStart] at starts
  by_cases absolute : UnixPath.isAbsolute target = true
  · rw [if_pos absolute] at starts
    by_cases same : steps target = .root :: steps (UnixPath.stripRoot target)
    · rw [if_pos same] at starts
      cases starts
      refine ⟨by rw [List.append_nil]; exact atRoot.isDir, ?_, ?_⟩
      · intro n rest
        rw [same, List.cons_append, walk_root, List.append_nil]
      · intro resolved links few _
        refine ⟨maxLinks, Nat.le_of_lt few, fun rest => ?_⟩
        rw [linkPath, if_pos absolute, walk_join _ _ _ _ _ (not_absolute_stripRoot same absolute),
          walk_append _ atRoot.leads atRoot.isDir, List.append_nil]
    · rw [if_neg same] at starts
      cases starts
  · rw [if_neg absolute] at starts
    cases starts
    refine ⟨relDir, fun _ _ => rfl, ?_⟩
    rintro resolved links - ⟨left, enough, leads⟩
    refine ⟨left, Nat.le_of_succ_le enough, fun rest => ?_⟩
    rw [linkPath, if_neg absolute, walk_join _ _ _ _ _ (Bool.eq_false_iff.mpr absolute), leads,
      List.nil_append]

/-- The trip behind a link describes the walk of its name inside the new root. -/
theorem describes_link (atRoot : LeadsToRoot t rootMount root) {rel start : Location}
    {name target : String} {s : List Step} (relDir : t.find (root ++ rel) = some .dir)
    (found : t.find (root ++ rel ++ [name]) = some (.link target))
    (starts : linkStart rel target = some (start, s)) {links : Nat} {trip : Trip}
    (followed : t.trip root links start s = trip) :
    Trip.Describes t root (links + 1) rel root 0 [.down name] trip := by
  subst followed
  obtain ⟨startDir, follows, -⟩ := linkStart_spec atRoot starts relDir
  have described := trip_describes t (Nat.le_refl root.length) links start s 0 startDir
  refine described.of_eq (Nat.le_succ links) fun rest => ?_
  rw [List.cons_append, List.nil_append, Nat.add_zero, walk_link _ _ found, follows]
  rfl

/-- Inside the new root, the walk of the names ends where the trip ends. -/
theorem walk_of_resolveTrip (atRoot : LeadsToRoot t rootMount root)
    (names : List String) (links : Nat) (rel : Location)
    (relDir : t.find (root ++ rel) = some .dir)
    (stays : resolveTrip t root links rel names ≠ .leaves) :
    t.walk root links (root ++ rel) (names.map .down) =
      (resolveTrip t root links rel names).location root := by
  induction names generalizing links rel with
  | nil =>
    rw [resolveTrip]
    exact walk_nil ..
  | cons name rest ih =>
    have child : root ++ rel ++ [name] = root ++ (rel ++ [name]) := List.append_assoc ..
    have resolved := nameResolved_of_stays stays
    generalize resolveTrip t root links rel (name :: rest) = trip at stays resolved ⊢
    rw [List.map_cons]
    cases resolved with
    | missing found => exact walk_missing _ _ (child ▸ found) _
    | dir found =>
      rw [walk_dir _ _ (child ▸ found), child]
      exact ih links (rel ++ [name]) found stays
    | file found =>
      rw [walk_file _ _ (child ▸ found), child, Trip.location_ite]
      simp only [List.map_eq_nil_iff]
    | linkLost found starts followed =>
      have described := describes_link atRoot relDir (child ▸ found) starts followed
      exact described _
    | linkDir found starts followed isDir =>
      have described := describes_link atRoot relDir (child ▸ found) starts followed
      obtain ⟨-, ⟨-, walked⟩ | ⟨content, isFile, -⟩⟩ := described
      · exact (walked _).trans (ih _ _ isDir stays)
      · rw [isDir] at isFile
        cases isFile
    | linkFile found starts followed notDir =>
      have described := describes_link atRoot relDir (child ▸ found) starts followed
      obtain ⟨-, ⟨isDir, -⟩ | ⟨content, -, walked⟩⟩ := described
      · exact absurd isDir notDir
      · refine (walked (rest.map .down)).trans ?_
        simp only [Trip.location_ite, List.map_eq_nil_iff]

/-! One component. -/

/-- The step at a link. -/
theorem resolveComponents_link (shows : ShowsLinks t answers) {resolved name target : String}
    (link : t.linkAt (UnixPath.join resolved name) = some target)
    (rest : List UnixPath.Component) :
    (resolveComponents rootMount resolved (.normal name :: rest)).run.eval answers =
      (resolveComponents rootMount (linkPath rootMount resolved target) rest).run.eval answers := by
  rw [resolveComponents, Fallible.eval_attempt_call_bind, shows.link _ _ link, linkPath]
  dsimp only
  split <;> rfl

/-- The step at a name that is no link. -/
theorem resolveComponents_noLink (shows : ShowsLinks t answers) {resolved name p : String}
    (noLink : t.linkAt (UnixPath.join resolved name) = none) {rest : List UnixPath.Component}
    (returned : (resolveComponents rootMount resolved (.normal name :: rest)).run.eval answers =
      .done (.ok p)) :
    (resolveComponents rootMount (UnixPath.join resolved name) rest).run.eval answers =
      .done (.ok p) := by
  obtain ⟨e, failed⟩ := shows.noLink _ noLink
  rw [resolveComponents, Fallible.eval_attempt_call_bind, failed] at returned
  dsimp only at returned
  split at returned
  · exact returned
  · cases returned

/-- The path with which `resolve_root_path` goes on at a name. -/
def nextPath (t : FileTree α) (rootMount resolved name : String) : String :=
  ((t.linkAt (UnixPath.join resolved name)).map (linkPath rootMount resolved)).getD
    (UnixPath.join resolved name)

theorem nextPath_link {resolved name target : String}
    (link : t.linkAt (UnixPath.join resolved name) = some target) :
    nextPath t rootMount resolved name = linkPath rootMount resolved target := by
  rw [nextPath, link, Option.map_some, Option.getD_some]

theorem nextPath_noLink {resolved name : String}
    (noLink : t.linkAt (UnixPath.join resolved name) = none) :
    nextPath t rootMount resolved name = UnixPath.join resolved name := by
  rw [nextPath, noLink, Option.map_none, Option.getD_none]

/-- Where the path leads that `resolve_root_path` builds: the links at the names are read below
    the root, and all other links are followed by the initrd. -/
def initrdEnd (t : FileTree α) (rootMount resolved : String) (names : List String) :
    Option Location :=
  t.resolve (names.foldl (nextPath t rootMount) resolved)

/-- Where the returned path leads. -/
theorem initrdEnd_nil (resolved : String) :
    initrdEnd t rootMount resolved [] = t.resolve resolved :=
  rfl

/-- A link is replaced by its target. -/
theorem initrdEnd_link {resolved name target : String}
    (link : t.linkAt (UnixPath.join resolved name) = some target) (names : List String) :
    initrdEnd t rootMount resolved (name :: names) =
      initrdEnd t rootMount (linkPath rootMount resolved target) names := by
  rw [initrdEnd, List.foldl_cons, nextPath_link link, initrdEnd]

/-- Any other name is kept. -/
theorem initrdEnd_noLink {resolved name : String}
    (noLink : t.linkAt (UnixPath.join resolved name) = none) (names : List String) :
    initrdEnd t rootMount resolved (name :: names) =
      initrdEnd t rootMount (UnixPath.join resolved name) names := by
  rw [initrdEnd, List.foldl_cons, nextPath_noLink noLink, initrdEnd]

/-- What the loop returns leads where the names do. -/
theorem resolveComponents_resolve (shows : ShowsLinks t answers) {names : List String}
    {resolved p : String}
    (returned : (resolveComponents rootMount resolved (names.map .normal)).run.eval answers =
      .done (.ok p)) : t.resolve p = initrdEnd t rootMount resolved names := by
  induction names generalizing resolved with
  | nil =>
    cases returned
    rfl
  | cons name names ih =>
    cases link : t.linkAt (UnixPath.join resolved name) with
    | some target =>
      rw [List.map_cons, resolveComponents_link shows link] at returned
      rw [initrdEnd_link link]
      exact ih returned
    | none =>
      rw [initrdEnd_noLink link]
      exact ih (resolveComponents_noLink shows link returned)

/-! The end of the path that is built. -/

/-- Nothing is found behind a path that leads nowhere. -/
theorem initrdEnd_gone {names : List String} (areNames : ∀ name ∈ names, UnixPath.IsName name)
    {resolved : String} (gone : ∀ rest, t.walk [] maxLinks [] (steps resolved ++ rest) = none) :
    initrdEnd t rootMount resolved names = none := by
  induction names generalizing resolved with
  | nil => simpa [initrdEnd_nil, resolve] using gone []
  | cons name names ih =>
    obtain ⟨isName, areNames⟩ := List.forall_mem_cons.mp areNames
    have noLink : t.linkAt (UnixPath.join resolved name) = none := by
      refine Option.eq_none_iff_forall_ne_some.mpr fun target link => ?_
      obtain ⟨dir, walked, -⟩ := (linkAt_join resolved isName).mp link
      rw [gone] at walked
      cases walked
    rw [initrdEnd_noLink noLink]
    refine ih areNames fun rest => ?_
    rw [walk_join _ _ _ _ _ (UnixPath.not_absolute_of_noSlash isName.noSlash), gone]

/-- Nothing is found below a file. -/
theorem initrdEnd_file {names : List String} (areNames : ∀ name ∈ names, UnixPath.IsName name)
    {resolved : String} {loc : Location}
    (ends : ∀ rest, t.walk [] maxLinks [] (steps resolved ++ rest) =
      if rest = [] then some loc else none) :
    initrdEnd t rootMount resolved names = if names = [] then some loc else none := by
  cases names with
  | nil => simpa [initrdEnd_nil, resolve] using ends []
  | cons name names =>
    obtain ⟨isName, areNames⟩ := List.forall_mem_cons.mp areNames
    have noLink : t.linkAt (UnixPath.join resolved name) = none := by
      refine Option.eq_none_iff_forall_ne_some.mpr fun target link => ?_
      obtain ⟨dir, walked, -⟩ := (linkAt_join resolved isName).mp link
      rw [ends, if_neg (List.cons_ne_nil _ _)] at walked
      cases walked
    rw [initrdEnd_noLink noLink, if_neg (List.cons_ne_nil _ _)]
    refine initrdEnd_gone areNames fun rest => ?_
    rw [walk_join _ _ _ _ _ (UnixPath.not_absolute_of_noSlash isName.noSlash), ends,
      if_neg (by simp [steps_ne_nil])]

section

variable {links : Nat} {rel : Location} {resolved name : String}

/-- The component is looked up in the directory that has been reached. -/
theorem LeadsTo.linkAt_iff (leads : LeadsTo t root resolved links rel [])
    (isName : UnixPath.IsName name) {target : String} :
    t.linkAt (UnixPath.join resolved name) = some target ↔
      t.find (root ++ (rel ++ [name])) = some (.link target) := by
  obtain ⟨left, -, walked⟩ := leads
  rw [linkAt_join resolved isName, walked [.here], List.nil_append, walk_here, walk_nil,
    ← List.append_assoc]
  simp

/-- Inside the root, a name that is no link is a step of the walk. -/
theorem LeadsTo.initrdEnd_noLink (leads : LeadsTo t root resolved links rel [])
    (isName : UnixPath.IsName name) (names : List String)
    (notLink : ∀ target, t.find (root ++ (rel ++ [name])) ≠ some (.link target)) :
    initrdEnd t rootMount resolved (name :: names) =
      initrdEnd t rootMount (UnixPath.join resolved name) names := by
  refine Boot.initrdEnd_noLink ?_ names
  exact Option.eq_none_iff_forall_ne_some.mpr fun target link =>
    notLink target ((leads.linkAt_iff isName).mp link)

/-- A walk goes on from where the resolved path leads. -/
theorem LeadsTo.child (leads : LeadsTo t root resolved links rel [])
    (isName : UnixPath.IsName name) :
    ∃ left, links ≤ left ∧ ∀ rest,
      t.walk [] maxLinks [] (steps (UnixPath.join resolved name) ++ rest) =
        t.walk [] left (root ++ rel) (.down name :: rest) := by
  obtain ⟨left, enough, walked⟩ := leads
  refine ⟨left, enough, fun rest => ?_⟩
  rw [walk_join _ _ _ _ _ (UnixPath.not_absolute_of_noSlash isName.noSlash), walked,
    steps_of_isName isName]
  rfl

/-- The trip behind a link describes where the path leads with which the code goes on. -/
theorem LeadsTo.followed (atRoot : LeadsToRoot t rootMount root)
    (leads : LeadsTo t root resolved (links + 1) rel []) (few : links < maxLinks)
    (relDir : t.find (root ++ rel) = some .dir) {target : String} {start : Location}
    {s : List Step} (starts : linkStart rel target = some (start, s)) {trip : Trip}
    (followed : t.trip root links start s = trip) :
    ∃ more, (∀ rest, t.walk [] maxLinks [] (steps (linkPath rootMount resolved target) ++ rest) =
        t.walk [] (links + more) (root ++ start) (s ++ rest)) ∧
      Trip.Describes t root links start [] more s trip := by
  subst followed
  obtain ⟨startDir, -, follows⟩ := linkStart_spec atRoot starts relDir
  obtain ⟨left, enough, walked⟩ := follows resolved links few leads
  obtain ⟨more, rfl⟩ := Nat.exists_eq_add_of_le enough
  exact ⟨more, walked, trip_describes t (Nat.zero_le _) links start s more startDir⟩

end

/-- A trip that does not leave the new root ends where the path leads. -/
theorem initrdEnd_eq (atRoot : LeadsToRoot t rootMount root) {names : List String}
    (areNames : ∀ name ∈ names, UnixPath.IsName name) {links : Nat} {rel : Location}
    {resolved : String} (few : links ≤ maxLinks) (relDir : t.find (root ++ rel) = some .dir)
    (leads : LeadsTo t root resolved links rel [])
    (stays : resolveTrip t root links rel names ≠ .leaves) :
    initrdEnd t rootMount resolved names = (resolveTrip t root links rel names).location root := by
  induction names generalizing links rel resolved with
  | nil =>
    obtain ⟨left, -, walked⟩ := leads
    simpa [initrdEnd_nil, resolve, resolveTrip, Trip.location] using walked []
  | cons name names ih =>
    obtain ⟨isName, areNames⟩ := List.forall_mem_cons.mp areNames
    have child : root ++ rel ++ [name] = root ++ (rel ++ [name]) := List.append_assoc ..
    have here := nameResolved_of_stays stays
    generalize resolveTrip t root links rel (name :: names) = trip at stays here ⊢
    cases here with
    | missing found =>
      obtain ⟨left, -, walked⟩ := leads.child isName
      rw [leads.initrdEnd_noLink isName names (by simp [found])]
      refine initrdEnd_gone areNames fun rest => ?_
      rw [walked, walk_missing _ _ (child ▸ found)]
    | dir found =>
      obtain ⟨left, enough, walked⟩ := leads.child isName
      rw [leads.initrdEnd_noLink isName names (by simp [found])]
      refine ih areNames few found ⟨left, enough, fun rest => ?_⟩ stays
      rw [walked, walk_dir _ _ (child ▸ found), child]
      rfl
    | file found =>
      obtain ⟨left, -, walked⟩ := leads.child isName
      rw [leads.initrdEnd_noLink isName names (by simp [found]), Trip.location_ite]
      refine initrdEnd_file areNames fun rest => ?_
      rw [walked, walk_file _ _ (child ▸ found), child]
    | linkLost found starts followed =>
      obtain ⟨more, walked, described⟩ := leads.followed atRoot few relDir starts followed
      rw [initrdEnd_link ((leads.linkAt_iff isName).mpr found)]
      exact initrdEnd_gone areNames fun rest => (walked rest).trans (described rest)
    | linkDir found starts followed isDir =>
      obtain ⟨more, walked, described⟩ := leads.followed atRoot few relDir starts followed
      obtain ⟨fewer, ⟨-, arrives⟩ | ⟨content, isFile, -⟩⟩ := described
      · rw [initrdEnd_link ((leads.linkAt_iff isName).mpr found)]
        refine ih areNames (by omega) isDir ⟨_, Nat.le_add_right _ more, ?_⟩ stays
        exact fun rest => (walked rest).trans (arrives rest)
      · rw [isDir] at isFile
        cases isFile
    | linkFile found starts followed notDir =>
      obtain ⟨more, walked, described⟩ := leads.followed atRoot few relDir starts followed
      obtain ⟨-, ⟨isDir, -⟩ | ⟨content, -, ends⟩⟩ := described
      · exact absurd isDir notDir
      · rw [initrdEnd_link ((leads.linkAt_iff isName).mpr found), Trip.location_ite]
        exact initrdEnd_file areNames fun rest => (walked rest).trans (ends rest)

/-- A trip that does not leave the new root ends where the kernel goes inside it. -/
theorem initrdEnd_eq_walk (atRoot : LeadsToRoot t rootMount root) {names : List String}
    (areNames : ∀ name ∈ names, UnixPath.IsName name)
    (stays : resolveTrip t root maxLinks [] names ≠ .leaves) :
    initrdEnd t rootMount rootMount names = t.walk root maxLinks root (names.map .down) := by
  have rootDir : t.find (root ++ []) = some .dir := by rw [List.append_nil, atRoot.isDir]
  have outside := initrdEnd_eq atRoot areNames (Nat.le_refl maxLinks) rootDir
    ⟨maxLinks, Nat.le_refl _, fun rest => by
      rw [walk_append _ atRoot.leads atRoot.isDir, List.append_nil, List.nil_append]⟩ stays
  have inside := walk_of_resolveTrip atRoot names maxLinks [] rootDir stays
  rw [List.append_nil] at inside
  rw [outside, inside]

end

/-- The answers of a system with these files and without `INITOS_INIT`. -/
def fileAnswers (t : FileTree α) : (c : SysCmd) → c.Resp
  | .isFile p => t.isFile p
  | .readLink p =>
    match t.linkAt p with
    | some target => .ok target
    | none => .error (.io .invalidInput "Invalid argument (os error 22)")
  | c => c.fail (.io .notFound "No such file or directory (os error 2)")

/-- The answers of the examples are those of the tree. -/
theorem showsLinks_fileAnswers (t : FileTree α) : ShowsLinks t (fileAnswers t) where
  link p target found := by rw [fileAnswers, found]
  noLink p none_there := ⟨_, by rw [fileAnswers, none_there]⟩

theorem resolveComponents_fileAnswers (t : FileTree α) (rootMount resolved : String)
    (names : List String) :
    (resolveComponents rootMount resolved (names.map .normal)).run.eval (fileAnswers t) =
      .done (.ok (names.foldl (nextPath t rootMount) resolved)) := by
  induction names generalizing resolved with
  | nil => rfl
  | cons name names ih =>
    cases link : t.linkAt (UnixPath.join resolved name) with
    | some target =>
      rw [List.map_cons, resolveComponents_link (showsLinks_fileAnswers t) link, ih,
        List.foldl_cons, nextPath_link link]
    | none =>
      have failed : fileAnswers t (.readLink (UnixPath.join resolved name)) =
          .error (.io .invalidInput "Invalid argument (os error 22)") := by rw [fileAnswers, link]
      rw [List.map_cons, resolveComponents, Fallible.eval_attempt_call_bind, failed]
      dsimp only
      rw [if_pos (.inl rfl), ih, List.foldl_cons, nextPath_noLink link]

theorem resolveRootPath_fileAnswers (t : FileTree α) (rootMount : String) {rel : String}
    {names : List String} (ofNames : UnixPath.components rel = names.map .normal) :
    (resolveRootPath rootMount rel).run.eval (fileAnswers t) =
      .done (.ok (names.foldl (nextPath t rootMount) rootMount)) := by
  rw [resolveRootPath, ofNames, resolveComponents_fileAnswers]

/-- A root whose `/lib` is an absolute link. -/
def usrTree : FileTree Unit where
  nodes := [(["z"], .dir), (["sysroot"], .dir), (["sysroot", "z"], .dir),
    (["sysroot", "lib"], .link "/usr/lib"), (["sysroot", "usr"], .dir),
    (["sysroot", "usr", "lib"], .dir), (["sysroot", "usr", "lib", "systemd"], .dir),
    (["sysroot", "usr", "lib", "systemd", "systemd"], .file ())]
  inDir := by decide

theorem leadsToRoot_usrTree : LeadsToRoot usrTree "/sysroot" ["sysroot"] where
  leads := by decide +kernel
  isDir := rfl

/-- A root whose `/lib` is a link to a directory that is itself an absolute link. The initrd
    has a directory of that name, too. -/
def mergedTree : FileTree Unit where
  nodes := [(["lib64"], .dir), (["lib64", "firmware"], .dir), (["sysroot"], .dir),
    (["sysroot", "lib"], .link "usr/lib"), (["sysroot", "usr"], .dir),
    (["sysroot", "usr", "lib"], .link "/lib64"), (["sysroot", "lib64"], .dir),
    (["sysroot", "lib64", "firmware"], .dir)]
  inDir := by decide

end Initos.Boot
