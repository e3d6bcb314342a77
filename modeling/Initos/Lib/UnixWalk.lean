import Initos.Lib.UnixFs

/-!
# Walks that stay below a directory

A path may mean one thing inside a `chroot` and another outside: an absolute symbolic link
starts over at the root of the process, and `..` goes up to that root and no further. A walk
that meets neither means the same everywhere. `trip` is the walk of a path below a directory;
it says where the walk ends, or that it leaves the directory.
-/

namespace UnixFs.FileTree

variable {α : Type}

/-! ## Files and links -/

/-- `Path::is_file` of a process with the given root, in that directory. -/
def isFileIn (t : FileTree α) (root : Location) (p : String) : Bool :=
  match (t.walk root maxLinks root (steps p)).bind t.find with
  | some (.file _) => true
  | _ => false

/-- `Path::is_file`. -/
def isFile (t : FileTree α) (p : String) : Bool := t.isFileIn [] p

/-- The target of the symbolic link that a path names; this link is not followed. -/
def linkAt (t : FileTree α) (p : String) : Option String :=
  match (steps p).getLast? with
  | some (.down name) =>
    match (t.walk [] maxLinks [] (steps p).dropLast).bind fun dir => t.find (dir ++ [name]) with
    | some (.link target) => some target
    | _ => none
  | _ => none

section

variable {t : FileTree α} {loc : Location}

theorem mem_of_find {node : Node α} (found : t.find loc = some node) (below : loc ≠ []) :
    (loc, node) ∈ t.nodes := by
  rw [find, lookup, if_neg below] at found
  obtain ⟨before, after, nodes_eq, -⟩ := List.lookup_eq_some_iff.mp found
  rw [nodes_eq]
  simp

/-- What is there lies in a directory. -/
theorem find_dropLast {node : Node α} (found : t.find loc = some node) :
    t.find loc.dropLast = some .dir := by
  by_cases below : loc = []
  · rw [below]
    rfl
  · exact (t.inDir _ (mem_of_find found below)).2

end

/-! ## One step of a walk -/

/-- A walk takes one step after the other, and starts again with fewer links left where it
    meets one. -/
theorem walk_induction {P : Nat → Location → List Step → Prop} (nil : ∀ n x, P n x [])
    (cons : ∀ n x step rest, (∀ y, P n y rest) → (∀ m < n, ∀ y s, P m y s) →
      P n x (step :: rest)) (n : Nat) (x : Location) (s : List Step) : P n x s := by
  induction n using Nat.strongRecOn generalizing x s with
  | ind n fewer =>
    induction s generalizing x with
    | nil => exact nil n x
    | cons step rest ih => exact cons n x step rest ih fewer

section

variable (t : FileTree α) (root : Location) (n : Nat) (cur : Location)

@[simp] theorem walk_nil : t.walk root n cur [] = some cur := by
  cases n <;> rfl

@[simp] theorem walk_root (rest : List Step) :
    t.walk root n cur (.root :: rest) = t.walk root n root rest := by
  cases n <;> rfl

@[simp] theorem walk_here (rest : List Step) :
    t.walk root n cur (.here :: rest) = t.walk root n cur rest := by
  cases n <;> rfl

@[simp] theorem walk_up (rest : List Step) : t.walk root n cur (.up :: rest) =
    t.walk root n (if cur = root then cur else cur.dropLast) rest := by
  cases n <;> rfl

variable {t cur}

theorem walk_missing {name : String} (missing : t.find (cur ++ [name]) = none)
    (rest : List Step) : t.walk root n cur (.down name :: rest) = none := by
  cases n <;> simp [walk, walkWith, missing]

theorem walk_dir {name : String} (isDir : t.find (cur ++ [name]) = some .dir)
    (rest : List Step) :
    t.walk root n cur (.down name :: rest) = t.walk root n (cur ++ [name]) rest := by
  cases n <;> simp [walk, walkWith, isDir]

theorem walk_file {name : String} {content : α}
    (isFile : t.find (cur ++ [name]) = some (.file content)) (rest : List Step) :
    t.walk root n cur (.down name :: rest) = if rest = [] then some (cur ++ [name]) else none := by
  cases n <;> simp [walk, walkWith, isFile]

theorem walk_link {name target : String}
    (isLink : t.find (cur ++ [name]) = some (.link target)) (rest : List Step) :
    t.walk root (n + 1) cur (.down name :: rest) = t.walk root n cur (steps target ++ rest) := by
  simp [walk, walkWith, isLink]

theorem walk_link_zero {name target : String}
    (isLink : t.find (cur ++ [name]) = some (.link target)) (rest : List Step) :
    t.walk root 0 cur (.down name :: rest) = none := by
  simp [walk, walkWith, isLink]

end

theorem prefix_dropLast {root cur : Location} (below : root <+: cur) (other : root ≠ cur) :
    root <+: cur.dropLast := by
  obtain ⟨rel, rfl⟩ := below
  have nonempty : rel ≠ [] := fun empty => other (by rw [empty, List.append_nil])
  rw [List.dropLast_append_of_ne_nil nonempty]
  exact List.prefix_append _ _

/-- A process does not get above its root. -/
theorem walk_below {t : FileTree α} {root : Location} {n : Nat} {cur loc : Location}
    {s : List Step} (below : root <+: cur) (leads : t.walk root n cur s = some loc) :
    root <+: loc := by
  induction n, cur, s using walk_induction with
  | nil n cur =>
    rw [walk_nil, Option.some.injEq] at leads
    exact leads ▸ below
  | cons n cur step s ih fewer =>
    have child (name : String) : root <+: cur ++ [name] := below.trans (List.prefix_append _ _)
    cases step with
    | root =>
      rw [walk_root] at leads
      exact ih root (List.prefix_refl root) leads
    | here =>
      rw [walk_here] at leads
      exact ih cur below leads
    | up =>
      rw [walk_up] at leads
      by_cases top : cur = root
      · rw [if_pos top] at leads
        exact ih cur below leads
      · rw [if_neg top] at leads
        exact ih _ (prefix_dropLast below (Ne.symm top)) leads
    | down name =>
      cases found : t.find (cur ++ [name]) with
      | none =>
        rw [walk_missing _ _ found] at leads
        cases leads
      | some node =>
        cases node with
        | dir =>
          rw [walk_dir _ _ found] at leads
          exact ih _ (child name) leads
        | file content =>
          rw [walk_file _ _ found] at leads
          by_cases last : s = []
          · rw [if_pos last, Option.some.injEq] at leads
            exact leads ▸ child name
          · rw [if_neg last] at leads
            cases leads
        | link target =>
          cases n with
          | zero =>
            rw [walk_link_zero _ found] at leads
            cases leads
          | succ n =>
            rw [walk_link _ _ found] at leads
            exact fewer n (Nat.lt_succ_self n) cur _ below leads

/-! ## Joined paths -/

theorem steps_ne_nil (p : String) : steps p ≠ [] := by
  rw [steps]
  split
  · exact List.cons_ne_nil _ _
  · rw [Ne, List.map_eq_nil_iff]
    exact List.splitOn_ne_nil _ _

/-- The steps for the pieces in front of a path. -/
def frontSteps (absolute : Bool) (front : List (List Char)) : List Step :=
  if absolute then .root :: front.tail.map stepOf else front.map stepOf

theorem steps_of_pieces {p : String} {front back : List (List Char)} (nonempty : front ≠ [])
    (split : UnixPath.pieces p = front ++ back) :
    steps p = frontSteps (UnixPath.isAbsolute p) front ++ back.map stepOf := by
  rw [steps, split, frontSteps]
  by_cases absolute : UnixPath.isAbsolute p = true
  · rw [if_pos absolute, if_pos absolute, List.tail_append_of_ne_nil nonempty, List.map_append,
      List.cons_append]
  · rw [if_neg absolute, if_neg absolute, List.map_append]

/-- The steps of a joined path; only a step that stays may be left out. -/
theorem steps_join (a : String) {b : String} (relative : UnixPath.isAbsolute b = false) :
    steps (UnixPath.join a b) = steps a ++ steps b ∨
      ∃ front, steps a = front ++ [.here] ∧ steps (UnixPath.join a b) = front ++ steps b := by
  have steps_b : steps b = (UnixPath.pieces b).map stepOf := by rw [steps, relative]; rfl
  have absolute_eq {p : String} (nonempty : a.toList ≠ []) (starts : a.toList <+: p.toList) :
      UnixPath.isAbsolute p = UnixPath.isAbsolute a := by
    obtain ⟨rest, same⟩ := starts
    rw [UnixPath.isAbsolute, UnixPath.isAbsolute, ← same, List.head?_append_of_ne_nil _ nonempty]
  have starts := UnixPath.isPrefix_join a relative
  by_cases empty : a = ""
  · subst empty
    exact .inr ⟨[], rfl, by simp [UnixPath.join, relative]⟩
  have nonempty : a.toList ≠ [] := fun none => empty (String.toList_eq_nil_iff.mp none)
  by_cases ends : a.toList.getLast? = some '/'
  · -- the last piece of `a` is empty, and the first piece of `b` takes its place
    obtain ⟨front, chars⟩ := List.getLast?_eq_some_iff.mp ends
    have pieces_a : UnixPath.pieces a = front.splitOn '/' ++ [[]] := by
      rw [UnixPath.pieces, chars, List.splitOn_append_cons_self]
      rfl
    have pieces_ab : UnixPath.pieces (UnixPath.join a b) =
        front.splitOn '/' ++ UnixPath.pieces b := by
      rw [UnixPath.join, relative, if_neg Bool.false_ne_true, if_pos (.inr ends), UnixPath.pieces,
        String.toList_append, chars, List.append_assoc, List.singleton_append,
        List.splitOn_append_cons_self]
      rfl
    refine .inr ⟨_, steps_of_pieces (List.splitOn_ne_nil _ _) pieces_a, ?_⟩
    rw [steps_of_pieces (List.splitOn_ne_nil _ _) pieces_ab, absolute_eq nonempty starts, steps_b]
  · have pieces_ab : UnixPath.pieces (UnixPath.join a b) =
        UnixPath.pieces a ++ UnixPath.pieces b := by
      rw [UnixPath.join, relative, if_neg Bool.false_ne_true, if_neg (by simp [empty, ends]),
        UnixPath.pieces, String.toList_append, String.toList_append, List.append_assoc,
        show "/".toList = ['/'] from rfl, List.singleton_append, List.splitOn_append_cons_self]
      rfl
    refine .inl ?_
    rw [steps_of_pieces (List.splitOn_ne_nil _ _) pieces_ab, absolute_eq nonempty starts, steps_b]
    rfl

/-- A step that stays does nothing in front of others. -/
theorem walk_here_between (t : FileTree α) (root : Location) (n : Nat) (cur : Location)
    (before : List Step) {after : List Step} (more : after ≠ []) :
    t.walk root n cur (before ++ .here :: after) = t.walk root n cur (before ++ after) := by
  induction n, cur, before using walk_induction with
  | nil n cur => simp
  | cons n cur step rest ih fewer =>
    cases step with
    | root => simp [ih]
    | here => simp [ih]
    | up => simp [ih]
    | down name =>
      have nonempty (s : List Step) : s ++ .here :: after ≠ [] ∧ s ++ after ≠ [] := by simp [more]
      simp only [List.cons_append]
      cases found : t.find (cur ++ [name]) with
      | none => rw [walk_missing _ _ found, walk_missing _ _ found]
      | some node =>
        cases node with
        | dir => rw [walk_dir _ _ found, walk_dir _ _ found, ih]
        | file content =>
          rw [walk_file _ _ found, walk_file _ _ found, if_neg (nonempty rest).1,
            if_neg (nonempty rest).2]
        | link target =>
          cases n with
          | zero => rw [walk_link_zero _ found, walk_link_zero _ found]
          | succ n =>
            rw [walk_link _ _ found, walk_link _ _ found, ← List.append_assoc, ← List.append_assoc,
              fewer n (Nat.lt_succ_self n)]

/-- A joined path is walked like one path after the other. -/
theorem walk_join (t : FileTree α) (root : Location) (n : Nat) (cur : Location) (a : String)
    {b : String} (relative : UnixPath.isAbsolute b = false) (rest : List Step) :
    t.walk root n cur (steps (UnixPath.join a b) ++ rest) =
      t.walk root n cur (steps a ++ (steps b ++ rest)) := by
  rcases steps_join a relative with same | ⟨front, steps_a, steps_ab⟩
  · rw [same, List.append_assoc]
  · have more : steps b ++ rest ≠ [] := by simp [steps_ne_nil]
    rw [steps_a, steps_ab, List.append_assoc, List.append_assoc, List.singleton_append,
      walk_here_between t root n cur front more]

/-- A walk that ends at a directory without a link has a part in front of every longer one. -/
theorem walk_append {t : FileTree α} {root : Location} (n : Nat) {cur loc : Location}
    {s : List Step} (leads : t.walk root 0 cur s = some loc) (isDir : t.find loc = some .dir)
    (rest : List Step) : t.walk root n cur (s ++ rest) = t.walk root n loc rest := by
  induction s generalizing cur with
  | nil =>
    rw [walk_nil, Option.some.injEq] at leads
    rw [leads, List.nil_append]
  | cons step s ih =>
    cases step with
    | root =>
      rw [walk_root] at leads
      rw [List.cons_append, walk_root, ih leads]
    | here =>
      rw [walk_here] at leads
      rw [List.cons_append, walk_here, ih leads]
    | up =>
      rw [walk_up] at leads
      rw [List.cons_append, walk_up, ih leads]
    | down name =>
      cases found : t.find (cur ++ [name]) with
      | none =>
        rw [walk_missing _ _ found] at leads
        cases leads
      | some node =>
        cases node with
        | dir =>
          rw [walk_dir _ _ found] at leads
          rw [List.cons_append, walk_dir _ _ found, ih leads]
        | file content =>
          rw [walk_file _ _ found] at leads
          by_cases last : s = []
          · rw [if_pos last, Option.some.injEq] at leads
            rw [← leads, found] at isDir
            cases isDir
          · rw [if_neg last] at leads
            cases leads
        | link target =>
          rw [walk_link_zero _ found] at leads
          cases leads

/-- A trailing slash asks for a directory. -/
theorem walk_concat_here {t : FileTree α} {root : Location} (rootDir : t.find root = some .dir)
    {n : Nat} {cur loc : Location} {s : List Step} (isDir : t.find cur = some .dir) :
    t.walk root n cur (s ++ [.here]) = some loc ↔
      t.walk root n cur s = some loc ∧ t.find loc = some .dir := by
  induction n, cur, s using walk_induction with
  | nil n cur =>
    rw [List.nil_append, walk_here, walk_nil, Option.some.injEq]
    exact ⟨fun same => ⟨same, same ▸ isDir⟩, And.left⟩
  | cons n cur step s ih fewer =>
    cases step with
    | root => simpa using ih root rootDir
    | here => simpa using ih cur isDir
    | up =>
      rw [List.cons_append, walk_up, walk_up]
      by_cases top : cur = root
      · rw [if_pos top]
        exact ih cur isDir
      · rw [if_neg top]
        exact ih _ (find_dropLast isDir)
    | down name =>
      rw [List.cons_append]
      cases found : t.find (cur ++ [name]) with
      | none => simp [walk_missing _ _ found]
      | some node =>
        cases node with
        | dir => simpa [walk_dir _ _ found] using ih _ found
        | file content =>
          rw [walk_file _ _ found, walk_file _ _ found, if_neg (by simp)]
          refine iff_of_false nofun fun ended => ?_
          by_cases last : s = []
          · rw [if_pos last, Option.some.injEq] at ended
            rw [← ended.1, found] at ended
            cases ended.2
          · rw [if_neg last] at ended
            cases ended.1
        | link target =>
          cases n with
          | zero => simp [walk_link_zero _ found]
          | succ n =>
            rw [walk_link _ _ found, walk_link _ _ found, ← List.append_assoc]
            exact fewer n (Nat.lt_succ_self n) cur _ isDir

/-- The last name of a path is looked up in the directory that the rest leads to. -/
theorem walk_concat_down {t : FileTree α} {root : Location} {n : Nat} {cur loc : Location}
    {s : List Step} {name : String} (leads : t.walk root n cur (s ++ [.down name]) = some loc) :
    ∃ dir node, t.walk root n cur s = some dir ∧ t.find (dir ++ [name]) = some node := by
  induction n, cur, s using walk_induction with
  | nil n cur =>
    rw [List.nil_append] at leads
    cases found : t.find (cur ++ [name]) with
    | none =>
      rw [walk_missing _ _ found] at leads
      cases leads
    | some node => exact ⟨cur, node, walk_nil .., found⟩
  | cons n cur step s ih fewer =>
    rw [List.cons_append] at leads
    cases step with
    | root => simpa using ih root (by simpa using leads)
    | here => simpa using ih cur (by simpa using leads)
    | up => simpa using ih _ (by simpa using leads)
    | down other =>
      cases found : t.find (cur ++ [other]) with
      | none =>
        rw [walk_missing _ _ found] at leads
        cases leads
      | some node =>
        cases node with
        | dir =>
          rw [walk_dir _ _ found] at leads ⊢
          exact ih _ leads
        | file content =>
          rw [walk_file _ _ found, if_neg (by simp)] at leads
          cases leads
        | link target =>
          cases n with
          | zero =>
            rw [walk_link_zero _ found] at leads
            cases leads
          | succ n =>
            rw [walk_link _ _ found, ← List.append_assoc] at leads
            rw [walk_link _ _ found]
            exact fewer n (Nat.lt_succ_self n) cur _ leads

theorem steps_of_isName {name : String} (isName : UnixPath.IsName name) :
    steps name = [.down name] := by
  have relative := UnixPath.not_absolute_of_noSlash isName.noSlash
  have notUp : name.toList ≠ ['.', '.'] := fun up =>
    isName.ne_dotdot (String.toList_inj.mp (by simpa using up))
  have skips := isName.not_skipped
  simp only [UnixPath.skipped, Bool.or_eq_false_iff, beq_eq_false_iff_ne] at skips
  rw [steps, relative, if_neg Bool.false_ne_true, UnixPath.pieces,
    List.splitOn_eq_singleton isName.noSlash, List.map_singleton, stepOf,
    if_neg (by simp [skips]), if_neg notUp, String.ofList_toList]

/-- The link at a name in a directory. -/
theorem linkAt_join {t : FileTree α} (a : String) {name target : String}
    (isName : UnixPath.IsName name) : t.linkAt (UnixPath.join a name) = some target ↔
      ∃ dir, t.walk [] maxLinks [] (steps a ++ [.here]) = some dir ∧
        t.find (dir ++ [name]) = some (.link target) := by
  have relative := UnixPath.not_absolute_of_noSlash isName.noSlash
  obtain ⟨front, steps_eq, walk_eq⟩ : ∃ front,
      steps (UnixPath.join a name) = front ++ [.down name] ∧
      t.walk [] maxLinks [] (steps a ++ [.here]) = t.walk [] maxLinks [] (front ++ [.here]) := by
    rcases steps_join a relative with same | ⟨front, steps_a, steps_ab⟩
    · exact ⟨steps a, by rw [same, steps_of_isName isName], rfl⟩
    · refine ⟨front, by rw [steps_ab, steps_of_isName isName], ?_⟩
      rw [steps_a, List.append_assoc]
      exact walk_here_between t [] maxLinks [] front (List.cons_ne_nil _ _)
  rw [linkAt, steps_eq, List.getLast?_concat, List.dropLast_concat, walk_eq]
  dsimp only
  constructor
  · intro found
    cases ended : t.walk [] maxLinks [] front with
    | none => simp [ended] at found
    | some dir =>
      rw [ended, Option.bind_some] at found
      cases isLink : t.find (dir ++ [name]) with
      | none => simp [isLink] at found
      | some node =>
        have isDir := find_dropLast isLink
        rw [List.dropLast_concat] at isDir
        refine ⟨dir, (walk_concat_here rfl rfl).mpr ⟨ended, isDir⟩, ?_⟩
        cases node with
        | link target' =>
          rw [isLink] at found
          rw [isLink, Option.some.inj found]
        | dir => simp [isLink] at found
        | file content => simp [isLink] at found
  · rintro ⟨dir, ended, isLink⟩
    rw [walk_concat_here rfl rfl] at ended
    rw [ended.1, Option.bind_some, isLink]

/-- A file that is there is listed in its directory. -/
theorem mem_listing_of_pathExists {t : FileTree α} {a name : String}
    (isName : UnixPath.IsName name) (there : t.pathExists (UnixPath.join a name) = true) :
    name ∈ t.listing a := by
  obtain ⟨loc, leads⟩ := Option.isSome_iff_exists.mp there
  have walked := walk_join t [] maxLinks [] a (UnixPath.not_absolute_of_noSlash isName.noSlash) []
  rw [List.append_nil, List.append_nil, steps_of_isName isName, ← resolve, leads] at walked
  obtain ⟨dir, node, walked, found⟩ := walk_concat_down walked.symm
  rw [listing, resolve, walked]
  exact List.mem_filterMap.mpr ⟨_, mem_of_find found (by simp), by simp⟩

/-! ## Trips -/

/-- A walk below a directory. -/
inductive Trip where
  /-- It goes to the root or above the directory, or follows more links than are left. -/
  | leaves
  /-- There is nothing at its end. -/
  | lost
  /-- It ends here, with so many links left. -/
  | ends (rel : Location) (left : Nat)
  deriving DecidableEq

/-- A walk below `base`, which it must not leave; `follow` goes on where a link is met. -/
def tripWith (t : FileTree α) (base : Location) (left : Nat)
    (follow : Location → List Step → Trip) (rel : Location) : List Step → Trip
  | [] => .ends rel left
  | .root :: _ => .leaves
  | .here :: rest => t.tripWith base left follow rel rest
  | .up :: rest => if rel = [] then .leaves else t.tripWith base left follow rel.dropLast rest
  | .down name :: rest =>
    match t.find (base ++ (rel ++ [name])) with
    | none => .lost
    | some .dir => t.tripWith base left follow (rel ++ [name]) rest
    | some (.file _) => if rest = [] then .ends (rel ++ [name]) left else .lost
    | some (.link target) => follow rel (steps target ++ rest)

/-- The walk below `base`, from `rel` in it. -/
def trip (t : FileTree α) (base : Location) : (links : Nat) → Location → List Step → Trip
  | 0 => t.tripWith base 0 fun _ _ => .leaves
  | links + 1 => t.tripWith base (links + 1) (t.trip base links)

section

variable (t : FileTree α) (base : Location) (n : Nat) (rel : Location)

@[simp] theorem trip_nil : t.trip base n rel [] = .ends rel n := by
  cases n <;> rfl

@[simp] theorem trip_root (rest : List Step) : t.trip base n rel (.root :: rest) = .leaves := by
  cases n <;> rfl

@[simp] theorem trip_here (rest : List Step) :
    t.trip base n rel (.here :: rest) = t.trip base n rel rest := by
  cases n <;> rfl

@[simp] theorem trip_up (rest : List Step) : t.trip base n rel (.up :: rest) =
    if rel = [] then .leaves else t.trip base n rel.dropLast rest := by
  cases n <;> rfl

theorem trip_down (name : String) (rest : List Step) : t.trip base n rel (.down name :: rest) =
    match t.find (base ++ (rel ++ [name])) with
    | none => .lost
    | some .dir => t.trip base n (rel ++ [name]) rest
    | some (.file _) => if rest = [] then .ends (rel ++ [name]) n else .lost
    | some (.link target) =>
      match n with
      | 0 => .leaves
      | n + 1 => t.trip base n rel (steps target ++ rest) := by
  cases n with
  | zero => cases found : t.find (base ++ (rel ++ [name])) with
    | none => simp [trip, tripWith, found]
    | some node => cases node <;> simp [trip, tripWith, found]
  | succ n => cases found : t.find (base ++ (rel ++ [name])) with
    | none => simp [trip, tripWith, found]
    | some node => cases node <;> simp [trip, tripWith, found]

/-- What a trip says about longer walks with `m` more links. -/
def Trip.Describes (root : Location) (m : Nat) (s : List Step) : Trip → Prop
  | .leaves => True
  | .lost => ∀ rest, t.walk root (n + m) (base ++ rel) (s ++ rest) = none
  | .ends loc left => left ≤ n ∧
    (t.find (base ++ loc) = some .dir ∧ (∀ rest,
        t.walk root (n + m) (base ++ rel) (s ++ rest) = t.walk root (left + m) (base ++ loc) rest) ∨
      ∃ content, t.find (base ++ loc) = some (.file content) ∧ ∀ rest,
        t.walk root (n + m) (base ++ rel) (s ++ rest) =
          if rest = [] then some (base ++ loc) else none)

end

/-- The steps that one step is replaced by. -/
theorem Trip.Describes.of_eq {t : FileTree α} {base root : Location} {n n' m : Nat}
    {rel rel' : Location} {s s' : List Step} {trip : Trip}
    (described : Trip.Describes t base n' rel' root m s' trip) (fewer : n' ≤ n)
    (same : ∀ rest, t.walk root (n + m) (base ++ rel) (s ++ rest) =
      t.walk root (n' + m) (base ++ rel') (s' ++ rest)) :
    Trip.Describes t base n rel root m s trip := by
  cases trip with
  | leaves => trivial
  | lost => exact fun rest => (same rest).trans (described rest)
  | ends loc left =>
    obtain ⟨le, found⟩ := described
    refine ⟨Nat.le_trans le fewer, ?_⟩
    simp only [same]
    exact found

/-- The walk is as the trip says, for every root that is not below the directory. -/
theorem trip_describes (t : FileTree α) {base root : Location} (above : root.length ≤ base.length)
    (n : Nat) (rel : Location) (s : List Step) (m : Nat)
    (isDir : t.find (base ++ rel) = some .dir) :
    Trip.Describes t base n rel root m s (t.trip base n rel s) := by
  induction n, rel, s using walk_induction with
  | nil n rel =>
    rw [trip_nil]
    exact ⟨Nat.le_refl n, .inl ⟨isDir, fun _ => rfl⟩⟩
  | cons n rel step s ih fewer =>
    cases step with
    | root =>
      rw [trip_root]
      trivial
    | here =>
      rw [trip_here]
      exact (ih rel isDir).of_eq (Nat.le_refl n) fun rest => by rw [List.cons_append, walk_here]
    | up =>
      rw [trip_up]
      by_cases top : rel = []
      · rw [if_pos top]
        trivial
      · have parent : (base ++ rel).dropLast = base ++ rel.dropLast :=
          List.dropLast_append_of_ne_nil top
        have below : base ++ rel ≠ root := by
          intro same
          have length := congrArg List.length same
          have := List.length_pos_of_ne_nil top
          rw [List.length_append] at length
          omega
        rw [if_neg top]
        refine (ih rel.dropLast (parent ▸ find_dropLast isDir)).of_eq (Nat.le_refl n) fun rest => ?_
        rw [List.cons_append, walk_up, if_neg below, parent]
    | down name =>
      have child : base ++ rel ++ [name] = base ++ (rel ++ [name]) := List.append_assoc ..
      rw [trip_down]
      cases found : t.find (base ++ (rel ++ [name])) with
      | none => exact fun rest => walk_missing root (n + m) (child ▸ found) (s ++ rest)
      | some node =>
        cases node with
        | dir =>
          refine (ih (rel ++ [name]) found).of_eq (Nat.le_refl n) fun rest => ?_
          rw [List.cons_append, walk_dir _ _ (child ▸ found), child]
        | file content =>
          have walked rest := walk_file root (n + m) (child ▸ found) (s ++ rest)
          dsimp only
          by_cases last : s = []
          · rw [if_pos last]
            refine ⟨Nat.le_refl n, .inr ⟨content, found, fun rest => ?_⟩⟩
            rw [List.cons_append, walked, last, child, List.nil_append]
          · rw [if_neg last]
            exact fun rest => (walked rest).trans (if_neg (by simp [last]))
        | link target =>
          cases n with
          | zero => trivial
          | succ n =>
            refine (fewer n (Nat.lt_succ_self n) rel _ isDir).of_eq (Nat.le_succ n) fun rest => ?_
            rw [List.cons_append, Nat.add_right_comm, walk_link _ _ (child ▸ found),
              List.append_assoc]

/-- Where a trip below `base` ends. -/
def Trip.location (base : Location) : Trip → Option Location
  | .ends loc _ => some (base ++ loc)
  | _ => none

theorem Trip.location_ite (base : Location) (p : Prop) [Decidable p] (loc : Location)
    (left : Nat) : (if p then Trip.ends loc left else .lost).location base =
      if p then some (base ++ loc) else none := by
  split <;> rfl

/-- The trip ends at a regular file. -/
def Trip.atFile (t : FileTree α) (base : Location) : Trip → Bool
  | .ends loc _ =>
    match t.find (base ++ loc) with
    | some (.file _) => true
    | _ => false
  | _ => false

/-- Whether a path is a file is decided by a trip of its walk, if that does not leave. -/
theorem isFileIn_eq_atFile {t : FileTree α} {base root : Location} {p : String} {s : List Step}
    (above : root.length ≤ base.length) (isDir : t.find base = some .dir)
    (walked : t.walk root maxLinks root (steps p) = t.walk root maxLinks base s)
    (stays : t.trip base maxLinks [] s ≠ .leaves) :
    t.isFileIn root p = (t.trip base maxLinks [] s).atFile t base := by
  have described := trip_describes t above maxLinks [] s 0 (by rwa [List.append_nil])
  rw [isFileIn, walked]
  cases trip : t.trip base maxLinks [] s with
  | leaves => exact absurd trip stays
  | lost =>
    rw [trip] at described
    have gone := described []
    rw [List.append_nil, List.append_nil, Nat.add_zero] at gone
    rw [gone]
    rfl
  | ends loc left =>
    have ended : t.walk root maxLinks base s = some (base ++ loc) := by
      rw [trip] at described
      obtain ⟨-, ⟨-, arrives⟩ | ⟨content, -, ended⟩⟩ := described
      · simpa using arrives []
      · simpa using ended []
    rw [ended]
    rfl

/-- Directories with the same contents have the same trips. -/
theorem trip_congr {t : FileTree α} {base base' : Location}
    (same : ∀ rel, t.find (base ++ rel) = t.find (base' ++ rel)) (n : Nat) (rel : Location)
    (s : List Step) : t.trip base n rel s = t.trip base' n rel s := by
  induction n, rel, s using walk_induction with
  | nil n rel => rw [trip_nil, trip_nil]
  | cons n rel step s ih fewer =>
    cases step with
    | root => rw [trip_root, trip_root]
    | here => rw [trip_here, trip_here, ih]
    | up => rw [trip_up, trip_up, ih]
    | down name =>
      rw [trip_down, trip_down, same]
      cases t.find (base' ++ (rel ++ [name])) with
      | none => rfl
      | some node =>
        cases node with
        | dir => exact ih _
        | file content => rfl
        | link target =>
          cases n with
          | zero => rfl
          | succ n => exact fewer n (Nat.lt_succ_self n) rel _

theorem Trip.atFile_congr {t : FileTree α} {base base' : Location}
    (same : ∀ rel, t.find (base ++ rel) = t.find (base' ++ rel)) (trip : Trip) :
    trip.atFile t base = trip.atFile t base' := by
  cases trip with
  | leaves | lost => rfl
  | ends loc left => rw [atFile, atFile, same]

end UnixFs.FileTree
