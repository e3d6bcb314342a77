import Mathlib.Data.List.Infix
import Mathlib.Logic.Function.Basic
import Initos.Lib.UnixPath

/-!
# A file tree that changes

What the usual commands do to a file tree with symbolic links, as relations between the tree
before and after one system call. Paths are walked as the kernel walks them, so a link on the
way leads the command elsewhere. A file may be sealed with fs-verity and cannot be written then.

A walk along a location on which no link lies, or only links that lead to files, ends at that
location or at a file: `Walk.eq_or_file`. This is what keeps a command where it is meant to be.
-/

namespace LiveFs

/-- A file name. A name that `mktemp` has chosen for a process is no text that was known before. -/
inductive Name where
  | text (s : String)
  | temp (template : String) (process index : Nat)
deriving DecidableEq

/-- The names on the way from the root. -/
abbrev Location := List Name

/-- One step of a path. -/
inductive Step where
  | root
  | up
  | down (name : Name)
deriving DecidableEq

/-- A path, absolute where it begins with the root. -/
abbrev Path := List Step

/-- What a location holds; a file may have fs-verity enabled. -/
inductive Node (α : Type) where
  | file (content : α) (verity : Bool)
  | dir
  | link (target : Path)
deriving DecidableEq

/-- A file system. -/
abbrev Fs (α : Type) := Location → Option (Node α)

/-- The absolute path of a location. -/
def path (l : Location) : Path := l.map .down

theorem path_append (l l' : Location) : path (l ++ l') = path l ++ path l' := List.map_append

/-- The step that stands between two slashes; an empty text and `.` are none. -/
def stepOf (piece : List Char) : Option Step :=
  if piece = [] ∨ piece = ['.'] then none
  else if piece = ['.', '.'] then some .up
  else some (.down (.text (String.ofList piece)))

/-- The steps between the slashes of a text. -/
def steps (s : String) : Path := (UnixPath.pieces s).filterMap stepOf

/-- The path that a text denotes. -/
def parse (s : String) : Path := (if UnixPath.isAbsolute s then [.root] else []) ++ steps s

/-- The names between the slashes of a text. -/
def names (s : String) : Location :=
  ((UnixPath.pieces s).filter (· ≠ [])).map fun piece => .text (String.ofList piece)

/-- The name a command gives to its argument in a directory; there is none for `.` and `..`. -/
def baseName (s : String) : Option Name :=
  ((UnixPath.pieces s).filter (· ≠ [])).getLast?.bind fun piece =>
    match stepOf piece with
    | some (.down n) => some n
    | _ => none

/-- The process in whose temporary directory a location lies. -/
def owner : Location → Option Nat
  | [] => none
  | .text _ :: l => owner l
  | .temp _ process _ :: _ => some process

@[simp]
theorem owner_append (l l' : Location) : owner (l ++ l') = (owner l).or (owner l') := by
  induction l with
  | nil => rfl
  | cons name l ih =>
    cases name with
    | text => exact ih
    | temp => rfl

theorem owner_of_prefix {l l' : Location} (start : l <+: l') (unowned : owner l' = none) :
    owner l = none := by
  obtain ⟨rest, rfl⟩ := start
  rw [owner_append, Option.or_eq_none_iff] at unowned
  exact unowned.1

/-- A place on the way to a location: before some place of it, or behind. -/
theorem prefix_append_cases {q l l' : Location} (start : q <+: l ++ l') :
    q <+: l ∨ ∃ below, q = l ++ below ∧ below <+: l' := by
  rcases List.prefix_or_prefix_of_prefix start (List.prefix_append l l') with before | ⟨below, rfl⟩
  · exact .inl before
  · exact .inr ⟨below, rfl, (List.prefix_append_right_inj l).mp start⟩

section Walks

variable {α : Type}

/-- The location holds a symbolic link. -/
def IsLink : Option (Node α) → Prop
  | some (.link _) => True
  | _ => False

/-- The location a path leads to from the directory `cur`; it need not exist. -/
inductive Walk (fs : Fs α) : Location → Path → Location → Prop where
  | nil {cur} : Walk fs cur [] cur
  | root {cur rest l} : Walk fs [] rest l → Walk fs cur (.root :: rest) l
  | up {cur rest l} : Walk fs cur.dropLast rest l → Walk fs cur (.up :: rest) l
  | last {cur n} : ¬IsLink (fs (cur ++ [n])) → Walk fs cur [.down n] (cur ++ [n])
  | dir {cur n rest l} : fs (cur ++ [n]) = some .dir → Walk fs (cur ++ [n]) rest l →
      Walk fs cur (.down n :: rest) l
  | link {cur n target rest l} : fs (cur ++ [n]) = some (.link target) →
      Walk fs cur (target ++ rest) l → Walk fs cur (.down n :: rest) l

/-- No link lies on the way to the location. -/
def Clear (fs : Fs α) (l : Location) : Prop := ∀ q, q <+: l → ¬IsLink (fs q)

/-- A link target that is the absolute path of a file. -/
def LeadsToFile (fs : Fs α) (target : Path) : Prop :=
  ∃ l content verity, l ≠ [] ∧ target = .root :: path l ∧ Clear fs l ∧
    fs l = some (.file content verity)

/-- Links on the way to the location lead to files. -/
def Firm (fs : Fs α) (l : Location) : Prop :=
  ∀ q, q <+: l → ∀ target, fs q = some (.link target) → LeadsToFile fs target

variable {fs fs' : Fs α} {l d : Location} {n : Name}

theorem not_isLink_of_eq {o : Option (Node α)} (plain : ∀ target, o ≠ some (.link target)) :
    ¬IsLink o := by
  intro isLink
  match o, isLink with
  | some (.link target), _ => exact plain target rfl

theorem Clear.mono {l' : Location} (clear : Clear fs l) (shorter : l' <+: l) : Clear fs l' :=
  fun q start => clear q (start.trans shorter)

theorem Firm.mono {l' : Location} (firm : Firm fs l) (shorter : l' <+: l) : Firm fs l' :=
  fun q start => firm q (start.trans shorter)

theorem Clear.firm (clear : Clear fs l) : Firm fs l := by
  intro q start target link
  have plain := clear q start
  rw [link] at plain
  exact absurd trivial plain

theorem Clear.concat (clear : Clear fs l) (plain : ¬IsLink (fs (l ++ [n]))) :
    Clear fs (l ++ [n]) := by
  intro q start
  rcases List.prefix_concat_iff.mp start with rfl | start
  · exact plain
  · exact clear q start

theorem Clear.update {l' : Location} {after : Option (Node α)} (clear : Clear fs l)
    (plain : ¬IsLink after) : Clear (Function.update fs l' after) l := by
  intro q start
  by_cases here : q = l'
  · rw [here, Function.update_self]
    exact plain
  · rw [Function.update_of_ne here]
    exact clear q start

/-- A clear walk ends where it should, and goes on from a directory only. -/
theorem Walk.of_clear {cur rest : Location} {more : Path}
    (clear : ∀ q, q <+: rest → ¬IsLink (fs (cur ++ q)))
    (walk : Walk fs cur (path rest ++ more) d) :
    more = [] ∧ d = cur ++ rest ∨
      (rest = [] ∨ fs (cur ++ rest) = some .dir) ∧ Walk fs (cur ++ rest) more d := by
  induction rest generalizing cur with
  | nil => exact .inr ⟨.inl rfl, by simpa [path] using walk⟩
  | cons n rest ih =>
    have plain := clear [n] (by simp)
    have onward : ∀ q, q <+: rest → ¬IsLink (fs (cur ++ [n] ++ q)) := by
      intro q start
      have := clear (n :: q) (by simpa using start)
      simpa using this
    generalize steps : path (n :: rest) ++ more = whole at walk
    cases walk with
    | last _ =>
      obtain ⟨rfl, nothing⟩ : n = _ ∧ path rest ++ more = [] := by simpa [path] using steps
      obtain ⟨none, rfl⟩ := List.append_eq_nil_iff.mp nothing
      obtain rfl : rest = [] := List.map_eq_nil_iff.mp none
      exact .inl ⟨rfl, rfl⟩
    | @dir _ _ rest' _ isDir walk =>
      obtain ⟨rfl, rfl⟩ : n = _ ∧ path rest ++ more = rest' := by simpa [path] using steps
      rcases ih onward walk with done | ⟨stop, walk⟩
      · exact .inl (by simpa using done)
      · refine .inr ⟨.inr ?_, by simpa using walk⟩
        rcases stop with rfl | isDir'
        · exact isDir
        · simpa using isDir'
    | link isLink _ =>
      obtain ⟨rfl, _⟩ : n = _ ∧ _ := by simpa [path] using steps
      rw [isLink] at plain
      exact absurd trivial plain
    | _ => simp [path] at steps

/-- A path without links leads to its own location. -/
theorem Walk.eq_of_clear (clear : Clear fs l) (walk : Walk fs [] (path l) d) : d = l := by
  rw [← List.append_nil (path l)] at walk
  rcases Walk.of_clear (fun q start => by simpa using clear q start) walk with ⟨_, same⟩ | ⟨_, stop⟩
  · simpa using same
  · cases stop
    rfl

/-- Walking on from a link that leads to a file is possible only when nothing is left. -/
theorem LeadsToFile.walk {target rest : Path} {cur : Location} (leads : LeadsToFile fs target)
    (walk : Walk fs cur (target ++ rest) d) :
    rest = [] ∧ ∃ content verity, fs d = some (.file content verity) := by
  obtain ⟨l, content, verity, below, rfl, clear, holds⟩ := leads
  cases walk with
  | root walk =>
    rcases Walk.of_clear (fun q start => by simpa using clear q start) walk with
      ⟨rfl, rfl⟩ | ⟨isDir, _⟩
    · exact ⟨rfl, content, verity, holds⟩
    · rcases isDir with rfl | isDir
      · exact absurd rfl below
      · rw [List.nil_append, holds] at isDir
        exact absurd isDir nofun

/-- A path whose links lead to files leads to its own location, or to a file. -/
theorem Walk.of_firm {cur rest : Location}
    (firm : ∀ q, q <+: rest → ∀ target, fs (cur ++ q) = some (.link target) → LeadsToFile fs target)
    (walk : Walk fs cur (path rest) d) :
    d = cur ++ rest ∨ ∃ content verity, fs d = some (.file content verity) := by
  induction rest generalizing cur with
  | nil =>
    cases walk
    exact .inl (List.append_nil _).symm
  | cons n rest ih =>
    have onward : ∀ q, q <+: rest → ∀ target, fs (cur ++ [n] ++ q) = some (.link target) →
        LeadsToFile fs target := by
      intro q start
      have := firm (n :: q) (by simpa using start)
      simpa using this
    generalize steps : path (n :: rest) = whole at walk
    cases walk with
    | last _ =>
      obtain ⟨rfl, nothing⟩ : n = _ ∧ path rest = [] := by simpa [path] using steps
      obtain rfl : rest = [] := List.map_eq_nil_iff.mp nothing
      exact .inl rfl
    | @dir _ _ rest' _ _ walk =>
      obtain ⟨rfl, rfl⟩ : n = _ ∧ path rest = rest' := by simpa [path] using steps
      simpa using ih onward walk
    | @link _ _ target rest' _ isLink walk =>
      obtain ⟨rfl, rfl⟩ : n = _ ∧ path rest = rest' := by simpa [path] using steps
      exact .inr ((firm [n] (by simp) target isLink).walk walk).2
    | _ => simp [path] at steps

/-- Links that lead to files lead a walk astray only to a file. -/
theorem Walk.eq_or_file (firm : Firm fs l) (walk : Walk fs [] (path l) d) :
    d = l ∨ ∃ content verity, fs d = some (.file content verity) := by
  refine Walk.of_firm (fun q start target link => ?_) walk
  exact firm q start target (by simpa using link)

/-- A walk, computed. -/
def walkTo (fs : Fs α) : Nat → Location → Path → Option Location
  | 0, _, _ => none
  | _ + 1, cur, [] => some cur
  | fuel + 1, _, .root :: rest => walkTo fs fuel [] rest
  | fuel + 1, cur, .up :: rest => walkTo fs fuel cur.dropLast rest
  | fuel + 1, cur, .down n :: rest =>
    match fs (cur ++ [n]) with
    | some (.link target) => walkTo fs fuel cur (target ++ rest)
    | some .dir => walkTo fs fuel (cur ++ [n]) rest
    | _ => if rest = [] then some (cur ++ [n]) else none

/-- The computed walk is a walk. -/
theorem walk_of_walkTo {fuel : Nat} {cur : Location} {p : Path}
    (computed : walkTo fs fuel cur p = some l) : Walk fs cur p l := by
  induction fuel generalizing cur p with
  | zero => exact absurd computed nofun
  | succ fuel ih =>
    match p with
    | [] =>
      obtain rfl := Option.some_inj.mp computed
      exact .nil
    | .root :: rest => exact .root (ih computed)
    | .up :: rest => exact .up (ih computed)
    | .down n :: rest =>
      rw [walkTo] at computed
      split at computed
      · next isLink => exact .link isLink (ih computed)
      · next isDir => exact .dir isDir (ih computed)
      · next notLink _ =>
        split at computed
        · next stop =>
          subst stop
          obtain rfl := Option.some_inj.mp computed
          exact .last (not_isLink_of_eq fun target isLink => notLink target isLink)
        · exact absurd computed nofun

/-- A path leads to one location. -/
theorem Walk.unique {cur l' : Location} {p : Path} (walk : Walk fs cur p l)
    (walk' : Walk fs cur p l') : l' = l := by
  induction walk with
  | nil =>
    cases walk'
    rfl
  | root _ ih =>
    cases walk' with
    | root walk' => exact ih walk'
  | up _ ih =>
    cases walk' with
    | up walk' => exact ih walk'
  | last notLink =>
    cases walk' with
    | last _ => rfl
    | dir _ walk' =>
      cases walk'
      rfl
    | link isLink _ =>
      rw [isLink] at notLink
      exact absurd trivial notLink
  | dir isDir walk ih =>
    cases walk' with
    | last _ =>
      cases walk
      rfl
    | dir _ walk' => exact ih walk'
    | link isLink _ => exact absurd (isDir.symm.trans isLink) nofun
  | link isLink _ ih =>
    cases walk' with
    | last notLink =>
      rw [isLink] at notLink
      exact absurd trivial notLink
    | dir isDir _ => exact absurd (isLink.symm.trans isDir) nofun
    | link isLink' walk' =>
      obtain rfl : _ = _ := by simpa using isLink.symm.trans isLink'
      exact ih walk'

end Walks

section Commands

variable {α : Type}

/-- `[ -e p ]` -/
def Exists (fs : Fs α) (p : Path) : Prop := ∃ l, Walk fs [] p l ∧ fs l ≠ none

/-- `[ -d p ]` -/
def IsDir (fs : Fs α) (p : Path) : Prop := ∃ l, Walk fs [] p l ∧ fs l = some .dir

/-- The content of the file that a path leads to. -/
def Reads (fs : Fs α) (p : Path) (content : α) : Prop :=
  ∃ l verity, Walk fs [] p l ∧ fs l = some (.file content verity)

/-- `[ -f p ]` -/
def IsFile (fs : Fs α) (p : Path) : Prop := ∃ content, Reads fs p content

/-- Where an entry is made or removed: in the directory the path leads to, with no link followed
at the end. -/
def Place (fs : Fs α) (p : Path) (l : Location) : Prop :=
  ∃ front n d, p = front ++ [.down n] ∧ Walk fs [] front d ∧ fs d = some .dir ∧ l = d ++ [n]

/-- Where a command with a destination puts its argument: in the destination under the
argument's own name, if that is a directory. -/
def Dest (fs : Fs α) (name : Option Name) (p dest : Path) : Prop :=
  IsDir fs p ∧ (∃ n, name = some n ∧ dest = p ++ [.down n]) ∨ ¬IsDir fs p ∧ dest = p

/-- One `mkdir` of `mkdir -p p`. -/
def MakesDir (p : Path) (fs fs' : Fs α) : Prop :=
  ∃ front n rest l, p = front ++ .down n :: rest ∧ Place fs (front ++ [.down n]) l ∧ fs l = none ∧
    fs' = Function.update fs l (some .dir)

/-- `ln -s target p`, where `name` is the last component of the target. -/
def Links (target : Path) (name : Option Name) (p : Path) (fs fs' : Fs α) : Prop :=
  ∃ dest l, Dest fs name p dest ∧ Place fs dest l ∧ fs l = none ∧
    fs' = Function.update fs l (some (.link target))

/-- `ln -sfn target p`: a link at the destination is replaced, not followed. -/
def Relinks (target : Path) (name : Option Name) (p : Path) (fs fs' : Fs α) : Prop :=
  ∃ l l', Place fs p l ∧ (fs l ≠ some .dir ∧ l' = l ∨
      fs l = some .dir ∧ ∃ n, name = some n ∧ l' = l ++ [n] ∧ fs l' ≠ some .dir) ∧
    fs' = Function.update fs l' (some (.link target))

/-- `mktemp p`: nothing is there before. -/
def Creates (node : Node α) (p : Path) (fs fs' : Fs α) : Prop :=
  ∃ l, Place fs p l ∧ (∀ x, l <+: x → fs x = none) ∧ fs' = Function.update fs l (some node)

/-- Write the file a path leads to, or make it. -/
def Writes (content : α) (p : Path) (fs fs' : Fs α) : Prop :=
  ∃ l, Walk fs [] p l ∧ (fs l = none ∨ ∃ old, fs l = some (.file old false)) ∧
    fs' = Function.update fs l (some (.file content false))

/-- `fsverity enable p` -/
def Enables (p : Path) (fs fs' : Fs α) : Prop :=
  ∃ l content, Walk fs [] p l ∧ fs l = some (.file content false) ∧
    fs' = Function.update fs l (some (.file content true))

/-- The tree at `src` is found at `dst`. -/
def moveTree (fs : Fs α) (src dst : Location) : Fs α := fun l =>
  if dst <+: l then fs (src ++ l.drop dst.length) else if src <+: l then none else fs l

/-- `mv -T src dst`: a file replaces a file, a directory only an empty directory. -/
def Renames (src dst : Path) (fs fs' : Fs α) : Prop :=
  ∃ l l' node, Place fs src l ∧ fs l = some node ∧ Place fs dst l' ∧
    (node ≠ .dir ∧ fs l' ≠ some .dir ∧
        fs' = Function.update (Function.update fs l none) l' (some node) ∨
      node = .dir ∧ ¬l <+: l' ∧ (fs l' = none ∨ fs l' = some .dir) ∧
        (∀ x, l' <+: x → x ≠ l' → fs x = none) ∧ fs' = moveTree fs l l')

/-- `mv src dst` -/
def Moves (src dst : Path) (fs fs' : Fs α) : Prop :=
  ∃ front n dest, src = front ++ [.down n] ∧ Dest fs (some n) dst dest ∧ Renames src dest fs fs'

/-- `rm -f p` of a file that is there. -/
def Unlinks (p : Path) (fs fs' : Fs α) : Prop :=
  ∃ l node, Place fs p l ∧ fs l = some node ∧ node ≠ .dir ∧ fs' = Function.update fs l none

/-- `rmdir p` -/
def RemovesDir (p : Path) (fs fs' : Fs α) : Prop :=
  ∃ l, Place fs p l ∧ fs l = some .dir ∧ (∀ x, l <+: x → x ≠ l → fs x = none) ∧
    fs' = Function.update fs l none

/-- One entry that `rm -rf p` removes: it has nothing below it. -/
def Prunes (p : Path) (fs fs' : Fs α) : Prop :=
  ∃ l x, Place fs p l ∧ l <+: x ∧ (∀ y, x <+: y → y ≠ x → fs y = none) ∧
    fs' = Function.update fs x none

/-- `rm -rf p` has come to its end. -/
def Pruned (fs : Fs α) (p : Path) : Prop := ∀ l, Place fs p l → ∀ x, l <+: x → fs x = none

/-- What a tool may do that works in the directory `p` only, and may make it. -/
def WorksIn (p : Path) (fs fs' : Fs α) : Prop :=
  ∃ l, Walk fs [] p l ∧ (∀ x, ¬l <+: x → fs' x = fs x) ∧ (fs' l = fs l ∨ fs' l = some .dir)

variable {fs fs' : Fs α} {l x : Location} {n : Name}

theorem IsFile.exists {p : Path} (isFile : IsFile fs p) : Exists fs p := by
  obtain ⟨_, l, _, walk, holds⟩ := isFile
  exact ⟨l, walk, holds ▸ Option.some_ne_none _⟩

/-- The place of a name below a firm location. -/
theorem Place.eq_of_firm (firm : Firm fs l) (place : Place fs (path (l ++ [n])) x) :
    x = l ++ [n] := by
  obtain ⟨front, m, d, same, walk, isDir, rfl⟩ := place
  obtain ⟨rfl, rfl⟩ : path l = front ∧ n = m := by simpa [path] using same
  rcases Walk.eq_or_file firm walk with rfl | ⟨_, _, isFile⟩
  · rfl
  · exact absurd (isDir.symm.trans isFile) nofun

/-- `mkdir -p` along a firm way makes directories of that way only. -/
theorem MakesDir.inv (made : MakesDir (path l) fs fs')
    (firm : ∀ q n, q ++ [n] <+: l → Firm fs q) :
    ∃ q n, q ++ [n] <+: l ∧ fs (q ++ [n]) = none ∧
      fs' = Function.update fs (q ++ [n]) (some .dir) := by
  obtain ⟨front, n, rest, x, same, place, nothing, rfl⟩ := made
  obtain ⟨q, m, r, rfl, rfl, rfl, rfl⟩ : ∃ q m r, l = q ++ m :: r ∧ front = path q ∧ n = m ∧
      rest = path r := by
    obtain ⟨q, r', rfl, rfl, tail⟩ := List.map_eq_append_iff.mp same
    obtain ⟨m, r, rfl, head, rfl⟩ := List.map_eq_cons_iff.mp tail
    exact ⟨q, m, r, rfl, rfl, by simpa using head.symm, rfl⟩
  have start : q ++ [n] <+: q ++ n :: r := ⟨r, by simp⟩
  obtain rfl := Place.eq_of_firm (firm q n start) (by simpa [path] using place)
  exact ⟨q, n, start, nothing, rfl⟩

/-- A firm location that leads to a directory is one. -/
theorem IsDir.of_firm (isDir : IsDir fs (path l)) (firm : Firm fs l) : fs l = some .dir := by
  obtain ⟨d, walk, isDir⟩ := isDir
  rcases Walk.eq_or_file firm walk with rfl | ⟨_, _, isFile⟩
  · exact isDir
  · exact absurd (isDir.symm.trans isFile) nofun

/-- Where `ln -s` and `mv` put something, along a firm way. -/
theorem Dest.place {name : Option Name} {dest : Path} (goes : Dest fs name (path l) dest)
    (place : Place fs dest x) (firm : Firm fs l) :
    x = l ∨ fs l = some .dir ∧ ∃ m, name = some m ∧ x = l ++ [m] := by
  rcases goes with ⟨isDir, m, named, rfl⟩ | ⟨_, rfl⟩
  · refine .inr ⟨isDir.of_firm firm, m, named, ?_⟩
    exact Place.eq_of_firm firm (by simpa [path] using place)
  · rcases List.eq_nil_or_concat' l with rfl | ⟨front, n, rfl⟩
    · obtain ⟨_, _, _, same, _⟩ := place
      exact absurd same (by simp [path])
    · exact .inl (Place.eq_of_firm (firm.mono (List.prefix_append _ _)) place)

/-- What `ln -s` has done to a firm location: a link there or below. -/
theorem Links.inv {target : Path} {name : Option Name} (made : Links target name (path l) fs fs')
    (firm : Firm fs l) :
    ∃ below, fs (l ++ below) = none ∧
      fs' = Function.update fs (l ++ below) (some (.link target)) := by
  obtain ⟨dest, x, goes, place, nothing, rfl⟩ := made
  rcases goes.place place firm with rfl | ⟨_, m, _, rfl⟩
  · exact ⟨[], by simpa using nothing, by rw [List.append_nil]⟩
  · exact ⟨[m], nothing, rfl⟩

/-- What `mv` has done between firm locations. -/
theorem Moves.inv {d : Location} (moved : Moves (path (l ++ [n])) (path d) fs fs')
    (firm : Firm fs l) (firm' : Firm fs d) :
    ∃ node x, fs (l ++ [n]) = some node ∧ (x = d ∨ fs d = some .dir ∧ x = d ++ [n]) ∧
      (node ≠ .dir ∧ fs' = Function.update (Function.update fs (l ++ [n]) none) x (some node) ∨
        node = .dir ∧ fs' = moveTree fs (l ++ [n]) x) := by
  obtain ⟨front, n', dest, same, goes, y, x, node, place, found, place', done⟩ := moved
  obtain ⟨_, rfl⟩ : path l = front ∧ n = n' := by simpa [path] using same
  obtain rfl := Place.eq_of_firm firm place
  have done' : node ≠ .dir ∧
      fs' = Function.update (Function.update fs (l ++ [n]) none) x (some node) ∨
      node = .dir ∧ fs' = moveTree fs (l ++ [n]) x := by
    rcases done with ⟨isNot, _, same⟩ | ⟨isDir, _, _, _, same⟩
    · exact .inl ⟨isNot, same⟩
    · exact .inr ⟨isDir, same⟩
  refine ⟨node, x, found, ?_, done'⟩
  rcases goes.place place' firm' with here | ⟨isDir, m, named, rfl⟩
  · exact .inl here
  · obtain rfl := Option.some_inj.mp named
    exact .inr ⟨isDir, rfl⟩

end Commands

section Subtrees

variable {α : Type}

/-- The tree at a location. -/
def treeAt (fs : Fs α) (l : Location) : Fs α := fun x => fs (l ++ x)

/-- The tree with another one in the place of what is at a location. -/
def graft (fs : Fs α) (l : Location) (t : Fs α) : Fs α := fun x =>
  if l <+: x then t (x.drop l.length) else fs x

/-- Two trees that differ at most in what is at a location. -/
def SameBut (l : Location) (fs fs' : Fs α) : Prop := ∀ x, ¬l <+: x → fs' x = fs x

/-- Neither location is below the other. -/
def Apart (l l' : Location) : Prop := ¬l <+: l' ∧ ¬l' <+: l

/-- `tar -x -C p` has unpacked the tree `t`. -/
def Unpacks (t : Fs α) (p : Path) (fs fs' : Fs α) : Prop :=
  ∃ l, Walk fs [] p l ∧ fs' = graft fs l t

variable {fs fs' t : Fs α} {l l' src dst : Location} {n m : Name}

theorem apart_of_ne (different : n ≠ m) : Apart (l ++ [n]) (l ++ [m]) := by
  constructor
  · intro start
    have := start.eq_of_length (by simp)
    simp_all
  · intro start
    have := start.eq_of_length (by simp)
    simp_all

theorem Apart.symm (apart : Apart l l') : Apart l' l := ⟨apart.2, apart.1⟩

theorem Apart.not_below (apart : Apart l l') (x : Location) : ¬l <+: l' ++ x := by
  intro start
  rcases List.prefix_or_prefix_of_prefix start (List.prefix_append l' x) with before | after
  · exact apart.1 before
  · exact apart.2 after

theorem treeAt_nil : treeAt fs l [] = fs l := congrArg fs (List.append_nil l)

theorem treeAt_graft_self : treeAt (graft fs l t) l = t := by
  funext x
  rw [treeAt, graft, if_pos (List.prefix_append l x), List.drop_left]

/-- A change below one location leaves a tree apart from it alone. -/
theorem SameBut.treeAt_eq (same : SameBut l fs fs') (apart : Apart l l') :
    treeAt fs' l' = treeAt fs l' := by
  funext x
  exact same _ (apart.not_below x)

theorem SameBut.graft_eq (same : SameBut l fs fs') : graft fs' l t = graft fs l t := by
  funext x
  unfold graft
  split
  · rfl
  · next outside => exact same x outside

/-- Another node in one place is a change below that place. -/
theorem sameBut_update {x : Location} {after : Option (Node α)} (start : l <+: x) :
    SameBut l fs (Function.update fs x after) := by
  intro y outside
  have other : y ≠ x := fun same => outside (same ▸ start)
  exact Function.update_of_ne other _ _

theorem SameBut.trans {fs'' : Fs α} (first : SameBut l fs fs') (second : SameBut l fs' fs'') :
    SameBut l fs fs'' := fun x outside => (second x outside).trans (first x outside)

theorem moveTree_of_not {x : Location} (notDst : ¬dst <+: x) (notSrc : ¬src <+: x) :
    moveTree fs src dst x = fs x := by
  rw [moveTree, if_neg notDst, if_neg notSrc]

/-- What was moved is at its destination. -/
theorem treeAt_moveTree_dst : treeAt (moveTree fs src dst) dst = treeAt fs src := by
  funext x
  rw [treeAt, moveTree, if_pos (List.prefix_append dst x), List.drop_left]
  rfl

/-- Nothing is left where it was. -/
theorem treeAt_moveTree_src (apart : Apart src dst) (x : Location) :
    treeAt (moveTree fs src dst) src x = none := by
  rw [treeAt, moveTree, if_neg (apart.symm.not_below x), if_pos (List.prefix_append src x)]

/-- A place to which a way of directories leads. -/
def Solid (fs : Fs α) (l : Location) : Prop := ∀ q, q <+: l → q ≠ [] → fs q = some .dir

/-- A walk through directories. -/
theorem walk_of_dirs (cur : Location) {rest d : Location} {p : Path}
    (dirs : ∀ q, q <+: rest → q ≠ [] → fs (cur ++ q) = some .dir) :
    Walk fs cur (path rest ++ p) d ↔ Walk fs (cur ++ rest) p d := by
  induction rest generalizing cur with
  | nil => simp [path]
  | cons n rest ih =>
    have isDir : fs (cur ++ [n]) = some .dir := dirs [n] (by simp) (by simp)
    have onward : ∀ q, q <+: rest → q ≠ [] → fs (cur ++ [n] ++ q) = some .dir := by
      intro q start _
      simpa using dirs (n :: q) (by simpa using start) (by simp)
    rw [List.append_cons, ← ih (cur ++ [n]) onward]
    constructor
    · intro walk
      generalize steps : path (n :: rest) ++ p = whole at walk
      cases walk with
      | last _ =>
        obtain ⟨rfl, nothing⟩ : n = _ ∧ path rest ++ p = [] := by simpa [path] using steps
        rw [nothing]
        exact .nil
      | dir _ walk =>
        obtain ⟨rfl, rfl⟩ : n = _ ∧ path rest ++ p = _ := by simpa [path] using steps
        exact walk
      | link isLink _ =>
        obtain ⟨rfl, _⟩ : n = _ ∧ _ := by simpa [path] using steps
        exact absurd (isDir.symm.trans isLink) nofun
      | _ => simp [path] at steps
    · exact .dir isDir

theorem Solid.concat (solid : Solid fs l) (isDir : fs (l ++ [n]) = some .dir) :
    Solid fs (l ++ [n]) := by
  intro q start nonempty
  rcases List.prefix_concat_iff.mp start with rfl | start
  · exact isDir
  · exact solid q start nonempty

/-- Behind a way of directories a walk goes on from its end. -/
theorem Solid.walk_iff {d : Location} {p : Path} (solid : Solid fs l) :
    Walk fs [] (path l ++ p) d ↔ Walk fs l p d := by
  have dirs : ∀ q, q <+: l → q ≠ [] → fs ([] ++ q) = some .dir := solid
  exact walk_of_dirs [] dirs

theorem Solid.walk (solid : Solid fs l) : Walk fs [] (path l) l := by
  rw [← List.append_nil (path l), solid.walk_iff]
  exact .nil

theorem Solid.place (solid : Solid fs l) (nonempty : l ≠ []) :
    Place fs (path (l ++ [n])) (l ++ [n]) :=
  ⟨path l, n, l, by simp [path], solid.walk, solid l List.prefix_rfl nonempty, rfl⟩

theorem Solid.exists (solid : Solid fs l) (nonempty : l ≠ []) : Exists fs (path l) := by
  refine ⟨l, solid.walk, ?_⟩
  rw [solid l List.prefix_rfl nonempty]
  exact Option.some_ne_none _

/-- What `[ -e ]` sees has something in its place. -/
theorem Solid.ne_none_of_exists (solid : Solid fs l) (there : Exists fs (path (l ++ [n]))) :
    fs (l ++ [n]) ≠ none := by
  obtain ⟨d, walk, holds⟩ := there
  rw [path_append, solid.walk_iff] at walk
  cases walk with
  | last => exact holds
  | dir isDir => exact isDir ▸ Option.some_ne_none _
  | link isLink => exact isLink ▸ Option.some_ne_none _

theorem dirs_of_walk (cur : Location) {rest d : Location}
    (clear : ∀ q, q <+: rest → ¬IsLink (fs (cur ++ q))) (walk : Walk fs cur (path rest) d)
    (isDir : fs d = some .dir) : ∀ q, q <+: rest → q ≠ [] → fs (cur ++ q) = some .dir := by
  induction rest generalizing cur with
  | nil =>
    intro q start nonempty
    exact absurd (List.prefix_nil.mp start) nonempty
  | cons n rest ih =>
    have plain := clear [n] (by simp)
    have onward : ∀ q, q <+: rest → ¬IsLink (fs (cur ++ [n] ++ q)) := by
      intro q start
      simpa using clear (n :: q) (by simpa using start)
    have first : ∀ {tail : Location}, fs (cur ++ [n]) = some .dir →
        (∀ q, q <+: tail → q ≠ [] → fs (cur ++ [n] ++ q) = some .dir) →
        ∀ q, q <+: n :: tail → q ≠ [] → fs (cur ++ q) = some .dir := by
      intro tail here later q start nonempty
      rcases List.prefix_cons_iff.mp start with rfl | ⟨q, rfl, inner⟩
      · exact absurd rfl nonempty
      · by_cases stop : q = []
        · rwa [stop]
        · simpa using later q inner stop
    generalize steps : path (n :: rest) = whole at walk
    cases walk with
    | last _ =>
      obtain ⟨rfl, nothing⟩ : n = _ ∧ path rest = [] := by simpa [path] using steps
      obtain rfl : rest = [] := List.map_eq_nil_iff.mp nothing
      exact first isDir fun q start nonempty => absurd (List.prefix_nil.mp start) nonempty
    | dir here walk =>
      obtain ⟨rfl, rfl⟩ : n = _ ∧ path rest = _ := by simpa [path] using steps
      exact first here (ih _ onward walk)
    | link isLink _ =>
      obtain ⟨rfl, _⟩ : n = _ ∧ _ := by simpa [path] using steps
      rw [isLink] at plain
      exact absurd trivial plain
    | _ => simp [path] at steps

/-- A path without links that leads to a directory goes through directories. -/
theorem Clear.solid (clear : Clear fs l) (isDir : IsDir fs (path l)) : Solid fs l := by
  obtain ⟨d, walk, isDir⟩ := isDir
  exact dirs_of_walk [] clear walk isDir

/-- A walk in a tree that uses nothing outside it. -/
inductive Inside (t : Fs α) : Location → Path → Location → Prop where
  | nil {cur} : Inside t cur [] cur
  | up {cur n rest x} : Inside t cur rest x → Inside t (cur ++ [n]) (.up :: rest) x
  | last {cur n} : ¬IsLink (t (cur ++ [n])) → Inside t cur [.down n] (cur ++ [n])
  | dir {cur n rest x} : t (cur ++ [n]) = some .dir → Inside t (cur ++ [n]) rest x →
      Inside t cur (.down n :: rest) x
  | link {cur n target rest x} : t (cur ++ [n]) = some (.link target) →
      Inside t cur (target ++ rest) x → Inside t cur (.down n :: rest) x

/-- A walk that goes out of the tree, to the root or above the top. -/
inductive Leaves (t : Fs α) : Location → Path → Prop where
  | root {cur rest} : Leaves t cur (.root :: rest)
  | top {rest} : Leaves t [] (.up :: rest)
  | up {cur n rest} : Leaves t cur rest → Leaves t (cur ++ [n]) (.up :: rest)
  | dir {cur n rest} : t (cur ++ [n]) = some .dir → Leaves t (cur ++ [n]) rest →
      Leaves t cur (.down n :: rest)
  | link {cur n target rest} : t (cur ++ [n]) = some (.link target) →
      Leaves t cur (target ++ rest) → Leaves t cur (.down n :: rest)

theorem not_leaves_of_file {cur : Location} {content : α} {verity : Bool}
    (isFile : t (cur ++ [n]) = some (.file content verity)) : ¬Leaves t cur [.down n] := by
  intro leaves
  cases leaves with
  | dir isDir => exact absurd (isFile.symm.trans isDir) nofun
  | link isLink => exact absurd (isFile.symm.trans isLink) nofun

/-- A walk inside a tree is a walk wherever the tree is. -/
theorem Inside.walk {cur x : Location} {p : Path} (inside : Inside (treeAt fs l) cur p x) :
    Walk fs (l ++ cur) p (l ++ x) := by
  induction inside with
  | nil => exact .nil
  | @up cur n rest x _ ih =>
    have parent : (l ++ (cur ++ [n])).dropLast = l ++ cur := by
      rw [← List.append_assoc, List.dropLast_concat]
    exact .up (parent ▸ ih)
  | last notLink =>
    rw [← List.append_assoc]
    exact .last (by rwa [List.append_assoc])
  | dir isDir _ ih =>
    rw [← List.append_assoc] at ih
    exact .dir (by rwa [List.append_assoc]) ih
  | link isLink _ ih => exact .link (by rwa [List.append_assoc]) ih

/-- A walk from a place in a tree stays in the tree or leaves it. -/
theorem Walk.inside_or_leaves {start cur d : Location} {p : Path} (walk : Walk fs start p d)
    (begins : start = l ++ cur) :
    (∃ x, d = l ++ x ∧ Inside (treeAt fs l) cur p x) ∨ Leaves (treeAt fs l) cur p := by
  induction walk generalizing cur with
  | nil => exact .inl ⟨cur, begins, .nil⟩
  | root => exact .inr .root
  | up _ ih =>
    rcases List.eq_nil_or_concat' cur with rfl | ⟨front, n, rfl⟩
    · exact .inr .top
    · have parent : (l ++ (front ++ [n])).dropLast = l ++ front := by
        rw [← List.append_assoc, List.dropLast_concat]
      rcases ih (begins ▸ parent) with ⟨x, same, inside⟩ | leaves
      · exact .inl ⟨x, same, .up inside⟩
      · exact .inr (.up leaves)
  | @last _ n notLink =>
    subst begins
    rw [List.append_assoc] at notLink ⊢
    exact .inl ⟨cur ++ [n], rfl, .last notLink⟩
  | dir isDir _ ih =>
    subst begins
    rw [List.append_assoc] at isDir
    rcases ih (List.append_assoc ..) with ⟨x, same, inside⟩ | leaves
    · exact .inl ⟨x, same, .dir isDir inside⟩
    · exact .inr (.dir isDir leaves)
  | @link _ n target _ _ isLink _ ih =>
    have here : treeAt fs l (cur ++ [n]) = some (.link target) := by
      rw [begins, List.append_assoc] at isLink
      exact isLink
    rcases ih begins with ⟨x, same, inside⟩ | leaves
    · exact .inl ⟨x, same, .link here inside⟩
    · exact .inr (.link here leaves)

end Subtrees

section Listings

variable {α : Type}

/-- The tree with the given entries. -/
def ofList (entries : List (Location × Node α)) : Fs α := fun l => entries.lookup l

theorem update_ofList (entries : List (Location × Node α)) (l : Location) (node : Node α) :
    Function.update (ofList entries) l (some node) = ofList ((l, node) :: entries) := by
  funext x
  rw [ofList, List.lookup_cons]
  by_cases here : x = l
  · rw [here, Function.update_self]
    simp
  · rw [Function.update_of_ne here, beq_eq_false_iff_ne.mpr here]
    rfl

theorem ofList_eq_none {entries : List (Location × Node α)} {x : Location}
    (absent : ∀ e ∈ entries, e.1 ≠ x) : ofList entries x = none := by
  refine Option.eq_none_iff_forall_ne_some.mpr fun node found => ?_
  obtain ⟨_, _, same, _⟩ := List.lookup_eq_some_iff.mp found
  exact absent (x, node) (same ▸ List.mem_append_right _ List.mem_cons_self) rfl

/-- A path leads to a directory, computed. -/
def isDirAt (fs : Fs α) (p : Path) : Bool :=
  match walkTo fs 40 [] p with
  | some l =>
    match fs l with
    | some .dir => true
    | _ => false
  | none => false

theorem isDir_of_isDirAt {fs : Fs α} {p : Path} (computed : isDirAt fs p = true) : IsDir fs p := by
  unfold isDirAt at computed
  split at computed
  · next l walk =>
    split at computed
    · next isDir => exact ⟨l, walk_of_walkTo walk, isDir⟩
    · exact absurd computed nofun
  · exact absurd computed nofun

/-- A path leads to a file, computed. -/
def isFileAt (fs : Fs α) (p : Path) : Bool :=
  match walkTo fs 40 [] p with
  | some l =>
    match fs l with
    | some (.file _ _) => true
    | _ => false
  | none => false

theorem isFile_of_isFileAt {fs : Fs α} {p : Path} (computed : isFileAt fs p = true) :
    IsFile fs p := by
  unfold isFileAt at computed
  split at computed
  · next l walk =>
    split at computed
    · next content verity holds => exact ⟨content, l, verity, walk_of_walkTo walk, holds⟩
    · exact absurd computed nofun
  · exact absurd computed nofun

end Listings

end LiveFs
