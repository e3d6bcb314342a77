import Initos.Lib.UnixPath

/-!
# A file tree with symbolic links

A tree is a finite map from locations (the names from the root down) to nodes;
every location that is present lies in a directory. `resolve` is the kernel's
path walk: it follows symbolic links, relative and absolute, up to the kernel's
limit, and returns the location the path denotes. The root of the walk is a
parameter, so that the same function describes resolution inside a `chroot`.
-/

namespace UnixFs

/-- What a location holds. -/
inductive Node (α : Type) where
  | file (content : α)
  | dir
  | link (target : String)
  deriving DecidableEq

/-- The names on the way from the root. -/
abbrev Location := List String

/-- Association lists from locations to nodes; the root `[]` is always a directory. -/
def lookup {α : Type} (nodes : List (Location × Node α)) (loc : Location) : Option (Node α) :=
  if loc = [] then some .dir else nodes.lookup loc

/-- A tree of files, directories and symbolic links. -/
structure FileTree (α : Type) where
  nodes : List (Location × Node α)
  /-- Every present location lies in a directory. -/
  inDir : ∀ e ∈ nodes, e.1 ≠ [] ∧ lookup nodes e.1.dropLast = some .dir

variable {α : Type}

namespace FileTree

/-- What a location holds. -/
def find (t : FileTree α) (loc : Location) : Option (Node α) := lookup t.nodes loc

/-- One step of a path walk. -/
inductive Step where
  | root
  | here
  | up
  | down (name : String)
  deriving DecidableEq

/-- What a piece of a path asks for; a trailing slash asks for a directory. -/
def stepOf (piece : List Char) : Step :=
  if piece = [] ∨ piece = ['.'] then .here
  else if piece = ['.', '.'] then .up
  else .down (String.ofList piece)

/-- The steps of a path. -/
def steps (p : String) : List Step :=
  if UnixPath.isAbsolute p then .root :: (UnixPath.pieces p).tail.map stepOf
  else (UnixPath.pieces p).map stepOf

/-- The number of symbolic links a walk may follow. -/
def maxLinks : Nat := 40

/-- Walk from the directory `cur`, inside `root`; `follow` goes on from a directory where
    a link is met. -/
def walkWith (t : FileTree α) (root : Location)
    (follow : Location → List Step → Option Location) (cur : Location) :
    List Step → Option Location
  | [] => some cur
  | .root :: rest => t.walkWith root follow root rest
  | .here :: rest => t.walkWith root follow cur rest
  | .up :: rest => t.walkWith root follow (if cur = root then cur else cur.dropLast) rest
  | .down name :: rest =>
    match t.find (cur ++ [name]) with
    | none => none
    | some .dir => t.walkWith root follow (cur ++ [name]) rest
    | some (.file _) => if rest = [] then some (cur ++ [name]) else none
    | some (.link target) => follow cur (steps target ++ rest)

/-- Walk with `links` symbolic links left to follow. -/
def walk (t : FileTree α) (root : Location) : (links : Nat) → Location → List Step → Option Location
  | 0 => t.walkWith root fun _ _ => none
  | links + 1 => t.walkWith root (t.walk root links)

/-- The location a path denotes, when it denotes one. -/
def resolve (t : FileTree α) (p : String) : Option Location := t.walk [] maxLinks [] (steps p)

/-- `Path::exists`. -/
def pathExists (t : FileTree α) (p : String) : Bool := (t.resolve p).isSome

/-- `Path::is_dir`. -/
def isDir (t : FileTree α) (p : String) : Bool :=
  match (t.resolve p).bind t.find with
  | some .dir => true
  | _ => false

/-- The names in the directory a path denotes. -/
def listing (t : FileTree α) (p : String) : List String :=
  match t.resolve p with
  | none => []
  | some loc => t.nodes.filterMap fun e => if e.1.dropLast = loc then e.1.getLast? else none

/-- The location a path denotes is strictly below the location `base` denotes. -/
def Below (t : FileTree α) (base p : String) : Prop :=
  ∃ b l, t.resolve base = some b ∧ t.resolve p = some l ∧ b <+: l ∧ b ≠ l

instance (t : FileTree α) (base p : String) : Decidable (t.Below base p) :=
  match hb : t.resolve base, hl : t.resolve p with
  | some b, some l =>
    decidable_of_iff (b <+: l ∧ b ≠ l)
      ⟨fun h => ⟨b, l, hb, hl, h⟩, by
        rintro ⟨b', l', hb', hl', h⟩
        rw [hb] at hb'; rw [hl] at hl'
        cases hb'; cases hl'; exact h⟩
  | none, _ => .isFalse (by rintro ⟨b, l, hb', -⟩; rw [hb] at hb'; cases hb')
  | some _, none => .isFalse (by rintro ⟨b, l, -, hl', -⟩; rw [hl] at hl'; cases hl')

theorem Below.exists_base {t : FileTree α} {base p : String} (h : t.Below base p) :
    t.pathExists base = true := by
  obtain ⟨b, l, hb, -⟩ := h
  simp [pathExists, hb]

end FileTree

end UnixFs
