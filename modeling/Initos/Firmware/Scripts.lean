import Initos.Lib.LiveFs
import Initos.Lib.Pool
import Initos.Upgrade.Install

/-!
# The scripts that fill the firmware store

`firmware_fetch` of `sidecar/bin/initos-upgrade` (lines 220-315) and `import_oci` of
`sidecar/bin/initos-firmware-oci` (lines 154-196) as their lines, over a file tree that other
processes change at the same time. What a command prints into a variable or a pipe (the records of
a Git tree, a link target, a digest, the files that `find` lists, the name that `mktemp` picks) is
given to the script, and the command succeeds only when this is what it prints. Line numbers are
those of the script that the definition belongs to.
-/

namespace Initos.Firmware

open LiveFs Script
open Upgrade (Slot)

/-- What the scripts and `fsverity` make of contents. -/
structure Content (α : Type) where
  /-- The content that is this text. -/
  text : String → α
  /-- `fsverity digest` and `fsverity measure` print this, and `enable` seals it. -/
  digest : α → String
  digest_injective : Function.Injective digest
  length_digest : ∀ content, (digest content).length = 64
  hex_digest : ∀ content, ∀ c ∈ (digest content).toList, c ∈ "0123456789abcdef".toList

/-- The commands of the two scripts. -/
inductive Cmd (α : Type) where
  /-- `install -d` and `mkdir -p` -/
  | mkdirs (ps : List Path)
  /-- `ln -s`, with the last component of the target -/
  | link (target : Path) (name : Option Name) (p : Path)
  /-- `ln -sfn` -/
  | relink (target : Path) (name : Option Name) (p : Path)
  /-- `mktemp`, which has picked this path -/
  | mktemp (p : Path)
  /-- `mktemp -d` -/
  | mktempDir (p : Path)
  | rmdir (p : Path)
  /-- A tool that writes below one directory only: `git init`, `git fetch`, `skopeo copy`. -/
  | tool (p : Path)
  /-- `umoci unpack`, which keeps the image below the directory `rootfs` -/
  | unpack (bundle : Path)
  /-- A command that takes an argument for an option, because it begins with `-`. What it does
      then is left open: it may change anything. -/
  | misread
  /-- A command whose output goes to a file. -/
  | write (content : α) (p : Path)
  /-- `fsverity digest p`, which prints this -/
  | digest (p : Path) (printed : String)
  /-- `fsverity measure p`, for a sealed file only -/
  | measure (p : Path) (printed : String)
  /-- `fsverity enable p` -/
  | enable (p : Path)
  /-- `mv src dst` -/
  | move (src dst : Path)
  /-- `rm -f` of a file -/
  | unlink (p : Path)
  /-- `rm -rf` -/
  | prune (ps : List Path)
  /-- `find base -type f` -/
  | find (base : Path) (relatives : List String)
  /-- A command that changes nothing below `/z/img` and may fail. -/
  | check
  /-- `echo message >&2; exit 1` -/
  | exit

/-- The tests of the two scripts. -/
inductive Test where
  /-- `[ -e p ]` -/
  | exist (p : Path)
  /-- `[ -d p ]` -/
  | isDir (p : Path)
  /-- `[ -f p ]` -/
  | isFile (p : Path)

section Effects

variable {α : Type}

/-- A file that `find` comes to below `l`: it follows no links. -/
def Found (fs : Fs α) (l below : Location) : Prop :=
  (∀ q, q <+: below → q ≠ below → fs (l ++ q) = some .dir) ∧
    ∃ content verity, fs (l ++ below) = some (.file content verity)

/-- A relative path whose components are file names. -/
def Proper (relative : String) : Prop :=
  ∀ piece ∈ UnixPath.pieces relative, stepOf piece = some (.down (.text (String.ofList piece)))

/-- What a command may do before it succeeds or fails. -/
def part (c : Cmd α) (fs fs' : Fs α) : Prop :=
  match c with
  | .mkdirs ps => ∃ p ∈ ps, MakesDir p fs fs'
  | .tool p => WorksIn p fs fs'
  | .unpack p => WorksIn p fs fs'
  | .misread => True
  | .write _ p => ∃ content, Writes content p fs fs'
  | .prune ps => ∃ p ∈ ps, Prunes p fs fs'
  | _ => False

/-- What a command has done when it succeeds. -/
def whole (V : Content α) (c : Cmd α) (fs fs' : Fs α) : Prop :=
  match c with
  | .mkdirs ps => fs' = fs ∧ ∀ p ∈ ps, IsDir fs p
  | .link target name p => Links target name p fs fs'
  | .relink target name p => Relinks target name p fs fs'
  | .mktemp p => Creates (.file (V.text "") false) p fs fs'
  | .mktempDir p => Creates .dir p fs fs'
  | .rmdir p => RemovesDir p fs fs'
  | .tool p => WorksIn p fs fs'
  | .unpack p => WorksIn p fs fs' ∧
      ∃ l, Walk fs' [] p l ∧ fs' (l ++ [.text "rootfs"]) = some .dir
  | .misread => True
  | .write content p => Writes content p fs fs'
  | .digest p printed => fs' = fs ∧
      ∃ l content verity, Walk fs [] p l ∧ fs l = some (.file content verity) ∧
        V.digest content = printed
  | .measure p printed => fs' = fs ∧
      ∃ l content, Walk fs [] p l ∧ fs l = some (.file content true) ∧ V.digest content = printed
  | .enable p => Enables p fs fs'
  | .move src dst => Moves src dst fs fs'
  | .unlink p => Unlinks p fs fs'
  | .prune ps => fs' = fs ∧ ∀ p ∈ ps, Pruned fs p
  | .find base relatives => fs' = fs ∧ ∃ l, Place fs base l ∧ (fs l = some .dir ∨ IsLink (fs l)) ∧
      (∀ relative ∈ relatives, Proper relative ∧ Found fs l (names relative)) ∧
      ∀ below, Found fs l below → ∃ relative ∈ relatives, names relative = below
  | .check => fs' = fs
  | .exit => False

/-- When a test succeeds. -/
def test (t : Test) (fs : Fs α) : Prop :=
  match t with
  | .exist p => Exists fs p
  | .isDir p => IsDir fs p
  | .isFile p => IsFile fs p

/-- The commands and tests, over a file tree. -/
def effects (V : Content α) : Effects (Cmd α) Test (Fs α) := ⟨part, whole V, test⟩

end Effects

section Places

/-- `/z/img` -/
def img : Location := [.text "z", .text "img"]

/-- `${shared_root}` (line 234) and `${root}` (line 157 of the import). -/
def composefs : Location := img ++ [.text "composefs"]

/-- `${objects}` (line 235): the store that the slots share. -/
def objects : Location := composefs ++ [.text "objects"]

/-- `/z/img/git` -/
def git : Location := img ++ [.text "git"]

/-- `${repo}` (line 256). -/
def repo : Location := git ++ [.text "initos-firmware.git"]

/-- `${destination}` (line 233). -/
def destination (slot : Slot) : Location := img ++ [.text slot.text, .text "firmware-objects"]

/-- `${destination}/revisions` -/
def revisions (slot : Slot) : Location := destination slot ++ [.text "revisions"]

/-- `${destination}/trees` -/
def trees (slot : Slot) : Location := destination slot ++ [.text "trees"]

/-- Where an object is kept. -/
def objectAt (a b : String) : Location := objects ++ [.text a, .text b]

/-- `cut -c1-2` (line 292). -/
def objectDir (digest : String) : String := String.ofList (digest.toList.take 2)

/-- `cut -c3-` (line 293). -/
def objectName (digest : String) : String := String.ofList (digest.toList.drop 2)

/-- What `$(…)` leaves of a text: the line feeds at its end go. -/
def stripped (s : String) : String := String.ofList (s.toList.reverse.dropWhile (· = '\n')).reverse

/-- The same on the text of a path. -/
def substituted (l : Location) : Location :=
  match l.getLast? with
  | some (.text s) => if stripped s = "" then l.dropLast else l.dropLast ++ [.text (stripped s)]
  | _ => l

/-- `$(dirname …)` -/
def dirname (l : Location) : Location := substituted l.dropLast

end Places

section FirmwareFetch

variable {α : Type}

/-- A record of `git ls-tree -r -z`, and what the commands print for it. -/
structure Record (α : Type) where
  /-- `120000` for a symbolic link. -/
  mode : String
  objectType : String
  path : String
  content : α
  /-- The blob as the target of a symbolic link. -/
  target : String
  digest : String
  temp : Nat

/-- `*'/../'*|*'/./'*` of the path between slashes (line 280). -/
def unsafePath (p : String) : Bool :=
  (UnixPath.pieces p).any fun piece => piece == ['.'] || piece == ['.', '.']

/-- An argument that begins with `-` is taken for options; `-` alone is not. -/
def isOption (s : String) : Bool := s.toList.head? == some '-' && s != "-"

/-- What a run of `firmware_fetch` is given: its arguments, the name `mktemp` picks, and the
    records of the tree. -/
structure Fetch (α : Type) where
  gitUrl : String
  revision : String
  slot : Slot
  /-- The working directory. -/
  cwd : Location
  stage : Nat
  records : List (Record α)

/-- `^[0-9a-f]{40}$` or `^[0-9a-f]{64}$` (line 236). -/
def isRevision (s : String) : Bool :=
  (s.length == 40 || s.length == 64) && s.toList.all fun c => c ∈ "0123456789abcdef".toList

namespace Fetch

/-- `${stage}` (line 265). -/
def stageDir (a : Fetch α) (n : Nat) : Location :=
  destination a.slot ++ [.temp ".objects." n a.stage]

end Fetch

/-- `${object_file}` (line 289). -/
def objectFile (n : Nat) (stage : Location) (r : Record α) : Location :=
  stage ++ [.temp "object." n r.temp]

/-- `${object_dir}/${object_name}` -/
def object (r : Record α) : Location := objectAt (objectDir r.digest) (objectName r.digest)

/-- `${tree_path}` (line 282). -/
def treePath (stage : Location) (r : Record α) : Location := stage ++ .text "tree" :: names r.path

/-- A blob that is no link: put it into the store, unless it is there (lines 289-302). -/
def blobLines (n : Nat) (stage : Location) (r : Record α) : List (Line (Cmd α) Test) :=
  let file := path (objectFile n stage r)
  [.run (.mktemp file),
   .run (.write r.content file),
   .run (.digest file r.digest),
   .run (.mkdirs [path (objects ++ [.text (objectDir r.digest)])]),
   .cond (.exist (path (object r)))
     [.run (.unlink file)]
     [.run (.enable file), .run (.move file (path (object r)))],
   .run (.link (.root :: path (object r)) (some (.text (objectName r.digest)))
     (path (treePath stage r)))]

/-- `ln -s "${link_target}" "${tree_path}"` (line 286). There is no `--` before the target, which
    comes from the tree. -/
def linkTarget (stage : Location) (r : Record α) : Cmd α :=
  if isOption r.target then .misread
  else .link (parse r.target) (baseName r.target) (path (treePath stage r))

/-- The body of the loop of `firmware_fetch` (lines 272-302). -/
def recordLines (n : Nat) (stage : Location) (r : Record α) : List (Line (Cmd α) Test) :=
  if r.objectType ≠ "blob" then []
  else if unsafePath r.path then [.run .exit]
  else
    .run (.mkdirs [path (dirname (treePath stage r))]) ::
      if r.mode = "120000" then [.run (linkTarget stage r)] else blobLines n stage r

/-- `git fetch --no-tags "${git_url}" "${revision}"` (line 260), again without `--`. -/
def fetchCommand (a : Fetch α) : Cmd α :=
  if isOption a.gitUrl then .misread else .tool (path repo)

/-- `../../composefs/objects` (line 251). -/
def casTarget : Path := [.up, .up, .down (.text "composefs"), .down (.text "objects")]

/-- `firmware_fetch` up to the staging directory (lines 236-265). -/
def fetchHead (n : Nat) (a : Fetch α) : List (Line (Cmd α) Test) :=
  (if isRevision a.revision then [] else [.run .exit]) ++
  [.run .check,
   .run (.mkdirs ([destination a.slot, revisions a.slot, trees a.slot, composefs, objects,
     git].map path)),
   .cond (.exist (path (destination a.slot ++ [.text "objects"])))
     []
     [.run (.link casTarget (some (.text "objects"))
       (path (destination a.slot ++ [.text "objects"])))],
   .cond (.isDir (path a.cwd ++ parse (a.gitUrl ++ "/objects")))
     []
     [.cond (.isFile (path (repo ++ [.text "HEAD"]))) [] [.run (.tool (path repo))],
      .run (fetchCommand a)],
   .run .check,
   .run (.mktempDir (path (a.stageDir n)))]

/-- `firmware_fetch` after the loop (lines 304-312). -/
def fetchTail (V : Content α) (n : Nat) (a : Fetch α) : List (Line (Cmd α) Test) :=
  let tree := path (a.stageDir n ++ [.text "tree"])
  let revised := path (trees a.slot ++ [.text a.revision])
  [.run .check,
   .cond (.exist revised) [.run (.prune [tree])] [.run (.move tree revised)],
   .run (.write (V.text (a.gitUrl ++ "\n"))
     (path (revisions a.slot ++ [.text (a.revision ++ ".source")]))),
   .run (.relink [.down (.text "trees"), .down (.text a.revision)] (some (.text a.revision))
     (path (destination a.slot ++ [.text "current"]))),
   .run (.prune [path (a.stageDir n)])]

/-- `firmware_fetch` (`sidecar/bin/initos-upgrade:220-315`), run by process `n`. -/
def firmwareFetch (V : Content α) (n : Nat) (a : Fetch α) : List (Line (Cmd α) Test) :=
  fetchHead n a ++ .trap [.prune [path (a.stageDir n)]] ::
    (.run (.mkdirs [path (a.stageDir n ++ [.text "tree"])]) ::
      a.records.flatMap (recordLines n (a.stageDir n)) ++ fetchTail V n a ++ [.trap []])

end FirmwareFetch

section ImportOci

variable {α : Type}

/-- What a run of `import_oci` is given: its surroundings, the names `mktemp` picks, and the files
    of the image. -/
structure Import where
  /-- The working directory. -/
  cwd : Location
  layout : Nat
  bundle : Nat
  /-- The files of the image below `rootfs/objects`. -/
  relatives : List String

namespace Import

/-- `${layout}` (line 166). -/
def layoutDir (a : Import) (n : Nat) : Location := composefs ++ [.temp ".oci-layout." n a.layout]

/-- `${bundle}` (line 167). -/
def bundleDir (a : Import) (n : Nat) : Location := composefs ++ [.temp ".oci-bundle." n a.bundle]

/-- `${bundle}/rootfs/objects` -/
def base (a : Import) (n : Nat) : Location := a.bundleDir n ++ [.text "rootfs", .text "objects"]

end Import

/-- A line that the loop reads: the object and its path in the store. -/
structure Listed where
  object : Path
  relative : String

/-- The lines that `find` prints for one file (line 172). A line feed in its name starts a new
    line, and what follows is taken for a path of its own. -/
def listed (cwd base : Location) (relative : String) : List Listed :=
  match relative.toList.splitOn '\n' with
  | [] => []
  | first :: more =>
    ⟨path base ++ steps (String.ofList first), String.ofList first⟩ ::
      more.map fun line => ⟨path cwd ++ parse (String.ofList line), String.ofList line⟩

/-- `${relative/\//}` (line 174). -/
def expected (relative : String) : String := String.ofList (relative.toList.erase '/')

/-- The body of the loop of `import_oci` (lines 173-190). -/
def fileLines (o : Listed) : List (Line (Cmd α) Test) :=
  let target := objects ++ names o.relative
  if (expected o.relative).length ≠ 64 then [.run .exit]
  else
    [.run (.digest o.object (expected o.relative)),
     .cond (.exist (path target))
       [.run (.measure (path target) (expected o.relative))]
       [.run (.mkdirs [path (dirname target)]), .run (.enable o.object),
        .run (.move o.object (path target))]]

/-- `import_oci` up to the bundle's name (lines 158-168). -/
def importHead (n : Nat) (a : Import) : List (Line (Cmd α) Test) :=
  [.run .check,
   .run (.mkdirs [path composefs, path objects]),
   .run (.mktempDir (path (a.layoutDir n))),
   .run (.mktempDir (path (a.bundleDir n))),
   .run (.rmdir (path (a.bundleDir n)))]

/-- `import_oci` with its trap set (lines 170-192). -/
def importBody (n : Nat) (a : Import) : List (Line (Cmd α) Test) :=
  [.run (.tool (path (a.layoutDir n))),
   .run (.unpack (path (a.bundleDir n))),
   .run (.find (path (a.base n)) a.relatives)] ++
  (a.relatives.flatMap (listed a.cwd (a.base n))).flatMap fileLines ++
  [.run .check]

/-- `import_oci` (`sidecar/bin/initos-firmware-oci:154-196`), run by process `n`. -/
def importOci (n : Nat) (a : Import) : List (Line (Cmd α) Test) :=
  importHead n a ++ .trap [.prune [path (a.layoutDir n), path (a.bundleDir n)]] ::
    (importBody n a ++ [.trap [], .run (.prune [path (a.layoutDir n), path (a.bundleDir n)])])

end ImportOci

end Initos.Firmware
