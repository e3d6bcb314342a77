import Mathlib.Data.List.Basic

/-!
# Unix paths

Paths are strings; their structure is the list of pieces between the slashes.
The operations follow `std::path` on Unix: an empty piece and a `.` piece are
skipped (a leading `.` is a component of its own), and everything below is
decided on the pieces that are left. Operations return the string that the
library returns, not a normalised one.
-/

namespace UnixPath

/-- The pieces between the slashes of a path, empty ones included. -/
def pieces (p : String) : List (List Char) := p.toList.splitOn '/'

/-- The path with these pieces between its slashes. -/
def ofPieces (ps : List (List Char)) : String := String.ofList (['/'].intercalate ps)

/-- `Path::is_absolute`. -/
def isAbsolute (p : String) : Bool := p.toList.head? == some '/'

/-- A piece that is not a component of its own. -/
def skipped (piece : List Char) : Bool := piece == [] || piece == ['.']

/-- The pieces from the last component to the front, without skipped trailing ones. -/
def backward (p : String) : List (List Char) := (pieces p).reverse.dropWhile skipped

/-- A relative path that starts with a `.` component. -/
def leadingDot (p : String) : Bool := (pieces p).head? == some ['.']

/-- `Path::join`: an absolute argument replaces the path, otherwise it is appended
    behind a separator. -/
def join (a b : String) : String :=
  if isAbsolute b then b
  else if a = "" ∨ a.toList.getLast? = some '/' then a ++ b
  else a ++ "/" ++ b

/-- `Path::file_name`: the last component, unless it is `..`. -/
def fileName (p : String) : Option String :=
  match backward p with
  | [] => none
  | name :: _ => if name = ['.', '.'] then none else some (String.ofList name)

/-- `Path::parent`: the path without its last component. -/
def parent (p : String) : Option String :=
  match backward p with
  | [] => if leadingDot p then some "" else none
  | _ :: rest =>
    match rest.dropWhile skipped with
    | [] => some (if isAbsolute p then "/" else if leadingDot p then "." else "")
    | rest => some (ofPieces rest.reverse)

/-- `std::path::Component`. -/
inductive Component where
  | root
  | cur
  | up
  | normal (name : String)
  deriving DecidableEq

/-- `Path::components`. -/
def components (p : String) : List Component :=
  (if isAbsolute p then [.root] else if leadingDot p then [.cur] else []) ++
    ((pieces p).filter fun piece => !skipped piece).map fun piece =>
      if piece = ['.', '.'] then .up else .normal (String.ofList piece)

/-- `Path::ends_with`, on components. -/
def endsWith (p child : String) : Bool := (components child).isSuffixOf (components p)

/-- `Path::strip_prefix("/")` of an absolute path. -/
def stripRoot (p : String) : String :=
  ofPieces (((pieces p).dropWhile skipped).reverse.dropWhile skipped).reverse

/-- Split a file name at its last dot; a name whose only dot is in front has no
    extension. -/
def splitDot (name : List Char) : List Char × Option (List Char) :=
  if name = ['.', '.'] then (name, none)
  else
    match name.reverse.dropWhile (· ≠ '.') with
    | [] => (name, none)
    | [_] => (name, none)
    | _ :: stem => (stem.reverse, some (name.reverse.takeWhile (· ≠ '.')).reverse)

/-- `Path::extension`. -/
def extension (p : String) : Option String :=
  (fileName p).bind fun name => (splitDot name.toList).2.map String.ofList

/-- `Path::with_extension`: replace what follows the last dot of the file name, or
    add an extension where there is none. -/
def withExtension (p ext : String) : String :=
  match backward p with
  | [] => p
  | name :: rest =>
    if name = ['.', '.'] then p
    else
      let suffix := if ext = "" then [] else '.' :: ext.toList
      ofPieces (rest.reverse ++ [(splitDot name).1 ++ suffix])

example : parent "/foo/bar/image.erofs" = some "/foo/bar" := by decide
example : withExtension "/z/a.b.c/" "c.sig" = "/z/a.b.c.sig" := by decide
example : parent "./a" = some "." ∧ parent "/a" = some "/" ∧ fileName "/a/.." = none := by decide

/-- A file name: one component that is neither skipped nor `..`. -/
structure IsName (n : String) : Prop where
  noSlash : '/' ∉ n.toList
  ne_empty : n ≠ ""
  ne_dot : n ≠ "."
  ne_dotdot : n ≠ ".."

instance (n : String) : Decidable (IsName n) :=
  decidable_of_iff ('/' ∉ n.toList ∧ n ≠ "" ∧ n ≠ "." ∧ n ≠ "..")
    ⟨fun h => ⟨h.1, h.2.1, h.2.2.1, h.2.2.2⟩, fun h => ⟨h.1, h.2, h.3, h.4⟩⟩

theorem IsName.not_skipped {n : String} (hn : IsName n) : skipped n.toList = false := by
  have h₁ : n.toList ≠ [] := fun h => hn.ne_empty (String.toList_inj.mp (by simpa using h))
  have h₂ : n.toList ≠ ['.'] := fun h => hn.ne_dot (String.toList_inj.mp (by simpa using h))
  simp [skipped, h₁, h₂]

theorem not_absolute_of_noSlash {n : String} (noSlash : '/' ∉ n.toList) : isAbsolute n = false := by
  unfold isAbsolute
  cases h : n.toList with
  | nil => rfl
  | cons c cs =>
    have hc : c ≠ '/' := fun he => noSlash (by rw [h, he]; simp)
    simpa using hc

/-- A relative path is appended behind the path. -/
theorem isPrefix_join (a : String) {b : String} (relative : isAbsolute b = false) :
    a.toList <+: (join a b).toList := by
  rw [join, relative, if_neg (by simp)]
  split
  · rw [String.toList_append]
    exact List.prefix_append _ _
  · rw [String.toList_append, String.toList_append, List.append_assoc]
    exact List.prefix_append _ _

/-- Appending a piece adds it at the end; only a trailing separator of `a` may
    disappear. -/
theorem pieces_join (a : String) {n : String} (noSlash : '/' ∉ n.toList) :
    ∃ front, pieces (join a n) = front ++ [n.toList] ∧
      front.reverse.dropWhile skipped = backward a := by
  have alone : n.toList.splitOn '/' = [n.toList] := List.splitOn_eq_singleton noSlash
  rw [join, not_absolute_of_noSlash noSlash, if_neg (by simp)]
  split
  · rename_i h
    rcases h with rfl | h
    · refine ⟨[], by simpa [pieces] using alone, by decide⟩
    · -- `a` ends in a separator, so its last piece is empty and is replaced
      obtain ⟨b, hb⟩ := List.getLast?_eq_some_iff.mp h
      refine ⟨b.splitOn '/', ?_, ?_⟩
      · rw [pieces, String.toList_append, hb, List.append_assoc, List.singleton_append,
          List.splitOn_append_cons_self, alone]
      · rw [backward, pieces, hb, List.splitOn_append_cons_self]
        simp [skipped]
  · refine ⟨pieces a, ?_, rfl⟩
    rw [pieces, String.toList_append, String.toList_append]
    have : "/".toList = ['/'] := by decide
    rw [this, List.append_assoc, List.singleton_append, List.splitOn_append_cons_self, alone]
    rfl

theorem backward_join_name (a : String) {n : String} (hn : IsName n) :
    ∃ rest, backward (join a n) = n.toList :: rest ∧ rest.dropWhile skipped = backward a := by
  obtain ⟨front, hp, hf⟩ := pieces_join a hn.noSlash
  refine ⟨front.reverse, ?_, hf⟩
  rw [backward, hp, List.reverse_append, List.reverse_singleton, List.singleton_append,
    List.dropWhile_cons, hn.not_skipped, if_neg (by simp)]

theorem fileName_join_name (a : String) {n : String} (hn : IsName n) :
    fileName (join a n) = some n := by
  obtain ⟨rest, hb, -⟩ := backward_join_name a hn
  have hne : n.toList ≠ ['.', '.'] :=
    fun h => hn.ne_dotdot (String.toList_inj.mp (by simpa using h))
  simp [fileName, hb, hne]

/-- The last component in front of the last piece: the name of the directory that holds
    a file. -/
def dirPiece (p : String) : Option (List Char) :=
  ((pieces p).dropLast.reverse.dropWhile skipped).head?

theorem dirPiece_join (a : String) {n : String} (noSlash : '/' ∉ n.toList) :
    dirPiece (join a n) = (backward a).head? := by
  obtain ⟨front, split, back⟩ := pieces_join a noSlash
  rw [dirPiece, split, List.dropLast_concat, back]

theorem dirPiece_join_join (a : String) {d n : String} (isName : IsName d)
    (noSlash : '/' ∉ n.toList) : dirPiece (join (join a d) n) = some d.toList := by
  obtain ⟨rest, back, -⟩ := backward_join_name a isName
  rw [dirPiece_join _ noSlash, back, List.head?_cons]

/-- A decimal number is a file name. -/
theorem isName_toString (n : Nat) : IsName (toString n) := by
  have digit : ∀ c ∈ (toString n).toList, c.isDigit = true := by
    intro c member
    rw [Nat.toString_eq_repr, Nat.toList_repr] at member
    exact Nat.isDigit_of_mem_toDigits (by decide) (by decide) member
  constructor
  · intro member
    exact absurd (digit _ member) (by decide)
  · exact Nat.repr_ne_empty
  · intro eq
    exact absurd (digit '.' (by rw [eq]; decide)) (by decide)
  · intro eq
    exact absurd (digit '.' (by rw [eq]; decide)) (by decide)

/-- The pieces of a path contain no separator. -/
theorem not_mem_of_mem_pieces {p : String} {piece : List Char} (h : piece ∈ pieces p) :
    '/' ∉ piece := by
  unfold pieces at h
  generalize p.toList = s at h
  induction s generalizing piece with
  | nil => simp_all
  | cons c s ih =>
    rw [List.splitOn_cons_eq_if_modifyHead] at h
    split at h
    · rcases List.mem_cons.mp h with rfl | h
      · simp
      · exact ih h
    · rename_i hc
      cases hs : s.splitOn '/' with
      | nil => exact absurd hs (List.splitOn_ne_nil _ _)
      | cons q qs =>
        rw [hs, List.modifyHead_cons] at h
        rcases List.mem_cons.mp h with rfl | h
        · rw [List.mem_cons, not_or]
          exact ⟨fun he => hc (by simp [he.symm]), ih (by rw [hs]; simp)⟩
        · exact ih (by rw [hs]; exact List.mem_cons_of_mem _ h)

/-- A piece of a path that names something is a file name. -/
theorem isName_of_mem_pieces {p : String} {piece : List Char} (member : piece ∈ pieces p)
    (kept : skipped piece = false) (notUp : piece ≠ ['.', '.']) : IsName (String.ofList piece) := by
  simp only [skipped, Bool.or_eq_false_iff, beq_eq_false_iff_ne] at kept
  constructor
  · rw [String.toList_ofList]
    exact not_mem_of_mem_pieces member
  · intro eq
    exact kept.1 (by simpa using congrArg String.toList eq)
  · intro eq
    exact kept.2 (by simpa using congrArg String.toList eq)
  · intro eq
    exact notUp (by simpa using congrArg String.toList eq)

/-- What `file_name` returns is a file name. -/
theorem isName_of_fileName {p n : String} (found : fileName p = some n) : IsName n := by
  unfold fileName at found
  cases back : backward p with
  | nil => simp [back] at found
  | cons piece rest =>
    simp only [back] at found
    split at found
    · cases found
    · rename_i notUp
      cases found
      have member : piece ∈ pieces p := by
        have inBack : piece ∈ backward p := by rw [back]; exact List.mem_cons_self
        exact List.mem_reverse.mp ((List.dropWhile_sublist _).subset inBack)
      have kept : skipped piece = false := by
        have first := List.head?_dropWhile_not skipped (pieces p).reverse
        rw [← backward, back] at first
        simpa using first
      exact isName_of_mem_pieces member kept notUp

/-- A normal component is a file name. -/
theorem isName_of_mem_components {p name : String} (member : .normal name ∈ components p) :
    IsName name := by
  rcases List.mem_append.mp member with front | back
  · split at front
    · simp at front
    · split at front <;> simp at front
  · obtain ⟨piece, kept, isNormal⟩ := List.mem_map.mp back
    obtain ⟨piece_mem, kept⟩ := List.mem_filter.mp kept
    split at isNormal
    · cases isNormal
    · rename_i notUp
      cases isNormal
      exact isName_of_mem_pieces piece_mem (by simpa using kept) notUp

/-! ## Extensions -/

theorem ofPieces_pieces (p : String) : ofPieces (pieces p) = p := by
  rw [ofPieces, pieces, List.intercalate_splitOn, String.ofList_toList]

theorem ofPieces_concat_append (front : List (List Char)) (a b : List Char) :
    ofPieces (front ++ [a ++ b]) = ofPieces (front ++ [a]) ++ String.ofList b := by
  rw [ofPieces, ofPieces, ← String.ofList_append]
  congr 1
  induction front with
  | nil => simp
  | cons piece front ih =>
    cases front with
    | nil => simp
    | cons piece' front => simpa using ih

/-- The last piece of the path is a file name, with nothing behind it. -/
def EndsInName (p : String) : Prop :=
  ∃ front piece, pieces p = front ++ [piece] ∧ IsName (String.ofList piece)

theorem endsInName_join (a : String) {n : String} (isName : IsName n) : EndsInName (join a n) := by
  obtain ⟨front, split, -⟩ := pieces_join a isName.noSlash
  exact ⟨front, n.toList, split, by rwa [String.ofList_toList]⟩

theorem endsInName_slash (a : String) {n : String} (isName : IsName n) :
    EndsInName (a ++ "/" ++ n) := by
  refine ⟨pieces a, n.toList, ?_, by rwa [String.ofList_toList]⟩
  rw [pieces, String.toList_append, String.toList_append, show "/".toList = ['/'] from rfl,
    List.append_assoc, List.singleton_append, List.splitOn_append_cons_self,
    List.splitOn_eq_singleton isName.noSlash]
  rfl

/-- A path that ends in a file name, read from its end. -/
theorem backward_of_endsInName {p : String} {front : List (List Char)} {piece : List Char}
    (split : pieces p = front ++ [piece]) (isName : IsName (String.ofList piece)) :
    backward p = piece :: front.reverse := by
  have kept := isName.not_skipped
  rw [String.toList_ofList] at kept
  rw [backward, split, List.reverse_append, List.reverse_singleton, List.singleton_append,
    List.dropWhile_cons, kept, if_neg Bool.false_ne_true]

theorem ne_dotdot_of_isName {piece : List Char} (isName : IsName (String.ofList piece)) :
    piece ≠ ['.', '.'] := fun up => isName.ne_dotdot (by rw [up])

/-- The directory of a file in it. -/
theorem parent_join {a n : String} (ends : EndsInName a) (isName : IsName n) :
    parent (join a n) = some a := by
  obtain ⟨front, piece, split, isPiece⟩ := ends
  obtain ⟨rest, back, above⟩ := backward_join_name a isName
  rw [backward_of_endsInName split isPiece] at above
  rw [parent, back]
  dsimp only
  rw [above]
  dsimp only
  rw [List.reverse_cons, List.reverse_reverse, ← split, ofPieces_pieces]

/-- What is put behind a path is put behind its last name. -/
theorem join_append (a : String) {n s : String} (noSlash : '/' ∉ (n ++ s).toList) :
    join a n ++ s = join a (n ++ s) := by
  have noSlash' : '/' ∉ n.toList := fun member => noSlash (by simp [member])
  rw [join, join, not_absolute_of_noSlash noSlash, not_absolute_of_noSlash noSlash']
  simp only [Bool.false_eq_true, if_false]
  split
  · rw [String.append_assoc]
  · rw [String.append_assoc, String.append_assoc]

/-- The two parts of a file name, with the dot between them. -/
theorem splitDot_append (name : List Char) :
    (splitDot name).1 ++ (splitDot name).2.elim [] ('.' :: ·) = name := by
  have parts : name.reverse.takeWhile (· ≠ '.') ++ name.reverse.dropWhile (· ≠ '.') =
      name.reverse := List.takeWhile_append_dropWhile
  rw [splitDot]
  split
  · exact List.append_nil name
  · cases back : name.reverse.dropWhile (· ≠ '.') with
    | nil => exact List.append_nil name
    | cons dot stem =>
      cases stem with
      | nil => exact List.append_nil name
      | cons c stem =>
        have isDot : dot = '.' := by
          have first := List.head?_dropWhile_not (fun c : Char => decide (c ≠ '.')) name.reverse
          rw [back] at first
          simpa using first
        rw [back, isDot] at parts
        have parts := congrArg List.reverse parts
        rw [List.reverse_append, List.reverse_cons, List.reverse_reverse] at parts
        simpa using parts

/-- An extension is put behind the part of the file name in front of its last dot. -/
theorem withExtension_eq {p : String} {front : List (List Char)} {piece : List Char}
    (split : pieces p = front ++ [piece]) (isName : IsName (String.ofList piece)) {ext : String}
    (nonempty : ext ≠ "") :
    withExtension p ext = ofPieces (front ++ [(splitDot piece).1 ++ '.' :: ext.toList]) := by
  rw [withExtension, backward_of_endsInName split isName]
  dsimp only
  rw [if_neg (ne_dotdot_of_isName isName), if_neg nonempty, List.reverse_reverse]

theorem extension_eq {p : String} {front : List (List Char)} {piece : List Char}
    (split : pieces p = front ++ [piece]) (isName : IsName (String.ofList piece)) :
    extension p = (splitDot piece).2.map String.ofList := by
  rw [extension, fileName, backward_of_endsInName split isName]
  dsimp only
  rw [if_neg (ne_dotdot_of_isName isName), Option.bind_some, String.toList_ofList]

end UnixPath
