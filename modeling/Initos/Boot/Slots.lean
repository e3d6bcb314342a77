import Initos.Boot.Guard
import Initos.Lib.UnixFs

/-!
# Slot selection

An image in the directory of the boot slot goes before the default image. The results
here are about verified boots on an arbitrary file tree: an image of the slot is used
when it is the first that is there and a signature lies beside it; where the signature
is missing, the boot fails and no other image is used in its place.
-/

namespace Initos.Boot

open Interact UnixFs

variable {α : Type}

/-- The answers of a system whose files are those of `t`: a test for existence is exact,
    and a directory listing names only what is there. -/
def OnTree (t : FileTree α) : Rely Sys := fun _ e =>
  match e with
  | ⟨.pathExists path, r⟩ => r = t.pathExists path
  | ⟨.readDir path, r⟩ => ∀ entries, r = Except.ok entries →
      ∀ name, Except.ok name ∈ entries → name ∈ t.listing path
  | _ => True

/-- A file named as a signature of the image lies beside it. -/
def Signed (t : FileTree α) (image : String) : Prop :=
  t.pathExists (Verify.signaturePath image "sig") = true ∨
    ∃ dir ∈ UnixPath.parent image, ∃ file ∈ UnixPath.fileName image,
      ∃ name ∈ t.listing dir, isSignatureName file name = true

instance (t : FileTree α) (image : String) : Decidable (Signed t image) :=
  inferInstanceAs (Decidable (_ ∨ _))

/-- The images of slot `partId` that stand for the given default images. -/
def slotImages (partId : Nat) (candidates : List String) : List String :=
  candidates.filterMap fun candidate => partitionedImagePath candidate partId

/-- The directory of a slot's image is named after the slot. -/
theorem dirPiece_of_partitioned {path image : String} {partId : Nat}
    (partitioned : partitionedImagePath path partId = some image) :
    UnixPath.dirPiece image = some (toString partId).toList ∧
      (UnixPath.fileName image).isSome = true := by
  simp only [partitionedImagePath, Option.bind_eq_bind, Option.bind_eq_some_iff,
    Option.pure_def, Option.some.injEq] at partitioned
  obtain ⟨dir, -, file, named, rfl⟩ := partitioned
  have isName := UnixPath.isName_of_fileName named
  constructor
  · exact UnixPath.dirPiece_join_join dir (UnixPath.isName_toString partId) isName.noSlash
  · rw [UnixPath.fileName_join_name _ isName]
    rfl

/-- Distinct slots have distinct images. -/
theorem slotImages_disjoint {s s' : Nat} {candidates candidates' : List String} {image : String}
    (member : image ∈ slotImages s candidates) (member' : image ∈ slotImages s' candidates') :
    s' = s := by
  obtain ⟨path, -, partitioned⟩ := List.mem_filterMap.mp member
  obtain ⟨path', -, partitioned'⟩ := List.mem_filterMap.mp member'
  have dir := (dirPiece_of_partitioned partitioned).1
  have dir' := (dirPiece_of_partitioned partitioned').1
  rw [dir] at dir'
  have same := congrArg Text.digitsValue (Option.some.inj dir')
  rw [Text.digitsValue_toString, Text.digitsValue_toString] at same
  exact same.symm

/-! ## What the searches return -/

/-- The outcome of a search for slot images: none is there, or the first that is there is
    returned with its signature, or the search fails. -/
def SlotOutcome (t : FileTree α) (images : List String) (default : Option String) :
    Outcome Sys (Except Err (Option String)) → Prop := fun out =>
  match images.find? t.pathExists with
  | none => out = .done (.ok default)
  | some image => (out = .done (.ok (some image)) ∧ Signed t image) ∨ ∃ e, out = .done (.error e)

/-- The check finds a signature only where there is one. -/
theorem signatureBeside_wp (t : FileTree α) {image : String}
    (named : (UnixPath.fileName image).isSome = true) (h : History Sys) :
    Prog.wp (OnTree t) (fun _ out => ∃ b, out = .done (.ok b) ∧ (b = true → Signed t image))
      (signatureBeside image).run h := by
  rw [signatureBeside, Fallible.wp_ask_bind]
  intro answer exact
  by_cases there : answer = true
  · rw [if_pos there, Fallible.run_pure, Prog.wp_pure]
    exact ⟨true, rfl, fun _ => .inl (by rw [← there]; exact exact.symm)⟩
  · rw [if_neg there]
    cases above : UnixPath.parent image with
    | none =>
      rw [Fallible.run_pure, Prog.wp_pure]
      exact ⟨false, rfl, nofun⟩
    | some dir =>
      dsimp only
      rw [Fallible.wp_attempt_call_bind]
      intro listed sound
      cases listed with
      | error e =>
        rw [Fallible.run_pure, Prog.wp_pure]
        exact ⟨false, rfl, nofun⟩
      | ok entries =>
        obtain ⟨file, fileName⟩ := Option.isSome_iff_exists.mp named
        simp only [fileName]
        rw [Fallible.run_pure, Prog.wp_pure]
        refine ⟨_, rfl, fun found => ?_⟩
        obtain ⟨name, member, isSignature⟩ := List.any_eq_true.mp found
        obtain ⟨entry, inEntries, read⟩ := List.mem_filterMap.mp member
        cases entry with
        | error e => cases read
        | ok name' =>
          cases read
          exact .inr ⟨dir, above, file, fileName, name, sound entries rfl name inEntries,
            isSignature⟩

/-- One candidate in a verified boot. -/
theorem checkPartitionedImage_wp (t : FileTree α) (path : String) (partId : Nat) (h : History Sys) :
    Prog.wp (OnTree t) (fun _ out => SlotOutcome t (slotImages partId [path]) none out)
      (checkPartitionedImage path partId true).run h := by
  cases partitioned : partitionedImagePath path partId with
  | none =>
    simp only [checkPartitionedImage, partitioned, slotImages, List.filterMap_cons,
      List.filterMap_nil, SlotOutcome, List.find?_nil]
    rw [Fallible.run_pure, Prog.wp_pure]
  | some image =>
    have named := (dirPiece_of_partitioned partitioned).2
    simp only [checkPartitionedImage, partitioned, slotImages, List.filterMap_cons,
      List.filterMap_nil, SlotOutcome, List.find?_cons, List.find?_nil]
    rw [Fallible.wp_bind]
    apply Prog.wp_mono (signatureBeside_wp t named h)
    intro h' out beside
    obtain ⟨seen, rfl, signed⟩ := beside
    rw [Prog.andThen_done, Fallible.cont_ok, Fallible.wp_ask_bind]
    intro answer exact
    rw [show t.pathExists image = answer from exact.symm]
    cases answer with
    | false => exact (Prog.wp_pure _ _ _ _).mpr rfl
    | true =>
      rw [if_pos rfl]
      cases seen with
      | true => exact (Prog.wp_pure _ _ _ _).mpr (.inl ⟨rfl, signed rfl⟩)
      | false => exact (Prog.wp_pure _ _ _ _).mpr (.inr ⟨_, rfl⟩)

/-- The candidates in turn. -/
theorem firstPartitioned_wp (t : FileTree α) (partId : Nat) (candidates : List String)
    (h : History Sys) :
    Prog.wp (OnTree t) (fun _ out => SlotOutcome t (slotImages partId candidates) none out)
      (firstPartitioned partId true candidates).run h := by
  induction candidates generalizing h with
  | nil => exact (Prog.wp_pure _ _ _ _).mpr rfl
  | cons candidate rest ih =>
    have split : slotImages partId (candidate :: rest) =
        slotImages partId [candidate] ++ slotImages partId rest :=
      List.filterMap_append (l := [candidate])
    rw [firstPartitioned, Fallible.wp_bind]
    apply Prog.wp_mono (checkPartitionedImage_wp t candidate partId h)
    intro h' out first
    simp only [SlotOutcome, split, List.find?_append] at first ⊢
    cases found : (slotImages partId [candidate]).find? t.pathExists with
    | none =>
      simp only [found] at first
      subst first
      rw [Prog.andThen_done, Fallible.cont_ok, Option.none_or]
      exact ih h'
    | some image =>
      simp only [found, Option.some_or] at first ⊢
      rcases first with ⟨rfl, signed⟩ | ⟨e, rfl⟩
      · exact (Prog.wp_pure _ _ _ _).mpr (.inl ⟨rfl, signed⟩)
      · exact (Prog.wp_pure _ _ _ _).mpr (.inr ⟨e, rfl⟩)

/-- The first path that exists. -/
theorem firstExisting_wp (t : FileTree α) (paths : List String) (h : History Sys) :
    Prog.wp (OnTree t) (fun _ out => out = .done (.ok (paths.find? t.pathExists)))
      (firstExisting paths).run h := by
  induction paths generalizing h with
  | nil => exact (Prog.wp_pure _ _ _ _).mpr rfl
  | cons path rest ih =>
    rw [firstExisting, Fallible.wp_ask_bind]
    intro answer exact
    rw [List.find?_cons, show t.pathExists path = answer from exact.symm]
    cases answer with
    | true => exact (Prog.wp_pure _ _ _ _).mpr rfl
    | false => exact ih _

/-- A host image is a signed image of the slot, or, where the slot has none, a default. -/
theorem findHostImage_wp (t : FileTree α) (state name : String) (s : Nat) (h : History Sys) :
    Prog.wp (OnTree t)
      (fun _ out => SlotOutcome t (slotImages s (hostCandidates state name))
        ((hostDefaults state name).find? t.pathExists) out)
      (findHostImage state name (some s) true).run h := by
  rw [findHostImage, Fallible.wp_bind]
  apply Prog.wp_mono (firstPartitioned_wp t s (hostCandidates state name) h)
  intro h' out outcome
  unfold SlotOutcome at outcome ⊢
  split at outcome
  · subst outcome
    exact firstExisting_wp t (hostDefaults state name) h'
  · rcases outcome with ⟨rfl, signed⟩ | ⟨e, rfl⟩
    · exact (Prog.wp_pure _ _ _ _).mpr (.inl ⟨rfl, signed⟩)
    · exact (Prog.wp_pure _ _ _ _).mpr (.inr ⟨e, rfl⟩)

/-! ## The root -/

/-- The images of the slot that go before the root image. -/
def rootSlotImages (state img : String) (partId : Nat) : List String :=
  (UnixPath.fileName (defaultImage state img)).elim [] fun file =>
    slotImages partId [UnixPath.join (UnixPath.join state "initos") file, defaultImage state img]

/-- The root image is the default where the slot has none, or else the first image of the
    slot that is there, with a signature. -/
def RootChoice (t : FileTree α) (state img : String) (partId : Option Nat)
    (image : String) : Prop :=
  (image = defaultImage state img ∧
      ∀ s ∈ partId, (rootSlotImages state img s).find? t.pathExists = none) ∨
    ∃ s ∈ partId, (rootSlotImages state img s).find? t.pathExists = some image ∧ Signed t image

/-- The image that `mount_rootfs` chooses. -/
theorem rootImage_wp (t : FileTree α) (state img : String) (partId : Option Nat)
    (h : History Sys) :
    Prog.wp (OnTree t) (fun _ out => (∃ e, out = .done (.error e)) ∨
        ∃ image, out = .done (.ok image) ∧ RootChoice t state img partId image)
      (rootImage state img true partId).run h := by
  cases partId with
  | none =>
    have choice : RootChoice t state img none (defaultImage state img) := .inl ⟨rfl, by simp⟩
    exact (Prog.wp_pure _ _ _ _).mpr (.inr ⟨_, rfl, choice⟩)
  | some s =>
    unfold rootImage
    dsimp only
    split
    · exact (Prog.wp_pure _ _ _ _).mpr (.inl ⟨_, rfl⟩)
    · rename_i file named
      have slots : rootSlotImages state img s = slotImages s
          [UnixPath.join (UnixPath.join state "initos") file, defaultImage state img] := by
        rw [rootSlotImages, named, Option.elim_some]
      rw [Fallible.wp_bind]
      apply Prog.wp_mono (firstPartitioned_wp t s _ h)
      intro h' out outcome
      rw [← slots, SlotOutcome] at outcome
      split at outcome
      · rename_i noSlot
        have choice : RootChoice t state img (some s) (defaultImage state img) :=
          .inl ⟨rfl, by simpa using noSlot⟩
        subst outcome
        rw [Prog.andThen_done, Fallible.cont_ok]
        exact (Prog.wp_pure _ _ _ _).mpr (.inr ⟨_, rfl, choice⟩)
      · rename_i image found
        rcases outcome with ⟨rfl, signed⟩ | ⟨e, rfl⟩
        · have choice : RootChoice t state img (some s) image := .inr ⟨s, rfl, found, signed⟩
          rw [Prog.andThen_done, Fallible.cont_ok]
          exact (Prog.wp_pure _ _ _ _).mpr (.inr ⟨_, rfl, choice⟩)
        · rw [Prog.andThen_done, Fallible.cont_error]
          exact (Prog.wp_pure _ _ _ _).mpr (.inl ⟨e, rfl⟩)

/-- The files are those of `t`, and `root` is the value of `INITOS_ROOT`. -/
def RootNamed (t : FileTree α) (root : Option String) : Rely Sys := fun h e =>
  OnTree t h e ∧ ∀ r, e = ⟨.envVar "INITOS_ROOT", r⟩ → r = root

/-- What `mount_rootfs` does in a verified boot: after quiet steps it binds the first root
    directory that is there, or else mounts the chosen image once that is verified. -/
inductive RootRun (X : Crates) (t : FileTree α) (state rootMount img : String)
    (root : Option String) (partId : Option Nat) :
    History Sys → Outcome Sys (Except Err Unit) → Prop
  | bound {dir : String} {tr : History Sys} {r : Except Err Unit}
      (found : (rootDirs state (root.getD "ROOTA") partId).find? t.pathExists = some dir)
      (quiet : ∀ e ∈ tr, Quiet e.cmd) :
      RootRun X t state rootMount img root partId
        (tr ++ [⟨.recursiveBindMount dir rootMount, r⟩]) (.done r)
  | noImage {tr : History Sys} {e : Err}
      (noDir : (rootDirs state (root.getD "ROOTA") partId).find? t.pathExists = none)
      (quiet : ∀ e ∈ tr, Quiet e.cmd) :
      RootRun X t state rootMount img root partId tr (.done (.error e))
  | rejected {image : String} {tr : History Sys} {out : Outcome Sys (Except Err Unit)}
      (noDir : (rootDirs state (root.getD "ROOTA") partId).find? t.pathExists = none)
      (choice : RootChoice t state img partId image)
      (quiet : ∀ e ∈ tr, Quiet e.cmd) (failed : out ≠ .done (.ok ())) :
      RootRun X t state rootMount img root partId tr out
  | mounted {image : String} {tr : History Sys} {r : Except Err Unit}
      (noDir : (rootDirs state (root.getD "ROOTA") partId).find? t.pathExists = none)
      (choice : RootChoice t state img partId image)
      (quiet : ∀ e ∈ tr, Quiet e.cmd) (verified : VerifiedIn X image tr) :
      RootRun X t state rootMount img root partId
        (tr ++ [⟨.mountLoop image rootMount, r⟩]) (.done r)

/-- What a run of `mount_rootfs` does, by the tree. -/
theorem mountRootfs_wp (X : Crates) (t : FileTree α) (state rootMount img : String)
    (root : Option String) (partId : Option Nat) (h : History Sys) :
    Prog.wp (RootNamed t root)
      (fun h' out => ∃ tr, h' = h ++ tr ∧ RootRun X t state rootMount img root partId tr out)
      (mountRootfs X state rootMount img true partId).run h := by
  have weaker : ∀ h e, RootNamed t root h e → OnTree t h e := fun h e named => named.1
  rw [mountRootfs, envVarOr, bind_assoc, Fallible.wp_ask_bind]
  intro answer named
  have isRoot : answer = root := named.2 answer rfl
  subst isRoot
  rw [pure_bind, Fallible.wp_bind]
  have search := Prog.wp_rely_mono
    (firstExisting_wp t (rootDirs state (answer.getD "ROOTA") partId)
      (h ++ [⟨.envVar "INITOS_ROOT", answer⟩])) weaker
  apply Prog.wp_mono (Prog.wp_and ((firstExisting_quiet _).wp _ _) search)
  rintro _ out ⟨⟨tr₁, rfl, quiet₁⟩, rfl⟩
  rw [Prog.andThen_done, Fallible.cont_ok]
  have quiet₁ : ∀ e ∈ ⟨.envVar "INITOS_ROOT", answer⟩ :: tr₁, Quiet e.cmd := by
    simpa using quiet₁
  cases found : (rootDirs state (answer.getD "ROOTA") partId).find? t.pathExists with
  | some dir =>
    rw [Fallible.wp_call]
    intro r _
    refine ⟨⟨.envVar "INITOS_ROOT", answer⟩ :: tr₁ ++ [⟨.recursiveBindMount dir rootMount, r⟩],
      by simp, .bound found quiet₁⟩
  | none =>
    dsimp only
    rw [Fallible.wp_bind]
    have choose := Prog.wp_rely_mono (rootImage_wp t state img partId
      (h ++ [⟨.envVar "INITOS_ROOT", answer⟩] ++ tr₁)) weaker
    apply Prog.wp_mono (Prog.wp_and ((rootImage_quiet state img true partId).wp _ _) choose)
    rintro _ out ⟨⟨tr₂, rfl, quiet₂⟩, chosen⟩
    have quiet₂ : ∀ e ∈ ⟨.envVar "INITOS_ROOT", answer⟩ :: tr₁ ++ tr₂, Quiet e.cmd := by
      intro e member
      exact (List.mem_append.mp member).elim (quiet₁ e) (quiet₂ e)
    rcases chosen with ⟨e, rfl⟩ | ⟨image, rfl, choice⟩
    · rw [Prog.andThen_done, Fallible.cont_error, Prog.wp_pure]
      exact ⟨⟨.envVar "INITOS_ROOT", answer⟩ :: tr₁ ++ tr₂, by simp, .noImage found quiet₂⟩
    · rw [Prog.andThen_done, Fallible.cont_ok, Fallible.wp_bind]
      apply Prog.wp_mono (verifyImageTrusted_wp (X := X) _ image _)
      rintro _ out ⟨tr₃, rfl, quiet₃, verified⟩
      have quiet₃ : ∀ e ∈ ⟨.envVar "INITOS_ROOT", answer⟩ :: tr₁ ++ tr₂ ++ tr₃, Quiet e.cmd := by
        intro e member
        exact (List.mem_append.mp member).elim (quiet₂ e) (quiet₃ e)
      rcases out with (e | ⟨⟩) | stop
      · rw [Prog.andThen_done, Fallible.cont_error, Prog.wp_pure]
        exact ⟨⟨.envVar "INITOS_ROOT", answer⟩ :: tr₁ ++ tr₂ ++ tr₃, by simp,
          .rejected found choice quiet₃ (by rintro ⟨⟩)⟩
      · rw [Prog.andThen_done, Fallible.cont_ok, Fallible.wp_call]
        intro r _
        have verified : VerifiedIn X image (⟨.envVar "INITOS_ROOT", answer⟩ :: tr₁ ++ tr₂ ++ tr₃) :=
          (verified rfl).append_left _
        refine ⟨⟨.envVar "INITOS_ROOT", answer⟩ :: tr₁ ++ tr₂ ++ tr₃ ++
          [⟨.mountLoop image rootMount, r⟩], by simp, .mounted found choice quiet₃ verified⟩
      · exact ⟨⟨.envVar "INITOS_ROOT", answer⟩ :: tr₁ ++ tr₂ ++ tr₃, by simp,
          .rejected found choice quiet₃ (by rintro ⟨⟩)⟩

/-! ## No downgrade -/

/-- The default images lie in a directory that is not named after a slot. -/
theorem not_mem_slotImages_of_default {state name image : String} (noSlash : '/' ∉ name.toList)
    (default : image ∈ hostDefaults state name) (s : Nat) (candidates : List String) :
    image ∉ slotImages s candidates := by
  intro member
  obtain ⟨path, -, partitioned⟩ := List.mem_filterMap.mp member
  have slotDir := (dirPiece_of_partitioned partitioned).1
  have img : UnixPath.IsName "img" := by constructor <;> decide
  have imgDir : UnixPath.dirPiece image = some "img".toList := by
    simp only [hostDefaults, List.mem_cons, List.not_mem_nil, or_false] at default
    rcases default with rfl | rfl | rfl
    · exact UnixPath.dirPiece_join_join state img noSlash
    · rw [UnixPath.dirPiece_join _ noSlash]
      decide
    · rw [UnixPath.dirPiece_join _ noSlash]
      decide
  have same : toString s = "img" := by
    rw [slotDir] at imgDir
    exact String.toList_inj.mp (Option.some.inj imgDir)
  have digit : 'i'.isDigit = true := by
    have member : 'i' ∈ (toString s).toList := by
      rw [same]
      decide
    rw [Nat.toString_eq_repr, Nat.toList_repr] at member
    exact Nat.isDigit_of_mem_toDigits (by decide) (by decide) member
  exact absurd digit (by decide)

/-- A search with `images` as the images of slot `s` returns none but the first that is
    there, with its signature; another image only where none of them is there; and never an
    image of another slot. Where the first has no signature, the search fails. -/
def NoDowngrade (t : FileTree α) (s : Nat) (images : List String)
    (out : Outcome Sys (Except Err (Option String))) : Prop :=
  (∀ image, out = .done (.ok (some image)) →
    (image ∉ images → ∀ slotImage ∈ images, t.pathExists slotImage = false) ∧
    (image ∈ images → images.find? t.pathExists = some image ∧ Signed t image) ∧
    ∀ s' candidates, s' ≠ s → image ∉ slotImages s' candidates) ∧
  ∀ first, images.find? t.pathExists = some first → ¬Signed t first →
    ∃ e, out = .done (.error e)

/-- A choice by the rules is no downgrade. -/
theorem noDowngrade_of_slotOutcome {t : FileTree α} {s : Nat} {state name : String}
    {out : Outcome Sys (Except Err (Option String))} (noSlash : '/' ∉ name.toList)
    (outcome : SlotOutcome t (slotImages s (hostCandidates state name))
      ((hostDefaults state name).find? t.pathExists) out) :
    NoDowngrade t s (slotImages s (hostCandidates state name)) out := by
  unfold SlotOutcome at outcome
  split at outcome
  · rename_i noSlot
    subst outcome
    refine ⟨fun image returned => ?_, fun first found => by rw [noSlot] at found; cases found⟩
    have found : (hostDefaults state name).find? t.pathExists = some image := by
      simpa using returned
    have default := not_mem_slotImages_of_default noSlash (List.mem_of_find?_eq_some found)
    refine ⟨fun _ slotImage member => ?_, fun member => absurd member (default s _),
      fun s' candidates _ => default s' candidates⟩
    simpa using List.find?_eq_none.mp noSlot slotImage member
  · rename_i first found
    have inSlot : first ∈ slotImages s (hostCandidates state name) :=
      List.mem_of_find?_eq_some found
    constructor
    · intro image returned
      rcases outcome with ⟨rfl, signed⟩ | ⟨e, rfl⟩
      · have same : first = image := by simpa using returned
        subst same
        refine ⟨fun outside => absurd inSlot outside, fun _ => ⟨found, signed⟩, ?_⟩
        intro s' candidates other member
        exact other (slotImages_disjoint inSlot member)
      · cases returned
    · intro first' found' unsigned
      rw [found] at found'
      cases found'
      rcases outcome with ⟨-, signed⟩ | failed
      · exact absurd signed unsigned
      · exact failed

/-- Where no root directory is there, the root image is chosen as the other images are. -/
theorem rootRun_noDowngrade {X : Crates} {t : FileTree α} {state rootMount img : String}
    {root : Option String} {s : Nat} {tr : History Sys} {out : Outcome Sys (Except Err Unit)}
    (run : RootRun X t state rootMount img root (some s) tr out)
    (noDir : (rootDirs state (root.getD "ROOTA") (some s)).find? t.pathExists = none) :
    (∀ image target r, ⟨.mountLoop image target, r⟩ ∈ tr →
        RootChoice t state img (some s) image) ∧
      ∀ first, (rootSlotImages state img s).find? t.pathExists = some first →
        ¬Signed t first → ∃ e, out = .done (.error e) := by
  have signedFirst : ∀ {image first}, RootChoice t state img (some s) image →
      (rootSlotImages state img s).find? t.pathExists = some first → Signed t first := by
    intro image first choice found
    rcases choice with ⟨-, noSlot⟩ | ⟨s', isSlot, chosen, signed⟩
    · rw [noSlot s rfl] at found
      cases found
    · cases isSlot
      rw [chosen] at found
      cases found
      exact signed
  have noMount : ∀ {steps : History Sys} {image target r}, (∀ e ∈ steps, Quiet e.cmd) →
      (⟨.mountLoop image target, r⟩ : Event Sys) ∉ steps :=
    fun quiet member => quiet _ member
  cases run with
  | bound found quiet =>
    rw [noDir] at found
    cases found
  | noImage noDir quiet =>
    exact ⟨fun image target r member => absurd member (noMount quiet), fun _ _ _ => ⟨_, rfl⟩⟩
  | rejected noDir choice quiet failed =>
    exact ⟨fun image target r member => absurd member (noMount quiet),
      fun first found unsigned => absurd (signedFirst choice found) unsigned⟩
  | mounted noDir choice quiet verified =>
    refine ⟨fun image target r member => ?_,
      fun first found unsigned => absurd (signedFirst choice found) unsigned⟩
    rcases List.mem_append.mp member with member | member
    · exact absurd member (noMount quiet)
    · rw [List.mem_singleton] at member
      cases member
      exact choice

/-- Removing a signature does not make a verified boot use another image. -/
theorem slot_selection_not_downgraded (X : Crates) (t : FileTree α) (state : String) (s : Nat) :
    (∀ name tr out, '/' ∉ name.toList →
      Runs (findHostImage state name (some s) true).run tr out → Admits (OnTree t) [] tr →
      NoDowngrade t s (slotImages s (hostCandidates state name)) out) ∧
    ∀ rootMount img root tr out, Runs (mountRootfs X state rootMount img true (some s)).run tr out →
      Admits (RootNamed t root) [] tr →
      (rootDirs state (root.getD "ROOTA") (some s)).find? t.pathExists = none →
      (∀ image target r, ⟨.mountLoop image target, r⟩ ∈ tr →
        RootChoice t state img (some s) image) ∧
      ∀ first, (rootSlotImages state img s).find? t.pathExists = some first →
        ¬Signed t first → ∃ e, out = .done (.error e) := by
  constructor
  · intro name tr out noSlash run onTree
    have outcome := (Prog.wp_iff_runs _ _ _ _).mp (findHostImage_wp t state name s []) tr out run
      onTree
    exact noDowngrade_of_slotOutcome noSlash outcome
  · intro rootMount img root tr out run named noDir
    obtain ⟨_, rfl, rootRun⟩ := (Prog.wp_iff_runs _ _ _ _).mp
      (mountRootfs_wp X t state rootMount img root (some s) []) tr out run named
    exact rootRun_noDowngrade rootRun noDir

/-- A system with the files of `t` and `INITOS_ROOT`, on which directories can be bound. -/
def treeSystem (t : FileTree α) (root : Option String) : (c : SysCmd) → c.Resp
  | .envVar name => if name = "INITOS_ROOT" then root else none
  | .pathExists path => t.pathExists path
  | .isDir path => t.isDir path
  | .readDir path =>
    if t.isDir path then .ok ((t.listing path).map .ok) else .error (.io .notFound "not found")
  | .recursiveBindMount _ _ => .ok ()
  | c => c.fail (.io .notFound "not found")

theorem treeSystem_rootNamed (t : FileTree α) (root : Option String) (h : History Sys)
    (c : SysCmd) : RootNamed t root h ⟨c, treeSystem t root c⟩ := by
  constructor
  · cases c with
    | pathExists path => rfl
    | readDir path =>
      intro entries listed name member
      change (if t.isDir path then _ else _) = _ at listed
      split at listed
      · cases listed
        simpa using member
      · cases listed
    | _ => trivial
  · intro r same
    cases c with
    | envVar name =>
      simp only [Event.mk.injEq, SysCmd.envVar.injEq] at same
      obtain ⟨rfl, same⟩ := same
      exact (eq_of_heq same).symm
    | _ => cases same

/-- Images of slot 101 without signatures beside default images. -/
def unsignedTree : FileTree Unit where
  nodes := [(["z"], .dir), (["z", "img"], .dir), (["z", "img", "101"], .dir),
    (["z", "img", "modules.erofs"], .file ()), (["z", "img", "101", "modules.erofs"], .file ()),
    (["z", "img", "initos.erofs"], .file ()), (["z", "img", "101", "initos.erofs"], .file ())]
  inDir := by decide

theorem slot_selection_not_downgraded_unsigned :
    (∃ e, ((findHostImage "/z" "modules.erofs" (some 101) true).run.exec
        (fun _ => treeSystem unsignedTree none) []).2 = .done (.error e)) ∧
      ∃ e, ((mountRootfs Efi.sampleCrates "/z" "/sysroot" "/img/initos.erofs" true
        (some 101)).run.exec (fun _ => treeSystem unsignedTree none) []).2 = .done (.error e) := by
  have selection := slot_selection_not_downgraded Efi.sampleCrates unsignedTree "/z" 101
  constructor
  · refine (selection.1 "modules.erofs" _ _ (by decide) (Prog.runs_exec _ _ _)
      (Prog.admits_exec (fun h c => (treeSystem_rootNamed unsignedTree none h c).1) _ _)).2
      "/z/img/101/modules.erofs" (by decide +kernel) (by decide +kernel)
  · refine (selection.2 "/sysroot" "/img/initos.erofs" none _ _ (Prog.runs_exec _ _ _)
      (Prog.admits_exec (treeSystem_rootNamed unsignedTree none) _ _) (by decide +kernel)).2
      "/z/img/101/initos.erofs" (by decide +kernel) (by decide +kernel)

end Initos.Boot
