import Initos.Boot.Images
import Initos.Verify.Exact
import Initos.Lib.Static
import Initos.Lib.UnixWalk

/-!
# The names of signature files

`sign.sh` writes the signature of an image beside it, under the image's name followed by the id
of the key. The verifier finds that name by replacing the extension of the image's path, and
`check_partitioned_image` looks for it among the entries of the directory.
-/

namespace Initos.Agreement

open Interact UnixFs UnixFs.FileTree Efi Verify Boot Mount

variable {α : Type}

/-- The file that `image` of `sign.sh` writes the db signature to
    (`sidecar/bin/sign.sh:218-219` and `252-254`). -/
def dbSignatureFile (imageDir filen keyId : String) : String :=
  let imgName := s!"{imageDir}/{filen}"
  s!"{imgName}.{keyId}.db.sig"

/-- Replacing the extension by itself and a suffix puts the suffix behind the path. -/
theorem signaturePath_eq {img : String} (ends : UnixPath.EndsInName img) {suffix : String}
    (nonempty : suffix ≠ "") : signaturePath img suffix = img ++ ("." ++ suffix) := by
  obtain ⟨front, piece, split, isName⟩ := ends
  have parts := UnixPath.splitDot_append piece
  have whole : img ++ ("." ++ suffix) =
      UnixPath.ofPieces (front ++ [piece ++ '.' :: suffix.toList]) := by
    rw [UnixPath.ofPieces_concat_append, ← split, UnixPath.ofPieces_pieces]
    congr 1
    exact String.toList_inj.mp (by simp)
  rw [signaturePath, UnixPath.extension_eq split isName, whole]
  cases ext : (UnixPath.splitDot piece).2 with
  | none =>
    rw [ext, Option.elim_none, List.append_nil] at parts
    rw [Option.map_none]
    dsimp only
    rw [UnixPath.withExtension_eq split isName nonempty, parts]
  | some e =>
    rw [ext, Option.elim_some] at parts
    have longer : s!"{String.ofList e}.{suffix}" = String.ofList (e ++ '.' :: suffix.toList) := by
      change String.ofList e ++ "." ++ suffix = _
      exact String.toList_inj.mp (by simp)
    rw [Option.map_some]
    dsimp only
    rw [longer, UnixPath.withExtension_eq split isName (by simp), String.toList_ofList,
      ← List.cons_append, ← List.append_assoc, parts]

/-! ## The check of a slot -/

/-- The answers of a system with the files of `t`, on which the directory of the image can be
    read. -/
def ReadsTree (t : FileTree α) (image : String) (e : Event Sys) : Prop :=
  match e with
  | ⟨.pathExists path, r⟩ => r = t.pathExists path
  | ⟨.readDir path, r⟩ => UnixPath.parent image = some path →
      ∃ entries, r = Except.ok entries ∧ ∀ name ∈ t.listing path, Except.ok name ∈ entries
  | ⟨.readFile path, r⟩ => ∀ content, r = Except.ok content →
      content.length < 2 ^ 63 ∧ t.pathExists path = true
  | ⟨.measureVerity path, r⟩ => ∀ measured, r = Except.ok measured → t.pathExists path = true
  | _ => True

/-- An image of a slot lies in a directory with a name of its own. -/
theorem partitionedImagePath_join {path image : String} {partId : Nat}
    (partitioned : partitionedImagePath path partId = some image) :
    ∃ dir file, image = UnixPath.join dir file ∧ UnixPath.EndsInName dir ∧
      UnixPath.IsName file := by
  simp only [partitionedImagePath, Option.bind_eq_bind, Option.bind_eq_some_iff,
    Option.pure_def, Option.some.injEq] at partitioned
  obtain ⟨parent, -, file, named, rfl⟩ := partitioned
  exact ⟨_, file, rfl, UnixPath.endsInName_join parent (UnixPath.isName_toString partId),
    UnixPath.isName_of_fileName named⟩

section

variable {t : FileTree α} {dir file keyId : String} {tr : History Sys}

/-- The name of a db signature is a file name that stands for a signature. -/
theorem isName_signature (isName : UnixPath.IsName file) (noSlash : '/' ∉ keyId.toList) :
    UnixPath.IsName (file ++ ("." ++ (keyId ++ ".db.sig"))) := by
  have long : 8 ≤ (file ++ ("." ++ (keyId ++ ".db.sig"))).length := by
    simp only [String.length_append]
    have : ".db.sig".length = 7 := rfl
    have : ".".length = 1 := rfl
    omega
  constructor
  · have := isName.noSlash
    simp_all
  · intro same
    exact absurd (same ▸ long) (by decide)
  · intro same
    exact absurd (same ▸ long) (by decide)
  · intro same
    exact absurd (same ▸ long) (by decide)

/-- The name that the signer writes passes the slot check. -/
theorem isSignatureName_db (file keyId : String) :
    isSignatureName file (file ++ ("." ++ (keyId ++ ".db.sig"))) = true := by
  rw [isSignatureName, Bool.and_eq_true]
  constructor
  · rw [Text.startsWith, List.isPrefixOf_iff_prefix]
    exact ⟨(keyId ++ ".db.sig").toList, by simp⟩
  · rw [Text.endsWith, List.isSuffixOf_iff_suffix]
    exact ⟨(file ++ "." ++ keyId ++ ".db").toList, by simp⟩

/-- A db signature beside the image is seen. -/
theorem signatureBeside_sees {out : Outcome Sys (Except Err Bool)}
    (runs : Runs (signatureBeside (UnixPath.join dir file)).run tr out)
    (reads : ∀ e ∈ tr, ReadsTree t (UnixPath.join dir file) e)
    (ends : UnixPath.EndsInName dir) (isName : UnixPath.IsName file)
    (noSlash : '/' ∉ keyId.toList)
    (signed : t.pathExists (signaturePath (UnixPath.join dir file) (keyId ++ ".db.sig")) = true) :
    out = .done (.ok true) := by
  have parent := UnixPath.parent_join ends isName
  have isSignature := isName_signature isName noSlash
  have listed : file ++ ("." ++ (keyId ++ ".db.sig")) ∈ t.listing dir := by
    rw [signaturePath_eq (UnixPath.endsInName_join dir isName) (by simp),
      UnixPath.join_append dir isSignature.noSlash] at signed
    exact mem_listing_of_pathExists isSignature signed
  rw [signatureBeside, Fallible.runs_ask_bind] at runs
  obtain ⟨seen, rest, rfl, looked⟩ := runs
  cases seen with
  | true => exact (Fallible.runs_pure_iff.mp looked).2
  | false =>
    rw [if_neg Bool.false_ne_true, parent] at looked
    obtain ⟨answer, rest, rfl, searched⟩ := Fallible.runs_attempt_call_bind.mp looked
    obtain ⟨entries, rfl, complete⟩ : ∃ entries, answer = Except.ok entries ∧
        ∀ name ∈ t.listing dir, Except.ok name ∈ entries :=
      reads ⟨.readDir dir, answer⟩ (by simp) parent
    dsimp only at searched
    rw [UnixPath.fileName_join_name dir isName] at searched
    have found : (flatten entries).any (isSignatureName file) = true :=
      List.any_eq_true.mpr ⟨_, List.mem_filterMap.mpr ⟨_, complete _ listed, rfl⟩,
        isSignatureName_db file keyId⟩
    dsimp only at searched
    rw [found] at searched
    exact (Fallible.runs_pure_iff.mp searched).2

/-- An image of a slot is taken only with a signature beside it. -/
theorem checkPartitionedImage_takes {path image : String} {partId : Nat} {verifiedBoot : Bool}
    {out : Outcome Sys (Except Err (Option String))}
    (partitioned : partitionedImagePath path partId = some image)
    (runs : Runs (checkPartitionedImage path partId verifiedBoot).run tr out)
    (reads : ∀ e ∈ tr, ReadsTree t image e) (noSlash : '/' ∉ keyId.toList)
    (there : t.pathExists image = true)
    (signed : t.pathExists (signaturePath image (keyId ++ ".db.sig")) = true) :
    out = .done (.ok (some image)) := by
  obtain ⟨dir, file, rfl, ends, isName⟩ := partitionedImagePath_join partitioned
  rw [checkPartitionedImage, partitioned] at runs
  dsimp only at runs
  obtain ⟨seen, tr₁, tr₂, rfl, beside, looked⟩ | ⟨e, rfl, beside⟩ | ⟨stop, rfl, beside⟩ :=
    runs_fallible_bind.mp runs
  · obtain ⟨reads₁, reads₂⟩ := List.forall_mem_append.mp reads
    cases signatureBeside_sees beside reads₁ ends isName noSlash signed
    obtain ⟨answer, rest, rfl, decided⟩ := Fallible.runs_ask_bind.mp looked
    have exact : answer = t.pathExists (UnixPath.join dir file) :=
      reads₂ ⟨.pathExists (UnixPath.join dir file), answer⟩ List.mem_cons_self
    rw [exact, there, if_pos rfl, if_pos rfl] at decided
    exact (Fallible.runs_pure_iff.mp decided).2
  · cases signatureBeside_sees beside reads ends isName noSlash signed
  · cases signatureBeside_sees beside reads ends isName noSlash signed

end

/-! ## The verifier -/

section

variable {X : Crates} {img basePath : String} {tr : History Sys}

/-- The key id of a parsed certificate is that of its public key. -/
theorem keyId_of_parsed {der : List UInt8} {cert : EfiCert}
    (parsed : parseX509Cert X der = .ok cert) : ∃ spkiDer, cert.keyId = X.publicKeyId spkiDer := by
  unfold parseX509Cert at parsed
  split at parsed
  · cases parsed
  · split at parsed
    · cases parsed
    · rename_i spkiDer _
      cases parsed
      exact ⟨spkiDer, rfl⟩

/-- An image that can be measured is measured. -/
theorem measured_of_runs {measured : Nat × List UInt8}
    (runs : Runs (measureOrEnableVerity img).run tr (.done (.ok measured))) :
    ∃ answer, ⟨.measureVerity img, Except.ok answer⟩ ∈ tr := by
  obtain ⟨answer, rest, rfl, failed⟩ := Fallible.runs_attempt_call_bind.mp runs
  cases answer with
  | ok measured => exact ⟨measured, List.mem_cons_self⟩
  | error e =>
    obtain ⟨opened, rest, rfl, opening⟩ := Fallible.runs_attempt_call_bind.mp failed
    cases opened with
    | error e => cases opening
    | ok opened =>
      obtain ⟨enabled, rest, rfl, enabling⟩ := Fallible.runs_attempt_call_bind.mp opening
      cases enabled with
      | error e => cases enabling
      | ok enabled =>
        cases enabling with
        | call again done =>
          cases done
          exact ⟨measured, by simp⟩

theorem ofChecked_runs {β : Type} {r : Bytes.Checked β} {b : β}
    (runs : Runs (ofChecked r).run tr (.done (.ok b))) : r = some b := by
  cases r with
  | none => cases runs
  | some b' =>
    cases runs
    rfl

theorem ofExcept_runs {β : Type} {r : Except Err β} {b : β}
    (runs : Runs (ofExcept r).run tr (.done (.ok b))) : r = .ok b := by
  cases r with
  | error e => cases runs
  | ok b' =>
    cases runs
    rfl

/-- The certificates of `db` have key ids that are hexadecimal digits. -/
theorem readDb_keyId {certs : List EfiCert}
    (runs : Runs (readDb X basePath).run tr (.done (.ok certs)))
    (small : ∀ path content, ⟨.readFile path, Except.ok content⟩ ∈ tr → content.length < 2 ^ 63) :
    ∀ cert ∈ certs, '/' ∉ cert.keyId.toList := by
  obtain ⟨answer, rest, rfl, read⟩ := Fallible.runs_call_bind.mp runs
  cases answer with
  | error e => cases read
  | ok data =>
    have length := small _ _ List.mem_cons_self
    obtain ⟨payload, tr₁, tr₂, -, stripped, parsed⟩ := Fallible.runs_bind_ok read
    have shorter : payload.length < 2 ^ 63 := by
      rw [stripAttributes] at stripped
      split at stripped
      · cases stripped
      · obtain ⟨-, -, rfl⟩ := Bytes.slice_eq_some_iff.mp (ofChecked_runs stripped)
        rw [List.length_take, List.length_drop]
        omega
    obtain ⟨result, tr₃, tr₄, -, checked, returned⟩ := Fallible.runs_bind_ok parsed
    have parses : parseEsl X payload = some (.ok certs) :=
      ofExcept_runs returned ▸ ofChecked_runs checked
    intro cert member
    obtain ⟨der, parsedCert⟩ := parsed_of_mem_db shorter parses cert member
    obtain ⟨spkiDer, hex⟩ := keyId_of_parsed parsedCert
    rw [hex]
    exact Text.slash_notMem_hex _

/-- An image is verified with the help of a signature file beside it. -/
theorem verifyCerts_reads {digest : List UInt8} {certs : List EfiCert}
    (runs : Runs (verifyCerts X img digest certs).run tr (.done (.ok true))) :
    ∃ cert ∈ certs, ∃ content,
      ⟨.readFile (signaturePath img (cert.keyId ++ ".db.sig")), Except.ok content⟩ ∈ tr := by
  induction certs generalizing tr with
  | nil => cases runs
  | cons cert rest ih =>
    have later {tr' : History Sys} (before : History Sys)
        (next : Runs (verifyCerts X img digest rest).run tr' (.done (.ok true))) :
        ∃ cert' ∈ cert :: rest, ∃ content,
          ⟨.readFile (signaturePath img (cert'.keyId ++ ".db.sig")), Except.ok content⟩ ∈
            before ++ tr' := by
      obtain ⟨cert', member, content, read⟩ := ih next
      exact ⟨cert', List.mem_cons_of_mem _ member, content, List.mem_append_right _ read⟩
    rw [verifyCerts] at runs
    split at runs
    · exact later [] runs
    · obtain ⟨answer, tr', rfl, next⟩ := Fallible.runs_attempt_call_bind.mp runs
      cases answer with
      | ok content => exact ⟨cert, List.mem_cons_self, content, List.mem_cons_self⟩
      | error e =>
        dsimp only at next
        split at next
        · exact later [_] next
        · cases next

/-- What is verified is there, with a signature beside it. -/
theorem verifyImageDb_reads {t : FileTree α}
    (runs : Runs (verifyImageDb X img basePath).run tr (.done (.ok true)))
    (reads : ∀ e ∈ tr, ReadsTree t img e) :
    t.pathExists img = true ∧ ∃ keyId, '/' ∉ keyId.toList ∧
      t.pathExists (signaturePath img (keyId ++ ".db.sig")) = true := by
  obtain ⟨measured, tr₁, tr₂, rfl, measuring, rest⟩ := Fallible.runs_bind_ok runs
  obtain ⟨certs, tr₃, tr₄, rfl, reading, verifying⟩ := Fallible.runs_bind_ok rest
  obtain ⟨reads₁, reads₂⟩ := List.forall_mem_append.mp reads
  obtain ⟨reads₃, reads₄⟩ := List.forall_mem_append.mp reads₂
  obtain ⟨answer, wasMeasured⟩ := measured_of_runs measuring
  obtain ⟨cert, member, content, wasRead⟩ := verifyCerts_reads verifying
  have small (path : String) (content : List UInt8)
      (wasRead : ⟨.readFile path, Except.ok content⟩ ∈ tr₃) : content.length < 2 ^ 63 :=
    (reads₃ _ wasRead content rfl).1
  exact ⟨reads₁ _ wasMeasured answer rfl, cert.keyId, readDb_keyId reading small cert member,
    (reads₄ _ wasRead content rfl).2⟩

end

/-- Signer, verifier and slot check use the same names: the verifier's path is the image's path
    with the key id behind it, the signer writes that file, and an image of a slot with such a
    file beside it, or which the verifier takes, is taken. -/
theorem signature_names_agree (X : Crates) (t : FileTree α) :
    (∀ img keyId, UnixPath.EndsInName img →
      signaturePath img (keyId ++ ".db.sig") = img ++ ("." ++ (keyId ++ ".db.sig"))) ∧
    (∀ imageDir filen keyId, UnixPath.IsName filen →
      dbSignatureFile imageDir filen keyId =
        signaturePath (imageDir ++ "/" ++ filen) (keyId ++ ".db.sig")) ∧
    ∀ path partId verifiedBoot image tr out, partitionedImagePath path partId = some image →
      Runs (checkPartitionedImage path partId verifiedBoot).run tr out →
      (∀ e ∈ tr, ReadsTree t image e) →
      (∀ keyId, '/' ∉ keyId.toList → t.pathExists image = true →
        t.pathExists (signaturePath image (keyId ++ ".db.sig")) = true →
        out = .done (.ok (some image))) ∧
      ∀ basePath tr', Runs (verifyImageDb X image basePath).run tr' (.done (.ok true)) →
        (∀ e ∈ tr', ReadsTree t image e) → out = .done (.ok (some image)) := by
  refine ⟨fun img keyId ends => signaturePath_eq ends (by simp), ?_, ?_⟩
  · intro imageDir filen keyId isName
    rw [signaturePath_eq (UnixPath.endsInName_slash imageDir isName) (by simp)]
    change imageDir ++ "/" ++ filen ++ "." ++ keyId ++ ".db.sig" = _
    rw [String.append_assoc, String.append_assoc]
  · intro path partId verifiedBoot image tr out partitioned runs reads
    refine ⟨fun keyId noSlash there signed => ?_, fun basePath tr' verified reads' => ?_⟩
    · exact checkPartitionedImage_takes partitioned runs reads noSlash there signed
    · obtain ⟨there, keyId, noSlash, signed⟩ := verifyImageDb_reads verified reads'
      exact checkPartitionedImage_takes partitioned runs reads noSlash there signed

/-- A slot with an image that is named after a kernel release, and its signature. -/
def releaseTree : FileTree Unit where
  nodes := [(["z"], .dir), (["z", "img"], .dir), (["z", "img", "1"], .dir),
    (["z", "img", "1", "modules-6.1.0"], .file ()),
    (["z", "img", "1", "modules-6.1.0.0123456789abcdef.db.sig"], .file ())]
  inDir := by decide

/-- The answers of a system with these files. -/
def releaseFiles : (c : SysCmd) → c.Resp
  | .pathExists path => releaseTree.pathExists path
  | .readDir path => .ok ((releaseTree.listing path).map .ok)
  | c => c.fail (.io .notFound "No such file or directory (os error 2)")

theorem readsTree_releaseFiles (image : String) (c : SysCmd) :
    ReadsTree releaseTree image ⟨c, releaseFiles c⟩ := by
  cases c with
  | pathExists path => rfl
  | readDir path =>
    exact fun _ => ⟨_, rfl, fun name member => List.mem_map_of_mem member⟩
  | readFile path => exact nofun
  | measureVerity path => exact nofun
  | _ => trivial

/-- The part of the name behind the last dot of the release is not an extension to be replaced. -/
theorem signature_names_agree_release :
    signaturePath "/z/img/1/modules-6.1.0" ("0123456789abcdef" ++ ".db.sig") =
        "/z/img/1/modules-6.1.0" ++ ("." ++ ("0123456789abcdef" ++ ".db.sig")) ∧
      dbSignatureFile "/z/img/1" "modules-6.1.0" "0123456789abcdef" =
        signaturePath ("/z/img/1" ++ "/" ++ "modules-6.1.0") ("0123456789abcdef" ++ ".db.sig") ∧
      ∃ tr, Runs (checkPartitionedImage "/z/img/modules-6.1.0" 1 true).run tr
        (.done (.ok (some "/z/img/1/modules-6.1.0"))) := by
  obtain ⟨named, written, seen⟩ := signature_names_agree sampleCrates releaseTree
  have isName : UnixPath.IsName "modules-6.1.0" := by decide
  refine ⟨named _ _ (UnixPath.endsInName_slash "/z/img/1" isName), written _ _ _ isName, ?_⟩
  obtain ⟨tr, runs, always⟩ := Prog.runs_eval releaseFiles
    (checkPartitionedImage "/z/img/modules-6.1.0" 1 true).run []
  have reads : ∀ e ∈ tr, ReadsTree releaseTree "/z/img/1/modules-6.1.0" e := by
    rintro ⟨c, r⟩ member
    obtain rfl : r = releaseFiles c := (admits_const _ _).mp always _ member
    exact readsTree_releaseFiles _ c
  have partitioned : partitionedImagePath "/z/img/modules-6.1.0" 1 =
      some "/z/img/1/modules-6.1.0" := by decide
  have taken := (seen _ _ _ _ _ _ partitioned runs reads).1 "0123456789abcdef" (by decide)
    (by decide +kernel) (by decide +kernel)
  exact ⟨tr, taken ▸ runs⟩

end Initos.Agreement
