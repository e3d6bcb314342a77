import Initos.Loader.Verify

/-!
# The two walks over the signature database

The EFI loader and the initrd each walk `db` with loops of their own. Where both
accept the database they visit the same entries in the same order. Where the loader
refuses it as malformed, the initrd does so too only if the list the loader stopped
at is an X.509 list with impossible sizes: a list that merely extends past the end
of the database is not noticed by `parse_esl`.
-/

namespace Initos.Agreement

open Interact Bytes Efi Loader

/-- The header of an X.509 list whose sizes cannot be right. -/
def ImpossibleX509 (hdr : ListHeader) : Prop :=
  hdr.sigType = certX509Guid ∧ (hdr.sigSize < 16 ∨ hdr.listSize < 28 + hdr.headerSize)

instance (hdr : ListHeader) : Decidable (ImpossibleX509 hdr) :=
  inferInstanceAs (Decidable (_ ∧ _))

theorem eslWalk_past {db : List UInt8} {offset : Nat} (past : db.length < offset + 28) :
    eslWalk db offset = .ok [] := by
  rw [eslWalk, dif_neg (by omega)]

/-- How the two walks relate from any common offset. -/
def WalksRelate (db : List UInt8) (offset : Nat) : Prop :=
  match dbWalk db offset with
  | (visited, none) => ∀ slices, eslWalk db offset = .ok slices → visited = slices
  | (_, some e) => ∃ o, e.malformedAt = some o ∧
      ((∃ err, eslWalk db offset = .error err) ↔ ImpossibleX509 (headerAt db o))

/-- A list that ends behind the database is refused by the loader; the initrd reads
    what there is of it and stops. -/
theorem eslWalk_list_past_end {db : List UInt8} {offset : Nat} (inside : offset + 28 ≤ db.length)
    (past : db.length < offset + (headerAt db offset).listSize) :
    (∃ err, eslWalk db offset = .error err) ↔ ImpossibleX509 (headerAt db offset) := by
  have rest : eslWalk db (offset + (headerAt db offset).listSize) = .ok [] :=
    eslWalk_past (by omega)
  have nonempty : (headerAt db offset).listSize ≠ 0 := by omega
  rw [eslWalk, dif_pos inside]
  unfold ImpossibleX509
  by_cases x509 : (headerAt db offset).sigType = certX509Guid
  · by_cases bad : (headerAt db offset).sigSize < 16 ∨
        (headerAt db offset).listSize < 28 + (headerAt db offset).headerSize
    · simp [x509, bad]
    · simp only [x509, bad, ne_eq, not_true_eq_false, if_false, dif_neg, not_false_eq_true, rest,
        and_false, iff_false, not_exists]
      intro err eq
      cases eq
  · simp [x509, nonempty, rest]

/-- The relation holds from every offset on. -/
theorem walksRelate (db : List UInt8) (offset : Nat) : WalksRelate db offset := by
  induction count : db.length - offset using Nat.strongRecOn generalizing offset with
  | ind n ih =>
    unfold WalksRelate
    rw [dbWalk]
    by_cases inside : offset + 28 ≤ db.length
    · simp only [inside, dif_pos]
      by_cases empty : (headerAt db offset).listSize = 0
      · -- the loader stops; `parse_esl` stops too or reports the list
        simp only [empty, dif_pos]
        intro slices accepted
        rw [eslWalk, dif_pos inside] at accepted
        by_cases x509 : (headerAt db offset).sigType = certX509Guid
        · have bad : (headerAt db offset).sigSize < 16 ∨
              (headerAt db offset).listSize < 28 + (headerAt db offset).headerSize :=
            .inr (by omega)
          simp [x509, bad] at accepted
        · simpa [x509, empty] using accepted
      · simp only [empty, dif_neg, not_false_eq_true]
        have relate := ih _ (by omega) (offset + (headerAt db offset).listSize) rfl
        unfold WalksRelate at relate
        by_cases past : offset + (headerAt db offset).listSize > db.length
        · simp only [past, if_pos]
          exact ⟨offset, rfl, eslWalk_list_past_end inside past⟩
        · simp only [past, if_neg, not_false_eq_true]
          rw [eslWalk, dif_pos inside]
          by_cases x509 : (headerAt db offset).sigType = certX509Guid
          · by_cases bad : (headerAt db offset).sigSize < 16 ∨
                (headerAt db offset).listSize < 28 + (headerAt db offset).headerSize
            · simp only [x509, bad, ne_eq, not_true_eq_false, if_false, if_pos, dif_pos]
              exact ⟨offset, rfl, ⟨fun _ => ⟨x509, bad⟩, fun _ => ⟨_, rfl⟩⟩⟩
            · have stop : min (offset + (headerAt db offset).listSize) db.length =
                  offset + (headerAt db offset).listSize := by omega
              simp only [x509, bad, ne_eq, not_true_eq_false, if_false, dif_neg,
                not_false_eq_true, stop]
              -- both walks visit the entries of this list and go on
              revert relate
              rcases dbWalk db (offset + (headerAt db offset).listSize) with ⟨visited, end_⟩
              cases end_ with
              | none =>
                intro relate slices accepted
                cases tail : eslWalk db (offset + (headerAt db offset).listSize) with
                | error e => rw [tail] at accepted; cases accepted
                | ok rest =>
                  rw [tail] at accepted
                  cases accepted
                  rw [relate rest tail]
              | some e =>
                intro relate
                obtain ⟨o, malformed, rejects⟩ := relate
                refine ⟨o, malformed, ?_⟩
                rw [← rejects]
                cases eslWalk db (offset + (headerAt db offset).listSize) <;>
                  simp [Functor.map, Except.map]
          · simp only [x509, ne_eq, not_false_eq_true, if_pos, empty, dif_neg]
            exact relate
    · simp only [inside, dif_neg, not_false_eq_true]
      intro slices accepted
      rw [eslWalk_past (by omega)] at accepted
      cases accepted
      rfl

/-! ## Agreement on the entries -/

/-- A visitor that only keeps the slices it is given. -/
def record (seen : List (List UInt8)) (der : List UInt8) :
    Prog Uefi (Flow (List (List UInt8))) := return .next (seen ++ [der])

/-- The slices the loader's walk hands to its visitor when no visit returns early. -/
def loaderSlices (X : Crates) (db : List UInt8) :
    Prog Uefi (Except VerifyError (Flow (List (List UInt8)))) := walkDb X record db 0 []

theorem visitAll_record (slices seen : List (List UInt8)) :
    visitAll record slices seen = pure (.next (seen ++ slices)) := by
  induction slices generalizing seen with
  | nil => rw [List.append_nil]; rfl
  | cons der rest ih =>
    rw [visitAll, record]
    simp only [Prog.pure_bind, ih, List.append_assoc, List.singleton_append]

/-- The slices that the loader visits are those of the walk that computes them. -/
theorem loaderSlices_eq (X : Crates) {db : List UInt8} (addressable : db.length < 2 ^ 63) :
    loaderSlices X db = pure (walkResult (.next (dbWalk db 0).1) (dbWalk db 0).2) := by
  rw [loaderSlices, walkDb_eq X record addressable, visitAll_record, Prog.pure_bind,
    List.nil_append]

/-- Collecting with a parser that accepts everything keeps every slice. -/
theorem foldl_pushParsed_ok (slices seen : List (List UInt8)) :
    slices.foldl (pushParsed .ok) seen = seen ++ slices := by
  induction slices generalizing seen with
  | nil => rw [List.append_nil]; rfl
  | cons der rest ih =>
    rw [List.foldl_cons, ih]
    simp [pushParsed]

/-- A loader walk that refuses nothing is the visits of its slices. -/
theorem dbWalk_of_loaderSlices {X : Crates} {db : List UInt8} (addressable : db.length < 2 ^ 63)
    {slices : List (List UInt8)} (walked : loaderSlices X db = pure (.ok (.next slices))) :
    dbWalk db 0 = (slices, none) := by
  rw [loaderSlices_eq X addressable] at walked
  revert walked
  rcases dbWalk db 0 with ⟨visited, end_⟩
  cases end_ with
  | none =>
    intro walked
    cases walked
    rfl
  | some e =>
    intro walked
    cases walked

/-- Over a well-formed `db`, the verification is one visit of each slice. -/
theorem verifyDataSignature_eq (X : Crates) {db : List UInt8} (addressable : db.length < 2 ^ 63)
    {slices : List (List UInt8)} (walked : loaderSlices X db = pure (.ok (.next slices)))
    (data : List UInt8) (template label : String) :
    verifyDataSignature X data db template label = (do
      match ← visitAll (visitCert X data template) slices {} with
      | .accept => return .ok ()
      | .next t => return .error (t.error label)) := by
  rw [verifyDataSignature, walkDb_eq X _ addressable, dbWalk_of_loaderSlices addressable walked,
    Prog.bind_assoc]
  congr 1
  funext flow
  cases flow <;> rfl

/-- Where `parse_esl` returns, its walk has ended well. -/
theorem eslWalk_of_parses {α : Type} {parse : List UInt8 → Except Err α} {db : List UInt8}
    (addressable : db.length < 2 ^ 63) {certs : List α}
    (parses : parseEslWith parse db = some (.ok certs)) : ∃ slices, eslWalk db 0 = .ok slices := by
  rw [parseEslWith_eq parse addressable] at parses
  cases walk : eslWalk db 0 with
  | ok slices => exact ⟨slices, rfl⟩
  | error e => rw [walk] at parses; cases parses

/-- Where both walks go through, `parse_esl` parses the slices the loader visits. -/
theorem parseEsl_eq_of_loaderSlices (X : Crates) {db : List UInt8}
    (addressable : db.length < 2 ^ 63) {slices : List (List UInt8)}
    (walked : loaderSlices X db = pure (.ok (.next slices))) {certs : List EfiCert}
    (parses : parseEsl X db = some (.ok certs)) :
    certs = slices.foldl (pushParsed (parseX509Cert X)) [] := by
  obtain ⟨handed, walk⟩ := eslWalk_of_parses addressable parses
  have relate := walksRelate db 0
  unfold WalksRelate at relate
  rw [dbWalk_of_loaderSlices addressable walked] at relate
  rw [parseEsl, parseEslWith_eq _ addressable, walk, ← relate handed walk] at parses
  cases parses
  rfl

/-- Where the loader does not refuse the database and `parse_esl` accepts it, the two
    walks hand the same slices, in the same order, to their visitors: the loader's to
    any visitor, in particular to the one that decodes and verifies, and the initrd's to
    `parse_x509_cert`. -/
theorem db_walks_visit_the_same_slices (X : Crates) {db : List UInt8}
    (addressable : db.length < 2 ^ 63) (notMalformed : ∀ e, loaderSlices X db ≠ pure (.error e))
    (parses : ∃ certs, parseEsl X db = some (.ok certs)) (data : List UInt8)
    (template label : String) :
    ∃ slices, loaderSlices X db = pure (.ok (.next slices)) ∧
      parseEslWith .ok db = some (.ok slices) ∧
      verifyDataSignature X data db template label = (do
        match ← visitAll (visitCert X data template) slices {} with
        | .accept => return .ok ()
        | .next t => return .error (t.error label)) ∧
      parseEsl X db = some (.ok (slices.foldl (pushParsed (parseX509Cert X)) [])) := by
  obtain ⟨certs, parses⟩ := parses
  obtain ⟨slices, walk⟩ := eslWalk_of_parses addressable parses
  have walked : loaderSlices X db = pure (.ok (.next slices)) := by
    have relate := walksRelate db 0
    unfold WalksRelate at relate
    revert relate notMalformed
    rw [loaderSlices_eq X addressable]
    rcases dbWalk db 0 with ⟨visited, end_⟩
    cases end_ with
    | none =>
      intro _ relate
      rw [relate slices walk]
      rfl
    | some e =>
      intro notMalformed
      exact absurd rfl (notMalformed e)
  refine ⟨slices, walked, ?_, verifyDataSignature_eq X addressable walked data template label, ?_⟩
  · rw [parseEslWith_eq _ addressable, walk]
    simp only [Except.map, foldl_pushParsed_ok, List.nil_append]
  · rw [parseEsl, parseEslWith_eq _ addressable, walk]
    rfl

theorem loaderSlices_of_dbWalk {X : Crates} {db : List UInt8} (addressable : db.length < 2 ^ 63)
    {slices : List (List UInt8)} (walk : dbWalk db 0 = (slices, none)) :
    loaderSlices X db = pure (.ok (.next slices)) := by
  rw [loaderSlices_eq X addressable, walk]
  rfl

theorem loaderSlices_sampleDb :
    loaderSlices sampleCrates (sampleDb 45 1) = pure (.ok (.next [[1]])) :=
  loaderSlices_of_dbWalk (by decide) (by decide +kernel)

theorem db_walks_visit_the_same_slices_sample :
    ∃ slices, loaderSlices sampleCrates (sampleDb 45 1) = pure (.ok (.next slices)) ∧
      parseEslWith .ok (sampleDb 45 1) = some (.ok slices) := by
  have notMalformed : ∀ e, loaderSlices sampleCrates (sampleDb 45 1) ≠ pure (.error e) := by
    intro e
    rw [loaderSlices_sampleDb]
    intro eq
    cases eq
  have parses : ∃ certs, parseEsl sampleCrates (sampleDb 45 1) = some (.ok certs) :=
    ⟨[⟨"0100000000000000", "\x01", "\x01"⟩], by decide +kernel⟩
  obtain ⟨slices, seen, handed, -⟩ := db_walks_visit_the_same_slices sampleCrates (by decide)
    notMalformed parses [] "" ""
  exact ⟨slices, seen, handed⟩

/-! ## A database the loader refuses -/

/-- A malformed database is refused for the list that ends the loader's walk. -/
theorem dbWalk_of_malformed {X : Crates} {db data : List UInt8} {template label : String}
    {tr : History Uefi} {e : VerifyError} {offset : Nat} (addressable : db.length < 2 ^ 63)
    (run : Runs (verifyDataSignature X data db template label) tr (.done (.error e)))
    (malformed : e.malformedAt = some offset) : (dbWalk db 0).2 = some e := by
  rw [verifyDataSignature, walkDb_eq X _ addressable, runs_bind] at run
  rcases run with ⟨walked, tr₁, tr₂, -, walk, finish⟩ | ⟨_, stop, -⟩
  · rw [runs_bind] at walk
    rcases walk with ⟨flow, _, _, -, -, result⟩ | ⟨_, stop, -⟩
    · cases result
      revert finish
      cases flow with
      | accept =>
        intro finish
        cases finish
      | next t =>
        cases (dbWalk db 0).2 with
        | some e' =>
          intro finish
          cases finish
          rfl
        | none =>
          intro finish
          -- the errors of a complete walk are not about the database
          have shape : ∀ t : Tally, (t.error label).malformedAt = none := by
            intro t
            unfold Tally.error
            split
            · rfl
            · split
              · rfl
              · split <;> rfl
          cases finish
          rw [shape] at malformed
          cases malformed
    · cases stop
  · cases stop

/-- For a database the loader refuses as malformed, `parse_esl` fails exactly if the list
    the loader stopped at is an X.509 list with impossible sizes. -/
theorem parseEsl_fails_on_malformed_db_iff (X : Crates) {db data : List UInt8}
    {template label : String} {tr : History Uefi} {e : VerifyError} {offset : Nat}
    (addressable : db.length < 2 ^ 63)
    (run : Runs (verifyDataSignature X data db template label) tr (.done (.error e)))
    (malformed : e.malformedAt = some offset) :
    (∃ err, parseEsl X db = some (.error err)) ↔ ImpossibleX509 (headerAt db offset) := by
  have stopped := dbWalk_of_malformed addressable run malformed
  have relate := walksRelate db 0
  unfold WalksRelate at relate
  have rejects : (∃ err, eslWalk db 0 = .error err) ↔ ImpossibleX509 (headerAt db offset) := by
    revert relate stopped
    rcases dbWalk db 0 with ⟨visited, end_⟩
    intro stopped relate
    subst stopped
    obtain ⟨o, at_o, rejects⟩ := relate
    rw [malformed] at at_o
    cases at_o
    exact rejects
  rw [← rejects, parseEsl, parseEslWith_eq _ addressable]
  cases eslWalk db 0 <;> simp [Except.map]

/-- A list that is longer than `db` is refused as malformed. -/
theorem verifyDataSignature_truncated :
    Runs (verifyDataSignature sampleCrates [] (sampleDb 46 1) "" "")
      [] (.done (.error (.listPastEnd 0 45))) := by
  have walk : dbWalk (sampleDb 46 1) 0 = ([], some (.listPastEnd 0 45)) := by decide +kernel
  rw [verifyDataSignature, walkDb_eq _ _ (by decide), walk]
  exact .done _

/-- So is an X.509 list whose entries are too small for an owner. -/
theorem verifyDataSignature_impossible :
    Runs (verifyDataSignature sampleCrates [] (sampleDb 20 1) "" "")
      [] (.done (.error (.invalidList 0 0 17))) := by
  have walk : dbWalk (sampleDb 20 1) 0 = ([], some (.invalidList 0 0 17)) := by decide +kernel
  rw [verifyDataSignature, walkDb_eq _ _ (by decide), walk]
  exact .done _

theorem parseEsl_fails_on_malformed_db_iff_sample :
    ∃ err, parseEsl sampleCrates (sampleDb 20 1) = some (.error err) :=
  (parseEsl_fails_on_malformed_db_iff sampleCrates (by decide) verifyDataSignature_impossible
    rfl).mpr (by decide)

/-- A database cut off by one byte: the loader refuses it, the initrd takes the
    certificate of its only list. -/
theorem parseEsl_accepts_truncated_db :
    Runs (verifyDataSignature sampleCrates [] (sampleDb 46 1) "" "")
        [] (.done (.error (.listPastEnd 0 45))) ∧
      parseEsl sampleCrates (sampleDb 46 1) =
        some (.ok [⟨"0100000000000000", "\x01", "\x01"⟩]) :=
  ⟨verifyDataSignature_truncated, by decide +kernel⟩

/-! ## Both walks are total -/

/-- Entries take at least 16 bytes each, so there are few of them. -/
theorem length_entries_le (data : List UInt8) {sigSize : Nat} (large : 16 ≤ sigSize)
    (start stop : Nat) : 16 * (entries data sigSize start stop).length ≤ stop - start := by
  rw [entries, List.length_map, List.length_range]
  calc 16 * ((stop - start) / sigSize) ≤ sigSize * ((stop - start) / sigSize) :=
        Nat.mul_le_mul_right _ large
    _ ≤ stop - start := Nat.mul_div_le _ _

/-- The slices that `parse_esl` visits are disjoint and have 16 bytes in front of each. -/
theorem length_eslWalk_le {data : List UInt8} {offset : Nat} {slices : List (List UInt8)}
    (walk : eslWalk data offset = .ok slices) : 16 * slices.length ≤ data.length - offset := by
  induction count : data.length - offset using Nat.strongRecOn generalizing offset slices with
  | ind n ih =>
    rw [eslWalk] at walk
    by_cases inside : offset + 28 ≤ data.length
    · simp only [inside, dif_pos] at walk
      by_cases other : (headerAt data offset).sigType ≠ certX509Guid
      · simp only [other, if_pos, ne_eq, not_false_eq_true] at walk
        by_cases empty : (headerAt data offset).listSize = 0
        · simp only [empty, dif_pos, Except.ok.injEq] at walk
          subst walk
          simp
        · simp only [empty, dif_neg, not_false_eq_true] at walk
          have rest := ih _ (by omega) walk rfl
          omega
      · simp only [other, if_neg, not_false_eq_true] at walk
        by_cases bad : (headerAt data offset).sigSize < 16 ∨
            (headerAt data offset).listSize < 28 + (headerAt data offset).headerSize
        · simp only [bad, dif_pos] at walk
          cases walk
        · simp only [bad, dif_neg, not_false_eq_true] at walk
          cases later : eslWalk data (offset + (headerAt data offset).listSize) with
          | error e =>
            rw [later] at walk
            cases walk
          | ok rest =>
            rw [later] at walk
            cases walk
            have restLength := ih _ (by omega) later rfl
            have here := length_entries_le data
              (show 16 ≤ (headerAt data offset).sigSize by omega)
              (offset + 28 + (headerAt data offset).headerSize)
              (min (offset + (headerAt data offset).listSize) data.length)
            rw [List.length_append]
            omega
    · simp only [inside, dif_neg, not_false_eq_true, Except.ok.injEq] at walk
      subst walk
      simp

/-- A `db` has no more than a sixteenth of its length in certificates. -/
theorem length_dbWalk_le (db : List UInt8) (offset : Nat) :
    16 * (dbWalk db offset).1.length ≤ db.length - offset := by
  induction count : db.length - offset using Nat.strongRecOn generalizing offset with
  | ind n ih =>
    rw [dbWalk]
    split
    · dsimp only
      split
      · simp
      · split
        · simp
        · split
          · have rest := ih _ (by omega) (offset + (headerAt db offset).listSize) rfl
            omega
          · split
            · simp
            · have rest := ih _ (by omega) (offset + (headerAt db offset).listSize) rfl
              have here := length_entries_le db
                (show 16 ≤ (headerAt db offset).sigSize by omega)
                (offset + 28 + (headerAt db offset).headerSize)
                (offset + (headerAt db offset).listSize)
              rw [List.length_append]
              omega
    · simp

/-- A sequence of visits stops for good only where one of them does. -/
theorem visitAll_halted {σ : Type} {visit : σ → List UInt8 → Prog Uefi (Flow σ)}
    {slices : List (List UInt8)} {s : σ} {tr : History Uefi} {e : Uefi.Halt}
    (run : Runs (visitAll visit slices s) tr (.halted e)) :
    ∃ s' tr', ∃ der ∈ slices, Runs (visit s' der) tr' (.halted e) := by
  induction slices generalizing s tr with
  | nil => cases run
  | cons der rest ih =>
    rw [visitAll, runs_bind] at run
    rcases run with ⟨flow, _, tr₂, -, -, later⟩ | ⟨_, ⟨⟩, here⟩
    · cases flow with
      | accept => cases later
      | next s' =>
        obtain ⟨s'', tr', der', member, stops⟩ := ih later
        exact ⟨s'', tr', der', List.mem_cons_of_mem _ member, stops⟩
    · exact ⟨s, tr, der, List.mem_cons_self, here⟩

/-- On any bytes that fit into memory both walks end and no bounds or overflow check of
    theirs fails: `parse_esl` returns, the loader's walk stops for good only inside a visit,
    and both visit at most one entry for 16 bytes of the database. -/
theorem db_walks_total (X : Crates) {db : List UInt8} (addressable : db.length < 2 ^ 63) :
    (∃ result, parseEsl X db = some result ∧
      ∀ certs, result = .ok certs → 16 * certs.length ≤ db.length) ∧
    ∀ (σ : Type) (visit : σ → List UInt8 → Prog Uefi (Flow σ)) (s : σ),
      ∃ visited : List (List UInt8), 16 * visited.length ≤ db.length ∧
        ∀ tr e, Runs (walkDb X visit db 0 s) tr (.halted e) →
          ∃ s' tr', ∃ der ∈ visited, Runs (visit s' der) tr' (.halted e) := by
  constructor
  · refine ⟨_, parseEslWith_eq (parseX509Cert X) addressable, ?_⟩
    intro certs parsed
    cases walk : eslWalk db 0 with
    | error e =>
      rw [walk] at parsed
      cases parsed
    | ok slices =>
      have bound := length_eslWalk_le walk
      rw [walk] at parsed
      cases parsed
      have kept := length_foldl_pushParsed_le (parseX509Cert X) slices []
      simp only [List.length_nil, Nat.add_zero] at kept
      dsimp only
      omega
  · intro σ visit s
    refine ⟨(dbWalk db 0).1, by simpa using length_dbWalk_le db 0, ?_⟩
    intro tr e run
    rw [walkDb_eq X visit addressable, runs_bind] at run
    rcases run with ⟨flow, _, _, -, -, finish⟩ | ⟨_, ⟨⟩, stops⟩
    · cases finish
    · exact visitAll_halted stops

theorem db_walks_total_truncated :
    ∃ result, parseEsl sampleCrates (sampleDb 46 1) = some result := by
  obtain ⟨result, parsed, -⟩ :=
    (db_walks_total sampleCrates (show (sampleDb 46 1).length < 2 ^ 63 by decide)).1
  exact ⟨result, parsed⟩

end Initos.Agreement
