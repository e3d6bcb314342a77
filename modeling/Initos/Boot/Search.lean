import Initos.Boot.DataDevice

/-!
# The order of preference of `find_data_device`

A device with the label on the boot disk comes first, as long as the deadline has not passed;
then a device with the label anywhere; then the first partition of the boot disk. When devices
appear and how the clock goes on is up to the environment: `Prefers` says what may be returned
after which looks at the disks.
-/

namespace Initos.Boot

open Interact Mount

/-! ## The looks at the disks -/

/-- A look at the boot disk, and the time at which it is begun. -/
structure Scan (disk label : String) where
  time : Nat
  events : History Sys
  found : Except Err (Option String)
  ran : Runs (findPartitionOnDiskByLabel disk label).run events (.done found)

/-- What a look that has not failed has found. -/
def Scan.device {disk label : String} (s : Scan disk label) : Option String :=
  s.found.toOption.join

/-- A look that finds nothing is followed by a pause. -/
def Scan.missHistory {disk label : String} (s : Scan disk label) : History Sys :=
  ⟨.now, s.time⟩ :: (s.events ++ [⟨.sleep 500, ()⟩])

/-- A search of all disks. -/
structure Search (label : String) where
  events : History Sys
  found : Except Err String
  ran : Runs (findPartitionByLabel label).run events (.done found)

/-- A search that fails long before the deadline, with the readings of the clock around the
    pause that follows. -/
structure FailedSearch (label : String) extends Search label where
  failed : found.isOk = false
  before : Nat
  after : Nat

/-- What such a search and the pause behind it ask of the system. -/
def FailedSearch.history {label : String} (s : FailedSearch label) : History Sys :=
  s.events ++ [⟨.now, s.before⟩, ⟨.sleep 1000, ()⟩, ⟨.now, s.after⟩]

/-- The deadline has passed after a failed search, or after the pause that follows it. -/
inductive Over (deadline : Nat) : History Sys → Prop
  | late {t : Nat} (passed : deadline ≤ t) : Over deadline [⟨.now, t⟩]
  | slept {t t' : Nat} (early : t < deadline) (passed : deadline ≤ t') :
    Over deadline [⟨.now, t⟩, ⟨.sleep 1000, ()⟩, ⟨.now, t'⟩]

/-- The boot disk, if there is one, is looked at until the deadline, and each look misses. -/
inductive BootDiskMissed (label : String) (deadline : Nat) : Option String → History Sys → Prop
  | noDisk : BootDiskMissed label deadline none []
  | missed {disk : String} (scans : List (Scan disk label)) {t : Nat}
    (early : ∀ s ∈ scans, s.time < deadline) (misses : ∀ s ∈ scans, s.device = none)
    (passed : deadline ≤ t) :
    BootDiskMissed label deadline (some disk) (scans.flatMap Scan.missHistory ++ [⟨.now, t⟩])

/-- The last resort after a search that has failed with `e`. -/
inductive Fallback (e : Err) : Option String → History Sys → Except Err String → Prop
  | noDisk : Fallback e none [] (.error e)
  | missed {disk : String} {tr : History Sys} {found : Except Err (Option String)}
    (ran : Runs (findPartitionByNumber disk 1).run tr (.done found))
    (misses : found.toOption.join = none) : Fallback e (some disk) tr (.error e)
  | ext4 {disk part : String} {tr tr' : History Sys}
    (ran : Runs (findPartitionByNumber disk 1).run tr (.done (.ok (some part))))
    (isExt4 : Runs (Mount.isExt4 part).run tr' (.done (.ok true))) :
    Fallback e (some disk) (tr ++ tr') (.ok part)
  | notExt4 {disk part : String} {tr tr' : History Sys}
    (ran : Runs (findPartitionByNumber disk 1).run tr (.done (.ok (some part))))
    (notExt4 : Runs (Mount.isExt4 part).run tr' (.done (.ok false))) :
    Fallback e (some disk) (tr ++ tr') (.error e)
  | unreadable {disk part : String} {tr tr' : History Sys} {e' : Err}
    (ran : Runs (findPartitionByNumber disk 1).run tr (.done (.ok (some part))))
    (failed : Runs (Mount.isExt4 part).run tr' (.done (.error e'))) :
    Fallback e (some disk) (tr ++ tr') (.error e')

/-- What all disks are searched for, and what comes after it. -/
inductive Searches (label : String) (bootDisk : Option String) (deadline : Nat) :
    History Sys → Except Err String → Prop
  /-- The first search that finds something. -/
  | hit (failed : List (FailedSearch label)) (last : Search label) {dev : String}
    (early : ∀ s ∈ failed, s.before < deadline ∧ s.after < deadline)
    (hits : last.found = .ok dev) :
    Searches label bootDisk deadline (failed.flatMap FailedSearch.history ++ last.events) (.ok dev)
  /-- The last search fails, too. -/
  | fallback (failed : List (FailedSearch label)) (last : Search label) {e : Err}
    {pause tr : History Sys} {result : Except Err String}
    (early : ∀ s ∈ failed, s.before < deadline ∧ s.after < deadline)
    (fails : last.found = .error e) (late : Over deadline pause)
    (resort : Fallback e bootDisk tr result) :
    Searches label bootDisk deadline
      (failed.flatMap FailedSearch.history ++ (last.events ++ (pause ++ tr))) result

/-- What `find_data_device` does and returns. -/
inductive Prefers (label : String) : Option String → History Sys → Except Err String → Prop
  /-- The first hit on the boot disk before the deadline. -/
  | onBootDisk {disk dev : String} {start : Nat} (missed : List (Scan disk label))
    (hit : Scan disk label) (early : ∀ s ∈ missed ++ [hit], s.time < start + 20000)
    (misses : ∀ s ∈ missed, s.device = none) (hits : hit.device = some dev) :
    Prefers label (some disk)
      (⟨.now, start⟩ :: (missed.flatMap Scan.missHistory ++ ⟨.now, hit.time⟩ :: hit.events))
      (.ok dev)
  /-- Every look at the boot disk misses, and all disks are searched. -/
  | anywhere {bootDisk : Option String} {start : Nat} {tr tr' : History Sys}
    {result : Except Err String} (missed : BootDiskMissed label (start + 20000) bootDisk tr)
    (searches : Searches label bootDisk (start + 20000) tr' result) :
    Prefers label bootDisk (⟨.now, start⟩ :: (tr ++ tr')) result

/-! ## What is returned -/

section

variable {label disk : String} {bootDisk : Option String} {deadline fuel : Nat} {tr : History Sys}

/-- One round of the loop over the boot disk. -/
theorem scanBootDisk_round {out : Outcome Sys (Except Err (Option String))}
    (runs : Runs (scanBootDisk disk label deadline (fuel + 1)).run tr out) :
    ∃ (t : Nat) (rest : History Sys), tr = ⟨.now, t⟩ :: rest ∧
      (deadline ≤ t ∧ rest = [] ∧ out = .done (.ok none) ∨
      t < deadline ∧
        ((∃ stop, out = .halted stop ∧
          Runs (findPartitionOnDiskByLabel disk label).run rest (.halted stop)) ∨
        (∃ s : Scan disk label, s.time = t ∧
          ((∃ dev, s.device = some dev ∧ rest = s.events ∧ out = .done (.ok (some dev))) ∨
          (s.device = none ∧ ∃ rest', rest = s.events ++ ⟨.sleep 500, ()⟩ :: rest' ∧
            Runs (scanBootDisk disk label deadline fuel).run rest' out))))) := by
  rw [scanBootDisk, Fallible.runs_ask_bind] at runs
  obtain ⟨t, rest, rfl, runs⟩ := runs
  refine ⟨t, rest, rfl, ?_⟩
  by_cases passed : deadline ≤ t
  · rw [if_pos passed] at runs
    obtain ⟨rfl, rfl⟩ := Fallible.runs_pure_iff.mp runs
    exact .inl ⟨passed, rfl, rfl⟩
  · rw [if_neg passed, Fallible.runs_attempt_bind] at runs
    refine .inr ⟨Nat.lt_of_not_le passed, ?_⟩
    obtain ⟨found, events, rest', rfl, ran, runs⟩ | halted := runs
    · refine .inr ⟨⟨t, events, found, ran⟩, rfl, ?_⟩
      match found, ran, runs with
      | .ok (some dev), ran, runs =>
        obtain ⟨rfl, rfl⟩ := Fallible.runs_pure_iff.mp runs
        exact .inl ⟨dev, rfl, List.append_nil _, rfl⟩
      | .ok none, ran, runs =>
        obtain ⟨⟨⟩, rest, rfl, again⟩ := Fallible.runs_ask_bind.mp runs
        exact .inr ⟨rfl, rest, rfl, again⟩
      | .error e, ran, runs =>
        obtain ⟨⟨⟩, rest, rfl, again⟩ := Fallible.runs_ask_bind.mp runs
        exact .inr ⟨rfl, rest, rfl, again⟩
    · exact .inl halted

/-- The loop over the boot disk ends with the first hit, or after the deadline. -/
theorem scanBootDisk_result {r : Except Err (Option String)}
    (runs : Runs (scanBootDisk disk label deadline fuel).run tr (.done r)) :
    (∃ dev, ∃ missed : List (Scan disk label), ∃ hit : Scan disk label, r = .ok (some dev) ∧
      (∀ s ∈ missed ++ [hit], s.time < deadline) ∧ (∀ s ∈ missed, s.device = none) ∧
      hit.device = some dev ∧
      tr = missed.flatMap Scan.missHistory ++ ⟨.now, hit.time⟩ :: hit.events) ∨
    r = .ok none ∧ BootDiskMissed label deadline (some disk) tr := by
  induction fuel generalizing tr with
  | zero => cases runs
  | succ fuel ih =>
    obtain ⟨t, rest, rfl, ⟨passed, rfl, ended⟩ | ⟨early, looked⟩⟩ := scanBootDisk_round runs
    · cases ended
      exact .inr ⟨rfl, .missed [] nofun nofun passed⟩
    · obtain ⟨stop, ⟨⟩, -⟩ |
        ⟨s, rfl, ⟨dev, hits, rfl, ended⟩ | ⟨misses, rest', rfl, again⟩⟩ := looked
      · cases ended
        exact .inl ⟨dev, [], s, rfl, by simpa using early, nofun, hits, rfl⟩
      · obtain ⟨dev, missed, hit, rfl, earlier, others, hits, rfl⟩ | ⟨rfl, missed⟩ := ih again
        · refine .inl ⟨dev, s :: missed, hit, rfl, ?_, ?_, hits, ?_⟩
          · exact List.forall_mem_cons.mpr ⟨early, earlier⟩
          · exact List.forall_mem_cons.mpr ⟨misses, others⟩
          · simp [Scan.missHistory]
        · cases missed with
          | @missed _ scans t' earlier others passed =>
            refine .inr ⟨rfl, ?_⟩
            have same : (⟨.now, s.time⟩ : Event Sys) ::
                (s.events ++ ⟨.sleep 500, ()⟩ :: (scans.flatMap Scan.missHistory ++
                  [⟨.now, t'⟩])) =
                (s :: scans).flatMap Scan.missHistory ++ [⟨.now, t'⟩] := by
              simp [Scan.missHistory]
            rw [same]
            exact .missed (s :: scans) (List.forall_mem_cons.mpr ⟨early, earlier⟩)
              (List.forall_mem_cons.mpr ⟨misses, others⟩) passed

/-- The two copies of the last resort do the same. -/
theorem fallbackPartitionLate_eq (bootDisk : Option String) (e : Err) :
    fallbackPartitionLate bootDisk e = fallbackPartition bootDisk e := by
  cases bootDisk with
  | none => rfl
  | some disk =>
    rw [fallbackPartitionLate, fallbackPartition]
    congr 1
    funext found
    match found with
    | .ok (some part) => rfl
    | .ok none => rfl
    | .error e' => rfl

/-- What the fallback returns. -/
theorem fallbackPartition_result {e : Err} {result : Except Err String}
    (runs : Runs (fallbackPartition bootDisk e).run tr (.done result)) :
    Fallback e bootDisk tr result := by
  cases bootDisk with
  | none =>
    cases runs
    exact .noDisk
  | some disk =>
    rw [fallbackPartition, Fallible.runs_attempt_bind] at runs
    obtain ⟨found, tr₁, tr₂, rfl, ran, runs⟩ | ⟨stop, ⟨⟩, -⟩ := runs
    match found, ran, runs with
    | .ok none, ran, runs =>
      cases runs
      rw [List.append_nil]
      exact .missed ran rfl
    | .error e', ran, runs =>
      cases runs
      rw [List.append_nil]
      exact .missed ran rfl
    | .ok (some part), ran, runs =>
      obtain ⟨isExt4, tr₁', tr₂', rfl, looked, runs⟩ | ⟨e', ended, failed⟩ | ⟨stop, ⟨⟩, -⟩ :=
        runs_fallible_bind.mp runs
      · cases isExt4 with
        | true =>
          cases runs
          rw [List.append_nil]
          exact .ext4 ran looked
        | false =>
          cases runs
          rw [List.append_nil]
          exact .notExt4 ran looked
      · cases ended
        exact .unreadable ran failed

/-- One round of the loop over all disks. -/
theorem waitForLabel_round {out : Outcome Sys (Except Err String)}
    (runs : Runs (waitForLabel label bootDisk deadline (fuel + 1)).run tr out) :
    (∃ stop, out = .halted stop ∧ Runs (findPartitionByLabel label).run tr (.halted stop)) ∨
    ∃ s : Search label, ∃ rest, tr = s.events ++ rest ∧
      ((∃ dev, s.found = .ok dev ∧ rest = [] ∧ out = .done (.ok dev)) ∨
      (∃ e, s.found = .error e ∧
        ((∃ pause rest', rest = pause ++ rest' ∧ Over deadline pause ∧
          Runs (fallbackPartition bootDisk e).run rest' out) ∨
        (∃ (t t' : Nat) (rest' : History Sys),
          rest = ⟨.now, t⟩ :: ⟨.sleep 1000, ()⟩ :: ⟨.now, t'⟩ :: rest' ∧
          t < deadline ∧ t' < deadline ∧
          Runs (waitForLabel label bootDisk deadline fuel).run rest' out)))) := by
  rw [waitForLabel, Fallible.runs_attempt_bind] at runs
  obtain ⟨found, events, rest, rfl, ran, runs⟩ | halted := runs
  · refine .inr ⟨⟨events, found, ran⟩, rest, rfl, ?_⟩
    cases found with
    | ok dev =>
      obtain ⟨rfl, rfl⟩ := Fallible.runs_pure_iff.mp runs
      exact .inl ⟨dev, rfl, rfl, rfl⟩
    | error e =>
      refine .inr ⟨e, rfl, ?_⟩
      obtain ⟨t, rest, rfl, read⟩ := Fallible.runs_ask_bind.mp runs
      by_cases early : t < deadline
      · rw [if_pos early] at read
        obtain ⟨⟨⟩, rest, rfl, slept⟩ := Fallible.runs_ask_bind.mp read
        obtain ⟨t', rest, rfl, next⟩ := Fallible.runs_ask_bind.mp slept
        by_cases passed : deadline ≤ t'
        · rw [if_pos passed] at next
          exact .inl ⟨_, rest, rfl, .slept early passed, next⟩
        · rw [if_neg passed] at next
          exact .inr ⟨t, t', rest, rfl, early, Nat.lt_of_not_le passed, next⟩
      · rw [if_neg early, fallbackPartitionLate_eq] at read
        exact .inl ⟨_, rest, rfl, .late (Nat.le_of_not_lt early), read⟩
  · exact .inl halted

/-- What the loop returns, by the history of its searches. -/
theorem waitForLabel_result {result : Except Err String}
    (runs : Runs (waitForLabel label bootDisk deadline fuel).run tr (.done result)) :
    Searches label bootDisk deadline tr result := by
  induction fuel generalizing tr with
  | zero => cases runs
  | succ fuel ih =>
    obtain ⟨stop, ⟨⟩, -⟩ | ⟨s, rest, rfl, ⟨dev, hits, rfl, ended⟩ | ⟨e, fails, waited⟩⟩ :=
      waitForLabel_round runs
    · cases ended
      rw [List.append_nil]
      exact .hit [] s nofun hits
    · obtain ⟨pause, rest', rfl, late, resort⟩ | ⟨t, t', rest', rfl, early, early', again⟩ := waited
      · exact .fallback [] s nofun fails late (fallbackPartition_result resort)
      · -- the search is the first of the failed ones of what follows
        let first : FailedSearch label := ⟨s, by rw [fails]; rfl, t, t'⟩
        have earlier {failed : List (FailedSearch label)}
            (others : ∀ s ∈ failed, s.before < deadline ∧ s.after < deadline) :
            ∀ s ∈ first :: failed, s.before < deadline ∧ s.after < deadline :=
          List.forall_mem_cons.mpr ⟨⟨early, early'⟩, others⟩
        have history (failed : List (FailedSearch label)) (rest : History Sys) :
            s.events ++ ⟨.now, t⟩ :: ⟨.sleep 1000, ()⟩ :: ⟨.now, t'⟩ ::
              (failed.flatMap FailedSearch.history ++ rest) =
            (first :: failed).flatMap FailedSearch.history ++ rest := by
          simp [FailedSearch.history, first]
        cases ih again with
        | hit failed last others hits =>
          rw [history]
          exact .hit (first :: failed) last (earlier others) hits
        | fallback failed last others fails late resort =>
          rw [history]
          exact .fallback (first :: failed) last (earlier others) fails late resort

/-- The order of preference, for every run that returns. -/
theorem findDataDevice_result {result : Except Err String}
    (runs : Runs (findDataDevice fuel label bootDisk).run tr (.done result)) :
    Prefers label bootDisk tr result := by
  obtain ⟨start, rest, rfl, began⟩ := Fallible.runs_ask_bind.mp runs
  cases bootDisk with
  | none =>
    have missed : BootDiskMissed label (start + 20000) none [] := .noDisk
    exact .anywhere missed (waitForLabel_result began)
  | some disk =>
    obtain ⟨found, tr₁, tr₂, rfl, scanned, next⟩ | ⟨e, -, failed⟩ | ⟨stop, ⟨⟩, -⟩ :=
      runs_fallible_bind.mp began
    · obtain ⟨dev, missed, hit, same, early, misses, hits, rfl⟩ | ⟨same, missed⟩ :=
        scanBootDisk_result scanned
      · cases same
        cases next
        rw [List.append_nil]
        exact .onBootDisk missed hit early misses hits
      · cases same
        exact .anywhere missed (waitForLabel_result next)
    · obtain ⟨dev, missed, hit, ⟨⟩, -⟩ | ⟨⟨⟩, -⟩ := scanBootDisk_result failed

end

/-! ## That it returns -/

/-- The clock does not go back, and it goes on while the program sleeps: the readings of a
    history, from the last reading before it on. -/
def Ticks : (last : Nat) → (slept : Bool) → History Sys → Prop
  | _, _, [] => True
  | last, slept, ⟨.now, t⟩ :: tr => last + slept.toNat ≤ t ∧ Ticks t false tr
  | last, _, ⟨.sleep _, _⟩ :: tr => Ticks last true tr
  | last, slept, _ :: tr => Ticks last slept tr

/-- `read_exact` fills its buffer. -/
def FillsBuffer (e : Event Sys) : Prop :=
  match e with
  | ⟨.readAt _ _ len, r⟩ => ∀ bytes, r = Except.ok bytes → bytes.length = len
  | _ => True

/-- The calls that do not read the clock. -/
@[simp] def Timeless : SysCmd → Prop
  | .now => False
  | _ => True

/-- A clock that has to go on does not go back. -/
theorem Ticks.weaken {last : Nat} {tr : History Sys} (ticks : Ticks last true tr) :
    Ticks last false tr := by
  induction tr with
  | nil => trivial
  | cons e tr ih =>
    obtain ⟨c, r⟩ := e
    cases c with
    | now => exact ⟨Nat.le_trans (Nat.le_add_right _ _) ticks.1, ticks.2⟩
    | sleep ms => exact ticks
    | _ => exact ih ticks

/-- Without a reading, a part of a history says nothing about the clock. -/
theorem Ticks.drop {last : Nat} {slept : Bool} {tr rest : History Sys}
    (timeless : ∀ e ∈ tr, Timeless e.cmd) (ticks : Ticks last slept (tr ++ rest)) :
    Ticks last slept rest := by
  induction tr generalizing slept with
  | nil => exact ticks
  | cons e tr ih =>
    obtain ⟨c, r⟩ := e
    obtain ⟨first, others⟩ := List.forall_mem_cons.mp timeless
    cases c with
    | now => exact first.elim
    | sleep ms =>
      have goesOn : Ticks last true rest := ih others ticks
      cases slept with
      | true => exact goesOn
      | false => exact goesOn.weaken
    | _ => exact ih others ticks

/-! The searches return, and do not read the clock. -/

theorem finishes_ask {c : SysCmd} (timeless : Timeless c) :
    (Fallible.ask (I := Sys) c : Io (Sys.Resp c)).run.Finishes Timeless FillsBuffer :=
  (Fallible.finishes_ask _).mpr timeless

theorem readExt4Label_finishes (device : String) :
    (readExt4Label device).run.Finishes Timeless FillsBuffer := by
  refine ⟨trivial, fun r fills => ?_⟩
  cases r with
  | error e => trivial
  | ok superblock =>
    have length : superblock.length = 136 := fills superblock rfl
    obtain ⟨label, checked⟩ := ext4Label_checked length
    change (ofChecked (ext4Label superblock)).run.Finishes Timeless FillsBuffer
    rw [checked]
    exact trivial

theorem partitionEntries_finishes (diskSys : String) (names : List String) :
    (partitionEntries diskSys names).run.Finishes Timeless FillsBuffer := by
  induction names with
  | nil => exact trivial
  | cons name rest ih =>
    unfold partitionEntries
    refine Fallible.finishes_bind (finishes_ask trivial) fun isPartition => ?_
    exact Fallible.finishes_bind ih fun others => trivial

theorem listDiskPartitions_finishes (diskPath : String) :
    (listDiskPartitions diskPath).run.Finishes Timeless FillsBuffer := by
  unfold listDiskPartitions
  cases UnixPath.fileName diskPath with
  | none => exact trivial
  | some diskName =>
    refine Fallible.finishes_bind (Fallible.finishes_attempt (by simp)) fun entries => ?_
    cases entries with
    | ok entries => exact Fallible.finishes_bind (partitionEntries_finishes _ _) fun _ => trivial
    | error e => exact trivial

theorem partitionHasLabel_finishes (diskPath label part : String) :
    (partitionHasLabel diskPath label part).run.Finishes Timeless FillsBuffer := by
  unfold partitionHasLabel
  refine Fallible.finishes_bind (Fallible.finishes_attempt (readExt4Label_finishes _)) fun _ => ?_
  repeat' first
    | with_reducible refine Fallible.finishes_bind ?_ fun _ => ?_
    | with_reducible refine Fallible.finishes_attempt ?_
    | split | exact trivial | exact finishes_ask trivial | simp

theorem firstWithLabel_finishes (diskPath label : String) (parts : List String) :
    (firstWithLabel diskPath label parts).run.Finishes Timeless FillsBuffer := by
  induction parts with
  | nil => exact trivial
  | cons part rest ih =>
    unfold firstWithLabel
    refine Fallible.finishes_bind (partitionHasLabel_finishes _ _ _) fun found => ?_
    cases found with
    | true => exact trivial
    | false => exact ih

theorem findPartitionOnDiskByLabel_finishes (diskPath label : String) :
    (findPartitionOnDiskByLabel diskPath label).run.Finishes Timeless FillsBuffer :=
  Fallible.finishes_bind (listDiskPartitions_finishes _) fun _ => firstWithLabel_finishes _ _ _

theorem firstWithNumber_finishes (diskPath : String) (number : Nat) (parts : List String) :
    (firstWithNumber diskPath number parts).run.Finishes Timeless FillsBuffer := by
  induction parts with
  | nil => exact trivial
  | cons part rest ih =>
    unfold firstWithNumber
    refine Fallible.finishes_bind (Fallible.finishes_attempt (by simp)) fun contents => ?_
    split
    · split
      · exact trivial
      · exact ih
    · exact ih

theorem fallbackPartition_finishes (bootDisk : Option String) (e : Err) :
    (fallbackPartition bootDisk e).run.Finishes Timeless FillsBuffer := by
  cases bootDisk with
  | none => exact trivial
  | some disk =>
    have found : (findPartitionByNumber disk 1).run.Finishes Timeless FillsBuffer :=
      Fallible.finishes_bind (listDiskPartitions_finishes _) fun _ => firstWithNumber_finishes _ _ _
    refine Fallible.finishes_bind (Fallible.finishes_attempt found) fun part => ?_
    split
    · refine Fallible.finishes_bind ?_ fun isExt4 => ?_
      · exact Fallible.finishes_bind (by simp) fun _ => trivial
      · cases isExt4 <;> exact trivial
    · exact trivial

theorem firstSysfsLabel_finishes (label : String) (names : List String) :
    (firstSysfsLabel label names).run.Finishes Timeless FillsBuffer := by
  induction names with
  | nil => exact trivial
  | cons name rest ih =>
    unfold firstSysfsLabel
    refine Fallible.finishes_bind (Fallible.finishes_attempt (readExt4Label_finishes _)) fun _ => ?_
    split
    · exact trivial
    · refine Fallible.finishes_bind (Fallible.finishes_attempt (by simp)) fun uevent => ?_
      split
      · split
        · exact trivial
        · exact ih
      · exact ih

theorem labelAttempt_finishes (label : String) :
    (labelAttempt label).run.Finishes Timeless FillsBuffer := by
  unfold labelAttempt deviceByFilesystemLabel scanSysfsForLabel
  repeat' first
    | with_reducible refine Fallible.finishes_bind ?_ fun _ => ?_
    | with_reducible refine Fallible.finishes_attempt ?_
    | split | exact trivial | exact firstSysfsLabel_finishes _ _ | exact finishes_ask trivial

theorem labelAttempts_finishes (label : String) (left : Nat) :
    (labelAttempts label left).run.Finishes Timeless FillsBuffer := by
  induction left with
  | zero => exact trivial
  | succ left ih =>
    unfold labelAttempts
    refine Fallible.finishes_bind (labelAttempt_finishes _) fun found => ?_
    cases found with
    | some dev => exact trivial
    | none =>
      dsimp only
      split
      · exact Fallible.finishes_bind (finishes_ask trivial) fun _ => ih
      · exact ih

theorem findPartitionByLabel_finishes (label : String) :
    (findPartitionByLabel label).run.Finishes Timeless FillsBuffer := by
  unfold findPartitionByLabel
  split
  · exact trivial
  · exact labelAttempts_finishes _ _

section

variable {label disk : String} {bootDisk : Option String} {deadline fuel : Nat}
  {tr : History Sys} {last : Nat} {slept : Bool}

/-- Each round of the loop over the boot disk takes a part of the time that is left. -/
theorem scanBootDisk_returns {out : Outcome Sys (Except Err (Option String))}
    (runs : Runs (scanBootDisk disk label deadline fuel).run tr out)
    (fills : ∀ e ∈ tr, FillsBuffer e) (enough : fuel ≠ 0)
    (near : deadline < last + slept.toNat + fuel) {rest : History Sys}
    (ticks : Ticks last slept (tr ++ rest)) :
    ∃ r, out = .done r ∧ (r = .ok none → ∃ t, deadline ≤ t ∧ Ticks t false rest) := by
  induction fuel generalizing tr last slept with
  | zero => exact absurd rfl enough
  | succ fuel ih =>
    obtain ⟨t, tr', rfl, ⟨passed, rfl, rfl⟩ | ⟨early, looked⟩⟩ := scanBootDisk_round runs
    · exact ⟨_, rfl, fun _ => ⟨t, passed, ticks.2⟩⟩
    · obtain ⟨least, goesOn⟩ := ticks
      obtain ⟨-, fillsNext⟩ := List.forall_mem_cons.mp fills
      have finishes := findPartitionOnDiskByLabel_finishes disk label
      obtain ⟨stop, rfl, halted⟩ | ⟨s, rfl, ⟨dev, -, -, rfl⟩ | ⟨-, tr'', rfl, again⟩⟩ := looked
      · obtain ⟨⟨a, ⟨⟩⟩, -⟩ := finishes.runs halted fillsNext
      · exact ⟨_, rfl, nofun⟩
      · obtain ⟨fillsScan, fillsRest⟩ := List.forall_mem_append.mp fillsNext
        obtain ⟨-, fillsRest⟩ := List.forall_mem_cons.mp fillsRest
        obtain ⟨-, timeless⟩ := finishes.runs s.ran fillsScan
        have goesOn : Ticks s.time false (s.events ++ (⟨.sleep 500, ()⟩ :: tr'' ++ rest)) := by
          rwa [← List.append_assoc]
        have pause : Ticks s.time false (⟨.sleep 500, ()⟩ :: tr'' ++ rest) := goesOn.drop timeless
        have left : deadline < s.time + 1 + fuel := by omega
        exact ih again fillsRest (by omega) left pause

/-- With a clock that goes on, the loop returns before its rounds are used up. -/
theorem waitForLabel_returns {out : Outcome Sys (Except Err String)}
    (runs : Runs (waitForLabel label bootDisk deadline fuel).run tr out)
    (fills : ∀ e ∈ tr, FillsBuffer e) (enough : fuel ≠ 0)
    (near : deadline < last + slept.toNat + fuel) (ticks : Ticks last slept tr) :
    ∃ result, out = .done result := by
  induction fuel generalizing tr last slept with
  | zero => exact absurd rfl enough
  | succ fuel ih =>
    have finishes := findPartitionByLabel_finishes label
    obtain ⟨stop, rfl, halted⟩ | ⟨s, rest, rfl, ⟨dev, -, rfl, rfl⟩ | ⟨e, -, waited⟩⟩ :=
      waitForLabel_round runs
    · exact (finishes.runs halted fills).1
    · exact ⟨_, rfl⟩
    · obtain ⟨fillsSearch, fillsRest⟩ := List.forall_mem_append.mp fills
      obtain ⟨-, timeless⟩ := finishes.runs s.ran fillsSearch
      obtain ⟨pause, rest', rfl, -, resort⟩ | ⟨t, t', rest', rfl, early, early', again⟩ := waited
      · obtain ⟨-, fillsResort⟩ := List.forall_mem_append.mp fillsRest
        exact ((fallbackPartition_finishes bootDisk e).runs resort fillsResort).1
      · obtain ⟨least, after, goesOn⟩ := ticks.drop timeless
        rw [Bool.toNat_true] at after
        have left : deadline < t' + fuel := by omega
        exact ih again (fun e member => fillsRest e (by simp [member])) (by omega) left goesOn

/-- `find_data_device` returns what its order of preference says, whenever devices appear and
    however the clock goes; and it returns at all if the clock goes on while it sleeps. -/
theorem findDataDevice_prefers {out : Outcome Sys (Except Err String)}
    (runs : Runs (findDataDevice fuel label bootDisk).run tr out) :
    (∀ result, out = .done result → Prefers label bootDisk tr result) ∧
    (20000 < fuel → (∀ e ∈ tr, FillsBuffer e) → Ticks 0 false tr →
      ∃ result, out = .done result) := by
  refine ⟨fun result returned => findDataDevice_result (returned ▸ runs), ?_⟩
  intro enough fills ticks
  obtain ⟨(start : Nat), rest, rfl, began⟩ := Fallible.runs_ask_bind.mp runs
  obtain ⟨-, goesOn⟩ := ticks
  obtain ⟨-, fillsRest⟩ := List.forall_mem_cons.mp fills
  have near {t : Nat} (later : start ≤ t) : start + 20000 < t + false.toNat + fuel := by
    rw [Bool.toNat_false]
    omega
  cases bootDisk with
  | none => exact waitForLabel_returns began fillsRest (by omega) (near (Nat.le_refl _)) goesOn
  | some disk =>
    obtain ⟨found, tr₁, tr₂, rfl, scanned, next⟩ | ⟨e, rfl, -⟩ | ⟨stop, rfl, halted⟩ :=
      runs_fallible_bind.mp began
    · obtain ⟨fillsScans, fillsRest⟩ := List.forall_mem_append.mp fillsRest
      obtain ⟨r, returned, passed⟩ :=
        scanBootDisk_returns scanned fillsScans (by omega) (near (Nat.le_refl _)) goesOn
      cases returned
      cases found with
      | some dev =>
        cases next
        exact ⟨_, rfl⟩
      | none =>
        obtain ⟨t, later, goesOn⟩ := passed rfl
        exact waitForLabel_returns next fillsRest (by omega) (near (by omega)) goesOn
    · exact ⟨_, rfl⟩
    · rw [← List.append_nil rest] at goesOn
      obtain ⟨r, ⟨⟩, -⟩ :=
        scanBootDisk_returns halted fillsRest (by omega) (near (Nat.le_refl _)) goesOn

end

/-- The superblock of an ext4 file system with the label `DATA`. -/
def dataSuperblock : List UInt8 :=
  List.replicate 56 0 ++ [0x53, 0xef] ++ List.replicate 62 0 ++ [68, 65, 84, 65] ++
    List.replicate 12 0

/-- A disk whose partition appears during the first pause. -/
def lateDisk (h : History Sys) : (c : SysCmd) → c.Resp
  | .now => 1000 * h.countP fun e => e.cmd = .sleep 500
  | .readDir "/sys/block/sda" =>
    if h.any fun e => e.cmd = .sleep 500 then .ok [.ok "sda1"]
    else .error (.io .notFound "No such file or directory (os error 2)")
  | .pathExists "/sys/block/sda/sda1/partition" => true
  | .readAt "/dev/sda1" 1024 136 => .ok dataSuperblock
  | c => c.fail (.io .notFound "No such file or directory (os error 2)")

/-- The second look at the boot disk finds the partition. -/
theorem findDataDevice_prefers_late : ∃ tr,
    Runs (findDataDevice 20001 "DATA" (some "/dev/sda")).run tr (.done (.ok "/dev/sda1")) ∧
    (∀ e ∈ tr, FillsBuffer e) ∧ Ticks 0 false tr ∧
    Prefers "DATA" (some "/dev/sda") tr (.ok "/dev/sda1") := by
  have executed : (findDataDevice 20001 "DATA" (some "/dev/sda")).run.exec lateDisk [] =
      ([⟨.now, (0 : Nat)⟩, ⟨.now, (0 : Nat)⟩,
        ⟨.readDir "/sys/block/sda",
          .error (.io .notFound "No such file or directory (os error 2)")⟩,
        ⟨.sleep 500, ()⟩, ⟨.now, (1000 : Nat)⟩,
        ⟨.readDir "/sys/block/sda", .ok [.ok "sda1"]⟩,
        ⟨.pathExists "/sys/block/sda/sda1/partition", true⟩,
        ⟨.readAt "/dev/sda1" 1024 136, .ok dataSuperblock⟩], .done (.ok "/dev/sda1")) := by
    decide +kernel
  have runs := Prog.runs_exec lateDisk (findDataDevice 20001 "DATA" (some "/dev/sda")).run []
  rw [executed] at runs
  refine ⟨_, runs, ?_, by simp [Ticks], (findDataDevice_prefers runs).1 _ rfl⟩
  have length : dataSuperblock.length = 136 := by simp [dataSuperblock]
  simp [FillsBuffer, length]

end Initos.Boot
