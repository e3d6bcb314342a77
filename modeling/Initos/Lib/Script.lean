import Mathlib.Logic.Relation

/-!
# Scripts

A shell script under `set -e`, as the list of its lines. A command may take effect in parts,
and may fail at any moment; then only the commands of the EXIT trap run. A process that is
killed simply makes no further step, so what may be found after a kill is what may be found
at some moment of a run. `Safe` proves a property of every moment, line by line.
-/

namespace Script

variable {Cmd Test σ : Type}

/-- A line of a script that runs under `set -e`. -/
inductive Line (Cmd Test : Type) where
  | run (c : Cmd)
  /-- Set the commands of the EXIT trap. -/
  | trap (cs : List Cmd)
  | cond (t : Test) (yes no : List (Line Cmd Test))

/-- What the commands do to the world and the tests see of it. -/
structure Effects (Cmd Test σ : Type) where
  /-- The command is under way and has done some more. -/
  part : Cmd → σ → σ → Prop
  /-- The command has succeeded. -/
  whole : Cmd → σ → σ → Prop
  test : Test → σ → Prop

/-- A running script: the lines before it, and its EXIT trap. -/
structure Proc (Cmd Test : Type) where
  todo : List (Line Cmd Test)
  trap : List Cmd
  /-- The first command that failed. -/
  failed : Option Cmd

/-- A process at its start. -/
def start (script : List (Line Cmd Test)) : Proc Cmd Test := ⟨script, [], none⟩

/-- One step. A command that fails ends the script: what is left is the trap. -/
inductive Step (E : Effects Cmd Test σ) : Proc Cmd Test × σ → Proc Cmd Test × σ → Prop where
  | part {c rest trap failed w w'} : E.part c w w' →
      Step E (⟨.run c :: rest, trap, failed⟩, w) (⟨.run c :: rest, trap, failed⟩, w')
  | whole {c rest trap failed w w'} : E.whole c w w' →
      Step E (⟨.run c :: rest, trap, failed⟩, w) (⟨rest, trap, failed⟩, w')
  | setTrap {cs rest trap failed w} :
      Step E (⟨.trap cs :: rest, trap, failed⟩, w) (⟨rest, cs, failed⟩, w)
  | yes {t yes no rest trap failed w} : E.test t w →
      Step E (⟨.cond t yes no :: rest, trap, failed⟩, w) (⟨yes ++ rest, trap, failed⟩, w)
  | no {t yes no rest trap failed w} : ¬E.test t w →
      Step E (⟨.cond t yes no :: rest, trap, failed⟩, w) (⟨no ++ rest, trap, failed⟩, w)
  | fail {c rest trap failed w} : Step E (⟨.run c :: rest, trap, failed⟩, w)
      (⟨trap.map .run, [], failed.or (some c)⟩, w)
  | exit {trap failed w} : trap ≠ [] →
      Step E (⟨[], trap, failed⟩, w) (⟨trap.map .run, [], failed⟩, w)

/-- What a process may come to. -/
def Reaches (E : Effects Cmd Test σ) : Proc Cmd Test × σ → Proc Cmd Test × σ → Prop :=
  Relation.ReflTransGen (Step E)

/-- What a command may have done before it succeeds or fails. -/
def Parts (E : Effects Cmd Test σ) (c : Cmd) : σ → σ → Prop := Relation.ReflTransGen (E.part c)

/-- A property that every part of a command keeps. -/
theorem Parts.keeps {E : Effects Cmd Test σ} {c : Cmd} {w w' : σ} {P : σ → Prop}
    (keeps : ∀ w w', P w → E.part c w w' → P w') (parts : Parts E c w w') (holds : P w) :
    P w' := by
  induction parts with
  | refl => exact holds
  | tail _ step ih => exact keeps _ _ ih step

/-- From here on `I` holds at every moment, with the command that has failed. -/
inductive Safe (E : Effects Cmd Test σ) (I : Option Cmd → σ → Prop) : Proc Cmd Test → σ → Prop where
  | exit {trap failed w} : I failed w → (trap ≠ [] → Safe E I ⟨trap.map .run, [], failed⟩ w) →
      Safe E I ⟨[], trap, failed⟩ w
  | run {c rest trap failed w} : (∀ w', Parts E c w w' → I failed w') →
      (∀ w', Parts E c w w' → Safe E I ⟨trap.map .run, [], failed.or (some c)⟩ w') →
      (∀ w' w'', Parts E c w w' → E.whole c w' w'' → Safe E I ⟨rest, trap, failed⟩ w'') →
      Safe E I ⟨.run c :: rest, trap, failed⟩ w
  | setTrap {cs rest trap failed w} : I failed w → Safe E I ⟨rest, cs, failed⟩ w →
      Safe E I ⟨.trap cs :: rest, trap, failed⟩ w
  | cond {t yes no rest trap failed w} : I failed w →
      (E.test t w → Safe E I ⟨yes ++ rest, trap, failed⟩ w) →
      (¬E.test t w → Safe E I ⟨no ++ rest, trap, failed⟩ w) →
      Safe E I ⟨.cond t yes no :: rest, trap, failed⟩ w

section

variable {E : Effects Cmd Test σ} {I : Option Cmd → σ → Prop} {p p' : Proc Cmd Test} {w w' : σ}

theorem Safe.now (safe : Safe E I p w) : I p.failed w := by
  cases safe with
  | exit now => exact now
  | run now => exact now w .refl
  | setTrap now => exact now
  | cond now => exact now

theorem Safe.step (safe : Safe E I p w) (step : Step E (p, w) (p', w')) : Safe E I p' w' := by
  cases step with
  | part part =>
    cases safe with
    | run now fails done =>
      exact .run (fun x parts => now x (.head part parts))
        (fun x parts => fails x (.head part parts))
        (fun x y parts => done x y (.head part parts))
  | whole whole =>
    cases safe with
    | run _ _ done => exact done _ _ .refl whole
  | setTrap =>
    cases safe with
    | setTrap _ next => exact next
  | yes holds =>
    cases safe with
    | cond _ yes _ => exact yes holds
  | no fails =>
    cases safe with
    | cond _ _ no => exact no fails
  | fail =>
    cases safe with
    | run _ fails _ => exact fails _ .refl
  | exit trapped =>
    cases safe with
    | exit _ next => exact next trapped

/-- Every moment of a run. -/
theorem Safe.reaches (safe : Safe E I p w) (reaches : Reaches E (p, w) (p', w')) :
    I p'.failed w' := by
  suffices always : ∀ s, Reaches E (p, w) s → Safe E I s.1 s.2 from (always _ reaches).now
  intro s reaches
  induction reaches with
  | refl => exact safe
  | tail _ step ih => exact ih.step step

/-- The commands of a trap keep what is known after a failure. -/
def TrapKeeps (E : Effects Cmd Test σ) (I : Option Cmd → σ → Prop) (cs : List Cmd) : Prop :=
  ∀ c ∈ cs, ∀ failed w w', I (some failed) w → (E.part c w w' ∨ E.whole c w w') →
    I (some failed) w'

theorem TrapKeeps.safe {cs : List Cmd} {failed : Cmd} (keeps : TrapKeeps E I cs)
    (now : I (some failed) w) : Safe E I ⟨cs.map .run, [], some failed⟩ w := by
  induction cs generalizing w with
  | nil => exact .exit now fun trapped => absurd rfl trapped
  | cons c cs ih =>
    have parts : ∀ w', Parts E c w w' → I (some failed) w' := fun w' parts =>
      parts.keeps (fun x y holds part => keeps c List.mem_cons_self failed x y holds (.inl part))
        now
    refine .run parts (fun w' done => ?_) (fun w' w'' done whole => ?_)
    · exact .exit (parts w' done) fun trapped => absurd rfl trapped
    · refine ih (fun c' member => keeps c' (List.mem_cons_of_mem _ member)) ?_
      exact keeps c List.mem_cons_self failed w' w'' (parts w' done) (.inr whole)

section

variable {c : Cmd} {rest : List (Line Cmd Test)} {trap : List Cmd}

/-- A command that may stop half-way, where `P` holds at every moment of it. -/
theorem Safe.run_parts (P : σ → Prop) (keeps : TrapKeeps E I trap) (holds : P w)
    (stable : ∀ x y, P x → E.part c x y → P y) (now : ∀ x, P x → I none x)
    (fails : ∀ x, P x → I (some c) x)
    (next : ∀ x y, P x → E.whole c x y → Safe E I ⟨rest, trap, none⟩ y) :
    Safe E I ⟨.run c :: rest, trap, none⟩ w := by
  have parts : ∀ w', Parts E c w w' → P w' := fun w' parts => parts.keeps stable holds
  exact .run (fun x done => now x (parts x done))
    (fun x done => keeps.safe (fails x (parts x done)))
    (fun x y done => next x y (parts x done))

/-- A command whose effect comes at once. -/
theorem Safe.run_atomic (keeps : TrapKeeps E I trap) (atomic : ∀ x y, ¬E.part c x y)
    (now : I none w) (fails : I (some c) w)
    (next : ∀ y, E.whole c w y → Safe E I ⟨rest, trap, none⟩ y) :
    Safe E I ⟨.run c :: rest, trap, none⟩ w := by
  refine .run_parts (· = w) keeps rfl (fun x y _ part => absurd part (atomic x y)) ?_ ?_ ?_
  · rintro x rfl
    exact now
  · rintro x rfl
    exact fails
  · rintro x y rfl
    exact next y

end

end

end Script
