import Mathlib.Logic.Function.Basic
import Initos.Lib.Script

/-!
# Scripts that run side by side

A pool of script processes over one world: processes are started, make steps in any order, and
are killed at any moment. A process is `Guarded` when each of its steps keeps its promise `G`,
whatever the steps of the others, within `R`, have done in between. If each promise is within
what the others put up with, everything that the promises maintain holds in every run.
-/

namespace Script

variable {Cmd Test σ : Type}

/-- What may happen while a command is under way: parts of it, and steps of others. -/
def During (E : Effects Cmd Test σ) (R : σ → σ → Prop) (c : Cmd) : σ → σ → Prop :=
  Relation.ReflTransGen fun w w' => R w w' ∨ E.part c w w'

/-- A process that, as long as the others only do `R`, only does `G` from here on. -/
inductive Guarded (E : Effects Cmd Test σ) (R G : σ → σ → Prop) : Proc Cmd Test → σ → Prop where
  | exit {trap failed w} :
      (trap ≠ [] → ∀ x, Relation.ReflTransGen R w x → Guarded E R G ⟨trap.map .run, [], failed⟩ x) →
      Guarded E R G ⟨[], trap, failed⟩ w
  | run {c rest trap failed w} :
      (∀ x y, During E R c w x → E.part c x y → G x y) →
      (∀ x, During E R c w x → Guarded E R G ⟨trap.map .run, [], failed.or (some c)⟩ x) →
      (∀ x y, During E R c w x → E.whole c x y → G x y) →
      (∀ x y, During E R c w x → E.whole c x y → Guarded E R G ⟨rest, trap, failed⟩ y) →
      Guarded E R G ⟨.run c :: rest, trap, failed⟩ w
  | setTrap {cs rest trap failed w} :
      (∀ x, Relation.ReflTransGen R w x → Guarded E R G ⟨rest, cs, failed⟩ x) →
      Guarded E R G ⟨.trap cs :: rest, trap, failed⟩ w
  | cond {t yes no rest trap failed w} :
      (∀ x, Relation.ReflTransGen R w x → E.test t x →
        Guarded E R G ⟨yes ++ rest, trap, failed⟩ x) →
      (∀ x, Relation.ReflTransGen R w x → ¬E.test t x →
        Guarded E R G ⟨no ++ rest, trap, failed⟩ x) →
      Guarded E R G ⟨.cond t yes no :: rest, trap, failed⟩ w

section Steps

variable {E : Effects Cmd Test σ} {R G : σ → σ → Prop} {p p' : Proc Cmd Test} {w w' : σ}

/-- A step of another process. -/
theorem Guarded.env (guarded : Guarded E R G p w) (step : R w w') : Guarded E R G p w' := by
  cases guarded with
  | exit next => exact .exit fun trapped x steps => next trapped x (.head step steps)
  | run parts fails done next =>
    exact .run (fun x y steps => parts x y (.head (.inl step) steps))
      (fun x steps => fails x (.head (.inl step) steps))
      (fun x y steps => done x y (.head (.inl step) steps))
      (fun x y steps => next x y (.head (.inl step) steps))
  | setTrap next => exact .setTrap fun x steps => next x (.head step steps)
  | cond yes no =>
    exact .cond (fun x steps => yes x (.head step steps)) (fun x steps => no x (.head step steps))

/-- A step of the process itself. -/
theorem Guarded.step (guarded : Guarded E R G p w) (step : Step E (p, w) (p', w')) :
    (w' = w ∨ G w w') ∧ Guarded E R G p' w' := by
  cases step with
  | part part =>
    cases guarded with
    | run parts fails done next =>
      refine ⟨.inr (parts _ _ .refl part), ?_⟩
      exact .run (fun x y steps => parts x y (.head (.inr part) steps))
        (fun x steps => fails x (.head (.inr part) steps))
        (fun x y steps => done x y (.head (.inr part) steps))
        (fun x y steps => next x y (.head (.inr part) steps))
  | whole whole =>
    cases guarded with
    | run _ _ done next => exact ⟨.inr (done _ _ .refl whole), next _ _ .refl whole⟩
  | setTrap =>
    cases guarded with
    | setTrap next => exact ⟨.inl rfl, next _ .refl⟩
  | yes holds =>
    cases guarded with
    | cond yes _ => exact ⟨.inl rfl, yes _ .refl holds⟩
  | no fails =>
    cases guarded with
    | cond _ no => exact ⟨.inl rfl, no _ .refl fails⟩
  | fail =>
    cases guarded with
    | run _ fails _ _ => exact ⟨.inl rfl, fails _ .refl⟩
  | exit trapped =>
    cases guarded with
    | exit next => exact ⟨.inl rfl, next trapped _ .refl⟩

end Steps

section Rules

variable {E : Effects Cmd Test σ} {R G : σ → σ → Prop} {c : Cmd} {rest : List (Line Cmd Test)}
  {trap : List Cmd} {failed : Option Cmd} {w : σ}

theorem stable_star {P : σ → Prop} (env : ∀ x y, P x → R x y → P y) (holds : P w) {x : σ}
    (steps : Relation.ReflTransGen R w x) : P x := by
  induction steps with
  | refl => exact holds
  | tail _ step ih => exact env _ _ ih step

/-- A command where `P` holds while it is under way. -/
theorem Guarded.run_stable (P : σ → Prop) (holds : P w) (env : ∀ x y, P x → R x y → P y)
    (parts : ∀ x y, P x → E.part c x y → P y ∧ G x y)
    (fails : ∀ x, P x → ∀ failed, Guarded E R G ⟨trap.map .run, [], failed⟩ x)
    (next : ∀ x y, P x → E.whole c x y → G x y ∧ Guarded E R G ⟨rest, trap, failed⟩ y) :
    Guarded E R G ⟨.run c :: rest, trap, failed⟩ w := by
  have during : ∀ x, During E R c w x → P x := by
    intro x steps
    refine stable_star (fun x y holds step => ?_) holds steps
    rcases step with other | own
    · exact env x y holds other
    · exact (parts x y holds own).1
  refine .run (fun x y steps part => ?_) (fun x steps => fails x (during x steps) _)
    (fun x y steps whole => ?_) (fun x y steps whole => ?_)
  · exact (parts x y (during x steps) part).2
  · exact (next x y (during x steps) whole).1
  · exact (next x y (during x steps) whole).2

theorem Guarded.cond_stable {t : Test} {yes no : List (Line Cmd Test)} (P : σ → Prop) (holds : P w)
    (env : ∀ x y, P x → R x y → P y)
    (onYes : ∀ x, P x → E.test t x → Guarded E R G ⟨yes ++ rest, trap, failed⟩ x)
    (onNo : ∀ x, P x → ¬E.test t x → Guarded E R G ⟨no ++ rest, trap, failed⟩ x) :
    Guarded E R G ⟨.cond t yes no :: rest, trap, failed⟩ w :=
  .cond (fun x steps => onYes x (stable_star env holds steps))
    (fun x steps => onNo x (stable_star env holds steps))

/-- The commands of a trap, where `P` holds throughout. -/
theorem Guarded.of_trap (P : σ → Prop) (env : ∀ x y, P x → R x y → P y) {cs : List Cmd}
    (keeps : ∀ c ∈ cs, ∀ x y, P x → (E.part c x y ∨ E.whole c x y) → P y ∧ G x y) (holds : P w)
    (failed : Option Cmd) : Guarded E R G ⟨cs.map .run, [], failed⟩ w := by
  induction cs generalizing w with
  | nil => exact .exit fun trapped => absurd rfl trapped
  | cons c cs ih =>
    have keeps' : ∀ c' ∈ cs, ∀ x y, P x → (E.part c' x y ∨ E.whole c' x y) → P y ∧ G x y :=
      fun c' member => keeps c' (List.mem_cons_of_mem _ member)
    refine .run_stable P holds env ?_ ?_ ?_
    · exact fun x y holds part => keeps c List.mem_cons_self x y holds (.inl part)
    · exact fun x _ failed => .exit fun trapped => absurd rfl trapped
    · intro x y holds whole
      obtain ⟨after, promise⟩ := keeps c List.mem_cons_self x y holds (.inr whole)
      exact ⟨promise, ih keeps' after⟩

theorem Guarded.setTrap_stable {cs : List Cmd} (P : σ → Prop) (holds : P w)
    (env : ∀ x y, P x → R x y → P y)
    (next : ∀ x, P x → Guarded E R G ⟨rest, cs, failed⟩ x) :
    Guarded E R G ⟨.trap cs :: rest, trap, failed⟩ w :=
  .setTrap fun x steps => next x (stable_star env holds steps)

end Rules

section Blocks

variable {E : Effects Cmd Test σ} {R G : σ → σ → Prop} {trap : List Cmd} {P Q S : σ → Prop}
  {lines more yes no : List (Line Cmd Test)}

/-- A process may be stopped where `P` holds: the others keep it, and the trap can do its work. -/
structure Rests (E : Effects Cmd Test σ) (R G : σ → σ → Prop) (trap : List Cmd) (P : σ → Prop) :
    Prop where
  env : ∀ x y, P x → R x y → P y
  fails : ∀ x, P x → ∀ failed, Guarded E R G ⟨trap.map .run, [], failed⟩ x

/-- Lines of a script that lead from `P` to `Q`, with the steps of others in between. -/
def Block (E : Effects Cmd Test σ) (R G : σ → σ → Prop) (trap : List Cmd) (P : σ → Prop)
    (lines : List (Line Cmd Test)) (Q : σ → Prop) : Prop :=
  ∀ rest failed w, P w → (∀ x, Q x → Guarded E R G ⟨rest, trap, failed⟩ x) →
    Guarded E R G ⟨lines ++ rest, trap, failed⟩ w

theorem Block.nil (impl : ∀ x, P x → Q x) : Block E R G trap P [] Q :=
  fun _ _ w holds next => next w (impl w holds)

theorem Block.run {c : Cmd} (rests : Rests E R G trap P)
    (part : ∀ x y, P x → E.part c x y → P y ∧ G x y)
    (whole : ∀ x y, P x → E.whole c x y → Q y ∧ G x y) : Block E R G trap P [.run c] Q := by
  intro rest failed w holds next
  refine .run_stable P holds rests.env part rests.fails fun x y before done => ?_
  obtain ⟨after, promise⟩ := whole x y before done
  exact ⟨promise, next y after⟩

/-- Both branches lead to `Q`, from what the test has shown. -/
theorem Block.cond {t : Test} {P₁ P₂ : σ → Prop} (rests : Rests E R G trap P)
    (shown : ∀ x, P x → E.test t x → P₁ x) (denied : ∀ x, P x → ¬E.test t x → P₂ x)
    (onYes : Block E R G trap P₁ yes Q) (onNo : Block E R G trap P₂ no Q) :
    Block E R G trap P [.cond t yes no] Q := by
  intro rest failed w holds next
  refine .cond_stable P holds rests.env (fun x before test => ?_) (fun x before test => ?_)
  · exact onYes rest failed x (shown x before test) next
  · exact onNo rest failed x (denied x before test) next

theorem Block.append (first : Block E R G trap P lines Q) (second : Block E R G trap Q more S) :
    Block E R G trap P (lines ++ more) S := by
  intro rest failed w holds next
  rw [List.append_assoc]
  exact first _ failed w holds fun x after => second rest failed x after next

theorem Block.cons {line : Line Cmd Test} (first : Block E R G trap P [line] Q)
    (second : Block E R G trap Q lines S) : Block E R G trap P (line :: lines) S :=
  first.append second

end Blocks

/-- Processes over one world. -/
structure Pool (Cmd Test σ : Type) where
  procs : Nat → Option (Proc Cmd Test)
  world : σ

/-- `Starts n script`: process `n` may be started with the script. -/
inductive PoolStep (E : Effects Cmd Test σ) (Starts : Nat → List (Line Cmd Test) → Prop) :
    Pool Cmd Test σ → Pool Cmd Test σ → Prop where
  | start {s n script} : s.procs n = none → Starts n script →
      PoolStep E Starts s ⟨Function.update s.procs n (some (start script)), s.world⟩
  | act {s n p p' w'} : s.procs n = some p → Step E (p, s.world) (p', w') →
      PoolStep E Starts s ⟨Function.update s.procs n (some p'), w'⟩
  | kill {s n} : PoolStep E Starts s ⟨Function.update s.procs n none, s.world⟩

/-- What a pool may come to. -/
def PoolReaches (E : Effects Cmd Test σ) (Starts : Nat → List (Line Cmd Test) → Prop) :
    Pool Cmd Test σ → Pool Cmd Test σ → Prop :=
  Relation.ReflTransGen (PoolStep E Starts)

/-- No process has been started. -/
def Pool.quiet (w : σ) : Pool Cmd Test σ := ⟨fun _ => none, w⟩

section Pools

variable {E : Effects Cmd Test σ} {Starts : Nat → List (Line Cmd Test) → Prop}
  {R G : Nat → σ → σ → Prop} {I : σ → Prop} {s s' : Pool Cmd Test σ}

/-- The invariant holds and every process keeps its promise. -/
def Sheltered (E : Effects Cmd Test σ) (R G : Nat → σ → σ → Prop) (I : σ → Prop)
    (s : Pool Cmd Test σ) : Prop :=
  I s.world ∧ ∀ n p, s.procs n = some p → Guarded E (R n) (G n) p s.world

theorem Sheltered.quiet {w : σ} (holds : I w) : Sheltered E R G I (Pool.quiet w) :=
  ⟨holds, fun _ _ found => absurd found nofun⟩

theorem eq_or_of_update {procs : Nat → Option (Proc Cmd Test)} {m n : Nat}
    {o : Option (Proc Cmd Test)} {p : Proc Cmd Test}
    (found : Function.update procs n o m = some p) :
    m = n ∧ o = some p ∨ m ≠ n ∧ procs m = some p := by
  by_cases same : m = n
  · subst same
    rw [Function.update_self] at found
    exact .inl ⟨rfl, found⟩
  · rw [Function.update_of_ne same] at found
    exact .inr ⟨same, found⟩

theorem Sheltered.step (within : ∀ m n w w', m ≠ n → G m w w' → R n w w')
    (keeps : ∀ n w w', G n w w' → I w')
    (guarded : ∀ n script w, Starts n script → I w → Guarded E (R n) (G n) (start script) w)
    (sheltered : Sheltered E R G I s) (step : PoolStep E Starts s s') :
    Sheltered E R G I s' ∧ (s'.world = s.world ∨ ∃ n, G n s.world s'.world) := by
  obtain ⟨holds, procs⟩ := sheltered
  cases step with
  | @start n script _ starts =>
    refine ⟨⟨holds, fun m p found => ?_⟩, .inl rfl⟩
    rcases eq_or_of_update found with ⟨rfl, same⟩ | ⟨_, found⟩
    · obtain rfl := Option.some_inj.mp same
      exact guarded m script _ starts holds
    · exact procs m p found
  | @act n p p' w' found step =>
    obtain ⟨promise, after⟩ := (procs n p found).step step
    refine ⟨⟨?_, fun m q found' => ?_⟩, promise.imp id fun promise => ⟨n, promise⟩⟩
    · rcases promise with rfl | promise
      · exact holds
      · exact keeps n _ _ promise
    · rcases eq_or_of_update found' with ⟨rfl, same⟩ | ⟨other, running⟩
      · obtain rfl := Option.some_inj.mp same
        exact after
      · rcases promise with rfl | promise
        · exact procs m q running
        · exact (procs m q running).env (within n m _ _ other.symm promise)
  | @kill n =>
    refine ⟨⟨holds, fun m p found => ?_⟩, .inl rfl⟩
    rcases eq_or_of_update found with ⟨_, none⟩ | ⟨_, found⟩
    · exact absurd none nofun
    · exact procs m p found

/-- In every run the invariant holds, and the world has changed by promised steps only. -/
theorem Sheltered.reaches (within : ∀ m n w w', m ≠ n → G m w w' → R n w w')
    (keeps : ∀ n w w', G n w w' → I w')
    (guarded : ∀ n script w, Starts n script → I w → Guarded E (R n) (G n) (start script) w)
    (sheltered : Sheltered E R G I s) (reaches : PoolReaches E Starts s s') :
    Sheltered E R G I s' ∧ Relation.ReflTransGen (fun w w' => ∃ n, G n w w') s.world s'.world := by
  induction reaches with
  | refl => exact ⟨sheltered, .refl⟩
  | tail _ step ih =>
    obtain ⟨after, change⟩ := ih.1.step within keeps guarded step
    refine ⟨after, ?_⟩
    rcases change with same | promised
    · rw [same]
      exact ih.2
    · exact ih.2.tail promised

/-- A run of one process, while the others wait. -/
theorem PoolReaches.run {n : Nat} {script : List (Line Cmd Test)} {p : Proc Cmd Test} {w : σ}
    (free : s.procs n = none) (starts : Starts n script)
    (reaches : Reaches E (start script, s.world) (p, w)) :
    PoolReaches E Starts s ⟨Function.update s.procs n (some p), w⟩ := by
  suffices always : ∀ t, Reaches E (start script, s.world) t →
      PoolReaches E Starts s ⟨Function.update s.procs n (some t.1), t.2⟩ from always _ reaches
  intro t reaches
  induction reaches with
  | refl => exact .single (.start free starts)
  | @tail t t' _ step ih =>
    have next : PoolStep E Starts ⟨Function.update s.procs n (some t.1), t.2⟩
        ⟨Function.update (Function.update s.procs n (some t.1)) n (some t'.1), t'.2⟩ :=
      .act (Function.update_self ..) step
    rw [Function.update_idem] at next
    exact ih.tail next

end Pools

end Script
