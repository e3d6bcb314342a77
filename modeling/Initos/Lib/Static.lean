import Initos.Lib.Interact

/-!
# Programs in an environment that does not change

When the environment gives the same answer to a command every time, a program has one outcome,
`Prog.eval`, and its rules are equations.
-/

namespace Interact

variable {I : Iface} {α β ε : Type}

/-- Every answer is the one in the table. -/
def Always (answers : (c : I.Cmd) → I.Resp c) : Rely I := fun _ e => e.resp = answers e.cmd

/-- The outcome of a program when the answers are those in the table. -/
def Prog.eval (answers : (c : I.Cmd) → I.Resp c) : Prog I α → Outcome I α
  | .pure a => .done a
  | .halt e => .halted e
  | .call c k => (k (answers c)).eval answers

/-- Where a command always gets the same answer, every run ends as the evaluation does. -/
theorem Prog.eval_of_runs {answers : (c : I.Cmd) → I.Resp c} {p : Prog I α} {h tr : History I}
    {out : Outcome I α} (run : Runs p tr out) (always : Admits (Always answers) h tr) :
    out = p.eval answers := by
  induction run generalizing h with
  | done a => rfl
  | halted e => rfl
  | @call c k r tr out _ ih =>
    obtain ⟨same, rest⟩ := always
    have same : r = answers c := same
    subst same
    exact ih rest

/-- There is such a run. -/
theorem Prog.runs_eval (answers : (c : I.Cmd) → I.Resp c) (p : Prog I α) (h : History I) :
    ∃ tr, Runs p tr (p.eval answers) ∧ Admits (Always answers) h tr := by
  induction p generalizing h with
  | pure a => exact ⟨[], .done a, trivial⟩
  | halt e => exact ⟨[], .halted e, trivial⟩
  | call c k ih =>
    obtain ⟨tr, run, always⟩ := ih (answers c) (h ++ [⟨c, answers c⟩])
    exact ⟨⟨c, answers c⟩ :: tr, .call _ run, rfl, always⟩

namespace Fallible

variable {answers : (c : I.Cmd) → I.Resp c}

theorem eval_bind (x : Fallible I ε α) (f : α → Fallible I ε β) :
    (x >>= f).run.eval answers =
      match x.run.eval answers with
      | .done (.ok a) => (f a).run.eval answers
      | .done (.error e) => .done (.error e)
      | .halted e => .halted e := by
  rw [run_bind]
  generalize x.run = p
  induction p with
  | pure r => cases r <;> rfl
  | halt e => rfl
  | call c k ih => exact ih (answers c)

theorem eval_bind_ok {x : Fallible I ε α} {a : α} (first : x.run.eval answers = .done (.ok a))
    (f : α → Fallible I ε β) : (x >>= f).run.eval answers = (f a).run.eval answers := by
  rw [eval_bind, first]

@[simp] theorem eval_pure (a : α) :
    (Pure.pure a : Fallible I ε α).run.eval answers = .done (.ok a) := rfl

@[simp] theorem eval_ask_bind (c : I.Cmd) (f : I.Resp c → Fallible I ε β) :
    (ask c >>= f).run.eval answers = (f (answers c)).run.eval answers := rfl

@[simp] theorem eval_call_bind (c : I.Cmd) (as : I.Resp c → Except ε α) (f : α → Fallible I ε β) :
    (call c as >>= f).run.eval answers = (cont f (as (answers c))).eval answers := by
  rw [run_bind]
  rfl

@[simp] theorem eval_attempt_call_bind (c : I.Cmd) (as : I.Resp c → Except ε α)
    (f : Except ε α → Fallible I ε β) :
    (attempt (call c as) >>= f).run.eval answers = (f (as (answers c))).run.eval answers := rfl

theorem eval_attempt {x : Fallible I ε α} {r : Except ε α} (done : x.run.eval answers = .done r) :
    (attempt x).run.eval answers = .done (.ok r) := by
  rw [run_attempt]
  generalize x.run = p at done ⊢
  induction p with
  | pure a =>
    cases done
    rfl
  | halt e => cases done
  | call c k ih => exact ih (answers c) done

/-- The program returns a value. -/
def Returns (answers : (c : I.Cmd) → I.Resp c) (x : Fallible I ε α) : Prop :=
  ∃ a, x.run.eval answers = .done (.ok a)

theorem returns_pure (a : α) : Returns answers (Pure.pure a : Fallible I ε α) := ⟨a, rfl⟩

theorem returns_bind {x : Fallible I ε α} {f : α → Fallible I ε β} (first : Returns answers x)
    (rest : ∀ a, Returns answers (f a)) : Returns answers (x >>= f) := by
  obtain ⟨a, done⟩ := first
  obtain ⟨b, done'⟩ := rest a
  exact ⟨b, (eval_bind_ok done f).trans done'⟩

theorem returns_ask_bind {c : I.Cmd} {f : I.Resp c → Fallible I ε β}
    (rest : Returns answers (f (answers c))) : Returns answers (ask c >>= f) := rest

theorem returns_attempt_call (c : I.Cmd) (as : I.Resp c → Except ε α) :
    Returns answers (attempt (call c as)) := ⟨_, rfl⟩

end Fallible

end Interact
