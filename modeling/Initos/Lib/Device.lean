import Initos.Lib.Interact

/-!
# Devices

A device is an environment with a state of its own: its answer to a command depends on the
state, and may change it. It is given as a relation, so that one device stands for every
machine whose behaviour is among the allowed ones. `RunsOn` is a run of a program against a
device; its rules take a program apart along the states between its parts.
-/

namespace Interact

variable {I : Iface} {α β ε σ : Type}

/-- How the state may change as a command is answered. -/
abbrev Device (I : Iface) (σ : Type) := σ → Event I → σ → Prop

/-- The device goes from one state to another as it answers the commands of a history. -/
def Path (D : Device I σ) : σ → History I → σ → Prop
  | s, [], s' => s' = s
  | s, e :: tr, s' => ∃ m, D s e m ∧ Path D m tr s'

theorem path_append {D : Device I σ} {s s' : σ} {tr₁ tr₂ : History I} :
    Path D s (tr₁ ++ tr₂) s' ↔ ∃ m, Path D s tr₁ m ∧ Path D m tr₂ s' := by
  induction tr₁ generalizing s with
  | nil => simp [Path]
  | cons e tr ih =>
    constructor
    · rintro ⟨m, step, rest⟩
      obtain ⟨m', first, second⟩ := ih.mp rest
      exact ⟨m', ⟨m, step, first⟩, second⟩
    · rintro ⟨m', ⟨m, step, first⟩, second⟩
      exact ⟨m, step, ih.mpr ⟨m', first, second⟩⟩

/-- What every answer keeps to, a path keeps to. -/
theorem path_rel {D : Device I σ} {Q : σ → σ → Prop} (refl : ∀ s, Q s s)
    (trans : ∀ {s m s'}, Q s m → Q m s' → Q s s') (steps : ∀ s e s', D s e s' → Q s s')
    {s s' : σ} {tr : History I} (path : Path D s tr s') : Q s s' := by
  induction tr generalizing s with
  | nil => exact path ▸ refl s
  | cons e tr ih =>
    obtain ⟨m, step, rest⟩ := path
    exact trans (steps s e m step) (ih rest)

/-- A run of a program against a device, from one state to another. -/
def RunsOn (D : Device I σ) (p : Prog I α) (s s' : σ) (out : Outcome I α) : Prop :=
  ∃ tr, Runs p tr out ∧ Path D s tr s'

section

variable {D : Device I σ} {s s' : σ}

theorem runsOn_pure {a : α} {out : Outcome I α} :
    RunsOn D (Pure.pure a) s s' out ↔ s' = s ∧ out = .done a := by
  constructor
  · rintro ⟨tr, runs, path⟩
    obtain ⟨rfl, rfl⟩ := Fallible.runs_pure_iff.mp runs
    exact ⟨path, rfl⟩
  · rintro ⟨rfl, rfl⟩
    exact ⟨[], .done a, rfl⟩

theorem runsOn_halt {e : I.Halt} {out : Outcome I α} :
    RunsOn D (.halt e : Prog I α) s s' out ↔ s' = s ∧ out = .halted e := by
  constructor
  · rintro ⟨tr, ⟨⟩, path⟩
    exact ⟨path, rfl⟩
  · rintro ⟨rfl, rfl⟩
    exact ⟨[], .halted e, rfl⟩

theorem runsOn_call {c : I.Cmd} {k : I.Resp c → Prog I α} {out : Outcome I α} :
    RunsOn D (.call c k) s s' out ↔ ∃ r m, D s ⟨c, r⟩ m ∧ RunsOn D (k r) m s' out := by
  constructor
  · rintro ⟨_, ⟨⟩ | ⟨⟩ | ⟨r, runs⟩, m, step, path⟩
    exact ⟨r, m, step, _, runs, path⟩
  · rintro ⟨r, m, step, tr, runs, path⟩
    exact ⟨⟨c, r⟩ :: tr, .call r runs, m, step, path⟩

theorem runsOn_bind {p : Prog I α} {f : α → Prog I β} {out : Outcome I β} :
    RunsOn D (p >>= f) s s' out ↔
      (∃ a m, RunsOn D p s m (.done a) ∧ RunsOn D (f a) m s' out) ∨
      (∃ e, out = .halted e ∧ RunsOn D p s s' (.halted e)) := by
  constructor
  · rintro ⟨tr, runs, path⟩
    rcases runs_bind.mp runs with ⟨a, tr₁, tr₂, rfl, first, second⟩ | ⟨e, rfl, first⟩
    · obtain ⟨m, path₁, path₂⟩ := path_append.mp path
      exact .inl ⟨a, m, ⟨tr₁, first, path₁⟩, tr₂, second, path₂⟩
    · exact .inr ⟨e, rfl, tr, first, path⟩
  · rintro (⟨a, m, ⟨tr₁, first, path₁⟩, tr₂, second, path₂⟩ | ⟨e, rfl, tr, first, path⟩)
    · exact ⟨tr₁ ++ tr₂, runs_bind.mpr (.inl ⟨a, tr₁, tr₂, rfl, first, second⟩),
        path_append.mpr ⟨m, path₁, path₂⟩⟩
    · exact ⟨tr, runs_bind.mpr (.inr ⟨e, rfl, first⟩), path⟩

namespace Fallible

theorem runsOn_fallible_bind {x : Fallible I ε α} {f : α → Fallible I ε β}
    {out : Outcome I (Except ε β)} :
    RunsOn D (x >>= f).run s s' out ↔
      (∃ a m, RunsOn D x.run s m (.done (.ok a)) ∧ RunsOn D (f a).run m s' out) ∨
      (∃ e, out = .done (.error e) ∧ RunsOn D x.run s s' (.done (.error e))) ∨
      (∃ e, out = .halted e ∧ RunsOn D x.run s s' (.halted e)) := by
  rw [run_bind, runsOn_bind]
  constructor
  · rintro (⟨r, m, first, second⟩ | stopped)
    · cases r with
      | ok a => exact .inl ⟨a, m, first, second⟩
      | error e =>
        obtain ⟨rfl, rfl⟩ := runsOn_pure.mp second
        exact .inr (.inl ⟨e, rfl, first⟩)
    · exact .inr (.inr stopped)
  · rintro (⟨a, m, first, second⟩ | ⟨e, rfl, first⟩ | stopped)
    · exact .inl ⟨.ok a, m, first, second⟩
    · exact .inl ⟨.error e, s', first, runsOn_pure.mpr ⟨rfl, rfl⟩⟩
    · exact .inr stopped

/-- A sequence that returns a value has run both parts. -/
theorem runsOn_bind_ok {x : Fallible I ε α} {f : α → Fallible I ε β} {b : β}
    (run : RunsOn D (x >>= f).run s s' (.done (.ok b))) :
    ∃ a m, RunsOn D x.run s m (.done (.ok a)) ∧ RunsOn D (f a).run m s' (.done (.ok b)) := by
  rcases runsOn_fallible_bind.mp run with both | ⟨e, ⟨⟩, -⟩ | ⟨e, ⟨⟩, -⟩
  exact both

theorem runsOn_attempt_bind {x : Fallible I ε α} {f : Except ε α → Fallible I ε β}
    {out : Outcome I (Except ε β)} :
    RunsOn D (attempt x >>= f).run s s' out ↔
      (∃ r m, RunsOn D x.run s m (.done r) ∧ RunsOn D (f r).run m s' out) ∨
      (∃ e, out = .halted e ∧ RunsOn D x.run s s' (.halted e)) := by
  rw [run_bind, run_attempt, map_eq_pure_bind, Prog.bind_assoc, runsOn_bind]
  rfl

theorem runsOn_ask_bind {c : I.Cmd} {f : I.Resp c → Fallible I ε β} {out : Outcome I (Except ε β)} :
    RunsOn D (ask c >>= f).run s s' out ↔ ∃ r m, D s ⟨c, r⟩ m ∧ RunsOn D (f r).run m s' out :=
  runsOn_call

theorem runsOn_call_bind {c : I.Cmd} {as : I.Resp c → Except ε α} {f : α → Fallible I ε β}
    {out : Outcome I (Except ε β)} :
    RunsOn D (call c as >>= f).run s s' out ↔
      ∃ r m, D s ⟨c, r⟩ m ∧ RunsOn D (cont f (as r)) m s' out := by
  rw [run_bind]
  exact runsOn_call

theorem runsOn_attempt_call_bind {c : I.Cmd} {as : I.Resp c → Except ε α}
    {f : Except ε α → Fallible I ε β} {out : Outcome I (Except ε β)} :
    RunsOn D (attempt (call c as) >>= f).run s s' out ↔
      ∃ r m, D s ⟨c, r⟩ m ∧ RunsOn D (f (as r)).run m s' out :=
  runsOn_call

end Fallible

theorem RunsOn.mono {D' : Device I σ} {p : Prog I α} {out : Outcome I α}
    (covers : ∀ s e s', D s e s' → D' s e s') (run : RunsOn D p s s' out) :
    RunsOn D' p s s' out := by
  obtain ⟨tr, runs, path⟩ := run
  refine ⟨tr, runs, ?_⟩
  clear runs
  induction tr generalizing s with
  | nil => exact path
  | cons e tr ih =>
    obtain ⟨m, step, rest⟩ := path
    exact ⟨m, covers s e m step, ih rest⟩

section

variable {τ : Type} {D' : Device I τ}

/-- A part of a device, seen as a device. -/
theorem path_map (f : σ → τ) (follows : ∀ s e s', D s e s' → D' (f s) e (f s')) {tr : History I}
    (path : Path D s tr s') : Path D' (f s) tr (f s') := by
  induction tr generalizing s with
  | nil => exact congrArg f path
  | cons e tr ih =>
    obtain ⟨m, step, rest⟩ := path
    exact ⟨f m, follows s e m step, ih rest⟩

theorem RunsOn.map (f : σ → τ) (follows : ∀ s e s', D s e s' → D' (f s) e (f s'))
    {p : Prog I α} {out : Outcome I α} (run : RunsOn D p s s' out) :
    RunsOn D' p (f s) (f s') out := by
  obtain ⟨tr, runs, path⟩ := run
  exact ⟨tr, runs, path_map f follows path⟩

end

/-- A program whose commands the device does not react to leaves it as it is. -/
theorem RunsOn.eq_of_uses {A : I.Cmd → Prop} {p : Prog I α} {out : Outcome I α}
    (still : ∀ s c r s', A c → D s ⟨c, r⟩ s' → s' = s) (uses : p.Uses A)
    (run : RunsOn D p s s' out) : s' = s := by
  obtain ⟨tr, runs, path⟩ := run
  have all := uses.runs runs
  clear runs uses
  induction tr generalizing s with
  | nil => exact path
  | cons e tr ih =>
    obtain ⟨m, step, rest⟩ := path
    rw [ih rest fun e' member => all e' (List.mem_cons_of_mem e member)]
    exact still s e.cmd e.resp m (all e List.mem_cons_self) step

/-- Commands that the device does not react to leave it as it is. -/
theorem path_eq_of_cmds {A : I.Cmd → Prop} (still : ∀ s c r s', A c → D s ⟨c, r⟩ s' → s' = s)
    {tr : History I} (cmds : ∀ e ∈ tr, A e.cmd) (path : Path D s tr s') : s' = s := by
  induction tr generalizing s with
  | nil => exact path
  | cons e tr ih =>
    obtain ⟨m, step, rest⟩ := path
    rw [List.forall_mem_cons] at cmds
    rw [ih cmds.2 rest]
    exact still s e.cmd e.resp m cmds.1 step

section

variable {A : I.Cmd → Prop} {x : Fallible I ε α}

/-- A first part that the device does not react to: it is all that has run, or the rest starts
    from the same state. -/
theorem Fallible.runsOn_bind_of_uses {f : α → Fallible I ε β} {out : Outcome I (Except ε β)}
    (still : ∀ s c r s', A c → D s ⟨c, r⟩ s' → s' = s) (uses : x.run.Uses A)
    (run : RunsOn D (x >>= f).run s s' out) :
    s' = s ∨ ∃ a, RunsOn D x.run s s (.done (.ok a)) ∧ RunsOn D (f a).run s s' out := by
  rcases runsOn_fallible_bind.mp run with ⟨a, m, first, rest⟩ | ⟨e, -, first⟩ | ⟨e, -, first⟩
  · obtain rfl := first.eq_of_uses still uses
    exact .inr ⟨a, first, rest⟩
  · exact .inl (first.eq_of_uses still uses)
  · exact .inl (first.eq_of_uses still uses)

theorem Fallible.runsOn_attempt_bind_of_uses {f : Except ε α → Fallible I ε β}
    {out : Outcome I (Except ε β)} (still : ∀ s c r s', A c → D s ⟨c, r⟩ s' → s' = s)
    (uses : x.run.Uses A) (run : RunsOn D (attempt x >>= f).run s s' out) :
    s' = s ∨ ∃ r, RunsOn D x.run s s (.done r) ∧ RunsOn D (f r).run s s' out := by
  rcases runsOn_attempt_bind.mp run with ⟨r, m, first, rest⟩ | ⟨e, -, first⟩
  · obtain rfl := first.eq_of_uses still uses
    exact .inr ⟨r, first, rest⟩
  · exact .inl (first.eq_of_uses still uses)

end

/-- A device that answers every command lets every program run. -/
theorem exists_runsOn (total : ∀ s c, ∃ r s', D s ⟨c, r⟩ s') (p : Prog I α) (s : σ) :
    ∃ s' out, RunsOn D p s s' out := by
  induction p generalizing s with
  | pure a => exact ⟨s, _, [], .done a, rfl⟩
  | halt e => exact ⟨s, _, [], .halted e, rfl⟩
  | call c k ih =>
    obtain ⟨r, m, step⟩ := total s c
    obtain ⟨s', out, run⟩ := ih r m
    exact ⟨s', out, runsOn_call.mpr ⟨r, m, step, run⟩⟩

end

end Interact
