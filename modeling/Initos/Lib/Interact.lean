/-!
# Interacting programs

A program that talks to an environment is a tree: it issues a command, the
environment answers, and the answer selects the rest of the program. Nothing is
assumed about the environment; a *run* is any list of answered commands that
leads from the root of the tree to a leaf. A property of every run is therefore
a property under every behaviour of the environment, including the failure of
any command at any point.

`Prog.wp` is the weakest precondition of a program over the history of answered
commands. Its `rely` argument says which answers the environment may give after
a history; `wp_iff_runs` shows that it speaks about exactly the admitted runs.
`Prog.Uses` is the frame property: the program issues only the commands of a set.
-/

namespace Interact

/-- The commands of an environment, the type of the answer to each of them, and
    the ways a program may stop for good without returning. -/
structure Iface where
  Cmd : Type
  Resp : Cmd → Type
  Halt : Type

/-- A command together with the answer the environment gave. -/
structure Event (I : Iface) where
  cmd : I.Cmd
  resp : I.Resp cmd

instance {I : Iface} [DecidableEq I.Cmd] [∀ c, DecidableEq (I.Resp c)] : DecidableEq (Event I)
  | ⟨c, r⟩, ⟨c', r'⟩ =>
    if same : c = c' then
      decidable_of_iff (same ▸ r = r') (by subst same; simp)
    else isFalse fun eq => same (congrArg Event.cmd eq)

/-- The commands a program has issued so far, oldest first. -/
abbrev History (I : Iface) := List (Event I)

/-- A program: it is done, it stops, or it issues a command and goes on with the answer. -/
inductive Prog (I : Iface) (α : Type) : Type where
  | pure (a : α)
  | halt (e : I.Halt)
  | call (c : I.Cmd) (k : I.Resp c → Prog I α)

/-- How a finished run ended. -/
inductive Outcome (I : Iface) (α : Type) : Type where
  | done (a : α)
  | halted (e : I.Halt)

variable {I : Iface} {α β γ ε : Type}

instance [DecidableEq α] [DecidableEq I.Halt] : DecidableEq (Outcome I α)
  | .done a, .done b => decidable_of_iff (a = b) (by simp)
  | .halted e, .halted e' => decidable_of_iff (e = e') (by simp)
  | .done _, .halted _ => isFalse nofun
  | .halted _, .done _ => isFalse nofun

/-- The run has returned. -/
def Outcome.isDone : Outcome I α → Bool
  | .done _ => true
  | .halted _ => false

namespace Prog

/-- Run a program on the result of another. -/
def bind : Prog I α → (α → Prog I β) → Prog I β
  | .pure a, f => f a
  | .halt e, _ => .halt e
  | .call c k, f => .call c fun r => (k r).bind f

instance : Monad (Prog I) where
  pure := Prog.pure
  bind := Prog.bind

@[simp] theorem pure_bind (a : α) (f : α → Prog I β) : (Pure.pure a : Prog I α) >>= f = f a := rfl

@[simp] theorem halt_bind (e : I.Halt) (f : α → Prog I β) :
    (Prog.halt e : Prog I α) >>= f = .halt e := rfl

@[simp] theorem call_bind (c : I.Cmd) (k : I.Resp c → Prog I α) (f : α → Prog I β) :
    Prog.call c k >>= f = .call c fun r => k r >>= f := rfl

theorem bind_pure (p : Prog I α) : p >>= Pure.pure = p := by
  induction p with
  | pure a => rfl
  | halt e => rfl
  | call c k ih => rw [call_bind]; congr 1; funext r; exact ih r

/-- Programs compose associatively. -/
theorem bind_assoc (p : Prog I α) (f : α → Prog I β) (g : β → Prog I γ) :
    p >>= f >>= g = p >>= fun a => f a >>= g := by
  induction p with
  | pure a => rfl
  | halt e => rfl
  | call c k ih => simp only [call_bind]; congr 1; funext r; exact ih r

instance : LawfulMonad (Prog I) :=
  LawfulMonad.mk' _ bind_pure (fun _ _ => rfl) bind_assoc

/-- Issue one command and return its answer. -/
def perform (c : I.Cmd) : Prog I (I.Resp c) := .call c .pure

end Prog

/-- `Runs p tr out`: the environment can answer the commands of `p` as in `tr`,
    and `p` then ends with `out`. -/
inductive Runs : Prog I α → History I → Outcome I α → Prop where
  | done (a : α) : Runs (.pure a) [] (.done a)
  | halted (e : I.Halt) : Runs (.halt e) [] (.halted e)
  | call {c : I.Cmd} {k : I.Resp c → Prog I α} (r : I.Resp c) {tr : History I}
      {out : Outcome I α} : Runs (k r) tr out → Runs (.call c k) (⟨c, r⟩ :: tr) out

/-- What an environment may answer after a history. -/
abbrev Rely (I : Iface) := History I → Event I → Prop

/-- Every answer of `tr`, which continues the history `h`, is admitted by `R`. -/
def Admits (R : Rely I) : History I → History I → Prop
  | _, [] => True
  | h, e :: tr => R h e ∧ Admits R (h ++ [e]) tr

/-- A history is admitted step by step. -/
theorem admits_append (R : Rely I) (h tr₁ tr₂ : History I) :
    Admits R h (tr₁ ++ tr₂) ↔ Admits R h tr₁ ∧ Admits R (h ++ tr₁) tr₂ := by
  induction tr₁ generalizing h with
  | nil => simp [Admits]
  | cons e tr ih => simp [Admits, ih, and_assoc]

/-- A rely that looks at one answer at a time only asks that every answer passes. -/
theorem admits_const {S : Event I → Prop} (h tr : History I) :
    Admits (fun _ e => S e) h tr ↔ ∀ e ∈ tr, S e := by
  induction tr generalizing h with
  | nil => simp [Admits]
  | cons e tr ih => simp [Admits, ih]

/-- A weaker condition admits more. -/
theorem Admits.mono {R S : Rely I} (weaker : ∀ h e, R h e → S h e) {h tr : History I}
    (admits : Admits R h tr) : Admits S h tr := by
  induction tr generalizing h with
  | nil => trivial
  | cons e tr ih => exact ⟨weaker h e admits.1, ih admits.2⟩

namespace Prog

/-- Weakest precondition over histories: from `h`, every run of the program whose
    answers `R` admits ends in a history and an outcome that satisfy `Q`. -/
def wp (R : Rely I) (Q : History I → Outcome I α → Prop) : Prog I α → History I → Prop
  | .pure a, h => Q h (.done a)
  | .halt e, h => Q h (.halted e)
  | .call c k, h => ∀ r, R h ⟨c, r⟩ → wp R Q (k r) (h ++ [⟨c, r⟩])

@[simp] theorem wp_pure (R : Rely I) (Q : History I → Outcome I α → Prop) (a : α) (h : History I) :
    wp R Q (Pure.pure a) h ↔ Q h (.done a) := Iff.rfl

@[simp] theorem wp_pure' (R : Rely I) (Q : History I → Outcome I α → Prop) (a : α) (h : History I) :
    wp R Q (.pure a) h ↔ Q h (.done a) := Iff.rfl

@[simp] theorem wp_halt (R : Rely I) (Q : History I → Outcome I α → Prop) (e : I.Halt)
    (h : History I) : wp R Q (.halt e) h ↔ Q h (.halted e) := Iff.rfl

@[simp] theorem wp_call (R : Rely I) (Q : History I → Outcome I α → Prop) (c : I.Cmd)
    (k : I.Resp c → Prog I α) (h : History I) :
    wp R Q (.call c k) h ↔ ∀ r, R h ⟨c, r⟩ → wp R Q (k r) (h ++ [⟨c, r⟩]) := Iff.rfl

@[simp] theorem wp_perform (R : Rely I) (c : I.Cmd) (Q : History I → Outcome I (I.Resp c) → Prop)
    (h : History I) :
    wp R Q (perform c) h ↔ ∀ r, R h ⟨c, r⟩ → Q (h ++ [⟨c, r⟩]) (.done r) := Iff.rfl

/-- What a program must leave behind so that `f` can go on. -/
def andThen (R : Rely I) (Q : History I → Outcome I β → Prop) (f : α → Prog I β) :
    History I → Outcome I α → Prop
  | h, .done a => wp R Q (f a) h
  | h, .halted e => Q h (.halted e)

@[simp] theorem andThen_done (R : Rely I) (Q : History I → Outcome I β → Prop)
    (f : α → Prog I β) (h : History I) (a : α) :
    andThen R Q f h (.done a) ↔ wp R Q (f a) h := Iff.rfl

@[simp] theorem andThen_halted (R : Rely I) (Q : History I → Outcome I β → Prop)
    (f : α → Prog I β) (h : History I) (e : I.Halt) :
    andThen R Q f h (.halted e) ↔ Q h (.halted e) := Iff.rfl

/-- Sequencing: the postcondition of the first program is the precondition of the rest. -/
theorem wp_bind (R : Rely I) (Q : History I → Outcome I β → Prop) (p : Prog I α)
    (f : α → Prog I β) (h : History I) :
    wp R Q (p >>= f) h ↔ wp R (andThen R Q f) p h := by
  induction p generalizing h with
  | pure a => rfl
  | halt e => rfl
  | call c k ih =>
    simp only [call_bind, wp_call]
    exact forall_congr' fun r => imp_congr_right fun _ => ih r _

/-- Weaken the postcondition. -/
theorem wp_mono {R : Rely I} {Q Q' : History I → Outcome I α → Prop} {p : Prog I α}
    {h : History I} (hp : wp R Q p h) (hq : ∀ h' out, Q h' out → Q' h' out) : wp R Q' p h := by
  induction p generalizing h with
  | pure a => exact hq _ _ hp
  | halt e => exact hq _ _ hp
  | call c k ih => exact fun r hr => ih r (hp r hr)

/-- A postcondition for the runs that return; nothing is asked of the others. -/
def OnDone (P : History I → α → Prop) : History I → Outcome I α → Prop
  | h, .done a => P h a
  | _, .halted _ => True

/-- Two postconditions hold together. -/
theorem wp_and {R : Rely I} {Q Q' : History I → Outcome I α → Prop} {p : Prog I α}
    {h : History I} (hq : wp R Q p h) (hq' : wp R Q' p h) :
    wp R (fun h' out => Q h' out ∧ Q' h' out) p h := by
  induction p generalizing h with
  | pure a => exact ⟨hq, hq'⟩
  | halt e => exact ⟨hq, hq'⟩
  | call c k ih => exact fun r hr => ih r (hq r hr) (hq' r hr)

/-- A stronger rely admits fewer runs. -/
theorem wp_rely_mono {R R' : Rely I} {Q : History I → Outcome I α → Prop} {p : Prog I α}
    {h : History I} (hp : wp R Q p h) (hr : ∀ h e, R' h e → R h e) : wp R' Q p h := by
  induction p generalizing h with
  | pure a => exact hp
  | halt e => exact hp
  | call c k ih => exact fun r hr' => ih r (hp r (hr _ _ hr'))

/-- Compose, where only results count. -/
theorem wp_bind_onDone {R : Rely I} {P : History I → β → Prop} {p : Prog I α}
    {f : α → Prog I β} {h : History I}
    (hp : wp R (OnDone fun h' a => wp R (OnDone P) (f a) h') p h) :
    wp R (OnDone P) (p >>= f) h := by
  rw [wp_bind]
  refine wp_mono hp fun h' out post => ?_
  cases out with
  | done a => exact post
  | halted e => trivial

/-- A first part of which nothing needs to be known. -/
theorem wp_skip_onDone {R : Rely I} {P : History I → β → Prop} {p : Prog I α}
    {f : α → Prog I β} {h : History I} (rest : ∀ h' a, wp R (OnDone P) (f a) h') :
    wp R (OnDone P) (p >>= f) h := by
  apply wp_bind_onDone
  induction p generalizing h with
  | pure a => exact rest h a
  | halt e => trivial
  | call c k ih => exact fun r _ => ih r

theorem wp_onDone_halt (R : Rely I) (P : History I → α → Prop) (e : I.Halt) (h : History I) :
    wp R (OnDone P) (.halt e) h := trivial

/-- `wp` speaks about exactly the admitted runs. -/
theorem wp_iff_runs (R : Rely I) (Q : History I → Outcome I α → Prop) (p : Prog I α)
    (h : History I) :
    wp R Q p h ↔ ∀ tr out, Runs p tr out → Admits R h tr → Q (h ++ tr) out := by
  induction p generalizing h with
  | pure a =>
    constructor
    · rintro hq tr out ⟨⟩ -
      simpa using hq
    · intro hall
      simpa using hall [] _ (.done a) trivial
  | halt e =>
    constructor
    · rintro hq tr out ⟨⟩ -
      simpa using hq
    · intro hall
      simpa using hall [] _ (.halted e) trivial
  | call c k ih =>
    constructor
    · rintro hp tr out hrun hadm
      cases hrun with
      | call r hrest =>
        have hrest' := (ih r _).mp (hp r hadm.1) _ _ hrest hadm.2
        simpa using hrest'
    · intro hall r hr
      refine (ih r _).mpr fun tr out hrun hadm => ?_
      have := hall (⟨c, r⟩ :: tr) out (.call r hrun) ⟨hr, hadm⟩
      simpa using this

/-- The program issues only commands of `A`, whatever the answers are. -/
def Uses (A : I.Cmd → Prop) : Prog I α → Prop
  | .pure _ => True
  | .halt _ => True
  | .call c k => A c ∧ ∀ r, (k r).Uses A

@[simp] theorem uses_pure (A : I.Cmd → Prop) (a : α) : Uses A (Pure.pure a : Prog I α) := trivial

@[simp] theorem uses_halt (A : I.Cmd → Prop) (e : I.Halt) : Uses A (.halt e : Prog I α) := trivial

@[simp] theorem uses_perform (A : I.Cmd → Prop) (c : I.Cmd) : Uses A (perform c) ↔ A c := by
  simp [Uses, perform]

/-- The commands of a composition. -/
theorem uses_bind {A : I.Cmd → Prop} {p : Prog I α} {f : α → Prog I β}
    (hp : p.Uses A) (hf : ∀ a, (f a).Uses A) : (p >>= f).Uses A := by
  induction p with
  | pure a => exact hf a
  | halt e => trivial
  | call c k ih => exact ⟨hp.1, fun r => ih r (hp.2 r)⟩

@[simp] theorem uses_map (A : I.Cmd → Prop) (f : α → β) (p : Prog I α) :
    (f <$> p).Uses A ↔ p.Uses A := by
  rw [map_eq_pure_bind]
  induction p with
  | pure a => exact Iff.rfl
  | halt e => exact Iff.rfl
  | call c k ih => exact and_congr_right fun _ => forall_congr' ih

/-- Every event of a run is an answer to an allowed command. -/
theorem Uses.runs {A : I.Cmd → Prop} {p : Prog I α} (hp : p.Uses A) {tr : History I}
    {out : Outcome I α} (hrun : Runs p tr out) : ∀ e ∈ tr, A e.cmd := by
  induction hrun with
  | done a => simp
  | halted e => simp
  | call r _ ih =>
    intro e he
    rcases List.mem_cons.mp he with rfl | he
    · exact hp.1
    · exact ih (hp.2 r) e he

/-- A program that issues only commands of `A` extends the history by answers to
    commands of `A`, whatever is known of the answers. -/
theorem Uses.wp {A : I.Cmd → Prop} {p : Prog I α} (hp : p.Uses A) (R : Rely I) (h : History I) :
    p.wp R (fun h' _ => ∃ tr, h' = h ++ tr ∧ ∀ e ∈ tr, A e.cmd) h := by
  rw [wp_iff_runs]
  exact fun tr out hrun _ => ⟨tr, rfl, hp.runs hrun⟩

/-- With answers that satisfy `S`, the program issues only commands of `A` and does not stop
    before it returns. -/
def Finishes (A : I.Cmd → Prop) (S : Event I → Prop) : Prog I α → Prop
  | .pure _ => True
  | .halt _ => False
  | .call c k => A c ∧ ∀ r, S ⟨c, r⟩ → (k r).Finishes A S

/-- A program that finishes returns in every run with such answers. -/
theorem Finishes.runs {A : I.Cmd → Prop} {S : Event I → Prop} {p : Prog I α}
    (finishes : p.Finishes A S) {tr : History I} {out : Outcome I α} (run : Runs p tr out)
    (answers : ∀ e ∈ tr, S e) : (∃ a, out = .done a) ∧ ∀ e ∈ tr, A e.cmd := by
  induction run with
  | done a => exact ⟨⟨a, rfl⟩, nofun⟩
  | halted e => exact finishes.elim
  | call r _ ih =>
    obtain ⟨answer, answers⟩ := List.forall_mem_cons.mp answers
    obtain ⟨returns, others⟩ := ih (finishes.2 r answer) answers
    exact ⟨returns, List.forall_mem_cons.mpr ⟨finishes.1, others⟩⟩

/-- Compose programs that finish. -/
theorem finishes_bind {A : I.Cmd → Prop} {S : Event I → Prop} {p : Prog I α} {f : α → Prog I β}
    (first : p.Finishes A S) (rest : ∀ a, (f a).Finishes A S) : (p >>= f).Finishes A S := by
  induction p with
  | pure a => exact rest a
  | halt e => exact first.elim
  | call c k ih => exact ⟨first.1, fun r answer => ih r (first.2 r answer)⟩

/-- What a program adds to the history is a run of it. -/
theorem wp_runs (R : Rely I) (p : Prog I α) (h : History I) :
    p.wp R (fun h' out => ∃ tr, h' = h ++ tr ∧ Runs p tr out) h := by
  rw [wp_iff_runs]
  exact fun tr out hrun _ => ⟨tr, rfl, hrun⟩

/-- Run against an environment that computes its answers from the history. -/
def exec (env : History I → (c : I.Cmd) → I.Resp c) : Prog I α → History I → History I × Outcome I α
  | .pure a, _ => ([], .done a)
  | .halt e, _ => ([], .halted e)
  | .call c k, h =>
    let r := env h c
    let rest := (k r).exec env (h ++ [⟨c, r⟩])
    (⟨c, r⟩ :: rest.1, rest.2)

/-- Executing a program against an environment is a run of it. -/
theorem runs_exec (env : History I → (c : I.Cmd) → I.Resp c) (p : Prog I α) (h : History I) :
    Runs p (p.exec env h).1 (p.exec env h).2 := by
  induction p generalizing h with
  | pure a => exact .done a
  | halt e => exact .halted e
  | call c k ih => exact .call _ (ih _ _)

/-- An environment that keeps to `R` only produces admitted runs. -/
theorem admits_exec {R : Rely I} {env : History I → (c : I.Cmd) → I.Resp c}
    (keeps : ∀ h c, R h ⟨c, env h c⟩) (p : Prog I α) (h : History I) :
    Admits R h (p.exec env h).1 := by
  induction p generalizing h with
  | pure a => trivial
  | halt e => trivial
  | call c k ih => exact ⟨keeps h c, ih _ _⟩

end Prog

/-- Sequenced programs run one after the other. -/
theorem runs_bind {p : Prog I α} {f : α → Prog I β} {tr : History I} {out : Outcome I β} :
    Runs (p >>= f) tr out ↔
      (∃ a tr₁ tr₂, tr = tr₁ ++ tr₂ ∧ Runs p tr₁ (.done a) ∧ Runs (f a) tr₂ out) ∨
      (∃ e, out = .halted e ∧ Runs p tr (.halted e)) := by
  induction p generalizing tr with
  | pure a =>
    constructor
    · intro hrun
      exact .inl ⟨a, [], tr, rfl, .done a, hrun⟩
    · rintro (⟨_, tr₁, tr₂, rfl, ⟨⟩, hrun⟩ | ⟨e, -, ⟨⟩⟩)
      exact hrun
  | halt e =>
    constructor
    · rintro ⟨⟩
      exact .inr ⟨e, rfl, .halted e⟩
    · rintro (⟨_, tr₁, tr₂, rfl, ⟨⟩, -⟩ | ⟨e', rfl, ⟨⟩⟩)
      exact .halted e
  | call c k ih =>
    rw [Prog.call_bind]
    constructor
    · intro hrun
      cases hrun with
      | call r hrest =>
        rcases (ih r).mp hrest with ⟨a, tr₁, tr₂, rfl, h₁, h₂⟩ | ⟨e, rfl, h₁⟩
        · exact .inl ⟨a, ⟨c, r⟩ :: tr₁, tr₂, rfl, .call r h₁, h₂⟩
        · exact .inr ⟨e, rfl, .call r h₁⟩
    · rintro (⟨a, tr₁, tr₂, rfl, h₁, h₂⟩ | ⟨e, rfl, h₁⟩)
      · cases h₁ with
        | call r h₁ => exact .call r ((ih r).mpr (.inl ⟨a, _, _, rfl, h₁, h₂⟩))
      · cases h₁ with
        | call r h₁ => exact .call r ((ih r).mpr (.inr ⟨e, rfl, h₁⟩))

/-! ## Fallible programs

A program that may return an error is a program that returns an `Except`. The
rules below are those of the previous sections, read through `ExceptT`. -/

/-- Programs that return an error or a value. -/
abbrev Fallible (I : Iface) (ε : Type) := ExceptT ε (Prog I)

namespace Fallible

/-- Look at the result of `x` instead of propagating its error. -/
def attempt (x : Fallible I ε α) : Fallible I ε (Except ε α) := ExceptT.lift x.run

/-- Issue a command whose answer is not a result. -/
def ask (c : I.Cmd) : Fallible I ε (I.Resp c) := ExceptT.lift (Prog.perform c)

/-- Issue a command whose answer is a result, and propagate its error. -/
def call (c : I.Cmd) (as : I.Resp c → Except ε α) : Fallible I ε α :=
  ExceptT.mk (.call c fun r => .pure (as r))

@[simp] theorem run_pure (a : α) : (Pure.pure a : Fallible I ε α).run = Pure.pure (.ok a) := rfl

@[simp] theorem run_throw (e : ε) : (throw e : Fallible I ε α).run = Pure.pure (.error e) := rfl

/-- Stop for good. -/
def halt (e : I.Halt) : Fallible I ε α := ExceptT.mk (.halt e)

@[simp] theorem throw_bind (e : ε) (f : α → Fallible I ε β) :
    (throw e : Fallible I ε α) >>= f = throw e := rfl

@[simp] theorem halt_bind (e : I.Halt) (f : α → Fallible I ε β) :
    (halt e : Fallible I ε α) >>= f = halt e := rfl

/-- The continuation of a fallible program inside `Prog`. -/
def cont (f : α → Fallible I ε β) : Except ε α → Prog I (Except ε β)
  | .ok a => (f a).run
  | .error e => Pure.pure (.error e)

@[simp] theorem cont_ok (f : α → Fallible I ε β) (a : α) : cont f (.ok a) = (f a).run := rfl

@[simp] theorem cont_error (f : α → Fallible I ε β) (e : ε) :
    cont f (.error e) = Pure.pure (.error e) := rfl

/-- An error of the first part skips the rest. -/
theorem run_bind (x : Fallible I ε α) (f : α → Fallible I ε β) :
    (x >>= f).run = x.run >>= cont f := by
  rw [ExceptT.run_bind]
  congr 1
  funext r
  cases r <;> rfl

theorem run_attempt (x : Fallible I ε α) : (attempt x).run = Except.ok <$> x.run := rfl

@[simp] theorem run_halt (e : I.Halt) : (halt e : Fallible I ε α).run = .halt e := rfl

theorem wp_bind (R : Rely I) (Q : History I → Outcome I (Except ε β) → Prop)
    (x : Fallible I ε α) (f : α → Fallible I ε β) (h : History I) :
    Prog.wp R Q (x >>= f).run h ↔ Prog.wp R (Prog.andThen R Q (cont f)) x.run h := by
  rw [run_bind, Prog.wp_bind]

theorem wp_attempt (R : Rely I) (Q : History I → Outcome I (Except ε (Except ε α)) → Prop)
    (x : Fallible I ε α) (h : History I) :
    Prog.wp R Q (attempt x).run h ↔
      Prog.wp R (Prog.andThen R Q fun r => Pure.pure (.ok r)) x.run h := by
  rw [run_attempt, map_eq_pure_bind, Prog.wp_bind]

theorem wp_call (R : Rely I) (Q : History I → Outcome I (Except ε α) → Prop) (c : I.Cmd)
    (as : I.Resp c → Except ε α) (h : History I) :
    Prog.wp R Q (call c as).run h ↔
      ∀ r, R h ⟨c, r⟩ → Q (h ++ [⟨c, r⟩]) (.done (as r)) := Iff.rfl

/-- A postcondition for the runs that return a value. -/
def OnOk (P : History I → α → Prop) : History I → Outcome I (Except ε α) → Prop
  | h, .done (.ok a) => P h a
  | _, _ => True

/-- Compose, where only successes count. -/
theorem wp_bind_onOk {R : Rely I} {P : History I → β → Prop} {x : Fallible I ε α}
    {f : α → Fallible I ε β} {h : History I}
    (hx : Prog.wp R (OnOk fun h' a => Prog.wp R (OnOk P) (f a).run h') x.run h) :
    Prog.wp R (OnOk P) (x >>= f).run h := by
  rw [wp_bind]
  refine Prog.wp_mono hx fun h' out post => ?_
  rcases out with (e | a) | e
  · trivial
  · exact post
  · trivial

/-- A first part of which nothing needs to be known. -/
theorem wp_skip_onOk {R : Rely I} {P : History I → β → Prop} {x : Fallible I ε α}
    {f : α → Fallible I ε β} {h : History I} (rest : ∀ h' a, Prog.wp R (OnOk P) (f a).run h') :
    Prog.wp R (OnOk P) (x >>= f).run h := by
  rw [wp_bind]
  apply Prog.wp_mono (Prog.wp_runs R x.run h)
  intro h' out _
  rcases out with (e | a) | e
  · trivial
  · exact rest h' a
  · trivial

theorem wp_call_onOk {R : Rely I} {P : History I → α → Prop} {c : I.Cmd}
    {as : I.Resp c → Except ε α} {h : History I}
    (answers : ∀ r a, R h ⟨c, r⟩ → as r = .ok a → P (h ++ [⟨c, r⟩]) a) :
    Prog.wp R (OnOk P) (call c as).run h := by
  rw [wp_call]
  intro r admitted
  cases ok : as r with
  | ok a => exact answers r a admitted ok
  | error e => trivial

theorem wp_pure_onOk {R : Rely I} {P : History I → α → Prop} {a : α} {h : History I}
    (hp : P h a) : Prog.wp R (OnOk P) (Pure.pure a : Fallible I ε α).run h := hp

theorem wp_throw_onOk (R : Rely I) (P : History I → α → Prop) (e : ε) (h : History I) :
    Prog.wp R (OnOk P) (throw e : Fallible I ε α).run h := trivial

theorem wp_halt_onOk (R : Rely I) (P : History I → α → Prop) (e : I.Halt) (h : History I) :
    Prog.wp R (OnOk P) (halt e : Fallible I ε α).run h := trivial

/-- A command, then the rest: every admitted answer selects the rest. -/
theorem wp_call_bind (R : Rely I) (Q : History I → Outcome I (Except ε β) → Prop) (c : I.Cmd)
    (as : I.Resp c → Except ε α) (f : α → Fallible I ε β) (h : History I) :
    Prog.wp R Q (call c as >>= f).run h ↔
      ∀ r, R h ⟨c, r⟩ → Prog.wp R Q (cont f (as r)) (h ++ [⟨c, r⟩]) := by
  rw [wp_bind]
  exact Iff.rfl

theorem wp_ask_bind (R : Rely I) (Q : History I → Outcome I (Except ε β) → Prop) (c : I.Cmd)
    (f : I.Resp c → Fallible I ε β) (h : History I) :
    Prog.wp R Q (ask c >>= f).run h ↔
      ∀ r, R h ⟨c, r⟩ → Prog.wp R Q (f r).run (h ++ [⟨c, r⟩]) := by
  rw [wp_bind]
  exact Iff.rfl

/-- A command whose failure the caller looks at. -/
theorem wp_attempt_call_bind (R : Rely I) (Q : History I → Outcome I (Except ε β) → Prop)
    (c : I.Cmd) (as : I.Resp c → Except ε α) (f : Except ε α → Fallible I ε β) (h : History I) :
    Prog.wp R Q (attempt (call c as) >>= f).run h ↔
      ∀ r, R h ⟨c, r⟩ → Prog.wp R Q (f (as r)).run (h ++ [⟨c, r⟩]) := by
  rw [wp_bind, wp_attempt]
  exact Iff.rfl

@[simp] theorem wp_ask (R : Rely I) (c : I.Cmd)
    (Q : History I → Outcome I (Except ε (I.Resp c)) → Prop) (h : History I) :
    Prog.wp R Q (ask c : Fallible I ε (I.Resp c)).run h ↔
      ∀ r, R h ⟨c, r⟩ → Q (h ++ [⟨c, r⟩]) (.done (.ok r)) := Iff.rfl

/-! ### The frame of a fallible program -/

@[simp] theorem uses_ask (A : I.Cmd → Prop) (c : I.Cmd) :
    (ask c : Fallible I ε (I.Resp c)).run.Uses A ↔ A c := Prog.uses_perform A c

@[simp] theorem uses_call (A : I.Cmd → Prop) (c : I.Cmd) (as : I.Resp c → Except ε α) :
    (call c as).run.Uses A ↔ A c := by
  simp [call, Prog.Uses]

theorem uses_bind {A : I.Cmd → Prop} {x : Fallible I ε α} {f : α → Fallible I ε β}
    (hx : x.run.Uses A) (hf : ∀ a, (f a).run.Uses A) : (x >>= f).run.Uses A := by
  rw [run_bind]
  refine Prog.uses_bind hx ?_
  rintro (e | a)
  · trivial
  · exact hf a

@[simp] theorem uses_attempt (A : I.Cmd → Prop) (x : Fallible I ε α) :
    (attempt x).run.Uses A ↔ x.run.Uses A := by
  rw [run_attempt, Prog.uses_map]

section Finishes

variable {A : I.Cmd → Prop} {S : Event I → Prop}

@[simp] theorem finishes_ask (c : I.Cmd) :
    (ask c : Fallible I ε (I.Resp c)).run.Finishes A S ↔ A c :=
  ⟨And.left, fun allowed => ⟨allowed, fun _ _ => trivial⟩⟩

@[simp] theorem finishes_call (c : I.Cmd) (as : I.Resp c → Except ε α) :
    (call c as).run.Finishes A S ↔ A c :=
  ⟨And.left, fun allowed => ⟨allowed, fun _ _ => trivial⟩⟩

theorem finishes_bind {x : Fallible I ε α} {f : α → Fallible I ε β}
    (first : x.run.Finishes A S) (rest : ∀ a, (f a).run.Finishes A S) :
    (x >>= f).run.Finishes A S := by
  rw [run_bind]
  refine Prog.finishes_bind first ?_
  rintro (e | a)
  · trivial
  · exact rest a

theorem finishes_attempt {x : Fallible I ε α} (finishes : x.run.Finishes A S) :
    (attempt x).run.Finishes A S := by
  rw [run_attempt, map_eq_pure_bind]
  exact Prog.finishes_bind finishes fun _ => trivial

end Finishes

/-! ### Invariants of histories -/

/-- Every run from `h` keeps the invariant, also where it fails or stops, and a value
    that it returns satisfies `P`. -/
def Keeps (R : Rely I) (Inv : History I → Prop) (P : History I → α → Prop)
    (x : Fallible I ε α) (h : History I) : Prop :=
  Prog.wp R (fun h' out => Inv h' ∧ OnOk P h' out) x.run h

section Keeps

variable {R : Rely I} {Inv : History I → Prop} {P P' : History I → α → Prop}
  {x : Fallible I ε α} {h : History I}

/-- Compose programs that keep an invariant. -/
theorem keeps_bind {P' : History I → β → Prop} {f : α → Fallible I ε β} (hx : Keeps R Inv P x h)
    (hf : ∀ h' a, Inv h' → P h' a → Keeps R Inv P' (f a) h') : Keeps R Inv P' (x >>= f) h := by
  unfold Keeps
  rw [wp_bind]
  apply Prog.wp_mono hx
  intro h' out post
  obtain ⟨inv, ok⟩ := post
  rcases out with (e | a) | e
  · rw [Prog.andThen_done, cont_error, Prog.wp_pure]
    exact ⟨inv, trivial⟩
  · exact hf h' a inv ok
  · exact ⟨inv, trivial⟩

/-- A caught error keeps it, too. -/
theorem keeps_attempt (hx : Keeps R Inv P x h) :
    Keeps R Inv (fun h' r => ∀ a, r = .ok a → P h' a) (attempt x) h := by
  unfold Keeps
  rw [wp_attempt]
  apply Prog.wp_mono hx
  intro h' out post
  obtain ⟨inv, ok⟩ := post
  rcases out with (e | a) | e
  · rw [Prog.andThen_done, Prog.wp_pure]
    exact ⟨inv, by rintro a ⟨⟩⟩
  · rw [Prog.andThen_done, Prog.wp_pure]
    exact ⟨inv, by rintro a ⟨⟩; exact ok⟩
  · exact ⟨inv, trivial⟩

theorem keeps_mono (hx : Keeps R Inv P x h) (weaker : ∀ h' a, Inv h' → P h' a → P' h' a) :
    Keeps R Inv P' x h := by
  apply Prog.wp_mono hx
  intro h' out post
  rcases out with (e | a) | e
  · exact post
  · exact ⟨post.1, weaker h' a post.1 post.2⟩
  · exact post

theorem keeps_and (hx : Keeps R Inv P x h) (ok : Prog.wp R (OnOk P') x.run h) :
    Keeps R Inv (fun h' a => P h' a ∧ P' h' a) x h := by
  apply Prog.wp_mono (Prog.wp_and hx ok)
  intro h' out post
  obtain ⟨⟨inv, first⟩, second⟩ := post
  rcases out with (e | a) | e
  · exact ⟨inv, trivial⟩
  · exact ⟨inv, first, second⟩
  · exact ⟨inv, trivial⟩

theorem keeps_pure {a : α} (inv : Inv h) (ok : P h a) :
    Keeps R Inv P (Pure.pure a : Fallible I ε α) h := (Prog.wp_pure _ _ _ _).mpr ⟨inv, ok⟩

theorem keeps_throw (e : ε) (inv : Inv h) : Keeps R Inv P (throw e : Fallible I ε α) h :=
  (Prog.wp_pure _ _ _ _).mpr ⟨inv, trivial⟩

theorem keeps_halt (e : I.Halt) (inv : Inv h) : Keeps R Inv P (halt e : Fallible I ε α) h :=
  (Prog.wp_halt _ _ _ _).mpr ⟨inv, trivial⟩

/-- One call keeps it, if each answer does. -/
theorem keeps_call {c : I.Cmd} {as : I.Resp c → Except ε α}
    (answers : ∀ r, R h ⟨c, r⟩ → Inv (h ++ [⟨c, r⟩]) ∧ ∀ a, as r = .ok a → P (h ++ [⟨c, r⟩]) a) :
    Keeps R Inv P (call c as) h := by
  unfold Keeps
  rw [wp_call]
  intro r admitted
  obtain ⟨inv, ok⟩ := answers r admitted
  refine ⟨inv, ?_⟩
  cases result : as r with
  | ok a => exact ok a result
  | error e => trivial

theorem keeps_ask {c : I.Cmd} {P : History I → I.Resp c → Prop}
    (answers : ∀ r, R h ⟨c, r⟩ → Inv (h ++ [⟨c, r⟩]) ∧ P (h ++ [⟨c, r⟩]) r) :
    Keeps R Inv P (ask c : Fallible I ε (I.Resp c)) h := by
  unfold Keeps
  rw [wp_ask]
  exact answers

/-- A program that only issues commands the invariant does not depend on keeps it, and
    what it adds to the history is a run of it. -/
theorem keeps_of_uses {A : I.Cmd → Prop} (uses : x.run.Uses A)
    (stable : ∀ h tr, Inv h → (∀ e ∈ tr, A e.cmd) → Inv (h ++ tr)) (inv : Inv h) :
    Keeps R Inv (fun h' a => ∃ tr, h' = h ++ tr ∧ Runs x.run tr (.done (.ok a))) x h := by
  apply Prog.wp_mono (Prog.wp_and (uses.wp R h) (Prog.wp_runs R x.run h))
  rintro h' out ⟨⟨tr, rfl, allowed⟩, ran⟩
  refine ⟨stable h tr inv allowed, ?_⟩
  rcases out with (e | a) | e
  · trivial
  · exact ran
  · trivial

end Keeps

end Fallible

/-- A fallible sequence either runs both parts or ends with the first. -/
theorem runs_fallible_bind {x : Fallible I ε α} {f : α → Fallible I ε β} {tr : History I}
    {out : Outcome I (Except ε β)} :
    Runs (x >>= f).run tr out ↔
      (∃ a tr₁ tr₂, tr = tr₁ ++ tr₂ ∧ Runs x.run tr₁ (.done (.ok a)) ∧ Runs (f a).run tr₂ out) ∨
      (∃ e, out = .done (.error e) ∧ Runs x.run tr (.done (.error e))) ∨
      (∃ e, out = .halted e ∧ Runs x.run tr (.halted e)) := by
  rw [Fallible.run_bind, runs_bind]
  constructor
  · rintro (⟨r, tr₁, tr₂, rfl, h₁, h₂⟩ | hhalt)
    · cases r with
      | ok a => exact .inl ⟨a, tr₁, tr₂, rfl, h₁, h₂⟩
      | error e =>
        cases h₂ with
        | done => exact .inr (.inl ⟨e, rfl, by simpa using h₁⟩)
    · exact .inr (.inr hhalt)
  · rintro (⟨a, tr₁, tr₂, rfl, h₁, h₂⟩ | ⟨e, rfl, h₁⟩ | hhalt)
    · exact .inl ⟨.ok a, tr₁, tr₂, rfl, h₁, h₂⟩
    · exact .inl ⟨.error e, tr, [], by simp, h₁, .done _⟩
    · exact .inr hhalt

/-- An event of a history that is made of two parts lies in one of them. -/
theorem append_eq_append_cons {h₁ h₂ before after : History I} {e : Event I}
    (split : h₁ ++ h₂ = before ++ e :: after) :
    (∃ rest, h₁ = before ++ e :: rest ∧ after = rest ++ h₂) ∨
      ∃ first, before = h₁ ++ first ∧ h₂ = first ++ e :: after := by
  rcases List.append_eq_append_iff.mp split with ⟨first, before_eq, h₂_eq⟩ | ⟨rest, h₁_eq, tail_eq⟩
  · exact .inr ⟨first, before_eq, h₂_eq⟩
  · rcases List.cons_eq_append_iff.mp tail_eq with ⟨rfl, h₂_eq⟩ | ⟨rest', rfl, after_eq⟩
    · exact .inr ⟨[], by simpa using h₁_eq.symm, h₂_eq⟩
    · exact .inl ⟨rest', h₁_eq, after_eq⟩

/-! ### The shape of a run

Inversion rules: what the trace of a program looks like, from its first step on. -/

namespace Fallible

theorem runs_pure_iff {a : α} {tr : History I} {out : Outcome I α} :
    Runs (Pure.pure a : Prog I α) tr out ↔ tr = [] ∧ out = .done a := by
  constructor
  · intro hrun
    cases hrun
    exact ⟨rfl, rfl⟩
  · rintro ⟨rfl, rfl⟩
    exact .done a

/-- A sequence that returns a value has run both parts. -/
theorem runs_bind_ok {x : Fallible I ε α} {f : α → Fallible I ε β} {tr : History I} {b : β}
    (hrun : Runs (x >>= f).run tr (.done (.ok b))) :
    ∃ a tr₁ tr₂, tr = tr₁ ++ tr₂ ∧ Runs x.run tr₁ (.done (.ok a)) ∧
      Runs (f a).run tr₂ (.done (.ok b)) := by
  rcases runs_fallible_bind.mp hrun with both | ⟨e, ⟨⟩, -⟩ | ⟨e, ⟨⟩, -⟩
  exact both

theorem runs_ask_bind {c : I.Cmd} {f : I.Resp c → Fallible I ε β} {tr : History I}
    {out : Outcome I (Except ε β)} :
    Runs (ask c >>= f).run tr out ↔ ∃ r tr', tr = ⟨c, r⟩ :: tr' ∧ Runs (f r).run tr' out := by
  constructor
  · intro hrun
    cases hrun with
    | call r hrest => exact ⟨r, _, rfl, hrest⟩
  · rintro ⟨r, tr', rfl, hrest⟩
    exact .call r hrest

theorem runs_call_bind {c : I.Cmd} {as : I.Resp c → Except ε α} {f : α → Fallible I ε β}
    {tr : History I} {out : Outcome I (Except ε β)} :
    Runs (call c as >>= f).run tr out ↔
      ∃ r tr', tr = ⟨c, r⟩ :: tr' ∧ Runs (cont f (as r)) tr' out := by
  rw [run_bind]
  constructor
  · intro hrun
    cases hrun with
    | call r hrest => exact ⟨r, _, rfl, hrest⟩
  · rintro ⟨r, tr', rfl, hrest⟩
    exact .call r hrest

theorem runs_attempt_call_bind {c : I.Cmd} {as : I.Resp c → Except ε α}
    {f : Except ε α → Fallible I ε β} {tr : History I} {out : Outcome I (Except ε β)} :
    Runs (attempt (call c as) >>= f).run tr out ↔
      ∃ r tr', tr = ⟨c, r⟩ :: tr' ∧ Runs (f (as r)).run tr' out := by
  constructor
  · intro hrun
    cases hrun with
    | call r hrest => exact ⟨r, _, rfl, hrest⟩
  · rintro ⟨r, tr', rfl, hrest⟩
    exact .call r hrest

/-- A part whose error the rest looks at either returns or stops for good. -/
theorem runs_attempt_bind {x : Fallible I ε α} {f : Except ε α → Fallible I ε β} {tr : History I}
    {out : Outcome I (Except ε β)} :
    Runs (attempt x >>= f).run tr out ↔
      (∃ r tr₁ tr₂, tr = tr₁ ++ tr₂ ∧ Runs x.run tr₁ (.done r) ∧ Runs (f r).run tr₂ out) ∨
      (∃ e, out = .halted e ∧ Runs x.run tr (.halted e)) := by
  rw [run_bind, run_attempt, map_eq_pure_bind, Prog.bind_assoc, runs_bind]
  rfl

end Fallible

-- from here on `wp` is computed by its rules, never by unfolding a program
attribute [irreducible] Prog.wp

end Interact
