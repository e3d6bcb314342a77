import Initos.Lib.Interact

/-!
# Programs that always return

`Prog.OnDone` and `Fallible.OnOk` ask nothing of the runs that stop or fail. `Prog.Delivers` and
`Fallible.Yields` leave no such runs: under the answers that the rely admits, the program returns,
and returns a value.
-/

namespace Interact

variable {I : Iface} {α β ε : Type}

namespace Prog

/-- The run returns, with a result for which `P` holds. -/
def Delivers (P : History I → α → Prop) : History I → Outcome I α → Prop
  | h, .done a => P h a
  | _, .halted _ => False

section

variable {R : Rely I} {p : Prog I α} {f : α → Prog I β} {P Q : History I → α → Prop}
  {P' : History I → β → Prop} {h : History I}

theorem delivers_mono (hp : wp R (Delivers P) p h) (weaker : ∀ h' a, P h' a → Q h' a) :
    wp R (Delivers Q) p h := by
  refine wp_mono hp fun h' out post => ?_
  cases out with
  | done a => exact weaker h' a post
  | halted e => exact post

theorem delivers_bind (hp : wp R (Delivers P) p h)
    (next : ∀ h' a, P h' a → wp R (Delivers P') (f a) h') : wp R (Delivers P') (p >>= f) h := by
  rw [wp_bind]
  refine wp_mono hp fun h' out post => ?_
  cases out with
  | done a => exact next h' a post
  | halted e => exact post

theorem delivers_perform_bind {c : I.Cmd} {f : I.Resp c → Prog I β}
    (next : ∀ r, R h ⟨c, r⟩ → wp R (Delivers P') (f r) (h ++ [⟨c, r⟩])) :
    wp R (Delivers P') (perform c >>= f) h := by
  rw [wp_bind, wp_perform]
  exact next

/-- What is known of the runs that return is known of all. -/
theorem delivers_and (hp : wp R (Delivers P) p h) (hq : wp R (OnDone Q) p h) :
    wp R (Delivers fun h' a => P h' a ∧ Q h' a) p h := by
  refine wp_mono (wp_and hp hq) fun h' out post => ?_
  cases out with
  | done a => exact post
  | halted e => exact post.1

/-- A frame that holds however the run ends. -/
theorem delivers_frame {F : History I → Prop} (hp : wp R (Delivers P) p h)
    (frame : wp R (fun h' _ => F h') p h) : wp R (Delivers fun h' a => P h' a ∧ F h') p h := by
  refine delivers_and hp (wp_mono frame fun h' out post => ?_)
  cases out with
  | done a => exact post
  | halted e => trivial

theorem exists_of_delivers {tr : History I} {out : Outcome I α} (hp : wp R (Delivers P) p h)
    (run : Runs p tr out) (admitted : Admits R h tr) : ∃ a, out = .done a ∧ P (h ++ tr) a := by
  have post := (wp_iff_runs _ _ _ _).mp hp tr out run admitted
  cases out with
  | done a => exact ⟨a, rfl, post⟩
  | halted e => exact post.elim

end

/-- An environment that keeps an invariant of the history need only answer well under it. -/
theorem admits_exec_inv {R : Rely I} {env : History I → (c : I.Cmd) → I.Resp c}
    {Inv : History I → Prop} (keeps : ∀ h c, Inv h → Inv (h ++ [⟨c, env h c⟩]))
    (answers : ∀ h c, Inv h → R h ⟨c, env h c⟩) (p : Prog I α) {h : History I} (inv : Inv h) :
    Admits R h (p.exec env h).1 ∧ Inv (h ++ (p.exec env h).1) := by
  induction p generalizing h with
  | pure a => exact ⟨trivial, by rwa [exec, List.append_nil]⟩
  | halt e => exact ⟨trivial, by rwa [exec, List.append_nil]⟩
  | call c k ih =>
    obtain ⟨admits, after⟩ := ih (env h c) (keeps h c inv)
    refine ⟨⟨answers h c inv, admits⟩, ?_⟩
    rwa [List.append_assoc] at after

end Prog

namespace Fallible

/-- The run returns a value for which `P` holds. -/
def Yields (P : History I → α → Prop) : History I → Outcome I (Except ε α) → Prop :=
  Prog.Delivers fun h r => ∃ a, r = .ok a ∧ P h a

section

variable {R : Rely I} {x : Fallible I ε α} {f : α → Fallible I ε β} {P Q : History I → α → Prop}
  {P' : History I → β → Prop} {h : History I}

theorem yields_bind (hx : Prog.wp R (Yields P) x.run h)
    (next : ∀ h' a, P h' a → Prog.wp R (Yields P') (f a).run h') :
    Prog.wp R (Yields P') (x >>= f).run h := by
  rw [run_bind]
  refine Prog.delivers_bind hx ?_
  rintro h' _ ⟨a, rfl, post⟩
  exact next h' a post

theorem yields_pure {a : α} (post : P h a) :
    Prog.wp R (Yields P) (pure a : Fallible I ε α).run h := by
  rw [run_pure, Prog.wp_pure]
  exact ⟨a, rfl, post⟩

theorem yields_call {c : I.Cmd} {as : I.Resp c → Except ε α}
    (answers : ∀ r, R h ⟨c, r⟩ → ∃ a, as r = .ok a ∧ P (h ++ [⟨c, r⟩]) a) :
    Prog.wp R (Yields P) (call c as).run h := by
  rw [wp_call]
  exact answers

theorem yields_ask_bind {c : I.Cmd} {f : I.Resp c → Fallible I ε β}
    (next : ∀ r, R h ⟨c, r⟩ → Prog.wp R (Yields P') (f r).run (h ++ [⟨c, r⟩])) :
    Prog.wp R (Yields P') (ask c >>= f).run h := by
  rw [wp_ask_bind]
  exact next

theorem yields_frame {F : History I → Prop} (hx : Prog.wp R (Yields P) x.run h)
    (frame : Prog.wp R (fun h' _ => F h') x.run h) :
    Prog.wp R (Yields fun h' a => P h' a ∧ F h') x.run h := by
  refine Prog.delivers_mono (Prog.delivers_frame hx frame) ?_
  rintro h' _ ⟨⟨a, rfl, post⟩, framed⟩
  exact ⟨a, rfl, post, framed⟩

/-- A caller that looks at the result sees a value. -/
theorem delivers_run_bind {f : Except ε α → Prog I β} (hx : Prog.wp R (Yields P) x.run h)
    (next : ∀ h' a, P h' a → Prog.wp R (Prog.Delivers P') (f (.ok a)) h') :
    Prog.wp R (Prog.Delivers P') (x.run >>= f) h := by
  refine Prog.delivers_bind hx ?_
  rintro h' _ ⟨a, rfl, post⟩
  exact next h' a post

end

end Fallible

end Interact
