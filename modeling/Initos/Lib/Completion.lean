import Initos.Lib.Pool

/-!
# What a script has done when it completes

A script that comes to its end with no command failed has run all of its lines. `Ends` proves
what holds then, line by line, while the steps of others, within `R`, come in between. Where all
steps of a pool are known to be within some relation, `Effects.within` lets the proof use it for
the process's own steps as well.
-/

namespace Script

variable {Cmd Test σ : Type}

/-- The process has run all lines, and none has failed. -/
def completed : Proc Cmd Test := ⟨[], [], none⟩

/-- From here on, `Q` holds if the process completes. -/
inductive Ends (E : Effects Cmd Test σ) (R : σ → σ → Prop) (Q : σ → Prop) :
    Proc Cmd Test → σ → Prop where
  | failed {p w} : p.failed ≠ none → Ends E R Q p w
  | exit {w} : (∀ x, Relation.ReflTransGen R w x → Q x) → Ends E R Q completed w
  | run {c rest trap w} :
      (∀ x y, During E R c w x → E.whole c x y → Ends E R Q ⟨rest, trap, none⟩ y) →
      Ends E R Q ⟨.run c :: rest, trap, none⟩ w
  | setTrap {cs rest trap w} :
      (∀ x, Relation.ReflTransGen R w x → Ends E R Q ⟨rest, cs, none⟩ x) →
      Ends E R Q ⟨.trap cs :: rest, trap, none⟩ w
  | cond {t yes no rest trap w} :
      (∀ x, Relation.ReflTransGen R w x → E.test t x → Ends E R Q ⟨yes ++ rest, trap, none⟩ x) →
      (∀ x, Relation.ReflTransGen R w x → ¬E.test t x → Ends E R Q ⟨no ++ rest, trap, none⟩ x) →
      Ends E R Q ⟨.cond t yes no :: rest, trap, none⟩ w

section Steps

variable {E : Effects Cmd Test σ} {R : σ → σ → Prop} {Q : σ → Prop} {p p' : Proc Cmd Test}
  {w w' : σ}

theorem Ends.holds (ends : Ends E R Q completed w) : Q w := by
  cases ends with
  | failed some => exact absurd rfl some
  | exit holds => exact holds w .refl

theorem Ends.env (ends : Ends E R Q p w) (step : R w w') : Ends E R Q p w' := by
  cases ends with
  | failed some => exact .failed some
  | exit holds => exact .exit fun x steps => holds x (.head step steps)
  | run next => exact .run fun x y steps => next x y (.head (.inl step) steps)
  | setTrap next => exact .setTrap fun x steps => next x (.head step steps)
  | cond yes no =>
    exact .cond (fun x steps => yes x (.head step steps)) (fun x steps => no x (.head step steps))

/-- A failure stays. -/
theorem failed_of_step (step : Step E (p, w) (p', w')) (some : p.failed ≠ none) :
    p'.failed ≠ none := by
  cases step with
  | fail =>
    intro nothing
    exact some (Option.or_eq_none_iff.mp nothing).1
  | _ => exact some

theorem Ends.step (ends : Ends E R Q p w) (step : Step E (p, w) (p', w')) :
    Ends E R Q p' w' := by
  by_cases some : p.failed ≠ none
  · exact .failed (failed_of_step step some)
  cases step with
  | part part =>
    cases ends with
    | failed known => exact absurd known some
    | run next => exact .run fun x y steps => next x y (.head (.inr part) steps)
  | whole whole =>
    cases ends with
    | failed known => exact absurd known some
    | run next => exact next _ _ .refl whole
  | setTrap =>
    cases ends with
    | failed known => exact absurd known some
    | setTrap next => exact next _ .refl
  | yes holds =>
    cases ends with
    | failed known => exact absurd known some
    | cond yes _ => exact yes _ .refl holds
  | no fails =>
    cases ends with
    | failed known => exact absurd known some
    | cond _ no => exact no _ .refl fails
  | fail => exact .failed (by simp)
  | exit trapped =>
    cases ends with
    | failed known => exact absurd known some
    | exit _ => exact absurd rfl trapped

end Steps

section Rules

variable {E : Effects Cmd Test σ} {R : σ → σ → Prop} {trap : List Cmd} {P Q S : σ → Prop}
  {lines more yes no : List (Line Cmd Test)}

/-- Lines that, where they are all run, lead from `P` to `Q`. -/
def Leads (E : Effects Cmd Test σ) (R : σ → σ → Prop) (trap : List Cmd) (P : σ → Prop)
    (lines : List (Line Cmd Test)) (Q : σ → Prop) : Prop :=
  ∀ (T : σ → Prop) rest w, P w → (∀ x, Q x → Ends E R T ⟨rest, trap, none⟩ x) →
    Ends E R T ⟨lines ++ rest, trap, none⟩ w

theorem Leads.nil (impl : ∀ x, P x → Q x) : Leads E R trap P [] Q :=
  fun _ _ w holds next => next w (impl w holds)

theorem Leads.mono (leads : Leads E R trap P lines Q) {P' : σ → Prop} (before : ∀ x, P' x → P x)
    (after : ∀ x, Q x → S x) : Leads E R trap P' lines S :=
  fun T rest w holds next => leads T rest w (before w holds) fun x done => next x (after x done)

theorem Leads.run {c : Cmd} (env : ∀ x y, P x → R x y → P y)
    (part : ∀ x y, P x → E.part c x y → P y) (whole : ∀ x y, P x → E.whole c x y → Q y) :
    Leads E R trap P [.run c] Q := by
  intro T rest w holds next
  refine .run fun x y steps done => next y (whole x y ?_ done)
  refine stable_star (fun x y holds step => ?_) holds steps
  rcases step with other | own
  · exact env x y holds other
  · exact part x y holds own

theorem Leads.cond {t : Test} (env : ∀ x y, P x → R x y → P y)
    (onYes : Leads E R trap (fun x => P x ∧ E.test t x) yes Q)
    (onNo : Leads E R trap (fun x => P x ∧ ¬E.test t x) no Q) :
    Leads E R trap P [.cond t yes no] Q := by
  intro T rest w holds next
  refine .cond (fun x steps test => ?_) (fun x steps test => ?_)
  · exact onYes T rest x ⟨stable_star env holds steps, test⟩ next
  · exact onNo T rest x ⟨stable_star env holds steps, test⟩ next

theorem Leads.append (first : Leads E R trap P lines Q) (second : Leads E R trap Q more S) :
    Leads E R trap P (lines ++ more) S := by
  intro T rest w holds next
  rw [List.append_assoc]
  exact first T _ w holds fun x after => second T rest x after next

theorem Leads.cons {line : Line Cmd Test} (first : Leads E R trap P [line] Q)
    (second : Leads E R trap Q lines S) : Leads E R trap P (line :: lines) S :=
  first.append second

/-- Lines that leave the trap as it is. -/
def untrapped : List (Line Cmd Test) → Bool
  | [] => true
  | .run _ :: rest => untrapped rest
  | .trap _ :: _ => false
  | .cond _ yes no :: rest => untrapped yes && untrapped no && untrapped rest

/-- What no step can end holds after any such lines. -/
theorem Leads.keep (env : ∀ x y, P x → R x y → P y) (part : ∀ c x y, P x → E.part c x y → P y)
    (whole : ∀ c x y, P x → E.whole c x y → P y) (lines : List (Line Cmd Test))
    (untrapped : untrapped lines = true) : Leads E R trap P lines P := by
  fun_induction Script.untrapped lines with
  | case1 => exact .nil fun _ holds => holds
  | case2 c rest ih => exact .cons (.run env (part c) (whole c)) (ih untrapped)
  | case3 => cases untrapped
  | case4 t yes no rest ihYes ihNo ih =>
    simp only [Bool.and_eq_true] at untrapped
    refine .cons (.cond env ?_ ?_) (ih untrapped.2)
    · exact (ihYes untrapped.1.1).mono (fun _ both => both.1) fun _ holds => holds
    · exact (ihNo untrapped.1.2).mono (fun _ both => both.1) fun _ holds => holds

/-- The lines set the trap, run under it, and give it up at the end. -/
theorem Leads.ends_trap {cs : List Cmd} {w : σ} (env : ∀ x y, P x → R x y → P y)
    (env' : ∀ x y, Q x → R x y → Q y) (body : Leads E R cs P lines Q) (holds : P w)
    (next : ∀ x, Q x → Ends E R S ⟨more, [], none⟩ x) :
    Ends E R S ⟨.trap cs :: (lines ++ .trap [] :: more), trap, none⟩ w := by
  refine .setTrap fun x steps => ?_
  refine body S _ x (stable_star env holds steps) fun y after => ?_
  exact .setTrap fun z steps => next z (stable_star env' after steps)

end Rules

section Pools

variable {E : Effects Cmd Test σ} {K : σ → σ → Prop}

/-- The effects, where every change is known to be within `K`. -/
def Effects.within (E : Effects Cmd Test σ) (K : σ → σ → Prop) : Effects Cmd Test σ where
  part c w w' := E.part c w w' ∧ K w w'
  whole c w w' := E.whole c w w' ∧ K w w'
  test := E.test

theorem step_within (same : ∀ w, K w w) {p p' : Proc Cmd Test} {w w' : σ}
    (step : Step E (p, w) (p', w')) (known : w' = w ∨ K w w') :
    Step (E.within K) (p, w) (p', w') := by
  have known : K w w' := known.elim (fun unchanged => unchanged ▸ same w) id
  cases step with
  | part part => exact .part ⟨part, known⟩
  | whole whole => exact .whole ⟨whole, known⟩
  | setTrap => exact .setTrap
  | yes holds => exact .yes holds
  | no fails => exact .no fails
  | fail => exact .fail
  | exit trapped => exact .exit trapped

variable {Starts Starts' : Nat → List (Line Cmd Test) → Prop} {R G : Nat → σ → σ → Prop}
  {I Q : σ → Prop} {s s' : Pool Cmd Test σ}

theorem PoolReaches.weaken (weaker : ∀ n script, Starts n script → Starts' n script)
    (reaches : PoolReaches E Starts s s') : PoolReaches E Starts' s s' := by
  refine Relation.ReflTransGen.mono (fun s s' step => ?_) _ _ reaches
  cases step with
  | start free starts => exact .start free (weaker _ _ starts)
  | act found step => exact .act found step
  | kill => exact .kill

/-- If process `n` completes in a pool, it has done what its script leads to. -/
theorem Sheltered.completed {n : Nat} (within : ∀ m n w w', m ≠ n → G m w w' → R n w w')
    (keeps : ∀ n w w', G n w w' → I w')
    (guarded : ∀ n script w, Starts n script → I w → Guarded E (R n) (G n) (start script) w)
    (same : ∀ w, K w w) (known : ∀ n w w', G n w w' → K w w')
    (ends : ∀ script w, Starts n script → I w → Ends (E.within K) K Q (start script) w)
    (sheltered : Sheltered E R G I s) (free : s.procs n = none)
    (reaches : PoolReaches E Starts s s') (done : s'.procs n = some Script.completed) :
    Q s'.world := by
  suffices always : Sheltered E R G I s' ∧
      ∀ p, s'.procs n = some p → Ends (E.within K) K Q p s'.world from (always.2 _ done).holds
  clear done
  induction reaches with
  | refl => exact ⟨sheltered, fun _ found => absurd (free.symm.trans found) nofun⟩
  | @tail s s' _ step ih =>
    obtain ⟨sheltered, running⟩ := ih
    obtain ⟨after, change⟩ := sheltered.step within keeps guarded step
    have change : s'.world = s.world ∨ K s.world s'.world :=
      change.imp id fun promised => promised.elim fun m promise => known m _ _ promise
    refine ⟨after, fun p found => ?_⟩
    have waiting (found : s.procs n = some p) : Ends (E.within K) K Q p s'.world := by
      rcases change with unchanged | changed
      · rw [unchanged]
        exact running p found
      · exact (running p found).env changed
    cases step with
    | start _ starts =>
      rcases eq_or_of_update found with ⟨rfl, started⟩ | ⟨_, found⟩
      · obtain rfl := Option.some_inj.mp started
        exact ends _ _ starts sheltered.1
      · exact waiting found
    | act found' step =>
      rcases eq_or_of_update found with ⟨rfl, acted⟩ | ⟨_, found⟩
      · obtain rfl := Option.some_inj.mp acted
        exact (running _ found').step (step_within same step change)
      · exact waiting found
    | kill =>
      rcases eq_or_of_update found with ⟨_, killed⟩ | ⟨_, found⟩
      · exact absurd killed nofun
      · exact waiting found

end Pools

end Script
