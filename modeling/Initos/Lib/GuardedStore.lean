import Mathlib.Data.List.Induction
import Mathlib.Logic.Function.Basic

/-!
# Guarded stores

A store whose entries are bound to a condition: an entry is put under the condition of the
moment, and can be read only while that condition holds. Conditions change, and old ones may
come back. Somebody else may meddle, and leave any entry or none under a key.

`Refines` says that the steps of some system are steps of a guarded store. It is enough to
trace what can be read, under a key that nobody else meddles with, back to the step that put it.
-/

namespace GuardedStore

open Function (update)

variable {K C V : Type}

/-- Entries, each with the context it was made in, and the present context. -/
structure Store (K C V : Type) where
  entries : K → Option (C × V)
  current : C

/-- What can happen to a store. -/
inductive Op (K C V : Type) where
  | put (k : K) (v : V)
  | drop (k : K)
  | shift (c : C)
  /-- The work of another hand. -/
  | meddle (k : K) (entry : Option (C × V))

/-- The entry can be read now. -/
def Store.Reads (s : Store K C V) (k : K) (v : V) : Prop := s.entries k = some (s.current, v)

/-! ## Step after step -/

variable {σ A : Type}

/-- The step relation along a list of actions. -/
def Steps (step : σ → A → σ → Prop) : σ → List A → σ → Prop
  | s, [], s' => s' = s
  | s, a :: rest, s' => ∃ m, step s a m ∧ Steps step m rest s'

theorem steps_append {step : σ → A → σ → Prop} {s s' : σ} {as bs : List A} :
    Steps step s (as ++ bs) s' ↔ ∃ m, Steps step s as m ∧ Steps step m bs s' := by
  induction as generalizing s with
  | nil => simp [Steps]
  | cons a as ih =>
    constructor
    · rintro ⟨m, first, rest⟩
      obtain ⟨m', before, after⟩ := ih.mp rest
      exact ⟨m', ⟨m, first, before⟩, after⟩
    · rintro ⟨m', ⟨m, first, before⟩, after⟩
      exact ⟨m, first, ih.mpr ⟨m', before, after⟩⟩

theorem steps_singleton {step : σ → A → σ → Prop} {s s' : σ} {a : A} :
    Steps step s [a] s' ↔ step s a s' := by
  constructor
  · rintro ⟨m, first, rfl⟩
    exact first
  · intro first
    exact ⟨s', first, rfl⟩

/-- One of the steps has put the entry, and none after it has replaced or dropped it. -/
inductive Origin (step : σ → A → σ → Prop) (abs : σ → Store K C V) (puts : A → K → V → Prop)
    (completes : A → K → Prop) (s s' : σ) (k : K) (c : C) (v : V) : List A → Prop where
  | intro {before after : List A} {a : A} {m m' : σ} (led : Steps step s before m)
      (put : step m a m') (follows : Steps step m' after s') (is_put : puts a k v)
      (under : (abs m).current = c) (last : ∀ a ∈ after, ¬completes a k) :
      Origin step abs puts completes s s' k c v (before ++ a :: after)

section

variable {step : σ → A → σ → Prop} {abs : σ → Store K C V} {puts : A → K → V → Prop}
  {completes : A → K → Prop} {s s' : σ} {as : List A} {k : K} {c : C} {v : V}

theorem Origin.mem (origin : Origin step abs puts completes s s' k c v as) :
    ∃ a ∈ as, puts a k v := by
  cases origin with
  | intro _ _ _ is_put =>
    exact ⟨_, List.mem_append_right _ List.mem_cons_self, is_put⟩

theorem Origin.concat {a : A} {m : σ} (origin : Origin step abs puts completes s m k c v as)
    (next : step m a s') (incomplete : ¬completes a k) :
    Origin step abs puts completes s s' k c v (as ++ [a]) := by
  cases origin with
  | intro led put follows is_put under last =>
    rw [List.append_assoc, List.cons_append]
    refine .intro led put (steps_append.mpr ⟨m, follows, steps_singleton.mpr next⟩) is_put under ?_
    exact List.forall_mem_append.mpr ⟨last, List.forall_mem_singleton.mpr incomplete⟩

end

/-! ## The operations -/

variable [DecidableEq K]

/-- The store after an operation. -/
def Store.apply (s : Store K C V) : Op K C V → Store K C V
  | .put k v => { s with entries := update s.entries k (some (s.current, v)) }
  | .drop k => { s with entries := update s.entries k none }
  | .shift c => { s with current := c }
  | .meddle k entry => { s with entries := update s.entries k entry }

namespace Store

variable {s : Store K C V} {op : Op K C V} {k : K} {c : C} {v : V}

/-- An entry is as it was before, or it has just been put, by whichever hand. -/
theorem entries_apply (held : (s.apply op).entries k = some (c, v)) :
    s.entries k = some (c, v) ∨ op = .put k v ∧ s.current = c ∨ ∃ entry, op = .meddle k entry := by
  cases op with
  | put k' v' =>
    simp only [apply] at held
    by_cases same : k = k'
    · subst same
      rw [Function.update_self, Option.some.injEq, Prod.mk.injEq] at held
      obtain ⟨rfl, rfl⟩ := held
      exact .inr (.inl ⟨rfl, rfl⟩)
    · rw [Function.update_of_ne same] at held
      exact .inl held
  | drop k' =>
    simp only [apply] at held
    by_cases same : k = k'
    · subst same
      rw [Function.update_self] at held
      cases held
    · rw [Function.update_of_ne same] at held
      exact .inl held
  | shift c' => exact .inl held
  | meddle k' entry =>
    by_cases same : k = k'
    · exact .inr (.inr ⟨entry, same ▸ rfl⟩)
    · simp only [apply] at held
      rw [Function.update_of_ne same] at held
      exact .inl held

end Store

/-! ## Systems that are guarded stores -/

/-- Every step of the system is a step of the store, or changes nothing in it. What a step may
    put is said by `puts`, and under which keys it is somebody else's by `meddles`; one of which
    `completes` is true has put something or has dropped what was there. -/
structure Refines (step : σ → A → σ → Prop) (abs : σ → Store K C V) (puts : A → K → V → Prop)
    (meddles completes : A → K → Prop) : Prop where
  explained : ∀ {s a s'}, step s a s' → abs s' = abs s ∨ ∃ op, abs s' = (abs s).apply op ∧
    (∀ k v, op = .put k v → puts a k v) ∧ ∀ k entry, op = .meddle k entry → meddles a k
  completed : ∀ {s a s' k}, step s a s' → completes a k →
    (∃ v, puts a k v ∧ abs s' = (abs s).apply (.put k v)) ∨ abs s' = (abs s).apply (.drop k)

namespace Refines

variable {step : σ → A → σ → Prop} {abs : σ → Store K C V} {puts : A → K → V → Prop}
  {meddles completes : A → K → Prop} {s s' : σ} {as : List A} {k : K} {c : C} {v : V}

/-- Where nobody meddles, an entry has been there from the start, or there is a step that has put
    it; nothing has been put in its place since. -/
theorem exists_origin (refines : Refines step abs puts meddles completes)
    (alone : ∀ a ∈ as, ¬meddles a k) (steps : Steps step s as s')
    (held : (abs s').entries k = some (c, v)) :
    ((abs s).entries k = some (c, v) ∧ ∀ a ∈ as, ¬completes a k) ∨
      Origin step abs puts completes s s' k c v as := by
  -- the last step first: it has put the entry, or it has found it there
  induction as using List.reverseRecOn generalizing s' with
  | nil =>
    cases steps
    exact .inl ⟨held, List.forall_mem_nil _⟩
  | append_singleton as a ih =>
    obtain ⟨m, before, last⟩ := steps_append.mp steps
    rw [steps_singleton] at last
    rw [List.forall_mem_append, List.forall_mem_singleton] at alone
    have here : puts a k v → (abs m).current = c →
        Origin step abs puts completes s s' k c v (as ++ [a]) := fun put under =>
      .intro before last rfl put under (List.forall_mem_nil _)
    by_cases complete : completes a k
    · rcases refines.completed last complete with ⟨v', put, after⟩ | after
      · simp only [after, Store.apply, Function.update_self, Option.some.injEq,
          Prod.mk.injEq] at held
        obtain ⟨under, rfl⟩ := held
        exact .inr (here put under)
      · simp only [after, Store.apply, Function.update_self] at held
        cases held
    have found : (abs m).entries k = some (c, v) ∨ puts a k v ∧ (abs m).current = c := by
      rcases refines.explained last with same | ⟨op, after, put, meddled⟩
      · exact .inl (same ▸ held)
      · rw [after] at held
        rcases Store.entries_apply held with there | ⟨isPut, under⟩ | ⟨entry, isMeddle⟩
        · exact .inl there
        · exact .inr ⟨put k v isPut, under⟩
        · exact absurd (meddled k entry isMeddle) alone.2
    rcases found with found | ⟨put, under⟩
    · rcases ih alone.1 before found with ⟨there, untouched⟩ | origin
      · refine .inl ⟨there, List.forall_mem_append.mpr ⟨untouched, ?_⟩⟩
        exact List.forall_mem_singleton.mpr complete
      · exact .inr (origin.concat last complete)
    · exact .inr (here put under)

end Refines

end GuardedStore
