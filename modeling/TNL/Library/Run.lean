import Mathlib.Tactic.Common

/-!
# Runs of a partial step function

A system is a partial step function on states, indexed by actions. A run is a
finite sequence of actions, each of which is permitted by a guard in the state
it is taken from. The guard carries the side conditions of a result, so that
the step function itself stays the literal transition.
-/
namespace TNL.Library

variable {σ α : Type*}

/-- A run from `s` to `t`: every action succeeds and meets the guard. -/
inductive Run (step : σ → α → Option σ) (guard : σ → α → Prop) : σ → List α → σ → Prop where
  | nil (s : σ) : Run step guard s [] s
  | cons {s t u : σ} {a : α} {as : List α} (allowed : guard s a) (taken : step s a = some t)
      (rest : Run step guard t as u) : Run step guard s (a :: as) u

/-- The state reached by a list of actions, if every step succeeds. -/
def exec (step : σ → α → Option σ) : σ → List α → Option σ
  | s, [] => some s
  | s, a :: as => (step s a).bind (fun t => exec step t as)

theorem exec_append (step : σ → α → Option σ) (s : σ) (as bs : List α) :
    exec step s (as ++ bs) = (exec step s as).bind (fun t => exec step t bs) := by
  induction as generalizing s with
  | nil => rfl
  | cons a as ih =>
    cases h : step s a with
    | none => simp [exec, h]
    | some t => simp [exec, h, ih]

/-- The check succeeds wherever an action is taken. -/
def checked (step : σ → α → Option σ) (check : σ → α → Bool) : σ → List α → Bool
  | _, [] => true
  | s, a :: as => check s a && (step s a).all fun t => checked step check t as

namespace Run

variable {step : σ → α → Option σ} {guard : σ → α → Prop} {s t u : σ} {as bs : List α}

/-- A property preserved by every permitted step holds at the end of every run. -/
theorem invariant {I : σ → Prop}
    (preserved : ∀ s a t, I s → guard s a → step s a = some t → I t)
    (h : Run step guard s as t) (start : I s) : I t := by
  induction h with
  | nil s => exact start
  | cons allowed taken _ ih => exact ih (preserved _ _ _ start allowed taken)

/-- The invariant rule where a second invariant may be assumed along the way. -/
theorem invariant_along {I J : σ → Prop}
    (preservedJ : ∀ s a t, J s → guard s a → step s a = some t → J t)
    (preserved : ∀ s a t, J s → I s → guard s a → step s a = some t → I t)
    (h : Run step guard s as t) (startJ : J s) (start : I s) : I t := by
  have both := h.invariant (I := fun s => J s ∧ I s)
    (fun s a t hs allowed taken => ⟨preservedJ s a t hs.1 allowed taken,
      preserved s a t hs.1 hs.2 allowed taken⟩) ⟨startJ, start⟩
  exact both.2

/-- An invariant holds wherever an action of the run is taken. -/
theorem with_invariant {I : σ → Prop}
    (preserved : ∀ s a t, I s → guard s a → step s a = some t → I t)
    (h : Run step guard s as t) (start : I s) : Run step (fun s a => I s ∧ guard s a) s as t := by
  induction h with
  | nil s => exact .nil s
  | cons allowed taken _ ih =>
    exact .cons ⟨start, allowed⟩ taken (ih (preserved _ _ _ start allowed taken))

theorem mono {guard' : σ → α → Prop} (weaker : ∀ s a, guard s a → guard' s a)
    (h : Run step guard s as t) : Run step guard' s as t := by
  induction h with
  | nil s => exact .nil s
  | cons allowed taken _ ih => exact .cons (weaker _ _ allowed) taken ih

/-- Guards that agree on the steps that succeed permit the same runs. -/
theorem congr_guard {guard' : σ → α → Prop}
    (same : ∀ s a t, step s a = some t → (guard s a ↔ guard' s a)) :
    Run step guard s as t ↔ Run step guard' s as t := by
  constructor
  · intro h
    induction h with
    | nil s => exact .nil s
    | cons allowed taken _ ih => exact .cons ((same _ _ _ taken).mp allowed) taken ih
  · intro h
    induction h with
    | nil s => exact .nil s
    | cons allowed taken _ ih => exact .cons ((same _ _ _ taken).mpr allowed) taken ih

/-- Guards that agree where an invariant holds permit the same runs. -/
theorem congr_of_invariant {I : σ → Prop} {guard' : σ → α → Prop}
    (same : ∀ s a t, I s → step s a = some t → (guard s a ↔ guard' s a))
    (preserved : ∀ s a t, I s → guard' s a → step s a = some t → I t) (start : I s) :
    Run step guard s as t ↔ Run step guard' s as t := by
  constructor
  · intro h
    induction h with
    | nil s => exact .nil s
    | cons allowed taken _ ih =>
      have allowed' := (same _ _ _ start taken).mp allowed
      exact .cons allowed' taken (ih (preserved _ _ _ start allowed' taken))
  · intro h
    induction h with
    | nil s => exact .nil s
    | cons allowed taken _ ih =>
      have allowed' := (same _ _ _ start taken).mpr allowed
      exact .cons allowed' taken (ih (preserved _ _ _ start allowed taken))

theorem append (h : Run step guard s as t) (k : Run step guard t bs u) :
    Run step guard s (as ++ bs) u := by
  induction h with
  | nil s => exact k
  | cons allowed taken _ ih => exact .cons allowed taken (ih k)

theorem snoc {a : α} (h : Run step guard s as t) (allowed : guard t a) (taken : step t a = some u) :
    Run step guard s (as ++ [a]) u :=
  h.append (.cons allowed taken (.nil u))

/-- The guard held where an action of the run was taken. -/
theorem allowed_at {a : α} (h : Run step guard s (as ++ a :: bs) t) :
    ∃ u, Run step guard s as u ∧ guard u a := by
  induction as generalizing s with
  | nil =>
    cases h with
    | cons allowed taken rest => exact ⟨s, .nil s, allowed⟩
  | cons b as ih =>
    cases h with
    | cons allowed taken rest =>
      obtain ⟨u, hu, ha⟩ := ih rest
      exact ⟨u, .cons allowed taken hu, ha⟩

theorem exec_eq (h : Run step guard s as t) : exec step s as = some t := by
  induction h with
  | nil s => rfl
  | cons allowed taken _ ih => simp [exec, taken, ih]

/-- Executing a list of actions is a run if the guard permits each of them in every state. -/
theorem of_exec_of_forall (allowed : ∀ s, ∀ a ∈ as, guard s a) (h : exec step s as = some t) :
    Run step guard s as t := by
  induction as generalizing s with
  | nil =>
    obtain rfl := Option.some.inj h
    exact .nil _
  | cons a as ih =>
    obtain ⟨r, taken, rest⟩ := Option.bind_eq_some_iff.mp h
    exact .cons (allowed s a List.mem_cons_self) taken
      (ih (fun s b hb => allowed s b (List.mem_cons_of_mem a hb)) rest)

/-- Executing a list of actions is a run if a check that implies the guard succeeds. -/
theorem of_checked {check : σ → α → Bool} (allowed : ∀ s a, check s a = true → guard s a)
    (hchecked : checked step check s as = true) (h : exec step s as = some t) :
    Run step guard s as t := by
  induction as generalizing s with
  | nil =>
    obtain rfl := Option.some.inj h
    exact .nil _
  | cons a as ih =>
    obtain ⟨r, taken, rest⟩ := Option.bind_eq_some_iff.mp h
    rw [checked, taken, Option.all_some, Bool.and_eq_true] at hchecked
    exact .cons (allowed s a hchecked.1) taken (ih hchecked.2 rest)

/-- Executing a list of actions is a run when no guard restricts it. -/
theorem of_exec (h : exec step s as = some t) : Run step (fun _ _ => True) s as t :=
  of_exec_of_forall (fun _ _ _ => trivial) h

end Run

end TNL.Library
