import Mathlib.Tactic.Common

/-!
# Mutexes that are not reentrant

A call is given the mutexes that the calls around it hold. A call that locks one of these waits for
its own caller and has no result. The mutex is released when the call returns.
-/
namespace TNL.Library

variable {μ σ α : Type*} [DecidableEq μ] {m : μ} {held : List μ}

/-- Run the body with the mutex locked. -/
def locked (held : List μ) (m : μ) (body : List μ → Option α) : Option α :=
  if m ∈ held then none else body (m :: held)

theorem locked_of_mem (h : m ∈ held) (body : List μ → Option α) : locked held m body = none :=
  if_pos h

theorem locked_of_notMem (h : m ∉ held) (body : List μ → Option α) :
    locked held m body = body (m :: held) := if_neg h

/-- A loop over calls that lock a mutex that is held already can only be an empty one. -/
theorem foldlM_locked_of_mem (h : m ∈ held) (f : σ → α → List μ → Option σ) (s : σ)
    (l : List α) : l.foldlM (fun s a => locked held m (f s a)) s = if l = [] then some s else none := by
  cases l with
  | nil => rfl
  | cons a l =>
    rw [List.foldlM_cons, locked_of_mem h]
    rfl

end TNL.Library
