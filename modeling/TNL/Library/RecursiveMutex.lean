import Mathlib.Logic.Function.Basic
import Mathlib.Tactic.Common

/-!
# Mutexes that a thread may lock again

A thread that holds the mutex may lock it once more, and the other threads have to wait until it
has unlocked it as many times. A thread that does not hold the mutex must not unlock it.
-/
namespace TNL.Library

variable {τ : Type*} [DecidableEq τ]

/-- The thread that holds the mutex, and how many times it has locked it again. -/
structure RecursiveMutex (τ : Type*) where
  owner : Option (τ × ℕ)
  deriving DecidableEq

namespace RecursiveMutex

variable {m m' : RecursiveMutex τ} {t u : τ}

def free : RecursiveMutex τ := ⟨none⟩

def lock (m : RecursiveMutex τ) (t : τ) : Option (RecursiveMutex τ) :=
  match m.owner with
  | none => some ⟨some (t, 0)⟩
  | some (u, n) => if u = t then some ⟨some (t, n + 1)⟩ else none

def unlock (m : RecursiveMutex τ) (t : τ) : Option (RecursiveMutex τ) :=
  match m.owner with
  | none => none
  | some (u, 0) => if u = t then some free else none
  | some (u, n + 1) => if u = t then some ⟨some (t, n)⟩ else none

/-- How many times a thread has to unlock the mutex. -/
def depth (m : RecursiveMutex τ) (t : τ) : ℕ :=
  match m.owner with
  | none => 0
  | some (u, n) => if u = t then n + 1 else 0

@[simp] theorem depth_free (t : τ) : (free : RecursiveMutex τ).depth t = 0 := rfl

@[simp] theorem depth_mk (u t : τ) (n : ℕ) :
    (mk (some (u, n))).depth t = if u = t then n + 1 else 0 := rfl

@[simp] theorem lock_mk (u t : τ) (n : ℕ) :
    (mk (some (u, n))).lock t = if u = t then some ⟨some (t, n + 1)⟩ else none := rfl

theorem depth_eq_zero (h : 0 < m.depth t) (hne : u ≠ t) : m.depth u = 0 := by
  rcases m with ⟨_ | ⟨v, n⟩⟩
  · rfl
  · rw [depth_mk] at h ⊢
    by_cases hv : v = t
    · rw [if_neg (hv ▸ hne.symm)]
    · rw [if_neg hv] at h
      exact absurd h (Nat.lt_irrefl 0)

/-- The mutex excludes: no two threads hold it. -/
theorem eq_of_depth_pos (ht : 0 < m.depth t) (hu : 0 < m.depth u) : t = u := by
  by_contra hne
  rw [depth_eq_zero hu hne] at ht
  exact Nat.lt_irrefl 0 ht

theorem depth_lock (h : m.lock t = some m') :
    m'.depth = Function.update m.depth t (m.depth t + 1) := by
  funext u
  rcases m with ⟨_ | ⟨v, n⟩⟩
  · obtain rfl := Option.some.inj h
    by_cases hu : u = t
    · subst hu
      simp [depth]
    · simp [depth, Function.update_of_ne hu, Ne.symm hu]
  · rw [lock_mk] at h
    split_ifs at h with hv
    obtain rfl := Option.some.inj h
    subst hv
    by_cases hu : u = v
    · subst hu
      simp
    · simp [Function.update_of_ne hu, Ne.symm hu]

theorem depth_unlock (h : m.unlock t = some m') :
    0 < m.depth t ∧ m'.depth = Function.update m.depth t (m.depth t - 1) := by
  rcases m with ⟨_ | ⟨v, _ | n⟩⟩
  · cases h
  all_goals
    dsimp only [unlock] at h
    split_ifs at h with hv
    obtain rfl := Option.some.inj h
    subst hv
    refine ⟨by simp, funext fun u => ?_⟩
    by_cases hu : u = v
    · subst hu
      simp
    · simp [Function.update_of_ne hu, Ne.symm hu]

/-- A thread can lock the mutex unless another one holds it. -/
theorem isSome_lock_iff : (m.lock t).isSome ↔ ∀ u, u ≠ t → m.depth u = 0 := by
  rcases m with ⟨_ | ⟨v, n⟩⟩
  · exact iff_of_true rfl fun u _ => rfl
  · rw [lock_mk]
    by_cases hv : v = t
    · subst hv
      rw [if_pos rfl]
      exact iff_of_true rfl fun u hu => if_neg hu.symm
    · rw [if_neg hv]
      refine iff_of_false Bool.false_ne_true fun h => ?_
      have hzero := h v hv
      rw [depth_mk, if_pos rfl] at hzero
      exact Nat.succ_ne_zero n hzero

theorem isSome_unlock (h : 0 < m.depth t) : (m.unlock t).isSome := by
  rcases m with ⟨_ | ⟨v, n⟩⟩
  · exact absurd h (Nat.lt_irrefl 0)
  · rw [depth_mk] at h
    by_cases hv : v = t
    · subst hv
      cases n <;> simp [unlock]
    · rw [if_neg hv] at h
      exact absurd h (Nat.lt_irrefl 0)

end RecursiveMutex

end TNL.Library
