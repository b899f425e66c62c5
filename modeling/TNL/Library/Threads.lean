import TNL.Library.RecursiveMutex
import TNL.Library.Run
import TNL.Library.Weight
import Mathlib.Algebra.Order.BigOperators.Group.Finset

/-!
# Threads with a stack each

Threads share data, and each of them has a stack of frames of which it runs the first one. One
transition replaces that frame by others and changes the shared data. What the frames of all
threads weigh together changes by what the transition puts in place of the frame, so that a
relation between the weights and the shared data is an invariant if every transition keeps it.
-/
namespace TNL.Library

open scoped BigOperators

structure Threads (τ σ φ : Type*) where
  shared : σ
  stack : τ → List φ

namespace Threads

variable {τ σ φ α : Type*} [DecidableEq τ] {s s' : Threads τ σ φ} {t : τ} {a : α}

/-- A thread takes the transition of its first frame. -/
def step (next : τ → σ → φ → α → Option (σ × List φ)) (s : Threads τ σ φ) (a : τ × α) :
    Option (Threads τ σ φ) :=
  match s.stack a.1 with
  | [] => none
  | f :: fs => (next a.1 s.shared f a.2).map fun r =>
      ⟨r.1, Function.update s.stack a.1 (r.2 ++ fs)⟩

variable {next : τ → σ → φ → α → Option (σ × List φ)}

theorem step_cases (h : step next s (t, a) = some s') :
    ∃ f fs d gs, s.stack t = f :: fs ∧ next t s.shared f a = some (d, gs) ∧
      s' = ⟨d, Function.update s.stack t (gs ++ fs)⟩ := by
  dsimp only [step] at h
  cases hstack : s.stack t with
  | nil =>
    rw [hstack] at h
    cases h
  | cons f fs =>
    rw [hstack] at h
    obtain ⟨⟨d, gs⟩, hnext, rfl⟩ := Option.map_eq_some_iff.mp h
    exact ⟨f, fs, d, gs, rfl, hnext, rfl⟩

theorem isSome_step {f : φ} {fs : List φ} (hstack : s.stack t = f :: fs) :
    (step next s (t, a)).isSome = (next t s.shared f a).isSome := by
  dsimp only [step]
  rw [hstack]
  exact Option.isSome_map

section totals

variable [Fintype τ] (w : φ → ℕ)

/-- What the frames of all threads weigh. -/
def total (s : Threads τ σ φ) : ℕ := ∑ t, weight w (s.stack t)

theorem total_update (d : σ) {f : φ} {fs : List φ} (gs : List φ) (hstack : s.stack t = f :: fs) :
    total w (⟨d, Function.update s.stack t (gs ++ fs)⟩ : Threads τ σ φ) + w f =
      s.total w + weight w gs := by
  have hrest : ∑ u ∈ Finset.univ.erase t, weight w (Function.update s.stack t (gs ++ fs) u) =
      ∑ u ∈ Finset.univ.erase t, weight w (s.stack u) := by
    apply Finset.sum_congr rfl
    intro u hu
    rw [Function.update_of_ne (Finset.ne_of_mem_erase hu)]
  have hself : weight w (Function.update s.stack t (gs ++ fs) t) = weight w gs + weight w fs := by
    rw [Function.update_self, weight_append]
  rw [total, total, ← Finset.add_sum_erase _ _ (Finset.mem_univ t),
    ← Finset.add_sum_erase _ (fun u => weight w (s.stack u)) (Finset.mem_univ t), hrest,
    hself, hstack, weight_cons]
  omega

end totals

section mutexes

variable (mutex : σ → RecursiveMutex τ) (w : φ → ℕ)

/-- Each thread has locked the mutex as many times as its frames say. -/
def Locks (s : Threads τ σ φ) : Prop :=
  ∀ t, (mutex s.shared).depth t = weight w (s.stack t)

variable {mutex w}

/-- The transitions lock and unlock the mutex as the frames say. -/
def LocksNext (next : τ → σ → φ → α → Option (σ × List φ)) (mutex : σ → RecursiveMutex τ)
    (w : φ → ℕ) : Prop :=
  ∀ t d f a d' gs, next t d f a = some (d', gs) →
    (∀ u, u ≠ t → (mutex d').depth u = (mutex d).depth u) ∧
      (mutex d').depth t + w f = (mutex d).depth t + weight w gs

theorem Locks.step (hnext : LocksNext next mutex w) (hlocks : s.Locks mutex w)
    (h : step next s (t, a) = some s') : s'.Locks mutex w := by
  obtain ⟨f, fs, d, gs, hstack, htaken, rfl⟩ := step_cases h
  obtain ⟨hothers, hown⟩ := hnext _ _ _ _ _ _ htaken
  intro u
  dsimp only
  by_cases hu : u = t
  · subst hu
    have hbefore := hlocks u
    rw [hstack, weight_cons] at hbefore
    rw [Function.update_self, weight_append]
    omega
  · rw [Function.update_of_ne hu]
    exact (hothers u hu).trans (hlocks u)

/-- Frames that say that the mutex is locked are on the stack of one thread only. -/
theorem Locks.locks_eq_zero (hlocks : s.Locks mutex w) {u : τ} (h : 0 < weight w (s.stack t))
    (hne : u ≠ t) : weight w (s.stack u) = 0 := by
  rw [← hlocks u]
  exact RecursiveMutex.depth_eq_zero ((hlocks t).symm ▸ h) hne

theorem Locks.total_eq [Fintype τ] (hlocks : s.Locks mutex w)
    (h : 0 < weight w (s.stack t)) {v : φ → ℕ} (hv : ∀ f, w f = 0 → v f = 0) :
    s.total v = weight v (s.stack t) := by
  apply Finset.sum_eq_single t
  · intro u _ hu
    have hzero := hlocks.locks_eq_zero h hu
    apply weight_eq_zero
    intro f hf
    exact hv f (Nat.le_zero.mp (hzero ▸ le_weight hf))
  · exact fun hnot => absurd (Finset.mem_univ t) hnot

end mutexes

end Threads

end TNL.Library
