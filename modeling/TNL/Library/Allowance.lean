import TNL.Library.Run
import Mathlib.Data.List.Pairwise
import Mathlib.Order.Basic

/-!
# Counting what an allowance pays for

Some actions of a run cost a fixed amount of an allowance. The allowance grows with
time, at most by the time that passes, and a costly action leaves at most a cap of it.
The costly actions of an interval are then bounded by its length, the cap and the cost.
-/
namespace TNL.Library

variable {σ α : Type*}

/-- The times of the costly actions of a run. -/
def spendTimes (step : σ → α → Option σ) (spends : σ → α → Bool) (time : α → ℕ) :
    σ → List α → List ℕ
  | _, [] => []
  | s, a :: as => (if spends s a then [time a] else []) ++
      (step s a).elim [] (fun t => spendTimes step spends time t as)

/-- How many times lie in the interval of a length that starts at a time. -/
def countWithin (times : List ℕ) (start length : ℕ) : ℕ :=
  times.countP (fun time => decide (start ≤ time ∧ time ≤ start + length))

/-- What the steps of a run do to the allowance left and to the time it is counted from. -/
structure Allowance (step : σ → α → Option σ) (guard : σ → α → Prop)
    (spends : σ → α → Bool) (time : α → ℕ) (last left : σ → ℕ) (cost cap : ℕ) : Prop where
  elapsed : ∀ {s a t}, guard s a → step s a = some t → last s ≤ time a
  spend : ∀ {s a t}, guard s a → step s a = some t → spends s a = true →
    last t = time a ∧ left t + cost ≤ left s + (time a - last s) ∧ left t ≤ cap
  idle : ∀ {s a t}, guard s a → step s a = some t → spends s a = false →
    last t = last s ∧ left t ≤ left s

namespace Allowance

variable {step : σ → α → Option σ} {guard : σ → α → Prop} {spends : σ → α → Bool}
  {time : α → ℕ} {last left : σ → ℕ} {cost cap : ℕ} {s t : σ} {as : List α}

/-- If every action moves the clock to its own time and never back, the times are sorted. -/
theorem sorted_of_run (clock : σ → ℕ) (time : α → ℕ)
    (moves : ∀ {s a t}, step s a = some t → clock s ≤ time a ∧ clock t = time a)
    (h : Run step guard s as t) :
    (as.map time).Pairwise (· ≤ ·) ∧ ∀ instant ∈ as.map time, clock s ≤ instant := by
  induction h with
  | nil s => exact ⟨List.Pairwise.nil, List.forall_mem_nil _⟩
  | @cons s t u a as allowed taken rest ih =>
    obtain ⟨hle, hclock⟩ := moves taken
    rw [hclock] at ih
    rw [List.map_cons, List.pairwise_cons, List.forall_mem_cons]
    exact ⟨⟨ih.2, ih.1⟩, hle, fun instant hinstant => Nat.le_trans hle (ih.2 instant hinstant)⟩

theorem spendTimes_cons {a : α} (taken : step s a = some t) :
    spendTimes step spends time s (a :: as) =
      (if spends s a then [time a] else []) ++ spendTimes step spends time t as := by
  rw [spendTimes, taken, Option.elim_some]

theorem spendTimes_subset (time : α → ℕ) :
    ∀ instant ∈ spendTimes step spends time s as, ∃ a ∈ as, time a = instant := by
  induction as generalizing s with
  | nil =>
    intro instant hinstant
    cases hinstant
  | cons a as ih =>
    intro instant hinstant
    rw [spendTimes, List.mem_append] at hinstant
    cases hinstant with
    | inl hnow =>
      split at hnow
      · rw [List.mem_singleton] at hnow
        exact ⟨a, List.mem_cons_self, hnow.symm⟩
      · cases hnow
    | inr hlater =>
      cases htaken : step s a with
      | none =>
        rw [htaken] at hlater
        cases hlater
      | some t =>
        rw [htaken] at hlater
        obtain ⟨b, hb, htime⟩ := ih instant hlater
        exact ⟨b, List.mem_cons_of_mem a hb, htime⟩

/-- Up to an instant no more is spent than what is left and what the time until then gives. -/
theorem run (allowance : Allowance step guard spends time last left cost cap)
    (h : Run step guard s as t) (sorted : (as.map time).Pairwise (· ≤ ·)) {instant : ℕ}
    (hlast : last s ≤ instant) :
    cost * (spendTimes step spends time s as).countP (fun moment => decide (moment ≤ instant)) ≤
      left s + (instant - last s) := by
  induction h with
  | nil s => simp [spendTimes]
  | @cons s t u a as allowed taken rest ih =>
    have helapsed := allowance.elapsed allowed taken
    rw [List.map_cons, List.pairwise_cons] at sorted
    rw [spendTimes_cons taken, List.countP_append, Nat.mul_add]
    cases hspends : spends s a with
    | false =>
      have hidle := allowance.idle allowed taken hspends
      have hrest := ih sorted.2 (hidle.1.trans_le hlast)
      rw [hidle.1] at hrest
      rw [if_neg Bool.false_ne_true, List.countP_nil, Nat.mul_zero]
      omega
    | true =>
      have hspend := allowance.spend allowed taken hspends
      rw [if_pos rfl, List.countP_singleton]
      by_cases hpast : time a ≤ instant
      · have hrest := ih sorted.2 (hspend.1.trans_le hpast)
        rw [hspend.1] at hrest
        rw [if_pos (decide_eq_true hpast), Nat.mul_one]
        omega
      · -- the actions that follow are later still
        have hnone : (spendTimes step spends time t as).countP
            (fun moment => decide (moment ≤ instant)) = 0 := by
          rw [List.countP_eq_zero]
          intro moment hmoment
          obtain ⟨b, hb, rfl⟩ := spendTimes_subset time moment hmoment
          have hle := sorted.1 (time b) (List.mem_map_of_mem hb)
          simp only [decide_eq_true_eq]
          omega
        rw [if_neg (by simpa using hpast), hnone, Nat.mul_zero]
        exact Nat.zero_le _

/-- The costly actions of an interval. -/
theorem countWithin_le (allowance : Allowance step guard spends time last left cost cap)
    (hcost : 0 < cost) (h : Run step guard s as t) (sorted : (as.map time).Pairwise (· ≤ ·))
    (start length : ℕ) :
    countWithin (spendTimes step spends time s as) start length ≤ (length + cap) / cost + 1 := by
  induction h with
  | nil s => simp [spendTimes, countWithin]
  | @cons s t u a as allowed taken rest ih =>
    rw [List.map_cons, List.pairwise_cons] at sorted
    have hrest := ih sorted.2
    rw [spendTimes_cons taken]
    by_cases hfirst : spends s a = true ∧ start ≤ time a ∧ time a ≤ start + length
    · -- the first costly action of the interval leaves at most the cap
      have hspend := allowance.spend allowed taken hfirst.1
      have hrun := allowance.run rest sorted.2 (hspend.1.trans_le hfirst.2.2)
      have hfewer : countWithin (spendTimes step spends time t as) start length ≤
          (spendTimes step spends time t as).countP
            (fun moment => decide (moment ≤ start + length)) := by
        apply List.countP_mono_left
        intro moment _ hmoment
        rw [decide_eq_true_eq] at hmoment ⊢
        exact hmoment.2
      rw [hspend.1] at hrun
      have hbound : countWithin (spendTimes step spends time t as) start length * cost ≤
          length + cap := by
        have := Nat.mul_le_mul_left cost hfewer
        rw [Nat.mul_comm cost] at this
        omega
      have hdiv := (Nat.le_div_iff_mul_le hcost).mpr hbound
      rw [countWithin] at hdiv ⊢
      rw [List.countP_append, if_pos hfirst.1, List.countP_singleton,
        if_pos (decide_eq_true hfirst.2)]
      omega
    · have hnone : (if spends s a = true then [time a] else []).countP
          (fun moment => decide (start ≤ moment ∧ moment ≤ start + length)) = 0 := by
        rw [List.countP_eq_zero]
        intro moment hmoment hinside
        split at hmoment
        case isTrue hspends =>
          rw [List.mem_singleton] at hmoment
          rw [decide_eq_true_eq, hmoment] at hinside
          exact hfirst ⟨hspends, hinside⟩
        case isFalse => cases hmoment
      rw [countWithin] at hrest ⊢
      rw [List.countP_append, hnone, Nat.zero_add]
      exact hrest

end Allowance

end TNL.Library
