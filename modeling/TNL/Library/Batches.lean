import Mathlib.Data.List.Basic

/-!
# Sending items in batches

Items are collected and sent as soon as there are enough for a batch. At the end the
rest is sent, and a batch without items says that nothing follows.
-/
namespace TNL.Library

structure Batches (α : Type*) where
  sent : List (List α)
  pending : List α

namespace Batches

variable {α : Type*}

def empty : Batches α := ⟨[], []⟩

def push (limit : ℕ) (b : Batches α) (x : α) : Batches α :=
  if limit ≤ (b.pending ++ [x]).length then ⟨b.sent ++ [b.pending ++ [x]], []⟩
  else ⟨b.sent, b.pending ++ [x]⟩

/-- Send the rest, and an empty batch unless the rest is one. -/
def finish (b : Batches α) : List (List α) :=
  b.sent ++ [b.pending] ++ if b.pending = [] then [] else [[]]

/-- What holds of the batches between two items. -/
structure Sound (limit : ℕ) (b : Batches α) : Prop where
  sent : ∀ batch ∈ b.sent, batch ≠ [] ∧ batch.length ≤ limit
  pending : b.pending.length < limit

/-- Only the last batch is empty, and none has more items than fit. -/
structure Terminated (limit : ℕ) (batches : List (List α)) : Prop where
  length_le : ∀ batch ∈ batches, batch.length ≤ limit
  last : ∃ front, batches = front ++ [[]] ∧ [] ∉ front

variable {limit : ℕ} {b : Batches α}

theorem Sound.empty (hlimit : 0 < limit) : (empty : Batches α).Sound limit := ⟨nofun, hlimit⟩

theorem Sound.push (h : b.Sound limit) (x : α) : (b.push limit x).Sound limit := by
  have hpending := h.pending
  rw [Batches.push]
  split_ifs with hfull
  · refine ⟨?_, Nat.zero_lt_of_lt hpending⟩
    rw [List.forall_mem_append, List.forall_mem_singleton]
    refine ⟨h.sent, List.append_ne_nil_of_right_ne_nil _ (List.cons_ne_nil _ _), ?_⟩
    rw [List.length_append, List.length_singleton]
    exact hpending
  · exact ⟨h.sent, Nat.lt_of_not_le hfull⟩

theorem Sound.foldl (h : b.Sound limit) (items : List α) :
    (items.foldl (Batches.push limit) b).Sound limit := by
  induction items generalizing b with
  | nil => exact h
  | cons x items ih => exact ih (h.push x)

/-- All items so far, in order. -/
def items (b : Batches α) : List α := b.sent.flatten ++ b.pending

theorem items_push (b : Batches α) (x : α) : (b.push limit x).items = b.items ++ [x] := by
  rw [push]
  split_ifs with hfull
  · simp [items]
  · simp [items]

theorem items_foldl (b : Batches α) (l : List α) :
    (l.foldl (push limit) b).items = b.items ++ l := by
  induction l generalizing b with
  | nil => simp
  | cons x l ih => rw [List.foldl_cons, ih, items_push, List.append_assoc, List.singleton_append]

theorem flatten_finish (b : Batches α) : b.finish.flatten = b.items := by
  rw [finish, items]
  split_ifs with hnil <;> simp

theorem Sound.terminated (h : b.Sound limit) : Terminated limit b.finish := by
  have hsent : ∀ batch ∈ b.sent, batch.length ≤ limit := fun batch hbatch => (h.sent batch hbatch).2
  have hnil : [] ∉ b.sent := fun hmem => (h.sent [] hmem).1 rfl
  rw [finish]
  by_cases hpending : b.pending = []
  · rw [if_pos hpending, hpending, List.append_nil]
    refine ⟨?_, b.sent, rfl, hnil⟩
    rw [List.forall_mem_append, List.forall_mem_singleton]
    exact ⟨hsent, Nat.zero_le _⟩
  · rw [if_neg hpending]
    refine ⟨?_, b.sent ++ [b.pending], rfl, ?_⟩
    · rw [List.forall_mem_append, List.forall_mem_append, List.forall_mem_singleton,
        List.forall_mem_singleton]
      exact ⟨⟨hsent, Nat.le_of_lt h.pending⟩, Nat.zero_le _⟩
    · rw [List.mem_append, List.mem_singleton]
      rintro (hmem | heq)
      · exact hnil hmem
      · exact hpending heq.symm

theorem Terminated.of_front {front : List (List α)}
    (hfront : ∀ batch ∈ front, batch ≠ [] ∧ batch.length ≤ limit) :
    Terminated limit (front ++ [[]]) := by
  refine ⟨?_, front, rfl, fun hnil => (hfront [] hnil).1 rfl⟩
  rw [List.forall_mem_append, List.forall_mem_singleton]
  exact ⟨fun batch hbatch => (hfront batch hbatch).2, Nat.zero_le _⟩

theorem Terminated.cons {batches : List (List α)} {batch : List α} (h : Terminated limit batches)
    (hlimit : batch.length ≤ limit) (hne : batch ≠ []) : Terminated limit (batch :: batches) := by
  obtain ⟨front, rfl, hfront⟩ := h.last
  refine ⟨List.forall_mem_cons.mpr ⟨hlimit, h.length_le⟩, batch :: front, rfl, ?_⟩
  rw [List.mem_cons]
  rintro (heq | hnil)
  · exact hne heq.symm
  · exact hfront hnil

theorem Terminated.map {β : Type*} {batches : List (List α)} (h : Terminated limit batches)
    (f : α → β) : Terminated limit (batches.map (List.map f)) := by
  constructor
  · intro batch hbatch
    obtain ⟨batch, hmem, rfl⟩ := List.mem_map.mp hbatch
    rw [List.length_map]
    exact h.length_le batch hmem
  · obtain ⟨front, rfl, hfront⟩ := h.last
    refine ⟨front.map (List.map f), ?_, ?_⟩
    · simp
    · intro hnil
      obtain ⟨batch, hmem, heq⟩ := List.mem_map.mp hnil
      obtain rfl := List.map_eq_nil_iff.mp heq
      exact hfront hmem

end Batches

end TNL.Library
