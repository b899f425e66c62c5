import Mathlib.Logic.Function.Basic
import TNL.Library.Succeeds

/-!
# Memory in which objects are constructed and destructed

An array has slots, and each holds an object or is raw. An operation that does not fit
what a slot holds is undefined: to read, assign or destruct a raw slot, or to construct
an object in a slot that holds one. Addresses are not given out again, so that a pointer
into an array that was freed is never one into another array.
-/
namespace TNL.Library

structure Cells (α : Type*) where
  capacity : ℕ
  slots : ℕ → Option α

/-- The arrays at their addresses, and the number of addresses that were given out. -/
structure ObjectMemory (α : Type*) where
  arrays : ℕ → Option (Cells α)
  next : ℕ

/-- An array whose first slots hold a list. -/
def Cells.holding {α : Type*} (capacity : ℕ) (l : List α) : Cells α := ⟨capacity, fun i => l[i]?⟩

namespace Cells

variable {α : Type*} {capacity : ℕ} {l : List α}

theorem holding_update_length (capacity : ℕ) (l : List α) (x : α) :
    (⟨capacity, Function.update (holding capacity l).slots l.length (some x)⟩ : Cells α) =
      holding capacity (l ++ [x]) := by
  rw [holding, holding]
  congr 1
  funext i
  by_cases h : i = l.length
  · subst h
    simp
  · rw [Function.update_of_ne h]
    simp only [List.getElem?_append]
    split
    · rfl
    · rw [List.getElem?_eq_none (by omega), List.getElem?_eq_none (by simp; omega)]

theorem holding_update_last (capacity : ℕ) (l : List α) (x : α) :
    (⟨capacity, Function.update (holding capacity (l ++ [x])).slots l.length none⟩ : Cells α) =
      holding capacity l := by
  rw [← holding_update_length]
  simp [holding]

theorem holding_set {i : ℕ} (h : i < l.length) (x : α) :
    (⟨capacity, Function.update (holding capacity l).slots i (some x)⟩ : Cells α) =
      holding capacity (l.set i x) := by
  rw [holding, holding]
  congr 1
  funext j
  by_cases hj : j = i
  · subst hj
    simp [h]
  · rw [Function.update_of_ne hj, List.getElem?_set_ne (Ne.symm hj)]

end Cells

/-- A loop over the numbers from `start` on, given what it has made of the state after each step. -/
theorem foldlM_range'_eq {σ : Type*} {step : σ → ℕ → Option σ} (f : ℕ → σ) {start n : ℕ}
    (h : ∀ k < n, step (f k) (start + k) = some (f (k + 1))) :
    (List.range' start n).foldlM step (f 0) = some (f n) := by
  induction n generalizing start f with
  | zero => rfl
  | succ n ih =>
    rw [List.range'_succ, List.foldlM_cons]
    have hfirst : step (f 0) start = some (f 1) := h 0 n.succ_pos
    rw [hfirst, Option.bind_eq_bind, Option.bind_some]
    apply ih (fun k => f (k + 1))
    intro k hk
    have hstep := h (k + 1) (Nat.succ_lt_succ hk)
    rwa [← Nat.add_assoc, Nat.add_right_comm] at hstep

namespace ObjectMemory

variable {α : Type*}

def put (m : ObjectMemory α) (a : ℕ) (cells : Cells α) : ObjectMemory α :=
  { m with arrays := Function.update m.arrays a (some cells) }

def malloc (m : ObjectMemory α) (capacity : ℕ) : ObjectMemory α × ℕ :=
  (⟨Function.update m.arrays m.next (some ⟨capacity, fun _ => none⟩), m.next + 1⟩, m.next)

/-- Give an array back that holds no object. Nothing is done for the null pointer. -/
def free (m : ObjectMemory α) : Option ℕ → Option (ObjectMemory α)
  | none => some m
  | some a => (m.arrays a).bind fun cells =>
    if (List.range cells.capacity).all fun i => (cells.slots i).isNone then
      some { m with arrays := Function.update m.arrays a none }
    else none

def read (m : ObjectMemory α) (a i : ℕ) : Option α := (m.arrays a).bind fun cells => cells.slots i

def construct (m : ObjectMemory α) (a i : ℕ) (x : α) : Option (ObjectMemory α) :=
  (m.arrays a).bind fun cells =>
    if i < cells.capacity ∧ (cells.slots i).isNone then
      some (m.put a ⟨cells.capacity, Function.update cells.slots i (some x)⟩)
    else none

def destruct (m : ObjectMemory α) (a i : ℕ) : Option (ObjectMemory α) :=
  (m.arrays a).bind fun cells =>
    if (cells.slots i).isSome then
      some (m.put a ⟨cells.capacity, Function.update cells.slots i none⟩)
    else none

def assign (m : ObjectMemory α) (a i : ℕ) (x : α) : Option (ObjectMemory α) :=
  (m.arrays a).bind fun cells =>
    if (cells.slots i).isSome then
      some (m.put a ⟨cells.capacity, Function.update cells.slots i (some x)⟩)
    else none

variable {m : ObjectMemory α} {a b i : ℕ} {cells : Cells α} {x : α}

@[simp] theorem arrays_put_self (m : ObjectMemory α) (a : ℕ) (cells : Cells α) :
    (m.put a cells).arrays a = some cells := Function.update_self ..

theorem arrays_put_of_ne (h : b ≠ a) (cells : Cells α) : (m.put a cells).arrays b = m.arrays b :=
  Function.update_of_ne h ..

@[simp] theorem next_put (m : ObjectMemory α) (a : ℕ) (cells : Cells α) :
    (m.put a cells).next = m.next := rfl

@[simp] theorem put_put (m : ObjectMemory α) (a : ℕ) (cells cells' : Cells α) :
    (m.put a cells).put a cells' = m.put a cells' := by
  simp [put]

theorem put_eq_self (h : m.arrays a = some cells) : m.put a cells = m := by
  rw [put, ← h, Function.update_eq_self]

theorem read_put (m : ObjectMemory α) (a i : ℕ) (cells : Cells α) :
    (m.put a cells).read a i = cells.slots i := by
  rw [read, arrays_put_self, Option.bind_some]

theorem read_put_of_ne (h : b ≠ a) (cells : Cells α) : (m.put a cells).read b i = m.read b i := by
  rw [read, arrays_put_of_ne h, read]

theorem construct_put (hcapacity : i < cells.capacity) (hraw : cells.slots i = none) (x : α) :
    (m.put a cells).construct a i x =
      some (m.put a ⟨cells.capacity, Function.update cells.slots i (some x)⟩) := by
  rw [construct, arrays_put_self, Option.bind_some, if_pos ⟨hcapacity, by rw [hraw]; rfl⟩, put_put]

theorem destruct_put (hheld : cells.slots i = some x) :
    (m.put a cells).destruct a i =
      some (m.put a ⟨cells.capacity, Function.update cells.slots i none⟩) := by
  rw [destruct, arrays_put_self, Option.bind_some, if_pos (by rw [hheld]; rfl), put_put]

theorem assign_put {y : α} (hheld : cells.slots i = some y) (x : α) :
    (m.put a cells).assign a i x =
      some (m.put a ⟨cells.capacity, Function.update cells.slots i (some x)⟩) := by
  rw [assign, arrays_put_self, Option.bind_some, if_pos (by rw [hheld]; rfl), put_put]

theorem free_put (h : ∀ i, cells.slots i = none) :
    (m.put a cells).free (some a) = some { m with arrays := Function.update m.arrays a none } := by
  rw [free, arrays_put_self, Option.bind_some, if_pos]
  · simp [put]
  · rw [List.all_eq_true]
    intro i _
    rw [h]
    rfl

end ObjectMemory

end TNL.Library
