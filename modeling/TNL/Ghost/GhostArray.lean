import TNL.Library.IndexedArray
import Mathlib.Data.List.Nodup
import Mathlib.Data.Fin.Basic

/-!
# The ghost array

`mGhostArray` holds the ghost records in three segments: those with pending
updates, those without, and the free ones. A record is moved by exchanging it
with the one at the border and moving the border.
-/
namespace TNL
open Library

abbrev maxGhostCount : ℕ := 1024

/-- A ghost record, by its index in `mGhostRefs`. -/
abbrev Ghost : Type := Fin maxGhostCount

structure GhostArray where
  arrayIndex : Ghost → ℕ
  mGhostArray : ℕ → Ghost
  mGhostZeroUpdateIndex : ℕ
  mGhostFreeIndex : ℕ

namespace GhostArray

/-- The array after `activateGhosting`. -/
def new : GhostArray where
  arrayIndex info := info.val
  mGhostArray i := ⟨i % maxGhostCount, Nat.mod_lt i (by decide)⟩
  mGhostZeroUpdateIndex := 0
  mGhostFreeIndex := 0

/-- Exchange a record with the one at a place; the four pushes share it. -/
def exchange (a : GhostArray) (info : Ghost) (place : ℕ) : GhostArray :=
  if a.arrayIndex info ≠ place then
    { a with
      arrayIndex := Indexed.exchangePos a.mGhostArray a.arrayIndex info place
      mGhostArray := Indexed.exchangeArr a.mGhostArray a.arrayIndex info place }
  else a

def ghostPushNonZero (a : GhostArray) (info : Ghost) : GhostArray :=
  { a.exchange info a.mGhostZeroUpdateIndex with
    mGhostZeroUpdateIndex := a.mGhostZeroUpdateIndex + 1 }

def ghostPushToZero (a : GhostArray) (info : Ghost) : GhostArray :=
  { a.exchange info (a.mGhostZeroUpdateIndex - 1) with
    mGhostZeroUpdateIndex := a.mGhostZeroUpdateIndex - 1 }

def ghostPushZeroToFree (a : GhostArray) (info : Ghost) : GhostArray :=
  { a.exchange info (a.mGhostFreeIndex - 1) with mGhostFreeIndex := a.mGhostFreeIndex - 1 }

def ghostPushFreeToZero (a : GhostArray) (info : Ghost) : GhostArray :=
  { a.exchange info a.mGhostFreeIndex with mGhostFreeIndex := a.mGhostFreeIndex + 1 }

/-- The records with pending updates, in the order of the array. -/
def pending (a : GhostArray) : List Ghost :=
  (List.range a.mGhostZeroUpdateIndex).map a.mGhostArray

/-- Put the records with pending updates in another order and reset their indices. -/
def reorder (a : GhostArray) (order : List Ghost) : GhostArray :=
  { a with
    arrayIndex := fun info => if info ∈ order then order.idxOf info else a.arrayIndex info
    mGhostArray := fun i => (order[i]?).getD (a.mGhostArray i) }

/-- What the four pushes keep up. -/
structure Valid (a : GhostArray) : Prop where
  indexed : Indexed maxGhostCount a.mGhostArray a.arrayIndex
  zero_le : a.mGhostZeroUpdateIndex ≤ a.mGhostFreeIndex
  free_le : a.mGhostFreeIndex ≤ maxGhostCount

/-- The record is in the segment with pending updates. -/
def Pending (a : GhostArray) (info : Ghost) : Prop := a.arrayIndex info < a.mGhostZeroUpdateIndex

/-- The record is not free. -/
def Allocated (a : GhostArray) (info : Ghost) : Prop := a.arrayIndex info < a.mGhostFreeIndex

variable {a : GhostArray} {info : Ghost}

theorem new_valid : new.Valid where
  indexed := ⟨fun g => g.isLt, fun g => Fin.ext (Nat.mod_eq_of_lt g.isLt),
    fun i hi => Nat.mod_eq_of_lt hi⟩
  zero_le := le_rfl
  free_le := by decide

theorem Valid.allocated_of_pending (h : a.Valid) (hp : a.Pending info) : a.Allocated info :=
  lt_of_lt_of_le hp h.zero_le

theorem exchange_indexed (h : a.Valid) {place : ℕ} (hplace : place < maxGhostCount) :
    Indexed maxGhostCount (a.exchange info place).mGhostArray
      (a.exchange info place).arrayIndex := by
  unfold exchange
  split
  · exact h.indexed.exchange hplace
  · exact h.indexed

theorem exchange_arrayIndex (h : a.Valid) {place : ℕ} (hplace : place < maxGhostCount)
    (g : Ghost) : (a.exchange info place).arrayIndex g =
      if g = info then place else if a.arrayIndex g = place then a.arrayIndex info
        else a.arrayIndex g := by
  unfold exchange
  split
  · simp only [Indexed.exchangePos_apply, h.indexed.eq_arr_iff hplace]
  · rename_i hsame
    by_cases hg : g = info
    · rw [if_pos hg, hg]
      exact not_not.mp hsame
    · rw [if_neg hg]
      split
      · rename_i hplace'
        rw [hplace', not_not.mp hsame]
      · rfl

/-- The records before the two that are exchanged stay where they are. -/
theorem exchange_keeps (h : a.Valid) {place : ℕ} (hplace : place < maxGhostCount) {g : Ghost}
    (hinfo : a.arrayIndex g < a.arrayIndex info) (hg : a.arrayIndex g < place) :
    (a.exchange info place).arrayIndex g = a.arrayIndex g := by
  have hne : g ≠ info := by
    rintro rfl
    exact lt_irrefl _ hinfo
  rw [exchange_arrayIndex h hplace, if_neg hne, if_neg hg.ne]

@[simp] theorem exchange_zero (place : ℕ) :
    (a.exchange info place).mGhostZeroUpdateIndex = a.mGhostZeroUpdateIndex := by
  unfold exchange
  split <;> rfl

@[simp] theorem exchange_free (place : ℕ) :
    (a.exchange info place).mGhostFreeIndex = a.mGhostFreeIndex := by
  unfold exchange
  split <;> rfl

section borders

variable {k : ℕ} (h : a.Valid) (hk : k < maxGhostCount)
include h hk

/-- Exchanging inside a segment. -/
theorem exchange_keep {border : ℕ} (hside : a.arrayIndex info < border ↔ k < border) (g : Ghost) :
    (a.exchange info k).arrayIndex g < border ↔ a.arrayIndex g < border := by
  rw [exchange_arrayIndex h hk]
  by_cases hg : g = info
  · rw [if_pos hg, hg, hside]
  · rw [if_neg hg]
    split <;> omega

/-- A record that is exchanged with the first one beyond a border enters when the border moves. -/
theorem exchange_enter (hout : k ≤ a.arrayIndex info) (g : Ghost) :
    (a.exchange info k).arrayIndex g < k + 1 ↔ g = info ∨ a.arrayIndex g < k := by
  rw [exchange_arrayIndex h hk]
  by_cases hg : g = info
  · simp [hg]
  · have hne : a.arrayIndex g ≠ a.arrayIndex info := fun he => hg (h.indexed.pos_inj he)
    rw [if_neg hg, or_iff_right hg]
    split <;> omega

/-- A record that is exchanged with the last one below a border leaves when the border moves. -/
theorem exchange_leave (hin : a.arrayIndex info < k + 1) (g : Ghost) :
    (a.exchange info k).arrayIndex g < k ↔ g ≠ info ∧ a.arrayIndex g < k + 1 := by
  rw [exchange_arrayIndex h hk]
  by_cases hg : g = info
  · simp [hg]
  · have hne : a.arrayIndex g ≠ a.arrayIndex info := fun he => hg (h.indexed.pos_inj he)
    rw [if_neg hg, and_iff_right hg]
    split <;> omega

end borders

theorem ghostPushNonZero_valid (h : a.Valid) (hp : ¬ a.Pending info) (ha : a.Allocated info) :
    (a.ghostPushNonZero info).Valid ∧
      (∀ g, (a.ghostPushNonZero info).Pending g ↔ g = info ∨ a.Pending g) ∧
      ∀ g, (a.ghostPushNonZero info).Allocated g ↔ a.Allocated g := by
  unfold Pending at hp
  unfold Allocated at ha
  have hfree := h.free_le
  have hplace : a.mGhostZeroUpdateIndex < maxGhostCount := by omega
  refine ⟨⟨exchange_indexed h hplace, ?_, ?_⟩, ?_, ?_⟩
  · rw [ghostPushNonZero, exchange_free]
    dsimp only
    omega
  · rw [ghostPushNonZero, exchange_free]
    exact hfree
  · exact exchange_enter h hplace (by omega)
  · intro g
    rw [Allocated, ghostPushNonZero, exchange_free]
    exact exchange_keep h hplace (by omega) g

theorem ghostPushToZero_valid (h : a.Valid) (hp : a.Pending info) :
    (a.ghostPushToZero info).Valid ∧
      (∀ g, (a.ghostPushToZero info).Pending g ↔ g ≠ info ∧ a.Pending g) ∧
      ∀ g, (a.ghostPushToZero info).Allocated g ↔ a.Allocated g := by
  have ha := h.allocated_of_pending hp
  unfold Pending at hp
  unfold Allocated at ha
  have hfree := h.free_le
  have hzero := h.zero_le
  have hplace : a.mGhostZeroUpdateIndex - 1 < maxGhostCount := by omega
  have hborder : a.mGhostZeroUpdateIndex = a.mGhostZeroUpdateIndex - 1 + 1 := by omega
  refine ⟨⟨exchange_indexed h hplace, ?_, ?_⟩, ?_, ?_⟩
  · rw [ghostPushToZero, exchange_free]
    dsimp only
    omega
  · rw [ghostPushToZero, exchange_free]
    exact hfree
  · intro g
    refine (exchange_leave h hplace (by omega) g).trans ?_
    rw [← hborder]
    rfl
  · intro g
    rw [Allocated, ghostPushToZero, exchange_free]
    exact exchange_keep h hplace (by omega) g

theorem ghostPushZeroToFree_valid (h : a.Valid) (hp : ¬ a.Pending info) (ha : a.Allocated info) :
    (a.ghostPushZeroToFree info).Valid ∧
      (∀ g, (a.ghostPushZeroToFree info).Pending g ↔ a.Pending g) ∧
      ∀ g, (a.ghostPushZeroToFree info).Allocated g ↔ g ≠ info ∧ a.Allocated g := by
  unfold Pending at hp
  unfold Allocated at ha
  have hfree := h.free_le
  have hplace : a.mGhostFreeIndex - 1 < maxGhostCount := by omega
  have hborder : a.mGhostFreeIndex = a.mGhostFreeIndex - 1 + 1 := by omega
  refine ⟨⟨exchange_indexed h hplace, ?_, ?_⟩, ?_, ?_⟩
  · rw [ghostPushZeroToFree, exchange_zero]
    dsimp only
    omega
  · dsimp only [ghostPushZeroToFree]
    omega
  · intro g
    rw [Pending, ghostPushZeroToFree, exchange_zero]
    exact exchange_keep h hplace (by omega) g
  · intro g
    refine (exchange_leave h hplace (by omega) g).trans ?_
    rw [← hborder]
    rfl

theorem ghostPushToZero_keeps (h : a.Valid) (hp : a.Pending info) {g : Ghost}
    (hg : a.arrayIndex g < a.arrayIndex info) :
    (a.ghostPushToZero info).arrayIndex g = a.arrayIndex g := by
  have hfree := h.free_le
  have hzero := h.zero_le
  unfold Pending at hp
  exact exchange_keeps h (by omega) hg (by omega)

theorem ghostPushZeroToFree_keeps (h : a.Valid) (ha : a.Allocated info) {g : Ghost}
    (hg : a.arrayIndex g < a.arrayIndex info) :
    (a.ghostPushZeroToFree info).arrayIndex g = a.arrayIndex g := by
  have hfree := h.free_le
  unfold Allocated at ha
  exact exchange_keeps h (by omega) hg (by omega)

/-- A record that loses its updates comes first among those without. -/
theorem ghostPushToZero_self (h : a.Valid) (hp : a.Pending info) :
    (a.ghostPushToZero info).arrayIndex info = a.mGhostZeroUpdateIndex - 1 := by
  have hfree := h.free_le
  have hzero := h.zero_le
  unfold Pending at hp
  have hplace : a.mGhostZeroUpdateIndex - 1 < maxGhostCount := by omega
  exact (exchange_arrayIndex h hplace info).trans (if_pos rfl)

theorem ghostPushFreeToZero_valid (h : a.Valid) (ha : ¬ a.Allocated info) :
    (a.ghostPushFreeToZero info).Valid ∧
      (∀ g, (a.ghostPushFreeToZero info).Pending g ↔ a.Pending g) ∧
      ∀ g, (a.ghostPushFreeToZero info).Allocated g ↔ g = info ∨ a.Allocated g := by
  unfold Allocated at ha
  have hzero := h.zero_le
  have hlt := h.indexed.pos_lt info
  have hplace : a.mGhostFreeIndex < maxGhostCount := by omega
  refine ⟨⟨exchange_indexed h hplace, ?_, ?_⟩, ?_, ?_⟩
  · rw [ghostPushFreeToZero, exchange_zero]
    dsimp only
    omega
  · dsimp only [ghostPushFreeToZero]
    omega
  · intro g
    rw [Pending, ghostPushFreeToZero, exchange_zero]
    exact exchange_keep h hplace (by omega) g
  · exact exchange_enter h hplace (by omega)

/-- The order of the records with pending updates is free. -/
theorem reorder_valid (h : a.Valid) {order : List Ghost} (horder : order.Perm a.pending) :
    (a.reorder order).Valid ∧ (∀ g, (a.reorder order).Pending g ↔ a.Pending g) ∧
      ∀ g, (a.reorder order).Allocated g ↔ a.Allocated g := by
  have hzero := h.zero_le
  have hfree := h.free_le
  have hlength : order.length = a.mGhostZeroUpdateIndex := by simpa [pending] using horder.length_eq
  have hmem : ∀ g, g ∈ order ↔ a.Pending g := by
    intro g
    rw [horder.mem_iff, pending, List.mem_map]
    constructor
    · rintro ⟨i, hi, rfl⟩
      have hlt := List.mem_range.mp hi
      rw [Pending, h.indexed.pos_arr i (by omega)]
      exact hlt
    · exact fun hg => ⟨a.arrayIndex g, List.mem_range.mpr hg, h.indexed.arr_pos g⟩
  have hnodup : order.Nodup := by
    refine horder.nodup_iff.mpr (List.Nodup.map_on ?_ List.nodup_range)
    intro i hi j hj hij
    have hi' := List.mem_range.mp hi
    have hj' := List.mem_range.mp hj
    rw [← h.indexed.pos_arr i (by omega), hij, h.indexed.pos_arr j (by omega)]
  have hindex : ∀ g, (a.reorder order).arrayIndex g =
      if g ∈ order then order.idxOf g else a.arrayIndex g := fun _ => rfl
  have hidx : ∀ g ∈ order, order.idxOf g < a.mGhostZeroUpdateIndex := by
    intro g hg
    rw [← hlength]
    exact List.idxOf_lt_length_of_mem hg
  refine ⟨⟨?_, hzero, hfree⟩, ?_, ?_⟩
  · refine h.indexed.rearrange (hzero.trans hfree) horder ?_ ?_
    · intro i hi
      rw [hindex, if_pos (List.getElem_mem hi), hnodup.idxOf_getElem]
    · intro g hg
      rw [hindex, if_neg hg]
  · intro g
    rw [← hmem, Pending, hindex]
    split
    · rename_i hg
      exact iff_of_true (hidx g hg) hg
    · rename_i hg
      exact iff_of_false (fun hlt => hg ((hmem g).mpr hlt)) hg
  · intro g
    rw [Allocated, Allocated, hindex]
    split
    · rename_i hg
      have hlt := (hmem g).mp hg
      exact iff_of_true (lt_of_lt_of_le (hidx g hg) hzero) (lt_of_lt_of_le hlt hzero)
    · exact Iff.rfl

end GhostArray

end TNL
