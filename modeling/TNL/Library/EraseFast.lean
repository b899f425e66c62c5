import Mathlib.Data.List.Perm.Basic

/-!
# Erasing without keeping the order
-/
namespace TNL

/-- The last element takes the place of the erased one. -/
def eraseFast {α : Type*} (l : List α) (index : ℕ) : List α :=
  match l.getLast? with
  | none => l
  | some last => (l.set index last).dropLast

theorem eraseFast_perm {α : Type*} {l : List α} {index : ℕ} (h : index < l.length) :
    (eraseFast l index).Perm (l.eraseIdx index) := by
  obtain ⟨front, last, rfl⟩ : ∃ front last, l = front ++ [last] :=
    ⟨l.dropLast, l.getLast (by rintro rfl; simp at h),
      (List.dropLast_append_getLast _).symm⟩
  rw [List.length_append, List.length_singleton] at h
  rcases Nat.lt_or_ge index front.length with hlt | hge
  · rw [eraseFast, List.getLast?_concat, List.eraseIdx_append_of_lt_length hlt]
    change ((front ++ [last]).set index last).dropLast.Perm _
    rw [List.set_append_left _ _ hlt, List.dropLast_concat]
    exact (List.set_perm_cons_eraseIdx hlt last).trans (List.perm_append_singleton ..).symm
  · obtain rfl : index = front.length := by omega
    rw [eraseFast, List.getLast?_concat]
    simp [List.eraseIdx_append_of_length_le]

end TNL
