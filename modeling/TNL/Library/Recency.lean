import Mathlib.Data.List.Dedup
import Mathlib.Data.List.DropRight

/-!
# What was used last

A sequence of uses, where `List.dedup` keeps the last use of each value. Using a
value again moves it to the end of the values used most recently.
-/
namespace TNL.Library

variable {α : Type*} [DecidableEq α] {n : ℕ} {l : List α} {a : α}

theorem dedup_concat (l : List α) (a : α) : (l ++ [a]).dedup = l.dedup.erase a ++ [a] := by
  induction l with
  | nil => rfl
  | cons b l ih =>
    rw [List.cons_append, List.dedup_cons, List.dedup_cons, ih]
    by_cases hb : b ∈ l
    · rw [if_pos hb, if_pos (List.mem_append_left [a] hb)]
    · rw [if_neg hb]
      by_cases hab : b = a
      · subst hab
        have hnot : b ∉ l.dedup := fun h => hb (List.mem_dedup.mp h)
        rw [if_pos (by simp), List.erase_cons_head, List.erase_of_not_mem hnot]
      · rw [if_neg (by simp [hb, hab]), List.erase_cons_tail (by simpa using hab), List.cons_append]

theorem map_erase_of_injOn {β : Type*} [DecidableEq β] {f : β → α} {l : List β} {b : β}
    (hinj : ∀ x ∈ l, f x = f b → x = b) : (l.erase b).map f = (l.map f).erase (f b) := by
  induction l with
  | nil => rfl
  | cons x l ih =>
    have hrest := ih fun y hy => hinj y (List.mem_cons_of_mem x hy)
    by_cases hx : x = b
    · simp [hx]
    · have hne := fun heq => hx (hinj x List.mem_cons_self heq)
      rw [List.erase_cons_tail (by simpa using hx), List.map_cons, List.map_cons,
        List.erase_cons_tail (by simpa using hne), hrest]

/-- The last `n` distinct values, in the order of their last use. -/
def recent (n : ℕ) (l : List α) : List α := l.dedup.rtake n

theorem nodup_recent : (recent n l).Nodup :=
  (List.nodup_dedup l).sublist (List.drop_sublist _ _)

theorem length_recent : (recent n l).length = min n l.dedup.length := by
  rw [recent, List.rtake, List.length_drop]
  omega

theorem recent_of_length_le (h : l.dedup.length ≤ n) : recent n l = l.dedup := by
  rw [recent, List.rtake, Nat.sub_eq_zero_of_le h, List.drop_zero]

/-- The values not used recently stand before the others. -/
theorem exists_dedup_eq (n : ℕ) (l : List α) : ∃ old, l.dedup = old ++ recent n l :=
  ⟨_, (List.take_append_drop (l.dedup.length - n) l.dedup).symm⟩

omit [DecidableEq α] in
theorem rtake_append_of_length_eq {front back : List α} (h : back.length = n) :
    (front ++ back).rtake n = back := by
  rw [List.rtake, List.length_append, h, Nat.add_sub_cancel, List.drop_left]

/-- A recent value that is used again moves to the end. -/
theorem recent_concat_of_mem (h : a ∈ recent n l) :
    recent n (l ++ [a]) = (recent n l).erase a ++ [a] := by
  obtain ⟨old, hold⟩ := exists_dedup_eq n l
  have hnodup := List.nodup_dedup l
  rw [hold] at hnodup
  have hnot : a ∉ old := fun ha => List.disjoint_of_nodup_append hnodup ha h
  have hlength : ((recent n l).erase a ++ [a]).length = (recent n l).length := by
    have hpos := List.length_pos_of_mem h
    rw [List.length_append, List.length_erase_of_mem h, List.length_singleton]
    omega
  rw [recent, dedup_concat, hold, List.erase_append_right _ hnot, List.append_assoc]
  by_cases hle : l.dedup.length ≤ n
  · have hnil : old = [] := by
      have hlen := congrArg List.length hold
      rw [recent_of_length_le hle, List.length_append] at hlen
      exact List.length_eq_zero_iff.mp (by omega)
    rw [hnil, List.nil_append, List.rtake, hlength, length_recent,
      Nat.sub_eq_zero_of_le (Nat.min_le_left n _), List.drop_zero]
  · apply rtake_append_of_length_eq
    rw [hlength, length_recent]
    omega

/-- A new value joins them while there is room. -/
theorem recent_concat_of_length_lt (h : a ∉ recent n l) (hlt : (recent n l).length < n) :
    recent n (l ++ [a]) = recent n l ++ [a] := by
  rw [length_recent] at hlt
  have hle : l.dedup.length ≤ n := by omega
  rw [recent_of_length_le hle] at h ⊢
  have hdedup : (l ++ [a]).dedup = l.dedup ++ [a] := by
    rw [dedup_concat, List.erase_of_not_mem h]
  rw [recent_of_length_le, hdedup]
  rw [hdedup, List.length_append, List.length_singleton]
  omega

/-- Otherwise it takes the place of the value used least recently. -/
theorem recent_concat_of_full {first : α} {rest : List α} (h : a ∉ recent n l)
    (hfull : recent n l = first :: rest) (hlength : (recent n l).length = n) :
    recent n (l ++ [a]) = rest ++ [a] := by
  obtain ⟨old, hold⟩ := exists_dedup_eq n l
  have hsplit : l.dedup.erase a = (old.erase a ++ [first]) ++ rest := by
    rw [hold, hfull]
    by_cases ha : a ∈ old
    · rw [List.erase_append_left _ ha]
      simp
    · rw [List.erase_append_right _ ha, ← hfull, List.erase_of_not_mem h, hfull,
        List.erase_of_not_mem ha]
      simp
  rw [recent, dedup_concat, hsplit, List.append_assoc]
  apply rtake_append_of_length_eq
  rw [hfull, List.length_cons] at hlength
  rw [List.length_append, List.length_singleton, hlength]

theorem mem_recent {before after : List α} (h : (a :: after).dedup.length ≤ n) :
    a ∈ recent n (before ++ a :: after) := by
  obtain ⟨front, hfront⟩ : (a :: after).dedup <:+ (before ++ a :: after).dedup := by
    rw [List.dedup_append]
    exact List.suffix_union_right _ _
  have hmem : a ∈ (a :: after).dedup := List.mem_dedup.mpr List.mem_cons_self
  rw [recent, ← hfront, List.rtake, List.length_append, List.drop_append]
  apply List.mem_append_right
  rw [show front.length + (a :: after).dedup.length - n - front.length = 0 by omega]
  exact hmem

end TNL.Library
