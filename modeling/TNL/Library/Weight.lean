import Mathlib.Data.List.Count
import Mathlib.Tactic.Common

/-!
# Weights of lists

The weight of a list is the sum of what its elements weigh.
-/
namespace TNL.Library

def weight {α : Type*} (w : α → ℕ) : List α → ℕ
  | [] => 0
  | a :: as => w a + weight w as

variable {α β : Type*} {w : α → ℕ} {as bs : List α} {a : α}

@[simp] theorem weight_nil : weight w [] = 0 := rfl

@[simp] theorem weight_cons : weight w (a :: as) = w a + weight w as := rfl

@[simp] theorem weight_append : weight w (as ++ bs) = weight w as + weight w bs := by
  induction as with
  | nil => exact (Nat.zero_add _).symm
  | cons a as ih => rw [List.cons_append, weight_cons, ih, weight_cons, Nat.add_assoc]

theorem le_weight (h : a ∈ as) : w a ≤ weight w as := by
  induction h with
  | head => exact Nat.le_add_right _ _
  | tail _ _ ih => exact Nat.le_trans ih (Nat.le_add_left _ _)

theorem weight_eq_zero (h : ∀ a ∈ as, w a = 0) : weight w as = 0 := by
  induction as with
  | nil => rfl
  | cons a as ih =>
    rw [weight_cons, h a List.mem_cons_self, ih fun b hb => h b (List.mem_cons_of_mem a hb)]

theorem eq_zero_of_weight (h : weight w as = 0) (ha : a ∈ as) : w a = 0 :=
  Nat.le_zero.mp (h ▸ le_weight ha)

theorem weight_le_mul {k : ℕ} (h : ∀ a ∈ as, w a ≤ k) : weight w as ≤ k * as.length := by
  induction as with
  | nil => exact Nat.zero_le _
  | cons a as ih =>
    have rest := ih fun b hb => h b (List.mem_cons_of_mem a hb)
    have first := h a List.mem_cons_self
    rw [weight_cons, List.length_cons, Nat.mul_succ]
    omega

/-- What a map takes from a count. -/
theorem countP_map_add {f : β → α} {p : α → Bool} {q r : β → Bool} (l : List β)
    (h : ∀ b ∈ l, (p (f b)).toNat + (q b).toNat = (r b).toNat) :
    (l.map f).countP p + l.countP q = l.countP r := by
  induction l with
  | nil => rfl
  | cons b l ih =>
    obtain ⟨hb, hl⟩ := List.forall_mem_cons.mp h
    have rest := ih hl
    simp only [List.map_cons, List.countP_cons]
    cases hp : p (f b) <;> cases hq : q b <;> cases hr : r b <;>
      simp only [hp, hq, hr, Bool.toNat_true, Bool.toNat_false] at hb <;>
      simp only [if_true, if_false, Bool.false_eq_true] <;> omega

end TNL.Library
