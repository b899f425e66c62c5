import Mathlib.Logic.Function.Basic
import Mathlib.Data.List.Perm.Basic

/-!
# Arrays whose elements know their place

An array of `n` places holds every element of a type once, and each element
carries the index of its place. Exchanging two elements and rearranging a
prefix keep the two in agreement.
-/
namespace TNL.Library

variable {ι : Type*}

/-- Place `i` holds `arr i`, and element `g` is at place `pos g`. -/
structure Indexed (n : ℕ) (arr : ℕ → ι) (pos : ι → ℕ) : Prop where
  pos_lt : ∀ g, pos g < n
  arr_pos : ∀ g, arr (pos g) = g
  pos_arr : ∀ i < n, pos (arr i) = i

namespace Indexed

variable {n k : ℕ} {arr : ℕ → ι} {pos : ι → ℕ} {g x : ι}

theorem pos_inj (h : Indexed n arr pos) (hx : pos x = pos g) : x = g := by
  rw [← h.arr_pos x, hx, h.arr_pos]

theorem eq_arr_iff (h : Indexed n arr pos) (hk : k < n) : x = arr k ↔ pos x = k := by
  constructor
  · rintro rfl
    exact h.pos_arr k hk
  · rintro rfl
    exact (h.arr_pos x).symm

/-- When the elements of the first places stay there, no others come there. -/
theorem pos_eq_of_keeps {i : ℕ} {arr' : ℕ → ι} {pos' : ι → ℕ} (h : Indexed n arr pos)
    (h' : Indexed n arr' pos') (keeps : ∀ x, pos x < i → pos' x = pos x) (hx : pos' x < i) :
    pos x = pos' x := by
  have hthere : pos (arr (pos' x)) = pos' x := h.pos_arr _ (h'.pos_lt x)
  have hkeeps : pos' (arr (pos' x)) = pos' x := by rw [keeps _ (hthere.symm ▸ hx), hthere]
  rwa [h'.pos_inj hkeeps] at hthere

/-- The array after `g` and the element at place `k` have changed places. -/
def exchangeArr (arr : ℕ → ι) (pos : ι → ℕ) (g : ι) (k : ℕ) : ℕ → ι :=
  Function.update (Function.update arr (pos g) (arr k)) k g

theorem exchangeArr_apply (i : ℕ) : exchangeArr arr pos g k i =
    if i = k then g else if i = pos g then arr k else arr i := by
  simp only [exchangeArr, Function.update_apply]

section exchange

variable [DecidableEq ι]

def exchangePos (arr : ℕ → ι) (pos : ι → ℕ) (g : ι) (k : ℕ) : ι → ℕ :=
  Function.update (Function.update pos (arr k) (pos g)) g k

theorem exchangePos_apply (x : ι) : exchangePos arr pos g k x =
    if x = g then k else if x = arr k then pos g else pos x := by
  simp only [exchangePos, Function.update_apply]

theorem exchange (h : Indexed n arr pos) (hk : k < n) :
    Indexed n (exchangeArr arr pos g k) (exchangePos arr pos g k) where
  pos_lt x := by
    rw [exchangePos_apply]
    split
    · exact hk
    · split
      · exact h.pos_lt g
      · exact h.pos_lt x
  arr_pos x := by
    rw [exchangePos_apply, exchangeArr_apply]
    by_cases hx : x = g
    · rw [if_pos hx, if_pos rfl, hx]
    · rw [if_neg hx]
      have hxg : pos x ≠ pos g := fun he => hx (h.pos_inj he)
      by_cases hxk : x = arr k
      · have hxpos : pos x = k := (h.eq_arr_iff hk).mp hxk
        have hgk : pos g ≠ k := fun he => hxg (hxpos.trans he.symm)
        rw [if_pos hxk, if_neg hgk, if_pos rfl, hxk]
      · have hxpos : pos x ≠ k := fun he => hxk ((h.eq_arr_iff hk).mpr he)
        rw [if_neg hxk, if_neg hxpos, if_neg hxg, h.arr_pos]
  pos_arr i hi := by
    rw [exchangeArr_apply, exchangePos_apply]
    by_cases hik : i = k
    · rw [if_pos hik, if_pos rfl, hik]
    · rw [if_neg hik]
      by_cases hig : i = pos g
      · have hkg : arr k ≠ g := fun he => hik (by rw [hig, ← he, h.pos_arr k hk])
        rw [if_pos hig, if_neg hkg, if_pos rfl, hig]
      · have hne : arr i ≠ g := fun he => hig (by rw [← he, h.pos_arr i hi])
        have hnk : arr i ≠ arr k := fun he => hik (by rw [← h.pos_arr i hi, he, h.pos_arr k hk])
        rw [if_neg hig, if_neg hne, if_neg hnk, h.pos_arr i hi]

end exchange

section rearrange

variable {z : ℕ} {order : List ι}

/-- Rearranging the first places. -/
theorem rearrange (h : Indexed n arr pos) (hz : z ≤ n)
    (horder : order.Perm ((List.range z).map arr)) {newPos : ι → ℕ}
    (hnew : ∀ i (hi : i < order.length), newPos order[i] = i)
    (hold : ∀ x, x ∉ order → newPos x = pos x) :
    Indexed n (fun i => (order[i]?).getD (arr i)) newPos := by
  have hlength : order.length = z := by simpa using horder.length_eq
  have hmem : ∀ x, x ∈ order ↔ pos x < z := by
    intro x
    rw [horder.mem_iff]
    constructor
    · intro hx
      obtain ⟨i, hi, rfl⟩ := List.mem_map.mp hx
      have hiz := List.mem_range.mp hi
      rw [h.pos_arr i (by omega)]
      exact hiz
    · intro hx
      exact List.mem_map.mpr ⟨pos x, List.mem_range.mpr hx, h.arr_pos x⟩
  refine ⟨?_, ?_, ?_⟩
  · intro x
    by_cases hx : x ∈ order
    · obtain ⟨i, hi, rfl⟩ := List.getElem_of_mem hx
      rw [hnew i hi]
      omega
    · rw [hold x hx]
      exact h.pos_lt x
  · intro x
    by_cases hx : x ∈ order
    · obtain ⟨i, hi, rfl⟩ := List.getElem_of_mem hx
      rw [hnew i hi, List.getElem?_eq_getElem hi, Option.getD_some]
    · have hge : ¬ pos x < z := fun hlt => hx ((hmem x).mpr hlt)
      rw [hold x hx, List.getElem?_eq_none (by omega), Option.getD_none, h.arr_pos]
  · intro i hi
    by_cases hiz : i < order.length
    · rw [List.getElem?_eq_getElem hiz, Option.getD_some, hnew i hiz]
    · have hpos := h.pos_arr i hi
      have hx : arr i ∉ order := fun hin => by
        have := (hmem _).mp hin
        omega
      rw [List.getElem?_eq_none (by omega), Option.getD_none, hold _ hx, hpos]

end rearrange

end Indexed

end TNL.Library
