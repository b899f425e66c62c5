import Mathlib.Tactic.Common
import Mathlib.Tactic.Linarith
import Mathlib.Data.Nat.Bitwise
import Mathlib.Data.Nat.ModEq

/-!
# Counters sent as their low bits

A counter that both ends follow closely is sent as its residue modulo a window
size. The receiver picks the least value of that residue at or above a base it
already knows. The reconstruction is exact as long as the sent value lies in
the window starting at the base, and lands one window too high otherwise.
-/
namespace TNL.Library

/-- The least number at or above `base` whose residue modulo `m` is `low`. -/
def expandCounter (m base low : ℕ) : ℕ :=
  if base / m * m + low < base then base / m * m + low + m else base / m * m + low

variable {m base low v : ℕ}

theorem le_expandCounter (hlow : low < m) : base ≤ expandCounter m base low := by
  have hdiv := Nat.div_add_mod base m
  have hmod := Nat.mod_lt base (by omega : 0 < m)
  rw [Nat.mul_comm] at hdiv
  unfold expandCounter
  split <;> omega

theorem expandCounter_lt (hlow : low < m) : expandCounter m base low < base + m := by
  have hdiv := Nat.div_add_mod base m
  have hmod := Nat.mod_lt base (by omega : 0 < m)
  rw [Nat.mul_comm] at hdiv
  unfold expandCounter
  split <;> omega

theorem expandCounter_mod (hlow : low < m) : expandCounter m base low % m = low := by
  unfold expandCounter
  split
  · rw [Nat.add_mod_right, Nat.mul_add_mod_self_right, Nat.mod_eq_of_lt hlow]
  · rw [Nat.mul_add_mod_self_right, Nat.mod_eq_of_lt hlow]

/-- Two numbers of one residue inside one window are equal. -/
theorem eq_of_mod_eq_of_window {a b : ℕ} (ha : base ≤ a) (ha' : a < base + m) (hb : base ≤ b)
    (hb' : b < base + m) (h : a % m = b % m) : a = b := by
  have key : (a - base) % m = (b - base) % m := by
    have ea : a = base + (a - base) := by omega
    have eb : b = base + (b - base) := by omega
    rw [ea, eb] at h
    exact Nat.ModEq.add_left_cancel' base h
  rw [Nat.mod_eq_of_lt (by omega), Nat.mod_eq_of_lt (by omega)] at key
  omega

/-- A value inside the window is reconstructed exactly. -/
theorem expandCounter_of_mem (hm : 0 < m) (hv : base ≤ v) (hv' : v < base + m) :
    expandCounter m base (v % m) = v :=
  eq_of_mod_eq_of_window (le_expandCounter (Nat.mod_lt v hm)) (expandCounter_lt (Nat.mod_lt v hm))
    hv hv' (expandCounter_mod (Nat.mod_lt v hm))

/-- A value up to one window below the base is taken for its successor one window up. -/
theorem expandCounter_of_lt (hm : 0 < m) (hv : v < base) (hv' : base ≤ v + m) :
    expandCounter m base (v % m) = v + m := by
  have h : expandCounter m base ((v + m) % m) = v + m := expandCounter_of_mem hm hv' (by omega)
  rwa [Nat.add_mod_right] at h

/-- A value below the base is taken for one some windows up. -/
theorem expandCounter_eq_add (hm : 0 < m) (hv : v < base) :
    ∃ k, expandCounter m base (v % m) = v + m * (k + 1) := by
  have hle : base ≤ expandCounter m base (v % m) := le_expandCounter (Nat.mod_lt v hm)
  have hmod : v ≡ expandCounter m base (v % m) [MOD m] :=
    (expandCounter_mod (Nat.mod_lt v hm)).symm
  obtain ⟨k, hk⟩ := (Nat.modEq_iff_dvd' (by omega)).mp hmod
  cases k with
  | zero =>
    rw [Nat.mul_zero] at hk
    omega
  | succ k => exact ⟨k, by omega⟩

/-- The masked form of the reconstruction on machine words: clearing the low `k` bits of the
base and or-ing in the transmitted ones. -/
theorem toNat_or_and_mask {w k : ℕ} (hk : k ≤ w) (base : BitVec w) (low : BitVec k) :
    (low.setWidth w ||| (base &&& (BitVec.allOnes w <<< k))).toNat =
      base.toNat / 2 ^ k * 2 ^ k + low.toNat := by
  have hmask : base &&& (BitVec.allOnes w <<< k) = (base >>> k) <<< k := by
    ext i hi
    by_cases hik : i < k
    · simp [hik]
    · simp [hik, hi, show k + (i - k) = i by omega]
  have hlow : low.toNat < 2 ^ k := low.isLt
  have hpow : 2 ^ k ≤ 2 ^ w := Nat.pow_le_pow_right (by omega) hk
  rw [hmask, BitVec.toNat_or, BitVec.toNat_shiftLeft, BitVec.toNat_ushiftRight,
    BitVec.toNat_setWidth, Nat.mod_eq_of_lt (by omega : low.toNat < 2 ^ w)]
  have hbase : base.toNat >>> k <<< k < 2 ^ w := by
    rw [Nat.shiftLeft_eq, Nat.shiftRight_eq_div_pow]
    exact lt_of_le_of_lt (Nat.div_mul_le_self _ _) base.isLt
  rw [Nat.mod_eq_of_lt hbase, Nat.or_comm, ← Nat.shiftLeft_add_eq_or_of_lt hlow,
    Nat.shiftLeft_eq, Nat.shiftRight_eq_div_pow]

/-- Completing a truncated counter in machine arithmetic is `expandCounter`, up to the wrap. -/
theorem toNat_complete {w k : ℕ} (hk : k < w) (base window : BitVec w) (low : BitVec k)
    (hwindow : window.toNat = 2 ^ k) :
    (if low.setWidth w ||| (base &&& (BitVec.allOnes w <<< k)) < base then
      (low.setWidth w ||| (base &&& (BitVec.allOnes w <<< k))) + window
    else low.setWidth w ||| (base &&& (BitVec.allOnes w <<< k))).toNat =
      expandCounter (2 ^ k) base.toNat low.toNat % 2 ^ w := by
  have hs := toNat_or_and_mask hk.le base low
  generalize low.setWidth w ||| (base &&& (BitVec.allOnes w <<< k)) = completed at hs ⊢
  unfold expandCounter
  rw [← hs]
  by_cases hlt : completed < base
  · rw [if_pos hlt, if_pos (BitVec.lt_def.mp hlt), BitVec.toNat_add, hwindow]
  · rw [if_neg hlt, if_neg (fun h => hlt (BitVec.lt_def.mpr h)),
      Nat.mod_eq_of_lt completed.isLt]

end TNL.Library
