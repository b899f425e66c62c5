import TNL.Event.ClassNegotiation
import Mathlib.Data.Nat.Log

/-!
# How many bits an index takes

`getNextBinLog2` is the exponent of the next power of two, except that single
precision rounds the numbers just below a power of two up to it. Two numbers that
follow each other mostly get the same.
-/
namespace TNL

/-- The bits of an index below a count. -/
def indexBits (count : ℕ) : ℕ := (getNextBinLog2 (BitVec.ofNat 32 count)).toNat

/-- The count is rounded to the power of two above. -/
def RoundsUp (exponent count : ℕ) : Prop :=
  24 ≤ exponent ∧ 2 ^ (exponent + 1) - 2 ^ (exponent - 24) ≤ count

instance (exponent count : ℕ) : Decidable (RoundsUp exponent count) :=
  inferInstanceAs (Decidable (_ ∧ _))

/-- A count whose indices are not as long as those of the count after it. -/
def IndexBitsStep (count : ℕ) : Prop :=
  count.isPowerOfTwo ∨ 24 ≤ count.log2 ∧
    (count + 1 = 2 ^ (count.log2 + 1) ∨
      count + 1 = 2 ^ (count.log2 + 1) - 2 ^ (count.log2 - 24))

variable {e n : ℕ}

theorem toNat_ofNat_of_lt (hn : n < 2 ^ 32) : (BitVec.ofNat 32 n).toNat = n := by
  rw [BitVec.toNat_ofNat, Nat.mod_eq_of_lt hn]

theorem isPow2_ofNat (hpos : 0 < n) (hn : n < 2 ^ 32) :
    isPow2 (BitVec.ofNat 32 n) = true ↔ n.isPowerOfTwo := by
  have hone : (BitVec.ofNat 32 n - 1).toNat = n - 1 := by
    rw [BitVec.toNat_sub, toNat_ofNat_of_lt hn]
    simp
    omega
  rw [isPow2, decide_eq_true_iff, ← Nat.and_sub_one_eq_zero_iff_isPowerOfTwo hpos.ne',
    ← BitVec.toNat_inj, BitVec.toNat_and, hone, toNat_ofNat_of_lt hn]
  rfl

theorem getBinLog2_ofNat (hpos : 0 < n) (hn : n < 2 ^ 32) :
    (getBinLog2 (BitVec.ofNat 32 n)).toNat =
      if RoundsUp n.log2 n then n.log2 + 1 else n.log2 := by
  have hzero : BitVec.ofNat 32 n ≠ 0 := by
    intro h
    have := congrArg BitVec.toNat h
    rw [toNat_ofNat_of_lt hn] at this
    exact hpos.ne' this
  have hlog : n.log2 < 32 := (Nat.log2_lt hpos.ne').mpr hn
  rw [getBinLog2, if_neg hzero]
  simp only [toNat_ofNat_of_lt hn]
  by_cases hround : RoundsUp n.log2 n
  · rw [if_pos hround, if_pos (show _ ∧ _ from hround)]
    exact toNat_ofNat_of_lt (by omega)
  · rw [if_neg hround, if_neg (show ¬ (_ ∧ _) from hround)]
    exact toNat_ofNat_of_lt (by omega)

theorem indexBits_eq (hpos : 0 < n) (hn : n < 2 ^ 32) : indexBits n =
    (if RoundsUp n.log2 n then n.log2 + 1 else n.log2) + if n.isPowerOfTwo then 0 else 1 := by
  have hlog : n.log2 < 32 := (Nat.log2_lt hpos.ne').mpr hn
  have hbits := getBinLog2_ofNat hpos hn
  have hsmall : (getBinLog2 (BitVec.ofNat 32 n)).toNat ≤ 32 := by
    rw [hbits]
    split_ifs <;> omega
  rw [indexBits, getNextBinLog2, BitVec.toNat_add, hbits]
  rw [hbits] at hsmall
  by_cases hpow : n.isPowerOfTwo
  · rw [if_pos ((isPow2_ofNat hpos hn).mpr hpow), if_pos hpow]
    exact Nat.mod_eq_of_lt (by simp; omega)
  · rw [if_neg (fun h => hpow ((isPow2_ofNat hpos hn).mp h)), if_neg hpow]
    exact Nat.mod_eq_of_lt (by simp; omega)

/-- A count that is no power of two lies between two of them. -/
theorem log2_bounds (hpos : 0 < n) : 2 ^ n.log2 ≤ n ∧ n < 2 ^ (n.log2 + 1) :=
  (Nat.log2_eq_iff hpos.ne').mp rfl

theorem isPowerOfTwo_iff (hpos : 0 < n) : n.isPowerOfTwo ↔ n = 2 ^ n.log2 := by
  constructor
  · rintro ⟨k, rfl⟩
    rw [Nat.log2_two_pow]
  · exact fun h => ⟨n.log2, h⟩

theorem not_roundsUp_two_pow (e : ℕ) : ¬ RoundsUp e (2 ^ e) := by
  rintro ⟨hlarge, hle⟩
  have hlow : 2 ^ (e - 24) < 2 ^ e := Nat.pow_lt_pow_right (by decide) (by omega)
  rw [pow_succ] at hle
  omega

theorem indexBits_two_pow (he : e < 32) : indexBits (2 ^ e) = e := by
  have hn : 2 ^ e < 2 ^ 32 := Nat.pow_lt_pow_right (by decide) he
  rw [indexBits_eq (Nat.two_pow_pos e) hn, Nat.log2_two_pow, if_neg (not_roundsUp_two_pow e),
    if_pos ⟨e, rfl⟩]
  rfl

/-- Between two powers of two. -/
theorem indexBits_between (hlow : 2 ^ e < n) (hhigh : n < 2 ^ (e + 1)) (hn : n < 2 ^ 32) :
    indexBits n = if RoundsUp e n then e + 2 else e + 1 := by
  have hpos : 0 < n := by omega
  have hlog : n.log2 = e := (Nat.log2_eq_iff hpos.ne').mpr ⟨hlow.le, hhigh⟩
  have hpow : ¬ n.isPowerOfTwo := by
    rw [isPowerOfTwo_iff hpos, hlog]
    exact hlow.ne'
  rw [indexBits_eq hpos hn, hlog, if_neg hpow]
  split_ifs <;> rfl

/-- An index below the count has no more bits. -/
theorem le_two_pow_indexBits (hpos : 0 < n) (hn : n < 2 ^ 32) : n ≤ 2 ^ indexBits n := by
  obtain ⟨hlow, hhigh⟩ := log2_bounds hpos
  have hlog : n.log2 < 32 := (Nat.log2_lt hpos.ne').mpr hn
  rcases hlow.eq_or_lt with heq | hlt
  · rw [← heq, indexBits_two_pow hlog]
  · refine hhigh.le.trans (Nat.pow_le_pow_right (by decide) ?_)
    rw [indexBits_between hlt hhigh hn]
    split_ifs <;> omega

/-- Above, a count is rounded up to the highest power of two. -/
theorem indexBits_le (hpos : 0 < n) (hn : n < 2 ^ 32 - 128) : indexBits n ≤ 32 := by
  obtain ⟨hlow, hhigh⟩ := log2_bounds hpos
  have hlog : n.log2 < 32 := (Nat.log2_lt hpos.ne').mpr (by omega)
  rcases hlow.eq_or_lt with heq | hlt
  · rw [← heq, indexBits_two_pow hlog]
    omega
  · rw [indexBits_between hlt hhigh (by omega)]
    split
    case isTrue hround =>
      have hnot : n.log2 ≠ 31 := by
        intro hmax
        rw [hmax] at hround
        have := hround.2
        omega
      omega
    case isFalse => omega

/-- The count after is at most one bit longer, and as long but for the exceptions. -/
theorem indexBits_succ (hpos : 0 < n) (hn : n + 1 < 2 ^ 32) :
    indexBits (n + 1) ≤ indexBits n + 1 ∧ (indexBits (n + 1) = indexBits n ↔ ¬ IndexBitsStep n) := by
  obtain ⟨hlow, hhigh⟩ := log2_bounds hpos
  have hlog : n.log2 < 32 := (Nat.log2_lt hpos.ne').mpr (by omega)
  rw [IndexBitsStep, isPowerOfTwo_iff hpos]
  generalize n.log2 = e at hlow hhigh hlog
  have hdouble : 2 ^ (e + 1) = 2 * 2 ^ e := by rw [pow_succ, Nat.mul_comm]
  rcases hlow.eq_or_lt with rfl | hlt
  · -- A power of two: the next count is longer.
    rw [indexBits_two_pow hlog]
    rcases Nat.eq_zero_or_pos e with rfl | hpos
    · have htwo : indexBits (2 ^ 0 + 1) = 1 := indexBits_two_pow (e := 1) (by decide)
      rw [htwo]
      simp
    · have hmore : 2 ^ 1 ≤ 2 ^ e := Nat.pow_le_pow_right (by decide) hpos
      have hnot : ¬ RoundsUp e (2 ^ e + 1) := by
        rintro ⟨hlarge, hle⟩
        have hgap : 2 ^ (e - 24 + 1) ≤ 2 ^ e := Nat.pow_le_pow_right (by decide) (by omega)
        rw [pow_succ] at hgap
        have hfour : 2 ^ 2 ≤ 2 ^ e := Nat.pow_le_pow_right (by decide) (by omega)
        omega
      rw [indexBits_between (e := e) (by omega) (by omega) hn, if_neg hnot]
      simp
  · have hne : n ≠ 2 ^ e := hlt.ne'
    rw [indexBits_between hlt hhigh (by omega)]
    rcases (show n + 1 ≤ 2 ^ (e + 1) from hhigh).eq_or_lt with hlast | hinner
    · -- The next count is a power of two, which is not rounded.
      have hnext : e + 1 < 32 := (Nat.pow_lt_pow_iff_right (by decide)).mp (hlast ▸ hn)
      have hround : RoundsUp e n ↔ 24 ≤ e := by
        have hgap : 0 < 2 ^ (e - 24) := Nat.two_pow_pos _
        constructor
        · exact fun h => h.1
        · exact fun h => ⟨h, by omega⟩
      rw [hlast, indexBits_two_pow hnext]
      by_cases hlarge : 24 ≤ e
      · rw [if_pos (hround.mpr hlarge)]
        simp [hlarge]
      · rw [if_neg (fun h => hlarge (hround.mp h))]
        simp [hlarge, hne]
    · rw [indexBits_between (e := e) (by omega) hinner hn]
      have hnot : n + 1 ≠ 2 ^ (e + 1) := hinner.ne
      by_cases hround : RoundsUp e n
      · have hnext : RoundsUp e (n + 1) := ⟨hround.1, hround.2.trans (Nat.le_succ n)⟩
        have hfirst : n + 1 ≠ 2 ^ (e + 1) - 2 ^ (e - 24) := by
          have := hround.2
          omega
        rw [if_pos hround, if_pos hnext]
        simp [hne, hnot, hfirst]
      · rw [if_neg hround]
        by_cases hnext : RoundsUp e (n + 1)
        · have hfirst : n + 1 = 2 ^ (e + 1) - 2 ^ (e - 24) := by
            have hless : ¬ 2 ^ (e + 1) - 2 ^ (e - 24) ≤ n := fun h => hround ⟨hnext.1, h⟩
            have := hnext.2
            omega
          rw [if_pos hnext]
          exact ⟨le_rfl, iff_of_false (by omega) (not_not_intro (Or.inr ⟨hnext.1, Or.inr hfirst⟩))⟩
        · have hfirst : ¬ (24 ≤ e ∧ n + 1 = 2 ^ (e + 1) - 2 ^ (e - 24)) :=
            fun h => hnext ⟨h.1, h.2.ge⟩
          rw [if_neg hnext]
          refine ⟨by omega, iff_of_true rfl ?_⟩
          rintro (hpow | ⟨hlarge, hsucc | hsucc⟩)
          · exact hne hpow
          · exact hnot hsucc
          · exact hfirst ⟨hlarge, hsucc⟩

end TNL
