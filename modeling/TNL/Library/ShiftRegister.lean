import Mathlib.Algebra.CharP.Two
import Mathlib.Algebra.Field.ZMod
import Mathlib.Algebra.Polynomial.FieldDivision
import Mathlib.Tactic.LinearCombination

/-!
# Shift registers with feedback

A register shifts to the right, and the feedback word is added when a one falls out. Bits are fed
in at the low end. The words are the polynomials over two elements of a bounded degree, with the
highest coefficient in the lowest bit, and the register divides: it holds the remainder of what
was fed in by the generator, whose coefficients are the feedback word.
-/
namespace TNL.Library.ShiftRegister

open Polynomial
open scoped BigOperators

section words

variable {n : ℕ} (feedback : BitVec n)

def shift (c : BitVec n) : BitVec n :=
  if c.getLsbD 0 then feedback ^^^ (c >>> 1) else c >>> 1

def shifts : ℕ → BitVec n → BitVec n
  | 0, c => c
  | k + 1, c => shifts k (shift feedback c)

/-- A word with one bit, at the low end. -/
def low (b : Bool) : BitVec n := if b then 1#n else 0#n

def feedBit (c : BitVec n) (b : Bool) : BitVec n := shift feedback (c ^^^ low b)

def feed (c : BitVec n) (bs : List Bool) : BitVec n := bs.foldl (feedBit feedback) c

/-- The first bits of a word, the lowest one first. -/
def bits : ℕ → BitVec n → List Bool
  | 0, _ => []
  | k + 1, v => v.getLsbD 0 :: bits k (v >>> 1)

theorem length_bits (k : ℕ) (v : BitVec n) : (bits k v).length = k := by
  induction k generalizing v with
  | zero => rfl
  | succ k ih => rw [bits, List.length_cons, ih]

theorem feed_append (c : BitVec n) (bs bs' : List Bool) :
    feed feedback c (bs ++ bs') = feed feedback (feed feedback c bs) bs' := List.foldl_append

theorem shift_xor (c d : BitVec n) :
    shift feedback (c ^^^ d) = shift feedback c ^^^ shift feedback d := by
  rw [shift, shift, shift, BitVec.getLsbD_xor, BitVec.ushiftRight_xor_distrib]
  cases c.getLsbD 0 <;> cases d.getLsbD 0 <;>
    simp only [Bool.xor_false, Bool.xor_true, Bool.not_true, Bool.not_false, Bool.false_eq_true,
      if_true, if_false]
  · rw [← BitVec.xor_assoc, ← BitVec.xor_assoc, BitVec.xor_comm feedback]
  · rw [BitVec.xor_assoc]
  · rw [BitVec.xor_comm feedback, BitVec.xor_assoc, ← BitVec.xor_assoc feedback,
      BitVec.xor_self, BitVec.zero_xor]

theorem getLsbD_low (b : Bool) (i : ℕ) :
    (low b : BitVec n).getLsbD i = (decide (i = 0 ∧ 0 < n) && b) := by
  cases b
  · rw [low, if_neg Bool.false_ne_true, BitVec.getLsbD_zero, Bool.and_false]
  · rw [low, if_pos rfl, BitVec.getLsbD_one, Bool.and_true, Bool.decide_and, Bool.and_comm]

/-- A word is its lowest bit and the others. -/
theorem xor_low (v : BitVec n) : low (v.getLsbD 0) ^^^ (v >>> 1) <<< 1 = v := by
  apply BitVec.eq_of_getLsbD_eq
  intro i hi
  rw [BitVec.getLsbD_xor, getLsbD_low, BitVec.getLsbD_shiftLeft, BitVec.getLsbD_ushiftRight]
  cases i with
  | zero => simp [hi]
  | succ i => simp [hi, Nat.add_comm]

theorem shift_shiftLeft (v : BitVec n) : shift feedback ((v >>> 1) <<< 1) = v >>> 1 := by
  have hlow : ((v >>> 1) <<< 1).getLsbD 0 = false := by simp
  rw [shift, hlow, if_neg Bool.false_ne_true]
  apply BitVec.eq_of_getLsbD_eq
  intro i hi
  rw [BitVec.getLsbD_ushiftRight, BitVec.getLsbD_shiftLeft, BitVec.getLsbD_ushiftRight]
  by_cases hnext : 1 + i < n
  · simp [hnext]
  · rw [BitVec.getLsbD_ushiftRight, BitVec.getLsbD_of_ge v (1 + i) (Nat.le_of_not_lt hnext),
      decide_eq_false hnext, Bool.false_and, Bool.false_and]

/-- What is added above the lowest bit has not been fed back yet. -/
theorem shift_xor_eq (c v : BitVec n) :
    shift feedback (c ^^^ v) = feedBit feedback c (v.getLsbD 0) ^^^ (v >>> 1) := by
  conv_lhs => rw [← xor_low v, ← BitVec.xor_assoc, shift_xor, shift_shiftLeft]
  rfl

/-- Bits may be added all at once and shifted out afterwards. -/
theorem feed_bits (k : ℕ) (c v : BitVec n) :
    feed feedback c (bits k v) = shifts feedback k (c ^^^ v) ^^^ (v >>> k) := by
  induction k generalizing c v with
  | zero =>
    rw [bits, shifts, BitVec.ushiftRight_zero, BitVec.xor_assoc, BitVec.xor_self, BitVec.xor_zero]
    rfl
  | succ k ih =>
    rw [bits, shifts, shift_xor_eq, Nat.add_comm k 1, BitVec.shiftRight_add]
    exact ih _ _

theorem feed_bits_of_lt {k : ℕ} {v : BitVec n} (c : BitVec n) (h : v >>> k = 0#n) :
    feed feedback c (bits k v) = shifts feedback k (c ^^^ v) := by
  rw [feed_bits, h, BitVec.xor_zero]

theorem bits_congr {k : ℕ} {v w : BitVec n} (h : ∀ i < k, v.getLsbD i = w.getLsbD i) :
    bits k v = bits k w := by
  induction k generalizing v w with
  | zero => rfl
  | succ k ih =>
    rw [bits, bits, h 0 (Nat.zero_lt_succ k)]
    congr 1
    apply ih
    intro i hi
    rw [BitVec.getLsbD_ushiftRight, BitVec.getLsbD_ushiftRight]
    exact h _ (by omega)

/-- The shifts of a word are those of its low bits and the rest of it moved down, which is what
makes a table of the low bits do. -/
theorem shifts_eq {k : ℕ} {v w : BitVec n} (hsame : ∀ i < k, w.getLsbD i = v.getLsbD i)
    (hlow : w >>> k = 0#n) : shifts feedback k v = shifts feedback k w ^^^ (v >>> k) := by
  have hv := feed_bits feedback k 0#n v
  have hw := feed_bits_of_lt feedback 0#n hlow
  rw [BitVec.zero_xor] at hv hw
  rw [← hw, bits_congr hsame, hv, BitVec.xor_assoc, BitVec.xor_self, BitVec.xor_zero]

end words

noncomputable section

variable {n : ℕ}

/-- A bit as a coefficient. -/
def coefficient (b : Bool) : (ZMod 2)[X] := if b then 1 else 0

theorem coefficient_xor (a b : Bool) : coefficient (a ^^ b) = coefficient a + coefficient b := by
  cases a <;> cases b <;> simp [coefficient, CharTwo.add_self_eq_zero]

/-- The lowest bit of the word is the highest coefficient. -/
def toPoly (c : BitVec (n + 1)) : (ZMod 2)[X] :=
  ∑ i ∈ Finset.range (n + 1), coefficient (c.getLsbD i) * X ^ (n - i)

theorem toPoly_xor (c d : BitVec (n + 1)) : toPoly (c ^^^ d) = toPoly c + toPoly d := by
  rw [toPoly, toPoly, toPoly, ← Finset.sum_add_distrib]
  apply Finset.sum_congr rfl
  intro i _
  rw [BitVec.getLsbD_xor, coefficient_xor, add_mul]

theorem toPoly_low (b : Bool) : toPoly (low b : BitVec (n + 1)) = coefficient b * X ^ n := by
  have hzero : ∀ i, (low b : BitVec (n + 1)).getLsbD (i + 1) = false := by
    intro i
    rw [getLsbD_low, decide_eq_false (fun h => Nat.succ_ne_zero i h.1), Bool.false_and]
  have hone : (low b : BitVec (n + 1)).getLsbD 0 = b := by
    rw [getLsbD_low, decide_eq_true ⟨rfl, Nat.zero_lt_succ n⟩, Bool.true_and]
  rw [toPoly, Finset.sum_range_succ', hone, Nat.sub_zero, Finset.sum_eq_zero, zero_add]
  intro i _
  rw [hzero, coefficient, if_neg Bool.false_ne_true, zero_mul]

/-- A shift to the right multiplies, apart from the coefficient that falls out. -/
theorem toPoly_ushiftRight (c : BitVec (n + 1)) :
    X * toPoly c = toPoly (c >>> 1) + coefficient (c.getLsbD 0) * X ^ (n + 1) := by
  have hlast : coefficient ((c >>> 1).getLsbD n) = 0 := by
    rw [BitVec.getLsbD_ushiftRight, BitVec.getLsbD_of_ge c _ (by omega)]
    rfl
  rw [toPoly, toPoly, Finset.sum_range_succ', Finset.sum_range_succ _ n, hlast, zero_mul,
    add_zero, mul_add, Finset.mul_sum, Nat.sub_zero, pow_succ']
  congr 1
  · apply Finset.sum_congr rfl
    intro i hi
    have hexp : n - i = n - (i + 1) + 1 := by
      have := Finset.mem_range.mp hi
      omega
    rw [BitVec.getLsbD_ushiftRight, Nat.add_comm 1 i, hexp, pow_succ']
    exact mul_left_comm _ _ _
  · exact mul_left_comm _ _ _

/-- Bits as a polynomial, the first one the highest coefficient. -/
def message : List Bool → (ZMod 2)[X]
  | [] => 0
  | b :: bs => coefficient b * X ^ bs.length + message bs

/-- The polynomial that the register divides by. -/
def generator (feedback : BitVec (n + 1)) : (ZMod 2)[X] := X ^ (n + 1) + toPoly feedback

variable (feedback : BitVec (n + 1))

theorem toPoly_shift (c : BitVec (n + 1)) : X * toPoly c =
    toPoly (shift feedback c) + coefficient (c.getLsbD 0) * generator feedback := by
  rw [toPoly_ushiftRight, shift, generator]
  cases c.getLsbD 0
  · rw [if_neg Bool.false_ne_true, coefficient, if_neg Bool.false_ne_true, zero_mul, zero_mul]
  · rw [if_pos rfl, toPoly_xor, coefficient, if_pos rfl, one_mul, one_mul]
    linear_combination -CharTwo.add_self_eq_zero (toPoly feedback)

theorem toPoly_feedBit (c : BitVec (n + 1)) (b : Bool) :
    generator feedback ∣
      X * toPoly c + coefficient b * X ^ (n + 1) - toPoly (feedBit feedback c b) := by
  have hshift := toPoly_shift feedback (c ^^^ low b)
  rw [toPoly_xor, toPoly_low] at hshift
  refine Dvd.intro_left (coefficient ((c ^^^ low b).getLsbD 0)) ?_
  rw [feedBit]
  linear_combination -hshift

/-- The register holds the first remainder times a power, and what was fed in. -/
theorem dvd_feed (c : BitVec (n + 1)) (bs : List Bool) :
    generator feedback ∣ X ^ bs.length * toPoly c + X ^ (n + 1) * message bs -
      toPoly (feed feedback c bs) := by
  induction bs generalizing c with
  | nil => simp [feed, message]
  | cons b bs ih =>
    have hfirst := (toPoly_feedBit feedback c b).mul_left (X ^ bs.length)
    have hsum := dvd_add hfirst (ih (feedBit feedback c b))
    convert hsum using 1
    rw [message, List.length_cons, feed, List.foldl_cons, ← feed]
    ring

theorem degree_toPoly_lt (c : BitVec (n + 1)) : (toPoly c).degree < ((n + 1 : ℕ) : WithBot ℕ) := by
  refine lt_of_le_of_lt (degree_sum_le _ _) ((Finset.sup_lt_iff (WithBot.bot_lt_coe _)).mpr ?_)
  intro i _
  rw [coefficient]
  split_ifs
  · rw [one_mul, degree_X_pow]
    exact_mod_cast Nat.lt_succ_of_le (Nat.sub_le n i)
  · rw [zero_mul, degree_zero]
    exact WithBot.bot_lt_coe _

theorem monic_generator : (generator feedback).Monic := monic_X_pow_add (degree_toPoly_lt feedback)

theorem degree_generator : (generator feedback).degree = ((n + 1 : ℕ) : WithBot ℕ) := by
  rw [generator, degree_add_eq_left_of_degree_lt, degree_X_pow]
  rw [degree_X_pow]
  exact degree_toPoly_lt feedback

/-- The register is the remainder of a division of polynomials. -/
theorem toPoly_feed (c : BitVec (n + 1)) (bs : List Bool) : toPoly (feed feedback c bs) =
    (X ^ bs.length * toPoly c + X ^ (n + 1) * message bs) %ₘ generator feedback := by
  have hself := (modByMonic_eq_self_iff (monic_generator feedback)).mpr
    ((degree_toPoly_lt (feed feedback c bs)).trans_eq (degree_generator feedback).symm)
  rw [modByMonic_eq_of_dvd_sub (monic_generator feedback) (dvd_feed feedback c bs), hself]

theorem message_append (bs bs' : List Bool) :
    message (bs ++ bs') = X ^ bs'.length * message bs + message bs' := by
  induction bs with
  | nil => rw [List.nil_append, message, mul_zero, zero_add]
  | cons b bs ih =>
    rw [List.cons_append, message, ih, message, List.length_append]
    ring

theorem degree_message_lt (bs : List Bool) : (message bs).degree < (bs.length : WithBot ℕ) := by
  induction bs with
  | nil =>
    rw [message, degree_zero]
    exact WithBot.bot_lt_coe _
  | cons b bs ih =>
    have hle : (bs.length : WithBot ℕ) < ((b :: bs).length : WithBot ℕ) := by
      exact_mod_cast Nat.lt_succ_self bs.length
    refine lt_of_le_of_lt (degree_add_le _ _) (max_lt ?_ (ih.trans hle))
    rw [coefficient]
    split_ifs
    · rwa [one_mul, degree_X_pow]
    · rw [zero_mul, degree_zero]
      exact WithBot.bot_lt_coe _

theorem coeff_message_cons (b : Bool) (bs : List Bool) :
    (message (b :: bs)).coeff bs.length = if b then 1 else 0 := by
  rw [message, coeff_add, coeff_eq_zero_of_degree_lt (degree_message_lt bs), add_zero, coefficient]
  cases b <;> simp

theorem message_injective {bs bs' : List Bool} (hlength : bs.length = bs'.length)
    (h : message bs = message bs') : bs = bs' := by
  induction bs generalizing bs' with
  | nil => exact (List.length_eq_zero_iff.mp hlength.symm).symm
  | cons b bs ih =>
    cases bs' with
    | nil => cases hlength
    | cons b' bs' =>
      have hlength' : bs.length = bs'.length := Nat.succ.inj hlength
      have hb : b = b' := by
        have hcoeff := coeff_message_cons b bs
        rw [h, hlength', coeff_message_cons] at hcoeff
        cases b <;> cases b' <;> simp_all
      subst hb
      rw [message, message, hlength'] at h
      rw [ih hlength' (add_left_cancel h)]

theorem coeff_generator_zero (htop : feedback.getLsbD n = true) :
    (generator feedback).coeff 0 = 1 := by
  have hrest : ∀ i ∈ Finset.range n,
      eval 0 (coefficient (feedback.getLsbD i) * X ^ (n - i)) = 0 := by
    intro i hi
    have hpos : n - i ≠ 0 := Nat.sub_ne_zero_of_lt (Finset.mem_range.mp hi)
    rw [eval_mul, eval_pow, eval_X, zero_pow hpos, mul_zero]
  rw [coeff_zero_eq_eval_zero, generator, toPoly, Finset.sum_range_succ, htop, Nat.sub_self,
    pow_zero, mul_one, coefficient, if_pos rfl, eval_add, eval_pow, eval_X,
    zero_pow (Nat.succ_ne_zero n), eval_add, eval_one, eval_finsetSum, Finset.sum_eq_zero hrest,
    zero_add, zero_add]

/-- A generator whose constant coefficient is one has no factor in common with a power. -/
theorem isCoprime_X_pow (htop : feedback.getLsbD n = true) (k : ℕ) :
    IsCoprime (generator feedback) (X ^ k) := by
  apply IsCoprime.pow_right
  have hdvd : X ∣ generator feedback - 1 := by
    rw [X_dvd_iff, coeff_sub, coeff_generator_zero feedback htop, coeff_one_zero, sub_self]
  obtain ⟨q, hq⟩ := hdvd
  exact ⟨1, -q, by linear_combination hq⟩

/-- Messages that differ in no more bits in a row than the register has leave different
remainders. -/
theorem feed_ne (htop : feedback.getLsbD n = true) (c : BitVec (n + 1))
    {before window window' after : List Bool} (hlength : window.length = window'.length)
    (hle : window.length ≤ n + 1) (hne : window ≠ window') :
    feed feedback c (before ++ window ++ after) ≠
      feed feedback c (before ++ window' ++ after) := by
  intro heq
  have h := dvd_feed feedback c (before ++ window ++ after)
  have h' := dvd_feed feedback c (before ++ window' ++ after)
  rw [← heq] at h'
  have hdvd : generator feedback ∣
      X ^ (n + 1 + after.length) * (message window - message window') := by
    have hsub := dvd_sub h h'
    simp only [message_append, List.length_append, hlength] at hsub
    convert hsub using 1
    ring
  have hwindow := (isCoprime_X_pow feedback htop _).dvd_of_dvd_mul_left hdvd
  have hdegree : (message window - message window').degree < (generator feedback).degree := by
    rw [degree_generator]
    refine lt_of_lt_of_le ?_ (Nat.cast_le.mpr hle)
    refine (degree_sub_le _ _).trans_lt (max_lt (degree_message_lt window) ?_)
    exact hlength ▸ degree_message_lt window'
  have hzero := eq_zero_of_dvd_of_degree_lt hwindow hdegree
  exact hne (message_injective hlength (sub_eq_zero.mp hzero))

end

end TNL.Library.ShiftRegister
