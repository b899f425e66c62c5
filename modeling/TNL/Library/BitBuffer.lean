import Mathlib.Data.List.Basic
import Mathlib.Tactic.Common

/-!
# Bits of a list of bytes

Bit `i` is bit `i % 8` of byte `i / 8`, and there are zeros after the end. The bits of
a range are replaced by others, or others are joined to them.
-/
namespace TNL.Library

def bitAt (bytes : List UInt8) (i : ℕ) : Bool :=
  (bytes[i / 8]?.getD 0).toBitVec.getLsbD (i % 8)

/-- Bits in which the `n` from `start` on are those of a source. -/
def overwrite (start n : ℕ) (source bits : ℕ → Bool) (i : ℕ) : Bool :=
  if start ≤ i ∧ i < start + n then source (i - start) else bits i

/-- Bits in which those of a source are joined to the `n` from `start` on. -/
def joinBits (start n : ℕ) (source bits : ℕ → Bool) (i : ℕ) : Bool :=
  if start ≤ i ∧ i < start + n then bits i || source (i - start) else bits i

variable {bytes new : List UInt8} {source source' bits : ℕ → Bool} {start n m i j k : ℕ}

/-! ### Ranges of bits -/

theorem overwrite_apply (hk : k < n) : overwrite start n source bits (start + k) = source k := by
  rw [overwrite, if_pos ⟨Nat.le_add_right .., Nat.add_lt_add_left hk start⟩, Nat.add_sub_cancel_left]

theorem overwrite_of_outside (h : i < start ∨ start + n ≤ i) :
    overwrite start n source bits i = bits i :=
  if_neg (by omega)

/-- The bits of the range are those of the source. -/
theorem overwrite_eq_iff :
    overwrite start n source bits = overwrite start n source' bits ↔
      ∀ k < n, source k = source' k := by
  constructor
  · intro heq k hk
    have hbits := congrFun heq (start + k)
    rwa [overwrite_apply hk, overwrite_apply hk] at hbits
  · intro hsource
    funext i
    by_cases hin : start ≤ i ∧ i < start + n
    · obtain ⟨k, rfl⟩ : ∃ k, i = start + k := ⟨i - start, by omega⟩
      rw [overwrite_apply (by omega), overwrite_apply (by omega), hsource k (by omega)]
    · rw [overwrite_of_outside (by omega), overwrite_of_outside (by omega)]

theorem overwrite_congr (hsource : ∀ k < n, source k = source' k) :
    overwrite start n source bits = overwrite start n source' bits :=
  overwrite_eq_iff.mpr hsource

/-- Two neighbouring ranges are one. -/
theorem overwrite_overwrite (hsource : ∀ k, source' k = source (n + k)) :
    overwrite (start + n) m source' (overwrite start n source bits) =
      overwrite start (n + m) source bits := by
  funext i
  by_cases hout : i < start ∨ start + (n + m) ≤ i
  · rw [overwrite_of_outside (by omega), overwrite_of_outside (by omega), overwrite_of_outside hout]
  · by_cases hlow : i < start + n
    · obtain ⟨k, rfl⟩ : ∃ k, i = start + k := ⟨i - start, by omega⟩
      rw [overwrite_of_outside (.inl hlow), overwrite_apply (by omega), overwrite_apply (by omega)]
    · obtain ⟨k, rfl⟩ : ∃ k, i = start + n + k := ⟨i - (start + n), by omega⟩
      rw [overwrite_apply (by omega), hsource, Nat.add_assoc start n k, overwrite_apply (by omega)]

/-- Joining is replacing by the joined bits. -/
theorem joinBits_eq (start n : ℕ) (source bits : ℕ → Bool) : joinBits start n source bits =
    overwrite start n (fun k => bits (start + k) || source k) bits := by
  funext i
  rw [joinBits, overwrite]
  split_ifs with hin
  · rw [Nat.add_sub_cancel' hin.1]
  · rfl

theorem joinBits_apply (hk : k < n) :
    joinBits start n source bits (start + k) = (bits (start + k) || source k) := by
  rw [joinBits_eq, overwrite_apply hk]

theorem joinBits_of_outside (h : i < start ∨ start + n ≤ i) :
    joinBits start n source bits i = bits i :=
  if_neg (by omega)

@[simp] theorem joinBits_zero (start : ℕ) (source bits : ℕ → Bool) :
    joinBits start 0 source bits = bits := by
  funext i
  exact joinBits_of_outside (by omega)

theorem joinBits_congr (hsource : ∀ k < n, source k = source' k) :
    joinBits start n source bits = joinBits start n source' bits := by
  rw [joinBits_eq, joinBits_eq]
  apply overwrite_congr
  intro k hk
  rw [hsource k hk]

/-- Two neighbouring ranges are one. -/
theorem joinBits_joinBits (hsource : ∀ k, source' k = source (n + k)) :
    joinBits (start + n) m source' (joinBits start n source bits) =
      joinBits start (n + m) source bits := by
  have hlater : ∀ k < m, (joinBits start n source bits (start + n + k) || source' k) =
      (bits (start + (n + k)) || source (n + k)) := by
    intro k _
    rw [joinBits_of_outside (.inr (by omega)), hsource, Nat.add_assoc]
  rw [joinBits_eq (start + n), overwrite_congr hlater, joinBits_eq start n,
    joinBits_eq start (n + m)]
  exact overwrite_overwrite fun _ => rfl

/-- Joining is replacing exactly if nothing is set but what the source sets. -/
theorem joinBits_eq_overwrite_iff :
    joinBits start n source bits = overwrite start n source bits ↔
      ∀ k < n, bits (start + k) = true → source k = true := by
  rw [joinBits_eq, overwrite_eq_iff]
  refine forall₂_congr fun k _ => ?_
  cases bits (start + k) <;> simp

/-- Replacing more bits is replacing fewer exactly if the others are there already. -/
theorem overwrite_eq_overwrite_iff (hle : n ≤ m) :
    overwrite start m source bits = overwrite start n source bits ↔
      ∀ k, n ≤ k → k < m → bits (start + k) = source k := by
  constructor
  · intro heq k hn hm
    have hbits := congrFun heq (start + k)
    rw [overwrite_apply hm, overwrite_of_outside (.inr (by omega))] at hbits
    exact hbits.symm
  · intro h
    funext i
    by_cases hin : start ≤ i ∧ i < start + n
    · obtain ⟨k, rfl⟩ : ∃ k, i = start + k := ⟨i - start, by omega⟩
      rw [overwrite_apply (by omega), overwrite_apply (by omega)]
    · rw [overwrite_of_outside (by omega : i < start ∨ start + n ≤ i)]
      by_cases hmore : start ≤ i ∧ i < start + m
      · obtain ⟨k, rfl⟩ : ∃ k, i = start + k := ⟨i - start, by omega⟩
        rw [overwrite_apply (by omega), h k (by omega) (by omega)]
      · exact overwrite_of_outside (by omega)

/-! ### Bytes -/

theorem bitAt_eq {byte : UInt8} (h : bytes[i / 8]? = some byte) :
    bitAt bytes i = byte.toBitVec.getLsbD (i % 8) := by
  rw [bitAt, h, Option.getD_some]

theorem bitAt_set {byte : UInt8} (hj : j < bytes.length) (i : ℕ) :
    bitAt (bytes.set j byte) i =
      if i / 8 = j then byte.toBitVec.getLsbD (i % 8) else bitAt bytes i := by
  rw [bitAt, List.getElem?_set]
  by_cases hi : j = i / 8
  · rw [if_pos hi, if_pos (hi ▸ hj), if_pos hi.symm, Option.getD_some]
  · rw [if_neg hi, if_neg (Ne.symm hi), bitAt]

/-- Whole bytes are replaced by others. -/
theorem bitAt_splice (hfits : start + new.length ≤ bytes.length) :
    bitAt (bytes.take start ++ new ++ bytes.drop (start + new.length)) =
      overwrite (8 * start) (8 * new.length) (bitAt new) (bitAt bytes) := by
  funext i
  have hstart : (bytes.take start).length = start := List.length_take_of_le (by omega)
  rw [bitAt, List.append_assoc]
  by_cases hlow : i / 8 < start
  · rw [List.getElem?_append_left (by omega), List.getElem?_take_of_lt hlow,
      overwrite_of_outside (.inl (by omega)), bitAt]
  · rw [List.getElem?_append_right (by omega), hstart]
    by_cases hnew : i / 8 - start < new.length
    · obtain ⟨k, rfl⟩ : ∃ k, i = 8 * start + k := ⟨i - 8 * start, by omega⟩
      rw [List.getElem?_append_left hnew, overwrite_apply (by omega), bitAt,
        show (8 * start + k) / 8 - start = k / 8 by omega,
        show (8 * start + k) % 8 = k % 8 by omega]
    · rw [List.getElem?_append_right (by omega), List.getElem?_drop,
        overwrite_of_outside (.inr (by omega)), bitAt,
        show start + new.length + (i / 8 - start - new.length) = i / 8 by omega]

theorem bitAt_take (hi : i < 8 * n) : bitAt (bytes.take n) i = bitAt bytes i := by
  rw [bitAt, List.getElem?_take_of_lt (by omega), bitAt]

theorem bitAt_drop (n : ℕ) (bytes : List UInt8) (i : ℕ) :
    bitAt (bytes.drop n) i = bitAt bytes (8 * n + i) := by
  rw [bitAt, List.getElem?_drop, bitAt, show (8 * n + i) / 8 = n + i / 8 by omega,
    show (8 * n + i) % 8 = i % 8 by omega]

theorem bitAt_append_left (hi : i < 8 * bytes.length) : bitAt (bytes ++ new) i = bitAt bytes i := by
  rw [bitAt, List.getElem?_append_left (by omega), bitAt]

theorem bitAt_of_forall_zero (hzero : ∀ byte ∈ bytes, byte = 0) (i : ℕ) :
    bitAt bytes i = false := by
  rw [bitAt]
  cases hbyte : bytes[i / 8]? with
  | none => exact BitVec.getLsbD_zero
  | some byte =>
    rw [hzero byte (List.mem_of_getElem? hbyte)]
    exact BitVec.getLsbD_zero

end TNL.Library
