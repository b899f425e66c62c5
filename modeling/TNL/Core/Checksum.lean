import TNL.Core.ByteBuffer
import TNL.Library.ShiftRegister

/-!
# Checksums of buffers

The checksum of a part of a buffer is computed byte by byte from a table of 256 words. It is the
register of a division of polynomials that the bits of the part were fed into, the lowest bit of
each byte first. A part that begins behind the end of the buffer has the checksum zero, whatever
the value to go on from is.
-/
namespace TNL.ByteBuffer
open Library Polynomial

def crcPolynomial : UInt32 := 0xedb88320

def crcTableStep (val : UInt32) : UInt32 :=
  if val &&& 0x01 ≠ 0 then crcPolynomial ^^^ (val >>> 1) else val >>> 1

def crcTable : List UInt32 :=
  (List.range 256).map fun i =>
    (List.range 8).foldl (fun val _ => crcTableStep val) (UInt32.ofNat i)

def crcStep (crcVal : UInt32) (b : UInt8) : UInt32 :=
  crcTable.getD ((crcVal ^^^ b.toUInt32) &&& 0xff).toNat 0 ^^^ (crcVal >>> 8)

/-- The bytes of the loop. -/
def part (b : ByteBuffer) (start stop : UInt32) : List UInt8 :=
  let stop := if b.getBufferSize < stop then b.getBufferSize else stop
  (b.bytes.take stop.toNat).drop start.toNat

def calculateCRC (b : ByteBuffer) (start stop crcVal : UInt32) : UInt32 :=
  if b.getBufferSize ≤ start then 0 else (b.part start stop).foldl crcStep crcVal

/-- The bits of a byte, the lowest one first. -/
def bitsOfByte (b : UInt8) : List Bool := ShiftRegister.bits 8 (b.toUInt32.toBitVec)

def bitsOf (bytes : List UInt8) : List Bool := bytes.flatMap bitsOfByte

section table

abbrev feedback : BitVec 32 := crcPolynomial.toBitVec

theorem and_one_ne_zero_iff (val : UInt32) : val &&& 0x01 ≠ 0 ↔ val.toBitVec.getLsbD 0 = true := by
  have hbit : val.toBitVec.getLsbD 0 = decide (val.toNat % 2 = 1) := Nat.testBit_zero val.toNat
  have hand : (val &&& 0x01).toNat = val.toNat % 2 := by
    rw [UInt32.toNat_and]
    exact Nat.and_one_is_mod val.toNat
  rw [hbit, decide_eq_true_iff, Ne, ← UInt32.toNat_inj, hand]
  exact Nat.mod_two_ne_zero

theorem crcTableStep_toBitVec (val : UInt32) :
    (crcTableStep val).toBitVec = ShiftRegister.shift feedback val.toBitVec := by
  rw [crcTableStep, ShiftRegister.shift]
  by_cases h : val &&& 0x01 ≠ 0
  · rw [if_pos h, if_pos ((and_one_ne_zero_iff val).mp h)]
    rfl
  · rw [if_neg h, if_neg fun hbit => h ((and_one_ne_zero_iff val).mpr hbit)]
    rfl

theorem foldl_crcTableStep (k : ℕ) (val : UInt32) :
    ((List.range k).foldl (fun val _ => crcTableStep val) val).toBitVec =
      ShiftRegister.shifts feedback k val.toBitVec := by
  induction k generalizing val with
  | zero => rfl
  | succ k ih =>
    rw [List.range_succ_eq_map, List.foldl_cons, List.foldl_map, ih, crcTableStep_toBitVec]
    rfl

theorem crcTable_getD {i : ℕ} (h : i < 256) : (crcTable.getD i 0).toBitVec =
    ShiftRegister.shifts feedback 8 (BitVec.ofNat 32 i) := by
  have hget : crcTable[i]? = some
      ((List.range 8).foldl (fun val _ => crcTableStep val) (UInt32.ofNat i)) := by
    rw [crcTable, List.getElem?_map, List.getElem?_range h]
    rfl
  rw [List.getD_eq_getElem?_getD, hget, Option.getD_some, foldl_crcTableStep]
  rfl

theorem getLsbD_low_byte (v : BitVec 32) (i : ℕ) :
    (v &&& 0xff#32).getLsbD i = (v.getLsbD i && decide (i < 8)) := by
  have hmask : (0xff#32).getLsbD i = decide (i < 8) := by
    rw [BitVec.getLsbD_ofNat, show 0xff = 2 ^ 8 - 1 from rfl, Nat.testBit_two_pow_sub_one,
      ← Bool.decide_and]
    exact decide_eq_decide.mpr (by omega)
  rw [BitVec.getLsbD_and, hmask]

theorem low_byte_ushiftRight (v : BitVec 32) : (v &&& 0xff#32) >>> 8 = 0#32 := by
  apply BitVec.eq_of_getLsbD_eq
  intro i _
  rw [BitVec.getLsbD_ushiftRight, getLsbD_low_byte, BitVec.getLsbD_zero,
    decide_eq_false (by omega), Bool.and_false]

theorem byte_ushiftRight (b : UInt8) : b.toUInt32.toBitVec >>> 8 = 0#32 := by
  apply BitVec.eq_of_toNat_eq
  rw [BitVec.toNat_ushiftRight, Nat.shiftRight_eq_div_pow]
  exact Nat.div_eq_of_lt b.toNat_lt

/-- A step of the loop feeds the bits of the byte into the register. -/
theorem crcStep_toBitVec (crcVal : UInt32) (b : UInt8) : (crcStep crcVal b).toBitVec =
    ShiftRegister.feed feedback crcVal.toBitVec (bitsOfByte b) := by
  have hlt : ((crcVal ^^^ b.toUInt32) &&& 0xff).toNat < 256 := by
    rw [UInt32.toNat_and]
    exact Nat.lt_succ_of_le Nat.and_le_right
  have hindex : BitVec.ofNat 32 ((crcVal ^^^ b.toUInt32) &&& 0xff).toNat =
      (crcVal.toBitVec ^^^ b.toUInt32.toBitVec) &&& 0xff#32 := 
    (BitVec.ofNat_toNat 32 _).trans (BitVec.setWidth_eq _)
  have hshifts := ShiftRegister.shifts_eq feedback (k := 8)
    (v := crcVal.toBitVec ^^^ b.toUInt32.toBitVec)
    (fun i hi => (getLsbD_low_byte _ i).trans (by rw [decide_eq_true hi, Bool.and_true]))
    (low_byte_ushiftRight _)
  rw [bitsOfByte, ShiftRegister.feed_bits_of_lt _ _ (byte_ushiftRight b), hshifts,
    BitVec.ushiftRight_xor_distrib, byte_ushiftRight, BitVec.xor_zero, crcStep,
    UInt32.toBitVec_xor, crcTable_getD hlt, hindex]
  rfl

theorem foldl_crcStep (bytes : List UInt8) (crcVal : UInt32) :
    (bytes.foldl crcStep crcVal).toBitVec =
      ShiftRegister.feed feedback crcVal.toBitVec (bitsOf bytes) := by
  induction bytes generalizing crcVal with
  | nil => rfl
  | cons b bytes ih =>
    have hbits : bitsOf (b :: bytes) = bitsOfByte b ++ bitsOf bytes := List.flatMap_cons
    rw [List.foldl_cons, ih, crcStep_toBitVec, hbits, ShiftRegister.feed_append]

theorem length_bitsOf (bytes : List UInt8) : (bitsOf bytes).length = 8 * bytes.length := by
  induction bytes with
  | nil => rfl
  | cons b bytes ih =>
    have hbits : bitsOf (b :: bytes) = bitsOfByte b ++ bitsOf bytes := List.flatMap_cons
    rw [hbits, List.length_append, ih, bitsOfByte, ShiftRegister.length_bits, List.length_cons]
    omega

/-- The polynomial that the checksum divides by. -/
theorem generator_eq : ShiftRegister.generator feedback =
    X ^ 32 + X ^ 26 + X ^ 23 + X ^ 22 + X ^ 16 + X ^ 12 + X ^ 11 + X ^ 10 + X ^ 8 + X ^ 7 + X ^ 5 +
      X ^ 4 + X ^ 2 + X + 1 := by
  have hbits : ∀ i, feedback.getLsbD i = (0xedb88320).testBit i := fun i => rfl
  simp only [ShiftRegister.generator, ShiftRegister.toPoly, Finset.sum_range_succ, hbits]
  norm_num [ShiftRegister.coefficient, Nat.testBit, Nat.shiftRight_eq_div_pow]
  ring

end table

section results

variable {b b' : ByteBuffer} {start mid stop crcVal : UInt32}

theorem calculateCRC_toBitVec (h : start < b.getBufferSize) :
    (b.calculateCRC start stop crcVal).toBitVec =
      ShiftRegister.feed feedback crcVal.toBitVec (bitsOf (b.part start stop)) := by
  rw [calculateCRC, if_neg (UInt32.not_le.mpr h), foldl_crcStep]

/-- The checksum is the remainder of the bits of the part by the generator, where the value to go
on from stands before them. -/
theorem calculateCRC_remainder (h : start < b.getBufferSize) :
    ShiftRegister.toPoly (b.calculateCRC start stop crcVal).toBitVec =
      (X ^ (8 * (b.part start stop).length) * ShiftRegister.toPoly crcVal.toBitVec +
        X ^ 32 * ShiftRegister.message (bitsOf (b.part start stop))) %ₘ
          (X ^ 32 + X ^ 26 + X ^ 23 + X ^ 22 + X ^ 16 + X ^ 12 + X ^ 11 + X ^ 10 + X ^ 8 + X ^ 7 +
            X ^ 5 + X ^ 4 + X ^ 2 + X + 1) := by
  rw [calculateCRC_toBitVec h, ShiftRegister.toPoly_feed, generator_eq, length_bitsOf]

/-- The nine digits that are customary for checks, and the checksum before its complement. -/
def digits : ByteBuffer where
  bytes := [0x31, 0x32, 0x33, 0x34, 0x35, 0x36, 0x37, 0x38, 0x39]
  size := by decide

theorem calculateCRC_remainder_digits :
    digits.calculateCRC 0 0xFFFFFFFF 0xFFFFFFFF = 0x340bc6d9 ∧
      ShiftRegister.toPoly (digits.calculateCRC 0 0xFFFFFFFF 0xFFFFFFFF).toBitVec =
        (X ^ (8 * (digits.part 0 0xFFFFFFFF).length) *
            ShiftRegister.toPoly (0xFFFFFFFF : UInt32).toBitVec +
          X ^ 32 * ShiftRegister.message (bitsOf (digits.part 0 0xFFFFFFFF))) %ₘ
            (X ^ 32 + X ^ 26 + X ^ 23 + X ^ 22 + X ^ 16 + X ^ 12 + X ^ 11 + X ^ 10 + X ^ 8 + X ^ 7 +
              X ^ 5 + X ^ 4 + X ^ 2 + X + 1) :=
  ⟨by decide +kernel, calculateCRC_remainder (by decide)⟩

/-- The bytes up to the middle and those from there on. -/
theorem part_append (hstart : start ≤ mid) (hmid : mid ≤ stop) (hsize : mid < b.getBufferSize) :
    b.part start stop = b.part start mid ++ b.part mid stop := by
  have hlength : mid.toNat ≤ b.bytes.length :=
    b.toNat_getBufferSize ▸ (UInt32.lt_iff_toNat_lt.mp hsize).le
  have hend : mid ≤ if b.getBufferSize < stop then b.getBufferSize else stop := by
    split_ifs
    · exact UInt32.le_of_lt hsize
    · exact hmid
  rw [part, part, part, if_neg (UInt32.not_lt.mpr (UInt32.le_of_lt hsize))]
  generalize (if b.getBufferSize < stop then b.getBufferSize else stop) = last at hend
  have htake : b.bytes.take last.toNat =
      b.bytes.take mid.toNat ++ (b.bytes.take last.toNat).drop mid.toNat := by
    conv_lhs => rw [← List.take_append_drop mid.toNat (b.bytes.take last.toNat), List.take_take,
      min_eq_left (UInt32.le_iff_toNat_le.mp hend)]
  conv_lhs => rw [htake]
  rw [List.drop_append_of_le_length]
  rw [List.length_take, min_eq_left hlength]
  exact UInt32.le_iff_toNat_le.mp hstart

/-- A checksum may be computed in two steps, as long as the second one begins in the buffer. -/
theorem calculateCRC_append (hstart : start ≤ mid) (hmid : mid ≤ stop) :
    b.calculateCRC mid stop (b.calculateCRC start mid crcVal) =
      if mid < b.getBufferSize then b.calculateCRC start stop crcVal else 0 := by
  split_ifs with h
  · have hfirst : ¬ b.getBufferSize ≤ start := UInt32.not_le.mpr (UInt32.lt_of_le_of_lt hstart h)
    rw [calculateCRC, if_neg (UInt32.not_le.mpr h), calculateCRC, if_neg hfirst, calculateCRC,
      if_neg hfirst, part_append hstart hmid h, List.foldl_append]
  · exact if_pos (UInt32.not_lt.mp h)

/-- Parts that differ in at most 32 bits in a row have different checksums. -/
theorem calculateCRC_ne (h : start < b.getBufferSize) (h' : start < b'.getBufferSize)
    {before window window' after : List Bool}
    (hpart : bitsOf (b.part start stop) = before ++ window ++ after)
    (hpart' : bitsOf (b'.part start stop) = before ++ window' ++ after)
    (hlength : window.length = window'.length) (hle : window.length ≤ 32)
    (hne : window ≠ window') :
    b.calculateCRC start stop crcVal ≠ b'.calculateCRC start stop crcVal := by
  intro heq
  have hbits := congrArg UInt32.toBitVec heq
  rw [calculateCRC_toBitVec h, calculateCRC_toBitVec h', hpart, hpart'] at hbits
  exact ShiftRegister.feed_ne feedback rfl crcVal.toBitVec hlength hle hne hbits

/-- The first bit of the second digit and the last one of the fourth are changed. -/
theorem calculateCRC_ne_digits : ∃ b : ByteBuffer, digits.calculateCRC 0 0xFFFFFFFF 0xFFFFFFFF ≠
    b.calculateCRC 0 0xFFFFFFFF 0xFFFFFFFF := by
  refine ⟨⟨[0x31, 0x33, 0x33, 0xb4, 0x35, 0x36, 0x37, 0x38, 0x39], by decide⟩, ?_⟩
  have hpart : bitsOf (digits.part 0 0xFFFFFFFF) = bitsOf [0x31] ++ bitsOf [0x32, 0x33, 0x34] ++
      bitsOf [0x35, 0x36, 0x37, 0x38, 0x39] := by decide
  exact calculateCRC_ne (by decide) (by decide) hpart
    (show _ = bitsOf [0x31] ++ bitsOf [0x33, 0x33, 0xb4] ++ bitsOf [0x35, 0x36, 0x37, 0x38, 0x39]
      by decide) (by decide) (by decide) (by decide)

end results

end TNL.ByteBuffer
