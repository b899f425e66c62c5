import TNL.Journal.IndexBits
import TNL.Stream.BitRoundTrip
import TNL.Stream.FailedWrites

/-!
# Signed and ranged integers

A signed integer is a flag for its sign and its magnitude in the remaining bits.
An integer from a range is its distance from the start, in as many bits as the
logarithm of the size of the range says, which is taken from the exponent of a
float. The size and the bit count are unsigned integers of 32 and of 8 bits.
-/
namespace TNL

namespace ByteStream
open BitStream

def writeSignedInt (s : ByteStream) (value : BitVec 32) (bitCount : ℕ) : ByteStream :=
  let t := s.writeFlag (value.slt 0)
  if value.slt 0 && s.flagFits then t.writeInt (-value) (bitCount - 1)
  else t.writeInt value (bitCount - 1)

def readSignedInt (s : ByteStream) (bitCount : ℕ) : BitVec 32 × ByteStream :=
  let (negative, s) := s.readFlag
  let (value, s) := s.readInt (bitCount - 1)
  (if negative then -value else value, s)

/-- The bit count is an eight-bit argument. -/
def rangeBits (rangeStart rangeEnd : BitVec 32) : ℕ :=
  (getNextBinLog2 (rangeEnd - rangeStart + 1)).toNat % 256

def writeRangedU32 (s : ByteStream) (value rangeStart rangeEnd : BitVec 32) : ByteStream :=
  s.writeInt (value - rangeStart) (rangeBits rangeStart rangeEnd)

def readRangedU32 (s : ByteStream) (rangeStart rangeEnd : BitVec 32) : BitVec 32 × ByteStream :=
  let (val, s) := s.readInt (rangeBits rangeStart rangeEnd)
  (val + rangeStart, s)

variable {s r : ByteStream} {value : BitVec 32} {n : ℕ}

section signed

/-- The magnitude in a signed integer, before it is cut to its bits. -/
def magnitude (value : BitVec 32) : BitVec 32 := if value.slt 0 then -value else value

theorem flagFits_of_room (h : s.bits.Room 1) : s.flagFits = true := by
  rw [flagFits, Bool.or_eq_true, decide_eq_true_eq]
  rcases h with hfits | ⟨hgrow, _⟩
  · exact .inl hfits
  · right
    have hresize := resizeBits_bits s 1
    rw [hgrow.resizeBits] at hresize
    exact (congrArg Prod.fst hresize).symm

theorem writeSignedInt_put (value : BitVec 32) (hn : 1 ≤ n) (h : s.bits.Room n) :
    s.bits.Put (value.slt 0 :: intBits (magnitude value).toNat (n - 1))
      (s.writeSignedInt value n).bits := by
  have hflag := writeFlag_put (value.slt 0) (h.mono hn)
  have hroom : (s.bits.writeFlag (value.slt 0)).Room (n - 1) :=
    hflag.room (n - 1) (by rwa [List.length_singleton, Nat.add_sub_cancel' hn])
  rw [← intBits_length (magnitude value).toNat (n - 1)] at hroom
  have hint := (writeBits_put hroom).2
  have hwrite : (s.writeSignedInt value n) = (s.writeFlag (value.slt 0)).writeInt
      (magnitude value) (n - 1) := by
    rw [writeSignedInt, flagFits_of_room (h.mono hn), Bool.and_true, magnitude]
    split <;> rfl
  rw [hwrite, ← writeInt_bits, ← writeFlag_bits]
  exact hflag.append hint

theorem magnitude_toNat (value : BitVec 32) : (magnitude value).toNat = value.toInt.natAbs := by
  have hvalue := BitVec.toInt_eq_toNat_cond value
  have hlt := value.isLt
  have hslt : value.slt 0 = decide (value.toInt < 0) := rfl
  rw [magnitude, hslt]
  by_cases hneg : value.toInt < 0
  · rw [decide_eq_true hneg, if_pos rfl, BitVec.toNat_neg]
    split at hvalue <;> omega
  · rw [decide_eq_false hneg, if_neg Bool.false_ne_true]
    split at hvalue <;> omega

theorem readSignedInt_of_ahead {negative : Bool} {m : ℕ} (hn : 1 ≤ n) (hn' : n ≤ 32)
    (h : r.bits.Ahead (negative :: intBits m (n - 1))) :
    ∃ v : BitVec 32, v.toNat = m % 2 ^ (n - 1) ∧
      (r.readSignedInt n).1 = (if negative then -v else v) ∧
      (r.readSignedInt n).2.bitNum = r.bitNum + n := by
  have hflag := h.readFlag
  rw [readFlag_bits] at hflag
  have hnegative : r.readFlag.1 = negative := congrArg Prod.fst hflag
  have hrest : r.readFlag.2.bits = r.bits.advanceBitPosition 1 := congrArg Prod.snd hflag
  have hahead : r.readFlag.2.bits.Ahead (intBits m (n - 1) ++ []) := by
    rw [hrest, List.append_nil]
    exact h.tail
  have hint := hahead.readInt
  rw [readInt_bits _ (by omega)] at hint
  refine ⟨(r.readFlag.2.readInt (n - 1)).1, congrArg Prod.fst hint, ?_, ?_⟩
  · rw [readSignedInt, ← hnegative]
  · have hend : (r.readFlag.2.readInt (n - 1)).2.bits.bitNum = _ :=
      congrArg (BitStream.bitNum ∘ Prod.snd) hint
    have hposition := congrArg BitStream.bitNum hrest
    change (r.readFlag.2.readInt (n - 1)).2.bits.bitNum = _
    rw [hend]
    change r.readFlag.2.bits.bitNum + (n - 1) = _
    rw [hposition]
    change r.bitNum + 1 + (n - 1) = _
    omega

/-- A signed integer of its width is read back, with its bits, unless it is the least one: then its
magnitude does not fit. -/
theorem signedInt_roundTrip_iff (hn : 1 ≤ n) (hn' : n ≤ 32) (hlow : -2 ^ (n - 1) ≤ value.toInt)
    (hhigh : value.toInt ≤ 2 ^ (n - 1) - 1) (hroom : s.bits.Room n)
    (hr : s.Rereads (s.writeSignedInt value n) r n) :
    ((r.readSignedInt n).1 = value ∧ (r.readSignedInt n).2.bitNum = s.bitNum + n) ↔
      value.toInt ≠ -2 ^ (n - 1) := by
  have hput := writeSignedInt_put value hn hroom
  have hahead := hr.ahead hput (by rw [List.length_cons, intBits_length, Nat.sub_add_cancel hn])
  obtain ⟨v, hv, hread, hend⟩ := readSignedInt_of_ahead hn hn' hahead
  rw [hread, hend, hr.position, and_iff_left rfl]
  rw [magnitude_toNat] at hv
  have hslt : value.slt 0 = decide (value.toInt < 0) := rfl
  have hpow : (2 : ℤ) ^ (n - 1) = ((2 ^ (n - 1) : ℕ) : ℤ) := (Int.natCast_pow 2 (n - 1)).symm
  have hpos : 0 < 2 ^ (n - 1) := Nat.two_pow_pos _
  have hvalue := BitVec.toInt_eq_toNat_cond value
  have hlt := value.isLt
  rw [hpow] at hlow hhigh ⊢
  rw [hslt]
  generalize 2 ^ (n - 1) = bound at hv hlow hhigh hpos ⊢
  by_cases hneg : value.toInt < 0
  · rw [decide_eq_true hneg, if_pos rfl, ← BitVec.toNat_inj, BitVec.toNat_neg]
    by_cases hleast : value.toInt = -bound
    · have hzero : v.toNat = 0 := by
        rw [hv, hleast, Int.natAbs_neg, Int.natAbs_natCast, Nat.mod_self]
      refine iff_of_false (fun heq => ?_) (not_not_intro hleast)
      rw [hzero] at heq
      split at hvalue <;> omega
    · have hfits : v.toNat = value.toInt.natAbs := hv.trans (Nat.mod_eq_of_lt (by omega))
      refine iff_of_true ?_ hleast
      split at hvalue <;> omega
  · have hfits : v.toNat = value.toInt.natAbs := hv.trans (Nat.mod_eq_of_lt (by omega))
    rw [decide_eq_false hneg, if_neg Bool.false_ne_true, ← BitVec.toNat_inj]
    refine iff_of_true ?_ ?_
    · split at hvalue <;> omega
    · omega

/-- The least integer of eight bits and the one above it, after three bits. -/
theorem signedInt_roundTrip_iff_eight :
    let s : ByteStream := ⟨fun _ => 0xFF, 64, false, 3, false, 512, 512⟩
    let least := ((s.writeSignedInt (-128) 8).setBitPosition 3).readSignedInt 8
    let next := ((s.writeSignedInt (-127) 8).setBitPosition 3).readSignedInt 8
    ((least.1 = -128 ∧ least.2.bitNum = 3 + 8) ↔ ((-128 : BitVec 32).toInt ≠ -2 ^ 7)) ∧
      next.1 = -127 ∧ next.2.bitNum = 3 + 8 := by
  intro s least next
  have hroom : s.bits.Room 8 := Or.inl (by decide)
  have hleast : s.Rereads (s.writeSignedInt (-128) 8)
      ((s.writeSignedInt (-128) 8).setBitPosition 3) 8 :=
    ⟨rfl, fun _ _ _ => rfl, by decide, by decide⟩
  have hnext : s.Rereads (s.writeSignedInt (-127) 8)
      ((s.writeSignedInt (-127) 8).setBitPosition 3) 8 :=
    ⟨rfl, fun _ _ _ => rfl, by decide, by decide⟩
  exact ⟨signedInt_roundTrip_iff (by decide) (by decide) (by decide) (by decide) hroom hleast,
    (signedInt_roundTrip_iff (by decide) (by decide) (by decide) (by decide) hroom hnext).mpr
      (by decide)⟩

/-- The least integer of eight bits is read as zero. -/
theorem least_signedInt_lost : ¬ ∀ (s r : ByteStream) (value : BitVec 32) (n : ℕ), 1 ≤ n → n ≤ 32 →
    -2 ^ (n - 1) ≤ value.toInt → value.toInt ≤ 2 ^ (n - 1) - 1 → s.bits.Room n →
    s.Rereads (s.writeSignedInt value n) r n →
    (r.readSignedInt n).1 = value ∧ (r.readSignedInt n).2.bitNum = s.bitNum + n := by
  intro hclaim
  let s : ByteStream := ⟨fun _ => 0xFF, 64, false, 3, false, 512, 512⟩
  have hread := hclaim s ((s.writeSignedInt (-128) 8).setBitPosition 3) (-128) 8 (by decide)
    (by decide) (by decide) (by decide) (Or.inl (by decide))
    ⟨rfl, fun _ _ _ => rfl, by decide, by decide⟩
  have hzero : (((s.writeSignedInt (-128) 8).setBitPosition 3).readSignedInt 8).1 = 0 := by decide
  rw [hzero] at hread
  exact absurd hread.1 (by decide)

end signed

section ranged

variable {rangeStart rangeEnd : BitVec 32} {k : ℕ}

theorem rangeBits_eq (rangeStart rangeEnd : BitVec 32) :
    rangeBits rangeStart rangeEnd = indexBits (rangeEnd - rangeStart + 1).toNat % 256 := by
  rw [rangeBits, indexBits, BitVec.ofNat_toNat, BitVec.setWidth_eq]

theorem rangeBits_of_two_pow (hk : k < 32) (h : (rangeEnd - rangeStart + 1).toNat = 2 ^ k) :
    rangeBits rangeStart rangeEnd = k := by
  rw [rangeBits_eq, h, indexBits_two_pow hk]
  omega

/-- A size that is no power of two gets bits enough, but maybe one more than the type has. -/
theorem rangeBits_of_not_two_pow (h : (rangeEnd - rangeStart + 1).toNat ≠ 0)
    (hpow : ¬ (rangeEnd - rangeStart + 1).toNat.isPowerOfTwo) :
    (rangeEnd - rangeStart + 1).toNat < 2 ^ rangeBits rangeStart rangeEnd ∧
      rangeBits rangeStart rangeEnd ≤ 33 := by
  have hn := (rangeEnd - rangeStart + 1).isLt
  rw [rangeBits_eq]
  generalize (rangeEnd - rangeStart + 1).toNat = n at h hpow hn ⊢
  have hpos : 0 < n := Nat.pos_of_ne_zero h
  have hlog : n.log2 < 32 := (Nat.log2_lt h).mpr hn
  obtain ⟨hlow, hhigh⟩ := log2_bounds hpos
  have hbits := indexBits_between (hlow.lt_of_ne' (mt (isPowerOfTwo_iff hpos).mpr hpow)) hhigh hn
  have hbounds : n.log2 < indexBits n % 256 ∧ indexBits n % 256 ≤ 33 := by
    rw [hbits]
    split_ifs <;> omega
  exact ⟨hhigh.trans_le (Nat.pow_le_pow_right (by decide) hbounds.1), hbounds.2⟩

theorem rangeSize_toNat (h : rangeStart ≤ rangeEnd) : (rangeEnd - rangeStart + 1).toNat =
    (rangeEnd.toNat - rangeStart.toNat + 1) % 2 ^ 32 := by
  bv_omega

theorem readRangedU32_toNat (s : ByteStream) (hbits : rangeBits rangeStart rangeEnd ≤ 32) :
    (s.readRangedU32 rangeStart rangeEnd).1.toNat =
      ((s.bits.readInt (rangeBits rangeStart rangeEnd)).1 + rangeStart.toNat) % 2 ^ 32 := by
  rw [readInt_bits s hbits]
  exact BitVec.toNat_add ..

/-- What the comments on both functions promise for the values of a range. -/
structure RangedCodec (rangeStart rangeEnd : BitVec 32) : Prop where
  written : ∀ (s : ByteStream) (value : BitVec 32), rangeStart ≤ value → value ≤ rangeEnd →
    s.bits.Room 32 → ∃ n ≤ 32, (s.writeRangedU32 value rangeStart rangeEnd).bitNum = s.bitNum + n ∧
      ∀ r : ByteStream, s.Rereads (s.writeRangedU32 value rangeStart rangeEnd) r n →
        (r.readRangedU32 rangeStart rangeEnd).1 = value ∧
        (r.readRangedU32 rangeStart rangeEnd).2.bitNum = s.bitNum + n
  read : ∀ s : ByteStream, (rangeStart ≤ (s.readRangedU32 rangeStart rangeEnd).1 ∧
    (s.readRangedU32 rangeStart rangeEnd).1 ≤ rangeEnd) ∨
      (s.readRangedU32 rangeStart rangeEnd).2.error = true

theorem RangedCodec.of_two_pow (h : rangeStart ≤ rangeEnd) (hk : k < 32)
    (hsize : (rangeEnd - rangeStart + 1).toNat = 2 ^ k) : RangedCodec rangeStart rangeEnd := by
  have hbits := rangeBits_of_two_pow hk hsize
  have hlt : 2 ^ k < 2 ^ 32 := Nat.pow_lt_pow_right (by decide) hk
  have hwidth : rangeEnd.toNat - rangeStart.toNat + 1 = 2 ^ k := by
    rw [rangeSize_toNat h] at hsize
    have hle := rangeEnd.isLt
    have hpos : 0 < 2 ^ k := Nat.two_pow_pos k
    omega
  constructor
  · intro s value hlow hhigh hroom
    have hvalue : (value - rangeStart).toNat < 2 ^ k := by bv_omega
    have hbitCount : (intBits (value - rangeStart).toNat k).length ≤ 32 := by
      rw [intBits_length]
      exact hk.le
    have hput := (writeBits_put (hroom.mono hbitCount)).2
    have hwrite : (s.writeRangedU32 value rangeStart rangeEnd).bits =
        (s.bits.writeBits (intBits (value - rangeStart).toNat k)).2 := by
      rw [writeRangedU32, hbits, ← writeInt_bits]
      rfl
    rw [← hwrite] at hput
    refine ⟨k, hk.le, ?_, fun r hr => ?_⟩
    · have hposition := hput.position
      rwa [intBits_length] at hposition
    · have hahead := hr.ahead hput (intBits_length ..)
      rw [← List.append_nil (intBits _ _)] at hahead
      have hread := hahead.readInt
      rw [Nat.mod_eq_of_lt hvalue] at hread
      constructor
      · apply BitVec.eq_of_toNat_eq
        rw [readRangedU32_toNat r (by omega), hbits, hread]
        bv_omega
      · rw [readInt_bits r hk.le] at hread
        rw [readRangedU32, hbits]
        have hend := congrArg (BitStream.bitNum ∘ Prod.snd) hread
        exact hend.trans (congrArg (· + k) hr.position)
  · intro s
    have hread := readInt_lt s.bits k
    have hval := readRangedU32_toNat s (hbits.trans_le hk.le)
    rw [hbits] at hval
    left
    generalize (s.readRangedU32 rangeStart rangeEnd).1 = val at hval ⊢
    rw [BitVec.le_def, BitVec.le_def]
    have hle := rangeEnd.isLt
    have hle' : rangeStart.toNat ≤ rangeEnd.toNat := h
    omega

/-- A stream with room for all that is written. -/
def roomy : ByteStream := ⟨fun _ => 0, 64, false, 0, false, 512, 512⟩

/-- A written range takes as many bits as its size says. -/
theorem writeRangedU32_roomy (value : BitVec 32) (hbits : rangeBits rangeStart rangeEnd ≤ 512) :
    (roomy.writeRangedU32 value rangeStart rangeEnd).bitNum = rangeBits rangeStart rangeEnd := by
  have hroom : roomy.bits.Room (intBits (value - rangeStart).toNat
      (rangeBits rangeStart rangeEnd)).length := by
    rw [intBits_length]
    exact Or.inl ((Nat.zero_add _).trans_le hbits)
  have hposition := (writeBits_put hroom).2.position
  rw [intBits_length] at hposition
  have hwrite := writeInt_bits roomy (value - rangeStart) (rangeBits rangeStart rangeEnd)
  exact (congrArg BitStream.bitNum hwrite).symm.trans (hposition.trans (Nat.zero_add _))

/-- Where the size is no power of two, the bits of the size itself can be read. -/
theorem RangedCodec.two_pow (h : rangeStart ≤ rangeEnd) (hcodec : RangedCodec rangeStart rangeEnd) :
    ∃ k < 32, (rangeEnd - rangeStart + 1).toNat = 2 ^ k := by
  obtain ⟨n, hn, hposition, _⟩ := hcodec.written roomy rangeStart (BitVec.le_refl _) h
    (Or.inl (by decide))
  have hbits : rangeBits rangeStart rangeEnd ≤ 512 → rangeBits rangeStart rangeEnd ≤ 32 := by
    intro hbits
    rw [writeRangedU32_roomy rangeStart hbits] at hposition
    simpa [hposition, roomy] using hn
  by_cases hzero : (rangeEnd - rangeStart + 1).toNat = 0
  · -- the size of the full range is zero
    have hsize : rangeEnd - rangeStart + 1 = 0 := BitVec.eq_of_toNat_eq hzero
    have hmany : rangeBits rangeStart rangeEnd = 129 := by
      rw [rangeBits, hsize]
      decide
    rw [hmany] at hbits
    exact absurd (hbits (by decide)) (by decide)
  · by_contra hnone
    have hpow : ¬ (rangeEnd - rangeStart + 1).toNat.isPowerOfTwo := by
      rintro ⟨k, hk⟩
      refine hnone ⟨k, ?_, hk⟩
      have hlt := (rangeEnd - rangeStart + 1).isLt
      rw [hk] at hlt
      exact (Nat.pow_lt_pow_iff_right (by decide)).mp hlt
    obtain ⟨hlt, hle⟩ := rangeBits_of_not_two_pow hzero hpow
    have hle32 := hbits (hle.trans (by decide))
    let r : ByteStream := { roomy with buffer := intBytes (rangeEnd - rangeStart + 1) }
    have hahead : r.bits.Ahead (intBits (rangeEnd - rangeStart + 1).toNat
        (rangeBits rangeStart rangeEnd) ++ []) := by
      rw [List.append_nil]
      refine ⟨?_, ?_, (by decide : 512 < 2 ^ 32)⟩
      · rw [intBits_length, ← sourceBits_intBytes]
        refine List.map_congr_left fun i _ => ?_
        change bit _ (0 + i) = bit _ i
        rw [Nat.zero_add]
      · rw [intBits_length]
        change 0 + _ ≤ 512
        omega
    have hread := hahead.readInt
    have hval := readRangedU32_toNat r hle32
    rw [hread, Nat.mod_eq_of_lt hlt, rangeSize_toNat h] at hval
    rw [rangeSize_toNat h] at hzero
    rw [readInt_bits r hle32] at hread
    have herror : (r.readRangedU32 rangeStart rangeEnd).2.error = false :=
      congrArg (BitStream.error ∘ Prod.snd) hread
    rcases hcodec.read r with ⟨hlow, hhigh⟩ | herror'
    · rw [BitVec.le_def, hval] at hlow hhigh
      have hend := rangeEnd.isLt
      have hle' : rangeStart.toNat ≤ rangeEnd.toNat := h
      omega
    · rw [herror] at herror'
      cases herror'

/-- The functions do what their comments say exactly for the ranges whose size is a power of two
that the type of the bounds has. -/
theorem rangedU32_correct_iff (h : rangeStart ≤ rangeEnd) : RangedCodec rangeStart rangeEnd ↔
    ∃ k < 32, (rangeEnd - rangeStart + 1).toNat = 2 ^ k := by
  constructor
  · exact fun hcodec => hcodec.two_pow h
  · rintro ⟨k, hk, hsize⟩
    exact .of_two_pow h hk hsize

/-- The range that acknowledgements are counted in, and one with a power of two. -/
theorem rangedU32_correct_iff_small : ¬ RangedCodec 0 4 ∧ RangedCodec 1 8 := by
  refine ⟨mt (rangedU32_correct_iff (by decide)).mp ?_,
    (rangedU32_correct_iff (by decide)).mpr ⟨3, by decide, by decide⟩⟩
  have hsize : ((4 : BitVec 32) - 0 + 1).toNat = 5 := by decide
  rw [hsize]
  decide

/-- Three bits that are set are read as seven from a range that ends at four. -/
theorem rangedU32_out_of_range : ¬ ∀ rangeStart rangeEnd : BitVec 32, rangeStart ≤ rangeEnd →
    RangedCodec rangeStart rangeEnd := by
  intro hclaim
  let s : ByteStream := ⟨fun _ => 0xFF, 64, false, 0, false, 512, 512⟩
  have hread := (hclaim 0 4 (by decide)).read s
  have hseven : (s.readRangedU32 0 4).1 = 7 ∧ (s.readRangedU32 0 4).2.error = false := by
    decide +kernel
  rw [hseven.1, hseven.2] at hread
  exact absurd hread (by decide)

end ranged

end ByteStream

end TNL
