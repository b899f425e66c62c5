import Mathlib.Tactic.Common
import Mathlib.Data.Nat.Bitwise

/-!
# Bit streams

The stream as a sequence of bits, bit `i` being bit `i % 8` of byte `i / 8` of
the buffer. A write that does not fit asks for a larger buffer; a stream over
borrowed memory, such as every `PacketStream`, is refused one, and the refused
write leaves the position where it was. Reads take any bit count, so their sums
are unsigned 32-bit ones; the counts of writes stay far below that. The string
buffer and the string table belong to what `pack` methods carry along and are
kept apart from the bits.
-/
namespace TNL

structure BitStream where
  buffer : ℕ → Bool
  mBufSize : ℕ
  mOwnsMemory : Bool
  bitNum : ℕ
  error : Bool
  maxReadBitNum : ℕ
  maxWriteBitNum : ℕ

namespace BitStream

def resizePad : ℕ := 1500
def maxPacketDataSize : ℕ := 1500
def minimumPaddingBits : ℕ := 128

/-- A packet to be written, over memory with arbitrary contents. -/
def packetStream (memory : ℕ → Bool) (targetPacketSize : ℕ) : BitStream where
  buffer := memory
  mBufSize := targetPacketSize
  mOwnsMemory := false
  bitNum := 0
  error := false
  maxReadBitNum := targetPacketSize * 8
  maxWriteBitNum := maxPacketDataSize * 8

def resize (s : BitStream) (newBufferSize : ℕ) : Bool × BitStream :=
  if s.mBufSize ≥ newBufferSize then (false, { s with mBufSize := newBufferSize })
  else if s.mOwnsMemory then (true, { s with mBufSize := newBufferSize })
  else (false, s)

def resizeBits (s : BitStream) (newBits : ℕ) : Bool × BitStream :=
  let newSize := (s.maxWriteBitNum + newBits + 7) / 8 + resizePad
  let (resized, s) := s.resize newSize
  if resized then
    (true, { s with maxReadBitNum := newSize * 8, maxWriteBitNum := newSize * 8 })
  else (false, { s with error := true })

/-- Put bits at the position and move past them. -/
def store (s : BitStream) (bits : List Bool) : BitStream :=
  { s with
    buffer := fun i => if s.bitNum ≤ i then bits.getD (i - s.bitNum) (s.buffer i) else s.buffer i
    bitNum := s.bitNum + bits.length }

def writeBits (s : BitStream) (bits : List Bool) : Bool × BitStream :=
  if bits = [] then (true, s)
  else if bits.length + s.bitNum > s.maxWriteBitNum then
    let (resized, s) := s.resizeBits (bits.length + s.bitNum - s.maxWriteBitNum)
    if resized then (true, s.store bits) else (false, s)
  else (true, s.store bits)

/-- The state after `writeFlag`, which returns the flag itself. -/
def writeFlag (s : BitStream) (val : Bool) : BitStream :=
  if s.bitNum + 1 > s.maxWriteBitNum then
    let (resized, s) := s.resizeBits 1
    if resized then s.store [val] else s
  else s.store [val]

/-- The low `bitCount` bits of an integer, least significant first. -/
def intBits (value : ℕ) (bitCount : ℕ) : List Bool :=
  (List.range bitCount).map value.testBit

def writeInt (s : BitStream) (value bitCount : ℕ) : BitStream :=
  (s.writeBits (intBits value bitCount)).2

def setBitPosition (s : BitStream) (newBitPosition : ℕ) : BitStream :=
  { s with bitNum := newBitPosition }

def advanceBitPosition (s : BitStream) (numBits : ℕ) : BitStream :=
  s.setBitPosition (s.bitNum + numBits)

def writeIntAt (s : BitStream) (value bitCount bitPosition : ℕ) : BitStream :=
  ((s.setBitPosition bitPosition).writeInt value bitCount).setBitPosition s.bitNum

def clearError (s : BitStream) : BitStream := { s with error := false }

/-- The space is an unsigned difference. -/
def getBitSpaceAvailable (s : BitStream) : ℕ :=
  (s.maxWriteBitNum + 2 ^ 32 - s.bitNum) % 2 ^ 32

def isFull (s : BitStream) : Bool := s.bitNum > s.mBufSize * 8

/-- The `n` bits from position `p` on. -/
def window (s : BitStream) (p n : ℕ) : List Bool := (List.range n).map (fun i => s.buffer (p + i))

/-- `none` when the bits are not there, which leaves the target as it was. -/
def readBits (s : BitStream) (bitCount : ℕ) : Option (List Bool) × BitStream :=
  if bitCount = 0 then (some [], s)
  else if (bitCount + s.bitNum) % 2 ^ 32 > s.maxReadBitNum then (none, { s with error := true })
  else (some (s.window s.bitNum bitCount), s.setBitPosition ((s.bitNum + bitCount) % 2 ^ 32))

def readFlag (s : BitStream) : Bool × BitStream :=
  if s.bitNum > s.maxReadBitNum then (false, { s with error := true })
  else (s.buffer s.bitNum, s.setBitPosition ((s.bitNum + 1) % 2 ^ 32))

/-- The integer with the given bits, least significant first. -/
def bitsInt (bits : List Bool) : ℕ := bits.foldr (fun b n => b.toNat + 2 * n) 0

def readInt (s : BitStream) (bitCount : ℕ) : ℕ × BitStream :=
  let (bits, s) := s.readBits bitCount
  (bitsInt (bits.getD []), s)

/-- A sequence of `writeBits` calls, each of which may be refused. -/
def writeAll (s : BitStream) (chunks : List (List Bool)) : BitStream :=
  chunks.foldl (fun s bits => (s.writeBits bits).2) s

@[simp] theorem intBits_length (value bitCount : ℕ) :
    (intBits value bitCount).length = bitCount := by
  simp [intBits]

@[simp] theorem advanceBitPosition_advanceBitPosition (s : BitStream) (m n : ℕ) :
    (s.advanceBitPosition m).advanceBitPosition n = s.advanceBitPosition (m + n) := by
  simp [advanceBitPosition, setBitPosition, Nat.add_assoc]

theorem bitsInt_intBits (value bitCount : ℕ) :
    bitsInt (intBits value bitCount) = value % 2 ^ bitCount := by
  induction bitCount generalizing value with
  | zero => simp [intBits, bitsInt, Nat.mod_one]
  | succ n ih =>
    have htail : (List.range n).map (fun i => value.testBit (i + 1)) = intBits (value / 2) n := by
      simp [intBits, Nat.testBit_succ]
    have hlow : (value.testBit 0).toNat = value % 2 := by
      rcases Nat.mod_two_eq_zero_or_one value with h | h <;> simp [Nat.testBit_zero, h]
    have hstep : bitsInt (intBits value (n + 1)) =
        (value.testBit 0).toNat + 2 * bitsInt (intBits (value / 2) n) := by
      rw [← htail, intBits, List.range_succ_eq_map, List.map_cons, List.map_map]
      rfl
    rw [hstep, ih, hlow, Nat.pow_succ, Nat.mul_comm (2 ^ n) 2, Nat.mod_mul]

section window

variable (s : BitStream) (p m n : ℕ)

@[simp] theorem window_length : (s.window p n).length = n := by simp [window]

@[simp] theorem window_zero : s.window p 0 = [] := rfl

theorem window_add : s.window p (m + n) = s.window p m ++ s.window (p + m) n := by
  simp only [window, List.range_add, List.map_append, List.map_map]
  congr 1
  exact List.map_congr_left (fun i _ => by simp [Nat.add_assoc])

theorem window_congr {s t : BitStream} {p n : ℕ}
    (h : ∀ i, p ≤ i → i < p + n → s.buffer i = t.buffer i) : s.window p n = t.window p n :=
  List.map_congr_left (fun i hi => h (p + i) (by omega) (by have := List.mem_range.mp hi; omega))

theorem window_eq_append (bits : List Bool) {more : List Bool}
    (h : s.window p (bits ++ more).length = bits ++ more) :
    s.window p bits.length = bits ∧ s.window (p + bits.length) more.length = more := by
  rw [List.length_append, window_add] at h
  exact List.append_inj h (by simp)

end window

/-- The stream's memory is borrowed and not larger than what may be written. -/
structure Fixed (s : BitStream) : Prop where
  borrowed : s.mOwnsMemory = false
  size_le : s.mBufSize * 8 ≤ s.maxWriteBitNum

theorem packetStream_fixed {memory : ℕ → Bool} {target : ℕ} (h : target ≤ maxPacketDataSize) :
    (packetStream memory target).Fixed :=
  ⟨rfl, Nat.mul_le_mul_right 8 h⟩

theorem Fixed.resizeBits_eq {s : BitStream} (h : s.Fixed) (newBits : ℕ) :
    s.resizeBits newBits = (false, { s with error := true }) := by
  have hsize : ¬ s.mBufSize ≥ (s.maxWriteBitNum + newBits + 7) / 8 + resizePad := by
    have := h.size_le
    unfold resizePad
    omega
  simp [resizeBits, resize, hsize, h.borrowed]

/-- What writing from the position of `s` on may change: nothing below it, and not the limits. -/
structure Extends (s t : BitStream) : Prop where
  le : s.bitNum ≤ t.bitNum
  kept : ∀ i < s.bitNum, t.buffer i = s.buffer i
  size : t.mBufSize = s.mBufSize
  owns : t.mOwnsMemory = s.mOwnsMemory
  maxRead : t.maxReadBitNum = s.maxReadBitNum
  maxWrite : t.maxWriteBitNum = s.maxWriteBitNum

namespace Extends

variable {s t u : BitStream}

theorem refl (s : BitStream) : s.Extends s := ⟨le_rfl, fun _ _ => rfl, rfl, rfl, rfl, rfl⟩

theorem trans (h : s.Extends t) (k : t.Extends u) : s.Extends u where
  le := h.le.trans k.le
  kept i hi := (k.kept i (lt_of_lt_of_le hi h.le)).trans (h.kept i hi)
  size := k.size.trans h.size
  owns := k.owns.trans h.owns
  maxRead := k.maxRead.trans h.maxRead
  maxWrite := k.maxWrite.trans h.maxWrite

theorem fixed (h : s.Extends t) (hs : s.Fixed) : t.Fixed :=
  ⟨h.owns.trans hs.borrowed, by rw [h.size, h.maxWrite]; exact hs.size_le⟩

/-- Bits already written stay. -/
theorem window_eq (h : s.Extends t) {p n : ℕ} (hp : p + n ≤ s.bitNum) :
    t.window p n = s.window p n :=
  window_congr (fun i _ hi => h.kept i (by omega))

/-- Going back to where the writing started undoes it, up to bits that are overwritten later. -/
theorem rewind (h : s.Extends t) : s.Extends (t.setBitPosition s.bitNum).clearError :=
  ⟨le_rfl, h.kept, h.size, h.owns, h.maxRead, h.maxWrite⟩

end Extends

/-- Writing exactly these bits. -/
structure Wrote (s : BitStream) (bits : List Bool) (t : BitStream) : Prop extends Extends s t where
  position : t.bitNum = s.bitNum + bits.length
  holds : t.window s.bitNum bits.length = bits

namespace Wrote

variable {s t u : BitStream} {bits more : List Bool}

theorem append (h : s.Wrote bits t) (k : t.Wrote more u) : s.Wrote (bits ++ more) u where
  toExtends := h.toExtends.trans k.toExtends
  position := by rw [k.position, h.position, List.length_append, Nat.add_assoc]
  holds := by
    rw [List.length_append, window_add, k.toExtends.window_eq (le_of_eq h.position.symm), h.holds,
      ← h.position, k.holds]

/-- What is written after a rewind takes the place of what was rewound. -/
theorem of_extends (h : s.Extends t) (hpos : t.bitNum = s.bitNum) (k : t.Wrote bits u) :
    s.Wrote bits u where
  toExtends := h.trans k.toExtends
  position := by rw [k.position, hpos]
  holds := by rw [← hpos, k.holds]

theorem nil (s : BitStream) : s.Wrote [] s := ⟨Extends.refl s, rfl, rfl⟩

end Wrote

theorem store_wrote (s : BitStream) (bits : List Bool) : s.Wrote bits (s.store bits) where
  le := Nat.le_add_right ..
  kept i hi := by simp [store, Nat.not_le.mpr hi]
  size := rfl
  owns := rfl
  maxRead := rfl
  maxWrite := rfl
  position := rfl
  holds := by
    apply List.ext_getElem
    · simp
    · intro i hi hi'
      simp [window, store, hi']

variable {s t : BitStream}

theorem writeBits_fits {bits : List Bool} (h : s.bitNum + bits.length ≤ s.maxWriteBitNum) :
    s.Wrote bits (s.writeBits bits).2 := by
  unfold writeBits
  split
  · rename_i hnil
    subst hnil
    exact Wrote.nil s
  · rw [if_neg (by omega)]
    exact store_wrote s bits

theorem writeBits_refused {bits : List Bool} (hs : s.Fixed)
    (h : s.maxWriteBitNum < s.bitNum + bits.length) (hle : s.bitNum ≤ s.maxWriteBitNum) :
    (s.writeBits bits).2 = { s with error := true } := by
  have hne : bits ≠ [] := by
    rintro rfl
    simp at h
    omega
  unfold writeBits
  rw [if_neg hne, if_pos (by omega), hs.resizeBits_eq]
  rfl

theorem writeFlag_fits (val : Bool) (h : s.bitNum + 1 ≤ s.maxWriteBitNum) :
    s.Wrote [val] (s.writeFlag val) := by
  unfold writeFlag
  rw [if_neg (by omega)]
  exact store_wrote s [val]

theorem writeInt_fits (value bitCount : ℕ) (h : s.bitNum + bitCount ≤ s.maxWriteBitNum) :
    s.Wrote (intBits value bitCount) (s.writeInt value bitCount) :=
  writeBits_fits (by simpa using h)

/-- The position after a sequence of writes of which those that do not fit are refused. -/
def positionAfter (maxWriteBitNum : ℕ) : ℕ → List (List Bool) → ℕ
  | p, [] => p
  | p, bits :: chunks =>
    positionAfter maxWriteBitNum (if p + bits.length ≤ maxWriteBitNum then p + bits.length else p)
      chunks

theorem positionAfter_le {limit p : ℕ} (hp : p ≤ limit) (chunks : List (List Bool)) :
    positionAfter limit p chunks ≤ limit := by
  induction chunks generalizing p with
  | nil => exact hp
  | cons bits chunks ih =>
    simp only [positionAfter]
    split
    · rename_i h
      exact ih h
    · exact ih hp

/-- Writes that end where all of them together would have ended were not refused. -/
theorem positionAfter_eq_iff {limit p : ℕ} (hp : p ≤ limit) (chunks : List (List Bool)) :
    positionAfter limit p chunks = p + chunks.flatten.length ↔
      p + chunks.flatten.length ≤ limit := by
  constructor
  · intro h
    exact h ▸ positionAfter_le hp chunks
  · intro h
    induction chunks generalizing p with
    | nil => simp [positionAfter]
    | cons bits chunks ih =>
      simp only [List.flatten_cons, List.length_append] at h ⊢
      simp only [positionAfter]
      rw [if_pos (by omega), ih (by omega) (by omega), Nat.add_assoc]

theorem positionAfter_le_length (limit p : ℕ) (chunks : List (List Bool)) :
    positionAfter limit p chunks ≤ p + chunks.flatten.length := by
  induction chunks generalizing p with
  | nil => simp [positionAfter]
  | cons bits chunks ih =>
    simp only [positionAfter, List.flatten_cons, List.length_append]
    split
    · have := ih (p + bits.length)
      omega
    · have := ih p
      omega

theorem writeAll_fits {chunks : List (List Bool)}
    (h : s.bitNum + chunks.flatten.length ≤ s.maxWriteBitNum) :
    s.Wrote chunks.flatten (s.writeAll chunks) := by
  induction chunks generalizing s with
  | nil => exact Wrote.nil s
  | cons bits chunks ih =>
    rw [List.flatten_cons, List.length_append] at h
    have hfirst : s.Wrote bits (s.writeBits bits).2 := writeBits_fits (by omega)
    have hrest := ih (s := (s.writeBits bits).2) (by rw [hfirst.position, hfirst.maxWrite]; omega)
    rw [List.flatten_cons]
    exact hfirst.append hrest

/-- On borrowed memory a sequence of writes touches only what lies beyond the position. -/
theorem writeAll_extends (hs : s.Fixed) (hle : s.bitNum ≤ s.maxWriteBitNum)
    (chunks : List (List Bool)) :
    s.Extends (s.writeAll chunks) ∧
      (s.writeAll chunks).bitNum = positionAfter s.maxWriteBitNum s.bitNum chunks := by
  induction chunks generalizing s with
  | nil => exact ⟨Extends.refl s, rfl⟩
  | cons bits chunks ih =>
    by_cases hfit : s.bitNum + bits.length ≤ s.maxWriteBitNum
    · have hfirst := writeBits_fits hfit
      obtain ⟨hext, hpos⟩ := ih (s := (s.writeBits bits).2) (hfirst.fixed hs)
        (by rw [hfirst.position, hfirst.maxWrite]; exact hfit)
      refine ⟨hfirst.toExtends.trans hext, ?_⟩
      rw [hfirst.maxWrite, hfirst.position] at hpos
      rw [positionAfter, if_pos hfit]
      exact hpos
    · have hfirst := writeBits_refused hs (Nat.not_le.mp hfit) hle
      obtain ⟨hext, hpos⟩ := ih (s := { s with error := true }) ⟨hs.borrowed, hs.size_le⟩ hle
      have hall : s.writeAll (bits :: chunks) = { s with error := true }.writeAll chunks := by
        rw [← hfirst]
        rfl
      rw [hall]
      refine ⟨⟨hext.le, hext.kept, hext.size, hext.owns, hext.maxRead, hext.maxWrite⟩, ?_⟩
      simpa [positionAfter, hfit] using hpos

theorem bitsInt_lt (bits : List Bool) : bitsInt bits < 2 ^ bits.length := by
  induction bits with
  | nil => simp [bitsInt]
  | cons b bits ih =>
    have hbit : b.toNat < 2 := Bool.toNat_lt b
    have hcons : bitsInt (b :: bits) = b.toNat + 2 * bitsInt bits := rfl
    rw [hcons, List.length_cons, Nat.pow_succ]
    omega

theorem readInt_lt (s : BitStream) (bitCount : ℕ) :
    (s.readInt bitCount).1 < 2 ^ bitCount := by
  have hbits : ((s.readBits bitCount).1.getD []).length ≤ bitCount := by
    unfold readBits
    split
    · exact Nat.zero_le _
    · split
      · exact Nat.zero_le _
      · exact (window_length ..).le
  exact (bitsInt_lt _).trans_le (Nat.pow_le_pow_right (by decide) hbits)

section reading

variable {bits more : List Bool}

/-- A stream that is about to read these bits. -/
structure Ahead (s : BitStream) (bits : List Bool) : Prop where
  holds : s.window s.bitNum bits.length = bits
  inside : s.bitNum + bits.length ≤ s.maxReadBitNum
  small : s.maxReadBitNum < 2 ^ 32

namespace Ahead

theorem advance (h : s.Ahead (bits ++ more)) : (s.advanceBitPosition bits.length).Ahead more where
  holds := (window_eq_append s s.bitNum bits h.holds).2
  inside := by
    have := h.inside
    rw [List.length_append] at this
    simp only [advanceBitPosition, setBitPosition]
    omega
  small := h.small

theorem tail {val : Bool} (h : s.Ahead (val :: more)) : (s.advanceBitPosition 1).Ahead more :=
  Ahead.advance (show s.Ahead ([val] ++ more) from h)

theorem left (h : s.Ahead (bits ++ more)) : s.Ahead bits where
  holds := (window_eq_append s s.bitNum bits h.holds).1
  inside := by
    have := h.inside
    rw [List.length_append] at this
    omega
  small := h.small

theorem readFlag {val : Bool} (h : s.Ahead (val :: more)) :
    s.readFlag = (val, s.advanceBitPosition 1) := by
  have hinside := h.inside
  have hsmall := h.small
  have hholds := (window_eq_append s s.bitNum [val] h.holds).1
  rw [List.length_cons] at hinside
  have hbit : s.buffer s.bitNum = val := by simpa [window] using hholds
  have hposition : (s.bitNum + 1) % 2 ^ 32 = s.bitNum + 1 := Nat.mod_eq_of_lt (by omega)
  unfold BitStream.readFlag
  rw [if_neg (by omega), hbit, hposition]
  rfl

theorem readBits {n : ℕ} (h : s.Ahead (bits ++ more)) (hn : bits.length = n) :
    s.readBits n = (some bits, s.advanceBitPosition n) := by
  have hholds := h.left.holds
  have hinside := h.left.inside
  have hsmall := h.small
  rw [hn] at hholds hinside
  unfold BitStream.readBits
  by_cases hzero : n = 0
  · subst hzero
    rw [if_pos rfl, List.length_eq_zero_iff.mp hn]
    rfl
  · have hposition : (s.bitNum + n) % 2 ^ 32 = s.bitNum + n := Nat.mod_eq_of_lt (by omega)
    rw [if_neg hzero, Nat.add_comm n, hposition, if_neg (by omega), hholds]
    rfl

theorem readInt {value bitCount : ℕ} (h : s.Ahead (intBits value bitCount ++ more)) :
    s.readInt bitCount = (value % 2 ^ bitCount, s.advanceBitPosition bitCount) := by
  rw [BitStream.readInt, h.readBits (intBits_length ..)]
  simp [bitsInt_intBits]

end Ahead

end reading

end BitStream

end TNL
