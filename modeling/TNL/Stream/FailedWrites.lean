import TNL.Stream.ByteStream

/-!
# Writes that fail

A write past the limit asks for a larger buffer. The buffer is made as large as
was asked for also when that makes it smaller, and the result says that it has
grown, not that there is room.
-/
namespace TNL

namespace ByteStream

/-- A bit of the buffer, wherever the position is. -/
def storeBit (s : ByteStream) (bitCount : ℕ) (set : Bool) : ByteStream :=
  let dest := bitCount / 8
  { s with
    buffer := Function.update s.buffer dest
      (if set then s.buffer dest ||| ((1 : U8) <<< (bitCount % 8))
        else s.buffer dest &&& ~~~((1 : U8) <<< (bitCount % 8))) }

def setBit (s : ByteStream) (bitCount : ℕ) (set : Bool) : Bool × ByteStream :=
  if bitCount ≥ s.maxWriteBitNum then
    let (resized, s) := s.resizeBits (bitCount - s.maxWriteBitNum + 1)
    if resized then (true, s.storeBit bitCount set) else (false, s)
  else (true, s.storeBit bitCount set)

/-- Whether `writeFlag` has written its flag, which is what it returns for a flag that is set. -/
def flagFits (s : ByteStream) : Bool :=
  s.bitNum + 1 ≤ s.maxWriteBitNum || (s.resizeBits 1).1

/-- A write, with its arguments. -/
inductive Write where
  | bits (bitCount : ℕ) (bitPtr : ℕ → U8)
  | int (val : BitVec 32) (bitCount : ℕ)
  | flag (val : Bool)
  | bytes (in_numBytes : ℕ) (in_pBuffer : ℕ → U8)
  | bit (bitCount : ℕ) (set : Bool)

variable (s : ByteStream) (w : Write)

/-- How many bits a write lacks, which is what it asks for. -/
def lacks : Write → ℕ
  | .bits bitCount _ | .int _ bitCount =>
    if bitCount = 0 then 0 else bitCount + s.bitNum - s.maxWriteBitNum
  | .flag _ => if s.bitNum + 1 > s.maxWriteBitNum then 1 else 0
  | .bytes in_numBytes _ =>
    if in_numBytes * 8 = 0 then 0 else in_numBytes * 8 + s.bitNum - s.maxWriteBitNum
  | .bit bitCount _ => bitCount + 1 - s.maxWriteBitNum

/-- The stream after a write, with whether there was room for it. -/
def perform : Write → Bool × ByteStream
  | .bits bitCount bitPtr => s.writeBits bitCount bitPtr
  | .int val bitCount => ((s.writeBits bitCount (intBytes val)).1, s.writeInt val bitCount)
  | .flag val => (s.flagFits, s.writeFlag val)
  | .bytes in_numBytes in_pBuffer => s.write in_numBytes in_pBuffer
  | .bit bitCount set => s.setBit bitCount set

/-- What is done once there is room. -/
def put : Write → ByteStream
  | .bits bitCount bitPtr => if bitCount = 0 then s else s.store bitCount bitPtr
  | .int val bitCount => if bitCount = 0 then s else s.store bitCount (intBytes val)
  | .flag val => s.storeFlag val
  | .bytes in_numBytes in_pBuffer =>
    if in_numBytes * 8 = 0 then s else s.store (in_numBytes * 8) in_pBuffer
  | .bit bitCount set => s.storeBit bitCount set

theorem writeBits_eq (bitCount : ℕ) (bitPtr : ℕ → U8) : s.writeBits bitCount bitPtr =
    if s.lacks (.bits bitCount bitPtr) = 0 then (true, s.put (.bits bitCount bitPtr))
    else if (s.resizeBits (s.lacks (.bits bitCount bitPtr))).1 then
      (true, (s.resizeBits (s.lacks (.bits bitCount bitPtr))).2.put (.bits bitCount bitPtr))
    else (false, (s.resizeBits (s.lacks (.bits bitCount bitPtr))).2) := by
  rw [writeBits, lacks, put, put]
  by_cases hzero : bitCount = 0
  · rw [if_pos hzero, if_pos hzero, if_pos rfl, if_pos hzero]
  · rw [if_neg hzero, if_neg hzero, if_neg hzero, if_neg hzero]
    by_cases hfits : bitCount + s.bitNum ≤ s.maxWriteBitNum
    · rw [if_neg (by omega), if_pos (by omega)]
    · rw [if_pos (by omega), if_neg (by omega)]

/-- Every write asks for what it lacks, and fails if it does not get that. -/
theorem perform_eq : s.perform w =
    if s.lacks w = 0 then (true, s.put w)
    else if (s.resizeBits (s.lacks w)).1 then (true, (s.resizeBits (s.lacks w)).2.put w)
    else (false, (s.resizeBits (s.lacks w)).2) := by
  cases w with
  | bits bitCount bitPtr => exact s.writeBits_eq bitCount bitPtr
  | int val bitCount => exact s.writeBits_eq bitCount (intBytes val)
  | bytes in_numBytes in_pBuffer => exact s.writeBits_eq (in_numBytes * 8) in_pBuffer
  | flag val =>
    rw [perform, flagFits, writeFlag, put, put]
    by_cases hfits : s.bitNum + 1 ≤ s.maxWriteBitNum
    · have hlacks : s.lacks (.flag val) = 0 := if_neg (not_lt.mpr hfits)
      rw [if_neg (not_lt.mpr hfits), if_pos hlacks, decide_eq_true hfits, Bool.true_or]
    · have hlacks : s.lacks (.flag val) = 1 := if_pos (not_le.mp hfits)
      rw [if_pos (not_le.mp hfits), hlacks, if_neg Nat.one_ne_zero, decide_eq_false hfits,
        Bool.false_or]
      cases hresized : (s.resizeBits 1).1 <;> simp [hresized]
  | bit bitCount set =>
    rw [perform, setBit, lacks, put, put]
    by_cases hfits : bitCount < s.maxWriteBitNum
    · rw [if_neg (by omega), if_pos (by omega)]
    · rw [if_pos (by omega), if_neg (by omega), Nat.sub_add_comm (by omega)]

/-- What a failed write may change, and which streams may not fail. -/
structure FailsCleanly : Prop where
  unchanged : (s.perform w).1 = false → (s.perform w).2 = { s with error := true }
  owned : s.mOwnsMemory = true → (s.perform w).1 = true

/-- The bytes a write makes the buffer have. -/
def newSize : ℕ := (s.maxWriteBitNum + s.lacks w + 7) / 8 + BitStream.resizePad

theorem resizeBits_cases (newBits : ℕ) :
    let newSize := (s.maxWriteBitNum + newBits + 7) / 8 + BitStream.resizePad
    (s.mBufSize ≥ newSize ∧ s.resizeBits newBits =
        (false, { s with mBufSize := newSize, error := true })) ∨
      (s.mBufSize < newSize ∧ s.mOwnsMemory = true ∧ (s.resizeBits newBits).1 = true) ∨
      (s.mBufSize < newSize ∧ s.mOwnsMemory = false ∧
        s.resizeBits newBits = (false, { s with error := true })) := by
  intro newSize
  rw [resizeBits, resize]
  by_cases hsize : s.mBufSize ≥ newSize
  · left
    rw [if_pos hsize]
    exact ⟨hsize, rfl⟩
  · right
    rw [if_neg hsize]
    by_cases howned : s.mOwnsMemory = true
    · rw [if_pos howned]
      exact .inl ⟨not_le.mp hsize, howned, rfl⟩
    · rw [if_neg howned]
      exact .inr ⟨not_le.mp hsize, Bool.eq_false_of_not_eq_true howned, rfl⟩

/-- A write that lacks room fails cleanly exactly if what it asks for is more than the buffer has,
or for borrowed memory not less. -/
theorem failsCleanly_iff : s.FailsCleanly w ↔ s.lacks w = 0 ∨
    if s.mOwnsMemory then s.mBufSize < s.newSize w else s.mBufSize ≤ s.newSize w := by
  have hperform := s.perform_eq w
  by_cases hlacks : s.lacks w = 0
  · rw [if_pos hlacks] at hperform
    refine iff_of_true ⟨fun hfailed => ?_, fun _ => ?_⟩ (.inl hlacks)
    · rw [hperform] at hfailed
      cases hfailed
    · rw [hperform]
  · rw [if_neg hlacks] at hperform
    rw [or_iff_right hlacks]
    rcases s.resizeBits_cases (s.lacks w) with ⟨hsize, hresize⟩ | ⟨hsize, howned, hresize⟩ |
      ⟨hsize, howned, hresize⟩
    · rw [hresize, if_neg Bool.false_ne_true] at hperform
      constructor
      · intro h
        have hsame : s.newSize w = s.mBufSize := by
          have hunchanged := h.unchanged (by rw [hperform])
          rw [hperform] at hunchanged
          exact congrArg mBufSize hunchanged
        by_cases howned : s.mOwnsMemory = true
        · have howned' := h.owned howned
          rw [hperform] at howned'
          cases howned'
        · rw [if_neg howned, hsame]
      · intro h
        by_cases howned : s.mOwnsMemory = true
        · rw [if_pos howned] at h
          exact absurd h (not_lt.mpr hsize)
        · rw [if_neg howned] at h
          have hsame : s.newSize w = s.mBufSize := le_antisymm hsize h
          refine ⟨fun _ => ?_, fun h => absurd h howned⟩
          rw [hperform]
          change { s with mBufSize := s.newSize w, error := true } = { s with error := true }
          rw [hsame]
    · rw [if_pos hresize] at hperform
      rw [if_pos howned]
      refine iff_of_true ⟨fun hfailed => ?_, fun _ => ?_⟩ hsize
      · rw [hperform] at hfailed
        cases hfailed
      · rw [hperform]
    · rw [hresize, if_neg Bool.false_ne_true] at hperform
      rw [howned, if_neg Bool.false_ne_true]
      refine iff_of_true ⟨fun _ => ?_, fun h => ?_⟩ hsize.le
      · rw [hperform]
      · rw [howned] at h
        cases h

/-- A flag after 1500 bytes, in a stream made with that limit and then resized to 4000 bytes. -/
theorem owned_write_fails : ¬ ∀ (s : ByteStream) (w : Write), s.FailsCleanly w := by
  intro hclaim
  let s : ByteStream := ⟨fun _ => 0, 4000, true, 12000, false, 12000, 12000⟩
  have hfails := (hclaim s (.flag true)).owned rfl
  have hfailed : (s.perform (.flag true)).1 = false := by decide
  rw [hfailed] at hfails
  cases hfails

end ByteStream

end TNL
