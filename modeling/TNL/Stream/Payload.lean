import TNL.Stream.BitStream

/-!
# Reading a payload

The bits of a packet end where its payload ends, and earlier once the hash at
its end has been checked and removed. Every read should return bits of the
payload only, or set the error flag.
-/
namespace TNL
open BitStream

/-- The symmetric cipher with its counter set up, and the hash: `decrypt` takes the first byte and
the number of bytes to decrypt, `sha256` the number of bytes to hash. -/
structure PacketCipher where
  decrypt : (ℕ → Bool) → ℕ → ℕ → ℕ → Bool
  sha256 : (ℕ → Bool) → ℕ → List Bool

/-- Sizes and offsets are those of a packet, far below 2^32. -/
def BitStream.decryptAndCheckHash (theCipher : PacketCipher) (s : BitStream)
    (hashDigestSize decryptStartOffset : ℕ) : Bool × BitStream :=
  let bufferSize := s.mBufSize
  if bufferSize < decryptStartOffset + hashDigestSize then (false, s)
  else
    let buffer := theCipher.decrypt s.buffer decryptStartOffset (bufferSize - decryptStartOffset)
    let s := { s with buffer := buffer }
    let hash := theCipher.sha256 buffer (bufferSize - hashDigestSize)
    if s.window ((bufferSize - hashDigestSize) * 8) (hashDigestSize * 8) =
        hash.take (hashDigestSize * 8) then
      (true, (s.resize (bufferSize - hashDigestSize)).2)
    else (false, s)

/-- The bit count is shifted as an unsigned 32-bit number. -/
def BitStream.read (s : BitStream) (numBytes : ℕ) : Option (List Bool) × BitStream :=
  s.readBits (numBytes * 8 % 2 ^ 32)

inductive ReadOp where
  | readFlag
  | readInt (bitCount : ℕ)
  | readBits (bitCount : ℕ)
  | read (numBytes : ℕ)
  | decryptAndCheckHash (hashDigestSize decryptStartOffset : ℕ)

/-- A stream being read, and the number of bits of its current payload. -/
structure ReadSession where
  stream : BitStream
  payload : ℕ

namespace ReadSession

/-- A stream set up for reading `bits` bits of a buffer. -/
def start (buffer : ℕ → Bool) (bufSize bits : ℕ) : ReadSession where
  stream := ⟨buffer, bufSize, false, 0, false, bits, 0⟩
  payload := bits

def step (theCipher : PacketCipher) (s : ReadSession) : ReadOp → ReadSession
  | .readFlag => { s with stream := s.stream.readFlag.2 }
  | .readInt bitCount => { s with stream := (s.stream.readInt bitCount).2 }
  | .readBits bitCount => { s with stream := (s.stream.readBits bitCount).2 }
  | .read numBytes => { s with stream := (s.stream.read numBytes).2 }
  | .decryptAndCheckHash hashDigestSize decryptStartOffset =>
    let (ret, stream) :=
      s.stream.decryptAndCheckHash theCipher hashDigestSize decryptStartOffset
    ⟨stream, if ret then min s.payload (stream.mBufSize * 8) else s.payload⟩

/-- The positions of bits copied by `readBits`. -/
def copied (s : BitStream) (bitCount : ℕ) : List ℕ :=
  match (s.readBits bitCount).1 with
  | some bits => List.range' s.bitNum bits.length
  | none => []

/-- The positions of the bits a read returns. A flag is returned unless the first test fails. -/
def returned (s : ReadSession) : ReadOp → List ℕ
  | .readFlag => if s.stream.bitNum > s.stream.maxReadBitNum then [] else [s.stream.bitNum]
  | .readInt bitCount => copied s.stream bitCount
  | .readBits bitCount => copied s.stream bitCount
  | .read numBytes => copied s.stream (numBytes * 8 % 2 ^ 32)
  | .decryptAndCheckHash _ _ => []

/-- Bits at or beyond the end of the payload are only returned with the error flag set. -/
def Honest (theCipher : PacketCipher) (s : ReadSession) (op : ReadOp) : Prop :=
  ∀ i ∈ s.returned op, s.payload ≤ i → (s.step theCipher op).stream.error = true

/-- Every operation of a sequence is honest. -/
def AllHonest (theCipher : PacketCipher) : ReadSession → List ReadOp → Prop
  | _, [] => True
  | s, op :: ops => s.Honest theCipher op ∧ AllHonest theCipher (s.step theCipher op) ops

/-- A count that ends inside the payload, or beyond what the stream believes it may read. The sum
that the stream compares is an unsigned 32-bit one. -/
def CountFits (s : ReadSession) (bitCount : ℕ) : Prop :=
  s.stream.bitNum + bitCount ≤ s.payload ∨
    s.stream.maxReadBitNum < (bitCount + s.stream.bitNum) % 2 ^ 32

/-- No flag is read between the end of the payload and the last readable position, both included,
and no count ends there. -/
def Fits (s : ReadSession) : ReadOp → Prop
  | .readFlag => s.stream.bitNum < s.payload ∨ s.stream.maxReadBitNum < s.stream.bitNum
  | .readInt bitCount => bitCount = 0 ∨ s.CountFits bitCount
  | .readBits bitCount => bitCount = 0 ∨ s.CountFits bitCount
  | .read numBytes => numBytes * 8 % 2 ^ 32 = 0 ∨ s.CountFits (numBytes * 8 % 2 ^ 32)
  | .decryptAndCheckHash _ _ => True

def AllFit (theCipher : PacketCipher) : ReadSession → List ReadOp → Prop
  | _, [] => True
  | s, op :: ops => (s.stream.error = true ∨ s.Fits op) ∧ AllFit theCipher (s.step theCipher op) ops

variable {theCipher : PacketCipher} {s : ReadSession}

theorem readBits_error {t : BitStream} {bitCount : ℕ} (ht : t.error = true) :
    (t.readBits bitCount).2.error = true := by
  unfold readBits
  split
  · exact ht
  · split
    · rfl
    · exact ht

theorem readFlag_error {t : BitStream} (ht : t.error = true) : t.readFlag.2.error = true := by
  unfold readFlag
  split
  · rfl
  · exact ht

/-- Reads by a count, as far as their error flag goes. -/
theorem copied_honest_iff (bitCount : ℕ) :
    (∀ i ∈ copied s.stream bitCount, s.payload ≤ i →
      (s.stream.readBits bitCount).2.error = true) ↔
    s.stream.error = true ∨ bitCount = 0 ∨ s.CountFits bitCount := by
  by_cases herror : s.stream.error = true
  · simp [herror, readBits_error herror]
  · rw [or_iff_right herror]
    by_cases hzero : bitCount = 0
    · simp [copied, readBits, hzero]
    · rw [or_iff_right hzero]
      by_cases hrefused : s.stream.maxReadBitNum < (bitCount + s.stream.bitNum) % 2 ^ 32
      · have hread : s.stream.readBits bitCount = (none, { s.stream with error := true }) := by
          unfold readBits
          rw [if_neg hzero, if_pos hrefused]
        simp only [copied, hread, List.not_mem_nil, implies_true, CountFits, hrefused, or_true]
      · have hread : s.stream.readBits bitCount = (some (s.stream.window s.stream.bitNum bitCount),
            s.stream.setBitPosition ((s.stream.bitNum + bitCount) % 2 ^ 32)) := by
          unfold readBits
          rw [if_neg hzero, if_neg hrefused]
        have hflag : (s.stream.readBits bitCount).2.error = s.stream.error := by
          rw [hread]
          rfl
        have hcopied : copied s.stream bitCount = List.range' s.stream.bitNum bitCount := by
          unfold copied
          rw [hread]
          simp
        rw [hcopied, hflag, CountFits, or_iff_left hrefused]
        constructor
        · intro h
          by_contra hout
          -- the last bit copied lies beyond the payload
          have hlast := h (s.stream.bitNum + bitCount - 1)
            (List.mem_range'_1.mpr (by omega)) (by omega)
          exact herror hlast
        · intro h i hi hbeyond
          have := List.mem_range'_1.mp hi
          omega

theorem honest_iff (op : ReadOp) :
    s.Honest theCipher op ↔ s.stream.error = true ∨ s.Fits op := by
  cases op with
  | readFlag =>
    by_cases herror : s.stream.error = true
    · simp [Honest, step, herror, readFlag_error herror]
    · rw [or_iff_right herror]
      by_cases hrefused : s.stream.maxReadBitNum < s.stream.bitNum
      · simp [Honest, returned, Fits, hrefused]
      · simp [Honest, returned, Fits, hrefused, step, readFlag, setBitPosition, herror]
  | readInt bitCount => exact copied_honest_iff bitCount
  | readBits bitCount => exact copied_honest_iff bitCount
  | read numBytes => exact copied_honest_iff _
  | decryptAndCheckHash hashDigestSize decryptStartOffset => simp [Honest, returned, Fits]

/-- Reads return bits of the payload, or set the error flag, exactly when no flag is read and no
count ends between the end of the payload and the end of what the stream believes it may read. -/
theorem allHonest_iff (theCipher : PacketCipher) (s : ReadSession) (ops : List ReadOp) :
    s.AllHonest theCipher ops ↔ s.AllFit theCipher ops := by
  induction ops generalizing s with
  | nil => exact Iff.rfl
  | cons op ops ih => exact and_congr (honest_iff op) (ih (s.step theCipher op))

/-- After a packet of one byte has been read, a flag is returned from the byte that follows it. -/
theorem flag_beyond_payload :
    ¬ ∀ (theCipher : PacketCipher) (buffer : ℕ → Bool) (bufSize bits : ℕ) (ops : List ReadOp),
      (start buffer bufSize bits).AllHonest theCipher ops := by
  intro claim
  have hflag := claim ⟨fun buffer _ _ => buffer, fun _ _ => []⟩ (fun _ => false) 1 8
    [.read 1, .readFlag]
  have hreturned := hflag.2.1 8 (by decide) (by decide)
  exact absurd hreturned (by decide)

/-- Without a hash to remove, the payload ends where the stream stops reading, and only a flag read
right there goes beyond it, or a count that wraps. -/
theorem fits_of_payload_eq (hpayload : s.payload = s.stream.maxReadBitNum)
    {bitCount : ℕ} (hsum : s.stream.bitNum + bitCount < 2 ^ 32) : s.CountFits bitCount := by
  unfold CountFits
  rw [Nat.add_comm bitCount, Nat.mod_eq_of_lt hsum, hpayload]
  exact le_or_gt _ _

end ReadSession

end TNL
