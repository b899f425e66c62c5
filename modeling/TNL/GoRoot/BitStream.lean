import Mathlib.Data.List.Basic
import TNL.Library.LittleEndian
import TNL.Library.Succeeds
import TNL.GoRoot.StringTable

/-!
# The bit stream of the Go master server

Reads and writes of integers go over the bytes one by one, and whole bytes at a
byte border are copied. An index outside of a slice ends the program, which is an
operation without result. Packets have at most a few thousand bytes, so that
positions do not reach the end of their type.
-/
namespace TNL.GoRoot
open Library

structure BitStream where
  buffer : List UInt8
  bitNum : ℕ
  maxReadBitNum : ℕ
  maxWriteBitNum : ℕ
  error : Bool
  resizable : Bool

namespace BitStream

def maxPacketDataSize : ℕ := 1500
def resizePad : ℕ := 1500

def newBitStream (buffer : List UInt8) : BitStream where
  buffer := buffer
  bitNum := 0
  maxReadBitNum := 8 * buffer.length
  maxWriteBitNum := 8 * buffer.length
  error := false
  resizable := false

def newResizableBitStream : BitStream where
  buffer := List.replicate resizePad 0
  bitNum := 0
  maxReadBitNum := 8 * resizePad
  maxWriteBitNum := 8 * resizePad
  error := false
  resizable := true

/-- The lowest `n` bits of a byte. -/
def mask (n : ℕ) : BitVec 8 := (1 <<< n) - 1

def resizeBits (bs : BitStream) (numBitsNeeded : ℕ) : Bool × BitStream :=
  if bs.resizable then
    let bytesNeeded := (bs.bitNum + numBitsNeeded + 7) / 8
    if bs.buffer.length < bytesNeeded then
      let newSize := bytesNeeded + resizePad
      (true, { bs with
        buffer := bs.buffer ++ List.replicate (newSize - bs.buffer.length) 0
        maxReadBitNum := 8 * newSize
        maxWriteBitNum := 8 * newSize })
    else (true, bs)
  else (false, bs)

/-- The loop over the bytes an integer is written to, in at most `fuel` steps. -/
def writeBytes : ℕ → BitStream → U32 → ℕ → Option BitStream
  | 0, _, _, _ => none
  | fuel + 1, bs, value, bitCount =>
    if bitCount = 0 then some bs
    else match bs.buffer[bs.bitNum / 8]? with
      | none => none
      | some byte =>
        let bitPos := bs.bitNum % 8
        let bits := min bitCount (8 - bitPos)
        let byte := UInt8.ofBitVec (byte.toBitVec ||| (value.setWidth 8 &&& mask bits) <<< bitPos)
        let bs := { bs with buffer := bs.buffer.set (bs.bitNum / 8) byte, bitNum := bs.bitNum + bits }
        writeBytes fuel bs (value >>> bits) (bitCount - bits)

def writeInt (bs : BitStream) (value : U32) (bitCount : ℕ) : Option BitStream :=
  if bs.bitNum + bitCount > bs.maxWriteBitNum then
    match bs.resizeBits bitCount with
    | (false, bs) => some { bs with error := true }
    | (true, bs) => writeBytes (bitCount + 1) bs value bitCount
  else writeBytes (bitCount + 1) bs value bitCount

/-- The loop over the bytes an integer is read from, in at most `fuel` steps. -/
def readBytes (buffer : List UInt8) : ℕ → ℕ → ℕ → ℕ → U32 → Option (U32 × ℕ)
  | 0, _, _, _, _ => none
  | fuel + 1, bitNum, bitCount, bitsRead, value =>
    if bitCount = 0 then some (value, bitNum)
    else match buffer[bitNum / 8]? with
      | none => none
      | some byte =>
        let bitPos := bitNum % 8
        let bits := min bitCount (8 - bitPos)
        let part := (byte.toBitVec >>> bitPos) &&& mask bits
        readBytes buffer fuel (bitNum + bits) (bitCount - bits) (bitsRead + bits)
          (value ||| part.setWidth 32 <<< bitsRead)

def readInt (bs : BitStream) (bitCount : ℕ) : Option (U32 × BitStream) :=
  if bs.bitNum + bitCount > bs.maxReadBitNum then some (0, { bs with error := true })
  else (readBytes bs.buffer (bitCount + 1) bs.bitNum bitCount 0 0).map fun (value, bitNum) =>
    (value, { bs with bitNum := bitNum })

def readFlag (bs : BitStream) : Option (Bool × BitStream) :=
  if bs.bitNum ≥ bs.maxReadBitNum then some (false, { bs with error := true })
  else bs.buffer[bs.bitNum / 8]?.map fun byte =>
    (byte.toBitVec.getLsbD (bs.bitNum % 8), { bs with bitNum := bs.bitNum + 1 })

/-- The loop over bits, the `i`-th of which is the next. -/
def writeBitwise : ℕ → ℕ → BitStream → List UInt8 → Option BitStream
  | 0, _, bs, _ => some bs
  | n + 1, i, bs, data =>
    match data[i / 8]? with
    | none => none
    | some byte => do
      let bit := (byte.toBitVec >>> (i % 8)) &&& 1
      let bs ← bs.writeInt (bit.setWidth 32) 1
      writeBitwise n (i + 1) bs data

def writeBits (bs : BitStream) (bitCount : ℕ) (data : List UInt8) : Option (Bool × BitStream) :=
  let (room, bs) := if bs.bitNum + bitCount > bs.maxWriteBitNum then bs.resizeBits bitCount
    else (true, bs)
  if room then
    let byteCount := (bitCount + 7) / 8
    if data.length < byteCount then some (false, { bs with error := true })
    else if bs.bitNum % 8 = 0 then
      if bs.bitNum / 8 ≤ bs.buffer.length then
        let copied := (data.take byteCount).take (bs.buffer.length - bs.bitNum / 8)
        some (true, { bs with
          buffer := bs.buffer.take (bs.bitNum / 8) ++ copied ++
            bs.buffer.drop (bs.bitNum / 8 + copied.length)
          bitNum := bs.bitNum + bitCount })
      else none
    else (writeBitwise bitCount 0 bs data).map fun bs => (!bs.error, bs)
  else some (false, { bs with error := true })

/-- The loop over bits, the `i`-th of which is the next. -/
def readBitwise : ℕ → ℕ → BitStream → List UInt8 → Option (List UInt8 × BitStream)
  | 0, _, bs, data => some (data, bs)
  | n + 1, i, bs, data => do
    let (bit, bs) ← bs.readInt 1
    match data[i / 8]? with
    | none => none
    | some byte =>
      let single : BitVec 8 := 1 <<< (i % 8)
      let byte := if bit ≠ 0 then byte.toBitVec ||| single else byte.toBitVec &&& ~~~single
      readBitwise n (i + 1) bs (data.set (i / 8) (UInt8.ofBitVec byte))

/-- The bytes that are read into, with the stream. -/
def readBits (bs : BitStream) (bitCount : ℕ) (data : List UInt8) :
    Option (List UInt8 × BitStream) :=
  if bs.bitNum + bitCount > bs.maxReadBitNum then some (data, { bs with error := true })
  else
    let byteCount := (bitCount + 7) / 8
    if data.length < byteCount then some (data, { bs with error := true })
    else if bs.bitNum % 8 = 0 then
      if bs.bitNum / 8 ≤ bs.buffer.length then
        let copied := (bs.buffer.drop (bs.bitNum / 8)).take byteCount
        some (copied ++ data.drop copied.length, { bs with bitNum := bs.bitNum + bitCount })
      else none
    else readBitwise bitCount 0 bs data

/-- Write a string without its length of at most `maxLen`. -/
def writeString (bs : BitStream) (str : List UInt8) (maxLen : ℕ) : Option BitStream := do
  let str := if str.length > maxLen then str.take maxLen else str
  let bs ← bs.writeInt (BitVec.ofNat 32 str.length) 8
  str.foldlM (fun bs b => bs.writeInt (b.toBitVec.setWidth 32) 8) bs

/-- The bytes are copied into a copy of the buffer, so that nothing but the stream changes. -/
def readString (bs : BitStream) : Option BitStream := do
  let (length, bs) ← bs.readInt 8
  (List.range length.toNat).foldlM (fun bs _ => (bs.readInt 8).map Prod.snd) bs

/-- The bytes of a packet that has been written. -/
def packet (bs : BitStream) : Option (List UInt8) :=
  let dataSize := (bs.bitNum + 7) / 8
  if dataSize ≤ bs.buffer.length then some (bs.buffer.take dataSize) else none

variable {bs : BitStream} {rest before data bytes : List UInt8} {k n fuel bitNum bitCount bitsRead : ℕ}

section safety

/-- The position is in the buffer. -/
structure Readable (bs : BitStream) : Prop where
  max : bs.maxReadBitNum = 8 * bs.buffer.length
  le : bs.bitNum ≤ bs.maxReadBitNum

theorem newBitStream_readable (buffer : List UInt8) : (newBitStream buffer).Readable :=
  ⟨rfl, Nat.zero_le _⟩

theorem readBytes_some {buffer : List UInt8} (hfuel : bitCount < fuel)
    (hle : bitNum + bitCount ≤ 8 * buffer.length) (bitsRead : ℕ) (value : U32) :
    ∃ value', readBytes buffer fuel bitNum bitCount bitsRead value =
      some (value', bitNum + bitCount) := by
  induction fuel generalizing bitNum bitCount bitsRead value with
  | zero => cases hfuel
  | succ fuel ih =>
    rw [readBytes]
    by_cases hzero : bitCount = 0
    · subst hzero
      exact ⟨value, by rw [if_pos rfl, Nat.add_zero]⟩
    · have hlt : bitNum / 8 < buffer.length := by omega
      rw [if_neg hzero, List.getElem?_eq_getElem hlt]
      dsimp only
      have hfuel' : bitCount - min bitCount (8 - bitNum % 8) < fuel := by omega
      have hle' : bitNum + min bitCount (8 - bitNum % 8) +
          (bitCount - min bitCount (8 - bitNum % 8)) ≤ 8 * buffer.length := by omega
      obtain ⟨value', heq⟩ := ih hfuel' hle' _ _
      refine ⟨value', heq.trans ?_⟩
      rw [Nat.add_assoc, Nat.add_sub_cancel' (Nat.min_le_left ..)]

theorem Readable.readInt (h : bs.Readable) (n : ℕ) :
    Succeeds (bs.readInt n) fun result => result.2.Readable := by
  rw [BitStream.readInt]
  by_cases hover : bs.bitNum + n > bs.maxReadBitNum
  · rw [if_pos hover]
    exact ⟨_, rfl, h.max, h.le⟩
  · have hmax := h.max
    obtain ⟨value, heq⟩ := readBytes_some (Nat.lt_succ_self n)
      (show bs.bitNum + n ≤ 8 * bs.buffer.length by omega) 0 0
    rw [if_neg hover, heq]
    exact ⟨_, rfl, h.max, not_lt.mp hover⟩

theorem Readable.readFlag (h : bs.Readable) :
    Succeeds bs.readFlag fun result => result.2.Readable := by
  rw [BitStream.readFlag]
  by_cases hover : bs.bitNum ≥ bs.maxReadBitNum
  · rw [if_pos hover]
    exact ⟨_, rfl, h.max, h.le⟩
  · have hmax := h.max
    have hlt : bs.bitNum / 8 < bs.buffer.length := by omega
    rw [if_neg hover, List.getElem?_eq_getElem hlt]
    exact ⟨_, rfl, h.max, not_le.mp hover⟩

theorem Readable.readString (h : bs.Readable) : Succeeds bs.readString Readable :=
  (h.readInt 8).bind fun _ hbs => .foldlM hbs fun _ hbs _ _ => (hbs.readInt 8).map

end safety

section reading

/-- The bytes left to read, when the position is at a byte border. -/
structure Reads (bs : BitStream) (rest : List UInt8) : Prop where
  max : bs.maxReadBitNum = 8 * bs.buffer.length
  split : ∃ before, bs.buffer = before ++ rest ∧ bs.bitNum = 8 * before.length

theorem newBitStream_reads (buffer : List UInt8) : (newBitStream buffer).Reads buffer :=
  ⟨rfl, [], rfl, rfl⟩

theorem Reads.readable (h : bs.Reads rest) : bs.Readable := by
  obtain ⟨before, hbuffer, hpos⟩ := h.split
  refine ⟨h.max, ?_⟩
  rw [h.max, hbuffer, hpos, List.length_append]
  omega

/-- An integer of `k` bytes; what is not there is read as zero, and nothing is skipped. -/
def takeInt (k : ℕ) (rest : List UInt8) : ℕ × List UInt8 :=
  if rest.length < k then (0, rest) else (leValue (rest.take k), rest.drop k)

def takeBytes (n : ℕ) (rest : List UInt8) : List UInt8 × List UInt8 :=
  if rest.length < n then (List.replicate n 0, rest) else (rest.take n, rest.drop n)

theorem mask_eight : mask 8 = BitVec.allOnes 8 := by decide

/-- Bytes are joined above the bits that are there already. -/
theorem join_toNat {value : U32} (byte : UInt8) (hvalue : value.toNat < 2 ^ bitsRead)
    (hroom : bitsRead + 8 ≤ 32) :
    (value ||| ((byte.toBitVec >>> 0) &&& mask 8).setWidth 32 <<< bitsRead).toNat =
      value.toNat + 2 ^ bitsRead * byte.toNat := by
  have hbyte := byte.toNat_lt
  have hpow : 2 ^ bitsRead * 256 ≤ 2 ^ 32 := by
    rw [show 256 = 2 ^ 8 from rfl, ← Nat.pow_add]
    exact Nat.pow_le_pow_right (by decide) hroom
  have hlt : byte.toNat <<< bitsRead < 2 ^ 32 := by
    rw [Nat.shiftLeft_eq, Nat.mul_comm]
    exact (Nat.mul_lt_mul_of_pos_left hbyte (Nat.two_pow_pos bitsRead)).trans_le hpow
  rw [mask_eight, BitVec.and_allOnes, BitVec.ushiftRight_zero, BitVec.toNat_or,
    BitVec.toNat_shiftLeft, BitVec.toNat_setWidth, UInt8.toNat_toBitVec,
    Nat.mod_eq_of_lt (hbyte.trans (by decide)), Nat.mod_eq_of_lt hlt, Nat.or_comm,
    ← Nat.shiftLeft_add_eq_or_of_lt hvalue, Nat.shiftLeft_eq, Nat.add_comm, Nat.mul_comm]

theorem readBytes_aligned {value : U32} (hbuffer : 8 * k < fuel) (hk : k ≤ rest.length)
    (hroom : bitsRead + 8 * k ≤ 32) (hvalue : value.toNat < 2 ^ bitsRead) :
    readBytes (before ++ rest) fuel (8 * before.length) (8 * k) bitsRead value =
      some (BitVec.ofNat 32 (value.toNat + 2 ^ bitsRead * leValue (rest.take k)),
        8 * before.length + 8 * k) := by
  induction k generalizing before rest fuel bitsRead value with
  | zero =>
    obtain ⟨fuel, rfl⟩ := Nat.exists_eq_succ_of_ne_zero (by omega : fuel ≠ 0)
    rw [readBytes, if_pos rfl, List.take_zero, leValue, Nat.mul_zero, Nat.add_zero,
      BitVec.ofNat_toNat, BitVec.setWidth_eq]
    rfl
  | succ k ih =>
    obtain ⟨fuel, rfl⟩ := Nat.exists_eq_succ_of_ne_zero (by omega : fuel ≠ 0)
    obtain ⟨byte, rest, rfl⟩ := List.exists_cons_of_length_pos (by omega : 0 < rest.length)
    have hbyte : (before ++ byte :: rest)[8 * before.length / 8]? = some byte := by
      rw [Nat.mul_div_cancel_left _ (by decide)]
      simp
    have hbits : min (8 * (k + 1)) (8 - 8 * before.length % 8) = 8 := by omega
    have hpos : 8 * before.length % 8 = 0 := Nat.mul_mod_right ..
    have hjoin := join_toNat byte hvalue (by omega)
    rw [readBytes, if_neg (by omega), hbyte]
    dsimp only
    rw [hbits, hpos, show 8 * (k + 1) - 8 = 8 * k by omega]
    have hshape : before ++ byte :: rest = (before ++ [byte]) ++ rest := by simp
    have hlength : 8 * before.length + 8 = 8 * (before ++ [byte]).length := by
      rw [List.length_append, List.length_singleton]
      omega
    have hlt : (value ||| ((byte.toBitVec >>> 0) &&& mask 8).setWidth 32 <<< bitsRead).toNat <
        2 ^ (bitsRead + 8) := by
      rw [hjoin, Nat.pow_add]
      have hbyte' := byte.toNat_lt
      calc value.toNat + 2 ^ bitsRead * byte.toNat
          < 2 ^ bitsRead + 2 ^ bitsRead * byte.toNat := Nat.add_lt_add_right hvalue _
        _ = 2 ^ bitsRead * (byte.toNat + 1) := by rw [Nat.mul_add, Nat.mul_one, Nat.add_comm]
        _ ≤ 2 ^ bitsRead * 2 ^ 8 := Nat.mul_le_mul_left _ hbyte'
    rw [hshape, hlength, ih (by omega) (by simpa using hk) (by omega) hlt, hjoin,
      List.take_succ_cons, leValue, Nat.pow_add, ← hlength]
    refine congrArg some (Prod.ext (congrArg (BitVec.ofNat 32) ?_) (by omega))
    rw [Nat.mul_add, ← Nat.mul_assoc, Nat.add_assoc]

theorem Reads.readInt (h : bs.Reads rest) (hk : k ≤ 4) :
    ∃ bs', bs.readInt (8 * k) = some (BitVec.ofNat 32 (takeInt k rest).1, bs') ∧
      bs'.Reads (takeInt k rest).2 := by
  obtain ⟨before, hbuffer, hpos⟩ := h.split
  have hmax := h.max
  have hlength := congrArg List.length hbuffer
  rw [List.length_append] at hlength
  rw [BitStream.readInt, takeInt]
  by_cases hshort : rest.length < k
  · rw [if_pos (by omega), if_pos hshort]
    exact ⟨_, rfl, h.max, before, hbuffer, hpos⟩
  · have hread : readBytes bs.buffer (8 * k + 1) bs.bitNum (8 * k) 0 0 =
        some (BitVec.ofNat 32 (0 + 1 * leValue (rest.take k)), 8 * before.length + 8 * k) := by
      rw [hbuffer, hpos]
      exact readBytes_aligned (Nat.lt_succ_self _) (not_lt.mp hshort) (by omega) Nat.one_pos
    rw [if_neg (by omega), if_neg hshort, hread, Nat.zero_add, Nat.one_mul]
    refine ⟨_, rfl, h.max, before ++ rest.take k, ?_, ?_⟩
    · rw [List.append_assoc, List.take_append_drop]
      exact hbuffer
    · rw [List.length_append, List.length_take_of_le (not_lt.mp hshort), Nat.mul_add]

/-- Reading into as many zero bytes as are read. -/
theorem Reads.readBits (h : bs.Reads rest) (n : ℕ) :
    ∃ bs', bs.readBits (8 * n) (List.replicate n 0) = some ((takeBytes n rest).1, bs') ∧
      bs'.Reads (takeBytes n rest).2 := by
  obtain ⟨before, hbuffer, hpos⟩ := h.split
  have hmax := h.max
  have hlength := congrArg List.length hbuffer
  rw [List.length_append] at hlength
  rw [BitStream.readBits, takeBytes]
  by_cases hshort : rest.length < n
  · rw [if_pos (by omega), if_pos hshort]
    exact ⟨_, rfl, h.max, before, hbuffer, hpos⟩
  · have hcount : (8 * n + 7) / 8 = n := by omega
    have hcopied : (bs.buffer.drop (bs.bitNum / 8)).take n = rest.take n := by
      rw [hbuffer, hpos, Nat.mul_div_cancel_left _ (by decide), List.drop_left' rfl]
    have hall : rest.take n ++ (List.replicate n 0).drop (rest.take n).length = rest.take n := by
      rw [List.length_take_of_le (not_lt.mp hshort), List.drop_replicate, Nat.sub_self,
        List.replicate_zero, List.append_nil]
    rw [if_neg (by omega), if_neg hshort, hcount, List.length_replicate]
    dsimp only
    rw [if_neg (lt_irrefl n), if_pos (by omega), if_pos (by omega), hcopied, hall]
    refine ⟨_, rfl, h.max, before ++ rest.take n, ?_, ?_⟩
    · rw [List.append_assoc, List.take_append_drop]
      exact hbuffer
    · rw [List.length_append, List.length_take_of_le (not_lt.mp hshort), Nat.mul_add, hpos]

end reading

section writing

/-- The bytes written, when the position is at a byte border. -/
structure Writes (bs : BitStream) (bytes : List UInt8) : Prop where
  resizable : bs.resizable = true
  max : bs.maxWriteBitNum = 8 * bs.buffer.length
  split : ∃ room, bs.buffer = bytes ++ List.replicate room 0
  position : bs.bitNum = 8 * bytes.length

theorem newResizableBitStream_writes : newResizableBitStream.Writes [] :=
  ⟨rfl, by rw [newResizableBitStream, List.length_replicate], ⟨resizePad, rfl⟩, rfl⟩

/-- There is room for what is to be written. -/
theorem Writes.resize (h : bs.Writes bytes) (n : ℕ) :
    ∃ bs', (bs.bitNum + 8 * n ≤ bs'.maxWriteBitNum ∧ bs'.Writes bytes) ∧
      (if bs.bitNum + 8 * n > bs.maxWriteBitNum then bs.resizeBits (8 * n) else (true, bs)) =
        (true, bs') := by
  have hmax := h.max
  by_cases hover : bs.bitNum + 8 * n > bs.maxWriteBitNum
  · have hcount : (bs.bitNum + 8 * n + 7) / 8 > bs.buffer.length := by omega
    obtain ⟨room, hbuffer⟩ := h.split
    have hbuffer' : ∀ more, bs.buffer ++ List.replicate more 0 =
        bytes ++ List.replicate (room + more) 0 := by
      intro more
      rw [hbuffer, List.append_assoc, List.replicate_append_replicate]
    rw [if_pos hover, resizeBits, if_pos h.resizable, if_pos hcount]
    refine ⟨_, ?_, rfl⟩
    refine ⟨?_, h.resizable, ?_, ⟨_, hbuffer' _⟩, h.position⟩
    · dsimp only
      omega
    · rw [List.length_append, List.length_replicate, Nat.add_sub_cancel' (by omega)]
  · rw [if_neg hover]
    exact ⟨bs, ⟨not_lt.mp hover, h⟩, rfl⟩

theorem writeBytes_aligned (value : U32) (hfuel : 8 * k < fuel) (h : bs.Writes bytes)
    (hroom : bs.bitNum + 8 * k ≤ bs.maxWriteBitNum) :
    ∃ bs', writeBytes fuel bs value (8 * k) = some bs' ∧
      bs'.Writes (bytes ++ leBytes k value.toNat) := by
  induction k generalizing fuel bs bytes value with
  | zero =>
    obtain ⟨fuel, rfl⟩ := Nat.exists_eq_succ_of_ne_zero (by omega : fuel ≠ 0)
    rw [writeBytes, if_pos rfl, leBytes, List.append_nil]
    exact ⟨bs, rfl, h⟩
  | succ k ih =>
    obtain ⟨fuel, rfl⟩ := Nat.exists_eq_succ_of_ne_zero (by omega : fuel ≠ 0)
    obtain ⟨room, hbuffer⟩ := h.split
    have hmax := h.max
    have hpos := h.position
    have hlength := congrArg List.length hbuffer
    rw [List.length_append, List.length_replicate] at hlength
    obtain ⟨room, rfl⟩ := Nat.exists_eq_succ_of_ne_zero (by omega : room ≠ 0)
    rw [List.replicate_succ] at hbuffer
    have hindex : bs.bitNum / 8 = bytes.length := by omega
    have hbyte : bs.buffer[bs.bitNum / 8]? = some 0 := by
      rw [hindex, hbuffer]
      simp
    have hbits : min (8 * (k + 1)) (8 - bs.bitNum % 8) = 8 := by omega
    have hvalue : UInt8.ofBitVec ((0 : UInt8).toBitVec ||| (value.setWidth 8 &&& mask 8) <<< 0) =
        UInt8.ofNat value.toNat := by
      rw [mask_eight, BitVec.and_allOnes, BitVec.shiftLeft_zero]
      exact congrArg UInt8.ofBitVec (BitVec.zero_or ..)
    rw [writeBytes, if_neg (by omega), hbyte]
    dsimp only
    rw [hbits, show bs.bitNum % 8 = 0 by omega, hvalue, hindex,
      show 8 * (k + 1) - 8 = 8 * k by omega]
    have hset : bs.buffer.set bytes.length (UInt8.ofNat value.toNat) =
        (bytes ++ [UInt8.ofNat value.toNat]) ++ List.replicate room 0 := by
      rw [hbuffer, List.set_append_right _ _ (le_refl _), Nat.sub_self, List.set_cons_zero]
      simp
    have hnext : Writes { bs with
        buffer := bs.buffer.set bytes.length (UInt8.ofNat value.toNat)
        bitNum := bs.bitNum + 8 } (bytes ++ [UInt8.ofNat value.toNat]) := by
      refine ⟨h.resizable, ?_, ⟨room, hset⟩, ?_⟩
      · rw [List.length_set]
        exact h.max
      · rw [List.length_append, List.length_singleton, Nat.mul_add, hpos]
    have hfuel' : 8 * k < fuel := by omega
    obtain ⟨bs', heq, hwrites⟩ := ih (value >>> 8) hfuel' hnext (by
      dsimp only
      omega)
    refine ⟨bs', heq, ?_⟩
    rw [leBytes, show value.toNat / 256 = (value >>> 8).toNat from by
      rw [BitVec.toNat_ushiftRight, Nat.shiftRight_eq_div_pow]]
    simpa using hwrites

theorem Writes.writeInt (h : bs.Writes bytes) (value : U32) (k : ℕ) :
    ∃ bs', bs.writeInt value (8 * k) = some bs' ∧
      bs'.Writes (bytes ++ leBytes k value.toNat) := by
  obtain ⟨bs₁, ⟨hroom, hwrites⟩, hresize⟩ := h.resize k
  have hroom₁ : bs₁.bitNum + 8 * k ≤ bs₁.maxWriteBitNum := by
    rw [hwrites.position, ← h.position]
    exact hroom
  have hbytes := writeBytes_aligned value (Nat.lt_succ_self _) hwrites hroom₁
  rw [BitStream.writeInt]
  by_cases hover : bs.bitNum + 8 * k > bs.maxWriteBitNum
  · rw [if_pos hover] at hresize ⊢
    rw [hresize]
    exact hbytes
  · rw [if_neg hover] at hresize ⊢
    obtain ⟨_, rfl⟩ := Prod.mk.inj hresize
    exact hbytes

theorem Writes.writeBits (h : bs.Writes bytes) (hn : n ≤ data.length) :
    ∃ bs', bs.writeBits (8 * n) data = some (true, bs') ∧ bs'.Writes (bytes ++ data.take n) := by
  obtain ⟨bs₁, ⟨hroom, hwrites⟩, hresize⟩ := h.resize n
  obtain ⟨room, hbuffer⟩ := hwrites.split
  have hmax := hwrites.max
  have hpos := hwrites.position
  have hpos₀ := h.position
  have hlength := congrArg List.length hbuffer
  rw [List.length_append, List.length_replicate] at hlength
  have hcount : (8 * n + 7) / 8 = n := by omega
  have hindex : bs₁.bitNum / 8 = bytes.length := by omega
  rw [BitStream.writeBits, hresize]
  dsimp only
  rw [if_pos rfl, hcount, if_neg (by omega), if_pos (by omega), if_pos (by omega), hindex]
  have hcopied : (data.take n).take (bs₁.buffer.length - bytes.length) = data.take n := by
    rw [List.take_of_length_le]
    rw [List.length_take_of_le hn]
    omega
  rw [hcopied, List.length_take_of_le hn]
  refine ⟨_, rfl, hwrites.resizable, ?_, ⟨room - n, ?_⟩, ?_⟩
  · rw [List.length_append, List.length_append, List.length_take_of_le (by omega),
      List.length_take_of_le hn, List.length_drop, hmax]
    omega
  · rw [hbuffer, List.take_left' rfl, List.drop_append, List.drop_of_length_le (by omega),
      List.nil_append, List.drop_replicate, Nat.add_sub_cancel_left]
  · rw [List.length_append, List.length_take_of_le hn, Nat.mul_add, hpos]

theorem Writes.writeString (h : bs.Writes bytes) (str : List UInt8) (maxLen : ℕ) :
    Succeeds (bs.writeString str maxLen) fun bs' => ∃ bytes', bs'.Writes bytes' := by
  have hbyte : ∀ bs : BitStream, (∃ bytes, bs.Writes bytes) → ∀ b : UInt8,
      Succeeds (bs.writeInt (b.toBitVec.setWidth 32) 8) fun bs' => ∃ bytes', bs'.Writes bytes' :=
    fun bs ⟨bytes, hbs⟩ b => Succeeds.mono (hbs.writeInt _ 1) fun _ hbs' => ⟨_, hbs'⟩
  exact Succeeds.bind (h.writeInt _ 1) fun bs₁ hbs₁ =>
    .foldlM ⟨_, hbs₁⟩ fun bs hbs b _ => hbyte bs hbs b

theorem Writes.packet (h : bs.Writes bytes) : bs.packet = some bytes := by
  obtain ⟨room, hbuffer⟩ := h.split
  have hpos := h.position
  have hsize : (bs.bitNum + 7) / 8 = bytes.length := by omega
  rw [BitStream.packet, hsize, hbuffer, List.length_append, if_pos (Nat.le_add_right ..),
    List.take_left' rfl]

end writing

end BitStream

end TNL.GoRoot
