import TNL.Stream.BitStream
import Mathlib.Logic.Function.Basic

/-!
# Bit streams over bytes

The stream over the bytes of its buffer. `writeBits` has three ways to store
bits: within one byte, byte by byte, and shifted over byte borders with masks for
the first and the last byte. `readBits` has the latter two. Bit `i` of a byte
sequence is bit `i % 8` of byte `i / 8`, and in these bits every operation is the
one of `BitStream`.
-/
namespace TNL

abbrev U8 := BitVec 8

structure ByteStream where
  buffer : ℕ → U8
  mBufSize : ℕ
  mOwnsMemory : Bool
  bitNum : ℕ
  error : Bool
  maxReadBitNum : ℕ
  maxWriteBitNum : ℕ

namespace ByteStream

/-- Bit `i` of a byte sequence. -/
def bit (bytes : ℕ → U8) (i : ℕ) : Bool := (bytes (i / 8)).getLsbD (i % 8)

/-- The stream as a sequence of bits. -/
def bits (s : ByteStream) : BitStream where
  buffer := bit s.buffer
  mBufSize := s.mBufSize
  mOwnsMemory := s.mOwnsMemory
  bitNum := s.bitNum
  error := s.error
  maxReadBitNum := s.maxReadBitNum
  maxWriteBitNum := s.maxWriteBitNum

def resize (s : ByteStream) (newBufferSize : ℕ) : Bool × ByteStream :=
  if s.mBufSize ≥ newBufferSize then (false, { s with mBufSize := newBufferSize })
  else if s.mOwnsMemory then (true, { s with mBufSize := newBufferSize })
  else (false, s)

def resizeBits (s : ByteStream) (newBits : ℕ) : Bool × ByteStream :=
  let newSize := (s.maxWriteBitNum + newBits + 7) / 8 + BitStream.resizePad
  let (resized, s) := s.resize newSize
  if resized then
    (true, { s with maxReadBitNum := newSize * 8, maxWriteBitNum := newSize * 8 })
  else (false, { s with error := true })

/-- `*destPtr++ = *sourcePtr++`, for `n` bytes. -/
def copyBytes (sourcePtr : ℕ → U8) : ℕ → ℕ → ℕ → (ℕ → U8) → ℕ → U8
  | 0, _, _, buffer => buffer
  | n + 1, dest, source, buffer =>
    copyBytes sourcePtr n (dest + 1) (source + 1)
      (Function.update buffer dest (sourcePtr source))

/-- The loop over whole bytes that are not aligned, which carries the high bits of each byte over to
the next. -/
def shiftBytes (sourcePtr : ℕ → U8) (upShift downShift : ℕ) :
    ℕ → ℕ → ℕ → U8 → (ℕ → U8) → U8 × (ℕ → U8)
  | 0, _, _, destByte, buffer => (destByte, buffer)
  | n + 1, dest, source, destByte, buffer =>
    shiftBytes sourcePtr upShift downShift n (dest + 1) (source + 1)
      (sourcePtr source >>> downShift)
      (Function.update buffer dest (destByte ||| (sourcePtr source <<< upShift)))

/-- The part of `writeBits` that stores, for at least one bit. -/
def store (s : ByteStream) (bitCount : ℕ) (sourcePtr : ℕ → U8) : ByteStream :=
  let upShift := s.bitNum % 8
  let downShift := 8 - upShift
  let dest := s.bitNum / 8
  let buffer :=
    if downShift ≥ bitCount then
      let mask := (((1 : U8) <<< bitCount) - 1) <<< upShift
      Function.update s.buffer dest
        ((s.buffer dest &&& ~~~mask) ||| ((sourcePtr 0 <<< upShift) &&& mask))
    else if upShift = 0 then
      let buffer := copyBytes sourcePtr (bitCount / 8) dest 0 s.buffer
      let rest := bitCount % 8
      if rest = 0 then buffer
      else
        let dest := dest + bitCount / 8
        let mask := ((1 : U8) <<< rest) - 1
        Function.update buffer dest ((sourcePtr (bitCount / 8) &&& mask) |||
          (buffer dest &&& ~~~mask))
    else
      let destByte := s.buffer dest &&& ((0xFF : U8) >>> downShift)
      let lastMask := (0xFF : U8) >>> (7 - (s.bitNum + bitCount - 1) % 8)
      let (destByte, buffer) :=
        shiftBytes sourcePtr upShift downShift (bitCount / 8) dest 0 destByte s.buffer
      let dest := dest + bitCount / 8
      let rest := bitCount % 8
      let sourceByte := sourcePtr (bitCount / 8)
      if rest = 0 then
        Function.update buffer dest ((buffer dest &&& ~~~lastMask) ||| (destByte &&& lastMask))
      else if rest ≤ downShift then
        Function.update buffer dest ((buffer dest &&& ~~~lastMask) |||
          ((destByte ||| (sourceByte <<< upShift)) &&& lastMask))
      else
        let buffer := Function.update buffer dest (destByte ||| (sourceByte <<< upShift))
        Function.update buffer (dest + 1) ((buffer (dest + 1) &&& ~~~lastMask) |||
          ((sourceByte >>> downShift) &&& lastMask))
  { s with buffer := buffer, bitNum := s.bitNum + bitCount }

def writeBits (s : ByteStream) (bitCount : ℕ) (bitPtr : ℕ → U8) : Bool × ByteStream :=
  if bitCount = 0 then (true, s)
  else if bitCount + s.bitNum > s.maxWriteBitNum then
    let (resized, s) := s.resizeBits (bitCount + s.bitNum - s.maxWriteBitNum)
    if resized then (true, s.store bitCount bitPtr) else (false, s)
  else (true, s.store bitCount bitPtr)

/-- The part of `readBits` that copies, for at least one bit, into the bytes at `destPtr`. The bits
of the last byte that were not asked for are whatever follows in the buffer. -/
def load (s : ByteStream) (bitCount : ℕ) (destPtr : ℕ → U8) : ℕ → U8 :=
  let source := s.bitNum / 8
  let downShift := s.bitNum % 8
  let upShift := 8 - downShift
  if downShift = 0 then copyBytes s.buffer ((bitCount + 7) / 8) 0 source destPtr
  else
    let (sourceByte, dest) := shiftBytes s.buffer upShift downShift (bitCount / 8) 0 (source + 1)
      (s.buffer source >>> downShift) destPtr
    let rest := bitCount % 8
    if rest = 0 then dest
    else if rest ≤ upShift then Function.update dest (bitCount / 8) sourceByte
    else Function.update dest (bitCount / 8)
      (sourceByte ||| (s.buffer (source + bitCount / 8 + 1) <<< upShift))

def readBits (s : ByteStream) (bitCount : ℕ) (bitPtr : ℕ → U8) :
    Bool × (ℕ → U8) × ByteStream :=
  if bitCount = 0 then (true, bitPtr, s)
  else if (bitCount + s.bitNum) % 2 ^ 32 > s.maxReadBitNum then
    (false, bitPtr, { s with error := true })
  else (true, s.load bitCount bitPtr, { s with bitNum := (s.bitNum + bitCount) % 2 ^ 32 })

/-- The state after `writeFlag`, which returns the flag itself. -/
def storeFlag (s : ByteStream) (val : Bool) : ByteStream :=
  let dest := s.bitNum / 8
  { s with
    buffer := Function.update s.buffer dest
      (if val then s.buffer dest ||| ((1 : U8) <<< (s.bitNum % 8))
        else s.buffer dest &&& ~~~((1 : U8) <<< (s.bitNum % 8)))
    bitNum := s.bitNum + 1 }

def writeFlag (s : ByteStream) (val : Bool) : ByteStream :=
  if s.bitNum + 1 > s.maxWriteBitNum then
    let (resized, s) := s.resizeBits 1
    if resized then s.storeFlag val else s
  else s.storeFlag val

def readFlag (s : ByteStream) : Bool × ByteStream :=
  if s.bitNum > s.maxReadBitNum then (false, { s with error := true })
  else (s.buffer (s.bitNum / 8) &&& ((1 : U8) <<< (s.bitNum % 8)) ≠ 0,
    { s with bitNum := (s.bitNum + 1) % 2 ^ 32 })

/-- The bytes of an integer, lowest first. -/
def intBytes (val : BitVec 32) (k : ℕ) : U8 := (val >>> (8 * k)).setWidth 8

def writeInt (s : ByteStream) (val : BitVec 32) (bitCount : ℕ) : ByteStream :=
  (s.writeBits bitCount (intBytes val)).2

/-- At most 32 bits are asked for, so that they all go into `ret`. -/
def readInt (s : ByteStream) (bitCount : ℕ) : BitVec 32 × ByteStream :=
  let (_, bytes, s) := s.readBits bitCount fun _ => 0
  let ret : BitVec 32 := bytes 3 ++ bytes 2 ++ bytes 1 ++ bytes 0
  (if bitCount = 32 then ret else ret &&& (((1 : BitVec 32) <<< bitCount) - 1), s)

def write (s : ByteStream) (in_numBytes : ℕ) (in_pBuffer : ℕ → U8) : Bool × ByteStream :=
  s.writeBits (in_numBytes * 8) in_pBuffer

def read (s : ByteStream) (in_numBytes : ℕ) (out_pBuffer : ℕ → U8) :
    Bool × (ℕ → U8) × ByteStream :=
  s.readBits (in_numBytes * 8 % 2 ^ 32) out_pBuffer

def setBitPosition (s : ByteStream) (newBitPosition : ℕ) : ByteStream :=
  { s with bitNum := newBitPosition }

def getBytePosition (s : ByteStream) : ℕ := (s.bitNum + 7) / 8

def setBytePosition (s : ByteStream) (newPosition : ℕ) : ByteStream :=
  { s with bitNum := newPosition * 8 }

/-- The first bytes of a buffer. -/
def bytes (buffer : ℕ → U8) (size : ℕ) : List U8 := (List.range size).map buffer

/-- The bytes up to the position. -/
def packetData (s : ByteStream) : List U8 := bytes s.buffer s.getBytePosition

end ByteStream

end TNL
