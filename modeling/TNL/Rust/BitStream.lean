import TNL.Library.Checked
import TNL.Stream.ByteBits

/-!
# The bit stream of the Rust port

The functions are those of the C++ library, with the types and the checks of Rust:
indices stay within slices, sums within 32 bits, and a byte is shifted by at most
seven bits. An operation that a check stops has no result.
-/
namespace TNL.Rust
open Library

structure BitStream where
  buffer : Slice U8
  bitNum : ℕ
  maxReadBitNum : ℕ
  maxWriteBitNum : ℕ
  error : Bool

namespace BitStream

def resizePad : ℕ := 1500

/-- The limits lose their high bits in the shift. -/
def resizeBits (s : BitStream) (newBits : ℕ) : Option (Bool × BitStream) := do
  let bits ← checkedAdd 32 s.maxWriteBitNum newBits
  let bits ← checkedAdd 32 bits 7
  let newSize ← checkedAdd 32 (bits / 8) resizePad
  return (true, { s with
    buffer := s.buffer.resize newSize 0
    maxReadBitNum := newSize * 8 % 2 ^ 32
    maxWriteBitNum := newSize * 8 % 2 ^ 32 })

/-- The bits fit into one byte. -/
def storeShort (buffer bitPtr : Slice U8) (dest bitCount upShift : ℕ) : Option (Slice U8) := do
  let bound ← checkedShl (1 : U8) bitCount
  let mask ← checkedShl (bound - 1) upShift
  let sourceByte ← bitPtr.get 0
  let old ← buffer.get dest
  let new ← checkedShl sourceByte upShift
  buffer.set dest ((old &&& ~~~mask) ||| (new &&& mask))

/-- The loop over whole bytes that are aligned. -/
def copyBytes (bitPtr : Slice U8) : ℕ → ℕ → ℕ → Slice U8 → Option (Slice U8)
  | 0, _, _, buffer => some buffer
  | n + 1, dest, source, buffer => do
    let sourceByte ← bitPtr.get source
    let buffer ← buffer.set dest sourceByte
    copyBytes bitPtr n (dest + 1) (source + 1) buffer

def storeAligned (buffer bitPtr : Slice U8) (dest bitCount : ℕ) : Option (Slice U8) := do
  let buffer ← copyBytes bitPtr (bitCount / 8) dest 0 buffer
  let rest := bitCount % 8
  if rest = 0 then return buffer
  else
    let bound ← checkedShl (1 : U8) rest
    let mask := bound - 1
    let sourceByte ← bitPtr.get (bitCount / 8)
    let old ← buffer.get (dest + bitCount / 8)
    buffer.set (dest + bitCount / 8) ((sourceByte &&& mask) ||| (old &&& ~~~mask))

/-- The loop over whole bytes that are not aligned. -/
def shiftBytes (bitPtr : Slice U8) (upShift downShift : ℕ) :
    ℕ → ℕ → ℕ → U8 → Slice U8 → Option (U8 × Slice U8)
  | 0, _, _, destByte, buffer => some (destByte, buffer)
  | n + 1, dest, source, destByte, buffer => do
    let sourceByte ← bitPtr.get source
    let low ← checkedShl sourceByte upShift
    let buffer ← buffer.set dest (destByte ||| low)
    let destByte ← checkedShr sourceByte downShift
    shiftBytes bitPtr upShift downShift n (dest + 1) (source + 1) destByte buffer

def storeUnaligned (buffer bitPtr : Slice U8) (bitNum bitCount : ℕ) : Option (Slice U8) := do
  let upShift := bitNum % 8
  let downShift := 8 - upShift
  let dest := bitNum / 8
  let old ← buffer.get dest
  let kept ← checkedShr (0xFF : U8) downShift
  let last ← checkedAdd 32 bitNum bitCount
  let lastMask ← checkedShr (0xFF : U8) (7 - (last - 1) % 8)
  let (destByte, buffer) ←
    shiftBytes bitPtr upShift downShift (bitCount / 8) dest 0 (old &&& kept) buffer
  let dest := dest + bitCount / 8
  let rest := bitCount % 8
  if rest = 0 then
    let old ← buffer.get dest
    buffer.set dest ((old &&& ~~~lastMask) ||| (destByte &&& lastMask))
  else
    let sourceByte ← bitPtr.get (bitCount / 8)
    let low ← checkedShl sourceByte upShift
    if rest ≤ downShift then
      let old ← buffer.get dest
      buffer.set dest ((old &&& ~~~lastMask) ||| ((destByte ||| low) &&& lastMask))
    else
      let buffer ← buffer.set dest (destByte ||| low)
      let high ← checkedShr sourceByte downShift
      let old ← buffer.get (dest + 1)
      buffer.set (dest + 1) ((old &&& ~~~lastMask) ||| (high &&& lastMask))

/-- The part of `write_bits` that stores, for at least one bit. -/
def store (s : BitStream) (bitCount : ℕ) (bitPtr : Slice U8) : Option BitStream := do
  let upShift := s.bitNum % 8
  let downShift := 8 - upShift
  let buffer ←
    if downShift ≥ bitCount then storeShort s.buffer bitPtr (s.bitNum / 8) bitCount upShift
    else if upShift = 0 then storeAligned s.buffer bitPtr (s.bitNum / 8) bitCount
    else storeUnaligned s.buffer bitPtr s.bitNum bitCount
  let bitNum ← checkedAdd 32 s.bitNum bitCount
  return { s with buffer := buffer, bitNum := bitNum }

def writeBits (s : BitStream) (bitCount : ℕ) (bitPtr : Slice U8) : Option (Bool × BitStream) :=
  if bitCount = 0 then some (true, s)
  else do
    let last ← checkedAdd 32 bitCount s.bitNum
    let (resized, s) ← if last > s.maxWriteBitNum then s.resizeBits (last - s.maxWriteBitNum)
      else some (true, s)
    if resized then
      let s ← s.store bitCount bitPtr
      return (true, s)
    else return (false, s)

/-- The part of `read_bits` that copies, for at least one bit. -/
def load (buffer : Slice U8) (bitNum bitCount : ℕ) (bitPtr : Slice U8) : Option (Slice U8) := do
  let source := bitNum / 8
  let downShift := bitNum % 8
  let upShift := 8 - downShift
  let rest := bitCount % 8
  if downShift = 0 then
    let bitPtr ← copyBytes buffer (bitCount / 8) 0 source bitPtr
    if rest = 0 then return bitPtr
    else
      let byte ← buffer.get (source + bitCount / 8)
      bitPtr.set (bitCount / 8) byte
  else
    let first ← buffer.get source
    let sourceByte ← checkedShr first downShift
    let (sourceByte, bitPtr) ←
      shiftBytes buffer upShift downShift (bitCount / 8) 0 (source + 1) sourceByte bitPtr
    if rest = 0 then return bitPtr
    else if rest ≤ upShift then bitPtr.set (bitCount / 8) sourceByte
    else
      let nextByte ← buffer.get (source + bitCount / 8 + 1)
      let high ← checkedShl nextByte upShift
      bitPtr.set (bitCount / 8) (sourceByte ||| high)

def readBits (s : BitStream) (bitCount : ℕ) (bitPtr : Slice U8) :
    Option (Bool × Slice U8 × BitStream) :=
  if bitCount = 0 then some (true, bitPtr, s)
  else do
    let last ← checkedAdd 32 bitCount s.bitNum
    if last > s.maxReadBitNum then return (false, bitPtr, { s with error := true })
    else
      let bitPtr ← load s.buffer s.bitNum bitCount bitPtr
      return (true, bitPtr, { s with bitNum := last })

/-- The bytes are swapped on a target that is big endian. -/
def toLe (bigEndian : Bool) (val : BitVec 32) : BitVec 32 :=
  if bigEndian then
    ByteStream.intBytes val 0 ++ ByteStream.intBytes val 1 ++ ByteStream.intBytes val 2 ++
      ByteStream.intBytes val 3
  else val

/-- The lowest byte comes first on any target. -/
def toLeBytes (val : BitVec 32) : Slice U8 := ⟨4, ByteStream.intBytes val⟩

def writeInt (bigEndian : Bool) (s : BitStream) (val : BitVec 32) (bitCount : ℕ) : Option BitStream :=
  (s.writeBits bitCount (toLeBytes (toLe bigEndian val))).map Prod.snd

def readInt (s : BitStream) (bitCount : ℕ) : Option (BitVec 32 × BitStream) := do
  let (_, bytes, s) ← s.readBits bitCount ⟨4, fun _ => 0⟩
  let ret : BitVec 32 := bytes.elems 3 ++ bytes.elems 2 ++ bytes.elems 1 ++ bytes.elems 0
  if bitCount = 32 then return (ret, s)
  else
    let bound ← checkedShl (1 : BitVec 32) bitCount
    return (ret &&& (bound - 1), s)

end BitStream

end TNL.Rust
