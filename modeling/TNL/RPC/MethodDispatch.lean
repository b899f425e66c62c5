import TNL.Event.ClassNegotiation
import TNL.Stream.StringWriter
import TNL.StringTable.ConnectionStringTable

/-!
# The arguments of remote methods

Every type that a remote method may take has a pair of functions that write and
read it. A read that the stream refuses leaves a value that was never set, which
is zero here.
-/
namespace TNL
open BitStream ConnectionStringTable HuffmanStringProcessor

/-- The part of a connection's string table that writes, and the part that reads. -/
structure StringTables where
  table : ConnectionStringTable (List UInt8)
  mRemoteStringTable : Fin entryCount → List UInt8

/-- A bit stream with all that arguments are written with. -/
structure TypedStream where
  strings : StringStream
  mStringTable : Option StringTables

namespace TypedStream

def bits (s : TypedStream) : BitStream := s.strings.stream

def withBits (s : TypedStream) (bits : BitStream) : TypedStream :=
  { s with strings := { s.strings with stream := bits } }

def writeInt (s : TypedStream) (value bitCount : ℕ) : TypedStream :=
  s.withBits (s.bits.writeInt value bitCount)

def readInt (s : TypedStream) (bitCount : ℕ) : ℕ × TypedStream :=
  let (value, bits) := s.bits.readInt bitCount
  (value, s.withBits bits)

def writeFlag (s : TypedStream) (val : Bool) : TypedStream := s.withBits (s.bits.writeFlag val)

def readFlag (s : TypedStream) : Bool × TypedStream :=
  let (val, bits) := s.bits.readFlag
  (val, s.withBits bits)

def writeSignedInt (s : TypedStream) (value : BitVec 32) (bitCount : ℕ) : TypedStream :=
  if value.slt 0 then (s.writeFlag true).writeInt (-value).toNat (bitCount - 1)
  else (s.writeFlag false).writeInt value.toNat (bitCount - 1)

def readSignedInt (s : TypedStream) (bitCount : ℕ) : BitVec 32 × TypedStream :=
  let (negative, s) := s.readFlag
  let (value, s) := s.readInt (bitCount - 1)
  (if negative then -BitVec.ofNat 32 value else BitVec.ofNat 32 value, s)

/-- How many bits a value of a range takes. -/
def rangeBits (rangeStart rangeEnd : U32) : U32 := getNextBinLog2 (rangeEnd - rangeStart + 1)

def writeRangedU32 (s : TypedStream) (value rangeStart rangeEnd : U32) : TypedStream :=
  s.writeInt (value - rangeStart).toNat (rangeBits rangeStart rangeEnd).toNat

def readRangedU32 (s : TypedStream) (rangeStart rangeEnd : U32) : U32 × TypedStream :=
  let (val, s) := s.readInt (rangeBits rangeStart rangeEnd).toNat
  (BitVec.ofNat 32 val + rangeStart, s)

def writeString (tree : HuffTree) (s : TypedStream) (string : List UInt8) : TypedStream :=
  { s with strings := s.strings.writeString tree (some string) 255 }

/-- Read a string through a local array, which holds anything before. -/
def readString (tree : HuffTree) (buffer : ℕ → UInt8) (s : TypedStream) : List UInt8 × TypedStream :=
  let (strings, buf) := s.strings.readString tree ⟨buffer, []⟩
  (buf.string, { s with strings := strings })

def entryBitSize : ℕ := 10

def writeStringTableEntry (tree : HuffTree) (getIndex : List UInt8 → ℕ) (s : TypedStream)
    (ste : List UInt8) : TypedStream :=
  match s.mStringTable with
  | none => s.writeString tree ste
  | some tables =>
    let (record, table) := tables.table.writeStringTableEntry getIndex ste
    let s := { s with mStringTable := some { tables with table := table } }
    let s := s.writeInt record.index.val entryBitSize
    match record.string with
    | none => s.writeFlag true
    | some string => (s.writeFlag false).writeString tree string

def readStringTableEntry (tree : HuffTree) (buffer : ℕ → UInt8) (s : TypedStream) :
    List UInt8 × TypedStream :=
  match s.mStringTable with
  | none => s.readString tree buffer
  | some tables =>
    let (index, s) := s.readInt entryBitSize
    let entry : Fin entryCount := ⟨index % entryCount, Nat.mod_lt _ (by decide)⟩
    let (confirmed, s) := s.readFlag
    if confirmed then (tables.mRemoteStringTable entry, s)
    else
      let (buf, s) := s.readString tree buffer
      let mRemoteStringTable := Function.update tables.mRemoteStringTable entry buf
      (mRemoteStringTable entry,
        { s with mStringTable := some { tables with mRemoteStringTable := mRemoteStringTable } })

end TypedStream

/-- How single precision numbers, given by their bits, are turned into integers of some bits and
back. -/
structure FloatConversions where
  writeFloat : ℕ → BitVec 32 → U32
  readFloat : ℕ → U32 → BitVec 32
  writeSignedFloat : ℕ → BitVec 32 → BitVec 32
  readSignedFloat : ℕ → BitVec 32 → BitVec 32

/-- The functions `Types::write` and `Types::read` of a type. -/
structure Marshal (V : Type) where
  write : TypedStream → V → TypedStream
  read : TypedStream → V × TypedStream

namespace Types
open TypedStream

def vectorSizeBitSize : ℕ := 8
def byteBufferSizeBitSize : ℕ := 10

/-- The bytes of a number, lowest first. -/
def scalar (numBytes : ℕ) : Marshal (BitVec (8 * numBytes)) where
  write s val := s.withBits (s.bits.writeBits (intBits val.toNat (8 * numBytes))).2
  read s :=
    let (bits, stream) := s.bits.readBits (8 * numBytes)
    (BitVec.ofNat _ (bitsInt (bits.getD [])), s.withBits stream)

def bool : Marshal Bool := ⟨writeFlag, readFlag⟩

def int (bitCount : ℕ) : Marshal U32 where
  write s val := s.writeInt val.toNat bitCount
  read s :=
    let (value, s) := s.readInt bitCount
    (BitVec.ofNat 32 value, s)

def signedInt (bitCount : ℕ) : Marshal (BitVec 32) where
  write s val := s.writeSignedInt val bitCount
  read s := s.readSignedInt bitCount

def rangedU32 (minValue maxValue : U32) : Marshal U32 where
  write s val := s.writeRangedU32 val minValue maxValue
  read s := s.readRangedU32 minValue maxValue

def float (F : FloatConversions) (bitCount : ℕ) : Marshal (BitVec 32) where
  write s val := s.writeInt (F.writeFloat bitCount val).toNat bitCount
  read s :=
    let (value, s) := s.readInt bitCount
    (F.readFloat bitCount (BitVec.ofNat 32 value), s)

def signedFloat (F : FloatConversions) (bitCount : ℕ) : Marshal (BitVec 32) where
  write s val := s.writeSignedInt (F.writeSignedFloat bitCount val) bitCount
  read s :=
    let (value, s) := s.readSignedInt bitCount
    (F.readSignedFloat bitCount value, s)

def string (tree : HuffTree) (buffer : ℕ → UInt8) : Marshal (List UInt8) :=
  ⟨writeString tree, readString tree buffer⟩

def stringTableEntry (tree : HuffTree) (getIndex : List UInt8 → ℕ) (buffer : ℕ → UInt8) :
    Marshal (List UInt8) :=
  ⟨writeStringTableEntry tree getIndex, readStringTableEntry tree buffer⟩

def byteBuffer : Marshal (List UInt8) where
  write s val :=
    let s := s.writeInt val.length byteBufferSizeBitSize
    s.withBits (s.bits.writeBits (val.flatMap charBits)).2
  read s :=
    let (size, s) := s.readInt byteBufferSizeBitSize
    let (bits, stream) := s.bits.readBits (size * 8)
    (toBytes (bits.getD []) size, s.withBits stream)

def ipAddress : Marshal (BitVec 32 × BitVec 16) where
  write s val := (scalar 2).write ((scalar 4).write s val.1) val.2
  read s :=
    let (netNum, s) := (scalar 4).read s
    let (port, s) := (scalar 2).read s
    ((netNum, port), s)

/-- Read a number of elements. -/
def readElements {V : Type} (m : Marshal V) : ℕ → TypedStream → List V × TypedStream
  | 0, s => ([], s)
  | size + 1, s =>
    let (element, s) := m.read s
    let (elements, s) := readElements m size s
    (element :: elements, s)

def vector {V : Type} (m : Marshal V) : Marshal (List V) where
  write s val := val.foldl m.write (s.writeInt val.length vectorSizeBitSize)
  read s :=
    let (size, s) := s.readInt vectorSizeBitSize
    readElements m size s

end Types

/-- A number of bits that an integer has. -/
structure BitCount where
  val : ℕ
  pos : 1 ≤ val
  le : val ≤ 32

/-- A range whose values have a number of bits that an integer has. -/
structure U32Range where
  minValue : U32
  maxValue : U32
  bits_le : (TypedStream.rangeBits minValue maxValue).toNat ≤ 32

/-- The types of arguments. -/
inductive ArgType
  | scalar (numBytes : ℕ)
  | bool
  | int (bitCount : BitCount)
  | signedInt (bitCount : BitCount)
  | rangedU32 (range : U32Range)
  | float (bitCount : BitCount)
  | signedFloat (bitCount : BitCount)
  | string
  | stringTableEntry
  | byteBuffer
  | ipAddress
  | vector (element : ArgType)

namespace ArgType

/-- The values of a type. Those that are compressed to some bits are not restricted to them. -/
def Value : ArgType → Type
  | scalar numBytes => BitVec (8 * numBytes)
  | bool => Bool
  | int _ => U32
  | signedInt _ => BitVec 32
  | rangedU32 _ => U32
  | float _ => BitVec 32
  | signedFloat _ => BitVec 32
  | string => List UInt8
  | stringTableEntry => List UInt8
  | byteBuffer => List UInt8
  | ipAddress => BitVec 32 × BitVec 16
  | vector element => List element.Value

end ArgType

/-- What the functions depend on: a Huffman tree with all characters, the arithmetic of floats, the
global string table, and the memory that a local array finds. -/
structure TypeParams where
  tree : HuffTree
  complete : ∀ c, c ∈ tree.symbols
  float : FloatConversions
  getIndex : List UInt8 → ℕ
  buffer : ℕ → UInt8

/-- The overload for a type. -/
def ArgType.marshal (P : TypeParams) : (type : ArgType) → Marshal type.Value
  | scalar numBytes => Types.scalar numBytes
  | bool => Types.bool
  | int bitCount => Types.int bitCount.val
  | signedInt bitCount => Types.signedInt bitCount.val
  | rangedU32 range => Types.rangedU32 range.minValue range.maxValue
  | float bitCount => Types.float P.float bitCount.val
  | signedFloat bitCount => Types.signedFloat P.float bitCount.val
  | string => Types.string P.tree P.buffer
  | stringTableEntry => Types.stringTableEntry P.tree P.getIndex P.buffer
  | byteBuffer => Types.byteBuffer
  | ipAddress => Types.ipAddress
  | vector element => Types.vector (element.marshal P)

/-- The arguments of a method. -/
def Args : List ArgType → Type
  | [] => Unit
  | type :: types => type.Value × Args types

namespace FunctorDecl

def write (P : TypeParams) : (types : List ArgType) → TypedStream → Args types → TypedStream
  | [], s, _ => s
  | type :: types, s, (a, args) => write P types ((type.marshal P).write s a) args

def read (P : TypeParams) : (types : List ArgType) → TypedStream → Args types × TypedStream
  | [], s => ((), s)
  | type :: types, s =>
    let (a, s) := (type.marshal P).read s
    let (args, s) := read P types s
    ((a, args), s)

end FunctorDecl

end TNL
