import TNL.RPC.ArgumentRoundTrip
import TNL.Stream.Payload
import TNL.Journal.IndexBits
import Mathlib.Data.List.Sort

/-!
# Journals

A journal records the calls of a program's entry points in a file and plays them
back. The file is one stream of bits behind their count. It is written after
every call, and the last byte, when it is not full, is written again with the
next one. A break into the debugger is counted and goes on.
-/
namespace TNL
open BitStream

/-- A file with its bits and its size in bytes. -/
structure JournalFile where
  bits : ℕ → Bool
  size : ℕ

namespace JournalFile

def empty : JournalFile := ⟨fun _ => false, 0⟩

/-- Write whole bytes at a place. -/
def fwrite (file : JournalFile) (position : ℕ) (bits : List Bool) : JournalFile where
  bits i := if position * 8 ≤ i then bits.getD (i - position * 8) (file.bits i) else file.bits i
  size := max file.size (position + bits.length / 8)

end JournalFile

/-- The arguments of an entry point with the functions that write and read them. -/
structure JournalFunctor where
  Args : Type
  decl : Marshal Args

structure JournalEntryRecord where
  mFunctionName : String
  mFunctor : JournalFunctor

/-- Records are kept in descending order of their names, equal ones as they came. -/
def mEntryVector (records : List JournalEntryRecord) : List JournalEntryRecord :=
  records.foldl (fun vector record =>
    vector.orderedInsert (fun new old => old.mFunctionName < new.mFunctionName) record) []

/-- A call of an entry point. -/
structure JournalCall (vector : List JournalEntryRecord) where
  entry : Fin vector.length
  args : vector[entry].mFunctor.Args

namespace Journal

inductive Mode where
  | Inactive
  | Record
  | Playback
  deriving DecidableEq

def defaultBufferSize : ℕ := 1500

/-- A stream of its own memory, as the constructor leaves it. -/
def newStream (memory : ℕ → Bool) (chars : ℕ → UInt8) : TypedStream where
  strings.stream := ⟨memory, defaultBufferSize, true, 0, false, defaultBufferSize * 8,
    defaultBufferSize * 8⟩
  strings.mStringBuffer := (⟨chars, []⟩ : CharArray).set 0 0
  mStringTable := none

end Journal

structure Journal where
  mCurrentMode : Journal.Mode
  mJournalFile : JournalFile
  mWritePosition : ℕ
  mWriteStream : TypedStream
  mReadStream : TypedStream
  mReadBreakBitPos : ℕ
  debugBreaks : ℕ

namespace Journal

/-- The static members, over memory with arbitrary contents. -/
def start (memory : ℕ → Bool) (chars : ℕ → UInt8) : Journal where
  mCurrentMode := .Inactive
  mJournalFile := .empty
  mWritePosition := 0
  mWriteStream := newStream memory chars
  mReadStream := newStream memory chars
  mReadBreakBitPos := 0
  debugBreaks := 0

def getBytePosition (s : TypedStream) : ℕ := (s.bits.bitNum + 7) / 8

/-- Put a byte of the buffer first and go on behind some of its bits. -/
def moveByte (s : TypedStream) (byte newBitPosition : ℕ) : TypedStream :=
  s.withBits { s.bits with
    buffer := fun i => if i < 8 then s.bits.buffer (byte * 8 + i) else s.bits.buffer i
    bitNum := newBitPosition }

def syncWriteStream (j : Journal) : Journal :=
  let bytesToWrite := getBytePosition j.mWriteStream
  if bytesToWrite = 0 then j
  else
    let totalBits := (j.mWritePosition * 8 + j.mWriteStream.bits.bitNum) % 2 ^ 32
    let file := j.mJournalFile.fwrite 0 (intBits totalBits 32)
    let file := file.fwrite j.mWritePosition (j.mWriteStream.bits.window 0 (bytesToWrite * 8))
    if totalBits % 8 ≠ 0 then
      { j with
        mJournalFile := file
        mWriteStream := moveByte j.mWriteStream (bytesToWrite - 1) (totalBits % 8)
        mWritePosition := j.mWritePosition + (bytesToWrite - 1) }
    else
      { j with
        mJournalFile := file
        mWriteStream := j.mWriteStream.withBits (j.mWriteStream.bits.setBitPosition 0)
        mWritePosition := j.mWritePosition + bytesToWrite }

def record (j : Journal) : Journal :=
  { j with mJournalFile := .empty, mCurrentMode := .Record, mWritePosition := 4 }

def load (j : Journal) (file : JournalFile) : Journal :=
  let bits := (j.mReadStream.bits.resize file.size).2
  let bits := { bits with
    buffer := fun i => if i < file.size * 8 then file.bits i else bits.buffer i }
  let (count, bits) := bits.read 4
  let bitCount := bitsInt (count.getD [])
  { j with
    mReadStream := j.mReadStream.withBits { bits with
      maxReadBitNum := bitCount
      maxWriteBitNum := 0 }
    mReadBreakBitPos :=
      if j.mReadBreakBitPos = 0 ∨ j.mReadBreakBitPos > bitCount then bitCount
      else j.mReadBreakBitPos
    mCurrentMode := .Playback }

/-- The stream with a call behind what is still to be written. -/
def writeEntry (vector : List JournalEntryRecord) (funcName : String)
    (theCall : TypedStream → TypedStream) (s : TypedStream) : TypedStream :=
  let entryIndex := vector.findIdx (·.mFunctionName == funcName)
  theCall (s.writeRangedU32 (BitVec.ofNat 32 entryIndex) 0 (BitVec.ofNat 32 vector.length - 1))

def callEntry (vector : List JournalEntryRecord) (funcName : String)
    (theCall : TypedStream → TypedStream) (j : Journal) : Journal :=
  match j.mCurrentMode with
  | .Record => syncWriteStream
      { j with mWriteStream := writeEntry vector funcName theCall j.mWriteStream }
  | .Inactive => j
  | .Playback => j

def checkReadPosition (j : Journal) : Journal :=
  if j.mReadStream.bits.error ∨ j.mReadStream.bits.bitNum ≥ j.mReadBreakBitPos then
    { j with debugBreaks := j.debugBreaks + 1 }
  else j

/-- Call the entry at an index, `none` when there is no such entry. -/
def dispatchEntry (vector : List JournalEntryRecord) (index : ℕ) (s : TypedStream) (j : Journal) :
    Option (List (JournalCall vector) × Journal) :=
  if h : index < vector.length then
    let theEntry := vector[index]
    let (args, s) := theEntry.mFunctor.decl.read s
    some ([⟨⟨index, h⟩, args⟩], checkReadPosition { j with mReadStream := s })
  else none

/-- The calls dispatched, none of them unless the journal is played back. -/
def processNextJournalEntry (vector : List JournalEntryRecord) (j : Journal) :
    Option (List (JournalCall vector) × Journal) :=
  if j.mCurrentMode ≠ .Playback then some ([], j)
  else
    let (index, s) := j.mReadStream.readRangedU32 0 (BitVec.ofNat 32 vector.length)
    dispatchEntry vector index.toNat s j

variable {vector : List JournalEntryRecord}

/-- What an entry point does before it runs. -/
def recordCall (vector : List JournalEntryRecord) (j : Journal) (call : JournalCall vector) :
    Journal :=
  j.callEntry vector (vector.get call.entry).mFunctionName
    fun s => (vector.get call.entry).mFunctor.decl.write s call.args

def recordCalls (vector : List JournalEntryRecord) (j : Journal)
    (calls : List (JournalCall vector)) : Journal :=
  calls.foldl (recordCall vector) j

/-- The calls that a number of entries dispatch. -/
def processEntries (vector : List JournalEntryRecord) :
    ℕ → Journal → Option (List (JournalCall vector))
  | 0, _ => some []
  | n + 1, j =>
    match processNextJournalEntry vector j with
    | none => none
    | some (calls, j) => (processEntries vector n j).map (calls ++ ·)

/-- The bits of the journal, with their count. -/
def totalBits (j : Journal) : ℕ := j.mWritePosition * 8 + j.mWriteStream.bits.bitNum

end Journal

end TNL
