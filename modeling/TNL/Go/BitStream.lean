import Mathlib.Data.Nat.Bitwise
import Mathlib.Data.Nat.Log
import Mathlib.Tactic.Ring
import TNL.Connection.Header

/-!
# Bit streams of the Go port

A stream is written at its end and read from its front, the highest bit of a
value first. A stream that is written grows as needed. One that is read keeps its
first error, after which every read returns zero.
-/
namespace TNL.Go

/-- What was written so far. -/
abbrev BitWriter : Type := List Bool

/-- What is left to read. -/
structure BitReader where
  rest : List Bool
  err : Bool
  deriving DecidableEq

/-- The low `nbits` bits of a value, the highest first. -/
def bitsOf : ℕ → ℕ → List Bool
  | 0, _ => []
  | nbits + 1, val => val.testBit nbits :: bitsOf nbits val

/-- The value of some bits, the highest first. -/
def bitsValue (bits : List Bool) : ℕ := bits.foldl (fun val bit => 2 * val + bit.toNat) 0

/-- The bits of some bytes. -/
def byteBits (data : List UInt8) : List Bool := data.flatMap (fun byte => bitsOf 8 byte.toNat)

@[simp] theorem bitsOf_length (nbits val : ℕ) : (bitsOf nbits val).length = nbits := by
  induction nbits with
  | zero => rfl
  | succ nbits ih => rw [bitsOf, List.length_cons, ih]

theorem foldl_bitsOf (nbits val acc : ℕ) :
    (bitsOf nbits val).foldl (fun val bit => 2 * val + bit.toNat) acc =
      acc * 2 ^ nbits + val % 2 ^ nbits := by
  induction nbits generalizing acc with
  | zero => rw [bitsOf, List.foldl_nil, Nat.pow_zero, Nat.mul_one, Nat.mod_one, Nat.add_zero]
  | succ nbits ih =>
    rw [bitsOf, List.foldl_cons, ih, Nat.mod_pow_succ, Nat.toNat_testBit]
    ring

theorem bitsValue_bitsOf (nbits val : ℕ) : bitsValue (bitsOf nbits val) = val % 2 ^ nbits := by
  rw [bitsValue, foldl_bitsOf, Nat.zero_mul, Nat.zero_add]

theorem bitsValue_lt (bits : List Bool) : bitsValue bits < 2 ^ bits.length := by
  have hfold : ∀ (bits : List Bool) (acc : ℕ),
      bits.foldl (fun val bit => 2 * val + bit.toNat) acc < (acc + 1) * 2 ^ bits.length := by
    intro bits
    induction bits with
    | nil => exact fun acc => by simp
    | cons bit bits ih =>
      intro acc
      have hbit := bit.toNat_le
      calc (bit :: bits).foldl (fun val bit => 2 * val + bit.toNat) acc
          < (2 * acc + bit.toNat + 1) * 2 ^ bits.length := ih _
        _ ≤ (2 * (acc + 1)) * 2 ^ bits.length := Nat.mul_le_mul_right _ (by omega)
        _ = (acc + 1) * 2 ^ (bit :: bits).length := by rw [List.length_cons, Nat.pow_succ]; ring
  simpa [bitsValue] using hfold bits 0

theorem byteBits_cons (byte : UInt8) (bytes : List UInt8) :
    byteBits (byte :: bytes) = bitsOf 8 byte.toNat ++ byteBits bytes := List.flatMap_cons ..

@[simp] theorem byteBits_length (bytes : List UInt8) :
    (byteBits bytes).length = 8 * bytes.length := by
  induction bytes with
  | nil => rfl
  | cons byte bytes ih =>
    rw [byteBits_cons, List.length_append, ih, bitsOf_length, List.length_cons]
    omega

/-- Items behind a flag each, and the flag that ends them. -/
def flagged {ι : Type} (bits : ι → List Bool) (items : List ι) : List Bool :=
  items.flatMap (fun item => true :: bits item) ++ [false]

theorem flagged_cons {ι : Type} (bits : ι → List Bool) (item : ι) (items : List ι) :
    flagged bits (item :: items) = true :: (bits item ++ flagged bits items) := by
  rw [flagged, flagged, List.flatMap_cons, List.cons_append, List.cons_append, List.append_assoc]

/-- There is a flag for every item. -/
theorem length_lt_flagged {ι : Type} (bits : ι → List Bool) (items : List ι) (rest : List Bool) :
    items.length < (flagged bits items ++ rest).length + 1 := by
  induction items with
  | nil => exact Nat.succ_pos _
  | cons item items ih =>
    rw [flagged_cons, List.cons_append, List.length_cons, List.length_cons, List.append_assoc,
      List.length_append]
    omega

namespace BitWriter

def writeBits (b : BitWriter) (val nbits : ℕ) : BitWriter := b ++ bitsOf nbits val

def writeUint8 (b : BitWriter) (val : UInt8) : BitWriter := b.writeBits val.toNat 8

def writeUint32 (b : BitWriter) (val : U32) : BitWriter := b.writeBits val.toNat 32

/-- Also what `WriteBit` does. -/
def writeFlag (b : BitWriter) (val : Bool) : BitWriter := b ++ [val]

end BitWriter

/-- How many bits tell this many values apart. -/
def getNextBinLog2 (n : ℕ) : ℕ :=
  if n ≤ 1 then 0
  else if n &&& (n - 1) = 0 then Nat.log2 n
  else Nat.log2 n + 1

/-- A value that is out of range is not written. -/
def BitWriter.writeRangedUint32 (b : BitWriter) (val min max : ℕ) : BitWriter :=
  if val < min ∨ val > max then b else b.writeBits (val - min) (getNextBinLog2 (max - min + 1))

namespace BitReader

def newReader (data : List UInt8) : BitReader := ⟨byteBits data, false⟩

def readBits (b : BitReader) (nbits : ℕ) : ℕ × BitReader :=
  if b.err then (0, b)
  else if b.rest.length < nbits then (0, ⟨[], true⟩)
  else (bitsValue (b.rest.take nbits), ⟨b.rest.drop nbits, false⟩)

/-- Also what `ReadBit` does. -/
def readFlag (b : BitReader) : Bool × BitReader :=
  if b.err then (false, b)
  else match b.rest with
    | [] => (false, ⟨[], true⟩)
    | bit :: rest => (bit, ⟨rest, false⟩)

def readUint8 (b : BitReader) : UInt8 × BitReader :=
  let (val, b) := b.readBits 8
  (UInt8.ofNat val, b)

def readUint32 (b : BitReader) : U32 × BitReader :=
  let (val, b) := b.readBits 32
  (BitVec.ofNat 32 val, b)

def readRangedUint32 (b : BitReader) (min max : ℕ) : ℕ × BitReader :=
  let (val, b) := b.readBits (getNextBinLog2 (max - min + 1))
  (val + min, b)

/-- The loops that read a number of bytes. -/
def readBytes : ℕ → BitReader → List UInt8 × BitReader
  | 0, b => ([], b)
  | n + 1, b =>
    let (byte, b) := b.readUint8
    let (bytes, b) := readBytes n b
    (byte :: bytes, b)

/-- `decompress` is the one of the string compression. -/
def readString (decompress : List UInt8 → Option (List UInt8)) (b : BitReader) :
    List UInt8 × BitReader :=
  if b.err then ([], b)
  else
    let (length, b) := b.readRangedUint32 0 1024
    if b.err then ([], b)
    else
      let (compressed, b) := readBytes length b
      match decompress compressed with
      | none => ([], { b with err := true })
      | some string => (string, b)

section roundTrip

variable {val nbits : ℕ} {rest : List Bool}

theorem readBits_bitsOf : readBits ⟨bitsOf nbits val ++ rest, false⟩ nbits =
    (val % 2 ^ nbits, ⟨rest, false⟩) := by
  rw [readBits, if_neg Bool.false_ne_true, if_neg]
  · rw [List.take_left' (bitsOf_length ..), List.drop_left' (bitsOf_length ..), bitsValue_bitsOf]
  · rw [List.length_append, bitsOf_length]
    omega

theorem readFlag_cons (val : Bool) : readFlag ⟨val :: rest, false⟩ = (val, ⟨rest, false⟩) := by
  rw [readFlag, if_neg Bool.false_ne_true]

theorem readUint32_bitsOf (val : U32) :
    readUint32 ⟨bitsOf 32 val.toNat ++ rest, false⟩ = (val, ⟨rest, false⟩) := by
  rw [readUint32, readBits_bitsOf, Nat.mod_eq_of_lt val.isLt]
  exact Prod.ext ((BitVec.ofNat_toNat ..).trans (BitVec.setWidth_eq ..)) rfl

/-- Values up to 1024, as ids are, have eleven bits. -/
theorem readRangedUint32_bitsOf (hval : val ≤ 1024) :
    readRangedUint32 ⟨bitsOf 11 val ++ rest, false⟩ 0 1024 = (val, ⟨rest, false⟩) := by
  rw [readRangedUint32, show getNextBinLog2 (1024 - 0 + 1) = 11 by decide, readBits_bitsOf,
    Nat.mod_eq_of_lt (by omega)]
  rfl

end roundTrip

/-- A read that does not run past the end takes this number of bits. -/
def Takes (b : BitReader) (nbits : ℕ) (after : BitReader) : Prop :=
  after.err = false → b.err = false ∧ b.rest.length = nbits + after.rest.length

section takes

variable {b c d : BitReader} {n k : ℕ}

theorem Takes.trans (h : b.Takes n c) (h' : c.Takes k d) : b.Takes (n + k) d := by
  intro hd
  obtain ⟨hc, hck⟩ := h' hd
  obtain ⟨hb, hbn⟩ := h hc
  exact ⟨hb, by omega⟩

theorem readBits_takes (b : BitReader) (nbits : ℕ) : b.Takes nbits (b.readBits nbits).2 := by
  rw [readBits]
  by_cases herr : b.err = true
  · rw [if_pos herr]
    exact fun h => absurd h (by simp [herr])
  · rw [if_neg herr]
    split
    · exact fun h => absurd h (by decide)
    · intro _
      rw [List.length_drop]
      exact ⟨Bool.eq_false_iff.mpr herr, by omega⟩

theorem readUint32_takes (b : BitReader) : b.Takes 32 b.readUint32.2 := readBits_takes b 32

theorem readBits_lt (b : BitReader) (nbits : ℕ) : (b.readBits nbits).1 < 2 ^ nbits := by
  rw [readBits]
  split_ifs with herr hshort
  · exact Nat.two_pow_pos nbits
  · exact Nat.two_pow_pos nbits
  · have hvalue := bitsValue_lt (b.rest.take nbits)
    rwa [List.length_take, Nat.min_eq_left (by omega)] at hvalue

theorem readBytes_length (n : ℕ) (b : BitReader) : (readBytes n b).1.length = n := by
  induction n generalizing b with
  | zero => rfl
  | succ n ih => exact congrArg Nat.succ (ih _)

theorem readBytes_takes (n : ℕ) (b : BitReader) : b.Takes (8 * n) (readBytes n b).2 := by
  induction n generalizing b with
  | zero => exact fun h => ⟨h, (Nat.zero_add _).symm⟩
  | succ n ih =>
    rw [Nat.mul_succ, Nat.add_comm]
    exact (readBits_takes b 8).trans (ih _)

end takes

end BitReader

theorem BitWriter.writeRangedUint32_append (b : BitWriter) (val min max : ℕ) :
    b.writeRangedUint32 val min max = b ++ writeRangedUint32 [] val min max := by
  rw [writeRangedUint32, writeRangedUint32]
  split_ifs
  · rw [List.append_nil]
  · rw [writeBits, writeBits, List.nil_append]

theorem BitWriter.writeRangedUint32_eq (b : BitWriter) {val : ℕ} (hval : val ≤ 1024) :
    b.writeRangedUint32 val 0 1024 = b ++ bitsOf 11 val := by
  rw [writeRangedUint32, if_neg (by omega), writeBits,
    show getNextBinLog2 (1024 - 0 + 1) = 11 by decide, Nat.sub_zero]

end TNL.Go
