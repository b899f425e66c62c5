import TNL.Stream.Huffman
import Mathlib.Logic.Function.Basic

/-!
# Reading strings

A string is read into the caller's buffer and into the string buffer of the
stream, both arrays of 256 characters, at an offset that comes from the packet
when it continues the string before it. The arrays here go on past their end,
and note every place written.
-/
namespace TNL
open BitStream

def stringBufferSize : ℕ := 256

/-- Memory from the start of a character array on, with the places written so far. -/
structure CharArray where
  chars : ℕ → UInt8
  written : List ℕ

namespace CharArray

def set (a : CharArray) (i : ℕ) (c : UInt8) : CharArray :=
  ⟨Function.update a.chars i c, a.written ++ [i]⟩

/-- Store characters from place `i` on. -/
def store (a : CharArray) : ℕ → List UInt8 → CharArray
  | _, [] => a
  | i, c :: cs => (a.set i c).store (i + 1) cs

/-- The place of the first zero, which is searched among the first `limit` ones. -/
def strlen (a : CharArray) (limit : ℕ) : ℕ := (List.range limit).findIdx (fun i => a.chars i == 0)

/-- Copy the characters up to the first zero, and the zero. -/
def strcpy (dest src : CharArray) (limit : ℕ) : CharArray :=
  dest.store 0 ((List.range (src.strlen limit + 1)).map src.chars)

end CharArray

namespace HuffmanStringProcessor

/-- The bytes of a sequence of bits. -/
def toBytes (bits : List Bool) : ℕ → List UInt8
  | 0 => []
  | n + 1 => UInt8.ofNat (bitsInt (bits.take 8)) :: toBytes (bits.drop 8) n

def readSymbols (tree : HuffTree) : ℕ → BitStream → List UInt8 × BitStream
  | 0, s => ([], s)
  | len + 1, s =>
    let (c, s) := tree.readSymbol s
    let (cs, s) := readSymbols tree len s
    (c :: cs, s)

/-- Read characters into an array from a place on. Bytes that are not there leave it as it was, up
to the terminating zero. -/
def readHuffBuffer (tree : HuffTree) (pStream : BitStream) (out_pBuffer : CharArray) (place : ℕ) :
    BitStream × CharArray :=
  let (compressed, s) := pStream.readFlag
  if compressed then
    let (len, s) := s.readInt 8
    let (cs, s) := readSymbols tree len s
    (s, (out_pBuffer.store place cs).set (place + len) 0)
  else
    let (len, s) := s.readInt 8
    let (bits, s) := s.readBits (len * 8)
    match bits with
    | some bits => (s, (out_pBuffer.store place (toBytes bits len)).set (place + len) 0)
    | none => (s, out_pBuffer.set (place + len) 0)

end HuffmanStringProcessor

open HuffmanStringProcessor

/-- A stream with its string buffer. -/
structure StringStream where
  stream : BitStream
  mStringBuffer : CharArray

namespace StringStream

/-- Read a string into `buf`. The zero stored last is at most at place 255 + 255. -/
def readString (tree : HuffTree) (s : StringStream) (buf : CharArray) : StringStream × CharArray :=
  let (continued, stream) := s.stream.readFlag
  if continued then
    let (offset, stream) := stream.readInt 8
    let (stream, mStringBuffer) := readHuffBuffer tree stream s.mStringBuffer offset
    (⟨stream, mStringBuffer⟩, buf.strcpy mStringBuffer (2 * stringBufferSize))
  else
    let (stream, buf) := readHuffBuffer tree stream buf 0
    (⟨stream, s.mStringBuffer.strcpy buf (2 * stringBufferSize)⟩, buf)

/-- Everything written so far lies in the array. -/
def Contained (a : CharArray) : Prop := ∀ i ∈ a.written, i < stringBufferSize

/-- A sequence of strings, read into buffers with the given contents, stays in the arrays. -/
def ReadsContained (tree : HuffTree) : StringStream → List (ℕ → UInt8) → Prop
  | _, [] => True
  | s, chars :: bufs =>
    (Contained (s.readString tree ⟨chars, []⟩).1.mStringBuffer ∧
      Contained (s.readString tree ⟨chars, []⟩).2) ∧
      ReadsContained tree (s.readString tree ⟨chars, []⟩).1 bufs

/-- The offset in the packet, which only a continued string has. -/
def offset (s : BitStream) : ℕ := if s.readFlag.1 then (s.readFlag.2.readInt 8).1 else 0

/-- The length in the packet, which follows a flag. -/
def length (s : BitStream) : ℕ := (s.readFlag.2.readInt 8).1

/-- The stream after the offset. -/
def afterOffset (s : BitStream) : BitStream :=
  if s.readFlag.1 then (s.readFlag.2.readInt 8).2 else s.readFlag.2

/-- Of every string the offset and the length together leave room for the terminating zero. -/
def AllShort (tree : HuffTree) : StringStream → List (ℕ → UInt8) → Prop
  | _, [] => True
  | s, chars :: bufs =>
    offset s.stream + length (afterOffset s.stream) < stringBufferSize ∧
      AllShort tree (s.readString tree ⟨chars, []⟩).1 bufs

end StringStream

namespace CharArray

variable {a dest src : CharArray} {i e limit : ℕ}

theorem store_written (a : CharArray) (i : ℕ) (cs : List UInt8) :
    (a.store i cs).written = a.written ++ List.range' i cs.length := by
  induction cs generalizing a i with
  | nil => simp [store]
  | cons c cs ih =>
    rw [store, ih, List.length_cons, List.range'_succ, set, List.append_assoc]
    rfl

theorem strlen_le (he : src.chars e = 0) (hlimit : e < limit) : src.strlen limit ≤ e := by
  have hplace : e < (List.range limit).length := by rwa [List.length_range]
  by_contra hlt
  have hall := List.not_of_lt_findIdx (not_le.mp hlt)
  rw [List.getElem_range, he] at hall
  simp at hall

end CharArray

namespace StringStream
open CharArray

variable {tree : HuffTree}

theorem toBytes_length (bits : List Bool) (n : ℕ) : (toBytes bits n).length = n := by
  induction n generalizing bits with
  | zero => rfl
  | succ n ih => rw [toBytes, List.length_cons, ih]

theorem readSymbols_length (tree : HuffTree) (len : ℕ) (s : BitStream) :
    (readSymbols tree len s).1.length = len := by
  induction len generalizing s with
  | zero => rfl
  | succ len ih => rw [readSymbols, List.length_cons, ih]

/-- A string is stored from its place on, at most as many characters as its length says, and the
zero behind them. -/
theorem readHuffBuffer_eq (tree : HuffTree) (s : BitStream) (out : CharArray) (place : ℕ) :
    ∃ cs : List UInt8, cs.length ≤ length s ∧
      (readHuffBuffer tree s out place).2 = (out.store place cs).set (place + length s) 0 := by
  unfold readHuffBuffer length
  dsimp only
  by_cases hcompressed : s.readFlag.1 = true
  · rw [if_pos hcompressed]
    exact ⟨_, (readSymbols_length ..).le, rfl⟩
  · rw [if_neg hcompressed]
    cases ((s.readFlag.2.readInt 8).2.readBits ((s.readFlag.2.readInt 8).1 * 8)).1 with
    | none => exact ⟨[], Nat.zero_le _, rfl⟩
    | some bits => exact ⟨_, (toBytes_length ..).le, rfl⟩

theorem readHuffBuffer_contained {s : BitStream} {out : CharArray} {place : ℕ}
    (hout : Contained out) : Contained (readHuffBuffer tree s out place).2 ↔
      place + length s < stringBufferSize := by
  obtain ⟨cs, hlength, heq⟩ := readHuffBuffer_eq tree s out place
  have hwritten : (readHuffBuffer tree s out place).2.written =
      out.written ++ List.range' place cs.length ++ [place + length s] := by
    rw [heq, CharArray.set, store_written]
  constructor
  · intro h
    apply h
    rw [hwritten]
    exact List.mem_append_right _ List.mem_cons_self
  · intro h i hi
    rw [hwritten] at hi
    rcases List.mem_append.mp hi with hi | hi
    · rcases List.mem_append.mp hi with hi | hi
      · exact hout i hi
      · have := List.mem_range'_1.mp hi
        omega
    · rw [List.mem_singleton.mp hi]
      exact h

theorem readHuffBuffer_zero (s : BitStream) (out : CharArray) (place : ℕ) :
    (readHuffBuffer tree s out place).2.chars (place + length s) = 0 := by
  obtain ⟨cs, -, heq⟩ := readHuffBuffer_eq tree s out place
  rw [heq]
  exact Function.update_self ..

/-- Copying a string whose zero lies in its array. -/
theorem strcpy_contained {dest src : CharArray} {e : ℕ} (hdest : Contained dest)
    (he : src.chars e = 0) (hsize : e < stringBufferSize) :
    Contained (dest.strcpy src (2 * stringBufferSize)) := by
  have hlen := strlen_le he (show e < 2 * stringBufferSize by omega)
  intro i hi
  rw [strcpy, store_written] at hi
  rcases List.mem_append.mp hi with hi | hi
  · exact hdest i hi
  · have := List.mem_range'_1.mp hi
    rw [List.length_map, List.length_range] at this
    omega

theorem readString_contained {s : StringStream} {buf : CharArray}
    (hs : Contained s.mStringBuffer) (hbuf : Contained buf) :
    Contained (s.readString tree buf).1.mStringBuffer ∧ Contained (s.readString tree buf).2 ↔
      offset s.stream + length (afterOffset s.stream) < stringBufferSize := by
  generalize hlimit : 2 * stringBufferSize = limit
  unfold readString offset afterOffset
  dsimp only
  by_cases hcontinued : s.stream.readFlag.1 = true
  · simp only [hcontinued, if_true, hlimit]
    constructor
    · exact fun h => (readHuffBuffer_contained hs).mp h.1
    · intro h
      refine ⟨(readHuffBuffer_contained hs).mpr h, ?_⟩
      rw [← hlimit]
      exact strcpy_contained hbuf (readHuffBuffer_zero ..) h
  · have hlength : 0 + length s.stream.readFlag.2 < stringBufferSize := by
      rw [Nat.zero_add]
      exact readInt_lt _ 8
    simp only [hcontinued, if_false, hlimit, Bool.false_eq_true]
    refine iff_of_true ⟨?_, ?_⟩ hlength
    · rw [← hlimit]
      exact strcpy_contained hs (readHuffBuffer_zero ..) hlength
    · exact (readHuffBuffer_contained hbuf).mpr hlength

theorem readsContained_iff_of_contained {s : StringStream} (hs : Contained s.mStringBuffer)
    (bufs : List (ℕ → UInt8)) : s.ReadsContained tree bufs ↔ s.AllShort tree bufs := by
  induction bufs generalizing s with
  | nil => exact Iff.rfl
  | cons chars bufs ih =>
    have hbuf : Contained ⟨chars, []⟩ := fun _ hi => absurd hi List.not_mem_nil
    have hread : Contained (s.readString tree ⟨chars, []⟩).1.mStringBuffer ∧
        Contained (s.readString tree ⟨chars, []⟩).2 ↔ _ := readString_contained hs hbuf
    constructor
    · intro h
      exact ⟨hread.mp h.1, (ih h.1.1).mp h.2⟩
    · intro h
      have hcontained := hread.mpr h.1
      exact ⟨hcontained, (ih hcontained.1).mpr h.2⟩

/-- The strings of a packet stay in the arrays exactly when no continued string reaches beyond its
array. -/
theorem readsContained_iff (tree : HuffTree) (stream : BitStream) (chars : ℕ → UInt8)
    (bufs : List (ℕ → UInt8)) :
    ReadsContained tree ⟨stream, ⟨chars, []⟩⟩ bufs ↔
      AllShort tree ⟨stream, ⟨chars, []⟩⟩ bufs :=
  readsContained_iff_of_contained (fun _ hi => absurd hi List.not_mem_nil) bufs

/-- A packet of three bytes all of whose bits are set: a string that continues at offset 255. -/
def continuedPacket : BitStream := ⟨fun i => decide (i < 24), 3, false, 0, false, 24, 0⟩

theorem readString_overrun :
    ¬ ∀ (tree : HuffTree) (stream : BitStream) (chars : ℕ → UInt8) (bufs : List (ℕ → UInt8)),
      ReadsContained tree ⟨stream, ⟨chars, []⟩⟩ bufs := by
  intro claim
  have hread := (claim (buildTables mCharFreqs) continuedPacket (fun _ => 0) [fun _ => 0]).1
  have hshort := (readString_contained (fun _ hi => absurd hi List.not_mem_nil)
    (fun _ hi => absurd hi List.not_mem_nil)).mp hread
  exact absurd hshort (by decide)

end StringStream

end TNL
