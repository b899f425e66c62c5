import TNL.Stream.BitRoundTrip
import TNL.Stream.StringReader

/-!
# Writing strings

A string is written as a continuation of the one before when more than two
characters agree, and its characters with Huffman codes when these are shorter.
A string is given by its characters before the zero.
-/
namespace TNL
open BitStream

namespace CharArray

/-- Copy `n` characters to place `i`, zeros where the string is over. -/
def strncpy (dest : CharArray) (i : ℕ) (string : List UInt8) (n : ℕ) : CharArray :=
  dest.store i ((List.range n).map fun k => string.getD k 0)

end CharArray

namespace HuffmanStringProcessor

/-- The bits of a character on the wire. -/
def charBits (c : UInt8) : List Bool := intBits c.toNat 8

def writeHuffBuffer (tree : HuffTree) (pStream : BitStream) (out_pBuffer : Option (List UInt8))
    (maxLen : ℕ) : BitStream :=
  match out_pBuffer with
  | none => (pStream.writeFlag false).writeInt 0 8
  | some string =>
    let len := if string.length > maxLen then maxLen else string.length
    let cs := string.take len
    let numBits := (cs.map fun c => (tree.code c).length).sum
    if numBits ≥ len * 8 then
      (((pStream.writeFlag false).writeInt len 8).writeBits (cs.flatMap charBits)).2
    else
      ((pStream.writeFlag true).writeInt len 8).writeAll (cs.map tree.code)

end HuffmanStringProcessor

namespace StringStream
open HuffmanStringProcessor

def reset (s : StringStream) : StringStream :=
  ⟨{ s.stream with bitNum := 0, error := false }, s.mStringBuffer.set 0 0⟩

/-- How many characters agree with the string before. -/
def agreeing (mStringBuffer : CharArray) (string : List UInt8) (maxLen : ℕ) : ℕ :=
  (List.range maxLen).findIdx fun j =>
    !(mStringBuffer.chars j == string.getD j 0 && string.getD j 0 != 0)

def writeString (tree : HuffTree) (s : StringStream) (string : Option (List UInt8)) (maxLen : ℕ) :
    StringStream :=
  let string := string.getD []
  let j := agreeing s.mStringBuffer string maxLen
  let mStringBuffer := (s.mStringBuffer.strncpy j (string.drop j) (maxLen - j)).set maxLen 0
  let stream := s.stream.writeFlag (j > 2)
  if j > 2 then
    ⟨writeHuffBuffer tree (stream.writeInt j 8) (some (string.drop j)) (maxLen - j), mStringBuffer⟩
  else ⟨writeHuffBuffer tree stream (some string) maxLen, mStringBuffer⟩

/-- A sequence of strings, each with its maximum length. -/
def writeStrings (tree : HuffTree) (s : StringStream) (strings : List (Option (List UInt8) × ℕ)) :
    StringStream :=
  strings.foldl (fun s string => s.writeString tree string.1 string.2) s

/-- A sequence of strings, read into buffers with the given contents. -/
def readStrings (tree : HuffTree) : StringStream → List (ℕ → UInt8) → List CharArray × StringStream
  | s, [] => ([], s)
  | s, chars :: bufs =>
    let (s, buf) := s.readString tree ⟨chars, []⟩
    let (others, s) := s.readStrings tree bufs
    (buf :: others, s)

end StringStream

/-- The string in an array, up to its first zero. -/
def CharArray.string (a : CharArray) : List UInt8 :=
  (List.range (a.strlen stringBufferSize)).map a.chars

namespace CharArray

variable {a src : CharArray} {str : List UInt8}

/-- The array holds a string with its zero. -/
structure Holds (a : CharArray) (str : List UInt8) : Prop where
  chars : ∀ i ≤ str.length, a.chars i = str.getD i 0
  nonzero : 0 ∉ str
  short : str.length < stringBufferSize

theorem store_chars (a : CharArray) (i : ℕ) (cs : List UInt8) (k : ℕ) :
    (a.store i cs).chars k =
      if i ≤ k ∧ k < i + cs.length then cs.getD (k - i) 0 else a.chars k := by
  induction cs generalizing a i with
  | nil =>
    rw [store, if_neg]
    simp
  | cons c cs ih =>
    simp only [store, ih, set, Function.update_apply, List.length_cons]
    by_cases hfirst : k = i
    · subst hfirst
      rw [if_neg (by omega), if_pos rfl, if_pos (by omega), Nat.sub_self, List.getD_cons_zero]
    · by_cases hin : i + 1 ≤ k ∧ k < i + 1 + cs.length
      · rw [if_pos hin, if_pos (by omega), show k - i = k - (i + 1) + 1 by omega,
          List.getD_cons_succ]
      · rw [if_neg hin, if_neg hfirst, if_neg (by omega)]

namespace Holds

theorem getD_ne_zero (h : a.Holds str) {i : ℕ} (hi : i < str.length) : str.getD i 0 ≠ 0 := by
  rw [List.getD_eq_getElem _ _ hi]
  exact fun hzero => h.nonzero (hzero ▸ List.getElem_mem hi)

theorem strlen_eq (h : a.Holds str) {limit : ℕ} (hlimit : str.length < limit) :
    a.strlen limit = str.length := by
  have hin : str.length < (List.range limit).length := by rwa [List.length_range]
  refine (List.findIdx_eq hin).mpr ⟨?_, fun i hi => ?_⟩
  · rw [List.getElem_range, h.chars _ le_rfl, List.getD_eq_default _ _ le_rfl]
    rfl
  · rw [List.getElem_range, h.chars i hi.le]
    exact beq_false_of_ne (h.getD_ne_zero hi)

theorem string_eq (h : a.Holds str) : a.string = str := by
  rw [string, h.strlen_eq h.short]
  apply List.ext_getElem
  · simp
  · intro i hi hi'
    rw [List.getElem_map, List.getElem_range, h.chars i hi'.le, List.getD_eq_getElem _ _ hi']

theorem strcpy (h : src.Holds str) (dest : CharArray) {limit : ℕ} (hlimit : str.length < limit) :
    (dest.strcpy src limit).Holds str where
  chars i hi := by
    rw [CharArray.strcpy, h.strlen_eq hlimit, store_chars, List.length_map, List.length_range,
      if_pos (by omega), Nat.sub_zero, List.getD_eq_getElem _ _ (by simp; omega), List.getElem_map,
      List.getElem_range, h.chars i hi]
  nonzero := h.nonzero
  short := h.short

/-- Characters stored behind a prefix of the string complete it. -/
theorem of_store_drop {j : ℕ} (hshared : ∀ i < j, a.chars i = str.getD i 0) (hj : j ≤ str.length)
    (hzero : 0 ∉ str) (hshort : str.length < stringBufferSize) :
    ((a.store j (str.drop j)).set (j + (str.drop j).length) 0).Holds str where
  chars i hi := by
    have hend : j + (str.drop j).length = str.length := by
      rw [List.length_drop]
      omega
    rw [hend]
    by_cases hlast : i = str.length
    · rw [hlast, List.getD_eq_default _ _ le_rfl]
      exact Function.update_self ..
    · refine (Function.update_of_ne hlast ..).trans ?_
      rw [store_chars, hend]
      by_cases hin : j ≤ i
      · rw [if_pos (by omega), List.getD_eq_getElem?_getD, List.getElem?_drop,
          Nat.add_sub_cancel' hin, List.getD_eq_getElem?_getD]
      · rw [if_neg (by omega)]
        exact hshared i (not_le.mp hin)
  nonzero := hzero
  short := hshort

end Holds

end CharArray

end TNL
