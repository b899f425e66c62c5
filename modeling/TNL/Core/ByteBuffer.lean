import Mathlib.Algebra.Group.Nat.Defs
import Mathlib.Tactic.Common
import Mathlib.Tactic.SplitIfs

/-!
# Buffers of bytes in base 16

A buffer has fewer than 2 ^ 32 bytes, and a new one holds what its memory held before. A byte is
spelled as two digits, the high one first, and a digit that is a letter in either case. The decoder
knows one letter in upper case only.
-/
namespace TNL

structure ByteBuffer where
  bytes : List UInt8
  size : bytes.length < 2 ^ 32

namespace ByteBuffer

theorem ext_bytes {b c : ByteBuffer} (h : b.bytes = c.bytes) : b = c := by
  cases b
  cases c
  cases h
  rfl

def getBufferSize (b : ByteBuffer) : UInt32 := UInt32.ofNat b.bytes.length

theorem toNat_getBufferSize (b : ByteBuffer) : b.getBufferSize.toNat = b.bytes.length :=
  Nat.mod_eq_of_lt b.size

/-- A new buffer after a write from its start on. `memory` is what it held before. -/
def written (memory : ℕ → UInt8) (bufferSize : UInt32) (bytes : List UInt8) : ByteBuffer where
  bytes := (List.range bufferSize.toNat).map fun i => bytes.getD i (memory i)
  size := by
    rw [List.length_map, List.length_range]
    exact bufferSize.toNat_lt

def encodeNibble (nib : UInt32) : UInt8 :=
  if 9 < nib then ('a'.val + nib - 10).toUInt8 else ('0'.val + nib).toUInt8

def encodeByte (b : UInt8) : List UInt8 :=
  [encodeNibble (b.toUInt32 >>> 4), encodeNibble (b.toUInt32 &&& 0xF)]

/-- The digits of the bytes that the loop counts with a signed number, and the terminator. -/
def encodeBytes (b : ByteBuffer) : List UInt8 :=
  (b.bytes.take b.getBufferSize.toInt32.toInt.toNat).flatMap encodeByte ++ [0]

def encodeBase16 (memory : ℕ → UInt8) (b : ByteBuffer) : ByteBuffer :=
  written memory (b.getBufferSize * 2 + 1) b.encodeBytes

/-- A character that is in none of the ranges leaves its half of the byte zero. -/
def decodeNibble (nib : UInt8) : UInt8 :=
  if '0'.toUInt8 ≤ nib ∧ nib ≤ '9'.toUInt8 then nib - '0'.toUInt8
  else if 'a'.toUInt8 ≤ nib ∧ nib ≤ 'f'.toUInt8 then nib - 'a'.toUInt8 + 10
  else if 'A'.toUInt8 ≤ nib ∧ nib ≤ 'A'.toUInt8 then nib - 'A'.toUInt8 + 10
  else 0

def decodeBytes : ℕ → List UInt8 → List UInt8
  | n + 1, nib1 :: nib2 :: src =>
    (decodeNibble nib1 <<< 4 ||| decodeNibble nib2) :: decodeBytes n src
  | _, _ => []

theorem length_decodeBytes_le (n : ℕ) (src : List UInt8) : (decodeBytes n src).length ≤ n := by
  induction n, src using decodeBytes.induct with
  | case1 n nib1 nib2 src ih => exact Nat.succ_le_succ ih
  | case2 n src h =>
    rw [decodeBytes]
    · exact Nat.zero_le n
    · exact h

def decodeBase16 (b : ByteBuffer) : ByteBuffer where
  bytes := decodeBytes (b.getBufferSize >>> 1).toNat b.bytes
  size := Nat.lt_of_le_of_lt (length_decodeBytes_le _ _) (UInt32.toNat_lt _)

end ByteBuffer

/-- The character is the digit with the value `d`, and may be a letter in either case. -/
def Digit (c : UInt8) (d : ℕ) : Prop :=
  d < 10 ∧ c.toNat = '0'.toNat + d ∨
    (10 ≤ d ∧ d < 16) ∧ (c.toNat = 'a'.toNat + (d - 10) ∨ c.toNat = 'A'.toNat + (d - 10))

/-- Two digits for each byte. -/
inductive Spells : List UInt8 → List UInt8 → Prop where
  | nil : Spells [] []
  | cons {nib1 nib2 byte : UInt8} {digits bytes : List UInt8} (high : Digit nib1 (byte.toNat / 16))
      (low : Digit nib2 (byte.toNat % 16)) (rest : Spells digits bytes) :
      Spells (nib1 :: nib2 :: digits) (byte :: bytes)

/-- A buffer with the digits of another, with a terminator or without. -/
structure Spelling (b : ByteBuffer) where
  text : ByteBuffer
  digits : List UInt8
  spells : Spells digits b.bytes
  ends : text.bytes = digits ∨ text.bytes = digits ++ [0]

/-- A letter in upper case that the decoder does not know. -/
def Missed (c : UInt8) : Prop := 'B'.toUInt8 ≤ c ∧ c ≤ 'F'.toUInt8

namespace ByteBuffer

section digits

variable {c x y byte : UInt8} {d : ℕ}

theorem missed_iff : Missed c ↔ 66 ≤ c.toNat ∧ c.toNat ≤ 70 :=
  and_congr UInt8.le_iff_toNat_le UInt8.le_iff_toNat_le

/-- The ranges of the decoder. -/
theorem toNat_decodeNibble (c : UInt8) : (decodeNibble c).toNat =
    if 48 ≤ c.toNat ∧ c.toNat ≤ 57 then c.toNat - 48
    else if 97 ≤ c.toNat ∧ c.toNat ≤ 102 then c.toNat - 87
    else if c.toNat = 65 then 10
    else 0 := by
  rw [decodeNibble]
  simp only [UInt8.le_iff_toNat_le]
  change (if 48 ≤ c.toNat ∧ c.toNat ≤ 57 then c - 48 else
    if 97 ≤ c.toNat ∧ c.toNat ≤ 102 then c - 97 + 10 else
    if 65 ≤ c.toNat ∧ c.toNat ≤ 65 then c - 65 + 10 else 0).toNat = _
  have hlt := c.toNat_lt
  split_ifs with hdecimal hlower hupper heq heq
  · exact UInt8.toNat_sub_of_le _ _ (UInt8.le_iff_toNat_le.mpr hdecimal.1)
  · have hsub : (c - 97).toNat = c.toNat - 97 :=
      UInt8.toNat_sub_of_le _ _ (UInt8.le_iff_toNat_le.mpr hlower.1)
    have hadd : (c - 97 + 10).toNat = ((c - 97).toNat + 10) % 256 := UInt8.toNat_add ..
    omega
  · have hsub : (c - 65).toNat = c.toNat - 65 :=
      UInt8.toNat_sub_of_le _ _ (UInt8.le_iff_toNat_le.mpr hupper.1)
    have hadd : (c - 65 + 10).toNat = ((c - 65).toNat + 10) % 256 := UInt8.toNat_add ..
    omega
  · omega
  · omega
  · rfl

theorem decodeNibble_lt (c : UInt8) : (decodeNibble c).toNat < 16 := by
  rw [toNat_decodeNibble]
  split_ifs <;> omega

/-- A digit is decoded as its value, unless it is missed, and then as zero. -/
theorem decodeNibble_iff (h : Digit c d) : (decodeNibble c).toNat = d ↔ ¬ Missed c := by
  rw [missed_iff, toNat_decodeNibble]
  have hzero : '0'.toNat = 48 := rfl
  have hlower : 'a'.toNat = 97 := rfl
  have hupper : 'A'.toNat = 65 := rfl
  rw [Digit, hzero, hlower, hupper] at h
  split_ifs <;> omega

theorem toNat_pair (hx : x.toNat < 16) (hy : y.toNat < 16) :
    (x <<< 4 ||| y).toNat = 16 * x.toNat + y.toNat := by
  have hshift : (x <<< 4).toNat = x.toNat <<< 4 % 2 ^ 8 := UInt8.toNat_shiftLeft ..
  rw [UInt8.toNat_or, hshift, Nat.shiftLeft_eq, Nat.mod_eq_of_lt (by omega), ← Nat.shiftLeft_eq,
    ← Nat.shiftLeft_add_eq_or_of_lt (by omega), Nat.shiftLeft_eq]
  omega

theorem pair_eq_iff (hx : x.toNat < 16) (hy : y.toNat < 16) :
    x <<< 4 ||| y = byte ↔ x.toNat = byte.toNat / 16 ∧ y.toNat = byte.toNat % 16 := by
  rw [← UInt8.toNat_inj, toNat_pair hx hy]
  omega

end digits

section decode

variable {digits bytes : List UInt8}

theorem length_digits (h : Spells digits bytes) : digits.length = 2 * bytes.length := by
  induction h with
  | nil => rfl
  | cons high low rest ih =>
    rw [List.length_cons, List.length_cons, List.length_cons, ih]
    omega

/-- A spelling is decoded as the bytes just when no digit of it is missed. -/
theorem decodeBytes_eq_iff (h : Spells digits bytes) (tail : List UInt8) :
    decodeBytes bytes.length (digits ++ tail) = bytes ↔ ∀ c ∈ digits, ¬ Missed c := by
  induction h with
  | nil => simp [decodeBytes]
  | @cons nib1 nib2 byte digits bytes high low rest ih =>
    rw [List.length_cons, List.cons_append, List.cons_append, decodeBytes, List.cons.injEq,
      pair_eq_iff (decodeNibble_lt nib1) (decodeNibble_lt nib2), decodeNibble_iff high,
      decodeNibble_iff low, ih, List.forall_mem_cons, List.forall_mem_cons, and_assoc]

theorem decodeBase16_bytes (b : ByteBuffer) :
    b.decodeBase16.bytes = decodeBytes (b.bytes.length / 2) b.bytes := by
  have hshift : (b.getBufferSize >>> 1).toNat = b.getBufferSize.toNat >>> 1 :=
    UInt32.toNat_shiftRight ..
  have hlength : (b.getBufferSize >>> 1).toNat = b.bytes.length / 2 := by
    rw [hshift, toNat_getBufferSize, Nat.shiftRight_eq_div_pow, Nat.pow_one]
  exact congrArg (decodeBytes · b.bytes) hlength

/-- The terminator is not missed, and does not count. -/
theorem decodeBase16_eq_iff {b : ByteBuffer} (s : Spelling b) :
    s.text.decodeBase16 = b ↔ ∀ c ∈ s.text.bytes, ¬ Missed c := by
  have hlength := length_digits s.spells
  obtain ⟨tail, htext, htail, hmissed⟩ : ∃ tail, s.text.bytes = s.digits ++ tail ∧
      tail.length < 2 ∧ ∀ c ∈ tail, ¬ Missed c := by
    rcases s.ends with hends | hends
    · exact ⟨[], hends.trans (List.append_nil _).symm, by decide, by simp⟩
    · refine ⟨[0], hends, by decide, fun c hc => ?_⟩
      rw [List.mem_singleton.mp hc, missed_iff]
      decide
  have hsize : s.text.bytes.length / 2 = b.bytes.length := by
    rw [htext, List.length_append, hlength]
    omega
  have hbytes := decodeBase16_bytes s.text
  rw [hsize, htext] at hbytes
  rw [htext, List.forall_mem_append, and_iff_left hmissed, ← decodeBytes_eq_iff s.spells tail,
    ← hbytes]
  exact ⟨congrArg ByteBuffer.bytes, ext_bytes⟩

end decode

section encode

variable {b : ByteBuffer} {bytes : List UInt8} {memory : ℕ → UInt8}

theorem written_bytes {bufferSize : UInt32} (h : bufferSize.toNat = bytes.length) :
    (written memory bufferSize bytes).bytes = bytes := by
  apply List.ext_getElem
  · simp [written, h]
  · intro i hi hi'
    simp [written, hi']

/-- What the encoder writes for four bits is their digit, and is not missed. -/
theorem encodeNibble_digit (nib : UInt32) (h : nib.toNat < 16) :
    Digit (encodeNibble nib) nib.toNat ∧ ¬ Missed (encodeNibble nib) := by
  have hall : ∀ d < 16, (encodeNibble (UInt32.ofNat d)).toNat =
      if d < 10 then 48 + d else 97 + (d - 10) := by decide
  have hvalue := hall nib.toNat h
  rw [UInt32.ofNat_toNat] at hvalue
  rw [missed_iff, hvalue, Digit, hvalue]
  have hzero : '0'.toNat = 48 := rfl
  have hlower : 'a'.toNat = 97 := rfl
  split_ifs <;> omega

theorem spells_encode (bytes : List UInt8) :
    Spells (bytes.flatMap encodeByte) bytes ∧ ∀ c ∈ bytes.flatMap encodeByte, ¬ Missed c := by
  induction bytes with
  | nil => exact ⟨.nil, by simp⟩
  | cons byte bytes ih =>
    have hlt := byte.toNat_lt
    have hhigh : (byte.toUInt32 >>> 4).toNat = byte.toNat / 16 := by
      have hshift : (byte.toUInt32 >>> 4).toNat = byte.toUInt32.toNat >>> 4 :=
        UInt32.toNat_shiftRight ..
      rw [hshift, UInt8.toNat_toUInt32, Nat.shiftRight_eq_div_pow]
    have hlow : (byte.toUInt32 &&& 0xF).toNat = byte.toNat % 16 := by
      rw [UInt32.toNat_and, UInt8.toNat_toUInt32]
      exact Nat.and_two_pow_sub_one_eq_mod byte.toNat 4
    obtain ⟨hdigit, hknown⟩ := encodeNibble_digit (byte.toUInt32 >>> 4) (by omega)
    obtain ⟨hdigit', hknown'⟩ := encodeNibble_digit (byte.toUInt32 &&& 0xF) (by omega)
    rw [hhigh] at hdigit
    rw [hlow] at hdigit'
    refine ⟨.cons hdigit hdigit' ih.1, ?_⟩
    rw [List.flatMap_cons, encodeByte, List.forall_mem_append]
    exact ⟨by simp [hknown, hknown'], ih.2⟩

theorem toNat_outLen (b : ByteBuffer) :
    (b.getBufferSize * 2 + 1).toNat = (2 * b.bytes.length + 1) % 2 ^ 32 := by
  have hmul : (b.getBufferSize * 2).toNat = b.getBufferSize.toNat * 2 % 2 ^ 32 :=
    UInt32.toNat_mul ..
  have hadd : (b.getBufferSize * 2 + 1).toNat = ((b.getBufferSize * 2).toNat + 1) % 2 ^ 32 :=
    UInt32.toNat_add ..
  rw [toNat_getBufferSize] at hmul
  omega

/-- A buffer whose size is not negative as a signed number is encoded as a spelling. -/
theorem encodeBase16_bytes (memory : ℕ → UInt8) (h : b.bytes.length < 2 ^ 31) :
    (b.encodeBase16 memory).bytes = b.bytes.flatMap encodeByte ++ [0] := by
  have hsigned : b.getBufferSize.toInt32.toInt.toNat = b.bytes.length := by
    have hint : b.getBufferSize.toInt32.toInt = _ :=
      BitVec.toInt_eq_toNat_cond b.getBufferSize.toBitVec
    have hnat : b.getBufferSize.toBitVec.toNat = b.bytes.length := toNat_getBufferSize b
    rw [hnat, if_pos (by omega)] at hint
    rw [hint]
    rfl
  have hencoded : b.encodeBytes = b.bytes.flatMap encodeByte ++ [0] := by
    rw [encodeBytes, hsigned, List.take_length]
  rw [encodeBase16, written_bytes, hencoded]
  rw [toNat_outLen, hencoded, List.length_append, length_digits (spells_encode b.bytes).1,
    List.length_singleton]
  omega

/-- The decoder gives an encoded buffer back just when its size is not negative as a signed number.
-/
theorem decode_encode_iff (memory : ℕ → UInt8) (b : ByteBuffer) :
    (b.encodeBase16 memory).decodeBase16 = b ↔ b.bytes.length < 2 ^ 31 := by
  constructor
  · intro h
    by_contra hlarge
    have hsize := b.size
    have hlength := congrArg (fun b : ByteBuffer => b.bytes.length) h
    have hle := length_decodeBytes_le ((b.encodeBase16 memory).bytes.length / 2)
      (b.encodeBase16 memory).bytes
    have houtLen : (b.encodeBase16 memory).bytes.length = (2 * b.bytes.length + 1) % 2 ^ 32 := by
      rw [← toNat_outLen, encodeBase16, written, List.length_map, List.length_range]
    rw [decodeBase16_bytes] at hlength
    omega
  · intro h
    have hbytes := encodeBase16_bytes memory h
    have hspells := spells_encode b.bytes
    refine (decodeBase16_eq_iff ⟨b.encodeBase16 memory, _, hspells.1, .inr hbytes⟩).mpr ?_
    rw [hbytes, List.forall_mem_append]
    refine ⟨hspells.2, fun c hc => ?_⟩
    rw [List.mem_singleton.mp hc, missed_iff]
    decide

end encode

end ByteBuffer

/-- A spelling is decoded as what it spells just when it has no letter from B to F in upper case,
and an encoded buffer just when it has fewer than 2 ^ 31 bytes. -/
theorem decodeBase16_iff (b : ByteBuffer) (s : Spelling b) (memory : ℕ → UInt8) :
    (s.text.decodeBase16 = b ↔ ∀ c ∈ s.text.bytes, ¬ Missed c) ∧
      ((b.encodeBase16 memory).decodeBase16 = b ↔ b.bytes.length < 2 ^ 31) :=
  ⟨ByteBuffer.decodeBase16_eq_iff s, ByteBuffer.decode_encode_iff memory b⟩

/-- 4B is decoded as 40. -/
theorem uppercase_letter_lost :
    ¬ ∀ (b : ByteBuffer) (s : Spelling b), s.text.decodeBase16 = b := by
  intro hclaim
  have hdecoded := hclaim ⟨[0x4B], by decide⟩ ⟨⟨[52, 66], by decide⟩, [52, 66],
    .cons (by simp [Digit]) (by simp [Digit]) .nil, .inl rfl⟩
  have hbytes := congrArg ByteBuffer.bytes hdecoded
  exact absurd hbytes (by decide)

end TNL
