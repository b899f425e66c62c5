import Mathlib.Algebra.Group.Int.Defs
import Mathlib.Tactic.NormNum
import TNL.GoRoot.BitStream
import TNL.Library.BitBuffer
import TNL.Library.Run

/-!
# Bits that the Go stream writes and reads

Integers are joined to the bits that are there, and at a byte border whole bytes are
copied. Ranges of bits are read back as they stand in the buffer.
-/
namespace TNL.GoRoot
open Library

namespace BitStream

/-- The position stays where it is. -/
def writeIntAt (bs : BitStream) (value : U32) (bitCount bitPosition : ℕ) : Option BitStream :=
  (writeInt { bs with bitNum := bitPosition } value bitCount).map fun bs' =>
    { bs' with bitNum := bs.bitNum }

def writeFlag (bs : BitStream) (val : Bool) : Option (Bool × BitStream) :=
  if val then (bs.writeInt 1 1).map (true, ·) else (bs.writeInt 0 1).map (false, ·)

/-- A call that writes. -/
inductive Write where
  | int (value : U32) (bitCount : ℕ)
  | flag (val : Bool)
  | bits (bitCount : ℕ) (data : List UInt8)
  | intAt (value : U32) (bitCount bitPosition : ℕ)

def step (bs : BitStream) : Write → Option BitStream
  | .int value bitCount => bs.writeInt value bitCount
  | .flag val => (bs.writeFlag val).map Prod.snd
  | .bits bitCount data => (bs.writeBits bitCount data).map Prod.snd
  | .intAt value bitCount bitPosition => bs.writeIntAt value bitCount bitPosition

namespace Write

/-- The number of bits. -/
def count : Write → ℕ
  | int _ bitCount | bits bitCount _ | intAt _ bitCount _ => bitCount
  | flag _ => 1

/-- The first bit, if the stream is at a position. -/
def first (pos : ℕ) : Write → ℕ
  | int .. | flag _ | bits .. => pos
  | intAt _ _ bitPosition => bitPosition

/-- The position afterwards. -/
def next (pos : ℕ) : Write → ℕ
  | int _ bitCount | bits bitCount _ => pos + bitCount
  | flag _ => pos + 1
  | intAt .. => pos

/-- The bits of the value written. -/
def source : Write → ℕ → Bool
  | int value _ | intAt value _ _ => value.getLsbD
  | flag val => fun _ => val
  | bits _ data => bitAt data

/-- The value has the number of bits, or the source has as many. -/
def Valid : Write → Prop
  | int value bitCount | intAt value bitCount _ =>
    1 ≤ bitCount ∧ bitCount ≤ 32 ∧ value.toNat < 2 ^ bitCount
  | flag _ => True
  | bits bitCount data => bitCount ≤ 8 * data.length

instance (w : Write) : Decidable w.Valid :=
  match w with
  | int _ _ | intAt _ _ _ => inferInstanceAs (Decidable (_ ∧ _ ∧ _))
  | flag _ => inferInstanceAs (Decidable True)
  | bits _ _ => inferInstanceAs (Decidable (_ ≤ _))

end Write

/-- Calls with the first bits of their ranges. -/
def ranges : ℕ → List Write → List (ℕ × Write)
  | _, [] => []
  | pos, w :: ws => (w.first pos, w) :: ranges (w.next pos) ws

/-- The limits are within the buffer, and what may be written may be read. -/
structure Sized (bs : BitStream) : Prop where
  write : bs.maxWriteBitNum ≤ bs.maxReadBitNum
  read : bs.maxReadBitNum ≤ 8 * bs.buffer.length

/-- Every call of a sequence fits. -/
def Fit (bs : BitStream) (ws : List Write) : Prop :=
  ∀ r ∈ ranges bs.bitNum ws, r.2.Valid ∧ r.1 + r.2.count ≤ bs.maxWriteBitNum

/-- A call sets the bits of its range to those of the value, and no others. -/
def Framed (bs : BitStream) (w : Write) : Prop :=
  ∀ bs', bs.step w = some bs' →
    bitAt bs'.buffer = overwrite (w.first bs.bitNum) w.count w.source (bitAt bs.buffer)

/-- Reading a range returns the value that has been written there. -/
def ReadsBack (bs : BitStream) (pos : ℕ) : Write → Prop
  | .int value bitCount | .intAt value bitCount _ =>
    ∃ bs', readInt { bs with bitNum := pos } bitCount = some (value, bs')
  | .flag val => ∃ bs', readFlag { bs with bitNum := pos } = some (val, bs')
  | .bits bitCount data => ∀ dest : List UInt8, bitCount ≤ 8 * dest.length →
    ∃ out bs', readBits { bs with bitNum := pos } bitCount dest = some (out, bs') ∧
      out.length = dest.length ∧ ∀ i < bitCount, bitAt out i = bitAt data i

/-- Two ranges have no bit in common. -/
def Apart (r r' : ℕ × Write) : Prop := r.1 + r.2.count ≤ r'.1 ∨ r'.1 + r'.2.count ≤ r.1

/-- Every call writes its range and nothing else, and at the end all ranges that no later call has
written to are read back. -/
def RoundTrips (bs : BitStream) (ws : List Write) : Prop :=
  ∃ bs', Run step Framed bs ws bs' ∧ ∀ before r after, ranges bs.bitNum ws = before ++ r :: after →
    (∀ r' ∈ after, Apart r r') → bs'.ReadsBack r.1 r.2

/-- What a call joins are bits that the range has only where the value has them, and what it copies
beyond its range is there already. -/
def Clear (bs : BitStream) (w : Write) : Prop :=
  match w with
  | .int .. | .flag _ | .intAt .. =>
    ∀ k < w.count, bitAt bs.buffer (w.first bs.bitNum + k) = true → w.source k = true
  | .bits bitCount data =>
    if bs.bitNum % 8 = 0 then
      ∀ k, bitCount ≤ k → k < 8 * ((bitCount + 7) / 8) →
        bitAt bs.buffer (bs.bitNum + k) = bitAt data k
    else ∀ k < bitCount, bitAt bs.buffer (bs.bitNum + k) = true → bitAt data k = true

variable {bs bs' : BitStream} {w : Write} {ws : List Write} {value : U32}
  {fuel bitNum bitCount bitsRead pos n i : ℕ} {data buffer : List UInt8}

/-! ### Writing -/

theorem mask_getLsbD : ∀ n ≤ 8, ∀ b < 8, (mask n).getLsbD b = decide (b < n) := by
  decide

/-- Bits of a value joined to those of a byte. -/
theorem joined_getLsbD (byte : UInt8) (value : U32) {u b : ℕ} (hn : u + n ≤ 8) (hb : b < 8) :
    (UInt8.ofBitVec (byte.toBitVec ||| (value.setWidth 8 &&& mask n) <<< u)).toBitVec.getLsbD b =
      if u ≤ b ∧ b < u + n then byte.toBitVec.getLsbD b || value.getLsbD (b - u)
      else byte.toBitVec.getLsbD b := by
  change (byte.toBitVec ||| (value.setWidth 8 &&& mask n) <<< u).getLsbD b = _
  rw [BitVec.getLsbD_or, BitVec.getLsbD_shiftLeft, BitVec.getLsbD_and, BitVec.getLsbD_setWidth]
  by_cases hlow : b < u
  · simp [hlow, Nat.not_le.mpr hlow]
  · rw [mask_getLsbD n (by omega) _ (by omega)]
    by_cases hin : b < u + n
    · simp [hb, hlow, hin, Nat.not_lt.mp hlow, show b - u < n by omega, show b - u < 8 by omega]
    · simp [hin, show ¬ b - u < n by omega]

/-- One byte is written. -/
theorem bitAt_set_joined {byte : UInt8} (hbyte : buffer[pos / 8]? = some byte) (value : U32)
    (hn : pos % 8 + n ≤ 8) :
    bitAt (buffer.set (pos / 8) (UInt8.ofBitVec
      (byte.toBitVec ||| (value.setWidth 8 &&& mask n) <<< (pos % 8)))) =
      joinBits pos n value.getLsbD (bitAt buffer) := by
  funext i
  rw [bitAt_set (List.getElem?_eq_some_iff.mp hbyte).1]
  by_cases hi : i / 8 = pos / 8
  · rw [if_pos hi, joined_getLsbD _ _ hn (Nat.mod_lt _ (by decide)), joinBits,
      bitAt_eq (hi ▸ hbyte), show i % 8 - pos % 8 = i - pos by omega]
    refine if_congr ?_ rfl rfl
    omega
  · rw [if_neg hi, joinBits_of_outside (by omega)]

theorem writeBytes_join (hfuel : bitCount < fuel) (hle : bs.bitNum + bitCount ≤ 8 * bs.buffer.length)
    (value : U32) :
    ∃ bytes, writeBytes fuel bs value bitCount =
        some { bs with buffer := bytes, bitNum := bs.bitNum + bitCount } ∧
      bytes.length = bs.buffer.length ∧
      bitAt bytes = joinBits bs.bitNum bitCount value.getLsbD (bitAt bs.buffer) := by
  induction fuel generalizing bs value bitCount with
  | zero => cases hfuel
  | succ fuel ih =>
    rw [writeBytes]
    by_cases hzero : bitCount = 0
    · subst hzero
      exact ⟨bs.buffer, by rw [if_pos rfl, Nat.add_zero], rfl, (joinBits_zero ..).symm⟩
    · have hlt : bs.bitNum / 8 < bs.buffer.length := by omega
      have hbyte : bs.buffer[bs.bitNum / 8]? = some _ := List.getElem?_eq_getElem hlt
      rw [if_neg hzero, hbyte]
      dsimp only
      have hbits : min bitCount (8 - bs.bitNum % 8) ≤ bitCount := Nat.min_le_left ..
      have hroom : bs.bitNum % 8 + min bitCount (8 - bs.bitNum % 8) ≤ 8 := by omega
      have hpos : 0 < min bitCount (8 - bs.bitNum % 8) := by omega
      generalize min bitCount (8 - bs.bitNum % 8) = bits at hbits hroom hpos
      have hset := bitAt_set_joined hbyte value hroom
      -- The loop goes on with what is left of the value.
      have hshift (k : ℕ) : (value >>> bits).getLsbD k = value.getLsbD (bits + k) :=
        BitVec.getLsbD_ushiftRight ..
      obtain ⟨bytes, heq, hlength, hjoin⟩ := @ih { bs with
        buffer := bs.buffer.set (bs.bitNum / 8) (UInt8.ofBitVec (bs.buffer[bs.bitNum / 8].toBitVec |||
          (value.setWidth 8 &&& mask bits) <<< (bs.bitNum % 8)))
        bitNum := bs.bitNum + bits } (bitCount - bits) (by omega) (by
          rw [List.length_set]
          dsimp only
          omega) (value >>> bits)
      refine ⟨bytes, heq.trans ?_, hlength.trans List.length_set, hjoin.trans ?_⟩
      · rw [Nat.add_assoc, Nat.add_sub_cancel' hbits]
      · rw [hset, joinBits_joinBits hshift, Nat.add_sub_cancel' hbits]

theorem writeInt_join (hwrite : bs.bitNum + bitCount ≤ bs.maxWriteBitNum)
    (hsize : bs.maxWriteBitNum ≤ 8 * bs.buffer.length) (value : U32) :
    ∃ bytes, bs.writeInt value bitCount =
        some { bs with buffer := bytes, bitNum := bs.bitNum + bitCount } ∧
      bytes.length = bs.buffer.length ∧
      bitAt bytes = joinBits bs.bitNum bitCount value.getLsbD (bitAt bs.buffer) := by
  rw [writeInt, if_neg (Nat.not_lt.mpr hwrite)]
  exact writeBytes_join (Nat.lt_succ_self _) (hwrite.trans hsize) value

/-- The next bit of a source, as an integer. -/
theorem single_getLsbD (byte : UInt8) (i : ℕ) :
    (((byte.toBitVec >>> (i % 8)) &&& 1).setWidth 32 : U32).getLsbD 0 =
      byte.toBitVec.getLsbD (i % 8) := by
  rw [BitVec.getLsbD_setWidth, BitVec.getLsbD_and, BitVec.getLsbD_ushiftRight, Nat.add_zero]
  simp

theorem writeBitwise_join (hwrite : bs.bitNum + n ≤ bs.maxWriteBitNum)
    (hsize : bs.maxWriteBitNum ≤ 8 * bs.buffer.length) (hdata : i + n ≤ 8 * data.length) :
    ∃ bytes, writeBitwise n i bs data =
        some { bs with buffer := bytes, bitNum := bs.bitNum + n } ∧
      bytes.length = bs.buffer.length ∧
      bitAt bytes = joinBits bs.bitNum n (fun k => bitAt data (i + k)) (bitAt bs.buffer) := by
  induction n generalizing i bs with
  | zero => exact ⟨bs.buffer, rfl, rfl, (joinBits_zero ..).symm⟩
  | succ n ih =>
    have hbyte : data[i / 8]? = some _ := List.getElem?_eq_getElem (by omega : i / 8 < data.length)
    have hfirst : bs.bitNum + 1 ≤ bs.maxWriteBitNum := by omega
    obtain ⟨bytes₁, heq₁, hlength₁, hjoin₁⟩ := writeInt_join hfirst hsize
      (((data[i / 8].toBitVec >>> (i % 8)) &&& 1).setWidth 32)
    have hsingle : bitAt bytes₁ =
        joinBits bs.bitNum 1 (fun k => bitAt data (i + k)) (bitAt bs.buffer) := by
      refine hjoin₁.trans (joinBits_congr fun k hk => ?_)
      obtain rfl : k = 0 := by omega
      rw [single_getLsbD, Nat.add_zero, bitAt_eq hbyte]
    obtain ⟨bytes, heq, hlength, hjoin⟩ := @ih
      { bs with buffer := bytes₁, bitNum := bs.bitNum + 1 } (i + 1) (by dsimp only; omega)
      (by rw [hlength₁]; exact hsize) (by omega)
    refine ⟨bytes, ?_, hlength.trans hlength₁, ?_⟩
    · rw [writeBitwise, hbyte]
      dsimp only
      rw [heq₁, Option.bind_eq_bind, Option.bind_some, heq, Nat.add_assoc, Nat.add_comm 1 n]
    · rw [hjoin, hsingle, joinBits_joinBits (fun k => by rw [Nat.add_assoc]), Nat.add_comm 1 n]

theorem writeBits_overwrite (halign : bs.bitNum % 8 = 0)
    (hwrite : bs.bitNum + n ≤ bs.maxWriteBitNum)
    (hsize : bs.maxWriteBitNum ≤ 8 * bs.buffer.length) (hdata : n ≤ 8 * data.length) :
    ∃ bytes, (bs.writeBits n data).map Prod.snd =
        some { bs with buffer := bytes, bitNum := bs.bitNum + n } ∧
      bytes.length = bs.buffer.length ∧
      bitAt bytes = overwrite bs.bitNum (8 * ((n + 7) / 8)) (bitAt data) (bitAt bs.buffer) := by
  obtain ⟨copied, hcopied⟩ : ∃ copied, copied = data.take ((n + 7) / 8) := ⟨_, rfl⟩
  have hcount : copied.length = (n + 7) / 8 := by
    rw [hcopied]
    exact List.length_take_of_le (by omega)
  have hall : copied.take (bs.buffer.length - bs.bitNum / 8) = copied :=
    List.take_of_length_le (by omega)
  have hsplice : bitAt (bs.buffer.take (bs.bitNum / 8) ++ copied ++
      bs.buffer.drop (bs.bitNum / 8 + copied.length)) = _ := bitAt_splice (by omega)
  rw [writeBits, if_neg (Nat.not_lt.mpr hwrite)]
  dsimp only
  rw [if_pos rfl, if_neg (by omega), if_pos halign, if_pos (by omega), ← hcopied, hall]
  refine ⟨_, rfl, ?_, ?_⟩
  · simp only [List.length_append, List.length_take, List.length_drop]
    omega
  · rw [hsplice, hcount, show 8 * (bs.bitNum / 8) = bs.bitNum by omega]
    refine overwrite_congr fun k hk => ?_
    rw [hcopied, bitAt_take hk]

theorem writeBits_join (halign : bs.bitNum % 8 ≠ 0)
    (hwrite : bs.bitNum + n ≤ bs.maxWriteBitNum)
    (hsize : bs.maxWriteBitNum ≤ 8 * bs.buffer.length) (hdata : n ≤ 8 * data.length) :
    ∃ bytes, (bs.writeBits n data).map Prod.snd =
        some { bs with buffer := bytes, bitNum := bs.bitNum + n } ∧
      bytes.length = bs.buffer.length ∧
      bitAt bytes = joinBits bs.bitNum n (bitAt data) (bitAt bs.buffer) := by
  obtain ⟨bytes, heq, hlength, hjoin⟩ := writeBitwise_join hwrite hsize
    (by omega : 0 + n ≤ 8 * data.length)
  refine ⟨bytes, ?_, hlength, hjoin.trans (joinBits_congr fun k _ => by rw [Nat.zero_add])⟩
  rw [writeBits, if_neg (Nat.not_lt.mpr hwrite)]
  dsimp only
  rw [if_pos rfl, if_neg (by omega), if_neg halign, heq]
  rfl

/-- What a call makes of the bits of the buffer. -/
def written (bs : BitStream) : Write → ℕ → Bool
  | .int value bitCount => joinBits bs.bitNum bitCount value.getLsbD (bitAt bs.buffer)
  | .flag val => joinBits bs.bitNum 1 (fun _ => val) (bitAt bs.buffer)
  | .bits bitCount data =>
    if bs.bitNum % 8 = 0 then
      overwrite bs.bitNum (8 * ((bitCount + 7) / 8)) (bitAt data) (bitAt bs.buffer)
    else joinBits bs.bitNum bitCount (bitAt data) (bitAt bs.buffer)
  | .intAt value bitCount bitPosition =>
    joinBits bitPosition bitCount value.getLsbD (bitAt bs.buffer)

theorem writeFlag_eq (bs : BitStream) (val : Bool) :
    (bs.writeFlag val).map Prod.snd = bs.writeInt (if val then 1 else 0) 1 := by
  rw [writeFlag]
  cases val <;> simp [Option.map_map, Function.comp_def]

theorem flag_getLsbD (val : Bool) : (if val then 1 else 0 : U32).getLsbD 0 = val := by
  cases val <;> rfl

/-- What a call does that fits. -/
theorem step_eq (hsized : bs.Sized) (hvalid : w.Valid)
    (hfits : w.first bs.bitNum + w.count ≤ bs.maxWriteBitNum) :
    ∃ bytes, bs.step w = some { bs with buffer := bytes, bitNum := w.next bs.bitNum } ∧
      bytes.length = bs.buffer.length ∧ bitAt bytes = bs.written w := by
  have hsize := hsized.write.trans hsized.read
  cases w with
  | int value bitCount => exact writeInt_join hfits hsize value
  | flag val =>
    have hone : bs.bitNum + 1 ≤ bs.maxWriteBitNum := hfits
    obtain ⟨bytes, heq, hlength, hjoin⟩ := writeInt_join hone hsize (if val then 1 else 0)
    refine ⟨bytes, (writeFlag_eq bs val).trans heq, hlength, ?_⟩
    change bitAt bytes = joinBits bs.bitNum 1 (fun _ => val) (bitAt bs.buffer)
    refine hjoin.trans (joinBits_congr fun k hk => ?_)
    rw [Nat.lt_one_iff.mp hk]
    exact flag_getLsbD val
  | bits bitCount data =>
    by_cases halign : bs.bitNum % 8 = 0
    · rw [written, if_pos halign]
      exact writeBits_overwrite halign hfits hsize hvalid
    · rw [written, if_neg halign]
      exact writeBits_join halign hfits hsize hvalid
  | intAt value bitCount bitPosition =>
    have hthere : bitPosition + bitCount ≤ bs.maxWriteBitNum := hfits
    obtain ⟨bytes, heq, hlength, hjoin⟩ :=
      @writeInt_join { bs with bitNum := bitPosition } bitCount hthere hsize value
    refine ⟨bytes, ?_, hlength, hjoin⟩
    rw [step, writeIntAt, heq]
    rfl

/-- A call sets the bits of its range and no others exactly if what it finds there permits it. -/
theorem framed_iff (hsized : bs.Sized) (hvalid : w.Valid)
    (hfits : w.first bs.bitNum + w.count ≤ bs.maxWriteBitNum) : bs.Framed w ↔ bs.Clear w := by
  obtain ⟨bytes, heq, -, hbits⟩ := step_eq hsized hvalid hfits
  have hframed : bs.Framed w ↔
      bs.written w = overwrite (w.first bs.bitNum) w.count w.source (bitAt bs.buffer) := by
    rw [← hbits]
    constructor
    · intro h
      exact h _ heq
    · intro h bs' heq'
      rw [← Option.some.inj (heq.symm.trans heq')]
      exact h
  rw [hframed]
  cases w with
  | int value bitCount => exact joinBits_eq_overwrite_iff
  | flag val =>
    change joinBits bs.bitNum 1 (fun _ => val) (bitAt bs.buffer) =
      overwrite bs.bitNum 1 (fun _ => val) (bitAt bs.buffer) ↔ _
    exact joinBits_eq_overwrite_iff
  | bits bitCount data =>
    rw [written, Clear]
    split_ifs
    · exact overwrite_eq_overwrite_iff (by change bitCount ≤ _; omega)
    · exact joinBits_eq_overwrite_iff
  | intAt value bitCount bitPosition => exact joinBits_eq_overwrite_iff

/-! ### Reading -/

/-- Bits of a byte joined to those of a value. -/
theorem part_getLsbD {byte : UInt8} (hbyte : buffer[pos / 8]? = some byte) (value : U32)
    (hn : pos % 8 + n ≤ 8) (hroom : bitsRead + n ≤ 32) :
    (value ||| ((byte.toBitVec >>> (pos % 8)) &&& mask n).setWidth 32 <<< bitsRead).getLsbD =
      joinBits bitsRead n (fun k => bitAt buffer (pos + k)) value.getLsbD := by
  funext k
  rw [BitVec.getLsbD_or, BitVec.getLsbD_shiftLeft, BitVec.getLsbD_setWidth, BitVec.getLsbD_and,
    BitVec.getLsbD_ushiftRight]
  by_cases hin : bitsRead ≤ k ∧ k < bitsRead + n
  · obtain ⟨j, rfl⟩ : ∃ j, k = bitsRead + j := ⟨k - bitsRead, by omega⟩
    have hbit : bitAt buffer (pos + j) = byte.toBitVec.getLsbD (pos % 8 + j) := by
      rw [bitAt_eq (show buffer[(pos + j) / 8]? = some byte by
        rw [show (pos + j) / 8 = pos / 8 by omega, hbyte]), show (pos + j) % 8 = pos % 8 + j by omega]
    rw [joinBits_apply (by omega), Nat.add_sub_cancel_left, mask_getLsbD n (by omega) _ (by omega),
      hbit]
    simp [show bitsRead + j < 32 by omega, show j < 32 by omega, show j < n by omega]
  · rw [joinBits_of_outside (by omega)]
    by_cases hlow : k < bitsRead
    · simp [hlow]
    · have hmask : (mask n).getLsbD (k - bitsRead) = false := by
        by_cases hbyte : k - bitsRead < 8
        · rw [mask_getLsbD n (by omega) _ hbyte]
          exact decide_eq_false (by omega)
        · exact BitVec.getLsbD_of_ge _ _ (by omega)
      simp [hmask]

theorem readBytes_join (hfuel : bitCount < fuel) (hle : bitNum + bitCount ≤ 8 * buffer.length)
    (hroom : bitsRead + bitCount ≤ 32) (value : U32) :
    ∃ value', readBytes buffer fuel bitNum bitCount bitsRead value =
        some (value', bitNum + bitCount) ∧
      value'.getLsbD =
        joinBits bitsRead bitCount (fun k => bitAt buffer (bitNum + k)) value.getLsbD := by
  induction fuel generalizing bitNum bitCount bitsRead value with
  | zero => cases hfuel
  | succ fuel ih =>
    rw [readBytes]
    by_cases hzero : bitCount = 0
    · subst hzero
      exact ⟨value, by rw [if_pos rfl, Nat.add_zero], (joinBits_zero ..).symm⟩
    · have hlt : bitNum / 8 < buffer.length := by omega
      have hbyte : buffer[bitNum / 8]? = some _ := List.getElem?_eq_getElem hlt
      rw [if_neg hzero, hbyte]
      dsimp only
      have hbits : min bitCount (8 - bitNum % 8) ≤ bitCount := Nat.min_le_left ..
      have hpart : bitNum % 8 + min bitCount (8 - bitNum % 8) ≤ 8 := by omega
      have hpos : 0 < min bitCount (8 - bitNum % 8) := by omega
      generalize min bitCount (8 - bitNum % 8) = bits at hbits hpart hpos
      have hjoin := part_getLsbD hbyte value hpart (by omega : bitsRead + bits ≤ 32)
      obtain ⟨value', heq, hvalue⟩ := @ih (bitNum + bits) (bitCount - bits) (bitsRead + bits)
        (by omega) (by omega) (by omega) _
      refine ⟨value', heq.trans ?_, hvalue.trans ?_⟩
      · rw [Nat.add_assoc, Nat.add_sub_cancel' hbits]
      · rw [hjoin, joinBits_joinBits (fun k => by rw [Nat.add_assoc]), Nat.add_sub_cancel' hbits]

/-- An integer read has the bits of its range. -/
theorem readInt_bits (hread : bs.bitNum + n ≤ bs.maxReadBitNum)
    (hsize : bs.maxReadBitNum ≤ 8 * bs.buffer.length) (hn : n ≤ 32) :
    ∃ value, bs.readInt n = some (value, { bs with bitNum := bs.bitNum + n }) ∧
      ∀ k, value.getLsbD k = (decide (k < n) && bitAt bs.buffer (bs.bitNum + k)) := by
  obtain ⟨value, heq, hvalue⟩ := readBytes_join (Nat.lt_succ_self n) (hread.trans hsize)
    (by omega : 0 + n ≤ 32) 0
  refine ⟨value, ?_, fun k => ?_⟩
  · rw [readInt, if_neg (Nat.not_lt.mpr hread), heq]
    rfl
  · rw [hvalue]
    by_cases hk : k < n
    · rw [← Nat.zero_add k, joinBits_apply hk]
      simp [hk]
    · rw [joinBits_of_outside (by omega)]
      simp [hk]

/-- One bit read as an integer. -/
theorem readInt_one (hread : bs.bitNum + 1 ≤ bs.maxReadBitNum)
    (hsize : bs.maxReadBitNum ≤ 8 * bs.buffer.length) :
    bs.readInt 1 = some (if bitAt bs.buffer bs.bitNum = true then 1 else 0,
      { bs with bitNum := bs.bitNum + 1 }) := by
  obtain ⟨value, heq, hvalue⟩ := readInt_bits hread hsize (by decide)
  have hsingle : value = if bitAt bs.buffer bs.bitNum = true then 1 else 0 := by
    refine BitVec.eq_of_getLsbD_eq fun k hk => ?_
    rw [hvalue]
    cases k with
    | zero => cases bitAt bs.buffer bs.bitNum <;> rfl
    | succ k => cases bitAt bs.buffer bs.bitNum <;> simp
  rw [heq, hsingle]

theorem replaced_getLsbD (byte single : BitVec 8) {v : ℕ} (hv : v < 8) (b : Bool) :
    (if b = true then byte ||| single else byte &&& ~~~single).getLsbD v =
      if single.getLsbD v = true then b else byte.getLsbD v := by
  cases b with
  | false =>
    rw [if_neg Bool.false_ne_true, BitVec.getLsbD_and, BitVec.getLsbD_not, decide_eq_true hv]
    cases single.getLsbD v <;> simp
  | true =>
    rw [if_pos rfl, BitVec.getLsbD_or]
    cases single.getLsbD v <;> simp

/-- One bit of a byte is replaced. -/
theorem bitAt_set_single {byte : UInt8} (hbyte : data[i / 8]? = some byte) (b : Bool) :
    bitAt (data.set (i / 8) (UInt8.ofBitVec (if b = true then byte.toBitVec ||| (1 <<< (i % 8) : ℕ)
      else byte.toBitVec &&& ~~~((1 <<< (i % 8) : ℕ) : BitVec 8)))) =
      overwrite i 1 (fun _ => b) (bitAt data) := by
  funext j
  have hsingle : ∀ u < 8, ∀ v < 8, ((1 <<< u : ℕ) : BitVec 8).getLsbD v = decide (v = u) := by
    decide
  rw [bitAt_set (List.getElem?_eq_some_iff.mp hbyte).1]
  by_cases hj : j / 8 = i / 8
  · have hlt : j % 8 < 8 := Nat.mod_lt _ (by decide)
    have hreplaced := replaced_getLsbD byte.toBitVec ((1 <<< (i % 8) : ℕ) : BitVec 8) hlt b
    simp only [hsingle (i % 8) (Nat.mod_lt _ (by decide)) (j % 8) hlt, decide_eq_true_eq]
      at hreplaced
    rw [if_pos hj, overwrite, bitAt_eq (hj ▸ hbyte)]
    refine hreplaced.trans (if_congr ?_ rfl rfl)
    omega
  · rw [if_neg hj, overwrite_of_outside (by omega)]

theorem readBitwise_overwrite (hread : bs.bitNum + n ≤ bs.maxReadBitNum)
    (hsize : bs.maxReadBitNum ≤ 8 * bs.buffer.length) (hdata : i + n ≤ 8 * data.length) :
    ∃ out, readBitwise n i bs data = some (out, { bs with bitNum := bs.bitNum + n }) ∧
      out.length = data.length ∧
      bitAt out = overwrite i n (fun k => bitAt bs.buffer (bs.bitNum + k)) (bitAt data) := by
  induction n generalizing i bs data with
  | zero => exact ⟨data, rfl, rfl, funext fun j => (overwrite_of_outside (by omega)).symm⟩
  | succ n ih =>
    have hfirst : bs.bitNum + 1 ≤ bs.maxReadBitNum := by omega
    have hbyte : data[i / 8]? = some _ := List.getElem?_eq_getElem (by omega : i / 8 < data.length)
    have hset := bitAt_set_single hbyte (bitAt bs.buffer bs.bitNum)
    obtain ⟨out, heq, hlength, hout⟩ := @ih { bs with bitNum := bs.bitNum + 1 } (i + 1)
      (data.set (i / 8) (UInt8.ofBitVec (if bitAt bs.buffer bs.bitNum = true then
        data[i / 8].toBitVec ||| (1 <<< (i % 8) : ℕ)
        else data[i / 8].toBitVec &&& ~~~((1 <<< (i % 8) : ℕ) : BitVec 8))))
      (by dsimp only; omega) hsize (by rw [List.length_set]; omega)
    refine ⟨out, ?_, hlength.trans List.length_set, ?_⟩
    · have hnonzero : ((if bitAt bs.buffer bs.bitNum = true then 1 else 0 : U32) ≠ 0) =
          (bitAt bs.buffer bs.bitNum = true) := by
        cases bitAt bs.buffer bs.bitNum <;> simp
      rw [readBitwise, readInt_one hfirst hsize, Option.bind_eq_bind, Option.bind_some, hbyte]
      simp only [hnonzero]
      rw [heq, Nat.add_assoc, Nat.add_comm 1 n]
    · rw [hout, hset]
      have hnext (k : ℕ) : bitAt bs.buffer (bs.bitNum + 1 + k) =
          bitAt bs.buffer (bs.bitNum + (1 + k)) := by rw [Nat.add_assoc]
      have hone : overwrite i 1 (fun _ => bitAt bs.buffer bs.bitNum) (bitAt data) =
          overwrite i 1 (fun k => bitAt bs.buffer (bs.bitNum + k)) (bitAt data) :=
        overwrite_congr fun k hk => by rw [Nat.lt_one_iff.mp hk, Nat.add_zero]
      rw [hone, Nat.add_comm n 1]
      exact overwrite_overwrite hnext

/-- As many bits of the destination as are read are those of the range. -/
theorem readBits_overwrite (hread : bs.bitNum + n ≤ bs.maxReadBitNum)
    (hsize : bs.maxReadBitNum ≤ 8 * bs.buffer.length) (hdata : n ≤ 8 * data.length) :
    ∃ out, bs.readBits n data = some (out, { bs with bitNum := bs.bitNum + n }) ∧
      out.length = data.length ∧ ∀ k < n, bitAt out k = bitAt bs.buffer (bs.bitNum + k) := by
  rw [readBits, if_neg (Nat.not_lt.mpr hread)]
  dsimp only
  rw [if_neg (by omega)]
  by_cases halign : bs.bitNum % 8 = 0
  · rw [if_pos halign, if_pos (by omega)]
    have hcount : ((bs.buffer.drop (bs.bitNum / 8)).take ((n + 7) / 8)).length = (n + 7) / 8 :=
      List.length_take_of_le (by rw [List.length_drop]; omega)
    refine ⟨_, rfl, ?_, fun k hk => ?_⟩
    · rw [List.length_append, List.length_drop, hcount]
      omega
    · rw [bitAt_append_left (by omega), bitAt_take (by omega), bitAt_drop,
        show 8 * (bs.bitNum / 8) = bs.bitNum by omega]
  · rw [if_neg halign]
    obtain ⟨out, heq, hlength, hout⟩ := readBitwise_overwrite hread hsize
      (by omega : 0 + n ≤ 8 * data.length)
    refine ⟨out, heq, hlength, fun k hk => ?_⟩
    rw [hout, ← Nat.zero_add k, overwrite_apply hk, Nat.zero_add]

theorem readFlag_bit (hread : bs.bitNum + 1 ≤ bs.maxReadBitNum)
    (hsize : bs.maxReadBitNum ≤ 8 * bs.buffer.length) :
    bs.readFlag = some (bitAt bs.buffer bs.bitNum, { bs with bitNum := bs.bitNum + 1 }) := by
  have hbyte : bs.buffer[bs.bitNum / 8]? = some _ :=
    List.getElem?_eq_getElem (by omega : bs.bitNum / 8 < bs.buffer.length)
  rw [readFlag, if_neg (by omega), hbyte, bitAt_eq hbyte]
  rfl

/-- An integer of few bits has no other bits. -/
theorem eq_of_bits {value' : U32} (hlt : value.toNat < 2 ^ n)
    (hbits : ∀ k, value'.getLsbD k = (decide (k < n) && value.getLsbD k)) : value' = value := by
  refine BitVec.eq_of_getLsbD_eq fun k _ => (hbits k).trans ?_
  by_cases hk : k < n
  · rw [decide_eq_true hk, Bool.true_and]
  · have hpow : value.toNat < 2 ^ k :=
      hlt.trans_le (Nat.pow_le_pow_right (by decide) (Nat.not_lt.mp hk))
    rw [decide_eq_false hk, Bool.false_and]
    exact (Nat.testBit_lt_two_pow hpow).symm

/-- A range is read back if the buffer has the bits of the value there. -/
theorem readsBack_of_bits (hsized : bs.Sized) (hvalid : w.Valid)
    (hfits : pos + w.count ≤ bs.maxWriteBitNum)
    (hbits : ∀ k < w.count, bitAt bs.buffer (pos + k) = w.source k) : bs.ReadsBack pos w := by
  have hread : pos + w.count ≤ bs.maxReadBitNum := hfits.trans hsized.write
  have hint (value : U32) (n : ℕ) (hn : n ≤ 32) (hlt : value.toNat < 2 ^ n)
      (hread : pos + n ≤ bs.maxReadBitNum)
      (hbits : ∀ k < n, bitAt bs.buffer (pos + k) = value.getLsbD k) :
      ∃ bs', readInt { bs with bitNum := pos } n = some (value, bs') := by
    obtain ⟨value', heq, hvalue⟩ := @readInt_bits { bs with bitNum := pos } n hread hsized.read hn
    obtain rfl : value' = value := by
      refine eq_of_bits hlt fun k => (hvalue k).trans ?_
      by_cases hk : k < n
      · rw [hbits k hk]
      · rw [decide_eq_false hk, Bool.false_and, Bool.false_and]
    exact ⟨_, heq⟩
  cases w with
  | int value n => exact hint value n hvalid.2.1 hvalid.2.2 hread hbits
  | flag val =>
    have hflag := @readFlag_bit { bs with bitNum := pos } hread hsized.read
    have hval : bitAt bs.buffer pos = val := hbits 0 Nat.one_pos
    rw [← hval]
    exact ⟨_, hflag⟩
  | bits n data =>
    intro dest hdest
    obtain ⟨out, heq, hlength, hout⟩ :=
      @readBits_overwrite { bs with bitNum := pos } n dest hread hsized.read hdest
    exact ⟨out, _, heq, hlength, fun k hk => (hout k hk).trans (hbits k hk)⟩
  | intAt value n _ => exact hint value n hvalid.2.1 hvalid.2.2 hread hbits

/-! ### Sequences -/

theorem Sized.congr {bytes : List UInt8} (h : bs.Sized) (hlength : bytes.length = bs.buffer.length)
    (pos : ℕ) : Sized { bs with buffer := bytes, bitNum := pos } :=
  ⟨h.write, by rw [hlength]; exact h.read⟩

theorem Fit.tail {bytes : List UInt8} (h : bs.Fit (w :: ws)) :
    Fit { bs with buffer := bytes, bitNum := w.next bs.bitNum } ws :=
  fun r hr => h r (List.mem_cons_of_mem _ hr)

/-- In a sequence that fits, every call is framed exactly if all of them find what permits it. -/
theorem framed_run_iff (hsized : bs.Sized) (hfit : bs.Fit ws) :
    Run step Framed bs ws bs' ↔ Run step Clear bs ws bs' := by
  induction ws generalizing bs with
  | nil => constructor <;> intro h <;> cases h <;> exact .nil _
  | cons w ws ih =>
    obtain ⟨hvalid, hroom⟩ := hfit _ List.mem_cons_self
    obtain ⟨bytes, heq, hlength, -⟩ := step_eq hsized hvalid hroom
    have hrest : ∀ t, bs.step w = some t →
        (Run step Framed t ws bs' ↔ Run step Clear t ws bs') := by
      intro t ht
      obtain rfl := Option.some.inj (heq.symm.trans ht)
      exact ih (hsized.congr hlength _) hfit.tail
    constructor
    · intro h
      cases h with
      | cons allowed taken rest =>
        exact .cons ((framed_iff hsized hvalid hroom).mp allowed) taken ((hrest _ taken).mp rest)
    · intro h
      cases h with
      | cons allowed taken rest =>
        exact .cons ((framed_iff hsized hvalid hroom).mpr allowed) taken ((hrest _ taken).mpr rest)

/-- The first step of a run in which every call is framed. -/
theorem framed_cons (hsized : bs.Sized) (hfit : bs.Fit (w :: ws))
    (h : Run step Framed bs (w :: ws) bs') :
    ∃ bytes, bytes.length = bs.buffer.length ∧
      bitAt bytes = overwrite (w.first bs.bitNum) w.count w.source (bitAt bs.buffer) ∧
      Run step Framed { bs with buffer := bytes, bitNum := w.next bs.bitNum } ws bs' := by
  obtain ⟨hvalid, hroom⟩ := hfit _ List.mem_cons_self
  obtain ⟨bytes, heq, hlength, -⟩ := step_eq hsized hvalid hroom
  cases h with
  | cons allowed taken rest =>
    obtain rfl := Option.some.inj (heq.symm.trans taken)
    exact ⟨bytes, hlength, allowed _ taken, rest⟩

/-- Bits that no call writes to stay, and so do the limits. -/
theorem unchanged_of_run (hsized : bs.Sized) (hfit : bs.Fit ws) (h : Run step Framed bs ws bs') :
    bs'.Sized ∧ bs'.maxWriteBitNum = bs.maxWriteBitNum ∧
      ∀ i, (∀ r ∈ ranges bs.bitNum ws, i < r.1 ∨ r.1 + r.2.count ≤ i) →
        bitAt bs'.buffer i = bitAt bs.buffer i := by
  induction ws generalizing bs with
  | nil =>
    cases h
    exact ⟨hsized, rfl, fun _ _ => rfl⟩
  | cons w ws ih =>
    obtain ⟨bytes, hlength, hbits, hrest⟩ := framed_cons hsized hfit h
    obtain ⟨hsized', hmax, hstay⟩ := ih (hsized.congr hlength _) hfit.tail hrest
    refine ⟨hsized', hmax, fun i hout => ?_⟩
    have hhead := hout _ List.mem_cons_self
    rw [hstay i fun r hr => hout r (List.mem_cons_of_mem _ hr)]
    exact (congrFun hbits i).trans (overwrite_of_outside hhead)

/-- What no later call writes to is read back at the end. -/
theorem readsBack_of_run {before after : List (ℕ × Write)} {r : ℕ × Write} (hsized : bs.Sized)
    (hfit : bs.Fit ws) (h : Run step Framed bs ws bs')
    (hsplit : ranges bs.bitNum ws = before ++ r :: after) (hapart : ∀ r' ∈ after, Apart r r') :
    bs'.ReadsBack r.1 r.2 := by
  induction ws generalizing bs before with
  | nil => exact absurd hsplit.symm (List.append_ne_nil_of_right_ne_nil before (List.cons_ne_nil r after))
  | cons w ws ih =>
    obtain ⟨bytes, hlength, hbits, hrest⟩ := framed_cons hsized hfit h
    have hsized₁ := hsized.congr hlength (w.next bs.bitNum)
    rw [ranges] at hsplit
    cases before with
    | nil =>
      obtain ⟨rfl, rfl⟩ := List.cons.inj hsplit
      obtain ⟨hvalid, hroom⟩ := hfit _ List.mem_cons_self
      obtain ⟨hsized', hmax, hstay⟩ := unchanged_of_run hsized₁ hfit.tail hrest
      refine readsBack_of_bits hsized' hvalid (hmax ▸ hroom) fun k hk => ?_
      have hlt : k < w.count := hk
      have hout : ∀ r' ∈ ranges (w.next bs.bitNum) ws,
          w.first bs.bitNum + k < r'.1 ∨ r'.1 + r'.2.count ≤ w.first bs.bitNum + k := by
        intro r' hr'
        have hdisjoint : w.first bs.bitNum + w.count ≤ r'.1 ∨
          r'.1 + r'.2.count ≤ w.first bs.bitNum := hapart r' hr'
        omega
      rw [hstay _ hout]
      exact (congrFun hbits _).trans (overwrite_apply hk)
    | cons r₁ before =>
      exact ih hsized₁ hfit.tail hrest (List.cons.inj hsplit).2

/-- In a sequence of calls that fit, every one writes its range and nothing else, and what was
written is read back, exactly if all calls that join find nothing set but what they set, and all
that copy find the end of their last byte as it is in their source. -/
theorem writes_roundTrip_iff (hsized : bs.Sized) (hfit : bs.Fit ws) :
    bs.RoundTrips ws ↔ ∃ bs', Run step Clear bs ws bs' := by
  constructor
  · rintro ⟨bs', hrun, -⟩
    exact ⟨bs', (framed_run_iff hsized hfit).mp hrun⟩
  · rintro ⟨bs', hrun⟩
    have hframed := (framed_run_iff hsized hfit).mpr hrun
    exact ⟨bs', hframed, fun before r after hsplit hapart =>
      readsBack_of_run hsized hfit hframed hsplit hapart⟩

/-- An integer, a flag and half a byte in a buffer of zeros, of which the flag is set again. -/
theorem writes_roundTrip_iff_zeros :
    RoundTrips (newBitStream [0, 0, 0]) [.int 5 3, .flag true, .bits 4 [10], .intAt 1 1 3] := by
  have hfit : Fit (newBitStream [0, 0, 0]) [.int 5 3, .flag true, .bits 4 [10], .intAt 1 1 3] := by
    unfold Fit
    decide
  refine (writes_roundTrip_iff ⟨le_rfl, le_rfl⟩ hfit).mpr ⟨⟨[173, 0, 0], 8, 24, 24, false, false⟩, ?_⟩
  refine .cons (t := ⟨[5, 0, 0], 3, 24, 24, false, false⟩) (by unfold Clear; decide) rfl ?_
  refine .cons (t := ⟨[13, 0, 0], 4, 24, 24, false, false⟩) (by unfold Clear; decide) rfl ?_
  refine .cons (t := ⟨[173, 0, 0], 8, 24, 24, false, false⟩) (by unfold Clear; decide) rfl ?_
  exact .cons (by unfold Clear; decide) rfl (.nil _)

/-- A zero is written to a byte that is not zero. -/
theorem ones_stay : ¬ ∀ (bs : BitStream) (ws : List Write), bs.Sized → bs.Fit ws →
    bs.RoundTrips ws := by
  intro hclaim
  have hfit : Fit (newBitStream [255]) [.int 0 8] := by
    unfold Fit
    decide
  obtain ⟨bs', hrun⟩ := (writes_roundTrip_iff ⟨le_rfl, le_rfl⟩ hfit).mp
    (hclaim _ _ ⟨le_rfl, le_rfl⟩ hfit)
  cases hrun with
  | cons allowed _ _ => exact absurd (allowed 0 (by decide) rfl) (by decide)

/-! ### Signed integers -/

/-- The slip: what is added to a negative value is half of what should be. -/
def writeSignedInt (bs : BitStream) (value : BitVec 32) (bitCount : ℕ) : Option BitStream :=
  if bitCount = 0 then some bs
  else
    let uValue := if value.toInt < 0 then value + (1 : BitVec 32) <<< (bitCount - 1) else value
    bs.writeInt uValue bitCount

def readSignedInt (bs : BitStream) (bitCount : ℕ) : Option (BitVec 32 × BitStream) :=
  if bitCount = 0 then some (0, bs)
  else (bs.readInt bitCount).map fun (uValue, bs) =>
    let maxVal := (1 : BitVec 32) <<< (bitCount - 1)
    (if uValue.toInt ≥ maxVal.toInt then uValue - maxVal <<< 1 else uValue, bs)

/-- A signed integer is read where it has been written. -/
def SignedRoundTrips (bs : BitStream) (value : BitVec 32) (bitCount : ℕ) : Prop :=
  ∃ bs' bs'', bs.writeSignedInt value bitCount = some bs' ∧
    readSignedInt { bs' with bitNum := bs.bitNum } bitCount = some (value, bs'')

theorem maxVal_toNat (hn : n < 32) : ((1 : BitVec 32) <<< n).toNat = 2 ^ n := by
  rw [BitVec.toNat_shiftLeft, show (1 : BitVec 32).toNat = 1 from rfl, Nat.shiftLeft_eq, Nat.one_mul]
  exact Nat.mod_eq_of_lt (Nat.pow_lt_pow_right (by decide) hn)

/-- Of the lower half of the range everything is read as it is. -/
theorem decode_eq (hn : n < 32) (hlt : value.toNat < 2 ^ n) :
    (if value.toInt ≥ ((1 : BitVec 32) <<< n).toInt then value - (1 : BitVec 32) <<< n <<< 1
      else value) = value := by
  by_cases hwide : n = 31
  · -- Twice the greatest value is zero in 32 bits.
    subst hwide
    split_ifs
    · exact BitVec.sub_zero value
    · rfl
  · have hpow : 2 ^ n ≤ 2 ^ 30 := Nat.pow_le_pow_right (by decide) (by omega)
    have hmax : ((1 : BitVec 32) <<< n).toInt = 2 ^ n := by
      rw [BitVec.toInt_eq_toNat_of_lt (by rw [maxVal_toNat hn]; omega), maxVal_toNat hn]
      norm_cast
    have hvalue : value.toInt = value.toNat := BitVec.toInt_eq_toNat_of_lt (by omega)
    rw [if_neg]
    rw [hmax, hvalue]
    exact_mod_cast Nat.not_le.mpr hlt

/-- What a negative value is written as. -/
theorem negative_toNat (hn : n < 32) (hneg : value.toInt < 0) (hlow : -2 ^ n ≤ value.toInt) :
    ((value + (1 : BitVec 32) <<< n).toNat : ℤ) = value.toInt + 2 ^ n := by
  have hpow : 2 ^ n ≤ 2 ^ 31 := Nat.pow_le_pow_right (by decide) (by omega)
  have hint : value.toInt = value.toNat - 2 ^ 32 := by
    have hcond := BitVec.toInt_eq_toNat_cond value
    split_ifs at hcond
    · omega
    · exact hcond
  rw [BitVec.toNat_add, maxVal_toNat hn]
  have hcast : ((2 ^ n : ℕ) : ℤ) = 2 ^ n := by norm_cast
  omega

/-- In a buffer of zeros an integer is written and read back. -/
theorem zeroed_roundTrip (hsized : bs.Sized) (hzero : ∀ byte ∈ bs.buffer, byte = 0) (hn : n ≤ 32)
    (hfits : bs.bitNum + n ≤ bs.maxWriteBitNum) (hlt : value.toNat < 2 ^ n) :
    ∃ bs' bs'', bs.writeInt value n = some bs' ∧
      readInt { bs' with bitNum := bs.bitNum } n = some (value, bs'') := by
  obtain ⟨bytes, hwrite, hlength, hbits⟩ :=
    writeInt_join hfits (hsized.write.trans hsized.read) value
  have hsize : bs.maxReadBitNum ≤ 8 * bytes.length := by
    rw [hlength]
    exact hsized.read
  obtain ⟨value', hread, hvalue⟩ := @readInt_bits { bs with buffer := bytes } n
    (hfits.trans hsized.write) hsize hn
  obtain rfl : value' = value := by
    refine eq_of_bits hlt fun k => (hvalue k).trans ?_
    by_cases hk : k < n
    · dsimp only
      rw [hbits, joinBits_apply hk, bitAt_of_forall_zero hzero, Bool.false_or]
    · rw [decide_eq_false hk, Bool.false_and, Bool.false_and]
  exact ⟨_, _, hwrite, hread⟩

/-- A signed integer is read back exactly if it is not negative. -/
theorem signed_roundTrips_iff (hsized : bs.Sized) (hzero : ∀ byte ∈ bs.buffer, byte = 0)
    (hn : 1 ≤ n) (hn' : n ≤ 32) (hfits : bs.bitNum + n ≤ bs.maxWriteBitNum)
    (hlow : -2 ^ (n - 1) ≤ value.toInt) (hhigh : value.toInt < 2 ^ (n - 1)) :
    bs.SignedRoundTrips value n ↔ 0 ≤ value.toInt := by
  obtain ⟨n, rfl⟩ : ∃ m, n = m + 1 := ⟨n - 1, by omega⟩
  rw [Nat.add_sub_cancel] at hlow hhigh
  obtain ⟨uValue, huValue⟩ : ∃ uValue, uValue =
      if value.toInt < 0 then value + (1 : BitVec 32) <<< n else value := ⟨_, rfl⟩
  have hcast : ((2 ^ n : ℕ) : ℤ) = 2 ^ n := by norm_cast
  have hhalf : uValue.toNat < 2 ^ n := by
    by_cases hneg : value.toInt < 0
    · have hnat := negative_toNat (by omega) hneg hlow
      rw [huValue, if_pos hneg]
      omega
    · have hint := BitVec.toInt_eq_toNat_cond value
      have hvalue := value.isLt
      rw [huValue, if_neg hneg]
      split_ifs at hint <;> omega
  have hlt : uValue.toNat < 2 ^ (n + 1) := hhalf.trans (Nat.pow_lt_pow_right (by decide) (by omega))
  obtain ⟨bs₁, bs₂, hwrite, hread⟩ := zeroed_roundTrip hsized hzero hn' hfits hlt
  have hsigned : bs.writeSignedInt value (n + 1) = some bs₁ := by
    rw [writeSignedInt, if_neg (Nat.succ_ne_zero n), Nat.add_sub_cancel, ← huValue]
    exact hwrite
  have hdecoded : readSignedInt { bs₁ with bitNum := bs.bitNum } (n + 1) = some (uValue, bs₂) := by
    rw [readSignedInt, if_neg (Nat.succ_ne_zero n), hread]
    exact congrArg (fun value => some (value, bs₂)) (decode_eq (by omega) hhalf)
  constructor
  · rintro ⟨bs', bs'', hwrite', hread'⟩
    obtain rfl := Option.some.inj (hsigned.symm.trans hwrite')
    obtain ⟨hsame, -⟩ := Prod.mk.inj (Option.some.inj (hdecoded.symm.trans hread'))
    by_contra hneg
    have hnat := negative_toNat (by omega) (not_le.mp hneg) hlow
    rw [if_pos (not_le.mp hneg)] at huValue
    rw [← huValue, hsame] at hnat
    have hpow : 2 ^ n ≤ 2 ^ 31 := Nat.pow_le_pow_right (by decide) (by omega)
    have hint := BitVec.toInt_eq_toNat_cond value
    split_ifs at hint <;> omega
  · intro hnonneg
    rw [if_neg (not_lt.mpr hnonneg)] at huValue
    exact ⟨bs₁, bs₂, hsigned, huValue ▸ hdecoded⟩

/-- Five in four bits, from the third bit on. -/
theorem signed_roundTrips_iff_five :
    SignedRoundTrips ⟨[0, 0], 2, 16, 16, false, false⟩ 5 4 := by
  have hvalue : (5 : BitVec 32).toInt = 5 := by decide
  have hlow : -2 ^ (4 - 1) ≤ (5 : BitVec 32).toInt := by norm_num [hvalue]
  have hhigh : (5 : BitVec 32).toInt < 2 ^ (4 - 1) := by norm_num [hvalue]
  have hzero : ∀ byte ∈ ([0, 0] : List UInt8), byte = 0 := by simp
  exact (signed_roundTrips_iff ⟨le_rfl, le_rfl⟩ hzero (by decide) (by decide) (by decide) hlow
    hhigh).mpr (by decide)

/-- Minus one is read as seven. -/
theorem minus_one_lost : ¬ ∀ (bs : BitStream) (value : BitVec 32) (n : ℕ), bs.Sized →
    (∀ byte ∈ bs.buffer, byte = 0) → 1 ≤ n → n ≤ 32 → bs.bitNum + n ≤ bs.maxWriteBitNum →
    -2 ^ (n - 1) ≤ value.toInt → value.toInt < 2 ^ (n - 1) → bs.SignedRoundTrips value n := by
  intro hclaim
  have hsized : Sized (newBitStream [0]) := ⟨le_rfl, le_rfl⟩
  have hminus : (-1 : BitVec 32).toInt = -1 := by decide
  have hlow : -2 ^ (4 - 1) ≤ (-1 : BitVec 32).toInt := by norm_num [hminus]
  have hhigh : (-1 : BitVec 32).toInt < 2 ^ (4 - 1) := by norm_num [hminus]
  have hzero : ∀ byte ∈ ([0] : List UInt8), byte = 0 := by simp
  obtain ⟨bs', bs'', hwrite, hread⟩ := hclaim (newBitStream [0]) (-1) 4 hsized hzero (by decide)
    (by decide) (by decide) hlow hhigh
  have hwritten : writeSignedInt (newBitStream [0]) (-1) 4 =
      some ⟨[7], 4, 8, 8, false, false⟩ := rfl
  obtain rfl := Option.some.inj (hwritten.symm.trans hwrite)
  have hvalue : (readSignedInt ⟨[7], 0, 8, 8, false, false⟩ 4).map Prod.fst = some (-1) :=
    congrArg (Option.map Prod.fst) hread
  exact absurd hvalue (by decide)

end BitStream

end TNL.GoRoot
