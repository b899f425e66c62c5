import TNL.Journal.Journal

/-!
# Playing a journal back

After every call the file holds the bits of all calls behind their count, and the
write stream those of the last byte. Playback reads the calls again as long as an
index is read with the bits it was written with and leads to its own entry.
-/
namespace TNL
open BitStream

/-- A stream of its own memory that has no error and no string table. -/
structure TypedStream.Plain (s : TypedStream) : Prop where
  growable : s.bits.Growable
  error : s.bits.error = false
  mStringTable : s.mStringTable = none

/-- What is written to a stream is read back from any stream that is to read it. -/
def JournalFunctor.RoundTrips (f : JournalFunctor) (args : f.Args) : Prop :=
  ∀ w : TypedStream, w.Plain → (f.decl.write w args).Plain ∧
    TypedStream.ReadsBack w (f.decl.write w args) f.decl.read args True

/-- The arguments of the call survive a stream. -/
def JournalCall.RoundTrips {vector : List JournalEntryRecord} (call : JournalCall vector) : Prop :=
  vector[call.entry].mFunctor.RoundTrips call.args

namespace JournalFile

variable {file : JournalFile} {position i : ℕ} {bits : List Bool}

theorem fwrite_bits : (file.fwrite position bits).bits i =
    if position * 8 ≤ i then bits.getD (i - position * 8) (file.bits i) else file.bits i := rfl

theorem fwrite_before (h : i < position * 8) : (file.fwrite position bits).bits i = file.bits i :=
  if_neg (Nat.not_le.mpr h)

theorem fwrite_inside (h : i < bits.length) :
    (file.fwrite position bits).bits (position * 8 + i) = bits[i] := by
  have hle : position * 8 ≤ position * 8 + i := Nat.le_add_right ..
  rw [fwrite_bits, if_pos hle, Nat.add_sub_cancel_left, List.getD_eq_getElem _ _ h]

end JournalFile

namespace Journal

variable {j : Journal} {w : TypedStream} {bits code : List Bool}

/-- The journal has the bits of the calls so far in its file. -/
structure Recorded (j : Journal) (bits : List Bool) : Prop where
  mode : j.mCurrentMode = .Record
  plain : j.mWriteStream.Plain
  total : j.totalBits = 32 + bits.length
  pending : j.mWriteStream.bits.bitNum < 8
  behind : 4 ≤ j.mWritePosition
  stored : ∀ i < bits.length, j.mJournalFile.bits (32 + i) = bits.getD i false
  carried : ∀ i < j.mWriteStream.bits.bitNum,
    j.mWriteStream.bits.buffer i = j.mJournalFile.bits (j.mWritePosition * 8 + i)
  header : bits ≠ [] → ∀ i < 32,
    j.mJournalFile.bits i = ((32 + bits.length) % 2 ^ 32).testBit i
  size : bits ≠ [] → 32 + bits.length ≤ j.mJournalFile.size * 8

theorem record_recorded (memory : ℕ → Bool) (chars : ℕ → UInt8) :
    Recorded (start memory chars).record [] where
  mode := rfl
  plain := ⟨⟨rfl, le_rfl, Nat.zero_le _⟩, rfl, rfl⟩
  total := rfl
  pending := show 0 < 8 by decide
  behind := le_rfl
  stored i hi := absurd hi (Nat.not_lt_zero i)
  carried i hi := absurd hi (Nat.not_lt_zero i)
  header h := absurd rfl h
  size h := absurd rfl h

/-- The file after a call has the count, what was there before, and the stream's bytes. -/
def synced (j : Journal) : JournalFile :=
  (j.mJournalFile.fwrite 0 (intBits (j.totalBits % 2 ^ 32) 32)).fwrite j.mWritePosition
    (j.mWriteStream.bits.window 0 (getBytePosition j.mWriteStream * 8))

theorem synced_header (hbehind : 4 ≤ j.mWritePosition) {i : ℕ} (hi : i < 32) :
    j.synced.bits i = (j.totalBits % 2 ^ 32).testBit i := by
  have hin : i < (intBits (j.totalBits % 2 ^ 32) 32).length := by rwa [intBits_length]
  have hfirst : (j.mJournalFile.fwrite 0 (intBits (j.totalBits % 2 ^ 32) 32)).bits (0 * 8 + i) =
      (intBits (j.totalBits % 2 ^ 32) 32)[i] := JournalFile.fwrite_inside hin
  rw [Nat.zero_mul, Nat.zero_add] at hfirst
  rw [synced, JournalFile.fwrite_before (by omega), hfirst]
  simp [intBits]

theorem synced_before {i : ℕ} (hlow : 32 ≤ i) (hi : i < j.mWritePosition * 8) :
    j.synced.bits i = j.mJournalFile.bits i := by
  rw [synced, JournalFile.fwrite_before hi, JournalFile.fwrite_bits, if_pos (by omega),
    List.getD_eq_default]
  rw [intBits_length]
  omega

theorem synced_stream {i : ℕ} (hi : i < getBytePosition j.mWriteStream * 8) :
    j.synced.bits (j.mWritePosition * 8 + i) = j.mWriteStream.bits.buffer i := by
  have hin : i < (j.mWriteStream.bits.window 0 (getBytePosition j.mWriteStream * 8)).length := by
    rwa [window_length]
  rw [synced, JournalFile.fwrite_inside hin]
  simp [window]

theorem synced_size : j.mWritePosition + getBytePosition j.mWriteStream ≤ j.synced.size := by
  rw [synced, JournalFile.fwrite, window_length, Nat.mul_div_cancel _ (by decide)]
  exact le_max_right ..

/-- Where the stream goes on after its bytes are in the file. -/
structure Carried (j j' : Journal) : Prop where
  mode : j'.mCurrentMode = j.mCurrentMode
  file : j'.mJournalFile = j.synced
  total : j'.totalBits = j.totalBits
  pending : j'.mWriteStream.bits.bitNum < 8
  behind : j.mWritePosition ≤ j'.mWritePosition
  buffer : ∀ i < j'.mWriteStream.bits.bitNum,
    j'.mWriteStream.bits.buffer i = j.synced.bits (j'.mWritePosition * 8 + i)

theorem moveByte_plain (hw : w.Plain) {byte newBitPosition : ℕ}
    (h : newBitPosition ≤ w.bits.bitNum) : (moveByte w byte newBitPosition).Plain where
  growable := ⟨hw.growable.owned, hw.growable.size_le, h.trans hw.growable.position_le⟩
  error := hw.error
  mStringTable := hw.mStringTable

theorem syncWriteStream_plain (hplain : j.mWriteStream.Plain) :
    (syncWriteStream j).mWriteStream.Plain := by
  simp only [syncWriteStream]
  split_ifs with hnone hfull
  · exact hplain
  · refine moveByte_plain hplain ?_
    rw [getBytePosition] at hnone
    omega
  · exact ⟨⟨hplain.growable.owned, hplain.growable.size_le, Nat.zero_le _⟩, hplain.error,
      hplain.mStringTable⟩

theorem syncWriteStream_mStringBuffer : (syncWriteStream j).mWriteStream.strings.mStringBuffer =
    j.mWriteStream.strings.mStringBuffer := by
  simp only [syncWriteStream]
  split_ifs <;> rfl

theorem syncWriteStream_carried (hsome : 0 < j.mWriteStream.bits.bitNum) :
    Carried j (syncWriteStream j) := by
  have hbytes : getBytePosition j.mWriteStream = (j.mWriteStream.bits.bitNum + 7) / 8 := rfl
  have hnone : getBytePosition j.mWriteStream ≠ 0 := by omega
  have hmod : (j.totalBits % 2 ^ 32) % 8 = j.mWriteStream.bits.bitNum % 8 := by
    rw [Nat.mod_mod_of_dvd _ (by decide), totalBits]
    omega
  by_cases hfull : (j.totalBits % 2 ^ 32) % 8 ≠ 0
  · have hsync : syncWriteStream j = { j with
        mJournalFile := j.synced
        mWriteStream := moveByte j.mWriteStream (getBytePosition j.mWriteStream - 1)
          ((j.totalBits % 2 ^ 32) % 8)
        mWritePosition := j.mWritePosition + (getBytePosition j.mWriteStream - 1) } := by
      rw [syncWriteStream, if_neg hnone]
      exact if_pos hfull
    rw [hsync, hmod]
    refine ⟨rfl, rfl, ?_, Nat.mod_lt _ (by decide), Nat.le_add_right .., fun i hi => ?_⟩
    · change (j.mWritePosition + (getBytePosition j.mWriteStream - 1)) * 8 +
        j.mWriteStream.bits.bitNum % 8 = j.mWritePosition * 8 + j.mWriteStream.bits.bitNum
      omega
    · have hbit : i < j.mWriteStream.bits.bitNum % 8 := hi
      have hin : (getBytePosition j.mWriteStream - 1) * 8 + i <
          getBytePosition j.mWriteStream * 8 := by omega
      have hplace : (j.mWritePosition + (getBytePosition j.mWriteStream - 1)) * 8 + i =
          j.mWritePosition * 8 + ((getBytePosition j.mWriteStream - 1) * 8 + i) := by omega
      rw [hplace, synced_stream hin]
      exact if_pos (by omega)
  · have hsync : syncWriteStream j = { j with
        mJournalFile := j.synced
        mWriteStream := j.mWriteStream.withBits (j.mWriteStream.bits.setBitPosition 0)
        mWritePosition := j.mWritePosition + getBytePosition j.mWriteStream } := by
      rw [syncWriteStream, if_neg hnone]
      exact if_neg hfull
    rw [hsync]
    refine ⟨rfl, rfl, ?_, Nat.succ_pos 7, Nat.le_add_right ..,
      fun i hi => absurd hi (Nat.not_lt_zero i)⟩
    change (j.mWritePosition + getBytePosition j.mWriteStream) * 8 + 0 =
      j.mWritePosition * 8 + j.mWriteStream.bits.bitNum
    omega

/-- `k` is `j` with more bits in its stream. -/
structure Wrote (j : Journal) (code : List Bool) (k : Journal) : Prop where
  mode : k.mCurrentMode = j.mCurrentMode
  file : k.mJournalFile = j.mJournalFile
  position : k.mWritePosition = j.mWritePosition
  plain : k.mWriteStream.Plain
  stored : j.mWriteStream.bits.Stored code k.mWriteStream.bits

variable {k : Journal}

theorem Wrote.totalBits (hk : Wrote j code k) : k.totalBits = j.totalBits + code.length := by
  rw [Journal.totalBits, Journal.totalBits, hk.position, hk.stored.position, Nat.add_assoc]

/-- The file has the bits of the calls before and of this one. -/
theorem Recorded.synced_stored (h : Recorded j bits) (hk : Wrote j code k) {i : ℕ}
    (hi : i < (bits ++ code).length) :
    k.synced.bits (32 + i) = (bits ++ code).getD i false := by
  have hbehind := h.behind
  have hposition := hk.position
  have hend : k.mWritePosition * 8 + k.mWriteStream.bits.bitNum = 32 + (bits ++ code).length := by
    have htotal := hk.totalBits
    rw [h.total, Nat.add_assoc, ← List.length_append] at htotal
    exact htotal
  have hstart : j.mWritePosition * 8 + j.mWriteStream.bits.bitNum = 32 + bits.length := h.total
  rw [List.length_append] at hi hend
  by_cases hold : 32 + i < k.mWritePosition * 8
  · rw [synced_before (by omega) hold, hk.file, h.stored i (by omega),
      List.getD_append _ _ _ _ (by omega)]
  · -- The bit comes from the stream, which has some bits of the calls before.
    have hbytes : getBytePosition k.mWriteStream = (k.mWriteStream.bits.bitNum + 7) / 8 := rfl
    obtain ⟨n, hn⟩ := Nat.exists_eq_add_of_le (Nat.not_lt.mp hold)
    rw [hn, synced_stream (by omega), hk.stored.buffer, store_apply]
    by_cases hpending : j.mWriteStream.bits.bitNum ≤ n
    · rw [if_pos hpending, List.getD_append_right _ _ _ _ (by omega),
        List.getD_eq_getElem _ _ (by omega), List.getD_eq_getElem _ _ (by omega)]
      congr 1
      omega
    · rw [if_neg hpending, h.carried n (by omega), ← hposition, ← hn, h.stored i (by omega),
        List.getD_append _ _ _ _ (by omega)]

/-- A call whose bits are behind those in the stream gets them behind those in the file. -/
theorem Recorded.sync (h : Recorded j bits) (hk : Wrote j code k) :
    Recorded (syncWriteStream k) (bits ++ code) := by
  have htotal : k.totalBits = 32 + (bits ++ code).length := by
    rw [hk.totalBits, h.total, Nat.add_assoc, List.length_append]
  by_cases hnone : k.mWriteStream.bits.bitNum = 0
  · -- There is nothing in the stream, and the last call ended with a byte.
    have hposition := hk.stored.position
    have hcode : code = [] := List.eq_nil_of_length_eq_zero (by omega)
    have hsync : syncWriteStream k = k := if_pos (by rw [getBytePosition, hnone])
    subst hcode
    rw [List.append_nil] at htotal ⊢
    rw [hsync]
    refine ⟨hk.mode.trans h.mode, hk.plain, htotal, hnone ▸ Nat.succ_pos 7,
      hk.position ▸ h.behind, ?_, fun i hi => absurd (hnone ▸ hi) (Nat.not_lt_zero i), ?_, ?_⟩
    · rw [hk.file]
      exact h.stored
    · rw [hk.file]
      exact h.header
    · rw [hk.file]
      exact h.size
  · have hcarried := syncWriteStream_carried (Nat.pos_of_ne_zero hnone)
    have hbehind : 4 ≤ k.mWritePosition := hk.position ▸ h.behind
    have hbytes : getBytePosition k.mWriteStream = (k.mWriteStream.bits.bitNum + 7) / 8 := rfl
    refine ⟨hcarried.mode.trans (hk.mode.trans h.mode), syncWriteStream_plain hk.plain,
      hcarried.total.trans htotal, hcarried.pending, hbehind.trans hcarried.behind,
      fun i hi => ?_, ?_, fun _ i hi => ?_, fun _ => ?_⟩
    · rw [hcarried.file]
      exact h.synced_stored hk hi
    · rw [hcarried.file]
      exact hcarried.buffer
    · rw [hcarried.file, synced_header hbehind hi, htotal]
    · have hsize := synced_size (j := k)
      have hend : k.mWritePosition * 8 + k.mWriteStream.bits.bitNum = _ := htotal
      rw [hcarried.file]
      omega

theorem u32_sub_zero (x : U32) : x - 0 = x := BitVec.sub_zero x

theorem writeRangedU32_index {i n : ℕ} (hi : i < n) (hn : n < 2 ^ 31) :
    w.writeRangedU32 (BitVec.ofNat 32 i) 0 (BitVec.ofNat 32 n - 1) =
      w.writeInt i (indexBits n) := by
  have hrange : BitVec.ofNat 32 n - 1 - 0 + 1 = BitVec.ofNat 32 n := by
    rw [u32_sub_zero, BitVec.sub_add_cancel]
  have hindex : (BitVec.ofNat 32 i - 0).toNat = i := by
    rw [u32_sub_zero]
    exact toNat_ofNat_of_lt (by omega)
  rw [TypedStream.writeRangedU32, TypedStream.rangeBits, hrange, hindex]
  rfl

theorem readRangedU32_index (r : TypedStream) (n : ℕ) :
    r.readRangedU32 0 (BitVec.ofNat 32 n) =
      (BitVec.ofNat 32 (r.readInt (indexBits (n + 1))).1, (r.readInt (indexBits (n + 1))).2) := by
  have hrange : BitVec.ofNat 32 n - 0 + 1 = BitVec.ofNat 32 (n + 1) := by
    rw [u32_sub_zero, BitVec.ofNat_add]
    rfl
  rw [TypedStream.readRangedU32, TypedStream.rangeBits, hrange]
  exact Prod.ext (BitVec.add_zero _) rfl

theorem writeInt_plain (hw : w.Plain) (value n : ℕ) : (w.writeInt value n).Plain ∧
    w.bits.Stored (intBits value n) (w.writeInt value n).bits := by
  obtain ⟨hgrow, herror⟩ := hw.growable.writeBits (intBits value n)
  exact ⟨⟨hgrow, herror.trans hw.error, hw.mStringTable⟩,
    (writeInt_stored (herror.trans hw.error)).2⟩

variable {vector : List JournalEntryRecord}

/-- The index that a call is recorded with, which is the first of its name. -/
def entryIndex (call : JournalCall vector) : ℕ :=
  vector.findIdx (·.mFunctionName == vector[call.entry].mFunctionName)

theorem entryIndex_le (call : JournalCall vector) : entryIndex call ≤ call.entry := by
  by_contra hgt
  have hnot := List.not_of_lt_findIdx (Nat.not_le.mp hgt)
  simp at hnot

theorem entryIndex_lt (call : JournalCall vector) : entryIndex call < vector.length :=
  (entryIndex_le call).trans_lt call.entry.isLt

/-- Entries of different names are recorded with their own index. -/
theorem entryIndex_eq (hnames : (vector.map (·.mFunctionName)).Nodup)
    (call : JournalCall vector) : entryIndex call = call.entry := by
  refine (List.findIdx_eq call.entry.isLt).mpr ⟨beq_self_eq_true _, fun i hi => ?_⟩
  refine beq_false_of_ne fun hsame => hi.ne ?_
  have hfirst : i < (vector.map (·.mFunctionName)).length := by simp; omega
  have hlast : call.entry.val < (vector.map (·.mFunctionName)).length := by simp
  have hmap : (vector.map (·.mFunctionName))[i] =
      (vector.map (·.mFunctionName))[call.entry.val] ↔ i = call.entry.val :=
    hnames.getElem_inj_iff
  rw [List.getElem_map, List.getElem_map] at hmap
  exact hmap.mp hsame

/-- The stream with a call, before its bytes go to the file. -/
def entryStream (j : Journal) (call : JournalCall vector) : TypedStream :=
  vector[call.entry].mFunctor.decl.write
    (j.mWriteStream.writeInt (entryIndex call) (indexBits vector.length)) call.args

theorem recordCall_eq (hmode : j.mCurrentMode = .Record) (hcount : vector.length < 2 ^ 31)
    (call : JournalCall vector) :
    recordCall vector j call = syncWriteStream { j with mWriteStream := entryStream j call } := by
  have hrecord : recordCall vector j call = j.callEntry vector vector[call.entry].mFunctionName
      fun s => vector[call.entry].mFunctor.decl.write s call.args := rfl
  rw [hrecord, callEntry, hmode]
  have hindex := writeRangedU32_index (w := j.mWriteStream) (entryIndex_lt call) hcount
  simp only [writeEntry, entryIndex] at hindex ⊢
  rw [hindex, ← hmode]
  rfl

/-- A call is recorded as an index and what its functor writes. -/
theorem Recorded.entry (h : Recorded j bits) (hcount : vector.length < 2 ^ 31)
    (call : JournalCall vector) (hplain : (entryStream j call).Plain)
    (hcode : (j.mWriteStream.writeInt (entryIndex call) (indexBits vector.length)).bits.Stored code
      (entryStream j call).bits) :
    Recorded (recordCall vector j call)
      (bits ++ (intBits (entryIndex call) (indexBits vector.length) ++ code)) := by
  have hindex := (writeInt_plain h.plain (entryIndex call) (indexBits vector.length)).2
  rw [recordCall_eq h.mode hcount]
  exact h.sync ⟨rfl, rfl, rfl, hplain, hindex.append hcode⟩

/-- What playback has to do to read a call. -/
def Rereads (w w' : TypedStream) (call : JournalCall vector) (code : List Bool) : Prop :=
  ∀ r more, w.Synced r → r.bits.Ahead (code ++ more) →
    (vector[call.entry].mFunctor.decl.read r).1 = call.args ∧
    w'.Synced (vector[call.entry].mFunctor.decl.read r).2 ∧
    (vector[call.entry].mFunctor.decl.read r).2.bits = r.bits.advanceBitPosition code.length

/-- A call whose arguments survive a stream can be read from its bits. -/
theorem Recorded.call (h : Recorded j bits) (hcount : vector.length < 2 ^ 31)
    {call : JournalCall vector} (hcall : call.RoundTrips) :
    ∃ code, Recorded (recordCall vector j call)
        (bits ++ (intBits (entryIndex call) (indexBits vector.length) ++ code)) ∧
      Rereads j.mWriteStream (recordCall vector j call).mWriteStream call code := by
  have hindex := (writeInt_plain h.plain (entryIndex call) (indexBits vector.length)).1
  obtain ⟨hplain, code, hcode, hread⟩ := hcall _ hindex
  refine ⟨code, h.entry hcount call hplain hcode, fun r more hsynced hahead => ?_⟩
  obtain ⟨hvalue, hrest⟩ := hread r more ⟨hsynced.buffer, hsynced.tables⟩ hahead
  obtain ⟨hsynced', hbits⟩ := hrest trivial
  rw [recordCall_eq h.mode hcount]
  refine ⟨hvalue.mpr trivial, ⟨?_, ?_⟩, hbits⟩
  · rw [syncWriteStream_mStringBuffer]
    exact hsynced'.buffer
  · have htables := hsynced'.tables
    rw [hplain.mStringTable] at htables
    rw [(syncWriteStream_plain (j := { j with mWriteStream := entryStream j call })
      hplain).mStringTable]
    exact htables

theorem newStream_holds (memory : ℕ → Bool) (chars : ℕ → UInt8) :
    (newStream memory chars).strings.mStringBuffer.Holds [] where
  chars i hi := by
    obtain rfl : i = 0 := Nat.le_zero.mp hi
    rfl
  nonzero := List.not_mem_nil
  short := by decide

/-- A journal is about to play back these bits, of which it has as many as the count says. -/
structure Loaded (p : Journal) (bits : List Bool) : Prop where
  mode : p.mCurrentMode = .Playback
  bitNum : p.mReadStream.bits.bitNum = 32
  holds : p.mReadStream.bits.window 32 bits.length = bits
  maxReadBitNum : p.mReadStream.bits.maxReadBitNum = (32 + bits.length) % 2 ^ 32
  mStringBuffer : p.mReadStream.strings.mStringBuffer.Holds []
  mStringTable : p.mReadStream.mStringTable = none

theorem resize_max (s : BitStream) (size : ℕ) :
    (s.resize size).2.maxReadBitNum = s.maxReadBitNum ∧ (s.resize size).2.bitNum = s.bitNum := by
  rw [resize]
  split_ifs <;> exact ⟨rfl, rfl⟩

theorem load_loaded (h : Recorded j bits) (hsome : bits ≠ []) (memory : ℕ → Bool)
    (chars : ℕ → UInt8) : Loaded (load (start memory chars) j.mJournalFile) bits := by
  have hsize := h.size hsome
  have hresize := resize_max (newStream memory chars).bits j.mJournalFile.size
  let s : BitStream := { ((newStream memory chars).bits.resize j.mJournalFile.size).2 with
    buffer := fun i => if i < j.mJournalFile.size * 8 then j.mJournalFile.bits i
      else ((newStream memory chars).bits.resize j.mJournalFile.size).2.buffer i }
  have hbuffer : ∀ i < 32 + bits.length, s.buffer i = j.mJournalFile.bits i :=
    fun i hi => if_pos (by omega)
  have hposition : s.bitNum = 0 := hresize.2
  have hcount : s.window 0 32 = intBits ((32 + bits.length) % 2 ^ 32) 32 := by
    refine List.map_congr_left fun i hi => ?_
    rw [Nat.zero_add, hbuffer i (by have := List.mem_range.mp hi; omega),
      h.header hsome i (List.mem_range.mp hi)]
  have hread : s.read 4 = (some (intBits ((32 + bits.length) % 2 ^ 32) 32), s.setBitPosition 32) := by
    have hmax : s.maxReadBitNum = 12000 := hresize.1
    have hbytes : 4 * 8 % 2 ^ 32 = 32 := by decide
    rw [BitStream.read, hbytes, BitStream.readBits, if_neg (by decide), hmax, hposition,
      if_neg (by decide)]
    exact congrArg (fun bits => (some bits, s.setBitPosition 32)) hcount
  have hload : (load (start memory chars) j.mJournalFile).mReadStream =
      (newStream memory chars).withBits { s.setBitPosition 32 with
        maxReadBitNum := (32 + bits.length) % 2 ^ 32
        maxWriteBitNum := 0 } := by
    have hvalue : bitsInt (intBits ((32 + bits.length) % 2 ^ 32) 32) =
        (32 + bits.length) % 2 ^ 32 := by
      rw [bitsInt_intBits, Nat.mod_mod]
    change (newStream memory chars).withBits { (s.read 4).2 with
      maxReadBitNum := bitsInt ((s.read 4).1.getD [])
      maxWriteBitNum := 0 } = _
    rw [hread, Option.getD_some, hvalue]
  refine ⟨rfl, ?_, ?_, ?_, ?_, ?_⟩ <;> rw [hload]
  · rfl
  · apply List.ext_getElem
    · exact window_length ..
    · intro i hi hi'
      have hbit : s.buffer (32 + i) = bits.getD i false := by
        rw [hbuffer _ (by omega), h.stored i hi']
      simp only [window, List.getElem_map, List.getElem_range]
      rwa [List.getD_eq_getElem _ _ hi'] at hbit
  · rfl
  · exact newStream_holds memory chars
  · rfl

theorem Loaded.ahead {p : Journal} (h : Loaded p bits) (hshort : 32 + bits.length < 2 ^ 32) :
    p.mReadStream.bits.Ahead bits where
  holds := by
    rw [h.bitNum]
    exact h.holds
  inside := by
    rw [h.bitNum, h.maxReadBitNum, Nat.mod_eq_of_lt hshort]
  small := by
    rw [h.maxReadBitNum]
    exact Nat.mod_lt _ (by decide)

/-- Reader and writer begin with the same string. -/
theorem Loaded.synced {p : Journal} (h : Loaded p bits) (memory : ℕ → Bool) (chars : ℕ → UInt8) :
    (start memory chars).record.mWriteStream.Synced p.mReadStream where
  buffer := ⟨[], newStream_holds memory chars, h.mStringBuffer⟩
  tables := by
    rw [h.mStringTable]
    trivial

/-- The journal behind an index, about to read a call of its entry. -/
def behindIndex (p : Journal) (bitCount : ℕ) : TypedStream :=
  p.mReadStream.withBits (p.mReadStream.bits.advanceBitPosition bitCount)

/-- An index leads to the entry at its place. -/
theorem processNextJournalEntry_eq {p : Journal} {more : List Bool} {i : ℕ}
    (hmode : p.mCurrentMode = .Playback) (hi : i < vector.length) (hcount : vector.length < 2 ^ 31)
    (hahead : p.mReadStream.bits.Ahead (intBits i (indexBits (vector.length + 1)) ++ more)) :
    processNextJournalEntry vector p =
      some ([⟨⟨i, hi⟩, (vector[i].mFunctor.decl.read
          (behindIndex p (indexBits (vector.length + 1)))).1⟩],
        checkReadPosition { p with mReadStream := (vector[i].mFunctor.decl.read
          (behindIndex p (indexBits (vector.length + 1)))).2 }) := by
  have hbits : i < 2 ^ indexBits (vector.length + 1) :=
    (Nat.lt_succ_of_lt hi).trans_le (le_two_pow_indexBits (Nat.succ_pos _) (by omega))
  have hread := TypedStream.readInt_ahead hahead
  rw [Nat.mod_eq_of_lt hbits] at hread
  have hindex : p.mReadStream.readRangedU32 0 (BitVec.ofNat 32 vector.length) =
      (BitVec.ofNat 32 i, behindIndex p (indexBits (vector.length + 1))) := by
    rw [readRangedU32_index, hread]
    rfl
  rw [processNextJournalEntry, if_neg (not_not_intro hmode), hindex]
  dsimp only
  rw [toNat_ofNat_of_lt (show i < 2 ^ 32 by omega)]
  exact dif_pos hi

theorem checkReadPosition_mode (p : Journal) :
    (checkReadPosition p).mCurrentMode = p.mCurrentMode := by
  rw [checkReadPosition]
  split_ifs <;> rfl

theorem checkReadPosition_mReadStream (p : Journal) :
    (checkReadPosition p).mReadStream = p.mReadStream := by
  rw [checkReadPosition]
  split_ifs <;> rfl

/-- The calls recorded from a state on are played back from where their bits begin. -/
theorem recordCalls_playBack (hcount : vector.length < 2 ^ 31)
    (hbits : indexBits (vector.length + 1) = indexBits vector.length)
    (hnames : (vector.map (·.mFunctionName)).Nodup) {calls : List (JournalCall vector)}
    (hcalls : ∀ call ∈ calls, call.RoundTrips) (h : Recorded j bits) :
    ∃ more, Recorded (recordCalls vector j calls) (bits ++ more) ∧
      calls.length * indexBits vector.length ≤ more.length ∧
      ∀ p : Journal, p.mCurrentMode = .Playback → j.mWriteStream.Synced p.mReadStream →
        p.mReadStream.bits.Ahead more → processEntries vector calls.length p = some calls := by
  induction calls generalizing j bits with
  | nil =>
    refine ⟨[], ?_, by simp, fun p _ _ _ => rfl⟩
    rw [List.append_nil]
    exact h
  | cons call calls ih =>
    obtain ⟨code, hrecorded, hreread⟩ := h.call hcount (hcalls call List.mem_cons_self)
    obtain ⟨more, hall, hlength, hplay⟩ :=
      ih (fun other hother => hcalls other (List.mem_cons_of_mem _ hother)) hrecorded
    refine ⟨intBits (entryIndex call) (indexBits vector.length) ++ code ++ more, ?_, ?_,
      fun p hmode hsynced hahead => ?_⟩
    · rw [← List.append_assoc]
      exact hall
    · rw [List.length_append, List.length_append, intBits_length, List.length_cons, Nat.succ_mul]
      omega
    · rw [List.append_assoc, entryIndex_eq hnames, ← hbits] at hahead
      have hbehind : (behindIndex p (indexBits (vector.length + 1))).bits.Ahead (code ++ more) := by
        have hadvance := hahead.advance
        rwa [intBits_length] at hadvance
      obtain ⟨hargs, hsynced', hposition⟩ := hreread (behindIndex p _) more
        ⟨hsynced.buffer, hsynced.tables⟩ hbehind
      have hnext := processNextJournalEntry_eq hmode call.entry.isLt hcount hahead
      rw [List.length_cons, processEntries, hnext]
      dsimp only
      rw [hplay _ ?_ ?_ ?_]
      · exact congrArg (fun args => some (⟨call.entry, args⟩ :: calls)) hargs
      · rw [checkReadPosition_mode]
        exact hmode
      · rw [checkReadPosition_mReadStream]
        exact hsynced'
      · rw [checkReadPosition_mReadStream]
        have hadvance := hbehind.advance
        rwa [← hposition] at hadvance

end Journal

end TNL
