import TNL.Journal.Playback

/-!
# Which entry points can be played back

An index is written for the number of entries and read for one more, and an entry
is found by its name alone. So a journal plays back for every way the entries take
their arguments exactly when the two numbers give an index as many bits and no two
names are the same, and then only if its bits can be counted.
-/
namespace TNL
open BitStream Journal

/-- What is recorded by one program and played back by another, each with its own memory. -/
structure JournalSession (vector : List JournalEntryRecord) where
  calls : List (JournalCall vector)
  memory : ℕ → Bool
  chars : ℕ → UInt8
  memory' : ℕ → Bool
  chars' : ℕ → UInt8

namespace JournalSession

variable {vector : List JournalEntryRecord}

def journal (s : JournalSession vector) : Journal :=
  recordCalls vector (start s.memory s.chars).record s.calls

/-- Playback dispatches the recorded calls. -/
def PlaysBack (s : JournalSession vector) : Prop :=
  processEntries vector s.calls.length (load (start s.memory' s.chars') s.journal.mJournalFile) =
    some s.calls

/-- The bits of the journal are as many as their count says. -/
def Counted (s : JournalSession vector) : Prop := s.journal.totalBits < 2 ^ 32

/-- Every call fits into a buffer whose bits an integer counts. -/
def BuffersHold : Journal → List (JournalCall vector) → Prop
  | _, [] => True
  | j, call :: calls =>
    (((entryStream j call).bits.bitNum + 7) / 8 + resizePad) * 8 < 2 ^ 32 ∧
      BuffersHold (recordCall vector j call) calls

/-- The arguments of every call survive a stream. -/
structure Admissible (s : JournalSession vector) : Prop where
  roundTrips : ∀ call ∈ s.calls, call.RoundTrips
  buffers : BuffersHold (start s.memory s.chars).record s.calls

/-- Every session whose bits are counted plays back. -/
theorem playsBack (hcount : vector.length < 2 ^ 31)
    (hnames : (vector.map (·.mFunctionName)).Nodup) (hstep : ¬ IndexBitsStep vector.length)
    (s : JournalSession vector) (hs : s.Admissible) (hcounted : s.Counted) : s.PlaysBack := by
  cases hcalls : s.calls with
  | nil =>
    rw [PlaysBack, hcalls]
    rfl
  | cons call calls =>
    have hpos : 0 < vector.length := call.entry.pos
    have hbits := (indexBits_succ hpos (by omega)).2.mpr hstep
    obtain ⟨more, hrecorded, hlength, hplay⟩ := recordCalls_playBack hcount hbits hnames
      hs.roundTrips (record_recorded s.memory s.chars)
    have hindex : 0 < indexBits vector.length := by
      by_contra hzero
      have hle := le_two_pow_indexBits hpos (by omega)
      rw [Nat.eq_zero_of_not_pos hzero] at hle
      exact hstep (Or.inl ⟨0, Nat.le_antisymm hle hpos⟩)
    have hsome : more ≠ [] := by
      rw [hcalls, List.length_cons, Nat.succ_mul] at hlength
      exact List.ne_nil_of_length_pos (by omega)
    have hshort : 32 + more.length < 2 ^ 32 := hrecorded.total ▸ hcounted
    have hloaded := load_loaded hrecorded hsome s.memory' s.chars'
    exact hplay _ hloaded.mode (hloaded.synced s.memory s.chars) (hloaded.ahead hshort)

end JournalSession

namespace JournalFunctor

/-- A functor with one number as its argument. -/
def number (numBytes : ℕ) : JournalFunctor := ⟨BitVec (8 * numBytes), Types.scalar numBytes⟩

/-- The arguments are written as these bits, and read only from bits that begin with a one. -/
structure Sends (f : JournalFunctor) (args : f.Args) (code : List Bool) : Prop where
  write : ∀ s, f.decl.write s args = s.withBits (s.bits.writeBits code).2
  roundTrips : f.RoundTrips args
  misread : ∀ s : TypedStream, (∀ bits, (s.bits.readBits code.length).1 = some bits →
    bits.head? = some false) → (f.decl.read s).1 ≠ args

theorem number_sends {numBytes : ℕ} (hpos : 0 < numBytes) :
    (number numBytes).Sends (1 : BitVec (8 * numBytes)) (intBits 1 (8 * numBytes)) := by
  have hone : (1 : BitVec (8 * numBytes)).toNat = 1 :=
    Nat.mod_eq_of_lt (Nat.one_lt_two_pow (by omega))
  refine ⟨fun s => ?_, fun w hw => ?_, fun s hs hread => ?_⟩
  · change s.withBits (s.bits.writeBits (intBits (1 : BitVec (8 * numBytes)).toNat _)).2 = _
    rw [hone]
  · obtain ⟨hgrow, herror⟩ := hw.growable.writeBits
      (intBits (1 : BitVec (8 * numBytes)).toNat (8 * numBytes))
    exact ⟨⟨hgrow, herror.trans hw.error, hw.mStringTable⟩,
      (Types.scalar_correct numBytes w 1 trivial (herror.trans hw.error)).2⟩
  · rw [intBits_length] at hs
    have hvalue : bitsInt ((s.bits.readBits (8 * numBytes)).1.getD []) % 2 ^ (8 * numBytes) = 1 := by
      rw [← hone, ← hread]
      exact (BitVec.toNat_ofNat ..).symm
    have hdvd : 2 ∣ 2 ^ (8 * numBytes) := dvd_pow_self 2 (by omega)
    have heven : bitsInt ((s.bits.readBits (8 * numBytes)).1.getD []) % 2 = 0 := by
      cases hbits : (s.bits.readBits (8 * numBytes)).1 with
      | none => rfl
      | some bits =>
        cases bits with
        | nil => rfl
        | cons bit bits =>
          obtain rfl : bit = false := Option.some.inj (hs _ hbits)
          simp [bitsInt]
    have hodd := congrArg (· % 2) hvalue
    rw [Nat.mod_mod_of_dvd _ hdvd, heven] at hodd
    exact absurd hodd (by decide)

/-- All entries take a number. -/
theorem exists_sends {vector : List JournalEntryRecord} {numBytes : ℕ} (hpos : 0 < numBytes)
    (hvector : ∀ record ∈ vector, record.mFunctor = number numBytes) (i : Fin vector.length) :
    ∃ args : vector[i].mFunctor.Args, vector[i].mFunctor.Sends args (intBits 1 (8 * numBytes)) := by
  rw [hvector vector[i] (List.getElem_mem i.isLt)]
  exact ⟨_, number_sends hpos⟩

end JournalFunctor

namespace JournalSession

variable {vector : List JournalEntryRecord} {code : List Bool}

/-- A program whose memory is all zero. -/
def zeroed : Journal := start (fun _ => false) fun _ => 0

/-- Calls recorded and played back by programs whose memory is all zero. -/
def ofCalls (calls : List (JournalCall vector)) : JournalSession vector :=
  ⟨calls, fun _ => false, fun _ => 0, fun _ => false, fun _ => 0⟩

/-- A call that sends its bits gets them behind its index. -/
theorem recorded_of_sends {j : Journal} {bits : List Bool} (h : Recorded j bits)
    (hcount : vector.length < 2 ^ 31) {call : JournalCall vector}
    (hcall : (vector.get call.entry).mFunctor.Sends call.args code) :
    Recorded (recordCall vector j call)
        (bits ++ (intBits (entryIndex call) (indexBits vector.length) ++ code)) ∧
      (entryStream j call).bits.bitNum =
        j.mWriteStream.bits.bitNum + indexBits vector.length + code.length := by
  obtain ⟨hplain, hindex⟩ :=
    writeInt_plain h.plain (entryIndex call) (indexBits vector.length)
  have hentry : (entryStream j call).Plain := (hcall.roundTrips _ hplain).1
  have hstored : (j.mWriteStream.writeInt (entryIndex call) (indexBits vector.length)).bits.Stored
      code (entryStream j call).bits := by
    have herror := hentry.error
    rw [show entryStream j call = _ from hcall.write _] at herror ⊢
    exact (writeBits_stored herror).2
  refine ⟨h.entry hcount call hentry hstored, ?_⟩
  rw [hstored.position, hindex.position, intBits_length]

/-- A session of one call whose bits are few. -/
structure Single (call : JournalCall vector) (bits : List Bool) : Prop where
  admissible : (ofCalls [call]).Admissible
  counted : (ofCalls [call]).Counted
  loaded : Loaded (load zeroed (ofCalls [call]).journal.mJournalFile)
    bits
  ahead : (load zeroed
    (ofCalls [call]).journal.mJournalFile).mReadStream.bits.Ahead bits

theorem single_of_sends (hcount : vector.length < 2 ^ 31) {call : JournalCall vector}
    (hcall : (vector.get call.entry).mFunctor.Sends call.args code) (hsome : code ≠ [])
    (hfew : code.length ≤ 2 ^ 31) :
    Single call (intBits (entryIndex call) (indexBits vector.length) ++ code) := by
  have hbits := indexBits_le (n := vector.length) call.entry.pos (by omega)
  obtain ⟨hrecorded, hlength⟩ :=
    recorded_of_sends (j := zeroed.record) (record_recorded _ _) hcount hcall
  have hjournal : Recorded (ofCalls [call]).journal
      (intBits (entryIndex call) (indexBits vector.length) ++ code) := hrecorded
  have hcode : intBits (entryIndex call) (indexBits vector.length) ++ code ≠ [] := by simp [hsome]
  have hshort : 32 + (intBits (entryIndex call) (indexBits vector.length) ++ code).length <
      2 ^ 32 := by
    rw [List.length_append, intBits_length]
    omega
  have hloaded := load_loaded hjournal hcode (fun _ => false) fun _ => 0
  refine ⟨⟨fun other hother => ?_, ?_, trivial⟩, ?_, hloaded, hloaded.ahead hshort⟩
  · rw [List.mem_singleton.mp hother]
    exact hcall.roundTrips
  · have hstart : zeroed.record.mWriteStream.bits.bitNum = 0 := rfl
    change (((entryStream zeroed.record call).bits.bitNum + 7) / 8 + 1500) * 8 < 2 ^ 32
    rw [hlength, hstart]
    omega
  · rw [Counted, hjournal.total]
    exact hshort

theorem processNext_of_playsBack {call : JournalCall vector} (h : (ofCalls [call]).PlaysBack) :
    ∃ p, processNextJournalEntry vector (load zeroed
      (ofCalls [call]).journal.mJournalFile) = some ([call], p) := by
  have hplay : processEntries vector 1 (load zeroed
    (ofCalls [call]).journal.mJournalFile) = some [call] := h
  rw [processEntries] at hplay
  cases hnext : processNextJournalEntry vector (load zeroed
    (ofCalls [call]).journal.mJournalFile) with
  | none =>
    rw [hnext] at hplay
    exact absurd hplay (by simp)
  | some next =>
    rw [hnext] at hplay
    have hcalls : next.1 = [call] := by simpa [processEntries] using hplay
    exact ⟨next.2, by rw [← hcalls]⟩

/-- An entry is played back as the first one of its name. -/
theorem not_playsBack_of_name {call : JournalCall vector} (hcount : vector.length < 2 ^ 31)
    (hbits : indexBits (vector.length + 1) = indexBits vector.length)
    (hsingle : Single call (intBits (entryIndex call) (indexBits vector.length) ++ code))
    (hother : entryIndex call ≠ call.entry) : ¬ (ofCalls [call]).PlaysBack := by
  intro h
  obtain ⟨p, hnext⟩ := processNext_of_playsBack h
  have hahead := hsingle.ahead
  rw [← hbits] at hahead
  rw [processNextJournalEntry_eq hsingle.loaded.mode (entryIndex_lt call) hcount hahead] at hnext
  have hcalls := congrArg Prod.fst (Option.some.inj hnext)
  have hentry := congrArg (fun c => c.entry.val) (List.cons.inj hcalls).1
  exact hother hentry

theorem intBits_zero (n : ℕ) : intBits 0 n = List.replicate n false := by
  refine List.eq_replicate_iff.mpr ⟨intBits_length .., fun bit hbit => ?_⟩
  obtain ⟨i, -, rfl⟩ := List.mem_map.mp hbit
  exact Nat.zero_testBit i

theorem intBits_two_pow (n : ℕ) : intBits (2 ^ n) (n + 1) = List.replicate n false ++ [true] := by
  rw [intBits, List.range_succ, List.map_append, List.map_singleton, Nat.testBit_two_pow_self]
  congr 1
  apply List.eq_replicate_iff.mpr
  refine ⟨by simp, fun bit hbit => ?_⟩
  obtain ⟨i, hi, rfl⟩ := List.mem_map.mp hbit
  exact Nat.testBit_two_pow_of_ne (List.mem_range.mp hi).ne'

/-- An index of the first entry is read with another number of bits. -/
theorem not_playsBack_of_bits {call : JournalCall vector} (hcount : vector.length < 2 ^ 31)
    (hbits : indexBits (vector.length + 1) ≠ indexBits vector.length)
    (hzero : call.entry.val = 0)
    (hcall : vector[call.entry].mFunctor.Sends call.args (true :: code))
    (hsingle : Single call (intBits 0 (indexBits vector.length) ++ true :: code)) :
    ¬ (ofCalls [call]).PlaysBack := by
  intro h
  obtain ⟨p, hnext⟩ := processNext_of_playsBack h
  have hpos : 0 < vector.length := call.entry.pos
  have hle := (indexBits_succ hpos (by omega)).1
  have hahead := hsingle.ahead
  rcases Nat.lt_or_ge (indexBits vector.length) (indexBits (vector.length + 1)) with hmore | hless
  · -- The index is read with the first bit of the arguments, and is past the last entry.
    have hnextBits : indexBits (vector.length + 1) = indexBits vector.length + 1 := by omega
    have hindex := le_two_pow_indexBits hpos (by omega)
    have hsmall := indexBits_le (n := vector.length + 1) (Nat.succ_pos _) (by omega)
    have hpow : 2 ^ indexBits vector.length < 2 ^ 32 :=
      Nat.pow_lt_pow_right (by decide) (by omega)
    rw [intBits_zero, List.append_cons, ← intBits_two_pow] at hahead
    have hread := TypedStream.readInt_ahead hahead
    rw [Nat.mod_eq_of_lt (Nat.pow_lt_pow_right (by decide) (Nat.lt_succ_self _)),
      ← hnextBits] at hread
    rw [processNextJournalEntry, if_neg (not_not_intro hsingle.loaded.mode), readRangedU32_index,
      hread] at hnext
    dsimp only at hnext
    rw [toNat_ofNat_of_lt hpow, dispatchEntry, dif_neg (Nat.not_lt.mpr hindex)] at hnext
    cases hnext
  · -- A bit of the index is read as the first bit of the arguments.
    obtain ⟨left, hleft⟩ : ∃ left, indexBits vector.length =
        indexBits (vector.length + 1) + (left + 1) :=
      ⟨indexBits vector.length - indexBits (vector.length + 1) - 1, by omega⟩
    have hsplit : intBits 0 (indexBits vector.length) ++ true :: code =
        intBits 0 (indexBits (vector.length + 1)) ++
          (false :: (List.replicate left false ++ true :: code)) := by
      rw [intBits_zero, intBits_zero, hleft, List.replicate_add, List.replicate_succ,
        List.append_assoc, List.cons_append]
    rw [hsplit] at hahead
    obtain ⟨⟨i, hi⟩, args⟩ := call
    obtain rfl : i = 0 := hzero
    rw [processNextJournalEntry_eq hsingle.loaded.mode hpos hcount hahead] at hnext
    have hcalls := congrArg Prod.fst (Option.some.inj hnext)
    have hargs := (List.cons.inj hcalls).1
    refine hcall.misread _ (fun bits hbits => ?_) (eq_of_heq (JournalCall.mk.inj hargs).2)
    have hadvance := hahead.advance
    rw [intBits_length, ← List.take_append_drop (code.length + 1) (false :: _)] at hadvance
    have hlength : ((false :: (List.replicate left false ++ true :: code)).take
        (code.length + 1)).length = code.length + 1 := by
      rw [List.length_take, List.length_cons, List.length_append, List.length_cons]
      omega
    have hread := hadvance.readBits hlength
    rw [List.length_cons] at hbits
    have hfirst := (congrArg Prod.fst hread).symm.trans hbits
    rw [← Option.some.inj hfirst]
    rfl

/-- A stream whose end is before the first call. -/
structure Past (s : BitStream) : Prop where
  bitNum : s.bitNum = 32
  maxReadBitNum : s.maxReadBitNum < 32

theorem readBits_past {s : BitStream} (hs : Past s) {n : ℕ} (hn : n < 2 ^ 32 - 32) :
    (s.readBits n).1.getD [] = [] ∧ ((s.readBits n).1 = none ∨ n = 0) ∧
      Past (s.readBits n).2 := by
  have hmax := hs.maxReadBitNum
  rw [readBits, hs.bitNum]
  split_ifs with hzero hend
  · exact ⟨rfl, Or.inr hzero, hs⟩
  · exact ⟨rfl, Or.inl rfl, rfl, hmax⟩
  · rw [Nat.mod_eq_of_lt (by omega)] at hend
    omega

/-- The first entry is played back with nothing to read. -/
theorem not_playsBack_of_past {call : JournalCall vector} {calls : List (JournalCall vector)}
    {p : Journal} (hcount : vector.length < 2 ^ 31) (hzero : call.entry.val = 0)
    (hcall : vector[call.entry].mFunctor.Sends call.args code) (hsome : code ≠ [])
    (hfew : code.length < 2 ^ 32 - 32) (hmode : p.mCurrentMode = .Playback)
    (hpast : Past p.mReadStream.bits) :
    processEntries vector (call :: calls).length p ≠ some (call :: calls) := by
  intro h
  obtain ⟨⟨i, hi⟩, args⟩ := call
  obtain rfl : i = 0 := hzero
  have hbits := indexBits_le (n := vector.length + 1) (Nat.succ_pos _) (by omega)
  obtain ⟨hvalue, -, hrest⟩ := readBits_past hpast (n := indexBits (vector.length + 1)) (by omega)
  have hindex : (p.mReadStream.readInt (indexBits (vector.length + 1))).1 = 0 := by
    change bitsInt ((p.mReadStream.bits.readBits _).1.getD []) = 0
    rw [hvalue]
    rfl
  have hstream : Past (p.mReadStream.readInt (indexBits (vector.length + 1))).2.bits := hrest
  generalize hread : p.mReadStream.readInt (indexBits (vector.length + 1)) = read at hindex hstream
  have hargs : (vector[0].mFunctor.decl.read read.2).1 ≠ args := by
    refine hcall.misread _ fun bits hbits => ?_
    have hnone := (readBits_past hstream hfew).2.1
    rw [hbits] at hnone
    exact absurd hnone (by simp [hsome])
  rw [List.length_cons, processEntries, processNextJournalEntry, if_neg (not_not_intro hmode),
    readRangedU32_index, hread, hindex] at h
  dsimp only at h
  rw [show (BitVec.ofNat 32 0).toNat = 0 from rfl, dispatchEntry, dif_pos hi] at h
  obtain ⟨rest, -, hcalls⟩ := Option.map_eq_some_iff.mp h
  exact hargs (eq_of_heq (JournalCall.mk.inj (List.cons.inj hcalls).1).2)

/-- A call of the first entry that is made twice, with about half of the bits that can be counted. -/
theorem not_counted {call : JournalCall vector} (hcount : vector.length < 2 ^ 31)
    (hzero : call.entry.val = 0) (hcall : vector[call.entry].mFunctor.Sends call.args code)
    (hsome : code ≠ [])
    (hlow : 2 ^ 32 ≤ 32 + 2 * (indexBits vector.length + code.length))
    (hhigh : 32 + 2 * (indexBits vector.length + code.length) < 2 ^ 32 + 16) :
    (ofCalls [call, call]).Admissible ∧ ¬ (ofCalls [call, call]).Counted ∧
      ¬ (ofCalls [call, call]).PlaysBack := by
  obtain ⟨hfirst, hfirstBits⟩ :=
    recorded_of_sends (j := zeroed.record) (record_recorded _ _) hcount hcall
  obtain ⟨hsecond, hsecondBits⟩ := recorded_of_sends hfirst hcount hcall
  have hjournal : Recorded (ofCalls [call, call]).journal _ := hsecond
  have htotal : (ofCalls [call, call]).journal.totalBits =
      32 + 2 * (indexBits vector.length + code.length) := by
    rw [hjournal.total]
    simp only [List.length_append, intBits_length, List.length_nil]
    omega
  refine ⟨⟨fun other hother => ?_, ?_, ?_, trivial⟩, ?_, fun h => ?_⟩
  · rcases List.mem_cons.mp hother with rfl | hother
    · exact hcall.roundTrips
    · rw [List.mem_singleton.mp hother]
      exact hcall.roundTrips
  · have hstart : zeroed.record.mWriteStream.bits.bitNum = 0 := rfl
    change (((entryStream zeroed.record call).bits.bitNum + 7) / 8 + 1500) * 8 < 2 ^ 32
    rw [hfirstBits, hstart]
    omega
  · have hpending := hfirst.pending
    change (((entryStream (recordCall vector zeroed.record call) call).bits.bitNum + 7) / 8 + 1500) *
      8 < 2 ^ 32
    rw [hsecondBits]
    omega
  · rw [Counted, htotal]
    omega
  · have hloaded := load_loaded hjournal (by simp [hsome]) (fun _ => false) fun _ => 0
    have hpast : Past (load zeroed (ofCalls [call, call]).journal.mJournalFile).mReadStream.bits := by
      refine ⟨hloaded.bitNum, ?_⟩
      have hmax := hloaded.maxReadBitNum
      rw [← hjournal.total, htotal] at hmax
      exact hmax.trans_lt (by omega)
    exact not_playsBack_of_past hcount hzero hcall hsome (by omega) hloaded.mode hpast h

end JournalSession

theorem mEntryVector_perm (records : List JournalEntryRecord) : (mEntryVector records).Perm records := by
  have hfold : ∀ vector : List JournalEntryRecord, (records.foldl (fun vector record =>
      vector.orderedInsert (fun new old => old.mFunctionName < new.mFunctionName) record)
        vector).Perm (vector ++ records) := by
    induction records with
    | nil => intro vector; rw [List.append_nil]; rfl
    | cons record records ih =>
      intro vector
      refine (ih _).trans ?_
      refine ((List.perm_orderedInsert _ record vector).append_right records).trans ?_
      exact List.perm_middle.symm
  exact hfold []

/-- Entries of these names that take a number. -/
def numberRecords (numBytes : ℕ) (names : List String) : List JournalEntryRecord :=
  names.map fun name => ⟨name, .number numBytes⟩

theorem map_numberRecords (numBytes : ℕ) (names : List String) :
    (numberRecords numBytes names).map (·.mFunctionName) = names := by
  rw [numberRecords, List.map_map]
  exact List.map_id names

theorem length_mEntryVector {records : List JournalEntryRecord} {names : List String}
    (hnames : records.map (·.mFunctionName) = names) :
    (mEntryVector records).length = names.length := by
  rw [(mEntryVector_perm records).length_eq, ← hnames, List.length_map]

theorem nodup_mEntryVector {records : List JournalEntryRecord} {names : List String}
    (hnames : records.map (·.mFunctionName) = names) :
    ((mEntryVector records).map (·.mFunctionName)).Nodup ↔ names.Nodup := by
  rw [((mEntryVector_perm records).map (·.mFunctionName)).nodup_iff, hnames]

namespace JournalSession

theorem sends_numberRecords {numBytes : ℕ} (hpos : 0 < numBytes) (names : List String)
    (i : Fin (mEntryVector (numberRecords numBytes names)).length) :
    ∃ call : JournalCall (mEntryVector (numberRecords numBytes names)), call.entry = i ∧
      (mEntryVector (numberRecords numBytes names))[call.entry].mFunctor.Sends call.args
        (intBits 1 (8 * numBytes)) := by
  have hvector : ∀ record ∈ mEntryVector (numberRecords numBytes names),
      record.mFunctor = .number numBytes := by
    intro record hrecord
    obtain ⟨name, -, rfl⟩ := List.mem_map.mp ((mEntryVector_perm _).mem_iff.mp hrecord)
    rfl
  obtain ⟨args, hargs⟩ := JournalFunctor.exists_sends hpos hvector i
  exact ⟨⟨i, args⟩, rfl, hargs⟩

/-- Two entries of one name: one of them is not the first. -/
theorem exists_entryIndex_ne {vector : List JournalEntryRecord}
    (h : ¬ (vector.map (·.mFunctionName)).Nodup) : ∃ i : Fin vector.length,
      vector.findIdx (·.mFunctionName == (vector.get i).mFunctionName) ≠ i := by
  by_contra hnone
  push Not at hnone
  apply h
  refine List.nodup_iff_injective_get.mpr fun i j hsame => ?_
  have hi := hnone (i.cast (List.length_map _))
  have hj := hnone (j.cast (List.length_map _))
  have hname : (vector.get (i.cast (List.length_map _))).mFunctionName =
      (vector.get (j.cast (List.length_map _))).mFunctionName := by simpa using hsame
  rw [hname] at hi
  exact Fin.ext (hi.symm.trans hj)

/-- Entries that do not play back take a number each. -/
theorem exists_misplayed {names : List String} (hcount : names.length < 2 ^ 31)
    (hbad : ¬ (names.Nodup ∧ ¬ IndexBitsStep names.length)) :
    ∃ records : List JournalEntryRecord, records.map (·.mFunctionName) = names ∧
      ∃ s : JournalSession (mEntryVector records), s.Admissible ∧ s.Counted ∧ ¬ s.PlaysBack := by
  have hnames := map_numberRecords 1 names
  have hlength := length_mEntryVector hnames
  have hcode : intBits 1 (8 * 1) = true :: List.replicate 7 false := by decide
  refine ⟨numberRecords 1 names, hnames, ?_⟩
  by_cases hstep : IndexBitsStep names.length
  · have hpos : 0 < names.length := by
      by_contra hnone
      rw [Nat.eq_zero_of_not_pos hnone] at hstep
      rcases hstep with hpow | ⟨hlarge, -⟩
      · exact Nat.not_isPowerOfTwo_zero hpow
      · exact absurd hlarge (by decide)
    obtain ⟨call, hentry, hcall⟩ :=
      sends_numberRecords Nat.one_pos names ⟨0, hlength ▸ hpos⟩
    have hzero : call.entry.val = 0 := congrArg Fin.val hentry
    have hfirst : entryIndex call = 0 := Nat.le_zero.mp (hzero ▸ entryIndex_le call)
    rw [hcode] at hcall
    have hsingle := single_of_sends (hlength ▸ hcount) hcall (by simp) (by simp)
    rw [hfirst] at hsingle
    refine ⟨ofCalls [call], hsingle.admissible, hsingle.counted, ?_⟩
    have hbits : indexBits (names.length + 1) ≠ indexBits names.length :=
      fun heq => (indexBits_succ hpos (by omega)).2.mp heq hstep
    exact not_playsBack_of_bits (hlength ▸ hcount) (hlength ▸ hbits) hzero hcall hsingle
  · have hdouble : ¬ ((mEntryVector (numberRecords 1 names)).map (·.mFunctionName)).Nodup :=
      fun hnodup => hbad ⟨(nodup_mEntryVector hnames).mp hnodup, hstep⟩
    obtain ⟨i, hi⟩ := exists_entryIndex_ne hdouble
    obtain ⟨call, rfl, hcall⟩ := sends_numberRecords Nat.one_pos names i
    have hpos : 0 < names.length := hlength ▸ call.entry.pos
    rw [hcode] at hcall
    have hsingle := single_of_sends (hlength ▸ hcount) hcall (by simp) (by simp)
    refine ⟨ofCalls [call], hsingle.admissible, hsingle.counted, ?_⟩
    have hbits := (indexBits_succ hpos (by omega)).2.mpr hstep
    exact not_playsBack_of_name (hlength ▸ hcount) (hlength ▸ hbits) hsingle hi

end JournalSession

end TNL
