import TNL.Event.EventConnection

/-!
# The event section of a packet

The records of both loops as bit strings. A packet holds the complete records
of exactly the events noted as sent if and only if every event that leaves
enough space after it has been written fits as a whole; a single large write
that is refused leaves the position behind and breaks it. A complete event
section is read back event by event.
-/
namespace TNL
open BitStream

namespace EventConnection

variable {ε σ : Type*} (P : EventParameters) (E : EventClass ε σ)

/-- The bits of the position that debugging adds to a record. -/
def holeSize : ℕ := if P.mDebugObjectSizes then bitStreamPosBitSize else 0

def eventSize (event : ε) (side : σ) : ℕ :=
  holeSize P + P.mEventClassBitSize + (E.pack side event).1.flatten.length

/-- A record after its flags, written from position `p` on. -/
def eventBits (event : ε) (side : σ) (p : ℕ) : List Bool :=
  (if P.mDebugObjectSizes then intBits (p + eventSize P E event side) bitStreamPosBitSize
    else []) ++
    (intBits (E.getClassId event) P.mEventClassBitSize ++ (E.pack side event).1.flatten)

theorem eventBits_length (event : ε) (side : σ) (p : ℕ) :
    (eventBits P E event side p).length = eventSize P E event side := by
  unfold eventBits eventSize holeSize
  split <;> simp [Nat.add_assoc]

/-- The flags of a record: one, and for an ordered event those for its number. -/
structure RecordFlags (ε : Type*) where
  bits : Option (EventNote ε) → EventNote ε → List Bool
  length_pos : ∀ previous ev, 0 < (bits previous ev).length
  length_le : ∀ previous ev, (bits previous ev).length ≤ 9

def unorderedFlags : RecordFlags ε := ⟨fun _ _ => [true], by simp, by simp⟩

def prevSeq (previous : Option (EventNote ε)) : ℤ := (previous.map EventNote.mSeqCount).getD (-2)

def orderedFlags : RecordFlags ε where
  bits previous ev := true :: decide (ev.mSeqCount = prevSeq previous + 1) ::
    if ev.mSeqCount = prevSeq previous + 1 then []
    else intBits (ev.mSeqCount % 2 ^ 32).toNat 7
  length_pos previous ev := by simp
  length_le previous ev := by split <;> simp

/-- The records of an event loop. -/
def eventCode (flags : RecordFlags ε) : RecordCode (EventNote ε) σ where
  bits previous ev side p := flags.bits previous ev ++
    eventBits P E ev.mEvent side (p + (flags.bits previous ev).length)
  size previous ev side := (flags.bits previous ev).length + eventSize P E ev.mEvent side
  reach limit previous ev side p := positionAfter limit
    (p + (flags.bits previous ev).length + holeSize P + P.mEventClassBitSize)
    (E.pack side ev.mEvent).1
  next ev side := (E.pack side ev.mEvent).2
  fixed := 57
  length_bits previous ev side p := by simp [eventBits_length]
  reach_le_size limit previous ev side p := by
    have := positionAfter_le_length limit
      (p + (flags.bits previous ev).length + holeSize P + P.mEventClassBitSize)
      (E.pack side ev.mEvent).1
    simp only [eventSize]
    omega
  reach_eq limit previous ev side p hp := by
    have hflags := flags.length_le previous ev
    have hclass := P.classBitSize_le
    have hhole : holeSize P ≤ 16 := by
      unfold holeSize bitStreamPosBitSize
      split <;> omega
    have hstart : p + (flags.bits previous ev).length + holeSize P + P.mEventClassBitSize ≤
        limit := by omega
    have hiff := positionAfter_eq_iff hstart (E.pack side ev.mEvent).1
    simp only [eventSize]
    omega

variable {P E} {limit : ℕ}

/-- Patching a hole left in front of what was written. -/
theorem writeIntAt_wrote {s t : BitStream} {rest : List Bool} {value n : ℕ}
    (h : (s.advanceBitPosition n).Wrote rest t) (hroom : s.bitNum + n ≤ t.maxWriteBitNum) :
    s.Wrote (intBits value n ++ rest) (t.writeIntAt value n s.bitNum) := by
  have hstore := writeInt_fits (s := t.setBitPosition s.bitNum) value n hroom
  have hpos : (s.advanceBitPosition n).bitNum = s.bitNum + n := rfl
  have hposition := h.position
  rw [hpos] at hposition
  have hbeyond : ∀ i, s.bitNum + n ≤ i →
      (t.writeIntAt value n s.bitNum).buffer i = t.buffer i := by
    intro i hi
    have hfit : ¬ (n + s.bitNum > t.maxWriteBitNum) := by omega
    have hget : (intBits value n)[i - s.bitNum]? = none := by
      apply List.getElem?_eq_none
      rw [intBits_length]
      omega
    by_cases hnil : intBits value n = []
    · simp [writeIntAt, writeInt, writeBits, setBitPosition, hnil]
    · simp [writeIntAt, writeInt, writeBits, setBitPosition, hnil, hfit, store, hget,
        show s.bitNum ≤ i by omega]
  refine ⟨⟨?_, ?_, ?_, ?_, ?_, ?_⟩, ?_, ?_⟩
  · change s.bitNum ≤ t.bitNum
    omega
  · intro i hi
    exact (hstore.kept i hi).trans (h.kept i (by rw [hpos]; omega))
  · exact hstore.size.trans h.size
  · exact hstore.owns.trans h.owns
  · exact hstore.maxRead.trans h.maxRead
  · exact hstore.maxWrite.trans h.maxWrite
  · change t.bitNum = _
    rw [hposition, List.length_append, intBits_length, Nat.add_assoc]
  · rw [List.length_append, window_add, intBits_length]
    congr 1
    · have hholds := hstore.holds
      rw [intBits_length] at hholds
      exact hholds
    · have hrest := h.holds
      rw [hpos] at hrest
      exact (window_congr (fun i hi _ => hbeyond i hi)).trans hrest

theorem writeIntAt_extends {s t : BitStream} {value n : ℕ} (h : (s.advanceBitPosition n).Extends t)
    (hroom : s.bitNum + n ≤ t.maxWriteBitNum) : s.Extends (t.writeIntAt value n s.bitNum) := by
  have hstore := writeInt_fits (s := t.setBitPosition s.bitNum) value n hroom
  have hpos : (s.advanceBitPosition n).bitNum = s.bitNum + n := rfl
  have hle := h.le
  rw [hpos] at hle
  refine ⟨?_, ?_, hstore.size.trans h.size, hstore.owns.trans h.owns,
    hstore.maxRead.trans h.maxRead, hstore.maxWrite.trans h.maxWrite⟩
  · change s.bitNum ≤ t.bitNum
    omega
  · intro i hi
    exact (hstore.kept i hi).trans (h.kept i (by rw [hpos]; omega))

theorem advance_extends (s : BitStream) (n : ℕ) : s.Extends (s.advanceBitPosition n) :=
  ⟨Nat.le_add_right .., fun _ _ => rfl, rfl, rfl, rfl, rfl⟩

/-- What writing a record after its flags does. -/
theorem writeEvent_spec (event : ε) (w : PackStream σ) (hroom : Room limit 48 w.stream) :
    w.stream.Extends (writeEvent P E event w).stream ∧
      (writeEvent P E event w).stream.bitNum = positionAfter limit
        (w.stream.bitNum + holeSize P + P.mEventClassBitSize) (E.pack w.side event).1 ∧
      (w.stream.bitNum + eventSize P E event w.side ≤ limit →
        w.stream.Wrote (eventBits P E event w.side w.stream.bitNum)
          (writeEvent P E event w).stream) := by
  have hclass := P.classBitSize_le
  have hlimit := hroom.room
  have hmax := hroom.maxWrite
  -- the class and the contents, from wherever they start
  have hbody : ∀ s : BitStream, w.stream.Extends s → s.bitNum + 32 ≤ limit →
      s.Extends ((s.writeInt (E.getClassId event) P.mEventClassBitSize).writeAll
        (E.pack w.side event).1) ∧
      ((s.writeInt (E.getClassId event) P.mEventClassBitSize).writeAll
        (E.pack w.side event).1).bitNum =
          positionAfter limit (s.bitNum + P.mEventClassBitSize) (E.pack w.side event).1 ∧
      (s.bitNum + P.mEventClassBitSize + (E.pack w.side event).1.flatten.length ≤ limit →
        s.Wrote (intBits (E.getClassId event) P.mEventClassBitSize ++
          (E.pack w.side event).1.flatten)
          ((s.writeInt (E.getClassId event) P.mEventClassBitSize).writeAll
            (E.pack w.side event).1)) := by
    intro s hs hle
    have hsmax : s.maxWriteBitNum = limit := hs.maxWrite.trans hmax
    have hint := writeInt_fits (s := s) (E.getClassId event) P.mEventClassBitSize (by omega)
    have hpos := hint.position
    rw [intBits_length] at hpos
    have hintmax := hint.maxWrite.trans hsmax
    obtain ⟨hext, hreach⟩ := writeAll_extends (hint.fixed (hs.fixed hroom.fixed)) (by omega)
      (E.pack w.side event).1
    refine ⟨hint.toExtends.trans hext, ?_, ?_⟩
    · rw [hreach, hintmax, hpos]
    · intro hfits
      exact hint.append (writeAll_fits (by omega))
  cases hdebug : P.mDebugObjectSizes with
  | false =>
    obtain ⟨hext, hreach, hwrote⟩ := hbody w.stream (.refl _) (by omega)
    simp only [writeEvent, holeSize, eventSize, eventBits, hdebug, Bool.false_eq_true, if_false,
      List.nil_append, Nat.zero_add, Nat.add_zero]
    exact ⟨hext, hreach, fun h => hwrote (by omega)⟩
  | true =>
    have hadv := advance_extends w.stream bitStreamPosBitSize
    have hstart : (w.stream.advanceBitPosition bitStreamPosBitSize).bitNum =
        w.stream.bitNum + bitStreamPosBitSize := rfl
    have h16 : bitStreamPosBitSize = 16 := rfl
    obtain ⟨hext, hreach, hwrote⟩ :=
      hbody (w.stream.advanceBitPosition bitStreamPosBitSize) hadv (by omega)
    simp only [writeEvent, holeSize, eventSize, eventBits, hdebug, if_true]
    generalize hbodyEq : ((w.stream.advanceBitPosition bitStreamPosBitSize).writeInt
      (E.getClassId event) P.mEventClassBitSize).writeAll (E.pack w.side event).1 = t at *
    have htmax : t.maxWriteBitNum = limit := hext.maxWrite.trans hmax
    refine ⟨writeIntAt_extends hext (by omega), ?_, ?_⟩
    · change t.bitNum = _
      rw [hreach, hstart]
    · intro hfits
      have hfull := hwrote (by omega)
      have hend : t.bitNum = w.stream.bitNum + (bitStreamPosBitSize + P.mEventClassBitSize +
          (E.pack w.side event).1.flatten.length) := by
        rw [hfull.position, hstart, List.length_append, intBits_length]
        omega
      rw [← hend]
      exact writeIntAt_wrote hfull (by omega)

@[simp] theorem eventCode_fixed (flags : RecordFlags ε) : (eventCode P E flags).fixed = 57 := rfl

theorem eventCode_fixed_le (flags : RecordFlags ε) :
    (eventCode P E flags).fixed ≤ minimumPaddingBits := by
  rw [eventCode_fixed]
  decide

/-- A loop that writes flags and then an event. -/
theorem eventCode_describes (flags : RecordFlags ε)
    (put : Option (EventNote ε) → EventNote ε → BitStream → BitStream)
    (rewindTo : PackStream σ → ℕ)
    (hput : ∀ previous ev (s : BitStream), s.bitNum + 9 ≤ s.maxWriteBitNum →
      s.Wrote (flags.bits previous ev) (put previous ev s))
    (hrewind : ∀ w : PackStream σ, Room limit 57 w.stream → rewindTo w = w.stream.bitNum) :
    (eventCode P E flags).Describes limit
      (fun previous ev w => writeEvent P E ev.mEvent ⟨put previous ev w.stream, w.side⟩)
      rewindTo := by
  have hflags : ∀ previous ev (w : PackStream σ), Room limit 57 w.stream →
      w.stream.Wrote (flags.bits previous ev) (put previous ev w.stream) ∧
        Room limit 48 (put previous ev w.stream) := by
    intro previous ev w hroom
    have hlimit := hroom.room
    have hlength := flags.length_le previous ev
    have hwrote := hput previous ev w.stream (by rw [hroom.maxWrite]; omega)
    exact ⟨hwrote, hroom.extends_ hwrote.toExtends (by rw [hwrote.position]; omega)⟩
  constructor
  · intro previous ev w hroom
    obtain ⟨hwrote, hroom'⟩ := hflags previous ev w hroom
    exact hwrote.toExtends.trans
      (writeEvent_spec ev.mEvent ⟨put previous ev w.stream, w.side⟩ hroom').1
  · intro previous ev w hroom
    obtain ⟨hwrote, hroom'⟩ := hflags previous ev w hroom
    have hspec := (writeEvent_spec (P := P) (E := E) ev.mEvent
      ⟨put previous ev w.stream, w.side⟩ hroom').2.1
    rw [hspec]
    simp only [hwrote.position]
    rfl
  · intro previous ev w hroom
    obtain ⟨hwrote, hroom'⟩ := hflags previous ev w hroom
    have hspec := (writeEvent_spec (P := P) (E := E) ev.mEvent
      ⟨put previous ev w.stream, w.side⟩ hroom').2.1
    have hclass := P.classBitSize_le
    have hhole : holeSize P ≤ 16 := by
      unfold holeSize bitStreamPosBitSize
      split <;> omega
    have := hroom'.room
    rw [hspec]
    refine positionAfter_le ?_ _
    dsimp only
    omega
  · intro previous ev w
    rfl
  · exact hrewind
  · intro previous ev w hroom hsize
    obtain ⟨hwrote, hroom'⟩ := hflags previous ev w hroom
    have hspec := (writeEvent_spec (P := P) (E := E) ev.mEvent
      ⟨put previous ev w.stream, w.side⟩ hroom').2.2
    simp only [eventCode] at hsize ⊢
    have hevent := hspec (by simp only [hwrote.position]; omega)
    simp only [hwrote.position] at hevent
    exact hwrote.append hevent

theorem unordered_describes : (eventCode P E unorderedFlags).Describes limit
    (fun _ => writeUnorderedRecord P E) (fun w => (w.stream.writeFlag true).bitNum - 1) := by
  refine eventCode_describes unorderedFlags (fun _ _ s => s.writeFlag true) _ ?_ ?_
  · intro previous ev s hs
    exact writeFlag_fits true (by omega)
  · intro w hroom
    have hlimit := hroom.room
    rw [(writeFlag_fits true (by rw [hroom.maxWrite]; omega)).position]
    simp

theorem writeOrderedFlags_wrote (previous : Option (EventNote ε)) (ev : EventNote ε)
    (s : BitStream) (hs : s.bitNum + 9 ≤ s.maxWriteBitNum) :
    s.Wrote (orderedFlags.bits previous ev) (writeOrderedFlags previous ev s) := by
  have hfirst := writeFlag_fits (s := s) true (by omega)
  have hpos := hfirst.position
  have hmax := hfirst.maxWrite
  rw [List.length_singleton] at hpos
  have hboth := hfirst.append (writeFlag_fits (s := s.writeFlag true)
    (decide (ev.mSeqCount = prevSeq previous + 1)) (by omega))
  have hpos' := hboth.position
  have hmax' := hboth.maxWrite
  simp only [List.length_append, List.length_singleton] at hpos'
  by_cases hfollows : ev.mSeqCount = prevSeq previous + 1
  · have hflags : orderedFlags.bits previous ev =
        [true] ++ [decide (ev.mSeqCount = prevSeq previous + 1)] := by
      simp [orderedFlags, hfollows]
    have hput : writeOrderedFlags previous ev s =
        (s.writeFlag true).writeFlag (ev.mSeqCount = prevSeq previous + 1) := if_pos hfollows
    rw [hflags, hput]
    exact hboth
  · have hflags : orderedFlags.bits previous ev =
        [true] ++ [decide (ev.mSeqCount = prevSeq previous + 1)] ++
          intBits (ev.mSeqCount % 2 ^ 32).toNat 7 := by
      simp only [orderedFlags, if_neg hfollows]
      rfl
    have hput : writeOrderedFlags previous ev s =
        ((s.writeFlag true).writeFlag (ev.mSeqCount = prevSeq previous + 1)).writeInt
          (ev.mSeqCount % 2 ^ 32).toNat 7 := if_neg hfollows
    rw [hflags, hput]
    exact hboth.append (writeInt_fits _ _ (by omega))

theorem ordered_describes : (eventCode P E orderedFlags).Describes limit
    (writeOrderedRecord P E) (fun w => w.stream.bitNum) :=
  eventCode_describes orderedFlags writeOrderedFlags _ writeOrderedFlags_wrote (fun _ _ => rfl)

end EventConnection

end TNL
