import TNL.Event.Packet

/-!
# Reading an event section

A stream that holds a complete event section is read record by record: the
unordered events are processed in the order they were sent, and the ordered
ones enter the waiting list under the numbers completed from their low bits.
-/
namespace TNL
open BitStream

theorem BitStream.Ahead.skip {s : BitStream} {bits more : List Bool} (n : ℕ)
    (h : s.Ahead (bits ++ more)) (hn : bits.length = n) : (s.advanceBitPosition n).Ahead more :=
  hn ▸ h.advance

namespace EventConnection

variable {ε σ : Type*}

/-- The contract of a program's events: the class is one of those negotiated and may travel in
this direction, and `unpack` reads back what `pack` wrote, from states related by `R`. -/
structure Codec (P : EventParameters) (E : EventClass ε σ) (fromServer : Bool)
    (R : σ → σ → Prop) : Prop where
  class_lt : ∀ e, E.getClassId e < P.mEventClassCount
  create : ∀ e, ∃ d, E.create (E.getClassId e) = some d ∧ isLegalDirection fromServer d = true
  unpack : ∀ e side peer (s : BitStream), R side peer → s.Ahead (E.pack side e).1.flatten →
    ∃ peer', E.unpack peer (E.getClassId e) s =
        some (e, peer', s.advanceBitPosition (E.pack side e).1.flatten.length) ∧
      R (E.pack side e).2 peer'

/-- The note the receiver makes for an ordered event. -/
def decodedNote (mNextRecvEventSeq : ℤ) (note : EventNote ε) : EventNote ε :=
  ⟨note.mEvent, completeSeq mNextRecvEventSeq (note.mSeqCount % 128)⟩

/-- What receiving the events of a packet does to the connection, and the ordered events it
processes. -/
def receive (c : EventConnection ε) (ordered : List (EventNote ε)) : List ε × EventConnection ε :=
  let (events, left, next) := takeConsecutive
    (insertNotes c.mWaitSeqEvents (ordered.map (decodedNote c.mNextRecvEventSeq)))
    c.mNextRecvEventSeq
  (events, { c with mWaitSeqEvents := left, mNextRecvEventSeq := next })

variable {P : EventParameters} {E : EventClass ε σ} {fromServer : Bool} {R : σ → σ → Prop}

theorem readEvent_eq (hcodec : Codec P E fromServer R) {event : ε} {side : σ} {w : PackStream σ}
    {p : ℕ} {more : List Bool} (hR : R side w.side)
    (h : w.stream.Ahead (eventBits P E event side p ++ more)) :
    ∃ peer, readEvent P E fromServer w =
        some (event, ⟨w.stream.advanceBitPosition (eventSize P E event side), peer⟩) ∧
      R (E.pack side event).2 peer := by
  obtain ⟨d, hcreate, hlegal⟩ := hcodec.create event
  have hclass : E.getClassId event % 2 ^ P.mEventClassBitSize = E.getClassId event :=
    Nat.mod_eq_of_lt (lt_of_lt_of_le (hcodec.class_lt event) P.classCount_le)
  have hnot : ¬ E.getClassId event ≥ P.mEventClassCount := Nat.not_le.mpr (hcodec.class_lt event)
  -- the class and the contents, once the position is out of the way
  have hbody : ∀ s : BitStream, s.Ahead (intBits (E.getClassId event) P.mEventClassBitSize ++
      ((E.pack side event).1.flatten ++ more)) →
      s.readInt P.mEventClassBitSize =
        (E.getClassId event, s.advanceBitPosition P.mEventClassBitSize) ∧
      ∃ peer, E.unpack w.side (E.getClassId event)
          (s.advanceBitPosition P.mEventClassBitSize) =
        some (event, peer, (s.advanceBitPosition P.mEventClassBitSize).advanceBitPosition
          (E.pack side event).1.flatten.length) ∧ R (E.pack side event).2 peer := by
    intro s hs
    exact ⟨by rw [hs.readInt, hclass],
      hcodec.unpack event side w.side _ hR (hs.skip _ (intBits_length ..)).left⟩
  cases hdebug : P.mDebugObjectSizes with
  | false =>
    simp only [eventBits, hdebug, Bool.false_eq_true, if_false, List.nil_append,
      List.append_assoc] at h
    obtain ⟨hint, peer, hunpack, hpeer⟩ := hbody w.stream h
    refine ⟨peer, ?_, hpeer⟩
    simp only [readEvent, hdebug, Bool.false_eq_true, if_false, hint, hnot, hcreate, hlegal,
      if_true, hunpack]
    simp [eventSize, holeSize, hdebug]
  | true =>
    simp only [eventBits, hdebug, if_true, List.append_assoc] at h
    obtain ⟨hint, peer, hunpack, hpeer⟩ := hbody (w.stream.advanceBitPosition bitStreamPosBitSize)
      (h.skip _ (intBits_length ..))
    refine ⟨peer, ?_, hpeer⟩
    simp only [readEvent, hdebug, if_true, h.readInt, hint, hnot, if_false, hcreate, hlegal,
      hunpack]
    simp [eventSize, holeSize, hdebug, Nat.add_assoc]

/-- The state of a reading after a sequence of unordered events. -/
def Reading.processAll (r : Reading ε σ) (notes : List (EventNote ε)) (w : PackStream σ) :
    Reading ε σ :=
  { r with
    w := w
    decoded := r.decoded ++ notes.map EventNote.mEvent
    processed := r.processed ++ notes.map EventNote.mEvent }

/-- The state of a reading after a sequence of ordered events. -/
def Reading.waitAll (r : Reading ε σ) (next : ℤ) (notes : List (EventNote ε)) (w : PackStream σ) :
    Reading ε σ :=
  { r with
    w := w
    decoded := r.decoded ++ notes.map EventNote.mEvent
    waiting := (notes.map (decodedNote next)).foldl insertNote r.waiting }

theorem Reading.processAll_cons (r : Reading ε σ) (note : EventNote ε) (notes : List (EventNote ε))
    (v w : PackStream σ) :
    (r.process note.mEvent v).processAll notes w = r.processAll (note :: notes) w := by
  simp [processAll, process]

theorem Reading.waitAll_cons (r : Reading ε σ) (next : ℤ) (note : EventNote ε)
    (notes : List (EventNote ε)) (v w : PackStream σ) :
    (r.wait (decodedNote next note) v).waitAll next notes w = r.waitAll next (note :: notes) w := by
  simp [waitAll, wait, decodedNote]

theorem readRecords_process {next q : ℤ} {fuel : ℕ} {r : Reading ε σ} {event : ε}
    {w : PackStream σ} {s : BitStream} (hflag : r.w.stream.readFlag = (true, s))
    (hread : readEvent P E fromServer ⟨s, r.w.side⟩ = some (event, w)) :
    readRecords next P E fromServer (fuel + 1) true q r =
      readRecords next P E fromServer fuel true q (r.process event w) := by
  rw [readRecords]
  simp only [hflag, Bool.not_true, Bool.and_false, Bool.false_eq_true, if_false, if_true, hread]

theorem readRecords_wait {next q seq : ℤ} {fuel : ℕ} {r : Reading ε σ} {event : ε}
    {w : PackStream σ} {s t : BitStream} (hflag : r.w.stream.readFlag = (true, s))
    (hseq : readSeq q s = (seq, t))
    (hread : readEvent P E fromServer ⟨t, r.w.side⟩ = some (event, w)) :
    readRecords next P E fromServer (fuel + 1) false q r =
      readRecords next P E fromServer fuel false seq
        (r.wait ⟨event, completeSeq next seq⟩ w) := by
  rw [readRecords]
  simp only [hflag, Bool.not_true, Bool.and_false, Bool.false_eq_true, if_false, hseq, hread]

/-- The flag that ends the unordered records leads over to the ordered ones. -/
theorem readRecords_switch {next q : ℤ} {fuel : ℕ} {r : Reading ε σ} {more : List Bool}
    (h : r.w.stream.Ahead (false :: more)) :
    readRecords next P E fromServer (fuel + 1) true q r =
      readRecords next P E fromServer (fuel + 1) false q
        { r with w := ⟨r.w.stream.advanceBitPosition 1, r.w.side⟩ } := by
  rw [readRecords, readRecords]
  simp only [h.readFlag, Bool.not_false, Bool.and_true, if_true, Bool.false_and,
    Bool.false_eq_true, if_false, Reading.wait]

theorem readRecords_end {next q : ℤ} {fuel : ℕ} {r : Reading ε σ} {more : List Bool}
    (h : r.w.stream.Ahead (false :: more)) :
    readRecords next P E fromServer (fuel + 1) false q r =
      some { r with w := ⟨r.w.stream.advanceBitPosition 1, r.w.side⟩ } := by
  rw [readRecords]
  simp [h.readFlag]

/-- The flags of an ordered record, after its first, give the low bits of its number. -/
theorem readSeq_eq {q : ℤ} {previous : Option (EventNote ε)} {note : EventNote ε} {s : BitStream}
    {more : List Bool} (hq : q % 128 = prevSeq previous % 128)
    (h : s.Ahead ((orderedFlags.bits previous note).tail ++ more)) :
    readSeq q s = (note.mSeqCount % 128,
      s.advanceBitPosition (orderedFlags.bits previous note).tail.length) := by
  unfold readSeq
  by_cases hfollows : note.mSeqCount = prevSeq previous + 1
  · have hbits : (orderedFlags.bits previous note).tail = [true] := by
      simp [orderedFlags, hfollows]
    rw [hbits] at h ⊢
    simp only [Ahead.readFlag h, if_true]
    exact Prod.ext (by omega) rfl
  · have hbits : (orderedFlags.bits previous note).tail =
        false :: intBits (note.mSeqCount % 2 ^ 32).toNat 7 := by
      simp [orderedFlags, hfollows]
    rw [hbits] at h ⊢
    have hflag : s.Ahead (false :: (intBits (note.mSeqCount % 2 ^ 32).toNat 7 ++ more)) := h
    have hint : (s.advanceBitPosition 1).Ahead
        (intBits (note.mSeqCount % 2 ^ 32).toNat 7 ++ more) :=
      hflag.tail
    simp only [hflag.readFlag, Bool.false_eq_true, if_false, hint.readInt]
    refine Prod.ext ?_ ?_
    · dsimp only
      omega
    · simp [Nat.add_comm]

theorem encode_cons (flags : RecordFlags ε) (previous : Option (EventNote ε)) (note : EventNote ε)
    (notes : List (EventNote ε)) (side : σ) (p : ℕ) :
    (eventCode P E flags).encode previous (note :: notes) side p = flags.bits previous note ++
      (eventBits P E note.mEvent side (p + (flags.bits previous note).length) ++
        (eventCode P E flags).encode (some note) notes (E.pack side note.mEvent).2
          (p + ((flags.bits previous note).length + eventSize P E note.mEvent side))) :=
  List.append_assoc ..

theorem readRecords_unordered (hcodec : Codec P E fromServer R) (next q : ℤ) (fuel : ℕ)
    (previous : Option (EventNote ε)) (notes : List (EventNote ε)) (side : σ) (p : ℕ)
    (r : Reading ε σ) {more : List Bool} (hR : R side r.w.side)
    (h : r.w.stream.Ahead ((eventCode P E unorderedFlags).encode previous notes side p ++ more)) :
    ∃ peer, R ((eventCode P E unorderedFlags).sideAfter notes side) peer ∧
      readRecords next P E fromServer (notes.length + fuel) true q r =
        readRecords next P E fromServer fuel true q (r.processAll notes
          ⟨r.w.stream.advanceBitPosition
            ((eventCode P E unorderedFlags).encode previous notes side p).length, peer⟩) := by
  induction notes generalizing previous side p r with
  | nil =>
    refine ⟨r.w.side, hR, ?_⟩
    simp [RecordCode.encode, advanceBitPosition, setBitPosition, Reading.processAll]
  | cons note notes ih =>
    have hencode : (eventCode P E unorderedFlags).encode previous (note :: notes) side p =
        true :: (eventBits P E note.mEvent side (p + 1) ++
          (eventCode P E unorderedFlags).encode (some note) notes (E.pack side note.mEvent).2
            (p + (1 + eventSize P E note.mEvent side))) := encode_cons ..
    have hlength := congrArg List.length hencode
    rw [List.length_cons, List.length_append, eventBits_length] at hlength
    rw [hencode, List.cons_append, List.append_assoc] at h
    have hevent := h.tail
    obtain ⟨peer, hread, hpeer⟩ := readEvent_eq hcodec
      (w := ⟨r.w.stream.advanceBitPosition 1, r.w.side⟩) hR hevent
    obtain ⟨last, hlast, hih⟩ := ih (some note) (E.pack side note.mEvent).2
      (p + (1 + eventSize P E note.mEvent side)) (r.process note.mEvent
        ⟨(r.w.stream.advanceBitPosition 1).advanceBitPosition (eventSize P E note.mEvent side), peer⟩)
      hpeer
      (hevent.skip _ (eventBits_length ..))
    refine ⟨last, hlast, ?_⟩
    rw [List.length_cons, Nat.add_right_comm, readRecords_process h.readFlag hread, hih,
      Reading.processAll_cons, hlength]
    simp [Reading.process, Nat.add_assoc, Nat.add_comm]

theorem readRecords_ordered (hcodec : Codec P E fromServer R) (next : ℤ) (fuel : ℕ)
    (previous : Option (EventNote ε)) (notes : List (EventNote ε)) (side : σ) (p : ℕ) (q : ℤ)
    (r : Reading ε σ) {more : List Bool} (hR : R side r.w.side)
    (hq : q % 128 = prevSeq previous % 128)
    (h : r.w.stream.Ahead ((eventCode P E orderedFlags).encode previous notes side p ++
      false :: more)) :
    ∃ peer, R ((eventCode P E orderedFlags).sideAfter notes side) peer ∧
      readRecords next P E fromServer (notes.length + (fuel + 1)) false q r = some (r.waitAll next
        notes ⟨r.w.stream.advanceBitPosition
          (((eventCode P E orderedFlags).encode previous notes side p).length + 1), peer⟩) := by
  induction notes generalizing previous side p q r with
  | nil =>
    refine ⟨r.w.side, hR, ?_⟩
    rw [List.length_nil, Nat.zero_add, readRecords_end h]
    simp [RecordCode.encode, Reading.waitAll]
  | cons note notes ih =>
    obtain ⟨tail, hflags⟩ : ∃ tail, orderedFlags.bits previous note = true :: tail := ⟨_, rfl⟩
    have htail : tail = (orderedFlags.bits previous note).tail := by rw [hflags, List.tail_cons]
    have hencode : (eventCode P E orderedFlags).encode previous (note :: notes) side p =
        true :: (tail ++ (eventBits P E note.mEvent side (p + (tail.length + 1)) ++
          (eventCode P E orderedFlags).encode (some note) notes (E.pack side note.mEvent).2
            (p + (tail.length + 1 + eventSize P E note.mEvent side)))) := by
      rw [encode_cons, hflags]
      rfl
    have hlength := congrArg List.length hencode
    rw [List.length_cons, List.length_append, List.length_append, eventBits_length] at hlength
    rw [hencode, List.cons_append, List.append_assoc, List.append_assoc] at h
    have hnumber := h.tail
    have hseq := readSeq_eq hq (htail ▸ hnumber)
    rw [← htail] at hseq
    have hevent := hnumber.skip tail.length rfl
    obtain ⟨peer, hread, hpeer⟩ := readEvent_eq hcodec
      (w := ⟨(r.w.stream.advanceBitPosition 1).advanceBitPosition tail.length, r.w.side⟩) hR hevent
    obtain ⟨last, hlast, hih⟩ := ih (some note) (E.pack side note.mEvent).2
      (p + (tail.length + 1 + eventSize P E note.mEvent side)) (note.mSeqCount % 128)
      (r.wait (decodedNote next note)
        ⟨((r.w.stream.advanceBitPosition 1).advanceBitPosition tail.length).advanceBitPosition
          (eventSize P E note.mEvent side), peer⟩) hpeer
      (Int.emod_emod_of_dvd _ (dvd_refl 128)) (hevent.skip _ (eventBits_length ..))
    refine ⟨last, hlast, ?_⟩
    rw [List.length_cons, Nat.add_right_comm, readRecords_wait h.readFlag hseq hread]
    refine hih.trans ?_
    rw [Reading.waitAll_cons, hlength]
    simp only [Reading.wait, advanceBitPosition_advanceBitPosition]
    rw [show 1 + tail.length + eventSize P E note.mEvent side +
        (((eventCode P E orderedFlags).encode (some note) notes (E.pack side note.mEvent).2
          (p + (tail.length + 1 + eventSize P E note.mEvent side))).length + 1) =
      tail.length + (eventSize P E note.mEvent side +
        ((eventCode P E orderedFlags).encode (some note) notes (E.pack side note.mEvent).2
          (p + (tail.length + 1 + eventSize P E note.mEvent side))).length) + 1 + 1 by omega]

/-- Reading the records of a complete event section. -/
theorem readRecords_section (hcodec : Codec P E fromServer R) (next : ℤ) (fuel : ℕ)
    {unordered ordered : List (EventNote ε)} {side : σ} {p q : ℕ} (r : Reading ε σ)
    (hR : R side r.w.side)
    (h : r.w.stream.Ahead ((eventCode P E unorderedFlags).encode none unordered side p ++ ([false] ++
      ((eventCode P E orderedFlags).encode none ordered
        ((eventCode P E unorderedFlags).sideAfter unordered side) q ++ [false])))) :
    ∃ v : PackStream σ, R ((eventCode P E orderedFlags).sideAfter ordered
        ((eventCode P E unorderedFlags).sideAfter unordered side)) v.side ∧
      readRecords next P E fromServer (unordered.length + (ordered.length + (fuel + 1))) true (-2) r =
        some ((r.processAll unordered v).waitAll next ordered v) := by
  obtain ⟨peer, hpeer, hunordered⟩ := readRecords_unordered hcodec next (-2)
    (ordered.length + (fuel + 1)) none unordered side p r hR h
  have hflag := h.skip _ rfl
  have hordered := hflag.tail
  generalize r.w.stream.advanceBitPosition
    ((eventCode P E unorderedFlags).encode none unordered side p).length = s at *
  obtain ⟨last, hlast, hwait⟩ := readRecords_ordered hcodec next fuel none
    ordered _ q (-2) (r.processAll unordered ⟨s.advanceBitPosition 1, peer⟩) hpeer rfl hordered
  refine ⟨⟨(s.advanceBitPosition 1).advanceBitPosition
    (((eventCode P E orderedFlags).encode none ordered
      ((eventCode P E unorderedFlags).sideAfter unordered side) q).length + 1), last⟩, hlast, ?_⟩
  rw [hunordered, ← Nat.add_assoc ordered.length, readRecords_switch hflag, Nat.add_assoc]
  exact hwait

/-- Reading a complete event section unpacks its events in order. -/
theorem readPacket_eq (hcodec : Codec P E fromServer R) (c : EventConnection ε)
    {unordered ordered : List (EventNote ε)} {side : σ} {p fuel : ℕ} {w : PackStream σ}
    (hR : R side w.side) (hfuel : unordered.length + ordered.length < fuel)
    (h : w.stream.Ahead (sectionBits P E unordered ordered side
      ((eventCode P E unorderedFlags).sideAfter unordered side) p)) :
    ∃ v : PackStream σ, R ((eventCode P E orderedFlags).sideAfter ordered
        ((eventCode P E unorderedFlags).sideAfter unordered side)) v.side ∧
      c.readPacket P E fromServer fuel w = some
        { conn := (c.receive ordered).2
          w := v
          decoded := (unordered ++ ordered).map EventNote.mEvent
          processed := unordered.map EventNote.mEvent
          processedOrdered := (c.receive ordered).1
          failed := false } := by
  have hchecksum : (if P.mDebugObjectSizes then (w.stream.readInt 32).2 else w.stream) =
      w.stream.advanceBitPosition (checksumBits P).length := by
    unfold sectionBits at h
    unfold checksumBits at h ⊢
    cases hdebug : P.mDebugObjectSizes with
    | false => rfl
    | true =>
      rw [hdebug, if_pos rfl] at h
      rw [if_pos rfl, if_pos rfl, h.readInt, intBits_length]
  obtain ⟨extra, rfl⟩ : ∃ extra, fuel = unordered.length + (ordered.length + (extra + 1)) :=
    ⟨fuel - (unordered.length + ordered.length + 1), by omega⟩
  obtain ⟨v, hv, hrecords⟩ := readRecords_section hcodec c.mNextRecvEventSeq extra
    ⟨⟨w.stream.advanceBitPosition (checksumBits P).length, w.side⟩,
      ([], c.mWaitSeqEvents), [], [], false⟩ hR (h.skip _ rfl)
  refine ⟨v, hv, ?_⟩
  simp only [readPacket, hchecksum, hrecords]
  simp [Reading.processAll, Reading.waitAll, receive, insertNotes]

/-- The stream a receiver reads has the bits of the stream sent, from the same position on. -/
structure Delivered (start sent received : BitStream) : Prop where
  position : received.bitNum = start.bitNum
  size : sent.bitNum ≤ received.maxReadBitNum
  small : received.maxReadBitNum < 2 ^ 32
  bits : ∀ i < sent.bitNum, received.buffer i = sent.buffer i

theorem Delivered.ahead {start sent received : BitStream} {bits : List Bool}
    (h : Delivered start sent received) (hwrote : start.Wrote bits sent) : received.Ahead bits where
  holds := by
    rw [h.position]
    refine (window_congr ?_).trans hwrote.holds
    intro i _ hi
    exact h.bits i (by rw [hwrote.position]; exact hi)
  inside := by
    rw [h.position, ← hwrote.position]
    exact h.size
  small := h.small

/-- The packet holds the complete records of exactly the events noted as sent with it, and the
peer decodes exactly these, in this order. -/
structure Framed (P : EventParameters) (E : EventClass ε Unit) (fromServer : Bool)
    (w : PackStream Unit) (r : WriteResult ε Unit) : Prop where
  complete : r.w.stream.bitNum = w.stream.bitNum +
      (sectionBits P E r.unordered r.ordered () () w.stream.bitNum).length ∧
    r.w.stream.window w.stream.bitNum
      (sectionBits P E r.unordered r.ordered () () w.stream.bitNum).length =
        sectionBits P E r.unordered r.ordered () () w.stream.bitNum
  decoded : ∀ (peer : EventConnection ε) (s : BitStream), Delivered w.stream r.w.stream s →
    ∀ fuel, r.eventList.length < fuel → ∃ result,
      peer.readPacket P E fromServer fuel ⟨s, ()⟩ = some result ∧
        result.decoded = r.eventList.map EventNote.mEvent ∧ result.failed = false

theorem packetFits_of_framed {limit : ℕ} {c : EventConnection ε} {P : EventParameters}
    {E : EventClass ε Unit} {fromServer : Bool} {w : PackStream Unit}
    (hroom : Room limit 128 w.stream) (hframed : Framed P E fromServer w (c.writePacket P E w)) :
    c.PacketFits P E limit w.stream.mBufSize () w.stream.bitNum := by
  by_contra hmisfit
  exact absurd hframed.complete.1 (ne_of_lt (writePacket_short hroom hmisfit))

/-- Two classes of ordered events: a flag, and a method call with two buffers of 1000 bytes, each
filled with one bit. -/
inductive BufferEvent where
  | flag (val : Bool)
  | buffers (first second : Bool)
  deriving DecidableEq

def buffer (n : ℕ) (val : Bool) : List Bool := List.replicate n val

@[simp] theorem buffer_length (n : ℕ) (val : Bool) : (buffer n val).length = n :=
  List.length_replicate

@[simp] theorem buffer_getElem {n i : ℕ} {val : Bool} (hi : i < (buffer n val).length) :
    (buffer n val)[i] = val :=
  List.getElem_replicate hi

/-- The bit that fills a buffer, which is clear where the buffer cannot be read. -/
def readBuffer (s : BitStream) : Bool × BitStream :=
  let (bits, s) := s.readBits 8000
  ((bits.getD []).getD 0 false, s)

theorem readBuffer_eq {s : BitStream} {val : Bool} {more : List Bool}
    (h : s.Ahead (buffer 8000 val ++ more)) :
    readBuffer s = (val, s.advanceBitPosition 8000) := by
  rw [readBuffer, h.readBits (buffer_length 8000 val)]
  simp

def bufferEvents : EventClass BufferEvent Unit where
  mGuaranteeType _ := .guaranteedOrdered
  getClassId
    | .flag _ => 0
    | .buffers _ _ => 1
  pack _
    | .flag val => ([[val]], ())
    | .buffers first second => ([buffer 8000 first, buffer 8000 second], ())
  create _ := some .dirAny
  unpack _ classId s :=
    if classId = 0 then
      let (val, s) := s.readFlag
      some (.flag val, (), s)
    else
      let (first, s) := readBuffer s
      let (second, s) := readBuffer s
      some (.buffers first second, (), s)

def bufferParameters : EventParameters where
  mDebugObjectSizes := false
  mEventClassCount := 2
  mEventClassBitSize := 1
  classCount_le := by decide
  classBitSize_le := by decide

theorem bufferEvents_codec : Codec bufferParameters bufferEvents true (fun _ _ => True) where
  class_lt e := by cases e <;> simp [bufferEvents, bufferParameters]
  create e := ⟨.dirAny, rfl, rfl⟩
  unpack e _ _ s _ h := by
    refine ⟨(), ?_, trivial⟩
    cases e with
    | flag val =>
      have hflag : s.Ahead [val] := by simpa [bufferEvents] using h
      simp [bufferEvents, hflag.readFlag]
    | buffers first second =>
      have hboth : s.Ahead (buffer 8000 first ++ (buffer 8000 second ++ [])) := by
        simpa [bufferEvents] using h
      have hsecond := readBuffer_eq (hboth.skip 8000 (buffer_length 8000 first))
      simp [bufferEvents, readBuffer_eq hboth, hsecond]

/-- A packet of the largest size, over memory that holds zeros. -/
def emptyPacket : PackStream Unit := ⟨packetStream (fun _ => false) 1500, ()⟩

theorem emptyPacket_room : Room 12000 128 emptyPacket.stream :=
  ⟨packetStream_fixed (by decide), rfl, by decide, by decide⟩

end EventConnection

end TNL
