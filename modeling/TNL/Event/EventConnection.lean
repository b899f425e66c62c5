import TNL.Stream.RecordLoop

/-!
# Event connections

The queues of an `EventConnection`, the event section it writes into a packet
and what the peer does with it. A note list is a list, and an insertion pointer
that only moves forward is a pair of the notes before and after it. Whatever
`pack` leaves behind besides the bits (the string buffer of the stream, the
string table) is a state `σ` threaded through the calls. Packet statistics and
the callbacks of an event are left out.
-/
namespace TNL

inductive GuaranteeType where
  | guaranteedOrdered
  | guaranteed
  | unguaranteed
  deriving DecidableEq, Repr

inductive EventDirection where
  | dirUnset
  | dirAny
  | dirServerToClient
  | dirClientToServer
  deriving DecidableEq, Repr

/-- What a program defines for its events. `pack` is a sequence of `writeBits` calls. `create`
gives the direction of the event a class id creates, and `unpack` is `none` when it has set the
connection's last error. -/
structure EventClass (ε σ : Type*) where
  mGuaranteeType : ε → GuaranteeType
  getClassId : ε → ℕ
  pack : σ → ε → List (List Bool) × σ
  create : ℕ → Option EventDirection
  unpack : σ → ℕ → BitStream → Option (ε × σ × BitStream)

/-- The parts of the connection parameters and of the class negotiation that both ends share. The
bit size is `getNextBinLog2` of the class count, which is a `U32`. -/
structure EventParameters where
  mDebugObjectSizes : Bool
  mEventClassCount : ℕ
  mEventClassBitSize : ℕ
  classCount_le : mEventClassCount ≤ 2 ^ mEventClassBitSize
  classBitSize_le : mEventClassBitSize ≤ 32

structure EventNote (ε : Type*) where
  mEvent : ε
  mSeqCount : ℤ
  deriving DecidableEq

structure EventConnection (ε : Type*) where
  mSendEventQueue : List (EventNote ε)
  mUnorderedSendEventQueue : List (EventNote ε)
  mWaitSeqEvents : List (EventNote ε)
  mNotifyEventList : List (EventNote ε)
  mNextSendEventSeq : ℤ
  mNextRecvEventSeq : ℤ
  mLastAckedEventSeq : ℤ

namespace EventConnection

variable {ε σ : Type*}

def invalidSendEventSeq : ℤ := -1
def firstValidSendEventSeq : ℤ := 0
def debugChecksum : ℕ := 0xF00DBAAD
def bitStreamPosBitSize : ℕ := 16
def eventWindow : ℤ := 126

def new : EventConnection ε where
  mSendEventQueue := []
  mUnorderedSendEventQueue := []
  mWaitSeqEvents := []
  mNotifyEventList := []
  mNextSendEventSeq := firstValidSendEventSeq
  mNextRecvEventSeq := firstValidSendEventSeq
  mLastAckedEventSeq := -1

/-- Queue an event whose class is one of those negotiated. -/
def postNetEvent (c : EventConnection ε) (E : EventClass ε σ) (theEvent : ε) : EventConnection ε :=
  if E.mGuaranteeType theEvent = .guaranteedOrdered then
    { c with
      mNextSendEventSeq := c.mNextSendEventSeq + 1
      mSendEventQueue := c.mSendEventQueue ++ [⟨theEvent, c.mNextSendEventSeq⟩] }
  else
    { c with
      mUnorderedSendEventQueue :=
        c.mUnorderedSendEventQueue ++ [⟨theEvent, invalidSendEventSeq⟩] }

/-- Move an insertion pointer past the notes with smaller numbers and insert a note there. The
pointer is then after the note. -/
def insertNote (pointer : List (EventNote ε) × List (EventNote ε)) (note : EventNote ε) :
    List (EventNote ε) × List (EventNote ε) :=
  (pointer.1 ++ pointer.2.takeWhile (fun n => n.mSeqCount < note.mSeqCount) ++ [note],
    pointer.2.dropWhile (fun n => n.mSeqCount < note.mSeqCount))

/-- Insert notes one after the other without moving the pointer back in between. -/
def insertNotes (list notes : List (EventNote ε)) : List (EventNote ε) :=
  let (before, after) := notes.foldl insertNote ([], list)
  before ++ after

/-- Take notes off the head as long as their numbers continue from `next`. -/
def takeConsecutive : List (EventNote ε) → ℤ → List ε × List (EventNote ε) × ℤ
  | [], next => ([], [], next)
  | note :: notes, next =>
    if note.mSeqCount = next then
      let (events, left, last) := takeConsecutive notes (next + 1)
      (note.mEvent :: events, left, last)
    else ([], note :: notes, next)

/-- Requeue the guaranteed events of a lost packet. Each unordered one is pushed at the head. -/
def packetDropped (c : EventConnection ε) (E : EventClass ε σ) (eventList : List (EventNote ε)) :
    EventConnection ε :=
  { c with
    mSendEventQueue := insertNotes c.mSendEventQueue
      (eventList.filter (fun n => E.mGuaranteeType n.mEvent = .guaranteedOrdered))
    mUnorderedSendEventQueue :=
      (eventList.filter (fun n => E.mGuaranteeType n.mEvent = .guaranteed)).reverse ++
        c.mUnorderedSendEventQueue }

/-- Acknowledge the ordered events of a delivered packet as far as they are consecutive. -/
def packetReceived (c : EventConnection ε) (E : EventClass ε σ) (eventList : List (EventNote ε)) :
    EventConnection ε :=
  let notes := insertNotes c.mNotifyEventList
    (eventList.filter (fun n => E.mGuaranteeType n.mEvent = .guaranteedOrdered))
  let (_, left, next) := takeConsecutive notes (c.mLastAckedEventSeq + 1)
  { c with
    mNotifyEventList := left
    mLastAckedEventSeq := next - 1 }

/-- The part of a record after its flags: with debugging the position of its end, patched in
afterwards, then the class and the contents. -/
def writeEvent (P : EventParameters) (E : EventClass ε σ) (event : ε) (w : PackStream σ) :
    PackStream σ :=
  let s := if P.mDebugObjectSizes then w.stream.advanceBitPosition bitStreamPosBitSize
    else w.stream
  let s := s.writeInt (E.getClassId event) P.mEventClassBitSize
  let (chunks, side) := E.pack w.side event
  let s := s.writeAll chunks
  let s := if P.mDebugObjectSizes then s.writeIntAt s.bitNum bitStreamPosBitSize w.stream.bitNum
    else s
  ⟨s, side⟩

def writeUnorderedRecord (P : EventParameters) (E : EventClass ε σ) (ev : EventNote ε)
    (w : PackStream σ) : PackStream σ :=
  writeEvent P E ev.mEvent { w with stream := w.stream.writeFlag true }

/-- An ordered record starts with a flag that says whether its number follows the one before;
if not, the low seven bits of the number follow. -/
def writeOrderedFlags (previous : Option (EventNote ε)) (ev : EventNote ε) (s : BitStream) :
    BitStream :=
  let prevSeq : ℤ := (previous.map EventNote.mSeqCount).getD (-2)
  let s := s.writeFlag true
  let s := s.writeFlag (ev.mSeqCount = prevSeq + 1)
  if ev.mSeqCount = prevSeq + 1 then s else s.writeInt (ev.mSeqCount % 2 ^ 32).toNat 7

def writeOrderedRecord (P : EventParameters) (E : EventClass ε σ) (previous : Option (EventNote ε))
    (ev : EventNote ε) (w : PackStream σ) : PackStream σ :=
  writeEvent P E ev.mEvent { w with stream := writeOrderedFlags previous ev w.stream }

/-- What writing a packet did: the notes sent with it, which together become the notify's event
list, the connection without them, and the stream. -/
structure WriteResult (ε σ : Type*) where
  unordered : List (EventNote ε)
  ordered : List (EventNote ε)
  conn : EventConnection ε
  w : PackStream σ

def WriteResult.eventList (r : WriteResult ε σ) : List (EventNote ε) := r.unordered ++ r.ordered

/-- The event section of a packet. -/
def writePacket (c : EventConnection ε) (P : EventParameters) (E : EventClass ε σ)
    (w : PackStream σ) : WriteResult ε σ :=
  let w := if P.mDebugObjectSizes then
    { w with stream := w.stream.writeInt debugChecksum 32 } else w
  let (unordered, unorderedLeft, w) := recordLoop (fun _ => false)
    (fun _ => writeUnorderedRecord P E) (fun w => (w.stream.writeFlag true).bitNum - 1)
    none c.mUnorderedSendEventQueue w
  let w := { w with stream := w.stream.writeFlag false }
  let (ordered, orderedLeft, w) := recordLoop
    (fun ev => ev.mSeqCount > c.mLastAckedEventSeq + eventWindow)
    (writeOrderedRecord P E) (fun w => w.stream.bitNum) none c.mSendEventQueue w
  let w := { w with stream := w.stream.writeFlag false }
  { unordered := unordered
    ordered := ordered
    conn := { c with mUnorderedSendEventQueue := unorderedLeft, mSendEventQueue := orderedLeft }
    w := w }

/-- The number of an ordered event, completed from its low seven bits. The bits or-ed in are
disjoint from them. -/
def completeSeq (mNextRecvEventSeq seq : ℤ) : ℤ :=
  let seq := mNextRecvEventSeq / 128 * 128 + seq
  if seq < mNextRecvEventSeq then seq + 128 else seq

/-- A packet being read: `waiting` is the waiting list around its insertion pointer, `decoded` all
events unpacked so far, `processed` those processed and `failed` is set with the last error. -/
structure Reading (ε σ : Type*) where
  w : PackStream σ
  waiting : List (EventNote ε) × List (EventNote ε)
  decoded : List ε
  processed : List ε
  failed : Bool

def isLegalDirection (fromServer : Bool) : EventDirection → Bool
  | .dirUnset => false
  | .dirAny => true
  | .dirServerToClient => fromServer
  | .dirClientToServer => !fromServer

/-- Read the class and the contents of an event; `none` when the last error has been set. The
position that debugging adds is only compared in an assertion. -/
def readEvent (P : EventParameters) (E : EventClass ε σ) (fromServer : Bool) (w : PackStream σ) :
    Option (ε × PackStream σ) :=
  let s := if P.mDebugObjectSizes then (w.stream.readInt bitStreamPosBitSize).2 else w.stream
  let (classId, s) := s.readInt P.mEventClassBitSize
  if classId ≥ P.mEventClassCount then none
  else match E.create classId with
    | none => none
    | some direction =>
      if isLegalDirection fromServer direction then
        match E.unpack w.side classId s with
        | none => none
        | some (event, side, s) => some (event, ⟨s, side⟩)
      else none

/-- The low seven bits of an ordered event's number. -/
def readSeq (prevSeq : ℤ) (s : BitStream) : ℤ × BitStream :=
  let (follows, s) := s.readFlag
  if follows then ((prevSeq + 1) % 128, s)
  else
    let (seq, s) := s.readInt 7
    (seq, s)

/-- An unordered event is processed at once. -/
def Reading.process (r : Reading ε σ) (event : ε) (w : PackStream σ) : Reading ε σ :=
  { r with
    w := w
    decoded := r.decoded ++ [event]
    processed := r.processed ++ [event] }

/-- An ordered event enters the waiting list. -/
def Reading.wait (r : Reading ε σ) (note : EventNote ε) (w : PackStream σ) : Reading ε σ :=
  { r with
    w := w
    decoded := r.decoded ++ [note.mEvent]
    waiting := insertNote r.waiting note }

/-- The records of a packet. The loop ends with the flags in a packet, not with a count, so a
bound on the number of records read is given; `none` when it is reached. -/
def readRecords (mNextRecvEventSeq : ℤ) (P : EventParameters) (E : EventClass ε σ)
    (fromServer : Bool) : ℕ → Bool → ℤ → Reading ε σ → Option (Reading ε σ)
  | 0, _, _, _ => none
  | fuel + 1, unguaranteedPhase, prevSeq, r =>
    let (bit, s) := r.w.stream.readFlag
    let (unguaranteedPhase, bit, s) := if unguaranteedPhase && !bit then
      let (bit, s) := s.readFlag
      (false, bit, s) else (unguaranteedPhase, bit, s)
    if !unguaranteedPhase && !bit then some { r with w := ⟨s, r.w.side⟩ }
    else
      let (seq, s) := if unguaranteedPhase then (-1, s) else readSeq prevSeq s
      match readEvent P E fromServer ⟨s, r.w.side⟩ with
      | none => some { r with w := ⟨s, r.w.side⟩, failed := true }
      | some (event, w) =>
        if unguaranteedPhase then
          readRecords mNextRecvEventSeq P E fromServer fuel true prevSeq (r.process event w)
        else
          readRecords mNextRecvEventSeq P E fromServer fuel false seq
            (r.wait ⟨event, completeSeq mNextRecvEventSeq seq⟩ w)

/-- What reading a packet did. -/
structure ReadResult (ε σ : Type*) where
  conn : EventConnection ε
  w : PackStream σ
  decoded : List ε
  processed : List ε
  processedOrdered : List ε
  failed : Bool

def readPacket (c : EventConnection ε) (P : EventParameters) (E : EventClass ε σ)
    (fromServer : Bool) (fuel : ℕ) (w : PackStream σ) : Option (ReadResult ε σ) :=
  let s := if P.mDebugObjectSizes then (w.stream.readInt 32).2 else w.stream
  match readRecords c.mNextRecvEventSeq P E fromServer fuel true (-2)
      ⟨{ w with stream := s }, ([], c.mWaitSeqEvents), [], [], false⟩ with
  | none => none
  | some r =>
    let waiting := r.waiting.1 ++ r.waiting.2
    if r.failed then
      some ⟨{ c with mWaitSeqEvents := waiting }, r.w, r.decoded, r.processed, [], true⟩
    else
      let (events, left, next) := takeConsecutive waiting c.mNextRecvEventSeq
      some ⟨{ c with mWaitSeqEvents := left, mNextRecvEventSeq := next }, r.w, r.decoded,
        r.processed, events, false⟩

end EventConnection

end TNL
