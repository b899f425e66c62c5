import TNL.Event.EventConnection
import TNL.Library.LinkedList
import TNL.Library.Run

/-!
# The note lists of an event connection in memory

The sender's side of an `EventConnection` as the code keeps it: notes linked by
`mNextEvent`, a head and a tail pointer for each queue, and insertion pointers
that point at a head or at a link. Notes come from an allocator that may hand
out any free address. The receiver's waiting list is left out. Each loop has a
bound on its steps, and following a null or dangling pointer is a fault.
-/
namespace TNL
open Library Memory

/-- `notified` is the history of the calls of `notifyDelivered`. -/
structure NoteConnection (ε : Type*) where
  memory : Memory (EventNote ε)
  mSendEventQueueHead : Option ℕ
  mSendEventQueueTail : Option ℕ
  mUnorderedSendEventQueueHead : Option ℕ
  mUnorderedSendEventQueueTail : Option ℕ
  mNotifyEventList : Option ℕ
  mNextSendEventSeq : ℤ
  mLastAckedEventSeq : ℤ
  notified : List (EventNote ε × Bool)

namespace NoteConnection
open EventConnection

variable {ε σ : Type*}

def new : NoteConnection ε where
  memory _ := none
  mSendEventQueueHead := none
  mSendEventQueueTail := none
  mUnorderedSendEventQueueHead := none
  mUnorderedSendEventQueueTail := none
  mNotifyEventList := none
  mNextSendEventSeq := firstValidSendEventSeq
  mLastAckedEventSeq := -1
  notified := []

/-- `mEventNoteChunker.free`, and the call of `notifyDelivered` before it. -/
def notifyAndFree (c : NoteConnection ε) (p : ℕ) (note : EventNote ε) (delivered : Bool) :
    NoteConnection ε :=
  { c with
    memory := Function.update c.memory p none
    notified := c.notified ++ [(note, delivered)] }

/-- The note is allocated at address `p`. -/
def postNetEvent (c : NoteConnection ε) (E : EventClass ε σ) (theEvent : ε) (p : ℕ) :
    Option (NoteConnection ε) :=
  if E.mGuaranteeType theEvent = .guaranteedOrdered then
    let memory := Function.update c.memory p (some ⟨⟨theEvent, c.mNextSendEventSeq⟩, none⟩)
    (Memory.append memory c.mSendEventQueueHead c.mSendEventQueueTail p).map
      fun (memory, head, tail) => { c with
        memory := memory
        mNextSendEventSeq := c.mNextSendEventSeq + 1
        mSendEventQueueHead := head
        mSendEventQueueTail := tail }
  else
    let memory := Function.update c.memory p (some ⟨⟨theEvent, invalidSendEventSeq⟩, none⟩)
    (Memory.append memory c.mUnorderedSendEventQueueHead c.mUnorderedSendEventQueueTail p).map
      fun (memory, head, tail) => { c with
        memory := memory
        mUnorderedSendEventQueueHead := head
        mUnorderedSendEventQueueTail := tail }

/-- Put an ordered note of a lost packet back into the send queue. Returns the insertion pointer,
which is then after the note. -/
def requeueOrdered (c : NoteConnection ε) (bound walk : ℕ) (note : EventNote ε)
    (insertList : Cell) : Option (NoteConnection ε × Cell) :=
  (Cell.advance c.memory c.mSendEventQueueHead (fun n => n.mSeqCount < note.mSeqCount) bound
    insertList).bind fun insertList =>
  (insertList.get c.memory c.mSendEventQueueHead).bind fun after =>
  (c.memory.insertAt c.mSendEventQueueHead insertList walk).map fun (memory, head) =>
    ({ c with
      memory := memory
      mSendEventQueueHead := head
      mSendEventQueueTail := if after.isNone then some walk else c.mSendEventQueueTail },
      .link walk)

/-- Put a guaranteed note of a lost packet at the head of the unordered queue. -/
def requeueUnordered (c : NoteConnection ε) (walk : ℕ) : Option (NoteConnection ε) :=
  (c.memory.setNext walk c.mUnorderedSendEventQueueHead).map fun memory =>
    { c with
      memory := memory
      mUnorderedSendEventQueueHead := some walk
      mUnorderedSendEventQueueTail :=
        if c.mUnorderedSendEventQueueHead.isNone then some walk
        else c.mUnorderedSendEventQueueTail }

/-- The loop of `packetDropped`. `insertList` points into the send queue, and only moves on. -/
def dropLoop (E : EventClass ε σ) (bound : ℕ) :
    ℕ → Option ℕ → Cell → NoteConnection ε → Option (NoteConnection ε)
  | 0, _, _, _ => none
  | _ + 1, none, _, c => some c
  | fuel + 1, some walk, insertList, c =>
    (c.memory walk).bind fun node =>
      match E.mGuaranteeType node.data.mEvent with
      | .guaranteedOrdered =>
        (c.requeueOrdered bound walk node.data insertList).bind fun (c, insertList) =>
          dropLoop E bound fuel node.next insertList c
      | .guaranteed =>
        (c.requeueUnordered walk).bind fun c => dropLoop E bound fuel node.next insertList c
      | .unguaranteed =>
        dropLoop E bound fuel node.next insertList (c.notifyAndFree walk node.data false)

def packetDropped (c : NoteConnection ε) (E : EventClass ε σ) (bound : ℕ) (eventList : Option ℕ) :
    Option (NoteConnection ε) :=
  dropLoop E bound bound eventList .head c

/-- Put an ordered note of a delivered packet on `mNotifyEventList`. -/
def awaitNotify (c : NoteConnection ε) (bound walk : ℕ) (note : EventNote ε) (noteList : Cell) :
    Option (NoteConnection ε × Cell) :=
  (Cell.advance c.memory c.mNotifyEventList (fun n => n.mSeqCount < note.mSeqCount) bound
    noteList).bind fun noteList =>
  (c.memory.insertAt c.mNotifyEventList noteList walk).map fun (memory, head) =>
    ({ c with
      memory := memory
      mNotifyEventList := head }, .link walk)

/-- The first loop of `packetReceived`. `noteList` points into `mNotifyEventList`. -/
def receiveLoop (E : EventClass ε σ) (bound : ℕ) :
    ℕ → Option ℕ → Cell → NoteConnection ε → Option (NoteConnection ε)
  | 0, _, _, _ => none
  | _ + 1, none, _, c => some c
  | fuel + 1, some walk, noteList, c =>
    (c.memory walk).bind fun node =>
      if E.mGuaranteeType node.data.mEvent ≠ .guaranteedOrdered then
        receiveLoop E bound fuel node.next noteList (c.notifyAndFree walk node.data true)
      else
        (c.awaitNotify bound walk node.data noteList).bind fun (c, noteList) =>
          receiveLoop E bound fuel node.next noteList c

/-- The second loop: the notes at the head of `mNotifyEventList` whose numbers follow. -/
def notifyLoop : ℕ → NoteConnection ε → Option (NoteConnection ε)
  | 0, _ => none
  | fuel + 1, c =>
    match c.mNotifyEventList with
    | none => some c
    | some p =>
      (c.memory p).bind fun node =>
        if node.data.mSeqCount = c.mLastAckedEventSeq + 1 then
          notifyLoop fuel { c.notifyAndFree p node.data true with
            mLastAckedEventSeq := c.mLastAckedEventSeq + 1
            mNotifyEventList := node.next }
        else some c

def packetReceived (c : NoteConnection ε) (E : EventClass ε σ) (bound : ℕ)
    (eventList : Option ℕ) : Option (NoteConnection ε) :=
  (receiveLoop E bound bound eventList .head c).bind (notifyLoop bound)

/-- A loop of `writePacket` at work: the queue it takes notes from, the packet's list it puts them
on, and the stream. -/
structure Packing (ε σ : Type*) where
  memory : Memory (EventNote ε)
  head : Option ℕ
  packQueueHead : Option ℕ
  packQueueTail : Option ℕ
  w : PackStream σ

/-- Move the note at the head of the queue to the end of the packet's list. -/
def Packing.dequeue (s : Packing ε σ) (ev : ℕ) (next : Option ℕ) (written : PackStream σ) :
    Option (Packing ε σ) :=
  (s.memory.setNext ev none).bind fun memory =>
  (Memory.append memory s.packQueueHead s.packQueueTail ev).map fun (memory, head, tail) =>
    ⟨memory, next, head, tail, written⟩

/-- Both loops of `writePacket`, as `recordLoop` but on the lists in memory. -/
def packLoop (stop : EventNote ε → Bool)
    (write : Option (EventNote ε) → EventNote ε → PackStream σ → PackStream σ)
    (rewindTo : PackStream σ → ℕ) :
    ℕ → Option (EventNote ε) → Packing ε σ → Option (Packing ε σ)
  | 0, _, _ => none
  | fuel + 1, previous, s =>
    match s.head with
    | none => some s
    | some ev =>
      (s.memory ev).bind fun node =>
        if s.w.stream.isFull || stop node.data then some s
        else
          let written := write previous node.data s.w
          if written.stream.getBitSpaceAvailable < BitStream.minimumPaddingBits then
            some { s with w := { written with
              stream := (written.stream.setBitPosition (rewindTo s.w)).clearError } }
          else
            (s.dequeue ev node.next written).bind fun s =>
              packLoop stop write rewindTo fuel (some node.data) s

/-- Returns the event list of the packet's notify as well. -/
def writePacket (c : NoteConnection ε) (P : EventParameters) (E : EventClass ε σ) (bound : ℕ)
    (w : PackStream σ) : Option (NoteConnection ε × Option ℕ × PackStream σ) :=
  let w := if P.mDebugObjectSizes then
    { w with stream := w.stream.writeInt debugChecksum 32 } else w
  (packLoop (fun _ => false) (fun _ => writeUnorderedRecord P E)
    (fun w => (w.stream.writeFlag true).bitNum - 1) bound none
    ⟨c.memory, c.mUnorderedSendEventQueueHead, none, none, w⟩).bind fun unordered =>
  let w := { unordered.w with stream := unordered.w.stream.writeFlag false }
  (packLoop (fun ev => ev.mSeqCount > c.mLastAckedEventSeq + eventWindow)
    (writeOrderedRecord P E) (fun w => w.stream.bitNum) bound none
    { unordered with head := c.mSendEventQueueHead, w := w }).map fun ordered =>
  let w := { ordered.w with stream := ordered.w.stream.writeFlag false }
  ({ c with
    memory := ordered.memory
    mUnorderedSendEventQueueHead := unordered.head
    mSendEventQueueHead := ordered.head }, ordered.packQueueHead, w)

end NoteConnection

/-- A sending connection with the event lists of its packets in flight and the events posted. -/
structure NoteSystem (ε : Type*) where
  conn : NoteConnection ε
  inFlight : List (Option ℕ)
  posted : List ε

namespace NoteSystem

variable {ε σ : Type*}

inductive Action (ε σ : Type*) where
  | postNetEvent (theEvent : ε) (p : ℕ)
  | writePacket (w : PackStream σ)
  | packetReceived (index : ℕ)
  | packetDropped (index : ℕ)

def start : NoteSystem ε := ⟨.new, [], []⟩

/-- No list has more notes than events were posted, which bounds the loops. A packet is no longer
in flight once it has been notified. -/
def step (P : EventParameters) (E : EventClass ε σ) (s : NoteSystem ε) :
    Action ε σ → Option (NoteSystem ε)
  | .postNetEvent theEvent p =>
    if (s.conn.memory p).isSome then none
    else (s.conn.postNetEvent E theEvent p).map fun conn =>
      { s with conn := conn, posted := s.posted ++ [theEvent] }
  | .writePacket w =>
    (s.conn.writePacket P E (s.posted.length + 1) w).map fun (conn, eventList, _) =>
      { s with conn := conn, inFlight := s.inFlight ++ [eventList] }
  | .packetReceived index =>
    (s.inFlight[index]?).bind fun eventList =>
    (s.conn.packetReceived E (s.posted.length + 1) eventList).map fun conn =>
      { s with conn := conn, inFlight := s.inFlight.eraseIdx index }
  | .packetDropped index =>
    (s.inFlight[index]?).bind fun eventList =>
    (s.conn.packetDropped E (s.posted.length + 1) eventList).map fun conn =>
      { s with conn := conn, inFlight := s.inFlight.eraseIdx index }

end NoteSystem

end TNL
