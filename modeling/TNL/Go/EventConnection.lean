import Mathlib.Data.List.AList
import TNL.Go.BitStream
import TNL.Library.Run

/-!
# The event connection of the Go port

Events are posted into one of two queues and written into packets; ordered ones
carry a sequence number. The other side processes an event without order when it
is read and an ordered one when all before it have been processed. What is
processed is a result here; the handler of an event does nothing to the
connection.
-/
namespace TNL.Go
open Library

inductive GuaranteeType where
  | unguaranteed
  | guaranteed
  | guaranteedOrdered
  deriving DecidableEq

/-- The registered types of events. The guarantee of an event is set when it is made, and unpacking
does not change it. -/
structure EventTypes (ε : Type) where
  getGuaranteeType : ε → GuaranteeType
  getEventID : ε → Option ℕ
  createEvent : ℕ → Option ε
  pack : ε → BitWriter
  unpack : ε → BitReader → ε × BitReader
  unpack_guaranteeType : ∀ ev bs, getGuaranteeType (unpack ev bs).1 = getGuaranteeType ev

structure EventNote (ε : Type) where
  event : ε
  sequence : U32

/-- The finite maps have the packet sequence and the event sequence as keys. -/
structure EventConnection (ε : Type) where
  unorderedSendQueue : List (EventNote ε)
  orderedSendQueue : List (EventNote ε)
  nextSendEventSeq : U32
  nextRecvEventSeq : U32
  sentEvents : AList (fun _ : U32 => List (EventNote ε))
  receivedEvents : AList (fun _ : U32 => ε)

namespace EventConnection

variable {ε : Type} (E : EventTypes ε)

def newEventConnection : EventConnection ε := ⟨[], [], 0, 0, ∅, ∅⟩

def onPacketReceived (ec : EventConnection ε) (sequence : U32) : EventConnection ε :=
  { ec with sentEvents := ec.sentEvents.erase sequence }

/-- Put a dropped event back at the front of its queue. -/
def requeue (ec : EventConnection ε) (note : EventNote ε) : EventConnection ε :=
  match E.getGuaranteeType note.event with
  | .unguaranteed => ec
  | .guaranteedOrdered => { ec with orderedSendQueue := note :: ec.orderedSendQueue }
  | .guaranteed => { ec with unorderedSendQueue := note :: ec.unorderedSendQueue }

def onPacketDropped (ec : EventConnection ε) (sequence : U32) : EventConnection ε :=
  match ec.sentEvents.lookup sequence with
  | none => ec
  | some events =>
    let ec := events.foldl (requeue E) ec
    { ec with sentEvents := ec.sentEvents.erase sequence }

def postEvent (ec : EventConnection ε) (ev : ε) : EventConnection ε :=
  if E.getGuaranteeType ev = .guaranteedOrdered then
    { ec with
      orderedSendQueue := ec.orderedSendQueue ++ [⟨ev, ec.nextSendEventSeq⟩]
      nextSendEventSeq := ec.nextSendEventSeq + 1 }
  else { ec with unorderedSendQueue := ec.unorderedSendQueue ++ [⟨ev, 0⟩] }

/-- An event that is not registered is a panic. -/
def writeEvent (bs : BitWriter) (note : EventNote ε) : Option BitWriter :=
  (E.getEventID note.event).map (fun id =>
    let bs := bs.writeRangedUint32 id 0 1024
    let bs := if E.getGuaranteeType note.event = .guaranteedOrdered then
      bs.writeUint32 note.sequence else bs
    bs ++ E.pack note.event)

/-- Write a queue, each event behind a flag. -/
def writeQueue (bs : BitWriter) (queue : List (EventNote ε)) : Option BitWriter :=
  (queue.foldlM (fun (bs : BitWriter) note => writeEvent E (bs.writeFlag true) note) bs).map
    (·.writeFlag false)

def writeEvents (ec : EventConnection ε) (bs : BitWriter) (packetSeq : U32) :
    Option (EventConnection ε × BitWriter) := do
  let bs ← writeQueue E bs ec.unorderedSendQueue
  let bs ← writeQueue E bs ec.orderedSendQueue
  let sent := ec.unorderedSendQueue.filter
    (fun note => E.getGuaranteeType note.event ≠ .unguaranteed) ++ ec.orderedSendQueue
  let sentEvents := if sent = [] then ec.sentEvents else ec.sentEvents.insert packetSeq sent
  return ({ ec with
    unorderedSendQueue := [], orderedSendQueue := [], sentEvents := sentEvents }, bs)

/-- The event, if its id is registered, with its sequence if it has one. -/
def readEvent (bs : BitReader) : Option ε × Option U32 × BitReader :=
  let (id, bs) := bs.readRangedUint32 0 1024
  match E.createEvent id with
  | none => (none, none, bs)
  | some ev =>
    let (seq, bs) := if E.getGuaranteeType ev = .guaranteedOrdered then
      (some bs.readUint32.1, bs.readUint32.2) else (none, bs)
    let (ev, bs) := E.unpack ev bs
    (some ev, seq, bs)

/-- Read events until a flag is not set. Every event takes at least its flag. -/
def readQueue : ℕ → BitReader → List (Option U32 × ε) × BitReader
  | 0, bs => ([], bs)
  | fuel + 1, bs =>
    let (more, bs) := bs.readFlag
    if more then
      let (ev, seq, bs) := readEvent E bs
      let (events, bs) := readQueue fuel bs
      ((ev.map (seq, ·)).toList ++ events, bs)
    else ([], bs)

/-- Process the ordered events that are ready. Each of them was received. -/
def processReady : ℕ → EventConnection ε → EventConnection ε × List ε
  | 0, ec => (ec, [])
  | fuel + 1, ec =>
    match ec.receivedEvents.lookup ec.nextRecvEventSeq with
    | none => (ec, [])
    | some ev =>
      let (ec, processed) := processReady fuel { ec with
        receivedEvents := ec.receivedEvents.erase ec.nextRecvEventSeq
        nextRecvEventSeq := ec.nextRecvEventSeq + 1 }
      (ec, ev :: processed)

/-- The connection afterwards, the events processed without order and those processed in order, and
the rest of the packet. The sequence of an ordered event is 0 if its type has none. -/
def readEvents (ec : EventConnection ε) (bs : BitReader) :
    EventConnection ε × List ε × List ε × BitReader :=
  let (unordered, bs) := readQueue E (bs.rest.length + 1) bs
  let (ordered, bs) := readQueue E (bs.rest.length + 1) bs
  let receivedEvents := ordered.foldl
    (fun (received : AList fun _ : U32 => ε) ev => received.insert (ev.1.getD 0) ev.2)
    ec.receivedEvents
  let (ec, processed) := processReady (receivedEvents.entries.length + 1)
    { ec with receivedEvents := receivedEvents }
  (ec, unordered.map Prod.snd, processed, bs)

end EventConnection

end TNL.Go
