import TNL.Connection.AckCoverage
import TNL.Event.EventLink

/-!
# Event connections over an unreliable network

One side of a link posts events, and the notify record of each data packet it
sends is the list of the events written into the packet. Reading a header calls
the notifications of the peer's header, and an accepted body is read. What the
peer posts in turn travels in its own packets, whose bodies are not looked at.
-/
namespace TNL
open Library BitStream

/-- The event section of a data packet: the stream it was written to, the bits it had before, the
unordered events sent with it and the state their packing started from. -/
structure PacketBody (ε : Type*) where
  start : PacketStart
  unordered : List (EventNote ε)
  sent : BitStream

/-- Both ends, the bodies of the packets by their index, and the history of the unguaranteed
events: those posted, those written into packets and those processed. -/
structure EventNetwork (ε : Type*) where
  link : Link (List (EventNote ε))
  sender : EventConnection ε
  receiver : EventConnection ε
  bodies : ℕ → Option (PacketBody ε)
  posted : List ε
  written : List ε
  processed : List ε

namespace EventConnection

variable {ε σ : Type*}

/-- The unguaranteed ones of some events. -/
def unguaranteed (E : EventClass ε σ) (events : List ε) : List ε :=
  events.filter fun e => E.mGuaranteeType e = .unguaranteed

def handleNotify (E : EventClass ε σ) (c : EventConnection ε)
    (n : Notification (List (EventNote ε))) : EventConnection ε :=
  if n.recvd then c.packetReceived E n.note else c.packetDropped E n.note

/-- Every unordered event that a packet leaves enough space after fits into it as a whole. -/
def UnorderedFits (c : EventConnection ε) (P : EventParameters) (E : EventClass ε σ)
    (limit size : ℕ) (side : σ) (p : ℕ) : Prop :=
  (eventCode P E unorderedFlags).Fits limit size (fun _ => false) none c.mUnorderedSendEventQueue
    side (p + (checksumBits P).length)

end EventConnection

namespace EventNetwork
open EventConnection NetConnection

variable {ε σ : Type*}

inductive Action (ε : Type*) where
  | postNetEvent (event : ε)
  | checkPacketSend (cwnd : Option ℕ) (start : PacketStart)
  | peerPacketSend (cwnd : Option ℕ)
  | sendPingPacket (y : Side)
  | sendAckPacket (y : Side)
  | deliver (y : Side) (index : ℕ) (ctx : ReadContext) (memory : ℕ → Bool)

def start (initialSendSeq : Side → U32) : EventNetwork ε :=
  ⟨.start initialSendSeq, .new, .new, fun _ => none, [], [], []⟩

/-- The data packet branch of `writeRawPacket` at the posting side. A packet stream starts with
the packing state `fresh`. -/
def writeRawPacket (P : EventParameters) (E : EventClass ε σ) (fresh : σ) (x : Side)
    (l : EventNetwork ε) (start : PacketStart) : EventNetwork ε :=
  let r := l.sender.writePacket P E ⟨start.stream, fresh⟩
  let (header, c) := (l.link.conn x).writeDataPacket r.eventList
  { l with
    link := (l.link.setConn x c).send x header
    sender := r.conn
    bodies := Function.update l.bodies (l.link.packets x).length
      (some ⟨start, r.unordered, r.w.stream⟩)
    written := l.written ++ unguaranteed E (r.unordered.map EventNote.mEvent) }

/-- The receiver reads the body of packet `index`. Each record takes at least one bit, which bounds
the reading. -/
def readBody (P : EventParameters) (E : EventClass ε σ) (fresh : σ) (x : Side)
    (l : EventNetwork ε) (index : ℕ) (memory : ℕ → Bool) : Option (EventNetwork ε) :=
  (l.bodies index).bind fun b =>
    let s := receivedStream memory b.start.stream b.sent
    (l.receiver.readPacket P E (x = .host) (s.maxReadBitNum + 1) ⟨s, fresh⟩).map fun result =>
      { l with
        receiver := result.conn
        processed := l.processed ++ unguaranteed E result.processed }

/-- Side `x` posts the events, and packets of any age may be delivered. -/
def step (P : EventParameters) (E : EventClass ε σ) (fresh : σ) (x : Side) (l : EventNetwork ε) :
    Action ε → Option (EventNetwork ε)
  | .postNetEvent event => some { l with
      sender := l.sender.postNetEvent E event
      posted := l.posted ++ unguaranteed E [event] }
  | .checkPacketSend cwnd start =>
    if (l.link.conn x).windowFull cwnd then some l
    else some (l.writeRawPacket P E fresh x start)
  | .peerPacketSend cwnd =>
    (l.link.stepAny (.checkPacketSend x.peer cwnd [])).map fun link => { l with link := link }
  | .sendPingPacket y =>
    (l.link.stepAny (.sendPingPacket y)).map fun link => { l with link := link }
  | .sendAckPacket y =>
    (l.link.stepAny (.sendAckPacket y)).map fun link => { l with link := link }
  | .deliver y index ctx memory =>
    (l.link.packets y.peer)[index]?.bind fun p =>
      ((l.link.conn y).readPacketHeader ctx p.header).bind fun r =>
        let read := { l with link := l.link.afterRead y ctx p r }
        if y = x then
          some { read with sender := r.notified.foldl (handleNotify E) l.sender }
        else if r.body then read.readBody P E fresh x index memory
        else some read

/-- What the link does in a step. -/
def linkAction (P : EventParameters) (E : EventClass ε σ) (fresh : σ) (x : Side)
    (l : EventNetwork ε) : Action ε → Option (Link.Action (List (EventNote ε)))
  | .postNetEvent _ => none
  | .checkPacketSend cwnd start => some (.checkPacketSend x cwnd
      (l.sender.writePacket P E ⟨start.stream, fresh⟩).eventList)
  | .peerPacketSend cwnd => some (.checkPacketSend x.peer cwnd [])
  | .sendPingPacket y => some (.sendPingPacket y)
  | .sendAckPacket y => some (.sendAckPacket y)
  | .deliver y index ctx _ => some (.deliver y index ctx)

/-- Every packet is delivered in its window, no counter wraps, and no write of an unordered event
that is sent is refused. -/
def Guard (P : EventParameters) (E : EventClass ε σ) (fresh : σ) (x : Side) (l : EventNetwork ε)
    (a : Action ε) : Prop :=
  (∀ b ∈ l.linkAction P E fresh x a, l.link.NoWrap b ∧ l.link.DeliversInWindow b) ∧
    ∀ cwnd start, a = .checkPacketSend cwnd start →
      l.sender.UnorderedFits P E (maxPacketDataSize * 8) start.targetPacketSize fresh
        start.header.length

end EventNetwork

end TNL
