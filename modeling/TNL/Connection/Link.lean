import TNL.Connection.NotifyQueue

/-!
# Two connected sides over an unreliable network

Every packet ever sent stays available for delivery, so a run may lose,
duplicate and reorder packets at will; only packets older than 512 data
packets of either side are never delivered. Each packet carries the full
counters its header was written from, which no code reads.
-/
namespace TNL
open Library

inductive Side where
  | initiator
  | host
  deriving DecidableEq, Repr

namespace Side

def peer : Side → Side
  | initiator => host
  | host => initiator

@[simp] theorem peer_peer (x : Side) : x.peer.peer = x := by cases x <;> rfl

theorem peer_ne (x : Side) : x.peer ≠ x := by cases x <;> decide

theorem eq_or_eq_peer (x y : Side) : y = x ∨ y = x.peer := by cases x <;> cases y <;> simp [peer]

end Side

/-- A packet on the wire. `sequence`, `ack` and `ackAck` are `mLastSendSeq`, `mLastSeqRecvd` and
`mLastRecvAckAck` of the sender when it wrote the header, `sendSeqs` is `mLastSendSeq` of both. -/
structure Packet where
  header : PacketHeader
  sequence : U32
  ack : U32
  ackAck : U32
  sendSeqs : Side → U32

def Packet.isData (p : Packet) : Prop := p.header.packetType = .dataPacket

instance (p : Packet) : Decidable p.isData := by
  unfold Packet.isData
  infer_instance

/-- Both sides, everything each has sent, and the history of the reads and notifications:
the data packets whose header passed the tests, those whose body was processed, and the calls
of `handleNotify`. -/
structure Link (ν : Type*) where
  conn : Side → NetConnection ν
  packets : Side → List Packet
  headersRead : Side → List U32
  processed : Side → List U32
  notified : Side → List (Notification ν)

namespace Link
open NetConnection

variable {ν : Type*}

inductive Action (ν : Type*) where
  | checkPacketSend (x : Side) (cwnd : Option ℕ) (note : ν)
  | sendPingPacket (x : Side)
  | sendAckPacket (x : Side)
  | deliver (y : Side) (index : ℕ) (ctx : ReadContext)

/-- Connected sides start with no packet in flight, each expecting the other's first packet. -/
def start (initialSendSeq : Side → U32) : Link ν where
  conn x := connected (initialSendSeq x) (initialSendSeq x.peer)
  packets _ := []
  headersRead _ := []
  processed _ := []
  notified _ := []

/-- The packet that carries a header side `x` has just written. -/
def packetOf (l : Link ν) (x : Side) (header : PacketHeader) : Packet where
  header := header
  sequence := (l.conn x).mLastSendSeq
  ack := (l.conn x).mLastSeqRecvd
  ackAck := (l.conn x).mLastRecvAckAck
  sendSeqs y := (l.conn y).mLastSendSeq

/-- Side `x` sends a header it has written; its state is already the one after writing. -/
def send (l : Link ν) (x : Side) (header : PacketHeader) : Link ν :=
  { l with packets := Function.update l.packets x (l.packets x ++ [l.packetOf x header]) }

def setConn (l : Link ν) (x : Side) (c : NetConnection ν) : Link ν :=
  { l with conn := Function.update l.conn x c }

/-- Neither side has sent more than 512 data packets since this one was written. -/
def Fresh (l : Link ν) (p : Packet) : Prop :=
  ∀ x, ((l.conn x).mLastSendSeq - p.sendSeqs x).toNat ≤ 512

instance (l : Link ν) (p : Packet) : Decidable (l.Fresh p) :=
  decidable_of_iff (∀ x ∈ [Side.initiator, Side.host],
    ((l.conn x).mLastSendSeq - p.sendSeqs x).toNat ≤ 512)
    ⟨fun h x => h x (by cases x <;> simp), fun h x _ => h x⟩

/-- Since side `x` has sent this packet, the counters of both sides have not moved past the range
in which the truncated fields of its header stand for them. -/
def InWindow (l : Link ν) (x : Side) (p : Packet) : Prop :=
  ((l.conn x).mLastSendSeq - p.sendSeqs x).toNat ≤ 2016 ∧
    ((l.conn x.peer).mLastSendSeq - p.sendSeqs x.peer).toNat ≤ 993

instance (l : Link ν) (x : Side) (p : Packet) : Decidable (l.InWindow x p) := by
  unfold InWindow
  infer_instance

theorem Fresh.inWindow {l : Link ν} {p : Packet} (hfresh : l.Fresh p) (x : Side) :
    l.InWindow x p :=
  ⟨(hfresh x).trans (by decide), (hfresh x.peer).trans (by decide)⟩

/-- The history after side `y` has read packet `p` with outcome `r`. -/
def record (l : Link ν) (y : Side) (p : Packet) (accepted : Bool) (r : Received ν) : Link ν :=
  { l with
    conn := Function.update l.conn y r.conn
    headersRead := Function.update l.headersRead y
      (l.headersRead y ++ if accepted ∧ p.isData then [p.sequence] else [])
    processed := Function.update l.processed y
      (l.processed y ++ if r.body then [p.sequence] else [])
    notified := Function.update l.notified y (l.notified y ++ r.notified) }

def step (l : Link ν) : Action ν → Option (Link ν)
  | .checkPacketSend x cwnd note =>
    if (l.conn x).windowFull cwnd then some l
    else
      let (header, c) := (l.conn x).writeDataPacket note
      some ((l.setConn x c).send x header)
  | .sendPingPacket x =>
    let (header, c) := (l.conn x).writePacketHeader .pingPacket
    some ((l.setConn x c).send x header)
  | .sendAckPacket x =>
    let (header, c) := (l.conn x).writePacketHeader .ackPacket
    some ((l.setConn x c).send x header)
  | .deliver y index ctx =>
    match (l.packets y.peer)[index]? with
    | none => none
    | some p =>
      if l.Fresh p then
        match (l.conn y).readPacketHeader ctx p.header with
        | none => none
        | some r =>
          let read := l.record y p ((l.conn y).headerAccepted ctx p.header) r
          match r.reply with
          | none => some read
          | some header => some (read.send y header)
      else none

/-- The network that delivers packets of any age. -/
def stepAny (l : Link ν) : Action ν → Option (Link ν)
  | .deliver y index ctx =>
    match (l.packets y.peer)[index]? with
    | none => none
    | some p =>
      match (l.conn y).readPacketHeader ctx p.header with
      | none => none
      | some r =>
        let read := l.record y p ((l.conn y).headerAccepted ctx p.header) r
        match r.reply with
        | none => some read
        | some header => some (read.send y header)
  | a => l.step a

/-- What is delivered is in its window. -/
def DeliversInWindow (l : Link ν) : Action ν → Prop
  | .deliver y index _ => ∀ p ∈ (l.packets y.peer)[index]?, l.InWindow y.peer p
  | _ => True

/-- No counter wraps: the send sequence is not at its last value when a data packet is sent.
The other counters only ever follow a send sequence. -/
def NoWrap (l : Link ν) : Action ν → Prop
  | .checkPacketSend x _ _ => (l.conn x).mLastSendSeq.toNat + 1 < 2 ^ 32
  | _ => True

/-- A data packet that repeats the receiver's last sequence number is a duplicate of one read
before. It is not when a ping or an ack packet with its number arrived first. -/
def NotOvertaken (l : Link ν) : Action ν → Prop
  | .deliver y index ctx => ∀ p ∈ (l.packets y.peer)[index]?, p.isData →
      (l.conn y).headerAccepted ctx p.header = true → p.sequence = (l.conn y).mLastSeqRecvd →
        (l.conn y).mAckMask.getLsbD 0 = true
  | _ => True

instance (l : Link ν) : DecidablePred l.NoWrap
  | .checkPacketSend x _ _ =>
    inferInstanceAs (Decidable ((l.conn x).mLastSendSeq.toNat + 1 < 2 ^ 32))
  | .sendPingPacket _ => isTrue trivial
  | .sendAckPacket _ => isTrue trivial
  | .deliver _ _ _ => isTrue trivial

instance (l : Link ν) : DecidablePred l.NotOvertaken
  | .checkPacketSend _ _ _ => isTrue trivial
  | .sendPingPacket _ => isTrue trivial
  | .sendAckPacket _ => isTrue trivial
  | .deliver y index ctx => inferInstanceAs (Decidable (∀ p ∈ (l.packets y.peer)[index]?,
      p.isData → (l.conn y).headerAccepted ctx p.header = true →
        p.sequence = (l.conn y).mLastSeqRecvd → (l.conn y).mAckMask.getLsbD 0 = true))

end Link

end TNL
