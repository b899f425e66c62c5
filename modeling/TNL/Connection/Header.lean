import TNL.Library.TruncatedCounter

/-!
# The notify protocol's packet header

`NetConnection` numbers its data packets, acknowledges the peer's packets in
the header of everything it sends, and keeps one notify record for each data
packet that is not yet acknowledged. Ping and ack packets repeat the number of
the last data packet. The send sequence travels as its low eleven bits and the
acknowledged one as its low ten; the receiver completes both from its own
counters. Round trip times and ping timers take no part in these decisions and
are left out.
-/
namespace TNL

abbrev U32 := BitVec 32

/-- The two bits of packet type at the head of a packet. -/
inductive NetPacketType where
  | dataPacket
  | pingPacket
  | ackPacket
  | invalidPacketType
  deriving DecidableEq, Repr

/-- The header fields as they travel. `ackMask` is the first ack word as the reader obtains it,
and is absent from the packet when `ackByteCount` is zero. -/
structure PacketHeader where
  packetType : NetPacketType
  sequence : BitVec 11
  highestAck : BitVec 10
  ackByteCount : BitVec 3
  ackMask : U32
  deriving DecidableEq, Repr

/-- One call of `handleNotify`: the number and fate reported, and the record taken off the queue. -/
structure Notification (ν : Type*) where
  sequence : U32
  recvd : Bool
  note : ν
  deriving DecidableEq

/-- The window state of one side. `ν` is the notify record with everything a subclass hangs on
it; the queue runs from `mNotifyQueueHead` to `mNotifyQueueTail`. -/
structure NetConnection (ν : Type*) where
  mLastSeqRecvdAtSend : BitVec 5 → U32
  mLastSeqRecvd : U32
  mHighestAckedSeq : U32
  mLastSendSeq : U32
  mAckMask : U32
  mLastRecvAckAck : U32
  mNotifyQueue : List ν

namespace NetConnection

variable {ν : Type*}

def maxPacketWindowSize : U32 := 32
def maxAckByteCount : BitVec 3 := 4
def sequenceNumberWindowSize : U32 := 2048
def sequenceNumberMask : U32 := -sequenceNumberWindowSize
def ackSequenceNumberWindowSize : U32 := 1024
def ackSequenceNumberMask : U32 := -ackSequenceNumberWindowSize

/-- A freshly connected side: the constructor followed by `setInitialRecvSequence`. No slot of
`mLastSeqRecvdAtSend` is read before a data packet has written it. -/
def connected (initialSendSeq initialRecvSeq : U32) : NetConnection ν where
  mLastSeqRecvdAtSend := fun _ => 0
  mLastSeqRecvd := initialRecvSeq
  mHighestAckedSeq := initialSendSeq
  mLastSendSeq := initialSendSeq
  mAckMask := 0
  mLastRecvAckAck := initialRecvSeq
  mNotifyQueue := []

/-- `cwnd` is the congestion window of an adaptive connection, rounded up. -/
def windowFull (c : NetConnection ν) (cwnd : Option ℕ) : Bool :=
  if c.mLastSendSeq - c.mHighestAckedSeq ≥ maxPacketWindowSize - 2 then true
  else match cwnd with
    | none => false
    | some limit => limit ≤ (c.mLastSendSeq - c.mHighestAckedSeq).toNat

def ackByteCount (c : NetConnection ν) : U32 :=
  (c.mLastSeqRecvd - c.mLastRecvAckAck + 7) >>> 3

/-- The header itself, once the send sequence has been advanced for a data packet. -/
def headerFields (c : NetConnection ν) (packetType : NetPacketType) : PacketHeader where
  packetType := packetType
  sequence := c.mLastSendSeq.setWidth 11
  highestAck := c.mLastSeqRecvd.setWidth 10
  ackByteCount := c.ackByteCount.setWidth 3
  ackMask := (c.mAckMask.setWidth (8 * c.ackByteCount.toNat)).setWidth 32

def writePacketHeader (c : NetConnection ν) (packetType : NetPacketType) :
    PacketHeader × NetConnection ν :=
  if packetType = .dataPacket then
    let c := { c with mLastSendSeq := c.mLastSendSeq + 1 }
    (c.headerFields packetType,
      { c with
        mLastSeqRecvdAtSend := Function.update c.mLastSeqRecvdAtSend
          (c.mLastSendSeq.setWidth 5) c.mLastSeqRecvd })
  else (c.headerFields packetType, c)

/-- The data packet branch of `writeRawPacket`: the header, and the new notify record at the
tail of the queue. -/
def writeDataPacket (c : NetConnection ν) (note : ν) : PacketHeader × NetConnection ν :=
  let (header, c) := c.writePacketHeader .dataPacket
  (header, { c with mNotifyQueue := c.mNotifyQueue ++ [note] })

section writeDataPacket

variable (c : NetConnection ν) (note : ν)

@[simp] theorem writeDataPacket_mLastSendSeq :
    (c.writeDataPacket note).2.mLastSendSeq = c.mLastSendSeq + 1 := rfl

@[simp] theorem writeDataPacket_mLastSeqRecvd :
    (c.writeDataPacket note).2.mLastSeqRecvd = c.mLastSeqRecvd := rfl

@[simp] theorem writeDataPacket_mHighestAckedSeq :
    (c.writeDataPacket note).2.mHighestAckedSeq = c.mHighestAckedSeq := rfl

@[simp] theorem writeDataPacket_mAckMask :
    (c.writeDataPacket note).2.mAckMask = c.mAckMask := rfl

@[simp] theorem writeDataPacket_mLastRecvAckAck :
    (c.writeDataPacket note).2.mLastRecvAckAck = c.mLastRecvAckAck := rfl

@[simp] theorem writeDataPacket_mNotifyQueue :
    (c.writeDataPacket note).2.mNotifyQueue = c.mNotifyQueue ++ [note] := rfl

@[simp] theorem writeDataPacket_mLastSeqRecvdAtSend :
    (c.writeDataPacket note).2.mLastSeqRecvdAtSend = Function.update c.mLastSeqRecvdAtSend
      ((c.mLastSendSeq + 1).setWidth 5) c.mLastSeqRecvd := rfl

theorem writeDataPacket_header :
    (c.writeDataPacket note).1 = (c.writeDataPacket note).2.headerFields .dataPacket := rfl

end writeDataPacket

/-- The 11-bit sequence number completed from `mLastSeqRecvd`. -/
def packetSequence (c : NetConnection ν) (h : PacketHeader) : U32 :=
  let pkSequenceNumber := h.sequence.setWidth 32 ||| (c.mLastSeqRecvd &&& sequenceNumberMask)
  if pkSequenceNumber < c.mLastSeqRecvd then pkSequenceNumber + sequenceNumberWindowSize
  else pkSequenceNumber

/-- The 10-bit acknowledged sequence completed from `mHighestAckedSeq`. -/
def packetHighestAck (c : NetConnection ν) (h : PacketHeader) : U32 :=
  let pkHighestAck := h.highestAck.setWidth 32 ||| (c.mHighestAckedSeq &&& ackSequenceNumberMask)
  if pkHighestAck < c.mHighestAckedSeq then pkHighestAck + ackSequenceNumberWindowSize
  else pkHighestAck

/-- What the reader does not take from the packet. `decrypts` is the verdict of
`decryptAndCheckHash` under the counter set up from the completed header, true without a cipher;
`stackWord` is what an ack word holds that no byte of the packet was read into. -/
structure ReadContext where
  decrypts : U32 → U32 → NetPacketType → Bool
  stackWord : ℕ → U32

/-- The tests that discard a packet. Nothing has been changed when one of them fails. -/
def headerAccepted (c : NetConnection ν) (ctx : ReadContext) (h : PacketHeader) : Bool :=
  c.packetSequence h - c.mLastSeqRecvd ≤ maxPacketWindowSize - 1 &&
    c.packetHighestAck h ≤ c.mLastSendSeq &&
    ctx.decrypts (c.packetSequence h) (c.packetHighestAck h) h.packetType &&
    h.ackByteCount ≤ maxAckByteCount && h.packetType ≠ .invalidPacketType

/-- `pkAckMask[word]`. At most one word is read, since `MaxAckMaskSize` is one. -/
def ackWord (ctx : ReadContext) (h : PacketHeader) (word : ℕ) : U32 :=
  if word = 0 ∧ h.ackByteCount ≠ 0 then h.ackMask else ctx.stackWord word

/-- The fate the header reports for packet `notifyIndex`. -/
def packetTransmitSuccess (ctx : ReadContext) (h : PacketHeader) (pkHighestAck notifyIndex : U32) :
    Bool :=
  let ackMaskBit := (pkHighestAck - notifyIndex) &&& 0x1F
  let ackMaskWord := (pkHighestAck - notifyIndex) >>> 5
  (ackWord ctx h ackMaskWord.toNat).getLsbD ackMaskBit.toNat

/-- Taking the head of an empty queue dereferences null. -/
def handleNotify (c : NetConnection ν) (sequence : U32) (recvd : Bool) :
    Option (NetConnection ν × Notification ν) :=
  match c.mNotifyQueue with
  | [] => none
  | note :: rest => some ({ c with mNotifyQueue := rest }, ⟨sequence, recvd, note⟩)

/-- The destructor's loop: every record left is reported dropped, under number zero. -/
def clearAllPacketNotifies (c : NetConnection ν) : List (Notification ν) :=
  c.mNotifyQueue.map (fun note => ⟨0, false, note⟩)

/-- The notify loop, for `count` more packets from `notifyIndex` on. -/
def notifyLoop (ctx : ReadContext) (h : PacketHeader) (pkHighestAck : U32) :
    ℕ → U32 → NetConnection ν → Option (NetConnection ν × List (Notification ν))
  | 0, _, c => some (c, [])
  | count + 1, notifyIndex, c =>
    let recvd := packetTransmitSuccess ctx h pkHighestAck notifyIndex
    match c.handleNotify notifyIndex recvd with
    | none => none
    | some (c, notification) =>
      let c := if recvd then
        { c with mLastRecvAckAck := c.mLastSeqRecvdAtSend (notifyIndex.setWidth 5) } else c
      match notifyLoop ctx h pkHighestAck count (notifyIndex + 1) c with
      | none => none
      | some (c, notifications) => some (c, notification :: notifications)

/-- The ack mask after the packet: everything between the two sequence numbers is a nack, and
the packet itself is acked if it carries data. The shift is below 32 once the window test has
passed, so one word never moves into another. -/
def shiftedAckMask (c : NetConnection ν) (pkSequenceNumber : U32) (packetType : NetPacketType) :
    U32 :=
  (c.mAckMask <<< (pkSequenceNumber - c.mLastSeqRecvd).toNat) |||
    (if packetType = .dataPacket then 1 else 0)

/-- What `readPacketHeader` did: the notifications it made, the ack packet it sent, and its
return value. -/
structure Received (ν : Type*) where
  conn : NetConnection ν
  notified : List (Notification ν)
  reply : Option PacketHeader
  body : Bool

/-- The part of `readPacketHeader` after the notify loop. -/
def finishHeader (c : NetConnection ν) (h : PacketHeader) (pkSequenceNumber pkHighestAck : U32)
    (notified : List (Notification ν)) : Received ν :=
  let lastRecvAckAck := if pkSequenceNumber - c.mLastRecvAckAck > maxPacketWindowSize then
    pkSequenceNumber - maxPacketWindowSize else c.mLastRecvAckAck
  let final := { c with
    mLastRecvAckAck := lastRecvAckAck
    mHighestAckedSeq := pkHighestAck
    mLastSeqRecvd := pkSequenceNumber }
  { conn := final
    notified := notified
    reply := if h.packetType = .pingPacket ∨
        pkSequenceNumber - lastRecvAckAck > maxPacketWindowSize >>> 1 then
      some (final.writePacketHeader .ackPacket).1 else none
    body := c.mLastSeqRecvd ≠ pkSequenceNumber ∧ h.packetType = .dataPacket }

/-- `none` is the null dereference of `handleNotify`. -/
def readPacketHeader (c : NetConnection ν) (ctx : ReadContext) (h : PacketHeader) :
    Option (Received ν) :=
  if c.headerAccepted ctx h then
    let pkSequenceNumber := c.packetSequence h
    let pkHighestAck := c.packetHighestAck h
    let notifyCount := pkHighestAck - c.mHighestAckedSeq
    let shifted := { c with mAckMask := c.shiftedAckMask pkSequenceNumber h.packetType }
    match notifyLoop ctx h pkHighestAck notifyCount.toNat (c.mHighestAckedSeq + 1) shifted with
    | none => none
    | some (c, notified) => some (c.finishHeader h pkSequenceNumber pkHighestAck notified)
  else some ⟨c, [], none, false⟩

end NetConnection

end TNL
