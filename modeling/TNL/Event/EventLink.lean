import TNL.Library.Run
import TNL.Event.ReadBack

/-!
# Two event connections

Events are posted on one side and written into packets, which may be lost,
reordered and duplicated. The notify protocol hands each packet's contents to
the receiver at most once and reports each packet once, as received only if it
was processed and as dropped only if it never will be. The receiver works on
the bits that were sent.
-/
namespace TNL
open Library BitStream

/-- A packet stream positioned after the header that `writeRawPacket` puts before the events. -/
structure PacketStart where
  memory : ℕ → Bool
  targetPacketSize : ℕ
  header : List Bool
  target_le : targetPacketSize ≤ maxPacketDataSize
  header_le : header.length + minimumPaddingBits ≤ maxPacketDataSize * 8

namespace PacketStart

def stream (start : PacketStart) : BitStream :=
  (packetStream start.memory start.targetPacketSize).store start.header

theorem room (start : PacketStart) : Room (maxPacketDataSize * 8) 128 start.stream where
  fixed := ⟨rfl, Nat.mul_le_mul_right 8 start.target_le⟩
  maxWrite := rfl
  room := by simpa [stream, store, packetStream, minimumPaddingBits] using start.header_le
  small := by decide

end PacketStart

/-- The stream a receiver has after reading the header of a packet sent as `sent`: whole bytes
arrive, and the rest of its memory is arbitrary. -/
def receivedStream (memory : ℕ → Bool) (start sent : BitStream) : BitStream where
  buffer i := if i < (sent.bitNum + 7) / 8 * 8 then sent.buffer i else memory i
  mBufSize := (sent.bitNum + 7) / 8
  mOwnsMemory := false
  bitNum := start.bitNum
  error := false
  maxReadBitNum := (sent.bitNum + 7) / 8 * 8
  maxWriteBitNum := 0

theorem receivedStream_delivered (memory : ℕ → Bool) (start : BitStream) {sent : BitStream}
    (hsent : sent.bitNum ≤ maxPacketDataSize * 8) :
    EventConnection.Delivered start sent (receivedStream memory start sent) where
  position := rfl
  size := by
    simp only [receivedStream]
    omega
  small := by
    simp only [receivedStream, maxPacketDataSize] at hsent ⊢
    omega
  bits i hi := by
    simp only [receivedStream]
    rw [if_pos (by omega)]

/-- What has become of a packet. -/
inductive PacketFate where
  | inFlight
  | processed
  | received
  | dropped
  deriving DecidableEq, Repr

structure SentPacket (ε : Type*) where
  start : PacketStart
  unordered : List (EventNote ε)
  ordered : List (EventNote ε)
  sent : BitStream
  fate : PacketFate

namespace SentPacket

variable {ε : Type*}

def eventList (p : SentPacket ε) : List (EventNote ε) := p.unordered ++ p.ordered

def withFate (p : SentPacket ε) (fate : PacketFate) : SentPacket ε := { p with fate := fate }

end SentPacket

/-- Both connections and all packets, with the history of the ordered events: those posted and
those processed. -/
structure EventLink (ε : Type*) where
  sender : EventConnection ε
  receiver : EventConnection ε
  packets : List (SentPacket ε)
  posted : List ε
  processed : List ε

namespace EventLink
open EventConnection

variable {ε : Type*}

inductive Action (ε : Type*) where
  | postNetEvent (event : ε)
  | writePacket (start : PacketStart)
  | deliver (index : ℕ) (memory : ℕ → Bool)
  | packetReceived (index : ℕ)
  | packetDropped (index : ℕ)

def start : EventLink ε := ⟨.new, .new, [], [], []⟩

/-- Nothing is processed twice, and nothing that was reported dropped: such a packet arrives to no
effect. Each record takes at least one bit, which bounds the reading of a packet. -/
def step (P : EventParameters) (E : EventClass ε Unit) (fromServer : Bool) (l : EventLink ε) :
    Action ε → Option (EventLink ε)
  | .postNetEvent event => some { l with
      sender := l.sender.postNetEvent E event
      posted := l.posted ++
        if E.mGuaranteeType event = .guaranteedOrdered then [event] else [] }
  | .writePacket start =>
    let r := l.sender.writePacket P E ⟨start.stream, ()⟩
    some { l with
      sender := r.conn
      packets := l.packets ++ [⟨start, r.unordered, r.ordered, r.w.stream, .inFlight⟩] }
  | .deliver index memory =>
    match l.packets[index]? with
    | none => none
    | some p =>
      if p.fate = .inFlight then
        let s := receivedStream memory p.start.stream p.sent
        match l.receiver.readPacket P E fromServer (s.maxReadBitNum + 1) ⟨s, ()⟩ with
        | none => none
        | some result => some { l with
            receiver := result.conn
            packets := l.packets.set index (p.withFate .processed)
            processed := l.processed ++ result.processedOrdered }
      else some l
  | .packetReceived index =>
    match l.packets[index]? with
    | none => none
    | some p =>
      if p.fate = .processed then some { l with
        sender := l.sender.packetReceived E p.eventList
        packets := l.packets.set index (p.withFate .received) }
      else none
  | .packetDropped index =>
    match l.packets[index]? with
    | none => none
    | some p =>
      if p.fate = .inFlight then some { l with
        sender := l.sender.packetDropped E p.eventList
        packets := l.packets.set index (p.withFate .dropped) }
      else none

/-- Every event that a packet leaves enough space after fits into it as a whole. -/
def EventsFit (P : EventParameters) (E : EventClass ε Unit) (l : EventLink ε) : Action ε → Prop
  | .writePacket start => l.sender.PacketFits P E (maxPacketDataSize * 8) start.targetPacketSize ()
      start.header.length
  | _ => True

end EventLink

end TNL
