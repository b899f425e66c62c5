import TNL.Go.EventConnection
import TNL.Go.GhostConnection
import TNL.Go.NetConnection

/-!
# The packets of a Go connection

A connection has three layers. The header of a packet is read by the first one,
which makes the callbacks of the other two. The rest of a data packet has the
events and then the ghosts. What no layer looks at before the callbacks are made
is whether the packet has been read past its end.
-/
namespace TNL.Go

/-- A connection with its three layers. -/
structure Connection (ε ω : Type) where
  net : NetConnection
  events : EventConnection ε
  ghosts : GhostConnection ω

/-- What `ProcessPacket` does. `accepted` says whether the header was, and `rest` is what was left of
the packet. -/
structure Processed (ε ω : Type) where
  conn : Connection ε ω
  accepted : Bool
  outcomes : List Outcome
  events : List ε
  records : List (ReadRecord ω)
  rest : BitReader

namespace Connection

variable {ε ω τ : Type} (E : EventTypes ε) (R : ObjectTypes ω τ)

def newConnection (initialSendSeq initialRecvSeq : U32) : Connection ε ω where
  net := (NetConnection.newNetConnection initialSendSeq).setInitialRecvSequence initialRecvSeq
  events := .newEventConnection
  ghosts := .newGhostConnection

/-- The callback for one packet that was sent. -/
def notify (c : Connection ε ω) (o : Outcome) : Connection ε ω :=
  if o.received then
    { c with
      events := c.events.onPacketReceived o.note.sequence
      ghosts := c.ghosts.onGhostPacketReceived o.note.sequence }
  else
    { c with
      events := c.events.onPacketDropped E o.note.sequence
      ghosts := c.ghosts.onGhostPacketDropped o.note.sequence }

def processPacket (c : Connection ε ω) (bs : BitReader) : Processed ε ω :=
  let r := c.net.readPacketHeader bs
  let c := r.outcomes.foldl (notify E) { c with net := r.conn }
  if r.body then
    let (events, unordered, ordered, bs) := c.events.readEvents E r.rest
    let (ghosts, records, bs) := c.ghosts.readGhosts R bs
    { conn := { c with events := events, ghosts := ghosts }
      accepted := r.ok
      outcomes := r.outcomes
      events := unordered ++ ordered
      records := records
      rest := bs }
  else
    { conn := c
      accepted := r.ok
      outcomes := r.outcomes
      events := []
      records := []
      rest := r.rest }

@[simp] theorem notify_net (c : Connection ε ω) (o : Outcome) : (c.notify E o).net = c.net := by
  rw [notify]
  split <;> rfl

@[simp] theorem foldl_notify_net (c : Connection ε ω) (outcomes : List Outcome) :
    (outcomes.foldl (notify E) c).net = c.net := by
  induction outcomes generalizing c with
  | nil => rfl
  | cons o outcomes ih => rw [List.foldl_cons, ih, notify_net]

end Connection

/-- The first 24 bits of a packet, as the header has them. -/
structure HeaderFields where
  packetType : NetPacketType
  isGameData : Bool
  sequence : BitVec 11
  ack : BitVec 10

namespace NetConnection
open BitReader

/-- What is read of a header before anything is tested. -/
def headerFields (bs : BitReader) : HeaderFields × BitReader :=
  let (pktType, bs) := bs.readBits 2
  let (seqLow, bs) := bs.readBits 5
  let (isGameData, bs) := bs.readFlag
  let (seqHigh, bs) := bs.readBits 6
  let (ackLow, bs) := bs.readBits 10
  (⟨.ofBits pktType, isGameData, BitVec.ofNat 11 (seqLow + 2 ^ 5 * seqHigh), BitVec.ofNat 10 ackLow⟩,
    bs)

/-- How far the number of a packet is above the last one received. -/
def ahead (nc : NetConnection) (f : HeaderFields) : ℕ :=
  (f.sequence - nc.lastRecvSeq.setWidth 11).toNat

/-- How many more packets than before are acknowledged. -/
def newlyAcked (nc : NetConnection) (f : HeaderFields) : ℕ :=
  (f.ack - nc.highestAckedSeq.setWidth 10).toNat

/-- The tests of a header: a packet of the game, less than a window ahead, that acknowledges
nothing that was not sent. -/
def admits (nc : NetConnection) (f : HeaderFields) : Bool :=
  f.isGameData && nc.ahead f ≤ 31 &&
    nc.highestAckedSeq + BitVec.ofNat 32 (nc.newlyAcked f) ≤ nc.lastSendSeq

theorem join_fields {low high : ℕ} (hlow : low < 2 ^ 5) (hhigh : high < 2 ^ 6) :
    BitVec.ofNat 32 low ||| BitVec.ofNat 32 high <<< 5 =
      (BitVec.ofNat 11 (low + 2 ^ 5 * high)).setWidth 32 := by
  apply BitVec.eq_of_toNat_eq
  rw [BitVec.toNat_or, BitVec.toNat_shiftLeft, BitVec.toNat_ofNat, BitVec.toNat_ofNat, Nat.or_comm,
    Nat.mod_eq_of_lt (by omega : low < 2 ^ 32), Nat.mod_eq_of_lt (by omega : high < 2 ^ 32),
    Nat.mod_eq_of_lt (by rw [Nat.shiftLeft_eq]; omega), ← Nat.shiftLeft_add_eq_or_of_lt hlow,
    Nat.shiftLeft_eq, BitVec.toNat_setWidth, BitVec.toNat_ofNat]
  omega

theorem low_eq {low : ℕ} (hlow : low < 2 ^ 10) :
    BitVec.ofNat 32 low = (BitVec.ofNat 10 low).setWidth 32 := by
  apply BitVec.eq_of_toNat_eq
  rw [BitVec.toNat_ofNat, BitVec.toNat_setWidth, BitVec.toNat_ofNat]
  omega

theorem readBits_zero (bs : BitReader) : bs.readBits 0 = (0, bs) := by
  obtain ⟨rest, err⟩ := bs
  cases err <;> rfl

/-- What is read of a header after the tests. -/
def ackFields (bs : BitReader) : U32 × BitReader :=
  let (ackByteCount, bs) := bs.readRangedUint32 0 maxAckByteCount.toNat
  let (pkAckMask, bs) := bs.readBits (ackByteCount * 8)
  let (_, bs) := bs.readBits 8
  (BitVec.ofNat 32 pkAckMask, bs)

variable (nc : NetConnection) (bs : BitReader)

/-- A header that passes the tests advances both counters by what it is ahead, and one that does not
changes nothing. -/
theorem readPacketHeader_eq : nc.readPacketHeader bs =
    if nc.admits (headerFields bs).1 then
      nc.acceptHeader (headerFields bs).1.packetType
        (nc.lastRecvSeq + BitVec.ofNat 32 (nc.ahead (headerFields bs).1))
        (nc.highestAckedSeq + BitVec.ofNat 32 (nc.newlyAcked (headerFields bs).1))
        (ackFields (headerFields bs).2).1 (ackFields (headerFields bs).2).2
    else nc.rejectHeader (headerFields bs).2 := by
  have htests : nc.readPacketHeader bs =
      let f := (headerFields bs).1
      let pkSequenceNumber := nc.lastRecvSeq + BitVec.ofNat 32 (nc.ahead f)
      let pkHighestAck := nc.highestAckedSeq + BitVec.ofNat 32 (nc.newlyAcked f)
      let bs := (headerFields bs).2
      if f.isGameData = false then nc.rejectHeader bs
      else if pkSequenceNumber - nc.lastRecvSeq > maxPacketWindowSize - 1 then nc.rejectHeader bs
      else if pkHighestAck > nc.lastSendSeq then nc.rejectHeader bs
      else nc.acceptHeader f.packetType pkSequenceNumber pkHighestAck (ackFields bs).1
        (ackFields bs).2 := by
    have hpad : packetHeaderPadBits = 0 := rfl
    simp only [readPacketHeader, headerFields, sequenceNumberBitSize, ackSequenceNumberBitSize,
      hpad, readBits_zero, Nat.reduceSub, join_fields (readBits_lt _ 5) (readBits_lt _ 6),
      low_eq (readBits_lt _ 10), completeSequence_eq, completeHighestAck_eq, ackFields, ahead,
      newlyAcked, ne_eq, not_true_eq_false, if_false]
    congr
  rw [htests]
  generalize (headerFields bs).1 = f
  generalize (headerFields bs).2 = after
  have hahead : nc.ahead f < 2048 := BitVec.isLt _
  have hnear : nc.lastRecvSeq + BitVec.ofNat 32 (nc.ahead f) - nc.lastRecvSeq >
      maxPacketWindowSize - 1 ↔ ¬ nc.ahead f ≤ 31 := by
    have hmax : maxPacketWindowSize - 1 = (31 : U32) := rfl
    rw [hmax]
    bv_omega
  simp only [admits, hnear]
  by_cases hdata : f.isGameData = true
  · by_cases hle : nc.ahead f ≤ 31
    · by_cases hack : nc.highestAckedSeq + BitVec.ofNat 32 (nc.newlyAcked f) ≤ nc.lastSendSeq
      · simp [hdata, hle, hack]
      · simp [hdata, hle, hack, BitVec.not_le.mp hack]
    · simp [hdata, hle]
  · simp [hdata]

end NetConnection

namespace Connection
open TNL.Go.NetConnection

variable {ε ω τ : Type} (E : EventTypes ε) (R : ObjectTypes ω τ)

/-- A packet whose header is not admitted leaves the connection as it was. -/
theorem processPacket_rejected (c : Connection ε ω) (bs : BitReader)
    (hrejected : c.net.admits (headerFields bs).1 = false) :
    c.processPacket E R bs = ⟨c, false, [], [], [], (headerFields bs).2⟩ := by
  rw [processPacket, readPacketHeader_eq, hrejected]
  rfl

theorem processPacket_accepted (c : Connection ε ω) (bs : BitReader) :
    (c.processPacket E R bs).accepted = c.net.admits (headerFields bs).1 := by
  have hok : (c.processPacket E R bs).accepted = (c.net.readPacketHeader bs).ok := by
    rw [processPacket]
    dsimp only
    split <;> rfl
  rw [hok, readPacketHeader_eq]
  split
  · rename_i hadmits
    exact hadmits.symm
  · rename_i hrejected
    exact (Bool.eq_false_iff.mpr hrejected).symm

end Connection

end TNL.Go
