import TNL.Connection.HeaderBits
import TNL.Go.BitStream

/-!
# The notify protocol of the Go port

The header of a packet has the low bits of the last sequence number sent and of
the last one received, and a mask of the data packets received up to that one.
A data packet takes the next sequence number and leaves a record in the slot of
that number, which goes to one of two callbacks when the packet is acknowledged.
Round trip times and the congestion window take no part in this and are left out.
-/
namespace TNL

def NetPacketType.bits : NetPacketType → ℕ
  | dataPacket => 0
  | pingPacket => 1
  | ackPacket => 2
  | invalidPacketType => 3

theorem NetPacketType.ofBits_bits (packetType : NetPacketType) :
    ofBits (packetType.bits % 2 ^ 2) = packetType := by cases packetType <;> rfl

end TNL

namespace TNL.Go
open Library

/-- The record of a data packet that is not acknowledged yet. -/
structure PacketNotify where
  sequence : U32
  deriving DecidableEq, Repr

/-- One call of `OnPacketReceived` or `OnPacketDropped`. -/
structure Outcome where
  note : PacketNotify
  received : Bool
  deriving DecidableEq, Repr

structure NetConnection where
  lastSendSeq : U32
  lastRecvSeq : U32
  highestAckedSeq : U32
  ackMask : U32
  lastRecvAckAck : U32
  notifyQueue : BitVec 5 → Option PacketNotify
  lastSeqRecvdAtSend : BitVec 5 → U32

/-- What `ReadPacketHeader` returns, with the callbacks it made and what is left of the packet. -/
structure ReadHeader where
  conn : NetConnection
  outcomes : List Outcome
  packetType : NetPacketType
  sequence : U32
  ok : Bool
  rest : BitReader

/-- `ProcessPacket` goes on with the events and the ghosts of the packet. -/
def ReadHeader.body (r : ReadHeader) : Bool := r.ok && r.packetType = .dataPacket

namespace NetConnection

def maxPacketWindowSize : U32 := 32
def maxAckByteCount : U32 := 4
def sequenceNumberBitSize : ℕ := 11
def sequenceNumberWindowSize : U32 := 2048
def sequenceNumberMask : U32 := 0xFFFFFFFF ^^^ (sequenceNumberWindowSize - 1)
def ackSequenceNumberBitSize : ℕ := 10
def ackSequenceNumberWindowSize : U32 := 1024
def ackSequenceNumberMask : U32 := 0xFFFFFFFF ^^^ (ackSequenceNumberWindowSize - 1)
def packetHeaderBitSize : ℕ := 3 + ackSequenceNumberBitSize + sequenceNumberBitSize
def packetHeaderByteSize : ℕ := (packetHeaderBitSize + 7) / 8
def packetHeaderPadBits : ℕ := packetHeaderByteSize * 8 - packetHeaderBitSize

def newNetConnection (initialSendSeq : U32) : NetConnection where
  lastSendSeq := initialSendSeq
  lastRecvSeq := 0
  highestAckedSeq := initialSendSeq
  ackMask := 0
  lastRecvAckAck := 0
  notifyQueue := fun _ => none
  lastSeqRecvdAtSend := fun _ => 0

def setInitialRecvSequence (nc : NetConnection) (seq : U32) : NetConnection :=
  { nc with lastRecvSeq := seq, lastRecvAckAck := seq }

/-- The packets sent and not yet acknowledged, as `WindowFull` counts them. -/
def outstanding (nc : NetConnection) : ℕ := (nc.lastSendSeq - nc.highestAckedSeq).toNat

def ackByteCount (nc : NetConnection) : U32 :=
  let ackByteCount := (nc.lastRecvSeq - nc.lastRecvAckAck + 7) >>> 3
  if ackByteCount > maxAckByteCount then maxAckByteCount else ackByteCount

/-- The fields of a header, once the send sequence has been advanced for a data packet. The send
delay is in units of eight milliseconds. -/
def writeFields (nc : NetConnection) (bs : BitWriter) (packetType : NetPacketType)
    (sendDelay : ℕ) : BitWriter :=
  let seq := nc.lastSendSeq &&& (sequenceNumberWindowSize - 1)
  let bs := bs.writeBits packetType.bits 2
  let bs := bs.writeBits (seq &&& 0x1F).toNat 5
  let bs := bs.writeFlag true
  let bs := bs.writeBits (seq >>> 5).toNat (sequenceNumberBitSize - 5)
  let ackSeq := nc.lastRecvSeq &&& (ackSequenceNumberWindowSize - 1)
  let bs := bs.writeBits ackSeq.toNat ackSequenceNumberBitSize
  let bs := bs.writeBits 0 packetHeaderPadBits
  let bs := bs.writeRangedUint32 nc.ackByteCount.toNat 0 maxAckByteCount.toNat
  let bs := bs.writeBits nc.ackMask.toNat (nc.ackByteCount.toNat * 8)
  bs.writeBits (if sendDelay > 255 then 255 else sendDelay) 8

def writePacketHeader (nc : NetConnection) (bs : BitWriter) (packetType : NetPacketType)
    (sendDelay : ℕ) : BitWriter × NetConnection :=
  if packetType = .dataPacket then
    let nc := { nc with lastSendSeq := nc.lastSendSeq + 1 }
    (nc.writeFields bs packetType sendDelay,
      { nc with
        notifyQueue := Function.update nc.notifyQueue (nc.lastSendSeq.setWidth 5)
          (some ⟨nc.lastSendSeq⟩)
        lastSeqRecvdAtSend := Function.update nc.lastSeqRecvdAtSend (nc.lastSendSeq.setWidth 5)
          nc.lastRecvSeq })
  else (nc.writeFields bs packetType sendDelay, nc)

/-- The sequence number with these low bits that is expected next. -/
def completeSequence (nc : NetConnection) (low : U32) : U32 :=
  let pkSequenceNumber := low ||| (nc.lastRecvSeq &&& sequenceNumberMask)
  if pkSequenceNumber < nc.lastRecvSeq then pkSequenceNumber + sequenceNumberWindowSize
  else pkSequenceNumber

def completeHighestAck (nc : NetConnection) (low : U32) : U32 :=
  let pkHighestAck := low ||| (nc.highestAckedSeq &&& ackSequenceNumberMask)
  if pkHighestAck < nc.highestAckedSeq then pkHighestAck + ackSequenceNumberWindowSize
  else pkHighestAck

/-- What the mask says about a packet. -/
def ackSuccess (pkHighestAck pkAckMask notifyIndex : U32) : Bool :=
  let bit := (pkHighestAck - notifyIndex) &&& 0x1F
  pkAckMask.getLsbD bit.toNat

/-- One round of the loop of `processAcks`. -/
def processAck (pkHighestAck pkAckMask notifyIndex : U32) (nc : NetConnection) :
    NetConnection × List Outcome :=
  let slot : BitVec 5 := notifyIndex.setWidth 5
  let success := ackSuccess pkHighestAck pkAckMask notifyIndex
  match nc.notifyQueue slot with
  | none => (nc, [])
  | some note =>
    ({ nc with
        lastRecvAckAck := if success then nc.lastSeqRecvdAtSend slot else nc.lastRecvAckAck
        notifyQueue := Function.update nc.notifyQueue slot none },
      [⟨note, success⟩])

/-- The loop of `processAcks`, for `count` packets from `notifyIndex` on. -/
def processAcks (pkHighestAck pkAckMask : U32) :
    ℕ → U32 → NetConnection → NetConnection × List Outcome
  | 0, _, nc => (nc, [])
  | count + 1, notifyIndex, nc =>
    let (nc, outcomes) := processAck pkHighestAck pkAckMask notifyIndex nc
    let (nc, others) := processAcks pkHighestAck pkAckMask count (notifyIndex + 1) nc
    (nc, outcomes ++ others)

/-- A packet without a new number leaves the mask alone, whatever its type. -/
def shiftAckMask (nc : NetConnection) (pkSequenceNumber : U32) (pktType : NetPacketType) : U32 :=
  let shift := pkSequenceNumber - nc.lastRecvSeq
  if shift > 0 then
    let ackMask := if shift ≥ 32 then 0 else nc.ackMask <<< shift.toNat
    if pktType = .dataPacket then ackMask ||| 1 else ackMask
  else nc.ackMask

/-- The part of `ReadPacketHeader` after the fields are read. -/
def acceptHeader (nc : NetConnection) (pktType : NetPacketType)
    (pkSequenceNumber pkHighestAck pkAckMask : U32) (bs : BitReader) : ReadHeader :=
  let notifyCount := pkHighestAck - nc.highestAckedSeq
  let (acked, outcomes) := processAcks pkHighestAck pkAckMask notifyCount.toNat
    (nc.highestAckedSeq + 1) nc
  { conn := { acked with
      ackMask := acked.shiftAckMask pkSequenceNumber pktType
      lastRecvSeq := pkSequenceNumber
      highestAckedSeq := pkHighestAck }
    outcomes := outcomes
    packetType := pktType
    sequence := pkSequenceNumber
    ok := true
    rest := bs }

def rejectHeader (nc : NetConnection) (bs : BitReader) : ReadHeader :=
  ⟨nc, [], .invalidPacketType, 0, false, bs⟩

def readPacketHeader (nc : NetConnection) (bs : BitReader) : ReadHeader :=
  let (pktType, bs) := bs.readBits 2
  let (seqLow, bs) := bs.readBits 5
  let (isGameData, bs) := bs.readFlag
  let (seqHigh, bs) := bs.readBits (sequenceNumberBitSize - 5)
  let (ackLow, bs) := bs.readBits ackSequenceNumberBitSize
  let (pad, bs) := bs.readBits packetHeaderPadBits
  if pad ≠ 0 then nc.rejectHeader bs
  else if isGameData = false then nc.rejectHeader bs
  else
    let pkSequenceNumber := nc.completeSequence (BitVec.ofNat 32 seqLow |||
      BitVec.ofNat 32 seqHigh <<< 5)
    if pkSequenceNumber - nc.lastRecvSeq > maxPacketWindowSize - 1 then nc.rejectHeader bs
    else
      let pkHighestAck := nc.completeHighestAck (BitVec.ofNat 32 ackLow)
      if pkHighestAck > nc.lastSendSeq then nc.rejectHeader bs
      else
        let (ackByteCount, bs) := bs.readRangedUint32 0 maxAckByteCount.toNat
        let (pkAckMask, bs) := bs.readBits (ackByteCount * 8)
        let (_, bs) := bs.readBits 8
        nc.acceptHeader (.ofBits pktType) pkSequenceNumber pkHighestAck (BitVec.ofNat 32 pkAckMask)
          bs

section writePacketHeader

variable (nc : NetConnection) (bs : BitWriter) (packetType : NetPacketType) (sendDelay : ℕ)

theorem writePacketHeader_lastSendSeq :
    (nc.writePacketHeader bs packetType sendDelay).2.lastSendSeq =
      if packetType = .dataPacket then nc.lastSendSeq + 1 else nc.lastSendSeq := by
  rw [writePacketHeader]
  split <;> rfl

@[simp] theorem writePacketHeader_lastRecvSeq :
    (nc.writePacketHeader bs packetType sendDelay).2.lastRecvSeq = nc.lastRecvSeq := by
  rw [writePacketHeader]
  split <;> rfl

@[simp] theorem writePacketHeader_highestAckedSeq :
    (nc.writePacketHeader bs packetType sendDelay).2.highestAckedSeq = nc.highestAckedSeq := by
  rw [writePacketHeader]
  split <;> rfl

@[simp] theorem writePacketHeader_ackMask :
    (nc.writePacketHeader bs packetType sendDelay).2.ackMask = nc.ackMask := by
  rw [writePacketHeader]
  split <;> rfl

@[simp] theorem writePacketHeader_lastRecvAckAck :
    (nc.writePacketHeader bs packetType sendDelay).2.lastRecvAckAck = nc.lastRecvAckAck := by
  rw [writePacketHeader]
  split <;> rfl

theorem writePacketHeader_notifyQueue :
    (nc.writePacketHeader bs packetType sendDelay).2.notifyQueue =
      if packetType = .dataPacket then Function.update nc.notifyQueue
        ((nc.lastSendSeq + 1).setWidth 5) (some ⟨nc.lastSendSeq + 1⟩) else nc.notifyQueue := by
  rw [writePacketHeader]
  split <;> rfl

theorem writePacketHeader_lastSeqRecvdAtSend :
    (nc.writePacketHeader bs packetType sendDelay).2.lastSeqRecvdAtSend =
      if packetType = .dataPacket then Function.update nc.lastSeqRecvdAtSend
        ((nc.lastSendSeq + 1).setWidth 5) nc.lastRecvSeq else nc.lastSeqRecvdAtSend := by
  rw [writePacketHeader]
  split <;> rfl

/-- The fields of a header are those of the state that is left behind. -/
theorem writePacketHeader_fst : (nc.writePacketHeader bs packetType sendDelay).1 =
    (nc.writePacketHeader bs packetType sendDelay).2.writeFields bs packetType sendDelay := by
  rw [writePacketHeader]
  split <;> rfl

end writePacketHeader

section fields

variable (nc peer : NetConnection) (packetType : NetPacketType) (sendDelay : ℕ)

theorem toNat_and_pow_sub_one (s : U32) {k : ℕ} (hk : k < 32) :
    (s &&& BitVec.ofNat 32 (2 ^ k - 1)).toNat = s.toNat % 2 ^ k := by
  have hpow : 2 ^ k < 2 ^ 32 := Nat.pow_lt_pow_right (by decide) hk
  rw [BitVec.toNat_and, BitVec.toNat_ofNat, Nat.mod_eq_of_lt (by omega),
    Nat.and_two_pow_sub_one_eq_mod]

/-- The two parts of a sequence number, put together again. -/
theorem join_sequence (s : U32) :
    BitVec.ofNat 32 ((s &&& 2047 &&& 0x1F).toNat % 2 ^ 5) |||
      BitVec.ofNat 32 (((s &&& 2047) >>> 5).toNat % 2 ^ 6) <<< 5 =
        (s.setWidth 11).setWidth 32 := by
  have hlow : (s &&& 2047 &&& 0x1F).toNat = s.toNat % 2 ^ 11 % 2 ^ 5 := by
    rw [← toNat_and_pow_sub_one s (by decide : 11 < 32)]
    exact toNat_and_pow_sub_one _ (by decide : 5 < 32)
  have hhigh : ((s &&& 2047) >>> 5).toNat = s.toNat % 2 ^ 11 / 2 ^ 5 := by
    rw [BitVec.toNat_ushiftRight, Nat.shiftRight_eq_div_pow,
      ← toNat_and_pow_sub_one s (by decide : 11 < 32)]
    rfl
  have hpos : s.toNat % 2 ^ 11 % 2 ^ 5 % 2 ^ 5 < 2 ^ 5 := by omega
  apply BitVec.eq_of_toNat_eq
  rw [hlow, hhigh, BitVec.toNat_or, BitVec.toNat_shiftLeft, BitVec.toNat_ofNat, BitVec.toNat_ofNat,
    Nat.or_comm, Nat.mod_eq_of_lt (by omega : s.toNat % 2 ^ 11 % 2 ^ 5 % 2 ^ 5 < 2 ^ 32),
    Nat.mod_eq_of_lt (by omega : s.toNat % 2 ^ 11 / 2 ^ 5 % 2 ^ 6 < 2 ^ 32),
    Nat.mod_eq_of_lt (by rw [Nat.shiftLeft_eq]; omega), ← Nat.shiftLeft_add_eq_or_of_lt hpos,
    Nat.shiftLeft_eq, BitVec.toNat_setWidth, BitVec.toNat_setWidth]
  omega

theorem low_ack (s : U32) :
    BitVec.ofNat 32 ((s &&& 1023).toNat % 2 ^ 10) = (s.setWidth 10).setWidth 32 := by
  apply BitVec.eq_of_toNat_eq
  have hlow : (s &&& 1023).toNat = s.toNat % 2 ^ 10 :=
    toNat_and_pow_sub_one s (by decide : 10 < 32)
  rw [hlow, BitVec.toNat_ofNat, BitVec.toNat_setWidth, BitVec.toNat_setWidth]
  omega

theorem ackByteCount_le : nc.ackByteCount.toNat ≤ 4 := by
  rw [ackByteCount]
  split
  · exact le_rfl
  · rename_i h
    exact BitVec.le_def.mp (BitVec.not_lt.mp h)

/-- The mask as it is read: the bytes that were not sent are zero. -/
def sentMask : U32 := BitVec.ofNat 32 (nc.ackMask.toNat % 2 ^ (nc.ackByteCount.toNat * 8))

/-- Whether the tests of the header let a packet pass. -/
def accepts : Bool :=
  nc.completeSequence ((peer.lastSendSeq.setWidth 11).setWidth 32) - nc.lastRecvSeq ≤
      maxPacketWindowSize - 1 &&
    nc.completeHighestAck ((peer.lastRecvSeq.setWidth 10).setWidth 32) ≤ nc.lastSendSeq

theorem writeFields_nil : peer.writeFields [] packetType sendDelay =
    bitsOf 2 packetType.bits ++ (bitsOf 5 (peer.lastSendSeq &&& 2047 &&& 0x1F).toNat ++
      true :: (bitsOf 6 ((peer.lastSendSeq &&& 2047) >>> 5).toNat ++
        (bitsOf 10 (peer.lastRecvSeq &&& 1023).toNat ++ (bitsOf 3 peer.ackByteCount.toNat ++
          (bitsOf (peer.ackByteCount.toNat * 8) peer.ackMask.toNat ++
            bitsOf 8 (if sendDelay > 255 then 255 else sendDelay)))))) := by
  have hranged : ∀ bs : BitWriter, bs.writeRangedUint32 peer.ackByteCount.toNat 0
      maxAckByteCount.toNat = bs ++ bitsOf 3 peer.ackByteCount.toNat := by
    intro bs
    have hle := peer.ackByteCount_le
    have hmax : maxAckByteCount.toNat = 4 := rfl
    rw [BitWriter.writeRangedUint32, if_neg (by omega), BitWriter.writeBits,
      show getNextBinLog2 (maxAckByteCount.toNat - 0 + 1) = 3 by decide, Nat.sub_zero]
  simp only [writeFields, hranged, BitWriter.writeBits, BitWriter.writeFlag, List.nil_append,
    List.append_assoc, List.cons_append]
  rfl

theorem readRangedUint32_ackByteCount (rest : List Bool) :
    BitReader.readRangedUint32 ⟨bitsOf 3 peer.ackByteCount.toNat ++ rest, false⟩ 0
      maxAckByteCount.toNat = (peer.ackByteCount.toNat, ⟨rest, false⟩) := by
  have hle := peer.ackByteCount_le
  rw [BitReader.readRangedUint32,
    show getNextBinLog2 (maxAckByteCount.toNat - 0 + 1) = 3 by decide, BitReader.readBits_bitsOf,
    Nat.mod_eq_of_lt (by omega)]
  rfl

theorem readBits_padBits (rest : List Bool) :
    BitReader.readBits ⟨rest, false⟩ packetHeaderPadBits = (0, ⟨rest, false⟩) := rfl

/-- What a header is read as. -/
theorem readPacketHeader_writeFields (body : List Bool) :
    (nc.accepts peer = true ∧
      nc.readPacketHeader ⟨peer.writeFields [] packetType sendDelay ++ body, false⟩ =
        nc.acceptHeader packetType
          (nc.completeSequence ((peer.lastSendSeq.setWidth 11).setWidth 32))
          (nc.completeHighestAck ((peer.lastRecvSeq.setWidth 10).setWidth 32)) peer.sentMask
          ⟨body, false⟩) ∨
      (nc.accepts peer = false ∧
        ∃ rest, nc.readPacketHeader ⟨peer.writeFields [] packetType sendDelay ++ body, false⟩ =
          nc.rejectHeader rest) := by
  rw [readPacketHeader, writeFields_nil]
  generalize (if sendDelay > 255 then 255 else sendDelay) = delay
  simp only [List.append_assoc, List.cons_append, BitReader.readBits_bitsOf,
    BitReader.readFlag_cons, sequenceNumberBitSize, Nat.reduceSub, ackSequenceNumberBitSize,
    readBits_padBits, readRangedUint32_ackByteCount, join_sequence, low_ack,
    NetPacketType.ofBits_bits, ne_eq, not_true_eq_false, if_false, Bool.true_eq_false]
  rw [accepts]
  split_ifs with hseq hack
  · refine .inr ⟨?_, _, rfl⟩
    rw [decide_eq_false (BitVec.not_le.mpr hseq), Bool.false_and]
  · refine .inr ⟨?_, _, rfl⟩
    rw [decide_eq_false (BitVec.not_le.mpr hack), Bool.and_false]
  · refine .inl ⟨?_, rfl⟩
    rw [decide_eq_true (BitVec.not_lt.mp hseq), decide_eq_true (BitVec.not_lt.mp hack)]
    rfl

end fields

section processAcks

variable {pkHighestAck pkAckMask : U32} (nc : NetConnection)

/-- Numbers less than a window apart have different slots. -/
theorem slot_ne (i : U32) {k d : ℕ} (hd : 0 < d) (hd' : d < 32) :
    (i + BitVec.ofNat 32 (k + d)).setWidth 5 ≠ (i + BitVec.ofNat 32 k).setWidth 5 := by
  intro heq
  have htoNat := congrArg BitVec.toNat heq
  rw [BitVec.toNat_setWidth, BitVec.toNat_setWidth, BitVec.toNat_add, BitVec.toNat_add,
    BitVec.toNat_ofNat, BitVec.toNat_ofNat] at htoNat
  omega

theorem add_ofNat_succ (i : U32) (k : ℕ) :
    i + 1 + BitVec.ofNat 32 k = i + BitVec.ofNat 32 (k + 1) := by
  bv_omega

theorem processAck_of_slot {i : U32} {note : PacketNotify}
    (hslot : nc.notifyQueue (i.setWidth 5) = some note) :
    processAck pkHighestAck pkAckMask i nc =
      ({ nc with
          lastRecvAckAck := if ackSuccess pkHighestAck pkAckMask i then
            nc.lastSeqRecvdAtSend (i.setWidth 5) else nc.lastRecvAckAck
          notifyQueue := Function.update nc.notifyQueue (i.setWidth 5) none },
        [⟨note, ackSuccess pkHighestAck pkAckMask i⟩]) := by
  rw [processAck]
  simp only [hslot]

theorem processAck_frame (pkHighestAck pkAckMask i : U32) :
    let acked := (processAck pkHighestAck pkAckMask i nc).1
    acked.lastSendSeq = nc.lastSendSeq ∧ acked.lastRecvSeq = nc.lastRecvSeq ∧
      acked.highestAckedSeq = nc.highestAckedSeq ∧ acked.ackMask = nc.ackMask ∧
      acked.lastSeqRecvdAtSend = nc.lastSeqRecvdAtSend := by
  rw [processAck]
  cases nc.notifyQueue (i.setWidth 5) <;> exact ⟨rfl, rfl, rfl, rfl, rfl⟩

theorem processAcks_frame (pkHighestAck pkAckMask : U32) (count : ℕ) (i : U32) :
    let acked := (processAcks pkHighestAck pkAckMask count i nc).1
    acked.lastSendSeq = nc.lastSendSeq ∧ acked.lastRecvSeq = nc.lastRecvSeq ∧
      acked.highestAckedSeq = nc.highestAckedSeq ∧ acked.ackMask = nc.ackMask ∧
      acked.lastSeqRecvdAtSend = nc.lastSeqRecvdAtSend := by
  induction count generalizing i nc with
  | zero => exact ⟨rfl, rfl, rfl, rfl, rfl⟩
  | succ count ih =>
    obtain ⟨hsend, hrecv, hacked, hmask, hatSend⟩ :=
      nc.processAck_frame pkHighestAck pkAckMask i
    obtain ⟨hsend', hrecv', hacked', hmask', hatSend'⟩ :=
      ih (processAck pkHighestAck pkAckMask i nc).1 (i + 1)
    exact ⟨hsend'.trans hsend, hrecv'.trans hrecv, hacked'.trans hacked, hmask'.trans hmask,
      hatSend'.trans hatSend⟩

/-- A slot that belongs to none of the packets is left alone. -/
theorem processAcks_notifyQueue {count : ℕ} {i : U32} {slot : BitVec 5}
    (hslot : ∀ k < count, slot ≠ (i + BitVec.ofNat 32 k).setWidth 5) :
    (processAcks pkHighestAck pkAckMask count i nc).1.notifyQueue slot = nc.notifyQueue slot := by
  induction count generalizing i nc with
  | zero => rfl
  | succ count ih =>
    have hfirst : (processAck pkHighestAck pkAckMask i nc).1.notifyQueue slot =
        nc.notifyQueue slot := by
      have hne : slot ≠ i.setWidth 5 := by simpa using hslot 0 (Nat.succ_pos count)
      rw [processAck]
      cases nc.notifyQueue (i.setWidth 5) with
      | none => rfl
      | some note => exact Function.update_of_ne hne ..
    rw [← hfirst]
    apply ih
    intro k hk
    rw [add_ofNat_succ]
    exact hslot (k + 1) (Nat.succ_lt_succ hk)

/-- Every packet whose record is in its slot goes to one callback, in order, as the mask says. -/
theorem processAcks_outcomes {count : ℕ} {i : U32} (hcount : count ≤ 32)
    (hslots : ∀ k < count, nc.notifyQueue ((i + BitVec.ofNat 32 k).setWidth 5) =
      some ⟨i + BitVec.ofNat 32 k⟩) :
    (processAcks pkHighestAck pkAckMask count i nc).2 = (List.range count).map (fun k =>
      ⟨⟨i + BitVec.ofNat 32 k⟩, ackSuccess pkHighestAck pkAckMask (i + BitVec.ofNat 32 k)⟩) := by
  induction count generalizing i nc with
  | zero => rfl
  | succ count ih =>
    have hfirst : nc.notifyQueue (i.setWidth 5) = some ⟨i⟩ := by
      simpa using hslots 0 (Nat.succ_pos count)
    rw [processAcks, processAck_of_slot nc hfirst, List.range_succ_eq_map, List.map_cons,
      List.map_map]
    dsimp only
    rw [ih]
    · rw [show i + BitVec.ofNat 32 0 = i by simp, List.singleton_append]
      congr 1
      exact List.map_congr_left (fun k _ => by
        simp only [Function.comp_apply, add_ofNat_succ, Nat.succ_eq_add_one])
    · omega
    · intro k hk
      have hne := slot_ne i (k := 0) (d := k + 1) (by omega) (by omega)
      rw [Nat.zero_add, show i + BitVec.ofNat 32 0 = i by simp] at hne
      rw [add_ofNat_succ]
      exact (Function.update_of_ne hne ..).trans (hslots (k + 1) (Nat.succ_lt_succ hk))

theorem mem_processAcks {count : ℕ} {i : U32} {o : Outcome} (hcount : count ≤ 32)
    (hslots : ∀ k < count, nc.notifyQueue ((i + BitVec.ofNat 32 k).setWidth 5) =
      some ⟨i + BitVec.ofNat 32 k⟩)
    (ho : o ∈ (processAcks pkHighestAck pkAckMask count i nc).2) :
    ∃ k < count, o = ⟨⟨i + BitVec.ofNat 32 k⟩,
      ackSuccess pkHighestAck pkAckMask (i + BitVec.ofNat 32 k)⟩ := by
  rw [nc.processAcks_outcomes hcount hslots] at ho
  obtain ⟨k, hk, rfl⟩ := List.mem_map.mp ho
  exact ⟨k, List.mem_range.mp hk, rfl⟩

/-- The new `lastRecvAckAck` is its old value or one stored for a packet the mask acknowledges. -/
theorem processAcks_lastRecvAckAck {P : U32 → Prop} {count : ℕ} {i : U32}
    (hlast : P nc.lastRecvAckAck)
    (hsent : ∀ k < count, ackSuccess pkHighestAck pkAckMask (i + BitVec.ofNat 32 k) = true →
      P (nc.lastSeqRecvdAtSend ((i + BitVec.ofNat 32 k).setWidth 5))) :
    P (processAcks pkHighestAck pkAckMask count i nc).1.lastRecvAckAck := by
  induction count generalizing i nc with
  | zero => exact hlast
  | succ count ih =>
    have hfirst : P (processAck pkHighestAck pkAckMask i nc).1.lastRecvAckAck := by
      rw [processAck]
      cases nc.notifyQueue (i.setWidth 5) with
      | none => exact hlast
      | some note =>
        change P (if ackSuccess pkHighestAck pkAckMask i = true then _ else _)
        split
        · rename_i hsuccess
          simpa using hsent 0 (Nat.succ_pos count) (by simpa using hsuccess)
        · exact hlast
    apply ih _ hfirst
    intro k hk
    rw [add_ofNat_succ, (nc.processAck_frame pkHighestAck pkAckMask i).2.2.2.2]
    exact hsent (k + 1) (Nat.succ_lt_succ hk)

end processAcks

section acceptHeader

variable (nc : NetConnection) (pktType : NetPacketType) (pkSequenceNumber pkHighestAck : U32)
  (pkAckMask : U32) (bs : BitReader)

/-- What a header leaves behind of the counters. -/
theorem acceptHeader_counters :
    let r := nc.acceptHeader pktType pkSequenceNumber pkHighestAck pkAckMask bs
    r.conn.lastSendSeq = nc.lastSendSeq ∧ r.conn.lastRecvSeq = pkSequenceNumber ∧
      r.conn.highestAckedSeq = pkHighestAck ∧
      r.conn.ackMask = nc.shiftAckMask pkSequenceNumber pktType ∧
      r.conn.lastSeqRecvdAtSend = nc.lastSeqRecvdAtSend ∧
      r.body = decide (pktType = .dataPacket) := by
  obtain ⟨hsend, hrecv, -, hmask, hatSend⟩ := nc.processAcks_frame pkHighestAck pkAckMask
    (pkHighestAck - nc.highestAckedSeq).toNat (nc.highestAckedSeq + 1)
  refine ⟨hsend, rfl, rfl, ?_, hatSend, rfl⟩
  simp only [acceptHeader, shiftAckMask, hrecv, hmask]

/-- A packet with a new number shifts the mask, and sets its own bit when it has data. -/
theorem shiftAckMask_eq (hnear : pkSequenceNumber - nc.lastRecvSeq ≤ 31)
    (hnew : pktType = .dataPacket → pkSequenceNumber ≠ nc.lastRecvSeq) :
    nc.shiftAckMask pkSequenceNumber pktType =
      (nc.ackMask <<< (pkSequenceNumber - nc.lastRecvSeq).toNat) |||
        (if decide (pktType = .dataPacket) then 1 else 0) := by
  rw [shiftAckMask]
  by_cases hshift : pkSequenceNumber - nc.lastRecvSeq > 0
  · have hsmall : ¬ pkSequenceNumber - nc.lastRecvSeq ≥ 32 := by bv_omega
    rw [if_pos hshift, if_neg hsmall]
    by_cases hdata : pktType = .dataPacket <;> simp [hdata]
  · have hsame : pkSequenceNumber = nc.lastRecvSeq := by bv_omega
    have hdata : pktType ≠ .dataPacket := fun hdata => hnew hdata hsame
    rw [if_neg hshift, hsame]
    simp [hdata]

end acceptHeader

section counters

variable (nc : NetConnection)

theorem completeSequence_toNat (low : BitVec 11) :
    (nc.completeSequence (low.setWidth 32)).toNat =
      expandCounter 2048 nc.lastRecvSeq.toNat low.toNat % 2 ^ 32 := by
  have hmask : sequenceNumberMask = BitVec.allOnes 32 <<< 11 := by decide
  rw [completeSequence, hmask]
  exact toNat_complete (by omega) nc.lastRecvSeq sequenceNumberWindowSize low rfl

theorem completeHighestAck_toNat (low : BitVec 10) :
    (nc.completeHighestAck (low.setWidth 32)).toNat =
      expandCounter 1024 nc.highestAckedSeq.toNat low.toNat % 2 ^ 32 := by
  have hmask : ackSequenceNumberMask = BitVec.allOnes 32 <<< 10 := by decide
  rw [completeHighestAck, hmask]
  exact toNat_complete (by omega) nc.highestAckedSeq ackSequenceNumberWindowSize low rfl

theorem completeSequence_eq (low : BitVec 11) : nc.completeSequence (low.setWidth 32) =
    nc.lastRecvSeq + BitVec.ofNat 32 (low - nc.lastRecvSeq.setWidth 11).toNat := by
  have hle : nc.lastRecvSeq.toNat ≤ expandCounter 2048 nc.lastRecvSeq.toNat low.toNat :=
    le_expandCounter low.isLt
  have hlt : expandCounter 2048 nc.lastRecvSeq.toNat low.toNat < nc.lastRecvSeq.toNat + 2048 :=
    expandCounter_lt low.isLt
  have hmod : expandCounter 2048 nc.lastRecvSeq.toNat low.toNat % 2048 = low.toNat :=
    expandCounter_mod low.isLt
  have hcomplete := nc.completeSequence_toNat low
  apply BitVec.eq_of_toNat_eq
  rw [hcomplete, BitVec.toNat_add, BitVec.toNat_ofNat, BitVec.toNat_sub, BitVec.toNat_setWidth]
  omega

theorem completeHighestAck_eq (low : BitVec 10) : nc.completeHighestAck (low.setWidth 32) =
    nc.highestAckedSeq + BitVec.ofNat 32 (low - nc.highestAckedSeq.setWidth 10).toNat := by
  have hle : nc.highestAckedSeq.toNat ≤ expandCounter 1024 nc.highestAckedSeq.toNat low.toNat :=
    le_expandCounter low.isLt
  have hlt : expandCounter 1024 nc.highestAckedSeq.toNat low.toNat < nc.highestAckedSeq.toNat + 1024 :=
    expandCounter_lt low.isLt
  have hmod : expandCounter 1024 nc.highestAckedSeq.toNat low.toNat % 1024 = low.toNat :=
    expandCounter_mod low.isLt
  have hcomplete := nc.completeHighestAck_toNat low
  apply BitVec.eq_of_toNat_eq
  rw [hcomplete, BitVec.toNat_add, BitVec.toNat_ofNat, BitVec.toNat_sub, BitVec.toNat_setWidth]
  omega

/-- The mask reports on every packet after `lastRecvAckAck`, as far as it goes. -/
theorem ackSuccess_sentMask {n : U32} (hle : n.toNat ≤ nc.lastRecvSeq.toNat)
    (hnear : nc.lastRecvSeq.toNat < n.toNat + 32)
    (hknown : nc.lastRecvAckAck.toNat < n.toNat) (hwrap : nc.lastRecvSeq.toNat + 7 < 2 ^ 32) :
    ackSuccess nc.lastRecvSeq nc.sentMask n =
      nc.ackMask.getLsbD (nc.lastRecvSeq.toNat - n.toNat) := by
  have hbit : ((nc.lastRecvSeq - n) &&& 0x1F).toNat = nc.lastRecvSeq.toNat - n.toNat := by
    have hdiff : (nc.lastRecvSeq - n).toNat = nc.lastRecvSeq.toNat - n.toNat := by bv_omega
    rw [BitVec.toNat_and, hdiff]
    exact (Nat.and_two_pow_sub_one_eq_mod _ 5).trans (Nat.mod_eq_of_lt (by omega))
  have hcount : (nc.lastRecvSeq - nc.lastRecvAckAck + 7).toNat >>> 3 =
      (nc.lastRecvSeq.toNat - nc.lastRecvAckAck.toNat + 7) / 8 := by
    rw [Nat.shiftRight_eq_div_pow]
    bv_omega
  have hcovered : nc.lastRecvSeq.toNat - n.toNat < nc.ackByteCount.toNat * 8 := by
    rw [ackByteCount]
    split
    · change _ < 4 * 8
      omega
    · rw [BitVec.toNat_ushiftRight, hcount]
      omega
  simp only [ackSuccess]
  rw [hbit, sentMask, BitVec.getLsbD_ofNat, Nat.testBit_mod_two_pow, decide_eq_true hcovered,
    decide_eq_true (by omega : nc.lastRecvSeq.toNat - n.toNat < 32), Bool.true_and, Bool.true_and]
  rfl

end counters

end NetConnection

end TNL.Go
