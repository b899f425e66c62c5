import TNL.Stream.BitStream
import TNL.Connection.HeaderWindow

/-!
# Headers from packets of any length

`readPacketHeader` reads the fields one after another, each as zero once the
packet has ended, and never asks the stream whether it has. What happens to a
header that was cut short is what happens to its fields.
-/
namespace TNL
open Library BitStream

def headerTypeBits : ℕ := 2
def sequenceNumberBitSize : ℕ := 11
def ackSequenceNumberBitSize : ℕ := 10
def packetHeaderPadBits : ℕ := 0

/-- The bits of a value between 0 and `MaxAckByteCount`. -/
def ackByteCountBits : ℕ := 3

def NetPacketType.ofBits (bits : ℕ) : NetPacketType :=
  if bits = 0 then .dataPacket else if bits = 1 then .pingPacket
  else if bits = 2 then .ackPacket else .invalidPacketType

/-- The fields as they are read. The tests that stand between them only keep the rest from being
read. -/
def readHeader (pstream : BitStream) : PacketHeader × BitStream :=
  let (pkPacketType, s) := pstream.readInt headerTypeBits
  let (low, s) := s.readInt 5
  let (_, s) := s.readFlag
  let (high, s) := s.readInt (sequenceNumberBitSize - 5)
  let (pkHighestAck, s) := s.readInt ackSequenceNumberBitSize
  let (_, s) := s.readInt packetHeaderPadBits
  let (pkAckByteCount, s) := s.readInt ackByteCountBits
  let (pkAckMask, s) := s.readInt (pkAckByteCount * 8)
  let (_, s) := s.readInt 8
  (⟨.ofBits pkPacketType, BitVec.ofNat 11 (low ||| high <<< 5), BitVec.ofNat 10 pkHighestAck,
    BitVec.ofNat 3 pkAckByteCount, BitVec.ofNat 32 pkAckMask⟩, s)

/-- A received packet of `size` bytes, the memory behind it included. -/
def receivedPacket (memory : ℕ → Bool) (size : ℕ) : BitStream where
  buffer := memory
  mBufSize := size
  mOwnsMemory := false
  bitNum := 0
  error := false
  maxReadBitNum := size * 8
  maxWriteBitNum := 0

namespace NetConnection

variable {ν : Type*} {c : NetConnection ν} {ctx : ReadContext} {h : PacketHeader}

/-- Reading an unencrypted packet; `stackWord` is what the ack words hold before they are read. -/
def readPacket (c : NetConnection ν) (stackWord : ℕ → U32) (pstream : BitStream) :
    Option (Received ν) :=
  c.readPacketHeader ⟨fun _ _ _ => true, stackWord⟩ (readHeader pstream).1

/-- The header runs past the end of the packet, or acknowledges more packets than it has bits
for. -/
def Malformed (c : NetConnection ν) (pstream : BitStream) : Prop :=
  (readHeader pstream).2.error = true ∨
    8 * (readHeader pstream).1.ackByteCount.toNat <
      (c.packetHighestAck (readHeader pstream).1 - c.mHighestAckedSeq).toNat

/-- The packet is refused and changes nothing. -/
def NoEffect (c : NetConnection ν) (result : Option (Received ν)) : Prop :=
  ∃ r, result = some r ∧ r.body = false ∧ r.notified = [] ∧
    r.conn.mLastSeqRecvd = c.mLastSeqRecvd ∧ r.conn.mHighestAckedSeq = c.mHighestAckedSeq ∧
    r.conn.mAckMask = c.mAckMask ∧ r.conn.mLastRecvAckAck = c.mLastRecvAckAck ∧
    r.conn.mNotifyQueue = c.mNotifyQueue

/-- A header that repeats both counters and has nothing new to acknowledge. -/
def Repeats (c : NetConnection ν) (h : PacketHeader) : Prop :=
  c.packetSequence h = c.mLastSeqRecvd ∧ c.packetHighestAck h = c.mHighestAckedSeq ∧
    (h.packetType = .dataPacket → c.mAckMask.getLsbD 0 = true)

/-- The peer is never taken to know less than the last 32 acks. -/
def AckCovered (c : NetConnection ν) : Prop := c.mLastSeqRecvd - c.mLastRecvAckAck ≤ 32

theorem or_low_bit (mask : U32) (isData : Prop) [Decidable isData] :
    (mask <<< 0 ||| if isData then 1 else 0) = mask ↔ (isData → mask.getLsbD 0 = true) := by
  rw [BitVec.shiftLeft_zero]
  by_cases hdata : isData
  · simp only [hdata, if_true, true_imp_iff]
    constructor
    · intro heq
      rw [← heq]
      simp
    · intro hlow
      ext i hi
      by_cases hi0 : i = 0
      · subst hi0
        simpa using hlow
      · simp [hi0]
  · simp [hdata]

/-- Whatever the header, it has no effect exactly when it is rejected or repeats what is known. -/
theorem noEffect_iff (hcovered : c.AckCovered) (hout : c.outstanding ≤ 30)
    (hqueue : c.mNotifyQueue.length = c.outstanding) :
    c.NoEffect (c.readPacketHeader ctx h) ↔ c.headerAccepted ctx h = false ∨ c.Repeats h := by
  cases hacc : c.headerAccepted ctx h with
  | false =>
    rw [readPacketHeader_rejected hacc]
    simp [NoEffect]
  | true =>
    rw [or_iff_right (by simp)]
    constructor
    · rintro ⟨r, hr, -, -, hseq, hack, hmask, -⟩
      by_cases hcount : (c.packetHighestAck h - c.mHighestAckedSeq).toNat ≤ c.mNotifyQueue.length
      · rw [readPacketHeader_accepted hacc hcount] at hr
        obtain rfl := Option.some.inj hr
        have hsequence : c.packetSequence h = c.mLastSeqRecvd := hseq
        have hshift : (c.packetSequence h - c.mLastSeqRecvd).toNat = 0 := by
          rw [hsequence, BitVec.sub_self]
          rfl
        have hmasked : c.shiftedAckMask (c.packetSequence h) h.packetType = c.mAckMask := hmask
        unfold shiftedAckMask at hmasked
        rw [hshift] at hmasked
        exact ⟨hsequence, hack, (or_low_bit _ _).mp hmasked⟩
      · rw [readPacketHeader_faults hacc (not_le.mp hcount)] at hr
        cases hr
    · rintro ⟨hseq, hack, hmask⟩
      have hnone : (c.packetHighestAck h - c.mHighestAckedSeq).toNat = 0 := by
        rw [hack, BitVec.sub_self]
        rfl
      have hshift : (c.packetSequence h - c.mLastSeqRecvd).toNat = 0 := by
        rw [hseq, BitVec.sub_self]
        rfl
      have hmasked : c.shiftedAckMask (c.packetSequence h) h.packetType = c.mAckMask := by
        unfold shiftedAckMask
        rw [hshift]
        exact (or_low_bit _ _).mpr hmask
      have hkept : ¬ maxPacketWindowSize < c.packetSequence h - c.mLastRecvAckAck := by
        rw [hseq, BitVec.not_lt]
        exact hcovered
      refine ⟨_, readPacketHeader_accepted hacc (by omega), ?_, ?_, hseq, hack, hmasked, ?_, ?_⟩
      · simp [finishHeader, notifiedState, hseq]
      · rw [hnone]
        rfl
      · simp only [finishHeader, notifiedState, hnone, ackAckAfter]
        rw [if_neg hkept]
      · simp only [finishHeader, notifiedState, hnone, List.drop_zero]

theorem finishHeader_covered (c : NetConnection ν) (h : PacketHeader)
    (pkSequenceNumber pkHighestAck : U32) (notified : List (Notification ν)) :
    (c.finishHeader h pkSequenceNumber pkHighestAck notified).conn.AckCovered := by
  unfold AckCovered finishHeader
  dsimp only
  split
  · rw [maxPacketWindowSize]
    bv_omega
  · rename_i hle
    exact BitVec.not_lt.mp hle

end NetConnection

namespace Endpoint
open NetConnection

variable {ν : Type*} {initialSendSeq initialRecvSeq : U32} {as : List (Action ν)} {e : Endpoint ν}

theorem step_covered {a : Action ν} {f : Endpoint ν} (he : e.conn.AckCovered)
    (hstep : e.step a = some f) : f.conn.AckCovered := by
  cases a with
  | checkPacketSend cwnd note =>
    cases hfull : e.conn.windowFull cwnd <;> simp only [step, hfull, if_true] at hstep
    · obtain rfl := Option.some.inj hstep
      exact he
    · obtain rfl := Option.some.inj hstep
      exact he
  | sendPingPacket =>
    obtain rfl := Option.some.inj hstep
    exact he
  | sendAckPacket =>
    obtain rfl := Option.some.inj hstep
    exact he
  | readPacketHeader ctx h =>
    obtain ⟨r, hr, rfl⟩ := Option.map_eq_some_iff.mp hstep
    cases hacc : e.conn.headerAccepted ctx h with
    | false =>
      rw [readPacketHeader_rejected hacc] at hr
      obtain rfl := Option.some.inj hr
      exact he
    | true =>
      by_cases hcount :
          (e.conn.packetHighestAck h - e.conn.mHighestAckedSeq).toNat ≤ e.conn.mNotifyQueue.length
      · rw [readPacketHeader_accepted hacc hcount] at hr
        obtain rfl := Option.some.inj hr
        exact finishHeader_covered (e.conn.notifiedState ctx h) h _ _ []
      · rw [readPacketHeader_faults hacc (not_le.mp hcount)] at hr
        cases hr

theorem covered_of_reached (run : Reached initialSendSeq initialRecvSeq as e) :
    e.conn.AckCovered := by
  apply run.invariant (I := fun e => e.conn.AckCovered)
  · exact fun e a f he _ hstep => step_covered he hstep
  · simp [start, connected, AckCovered]

/-- A malformed packet has no effect exactly when its fields, as far as they could be read, fail
one of the tests or repeat what the receiver knows. -/
theorem malformed_noEffect_iff (run : Reached initialSendSeq initialRecvSeq as e)
    (stackWord : ℕ → U32) (memory : ℕ → Bool) (size : ℕ) :
    (e.conn.Malformed (receivedPacket memory size) →
      e.conn.NoEffect (e.conn.readPacket stackWord (receivedPacket memory size))) ↔
    (e.conn.Malformed (receivedPacket memory size) →
      e.conn.headerAccepted ⟨fun _ _ _ => true, stackWord⟩
        (readHeader (receivedPacket memory size)).1 = false ∨
      e.conn.Repeats (readHeader (receivedPacket memory size)).1) := by
  have hcounted := Counted.of_reached run
  have hout := hcounted.outstanding_eq
  have hbound := hcounted.bound
  apply imp_congr_right
  intro _
  exact noEffect_iff (covered_of_reached run) (by omega) hcounted.queue_length

/-- Three bytes of a data packet numbered 1: the part of the header that travels in clear. -/
def cutHeader : BitStream := receivedPacket (fun i => i == 2 || i == 7) 3

theorem malformed_noEffect_iff_cut :
    ((start 0 1 : Endpoint ℕ).conn.Malformed cutHeader →
      (start 0 1 : Endpoint ℕ).conn.NoEffect
        ((start 0 1 : Endpoint ℕ).conn.readPacket (fun _ => 0) cutHeader)) ↔
    ((start 0 1 : Endpoint ℕ).conn.Malformed cutHeader →
      (start 0 1 : Endpoint ℕ).conn.headerAccepted ⟨fun _ _ _ => true, fun _ => 0⟩
        (readHeader cutHeader).1 = false ∨
      (start 0 1 : Endpoint ℕ).conn.Repeats (readHeader cutHeader).1) :=
  malformed_noEffect_iff (.nil _) (fun _ => 0) _ 3

/-- The header ends after the counters, and is acted upon. -/
theorem cutHeader_accepted :
    ¬ ∀ (initialSendSeq initialRecvSeq : U32) (as : List (Action ℕ)) (e : Endpoint ℕ),
      Reached initialSendSeq initialRecvSeq as e →
        ∀ (stackWord : ℕ → U32) (memory : ℕ → Bool) (size : ℕ),
          e.conn.Malformed (receivedPacket memory size) →
            e.conn.NoEffect (e.conn.readPacket stackWord (receivedPacket memory size)) := by
  intro claim
  have hnone := claim 0 0 [] _ (.nil _) (fun _ => 0) (fun i => i == 2 || i == 7) 3
    (.inl (by decide))
  have hseq := (noEffect_iff (covered_of_reached (.nil _)) (by decide) (by decide)).mp hnone
  rcases hseq with hrejected | hrepeats
  · exact absurd hrejected (by decide)
  · exact absurd hrepeats.1 (by decide)

end Endpoint

end TNL
