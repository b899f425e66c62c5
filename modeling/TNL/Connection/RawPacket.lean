import TNL.Connection.AckCoverage
import TNL.Connection.CipherCounter
import TNL.Connection.HeaderBits
import TNL.Connection.PacketRate
import TNL.Ghost.PacketBits
import TNL.Stream.Encryption

/-!
# Raw packets

A data packet as `writeRawPacket` writes it: the header, what it says of the rate,
the sections of the events and of the ghosts, and the signature. Every section is
left with enough space for what follows it. How the local time enters the header
is left out.
-/
namespace TNL
open BitStream Library

def messageSignatureBytes : ℕ := 5
def packetHeaderByteSize : ℕ := 3

/-- A value of a range. -/
def BitStream.writeRangedU32 (s : BitStream) (value rangeStart rangeEnd : U32) : BitStream :=
  s.writeInt (value - rangeStart).toNat (TypedStream.rangeBits rangeStart rangeEnd).toNat

/-- The header of a connection, with at most one word of acks. -/
def NetConnection.writeHeader {ν : Type*} (c : NetConnection ν) (packetType : NetPacketType)
    (sendDelay : ℕ) (s : BitStream) : BitStream :=
  let s := s.writeInt packetType.value.toNat headerTypeBits
  let s := s.writeInt c.mLastSendSeq.toNat 5
  let s := s.writeFlag true
  let s := s.writeInt (c.mLastSendSeq >>> 5).toNat (sequenceNumberBitSize - 5)
  let s := s.writeInt c.mLastSeqRecvd.toNat ackSequenceNumberBitSize
  let s := s.writeInt 0 packetHeaderPadBits
  let s := s.writeRangedU32 c.ackByteCount 0 4
  let s := s.writeInt c.mAckMask.toNat (c.ackByteCount.toNat * 8)
  s.writeInt (min sendDelay 2047 / 8) 8

/-- What a packet says of the rate. -/
def PacketRate.LocalRate.write (side : LocalRate) (s : BitStream) : BitStream :=
  let s := s.writeFlag side.mLocalRateChanged
  if side.mLocalRateChanged then
    let s := s.writeFlag side.connectionAdaptive
    if side.connectionAdaptive then s
    else
      let s := s.writeRangedU32 side.mLocalRate.maxRecvBandwidth 0 maxFixedBandwidth
      let s := s.writeRangedU32 side.mLocalRate.maxSendBandwidth 0 maxFixedBandwidth
      let s := s.writeRangedU32 side.mLocalRate.minPacketRecvPeriod 1 maxFixedSendPeriod
      s.writeRangedU32 side.mLocalRate.minPacketSendPeriod 1 maxFixedSendPeriod
  else s

/-- The bytes of a stream of bits. -/
def ByteStream.ofBits (s : BitStream) : ByteStream where
  buffer i := (BitVec.ofBoolListLE ((List.range 8).map fun b => s.buffer (8 * i + b))).setWidth 8
  mBufSize := s.mBufSize
  mOwnsMemory := s.mOwnsMemory
  bitNum := s.bitNum
  error := s.error
  maxReadBitNum := s.maxReadBitNum
  maxWriteBitNum := s.maxWriteBitNum

theorem ByteStream.ofBits_bits (s : BitStream) : (ofBits s).bits = s := by
  have hbuffer : bit (ofBits s).buffer = s.buffer := by
    funext i
    have hlow : i % 8 < 8 := Nat.mod_lt i (by decide)
    have hplace : 8 * (i / 8) + i % 8 = i := Nat.div_add_mod i 8
    rw [bit, ofBits, BitVec.getLsbD_setWidth, BitVec.getLsbD_ofBoolListLE, List.getD_eq_getElem _ _
      (by simpa using hlow), List.getElem_map, List.getElem_range, hplace]
    simp [hlow]
  rw [bits, hbuffer]
  rfl

/-- The side of a `GhostConnection` that sends ghosts. -/
structure GhostSection (σ : Type*) where
  server : GhostServer
  objects : ObjectClass σ
  traits : ObjectTraits
  doesGhostFrom : Bool
  scopeValid : Bool
  sort : List Ghost → List Ghost

/-- A connection that writes a packet; an `EventConnection` has no ghosts. -/
structure PacketWriter (ε σ ν : Type*) where
  conn : NetConnection ν
  rate : PacketRate.LocalRate
  sendDelay : ℕ
  events : EventConnection ε
  parameters : EventParameters
  eventClass : EventClass ε σ
  ghosts : Option (GhostSection σ)

namespace PacketWriter

variable {ε σ ν : Type*}

/-- The connection once the packet has its number. -/
def numbered (p : PacketWriter ε σ ν) : NetConnection ν :=
  { p.conn with mLastSendSeq := p.conn.mLastSendSeq + 1 }

/-- The stream before `writePacket`. -/
def writeFront (p : PacketWriter ε σ ν) (s : BitStream) : BitStream :=
  p.rate.write (p.numbered.writeHeader .dataPacket p.sendDelay s)

def writePacket (p : PacketWriter ε σ ν) (w : PackStream σ) : PackStream σ :=
  let w := (p.events.writePacket p.parameters p.eventClass w).w
  match p.ghosts with
  | none => w
  | some g => (g.server.packPacket p.parameters.mDebugObjectSizes g.objects g.traits
      g.doesGhostFrom g.scopeValid g.sort w).2

/-- The packet before it is signed. -/
def plain (p : PacketWriter ε σ ν) (s : BitStream) (side : σ) : ByteStream :=
  .ofBits (p.writePacket ⟨p.writeFront s, side⟩).stream

def writeRawPacket {K : Type*} (lib : Crypto K) (mSymmetricCipher : SymmetricCipher K)
    (p : PacketWriter ε σ ν) (s : BitStream) (side : σ) : ByteStream × SymmetricCipher K :=
  (p.plain s side).hashAndEncrypt lib messageSignatureBytes packetHeaderByteSize
    (mSymmetricCipher.setupCounter lib p.numbered.mLastSendSeq p.numbered.mLastSeqRecvd
      NetPacketType.dataPacket.value 0)

/-- Writes that fit one after the other. -/
theorem wrote_writeInt {s t : BitStream} {bits : List Bool} (h : s.Wrote bits t) (value : ℕ)
    {bitCount : ℕ} (hroom : s.bitNum + bits.length + bitCount ≤ s.maxWriteBitNum) :
    s.Wrote (bits ++ intBits value bitCount) (t.writeInt value bitCount) :=
  h.append (writeInt_fits value bitCount (by rw [h.position, h.maxWrite]; exact hroom))

theorem wrote_writeFlag {s t : BitStream} {bits : List Bool} (h : s.Wrote bits t) (val : Bool)
    (hroom : s.bitNum + bits.length + 1 ≤ s.maxWriteBitNum) :
    s.Wrote (bits ++ [val]) (t.writeFlag val) :=
  h.append (writeFlag_fits val (by rw [h.position, h.maxWrite]; exact hroom))

theorem wrote_writeRangedU32 {s t : BitStream} {bits : List Bool} (h : s.Wrote bits t)
    (value rangeStart rangeEnd : U32) {n : ℕ}
    (hbits : (TypedStream.rangeBits rangeStart rangeEnd).toNat = n)
    (hroom : s.bitNum + bits.length + n ≤ s.maxWriteBitNum) :
    s.Wrote (bits ++ intBits (value - rangeStart).toNat n)
      (t.writeRangedU32 value rangeStart rangeEnd) := by
  rw [writeRangedU32, hbits]
  exact wrote_writeInt h _ hroom

def headerBits (c : NetConnection ν) (packetType : NetPacketType) (sendDelay : ℕ) : List Bool :=
  intBits packetType.value.toNat headerTypeBits ++ intBits c.mLastSendSeq.toNat 5 ++ [true] ++
    intBits (c.mLastSendSeq >>> 5).toNat (sequenceNumberBitSize - 5) ++
    intBits c.mLastSeqRecvd.toNat ackSequenceNumberBitSize ++ intBits 0 packetHeaderPadBits ++
    intBits (c.ackByteCount - 0).toNat ackByteCountBits ++
    intBits c.mAckMask.toNat (c.ackByteCount.toNat * 8) ++ intBits (min sendDelay 2047 / 8) 8

/-- The header has at most 67 bits, of which the first 24 are never encrypted. -/
theorem headerBits_length {c : NetConnection ν} (hcovered : c.AckCovered)
    (packetType : NetPacketType) (sendDelay : ℕ) :
    24 ≤ (headerBits c packetType sendDelay).length ∧
      (headerBits c packetType sendDelay).length ≤ 67 := by
  have hcount : c.ackByteCount.toNat ≤ 4 := Link.ackByteCount_le hcovered
  simp only [headerBits, List.length_append, intBits_length, List.length_singleton, headerTypeBits,
    sequenceNumberBitSize, ackSequenceNumberBitSize, packetHeaderPadBits, ackByteCountBits]
  omega

theorem writeHeader_wrote {c : NetConnection ν} (hcovered : c.AckCovered)
    (packetType : NetPacketType) (sendDelay : ℕ) {s : BitStream}
    (hroom : s.bitNum + 67 ≤ s.maxWriteBitNum) :
    s.Wrote (headerBits c packetType sendDelay) (c.writeHeader packetType sendDelay s) := by
  have hcount : c.ackByteCount.toNat ≤ 4 := Link.ackByteCount_le hcovered
  have hrange : (TypedStream.rangeBits 0 4).toNat = ackByteCountBits := by decide
  unfold headerBits NetConnection.writeHeader
  refine wrote_writeInt (wrote_writeInt (wrote_writeRangedU32 (wrote_writeInt (wrote_writeInt
    (wrote_writeInt (wrote_writeFlag (wrote_writeInt (writeInt_fits _ _ ?_) _ ?_) _ ?_) _ ?_)
      _ ?_) _ ?_) _ _ _ hrange ?_) _ ?_) _ ?_
  all_goals
    simp only [List.length_append, intBits_length, List.length_singleton, headerTypeBits,
      sequenceNumberBitSize, ackSequenceNumberBitSize, packetHeaderPadBits, ackByteCountBits]
    omega

/-- What a packet says of the rate has at most 56 bits. -/
theorem writeRate_wrote (side : PacketRate.LocalRate) {s : BitStream}
    (hroom : s.bitNum + 56 ≤ s.maxWriteBitNum) :
    ∃ bits : List Bool, bits.length ≤ 56 ∧ s.Wrote bits (side.write s) := by
  have hbandwidth : (TypedStream.rangeBits 0 PacketRate.maxFixedBandwidth).toNat = 16 := by decide
  have hperiod : (TypedStream.rangeBits 1 PacketRate.maxFixedSendPeriod).toNat = 11 := by decide
  have hchanged := writeFlag_fits (s := s) side.mLocalRateChanged (by omega)
  unfold PacketRate.LocalRate.write
  dsimp only
  by_cases hsay : side.mLocalRateChanged = true
  · rw [if_pos hsay]
    have hadaptive := wrote_writeFlag hchanged side.connectionAdaptive (by simp; omega)
    by_cases hmode : side.connectionAdaptive = true
    · rw [if_pos hmode]
      exact ⟨_, by simp, hadaptive⟩
    · rw [if_neg hmode]
      have hrecv := wrote_writeRangedU32 hadaptive side.mLocalRate.maxRecvBandwidth _ _ hbandwidth
        (by simp; omega)
      have hsend := wrote_writeRangedU32 hrecv side.mLocalRate.maxSendBandwidth _ _ hbandwidth
        (by simp; omega)
      have hrecvPeriod := wrote_writeRangedU32 hsend side.mLocalRate.minPacketRecvPeriod _ _ hperiod
        (by simp; omega)
      have hsendPeriod := wrote_writeRangedU32 hrecvPeriod side.mLocalRate.minPacketSendPeriod _ _
        hperiod (by simp; omega)
      exact ⟨_, by simp, hsendPeriod⟩
  · rw [if_neg hsay]
    exact ⟨_, by simp, hchanged⟩

/-- The flag that was written behind `s` is in the packet. -/
def Closes (s t : BitStream) : Prop := s.bitNum < t.bitNum ∧ t.buffer s.bitNum = false

theorem closes_of_wrote {s t u : BitStream} (h : s.Wrote [false] t) (hext : t.Extends u) :
    Closes s u := by
  have hposition : t.bitNum = s.bitNum + 1 := h.position
  have hbit : t.buffer s.bitNum = false := by
    have hholds := h.holds
    rw [List.length_singleton] at hholds
    simpa [window] using hholds
  constructor
  · exact Nat.lt_of_lt_of_le (hposition ▸ Nat.lt_succ_self _) hext.le
  · rw [hext.kept s.bitNum (hposition ▸ Nat.lt_succ_self _), hbit]

/-- The flags that end the three loops, when `w` is the stream behind the header. -/
structure SectionsClosed (p : PacketWriter ε σ ν) (w : PackStream σ) : Prop where
  unordered : Closes (p.events.unorderedRun p.parameters p.eventClass w).2.2.stream
    (p.writePacket w).stream
  ordered : Closes (p.events.orderedRun p.parameters p.eventClass w).2.2.stream
    (p.writePacket w).stream
  ghosts : ∀ g, p.ghosts = some g → g.doesGhostFrom = true →
    (g.server.mGhosting && g.scopeValid) = true →
      Closes (GhostServer.packGhosts p.parameters.mDebugObjectSizes g.objects g.traits g.sort
        g.server (g.server.packFlag p.parameters.mDebugObjectSizes g.scopeValid
          (p.events.writePacket p.parameters p.eventClass w).w)).2.stream (p.writePacket w).stream

variable {limit : ℕ}

/-- The section of the events takes at most 34 bits of the space that must be left. -/
theorem writeEvents_room (c : EventConnection ε) (P : EventParameters) (E : EventClass ε σ)
    {w : PackStream σ} (hroom : Room limit 160 w.stream) :
    w.stream.Extends (c.writePacket P E w).w.stream ∧
      Room limit 126 (c.writePacket P E w).w.stream ∧
      (c.unorderedRun P E w).2.2.stream.Wrote [false] (c.afterUnordered P E w).stream ∧
      (c.afterUnordered P E w).stream.Extends (c.writePacket P E w).w.stream ∧
      (c.orderedRun P E w).2.2.stream.Wrote [false] (c.writePacket P E w).w.stream := by
  have hpadding : BitStream.minimumPaddingBits = 128 := rfl
  have hlimit := hroom.room
  obtain ⟨hchecksum, -, -⟩ := EventConnection.afterChecksum_wrote (P := P)
    (hroom.mono (by decide : 128 ≤ 160))
  obtain ⟨hfirst, hflag, hsecond, hclose, -⟩ := EventConnection.loops_spec (c := c) (P := P)
    (E := E) (hroom.mono (by decide : 128 ≤ 160))
  have hstart := hchecksum.position
  have hlength : (EventConnection.checksumBits P).length ≤ 32 := by
    unfold EventConnection.checksumBits
    split <;> simp
  have hunordered : (c.unorderedRun P E w).2.2.stream.bitNum + 128 ≤ limit := by
    cases hfirst.bound with
    | inl hsame =>
      rw [hsame]
      omega
    | inr hbound => exact hbound
  have hflagged : (c.afterUnordered P E w).stream.bitNum + 127 ≤ limit := by
    rw [hflag.position, List.length_singleton]
    omega
  have hordered : (c.orderedRun P E w).2.2.stream.bitNum + 127 ≤ limit := by
    cases hsecond.bound with
    | inl hsame => exact hsame.symm ▸ hflagged
    | inr hbound => exact le_trans (Nat.add_le_add_left (by decide : 127 ≤ 128) _) hbound
  have hextends := hchecksum.toExtends.trans (hfirst.extends_.trans (hflag.toExtends.trans
    (hsecond.extends_.trans hclose.toExtends)))
  refine ⟨hextends, hroom.extends_ hextends ?_, hflag, hsecond.extends_.trans hclose.toExtends,
    hclose⟩
  rw [hclose.position, List.length_singleton]
  omega

/-- All sections are closed, and leave at least 61 bits for the signature. -/
theorem writePacket_room (p : PacketWriter ε σ ν) {w : PackStream σ}
    (hroom : Room limit 160 w.stream) : w.stream.Extends (p.writePacket w).stream ∧
      Room limit 61 (p.writePacket w).stream ∧ p.SectionsClosed w := by
  obtain ⟨hext, hleft, hflag, hbetween, hclose⟩ :=
    writeEvents_room p.events p.parameters p.eventClass hroom
  cases hghosts : p.ghosts with
  | none =>
    have hpacket : p.writePacket w = (p.events.writePacket p.parameters p.eventClass w).w := by
      rw [writePacket, hghosts]
    have hsections : p.SectionsClosed w := by
      constructor
      · rw [hpacket]
        exact closes_of_wrote hflag hbetween
      · rw [hpacket]
        exact closes_of_wrote hclose (.refl _)
      · intro g hg
        rw [hghosts] at hg
        cases hg
    rw [hpacket]
    exact ⟨hext, hleft.mono (by decide), hsections⟩
  | some g =>
    have hpacket : p.writePacket w = (g.server.packPacket p.parameters.mDebugObjectSizes g.objects
        g.traits g.doesGhostFrom g.scopeValid g.sort
          (p.events.writePacket p.parameters p.eventClass w).w).2 := by
      rw [writePacket, hghosts]
    obtain ⟨hghost, hend, hghostClose⟩ := GhostServer.packPacket_le p.parameters.mDebugObjectSizes
      g.objects g.traits g.doesGhostFrom g.scopeValid g.sort g.server
      (show Room limit (65 + 61) _ from hleft) (by decide)
    have hsections : p.SectionsClosed w := by
      constructor
      · rw [hpacket]
        exact closes_of_wrote hflag (hbetween.trans hghost)
      · rw [hpacket]
        exact closes_of_wrote hclose hghost
      · intro g' hg' hfrom hghosting
        obtain rfl := Option.some.inj (hghosts.symm.trans hg')
        rw [hpacket]
        exact closes_of_wrote (hghostClose hfrom hghosting) (.refl _)
    rw [hpacket]
    exact ⟨hext.trans hghost, hend, hsections⟩

/-- The packet stands in the stream behind at most 123 bits of its header. -/
theorem writeFront_room (p : PacketWriter ε σ ν) (hcovered : p.conn.AckCovered)
    (memory : ℕ → Bool) {target : ℕ} (htarget : target ≤ maxPacketDataSize) :
    24 ≤ (p.writeFront (packetStream memory target)).bitNum ∧
      Room (maxPacketDataSize * 8) 160 (p.writeFront (packetStream memory target)) := by
  have hstart : (packetStream memory target).bitNum = 0 := rfl
  have hmax : (packetStream memory target).maxWriteBitNum = 12000 := rfl
  have hheader := writeHeader_wrote (c := p.numbered) hcovered .dataPacket p.sendDelay
    (s := packetStream memory target) (by rw [hstart, hmax]; decide)
  obtain ⟨hlow, hhigh⟩ := headerBits_length (c := p.numbered) hcovered .dataPacket p.sendDelay
  have hposition := hheader.position
  obtain ⟨bits, hlength, hrate⟩ := writeRate_wrote p.rate
    (s := p.numbered.writeHeader .dataPacket p.sendDelay (packetStream memory target)) (by
      rw [hheader.maxWrite, hmax]
      omega)
  have hend := hrate.position
  have hext := hheader.toExtends.trans hrate.toExtends
  constructor
  · change 24 ≤ (p.rate.write _).bitNum
    omega
  · refine ⟨hext.fixed (packetStream_fixed htarget), hext.maxWrite, ?_, by decide⟩
    change (p.rate.write _).bitNum + 160 ≤ maxPacketDataSize * 8
    have hlimit : maxPacketDataSize * 8 = 12000 := rfl
    omega

/-- Whatever the events and objects write, all sections of a data packet are closed and the whole
signature is in it, and a peer that has the same key finds it. -/
theorem writeRawPacket_signed {K : Type*} (lib : Crypto K) (mSymmetricCipher : SymmetricCipher K)
    {initialSendSeq initialRecvSeq : U32} {as : List (Endpoint.Action ν)} {e : Endpoint ν}
    (run : Endpoint.Reached initialSendSeq initialRecvSeq as e) (p : PacketWriter ε σ ν)
    (hconn : p.conn = e.conn) (side : σ) (memory : ℕ → Bool) {target : ℕ}
    (htarget : target ≤ maxPacketDataSize) :
    let stream := packetStream memory target
    let plain := p.plain stream side
    let packet := (p.writeRawPacket lib mSymmetricCipher stream side).1
    p.SectionsClosed ⟨p.writeFront stream, side⟩ ∧
    packet.getBytePosition = plain.getBytePosition + messageSignatureBytes ∧
    packet.getBytePosition ≤ maxPacketDataSize ∧
    (∃ buffer : ℕ → U8, (∀ i < plain.getBytePosition, buffer i = plain.buffer i) ∧
      (∀ i < messageSignatureBytes, buffer (plain.getBytePosition + i) =
        ByteStream.digest lib plain.buffer plain.getBytePosition i) ∧
      packet.buffer = ((mSymmetricCipher.setupCounter lib p.numbered.mLastSendSeq
        p.numbered.mLastSeqRecvd NetPacketType.dataPacket.value 0).encrypt lib buffer
          packetHeaderByteSize packetHeaderByteSize
          (packet.getBytePosition - packetHeaderByteSize)).2) ∧
    ∀ (peer : SymmetricCipher K) (received : ByteStream),
      peer.mSymmetricKey = mSymmetricCipher.mSymmetricKey →
      peer.mInitVector = mSymmetricCipher.mInitVector →
      received.mBufSize = packet.getBytePosition →
      (∀ i < received.mBufSize, received.buffer i = packet.buffer i) →
        (received.decryptAndCheckHash lib messageSignatureBytes packetHeaderByteSize
          (peer.setupCounter lib p.numbered.mLastSendSeq p.numbered.mLastSeqRecvd
            NetPacketType.dataPacket.value 0)).1 = true := by
  intro stream plain packet
  have hcovered : p.conn.AckCovered := hconn ▸ Endpoint.covered_of_reached run
  obtain ⟨hlow, hfront⟩ := p.writeFront_room hcovered memory htarget
  obtain ⟨hext, hleft, hclosed⟩ := p.writePacket_room (w := ⟨p.writeFront stream, side⟩) hfront
  have hposition : plain.bitNum = (p.writePacket ⟨p.writeFront stream, side⟩).stream.bitNum := rfl
  have hlimit : plain.bitNum + 61 ≤ 12000 := hleft.room
  have hstart : 24 ≤ plain.bitNum := le_trans hlow hext.le
  have hbytes : plain.getBytePosition = (plain.bitNum + 7) / 8 := rfl
  have hfits : (plain.setBytePosition plain.getBytePosition).bits.Room
      (messageSignatureBytes * 8) := by
    left
    have hmax : (plain.setBytePosition plain.getBytePosition).bits.maxWriteBitNum = 12000 :=
      hleft.maxWrite
    rw [hmax]
    change plain.getBytePosition * 8 + messageSignatureBytes * 8 ≤ 12000
    have hsignature : messageSignatureBytes = 5 := rfl
    omega
  obtain ⟨buffer, hbefore, hdigest, hend, hencrypted⟩ := ByteStream.hashAndEncrypt_eq lib
    (mSymmetricCipher.setupCounter lib p.numbered.mLastSendSeq p.numbered.mLastSeqRecvd
      NetPacketType.dataPacket.value 0) packetHeaderByteSize hfits
  refine ⟨hclosed, hend, ?_, ⟨buffer, hbefore, hdigest, ?_⟩, ?_⟩
  · change packet.getBytePosition = _ at hend
    have hsignature : messageSignatureBytes = 5 := rfl
    have hsize : maxPacketDataSize = 1500 := rfl
    omega
  · change packet.getBytePosition = _ at hend
    rw [hend]
    exact hencrypted
  · intro peer received hkey hvector hlength hsame
    refine (ByteStream.decryptAndCheckHash_hashAndEncrypt
      (SymmetricCipher.fresh_setupCounter mSymmetricCipher _ _ _ _)
      (SymmetricCipher.fresh_setupCounter peer _ _ _ _) hkey.symm hvector.symm ?_ (by decide) ?_
      hfits hlength hsame).1
    · simp only [SymmetricCipher.setupCounter, hvector]
    · have hheader : packetHeaderByteSize = 3 := rfl
      omega

/-- A connection that has an event of more bits than fit, and checksums. -/
def largeEvent : PacketWriter ℕ Unit Unit where
  conn := (Endpoint.start 0 1 : Endpoint Unit).conn
  rate := ⟨false, PacketRate.defaultRate, true⟩
  sendDelay := 100
  events := EventConnection.new.postNetEvent
    ⟨fun _ => .guaranteed, fun _ => 0, fun _ n => ([List.replicate n true], ()), fun _ => none,
      fun _ _ _ => none⟩ 20000
  parameters := ⟨true, 3, 2, by decide, by decide⟩
  eventClass := ⟨fun _ => .guaranteed, fun _ => 0, fun _ n => ([List.replicate n true], ()),
    fun _ => none, fun _ _ _ => none⟩
  ghosts := none

theorem writeRawPacket_signed_largeEvent :
    (largeEvent.writeRawPacket ByteStream.toyCrypto ByteStream.toyCipher
      (packetStream (fun _ => false) 1500) ()).1.getBytePosition ≤ maxPacketDataSize :=
  (writeRawPacket_signed ByteStream.toyCrypto ByteStream.toyCipher
    (.nil (Endpoint.start 0 1)) largeEvent rfl () (fun _ => false) le_rfl).2.2.1

end PacketWriter

end TNL
