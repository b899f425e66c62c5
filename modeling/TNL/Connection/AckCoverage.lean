import TNL.Connection.Delivery
import TNL.Connection.HeaderBits

/-!
# The ack mask covers what it reports

The number of ack bytes is bounded on any network, as each side moves its
`mLastRecvAckAck` up behind its `mLastSeqRecvd`. That the bytes cover all a
header newly acknowledges holds of packets delivered in their window: an older
ack packet is completed to a number far beyond the one it carried.
-/
namespace TNL
open Library

namespace Link
open NetConnection

variable {ν : Type*} {l m : Link ν} {x y : Side} {p : Packet}

/-- A read at side `y`, and the ack packet it may send. -/
def afterRead (l : Link ν) (y : Side) (ctx : ReadContext) (p : Packet) (r : Received ν) : Link ν :=
  match r.reply with
  | none => l.record y p ((l.conn y).headerAccepted ctx p.header) r
  | some header => (l.record y p ((l.conn y).headerAccepted ctx p.header) r).send y header

theorem stepAny_deliver {index : ℕ} {ctx : ReadContext} :
    l.stepAny (.deliver y index ctx) = some m ↔
      ∃ p r, (l.packets y.peer)[index]? = some p ∧
        (l.conn y).readPacketHeader ctx p.header = some r ∧ l.afterRead y ctx p r = m := by
  simp only [stepAny]
  cases hp : (l.packets y.peer)[index]? with
  | none => simp
  | some p =>
    cases hr : (l.conn y).readPacketHeader ctx p.header with
    | none => simp [hr]
    | some r =>
      cases hreply : r.reply <;> simp [hr, hreply, afterRead]

theorem stepAny_sound {a : Action ν} (hl : Sound l) (ha : l.NoWrap a ∧ l.DeliversInWindow a)
    (hstep : l.stepAny a = some m) : Sound m := by
  cases a with
  | deliver y index ctx =>
    rcases stepAny_deliver.mp hstep with ⟨p, r, hindex, hread, rfl⟩
    exact read_sound hl (List.mem_of_getElem? hindex) (ha.2 p hindex) hread
  | checkPacketSend x cwnd note => exact step_sound hl ha.1 hstep
  | sendPingPacket x => exact step_sound hl ha.1 hstep
  | sendAckPacket x => exact step_sound hl ha.1 hstep

theorem sound_of_window_run {initialSendSeq : Side → U32} {as : List (Action ν)}
    (run : Run stepAny (fun l a => l.NoWrap a ∧ l.DeliversInWindow a) (start initialSendSeq) as l) :
    Sound l := by
  apply run.invariant (I := Sound)
  · exact fun l a m hl ha hstep => stepAny_sound hl ha hstep
  · exact start_sound initialSendSeq

/-- The headers of side `x`, those it has written and any it writes next. -/
structure BytesBounded (l : Link ν) (x : Side) : Prop where
  covered : (l.conn x).AckCovered
  written : ∀ p ∈ l.packets x, p.header.ackByteCount ≤ maxAckByteCount

theorem ackByteCount_le {c : NetConnection ν} (hc : c.AckCovered) : c.ackByteCount ≤ 4 := by
  unfold AckCovered at hc
  unfold ackByteCount
  bv_omega

theorem headerFields_le {c : NetConnection ν} (hc : c.AckCovered) (packetType : NetPacketType) :
    (c.headerFields packetType).ackByteCount ≤ maxAckByteCount := by
  have hle := ackByteCount_le hc
  change c.ackByteCount.setWidth 3 ≤ (4 : BitVec 3)
  bv_omega

theorem BytesBounded.send {header : PacketHeader} (hl : ∀ x, BytesBounded l x)
    (hheader : header.ackByteCount ≤ maxAckByteCount) (y x : Side) :
    BytesBounded (l.send y header) x where
  covered := (hl x).covered
  written p hp := by
    rcases mem_send_packets.mp hp with hold | ⟨-, rfl⟩
    · exact (hl x).written p hold
    · exact hheader

theorem BytesBounded.setConn {c : NetConnection ν} (hl : ∀ x, BytesBounded l x)
    (hc : c.AckCovered) (y x : Side) : BytesBounded (l.setConn y c) x where
  covered := by
    rcases Side.eq_or_eq_peer y x with rfl | rfl
    · simpa using hc
    · simpa using (hl y.peer).covered
  written := (hl x).written

/-- A read keeps the receiver covered, and so the header of its reply. -/
theorem readPacketHeader_covered {c : NetConnection ν} {ctx : ReadContext} {h : PacketHeader}
    {r : Received ν} (hc : c.AckCovered) (hread : c.readPacketHeader ctx h = some r) :
    r.conn.AckCovered ∧
      ∀ header, r.reply = some header → header.ackByteCount ≤ maxAckByteCount := by
  cases hacc : c.headerAccepted ctx h with
  | false =>
    rw [readPacketHeader_rejected hacc] at hread
    cases hread
    exact ⟨hc, fun header hreply => by cases hreply⟩
  | true =>
    rcases le_or_gt (c.packetHighestAck h - c.mHighestAckedSeq).toNat c.mNotifyQueue.length with
      hcount | hcount
    · rw [readPacketHeader_accepted hacc hcount] at hread
      cases hread
      have hfinal := finishHeader_covered (c.notifiedState ctx h) h (c.packetSequence h)
        (c.packetHighestAck h) (notificationsFrom ctx h (c.packetHighestAck h)
          (c.mHighestAckedSeq + 1)
          (c.mNotifyQueue.take (c.packetHighestAck h - c.mHighestAckedSeq).toNat))
      constructor
      · exact hfinal
      · intro header hreply
        rcases Option.ite_none_right_eq_some.mp hreply with ⟨-, hheader⟩
        cases hheader
        exact headerFields_le hfinal .ackPacket
    · rw [readPacketHeader_faults hacc hcount] at hread
      cases hread

theorem stepAny_bytesBounded {a : Action ν} (hl : ∀ x, BytesBounded l x)
    (hstep : l.stepAny a = some m) (x : Side) : BytesBounded m x := by
  cases a with
  | checkPacketSend y cwnd note =>
    cases hfull : (l.conn y).windowFull cwnd with
    | true =>
      simp only [stepAny, step, hfull, if_true] at hstep
      cases hstep
      exact hl x
    | false =>
      simp only [stepAny, step, hfull] at hstep
      cases hstep
      have hc : ((l.conn y).writeDataPacket note).2.AckCovered := (hl y).covered
      apply BytesBounded.send (BytesBounded.setConn hl hc y)
      rw [writeDataPacket_header]
      exact headerFields_le hc .dataPacket
  | sendPingPacket y =>
    cases hstep
    apply BytesBounded.send (BytesBounded.setConn hl _ y)
    · exact headerFields_le (hl y).covered .pingPacket
    · exact (hl y).covered
  | sendAckPacket y =>
    cases hstep
    apply BytesBounded.send (BytesBounded.setConn hl _ y)
    · exact headerFields_le (hl y).covered .ackPacket
    · exact (hl y).covered
  | deliver y index ctx =>
    rcases stepAny_deliver.mp hstep with ⟨p, r, -, hread, rfl⟩
    rcases readPacketHeader_covered (hl y).covered hread with ⟨hconn, hreply⟩
    have hrecord : ∀ x, BytesBounded
        (l.record y p ((l.conn y).headerAccepted ctx p.header) r) x :=
      fun x => ⟨(BytesBounded.setConn hl hconn y x).covered, (hl x).written⟩
    unfold afterRead
    cases hr : r.reply with
    | none => exact hrecord x
    | some header => exact BytesBounded.send hrecord (hreply header hr) y x

/-- The acknowledged number is completed exactly, except for a stale one within a window of the
wrap. -/
theorem ack_of_window {ctx : ReadContext} (hl : Sound l) (hp : PacketSound l x p)
    (hnear : l.InWindow x p) (hwrap : (l.conn x.peer).mLastSendSeq.toNat + 1024 ≤ 2 ^ 32)
    (hacc : (l.conn x.peer).headerAccepted ctx p.header = true) :
    (l.conn x.peer).packetHighestAck p.header = p.ack ∧
      (l.conn x.peer).mHighestAckedSeq.toNat ≤ p.ack.toNat := by
  have hcompleted := (l.conn x.peer).packetHighestAck_toNat p.header
  rw [hp.ackField, BitVec.toNat_setWidth] at hcompleted
  have hsent := (hnear.sent_le hp).2
  have hacked := (hl x.peer).acked_le
  have hrecvd := (hl x.peer).recvd_le
  have hwindow := (hl x.peer).window
  have hle := hp.ack_le
  rw [Side.peer_peer] at hacked hrecvd
  have hbound := p.ack.isLt
  rcases le_or_gt (l.conn x.peer).mHighestAckedSeq.toNat p.ack.toNat with hnew | hstale
  · rw [expandCounter_of_mem (by omega) hnew (by omega), Nat.mod_eq_of_lt hbound] at hcompleted
    exact ⟨BitVec.eq_of_toNat_eq hcompleted, hnew⟩
  · exfalso
    rw [expandCounter_of_lt (by omega) (by omega) (by omega)] at hcompleted
    rcases headerAccepted_iff.mp hacc with ⟨-, hack, -⟩
    rw [BitVec.le_def] at hack
    omega

/-- Every header has at most `MaxAckByteCount` ack bytes. Where packets are delivered in their
window and the counters do not wrap, the bytes of an accepted header cover all it notifies. -/
theorem ackMask_covers {initialSendSeq : Side → U32} {as : List (Action ν)}
    (run : Run stepAny (fun _ _ => True) (start initialSendSeq) as l) :
    (∀ x, (l.conn x).ackByteCount ≤ maxAckByteCount.setWidth 32 ∧
        ∀ p ∈ l.packets x, p.header.ackByteCount ≤ maxAckByteCount) ∧
      (Run stepAny (fun l a => l.NoWrap a ∧ l.DeliversInWindow a) (start initialSendSeq) as l →
        ∀ y ctx, ∀ p ∈ l.packets y.peer, l.InWindow y.peer p →
          (l.conn y).mLastSendSeq.toNat + 1024 ≤ 2 ^ 32 →
            (l.conn y).headerAccepted ctx p.header = true →
              ((l.conn y).packetHighestAck p.header - (l.conn y).mHighestAckedSeq).toNat ≤
                8 * p.header.ackByteCount.toNat) := by
  constructor
  · intro x
    have hbounded : ∀ x, BytesBounded l x := by
      apply run.invariant (I := fun l => ∀ x, BytesBounded l x)
      · exact fun l a m hl _ hstep => stepAny_bytesBounded hl hstep
      · exact fun x => ⟨by simp [start, connected, AckCovered], by simp [start]⟩
    exact ⟨ackByteCount_le (hbounded x).covered, (hbounded x).written⟩
  · intro window y ctx p hmem hnear hwrap hacc
    have hl := sound_of_window_run window
    obtain ⟨x, rfl⟩ : ∃ x : Side, y = x.peer := ⟨y.peer, y.peer_peer.symm⟩
    rw [Side.peer_peer] at hmem hnear
    have hp := (hl x).packets p hmem
    have hackAck := hp.ackAck_le
    have hcovered := hp.covered
    rcases ack_of_window hl hp hnear hwrap hacc with ⟨hack, hle⟩
    rw [hack]
    bv_omega

def delivered : List (Action ℕ) :=
  [.checkPacketSend .initiator none 7, .deliver .host 0 Endpoint.plainContext, .sendAckPacket .host]

theorem ackMask_covers_delivered : ∃ (l : Link ℕ) (p : Packet),
    exec stepAny (start fun _ => 0) delivered = some l ∧ (l.packets .host)[0]? = some p ∧
      (l.conn .host).ackByteCount ≤ maxAckByteCount.setWidth 32 ∧
        ((l.conn .initiator).packetHighestAck p.header -
          (l.conn .initiator).mHighestAckedSeq).toNat ≤ 8 * p.header.ackByteCount.toNat := by
  obtain ⟨l, p, window, hmem, hnear, hwrap, hacc⟩ : ∃ (l : Link ℕ) (p : Packet),
      Run stepAny (fun l a => l.NoWrap a ∧ l.DeliversInWindow a) (start fun _ => 0) delivered l ∧
        (l.packets .host)[0]? = some p ∧ l.InWindow .host p ∧
          (l.conn .initiator).mLastSendSeq.toNat + 1024 ≤ 2 ^ 32 ∧
            (l.conn .initiator).headerAccepted Endpoint.plainContext p.header = true := by
    refine ⟨_, _, .cons ⟨by decide, trivial⟩ rfl (.cons ⟨trivial, ?_⟩ rfl
      (.cons ⟨trivial, trivial⟩ rfl (.nil _))), rfl, by decide, by decide, by decide⟩
    intro p hp
    cases hp
    decide
  have run : Run stepAny (fun _ _ => True) (start fun _ => 0) delivered l :=
    window.mono fun _ _ _ => trivial
  have covers := ackMask_covers run
  exact ⟨l, p, run.exec_eq, hmem, (covers.1 .host).1, covers.2 window .initiator
    Endpoint.plainContext p (List.mem_of_getElem? hmem) hnear hwrap hacc⟩

section AckedOneByOne

/-- The host has had `k` data packets acknowledged one by one since the initiator sent an ack
packet that is still in flight. -/
structure AckedOneByOne (k : ℕ) (l : Link ℕ) : Prop where
  host : l.conn .host = ⟨fun _ => 0, 0, BitVec.ofNat 32 k, BitVec.ofNat 32 k, 0, 0, []⟩
  initiator : l.conn .initiator = ⟨fun _ => 0, BitVec.ofNat 32 k, 0, 0,
    (l.conn .initiator).mAckMask, (l.conn .initiator).mLastRecvAckAck, []⟩
  covered : (l.conn .initiator).AckCovered
  inFlight : ∃ p ∈ l.packets .initiator, p.header = ⟨.ackPacket, 0, 0, 0, 0⟩

variable {k : ℕ} {l m : Link ℕ}

/-- The packet side `y.peer` has just sent is delivered. -/
theorem deliver_last {header : PacketHeader} {r : Received ℕ} (y : Side)
    (hread : (l.conn y).readPacketHeader Endpoint.plainContext header = some r) :
    ∃ m, (l.send y.peer header).stepAny
        (.deliver y (l.packets y.peer).length Endpoint.plainContext) = some m ∧
      m.conn y = r.conn ∧ m.conn y.peer = l.conn y.peer ∧
        ∀ p ∈ l.packets .initiator, p ∈ m.packets .initiator := by
  refine ⟨_, stepAny_deliver.mpr ⟨l.packetOf y.peer header, r, by simp [send], hread, rfl⟩, ?_⟩
  have hsent : ∀ p ∈ l.packets .initiator, p ∈ (l.send y.peer header).packets .initiator :=
    fun p hp => mem_send_packets.mpr (Or.inl hp)
  unfold afterRead
  cases hreply : r.reply with
  | none =>
    refine ⟨?_, ?_, hsent⟩
    · simp [record]
    · simp [record, send, Side.peer_ne]
  | some reply =>
    refine ⟨?_, ?_, fun p hp => mem_send_packets.mpr (Or.inl (hsent p hp))⟩
    · simp [record, send]
    · simp [record, send, Side.peer_ne]

/-- The initiator reads data packet `k + 1`, which acknowledges nothing. -/
theorem initiator_reads {c : NetConnection ℕ}
    (hc : c = ⟨fun _ => 0, BitVec.ofNat 32 k, 0, 0, c.mAckMask, c.mLastRecvAckAck, []⟩)
    {h : PacketHeader} (htype : h.packetType = .dataPacket)
    (hseq : h.sequence = (BitVec.ofNat 32 (k + 1)).setWidth 11) (hack : h.highestAck = 0)
    (hcount : h.ackByteCount = 0) :
    ∃ r, c.readPacketHeader Endpoint.plainContext h = some r ∧
      r.conn = ⟨fun _ => 0, BitVec.ofNat 32 (k + 1), 0, 0, r.conn.mAckMask,
        r.conn.mLastRecvAckAck, []⟩ := by
  have hrecvd : c.mLastSeqRecvd = BitVec.ofNat 32 k := by rw [hc]
  have hacked : c.mHighestAckedSeq = 0 := by rw [hc]
  have hsequence : c.packetSequence h = BitVec.ofNat 32 (k + 1) := by
    apply packetSequence_of_ahead hseq
    rw [hrecvd]
    bv_omega
  have hhighest : c.packetHighestAck h = 0 := by
    apply packetHighestAck_of_ahead
    · rw [hack]
      rfl
    · rw [hacked]
      decide
  have hacc : c.headerAccepted Endpoint.plainContext h = true := by
    rw [headerAccepted_iff, hsequence, hhighest, hcount, htype, hrecvd]
    refine ⟨?_, by bv_omega, rfl, by decide, by decide⟩
    rw [maxPacketWindowSize]
    bv_omega
  have hnone : (c.packetHighestAck h - c.mHighestAckedSeq).toNat = 0 := by
    rw [hhighest, hacked]
    rfl
  have hslots : c.mLastSeqRecvdAtSend = fun _ => 0 := by rw [hc]
  have hsent : c.mLastSendSeq = 0 := by rw [hc]
  have hqueue : c.mNotifyQueue = [] := by rw [hc]
  refine ⟨_, readPacketHeader_accepted hacc (by omega), ?_⟩
  simp [finishHeader, notifiedState, hsequence, hhighest, hslots, hsent, hqueue]

/-- The host reads an ack of the one data packet it has outstanding. -/
theorem host_reads {c : NetConnection ℕ}
    (hc : c = ⟨fun _ => 0, 0, BitVec.ofNat 32 k, BitVec.ofNat 32 (k + 1), 0, 0, [0]⟩)
    {h : PacketHeader} (htype : h.packetType = .ackPacket) (hseq : h.sequence = 0)
    (hack : h.highestAck = (BitVec.ofNat 32 (k + 1)).setWidth 10)
    (hcount : h.ackByteCount ≤ maxAckByteCount) :
    ∃ r, c.readPacketHeader Endpoint.plainContext h = some r ∧ 
      r.conn = ⟨fun _ => 0, 0, BitVec.ofNat 32 (k + 1), BitVec.ofNat 32 (k + 1), 0, 0, []⟩ := by
  have hrecvd : c.mLastSeqRecvd = 0 := by rw [hc]
  have hacked : c.mHighestAckedSeq = BitVec.ofNat 32 k := by rw [hc]
  have hsequence : c.packetSequence h = 0 := by
    apply packetSequence_of_ahead
    · rw [hseq]
      rfl
    · rw [hrecvd]
      decide
  have hhighest : c.packetHighestAck h = BitVec.ofNat 32 (k + 1) := by
    apply packetHighestAck_of_ahead hack
    rw [hacked]
    bv_omega
  have hsent : c.mLastSendSeq = BitVec.ofNat 32 (k + 1) := by rw [hc]
  have hacc : c.headerAccepted Endpoint.plainContext h = true := by
    rw [headerAccepted_iff, hsequence, hhighest, htype, hrecvd, hsent]
    exact ⟨by decide, BitVec.le_refl _, rfl, hcount, by decide⟩
  have hone : (BitVec.ofNat 32 (k + 1) - BitVec.ofNat 32 k).toNat = 1 := by bv_omega
  have hqueue : c.mNotifyQueue = [0] := by rw [hc]
  -- the slots of `mLastSeqRecvdAtSend` all hold zero, whether the packet is reported or not
  have hslots : c.mLastSeqRecvdAtSend = fun _ => 0 := by rw [hc]
  have hmask : c.mAckMask = 0 := by rw [hc]
  have hackAck : c.mLastRecvAckAck = 0 := by rw [hc]
  have hfinal : c.notifiedState Endpoint.plainContext h =
      ⟨fun _ => 0, 0, BitVec.ofNat 32 k, BitVec.ofNat 32 (k + 1), 0, 0, []⟩ := by
    simp only [notifiedState, hsequence, hhighest, hacked, hone, hqueue, hslots, hackAck, hsent,
      hrecvd, ackAckAfter, htype, shiftedAckMask, hmask]
    simp
  refine ⟨_, readPacketHeader_accepted hacc (by rw [hhighest, hacked, hone, hqueue]; rfl), ?_⟩
  rw [hfinal, hsequence, hhighest]
  simp [finishHeader, maxPacketWindowSize]

/-- One more data packet, and its ack. -/
theorem AckedOneByOne.round (hl : AckedOneByOne k l) :
    ∃ as m, Run stepAny (fun _ _ => True) l as m ∧ AckedOneByOne (k + 1) m := by
  have hone : BitVec.ofNat 32 k + 1 = BitVec.ofNat 32 (k + 1) := by bv_omega
  have hdata : (l.conn .host).writeDataPacket 0 =
      (⟨.dataPacket, (BitVec.ofNat 32 (k + 1)).setWidth 11, 0, 0, 0⟩,
        ⟨fun _ => 0, 0, BitVec.ofNat 32 k, BitVec.ofNat 32 (k + 1), 0, 0, [0]⟩) := by
    rw [hl.host, ← hone]
    simp [writeDataPacket, writePacketHeader, headerFields, ackByteCount]
  have hfull : (l.conn .host).windowFull none = false := by
    rw [hl.host]
    simp [windowFull, maxPacketWindowSize]
  obtain ⟨r, hread, hr⟩ := initiator_reads hl.initiator
    (h := ((l.conn .host).writeDataPacket 0).1) (by rw [hdata]) (by rw [hdata]) (by rw [hdata])
    (by rw [hdata])
  obtain ⟨l₁, hdeliver, hinitiator, hhost, hkept⟩ := deliver_last
    (l := l.setConn .host ((l.conn .host).writeDataPacket 0).2) .initiator
    (by simpa [setConn] using hread)
  have hcovered : (l₁.conn .initiator).AckCovered := by
    rw [hinitiator]
    exact (readPacketHeader_covered hl.covered hread).1
  have hhost' : l₁.conn .host = ((l.conn .host).writeDataPacket 0).2 := by
    refine hhost.trans ?_
    exact setConn_conn_self ..
  rw [← hinitiator] at hr
  obtain ⟨r', hread', hr'⟩ := host_reads (c := l₁.conn .host) (by rw [hhost', hdata])
    (h := (l₁.conn .initiator).headerFields .ackPacket) rfl (by rw [hr]; rfl) (by rw [hr]; rfl)
    (headerFields_le hcovered .ackPacket)
  obtain ⟨l₂, hdeliver', hhost₂, hinitiator₂, hkept'⟩ := deliver_last .host hread'
  have hsend : l.stepAny (.checkPacketSend .host none 0) =
      some ((l.setConn .host ((l.conn .host).writeDataPacket 0).2).send .host
        ((l.conn .host).writeDataPacket 0).1) := by
    simp only [stepAny, step, hfull]
    rfl
  have hsend' : l₁.stepAny (.sendAckPacket .initiator) =
      some (l₁.send .initiator ((l₁.conn .initiator).headerFields .ackPacket)) := by
    have hack : (l₁.conn .initiator).writePacketHeader .ackPacket =
        ((l₁.conn .initiator).headerFields .ackPacket, l₁.conn .initiator) := rfl
    simp only [stepAny, step, hack, setConn_self]
  have hinitiator' : l₂.conn .initiator = l₁.conn .initiator := hinitiator₂
  refine ⟨_, l₂, .cons trivial hsend (.cons trivial hdeliver (.cons trivial hsend'
    (.cons trivial hdeliver' (.nil _)))), ?_, ?_, ?_, ?_⟩
  · rw [hhost₂, hr']
  · rw [hinitiator']
    exact hr
  · rw [hinitiator']
    exact hcovered
  · rcases hl.inFlight with ⟨p, hp, hheader⟩
    exact ⟨p, hkept' p (hkept p hp), hheader⟩

theorem ackedOneByOne (k : ℕ) : ∃ as l, Run stepAny (fun _ _ => True) (start fun _ => 0) as l ∧
    AckedOneByOne k l := by
  induction k with
  | zero =>
    refine ⟨[.sendAckPacket .initiator], _, .cons trivial rfl (.nil _), ?_, ?_, ?_, ?_⟩
    · rfl
    · rfl
    · simp [AckCovered, send, setConn, start, connected]
    · exact ⟨_, List.mem_singleton_self _, rfl⟩
  | succ k ih =>
    rcases ih with ⟨as, l, run, hl⟩
    rcases hl.round with ⟨bs, m, more, hm⟩
    exact ⟨as ++ bs, m, run.append more, hm⟩

end AckedOneByOne

/-- An ack packet without ack bytes, overtaken by 1023 acknowledged data packets. -/
theorem stale_ack_notifies :
    ¬ ∀ (initialSendSeq : Side → U32) (as : List (Action ℕ)) (l : Link ℕ),
      Run stepAny (fun _ _ => True) (start initialSendSeq) as l →
        (∀ x, ∀ p ∈ l.packets x, p.header.ackByteCount ≤ maxAckByteCount) ∧
          ∀ y ctx, ∀ p ∈ l.packets y.peer, (l.conn y).headerAccepted ctx p.header = true →
            ((l.conn y).packetHighestAck p.header - (l.conn y).mHighestAckedSeq).toNat ≤
              8 * p.header.ackByteCount.toNat := by
  intro claim
  obtain ⟨as, l, run, hl⟩ := ackedOneByOne 1023
  let m := (l.setConn .host ((l.conn .host).writeDataPacket 0).2).send .host
    ((l.conn .host).writeDataPacket 0).1
  have hstep : l.stepAny (.checkPacketSend .host none 0) = some m := by
    have hfull : (l.conn .host).windowFull none = false := by
      rw [hl.host]
      rfl
    simp only [stepAny, step, hfull]
    rfl
  have hhost : m.conn .host = ⟨fun _ => 0, 0, 1023, 1024, 0, 0, [0]⟩ := by
    change (l.setConn .host _).conn .host = _
    rw [setConn_conn_self, hl.host]
    simp [writeDataPacket, writePacketHeader]
  rcases hl.inFlight with ⟨p, hp, hheader⟩
  have covers := (claim _ _ m (run.snoc trivial hstep)).2 .host Endpoint.plainContext p hp
  rw [hhost, hheader] at covers
  exact absurd (covers (by decide)) (by decide)

end Link

end TNL
