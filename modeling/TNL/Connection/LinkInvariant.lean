import TNL.Connection.Link

/-!
# The invariant of two connected sides

For each direction of traffic the sender's window, the receiver's counters and
ack mask, and every header the receiver has ever sent are tied together: a set
bit in a mask names a data packet whose header was read, a clear bit one whose
body was not processed and never will be. One lemma for each operation keeps
all of it.
-/
namespace TNL
open Library

/-- A mask whose bit `i` reports on packet `top - i`, for the packets after `low`. -/
def MaskSound (headersRead processed : List U32) (mask : U32) (top low : ℕ) : Prop :=
  ∀ n : U32, low < n.toNat → n.toNat ≤ top →
    (mask.getLsbD (top - n.toNat) = true → n ∈ headersRead) ∧
      (mask.getLsbD (top - n.toNat) = false → n ∉ processed)

namespace MaskSound

variable {headersRead processed : List U32} {mask : U32} {top low : ℕ}

theorem anti {low' : ℕ} (hm : MaskSound headersRead processed mask top low) (hlow : low ≤ low') :
    MaskSound headersRead processed mask top low' :=
  fun n hn => hm n (by omega)

/-- Reading more headers and processing later packets keeps what a mask has reported. -/
theorem extend {more later : List U32} (hm : MaskSound headersRead processed mask top low)
    (hlater : ∀ n ∈ later, top < n.toNat) :
    MaskSound (headersRead ++ more) (processed ++ later) mask top low := by
  intro n hlow htop
  obtain ⟨hset, hclear⟩ := hm n hlow htop
  refine ⟨fun h => List.mem_append_left _ (hset h), fun h hmem => ?_⟩
  obtain hold | hnew := List.mem_append.mp hmem
  · exact hclear h hold
  · have := hlater n hnew
    omega

/-- Sending only the low bits loses no report as long as they cover the packets after `low`. -/
theorem truncate {bits : ℕ} (hm : MaskSound headersRead processed mask top low)
    (hbits : top - low ≤ bits) (hbound : top - low ≤ 32) :
    MaskSound headersRead processed ((mask.setWidth bits).setWidth 32) top low := by
  intro n hlow htop
  have hbit : ((mask.setWidth bits).setWidth 32).getLsbD (top - n.toNat) =
      mask.getLsbD (top - n.toNat) := by
    simp only [BitVec.getLsbD_setWidth]
    have h32 : top - n.toNat < 32 := by omega
    have hb : top - n.toNat < bits := by omega
    simp [h32, hb]
  rw [hbit]
  exact hm n hlow htop

/-- Shifting the mask up to a later packet, whose own bit is set when it carries data. -/
theorem shift (seq : U32) (data : Bool)
    (hm : MaskSound headersRead processed mask top (top - 32))
    (hle : top ≤ seq.toNat) (hprocessed : ∀ n ∈ processed, n.toNat ≤ top) :
    MaskSound (headersRead ++ if data then [seq] else [])
      (processed ++ if data ∧ top ≠ seq.toNat then [seq] else [])
      ((mask <<< (seq.toNat - top)) ||| (if data then 1 else 0)) seq.toNat (seq.toNat - 32) := by
  intro n hlow htop
  have hone : (if data then (1 : U32) else 0).getLsbD (seq.toNat - n.toNat) =
      (data && decide (n = seq)) := by
    have hn : seq.toNat - n.toNat = 0 ↔ n = seq := by
      rw [← BitVec.toNat_inj]
      omega
    cases data with
    | true => simp [← hn]
    | false => simp
  have hbit : ((mask <<< (seq.toNat - top)) ||| (if data then (1 : U32) else 0)).getLsbD
      (seq.toNat - n.toNat) =
      ((decide (n.toNat ≤ top) && mask.getLsbD (top - n.toNat)) || (data && decide (n = seq))) := by
    rw [BitVec.getLsbD_or, BitVec.getLsbD_shiftLeft, hone]
    by_cases hn : n.toNat ≤ top
    · have hindex : seq.toNat - n.toNat - (seq.toNat - top) = top - n.toNat := by omega
      simp [hindex, hn, show seq.toNat - n.toNat < 32 by omega,
        show ¬ seq.toNat - n.toNat < seq.toNat - top by omega]
    · simp [hn, show seq.toNat - n.toNat < seq.toNat - top by omega]
  rw [hbit]
  constructor
  · intro hset
    simp only [Bool.or_eq_true, Bool.and_eq_true, decide_eq_true_eq] at hset
    obtain ⟨hn, hold⟩ | ⟨hdata, rfl⟩ := hset
    · exact List.mem_append_left _ ((hm n (by omega) hn).1 hold)
    · simp [hdata]
  · intro hclear hmem
    simp only [Bool.or_eq_false_iff, Bool.and_eq_false_iff, decide_eq_false_iff_not] at hclear
    obtain ⟨hmask, hself⟩ := hclear
    obtain hold | hnew := List.mem_append.mp hmem
    · have hn := hprocessed n hold
      obtain hgt | hold' := hmask
      · exact hgt hn
      · exact (hm n (by omega) hn).2 hold' hold
    · -- the packet itself is processed only as data, and then its bit is set
      split at hnew
      · rename_i hdata
        obtain rfl := List.mem_singleton.mp hnew
        simp [hdata.1] at hself
      · simp at hnew

end MaskSound

namespace NetConnection

variable {ν : Type*} {ctx : ReadContext} {h : PacketHeader}

/-- Every notification of a run over the queue is for one of the numbers from `i` on, with the
fate the header reports for it. -/
theorem mem_notificationsFrom {pkHighestAck i : U32} {notes : List ν} {n : Notification ν}
    (hn : n ∈ notificationsFrom ctx h pkHighestAck i notes) :
    ∃ k < notes.length, n.sequence = i + BitVec.ofNat 32 k ∧
      n.recvd = packetTransmitSuccess ctx h pkHighestAck (i + BitVec.ofNat 32 k) := by
  induction notes generalizing i with
  | nil => simp [notificationsFrom] at hn
  | cons note notes ih =>
    obtain rfl | htail := List.mem_cons.mp hn
    · exact ⟨0, by simp, by simp, by simp⟩
    · obtain ⟨k, hk, hseq, hrecvd⟩ := ih htail
      have hshift : i + 1 + BitVec.ofNat 32 k = i + BitVec.ofNat 32 (k + 1) := by bv_omega
      exact ⟨k + 1, by simpa using hk, hshift ▸ hseq, hshift ▸ hrecvd⟩

/-- `mLastRecvAckAck` after the notify loop is its old value or one stored for a packet the
header acks. -/
theorem ackAckAfter_of {Q : U32 → Prop} {atSend : BitVec 5 → U32} {pkHighestAck i last : U32}
    {count : ℕ} (hlast : Q last)
    (hsent : ∀ k < count, packetTransmitSuccess ctx h pkHighestAck (i + BitVec.ofNat 32 k) = true →
      Q (atSend ((i + BitVec.ofNat 32 k).setWidth 5))) :
    Q (ackAckAfter ctx h pkHighestAck atSend count i last) := by
  induction count generalizing i last with
  | zero => exact hlast
  | succ count ih =>
    apply ih
    · split
      · rename_i hrecvd
        simpa using hsent 0 (by omega) (by simpa using hrecvd)
      · exact hlast
    · intro k hk
      have hshift : i + 1 + BitVec.ofNat 32 k = i + BitVec.ofNat 32 (k + 1) := by bv_omega
      rw [hshift]
      exact hsent (k + 1) (by omega)

/-- For a packet inside the transmitted mask the reported fate is its mask bit. -/
theorem packetTransmitSuccess_eq {pkHighestAck n : U32} (hle : n.toNat ≤ pkHighestAck.toNat)
    (hnear : pkHighestAck.toNat < n.toNat + 32) (hcount : h.ackByteCount ≠ 0) :
    packetTransmitSuccess ctx h pkHighestAck n =
      h.ackMask.getLsbD (pkHighestAck.toNat - n.toNat) := by
  have hdiff : (pkHighestAck - n).toNat = pkHighestAck.toNat - n.toNat := by bv_omega
  have hbit : ((pkHighestAck - n) &&& 0x1F).toNat = pkHighestAck.toNat - n.toNat := by
    rw [BitVec.toNat_and, hdiff]
    exact (Nat.and_two_pow_sub_one_eq_mod _ 5).trans (Nat.mod_eq_of_lt (by omega))
  have hword : ((pkHighestAck - n) >>> 5).toNat = 0 := by
    rw [BitVec.toNat_ushiftRight, hdiff, Nat.shiftRight_eq_div_pow]
    omega
  simp only [packetTransmitSuccess, ackWord, hword, hbit]
  rw [if_pos ⟨trivial, hcount⟩]

end NetConnection

namespace Link
open NetConnection

variable {ν : Type*} {l m : Link ν} {x y : Side} {p : Packet}

/-- What holds, from then on, of a packet that side `x` has sent. -/
structure PacketSound (l : Link ν) (x : Side) (p : Packet) : Prop where
  sequenceField : p.header.sequence = p.sequence.setWidth 11
  ackField : p.header.highestAck = p.ack.setWidth 10
  stamp : p.sendSeqs x = p.sequence
  seq_le : p.sequence.toNat ≤ (l.conn x).mLastSendSeq.toNat
  seq_near : p.sequence.toNat ≤ (l.conn x.peer).mLastSeqRecvd.toNat + 30
  stamp_le : (p.sendSeqs x.peer).toNat ≤ (l.conn x.peer).mLastSendSeq.toNat
  stamp_near : (p.sendSeqs x.peer).toNat ≤ p.ack.toNat + 30
  ack_le : p.ack.toNat ≤ (l.conn x).mLastSeqRecvd.toNat
  ackAck_le : p.ackAck.toNat ≤ (l.conn x.peer).mHighestAckedSeq.toNat
  covered : p.ack.toNat ≤ p.ackAck.toNat + 8 * p.header.ackByteCount.toNat
  reports : MaskSound (l.headersRead x) (l.processed x) p.header.ackMask p.ack.toNat p.ackAck.toNat

/-- The state of side `x`, with the counters of the peer it is held against. -/
structure SideSound (l : Link ν) (x : Side) : Prop where
  acked_le : (l.conn x).mHighestAckedSeq.toNat ≤ (l.conn x.peer).mLastSeqRecvd.toNat
  recvd_le : (l.conn x.peer).mLastSeqRecvd.toNat ≤ (l.conn x).mLastSendSeq.toNat
  window : (l.conn x).mLastSendSeq.toNat ≤ (l.conn x).mHighestAckedSeq.toNat + 30
  queue : (l.conn x).mNotifyQueue.length =
    (l.conn x).mLastSendSeq.toNat - (l.conn x).mHighestAckedSeq.toNat
  ackAck_le : (l.conn x.peer).mLastRecvAckAck.toNat ≤ (l.conn x).mHighestAckedSeq.toNat
  ackAck_near : (l.conn x).mLastSeqRecvd.toNat ≤ (l.conn x).mLastRecvAckAck.toNat + 32
  mask : MaskSound (l.headersRead x) (l.processed x) (l.conn x).mAckMask
    (l.conn x).mLastSeqRecvd.toNat ((l.conn x).mLastSeqRecvd.toNat - 32)
  processed_le : ∀ n ∈ l.processed x, n.toNat ≤ (l.conn x).mLastSeqRecvd.toNat
  processed_lt : (l.processed x).Pairwise (fun n k => n.toNat < k.toNat)
  packets : ∀ p ∈ l.packets x, PacketSound l x p
  atSend : ∀ p ∈ l.packets x, p.isData → (l.conn x).mHighestAckedSeq.toNat < p.sequence.toNat →
    (l.conn x).mLastSeqRecvdAtSend (p.sequence.setWidth 5) = p.ack
  headers : ∀ n ∈ l.headersRead x, ∃ p ∈ l.packets x.peer, p.isData ∧ p.sequence = n ∧
    p.ack.toNat ≤ (l.conn x).mHighestAckedSeq.toNat
  notified_recvd : ∀ n ∈ l.notified x, n.recvd = true → n.sequence ∈ l.headersRead x.peer
  notified_dropped : ∀ n ∈ l.notified x, n.recvd = false → n.sequence ∉ l.processed x.peer ∧
    n.sequence.toNat ≤ (l.conn x.peer).mLastSeqRecvd.toNat

def Sound (l : Link ν) : Prop := ∀ x, SideSound l x

/-- Counters only grow, histories only get longer, and what is processed later is newer. -/
structure Advances (l m : Link ν) : Prop where
  sent : ∀ x, (l.conn x).mLastSendSeq.toNat ≤ (m.conn x).mLastSendSeq.toNat
  recvd : ∀ x, (l.conn x).mLastSeqRecvd.toNat ≤ (m.conn x).mLastSeqRecvd.toNat
  acked : ∀ x, (l.conn x).mHighestAckedSeq.toNat ≤ (m.conn x).mHighestAckedSeq.toNat
  headersRead : ∀ x, ∃ more, m.headersRead x = l.headersRead x ++ more
  processed : ∀ x, ∃ later, m.processed x = l.processed x ++ later ∧
    ∀ n ∈ later, (l.conn x).mLastSeqRecvd.toNat < n.toNat

theorem PacketSound.advance (hp : PacketSound l x p) (h : Advances l m) : PacketSound m x p where
  sequenceField := hp.sequenceField
  ackField := hp.ackField
  stamp := hp.stamp
  seq_le := hp.seq_le.trans (h.sent x)
  seq_near := hp.seq_near.trans (Nat.add_le_add_right (h.recvd x.peer) 30)
  stamp_le := hp.stamp_le.trans (h.sent x.peer)
  stamp_near := hp.stamp_near
  ack_le := hp.ack_le.trans (h.recvd x)
  ackAck_le := hp.ackAck_le.trans (h.acked x.peer)
  covered := hp.covered
  reports := by
    obtain ⟨more, hmore⟩ := h.headersRead x
    obtain ⟨later, hlater, hnew⟩ := h.processed x
    rw [hmore, hlater]
    exact hp.reports.extend (fun n hn => lt_of_le_of_lt hp.ack_le (hnew n hn))

theorem start_sound (initialSendSeq : Side → U32) : Sound (start (ν := ν) initialSendSeq) := by
  intro x
  constructor <;> simp [start, connected]
  intro n hlow htop
  simp

/-- A header written from sound counters is sound. -/
theorem packetOf_sound (hl : Sound l) (x : Side) (packetType : NetPacketType) :
    PacketSound l x (l.packetOf x ((l.conn x).headerFields packetType)) := by
  have hx := hl x
  have hy := hl x.peer
  have hacked := hy.acked_le
  have hrecvd := hy.recvd_le
  have hwindow := hy.window
  have hack := hy.ackAck_le
  rw [Side.peer_peer] at hacked hrecvd hack
  have hnear := hx.ackAck_near
  have hbytes : (l.conn x).ackByteCount.toNat =
      ((l.conn x).mLastSeqRecvd.toNat - (l.conn x).mLastRecvAckAck.toNat + 7) / 8 := by
    unfold ackByteCount
    bv_omega
  constructor
  · rfl
  · rfl
  · rfl
  · exact le_rfl
  · have := hx.acked_le
    have := hx.window
    change (l.conn x).mLastSendSeq.toNat ≤ _
    omega
  · exact le_rfl
  · change (l.conn x.peer).mLastSendSeq.toNat ≤ (l.conn x).mLastSeqRecvd.toNat + 30
    omega
  · exact le_rfl
  · exact hack
  · simp only [packetOf, headerFields, BitVec.toNat_setWidth]
    omega
  · have hreports : MaskSound (l.headersRead x) (l.processed x) (l.conn x).mAckMask
        (l.conn x).mLastSeqRecvd.toNat (l.conn x).mLastRecvAckAck.toNat :=
      hx.mask.anti (by omega)
    exact hreports.truncate (by omega) (by omega)

theorem send_advances (l : Link ν) (x : Side) (header : PacketHeader) :
    Advances l (l.send x header) where
  sent _ := le_rfl
  recvd _ := le_rfl
  acked _ := le_rfl
  headersRead _ := ⟨[], by simp [send]⟩
  processed _ := ⟨[], by simp [send]⟩

theorem mem_send_packets {header : PacketHeader} :
    p ∈ (l.send x header).packets y ↔ p ∈ l.packets y ∨ y = x ∧ p = l.packetOf x header := by
  by_cases hyx : y = x
  · subst hyx
    simp [send]
  · simp [send, hyx]

/-- Putting a freshly written header on the wire. For a data packet the slot of
`mLastSeqRecvdAtSend` must have been filled in. -/
theorem send_sound (hl : Sound l) (x : Side) (packetType : NetPacketType)
    (hslot : packetType = .dataPacket →
      (l.conn x).mLastSeqRecvdAtSend ((l.conn x).mLastSendSeq.setWidth 5) =
        (l.conn x).mLastSeqRecvd) :
    Sound (l.send x ((l.conn x).headerFields packetType)) := by
  intro z
  have hz := hl z
  have hadv := send_advances l x ((l.conn x).headerFields packetType)
  constructor
  · exact hz.acked_le
  · exact hz.recvd_le
  · exact hz.window
  · exact hz.queue
  · exact hz.ackAck_le
  · exact hz.ackAck_near
  · exact hz.mask
  · exact hz.processed_le
  · exact hz.processed_lt
  · intro p hp
    obtain hold | ⟨rfl, rfl⟩ := mem_send_packets.mp hp
    · exact (hz.packets p hold).advance hadv
    · exact (packetOf_sound hl z packetType).advance hadv
  · intro p hp hdata hnew
    obtain hold | ⟨rfl, rfl⟩ := mem_send_packets.mp hp
    · exact hz.atSend p hold hdata hnew
    · exact hslot hdata
  · intro n hn
    obtain ⟨p, hp, hdata, hseq, hack⟩ := hz.headers n hn
    exact ⟨p, mem_send_packets.mpr (.inl hp), hdata, hseq, hack⟩
  · exact hz.notified_recvd
  · exact hz.notified_dropped

section setConn

variable (l : Link ν) (x : Side) (c : NetConnection ν)

@[simp] theorem setConn_conn_self : (l.setConn x c).conn x = c := by simp [setConn]

@[simp] theorem setConn_conn_peer : (l.setConn x c).conn x.peer = l.conn x.peer := by
  simp [setConn, Side.peer_ne]

@[simp] theorem setConn_packets : (l.setConn x c).packets = l.packets := rfl

@[simp] theorem setConn_headersRead : (l.setConn x c).headersRead = l.headersRead := rfl

@[simp] theorem setConn_processed : (l.setConn x c).processed = l.processed := rfl

@[simp] theorem setConn_notified : (l.setConn x c).notified = l.notified := rfl

theorem setConn_self : l.setConn x (l.conn x) = l := by simp [setConn]

end setConn

/-- Writing a data packet, before it is on the wire. -/
theorem writeDataPacket_sound (hl : Sound l) (x : Side) (note : ν)
    (hout : (l.conn x).outstanding < 30) (hwrap : (l.conn x).mLastSendSeq.toNat + 1 < 2 ^ 32) :
    Sound (l.setConn x ((l.conn x).writeDataPacket note).2) := by
  have hx := hl x
  have hnext : ((l.conn x).mLastSendSeq + 1).toNat = (l.conn x).mLastSendSeq.toNat + 1 := by
    bv_omega
  have hout' : (l.conn x).mLastSendSeq.toNat < (l.conn x).mHighestAckedSeq.toNat + 30 := by
    have h₁ := hx.acked_le
    have h₂ := hx.recvd_le
    unfold outstanding at hout
    bv_omega
  have hsent : ∀ z, (l.conn z).mLastSendSeq.toNat ≤
      ((l.setConn x ((l.conn x).writeDataPacket note).2).conn z).mLastSendSeq.toNat := by
    intro z
    obtain rfl | rfl := Side.eq_or_eq_peer x z
    · rw [setConn_conn_self, writeDataPacket_mLastSendSeq, hnext]
      omega
    · rw [setConn_conn_peer]
  have hadv : Advances l (l.setConn x ((l.conn x).writeDataPacket note).2) := by
    refine ⟨hsent, ?_, ?_, fun _ => ⟨[], by simp [setConn]⟩, fun _ => ⟨[], by simp [setConn]⟩⟩ <;>
      intro z <;> obtain rfl | rfl := Side.eq_or_eq_peer x z <;> simp
  intro z
  have hz := hl z
  have hpackets : ∀ p ∈ l.packets z, PacketSound (l.setConn x ((l.conn x).writeDataPacket note).2)
      z p := fun p hp => (hz.packets p hp).advance hadv
  obtain rfl | rfl := Side.eq_or_eq_peer x z
  · constructor
    · simpa using hz.acked_le
    · rw [setConn_conn_self, setConn_conn_peer, writeDataPacket_mLastSendSeq, hnext]
      exact hz.recvd_le.trans (Nat.le_succ _)
    · rw [setConn_conn_self, writeDataPacket_mLastSendSeq, hnext, writeDataPacket_mHighestAckedSeq]
      omega
    · have := hz.queue
      have := hz.acked_le
      have := hz.recvd_le
      rw [setConn_conn_self, writeDataPacket_mLastSendSeq, hnext, writeDataPacket_mHighestAckedSeq,
        writeDataPacket_mNotifyQueue, List.length_append, List.length_singleton]
      omega
    · simpa using hz.ackAck_le
    · simpa using hz.ackAck_near
    · simpa using hz.mask
    · simpa using hz.processed_le
    · exact hz.processed_lt
    · exact hpackets
    · intro p hp hdata hnew
      rw [setConn_conn_self, writeDataPacket_mHighestAckedSeq] at hnew
      -- the slot just written belongs to a number less than a window away
      have hseq := (hz.packets p hp).seq_le
      have hne : p.sequence.setWidth 5 ≠ ((l.conn z).mLastSendSeq + 1).setWidth 5 := by
        intro heq
        have := congrArg BitVec.toNat heq
        rw [BitVec.toNat_setWidth, BitVec.toNat_setWidth, hnext] at this
        omega
      rw [setConn_conn_self, writeDataPacket_mLastSeqRecvdAtSend, Function.update_of_ne hne]
      exact hz.atSend p hp hdata hnew
    · simpa using hz.headers
    · exact hz.notified_recvd
    · simpa using hz.notified_dropped
  · constructor
    · simpa using hz.acked_le
    · simpa using hz.recvd_le
    · simpa using hz.window
    · simpa using hz.queue
    · simpa using hz.ackAck_le
    · simpa using hz.ackAck_near
    · simpa using hz.mask
    · simpa using hz.processed_le
    · exact hz.processed_lt
    · exact hpackets
    · simpa using hz.atSend
    · simpa using hz.headers
    · exact hz.notified_recvd
    · simpa using hz.notified_dropped

/-- The counters a packet in its window carries, against those of both sides now. -/
theorem InWindow.sent_le (hnear : l.InWindow x p) (hp : PacketSound l x p) :
    (l.conn x).mLastSendSeq.toNat ≤ p.sequence.toNat + 2016 ∧
      (l.conn x.peer).mLastSendSeq.toNat ≤ p.ack.toNat + 1023 := by
  obtain ⟨hown, hpeer⟩ := hnear
  have hseq := hp.seq_le
  have hle := hp.stamp_le
  have hstamp := hp.stamp_near
  rw [hp.stamp] at hown
  constructor <;> bv_omega

/-- An accepted packet carries the sequence number it is completed to, and it is not older than
the last one received. -/
theorem sequence_of_accepted {ctx : ReadContext} (hl : Sound l) (hp : PacketSound l x p)
    (hnear : l.InWindow x p) (hacc : (l.conn x.peer).headerAccepted ctx p.header = true) :
    (l.conn x.peer).packetSequence p.header = p.sequence ∧
      (l.conn x.peer).mLastSeqRecvd.toNat ≤ p.sequence.toNat := by
  have hcompleted := (l.conn x.peer).packetSequence_toNat p.header
  rw [hp.sequenceField, BitVec.toNat_setWidth] at hcompleted
  have hsent := (hnear.sent_le hp).1
  have hrecvd := (hl x).recvd_le
  have hseqNear := hp.seq_near
  have hbound := p.sequence.isLt
  obtain ⟨hwindow, -⟩ := headerAccepted_iff.mp hacc
  by_cases hle : (l.conn x.peer).mLastSeqRecvd.toNat ≤ p.sequence.toNat
  · rw [expandCounter_of_mem (by omega) hle (by omega), Nat.mod_eq_of_lt hbound] at hcompleted
    exact ⟨BitVec.eq_of_toNat_eq hcompleted, hle⟩
  · -- an older packet is completed one window too high, far outside the packet window
    exfalso
    rw [expandCounter_of_lt (by omega) (by omega) (by omega)] at hcompleted
    have hdiff : ((l.conn x.peer).packetSequence p.header - (l.conn x.peer).mLastSeqRecvd).toNat =
        p.sequence.toNat + 2048 - (l.conn x.peer).mLastSeqRecvd.toNat := by
      rw [BitVec.toNat_sub, hcompleted]
      omega
    rw [BitVec.le_def, hdiff] at hwindow
    change _ ≤ 31 at hwindow
    omega

/-- The acknowledged number of an accepted packet is completed exactly, unless the notify loop
runs off the queue. -/
theorem ack_of_accepted {ctx : ReadContext} {r : Received ν} (hl : Sound l)
    (hp : PacketSound l x p) (hnear : l.InWindow x p)
    (hacc : (l.conn x.peer).headerAccepted ctx p.header = true)
    (hread : (l.conn x.peer).readPacketHeader ctx p.header = some r) :
    (l.conn x.peer).packetHighestAck p.header = p.ack ∧
      (l.conn x.peer).mHighestAckedSeq.toNat ≤ p.ack.toNat := by
  have hcompleted := (l.conn x.peer).packetHighestAck_toNat p.header
  rw [hp.ackField, BitVec.toNat_setWidth] at hcompleted
  have hsent := (hnear.sent_le hp).2
  have hwindow := (hl x.peer).window
  have hacked := (hl x.peer).acked_le
  have hrecvd := (hl x.peer).recvd_le
  have hle := hp.ack_le
  rw [Side.peer_peer] at hacked hrecvd
  have hbound := p.ack.isLt
  by_cases hnew : (l.conn x.peer).mHighestAckedSeq.toNat ≤ p.ack.toNat
  · rw [expandCounter_of_mem (by omega) hnew (by omega), Nat.mod_eq_of_lt hbound] at hcompleted
    exact ⟨BitVec.eq_of_toNat_eq hcompleted, hnew⟩
  · -- a stale ack is completed past everything sent, or past zero
    exfalso
    rw [expandCounter_of_lt (by omega) (by omega) (by omega)] at hcompleted
    obtain ⟨-, hack, -⟩ := headerAccepted_iff.mp hacc
    rw [BitVec.le_def] at hack
    have hqueue := (hl x.peer).queue
    have hfault := readPacketHeader_faults hacc (by
      rw [hqueue, BitVec.toNat_sub, hcompleted]
      omega)
    rw [hfault] at hread
    exact absurd hread (by simp)

/-- What a read does to an accepted packet of a sound link. -/
theorem read_eq {ctx : ReadContext} {r : Received ν} (hl : Sound l) (hp : PacketSound l x p)
    (hnear : l.InWindow x p) (hacc : (l.conn x.peer).headerAccepted ctx p.header = true)
    (hread : (l.conn x.peer).readPacketHeader ctx p.header = some r) :
    r = ((l.conn x.peer).notifiedState ctx p.header).finishHeader p.header p.sequence p.ack
      (notificationsFrom ctx p.header p.ack ((l.conn x.peer).mHighestAckedSeq + 1)
        ((l.conn x.peer).mNotifyQueue.take
          (p.ack.toNat - (l.conn x.peer).mHighestAckedSeq.toNat))) := by
  obtain ⟨hack, hnew⟩ := ack_of_accepted hl hp hnear hacc hread
  obtain ⟨hseq, -⟩ := sequence_of_accepted hl hp hnear hacc
  have hle := hp.ack_le
  have hrecvd := (hl x.peer).recvd_le
  rw [Side.peer_peer] at hrecvd
  have hcount : (p.ack - (l.conn x.peer).mHighestAckedSeq).toNat =
      p.ack.toNat - (l.conn x.peer).mHighestAckedSeq.toNat := by bv_omega
  have hqueue := (hl x.peer).queue
  have heq := readPacketHeader_accepted hacc (by rw [hack, hqueue, hcount]; omega)
  rw [hread, hack, hseq, hcount] at heq
  exact Option.some.inj heq

/-- The packets a header reports on: each has a bit in its mask, with the meaning the header
was written with. -/
theorem reported (ctx : ReadContext) (hl : Sound l) (hp : PacketSound l x p) {k : ℕ}
    (hk : k < p.ack.toNat - (l.conn x.peer).mHighestAckedSeq.toNat) :
    let n := (l.conn x.peer).mHighestAckedSeq + 1 + BitVec.ofNat 32 k
    (l.conn x.peer).mHighestAckedSeq.toNat < n.toNat ∧
      (packetTransmitSuccess ctx p.header p.ack n = true → n ∈ l.headersRead x) ∧
      (packetTransmitSuccess ctx p.header p.ack n = false →
        n ∉ l.processed x ∧ n.toNat ≤ (l.conn x).mLastSeqRecvd.toNat) := by
  intro n
  have hle := hp.ack_le
  have hrecvd := (hl x.peer).recvd_le
  have hwindow := (hl x.peer).window
  have hackAck := hp.ackAck_le
  have hcovered := hp.covered
  rw [Side.peer_peer] at hrecvd
  have hn : n.toNat = (l.conn x.peer).mHighestAckedSeq.toNat + 1 + k := by
    change ((l.conn x.peer).mHighestAckedSeq + 1 + BitVec.ofNat 32 k).toNat = _
    bv_omega
  have hbytes : p.header.ackByteCount ≠ 0 := by
    intro h
    rw [h] at hcovered
    simp at hcovered
    omega
  rw [packetTransmitSuccess_eq (by omega) (by omega) hbytes]
  obtain ⟨hset, hclear⟩ := hp.reports n (by omega) (by omega)
  exact ⟨by omega, hset, fun h => ⟨hclear h, by omega⟩⟩

theorem notified_of_read {ctx : ReadContext} {r : Received ν} (hl : Sound l)
    (hp : PacketSound l x p) (hnear : l.InWindow x p)
    (hacc : (l.conn x.peer).headerAccepted ctx p.header = true)
    (hread : (l.conn x.peer).readPacketHeader ctx p.header = some r) (n : Notification ν)
    (hn : n ∈ r.notified) :
    (n.recvd = true → n.sequence ∈ l.headersRead x) ∧
      (n.recvd = false → n.sequence ∉ l.processed x ∧
        n.sequence.toNat ≤ (l.conn x).mLastSeqRecvd.toNat) := by
  rw [read_eq hl hp hnear hacc hread] at hn
  obtain ⟨k, hk, hseq, hrecvd⟩ := mem_notificationsFrom hn
  have hk' : k < p.ack.toNat - (l.conn x.peer).mHighestAckedSeq.toNat := by
    rw [List.length_take] at hk
    omega
  rw [hseq, hrecvd]
  exact (reported ctx hl hp hk').2

/-- The new `mLastRecvAckAck` stays within reach of what the peer has been told. -/
theorem ackAck_of_read {ctx : ReadContext} {r : Received ν} (hl : Sound l)
    (hp : PacketSound l x p) (hnear : l.InWindow x p)
    (hacc : (l.conn x.peer).headerAccepted ctx p.header = true)
    (hread : (l.conn x.peer).readPacketHeader ctx p.header = some r) :
    r.conn.mLastRecvAckAck.toNat ≤ (l.conn x).mHighestAckedSeq.toNat ∧
      p.sequence.toNat ≤ r.conn.mLastRecvAckAck.toNat + 32 := by
  have hnewer := (sequence_of_accepted hl hp hnear hacc).2
  have hacked := (hl x).acked_le
  have hwindow := (hl x).window
  have hsent := hp.seq_le
  have hloop : ((l.conn x.peer).notifiedState ctx p.header).mLastRecvAckAck.toNat ≤
      (l.conn x).mHighestAckedSeq.toNat := by
    obtain ⟨hack, hnew⟩ := ack_of_accepted hl hp hnear hacc hread
    have hcount : (p.ack - (l.conn x.peer).mHighestAckedSeq).toNat =
      p.ack.toNat - (l.conn x.peer).mHighestAckedSeq.toNat := by bv_omega
    simp only [notifiedState, hack, hcount]
    refine ackAckAfter_of (Q := fun a => a.toNat ≤ (l.conn x).mHighestAckedSeq.toNat)
      (hl x).ackAck_le ?_
    intro k hk hset
    -- the packet was acked because the peer read its header, and with it the stored ack
    obtain ⟨hlt, hmem, -⟩ := reported ctx hl hp hk
    obtain ⟨q, hq, hdata, hqseq, hqack⟩ := (hl x).headers _ (hmem hset)
    rw [← hqseq, (hl x.peer).atSend q hq hdata (by rw [hqseq]; exact hlt)]
    exact hqack
  rw [read_eq hl hp hnear hacc hread]
  simp only [finishHeader]
  generalize ((l.conn x.peer).notifiedState ctx p.header).mLastRecvAckAck = last at hloop ⊢
  have h32 : maxPacketWindowSize = 32 := rfl
  by_cases hfar : p.sequence - last > maxPacketWindowSize
  · rw [if_pos hfar]
    rw [h32] at hfar ⊢
    constructor <;> bv_omega
  · rw [if_neg hfar]
    rw [h32] at hfar
    constructor <;> bv_omega

/-- The counters an accepted packet leaves behind. -/
theorem fields_of_read {ctx : ReadContext} {r : Received ν} (hl : Sound l)
    (hp : PacketSound l x p) (hnear : l.InWindow x p)
    (hacc : (l.conn x.peer).headerAccepted ctx p.header = true)
    (hread : (l.conn x.peer).readPacketHeader ctx p.header = some r) :
    r.conn.mLastSeqRecvd = p.sequence ∧ r.conn.mHighestAckedSeq = p.ack ∧
      r.conn.mLastSendSeq = (l.conn x.peer).mLastSendSeq ∧
      r.conn.mLastSeqRecvdAtSend = (l.conn x.peer).mLastSeqRecvdAtSend ∧
      r.conn.mAckMask = (l.conn x.peer).shiftedAckMask p.sequence p.header.packetType ∧
      r.conn.mNotifyQueue = (l.conn x.peer).mNotifyQueue.drop
        (p.ack.toNat - (l.conn x.peer).mHighestAckedSeq.toNat) ∧
      r.body = decide ((l.conn x.peer).mLastSeqRecvd ≠ p.sequence ∧ p.isData) ∧
      ∀ header, r.reply = some header → header = r.conn.headerFields .ackPacket := by
  obtain ⟨hack, hnew⟩ := ack_of_accepted hl hp hnear hacc hread
  obtain ⟨hseq, -⟩ := sequence_of_accepted hl hp hnear hacc
  have hcount : (p.ack - (l.conn x.peer).mHighestAckedSeq).toNat =
      p.ack.toNat - (l.conn x.peer).mHighestAckedSeq.toNat := by bv_omega
  rw [read_eq hl hp hnear hacc hread]
  refine ⟨rfl, rfl, rfl, rfl, ?_, ?_, ?_, ?_⟩
  · simp [finishHeader, notifiedState, hseq]
  · simp [finishHeader, notifiedState, hack, hcount]
  · exact decide_eq_decide.mpr Iff.rfl
  · intro header hreply
    obtain ⟨-, hheader⟩ := Option.ite_none_right_eq_some.mp hreply
    exact (Option.some.inj hheader).symm

section record

variable (l : Link ν) (x : Side) (p : Packet) (accepted : Bool) (r : Received ν)

@[simp] theorem record_conn_peer : (l.record x.peer p accepted r).conn x.peer = r.conn := by
  simp [record]

@[simp] theorem record_conn : (l.record x.peer p accepted r).conn x = l.conn x := by
  simp [record, (Side.peer_ne x).symm]

@[simp] theorem record_packets : (l.record x p accepted r).packets = l.packets := rfl

@[simp] theorem record_headersRead_peer : (l.record x.peer p accepted r).headersRead x.peer =
    l.headersRead x.peer ++ if accepted ∧ p.isData then [p.sequence] else [] := by simp [record]

@[simp] theorem record_headersRead :
    (l.record x.peer p accepted r).headersRead x = l.headersRead x := by
  simp [record, (Side.peer_ne x).symm]

@[simp] theorem record_processed_peer : (l.record x.peer p accepted r).processed x.peer =
    l.processed x.peer ++ if r.body then [p.sequence] else [] := by simp [record]

@[simp] theorem record_processed :
    (l.record x.peer p accepted r).processed x = l.processed x := by
  simp [record, (Side.peer_ne x).symm]

@[simp] theorem record_notified_peer : (l.record x.peer p accepted r).notified x.peer =
    l.notified x.peer ++ r.notified := by simp [record]

@[simp] theorem record_notified :
    (l.record x.peer p accepted r).notified x = l.notified x := by
  simp [record, (Side.peer_ne x).symm]

theorem record_rejected : l.record x p false ⟨l.conn x, [], none, false⟩ = l := by
  simp [record]

end record

/-- A packet processed now is newer than everything received before. -/
theorem newer_of_body {r : Received ν} (hnewer : (l.conn x.peer).mLastSeqRecvd.toNat ≤
      p.sequence.toNat)
    (hbody : r.body = decide ((l.conn x.peer).mLastSeqRecvd ≠ p.sequence ∧ p.isData)) :
    ∀ n ∈ (if r.body then [p.sequence] else []),
      n = p.sequence ∧ (l.conn x.peer).mLastSeqRecvd.toNat < n.toNat := by
  intro n hn
  split at hn
  · rename_i h
    obtain rfl := List.mem_singleton.mp hn
    rw [hbody, decide_eq_true_eq, Ne, ← BitVec.toNat_inj] at h
    exact ⟨rfl, by omega⟩
  · simp at hn

/-- Reading an accepted packet. -/
theorem record_sound {ctx : ReadContext} {r : Received ν} (hl : Sound l) (hmem : p ∈ l.packets x)
    (hnear : l.InWindow x p) (hacc : (l.conn x.peer).headerAccepted ctx p.header = true)
    (hread : (l.conn x.peer).readPacketHeader ctx p.header = some r) :
    Sound (l.record x.peer p true r) := by
  have hx := hl x
  have hy := hl x.peer
  have hp := hx.packets p hmem
  have hnewer := (sequence_of_accepted hl hp hnear hacc).2
  have hacked := (ack_of_accepted hl hp hnear hacc hread).2
  obtain ⟨hackAck, hackAckNear⟩ := ackAck_of_read hl hp hnear hacc hread
  have hnotified := notified_of_read hl hp hnear hacc hread
  obtain ⟨hrecvd, hack, hsent, hatSend, hmask, hqueue, hbody, -⟩ :=
    fields_of_read hl hp hnear hacc hread
  have hlater := newer_of_body hnewer hbody
  have hyacked := hy.acked_le
  have hyrecvd := hy.recvd_le
  have hyackAck := hy.ackAck_le
  have hydropped := hy.notified_dropped
  have hyrecvd' := hy.notified_recvd
  rw [Side.peer_peer] at hyacked hyrecvd hyackAck hydropped hyrecvd'
  have hadv : Advances l (l.record x.peer p true r) := by
    constructor <;> intro z <;> obtain rfl | rfl := Side.eq_or_eq_peer x z
    · simp
    · simp [hsent]
    · simp
    · simpa [hrecvd] using hnewer
    · simp
    · simpa [hack] using hacked
    · exact ⟨[], by simp⟩
    · exact ⟨_, record_headersRead_peer ..⟩
    · exact ⟨[], by simp⟩
    · exact ⟨_, record_processed_peer .., fun n hn => (hlater n hn).2⟩
  intro z
  have hz := hl z
  have hpackets : ∀ q ∈ l.packets z, PacketSound (l.record x.peer p true r) z q :=
    fun q hq => (hz.packets q hq).advance hadv
  obtain rfl | rfl := Side.eq_or_eq_peer x z
  · constructor
    · simpa [hrecvd] using hz.acked_le.trans hnewer
    · simpa [hrecvd] using hp.seq_le
    · simpa using hz.window
    · simpa using hz.queue
    · simpa using hackAck
    · simpa using hz.ackAck_near
    · simpa using hz.mask
    · simpa using hz.processed_le
    · simpa using hz.processed_lt
    · exact hpackets
    · simpa using hz.atSend
    · simpa using hz.headers
    · intro n hn hset
      rw [record_notified] at hn
      rw [record_headersRead_peer]
      exact List.mem_append_left _ (hz.notified_recvd n hn hset)
    · intro n hn hclear
      rw [record_notified] at hn
      obtain ⟨hnot, hle⟩ := hz.notified_dropped n hn hclear
      rw [record_processed_peer, record_conn_peer, hrecvd]
      refine ⟨fun h => ?_, hle.trans hnewer⟩
      obtain hold | hnew := List.mem_append.mp h
      · exact hnot hold
      · have := (hlater _ hnew).2
        omega
  · constructor
    · simpa [hack] using hp.ack_le
    · simpa [hsent] using hyrecvd
    · have := hz.window
      rw [record_conn_peer, hsent, hack]
      omega
    · have := hz.queue
      rw [record_conn_peer, hsent, hack, hqueue, List.length_drop]
      omega
    · rw [Side.peer_peer, record_conn, record_conn_peer, hack]
      exact hyackAck.trans hacked
    · rw [record_conn_peer, hrecvd]
      exact hackAckNear
    · rw [record_headersRead_peer, record_processed_peer, record_conn_peer, hrecvd, hmask, hbody]
      have hshift := MaskSound.shift p.sequence (decide (p.header.packetType = .dataPacket)) hy.mask
        hnewer hy.processed_le
      have hdiff : (p.sequence - (l.conn x.peer).mLastSeqRecvd).toNat =
          p.sequence.toNat - (l.conn x.peer).mLastSeqRecvd.toNat := by bv_omega
      simpa [shiftedAckMask, hdiff, Packet.isData, and_comm, BitVec.toNat_inj] using hshift
    · intro n hn
      rw [record_processed_peer] at hn
      rw [record_conn_peer, hrecvd]
      obtain hold | hnew := List.mem_append.mp hn
      · exact (hy.processed_le n hold).trans hnewer
      · rw [(hlater n hnew).1]
    · rw [record_processed_peer, List.pairwise_append]
      refine ⟨hy.processed_lt, ?_, ?_⟩
      · split <;> simp
      · intro n hn k hk
        exact lt_of_le_of_lt (hy.processed_le n hn) (hlater k hk).2
    · exact hpackets
    · intro q hq hdata hnew
      rw [record_conn_peer, hack] at hnew
      rw [record_conn_peer, hatSend]
      exact hy.atSend q hq hdata (by omega)
    · intro n hn
      rw [record_headersRead_peer] at hn
      rw [Side.peer_peer, record_packets, record_conn_peer, hack]
      obtain hold | hnew := List.mem_append.mp hn
      · obtain ⟨q, hq, hdata, hseq, hle⟩ := hy.headers n hold
        rw [Side.peer_peer] at hq
        exact ⟨q, hq, hdata, hseq, hle.trans hacked⟩
      · split at hnew
        · rename_i h
          obtain rfl := List.mem_singleton.mp hnew
          exact ⟨p, hmem, h.2, rfl, le_rfl⟩
        · simp at hnew
    · intro n hn hset
      rw [record_notified_peer] at hn
      rw [Side.peer_peer, record_headersRead]
      obtain hold | hnew := List.mem_append.mp hn
      · exact hyrecvd' n hold hset
      · exact (hnotified n hnew).1 hset
    · intro n hn hclear
      rw [record_notified_peer] at hn
      rw [Side.peer_peer, record_processed, record_conn]
      obtain hold | hnew := List.mem_append.mp hn
      · exact hydropped n hold hclear
      · exact (hnotified n hnew).2 hclear

end Link

end TNL
