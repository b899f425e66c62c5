import TNL.Library.Run
import TNL.Connection.LinkInvariant
import TNL.Go.NetConnection

/-!
# Two Go connections over an unreliable network

Every packet stays on the network, so it may be lost, delivered late or
delivered again. The receiver has no test for a packet it has read before: it
reads the body of every data packet that its header lets pass. A ping or an ack
packet repeats the number of the last data packet, and one that overtakes it
leaves the packet without a bit in the mask.
-/
namespace TNL.Go
open Library TNL.Go.NetConnection

/-- A packet on the wire. `sender` is the state its header was written from, which no code
reads. -/
structure NotifyPacket where
  packetType : NetPacketType
  sender : NetConnection
  data : List Bool

namespace NotifyPacket

def isData (p : NotifyPacket) : Prop := p.packetType = .dataPacket

instance (p : NotifyPacket) : Decidable p.isData :=
  inferInstanceAs (Decidable (p.packetType = .dataPacket))

def sequence (p : NotifyPacket) : U32 := p.sender.lastSendSeq

/-- The last number the sender had received. -/
def ack (p : NotifyPacket) : U32 := p.sender.lastRecvSeq

end NotifyPacket

/-- Both connections, what each has sent, the numbers of the data packets whose body it has
processed, and the callbacks made for its own packets. -/
structure NotifyLink where
  conn : Side → NetConnection
  packets : Side → List NotifyPacket
  processed : Side → List U32
  outcomes : Side → List Outcome

namespace NotifyLink

inductive Action where
  | send (x : Side) (packetType : NetPacketType) (sendDelay : ℕ) (body : List Bool)
  | deliver (y : Side) (index : ℕ)

def start (initialSendSeq : Side → U32) : NotifyLink where
  conn x := (newNetConnection (initialSendSeq x)).setInitialRecvSequence (initialSendSeq x.peer)
  packets _ := []
  processed _ := []
  outcomes _ := []

/-- The header, and behind it the body that was written for it. -/
def send (l : NotifyLink) (x : Side) (packetType : NetPacketType) (sendDelay : ℕ)
    (body : List Bool) : NotifyLink :=
  let (bs, nc) := (l.conn x).writePacketHeader [] packetType sendDelay
  { l with
    conn := Function.update l.conn x nc
    packets := Function.update l.packets x (l.packets x ++ [⟨packetType, nc, bs ++ body⟩]) }

/-- `ProcessPacket`. -/
def processPacket (l : NotifyLink) (y : Side) (p : NotifyPacket) : NotifyLink :=
  let r := (l.conn y).readPacketHeader ⟨p.data, false⟩
  { l with
    conn := Function.update l.conn y r.conn
    processed := Function.update l.processed y
      (l.processed y ++ if r.body then [p.sequence] else [])
    outcomes := Function.update l.outcomes y (l.outcomes y ++ r.outcomes) }

def step (l : NotifyLink) : Action → Option NotifyLink
  | .send x packetType sendDelay body => some (l.send x packetType sendDelay body)
  | .deliver y index => ((l.packets y.peer)[index]?).map (l.processPacket y)

/-- Every body is processed at most once, and a packet reported received is one whose body was
processed. -/
def Exact (l : NotifyLink) : Prop :=
  ∀ x, (l.processed x.peer).Nodup ∧
    ∀ o ∈ l.outcomes x, o.received = true ↔ o.note.sequence ∈ l.processed x.peer

/-- The sequence numbers stay clear of their end. -/
def NoWrap (l : NotifyLink) : Prop := ∀ x, (l.conn x).lastSendSeq.toNat + 1024 < 2 ^ 32

/-- No number that shares its low bits with one of a packet to `y`, and is greater, would be
accepted for it. -/
def Unambiguous (l : NotifyLink) (y : Side) (p : NotifyPacket) : Prop :=
  (∀ k, p.sequence.toNat + 2048 * (k + 1) < (l.conn y).lastRecvSeq.toNat ∨
    (l.conn y).lastRecvSeq.toNat + 31 < p.sequence.toNat + 2048 * (k + 1)) ∧
  ∀ k, p.ack.toNat + 1024 * (k + 1) < (l.conn y).highestAckedSeq.toNat ∨
    (l.conn y).lastSendSeq.toNat < p.ack.toNat + 1024 * (k + 1)

/-- A data packet that has the last number received, from a packet read before or from a ping or
an ack packet, and what it acknowledges is not out of date. -/
def Repeated (l : NotifyLink) (y : Side) (p : NotifyPacket) : Prop :=
  p.isData ∧ p.sequence = (l.conn y).lastRecvSeq ∧
    (l.conn y).highestAckedSeq.toNat ≤ p.ack.toNat

/-- A data packet is sent only when it has a slot to itself, and every packet delivered is
unambiguous and not repeated. -/
def Allowed (l : NotifyLink) (a : Action) : Prop :=
  l.NoWrap ∧ match a with
    | .send x packetType _ _ => packetType = .dataPacket → (l.conn x).outstanding < 32
    | .deliver y index => ∀ p ∈ (l.packets y.peer)[index]?, l.Unambiguous y p ∧ ¬ l.Repeated y p

/-- What holds, from then on, of a packet that side `x` has sent. -/
structure PacketSound (l : NotifyLink) (x : Side) (p : NotifyPacket) : Prop where
  data : ∃ sendDelay body, p.data = p.sender.writeFields [] p.packetType sendDelay ++ body
  seq_le : p.sequence.toNat ≤ (l.conn x).lastSendSeq.toNat
  seq_near : p.sequence.toNat ≤ (l.conn x.peer).lastRecvSeq.toNat + 32
  ack_le : p.ack.toNat ≤ (l.conn x).lastRecvSeq.toNat
  ackAck_le : p.sender.lastRecvAckAck.toNat ≤ (l.conn x.peer).highestAckedSeq.toNat
  ackAck_le_ack : p.sender.lastRecvAckAck.toNat ≤ p.ack.toNat
  reports : MaskSound (l.processed x) (l.processed x) p.sender.ackMask p.ack.toNat
    (p.ack.toNat - 32)

/-- The state of side `x`, with the counters of the peer it is held against. -/
structure SideSound (l : NotifyLink) (x : Side) : Prop where
  acked_le : (l.conn x).highestAckedSeq.toNat ≤ (l.conn x.peer).lastRecvSeq.toNat
  recvd_le : (l.conn x.peer).lastRecvSeq.toNat ≤ (l.conn x).lastSendSeq.toNat
  window : (l.conn x).lastSendSeq.toNat ≤ (l.conn x).highestAckedSeq.toNat + 32
  slots : ∀ n : U32, (l.conn x).highestAckedSeq.toNat < n.toNat →
    n.toNat ≤ (l.conn x).lastSendSeq.toNat → (l.conn x).notifyQueue (n.setWidth 5) = some ⟨n⟩
  ackAck_le : (l.conn x.peer).lastRecvAckAck.toNat ≤ (l.conn x).highestAckedSeq.toNat
  mask : MaskSound (l.processed x) (l.processed x) (l.conn x).ackMask
    (l.conn x).lastRecvSeq.toNat ((l.conn x).lastRecvSeq.toNat - 32)
  processed_le : ∀ n ∈ l.processed x, n.toNat ≤ (l.conn x).lastRecvSeq.toNat
  processed_lt : (l.processed x).Pairwise (fun n k => n.toNat < k.toNat)
  packets : ∀ p ∈ l.packets x, PacketSound l x p
  atSend : ∀ p ∈ l.packets x, p.isData → (l.conn x).highestAckedSeq.toNat < p.sequence.toNat →
    (l.conn x).lastSeqRecvdAtSend (p.sequence.setWidth 5) = p.ack
  processedFrom : ∀ n ∈ l.processed x, ∃ p ∈ l.packets x.peer, p.isData ∧ p.sequence = n ∧
    p.ack.toNat ≤ (l.conn x).highestAckedSeq.toNat
  received : ∀ o ∈ l.outcomes x, o.received = true → o.note.sequence ∈ l.processed x.peer
  dropped : ∀ o ∈ l.outcomes x, o.received = false → o.note.sequence ∉ l.processed x.peer ∧
    o.note.sequence.toNat ≤ (l.conn x.peer).lastRecvSeq.toNat

def Sound (l : NotifyLink) : Prop := ∀ x, SideSound l x

theorem Sound.exact {l : NotifyLink} (h : Sound l) : l.Exact := by
  intro x
  have hx := h x
  have hy := h x.peer
  constructor
  · exact hy.processed_lt.imp (fun hlt heq => absurd (congrArg BitVec.toNat heq) hlt.ne)
  · intro o ho
    constructor
    · exact hx.received o ho
    · intro hmem
      cases hreceived : o.received with
      | true => rfl
      | false => exact absurd hmem (hx.dropped o ho hreceived).1

theorem start_sound (initialSendSeq : Side → U32) : Sound (start initialSendSeq) := by
  intro x
  constructor <;> simp [start, newNetConnection, setInitialRecvSequence, MaskSound]

/-- Counters only grow, and what is processed later is newer. -/
structure Advances (l m : NotifyLink) : Prop where
  sent : ∀ x, (l.conn x).lastSendSeq.toNat ≤ (m.conn x).lastSendSeq.toNat
  recvd : ∀ x, (l.conn x).lastRecvSeq.toNat ≤ (m.conn x).lastRecvSeq.toNat
  acked : ∀ x, (l.conn x).highestAckedSeq.toNat ≤ (m.conn x).highestAckedSeq.toNat
  processed : ∀ x, ∃ later, m.processed x = l.processed x ++ later ∧
    ∀ n ∈ later, (l.conn x).lastRecvSeq.toNat < n.toNat

section

variable {l m : NotifyLink} {x y : Side} {p : NotifyPacket}

theorem PacketSound.advance (hp : PacketSound l x p) (h : Advances l m) : PacketSound m x p where
  data := hp.data
  seq_le := hp.seq_le.trans (h.sent x)
  seq_near := hp.seq_near.trans (Nat.add_le_add_right (h.recvd x.peer) 32)
  ack_le := hp.ack_le.trans (h.recvd x)
  ackAck_le := hp.ackAck_le.trans (h.acked x.peer)
  ackAck_le_ack := hp.ackAck_le_ack
  reports := by
    obtain ⟨later, hlater, hnew⟩ := h.processed x
    rw [hlater]
    exact hp.reports.extend (fun n hn => lt_of_le_of_lt hp.ack_le (hnew n hn))

end

/-- Two numbers less than a window apart have different slots. -/
theorem slot_ne_of_lt {n k : U32} (hlt : n.toNat < k.toNat) (hnear : k.toNat < n.toNat + 32) :
    n.setWidth 5 ≠ k.setWidth 5 := by
  intro heq
  have htoNat := congrArg BitVec.toNat heq
  rw [BitVec.toNat_setWidth, BitVec.toNat_setWidth] at htoNat
  omega

section send

variable {l : NotifyLink} {x : Side} {packetType : NetPacketType} {sendDelay : ℕ}
  {body : List Bool}

@[simp] theorem send_processed :
    (l.send x packetType sendDelay body).processed = l.processed := rfl

@[simp] theorem send_outcomes : (l.send x packetType sendDelay body).outcomes = l.outcomes := rfl

@[simp] theorem send_conn_self : (l.send x packetType sendDelay body).conn x =
    ((l.conn x).writePacketHeader [] packetType sendDelay).2 := Function.update_self ..

@[simp] theorem send_conn_peer :
    (l.send x packetType sendDelay body).conn x.peer = l.conn x.peer :=
  Function.update_of_ne x.peer_ne ..

theorem send_packets_self : (l.send x packetType sendDelay body).packets x =
    l.packets x ++ [⟨packetType, ((l.conn x).writePacketHeader [] packetType sendDelay).2,
      ((l.conn x).writePacketHeader [] packetType sendDelay).1 ++ body⟩] :=
  Function.update_self ..

theorem send_packets_peer :
    (l.send x packetType sendDelay body).packets x.peer = l.packets x.peer :=
  Function.update_of_ne x.peer_ne ..

theorem send_sent_le (hwrap : l.NoWrap) (z : Side) : (l.conn z).lastSendSeq.toNat ≤
    ((l.send x packetType sendDelay body).conn z).lastSendSeq.toNat := by
  obtain rfl | rfl := Side.eq_or_eq_peer x z
  · rw [send_conn_self, writePacketHeader_lastSendSeq]
    have := hwrap z
    split
    · bv_omega
    · exact le_rfl
  · rw [send_conn_peer]

theorem send_advances (hwrap : l.NoWrap) : Advances l (l.send x packetType sendDelay body) where
  sent := send_sent_le hwrap
  recvd z := by obtain rfl | rfl := Side.eq_or_eq_peer x z <;> simp
  acked z := by obtain rfl | rfl := Side.eq_or_eq_peer x z <;> simp
  processed z := ⟨[], by simp, by simp⟩

/-- A header written from sound counters is sound. -/
theorem send_packetSound (hl : Sound l) (hwrap : l.NoWrap)
    (hslot : packetType = .dataPacket → (l.conn x).outstanding < 32) :
    PacketSound (l.send x packetType sendDelay body) x
      ⟨packetType, ((l.conn x).writePacketHeader [] packetType sendDelay).2,
        ((l.conn x).writePacketHeader [] packetType sendDelay).1 ++ body⟩ := by
  have hx := hl x
  have hy := hl x.peer
  have hackAck := hy.ackAck_le
  have hacked := hy.acked_le
  rw [Side.peer_peer] at hackAck hacked
  constructor
  · exact ⟨sendDelay, body, by rw [writePacketHeader_fst]⟩
  · rw [send_conn_self]
    exact le_rfl
  · rw [send_conn_peer]
    change (((l.conn x).writePacketHeader [] packetType sendDelay).2.lastSendSeq).toNat ≤ _
    have hacked := hx.acked_le
    have hrecvd := hx.recvd_le
    have hwindow := hx.window
    have := hwrap x
    rw [writePacketHeader_lastSendSeq]
    split
    · rename_i hdata
      have hout := hslot hdata
      rw [outstanding] at hout
      bv_omega
    · omega
  · rw [send_conn_self]
    exact le_rfl
  · rw [send_conn_peer]
    change (((l.conn x).writePacketHeader [] packetType sendDelay).2.lastRecvAckAck).toNat ≤ _
    rw [writePacketHeader_lastRecvAckAck]
    exact hackAck
  · change (((l.conn x).writePacketHeader [] packetType sendDelay).2.lastRecvAckAck).toNat ≤
      (((l.conn x).writePacketHeader [] packetType sendDelay).2.lastRecvSeq).toNat
    rw [writePacketHeader_lastRecvAckAck, writePacketHeader_lastRecvSeq]
    exact hackAck.trans hacked
  · rw [send_processed]
    simpa [NotifyPacket.ack] using hx.mask

theorem send_sound (hl : Sound l) (hwrap : l.NoWrap)
    (hslot : packetType = .dataPacket → (l.conn x).outstanding < 32) :
    Sound (l.send x packetType sendDelay body) := by
  intro z
  have hz := hl z
  have hadv : Advances l (l.send x packetType sendDelay body) := send_advances hwrap
  have hsent := hadv.sent z
  obtain rfl | rfl := Side.eq_or_eq_peer x z
  · have hnext : packetType = .dataPacket → ((l.conn z).lastSendSeq + 1).toNat =
        (l.conn z).lastSendSeq.toNat + 1 := by
      intro _
      have := hwrap z
      bv_omega
    have hout : packetType = .dataPacket →
        (l.conn z).lastSendSeq.toNat < (l.conn z).highestAckedSeq.toNat + 32 := by
      intro hdata
      have hout := hslot hdata
      have hacked := hz.acked_le
      have hrecvd := hz.recvd_le
      rw [outstanding] at hout
      bv_omega
    constructor
    · simpa using hz.acked_le
    · rw [send_conn_peer]
      exact hz.recvd_le.trans hsent
    · rw [send_conn_self, writePacketHeader_lastSendSeq, writePacketHeader_highestAckedSeq]
      split
      · rename_i hdata
        rw [hnext hdata]
        exact hout hdata
      · exact hz.window
    · intro n hnew hle
      rw [send_conn_self] at hnew hle ⊢
      rw [writePacketHeader_highestAckedSeq] at hnew
      rw [writePacketHeader_lastSendSeq] at hle
      rw [writePacketHeader_notifyQueue]
      split_ifs at hle ⊢ with hdata
      · by_cases hlast : n = (l.conn z).lastSendSeq + 1
        · rw [hlast]
          exact Function.update_self ..
        · -- the slot just written belongs to a number less than a window away
          have hlt : n.toNat < (l.conn z).lastSendSeq.toNat + 1 := by
            rw [← hnext hdata]
            exact lt_of_le_of_ne hle (fun heq => hlast (BitVec.eq_of_toNat_eq heq))
          have hnear := hout hdata
          rw [Function.update_of_ne (slot_ne_of_lt (by rw [hnext hdata]; exact hlt)
            (by rw [hnext hdata]; omega))]
          exact hz.slots n hnew (Nat.lt_succ_iff.mp hlt)
      · exact hz.slots n hnew hle
    · simpa using hz.ackAck_le
    · simpa using hz.mask
    · simpa using hz.processed_le
    · exact hz.processed_lt
    · intro p hp
      rw [send_packets_self] at hp
      obtain hold | hnew := List.mem_append.mp hp
      · exact (hz.packets p hold).advance hadv
      · rw [List.mem_singleton.mp hnew]
        exact send_packetSound hl hwrap hslot
    · intro p hp hdata hnew
      rw [send_packets_self] at hp
      rw [send_conn_self] at hnew ⊢
      rw [writePacketHeader_highestAckedSeq] at hnew
      rw [writePacketHeader_lastSeqRecvdAtSend]
      obtain hold | hlast := List.mem_append.mp hp
      · split
        · rename_i hdata'
          have hle := (hz.packets p hold).seq_le
          have hnear := hout hdata'
          rw [Function.update_of_ne (slot_ne_of_lt (by rw [hnext hdata']; omega)
            (by rw [hnext hdata']; omega))]
          exact hz.atSend p hold hdata hnew
        · exact hz.atSend p hold hdata hnew
      · obtain rfl := List.mem_singleton.mp hlast
        have hdata' : packetType = .dataPacket := hdata
        rw [if_pos hdata', NotifyPacket.sequence, writePacketHeader_lastSendSeq, if_pos hdata',
          Function.update_self, NotifyPacket.ack, writePacketHeader_lastRecvSeq]
    · intro n hn
      obtain ⟨p, hp, hdata, hseq, hack⟩ := hz.processedFrom n hn
      rw [send_packets_peer]
      exact ⟨p, hp, hdata, hseq, by simpa using hack⟩
    · exact hz.received
    · simpa using hz.dropped
  · constructor
    · simpa using hz.acked_le
    · simpa using hz.recvd_le
    · simpa using hz.window
    · simpa using hz.slots
    · simpa using hz.ackAck_le
    · simpa using hz.mask
    · simpa using hz.processed_le
    · exact hz.processed_lt
    · rw [send_packets_peer]
      exact fun p hp => (hz.packets p hp).advance hadv
    · rw [send_packets_peer]
      simpa using hz.atSend
    · intro n hn
      obtain ⟨p, hp, hdata, hseq, hack⟩ := hz.processedFrom n hn
      rw [Side.peer_peer] at hp ⊢
      rw [send_packets_self, send_conn_peer]
      exact ⟨p, List.mem_append_left _ hp, hdata, hseq, hack⟩
    · exact hz.received
    · simpa using hz.dropped

end send

section read

variable {l : NotifyLink} {x : Side} {p : NotifyPacket}

/-- An accepted packet is read under the number it was sent with, and it is not older than the
last one received. -/
theorem sequence_of_accepted (hp : PacketSound l x p)
    (hclear : l.Unambiguous x.peer p) (hacc : (l.conn x.peer).accepts p.sender = true) :
    (l.conn x.peer).completeSequence ((p.sequence.setWidth 11).setWidth 32) = p.sequence ∧
      (l.conn x.peer).lastRecvSeq.toNat ≤ p.sequence.toNat := by
  have hcompleted := (l.conn x.peer).completeSequence_toNat (p.sequence.setWidth 11)
  rw [BitVec.toNat_setWidth] at hcompleted
  have hnear := hp.seq_near
  have hbound := p.sequence.isLt
  by_cases hle : (l.conn x.peer).lastRecvSeq.toNat ≤ p.sequence.toNat
  · rw [expandCounter_of_mem (by omega) hle (by omega), Nat.mod_eq_of_lt hbound] at hcompleted
    exact ⟨BitVec.eq_of_toNat_eq hcompleted, hle⟩
  · exfalso
    have hwindow := of_decide_eq_true (Bool.and_eq_true_iff.mp hacc).1
    change (l.conn x.peer).completeSequence ((p.sequence.setWidth 11).setWidth 32) -
      (l.conn x.peer).lastRecvSeq ≤ 31 at hwindow
    have hlow : p.sequence.toNat % 2048 < 2048 := Nat.mod_lt _ (by decide)
    have hlt : expandCounter 2048 (l.conn x.peer).lastRecvSeq.toNat (p.sequence.toNat % 2048) <
        (l.conn x.peer).lastRecvSeq.toNat + 2048 := expandCounter_lt hlow
    have hge : (l.conn x.peer).lastRecvSeq.toNat ≤
        expandCounter 2048 (l.conn x.peer).lastRecvSeq.toNat (p.sequence.toNat % 2048) :=
      le_expandCounter hlow
    obtain ⟨k, hk⟩ := expandCounter_eq_add (by decide : 0 < 2048) (not_le.mp hle)
    rw [show 2 ^ 11 = 2048 from rfl] at hcompleted
    rw [hk] at hlt hge hcompleted
    rw [BitVec.le_def, BitVec.toNat_sub, hcompleted] at hwindow
    have hclear := hclear.1 k
    have hrecv := (l.conn x.peer).lastRecvSeq.isLt
    change _ ≤ 31 at hwindow
    omega

/-- What an accepted packet acknowledges is what its sender had received, and it is not out of
date. -/
theorem ack_of_accepted (hl : Sound l) (hwrap : l.NoWrap) (hp : PacketSound l x p)
    (hclear : l.Unambiguous x.peer p) (hacc : (l.conn x.peer).accepts p.sender = true) :
    (l.conn x.peer).completeHighestAck ((p.ack.setWidth 10).setWidth 32) = p.ack ∧
      (l.conn x.peer).highestAckedSeq.toNat ≤ p.ack.toNat := by
  have hcompleted := (l.conn x.peer).completeHighestAck_toNat (p.ack.setWidth 10)
  rw [BitVec.toNat_setWidth] at hcompleted
  have hack := hp.ack_le
  have hwindow := (hl x.peer).window
  have hacked := (hl x.peer).acked_le
  have hrecvd := (hl x.peer).recvd_le
  rw [Side.peer_peer] at hacked hrecvd
  have hsent := hwrap x.peer
  by_cases hle : (l.conn x.peer).highestAckedSeq.toNat ≤ p.ack.toNat
  · rw [expandCounter_of_mem (by omega) hle (by omega), Nat.mod_eq_of_lt p.ack.isLt] at hcompleted
    exact ⟨BitVec.eq_of_toNat_eq hcompleted, hle⟩
  · exfalso
    have hpast := of_decide_eq_true (Bool.and_eq_true_iff.mp hacc).2
    change (l.conn x.peer).completeHighestAck ((p.ack.setWidth 10).setWidth 32) ≤ _ at hpast
    have hlow : p.ack.toNat % 1024 < 1024 := Nat.mod_lt _ (by decide)
    have hlt : expandCounter 1024 (l.conn x.peer).highestAckedSeq.toNat (p.ack.toNat % 1024) <
        (l.conn x.peer).highestAckedSeq.toNat + 1024 := expandCounter_lt hlow
    have hge : (l.conn x.peer).highestAckedSeq.toNat ≤
        expandCounter 1024 (l.conn x.peer).highestAckedSeq.toNat (p.ack.toNat % 1024) :=
      le_expandCounter hlow
    obtain ⟨k, hk⟩ := expandCounter_eq_add (by decide : 0 < 1024) (not_le.mp hle)
    rw [show 2 ^ 10 = 1024 from rfl] at hcompleted
    rw [hk] at hlt hge hcompleted
    rw [BitVec.le_def, hcompleted] at hpast
    have hclear := hclear.2 k
    omega

/-- What is read from a packet: nothing, or the header as it was written. -/
theorem read_cases (hl : Sound l) (hwrap : l.NoWrap) (hp : PacketSound l x p)
    (hclear : l.Unambiguous x.peer p) :
    l.processPacket x.peer p = l ∨
      ((l.conn x.peer).lastRecvSeq.toNat ≤ p.sequence.toNat ∧
        p.sequence - (l.conn x.peer).lastRecvSeq ≤ 31 ∧
        (l.conn x.peer).highestAckedSeq.toNat ≤ p.ack.toNat ∧
        ∃ rest, (l.conn x.peer).readPacketHeader ⟨p.data, false⟩ =
          (l.conn x.peer).acceptHeader p.packetType p.sequence p.ack p.sender.sentMask rest) := by
  obtain ⟨sendDelay, body, hdata⟩ := hp.data
  rw [hdata]
  obtain ⟨hacc, hread⟩ | ⟨-, rest, hread⟩ :=
    (l.conn x.peer).readPacketHeader_writeFields p.sender p.packetType sendDelay body
  · obtain ⟨hseq, hnewer⟩ := sequence_of_accepted hp hclear hacc
    obtain ⟨hack, hacked⟩ := ack_of_accepted hl hwrap hp hclear hacc
    have hwindow := of_decide_eq_true (Bool.and_eq_true_iff.mp hacc).1
    rw [show p.sender.lastSendSeq = p.sequence from rfl, hseq] at hwindow
    rw [show p.sender.lastSendSeq = p.sequence from rfl, hseq,
      show p.sender.lastRecvSeq = p.ack from rfl, hack] at hread
    exact .inr ⟨hnewer, hwindow, hacked, ⟨body, false⟩, hread⟩
  · refine .inl ?_
    rw [processPacket, hdata, hread]
    simp [rejectHeader, ReadHeader.body]

/-- The packets a header reports on: each has a bit in the mask, with the meaning it was written
with, and a record in its slot. -/
theorem reported (hl : Sound l) (hwrap : l.NoWrap) (hp : PacketSound l x p) {k : ℕ}
    (hk : k < (p.ack - (l.conn x.peer).highestAckedSeq).toNat)
    (hacked : (l.conn x.peer).highestAckedSeq.toNat ≤ p.ack.toNat) :
    let n := (l.conn x.peer).highestAckedSeq + 1 + BitVec.ofNat 32 k
    (l.conn x.peer).highestAckedSeq.toNat < n.toNat ∧
      (l.conn x.peer).notifyQueue (n.setWidth 5) = some ⟨n⟩ ∧
      (ackSuccess p.ack p.sender.sentMask n = true → n ∈ l.processed x) ∧
      (ackSuccess p.ack p.sender.sentMask n = false →
        n ∉ l.processed x ∧ n.toNat ≤ (l.conn x).lastRecvSeq.toNat) := by
  intro n
  have hle := hp.ack_le
  have hrecvd := (hl x.peer).recvd_le
  have hwindow := (hl x.peer).window
  have hackAck := hp.ackAck_le
  have hsent := hwrap x.peer
  rw [Side.peer_peer] at hrecvd
  have hn : n.toNat = (l.conn x.peer).highestAckedSeq.toNat + 1 + k := by
    change ((l.conn x.peer).highestAckedSeq + 1 + BitVec.ofNat 32 k).toNat = _
    bv_omega
  have hk' : n.toNat ≤ p.ack.toNat := by
    rw [hn]
    bv_omega
  have hbit : ackSuccess p.ack p.sender.sentMask n =
      p.sender.ackMask.getLsbD (p.ack.toNat - n.toNat) :=
    p.sender.ackSuccess_sentMask hk' (by change p.ack.toNat < _; omega) (by omega)
      (by change p.ack.toNat + 7 < _; omega)
  obtain ⟨hset, hclear⟩ := hp.reports n (by omega) hk'
  rw [hbit]
  exact ⟨by omega, (hl x.peer).slots n (by omega) (by omega), hset,
    fun h => ⟨hclear h, by omega⟩⟩

end read

section processPacket

variable {l : NotifyLink} {x : Side} {p : NotifyPacket}

@[simp] theorem processPacket_packets : (l.processPacket x p).packets = l.packets := rfl

theorem processPacket_conn_peer : (l.processPacket x.peer p).conn x.peer =
    ((l.conn x.peer).readPacketHeader ⟨p.data, false⟩).conn := Function.update_self ..

@[simp] theorem processPacket_conn : (l.processPacket x.peer p).conn x = l.conn x :=
  Function.update_of_ne x.peer_ne.symm ..

theorem processPacket_processed_peer : (l.processPacket x.peer p).processed x.peer =
    l.processed x.peer ++ if ((l.conn x.peer).readPacketHeader ⟨p.data, false⟩).body then
      [p.sequence] else [] := Function.update_self ..

@[simp] theorem processPacket_processed :
    (l.processPacket x.peer p).processed x = l.processed x :=
  Function.update_of_ne x.peer_ne.symm ..

theorem processPacket_outcomes_peer : (l.processPacket x.peer p).outcomes x.peer =
    l.outcomes x.peer ++ ((l.conn x.peer).readPacketHeader ⟨p.data, false⟩).outcomes :=
  Function.update_self ..

@[simp] theorem processPacket_outcomes :
    (l.processPacket x.peer p).outcomes x = l.outcomes x :=
  Function.update_of_ne x.peer_ne.symm ..

end processPacket

section accepted

variable {l : NotifyLink} {x : Side} {p : NotifyPacket}

/-- What a header does beside the counters: the records it takes, what the peer is known to have
been told, and the callbacks. -/
theorem acceptHeader_reports (rest : BitReader) (hl : Sound l) (hwrap : l.NoWrap)
    (hp : PacketSound l x p)
    (hacked : (l.conn x.peer).highestAckedSeq.toNat ≤ p.ack.toNat) :
    let r := (l.conn x.peer).acceptHeader p.packetType p.sequence p.ack p.sender.sentMask rest
    (∀ n : U32, p.ack.toNat < n.toNat → n.toNat ≤ (l.conn x.peer).lastSendSeq.toNat →
      r.conn.notifyQueue (n.setWidth 5) = some ⟨n⟩) ∧
    r.conn.lastRecvAckAck.toNat ≤ (l.conn x).highestAckedSeq.toNat ∧
    ∀ o ∈ r.outcomes, (o.received = true → o.note.sequence ∈ l.processed x) ∧
      (o.received = false → o.note.sequence ∉ l.processed x ∧
        o.note.sequence.toNat ≤ (l.conn x).lastRecvSeq.toNat) := by
  have hreported := fun k hk => reported hl hwrap hp (k := k) hk hacked
  have hwindow := (hl x.peer).window
  have hrecvd := (hl x.peer).recvd_le
  have hle := hp.ack_le
  rw [Side.peer_peer] at hrecvd
  refine ⟨?_, ?_, ?_⟩
  · intro n hnew hsent
    have hslot : ∀ k < (p.ack - (l.conn x.peer).highestAckedSeq).toNat, n.setWidth 5 ≠
        ((l.conn x.peer).highestAckedSeq + 1 + BitVec.ofNat 32 k).setWidth 5 := by
      intro k hk
      exact (slot_ne_of_lt (by bv_omega) (by bv_omega)).symm
    exact ((l.conn x.peer).processAcks_notifyQueue hslot).trans
      ((hl x.peer).slots n (by omega) hsent)
  · refine (l.conn x.peer).processAcks_lastRecvAckAck
      (P := fun a => a.toNat ≤ (l.conn x).highestAckedSeq.toNat) (hl x).ackAck_le ?_
    intro k hk hset
    -- the packet was acknowledged because the peer has read it, and with it the number stored
    obtain ⟨hnew, -, hprocessed, -⟩ := hreported k hk
    obtain ⟨q, hq, hdata, hseq, hack⟩ := (hl x).processedFrom _ (hprocessed hset)
    rw [← hseq, (hl x.peer).atSend q hq hdata (by rw [hseq]; exact hnew)]
    exact hack
  · intro o ho
    obtain ⟨k, hk, rfl⟩ := mem_processAcks _ (by bv_omega)
      (fun k hk => (hreported k hk).2.1) ho
    exact (hreported k hk).2.2

/-- Reading an accepted packet. -/
theorem accepted_sound {rest : BitReader} (hl : Sound l) (hwrap : l.NoWrap) (hmem : p ∈ l.packets x)
    (hrepeat : ¬ l.Repeated x.peer p)
    (hnewer : (l.conn x.peer).lastRecvSeq.toNat ≤ p.sequence.toNat)
    (hnear : p.sequence - (l.conn x.peer).lastRecvSeq ≤ 31)
    (hacked : (l.conn x.peer).highestAckedSeq.toNat ≤ p.ack.toNat)
    (hread : (l.conn x.peer).readPacketHeader ⟨p.data, false⟩ =
      (l.conn x.peer).acceptHeader p.packetType p.sequence p.ack p.sender.sentMask rest) :
    Sound (l.processPacket x.peer p) := by
  have hx := hl x
  have hy := hl x.peer
  have hp := hx.packets p hmem
  obtain ⟨hsend, hrecv, hack, hmask, hatSend, hbody⟩ := (l.conn x.peer).acceptHeader_counters
    p.packetType p.sequence p.ack p.sender.sentMask rest
  obtain ⟨hslots, hackAck, houtcomes⟩ := acceptHeader_reports rest hl hwrap hp hacked
  rw [← hread] at hsend hrecv hack hmask hatSend hbody hslots hackAck houtcomes
  have hnew : p.isData → p.sequence ≠ (l.conn x.peer).lastRecvSeq :=
    fun hdata heq => hrepeat ⟨hdata, heq, hacked⟩
  rw [shiftAckMask_eq _ _ _ hnear hnew] at hmask
  have hlater : ∀ n ∈ (if ((l.conn x.peer).readPacketHeader ⟨p.data, false⟩).body then
      [p.sequence] else []), n = p.sequence ∧ p.isData ∧
        (l.conn x.peer).lastRecvSeq.toNat < n.toNat := by
    intro n hn
    split at hn
    · rename_i hdata
      rw [hbody] at hdata
      obtain rfl := List.mem_singleton.mp hn
      have hne := hnew (of_decide_eq_true hdata)
      exact ⟨rfl, of_decide_eq_true hdata, lt_of_le_of_ne hnewer
        (fun heq => hne (BitVec.eq_of_toNat_eq heq).symm)⟩
    · cases hn
  have hyacked := hy.acked_le
  have hyrecvd := hy.recvd_le
  have hyackAck := hy.ackAck_le
  have hydropped := hy.dropped
  have hyreceived := hy.received
  rw [Side.peer_peer] at hyacked hyrecvd hyackAck hydropped hyreceived
  have hadv : Advances l (l.processPacket x.peer p) := by
    constructor <;> intro z <;> obtain rfl | rfl := Side.eq_or_eq_peer x z
    · rw [processPacket_conn]
    · rw [processPacket_conn_peer, hsend]
    · rw [processPacket_conn]
    · rw [processPacket_conn_peer, hrecv]
      exact hnewer
    · rw [processPacket_conn]
    · rw [processPacket_conn_peer, hack]
      exact hacked
    · exact ⟨[], by simp⟩
    · exact ⟨_, processPacket_processed_peer, fun n hn => (hlater n hn).2.2⟩
  intro z
  have hz := hl z
  have hpackets : ∀ q ∈ l.packets z, PacketSound (l.processPacket x.peer p) z q :=
    fun q hq => (hz.packets q hq).advance hadv
  obtain rfl | rfl := Side.eq_or_eq_peer x z
  · constructor
    · rw [processPacket_conn, processPacket_conn_peer, hrecv]
      exact hz.acked_le.trans hnewer
    · rw [processPacket_conn, processPacket_conn_peer, hrecv]
      exact hp.seq_le
    · simpa using hz.window
    · simpa using hz.slots
    · rw [processPacket_conn, processPacket_conn_peer]
      exact hackAck
    · simpa using hz.mask
    · simpa using hz.processed_le
    · simpa using hz.processed_lt
    · exact hpackets
    · simpa using hz.atSend
    · simpa using hz.processedFrom
    · intro o ho hset
      rw [processPacket_outcomes] at ho
      rw [processPacket_processed_peer]
      exact List.mem_append_left _ (hz.received o ho hset)
    · intro o ho hclear
      rw [processPacket_outcomes] at ho
      obtain ⟨hnot, hle⟩ := hz.dropped o ho hclear
      rw [processPacket_processed_peer, processPacket_conn_peer, hrecv]
      refine ⟨fun h => ?_, hle.trans hnewer⟩
      obtain hold | hlast := List.mem_append.mp h
      · exact hnot hold
      · have := (hlater _ hlast).2.2
        omega
  · constructor
    · rw [processPacket_conn_peer, Side.peer_peer, processPacket_conn, hack]
      exact hp.ack_le
    · rw [processPacket_conn_peer, Side.peer_peer, processPacket_conn, hsend]
      exact hyrecvd
    · have := hz.window
      rw [processPacket_conn_peer, hsend, hack]
      omega
    · rw [processPacket_conn_peer, hack, hsend]
      exact hslots
    · rw [processPacket_conn_peer, Side.peer_peer, processPacket_conn, hack]
      exact hyackAck.trans hacked
    · rw [processPacket_conn_peer, processPacket_processed_peer, hrecv, hmask, hbody]
      have hshift := MaskSound.shift p.sequence (decide (p.packetType = .dataPacket)) hy.mask
        hnewer hy.processed_le
      have hdiff : (p.sequence - (l.conn x.peer).lastRecvSeq).toNat =
          p.sequence.toNat - (l.conn x.peer).lastRecvSeq.toNat := by bv_omega
      have hprocessed : (decide (p.packetType = .dataPacket) = true ∧
          (l.conn x.peer).lastRecvSeq.toNat ≠ p.sequence.toNat) ↔
          decide (p.packetType = .dataPacket) = true := by
        refine and_iff_left_of_imp (fun hdata heq => ?_)
        exact hnew (of_decide_eq_true hdata) (BitVec.eq_of_toNat_eq heq).symm
      simp only [hprocessed] at hshift
      rw [hdiff]
      exact hshift
    · intro n hn
      rw [processPacket_processed_peer] at hn
      rw [processPacket_conn_peer, hrecv]
      obtain hold | hlast := List.mem_append.mp hn
      · exact (hy.processed_le n hold).trans hnewer
      · rw [(hlater n hlast).1]
    · rw [processPacket_processed_peer, List.pairwise_append]
      refine ⟨hy.processed_lt, ?_, ?_⟩
      · split <;> simp
      · intro n hn k hk
        exact lt_of_le_of_lt (hy.processed_le n hn) (hlater k hk).2.2
    · exact hpackets
    · intro q hq hdata hold
      rw [processPacket_conn_peer, hack] at hold
      rw [processPacket_conn_peer, hatSend]
      exact hy.atSend q hq hdata (by omega)
    · intro n hn
      rw [processPacket_processed_peer] at hn
      rw [Side.peer_peer, processPacket_packets, processPacket_conn_peer, hack]
      obtain hold | hlast := List.mem_append.mp hn
      · obtain ⟨q, hq, hdata, hseq, hle⟩ := hy.processedFrom n hold
        rw [Side.peer_peer] at hq
        exact ⟨q, hq, hdata, hseq, hle.trans hacked⟩
      · obtain ⟨rfl, hdata, -⟩ := hlater n hlast
        exact ⟨p, hmem, hdata, rfl, le_rfl⟩
    · intro o ho hset
      rw [processPacket_outcomes_peer] at ho
      rw [Side.peer_peer, processPacket_processed]
      obtain hold | hlast := List.mem_append.mp ho
      · exact hyreceived o hold hset
      · exact (houtcomes o hlast).1 hset
    · intro o ho hclear
      rw [processPacket_outcomes_peer] at ho
      rw [Side.peer_peer, processPacket_processed, processPacket_conn]
      obtain hold | hlast := List.mem_append.mp ho
      · exact hydropped o hold hclear
      · exact (houtcomes o hlast).2 hclear

end accepted

theorem step_sound {l m : NotifyLink} {a : Action} (hl : Sound l) (ha : l.Allowed a)
    (hstep : l.step a = some m) : Sound m := by
  obtain ⟨hwrap, ha⟩ := ha
  cases a with
  | send x packetType sendDelay body =>
    obtain rfl := Option.some.inj hstep
    exact send_sound hl hwrap ha
  | deliver y index =>
    obtain ⟨p, hp, rfl⟩ := Option.map_eq_some_iff.mp hstep
    have hmem : p ∈ l.packets y.peer := List.mem_of_getElem? hp
    obtain ⟨hclear, hrepeat⟩ := ha p hp
    obtain ⟨x, rfl⟩ : ∃ x : Side, y = x.peer := ⟨y.peer, y.peer_peer.symm⟩
    rw [Side.peer_peer] at hmem
    obtain hsame | ⟨hnewer, hnear, hacked, rest, hread⟩ :=
      read_cases hl hwrap ((hl x).packets p hmem) hclear
    · rw [hsame]
      exact hl
    · exact accepted_sound hl hwrap hmem hrepeat hnewer hnear hacked hread

/-- In every run whose steps are allowed each body is processed at most once, and the packets
reported received are the ones whose body was processed. -/
theorem exact_of_allowed {initialSendSeq : Side → U32} {as : List Action} {l : NotifyLink}
    (run : Run step Allowed (start initialSendSeq) as l) : l.Exact :=
  (run.invariant (I := Sound) (fun _ _ _ hl ha hstep => step_sound hl ha hstep)
    (start_sound initialSendSeq)).exact

/-- The numbers tell the data packets of a side apart. -/
def Numbered (l : NotifyLink) : Prop :=
  ∀ x, ((l.packets x).filter (fun p => p.isData)).Pairwise
    (fun p q => p.sequence.toNat < q.sequence.toNat)

theorem send_numbered {l : NotifyLink} {x : Side} {packetType : NetPacketType} {sendDelay : ℕ}
    {body : List Bool} (hl : Sound l) (hwrap : l.NoWrap) (hnumbered : l.Numbered) :
    (l.send x packetType sendDelay body).Numbered := by
  intro z
  obtain rfl | rfl := Side.eq_or_eq_peer x z
  · rw [send_packets_self, List.filter_append, List.pairwise_append]
    refine ⟨hnumbered z, ?_, ?_⟩
    · rw [List.filter_cons]
      split <;> simp
    · intro p hp q hq
      obtain ⟨hmem, hdata⟩ := List.mem_filter.mp hq
      obtain rfl := List.mem_singleton.mp hmem
      have hdata : packetType = .dataPacket := of_decide_eq_true hdata
      have hle := ((hl z).packets p (List.mem_filter.mp hp).1).seq_le
      have := hwrap z
      change p.sequence.toNat < (((l.conn z).writePacketHeader [] packetType
        sendDelay).2.lastSendSeq).toNat
      rw [writePacketHeader_lastSendSeq, if_pos hdata]
      bv_omega
  · rw [send_packets_peer]
    exact hnumbered x.peer

theorem numbered_of_allowed {initialSendSeq : Side → U32} {as : List Action} {l : NotifyLink}
    (run : Run step Allowed (start initialSendSeq) as l) : l.Numbered := by
  refine run.invariant_along (J := Sound) (I := Numbered)
    (fun _ _ _ hl ha hstep => step_sound hl ha hstep) ?_ (start_sound initialSendSeq)
    (fun _ => List.Pairwise.nil)
  intro l a m hl hnumbered ha hstep
  cases a with
  | send x packetType sendDelay body =>
    obtain rfl := Option.some.inj hstep
    exact send_numbered hl ha.1 hnumbered
  | deliver y index =>
    obtain ⟨p, -, rfl⟩ := Option.map_eq_some_iff.mp hstep
    exact hnumbered

/-- A packet that is less than 2016 numbers old and acknowledges one of the last thousand is
allowed when it has a new number. -/
theorem allowed_of_fresh {l : NotifyLink} {y : Side} {index : ℕ} {p : NotifyPacket}
    (hwrap : l.NoWrap) (hp : (l.packets y.peer)[index]? = some p)
    (hseq : (l.conn y).lastRecvSeq.toNat ≤ p.sequence.toNat + 2016)
    (hack : (l.conn y).lastSendSeq.toNat < p.ack.toNat + 1024)
    (hnew : p.sequence = (l.conn y).lastRecvSeq → ¬ p.isData) :
    l.Allowed (.deliver y index) := by
  refine ⟨hwrap, fun q hq => ?_⟩
  rw [hp] at hq
  obtain rfl := Option.some.inj hq
  refine ⟨⟨fun k => .inr ?_, fun k => .inr ?_⟩, ?_⟩
  · omega
  · rw [Nat.mul_succ]
    exact lt_of_lt_of_le hack (Nat.add_le_add_left (Nat.le_add_left ..) _)
  · rintro ⟨hdata, heq, -⟩
    exact hnew heq hdata

/-- Two data packets, of which the second arrives first, and a ping. -/
theorem exact_of_allowed_reordered : ∃ l : NotifyLink,
    exec step (start (fun _ => 0))
      [.send .initiator .dataPacket 0 [], .send .initiator .dataPacket 0 [true],
        .send .initiator .pingPacket 0 [], .deliver .host 1, .deliver .host 0, .deliver .host 2,
        .send .host .ackPacket 3 [], .deliver .initiator 0] = some l ∧
      l.outcomes .initiator = [⟨⟨1⟩, false⟩, ⟨⟨2⟩, true⟩] ∧ l.Exact := by
  have hwrap : ∀ l : NotifyLink, (l.conn .initiator).lastSendSeq.toNat + 1024 < 2 ^ 32 →
      (l.conn .host).lastSendSeq.toNat + 1024 < 2 ^ 32 → l.NoWrap := by
    intro l hinitiator hhost x
    cases x with
    | initiator => exact hinitiator
    | host => exact hhost
  obtain ⟨l, run, houtcomes⟩ : ∃ l : NotifyLink, Run step Allowed (start (fun _ => 0))
      [.send .initiator .dataPacket 0 [], .send .initiator .dataPacket 0 [true],
        .send .initiator .pingPacket 0 [], .deliver .host 1, .deliver .host 0, .deliver .host 2,
        .send .host .ackPacket 3 [], .deliver .initiator 0] l ∧
      l.outcomes .initiator = [⟨⟨1⟩, false⟩, ⟨⟨2⟩, true⟩] := by
    refine ⟨_,
      .cons ⟨hwrap _ (by decide) (by decide), by decide⟩ rfl <|
      .cons ⟨hwrap _ (by decide) (by decide), by decide⟩ rfl <|
      .cons ⟨hwrap _ (by decide) (by decide), by decide⟩ rfl <|
      .cons (allowed_of_fresh (hwrap _ (by decide) (by decide)) rfl (by decide) (by decide)
        (by decide)) rfl <|
      .cons (allowed_of_fresh (hwrap _ (by decide +kernel) (by decide +kernel)) rfl
        (by decide +kernel) (by decide +kernel) (by decide +kernel)) rfl <|
      .cons (allowed_of_fresh (hwrap _ (by decide +kernel) (by decide +kernel)) rfl
        (by decide +kernel) (by decide +kernel) (by decide +kernel)) rfl <|
      .cons ⟨hwrap _ (by decide +kernel) (by decide +kernel), nofun⟩ rfl <|
      .cons (allowed_of_fresh (hwrap _ (by decide +kernel) (by decide +kernel)) rfl
        (by decide +kernel) (by decide +kernel) (by decide +kernel)) rfl <| .nil _, ?_⟩
    decide +kernel
  exact ⟨l, run.exec_eq, houtcomes, exact_of_allowed run⟩

/-- The network delivers a data packet twice, and its body is processed twice. -/
theorem duplicate_processed : ¬ ∀ (initialSendSeq : Side → U32) (as : List Action)
    (l : NotifyLink), Run step (fun _ _ => True) (start initialSendSeq) as l → l.Exact := by
  intro claim
  have twice := claim (fun _ => 0)
    [.send .initiator .dataPacket 0 [], .deliver .host 0, .deliver .host 0] _
    (.cons trivial rfl <| .cons trivial rfl <| .cons trivial rfl <| .nil _) .initiator
  exact absurd twice.1 (by decide +kernel)

/-- A ping overtakes a data packet, whose body is processed and which is reported dropped. -/
example : (exec step (start (fun _ => 0))
    [.send .initiator .dataPacket 0 [], .send .initiator .pingPacket 0 [], .deliver .host 1,
      .deliver .host 0, .send .host .ackPacket 0 [], .deliver .initiator 0]).map
    (fun l => (l.processed .host, l.outcomes .initiator)) = some ([1], [⟨⟨1⟩, false⟩]) := by
  decide +kernel

end NotifyLink

end TNL.Go
