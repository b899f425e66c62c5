import TNL.Library.Run
import TNL.Go.NetConnection

/-!
# The order of the notifications of a Go connection

The records of the data packets that are not acknowledged lie in 32 slots, by
their numbers. A callback takes the record of every number that is newly
acknowledged from its slot, one after the other. The slot of a packet is written
again when the 32nd packet after it is sent, whether it was acknowledged or not.
-/
namespace TNL.Go
open Library TNL.Go.NetConnection

/-- One connection, the numbers of the data packets it has sent, and its callbacks. -/
structure NotifySide where
  conn : NetConnection
  sent : List U32
  outcomes : List Outcome

namespace NotifySide

/-- A header that is read is one that `peer` has written. -/
inductive Action where
  | write (packetType : NetPacketType) (sendDelay : ℕ)
  | read (peer : NetConnection) (packetType : NetPacketType) (sendDelay : ℕ) (body : List Bool)

def start (initialSendSeq initialRecvSeq : U32) : NotifySide where
  conn := (newNetConnection initialSendSeq).setInitialRecvSequence initialRecvSeq
  sent := []
  outcomes := []

def step (s : NotifySide) : Action → Option NotifySide
  | .write packetType sendDelay =>
    let nc := (s.conn.writePacketHeader [] packetType sendDelay).2
    some { s with
      conn := nc
      sent := s.sent ++ if packetType = .dataPacket then [nc.lastSendSeq] else [] }
  | .read peer packetType sendDelay body =>
    let r := s.conn.readPacketHeader ⟨peer.writeFields [] packetType sendDelay ++ body, false⟩
    some { s with
      conn := r.conn
      outcomes := s.outcomes ++ r.outcomes }

/-- The callbacks were made for the first packets sent, each for its own and in their order, up to
the last one that is acknowledged. -/
def InOrder (initialSendSeq : U32) (s : NotifySide) : Prop :=
  s.outcomes.map (·.note.sequence) = s.sent.take s.outcomes.length ∧
    s.conn.highestAckedSeq = initialSendSeq + BitVec.ofNat 32 s.outcomes.length

/-- The last number an honest peer has received is one that was sent. -/
def Honest (initialSendSeq : U32) (s : NotifySide) : Action → Prop
  | .write _ _ => True
  | .read peer _ _ _ => peer.lastRecvSeq ∈ initialSendSeq :: s.sent

/-- A data packet is sent only when it has a slot to itself, and the number that a packet
acknowledges is not completed past the last number there is, unless the numbers sent have passed
it. -/
def Allowed (s : NotifySide) : Action → Prop
  | .write packetType _ => packetType = .dataPacket → s.conn.outstanding < 32
  | .read peer _ _ _ => s.conn.highestAckedSeq ≤ s.conn.lastSendSeq →
      s.conn.highestAckedSeq.toNat +
        ((peer.lastRecvSeq - s.conn.highestAckedSeq).setWidth 10).toNat < 2 ^ 32

/-- The `k`-th data packet has this number. -/
def number (initialSendSeq : U32) (k : ℕ) : U32 := initialSendSeq + 1 + BitVec.ofNat 32 k

/-- `total` packets are sent and `acked` of them acknowledged. -/
structure Counted (initialSendSeq : U32) (s : NotifySide) (total acked : ℕ) : Prop where
  sent : s.sent = (List.range total).map (number initialSendSeq)
  lastSend : s.conn.lastSendSeq = initialSendSeq + BitVec.ofNat 32 total
  highestAcked : s.conn.highestAckedSeq = initialSendSeq + BitVec.ofNat 32 acked
  acked_le : acked ≤ total
  window : total ≤ acked + 32
  slots : ∀ k, acked ≤ k → k < total →
    s.conn.notifyQueue ((number initialSendSeq k).setWidth 5) = some ⟨number initialSendSeq k⟩
  outcomes : s.outcomes.map (·.note.sequence) = (List.range acked).map (number initialSendSeq)

variable {initialSendSeq initialRecvSeq : U32} {s t : NotifySide} {total acked : ℕ}

theorem Counted.inOrder (h : Counted initialSendSeq s total acked) : s.InOrder initialSendSeq := by
  have hlength : s.outcomes.length = acked := by
    have := congrArg List.length h.outcomes
    simpa using this
  constructor
  · rw [h.outcomes, h.sent, hlength, ← List.map_take, List.take_range, Nat.min_eq_left h.acked_le]
  · rw [h.highestAcked, hlength]

theorem counted_start :
    Counted initialSendSeq (start initialSendSeq initialRecvSeq) 0 0 where
  sent := rfl
  lastSend := (BitVec.add_zero ..).symm
  highestAcked := (BitVec.add_zero ..).symm
  acked_le := le_rfl
  window := Nat.zero_le _
  slots := fun k _ hk => absurd hk (Nat.not_lt_zero k)
  outcomes := rfl

theorem number_eq (initialSendSeq : U32) (k : ℕ) :
    initialSendSeq + BitVec.ofNat 32 k + 1 = number initialSendSeq k := by
  rw [number, BitVec.add_assoc, BitVec.add_comm _ 1, BitVec.add_assoc]

theorem Counted.outstanding (h : Counted initialSendSeq s total acked) :
    s.conn.outstanding = total - acked := by
  have hle := h.acked_le
  have hwindow := h.window
  rw [NetConnection.outstanding, h.lastSend, h.highestAcked, BitVec.toNat_sub, BitVec.toNat_add,
    BitVec.toNat_add, BitVec.toNat_ofNat, BitVec.toNat_ofNat]
  have hinitial := initialSendSeq.isLt
  omega

theorem Counted.write (h : Counted initialSendSeq s total acked) {packetType : NetPacketType}
    {sendDelay : ℕ} (hallowed : packetType = .dataPacket → s.conn.outstanding < 32)
    (hstep : s.step (.write packetType sendDelay) = some t) :
    ∃ total, Counted initialSendSeq t total acked := by
  obtain rfl := Option.some.inj hstep
  by_cases hdata : packetType = .dataPacket
  · have hroom := hallowed hdata
    rw [h.outstanding] at hroom
    have hle := h.acked_le
    have hlast : (s.conn.writePacketHeader [] packetType sendDelay).2.lastSendSeq =
        number initialSendSeq total := by
      rw [writePacketHeader_lastSendSeq, if_pos hdata, h.lastSend, number_eq]
    refine ⟨total + 1, ?_, ?_, ?_, by omega, by omega, ?_, h.outcomes⟩
    · dsimp only
      rw [if_pos hdata, h.sent, hlast, List.range_succ, List.map_append, List.map_singleton]
    · change (s.conn.writePacketHeader [] packetType sendDelay).2.lastSendSeq = _
      rw [hlast, number, BitVec.add_assoc]
      congr 1
      bv_omega
    · exact (writePacketHeader_highestAckedSeq ..).trans h.highestAcked
    · intro k hk hk'
      dsimp only
      rw [writePacketHeader_notifyQueue, if_pos hdata, h.lastSend, number_eq]
      obtain rfl | hlt := Nat.eq_or_lt_of_le (Nat.lt_succ_iff.mp hk')
      · exact Function.update_self ..
      · -- the slot that is written again belongs to a number a whole window below
        obtain ⟨d, rfl⟩ := Nat.exists_eq_add_of_lt hlt
        have hne := slot_ne (initialSendSeq + 1) (k := k) (d := d + 1) (by omega) (by omega)
        exact (Function.update_of_ne hne.symm ..).trans (h.slots k hk (by omega))
  · refine ⟨total, ?_, ?_, ?_, h.acked_le, h.window, ?_, h.outcomes⟩
    · dsimp only
      rw [if_neg hdata, List.append_nil, h.sent]
    · dsimp only
      rw [writePacketHeader_lastSendSeq, if_neg hdata, h.lastSend]
    · exact (writePacketHeader_highestAckedSeq ..).trans h.highestAcked
    · intro k hk hk'
      dsimp only
      rw [writePacketHeader_notifyQueue, if_neg hdata]
      exact h.slots k hk hk'

/-- An accepted header acknowledges some of the packets that are outstanding. -/
theorem Counted.completed (h : Counted initialSendSeq s total acked) {peer : NetConnection}
    (hwrap : s.conn.highestAckedSeq ≤ s.conn.lastSendSeq → s.conn.highestAckedSeq.toNat +
      ((peer.lastRecvSeq - s.conn.highestAckedSeq).setWidth 10).toNat < 2 ^ 32)
    (hacc : s.conn.accepts peer = true) :
    ∃ d ≤ total - acked, s.conn.completeHighestAck ((peer.lastRecvSeq.setWidth 10).setWidth 32) =
      s.conn.highestAckedSeq + BitVec.ofNat 32 d := by
  have hlow : peer.lastRecvSeq.setWidth 10 - s.conn.highestAckedSeq.setWidth 10 =
      (peer.lastRecvSeq - s.conn.highestAckedSeq).setWidth 10 := by bv_omega
  rw [completeHighestAck_eq, hlow]
  generalize hd : ((peer.lastRecvSeq - s.conn.highestAckedSeq).setWidth 10).toNat = d at hwrap ⊢
  refine ⟨d, ?_, rfl⟩
  have hle := (Bool.and_eq_true_iff.mp hacc).2
  rw [completeHighestAck_eq, hlow, hd, decide_eq_true_eq, BitVec.le_def, BitVec.toNat_add,
    BitVec.toNat_ofNat] at hle
  have hlast : s.conn.lastSendSeq.toNat =
      (s.conn.highestAckedSeq.toNat + (total - acked)) % 2 ^ 32 := by
    have hout := h.outstanding
    rw [NetConnection.outstanding, BitVec.toNat_sub] at hout
    have := s.conn.lastSendSeq.isLt
    have := s.conn.highestAckedSeq.isLt
    omega
  have hwindow := h.window
  have hacked := s.conn.highestAckedSeq.isLt
  have hlt : d < 1024 := by
    rw [← hd]
    exact BitVec.isLt _
  rw [BitVec.le_def] at hwrap
  omega

theorem Counted.read (h : Counted initialSendSeq s total acked) {peer : NetConnection}
    {packetType : NetPacketType} {sendDelay : ℕ} {body : List Bool}
    (hallowed : s.Allowed (.read peer packetType sendDelay body))
    (hstep : s.step (.read peer packetType sendDelay body) = some t) :
    ∃ acked, Counted initialSendSeq t total acked := by
  obtain rfl := Option.some.inj hstep
  obtain ⟨hacc, hread⟩ | ⟨-, rest, hread⟩ :=
    s.conn.readPacketHeader_writeFields peer packetType sendDelay body
  · obtain ⟨d, hd, hack⟩ := h.completed hallowed hacc
    have hle := h.acked_le
    have hwindow := h.window
    have hcount : (s.conn.highestAckedSeq + BitVec.ofNat 32 d - s.conn.highestAckedSeq).toNat =
        d := by bv_omega
    have hnumber : ∀ k, s.conn.highestAckedSeq + 1 + BitVec.ofNat 32 k =
        number initialSendSeq (acked + k) := by
      intro k
      rw [h.highestAcked, number, BitVec.ofNat_add]
      bv_omega
    rw [hread, hack]
    refine ⟨acked + d, h.sent, ?_, ?_, by omega, by omega, ?_, ?_⟩
    · exact (s.conn.acceptHeader_counters packetType _ _ _ ⟨body, false⟩).1.trans h.lastSend
    · change s.conn.highestAckedSeq + BitVec.ofNat 32 d = _
      rw [h.highestAcked, BitVec.add_assoc, BitVec.ofNat_add]
    · intro k hk hk'
      change (processAcks ..).1.notifyQueue _ = _
      rw [hcount, processAcks_notifyQueue]
      · exact h.slots k (by omega) hk'
      · intro j hj
        rw [hnumber]
        obtain ⟨e, rfl⟩ := Nat.exists_eq_add_of_lt (by omega : acked + j < k)
        exact slot_ne (initialSendSeq + 1) (k := acked + j) (d := e + 1) (by omega) (by omega)
    · change (s.outcomes ++ (processAcks ..).2).map _ = _
      rw [hcount, processAcks_outcomes _ (by omega), List.map_append, h.outcomes, List.range_add,
        List.map_append, List.map_map, List.map_map]
      · congr 1
        exact List.map_congr_left (fun k _ => hnumber k)
      · intro k hk
        rw [hnumber]
        exact h.slots (acked + k) (by omega) (by omega)
  · rw [hread]
    refine ⟨acked, h.sent, h.lastSend, h.highestAcked, h.acked_le, h.window, h.slots, ?_⟩
    change (s.outcomes ++ []).map _ = _
    rw [List.append_nil, h.outcomes]

/-- In every run whose steps are allowed the callbacks are those of the first packets sent, in
their order, up to the last one acknowledged. -/
theorem inOrder_of_allowed {as : List Action}
    (run : Run step Allowed (start initialSendSeq initialRecvSeq) as s) :
    s.InOrder initialSendSeq := by
  obtain ⟨total, acked, h⟩ := run.invariant (I := fun s => ∃ total acked,
      Counted initialSendSeq s total acked) (fun s a t hs ha hstep => by
    obtain ⟨total, acked, h⟩ := hs
    cases a with
    | write packetType sendDelay =>
      obtain ⟨total, h⟩ := h.write ha hstep
      exact ⟨total, acked, h⟩
    | read peer packetType sendDelay body =>
      obtain ⟨acked, h⟩ := h.read ha hstep
      exact ⟨total, acked, h⟩) ⟨0, 0, counted_start⟩
  exact h.inOrder

/-- A peer that has received the packets up to `seq`, all of them. -/
def received (seq : U32) : NetConnection :=
  { newNetConnection 0 with lastRecvSeq := seq, ackMask := BitVec.allOnes 32 }

/-- Two data packets and a ping, acknowledged by two headers that arrive in the wrong order. -/
theorem inOrder_of_allowed_reordered : ∃ s,
    exec step (start 0 0) [.write .dataPacket 0, .write .dataPacket 0, .write .pingPacket 0,
      .read (received 2) .ackPacket 0 [], .read (received 1) .ackPacket 0 []] = some s ∧
      s.outcomes = [⟨⟨1⟩, true⟩, ⟨⟨2⟩, true⟩] ∧ s.InOrder 0 := by
  obtain ⟨s, run, houtcomes⟩ : ∃ s, Run step Allowed (start 0 0) [.write .dataPacket 0,
      .write .dataPacket 0, .write .pingPacket 0, .read (received 2) .ackPacket 0 [],
      .read (received 1) .ackPacket 0 []] s ∧ s.outcomes = [⟨⟨1⟩, true⟩, ⟨⟨2⟩, true⟩] := by
    refine ⟨_,
      .cons (fun _ => by decide) rfl <| .cons (fun _ => by decide) rfl <|
      .cons (fun _ => by decide) rfl <| .cons (fun _ => by decide +kernel) rfl <|
      .cons (fun _ => by decide +kernel) rfl <| .nil _, ?_⟩
    decide +kernel
  exact ⟨s, run.exec_eq, houtcomes, inOrder_of_allowed run⟩

/-- The 33rd data packet takes the slot of the first, which no callback is made for. -/
theorem slot_overwritten : ¬ ∀ (initialSendSeq initialRecvSeq : U32) (as : List Action)
    (s : NotifySide), Run step (Honest initialSendSeq) (start initialSendSeq initialRecvSeq) as s →
      s.InOrder initialSendSeq := by
  intro claim
  obtain ⟨s, hs, hsent⟩ : ∃ s, exec step (start 0 0) (List.replicate 33 (.write .dataPacket 0)) =
      some s ∧ (33 : U32) ∈ s.sent := ⟨_, rfl, by decide +kernel⟩
  have writes : Run step (Honest 0) (start 0 0) (List.replicate 33 (.write .dataPacket 0)) s :=
    Run.of_exec_of_forall (fun s a ha => by
      obtain rfl := List.eq_of_mem_replicate ha
      exact trivial) hs
  have acknowledged : Honest 0 s (.read (received 33) .ackPacket 0 []) :=
    List.mem_cons_of_mem 0 hsent
  have ordered := (claim 0 0 _ _ (writes.snoc acknowledged rfl)).1
  obtain rfl := Option.some.inj (hs.symm.trans rfl)
  exact absurd ordered (by decide +kernel)

end NotifySide

end TNL.Go
