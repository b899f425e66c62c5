import TNL.Library.Run
import TNL.Connection.Header

/-!
# The notify queue follows the sequence window

One side of a connection sends data packets and reads arbitrary headers. Its
notify queue stays in step with the interval between `mHighestAckedSeq` and
`mLastSendSeq`, across the wrap of the 32-bit counters, as long as no accepted
header has its acknowledged sequence completed past zero while the send
sequence has not wrapped.
-/
namespace TNL
open Library

namespace NetConnection

variable {ν : Type*} {c d : NetConnection ν} {ctx : ReadContext} {h : PacketHeader}

theorem packetSequence_toNat (c : NetConnection ν) (h : PacketHeader) :
    (c.packetSequence h).toNat =
      expandCounter 2048 c.mLastSeqRecvd.toNat h.sequence.toNat % 2 ^ 32 := by
  have hmask : sequenceNumberMask = BitVec.allOnes 32 <<< 11 := by decide
  unfold packetSequence
  rw [hmask]
  exact toNat_complete (by omega) c.mLastSeqRecvd sequenceNumberWindowSize h.sequence rfl

theorem packetHighestAck_toNat (c : NetConnection ν) (h : PacketHeader) :
    (c.packetHighestAck h).toNat =
      expandCounter 1024 c.mHighestAckedSeq.toNat h.highestAck.toNat % 2 ^ 32 := by
  have hmask : ackSequenceNumberMask = BitVec.allOnes 32 <<< 10 := by decide
  unfold packetHighestAck
  rw [hmask]
  exact toNat_complete (by omega) c.mHighestAckedSeq ackSequenceNumberWindowSize h.highestAck rfl

/-- The tests a packet must pass, as propositions. -/
theorem headerAccepted_iff : c.headerAccepted ctx h = true ↔
    c.packetSequence h - c.mLastSeqRecvd ≤ maxPacketWindowSize - 1 ∧
      c.packetHighestAck h ≤ c.mLastSendSeq ∧
      ctx.decrypts (c.packetSequence h) (c.packetHighestAck h) h.packetType = true ∧
      h.ackByteCount ≤ maxAckByteCount ∧ h.packetType ≠ .invalidPacketType := by
  simp [headerAccepted, and_assoc]

/-- The number of data packets sent and not yet reported on. -/
def outstanding (c : NetConnection ν) : ℕ := (c.mLastSendSeq - c.mHighestAckedSeq).toNat

theorem outstanding_lt_of_not_windowFull {cwnd : Option ℕ} (hfull : c.windowFull cwnd = false) :
    c.outstanding < 30 := by
  unfold windowFull at hfull
  split at hfull
  · simp at hfull
  · rename_i hlt
    simpa [outstanding, maxPacketWindowSize, BitVec.le_def] using hlt

/-- The acknowledged sequence is completed past zero although the send sequence has not
wrapped: a stale or foreign ack in the last block of 1024 numbers below the wrap. -/
def AckWraps (c : NetConnection ν) (h : PacketHeader) : Prop :=
  2 ^ 32 - 1024 ≤ c.mHighestAckedSeq.toNat ∧ c.mHighestAckedSeq ≤ c.mLastSendSeq ∧
    h.highestAck.toNat < c.mHighestAckedSeq.toNat % 1024

instance (c : NetConnection ν) (h : PacketHeader) : Decidable (c.AckWraps h) := by
  unfold AckWraps
  infer_instance

/-- How far an accepted header moves the acknowledged sequence. -/
theorem notifyCount_cases (hacc : c.headerAccepted ctx h = true) (hout : c.outstanding ≤ 30) :
    (c.AckWraps h ∧ c.outstanding < (c.packetHighestAck h - c.mHighestAckedSeq).toNat) ∨
      (¬ c.AckWraps h ∧ (c.packetHighestAck h - c.mHighestAckedSeq).toNat ≤ c.outstanding) := by
  obtain ⟨-, hack, -⟩ := headerAccepted_iff.mp hacc
  have hlow := h.highestAck.isLt
  have hexpand := c.packetHighestAck_toNat h
  unfold expandCounter at hexpand
  have hbase := c.mHighestAckedSeq.isLt
  have hsend := c.mLastSendSeq.isLt
  rw [BitVec.le_def] at hack
  simp only [AckWraps, outstanding, BitVec.toNat_sub, BitVec.le_def] at hout ⊢
  split at hexpand <;> omega

/-- The notifications made for consecutive records taken off the queue. -/
def notificationsFrom (ctx : ReadContext) (h : PacketHeader) (pkHighestAck : U32) :
    U32 → List ν → List (Notification ν)
  | _, [] => []
  | i, note :: notes => ⟨i, packetTransmitSuccess ctx h pkHighestAck i, note⟩ ::
      notificationsFrom ctx h pkHighestAck (i + 1) notes

/-- `mLastRecvAckAck` after `count` notifications from number `i` on. -/
def ackAckAfter (ctx : ReadContext) (h : PacketHeader) (pkHighestAck : U32)
    (atSend : BitVec 5 → U32) : ℕ → U32 → U32 → U32
  | 0, _, last => last
  | count + 1, i, last => ackAckAfter ctx h pkHighestAck atSend count (i + 1)
      (if packetTransmitSuccess ctx h pkHighestAck i then atSend (i.setWidth 5) else last)

@[simp] theorem notificationsFrom_length (pkHighestAck i : U32) (notes : List ν) :
    (notificationsFrom ctx h pkHighestAck i notes).length = notes.length := by
  induction notes generalizing i with
  | nil => rfl
  | cons note notes ih => simp [notificationsFrom, ih]

/-- The loop succeeds when the queue is long enough, and takes its records in order. -/
theorem notifyLoop_eq_some (pkHighestAck i : U32) (count : ℕ) (c : NetConnection ν)
    (hcount : count ≤ c.mNotifyQueue.length) :
    notifyLoop ctx h pkHighestAck count i c = some
      ({ c with
          mNotifyQueue := c.mNotifyQueue.drop count
          mLastRecvAckAck :=
            ackAckAfter ctx h pkHighestAck c.mLastSeqRecvdAtSend count i c.mLastRecvAckAck },
        notificationsFrom ctx h pkHighestAck i (c.mNotifyQueue.take count)) := by
  induction count generalizing i c with
  | zero => simp [notifyLoop, ackAckAfter, notificationsFrom]
  | succ count ih =>
    obtain ⟨atSend, seq, high, sent, mask, ackAck, queue⟩ := c
    cases queue with
    | nil => simp at hcount
    | cons note notes =>
      simp only [notifyLoop, handleNotify]
      cases hrecvd : packetTransmitSuccess ctx h pkHighestAck i <;>
        rw [ih _ _ (by simpa using hcount)] <;>
        simp [ackAckAfter, notificationsFrom, hrecvd]

/-- The loop takes the head of an empty queue when the queue is too short. -/
theorem notifyLoop_eq_none (pkHighestAck i : U32) (count : ℕ) (c : NetConnection ν)
    (hcount : c.mNotifyQueue.length < count) :
    notifyLoop ctx h pkHighestAck count i c = none := by
  induction count generalizing i c with
  | zero => simp at hcount
  | succ count ih =>
    obtain ⟨atSend, seq, high, sent, mask, ackAck, queue⟩ := c
    cases queue with
    | nil => simp [notifyLoop, handleNotify]
    | cons note notes =>
      simp only [notifyLoop, handleNotify]
      cases packetTransmitSuccess ctx h pkHighestAck i <;>
        rw [ih _ _ (by simpa using hcount)]

theorem readPacketHeader_rejected (hrej : c.headerAccepted ctx h = false) :
    c.readPacketHeader ctx h = some ⟨c, [], none, false⟩ := by
  simp [readPacketHeader, hrej]

/-- The state after the notify loop of an accepted header. -/
def notifiedState (c : NetConnection ν) (ctx : ReadContext) (h : PacketHeader) :
    NetConnection ν :=
  { c with
    mAckMask := c.shiftedAckMask (c.packetSequence h) h.packetType
    mNotifyQueue := c.mNotifyQueue.drop (c.packetHighestAck h - c.mHighestAckedSeq).toNat
    mLastRecvAckAck := ackAckAfter ctx h (c.packetHighestAck h) c.mLastSeqRecvdAtSend
      (c.packetHighestAck h - c.mHighestAckedSeq).toNat (c.mHighestAckedSeq + 1)
      c.mLastRecvAckAck }

theorem readPacketHeader_accepted (hacc : c.headerAccepted ctx h = true)
    (hcount : (c.packetHighestAck h - c.mHighestAckedSeq).toNat ≤ c.mNotifyQueue.length) :
    c.readPacketHeader ctx h = some ((c.notifiedState ctx h).finishHeader h (c.packetSequence h)
      (c.packetHighestAck h) (notificationsFrom ctx h (c.packetHighestAck h)
        (c.mHighestAckedSeq + 1)
        (c.mNotifyQueue.take (c.packetHighestAck h - c.mHighestAckedSeq).toNat))) := by
  simp only [readPacketHeader, hacc, if_true]
  rw [notifyLoop_eq_some _ _ _
    { c with mAckMask := c.shiftedAckMask (c.packetSequence h) h.packetType } hcount]
  rfl

theorem readPacketHeader_faults (hacc : c.headerAccepted ctx h = true)
    (hcount : c.mNotifyQueue.length < (c.packetHighestAck h - c.mHighestAckedSeq).toNat) :
    c.readPacketHeader ctx h = none := by
  simp only [readPacketHeader, hacc, if_true]
  rw [notifyLoop_eq_none _ _ _
    { c with mAckMask := c.shiftedAckMask (c.packetSequence h) h.packetType } hcount]

end NetConnection

/-- One side of a connection with the history of its data packets: each packet's number and
notify record in sending order, and the notifications made so far. -/
structure Endpoint (ν : Type*) where
  conn : NetConnection ν
  dataSent : List (U32 × ν)
  notified : List (Notification ν)

namespace Endpoint
open NetConnection

variable {ν : Type*}

/-- What can happen to one side. `checkPacketSend` carries the record allocated for the packet
and does nothing when the window is full; sending a ping or an ack changes nothing. -/
inductive Action (ν : Type*) where
  | checkPacketSend (cwnd : Option ℕ) (note : ν)
  | sendPingPacket
  | sendAckPacket
  | readPacketHeader (ctx : ReadContext) (h : PacketHeader)

def start (initialSendSeq initialRecvSeq : U32) : Endpoint ν :=
  ⟨connected initialSendSeq initialRecvSeq, [], []⟩

def step (e : Endpoint ν) : Action ν → Option (Endpoint ν)
  | .checkPacketSend cwnd note =>
    if e.conn.windowFull cwnd then some e
    else
      let conn := (e.conn.writeDataPacket note).2
      some { e with conn := conn, dataSent := e.dataSent ++ [(conn.mLastSendSeq, note)] }
  | .sendPingPacket => some { e with conn := (e.conn.writePacketHeader .pingPacket).2 }
  | .sendAckPacket => some { e with conn := (e.conn.writePacketHeader .ackPacket).2 }
  | .readPacketHeader ctx h =>
    (e.conn.readPacketHeader ctx h).map (fun r =>
      { e with conn := r.conn, notified := e.notified ++ r.notified })

/-- The `n` sequence numbers after `s`, modulo 2^32. -/
def sequencesAfter (s : U32) (n : ℕ) : List U32 :=
  (List.range n).map (fun i => s + 1 + BitVec.ofNat 32 i)

/-- The queue and the notifications account for every data packet. -/
structure QueueExact (initial : U32) (e : Endpoint ν) : Prop where
  numbered : e.dataSent.map Prod.fst = sequencesAfter initial e.dataSent.length
  fifo : e.notified.map (fun n => (n.sequence, n.note)) = e.dataSent.take e.notified.length
  queued : e.conn.mNotifyQueue = (e.dataSent.drop e.notified.length).map Prod.snd
  window : (e.dataSent.drop e.notified.length).map Prod.fst =
    sequencesAfter e.conn.mHighestAckedSeq
      (e.conn.mLastSendSeq - e.conn.mHighestAckedSeq).toNat

@[simp] theorem sequencesAfter_length (s : U32) (n : ℕ) : (sequencesAfter s n).length = n := by
  simp [sequencesAfter]

theorem sequencesAfter_succ (s : U32) (n : ℕ) :
    sequencesAfter s (n + 1) = sequencesAfter s n ++ [s + BitVec.ofNat 32 (n + 1)] := by
  simp only [sequencesAfter, List.range_succ, List.map_append, List.map_cons, List.map_nil]
  rw [BitVec.ofNat_add]
  congr 2
  bv_omega

theorem sequencesAfter_cons (s : U32) (n : ℕ) :
    sequencesAfter s (n + 1) = (s + 1) :: sequencesAfter (s + 1) n := by
  simp only [sequencesAfter, List.range_succ_eq_map, List.map_cons, List.map_map]
  congr 1
  · simp
  · apply List.map_congr_left
    intro i _
    simp only [Function.comp_apply, Nat.succ_eq_add_one, BitVec.ofNat_add]
    bv_omega

theorem sequencesAfter_drop (s : U32) (n k : ℕ) :
    (sequencesAfter s n).drop k = sequencesAfter (s + BitVec.ofNat 32 k) (n - k) := by
  induction k generalizing s n with
  | zero => simp
  | succ k ih =>
    cases n with
    | zero => simp [sequencesAfter]
    | succ n =>
      rw [sequencesAfter_cons, List.drop_succ_cons, ih, Nat.add_sub_add_right, BitVec.ofNat_add]
      congr 1
      bv_omega

theorem sequencesAfter_take (s : U32) (n k : ℕ) :
    (sequencesAfter s n).take k = sequencesAfter s (min k n) := by
  rw [sequencesAfter, sequencesAfter, ← List.map_take, List.take_range]

/-- Records in sending order are reported under their own numbers. -/
theorem notificationsFrom_pairs {ctx : ReadContext} {h : PacketHeader} (pkHighestAck s : U32)
    (pairs : List (U32 × ν)) (hnum : pairs.map Prod.fst = sequencesAfter s pairs.length) :
    (notificationsFrom ctx h pkHighestAck (s + 1) (pairs.map Prod.snd)).map
      (fun n => (n.sequence, n.note)) = pairs := by
  induction pairs generalizing s with
  | nil => rfl
  | cons pair pairs ih =>
    rw [List.map_cons, List.length_cons, sequencesAfter_cons, List.cons.injEq] at hnum
    rw [List.map_cons, notificationsFrom, List.map_cons, ih (s + 1) hnum.2, ← hnum.1]

/-- The counting form of `QueueExact`, which each operation preserves. -/
structure Counted (initial : U32) (e : Endpoint ν) : Prop where
  sent : e.conn.mLastSendSeq = initial + BitVec.ofNat 32 e.dataSent.length
  acked : e.conn.mHighestAckedSeq = initial + BitVec.ofNat 32 e.notified.length
  le : e.notified.length ≤ e.dataSent.length
  bound : e.dataSent.length - e.notified.length ≤ 30
  numbered : e.dataSent.map Prod.fst = sequencesAfter initial e.dataSent.length
  fifo : e.notified.map (fun n => (n.sequence, n.note)) = e.dataSent.take e.notified.length
  queued : e.conn.mNotifyQueue = (e.dataSent.drop e.notified.length).map Prod.snd

namespace Counted

variable {initial : U32} {e f : Endpoint ν}

theorem outstanding_eq (he : Counted initial e) :
    e.conn.outstanding = e.dataSent.length - e.notified.length := by
  have hle := he.le
  have hbound := he.bound
  rw [NetConnection.outstanding, he.sent, he.acked]
  generalize e.dataSent.length = sent at *
  generalize e.notified.length = acked at *
  have hsub : initial + BitVec.ofNat 32 sent - (initial + BitVec.ofNat 32 acked) =
      BitVec.ofNat 32 (sent - acked) := by
    conv_lhs => rw [show sent = acked + (sent - acked) by omega, BitVec.ofNat_add]
    bv_omega
  rw [hsub, BitVec.toNat_ofNat, Nat.mod_eq_of_lt (by omega)]

theorem queueExact (he : Counted initial e) : QueueExact initial e where
  numbered := he.numbered
  fifo := he.fifo
  queued := he.queued
  window := by
    have hout := he.outstanding_eq
    rw [NetConnection.outstanding] at hout
    rw [hout, List.map_drop, he.numbered, sequencesAfter_drop, ← he.acked]

theorem start (initial initialRecvSeq : U32) :
    Counted initial (Endpoint.start (ν := ν) initial initialRecvSeq) where
  sent := by simp [Endpoint.start, connected]
  acked := by simp [Endpoint.start, connected]
  le := le_rfl
  bound := by simp [Endpoint.start]
  numbered := rfl
  fifo := rfl
  queued := rfl

theorem queue_length (he : Counted initial e) :
    e.conn.mNotifyQueue.length = e.conn.outstanding := by
  rw [he.queued, he.outstanding_eq, List.length_map, List.length_drop]

theorem writeDataPacket (he : Counted initial e) (note : ν) (hout : e.conn.outstanding < 30) :
    Counted initial
      { e with
        conn := (e.conn.writeDataPacket note).2
        dataSent := e.dataSent ++ [((e.conn.writeDataPacket note).2.mLastSendSeq, note)] } := by
  have hcount := he.outstanding_eq
  have hle := he.le
  have hsent : (e.conn.writeDataPacket note).2.mLastSendSeq =
      initial + BitVec.ofNat 32 (e.dataSent.length + 1) := by
    change e.conn.mLastSendSeq + 1 = _
    rw [he.sent]
    bv_omega
  constructor
  · simpa using hsent
  · exact he.acked
  · simp only [List.length_append]
    omega
  · simp only [List.length_append, List.length_singleton]
    omega
  · rw [List.map_append, List.length_append, List.length_singleton, sequencesAfter_succ,
      he.numbered, hsent]
    rfl
  · simpa [List.take_append_of_le_length hle] using he.fifo
  · change e.conn.mNotifyQueue ++ [note] = _
    simp [he.queued, List.drop_append_of_le_length hle]

/-- The notifications of an accepted header report on the oldest outstanding packets. -/
theorem readPacketHeader (he : Counted initial e) {ctx : ReadContext} {h : PacketHeader}
    (hacc : e.conn.headerAccepted ctx h = true) (hwrap : ¬ e.conn.AckWraps h) :
    ∃ r, e.conn.readPacketHeader ctx h = some r ∧
      Counted initial { e with conn := r.conn, notified := e.notified ++ r.notified } := by
  have hcount := he.outstanding_eq
  have hqueue := he.queue_length
  have hle := he.le
  have hbound := he.bound
  obtain ⟨hbad, -⟩ | ⟨-, hsteps⟩ := notifyCount_cases hacc (by omega)
  · exact absurd hbad hwrap
  refine ⟨_, readPacketHeader_accepted hacc (by omega), ?_⟩
  generalize hn : (e.conn.packetHighestAck h - e.conn.mHighestAckedSeq).toNat = n at hsteps ⊢
  have htake : e.conn.mNotifyQueue.take n =
      ((e.dataSent.drop e.notified.length).take n).map Prod.snd := by
    rw [he.queued, List.map_take]
  have hlen : (e.conn.mNotifyQueue.take n).length = n := by
    rw [List.length_take]
    omega
  have hack : e.conn.packetHighestAck h =
      initial + BitVec.ofNat 32 (e.notified.length + n) := by
    have hacked := he.acked
    rw [← hn]
    bv_omega
  have hpairs : (notificationsFrom ctx h (e.conn.packetHighestAck h) (e.conn.mHighestAckedSeq + 1)
      (e.conn.mNotifyQueue.take n)).map (fun n => (n.sequence, n.note)) =
      (e.dataSent.drop e.notified.length).take n := by
    rw [htake]
    apply notificationsFrom_pairs
    rw [List.map_take, List.map_drop, he.numbered, sequencesAfter_drop, ← he.acked,
      sequencesAfter_take, List.length_take, List.length_drop]
  constructor
  · exact he.sent
  · simpa [finishHeader, hlen] using hack
  · simp only [finishHeader, List.length_append, notificationsFrom_length, hlen]
    omega
  · simp only [finishHeader, List.length_append, notificationsFrom_length, hlen]
    omega
  · exact he.numbered
  · simp only [finishHeader, List.map_append, List.length_append, notificationsFrom_length, hlen]
    rw [he.fifo, hpairs, List.take_add]
  · simp only [finishHeader, notifiedState, List.length_append, notificationsFrom_length, hlen]
    rw [hn, he.queued, ← List.map_drop, List.drop_drop]

end Counted

/-- The header is not one whose acknowledged sequence is completed past zero. -/
def AckInWindow (e : Endpoint ν) : Action ν → Prop
  | .readPacketHeader ctx h => e.conn.headerAccepted ctx h = true → ¬ e.conn.AckWraps h
  | _ => True

theorem Counted.step {initial : U32} {e : Endpoint ν} {a : Action ν} (he : Counted initial e)
    (ha : e.AckInWindow a) : ∃ f, e.step a = some f ∧ Counted initial f := by
  cases a with
  | checkPacketSend cwnd note =>
    cases hfull : e.conn.windowFull cwnd with
    | true => exact ⟨e, by simp [Endpoint.step, hfull], he⟩
    | false =>
      exact ⟨_, by simp [Endpoint.step, hfull],
        he.writeDataPacket note (outstanding_lt_of_not_windowFull hfull)⟩
  | sendPingPacket => exact ⟨_, rfl, he⟩
  | sendAckPacket => exact ⟨_, rfl, he⟩
  | readPacketHeader ctx h =>
    cases hacc : e.conn.headerAccepted ctx h with
    | true =>
      obtain ⟨r, hr, hcounted⟩ := he.readPacketHeader hacc (ha hacc)
      exact ⟨_, by simp [Endpoint.step, hr], hcounted⟩
    | false =>
      refine ⟨e, ?_, he⟩
      simp [Endpoint.step, readPacketHeader_rejected hacc]

/-- A header outside the window condition empties the queue and takes one record more. -/
theorem Counted.step_eq_none {initial : U32} {e : Endpoint ν} {a : Action ν}
    (he : Counted initial e) (ha : ¬ e.AckInWindow a) : e.step a = none := by
  cases a with
  | checkPacketSend cwnd note => exact absurd trivial ha
  | sendPingPacket => exact absurd trivial ha
  | sendAckPacket => exact absurd trivial ha
  | readPacketHeader ctx h =>
    have hbad : e.conn.headerAccepted ctx h = true ∧ e.conn.AckWraps h := by
      simpa [AckInWindow] using ha
    have hcount := he.outstanding_eq
    have hbound := he.bound
    obtain ⟨-, hmore⟩ | ⟨hgood, -⟩ := notifyCount_cases hbad.1 (by omega)
    · have hfault := readPacketHeader_faults hbad.1 (by rw [he.queue_length]; exact hmore)
      simp [Endpoint.step, hfault]
    · exact absurd hbad.2 hgood

theorem counted_of_run {initialSendSeq initialRecvSeq : U32} {as : List (Action ν)}
    {e : Endpoint ν} (run : Run step AckInWindow (start initialSendSeq initialRecvSeq) as e) :
    Counted initialSendSeq e := by
  refine run.invariant (I := Counted initialSendSeq) ?_ (.start _ _)
  intro e a f he ha hstep
  obtain ⟨g, hg, hcounted⟩ := he.step ha
  rw [hg] at hstep
  exact Option.some.inj hstep ▸ hcounted

/-- The notify queue is exact after every operation, no operation takes a record off an empty
queue, and with the records cleared on destruction every data packet is notified once, in
sending order. -/
theorem notifyQueue_exact {initialSendSeq initialRecvSeq : U32} {as : List (Action ν)}
    {e : Endpoint ν} (run : Run step AckInWindow (start initialSendSeq initialRecvSeq) as e) :
    QueueExact initialSendSeq e ∧ (∀ a, (e.step a).isSome ↔ e.AckInWindow a) ∧
      (e.notified ++ e.conn.clearAllPacketNotifies).map Notification.note =
        e.dataSent.map Prod.snd := by
  have he := counted_of_run run
  refine ⟨he.queueExact, ?_, ?_⟩
  · intro a
    constructor
    · intro hsome
      by_contra ha
      simp [he.step_eq_none ha] at hsome
    · intro ha
      obtain ⟨f, hf, -⟩ := he.step ha
      simp [hf]
  · have hfifo := congrArg (List.map Prod.snd) he.fifo
    rw [List.map_map] at hfifo
    rw [List.map_append, show e.notified.map Notification.note = _ from hfifo,
      clearAllPacketNotifies, List.map_map]
    simp [Function.comp_def, he.queued]

/-- Reading without a cipher, on a stack that happens to hold zeros. -/
def plainContext : ReadContext := ⟨fun _ _ _ => true, fun _ => 0⟩

/-- An ack packet of a peer at sequence `seq` whose last received packet has low bits `ack`. -/
def ackHeader (seq : BitVec 11) (ack : BitVec 10) : PacketHeader :=
  ⟨.ackPacket, seq, ack, 1, 1⟩

theorem notifyQueue_exact_at_wrap :
    ∃ e : Endpoint ℕ, exec step (start 0xFFFFFFFE 5)
        [.checkPacketSend none 7, .checkPacketSend none 8,
          .readPacketHeader plainContext (ackHeader 5 0)] = some e ∧
      QueueExact 0xFFFFFFFE e := by
  obtain ⟨e, run⟩ : ∃ e, Run step AckInWindow (start 0xFFFFFFFE 5)
      [.checkPacketSend none 7, .checkPacketSend none 8,
        .readPacketHeader plainContext (ackHeader 5 0)] e := by
    refine ⟨_, .cons trivial rfl (.cons trivial rfl (.cons ?_ rfl (.nil _)))⟩
    intro _
    decide
  exact ⟨_, run.exec_eq, (notifyQueue_exact run).1⟩

/-- Two acks arrive in the wrong order just below the wrap: the older one is completed past zero
and the notify loop runs off the empty queue. -/
theorem notifyQueue_fault :
    ¬ ∀ (initialSendSeq initialRecvSeq : U32) (as : List (Action ℕ)) (e : Endpoint ℕ),
      Run step (fun _ _ => True) (start initialSendSeq initialRecvSeq) as e →
        QueueExact initialSendSeq e ∧ ∀ a, (e.step a).isSome := by
  intro claim
  have stale := (claim 0xFFFFFFFE 5
    [.checkPacketSend none 7, .readPacketHeader plainContext (ackHeader 5 0x3FF)] _
    (.cons trivial rfl (.cons trivial rfl (.nil _)))).2
    (.readPacketHeader plainContext (ackHeader 5 0x3FE))
  exact absurd stale (by decide)

end Endpoint

end TNL
