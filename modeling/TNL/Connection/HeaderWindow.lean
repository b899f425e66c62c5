import TNL.Connection.NotifyQueue

/-!
# The windows of the header

A header of the peer whose counters lie in both windows has them completed
correctly, across the wrap of the 32-bit counters. The acknowledged one is then
compared with the send sequence as a plain number, which it passes unless the
send sequence has wrapped and it has not.
-/
namespace TNL
open Library

namespace NetConnection

variable {ν : Type*} {c : NetConnection ν} {ctx : ReadContext} {h : PacketHeader}

/-- A counter in the window behind its base is completed to itself. -/
theorem packetSequence_of_ahead {seq : U32} (hfield : h.sequence = seq.setWidth 11)
    (hahead : (seq - c.mLastSeqRecvd).toNat < 2048) : c.packetSequence h = seq := by
  apply BitVec.eq_of_toNat_eq
  have hbase := c.mLastSeqRecvd.isLt
  have hseq := seq.isLt
  have hlow : h.sequence.toNat = seq.toNat % 2048 := by
    rw [hfield]
    exact BitVec.toNat_setWidth ..
  rw [packetSequence_toNat, hlow]
  rw [BitVec.toNat_sub] at hahead
  unfold expandCounter
  split <;> omega

theorem packetHighestAck_of_ahead {ack : U32} (hfield : h.highestAck = ack.setWidth 10)
    (hahead : (ack - c.mHighestAckedSeq).toNat < 1024) : c.packetHighestAck h = ack := by
  apply BitVec.eq_of_toNat_eq
  have hbase := c.mHighestAckedSeq.isLt
  have hack := ack.isLt
  have hlow : h.highestAck.toNat = ack.toNat % 1024 := by
    rw [hfield]
    exact BitVec.toNat_setWidth ..
  rw [packetHighestAck_toNat, hlow]
  rw [BitVec.toNat_sub] at hahead
  unfold expandCounter
  split <;> omega

end NetConnection

namespace Endpoint
open NetConnection

variable {ν : Type*} {initialSendSeq initialRecvSeq : U32} {as : List (Action ν)} {e : Endpoint ν}

/-- A run of one side that reads any headers. A header that makes the notify loop run off the queue
ends the run. -/
abbrev Reached (initialSendSeq initialRecvSeq : U32) (as : List (Action ν)) (e : Endpoint ν) :
    Prop :=
  Run step (fun _ _ => True) (start initialSendSeq initialRecvSeq) as e

theorem Counted.of_reached (run : Reached initialSendSeq initialRecvSeq as e) :
    Counted initialSendSeq e := by
  apply run.invariant (I := Counted initialSendSeq) _ (.start _ _)
  intro e a f he _ hstep
  by_cases ha : e.AckInWindow a
  · obtain ⟨g, hg, hcounted⟩ := he.step ha
    rw [hg] at hstep
    exact Option.some.inj hstep ▸ hcounted
  · rw [he.step_eq_none ha] at hstep
    cases hstep

/-- A packet of the peer in both windows: its counters are completed to the peer's, and it is
accepted exactly when the acknowledged one does not exceed the send sequence as a plain number. -/
theorem headerAccepted_iff_ack_le (run : Reached initialSendSeq initialRecvSeq as e)
    (seq ack : U32) (h : PacketHeader) (ctx : ReadContext)
    (hsequence : h.sequence = seq.setWidth 11) (hhighest : h.highestAck = ack.setWidth 10)
    (hpositive : 1 ≤ (seq - e.conn.mLastSeqRecvd).toNat)
    (hahead : (seq - e.conn.mLastSeqRecvd).toNat ≤ 31)
    (hwindow : (ack - e.conn.mHighestAckedSeq).toNat ≤
      (e.conn.mLastSendSeq - e.conn.mHighestAckedSeq).toNat)
    (hdecrypts : ctx.decrypts seq ack h.packetType = true)
    (hcount : h.ackByteCount ≤ maxAckByteCount) (htype : h.packetType ≠ .invalidPacketType) :
    e.conn.packetSequence h = seq ∧ e.conn.packetHighestAck h = ack ∧
      (e.conn.headerAccepted ctx h = true ↔ ack ≤ e.conn.mLastSendSeq) := by
  have hcounted := Counted.of_reached run
  have hout := hcounted.outstanding_eq
  have hbound := hcounted.bound
  unfold NetConnection.outstanding at hout
  have hseq := packetSequence_of_ahead hsequence (c := e.conn) (by omega)
  have hack := packetHighestAck_of_ahead hhighest (c := e.conn) (by omega)
  have hnear : seq - e.conn.mLastSeqRecvd ≤ maxPacketWindowSize - 1 := by
    rw [BitVec.le_def]
    exact hahead
  refine ⟨hseq, hack, ?_⟩
  rw [headerAccepted_iff, hseq, hack]
  simp only [hnear, hdecrypts, hcount, htype, ne_eq, not_false_eq_true, and_true, true_and]

theorem headerAccepted_iff_ack_le_at_wrap : ∃ e : Endpoint ℕ,
    Reached 0xFFFFFFFE 5 [.checkPacketSend none 7, .checkPacketSend none 8] e ∧
      (e.conn.headerAccepted plainContext (ackHeader 6 0) = true ↔ (0 : U32) ≤ 0) := by
  obtain ⟨e, hexec, hsend⟩ : ∃ e : Endpoint ℕ,
      exec step (start 0xFFFFFFFE 5) [.checkPacketSend none 7, .checkPacketSend none 8] = some e ∧
        e.conn.mLastSendSeq = 0 ∧ e.conn.mLastSeqRecvd = 5 ∧ e.conn.mHighestAckedSeq = 0xFFFFFFFE :=
    ⟨_, rfl, rfl, rfl, rfl⟩
  have run : Reached 0xFFFFFFFE 5 [.checkPacketSend none 7, .checkPacketSend none 8] e :=
    Run.of_exec hexec
  have hacc := (headerAccepted_iff_ack_le run 6 0 (ackHeader 6 0) plainContext rfl rfl
    (by rw [hsend.2.1]; decide) (by rw [hsend.2.1]; decide) (by rw [hsend.1, hsend.2.2]) rfl (by decide) (by decide)).2.2
  rw [hsend.1] at hacc
  exact ⟨e, run, hacc⟩

/-- The peer acknowledges packet 0xFFFFFFFF when packet 0 has been sent too. -/
theorem ack_before_wrap_rejected :
    ¬ ∀ (initialSendSeq initialRecvSeq : U32) (as : List (Action ℕ)) (e : Endpoint ℕ),
      Reached initialSendSeq initialRecvSeq as e → ∀ (seq ack : U32) (h : PacketHeader),
        h.sequence = seq.setWidth 11 → h.highestAck = ack.setWidth 10 →
        1 ≤ (seq - e.conn.mLastSeqRecvd).toNat → (seq - e.conn.mLastSeqRecvd).toNat ≤ 31 →
        (ack - e.conn.mHighestAckedSeq).toNat ≤
          (e.conn.mLastSendSeq - e.conn.mHighestAckedSeq).toNat →
        h.ackByteCount ≤ maxAckByteCount → h.packetType ≠ .invalidPacketType →
          e.conn.headerAccepted plainContext h = true := by
  intro claim
  have haccepted := claim 0xFFFFFFFE 5 [.checkPacketSend none 7, .checkPacketSend none 8] _
    (.cons trivial rfl (.cons trivial rfl (.nil _))) 6 0xFFFFFFFF (ackHeader 6 0x3FF)
    (by decide) (by decide) (by decide) (by decide) (by decide) (by decide) (by decide)
  exact absurd haccepted (by decide)

end Endpoint

end TNL
