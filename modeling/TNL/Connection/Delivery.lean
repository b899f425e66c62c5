import TNL.Library.Run
import TNL.Connection.LinkInvariant

/-!
# What the notifications of a link mean

A dropped packet is one that is never processed. A received one has had its
header read, and its body processed too as long as no ping or ack packet has
overtaken it: such a packet takes the data packet's number first, and the body
is then discarded although its bit in the ack mask is set.
-/
namespace TNL
open Library

namespace Link
open NetConnection

variable {ν : Type*} {l m : Link ν} {x y : Side} {p : Packet}

/-- What the delivery of a packet amounts to: the read, and the ack packet it may send. -/
theorem deliver_cases {index : ℕ} {ctx : ReadContext}
    (hstep : l.step (.deliver y index ctx) = some m) :
    ∃ p r, (l.packets y.peer)[index]? = some p ∧ l.Fresh p ∧
      (l.conn y).readPacketHeader ctx p.header = some r ∧
      m = (match r.reply with
        | none => l.record y p ((l.conn y).headerAccepted ctx p.header) r
        | some header =>
          (l.record y p ((l.conn y).headerAccepted ctx p.header) r).send y header) := by
  simp only [step] at hstep
  split at hstep
  · exact absurd hstep (by simp)
  · rename_i p hp
    split at hstep
    · rename_i hfresh
      split at hstep
      · exact absurd hstep (by simp)
      · rename_i r hr
        refine ⟨p, r, hp, hfresh, hr, ?_⟩
        cases hreply : r.reply with
        | none =>
          rw [hreply] at hstep
          exact (Option.some.inj hstep).symm
        | some header =>
          rw [hreply] at hstep
          exact (Option.some.inj hstep).symm
    · exact absurd hstep (by simp)

theorem read_sound {ctx : ReadContext} {r : Received ν} (hl : Sound l)
    (hmem : p ∈ l.packets y.peer) (hnear : l.InWindow y.peer p)
    (hread : (l.conn y).readPacketHeader ctx p.header = some r) :
    Sound (match r.reply with
      | none => l.record y p ((l.conn y).headerAccepted ctx p.header) r
      | some header =>
        (l.record y p ((l.conn y).headerAccepted ctx p.header) r).send y header) := by
  obtain ⟨x, rfl⟩ : ∃ x : Side, y = x.peer := ⟨y.peer, y.peer_peer.symm⟩
  rw [Side.peer_peer] at hmem hnear
  cases hacc : (l.conn x.peer).headerAccepted ctx p.header with
  | false =>
    rw [readPacketHeader_rejected hacc] at hread
    obtain rfl := Option.some.inj hread
    simpa [record_rejected] using hl
  | true =>
    have hrecord := record_sound hl hmem hnear hacc hread
    have hp := (hl x).packets p hmem
    obtain ⟨-, -, -, -, -, -, -, hreply⟩ := fields_of_read hl hp hnear hacc hread
    cases hr : r.reply with
    | none => simpa [hr] using hrecord
    | some header =>
      have hsend := send_sound hrecord x.peer .ackPacket (by simp)
      rw [record_conn_peer, ← hreply header hr] at hsend
      simpa [hr] using hsend

theorem deliver_sound {index : ℕ} {ctx : ReadContext} (hl : Sound l)
    (hstep : l.step (.deliver y index ctx) = some m) : Sound m := by
  obtain ⟨p, r, hindex, hfresh, hread, rfl⟩ := deliver_cases hstep
  exact read_sound hl (List.mem_of_getElem? hindex) (hfresh.inWindow y.peer) hread

theorem step_sound {a : Action ν} (hl : Sound l) (ha : l.NoWrap a) (hstep : l.step a = some m) :
    Sound m := by
  cases a with
  | checkPacketSend x cwnd note =>
    simp only [step] at hstep
    split at hstep
    · exact Option.some.inj hstep ▸ hl
    · rename_i hfull
      obtain rfl := Option.some.inj hstep
      have hout := outstanding_lt_of_not_windowFull (Bool.eq_false_iff.mpr hfull)
      have hsend := send_sound (writeDataPacket_sound hl x note hout ha) x .dataPacket
        (by intro _; simp)
      rw [setConn_conn_self, ← writeDataPacket_header] at hsend
      exact hsend
  | sendPingPacket x =>
    obtain rfl := Option.some.inj hstep
    have hsend := send_sound hl x .pingPacket (by simp)
    simpa [writePacketHeader, setConn_self] using hsend
  | sendAckPacket x =>
    obtain rfl := Option.some.inj hstep
    have hsend := send_sound hl x .ackPacket (by simp)
    simpa [writePacketHeader, setConn_self] using hsend
  | deliver y index ctx => exact deliver_sound hl hstep

theorem sound_of_run {initialSendSeq : Side → U32} {as : List (Action ν)}
    (run : Run step NoWrap (start initialSendSeq) as l) : Sound l :=
  run.invariant (I := Sound) (fun _ _ _ hs ha hstep => step_sound hs ha hstep)
    (start_sound initialSendSeq)

/-- Bodies are processed in increasing sequence order, and a packet reported dropped is never
processed. -/
theorem processed_increasing {initialSendSeq : Side → U32} {as : List (Action ν)}
    (run : Run step NoWrap (start initialSendSeq) as l) (x : Side) :
    (l.processed x).Pairwise (fun n k => n.toNat < k.toNat) ∧
      ∀ n ∈ l.notified x, n.recvd = false → n.sequence ∉ l.processed x.peer :=
  ⟨(sound_of_run run x).processed_lt,
    fun n hn hclear => ((sound_of_run run x).notified_dropped n hn hclear).1⟩

/-- Every data packet whose header was read has been processed; the mask bit of the last packet
received says whether its header was read as data. -/
structure ReadsProcessed (l : Link ν) (y : Side) : Prop where
  headers : ∀ n ∈ l.headersRead y, n ∈ l.processed y
  last : (l.conn y).mAckMask.getLsbD 0 = true → (l.conn y).mLastSeqRecvd ∈ l.processed y

theorem record_readsProcessed {ctx : ReadContext} {r : Received ν} (hl : Sound l)
    (hmem : p ∈ l.packets x) (hnear : l.InWindow x p)
    (hacc : (l.conn x.peer).headerAccepted ctx p.header = true)
    (hread : (l.conn x.peer).readPacketHeader ctx p.header = some r)
    (hover : p.isData → p.sequence = (l.conn x.peer).mLastSeqRecvd →
      (l.conn x.peer).mAckMask.getLsbD 0 = true)
    (hy : ReadsProcessed l x.peer) : ReadsProcessed (l.record x.peer p true r) x.peer := by
  have hp := (hl x).packets p hmem
  have hnewer := (sequence_of_accepted hl hp hnear hacc).2
  obtain ⟨hrecvd, -, -, -, hmask, -, hbody, -⟩ := fields_of_read hl hp hnear hacc hread
  -- a data packet is processed now, or its number was the last one and processed before
  have hself : p.isData →
      p.sequence ∈ l.processed x.peer ++ if r.body then [p.sequence] else [] := by
    intro hdata
    by_cases hlast : (l.conn x.peer).mLastSeqRecvd = p.sequence
    · exact List.mem_append_left _ (hlast ▸ hy.last (hover hdata hlast.symm))
    · have : r.body = true := by rw [hbody]; exact decide_eq_true ⟨hlast, hdata⟩
      simp [this]
  constructor
  · intro n hn
    rw [record_headersRead_peer] at hn
    rw [record_processed_peer]
    obtain hold | hnew := List.mem_append.mp hn
    · exact List.mem_append_left _ (hy.headers n hold)
    · split at hnew
      · rename_i h
        obtain rfl := List.mem_singleton.mp hnew
        exact hself h.2
      · simp at hnew
  · rw [record_conn_peer, record_processed_peer, hrecvd, hmask]
    intro hbit
    by_cases hdata : p.isData
    · exact hself hdata
    · -- a packet without data keeps the bit only when it repeats the last number
      unfold Packet.isData at hdata
      simp only [shiftedAckMask, hdata, if_false] at hbit
      generalize hshift : (p.sequence - (l.conn x.peer).mLastSeqRecvd).toNat = shift at hbit
      cases shift with
      | zero =>
        have hlast : (l.conn x.peer).mLastSeqRecvd = p.sequence := by bv_omega
        exact List.mem_append_left _ (hlast ▸ hy.last (by simpa using hbit))
      | succ shift => simp at hbit

theorem step_readsProcessed {a : Action ν} (hl : Sound l) (ha : l.NotOvertaken a)
    (hstep : l.step a = some m) (hy : ∀ y, ReadsProcessed l y) : ∀ y, ReadsProcessed m y := by
  have hsend : ∀ (k : Link ν) (x : Side) (header : PacketHeader), (∀ y, ReadsProcessed k y) →
      ∀ y, ReadsProcessed (k.send x header) y :=
    fun k x header hk y => ⟨(hk y).headers, (hk y).last⟩
  cases a with
  | checkPacketSend x cwnd note =>
    simp only [step] at hstep
    split at hstep
    · exact Option.some.inj hstep ▸ hy
    · obtain rfl := Option.some.inj hstep
      apply hsend
      intro z
      obtain rfl | rfl := Side.eq_or_eq_peer x z
      · exact ⟨(hy z).headers, by simpa using (hy z).last⟩
      · exact ⟨(hy x.peer).headers, by simpa using (hy x.peer).last⟩
  | sendPingPacket x =>
    obtain rfl := Option.some.inj hstep
    exact hsend _ _ _ (by simpa [writePacketHeader, setConn_self] using hy)
  | sendAckPacket x =>
    obtain rfl := Option.some.inj hstep
    exact hsend _ _ _ (by simpa [writePacketHeader, setConn_self] using hy)
  | deliver y index ctx =>
    obtain ⟨p, r, hindex, hfresh, hread, rfl⟩ := deliver_cases hstep
    have hmem : p ∈ l.packets y.peer := List.mem_of_getElem? hindex
    have hover := ha p hindex
    obtain ⟨x, rfl⟩ : ∃ x : Side, y = x.peer := ⟨y.peer, y.peer_peer.symm⟩
    rw [Side.peer_peer] at hmem
    have hrecord : ∀ z, ReadsProcessed
        (l.record x.peer p ((l.conn x.peer).headerAccepted ctx p.header) r) z := by
      cases hacc : (l.conn x.peer).headerAccepted ctx p.header with
      | false =>
        rw [readPacketHeader_rejected hacc] at hread
        obtain rfl := Option.some.inj hread
        simpa [record_rejected] using hy
      | true =>
        intro z
        obtain rfl | rfl := Side.eq_or_eq_peer x z
        · exact ⟨by simpa using (hy z).headers, by simpa using (hy z).last⟩
        · exact record_readsProcessed hl hmem (hfresh.inWindow x) hacc hread
            (fun hdata hlast => hover hdata hacc hlast) (hy x.peer)
    cases r.reply with
    | none => exact hrecord
    | some header => exact hsend _ _ _ hrecord

/-- When no data packet is overtaken by a packet that repeats its number, a data packet reported
received has been processed by the peer. -/
theorem processed_of_notified {initialSendSeq : Side → U32} {as : List (Action ν)}
    (run : Run step (fun l a => l.NoWrap a ∧ l.NotOvertaken a) (start initialSendSeq) as l)
    (x : Side) (n : Notification ν) (hn : n ∈ l.notified x) (hset : n.recvd = true) :
    n.sequence ∈ l.processed x.peer := by
  have hsound := sound_of_run (run.mono (fun _ _ h => h.1))
  have hreads : ∀ y, ReadsProcessed l y :=
    run.invariant_along (I := fun l => ∀ y, ReadsProcessed l y) (J := Sound)
      (fun _ _ _ hs ha hstep => step_sound hs ha.1 hstep)
      (fun _ _ _ hs hy ha hstep => step_readsProcessed hs ha.2 hstep hy)
      (start_sound initialSendSeq) (fun y => ⟨by simp [start], by simp [start, connected]⟩)
  exact (hreads x.peer).headers _ ((hsound x).notified_recvd n hn hset)

/-- A data packet and a ping of the initiator that arrive in order, and an ack that comes back. -/
def inOrder : List (Action ℕ) :=
  [.checkPacketSend .initiator none 7, .sendPingPacket .initiator,
    .deliver .host 0 Endpoint.plainContext, .deliver .host 1 Endpoint.plainContext,
    .sendAckPacket .host, .deliver .initiator 1 Endpoint.plainContext]

theorem processed_increasing_inOrder : ∃ l : Link ℕ,
    exec step (start (fun _ => 0)) inOrder = some l ∧ l.processed .host = [1] ∧
      (l.processed .host).Pairwise (fun n k => n.toNat < k.toNat) := by
  obtain ⟨l, run, hproc⟩ : ∃ l : Link ℕ, Run step NoWrap (start (fun _ => 0)) inOrder l ∧
      l.processed .host = [1] := by
    refine ⟨_, .cons (by decide) rfl (.cons trivial rfl (.cons trivial rfl (.cons trivial rfl
      (.cons trivial rfl (.cons trivial rfl (.nil _)))))), by decide⟩
  exact ⟨l, run.exec_eq, hproc, (processed_increasing run .host).1⟩

theorem processed_of_notified_inOrder : ∃ l : Link ℕ,
    exec step (start (fun _ => 0)) inOrder = some l ∧ ⟨1, true, 7⟩ ∈ l.notified .initiator ∧
      (1 : U32) ∈ l.processed .host := by
  obtain ⟨l, run, hnote⟩ : ∃ l : Link ℕ,
      Run step (fun l a => l.NoWrap a ∧ l.NotOvertaken a) (start (fun _ => 0)) inOrder l ∧
        ⟨1, true, 7⟩ ∈ l.notified .initiator := by
    refine ⟨_, .cons (by decide) rfl (.cons (by decide) rfl (.cons (by decide) rfl
      (.cons (by decide) rfl (.cons (by decide) rfl (.cons (by decide) rfl (.nil _)))))), ?_⟩
    decide
  exact ⟨l, run.exec_eq, hnote, processed_of_notified run .initiator ⟨1, true, 7⟩ hnote rfl⟩

/-- The ping arrives first. The host answers it with a clear bit in a packet that is lost, discards
the body of the data packet and then reports it received. -/
theorem overtaken_notified :
    ¬ ∀ (initialSendSeq : Side → U32) (as : List (Action ℕ)) (l : Link ℕ),
      Run step NoWrap (start initialSendSeq) as l → ∀ x, ∀ n ∈ l.notified x,
        n.recvd = true → n.sequence ∈ l.processed x.peer := by
  intro claim
  have lost := claim (fun _ => 0)
    [.checkPacketSend .initiator none 7, .sendPingPacket .initiator,
      .deliver .host 1 Endpoint.plainContext, .deliver .host 0 Endpoint.plainContext,
      .sendAckPacket .host, .deliver .initiator 1 Endpoint.plainContext] _
    (.cons (by decide) rfl (.cons trivial rfl (.cons trivial rfl (.cons trivial rfl
      (.cons trivial rfl (.cons trivial rfl (.nil _))))))) .initiator ⟨1, true, 7⟩ (by decide) rfl
  exact absurd lost (by decide)

end Link

end TNL
