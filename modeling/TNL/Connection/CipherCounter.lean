import TNL.Connection.NotifyQueue

/-!
# The cipher counters of an endpoint

Every packet of an encrypted connection is encrypted under a counter made of
`mLastSendSeq`, `mLastSeqRecvd` and the packet type. Only data packets advance
the first of them, so pings and acks repeat their counters.
-/
namespace TNL
open Library

/-- The third counter value. -/
def NetPacketType.value : NetPacketType → U32
  | .dataPacket => 0
  | .pingPacket => 1
  | .ackPacket => 2
  | .invalidPacketType => 3

/-- What `writeRawPacket` passes to `setupCounter` for a packet, besides a zero. -/
structure PacketCounter where
  mLastSendSeq : U32
  mLastSeqRecvd : U32
  packetType : NetPacketType
  deriving DecidableEq

namespace PacketCounter

/-- The words of `mCounter` after `setupCounter`; the key stream of a packet starts from these. -/
def setupCounter (mInitVector : Fin 4 → U32) (counter : PacketCounter) : List U32 :=
  [mInitVector 0 + counter.mLastSendSeq, mInitVector 1 + counter.mLastSeqRecvd,
    mInitVector 2 + counter.packetType.value, mInitVector 3 + 0]

def isData (counter : PacketCounter) : Bool := counter.packetType = .dataPacket

theorem value_inj {t u : NetPacketType} (h : t.value = u.value) : t = u := by
  cases t <;> cases u <;> first | rfl | exact absurd h (by decide)

theorem setupCounter_inj {mInitVector : Fin 4 → U32} {p q : PacketCounter} :
    p.setupCounter mInitVector = q.setupCounter mInitVector ↔ p = q := by
  constructor
  · intro h
    simp only [setupCounter, List.cons.injEq, BitVec.add_right_inj, and_true] at h
    cases p
    cases q
    simp only [mk.injEq]
    exact ⟨h.1, h.2.1, value_inj h.2.2⟩
  · exact congrArg _

end PacketCounter

/-- One side of an encrypted connection with the counters of all packets it has sent. -/
structure CipherEndpoint (ν : Type*) where
  conn : NetConnection ν
  sent : List PacketCounter

namespace CipherEndpoint
open NetConnection

variable {ν : Type*}

def start (initialSendSeq initialRecvSeq : U32) : CipherEndpoint ν :=
  ⟨connected initialSendSeq initialRecvSeq, []⟩

/-- The end of `writeRawPacket`, in the state after the header has been written. -/
def encrypt (e : CipherEndpoint ν) (conn : NetConnection ν) (packetType : NetPacketType) :
    CipherEndpoint ν :=
  ⟨conn, e.sent ++ [⟨conn.mLastSendSeq, conn.mLastSeqRecvd, packetType⟩]⟩

/-- Reading a header may send an ack packet. -/
def step (e : CipherEndpoint ν) : Endpoint.Action ν → Option (CipherEndpoint ν)
  | .checkPacketSend cwnd note =>
    if e.conn.windowFull cwnd then some e
    else some (e.encrypt (e.conn.writeDataPacket note).2 .dataPacket)
  | .sendPingPacket => some (e.encrypt (e.conn.writePacketHeader .pingPacket).2 .pingPacket)
  | .sendAckPacket => some (e.encrypt (e.conn.writePacketHeader .ackPacket).2 .ackPacket)
  | .readPacketHeader ctx h =>
    (e.conn.readPacketHeader ctx h).map (fun r =>
      match r.reply with
      | some _ => e.encrypt r.conn .ackPacket
      | none => { e with conn := r.conn })

def dataCount (counters : List PacketCounter) : ℕ := counters.countP PacketCounter.isData

/-- The send sequences count the data packets. -/
structure Numbered (initialSendSeq : U32) (e : CipherEndpoint ν) : Prop where
  last : e.conn.mLastSendSeq = initialSendSeq + BitVec.ofNat 32 (dataCount e.sent)
  each : ∀ i p, e.sent[i]? = some p →
    p.mLastSendSeq = initialSendSeq + BitVec.ofNat 32 (dataCount (e.sent.take (i + 1)))

variable {initialSendSeq initialRecvSeq : U32} {e f : CipherEndpoint ν}
  {as : List (Endpoint.Action ν)}

theorem Numbered.encrypt (he : Numbered initialSendSeq e) {conn : NetConnection ν}
    {packetType : NetPacketType} (hlast : conn.mLastSendSeq = initialSendSeq + BitVec.ofNat 32
      (dataCount (e.encrypt conn packetType).sent)) :
    Numbered initialSendSeq (e.encrypt conn packetType) := by
  constructor
  · exact hlast
  · intro i p hp
    by_cases hi : i < e.sent.length
    · have hold : e.sent[i]? = some p := by
        rw [← hp]
        exact (List.getElem?_append_left hi).symm
      have htake : (e.encrypt conn packetType).sent.take (i + 1) = e.sent.take (i + 1) :=
        List.take_append_of_le_length hi
      rw [htake]
      exact he.each i p hold
    · have hlen : (e.encrypt conn packetType).sent.length = e.sent.length + 1 := by
        simp [CipherEndpoint.encrypt]
      have hlt := (List.getElem?_eq_some_iff.mp hp).1
      have hlasti : i = e.sent.length := by omega
      subst hlasti
      have hp' : p = ⟨conn.mLastSendSeq, conn.mLastSeqRecvd, packetType⟩ := by
        have hnew := hp
        simp only [CipherEndpoint.encrypt, List.getElem?_concat_length, Option.some.injEq] at hnew
        exact hnew.symm
      rw [List.take_of_length_le (by omega), hp']
      exact hlast

theorem Numbered.write (he : Numbered initialSendSeq e) {conn : NetConnection ν}
    {packetType : NetPacketType} (htype : packetType ≠ .dataPacket)
    (hsame : conn.mLastSendSeq = e.conn.mLastSendSeq) :
    Numbered initialSendSeq (e.encrypt conn packetType) := by
  apply he.encrypt
  have hcount : dataCount (e.encrypt conn packetType).sent = dataCount e.sent := by
    simp [CipherEndpoint.encrypt, dataCount, PacketCounter.isData, htype]
  rw [hcount, hsame, he.last]

/-- Reading a header leaves the send sequence. -/
theorem readPacketHeader_mLastSendSeq {c : NetConnection ν} {ctx : ReadContext} {h : PacketHeader}
    {r : Received ν} (hr : c.readPacketHeader ctx h = some r) :
    r.conn.mLastSendSeq = c.mLastSendSeq := by
  cases hacc : c.headerAccepted ctx h with
  | false =>
    rw [readPacketHeader_rejected hacc] at hr
    obtain rfl := Option.some.inj hr
    rfl
  | true =>
    by_cases hcount : (c.packetHighestAck h - c.mHighestAckedSeq).toNat ≤ c.mNotifyQueue.length
    · rw [readPacketHeader_accepted hacc hcount] at hr
      obtain rfl := Option.some.inj hr
      rfl
    · rw [readPacketHeader_faults hacc (not_le.mp hcount)] at hr
      cases hr

theorem Numbered.step {a : Endpoint.Action ν} (he : Numbered initialSendSeq e)
    (hstep : e.step a = some f) : Numbered initialSendSeq f := by
  cases a with
  | checkPacketSend cwnd note =>
    cases hfull : e.conn.windowFull cwnd with
    | true =>
      simp only [CipherEndpoint.step, hfull, if_true] at hstep
      obtain rfl := Option.some.inj hstep
      exact he
    | false =>
      simp only [CipherEndpoint.step, hfull] at hstep
      obtain rfl := Option.some.inj hstep
      apply he.encrypt
      have hcount : dataCount (e.encrypt (e.conn.writeDataPacket note).2 .dataPacket).sent =
          dataCount e.sent + 1 := by
        simp [CipherEndpoint.encrypt, dataCount, PacketCounter.isData]
      rw [hcount, writeDataPacket_mLastSendSeq, he.last]
      bv_omega
  | sendPingPacket =>
    obtain rfl := Option.some.inj hstep
    exact he.write (by decide) rfl
  | sendAckPacket =>
    obtain rfl := Option.some.inj hstep
    exact he.write (by decide) rfl
  | readPacketHeader ctx h =>
    obtain ⟨r, hr, hf⟩ := Option.map_eq_some_iff.mp hstep
    have hsend := readPacketHeader_mLastSendSeq hr
    cases hreply : r.reply with
    | some reply =>
      simp only [hreply] at hf
      subst hf
      exact he.write (by decide) hsend
    | none =>
      simp only [hreply] at hf
      subst hf
      exact ⟨hsend.trans he.last, he.each⟩

theorem numbered_of_run
    (run : Run step (fun _ _ => True) (start initialSendSeq initialRecvSeq) as e) :
    Numbered initialSendSeq e := by
  apply run.invariant (I := Numbered initialSendSeq)
  · exact fun e a f he _ hstep => he.step hstep
  · constructor
    · simp [start, connected, dataCount]
    · intro i p hp
      simp [start] at hp

/-- Between two packets the data packets sent are those after the first, up to the second. -/
theorem dataCount_between {l : List PacketCounter} {i j : ℕ} (hij : i < j) :
    dataCount (l.take (j + 1)) =
      dataCount (l.take (i + 1)) + dataCount ((l.drop (i + 1)).take (j - i)) := by
  have hsplit : l.take (j + 1) = l.take (i + 1) ++ (l.drop (i + 1)).take (j - i) := by
    rw [show j + 1 = i + 1 + (j - i) by omega, List.take_add]
  rw [hsplit, dataCount, List.countP_append]
  rfl

/-- Two packets have one cipher counter exactly when they are pings, or acks, with no data packet
sent between them and the same last sequence received. -/
theorem setupCounter_eq_iff
    (run : Run step (fun _ _ => True) (start initialSendSeq initialRecvSeq) as e)
    (hfew : dataCount e.sent < 2 ^ 32) (mInitVector : Fin 4 → U32) {i j : ℕ} (hij : i < j)
    {p q : PacketCounter} (hp : e.sent[i]? = some p) (hq : e.sent[j]? = some q) :
    p.setupCounter mInitVector = q.setupCounter mInitVector ↔
      p.packetType = q.packetType ∧ p.packetType ≠ .dataPacket ∧
        p.mLastSeqRecvd = q.mLastSeqRecvd ∧
          ∀ k r, i < k → k < j → e.sent[k]? = some r → r.packetType ≠ .dataPacket := by
  have he := numbered_of_run run
  have hpseq := he.each i p hp
  have hqseq := he.each j q hq
  have hbetween := dataCount_between (l := e.sent) hij
  have hlej : dataCount (e.sent.take (j + 1)) ≤ dataCount e.sent :=
    (List.take_sublist _ _).countP_le
  -- the send sequences agree when no data packet comes after the first, up to the second
  have hseq : p.mLastSendSeq = q.mLastSendSeq ↔
      dataCount ((e.sent.drop (i + 1)).take (j - i)) = 0 := by
    rw [hpseq, hqseq]
    constructor
    · intro h
      bv_omega
    · intro h
      rw [hbetween, h]
      rfl
  have hnone : dataCount ((e.sent.drop (i + 1)).take (j - i)) = 0 ↔
      ∀ k r, i < k → k ≤ j → e.sent[k]? = some r → r.packetType ≠ .dataPacket := by
    rw [dataCount, List.countP_eq_zero]
    constructor
    · intro h k r hik hkj hr
      have hmem : r ∈ (e.sent.drop (i + 1)).take (j - i) := by
        apply List.mem_of_getElem? (i := k - (i + 1))
        rw [List.getElem?_take_of_lt (by omega), List.getElem?_drop,
          show i + 1 + (k - (i + 1)) = k by omega, hr]
      simpa [PacketCounter.isData] using h r hmem
    · intro h r hmem
      obtain ⟨n, hn⟩ := List.mem_iff_getElem?.mp hmem
      have hlt : n < j - i := by
        have := (List.getElem?_eq_some_iff.mp hn).1
        rw [List.length_take] at this
        omega
      rw [List.getElem?_take_of_lt hlt, List.getElem?_drop] at hn
      simpa [PacketCounter.isData] using h (i + 1 + n) r (by omega) (by omega) hn
  rw [PacketCounter.setupCounter_inj]
  constructor
  · rintro rfl
    have hall := hnone.mp (hseq.mp rfl)
    exact ⟨rfl, hall j p hij le_rfl hq, rfl, fun k r hik hkj => hall k r hik hkj.le⟩
  · rintro ⟨htype, hping, hrecvd, hclear⟩
    have hsend : p.mLastSendSeq = q.mLastSendSeq := by
      rw [hseq, hnone]
      intro k r hik hkj hr
      rcases hkj.lt_or_eq with hlt | rfl
      · exact hclear k r hik hlt hr
      · rw [hq] at hr
        rw [← Option.some.inj hr, ← htype]
        exact hping
    cases p
    cases q
    simp only [PacketCounter.mk.injEq]
    exact ⟨hsend, hrecvd, htype⟩

/-- A ping, a data packet and a ping. -/
theorem setupCounter_eq_iff_pings : ∃ (e : CipherEndpoint ℕ) (p q : PacketCounter),
    exec step (start 0 0) [.sendPingPacket, .checkPacketSend none 7, .sendPingPacket] = some e ∧
      e.sent[0]? = some p ∧ e.sent[2]? = some q ∧
      (p.setupCounter (fun _ => 0) = q.setupCounter (fun _ => 0) ↔
        p.packetType = q.packetType ∧ p.packetType ≠ .dataPacket ∧
          p.mLastSeqRecvd = q.mLastSeqRecvd ∧
            ∀ k r, 0 < k → k < 2 → e.sent[k]? = some r → r.packetType ≠ .dataPacket) := by
  obtain ⟨e, hexec, hsent⟩ : ∃ e : CipherEndpoint ℕ,
      exec step (start 0 0) [.sendPingPacket, .checkPacketSend none 7, .sendPingPacket] = some e ∧
        e.sent = [⟨0, 0, .pingPacket⟩, ⟨1, 0, .dataPacket⟩, ⟨1, 0, .pingPacket⟩] := ⟨_, rfl, rfl⟩
  have hp : e.sent[0]? = some ⟨0, 0, .pingPacket⟩ := by rw [hsent]; rfl
  have hq : e.sent[2]? = some ⟨1, 0, .pingPacket⟩ := by rw [hsent]; rfl
  have hfew : dataCount e.sent < 2 ^ 32 := by rw [hsent]; decide
  exact ⟨e, _, _, hexec, hp, hq,
    setupCounter_eq_iff (Run.of_exec hexec) hfew (fun _ => 0) (by decide) hp hq⟩

/-- Two pings in a row. -/
theorem pings_share_counter :
    ¬ ∀ (initialSendSeq initialRecvSeq : U32) (as : List (Endpoint.Action ℕ))
      (e : CipherEndpoint ℕ),
      Run step (fun _ _ => True) (start initialSendSeq initialRecvSeq) as e →
        ∀ mInitVector, (e.sent.map (PacketCounter.setupCounter mInitVector)).Nodup := by
  intro claim
  have hnodup := claim 0 0 [.sendPingPacket, .sendPingPacket] _
    (.cons trivial rfl (.cons trivial rfl (.nil _))) (fun _ => 0)
  exact absurd hnodup (by decide)

end CipherEndpoint

end TNL
