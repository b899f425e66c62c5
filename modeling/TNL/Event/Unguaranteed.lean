import Mathlib.Data.List.Basic
import Mathlib.Data.List.Flatten
import TNL.Event.EventNetwork
import TNL.Event.OrderedRun

/-!
# Unguaranteed events arrive at most once and in order

Each unguaranteed event posted is written into at most one packet: what has been
written and what is left in the queue is what was posted. Bodies are processed
in the order of their packets, each at most once, so the events processed are
among those written, in their order.
-/
namespace TNL
open Library BitStream

namespace EventConnection

variable {ε σ : Type*} {P : EventParameters} {E : EventClass ε σ} {fromServer : Bool}
  {R : σ → σ → Prop} {c : EventConnection ε}

@[simp] theorem unguaranteed_append (a b : List ε) :
    unguaranteed E (a ++ b) = unguaranteed E a ++ unguaranteed E b :=
  List.filter_append ..

/-- Ordered records leave what has been processed. -/
theorem readRecords_keeps {next q : ℤ} {fuel : ℕ} {r result : Reading ε σ}
    (h : readRecords next P E fromServer fuel false q r = some result) :
    result.processed = r.processed := by
  induction fuel generalizing q r with
  | zero => simp [readRecords] at h
  | succ fuel ih =>
    rw [readRecords] at h
    simp only [Bool.false_and, Bool.false_eq_true, if_false, Bool.not_false, Bool.true_and] at h
    cases hbit : r.w.stream.readFlag.1 with
    | false =>
      simp only [hbit, Bool.not_false, if_true] at h
      obtain rfl := Option.some.inj h
      rfl
    | true =>
      simp only [hbit, Bool.not_true, Bool.false_eq_true, if_false] at h
      cases hread : readEvent P E fromServer
          ⟨(readSeq q r.w.stream.readFlag.2).2, r.w.side⟩ with
      | none =>
        simp only [hread] at h
        obtain rfl := Option.some.inj h
        rfl
      | some decoded =>
        simp only [hread] at h
        exact (ih h).trans rfl

/-- The unordered part of an event section at position `p`. -/
def unorderedBits (P : EventParameters) (E : EventClass ε σ) (unordered : List (EventNote ε))
    (side : σ) (p : ℕ) : List Bool :=
  checksumBits P ++ ((eventCode P E unorderedFlags).encode none unordered side
    (p + (checksumBits P).length) ++ [false])

/-- Whatever follows its unordered part, a packet processes exactly the events there. -/
theorem readPacket_processed (hcodec : Codec P E fromServer R) {unordered : List (EventNote ε)}
    {side : σ} {p fuel : ℕ} {w : PackStream σ} {result : ReadResult ε σ} (hR : R side w.side)
    (hfuel : unordered.length < fuel) (h : w.stream.Ahead (unorderedBits P E unordered side p))
    (hread : c.readPacket P E fromServer fuel w = some result) :
    result.processed = unordered.map EventNote.mEvent := by
  have hchecksum : (if P.mDebugObjectSizes then (w.stream.readInt 32).2 else w.stream) =
      w.stream.advanceBitPosition (checksumBits P).length := by
    unfold unorderedBits checksumBits at h
    unfold checksumBits
    cases hdebug : P.mDebugObjectSizes with
    | false => rfl
    | true =>
      rw [hdebug, if_pos rfl] at h
      rw [if_pos rfl, if_pos rfl, h.readInt, intBits_length]
  obtain ⟨extra, rfl⟩ : ∃ extra, fuel = unordered.length + (extra + 1) :=
    ⟨fuel - (unordered.length + 1), by omega⟩
  have hrest := h.skip _ rfl
  obtain ⟨peer, -, hunordered⟩ := readRecords_unordered hcodec c.mNextRecvEventSeq (-2) (extra + 1)
    none unordered side (p + (checksumBits P).length)
    ⟨⟨w.stream.advanceBitPosition (checksumBits P).length, w.side⟩,
      ([], c.mWaitSeqEvents), [], [], false⟩ hR hrest
  have hflag := hrest.skip _ rfl
  rw [readRecords_switch hflag] at hunordered
  obtain ⟨r, hr, hprocessed⟩ : ∃ r, readRecords c.mNextRecvEventSeq P E fromServer
      (unordered.length + (extra + 1)) true (-2)
      ⟨⟨w.stream.advanceBitPosition (checksumBits P).length, w.side⟩,
        ([], c.mWaitSeqEvents), [], [], false⟩ =
      readRecords c.mNextRecvEventSeq P E fromServer (extra + 1) false (-2) r ∧
        r.processed = unordered.map EventNote.mEvent :=
    ⟨_, hunordered, by simp [Reading.processAll]⟩
  simp only [readPacket, hchecksum, hr] at hread
  cases hordered : readRecords c.mNextRecvEventSeq P E fromServer (extra + 1) false (-2) r with
  | none => simp [hordered] at hread
  | some last =>
    rw [← hprocessed, ← readRecords_keeps hordered]
    simp only [hordered] at hread
    split_ifs at hread
    · obtain rfl := Option.some.inj hread
      rfl
    · obtain rfl := Option.some.inj hread
      rfl

/-- A packet begins with its unordered part, if the unordered events fit. -/
theorem writePacket_begins {limit : ℕ} {w : PackStream σ} (hroom : Room limit 128 w.stream)
    (hfits : c.UnorderedFits P E limit w.stream.mBufSize w.side w.stream.bitNum) :
    ∃ mid, w.stream.Wrote (unorderedBits P E (c.writePacket P E w).unordered w.side
        w.stream.bitNum) mid ∧ mid.Extends (c.writePacket P E w).w.stream := by
  obtain ⟨hchecksum, hside, -⟩ := afterChecksum_wrote (P := P) hroom
  obtain ⟨hfirst, hflag, hsecond, hend, -⟩ := loops_spec (c := c) (P := P) (E := E) hroom
  have hwrote := hfirst.wrote (by
    rw [hside, hchecksum.position, hchecksum.size]
    exact hfits)
  rw [hside, hchecksum.position] at hwrote
  exact ⟨_, hchecksum.append (hwrote.append hflag), hsecond.extends_.trans hend.toExtends⟩

theorem length_le_unorderedBits (unordered : List (EventNote ε)) (side : σ) (p : ℕ) :
    unordered.length ≤ (unorderedBits P E unordered side p).length := by
  have := length_le_encode (P := P) (E := E) unorderedFlags none unordered side
    (p + (checksumBits P).length)
  simp only [unorderedBits, List.length_append]
  omega

/-- Neither notification changes which unguaranteed events are queued. -/
theorem handleNotify_unguaranteed (n : Notification (List (EventNote ε))) :
    unguaranteed E ((c.handleNotify E n).mUnorderedSendEventQueue.map EventNote.mEvent) =
      unguaranteed E (c.mUnorderedSendEventQueue.map EventNote.mEvent) := by
  unfold handleNotify
  split_ifs
  · rfl
  · have hnone : unguaranteed E ((n.note.filter fun n =>
        E.mGuaranteeType n.mEvent = .guaranteed).reverse.map EventNote.mEvent) = [] := by
      apply List.filter_eq_nil_iff.mpr
      intro e he
      obtain ⟨note, hnote, rfl⟩ := List.mem_map.mp he
      have htype := of_decide_eq_true (List.mem_filter.mp (List.mem_reverse.mp hnote)).2
      simp [htype]
    simp only [packetDropped, List.map_append, unguaranteed_append, hnone, List.nil_append]

theorem handleNotify_foldl_unguaranteed (notified : List (Notification (List (EventNote ε)))) :
    unguaranteed E ((notified.foldl (handleNotify E) c).mUnorderedSendEventQueue.map
        EventNote.mEvent) =
      unguaranteed E (c.mUnorderedSendEventQueue.map EventNote.mEvent) := by
  induction notified generalizing c with
  | nil => rfl
  | cons n notified ih =>
    rw [List.foldl_cons, ih]
    exact handleNotify_unguaranteed n

/-- A posted event is queued last. -/
theorem postNetEvent_unguaranteed (event : ε) :
    unguaranteed E ((c.postNetEvent E event).mUnorderedSendEventQueue.map EventNote.mEvent) =
      unguaranteed E (c.mUnorderedSendEventQueue.map EventNote.mEvent) ++
        unguaranteed E [event] := by
  unfold postNetEvent
  split_ifs with htype
  · simp [unguaranteed, htype]
  · simp

end EventConnection

namespace Link
open NetConnection

variable {ν : Type*} {l m : Link ν} {x y : Side}

/-- What a side has sent since: at most one packet, numbered by the last send sequence. -/
def Sends (l m : Link ν) (x : Side) : Prop :=
  m.packets x = l.packets x ∨
    ∃ q, m.packets x = l.packets x ++ [q] ∧ q.sequence = (m.conn x).mLastSendSeq

theorem Sends.refl (l : Link ν) (x : Side) : l.Sends l x := .inl rfl

theorem send_sends (l : Link ν) (y : Side) (header : PacketHeader) (x : Side) :
    l.Sends (l.send y header) x := by
  by_cases hxy : x = y
  · subst hxy
    exact .inr ⟨l.packetOf x header, by simp [send], rfl⟩
  · exact .inl (by simp [send, hxy])

theorem afterRead_sends (l : Link ν) (y : Side) (ctx : ReadContext) (p : Packet)
    (r : Received ν) (x : Side) : l.Sends (l.afterRead y ctx p r) x := by
  unfold afterRead
  cases r.reply with
  | none => exact .inl rfl
  | some header => exact send_sends (l.record y p _ r) y header x

theorem stepAny_sends {a : Action ν} (hstep : l.stepAny a = some m) (x : Side) :
    l.Sends m x := by
  cases a with
  | checkPacketSend y cwnd note =>
    simp only [stepAny, step] at hstep
    split_ifs at hstep
    · obtain rfl := Option.some.inj hstep
      exact .refl l x
    · obtain rfl := Option.some.inj hstep
      exact send_sends (l.setConn y _) y _ x
  | sendPingPacket y =>
    obtain rfl := Option.some.inj hstep
    exact send_sends (l.setConn y _) y _ x
  | sendAckPacket y =>
    obtain rfl := Option.some.inj hstep
    exact send_sends (l.setConn y _) y _ x
  | deliver y index ctx =>
    obtain ⟨p, r, -, -, rfl⟩ := stepAny_deliver.mp hstep
    exact afterRead_sends l y ctx p r x

@[simp] theorem afterRead_conn_peer (l : Link ν) (x : Side) (ctx : ReadContext) (p : Packet)
    (r : Received ν) : (l.afterRead x.peer ctx p r).conn x.peer = r.conn := by
  unfold afterRead
  cases r.reply <;> simp [send]

@[simp] theorem afterRead_conn (l : Link ν) (x : Side) (ctx : ReadContext) (p : Packet)
    (r : Received ν) : (l.afterRead x.peer ctx p r).conn x = l.conn x := by
  unfold afterRead
  cases r.reply <;> simp [send]

/-- A read never takes the last number received back, and an accepted body has a new one. -/
theorem recvd_of_read {p : Packet} {ctx : ReadContext} {r : Received ν} (hl : Sound l)
    (hmem : p ∈ l.packets x) (hnear : l.InWindow x p)
    (hread : (l.conn x.peer).readPacketHeader ctx p.header = some r) :
    (l.conn x.peer).mLastSeqRecvd.toNat ≤ r.conn.mLastSeqRecvd.toNat ∧
      (r.body = true → r.conn.mLastSeqRecvd = p.sequence ∧
        (l.conn x.peer).mLastSeqRecvd.toNat < p.sequence.toNat) := by
  cases hacc : (l.conn x.peer).headerAccepted ctx p.header with
  | false =>
    rw [readPacketHeader_rejected hacc] at hread
    obtain rfl := Option.some.inj hread
    exact ⟨le_rfl, fun hbody => absurd hbody (by simp)⟩
  | true =>
    have hp := (hl x).packets p hmem
    have hle := (sequence_of_accepted hl hp hnear hacc).2
    obtain ⟨hrecvd, -, -, -, -, -, hbody, -⟩ := fields_of_read hl hp hnear hacc hread
    refine ⟨hrecvd ▸ hle, fun h => ⟨hrecvd, ?_⟩⟩
    exact (newer_of_body hle hbody p.sequence (by simp [h])).2

theorem stepAny_recvd {a : Action ν} (hl : Sound l) (ha : l.DeliversInWindow a)
    (hstep : l.stepAny a = some m) (y : Side) :
    (l.conn y).mLastSeqRecvd.toNat ≤ (m.conn y).mLastSeqRecvd.toNat := by
  cases a with
  | checkPacketSend z cwnd note =>
    simp only [stepAny, step] at hstep
    split_ifs at hstep
    · obtain rfl := Option.some.inj hstep
      exact le_rfl
    · obtain rfl := Option.some.inj hstep
      obtain rfl | rfl := Side.eq_or_eq_peer z y <;> simp [send]
  | sendPingPacket z =>
    obtain rfl := Option.some.inj hstep
    simp [send, setConn_self]
  | sendAckPacket z =>
    obtain rfl := Option.some.inj hstep
    simp [send, setConn_self]
  | deliver z index ctx =>
    obtain ⟨p, r, hindex, hread, rfl⟩ := stepAny_deliver.mp hstep
    obtain ⟨x, rfl⟩ : ∃ x : Side, z = x.peer := ⟨z.peer, z.peer_peer.symm⟩
    have hnear := ha p hindex
    rw [Side.peer_peer] at hindex hnear
    obtain rfl | rfl := Side.eq_or_eq_peer x y
    · rw [afterRead_conn]
    · rw [afterRead_conn_peer]
      exact (recvd_of_read hl (List.mem_of_getElem? hindex) hnear hread).1

end Link

namespace EventNetwork
open EventConnection NetConnection

variable {ε σ : Type*} {P : EventParameters} {E : EventClass ε σ} {fresh : σ} {x : Side}
  {l m : EventNetwork ε}

/-- The unguaranteed events in a packet. -/
def carried (E : EventClass ε σ) (bodies : ℕ → Option (PacketBody ε)) (i : ℕ) : List ε :=
  match bodies i with
  | none => []
  | some b => unguaranteed E (b.unordered.map EventNote.mEvent)

structure BodySound (P : EventParameters) (E : EventClass ε σ) (fresh : σ) (b : PacketBody ε) :
    Prop where
  begins : ∃ mid, b.start.stream.Wrote (unorderedBits P E b.unordered fresh b.start.stream.bitNum)
    mid ∧ mid.Extends b.sent
  inside : b.sent.bitNum ≤ maxPacketDataSize * 8

/-- The invariant. The packets processed are among the first `k`, and no later one has a number
the receiver has seen. -/
structure Sound (P : EventParameters) (E : EventClass ε σ) (fresh : σ) (x : Side)
    (l : EventNetwork ε) : Prop where
  link : l.link.Sound
  queue : l.written ++ unguaranteed E (l.sender.mUnorderedSendEventQueue.map EventNote.mEvent) =
    l.posted
  none_of_le : ∀ i, (l.link.packets x).length ≤ i → l.bodies i = none
  bodies : ∀ i b, l.bodies i = some b → BodySound P E fresh b
  written : l.written = (List.range (l.link.packets x).length).flatMap (carried E l.bodies)
  increasing : (l.link.packets x).Pairwise fun p q => p.sequence.toNat ≤ q.sequence.toNat
  processed : ∃ k ≤ (l.link.packets x).length,
    l.processed.Sublist ((List.range k).flatMap (carried E l.bodies)) ∧
      ∀ i < k, ∀ p, (l.link.packets x)[i]? = some p →
        p.sequence.toNat ≤ (l.link.conn x.peer).mLastSeqRecvd.toNat

theorem start_sound (initialSendSeq : Side → U32) :
    Sound P E fresh x (start (ε := ε) initialSendSeq) where
  link := Link.start_sound initialSendSeq
  queue := rfl
  none_of_le _ _ := rfl
  bodies i b h := by cases h
  written := rfl
  increasing := List.Pairwise.nil
  processed := ⟨0, Nat.zero_le _, List.Sublist.refl _, fun i hi => absurd hi (Nat.not_lt_zero i)⟩

/-- The packets of a side stay in the order of their numbers. -/
theorem increasing_of_sends {l m : Link (List (EventNote ε))} (hm : m.Sound)
    (h : (l.packets x).Pairwise fun p q => p.sequence.toNat ≤ q.sequence.toNat)
    (sends : l.Sends m x) :
    (m.packets x).Pairwise fun p q => p.sequence.toNat ≤ q.sequence.toNat := by
  rcases sends with hsame | ⟨q, hpackets, hq⟩
  · rw [hsame]
    exact h
  · have hbound := (hm x).packets
    rw [hpackets] at hbound ⊢
    refine List.pairwise_append.mpr ⟨h, List.pairwise_singleton .., fun p hp r hr => ?_⟩
    obtain rfl := List.mem_singleton.mp hr
    rw [hq]
    exact (hbound p (List.mem_append_left _ hp)).seq_le

/-- The packets there were keep their places. -/
theorem getElem?_of_sends {l m : Link (List (EventNote ε))} (sends : l.Sends m x) {i : ℕ}
    (hi : i < (l.packets x).length) : (m.packets x)[i]? = (l.packets x)[i]? := by
  rcases sends with hsame | ⟨q, hpackets, -⟩
  · rw [hsame]
  · rw [hpackets, List.getElem?_append_left hi]

theorem length_of_sends {l m : Link (List (EventNote ε))} (sends : l.Sends m x) :
    (l.packets x).length ≤ (m.packets x).length := by
  rcases sends with hsame | ⟨q, hpackets, -⟩
  · rw [hsame]
  · simp [hpackets]

/-- The packets there were have the same bodies. -/
theorem flatMap_carried {bodies bodies' : ℕ → Option (PacketBody ε)} {n : ℕ}
    (same : ∀ i < n, bodies' i = bodies i) :
    (List.range n).flatMap (carried E bodies') = (List.range n).flatMap (carried E bodies) := by
  apply List.flatMap_congr
  intro i hi
  rw [carried, carried, same i (List.mem_range.mp hi)]

/-- A step of the link that writes no body of the posting side. -/
theorem Sound.link_step {b : Link.Action (List (EventNote ε))} {link : Link (List (EventNote ε))}
    (h : Sound P E fresh x l) (allowed : l.link.NoWrap b ∧ l.link.DeliversInWindow b)
    (hstep : l.link.stepAny b = some link) : Sound P E fresh x { l with link := link } := by
  have hlink := Link.stepAny_sound h.link allowed hstep
  have sends := Link.stepAny_sends hstep x
  have hlength := length_of_sends sends
  obtain ⟨k, hk, hprocessed, hold⟩ := h.processed
  refine ⟨hlink, h.queue, fun i hi => h.none_of_le i (hlength.trans hi), h.bodies, ?_,
    increasing_of_sends hlink h.increasing sends, k, hk.trans hlength, hprocessed, ?_⟩
  · rw [h.written]
    rcases sends with hsame | ⟨q, hpackets, -⟩
    · rw [hsame]
    · rw [hpackets, List.length_append, List.length_singleton, List.range_succ,
        List.flatMap_append, List.flatMap_singleton, carried, h.none_of_le _ le_rfl,
        List.append_nil]
  · intro i hi p hp
    rw [getElem?_of_sends sends (hi.trans_le hk)] at hp
    exact (hold i hi p hp).trans (Link.stepAny_recvd h.link allowed.2 hstep x.peer)

theorem Sound.post (h : Sound P E fresh x l) (event : ε) :
    Sound P E fresh x { l with
      sender := l.sender.postNetEvent E event
      posted := l.posted ++ unguaranteed E [event] } := by
  refine { h with queue := ?_ }
  rw [postNetEvent_unguaranteed, ← List.append_assoc, h.queue]

theorem Sound.write (h : Sound P E fresh x l) {cwnd : Option ℕ} {start : PacketStart}
    (hfull : (l.link.conn x).windowFull cwnd = false)
    (allowed : l.link.NoWrap (.checkPacketSend x cwnd
      (l.sender.writePacket P E ⟨start.stream, fresh⟩).eventList))
    (hfits : l.sender.UnorderedFits P E (maxPacketDataSize * 8) start.targetPacketSize fresh
      start.header.length) :
    Sound P E fresh x (l.writeRawPacket P E fresh x start) := by
  set r := l.sender.writePacket P E ⟨start.stream, fresh⟩ with hr
  have hstep : l.link.stepAny (.checkPacketSend x cwnd r.eventList) =
      some (l.writeRawPacket P E fresh x start).link := by
    simp [Link.stepAny, Link.step, hfull, writeRawPacket, hr]
  have hlink := Link.stepAny_sound h.link ⟨allowed, trivial⟩ hstep
  have sends := Link.stepAny_sends hstep x
  have hlength := length_of_sends sends
  have hpackets : ((l.writeRawPacket P E fresh x start).link.packets x).length =
      (l.link.packets x).length + 1 := by
    simp [writeRawPacket, Link.send]
  set n := (l.link.packets x).length with hn
  have hbodies : (l.writeRawPacket P E fresh x start).bodies =
      Function.update l.bodies n (some ⟨start, r.unordered, r.w.stream⟩) := rfl
  have hsame : ∀ i < n, (l.writeRawPacket P E fresh x start).bodies i = l.bodies i := by
    intro i hi
    rw [hbodies, Function.update_of_ne hi.ne]
  have hcarried : carried E (l.writeRawPacket P E fresh x start).bodies n =
      unguaranteed E (r.unordered.map EventNote.mEvent) := by
    rw [carried, hbodies, Function.update_self]
  obtain ⟨k, hk, hprocessed, hold⟩ := h.processed
  refine ⟨hlink, ?_, ?_, ?_, ?_, increasing_of_sends hlink h.increasing sends, k, hk.trans hlength,
    ?_, ?_⟩
  · -- what is written comes from the head of the queue
    change (l.written ++ unguaranteed E (r.unordered.map EventNote.mEvent)) ++
      unguaranteed E (r.conn.mUnorderedSendEventQueue.map EventNote.mEvent) = l.posted
    rw [List.append_assoc, ← unguaranteed_append, ← List.map_append, ← writePacket_unordered]
    exact h.queue
  · intro i hi
    rw [hpackets] at hi
    rw [hbodies, Function.update_of_ne (by omega)]
    exact h.none_of_le i (by omega)
  · intro i b hb
    by_cases hi : i = n
    · subst hi
      rw [hbodies, Function.update_self] at hb
      obtain rfl := Option.some.inj hb
      have hposition : start.stream.bitNum = start.header.length := by
        simp [PacketStart.stream, store, packetStream]
      refine ⟨writePacket_begins (w := ⟨start.stream, fresh⟩) start.room ?_,
        writePacket_le_limit start.room⟩
      rw [hposition]
      exact hfits
    · rw [hbodies, Function.update_of_ne hi] at hb
      exact h.bodies i b hb
  · rw [hpackets, List.range_succ, List.flatMap_append, List.flatMap_singleton,
      flatMap_carried hsame, hcarried, ← h.written]
    rfl
  · rw [flatMap_carried fun i hi => hsame i (hi.trans_le hk)]
    exact hprocessed
  · intro i hi p hp
    rw [getElem?_of_sends sends (hi.trans_le hk)] at hp
    exact (hold i hi p hp).trans (Link.stepAny_recvd (a := .checkPacketSend x cwnd r.eventList)
      h.link trivial hstep x.peer)

/-- A body with a new number is processed after all the others. -/
theorem Sound.readBody (hcodec : Codec P E (x = .host) R) (hfresh : R fresh fresh)
    (h : Sound P E fresh x l) {index : ℕ} {memory : ℕ → Bool} {p : Packet}
    (hindex : (l.link.packets x)[index]? = some p)
    (hrecvd : (l.link.conn x.peer).mLastSeqRecvd = p.sequence)
    (hnew : ∃ k ≤ index, l.processed.Sublist ((List.range k).flatMap (carried E l.bodies)))
    (hread : l.readBody P E fresh x index memory = some m) : Sound P E fresh x m := by
  obtain ⟨b, hb, hresult⟩ := Option.bind_eq_some_iff.mp hread
  obtain ⟨result, hpacket, rfl⟩ := Option.map_eq_some_iff.mp hresult
  obtain ⟨⟨mid, hbegins, hextends⟩, hinside⟩ := h.bodies index b hb
  have hdelivered := receivedStream_delivered memory b.start.stream hinside
  have hahead : (receivedStream memory b.start.stream b.sent).Ahead
      (unorderedBits P E b.unordered fresh b.start.stream.bitNum) := by
    have hmid : Delivered b.start.stream mid (receivedStream memory b.start.stream b.sent) := by
      refine ⟨hdelivered.position, hextends.le.trans hdelivered.size, hdelivered.small, ?_⟩
      intro i hi
      rw [hdelivered.bits i (hi.trans_le hextends.le), hextends.kept i hi]
    exact hmid.ahead hbegins
  have hfuel := hahead.inside
  have hlength := length_le_unorderedBits (P := P) (E := E) b.unordered fresh b.start.stream.bitNum
  have hevents := readPacket_processed hcodec hfresh (by omega) hahead hpacket
  obtain ⟨hlt, -⟩ := List.getElem?_eq_some_iff.mp hindex
  obtain ⟨k, hk, hprocessed⟩ := hnew
  refine { h with processed := ⟨index + 1, hlt, ?_, ?_⟩ }
  · have hcarried : carried E l.bodies index = unguaranteed E result.processed := by
      rw [carried, hb, hevents]
    rw [List.range_succ, List.flatMap_append, List.flatMap_singleton, hcarried]
    refine List.Sublist.append (hprocessed.trans ?_) (List.Sublist.refl _)
    exact List.Sublist.flatMap (List.range_sublist.mpr hk) _
  · intro i hi q hq
    rw [hrecvd]
    rcases Nat.lt_succ_iff_lt_or_eq.mp hi with hlow | rfl
    · obtain ⟨hi', rfl⟩ := List.getElem?_eq_some_iff.mp hq
      obtain ⟨-, rfl⟩ := List.getElem?_eq_some_iff.mp hindex
      exact List.pairwise_iff_getElem.mp h.increasing i index hi' hlt hlow
    · rw [hindex] at hq
      exact le_of_eq (congrArg _ (congrArg _ (Option.some.inj hq).symm))

theorem Sound.deliver (hcodec : Codec P E (x = .host) R) (hfresh : R fresh fresh)
    (h : Sound P E fresh x l) {y : Side} {index : ℕ} {ctx : ReadContext} {memory : ℕ → Bool}
    (allowed : l.link.NoWrap (.deliver y index ctx) ∧ l.link.DeliversInWindow (.deliver y index ctx))
    (hstep : l.step P E fresh x (.deliver y index ctx memory) = some m) :
    Sound P E fresh x m := by
  obtain ⟨p, hindex, hstep⟩ := Option.bind_eq_some_iff.mp hstep
  obtain ⟨r, hread, hstep⟩ := Option.bind_eq_some_iff.mp hstep
  have hlink := h.link_step allowed (Link.stepAny_deliver.mpr ⟨p, r, hindex, hread, rfl⟩)
  dsimp only at hstep
  split_ifs at hstep with hy hbody
  · obtain rfl := Option.some.inj hstep
    refine { hlink with queue := ?_ }
    dsimp only
    rw [handleNotify_foldl_unguaranteed]
    exact h.queue
  · obtain rfl : y = x.peer := (Side.eq_or_eq_peer x y).resolve_left hy
    have hnear := allowed.2 p hindex
    rw [Side.peer_peer] at hindex hnear
    have hlt := (List.getElem?_eq_some_iff.mp hindex).1
    obtain ⟨hrecvd, hnew⟩ :=
      (Link.recvd_of_read h.link (List.mem_of_getElem? hindex) hnear hread).2 hbody
    obtain ⟨k, -, hprocessed, hold⟩ := h.processed
    refine hlink.readBody hcodec hfresh (p := p) ?_ ?_ ⟨k, ?_, hprocessed⟩ hstep
    · exact (getElem?_of_sends (Link.afterRead_sends ..) hlt).trans hindex
    · exact (congrArg _ (Link.afterRead_conn_peer ..)).trans hrecvd
    · -- a packet already passed has no new number
      by_contra hlow
      exact absurd (hold index (Nat.lt_of_not_le hlow) p hindex) (Nat.not_le.mpr hnew)
  · obtain rfl := Option.some.inj hstep
    exact hlink

theorem step_sound (hcodec : Codec P E (x = .host) R) (hfresh : R fresh fresh)
    (h : Sound P E fresh x l) {a : Action ε} (guard : Guard P E fresh x l a)
    (hstep : l.step P E fresh x a = some m) : Sound P E fresh x m := by
  obtain ⟨hlink, hfits⟩ := guard
  cases a with
  | postNetEvent event =>
    obtain rfl := Option.some.inj hstep
    exact h.post event
  | checkPacketSend cwnd start =>
    cases hfull : (l.link.conn x).windowFull cwnd with
    | true =>
      simp only [step, hfull, if_true] at hstep
      obtain rfl := Option.some.inj hstep
      exact h
    | false =>
      simp only [step, hfull, Bool.false_eq_true, if_false] at hstep
      obtain rfl := Option.some.inj hstep
      exact h.write hfull (hlink _ rfl).1 (hfits cwnd start rfl)
  | peerPacketSend cwnd =>
    obtain ⟨link, hsend, rfl⟩ := Option.map_eq_some_iff.mp hstep
    exact h.link_step (hlink _ rfl) hsend
  | sendPingPacket y =>
    rw [step] at hstep
    obtain ⟨link, hsend, rfl⟩ := Option.map_eq_some_iff.mp hstep
    exact h.link_step (hlink _ rfl) hsend
  | sendAckPacket y =>
    rw [step] at hstep
    obtain ⟨link, hsend, rfl⟩ := Option.map_eq_some_iff.mp hstep
    exact h.link_step (hlink _ rfl) hsend
  | deliver y index ctx memory => exact h.deliver hcodec hfresh (hlink _ rfl) hstep

/-- The unguaranteed events processed are among those posted, in their order and each at most once.
Each one posted has been written at most once and is otherwise still in the queue, so none is sent
again. -/
theorem unguaranteed_inOrder (hcodec : Codec P E (x = .host) R) (hfresh : R fresh fresh)
    {initialSendSeq : Side → U32} {as : List (Action ε)}
    (run : Run (step P E fresh x) (Guard P E fresh x) (start initialSendSeq) as l) :
    l.processed.Sublist l.posted ∧
      l.written ++ unguaranteed E (l.sender.mUnorderedSendEventQueue.map EventNote.mEvent) =
        l.posted := by
  have h : Sound P E fresh x l := run.invariant
    (fun _ _ _ h guard hstep => step_sound hcodec hfresh h guard hstep) (start_sound initialSendSeq)
  obtain ⟨k, hk, hprocessed, -⟩ := h.processed
  refine ⟨?_, h.queue⟩
  have hwritten : ((List.range k).flatMap (carried E l.bodies)).Sublist l.written := by
    rw [h.written]
    exact List.Sublist.flatMap (List.range_sublist.mpr hk) _
  have hposted : l.written.Sublist l.posted := by
    rw [← h.queue]
    exact List.sublist_append_left ..
  exact hprocessed.trans (hwritten.trans hposted)

/-- The buffer events, sent unguaranteed. -/
def looseEvents : EventClass BufferEvent Unit :=
  { bufferEvents with mGuaranteeType := fun _ => .unguaranteed }

theorem looseEvents_codec : Codec bufferParameters looseEvents true (fun _ _ => True) :=
  ⟨bufferEvents_codec.class_lt, bufferEvents_codec.create, bufferEvents_codec.unpack⟩

/-- The host posts an event, and its packet arrives. -/
def oneEvent (event : BufferEvent) : List (Action BufferEvent) :=
  [.postNetEvent event, .checkPacketSend none EventLink.barePacket,
    .deliver .initiator 0 Endpoint.plainContext fun _ => false]

theorem unguaranteed_inOrder_flag : ∃ l : EventNetwork BufferEvent,
    exec (step bufferParameters looseEvents () .host) (start fun _ => 0) (oneEvent (.flag true)) =
        some l ∧
      l.processed = [.flag true] ∧ l.processed.Sublist l.posted := by
  have hprocessed : (exec (step bufferParameters looseEvents () .host) (start fun _ => 0)
      (oneEvent (.flag true))).map processed = some [.flag true] := by decide +kernel
  obtain ⟨l, hexec, hproc⟩ := Option.map_eq_some_iff.mp hprocessed
  have run : Run (step bufferParameters looseEvents () .host)
      (Guard bufferParameters looseEvents () .host) (start fun _ => 0)
      (oneEvent (.flag true)) l := by
    obtain - | ⟨-, posted, rest⟩ := Run.of_exec hexec
    obtain - | ⟨-, written, rest⟩ := rest
    obtain - | ⟨-, delivered, rest⟩ := rest
    cases rest
    obtain rfl := Option.some.inj posted
    obtain rfl := Option.some.inj written
    refine .cons ⟨by simp [linkAction], by simp⟩ rfl (.cons ⟨?_, ?_⟩ rfl
      (.cons ⟨?_, by simp⟩ delivered (.nil _)))
    · rintro b ⟨⟩
      exact ⟨by decide, trivial⟩
    · rintro cwnd start ⟨⟩
      simp [UnorderedFits, start, new, postNetEvent, looseEvents, bufferEvents, bufferParameters,
        EventLink.barePacket, RecordCode.Fits, eventCode, unorderedFlags, eventSize, holeSize,
        checksumBits, positionAfter, maxPacketDataSize]
    · rintro b ⟨⟩
      exact ⟨trivial, by rintro p ⟨⟩; decide⟩
  exact ⟨l, hexec, hproc, (unguaranteed_inOrder looseEvents_codec trivial run).1⟩

/-- The second buffer is refused, but the event is noted as sent. -/
theorem unguaranteed_truncated :
    ¬ ∀ (as : List (Action BufferEvent)) (l : EventNetwork BufferEvent),
      Run (step bufferParameters looseEvents () .host) (fun _ _ => True) (start fun _ => 0) as l →
        l.processed.Sublist l.posted := by
  intro claim
  have hprocessed : (exec (step bufferParameters looseEvents () .host) (start fun _ => 0)
      (oneEvent (.buffers true true))).map (fun l => (l.processed, l.posted)) =
        some ([.buffers true false], [.buffers true true]) := by decide +kernel
  obtain ⟨l, hexec, hproc⟩ := Option.map_eq_some_iff.mp hprocessed
  have hsublist := claim _ l (.of_exec hexec)
  obtain ⟨hprocessed, hposted⟩ := Prod.mk.inj hproc
  rw [hprocessed, hposted] at hsublist
  exact absurd hsublist (by decide)

end EventNetwork

end TNL
