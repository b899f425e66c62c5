import TNL.Go.GhostCreation
import TNL.Go.OrderedEvents
import TNL.Go.ProcessPacket

/-!
# Malformed packets of the Go port

A read past the end returns zero and the callers do not look at the error. The
header of a packet takes effect before the rest of it is read, and every event
and every record that can be read takes effect at once. So a malformed packet is
without effect only if its header is not admitted, or if it repeats the counters
and has nothing that the connection knows.
-/
namespace TNL.Go
open Library BitReader TNL.Go.NetConnection EventConnection GhostConnection

variable {ε ω τ : Type}

/-- The ids in a list of events none of which is registered. -/
def strayEvents : ℕ → BitReader → List ℕ × BitReader
  | 0, bs => ([], bs)
  | fuel + 1, bs =>
    let (more, bs) := bs.readFlag
    if more then
      let (id, bs) := bs.readRangedUint32 0 1024
      let (ids, bs) := strayEvents fuel bs
      (id :: ids, bs)
    else ([], bs)

/-- The ids in a list of events, whether they are registered or not. -/
def eventIDs (E : EventTypes ε) : ℕ → BitReader → List ℕ
  | 0, _ => []
  | fuel + 1, bs =>
    let (more, bs) := bs.readFlag
    if more then (bs.readRangedUint32 0 1024).1 :: eventIDs E fuel (readEvent E bs).2.2 else []

/-- The sequence numbers that the registered ones in a list of ordered events have. -/
def orderedSequences (E : EventTypes ε) : ℕ → BitReader → List U32 × BitReader
  | 0, bs => ([], bs)
  | fuel + 1, bs =>
    let (more, bs) := bs.readFlag
    if more then
      let (ev, seq, bs) := readEvent E bs
      let (seqs, bs) := orderedSequences E fuel bs
      (if ev.isSome then seq.getD 0 :: seqs else seqs, bs)
    else ([], bs)

/-- A record in a list of ghosts: its id, and the type if it is new. -/
def readStray (bs : BitReader) : (ℕ × Option ℕ) × BitReader :=
  let (ghostID, bs) := bs.readRangedUint32 0 1024
  let (isNew, bs) := bs.readFlag
  if isNew then
    let (typeID, bs) := bs.readRangedUint32 0 1024
    ((ghostID, some typeID), bs)
  else ((ghostID, none), bs)

/-- A record of a type that is not registered, or for a ghost that does not exist. -/
def unknown (R : ObjectTypes ω τ) (ghosts : AList (fun _ : ℕ => ω)) : ℕ × Option ℕ → Bool
  | (_, some typeID) => (R.createObject typeID).isNone
  | (ghostID, none) => (ghosts.lookup ghostID).isNone

/-- The records of a list of ghosts none of which is known. -/
def strayGhosts : ℕ → BitReader → List (ℕ × Option ℕ)
  | 0, _ => []
  | fuel + 1, bs =>
    let (more, bs) := bs.readFlag
    if more then
      let (record, bs) := readStray bs
      record :: strayGhosts fuel bs
    else []

namespace Connection

variable (E : EventTypes ε) (R : ObjectTypes ω τ)

inductive Action (ε ω : Type) where
  | postEvent (ev : ε)
  | objectInScope (obj : ω)
  | change (netID : U32) (obj : ω) (mask : U32)
  | send (packetType : NetPacketType) (sendDelay : ℕ) (order : List U32)
  | receive (data : List UInt8)

/-- What is written behind the header of a data packet. -/
def writeBody (c : Connection ε ω) (bs : BitWriter) (order : List U32) :
    Option (Connection ε ω × BitWriter) :=
  (c.events.writeEvents E bs c.net.lastSendSeq).map (fun (events, bs) =>
    let (ghosts, bs) := c.ghosts.writeGhosts R order bs c.net.lastSendSeq
    ({ c with events := events, ghosts := ghosts }, bs))

def step (c : Connection ε ω) : Action ε ω → Option (Connection ε ω)
  | .postEvent ev => some { c with events := c.events.postEvent E ev }
  | .objectInScope obj => some { c with ghosts := c.ghosts.objectInScope R obj }
  | .change netID obj mask =>
    (c.ghosts.ghostsToClient.lookup netID).map (fun gi => { c with
      ghosts := { c.ghosts with
        ghostsToClient := c.ghosts.ghostsToClient.insert netID { gi with obj, mask } } })
  | .send packetType sendDelay order =>
    let (bs, net) := c.net.writePacketHeader [] packetType sendDelay
    let c := { c with net := net }
    if packetType = .dataPacket then (c.writeBody E R bs order).map Prod.fst else some c
  | .receive data => some (c.processPacket E R (newReader data)).conn

/-- Where the events of a packet start. -/
def bodyOf (bs : BitReader) : BitReader := (ackFields (headerFields bs).2).2

/-- A read ran past the end of the packet, or there is an event or an object in it whose id is not
registered. -/
def Malformed (c : Connection ε ω) (bs : BitReader) : Prop :=
  (c.processPacket E R bs).rest.err = true ∨
    (c.net.admits (headerFields bs).1 = true ∧ (headerFields bs).1.packetType = .dataPacket ∧
      ((∃ id ∈ eventIDs E ((bodyOf bs).rest.length + 1) (bodyOf bs), E.createEvent id = none) ∨
        let ordered := (readQueue E ((bodyOf bs).rest.length + 1) (bodyOf bs)).2
        ∃ id ∈ eventIDs E (ordered.rest.length + 1) ordered, E.createEvent id = none)) ∨
    ∃ record ∈ (c.processPacket E R bs).records, record.isNew = true ∧ record.ghost = none

/-- No notification, no event and no ghost comes from a packet, and the counters stay. -/
structure NoEffect (c : Connection ε ω) (r : Processed ε ω) : Prop where
  outcomes : r.outcomes = []
  events : r.events = []
  records : ∀ record ∈ r.records, record.ghost = none
  lastRecvSeq : r.conn.net.lastRecvSeq = c.net.lastRecvSeq
  highestAckedSeq : r.conn.net.highestAckedSeq = c.net.highestAckedSeq
  ackMask : r.conn.net.ackMask = c.net.ackMask

/-- The events and the ghosts of a packet have nothing that the connection knows: no event without
order is registered, no ordered one is the next, and no record is of a registered type or a ghost
that exists. -/
def Stray (c : Connection ε ω) (bs : BitReader) : Prop :=
  let (unordered, bs) := strayEvents (bs.rest.length + 1) bs
  let (ordered, bs) := orderedSequences E (bs.rest.length + 1) bs
  (∀ id ∈ unordered, E.createEvent id = none) ∧ c.events.nextRecvEventSeq ∉ ordered ∧
    ∀ record ∈ strayGhosts (bs.rest.length + 1) bs, unknown R c.ghosts.ghostsFromRemote record

/-- The header is not admitted, or it repeats both counters and has nothing behind it that the
connection knows. -/
def Harmless (c : Connection ε ω) (bs : BitReader) : Prop :=
  c.net.admits (headerFields bs).1 = false ∨
    (c.net.ahead (headerFields bs).1 = 0 ∧ c.net.newlyAcked (headerFields bs).1 = 0 ∧
      ((headerFields bs).1.packetType = .dataPacket → c.Stray E R (bodyOf bs)))

/-! ### What is read of a packet -/

/-- No ordered event is left that could be processed. -/
def Settled (ec : EventConnection ε) : Prop :=
  ec.receivedEvents.lookup ec.nextRecvEventSeq = none

section body

variable {E R} {bs : BitReader}

theorem readEvent_none (hid : E.createEvent (bs.readRangedUint32 0 1024).1 = none) :
    readEvent E bs = (none, none, (bs.readRangedUint32 0 1024).2) := by
  rw [readEvent]
  dsimp only
  rw [hid]

theorem readEvent_isSome {ev : ε} (hid : E.createEvent (bs.readRangedUint32 0 1024).1 = some ev) :
    (readEvent E bs).1.isSome := by
  rw [readEvent]
  dsimp only
  rw [hid]
  rfl

/-- No event is taken from a list exactly when none of its ids is registered. -/
theorem readQueue_eq_nil_iff (fuel : ℕ) (bs : BitReader) :
    (readQueue E fuel bs).1 = [] ↔ ∀ id ∈ (strayEvents fuel bs).1, E.createEvent id = none := by
  induction fuel generalizing bs with
  | zero => exact ⟨fun _ => List.forall_mem_nil _, fun _ => rfl⟩
  | succ fuel ih =>
    rw [readQueue, strayEvents]
    dsimp only
    cases hmore : bs.readFlag.1 with
    | false => exact ⟨fun _ => List.forall_mem_nil _, fun _ => rfl⟩
    | true =>
      simp only [if_true, List.forall_mem_cons, List.append_eq_nil_iff]
      cases hid : E.createEvent (bs.readFlag.2.readRangedUint32 0 1024).1 with
      | none =>
        rw [readEvent_none hid, ih]
        simp
      | some ev =>
        obtain ⟨read, hread⟩ := Option.isSome_iff_exists.mp (readEvent_isSome hid)
        rw [hread]
        simp

theorem readQueue_stray (fuel : ℕ) (bs : BitReader)
    (hstray : ∀ id ∈ (strayEvents fuel bs).1, E.createEvent id = none) :
    (readQueue E fuel bs).2 = (strayEvents fuel bs).2 := by
  induction fuel generalizing bs with
  | zero => rfl
  | succ fuel ih =>
    rw [strayEvents] at hstray ⊢
    rw [readQueue]
    dsimp only at hstray ⊢
    cases hmore : bs.readFlag.1 with
    | false => rfl
    | true =>
      rw [hmore] at hstray
      obtain ⟨hid, hstray⟩ := List.forall_mem_cons.mp hstray
      rw [if_pos rfl, if_pos rfl, readEvent_none hid]
      exact ih _ hstray

theorem orderedSequences_eq (fuel : ℕ) (bs : BitReader) : orderedSequences E fuel bs =
    ((readQueue E fuel bs).1.map (fun ev => ev.1.getD 0), (readQueue E fuel bs).2) := by
  induction fuel generalizing bs with
  | zero => rfl
  | succ fuel ih =>
    rw [orderedSequences, readQueue]
    dsimp only
    cases bs.readFlag.1 with
    | false => rfl
    | true =>
      rw [if_pos rfl, if_pos rfl, ih]
      cases (readEvent E bs.readFlag.2).1 <;> rfl

theorem lookup_foldl_insert (received : AList (fun _ : U32 => ε)) (events : List (Option U32 × ε))
    {next : U32} (hnext : received.lookup next = none) :
    (events.foldl (fun (received : AList fun _ : U32 => ε) ev =>
      received.insert (ev.1.getD 0) ev.2) received).lookup next = none ↔
        next ∉ events.map (fun ev => ev.1.getD 0) := by
  have hkept : ∀ (events : List (Option U32 × ε)) (received : AList (fun _ : U32 => ε)),
      (received.lookup next).isSome → ((events.foldl (fun (received : AList fun _ : U32 => ε) ev =>
        received.insert (ev.1.getD 0) ev.2) received).lookup next).isSome := by
    intro events
    induction events with
    | nil => exact fun _ h => h
    | cons ev events ih =>
      intro received h
      apply ih
      by_cases hseq : next = ev.1.getD 0
      · rw [hseq, AList.lookup_insert]
        rfl
      · rwa [AList.lookup_insert_ne hseq]
  induction events generalizing received with
  | nil => simpa using hnext
  | cons ev events ih =>
    rw [List.foldl_cons, List.map_cons, List.mem_cons, not_or]
    by_cases hseq : next = ev.1.getD 0
    · have hsome := hkept events (received.insert (ev.1.getD 0) ev.2)
        (by rw [hseq, AList.lookup_insert]; rfl)
      constructor
      · intro hnone
        rw [hnone] at hsome
        exact absurd hsome Bool.false_ne_true
      · exact fun h => absurd hseq h.1
    · exact (ih _ ((AList.lookup_insert_ne hseq).trans hnext)).trans
        ⟨fun h => ⟨hseq, h⟩, fun h => h.2⟩

theorem processReady_eq_nil_iff (fuel : ℕ) (ec : EventConnection ε) :
    (processReady (fuel + 1) ec).2 = [] ↔
      ec.receivedEvents.lookup ec.nextRecvEventSeq = none := by
  rw [processReady]
  cases ec.receivedEvents.lookup ec.nextRecvEventSeq <;> simp

/-- A record without a known ghost leaves the ghosts alone, and the packet behind its ids. -/
theorem readGhost_stray (ghosts : AList (fun _ : ℕ => ω)) (bs : BitReader) :
    (readGhost R ghosts bs = (ghosts, ⟨(readStray bs).1.1, (readStray bs).1.2.isSome, none,
        bs.rest.take (bs.rest.length - (readStray bs).2.rest.length)⟩, (readStray bs).2) ∧
      unknown R ghosts (readStray bs).1 = true) ∨
    ((readGhost R ghosts bs).2.1.ghost ≠ none ∧ unknown R ghosts (readStray bs).1 = false) := by
  rw [readGhost, readStray]
  dsimp only
  generalize bs.readRangedUint32 0 1024 = ghostID
  generalize hflag : ghostID.2.readFlag = isNew
  cases hnew : isNew.1 with
  | true =>
    rw [findGhost, if_pos rfl, if_pos rfl]
    dsimp only [unknown]
    cases hcreated : R.createObject (isNew.2.readRangedUint32 0 1024).1 with
    | none => exact .inl ⟨rfl, rfl⟩
    | some obj => exact .inr ⟨Option.some_ne_none _, rfl⟩
  | false =>
    rw [findGhost, if_neg Bool.false_ne_true, if_neg Bool.false_ne_true]
    dsimp only [unknown]
    cases hfound : ghosts.lookup ghostID.1 with
    | none => exact .inl ⟨rfl, rfl⟩
    | some obj => exact .inr ⟨Option.some_ne_none _, rfl⟩

/-- No ghost is created or updated from a list of records exactly when none is known. -/
theorem readLoop_stray_iff (fuel : ℕ) (ghosts : AList (fun _ : ℕ => ω)) (bs : BitReader) :
    (∀ record ∈ (readLoop R fuel ghosts bs).2.1, record.ghost = none) ↔
      ∀ record ∈ strayGhosts fuel bs, unknown R ghosts record := by
  induction fuel generalizing bs with
  | zero => exact ⟨fun _ => List.forall_mem_nil _, fun _ => List.forall_mem_nil _⟩
  | succ fuel ih =>
    rw [readLoop, strayGhosts]
    dsimp only
    cases hmore : bs.readFlag.1 with
    | false => exact ⟨fun _ => List.forall_mem_nil _, fun _ => List.forall_mem_nil _⟩
    | true =>
      simp only [if_true, List.forall_mem_cons]
      obtain ⟨hghost, hstray⟩ | ⟨hghost, hstray⟩ := readGhost_stray (R := R) ghosts bs.readFlag.2
      · rw [hghost]
        exact and_congr (iff_of_true rfl hstray) (ih _)
      · exact iff_of_false (fun h => hghost h.1) (fun h => Bool.false_ne_true (hstray ▸ h.1))

/-- What the connection makes of the body of a packet in which it knows nothing. -/
theorem stray_iff {c : Connection ε ω} (hsettled : Settled c.events) :
    c.Stray E R bs ↔ (c.events.readEvents E bs).2.1 ++ (c.events.readEvents E bs).2.2.1 = [] ∧
      ∀ record ∈ (c.ghosts.readGhosts R (c.events.readEvents E bs).2.2.2).2.1,
        record.ghost = none := by
  rw [Stray]
  simp only [readEvents, readGhosts, List.append_eq_nil_iff, List.map_eq_nil_iff,
    readQueue_eq_nil_iff, processReady_eq_nil_iff, orderedSequences_eq, readLoop_stray_iff,
    lookup_foldl_insert _ _ hsettled]
  rw [and_assoc]
  refine and_congr_right (fun hstray => ?_)
  rw [readQueue_stray _ _ hstray]

end body

section processPacket

variable {E R} {c : Connection ε ω} {bs : BitReader}

theorem processPacket_net : (c.processPacket E R bs).conn.net = (c.net.readPacketHeader bs).conn ∧
    (c.processPacket E R bs).outcomes = (c.net.readPacketHeader bs).outcomes := by
  rw [processPacket]
  dsimp only
  split <;> exact ⟨foldl_notify_net .., rfl⟩

theorem processPacket_body (houtcomes : (c.net.readPacketHeader bs).outcomes = []) :
    (c.processPacket E R bs).events = (if (c.net.readPacketHeader bs).body then
      (c.events.readEvents E (c.net.readPacketHeader bs).rest).2.1 ++
        (c.events.readEvents E (c.net.readPacketHeader bs).rest).2.2.1 else []) ∧
    (c.processPacket E R bs).records = (if (c.net.readPacketHeader bs).body then
      (c.ghosts.readGhosts R
        (c.events.readEvents E (c.net.readPacketHeader bs).rest).2.2.2).2.1 else []) := by
  rw [processPacket]
  generalize c.net.readPacketHeader bs = r at houtcomes ⊢
  dsimp only
  rw [houtcomes, List.foldl_nil]
  cases r.body with
  | true =>
    rw [if_pos rfl, if_pos rfl, if_pos rfl]
    generalize c.events.readEvents E r.rest = read
    generalize c.ghosts.readGhosts R read.2.2.2 = ghosts
    exact ⟨rfl, rfl⟩
  | false => exact ⟨rfl, rfl⟩

/-- A packet is without effect exactly when it is harmless, as long as no ordered event is left that
could be processed. -/
theorem noEffect_iff (hsettled : Settled c.events) :
    NoEffect c (c.processPacket E R bs) ↔ c.Harmless E R bs := by
  rw [Harmless]
  cases hadmits : c.net.admits (headerFields bs).1 with
  | false =>
    rw [processPacket_rejected E R c bs hadmits]
    exact iff_of_true ⟨rfl, rfl, List.forall_mem_nil _, rfl, rfl, rfl⟩ (.inl rfl)
  | true =>
    have hheader := readPacketHeader_eq c.net bs
    rw [if_pos hadmits] at hheader
    obtain ⟨-, hrecv, hacked, hmask, -, hbody⟩ := c.net.acceptHeader_counters
      (headerFields bs).1.packetType
      (c.net.lastRecvSeq + BitVec.ofNat 32 (c.net.ahead (headerFields bs).1))
      (c.net.highestAckedSeq + BitVec.ofNat 32 (c.net.newlyAcked (headerFields bs).1))
      (ackFields (headerFields bs).2).1 (ackFields (headerFields bs).2).2
    have hrest : (c.net.readPacketHeader bs).rest = bodyOf bs := by rw [hheader]; rfl
    rw [← hheader] at hrecv hacked hmask hbody
    have hnet : (c.processPacket E R bs).conn.net = _ := processPacket_net.1
    have houtcomes : (c.processPacket E R bs).outcomes = _ := processPacket_net.2
    have hahead : c.net.ahead (headerFields bs).1 < 2048 := BitVec.isLt _
    have hnewly : c.net.newlyAcked (headerFields bs).1 < 1024 := BitVec.isLt _
    have hstray : (c.net.readPacketHeader bs).outcomes = [] →
        (((c.processPacket E R bs).events = [] ∧
          ∀ record ∈ (c.processPacket E R bs).records, record.ghost = none) ↔
        ((headerFields bs).1.packetType = .dataPacket → c.Stray E R (bodyOf bs))) := by
      intro hnone
      obtain ⟨hevents, hrecords⟩ := processPacket_body (E := E) (R := R) hnone
      rw [hevents, hrecords, hbody, hrest]
      by_cases hdata : (headerFields bs).1.packetType = .dataPacket
      · rw [if_pos (decide_eq_true hdata), if_pos (decide_eq_true hdata), ← stray_iff hsettled]
        exact ⟨fun h _ => h, fun h => h hdata⟩
      · simp [hdata]
    constructor
    · intro h
      have hrecvSame := h.lastRecvSeq
      have hackedSame := h.highestAckedSeq
      rw [hnet, hrecv] at hrecvSame
      rw [hnet, hacked] at hackedSame
      refine .inr ⟨by bv_omega, by bv_omega, (hstray ?_).mp ⟨h.events, h.records⟩⟩
      rw [← houtcomes, h.outcomes]
    · rintro (hrejected | ⟨hsame, hnone, hbodyStray⟩)
      · exact absurd hrejected (by decide)
      · have hempty : (c.net.readPacketHeader bs).outcomes = [] := by
          rw [hheader, hnone]
          simp [acceptHeader, processAcks]
        obtain ⟨hevents, hrecords⟩ := (hstray hempty).mpr hbodyStray
        refine ⟨houtcomes.trans hempty, hevents, hrecords, ?_, ?_, ?_⟩
        · rw [hnet, hrecv, hsame]
          exact BitVec.add_zero _
        · rw [hnet, hacked, hnone]
          exact BitVec.add_zero _
        · rw [hnet, hmask, hsame, shiftAckMask]
          simp

end processPacket

/-! ### Runs -/

/-- The fields for received events stay. -/
def SameReceived (ec ec' : EventConnection ε) : Prop :=
  ec'.receivedEvents = ec.receivedEvents ∧ ec'.nextRecvEventSeq = ec.nextRecvEventSeq

section settled

variable {E R} {c d : Connection ε ω} {ec ec' : EventConnection ε}

theorem SameReceived.settled (h : SameReceived ec ec') (hec : Settled ec) : Settled ec' := by
  rw [Settled, h.1, h.2]
  exact hec

theorem sameReceived_requeue (note : EventNote ε) : SameReceived ec (requeue E ec note) := by
  rw [requeue]
  split <;> exact ⟨rfl, rfl⟩

theorem sameReceived_onPacketDropped (sequence : U32) :
    SameReceived ec (ec.onPacketDropped E sequence) := by
  have hfold : ∀ (events : List (EventNote ε)) (ec : EventConnection ε),
      SameReceived ec (events.foldl (requeue E) ec) := by
    intro events
    induction events with
    | nil => exact fun ec => ⟨rfl, rfl⟩
    | cons note events ih =>
      intro ec
      have hfirst : SameReceived ec (requeue E ec note) := sameReceived_requeue note
      have hrest := ih (requeue E ec note)
      exact ⟨hrest.1.trans hfirst.1, hrest.2.trans hfirst.2⟩
  rw [onPacketDropped]
  cases ec.sentEvents.lookup sequence with
  | none => exact ⟨rfl, rfl⟩
  | some events => exact hfold events ec

theorem sameReceived_notify (outcomes : List Outcome) :
    SameReceived c.events (outcomes.foldl (notify E) c).events := by
  induction outcomes generalizing c with
  | nil => exact ⟨rfl, rfl⟩
  | cons o outcomes ih =>
    have hfirst : SameReceived c.events (c.notify E o).events := by
      rw [notify]
      split
      · exact ⟨rfl, rfl⟩
      · exact sameReceived_onPacketDropped o.note.sequence
    have hrest := ih (c := c.notify E o)
    exact ⟨hrest.1.trans hfirst.1, hrest.2.trans hfirst.2⟩

theorem sameReceived_writeEvents {bs bs' : BitWriter} {packetSeq : U32}
    (h : ec.writeEvents E bs packetSeq = some (ec', bs')) : SameReceived ec ec' := by
  simp only [writeEvents, Option.bind_eq_bind, Option.bind_eq_some_iff] at h
  obtain ⟨_, -, _, -, heq⟩ := h
  obtain ⟨rfl, -⟩ := Prod.mk.inj (Option.some.inj heq)
  exact ⟨rfl, rfl⟩

/-- The loop at the end of `ReadEvents` stops when the next event is not there. -/
theorem settled_readEvents (bs : BitReader) : Settled (ec.readEvents E bs).1 := by
  rw [Settled, readEvents]
  apply EventStream.processReady_done
  rw [AList.keys, List.keys, List.length_map]
  exact Nat.lt_succ_self _

theorem settled_processPacket (hc : Settled c.events) (bs : BitReader) :
    Settled (c.processPacket E R bs).conn.events := by
  rw [processPacket]
  generalize c.net.readPacketHeader bs = r
  dsimp only
  cases r.body with
  | true => exact settled_readEvents r.rest
  | false => exact (sameReceived_notify r.outcomes).settled hc

theorem settled_step {a : Action ε ω} (hc : Settled c.events) (hstep : c.step E R a = some d) :
    Settled d.events := by
  cases a with
  | postEvent ev =>
    obtain rfl := Option.some.inj hstep
    refine SameReceived.settled ?_ hc
    change SameReceived c.events (c.events.postEvent E ev)
    rw [EventConnection.postEvent]
    split <;> exact ⟨rfl, rfl⟩
  | objectInScope obj =>
    obtain rfl := Option.some.inj hstep
    exact hc
  | change netID obj mask =>
    obtain ⟨gi, -, rfl⟩ := Option.map_eq_some_iff.mp hstep
    exact hc
  | send packetType sendDelay order =>
    rw [step] at hstep
    dsimp only at hstep
    split_ifs at hstep with hdata
    · obtain ⟨⟨d, bs⟩, hwrite, rfl⟩ := Option.map_eq_some_iff.mp hstep
      obtain ⟨⟨events, bs⟩, hevents, heq⟩ := Option.map_eq_some_iff.mp hwrite
      obtain ⟨rfl, -⟩ := Prod.mk.inj heq
      exact (sameReceived_writeEvents hevents).settled hc
    · obtain rfl := Option.some.inj hstep
      exact hc
  | receive data =>
    obtain rfl := Option.some.inj hstep
    exact settled_processPacket hc _

end settled

/-- A new connection with an event to send. -/
def posted : Connection UInt8 (U32 × UInt8) where
  net := (NetConnection.newNetConnection 0).setInitialRecvSequence 0
  events := EventConnection.newEventConnection.postEvent EventStream.messages 7
  ghosts := .newGhostConnection

end Connection

end TNL.Go
