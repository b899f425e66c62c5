import TNL.Connection.PendingAttempts
import TNL.Event.Notes
import TNL.Event.ReadBack
import TNL.Journal.IndexBits
import TNL.Library.Run

/-!
# The classes of posted events

An event is refused when its class is not one of those negotiated, but only while the
connection is established: what is posted before waits in the queues, and is written
when the negotiation may have left out its class.
-/
namespace TNL
open Library
open BitStream
open Attempt (NetConnectionState)

namespace ClassPeer

/-- The place of a class in the table. A class of other groups keeps the zero of its constructor. -/
def getClassId (p : ClassPeer) (classRep : NetClassRep) : U32 :=
  if classRep ∈ p.classTable then BitVec.ofNat 32 (p.classTable.idxOf classRep) else 0

/-- The class of the event that is created for a record; `none` is an invalid packet. -/
def readClass (p : ClassPeer) (classes : EventClasses) (s : BitStream) : Option NetClassRep :=
  let (classId, _) := s.readInt classes.mEventClassBitSize.toNat
  if classId ≥ classes.mEventClassCount.toNat then none else p.classTable[classId]?

/-- One end of a connection whose request and accept have both been accepted, and the other end. -/
inductive Negotiated : ClassPeer → EventClasses → ClassPeer → EventClasses → Prop where
  | acceptor {client server : ClassPeer} {initial s c : EventClasses}
      (request : server.readConnectRequest client.writeConnectRequest = some s)
      (accept : client.readConnectAccept initial (writeConnectAccept s) = some c) :
      Negotiated server s client c
  | initiator {client server : ClassPeer} {initial s c : EventClasses}
      (request : server.readConnectRequest client.writeConnectRequest = some s)
      (accept : client.readConnectAccept initial (writeConnectAccept s) = some c) :
      Negotiated client c server s

end ClassPeer

/-- The events of a program, with the class each of them is of. -/
structure EventProgram (ε σ : Type*) extends EventClass ε σ where
  classes : ClassPeer
  classRep : ε → NetClassRep
  getClassId_eq : ∀ event, getClassId event = (classes.getClassId (classRep event)).toNat

/-- The parameters of the records, unless a class id has more bits than an integer. -/
def EventClasses.parameters (c : EventClasses) (mDebugObjectSizes : Bool) :
    Option EventParameters :=
  if h : c.mEventClassCount.toNat ≤ 2 ^ c.mEventClassBitSize.toNat ∧
      c.mEventClassBitSize.toNat ≤ 32 then
    some ⟨mDebugObjectSizes, c.mEventClassCount.toNat, c.mEventClassBitSize.toNat, h.1, h.2⟩
  else none

/-- The events that wait to be written. -/
def EventConnection.waiting {ε : Type*} (c : EventConnection ε) : List (EventNote ε) :=
  c.mUnorderedSendEventQueue ++ c.mSendEventQueue

/-- An event connection with its state, the event lists of its packets that are not reported yet,
and every record it has written. -/
structure EventEndpoint (ε : Type*) where
  connection : EventConnection ε
  mConnectionState : NetConnectionState
  classes : EventClasses
  notifies : List (List (EventNote ε))
  records : List (EventNote ε)

namespace EventEndpoint

variable {ε σ : Type*}

inductive Action (ε σ : Type*) where
  | postNetEvent (theEvent : ε)
  | readConnect
  | setConnectionState (state : NetConnectionState)
  | writePacket (w : PackStream σ)
  | handleNotify (recvd : Bool)

/-- The constructor leaves the version as the memory was. -/
def new (mEventClassVersion : U32) : EventEndpoint ε :=
  ⟨.new, .notConnected, ⟨0, 0, mEventClassVersion⟩, [], []⟩

/-- Whether the event was taken, and the connection after it. -/
def postNetEvent (s : EventEndpoint ε) (E : EventProgram ε σ) (theEvent : ε) :
    Bool × EventEndpoint ε :=
  if E.getClassId theEvent ≥ s.classes.mEventClassCount.toNat ∧ s.mConnectionState = .connected then
    (false, s)
  else
    (true, { s with connection := s.connection.postNetEvent E.toEventClass theEvent })

/-- Packets are written while the connection is established. -/
def writePacket (s : EventEndpoint ε) (E : EventProgram ε σ) (mDebugObjectSizes : Bool)
    (w : PackStream σ) : Option (EventEndpoint ε) :=
  if s.mConnectionState = .connected then
    (s.classes.parameters mDebugObjectSizes).map fun P =>
      let r := s.connection.writePacket P E.toEventClass w
      { s with
        connection := r.conn
        notifies := s.notifies ++ [r.eventList]
        records := s.records ++ r.eventList }
  else none

/-- The oldest packet is reported. -/
def handleNotify (s : EventEndpoint ε) (E : EventProgram ε σ) (recvd : Bool) :
    Option (EventEndpoint ε) :=
  match s.notifies with
  | [] => none
  | eventList :: notifies => some { s with
      connection := if recvd then s.connection.packetReceived E.toEventClass eventList
        else s.connection.packetDropped E.toEventClass eventList
      notifies := notifies }

/-- A step of a connection whose handshake has a given result. It is established once its connect
packet has been read. -/
def step (E : EventProgram ε σ) (mDebugObjectSizes : Bool) (negotiated : EventClasses)
    (s : EventEndpoint ε) : Action ε σ → Option (EventEndpoint ε)
  | .postNetEvent theEvent => some (s.postNetEvent E theEvent).2
  | .readConnect => some { s with classes := negotiated }
  | .setConnectionState state =>
    if state = .connected ∧ s.classes ≠ negotiated then none
    else some { s with mConnectionState := state }
  | .writePacket w => s.writePacket E mDebugObjectSizes w
  | .handleNotify recvd => s.handleNotify E recvd

/-- Events are of classes of the connection's group, and when the connection is established no
event waits whose class was not negotiated. -/
def PostsNegotiated (E : EventProgram ε σ) (s : EventEndpoint ε) : Action ε σ → Prop
  | .postNetEvent theEvent => E.classRep theEvent ∈ E.classes.classTable
  | .setConnectionState .connected =>
    ∀ note ∈ s.connection.waiting, E.getClassId note.mEvent < s.classes.mEventClassCount.toNat
  | _ => True

end EventEndpoint

namespace EventConnection

variable {ε σ : Type*} {c : EventConnection ε} {E : EventClass ε σ} {note : EventNote ε}

theorem waiting_postNetEvent {theEvent : ε} (h : note ∈ (c.postNetEvent E theEvent).waiting) :
    note ∈ c.waiting ∨ note.mEvent = theEvent := by
  rw [postNetEvent] at h
  split at h
  case isTrue =>
    simp only [waiting, List.mem_append, List.mem_singleton] at h ⊢
    rcases h with hunordered | hordered | rfl
    · exact .inl (.inl hunordered)
    · exact .inl (.inr hordered)
    · exact .inr rfl
  case isFalse =>
    simp only [waiting, List.mem_append, List.mem_singleton] at h ⊢
    rcases h with (hunordered | rfl) | hordered
    · exact .inl (.inl hunordered)
    · exact .inr rfl
    · exact .inl (.inr hordered)

theorem waiting_packetDropped {eventList : List (EventNote ε)}
    (h : note ∈ (c.packetDropped E eventList).waiting) : note ∈ c.waiting ∨ note ∈ eventList := by
  simp only [waiting, packetDropped, List.mem_append, mem_insertNotes, List.mem_reverse,
    List.mem_filter] at h ⊢
  tauto

@[simp] theorem waiting_packetReceived (eventList : List (EventNote ε)) :
    (c.packetReceived E eventList).waiting = c.waiting := rfl

variable {P : EventParameters} {w : PackStream σ}

theorem waiting_writePacket : note ∈ c.waiting ↔
    note ∈ (c.writePacket P E w).eventList ∨ note ∈ (c.writePacket P E w).conn.waiting := by
  rw [waiting, writePacket_unordered c P E w, writePacket_ordered c P E w]
  simp only [WriteResult.eventList, waiting, List.mem_append]
  tauto

end EventConnection

namespace EventEndpoint

variable {ε σ : Type*} {E : EventProgram ε σ} {negotiated : EventClasses} {debug : Bool}
  {s t : EventEndpoint ε}

/-- The class of an event is one of those negotiated. -/
def Agreed (E : EventProgram ε σ) (negotiated : EventClasses) (note : EventNote ε) : Prop :=
  E.getClassId note.mEvent < negotiated.mEventClassCount.toNat

/-- The class of an event is in the class table. -/
def OfGroup (E : EventProgram ε σ) (note : EventNote ε) : Prop :=
  E.classRep note.mEvent ∈ E.classes.classTable

/-- While the connection is established its events are of negotiated classes, and so is whatever
has been written. -/
structure Sound (E : EventProgram ε σ) (negotiated : EventClasses) (s : EventEndpoint ε) :
    Prop where
  established : s.mConnectionState = .connected → s.classes = negotiated ∧
    ∀ note ∈ s.connection.waiting, Agreed E negotiated note
  waiting : ∀ note ∈ s.connection.waiting, OfGroup E note
  sent : ∀ eventList ∈ s.notifies, ∀ note ∈ eventList, OfGroup E note ∧ Agreed E negotiated note
  written : ∀ note ∈ s.records, OfGroup E note ∧ Agreed E negotiated note

namespace Sound

theorem new (mEventClassVersion : U32) :
    Sound E negotiated (EventEndpoint.new mEventClassVersion) where
  established h := nomatch h
  waiting := List.forall_mem_nil _
  sent := List.forall_mem_nil _
  written := List.forall_mem_nil _

theorem postNetEvent (hs : Sound E negotiated s) {theEvent : ε}
    (hgroup : E.classRep theEvent ∈ E.classes.classTable) :
    Sound E negotiated (s.postNetEvent E theEvent).2 := by
  rw [EventEndpoint.postNetEvent]
  split
  case isTrue => exact hs
  case isFalse hnot =>
    refine ⟨fun hconnected => ?_, fun note hnote => ?_, hs.sent, hs.written⟩
    · obtain ⟨hclasses, hwaiting⟩ := hs.established hconnected
      refine ⟨hclasses, fun note hnote => ?_⟩
      cases EventConnection.waiting_postNetEvent hnote with
      | inl hold => exact hwaiting note hold
      | inr hnew =>
        have hlt : E.getClassId theEvent < s.classes.mEventClassCount.toNat :=
          Nat.not_le.mp fun hge => hnot ⟨hge, hconnected⟩
        rw [Agreed, hnew, ← hclasses]
        exact hlt
    · cases EventConnection.waiting_postNetEvent hnote with
      | inl hold => exact hs.waiting note hold
      | inr hnew =>
        rw [OfGroup, hnew]
        exact hgroup

theorem setConnectionState (hs : Sound E negotiated s) {state : NetConnectionState}
    (hclasses : ¬ (state = .connected ∧ s.classes ≠ negotiated))
    (hwaiting : state = .connected →
      ∀ note ∈ s.connection.waiting, E.getClassId note.mEvent < s.classes.mEventClassCount.toNat) :
    Sound E negotiated { s with mConnectionState := state } where
  established hconnected := by
    have hsame : s.classes = negotiated := not_not.mp fun hne => hclasses ⟨hconnected, hne⟩
    refine ⟨hsame, fun note hnote => ?_⟩
    rw [Agreed, ← hsame]
    exact hwaiting hconnected note hnote
  waiting := hs.waiting
  sent := hs.sent
  written := hs.written

theorem writePacket (hs : Sound E negotiated s) {w : PackStream σ}
    (h : s.writePacket E debug w = some t) : Sound E negotiated t := by
  rw [EventEndpoint.writePacket] at h
  split at h
  case isFalse => cases h
  case isTrue hconnected =>
    obtain ⟨P, -, rfl⟩ := Option.map_eq_some_iff.mp h
    obtain ⟨hclasses, hwaiting⟩ := hs.established hconnected
    have hleft : ∀ note ∈ (s.connection.writePacket P E.toEventClass w).conn.waiting,
        note ∈ s.connection.waiting := fun note hnote =>
      EventConnection.waiting_writePacket.mpr (.inr hnote)
    have hnew : ∀ note ∈ (s.connection.writePacket P E.toEventClass w).eventList,
        OfGroup E note ∧ Agreed E negotiated note := by
      intro note hnote
      have hqueued : note ∈ s.connection.waiting :=
        EventConnection.waiting_writePacket.mpr (.inl hnote)
      exact ⟨hs.waiting note hqueued, hwaiting note hqueued⟩
    refine ⟨fun _ => ⟨hclasses, fun note hnote => hwaiting note (hleft note hnote)⟩,
      fun note hnote => hs.waiting note (hleft note hnote), ?_, ?_⟩
    · intro eventList hlist
      simp only [List.mem_append, List.mem_singleton] at hlist
      cases hlist with
      | inl hold => exact hs.sent eventList hold
      | inr hlast =>
        rw [hlast]
        exact hnew
    · intro note hnote
      rw [List.mem_append] at hnote
      cases hnote with
      | inl hold => exact hs.written note hold
      | inr hlast => exact hnew note hlast

theorem handleNotify (hs : Sound E negotiated s) {recvd : Bool}
    (h : s.handleNotify E recvd = some t) : Sound E negotiated t := by
  rw [EventEndpoint.handleNotify] at h
  cases hnotifies : s.notifies with
  | nil =>
    rw [hnotifies] at h
    cases h
  | cons eventList notifies =>
    rw [hnotifies] at h
    obtain rfl := Option.some.inj h
    have hsent := hs.sent
    rw [hnotifies, List.forall_mem_cons] at hsent
    -- what waits now waited before or was in the packet
    have hback : ∀ note ∈ (if recvd then s.connection.packetReceived E.toEventClass eventList
        else s.connection.packetDropped E.toEventClass eventList).waiting,
        note ∈ s.connection.waiting ∨ note ∈ eventList := by
      intro note hnote
      cases recvd with
      | true => exact .inl hnote
      | false => exact EventConnection.waiting_packetDropped hnote
    refine ⟨fun hconnected => ?_, fun note hnote => ?_, hsent.2, hs.written⟩
    · obtain ⟨hclasses, hwaiting⟩ := hs.established hconnected
      exact ⟨hclasses, fun note hnote =>
        (hback note hnote).elim (hwaiting note) fun hlist => (hsent.1 note hlist).2⟩
    · exact (hback note hnote).elim (hs.waiting note) fun hlist => (hsent.1 note hlist).1

theorem step (hs : Sound E negotiated s) {a : Action ε σ} (allowed : PostsNegotiated E s a)
    (h : EventEndpoint.step E debug negotiated s a = some t) : Sound E negotiated t := by
  cases a with
  | postNetEvent theEvent =>
    obtain rfl := Option.some.inj h
    exact hs.postNetEvent allowed
  | readConnect =>
    obtain rfl := Option.some.inj h
    exact ⟨fun hconnected => ⟨rfl, (hs.established hconnected).2⟩, hs.waiting, hs.sent, hs.written⟩
  | setConnectionState state =>
    rw [EventEndpoint.step] at h
    split at h
    case isTrue => cases h
    case isFalse hclasses =>
      obtain rfl := Option.some.inj h
      refine hs.setConnectionState hclasses fun hconnected => ?_
      rw [hconnected] at allowed
      exact allowed
  | writePacket w => exact hs.writePacket h
  | handleNotify recvd => exact hs.handleNotify h

end Sound

end EventEndpoint

namespace ClassPeer

variable {own peer : ClassPeer} {c c' : EventClasses}

theorem getClassId_toNat {classRep : NetClassRep} (h : classRep ∈ own.classTable) :
    (own.getClassId classRep).toNat = own.classTable.idxOf classRep := by
  have hlt := (List.idxOf_lt_length_iff.mpr h).trans own.classCount_lt
  rw [getClassId, if_pos h]
  exact toNat_ofNat_of_lt hlt

/-- Both ends have the count, and a bit size that it fits in. -/
theorem Negotiated.same (h : Negotiated own c peer c') :
    c'.mEventClassCount = c.mEventClassCount ∧ c'.mEventClassBitSize = c.mEventClassBitSize ∧
      c.mEventClassCount.toNat ≤ 2 ^ c.mEventClassBitSize.toNat := by
  have hfits : ∀ count : U32, count ≠ 0 → count.toNat ≤ 2 ^ (getNextBinLog2 count).toNat := by
    intro count hne
    have hpos : 0 < count.toNat := by bv_omega
    have hle := le_two_pow_indexBits hpos count.isLt
    rwa [indexBits, BitVec.ofNat_toNat, BitVec.setWidth_eq] at hle
  cases h with
  | acceptor request accept =>
    obtain ⟨-, hne, hbits, -, -⟩ := readConnectRequest_spec request
    obtain ⟨rfl, -⟩ := readConnectAccept_spec accept
    exact ⟨rfl, hbits.symm, hbits ▸ hfits _ hne⟩
  | initiator request accept =>
    obtain ⟨-, hne, hbits, -, -⟩ := readConnectRequest_spec request
    obtain ⟨rfl, -⟩ := readConnectAccept_spec accept
    exact ⟨rfl, hbits, hfits _ hne⟩

/-- The records have parameters, unless the bit size is longer than an integer. -/
theorem Negotiated.parameters_isSome (h : Negotiated own c peer c') (debug : Bool)
    (hcount : c.mEventClassCount.toNat < 2 ^ 32 - 128) : (c.parameters debug).isSome = true := by
  have hbits : ∀ count : U32, count ≠ 0 → count.toNat < 2 ^ 32 - 128 →
      (getNextBinLog2 count).toNat ≤ 32 := by
    intro count hne hlt
    have hle := indexBits_le (show 0 < count.toNat by bv_omega) hlt
    rwa [indexBits, BitVec.ofNat_toNat, BitVec.setWidth_eq] at hle
  have hfits := h.same.2.2
  have hsmall : c.mEventClassBitSize.toNat ≤ 32 := by
    cases h with
    | acceptor request accept =>
      obtain ⟨-, hne, hsize, -, -⟩ := readConnectRequest_spec request
      exact hsize ▸ hbits _ hne hcount
    | initiator request accept =>
      obtain ⟨-, hne, -, -, -⟩ := readConnectRequest_spec request
      obtain ⟨rfl, -⟩ := readConnectAccept_spec accept
      exact hbits _ hne hcount
  rw [EventClasses.parameters, dif_pos ⟨hfits, hsmall⟩]
  rfl

/-- A record of a negotiated class creates an event of that class. -/
theorem readClass_eq (h : Negotiated own c peer c')
    (hsame : own.classTable.take c.mEventClassCount.toNat =
      peer.classTable.take c.mEventClassCount.toNat)
    {classRep : NetClassRep} (hmem : classRep ∈ own.classTable)
    (hlt : (own.getClassId classRep).toNat < c.mEventClassCount.toNat) {s : BitStream}
    (hahead : s.Ahead (intBits (own.getClassId classRep).toNat c.mEventClassBitSize.toNat)) :
    peer.readClass c' s = some classRep := by
  obtain ⟨hcount, hbits, hfits⟩ := h.same
  rw [← List.append_nil (intBits _ _)] at hahead
  have hread := hahead.readInt
  rw [Nat.mod_eq_of_lt (hlt.trans_le hfits)] at hread
  rw [readClass, hcount, hbits, hread]
  simp only [Nat.not_le.mpr hlt, if_false]
  have htable := congrArg (·[(own.getClassId classRep).toNat]?) hsame
  simp only [List.getElem?_take_of_lt hlt] at htable
  rw [← htable, getClassId_toNat hmem]
  exact List.getElem?_idxOf hmem

end ClassPeer

namespace EventEndpoint

variable {ε σ : Type*} {E : EventProgram ε σ} {debug : Bool}

/-- In every run in which events are of the connection's group and none that waits when the
connection is established was left out by the negotiation, every record is of a negotiated class,
which the peer reads as the same class. -/
theorem records_negotiated {peer : ClassPeer} {c c' : EventClasses} {mEventClassVersion : U32}
    {actions : List (Action ε σ)} {s : EventEndpoint ε}
    (negotiated : ClassPeer.Negotiated E.classes c peer c')
    (same : E.classes.classTable.take c.mEventClassCount.toNat =
      peer.classTable.take c.mEventClassCount.toNat)
    (run : Run (step E debug c) (PostsNegotiated E) (new mEventClassVersion) actions s) :
    ∀ note ∈ s.records, E.getClassId note.mEvent < c.mEventClassCount.toNat ∧
      ∀ stream : BitStream,
        stream.Ahead (intBits (E.getClassId note.mEvent) c.mEventClassBitSize.toNat) →
          peer.readClass c' stream = some (E.classRep note.mEvent) := by
  have hsound := run.invariant (fun _ _ _ hs allowed taken => Sound.step hs allowed taken)
    (Sound.new mEventClassVersion)
  intro note hnote
  obtain ⟨hgroup, hlt⟩ := hsound.written note hnote
  refine ⟨hlt, fun stream hahead => ?_⟩
  rw [E.getClassId_eq] at hahead
  rw [Agreed, E.getClassId_eq] at hlt
  exact ClassPeer.readClass_eq negotiated same hgroup hlt hahead

/-- Events without contents, of the classes of a program of a later version. -/
def laterEvents : EventProgram NetClassRep Unit where
  mGuaranteeType _ := .guaranteed
  getClassId classRep := (ClassPeer.laterVersion.getClassId classRep).toNat
  pack _ _ := ([], ())
  create _ := some .dirAny
  unpack _ _ _ := none
  classes := ClassPeer.laterVersion
  classRep := id
  getClassId_eq _ := rfl

/-- The later program connects to the first version, which leaves out its last class. -/
theorem negotiated_laterVersion : ClassPeer.Negotiated ClassPeer.laterVersion ⟨2, 1, 0⟩
    ClassPeer.firstVersion ⟨2, 1, 0⟩ := by
  have accept : ClassPeer.laterVersion.readConnectAccept ⟨0, 0, 0⟩
      (ClassPeer.writeConnectAccept ⟨2, 1, 0⟩) = some ⟨2, 1, 0⟩ := by decide +kernel
  exact .initiator (by decide +kernel) accept

/-- An event posted before the connection is established. -/
def postedBefore (classRep : NetClassRep) : EventEndpoint NetClassRep :=
  { ((new 0).postNetEvent laterEvents classRep).2 with
    classes := ⟨2, 1, 0⟩
    mConnectionState := .connected }

/-- An event of a class that both programs have may wait for the connection. -/
theorem records_negotiated_moveEvent :
    ∃ s, step laterEvents false ⟨2, 1, 0⟩ (postedBefore ⟨"MoveEvent", 0⟩)
        (.writePacket EventConnection.emptyPacket) = some s ∧
      s.records = [⟨⟨"MoveEvent", 0⟩, -1⟩] ∧
      ∀ note ∈ s.records, laterEvents.getClassId note.mEvent < 2 ∧
        ∀ stream : BitStream, stream.Ahead (intBits (laterEvents.getClassId note.mEvent) 1) →
          ClassPeer.firstVersion.readClass ⟨2, 1, 0⟩ stream = some note.mEvent := by
  have hwritten : (step laterEvents false ⟨2, 1, 0⟩ (postedBefore ⟨"MoveEvent", 0⟩)
      (.writePacket EventConnection.emptyPacket)).map (·.records) =
        some [⟨⟨"MoveEvent", 0⟩, -1⟩] := by decide +kernel
  obtain ⟨s, hs, hrecords⟩ := Option.map_eq_some_iff.mp hwritten
  have hgroup : (⟨"MoveEvent", 0⟩ : NetClassRep) ∈ ClassPeer.laterVersion.classTable := by decide
  have hclass : ∀ note ∈ ((new 0).postNetEvent laterEvents ⟨"MoveEvent", 0⟩).2.connection.waiting,
      laterEvents.getClassId note.mEvent < 2 := by decide +kernel
  have hrun : Run (step laterEvents false ⟨2, 1, 0⟩) (PostsNegotiated laterEvents) (new 0)
      [.postNetEvent ⟨"MoveEvent", 0⟩, .readConnect, .setConnectionState .connected,
        .writePacket EventConnection.emptyPacket] s :=
    .cons hgroup rfl (.cons trivial rfl (.cons hclass rfl (.cons trivial hs (.nil _))))
  exact ⟨s, hs, hrecords, records_negotiated negotiated_laterVersion (by decide +kernel) hrun⟩

/-- An event of the class that was left out waits for the connection and is written. -/
theorem tradeEvent_written : ¬ ∀ (E : EventProgram NetClassRep Unit) (peer : ClassPeer)
    (c c' : EventClasses) (mEventClassVersion : U32) (actions : List (Action NetClassRep Unit))
    (s : EventEndpoint NetClassRep), ClassPeer.Negotiated E.classes c peer c' →
    E.classes.classTable.take c.mEventClassCount.toNat =
      peer.classTable.take c.mEventClassCount.toNat →
    Run (step E false c) (fun _ _ => True) (new mEventClassVersion) actions s →
    ∀ note ∈ s.records, E.getClassId note.mEvent < c.mEventClassCount.toNat := by
  intro hclaim
  have hwritten : (step laterEvents false ⟨2, 1, 0⟩ (postedBefore ⟨"TradeEvent", 3⟩)
      (.writePacket EventConnection.emptyPacket)).map (·.records) =
        some [⟨⟨"TradeEvent", 3⟩, -1⟩] := by decide +kernel
  obtain ⟨s, hs, hrecords⟩ := Option.map_eq_some_iff.mp hwritten
  have hrun : Run (step laterEvents false ⟨2, 1, 0⟩) (fun _ _ => True) (new 0)
      [.postNetEvent ⟨"TradeEvent", 3⟩, .readConnect, .setConnectionState .connected,
        .writePacket EventConnection.emptyPacket] s :=
    .cons trivial rfl (.cons trivial rfl (.cons trivial rfl (.cons trivial hs (.nil _))))
  have hlt := hclaim laterEvents ClassPeer.firstVersion ⟨2, 1, 0⟩ ⟨2, 1, 0⟩ 0 _ s
    negotiated_laterVersion (by decide +kernel) hrun ⟨⟨"TradeEvent", 3⟩, -1⟩
    (hrecords ▸ List.mem_singleton_self _)
  revert hlt
  decide +kernel

end EventEndpoint

end TNL
