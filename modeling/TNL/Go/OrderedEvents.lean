import TNL.Go.EventConnection

/-!
# Ordered events of the Go port

One side posts events and writes packets; the packets reach the other side in any
order, any number of times or not at all, and the sender is notified about them
in any way. The other side has always processed a prefix of the ordered events.
-/
namespace TNL.Go
open Library BitReader

variable {ε : Type}

/-- A type of events is known on both sides under the same id, and unpacking undoes packing. -/
def EventTypes.Registered (E : EventTypes ε) (ev : ε) : Prop :=
  ∃ id ≤ 1024, E.getEventID ev = some id ∧ ∃ created, E.createEvent id = some created ∧
    ∀ rest, E.unpack created ⟨E.pack ev ++ rest, false⟩ = (ev, ⟨rest, false⟩)

/-- Events on their way from one side to the other. A packet is what follows its header. -/
structure EventStream (ε : Type) where
  sender : EventConnection ε
  receiver : EventConnection ε
  packets : List (List Bool)
  posted : List ε
  processed : List ε

namespace EventStream
open EventConnection

inductive Action (ε : Type) where
  | post (ev : ε)
  | write (header : BitWriter) (packetSeq : U32) (tail : List Bool)
  | deliver (index : ℕ)
  | received (packetSeq : U32)
  | dropped (packetSeq : U32)

variable (E : EventTypes ε) {s : EventStream ε}

def start : EventStream ε := ⟨newEventConnection, newEventConnection, [], [], []⟩

/-- `tail` is what is written into the packet after the events. -/
def step (s : EventStream ε) : Action ε → Option (EventStream ε)
  | .post ev => some { s with
      sender := s.sender.postEvent E ev
      posted := if E.getGuaranteeType ev = .guaranteedOrdered then s.posted ++ [ev] else s.posted }
  | .write header packetSeq tail =>
    (s.sender.writeEvents E header packetSeq).map (fun (sender, bs) =>
      { s with sender := sender, packets := s.packets ++ [(bs ++ tail).drop header.length] })
  | .deliver index =>
    (s.packets[index]?).map (fun body =>
      let (receiver, _, processed, _) := s.receiver.readEvents E ⟨body, false⟩
      { s with receiver := receiver, processed := s.processed ++ processed })
  | .received packetSeq => some { s with sender := s.sender.onPacketReceived packetSeq }
  | .dropped packetSeq => some { s with sender := s.sender.onPacketDropped E packetSeq }

/-- Only registered events are posted, and fewer than `2 ^ 32` ordered ones. -/
def PostsRegistered (s : EventStream ε) : Action ε → Prop
  | .post ev => E.Registered ev ∧
      (E.getGuaranteeType ev = .guaranteedOrdered → s.posted.length + 1 < 2 ^ 32)
  | _ => True

/-! ### What is written is read -/

variable {E}

theorem EventTypes.Registered.create {ev : ε} (h : E.Registered ev) :
    ∃ id created, id ≤ 1024 ∧ E.getEventID ev = some id ∧ E.createEvent id = some created ∧
      E.getGuaranteeType created = E.getGuaranteeType ev ∧
      ∀ rest, E.unpack created ⟨E.pack ev ++ rest, false⟩ = (ev, ⟨rest, false⟩) := by
  obtain ⟨id, hid, hget, created, hcreate, hunpack⟩ := h
  refine ⟨id, created, hid, hget, hcreate, ?_, hunpack⟩
  rw [← E.unpack_guaranteeType created ⟨E.pack ev ++ [], false⟩, hunpack]

/-- The bits of an event behind its flag. -/
def noteBits (E : EventTypes ε) (note : EventNote ε) : List Bool :=
  bitsOf 11 ((E.getEventID note.event).getD 0) ++
    (if E.getGuaranteeType note.event = .guaranteedOrdered then bitsOf 32 note.sequence.toNat
      else []) ++ E.pack note.event

/-- The sequence that an event is read with. -/
def readSequence (E : EventTypes ε) (note : EventNote ε) : Option U32 :=
  if E.getGuaranteeType note.event = .guaranteedOrdered then some note.sequence else none

theorem writeEvent_eq {note : EventNote ε} (h : E.Registered note.event) (bs : BitWriter) :
    writeEvent E bs note = some (bs ++ noteBits E note) := by
  obtain ⟨id, -, hid, hget, -⟩ := EventTypes.Registered.create h
  rw [writeEvent, hget, Option.map_some, BitWriter.writeRangedUint32_eq bs hid, noteBits, hget,
    Option.getD_some]
  split_ifs
  · simp only [BitWriter.writeUint32, BitWriter.writeBits, List.append_assoc]
  · simp only [List.append_nil, List.append_assoc]

theorem writeQueue_eq {queue : List (EventNote ε)} (h : ∀ note ∈ queue, E.Registered note.event)
    (bs : BitWriter) : writeQueue E bs queue = some (bs ++ flagged (noteBits E) queue) := by
  have hfold : ∀ bs : BitWriter, queue.foldlM
      (fun (bs : BitWriter) note => writeEvent E (bs.writeFlag true) note) bs =
        some (bs ++ queue.flatMap (fun note => true :: noteBits E note)) := by
    induction queue with
    | nil => exact fun bs => congrArg some (List.append_nil bs).symm
    | cons note queue ih =>
      intro bs
      rw [List.foldlM_cons, writeEvent_eq (h note List.mem_cons_self)]
      refine (ih (fun note hnote => h note (List.mem_cons_of_mem _ hnote)) _).trans ?_
      simp [BitWriter.writeFlag]
  rw [writeQueue, hfold, Option.map_some, flagged, BitWriter.writeFlag, List.append_assoc]

theorem readEvent_eq {note : EventNote ε} (h : E.Registered note.event) (rest : List Bool) :
    readEvent E ⟨noteBits E note ++ rest, false⟩ =
      (some note.event, readSequence E note, ⟨rest, false⟩) := by
  obtain ⟨id, created, hid, hget, hcreate, hguarantee, hunpack⟩ := EventTypes.Registered.create h
  rw [readEvent, noteBits, hget, Option.getD_some, List.append_assoc, List.append_assoc,
    readRangedUint32_bitsOf hid]
  simp only [hcreate, hguarantee, readSequence]
  by_cases hordered : E.getGuaranteeType note.event = .guaranteedOrdered
  · simp only [if_pos hordered, readUint32_bitsOf, hunpack]
  · simp only [if_neg hordered, List.nil_append, hunpack]

theorem readQueue_eq {queue : List (EventNote ε)} (h : ∀ note ∈ queue, E.Registered note.event)
    (rest : List Bool) {fuel : ℕ} (hfuel : queue.length < fuel) :
    readQueue E fuel ⟨flagged (noteBits E) queue ++ rest, false⟩ =
      (queue.map (fun note => (readSequence E note, note.event)), ⟨rest, false⟩) := by
  induction queue generalizing fuel with
  | nil =>
    obtain ⟨fuel, rfl⟩ := Nat.exists_eq_add_of_lt hfuel
    rw [List.length_nil, Nat.zero_add, readQueue, flagged, List.flatMap_nil, List.nil_append,
      List.singleton_append, readFlag_cons]
    rfl
  | cons note queue ih =>
    obtain ⟨fuel, rfl⟩ : ∃ k, fuel = k + 1 := ⟨fuel - 1, by omega⟩
    rw [flagged_cons, List.cons_append, List.append_assoc, readQueue, readFlag_cons]
    simp only [if_true, readEvent_eq (h note List.mem_cons_self)]
    rw [ih (fun note hnote => h note (List.mem_cons_of_mem _ hnote))
      (by simpa using hfuel)]
    rfl

/-! ### What is sent -/

/-- An ordered event is the one of its sequence. -/
structure NoteOf (E : EventTypes ε) (posted : List ε) (note : EventNote ε) : Prop where
  registered : E.Registered note.event
  sequence : E.getGuaranteeType note.event = .guaranteedOrdered →
    posted[note.sequence.toNat]? = some note.event

/-- What is in a queue of ordered events. -/
structure OrderedNoteOf (E : EventTypes ε) (posted : List ε) (note : EventNote ε) : Prop
    extends NoteOf E posted note where
  ordered : E.getGuaranteeType note.event = .guaranteedOrdered

structure SenderSound (E : EventTypes ε) (posted : List ε) (ec : EventConnection ε) : Prop where
  unordered : ∀ note ∈ ec.unorderedSendQueue, NoteOf E posted note
  ordered : ∀ note ∈ ec.orderedSendQueue, OrderedNoteOf E posted note
  sent : ∀ packetSeq notes, ec.sentEvents.lookup packetSeq = some notes →
    ∀ note ∈ notes, NoteOf E posted note
  nextSend : ec.nextSendEventSeq.toNat = posted.length

variable {posted processed : List ε} {ec ec' : EventConnection ε}

theorem getElem?_append_of_some {l : List ε} {n : ℕ} {ev ev' : ε} (h : l[n]? = some ev) :
    (l ++ [ev'])[n]? = some ev := by
  rw [List.getElem?_append_left (List.getElem?_eq_some_iff.mp h).choose, h]

theorem NoteOf.append {note : EventNote ε} (h : NoteOf E posted note) (ev : ε) :
    NoteOf E (posted ++ [ev]) note :=
  ⟨h.registered, fun hordered => getElem?_append_of_some (h.sequence hordered)⟩

theorem OrderedNoteOf.append {note : EventNote ε} (h : OrderedNoteOf E posted note) (ev : ε) :
    OrderedNoteOf E (posted ++ [ev]) note :=
  ⟨h.toNoteOf.append ev, h.ordered⟩

theorem SenderSound.start : SenderSound E [] (newEventConnection : EventConnection ε) where
  unordered := fun _ hnote => absurd hnote List.not_mem_nil
  ordered := fun _ hnote => absurd hnote List.not_mem_nil
  sent := fun _ _ hnotes => by
    rw [newEventConnection, AList.lookup_empty] at hnotes
    cases hnotes
  nextSend := rfl

theorem SenderSound.postOrdered (h : SenderSound E posted ec) {ev : ε} (hev : E.Registered ev)
    (hordered : E.getGuaranteeType ev = .guaranteedOrdered) (hlen : posted.length + 1 < 2 ^ 32) :
    SenderSound E (posted ++ [ev]) (ec.postEvent E ev) := by
  have hnew : OrderedNoteOf E (posted ++ [ev]) ⟨ev, ec.nextSendEventSeq⟩ := by
    refine ⟨⟨hev, fun _ => ?_⟩, hordered⟩
    rw [h.nextSend, List.getElem?_concat_length]
  rw [postEvent, if_pos hordered]
  constructor
  case unordered => exact fun note hnote => (h.unordered note hnote).append ev
  case ordered =>
    intro note hnote
    cases List.mem_append.mp hnote with
    | inl hnote => exact (h.ordered note hnote).append ev
    | inr hnote =>
      cases List.mem_singleton.mp hnote
      exact hnew
  case sent =>
    exact fun seq notes hnotes note hnote => (h.sent seq notes hnotes note hnote).append ev
  case nextSend =>
    have hnext := h.nextSend
    rw [List.length_append, List.length_singleton, ← hnext]
    bv_omega

theorem SenderSound.postUnordered (h : SenderSound E posted ec) {ev : ε} (hev : E.Registered ev)
    (hordered : E.getGuaranteeType ev ≠ .guaranteedOrdered) :
    SenderSound E posted (ec.postEvent E ev) := by
  rw [postEvent, if_neg hordered]
  refine ⟨fun note hnote => ?_, h.ordered, h.sent, h.nextSend⟩
  cases List.mem_append.mp hnote with
  | inl hnote => exact h.unordered note hnote
  | inr hnote =>
    cases List.mem_singleton.mp hnote
    exact ⟨hev, fun hordered' => absurd hordered' hordered⟩

/-- What a packet holds behind its header. -/
def PacketOf (E : EventTypes ε) (posted : List ε) (body : List Bool) : Prop :=
  ∃ unordered ordered : List (EventNote ε), ∃ tail,
    body = flagged (noteBits E) unordered ++ (flagged (noteBits E) ordered ++ tail) ∧
    (∀ note ∈ unordered, NoteOf E posted note) ∧ ∀ note ∈ ordered, OrderedNoteOf E posted note

theorem PacketOf.append {body : List Bool} (h : PacketOf E posted body) (ev : ε) :
    PacketOf E (posted ++ [ev]) body := by
  obtain ⟨unordered, ordered, tail, hbody, hunordered, hordered⟩ := h
  exact ⟨unordered, ordered, tail, hbody, fun note hnote => (hunordered note hnote).append ev,
    fun note hnote => (hordered note hnote).append ev⟩

theorem SenderSound.write (h : SenderSound E posted ec) {header bs : BitWriter} {packetSeq : U32}
    (hwrite : ec.writeEvents E header packetSeq = some (ec', bs)) (tail : List Bool) :
    SenderSound E posted ec' ∧ PacketOf E posted ((bs ++ tail).drop header.length) := by
  rw [writeEvents, writeQueue_eq (fun note hnote => (h.unordered note hnote).registered),
    Option.bind_eq_bind, Option.bind_some,
    writeQueue_eq (fun note hnote => (h.ordered note hnote).registered),
    Option.bind_some] at hwrite
  cases hwrite
  constructor
  · refine ⟨fun _ hnote => absurd hnote List.not_mem_nil,
      fun _ hnote => absurd hnote List.not_mem_nil, ?_, h.nextSend⟩
    intro seq notes hnotes note hnote
    split_ifs at hnotes
    · exact h.sent seq notes hnotes note hnote
    by_cases hseq : seq = packetSeq
    · rw [hseq, AList.lookup_insert] at hnotes
      cases hnotes
      cases List.mem_append.mp hnote with
      | inl hnote => exact h.unordered note (List.mem_of_mem_filter hnote)
      | inr hnote => exact (h.ordered note hnote).toNoteOf
    · rw [AList.lookup_insert_ne hseq] at hnotes
      exact h.sent seq notes hnotes note hnote
  · refine ⟨ec.unorderedSendQueue, ec.orderedSendQueue, tail, ?_, h.unordered, h.ordered⟩
    simp only [List.append_assoc, List.drop_left]

theorem lookup_of_erase {α : Type} {m : AList (fun _ : U32 => α)} {k seq : U32} {a : α}
    (h : (m.erase k).lookup seq = some a) : m.lookup seq = some a := by
  by_cases hseq : seq = k
  · rw [hseq, AList.lookup_erase] at h
    cases h
  · rwa [AList.lookup_erase_ne hseq] at h

theorem SenderSound.onPacketReceived (h : SenderSound E posted ec) (packetSeq : U32) :
    SenderSound E posted (ec.onPacketReceived packetSeq) :=
  ⟨h.unordered, h.ordered, fun seq notes hnotes => h.sent seq notes (lookup_of_erase hnotes),
    h.nextSend⟩

theorem SenderSound.requeue (h : SenderSound E posted ec) {note : EventNote ε}
    (hnote : NoteOf E posted note) : SenderSound E posted (requeue E ec note) := by
  rw [EventConnection.requeue]
  cases hguarantee : E.getGuaranteeType note.event with
  | unguaranteed => exact h
  | guaranteed =>
    exact ⟨List.forall_mem_cons.mpr ⟨hnote, h.unordered⟩, h.ordered, h.sent, h.nextSend⟩
  | guaranteedOrdered =>
    exact ⟨h.unordered, List.forall_mem_cons.mpr ⟨⟨hnote, hguarantee⟩, h.ordered⟩, h.sent,
      h.nextSend⟩

theorem SenderSound.onPacketDropped (h : SenderSound E posted ec) (packetSeq : U32) :
    SenderSound E posted (ec.onPacketDropped E packetSeq) := by
  rw [EventConnection.onPacketDropped]
  cases hevents : ec.sentEvents.lookup packetSeq with
  | none => exact h
  | some events =>
    have hfold : ∀ ec, SenderSound E posted ec →
        SenderSound E posted (events.foldl (EventConnection.requeue E) ec) := by
      have hnotes := h.sent packetSeq events hevents
      clear hevents
      induction events with
      | nil => exact fun ec hec => hec
      | cons note events ih =>
        exact fun ec hec => ih (fun note hnote => hnotes note (List.mem_cons_of_mem _ hnote)) _
          (hec.requeue (hnotes note List.mem_cons_self))
    have hrequeued := hfold ec h
    exact ⟨hrequeued.unordered, hrequeued.ordered,
      fun seq notes hnotes => hrequeued.sent seq notes (lookup_of_erase hnotes), hrequeued.nextSend⟩

/-! ### What is received -/

structure ReceiverSound (posted processed : List ε) (ec : EventConnection ε) : Prop where
  received : ∀ seq ev, ec.receivedEvents.lookup seq = some ev → posted[seq.toNat]? = some ev
  nextRecv : ec.nextRecvEventSeq.toNat = processed.length
  isPrefix : List.IsPrefix processed posted

theorem ReceiverSound.start : ReceiverSound [] [] (newEventConnection : EventConnection ε) where
  received := fun _ _ hev => by
    rw [newEventConnection, AList.lookup_empty] at hev
    cases hev
  nextRecv := rfl
  isPrefix := List.prefix_rfl

theorem ReceiverSound.append (h : ReceiverSound posted processed ec) (ev : ε) :
    ReceiverSound (posted ++ [ev]) processed ec :=
  ⟨fun seq ev' hev => getElem?_append_of_some (h.received seq ev' hev), h.nextRecv,
    h.isPrefix.trans (List.prefix_append ..)⟩

/-- Processing the event that is next. -/
theorem ReceiverSound.next (h : ReceiverSound posted processed ec) {ev : ε}
    (hev : ec.receivedEvents.lookup ec.nextRecvEventSeq = some ev) (hlen : posted.length < 2 ^ 32) :
    ReceiverSound posted (processed ++ [ev]) { ec with
      receivedEvents := ec.receivedEvents.erase ec.nextRecvEventSeq
      nextRecvEventSeq := ec.nextRecvEventSeq + 1 } := by
  have hposted := h.received _ _ hev
  have hnext := h.nextRecv
  obtain ⟨hlt, hget⟩ := List.getElem?_eq_some_iff.mp hposted
  constructor
  case received => exact fun seq ev' hev' => h.received seq ev' (lookup_of_erase hev')
  case nextRecv =>
    rw [List.length_append, List.length_singleton, ← hnext]
    bv_omega
  case isPrefix =>
    rw [List.prefix_iff_eq_take.mp h.isPrefix, ← hnext, ← hget, List.take_append_getElem hlt]
    exact List.take_prefix ..

theorem ReceiverSound.processReady (h : ReceiverSound posted processed ec)
    (hlen : posted.length < 2 ^ 32) (fuel : ℕ) :
    ReceiverSound posted (processed ++ (processReady fuel ec).2) (processReady fuel ec).1 := by
  induction fuel generalizing ec processed with
  | zero =>
    rw [EventConnection.processReady, List.append_nil]
    exact h
  | succ fuel ih =>
    rw [EventConnection.processReady]
    cases hev : ec.receivedEvents.lookup ec.nextRecvEventSeq with
    | none =>
      rw [List.append_nil]
      exact h
    | some ev =>
      rw [List.append_cons]
      exact ih (h.next hev hlen)

/-- An event for each run of the loop is enough: the next event is not there afterwards. -/
theorem processReady_done (fuel : ℕ) (hfuel : ec.receivedEvents.keys.length < fuel) :
    (processReady fuel ec).1.receivedEvents.lookup
      (processReady fuel ec).1.nextRecvEventSeq = none := by
  induction fuel generalizing ec with
  | zero => omega
  | succ fuel ih =>
    rw [processReady]
    cases hev : ec.receivedEvents.lookup ec.nextRecvEventSeq with
    | none => exact hev
    | some ev =>
      refine ih ?_
      have hmem : ec.nextRecvEventSeq ∈ ec.receivedEvents.keys :=
        AList.mem_keys.mpr (AList.lookup_isSome.mp (by rw [hev]; rfl))
      have hpos := List.length_pos_of_mem hmem
      rw [AList.keys_erase, List.length_erase_of_mem hmem]
      omega

theorem ReceiverSound.insert (h : ReceiverSound posted processed ec) {notes : List (EventNote ε)}
    (hnotes : ∀ note ∈ notes, OrderedNoteOf E posted note) :
    ReceiverSound posted processed { ec with
      receivedEvents := (notes.map (fun note => (readSequence E note, note.event))).foldl
        (fun (received : AList fun _ : U32 => ε) ev => received.insert (ev.1.getD 0) ev.2)
        ec.receivedEvents } := by
  induction notes generalizing ec with
  | nil => exact h
  | cons note notes ih =>
    obtain ⟨hnote, hnotes⟩ := List.forall_mem_cons.mp hnotes
    have hinsert : ReceiverSound posted processed { ec with
        receivedEvents := ec.receivedEvents.insert ((readSequence E note).getD 0) note.event } := by
      refine ⟨fun seq ev hev => ?_, h.nextRecv, h.isPrefix⟩
      rw [readSequence, if_pos hnote.ordered, Option.getD_some] at hev
      by_cases hseq : seq = note.sequence
      · rw [hseq, AList.lookup_insert] at hev
        cases hev
        rw [hseq]
        exact hnote.sequence hnote.ordered
      · rw [AList.lookup_insert_ne hseq] at hev
        exact h.received seq ev hev
    exact ih hinsert hnotes

theorem ReceiverSound.read (h : ReceiverSound posted processed ec) {body : List Bool}
    (hbody : PacketOf E posted body) (hlen : posted.length < 2 ^ 32) :
    ReceiverSound posted (processed ++ (ec.readEvents E ⟨body, false⟩).2.2.1)
      (ec.readEvents E ⟨body, false⟩).1 := by
  obtain ⟨unordered, ordered, tail, rfl, hunordered, hordered⟩ := hbody
  rw [readEvents]
  simp only [readQueue_eq (fun note hnote => (hunordered note hnote).registered) _
      (length_lt_flagged (noteBits E) unordered _),
    readQueue_eq (fun note hnote => (hordered note hnote).registered) _
      (length_lt_flagged (noteBits E) ordered _)]
  exact (h.insert hordered).processReady hlen _

/-! ### Runs -/

structure Sound (E : EventTypes ε) (s : EventStream ε) : Prop where
  sender : SenderSound E s.posted s.sender
  receiver : ReceiverSound s.posted s.processed s.receiver
  packets : ∀ body ∈ s.packets, PacketOf E s.posted body

theorem Sound.posted_length (h : Sound E s) : s.posted.length < 2 ^ 32 :=
  h.sender.nextSend ▸ s.sender.nextSendEventSeq.isLt

theorem Sound.start : Sound E (start : EventStream ε) :=
  ⟨SenderSound.start, ReceiverSound.start, fun _ hbody => absurd hbody List.not_mem_nil⟩

theorem Sound.step {t : EventStream ε} {a : Action ε} (h : Sound E s)
    (allowed : PostsRegistered E s a) (taken : step E s a = some t) : Sound E t := by
  cases a with
  | post ev =>
    cases taken
    obtain ⟨hev, hlen⟩ := allowed
    by_cases hordered : E.getGuaranteeType ev = .guaranteedOrdered
    · simp only [if_pos hordered]
      exact ⟨h.sender.postOrdered hev hordered (hlen hordered), h.receiver.append ev,
        fun body hbody => (h.packets body hbody).append ev⟩
    · simp only [if_neg hordered]
      exact ⟨h.sender.postUnordered hev hordered, h.receiver, h.packets⟩
  | write header packetSeq tail =>
    obtain ⟨⟨ec, bs⟩, hwrite, rfl⟩ := Option.map_eq_some_iff.mp taken
    obtain ⟨hsender, hpacket⟩ := h.sender.write hwrite tail
    refine ⟨hsender, h.receiver, fun body hbody => ?_⟩
    cases List.mem_append.mp hbody with
    | inl hbody => exact h.packets body hbody
    | inr hbody =>
      cases List.mem_singleton.mp hbody
      exact hpacket
  | deliver index =>
    obtain ⟨body, hbody, rfl⟩ := Option.map_eq_some_iff.mp taken
    exact ⟨h.sender, h.receiver.read (h.packets body (List.mem_of_getElem? hbody)) h.posted_length,
      h.packets⟩
  | received packetSeq =>
    cases taken
    exact ⟨h.sender.onPacketReceived packetSeq, h.receiver, h.packets⟩
  | dropped packetSeq =>
    cases taken
    exact ⟨h.sender.onPacketDropped packetSeq, h.receiver, h.packets⟩

/-- Whatever the network and the notifications do. -/
theorem processed_isPrefix {as : List (Action ε)}
    (h : Run (step E) (PostsRegistered E) start as s) : List.IsPrefix s.processed s.posted :=
  (h.invariant (I := Sound E) (fun _ _ _ hs allowed taken => hs.step allowed taken)
    Sound.start).receiver.isPrefix

/-- A message of one byte, as the only type of events. -/
def messages : EventTypes UInt8 where
  getGuaranteeType := fun _ => .guaranteedOrdered
  getEventID := fun _ => some 0
  createEvent := fun id => if id = 0 then some 0 else none
  pack := fun ev => bitsOf 8 ev.toNat
  unpack := fun _ bs => bs.readUint8
  unpack_guaranteeType := fun _ _ => rfl

theorem messages_registered (ev : UInt8) : messages.Registered ev := by
  refine ⟨0, by decide, rfl, 0, rfl, fun rest => ?_⟩
  change readUint8 ⟨bitsOf 8 ev.toNat ++ rest, false⟩ = _
  rw [readUint8, readBits_bitsOf, Nat.mod_eq_of_lt ev.toNat_lt]
  exact Prod.ext UInt8.ofNat_toNat rfl

/-- The second of two messages arrives first, the first is sent twice and arrives twice. -/
theorem processed_isPrefix_reordered : ∃ s : EventStream UInt8,
    s.processed = [7, 8] ∧ List.IsPrefix s.processed s.posted := by
  have run : ∃ as s, Run (step messages) (PostsRegistered messages) start as s ∧
      s.processed = [7, 8] :=
    ⟨[.post 7, .write [] 0 [], .post 8, .write [true] 1 [], .deliver 1, .dropped 0,
      .write [] 2 [true], .deliver 2, .deliver 0, .received 1], _,
      .cons ⟨messages_registered 7, fun _ => by decide⟩ rfl <| .cons trivial rfl <|
      .cons ⟨messages_registered 8, fun _ => by decide⟩ rfl <| .cons trivial rfl <|
      .cons trivial rfl <| .cons trivial rfl <| .cons trivial rfl <| .cons trivial rfl <|
      .cons trivial rfl <| .cons trivial rfl <| .nil _, by decide +kernel⟩
  obtain ⟨as, s, run, hprocessed⟩ := run
  exact ⟨s, hprocessed, processed_isPrefix run⟩

end EventStream

end TNL.Go
