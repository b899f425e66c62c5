import TNL.Go.OrderedEvents
import TNL.Go.ProcessPacket
import TNL.Library.Mutex

/-!
# Handlers of events in the Go port

The layers of a connection have a mutex each. The header of a packet is read under
the first one, and the callbacks lock the other two. Events are processed while
the second one is held, and with them runs what their handlers do. A call is given
the mutexes that its goroutine holds.
-/
namespace TNL.Go
open Library

/-- The `mu` of each of the three layers. -/
inductive Mutex where
  | netConnection
  | eventConnection
  | ghostConnection
  deriving DecidableEq

namespace Calls
open EventConnection

variable {ε ω τ : Type} (E : EventTypes ε) (R : ObjectTypes ω τ) (posts : ε → List ε)

def onPacketReceived (held : List Mutex) (ec : EventConnection ε) (sequence : U32) :
    Option (EventConnection ε) :=
  locked held .eventConnection fun _ => some (ec.onPacketReceived sequence)

def onPacketDropped (held : List Mutex) (ec : EventConnection ε) (sequence : U32) :
    Option (EventConnection ε) :=
  locked held .eventConnection fun _ => some (ec.onPacketDropped E sequence)

def onGhostPacketReceived (held : List Mutex) (gc : GhostConnection ω) (sequence : U32) :
    Option (GhostConnection ω) :=
  locked held .ghostConnection fun _ => some (gc.onGhostPacketReceived sequence)

def onGhostPacketDropped (held : List Mutex) (gc : GhostConnection ω) (sequence : U32) :
    Option (GhostConnection ω) :=
  locked held .ghostConnection fun _ => some (gc.onGhostPacketDropped sequence)

def postEvent (held : List Mutex) (ec : EventConnection ε) (ev : ε) : Option (EventConnection ε) :=
  locked held .eventConnection fun _ => some (ec.postEvent E ev)

/-- The handler of an event posts some events. -/
def process (held : List Mutex) (ec : EventConnection ε) (ev : ε) : Option (EventConnection ε) :=
  (posts ev).foldlM (postEvent E held) ec

/-- A loop that does not end has no result either. -/
def readUnordered (held : List Mutex) :
    ℕ → EventConnection ε → BitReader → Option (EventConnection ε × BitReader)
  | 0, _, _ => none
  | fuel + 1, ec, bs =>
    let (more, bs) := bs.readFlag
    if more then
      let (ev, _, bs) := readEvent E bs
      (ev.toList.foldlM (process E posts held) ec).bind fun ec => readUnordered held fuel ec bs
    else some (ec, bs)

def readOrdered : ℕ → EventConnection ε → BitReader → Option (EventConnection ε × BitReader)
  | 0, _, _ => none
  | fuel + 1, ec, bs =>
    let (more, bs) := bs.readFlag
    if more then
      let (ev, seq, bs) := readEvent E bs
      readOrdered fuel { ec with
        receivedEvents := ev.toList.foldl
          (fun (received : AList fun _ : U32 => ε) ev => received.insert (seq.getD 0) ev)
          ec.receivedEvents } bs
    else some (ec, bs)

def processReady (held : List Mutex) : ℕ → EventConnection ε → Option (EventConnection ε)
  | 0, _ => none
  | fuel + 1, ec =>
    match ec.receivedEvents.lookup ec.nextRecvEventSeq with
    | none => some ec
    | some ev =>
      (process E posts held ec ev).bind fun ec => processReady held fuel { ec with
        receivedEvents := ec.receivedEvents.erase ec.nextRecvEventSeq
        nextRecvEventSeq := ec.nextRecvEventSeq + 1 }

def readEvents (held : List Mutex) (ec : EventConnection ε) (bs : BitReader) :
    Option (EventConnection ε × BitReader) :=
  locked held .eventConnection fun held => do
    let (ec, bs) ← readUnordered E posts held (bs.rest.length + 1) ec bs
    let (ec, bs) ← readOrdered E (bs.rest.length + 1) ec bs
    let ec ← processReady E posts held (ec.receivedEvents.entries.length + 1) ec
    return (ec, bs)

/-- The callback of the events, and then the one of the ghosts. -/
def notify (held : List Mutex) (c : Connection ε ω) (o : Outcome) : Option (Connection ε ω) := do
  let events ← if o.received then onPacketReceived held c.events o.note.sequence
    else onPacketDropped E held c.events o.note.sequence
  let ghosts ← if o.received then onGhostPacketReceived held c.ghosts o.note.sequence
    else onGhostPacketDropped held c.ghosts o.note.sequence
  return { c with events := events, ghosts := ghosts }

def readPacketHeader (held : List Mutex) (c : Connection ε ω) (bs : BitReader) :
    Option (Connection ε ω × ReadHeader) :=
  locked held .netConnection fun held =>
    let r := c.net.readPacketHeader bs
    (r.outcomes.foldlM (notify E held) { c with net := r.conn }).map fun c => (c, r)

def readGhosts (held : List Mutex) (gc : GhostConnection ω) (bs : BitReader) :
    Option (GhostConnection ω) :=
  locked held .ghostConnection fun _ => some (gc.readGhosts R bs).1

def processPacket (held : List Mutex) (c : Connection ε ω) (bs : BitReader) :
    Option (Connection ε ω) := do
  let (c, r) ← readPacketHeader E held c bs
  if r.body then
    let (events, bs) ← readEvents E posts held c.events r.rest
    let ghosts ← readGhosts R held c.ghosts bs
    return { c with events := events, ghosts := ghosts }
  else return c

end Calls

/-- Unpacking an event does not lengthen the packet. -/
def EventTypes.UnpackReads {ε : Type} (E : EventTypes ε) : Prop :=
  ∀ ev bs, (E.unpack ev bs).2.rest.length ≤ bs.rest.length

namespace EventConnection

variable {ε : Type} (E : EventTypes ε)

/-- The events of the first part of a packet. -/
def unorderedOf (bs : BitReader) : List ε := (readQueue E (bs.rest.length + 1) bs).1.map Prod.snd

/-- The ordered events that are there when the packet has been read. -/
def arrived (ec : EventConnection ε) (bs : BitReader) : AList (fun _ : U32 => ε) :=
  let bs := (readQueue E (bs.rest.length + 1) bs).2
  (readQueue E (bs.rest.length + 1) bs).1.foldl
    (fun (received : AList fun _ : U32 => ε) ev => received.insert (ev.1.getD 0) ev.2)
    ec.receivedEvents

/-- There is an event for every sequence from the next one up to this one, which is the last of them. -/
def Consecutive (received : AList (fun _ : U32 => ε)) (next : U32) (ev : ε) : Prop :=
  ∃ n : U32, (∀ m ≤ n, (received.lookup (next + m)).isSome) ∧ received.lookup (next + n) = some ev

/-- A packet brings an event to its handler. -/
def Handles (ec : EventConnection ε) (bs : BitReader) (ev : ε) : Prop :=
  ev ∈ unorderedOf E bs ∨ Consecutive (ec.arrived E bs) ec.nextRecvEventSeq ev

/-- These events have been put at the ends of their queues, in this order. -/
structure Queued (ec : EventConnection ε) (posted : List ε) (ec' : EventConnection ε) : Prop where
  unordered : ec'.unorderedSendQueue.map EventNote.event = ec.unorderedSendQueue.map EventNote.event ++
    posted.filter (fun ev => E.getGuaranteeType ev ≠ .guaranteedOrdered)
  ordered : ec'.orderedSendQueue.map EventNote.event = ec.orderedSendQueue.map EventNote.event ++
    posted.filter (fun ev => E.getGuaranteeType ev = .guaranteedOrdered)

end EventConnection

namespace BitReader

variable (bs : BitReader)

theorem readBits_length_le (nbits : ℕ) : (bs.readBits nbits).2.rest.length ≤ bs.rest.length := by
  rw [readBits]
  split_ifs with herr hshort
  · exact le_rfl
  · exact Nat.zero_le _
  · rw [List.length_drop]
    omega

theorem readFlag_length_lt (h : bs.readFlag.1 = true) :
    bs.readFlag.2.rest.length < bs.rest.length := by
  obtain ⟨rest, err⟩ := bs
  cases err with
  | true => cases h
  | false =>
    cases rest with
    | nil => cases h
    | cons bit rest => exact Nat.lt_succ_self _

end BitReader

namespace Calls
open EventConnection

variable {ε ω τ : Type} {E : EventTypes ε} {R : ObjectTypes ω τ} {posts : ε → List ε}
  {held : List Mutex} {ec : EventConnection ε} {ev : ε}

theorem readEvent_length_le (hunpack : E.UnpackReads) (bs : BitReader) :
    (readEvent E bs).2.2.rest.length ≤ bs.rest.length := by
  have hid : (bs.readRangedUint32 0 1024).2.rest.length ≤ bs.rest.length :=
    bs.readBits_length_le _
  rw [readEvent]
  dsimp only
  generalize bs.readRangedUint32 0 1024 = read at hid ⊢
  cases E.createEvent read.1 with
  | none => exact hid
  | some ev =>
    dsimp only
    split_ifs with hordered
    · exact (hunpack ev _).trans ((read.2.readBits_length_le 32).trans hid)
    · exact (hunpack ev _).trans hid

/-! ### What handlers do under the mutex -/

theorem process_of_held (hheld : .eventConnection ∈ held) :
    process E posts held ec ev = if posts ev = [] then some ec else none :=
  foldlM_locked_of_mem hheld (fun (ec : EventConnection ε) ev _ => some (ec.postEvent E ev)) ec
    (posts ev)

theorem readUnordered_eq (hunpack : E.UnpackReads) (hheld : .eventConnection ∈ held) {fuel : ℕ}
    {bs : BitReader} (hfuel : bs.rest.length < fuel) :
    readUnordered E posts held fuel ec bs =
      if ∀ ev ∈ (readQueue E fuel bs).1, posts ev.2 = [] then some (ec, (readQueue E fuel bs).2)
      else none := by
  induction fuel generalizing bs with
  | zero => omega
  | succ fuel ih =>
    rw [readUnordered, readQueue]
    by_cases hmore : bs.readFlag.1 = true
    case neg => simp [hmore]
    case pos =>
      have hlt := bs.readFlag_length_lt hmore
      have hle := readEvent_length_le hunpack bs.readFlag.2
      simp only [hmore, if_true]
      generalize readEvent E bs.readFlag.2 = read at hle ⊢
      obtain ⟨ev, seq, rest⟩ := read
      dsimp only at hle ⊢
      have hrest := @ih rest (by omega)
      cases ev with
      | none =>
        rw [Option.toList_none, List.foldlM_nil, Option.map_none, Option.toList_none,
          List.nil_append]
        exact hrest
      | some ev =>
        rw [Option.toList_some, List.foldlM_cons, process_of_held hheld, Option.map_some,
          Option.toList_some, List.singleton_append]
        by_cases hpost : posts ev = []
        · rw [if_pos hpost]
          exact hrest.trans (if_congr (by simp [hpost]) rfl rfl)
        · rw [if_neg hpost, if_neg (fun habs => hpost (habs _ List.mem_cons_self))]
          rfl

theorem readOrdered_eq (hunpack : E.UnpackReads) {fuel : ℕ} {bs : BitReader}
    (hfuel : bs.rest.length < fuel) :
    readOrdered E fuel ec bs = some ({ ec with
      receivedEvents := (readQueue E fuel bs).1.foldl
        (fun (received : AList fun _ : U32 => ε) ev => received.insert (ev.1.getD 0) ev.2)
        ec.receivedEvents }, (readQueue E fuel bs).2) := by
  induction fuel generalizing ec bs with
  | zero => omega
  | succ fuel ih =>
    rw [readOrdered, readQueue]
    dsimp only
    cases hmore : bs.readFlag.1 with
    | false => rfl
    | true =>
      have hlt := bs.readFlag_length_lt hmore
      have hle := readEvent_length_le hunpack bs.readFlag.2
      rw [if_pos rfl, if_pos rfl]
      generalize readEvent E bs.readFlag.2 = read at hle ⊢
      obtain ⟨ev, seq, rest⟩ := read
      dsimp only at hle ⊢
      rw [ih (by omega), List.foldl_append]
      cases ev <;> rfl

theorem processReady_eq (hheld : .eventConnection ∈ held) {fuel : ℕ}
    (hfuel : ec.receivedEvents.keys.length < fuel) :
    processReady E posts held fuel ec =
      if ∀ ev ∈ (EventConnection.processReady fuel ec).2, posts ev = [] then
        some (EventConnection.processReady fuel ec).1
      else none := by
  induction fuel generalizing ec with
  | zero => omega
  | succ fuel ih =>
    rw [processReady, EventConnection.processReady]
    cases hev : ec.receivedEvents.lookup ec.nextRecvEventSeq with
    | none => simp
    | some ev =>
      dsimp only
      rw [process_of_held hheld]
      by_cases hpost : posts ev = []
      · have hmem : ec.nextRecvEventSeq ∈ ec.receivedEvents.keys :=
          AList.mem_keys.mpr (AList.lookup_isSome.mp (by rw [hev]; rfl))
        have hpos := List.length_pos_of_mem hmem
        rw [if_pos hpost, Option.bind_some, ih]
        · exact if_congr (by simp [hpost]) rfl rfl
        · rw [AList.keys_erase, List.length_erase_of_mem hmem]
          omega
      · rw [if_neg hpost, if_neg (fun habs => hpost (habs _ List.mem_cons_self))]
        rfl

theorem readEvents_eq (hunpack : E.UnpackReads) (hheld : .eventConnection ∉ held) (bs : BitReader) :
    readEvents E posts held ec bs =
      if ∀ ev ∈ (ec.readEvents E bs).2.1 ++ (ec.readEvents E bs).2.2.1, posts ev = [] then
        some ((ec.readEvents E bs).1, (ec.readEvents E bs).2.2.2)
      else none := by
  have hinner : Mutex.eventConnection ∈ .eventConnection :: held := List.mem_cons_self
  rw [readEvents, locked_of_notMem hheld, EventConnection.readEvents]
  simp only [List.forall_mem_append, List.forall_mem_map]
  by_cases hunordered : ∀ ev ∈ (readQueue E (bs.rest.length + 1) bs).1, posts ev.2 = []
  · rw [readUnordered_eq hunpack hinner (Nat.lt_succ_self _), if_pos hunordered,
      Option.bind_eq_bind, Option.bind_some, readOrdered_eq hunpack (Nat.lt_succ_self _),
      Option.bind_some, processReady_eq hinner (by rw [AList.keys, List.keys, List.length_map]; omega),
      if_congr (and_iff_right hunordered) rfl rfl]
    split_ifs <;> rfl
  · rw [readUnordered_eq hunpack hinner (Nat.lt_succ_self _), if_neg hunordered,
      if_neg (fun habs => hunordered habs.1)]
    rfl

/-! ### Which events reach their handlers -/

/-- An event is forgotten when it has been processed, so that a sequence is looked at once. -/
theorem consecutive_cons {received : AList (fun _ : U32 => ε)} {next : U32} {first : ε}
    (hfirst : received.lookup next = some first) : Consecutive received next ev ↔
      ev = first ∨ Consecutive (received.erase next) (next + 1) ev := by
  have hzero : received.lookup (next + 0) = some first := by rw [← hfirst]; congr 1; bv_omega
  constructor
  · rintro ⟨n, hall, hev⟩
    by_cases hn : n = 0
    · subst hn
      exact .inl (Option.some.inj (hev.symm.trans hzero))
    · right
      have herase : ∀ m ≤ n - 1, (received.erase next).lookup (next + 1 + m) =
          received.lookup (next + (m + 1)) := by
        intro m hm
        rw [AList.lookup_erase_ne (by bv_omega)]
        congr 1
        bv_omega
      refine ⟨n - 1, ?_, ?_⟩
      · intro m hm
        rw [herase m hm]
        exact hall (m + 1) (by bv_omega)
      · rw [herase (n - 1) (BitVec.le_refl _), ← hev]
        congr 1
        bv_omega
  · rintro (rfl | ⟨n, hall, hev⟩)
    · refine ⟨0, ?_, hzero⟩
      intro m hm
      obtain rfl : m = 0 := by bv_omega
      rw [hzero]
      rfl
    · have hlast : n ≠ -1 := by
        rintro rfl
        have hnone := AList.lookup_erase next received
        rw [show next + 1 + -1 = next by bv_omega, hnone] at hev
        cases hev
      have hmore : ∀ m ≤ n, (received.lookup (next + (m + 1))).isSome := by
        intro m hm
        obtain ⟨ev', hev'⟩ := Option.isSome_iff_exists.mp (hall m hm)
        have hkept := EventStream.lookup_of_erase hev'
        rw [show next + (m + 1) = next + 1 + m by bv_omega, hkept]
        rfl
      refine ⟨n + 1, ?_, ?_⟩
      · intro m hm
        by_cases hm0 : m = 0
        · subst hm0
          rw [hzero]
          rfl
        · have hprev := hmore (m - 1) (by bv_omega)
          rw [show m - 1 + 1 = m by bv_omega] at hprev
          exact hprev
      · rw [show next + (n + 1) = next + 1 + n by bv_omega]
        exact EventStream.lookup_of_erase hev

theorem mem_processReady (ec : EventConnection ε) {fuel : ℕ}
    (hfuel : ec.receivedEvents.keys.length < fuel) :
    ev ∈ (EventConnection.processReady fuel ec).2 ↔
      Consecutive ec.receivedEvents ec.nextRecvEventSeq ev := by
  induction fuel generalizing ec with
  | zero => omega
  | succ fuel ih =>
    rw [EventConnection.processReady]
    cases hfirst : ec.receivedEvents.lookup ec.nextRecvEventSeq with
    | none =>
      constructor
      · exact fun hmem => absurd hmem List.not_mem_nil
      · rintro ⟨n, hall, -⟩
        have hsome := hall 0 (Nat.zero_le _)
        rw [show ec.nextRecvEventSeq + 0 = ec.nextRecvEventSeq by bv_omega, hfirst] at hsome
        cases hsome
    | some first =>
      have hmem : ec.nextRecvEventSeq ∈ ec.receivedEvents.keys :=
        AList.mem_keys.mpr (AList.lookup_isSome.mp (by rw [hfirst]; rfl))
      have hpos := List.length_pos_of_mem hmem
      rw [consecutive_cons hfirst]
      dsimp only
      rw [List.mem_cons, ih]
      rw [AList.keys_erase, List.length_erase_of_mem hmem]
      omega

theorem mem_readEvents {bs : BitReader} :
    ev ∈ (ec.readEvents E bs).2.1 ++ (ec.readEvents E bs).2.2.1 ↔ ec.Handles E bs ev := by
  have hfuel : (ec.arrived E bs).keys.length < (ec.arrived E bs).entries.length + 1 := by
    rw [AList.keys, List.keys, List.length_map]
    exact Nat.lt_succ_self _
  rw [List.mem_append]
  exact or_congr Iff.rfl (mem_processReady { ec with receivedEvents := ec.arrived E bs } hfuel)

/-! ### The whole packet -/

theorem notify_eq (hevent : .eventConnection ∉ held) (hghost : .ghostConnection ∉ held)
    (c : Connection ε ω) (o : Outcome) : notify E held c o = some (c.notify E o) := by
  rw [notify, Connection.notify, onPacketReceived, onPacketDropped, onGhostPacketReceived,
    onGhostPacketDropped, locked_of_notMem hevent, locked_of_notMem hevent,
    locked_of_notMem hghost, locked_of_notMem hghost]
  split_ifs <;> rfl

/-- The callbacks lock other mutexes than the one that the header is read under. -/
theorem foldlM_notify (outcomes : List Outcome) (c : Connection ε ω) :
    outcomes.foldlM (notify E [.netConnection]) c =
      some (outcomes.foldl (Connection.notify E) c) := by
  induction outcomes generalizing c with
  | nil => rfl
  | cons o outcomes ih =>
    rw [List.foldlM_cons, notify_eq (by decide) (by decide)]
    exact ih _

theorem readPacketHeader_eq (c : Connection ε ω) (bs : BitReader) :
    readPacketHeader E [] c bs = some ((c.net.readPacketHeader bs).outcomes.foldl
      (Connection.notify E) { c with net := (c.net.readPacketHeader bs).conn },
        c.net.readPacketHeader bs) := by
  rw [readPacketHeader, locked_of_notMem List.not_mem_nil]
  generalize c.net.readPacketHeader bs = r
  dsimp only
  rw [foldlM_notify]
  rfl

/-- A packet is processed, unless it brings an event to a handler that posts one. -/
theorem processPacket_eq (hunpack : E.UnpackReads) (c : Connection ε ω) (bs : BitReader) :
    processPacket E R posts [] c bs =
      if ∀ ev ∈ (c.processPacket E R bs).events, posts ev = [] then
        some (c.processPacket E R bs).conn
      else none := by
  rw [processPacket, readPacketHeader_eq, Option.bind_eq_bind, Option.bind_some,
    Connection.processPacket]
  generalize c.net.readPacketHeader bs = r
  dsimp only
  generalize r.outcomes.foldl (Connection.notify E) { c with net := r.conn } = d
  by_cases hbody : r.body = true
  · simp only [if_pos hbody]
    rw [readEvents_eq hunpack List.not_mem_nil]
    split_ifs <;> rfl
  · simp [hbody]

theorem sendQueues_processReady (fuel : ℕ) (ec : EventConnection ε) :
    (EventConnection.processReady fuel ec).1.unorderedSendQueue = ec.unorderedSendQueue ∧
      (EventConnection.processReady fuel ec).1.orderedSendQueue = ec.orderedSendQueue := by
  induction fuel generalizing ec with
  | zero => exact ⟨rfl, rfl⟩
  | succ fuel ih =>
    rw [EventConnection.processReady]
    cases ec.receivedEvents.lookup ec.nextRecvEventSeq with
    | none => exact ⟨rfl, rfl⟩
    | some ev => exact ih _

theorem queued_readEvents (ec : EventConnection ε) (bs : BitReader) :
    Queued E ec [] (ec.readEvents E bs).1 := by
  obtain ⟨hunordered, hordered⟩ := sendQueues_processReady
    ((ec.arrived E bs).entries.length + 1) { ec with receivedEvents := ec.arrived E bs }
  constructor
  · exact (congrArg (List.map EventNote.event) hunordered).trans (List.append_nil _).symm
  · exact (congrArg (List.map EventNote.event) hordered).trans (List.append_nil _).symm

/-- Handlers can post events exactly when none of them does: the first one that does waits for the
call that it was called by. -/
theorem readEvents_returns_iff (hunpack : E.UnpackReads) (c : Connection ε ω)
    (packet bs : BitReader) :
    ((readPacketHeader E [] c packet).isSome ∧
      ∃ ec rest, readEvents E posts [] c.events bs = some (ec, rest) ∧
        Queued E c.events (((c.events.readEvents E bs).2.1 ++
          (c.events.readEvents E bs).2.2.1).flatMap posts) ec) ↔
      ∀ ev, c.events.Handles E bs ev → posts ev = [] := by
  rw [readEvents_eq hunpack List.not_mem_nil]
  constructor
  · rintro ⟨-, ec, rest, hread, -⟩ ev hev
    split_ifs at hread with hposts
    exact hposts ev (mem_readEvents.mpr hev)
  · intro hnone
    have hposts : ∀ ev ∈ (c.events.readEvents E bs).2.1 ++ (c.events.readEvents E bs).2.2.1,
        posts ev = [] := fun ev hev => hnone ev (mem_readEvents.mp hev)
    refine ⟨by rw [readPacketHeader_eq]; rfl, _, _, if_pos hposts, ?_⟩
    rw [List.flatMap_eq_nil_iff.mpr hposts]
    exact queued_readEvents c.events bs

theorem unpackReads_messages : EventStream.messages.UnpackReads :=
  fun _ bs => bs.readBits_length_le 8

/-- One message is answered. -/
def answer (ev : UInt8) : List UInt8 := if ev = 7 then [8] else []

/-- A packet with one ordered event, the first one. -/
def oneMessage (ev : UInt8) : BitReader :=
  ⟨false :: true :: (bitsOf 11 0 ++ bitsOf 32 0 ++ bitsOf 8 ev.toNat ++ [false]), false⟩

theorem readEvents_returns_iff_answer :
    ((readPacketHeader EventStream.messages [] (.newConnection 0 0 : Connection UInt8 Unit)
        (oneMessage 9)).isSome ∧
      ∃ ec rest, readEvents EventStream.messages answer [] newEventConnection (oneMessage 9) =
          some (ec, rest) ∧
        Queued EventStream.messages newEventConnection
          (((newEventConnection.readEvents EventStream.messages (oneMessage 9)).2.1 ++
            (newEventConnection.readEvents EventStream.messages (oneMessage 9)).2.2.1).flatMap
              answer) ec) ↔
      ∀ ev, newEventConnection.Handles EventStream.messages (oneMessage 9) ev → answer ev = [] :=
  readEvents_returns_iff unpackReads_messages (.newConnection 0 0) (oneMessage 9) (oneMessage 9)

theorem answer_waits : ¬ ∀ (ε : Type) (E : EventTypes ε) (posts : ε → List ε), E.UnpackReads →
    ∀ (ec : EventConnection ε) (bs : BitReader), ∃ ec' rest,
      readEvents E posts [] ec bs = some (ec', rest) ∧
        Queued E ec (((ec.readEvents E bs).2.1 ++ (ec.readEvents E bs).2.2.1).flatMap posts) ec' := by
  intro h
  obtain ⟨ec, rest, hread, -⟩ := h UInt8 EventStream.messages answer unpackReads_messages
    newEventConnection (oneMessage 7)
  have hnone : (readEvents EventStream.messages answer [] newEventConnection
      (oneMessage 7)).isSome = false := by decide +kernel
  rw [hread] at hnone
  cases hnone

end Calls

end TNL.Go
