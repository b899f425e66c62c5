import Mathlib.Data.List.Basic
import TNL.Connection.Header
import TNL.Library.Run

/-!
# The position that points are written relative to

A server writes points relative to its control object, and writes the state of the object only if
its sum is not the one in the last packet of the client. A client adds the position that it had
when it wrote the last packet that it knows to have arrived, or that of the last state it has read.
-/
namespace TNL
open Library

/-- A control object, by its index among the ghosts, or -1, and what `writeControlState` writes. -/
structure ControlObject (ω : Type*) where
  ghostIndex : ℤ
  state : ω

/-- The position in a state, and the sum of the bytes of an index and a state. -/
structure ControlStates (ω π : Type*) where
  getActualPos : ω → π
  calculateCRC : ControlObject ω → U32

/-- What a packet of the client has, its note, and the control object at the time. -/
structure ControlRequest (ω π : Type*) where
  controlCRC : U32
  lastControlObjectPosition : π
  controlObject : Option (ControlObject ω)

/-- What a packet of the server has, and the position that is subtracted from its points. A state
is only written if the client has a ghost of the object. -/
structure ControlUpdate (ω π : Type*) where
  controlObjectValid : Bool
  update : Option (Option (ControlObject ω))
  mServerPosition : π

/-- The members of a connection that have to do with points. -/
structure PointConnection (ω π : Type*) where
  controlObject : Option (ControlObject ω)
  mLastClientControlCRC : U32
  mServerPosition : π
  mCompressPointsRelative : Bool

namespace PointConnection

variable {ω π : Type*} (states : ControlStates ω π)

def new [Zero π] : PointConnection ω π := ⟨none, 0, 0, false⟩

def getControlCRC (c : PointConnection ω π) : U32 :=
  match c.controlObject with
  | none => 0
  | some co => states.calculateCRC co

def packetReceived (c : PointConnection ω π) (lastControlObjectPosition : π) :
    PointConnection ω π :=
  { c with mServerPosition := lastControlObjectPosition }

def writeRequest [Zero π] (c : PointConnection ω π) : ControlRequest ω π where
  controlCRC := c.getControlCRC states
  lastControlObjectPosition :=
    match c.controlObject with
    | none => 0
    | some co => states.getActualPos co.state
  controlObject := c.controlObject

def readRequest (c : PointConnection ω π) (request : ControlRequest ω π) : PointConnection ω π :=
  { c with mLastClientControlCRC := request.controlCRC }

def writeUpdate (c : PointConnection ω π) : ControlUpdate ω π × PointConnection ω π :=
  let (ghostIndex, mServerPosition) :=
    match c.controlObject with
    | none => (-1, c.mServerPosition)
    | some co => (co.ghostIndex, states.getActualPos co.state)
  let valid := ghostIndex != -1
  let update :=
    if c.getControlCRC states ≠ c.mLastClientControlCRC then
      some (if valid then c.controlObject else none)
    else none
  (⟨valid, update, mServerPosition⟩,
    { c with mServerPosition := mServerPosition, mCompressPointsRelative := valid })

def readUpdate (c : PointConnection ω π) (packet : ControlUpdate ω π) : PointConnection ω π :=
  let c := { c with mCompressPointsRelative := packet.controlObjectValid }
  match packet.update with
  | none => c
  | some none => { c with controlObject := none }
  | some (some co) =>
    { c with controlObject := some co, mServerPosition := states.getActualPos co.state }

end PointConnection

/-- A packet of the server: what became of the client's packets as far as the server knows, and the
data if it is more than a header. -/
structure PointPacket (ω π : Type*) where
  statuses : List Bool
  data : Option (ControlUpdate ω π)

/-- A client and a server. `sent` are all packets of the client, `statuses` what became of those
that have arrived or been lost, and `told` what the client knows of that. `read` are the packets
that the client has read. -/
structure PointLink (ω π : Type*) where
  client : PointConnection ω π
  server : PointConnection ω π
  sent : List (ControlRequest ω π)
  statuses : List Bool
  told : List Bool
  toClient : List (PointPacket ω π)
  read : List (PointPacket ω π)

namespace PointLink

variable {ω π : Type*}

inductive Action (ω : Type*) where
  | clientMove (controlObject : Option (ControlObject ω))
  | serverMove (controlObject : Option (ControlObject ω))
  | clientWrite
  | serverNotified
  | serverRead (received : Bool)
  | serverWrite (dataPacket : Bool)
  | clientRead (received : Bool)

def start [Zero π] : PointLink ω π := ⟨.new, .new, [], [], [], [], []⟩

/-- The packets that have arrived. -/
def received (sent : List (ControlRequest ω π)) (statuses : List Bool) :
    List (ControlRequest ω π) :=
  ((sent.zip statuses).filter (·.2)).map (·.1)

/-- The client is told of its packets first, and of each once. -/
def readPacket (states : ControlStates ω π) (s : PointLink ω π) (packet : PointPacket ω π) :
    PointConnection ω π :=
  let news := received (s.sent.drop s.told.length) (packet.statuses.drop s.told.length)
  let client := news.foldl (fun client request =>
    client.packetReceived request.lastControlObjectPosition) s.client
  match packet.data with
  | none => client
  | some data => client.readUpdate states data

/-- The objects move in any way, and a packet that comes to its end has arrived or is lost. The
notes of the server's packets have no position. -/
def step [Zero π] (states : ControlStates ω π) (s : PointLink ω π) :
    Action ω → Option (PointLink ω π)
  | .clientMove controlObject => some { s with
      client := { s.client with controlObject := controlObject } }
  | .serverMove controlObject => some { s with
      server := { s.server with controlObject := controlObject } }
  | .serverNotified => some { s with server := s.server.packetReceived 0 }
  | .clientWrite => some { s with sent := s.sent ++ [s.client.writeRequest states] }
  | .serverRead received =>
    (s.sent.drop s.statuses.length).head?.map fun request => { s with
      server := if received then s.server.readRequest request else s.server
      statuses := s.statuses ++ [received] }
  | .serverWrite dataPacket =>
    if dataPacket then
      let (data, server) := s.server.writeUpdate states
      some { s with server := server, toClient := s.toClient ++ [⟨s.statuses, some data⟩] }
    else some { s with toClient := s.toClient ++ [⟨s.statuses, none⟩] }
  | .clientRead received =>
    match s.toClient with
    | [] => none
    | packet :: toClient =>
      if received then some { s with
        client := s.readPacket states packet
        told := packet.statuses
        toClient := toClient
        read := s.read ++ [packet] }
      else some { s with toClient := toClient }

/-- The position of the last packet that has arrived. -/
def acked [Zero π] (sent : List (ControlRequest ω π)) (statuses : List Bool) : π :=
  ((received sent statuses).getLast?.map (·.lastControlObjectPosition)).getD 0

/-- The position of the state in a packet. -/
def updated (states : ControlStates ω π) (packet : PointPacket ω π) : Option π :=
  packet.data.bind fun data => data.update.join.map fun co => states.getActualPos co.state

/-- The position of the last state among the packets that were written when `n` packets of the
client had arrived. -/
def lastUpdate (states : ControlStates ω π) (read : List (PointPacket ω π)) (n : ℕ) : Option π :=
  ((read.filter (·.statuses.count true = n)).filterMap (updated states)).getLast?

/-- Points that are relative are read with the position that was subtracted. -/
def Agrees [Zero π] (states : ControlStates ω π) (s : PointLink ω π) (a : Action ω) : Prop :=
  a = .clientRead true → ∀ s', s.step states a = some s' → ∀ packet ∈ s.toClient.head?,
    ∀ data ∈ packet.data, data.controlObjectValid = true →
      s'.client.mServerPosition = data.mServerPosition

/-- No sum is that of another state. -/
def CollisionFree (states : ControlStates ω π) (s : PointLink ω π) : Action ω → Prop
  | .serverWrite true => s.server.getControlCRC states = s.server.mLastClientControlCRC →
      s.server.controlObject.map ControlObject.state =
        (((received s.sent s.statuses).getLast?.bind ControlRequest.controlObject).map
          ControlObject.state)
  | _ => True

/-- If a packet has no state, then the last state that came in a packet that was written since the
same packet of the client had arrived was at the same position. -/
def Settled (states : ControlStates ω π) (s : PointLink ω π) : Action ω → Prop
  | .clientRead true => ∀ packet ∈ s.toClient.head?, ∀ data ∈ packet.data,
      data.controlObjectValid = true → data.update = none →
        ∀ position ∈ lastUpdate states s.read (packet.statuses.count true),
          position = data.mServerPosition
  | _ => True

/-! ### Packets that have arrived -/

section received

variable {sent : List (ControlRequest ω π)} {statuses : List Bool}

theorem received_append (sent : List (ControlRequest ω π)) (statuses more : List Bool) :
    received sent (statuses ++ more) =
      received sent statuses ++ received (sent.drop statuses.length) more := by
  induction statuses generalizing sent with
  | nil => simp [received]
  | cons b statuses ih =>
    cases sent with
    | nil => simp [received]
    | cons request sent =>
      have htail := ih sent
      cases b <;> simp [received] at htail ⊢ <;> exact htail

theorem received_concat (h : statuses.length ≤ sent.length) (request : ControlRequest ω π) :
    received (sent ++ [request]) statuses = received sent statuses := by
  induction statuses generalizing sent with
  | nil => simp [received]
  | cons b statuses ih =>
    cases sent with
    | nil => simp at h
    | cons first sent =>
      have htail := ih (Nat.le_of_succ_le_succ h)
      cases b <;> simp [received] at htail ⊢ <;> exact htail

theorem length_received (h : statuses.length ≤ sent.length) :
    (received sent statuses).length = statuses.count true := by
  induction statuses generalizing sent with
  | nil => simp [received]
  | cons b statuses ih =>
    cases sent with
    | nil => simp at h
    | cons request sent =>
      have htail := ih (Nat.le_of_succ_le_succ h)
      cases b <;> simp [received] at htail ⊢ <;> exact htail

theorem mem_sent_of_received {request : ControlRequest ω π}
    (h : request ∈ received sent statuses) : request ∈ sent := by
  obtain ⟨⟨request', b⟩, hmem, rfl⟩ := List.mem_map.mp h
  exact (List.of_mem_zip (List.mem_filter.mp hmem).1).1

/-- The position does not change when nothing has arrived. -/
theorem acked_append [Zero π] (sent : List (ControlRequest ω π)) (statuses more : List Bool) :
    acked sent (statuses ++ more) =
      ((received (sent.drop statuses.length) more).getLast?.map
        (·.lastControlObjectPosition)).getD (acked sent statuses) := by
  rw [acked, received_append, List.getLast?_append, Option.map_or, Option.getD_or, acked]

theorem foldl_packetReceived (news : List (ControlRequest ω π)) (c : PointConnection ω π) :
    (news.foldl (fun client request =>
        client.packetReceived request.lastControlObjectPosition) c).mServerPosition =
      (news.getLast?.map (·.lastControlObjectPosition)).getD c.mServerPosition := by
  induction news generalizing c with
  | nil => rfl
  | cons request news ih =>
    rw [List.foldl_cons, ih, List.getLast?_cons]
    cases news.getLast? <;> rfl

end received

/-! ### Packets of the server -/

section packets

variable {states : ControlStates ω π}

theorem getControlCRC_eq (c : PointConnection ω π) :
    c.getControlCRC states = (c.controlObject.map states.calculateCRC).getD 0 := by
  rw [PointConnection.getControlCRC]
  cases c.controlObject <;> rfl

/-- What the server writes, by whether there is a ghost of the control object. -/
theorem writeUpdate_spec {c : PointConnection ω π}
    (hvalid : (c.writeUpdate states).1.controlObjectValid = true) :
    ∃ co, c.controlObject = some co ∧
      (c.writeUpdate states).1.mServerPosition = states.getActualPos co.state ∧
      (c.writeUpdate states).1.update =
        if c.getControlCRC states ≠ c.mLastClientControlCRC then some (some co) else none := by
  cases hcontrol : c.controlObject with
  | none =>
    rw [PointConnection.writeUpdate, hcontrol] at hvalid
    cases hvalid
  | some co =>
    refine ⟨co, rfl, ?_, ?_⟩
    · rw [PointConnection.writeUpdate, hcontrol]
    · rw [PointConnection.writeUpdate, hcontrol] at hvalid ⊢
      dsimp only at hvalid ⊢
      rw [hvalid, if_pos rfl]

theorem readUpdate_position (c : PointConnection ω π) (data : ControlUpdate ω π) :
    (c.readUpdate states data).mServerPosition =
      (data.update.join.map fun co => states.getActualPos co.state).getD c.mServerPosition := by
  rw [PointConnection.readUpdate]
  rcases data.update with _ | _ | co <;> rfl

theorem lastUpdate_concat (states : ControlStates ω π) (read : List (PointPacket ω π))
    (packet : PointPacket ω π) :
    lastUpdate states (read ++ [packet]) (packet.statuses.count true) =
      (updated states packet).or (lastUpdate states read (packet.statuses.count true)) := by
  have hself : [packet].filter (·.statuses.count true = packet.statuses.count true) = [packet] := by
    simp
  rw [lastUpdate, lastUpdate, List.filter_append, hself, List.filterMap_append,
    List.getLast?_append]
  cases hupdated : updated states packet <;> simp [hupdated]

/-- No packet has been read that was written when more had arrived. -/
theorem lastUpdate_of_lt {read : List (PointPacket ω π)} {n m : ℕ}
    (hread : ∀ packet ∈ read, packet.statuses.count true ≤ n) (hlt : n < m) :
    lastUpdate states read m = none := by
  have hnil : read.filter (·.statuses.count true = m) = [] := by
    apply List.filter_eq_nil_iff.mpr
    intro packet hpacket
    have hle := hread packet hpacket
    simp only [decide_eq_true_eq]
    omega
  rw [lastUpdate, hnil]
  rfl

end packets

/-! ### The invariant -/

section sound

variable [Zero π] {states : ControlStates ω π} {s s' : PointLink ω π}
  {packet : PointPacket ω π} {statuses : List Bool}

/-- The sum and the position of a packet are those of the client's object. -/
structure RequestSound (states : ControlStates ω π) (request : ControlRequest ω π) : Prop where
  sum : request.controlCRC = (request.controlObject.map states.calculateCRC).getD 0
  position : ∀ co ∈ request.controlObject,
    request.lastControlObjectPosition = states.getActualPos co.state

/-- Points are relative to the state in the packet, or else to the position of the last packet that
had arrived. -/
def PacketSound (states : ControlStates ω π) (sent : List (ControlRequest ω π))
    (packet : PointPacket ω π) : Prop :=
  ∀ data ∈ packet.data, data.controlObjectValid = true →
    (data.update = none → acked sent packet.statuses = data.mServerPosition) ∧
      ∀ co, data.update = some co → co.map (fun co => states.getActualPos co.state) =
        some data.mServerPosition

structure Sound (states : ControlStates ω π) (s : PointLink ω π) : Prop where
  settled : s.statuses.length ≤ s.sent.length
  requests : ∀ request ∈ s.sent, RequestSound states request
  told : s.told <+: s.statuses
  toldFirst : ∀ packet ∈ s.toClient, s.told <+: packet.statuses
  order : s.toClient.Pairwise fun packet next => packet.statuses <+: next.statuses
  known : ∀ packet ∈ s.toClient, packet.statuses <+: s.statuses
  packets : ∀ packet ∈ s.toClient, PacketSound states s.sent packet
  read : ∀ packet ∈ s.read, packet.statuses.count true ≤ s.told.count true
  server : s.server.mLastClientControlCRC =
    ((received s.sent s.statuses).getLast?.map ControlRequest.controlCRC).getD 0
  client : s.client.mServerPosition =
    (lastUpdate states s.read (s.told.count true)).getD (acked s.sent s.told)

theorem start_sound (states : ControlStates ω π) : (start : PointLink ω π).Sound states where
  settled := Nat.le_refl _
  requests _ h := by cases h
  told := List.prefix_rfl
  toldFirst _ h := by cases h
  order := .nil
  known _ h := by cases h
  packets _ h := by cases h
  read _ h := by cases h
  server := rfl
  client := rfl

/-- A new packet of the client does not change what has arrived. -/
theorem acked_concat {sent : List (ControlRequest ω π)} (h : statuses.length ≤ sent.length)
    (request : ControlRequest ω π) : acked (sent ++ [request]) statuses = acked sent statuses := by
  rw [acked, received_concat h, acked]

theorem writeRequest_sound (states : ControlStates ω π) (c : PointConnection ω π) :
    RequestSound states (c.writeRequest states) := by
  refine ⟨getControlCRC_eq c, fun co hco => ?_⟩
  have hcontrol : c.controlObject = some co := hco
  rw [PointConnection.writeRequest, hcontrol]

theorem Sound.clientWrite (h : s.Sound states)
    (hstep : s.step states .clientWrite = some s') : s'.Sound states := by
  obtain rfl := Option.some.inj hstep
  have hknown : ∀ {st : List Bool}, st <+: s.statuses → st.length ≤ s.sent.length :=
    fun hst => hst.length_le.trans h.settled
  refine ⟨?_, ?_, h.told, h.toldFirst, h.order, h.known, ?_, h.read, ?_, ?_⟩
  · change s.statuses.length ≤ (s.sent ++ [_]).length
    rw [List.length_append]
    exact Nat.le_add_right_of_le h.settled
  · intro request hmem
    rcases List.mem_append.mp hmem with hold | hnew
    · exact h.requests request hold
    · rw [List.mem_singleton.mp hnew]
      exact writeRequest_sound states s.client
  · intro packet hpacket data hdata hvalid
    obtain ⟨hnone, hsome⟩ := h.packets packet hpacket data hdata hvalid
    refine ⟨fun hupdate => ?_, hsome⟩
    rw [acked_concat (hknown (h.known packet hpacket))]
    exact hnone hupdate
  · change s.server.mLastClientControlCRC = _
    rw [h.server, received_concat h.settled]
  · change s.client.mServerPosition = _
    rw [h.client, acked_concat (hknown h.told)]

theorem Sound.serverRead (h : s.Sound states) {received : Bool}
    (hstep : s.step states (.serverRead received) = some s') : s'.Sound states := by
  obtain ⟨request, hrequest, rfl⟩ := Option.map_eq_some_iff.mp hstep
  have hlt : s.statuses.length < s.sent.length := by
    by_contra hge
    rw [List.drop_eq_nil_of_le (Nat.not_lt.mp hge)] at hrequest
    cases hrequest
  have hconcat : s.statuses <+: s.statuses ++ [received] := List.prefix_append ..
  refine ⟨?_, h.requests, h.told.trans hconcat, h.toldFirst, h.order,
    fun packet hpacket => (h.known packet hpacket).trans hconcat, h.packets, h.read, ?_, h.client⟩
  · change (s.statuses ++ [received]).length ≤ _
    rw [List.length_append]
    exact hlt
  · change _ = ((PointLink.received s.sent (s.statuses ++ [received])).getLast?.map _).getD 0
    obtain ⟨rest, hrest⟩ : ∃ rest, s.sent.drop s.statuses.length = request :: rest := by
      cases hdrop : s.sent.drop s.statuses.length with
      | nil =>
        rw [hdrop] at hrequest
        cases hrequest
      | cons first rest =>
        rw [hdrop] at hrequest
        obtain rfl := Option.some.inj hrequest
        exact ⟨rest, rfl⟩
    rw [received_append, hrest]
    cases received with
    | false =>
      have hnone : PointLink.received (request :: rest) [false] = [] := by simp [PointLink.received]
      rw [hnone, List.append_nil]
      exact h.server
    | true =>
      have hone : PointLink.received (request :: rest) [true] = [request] := by
        simp [PointLink.received]
      rw [hone, List.getLast?_concat]
      rfl

/-- Without a state in the packet the client's object was in the same one. -/
theorem Sound.writeUpdate (h : s.Sound states)
    (hfree : s.CollisionFree states (.serverWrite true)) :
    PacketSound states s.sent ⟨s.statuses, some (s.server.writeUpdate states).1⟩ := by
  intro data hdata hvalid
  obtain rfl := Option.some.inj hdata
  obtain ⟨co, hcontrol, hposition, hupdate⟩ := writeUpdate_spec hvalid
  constructor
  · intro hnone
    have hsum : s.server.getControlCRC states = s.server.mLastClientControlCRC := by
      by_contra hne
      rw [hupdate, if_pos hne] at hnone
      cases hnone
    have hstate := hfree hsum
    rw [hcontrol, Option.map_some] at hstate
    obtain ⟨co', hco', heq⟩ := Option.map_eq_some_iff.mp hstate.symm
    obtain ⟨request, hlast, hrequest⟩ := Option.bind_eq_some_iff.mp hco'
    have hsent := mem_sent_of_received (List.mem_of_getLast? hlast)
    rw [hposition, acked, hlast, ← heq]
    exact (h.requests request hsent).position co' hrequest
  · intro control hsome
    rw [hupdate] at hsome
    obtain ⟨-, heq⟩ := Option.ite_none_right_eq_some.mp hsome
    obtain rfl := Option.some.inj heq
    rw [hposition, Option.map_some]

theorem Sound.send (h : s.Sound states) (hstatuses : packet.statuses = s.statuses)
    (hpacket : PacketSound states s.sent packet) {server : PointConnection ω π}
    (hserver : server.mLastClientControlCRC = s.server.mLastClientControlCRC) :
    Sound states { s with server := server, toClient := s.toClient ++ [packet] } := by
  have hmem : ∀ next ∈ s.toClient ++ [packet], next ∈ s.toClient ∨ next = packet := by
    intro next hnext
    rcases List.mem_append.mp hnext with hold | hnew
    · exact .inl hold
    · exact .inr (List.mem_singleton.mp hnew)
  refine ⟨h.settled, h.requests, h.told, fun next hnext => ?_, ?_, fun next hnext => ?_,
    fun next hnext => ?_, h.read, hserver.trans h.server, h.client⟩
  · rcases hmem next hnext with hold | rfl
    · exact h.toldFirst next hold
    · rw [hstatuses]
      exact h.told
  · rw [List.pairwise_append]
    refine ⟨h.order, List.pairwise_singleton .., fun next hnext last hlast => ?_⟩
    rw [List.mem_singleton.mp hlast, hstatuses]
    exact h.known next hnext
  · rcases hmem next hnext with hold | rfl
    · exact h.known next hold
    · exact hstatuses ▸ List.prefix_rfl
  · rcases hmem next hnext with hold | rfl
    · exact h.packets next hold
    · exact hpacket

theorem Sound.serverWrite (h : s.Sound states) {dataPacket : Bool}
    (hfree : s.CollisionFree states (.serverWrite dataPacket))
    (hstep : s.step states (.serverWrite dataPacket) = some s') : s'.Sound states := by
  cases dataPacket with
  | false =>
    obtain rfl := Option.some.inj hstep
    have hpacket : PacketSound states s.sent ⟨s.statuses, none⟩ := by
      intro data hdata
      cases hdata
    exact h.send rfl hpacket rfl
  | true =>
    obtain rfl := Option.some.inj hstep
    exact h.send rfl (h.writeUpdate hfree) rfl

theorem Sound.readPacket (h : s.Sound states) (htold : s.told <+: packet.statuses)
    (hknown : packet.statuses <+: s.statuses) :
    (s.readPacket states packet).mServerPosition =
      (lastUpdate states (s.read ++ [packet]) (packet.statuses.count true)).getD
        (acked s.sent packet.statuses) := by
  obtain ⟨more, hmore⟩ := htold
  have hlength : more.length ≤ (s.sent.drop s.told.length).length := by
    have hle := hknown.length_le.trans h.settled
    rw [← hmore, List.length_append] at hle
    rw [List.length_drop]
    omega
  have hcount := length_received hlength
  have hclient : (lastUpdate states s.read (packet.statuses.count true)).getD
      (acked s.sent packet.statuses) =
        ((received (s.sent.drop s.told.length) more).getLast?.map
          (·.lastControlObjectPosition)).getD s.client.mServerPosition := by
    rw [← hmore, acked_append, List.count_append, ← hcount]
    cases hnews : received (s.sent.drop s.told.length) more with
    | nil => exact h.client.symm
    | cons request news =>
      rw [lastUpdate_of_lt h.read (by simp), List.getLast?_cons]
      rfl
  rw [PointLink.readPacket, lastUpdate_concat, Option.getD_or, hclient,
    ← foldl_packetReceived, ← hmore, List.drop_left]
  rw [updated]
  cases packet.data with
  | none => rfl
  | some data => exact readUpdate_position _ data

theorem Sound.clientRead (h : s.Sound states) {received : Bool}
    (hstep : s.step states (.clientRead received) = some s') : s'.Sound states := by
  rw [step] at hstep
  cases hclient : s.toClient with
  | nil =>
    rw [hclient] at hstep
    cases hstep
  | cons packet toClient =>
    have hmem : ∀ next ∈ toClient, next ∈ s.toClient := by
      intro next hnext
      rw [hclient]
      exact List.mem_cons_of_mem packet hnext
    have hpacket : packet ∈ s.toClient := by
      rw [hclient]
      exact List.mem_cons_self
    have horder := h.order
    rw [hclient] at hstep horder
    obtain ⟨hfirst, hrest⟩ := List.pairwise_cons.mp horder
    cases received with
    | false =>
      obtain rfl := Option.some.inj hstep
      exact ⟨h.settled, h.requests, h.told, fun next hnext => h.toldFirst next (hmem next hnext),
        hrest, fun next hnext => h.known next (hmem next hnext),
        fun next hnext => h.packets next (hmem next hnext), h.read, h.server, h.client⟩
    | true =>
      obtain rfl := Option.some.inj hstep
      have htold := h.toldFirst packet hpacket
      refine ⟨h.settled, h.requests, h.known packet hpacket, hfirst, hrest,
        fun next hnext => h.known next (hmem next hnext),
        fun next hnext => h.packets next (hmem next hnext), ?_, h.server,
        h.readPacket htold (h.known packet hpacket)⟩
      intro next hnext
      rcases List.mem_append.mp hnext with hold | hnew
      · exact (h.read next hold).trans (htold.sublist.count_le true)
      · rw [List.mem_singleton.mp hnew]

theorem Sound.step (h : s.Sound states) {a : Action ω} (hfree : s.CollisionFree states a)
    (hstep : s.step states a = some s') : s'.Sound states := by
  cases a with
  | clientMove controlObject =>
    obtain rfl := Option.some.inj hstep
    exact ⟨h.settled, h.requests, h.told, h.toldFirst, h.order, h.known, h.packets, h.read,
      h.server, h.client⟩
  | serverMove controlObject =>
    obtain rfl := Option.some.inj hstep
    exact ⟨h.settled, h.requests, h.told, h.toldFirst, h.order, h.known, h.packets, h.read,
      h.server, h.client⟩
  | serverNotified =>
    obtain rfl := Option.some.inj hstep
    exact ⟨h.settled, h.requests, h.told, h.toldFirst, h.order, h.known, h.packets, h.read,
      h.server, h.client⟩
  | clientWrite => exact h.clientWrite hstep
  | serverRead received => exact h.serverRead hstep
  | serverWrite dataPacket => exact h.serverWrite hfree hstep
  | clientRead received => exact h.clientRead hstep

theorem position_iff (hpacket : PacketSound states s.sent packet) {data : ControlUpdate ω π}
    (hdata : data ∈ packet.data) (hvalid : data.controlObjectValid = true) (last : Option π) :
    ((updated states packet).or last).getD (acked s.sent packet.statuses) = data.mServerPosition ↔
      (data.update = none → ∀ position ∈ last, position = data.mServerPosition) := by
  obtain ⟨hnone, hsome⟩ := hpacket data hdata hvalid
  have hupdated : updated states packet =
      data.update.join.map fun co => states.getActualPos co.state := by
    rw [updated, hdata]
    rfl
  rw [hupdated]
  cases hupdate : data.update with
  | none =>
    cases last with
    | none => exact iff_of_true (hnone hupdate) fun _ position hposition => by cases hposition
    | some position =>
      refine ⟨fun heq _ position' hposition => ?_, fun hlast => hlast rfl position rfl⟩
      rw [← Option.some.inj hposition]
      exact heq
  | some control =>
    have hposition := hsome control hupdate
    refine iff_of_true ?_ fun hnone => by cases hnone
    change ((control.map fun co => states.getActualPos co.state).or last).getD _ = _
    rw [hposition]
    rfl

theorem agrees_clientRead_iff (h : s.Sound states) :
    s.Agrees states (.clientRead true) ↔ s.Settled states (.clientRead true) := by
  cases hclient : s.toClient with
  | nil =>
    refine iff_of_true (fun _ s' _ packet hhead => ?_) fun packet hhead => ?_
    all_goals
      rw [hclient] at hhead
      cases hhead
  | cons packet toClient =>
    have hhead : packet ∈ s.toClient.head? := by
      rw [hclient]
      rfl
    have hpacket := List.mem_of_mem_head? hhead
    have hposition := h.readPacket (h.toldFirst packet hpacket) (h.known packet hpacket)
    rw [lastUpdate_concat] at hposition
    have hread : s.step states (.clientRead true) = some { s with
        client := s.readPacket states packet
        told := packet.statuses
        toClient := toClient
        read := s.read ++ [packet] } := by
      rw [step, hclient]
      rfl
    constructor
    · intro hagrees packet' hhead' data hdata hvalid
      obtain rfl : packet = packet' := Option.mem_unique hhead hhead'
      have heq := hagrees rfl _ hread packet hhead data hdata hvalid
      exact (position_iff (h.packets packet hpacket) hdata hvalid _).mp (hposition.symm.trans heq)
    · intro hsettled _ s' hs' packet' hhead' data hdata hvalid
      obtain rfl := Option.some.inj (hread.symm.trans hs')
      obtain rfl : packet = packet' := Option.mem_unique hhead hhead'
      exact hposition.trans ((position_iff (h.packets packet hpacket) hdata hvalid _).mpr
        (hsettled packet hhead data hdata hvalid))

/-- What the client adds is what was subtracted just when the last state it has read was there. -/
theorem referencesAgree_iff (h : s.Sound states) (a : Action ω) :
    s.Agrees states a ↔ s.Settled states a := by
  cases a with
  | clientRead received =>
    cases received with
    | true => exact agrees_clientRead_iff h
    | false => exact iff_of_true (fun heq => by cases heq) trivial
  | _ => exact iff_of_true (fun heq => by cases heq) trivial

/-- Sums that determine the state, and are not zero, are free of collisions in every run. -/
theorem Sound.collisionFree (h : s.Sound states)
    (hstate : ∀ co co', states.calculateCRC co = states.calculateCRC co' → co.state = co'.state)
    (hzero : ∀ co, states.calculateCRC co ≠ 0) (a : Action ω) : s.CollisionFree states a := by
  have hlast : s.server.mLastClientControlCRC =
      (((received s.sent s.statuses).getLast?.bind ControlRequest.controlObject).map
        states.calculateCRC).getD 0 := by
    rw [h.server]
    cases hrequest : (received s.sent s.statuses).getLast? with
    | none => rfl
    | some request =>
      exact (h.requests request (mem_sent_of_received (List.mem_of_getLast? hrequest))).sum
  cases a with
  | serverWrite dataPacket =>
    cases dataPacket with
    | false => trivial
    | true =>
      intro hsum
      rw [hlast, getControlCRC_eq] at hsum
      generalize (received s.sent s.statuses).getLast?.bind ControlRequest.controlObject = heard
        at hsum ⊢
      generalize s.server.controlObject = own at hsum ⊢
      cases own with
      | none =>
        cases heard with
        | none => rfl
        | some co => exact absurd hsum.symm (hzero co)
      | some co =>
        cases heard with
        | none => exact absurd hsum (hzero co)
        | some co' => exact congrArg some (hstate co co' hsum)
  | _ => trivial

/-- Points that are relative are read as they were written just as long as every packet has a state,
or the last state that was written since the same packet of the client had arrived was at the same
position. -/
theorem references_agree_iff (states : ControlStates ω π) (as : List (Action ω))
    (s : PointLink ω π) :
    Run (step states) (fun s a => s.CollisionFree states a ∧ s.Agrees states a) start as s ↔
      Run (step states) (fun s a => s.CollisionFree states a ∧ s.Settled states a) start as s := by
  refine Run.congr_of_invariant (I := Sound states) ?_ ?_ (start_sound states)
  · exact fun s a s' hs _ => and_congr_right fun _ => referencesAgree_iff hs a
  · exact fun s a s' hs hguard hstep => hs.step hguard.1 hstep

end sound

/-- The server's object moves away and back to where it was in the last packet of the client that
has arrived. The client keeps the position in between. -/
theorem object_back_shifts_points : ∃ states : ControlStates Bool ℕ, ¬ ∀ as s,
    Run (step states) (CollisionFree states) start as s →
      Run (step states) (fun s a => s.CollisionFree states a ∧ s.Agrees states a) start as s := by
  let states : ControlStates Bool ℕ := ⟨Bool.toNat, fun co => if co.state then 2 else 1⟩
  refine ⟨states, fun hclaim => ?_⟩
  let here : Action Bool := .serverMove (some ⟨0, false⟩)
  let away : Action Bool := .serverMove (some ⟨0, true⟩)
  let before : List (Action Bool) := [here, .serverWrite true, .clientRead true, .clientWrite,
    .serverRead true, away, .serverWrite true, .clientRead true, here, .serverWrite true]
  have hstates : (exec (step states) start before).map (fun s =>
      ((s.step states (.clientRead true)).map (·.client.mServerPosition), s.toClient)) =
        some (some 1, [⟨[true], some ⟨true, none, 0⟩⟩]) := rfl
  obtain ⟨s, hexec, hs⟩ := Option.map_eq_some_iff.mp hstates
  obtain ⟨hread, hclient⟩ := Prod.mk.inj hs
  obtain ⟨s', hread, hposition⟩ := Option.map_eq_some_iff.mp hread
  have hfree : ∀ s : PointLink Bool ℕ, s.Sound states → ∀ a, s.CollisionFree states a := by
    intro s h
    refine h.collisionFree (fun co co' heq => ?_) fun co => ?_
    · revert heq
      cases hco : co.state <;> cases hco' : co'.state <;> simp [states, hco, hco']
    · cases hco : co.state <;> simp [states, hco]
  have hrun := ((Run.of_exec hexec).snoc trivial hread).with_invariant (I := Sound states)
    (fun s a s' hs _ hstep => hs.step (hfree s hs a) hstep) (start_sound states)
  obtain ⟨u, hu, -, hagrees⟩ := (hclaim _ _ (hrun.mono fun s a hs => hfree s hs.1 a)).allowed_at
  obtain rfl := Option.some.inj (hexec.symm.trans hu.exec_eq)
  have heq := hagrees rfl s' hread _ (by rw [hclient]; rfl) _ rfl rfl
  rw [hposition] at heq
  exact absurd heq (by decide)

end PointLink

end TNL
