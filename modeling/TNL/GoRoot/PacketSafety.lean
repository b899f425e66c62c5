import TNL.GoRoot.PacketCodec

/-!
# Which datagrams end the Go master server

Reading stays in the datagram and writing in the buffer of the answer, and no
call waits for a lock of its own. What ends the program is an address in a packet
whose four bytes are not the text of one.
-/
namespace TNL.GoRoot
open Library

namespace MasterServer

variable {s : MasterServer} {conn : MasterServerConnection} {currentTime : U32}

/-- A connection is found under its own address. -/
def Keyed (s : MasterServer) : Prop :=
  ∀ addr conn, s.connections addr = some conn → conn.address = addr

theorem Keyed.of_connections {s' : MasterServer} (h : s.Keyed)
    (heq : s'.connections = s.connections) : s'.Keyed := by
  rw [Keyed, heq]
  exact h

theorem Keyed.update (h : s.Keyed) {entry : Option MasterServerConnection} {addr : Address}
    (hentry : ∀ conn ∈ entry, conn.address = addr) :
    Keyed { s with connections := Function.update s.connections addr entry } := by
  intro addr' conn hconn
  change Function.update s.connections addr entry addr' = some conn at hconn
  by_cases haddr : addr' = addr
  · rw [haddr, Function.update_self] at hconn
    exact (hentry conn hconn).trans haddr.symm
  · rw [Function.update_of_ne haddr] at hconn
    exact h addr' conn hconn

theorem Keyed.handleConnectionRequest (h : s.Keyed) (conn : MasterServerConnection) :
    (s.handleConnectionRequest conn).Keyed := by
  rw [MasterServer.handleConnectionRequest]
  split
  · exact h
  · exact h.update fun conn' hconn' => congrArg _ (Option.some.inj hconn').symm

theorem Keyed.disconnect (h : s.Keyed) (conn : MasterServerConnection) : (s.disconnect conn).Keyed :=
  h.update fun _ hconn' => by cases hconn'

theorem handleRequest_connections {requestID : U32} {remoteAddr internalAddr : Option Address}
    {connectionParams : List UInt8} {s' : MasterServer}
    {messages : List (MasterServerConnection × Message)}
    (h : s.handleRequestArrangedConnection conn requestID remoteAddr internalAddr connectionParams
      currentTime = some (s', messages)) : s'.connections = s.connections := by
  cases remoteAddr with
  | none => cases h
  | some remoteAddr =>
    simp only [handleRequestArrangedConnection, Option.bind_eq_bind, Option.bind_some] at h
    cases hhost : s.connections remoteAddr with
    | none =>
      rw [hhost] at h
      cases h
      rfl
    | some hostConn =>
      rw [hhost] at h
      cases internalAddr with
      | none => cases h
      | some internalAddr =>
        cases h
        rfl

theorem handleAccept_connections {requestID : U32} {internalAddr : Option Address}
    {connectionData : List UInt8} {s' : MasterServer}
    {messages : List (MasterServerConnection × Message)}
    (h : s.handleAcceptArrangedConnection conn requestID internalAddr connectionData =
      some (s', messages)) : s'.connections = s.connections := by
  rw [handleAcceptArrangedConnection, findAndRemoveRequest] at h
  cases hfind : s.connectRequests.find? (·.hostQueryID = requestID) with
  | none =>
    rw [hfind] at h
    cases h
    rfl
  | some req =>
    rw [hfind] at h
    cases internalAddr with
    | none => cases h
    | some internalAddr =>
      cases h
      rfl

theorem handleReject_connections (s : MasterServer) (requestID : U32) (rejectData : List UInt8) :
    (s.handleRejectArrangedConnection requestID rejectData).1.connections = s.connections := by
  rw [handleRejectArrangedConnection, findAndRemoveRequest]
  cases s.connectRequests.find? (·.hostQueryID = requestID) <;> rfl

end MasterServer

namespace MasterProcess

variable {net : Net} {ms : MasterProcess} {bs : BitStream} {rest data : List UInt8}
  {conn : MasterServerConnection} {addr : Address} {currentTime : U32}
  {body : MasterProcess → Option (MasterProcess × Sent)}

section locks

/-- Nobody holds a lock. -/
structure Idle (ms : MasterProcess) : Prop where
  mutex : ms.mutex = ⟨0, false⟩
  connMutex : ∀ pointer, ms.connMutex pointer = ⟨0, false⟩
  keyed : ms.server.Keyed

/-- The lock of the server is held for writing, and no other one. -/
structure Held (ms : MasterProcess) : Prop where
  mutex : ms.mutex = ⟨0, true⟩
  connMutex : ∀ pointer, ms.connMutex pointer = ⟨0, false⟩
  keyed : ms.server.Keyed

/-- The call returns, and holds no lock afterwards. -/
abbrev Returns (result : Option (MasterProcess × Sent)) : Prop :=
  Succeeds result fun (ms, _) => ms.Idle

theorem start_idle (motdList : List (List UInt8 × List UInt8)) : (start motdList).Idle :=
  ⟨rfl, fun _ => rfl, fun _ _ h => by cases h⟩

theorem Idle.locked_eq (h : ms.Idle) : ms.locked body =
    (body { ms with mutex := ⟨0, true⟩ }).bind fun (ms, sent) =>
      some ({ ms with mutex := ms.mutex.unlock }, sent) := by
  rw [MasterProcess.locked, h.mutex]
  rfl

theorem Idle.locked (h : ms.Idle)
    (hbody : ∀ ms' : MasterProcess, ms'.Held → ms'.server = ms.server →
      Succeeds (body ms') fun (ms, _) => ms.Held) : Returns (ms.locked body) := by
  rw [h.locked_eq]
  refine (hbody { ms with mutex := ⟨0, true⟩ } ⟨rfl, h.connMutex, h.keyed⟩ rfl).bind
    fun (ms, sent) hms => ?_
  refine ⟨_, rfl, ?_, hms.connMutex, hms.keyed⟩
  change ms.mutex.unlock = _
  rw [hms.mutex]
  rfl

theorem Idle.locked_none (h : ms.Idle)
    (hbody : ∀ ms' : MasterProcess, ms'.server = ms.server → body ms' = none) :
    ms.locked body = none := by
  rw [h.locked_eq, hbody { ms with mutex := ⟨0, true⟩ } rfl]
  rfl

theorem Idle.rLocked (h : ms.Idle)
    (hbody : ∀ ms : MasterProcess, Succeeds (body ms) fun (ms', _) => ms' = ms) :
    Returns (ms.rLocked body) := by
  obtain ⟨⟨ms', sent⟩, heq, hms⟩ := hbody { ms with mutex := ⟨1, false⟩ }
  cases hms
  refine ⟨({ ms with mutex := ⟨0, false⟩ }, sent), ?_, rfl, h.connMutex, h.keyed⟩
  rw [MasterProcess.rLocked, h.mutex]
  change (body { ms with mutex := ⟨1, false⟩ }).bind _ = _
  rw [heq]
  rfl

theorem Held.update (h : ms.Held) (pointer : ℕ) :
    ∀ pointer', Function.update ms.connMutex pointer ⟨0, false⟩ pointer' = ⟨0, false⟩ := by
  intro pointer'
  by_cases hpointer : pointer' = pointer
  · rw [hpointer]
    exact Function.update_self ..
  · exact (Function.update_of_ne hpointer ..).trans (h.connMutex pointer')

theorem Held.checkActivityTime (h : ms.Held) (conn : MasterServerConnection)
    (timeDeltaMinimum currentTime : U32) :
    Succeeds (ms.checkActivityTime conn timeDeltaMinimum currentTime) Held := by
  rw [MasterProcess.checkActivityTime, h.connMutex]
  exact ⟨_, rfl, h.mutex, h.update conn.pointer, h.keyed⟩

end locks

section handlers

theorem Idle.handleConnectionRequest (h : ms.Idle) (hbs : bs.Readable) :
    Returns (ms.handleConnectionRequest bs addr currentTime) := by
  refine h.locked fun ms hms _ => ?_
  by_cases hknown : (ms.server.connections addr).isSome
  · rw [if_pos hknown]
    exact .pure hms
  · rw [if_neg hknown]
    refine hbs.readString.bind fun bs hbs => hbs.readFlag.bind fun (isGameServer, bs) hbs => ?_
    cases isGameServer with
    | false =>
      obtain ⟨packet, hpacket⟩ := sendMOTD_some (getMOTD ms.motdList [])
      change Succeeds ((sendMOTD (getMOTD ms.motdList [])).bind _) _
      rw [hpacket]
      exact .pure ⟨hms.mutex, hms.update _, hms.keyed.handleConnectionRequest _⟩
    | true =>
      refine (hbs.readInt 32).bind fun (_, bs) hbs => (hbs.readInt 32).bind fun (_, bs) hbs => ?_
      refine (hbs.readInt 32).bind fun (_, bs) hbs => (hbs.readInt 32).bind fun (_, bs) hbs => ?_
      refine (hbs.readInt 32).bind fun (_, bs) hbs => (hbs.readInt 32).bind fun (_, bs) hbs => ?_
      refine hbs.readString.bind fun bs hbs => hbs.readString.bind fun bs hbs => ?_
      exact .pure ⟨hms.mutex, hms.update _, hms.keyed.handleConnectionRequest _⟩

/-- Each step but the last takes a name off one of the lists. -/
theorem sendGameTypes_some {fuel : ℕ} (queryID : U32) {gameTypes missionTypes : List (List UInt8)}
    (hfuel : gameTypes.length + missionTypes.length < fuel) :
    ∃ packets, sendGameTypes queryID fuel gameTypes missionTypes = some packets := by
  induction fuel generalizing gameTypes missionTypes with
  | zero => cases hfuel
  | succ fuel ih =>
    rw [sendGameTypes]
    have hgames : (gameTypes.take gameMissionTypesPerPacket).length = min 20 gameTypes.length :=
      List.length_take
    generalize gameTypes.take gameMissionTypesPerPacket = chunkGameTypes at hgames ⊢
    have hmissions : (missionTypes.take (gameMissionTypesPerPacket - chunkGameTypes.length)).length =
        min (20 - chunkGameTypes.length) missionTypes.length := List.length_take
    generalize missionTypes.take (gameMissionTypesPerPacket - chunkGameTypes.length) =
      chunkMissionTypes at hmissions ⊢
    obtain ⟨packet, hpacket⟩ := sendGameTypesResponse_some queryID chunkGameTypes chunkMissionTypes
    rw [hpacket]
    change ∃ packets, (if gameTypes = [] ∧ missionTypes = [] then _ else _) = some packets
    by_cases hdone : gameTypes = [] ∧ missionTypes = []
    · rw [if_pos hdone]
      exact ⟨_, rfl⟩
    · rw [if_neg hdone]
      have hsome : 0 < gameTypes.length + missionTypes.length := by
        by_contra hnone
        exact hdone ⟨List.length_eq_zero_iff.mp (by omega), List.length_eq_zero_iff.mp (by omega)⟩
      have hless : (gameTypes.drop chunkGameTypes.length).length +
          (missionTypes.drop chunkMissionTypes.length).length < fuel := by
        rw [List.length_drop, List.length_drop]
        omega
      obtain ⟨packets, hpackets⟩ := ih hless
      refine ⟨packet :: packets, ?_⟩
      change (sendGameTypes _ _ _ _).bind _ = _
      rw [hpackets]
      rfl

theorem Idle.handleQueryGameTypes (h : ms.Idle) (hbs : bs.Readable) :
    Returns (ms.handleQueryGameTypes conn bs) := by
  refine (hbs.readInt 32).bind fun (queryID, _) _ => h.rLocked fun ms => ?_
  obtain ⟨packets, hpackets⟩ := sendGameTypes_some queryID
    (Nat.lt_succ_self (ms.gameTypes.length + ms.missionTypes.length))
  change Succeeds ((sendGameTypes _ _ _ _).bind _) _
  rw [hpackets]
  exact .pure rfl

theorem sendServers_some {fuel : ℕ} (queryID : U32) {servers : List Address}
    (hfuel : servers.length < fuel) : ∃ packets, sendServers queryID fuel servers = some packets := by
  induction fuel generalizing servers with
  | zero => cases hfuel
  | succ fuel ih =>
    rw [sendServers]
    by_cases hdone : servers = []
    · rw [if_pos hdone]
      exact ⟨[], rfl⟩
    · have hpos := List.length_pos_iff.mpr hdone
      have hless : (servers.drop ipMessageAddressCount).length < fuel := by
        rw [List.length_drop, ipMessageAddressCount]
        omega
      obtain ⟨packet, hpacket⟩ := sendServersResponse_some queryID (servers.take ipMessageAddressCount)
      obtain ⟨packets, hpackets⟩ := ih hless
      rw [if_neg hdone, hpacket]
      refine ⟨packet :: packets, ?_⟩
      change (sendServers _ _ _).bind _ = _
      rw [hpackets]
      rfl

theorem Idle.handleQueryServers (h : ms.Idle) (hbs : bs.Readable) :
    Returns (ms.handleQueryServers conn bs) := by
  refine (hbs.readInt 32).bind fun (queryID, bs) hbs => (hbs.readInt 32).bind fun (_, bs) hbs => ?_
  refine (hbs.readInt 32).bind fun (_, bs) hbs => (hbs.readInt 32).bind fun (_, bs) hbs => ?_
  refine (hbs.readInt 32).bind fun (_, bs) hbs => (hbs.readInt 32).bind fun (_, bs) hbs => ?_
  refine (hbs.readInt 32).bind fun (_, bs) hbs => hbs.readString.bind fun bs hbs => ?_
  refine hbs.readString.bind fun _ _ => h.rLocked fun ms => ?_
  dsimp only
  generalize (ms.servers.filter _).map Prod.fst = matching
  obtain ⟨packets, hpackets⟩ := sendServers_some queryID (Nat.lt_succ_self matching.length)
  obtain ⟨packet, hpacket⟩ := sendServersResponse_some queryID []
  change Succeeds ((sendServers _ _ _).bind _) _
  rw [hpackets]
  change Succeeds (if matching = [] then _ else (sendServersResponse queryID []).bind _) _
  by_cases hdone : matching = []
  · rw [if_pos hdone]
    exact .pure rfl
  · rw [if_neg hdone, hpacket]
    exact .pure rfl

theorem Idle.handleUpdateServerStatus (h : ms.Idle) (hbs : bs.Readable) :
    Returns (ms.handleUpdateServerStatus conn bs currentTime) := by
  rw [MasterProcess.handleUpdateServerStatus]
  by_cases hserver : (ms.info conn.pointer).isGameServer = false
  · rw [if_pos hserver]
    exact .pure h
  · rw [if_neg hserver]
    refine hbs.readString.bind fun bs hbs => hbs.readString.bind fun bs hbs => ?_
    refine (hbs.readInt 32).bind fun (_, bs) hbs => (hbs.readInt 32).bind fun (_, bs) hbs => ?_
    refine (hbs.readInt 32).bind fun (_, bs) hbs => (hbs.readInt 32).bind fun (_, bs) hbs => ?_
    refine h.locked fun ms hms _ => ?_
    have hheld : ∀ gameTypes missionTypes info servers, Held { ms with
        gameTypes := gameTypes, missionTypes := missionTypes, info := info, servers := servers } :=
      fun _ _ _ _ => ⟨hms.mutex, hms.connMutex, hms.keyed⟩
    exact ((hheld ..).checkActivityTime conn 15000 currentTime).bind fun ms hms => .pure hms

theorem Held.sendAll (h : ms.Held) {server : MasterServer} (hserver : server.Keyed)
    (messages : List (MasterServerConnection × Message)) :
    Succeeds (do
      let sent ← sendAll messages
      return ({ ms with server := server }, sent)) fun (ms, _) => ms.Held := by
  rw [sendAll_eq]
  exact .pure ⟨h.mutex, h.connMutex, hserver⟩

theorem Held.requestArranged {remoteAddr internalAddr : Option Address} {requestID : U32}
    {connectionParams : List UInt8} (h : ms.Held)
    (hsome : (ms.server.handleRequestArrangedConnection conn requestID remoteAddr internalAddr
      connectionParams currentTime).isSome) :
    Succeeds (ms.requestArranged conn requestID remoteAddr internalAddr connectionParams currentTime)
      fun (ms, _) => ms.Held := by
  obtain ⟨⟨server, messages⟩, hserver⟩ := Option.isSome_iff_exists.mp hsome
  have hkeyed := h.keyed.of_connections (MasterServer.handleRequest_connections hserver)
  rw [MasterProcess.requestArranged, hserver]
  change Succeeds (if (remoteAddr.bind ms.server.connections).isSome then _ else _) _
  by_cases hknown : (remoteAddr.bind ms.server.connections).isSome
  · rw [if_pos hknown]
    exact (h.checkActivityTime conn 2000 currentTime).bind fun ms hms =>
      hms.sendAll hkeyed messages
  · rw [if_neg hknown]
    exact h.sendAll hkeyed messages

theorem requestArranged_none {remoteAddr internalAddr : Option Address} {requestID : U32}
    {connectionParams : List UInt8}
    (hnone : ms.server.handleRequestArrangedConnection conn requestID remoteAddr internalAddr
      connectionParams currentTime = none) :
    ms.requestArranged conn requestID remoteAddr internalAddr connectionParams currentTime = none := by
  rw [requestArranged, hnone]
  rfl

theorem Held.acceptArranged {internalAddr : Option Address} {requestID : U32}
    {connectionData : List UInt8} (h : ms.Held)
    (hsome : (ms.server.handleAcceptArrangedConnection conn requestID internalAddr
      connectionData).isSome) :
    Succeeds (ms.acceptArranged conn requestID internalAddr connectionData)
      fun (ms, _) => ms.Held := by
  obtain ⟨⟨server, messages⟩, hserver⟩ := Option.isSome_iff_exists.mp hsome
  have hkeyed := h.keyed.of_connections (MasterServer.handleAccept_connections hserver)
  rw [MasterProcess.acceptArranged, hserver]
  exact h.sendAll hkeyed messages

theorem acceptArranged_none {internalAddr : Option Address} {requestID : U32}
    {connectionData : List UInt8}
    (hnone : ms.server.handleAcceptArrangedConnection conn requestID internalAddr connectionData =
      none) : ms.acceptArranged conn requestID internalAddr connectionData = none := by
  rw [acceptArranged, hnone]
  rfl

theorem Held.rejectArranged (h : ms.Held) (requestID : U32) (rejectData : List UInt8) :
    Succeeds (ms.rejectArranged requestID rejectData) fun (ms, _) => ms.Held :=
  h.sendAll (h.keyed.of_connections (MasterServer.handleReject_connections ..)) _

theorem Idle.handleRejectArrangedConnection (h : ms.Idle) (hbs : bs.Reads rest) :
    Returns (ms.handleRejectArrangedConnection bs) := by
  rw [handleRejectArrangedConnection_reads hbs]
  exact h.locked fun ms hms _ => hms.rejectArranged _ _

end handlers

section datagrams
open TNL.GoRoot.BitStream

/-- The remote address is the text of one, and if that host is known, so is the internal one. -/
def RequestResolves (net : Net) (s : MasterServer) (packet : RequestPacket) : Prop :=
  ∃ remoteAddr ∈ packet.remote.resolve net,
    (s.connections remoteAddr).isSome → (packet.internal.resolve net).isSome

/-- If the request is known, the internal address is the text of one. -/
def AcceptResolves (net : Net) (s : MasterServer) (packet : AcceptPacket) : Prop :=
  (∃ req ∈ s.connectRequests, req.hostQueryID = packet.requestID) →
    (packet.internal.resolve net).isSome

/-- What a datagram of a known sender must meet. -/
def Resolves (net : Net) (ms : MasterProcess) (addr : Address) (data : List UInt8) : Prop :=
  let call := takeInt 2 (takeInt 1 data).2
  (takeInt 1 data).1 = 2 → (ms.server.connections addr).isSome →
    (call.1 = 3 → RequestResolves net ms.server (takeRequest call.2)) ∧
      (call.1 = 4 → AcceptResolves net ms.server (takeAccept call.2))

theorem handleRequest_isSome_iff (s : MasterServer) (requestID : U32)
    (remoteAddr internalAddr : Option Address) (connectionParams : List UInt8) :
    (s.handleRequestArrangedConnection conn requestID remoteAddr internalAddr connectionParams
      currentTime).isSome ↔
      ∃ remote ∈ remoteAddr, (s.connections remote).isSome → internalAddr.isSome := by
  cases remoteAddr with
  | none => simp [MasterServer.handleRequestArrangedConnection]
  | some remoteAddr =>
    cases hhost : s.connections remoteAddr with
    | none => simp [MasterServer.handleRequestArrangedConnection, hhost]
    | some hostConn =>
      cases internalAddr <;> simp [MasterServer.handleRequestArrangedConnection, hhost]

theorem handleAccept_isSome_iff (s : MasterServer) (requestID : U32)
    (internalAddr : Option Address) (connectionData : List UInt8) :
    (s.handleAcceptArrangedConnection conn requestID internalAddr connectionData).isSome ↔
      ((∃ req ∈ s.connectRequests, req.hostQueryID = requestID) → internalAddr.isSome) := by
  rw [MasterServer.handleAcceptArrangedConnection, MasterServer.findAndRemoveRequest]
  cases hfind : s.connectRequests.find? (·.hostQueryID = requestID) with
  | none =>
    have hnone := List.find?_eq_none.mp hfind
    refine iff_of_true rfl fun ⟨req, hreq, hid⟩ => ?_
    exact absurd (decide_eq_true hid) (hnone req hreq)
  | some req =>
    have hid := List.find?_some hfind
    have hreq : ∃ req ∈ s.connectRequests, req.hostQueryID = requestID :=
      ⟨req, List.mem_of_find?_eq_some hfind, of_decide_eq_true hid⟩
    cases internalAddr with
    | none => exact iff_of_false Bool.false_ne_true fun h => Bool.false_ne_true (h hreq)
    | some internalAddr => exact iff_of_true rfl fun _ => rfl

theorem Idle.handleRequestArrangedConnection (h : ms.Idle) (hbs : bs.Reads rest)
    (hresolves : RequestResolves net ms.server (takeRequest rest)) :
    Returns (ms.handleRequestArrangedConnection net conn bs currentTime) := by
  rw [handleRequestArrangedConnection_reads hbs]
  refine h.locked fun ms' hms hserver => hms.requestArranged ?_
  rw [hserver]
  exact (handleRequest_isSome_iff ..).mpr hresolves

theorem Idle.handleRequestArrangedConnection_none (h : ms.Idle) (hbs : bs.Reads rest)
    (hfails : ¬ RequestResolves net ms.server (takeRequest rest)) :
    ms.handleRequestArrangedConnection net conn bs currentTime = none := by
  rw [handleRequestArrangedConnection_reads hbs]
  refine h.locked_none fun ms' hserver => requestArranged_none ?_
  rw [hserver]
  exact Option.not_isSome_iff_eq_none.mp (mt (handleRequest_isSome_iff ..).mp hfails)

theorem Idle.handleAcceptArrangedConnection (h : ms.Idle) (hbs : bs.Reads rest)
    (hresolves : AcceptResolves net ms.server (takeAccept rest)) :
    Returns (ms.handleAcceptArrangedConnection net conn bs) := by
  rw [handleAcceptArrangedConnection_reads hbs]
  refine h.locked fun ms' hms hserver => hms.acceptArranged ?_
  rw [hserver]
  exact (handleAccept_isSome_iff ..).mpr hresolves

theorem Idle.handleAcceptArrangedConnection_none (h : ms.Idle) (hbs : bs.Reads rest)
    (hfails : ¬ AcceptResolves net ms.server (takeAccept rest)) :
    ms.handleAcceptArrangedConnection net conn bs = none := by
  rw [handleAcceptArrangedConnection_reads hbs]
  refine h.locked_none fun ms' hserver => acceptArranged_none ?_
  rw [hserver]
  exact Option.not_isSome_iff_eq_none.mp (mt (handleAccept_isSome_iff ..).mp hfails)

theorem processPacket_reads (net : Net) (ms : MasterProcess) (data : List UInt8) (addr : Address)
    (currentTime : U32) : ∃ bs, bs.Reads (takeInt 1 data).2 ∧
      ms.processPacket net data addr currentTime = match (takeInt 1 data).1 with
        | 1 => ms.handleConnectionRequest bs addr currentTime
        | 2 => ms.handleRPCCall net bs addr currentTime
        | _ => some (ms, []) := by
  obtain ⟨bs, heq, hbs⟩ := (newBitStream_reads data).readInt (k := 1) (by decide)
  have htype : (BitVec.ofNat 32 (takeInt 1 data).1).toNat = (takeInt 1 data).1 :=
    Nat.mod_eq_of_lt ((takeInt_lt 1 data).trans (by decide))
  refine ⟨bs, hbs, ?_⟩
  rw [processPacket]
  change ((newBitStream data).readInt (8 * 1)).bind _ = _
  rw [heq, Option.bind_some]
  dsimp only
  generalize (BitVec.ofNat 32 (takeInt 1 data).1).toNat = packetType at htype ⊢
  subst htype
  rfl

theorem Idle.handleRPCCall_eq (h : ms.Idle) : ms.handleRPCCall net bs addr currentTime =
    match ms.server.connections addr with
    | none => some (ms, [])
    | some conn => (bs.readInt 16).bind fun (rpcID, bs) => match rpcID.toNat with
      | 1 => ms.handleQueryGameTypes conn bs
      | 2 => ms.handleQueryServers conn bs
      | 3 => ms.handleRequestArrangedConnection net conn bs currentTime
      | 4 => ms.handleAcceptArrangedConnection net conn bs
      | 5 => ms.handleRejectArrangedConnection bs
      | 6 => ms.handleUpdateServerStatus conn bs currentTime
      | _ => some (ms, []) := by
  cases ms
  cases h.mutex
  rfl

theorem Idle.handleRPCCall_reads (net : Net) (h : ms.Idle) (hbs : bs.Reads rest)
    (hconn : ms.server.connections addr = some conn) : ∃ bs', bs'.Reads (takeInt 2 rest).2 ∧
      ms.handleRPCCall net bs addr currentTime = match (takeInt 2 rest).1 with
        | 1 => ms.handleQueryGameTypes conn bs'
        | 2 => ms.handleQueryServers conn bs'
        | 3 => ms.handleRequestArrangedConnection net conn bs' currentTime
        | 4 => ms.handleAcceptArrangedConnection net conn bs'
        | 5 => ms.handleRejectArrangedConnection bs'
        | 6 => ms.handleUpdateServerStatus conn bs' currentTime
        | _ => some (ms, []) := by
  obtain ⟨bs', heq, hbs'⟩ := hbs.readInt (k := 2) (by decide)
  have hid : (BitVec.ofNat 32 (takeInt 2 rest).1).toNat = (takeInt 2 rest).1 :=
    Nat.mod_eq_of_lt ((takeInt_lt 2 rest).trans (by decide))
  refine ⟨bs', hbs', ?_⟩
  rw [h.handleRPCCall_eq, hconn]
  change (bs.readInt (8 * 2)).bind _ = _
  rw [heq, Option.bind_some]
  dsimp only
  rw [hid]

theorem Idle.processPacket (h : ms.Idle) (hresolves : Resolves net ms addr data) :
    Returns (ms.processPacket net data addr currentTime) := by
  obtain ⟨bs, hbs, heq⟩ := processPacket_reads net ms data addr currentTime
  rw [heq]
  split
  · exact h.handleConnectionRequest hbs.readable
  · rename_i htype
    cases hconn : ms.server.connections addr with
    | none =>
      rw [h.handleRPCCall_eq, hconn]
      exact .pure h
    | some conn =>
      obtain ⟨hrequest, haccept⟩ := hresolves htype (Option.isSome_iff_exists.mpr ⟨conn, hconn⟩)
      obtain ⟨bs', hbs', hcall⟩ := h.handleRPCCall_reads net hbs hconn
      rw [hcall]
      split
      · exact h.handleQueryGameTypes hbs'.readable
      · exact h.handleQueryServers hbs'.readable
      · exact h.handleRequestArrangedConnection hbs' (hrequest ‹_›)
      · exact h.handleAcceptArrangedConnection hbs' (haccept ‹_›)
      · exact h.handleRejectArrangedConnection hbs'
      · exact h.handleUpdateServerStatus hbs'.readable
      · exact .pure h
  · exact .pure h

theorem Idle.processPacket_none (h : ms.Idle) (hfails : ¬ Resolves net ms addr data) :
    ms.processPacket net data addr currentTime = none := by
  obtain ⟨bs, hbs, heq⟩ := processPacket_reads net ms data addr currentTime
  simp only [Resolves, Classical.not_imp] at hfails
  obtain ⟨htype, hknown, hfails⟩ := hfails
  obtain ⟨conn, hconn⟩ := Option.isSome_iff_exists.mp hknown
  obtain ⟨bs', hbs', hcall⟩ := h.handleRPCCall_reads net hbs hconn
  rw [heq, htype]
  change ms.handleRPCCall net bs addr currentTime = none
  rw [hcall]
  rcases Classical.not_and_iff_not_or_not.mp hfails with hrequest | haccept
  · obtain ⟨hid, hrequest⟩ := Classical.not_imp.mp hrequest
    rw [hid]
    exact h.handleRequestArrangedConnection_none hbs' hrequest
  · obtain ⟨hid, haccept⟩ := Classical.not_imp.mp haccept
    rw [hid]
    exact h.handleAcceptArrangedConnection_none hbs' haccept

theorem Idle.cleanup (h : ms.Idle) (currentTime : U32) : Returns (ms.cleanup currentTime) :=
  h.locked fun _ hms _ => .pure ⟨hms.mutex, hms.connMutex, hms.keyed⟩

theorem Idle.disconnect (h : ms.Idle) (conn : MasterServerConnection) :
    Returns (ms.disconnect conn) := by
  have hmutex := h.mutex
  cases ms with
  | mk server mutex info connMutex nextPointer servers gameTypes missionTypes motdList =>
    cases hmutex
    rw [MasterProcess.disconnect, h.connMutex]
    refine ⟨_, rfl, rfl, fun pointer => ?_, h.keyed.disconnect conn⟩
    by_cases hpointer : pointer = conn.pointer
    · rw [hpointer]
      change Function.update _ _ _ _ = _
      rw [Function.update_self]
      have hheld : Function.update connMutex conn.pointer ⟨0, true⟩ conn.pointer = ⟨0, true⟩ :=
        Function.update_self ..
      exact congrArg RWMutex.unlock hheld
    · exact (Function.update_of_ne hpointer ..).trans
        ((Function.update_of_ne hpointer ..).trans (h.connMutex pointer))

theorem step_idle (h : ms.Idle) {a : Action} {ms' : MasterProcess} (hstep : ms.step net a = some ms') :
    ms'.Idle := by
  have hreturns : ∀ {result : Option (MasterProcess × Sent)}, Returns result →
      result.map Prod.fst = some ms' → ms'.Idle := by
    intro result hresult heq
    obtain ⟨⟨ms, sent⟩, rfl, hms⟩ := hresult
    cases heq
    exact hms
  cases a with
  | receive datagram addr currentTime =>
    by_cases hresolves : Resolves net ms addr (recvFrom datagram)
    · exact hreturns (h.processPacket hresolves) hstep
    · rw [step, act, h.processPacket_none hresolves] at hstep
      cases hstep
  | cleanup currentTime => exact hreturns (h.cleanup currentTime) hstep
  | disconnect conn => exact hreturns (h.disconnect conn) hstep

theorem idle_of_run {motdList : List (List UInt8 × List UInt8)} {as : List Action}
    (hrun : Run (step net) (fun _ _ => True) (start motdList) as ms) : ms.Idle :=
  hrun.invariant (fun _ _ _ h _ hstep => step_idle h hstep) (start_idle motdList)

/-- In every state that the server reaches, a datagram is handled exactly if the addresses that its
handler needs are the texts of some. -/
theorem processPacket_isSome_iff {motdList : List (List UInt8 × List UInt8)} {as : List Action}
    (hrun : Run (step net) (fun _ _ => True) (start motdList) as ms) (datagram : List UInt8)
    (addr : Address) (currentTime : U32) :
    (ms.processPacket net (recvFrom datagram) addr currentTime).isSome ↔
      Resolves net ms addr (recvFrom datagram) := by
  have hidle := idle_of_run hrun
  constructor
  · intro hsome
    by_contra hfails
    rw [hidle.processPacket_none hfails] at hsome
    cases hsome
  · intro hresolves
    exact (hidle.processPacket hresolves).isSome

/-- The request names an address whose bytes are the text of one, where no host is connected. -/
theorem processPacket_isSome_iff_unknown :
    let net : Net := ⟨fun text => if text = "::12".toList.map Char.toUInt8 then some [0, 18] else none,
      fun _ => []⟩
    let client : Address := ⟨[10, 0, 0, 1], 28000⟩
    let request : List UInt8 := [2, 3, 0, 7, 0, 0, 0] ++ "::12".toList.map Char.toUInt8
    ∃ ms, ((ms.processPacket net (recvFrom request) client 5).isSome ↔
      Resolves net ms client (recvFrom request)) ∧
      (ms.processPacket net (recvFrom request) client 5).isSome := by
  intro net client request
  have hstart : ((step net (start []) (.receive [1, 0, 0] client 0)).bind fun ms =>
      ms.processPacket net (recvFrom request) client 5).isSome := by decide +kernel
  obtain ⟨result, hresult⟩ := Option.isSome_iff_exists.mp hstart
  obtain ⟨ms, hstep, hprocess⟩ := Option.bind_eq_some_iff.mp hresult
  refine ⟨ms, processPacket_isSome_iff (.cons trivial hstep (.nil ms)) request client 5, ?_⟩
  rw [hprocess]
  rfl

/-- A client sends a request that ends after the number of the RPC. -/
theorem truncated_request_fails : ¬ ∀ (net : Net) (motdList : List (List UInt8 × List UInt8))
    (as : List Action) (ms : MasterProcess),
    Run (step net) (fun _ _ => True) (start motdList) as ms →
    ∀ (datagram : List UInt8) (addr : Address) (currentTime : U32),
      (ms.processPacket net (recvFrom datagram) addr currentTime).isSome := by
  intro hclaim
  let net : Net := ⟨fun text => if text = "::12".toList.map Char.toUInt8 then some [0, 18] else none,
    fun _ => []⟩
  let client : Address := ⟨[10, 0, 0, 1], 28000⟩
  have hstart : ((step net (start []) (.receive [1, 0, 0] client 0)).isSome) := by decide +kernel
  have hfails : ((step net (start []) (.receive [1, 0, 0] client 0)).bind fun ms =>
      ms.processPacket net (recvFrom [2, 3, 0]) client 5) = none := by
    apply Option.isNone_iff_eq_none.mp
    decide +kernel
  obtain ⟨ms, hstep⟩ := Option.isSome_iff_exists.mp hstart
  have hsome := hclaim net [] _ ms (.cons trivial hstep (.nil ms)) [2, 3, 0] client 5
  rw [hstep, Option.bind_some] at hfails
  rw [hfails] at hsome
  cases hsome

end datagrams

end MasterProcess

end TNL.GoRoot
