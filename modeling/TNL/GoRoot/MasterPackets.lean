import TNL.GoRoot.BitStream
import TNL.GoRoot.MasterServer

/-!
# The packets of the Go master server

A datagram is read into a buffer of fixed size and handled in one call, which
ends the program when it dereferences a nil address, indexes outside of a slice or
waits for a lock that it holds itself: it has no result then. The locks of the
server and of a connection are taken as the handlers take them. An IP address is
kept in its shortest form, in which equal addresses are the same bytes, and the
text of an address is read as that address. The entries of a map are listed in
some order.
-/
namespace TNL.GoRoot
open Library

/-- What the `net` package makes of a text. -/
structure Net where
  parseIP : List UInt8 → Option (List UInt8)
  lookupIP : List UInt8 → List (List UInt8)

def newAddress (net : Net) (host : List UInt8) (port : BitVec 16) : Option Address :=
  match net.parseIP host with
  | some ip => some ⟨ip, port⟩
  | none => (net.lookupIP host).head?.map (⟨·, port⟩)

structure ConnectionInfo where
  gameString : List UInt8
  isGameServer : Bool
  strikeCount : U32
  lastActivityTime : U32
  cpuSpeed : U32
  regionCode : U32
  numBots : U32
  playerCount : U32
  maxPlayers : U32
  infoFlags : U32
  currentGameType : Option (List UInt8)
  currentMissionType : Option (List UInt8)

structure ServerInfo where
  gameString : List UInt8
  regionCode : U32
  cpuSpeed : U32
  infoFlags : U32
  playerCount : U32
  maxPlayers : U32
  numBots : U32
  currentGameType : Option (List UInt8)
  currentMissionType : Option (List UInt8)
  lastUpdate : U32

def ServerInfo.matchesFilter (si : ServerInfo) (gameString : List UInt8)
    (regionMask minPlayers maxPlayers infoFlags maxBots minCPUSpeed : U32)
    (gameType missionType : List UInt8) : Bool :=
  si.gameString = gameString ∧ si.regionCode &&& regionMask ≠ 0 ∧
    si.playerCount ≤ maxPlayers ∧ minPlayers ≤ si.playerCount ∧
    infoFlags &&& ~~~si.infoFlags = 0 ∧ si.numBots ≤ maxBots ∧ minCPUSpeed ≤ si.cpuSpeed ∧
    (gameType = [] ∨ si.currentGameType = none ∨ si.currentGameType = some gameType) ∧
    (missionType = [] ∨ si.currentMissionType = none ∨ si.currentMissionType = some missionType)

def ServerInfo.updateStatus (si : ServerInfo) (gameType missionType : List UInt8)
    (botCount playerCount maxPlayers infoFlags currentTime : U32) : ServerInfo :=
  { si with
    currentGameType := some gameType
    currentMissionType := some missionType
    numBots := botCount
    playerCount := playerCount
    maxPlayers := maxPlayers
    infoFlags := infoFlags
    lastUpdate := currentTime }

def ServerInfo.isExpired (si : ServerInfo) (timeout currentTime : U32) : Bool :=
  currentTime - si.lastUpdate > timeout

/-- The master server with its locks; connections are told apart by their pointers. -/
structure MasterProcess where
  server : MasterServer
  mutex : RWMutex
  info : ℕ → ConnectionInfo
  connMutex : ℕ → RWMutex
  nextPointer : ℕ
  servers : List (Address × ServerInfo)
  gameTypes : List (List UInt8)
  missionTypes : List (List UInt8)
  motdList : List (List UInt8 × List UInt8)

/-- The packets sent, with their destinations. -/
abbrev Sent := List (Address × List UInt8)

section sending

/-- The four bytes of an IPv4 address, as packets have them. -/
def wireIP (host : List UInt8) : List UInt8 := if host.length = 4 then host else [0, 0, 0, 0]

def writeAddress (bs : BitStream) (addr : Address) : Option BitStream := do
  let (_, bs) ← bs.writeBits 32 (wireIP addr.host)
  bs.writeInt (addr.port.setWidth 32) 16

def writeAddresses (bs : BitStream) (addresses : List Address) : Option BitStream := do
  let bs ← bs.writeInt (BitVec.ofNat 32 addresses.length) 16
  addresses.foldlM writeAddress bs

def writeByteBuffer (bs : BitStream) (data : List UInt8) : Option BitStream := do
  let bs ← bs.writeInt (BitVec.ofNat 32 data.length) 16
  let (_, bs) ← bs.writeBits (8 * data.length) data
  return bs

def writeStrings (bs : BitStream) (strings : List (List UInt8)) : Option BitStream := do
  let bs ← bs.writeInt (BitVec.ofNat 32 strings.length) 16
  strings.foldlM (fun bs str => bs.writeString str 255) bs

/-- The head of a packet of the master server: its type and the number of the RPC. -/
def rpcPacket (rpcID : U32) : Option BitStream := do
  let bs ← BitStream.newResizableBitStream.writeInt 2 8
  bs.writeInt rpcID 16

def sendGameTypesResponse (queryID : U32) (gameTypes missionTypes : List (List UInt8)) :
    Option (List UInt8) := do
  let bs ← rpcPacket 1
  let bs ← bs.writeInt queryID 32
  let bs ← writeStrings bs gameTypes
  let bs ← writeStrings bs missionTypes
  bs.packet

def sendServersResponse (queryID : U32) (servers : List Address) : Option (List UInt8) := do
  let bs ← rpcPacket 2
  let bs ← bs.writeInt queryID 32
  let bs ← writeAddresses bs servers
  bs.packet

/-- What both packets with possible addresses have. -/
def sendPossibleAddresses (rpcID requestID : U32) (possibleAddresses : List Address)
    (data : List UInt8) : Option (List UInt8) := do
  let bs ← rpcPacket rpcID
  let bs ← bs.writeInt requestID 32
  let bs ← writeAddresses bs possibleAddresses
  let bs ← writeByteBuffer bs data
  bs.packet

def sendClientRequestedArrangedConnection (requestID : U32) (possibleAddresses : List Address)
    (connectionParams : List UInt8) : Option (List UInt8) :=
  sendPossibleAddresses 3 requestID possibleAddresses connectionParams

def sendArrangedConnectionAccepted (requestID : U32) (possibleAddresses : List Address)
    (connectionData : List UInt8) : Option (List UInt8) :=
  sendPossibleAddresses 4 requestID possibleAddresses connectionData

def sendArrangedConnectionRejected (requestID : U32) (rejectData : List UInt8) :
    Option (List UInt8) := do
  let bs ← rpcPacket 5
  let bs ← bs.writeInt requestID 32
  let bs ← writeByteBuffer bs rejectData
  bs.packet

def sendMOTD (motd : List UInt8) : Option (List UInt8) := do
  let bs ← rpcPacket 6
  let bs ← bs.writeString motd 255
  bs.packet

def Message.send : Message → Option (List UInt8)
  | .clientRequestedArrangedConnection requestID possibleAddresses connectionParams =>
    sendClientRequestedArrangedConnection requestID possibleAddresses connectionParams
  | .arrangedConnectionAccepted requestID possibleAddresses connectionData =>
    sendArrangedConnectionAccepted requestID possibleAddresses connectionData
  | .arrangedConnectionRejected requestID rejectData =>
    sendArrangedConnectionRejected requestID rejectData

/-- Send the messages one after another. -/
def sendAll (messages : List (MasterServerConnection × Message)) : Option Sent :=
  messages.mapM fun (conn, message) => message.send.map (conn.address, ·)

end sending

namespace MasterProcess

def gameMissionTypesPerPacket : ℕ := 20
def ipMessageAddressCount : ℕ := 30

/-- A body under the lock for writing, which is given back at the end. -/
def locked (ms : MasterProcess) (body : MasterProcess → Option (MasterProcess × Sent)) :
    Option (MasterProcess × Sent) := do
  let mutex ← ms.mutex.lock
  let (ms, sent) ← body { ms with mutex := mutex }
  return ({ ms with mutex := ms.mutex.unlock }, sent)

def rLocked (ms : MasterProcess) (body : MasterProcess → Option (MasterProcess × Sent)) :
    Option (MasterProcess × Sent) := do
  let mutex ← ms.mutex.rLock
  let (ms, sent) ← body { ms with mutex := mutex }
  return ({ ms with mutex := ms.mutex.rUnlock }, sent)

/-- The third strike starts a disconnection, which may come at any time. -/
def checkActivityTime (ms : MasterProcess) (conn : MasterServerConnection)
    (timeDeltaMinimum currentTime : U32) : Option MasterProcess := do
  let mutex ← (ms.connMutex conn.pointer).lock
  let info := ms.info conn.pointer
  let strikeCount := if currentTime - info.lastActivityTime < timeDeltaMinimum then
      info.strikeCount + 1
    else if info.strikeCount > 0 then info.strikeCount - 1
    else info.strikeCount
  return { ms with
    connMutex := Function.update ms.connMutex conn.pointer mutex.unlock
    info := Function.update ms.info conn.pointer
      { info with strikeCount := strikeCount, lastActivityTime := currentTime } }

/-- The length of the common beginning. -/
def matchLen : List UInt8 → List UInt8 → ℕ
  | a :: as, b :: bs => if a = b then matchLen as bs + 1 else 0
  | _, _ => 0

def getMOTD (motdList : List (List UInt8 × List UInt8)) (gameType : List UInt8) : List UInt8 :=
  (motdList.foldl (fun (bestMatch, maxMatchLen) (entryType, message) =>
      if matchLen entryType gameType > maxMatchLen then (message, matchLen entryType gameType)
      else (bestMatch, maxMatchLen))
    ("Welcome to TNL-Go. Have a nice day.".toList.map Char.toUInt8, 0)).1

/-- What `getOrCreateGameType` and `getOrCreateMissionType` make of their lists. -/
def getOrCreate (types : List (List UInt8)) (name : List UInt8) : List (List UInt8) :=
  if name ∈ types then types else types ++ [name]

/-- Strings are read into a copy, so that they stay empty. -/
def handleConnectionRequest (ms : MasterProcess) (bs : BitStream) (addr : Address)
    (currentTime : U32) : Option (MasterProcess × Sent) :=
  ms.locked fun ms =>
    if (ms.server.connections addr).isSome then some (ms, [])
    else do
      let gameString : List UInt8 := []
      let bs ← bs.readString
      let (isGameServer, bs) ← bs.readFlag
      let conn : MasterServerConnection := ⟨ms.nextPointer, addr⟩
      let ms := { ms with
        nextPointer := ms.nextPointer + 1
        server := ms.server.handleConnectionRequest conn
        connMutex := Function.update ms.connMutex conn.pointer ⟨0, false⟩ }
      if isGameServer then
        let (cpuSpeed, bs) ← bs.readInt 32
        let (regionCode, bs) ← bs.readInt 32
        let (numBots, bs) ← bs.readInt 32
        let (playerCount, bs) ← bs.readInt 32
        let (maxPlayers, bs) ← bs.readInt 32
        let (infoFlags, bs) ← bs.readInt 32
        let gameType : List UInt8 := []
        let bs ← bs.readString
        let missionType : List UInt8 := []
        let _ ← bs.readString
        return ({ ms with
          gameTypes := getOrCreate ms.gameTypes gameType
          missionTypes := getOrCreate ms.missionTypes missionType
          info := Function.update ms.info conn.pointer
            ⟨gameString, true, 0, currentTime, cpuSpeed, regionCode, numBots, playerCount, maxPlayers,
              infoFlags, some gameType, some missionType⟩
          servers := ms.servers.filter (·.1 ≠ addr) ++ [(addr,
            ⟨gameString, regionCode, cpuSpeed, infoFlags, playerCount, maxPlayers, numBots,
              some gameType, some missionType, currentTime⟩)] }, [])
      else
        let packet ← sendMOTD (getMOTD ms.motdList gameString)
        return ({ ms with
          info := Function.update ms.info conn.pointer
            ⟨gameString, false, 0, currentTime, 0, 0, 0, 0, 0, 0, none, none⟩ }, [(addr, packet)])

/-- The chunks of a response, and an empty one at the end, in at most `fuel` steps. -/
def sendGameTypes (queryID : U32) : ℕ → List (List UInt8) → List (List UInt8) →
    Option (List (List UInt8))
  | 0, _, _ => none
  | fuel + 1, gameTypes, missionTypes => do
    let chunkGameTypes := gameTypes.take gameMissionTypesPerPacket
    let chunkMissionTypes := missionTypes.take (gameMissionTypesPerPacket - chunkGameTypes.length)
    let packet ← sendGameTypesResponse queryID chunkGameTypes chunkMissionTypes
    if gameTypes = [] ∧ missionTypes = [] then return [packet]
    else
      let packets ← sendGameTypes queryID fuel (gameTypes.drop chunkGameTypes.length)
        (missionTypes.drop chunkMissionTypes.length)
      return packet :: packets

def handleQueryGameTypes (ms : MasterProcess) (conn : MasterServerConnection) (bs : BitStream) :
    Option (MasterProcess × Sent) := do
  let (queryID, _) ← bs.readInt 32
  ms.rLocked fun ms => do
    let packets ← sendGameTypes queryID (ms.gameTypes.length + ms.missionTypes.length + 1)
      ms.gameTypes ms.missionTypes
    return (ms, packets.map (conn.address, ·))

/-- The chunks of a response, in at most `fuel` steps. -/
def sendServers (queryID : U32) : ℕ → List Address → Option (List (List UInt8))
  | 0, _ => none
  | fuel + 1, servers =>
    if servers = [] then some []
    else do
      let packet ← sendServersResponse queryID (servers.take ipMessageAddressCount)
      let packets ← sendServers queryID fuel (servers.drop ipMessageAddressCount)
      return packet :: packets

def handleQueryServers (ms : MasterProcess) (conn : MasterServerConnection) (bs : BitStream) :
    Option (MasterProcess × Sent) := do
  let (queryID, bs) ← bs.readInt 32
  let (regionMask, bs) ← bs.readInt 32
  let (minPlayers, bs) ← bs.readInt 32
  let (maxPlayers, bs) ← bs.readInt 32
  let (infoFlags, bs) ← bs.readInt 32
  let (maxBots, bs) ← bs.readInt 32
  let (minCPUSpeed, bs) ← bs.readInt 32
  let gameType : List UInt8 := []
  let bs ← bs.readString
  let missionType : List UInt8 := []
  let _ ← bs.readString
  ms.rLocked fun ms => do
    let matching := (ms.servers.filter fun (_, server) => server.matchesFilter
      (ms.info conn.pointer).gameString regionMask minPlayers maxPlayers infoFlags maxBots minCPUSpeed
      gameType missionType).map Prod.fst
    let packets ← sendServers queryID (matching.length + 1) matching
    if matching = [] then return (ms, packets.map (conn.address, ·))
    else
      let packet ← sendServersResponse queryID []
      return (ms, (packets ++ [packet]).map (conn.address, ·))

def readAddress (net : Net) (bs : BitStream) : Option (Option Address × BitStream) := do
  let (ip, bs) ← bs.readBits 32 (List.replicate 4 0)
  let (port, bs) ← bs.readInt 16
  return (newAddress net ip (port.setWidth 16), bs)

def readByteBuffer (bs : BitStream) : Option (List UInt8) := do
  let (size, bs) ← bs.readInt 16
  let (data, _) ← bs.readBits (8 * size.toNat) (List.replicate size.toNat 0)
  return MasterServer.newByteBufferFromData data

/-- The request under the lock. The activity is checked when the host has been found. -/
def requestArranged (ms : MasterProcess) (conn : MasterServerConnection) (requestID : U32)
    (remoteAddr internalAddr : Option Address) (connectionParams : List UInt8) (currentTime : U32) :
    Option (MasterProcess × Sent) := do
  let (server, messages) ← ms.server.handleRequestArrangedConnection conn requestID remoteAddr
    internalAddr connectionParams currentTime
  let known := (remoteAddr.bind ms.server.connections).isSome
  let ms ← if known then ms.checkActivityTime conn 2000 currentTime else some ms
  let sent ← sendAll messages
  return ({ ms with server := server }, sent)

def handleRequestArrangedConnection (net : Net) (ms : MasterProcess)
    (conn : MasterServerConnection) (bs : BitStream) (currentTime : U32) :
    Option (MasterProcess × Sent) := do
  let (requestID, bs) ← bs.readInt 32
  let (remoteAddr, bs) ← readAddress net bs
  let (internalAddr, bs) ← readAddress net bs
  let connectionParams ← readByteBuffer bs
  ms.locked fun ms => ms.requestArranged conn requestID remoteAddr internalAddr connectionParams
    currentTime

/-- The accept under the lock. -/
def acceptArranged (ms : MasterProcess) (conn : MasterServerConnection) (requestID : U32)
    (internalAddr : Option Address) (connectionData : List UInt8) :
    Option (MasterProcess × Sent) := do
  let (server, messages) ← ms.server.handleAcceptArrangedConnection conn requestID internalAddr
    connectionData
  let sent ← sendAll messages
  return ({ ms with server := server }, sent)

def handleAcceptArrangedConnection (net : Net) (ms : MasterProcess)
    (conn : MasterServerConnection) (bs : BitStream) : Option (MasterProcess × Sent) := do
  let (requestID, bs) ← bs.readInt 32
  let (internalAddr, bs) ← readAddress net bs
  let connectionData ← readByteBuffer bs
  ms.locked fun ms => ms.acceptArranged conn requestID internalAddr connectionData

/-- The reject under the lock. -/
def rejectArranged (ms : MasterProcess) (requestID : U32) (rejectData : List UInt8) :
    Option (MasterProcess × Sent) := do
  let (server, messages) := ms.server.handleRejectArrangedConnection requestID rejectData
  let sent ← sendAll messages
  return ({ ms with server := server }, sent)

def handleRejectArrangedConnection (ms : MasterProcess) (bs : BitStream) :
    Option (MasterProcess × Sent) := do
  let (requestID, bs) ← bs.readInt 32
  let rejectData ← readByteBuffer bs
  ms.locked fun ms => ms.rejectArranged requestID rejectData

def handleUpdateServerStatus (ms : MasterProcess) (conn : MasterServerConnection) (bs : BitStream)
    (currentTime : U32) : Option (MasterProcess × Sent) :=
  if (ms.info conn.pointer).isGameServer = false then some (ms, [])
  else do
    let gameType : List UInt8 := []
    let bs ← bs.readString
    let missionType : List UInt8 := []
    let bs ← bs.readString
    let (botCount, bs) ← bs.readInt 32
    let (playerCount, bs) ← bs.readInt 32
    let (maxPlayers, bs) ← bs.readInt 32
    let (infoFlags, _) ← bs.readInt 32
    ms.locked fun ms => do
      let ms := { ms with
        gameTypes := getOrCreate ms.gameTypes gameType
        missionTypes := getOrCreate ms.missionTypes missionType
        info := Function.update ms.info conn.pointer { ms.info conn.pointer with
          currentGameType := some gameType
          currentMissionType := some missionType
          numBots := botCount
          playerCount := playerCount
          maxPlayers := maxPlayers
          infoFlags := infoFlags }
        servers := ms.servers.map fun ((addr, server) : Address × ServerInfo) => if addr = conn.address then
            (addr, server.updateStatus gameType missionType botCount playerCount maxPlayers infoFlags
              currentTime)
          else (addr, server) }
      let ms ← ms.checkActivityTime conn 15000 currentTime
      return (ms, [])

def handleRPCCall (net : Net) (ms : MasterProcess) (bs : BitStream) (addr : Address)
    (currentTime : U32) : Option (MasterProcess × Sent) := do
  let mutex ← ms.mutex.rLock
  let ms := { ms with mutex := mutex.rUnlock }
  match ms.server.connections addr with
  | none => some (ms, [])
  | some conn =>
    let (rpcID, bs) ← bs.readInt 16
    match rpcID.toNat with
    | 1 => ms.handleQueryGameTypes conn bs
    | 2 => ms.handleQueryServers conn bs
    | 3 => ms.handleRequestArrangedConnection net conn bs currentTime
    | 4 => ms.handleAcceptArrangedConnection net conn bs
    | 5 => ms.handleRejectArrangedConnection bs
    | 6 => ms.handleUpdateServerStatus conn bs currentTime
    | _ => some (ms, [])

def processPacket (net : Net) (ms : MasterProcess) (data : List UInt8) (addr : Address)
    (currentTime : U32) : Option (MasterProcess × Sent) := do
  let bs := BitStream.newBitStream data
  let (packetType, bs) ← bs.readInt 8
  match packetType.toNat with
  | 1 => ms.handleConnectionRequest bs addr currentTime
  | 2 => ms.handleRPCCall net bs addr currentTime
  | _ => some (ms, [])

/-- What the receive loop takes from a datagram. -/
def recvFrom (datagram : List UInt8) : List UInt8 := datagram.take BitStream.maxPacketDataSize

def cleanup (ms : MasterProcess) (currentTime : U32) : Option (MasterProcess × Sent) :=
  ms.locked fun ms => some ({ ms with
    server := ms.server.cleanup currentTime
    servers := ms.servers.filter fun (_, server) => !server.isExpired 60000 currentTime }, [])

/-- A disconnection takes the lock of the connection first. -/
def disconnect (ms : MasterProcess) (conn : MasterServerConnection) :
    Option (MasterProcess × Sent) := do
  let mutex ← (ms.connMutex conn.pointer).lock
  let ms := { ms with connMutex := Function.update ms.connMutex conn.pointer mutex }
  let (ms, sent) ← ms.locked fun ms => some ({ ms with
    server := ms.server.disconnect conn
    servers := if (ms.info conn.pointer).isGameServer then ms.servers.filter (·.1 ≠ conn.address)
      else ms.servers }, [])
  return ({ ms with
    connMutex := Function.update ms.connMutex conn.pointer (ms.connMutex conn.pointer).unlock }, sent)

inductive Action where
  | receive (datagram : List UInt8) (addr : Address) (currentTime : U32)
  | cleanup (currentTime : U32)
  | disconnect (conn : MasterServerConnection)

def act (net : Net) (ms : MasterProcess) : Action → Option (MasterProcess × Sent)
  | .receive datagram addr currentTime => ms.processPacket net (recvFrom datagram) addr currentTime
  | .cleanup currentTime => ms.cleanup currentTime
  | .disconnect conn => ms.disconnect conn

def step (net : Net) (ms : MasterProcess) (a : Action) : Option MasterProcess :=
  (ms.act net a).map Prod.fst

def start (motdList : List (List UInt8 × List UInt8)) : MasterProcess where
  server := MasterServer.start
  mutex := ⟨0, false⟩
  info _ := ⟨[], false, 0, 0, 0, 0, 0, 0, 0, 0, none, none⟩
  connMutex _ := ⟨0, false⟩
  nextPointer := 0
  servers := []
  gameTypes := []
  missionTypes := []
  motdList := motdList

end MasterProcess

end TNL.GoRoot
