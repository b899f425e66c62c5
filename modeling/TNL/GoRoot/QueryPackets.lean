import TNL.GoRoot.Relay

/-!
# Queries and their answers

What a client asks the master server for, the packets of the answers, and what the client
does when it receives them. A client handles one packet after another. It has a connection
to the master server when it asks, and its socket cuts a packet that is too long.
-/
namespace TNL.GoRoot
open Library TNL.GoRoot.BitStream

/-! What a client asks for. -/

structure ServersFilter where
  regionMask : U32
  minPlayers : U32
  maxPlayers : U32
  infoFlags : U32
  maxBots : U32
  minCPUSpeed : U32
  gameType : List UInt8
  missionType : List UInt8
  deriving DecidableEq

inductive Query where
  | gameTypes
  | servers (filter : ServersFilter)

def sendQueryGameTypes (queryID : U32) : Option (List UInt8) := do
  let bs ← rpcPacket 1
  let bs ← bs.writeInt queryID 32
  bs.packet

def sendQueryServers (queryID : U32) (filter : ServersFilter) : Option (List UInt8) := do
  let bs ← rpcPacket 2
  let bs ← bs.writeInt queryID 32
  let bs ← bs.writeInt filter.regionMask 32
  let bs ← bs.writeInt filter.minPlayers 32
  let bs ← bs.writeInt filter.maxPlayers 32
  let bs ← bs.writeInt filter.infoFlags 32
  let bs ← bs.writeInt filter.maxBots 32
  let bs ← bs.writeInt filter.minCPUSpeed 32
  let bs ← bs.writeString filter.gameType 255
  let bs ← bs.writeString filter.missionType 255
  bs.packet

def Query.send (queryID : U32) : Query → Option (List UInt8)
  | gameTypes => sendQueryGameTypes queryID
  | servers filter => sendQueryServers queryID filter

/-! What the client does with the answers. -/

/-- What a client goes on with. -/
inductive NextStep where
  | queryServers (queryID : U32) (filter : ServersFilter)
  | requestArrangedConnection (requestID : U32) (targetServer : Address)
  | noServers

structure QueryingClient extends MasterClient where
  gameTypes : List (List UInt8)
  missionTypes : List (List UInt8)
  serverList : List Address

namespace QueryingClient

/-- All servers. -/
def allServers : ServersFilter := ⟨0xFFFFFFFF, 0, 128, 0, 128, 0, [], []⟩

def queryServers (mc : QueryingClient) : QueryingClient × NextStep :=
  let mc := { mc with currentQueryID := mc.currentQueryID + 1, serverList := [] }
  (mc, .queryServers mc.currentQueryID allServers)

/-- Strings are read into copies, so that the lists are of empty strings. -/
def readStrings (bs : BitStream) : Option (List (List UInt8) × BitStream) := do
  let (count, bs) ← bs.readInt 16
  let bs ← (List.range count.toNat).foldlM (fun bs _ => bs.readString) bs
  return (List.replicate count.toNat [], bs)

def handleGameTypesResponse (mc : QueryingClient) (bs : BitStream) :
    Option (QueryingClient × Option NextStep) := do
  let (queryID, bs) ← bs.readInt 32
  if queryID ≠ mc.currentQueryID then return (mc, none)
  else
    let (gameTypes, bs) ← readStrings bs
    let (missionTypes, _) ← readStrings bs
    let mc := { mc with
      gameTypes := mc.gameTypes ++ gameTypes
      missionTypes := mc.missionTypes ++ missionTypes }
    if gameTypes.length = 0 ∧ missionTypes.length = 0 then
      let (mc, next) := mc.queryServers
      return (mc, some next)
    else return (mc, none)

/-- `random` is what the generator gives, of which `Intn` takes the remainder. -/
def tryConnectToServer (mc : QueryingClient) (random : ℕ) : QueryingClient × NextStep :=
  match mc.serverList[random % mc.serverList.length]? with
  | none => (mc, .noServers)
  | some targetServer =>
    let mc := { mc with currentQueryID := mc.currentQueryID + 1 }
    (mc, .requestArrangedConnection mc.currentQueryID targetServer)

def handleServersResponse (mc : QueryingClient) (random : ℕ) (bs : BitStream) :
    Option (QueryingClient × Option NextStep) := do
  let (queryID, bs) ← bs.readInt 32
  if queryID ≠ mc.currentQueryID then return (mc, none)
  else
    let (servers, _) ← readPossibleAddresses bs
    let mc := { mc with serverList := mc.serverList ++ servers }
    if servers.length = 0 ∧ mc.isServer = false then
      let (mc, next) := mc.tryConnectToServer random
      return (mc, some next)
    else return (mc, none)

/-- The other RPCs are not about queries. -/
def handleRPCResponse (mc : QueryingClient) (random : ℕ) (bs : BitStream) :
    Option (QueryingClient × Option NextStep) := do
  let (rpcID, bs) ← bs.readInt 16
  match rpcID.toNat with
  | 1 => mc.handleGameTypesResponse bs
  | 2 => mc.handleServersResponse random bs
  | _ => return (mc, none)

def processPacket (mc : QueryingClient) (random : ℕ) (data : List UInt8) (addr : Address) :
    Option (QueryingClient × Option NextStep) :=
  if addr ≠ mc.masterAddress then some (mc, none)
  else do
    let (packetType, bs) ← (newBitStream data).readInt 8
    match packetType.toNat with
    | 2 => mc.handleRPCResponse random bs
    | _ => return (mc, none)

/-- The packets of the master server in order, with what the client goes on with after each. -/
def receiveAll (random : ℕ) (mc : QueryingClient) :
    List (List UInt8) → Option (QueryingClient × List (Option NextStep))
  | [] => some (mc, [])
  | datagram :: datagrams => do
    let (mc, next) ← mc.processPacket random (MasterProcess.recvFrom datagram) mc.masterAddress
    let (mc, nexts) ← receiveAll random mc datagrams
    return (mc, next :: nexts)

end QueryingClient

/-! The bytes of the packets. -/

def stringBytes (str : List UInt8) : List UInt8 := leBytes 1 (str.take 255).length ++ str.take 255

def stringsBytes (strings : List (List UInt8)) : List UInt8 :=
  leBytes 2 strings.length ++ strings.flatMap stringBytes

def ServersFilter.bytes (filter : ServersFilter) : List UInt8 :=
  leBytes 4 filter.regionMask.toNat ++ leBytes 4 filter.minPlayers.toNat ++
    leBytes 4 filter.maxPlayers.toNat ++ leBytes 4 filter.infoFlags.toNat ++
    leBytes 4 filter.maxBots.toNat ++ leBytes 4 filter.minCPUSpeed.toNat ++
    stringBytes filter.gameType ++ stringBytes filter.missionType

def Query.bytes (queryID : U32) : Query → List UInt8
  | gameTypes => headBytes 1 ++ leBytes 4 queryID.toNat
  | servers filter => headBytes 2 ++ (leBytes 4 queryID.toNat ++ filter.bytes)

def gameTypesBytes (queryID : U32) (gameTypes missionTypes : List (List UInt8)) : List UInt8 :=
  headBytes 1 ++ leBytes 4 queryID.toNat ++ stringsBytes gameTypes ++ stringsBytes missionTypes

def serversBytes (queryID : U32) (servers : List Address) : List UInt8 :=
  headBytes 2 ++ leBytes 4 queryID.toNat ++ addressesBytes servers

section fields

variable {bs : BitStream} {rest : List UInt8}

theorem BitStream.Reads.readU32 {value : U32} (h : bs.Reads (leBytes 4 value.toNat ++ rest)) :
    ∃ bs', bs.readInt 32 = some (value, bs') ∧ bs'.Reads rest := by
  obtain ⟨bs', heq, hbs'⟩ := h.readInt (k := 4) (by decide)
  rw [takeInt_append, MasterClient.toNat_id] at heq
  rw [takeInt_append] at hbs'
  exact ⟨bs', heq, hbs'⟩

end fields

section writing

variable {bs : BitStream} {bytes : List UInt8}

theorem writeString_writes (h : bs.Writes bytes) (str : List UInt8) :
    ∃ bs', bs.writeString str 255 = some bs' ∧ bs'.Writes (bytes ++ stringBytes str) := by
  have hcut : (if str.length > 255 then str.take 255 else str) = str.take 255 := by
    by_cases hlong : str.length > 255
    · rw [if_pos hlong]
    · rw [if_neg hlong, List.take_of_length_le (not_lt.mp hlong)]
  have hloop : ∀ (str : List UInt8) (bs : BitStream) (bytes : List UInt8), bs.Writes bytes →
      ∃ bs', str.foldlM (fun bs b => bs.writeInt (b.toBitVec.setWidth 32) 8) bs = some bs' ∧
        bs'.Writes (bytes ++ str) := by
    intro str
    induction str with
    | nil => exact fun bs bytes h => ⟨bs, rfl, by simpa using h⟩
    | cons b str ih =>
      intro bs bytes h
      obtain ⟨bs₁, heq₁, h₁⟩ := h.writeInt (b.toBitVec.setWidth 32) 1
      have hbyte : leBytes 1 (b.toBitVec.setWidth 32).toNat = [b] := by
        rw [BitVec.toNat_setWidth, Nat.mod_eq_of_lt (b.toBitVec.isLt.trans (by decide))]
        exact congrArg (fun b => [b]) (UInt8.ofNat_toNat (x := b))
      rw [hbyte] at h₁
      obtain ⟨bs', heq', h'⟩ := ih bs₁ _ h₁
      refine ⟨bs', ?_, by simpa using h'⟩
      rw [List.foldlM_cons]
      change (bs.writeInt (b.toBitVec.setWidth 32) (8 * 1)).bind _ = _
      rw [heq₁]
      exact heq'
  have hlength : (BitVec.ofNat 32 (str.take 255).length).toNat = (str.take 255).length := by
    rw [BitVec.toNat_ofNat, Nat.mod_eq_of_lt]
    exact (List.length_take_le 255 str).trans_lt (by decide)
  obtain ⟨bs₁, heq₁, h₁⟩ := h.writeInt (BitVec.ofNat 32 (str.take 255).length) 1
  rw [hlength] at h₁
  obtain ⟨bs', heq', h'⟩ := hloop (str.take 255) bs₁ _ h₁
  refine ⟨bs', ?_, by rwa [List.append_assoc] at h'⟩
  rw [BitStream.writeString]
  rw [hcut]
  change (bs.writeInt _ (8 * 1)).bind _ = _
  rw [heq₁]
  exact heq'

theorem writeStrings_bytes (h : bs.Writes bytes) (strings : List (List UInt8)) :
    ∃ bs', writeStrings bs strings = some bs' ∧ bs'.Writes (bytes ++ stringsBytes strings) := by
  have hloop : ∀ (strings : List (List UInt8)) (bs : BitStream) (bytes : List UInt8),
      bs.Writes bytes → ∃ bs',
        strings.foldlM (fun bs str => bs.writeString str 255) bs = some bs' ∧
          bs'.Writes (bytes ++ strings.flatMap stringBytes) := by
    intro strings
    induction strings with
    | nil => exact fun bs bytes h => ⟨bs, rfl, by simpa using h⟩
    | cons str strings ih =>
      intro bs bytes h
      obtain ⟨bs₁, heq₁, h₁⟩ := writeString_writes h str
      obtain ⟨bs', heq', h'⟩ := ih bs₁ _ h₁
      refine ⟨bs', ?_, by simpa using h'⟩
      rw [List.foldlM_cons, heq₁]
      exact heq'
  obtain ⟨bs₁, heq₁, h₁⟩ := h.writeInt (BitVec.ofNat 32 strings.length) 2
  rw [leBytes_length_field] at h₁
  obtain ⟨bs', heq', h'⟩ := hloop strings bs₁ _ h₁
  refine ⟨bs', ?_, by rwa [List.append_assoc] at h'⟩
  rw [writeStrings, heq₁]
  exact heq'

theorem sendGameTypesResponse_eq (queryID : U32) (gameTypes missionTypes : List (List UInt8)) :
    sendGameTypesResponse queryID gameTypes missionTypes =
      some (gameTypesBytes queryID gameTypes missionTypes) := by
  obtain ⟨bs₁, heq₁, h₁⟩ := rpcPacket_writes 1
  obtain ⟨bs₂, heq₂, h₂⟩ := h₁.writeInt queryID 4
  obtain ⟨bs₃, heq₃, h₃⟩ := writeStrings_bytes h₂ gameTypes
  obtain ⟨bs₄, heq₄, h₄⟩ := writeStrings_bytes h₃ missionTypes
  rw [sendGameTypesResponse, heq₁]
  change (bs₁.writeInt queryID (8 * 4)).bind _ = _
  rw [heq₂]
  change (writeStrings bs₂ gameTypes).bind _ = _
  rw [heq₃]
  change (writeStrings bs₃ missionTypes).bind _ = _
  rw [heq₄]
  exact h₄.packet

theorem sendServersResponse_eq (queryID : U32) (servers : List Address) :
    sendServersResponse queryID servers = some (serversBytes queryID servers) := by
  obtain ⟨bs₁, heq₁, h₁⟩ := rpcPacket_writes 2
  obtain ⟨bs₂, heq₂, h₂⟩ := h₁.writeInt queryID 4
  obtain ⟨bs₃, heq₃, h₃⟩ := writeAddresses_writes h₂ servers
  rw [sendServersResponse, heq₁]
  change (bs₁.writeInt queryID (8 * 4)).bind _ = _
  rw [heq₂]
  change (writeAddresses bs₂ servers).bind _ = _
  rw [heq₃]
  exact h₃.packet

theorem Query.send_eq (query : Query) (queryID : U32) :
    query.send queryID = some (query.bytes queryID) := by
  cases query with
  | gameTypes =>
    obtain ⟨bs₁, heq₁, h₁⟩ := rpcPacket_writes 1
    obtain ⟨bs₂, heq₂, h₂⟩ := h₁.writeInt queryID 4
    rw [send, sendQueryGameTypes, heq₁]
    change (bs₁.writeInt queryID (8 * 4)).bind _ = _
    rw [heq₂]
    exact h₂.packet
  | servers filter =>
    obtain ⟨bs₁, heq₁, h₁⟩ := rpcPacket_writes 2
    obtain ⟨bs₂, heq₂, h₂⟩ := h₁.writeInt queryID 4
    obtain ⟨bs₃, heq₃, h₃⟩ := h₂.writeInt filter.regionMask 4
    obtain ⟨bs₄, heq₄, h₄⟩ := h₃.writeInt filter.minPlayers 4
    obtain ⟨bs₅, heq₅, h₅⟩ := h₄.writeInt filter.maxPlayers 4
    obtain ⟨bs₆, heq₆, h₆⟩ := h₅.writeInt filter.infoFlags 4
    obtain ⟨bs₇, heq₇, h₇⟩ := h₆.writeInt filter.maxBots 4
    obtain ⟨bs₈, heq₈, h₈⟩ := h₇.writeInt filter.minCPUSpeed 4
    obtain ⟨bs₉, heq₉, h₉⟩ := writeString_writes h₈ filter.gameType
    obtain ⟨bs₁₀, heq₁₀, h₁₀⟩ := writeString_writes h₉ filter.missionType
    rw [send, sendQueryServers, heq₁]
    change (bs₁.writeInt queryID (8 * 4)).bind _ = _
    rw [heq₂]
    change (bs₂.writeInt filter.regionMask (8 * 4)).bind _ = _
    rw [heq₃]
    change (bs₃.writeInt filter.minPlayers (8 * 4)).bind _ = _
    rw [heq₄]
    change (bs₄.writeInt filter.maxPlayers (8 * 4)).bind _ = _
    rw [heq₅]
    change (bs₅.writeInt filter.infoFlags (8 * 4)).bind _ = _
    rw [heq₆]
    change (bs₆.writeInt filter.maxBots (8 * 4)).bind _ = _
    rw [heq₇]
    change (bs₇.writeInt filter.minCPUSpeed (8 * 4)).bind _ = _
    rw [heq₈]
    change (bs₈.writeString filter.gameType 255).bind _ = _
    rw [heq₉]
    change (bs₉.writeString filter.missionType 255).bind _ = _
    rw [heq₁₀]
    have hpacket := h₁₀.packet
    simp only [List.append_assoc] at hpacket
    simp only [bytes, ServersFilter.bytes, List.append_assoc]
    exact hpacket

end writing

theorem stringBytes_length_le (str : List UInt8) : (stringBytes str).length ≤ 256 := by
  have htake := List.length_take_le 255 str
  rw [stringBytes, List.length_append, leBytes_length]
  omega

theorem Query.bytes_length_le (query : Query) (queryID : U32) :
    (query.bytes queryID).length ≤ maxPacketDataSize := by
  have hmax : maxPacketDataSize = 1500 := rfl
  cases query with
  | gameTypes =>
    simp only [bytes, headBytes, List.length_append, leBytes_length]
    omega
  | servers filter =>
    have hgame := stringBytes_length_le filter.gameType
    have hmission := stringBytes_length_le filter.missionType
    simp only [bytes, ServersFilter.bytes, headBytes, List.length_append, leBytes_length]
    omega

theorem serversBytes_length (queryID : U32) (servers : List Address) :
    (serversBytes queryID servers).length = 9 + 6 * servers.length := by
  have haddresses : (servers.flatMap addressBytes).length = 6 * servers.length := by
    induction servers with
    | nil => rfl
    | cons addr servers ih =>
      rw [List.flatMap_cons, List.length_append, ih, addressBytes, List.length_append,
        wireIP_length, leBytes_length, List.length_cons]
      omega
  simp only [serversBytes, headBytes, addressesBytes, List.length_append, leBytes_length,
    haddresses]
  omega

end TNL.GoRoot
