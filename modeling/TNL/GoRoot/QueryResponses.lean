import TNL.Library.Batches
import TNL.GoRoot.QueryPackets

/-!
# The answers to queries

An answer is a number of responses, of which only the last is empty. The client goes on when
it has received an empty one. Types are always answered so. Servers are answered so if some
server matches, and the names of types in a query make no difference to what is listed.
-/
namespace TNL.GoRoot
open Library Batches TNL.GoRoot.BitStream
open scoped List

/-- What a response lists. -/
inductive Entry where
  | gameType (name : List UInt8)
  | missionType (name : List UInt8)
  | server (addr : Address)

namespace Entry

def gameType? : Entry → Option (List UInt8)
  | gameType name => some name
  | _ => none

def missionType? : Entry → Option (List UInt8)
  | missionType name => some name
  | _ => none

def server? : Entry → Option Address
  | server addr => some addr
  | _ => none

@[simp]
theorem filterMap_gameType? (names names' : List (List UInt8)) :
    (names.map gameType ++ names'.map missionType).filterMap gameType? = names := by
  rw [List.filterMap_append, List.filterMap_map, List.filterMap_map]
  have hnames : names.filterMap (gameType? ∘ gameType) = names := List.filterMap_some
  have hnames' : names'.filterMap (gameType? ∘ missionType) = [] :=
    List.filterMap_eq_nil_iff.mpr fun _ _ => rfl
  rw [hnames, hnames', List.append_nil]

@[simp]
theorem filterMap_missionType? (names names' : List (List UInt8)) :
    (names.map gameType ++ names'.map missionType).filterMap missionType? = names' := by
  rw [List.filterMap_append, List.filterMap_map, List.filterMap_map]
  have hnames : names.filterMap (missionType? ∘ gameType) = [] :=
    List.filterMap_eq_nil_iff.mpr fun _ _ => rfl
  have hnames' : names'.filterMap (missionType? ∘ missionType) = names' := List.filterMap_some
  rw [hnames, hnames', List.nil_append]

@[simp]
theorem filterMap_server? (addresses : List Address) :
    (addresses.map server).filterMap server? = addresses := by
  rw [List.filterMap_map]
  exact List.filterMap_some

end Entry

def ServersFilter.accepts (filter : ServersFilter) (gameString : List UInt8)
    (server : ServerInfo) : Bool :=
  server.matchesFilter gameString filter.regionMask filter.minPlayers filter.maxPlayers
    filter.infoFlags filter.maxBots filter.minCPUSpeed filter.gameType filter.missionType

/-- The filter as the server takes it, for which any types will do. -/
def ServersFilter.anyTypes (filter : ServersFilter) : ServersFilter :=
  { filter with gameType := [], missionType := [] }

namespace Query

/-- How many entries a packet has at most. -/
def limit : Query → ℕ
  | gameTypes => MasterProcess.gameMissionTypesPerPacket
  | servers _ => MasterProcess.ipMessageAddressCount

/-- What a query from a client with a game string asks for. -/
def matching (ms : MasterProcess) (gameString : List UInt8) : Query → List Entry
  | gameTypes => ms.gameTypes.map .gameType ++ ms.missionTypes.map .missionType
  | servers filter => ((ms.servers.filter fun server => filter.accepts gameString server.2).map
      Prod.fst).map .server

/-- The packet of a response. -/
def packet (queryID : U32) (response : List Entry) : Query → List UInt8
  | gameTypes => gameTypesBytes queryID (response.filterMap Entry.gameType?)
      (response.filterMap Entry.missionType?)
  | servers _ => serversBytes queryID (response.filterMap Entry.server?)

/-- The packets are responses that list what matches, and only the last of them is empty. -/
def AnsweredBy (query : Query) (ms : MasterProcess) (gameString : List UInt8) (queryID : U32)
    (packets : List (List UInt8)) : Prop :=
  ∃ responses : List (List Entry), Terminated query.limit responses ∧
    responses.flatten.Perm (query.matching ms gameString) ∧
    packets = responses.map fun response => query.packet queryID response

/-- Some server matches, and no server is refused for its types only. -/
def Answerable (ms : MasterProcess) (gameString : List UInt8) : Query → Prop
  | gameTypes => True
  | servers filter => (∃ server ∈ ms.servers, filter.accepts gameString server.2 = true) ∧
      ∀ server ∈ ms.servers, filter.anyTypes.accepts gameString server.2 = true →
        filter.accepts gameString server.2 = true

instance (query : Query) (ms : MasterProcess) (gameString : List UInt8) :
    Decidable (query.Answerable ms gameString) :=
  match query with
  | gameTypes => inferInstanceAs (Decidable True)
  | servers _ => inferInstanceAs (Decidable (_ ∧ _))

end Query

/-- The client goes on when it has received the last of the packets, and not before. -/
def QueryingClient.GoesOn (mc : QueryingClient) (random : ℕ) (packets : List (List UInt8)) : Prop :=
  ∃ mc' waiting next, mc.receiveAll random packets = some (mc', waiting ++ [some next]) ∧
    ∀ step ∈ waiting, step = none

/-- A client's query is answered, and the client goes on. -/
def Query.Served (query : Query) (net : Net) (ms : MasterProcess) (addr : Address)
    (gameString : List UInt8) (queryID currentTime : U32) (random : ℕ) : Prop :=
  ∃ packet sent, query.send queryID = some packet ∧
    ms.act net (.receive packet addr currentTime) = some (ms, sent) ∧ (∀ p ∈ sent, p.1 = addr) ∧
    query.AnsweredBy ms gameString queryID (sent.map Prod.snd) ∧
    ∀ mc : QueryingClient, mc.currentQueryID = queryID → mc.isServer = false →
      mc.GoesOn random (sent.map Prod.snd)

theorem ServersFilter.accepts_anyTypes {filter : ServersFilter} {gameString : List UInt8}
    {server : ServerInfo} (h : filter.accepts gameString server = true) :
    filter.anyTypes.accepts gameString server = true := by
  rw [accepts, ServerInfo.matchesFilter, decide_eq_true_iff] at h ⊢
  obtain ⟨hgame, hregion, hmax, hmin, hflags, hbots, hspeed, -, -⟩ := h
  exact ⟨hgame, hregion, hmax, hmin, hflags, hbots, hspeed, .inl rfl, .inl rfl⟩

/-! The responses. -/

namespace MasterProcess

variable {ms : MasterProcess} {conn : MasterServerConnection} {bs : BitStream} {queryID : U32}
  {fuel : ℕ} {body : MasterProcess → Option (MasterProcess × Sent)}

theorem sendGameTypes_responses (queryID : U32) {gameTypes missionTypes : List (List UInt8)}
    (hfuel : gameTypes.length + missionTypes.length < fuel) :
    ∃ responses : List (List Entry), sendGameTypes queryID fuel gameTypes missionTypes =
        some (responses.map fun response => Query.gameTypes.packet queryID response) ∧
      Terminated gameMissionTypesPerPacket responses ∧
      responses.flatten.Perm (gameTypes.map .gameType ++ missionTypes.map .missionType) := by
  induction fuel generalizing gameTypes missionTypes with
  | zero => cases hfuel
  | succ fuel ih =>
    have hlimit : gameMissionTypesPerPacket = 20 := rfl
    rw [sendGameTypes]
    rw [sendGameTypesResponse_eq]
    by_cases hdone : gameTypes = [] ∧ missionTypes = []
    · obtain ⟨rfl, rfl⟩ := hdone
      refine ⟨[[]], rfl, ⟨?_, [], rfl, List.not_mem_nil⟩, List.Perm.refl _⟩
      rw [List.forall_mem_singleton]
      exact Nat.zero_le _
    · have hpos : 0 < gameTypes.length + missionTypes.length := by
        rw [Nat.pos_iff_ne_zero, ne_eq, Nat.add_eq_zero_iff, List.length_eq_zero_iff,
          List.length_eq_zero_iff]
        exact hdone
      generalize hgame : gameTypes.take gameMissionTypesPerPacket = chunkGameTypes
      generalize hmission : missionTypes.take (gameMissionTypesPerPacket - chunkGameTypes.length) =
        chunkMissionTypes
      have hgamelength : chunkGameTypes.length = min 20 gameTypes.length := by
        rw [← hgame, List.length_take, hlimit]
      have hmissionlength : chunkMissionTypes.length =
          min (20 - chunkGameTypes.length) missionTypes.length := by
        rw [← hmission, List.length_take, hlimit]
      have hgamesplit : chunkGameTypes ++ gameTypes.drop chunkGameTypes.length = gameTypes := by
        rw [← hgame]
        exact List.prefix_iff_eq_append.mp (List.take_prefix ..)
      have hmissionsplit :
          chunkMissionTypes ++ missionTypes.drop chunkMissionTypes.length = missionTypes := by
        rw [← hmission]
        exact List.prefix_iff_eq_append.mp (List.take_prefix ..)
      have hless : (gameTypes.drop chunkGameTypes.length).length +
          (missionTypes.drop chunkMissionTypes.length).length < fuel := by
        rw [List.length_drop, List.length_drop]
        omega
      obtain ⟨responses, hsend, hterminated, hperm⟩ := ih hless
      have hcount : (chunkGameTypes.map Entry.gameType ++
          chunkMissionTypes.map Entry.missionType).length =
            chunkGameTypes.length + chunkMissionTypes.length := by simp
      refine ⟨(chunkGameTypes.map .gameType ++ chunkMissionTypes.map .missionType) :: responses,
        ?_, hterminated.cons ?_ ?_, ?_⟩
      · rw [Option.bind_eq_bind, Option.bind_some, if_neg hdone]
        change (sendGameTypes _ _ _ _).bind _ = _
        rw [hsend, List.map_cons, Query.packet, Entry.filterMap_gameType?,
          Entry.filterMap_missionType?]
        rfl
      · rw [hcount, hlimit]
        omega
      · rw [← List.length_pos_iff, hcount]
        omega
      · rw [List.flatten_cons]
        have hentries := List.perm_append_comm_assoc (chunkMissionTypes.map Entry.missionType)
          ((gameTypes.drop chunkGameTypes.length).map Entry.gameType)
          ((missionTypes.drop chunkMissionTypes.length).map Entry.missionType)
        calc chunkGameTypes.map Entry.gameType ++ chunkMissionTypes.map .missionType ++
              responses.flatten
            ~ chunkGameTypes.map Entry.gameType ++ chunkMissionTypes.map .missionType ++
              ((gameTypes.drop chunkGameTypes.length).map Entry.gameType ++
                (missionTypes.drop chunkMissionTypes.length).map Entry.missionType) :=
              hperm.append_left _
          _ ~ chunkGameTypes.map Entry.gameType ++
              ((gameTypes.drop chunkGameTypes.length).map Entry.gameType ++
                (chunkMissionTypes.map .missionType ++
                  (missionTypes.drop chunkMissionTypes.length).map Entry.missionType)) := by
              rw [List.append_assoc]
              exact hentries.append_left _
          _ = gameTypes.map .gameType ++ missionTypes.map .missionType := by
              rw [← List.append_assoc, ← List.map_append, ← List.map_append, hgamesplit,
                hmissionsplit]

/-- Every response lists a server. -/
theorem sendServers_responses (queryID : U32) (filter : ServersFilter) {addresses : List Address}
    (hfuel : addresses.length < fuel) :
    ∃ responses : List (List Entry), sendServers queryID fuel addresses =
        some (responses.map fun response => (Query.servers filter).packet queryID response) ∧
      (∀ response ∈ responses, response ≠ [] ∧ response.length ≤ ipMessageAddressCount) ∧
      responses.flatten = addresses.map Entry.server := by
  induction fuel generalizing addresses with
  | zero => cases hfuel
  | succ fuel ih =>
    have hlimit : ipMessageAddressCount = 30 := rfl
    rw [sendServers]
    by_cases hdone : addresses = []
    · rw [if_pos hdone, hdone]
      exact ⟨[], rfl, fun _ hmem => absurd hmem List.not_mem_nil, rfl⟩
    · have hpos := List.length_pos_iff.mpr hdone
      have hless : (addresses.drop ipMessageAddressCount).length < fuel := by
        rw [List.length_drop]
        omega
      obtain ⟨responses, hsend, hall, hflatten⟩ := ih hless
      have hcount : ((addresses.take ipMessageAddressCount).map Entry.server).length =
          min 30 addresses.length := by
        rw [List.length_map, List.length_take, hlimit]
      refine ⟨(addresses.take ipMessageAddressCount).map .server :: responses, ?_, ?_, ?_⟩
      · rw [if_neg hdone, sendServersResponse_eq]
        change (sendServers _ _ _).bind _ = _
        rw [hsend, List.map_cons, Query.packet, Entry.filterMap_server?]
        rfl
      · rw [List.forall_mem_cons, ← List.length_pos_iff, hcount]
        exact ⟨⟨by omega, by omega⟩, hall⟩
      · rw [List.flatten_cons, hflatten, ← List.map_append, List.take_append_drop]

theorem Idle.rLocked_eq {sent : Sent} (h : ms.Idle)
    (hbody : body { ms with mutex := ⟨1, false⟩ } = some ({ ms with mutex := ⟨1, false⟩ }, sent)) :
    ms.rLocked body = some (ms, sent) := by
  rw [MasterProcess.rLocked, h.mutex]
  change (body { ms with mutex := ⟨1, false⟩ }).bind _ = _
  rw [hbody]
  cases ms
  cases h.mutex
  rfl

theorem Idle.handleQueryGameTypes_responses (h : ms.Idle) (conn : MasterServerConnection)
    (hbs : bs.Reads (leBytes 4 queryID.toNat)) :
    ∃ responses : List (List Entry), ms.handleQueryGameTypes conn bs =
        some (ms, (responses.map fun response => Query.gameTypes.packet queryID response).map
          (conn.address, ·)) ∧
      Terminated gameMissionTypesPerPacket responses ∧
      responses.flatten ~ Query.gameTypes.matching ms (ms.info conn.pointer).gameString := by
  obtain ⟨responses, hsend, hterminated, hperm⟩ := sendGameTypes_responses queryID
    (Nat.lt_succ_self (ms.gameTypes.length + ms.missionTypes.length))
  rw [← List.append_nil (leBytes 4 queryID.toNat)] at hbs
  obtain ⟨bs₁, heq₁, -⟩ := hbs.readU32
  refine ⟨responses, ?_, hterminated, hperm⟩
  rw [MasterProcess.handleQueryGameTypes]
  change (bs.readInt 32).bind _ = _
  rw [heq₁, Option.bind_some]
  apply h.rLocked_eq
  change (sendGameTypes _ _ _ _).bind _ = _
  rw [hsend]
  rfl

/-- The addresses of the servers that are listed. -/
def listed (ms : MasterProcess) (gameString : List UInt8) (filter : ServersFilter) : List Address :=
  (ms.servers.filter fun server => filter.anyTypes.accepts gameString server.2).map Prod.fst

theorem Idle.handleQueryServers_responses (h : ms.Idle) (conn : MasterServerConnection)
    (filter : ServersFilter)
    (hbs : bs.Reads (leBytes 4 queryID.toNat ++ filter.bytes)) :
    ∃ responses : List (List Entry), ms.handleQueryServers conn bs =
        some (ms, (responses.map fun response =>
          (Query.servers filter).packet queryID response).map (conn.address, ·)) ∧
      responses.flatten =
        (ms.listed (ms.info conn.pointer).gameString filter).map Entry.server ∧
      (ms.listed (ms.info conn.pointer).gameString filter = [] → responses = []) ∧
      (ms.listed (ms.info conn.pointer).gameString filter ≠ [] →
        Terminated ipMessageAddressCount responses) := by
  obtain ⟨responses, hsend, hall, hflatten⟩ := sendServers_responses queryID filter
    (Nat.lt_succ_self (ms.listed (ms.info conn.pointer).gameString filter).length)
  simp only [ServersFilter.bytes, List.append_assoc] at hbs
  obtain ⟨bs₁, heq₁, h₁⟩ := hbs.readU32
  obtain ⟨bs₂, heq₂, h₂⟩ := h₁.readU32
  obtain ⟨bs₃, heq₃, h₃⟩ := h₂.readU32
  obtain ⟨bs₄, heq₄, h₄⟩ := h₃.readU32
  obtain ⟨bs₅, heq₅, h₅⟩ := h₄.readU32
  obtain ⟨bs₆, heq₆, h₆⟩ := h₅.readU32
  obtain ⟨bs₇, heq₇, h₇⟩ := h₆.readU32
  obtain ⟨bs₈, heq₈, h₈⟩ := h₇.readable.readString
  obtain ⟨bs₉, heq₉, -⟩ := h₈.readString
  rw [MasterProcess.handleQueryServers]
  change ∃ responses : List (List Entry), (bs.readInt 32).bind _ = _ ∧ _
  rw [heq₁]
  change ∃ responses : List (List Entry), (bs₁.readInt 32).bind _ = _ ∧ _
  rw [heq₂]
  change ∃ responses : List (List Entry), (bs₂.readInt 32).bind _ = _ ∧ _
  rw [heq₃]
  change ∃ responses : List (List Entry), (bs₃.readInt 32).bind _ = _ ∧ _
  rw [heq₄]
  change ∃ responses : List (List Entry), (bs₄.readInt 32).bind _ = _ ∧ _
  rw [heq₅]
  change ∃ responses : List (List Entry), (bs₅.readInt 32).bind _ = _ ∧ _
  rw [heq₆]
  change ∃ responses : List (List Entry), (bs₆.readInt 32).bind _ = _ ∧ _
  rw [heq₇]
  change ∃ responses : List (List Entry), bs₇.readString.bind _ = _ ∧ _
  rw [heq₈]
  change ∃ responses : List (List Entry), bs₈.readString.bind _ = _ ∧ _
  rw [heq₉, Option.bind_some]
  by_cases hnone : ms.listed (ms.info conn.pointer).gameString filter = []
  · refine ⟨[], h.rLocked_eq ?_, ?_, fun _ => rfl, fun hsome => absurd hnone hsome⟩
    · have hempty : sendServers queryID
          (ms.listed (ms.info conn.pointer).gameString filter).length.succ
          (ms.listed (ms.info conn.pointer).gameString filter) = some [] := by
        rw [hnone]
        rfl
      change (sendServers queryID (ms.listed (ms.info conn.pointer).gameString filter).length.succ
        (ms.listed (ms.info conn.pointer).gameString filter)).bind _ = _
      rw [hempty]
      change (if ms.listed (ms.info conn.pointer).gameString filter = [] then _ else _) = _
      rw [if_pos hnone]
      rfl
    · rw [hnone]
      rfl
  · refine ⟨responses ++ [[]], h.rLocked_eq ?_, ?_, fun hempty => absurd hempty hnone,
      fun _ => .of_front hall⟩
    · change (sendServers queryID (ms.listed (ms.info conn.pointer).gameString filter).length.succ
        (ms.listed (ms.info conn.pointer).gameString filter)).bind _ = _
      rw [hsend]
      change (if ms.listed (ms.info conn.pointer).gameString filter = [] then _ else _) = _
      rw [if_neg hnone, sendServersResponse_eq]
      simp [Query.packet]
    · rw [List.flatten_append, hflatten]
      simp

end MasterProcess

/-! What the client makes of the responses. -/

namespace QueryingClient

variable {mc : QueryingClient} {bs : BitStream} {rest : List UInt8} {queryID : U32} {random : ℕ}

theorem processPacket_reads (mc : QueryingClient) (random rpcID : ℕ) (rest : List UInt8)
    (hid : rpcID < 256 ^ 2) : ∃ bs, bs.Reads rest ∧
      mc.processPacket random (headBytes rpcID ++ rest) mc.masterAddress =
        match rpcID with
        | 1 => mc.handleGameTypesResponse bs
        | 2 => mc.handleServersResponse random bs
        | _ => some (mc, none) := by
  obtain ⟨bs₁, heq₁, h₁⟩ := (newBitStream_reads (headBytes rpcID ++ rest)).readInt (k := 1)
    (by decide)
  rw [headBytes, List.append_assoc, takeInt_append] at heq₁ h₁
  obtain ⟨bs₂, heq₂, h₂⟩ := h₁.readInt (k := 2) (by decide)
  rw [takeInt_append, Nat.mod_eq_of_lt hid] at heq₂
  rw [takeInt_append] at h₂
  refine ⟨bs₂, h₂, ?_⟩
  have hnat : (BitVec.ofNat 32 rpcID).toNat = rpcID :=
    Nat.mod_eq_of_lt (hid.trans (by decide))
  rw [processPacket, if_neg (not_not.mpr rfl), headBytes, List.append_assoc]
  change ((newBitStream (leBytes 1 2 ++ (leBytes 2 rpcID ++ rest))).readInt (8 * 1)).bind _ = _
  rw [heq₁, Option.bind_some]
  change mc.handleRPCResponse random bs₁ = _
  rw [handleRPCResponse]
  change (bs₁.readInt (8 * 2)).bind _ = _
  rw [heq₂, Option.bind_some]
  dsimp only
  rw [hnat]
  rfl

theorem readStrings_some (h : bs.Readable) :
    Succeeds (readStrings bs) fun result => result.2.Readable :=
  (h.readInt 16).bind fun _ hbs =>
    (Succeeds.foldlM hbs fun _ hbs _ _ => hbs.readString).bind fun _ hbs => .pure hbs

/-- As many strings as the packet says. -/
theorem readStrings_reads {n : ℕ} (hshort : n < 256 ^ 2) (h : bs.Reads (leBytes 2 n ++ rest)) :
    ∃ bs', readStrings bs = some (List.replicate n [], bs') ∧ bs'.Readable ∧
      (n = 0 → bs'.Reads rest) := by
  obtain ⟨bs₁, heq₁, h₁⟩ := h.readInt (k := 2) (by decide)
  rw [takeInt_append, Nat.mod_eq_of_lt hshort] at heq₁
  rw [takeInt_append] at h₁
  have hnat : (BitVec.ofNat 32 n).toNat = n := Nat.mod_eq_of_lt (hshort.trans (by decide))
  obtain ⟨bs₂, heq₂, h₂⟩ : Succeeds ((List.range n).foldlM (fun bs _ => bs.readString) bs₁)
      Readable := .foldlM h₁.readable fun _ hbs _ _ => hbs.readString
  refine ⟨bs₂, ?_, h₂, fun hzero => ?_⟩
  · rw [readStrings]
    change (bs.readInt (8 * 2)).bind _ = _
    rw [heq₁, Option.bind_some]
    dsimp only
    rw [hnat, heq₂]
    rfl
  · rw [hzero] at heq₂
    obtain rfl := Option.some.inj heq₂
    exact h₁

/-- The head of a response and what of the rest reaches the client. -/
theorem recvFrom_append {head : List UInt8} (hsize : head.length ≤ maxPacketDataSize)
    (rest : List UInt8) : MasterProcess.recvFrom (head ++ rest) =
      head ++ rest.take (maxPacketDataSize - head.length) := by
  rw [MasterProcess.recvFrom, List.take_append, List.take_of_length_le hsize]

/-- The client goes on at a response without types only. A response may be cut, but not where it
says how many types there are. -/
theorem receive_gameTypes (random : ℕ) {gameTypes missionTypes : List (List UInt8)}
    (hid : mc.currentQueryID = queryID) (hgame : gameTypes.length < 256 ^ 2)
    (hmission : missionTypes.length < 256 ^ 2) :
    ∃ mc' next, mc.processPacket random
        (MasterProcess.recvFrom (gameTypesBytes queryID gameTypes missionTypes))
        mc.masterAddress = some (mc', next) ∧
      (next = none ↔ ¬ (gameTypes = [] ∧ missionTypes = [])) ∧
      (next = none → mc'.toMasterClient = mc.toMasterClient) := by
  have hmax : maxPacketDataSize = 1500 := rfl
  obtain ⟨rest, hrest, hnil⟩ : ∃ rest, MasterProcess.recvFrom
      (gameTypesBytes queryID gameTypes missionTypes) =
        headBytes 1 ++ (leBytes 4 queryID.toNat ++ (leBytes 2 gameTypes.length ++ rest)) ∧
      (gameTypes = [] → ∃ rest', rest = leBytes 2 missionTypes.length ++ rest') := by
    have hbytes : gameTypesBytes queryID gameTypes missionTypes =
        (headBytes 1 ++ (leBytes 4 queryID.toNat ++ leBytes 2 gameTypes.length)) ++
          (gameTypes.flatMap stringBytes ++ stringsBytes missionTypes) := by
      simp only [gameTypesBytes, stringsBytes, List.append_assoc]
    have hsize : (headBytes 1 ++
        (leBytes 4 queryID.toNat ++ leBytes 2 gameTypes.length)).length = 9 := by
      simp only [headBytes, List.length_append, leBytes_length]
    rw [hbytes, recvFrom_append (by omega), hsize, hmax]
    refine ⟨(gameTypes.flatMap stringBytes ++ stringsBytes missionTypes).take 1491, ?_, ?_⟩
    · simp only [List.append_assoc]
    rintro rfl
    refine ⟨(missionTypes.flatMap stringBytes).take 1489, ?_⟩
    rw [List.flatMap_nil, List.nil_append, stringsBytes, List.take_append, leBytes_length,
      List.take_of_length_le (by rw [leBytes_length]; decide)]
  obtain ⟨bs, hbs, hprocess⟩ : ∃ bs : BitStream, bs.Reads _ ∧
      mc.processPacket random _ mc.masterAddress = mc.handleGameTypesResponse bs :=
    mc.processPacket_reads random 1
      (leBytes 4 queryID.toNat ++ (leBytes 2 gameTypes.length ++ rest)) (by decide)
  obtain ⟨bs₁, heq₁, h₁⟩ := hbs.readU32
  obtain ⟨bs₂, heq₂, h₂, hzero⟩ := readStrings_reads hgame h₁
  obtain ⟨names, bs₃, heq₃, hnames⟩ : ∃ names bs₃, readStrings bs₂ = some (names, bs₃) ∧
      (gameTypes = [] → names.length = missionTypes.length) := by
    by_cases hempty : gameTypes = []
    · obtain ⟨rest', rfl⟩ := hnil hempty
      obtain ⟨bs₃, heq₃, -⟩ := readStrings_reads hmission
        (hzero (List.length_eq_zero_iff.mpr hempty))
      exact ⟨_, bs₃, heq₃, fun _ => List.length_replicate⟩
    · obtain ⟨⟨names, bs₃⟩, heq₃, -⟩ := readStrings_some h₂
      exact ⟨names, bs₃, heq₃, fun h => absurd h hempty⟩
  have hdone : (List.replicate gameTypes.length ([] : List UInt8)).length = 0 ∧ names.length = 0 ↔
      gameTypes = [] ∧ missionTypes = [] := by
    rw [List.length_replicate, List.length_eq_zero_iff]
    refine and_congr_right fun hempty => ?_
    rw [hnames hempty, List.length_eq_zero_iff]
  rw [hrest, hprocess, handleGameTypesResponse, heq₁, Option.bind_eq_bind, Option.bind_some]
  dsimp only
  rw [if_neg (not_not.mpr hid.symm), heq₂, Option.bind_eq_bind, Option.bind_some]
  dsimp only
  rw [heq₃, Option.bind_some]
  dsimp only
  by_cases hlast : gameTypes = [] ∧ missionTypes = []
  · rw [if_pos (hdone.mpr hlast)]
    exact ⟨_, _, rfl, by simp [hlast], fun hnone => absurd hnone (Option.some_ne_none _)⟩
  · rw [if_neg (mt hdone.mp hlast)]
    exact ⟨_, _, rfl, by simp [hlast], fun _ => rfl⟩

/-- The client goes on at a response without servers only. -/
theorem receive_servers (random : ℕ) {servers : List Address}
    (hid : mc.currentQueryID = queryID) (hclient : mc.isServer = false)
    (hcount : servers.length ≤ MasterProcess.ipMessageAddressCount) :
    ∃ mc' next, mc.processPacket random (MasterProcess.recvFrom (serversBytes queryID servers))
        mc.masterAddress = some (mc', next) ∧
      (next = none ↔ servers ≠ []) ∧ (next = none → mc'.toMasterClient = mc.toMasterClient) := by
  have hlimit : MasterProcess.ipMessageAddressCount = 30 := rfl
  have hmax : maxPacketDataSize = 1500 := rfl
  have hsize := serversBytes_length queryID servers
  have hwhole : MasterProcess.recvFrom (serversBytes queryID servers) =
      headBytes 2 ++ (leBytes 4 queryID.toNat ++ (addressesBytes servers ++ [])) := by
    rw [MasterProcess.recvFrom, List.take_of_length_le (by omega), serversBytes, List.append_nil,
      List.append_assoc]
  obtain ⟨bs, hbs, hprocess⟩ : ∃ bs : BitStream, bs.Reads _ ∧
      mc.processPacket random _ mc.masterAddress = mc.handleServersResponse random bs :=
    mc.processPacket_reads random 2
      (leBytes 4 queryID.toNat ++ (addressesBytes servers ++ [])) (by decide)
  obtain ⟨bs₁, heq₁, h₁⟩ := hbs.readU32
  obtain ⟨bs₂, heq₂, -⟩ := readPossibleAddresses_reads
    (hcount.trans_lt (by rw [hlimit]; decide)) h₁
  rw [hwhole, hprocess, handleServersResponse, heq₁, Option.bind_eq_bind, Option.bind_some]
  dsimp only
  rw [if_neg (not_not.mpr hid.symm), heq₂, Option.bind_eq_bind, Option.bind_some]
  dsimp only
  rw [List.length_map, hclient]
  by_cases hlast : servers = []
  · rw [if_pos ⟨List.length_eq_zero_iff.mpr hlast, rfl⟩]
    exact ⟨_, _, rfl, by simp [hlast], fun hnone => absurd hnone (Option.some_ne_none _)⟩
  · rw [if_neg fun h => hlast (List.length_eq_zero_iff.mp h.1)]
    exact ⟨_, _, rfl, by simp [hlast], fun _ => rfl⟩

/-- Responses of which only the last is empty make the client go on at the last. -/
theorem goesOn_of_terminated {limit : ℕ} {responses : List (List Entry)}
    {packet : List Entry → List UInt8} (hterminated : Terminated limit responses)
    (hreceive : ∀ mc' : QueryingClient, mc'.toMasterClient = mc.toMasterClient →
      ∀ response ∈ responses, ∃ mc'' next,
        mc'.processPacket random (MasterProcess.recvFrom (packet response)) mc'.masterAddress =
          some (mc'', next) ∧
        (next = none ↔ response ≠ []) ∧
        (next = none → mc''.toMasterClient = mc'.toMasterClient)) :
    mc.GoesOn random (responses.map packet) := by
  obtain ⟨front, rfl, hfront⟩ := hterminated.last
  have hloop : ∀ mc' : QueryingClient, mc'.toMasterClient = mc.toMasterClient →
      ∃ mc'' waiting next, mc'.receiveAll random ((front ++ [[]]).map packet) =
        some (mc'', waiting ++ [some next]) ∧ ∀ step ∈ waiting, step = none := by
    clear hterminated
    induction front with
    | nil =>
      intro mc' hmc'
      obtain ⟨mc'', next, hprocess, hnext, -⟩ := hreceive mc' hmc' [] (by simp)
      cases next with
      | none => exact absurd rfl (hnext.mp rfl)
      | some next =>
        refine ⟨mc'', [], next, ?_, fun _ hmem => absurd hmem List.not_mem_nil⟩
        change ((mc'.processPacket random _ mc'.masterAddress).bind _) = _
        rw [hprocess]
        rfl
    | cons response front ih =>
      intro mc' hmc'
      obtain ⟨mc'', next, hprocess, hnext, hkept⟩ := hreceive mc' hmc' response (by simp)
      have hne : response ≠ [] := fun heq => hfront (heq ▸ List.mem_cons_self)
      obtain rfl := hnext.mpr hne
      obtain ⟨mc₃, waiting, last, hrest, hwaiting⟩ := ih (fun hmem => hfront (.tail _ hmem))
        (fun mc hmc response hmem => hreceive mc hmc response (.tail _ hmem)) mc''
        ((hkept rfl).trans hmc')
      refine ⟨mc₃, none :: waiting, last, ?_, List.forall_mem_cons.mpr ⟨rfl, hwaiting⟩⟩
      change ((mc'.processPacket random _ mc'.masterAddress).bind _) = _
      rw [hprocess, Option.bind_some]
      change ((mc''.receiveAll random ((front ++ [[]]).map packet)).bind _) = _
      rw [hrest]
      rfl
  exact hloop mc rfl

end QueryingClient

section answered

variable {net : Net} {ms : MasterProcess} {conn : MasterServerConnection} {addr : Address}
  {query : Query} {queryID currentTime : U32} {gameString : List UInt8} {random : ℕ}

theorem matching_servers (ms : MasterProcess) (gameString : List UInt8) (filter : ServersFilter) :
    (Query.servers filter).matching ms gameString =
      (((ms.servers.filter fun server => filter.anyTypes.accepts gameString server.2).filter
        fun server => filter.accepts gameString server.2).map Prod.fst).map .server := by
  rw [Query.matching, List.filter_filter]
  congr 3
  funext server
  by_cases haccepted : filter.accepts gameString server.2 = true
  · rw [haccepted, ServersFilter.accepts_anyTypes haccepted, Bool.true_and]
  · rw [Bool.not_eq_true] at haccepted
    rw [haccepted, Bool.false_and]

/-- All that is listed matches, as there is no less of it. -/
theorem all_accepted_of_length {filter : ServersFilter}
    (hlength : ((Query.servers filter).matching ms gameString).length =
      (ms.listed gameString filter).length) :
    ∀ server ∈ ms.servers, filter.anyTypes.accepts gameString server.2 = true →
      filter.accepts gameString server.2 = true := by
  intro server hserver haccepted
  rw [matching_servers, List.length_map, List.length_map, MasterProcess.listed, List.length_map,
    List.length_filter_eq_length_iff] at hlength
  exact hlength server (List.mem_filter.mpr ⟨hserver, haccepted⟩)

theorem matching_of_all_accepted {filter : ServersFilter}
    (hall : ∀ server ∈ ms.servers, filter.anyTypes.accepts gameString server.2 = true →
      filter.accepts gameString server.2 = true) :
    (Query.servers filter).matching ms gameString =
      (ms.listed gameString filter).map Entry.server := by
  rw [matching_servers, MasterProcess.listed, List.filter_eq_self.mpr]
  intro server hserver
  obtain ⟨hmem, haccepted⟩ := List.mem_filter.mp hserver
  exact hall server hmem haccepted

theorem mem_listed {filter : ServersFilter} : ms.listed gameString filter ≠ [] ↔
    ∃ server ∈ ms.servers, filter.anyTypes.accepts gameString server.2 = true := by
  rw [MasterProcess.listed, ne_eq, List.map_eq_nil_iff, List.filter_eq_nil_iff]
  push Not
  rfl

/-- Packets with the same bytes list equally many servers. -/
theorem flatten_length_eq {filter : ServersFilter} {responses responses' : List (List Entry)}
    (hpackets : (responses.map fun response => (Query.servers filter).packet queryID response) =
      responses'.map fun response => (Query.servers filter).packet queryID response) :
    (responses.flatten.filterMap Entry.server?).length =
      (responses'.flatten.filterMap Entry.server?).length := by
  have hlengths := congrArg (List.map List.length) hpackets
  simp only [List.map_map] at hlengths
  have hcounts : ∀ responses : List (List Entry),
      (responses.flatten.filterMap Entry.server?).length =
        ((responses.map (List.length ∘ fun response =>
          (Query.servers filter).packet queryID response)).map fun n => (n - 9) / 6).sum := by
    intro responses
    induction responses with
    | nil => rfl
    | cons response responses ih =>
      rw [List.flatten_cons, List.filterMap_append, List.length_append, ih, List.map_cons,
        List.map_cons, List.sum_cons]
      congr 1
      change _ = ((serversBytes queryID (response.filterMap Entry.server?)).length - 9) / 6
      rw [serversBytes_length]
      omega
  rw [hcounts, hcounts, hlengths]

theorem goesOn_gameTypes {limit : ℕ} {responses : List (List Entry)} {mc : QueryingClient}
    (hlimit : limit < 256 ^ 2) (hterminated : Terminated limit responses)
    (hentries : ∀ entry ∈ responses.flatten, ∃ name,
      entry = .gameType name ∨ entry = .missionType name) (hid : mc.currentQueryID = queryID) :
    mc.GoesOn random (responses.map fun response => Query.gameTypes.packet queryID response) := by
  apply QueryingClient.goesOn_of_terminated hterminated
  intro mc' hmc' response hresponse
  have hlength := hterminated.length_le response hresponse
  have hgame := List.length_filterMap_le Entry.gameType? response
  have hmission := List.length_filterMap_le Entry.missionType? response
  have hid' : mc'.currentQueryID = queryID := (congrArg MasterClient.currentQueryID hmc').trans hid
  obtain ⟨mc'', next, hprocess, hnext, hkept⟩ := QueryingClient.receive_gameTypes
    random hid' (hgame.trans_lt (hlength.trans_lt hlimit))
    (hmission.trans_lt (hlength.trans_lt hlimit))
  refine ⟨mc'', next, hprocess, hnext.trans (not_congr ?_), hkept⟩
  constructor
  · rintro ⟨hnogame, hnomission⟩
    apply List.eq_nil_iff_forall_not_mem.mpr
    intro entry hentry
    obtain ⟨name, rfl | rfl⟩ := hentries entry (List.mem_flatten_of_mem hresponse hentry)
    · cases List.filterMap_eq_nil_iff.mp hnogame _ hentry
    · cases List.filterMap_eq_nil_iff.mp hnomission _ hentry
  · rintro rfl
    exact ⟨rfl, rfl⟩

theorem goesOn_servers {responses : List (List Entry)} {filter : ServersFilter}
    {mc : QueryingClient} {addresses : List Address}
    (hterminated : Terminated MasterProcess.ipMessageAddressCount responses)
    (hentries : responses.flatten = addresses.map Entry.server) (hid : mc.currentQueryID = queryID)
    (hclient : mc.isServer = false) :
    mc.GoesOn random (responses.map fun response =>
      (Query.servers filter).packet queryID response) := by
  apply QueryingClient.goesOn_of_terminated hterminated
  intro mc' hmc' response hresponse
  have hlength := (List.length_filterMap_le Entry.server? response).trans
    (hterminated.length_le response hresponse)
  have hid' : mc'.currentQueryID = queryID := (congrArg MasterClient.currentQueryID hmc').trans hid
  have hclient' : mc'.isServer = false := (congrArg MasterClient.isServer hmc').trans hclient
  obtain ⟨mc'', next, hprocess, hnext, hkept⟩ := QueryingClient.receive_servers
    random hid' hclient' hlength
  refine ⟨mc'', next, hprocess, hnext.trans (not_congr ?_), hkept⟩
  constructor
  · intro hnone
    apply List.eq_nil_iff_forall_not_mem.mpr
    intro entry hentry
    obtain ⟨addr, -, rfl⟩ := List.mem_map.mp
      (hentries ▸ List.mem_flatten_of_mem hresponse hentry)
    cases List.filterMap_eq_nil_iff.mp hnone _ hentry
  · rintro rfl
    rfl

theorem map_snd_pair (addr : Address) (packets : List (List UInt8)) :
    (packets.map (addr, ·)).map Prod.snd = packets := by
  rw [List.map_map]
  exact List.map_id packets

/-- There is an empty response at the end. -/
theorem Query.not_answeredBy_nil (query : Query) :
    ¬ query.AnsweredBy ms gameString queryID [] := by
  rintro ⟨responses, hterminated, -, hpackets⟩
  obtain ⟨front, hfront, -⟩ := hterminated.last
  rw [hfront, List.map_append] at hpackets
  cases (List.append_eq_nil_iff.mp hpackets.symm).2

/-- A query for types is always served, and a query for servers exactly if some server matches and
no server is refused for its types only. -/
theorem query_served_iff (net : Net) (query : Query) (queryID currentTime : U32) (random : ℕ)
    (hidle : ms.Idle) (hconn : ms.server.connections addr = some conn) :
    query.Served net ms addr (ms.info conn.pointer).gameString queryID currentTime random ↔
      query.Answerable ms (ms.info conn.pointer).gameString := by
  have haddr : conn.address = addr := hidle.keyed addr conn hconn
  have hsentTo : ∀ packets : List (List UInt8),
      ∀ p ∈ packets.map (conn.address, ·), p.1 = addr := by
    intro packets p hp
    obtain ⟨packet, -, rfl⟩ := List.mem_map.mp hp
    exact haddr
  have hlength := query.bytes_length_le queryID
  cases query with
  | gameTypes =>
    obtain ⟨bs, hbs, hact⟩ : ∃ bs : BitStream, bs.Reads _ ∧
        ms.act net (.receive (Query.gameTypes.bytes queryID) addr currentTime) =
          ms.handleQueryGameTypes conn bs :=
      hidle.handleRPCCall_bytes net 1 (leBytes 4 queryID.toNat) hconn hlength (by decide)
    obtain ⟨responses, hhandle, hterminated, hperm⟩ := hidle.handleQueryGameTypes_responses
      conn hbs
    have hsend := Query.gameTypes.send_eq queryID
    refine iff_of_true ⟨_, _, hsend, hact.trans hhandle, hsentTo _, ?_, ?_⟩ trivial
    · rw [map_snd_pair]
      exact ⟨responses, hterminated, hperm, rfl⟩
    · intro mc hid _
      rw [map_snd_pair]
      refine goesOn_gameTypes (by decide) hterminated (fun entry hentry => ?_) hid
      rcases List.mem_append.mp (hperm.mem_iff.mp hentry) with hgame | hmission
      · obtain ⟨name, -, rfl⟩ := List.mem_map.mp hgame
        exact ⟨name, .inl rfl⟩
      · obtain ⟨name, -, rfl⟩ := List.mem_map.mp hmission
        exact ⟨name, .inr rfl⟩
  | servers filter =>
    obtain ⟨bs, hbs, hact⟩ : ∃ bs : BitStream, bs.Reads _ ∧
        ms.act net (.receive ((Query.servers filter).bytes queryID) addr currentTime) =
          ms.handleQueryServers conn bs :=
      hidle.handleRPCCall_bytes net 2 (leBytes 4 queryID.toNat ++ filter.bytes) hconn hlength
        (by decide)
    obtain ⟨responses, hhandle, hflatten, hnone, hsome⟩ :=
      hidle.handleQueryServers_responses conn filter hbs
    constructor
    · rintro ⟨packet, sent, hsend, hreceive, -, hanswered, -⟩
      obtain rfl := Option.some.inj (((Query.servers filter).send_eq queryID).symm.trans hsend)
      obtain ⟨-, rfl⟩ := Prod.mk.inj (Option.some.inj (hreceive.symm.trans (hact.trans hhandle)))
      rw [map_snd_pair] at hanswered
      have hlisted : ms.listed (ms.info conn.pointer).gameString filter ≠ [] := by
        intro hempty
        rw [hnone hempty] at hanswered
        exact Query.not_answeredBy_nil _ hanswered
      obtain ⟨responses', hterminated', hperm', hpackets⟩ := hanswered
      have hcount := flatten_length_eq hpackets
      rw [hflatten, Entry.filterMap_server?, (hperm'.filterMap Entry.server?).length_eq,
        Query.matching, Entry.filterMap_server?] at hcount
      have hall : ∀ server ∈ ms.servers,
          filter.anyTypes.accepts (ms.info conn.pointer).gameString server.2 = true →
            filter.accepts (ms.info conn.pointer).gameString server.2 = true :=
        all_accepted_of_length ((List.length_map ..).trans hcount.symm)
      obtain ⟨server, hserver, haccepted⟩ := mem_listed.mp hlisted
      exact ⟨⟨server, hserver, hall server hserver haccepted⟩, hall⟩
    · rintro ⟨⟨server, hserver, haccepted⟩, hall⟩
      have hterminated := hsome
        (mem_listed.mpr ⟨server, hserver, ServersFilter.accepts_anyTypes haccepted⟩)
      refine ⟨_, _, (Query.servers filter).send_eq queryID, hact.trans hhandle, hsentTo _, ?_, ?_⟩
      · rw [map_snd_pair]
        refine ⟨responses, hterminated, ?_, rfl⟩
        rw [matching_of_all_accepted hall, hflatten]
      · intro mc hid hclient
        rw [map_snd_pair]
        exact goesOn_servers hterminated hflatten hid hclient

/-- One server, and a client that asks for all of them. -/
theorem query_served_iff_one :
    let client : Address := ⟨[10, 0, 0, 1], 28001⟩
    let ms : MasterProcess := { MasterProcess.start [] with
      server := { MasterServer.start with
        connections := Function.update (fun _ => none) client (some ⟨0, client⟩) }
      servers := [(⟨[10, 0, 0, 2], 28000⟩, ⟨[], 1, 0, 0, 3, 8, 0, none, none, 0⟩)] }
    (Query.servers QueryingClient.allServers).Served ⟨fun _ => none, fun _ => []⟩ ms client [] 5 0
      0 := by
  intro client ms
  have hkeyed : ms.server.Keyed := by
    intro addr conn hconn
    change Function.update (fun _ => none) client (some ⟨0, client⟩) addr = some conn at hconn
    by_cases haddr : addr = client
    · rw [haddr, Function.update_self] at hconn
      rw [haddr, ← Option.some.inj hconn]
    · rw [Function.update_of_ne haddr] at hconn
      cases hconn
  have hidle : ms.Idle := ⟨rfl, fun _ => rfl, hkeyed⟩
  have hconn : ms.server.connections client = some ⟨0, client⟩ := rfl
  exact (query_served_iff _ _ 5 0 0 hidle hconn).mpr (by decide)

/-- There are no servers, and the client that has asked for them is sent nothing. -/
theorem query_unanswered : ¬ ∀ (net : Net) (ms : MasterProcess) (addr : Address)
    (conn : MasterServerConnection) (query : Query) (queryID currentTime : U32) (random : ℕ),
    ms.Idle → ms.server.connections addr = some conn →
    query.Served net ms addr (ms.info conn.pointer).gameString queryID currentTime random := by
  intro hclaim
  let net : Net := ⟨fun _ => none, fun _ => []⟩
  let client : Address := ⟨[10, 0, 0, 1], 28001⟩
  let query : Query := .servers QueryingClient.allServers
  have hstates : ((MasterProcess.start []).step net (.receive [1, 0, 0] client 0)).map
      (fun ms => (ms.server.connections client,
        (ms.act net (.receive (query.bytes 1) client 5)).map Prod.snd)) =
      some (some ⟨0, client⟩, some []) := by decide +kernel
  obtain ⟨ms, hstep, heq⟩ := Option.map_eq_some_iff.mp hstates
  obtain ⟨hconn, hsent⟩ := Prod.mk.inj heq
  have hidle := MasterProcess.step_idle (MasterProcess.start_idle []) hstep
  obtain ⟨packet, sent, hsend, hact, -, hanswered, -⟩ :=
    hclaim net ms client _ query 1 5 0 hidle hconn
  obtain rfl := Option.some.inj ((query.send_eq 1).symm.trans hsend)
  rw [hact] at hsent
  obtain rfl : sent = [] := Option.some.inj hsent
  exact query.not_answeredBy_nil hanswered

end answered

end TNL.GoRoot
