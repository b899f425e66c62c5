import TNL.GoRoot.QueryPackets

/-!
# The list of game servers

Connections and entries of the list are kept in two maps with the addresses as keys. A
history consists of connection requests, status updates, disconnections and clean-ups in any
order. A connection may be disconnected again, or an update of it be handled, when it has
already been replaced by another one with the same address.
-/
namespace TNL.GoRoot
open Library TNL.GoRoot.BitStream

/-- What a game server tells about itself. -/
structure ServerStatus where
  gameType : List UInt8
  missionType : List UInt8
  botCount : U32
  playerCount : U32
  maxPlayers : U32
  infoFlags : U32

def sendUpdateServerStatus (status : ServerStatus) : Option (List UInt8) := do
  let bs ← rpcPacket 6
  let bs ← bs.writeString status.gameType 255
  let bs ← bs.writeString status.missionType 255
  let bs ← bs.writeInt status.botCount 32
  let bs ← bs.writeInt status.playerCount 32
  let bs ← bs.writeInt status.maxPlayers 32
  let bs ← bs.writeInt status.infoFlags 32
  bs.packet

def ServerStatus.bytes (status : ServerStatus) : List UInt8 :=
  stringBytes status.gameType ++ (stringBytes status.missionType ++
    (leBytes 4 status.botCount.toNat ++ (leBytes 4 status.playerCount.toNat ++
      (leBytes 4 status.maxPlayers.toNat ++ leBytes 4 status.infoFlags.toNat))))

theorem sendUpdateServerStatus_eq (status : ServerStatus) :
    sendUpdateServerStatus status = some (headBytes 6 ++ status.bytes) := by
  obtain ⟨bs₁, heq₁, h₁⟩ := rpcPacket_writes 6
  obtain ⟨bs₂, heq₂, h₂⟩ := writeString_writes h₁ status.gameType
  obtain ⟨bs₃, heq₃, h₃⟩ := writeString_writes h₂ status.missionType
  obtain ⟨bs₄, heq₄, h₄⟩ := h₃.writeInt status.botCount 4
  obtain ⟨bs₅, heq₅, h₅⟩ := h₄.writeInt status.playerCount 4
  obtain ⟨bs₆, heq₆, h₆⟩ := h₅.writeInt status.maxPlayers 4
  obtain ⟨bs₇, heq₇, h₇⟩ := h₆.writeInt status.infoFlags 4
  rw [sendUpdateServerStatus, heq₁]
  change (bs₁.writeString status.gameType 255).bind _ = _
  rw [heq₂]
  change (bs₂.writeString status.missionType 255).bind _ = _
  rw [heq₃]
  change (bs₃.writeInt status.botCount (8 * 4)).bind _ = _
  rw [heq₄]
  change (bs₄.writeInt status.playerCount (8 * 4)).bind _ = _
  rw [heq₅]
  change (bs₅.writeInt status.maxPlayers (8 * 4)).bind _ = _
  rw [heq₆]
  change (bs₆.writeInt status.infoFlags (8 * 4)).bind _ = _
  rw [heq₇]
  have hpacket := h₇.packet
  simp only [List.append_assoc] at hpacket
  exact hpacket

/-- A string is skipped when it is read. -/
theorem BitStream.Reads.readString_bytes {bs : BitStream} {str rest : List UInt8}
    (h : bs.Reads (stringBytes str ++ rest)) :
    ∃ bs', bs.readString = some bs' ∧ bs'.Reads rest := by
  have hloop : ∀ (str : List UInt8) (bs : BitStream), bs.Reads (str ++ rest) →
      ∀ indices : List ℕ, indices.length = str.length → ∃ bs',
        indices.foldlM (fun bs _ => (bs.readInt 8).map Prod.snd) bs = some bs' ∧
          bs'.Reads rest := by
    intro str
    induction str with
    | nil =>
      intro bs h indices hlength
      rw [List.length_eq_zero_iff.mp hlength]
      exact ⟨bs, rfl, h⟩
    | cons b str ih =>
      intro bs h indices hlength
      obtain ⟨i, indices, rfl⟩ := List.exists_cons_of_length_eq_add_one hlength
      obtain ⟨bs₁, heq₁, h₁⟩ := h.readInt (k := 1) (by decide)
      obtain ⟨bs', heq', h'⟩ := ih bs₁ h₁ indices (Nat.succ.inj hlength)
      refine ⟨bs', ?_, h'⟩
      rw [List.foldlM_cons]
      change ((bs.readInt (8 * 1)).map Prod.snd).bind _ = _
      rw [heq₁]
      exact heq'
  have hshort : (str.take 255).length < 256 ^ 1 :=
    (List.length_take_le 255 str).trans_lt (by decide)
  rw [stringBytes, List.append_assoc] at h
  obtain ⟨bs₁, heq₁, h₁⟩ := h.readInt (k := 1) (by decide)
  rw [takeInt_append, Nat.mod_eq_of_lt hshort] at heq₁
  rw [takeInt_append] at h₁
  have hnat : (BitVec.ofNat 32 (str.take 255).length).toNat = (str.take 255).length :=
    Nat.mod_eq_of_lt (hshort.trans (by decide))
  obtain ⟨bs', heq', h'⟩ := hloop (str.take 255) bs₁ h₁ (List.range (str.take 255).length)
    List.length_range
  refine ⟨bs', ?_, h'⟩
  rw [BitStream.readString]
  change (bs.readInt (8 * 1)).bind _ = _
  rw [heq₁, Option.bind_some]
  dsimp only
  rw [hnat]
  exact heq'

/-- The entry has the values of a status. -/
structure ServerInfo.Has (si : ServerInfo) (status : ServerStatus) : Prop where
  gameType : si.currentGameType = some status.gameType
  missionType : si.currentMissionType = some status.missionType
  numBots : si.numBots = status.botCount
  playerCount : si.playerCount = status.playerCount
  maxPlayers : si.maxPlayers = status.maxPlayers
  infoFlags : si.infoFlags = status.infoFlags

namespace MasterProcess

inductive ListAction where
  | connect (packet : List UInt8) (addr : Address) (currentTime : U32)
  | update (conn : MasterServerConnection) (status : ServerStatus) (currentTime : U32)
  | disconnect (conn : MasterServerConnection)
  | cleanup (currentTime : U32)

/-- A connection request is taken as such behind its type, and a status update behind its type and
number, when its connection has been looked up. -/
def listAct (ms : MasterProcess) : ListAction → Option (MasterProcess × Sent)
  | .connect packet addr currentTime => do
    let (_, bs) ← (newBitStream packet).readInt 8
    ms.handleConnectionRequest bs addr currentTime
  | .update conn status currentTime => do
    let packet ← sendUpdateServerStatus status
    let (_, bs) ← (newBitStream packet).readInt 8
    let (_, bs) ← bs.readInt 16
    ms.handleUpdateServerStatus conn bs currentTime
  | .disconnect conn => ms.disconnect conn
  | .cleanup currentTime => ms.cleanup currentTime

def listStep (ms : MasterProcess) (a : ListAction) : Option MasterProcess :=
  (ms.listAct a).map Prod.fst

variable {ms ms' : MasterProcess} {conn : MasterServerConnection} {addr : Address}
  {status : ServerStatus} {currentTime : U32} {packet : List UInt8} {bs : BitStream}
  {sent : Sent}

/-- The connection is in the map, as that of a game server. -/
def GameServer (ms : MasterProcess) (conn : MasterServerConnection) : Prop :=
  ms.server.connections conn.address = some conn ∧ (ms.info conn.pointer).isGameServer = true

/-- There is an entry for the address. -/
def HasEntry (ms : MasterProcess) (addr : Address) : Prop :=
  ∃ si, (addr, si) ∈ ms.servers

/-- Every entry is that of a game server that is connected. -/
def EntriesConnected (ms : MasterProcess) : Prop :=
  ∀ addr, ms.HasEntry addr → ∃ conn, conn.address = addr ∧ ms.GameServer conn

/-- After a step all entries are those of connected game servers, and after an update from one of
them there is an entry with the values of the update. -/
def Follows (ms : MasterProcess) (a : ListAction) : Prop :=
  ∀ ms', ms.listStep a = some ms' → ms'.EntriesConnected ∧ ∀ conn status currentTime,
    a = .update conn status currentTime → ms.GameServer conn →
      ∃ si, (conn.address, si) ∈ ms'.servers ∧ si.Has status

/-- An update from a connected game server finds its entry and names no types, and who is
disconnected is a game server or has no entry at its address. -/
def InOrder (ms : MasterProcess) : ListAction → Prop
  | .update conn status _ => ms.GameServer conn →
      ms.HasEntry conn.address ∧ status.gameType = [] ∧ status.missionType = []
  | .disconnect conn => ms.HasEntry conn.address → (ms.info conn.pointer).isGameServer = true
  | _ => True

/-- What holds in every state. New connections get new pointers. -/
structure Sound (ms : MasterProcess) : Prop where
  idle : ms.Idle
  fresh : ∀ addr conn, ms.server.connections addr = some conn → conn.pointer < ms.nextPointer

theorem idle_of_returns {result : Option (MasterProcess × Sent)} (h : Returns result)
    (heq : result.map Prod.fst = some ms') : ms'.Idle := by
  obtain ⟨⟨ms₁, sent⟩, hresult, hidle⟩ := h
  rw [hresult] at heq
  obtain rfl := Option.some.inj heq
  exact hidle

/-! What the steps do to the two maps. -/

/-- A new connection, with an entry if it is that of a game server. -/
structure Connected (ms : MasterProcess) (addr : Address) (ms' : MasterProcess) : Prop where
  connections : ms'.server.connections =
    Function.update ms.server.connections addr (some ⟨ms.nextPointer, addr⟩)
  nextPointer : ms'.nextPointer = ms.nextPointer + 1
  info : ∀ pointer, pointer ≠ ms.nextPointer → ms'.info pointer = ms.info pointer
  entries : ∀ addr', ms'.HasEntry addr' → ms.HasEntry addr' ∨
    addr' = addr ∧ (ms'.info ms.nextPointer).isGameServer = true

theorem Idle.connect_cases (h : ms.Idle)
    (hstep : ms.handleConnectionRequest bs addr currentTime = some (ms', sent)) :
    ms' = ms ∨ ms.server.connections addr = none ∧ ms.Connected addr ms' := by
  rw [MasterProcess.handleConnectionRequest, h.locked_eq] at hstep
  obtain ⟨⟨ms₁, sent₁⟩, hbody, heq⟩ := Option.bind_eq_some_iff.mp hstep
  obtain ⟨rfl, -⟩ := Prod.mk.inj (Option.some.inj heq)
  dsimp only at hbody
  by_cases hknown : (ms.server.connections addr).isSome
  · rw [if_pos hknown] at hbody
    obtain ⟨rfl, -⟩ := Prod.mk.inj (Option.some.inj hbody)
    have hmutex := h.mutex
    cases ms
    cases hmutex
    exact .inl rfl
  · rw [if_neg hknown] at hbody
    have hnone : ms.server.connections addr = none := Option.not_isSome_iff_eq_none.mp hknown
    have hserver : (ms.server.handleConnectionRequest ⟨ms.nextPointer, addr⟩).connections =
        Function.update ms.server.connections addr (some ⟨ms.nextPointer, addr⟩) := by
      rw [MasterServer.handleConnectionRequest, if_neg hknown]
    refine .inr ⟨hnone, ?_⟩
    obtain ⟨bs₁, -, hbody⟩ := Option.bind_eq_some_iff.mp hbody
    obtain ⟨⟨isGameServer, bs₂⟩, -, hbody⟩ := Option.bind_eq_some_iff.mp hbody
    cases isGameServer with
    | false =>
      obtain ⟨motd, -, hbody⟩ := Option.bind_eq_some_iff.mp hbody
      obtain ⟨rfl, -⟩ := Prod.mk.inj (Option.some.inj hbody)
      exact ⟨hserver, rfl, fun _ hne => Function.update_of_ne hne .., fun _ hentry => .inl hentry⟩
    | true =>
      obtain ⟨⟨cpuSpeed, bs₃⟩, -, hbody⟩ := Option.bind_eq_some_iff.mp hbody
      obtain ⟨⟨regionCode, bs₄⟩, -, hbody⟩ := Option.bind_eq_some_iff.mp hbody
      obtain ⟨⟨numBots, bs₅⟩, -, hbody⟩ := Option.bind_eq_some_iff.mp hbody
      obtain ⟨⟨playerCount, bs₆⟩, -, hbody⟩ := Option.bind_eq_some_iff.mp hbody
      obtain ⟨⟨maxPlayers, bs₇⟩, -, hbody⟩ := Option.bind_eq_some_iff.mp hbody
      obtain ⟨⟨infoFlags, bs₈⟩, -, hbody⟩ := Option.bind_eq_some_iff.mp hbody
      obtain ⟨bs₉, -, hbody⟩ := Option.bind_eq_some_iff.mp hbody
      obtain ⟨bs₁₀, -, hbody⟩ := Option.bind_eq_some_iff.mp hbody
      obtain ⟨rfl, -⟩ := Prod.mk.inj (Option.some.inj hbody)
      refine ⟨hserver, rfl, fun _ hne => Function.update_of_ne hne .., ?_⟩
      rintro addr' ⟨si, hsi⟩
      rcases List.mem_append.mp hsi with hold | hnew
      · exact .inl ⟨si, (List.mem_filter.mp hold).1⟩
      · obtain ⟨rfl, -⟩ := Prod.mk.inj (List.mem_singleton.mp hnew)
        refine .inr ⟨rfl, ?_⟩
        change (Function.update ms.info ms.nextPointer _ ms.nextPointer).isGameServer = true
        rw [Function.update_self]

/-- What an update leaves alone, and the values that it writes: the names are lost. -/
structure Updated (ms : MasterProcess) (conn : MasterServerConnection) (status : ServerStatus)
    (currentTime : U32) (ms' : MasterProcess) : Prop where
  server : ms'.server = ms.server
  nextPointer : ms'.nextPointer = ms.nextPointer
  kinds : ∀ pointer, (ms'.info pointer).isGameServer = (ms.info pointer).isGameServer
  entries : ∀ addr, ms'.HasEntry addr ↔ ms.HasEntry addr
  values : (ms.info conn.pointer).isGameServer = true → ∀ si, (conn.address, si) ∈ ms'.servers →
    ∃ old : ServerInfo, si = old.updateStatus [] [] status.botCount status.playerCount
      status.maxPlayers status.infoFlags currentTime

theorem Held.checkActivityTime_eq (h : ms.Held) (conn : MasterServerConnection)
    (timeDeltaMinimum currentTime : U32) : ∃ connMutex info,
      ms.checkActivityTime conn timeDeltaMinimum currentTime =
        some { ms with connMutex := connMutex, info := info } ∧
      ∀ pointer, (info pointer).isGameServer = (ms.info pointer).isGameServer := by
  rw [MasterProcess.checkActivityTime, h.connMutex]
  refine ⟨_, _, rfl, fun pointer => ?_⟩
  by_cases hpointer : pointer = conn.pointer
  · rw [hpointer, Function.update_self]
  · rw [Function.update_of_ne hpointer]

theorem hasEntry_map (f : Address × ServerInfo → Address × ServerInfo)
    (hkey : ∀ entry, (f entry).1 = entry.1) (addr : Address) :
    (∃ si, (addr, si) ∈ ms.servers.map f) ↔ ms.HasEntry addr := by
  constructor
  · rintro ⟨si, hsi⟩
    obtain ⟨entry, hentry, heq⟩ := List.mem_map.mp hsi
    have haddr : entry.1 = addr := (hkey entry).symm.trans (congrArg Prod.fst heq)
    exact ⟨entry.2, haddr ▸ hentry⟩
  · rintro ⟨si, hsi⟩
    refine ⟨(f (addr, si)).2, ?_⟩
    have hmem := List.mem_map_of_mem hsi (f := f)
    rwa [← Prod.mk.eta (p := f (addr, si)), hkey] at hmem

theorem Idle.updated (h : ms.Idle)
    (hstep : ms.listStep (.update conn status currentTime) = some ms') :
    ms.Updated conn status currentTime ms' := by
  have hheld : Held { ms with mutex := ⟨0, true⟩ } := ⟨rfl, h.connMutex, h.keyed⟩
  obtain ⟨⟨ms'', sent⟩, hact, rfl⟩ := Option.map_eq_some_iff.mp hstep
  rw [listAct, sendUpdateServerStatus_eq] at hact
  obtain ⟨bs₁, heq₁, h₁⟩ := (newBitStream_reads (headBytes 6 ++ status.bytes)).readInt (k := 1)
    (by decide)
  rw [headBytes, List.append_assoc, takeInt_append] at h₁
  obtain ⟨bs₂, heq₂, h₂⟩ := h₁.readInt (k := 2) (by decide)
  rw [takeInt_append, ServerStatus.bytes] at h₂
  change ((newBitStream (headBytes 6 ++ status.bytes)).readInt (8 * 1)).bind _ = _ at hact
  rw [heq₁] at hact
  change (bs₁.readInt (8 * 2)).bind _ = _ at hact
  rw [heq₂] at hact
  change ms.handleUpdateServerStatus conn bs₂ currentTime = _ at hact
  rw [MasterProcess.handleUpdateServerStatus] at hact
  by_cases hserver : (ms.info conn.pointer).isGameServer = false
  · rw [if_pos hserver] at hact
    obtain ⟨rfl, -⟩ := Prod.mk.inj (Option.some.inj hact)
    refine ⟨rfl, rfl, fun _ => rfl, fun _ => Iff.rfl, fun htrue => ?_⟩
    rw [hserver] at htrue
    cases htrue
  · obtain ⟨bs₃, heq₃, h₃⟩ := h₂.readString_bytes
    obtain ⟨bs₄, heq₄, h₄⟩ := h₃.readString_bytes
    obtain ⟨bs₅, heq₅, h₅⟩ := h₄.readU32
    obtain ⟨bs₆, heq₆, h₆⟩ := h₅.readU32
    obtain ⟨bs₇, heq₇, h₇⟩ := h₆.readU32
    rw [← List.append_nil (leBytes 4 status.infoFlags.toNat)] at h₇
    obtain ⟨bs₈, heq₈, -⟩ := h₇.readU32
    rw [if_neg hserver] at hact
    change bs₂.readString.bind _ = _ at hact
    rw [heq₃] at hact
    change bs₃.readString.bind _ = _ at hact
    rw [heq₄] at hact
    change (bs₄.readInt 32).bind _ = _ at hact
    rw [heq₅] at hact
    change (bs₅.readInt 32).bind _ = _ at hact
    rw [heq₆] at hact
    change (bs₆.readInt 32).bind _ = _ at hact
    rw [heq₇] at hact
    change (bs₇.readInt 32).bind _ = _ at hact
    rw [heq₈, Option.bind_some] at hact
    dsimp only at hact
    rw [h.locked_eq] at hact
    obtain ⟨⟨ms₁, sent₁⟩, hbody, heq⟩ := Option.bind_eq_some_iff.mp hact
    obtain ⟨rfl, -⟩ := Prod.mk.inj (Option.some.inj heq)
    dsimp only at hbody
    obtain ⟨ms₂, hactivity, hbody⟩ := Option.bind_eq_some_iff.mp hbody
    obtain ⟨rfl, -⟩ := Prod.mk.inj (Option.some.inj hbody)
    have hwritten : ∀ gameTypes missionTypes info servers, Held { ms with
        mutex := ⟨0, true⟩, gameTypes := gameTypes, missionTypes := missionTypes, info := info,
        servers := servers } :=
      fun _ _ _ _ => ⟨rfl, h.connMutex, h.keyed⟩
    obtain ⟨connMutex, info, heq, hkinds⟩ :=
      (hwritten _ _ _ _).checkActivityTime_eq conn 15000 currentTime
    obtain rfl := Option.some.inj (heq.symm.trans hactivity)
    refine ⟨rfl, rfl, fun pointer => ?_, fun addr => ?_, fun _ si hsi => ?_⟩
    · rw [hkinds]
      by_cases hpointer : pointer = conn.pointer
      · rw [hpointer]
        change (Function.update ms.info conn.pointer _ conn.pointer).isGameServer = _
        rw [Function.update_self]
      · exact congrArg ConnectionInfo.isGameServer (Function.update_of_ne hpointer ..)
    · exact hasEntry_map _ (fun entry => by split_ifs <;> rfl) addr
    · obtain ⟨⟨addr, old⟩, -, heq⟩ := List.mem_map.mp hsi
      dsimp only at heq
      by_cases haddr : addr = conn.address
      · rw [if_pos haddr] at heq
        exact ⟨old, (Prod.mk.inj heq).2.symm⟩
      · rw [if_neg haddr] at heq
        exact absurd (Prod.mk.inj heq).1 haddr

/-- The connection and the entry go, the latter only if the connection is that of a game server. -/
structure Disconnected (ms : MasterProcess) (conn : MasterServerConnection) (ms' : MasterProcess) :
    Prop where
  connections : ms'.server.connections =
    Function.update ms.server.connections conn.address none
  nextPointer : ms'.nextPointer = ms.nextPointer
  info : ms'.info = ms.info
  servers : ms'.servers = if (ms.info conn.pointer).isGameServer then
    ms.servers.filter (·.1 ≠ conn.address) else ms.servers

theorem Idle.disconnected (h : ms.Idle) (hstep : ms.disconnect conn = some (ms', sent)) :
    ms.Disconnected conn ms' := by
  have hmutex := h.mutex
  cases ms with
  | mk server mutex info connMutex nextPointer servers gameTypes missionTypes motdList =>
    cases hmutex
    rw [MasterProcess.disconnect, h.connMutex] at hstep
    obtain ⟨rfl, -⟩ := Prod.mk.inj (Option.some.inj hstep)
    exact ⟨rfl, rfl, rfl, rfl⟩

theorem Idle.cleanup_eq (h : ms.Idle) (hstep : ms.cleanup currentTime = some (ms', sent)) :
    ms'.server.connections = ms.server.connections ∧ ms'.nextPointer = ms.nextPointer ∧
      ms'.info = ms.info ∧ ms'.servers =
        ms.servers.filter fun entry => !entry.2.isExpired 60000 currentTime := by
  rw [MasterProcess.cleanup, h.locked_eq] at hstep
  obtain ⟨rfl, -⟩ := Prod.mk.inj (Option.some.inj hstep)
  exact ⟨rfl, rfl, rfl, rfl⟩

/-! The invariant. -/

theorem start_sound (motdList : List (List UInt8 × List UInt8)) : (start motdList).Sound :=
  ⟨start_idle motdList, fun _ _ hconn => nomatch hconn⟩

theorem start_entriesConnected (motdList : List (List UInt8 × List UInt8)) :
    (start motdList).EntriesConnected := by
  rintro addr ⟨si, hsi⟩
  cases hsi

theorem Idle.listStep (h : ms.Idle) {a : ListAction} (hstep : ms.listStep a = some ms') :
    ms'.Idle := by
  cases a with
  | connect packet addr currentTime =>
    exact idle_of_returns (((newBitStream_readable packet).readInt 8).bind fun _ hbs =>
      h.handleConnectionRequest hbs) hstep
  | update conn status currentTime =>
    have hreturns : Returns (ms.listAct (.update conn status currentTime)) := by
      rw [listAct, sendUpdateServerStatus_eq]
      exact ((newBitStream_readable _).readInt 8).bind fun _ hbs =>
        (hbs.readInt 16).bind fun _ hbs => h.handleUpdateServerStatus hbs
    exact idle_of_returns hreturns hstep
  | disconnect conn => exact idle_of_returns (h.disconnect conn) hstep
  | cleanup currentTime => exact idle_of_returns (h.cleanup currentTime) hstep

theorem Idle.connectStep_cases (h : ms.Idle)
    (hstep : ms.listStep (.connect packet addr currentTime) = some ms') :
    ms' = ms ∨ ms.server.connections addr = none ∧ ms.Connected addr ms' := by
  obtain ⟨⟨ms'', sent⟩, hact, rfl⟩ := Option.map_eq_some_iff.mp hstep
  obtain ⟨⟨packetType, bs⟩, -, hact⟩ := Option.bind_eq_some_iff.mp hact
  exact h.connect_cases hact

theorem Sound.listStep (h : ms.Sound) {a : ListAction} (hstep : ms.listStep a = some ms') :
    ms'.Sound := by
  refine ⟨h.idle.listStep hstep, fun addr conn hconn => ?_⟩
  cases a with
  | connect packet addr' currentTime =>
    rcases h.idle.connectStep_cases hstep with rfl | ⟨-, hconnected⟩
    · exact h.fresh addr conn hconn
    · rw [hconnected.connections] at hconn
      rw [hconnected.nextPointer]
      by_cases haddr : addr = addr'
      · rw [haddr, Function.update_self] at hconn
        rw [← Option.some.inj hconn]
        exact Nat.lt_succ_self _
      · rw [Function.update_of_ne haddr] at hconn
        exact Nat.lt_succ_of_lt (h.fresh addr conn hconn)
  | update conn' status currentTime =>
    have hupdated := h.idle.updated hstep
    rw [hupdated.server] at hconn
    rw [hupdated.nextPointer]
    exact h.fresh addr conn hconn
  | disconnect conn' =>
    obtain ⟨⟨ms'', sent⟩, hact, rfl⟩ := Option.map_eq_some_iff.mp hstep
    have hdisconnected := h.idle.disconnected hact
    rw [hdisconnected.connections] at hconn
    rw [hdisconnected.nextPointer]
    by_cases haddr : addr = conn'.address
    · rw [haddr, Function.update_self] at hconn
      cases hconn
    · rw [Function.update_of_ne haddr] at hconn
      exact h.fresh addr conn hconn
  | cleanup currentTime =>
    obtain ⟨⟨ms'', sent⟩, hact, rfl⟩ := Option.map_eq_some_iff.mp hstep
    obtain ⟨hconnections, hnext, -, -⟩ := h.idle.cleanup_eq hact
    rw [hconnections] at hconn
    rw [hnext]
    exact h.fresh addr conn hconn

theorem EntriesConnected.mono (h : ms.EntriesConnected)
    (hentries : ∀ addr, ms'.HasEntry addr → ms.HasEntry addr)
    (hservers : ∀ conn, ms.GameServer conn → ms'.HasEntry conn.address → ms'.GameServer conn) :
    ms'.EntriesConnected := by
  intro addr hentry
  obtain ⟨conn, rfl, hserver⟩ := h addr (hentries addr hentry)
  exact ⟨conn, rfl, hservers conn hserver hentry⟩

/-- A new connection does not touch the old ones. -/
theorem EntriesConnected.connect (h : ms.EntriesConnected) (hsound : ms.Sound)
    (hnone : ms.server.connections addr = none) (hconnected : ms.Connected addr ms') :
    ms'.EntriesConnected := by
  intro addr' hentry
  rcases hconnected.entries addr' hentry with hold | ⟨rfl, hkind⟩
  · obtain ⟨conn, rfl, hconn, hkind⟩ := h addr' hold
    have haddr : conn.address ≠ addr := by
      intro heq
      rw [heq, hnone] at hconn
      cases hconn
    have hpointer : conn.pointer ≠ ms.nextPointer := (hsound.fresh conn.address conn hconn).ne
    refine ⟨conn, rfl, ?_, ?_⟩
    · rw [hconnected.connections, Function.update_of_ne haddr, hconn]
    · rw [hconnected.info conn.pointer hpointer, hkind]
  · refine ⟨⟨ms.nextPointer, addr'⟩, rfl, ?_, hkind⟩
    rw [hconnected.connections, Function.update_self]

theorem EntriesConnected.update (h : ms.EntriesConnected)
    (hupdated : ms.Updated conn status currentTime ms') : ms'.EntriesConnected := by
  apply h.mono
  · intro addr hentry
    exact (hupdated.entries addr).mp hentry
  · intro conn' hserver _
    refine ⟨?_, ?_⟩
    · rw [hupdated.server, hserver.1]
    · rw [hupdated.kinds, hserver.2]

/-- The entry of a connected game server has the values afterwards if there was one and no names
were lost. -/
theorem update_has_iff (hupdated : ms.Updated conn status currentTime ms')
    (hserver : ms.GameServer conn) :
    (∃ si, (conn.address, si) ∈ ms'.servers ∧ si.Has status) ↔
      ms.HasEntry conn.address ∧ status.gameType = [] ∧ status.missionType = [] := by
  constructor
  · rintro ⟨si, hsi, hhas⟩
    obtain ⟨old, rfl⟩ := hupdated.values hserver.2 si hsi
    refine ⟨(hupdated.entries _).mp ⟨_, hsi⟩, ?_, ?_⟩
    · exact (Option.some.inj hhas.gameType).symm
    · exact (Option.some.inj hhas.missionType).symm
  · rintro ⟨hentry, hgame, hmission⟩
    obtain ⟨si, hsi⟩ := (hupdated.entries _).mpr hentry
    obtain ⟨old, rfl⟩ := hupdated.values hserver.2 si hsi
    refine ⟨_, hsi, ?_, ?_, rfl, rfl, rfl, rfl⟩
    · rw [hgame]
      rfl
    · rw [hmission]
      rfl

theorem disconnect_entriesConnected_iff (h : ms.EntriesConnected)
    (hdisconnected : ms.Disconnected conn ms') : ms'.EntriesConnected ↔
      (ms.HasEntry conn.address → (ms.info conn.pointer).isGameServer = true) := by
  have hservers := hdisconnected.servers
  by_cases hkind : (ms.info conn.pointer).isGameServer = true
  · rw [if_pos hkind] at hservers
    refine iff_of_true (h.mono ?_ ?_) fun _ => hkind
    · rintro addr ⟨si, hsi⟩
      rw [hservers] at hsi
      exact ⟨si, (List.mem_filter.mp hsi).1⟩
    · rintro conn' hserver ⟨si, hsi⟩
      rw [hservers] at hsi
      have haddr : conn'.address ≠ conn.address := by
        simpa using (List.mem_filter.mp hsi).2
      refine ⟨?_, ?_⟩
      · rw [hdisconnected.connections, Function.update_of_ne haddr, hserver.1]
      · rw [hdisconnected.info, hserver.2]
  · rw [if_neg hkind] at hservers
    constructor
    · rintro hafter ⟨si, hsi⟩
      obtain ⟨conn', haddr, hconn', -⟩ := hafter conn.address ⟨si, hservers ▸ hsi⟩
      rw [hdisconnected.connections, haddr, Function.update_self] at hconn'
      cases hconn'
    · intro hnone
      refine h.mono ?_ ?_
      · rintro addr ⟨si, hsi⟩
        exact ⟨si, hservers ▸ hsi⟩
      · rintro conn' hserver ⟨si, hsi⟩
        rw [hservers] at hsi
        have haddr : conn'.address ≠ conn.address := fun heq => hkind (hnone ⟨si, heq ▸ hsi⟩)
        refine ⟨?_, ?_⟩
        · rw [hdisconnected.connections, Function.update_of_ne haddr, hserver.1]
        · rw [hdisconnected.info, hserver.2]

theorem follows_iff (hsound : ms.Sound) (h : ms.EntriesConnected) {a : ListAction}
    (hstep : ms.listStep a = some ms') : ms.Follows a ↔ ms.InOrder a := by
  have hfollows : ms.Follows a ↔ ms'.EntriesConnected ∧ ∀ conn status currentTime,
      a = .update conn status currentTime → ms.GameServer conn →
        ∃ si, (conn.address, si) ∈ ms'.servers ∧ si.Has status := by
    constructor
    · intro hall
      exact hall ms' hstep
    · intro hafter ms'' hstep'
      obtain rfl := Option.some.inj (hstep.symm.trans hstep')
      exact hafter
  rw [hfollows]
  cases a with
  | connect packet addr currentTime =>
    refine iff_of_true ⟨?_, fun _ _ _ heq => nomatch heq⟩ trivial
    rcases hsound.idle.connectStep_cases hstep with rfl | ⟨hnone, hconnected⟩
    · exact h
    · exact h.connect hsound hnone hconnected
  | update conn status currentTime =>
    have hupdated := hsound.idle.updated hstep
    rw [and_iff_right (h.update hupdated)]
    constructor
    · intro hall hserver
      exact (update_has_iff hupdated hserver).mp (hall conn status currentTime rfl hserver)
    · rintro horder conn' status' currentTime' heq hserver
      cases heq
      exact (update_has_iff hupdated hserver).mpr (horder hserver)
  | disconnect conn =>
    obtain ⟨⟨ms'', sent⟩, hact, rfl⟩ := Option.map_eq_some_iff.mp hstep
    rw [and_iff_left fun _ _ _ heq => nomatch heq]
    exact disconnect_entriesConnected_iff h (hsound.idle.disconnected hact)
  | cleanup currentTime =>
    obtain ⟨⟨ms'', sent⟩, hact, rfl⟩ := Option.map_eq_some_iff.mp hstep
    obtain ⟨hconnections, -, hinfo, hservers⟩ := hsound.idle.cleanup_eq hact
    refine iff_of_true ⟨h.mono ?_ ?_, fun _ _ _ heq => nomatch heq⟩ trivial
    · rintro addr ⟨si, hsi⟩
      rw [hservers] at hsi
      exact ⟨si, (List.mem_filter.mp hsi).1⟩
    · intro conn hserver _
      refine ⟨?_, ?_⟩
      · rw [hconnections, hserver.1]
      · rw [hinfo, hserver.2]

/-- The list follows the connections in exactly the histories in which every update from a connected
game server finds its entry and names no types, and everyone who is disconnected is a game server
or has no entry at its address. -/
theorem serverList_follows_iff (motdList : List (List UInt8 × List UInt8)) (as : List ListAction)
    (ms : MasterProcess) :
    Run listStep Follows (start motdList) as ms ↔ Run listStep InOrder (start motdList) as ms := by
  refine Run.congr_of_invariant (I := fun ms => ms.Sound ∧ ms.EntriesConnected) ?_ ?_
    ⟨start_sound motdList, start_entriesConnected motdList⟩
  · rintro ms a ms' ⟨hsound, hentries⟩ hstep
    exact follows_iff hsound hentries hstep
  · rintro ms a ms' ⟨hsound, hentries⟩ horder hstep
    exact ⟨hsound.listStep hstep, ((follows_iff hsound hentries hstep).mpr horder ms' hstep).1⟩

/-- A game server is silent for a minute, and its next update does not bring it back. -/
theorem expired_server_lost : ¬ ∀ as ms, Run listStep (fun _ _ => True) (start []) as ms →
    Run listStep Follows (start []) as ms := by
  intro hclaim
  let host : Address := ⟨[10, 0, 0, 2], 28000⟩
  let packet : List UInt8 := [1, 0, 1] ++ List.replicate 24 0
  let before : List ListAction := [.connect packet host 0, .cleanup 60001]
  let update : ListAction := .update ⟨0, host⟩ ⟨[], [], 1, 2, 8, 0⟩ 60002
  have hstates : (exec listStep (start []) before).map (fun ms =>
      (ms.server.connections host, (ms.info 0).isGameServer,
        (ms.listStep update).map fun ms' => ms'.servers.isEmpty)) =
      some (some ⟨0, host⟩, true, some true) := by decide +kernel
  obtain ⟨ms, hexec, hafter⟩ := Option.map_eq_some_iff.mp hstates
  obtain ⟨hconn, hafter⟩ := Prod.mk.inj hafter
  obtain ⟨hkind, hafter⟩ := Prod.mk.inj hafter
  obtain ⟨ms', hstep, hempty⟩ := Option.map_eq_some_iff.mp hafter
  have hrun := (Run.of_exec hexec).snoc (a := update) trivial hstep
  obtain ⟨u, hu, hfollows⟩ := (hclaim _ _ hrun).allowed_at
  obtain rfl := Option.some.inj (hexec.symm.trans hu.exec_eq)
  obtain ⟨si, hsi, -⟩ := (hfollows ms' hstep).2 _ _ _ rfl ⟨hconn, hkind⟩
  rw [List.isEmpty_iff.mp hempty] at hsi
  cases hsi

end MasterProcess

end TNL.GoRoot
