import TNL.Library.Run
import TNL.Library.SentinelList
import TNL.Master.MasterServer
import TNL.Master.TypeLists

/-!
# Queries to the master server

The game servers that are connected stand in a ring around a sentinel. A query goes
once around it and answers with the addresses of the servers that match. A server
whose type was destroyed still points to the memory, and a query reads what is there.
-/
namespace TNL
open Library

/-- What the master knows of a connection. Only a game server tells more than its game string. -/
structure ServerInfo where
  mNetAddress : IPAddress
  mGameString : ℕ
  mIsGameServer : Bool
  mCPUSpeed : U32
  mRegionCode : U32
  mNumBots : U32
  mPlayerCount : U32
  mMaxPlayers : U32
  mInfoFlags : U32
  mCurrentGameType : Option ℕ
  mCurrentMissionType : Option ℕ

/-- What a game server sends about itself when it connects. -/
structure ServerRequest where
  cpuSpeed : U32
  regionCode : U32
  numBots : U32
  playerCount : U32
  maxPlayers : U32
  infoFlags : U32
  gameType : ℕ
  missionType : ℕ

/-- The parameters of a query for servers. A null type matches every server. -/
structure ServerFilter where
  queryId : U32
  regionMask : U32
  minPlayers : U32
  maxPlayers : U32
  infoFlags : U32
  maxBots : U32
  minCPUSpeed : U32
  gameType : ℕ
  missionType : ℕ

structure QueryServersResponse where
  queryId : U32
  ipList : List IPAddress
  deriving DecidableEq

def IPMessageAddressCount : ℕ := 30

/-- The connections, their links, where `none` is `gServerList`, and the types. -/
structure ServerDirectory (κ : Type) where
  connections : κ → Option ServerInfo
  links : Links (Option κ)
  types : TypeLists

namespace ServerDirectory

variable {κ : Type} [DecidableEq κ]

def start : ServerDirectory κ := ⟨fun _ => none, ⟨fun _ => none, fun _ => none⟩, .start⟩

/-- The constructor links a connection to itself. -/
def construct (s : ServerDirectory κ) (c : κ) (info : ServerInfo) : ServerDirectory κ :=
  { s with
    connections := Function.update s.connections c (some info)
    links := s.links.isolate (some c) }

def linkToServerList (s : ServerDirectory κ) (c : κ) : ServerDirectory κ :=
  { s with links := s.links.insertBefore (some c) (s.links.next none) }

/-- The addresses are where new types are made. -/
def setTypes (s : ServerDirectory κ) (c : κ) (info : ServerInfo) (gameType missionType : ℕ)
    (gameAddress missionAddress : ℕ) : Option (ServerDirectory κ) :=
  (s.types.setGameType info.mCurrentGameType gameType gameAddress).bind fun game =>
  (game.1.setMissionType info.mCurrentMissionType missionType missionAddress).map fun mission =>
    { s with
      connections := Function.update s.connections c
        (some { info with
          mCurrentGameType := some game.2, mCurrentMissionType := some mission.2 })
      types := mission.1 }

def readConnectRequest (s : ServerDirectory κ) (c : κ) (address : IPAddress) (gameString : ℕ)
    (request : Option ServerRequest) (gameAddress missionAddress : ℕ) :
    Option (ServerDirectory κ) :=
  match request with
  | none =>
    some (s.construct c ⟨address, gameString, false, 0, 0, 0, 0, 0, 0, none, none⟩)
  | some r =>
    let info : ServerInfo := ⟨address, gameString, true, r.cpuSpeed, r.regionCode, r.numBots,
      r.playerCount, r.maxPlayers, r.infoFlags, none, none⟩
    ((s.construct c info).setTypes c info r.gameType r.missionType gameAddress missionAddress).map
      fun s => s.linkToServerList c

def c2mUpdateServerStatus (s : ServerDirectory κ) (c : κ) (gameType missionType : ℕ)
    (botCount playerCount maxPlayers infoFlags : U32) (gameAddress missionAddress : ℕ) :
    Option (ServerDirectory κ) :=
  (s.connections c).bind fun info =>
    if !info.mIsGameServer then some s
    else s.setTypes c
      { info with
        mNumBots := botCount, mPlayerCount := playerCount, mMaxPlayers := maxPlayers,
        mInfoFlags := infoFlags }
      gameType missionType gameAddress missionAddress

/-- The destructor takes the connection out of the list. Then its pointers let go of the types, the
last one first. -/
def destruct (s : ServerDirectory κ) (c : κ) : Option (ServerDirectory κ) :=
  (s.connections c).map fun info =>
    { connections := Function.update s.connections c none
      links := s.links.unlink (some c)
      types := (s.types.release info.mCurrentMissionType).release info.mCurrentGameType }

section Query

variable (s : ServerDirectory κ) (stale : ℕ → ℕ) (filter : ServerFilter) (mGameString : ℕ)

/-- The name of a type, or what `stale` says if the type was destroyed. -/
def nameAt (o : ℕ) : ℕ := ((s.types.objects o).map (·.mName)).getD (stale o)

/-- A type is asked for, and it is not the one of the server. -/
def otherType (wanted : ℕ) (current : Option ℕ) : Option Bool :=
  if wanted = 0 then some false else current.map fun o => wanted ≠ s.nameAt stale o

/-- Undefined where the null pointer is followed. -/
def accepts (walk : ServerInfo) : Option Bool :=
  if walk.mGameString ≠ mGameString then some false
  else if walk.mRegionCode &&& filter.regionMask = 0 then some false
  else if walk.mPlayerCount > filter.maxPlayers ∨ walk.mPlayerCount < filter.minPlayers then
    some false
  else if filter.infoFlags &&& ~~~walk.mInfoFlags ≠ 0 then some false
  else if filter.maxBots < walk.mNumBots then some false
  else if filter.minCPUSpeed > walk.mCPUSpeed then some false
  else (s.otherType stale filter.gameType walk.mCurrentGameType).bind fun other =>
    if other then some false
    else (s.otherType stale filter.missionType walk.mCurrentMissionType).map fun other => !other

/-- The loop around the list, with the addresses and the answers so far. -/
def walkServers : ℕ → Option κ → List IPAddress → List QueryServersResponse →
    Option (List IPAddress × List QueryServersResponse)
  | 0, _, _, _ => none
  | _ + 1, none, theVector, sent => some (theVector, sent)
  | fuel + 1, some c, theVector, sent =>
    (s.connections c).bind fun walk =>
    (s.accepts stale filter mGameString walk).bind fun accepted =>
      let next := s.links.next (some c)
      if accepted then
        let theVector := theVector ++ [walk.mNetAddress]
        if theVector.length = IPMessageAddressCount then
          walkServers fuel next [] (sent ++ [⟨filter.queryId, theVector⟩])
        else walkServers fuel next theVector sent
      else walkServers fuel next theVector sent

def c2mQueryServers (fuel : ℕ) (c : κ) : Option (List QueryServersResponse) :=
  (s.connections c).bind fun info =>
  (s.walkServers stale filter info.mGameString fuel (s.links.next none) [] []).map
    fun (theVector, sent) =>
      let sent := sent ++ [⟨filter.queryId, theVector⟩]
      if theVector.length ≠ 0 then sent ++ [⟨filter.queryId, []⟩] else sent

end Query

/-- What changes the lists. -/
inductive Action (κ : Type) where
  | connect (c : κ) (address : IPAddress) (gameString : ℕ) (request : Option ServerRequest)
      (gameAddress missionAddress : ℕ)
  | updateServerStatus (c : κ) (gameType missionType : ℕ)
      (botCount playerCount maxPlayers infoFlags : U32) (gameAddress missionAddress : ℕ)
  | destruct (c : κ)
  | queryGameTypes (queryId : U32)

def step (s : ServerDirectory κ) : Action κ → Option (ServerDirectory κ)
  | .connect c address gameString request gameAddress missionAddress =>
    if (s.connections c).isSome then none
    else s.readConnectRequest c address gameString request gameAddress missionAddress
  | .updateServerStatus c gameType missionType botCount playerCount maxPlayers infoFlags
      gameAddress missionAddress =>
    s.c2mUpdateServerStatus c gameType missionType botCount playerCount maxPlayers infoFlags
      gameAddress missionAddress
  | .destruct c => s.destruct c
  | .queryGameTypes queryId => some { s with types := (s.types.c2mQueryGameTypes queryId).1 }

/-- The game servers are the connections in the ring. Each of them has types, and every other
connection is linked to itself. -/
structure Sound (s : ServerDirectory κ) : Prop where
  types : s.types.Sound
  ring : ∃ l : List κ, s.links.Ring none (l.map some) ∧
    ∀ c, c ∈ l ↔ ∃ info, s.connections c = some info ∧ info.mIsGameServer
  typed : ∀ c info, s.connections c = some info → info.mIsGameServer →
    info.mCurrentGameType.isSome ∧ info.mCurrentMissionType.isSome
  single : ∀ c info, s.connections c = some info → ¬info.mIsGameServer → s.links.Single (some c)

variable {s s' : ServerDirectory κ} {c : κ}

omit [DecidableEq κ] in
theorem sound_start : (start : ServerDirectory κ).Sound where
  types := TypeLists.sound_start
  ring := ⟨[], ⟨List.isChain_pair.mpr ⟨rfl, rfl⟩, List.nodup_singleton none⟩, by simp [start]⟩
  typed := nofun
  single := nofun

/-! ### Steps -/

theorem setTypes_eq {info : ServerInfo} {gameType missionType gameAddress missionAddress : ℕ}
    (h : s.setTypes c info gameType missionType gameAddress missionAddress = some s') :
    ∃ game mission types, s' = { s with
        connections := Function.update s.connections c
          (some { info with
            mCurrentGameType := some game, mCurrentMissionType := some mission })
        types := types } ∧ (s.types.Sound → types.Sound) := by
  obtain ⟨game, hgame, h⟩ := Option.bind_eq_some_iff.mp h
  obtain ⟨mission, hmission, rfl⟩ := Option.map_eq_some_iff.mp h
  refine ⟨game.2, mission.2, mission.1, rfl, ?_⟩
  intro hsound
  exact (hsound.setType hgame).setType hmission

section changes

variable {info : ServerInfo}

/-- A new client is not in the ring. -/
theorem Sound.client (h : s.Sound) (hfree : s.connections c = none)
    (hclient : ¬info.mIsGameServer) : (s.construct c info).Sound := by
  obtain ⟨l, hring, hmem⟩ := h.ring
  have hself : (s.construct c info).connections c = some info := Function.update_self ..
  have hother : ∀ d, d ≠ c → (s.construct c info).connections d = s.connections d := fun d hd =>
    Function.update_of_ne hd ..
  have hc : c ∉ l := by simp [hmem, hfree]
  constructor
  case types => exact h.types
  case ring =>
    refine ⟨l, hring.isolate (by simpa using hc), ?_⟩
    intro d
    by_cases hd : d = c
    · rw [hd, hself]
      simp [hc, hclient]
    · rw [hother d hd, hmem]
  case typed =>
    intro d info' hinfo' hserver
    by_cases hd : d = c
    · rw [hd, hself] at hinfo'
      obtain rfl := Option.some.inj hinfo'
      exact absurd hserver hclient
    · rw [hother d hd] at hinfo'
      exact h.typed d info' hinfo' hserver
  case single =>
    intro d info' hinfo' hserver
    by_cases hd : d = c
    · rw [hd]
      exact Links.single_isolate ..
    · rw [hother d hd] at hinfo'
      exact (h.single d info' hinfo' hserver).isolate _

/-- A new game server comes first in the ring. -/
theorem Sound.server (h : s.Sound) (hfree : s.connections c = none)
    (hserver : info.mIsGameServer) {gameType missionType gameAddress missionAddress : ℕ}
    (hset : (s.construct c info).setTypes c info gameType missionType gameAddress missionAddress =
      some s') : (s'.linkToServerList c).Sound := by
  obtain ⟨game, mission, types, rfl, htypes⟩ := setTypes_eq hset
  obtain ⟨l, hring, hmem⟩ := h.ring
  obtain ⟨new, hnew⟩ : ∃ new : ServerInfo, new = { info with
      mCurrentGameType := some game, mCurrentMissionType := some mission } := ⟨_, rfl⟩
  rw [← hnew]
  obtain ⟨t, ht⟩ : ∃ t, t = linkToServerList { s.construct c info with
      connections := Function.update (s.construct c info).connections c (some new)
      types := types } c := ⟨_, rfl⟩
  rw [← ht]
  have hself : t.connections c = some new := by
    rw [ht]
    exact Function.update_self ..
  have hother : ∀ d, d ≠ c → t.connections d = s.connections d := by
    intro d hd
    simp [ht, linkToServerList, construct, hd]
  have hc : c ∉ l := by simp [hmem, hfree]
  have hnode : some c ∉ none :: l.map some := by simpa using hc
  have hisolated := hring.isolate hnode
  have hnewServer : new.mIsGameServer := by rwa [hnew]
  constructor
  case types =>
    rw [ht]
    exact htypes h.types
  case ring =>
    refine ⟨c :: l, ?_, ?_⟩
    · rw [ht]
      exact hisolated.insertFront hnode
    · intro d
      rw [List.mem_cons, hmem]
      by_cases hd : d = c
      · rw [hd, hself]
        simp [hnewServer]
      · rw [hother d hd]
        simp [hd]
  case typed =>
    intro d info' hinfo' hserver'
    by_cases hd : d = c
    · rw [hd, hself] at hinfo'
      obtain rfl := Option.some.inj hinfo'
      rw [hnew]
      exact ⟨rfl, rfl⟩
    · rw [hother d hd] at hinfo'
      exact h.typed d info' hinfo' hserver'
  case single =>
    intro d info' hinfo' hclient
    by_cases hd : d = c
    · rw [hd, hself] at hinfo'
      obtain rfl := Option.some.inj hinfo'
      exact absurd hnewServer hclient
    · rw [hother d hd] at hinfo'
      have hdl : d ∉ l := by simp [hmem, hinfo', hclient]
      rw [ht]
      apply ((h.single d info' hinfo' hclient).isolate _).insertFront hisolated hnode
      simp [hd, hdl]

/-- A game server that changes what is known of it keeps its place. -/
theorem Sound.update (h : s.Sound) {old : ServerInfo} (hold : s.connections c = some old)
    (hserver : old.mIsGameServer) (hnew : info.mIsGameServer)
    {gameType missionType gameAddress missionAddress : ℕ}
    (hset : s.setTypes c info gameType missionType gameAddress missionAddress = some s') :
    s'.Sound := by
  obtain ⟨game, mission, types, rfl, htypes⟩ := setTypes_eq hset
  obtain ⟨l, hring, hmem⟩ := h.ring
  have hc : c ∈ l := (hmem c).mpr ⟨old, hold, hserver⟩
  constructor
  case types => exact htypes h.types
  case ring =>
    refine ⟨l, hring, ?_⟩
    intro d
    by_cases hd : d = c
    · subst hd
      simp [hc, hnew]
    · simp [hd, hmem]
  case typed =>
    intro d info' hinfo' hserver'
    dsimp only at hinfo'
    by_cases hd : d = c
    · subst hd
      rw [Function.update_self] at hinfo'
      obtain rfl := Option.some.inj hinfo'
      exact ⟨rfl, rfl⟩
    · rw [Function.update_of_ne hd] at hinfo'
      exact h.typed d info' hinfo' hserver'
  case single =>
    intro d info' hinfo' hclient
    dsimp only at hinfo'
    by_cases hd : d = c
    · subst hd
      rw [Function.update_self] at hinfo'
      obtain rfl := Option.some.inj hinfo'
      exact absurd hnew hclient
    · rw [Function.update_of_ne hd] at hinfo'
      exact h.single d info' hinfo' hclient

theorem Sound.destruct (h : s.Sound) (hdestruct : s.destruct c = some s') : s'.Sound := by
  obtain ⟨info, hinfo, rfl⟩ := Option.map_eq_some_iff.mp hdestruct
  obtain ⟨l, hring, hmem⟩ := h.ring
  have hnodup : l.Nodup := (List.nodup_cons.mp hring.nodup).2.of_map some
  have hother : ∀ d, d ≠ c → Function.update s.connections c none d = s.connections d := fun d hd =>
    Function.update_of_ne hd ..
  have hunlinked : (s.links.unlink (some c)).Ring none ((l.erase c).map some) ∧
      ∀ d, d ∉ l → d ≠ c → s.links.Single (some d) →
        (s.links.unlink (some c)).Single (some d) := by
    by_cases hserver : info.mIsGameServer
    · have hc : some c ∈ l.map some :=
        List.mem_map_of_mem ((hmem c).mpr ⟨info, hinfo, hserver⟩)
      constructor
      · rw [List.map_erase (Option.some_injective κ)]
        convert hring.erase hc
      · intro d hd hne hsingle
        exact hsingle.unlink hring hc (by simpa using hd)
    · have hc : c ∉ l := by simp [hmem, hinfo, hserver]
      rw [(h.single c info hinfo hserver).unlink_self, List.erase_of_not_mem hc]
      exact ⟨hring, fun _ _ _ hsingle => hsingle⟩
  constructor
  case types => exact (h.types.release _).release _
  case ring =>
    refine ⟨l.erase c, hunlinked.1, ?_⟩
    intro d
    rw [hnodup.mem_erase_iff, hmem]
    by_cases hd : d = c
    · simp [hd]
    · simp [hd]
  case typed =>
    intro d info' hinfo' hserver
    by_cases hd : d = c
    · simp [hd] at hinfo'
    · dsimp only at hinfo'
      rw [hother d hd] at hinfo'
      exact h.typed d info' hinfo' hserver
  case single =>
    intro d info' hinfo' hclient
    by_cases hd : d = c
    · simp [hd] at hinfo'
    · dsimp only at hinfo'
      rw [hother d hd] at hinfo'
      have hdl : d ∉ l := by simp [hmem, hinfo', hclient]
      exact hunlinked.2 d hdl hd (h.single d info' hinfo' hclient)

end changes

theorem Sound.step {a : Action κ} (h : s.Sound) (hstep : s.step a = some s') : s'.Sound := by
  cases a with
  | connect c address gameString request gameAddress missionAddress =>
    rw [ServerDirectory.step] at hstep
    split_ifs at hstep with hfree
    rw [Option.not_isSome_iff_eq_none] at hfree
    cases request with
    | none =>
      obtain rfl := Option.some.inj hstep
      exact h.client hfree Bool.false_ne_true
    | some request =>
      obtain ⟨s₁, hset, rfl⟩ := Option.map_eq_some_iff.mp hstep
      exact h.server hfree rfl hset
  | updateServerStatus c gameType missionType botCount playerCount maxPlayers infoFlags
      gameAddress missionAddress =>
    obtain ⟨info, hinfo, hupdate⟩ := Option.bind_eq_some_iff.mp hstep
    cases hserver : info.mIsGameServer with
    | false =>
      rw [hserver] at hupdate
      obtain rfl := Option.some.inj hupdate
      exact h
    | true =>
      rw [hserver] at hupdate
      exact h.update hinfo hserver rfl hupdate
  | destruct c => exact h.destruct hstep
  | queryGameTypes queryId =>
    obtain rfl := Option.some.inj hstep
    exact ⟨(h.types.c2mQueryGameTypes queryId).1, h.ring, h.typed, h.single⟩

theorem Sound.run {actions : List (Action κ)}
    (h : Run ServerDirectory.step (fun _ _ => True) start actions s) : s.Sound :=
  h.invariant (fun _ _ _ hs _ hstep => hs.step hstep) sound_start

/-! ### Queries for servers -/

section queries

variable {stale : ℕ → ℕ} {filter : ServerFilter} {mGameString : ℕ} {info : ServerInfo}

/-- What a query asks for. A bound of zero or a null type asks for nothing. -/
structure Matches (s : ServerDirectory κ) (stale : ℕ → ℕ) (filter : ServerFilter)
    (mGameString : ℕ) (info : ServerInfo) : Prop where
  game : info.mGameString = mGameString
  region : ∃ i, info.mRegionCode.getLsbD i ∧ filter.regionMask.getLsbD i
  players : filter.minPlayers ≤ info.mPlayerCount ∧ info.mPlayerCount ≤ filter.maxPlayers
  flags : ∀ i, filter.infoFlags.getLsbD i → info.mInfoFlags.getLsbD i
  bots : info.mNumBots ≤ filter.maxBots
  cpuSpeed : filter.minCPUSpeed ≤ info.mCPUSpeed
  gameType : filter.gameType ≠ 0 →
    info.mCurrentGameType.map (s.nameAt stale) = some filter.gameType
  missionType : filter.missionType ≠ 0 →
    info.mCurrentMissionType.map (s.nameAt stale) = some filter.missionType

theorem and_eq_zero_iff (x y : U32) :
    x &&& y = 0 ↔ ¬∃ i, x.getLsbD i ∧ y.getLsbD i := by
  constructor
  · rintro h ⟨i, hx, hy⟩
    have hbit := congrArg (·.getLsbD i) h
    simp [hx, hy] at hbit
  · intro h
    apply BitVec.eq_of_getLsbD_eq
    intro i _
    rw [BitVec.getLsbD_and]
    by_contra hbit
    apply h
    refine ⟨i, ?_⟩
    simpa [BitVec.getLsbD_zero] using hbit

theorem and_not_eq_zero_iff (x y : U32) :
    x &&& ~~~y = 0 ↔ ∀ i, x.getLsbD i → y.getLsbD i := by
  rw [and_eq_zero_iff]
  constructor
  · intro h i hx
    by_contra hy
    have hlt := BitVec.lt_of_getLsbD hx
    rw [Bool.not_eq_true] at hy
    exact h ⟨i, hx, by rw [BitVec.getLsbD_not, hy, decide_eq_true hlt]; rfl⟩
  · rintro h ⟨i, hx, hy⟩
    have hy' := h i hx
    simp [BitVec.getLsbD_not, hy'] at hy

omit [DecidableEq κ] in
theorem otherType_eq (s : ServerDirectory κ) (stale : ℕ → ℕ) (wanted o : ℕ) :
    ∃ other, s.otherType stale wanted (some o) = some other ∧
      (other = false ↔ (wanted ≠ 0 → (some o).map (s.nameAt stale) = some wanted)) := by
  rw [otherType]
  by_cases h : wanted = 0
  · exact ⟨false, if_pos h, iff_of_true rfl fun hne => absurd h hne⟩
  · refine ⟨decide (wanted ≠ s.nameAt stale o), if_neg h, ?_⟩
    rw [decide_eq_false_iff_not, not_not, Option.map_some, Option.some_inj]
    exact ⟨fun heq _ => heq.symm, fun heq => (heq h).symm⟩

omit [DecidableEq κ] in
/-- The checks in a row decide whether the server is one that is asked for. -/
theorem accepts_eq (s : ServerDirectory κ) (stale : ℕ → ℕ) (filter : ServerFilter)
    (mGameString : ℕ) (hgame : info.mCurrentGameType.isSome)
    (hmission : info.mCurrentMissionType.isSome) :
    ∃ accepted, s.accepts stale filter mGameString info = some accepted ∧
      (accepted ↔ s.Matches stale filter mGameString info) := by
  obtain ⟨game, hgame⟩ := Option.isSome_iff_exists.mp hgame
  obtain ⟨mission, hmission⟩ := Option.isSome_iff_exists.mp hmission
  have hregion := and_eq_zero_iff info.mRegionCode filter.regionMask
  have hflags := and_not_eq_zero_iff filter.infoFlags info.mInfoFlags
  have reject (hno : ¬s.Matches stale filter mGameString info) :
      ∃ accepted, some false = some accepted ∧
        (accepted ↔ s.Matches stale filter mGameString info) :=
    ⟨false, rfl, iff_of_false Bool.false_ne_true hno⟩
  rw [accepts]
  split_ifs with h1 h2 h3 h4 h5 h6
  · exact reject fun h => h1 h.game
  · exact reject fun h => hregion.mp h2 h.region
  · apply reject
    intro h
    rcases h3 with hmore | hless
    · exact absurd h.players.2 (BitVec.not_le.mpr hmore)
    · exact absurd h.players.1 (BitVec.not_le.mpr hless)
  · exact reject fun h => h4 (hflags.mpr h.flags)
  · exact reject fun h => absurd h.bots (BitVec.not_le.mpr h5)
  · exact reject fun h => absurd h.cpuSpeed (BitVec.not_le.mpr h6)
  obtain ⟨otherGame, hotherGame, hgameType⟩ := s.otherType_eq stale filter.gameType game
  obtain ⟨otherMission, hotherMission, hmissionType⟩ :=
    s.otherType_eq stale filter.missionType mission
  rw [← hgame] at hotherGame hgameType
  rw [← hmission] at hotherMission hmissionType
  rw [hotherGame, hotherMission]
  cases otherGame with
  | true => exact reject fun h => Bool.noConfusion (hgameType.mpr h.gameType)
  | false =>
    refine ⟨!otherMission, rfl, ?_⟩
    rw [Bool.not_eq_true', hmissionType]
    constructor
    · intro hmatch
      rw [not_or] at h3
      exact ⟨not_not.mp h1, not_not.mp (hregion.not.mp h2),
        ⟨BitVec.not_lt.mp h3.2, BitVec.not_lt.mp h3.1⟩, hflags.mp (not_not.mp h4),
        BitVec.not_lt.mp h5, BitVec.not_lt.mp h6, hgameType.mp rfl, hmatch⟩
    · intro h
      exact h.missionType

/-- The variables of a query that collects batches. -/
def collected (filter : ServerFilter) (b : Batches IPAddress) :
    List IPAddress × List QueryServersResponse :=
  (b.pending, b.sent.map fun batch => ⟨filter.queryId, batch⟩)

/-- What a client gathers from the answers to a query for servers. -/
structure ServersAnswered (queryId : U32) (addresses : List IPAddress)
    (responses : List QueryServersResponse) : Prop where
  sameQuery : ∀ response ∈ responses, response.queryId = queryId
  ipLists : responses.flatMap (·.ipList) = addresses
  terminated : Batches.Terminated IPMessageAddressCount (responses.map (·.ipList))

omit [DecidableEq κ] in
theorem next_of_row {d : κ} {l : List κ} {k : Links (Option κ)}
    (h : k.Row (some d :: (l.map some ++ [none]))) : k.next (some d) = l.head? := by
  cases l with
  | nil => exact (List.isChain_cons_cons.mp h).1.1
  | cons e l => exact (List.isChain_cons_cons.mp h).1.1

omit [DecidableEq κ] in
/-- The rest of the way around the ring. -/
theorem walkServers_eq {l : List κ} {address : κ → IPAddress} {wanted : κ → Bool}
    (hrow : s.links.Row (l.map some ++ [none]))
    (hservers : ∀ d ∈ l, ∃ info, s.connections d = some info ∧ info.mNetAddress = address d ∧
      s.accepts stale filter mGameString info = some (wanted d))
    {b : Batches IPAddress} (hsound : b.Sound IPMessageAddressCount) {fuel : ℕ}
    (hfuel : l.length < fuel) :
    s.walkServers stale filter mGameString fuel l.head? b.pending
        (b.sent.map fun batch => ⟨filter.queryId, batch⟩) =
      some (collected filter
        (((l.filter wanted).map address).foldl (Batches.push IPMessageAddressCount) b)) := by
  induction l generalizing b fuel with
  | nil =>
    obtain ⟨fuel, rfl⟩ := Nat.exists_eq_add_of_lt hfuel
    rfl
  | cons d l ih =>
    obtain ⟨fuel, rfl⟩ : ∃ n, fuel = n + 1 := ⟨fuel - 1, by omega⟩
    obtain ⟨info, hinfo, haddress, haccepts⟩ := hservers d List.mem_cons_self
    have hnext := next_of_row hrow
    have hrow' : s.links.Row (l.map some ++ [none]) := List.isChain_of_isChain_cons hrow
    have hservers' := fun e he => hservers e (List.mem_cons_of_mem d he)
    rw [List.head?_cons, walkServers, hinfo, Option.bind_some, haccepts, Option.bind_some, hnext]
    have hlength : l.length < fuel := Nat.lt_of_succ_lt_succ hfuel
    cases hwanted : wanted d with
    | false =>
      rw [List.filter_cons_of_neg (by simp [hwanted])]
      exact ih hrow' hservers' hsound hlength
    | true =>
      rw [List.filter_cons_of_pos hwanted, List.map_cons, List.foldl_cons, ← haddress]
      have hpush := ih hrow' hservers' (hsound.push info.mNetAddress) hlength
      rw [← hpush, Batches.push]
      have hpending := hsound.pending
      have hfull : IPMessageAddressCount ≤ (b.pending ++ [info.mNetAddress]).length ↔
          (b.pending ++ [info.mNetAddress]).length = IPMessageAddressCount := by
        rw [List.length_append, List.length_singleton]
        omega
      by_cases h : (b.pending ++ [info.mNetAddress]).length = IPMessageAddressCount
      · rw [if_pos rfl, if_pos (hfull.mpr h)]
        dsimp only
        rw [if_pos h, List.map_append, List.map_singleton]
      · rw [if_pos rfl, if_neg (hfull.not.mpr h)]
        dsimp only
        rw [if_neg h]

theorem answered_collected (filter : ServerFilter) {b : Batches IPAddress}
    (hsound : b.Sound IPMessageAddressCount) :
    ServersAnswered filter.queryId b.items (b.finish.map fun batch => ⟨filter.queryId, batch⟩) := by
  constructor
  · intro response hresponse
    obtain ⟨batch, -, rfl⟩ := List.mem_map.mp hresponse
    rfl
  · rw [List.flatMap_map, ← b.flatten_finish]
    exact List.flatMap_id
  · rw [List.map_map]
    change Batches.Terminated IPMessageAddressCount (b.finish.map id)
    rw [List.map_id]
    exact hsound.terminated

/-- The address of a connection, and any one if there is no such connection. -/
def addressOf (s : ServerDirectory κ) (d : κ) : IPAddress :=
  ((s.connections d).map (·.mNetAddress)).getD ⟨0, 0⟩

/-- The connection is a server that is in the answer. -/
def answersTo (s : ServerDirectory κ) (stale : ℕ → ℕ) (filter : ServerFilter) (mGameString : ℕ)
    (d : κ) : Bool :=
  (s.connections d).any fun server => (s.accepts stale filter mGameString server).getD false

omit [DecidableEq κ] in
theorem Sound.answersTo_iff (h : s.Sound) {d : κ} {server : ServerInfo}
    (hd : s.connections d = some server) (hserver : server.mIsGameServer) :
    s.accepts stale filter mGameString server =
        some (s.answersTo stale filter mGameString d) ∧
      (s.answersTo stale filter mGameString d ↔
        s.Matches stale filter mGameString server) := by
  obtain ⟨hgame, hmission⟩ := h.typed d server hd hserver
  obtain ⟨accepted, haccepts, hiff⟩ :=
    s.accepts_eq stale filter mGameString hgame hmission
  have hanswers : s.answersTo stale filter mGameString d = accepted := by
    rw [answersTo, hd, Option.any_some, haccepts, Option.getD_some]
  rw [hanswers]
  exact ⟨haccepts, hiff⟩

omit [DecidableEq κ] in
/-- The game servers that are asked for, in the order of the ring. -/
theorem Sound.c2mQueryServers (h : s.Sound) (hc : s.connections c = some info) (stale : ℕ → ℕ)
    (filter : ServerFilter) :
    ∃ servers : List κ, servers.Nodup ∧
      (∀ d, d ∈ servers ↔ ∃ server, s.connections d = some server ∧ server.mIsGameServer ∧
        s.Matches stale filter info.mGameString server) ∧
      ∃ enough responses,
        (∀ fuel, enough < fuel → s.c2mQueryServers stale filter fuel c = some responses) ∧
        ServersAnswered filter.queryId (servers.map s.addressOf) responses := by
  obtain ⟨l, hring, hmem⟩ := h.ring
  have hnodup : l.Nodup := (List.nodup_cons.mp hring.nodup).2.of_map some
  have hservers : ∀ d ∈ l, ∃ server, s.connections d = some server ∧
      server.mNetAddress = s.addressOf d ∧ s.accepts stale filter info.mGameString server =
        some (s.answersTo stale filter info.mGameString d) := by
    intro d hd
    obtain ⟨server, hserver, hgame⟩ := (hmem d).mp hd
    refine ⟨server, hserver, ?_, (h.answersTo_iff hserver hgame).1⟩
    rw [addressOf, hserver, Option.map_some, Option.getD_some]
  have hsound : (Batches.empty : Batches IPAddress).Sound IPMessageAddressCount :=
    Batches.Sound.empty (by decide)
  have hhead : s.links.next none = l.head? := by
    cases l with
    | nil => exact (List.isChain_cons_cons.mp hring.row).1.1
    | cons d l => exact (List.isChain_cons_cons.mp hring.row).1.1
  obtain ⟨b, hb⟩ : ∃ b, b = ((l.filter (s.answersTo stale filter info.mGameString)).map
      s.addressOf).foldl (Batches.push IPMessageAddressCount) Batches.empty := ⟨_, rfl⟩
  have hitems : b.items =
      (l.filter (s.answersTo stale filter info.mGameString)).map s.addressOf := by
    rw [hb, Batches.items_foldl]
    rfl
  refine ⟨l.filter (s.answersTo stale filter info.mGameString), hnodup.filter _, ?_, l.length,
    b.finish.map fun batch => ⟨filter.queryId, batch⟩, ?_, ?_⟩
  · intro d
    rw [List.mem_filter, hmem]
    constructor
    · rintro ⟨⟨server, hserver, hgame⟩, hanswers⟩
      exact ⟨server, hserver, hgame, (h.answersTo_iff hserver hgame).2.mp hanswers⟩
    · rintro ⟨server, hserver, hgame, hmatches⟩
      exact ⟨⟨server, hserver, hgame⟩, (h.answersTo_iff hserver hgame).2.mpr hmatches⟩
  · intro fuel hfuel
    have hwalk : s.walkServers stale filter info.mGameString fuel (s.links.next none) [] [] =
        some (collected filter b) := by
      rw [hhead, hb]
      exact walkServers_eq (List.isChain_of_isChain_cons hring.row) hservers hsound hfuel
    rw [ServerDirectory.c2mQueryServers, hc, Option.bind_some]
    rw [hwalk, Option.map_some, collected, Batches.finish]
    by_cases hpending : b.pending = []
    · simp [hpending]
    · simp [hpending]
  · rw [← hitems]
    apply answered_collected
    rw [hb]
    exact hsound.foldl _

end queries

/-- A type that was made for the list, and that is not destroyed, has this name. -/
def LiveType (s : ServerDirectory κ) (k : TypeKind) (name : ℕ) : Prop :=
  ∃ o type, s.types.objects o = some type ∧ s.types.kind o = k ∧ type.mName = name

/-- A game server connects. -/
def firstServer : Action Bool :=
  .connect true ⟨1, 28005⟩ 7 (some ⟨500, 1, 0, 3, 8, 0, 4, 5⟩) 10 11

def oneServer : ServerDirectory Bool := (step start firstServer).getD start

/-- Any region, up to 64 players and 8 bots, and any types. -/
def everyServer : ServerFilter := ⟨3, 0xFFFFFFFF, 0, 64, 0, 8, 0, 0, 0⟩

end ServerDirectory

end TNL
