import TNL.Library.Run
import TNL.Zap.QueryServersRuns
import Mathlib.Logic.Function.Basic

/-!
# Servers that are listed

The client pings and queries servers on an unreliable network: packets are lost, reordered and
duplicated. A server tells each client the token of its address and its nonce, and answers only
queries with the token. The settings of a server change while clients query it.
-/
namespace TNL
open Library

variable {ν η : Type} [DecidableEq ν] [DecidableEq η]

structure ServerSettings where
  hostName : List UInt8
  playerCount : UInt32
  maxPlayers : UInt32
  dedicated : Bool
  passwordRequired : Bool

/-- The packet that answers a packet. `computeClientIdentityToken` is that of the server. -/
def ServerSettings.handleInfoPacket (computeClientIdentityToken : η → ν → UInt32)
    (info : ServerSettings) (remoteAddress : η) : InfoPacket ν → Option (InfoPacket ν)
  | .ping clientNonce string =>
    if string ≠ ZAP_GAME_STRING then none
    else some (.pingResponse clientNonce (computeClientIdentityToken remoteAddress clientNonce))
  | .query theNonce clientIdentityToken =>
    if clientIdentityToken = computeClientIdentityToken remoteAddress theNonce then
      some (.queryResponse theNonce (info.hostName.take MaxServerNameLen) info.playerCount
        info.maxPlayers info.dedicated info.passwordRequired)
    else none
  | .pingResponse .. | .queryResponse .. => none

/-- What the client does with a packet. -/
def QueryServers.handleInfoPacket (made : ServerRef ν η) (ui : QueryServers ν η) (time : UInt32)
    (remoteAddress : η) : InfoPacket ν → QueryServers ν η
  | .pingResponse theNonce clientIdentityToken =>
    ui.gotPingResponse made remoteAddress theNonce clientIdentityToken time
  | .queryResponse theNonce nameString playerCount maxPlayers dedicated passwordRequired =>
    ui.gotQueryResponse remoteAddress theNonce nameString playerCount maxPlayers dedicated
      passwordRequired
  | .ping .. | .query .. => ui

/-- `sent` is what the client has sent to which servers, `answers` what servers have sent to it, and
`had` all the settings that the servers have had. -/
structure Lobby (ν η : Type) where
  client : QueryServers ν η
  info : η → ServerSettings
  had : List (η × ServerSettings)
  sent : List (η × InfoPacket ν)
  broadcast : List (InfoPacket ν)
  answers : List (η × InfoPacket ν)

namespace Lobby

inductive Action (ν η : Type) where
  | onActivate (nonce : ν) (time : UInt32)
  | addPingServers (ipList : List (η × ν))
  | idle (time : UInt32) (random : ℕ → ν)
  | joinSelected
  | configure (server : η) (info : ServerSettings)
  | serverReceives (server : η) (packet : InfoPacket ν)
  | clientReceives (server : η) (packet : InfoPacket ν) (time : UInt32)

section step

variable (made : ServerRef ν η) (me : η) (computeClientIdentityToken : η → η → ν → UInt32)

/-- The client is at `me`, and `computeClientIdentityToken` has the tokens of each server. -/
def step (s : Lobby ν η) : Action ν η → Option (Lobby ν η)
  | .onActivate nonce time => some { s with
      client := s.client.onActivate nonce time
      broadcast := .ping nonce ZAP_GAME_STRING :: s.broadcast }
  | .addPingServers ipList => some { s with client := s.client.addPingServers made ipList }
  | .idle time random => some { s with
      client := (s.client.idle time random).1
      sent := (s.client.idle time random).2 ++ s.sent }
  | .joinSelected => some { s with client := { s.client with servers := [] } }
  | .configure server info => some { s with
      info := Function.update s.info server info
      had := (server, info) :: s.had }
  | .serverReceives server packet =>
    if (server, packet) ∈ s.sent ∨ packet ∈ s.broadcast then
      match (s.info server).handleInfoPacket (computeClientIdentityToken server) me packet with
      | some answer => some { s with
          had := (server, s.info server) :: s.had
          answers := (server, answer) :: s.answers }
      | none => some s
    else none
  | .clientReceives server packet time =>
    if (server, packet) ∈ s.answers then
      some { s with client := s.client.handleInfoPacket made time server packet }
    else none

end step

/-- Nothing has been sent, and nothing is listed. -/
structure Fresh (s : Lobby ν η) : Prop where
  servers_eq : s.client.servers = []
  sent_eq : s.sent = []
  broadcast_eq : s.broadcast = []
  answers_eq : s.answers = []

end Lobby

/-- The entry shows that its server has not answered. -/
def ServerRef.TimedOut (s : ServerRef ν η) : Prop :=
  (s.serverName = pingTimedOutName ∨ s.serverName = queryTimedOutName) ∧
    s.playerCount = 0 ∧ s.maxPlayers = 0

structure ServerRef.Shows (s : ServerRef ν η) (info : ServerSettings) : Prop where
  serverName_eq : s.serverName = info.hostName.take MaxServerNameLen
  playerCount_eq : s.playerCount = info.playerCount.toInt32
  maxPlayers_eq : s.maxPlayers = info.maxPlayers.toInt32
  dedicated_eq : s.dedicated = info.dedicated
  passwordRequired_eq : s.passwordRequired = info.passwordRequired

namespace Lobby

section agreement

variable {made : ServerRef ν η} {me : η} {computeClientIdentityToken : η → η → ν → UInt32}
  {s t : Lobby ν η}

/-- An entry that is to be queried has the token of its server, and one that is finished shows
settings that its server has had. -/
structure Entry (me : η) (computeClientIdentityToken : η → η → ν → UInt32)
    (had : List (η × ServerSettings)) (s : ServerRef ν η) : Prop where
  token_eq : s.state = .receivedPing ∨ s.state = .sentQuery →
    s.identityToken = computeClientIdentityToken s.serverAddress me s.sendNonce
  shows : s.state = .receivedQuery →
    s.TimedOut ∨ ∃ info, (s.serverAddress, info) ∈ had ∧ s.Shows info

/-- What a server has sent is what it tells this client. -/
def Told (me : η) (computeClientIdentityToken : η → η → ν → UInt32)
    (had : List (η × ServerSettings)) : η × InfoPacket ν → Prop
  | (server, .pingResponse clientNonce token) =>
    token = computeClientIdentityToken server me clientNonce
  | (server, .queryResponse _ name playerCount maxPlayers dedicated passwordRequired) =>
    ∃ info, (server, info) ∈ had ∧ name = info.hostName.take MaxServerNameLen ∧
      playerCount = info.playerCount ∧ maxPlayers = info.maxPlayers ∧
      dedicated = info.dedicated ∧ passwordRequired = info.passwordRequired
  | _ => True

/-- A server that gets the packet answers it. -/
def Answered (me : η) (computeClientIdentityToken : η → η → ν → UInt32) : η × InfoPacket ν → Prop
  | (_, .ping _ string) => string = ZAP_GAME_STRING
  | (server, .query theNonce token) => token = computeClientIdentityToken server me theNonce
  | _ => False

structure Agrees (me : η) (computeClientIdentityToken : η → η → ν → UInt32) (s : Lobby ν η) :
    Prop where
  entries : ∀ e ∈ s.client.servers, Entry me computeClientIdentityToken s.had e
  told : ∀ p ∈ s.answers, Told me computeClientIdentityToken s.had p
  answered : ∀ p ∈ s.sent, Answered me computeClientIdentityToken p

omit [DecidableEq ν] [DecidableEq η] in
theorem Entry.mono {had had' : List (η × ServerSettings)} {e : ServerRef ν η}
    (h : Entry me computeClientIdentityToken had e) (hsub : had ⊆ had') :
    Entry me computeClientIdentityToken had' e :=
  ⟨h.token_eq, fun hstate => (h.shows hstate).imp_right fun ⟨info, hinfo, hshows⟩ =>
    ⟨info, hsub hinfo, hshows⟩⟩

omit [DecidableEq ν] [DecidableEq η] in
theorem Told.mono {had had' : List (η × ServerSettings)} {p : η × InfoPacket ν}
    (h : Told me computeClientIdentityToken had p) (hsub : had ⊆ had') :
    Told me computeClientIdentityToken had' p := by
  obtain ⟨server, packet⟩ := p
  cases packet with
  | ping | query => trivial
  | pingResponse => exact h
  | queryResponse =>
    obtain ⟨info, hinfo, hsame⟩ := h
    exact ⟨info, hsub hinfo, hsame⟩

omit [DecidableEq ν] [DecidableEq η] in
/-- What a server answers. -/
theorem handleInfoPacket_told {info : ServerSettings} {had : List (η × ServerSettings)} {server : η}
    {packet answer : InfoPacket ν} (hinfo : (server, info) ∈ had)
    (h : info.handleInfoPacket (computeClientIdentityToken server) me packet = some answer) :
    Told me computeClientIdentityToken had (server, answer) := by
  cases packet with
  | ping clientNonce string =>
    simp only [ServerSettings.handleInfoPacket, Option.ite_none_left_eq_some] at h
    obtain rfl := Option.some.inj h.2
    rfl
  | query theNonce token =>
    simp only [ServerSettings.handleInfoPacket, Option.ite_none_right_eq_some] at h
    obtain rfl := Option.some.inj h.2
    exact ⟨info, hinfo, rfl, rfl, rfl, rfl, rfl⟩
  | pingResponse | queryResponse => exact absurd h (by simp [ServerSettings.handleInfoPacket])

omit [DecidableEq ν] [DecidableEq η] in
theorem addPingServers_entries {ui : QueryServers ν η} {had : List (η × ServerSettings)}
    (h : ∀ e ∈ ui.servers, Entry me computeClientIdentityToken had e) (ipList : List (η × ν)) :
    ∀ e ∈ (ui.addPingServers made ipList).servers, Entry me computeClientIdentityToken had e := by
  unfold QueryServers.addPingServers
  induction ipList generalizing ui with
  | nil => exact h
  | cons p ps ih =>
    refine ih fun e he => ?_
    rcases List.mem_append.mp he with he | he
    · exact h e he
    · rw [List.mem_singleton.mp he]
      exact ⟨fun hstate => by simp at hstate, fun hstate => by simp at hstate⟩

theorem handleInfoPacket_entries {ui : QueryServers ν η} {had : List (η × ServerSettings)}
    {server : η} {packet : InfoPacket ν} {time : UInt32}
    (h : ∀ e ∈ ui.servers, Entry me computeClientIdentityToken had e)
    (htold : Told me computeClientIdentityToken had (server, packet)) :
    ∀ e ∈ (ui.handleInfoPacket made time server packet).servers,
      Entry me computeClientIdentityToken had e := by
  cases packet with
  | ping | query => exact h
  | pingResponse theNonce token =>
    simp only [Told] at htold
    simp only [QueryServers.handleInfoPacket]
    rcases QueryServers.gotPingResponse_cases made server theNonce token time ui with
      heq | ⟨-, e, id, hstate, -, hnonce, haddress, htoken, heq⟩ | ⟨pre, e, post, hservers, he, heq⟩
    · rwa [heq]
    · rw [heq]
      intro f hf
      rcases List.mem_append.mp hf with hf | hf
      · exact h f hf
      · rw [List.mem_singleton.mp hf]
        exact ⟨fun _ => by rw [htoken, hnonce, haddress, htold], fun hne => by simp [hstate] at hne⟩
    · simp only [ServerRef.awaitsPing, decide_eq_true_eq] at he
      rw [heq]
      intro f hf
      rcases List.mem_append.mp hf with hf | hf
      · exact h f (hservers ▸ List.mem_append_left _ hf)
      rcases List.mem_cons.mp hf with rfl | hf
      · refine ⟨fun _ => ?_, fun hne => by simp [ServerRef.gotPing] at hne⟩
        exact htold.trans (by rw [ServerRef.gotPing, he.1, he.2.1])
      · exact h f (hservers ▸ List.mem_append_right _ (List.mem_cons_of_mem _ hf))
  | queryResponse theNonce name playerCount maxPlayers dedicated passwordRequired =>
    obtain ⟨info, hinfo, hname, hcount, hmax, hdedicated, hpassword⟩ := htold
    intro f hf
    obtain ⟨e, he, rfl⟩ := List.mem_map.mp hf
    split_ifs with hawaits
    · simp only [ServerRef.awaitsQuery, decide_eq_true_eq] at hawaits
      refine ⟨fun hne => by simp [ServerRef.gotQuery] at hne, fun _ => .inr ⟨info, ?_, ?_⟩⟩
      · rw [ServerRef.gotQuery, hawaits.2.1]
        exact hinfo
      · refine ⟨?_, congrArg _ hcount, congrArg _ hmax, hdedicated, hpassword⟩
        rw [ServerRef.gotQuery, hname, List.take_take, Nat.min_self]
    · exact h e he

omit [DecidableEq ν] [DecidableEq η] in
theorem expire_entries {ui : QueryServers ν η} {had : List (η × ServerSettings)} (time : UInt32)
    (h : ∀ e ∈ ui.servers, Entry me computeClientIdentityToken had e) :
    ∀ e ∈ (ui.expire time).servers, Entry me computeClientIdentityToken had e := by
  intro f hf
  obtain ⟨e, he, rfl⟩ := List.mem_map.mp hf
  rcases QueryServers.expire_cases time e with
    ⟨-, -, -, heq⟩ | ⟨hstate, -, -, heq⟩ | ⟨-, -, heq⟩
  · rw [heq]
    exact ⟨fun hne => by simp at hne, fun hne => by simp at hne⟩
  · rw [heq]
    exact ⟨fun _ => (h e he).token_eq (.inr hstate), fun hne => by simp at hne⟩
  · rw [heq]
    exact h e he

omit [DecidableEq ν] [DecidableEq η] in
theorem idlePings_entries {ui : QueryServers ν η} {had : List (η × ServerSettings)}
    (time : UInt32) (random : ℕ → ν)
    (h : ∀ e ∈ ui.servers, Entry me computeClientIdentityToken had e) :
    (∀ e ∈ (ui.idlePings time random).1.servers, Entry me computeClientIdentityToken had e) ∧
      ∀ p ∈ (ui.idlePings time random).2, Answered me computeClientIdentityToken p := by
  have swept := QueryServers.idlePings_swept time random ui
  constructor
  · intro f hf
    rcases swept.mem hf with hf | ⟨e, -, -, i, rfl, -⟩ | ⟨e, -, -, rfl⟩
    · exact h f hf
    · exact ⟨fun hne => by simp [ServerRef.pinged] at hne,
        fun hne => by simp [ServerRef.pinged] at hne⟩
    · exact ⟨fun hne => by simp [ServerRef.pingTimedOut] at hne,
        fun _ => .inl ⟨.inl rfl, rfl, rfl⟩⟩
  · intro p hp
    obtain ⟨e, -, -, i, rfl⟩ := swept.mem_packets hp
    rfl

omit [DecidableEq ν] [DecidableEq η] in
theorem idleQueries_entries {ui : QueryServers ν η} {had : List (η × ServerSettings)}
    (time : UInt32) (h : ∀ e ∈ ui.servers, Entry me computeClientIdentityToken had e) :
    (∀ e ∈ (ui.idleQueries time).1.servers, Entry me computeClientIdentityToken had e) ∧
      ∀ p ∈ (ui.idleQueries time).2, Answered me computeClientIdentityToken p := by
  have swept := QueryServers.idleQueries_swept time ui
  constructor
  · intro f hf
    rcases swept.mem hf with hf | ⟨e, he, hstate, i, rfl, -⟩ | ⟨e, -, -, rfl⟩
    · exact h f hf
    · exact ⟨fun _ => (h e he).token_eq (.inl hstate),
        fun hne => by simp [ServerRef.queried] at hne⟩
    · exact ⟨fun hne => by simp [ServerRef.queryTimedOut] at hne,
        fun _ => .inl ⟨.inr rfl, rfl, rfl⟩⟩
  · intro p hp
    obtain ⟨e, he, hstate, i, rfl⟩ := swept.mem_packets hp
    exact (h e he).token_eq (.inl hstate)

theorem step_agrees {action : Action ν η} (h : Agrees me computeClientIdentityToken s)
    (taken : step made me computeClientIdentityToken s action = some t) :
    Agrees me computeClientIdentityToken t := by
  cases action with
  | onActivate nonce time =>
    obtain rfl := Option.some.inj taken
    exact ⟨fun _ he => absurd he List.not_mem_nil, h.told, h.answered⟩
  | addPingServers ipList =>
    obtain rfl := Option.some.inj taken
    exact ⟨addPingServers_entries h.entries ipList, h.told, h.answered⟩
  | idle time random =>
    obtain rfl := Option.some.inj taken
    obtain ⟨hpinged, hpings⟩ := idlePings_entries time random (expire_entries time h.entries)
    obtain ⟨hqueried, hqueries⟩ := idleQueries_entries time hpinged
    refine ⟨hqueried, h.told, fun p hp => ?_⟩
    rcases List.mem_append.mp hp with hp | hp
    · rcases List.mem_append.mp hp with hp | hp
      · exact hpings p hp
      · exact hqueries p hp
    · exact h.answered p hp
  | joinSelected =>
    obtain rfl := Option.some.inj taken
    exact ⟨fun _ he => absurd he List.not_mem_nil, h.told, h.answered⟩
  | configure server info =>
    obtain rfl := Option.some.inj taken
    exact ⟨fun e he => (h.entries e he).mono (List.subset_cons_self _ _),
      fun p hp => (h.told p hp).mono (List.subset_cons_self _ _), h.answered⟩
  | serverReceives server packet =>
    simp only [step, Option.ite_none_right_eq_some] at taken
    obtain ⟨-, taken⟩ := taken
    cases hanswer : (s.info server).handleInfoPacket (computeClientIdentityToken server) me packet
      with
    | none =>
      rw [hanswer] at taken
      obtain rfl := Option.some.inj taken
      exact h
    | some answer =>
      rw [hanswer] at taken
      obtain rfl := Option.some.inj taken
      refine ⟨fun e he => (h.entries e he).mono (List.subset_cons_self _ _), fun p hp => ?_,
        h.answered⟩
      rcases List.mem_cons.mp hp with rfl | hp
      · exact handleInfoPacket_told List.mem_cons_self hanswer
      · exact (h.told p hp).mono (List.subset_cons_self _ _)
  | clientReceives server packet time =>
    simp only [step, Option.ite_none_right_eq_some] at taken
    obtain ⟨hmem, taken⟩ := taken
    obtain rfl := Option.some.inj taken
    exact ⟨handleInfoPacket_entries h.entries (h.told _ hmem), h.told, h.answered⟩

/-- Whatever the network does, an entry that is finished shows settings that its server has had, or
that the server has not answered. Every packet that is sent to a server is answered by it, if it
gets there. -/
theorem lobby_agrees {actions : List (Action ν η)} (hfresh : Fresh s)
    (h : Run (step made me computeClientIdentityToken) (fun _ _ => True) s actions t) :
    (∀ e ∈ t.client.servers, e.state = .receivedQuery →
        e.TimedOut ∨ ∃ info, (e.serverAddress, info) ∈ t.had ∧ e.Shows info) ∧
      ∀ p ∈ t.sent, ∀ info : ServerSettings,
        (info.handleInfoPacket (computeClientIdentityToken p.1) me p.2).isSome := by
  have start : Agrees me computeClientIdentityToken s :=
    ⟨fun e he => absurd he (hfresh.servers_eq ▸ List.not_mem_nil),
      fun p hp => absurd hp (hfresh.answers_eq ▸ List.not_mem_nil),
      fun p hp => absurd hp (hfresh.sent_eq ▸ List.not_mem_nil)⟩
  have agrees := h.invariant (fun s a t hs _ taken => step_agrees hs taken) start
  refine ⟨fun e he => (agrees.entries e he).shows, fun p hp info => ?_⟩
  obtain ⟨server, packet⟩ := p
  have hanswered := agrees.answered _ hp
  cases packet with
  | ping clientNonce string =>
    simp only [Answered] at hanswered
    simp [ServerSettings.handleInfoPacket, hanswered]
  | query theNonce token =>
    simp only [Answered] at hanswered
    simp [ServerSettings.handleInfoPacket, hanswered]
  | pingResponse | queryResponse => exact absurd hanswered id

/-- A server that is pinged and queried. -/
theorem lobby_agrees_answered :
    let made : ServerRef ℕ ℕ := ⟨.start, 0, 0, 0, 0, 0, false, false, false, 0, [], 0, 0, 0⟩
    let token := fun server client nonce : ℕ => UInt32.ofNat (server + client + nonce)
    let s : Lobby ℕ ℕ :=
      ⟨⟨[], 0, 0, 0, 0, 0⟩, fun _ => ⟨[90], 3, 8, true, false⟩, [], [], [], []⟩
    ∃ t, exec (step made 4 token) s [.addPingServers [(7, 1)], .idle 0 fun i => i + 20,
        .serverReceives 7 (.ping 20 ZAP_GAME_STRING), .clientReceives 7 (.pingResponse 20 31) 9,
        .idle 10 fun i => i, .serverReceives 7 (.query 20 31),
        .clientReceives 7 (.queryResponse 20 [90] 3 8 true false) 15] = some t ∧
      (∀ e ∈ t.client.servers, e.state = .receivedQuery →
        e.TimedOut ∨ ∃ info, (e.serverAddress, info) ∈ t.had ∧ e.Shows info) ∧
      ∀ p ∈ t.sent, ∀ info : ServerSettings,
        (info.handleInfoPacket (token p.1) 4 p.2).isSome := by
  intro made token s
  obtain ⟨t, ht⟩ := Option.isSome_iff_exists.mp (by decide +kernel :
    (exec (step made 4 token) s [.addPingServers [(7, 1)], .idle 0 fun i => i + 20,
      .serverReceives 7 (.ping 20 ZAP_GAME_STRING), .clientReceives 7 (.pingResponse 20 31) 9,
      .idle 10 fun i => i, .serverReceives 7 (.query 20 31),
      .clientReceives 7 (.queryResponse 20 [90] 3 8 true false) 15]).isSome = true)
  exact ⟨t, ht, lobby_agrees ⟨rfl, rfl, rfl, rfl⟩ (Run.of_exec ht)⟩

end agreement

end Lobby

end TNL
