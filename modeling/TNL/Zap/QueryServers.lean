import TNL.Library.Weight
import Mathlib.Data.List.Count
import Mathlib.Order.Defs.PartialOrder
import Mathlib.Tactic.Common
import Mathlib.Tactic.SplitIfs

/-!
# The list of servers to join

The list has the servers that answered a broadcast and those that the master knows. Each of them is
pinged and then queried, some at a time, and again after a timeout. The loops over the list count
what is pending, and the nonce of a ping is also that of the queries after it. The columns that the
list is sorted by are not modelled: sorting is a permutation.
-/
namespace TNL
open Library

def MaxPendingPings : ℕ := 15
def MaxPendingQueries : ℕ := 10
def PingQueryTimeout : UInt32 := 1500
def PingQueryRetryCount : ℕ := 3
def MaxServerNameLen : ℕ := 20

inductive ServerState where
  | start
  | sentPing
  | receivedPing
  | sentQuery
  | receivedQuery
  deriving DecidableEq

structure ServerRef (ν η : Type) where
  state : ServerState
  id : UInt32
  pingTime : UInt32
  identityToken : UInt32
  lastSendTime : UInt32
  sendCount : ℕ
  isFromMaster : Bool
  dedicated : Bool
  passwordRequired : Bool
  sendNonce : ν
  serverName : List UInt8
  serverAddress : η
  playerCount : Int32
  maxPlayers : Int32
  deriving DecidableEq

inductive InfoPacket (ν : Type) where
  | ping (clientNonce : ν) (game : List UInt8)
  | pingResponse (clientNonce : ν) (token : UInt32)
  | query (theNonce : ν) (clientIdentityToken : UInt32)
  | queryResponse (theNonce : ν) (hostName : List UInt8) (playerCount maxPlayers : UInt32)
      (dedicated passwordRequired : Bool)
  deriving DecidableEq

def ZAP_GAME_STRING : List UInt8 :=
  ['Z', 'A', 'P', ' ', '1', '.', '5', '.', '0'].map Char.toUInt8

def internetServer : List UInt8 :=
  ['I', 'n', 't', 'e', 'r', 'n', 'e', 't', ' ', 'S', 'e', 'r', 'v', 'e', 'r'].map Char.toUInt8

def lanServer : List UInt8 :=
  ['L', 'A', 'N', ' ', 'S', 'e', 'r', 'v', 'e', 'r'].map Char.toUInt8

def pingTimedOutName : List UInt8 :=
  ['P', 'i', 'n', 'g', 'T', 'i', 'm', 'e', 'd', 'O', 'u', 't'].map Char.toUInt8

def queryTimedOutName : List UInt8 :=
  ['Q', 'u', 'e', 'r', 'y', 'T', 'i', 'm', 'e', 'd', 'O', 'u', 't'].map Char.toUInt8

namespace ServerRef

variable {ν η : Type}

section responses

variable [DecidableEq ν] [DecidableEq η]

/-- The response belongs to a ping that the entry has sent. -/
def awaitsPing (s : ServerRef ν η) (theAddress : η) (theNonce : ν) : Bool :=
  s.sendNonce = theNonce ∧ s.serverAddress = theAddress ∧ s.state = .sentPing

def gotPing (s : ServerRef ν η) (clientIdentityToken time : UInt32) : ServerRef ν η :=
  { s with
    pingTime := time - s.lastSendTime
    state := .receivedPing
    identityToken := clientIdentityToken }

def awaitsQuery (s : ServerRef ν η) (theAddress : η) (clientNonce : ν) : Bool :=
  s.sendNonce = clientNonce ∧ s.serverAddress = theAddress ∧ s.state = .sentQuery

def gotQuery (s : ServerRef ν η) (serverName : List UInt8)
    (playerCount maxPlayers : UInt32) (dedicated passwordRequired : Bool) : ServerRef ν η :=
  { s with
    playerCount := playerCount.toInt32
    maxPlayers := maxPlayers.toInt32
    dedicated
    passwordRequired
    serverName := serverName.take MaxServerNameLen
    state := .receivedQuery }

end responses

/-- The answer to what is pending has not come in time. -/
def pingExpired (time : UInt32) (s : ServerRef ν η) : Bool :=
  s.state = .sentPing ∧ PingQueryTimeout < time - s.lastSendTime

def queryExpired (time : UInt32) (s : ServerRef ν η) : Bool :=
  s.state = .sentQuery ∧ PingQueryTimeout < time - s.lastSendTime

def expire (time : UInt32) (s : ServerRef ν η) : ServerRef ν η :=
  if s.pingExpired time then { s with state := .start }
  else if s.queryExpired time then { s with state := .receivedPing }
  else s

def pinged (time : UInt32) (nonce : ν) (s : ServerRef ν η) : ServerRef ν η :=
  { s with
    sendCount := s.sendCount + 1
    state := .sentPing
    lastSendTime := time
    sendNonce := nonce }

def queried (time : UInt32) (s : ServerRef ν η) : ServerRef ν η :=
  { s with
    sendCount := s.sendCount + 1
    state := .sentQuery
    lastSendTime := time }

def pingTimedOut (s : ServerRef ν η) : ServerRef ν η :=
  { s with
    sendCount := s.sendCount + 1
    pingTime := 999
    serverName := pingTimedOutName
    playerCount := 0
    maxPlayers := 0
    state := .receivedQuery }

def queryTimedOut (s : ServerRef ν η) : ServerRef ν η :=
  { s with
    sendCount := s.sendCount + 1
    serverName := queryTimedOutName
    playerCount := 0
    maxPlayers := 0
    state := .receivedQuery }

def inState (state : ServerState) (s : ServerRef ν η) : Bool := s.state = state

/-- How many pings and queries may still be sent. -/
def left (s : ServerRef ν η) : ℕ := PingQueryRetryCount - s.sendCount

/-- How many tries are left until the entry is finished, the failing one included. -/
def unfinished (s : ServerRef ν η) : ℕ :=
  if s.state = .receivedQuery then 0 else PingQueryRetryCount + 1 - s.sendCount

def Tried (s : ServerRef ν η) : Prop :=
  s.state ≠ .receivedQuery → s.sendCount ≤ PingQueryRetryCount

end ServerRef

structure QueryServers (ν η : Type) where
  servers : List (ServerRef ν η)
  mNonce : ν
  pendingPings : ℕ
  pendingQueries : ℕ
  broadcastPingSendTime : UInt32
  lastUsedServerId : UInt32

namespace QueryServers

variable {ν η : Type}

/-- The broadcast is sent with the new nonce. -/
def onActivate (ui : QueryServers ν η) (nonce : ν) (time : UInt32) : QueryServers ν η :=
  { ui with
    servers := []
    pendingPings := 0
    pendingQueries := 0
    mNonce := nonce
    broadcastPingSendTime := time }

/-- `made` is what the memory of a new entry holds. -/
def addPingServer (ui : QueryServers ν η) (made : ServerRef ν η) (serverAddress : η) (nonce : ν) :
    QueryServers ν η :=
  { ui with
    lastUsedServerId := ui.lastUsedServerId + 1
    servers := ui.servers ++ [{ made with
      state := .start
      id := ui.lastUsedServerId + 1
      sendNonce := nonce
      serverAddress
      sendCount := 0
      pingTime := 9999
      playerCount := -1
      maxPlayers := -1
      isFromMaster := true
      serverName := internetServer }] }

def addPingServers (ui : QueryServers ν η) (made : ServerRef ν η) (ipList : List (η × ν)) :
    QueryServers ν η :=
  ipList.foldl (fun ui p => ui.addPingServer made p.1 p.2) ui

section responses

variable [DecidableEq ν] [DecidableEq η]

/-- The first entry that awaits the response gets it. -/
def pingLoop (theAddress : η) (theNonce : ν) (clientIdentityToken time : UInt32) :
    List (ServerRef ν η) → ℕ → List (ServerRef ν η) × ℕ
  | [], pings => ([], pings)
  | s :: ss, pings =>
    if s.awaitsPing theAddress theNonce then
      (s.gotPing clientIdentityToken time :: ss, pings - 1)
    else
      let r := pingLoop theAddress theNonce clientIdentityToken time ss pings
      (s :: r.1, r.2)

def gotPingResponse (ui : QueryServers ν η) (made : ServerRef ν η) (theAddress : η) (theNonce : ν)
    (clientIdentityToken time : UInt32) : QueryServers ν η :=
  if ui.mNonce = theNonce then
    if ui.servers.any fun s => s.sendNonce = theNonce ∧ s.serverAddress = theAddress then ui
    else
      { ui with
        lastUsedServerId := ui.lastUsedServerId + 1
        servers := ui.servers ++ [{ made with
          pingTime := time - ui.broadcastPingSendTime
          state := .receivedPing
          id := ui.lastUsedServerId + 1
          sendNonce := theNonce
          identityToken := clientIdentityToken
          serverAddress := theAddress
          sendCount := 0
          playerCount := -1
          maxPlayers := -1
          isFromMaster := false
          serverName := lanServer }] }
  else
    let r := pingLoop theAddress theNonce clientIdentityToken time ui.servers ui.pendingPings
    { ui with servers := r.1, pendingPings := r.2 }

/-- Every entry that awaits the response gets it. -/
def gotQueryResponse (ui : QueryServers ν η) (theAddress : η) (clientNonce : ν)
    (serverName : List UInt8) (playerCount maxPlayers : UInt32)
    (dedicated passwordRequired : Bool) : QueryServers ν η :=
  { ui with
    servers := ui.servers.map fun s =>
      if s.awaitsQuery theAddress clientNonce then
        s.gotQuery serverName playerCount maxPlayers dedicated passwordRequired
      else s
    pendingQueries := ui.pendingQueries -
      ui.servers.countP fun s => s.awaitsQuery theAddress clientNonce }

end responses

section idle

variable (time : UInt32)

def expire (ui : QueryServers ν η) : QueryServers ν η :=
  { ui with
    servers := ui.servers.map (ServerRef.expire time)
    pendingPings := ui.pendingPings - ui.servers.countP (ServerRef.pingExpired time)
    pendingQueries := ui.pendingQueries - ui.servers.countP (ServerRef.queryExpired time) }

/-- The loop over the entries in state `due`. What is sent to an entry depends on how many entries
the loop has passed, and the packet on the entry after that. -/
def sendDue (due : ServerState) (send : ℕ → ServerRef ν η → ServerRef ν η)
    (packet : ServerRef ν η → InfoPacket ν) (timedOut : ServerRef ν η → ServerRef ν η)
    (limit : ℕ) : ℕ → ℕ → List (ServerRef ν η) → List (ServerRef ν η) × ℕ × List (η × InfoPacket ν)
  | _, pending, [] => ([], pending, [])
  | i, pending, s :: ss =>
    if s.state = due then
      if PingQueryRetryCount < s.sendCount + 1 then
        let r := sendDue due send packet timedOut limit (i + 1) pending ss
        (timedOut s :: r.1, r.2)
      else
        let sent := ((send i s).serverAddress, packet (send i s))
        if limit ≤ pending + 1 then (send i s :: ss, pending + 1, [sent])
        else
          let r := sendDue due send packet timedOut limit (i + 1) (pending + 1) ss
          (send i s :: r.1, r.2.1, sent :: r.2.2)
    else
      let r := sendDue due send packet timedOut limit (i + 1) pending ss
      (s :: r.1, r.2)

/-- `random` gives the nonces. -/
def pingServers (random : ℕ → ν) (pendingPings : ℕ) (servers : List (ServerRef ν η)) :
    List (ServerRef ν η) × ℕ × List (η × InfoPacket ν) :=
  sendDue .start (fun i s => s.pinged time (random i)) (fun s => .ping s.sendNonce ZAP_GAME_STRING)
    ServerRef.pingTimedOut MaxPendingPings 0 pendingPings servers

def queryServers (pendingQueries : ℕ) (servers : List (ServerRef ν η)) :
    List (ServerRef ν η) × ℕ × List (η × InfoPacket ν) :=
  sendDue .receivedPing (fun _ s => s.queried time) (fun s => .query s.sendNonce s.identityToken)
    ServerRef.queryTimedOut MaxPendingQueries 0 pendingQueries servers

def idlePings (random : ℕ → ν) (ui : QueryServers ν η) :
    QueryServers ν η × List (η × InfoPacket ν) :=
  if ui.pendingPings < MaxPendingPings then
    let r := pingServers time random ui.pendingPings ui.servers
    ({ ui with servers := r.1, pendingPings := r.2.1 }, r.2.2)
  else (ui, [])

def idleQueries (ui : QueryServers ν η) : QueryServers ν η × List (η × InfoPacket ν) :=
  if ui.pendingPings = 0 ∧ ui.pendingQueries < MaxPendingQueries then
    let r := queryServers time ui.pendingQueries ui.servers
    ({ ui with servers := r.1, pendingQueries := r.2.1 }, r.2.2)
  else (ui, [])

/-- The new list, and what is sent to which servers. -/
def idle (random : ℕ → ν) (ui : QueryServers ν η) : QueryServers ν η × List (η × InfoPacket ν) :=
  let pinged := (ui.expire time).idlePings time random
  let queried := pinged.1.idleQueries time
  (queried.1, pinged.2 ++ queried.2)

end idle

section loops

variable {due sent : ServerState} {send : ℕ → ServerRef ν η → ServerRef ν η}
  {packet : ServerRef ν η → InfoPacket ν} {timedOut : ServerRef ν η → ServerRef ν η} {limit : ℕ}
  {l l' : List (ServerRef ν η)} {packets : List (η × InfoPacket ν)}

/-- What a loop makes of the entries, and the packets that it sends. An entry is kept if it is in
another state, or if the bound has been reached before it. -/
inductive Swept (due : ServerState) (send : ℕ → ServerRef ν η → ServerRef ν η)
    (packet : ServerRef ν η → InfoPacket ν) (timedOut : ServerRef ν η → ServerRef ν η) :
    List (ServerRef ν η) → List (ServerRef ν η) → List (η × InfoPacket ν) → Prop
  | nil : Swept due send packet timedOut [] [] []
  | keep (s : ServerRef ν η) {l l' packets} (h : Swept due send packet timedOut l l' packets) :
    Swept due send packet timedOut (s :: l) (s :: l') packets
  | send (i : ℕ) {s : ServerRef ν η} {l l' packets} (hdue : s.state = due)
    (hretry : s.sendCount < PingQueryRetryCount) (h : Swept due send packet timedOut l l' packets) :
    Swept due send packet timedOut (s :: l) (send i s :: l')
      (((send i s).serverAddress, packet (send i s)) :: packets)
  | timeOut {s : ServerRef ν η} {l l' packets} (hdue : s.state = due)
    (hretry : PingQueryRetryCount ≤ s.sendCount) (h : Swept due send packet timedOut l l' packets) :
    Swept due send packet timedOut (s :: l) (timedOut s :: l') packets

theorem Swept.refl (l : List (ServerRef ν η)) : Swept due send packet timedOut l l [] := by
  induction l with
  | nil => exact .nil
  | cons s ss ih => exact .keep s ih

theorem sendDue_swept (i pending : ℕ) (l : List (ServerRef ν η)) :
    Swept due send packet timedOut l (sendDue due send packet timedOut limit i pending l).1
      (sendDue due send packet timedOut limit i pending l).2.2 := by
  induction l generalizing i pending with
  | nil => exact .nil
  | cons s ss ih =>
    rw [sendDue]
    split_ifs with hdue hretry hlimit
    · exact .timeOut hdue (Nat.lt_succ_iff.mp hretry) (ih _ _)
    · exact .send i hdue (Nat.not_lt.mp hretry) (.refl ss)
    · exact .send i hdue (Nat.not_lt.mp hretry) (ih _ _)
    · exact .keep s (ih _ _)

/-- The counter counts the packets, and never exceeds the bound. -/
theorem sendDue_pending (i : ℕ) {pending : ℕ} (l : List (ServerRef ν η)) (h : pending < limit) :
    (sendDue due send packet timedOut limit i pending l).2.1 =
        pending + (sendDue due send packet timedOut limit i pending l).2.2.length ∧
      (sendDue due send packet timedOut limit i pending l).2.1 ≤ limit := by
  induction l generalizing i pending with
  | nil => exact ⟨rfl, Nat.le_of_lt h⟩
  | cons s ss ih =>
    rw [sendDue]
    split_ifs with hdue hretry hlimit
    · exact ih (i + 1) h
    · exact ⟨rfl, h⟩
    · obtain ⟨heq, hle⟩ := ih (i + 1) (Nat.not_le.mp hlimit)
      exact ⟨heq.trans (Nat.add_right_comm _ _ _), hle⟩
    · exact ih (i + 1) h

/-- How the functions of a loop change the state and the number of tries. -/
structure Tries (sent : ServerState) (send : ℕ → ServerRef ν η → ServerRef ν η)
    (timedOut : ServerRef ν η → ServerRef ν η) : Prop where
  send_state : ∀ i s, (send i s).state = sent
  send_count : ∀ i s, (send i s).sendCount = s.sendCount + 1
  timedOut_state : ∀ s, (timedOut s).state = .receivedQuery
  timedOut_count : ∀ s, (timedOut s).sendCount = s.sendCount + 1

theorem ping_tries (time : UInt32) (random : ℕ → ν) :
    Tries .sentPing (fun i (s : ServerRef ν η) => s.pinged time (random i))
      ServerRef.pingTimedOut :=
  ⟨fun _ _ => rfl, fun _ _ => rfl, fun _ => rfl, fun _ => rfl⟩

theorem query_tries (time : UInt32) :
    Tries .sentQuery (fun _ (s : ServerRef ν η) => s.queried time) ServerRef.queryTimedOut :=
  ⟨fun _ _ => rfl, fun _ _ => rfl, fun _ => rfl, fun _ => rfl⟩

namespace Swept

theorem countP_sent (tries : Tries sent send timedOut) (hdue : due ≠ sent)
    (hsent : sent ≠ .receivedQuery) (h : Swept due send packet timedOut l l' packets) :
    l'.countP (ServerRef.inState sent) = l.countP (ServerRef.inState sent) + packets.length := by
  induction h with
  | nil => rfl
  | keep s _ ih =>
    simp only [List.countP_cons, ih]
    omega
  | @send i s _ _ _ hs _ _ ih =>
    simp only [List.countP_cons, ih, ServerRef.inState, tries.send_state, hs, hdue,
      List.length_cons]
    simp
    omega
  | @timeOut s _ _ _ hs _ _ ih =>
    simp only [List.countP_cons, ih, ServerRef.inState, tries.timedOut_state, hs, hdue, hsent.symm]
    simp

theorem countP_other (state : ServerState) (tries : Tries sent send timedOut) (hdue : state ≠ due)
    (hsent : state ≠ sent) (hreceived : state ≠ .receivedQuery)
    (h : Swept due send packet timedOut l l' packets) :
    l'.countP (ServerRef.inState state) = l.countP (ServerRef.inState state) := by
  induction h with
  | nil => rfl
  | keep s _ ih => simp only [List.countP_cons, ih]
  | @send i s _ _ _ hs _ _ ih =>
    simp only [List.countP_cons, ih, ServerRef.inState, tries.send_state, hs, hdue.symm, hsent.symm]
  | @timeOut s _ _ _ hs _ _ ih =>
    simp only [List.countP_cons, ih, ServerRef.inState, tries.timedOut_state, hs, hdue.symm,
      hreceived.symm]

/-- Every packet takes a try from what is left. -/
theorem left_eq (tries : Tries sent send timedOut)
    (h : Swept due send packet timedOut l l' packets) :
    weight ServerRef.left l' + packets.length = weight ServerRef.left l := by
  induction h with
  | nil => rfl
  | keep s _ ih =>
    rw [weight_cons, weight_cons]
    omega
  | @send i s _ _ _ hs hretry _ ih =>
    rw [weight_cons, weight_cons, ServerRef.left, ServerRef.left, tries.send_count,
      List.length_cons]
    omega
  | @timeOut s _ _ _ hs hretry _ ih =>
    rw [weight_cons, weight_cons, ServerRef.left, ServerRef.left, tries.timedOut_count]
    omega

theorem tried (tries : Tries sent send timedOut)
    (h : Swept due send packet timedOut l l' packets) (hl : ∀ s ∈ l, s.Tried) :
    ∀ s ∈ l', s.Tried := by
  induction h with
  | nil => exact hl
  | keep s _ ih =>
    obtain ⟨hs, hl⟩ := List.forall_mem_cons.mp hl
    exact List.forall_mem_cons.mpr ⟨hs, ih hl⟩
  | @send i s _ _ _ _ hretry _ ih =>
    obtain ⟨-, hl⟩ := List.forall_mem_cons.mp hl
    refine List.forall_mem_cons.mpr ⟨fun _ => ?_, ih hl⟩
    rw [tries.send_count]
    exact hretry
  | @timeOut s _ _ _ _ _ _ ih =>
    obtain ⟨-, hl⟩ := List.forall_mem_cons.mp hl
    exact List.forall_mem_cons.mpr ⟨fun hne => absurd (tries.timedOut_state s) hne, ih hl⟩

theorem unfinished_le (tries : Tries sent send timedOut) (hdue : due ≠ .receivedQuery)
    (h : Swept due send packet timedOut l l' packets) :
    weight ServerRef.unfinished l' + packets.length ≤ weight ServerRef.unfinished l := by
  induction h with
  | nil => exact Nat.le_refl 0
  | keep s _ ih =>
    rw [weight_cons, weight_cons]
    omega
  | @send i s _ _ _ hs hretry _ ih =>
    rw [weight_cons, weight_cons, ServerRef.unfinished, ServerRef.unfinished, hs, if_neg hdue,
      tries.send_count, List.length_cons]
    split_ifs <;> omega
  | @timeOut s _ _ _ _ _ _ ih =>
    rw [weight_cons, weight_cons, ServerRef.unfinished, if_pos (tries.timedOut_state s)]
    omega

theorem length_eq (h : Swept due send packet timedOut l l' packets) : l'.length = l.length := by
  induction h with
  | nil => rfl
  | keep _ _ ih | send _ _ _ _ ih | timeOut _ _ _ ih => exact congrArg (· + 1) ih

theorem eq_self (h : Swept due send packet timedOut l l' packets)
    (hl : ∀ s ∈ l, s.state ≠ due) : l' = l := by
  induction h with
  | nil => rfl
  | keep s _ ih => exact congrArg _ (ih fun t ht => hl t (List.mem_cons_of_mem s ht))
  | send _ hdue _ _ _ | timeOut hdue _ _ _ => exact absurd hdue (hl _ List.mem_cons_self)

theorem mem (h : Swept due send packet timedOut l l' packets) {s' : ServerRef ν η}
    (hs' : s' ∈ l') :
    s' ∈ l ∨ (∃ s ∈ l, s.state = due ∧ ∃ i, s' = send i s ∧
        ((send i s).serverAddress, packet (send i s)) ∈ packets) ∨
      ∃ s ∈ l, s.state = due ∧ s' = timedOut s := by
  induction h with
  | nil => exact .inl hs'
  | keep s _ ih =>
    rcases List.mem_cons.mp hs' with rfl | hs'
    · exact .inl List.mem_cons_self
    · rcases ih hs' with hold | ⟨s, hs, hmade⟩ | ⟨s, hs, hmade⟩
      · exact .inl (List.mem_cons_of_mem _ hold)
      · exact .inr (.inl ⟨s, List.mem_cons_of_mem _ hs, hmade⟩)
      · exact .inr (.inr ⟨s, List.mem_cons_of_mem _ hs, hmade⟩)
  | send i hdue _ _ ih =>
    rcases List.mem_cons.mp hs' with rfl | hs'
    · exact .inr (.inl ⟨_, List.mem_cons_self, hdue, i, rfl, List.mem_cons_self⟩)
    · rcases ih hs' with hold | ⟨s, hs, hsdue, j, hmade, hsent⟩ | ⟨s, hs, hmade⟩
      · exact .inl (List.mem_cons_of_mem _ hold)
      · exact .inr (.inl ⟨s, List.mem_cons_of_mem _ hs, hsdue, j, hmade,
          List.mem_cons_of_mem _ hsent⟩)
      · exact .inr (.inr ⟨s, List.mem_cons_of_mem _ hs, hmade⟩)
  | timeOut hdue _ _ ih =>
    rcases List.mem_cons.mp hs' with rfl | hs'
    · exact .inr (.inr ⟨_, List.mem_cons_self, hdue, rfl⟩)
    · rcases ih hs' with hold | ⟨s, hs, hmade⟩ | ⟨s, hs, hmade⟩
      · exact .inl (List.mem_cons_of_mem _ hold)
      · exact .inr (.inl ⟨s, List.mem_cons_of_mem _ hs, hmade⟩)
      · exact .inr (.inr ⟨s, List.mem_cons_of_mem _ hs, hmade⟩)

theorem mem_packets (h : Swept due send packet timedOut l l' packets) {p : η × InfoPacket ν}
    (hp : p ∈ packets) :
    ∃ s ∈ l, s.state = due ∧ ∃ i, p = ((send i s).serverAddress, packet (send i s)) := by
  induction h with
  | nil => exact absurd hp List.not_mem_nil
  | keep s _ ih =>
    obtain ⟨s, hs, hsent⟩ := ih hp
    exact ⟨s, List.mem_cons_of_mem _ hs, hsent⟩
  | send i hdue _ _ ih =>
    rcases List.mem_cons.mp hp with rfl | hp
    · exact ⟨_, List.mem_cons_self, hdue, i, rfl⟩
    · obtain ⟨s, hs, hsent⟩ := ih hp
      exact ⟨s, List.mem_cons_of_mem _ hs, hsent⟩
  | timeOut _ _ _ ih =>
    obtain ⟨s, hs, hsent⟩ := ih hp
    exact ⟨s, List.mem_cons_of_mem _ hs, hsent⟩

end Swept

/-- The loop over the entries that are to be pinged. -/
abbrev PingsSwept (time : UInt32) (random : ℕ → ν) :
    List (ServerRef ν η) → List (ServerRef ν η) → List (η × InfoPacket ν) → Prop :=
  Swept .start (fun i s => s.pinged time (random i)) (fun s => .ping s.sendNonce ZAP_GAME_STRING)
    ServerRef.pingTimedOut

abbrev QueriesSwept (time : UInt32) :
    List (ServerRef ν η) → List (ServerRef ν η) → List (η × InfoPacket ν) → Prop :=
  Swept .receivedPing (fun _ s => s.queried time) (fun s => .query s.sendNonce s.identityToken)
    ServerRef.queryTimedOut

theorem idlePings_swept (time : UInt32) (random : ℕ → ν) (ui : QueryServers ν η) :
    PingsSwept time random ui.servers (ui.idlePings time random).1.servers
      (ui.idlePings time random).2 := by
  rw [idlePings]
  split_ifs with hpings
  · exact sendDue_swept 0 ui.pendingPings ui.servers
  · exact .refl _

theorem idleQueries_swept (time : UInt32) (ui : QueryServers ν η) :
    QueriesSwept time ui.servers (ui.idleQueries time).1.servers (ui.idleQueries time).2 := by
  rw [idleQueries]
  split_ifs with hqueries
  · exact sendDue_swept 0 ui.pendingQueries ui.servers
  · exact .refl _

/-- The first entry in state `due` is tried. -/
theorem sendDue_unfinished (tries : Tries sent send timedOut) (hdue : due ≠ .receivedQuery)
    (i pending : ℕ) (hl : ∀ s ∈ l, s.Tried) (h : ∃ s ∈ l, s.state = due) :
    weight ServerRef.unfinished (sendDue due send packet timedOut limit i pending l).1 <
      weight ServerRef.unfinished l := by
  induction l generalizing i pending with
  | nil => exact absurd h (by simp)
  | cons s ss ih =>
    obtain ⟨htried, hss⟩ := List.forall_mem_cons.mp hl
    rw [sendDue]
    split_ifs with hs hretry hlimit
    · have swept : Swept due send packet timedOut ss
          (sendDue due send packet timedOut limit (i + 1) pending ss).1 _ := sendDue_swept _ _ _
      have rest := swept.unfinished_le tries hdue
      have hcount := htried (hs ▸ hdue)
      rw [weight_cons, weight_cons, ServerRef.unfinished, ServerRef.unfinished, hs, if_neg hdue,
        if_pos (tries.timedOut_state s)]
      omega
    · rw [weight_cons, weight_cons, ServerRef.unfinished, ServerRef.unfinished, hs, if_neg hdue,
        tries.send_count]
      split_ifs <;> omega
    · have swept : Swept due send packet timedOut ss
          (sendDue due send packet timedOut limit (i + 1) (pending + 1) ss).1 _ :=
        sendDue_swept _ _ _
      have rest := swept.unfinished_le tries hdue
      rw [weight_cons, weight_cons, ServerRef.unfinished, ServerRef.unfinished, hs, if_neg hdue,
        tries.send_count]
      split_ifs <;> omega
    · have rest : ∃ t ∈ ss, t.state = due := by
        obtain ⟨t, ht, htdue⟩ := h
        rcases List.mem_cons.mp ht with rfl | ht
        · exact absurd htdue hs
        · exact ⟨t, ht, htdue⟩
      exact Nat.add_lt_add_left (ih (i + 1) pending hss rest) _

theorem pingServers_pending (time : UInt32) (random : ℕ → ν) {pendingPings : ℕ}
    (l : List (ServerRef ν η)) (h : pendingPings < MaxPendingPings) :
    (pingServers time random pendingPings l).2.1 =
        pendingPings + (pingServers time random pendingPings l).2.2.length ∧
      (pingServers time random pendingPings l).2.1 ≤ MaxPendingPings :=
  sendDue_pending 0 l h

theorem queryServers_pending (time : UInt32) {pendingQueries : ℕ} (l : List (ServerRef ν η))
    (h : pendingQueries < MaxPendingQueries) :
    (queryServers time pendingQueries l).2.1 =
        pendingQueries + (queryServers time pendingQueries l).2.2.length ∧
      (queryServers time pendingQueries l).2.1 ≤ MaxPendingQueries :=
  sendDue_pending 0 l h

theorem pingServers_unfinished (time : UInt32) (random : ℕ → ν) (pendingPings : ℕ)
    (hl : ∀ s ∈ l, s.Tried) (h : ∃ s ∈ l, s.state = .start) :
    weight ServerRef.unfinished (pingServers time random pendingPings l).1 <
      weight ServerRef.unfinished l :=
  sendDue_unfinished (ping_tries time random) (by decide) 0 pendingPings hl h

theorem queryServers_unfinished (time : UInt32) (pendingQueries : ℕ) (hl : ∀ s ∈ l, s.Tried)
    (h : ∃ s ∈ l, s.state = .receivedPing) :
    weight ServerRef.unfinished (queryServers time pendingQueries l).1 <
      weight ServerRef.unfinished l :=
  sendDue_unfinished (query_tries time) (by decide) 0 pendingQueries hl h

end loops

end QueryServers

end TNL
