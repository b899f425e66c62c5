import TNL.Zap.QueryServers
import Mathlib.Data.List.Forall2

/-!
# Searching for servers

While the list is open, servers are added to it, responses come in any order, and the list is idle
at some times. Nothing is assumed of the responses here. The counters count the entries that are
pending, and every entry is finished after some timeouts, whatever comes.
-/
namespace TNL
open Library

namespace QueryServers

variable {ν η : Type} [DecidableEq ν] [DecidableEq η]

inductive Input (ν η : Type) where
  | addPingServers (ipList : List (η × ν))
  | pingResponse (theAddress : η) (theNonce : ν) (clientIdentityToken time : UInt32)
  | queryResponse (theAddress : η) (clientNonce : ν) (serverName : List UInt8)
      (playerCount maxPlayers : UInt32) (dedicated passwordRequired : Bool)
  | idle (time : UInt32) (random : ℕ → ν)

variable {made : ServerRef ν η}

/-- The list after the input, and what is sent. -/
def step (made : ServerRef ν η) (ui : QueryServers ν η) :
    Input ν η → QueryServers ν η × List (η × InfoPacket ν)
  | .addPingServers ipList => (ui.addPingServers made ipList, [])
  | .pingResponse theAddress theNonce clientIdentityToken time =>
    (ui.gotPingResponse made theAddress theNonce clientIdentityToken time, [])
  | .queryResponse theAddress clientNonce serverName playerCount maxPlayers dedicated
      passwordRequired =>
    (ui.gotQueryResponse theAddress clientNonce serverName playerCount maxPlayers dedicated
      passwordRequired, [])
  | .idle time random => ui.idle time random

def run (made : ServerRef ν η) :
    QueryServers ν η → List (Input ν η) → QueryServers ν η × List (η × InfoPacket ν)
  | ui, [] => (ui, [])
  | ui, input :: inputs =>
    let r := ui.step made input
    let rest := run made r.1 inputs
    (rest.1, r.2 ++ rest.2)

structure Counted (ui : QueryServers ν η) : Prop where
  pings_eq : ui.pendingPings = ui.servers.countP (ServerRef.inState .sentPing)
  queries_eq : ui.pendingQueries = ui.servers.countP (ServerRef.inState .sentQuery)
  pings_le : ui.pendingPings ≤ MaxPendingPings
  queries_le : ui.pendingQueries ≤ MaxPendingQueries
  tried : ∀ s ∈ ui.servers, s.Tried

omit [DecidableEq ν] [DecidableEq η] in
theorem onActivate_counted (ui : QueryServers ν η) (nonce : ν) (time : UInt32) :
    Counted (ui.onActivate nonce time) :=
  ⟨rfl, rfl, Nat.zero_le _, Nat.zero_le _, fun _ hs => absurd hs List.not_mem_nil⟩

section steps

variable {ui : QueryServers ν η} {theAddress : η} {theNonce : ν} {token time : UInt32}
  {random : ℕ → ν}

omit [DecidableEq ν] [DecidableEq η] in
theorem expire_cases (time : UInt32) (s : ServerRef ν η) :
    (s.state = .sentPing ∧ s.pingExpired time = true ∧ s.queryExpired time = false ∧
        s.expire time = { s with state := .start }) ∨
      (s.state = .sentQuery ∧ s.pingExpired time = false ∧ s.queryExpired time = true ∧
        s.expire time = { s with state := .receivedPing }) ∨
      (s.pingExpired time = false ∧ s.queryExpired time = false ∧ s.expire time = s) := by
  unfold ServerRef.expire
  split_ifs with hping hquery
  · have hstate : s.state = .sentPing := by simp_all [ServerRef.pingExpired]
    exact .inl ⟨hstate, hping, by simp [ServerRef.queryExpired, hstate], rfl⟩
  · have hstate : s.state = .sentQuery := by simp_all [ServerRef.queryExpired]
    exact .inr (.inl ⟨hstate, Bool.eq_false_iff.mpr hping, hquery, rfl⟩)
  · exact .inr (.inr ⟨Bool.eq_false_iff.mpr hping, Bool.eq_false_iff.mpr hquery, rfl⟩)

/-- At most one entry gets the response. -/
theorem pingLoop_cases (theAddress : η) (theNonce : ν) (token time : UInt32)
    (l : List (ServerRef ν η)) (pings : ℕ) :
    pingLoop theAddress theNonce token time l pings = (l, pings) ∨
      ∃ pre s post, l = pre ++ s :: post ∧ s.awaitsPing theAddress theNonce ∧
        pingLoop theAddress theNonce token time l pings =
          (pre ++ s.gotPing token time :: post, pings - 1) := by
  induction l with
  | nil => exact .inl rfl
  | cons s ss ih =>
    rw [pingLoop]
    split_ifs with hs
    · exact .inr ⟨[], s, ss, rfl, hs, rfl⟩
    · rcases ih with heq | ⟨pre, t, post, hss, ht, heq⟩
      · exact .inl (by rw [heq])
      · exact .inr ⟨s :: pre, t, post, by rw [hss]; rfl, ht, by rw [heq]; rfl⟩

/-- What a response to a ping does. -/
theorem gotPingResponse_cases (made : ServerRef ν η) (theAddress : η) (theNonce : ν)
    (token time : UInt32) (ui : QueryServers ν η) :
    ui.gotPingResponse made theAddress theNonce token time = ui ∨
      (ui.mNonce = theNonce ∧ ∃ s : ServerRef ν η, ∃ lastUsedServerId, s.state = .receivedPing ∧
        s.sendCount = 0 ∧ s.sendNonce = theNonce ∧ s.serverAddress = theAddress ∧
        s.identityToken = token ∧ ui.gotPingResponse made theAddress theNonce token time =
          { ui with servers := ui.servers ++ [s], lastUsedServerId }) ∨
      ∃ pre s post, ui.servers = pre ++ s :: post ∧ s.awaitsPing theAddress theNonce ∧
        ui.gotPingResponse made theAddress theNonce token time =
          { ui with servers := pre ++ s.gotPing token time :: post,
                    pendingPings := ui.pendingPings - 1 } := by
  unfold gotPingResponse
  split_ifs with hnonce hold
  · exact .inl rfl
  · exact .inr (.inl ⟨hnonce, _, _, rfl, rfl, rfl, rfl, rfl, rfl⟩)
  · rcases pingLoop_cases theAddress theNonce token time ui.servers ui.pendingPings with
      heq | ⟨pre, s, post, hservers, hs, heq⟩
    · exact .inl (by rw [heq])
    · exact .inr (.inr ⟨pre, s, post, hservers, hs, by rw [heq]⟩)

omit [DecidableEq ν] [DecidableEq η] in
/-- An entry that is not pending changes no counter. -/
theorem Counted.append {s : ServerRef ν η} (h : Counted ui) (lastUsedServerId : UInt32)
    (hping : s.state ≠ .sentPing) (hquery : s.state ≠ .sentQuery)
    (htried : s.sendCount ≤ PingQueryRetryCount) :
    Counted { ui with servers := ui.servers ++ [s], lastUsedServerId } where
  pings_eq := by
    rw [List.countP_append, ← h.pings_eq]
    simp [ServerRef.inState, hping]
  queries_eq := by
    rw [List.countP_append, ← h.queries_eq]
    simp [ServerRef.inState, hquery]
  pings_le := h.pings_le
  queries_le := h.queries_le
  tried := by
    intro t ht
    rcases List.mem_append.mp ht with ht | ht
    · exact h.tried t ht
    · rw [List.mem_singleton.mp ht]
      exact fun _ => htried

omit [DecidableEq ν] [DecidableEq η] in
theorem addPingServers_counted (h : Counted ui) (ipList : List (η × ν)) :
    Counted (ui.addPingServers made ipList) := by
  unfold addPingServers
  induction ipList generalizing ui with
  | nil => exact h
  | cons p ps ih => exact ih (h.append _ (by simp) (by simp) (Nat.zero_le _))

theorem gotPingResponse_counted (h : Counted ui) :
    Counted (ui.gotPingResponse made theAddress theNonce token time) := by
  rcases gotPingResponse_cases made theAddress theNonce token time ui with
    heq | ⟨-, s, id, hs, hcount, -, -, -, heq⟩ | ⟨pre, s, post, hservers, hs, heq⟩
  · rwa [heq]
  · rw [heq]
    exact h.append id (by simp [hs]) (by simp [hs]) (hcount ▸ Nat.zero_le _)
  · obtain ⟨hpings, hqueries, hpingsLe, hqueriesLe, htried⟩ := h
    simp only [ServerRef.awaitsPing, decide_eq_true_eq] at hs
    rw [hservers] at hpings hqueries htried
    rw [heq]
    refine ⟨?_, ?_, ?_, hqueriesLe, fun t ht => ?_⟩
    · simp only [List.countP_append, List.countP_cons, ServerRef.inState, ServerRef.gotPing, hs.2.2]
        at hpings ⊢
      simp at hpings ⊢
      omega
    · simp only [List.countP_append, List.countP_cons, ServerRef.inState, ServerRef.gotPing, hs.2.2]
        at hqueries ⊢
      simpa using hqueries
    · exact Nat.le_trans (Nat.sub_le _ _) hpingsLe
    · rcases List.mem_append.mp ht with ht | ht
      · exact htried t (List.mem_append_left _ ht)
      rcases List.mem_cons.mp ht with rfl | ht
      · intro _
        exact htried s (by simp) (by simp [hs.2.2])
      · exact htried t (by simp [ht])

theorem gotQueryResponse_counted {serverName : List UInt8} {playerCount maxPlayers : UInt32}
    {dedicated passwordRequired : Bool} (h : Counted ui) :
    Counted (ui.gotQueryResponse theAddress theNonce serverName playerCount maxPlayers dedicated
      passwordRequired) := by
  obtain ⟨hpings, hqueries, hpingsLe, hqueriesLe, htried⟩ := h
  have pings := countP_map_add (p := ServerRef.inState .sentPing) (q := fun _ => false)
    (r := ServerRef.inState .sentPing)
    (f := fun s => if s.awaitsQuery theAddress theNonce then
      s.gotQuery serverName playerCount maxPlayers dedicated passwordRequired else s) ui.servers (by
        intro s _
        by_cases hs : s.awaitsQuery theAddress theNonce
        · have hstate : s.state = .sentQuery := by simp_all [ServerRef.awaitsQuery]
          simp [hs, ServerRef.inState, ServerRef.gotQuery, hstate]
        · simp [hs])
  have queries := countP_map_add (p := ServerRef.inState .sentQuery)
    (q := fun s => s.awaitsQuery theAddress theNonce)
    (r := ServerRef.inState .sentQuery)
    (f := fun s => if s.awaitsQuery theAddress theNonce then
      s.gotQuery serverName playerCount maxPlayers dedicated passwordRequired else s) ui.servers (by
        intro s _
        by_cases hs : s.awaitsQuery theAddress theNonce
        · have hstate : s.state = .sentQuery := by simp_all [ServerRef.awaitsQuery]
          simp [hs, ServerRef.inState, ServerRef.gotQuery, hstate]
        · simp [hs])
  rw [List.countP_false] at pings
  refine ⟨hpings.trans pings.symm, ?_, hpingsLe, Nat.le_trans (Nat.sub_le _ _) hqueriesLe, ?_⟩
  · rw [gotQueryResponse, hqueries]
    exact Nat.sub_eq_of_eq_add queries.symm
  · intro t ht
    obtain ⟨s, hs, rfl⟩ := List.mem_map.mp ht
    by_cases hawaits : s.awaitsQuery theAddress theNonce
    · rw [if_pos hawaits]
      exact fun hne => absurd rfl hne
    · rw [if_neg hawaits]
      exact htried s hs

omit [DecidableEq ν] [DecidableEq η] in
theorem expire_counted (time : UInt32) (h : Counted ui) : Counted (ui.expire time) := by
  obtain ⟨hpings, hqueries, hpingsLe, hqueriesLe, htried⟩ := h
  have pings := countP_map_add (p := ServerRef.inState .sentPing) (q := ServerRef.pingExpired time)
    (r := ServerRef.inState .sentPing) (f := ServerRef.expire time) ui.servers (by
      intro s _
      rcases expire_cases time s with ⟨hs, hping, -, heq⟩ | ⟨hs, hping, -, heq⟩ | ⟨hping, -, heq⟩
      · simp [hping, heq, hs, ServerRef.inState]
      · simp [hping, heq, hs, ServerRef.inState]
      · simp [hping, heq])
  have queries := countP_map_add (p := ServerRef.inState .sentQuery)
    (q := ServerRef.queryExpired time) (r := ServerRef.inState .sentQuery)
    (f := ServerRef.expire time) ui.servers (by
      intro s _
      rcases expire_cases time s with ⟨hs, -, hquery, heq⟩ | ⟨hs, -, hquery, heq⟩ |
        ⟨-, hquery, heq⟩
      · simp [hquery, heq, hs, ServerRef.inState]
      · simp [hquery, heq, hs, ServerRef.inState]
      · simp [hquery, heq])
  refine ⟨?_, ?_, Nat.le_trans (Nat.sub_le _ _) hpingsLe, Nat.le_trans (Nat.sub_le _ _) hqueriesLe,
    ?_⟩
  · rw [expire, hpings]
    exact Nat.sub_eq_of_eq_add pings.symm
  · rw [expire, hqueries]
    exact Nat.sub_eq_of_eq_add queries.symm
  · intro t ht
    obtain ⟨s, hs, rfl⟩ := List.mem_map.mp ht
    rcases expire_cases time s with ⟨hstate, -, -, heq⟩ | ⟨hstate, -, -, heq⟩ | ⟨-, -, heq⟩
    · rw [heq]
      exact fun _ => htried s hs (by simp [hstate])
    · rw [heq]
      exact fun _ => htried s hs (by simp [hstate])
    · rw [heq]
      exact htried s hs

omit [DecidableEq ν] [DecidableEq η] in
theorem idlePings_counted (time : UInt32) (random : ℕ → ν) (h : Counted ui) :
    Counted (ui.idlePings time random).1 := by
  have swept := idlePings_swept time random ui
  have tries := ping_tries (η := η) time random
  have queries := swept.countP_other .sentQuery tries (by decide) (by decide) (by decide)
  have pings := swept.countP_sent tries (by decide) (by decide)
  have tried := swept.tried tries h.tried
  by_cases hpings : ui.pendingPings < MaxPendingPings
  · rw [idlePings, if_pos hpings] at *
    have pending := pingServers_pending time random ui.servers hpings
    exact ⟨pending.1.trans (h.pings_eq ▸ pings.symm), h.queries_eq.trans queries.symm, pending.2,
      h.queries_le, tried⟩
  · rwa [idlePings, if_neg hpings]

omit [DecidableEq ν] [DecidableEq η] in
theorem idleQueries_counted (time : UInt32) (h : Counted ui) :
    Counted (ui.idleQueries time).1 := by
  have swept := idleQueries_swept time ui
  have tries := query_tries (ν := ν) (η := η) time
  have pings := swept.countP_other .sentPing tries (by decide) (by decide) (by decide)
  have queries := swept.countP_sent tries (by decide) (by decide)
  have tried := swept.tried tries h.tried
  by_cases hqueries : ui.pendingPings = 0 ∧ ui.pendingQueries < MaxPendingQueries
  · rw [idleQueries, if_pos hqueries] at *
    have pending := queryServers_pending time ui.servers hqueries.2
    exact ⟨h.pings_eq.trans pings.symm, pending.1.trans (h.queries_eq ▸ queries.symm), h.pings_le,
      pending.2, tried⟩
  · rwa [idleQueries, if_neg hqueries]

theorem step_counted (made : ServerRef ν η) (h : Counted ui) (input : Input ν η) :
    Counted (ui.step made input).1 := by
  cases input with
  | addPingServers ipList => exact addPingServers_counted h ipList
  | pingResponse => exact gotPingResponse_counted h
  | queryResponse => exact gotQueryResponse_counted h
  | idle time random =>
    exact idleQueries_counted time (idlePings_counted time random (expire_counted time h))

theorem run_counted (made : ServerRef ν η) (h : Counted ui) (inputs : List (Input ν η)) :
    Counted (ui.run made inputs).1 := by
  induction inputs generalizing ui with
  | nil => exact h
  | cons input inputs ih => exact ih (step_counted made h input)

end steps

/-- The entry is pending. -/
def pending (s : ServerRef ν η) : Prop := s.state = .sentPing ∨ s.state = .sentQuery

/-- The entry stays as it is, or is no longer pending. -/
structure Settles (s s' : ServerRef ν η) : Prop where
  sendCount_eq : s'.sendCount = s.sendCount
  lastSendTime_eq : s'.lastSendTime = s.lastSendTime
  state : s'.state = s.state ∨ pending s ∧ ¬ pending s'

/-- Entries may be added at the end. -/
def Extends (l l' : List (ServerRef ν η)) : Prop :=
  ∃ changed new, l' = changed ++ new ∧ List.Forall₂ Settles l changed ∧
    ∀ s ∈ new, ¬ pending s ∧ s.sendCount = 0

section settles

omit [DecidableEq ν] [DecidableEq η]

variable {l l' : List (ServerRef ν η)}

theorem Settles.refl (s : ServerRef ν η) : Settles s s := ⟨rfl, rfl, .inl rfl⟩

theorem settles_self (l : List (ServerRef ν η)) : List.Forall₂ Settles l l :=
  List.forall₂_same.mpr fun s _ => .refl s

theorem Extends.append {new : List (ServerRef ν η)}
    (h : ∀ s ∈ new, ¬ pending s ∧ s.sendCount = 0) : Extends l (l ++ new) :=
  ⟨l, new, rfl, settles_self l, h⟩

theorem Extends.settle (h : List.Forall₂ Settles l l') : Extends l l' :=
  ⟨l', [], (List.append_nil _).symm, h, fun _ hs => absurd hs List.not_mem_nil⟩

theorem settles_left (h : List.Forall₂ Settles l l') :
    weight ServerRef.left l' = weight ServerRef.left l := by
  induction h with
  | nil => rfl
  | cons hs _ ih =>
    rw [weight_cons, weight_cons, ih, ServerRef.left, ServerRef.left, hs.sendCount_eq]

theorem settles_unfinished (h : List.Forall₂ Settles l l') :
    weight ServerRef.unfinished l' ≤ weight ServerRef.unfinished l := by
  induction h with
  | nil => exact Nat.le_refl 0
  | @cons s s' _ _ hs _ ih =>
    refine Nat.add_le_add ?_ ih
    rw [ServerRef.unfinished, ServerRef.unfinished, hs.sendCount_eq]
    rcases hs.state with hstate | ⟨hstate, -⟩
    · exact Nat.le_of_eq (by rw [hstate])
    · have hne : s.state ≠ .receivedQuery := by
        rcases hstate with hstate | hstate <;> simp [hstate]
      rw [if_neg hne]
      split_ifs
      · exact Nat.zero_le _
      · exact Nat.le_refl _

theorem Extends.left_eq (h : Extends l l') :
    weight ServerRef.left l' + PingQueryRetryCount * l.length =
      weight ServerRef.left l + PingQueryRetryCount * l'.length := by
  obtain ⟨changed, new, rfl, hsettles, hnew⟩ := h
  have added : weight ServerRef.left new = PingQueryRetryCount * new.length := by
    induction new with
    | nil => rfl
    | cons s new ih =>
      obtain ⟨hs, hnew⟩ := List.forall_mem_cons.mp hnew
      rw [weight_cons, ih hnew, ServerRef.left, hs.2, List.length_cons, Nat.mul_succ]
      omega
  rw [weight_append, settles_left hsettles, added, List.length_append, hsettles.length_eq,
    Nat.mul_add]
  omega

theorem Extends.length_le (h : Extends l l') : l.length ≤ l'.length := by
  obtain ⟨changed, new, rfl, hsettles, -⟩ := h
  rw [List.length_append, hsettles.length_eq]
  exact Nat.le_add_right _ _

/-- Where no entry is added, none has more tries than before. -/
theorem Extends.unfinished_le (h : Extends l l') (hlength : l'.length = l.length) :
    weight ServerRef.unfinished l' ≤ weight ServerRef.unfinished l := by
  obtain ⟨changed, new, rfl, hsettles, -⟩ := h
  have hnew : new = [] := by
    rw [List.length_append, hsettles.length_eq] at hlength
    exact List.eq_nil_of_length_eq_zero (Nat.add_eq_left.mp hlength)
  rw [hnew, List.append_nil]
  exact settles_unfinished hsettles

/-- What is pending has been sent at the time or before. -/
def SentBy (time : UInt32) (l : List (ServerRef ν η)) : Prop :=
  ∀ s ∈ l, pending s → s.lastSendTime ≤ time

theorem settles_sentBy {time : UInt32} (h : List.Forall₂ Settles l l') (hl : SentBy time l) :
    SentBy time l' := by
  induction h with
  | nil => exact hl
  | @cons s s' _ _ hs _ ih =>
    obtain ⟨hhead, htail⟩ := List.forall_mem_cons.mp hl
    refine List.forall_mem_cons.mpr ⟨fun hpending => ?_, ih htail⟩
    rcases hs.state with hstate | ⟨-, hstate⟩
    · rw [hs.lastSendTime_eq]
      rw [pending, hstate] at hpending
      exact hhead hpending
    · exact absurd hpending hstate

theorem Extends.sentBy {time : UInt32} (h : Extends l l') (hl : SentBy time l) :
    SentBy time l' := by
  obtain ⟨changed, new, rfl, hsettles, hnew⟩ := h
  intro s hs hpending
  rcases List.mem_append.mp hs with hs | hs
  · exact settles_sentBy hsettles hl s hs hpending
  · exact absurd hpending (hnew s hs).1

end settles

section inputs

variable {ui : QueryServers ν η} {theAddress : η} {theNonce : ν} {token time now mark : UInt32}
  {random : ℕ → ν}

omit [DecidableEq ν] [DecidableEq η] in
theorem addPingServers_extends (ui : QueryServers ν η) (ipList : List (η × ν)) :
    Extends ui.servers (ui.addPingServers made ipList).servers := by
  have h : ∃ new, (ui.addPingServers made ipList).servers = ui.servers ++ new ∧
      ∀ s ∈ new, ¬ pending s ∧ s.sendCount = 0 := by
    unfold addPingServers
    induction ipList generalizing ui with
    | nil => exact ⟨[], (List.append_nil _).symm, fun _ hs => absurd hs List.not_mem_nil⟩
    | cons p ps ih =>
      obtain ⟨new, heq, hnew⟩ := ih (ui.addPingServer made p.1 p.2)
      refine ⟨_ :: new, heq.trans (List.append_assoc _ _ _), ?_⟩
      exact List.forall_mem_cons.mpr ⟨⟨by simp [pending], rfl⟩, hnew⟩
  obtain ⟨new, heq, hnew⟩ := h
  rw [heq]
  exact .append hnew

theorem gotPingResponse_extends (ui : QueryServers ν η) :
    Extends ui.servers (ui.gotPingResponse made theAddress theNonce token time).servers := by
  rcases gotPingResponse_cases made theAddress theNonce token time ui with
    heq | ⟨-, s, id, hs, hcount, -, -, -, heq⟩ | ⟨pre, s, post, hservers, hs, heq⟩
  · rw [heq]
    exact .settle (settles_self _)
  · rw [heq]
    refine .append fun t ht => ?_
    rw [List.mem_singleton.mp ht]
    exact ⟨by simp [pending, hs], hcount⟩
  · simp only [ServerRef.awaitsPing, decide_eq_true_eq] at hs
    rw [heq, hservers]
    refine .settle (List.rel_append (settles_self pre) (.cons ⟨rfl, rfl, .inr ⟨.inl hs.2.2, ?_⟩⟩
      (settles_self post)))
    simp [pending, ServerRef.gotPing]

theorem gotQueryResponse_extends {serverName : List UInt8} {playerCount maxPlayers : UInt32}
    {dedicated passwordRequired : Bool} (ui : QueryServers ν η) :
    Extends ui.servers (ui.gotQueryResponse theAddress theNonce serverName playerCount maxPlayers
      dedicated passwordRequired).servers := by
  refine .settle (List.forall₂_map_right_iff.mpr (List.forall₂_same.mpr fun s _ => ?_))
  split_ifs with hs
  · simp only [ServerRef.awaitsQuery, decide_eq_true_eq] at hs
    exact ⟨rfl, rfl, .inr ⟨.inr hs.2.2, by simp [pending, ServerRef.gotQuery]⟩⟩
  · exact .refl s

omit [DecidableEq ν] [DecidableEq η] in
theorem expire_settles (time : UInt32) (ui : QueryServers ν η) :
    List.Forall₂ Settles ui.servers (ui.expire time).servers := by
  refine List.forall₂_map_right_iff.mpr (List.forall₂_same.mpr fun s _ => ?_)
  rcases expire_cases time s with ⟨hs, -, -, heq⟩ | ⟨hs, -, -, heq⟩ | ⟨-, -, heq⟩
  · rw [heq]
    exact ⟨rfl, rfl, .inr ⟨.inl hs, by simp [pending]⟩⟩
  · rw [heq]
    exact ⟨rfl, rfl, .inr ⟨.inr hs, by simp [pending]⟩⟩
  · rw [heq]
    exact .refl s

omit [DecidableEq ν] [DecidableEq η]

theorem idle_left (ui : QueryServers ν η) :
    weight ServerRef.left (ui.idle time random).1.servers + (ui.idle time random).2.length =
      weight ServerRef.left ui.servers := by
  have pinged := (idlePings_swept time random (ui.expire time)).left_eq (ping_tries time random)
  have queried := (idleQueries_swept time ((ui.expire time).idlePings time random).1).left_eq
    (query_tries time)
  rw [settles_left (expire_settles time ui)] at pinged
  simp only [idle, List.length_append]
  omega

theorem idle_length (ui : QueryServers ν η) :
    (ui.idle time random).1.servers.length = ui.servers.length := by
  have expired := (expire_settles time ui).length_eq
  have pinged := (idlePings_swept time random (ui.expire time)).length_eq
  have queried := (idleQueries_swept time ((ui.expire time).idlePings time random).1).length_eq
  exact queried.trans (pinged.trans expired.symm)

theorem idle_unfinished (time : UInt32) (random : ℕ → ν) (ui : QueryServers ν η) :
    weight ServerRef.unfinished (ui.idle time random).1.servers + (ui.idle time random).2.length ≤
      weight ServerRef.unfinished ui.servers := by
  have expired := settles_unfinished (expire_settles time ui)
  have pinged := (idlePings_swept time random (ui.expire time)).unfinished_le
    (ping_tries time random) (by decide)
  have queried := (idleQueries_swept time ((ui.expire time).idlePings time random).1).unfinished_le
    (query_tries time) (by decide)
  simp only [idle, List.length_append]
  omega

/-- What is pending after the call has been pending before, or has been sent by it. -/
theorem idle_sentBy (h : SentBy mark ui.servers) :
    ∀ s ∈ (ui.idle time random).1.servers, pending s →
      s.lastSendTime ≤ mark ∨ (s.lastSendTime = time ∧ (ui.idle time random).2 ≠ []) := by
  have expired := settles_sentBy (expire_settles time ui) h
  have pinged := idlePings_swept time random (ui.expire time)
  have queried := idleQueries_swept time ((ui.expire time).idlePings time random).1
  intro s hs hpending
  rw [idle]
  rcases queried.mem hs with hs | ⟨t, -, -, i, rfl, hsent⟩ | ⟨t, -, -, rfl⟩
  · rcases pinged.mem hs with hs | ⟨t, -, -, i, rfl, hsent⟩ | ⟨t, -, -, rfl⟩
    · exact .inl (expired s hs hpending)
    · exact .inr ⟨rfl, List.ne_nil_of_mem (List.mem_append_left _ hsent)⟩
    · exact absurd hpending (by simp [pending, ServerRef.pingTimedOut])
  · exact .inr ⟨rfl, List.ne_nil_of_mem (List.mem_append_right _ hsent)⟩
  · exact absurd hpending (by simp [pending, ServerRef.queryTimedOut])

/-- If everything that is pending has expired, some entry is tried, or all of them are finished. -/
theorem idle_progress (random : ℕ → ν) (hcounted : Counted ui)
    (hexpired : ∀ s ∈ ui.servers, pending s → PingQueryTimeout < time - s.lastSendTime) :
    weight ServerRef.unfinished (ui.idle time random).1.servers = 0 ∨
      weight ServerRef.unfinished (ui.idle time random).1.servers <
        weight ServerRef.unfinished ui.servers := by
  have hcounted := expire_counted time hcounted
  have hexpire := settles_unfinished (expire_settles time ui)
  have hnone : ∀ s ∈ (ui.expire time).servers, ¬ pending s := by
    intro t ht
    obtain ⟨s, hs, rfl⟩ := List.mem_map.mp ht
    have hs := hexpired s hs
    unfold pending at hs ⊢
    rcases expire_cases time s with ⟨-, -, -, heq⟩ | ⟨-, -, -, heq⟩ | ⟨hping, hquery, heq⟩
    · simp [heq]
    · simp [heq]
    · rw [heq]
      rintro (hstate | hstate)
      · simp [ServerRef.pingExpired, hstate, hs (.inl hstate)] at hping
      · simp [ServerRef.queryExpired, hstate, hs (.inr hstate)] at hquery
  have hpings : (ui.expire time).pendingPings = 0 := by
    rw [hcounted.pings_eq, List.countP_eq_zero]
    intro s hs hstate
    exact hnone s hs (.inl (of_decide_eq_true hstate))
  have hqueries : (ui.expire time).pendingQueries = 0 := by
    rw [hcounted.queries_eq, List.countP_eq_zero]
    intro s hs hstate
    exact hnone s hs (.inr (of_decide_eq_true hstate))
  have pinged := idlePings_swept time random (ui.expire time)
  have queried := idleQueries_swept time ((ui.expire time).idlePings time random).1
  have hle := queried.unfinished_le (query_tries time) (by decide)
  by_cases hstart : ∃ s ∈ (ui.expire time).servers, s.state = .start
  · -- a ping is sent, or given up
    have hless := pingServers_unfinished time random (ui.expire time).pendingPings hcounted.tried
      hstart
    have hidle : weight ServerRef.unfinished ((ui.expire time).idlePings time random).1.servers <
        weight ServerRef.unfinished (ui.expire time).servers := by
      rwa [idlePings, if_pos (by rw [hpings]; decide)]
    simp only [idle]
    omega
  · have hsame := pinged.eq_self fun s hs hstate => hstart ⟨s, hs, hstate⟩
    have hcounted' := idlePings_counted time random hcounted
    have hpings' : ((ui.expire time).idlePings time random).1.pendingPings = 0 := by
      rw [hcounted'.pings_eq, hsame, ← hcounted.pings_eq, hpings]
    have hqueries' : ((ui.expire time).idlePings time random).1.pendingQueries = 0 := by
      rw [hcounted'.queries_eq, hsame, ← hcounted.queries_eq, hqueries]
    by_cases hreceived : ∃ s ∈ (ui.expire time).servers, s.state = .receivedPing
    · have hless := queryServers_unfinished time
        ((ui.expire time).idlePings time random).1.pendingQueries hcounted'.tried
        (hsame.symm ▸ hreceived)
      have hidle : weight ServerRef.unfinished
          (((ui.expire time).idlePings time random).1.idleQueries time).1.servers <
            weight ServerRef.unfinished ((ui.expire time).idlePings time random).1.servers := by
        rwa [idleQueries, if_pos ⟨hpings', by rw [hqueries']; decide⟩]
      rw [hsame] at hidle
      simp only [idle]
      omega
    · -- every entry has been finished
      have hzero : weight ServerRef.unfinished (ui.expire time).servers = 0 := by
        refine weight_eq_zero fun s hs => ?_
        rw [ServerRef.unfinished, if_pos]
        have hnot := hnone s hs
        have hstart : s.state ≠ .start := fun h => hstart ⟨s, hs, h⟩
        have hreceived : s.state ≠ .receivedPing := fun h => hreceived ⟨s, hs, h⟩
        cases hstate : s.state <;> simp_all [pending]
      rw [hsame] at hle
      simp only [idle]
      omega

end inputs

/-- The clock does not go back between two calls of `idle`. -/
def Forward : UInt32 → List (Input ν η) → Prop
  | _, [] => True
  | now, .idle time _ :: inputs => now ≤ time ∧ Forward time inputs
  | now, _ :: inputs => Forward now inputs

/-- The time of the last call of `idle`. -/
def clock : UInt32 → List (Input ν η) → UInt32
  | now, [] => now
  | _, .idle time _ :: inputs => clock time inputs
  | now, _ :: inputs => clock now inputs

/-- How many times the calls of `idle` have gone past a timeout, each counted from the call at the
end of the last. -/
def timeouts : UInt32 → List (Input ν η) → ℕ
  | _, [] => 0
  | mark, .idle time _ :: inputs =>
    if PingQueryTimeout < time - mark then timeouts time inputs + 1 else timeouts mark inputs
  | mark, _ :: inputs => timeouts mark inputs

section runs

variable {ui : QueryServers ν η} {now mark : UInt32}

theorem step_left (made : ServerRef ν η) (ui : QueryServers ν η) (input : Input ν η) :
    weight ServerRef.left (ui.step made input).1.servers + (ui.step made input).2.length +
        PingQueryRetryCount * ui.servers.length =
      weight ServerRef.left ui.servers +
        PingQueryRetryCount * (ui.step made input).1.servers.length := by
  cases input with
  | addPingServers ipList => exact (addPingServers_extends ui ipList).left_eq
  | pingResponse => exact (gotPingResponse_extends ui).left_eq
  | queryResponse => exact (gotQueryResponse_extends ui).left_eq
  | idle time random =>
    simp only [step]
    rw [idle_left, idle_length]

theorem run_left (made : ServerRef ν η) (ui : QueryServers ν η) (inputs : List (Input ν η)) :
    weight ServerRef.left (ui.run made inputs).1.servers + (ui.run made inputs).2.length +
        PingQueryRetryCount * ui.servers.length =
      weight ServerRef.left ui.servers +
        PingQueryRetryCount * (ui.run made inputs).1.servers.length := by
  induction inputs generalizing ui with
  | nil => rfl
  | cons input inputs ih =>
    have first := step_left made ui input
    have rest := ih (ui.step made input).1
    simp only [run, List.length_append]
    omega

theorem step_length (made : ServerRef ν η) (ui : QueryServers ν η) (input : Input ν η) :
    ui.servers.length ≤ (ui.step made input).1.servers.length := by
  cases input with
  | addPingServers ipList => exact (addPingServers_extends ui ipList).length_le
  | pingResponse => exact (gotPingResponse_extends ui).length_le
  | queryResponse => exact (gotQueryResponse_extends ui).length_le
  | idle time random => exact Nat.le_of_eq (idle_length ui).symm

theorem run_length (made : ServerRef ν η) (ui : QueryServers ν η) (inputs : List (Input ν η)) :
    ui.servers.length ≤ (ui.run made inputs).1.servers.length := by
  induction inputs generalizing ui with
  | nil => exact Nat.le_refl _
  | cons input inputs ih => exact Nat.le_trans (step_length made ui input) (ih _)

theorem run_append (ui : QueryServers ν η) (before after : List (Input ν η)) :
    (ui.run made (before ++ after)).1 = ((ui.run made before).1.run made after).1 := by
  induction before generalizing ui with
  | nil => rfl
  | cons input before ih => exact ih _

omit [DecidableEq ν] [DecidableEq η] in
theorem forward_append {before after : List (Input ν η)} (h : Forward now (before ++ after)) :
    Forward now before ∧ Forward (clock now before) after := by
  induction before generalizing now with
  | nil => exact ⟨trivial, h⟩
  | cons input before ih =>
    cases input with
    | idle time random => exact ⟨⟨h.1, (ih h.2).1⟩, (ih h.2).2⟩
    | addPingServers | pingResponse | queryResponse => exact ih h

omit [DecidableEq ν] [DecidableEq η] in
theorem idle_sentBy_time {time : UInt32} (random : ℕ → ν) (hnow : now ≤ time)
    (h : SentBy now ui.servers) : SentBy time (ui.idle time random).1.servers := by
  intro s hs hpending
  rcases idle_sentBy h s hs hpending with hle | ⟨heq, -⟩
  · exact UInt32.le_trans hle hnow
  · exact heq ▸ UInt32.le_refl _

theorem run_sentBy (made : ServerRef ν η) (h : SentBy now ui.servers) {inputs : List (Input ν η)}
    (hforward : Forward now inputs) :
    SentBy (clock now inputs) (ui.run made inputs).1.servers := by
  induction inputs generalizing ui now with
  | nil => exact h
  | cons input inputs ih =>
    cases input with
    | idle time random => exact ih (idle_sentBy_time random hforward.1 h) hforward.2
    | addPingServers ipList => exact ih ((addPingServers_extends ui ipList).sentBy h) hforward
    | pingResponse => exact ih ((gotPingResponse_extends ui).sentBy h) hforward
    | queryResponse => exact ih ((gotQueryResponse_extends ui).sentBy h) hforward

/-- While no entry is added, every timeout takes a try. `spared` is one if something has been sent
since the last of them. -/
theorem run_timeouts (ui : QueryServers ν η) (now mark : UInt32) (spared : ℕ)
    {inputs : List (Input ν η)} (hcounted : Counted ui)
    (hnow : SentBy now ui.servers) (hmark : mark ≤ now) (hforward : Forward now inputs)
    (hlength : (ui.run made inputs).1.servers.length = ui.servers.length)
    (hspared : spared = 0 → SentBy mark ui.servers) :
    weight ServerRef.unfinished (ui.run made inputs).1.servers = 0 ∨
      timeouts mark inputs + weight ServerRef.unfinished (ui.run made inputs).1.servers ≤
        weight ServerRef.unfinished ui.servers + spared := by
  induction inputs generalizing ui now mark spared with
  | nil => exact .inr (by simp only [timeouts, run]; omega)
  | cons input inputs ih =>
    have hstep := step_length made ui input
    have hrun := run_length made (ui.step made input).1 inputs
    have hsame : (ui.step made input).1.servers.length = ui.servers.length :=
      Nat.le_antisymm (Nat.le_trans hrun (Nat.le_of_eq hlength)) hstep
    have hrest := hlength.trans hsame.symm
    have hcounted' := step_counted made hcounted input
    have extended (hext : Extends ui.servers (ui.step made input).1.servers)
        (hforward : Forward now inputs) := by
      have hle := hext.unfinished_le hsame
      exact (ih _ _ _ _ hcounted' (hext.sentBy hnow) hmark hforward hrest fun h =>
        hext.sentBy (hspared h)).imp_right fun h => Nat.le_trans h (Nat.add_le_add_right hle spared)
    cases input with
    | addPingServers ipList => exact extended (addPingServers_extends ui ipList) hforward
    | pingResponse => exact extended (gotPingResponse_extends ui) hforward
    | queryResponse => exact extended (gotQueryResponse_extends ui) hforward
    | idle time random =>
      have hle := idle_unfinished time random ui
      have htime := idle_sentBy_time random hforward.1 hnow
      simp only [timeouts, run, step] at ih hle ⊢
      split_ifs with hpast
      · -- what has been sent up to `mark` has expired
        rcases ih (ui.idle time random).1 time time 0 hcounted' htime (UInt32.le_refl _) hforward.2
          hrest fun _ => htime with hz | hrest
        · exact .inl hz
        rcases Nat.eq_zero_or_pos spared with hzero | hpos
        · have hexpired : ∀ s ∈ ui.servers, pending s →
              PingQueryTimeout < time - s.lastSendTime := by
            intro s hs hpending
            have hold := UInt32.le_iff_toNat_le.mp (hspared hzero s hs hpending)
            have hnt := UInt32.le_iff_toNat_le.mp (UInt32.le_trans hmark hforward.1)
            rw [UInt32.lt_iff_toNat_lt] at hpast ⊢
            rw [UInt32.toNat_sub_of_le _ _ (UInt32.le_iff_toNat_le.mpr hnt)] at hpast
            rw [UInt32.toNat_sub_of_le _ _ (UInt32.le_iff_toNat_le.mpr (Nat.le_trans hold hnt))]
            omega
          rcases idle_progress random hcounted hexpired with hz | hless
          · exact .inl (by omega)
          · exact .inr (by omega)
        · exact .inr (by omega)
      · by_cases hsent : (ui.idle time random).2 = []
        · have hkept (h : spared = 0) : SentBy mark (ui.idle time random).1.servers := by
            intro s hs hpending
            rcases idle_sentBy (hspared h) s hs hpending with hle | ⟨-, hne⟩
            · exact hle
            · exact absurd hsent hne
          exact (ih (ui.idle time random).1 time mark spared hcounted' htime
            (UInt32.le_trans hmark hforward.1) hforward.2 hrest hkept).imp_right fun h => by omega
        · have hpos := List.length_pos_iff.mpr hsent
          exact (ih (ui.idle time random).1 time mark 1 hcounted' htime
            (UInt32.le_trans hmark hforward.1) hforward.2 hrest fun h =>
              absurd h (by decide)).imp_right fun h => by omega

/-- The counters are exact whatever comes. Only so many packets are pending at a time, and each
entry has been sent three at most. -/
theorem pending_exact (ui : QueryServers ν η) (nonce : ν) (time : UInt32)
    (inputs : List (Input ν η)) :
    let found := (ui.onActivate nonce time).run made inputs
    found.1.pendingPings = found.1.servers.countP (ServerRef.inState .sentPing) ∧
      found.1.pendingQueries = found.1.servers.countP (ServerRef.inState .sentQuery) ∧
      found.1.pendingPings ≤ MaxPendingPings ∧ found.1.pendingQueries ≤ MaxPendingQueries ∧
      found.2.length + weight ServerRef.left found.1.servers =
        PingQueryRetryCount * found.1.servers.length := by
  intro found
  have counted := run_counted made (onActivate_counted ui nonce time) inputs
  have sent := run_left made (ui.onActivate nonce time) inputs
  refine ⟨counted.pings_eq, counted.queries_eq, counted.pings_le, counted.queries_le, ?_⟩
  have hleft : weight ServerRef.left (ui.onActivate nonce time).servers = 0 := rfl
  have hlength : (ui.onActivate nonce time).servers.length = 0 := rfl
  rw [hleft, hlength, Nat.mul_zero, Nat.add_zero, Nat.zero_add] at sent
  exact (Nat.add_comm _ _).trans sent

/-- Once four timeouts for each entry have passed, every entry is finished, whatever has come. -/
theorem search_ends (ui : QueryServers ν η) (nonce : ν) (time : UInt32)
    (before after : List (Input ν η)) (hforward : Forward time (before ++ after))
    (hlength : ((ui.onActivate nonce time).run made (before ++ after)).1.servers.length =
      ((ui.onActivate nonce time).run made before).1.servers.length)
    (htimeouts : (PingQueryRetryCount + 1) *
        ((ui.onActivate nonce time).run made before).1.servers.length ≤
      timeouts (clock time before) after) :
    ∀ s ∈ ((ui.onActivate nonce time).run made (before ++ after)).1.servers,
      s.state = .receivedQuery := by
  obtain ⟨hbefore, hafter⟩ := forward_append hforward
  rw [run_append] at hlength ⊢
  have counted := run_counted made (onActivate_counted ui nonce time) before
  have fresh : SentBy time (ui.onActivate nonce time).servers := fun _ hs =>
    absurd hs List.not_mem_nil
  have sent := run_sentBy made fresh hbefore
  have tries : weight ServerRef.unfinished ((ui.onActivate nonce time).run made before).1.servers ≤
      (PingQueryRetryCount + 1) *
        ((ui.onActivate nonce time).run made before).1.servers.length := by
    refine weight_le_mul fun s _ => ?_
    unfold ServerRef.unfinished
    split_ifs <;> omega
  have hzero : weight ServerRef.unfinished
      (((ui.onActivate nonce time).run made before).1.run made after).1.servers = 0 := by
    rcases run_timeouts _ _ _ 0 counted sent (UInt32.le_refl _) hafter hlength fun _ => sent with
      hzero | hle
    · exact hzero
    · omega
  have finished := run_counted made counted after
  intro s hs
  have hs' := eq_zero_of_weight hzero hs
  by_contra hstate
  have htried := finished.tried s hs hstate
  rw [ServerRef.unfinished, if_neg hstate] at hs'
  omega

/-- A server that never answers. -/
theorem search_ends_silent :
    let made : ServerRef ℕ ℕ := ⟨.start, 0, 0, 0, 0, 0, false, false, false, 0, [], 0, 0, 0⟩
    let ui : QueryServers ℕ ℕ := ⟨[], 0, 0, 0, 0, 0⟩
    ∀ s ∈ ((ui.onActivate 5 0).run made ([.addPingServers [(7, 1)]] ++ [.idle 1501 fun i => i,
        .idle 3002 fun i => i, .idle 4503 fun i => i, .idle 6004 fun i => i])).1.servers,
      s.state = .receivedQuery :=
  search_ends _ _ _ _ _ (by simp only [List.cons_append, List.nil_append, Forward]; decide)
    (by decide) (by decide)

end runs

end QueryServers

end TNL
