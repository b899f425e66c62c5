import TNL.GoRoot.MasterServer

/-!
# Every request is answered

A request that has been refused or has left the list is answered once. Requests and answers
are counted by who waits for the answer and the id that the initiator gave.
-/
namespace TNL.GoRoot
open Library

/-- Who waits for the answer, and the id that it knows the request by. -/
def GameConnectRequest.query (req : GameConnectRequest) : MasterServerConnection × U32 :=
  (req.initiator, req.initiatorQueryID)

/-- The query that a packet ends. -/
def Message.answered : Message → Option U32
  | .arrangedConnectionAccepted requestID .. | .arrangedConnectionRejected requestID .. =>
    some requestID
  | .clientRequestedArrangedConnection .. => none

/-- The accepts and rejects among the packets, with their receivers. -/
def answers (sent : List (MasterServerConnection × Message)) :
    List (MasterServerConnection × U32) :=
  sent.filterMap fun p => p.2.answered.map (Prod.mk p.1)

theorem answers_append (sent sent' : List (MasterServerConnection × Message)) :
    answers (sent ++ sent') = answers sent ++ answers sent' :=
  List.filterMap_append

namespace MasterServer

variable {s s' : MasterServer} {a : Action} {sent : List (MasterServerConnection × Message)}
  {requestID : U32}

/-- The request that arrives in a step. -/
def Action.arrival : Action → Option (MasterServerConnection × U32)
  | .request conn requestID .. => some (conn, requestID)
  | _ => none

/-- The requests that stay are as they were and in their order. An arriving request is put
behind them or refused, and who is refused or gone from the list is sent one answer. -/
def Answered (s : MasterServer) (a : Action) (s' : MasterServer)
    (sent : List (MasterServerConnection × Message)) : Prop :=
  ∃ kept gone added refused,
    kept.Sublist s.connectRequests ∧ (kept ++ gone).Perm s.connectRequests ∧
    s'.connectRequests = kept ++ added ∧
    added.map GameConnectRequest.query ++ refused = a.arrival.toList ∧
    (answers sent).Perm (gone.map GameConnectRequest.query ++ refused)

/-- A clean-up finds no request that has waited for too long. -/
def NoneTimedOut (s : MasterServer) : Action → Prop
  | .cleanup currentTime =>
    ∀ req ∈ s.connectRequests, ¬ currentTime - req.requestTime > connectRequestTimeout
  | _ => True

theorem Answered.of_eq (hrequests : s'.connectRequests = s.connectRequests)
    (harrival : a.arrival = none) (hsent : answers sent = []) : s.Answered a s' sent := by
  refine ⟨s.connectRequests, [], [], [], List.Sublist.refl _, ?_, ?_, ?_, ?_⟩
  · rw [List.append_nil]
  · rw [hrequests, List.append_nil]
  · rw [harrival]
    rfl
  · rw [hsent]
    rfl

/-- An answer to the first request with an id ends that request only. -/
theorem answered_findAndRemoveRequest {req : GameConnectRequest}
    (hfind : s.connectRequests.find? (·.hostQueryID = requestID) = some req)
    (harrival : a.arrival = none) (hsent : answers sent = [req.query]) :
    s.Answered a (s.findAndRemoveRequest requestID).2 sent := by
  obtain ⟨hid, before, after, hlist, hbefore⟩ := List.find?_eq_some_iff_append.mp hfind
  have herased : s.connectRequests.eraseP (·.hostQueryID = requestID) = before ++ after := by
    rw [hlist, List.eraseP_append_right _ (by simpa using hbefore), List.eraseP_cons, hid]
    rfl
  refine ⟨before ++ after, [req], [], [], ?_, ?_, ?_, ?_, ?_⟩
  · rw [← herased]
    exact List.eraseP_sublist
  · rw [hlist]
    have hcomm : (after ++ [req]).Perm ([req] ++ after) := List.perm_append_comm
    simpa using hcomm.append_left before
  · rw [List.append_nil]
    exact herased
  · rw [harrival]
    rfl
  · rw [hsent]
    rfl

/-- An answer to an id that no request has does nothing. -/
theorem answered_of_find_none
    (hfind : s.connectRequests.find? (·.hostQueryID = requestID) = none)
    (harrival : a.arrival = none) : s.Answered a (s.findAndRemoveRequest requestID).2 [] := by
  apply Answered.of_eq _ harrival rfl
  exact List.eraseP_of_forall_not (List.find?_eq_none.mp hfind)

theorem answered_request {conn : MasterServerConnection} {remoteAddr internalAddr : Option Address}
    {connectionParams : List UInt8} {currentTime : U32}
    (hact : s.handleRequestArrangedConnection conn requestID remoteAddr internalAddr
      connectionParams currentTime = some (s', sent)) :
    s.Answered (.request conn requestID remoteAddr internalAddr connectionParams currentTime) s'
      sent := by
  simp only [handleRequestArrangedConnection, Option.bind_eq_bind,
    Option.bind_eq_some_iff] at hact
  obtain ⟨remote, -, hact⟩ := hact
  cases hhost : s.connections remote with
  | none =>
    rw [hhost] at hact
    obtain ⟨rfl, rfl⟩ := Prod.mk.inj (Option.some.inj hact)
    refine ⟨s.connectRequests, [], [], [(conn, requestID)], List.Sublist.refl _, ?_, ?_, rfl,
      List.Perm.refl _⟩
    · rw [List.append_nil]
    · rw [List.append_nil]
  | some hostConn =>
    rw [hhost] at hact
    obtain ⟨internal, -, hact⟩ := Option.bind_eq_some_iff.mp hact
    obtain ⟨rfl, rfl⟩ := Prod.mk.inj (Option.some.inj hact)
    refine ⟨s.connectRequests, [], [_], [], List.Sublist.refl _, ?_, rfl, rfl, List.Perm.refl _⟩
    rw [List.append_nil]

theorem answered_accept {conn : MasterServerConnection} {internalAddr : Option Address}
    {connectionData : List UInt8}
    (hact : s.handleAcceptArrangedConnection conn requestID internalAddr connectionData =
      some (s', sent)) :
    s.Answered (.accept conn requestID internalAddr connectionData) s' sent := by
  rw [handleAcceptArrangedConnection] at hact
  cases hfind : s.connectRequests.find? (·.hostQueryID = requestID) with
  | none =>
    simp only [findAndRemoveRequest, hfind] at hact
    obtain ⟨rfl, rfl⟩ := Prod.mk.inj (Option.some.inj hact)
    exact answered_of_find_none hfind rfl
  | some req =>
    simp only [findAndRemoveRequest, hfind] at hact
    obtain ⟨internal, -, hact⟩ := Option.bind_eq_some_iff.mp hact
    obtain ⟨rfl, rfl⟩ := Prod.mk.inj (Option.some.inj hact)
    exact answered_findAndRemoveRequest hfind rfl rfl

theorem answered_reject {conn : MasterServerConnection} {rejectData : List UInt8}
    (hact : s.handleRejectArrangedConnection requestID rejectData = (s', sent)) :
    s.Answered (.reject conn requestID rejectData) s' sent := by
  rw [handleRejectArrangedConnection] at hact
  cases hfind : s.connectRequests.find? (·.hostQueryID = requestID) with
  | none =>
    simp only [findAndRemoveRequest, hfind] at hact
    obtain ⟨rfl, rfl⟩ := Prod.mk.inj hact
    exact answered_of_find_none hfind rfl
  | some req =>
    simp only [findAndRemoveRequest, hfind] at hact
    obtain ⟨rfl, rfl⟩ := Prod.mk.inj hact
    exact answered_findAndRemoveRequest hfind rfl rfl

theorem cleanup_connectRequests (s : MasterServer) (currentTime : U32) :
    (s.cleanup currentTime).connectRequests = s.connectRequests.filter
      fun req => ¬ currentTime - req.requestTime > connectRequestTimeout := by
  change s.connectRequests.foldr _ [] = _
  induction s.connectRequests with
  | nil => rfl
  | cons req rest ih =>
    rw [List.foldr_cons, ih, List.filter_cons]
    by_cases hlate : currentTime - req.requestTime > connectRequestTimeout
    · simp [hlate]
    · simp [hlate]

/-- A clean-up answers nobody, so that it has to keep every request. -/
theorem answered_cleanup_iff (currentTime : U32) :
    s.Answered (.cleanup currentTime) (s.cleanup currentTime) [] ↔
      s.NoneTimedOut (.cleanup currentTime) := by
  constructor
  · rintro ⟨kept, gone, added, refused, -, hperm, hlist, harrival, hsent⟩ req hreq
    have hleft : gone.map GameConnectRequest.query ++ refused = [] := hsent.nil_eq.symm
    have hgone : gone = [] := List.map_eq_nil_iff.mp (List.append_eq_nil_iff.mp hleft).1
    have hadded : added = [] :=
      List.map_eq_nil_iff.mp (List.append_eq_nil_iff.mp harrival).1
    rw [hgone, List.append_nil] at hperm
    rw [hadded, List.append_nil, cleanup_connectRequests] at hlist
    have hmem : req ∈ kept := hperm.mem_iff.mpr hreq
    rw [← hlist] at hmem
    simpa using (List.mem_filter.mp hmem).2
  · intro h
    apply Answered.of_eq _ rfl rfl
    rw [cleanup_connectRequests]
    exact List.filter_eq_self.mpr fun req hreq => decide_eq_true (h req hreq)

theorem act_answered_iff (hact : s.act a = some (s', sent)) :
    s.Answered a s' sent ↔ s.NoneTimedOut a := by
  cases a with
  | connect conn =>
    obtain ⟨rfl, rfl⟩ := Prod.mk.inj (Option.some.inj hact)
    refine iff_of_true (Answered.of_eq ?_ rfl rfl) trivial
    rw [handleConnectionRequest]
    split_ifs <;> rfl
  | disconnect conn =>
    obtain ⟨rfl, rfl⟩ := Prod.mk.inj (Option.some.inj hact)
    exact iff_of_true (Answered.of_eq rfl rfl rfl) trivial
  | request conn requestID remoteAddr internalAddr connectionParams currentTime =>
    exact iff_of_true (answered_request hact) trivial
  | accept conn requestID internalAddr connectionData =>
    exact iff_of_true (answered_accept hact) trivial
  | reject conn requestID rejectData =>
    exact iff_of_true (answered_reject (Option.some.inj hact)) trivial
  | cleanup currentTime =>
    obtain ⟨rfl, rfl⟩ := Prod.mk.inj (Option.some.inj hact)
    exact answered_cleanup_iff currentTime

/-- Everything sent in a run. -/
def sentAlong (s : MasterServer) : List Action → List (MasterServerConnection × Message)
  | [] => []
  | a :: as =>
    match s.act a with
    | none => []
    | some (s', sent) => sent ++ sentAlong s' as

/-- Every step answers the requests that it refuses or takes out. -/
def StepAnswered (s : MasterServer) (a : Action) : Prop :=
  ∀ s' sent, s.act a = some (s', sent) → s.Answered a s' sent

/-- Who has made a request and waits for the answer is among the old and new requests. -/
theorem Answered.balance (h : s.Answered a s' sent) :
    (answers sent ++ s'.connectRequests.map GameConnectRequest.query).Perm
      (s.connectRequests.map GameConnectRequest.query ++ a.arrival.toList) := by
  obtain ⟨kept, gone, added, refused, -, hperm, hlist, harrival, hsent⟩ := h
  rw [hlist, ← harrival, List.map_append]
  have hold := hperm.map GameConnectRequest.query
  rw [List.map_append] at hold
  rw [List.perm_iff_count] at hold hsent ⊢
  intro query
  have holdcount := hold query
  have hsentcount := hsent query
  simp only [List.count_append] at holdcount hsentcount ⊢
  omega

/-- What has been answered and what is waiting are what has arrived. -/
theorem sentAlong_balance {as : List Action} (h : Run step StepAnswered s as s') :
    (answers (sentAlong s as) ++ s'.connectRequests.map GameConnectRequest.query).Perm
      (s.connectRequests.map GameConnectRequest.query ++ as.filterMap Action.arrival) := by
  induction h with
  | nil s => simp [sentAlong, answers]
  | @cons s t u a as allowed taken rest ih =>
    obtain ⟨⟨t', sent⟩, hact, rfl⟩ := Option.map_eq_some_iff.mp taken
    have hstep := (allowed t' sent hact).balance
    have hrest : answers (sentAlong s (a :: as)) =
        answers sent ++ answers (sentAlong t' as) := by
      rw [sentAlong, hact]
      exact answers_append sent _
    have harrivals : (a :: as).filterMap Action.arrival =
        a.arrival.toList ++ as.filterMap Action.arrival := by
      cases harrival : a.arrival <;> simp [harrival]
    rw [hrest, harrivals]
    rw [List.perm_iff_count] at hstep ih ⊢
    intro query
    have hstepcount := hstep query
    have hrestcount := ih query
    simp only [List.count_append] at hstepcount hrestcount ⊢
    omega

/-- Every request that is refused or leaves the list is answered once, and the others wait, in
exactly the runs in which no clean-up finds a request that has waited for too long. -/
theorem requests_answered_iff (as : List Action) (s : MasterServer) :
    (Run step StepAnswered start as s ∧
      (answers (sentAlong start as) ++ s.connectRequests.map GameConnectRequest.query).Perm
        (as.filterMap Action.arrival)) ↔ Run step NoneTimedOut start as s := by
  have hguards : Run step StepAnswered start as s ↔ Run step NoneTimedOut start as s := by
    refine Run.congr_guard fun s a t hstep => ?_
    obtain ⟨⟨s', sent⟩, hact, -⟩ := Option.map_eq_some_iff.mp hstep
    constructor
    · intro h
      exact (act_answered_iff hact).mp (h s' sent hact)
    · intro h s'' sent' hact'
      exact (act_answered_iff hact').mpr h
  rw [← hguards]
  constructor
  · intro h
    exact h.1
  · intro h
    exact ⟨h, sentAlong_balance h⟩

/-- A request has waited for more than half a minute and is forgotten. -/
theorem forgotten_request :
    ¬ ∀ as s, Run step (fun _ _ => True) start as s → Run step StepAnswered start as s ∧
      (answers (sentAlong start as) ++ s.connectRequests.map GameConnectRequest.query).Perm
        (as.filterMap Action.arrival) := by
  intro hclaim
  let a : MasterServerConnection := ⟨0, ⟨[1], 1⟩⟩
  let b : MasterServerConnection := ⟨1, ⟨[2], 2⟩⟩
  let as : List Action := [.connect a, .connect b,
    .request b 7 (some a.address) (some b.address) [] 0, .cleanup 30001]
  obtain ⟨s, hexec⟩ : ∃ s, exec step start as = some s := Option.isSome_iff_exists.mp (by decide)
  have hwaiting : (exec step start as).map (·.connectRequests) = some [] := by decide
  rw [hexec] at hwaiting
  have hnone : s.connectRequests = [] := Option.some.inj hwaiting
  have hbalance := (hclaim as s (Run.of_exec hexec)).2
  rw [hnone] at hbalance
  exact absurd hbalance (by decide)

end MasterServer

end TNL.GoRoot
