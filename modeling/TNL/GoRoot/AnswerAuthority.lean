import TNL.GoRoot.MasterServer

/-!
# Who may answer a request

An answer ends the first request in the list that has its id, whoever sends it.
-/
namespace TNL.GoRoot
open Library

def Message.requestID : Message → U32
  | .clientRequestedArrangedConnection requestID .. | .arrangedConnectionAccepted requestID ..
  | .arrangedConnectionRejected requestID .. => requestID

namespace MasterServer

variable {s s' : MasterServer} {a : Action} {req : GameConnectRequest}

/-- The client whose message a step handles. -/
def Action.sender : Action → Option MasterServerConnection
  | .connect conn | .disconnect conn | .request conn .. | .accept conn .. | .reject conn .. =>
    some conn
  | .cleanup _ => none

/-- Whether a step handles an accept or a reject. -/
def Action.isAnswer : Action → Bool
  | .accept .. | .reject .. => true
  | _ => false

/-- A step takes a request out of the list. -/
def Removed (s s' : MasterServer) (req : GameConnectRequest) : Prop :=
  s'.connectRequests.count req < s.connectRequests.count req

/-- A message that takes a request out is an answer from its host, and an answer goes to the
initiator of the request that it takes out. -/
structure Authorised (s : MasterServer) (a : Action) (s' : MasterServer)
    (sent : List (MasterServerConnection × Message)) : Prop where
  removes : ∀ conn ∈ a.sender, ∀ req, s.Removed s' req → a.isAnswer = true ∧ req.host = conn
  answers : a.isAnswer = true → ∀ req, s.Removed s' req →
    ∃ message, sent = [(req.initiator, message)] ∧ message.requestID = req.initiatorQueryID
  silent : a.isAnswer = true → (∀ req, ¬ s.Removed s' req) → sent = []

/-- The first request with the id of an answer is one for which its sender is the host. -/
def AnsweredByHost (s : MasterServer) : Action → Prop
  | .accept conn requestID .. | .reject conn requestID .. =>
    ∀ req ∈ s.connectRequests.find? (·.hostQueryID = requestID), req.host = conn
  | _ => True

theorem removed_findAndRemoveRequest (s : MasterServer) (requestID : U32)
    (req : GameConnectRequest) : s.Removed (s.findAndRemoveRequest requestID).2 req ↔
      s.connectRequests.find? (·.hostQueryID = requestID) = some req := by
  change (s.connectRequests.eraseP _).count req < _ ↔ _
  cases hfind : s.connectRequests.find? (·.hostQueryID = requestID) with
  | none =>
    have hkept : s.connectRequests.eraseP (·.hostQueryID = requestID) = s.connectRequests :=
      List.eraseP_of_forall_not (List.find?_eq_none.mp hfind)
    rw [hkept]
    simp
  | some first =>
    obtain ⟨hid, before, after, hlist, hbefore⟩ := List.find?_eq_some_iff_append.mp hfind
    have herased : s.connectRequests.eraseP (·.hostQueryID = requestID) = before ++ after := by
      rw [hlist, List.eraseP_append_right _ (by simpa using hbefore), List.eraseP_cons, hid]
      rfl
    rw [herased, hlist, List.count_append, List.count_append, List.count_cons]
    by_cases hreq : first = req
    · simp [hreq]
    · simp [hreq]

theorem not_removed_of_sublist (h : s.connectRequests.Sublist s'.connectRequests)
    (req : GameConnectRequest) : ¬ s.Removed s' req :=
  Nat.not_lt.mpr (h.count_le req)

/-- An answer is authorised exactly if its sender is the host of the request that it ends. -/
theorem answer_authorised_iff {conn : MasterServerConnection} {requestID : U32}
    {sent : List (MasterServerConnection × Message)} (hsender : a.sender = some conn)
    (hanswer : a.isAnswer = true) (hs : s' = (s.findAndRemoveRequest requestID).2)
    (hsent : ∀ req, s.connectRequests.find? (·.hostQueryID = requestID) = some req →
      ∃ message, sent = [(req.initiator, message)] ∧ message.requestID = req.initiatorQueryID)
    (hsilent : s.connectRequests.find? (·.hostQueryID = requestID) = none → sent = []) :
    s.Authorised a s' sent ↔
      ∀ req ∈ s.connectRequests.find? (·.hostQueryID = requestID), req.host = conn := by
  have hremoved : ∀ req, s.Removed s' req ↔ _ := fun req =>
    hs ▸ s.removed_findAndRemoveRequest requestID req
  constructor
  · intro h req hreq
    exact (h.removes conn hsender req ((hremoved req).mpr hreq)).2
  · intro h
    refine ⟨fun conn' hconn' req hreq => ⟨hanswer, ?_⟩, fun _ req hreq => ?_, fun _ hnone => ?_⟩
    · obtain rfl := Option.some.inj (hsender.symm.trans hconn')
      exact h req ((hremoved req).mp hreq)
    · exact hsent req ((hremoved req).mp hreq)
    · refine hsilent (Option.eq_none_iff_forall_ne_some.mpr fun req hreq => ?_)
      exact hnone req ((hremoved req).mpr hreq)

/-- Steps that are not answers take out nothing that a client could. -/
theorem authorised_of_sublist {sent : List (MasterServerConnection × Message)}
    (hanswer : a.isAnswer = false)
    (h : a.sender = none ∨ s.connectRequests.Sublist s'.connectRequests) :
    s.Authorised a s' sent := by
  refine ⟨fun conn hconn req hreq => ?_, fun htrue => ?_, fun htrue => ?_⟩
  · rcases h with hnone | hsub
    · exact absurd (hconn.symm.trans hnone) (Option.some_ne_none conn)
    · exact absurd hreq (not_removed_of_sublist hsub req)
  · exact absurd (htrue.symm.trans hanswer) Bool.noConfusion
  · exact absurd (htrue.symm.trans hanswer) Bool.noConfusion

theorem act_authorised_iff {sent : List (MasterServerConnection × Message)}
    (hact : s.act a = some (s', sent)) : s.Authorised a s' sent ↔ s.AnsweredByHost a := by
  cases a with
  | connect conn =>
    obtain ⟨rfl, -⟩ := Prod.mk.inj (Option.some.inj hact)
    refine iff_of_true (authorised_of_sublist rfl (.inr ?_)) trivial
    rw [handleConnectionRequest]
    split_ifs <;> exact List.Sublist.refl _
  | disconnect conn =>
    obtain ⟨rfl, -⟩ := Prod.mk.inj (Option.some.inj hact)
    exact iff_of_true (authorised_of_sublist rfl (.inr (List.Sublist.refl _))) trivial
  | request conn requestID remoteAddr internalAddr connectionParams currentTime =>
    refine iff_of_true (authorised_of_sublist rfl (.inr ?_)) trivial
    simp only [act, handleRequestArrangedConnection, Option.bind_eq_bind,
      Option.bind_eq_some_iff] at hact
    obtain ⟨remote, -, hact⟩ := hact
    cases hhost : s.connections remote with
    | none =>
      rw [hhost] at hact
      obtain ⟨rfl, -⟩ := Prod.mk.inj (Option.some.inj hact)
      exact List.Sublist.refl _
    | some hostConn =>
      rw [hhost] at hact
      obtain ⟨internal, -, hact⟩ := Option.bind_eq_some_iff.mp hact
      obtain ⟨rfl, -⟩ := Prod.mk.inj (Option.some.inj hact)
      exact List.sublist_append_left _ _
  | accept conn requestID internalAddr connectionData =>
    change _ ↔ ∀ req ∈ _, _
    simp only [act, handleAcceptArrangedConnection, findAndRemoveRequest] at hact
    cases hfind : s.connectRequests.find? (·.hostQueryID = requestID) with
    | none =>
      rw [hfind] at hact
      obtain ⟨rfl, rfl⟩ := Prod.mk.inj (Option.some.inj hact)
      rw [← hfind]
      refine answer_authorised_iff rfl rfl rfl (fun req hreq => ?_) (fun _ => rfl)
      exact absurd (hreq.symm.trans hfind) (Option.some_ne_none req)
    | some req =>
      rw [hfind] at hact
      obtain ⟨internal, -, hact⟩ := Option.bind_eq_some_iff.mp hact
      obtain ⟨rfl, rfl⟩ := Prod.mk.inj (Option.some.inj hact)
      rw [← hfind]
      refine answer_authorised_iff rfl rfl rfl (fun req' hreq' => ?_) (fun hnone => ?_)
      · obtain rfl := Option.some.inj (hfind.symm.trans hreq')
        exact ⟨_, rfl, rfl⟩
      · exact absurd (hfind.symm.trans hnone) (Option.some_ne_none req)
  | reject conn requestID rejectData =>
    change _ ↔ ∀ req ∈ _, _
    simp only [act, handleRejectArrangedConnection, findAndRemoveRequest] at hact
    cases hfind : s.connectRequests.find? (·.hostQueryID = requestID) with
    | none =>
      rw [hfind] at hact
      obtain ⟨rfl, rfl⟩ := Prod.mk.inj (Option.some.inj hact)
      rw [← hfind]
      refine answer_authorised_iff rfl rfl rfl (fun req hreq => ?_) (fun _ => rfl)
      exact absurd (hreq.symm.trans hfind) (Option.some_ne_none req)
    | some req =>
      rw [hfind] at hact
      obtain ⟨rfl, rfl⟩ := Prod.mk.inj (Option.some.inj hact)
      rw [← hfind]
      refine answer_authorised_iff rfl rfl rfl (fun req' hreq' => ?_) (fun hnone => ?_)
      · obtain rfl := Option.some.inj (hfind.symm.trans hreq')
        exact ⟨_, rfl, rfl⟩
      · exact absurd (hfind.symm.trans hnone) (Option.some_ne_none req)
  | cleanup currentTime => exact iff_of_true (authorised_of_sublist rfl (.inl rfl)) trivial

/-- Every step of a run is authorised. -/
def StepAuthorised (s : MasterServer) (a : Action) : Prop :=
  ∀ s' sent, s.act a = some (s', sent) → s.Authorised a s' sent

/-- In a run of the server all steps are authorised exactly if every accept and reject comes from
the host of the first request that has its id. -/
theorem authorised_run_iff (as : List Action) (s : MasterServer) :
    Run step StepAuthorised start as s ↔ Run step AnsweredByHost start as s := by
  refine Run.congr_guard fun s a t hstep => ?_
  obtain ⟨⟨s', sent⟩, hact, -⟩ := Option.map_eq_some_iff.mp hstep
  constructor
  · intro h
    exact (act_authorised_iff hact).mp (h s' sent hact)
  · intro h s'' sent' hact'
    obtain ⟨rfl, rfl⟩ := Prod.mk.inj (Option.some.inj (hact.symm.trans hact'))
    exact (act_authorised_iff hact).mpr h

/-- A third client rejects a request, and the initiator is told so. -/
theorem unauthorised_reject :
    ¬ ∀ as s, Run step (fun _ _ => True) start as s → Run step StepAuthorised start as s := by
  intro hclaim
  let a : MasterServerConnection := ⟨0, ⟨[1], 1⟩⟩
  let b : MasterServerConnection := ⟨1, ⟨[2], 2⟩⟩
  let c : MasterServerConnection := ⟨2, ⟨[3], 3⟩⟩
  let before : List Action := [.connect a, .connect b, .connect c,
    .request b 7 (some a.address) (some b.address) [] 0]
  obtain ⟨s, hexec⟩ : ∃ s, exec step start (before ++ [.reject c 1 [8]]) = some s :=
    Option.isSome_iff_exists.mp (by decide)
  obtain ⟨t, hrun, hhost⟩ :=
    ((authorised_run_iff _ s).mp (hclaim _ s (Run.of_exec hexec))).allowed_at
  have hfirst : (exec step start before).map
      (fun t => t.connectRequests.find? (·.hostQueryID = 1)) = some (some ⟨b, a, 7, 1, 0⟩) := by
    decide
  rw [hrun.exec_eq] at hfirst
  exact absurd (hhost _ (Option.some.inj hfirst)) (by decide)

end MasterServer

end TNL.GoRoot
