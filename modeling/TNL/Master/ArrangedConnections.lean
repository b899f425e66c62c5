import TNL.Master.MasterServer

/-!
# Answers reach the right client

Every request that is still open is in the list of its initiator, in the list of
its host and in the global list, and nothing else is in a list. An answer keeps
this exactly if the first request in the sender's list that has the id is one for
which the sender is the host.
-/
namespace TNL
open Library

namespace MasterServer

variable {κ : Type} [DecidableEq κ] {s s' : MasterServer κ} {c d : κ} {gcr p q : ℕ}

/-- The list of a connection, empty when there is none. -/
def listOf (s : MasterServer κ) (c : κ) : List ℕ :=
  ((s.connections c).map (·.mConnectList)).getD []

/-- How often a request belongs into the list of a connection. -/
def places (req : Option (GameConnectRequest κ)) (c : κ) : ℕ :=
  req.elim 0 (fun req =>
    (if req.initiator = some c then 1 else 0) + if req.host = some c then 1 else 0)

/-- The lists hold exactly the open requests, each where it belongs. -/
structure Listed (s : MasterServer κ) : Prop where
  connection : ∀ c p, (s.listOf c).count p = places (s.requests p) c
  global : ∀ p, s.gConnectList.count p = if (s.requests p).isSome then 1 else 0

/-- No list holds a freed request. -/
structure NoneFreed (s : MasterServer κ) : Prop where
  connection : ∀ c, ∀ p ∈ s.listOf c, (s.requests p).isSome
  global : ∀ p ∈ s.gConnectList, (s.requests p).isSome

omit [DecidableEq κ] in
theorem listOf_of_eq {conn : MasterServerConnection} (h : s.connections c = some conn) :
    s.listOf c = conn.mConnectList := by
  rw [listOf, h, Option.map_some, Option.getD_some]

theorem listOf_setConnection (s : MasterServer κ) (c d : κ) (conn : MasterServerConnection) :
    (s.setConnection c conn).listOf d = if d = c then conn.mConnectList else s.listOf d := by
  by_cases h : d = c
  · rw [if_pos h, h]
    exact listOf_of_eq (Function.update_self ..)
  · rw [if_neg h, listOf, setConnection, listOf]
    simp only [Function.update_of_ne h]

theorem Listed.noneFreed (h : s.Listed) : s.NoneFreed where
  connection c p hp := by
    have hcount := List.count_pos_iff.mpr hp
    rw [h.connection] at hcount
    cases hreq : s.requests p with
    | none => simp [hreq, places] at hcount
    | some req => rfl
  global p hp := by
    have hcount := List.count_pos_iff.mpr hp
    rw [h.global] at hcount
    by_contra hnone
    rw [if_neg hnone] at hcount
    exact absurd hcount (lt_irrefl 0)

theorem listed_start : (start : MasterServer κ).Listed := ⟨fun _ _ => rfl, fun _ => rfl⟩

/-- What the lists hold decides it. -/
theorem Listed.congr (h : s.Listed) (hlists : s'.listOf = s.listOf)
    (hrequests : s'.requests = s.requests) (hglobal : s'.gConnectList = s.gConnectList) :
    s'.Listed := by
  refine ⟨fun c p => ?_, fun p => ?_⟩
  · rw [hlists, hrequests]
    exact h.connection c p
  · rw [hglobal, hrequests]
    exact h.global p

/-! ### Searching and removing -/

theorem removeFrom_perm (list : List ℕ) (gcr : ℕ) :
    (removeFrom list gcr).Perm (list.erase gcr) := by
  by_cases h : gcr ∈ list
  · rw [removeFrom, if_pos h, ← List.eraseIdx_idxOf_eq_erase]
    exact eraseFast_perm (List.idxOf_lt_length_iff.mpr h)
  · rw [removeFrom, if_neg h, List.erase_of_not_mem h]

theorem count_removeFrom (list : List ℕ) (gcr p : ℕ) :
    (removeFrom list gcr).count p = list.count p - if p = gcr then 1 else 0 := by
  rw [(removeFrom_perm list gcr).count_eq, List.count_erase]
  simp only [beq_iff_eq, eq_comm (a := gcr)]

/-- The open requests that have an id. -/
def named (s : MasterServer κ) (requestId : U32) (gcr : ℕ) : Bool :=
  (s.requests gcr).any (·.hostQueryId = requestId)

/-- The first request with an id in the list of a connection. -/
def firstNamed (s : MasterServer κ) (c : κ) (requestId : U32) : Option ℕ :=
  (s.listOf c).find? (s.named requestId)

omit [DecidableEq κ] in
theorem findRequest_cases {requestId : U32} {list : List ℕ}
    (hlive : ∀ p ∈ list, (s.requests p).isSome) :
    (s.findRequest requestId list = some none ∧ list.find? (s.named requestId) = none) ∨
    ∃ gcr before after, s.findRequest requestId list = some (some (before.length, gcr)) ∧
      list.find? (s.named requestId) = some gcr ∧ list = before ++ gcr :: after := by
  induction list with
  | nil => exact .inl ⟨rfl, rfl⟩
  | cons p list ih =>
    obtain ⟨req, hreq⟩ := Option.isSome_iff_exists.mp (hlive p List.mem_cons_self)
    simp only [findRequest, hreq, Option.bind_some]
    by_cases hid : req.hostQueryId = requestId
    · have hnamed : s.named requestId p = true := by simp [named, hreq, hid]
      rw [if_pos hid]
      exact .inr ⟨p, [], list, rfl, List.find?_cons_of_pos hnamed, rfl⟩
    · have hnamed : ¬ s.named requestId p = true := by simp [named, hreq, hid]
      rw [if_neg hid, List.find?_cons_of_neg hnamed]
      rcases ih (fun q hq => hlive q (List.mem_cons_of_mem _ hq)) with
        ⟨hfind, hnone⟩ | ⟨gcr, before, after, hfind, hfirst, rfl⟩
      · exact .inl ⟨by rw [hfind]; rfl, hnone⟩
      · exact .inr ⟨gcr, p :: before, after, by rw [hfind]; rfl, hfirst, rfl⟩

omit [DecidableEq κ] in
theorem named_iff {requestId : U32} : s.named requestId gcr = true ↔
    ∃ req, s.requests gcr = some req ∧ req.hostQueryId = requestId := by
  simp [named, Option.any_eq_true]

/-- What an answer leaves of the lists when it takes a request out of them. -/
structure TakenOut (s : MasterServer κ) (c : κ) (gcr : ℕ) (req : GameConnectRequest κ)
    (s' : MasterServer κ) : Prop where
  requests : s'.requests = Function.update s.requests gcr none
  connection : ∀ d p, (s'.listOf d).count p = (s.listOf d).count p -
    if p = gcr then (if d = c then 1 else 0) + (if req.initiator = some d then 1 else 0) else 0
  global : ∀ p, s'.gConnectList.count p = s.gConnectList.count p - if p = gcr then 1 else 0

theorem count_listOf_setConnection {conn : MasterServerConnection}
    (hconn : s.connections c = some conn) {list : List ℕ}
    (hlist : ∀ p, list.count p = conn.mConnectList.count p - if p = gcr then 1 else 0) (d : κ)
    (p : ℕ) : ((s.setConnection c { conn with mConnectList := list }).listOf d).count p =
      (s.listOf d).count p - if p = gcr then (if d = c then 1 else 0) else 0 := by
  rw [listOf_setConnection]
  by_cases hd : d = c
  · rw [if_pos hd, if_pos hd, hd, listOf_of_eq hconn, hlist]
  · rw [if_neg hd, if_neg hd, ite_self, Nat.sub_zero]

theorem removeConnectRequest_spec (hd : (s.connections d).isSome) (gcr : ℕ) :
    ∃ s', s.removeConnectRequest d gcr = some s' ∧ s'.requests = s.requests ∧
      s'.gConnectList = s.gConnectList ∧ ∀ e p, (s'.listOf e).count p =
        (s.listOf e).count p - if p = gcr then (if e = d then 1 else 0) else 0 := by
  obtain ⟨conn, hconn⟩ := Option.isSome_iff_exists.mp hd
  refine ⟨s.setConnection d { conn with mConnectList := removeFrom conn.mConnectList gcr },
    by rw [removeConnectRequest, hconn, Option.map_some], rfl, rfl, fun e p => ?_⟩
  exact count_listOf_setConnection hconn (fun p => count_removeFrom ..) e p

/-- Safe pointers are to connections that exist. -/
theorem Listed.initiator (h : s.Listed) {req : GameConnectRequest κ}
    (hreq : s.requests gcr = some req) (hd : req.initiator = some d) :
    (s.connections d).isSome := by
  have hcount := h.connection d gcr
  rw [hreq, places, Option.elim_some, if_pos hd] at hcount
  cases hconn : s.connections d with
  | none =>
    simp only [listOf, hconn, Option.map_none, Option.getD_none, List.count_nil] at hcount
    omega
  | some conn => rfl

theorem removeFromInitiator_spec {req : GameConnectRequest κ}
    (hreq : ∀ d, req.initiator = some d → (s.connections d).isSome) (gcr : ℕ) :
    ∃ s', s.removeFromInitiator req gcr = some s' ∧ s'.requests = s.requests ∧
      s'.gConnectList = s.gConnectList ∧ ∀ e p, (s'.listOf e).count p =
        (s.listOf e).count p - if p = gcr then (if req.initiator = some e then 1 else 0) else 0 := by
  rw [removeFromInitiator]
  cases hinitiator : req.initiator with
  | none => exact ⟨s, rfl, rfl, rfl, by simp⟩
  | some d =>
    obtain ⟨s', heq, hrequests, hglobal, hcount⟩ := removeConnectRequest_spec (hreq d hinitiator) gcr
    refine ⟨s', heq, hrequests, hglobal, fun e p => ?_⟩
    rw [hcount]
    simp only [Option.some.injEq, eq_comm (a := e)]

theorem answerRequest_cases (h : s.Listed) {conn : MasterServerConnection}
    (hconn : s.connections c = some conn) (requestId : U32) (rpc : U32 → MasterRPC) :
    (s.answerRequest c requestId rpc = some (s, []) ∧ s.firstNamed c requestId = none) ∨
    ∃ gcr req s', s.answerRequest c requestId rpc = some (s', notifyInitiator req rpc) ∧
      s.firstNamed c requestId = some gcr ∧ s.requests gcr = some req ∧
      s.TakenOut c gcr req s' := by
  have hlist := listOf_of_eq hconn
  have hcases := @findRequest_cases _ s requestId _ (h.noneFreed.connection c)
  rcases hcases with ⟨hfind, hnone⟩ | ⟨gcr, before, after, hfind, hfirst, hsplit⟩
  · refine .inl ⟨?_, hnone⟩
    rw [hlist] at hfind
    simp [answerRequest, findAndRemoveRequest, hconn, hfind]
  · obtain ⟨req, hreq, -⟩ := named_iff.mp (List.find?_some hfirst)
    refine .inr ⟨gcr, req, ?_⟩
    rw [hlist] at hfind hsplit
    -- the list of the sender
    generalize hs₁ : s.setConnection c
      { conn with mConnectList := eraseFast conn.mConnectList before.length } = s₁
    have hcount₁ : ∀ d p, (s₁.listOf d).count p =
        (s.listOf d).count p - if p = gcr then (if d = c then 1 else 0) else 0 := by
      rw [← hs₁]
      refine count_listOf_setConnection hconn fun p => ?_
      have hlength : before.length < conn.mConnectList.length := by
        rw [hsplit, List.length_append, List.length_cons]
        omega
      rw [(eraseFast_perm hlength).count_eq, hsplit, List.eraseIdx_append_of_length_le le_rfl,
        Nat.sub_self, List.eraseIdx_cons_zero, List.count_append, List.count_append,
        List.count_cons]
      simp only [beq_iff_eq, eq_comm (a := gcr)]
      split_ifs <;> omega
    have hrequests₁ : s₁.requests = s.requests := by rw [← hs₁]; rfl
    have hglobal₁ : s₁.gConnectList = s.gConnectList := by rw [← hs₁]; rfl
    -- the list of the initiator
    have hinitiator : ∀ d, req.initiator = some d → (s₁.connections d).isSome := by
      intro d hd
      rw [← hs₁, setConnection]
      by_cases hdc : d = c
      · simp [hdc]
      · simpa only [Function.update_of_ne hdc] using h.initiator hreq hd
    obtain ⟨s₂, hremoved, hrequests₂, hglobal₂, hcount₂⟩ := removeFromInitiator_spec hinitiator gcr
    refine ⟨deleteRequest { s₂ with gConnectList := removeFrom s₂.gConnectList gcr } gcr, ?_,
      hfirst, hreq, ?_⟩
    · have hreq₂ : s₂.requests gcr = some req := by rw [hrequests₂, hrequests₁, hreq]
      simp [answerRequest, findAndRemoveRequest, hconn, hfind, hs₁, hreq, hrequests₁, hremoved,
        hreq₂]
    · refine ⟨?_, fun d p => ?_, fun p => ?_⟩
      · change Function.update s₂.requests gcr none = _
        rw [hrequests₂, hrequests₁]
      · change (s₂.listOf d).count p = _
        rw [hcount₂, hcount₁]
        split_ifs <;> omega
      · change (removeFrom s₂.gConnectList gcr).count p = _
        rw [count_removeFrom, hglobal₂, hglobal₁]

/-! ### Answers -/

/-- The first request in the sender's list that has the id is addressed to the sender, and it is the
only such request. -/
def Addressed (s : MasterServer κ) (c : κ) (requestId : U32) : Prop :=
  ∀ gcr ∈ s.firstNamed c requestId, (∀ req ∈ s.requests gcr, req.host = some c) ∧
    ∀ p, ∀ req ∈ s.requests p, req.host = some c → req.hostQueryId = requestId → p = gcr

/-- The answer of a connection to the request with an id does what it should: a request that it ends
is one for which the sender is the host, and the one that was meant; the initiator hears of it and
nobody else; and only that request leaves the lists. -/
structure Routed (s : MasterServer κ) (c : κ) (requestId : U32) (rpc : U32 → MasterRPC)
    (s' : MasterServer κ) (sent : List (κ × MasterRPC)) : Prop where
  host : ∀ p, ∀ req ∈ s.requests p, s'.requests p = none → req.host = some c
  meant : ∀ p, ∀ req ∈ s.requests p, req.host = some c → req.hostQueryId = requestId →
    s'.requests p = none
  only : ∀ p, ∀ req ∈ s.requests p, ∀ q, (s.requests q).isSome → s'.requests p = none →
    s'.requests q = none → p = q
  delivered : ∀ p, ∀ req ∈ s.requests p, s'.requests p = none → sent = notifyInitiator req rpc
  silent : (∀ p, (s.requests p).isSome → (s'.requests p).isSome) → sent = []
  removed : s'.NoneFreed
  kept : ∀ p, (s'.requests p).isSome → s'.requests p = s.requests p ∧
    (∀ d, (s'.listOf d).count p = (s.listOf d).count p) ∧
    s'.gConnectList.count p = s.gConnectList.count p

namespace TakenOut

variable {req : GameConnectRequest κ}

theorem listed (k : s.TakenOut c gcr req s') (h : s.Listed) (hreq : s.requests gcr = some req)
    (hhost : req.host = some c) : s'.Listed := by
  refine ⟨fun d p => ?_, fun p => ?_⟩
  · rw [k.connection, k.requests, h.connection]
    by_cases hp : p = gcr
    · rw [if_pos hp, hp, Function.update_self, hreq]
      simp only [places, hhost, Option.elim_some, Option.elim_none, Option.some.injEq,
        eq_comm (a := c)]
      omega
    · rw [if_neg hp, Function.update_of_ne hp, Nat.sub_zero]
  · rw [k.global, k.requests, h.global]
    by_cases hp : p = gcr
    · rw [if_pos hp, hp, Function.update_self, hreq]
      rfl
    · rw [if_neg hp, Function.update_of_ne hp, Nat.sub_zero]

/-- The answer to a request that it takes out is as it should be exactly if that request is the one
meant. -/
theorem routed_iff (k : s.TakenOut c gcr req s') (h : s.Listed) (hreq : s.requests gcr = some req)
    {requestId : U32} (hfirst : s.firstNamed c requestId = some gcr) (rpc : U32 → MasterRPC) :
    s.Routed c requestId rpc s' (notifyInitiator req rpc) ↔ s.Addressed c requestId := by
  have hopen : (s.requests gcr).isSome := by rw [hreq]; rfl
  have hended : s'.requests gcr = none := by rw [k.requests, Function.update_self]
  have hsame : ∀ p, p ≠ gcr → s'.requests p = s.requests p := fun p hp => by
    rw [k.requests, Function.update_of_ne hp]
  constructor
  · intro hrouted gcr' hfirst'
    obtain rfl := Option.some.inj (hfirst.symm.trans hfirst')
    refine ⟨fun req' hreq' => hrouted.host gcr req' hreq' hended, fun p req' hreq' hhost hid => ?_⟩
    exact hrouted.only p req' hreq' gcr hopen (hrouted.meant p req' hreq' hhost hid) hended
  · intro haddressed
    obtain ⟨hhost, hmeant⟩ := haddressed gcr hfirst
    have hone : ∀ p, ∀ req' ∈ s.requests p, s'.requests p = none → p = gcr := by
      intro p req' hreq' hp
      by_contra hne
      rw [hsame p hne] at hp
      exact Option.some_ne_none req' (hreq'.symm.trans hp)
    refine ⟨?_, ?_, ?_, ?_, ?_, ?_, ?_⟩
    · intro p req' hreq' hp
      obtain rfl := hone p req' hreq' hp
      exact hhost req' hreq'
    · intro p req' hreq' hhost' hid
      rw [hmeant p req' hreq' hhost' hid]
      exact hended
    · intro p req' hreq' q hq hp hq'
      obtain ⟨req'', hreq''⟩ := Option.isSome_iff_exists.mp hq
      rw [hone p req' hreq' hp, hone q req'' hreq'' hq']
    · intro p req' hreq' hp
      obtain rfl := hone p req' hreq' hp
      obtain rfl := Option.some.inj (hreq.symm.trans hreq')
      rfl
    · intro hall
      have hstill := hall gcr hopen
      rw [hended] at hstill
      exact absurd hstill Bool.false_ne_true
    · exact (k.listed h hreq (hhost req hreq)).noneFreed
    · intro p hp
      have hne : p ≠ gcr := fun heq => by
        rw [heq, hended] at hp
        exact absurd hp Bool.false_ne_true
      refine ⟨hsame p hne, fun d => ?_, ?_⟩
      · rw [k.connection, if_neg hne, Nat.sub_zero]
      · rw [k.global, if_neg hne, Nat.sub_zero]

end TakenOut

theorem Listed.mem_of_host (h : s.Listed) {req : GameConnectRequest κ}
    (hreq : s.requests gcr = some req) (hhost : req.host = some c) : gcr ∈ s.listOf c := by
  rw [← List.count_pos_iff, h.connection, hreq, places, Option.elim_some, if_pos hhost]
  omega

/-- An answer that names no request of the sender does nothing. -/
theorem Listed.routed_none (h : s.Listed) {requestId : U32}
    (hnone : s.firstNamed c requestId = none) (rpc : U32 → MasterRPC) :
    s.Routed c requestId rpc s [] := by
  have hstays : ∀ p, ∀ req ∈ s.requests p, ¬ s.requests p = none := fun p req hreq hp =>
    Option.some_ne_none req (hreq.symm.trans hp)
  refine ⟨fun p req hreq hp => absurd hp (hstays p req hreq), fun p req hreq hhost hid => ?_,
    fun p req hreq q _ hp => absurd hp (hstays p req hreq),
    fun p req hreq hp => absurd hp (hstays p req hreq), fun _ => rfl, h.noneFreed,
    fun p _ => ⟨rfl, fun d => rfl, rfl⟩⟩
  have hmem := h.mem_of_host hreq hhost
  exact absurd (named_iff.mpr ⟨req, hreq, hid⟩) (List.find?_eq_none.mp hnone p hmem)

theorem Listed.answerRequest_routed (h : s.Listed) {conn : MasterServerConnection}
    (hconn : s.connections c = some conn) (requestId : U32) (rpc : U32 → MasterRPC) :
    ∃ s' sent, s.answerRequest c requestId rpc = some (s', sent) ∧
      (s.Routed c requestId rpc s' sent ↔ s.Addressed c requestId) ∧
      (s.Addressed c requestId → s'.Listed) := by
  rcases answerRequest_cases h hconn requestId rpc with
    ⟨heq, hnone⟩ | ⟨gcr, req, s', heq, hfirst, hreq, htaken⟩
  · have haddressed : s.Addressed c requestId := by
      intro gcr hfirst
      exact absurd (hfirst.symm.trans hnone) (Option.some_ne_none gcr)
    exact ⟨s, [], heq, iff_of_true (h.routed_none hnone rpc) haddressed, fun _ => h⟩
  · refine ⟨s', _, heq, htaken.routed_iff h hreq hfirst rpc, fun haddressed => ?_⟩
    exact htaken.listed h hreq ((haddressed gcr hfirst).1 req hreq)

/-! ### The other actions -/

theorem Listed.connect (h : s.Listed) (hfree : s.connections c = none) (address : IPAddress)
    (mLastQueryId : U32) : (s.connect c address mLastQueryId).Listed := by
  refine h.congr ?_ rfl rfl
  funext d
  rw [MasterServer.connect, listOf_setConnection]
  by_cases hd : d = c
  · rw [if_pos hd, hd, listOf, hfree]
    rfl
  · rw [if_neg hd]

theorem Listed.setConnection (h : s.Listed) {conn conn' : MasterServerConnection}
    (hconn : s.connections c = some conn) (hlist : conn'.mConnectList = conn.mConnectList) :
    (s.setConnection c conn').Listed := by
  refine h.congr ?_ rfl rfl
  funext d
  rw [listOf_setConnection]
  by_cases hd : d = c
  · rw [if_pos hd, hd, listOf_of_eq hconn, hlist]
  · rw [if_neg hd]

theorem Listed.disconnect (h : s.Listed) (heq : s.disconnect c = some s') : s'.Listed := by
  obtain ⟨conn, hconn, rfl⟩ := Option.map_eq_some_iff.mp heq
  exact h.setConnection hconn rfl

theorem Listed.checkActivityTime (h : s.Listed) {timeDeltaMinimum currentTime : U32}
    (heq : s.checkActivityTime c timeDeltaMinimum currentTime = some s') : s'.Listed := by
  obtain ⟨conn, hconn, heq⟩ := Option.bind_eq_some_iff.mp heq
  by_cases hsoon : currentTime - conn.mLastActivityTime < timeDeltaMinimum
  · rw [if_pos hsoon] at heq
    have hstrike : (s.setConnection c
        { conn with mStrikeCount := conn.mStrikeCount + 1 }).Listed := h.setConnection hconn rfl
    by_cases hout : conn.mStrikeCount + 1 = 3
    · rw [if_pos hout] at heq
      exact hstrike.disconnect heq
    · rw [if_neg hout] at heq
      exact Option.some.inj heq ▸ hstrike
  · rw [if_neg hsoon] at heq
    by_cases hstrikes : conn.mStrikeCount > 0
    · rw [if_pos hstrikes] at heq
      exact Option.some.inj heq ▸ h.setConnection hconn rfl
    · rw [if_neg hstrikes] at heq
      exact Option.some.inj heq ▸ h

theorem count_listOf_append {conn conn' : MasterServerConnection}
    (hconn : s.connections c = some conn)
    (hlist : conn'.mConnectList = conn.mConnectList ++ [gcr]) (d : κ) (p : ℕ) :
    ((s.setConnection c conn').listOf d).count p =
      (s.listOf d).count p + if p = gcr then (if d = c then 1 else 0) else 0 := by
  rw [listOf_setConnection]
  by_cases hd : d = c
  · rw [if_pos hd, if_pos hd, hd, listOf_of_eq hconn, hlist, List.count_append,
      List.count_singleton]
    simp only [beq_iff_eq, eq_comm (a := gcr)]
  · rw [if_neg hd, if_neg hd, ite_self, Nat.add_zero]

theorem Listed.request (h : s.Listed) (hfree : s.requests gcr = none) {requestId : U32}
    {host : Option κ} {internalAddress : IPAddress} {connectionParameters : List UInt8}
    {currentTime : U32} {sent : List (κ × MasterRPC)}
    (heq : s.c2mRequestArrangedConnection c requestId host internalAddress connectionParameters gcr
      currentTime = some (s', sent)) : s'.Listed := by
  cases host with
  | none =>
    obtain ⟨rfl, -⟩ := Prod.mk.inj (Option.some.inj heq)
    exact h
  | some host =>
    simp only [c2mRequestArrangedConnection, Option.bind_eq_bind, Option.bind_eq_some_iff,
      Option.pure_def, Option.some.injEq, Prod.mk.injEq] at heq
    obtain ⟨conn, hconn, hostConn, hhost, s₁, hactivity, rfl, -⟩ := heq
    refine Listed.checkActivityTime ?_ hactivity
    have hnone : ∀ d, (s.listOf d).count gcr = 0 := fun d => by
      rw [h.connection, hfree]
      rfl
    refine ⟨fun d p => ?_, fun p => ?_⟩
    · refine (count_listOf_append hhost rfl d p).trans ?_
      refine (congrArg (· + _) (count_listOf_append hconn rfl d p)).trans ?_
      change (s.listOf d).count p + _ + _ = places (Function.update s.requests gcr _ p) d
      by_cases hp : p = gcr
      · rw [hp, hnone, if_pos rfl, if_pos rfl, Function.update_self, places, Option.elim_some]
        simp only [Option.some.injEq, eq_comm (a := d), Nat.zero_add]
      · rw [if_neg hp, if_neg hp, Function.update_of_ne hp, h.connection]
        rfl
    · change (s.gConnectList ++ [gcr]).count p =
        if (Function.update s.requests gcr _ p).isSome then 1 else 0
      rw [List.count_append, h.global, List.count_singleton]
      by_cases hp : p = gcr
      · rw [hp, hfree, Function.update_self]
        simp
      · have hne : ¬ (gcr == p) = true := fun heq => hp (beq_iff_eq.mp heq).symm
        rw [Function.update_of_ne hp, if_neg hne, Nat.add_zero]

theorem Listed.destroy (h : s.Listed) (c : κ) : (s.destroy c).Listed := by
  have hlist : ∀ d, (s.destroy c).listOf d = if d = c then [] else s.listOf d := fun d => by
    by_cases hd : d = c
    · simp [listOf, MasterServer.destroy, hd]
    · simp [listOf, MasterServer.destroy, hd]
  refine ⟨fun d p => ?_, fun p => ?_⟩
  · have hplaces := h.connection d p
    rw [hlist]
    change _ = places ((s.requests p).map _) d
    cases hreq : s.requests p with
    | none =>
      rw [hreq] at hplaces
      by_cases hd : d = c
      · simp [hd, places]
      · rw [if_neg hd, hplaces]
        rfl
    | some req =>
      rw [hreq] at hplaces
      have hunset : ∀ pointer : Option κ, (if pointer = some c then none else pointer) = some d ↔
          d ≠ c ∧ pointer = some d := by
        intro pointer
        by_cases hpointer : pointer = some c
        · rw [if_pos hpointer, hpointer]
          simp only [reduceCtorEq, Option.some.injEq, ne_eq, false_iff, not_and]
          exact fun hd heq => hd heq.symm
        · rw [if_neg hpointer]
          exact ⟨fun heq => ⟨fun hd => hpointer (hd ▸ heq), heq⟩, And.right⟩
      simp only [places, Option.map_some, Option.elim_some, hunset] at hplaces ⊢
      by_cases hd : d = c
      · simp [hd]
      · simp [hd, hplaces]
  · change s.gConnectList.count p = if ((s.requests p).map _).isSome then 1 else 0
    rw [Option.isSome_map]
    exact h.global p

/-! ### Runs -/

/-- Every answer is to a request of which the sender is the host. -/
def AnswersAddressed (s : MasterServer κ) : Action κ → Prop
  | .accept c requestId .. | .reject c requestId .. => s.Addressed c requestId
  | _ => True

theorem Listed.act (h : s.Listed) {a : Action κ} (ha : s.AnswersAddressed a)
    {sent : List (κ × MasterRPC)} (heq : s.act a = some (s', sent)) : s'.Listed := by
  have hanswer : ∀ {c requestId rpc}, s.Addressed c requestId →
      s.answerRequest c requestId rpc = some (s', sent) → s'.Listed := by
    intro c requestId rpc haddressed heq
    cases hconn : s.connections c with
    | none => simp [answerRequest, findAndRemoveRequest, hconn] at heq
    | some conn =>
      obtain ⟨t, _, heq', -, hlisted⟩ := h.answerRequest_routed hconn requestId rpc
      obtain ⟨rfl, -⟩ := Prod.mk.inj (Option.some.inj (heq.symm.trans heq'))
      exact hlisted haddressed
  cases a with
  | connect c address mLastQueryId =>
    simp only [MasterServer.act, Option.ite_none_right_eq_some, Option.isNone_iff_eq_none,
      Option.some.injEq, Prod.mk.injEq] at heq
    obtain ⟨hfree, rfl, -⟩ := heq
    exact h.connect hfree address mLastQueryId
  | request c requestId host internalAddress connectionParameters gcr currentTime =>
    simp only [MasterServer.act, Option.ite_none_right_eq_some, Option.isNone_iff_eq_none] at heq
    exact h.request heq.1.1 heq.2
  | accept c requestId internalAddress connectionData =>
    obtain ⟨conn, hconn, heq⟩ := Option.bind_eq_some_iff.mp heq
    exact hanswer ha heq
  | reject c requestId rejectData => exact hanswer ha heq
  | disconnect c =>
    obtain ⟨t, ht, heq⟩ := Option.map_eq_some_iff.mp heq
    obtain ⟨rfl, -⟩ := Prod.mk.inj heq
    exact h.disconnect ht
  | destroy c =>
    simp only [MasterServer.act, Option.ite_none_right_eq_some, Option.some.injEq,
      Prod.mk.injEq] at heq
    obtain ⟨-, rfl, -⟩ := heq
    exact h.destroy c

/-- As long as answers come from the hosts of the requests that they end, no list holds a freed
request, and an answer goes to the initiator of the request meant exactly if it does so too. -/
theorem answers_routed (as : List (Action κ)) (s : MasterServer κ)
    (hrun : Run step AnswersAddressed start as s) : s.NoneFreed ∧
    ∀ c conn requestId, s.connections c = some conn →
      (∀ internalAddress connectionData, ∃ s' sent,
        s.c2mAcceptArrangedConnection c requestId internalAddress connectionData =
          some (s', sent) ∧
        (s.Routed c requestId (fun initiatorQueryId => .m2cArrangedConnectionAccepted
          initiatorQueryId (possibleAddresses conn.mNetAddress internalAddress) connectionData)
          s' sent ↔ s.Addressed c requestId)) ∧
      ∀ rejectData, ∃ s' sent,
        s.c2mRejectArrangedConnection c requestId rejectData = some (s', sent) ∧
        (s.Routed c requestId
          (fun initiatorQueryId => .m2cArrangedConnectionRejected initiatorQueryId rejectData)
          s' sent ↔ s.Addressed c requestId) := by
  have h : s.Listed := by
    refine hrun.invariant (fun s a t hs ha hstep => ?_) listed_start
    obtain ⟨⟨t', sent⟩, hact, rfl⟩ := Option.map_eq_some_iff.mp hstep
    exact hs.act ha hact
  refine ⟨h.noneFreed, fun c conn requestId hconn => ⟨fun internalAddress connectionData => ?_,
    fun rejectData => ?_⟩⟩
  · obtain ⟨s', sent, heq, hrouted, -⟩ := h.answerRequest_routed hconn requestId
      (fun initiatorQueryId => .m2cArrangedConnectionAccepted initiatorQueryId
        (possibleAddresses conn.mNetAddress internalAddress) connectionData)
    refine ⟨s', sent, ?_, hrouted⟩
    rw [c2mAcceptArrangedConnection, hconn]
    exact heq
  · obtain ⟨s', sent, heq, hrouted, -⟩ := h.answerRequest_routed hconn requestId
      (fun initiatorQueryId => .m2cArrangedConnectionRejected initiatorQueryId rejectData)
    exact ⟨s', sent, heq, hrouted⟩

/-- The second of two clients has asked for the first, which may answer. -/
theorem answers_routed_pending :
    let as : List (Action ℕ) := [.connect 0 ⟨1, 1⟩ 5, .connect 1 ⟨2, 2⟩ 5,
      .request 1 7 (some 0) ⟨0, 0⟩ [] 3 9000]
    ∃ s, exec step start as = some s ∧ s.NoneFreed ∧ ∃ s' sent,
      s.c2mRejectArrangedConnection 0 5 [8] = some (s', sent) ∧
      (s.Routed 0 5 (fun initiatorQueryId => .m2cArrangedConnectionRejected initiatorQueryId [8])
        s' sent ↔ s.Addressed 0 5) := by
  intro as
  obtain ⟨s, hexec⟩ : ∃ s, exec step start as = some s :=
    Option.isSome_iff_exists.mp (by decide)
  have hconn : (exec step start as).map (fun s => s.connections 0) =
      some (some ⟨⟨1, 1⟩, true, 0, 5, 0, [3]⟩) := by decide
  rw [hexec] at hconn
  have hguard : ∀ s : MasterServer ℕ, ∀ a ∈ as, s.AnswersAddressed a := by
    simp [as, AnswersAddressed]
  obtain ⟨hnone, hanswers⟩ := answers_routed as s (Run.of_exec_of_forall hguard hexec)
  exact ⟨s, hexec, hnone, (hanswers 0 _ 5 (Option.some.inj hconn)).2 [8]⟩

/-- A client that accepts its own request leaves the freed request in the list of the host. -/
theorem answers_misrouted :
    ¬ ∀ (as : List (Action ℕ)) (s : MasterServer ℕ), Run step (fun _ _ => True) start as s →
      s.NoneFreed ∧ ∀ c conn requestId internalAddress connectionData s' sent,
        s.connections c = some conn →
        s.c2mAcceptArrangedConnection c requestId internalAddress connectionData =
          some (s', sent) →
        s.Routed c requestId (fun initiatorQueryId => .m2cArrangedConnectionAccepted
          initiatorQueryId (possibleAddresses conn.mNetAddress internalAddress) connectionData)
          s' sent := by
  intro hclaim
  let as : List (Action ℕ) := [.connect 0 ⟨1, 1⟩ 5, .connect 1 ⟨2, 2⟩ 5,
    .request 1 7 (some 0) ⟨0, 0⟩ [] 3 9000, .accept 1 5 ⟨0, 0⟩ []]
  obtain ⟨s, hexec⟩ : ∃ s, exec step start as = some s :=
    Option.isSome_iff_exists.mp (by decide)
  have hlist : (exec step start as).map (fun s => (s.listOf 0, s.requests 3)) =
      some ([3], none) := by decide
  rw [hexec] at hlist
  obtain ⟨hmem, hfreed⟩ := Prod.mk.inj (Option.some.inj hlist)
  have hlive := (hclaim as s (Run.of_exec hexec)).1.connection 0 3 (by rw [hmem]; simp)
  rw [hfreed] at hlive
  exact absurd hlive Bool.false_ne_true

end MasterServer

end TNL
