import TNL.Connection.ConnectionAttempts

/-!
# Connect requests that fail

A connect request that passes the puzzle and the key exchange disconnects the connection
found at its address before the connection class and the rest of the request are looked at.
If those are refused, no connection takes the place of the one that is gone. An arranged
connect request does the same.
-/
namespace TNL
open Library

namespace NetInterface
open InterfaceConnectionState ConnectionAttempts

variable {ν : Type*} [DecidableEq ν]

def setAllowsConnections (s : NetInterface ν) (conn : Bool) : NetInterface ν :=
  { s with mAllowConnections := conn }

/-- The two packets that ask for a connection. -/
def IsRequest : Action ν → Prop
  | .connectRequest _ _ _ _ | .arrangedConnectRequest _ _ _ _ _ _ => True
  | _ => False

/-- The connection found at the address of a request that is not the one it asks for again. -/
def replaced (s : NetInterface ν) (address : Address) (nonce serverNonce : ν) :
    Option (InterfaceConnection ν) :=
  (s.findConnection address).join.filter
    (fun c => ¬ (c.mNonce = nonce ∧ c.mServerNonce = serverNonce))

/-- The connection disconnected for a request that is refused after that. -/
def disconnectedFor (s : NetInterface ν) : Action ν → Option (InterfaceConnection ν)
  | .connectRequest source nonce serverNonce checks =>
    if s.mAllowConnections && checks.identity && checks.puzzle && checks.keys &&
        !(checks.created && checks.accepted) then
      s.replaced source nonce serverNonce
    else none
  | .arrangedConnectRequest source nonce serverNonce decrypted keys accepted =>
    if accepted then none
    else (s.requestedConnection source nonce serverNonce decrypted keys).bind
      (fun _ => (s.findConnection source).join)
  | _ => none

/-- What a request does to the list of the connections. -/
inductive RequestOutcome (s s' : NetInterface ν) (gone : Option (InterfaceConnection ν)) : Prop where
  | established (conn : InterfaceConnection ν) (mem : conn ∈ s'.mConnectionList)
      (new : conn ∉ s.mConnectionList) (gone : gone = none)
  | kept (same : s'.mConnectionList = s.mConnectionList) (gone : gone = none)
  | dropped (conn : InterfaceConnection ν) (mem : conn ∈ s.mConnectionList)
      (rest : s'.mConnectionList.Perm (s.mConnectionList.erase conn)) (gone : gone = some conn)

variable {s s' : NetInterface ν} {source : Address} {nonce serverNonce : ν}
  {found : Option (InterfaceConnection ν)}

/-- What is left when the connection found at an address is disconnected. -/
theorem disconnectFound_list (h : Listed s) (hfind : s.findConnection source = some found)
    (hdisconnect : s.disconnectFound found = some s') :
    (found = none ∧ s'.mConnectionList = s.mConnectionList) ∨
    ∃ conn, found = some conn ∧ conn ∈ s.mConnectionList ∧
      s'.mConnectionList.Perm (s.mConnectionList.erase conn) := by
  obtain ⟨r, hfind', at_address, -⟩ := h.tabled.find source
  obtain rfl : r = found := Option.some.inj (hfind'.symm.trans hfind)
  cases r with
  | none =>
    obtain rfl := Option.some.inj hdisconnect
    exact .inl ⟨rfl, rfl⟩
  | some conn =>
    have hmem := (at_address conn rfl).1
    obtain ⟨t, removed, perm, -⟩ := h.tabled.remove conn
    change s.disconnect conn = some s' at hdisconnect
    rw [NetInterface.disconnect, h.connected conn hmem] at hdisconnect
    change s.removeConnection conn = some s' at hdisconnect
    rw [NetInterface.removeConnection, removed] at hdisconnect
    obtain rfl := Option.some.inj hdisconnect
    exact .inr ⟨conn, rfl, hmem, perm⟩

/-- A request that is refused after the disconnect. -/
theorem outcome_refused (h : Listed s) (hfind : s.findConnection source = some found)
    {s₁ : NetInterface ν} (hdisconnect : s.disconnectFound found = some s₁)
    (list : s'.mConnectionList = s₁.mConnectionList) : RequestOutcome s s' found := by
  cases disconnectFound_list h hfind hdisconnect with
  | inl hnone => exact .kept (list.trans hnone.2) hnone.1
  | inr hsome =>
    obtain ⟨conn, hfound, hmem, hperm⟩ := hsome
    exact .dropped conn hmem (list ▸ hperm) hfound

/-- A request that is accepted adds a connection whose object was not in the list. -/
theorem outcome_accepted (h : Listed s) (hfind : s.findConnection source = some found)
    {s₁ s₂ : NetInterface ν} (hdisconnect : s.disconnectFound found = some s₁)
    (same : s₂.connections = s₁.connections) {conn : InterfaceConnection ν} {s₃ : NetInterface ν}
    (hadd : s₂.addConnection conn = some s₃) (list : s'.mConnectionList = s₃.mConnectionList)
    (fresh : ∀ c ∈ s.mConnectionList, c.pointer ≠ conn.pointer) : RequestOutcome s s' none := by
  obtain ⟨listed, -, -, sub, -⟩ := h.disconnectFound hfind hdisconnect
  have hlist : s₂.mConnectionList = s₁.mConnectionList :=
    congrArg ConnectionTable.mConnectionList same
  have listed₂ : Listed s₂ := ⟨same ▸ listed.tabled, hlist ▸ listed.connected⟩
  obtain ⟨-, -, -, added⟩ := listed₂.addConnection
    (fun c hc => fresh c (sub c (hlist ▸ hc))) hadd
  refine .established { conn with mConnectionState := connected } ?_ (fun hmem => ?_) rfl
  · rw [list, added]
    exact List.mem_append_right _ (List.mem_singleton_self _)
  · exact fresh _ hmem rfl

/-- The connection found is the one to replace, unless the request repeats its nonces. -/
theorem replaced_eq (hfind : s.findConnection source = some found) :
    s.replaced source nonce serverNonce =
      if found.any (fun c => c.mNonce = nonce ∧ c.mServerNonce = serverNonce) then none
      else found := by
  rw [replaced, hfind, Option.join_some]
  cases found with
  | none => rfl
  | some conn =>
    by_cases hsame : conn.mNonce = nonce ∧ conn.mServerNonce = serverNonce
    · simp [Option.filter, hsame]
    · simp [Option.filter, hsame]

theorem outcome_connectRequest (h : ConnectionAttempts.Kept s) {checks : RequestChecks}
    (hact : s.handleConnectRequest source nonce serverNonce checks = some s') :
    RequestOutcome s s' (s.disconnectedFor (.connectRequest source nonce serverNonce checks)) := by
  obtain ⟨found, hfind, -⟩ := h.tabled.find source
  have hfind : s.findConnection source = some found := hfind
  rw [handleConnectRequest, hfind, Option.bind_some] at hact
  simp only [disconnectedFor, replaced_eq hfind]
  by_cases hidentity : (!s.mAllowConnections || !checks.identity) = true
  · rw [if_pos hidentity] at hact
    obtain rfl := Option.some.inj hact
    refine .kept rfl (if_neg fun hpassed => ?_)
    simp only [Bool.or_eq_true, Bool.not_eq_true', Bool.and_eq_true] at hidentity hpassed
    rcases hidentity with hoff | hoff
    · rw [hoff] at hpassed
      exact Bool.false_ne_true hpassed.1.1.1.1
    · rw [hoff] at hpassed
      exact Bool.false_ne_true hpassed.1.1.1.2
  rw [if_neg hidentity] at hact
  by_cases hagain : found.any (fun c => c.mNonce = nonce ∧ c.mServerNonce = serverNonce) = true
  · rw [if_pos hagain] at hact ⊢
    obtain rfl := Option.some.inj hact
    exact .kept rfl (ite_self _)
  rw [if_neg hagain] at hact ⊢
  by_cases hpuzzle : (!checks.puzzle || !checks.keys) = true
  · rw [if_pos hpuzzle] at hact
    obtain rfl := Option.some.inj hact
    refine .kept rfl (if_neg fun hpassed => ?_)
    simp only [Bool.or_eq_true, Bool.not_eq_true', Bool.and_eq_true] at hpuzzle hpassed
    rcases hpuzzle with hoff | hoff
    · rw [hoff] at hpassed
      exact Bool.false_ne_true hpassed.1.1.2
    · rw [hoff] at hpassed
      exact Bool.false_ne_true hpassed.1.2
  rw [if_neg hpuzzle] at hact
  have hpassed : (s.mAllowConnections && checks.identity && checks.puzzle && checks.keys) =
      true := by
    simp only [Bool.or_eq_true, Bool.not_eq_true', not_or, Bool.not_eq_false] at hidentity hpuzzle
    simp [hidentity, hpuzzle]
  rw [hpassed, Bool.true_and]
  obtain ⟨s₁, hdisconnect, hact⟩ := Option.bind_eq_some_iff.mp hact
  cases hcreated : checks.created with
  | false =>
    rw [hcreated] at hact
    obtain rfl := Option.some.inj hact
    exact outcome_refused h.toListed hfind hdisconnect rfl
  | true =>
    rw [hcreated] at hact
    cases haccepted : checks.accepted with
    | false =>
      rw [haccepted] at hact
      obtain rfl := Option.some.inj hact
      exact outcome_refused h.toListed hfind hdisconnect rfl
    | true =>
      rw [haccepted] at hact
      have hobjects := (h.toListed.disconnectFound hfind hdisconnect).2.2.1
      have hadd : NetInterface.addConnection { s₁ with objects := s₁.objects + 1 }
          ⟨s₁.objects, source, false, connected, nonce, serverNonce, false, [], false⟩ =
            some s' := hact
      have fresh : ∀ c ∈ s.mConnectionList, c.pointer ≠ s₁.objects :=
        fun c hc => hobjects ▸ (h.freshListed c hc).ne
      have same : NetInterface.connections { s₁ with objects := s₁.objects + 1 } =
          s₁.connections := rfl
      exact outcome_accepted h.toListed hfind hdisconnect same hadd rfl fresh

theorem outcome_arrangedConnectRequest (h : ConnectionAttempts.Kept s) {decrypted keys accepted : Bool}
    (hact : s.handleArrangedConnectRequest source nonce serverNonce decrypted keys accepted =
      some s') :
    RequestOutcome s s' (s.disconnectedFor
      (.arrangedConnectRequest source nonce serverNonce decrypted keys accepted)) := by
  obtain ⟨found, hfind, -⟩ := h.tabled.find source
  have hfind : s.findConnection source = some found := hfind
  rw [handleArrangedConnectRequest_eq hfind] at hact
  simp only [disconnectedFor, hfind, Option.join_some]
  cases hconn : s.requestedConnection source nonce serverNonce decrypted keys with
  | none =>
    rw [hconn] at hact
    obtain rfl := Option.some.inj hact
    exact .kept rfl (by rw [Option.bind_none, ite_self])
  | some conn =>
    rw [hconn, Option.elim_some] at hact
    obtain ⟨s₁, hdisconnect, hact⟩ := Option.bind_eq_some_iff.mp hact
    cases accepted with
    | false =>
      obtain rfl := Option.some.inj hact
      exact outcome_refused h.toListed hfind hdisconnect rfl
    | true =>
      obtain ⟨s₂, hadd, rfl⟩ := Option.map_eq_some_iff.mp hact
      have hmem := mem_pendingPointers (mem_of_requested hconn)
      have fresh : ∀ c ∈ s.mConnectionList, c.pointer ≠ conn.pointer :=
        fun c hc heq => h.disjoint c hc (heq ▸ hmem)
      exact outcome_accepted h.toListed hfind hdisconnect rfl hadd rfl fresh

theorem outcome_of_request (h : ConnectionAttempts.Kept s) {a : Action ν} (hrequest : IsRequest a)
    (hact : s.act a = some s') : RequestOutcome s s' (s.disconnectedFor a) := by
  cases a with
  | connectRequest source nonce serverNonce checks => exact outcome_connectRequest h hact
  | arrangedConnectRequest source nonce serverNonce decrypted keys accepted =>
    exact outcome_arrangedConnectRequest h hact
  | _ => cases hrequest

end NetInterface

namespace ConnectionAttempts
open InterfaceConnectionState NetInterface

variable {ν : Type*} [DecidableEq ν] {s s' : NetInterface ν} {conn : InterfaceConnection ν}

omit [DecidableEq ν] in
/-- Objects leave the lists. -/
theorem Kept.shrink (h : Kept s) (listed : Listed s')
    (pending : (pendingPointers s').Sublist (pendingPointers s))
    (sub : ∀ c ∈ s'.mConnectionList, c ∈ s.mConnectionList) (objects : s'.objects = s.objects) :
    Kept s' where
  toListed := listed
  nodup := h.nodup.sublist pending
  disjoint c hc hmem := h.disjoint c (sub c hc) (pending.subset hmem)
  freshPending pointer hmem := objects ▸ h.freshPending pointer (pending.subset hmem)
  freshListed c hc := objects ▸ h.freshListed c (sub c hc)

omit [DecidableEq ν] in
theorem Kept.removePendingConnection (h : Kept s) : Kept (s.removePendingConnection conn) :=
  h.shrink ⟨h.tabled, h.connected⟩
    (pendingPointers_removePendingConnection ▸ List.erase_sublist) (fun _ => id) rfl

/-- A new object joins the pending connections. -/
theorem Kept.addPendingConnection (h : Kept s) (hpointer : conn.pointer = s.objects)
    (hadd : s.addPendingConnection conn = some s') : Kept s' := by
  have hsub : (pendingPointers (s.findAndRemovePendingConnection conn.mNetAddress)).Sublist
      (pendingPointers s) := List.eraseP_sublist.map _
  have h₁ : Kept (s.findAndRemovePendingConnection conn.mNetAddress) :=
    h.shrink ⟨h.tabled, h.connected⟩ hsub (fun _ => id) rfl
  rw [NetInterface.addPendingConnection] at hadd
  obtain ⟨found, hfind, hadd⟩ := Option.bind_eq_some_iff.mp hadd
  obtain ⟨s₂, hdisconnect, hadd⟩ := Option.bind_eq_some_iff.mp hadd
  obtain rfl := Option.some.inj hadd
  obtain ⟨listed, pending, objects, sub, -⟩ := h₁.toListed.disconnectFound hfind hdisconnect
  have h₂ : Kept s₂ := h₁.shrink listed (pendingPointers_congr pending ▸ List.Sublist.refl _) sub
    objects
  have hnew : conn.pointer = s₂.objects := hpointer.trans objects.symm
  have effect : Effect s₂ { s₂ with
      mPendingConnections := s₂.mPendingConnections ++ [conn]
      objects := s₂.objects + 1 } [] := by
    refine .started ?_ (fun _ => id) rfl no_ends
    rw [pendingPointers, List.map_append, List.map_singleton, hnew]
    rfl
  exact h₂.of_effect ⟨listed.tabled, listed.connected⟩ effect

/-- The objects of an interface stay different, whatever happens. -/
theorem Kept.act (h : Kept s) {a : Action ν} (hact : s.act a = some s') : Kept s' := by
  have hallowed : Allowed ⟨s, [], [], [], []⟩ a → Kept s' := by
    intro hallowed
    obtain ⟨listed, effect⟩ := act_effect (o := ⟨s, [], [], [], []⟩) h hallowed hact
    exact h.of_effect listed effect
  cases a with
  | connect address nonce serverNonce => exact h.addPendingConnection rfl hact
  | connectArranged address possibleAddresses nonce serverNonce isInitiator =>
    exact h.addPendingConnection rfl hact
  | disconnect pointer => exact hallowed (List.forall_mem_nil _)
  | connectAccept source nonce serverNonce decrypted accepted =>
    cases accepted with
    | true => exact hallowed fun hrefused => Bool.noConfusion hrefused
    | false =>
      change s.handleConnectAccept source nonce serverNonce decrypted false = some s' at hact
      rw [handleConnectAccept_eq] at hact
      cases hconn : s.acceptedConnection source nonce serverNonce decrypted with
      | none =>
        rw [hconn] at hact
        obtain rfl := Option.some.inj hact
        exact h
      | some conn =>
        rw [hconn] at hact
        obtain rfl := Option.some.inj hact
        exact h.removePendingConnection
  | arrangedConnectRequest source nonce serverNonce decrypted keys accepted =>
    cases accepted with
    | true => exact hallowed fun hrefused => Bool.noConfusion hrefused
    | false =>
      obtain ⟨found, hfind, -⟩ := h.tabled.find source
      have hfind : s.findConnection source = some found := hfind
      change s.handleArrangedConnectRequest source nonce serverNonce decrypted keys false =
        some s' at hact
      rw [handleArrangedConnectRequest_eq hfind] at hact
      cases hconn : s.requestedConnection source nonce serverNonce decrypted keys with
      | none =>
        rw [hconn] at hact
        obtain rfl := Option.some.inj hact
        exact h
      | some conn =>
        rw [hconn] at hact
        obtain ⟨s₁, hdisconnect, hact⟩ := Option.bind_eq_some_iff.mp hact
        obtain rfl := Option.some.inj hact
        obtain ⟨listed, pending, objects, sub, -⟩ := h.toListed.disconnectFound hfind hdisconnect
        have h₁ : Kept s₁ := h.shrink listed
          (pendingPointers_congr pending ▸ List.Sublist.refl _) sub objects
        exact h₁.removePendingConnection
  | connectLocal | connectChallengeResponse | puzzleSolved | connectRequest | connectReject
  | punch | disconnectPacket | pendingTimeout | connectionTimeout => exact hallowed trivial

theorem kept_of_run {mAllowConnections : Bool} {as : List (Action ν)}
    (run : Run NetInterface.step (fun _ _ => True) (NetInterface.start mAllowConnections) as s) :
    Kept s := by
  refine run.invariant (fun s a s' h _ taken => ?_)
    (sound_start (ν := ν) mAllowConnections).kept
  rw [NetInterface.step] at taken
  split at taken
  · cases taken
  · exact h.act taken

end ConnectionAttempts

namespace NetInterface
open InterfaceConnectionState ConnectionAttempts

variable {ν : Type*} [DecidableEq ν] {s s' : NetInterface ν}

/-- No connection has become established. -/
def NoneEstablished (s s' : NetInterface ν) : Prop :=
  ∀ c ∈ s'.mConnectionList, c ∈ s.mConnectionList

/-- The established connections are the same, and each is as it was. -/
def SameEstablished (s s' : NetInterface ν) : Prop :=
  ∀ c, c ∈ s'.mConnectionList ↔ c ∈ s.mConnectionList

theorem same_iff_of_outcome (h : Listed s) {gone : Option (InterfaceConnection ν)}
    (outcome : RequestOutcome s s' gone) :
    (NoneEstablished s s' → SameEstablished s s') ↔ gone = none := by
  cases outcome with
  | established conn mem new hgone =>
    exact ⟨fun _ => hgone, fun _ hnone => absurd (hnone conn mem) new⟩
  | kept same hgone =>
    refine ⟨fun _ => hgone, fun _ _ c => ?_⟩
    rw [same]
  | dropped conn mem rest hgone =>
    have hnone : NoneEstablished s s' := fun c hc => List.mem_of_mem_erase (rest.mem_iff.mp hc)
    have hleft : conn ∉ s'.mConnectionList := fun hc =>
      (h.tabled.nodup.mem_erase_iff.mp (rest.mem_iff.mp hc)).1 rfl
    constructor
    · intro hsame
      exact absurd ((hsame hnone conn).mpr mem) hleft
    · intro hkeep
      rw [hkeep] at hgone
      cases hgone

/-- A request of which no connection comes leaves the established connections as they were exactly
if it is not one that is refused after a connection from its address was disconnected for it. -/
theorem failedRequest_same_iff {mAllowConnections allow : Bool} {as : List (Action ν)}
    (run : Run step (fun _ _ => True) (start mAllowConnections) as s) {a : Action ν}
    (request : IsRequest a) (taken : (s.setAllowsConnections allow).step a = some s') :
    (NoneEstablished s s' → SameEstablished s s') ↔
      (s.setAllowsConnections allow).disconnectedFor a = none := by
  have kept : ConnectionAttempts.Kept (s.setAllowsConnections allow) :=
    (ConnectionAttempts.kept_of_run run).shrink
      ⟨(ConnectionAttempts.kept_of_run run).tabled, (ConnectionAttempts.kept_of_run run).connected⟩
      (List.Sublist.refl _) (fun _ => id) rfl
  rw [step] at taken
  split at taken
  case isTrue => cases taken
  case isFalse =>
    have outcome := outcome_of_request kept request taken
    exact same_iff_of_outcome kept.toListed outcome

/-- The request that a peer connects with. -/
def peerRequest : Action ℕ := .connectRequest peerAddress 5 6 ⟨true, true, true, true, true⟩

/-- A request from the same address with a wrong puzzle solution. -/
theorem failedRequest_same_puzzle : ∃ s s' : NetInterface ℕ,
    exec step (start true) [peerRequest] = some s ∧
      (s.setAllowsConnections true).step
        (.connectRequest peerAddress 7 8 ⟨true, false, true, true, true⟩) = some s' ∧
      ((NoneEstablished s s' → SameEstablished s s') ↔ (s.setAllowsConnections true).disconnectedFor
        (.connectRequest peerAddress 7 8 ⟨true, false, true, true, true⟩) = none) := by
  have hconnected : (exec step (start true) [peerRequest]).isSome = true := by decide +kernel
  obtain ⟨s, hs⟩ := Option.isSome_iff_exists.mp hconnected
  have hpuzzle : ((exec step (start true) [peerRequest]).bind fun s =>
      (s.setAllowsConnections true).step
        (.connectRequest peerAddress 7 8 ⟨true, false, true, true, true⟩)).isSome = true := by
    decide +kernel
  obtain ⟨s', hs'⟩ := Option.isSome_iff_exists.mp hpuzzle
  rw [hs, Option.bind_some] at hs'
  exact ⟨s, s', hs, hs', failedRequest_same_iff (.of_exec hs) trivial hs'⟩

/-- A request from the same address for a class that there is not: the peer's connection is gone. -/
theorem unknownClass_disconnects : ¬ ∀ (mAllowConnections : Bool) (as : List (Action ℕ))
    (s s' : NetInterface ℕ) (a : Action ℕ),
    Run step (fun _ _ => True) (start mAllowConnections) as s → IsRequest a →
    s.step a = some s' → NoneEstablished s s' → SameEstablished s s' := by
  intro hclaim
  have hpointers : ((exec step (start true) [peerRequest]).bind fun s =>
      (s.step (.connectRequest peerAddress 7 8 ⟨true, true, true, false, true⟩)).map fun s' =>
        (s.mConnectionList.length, s'.mConnectionList.length)) = some (1, 0) := by
    decide +kernel
  obtain ⟨s, hs, hrest⟩ := Option.bind_eq_some_iff.mp hpointers
  obtain ⟨s', hs', hlengths⟩ := Option.map_eq_some_iff.mp hrest
  obtain ⟨hone, hzero⟩ := Prod.mk.inj hlengths
  have hempty : s'.mConnectionList = [] := List.eq_nil_of_length_eq_zero hzero
  have hnone : NoneEstablished s s' := by
    rw [NoneEstablished, hempty]
    exact List.forall_mem_nil _
  have hsame := hclaim true _ s s'
    (.connectRequest peerAddress 7 8 ⟨true, true, true, false, true⟩) (.of_exec hs) trivial hs'
    hnone
  obtain ⟨conn, hconn⟩ := List.length_eq_one_iff.mp hone
  have hmem := (hsame conn).mpr (hconn ▸ List.mem_singleton_self _)
  rw [hempty] at hmem
  cases hmem

end NetInterface

end TNL
