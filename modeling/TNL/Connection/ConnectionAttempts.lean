import TNL.Connection.NetInterface

/-!
# How the attempts of an interface end

A pending connection waits for `onConnectionEstablished` or `onConnectTerminated`.
Most of the places that take one off the pending list make one of the calls. A
newer attempt to the same address makes none, nor does a connect accept or an
arranged connect request whose data the connection refuses. A disconnect makes
the call but leaves the state of the connection as it was, so that another
disconnect makes it again.
-/
namespace TNL
open Library

/-- A callback of the connection with this pointer. -/
inductive Callback where
  | onConnectionEstablished (pointer : ℕ)
  | onConnectTerminated (pointer : ℕ)
  | onConnectionTerminated (pointer : ℕ)
  deriving DecidableEq, Repr

/-- The connection whose attempt the callback ends. -/
def Callback.ends : Callback → Option ℕ
  | onConnectionEstablished pointer | onConnectTerminated pointer => some pointer
  | onConnectionTerminated _ => none

namespace NetInterface
open InterfaceConnectionState Callback

variable {ν : Type*} [DecidableEq ν]

def disconnectCallbacks (conn : InterfaceConnection ν) : List Callback :=
  match conn.mConnectionState with
  | awaitingChallengeResponse | awaitingConnectResponse => [onConnectTerminated conn.pointer]
  | connected => [onConnectionTerminated conn.pointer]
  | sendingPunchPackets | computingPuzzleSolution => []

/-- The callbacks when the connection found at an address is disconnected. -/
def foundCallbacks (found : Option (InterfaceConnection ν)) : List Callback :=
  found.elim [] disconnectCallbacks

/-- The pending connection a connect accept is for, when its tests are passed. -/
def acceptedConnection (s : NetInterface ν) (address : Address) (nonce serverNonce : ν)
    (decrypted : Bool) : Option (InterfaceConnection ν) :=
  (s.findPendingConnection address).filter (fun conn =>
    conn.mConnectionState = awaitingConnectResponse ∧ conn.mNonce = nonce ∧
      conn.mServerNonce = serverNonce ∧ decrypted = true)

/-- The pending connection a connect reject is for, unless it tries again. -/
def rejectedConnection (s : NetInterface ν) (address : Address) (nonce serverNonce : ν)
    (retry : Bool) : Option (InterfaceConnection ν) :=
  (s.findPendingConnection address).filter (fun conn =>
    (conn.mConnectionState = awaitingChallengeResponse ∨
      conn.mConnectionState = awaitingConnectResponse) ∧ conn.mNonce = nonce ∧
      conn.mServerNonce = serverNonce ∧ ¬ (retry = true ∧ conn.mPuzzleRetried = false))

/-- The pending connection an arranged connect request is for, when its tests are passed. -/
def requestedConnection (s : NetInterface ν) (theAddress : Address) (nonce serverNonce : ν)
    (decrypted keys : Bool) : Option (InterfaceConnection ν) :=
  if ∃ c ∈ (s.findConnection theAddress).join, c.mNonce = nonce then none
  else (s.mPendingConnections.find? (fun c =>
    c.mConnectionState = sendingPunchPackets ∧ c.mIsInitiator = false ∧ nonce = c.mNonce ∧
      c.mPossibleAddresses.any theAddress.isEqualAddress)).filter (fun conn =>
        decrypted = true ∧ serverNonce = conn.mServerNonce ∧ keys = true)

/-- The callbacks of an action. `abandoned` are the connections that have left the pending list in
the state they had there. -/
def callbacks (s : NetInterface ν) (abandoned : List (InterfaceConnection ν)) :
    Action ν → List Callback
  | .connect address _ _ | .connectArranged address _ _ _ _ =>
    foundCallbacks (s.findConnection address).join
  | .connectLocal _ _ => [onConnectionEstablished s.objects]
  | .disconnect pointer =>
    foundCallbacks ((s.mPendingConnections ++ s.mConnectionList ++ abandoned).find?
      (·.pointer = pointer))
  | .connectChallengeResponse _ _ _ _ _ | .puzzleSolved _ | .punch _ _ _ _ _ => []
  | .connectRequest source nonce serverNonce checks =>
    let connect := (s.findConnection source).join
    if !s.mAllowConnections || !checks.identity then []
    else if connect.any (fun c => c.mNonce = nonce ∧ c.mServerNonce = serverNonce) then []
    else if !checks.puzzle || !checks.keys then []
    else foundCallbacks connect ++
      if checks.created && checks.accepted then [onConnectionEstablished s.objects] else []
  | .connectAccept source nonce serverNonce decrypted accepted =>
    (s.acceptedConnection source nonce serverNonce decrypted).elim [] (fun conn =>
      if accepted then [onConnectionEstablished conn.pointer] else [])
  | .connectReject source nonce serverNonce retry _ =>
    (s.rejectedConnection source nonce serverNonce retry).elim [] (fun conn =>
      [onConnectTerminated conn.pointer])
  | .arrangedConnectRequest source nonce serverNonce decrypted keys accepted =>
    (s.requestedConnection source nonce serverNonce decrypted keys).elim [] (fun conn =>
      foundCallbacks (s.findConnection source).join ++
        if accepted then [onConnectionEstablished conn.pointer] else [])
  | .disconnectPacket source nonce serverNonce decrypted =>
    (s.findConnection source).join.elim [] (fun conn =>
      if nonce = conn.mNonce ∧ serverNonce = conn.mServerNonce ∧ decrypted = true then
        [onConnectionTerminated conn.pointer] else [])
  | .pendingTimeout pointer =>
    (s.mPendingConnections.find? (·.pointer = pointer)).elim [] (fun conn =>
      [onConnectTerminated conn.pointer])
  | .connectionTimeout pointer =>
    (s.mConnectionList.find? (fun c => c.pointer = pointer ∧ c.isLocal = false)).elim []
      (fun conn => [onConnectionTerminated conn.pointer])

/-- The connections that an action takes off the pending list without changing their state. -/
def abandons (s : NetInterface ν) : Action ν → List (InterfaceConnection ν)
  | .connect address _ _ | .connectArranged address _ _ _ _ =>
    (s.findPendingConnection address).toList
  | .disconnect pointer =>
    ((s.mPendingConnections ++ s.mConnectionList).find? (·.pointer = pointer)).toList.filter
      (fun conn => conn.mConnectionState = awaitingChallengeResponse ∨
        conn.mConnectionState = awaitingConnectResponse)
  | .connectAccept source nonce serverNonce decrypted accepted =>
    if accepted then [] else (s.acceptedConnection source nonce serverNonce decrypted).toList
  | .arrangedConnectRequest source nonce serverNonce decrypted keys accepted =>
    if accepted then [] else (s.requestedConnection source nonce serverNonce decrypted keys).toList
  | _ => []

end NetInterface

/-- An interface with the connections that have left the pending list in the state they had there,
those that have left it at all, those that have entered the connection list, and the callbacks. -/
structure ConnectionAttempts (ν : Type*) where
  interface : NetInterface ν
  abandoned : List (InterfaceConnection ν)
  left : List ℕ
  entered : List ℕ
  called : List Callback

namespace ConnectionAttempts
open InterfaceConnectionState Callback NetInterface

variable {ν : Type*} [DecidableEq ν]

def pendingPointers (s : NetInterface ν) : List ℕ := s.mPendingConnections.map (·.pointer)

def listedPointers (s : NetInterface ν) : List ℕ := s.mConnectionList.map (·.pointer)

def start (mAllowConnections : Bool) : ConnectionAttempts ν :=
  ⟨.start mAllowConnections, [], [], [], []⟩

/-- The log is written from the lists before and after the action. -/
def step (o : ConnectionAttempts ν) (a : Action ν) : Option (ConnectionAttempts ν) :=
  (o.interface.step a).map (fun s =>
    { interface := s
      abandoned := o.abandoned ++ o.interface.abandons a
      left := o.left ++ (pendingPointers o.interface).filter (· ∉ pendingPointers s)
      entered := o.entered ++ (listedPointers s).filter (· ∉ listedPointers o.interface)
      called := o.called ++ o.interface.callbacks o.abandoned a })

/-- The calls that end the attempt of a connection. -/
def endings (called : List Callback) (pointer : ℕ) : List Callback :=
  called.filter (fun cb => cb.ends = some pointer)

/-- Every connection that has left the pending list was established and is told so, or is told that
its attempt was terminated, and no connection is told twice. -/
def Answered (o : ConnectionAttempts ν) : Prop :=
  (∀ pointer ∈ o.left, (pointer ∈ o.entered ∧ onConnectionEstablished pointer ∈ o.called) ∨
    onConnectTerminated pointer ∈ o.called) ∧
  ∀ pointer, (endings o.called pointer).length ≤ 1

/-- No attempt is made to an address that another one is being made to, no connection refuses the
data of a packet that would establish it, and none is disconnected again after a disconnect has
ended its attempt. -/
def Allowed (o : ConnectionAttempts ν) : Action ν → Prop
  | .connect address _ _ | .connectArranged address _ _ _ _ =>
    o.interface.findPendingConnection address = none
  | .disconnect pointer => ∀ conn ∈ o.abandoned, conn.pointer ≠ pointer
  | .connectAccept source nonce serverNonce decrypted accepted => accepted = false →
    o.interface.acceptedConnection source nonce serverNonce decrypted = none
  | .arrangedConnectRequest source nonce serverNonce decrypted keys accepted => accepted = false →
    o.interface.requestedConnection source nonce serverNonce decrypted keys = none
  | _ => True

/-- What an action that is allowed can do: nothing to an attempt, start one, terminate one,
establish one, or establish a connection that was never pending. -/
inductive Effect (s s' : NetInterface ν) (called : List Callback) : Prop where
  | none (pending : pendingPointers s' = pendingPointers s)
      (listed : ∀ c ∈ s'.mConnectionList, c ∈ s.mConnectionList)
      (objects : s.objects ≤ s'.objects) (ends : ∀ cb ∈ called, cb.ends = .none)
  | started (pending : pendingPointers s' = pendingPointers s ++ [s.objects])
      (listed : ∀ c ∈ s'.mConnectionList, c ∈ s.mConnectionList)
      (objects : s'.objects = s.objects + 1) (ends : ∀ cb ∈ called, cb.ends = .none)
  | terminated (pointer : ℕ) (mem : pointer ∈ pendingPointers s)
      (pending : pendingPointers s' = (pendingPointers s).erase pointer)
      (listed : ∀ c ∈ s'.mConnectionList, c ∈ s.mConnectionList)
      (objects : s'.objects = s.objects) (ends : called = [onConnectTerminated pointer])
  | established (pointer : ℕ) (mem : pointer ∈ pendingPointers s)
      (pending : pendingPointers s' = (pendingPointers s).erase pointer)
      (listed : ∀ c ∈ s'.mConnectionList, c ∈ s.mConnectionList ∨ c.pointer = pointer)
      (entered : pointer ∈ listedPointers s') (objects : s'.objects = s.objects)
      (others : List Callback) (others_ends : ∀ cb ∈ others, cb.ends = .none)
      (ends : called = others ++ [onConnectionEstablished pointer])
  | accepted (pending : pendingPointers s' = pendingPointers s)
      (listed : ∀ c ∈ s'.mConnectionList, c ∈ s.mConnectionList ∨ c.pointer = s.objects)
      (objects : s'.objects = s.objects + 1)
      (others : List Callback) (others_ends : ∀ cb ∈ others, cb.ends = .none)
      (ends : called = others ++ [onConnectionEstablished s.objects])

/-- The connections of the list are in the table, and connected. -/
structure Listed (s : NetInterface ν) : Prop where
  tabled : ConnectionTable.Tabled InterfaceConnection.mNetAddress s.connections
  connected : ∀ c ∈ s.mConnectionList, c.mConnectionState = connected

/-- The objects of an interface are different. -/
structure Kept (s : NetInterface ν) : Prop extends Listed s where
  nodup : (pendingPointers s).Nodup
  disjoint : ∀ c ∈ s.mConnectionList, c.pointer ∉ pendingPointers s
  freshPending : ∀ pointer ∈ pendingPointers s, pointer < s.objects
  freshListed : ∀ c ∈ s.mConnectionList, c.pointer < s.objects

variable {s s' : NetInterface ν} {conn : InterfaceConnection ν} {called : List Callback}

section lists

omit [DecidableEq ν]

theorem pendingPointers_removePendingConnection :
    pendingPointers (s.removePendingConnection conn) = (pendingPointers s).erase conn.pointer := by
  rw [pendingPointers, pendingPointers, NetInterface.removePendingConnection]
  dsimp only
  induction s.mPendingConnections with
  | nil => rfl
  | cons c rest ih =>
    by_cases hc : c.pointer = conn.pointer
    · rw [List.eraseP_cons_of_pos (by simpa using hc), List.map_cons, hc, List.erase_cons_head]
    · rw [List.eraseP_cons_of_neg (by simpa using hc), List.map_cons, List.map_cons, ih,
        List.erase_cons_tail (by simpa using hc)]

theorem pendingPointers_setPending :
    pendingPointers (s.setPending conn) = pendingPointers s := by
  rw [pendingPointers, pendingPointers, NetInterface.setPending, List.map_map]
  refine List.map_congr_left (fun c _ => ?_)
  by_cases hc : c.pointer = conn.pointer <;> simp [hc]

theorem pendingPointers_congr (pending : s'.mPendingConnections = s.mPendingConnections) :
    pendingPointers s' = pendingPointers s := by rw [pendingPointers, pending, pendingPointers]

theorem mem_pendingPointers (hconn : conn ∈ s.mPendingConnections) :
    conn.pointer ∈ pendingPointers s := List.mem_map_of_mem hconn

end lists

theorem pointers_findPunched (theAddress : Address) (firstNonce : ν)
    (pending : List (InterfaceConnection ν)) :
    (findPunched theAddress firstNonce pending).1.map (·.pointer) = pending.map (·.pointer) := by
  induction pending with
  | nil => rfl
  | cons conn rest ih =>
    rw [findPunched]
    dsimp only
    split_ifs <;> simp [ih]

theorem no_ends : ∀ cb ∈ ([] : List Callback), cb.ends = none := List.forall_mem_nil _

theorem Listed.removeConnection (h : Listed s) (hremove : s.removeConnection conn = some s') :
    Listed s' ∧ s'.mPendingConnections = s.mPendingConnections ∧ s'.objects = s.objects ∧
      ∀ c ∈ s'.mConnectionList, c ∈ s.mConnectionList := by
  obtain ⟨t, removed, perm, tabled⟩ := h.tabled.remove conn
  rw [NetInterface.removeConnection, removed] at hremove
  obtain rfl := Option.some.inj hremove
  have sub : ∀ c ∈ t.mConnectionList, c ∈ s.mConnectionList :=
    fun c hc => List.mem_of_mem_erase (perm.mem_iff.mp hc)
  exact ⟨⟨tabled, fun c hc => h.connected c (sub c hc)⟩, rfl, rfl, sub⟩

theorem Listed.addConnection (h : Listed s)
    (new : ∀ c ∈ s.mConnectionList, c.pointer ≠ conn.pointer)
    (hadd : s.addConnection conn = some s') :
    Listed s' ∧ s'.mPendingConnections = s.mPendingConnections ∧ s'.objects = s.objects ∧
      s'.mConnectionList = s.mConnectionList ++ [{ conn with mConnectionState := .connected }] := by
  have absent : { conn with mConnectionState := .connected } ∉ s.mConnectionList :=
    fun hc => new _ hc rfl
  obtain ⟨t, added, list, tabled⟩ := h.tabled.add absent
  rw [NetInterface.addConnection, added] at hadd
  obtain rfl := Option.some.inj hadd
  refine ⟨⟨tabled, fun c hc => ?_⟩, rfl, rfl, list⟩
  change c ∈ t.mConnectionList at hc
  rw [list] at hc
  obtain hc | hc := List.mem_append.mp hc
  · exact h.connected c hc
  · rw [List.mem_singleton.mp hc]

/-- Disconnecting the connection found at an address takes it off the list, and ends no attempt. -/
theorem Listed.disconnectFound (h : Listed s) {address : Address}
    {found : Option (InterfaceConnection ν)} (hfind : s.findConnection address = some found)
    (hdisconnect : s.disconnectFound found = some s') :
    Listed s' ∧ s'.mPendingConnections = s.mPendingConnections ∧ s'.objects = s.objects ∧
      (∀ c ∈ s'.mConnectionList, c ∈ s.mConnectionList) ∧
      ∀ cb ∈ foundCallbacks found, cb.ends = none := by
  obtain ⟨r, hfind', at_address, -⟩ := h.tabled.find address
  obtain rfl : r = found := Option.some.inj (hfind'.symm.trans hfind)
  cases r with
  | none =>
    obtain rfl := Option.some.inj hdisconnect
    exact ⟨h, rfl, rfl, fun _ => id, no_ends⟩
  | some conn =>
    have hstate := h.connected conn (at_address conn rfl).1
    change s.disconnect conn = some s' at hdisconnect
    rw [NetInterface.disconnect, hstate] at hdisconnect
    obtain ⟨listed, pending, objects, sub⟩ := h.removeConnection hdisconnect
    refine ⟨listed, pending, objects, sub, fun cb hcb => ?_⟩
    rw [foundCallbacks, Option.elim_some, disconnectCallbacks, hstate] at hcb
    rw [List.mem_singleton.mp hcb]
    rfl

omit [DecidableEq ν] in
/-- The connections of the list and the objects of the pending ones are the same. -/
theorem effect_of_same (h : Listed s) (pending : pendingPointers s' = pendingPointers s)
    (connections : s'.connections = s.connections) (objects : s'.objects = s.objects)
    (ends : ∀ cb ∈ called, cb.ends = none) : Listed s' ∧ Effect s s' called := by
  have list : s'.mConnectionList = s.mConnectionList :=
    congrArg ConnectionTable.mConnectionList connections
  refine ⟨⟨connections ▸ h.tabled, list ▸ h.connected⟩, .none pending ?_ objects.ge ends⟩
  rw [list]
  exact fun _ => id

theorem effect_addPendingConnection (h : Listed s) (hpointer : conn.pointer = s.objects)
    (hfree : s.findPendingConnection conn.mNetAddress = none)
    (hadd : s.addPendingConnection conn = some s') :
    Listed s' ∧ Effect s s' (foundCallbacks (s.findConnection conn.mNetAddress).join) := by
  have hkept : s.findAndRemovePendingConnection conn.mNetAddress = s := by
    rw [findAndRemovePendingConnection, List.eraseP_of_forall_not]
    exact fun c hc => List.find?_eq_none.mp hfree c hc
  rw [addPendingConnection, hkept] at hadd
  obtain ⟨found, hfind, hadd⟩ := Option.bind_eq_some_iff.mp hadd
  obtain ⟨s₁, hdisconnect, hadd⟩ := Option.bind_eq_some_iff.mp hadd
  obtain rfl := Option.some.inj hadd
  obtain ⟨listed, pending, objects, sub, ends⟩ := h.disconnectFound hfind hdisconnect
  rw [hfind]
  refine ⟨⟨listed.tabled, listed.connected⟩, .started ?_ sub (congrArg (· + 1) objects) ends⟩
  rw [pendingPointers, List.map_append, pending, List.map_singleton, hpointer]
  rfl

theorem effect_connectLocal (h : Kept s) {nonce serverNonce : ν}
    (hlocal : s.connectLocal nonce serverNonce = some s') :
    Listed s' ∧ Effect s s' [onConnectionEstablished s.objects] := by
  have h₁ : Listed { s with objects := s.objects + 1 } := ⟨h.tabled, h.connected⟩
  obtain ⟨listed, pending, objects, list⟩ :=
    h₁.addConnection (fun c hc => (h.freshListed c hc).ne) hlocal
  refine ⟨listed, .accepted (pendingPointers_congr pending) ?_ objects [] no_ends rfl⟩
  intro c hc
  rw [list] at hc
  obtain hc | hc := List.mem_append.mp hc
  · exact .inl hc
  · exact .inr (by rw [List.mem_singleton.mp hc])

omit [DecidableEq ν] in
/-- A pending connection leaves the list with the call that its attempt was terminated. -/
theorem effect_removePendingConnection (h : Listed s) (hconn : conn ∈ s.mPendingConnections) :
    Listed (s.removePendingConnection conn) ∧
      Effect s (s.removePendingConnection conn) [onConnectTerminated conn.pointer] :=
  ⟨⟨h.tabled, h.connected⟩, .terminated conn.pointer (mem_pendingPointers hconn)
    pendingPointers_removePendingConnection (fun _ => id) rfl rfl⟩

/-- A connection of the list leaves it. -/
theorem effect_removeConnection (h : Listed s) (hremove : s.removeConnection conn = some s')
    (ends : ∀ cb ∈ called, cb.ends = none) : Listed s' ∧ Effect s s' called := by
  obtain ⟨listed, pending, objects, sub⟩ := h.removeConnection hremove
  exact ⟨listed, .none (pendingPointers_congr pending) sub objects.ge ends⟩

/-- A pending connection moves to the list. -/
theorem effect_establish (h : Kept s) (hconn : conn ∈ s.mPendingConnections) {s₁ : NetInterface ν}
    (listed₁ : Listed s₁) (pending₁ : s₁.mPendingConnections = s.mPendingConnections)
    (objects₁ : s₁.objects = s.objects) (sub₁ : ∀ c ∈ s₁.mConnectionList, c ∈ s.mConnectionList)
    {address : Address} {others : List Callback} (ends : ∀ cb ∈ others, cb.ends = none)
    (hadd : (s₁.addConnection { conn with mNetAddress := address }).map
      (·.removePendingConnection conn) = some s') :
    Listed s' ∧ Effect s s' (others ++ [onConnectionEstablished conn.pointer]) := by
  obtain ⟨s₂, hadded, rfl⟩ := Option.map_eq_some_iff.mp hadd
  have hmem := mem_pendingPointers hconn
  have new : ∀ c ∈ s₁.mConnectionList, c.pointer ≠ conn.pointer :=
    fun c hc heq => h.disjoint c (sub₁ c hc) (heq ▸ hmem)
  obtain ⟨listed, pending, objects, list⟩ := listed₁.addConnection (by exact new) hadded
  refine ⟨⟨listed.tabled, listed.connected⟩,
    .established conn.pointer hmem ?_ ?_ ?_ (objects.trans objects₁) others ends rfl⟩
  · rw [pendingPointers_removePendingConnection,
      pendingPointers_congr (pending.trans pending₁)]
  · intro c hc
    change c ∈ s₂.mConnectionList at hc
    rw [list] at hc
    obtain hc | hc := List.mem_append.mp hc
    · exact .inl (sub₁ c hc)
    · exact .inr (by rw [List.mem_singleton.mp hc])
  · change conn.pointer ∈ s₂.mConnectionList.map _
    rw [list, List.map_append]
    exact List.mem_append_right _ List.mem_cons_self

section packets

variable {source : Address} {nonce serverNonce : ν}

omit [DecidableEq ν] in
theorem mem_of_findPending (hfind : s.findPendingConnection source = some conn) :
    conn ∈ s.mPendingConnections := List.mem_of_find?_eq_some hfind

theorem handleConnectAccept_eq {decrypted accepted : Bool} :
    s.handleConnectAccept source nonce serverNonce decrypted accepted =
      (s.acceptedConnection source nonce serverNonce decrypted).elim (some s) (fun conn =>
        if accepted then (s.addConnection conn).map (·.removePendingConnection conn)
        else some (s.removePendingConnection conn)) := by
  rw [handleConnectAccept, acceptedConnection]
  cases s.findPendingConnection source with
  | none => rfl
  | some conn =>
    by_cases hstate : conn.mConnectionState = awaitingConnectResponse
    · by_cases hnonce : conn.mNonce = nonce
      · by_cases hserver : conn.mServerNonce = serverNonce
        · cases decrypted <;> cases accepted <;> simp [Option.filter, hstate, hnonce, hserver]
        · simp [Option.filter, hserver]
      · simp [Option.filter, hnonce]
    · simp [Option.filter, hstate]

theorem mem_of_accepted {decrypted : Bool}
    (haccepted : s.acceptedConnection source nonce serverNonce decrypted = some conn) :
    conn ∈ s.mPendingConnections :=
  mem_of_findPending (Option.filter_eq_some_iff.mp haccepted).1

theorem effect_connectAccept (h : Kept s) {decrypted accepted : Bool}
    (hallowed : accepted = false → s.acceptedConnection source nonce serverNonce decrypted = none)
    (hact : s.handleConnectAccept source nonce serverNonce decrypted accepted = some s') :
    Listed s' ∧ Effect s s' ((s.acceptedConnection source nonce serverNonce decrypted).elim []
      (fun conn => if accepted then [onConnectionEstablished conn.pointer] else [])) := by
  rw [handleConnectAccept_eq] at hact
  cases hconn : s.acceptedConnection source nonce serverNonce decrypted with
  | none =>
    rw [hconn] at hact
    obtain rfl := Option.some.inj hact
    exact effect_of_same h.toListed rfl rfl rfl no_ends
  | some conn =>
    have haccepted : accepted = true := by
      by_contra hrefused
      have := hallowed (Bool.not_eq_true _ ▸ hrefused)
      rw [hconn] at this
      cases this
    rw [hconn, Option.elim_some, if_pos haccepted] at hact
    rw [Option.elim_some, if_pos haccepted]
    have hestablish : (s.addConnection { conn with mNetAddress := conn.mNetAddress }).map
        (·.removePendingConnection conn) = some s' := hact
    exact effect_establish h (mem_of_accepted hconn) h.toListed rfl rfl (fun _ => id) no_ends
      hestablish

/-- Whether the connection found at the address is the one that is rejected. -/
theorem rejectedConnection_of_find {retry : Bool}
    (hfind : s.findPendingConnection source = some conn) :
    s.rejectedConnection source nonce serverNonce retry =
      if (conn.mConnectionState = awaitingChallengeResponse ∨
          conn.mConnectionState = awaitingConnectResponse) ∧ conn.mNonce = nonce ∧
          conn.mServerNonce = serverNonce ∧ ¬ (retry = true ∧ conn.mPuzzleRetried = false)
      then some conn else none := by
  rw [rejectedConnection, hfind, Option.filter]
  simp only [decide_eq_true_eq]

theorem effect_connectReject (h : Kept s) {retry : Bool} {newNonce : ν} :
    Listed (s.handleConnectReject source nonce serverNonce retry newNonce) ∧
      Effect s (s.handleConnectReject source nonce serverNonce retry newNonce)
        ((s.rejectedConnection source nonce serverNonce retry).elim []
          (fun conn => [onConnectTerminated conn.pointer])) := by
  cases hfind : s.findPendingConnection source with
  | none =>
    rw [handleConnectReject, rejectedConnection, hfind]
    exact effect_of_same h.toListed rfl rfl rfl no_ends
  | some conn =>
    rw [handleConnectReject, rejectedConnection_of_find hfind, hfind]
    dsimp only
    split_ifs with hstate hrejected hnonce hrejected hretry hrejected hrejected
    · exact absurd hrejected.1 (by tauto)
    · exact effect_of_same h.toListed rfl rfl rfl no_ends
    · exact absurd hrejected.2 (by tauto)
    · exact effect_of_same h.toListed rfl rfl rfl no_ends
    · exact absurd (by simpa using hretry) hrejected.2.2.2
    · exact effect_of_same h.toListed pendingPointers_setPending rfl rfl no_ends
    · exact effect_removePendingConnection h.toListed (mem_of_findPending hfind)
    · push Not at hstate hnonce
      refine absurd ⟨?_, hnonce.1, hnonce.2, by simpa using hretry⟩ hrejected
      by_contra hwaits
      exact hwaits (.inr (hstate (fun hchallenge => hwaits (.inl hchallenge))))

theorem effect_connectChallengeResponse (h : Kept s) {acceptable solved : Bool} :
    Listed (s.handleConnectChallengeResponse source nonce serverNonce acceptable solved) ∧
      Effect s (s.handleConnectChallengeResponse source nonce serverNonce acceptable solved) [] := by
  rw [handleConnectChallengeResponse]
  cases s.findPendingConnection source with
  | none => exact effect_of_same h.toListed rfl rfl rfl no_ends
  | some conn =>
    dsimp only
    split_ifs
    · exact effect_of_same h.toListed rfl rfl rfl no_ends
    · exact effect_of_same h.toListed pendingPointers_setPending rfl rfl no_ends
    · exact effect_of_same h.toListed pendingPointers_setPending rfl rfl no_ends
    · exact effect_of_same h.toListed pendingPointers_setPending rfl rfl no_ends

omit [DecidableEq ν] in
theorem effect_puzzleSolved (h : Kept s) {pointer : ℕ} :
    Listed (s.continuePuzzleSolution pointer) ∧
      Effect s (s.continuePuzzleSolution pointer) [] := by
  rw [continuePuzzleSolution]
  cases s.mPendingConnections.find? (fun c => c.pointer = pointer) with
  | none => exact effect_of_same h.toListed rfl rfl rfl no_ends
  | some conn =>
    dsimp only
    split_ifs
    · exact effect_of_same h.toListed pendingPointers_setPending rfl rfl no_ends
    · exact effect_of_same h.toListed rfl rfl rfl no_ends

theorem effect_punch (h : Kept s) {decrypted keys : Bool} :
    Listed (s.handlePunch source nonce serverNonce decrypted keys) ∧
      Effect s (s.handlePunch source nonce serverNonce decrypted keys) [] := by
  have hfound := pointers_findPunched source nonce s.mPendingConnections
  rw [handlePunch]
  dsimp only
  cases (findPunched source nonce s.mPendingConnections).2 with
  | none => exact effect_of_same h.toListed hfound rfl rfl no_ends
  | some conn =>
    dsimp only
    split_ifs
    · exact effect_of_same h.toListed hfound rfl rfl no_ends
    · exact effect_of_same h.toListed (pendingPointers_setPending.trans hfound) rfl rfl no_ends

theorem effect_connectRequest (h : Kept s) {checks : RequestChecks}
    (hact : s.handleConnectRequest source nonce serverNonce checks = some s') :
    Listed s' ∧ Effect s s'
      (s.callbacks [] (.connectRequest source nonce serverNonce checks)) := by
  have hsame : Listed s ∧ Effect s s [] := effect_of_same h.toListed rfl rfl rfl no_ends
  obtain ⟨found, hfind, -⟩ := h.tabled.find source
  have hfind : s.findConnection source = some found := hfind
  rw [handleConnectRequest, hfind, Option.bind_some] at hact
  simp only [callbacks, hfind, Option.join_some]
  by_cases hidentity : (!s.mAllowConnections || !checks.identity) = true
  · rw [if_pos hidentity] at hact ⊢
    obtain rfl := Option.some.inj hact
    exact hsame
  rw [if_neg hidentity] at hact ⊢
  by_cases hagain : found.any (fun c => c.mNonce = nonce ∧ c.mServerNonce = serverNonce) = true
  · rw [if_pos hagain] at hact ⊢
    obtain rfl := Option.some.inj hact
    exact hsame
  rw [if_neg hagain] at hact ⊢
  by_cases hpuzzle : (!checks.puzzle || !checks.keys) = true
  · rw [if_pos hpuzzle] at hact ⊢
    obtain rfl := Option.some.inj hact
    exact hsame
  rw [if_neg hpuzzle] at hact ⊢
  obtain ⟨s₁, hdisconnect, hact⟩ := Option.bind_eq_some_iff.mp hact
  obtain ⟨listed, pending, objects, sub, ends⟩ := h.toListed.disconnectFound hfind hdisconnect
  cases hcreated : checks.created with
  | false =>
    rw [hcreated] at hact
    obtain rfl := Option.some.inj hact
    rw [Bool.false_and, if_neg Bool.false_ne_true, List.append_nil]
    exact ⟨listed, .none (pendingPointers_congr pending) sub objects.ge ends⟩
  | true =>
    rw [hcreated] at hact
    rw [Bool.true_and]
    cases haccepted : checks.accepted with
    | false =>
      rw [haccepted] at hact
      obtain rfl := Option.some.inj hact
      rw [if_neg Bool.false_ne_true, List.append_nil]
      exact ⟨⟨listed.tabled, listed.connected⟩, .none (pendingPointers_congr pending) sub
        (objects.ge.trans (Nat.le_succ _)) ends⟩
    | true =>
      rw [haccepted] at hact
      have fresh : ∀ c ∈ s₁.mConnectionList, c.pointer ≠ s₁.objects :=
        fun c hc => objects ▸ (h.freshListed c (sub c hc)).ne
      have listed₁ : Listed { s₁ with objects := s₁.objects + 1 } :=
        ⟨listed.tabled, listed.connected⟩
      obtain ⟨listed₂, pending₂, objects₂, list⟩ := listed₁.addConnection (by exact fresh) hact
      refine ⟨listed₂, .accepted (pendingPointers_congr (pending₂.trans pending)) ?_
        (objects₂.trans (congrArg (· + 1) objects)) (foundCallbacks found) ends rfl⟩
      intro c hc
      rw [list] at hc
      obtain hc | hc := List.mem_append.mp hc
      · exact .inl (sub c hc)
      · exact .inr (by rw [List.mem_singleton.mp hc]; exact objects)

theorem mem_of_requested {decrypted keys : Bool}
    (hrequested : s.requestedConnection source nonce serverNonce decrypted keys = some conn) :
    conn ∈ s.mPendingConnections := by
  rw [requestedConnection] at hrequested
  split_ifs at hrequested
  exact List.mem_of_find?_eq_some (Option.filter_eq_some_iff.mp hrequested).1

theorem handleArrangedConnectRequest_eq {decrypted keys accepted : Bool}
    {found : Option (InterfaceConnection ν)} (hfind : s.findConnection source = some found) :
    s.handleArrangedConnectRequest source nonce serverNonce decrypted keys accepted =
      (s.requestedConnection source nonce serverNonce decrypted keys).elim (some s) (fun conn =>
        (s.disconnectFound found).bind (fun s =>
          if accepted then (s.addConnection { conn with mNetAddress := source }).map
            (·.removePendingConnection conn)
          else some (s.removePendingConnection conn))) := by
  rw [handleArrangedConnectRequest, requestedConnection, hfind, Option.bind_some, Option.join_some]
  by_cases hagain : found.any (fun c => c.mNonce = nonce) = true
  · rw [if_pos hagain, if_pos (by simpa [Option.any_eq_true] using hagain)]
    rfl
  · rw [if_neg hagain, if_neg (by simpa [Option.any_eq_true] using hagain)]
    cases hpending : s.mPendingConnections.find? (fun c => c.mConnectionState = sendingPunchPackets ∧
        c.mIsInitiator = false ∧ nonce = c.mNonce ∧
          c.mPossibleAddresses.any source.isEqualAddress) with
    | none => rfl
    | some conn =>
      cases decrypted with
      | false => rfl
      | true =>
        cases keys with
        | false => simp [Option.filter]
        | true =>
          by_cases hserver : serverNonce = conn.mServerNonce
          · cases accepted <;> simp [Option.filter, hserver]
          · simp [Option.filter, hserver]

theorem effect_arrangedConnectRequest (h : Kept s) {decrypted keys accepted : Bool}
    (hallowed : accepted = false →
      s.requestedConnection source nonce serverNonce decrypted keys = none)
    (hact : s.handleArrangedConnectRequest source nonce serverNonce decrypted keys accepted =
      some s') :
    Listed s' ∧ Effect s s' (s.callbacks []
      (.arrangedConnectRequest source nonce serverNonce decrypted keys accepted)) := by
  obtain ⟨found, hfind, -⟩ := h.tabled.find source
  have hfind : s.findConnection source = some found := hfind
  rw [handleArrangedConnectRequest_eq hfind] at hact
  simp only [callbacks]
  cases hconn : s.requestedConnection source nonce serverNonce decrypted keys with
  | none =>
    rw [hconn] at hact
    obtain rfl := Option.some.inj hact
    exact effect_of_same h.toListed rfl rfl rfl no_ends
  | some conn =>
    have haccepted : accepted = true := by
      by_contra hrefused
      have := hallowed (Bool.not_eq_true _ ▸ hrefused)
      rw [hconn] at this
      cases this
    rw [hconn, Option.elim_some] at hact
    obtain ⟨s₁, hdisconnect, hact⟩ := Option.bind_eq_some_iff.mp hact
    obtain ⟨listed, pending, objects, sub, ends⟩ := h.toListed.disconnectFound hfind hdisconnect
    rw [if_pos haccepted] at hact
    rw [Option.elim_some, if_pos haccepted, hfind]
    exact effect_establish h (mem_of_requested hconn) listed pending objects sub ends hact

theorem effect_disconnectPacket (h : Kept s) {decrypted : Bool}
    (hact : s.handleDisconnect source nonce serverNonce decrypted = some s') :
    Listed s' ∧ Effect s s' (s.callbacks []
      (.disconnectPacket source nonce serverNonce decrypted)) := by
  have hends : ∀ cb ∈ s.callbacks [] (.disconnectPacket source nonce serverNonce decrypted),
      cb.ends = none := by
    intro cb hcb
    simp only [callbacks] at hcb
    cases hfound : (s.findConnection source).join with
    | none =>
      rw [hfound] at hcb
      cases hcb
    | some conn =>
      rw [hfound, Option.elim_some] at hcb
      split_ifs at hcb
      · rw [List.mem_singleton.mp hcb]
        rfl
      · cases hcb
  obtain ⟨found, hfind, -⟩ := h.tabled.find source
  have hfind : s.findConnection source = some found := hfind
  rw [handleDisconnect, hfind, Option.bind_some] at hact
  cases found with
  | none =>
    obtain rfl := Option.some.inj hact
    exact effect_of_same h.toListed rfl rfl rfl hends
  | some conn =>
    dsimp only at hact
    split_ifs at hact
    · obtain rfl := Option.some.inj hact
      exact effect_of_same h.toListed rfl rfl rfl hends
    · obtain rfl := Option.some.inj hact
      exact effect_of_same h.toListed rfl rfl rfl hends
    · exact effect_removeConnection h.toListed hact hends

end packets

section program

theorem effect_pendingTimeout (h : Kept s) {pointer : ℕ} :
    Listed (s.pendingTimeout pointer) ∧ Effect s (s.pendingTimeout pointer)
      (s.callbacks [] (.pendingTimeout pointer)) := by
  simp only [pendingTimeout, callbacks]
  cases hfind : s.mPendingConnections.find? (fun c => c.pointer = pointer) with
  | none => exact effect_of_same h.toListed rfl rfl rfl no_ends
  | some conn => exact effect_removePendingConnection h.toListed (List.mem_of_find?_eq_some hfind)

theorem effect_connectionTimeout (h : Kept s) {pointer : ℕ}
    (hact : s.connectionTimeout pointer = some s') :
    Listed s' ∧ Effect s s' (s.callbacks [] (.connectionTimeout pointer)) := by
  rw [connectionTimeout] at hact
  simp only [callbacks]
  cases hfind : s.mConnectionList.find? (fun c => c.pointer = pointer ∧ c.isLocal = false) with
  | none =>
    rw [hfind] at hact
    obtain rfl := Option.some.inj hact
    exact effect_of_same h.toListed rfl rfl rfl no_ends
  | some conn =>
    rw [hfind] at hact
    refine effect_removeConnection h.toListed hact (fun cb hcb => ?_)
    rw [List.mem_singleton.mp hcb]
    rfl

theorem effect_disconnect (h : Kept s) {pointer : ℕ} {abandoned : List (InterfaceConnection ν)}
    (hallowed : ∀ conn ∈ abandoned, conn.pointer ≠ pointer)
    (hact : s.disconnectPointer pointer = some s') :
    Listed s' ∧ Effect s s' (s.callbacks abandoned (.disconnect pointer)) := by
  rw [disconnectPointer] at hact
  have hfind : (s.mPendingConnections ++ s.mConnectionList ++ abandoned).find?
      (fun c => c.pointer = pointer) =
      (s.mPendingConnections ++ s.mConnectionList).find? (fun c => c.pointer = pointer) := by
    have hnone : abandoned.find? (fun c => c.pointer = pointer) = none :=
      List.find?_eq_none.mpr (fun conn hconn => by simpa using hallowed conn hconn)
    rw [List.find?_append, hnone, Option.or_none]
  simp only [callbacks]
  rw [hfind]
  cases hfound : (s.mPendingConnections ++ s.mConnectionList).find? (fun c => c.pointer = pointer) with
  | none =>
    rw [hfound] at hact
    obtain rfl := Option.some.inj hact
    exact effect_of_same h.toListed rfl rfl rfl no_ends
  | some conn =>
    rw [hfound] at hact
    change s.disconnect conn = some s' at hact
    have hmem := List.mem_append.mp (List.mem_of_find?_eq_some hfound)
    rw [disconnect] at hact
    rw [foundCallbacks, Option.elim_some, disconnectCallbacks]
    cases hstate : conn.mConnectionState with
    | sendingPunchPackets | computingPuzzleSolution =>
      rw [hstate] at hact
      obtain rfl := Option.some.inj hact
      exact effect_of_same h.toListed rfl rfl rfl no_ends
    | awaitingChallengeResponse | awaitingConnectResponse =>
      rw [hstate] at hact
      obtain rfl := Option.some.inj hact
      obtain hpending | hlisted := hmem
      · exact effect_removePendingConnection h.toListed hpending
      · rw [h.connected conn hlisted] at hstate
        cases hstate
    | connected =>
      rw [hstate] at hact
      refine effect_removeConnection h.toListed hact (fun cb hcb => ?_)
      rw [List.mem_singleton.mp hcb]
      rfl

/-- Every action that is allowed has one of the effects. -/
theorem act_effect {o : ConnectionAttempts ν} {a : Action ν} (h : Kept o.interface)
    (hallowed : o.Allowed a) (hact : o.interface.act a = some s') :
    Listed s' ∧ Effect o.interface s' (o.interface.callbacks o.abandoned a) := by
  cases a with
  | connect address nonce serverNonce =>
    have hfree : o.interface.findPendingConnection address = none := hallowed
    have hadd : o.interface.addPendingConnection _ = some s' := hact
    have heffect := effect_addPendingConnection h.toListed rfl hfree hadd
    exact heffect
  | connectArranged address possibleAddresses nonce serverNonce isInitiator =>
    have hfree : o.interface.findPendingConnection address = none := hallowed
    have hadd : o.interface.addPendingConnection _ = some s' := hact
    have heffect := effect_addPendingConnection h.toListed rfl hfree hadd
    exact heffect
  | connectLocal nonce serverNonce => exact effect_connectLocal h hact
  | disconnect pointer => exact effect_disconnect h hallowed hact
  | connectChallengeResponse source nonce serverNonce acceptable solved =>
    obtain rfl := Option.some.inj hact
    exact effect_connectChallengeResponse h
  | puzzleSolved pointer =>
    obtain rfl := Option.some.inj hact
    exact effect_puzzleSolved h
  | connectRequest source nonce serverNonce checks => exact effect_connectRequest h hact
  | connectAccept source nonce serverNonce decrypted accepted =>
    exact effect_connectAccept h hallowed hact
  | connectReject source nonce serverNonce retry newNonce =>
    obtain rfl := Option.some.inj hact
    exact effect_connectReject h
  | punch source firstNonce nextNonce decrypted keys =>
    obtain rfl := Option.some.inj hact
    exact effect_punch h
  | arrangedConnectRequest source nonce serverNonce decrypted keys accepted =>
    exact effect_arrangedConnectRequest h hallowed hact
  | disconnectPacket source nonce serverNonce decrypted => exact effect_disconnectPacket h hact
  | pendingTimeout pointer =>
    obtain rfl := Option.some.inj hact
    exact effect_pendingTimeout h
  | connectionTimeout pointer => exact effect_connectionTimeout h hact

end program

omit [DecidableEq ν] in
theorem Kept.of_effect (h : Kept s) (listed : Listed s') (effect : Effect s s' called) :
    Kept s' := by
  cases effect with
  | none pending sub objects ends =>
    exact
      { toListed := listed
        nodup := pending ▸ h.nodup
        disjoint := fun c hc => pending ▸ h.disjoint c (sub c hc)
        freshPending := fun k hk => (h.freshPending k (pending ▸ hk)).trans_le objects
        freshListed := fun c hc => (h.freshListed c (sub c hc)).trans_le objects }
  | started pending sub objects ends =>
    have hlt : s.objects < s'.objects := objects ▸ Nat.lt_succ_self _
    refine { toListed := listed, nodup := ?_, disjoint := ?_, freshPending := ?_, freshListed := ?_ }
    · rw [pending, List.nodup_append]
      refine ⟨h.nodup, List.nodup_singleton _, fun k hk n hn => ?_⟩
      rw [List.mem_singleton.mp hn]
      exact (h.freshPending k hk).ne
    · intro c hc hmem
      rw [pending] at hmem
      obtain hmem | hmem := List.mem_append.mp hmem
      · exact h.disjoint c (sub c hc) hmem
      · exact (h.freshListed c (sub c hc)).ne (List.mem_singleton.mp hmem)
    · intro k hk
      rw [pending] at hk
      obtain hk | hk := List.mem_append.mp hk
      · exact (h.freshPending k hk).trans hlt
      · rw [List.mem_singleton.mp hk]
        exact hlt
    · exact fun c hc => (h.freshListed c (sub c hc)).trans hlt
  | terminated pointer mem pending sub objects ends =>
    exact
      { toListed := listed
        nodup := pending ▸ h.nodup.erase pointer
        disjoint := fun c hc hmem =>
          h.disjoint c (sub c hc) (List.mem_of_mem_erase (pending ▸ hmem))
        freshPending := fun k hk =>
          objects ▸ h.freshPending k (List.mem_of_mem_erase (pending ▸ hk))
        freshListed := fun c hc => objects ▸ h.freshListed c (sub c hc) }
  | established pointer mem pending sub entered objects others others_ends ends =>
    refine { toListed := listed, nodup := ?_, disjoint := ?_, freshPending := ?_, freshListed := ?_ }
    · exact pending ▸ h.nodup.erase pointer
    · intro c hc hmem
      rw [pending] at hmem
      obtain hold | hnew := sub c hc
      · exact h.disjoint c hold (List.mem_of_mem_erase hmem)
      · rw [hnew] at hmem
        exact (List.Nodup.mem_erase_iff h.nodup).mp hmem |>.1 rfl
    · exact fun k hk => objects ▸ h.freshPending k (List.mem_of_mem_erase (pending ▸ hk))
    · intro c hc
      rw [objects]
      obtain hold | hnew := sub c hc
      · exact h.freshListed c hold
      · exact hnew ▸ h.freshPending pointer mem
  | accepted pending sub objects others others_ends ends =>
    have hlt : s.objects < s'.objects := objects ▸ Nat.lt_succ_self _
    refine { toListed := listed, nodup := ?_, disjoint := ?_, freshPending := ?_, freshListed := ?_ }
    · exact pending ▸ h.nodup
    · intro c hc hmem
      rw [pending] at hmem
      obtain hold | hnew := sub c hc
      · exact h.disjoint c hold hmem
      · exact (h.freshPending _ hmem).ne hnew
    · exact fun k hk => (h.freshPending k (pending ▸ hk)).trans hlt
    · intro c hc
      obtain hold | hnew := sub c hc
      · exact (h.freshListed c hold).trans hlt
      · exact hnew ▸ hlt

/-- A log in which the pending connections have not been told anything, and everyone who has left
has been told once. -/
structure Sound (o : ConnectionAttempts ν) : Prop where
  kept : Kept o.interface
  answered : o.Answered
  waiting : ∀ pointer ∈ pendingPointers o.interface, endings o.called pointer = []
  fresh : ∀ cb ∈ o.called, ∀ pointer ∈ cb.ends, pointer < o.interface.objects

omit [DecidableEq ν] in
theorem sound_start (mAllowConnections : Bool) :
    Sound (start mAllowConnections : ConnectionAttempts ν) where
  kept :=
    { tabled := ConnectionTable.tabled_initial
      connected := nofun
      nodup := List.nodup_nil
      disjoint := nofun
      freshPending := nofun
      freshListed := nofun }
  answered := ⟨nofun, fun _ => Nat.zero_le _⟩
  waiting := nofun
  fresh := nofun

section endings

variable {pointer k : ℕ} {others : List Callback}

theorem endings_append (called later : List Callback) :
    endings (called ++ later) pointer = endings called pointer ++ endings later pointer :=
  List.filter_append ..

theorem endings_of_none (ends : ∀ cb ∈ others, cb.ends = none) : endings others pointer = [] :=
  List.filter_eq_nil_iff.mpr (fun cb hcb => by rw [ends cb hcb]; simp)

theorem endings_singleton {cb : Callback} (ends : cb.ends = some pointer) :
    endings [cb] k = if k = pointer then [cb] else [] := by
  rw [endings, List.filter_cons, ends]
  by_cases hk : k = pointer
  · simp [hk]
  · simp [hk, Ne.symm hk]

omit [DecidableEq ν] in
/-- Nothing was ever told to a connection that did not exist. -/
theorem endings_of_fresh {o : ConnectionAttempts ν} (h : Sound o)
    (hfresh : o.interface.objects ≤ pointer) : endings o.called pointer = [] := by
  refine List.filter_eq_nil_iff.mpr (fun cb hcb hends => ?_)
  have hlt := h.fresh cb hcb pointer (of_decide_eq_true hends)
  omega

end endings

/-- One connection is told how its attempt ended. It was pending before, or it is new. -/
structure Told (s s' : NetInterface ν) (called : List Callback) (pointer : ℕ) : Prop where
  once : ∃ cb others, cb.ends = some pointer ∧ (∀ cb ∈ others, cb.ends = none) ∧
    called = others ++ [cb] ∧ (pointer ∈ pendingPointers s → cb = onConnectTerminated pointer ∨
      cb = onConnectionEstablished pointer ∧ pointer ∈ listedPointers s' ∧
        pointer ∉ listedPointers s)
  gone : pointer ∉ pendingPointers s'
  fresh : pointer < s'.objects
  known : pointer ∈ pendingPointers s ∨ pointer = s.objects
  only : ∀ k ∈ pendingPointers s, k ∉ pendingPointers s' → k = pointer

omit [DecidableEq ν] in
theorem Effect.told (h : Kept s) (effect : Effect s s' called) :
    s.objects ≤ s'.objects ∧
      (∀ k ∈ pendingPointers s', k ∈ pendingPointers s ∨ k = s.objects) ∧
      ((∀ cb ∈ called, cb.ends = .none) ∧ (∀ k ∈ pendingPointers s, k ∈ pendingPointers s') ∨
        ∃ pointer, Told s s' called pointer) := by
  cases effect with
  | none pending sub objects ends =>
    exact ⟨objects, fun k hk => .inl (pending ▸ hk), .inl ⟨ends, fun k hk => pending ▸ hk⟩⟩
  | started pending sub objects ends =>
    refine ⟨objects ▸ Nat.le_succ _, fun k hk => ?_, .inl ⟨ends, fun k hk => ?_⟩⟩
    · rw [pending] at hk
      exact (List.mem_append.mp hk).imp_right List.mem_singleton.mp
    · rw [pending]
      exact List.mem_append_left _ hk
  | terminated pointer mem pending sub objects ends =>
    refine ⟨objects.ge, fun k hk => .inl (List.mem_of_mem_erase (pending ▸ hk)),
      .inr ⟨pointer, ⟨_, [], rfl, no_ends, ends, fun _ => .inl rfl⟩, ?_, ?_, .inl mem, ?_⟩⟩
    · rw [pending, h.nodup.mem_erase_iff]
      exact fun hmem => hmem.1 rfl
    · exact objects ▸ h.freshPending pointer mem
    · intro k hk hgone
      rw [pending, h.nodup.mem_erase_iff] at hgone
      by_contra hne
      exact hgone ⟨hne, hk⟩
  | established pointer mem pending sub entered objects others others_ends ends =>
    have hnew : pointer ∉ listedPointers s := by
      intro hmem
      obtain ⟨c, hc, heq⟩ := List.mem_map.mp hmem
      exact h.disjoint c hc (heq ▸ mem)
    refine ⟨objects.ge, fun k hk => .inl (List.mem_of_mem_erase (pending ▸ hk)),
      .inr ⟨pointer, ⟨_, others, rfl, others_ends, ends, fun _ => .inr ⟨rfl, entered, hnew⟩⟩, ?_, ?_,
        .inl mem, ?_⟩⟩
    · rw [pending, h.nodup.mem_erase_iff]
      exact fun hmem => hmem.1 rfl
    · exact objects ▸ h.freshPending pointer mem
    · intro k hk hgone
      rw [pending, h.nodup.mem_erase_iff] at hgone
      by_contra hne
      exact hgone ⟨hne, hk⟩
  | accepted pending sub objects others others_ends ends =>
    have hold : s.objects ∉ pendingPointers s := fun hmem => (h.freshPending _ hmem).ne rfl
    refine ⟨objects ▸ Nat.le_succ _, fun k hk => .inl (pending ▸ hk), .inr ⟨s.objects,
      ⟨_, others, rfl, others_ends, ends, fun hmem => absurd hmem hold⟩, pending ▸ hold,
      objects ▸ Nat.lt_succ_self _, .inr rfl, fun k hk hgone => ?_⟩⟩
    rw [pending] at hgone
    exact absurd hk hgone

omit [DecidableEq ν] in
/-- What a connection is told by an action that ends an attempt. -/
theorem Told.endings {pointer k : ℕ} (told : Told s s' called pointer) :
    (endings called k).length ≤ 1 ∧ (k ≠ pointer → endings called k = []) := by
  obtain ⟨cb, others, hends, hothers, rfl, -⟩ := told.once
  rw [endings_append, endings_of_none hothers, endings_singleton hends, List.nil_append]
  split_ifs with hk
  · exact ⟨le_rfl, fun hne => absurd hk hne⟩
  · exact ⟨Nat.zero_le _, fun _ => rfl⟩

theorem Sound.step {o o' : ConnectionAttempts ν} {a : Action ν} (h : Sound o)
    (hallowed : o.Allowed a) (hstep : o.step a = some o') : Sound o' := by
  obtain ⟨s', hact, rfl⟩ := Option.map_eq_some_iff.mp hstep
  rw [NetInterface.step, Option.ite_none_left_eq_some] at hact
  obtain ⟨listed, effect⟩ := act_effect h.kept hallowed hact.2
  have kept := h.kept.of_effect listed effect
  obtain ⟨objects, known, ⟨ends, stay⟩ | ⟨pointer, told⟩⟩ := effect.told h.kept
  · -- nobody is told anything, and nobody leaves
    have hsame : ∀ k, endings (o.called ++ o.interface.callbacks o.abandoned a) k =
        endings o.called k := by
      intro k
      rw [endings_append, endings_of_none ends, List.append_nil]
    refine ⟨kept, ⟨?_, fun k => (hsame k).symm ▸ h.answered.2 k⟩, ?_, ?_⟩
    · intro k hk
      obtain hk | hk := List.mem_append.mp hk
      · exact (h.answered.1 k hk).imp
          (fun hest => ⟨List.mem_append_left _ hest.1, List.mem_append_left _ hest.2⟩)
          (List.mem_append_left _)
      · obtain ⟨hmem, hgone⟩ := List.mem_filter.mp hk
        exact absurd (stay k hmem) (of_decide_eq_true hgone)
    · intro k hk
      rw [hsame]
      obtain hk | rfl := known k hk
      · exact h.waiting k hk
      · exact endings_of_fresh h le_rfl
    · intro cb hcb k hk
      obtain hcb | hcb := List.mem_append.mp hcb
      · exact (h.fresh cb hcb k hk).trans_le objects
      · rw [ends cb hcb] at hk
        cases hk
  · -- the one that is told has not been told anything before
    have hbefore : endings o.called pointer = [] := by
      obtain hmem | hnew := told.known
      · exact h.waiting pointer hmem
      · exact endings_of_fresh h hnew.ge
    obtain ⟨cb, others, hends, hothers, hcalled, hcb⟩ := told.once
    have hlast : cb ∈ o.called ++ o.interface.callbacks o.abandoned a := by
      rw [hcalled]
      exact List.mem_append_right _ (List.mem_append_right _ List.mem_cons_self)
    refine ⟨kept, ⟨?_, fun k => ?_⟩, ?_, ?_⟩
    · intro k hk
      obtain hk | hk := List.mem_append.mp hk
      · exact (h.answered.1 k hk).imp
          (fun hest => ⟨List.mem_append_left _ hest.1, List.mem_append_left _ hest.2⟩)
          (List.mem_append_left _)
      · obtain ⟨hmem, hgone⟩ := List.mem_filter.mp hk
        obtain rfl := told.only k hmem (of_decide_eq_true hgone)
        obtain rfl | ⟨rfl, hentered, hnew⟩ := hcb hmem
        · exact .inr hlast
        · exact .inl ⟨List.mem_append_right _ (List.mem_filter.mpr
            ⟨hentered, decide_eq_true hnew⟩), hlast⟩
    · rw [endings_append, List.length_append]
      by_cases hk : k = pointer
      · rw [hk, hbefore, List.length_nil, Nat.zero_add]
        exact told.endings.1
      · rw [told.endings.2 hk]
        exact h.answered.2 k
    · intro k hk
      have hne : k ≠ pointer := fun heq => told.gone (heq ▸ hk)
      rw [endings_append, told.endings.2 hne, List.append_nil]
      obtain hk | rfl := known k hk
      · exact h.waiting k hk
      · exact endings_of_fresh h le_rfl
    · intro cb' hcb' k hk
      obtain hold | hnew := List.mem_append.mp hcb'
      · exact (h.fresh cb' hold k hk).trans_le objects
      · rw [hcalled] at hnew
        obtain hother | hthis := List.mem_append.mp hnew
        · rw [hothers cb' hother] at hk
          cases hk
        · rw [List.mem_singleton.mp hthis, hends] at hk
          obtain rfl := Option.some.inj hk
          exact told.fresh

/-- In every run whose steps are allowed, every connection that leaves the pending list is told
once how its attempt has ended. -/
theorem answered_of_allowed {mAllowConnections : Bool} {as : List (Action ν)}
    {o : ConnectionAttempts ν} (run : Run step Allowed (start mAllowConnections) as o) :
    o.Answered :=
  (run.invariant (I := Sound) (fun _ _ _ h ha hstep => h.step ha hstep)
    (sound_start mAllowConnections)).answered

/-- The address of a peer. -/
def peerAddress : Address := ⟨0, 28000, #v[1, 0, 0, 0]⟩

/-- An attempt that is challenged and accepted, one that is disconnected, and one that times out. -/
theorem answered_of_allowed_three : ∃ o : ConnectionAttempts ℕ,
    exec step (start false)
      [.connect peerAddress 5 0, .connectChallengeResponse peerAddress 5 6 true true,
        .connectAccept peerAddress 5 6 true true, .connect { peerAddress with port := 28001 } 7 0, .disconnect 1,
        .connectArranged peerAddress [peerAddress] 8 9 false, .pendingTimeout 2] = some o ∧
      o.left = [0, 1, 2] ∧ o.Answered := by
  obtain ⟨o, run, hleft⟩ : ∃ o : ConnectionAttempts ℕ, Run step Allowed (start false)
      [.connect peerAddress 5 0, .connectChallengeResponse peerAddress 5 6 true true,
        .connectAccept peerAddress 5 6 true true, .connect { peerAddress with port := 28001 } 7 0, .disconnect 1,
        .connectArranged peerAddress [peerAddress] 8 9 false, .pendingTimeout 2] o ∧
      o.left = [0, 1, 2] := by
    refine ⟨_, .cons rfl rfl <| .cons trivial rfl <| .cons nofun rfl <| .cons rfl rfl <|
      .cons nofun rfl <| .cons rfl rfl <| .cons trivial rfl <| .nil _, ?_⟩
    decide +kernel
  exact ⟨o, run.exec_eq, hleft, answered_of_allowed run⟩

/-- The second attempt to the same address takes the first one's place, without a call. -/
theorem replaced_silently : ¬ ∀ (mAllowConnections : Bool) (as : List (Action ℕ))
    (o : ConnectionAttempts ℕ), Run step (fun _ _ => True) (start mAllowConnections) as o →
      o.Answered := by
  intro claim
  have silent := (claim false [.connect peerAddress 5 0, .connect peerAddress 7 0] _
    (.cons trivial rfl <| .cons trivial rfl <| .nil _)).1 0 (by decide +kernel)
  exact absurd silent (by decide +kernel)

end ConnectionAttempts

end TNL
