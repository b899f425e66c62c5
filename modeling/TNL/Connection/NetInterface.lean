import TNL.Connection.ConnectionTable

/-!
# The connections of an interface

How connections come into the connection list of a `NetInterface` and leave it:
calls of the program, connect packets of every kind, disconnects and timeouts,
in any order. What a handler checks besides addresses, nonces and states (keys,
puzzles, hashes, class names, connect data) is an outcome given to it, and so
is the moment of a timeout. Connections are objects with a pointer; once in the
list a connection does not change.
-/
namespace TNL
open Library

namespace Address

/-- Not counting the port. -/
def isEqualAddress (a b : Address) : Bool := a.transport = b.transport ∧ a.netNum = b.netNum

/-- The address of a connection for which none was set. No packet comes from it. -/
def unset : Address := ⟨0, 0, #v[0, 0, 0, 0]⟩

end Address

inductive InterfaceConnectionState where
  | sendingPunchPackets
  | awaitingChallengeResponse
  | computingPuzzleSolution
  | awaitingConnectResponse
  | connected
  deriving DecidableEq

/-- What the lists of an interface are about in a `NetConnection`. -/
structure InterfaceConnection (ν : Type*) where
  pointer : ℕ
  mNetAddress : Address
  isLocal : Bool
  mConnectionState : InterfaceConnectionState
  mNonce : ν
  mServerNonce : ν
  mIsInitiator : Bool
  mPossibleAddresses : List Address
  mPuzzleRetried : Bool
  deriving DecidableEq

/-- New objects take the next pointer. -/
structure NetInterface (ν : Type*) where
  connections : ConnectionTable (InterfaceConnection ν)
  mPendingConnections : List (InterfaceConnection ν)
  mAllowConnections : Bool
  objects : ℕ

namespace NetInterface
open InterfaceConnectionState

variable {ν : Type*} [DecidableEq ν]

def mConnectionList (s : NetInterface ν) : List (InterfaceConnection ν) :=
  s.connections.mConnectionList

def start (mAllowConnections : Bool) : NetInterface ν := ⟨.initial, [], mAllowConnections, 0⟩

def findConnection (s : NetInterface ν) (a : Address) : Option (Option (InterfaceConnection ν)) :=
  s.connections.findConnection InterfaceConnection.mNetAddress a

def addConnection (s : NetInterface ν) (conn : InterfaceConnection ν) : Option (NetInterface ν) :=
  (s.connections.addConnection InterfaceConnection.mNetAddress
    { conn with mConnectionState := connected }).map ({ s with connections := · })

def removeConnection (s : NetInterface ν) (conn : InterfaceConnection ν) :
    Option (NetInterface ν) :=
  (s.connections.removeConnection InterfaceConnection.mNetAddress conn).map
    ({ s with connections := · })

def findPendingConnection (s : NetInterface ν) (a : Address) : Option (InterfaceConnection ν) :=
  s.mPendingConnections.find? (fun c => a = c.mNetAddress)

def removePendingConnection (s : NetInterface ν) (conn : InterfaceConnection ν) : NetInterface ν :=
  { s with mPendingConnections := s.mPendingConnections.eraseP (fun c => c.pointer = conn.pointer) }

def findAndRemovePendingConnection (s : NetInterface ν) (a : Address) : NetInterface ν :=
  { s with mPendingConnections := s.mPendingConnections.eraseP (fun c => a = c.mNetAddress) }

/-- A pending connection with new values. -/
def setPending (s : NetInterface ν) (conn : InterfaceConnection ν) : NetInterface ν :=
  { s with
    mPendingConnections :=
      s.mPendingConnections.map (fun c => if c.pointer = conn.pointer then conn else c) }

def disconnect (s : NetInterface ν) (conn : InterfaceConnection ν) : Option (NetInterface ν) :=
  match conn.mConnectionState with
  | awaitingChallengeResponse | awaitingConnectResponse => some (s.removePendingConnection conn)
  | connected => s.removeConnection conn
  | sendingPunchPackets | computingPuzzleSolution => some s

/-- The connection found at an address is disconnected, if there is one. -/
def disconnectFound (s : NetInterface ν) : Option (InterfaceConnection ν) → Option (NetInterface ν)
  | none => some s
  | some conn => s.disconnect conn

def addPendingConnection (s : NetInterface ν) (conn : InterfaceConnection ν) :
    Option (NetInterface ν) := do
  let s := s.findAndRemovePendingConnection conn.mNetAddress
  let temp ← s.findConnection conn.mNetAddress
  let s ← s.disconnectFound temp
  return { s with
    mPendingConnections := s.mPendingConnections ++ [conn]
    objects := s.objects + 1 }

/-- `NetConnection::connect` of a new connection, which has drawn its nonce. -/
def startConnection (s : NetInterface ν) (address : Address) (nonce serverNonce : ν) :
    Option (NetInterface ν) :=
  s.addPendingConnection
    ⟨s.objects, address, false, awaitingChallengeResponse, nonce, serverNonce, true, [], false⟩

/-- `NetConnection::connectArranged` of a new connection. -/
def startArrangedConnection (s : NetInterface ν) (address : Address)
    (possibleAddresses : List Address) (nonce serverNonce : ν) (isInitiator : Bool) :
    Option (NetInterface ν) :=
  s.addPendingConnection ⟨s.objects, address, false, sendingPunchPackets, nonce, serverNonce,
    isInitiator, possibleAddresses, false⟩

/-- One end of `NetConnection::connectLocal`. -/
def connectLocal (s : NetInterface ν) (nonce serverNonce : ν) : Option (NetInterface ν) :=
  { s with objects := s.objects + 1 }.addConnection
    ⟨s.objects, .unset, true, connected, nonce, serverNonce, true, [], false⟩

def handleConnectChallengeResponse (s : NetInterface ν) (address : Address)
    (theNonce serverNonce : ν) (acceptable solved : Bool) : NetInterface ν :=
  match s.findPendingConnection address with
  | none => s
  | some conn =>
    if conn.mConnectionState ≠ awaitingChallengeResponse ∨ theNonce ≠ conn.mNonce then s
    else
      let conn := { conn with mServerNonce := serverNonce }
      if !acceptable then s.setPending conn
      else s.setPending { conn with
        mConnectionState := if solved then awaitingConnectResponse else computingPuzzleSolution }

/-- The puzzle of a pending connection is solved. -/
def continuePuzzleSolution (s : NetInterface ν) (pointer : ℕ) : NetInterface ν :=
  match s.mPendingConnections.find? (fun c => c.pointer = pointer) with
  | none => s
  | some conn =>
    if conn.mConnectionState = computingPuzzleSolution then
      s.setPending { conn with mConnectionState := awaitingConnectResponse }
    else s

/-- The checks of a connect request, in the order they are made. -/
structure RequestChecks where
  identity : Bool
  puzzle : Bool
  keys : Bool
  created : Bool
  accepted : Bool

def handleConnectRequest (s : NetInterface ν) (address : Address) (nonce serverNonce : ν)
    (checks : RequestChecks) : Option (NetInterface ν) :=
  if !s.mAllowConnections || !checks.identity then some s
  else (s.findConnection address).bind (fun connect =>
    if connect.any (fun c => c.mNonce = nonce ∧ c.mServerNonce = serverNonce) then some s
    else if !checks.puzzle || !checks.keys then some s
    else (s.disconnectFound connect).bind (fun s =>
      if !checks.created then some s
      else
        let conn := ⟨s.objects, address, false, connected, nonce, serverNonce, false, [], false⟩
        let s := { s with objects := s.objects + 1 }
        if !checks.accepted then some s else s.addConnection conn))

def handleConnectAccept (s : NetInterface ν) (address : Address) (nonce serverNonce : ν)
    (decrypted accepted : Bool) : Option (NetInterface ν) :=
  match s.findPendingConnection address with
  | none => some s
  | some conn =>
    if conn.mConnectionState ≠ awaitingConnectResponse then some s
    else if conn.mNonce ≠ nonce ∨ conn.mServerNonce ≠ serverNonce then some s
    else if !decrypted then some s
    else if !accepted then some (s.removePendingConnection conn)
    else (s.addConnection conn).map (·.removePendingConnection conn)

/-- `retry` tells whether the reason is a bad puzzle solution. -/
def handleConnectReject (s : NetInterface ν) (address : Address) (nonce serverNonce : ν)
    (retry : Bool) (newNonce : ν) : NetInterface ν :=
  match s.findPendingConnection address with
  | none => s
  | some conn =>
    if conn.mConnectionState ≠ awaitingChallengeResponse ∧
        conn.mConnectionState ≠ awaitingConnectResponse then s
    else if conn.mNonce ≠ nonce ∨ conn.mServerNonce ≠ serverNonce then s
    else if retry && !conn.mPuzzleRetried then
      s.setPending { conn with
        mPuzzleRetried := true
        mConnectionState := awaitingChallengeResponse
        mNonce := newNonce }
    else s.removePendingConnection conn

/-- The search of a punch packet through the pending connections, which collects addresses on its
way. -/
def findPunched (theAddress : Address) (firstNonce : ν) :
    List (InterfaceConnection ν) → List (InterfaceConnection ν) × Option (InterfaceConnection ν)
  | [] => ([], none)
  | conn :: rest =>
    let continueWith (conn : InterfaceConnection ν) :=
      (conn :: (findPunched theAddress firstNonce rest).1, (findPunched theAddress firstNonce rest).2)
    if conn.mConnectionState ≠ sendingPunchPackets then continueWith conn
    else if firstNonce ≠ (if conn.mIsInitiator then conn.mServerNonce else conn.mNonce) then
      continueWith conn
    else if theAddress ∈ conn.mPossibleAddresses then
      if conn.mIsInitiator then (conn :: rest, some conn) else continueWith conn
    else if !conn.mPossibleAddresses.any theAddress.isEqualAddress then continueWith conn
    else
      let conn := if conn.mPossibleAddresses.length < 5 then
        { conn with mPossibleAddresses := conn.mPossibleAddresses ++ [theAddress] } else conn
      if conn.mIsInitiator then (conn :: rest, some conn) else continueWith conn

def handlePunch (s : NetInterface ν) (theAddress : Address) (firstNonce nextNonce : ν)
    (decrypted keys : Bool) : NetInterface ν :=
  let (pending, found) := findPunched theAddress firstNonce s.mPendingConnections
  let s := { s with mPendingConnections := pending }
  match found with
  | none => s
  | some conn =>
    if !decrypted || nextNonce ≠ conn.mNonce || !keys then s
    else s.setPending { conn with
      mNetAddress := theAddress
      mConnectionState := awaitingConnectResponse }

def handleArrangedConnectRequest (s : NetInterface ν) (theAddress : Address) (nonce serverNonce : ν)
    (decrypted keys accepted : Bool) : Option (NetInterface ν) :=
  (s.findConnection theAddress).bind (fun oldConnection =>
    if oldConnection.any (fun c => c.mNonce = nonce) then some s
    else match s.mPendingConnections.find? (fun c =>
        c.mConnectionState = sendingPunchPackets ∧ c.mIsInitiator = false ∧ nonce = c.mNonce ∧
          c.mPossibleAddresses.any theAddress.isEqualAddress) with
      | none => some s
      | some conn =>
        if !decrypted || serverNonce ≠ conn.mServerNonce || !keys then some s
        else (s.disconnectFound oldConnection).bind (fun s =>
          if !accepted then some (s.removePendingConnection conn)
          else (s.addConnection { conn with mNetAddress := theAddress }).map
            (·.removePendingConnection conn)))

def handleDisconnect (s : NetInterface ν) (address : Address) (nonce serverNonce : ν)
    (decrypted : Bool) : Option (NetInterface ν) :=
  (s.findConnection address).bind (fun found => match found with
    | none => some s
    | some conn =>
      if nonce ≠ conn.mNonce ∨ serverNonce ≠ conn.mServerNonce then some s
      else if !decrypted then some s
      else s.removeConnection conn)

/-- A pending connection is given up by `processConnections`. -/
def pendingTimeout (s : NetInterface ν) (pointer : ℕ) : NetInterface ν :=
  match s.mPendingConnections.find? (fun c => c.pointer = pointer) with
  | none => s
  | some conn => s.removePendingConnection conn

/-- A connection in the list times out; local ones never do. -/
def connectionTimeout (s : NetInterface ν) (pointer : ℕ) : Option (NetInterface ν) :=
  match s.mConnectionList.find? (fun c => c.pointer = pointer ∧ c.isLocal = false) with
  | none => some s
  | some conn => s.removeConnection conn

/-- `NetConnection::disconnect`, also called when a connection has an error. -/
def disconnectPointer (s : NetInterface ν) (pointer : ℕ) : Option (NetInterface ν) :=
  s.disconnectFound ((s.mPendingConnections ++ s.mConnectionList).find? (·.pointer = pointer))

inductive Action (ν : Type*) where
  | connect (address : Address) (nonce serverNonce : ν)
  | connectArranged (address : Address) (possibleAddresses : List Address) (nonce serverNonce : ν)
      (isInitiator : Bool)
  | connectLocal (nonce serverNonce : ν)
  | disconnect (pointer : ℕ)
  | connectChallengeResponse (source : Address) (nonce serverNonce : ν) (acceptable solved : Bool)
  | puzzleSolved (pointer : ℕ)
  | connectRequest (source : Address) (nonce serverNonce : ν) (checks : RequestChecks)
  | connectAccept (source : Address) (nonce serverNonce : ν) (decrypted accepted : Bool)
  | connectReject (source : Address) (nonce serverNonce : ν) (retry : Bool) (newNonce : ν)
  | punch (source : Address) (firstNonce nextNonce : ν) (decrypted keys : Bool)
  | arrangedConnectRequest (source : Address) (nonce serverNonce : ν)
      (decrypted keys accepted : Bool)
  | disconnectPacket (source : Address) (nonce serverNonce : ν) (decrypted : Bool)
  | pendingTimeout (pointer : ℕ)
  | connectionTimeout (pointer : ℕ)

/-- The address a packet comes from. -/
def Action.source : Action ν → Option Address
  | .connectChallengeResponse source .. | .connectRequest source .. | .connectAccept source ..
  | .connectReject source .. | .punch source .. | .arrangedConnectRequest source ..
  | .disconnectPacket source .. => some source
  | _ => none

def act (s : NetInterface ν) : Action ν → Option (NetInterface ν)
  | .connect address nonce serverNonce => s.startConnection address nonce serverNonce
  | .connectArranged address possibleAddresses nonce serverNonce isInitiator =>
    s.startArrangedConnection address possibleAddresses nonce serverNonce isInitiator
  | .connectLocal nonce serverNonce => s.connectLocal nonce serverNonce
  | .disconnect pointer => s.disconnectPointer pointer
  | .connectChallengeResponse source nonce serverNonce acceptable solved =>
    some (s.handleConnectChallengeResponse source nonce serverNonce acceptable solved)
  | .puzzleSolved pointer => some (s.continuePuzzleSolution pointer)
  | .connectRequest source nonce serverNonce checks =>
    s.handleConnectRequest source nonce serverNonce checks
  | .connectAccept source nonce serverNonce decrypted accepted =>
    s.handleConnectAccept source nonce serverNonce decrypted accepted
  | .connectReject source nonce serverNonce retry newNonce =>
    some (s.handleConnectReject source nonce serverNonce retry newNonce)
  | .punch source firstNonce nextNonce decrypted keys =>
    some (s.handlePunch source firstNonce nextNonce decrypted keys)
  | .arrangedConnectRequest source nonce serverNonce decrypted keys accepted =>
    s.handleArrangedConnectRequest source nonce serverNonce decrypted keys accepted
  | .disconnectPacket source nonce serverNonce decrypted =>
    s.handleDisconnect source nonce serverNonce decrypted
  | .pendingTimeout pointer => some (s.pendingTimeout pointer)
  | .connectionTimeout pointer => s.connectionTimeout pointer

/-- No packet comes from the unset address. -/
def step (s : NetInterface ν) (a : Action ν) : Option (NetInterface ν) :=
  if a.source = some .unset then none else s.act a

/-- A connect accept does not complete a pending connection to an address to which there is a
connection in the list already. -/
def Unoccupied (s : NetInterface ν) : Action ν → Prop
  | .connectAccept source nonce serverNonce true true =>
    ∀ conn ∈ s.findPendingConnection source, conn.mConnectionState = awaitingConnectResponse →
      conn.mNonce = nonce → conn.mServerNonce = serverNonce →
      ∀ c ∈ s.mConnectionList, c.mNetAddress ≠ source
  | _ => True

/-- The connections of the list are where the table looks for them, all objects are different, and
no two connections over the network have the same address. -/
structure Sound (s : NetInterface ν) : Prop where
  tabled : ConnectionTable.Tabled InterfaceConnection.mNetAddress s.connections
  pointers : ((s.mConnectionList ++ s.mPendingConnections).map (·.pointer)).Nodup
  fresh : ∀ c ∈ s.mConnectionList ++ s.mPendingConnections, c.pointer < s.objects
  nonlocal : ∀ c ∈ s.mPendingConnections, c.isLocal = false
  unset : ∀ c ∈ s.mConnectionList, c.isLocal = true ↔ c.mNetAddress = .unset
  established : ∀ c ∈ s.mConnectionList, c.mConnectionState = connected
  distinct : ∀ c ∈ s.mConnectionList, ∀ d ∈ s.mConnectionList, c.isLocal = false →
    d.isLocal = false → c.mNetAddress = d.mNetAddress → c = d

variable {s s' : NetInterface ν} {conn : InterfaceConnection ν} {source : Address}

omit [DecidableEq ν] in
theorem sound_start (mAllowConnections : Bool) : (start mAllowConnections : NetInterface ν).Sound where
  tabled := ConnectionTable.tabled_initial
  pointers := List.nodup_nil
  fresh := by simp [start, mConnectionList, ConnectionTable.initial]
  nonlocal := by simp [start]
  unset := by simp [start, mConnectionList, ConnectionTable.initial]
  established := by simp [start, mConnectionList, ConnectionTable.initial]
  distinct := by simp [start, mConnectionList, ConnectionTable.initial]

namespace Sound

omit [DecidableEq ν] in
/-- The pending list with connections removed or changed, but with the same objects. -/
theorem withPending (h : s.Sound) {pending : List (InterfaceConnection ν)}
    (pointers : (pending.map (·.pointer)).Sublist (s.mPendingConnections.map (·.pointer)))
    (nonlocal : ∀ c ∈ pending, c.isLocal = false) :
    Sound { s with mPendingConnections := pending } := by
  have sub : ((s.mConnectionList ++ pending).map (·.pointer)).Sublist
      ((s.mConnectionList ++ s.mPendingConnections).map (·.pointer)) := by
    rw [List.map_append, List.map_append]
    exact (List.Sublist.refl _).append pointers
  refine ⟨h.tabled, h.pointers.sublist sub, fun c hc => ?_, nonlocal, h.unset, h.established,
    h.distinct⟩
  obtain ⟨d, hd, heq⟩ := List.mem_map.mp (sub.subset (List.mem_map_of_mem hc))
  rw [← heq]
  exact h.fresh d hd

omit [DecidableEq ν] in
theorem erasePending (h : s.Sound) (p : InterfaceConnection ν → Bool) :
    Sound { s with mPendingConnections := s.mPendingConnections.eraseP p } :=
  h.withPending ((List.eraseP_sublist).map _) (fun c hc => h.nonlocal c (List.mem_of_mem_eraseP hc))

omit [DecidableEq ν] in
theorem removePendingConnection (h : s.Sound) (conn : InterfaceConnection ν) :
    (s.removePendingConnection conn).Sound := h.erasePending _

omit [DecidableEq ν] in
theorem setPending (h : s.Sound) (hlocal : conn.isLocal = false) : (s.setPending conn).Sound := by
  have same : (s.setPending conn).mPendingConnections.map (·.pointer) =
      s.mPendingConnections.map (·.pointer) := by
    rw [NetInterface.setPending, List.map_map]
    refine List.map_congr_left fun c _ => ?_
    by_cases hc : c.pointer = conn.pointer <;> simp [hc]
  refine h.withPending (same ▸ List.Sublist.refl _) ?_
  · intro c hc
    obtain ⟨d, hd, rfl⟩ := List.mem_map.mp hc
    split_ifs
    · exact hlocal
    · exact h.nonlocal d hd

/-- A connection leaves the list. -/
theorem removeConnection (h : s.Sound) (conn : InterfaceConnection ν) :
    ∃ s', s.removeConnection conn = some s' ∧ s'.Sound ∧
      s'.mPendingConnections = s.mPendingConnections ∧ s'.objects = s.objects ∧
      s'.mConnectionList.Perm (s.mConnectionList.erase conn) := by
  obtain ⟨t, removed, perm, tabled⟩ := h.tabled.remove conn
  have sub : ∀ c ∈ t.mConnectionList, c ∈ s.mConnectionList := fun c hc =>
    List.mem_of_mem_erase (perm.mem_iff.mp hc)
  refine ⟨{ s with connections := t }, by rw [NetInterface.removeConnection, removed]; rfl,
    ⟨tabled, ?_, ?_, h.nonlocal, fun c hc => h.unset c (sub c hc),
      fun c hc => h.established c (sub c hc), fun c hc d hd => h.distinct c (sub c hc) d (sub d hd)⟩, rfl, rfl, perm⟩
  · refine (((perm.append_right _).map _).nodup_iff).mpr (h.pointers.sublist ?_)
    exact (List.erase_sublist.append (List.Sublist.refl _)).map _
  · intro c hc
    refine h.fresh c ?_
    rcases List.mem_append.mp hc with hc | hc
    · exact List.mem_append_left _ (sub c hc)
    · exact List.mem_append_right _ hc

/-- A connection with a new object joins the list. -/
theorem addConnection (h : s.Sound) (conn : InterfaceConnection ν)
    (new : ∀ c ∈ s.mConnectionList ++ s.mPendingConnections, c.pointer ≠ conn.pointer)
    (fresh : conn.pointer < s.objects)
    (unset : conn.isLocal = true ↔ conn.mNetAddress = .unset)
    (free : conn.isLocal = false → ∀ c ∈ s.mConnectionList, c.mNetAddress ≠ conn.mNetAddress) :
    ∃ s', s.addConnection conn = some s' ∧ s'.Sound ∧
      s'.mPendingConnections = s.mPendingConnections := by
  let conn' := { conn with mConnectionState := connected }
  have absent : conn' ∉ s.mConnectionList := fun hc =>
    new conn' (List.mem_append_left _ hc) rfl
  obtain ⟨t, added, list, tabled⟩ := h.tabled.add absent
  refine ⟨{ s with connections := t }, by rw [NetInterface.addConnection, added]; rfl,
    ⟨tabled, ?_, ?_, h.nonlocal, ?_, ?_, ?_⟩, rfl⟩
  · have perm : (t.mConnectionList ++ s.mPendingConnections).Perm
        (conn' :: (s.mConnectionList ++ s.mPendingConnections)) := by
      rw [list, List.append_assoc]
      exact List.perm_middle
    refine ((perm.map _).nodup_iff).mpr (List.nodup_cons.mpr ⟨fun hmem => ?_, h.pointers⟩)
    obtain ⟨c, hc, heq⟩ := List.mem_map.mp hmem
    exact new c hc heq
  · intro c hc
    change c ∈ t.mConnectionList ++ _ at hc
    rw [list, List.append_assoc] at hc
    rcases List.mem_append.mp hc with hc | hc
    · exact h.fresh c (List.mem_append_left _ hc)
    · rcases List.mem_cons.mp hc with rfl | hc
      · exact fresh
      · exact h.fresh c (List.mem_append_right _ hc)
  · intro c hc
    change c ∈ t.mConnectionList at hc
    rw [list] at hc
    rcases List.mem_append.mp hc with hc | hc
    · exact h.unset c hc
    · rw [List.mem_singleton.mp hc]
      exact unset
  · intro c hc
    change c ∈ t.mConnectionList at hc
    rw [list] at hc
    rcases List.mem_append.mp hc with hc | hc
    · exact h.established c hc
    · rw [List.mem_singleton.mp hc]
  · intro c hc d hd hcl hdl same
    change c ∈ t.mConnectionList at hc
    change d ∈ t.mConnectionList at hd
    rw [list] at hc hd
    rcases List.mem_append.mp hc with hc | hc <;> rcases List.mem_append.mp hd with hd | hd
    · exact h.distinct c hc d hd hcl hdl same
    · obtain rfl := List.mem_singleton.mp hd
      exact absurd same (free hdl c hc)
    · obtain rfl := List.mem_singleton.mp hc
      exact absurd same.symm (free hcl d hd)
    · rw [List.mem_singleton.mp hc, List.mem_singleton.mp hd]

/-- Disconnecting takes connections out of the lists only. -/
theorem disconnect (h : s.Sound) (conn : InterfaceConnection ν) :
    ∃ s', s.disconnect conn = some s' ∧ s'.Sound ∧ s'.objects = s.objects ∧
      (∀ c ∈ s'.mConnectionList, c ∈ s.mConnectionList) ∧
      (conn.mConnectionState = connected →
        s'.mPendingConnections = s.mPendingConnections ∧ conn ∉ s'.mConnectionList) := by
  cases hstate : conn.mConnectionState with
  | sendingPunchPackets | computingPuzzleSolution =>
    refine ⟨s, by rw [NetInterface.disconnect, hstate], h, rfl, fun _ => id, ?_⟩
    rintro ⟨⟩
  | awaitingChallengeResponse | awaitingConnectResponse =>
    refine ⟨_, by rw [NetInterface.disconnect, hstate], h.removePendingConnection conn, rfl,
      fun _ => id, ?_⟩
    rintro ⟨⟩
  | connected =>
    obtain ⟨s', removed, sound, pending, objects, perm⟩ := h.removeConnection conn
    refine ⟨s', by rw [NetInterface.disconnect, hstate, removed], sound, objects,
      fun c hc => List.mem_of_mem_erase (perm.mem_iff.mp hc), fun _ => ⟨pending, fun hc => ?_⟩⟩
    exact (h.tabled.nodup.mem_erase_iff.mp (perm.mem_iff.mp hc)).1 rfl

/-- After the connection found at an address is disconnected, there is none with that address. -/
theorem disconnectFound (h : s.Sound) {found : Option (InterfaceConnection ν)}
    (hfind : s.findConnection source = some found) :
    ∃ s', s.disconnectFound found = some s' ∧ s'.Sound ∧
      s'.mPendingConnections = s.mPendingConnections ∧ s'.objects = s.objects ∧
      (source ≠ .unset → ∀ c ∈ s'.mConnectionList, c.mNetAddress ≠ source) := by
  obtain ⟨r, hfind', at_address, absent⟩ := h.tabled.find source
  obtain rfl : r = found := Option.some.inj (hfind'.symm.trans hfind)
  cases r with
  | none => exact ⟨s, rfl, h, rfl, rfl, fun _ => absent rfl⟩
  | some conn =>
    obtain ⟨hconn, haddr⟩ := at_address conn rfl
    obtain ⟨s', disconnected, sound, objects, sub, gone⟩ := h.disconnect conn
    obtain ⟨pending, gone⟩ := gone (h.established conn hconn)
    refine ⟨s', disconnected, sound, pending, objects, fun hset c hc hca => ?_⟩
    have network : ∀ d ∈ s.mConnectionList, d.mNetAddress = source → d.isLocal = false := by
      intro d hd hda
      rw [← Bool.not_eq_true, h.unset d hd, hda]
      exact hset
    have same := h.distinct c (sub c hc) conn hconn (network c (sub c hc) hca)
      (network conn hconn haddr) (hca.trans haddr.symm)
    exact gone (same ▸ hc)

theorem findConnection (h : s.Sound) (source : Address) :
    ∃ found, s.findConnection source = some found :=
  let ⟨r, hfind, _⟩ := h.tabled.find source
  ⟨r, hfind⟩

omit [DecidableEq ν] in
/-- A new object joins the pending connections. -/
theorem pend (h : s.Sound) (hpointer : conn.pointer = s.objects) (hlocal : conn.isLocal = false) :
    Sound { s with
      mPendingConnections := s.mPendingConnections ++ [conn]
      objects := s.objects + 1 } := by
  refine ⟨h.tabled, ?_, ?_, ?_, h.unset, h.established, h.distinct⟩
  · change ((s.mConnectionList ++ (s.mPendingConnections ++ [conn])).map _).Nodup
    rw [← List.append_assoc, List.map_append, List.nodup_append]
    refine ⟨h.pointers, List.nodup_singleton _, fun p hp q hq => ?_⟩
    obtain ⟨c, hc, rfl⟩ := List.mem_map.mp hp
    rw [List.map_singleton, List.mem_singleton] at hq
    rw [hq, hpointer]
    exact (h.fresh c hc).ne
  · intro c hc
    change c ∈ s.mConnectionList ++ (s.mPendingConnections ++ [conn]) at hc
    change c.pointer < s.objects + 1
    rw [← List.append_assoc] at hc
    rcases List.mem_append.mp hc with hc | hc
    · exact (h.fresh c hc).trans (Nat.lt_succ_self _)
    · rw [List.mem_singleton.mp hc, hpointer]
      exact Nat.lt_succ_self _
  · intro c hc
    rcases List.mem_append.mp hc with hc | hc
    · exact h.nonlocal c hc
    · rw [List.mem_singleton.mp hc, hlocal]

theorem addPendingConnection (h : s.Sound) (hpointer : conn.pointer = s.objects)
    (hlocal : conn.isLocal = false) : ∃ s', s.addPendingConnection conn = some s' ∧ s'.Sound := by
  have h₁ := h.erasePending (fun c => conn.mNetAddress = c.mNetAddress)
  obtain ⟨found, hfind⟩ := h₁.findConnection conn.mNetAddress
  obtain ⟨s₂, hdisconnect, h₂, -, objects, -⟩ := h₁.disconnectFound hfind
  refine ⟨_, ?_, h₂.pend (hpointer.trans objects.symm) hlocal⟩
  rw [NetInterface.addPendingConnection]
  change (NetInterface.findConnection _ _).bind _ = _
  rw [NetInterface.findAndRemovePendingConnection, hfind]
  change (NetInterface.disconnectFound _ _).bind _ = _
  rw [hdisconnect]
  rfl

omit [DecidableEq ν] in
theorem newObject (h : s.Sound) : Sound { s with objects := s.objects + 1 } :=
  ⟨h.tabled, h.pointers, fun c hc => (h.fresh c hc).trans (Nat.lt_succ_self _), h.nonlocal, h.unset,
    h.established, h.distinct⟩

theorem connectLocal (h : s.Sound) (nonce serverNonce : ν) :
    ∃ s', s.connectLocal nonce serverNonce = some s' ∧ s'.Sound := by
  obtain ⟨s', added, sound, -⟩ := h.newObject.addConnection
    ⟨s.objects, .unset, true, connected, nonce, serverNonce, true, [], false⟩
    (fun c hc => (h.fresh c hc).ne) (Nat.lt_succ_self _) (by simp) (by simp)
  exact ⟨s', added, sound⟩

omit [DecidableEq ν] in
theorem mem_of_findPending (hfind : s.findPendingConnection source = some conn) :
    conn ∈ s.mPendingConnections ∧ conn.mNetAddress = source := by
  have haddr := List.find?_some hfind
  exact ⟨List.mem_of_find?_eq_some hfind, (of_decide_eq_true haddr).symm⟩

theorem handleConnectChallengeResponse (h : s.Sound) (source : Address) (nonce serverNonce : ν)
    (acceptable solved : Bool) :
    (s.handleConnectChallengeResponse source nonce serverNonce acceptable solved).Sound := by
  rw [NetInterface.handleConnectChallengeResponse]
  cases hfind : s.findPendingConnection source with
  | none => exact h
  | some conn =>
    have hlocal := h.nonlocal conn (mem_of_findPending hfind).1
    dsimp only
    split_ifs
    · exact h
    · exact h.setPending (by exact hlocal)
    · exact h.setPending (by exact hlocal)
    · exact h.setPending (by exact hlocal)

omit [DecidableEq ν] in
theorem continuePuzzleSolution (h : s.Sound) (pointer : ℕ) :
    (s.continuePuzzleSolution pointer).Sound := by
  rw [NetInterface.continuePuzzleSolution]
  cases hfind : s.mPendingConnections.find? (fun c => c.pointer = pointer) with
  | none => exact h
  | some conn =>
    dsimp only
    split_ifs
    · exact h.setPending (h.nonlocal conn (List.mem_of_find?_eq_some hfind))
    · exact h

theorem handleConnectRequest (h : s.Sound) (hset : source ≠ .unset) (nonce serverNonce : ν)
    (checks : RequestChecks) :
    ∃ s', s.handleConnectRequest source nonce serverNonce checks = some s' ∧ s'.Sound := by
  obtain ⟨found, hfind⟩ := h.findConnection source
  obtain ⟨s₁, hdisconnect, h₁, -, -, free⟩ := h.disconnectFound hfind
  obtain ⟨s₂, added, h₂, -⟩ := h₁.newObject.addConnection
    ⟨s₁.objects, source, false, connected, nonce, serverNonce, false, [], false⟩
    (fun c hc => (h₁.fresh c hc).ne) (Nat.lt_succ_self _) (by simp [hset]) (fun _ => free hset)
  rw [NetInterface.handleConnectRequest, hfind]
  simp only [Option.bind_some, hdisconnect]
  split_ifs
  · exact ⟨s, rfl, h⟩
  · exact ⟨s, rfl, h⟩
  · exact ⟨s, rfl, h⟩
  · exact ⟨s₁, rfl, h₁⟩
  · exact ⟨_, rfl, h₁.newObject⟩
  · exact ⟨s₂, added, h₂⟩

omit [DecidableEq ν] in
/-- Its pointer tells a pending connection from all others. -/
theorem pointer_ne (h : s.Sound) (hconn : conn ∈ s.mPendingConnections) :
    ∀ c ∈ s.mConnectionList ++ (s.removePendingConnection conn).mPendingConnections,
      c.pointer ≠ conn.pointer := by
  obtain ⟨d, front, back, hfront, hd, hpending, herase⟩ :=
    List.exists_of_eraseP (p := fun c => decide (c.pointer = conn.pointer)) hconn (by simp)
  have hd : d.pointer = conn.pointer := of_decide_eq_true hd
  have hnodup := h.pointers
  have perm : (s.mConnectionList ++ s.mPendingConnections).Perm
      (d :: (s.mConnectionList ++ (front ++ back))) := by
    rw [hpending]
    exact (List.perm_middle.append_left _).trans List.perm_middle
  rw [(perm.map _).nodup_iff, List.map_cons, List.nodup_cons, hd] at hnodup
  intro c hc heq
  rw [NetInterface.removePendingConnection, herase] at hc
  exact hnodup.1 (heq ▸ List.mem_map_of_mem hc)

/-- A pending connection moves to the list, where its address is free. -/
theorem establish (h : s.Sound) (hconn : conn ∈ s.mPendingConnections) (hset : source ≠ .unset)
    (free : ∀ c ∈ s.mConnectionList, c.mNetAddress ≠ source) :
    ∃ s', (s.addConnection { conn with mNetAddress := source }).map
      (·.removePendingConnection conn) = some s' ∧ s'.Sound := by
  have hlocal := h.nonlocal conn hconn
  obtain ⟨s', added, sound, -⟩ := (h.removePendingConnection conn).addConnection
    { conn with mNetAddress := source } (h.pointer_ne hconn)
    (h.fresh conn (List.mem_append_right _ hconn)) (by simp [hlocal, hset]) (fun _ => free)
  -- the two lists do not depend on each other
  have commute : (s.addConnection { conn with mNetAddress := source }).map
      (·.removePendingConnection conn) =
      (s.removePendingConnection conn).addConnection { conn with mNetAddress := source } := by
    rw [NetInterface.addConnection, NetInterface.addConnection, Option.map_map]
    rfl
  exact ⟨s', commute.trans added, sound⟩

theorem handleConnectAccept (h : s.Sound) (hset : source ≠ .unset) {nonce serverNonce : ν}
    {decrypted accepted : Bool}
    (unoccupied : s.Unoccupied (.connectAccept source nonce serverNonce decrypted accepted)) :
    ∃ s', s.handleConnectAccept source nonce serverNonce decrypted accepted = some s' ∧
      s'.Sound := by
  rw [NetInterface.handleConnectAccept]
  cases hfind : s.findPendingConnection source with
  | none => exact ⟨s, rfl, h⟩
  | some conn =>
    dsimp only
    split_ifs with hstate hnonce hdecrypted haccepted
    · exact ⟨s, rfl, h⟩
    · exact ⟨s, rfl, h⟩
    · exact ⟨s, rfl, h⟩
    · exact ⟨_, rfl, h.removePendingConnection conn⟩
    · obtain ⟨hconn, haddr⟩ := mem_of_findPending hfind
      push Not at hstate hnonce
      have free : ∀ c ∈ s.mConnectionList, c.mNetAddress ≠ source := by
        cases decrypted <;> cases accepted <;> try simp at hdecrypted haccepted
        exact unoccupied conn hfind hstate hnonce.1 hnonce.2
      have moved := h.establish hconn hset free
      rw [show { conn with mNetAddress := source } = conn by rw [← haddr]] at moved
      exact moved

theorem handleConnectReject (h : s.Sound) (source : Address) (nonce serverNonce : ν) (retry : Bool)
    (newNonce : ν) : (s.handleConnectReject source nonce serverNonce retry newNonce).Sound := by
  rw [NetInterface.handleConnectReject]
  cases hfind : s.findPendingConnection source with
  | none => exact h
  | some conn =>
    dsimp only
    split_ifs
    · exact h
    · exact h
    · exact h.setPending (h.nonlocal conn (mem_of_findPending hfind).1)
    · exact h.removePendingConnection conn

/-- A search keeps the objects of the pending list. -/
theorem findPunched_spec (theAddress : Address) (firstNonce : ν)
    {pending : List (InterfaceConnection ν)} (nonlocal : ∀ c ∈ pending, c.isLocal = false) :
    (findPunched theAddress firstNonce pending).1.map (·.pointer) = pending.map (·.pointer) ∧
    (∀ c ∈ (findPunched theAddress firstNonce pending).1, c.isLocal = false) ∧
    ∀ c, (findPunched theAddress firstNonce pending).2 = some c → c.isLocal = false := by
  induction pending with
  | nil => simp [findPunched]
  | cons conn rest ih =>
    obtain ⟨pointers, nonlocal', found⟩ := ih (fun c hc => nonlocal c (List.mem_cons_of_mem _ hc))
    have hconn := nonlocal conn List.mem_cons_self
    have hrest : ∀ c ∈ rest, c.isLocal = false := fun c hc => nonlocal c (List.mem_cons_of_mem _ hc)
    -- going on with the rest, or stopping here, with the connection as it was or with an address
    have goOn : ∀ conn' : InterfaceConnection ν, conn'.pointer = conn.pointer →
        conn'.isLocal = false →
        (conn' :: (findPunched theAddress firstNonce rest).1).map (·.pointer) =
          (conn :: rest).map (·.pointer) ∧
        (∀ c ∈ conn' :: (findPunched theAddress firstNonce rest).1, c.isLocal = false) ∧
        ∀ c, (findPunched theAddress firstNonce rest).2 = some c → c.isLocal = false := by
      intro conn' hpointer hlocal
      refine ⟨by rw [List.map_cons, List.map_cons, pointers, hpointer], fun c hc => ?_, found⟩
      rcases List.mem_cons.mp hc with rfl | hc
      · exact hlocal
      · exact nonlocal' c hc
    have stop : ∀ conn' : InterfaceConnection ν, conn'.pointer = conn.pointer →
        conn'.isLocal = false →
        (conn' :: rest).map (·.pointer) = (conn :: rest).map (·.pointer) ∧
        (∀ c ∈ conn' :: rest, c.isLocal = false) ∧ ∀ c, some conn' = some c → c.isLocal = false := by
      intro conn' hpointer hlocal
      refine ⟨by rw [List.map_cons, List.map_cons, hpointer], fun c hc => ?_, ?_⟩
      · rcases List.mem_cons.mp hc with rfl | hc
        · exact hlocal
        · exact hrest c hc
      · rintro c ⟨⟩
        exact hlocal
    rw [findPunched]
    dsimp only
    split_ifs
    all_goals first
      | exact goOn _ rfl hconn
      | exact stop _ rfl hconn

theorem handlePunch (h : s.Sound) (theAddress : Address) (firstNonce nextNonce : ν)
    (decrypted keys : Bool) :
    (s.handlePunch theAddress firstNonce nextNonce decrypted keys).Sound := by
  obtain ⟨pointers, nonlocal, found⟩ := findPunched_spec theAddress firstNonce h.nonlocal
  have h₁ := h.withPending (pointers ▸ List.Sublist.refl _) nonlocal
  rw [NetInterface.handlePunch]
  cases hfound : (findPunched theAddress firstNonce s.mPendingConnections).2 with
  | none =>
    simp only [hfound]
    exact h₁
  | some conn =>
    simp only [hfound]
    split_ifs
    · exact h₁
    · exact h₁.setPending (by exact found conn hfound)

theorem handleArrangedConnectRequest (h : s.Sound) (hset : source ≠ .unset) (nonce serverNonce : ν)
    (decrypted keys accepted : Bool) :
    ∃ s', s.handleArrangedConnectRequest source nonce serverNonce decrypted keys accepted =
      some s' ∧ s'.Sound := by
  obtain ⟨found, hfind⟩ := h.findConnection source
  obtain ⟨s₁, hdisconnect, h₁, pending, -, free⟩ := h.disconnectFound hfind
  rw [NetInterface.handleArrangedConnectRequest, hfind, Option.bind_some]
  cases hpending : s.mPendingConnections.find? (fun c =>
      c.mConnectionState = sendingPunchPackets ∧ c.mIsInitiator = false ∧ nonce = c.mNonce ∧
        c.mPossibleAddresses.any source.isEqualAddress) with
  | none =>
    dsimp only
    split_ifs <;> exact ⟨s, rfl, h⟩
  | some conn =>
    have hconn : conn ∈ s₁.mPendingConnections := by
      rw [pending]
      exact List.mem_of_find?_eq_some hpending
    simp only [hdisconnect, Option.bind_some]
    split_ifs
    · exact ⟨s, rfl, h⟩
    · exact ⟨s, rfl, h⟩
    · exact ⟨_, rfl, h₁.removePendingConnection conn⟩
    · exact h₁.establish hconn hset (free hset)

theorem handleDisconnect (h : s.Sound) (source : Address) (nonce serverNonce : ν)
    (decrypted : Bool) :
    ∃ s', s.handleDisconnect source nonce serverNonce decrypted = some s' ∧ s'.Sound := by
  obtain ⟨found, hfind⟩ := h.findConnection source
  rw [NetInterface.handleDisconnect, hfind, Option.bind_some]
  cases found with
  | none => exact ⟨s, rfl, h⟩
  | some conn =>
    obtain ⟨s', removed, sound, -⟩ := h.removeConnection conn
    dsimp only
    split_ifs
    · exact ⟨s, rfl, h⟩
    · exact ⟨s, rfl, h⟩
    · exact ⟨s', removed, sound⟩

omit [DecidableEq ν] in
theorem pendingTimeout (h : s.Sound) (pointer : ℕ) : (s.pendingTimeout pointer).Sound := by
  rw [NetInterface.pendingTimeout]
  cases s.mPendingConnections.find? (fun c => c.pointer = pointer) with
  | none => exact h
  | some conn => exact h.removePendingConnection conn

theorem connectionTimeout (h : s.Sound) (pointer : ℕ) :
    ∃ s', s.connectionTimeout pointer = some s' ∧ s'.Sound := by
  rw [NetInterface.connectionTimeout]
  cases s.mConnectionList.find? (fun c => c.pointer = pointer ∧ c.isLocal = false) with
  | none => exact ⟨s, rfl, h⟩
  | some conn =>
    obtain ⟨s', removed, sound, -⟩ := h.removeConnection conn
    exact ⟨s', removed, sound⟩

theorem disconnectPointer (h : s.Sound) (pointer : ℕ) :
    ∃ s', s.disconnectPointer pointer = some s' ∧ s'.Sound := by
  rw [NetInterface.disconnectPointer]
  cases (s.mPendingConnections ++ s.mConnectionList).find? (·.pointer = pointer) with
  | none => exact ⟨s, rfl, h⟩
  | some conn =>
    obtain ⟨s', disconnected, sound, -⟩ := h.disconnect conn
    exact ⟨s', disconnected, sound⟩

/-- No loop over the table runs forever, and what a step leaves behind is sound. -/
theorem act (h : s.Sound) {a : Action ν} (received : a.source ≠ some .unset)
    (unoccupied : s.Unoccupied a) : ∃ s', s.act a = some s' ∧ s'.Sound := by
  have set : ∀ {source : Address}, some source ≠ some Address.unset → source ≠ .unset :=
    fun hne heq => hne (congrArg some heq)
  cases a with
  | connect address nonce serverNonce => exact h.addPendingConnection rfl rfl
  | connectArranged address possibleAddresses nonce serverNonce isInitiator =>
    exact h.addPendingConnection rfl rfl
  | connectLocal nonce serverNonce => exact h.connectLocal nonce serverNonce
  | disconnect pointer => exact h.disconnectPointer pointer
  | connectChallengeResponse source nonce serverNonce acceptable solved =>
    exact ⟨_, rfl, h.handleConnectChallengeResponse source nonce serverNonce acceptable solved⟩
  | puzzleSolved pointer => exact ⟨_, rfl, h.continuePuzzleSolution pointer⟩
  | connectRequest source nonce serverNonce checks =>
    exact h.handleConnectRequest (set received) nonce serverNonce checks
  | connectAccept source nonce serverNonce decrypted accepted =>
    exact h.handleConnectAccept (set received) unoccupied
  | connectReject source nonce serverNonce retry newNonce =>
    exact ⟨_, rfl, h.handleConnectReject source nonce serverNonce retry newNonce⟩
  | punch source firstNonce nextNonce decrypted keys =>
    exact ⟨_, rfl, h.handlePunch source firstNonce nextNonce decrypted keys⟩
  | arrangedConnectRequest source nonce serverNonce decrypted keys accepted =>
    exact h.handleArrangedConnectRequest (set received) nonce serverNonce decrypted keys accepted
  | disconnectPacket source nonce serverNonce decrypted =>
    exact h.handleDisconnect source nonce serverNonce decrypted
  | pendingTimeout pointer => exact ⟨_, rfl, h.pendingTimeout pointer⟩
  | connectionTimeout pointer => exact h.connectionTimeout pointer

theorem step (h : s.Sound) {a : Action ν} (unoccupied : s.Unoccupied a)
    (taken : s.step a = some s') : s'.Sound := by
  obtain ⟨received, taken⟩ := Option.ite_none_left_eq_some.mp taken
  obtain ⟨t, acted, sound⟩ := h.act received unoccupied
  rw [taken] at acted
  cases acted
  exact sound

end Sound

/-- In every run in which no connect accept completes a pending connection to an address already
connected to, the network connections of the list have different addresses. -/
theorem addresses_nodup {mAllowConnections : Bool} {as : List (Action ν)}
    (run : Run step Unoccupied (start mAllowConnections) as s) :
    ((s.mConnectionList.filter (fun c => !c.isLocal)).map (·.mNetAddress)).Nodup := by
  have h : s.Sound := run.invariant (fun _ _ _ hs unoccupied taken => hs.step unoccupied taken)
    (sound_start mAllowConnections)
  refine (h.tabled.nodup.filter _).map_on fun c hc d hd same => ?_
  obtain ⟨hc, hcl⟩ := List.mem_filter.mp hc
  obtain ⟨hd, hdl⟩ := List.mem_filter.mp hd
  exact h.distinct c hc d hd (by simpa using hcl) (by simpa using hdl) same

/-- The address of a peer. -/
def peer : Address := ⟨0, 28000, #v[0x0100007F, 0, 0, 0]⟩

/-- A connection to a peer is asked for and accepted. -/
theorem addresses_nodup_accepted :
    ∃ s : NetInterface ℕ, Run step Unoccupied (start true)
      ([.connect peer 1 0, .connectChallengeResponse peer 1 2 true true] ++
        [.connectAccept peer 1 2 true true]) s ∧
      ((s.mConnectionList.filter (fun c => !c.isLocal)).map (·.mNetAddress)).Nodup := by
  have asked : (exec step (start true : NetInterface ℕ) [.connect peer 1 0,
      .connectChallengeResponse peer 1 2 true true]).map (fun s =>
      (s.mConnectionList, (s.step (.connectAccept peer 1 2 true true)).isSome)) =
      some ([], true) := by
    decide +kernel
  obtain ⟨s, hexec, hs⟩ := Option.map_eq_some_iff.mp asked
  obtain ⟨hlist, haccept⟩ := Prod.mk.inj hs
  obtain ⟨s', taken⟩ := Option.isSome_iff_exists.mp haccept
  have pending : Run step Unoccupied (start true) _ s := .of_exec_of_forall (by
    intro s a ha
    simp only [List.mem_cons, List.not_mem_nil, or_false] at ha
    rcases ha with rfl | rfl <;> trivial) hexec
  have run := pending.snoc (a := .connectAccept peer 1 2 true true) (by
    intro conn _ _ _ _ c hc
    rw [hlist] at hc
    cases hc) taken
  exact ⟨s', run, addresses_nodup run⟩

/-- Both ends connect to each other at once: the request of the peer is accepted while an own
connection to it is pending, and then the peer's accept completes that one too. -/
theorem simultaneousOpen_not_nodup :
    ¬ ∀ (mAllowConnections : Bool) (as : List (Action ℕ)) (s : NetInterface ℕ),
      exec step (start mAllowConnections) as = some s →
      ((s.mConnectionList.filter (fun c => !c.isLocal)).map (·.mNetAddress)).Nodup := by
  intro h
  have both : (exec step (start true : NetInterface ℕ)
      [.connect peer 1 0, .connectChallengeResponse peer 1 2 true true,
        .connectRequest peer 3 4 ⟨true, true, true, true, true⟩,
        .connectAccept peer 1 2 true true]).map (fun s =>
      (s.mConnectionList.filter (fun c => !c.isLocal)).map (·.mNetAddress)) =
      some [peer, peer] := by
    decide +kernel
  obtain ⟨s, hexec, hs⟩ := Option.map_eq_some_iff.mp both
  have nodup := h _ _ s hexec
  rw [hs] at nodup
  exact absurd nodup (by decide)

end NetInterface

end TNL
