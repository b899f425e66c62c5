import TNL.Connection.ConnectionAttempts

/-!
# What a disconnect leaves behind

In any state an interface can reach, also with several connections to one address,
the lists hold different objects, those of the connection list are the ones in the
hash table, and only these are connected. A disconnect takes a connection out of
everything, unless it is still sending punch packets or computing a solution: then
it does nothing.
-/
namespace TNL
open Library

namespace NetInterface
open InterfaceConnectionState Callback

variable {ν : Type*} [DecidableEq ν]

/-- The references that `removePendingConnection` gives back. -/
def pendingReleases (s : NetInterface ν) (conn : InterfaceConnection ν) : List ℕ :=
  if s.mPendingConnections.any (fun c => c.pointer = conn.pointer) then [conn.pointer] else []

/-- Those that `removeConnection` gives back, which returns early when the connection is not in the
table. -/
def listReleases (s : NetInterface ν) (conn : InterfaceConnection ν) : List ℕ :=
  let table := s.connections.mConnectionHashTable
  match table.walk (fun v => v = some conn) table.size
      (ConnectionTable.hashOf InterfaceConnection.mNetAddress conn % table.size) with
  | none => []
  | some _ => [conn.pointer]

def disconnectReleases (s : NetInterface ν) (conn : InterfaceConnection ν) : List ℕ :=
  match conn.mConnectionState with
  | awaitingChallengeResponse | awaitingConnectResponse => s.pendingReleases conn
  | connected => s.listReleases conn
  | sendingPunchPackets | computingPuzzleSolution => []

/-- A disconnect takes a connection out of the lists and the table, with one callback and one
reference given back, and leaves the other connections where they are. -/
structure Disconnects (s : NetInterface ν) (conn : InterfaceConnection ν) (t : NetInterface ν) :
    Prop where
  done : s.disconnect conn = some t
  unlisted : ∀ c ∈ t.mConnectionList ++ t.mPendingConnections, c.pointer ≠ conn.pointer
  untabled : ∀ c, t.connections.mConnectionHashTable.Holds c → c.pointer ≠ conn.pointer
  called : disconnectCallbacks conn = [onConnectTerminated conn.pointer] ∨
    disconnectCallbacks conn = [onConnectionTerminated conn.pointer]
  released : s.disconnectReleases conn = [conn.pointer]
  pending : t.mPendingConnections = s.mPendingConnections.filter (fun c => c.pointer ≠ conn.pointer)
  listed : t.mConnectionList.Perm
    (s.mConnectionList.filter fun c => c.pointer ≠ conn.pointer)
  tabled : ∀ c, c.pointer ≠ conn.pointer →
    (t.connections.mConnectionHashTable.Holds c ↔ s.connections.mConnectionHashTable.Holds c)

/-- What holds in every state. -/
structure Kept (s : NetInterface ν) : Prop where
  tabled : ConnectionTable.Tabled InterfaceConnection.mNetAddress s.connections
  pointers : ((s.mConnectionList ++ s.mPendingConnections).map (·.pointer)).Nodup
  fresh : ∀ c ∈ s.mConnectionList ++ s.mPendingConnections, c.pointer < s.objects
  established : ∀ c ∈ s.mConnectionList, c.mConnectionState = connected
  waiting : ∀ c ∈ s.mPendingConnections, c.mConnectionState ≠ connected

variable {s s' : NetInterface ν} {conn : InterfaceConnection ν} {source : Address}

omit [DecidableEq ν] in
theorem kept_start (mAllowConnections : Bool) :
    (start mAllowConnections : NetInterface ν).Kept where
  tabled := ConnectionTable.tabled_initial
  pointers := List.nodup_nil
  fresh := by simp [start, mConnectionList, ConnectionTable.initial]
  established := by simp [start, mConnectionList, ConnectionTable.initial]
  waiting := by simp [start]

namespace Kept

omit [DecidableEq ν] in
theorem withPending (h : s.Kept) {pending : List (InterfaceConnection ν)}
    (pointers : (pending.map (·.pointer)).Sublist (s.mPendingConnections.map (·.pointer)))
    (waiting : ∀ c ∈ pending, c.mConnectionState ≠ connected) :
    Kept { s with mPendingConnections := pending } := by
  have sub : ((s.mConnectionList ++ pending).map (·.pointer)).Sublist
      ((s.mConnectionList ++ s.mPendingConnections).map (·.pointer)) := by
    rw [List.map_append, List.map_append]
    exact (List.Sublist.refl _).append pointers
  refine ⟨h.tabled, h.pointers.sublist sub, fun c hc => ?_, h.established, waiting⟩
  obtain ⟨d, hd, heq⟩ := List.mem_map.mp (sub.subset (List.mem_map_of_mem hc))
  rw [← heq]
  exact h.fresh d hd

omit [DecidableEq ν] in
theorem erasePending (h : s.Kept) (p : InterfaceConnection ν → Bool) :
    Kept { s with mPendingConnections := s.mPendingConnections.eraseP p } :=
  h.withPending ((List.eraseP_sublist).map _) fun c hc => h.waiting c (List.mem_of_mem_eraseP hc)

omit [DecidableEq ν] in
theorem removePendingConnection (h : s.Kept) (conn : InterfaceConnection ν) :
    (s.removePendingConnection conn).Kept := h.erasePending _

omit [DecidableEq ν] in
theorem setPending (h : s.Kept) (hstate : conn.mConnectionState ≠ connected) :
    (s.setPending conn).Kept := by
  have same : (s.setPending conn).mPendingConnections.map (·.pointer) =
      s.mPendingConnections.map (·.pointer) := by
    rw [NetInterface.setPending, List.map_map]
    refine List.map_congr_left fun c _ => ?_
    by_cases hc : c.pointer = conn.pointer <;> simp [hc]
  refine h.withPending (same ▸ List.Sublist.refl _) fun c hc => ?_
  obtain ⟨d, hd, rfl⟩ := List.mem_map.mp hc
  split_ifs
  · exact hstate
  · exact h.waiting d hd

theorem removeConnection (h : s.Kept) (conn : InterfaceConnection ν) :
    ∃ s', s.removeConnection conn = some s' ∧ s'.Kept ∧
      s'.mPendingConnections = s.mPendingConnections ∧ s'.objects = s.objects ∧
      s'.mConnectionList.Perm (s.mConnectionList.erase conn) := by
  obtain ⟨t, removed, perm, tabled⟩ := h.tabled.remove conn
  have sub : ∀ c ∈ t.mConnectionList, c ∈ s.mConnectionList := fun c hc =>
    List.mem_of_mem_erase (perm.mem_iff.mp hc)
  refine ⟨{ s with connections := t }, by rw [NetInterface.removeConnection, removed]; rfl,
    ⟨tabled, ?_, ?_, fun c hc => h.established c (sub c hc), h.waiting⟩, rfl, rfl, perm⟩
  · refine (((perm.append_right _).map _).nodup_iff).mpr (h.pointers.sublist ?_)
    exact (List.erase_sublist.append (List.Sublist.refl _)).map _
  · intro c hc
    refine h.fresh c ?_
    rcases List.mem_append.mp hc with hc | hc
    · exact List.mem_append_left _ (sub c hc)
    · exact List.mem_append_right _ hc

theorem addConnection (h : s.Kept) (conn : InterfaceConnection ν)
    (new : ∀ c ∈ s.mConnectionList ++ s.mPendingConnections, c.pointer ≠ conn.pointer)
    (fresh : conn.pointer < s.objects) :
    ∃ s', s.addConnection conn = some s' ∧ s'.Kept := by
  let conn' := { conn with mConnectionState := connected }
  have absent : conn' ∉ s.mConnectionList := fun hc =>
    new conn' (List.mem_append_left _ hc) rfl
  obtain ⟨t, added, list, tabled⟩ := h.tabled.add absent
  refine ⟨{ s with connections := t }, by rw [NetInterface.addConnection, added]; rfl,
    ⟨tabled, ?_, ?_, ?_, h.waiting⟩⟩
  · have perm : (t.mConnectionList ++ s.mPendingConnections).Perm
        (conn' :: (s.mConnectionList ++ s.mPendingConnections)) := by
      rw [list, List.append_assoc]
      exact List.perm_middle
    refine ((perm.map _).nodup_iff).mpr (List.nodup_cons.mpr ⟨fun hmem => ?_, h.pointers⟩)
    obtain ⟨c, hc, heq⟩ := List.mem_map.mp hmem
    exact new c hc heq
  · intro c hc
    change c ∈ t.mConnectionList ++ _ at hc
    rw [list, List.append_assoc] at hc
    rcases List.mem_append.mp hc with hc | hc
    · exact h.fresh c (List.mem_append_left _ hc)
    · rcases List.mem_cons.mp hc with rfl | hc
      · exact fresh
      · exact h.fresh c (List.mem_append_right _ hc)
  · intro c hc
    change c ∈ t.mConnectionList at hc
    rw [list] at hc
    rcases List.mem_append.mp hc with hc | hc
    · exact h.established c hc
    · rw [List.mem_singleton.mp hc]

theorem disconnect (h : s.Kept) (conn : InterfaceConnection ν) :
    ∃ s', s.disconnect conn = some s' ∧ s'.Kept ∧ s'.objects = s.objects ∧
      (conn.mConnectionState = connected → s'.mPendingConnections = s.mPendingConnections) := by
  cases hstate : conn.mConnectionState with
  | sendingPunchPackets | computingPuzzleSolution =>
    exact ⟨s, by rw [NetInterface.disconnect, hstate], h, rfl, fun _ => rfl⟩
  | awaitingChallengeResponse | awaitingConnectResponse =>
    exact ⟨_, by rw [NetInterface.disconnect, hstate], h.removePendingConnection conn, rfl,
      fun hne => by cases hne⟩
  | connected =>
    obtain ⟨s', removed, kept, pending, objects, _⟩ := h.removeConnection conn
    exact ⟨s', by rw [NetInterface.disconnect, hstate, removed], kept, objects, fun _ => pending⟩

theorem findConnection (h : s.Kept) (source : Address) :
    ∃ found, s.findConnection source = some found ∧
      ∀ c, found = some c → c.mConnectionState = connected :=
  let ⟨r, hfind, at_address, _⟩ := h.tabled.find source
  ⟨r, hfind, fun c hc => h.established c (at_address c hc).1⟩

theorem disconnectFound (h : s.Kept) {found : Option (InterfaceConnection ν)}
    (hfound : ∀ c, found = some c → c.mConnectionState = connected) :
    ∃ s', s.disconnectFound found = some s' ∧ s'.Kept ∧
      s'.mPendingConnections = s.mPendingConnections ∧ s'.objects = s.objects := by
  cases found with
  | none => exact ⟨s, rfl, h, rfl, rfl⟩
  | some conn =>
    obtain ⟨s', disconnected, kept, objects, pending⟩ := h.disconnect conn
    exact ⟨s', disconnected, kept, pending (hfound conn rfl), objects⟩

omit [DecidableEq ν] in
theorem newObject (h : s.Kept) : Kept { s with objects := s.objects + 1 } :=
  ⟨h.tabled, h.pointers, fun c hc => (h.fresh c hc).trans (Nat.lt_succ_self _), h.established,
    h.waiting⟩

omit [DecidableEq ν] in
theorem pend (h : s.Kept) (hpointer : conn.pointer = s.objects)
    (hstate : conn.mConnectionState ≠ connected) :
    Kept { s with
      mPendingConnections := s.mPendingConnections ++ [conn]
      objects := s.objects + 1 } := by
  refine ⟨h.tabled, ?_, ?_, h.established, ?_⟩
  · change ((s.mConnectionList ++ (s.mPendingConnections ++ [conn])).map _).Nodup
    rw [← List.append_assoc, List.map_append, List.nodup_append]
    refine ⟨h.pointers, List.nodup_singleton _, fun p hp q hq => ?_⟩
    obtain ⟨c, hc, rfl⟩ := List.mem_map.mp hp
    rw [List.map_singleton, List.mem_singleton] at hq
    rw [hq, hpointer]
    exact (h.fresh c hc).ne
  · intro c hc
    change c ∈ s.mConnectionList ++ (s.mPendingConnections ++ [conn]) at hc
    change c.pointer < s.objects + 1
    rw [← List.append_assoc] at hc
    rcases List.mem_append.mp hc with hc | hc
    · exact (h.fresh c hc).trans (Nat.lt_succ_self _)
    · rw [List.mem_singleton.mp hc, hpointer]
      exact Nat.lt_succ_self _
  · intro c hc
    rcases List.mem_append.mp hc with hc | hc
    · exact h.waiting c hc
    · rw [List.mem_singleton.mp hc]
      exact hstate

theorem addPendingConnection (h : s.Kept) (hpointer : conn.pointer = s.objects)
    (hstate : conn.mConnectionState ≠ connected) :
    ∃ s', s.addPendingConnection conn = some s' ∧ s'.Kept := by
  have h₁ := h.erasePending (fun c => conn.mNetAddress = c.mNetAddress)
  obtain ⟨found, hfind, hfound⟩ := h₁.findConnection conn.mNetAddress
  obtain ⟨s₂, hdisconnect, h₂, -, objects⟩ := h₁.disconnectFound hfound
  refine ⟨_, ?_, h₂.pend (hpointer.trans objects.symm) hstate⟩
  rw [NetInterface.addPendingConnection]
  change (NetInterface.findConnection _ _).bind _ = _
  rw [NetInterface.findAndRemovePendingConnection, hfind]
  change (NetInterface.disconnectFound _ _).bind _ = _
  rw [hdisconnect]
  rfl

theorem handleConnectChallengeResponse (h : s.Kept) (source : Address) (nonce serverNonce : ν)
    (acceptable solved : Bool) :
    (s.handleConnectChallengeResponse source nonce serverNonce acceptable solved).Kept := by
  rw [NetInterface.handleConnectChallengeResponse]
  cases hfind : s.findPendingConnection source with
  | none => exact h
  | some conn =>
    have hwaiting := h.waiting conn (List.mem_of_find?_eq_some hfind)
    dsimp only
    split_ifs
    · exact h
    · exact h.setPending (by exact hwaiting)
    · exact h.setPending (by simp)
    · exact h.setPending (by simp)

omit [DecidableEq ν] in
theorem continuePuzzleSolution (h : s.Kept) (pointer : ℕ) :
    (s.continuePuzzleSolution pointer).Kept := by
  rw [NetInterface.continuePuzzleSolution]
  cases s.mPendingConnections.find? (fun c => c.pointer = pointer) with
  | none => exact h
  | some conn =>
    dsimp only
    split_ifs
    · exact h.setPending (by simp)
    · exact h

theorem handleConnectRequest (h : s.Kept) (source : Address) (nonce serverNonce : ν)
    (checks : RequestChecks) :
    ∃ s', s.handleConnectRequest source nonce serverNonce checks = some s' ∧ s'.Kept := by
  obtain ⟨found, hfind, hfound⟩ := h.findConnection source
  obtain ⟨s₁, hdisconnect, h₁, -, -⟩ := h.disconnectFound hfound
  obtain ⟨s₂, added, h₂⟩ := h₁.newObject.addConnection
    ⟨s₁.objects, source, false, connected, nonce, serverNonce, false, [], false⟩
    (fun c hc => (h₁.fresh c hc).ne) (Nat.lt_succ_self _)
  rw [NetInterface.handleConnectRequest, hfind]
  simp only [Option.bind_some, hdisconnect]
  split_ifs
  · exact ⟨s, rfl, h⟩
  · exact ⟨s, rfl, h⟩
  · exact ⟨s, rfl, h⟩
  · exact ⟨s₁, rfl, h₁⟩
  · exact ⟨_, rfl, h₁.newObject⟩
  · exact ⟨s₂, added, h₂⟩

omit [DecidableEq ν] in
theorem pointer_ne (h : s.Kept) (hconn : conn ∈ s.mPendingConnections) :
    ∀ c ∈ s.mConnectionList ++ (s.removePendingConnection conn).mPendingConnections,
      c.pointer ≠ conn.pointer := by
  obtain ⟨d, front, back, hfront, hd, hpending, herase⟩ :=
    List.exists_of_eraseP (p := fun c => decide (c.pointer = conn.pointer)) hconn (by simp)
  have hd : d.pointer = conn.pointer := of_decide_eq_true hd
  have hnodup := h.pointers
  have perm : (s.mConnectionList ++ s.mPendingConnections).Perm
      (d :: (s.mConnectionList ++ (front ++ back))) := by
    rw [hpending]
    exact (List.perm_middle.append_left _).trans List.perm_middle
  rw [(perm.map _).nodup_iff, List.map_cons, List.nodup_cons, hd] at hnodup
  intro c hc heq
  rw [NetInterface.removePendingConnection, herase] at hc
  exact hnodup.1 (heq ▸ List.mem_map_of_mem hc)

theorem establish (h : s.Kept) (hconn : conn ∈ s.mPendingConnections) (source : Address) :
    ∃ s', (s.addConnection { conn with mNetAddress := source }).map
      (·.removePendingConnection conn) = some s' ∧ s'.Kept := by
  obtain ⟨s', added, kept⟩ := (h.removePendingConnection conn).addConnection
    { conn with mNetAddress := source } (h.pointer_ne hconn)
    (h.fresh conn (List.mem_append_right _ hconn))
  -- the two lists do not depend on each other
  have commute : (s.addConnection { conn with mNetAddress := source }).map
      (·.removePendingConnection conn) =
      (s.removePendingConnection conn).addConnection { conn with mNetAddress := source } := by
    rw [NetInterface.addConnection, NetInterface.addConnection, Option.map_map]
    rfl
  exact ⟨s', commute.trans added, kept⟩

theorem handleConnectAccept (h : s.Kept) (source : Address) (nonce serverNonce : ν)
    (decrypted accepted : Bool) :
    ∃ s', s.handleConnectAccept source nonce serverNonce decrypted accepted = some s' ∧
      s'.Kept := by
  rw [NetInterface.handleConnectAccept]
  cases hfind : s.findPendingConnection source with
  | none => exact ⟨s, rfl, h⟩
  | some conn =>
    dsimp only
    split_ifs
    · exact ⟨s, rfl, h⟩
    · exact ⟨s, rfl, h⟩
    · exact ⟨s, rfl, h⟩
    · exact ⟨_, rfl, h.removePendingConnection conn⟩
    · exact h.establish (List.mem_of_find?_eq_some hfind) conn.mNetAddress

theorem handleConnectReject (h : s.Kept) (source : Address) (nonce serverNonce : ν) (retry : Bool)
    (newNonce : ν) : (s.handleConnectReject source nonce serverNonce retry newNonce).Kept := by
  rw [NetInterface.handleConnectReject]
  cases s.findPendingConnection source with
  | none => exact h
  | some conn =>
    dsimp only
    split_ifs
    · exact h
    · exact h
    · exact h.setPending (by simp)
    · exact h.removePendingConnection conn

/-- A search keeps the objects of the pending list and their states. -/
theorem findPunched_states (theAddress : Address) (firstNonce : ν)
    (pending : List (InterfaceConnection ν)) :
    (findPunched theAddress firstNonce pending).1.map (fun c => (c.pointer, c.mConnectionState)) =
      pending.map fun c => (c.pointer, c.mConnectionState) := by
  induction pending with
  | nil => rfl
  | cons conn rest ih =>
    rw [findPunched]
    dsimp only
    split_ifs
    all_goals simp [ih]

theorem handlePunch (h : s.Kept) (theAddress : Address) (firstNonce nextNonce : ν)
    (decrypted keys : Bool) :
    (s.handlePunch theAddress firstNonce nextNonce decrypted keys).Kept := by
  have hsame := findPunched_states theAddress firstNonce s.mPendingConnections
  have pointers : (findPunched theAddress firstNonce s.mPendingConnections).1.map (·.pointer) =
      s.mPendingConnections.map (·.pointer) := by
    have hfst := congrArg (List.map Prod.fst) hsame
    rwa [List.map_map, List.map_map] at hfst
  have hsub : ((findPunched theAddress firstNonce s.mPendingConnections).1.map
      (·.pointer)).Sublist (s.mPendingConnections.map (·.pointer)) := by rw [pointers]
  have h₁ := h.withPending hsub (fun c hc hstate => by
    have hmem := List.mem_map_of_mem (f := fun c => (c.pointer, c.mConnectionState)) hc
    rw [hsame] at hmem
    obtain ⟨d, hd, heq⟩ := List.mem_map.mp hmem
    exact h.waiting d hd ((congrArg Prod.snd heq).trans hstate))
  rw [NetInterface.handlePunch]
  cases hfound : (findPunched theAddress firstNonce s.mPendingConnections).2 with
  | none =>
    simp only [hfound]
    exact h₁
  | some conn =>
    simp only [hfound]
    split_ifs
    · exact h₁
    · exact h₁.setPending (by simp)

theorem handleArrangedConnectRequest (h : s.Kept) (source : Address) (nonce serverNonce : ν)
    (decrypted keys accepted : Bool) :
    ∃ s', s.handleArrangedConnectRequest source nonce serverNonce decrypted keys accepted =
      some s' ∧ s'.Kept := by
  obtain ⟨found, hfind, hfound⟩ := h.findConnection source
  obtain ⟨s₁, hdisconnect, h₁, pending, -⟩ := h.disconnectFound hfound
  rw [NetInterface.handleArrangedConnectRequest, hfind, Option.bind_some]
  cases hpending : s.mPendingConnections.find? (fun c =>
      c.mConnectionState = sendingPunchPackets ∧ c.mIsInitiator = false ∧ nonce = c.mNonce ∧
        c.mPossibleAddresses.any source.isEqualAddress) with
  | none =>
    dsimp only
    split_ifs <;> exact ⟨s, rfl, h⟩
  | some conn =>
    have hconn : conn ∈ s₁.mPendingConnections := by
      rw [pending]
      exact List.mem_of_find?_eq_some hpending
    simp only [hdisconnect, Option.bind_some]
    split_ifs
    · exact ⟨s, rfl, h⟩
    · exact ⟨s, rfl, h⟩
    · exact ⟨_, rfl, h₁.removePendingConnection conn⟩
    · exact h₁.establish hconn source

theorem handleDisconnect (h : s.Kept) (source : Address) (nonce serverNonce : ν)
    (decrypted : Bool) :
    ∃ s', s.handleDisconnect source nonce serverNonce decrypted = some s' ∧ s'.Kept := by
  obtain ⟨found, hfind, -⟩ := h.findConnection source
  rw [NetInterface.handleDisconnect, hfind, Option.bind_some]
  cases found with
  | none => exact ⟨s, rfl, h⟩
  | some conn =>
    obtain ⟨s', removed, kept, -⟩ := h.removeConnection conn
    dsimp only
    split_ifs
    · exact ⟨s, rfl, h⟩
    · exact ⟨s, rfl, h⟩
    · exact ⟨s', removed, kept⟩

omit [DecidableEq ν] in
theorem pendingTimeout (h : s.Kept) (pointer : ℕ) : (s.pendingTimeout pointer).Kept := by
  rw [NetInterface.pendingTimeout]
  cases s.mPendingConnections.find? (fun c => c.pointer = pointer) with
  | none => exact h
  | some conn => exact h.removePendingConnection conn

theorem connectionTimeout (h : s.Kept) (pointer : ℕ) :
    ∃ s', s.connectionTimeout pointer = some s' ∧ s'.Kept := by
  rw [NetInterface.connectionTimeout]
  cases s.mConnectionList.find? (fun c => c.pointer = pointer ∧ c.isLocal = false) with
  | none => exact ⟨s, rfl, h⟩
  | some conn =>
    obtain ⟨s', removed, kept, -⟩ := h.removeConnection conn
    exact ⟨s', removed, kept⟩

theorem disconnectPointer (h : s.Kept) (pointer : ℕ) :
    ∃ s', s.disconnectPointer pointer = some s' ∧ s'.Kept := by
  rw [NetInterface.disconnectPointer]
  cases (s.mPendingConnections ++ s.mConnectionList).find? (·.pointer = pointer) with
  | none => exact ⟨s, rfl, h⟩
  | some conn =>
    obtain ⟨s', disconnected, kept, -⟩ := h.disconnect conn
    exact ⟨s', disconnected, kept⟩

theorem connectLocal (h : s.Kept) (nonce serverNonce : ν) :
    ∃ s', s.connectLocal nonce serverNonce = some s' ∧ s'.Kept :=
  h.newObject.addConnection _ (fun c hc => (h.fresh c hc).ne) (Nat.lt_succ_self _)

theorem act (h : s.Kept) (a : Action ν) : ∃ s', s.act a = some s' ∧ s'.Kept := by
  cases a with
  | connect address nonce serverNonce => exact h.addPendingConnection rfl (by simp)
  | connectArranged address possibleAddresses nonce serverNonce isInitiator =>
    exact h.addPendingConnection rfl (by simp)
  | connectLocal nonce serverNonce => exact h.connectLocal nonce serverNonce
  | disconnect pointer => exact h.disconnectPointer pointer
  | connectChallengeResponse source nonce serverNonce acceptable solved =>
    exact ⟨_, rfl, h.handleConnectChallengeResponse source nonce serverNonce acceptable solved⟩
  | puzzleSolved pointer => exact ⟨_, rfl, h.continuePuzzleSolution pointer⟩
  | connectRequest source nonce serverNonce checks =>
    exact h.handleConnectRequest source nonce serverNonce checks
  | connectAccept source nonce serverNonce decrypted accepted =>
    exact h.handleConnectAccept source nonce serverNonce decrypted accepted
  | connectReject source nonce serverNonce retry newNonce =>
    exact ⟨_, rfl, h.handleConnectReject source nonce serverNonce retry newNonce⟩
  | punch source firstNonce nextNonce decrypted keys =>
    exact ⟨_, rfl, h.handlePunch source firstNonce nextNonce decrypted keys⟩
  | arrangedConnectRequest source nonce serverNonce decrypted keys accepted =>
    exact h.handleArrangedConnectRequest source nonce serverNonce decrypted keys accepted
  | disconnectPacket source nonce serverNonce decrypted =>
    exact h.handleDisconnect source nonce serverNonce decrypted
  | pendingTimeout pointer => exact ⟨_, rfl, h.pendingTimeout pointer⟩
  | connectionTimeout pointer => exact h.connectionTimeout pointer

theorem step (h : s.Kept) {a : Action ν} (taken : s.step a = some s') : s'.Kept := by
  obtain ⟨-, taken⟩ := Option.ite_none_left_eq_some.mp taken
  obtain ⟨t, acted, kept⟩ := h.act a
  rw [taken] at acted
  cases acted
  exact kept

theorem of_exec {mAllowConnections : Bool} {as : List (Action ν)}
    (hexec : exec NetInterface.step (start mAllowConnections) as = some s) : s.Kept :=
  (Run.of_exec hexec).invariant (fun _ _ _ hs _ taken => hs.step taken)
    (kept_start mAllowConnections)

omit [DecidableEq ν] in
/-- A pointer is that of one connection only. -/
theorem eq_of_pointer (h : s.Kept) {c d : InterfaceConnection ν}
    (hc : c ∈ s.mConnectionList ++ s.mPendingConnections)
    (hd : d ∈ s.mConnectionList ++ s.mPendingConnections) (heq : c.pointer = d.pointer) : c = d :=
  List.inj_on_of_nodup_map h.pointers hc hd heq

omit [DecidableEq ν] in
/-- A connection is taken off the pending list by its pointer, which is that of no other. -/
theorem erase_pending (h : s.Kept) (pointer : ℕ) :
    s.mPendingConnections.eraseP (fun c => c.pointer = pointer) =
      s.mPendingConnections.filter (fun c => c.pointer ≠ pointer) := by
  have hnodup := h.pointers
  rw [List.map_append] at hnodup
  have hpending := (List.nodup_append.mp hnodup).2.1
  generalize s.mPendingConnections = pending at hpending ⊢
  induction pending with
  | nil => rfl
  | cons c pending ih =>
    rw [List.map_cons, List.nodup_cons] at hpending
    by_cases hc : c.pointer = pointer
    · rw [List.eraseP_cons_of_pos (by simpa using hc), List.filter_cons_of_neg (by simpa using hc),
        List.filter_eq_self.mpr]
      intro d hd
      rw [decide_eq_true_iff]
      rintro heq
      exact hpending.1 (List.mem_map.mpr ⟨d, hd, heq.trans hc.symm⟩)
    · rw [List.eraseP_cons_of_neg (by simpa using hc), List.filter_cons_of_pos (by simpa using hc),
        ih hpending.2]

theorem erase_listed (h : s.Kept) (hconn : conn ∈ s.mConnectionList) :
    s.mConnectionList.erase conn =
      s.mConnectionList.filter (fun c => c.pointer ≠ conn.pointer) := by
  have herase : s.mConnectionList.erase conn = s.mConnectionList.filter (· != conn) :=
    h.tabled.nodup.erase_eq_filter conn
  rw [herase]
  refine List.filter_congr fun c hc => ?_
  have hiff : c = conn ↔ c.pointer = conn.pointer :=
    ⟨congrArg _, h.eq_of_pointer (List.mem_append_left _ hc) (List.mem_append_left _ hconn)⟩
  by_cases heq : c = conn
  · simp [heq]
  · have hne := mt hiff.mpr heq
    simp [heq, hne]

omit [DecidableEq ν] in
/-- The two lists have no connection in common. -/
theorem pointer_ne_listed (h : s.Kept) (hconn : conn ∈ s.mPendingConnections) :
    ∀ c ∈ s.mConnectionList, c.pointer ≠ conn.pointer := by
  intro c hc heq
  obtain rfl := h.eq_of_pointer (List.mem_append_left _ hc) (List.mem_append_right _ hconn) heq
  exact h.waiting c hconn (h.established c hc)

theorem disconnects_pending (h : s.Kept) (hconn : conn ∈ s.mPendingConnections)
    (hstate : conn.mConnectionState = awaitingChallengeResponse ∨
      conn.mConnectionState = awaitingConnectResponse) :
    s.Disconnects conn (s.removePendingConnection conn) := by
  have hany : s.mPendingConnections.any (fun c => c.pointer = conn.pointer) = true :=
    List.any_eq_true.mpr ⟨conn, hconn, decide_eq_true rfl⟩
  have hreleases : s.pendingReleases conn = [conn.pointer] := by
    rw [pendingReleases, hany, if_pos rfl]
  constructor
  · rw [NetInterface.disconnect]
    rcases hstate with hstate | hstate <;> rw [hstate]
  · exact h.pointer_ne hconn
  · exact fun c hc => h.pointer_ne_listed hconn c ((h.tabled.holds c).mp hc)
  · left
    rw [disconnectCallbacks]
    rcases hstate with hstate | hstate <;> rw [hstate]
  · rw [disconnectReleases]
    rcases hstate with hstate | hstate <;> rw [hstate] <;> exact hreleases
  · exact h.erase_pending conn.pointer
  · rw [List.filter_eq_self.mpr]
    · exact List.Perm.refl _
    · exact fun c hc => decide_eq_true (h.pointer_ne_listed hconn c hc)
  · exact fun c _ => Iff.rfl

theorem disconnects_listed (h : s.Kept) (hconn : conn ∈ s.mConnectionList) :
    ∃ t, s.Disconnects conn t := by
  have hstate := h.established conn hconn
  obtain ⟨t, removed, kept, pending, -, perm⟩ := h.removeConnection conn
  rw [h.erase_listed hconn] at perm
  have hmem : ∀ c, c ∈ t.mConnectionList ↔ c ∈ s.mConnectionList ∧ c.pointer ≠ conn.pointer := by
    intro c
    rw [perm.mem_iff, List.mem_filter, decide_eq_true_iff]
  have hpending : ∀ c ∈ s.mPendingConnections, c.pointer ≠ conn.pointer :=
    fun c hc heq => h.pointer_ne_listed hc conn hconn heq.symm
  -- the table has the connection, so that the search for it ends at it
  obtain ⟨q, hq⟩ := (h.tabled.holds conn).mpr hconn
  have hstart := Nat.mod_lt (ConnectionTable.hashOf InterfaceConnection.mNetAddress conn)
    h.tabled.hashed.size_pos
  obtain ⟨n, hn, found, before⟩ := s.connections.mConnectionHashTable.exists_first
    (fun v => v = some conn) hstart (q := q) (decide_eq_true hq)
  have walked : s.connections.mConnectionHashTable.walk (fun v => v = some conn) _ _ = some _ :=
    ProbeTable.walk_eq hstart found before hn
  refine ⟨t, ?_, ?_, ?_, ?_, ?_, ?_, perm, ?_⟩
  · rw [NetInterface.disconnect, hstate]
    exact removed
  · intro c hc
    rcases List.mem_append.mp hc with hc | hc
    · exact ((hmem c).mp hc).2
    · exact hpending c (pending ▸ hc)
  · exact fun c hc => ((hmem c).mp ((kept.tabled.holds c).mp hc)).2
  · right
    rw [disconnectCallbacks, hstate]
  · rw [disconnectReleases, hstate]
    simp only [listReleases, walked]
  · rw [pending]
    exact (List.filter_eq_self.mpr fun c hc => decide_eq_true (hpending c hc)).symm
  · intro c hc
    rw [kept.tabled.holds, h.tabled.holds]
    exact (hmem c).trans (and_iff_left hc)

end Kept

/-- A disconnect works in every state of a connection but two. -/
theorem disconnects_iff {mAllowConnections : Bool} {as : List (Action ν)}
    (hexec : exec step (start mAllowConnections) as = some s)
    (hconn : conn ∈ s.mPendingConnections ++ s.mConnectionList) :
    (∃ t, s.Disconnects conn t) ↔ conn.mConnectionState ≠ sendingPunchPackets ∧
      conn.mConnectionState ≠ computingPuzzleSolution := by
  have h := Kept.of_exec hexec
  constructor
  · rintro ⟨t, ht⟩
    constructor
    all_goals
      intro hstate
      have hreleased := ht.released
      rw [disconnectReleases, hstate] at hreleased
      cases hreleased
  · rintro ⟨hpunch, hpuzzle⟩
    rcases List.mem_append.mp hconn with hpending | hlisted
    · refine ⟨_, h.disconnects_pending hpending ?_⟩
      have hwaiting := h.waiting conn hpending
      cases hstate : conn.mConnectionState with
      | sendingPunchPackets => exact absurd hstate hpunch
      | awaitingChallengeResponse => exact .inl rfl
      | computingPuzzleSolution => exact absurd hstate hpuzzle
      | awaitingConnectResponse => exact .inr rfl
      | connected => exact absurd hstate hwaiting
    · exact h.disconnects_listed hlisted

/-- A connection to a peer that has been asked for. -/
def asked : InterfaceConnection ℕ := ⟨0, peer, false, awaitingChallengeResponse, 1, 0, true, [], false⟩

theorem disconnects_iff_asked : ∃ s : NetInterface ℕ,
    exec step (start true) [.connect peer 1 0] = some s ∧ ∃ t, s.Disconnects asked t := by
  have hasked : (exec step (start true : NetInterface ℕ) [.connect peer 1 0]).map
      (fun s => s.mPendingConnections) = some [asked] := by
    decide +kernel
  obtain ⟨s, hexec, hs⟩ := Option.map_eq_some_iff.mp hasked
  have hconn : asked ∈ s.mPendingConnections ++ s.mConnectionList := by
    rw [hs]
    exact List.mem_cons_self
  exact ⟨s, hexec, (disconnects_iff hexec hconn).mpr ⟨by decide, by decide⟩⟩

/-- An arranged connection that still sends punch packets. -/
def punching : InterfaceConnection ℕ := ⟨0, .unset, false, sendingPunchPackets, 1, 2, true, [peer], false⟩

/-- It stays in the pending list. -/
theorem punching_kept : ¬ ∀ (mAllowConnections : Bool) (as : List (Action ℕ)) (s : NetInterface ℕ)
    (conn : InterfaceConnection ℕ), exec step (start mAllowConnections) as = some s →
    conn ∈ s.mPendingConnections ++ s.mConnectionList → ∃ t, s.Disconnects conn t := by
  intro hclaim
  have harranged : (exec step (start true : NetInterface ℕ)
      [.connectArranged .unset [peer] 1 2 true]).map (fun s => s.mPendingConnections) =
      some [punching] := by
    decide +kernel
  obtain ⟨s, hexec, hs⟩ := Option.map_eq_some_iff.mp harranged
  have hconn : punching ∈ s.mPendingConnections ++ s.mConnectionList := by
    rw [hs]
    exact List.mem_cons_self
  obtain ⟨t, ht⟩ := hclaim true _ s punching hexec hconn
  have hdone : some s = some t := ht.done
  obtain rfl := Option.some.inj hdone
  exact ht.unlisted punching (List.mem_append_right _ (hs ▸ List.mem_cons_self)) rfl

end NetInterface

end TNL
