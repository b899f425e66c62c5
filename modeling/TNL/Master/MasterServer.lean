import Mathlib.Data.List.Count
import Mathlib.Logic.Function.Basic
import TNL.Connection.Header
import TNL.Library.EraseFast
import TNL.Library.Run

/-!
# Arranged connections on the master server

A client asks the master for a connection to another client. The request is put
into the lists of both and into a global one, and the other client accepts or
rejects it under an id that the master told it. Connections and requests are
objects with a pointer, a request keeps safe pointers to the two connections, and
an object that was freed cannot be used: a step that would do so is undefined.
-/
namespace TNL

structure IPAddress where
  netNum : BitVec 32
  port : BitVec 16
  deriving DecidableEq

/-- The safe pointers are null when their connection is gone. -/
structure GameConnectRequest (κ : Type) where
  initiator : Option κ
  host : Option κ
  initiatorQueryId : U32
  hostQueryId : U32
  requestTime : U32
  deriving DecidableEq

/-- `connected` tells whether the interface still has the connection in its list. -/
structure MasterServerConnection where
  mNetAddress : IPAddress
  connected : Bool
  mStrikeCount : U32
  mLastQueryId : U32
  mLastActivityTime : U32
  mConnectList : List ℕ
  deriving DecidableEq

/-- What the master sends about arranged connections. -/
inductive MasterRPC where
  | m2cClientRequestedArrangedConnection (requestId : U32) (possibleAddresses : List IPAddress)
      (connectionParameters : List UInt8)
  | m2cArrangedConnectionAccepted (requestId : U32) (possibleAddresses : List IPAddress)
      (connectionData : List UInt8)
  | m2cArrangedConnectionRejected (requestId : U32) (rejectData : List UInt8)
  | c2mRejectArrangedConnection (requestId : U32) (rejectData : List UInt8)
  deriving DecidableEq

structure MasterServer (κ : Type) where
  connections : κ → Option MasterServerConnection
  requests : ℕ → Option (GameConnectRequest κ)
  gConnectList : List ℕ

namespace MasterServer

variable {κ : Type} [DecidableEq κ]

/-- With the zero at its end. -/
def MasterNoSuchHost : List UInt8 := "No Such Host".toList.map Char.toUInt8 ++ [0]

def start : MasterServer κ := ⟨fun _ => none, fun _ => none, []⟩

def setConnection (s : MasterServer κ) (c : κ) (conn : MasterServerConnection) : MasterServer κ :=
  { s with connections := Function.update s.connections c (some conn) }

/-- The loop of `removeConnectRequest`, which other lists are searched with too. -/
def removeFrom (list : List ℕ) (gcr : ℕ) : List ℕ :=
  if gcr ∈ list then eraseFast list (list.idxOf gcr) else list

def removeConnectRequest (s : MasterServer κ) (c : κ) (gcr : ℕ) : Option (MasterServer κ) :=
  (s.connections c).map (fun conn =>
    s.setConnection c { conn with mConnectList := removeFrom conn.mConnectList gcr })

/-- Where the first request with an id is in a list, with the request. -/
def findRequest (s : MasterServer κ) (requestId : U32) : List ℕ → Option (Option (ℕ × ℕ))
  | [] => some none
  | p :: list =>
    (s.requests p).bind (fun req =>
      if req.hostQueryId = requestId then some (some (0, p))
      else (s.findRequest requestId list).map (·.map (Prod.map (· + 1) id)))

/-- Out of the list of the initiator, if it is still there. -/
def removeFromInitiator (s : MasterServer κ) (req : GameConnectRequest κ) (gcr : ℕ) :
    Option (MasterServer κ) :=
  match req.initiator with
  | none => some s
  | some initiator => s.removeConnectRequest initiator gcr

/-- The request is out of the lists but not yet deleted. -/
def findAndRemoveRequest (s : MasterServer κ) (c : κ) (requestId : U32) :
    Option (MasterServer κ × Option ℕ) := do
  let conn ← s.connections c
  match ← s.findRequest requestId conn.mConnectList with
  | none => return (s, none)
  | some (j, gcr) =>
    let s := s.setConnection c { conn with mConnectList := eraseFast conn.mConnectList j }
    let req ← s.requests gcr
    let s ← s.removeFromInitiator req gcr
    return ({ s with gConnectList := removeFrom s.gConnectList gcr }, some gcr)

def deleteRequest (s : MasterServer κ) (gcr : ℕ) : MasterServer κ :=
  { s with requests := Function.update s.requests gcr none }

/-- The connection leaves the list of the interface. The object stays as long as it is in use. -/
def disconnect (s : MasterServer κ) (c : κ) : Option (MasterServer κ) :=
  (s.connections c).map (fun conn => s.setConnection c { conn with connected := false })

def checkActivityTime (s : MasterServer κ) (c : κ) (timeDeltaMinimum currentTime : U32) :
    Option (MasterServer κ) :=
  (s.connections c).bind (fun conn =>
    if currentTime - conn.mLastActivityTime < timeDeltaMinimum then
      let s := s.setConnection c { conn with mStrikeCount := conn.mStrikeCount + 1 }
      if conn.mStrikeCount + 1 = 3 then s.disconnect c else some s
    else if conn.mStrikeCount > 0 then
      some (s.setConnection c { conn with mStrikeCount := conn.mStrikeCount - 1 })
    else some s)

/-- Where a connection may be reached from outside: behind a neighbouring port, at its address, or
at the address that it thinks it has. -/
def possibleAddresses (theAddress internalAddress : IPAddress) : List IPAddress :=
  let addresses := [{ theAddress with port := theAddress.port + 1 }, theAddress]
  if internalAddress.netNum ≠ 0 ∧ internalAddress ≠ theAddress then addresses ++ [internalAddress]
  else addresses

/-- `host` is what `findConnection` finds at the remote address, and `gcr` the memory for the new
request. -/
def c2mRequestArrangedConnection (s : MasterServer κ) (c : κ) (requestId : U32) (host : Option κ)
    (internalAddress : IPAddress) (connectionParameters : List UInt8) (gcr : ℕ)
    (currentTime : U32) : Option (MasterServer κ × List (κ × MasterRPC)) :=
  match host with
  | none => some (s, [(c, .c2mRejectArrangedConnection requestId MasterNoSuchHost)])
  | some host => do
    let conn ← s.connections c
    let req : GameConnectRequest κ :=
      ⟨some c, some host, requestId, conn.mLastQueryId, currentTime⟩
    let s := { s with requests := Function.update s.requests gcr (some req) }
    let s := s.setConnection c { conn with
      mLastQueryId := conn.mLastQueryId + 1
      mConnectList := conn.mConnectList ++ [gcr] }
    let hostConn ← s.connections host
    let s := s.setConnection host { hostConn with mConnectList := hostConn.mConnectList ++ [gcr] }
    let s := { s with gConnectList := s.gConnectList ++ [gcr] }
    let s ← s.checkActivityTime c 2000 currentTime
    return (s, [(host, .m2cClientRequestedArrangedConnection req.hostQueryId
      (possibleAddresses conn.mNetAddress internalAddress) connectionParameters)])

/-- Tell the initiator, if it is still there. -/
def notifyInitiator (req : GameConnectRequest κ) (rpc : U32 → MasterRPC) : List (κ × MasterRPC) :=
  match req.initiator with
  | none => []
  | some initiator => [(initiator, rpc req.initiatorQueryId)]

/-- What accepting and rejecting have in common. -/
def answerRequest (s : MasterServer κ) (c : κ) (requestId : U32) (rpc : U32 → MasterRPC) :
    Option (MasterServer κ × List (κ × MasterRPC)) := do
  match ← s.findAndRemoveRequest c requestId with
  | (s, none) => return (s, [])
  | (s, some gcr) =>
    let req ← s.requests gcr
    return (s.deleteRequest gcr, notifyInitiator req rpc)

def c2mAcceptArrangedConnection (s : MasterServer κ) (c : κ) (requestId : U32)
    (internalAddress : IPAddress) (connectionData : List UInt8) :
    Option (MasterServer κ × List (κ × MasterRPC)) :=
  (s.connections c).bind (fun conn =>
    s.answerRequest c requestId (fun initiatorQueryId => .m2cArrangedConnectionAccepted
      initiatorQueryId (possibleAddresses conn.mNetAddress internalAddress) connectionData))

def c2mRejectArrangedConnection (s : MasterServer κ) (c : κ) (requestId : U32)
    (rejectData : List UInt8) : Option (MasterServer κ × List (κ × MasterRPC)) :=
  s.answerRequest c requestId
    (fun initiatorQueryId => .m2cArrangedConnectionRejected initiatorQueryId rejectData)

/-- A new connection object, whose last query id is whatever its memory held. -/
def connect (s : MasterServer κ) (c : κ) (address : IPAddress) (mLastQueryId : U32) :
    MasterServer κ :=
  s.setConnection c ⟨address, true, 0, mLastQueryId, 0, []⟩

/-- The destructor of a connection. All safe pointers to it become null. -/
def destroy (s : MasterServer κ) (c : κ) : MasterServer κ :=
  let unset (pointer : Option κ) := if pointer = some c then none else pointer
  { s with
    connections := Function.update s.connections c none
    requests := fun p => (s.requests p).map (fun req =>
      { req with initiator := unset req.initiator, host := unset req.host }) }

inductive Action (κ : Type) where
  | connect (c : κ) (address : IPAddress) (mLastQueryId : U32)
  | request (c : κ) (requestId : U32) (host : Option κ) (internalAddress : IPAddress)
      (connectionParameters : List UInt8) (gcr : ℕ) (currentTime : U32)
  | accept (c : κ) (requestId : U32) (internalAddress : IPAddress) (connectionData : List UInt8)
  | reject (c : κ) (requestId : U32) (rejectData : List UInt8)
  | disconnect (c : κ)
  | destroy (c : κ)

/-- An action, with what is sent during it. Memory for a new object is free, `findConnection` finds
connections of the list, and an object is destroyed when it is no longer in the list. -/
def act (s : MasterServer κ) : Action κ → Option (MasterServer κ × List (κ × MasterRPC))
  | .connect c address mLastQueryId =>
    if (s.connections c).isNone then some (s.connect c address mLastQueryId, []) else none
  | .request c requestId host internalAddress connectionParameters gcr currentTime =>
    if (s.requests gcr).isNone ∧ ∀ h ∈ host, (s.connections h).any (·.connected) then
      s.c2mRequestArrangedConnection c requestId host internalAddress connectionParameters gcr
        currentTime
    else none
  | .accept c requestId internalAddress connectionData =>
    s.c2mAcceptArrangedConnection c requestId internalAddress connectionData
  | .reject c requestId rejectData => s.c2mRejectArrangedConnection c requestId rejectData
  | .disconnect c => (s.disconnect c).map (·, [])
  | .destroy c =>
    if (s.connections c).any (!·.connected) then some (s.destroy c, []) else none

def step (s : MasterServer κ) (a : Action κ) : Option (MasterServer κ) := (s.act a).map Prod.fst

end MasterServer

end TNL
