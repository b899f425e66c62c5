import Mathlib.Data.List.Perm.Basic
import Mathlib.Logic.Function.Basic
import TNL.Connection.Header
import TNL.Library.Run

/-!
# The arranged connections of the Go master server

One list holds all requests for a connection to another client, and an answer is
looked up in it by the id that it carries. Handlers run one after another under
the mutex of the server. A handler that dereferences a nil address ends the
program, which is a step that does not exist. The strikes of `checkActivityTime`
only start a disconnection, and a disconnection may come at any time here.
-/
namespace TNL.GoRoot
open Library

structure Address where
  host : List UInt8
  port : BitVec 16
  deriving DecidableEq

/-- A connection is a pointer, and its address never changes. -/
structure MasterServerConnection where
  pointer : ℕ
  address : Address
  deriving DecidableEq

structure GameConnectRequest where
  initiator : MasterServerConnection
  host : MasterServerConnection
  initiatorQueryID : U32
  hostQueryID : U32
  requestTime : U32
  deriving DecidableEq

/-- The packets about arranged connections. -/
inductive Message where
  | clientRequestedArrangedConnection (requestID : U32) (possibleAddresses : List Address)
      (connectionParams : List UInt8)
  | arrangedConnectionAccepted (requestID : U32) (possibleAddresses : List Address)
      (connectionData : List UInt8)
  | arrangedConnectionRejected (requestID : U32) (rejectData : List UInt8)
  deriving DecidableEq

structure MasterServer where
  connections : Address → Option MasterServerConnection
  connectRequests : List GameConnectRequest
  nextQueryID : U32

namespace MasterServer

def connectRequestTimeout : U32 := 30000

def masterNoSuchHost : List UInt8 := "No Such Host".toList.map Char.toUInt8

/-- The data are not copied into the buffer. -/
def newByteBufferFromData (data : List UInt8) : List UInt8 := List.replicate data.length 0

def start : MasterServer := ⟨fun _ => none, [], 1⟩

/-- An address from outside that the server may be reached at. -/
def possibleAddresses (addr internalAddr : Address) : List Address :=
  let addresses := [{ addr with port := addr.port + 1 }, addr]
  if internalAddr = addr then addresses else addresses ++ [internalAddr]

def getNextQueryID (s : MasterServer) : U32 × MasterServer :=
  (s.nextQueryID, { s with nextQueryID := s.nextQueryID + 1 })

/-- Addresses that the packet does not give as text are nil. -/
def handleRequestArrangedConnection (s : MasterServer) (conn : MasterServerConnection)
    (requestID : U32) (remoteAddr internalAddr : Option Address) (connectionParams : List UInt8)
    (currentTime : U32) : Option (MasterServer × List (MasterServerConnection × Message)) := do
  let remoteAddr ← remoteAddr
  match s.connections remoteAddr with
  | none =>
    let rejectData := newByteBufferFromData masterNoSuchHost
    return (s, [(conn, .arrangedConnectionRejected requestID rejectData)])
  | some hostConn =>
    let (hostQueryID, s) := s.getNextQueryID
    let req : GameConnectRequest := ⟨conn, hostConn, requestID, hostQueryID, currentTime⟩
    let s := { s with connectRequests := s.connectRequests ++ [req] }
    let internalAddr ← internalAddr
    return (s, [(hostConn, .clientRequestedArrangedConnection req.hostQueryID
      (possibleAddresses conn.address internalAddr) connectionParams)])

def findAndRemoveRequest (s : MasterServer) (requestID : U32) :
    Option GameConnectRequest × MasterServer :=
  (s.connectRequests.find? (·.hostQueryID = requestID),
    { s with connectRequests := s.connectRequests.eraseP (·.hostQueryID = requestID) })

def handleAcceptArrangedConnection (s : MasterServer) (conn : MasterServerConnection)
    (requestID : U32) (internalAddr : Option Address) (connectionData : List UInt8) :
    Option (MasterServer × List (MasterServerConnection × Message)) := do
  match s.findAndRemoveRequest requestID with
  | (none, s) => return (s, [])
  | (some req, s) =>
    let internalAddr ← internalAddr
    return (s, [(req.initiator, .arrangedConnectionAccepted req.initiatorQueryID
      (possibleAddresses conn.address internalAddr) connectionData)])

def handleRejectArrangedConnection (s : MasterServer) (requestID : U32) (rejectData : List UInt8) :
    MasterServer × List (MasterServerConnection × Message) :=
  match s.findAndRemoveRequest requestID with
  | (none, s) => (s, [])
  | (some req, s) =>
    (s, [(req.initiator, .arrangedConnectionRejected req.initiatorQueryID rejectData)])

/-- From the last request to the first. -/
def cleanup (s : MasterServer) (currentTime : U32) : MasterServer :=
  { s with connectRequests := s.connectRequests.foldr (fun req rest =>
      if currentTime - req.requestTime > connectRequestTimeout then rest else req :: rest) [] }

/-- Nothing happens if the address is taken. -/
def handleConnectionRequest (s : MasterServer) (conn : MasterServerConnection) : MasterServer :=
  if (s.connections conn.address).isSome then s
  else { s with connections := Function.update s.connections conn.address (some conn) }

def disconnect (s : MasterServer) (conn : MasterServerConnection) : MasterServer :=
  { s with connections := Function.update s.connections conn.address none }

inductive Action where
  | connect (conn : MasterServerConnection)
  | disconnect (conn : MasterServerConnection)
  | request (conn : MasterServerConnection) (requestID : U32)
      (remoteAddr internalAddr : Option Address) (connectionParams : List UInt8) (currentTime : U32)
  | accept (conn : MasterServerConnection) (requestID : U32) (internalAddr : Option Address)
      (connectionData : List UInt8)
  | reject (conn : MasterServerConnection) (requestID : U32) (rejectData : List UInt8)
  | cleanup (currentTime : U32)

/-- A step, with the packets sent. Messages come from any connection, also from one that has just
been disconnected. -/
def act (s : MasterServer) : Action → Option (MasterServer × List (MasterServerConnection × Message))
  | .connect conn => some (s.handleConnectionRequest conn, [])
  | .disconnect conn => some (s.disconnect conn, [])
  | .request conn requestID remoteAddr internalAddr connectionParams currentTime =>
    s.handleRequestArrangedConnection conn requestID remoteAddr internalAddr connectionParams
      currentTime
  | .accept conn requestID internalAddr connectionData =>
    s.handleAcceptArrangedConnection conn requestID internalAddr connectionData
  | .reject _ requestID rejectData => some (s.handleRejectArrangedConnection requestID rejectData)
  | .cleanup currentTime => some (s.cleanup currentTime, [])

def step (s : MasterServer) (a : Action) : Option MasterServer := (s.act a).map Prod.fst

end MasterServer

end TNL.GoRoot
