import TNL.Connection.Header
import TNL.Ghost.GhostConnection
import TNL.Library.OrderedChannel
import TNL.Library.Run

/-!
# A ghosting server and its client

Both ends of a ghost connection. The server's ghosting RPCs and the client's
answers are guaranteed ordered. Packets may be lost, delayed and duplicated; each
end processes them in the order of sending, first the notifications their headers
hold, then the object RPCs and the ghosting RPCs, and last the ghost records. A
header tells what has become of all packets up to the last one processed. What
is resent is up to the event manager, so a packet carries any RPCs posted before.
-/
namespace TNL
open Library

/-- The RPCs by which the server opens and closes a ghosting session. -/
inductive GhostingRPC where
  | rpcStartGhosting (sequence : U32)
  | rpcEndGhosting
  deriving DecidableEq

/-- A ghost on the client, with the server object it was created for and the session of the packet
that created it, which the client does not know. -/
structure LocalGhost where
  object : Option ℕ
  session : U32
  deriving DecidableEq

/-- A `NetObjectRPCEvent` in a packet: the server object it is about and the ghost index packed for
it. -/
structure ObjectRPC where
  object : Option ℕ
  ghostIndex : Option ℕ
  deriving DecidableEq

structure ServerPacket where
  session : U32
  sendSize : ℕ
  records : List GhostRecord
  rpcs : List ObjectRPC

/-- `acks` tells for each packet of the server whether it was processed. How many RPCs of the server
had been processed is not transmitted. -/
structure ClientPacket where
  acks : List Bool
  rpcs : List ObjectRPC
  processed : ℕ

/-- Both ends, all packets, what became of the server's packets, and the object RPCs unpacked so far
with the server object of what each was resolved to. -/
structure GhostLink where
  server : GhostServer
  mGhostingSequence : U32
  mLocalGhosts : ℕ → Option LocalGhost
  toClient : Channel GhostingRPC ServerPacket
  toServer : Channel U32 ClientPacket
  fates : List Bool
  unpacked : List (ObjectRPC × Option ℕ)

namespace GhostServer

/-- The index of an object's ghost, if the client has it. -/
def getGhostIndex (traits : ObjectTraits) (s : GhostServer) (obj : ℕ) : Option ℕ :=
  ((s.mGhostLookupTable (bucket traits obj)).find? fun gptr =>
    s.obj gptr = some obj && !((s.flags gptr).killingGhost || (s.flags gptr).ghosting ||
      (s.flags gptr).notYetGhosted || (s.flags gptr).killGhost)).map Fin.val

def resolveGhostParent (s : GhostServer) (id : ℕ) : Option ℕ :=
  s.obj (GhostArray.new.mGhostArray id)

/-- What was written for the references of a packet, in the order of writing. -/
def records (s : GhostServer) (note : GhostPacket) : List GhostRecord :=
  note.ghostList.reverse.map fun upd => (s.refs upd).record

/-- Notifications in the order of sending. -/
def notify : List Bool → GhostServer → Option GhostServer
  | [], s => some s
  | true :: rest, s => s.packetReceived.bind (notify rest)
  | false :: rest, s => s.packetDropped.bind (notify rest)

/-- The operations the program calls between packets. -/
def Action.isCall : Action → Bool
  | .setMaskBits .. | .clearMaskBits .. | .collapseDirtyList | .destroy _ | .objectInScope _
  | .objectLocalScopeAlways _ | .objectLocalClearAlways _ | .prepareWritePacket => true
  | _ => false

end GhostServer

namespace GhostLink

/-- Before the first `activateGhosting`, with the objects that exist. -/
def start (alive : ℕ → Bool) : GhostLink where
  server := { GhostServer.new alive with mScoping := false }
  mGhostingSequence := 0
  mLocalGhosts _ := none
  toClient := .empty
  toServer := .empty
  fates := []
  unpacked := []

def activateGhosting (l : GhostLink) : GhostLink :=
  { l with
    server := l.server.activateGhosting
    mGhostingSequence := l.mGhostingSequence + 1
    toClient := l.toClient.post (.rpcStartGhosting (l.mGhostingSequence + 1)) }

def resetGhosting (traits : ObjectTraits) (l : GhostLink) : GhostLink :=
  { l with
    server := l.server.resetGhosting traits
    mGhostingSequence := l.mGhostingSequence + 1
    toClient := l.toClient.post .rpcEndGhosting }

/-- The client carries out an RPC of the server; it answers `rpcStartGhosting` with
`rpcReadyForNormalGhosts`. -/
def process (l : GhostLink) : GhostingRPC → GhostLink
  | .rpcStartGhosting sequence => { l with toServer := l.toServer.post sequence }
  | .rpcEndGhosting => { l with mLocalGhosts := fun _ => none }

def rpcReadyForNormalGhosts (l : GhostLink) (sequence : U32) : GhostLink :=
  if sequence ≠ l.mGhostingSequence then l
  else { l with server := { l.server with mGhosting := true } }

/-- The server object whose ghost the client has at an index. -/
def resolveGhost (l : GhostLink) (id : ℕ) : Option ℕ := (l.mLocalGhosts id).bind LocalGhost.object

/-- The index is read with as many bits as the packet says. -/
def readRecord (session : U32) (idSize : ℕ) (mLocalGhosts : ℕ → Option LocalGhost)
    (r : GhostRecord) : ℕ → Option LocalGhost :=
  let index := r.index % 2 ^ idSize
  if r.killGhost then Function.update mLocalGhosts index none
  else match mLocalGhosts index with
    | none => Function.update mLocalGhosts index (some ⟨r.object, session⟩)
    | some _ => mLocalGhosts

/-- What is noted when object RPCs are unpacked. -/
def unpack (resolve : ℕ → Option ℕ) (rpcs : List ObjectRPC) : List (ObjectRPC × Option ℕ) :=
  rpcs.map fun rpc => (rpc, rpc.ghostIndex.bind resolve)

inductive Action where
  | call (a : GhostServer.Action)
  | activateGhosting
  | resetGhosting
  | writePacket (scopeValid : Bool) (order : List Ghost) (leftOver : List Mask)
      (carried objects : List ℕ)
  | clientWritePacket (carried ghosts : List ℕ)
  | deliverToClient (index : ℕ)
  | deliverToServer (index : ℕ)

def writePacket (traits : ObjectTraits) (l : GhostLink) (scopeValid : Bool) (order : List Ghost)
    (leftOver : List Mask) (carried objects : List ℕ) : Option GhostLink :=
  match l.server.writePacket traits scopeValid order leftOver with
  | none => none
  | some s => match s.notifyQueue.getLast? with
    | none => none
    | some note => (l.toClient.write carried
        { session := l.mGhostingSequence
          sendSize := note.sendSize
          records := s.records note
          rpcs := objects.map fun obj => ⟨some obj, l.server.getGhostIndex traits obj⟩ }).map
        fun c => { l with server := s, toClient := c }

def clientWritePacket (l : GhostLink) (carried ghosts : List ℕ) : Option GhostLink :=
  (l.toServer.write carried
    { acks := l.fates
      rpcs := ghosts.map fun id =>
        ⟨l.resolveGhost id, if (l.mLocalGhosts id).isSome then some id else none⟩
      processed := l.toClient.processed }).map
    fun c => { l with toServer := c }

/-- The packets skipped will not be processed any more. -/
def deliverToClient (l : GhostLink) (index : ℕ) : GhostLink :=
  match l.toClient.deliverable index with
  | none => l
  | some p =>
    let l' := (l.toClient.messages index p).foldl process { l with
      toClient := l.toClient.accept index p
      fates := l.fates ++ List.replicate (index - l.toClient.expected) false ++ [true]
      unpacked := l.unpacked ++ unpack l.resolveGhost p.payload.rpcs }
    { l' with
      mLocalGhosts := p.payload.records.foldl (readRecord p.payload.session p.payload.sendSize)
        l'.mLocalGhosts }

/-- The number of packets the server has been notified of. -/
def notified (l : GhostLink) : ℕ := l.toClient.packets.length - l.server.notifyQueue.length

def deliverToServer (l : GhostLink) (index : ℕ) : Option GhostLink :=
  match l.toServer.deliverable index with
  | none => some l
  | some p => (GhostServer.notify (p.payload.acks.drop l.notified) l.server).map fun s =>
    (l.toServer.messages index p).foldl rpcReadyForNormalGhosts { l with
      server := s
      toServer := l.toServer.accept index p
      unpacked := l.unpacked ++ unpack s.resolveGhostParent p.payload.rpcs }

def step (traits : ObjectTraits) (l : GhostLink) : Action → Option GhostLink
  | .call a =>
    if a.isCall then (l.server.step traits a).map fun s => { l with server := s } else none
  | .activateGhosting => some l.activateGhosting
  | .resetGhosting => some (l.resetGhosting traits)
  | .writePacket scopeValid order leftOver carried objects =>
    l.writePacket traits scopeValid order leftOver carried objects
  | .clientWritePacket carried ghosts => l.clientWritePacket carried ghosts
  | .deliverToClient index => some (l.deliverToClient index)
  | .deliverToServer index => l.deliverToServer index

end GhostLink

end TNL
