import Mathlib.Data.List.AList
import TNL.Go.BitStream

/-!
# The ghost connection of the Go port

The server writes a record for every object in scope that has something to
update, the first one with the type of the object. The client creates the ghost
from that record and looks it up for the later ones.
-/
namespace TNL.Go

/-- The types of objects: the ids under which the server has registered them, what the client
creates for an id, and what an object writes of an update and reads of one. -/
structure ObjectTypes (ω τ : Type) where
  typeOf : ω → τ
  getNetID : ω → U32
  getObjectFactoryID : τ → Option ℕ
  createObject : ℕ → Option ω
  packUpdate : ω → U32 → BitWriter × U32
  unpackUpdate : ω → BitReader → ω × BitReader
  typeOf_unpackUpdate : ∀ obj bs, typeOf (unpackUpdate obj bs).1 = typeOf obj

structure GhostInfo (ω : Type) where
  obj : ω
  ghostID : ℕ
  mask : U32
  isNew : Bool

structure GhostUpdateNote where
  ghostID : ℕ
  mask : U32

/-- The finite maps have the net id, the ghost id and the packet sequence as keys. -/
structure GhostConnection (ω : Type) where
  ghostsToClient : AList (fun _ : U32 => GhostInfo ω)
  ghostsFromRemote : AList (fun _ : ℕ => ω)
  nextGhostID : ℕ
  sentGhostUpdates : AList (fun _ : U32 => List GhostUpdateNote)

/-- What the client made of a record: the ghost that read it, if there is one, and the bits that
were read. -/
structure ReadRecord (ω : Type) where
  ghostID : ℕ
  isNew : Bool
  ghost : Option ω
  bits : List Bool

namespace GhostConnection

variable {ω τ : Type} (R : ObjectTypes ω τ)

def newGhostConnection : GhostConnection ω := ⟨∅, ∅, 1, ∅⟩

def onGhostPacketReceived (gc : GhostConnection ω) (sequence : U32) : GhostConnection ω :=
  { gc with sentGhostUpdates := gc.sentGhostUpdates.erase sequence }

/-- Mark an update as not sent. Of several ghosts with the id it is the first one found. -/
def restore (ghosts : AList (fun _ : U32 => GhostInfo ω)) (up : GhostUpdateNote) :
    AList (fun _ : U32 => GhostInfo ω) :=
  match ghosts.entries.find? (fun entry => entry.2.ghostID = up.ghostID) with
  | none => ghosts
  | some ⟨id, gi⟩ => ghosts.insert id { gi with mask := gi.mask ||| up.mask }

def onGhostPacketDropped (gc : GhostConnection ω) (sequence : U32) : GhostConnection ω :=
  match gc.sentGhostUpdates.lookup sequence with
  | none => gc
  | some updates => { gc with
      ghostsToClient := updates.foldl restore gc.ghostsToClient
      sentGhostUpdates := gc.sentGhostUpdates.erase sequence }

def objectInScope (gc : GhostConnection ω) (obj : ω) : GhostConnection ω :=
  match gc.ghostsToClient.lookup (R.getNetID obj) with
  | some _ => gc
  | none => { gc with
      ghostsToClient := gc.ghostsToClient.insert (R.getNetID obj) ⟨obj, gc.nextGhostID, -1, true⟩
      nextGhostID := gc.nextGhostID % 1024 + 1 }

/-- Write a record behind its flag. -/
def writeGhost (bs : BitWriter) (gi : GhostInfo ω) :
    BitWriter × Option GhostUpdateNote × GhostInfo ω :=
  let bs := (bs.writeFlag true).writeRangedUint32 gi.ghostID 0 1024
  let bs := bs.writeFlag gi.isNew
  let bs := if gi.isNew then
    match R.getObjectFactoryID (R.typeOf gi.obj) with
    | some typeID => bs.writeRangedUint32 typeID 0 1024
    | none => bs
  else bs
  let (packed, remainingMask) := R.packUpdate gi.obj gi.mask
  let sentMask := gi.mask &&& ~~~remainingMask
  (bs ++ packed, if sentMask ≠ 0 then some ⟨gi.ghostID, sentMask⟩ else none,
    { gi with isNew := false, mask := remainingMask })

/-- Write the records of the objects in an order. -/
def writeLoop : List U32 → AList (fun _ : U32 => GhostInfo ω) → BitWriter →
    AList (fun _ : U32 => GhostInfo ω) × BitWriter × List GhostUpdateNote
  | [], ghosts, bs => (ghosts, bs, [])
  | id :: order, ghosts, bs =>
    match ghosts.lookup id with
    | none => writeLoop order ghosts bs
    | some gi =>
      if gi.mask = 0 then writeLoop order ghosts bs
      else
        let (bs, note, gi) := writeGhost R bs gi
        let (ghosts, bs, sent) := writeLoop order (ghosts.insert id gi) bs
        (ghosts, bs, note.toList ++ sent)

/-- `order` is the one that the priorities give. -/
def writeGhosts (gc : GhostConnection ω) (order : List U32) (bs : BitWriter) (packetSeq : U32) :
    GhostConnection ω × BitWriter :=
  let (ghosts, bs, sent) := writeLoop R order gc.ghostsToClient bs
  let sentGhostUpdates :=
    if sent = [] then gc.sentGhostUpdates else gc.sentGhostUpdates.insert packetSeq sent
  ({ gc with ghostsToClient := ghosts, sentGhostUpdates := sentGhostUpdates }, bs.writeFlag false)

/-- The ghost of a record: a new one, or one that was created before. -/
def findGhost (ghosts : AList (fun _ : ℕ => ω)) (ghostID : ℕ) (isNew : Bool) (bs : BitReader) :
    Option ω × BitReader :=
  if isNew then
    let (typeID, bs) := bs.readRangedUint32 0 1024
    (R.createObject typeID, bs)
  else (ghosts.lookup ghostID, bs)

/-- Read a record behind its flag. Without a ghost the rest of it is left where it is. -/
def readGhost (ghosts : AList (fun _ : ℕ => ω)) (bs : BitReader) :
    AList (fun _ : ℕ => ω) × ReadRecord ω × BitReader :=
  let (ghostID, after) := bs.readRangedUint32 0 1024
  let (isNew, after) := after.readFlag
  let (ghost, after) := findGhost R ghosts ghostID isNew after
  match ghost with
  | none => (ghosts, ⟨ghostID, isNew, none,
      bs.rest.take (bs.rest.length - after.rest.length)⟩, after)
  | some obj =>
    let (obj, after) := R.unpackUpdate obj after
    (ghosts.insert ghostID obj, ⟨ghostID, isNew, some obj,
      bs.rest.take (bs.rest.length - after.rest.length)⟩, after)

/-- Read records until a flag is not set. Every record takes at least its flag. -/
def readLoop : ℕ → AList (fun _ : ℕ => ω) → BitReader →
    AList (fun _ : ℕ => ω) × List (ReadRecord ω) × BitReader
  | 0, ghosts, bs => (ghosts, [], bs)
  | fuel + 1, ghosts, bs =>
    let (more, bs) := bs.readFlag
    if more then
      let (ghosts, record, bs) := readGhost R ghosts bs
      let (ghosts, records, bs) := readLoop fuel ghosts bs
      (ghosts, record :: records, bs)
    else (ghosts, [], bs)

def readGhosts (gc : GhostConnection ω) (bs : BitReader) :
    GhostConnection ω × List (ReadRecord ω) × BitReader :=
  let (ghosts, records, bs) := readLoop R (bs.rest.length + 1) gc.ghostsFromRemote bs
  ({ gc with ghostsFromRemote := ghosts }, records, bs)

end GhostConnection

end TNL.Go
