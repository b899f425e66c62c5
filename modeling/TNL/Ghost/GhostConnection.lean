import TNL.Ghost.GhostArray
import Mathlib.Data.List.FinRange

/-!
# Ghost connections

The server side of a `GhostConnection` with the objects of the program: the
records of the ghosts, the references kept for each packet in flight, and the
mask bits of the objects. The fields of the ghost records are functions of the
record's index, linked lists are lists, and a reference is named by a number
that is never used again. The list of an object's ghosts is the part of it that
belongs to this connection. Priorities, packet sizes and what an update
packs are up to the program, so the order of the ghosts after sorting, the
number of updates that fit and the bits each leaves over are given.
-/
namespace TNL

abbrev Mask : Type := BitVec 32

structure GhostFlags where
  inScope : Bool
  scopeLocalAlways : Bool
  notYetGhosted : Bool
  ghosting : Bool
  killGhost : Bool
  killingGhost : Bool
  deriving DecidableEq

/-- The values of `ghostInfoFlags` in a reference. -/
inductive GhostInfoFlags where
  | update
  | ghosting
  | killingGhost
  deriving DecidableEq

/-- What is written for a ghost: its index, whether it is to be deleted, and if not, whether the
class id comes first and the object that packs its update. -/
structure GhostRecord where
  index : ℕ
  killGhost : Bool
  classId : Bool
  object : Option ℕ
  deriving DecidableEq

/-- A reference to a ghost written into a packet. `record` is what was written for it. -/
structure GhostRef where
  mask : Mask
  ghostInfoFlags : GhostInfoFlags
  ghost : Ghost
  updateChain : Option ℕ
  record : GhostRecord
  deriving DecidableEq

/-- The notify of a packet, with the size of the ghost indices in it. The list starts with the
ghost written last. -/
structure GhostPacket where
  ghostList : List ℕ
  sendSize : ℕ
  deriving DecidableEq

/-- What the connection asks the program about its objects. -/
structure ObjectTraits where
  getHashId : ℕ → ℕ
  isGhostable : ℕ → Bool
  isScopeLocal : ℕ → Bool
  isLocalConnection : Bool

/-- Every object may be ghosted. -/
def ObjectTraits.plain : ObjectTraits where
  getHashId obj := obj
  isGhostable _ := true
  isScopeLocal _ := false
  isLocalConnection := false

structure GhostServer where
  obj : Ghost → Option ℕ
  updateMask : Ghost → Mask
  lastUpdateChain : Ghost → Option ℕ
  flags : Ghost → GhostFlags
  array : GhostArray
  mGhostLookupTable : ℕ → List Ghost
  mScoping : Bool
  mGhosting : Bool
  refs : ℕ → GhostRef
  nextRef : ℕ
  notifyQueue : List GhostPacket
  alive : ℕ → Bool
  mFirstObjectRef : ℕ → List Ghost
  mDirtyMaskBits : ℕ → Mask
  mDirtyList : List ℕ

namespace GhostServer
open GhostArray

def ghostLookupTableSize : ℕ := 1024

/-- The connection after `activateGhosting`, with the objects that exist. -/
def new (alive : ℕ → Bool) : GhostServer where
  obj _ := none
  updateMask _ := 0
  lastUpdateChain _ := none
  flags _ := ⟨false, false, false, false, false, false⟩
  array := GhostArray.new
  mGhostLookupTable _ := []
  mScoping := true
  mGhosting := false
  refs _ := ⟨0, .update, ⟨0, by decide⟩, none, ⟨0, false, false, none⟩⟩
  nextRef := 0
  notifyQueue := []
  alive := alive
  mFirstObjectRef _ := []
  mDirtyMaskBits _ := 0
  mDirtyList := []

def setFlags (s : GhostServer) (ghost : Ghost) (f : GhostFlags → GhostFlags) : GhostServer :=
  { s with flags := Function.update s.flags ghost (f (s.flags ghost)) }

/-- Add bits to the update mask of a ghost. -/
def addMask (s : GhostServer) (ghost : Ghost) (bits : Mask) : GhostServer :=
  if s.updateMask ghost = 0 then
    { s with
      updateMask := Function.update s.updateMask ghost bits
      array := s.array.ghostPushNonZero ghost }
  else { s with updateMask := Function.update s.updateMask ghost (s.updateMask ghost ||| bits) }

/-- The bucket of an object in the lookup table. -/
def bucket (traits : ObjectTraits) (obj : ℕ) : ℕ := traits.getHashId obj % ghostLookupTableSize

def detachObject (traits : ObjectTraits) (s : GhostServer) (info : Ghost) : GhostServer :=
  let s := s.setFlags info (fun f => { f with killGhost := true })
  let s := if s.updateMask info = 0 then
    { s with
      updateMask := Function.update s.updateMask info (BitVec.allOnes 32)
      array := s.array.ghostPushNonZero info } else s
  match s.obj info with
  | none => s
  | some obj => { s with
      obj := Function.update s.obj info none
      mFirstObjectRef := Function.update s.mFirstObjectRef obj ((s.mFirstObjectRef obj).erase info)
      mGhostLookupTable := Function.update s.mGhostLookupTable (bucket traits obj)
        ((s.mGhostLookupTable (bucket traits obj)).erase info) }

def freeGhostInfo (s : GhostServer) (ghost : Ghost) : GhostServer :=
  let s := if s.array.arrayIndex ghost < s.array.mGhostZeroUpdateIndex then
    { s with
      updateMask := Function.update s.updateMask ghost 0
      array := s.array.ghostPushToZero ghost } else s
  { s with array := s.array.ghostPushZeroToFree ghost }

/-- Take a free record for an object. -/
def addGhost (traits : ObjectTraits) (s : GhostServer) (obj : ℕ) (giptr : Ghost) : GhostServer :=
  { s with
    obj := Function.update s.obj giptr (some obj)
    updateMask := Function.update s.updateMask giptr (BitVec.allOnes 32)
    lastUpdateChain := Function.update s.lastUpdateChain giptr none
    flags := Function.update s.flags giptr ⟨true, false, true, false, false, false⟩
    array := (s.array.ghostPushFreeToZero giptr).ghostPushNonZero giptr
    mFirstObjectRef := Function.update s.mFirstObjectRef obj (giptr :: s.mFirstObjectRef obj)
    mGhostLookupTable := Function.update s.mGhostLookupTable (bucket traits obj)
      (giptr :: s.mGhostLookupTable (bucket traits obj)) }

/-- The ghost of an object, by the lookup table. -/
def lookup (traits : ObjectTraits) (s : GhostServer) (obj : ℕ) : Option Ghost :=
  (s.mGhostLookupTable (bucket traits obj)).find? (fun walk => s.obj walk = some obj)

def objectInScope (traits : ObjectTraits) (s : GhostServer) (obj : ℕ) : GhostServer :=
  if !s.mScoping then s
  else if !traits.isGhostable obj || (traits.isScopeLocal obj && !traits.isLocalConnection) then s
  else match s.lookup traits obj with
    | some walk => s.setFlags walk (fun f => { f with inScope := true })
    | none =>
      if s.array.mGhostFreeIndex = maxGhostCount then s
      else s.addGhost traits obj (s.array.mGhostArray s.array.mGhostFreeIndex)

def objectLocalScopeAlways (traits : ObjectTraits) (s : GhostServer) (obj : ℕ) : GhostServer :=
  let s := s.objectInScope traits obj
  match s.lookup traits obj with
  | some walk => s.setFlags walk (fun f => { f with scopeLocalAlways := true })
  | none => s

def objectLocalClearAlways (traits : ObjectTraits) (s : GhostServer) (obj : ℕ) : GhostServer :=
  match s.lookup traits obj with
  | some walk => s.setFlags walk (fun f => { f with scopeLocalAlways := false })
  | none => s

/-- The scope query that follows is a sequence of calls of `objectInScope`. -/
def prepareWritePacket (s : GhostServer) : GhostServer :=
  s.array.pending.foldl (fun s walk =>
    if (s.flags walk).scopeLocalAlways then s
    else s.setFlags walk (fun f => { f with inScope := false })) s

/-- Detach the ghosts below place `i` that are not in scope. -/
def detachOutOfScope (traits : ObjectTraits) : ℕ → GhostServer → GhostServer
  | 0, s => s
  | i + 1, s =>
    let walk := s.array.mGhostArray i
    let s := if (s.flags walk).inScope then s else s.detachObject traits walk
    detachOutOfScope traits i s

/-- Free the ghosts below place `i` that are to be deleted and have never been sent; the first
result is the greatest index seen. -/
def freeUnsent : ℕ → ℕ → GhostServer → ℕ × GhostServer
  | 0, maxIndex, s => (maxIndex, s)
  | i + 1, maxIndex, s =>
    let walk := s.array.mGhostArray i
    let maxIndex := max maxIndex walk.val
    let s := if (s.flags walk).killGhost && (s.flags walk).notYetGhosted then s.freeGhostInfo walk
      else s
    freeUnsent i maxIndex s

/-- The bits needed for an index, and at least three. -/
def sendSize (maxIndex : ℕ) : ℕ := max 3 (Nat.log2 maxIndex + 1)

def recordOf (s : GhostServer) (walk : Ghost) : GhostRecord :=
  if (s.flags walk).killGhost then ⟨walk.val, true, false, none⟩
  else ⟨walk.val, false, (s.flags walk).notYetGhosted, s.obj walk⟩

/-- The references after a new one has been made and linked to the last one of its ghost. -/
def linked (s : GhostServer) (walk : Ghost) (upd : GhostRef) : ℕ → GhostRef :=
  Function.update (match s.lastUpdateChain walk with
    | some last => Function.update s.refs last { s.refs last with updateChain := some s.nextRef }
    | none => s.refs) s.nextRef upd

/-- Note an update that fitted. `packUpdate` returns the bits it leaves over, which by the assertion
after the call are bits of the update mask. -/
def writeRecord (s : GhostServer) (walk : Ghost) (leftOver : Mask) : GhostServer :=
  let updateMask := s.updateMask walk
  let retMask := leftOver &&& updateMask
  let s' := { s with
    nextRef := s.nextRef + 1
    lastUpdateChain := Function.update s.lastUpdateChain walk (some s.nextRef) }
  if (s.flags walk).killGhost then
    { s' with
      flags := Function.update s.flags walk
        { s.flags walk with killGhost := false, killingGhost := true }
      updateMask := Function.update s.updateMask walk 0
      array := s.array.ghostPushToZero walk
      refs := s.linked walk ⟨updateMask, .killingGhost, walk, none, s.recordOf walk⟩ }
  else
    { s' with
      flags := if (s.flags walk).notYetGhosted then Function.update s.flags walk
        { s.flags walk with notYetGhosted := false, ghosting := true } else s.flags
      updateMask := Function.update s.updateMask walk retMask
      array := if retMask = 0 then s.array.ghostPushToZero walk else s.array
      refs := s.linked walk ⟨updateMask &&& ~~~retMask,
        if (s.flags walk).notYetGhosted then .ghosting else .update, walk, none, s.recordOf walk⟩ }

/-- Write the ghosts below place `i`, the last one first, as long as updates fit; `leftOver` has an
element for each update that does. -/
def writeRecords : ℕ → List Mask → GhostServer → List ℕ → GhostServer × List ℕ
  | 0, _, s, updateList => (s, updateList)
  | i + 1, leftOver, s, updateList =>
    let walk := s.array.mGhostArray i
    if (s.flags walk).killingGhost || (s.flags walk).ghosting then
      writeRecords i leftOver s updateList
    else match leftOver with
      | [] => (s, updateList)
      | mask :: leftOver =>
        writeRecords i leftOver (s.writeRecord walk mask) (s.nextRef :: updateList)

/-- The ghost section of a packet; `order` is the result of sorting by priority. -/
def writePacket (traits : ObjectTraits) (s : GhostServer) (scopeValid : Bool) (order : List Ghost)
    (leftOver : List Mask) : Option GhostServer :=
  if s.mGhosting && scopeValid then
    let s := detachOutOfScope traits s.array.mGhostZeroUpdateIndex s
    let (maxIndex, s) := freeUnsent s.array.mGhostZeroUpdateIndex 0 s
    if order.Perm s.array.pending then
      let s := { s with array := s.array.reorder order }
      let (s, updateList) := writeRecords s.array.mGhostZeroUpdateIndex leftOver s []
      some { s with notifyQueue := s.notifyQueue ++ [⟨updateList, sendSize maxIndex⟩] }
    else none
  else some { s with notifyQueue := s.notifyQueue ++ [⟨[], 0⟩] }

/-- The bits that no reference along an update chain carries. The chain is shorter than the
number of references ever made. -/
def uncarried (refs : ℕ → GhostRef) : ℕ → Option ℕ → Mask → Mask
  | 0, _, updateFlags => updateFlags
  | _ + 1, none, updateFlags => updateFlags
  | fuel + 1, some walk, updateFlags =>
    if updateFlags = 0 then updateFlags
    else uncarried refs fuel (refs walk).updateChain (updateFlags &&& ~~~(refs walk).mask)

/-- Make sure a reference is not the last one of its ghost. -/
def unchain (s : GhostServer) (packRef : ℕ) : GhostServer :=
  let ghost := (s.refs packRef).ghost
  if s.lastUpdateChain ghost = some packRef then
    { s with lastUpdateChain := Function.update s.lastUpdateChain ghost none }
  else s

def refDropped (s : GhostServer) (packRef : ℕ) : GhostServer :=
  let ref := s.refs packRef
  let updateFlags := uncarried s.refs s.nextRef ref.updateChain ref.mask
  let s := if updateFlags = 0 then s else s.addMask ref.ghost updateFlags
  let s := s.unchain packRef
  match ref.ghostInfoFlags with
  | .ghosting => s.setFlags ref.ghost (fun f => { f with notYetGhosted := true, ghosting := false })
  | .killingGhost =>
    s.setFlags ref.ghost (fun f => { f with killGhost := true, killingGhost := false })
  | .update => s

def refReceived (s : GhostServer) (packRef : ℕ) : GhostServer :=
  let ref := s.refs packRef
  let s := s.unchain packRef
  match ref.ghostInfoFlags with
  | .ghosting => s.setFlags ref.ghost (fun f => { f with ghosting := false })
  | .killingGhost => s.freeGhostInfo ref.ghost
  | .update => s

def packetDropped (s : GhostServer) : Option GhostServer :=
  match s.notifyQueue with
  | [] => none
  | notify :: rest => some (notify.ghostList.foldl refDropped { s with notifyQueue := rest })

def packetReceived (s : GhostServer) : Option GhostServer :=
  match s.notifyQueue with
  | [] => none
  | notify :: rest => some (notify.ghostList.foldl refReceived { s with notifyQueue := rest })

def clearGhostInfo (traits : ObjectTraits) (s : GhostServer) : GhostServer :=
  let s := { s with notifyQueue := s.notifyQueue.map (fun note => { note with ghostList := [] }) }
  (List.finRange maxGhostCount).foldl (fun s info =>
    if s.array.arrayIndex info < s.array.mGhostFreeIndex then
      let s := s.detachObject traits info
      let s := { s with lastUpdateChain := Function.update s.lastUpdateChain info none }
      s.freeGhostInfo info
    else s) s

/-- The array is reset and its borders are kept. -/
def activateGhosting (s : GhostServer) : GhostServer :=
  { s with
    array := { GhostArray.new with
      mGhostZeroUpdateIndex := s.array.mGhostZeroUpdateIndex
      mGhostFreeIndex := s.array.mGhostFreeIndex }
    mScoping := true }

def resetGhosting (traits : ObjectTraits) (s : GhostServer) : GhostServer :=
  clearGhostInfo traits { s with mGhosting := false, mScoping := false }

def setMaskBits (s : GhostServer) (obj : ℕ) (orMask : Mask) : GhostServer :=
  { s with
    mDirtyList := if s.mDirtyMaskBits obj = 0 then obj :: s.mDirtyList else s.mDirtyList
    mDirtyMaskBits := Function.update s.mDirtyMaskBits obj (s.mDirtyMaskBits obj ||| orMask) }

/-- Remove bits from the update mask of a ghost. -/
def clearMask (orMask : Mask) (s : GhostServer) (walk : Ghost) : GhostServer :=
  if s.updateMask walk ≠ 0 ∧ s.updateMask walk = orMask then
    { s with
      updateMask := Function.update s.updateMask walk 0
      array := s.array.ghostPushToZero walk }
  else { s with
    updateMask := Function.update s.updateMask walk (s.updateMask walk &&& ~~~orMask) }

def clearMaskBits (s : GhostServer) (obj : ℕ) (orMask : Mask) : GhostServer :=
  let dirty := s.mDirtyMaskBits obj &&& ~~~orMask
  let s := if s.mDirtyMaskBits obj = 0 then s else
    { s with
      mDirtyMaskBits := Function.update s.mDirtyMaskBits obj dirty
      mDirtyList := if dirty = 0 then s.mDirtyList.erase obj else s.mDirtyList }
  (s.mFirstObjectRef obj).foldl (clearMask orMask) s

/-- Hand the dirty bits of an object to its ghosts. -/
def collapseObject (s : GhostServer) (obj : ℕ) : GhostServer :=
  let orMask := s.mDirtyMaskBits obj
  let s := { s with mDirtyMaskBits := Function.update s.mDirtyMaskBits obj 0 }
  if orMask = 0 then s
  else (s.mFirstObjectRef obj).foldl (fun s walk => s.addMask walk orMask) s

def collapseDirtyList (s : GhostServer) : GhostServer :=
  { s.mDirtyList.foldl collapseObject s with mDirtyList := [] }

/-- Destroy an object; its number is never used again. -/
def destroy (traits : ObjectTraits) (s : GhostServer) (obj : ℕ) : GhostServer :=
  let s := (s.mFirstObjectRef obj).foldl (detachObject traits) s
  { s with
    mDirtyList := if s.mDirtyMaskBits obj = 0 then s.mDirtyList else s.mDirtyList.erase obj
    alive := Function.update s.alive obj false }

inductive Action where
  | setMaskBits (obj : ℕ) (orMask : Mask)
  | clearMaskBits (obj : ℕ) (orMask : Mask)
  | collapseDirtyList
  | destroy (obj : ℕ)
  | objectInScope (obj : ℕ)
  | objectLocalScopeAlways (obj : ℕ)
  | objectLocalClearAlways (obj : ℕ)
  | detachObject (info : Ghost)
  | freeGhostInfo (info : Ghost)
  | clearGhostInfo
  | activateGhosting
  | resetGhosting
  | rpcReadyForNormalGhosts
  | prepareWritePacket
  | writePacket (scopeValid : Bool) (order : List Ghost) (leftOver : List Mask)
  | packetReceived
  | packetDropped

/-- Objects are used while they exist. A record is only detached while it is allocated, and freed
as the assertions of `freeGhostInfo` ask for, when it is detached. Ghosting is activated as its
assertion asks for, when there are no ghosts. -/
def step (traits : ObjectTraits) (s : GhostServer) : Action → Option GhostServer
  | .setMaskBits obj orMask =>
    if s.alive obj ∧ orMask ≠ 0 then some (s.setMaskBits obj orMask) else none
  | .clearMaskBits obj orMask => if s.alive obj then some (s.clearMaskBits obj orMask) else none
  | .collapseDirtyList => some s.collapseDirtyList
  | .destroy obj => if s.alive obj then some (s.destroy traits obj) else none
  | .objectInScope obj => if s.alive obj then some (s.objectInScope traits obj) else none
  | .objectLocalScopeAlways obj =>
    if s.alive obj then some (s.objectLocalScopeAlways traits obj) else none
  | .objectLocalClearAlways obj =>
    if s.alive obj then some (s.objectLocalClearAlways traits obj) else none
  | .detachObject info =>
    if s.array.arrayIndex info < s.array.mGhostFreeIndex then some (s.detachObject traits info)
    else none
  | .freeGhostInfo info =>
    if s.array.arrayIndex info < s.array.mGhostFreeIndex ∧ s.obj info = none ∧
      s.lastUpdateChain info = none then some (s.freeGhostInfo info) else none
  | .clearGhostInfo => some (s.clearGhostInfo traits)
  | .activateGhosting => if s.array.mGhostFreeIndex = 0 ∧ s.array.mGhostZeroUpdateIndex = 0 then
    some s.activateGhosting else none
  | .resetGhosting => some (s.resetGhosting traits)
  | .rpcReadyForNormalGhosts => some { s with mGhosting := true }
  | .prepareWritePacket => some s.prepareWritePacket
  | .writePacket scopeValid order leftOver => s.writePacket traits scopeValid order leftOver
  | .packetReceived => s.packetReceived
  | .packetDropped => s.packetDropped

end GhostServer

end TNL
