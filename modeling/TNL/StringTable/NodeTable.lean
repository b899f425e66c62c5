import TNL.Library.Chain
import TNL.Library.Run
import TNL.StringTable.NetStringTable

/-!
# The global string table in memory

The node list with its free places, and the chains of the hash table, which are
threaded through the nodes by index. A free place holds the index of the next
one, shifted left with the lowest bit set, and zero is the end of either list.
An access through a pointer that is null or no longer valid is a fault, as is a
node larger than a chunk. The table is in the memory of one 32-bit process, so
that indices, sizes and counts do not reach the ends of their types.
-/
namespace TNL
open Library

namespace NodeTable

structure Node where
  masterIndex : ℕ
  nextIndex : ℕ
  hash : U32
  stringLen : U16
  refCount : U16
  stringData : List U8

/-- What the node list holds at an index: an entry of the free list, a pointer to a node, or a
pointer into memory that has been given back. -/
inductive Slot where
  | word (w : ℕ)
  | node (node : Node)
  | freed

end NodeTable

/-- `mBuckets` is null until the first insertion. -/
structure NodeTable where
  mNodeList : ℕ → NodeTable.Slot
  mNodeListSize : ℕ
  mNodeListFreeEntry : ℕ
  mBuckets : Option (ℕ → ℕ)
  mNumBuckets : ℕ
  mItemCount : ℕ
  mFreeStringDataSize : ℕ

namespace NodeTable
open StringTable (initialHashTableSize initialNodeListSize compactThreshold sizeofNode chunkSize
  copyString)

/-- An index in a chain. -/
def ptr (index : ℕ) : Option ℕ := if index = 0 then none else some index

/-- An entry of the free list: `(index << 1) | 1`. -/
def freeEntry (index : ℕ) : ℕ := 2 * index + 1

/-- The index in an entry of the free list: `entry >> 1`. -/
def freePtr (entry : ℕ) : Option ℕ := if entry = 0 then none else some (entry / 2)

/-- The program before it uses the table. -/
def start : NodeTable where
  mNodeList _ := .word 0
  mNodeListSize := 0
  mNodeListFreeEntry := 0
  mBuckets := none
  mNumBuckets := 0
  mItemCount := 0
  mFreeStringDataSize := 0

/-- The free places from `low` on, below `high`. -/
def freePlaces (high : ℕ) (i : ℕ) : Slot :=
  if i + 1 < high then .word (freeEntry (i + 1)) else .word 0

def init : NodeTable where
  mNodeList i := if i = 0 then .node ⟨0, 0, 0, 0, 1, [0]⟩ else freePlaces initialNodeListSize i
  mNodeListSize := initialNodeListSize
  mNodeListFreeEntry := freeEntry 1
  mBuckets := some fun _ => 0
  mNumBuckets := initialHashTableSize
  mItemCount := 1
  mFreeStringDataSize := 0

def destroy (t : NodeTable) : NodeTable :=
  { t with mBuckets := none, mNodeList := fun _ => .word 0 }

def node? (t : NodeTable) (i : ℕ) : Option Node :=
  match t.mNodeList i with
  | .node node => some node
  | _ => none

/-- The link of a node. -/
def next (t : NodeTable) (i : ℕ) : Option ℕ := (t.node? i).bind fun node => ptr node.nextIndex

/-- The link of a free place. -/
def nextFree (t : NodeTable) (i : ℕ) : Option ℕ :=
  match t.mNodeList i with
  | .word w => freePtr w
  | _ => none

/-- The first node in the chain of a bucket. -/
def first (t : NodeTable) (bucket : ℕ) : Option ℕ := t.mBuckets.bind fun buckets => ptr (buckets bucket)

def setNode (t : NodeTable) (i : ℕ) (node : Node) : NodeTable :=
  { t with mNodeList := Function.update t.mNodeList i (.node node) }

def setNextIndex (t : NodeTable) (i : ℕ) (index : ℕ) : NodeTable :=
  match t.node? i with
  | none => t
  | some node => t.setNode i { node with nextIndex := index }

/-- `*walk = index`, where `walk` points into the chain of a bucket. -/
def setLink (t : NodeTable) (bucket : ℕ) (walk : ChainLink) (index : ℕ) : NodeTable :=
  match walk with
  | .head => { t with mBuckets := t.mBuckets.map fun buckets => Function.update buckets bucket index }
  | .next i => t.setNextIndex i index

/-- Walk along the chain of a bucket to a link that leads to a node found or nowhere. -/
def walkTo (t : NodeTable) (bucket : ℕ) (found : ℕ → Node → Bool) : Option ChainLink :=
  seek t.next (t.first bucket) (fun i => (t.node? i).map (found i)) (t.mNodeListSize + 1) .head

/-- The comparison made at a node; `beyond` is what is read behind the bytes of the node. -/
def matchesn (beyond : ℕ → U8) (val : List U8) (len : ℕ) (caseSens : Bool) (i : ℕ) (node : Node) :
    Bool :=
  sameStringn caseSens node.stringData val len ∧ node.stringData.getD len (beyond i) = 0

/-- Take the nodes of a chain off one by one, in front of `head`. -/
def reverseChain : ℕ → NodeTable → ℕ → ℕ → Option (NodeTable × ℕ)
  | 0, _, _, _ => none
  | fuel + 1, t, walk, head =>
    if walk = 0 then some (t, head)
    else match t.node? walk with
      | none => none
      | some node => reverseChain fuel (t.setNextIndex walk head) node.nextIndex walk

/-- Take the nodes of a chain off one by one, in front of the chains of their buckets. -/
def spread (newSize : ℕ) : ℕ → NodeTable → ℕ → Option NodeTable
  | 0, _, _ => none
  | fuel + 1, t, walk =>
    if walk = 0 then some t
    else match t.node? walk, t.mBuckets with
      | some temp, some buckets =>
        let key := temp.hash.toNat
        let t := t.setNextIndex walk (buckets (key % newSize))
        spread newSize fuel
          { t with mBuckets := some (Function.update buckets (key % newSize) temp.masterIndex) }
          temp.nextIndex
      | _, _ => none

def resizeHashTable (t : NodeTable) (newSize : ℕ) : Option NodeTable :=
  match t.mBuckets with
  | none => none
  | some buckets => do
    let (t, head) ← (List.range t.mNumBuckets).foldlM (fun (t, head) i =>
      reverseChain (t.mNodeListSize + 1) t (buckets i) head) (t, 0)
    spread newSize (t.mNodeListSize + 1)
      { t with mBuckets := some fun _ => 0, mNumBuckets := newSize } head

def growNodeList (t : NodeTable) : NodeTable :=
  if t.mNodeListFreeEntry = 0 then
    let mNodeListSize := t.mNodeListSize + initialNodeListSize
    { t with
      mNodeListSize := mNodeListSize
      mNodeList := fun i =>
        if i < t.mNodeListSize then t.mNodeList i else freePlaces mNodeListSize i
      mNodeListFreeEntry := freeEntry t.mNodeListSize }
  else t

def addNode (t : NodeTable) (bucket : ℕ) (walk : ChainLink) (key : U32) (val : List U8) (len : ℕ) :
    Option (ℕ × NodeTable) :=
  let t := t.growNodeList
  if sizeofNode + len > chunkSize then none
  else
    let masterIndex := t.mNodeListFreeEntry / 2
    let t := t.setLink bucket walk masterIndex
    match t.mNodeList masterIndex with
    | .word w =>
      let t := { t.setNode masterIndex
          ⟨masterIndex, 0, key, BitVec.ofNat 16 len, 1, copyString val len⟩ with
        mNodeListFreeEntry := w
        mItemCount := t.mItemCount + 1 }
      if t.mItemCount > 2 * t.mNumBuckets then
        (t.resizeHashTable (4 * t.mNumBuckets - 1)).map (masterIndex, ·)
      else some (masterIndex, t)
    | _ => none

def incRef (t : NodeTable) (index : ℕ) : Option NodeTable :=
  (t.node? index).map fun node => t.setNode index { node with refCount := node.refCount + 1 }

/-- The hash of a string is given. A negative length is taken for a huge one by the functions that
compare and copy, which then leave the node. -/
def insertn (hash : List U8 → U32) (t : NodeTable) (beyond : ℕ → U8) (val : Option (List U8))
    (len : ℤ) (caseSens : Bool) : Option (ℕ × NodeTable) :=
  match val with
  | none => some (0, t)
  | some val =>
    if cstr val = [] ∨ len = 0 then some (0, t)
    else if len < 0 then none
    else
      let t := if t.mBuckets.isNone then init else t
      let key := hash ((cstr val).take len.toNat)
      let bucket := key.toNat % t.mNumBuckets
      match t.walkTo bucket (matchesn beyond val len.toNat caseSens) with
      | none => none
      | some walk =>
        match walk.get t.next (t.first bucket) with
        | some index => (t.incRef index).map (index, ·)
        | none => t.addNode bucket walk key val len.toNat

/-- The nodes are copied to new memory, but for the one of the empty string; the old memory is given
back. -/
def compact (t : NodeTable) : NodeTable :=
  { t with
    mNodeList := fun i => match t.mNodeList i with
      | .word w => .word w
      | .node node =>
        if i = 0 then .freed else .node { node with stringData := cstr node.stringData ++ [0] }
      | .freed => .freed
    mFreeStringDataSize := 0 }

def freeNode (t : NodeTable) (index : ℕ) (node : Node) : Option NodeTable :=
  let bucket := node.hash.toNat % t.mNumBuckets
  match t.walkTo bucket (fun i _ => i = index) with
  | none => none
  | some walk =>
    let t := if walk.get t.next (t.first bucket) = some index then
      t.setLink bucket walk node.nextIndex else t
    let t := { t with
      mFreeStringDataSize := t.mFreeStringDataSize + node.stringLen.toNat + sizeofNode
      mNodeList := Function.update t.mNodeList index (.word t.mNodeListFreeEntry)
      mNodeListFreeEntry := freeEntry index }
    let t := if t.mFreeStringDataSize > compactThreshold then t.compact else t
    let t := { t with mItemCount := t.mItemCount - 1 }
    some (if t.mItemCount = 0 then t.destroy else t)

def decRef (t : NodeTable) (index : ℕ) : Option NodeTable :=
  match t.node? index with
  | none => none
  | some node =>
    let t := t.setNode index { node with refCount := node.refCount - 1 }
    if node.refCount - 1 ≠ 0 then some t else t.freeNode index node

end NodeTable

end TNL
