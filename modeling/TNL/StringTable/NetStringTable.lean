import Mathlib.Data.Finset.Card
import Mathlib.Data.List.Nodup
import Mathlib.Data.List.TakeWhile
import TNL.Connection.Header
import TNL.Stream.ByteStream

/-!
# The global string table

Strings are kept in nodes with a reference count of sixteen bits, found through
a hash table of chains. A node whose count drops to zero leaves its chain and
its place in the node list becomes free. Pointers are indices into the node
list: a chain and the list of free places are lists of them. What an access
through a free place does is not defined; here it changes nothing.
-/
namespace TNL

abbrev U16 := BitVec 16

/-- The C string in a piece of memory: the bytes before the first zero. -/
def cstr (memory : List U8) : List U8 := memory.takeWhile (· ≠ 0)

def toLower (c : U8) : U8 := if 0x41#8 ≤ c ∧ c ≤ 0x5A#8 then c + 0x20#8 else c

/-- `strncmp` or `strnicmp` returning zero. -/
def sameStringn (caseSens : Bool) (a b : List U8) (len : ℕ) : Prop :=
  if caseSens then (cstr a).take len = (cstr b).take len
  else ((cstr a).take len).map toLower = ((cstr b).take len).map toLower

instance (caseSens : Bool) (a b : List U8) (len : ℕ) : Decidable (sameStringn caseSens a b len) :=
  inferInstanceAs (Decidable (if caseSens then _ else _))

/-- Equal strings, or equal but for the case of letters. -/
def sameString (caseSens : Bool) (a b : List U8) : Prop :=
  if caseSens then a = b else a.map toLower = b.map toLower

structure StringNode where
  hash : U32
  stringLen : U16
  refCount : U16
  stringData : List U8

/-- The pointer of a place in the node list is `none` while it is free. -/
structure StringTable where
  mNodeList : ℕ → Option StringNode
  mNodeListSize : ℕ
  freeList : List ℕ
  mBuckets : ℕ → List ℕ
  mNumBuckets : ℕ
  mItemCount : ℕ
  mFreeStringDataSize : ℕ

namespace StringTable

def initialHashTableSize : ℕ := 1237
def initialNodeListSize : ℕ := 2048
def compactThreshold : ℕ := 32768
def sizeofNode : ℕ := 20
def chunkSize : ℕ := 16376

def init : StringTable where
  mNodeList i := if i = 0 then some ⟨0, 0, 1, [0]⟩ else none
  mNodeListSize := initialNodeListSize
  freeList := List.range' 1 (initialNodeListSize - 1)
  mBuckets _ := []
  mNumBuckets := initialHashTableSize
  mItemCount := 1
  mFreeStringDataSize := 0

/-- The table of squares is indexed by a signed character, so bytes above `0x7F` read what lies
before it. -/
def hashStringn (sgToLowerTable : U8 → U8) (str : List U8) (len : ℕ) : U32 :=
  ((cstr str).take len).foldl (fun ret c => (ret <<< 1) ^^^ (sgToLowerTable c).setWidth 32) 0

/-- The node of a string, which is looked for in the chain of its hash. `beyond` is what is read
behind the bytes of a node. -/
def lookupn (sgToLowerTable : U8 → U8) (t : StringTable) (beyond : ℕ → U8) (val : List U8)
    (len : ℕ) (caseSens : Bool) : Option ℕ :=
  let key := hashStringn sgToLowerTable val len
  (t.mBuckets (key.toNat % t.mNumBuckets)).find? (fun walk => match t.mNodeList walk with
    | none => false
    | some stringNode => sameStringn caseSens stringNode.stringData val len ∧
        stringNode.stringData.getD len (beyond walk) = 0)

/-- The chains keep their order when they are spread over more buckets. -/
def resizeHashTable (t : StringTable) (newSize : ℕ) : StringTable :=
  let nodes := (List.range t.mNumBuckets).flatMap t.mBuckets
  { t with
    mBuckets := fun b => nodes.filter (fun i =>
      (t.mNodeList i).any (fun node => node.hash.toNat % newSize = b))
    mNumBuckets := newSize }

/-- More free places when there is none. -/
def growNodeList (t : StringTable) : StringTable :=
  if t.freeList = [] then
    { t with
      mNodeListSize := t.mNodeListSize + initialNodeListSize
      freeList := List.range' t.mNodeListSize initialNodeListSize }
  else t

/-- `strncpy`, which pads with zeros, and the closing zero. -/
def copyString (val : List U8) (len : ℕ) : List U8 :=
  (cstr val).take len ++ List.replicate (len + 1 - ((cstr val).take len).length) 0

/-- A node for a string that is in no chain; a node must fit in a chunk. -/
def addNode (t : StringTable) (key : U32) (val : List U8) (len : ℕ) : Option (ℕ × StringTable) :=
  let t := t.growNodeList
  if sizeofNode + len > chunkSize then none
  else
    let masterIndex := t.freeList.headD 0
    let bucket := key.toNat % t.mNumBuckets
    let t := { t with
      mNodeList := Function.update t.mNodeList masterIndex
        (some ⟨key, BitVec.ofNat 16 len, 1, copyString val len⟩)
      freeList := t.freeList.tail
      mBuckets := Function.update t.mBuckets bucket (t.mBuckets bucket ++ [masterIndex])
      mItemCount := t.mItemCount + 1 }
    some (masterIndex, if t.mItemCount > 2 * t.mNumBuckets then
      t.resizeHashTable (4 * t.mNumBuckets - 1) else t)

def incRef (t : StringTable) (index : ℕ) : StringTable :=
  match t.mNodeList index with
  | none => t
  | some node => { t with
      mNodeList := Function.update t.mNodeList index
        (some { node with refCount := node.refCount + 1 }) }

def insertn (sgToLowerTable : U8 → U8) (t : StringTable) (beyond : ℕ → U8) (val : Option (List U8))
    (len : ℕ) (caseSens : Bool) : Option (ℕ × StringTable) :=
  match val with
  | none => some (0, t)
  | some val =>
    if cstr val = [] ∨ len = 0 then some (0, t)
    else
      match lookupn sgToLowerTable t beyond val len caseSens with
      | some walk => some (walk, t.incRef walk)
      | none => t.addNode (hashStringn sgToLowerTable val len) val len

/-- Nodes move to new memory with their string only; the node of the empty string is left. -/
def compact (t : StringTable) : StringTable :=
  { t with
    mNodeList := fun i => if i = 0 then t.mNodeList 0 else
      (t.mNodeList i).map (fun node => { node with stringData := cstr node.stringData ++ [0] })
    mFreeStringDataSize := 0 }

def freeNode (t : StringTable) (index : ℕ) (node : StringNode) : StringTable :=
  let bucket := node.hash.toNat % t.mNumBuckets
  let t := { t with
    mBuckets := Function.update t.mBuckets bucket ((t.mBuckets bucket).erase index)
    mNodeList := Function.update t.mNodeList index none
    freeList := index :: t.freeList
    mFreeStringDataSize := t.mFreeStringDataSize + node.stringLen.toNat + sizeofNode }
  let t := if t.mFreeStringDataSize > compactThreshold then t.compact else t
  let t := { t with mItemCount := t.mItemCount - 1 }
  -- a destroyed table is initialised again by the next insertion
  if t.mItemCount = 0 then init else t

def decRef (t : StringTable) (index : ℕ) : StringTable :=
  match t.mNodeList index with
  | none => t
  | some node =>
    if node.refCount - 1 ≠ 0 then
      { t with
        mNodeList := Function.update t.mNodeList index
          (some { node with refCount := node.refCount - 1 }) }
    else t.freeNode index node

def getString (t : StringTable) (index : ℕ) : Option (List U8) :=
  if index = 0 then some [] else (t.mNodeList index).map (fun node => cstr node.stringData)

/-- What a place holds for its users: the string and the number of references. -/
def content (t : StringTable) (index : ℕ) : Option (List U8 × U16) :=
  (t.mNodeList index).map (fun node => (cstr node.stringData, node.refCount))

/-- Chains lead to nodes, free places hold none, and the items are counted. -/
structure Wf (t : StringTable) : Prop where
  buckets_pos : 0 < t.mNumBuckets
  chained : ∀ b, ∀ i ∈ t.mBuckets b, i ≠ 0 ∧ ∃ node, t.mNodeList i = some node ∧
    node.hash.toNat % t.mNumBuckets = b
  chain_nodup : ∀ b, (t.mBuckets b).Nodup
  free : ∀ i ∈ t.freeList, t.mNodeList i = none ∧ i < t.mNodeListSize
  free_nodup : t.freeList.Nodup
  beyond : ∀ i, t.mNodeListSize ≤ i → t.mNodeList i = none
  zero : (t.mNodeList 0).isSome
  count : t.mItemCount =
    ((Finset.range t.mNodeListSize).filter (fun i => (t.mNodeList i).isSome)).card

variable {t t' : StringTable} {i index : ℕ} {node : StringNode}

theorem cstr_copyString (val : List U8) (len : ℕ) :
    cstr (copyString val len) = (cstr val).take len := by
  have nonzero : ∀ c ∈ (cstr val).take len, decide (c ≠ 0) = true := by
    intro c hc
    exact List.mem_takeWhile_imp (p := fun c => decide (c ≠ 0)) (l := val)
      (List.mem_of_mem_take hc)
  have hlen : ((cstr val).take len).length ≤ len := by
    rw [List.length_take]
    exact min_le_left ..
  obtain ⟨k, hk⟩ : ∃ k, len + 1 - ((cstr val).take len).length = k + 1 :=
    ⟨len - ((cstr val).take len).length, by omega⟩
  rw [copyString, hk, cstr, List.takeWhile_append_of_pos nonzero, List.replicate_succ]
  simp

theorem wf_init : init.Wf where
  buckets_pos := by decide
  chained := by simp [init]
  chain_nodup := by simp [init]
  free := by
    intro i hi
    obtain ⟨hlow, hhigh⟩ := List.mem_range'_1.mp hi
    simp only [init, initialNodeListSize] at hhigh ⊢
    exact ⟨if_neg (by omega), by omega⟩
  free_nodup := List.nodup_range' ..
  beyond := by
    intro i hi
    exact if_neg (by simp only [init, initialNodeListSize] at hi; omega)
  zero := rfl
  count := by
    have only : (Finset.range init.mNodeListSize).filter (fun i => (init.mNodeList i).isSome) =
        {0} := by
      ext i
      by_cases hi : i = 0 <;> simp [init, initialNodeListSize, hi]
    rw [only, Finset.card_singleton]
    rfl

namespace Wf

/-- Changing the node of a place without moving it. -/
theorem setNode (h : t.Wf) (hn : t.mNodeList index = some node) {node' : StringNode}
    (hash : node'.hash = node.hash) :
    Wf { t with mNodeList := Function.update t.mNodeList index (some node') } where
  buckets_pos := h.buckets_pos
  chained := by
    intro b i hi
    obtain ⟨hne, n, hnode, hb⟩ := h.chained b i hi
    refine ⟨hne, ?_⟩
    by_cases heq : i = index
    · subst heq
      rw [hn] at hnode
      cases hnode
      exact ⟨node', Function.update_self .., by rw [hash]; exact hb⟩
    · exact ⟨n, by simp only [Function.update_of_ne heq]; exact hnode, hb⟩
  chain_nodup := h.chain_nodup
  free := by
    intro i hi
    obtain ⟨hnone, hlt⟩ := h.free i hi
    have hne : i ≠ index := by
      rintro rfl
      rw [hn] at hnone
      cases hnone
    exact ⟨by simp only [Function.update_of_ne hne]; exact hnone, hlt⟩
  free_nodup := h.free_nodup
  beyond := by
    intro i hi
    have hnone := h.beyond i hi
    have hne : i ≠ index := by
      rintro rfl
      rw [hn] at hnone
      cases hnone
    simp only [Function.update_of_ne hne]
    exact hnone
  zero := by
    by_cases heq : 0 = index
    · subst heq
      simp
    · simp only [Function.update_of_ne heq]
      exact h.zero
  count := by
    refine h.count.trans (congrArg Finset.card (Finset.filter_congr fun i _ => ?_))
    by_cases heq : i = index
    · subst heq
      simp [hn]
    · simp only [Function.update_of_ne heq]

theorem incRef (h : t.Wf) (index : ℕ) : (t.incRef index).Wf := by
  rw [StringTable.incRef]
  cases hn : t.mNodeList index with
  | none => exact h
  | some node => exact h.setNode hn rfl

/-- The chains after nodes are spread over more buckets. -/
theorem resizeHashTable (h : t.Wf) {newSize : ℕ} (hs : 0 < newSize)
    (disjoint : ((List.range t.mNumBuckets).flatMap t.mBuckets).Nodup) :
    (t.resizeHashTable newSize).Wf where
  buckets_pos := hs
  chained := by
    intro b i hi
    obtain ⟨hmem, hash⟩ := List.mem_filter.mp hi
    obtain ⟨b', -, hb'⟩ := List.mem_flatMap.mp hmem
    obtain ⟨hne, node, hnode, -⟩ := h.chained b' i hb'
    refine ⟨hne, node, hnode, ?_⟩
    have bucket : node.hash.toNat % newSize = b := by simpa [hnode] using hash
    exact bucket
  chain_nodup := fun b => disjoint.filter _
  free := h.free
  free_nodup := h.free_nodup
  beyond := h.beyond
  zero := h.zero
  count := h.count

/-- A node is in the chain of its hash only. -/
theorem flatMap_nodup (h : t.Wf) : ((List.range t.mNumBuckets).flatMap t.mBuckets).Nodup := by
  rw [List.nodup_flatMap]
  refine ⟨fun b _ => h.chain_nodup b, List.nodup_range.imp fun {b c} hbc i hb hc => ?_⟩
  obtain ⟨-, node, hnode, hb⟩ := h.chained b i hb
  obtain ⟨-, node', hnode', hc⟩ := h.chained c i hc
  rw [hnode] at hnode'
  cases hnode'
  exact hbc (hb.symm.trans hc)

theorem growNodeList (h : t.Wf) : t.growNodeList.Wf ∧ t.growNodeList.freeList ≠ [] := by
  rw [StringTable.growNodeList]
  split_ifs with hempty
  · refine ⟨⟨h.buckets_pos, h.chained, h.chain_nodup, ?_, List.nodup_range' .., ?_, h.zero, ?_⟩, ?_⟩
    · intro i hi
      obtain ⟨hlow, hhigh⟩ := List.mem_range'_1.mp hi
      exact ⟨h.beyond i hlow, hhigh⟩
    · intro i hi
      exact h.beyond i (by change t.mNodeListSize + initialNodeListSize ≤ i at hi; omega)
    · refine h.count.trans (congrArg Finset.card (Finset.ext fun i => ?_))
      simp only [Finset.mem_filter, Finset.mem_range]
      constructor
      · rintro ⟨hlt, hsome⟩
        exact ⟨by omega, hsome⟩
      · rintro ⟨-, hsome⟩
        refine ⟨?_, hsome⟩
        by_contra hge
        rw [h.beyond i (by omega)] at hsome
        cases hsome
    · change List.range' _ (2047 + 1) ≠ []
      rw [List.range'_succ]
      exact List.cons_ne_nil _ _
  · exact ⟨h, hempty⟩

/-- A node takes the first free place and joins the end of its chain. -/
theorem place (h : t.Wf) {i : ℕ} {rest : List ℕ} (hfree : t.freeList = i :: rest)
    (node : StringNode) :
    Wf { t with
      mNodeList := Function.update t.mNodeList i (some node)
      freeList := rest
      mBuckets := Function.update t.mBuckets (node.hash.toNat % t.mNumBuckets)
        (t.mBuckets (node.hash.toNat % t.mNumBuckets) ++ [i])
      mItemCount := t.mItemCount + 1 } := by
  obtain ⟨hnone, hlt⟩ := h.free i (by rw [hfree]; exact List.mem_cons_self)
  have hnodup := h.free_nodup
  rw [hfree, List.nodup_cons] at hnodup
  have unchained : ∀ b, i ∉ t.mBuckets b := by
    intro b hi
    obtain ⟨-, n, hn, -⟩ := h.chained b i hi
    rw [hnone] at hn
    cases hn
  have hzero : i ≠ 0 := by
    rintro rfl
    have := h.zero
    rw [hnone] at this
    cases this
  have other : ∀ k, t.mNodeList k ≠ none → k ≠ i := by
    rintro k hk rfl
    exact hk hnone
  refine ⟨h.buckets_pos, ?_, ?_, ?_, hnodup.2, ?_, ?_, ?_⟩
  · intro b k hk
    have old : k ∈ t.mBuckets b → k ≠ 0 ∧ ∃ n, Function.update t.mNodeList i (some node) k =
        some n ∧ n.hash.toNat % t.mNumBuckets = b := by
      intro hk
      obtain ⟨hne, n, hn, hb⟩ := h.chained b k hk
      refine ⟨hne, n, ?_, hb⟩
      rw [Function.update_of_ne (other k (by simp [hn])), hn]
    by_cases hb : b = node.hash.toNat % t.mNumBuckets
    · subst hb
      simp only [Function.update_self, List.mem_append, List.mem_singleton] at hk
      rcases hk with hk | rfl
      · exact old hk
      · exact ⟨hzero, node, Function.update_self .., rfl⟩
    · simp only [Function.update_of_ne hb] at hk
      exact old hk
  · intro b
    by_cases hb : b = node.hash.toNat % t.mNumBuckets
    · subst hb
      simp only [Function.update_self]
      refine List.nodup_append.mpr ⟨h.chain_nodup _, List.nodup_singleton _, fun k hk j hj => ?_⟩
      rw [List.mem_singleton.mp hj]
      rintro rfl
      exact unchained _ hk
    · simp only [Function.update_of_ne hb]
      exact h.chain_nodup b
  · intro k hk
    have hki : k ≠ i := by
      rintro rfl
      exact hnodup.1 hk
    simp only [Function.update_of_ne hki]
    exact h.free k (by rw [hfree]; exact List.mem_cons_of_mem _ hk)
  · intro k hk
    change t.mNodeListSize ≤ k at hk
    simp only [Function.update_of_ne (show k ≠ i by omega)]
    exact h.beyond k hk
  · simp only [Function.update_of_ne hzero.symm]
    exact h.zero
  · have insert : (Finset.range t.mNodeListSize).filter
        (fun k => (Function.update t.mNodeList i (some node) k).isSome) =
        insert i ((Finset.range t.mNodeListSize).filter (fun k => (t.mNodeList k).isSome)) := by
      ext k
      by_cases hki : k = i
      · subst hki
        simp [hlt]
      · simp [hki]
    simp only [insert]
    rw [Finset.card_insert_of_notMem (by simp [hnone]), h.count]

/-- A node is taken out of its chain and its place. -/
theorem remove (h : t.Wf) {i : ℕ} (hi : i ≠ 0) (hn : t.mNodeList i = some node) (freed : ℕ) :
    Wf { t with
      mBuckets := Function.update t.mBuckets (node.hash.toNat % t.mNumBuckets)
        ((t.mBuckets (node.hash.toNat % t.mNumBuckets)).erase i)
      mNodeList := Function.update t.mNodeList i none
      freeList := i :: t.freeList
      mFreeStringDataSize := freed
      mItemCount := t.mItemCount - 1 } := by
  have hlt : i < t.mNodeListSize := by
    by_contra hge
    rw [h.beyond i (by omega)] at hn
    cases hn
  have notfree : i ∉ t.freeList := by
    intro hfree
    rw [(h.free i hfree).1] at hn
    cases hn
  refine ⟨h.buckets_pos, ?_, ?_, ?_, List.nodup_cons.mpr ⟨notfree, h.free_nodup⟩, ?_, ?_, ?_⟩
  · intro b k hk
    have old : k ∈ t.mBuckets b ∧ k ≠ i := by
      by_cases hb : b = node.hash.toNat % t.mNumBuckets
      · subst hb
        simp only [Function.update_self] at hk
        obtain ⟨hki, hk⟩ := (h.chain_nodup _).mem_erase_iff.mp hk
        exact ⟨hk, hki⟩
      · simp only [Function.update_of_ne hb] at hk
        refine ⟨hk, ?_⟩
        rintro rfl
        obtain ⟨-, n, hn', hb'⟩ := h.chained b k hk
        rw [hn] at hn'
        cases hn'
        exact hb hb'.symm
    obtain ⟨hne, n, hn', hb⟩ := h.chained b k old.1
    exact ⟨hne, n, by simp only [Function.update_of_ne old.2]; exact hn', hb⟩
  · intro b
    by_cases hb : b = node.hash.toNat % t.mNumBuckets
    · subst hb
      simp only [Function.update_self]
      exact (h.chain_nodup _).erase i
    · simp only [Function.update_of_ne hb]
      exact h.chain_nodup b
  · intro k hk
    rcases List.mem_cons.mp hk with rfl | hk
    · exact ⟨Function.update_self .., hlt⟩
    · change k ∈ t.freeList at hk
      have hki : k ≠ i := fun heq => notfree (heq ▸ hk)
      simp only [Function.update_of_ne hki]
      exact h.free k hk
  · intro k hk
    change t.mNodeListSize ≤ k at hk
    simp only [Function.update_of_ne (show k ≠ i by omega)]
    exact h.beyond k hk
  · simp only [Function.update_of_ne hi.symm]
    exact h.zero
  · have erase : (Finset.range t.mNodeListSize).filter
        (fun k => (Function.update t.mNodeList i none k).isSome) =
        ((Finset.range t.mNodeListSize).filter (fun k => (t.mNodeList k).isSome)).erase i := by
      ext k
      by_cases hki : k = i
      · subst hki
        simp
      · simp [hki]
    simp only [erase]
    rw [Finset.card_erase_of_mem (by simp [hlt, hn]), h.count]

theorem compact (h : t.Wf) : t.compact.Wf where
  buckets_pos := h.buckets_pos
  chained := by
    intro b i hi
    obtain ⟨hne, node, hn, hb⟩ := h.chained b i hi
    refine ⟨hne, { node with stringData := cstr node.stringData ++ [0] }, ?_, hb⟩
    simp [StringTable.compact, hne, hn]
  chain_nodup := h.chain_nodup
  free := by
    intro i hi
    obtain ⟨hnone, hlt⟩ := h.free i hi
    refine ⟨?_, hlt⟩
    by_cases hzero : i = 0
    · subst hzero
      exact hnone
    · simp [StringTable.compact, hzero, hnone]
  free_nodup := h.free_nodup
  beyond := by
    intro i hi
    have hnone := h.beyond i hi
    by_cases hzero : i = 0
    · subst hzero
      exact hnone
    · simp [StringTable.compact, hzero, hnone]
  zero := h.zero
  count := by
    refine h.count.trans (congrArg Finset.card (Finset.filter_congr fun i _ => ?_))
    by_cases hi : i = 0 <;> simp [StringTable.compact, hi]

/-- The node of the empty string is never freed, so the table is never empty. -/
theorem mItemCount_pos (h : t.Wf) : 0 < t.mItemCount := by
  rw [h.count, Finset.card_pos]
  refine ⟨0, Finset.mem_filter.mpr ⟨Finset.mem_range.mpr ?_, h.zero⟩⟩
  by_contra hge
  have := h.zero
  rw [h.beyond 0 (by omega)] at this
  cases this

end Wf

theorem growNodeList_mNodeList : t.growNodeList.mNodeList = t.mNodeList := by
  rw [growNodeList]
  split_ifs <;> rfl

theorem content_setNode (node' : StringNode) :
    content { t with mNodeList := Function.update t.mNodeList index (some node') } =
      Function.update t.content index (some (cstr node'.stringData, node'.refCount)) := by
  funext i
  by_cases heq : i = index
  · subst heq
    simp [content]
  · simp [content, Function.update_of_ne heq]

theorem content_eq_some {str : List U8} {count : U16} (h : t.content index = some (str, count)) :
    ∃ node, t.mNodeList index = some node ∧ cstr node.stringData = str ∧ node.refCount = count := by
  obtain ⟨node, hn, heq⟩ := Option.map_eq_some_iff.mp h
  exact ⟨node, hn, congrArg Prod.fst heq, congrArg Prod.snd heq⟩

theorem incRef_content {str : List U8} {count : U16} (h : t.content index = some (str, count)) :
    (t.incRef index).content = Function.update t.content index (some (str, count + 1)) := by
  obtain ⟨node, hn, rfl, rfl⟩ := content_eq_some h
  rw [incRef, hn]
  exact content_setNode _

theorem cstr_append_zero (memory : List U8) : cstr (cstr memory ++ [0]) = cstr memory := by
  have nonzero : ∀ c ∈ cstr memory, decide (c ≠ 0) = true := fun c hc =>
    List.mem_takeWhile_imp (p := fun c => decide (c ≠ 0)) (l := memory) hc
  rw [cstr, List.takeWhile_append_of_pos nonzero]
  simp

theorem compact_content : t.compact.content = t.content := by
  funext i
  by_cases hi : i = 0
  · simp [content, compact, hi]
  · cases hn : t.mNodeList i with
    | none => simp [content, compact, hi, hn]
    | some node =>
      simp only [content, compact, if_neg hi, hn, Option.map_some, cstr_append_zero]

theorem content_removeNode (index : ℕ) :
    content { t with mNodeList := Function.update t.mNodeList index none } =
      Function.update t.content index none := by
  funext i
  by_cases heq : i = index
  · subst heq
    simp [content]
  · simp [content, Function.update_of_ne heq]

/-- Dropping one of several references. -/
theorem decRef_kept {str : List U8} {count : U16} (h : t.Wf)
    (hc : t.content index = some (str, count)) (more : count ≠ 1) :
    (t.decRef index).Wf ∧
      (t.decRef index).content = Function.update t.content index (some (str, count - 1)) := by
  obtain ⟨node, hn, rfl, rfl⟩ := content_eq_some hc
  have hne : node.refCount - 1 ≠ 0 := by
    intro hzero
    exact more (by bv_omega)
  simp only [decRef, hn, if_pos hne]
  exact ⟨h.setNode hn rfl, content_setNode _⟩

/-- Dropping the last reference frees the place. -/
theorem decRef_freed {str : List U8} (h : t.Wf) (hi : index ≠ 0)
    (hc : t.content index = some (str, 1)) :
    (t.decRef index).Wf ∧ (t.decRef index).content = Function.update t.content index none := by
  obtain ⟨node, hn, rfl, hcount⟩ := content_eq_some hc
  have hzero : ¬ node.refCount - 1 ≠ 0 := by rw [hcount]; decide
  simp only [decRef, hn, if_neg hzero, freeNode]
  have hwf := h.remove hi hn
  split_ifs with hcompact hempty hempty
  · have := (hwf (t.mFreeStringDataSize + node.stringLen.toNat + sizeofNode)).mItemCount_pos
    exact absurd hempty (Nat.pos_iff_ne_zero.mp this)
  · refine ⟨(hwf 0).compact, ?_⟩
    exact (compact_content (t := { t with
      mNodeList := Function.update t.mNodeList index none })).trans (content_removeNode index)
  · have := (hwf (t.mFreeStringDataSize + node.stringLen.toNat + sizeofNode)).mItemCount_pos
    exact absurd hempty (Nat.pos_iff_ne_zero.mp this)
  · exact ⟨hwf _, content_removeNode index⟩

theorem decRef_other {str : List U8} {count : U16} (h : t.Wf) (hi : index ≠ 0)
    (hc : t.content index = some (str, count)) (hne : i ≠ index) :
    (t.decRef index).content i = t.content i := by
  by_cases hone : count = 1
  · subst hone
    rw [(decRef_freed h hi hc).2, Function.update_of_ne hne]
  · rw [(decRef_kept h hc hone).2, Function.update_of_ne hne]

/-- A new node has a free place and one reference. -/
theorem addNode_spec (h : t.Wf) {key : U32} {val : List U8} {len j : ℕ}
    (hadd : t.addNode key val len = some (j, t')) :
    t'.Wf ∧ j ≠ 0 ∧ t.content j = none ∧
      t'.content = Function.update t.content j (some ((cstr val).take len, 1)) := by
  obtain ⟨hgrow, hne⟩ := h.growNodeList
  obtain ⟨i, rest, hfree⟩ := List.exists_cons_of_ne_nil hne
  have hcontent : t.growNodeList.content = t.content := by
    funext k
    rw [content, content, growNodeList_mNodeList]
  obtain ⟨hnone, -⟩ := hgrow.free i (by rw [hfree]; exact List.mem_cons_self)
  have hzero : i ≠ 0 := by
    rintro rfl
    have := hgrow.zero
    rw [hnone] at this
    cases this
  have hwf := hgrow.place hfree ⟨key, BitVec.ofNat 16 len, 1, copyString val len⟩
  simp only [addNode] at hadd
  split_ifs at hadd with hfit hresize
  all_goals
    simp only [hfree, List.headD_cons, List.tail_cons, Option.some.injEq, Prod.mk.injEq] at hadd
    obtain ⟨rfl, rfl⟩ := hadd
    refine ⟨?_, hzero, ?_, ?_⟩
  · exact hwf.resizeHashTable (by have := hgrow.buckets_pos; change 0 < 4 * _ - 1; omega)
      hwf.flatMap_nodup
  · rw [← hcontent, content, hnone]
    rfl
  · rw [← hcontent, ← cstr_copyString]
    exact content_setNode _
  · exact hwf
  · rw [← hcontent, content, hnone]
    rfl
  · rw [← hcontent, ← cstr_copyString]
    exact content_setNode _

theorem cstr_length_le {data : List U8} {len : ℕ} {b : U8} (h : data.getD len b = 0) :
    (cstr data).length ≤ len := by
  by_contra hlt
  have hlen : len < (cstr data).length := by omega
  have hpre : cstr data <+: data := List.takeWhile_prefix _
  have hdata : len < data.length := hlen.trans_le hpre.length_le
  have nonzero := List.mem_takeWhile_imp (p := fun c => decide (c ≠ 0)) (l := data)
    (List.getElem_mem hlen)
  rw [List.getD_eq_getElem _ _ hdata, ← hpre.getElem hlen] at h
  simp [h] at nonzero

theorem sameString_of_sameStringn {caseSens : Bool} {data val : List U8} {len : ℕ} {b : U8}
    (same : sameStringn caseSens data val len) (closed : data.getD len b = 0) :
    sameString caseSens (cstr data) ((cstr val).take len) := by
  rw [sameStringn, List.take_of_length_le (cstr_length_le closed)] at same
  exact same

theorem sameString_refl (caseSens : Bool) (str : List U8) : sameString caseSens str str := by
  cases caseSens <;> simp [sameString]

/-- An insertion returns the place of the string, where it has one more reference. -/
theorem insertn_spec (h : t.Wf) {sgToLowerTable : U8 → U8} {beyond : ℕ → U8}
    {val : Option (List U8)} {len j : ℕ} {caseSens : Bool}
    (hins : insertn sgToLowerTable t beyond val len caseSens = some (j, t')) :
    (j = 0 ∧ t' = t ∧ (val.elim [] cstr).take len = []) ∨
    (j ≠ 0 ∧ t'.Wf ∧ ∃ str count, sameString caseSens str ((val.elim [] cstr).take len) ∧
      t'.content = Function.update t.content j (some (str, count + 1)) ∧
      (t.content j = none ∧ count = 0 ∨ t.content j = some (str, count) ∧
        val.bind (fun val => lookupn sgToLowerTable t beyond val len caseSens) = some j)) := by
  cases val with
  | none =>
    cases hins
    exact .inl ⟨rfl, rfl, by simp⟩
  | some val =>
    simp only [insertn] at hins
    split_ifs at hins with hempty
    · cases hins
      refine .inl ⟨rfl, rfl, ?_⟩
      rcases hempty with hval | rfl
      · simp [hval]
      · simp
    · refine .inr ?_
      cases hfind : lookupn sgToLowerTable t beyond val len caseSens with
      | none =>
        rw [hfind] at hins
        obtain ⟨hwf, hj, hnone, hcontent⟩ := addNode_spec h hins
        exact ⟨hj, hwf, _, 0, sameString_refl _ _, hcontent, .inl ⟨hnone, rfl⟩⟩
      | some walk =>
        rw [hfind] at hins
        cases hins
        obtain ⟨hj, node, hn, -⟩ := h.chained _ _ (List.mem_of_find?_eq_some hfind)
        have found := List.find?_some hfind
        rw [hn] at found
        obtain ⟨same, closed⟩ := of_decide_eq_true found
        have hcontent : t.content j = some (cstr node.stringData, node.refCount) := by
          simp [content, hn]
        exact ⟨hj, h.incRef j, _, _, sameString_of_sameStringn same closed,
          incRef_content hcontent, .inr ⟨hcontent, hfind⟩⟩

end StringTable

end TNL
