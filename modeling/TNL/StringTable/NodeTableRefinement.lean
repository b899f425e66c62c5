import TNL.StringTable.NodeTable

/-!
# The table in memory and the table of lists

What each operation on nodes and links does to the lists they form is what the
operation on lists of `StringTable` does. Searches and the loops of the resizing
end, and no pointer they follow is invalid.
-/
namespace TNL.NodeTable
open Library
open StringTable (initialHashTableSize initialNodeListSize compactThreshold sizeofNode chunkSize
  copyString)

/-- A node without its place. -/
def Node.content (node : Node) : StringNode :=
  ⟨node.hash, node.stringLen, node.refCount, node.stringData⟩

/-- The nodes, the free list and the chains are those of the table of lists. -/
structure Represents (t : NodeTable) (st : StringTable) : Prop where
  node : ∀ i node, t.mNodeList i = .node node →
    node.masterIndex = i ∧ st.mNodeList i = some node.content
  word : ∀ i w, t.mNodeList i = .word w → st.mNodeList i = none
  freed : ∀ i, t.mNodeList i = .freed → i = 0
  size : t.mNodeListSize = st.mNodeListSize
  buckets : t.mBuckets.isSome
  numBuckets : t.mNumBuckets = st.mNumBuckets
  itemCount : t.mItemCount = st.mItemCount
  freeStringDataSize : t.mFreeStringDataSize = st.mFreeStringDataSize
  free : Chain t.nextFree (freePtr t.mNodeListFreeEntry) st.freeList none
  chain : ∀ b < t.mNumBuckets, Chain t.next (t.first b) (st.mBuckets b) none

variable {t t' : NodeTable} {st : StringTable} {i j b index walk head fuel newSize : ℕ} {node : Node}
  {l l' : List ℕ}

section access

theorem ptr_eq_some : ptr i = some j ↔ i = j ∧ j ≠ 0 := by
  rw [ptr]
  split <;> grind

theorem ptr_of_ne (h : i ≠ 0) : ptr i = some i := if_neg h

theorem ptr_eq_none : ptr i = none ↔ i = 0 := by
  rw [ptr]
  split <;> simp [*]

@[simp] theorem freePtr_freeEntry (i : ℕ) : freePtr (freeEntry i) = some i := by
  rw [freePtr, freeEntry, if_neg (by omega), Option.some.injEq]
  omega

theorem freePtr_eq_none {w : ℕ} : freePtr w = none ↔ w = 0 := by
  rw [freePtr]
  split <;> simp [*]

theorem freePtr_eq_some {w : ℕ} (h : freePtr w = some i) : w / 2 = i := by
  rw [freePtr] at h
  split at h
  · cases h
  · exact Option.some.inj h

theorem node?_eq_some : t.node? i = some node ↔ t.mNodeList i = .node node := by
  rw [node?]
  split <;> simp_all

theorem next_of_node (h : t.mNodeList i = .node node) : t.next i = ptr node.nextIndex := by
  rw [next, node?_eq_some.mpr h, Option.bind_some]

theorem node?_setNode (h : j ≠ i) : (t.setNode i node).node? j = t.node? j := by
  rw [node?, setNode]
  dsimp only
  rw [Function.update_of_ne h]
  rfl

theorem node?_setNode_self : (t.setNode i node).node? i = some node := by
  rw [node?, setNode]
  dsimp only
  rw [Function.update_self]

theorem next_setNode : (t.setNode i node).next = Function.update t.next i (ptr node.nextIndex) := by
  funext j
  by_cases h : j = i
  · subst h
    rw [Function.update_self, next, node?_setNode_self, Option.bind_some]
  · rw [Function.update_of_ne h, next, node?_setNode h, next]

theorem nextFree_setNode : (t.setNode i node).nextFree = Function.update t.nextFree i none := by
  funext j
  rw [nextFree, setNode]
  dsimp only
  by_cases h : j = i
  · subst h
    rw [Function.update_self, Function.update_self]
  · rw [Function.update_of_ne h, Function.update_of_ne h]
    rfl

theorem setNextIndex_eq (h : t.mNodeList i = .node node) (index : ℕ) :
    t.setNextIndex i index = t.setNode i { node with nextIndex := index } := by
  rw [setNextIndex, node?_eq_some.mpr h]

end access

namespace Represents

theorem exists_node (h : Represents t st) (hi : i ≠ 0) {sn : StringNode}
    (hn : st.mNodeList i = some sn) :
    ∃ node, t.mNodeList i = .node node ∧ node.masterIndex = i ∧ node.content = sn := by
  cases hslot : t.mNodeList i with
  | word w =>
    rw [h.word i w hslot] at hn
    cases hn
  | node node =>
    obtain ⟨hindex, hcontent⟩ := h.node i node hslot
    rw [hn] at hcontent
    exact ⟨node, rfl, hindex, (Option.some.inj hcontent).symm⟩
  | freed => exact absurd (h.freed i hslot) hi

theorem isNode (h : Represents t st) (hwf : st.Wf) (hi : i ∈ st.mBuckets b) :
    ∃ node, t.mNodeList i = .node node ∧ node.masterIndex = i ∧ i ≠ 0 ∧
      node.hash.toNat % st.mNumBuckets = b := by
  obtain ⟨hne, sn, hn, hb⟩ := hwf.chained b i hi
  obtain ⟨node, hslot, hindex, rfl⟩ := h.exists_node hne hn
  exact ⟨node, hslot, hindex, hne, hb⟩

theorem lt_size (hwf : st.Wf) (hi : i ∈ st.mBuckets b) : i < st.mNodeListSize := by
  obtain ⟨_, sn, hn, _⟩ := hwf.chained b i hi
  by_contra hge
  rw [hwf.beyond i (Nat.le_of_not_lt hge)] at hn
  cases hn

theorem length_le (hnodup : l.Nodup) (hlt : ∀ i ∈ l, i < index) : l.length ≤ index := by
  have hsub : l ⊆ List.range index := fun i hi => List.mem_range.mpr (hlt i hi)
  simpa using (List.subperm_of_subset hnodup hsub).length_le

/-- A search ends at the first node found, or behind the last one. -/
theorem walkTo_eq (h : Represents t st) (hwf : st.Wf) (hb : b < t.mNumBuckets)
    (found : ℕ → Node → Bool) :
    t.walkTo b found = some (ChainLink.behind ((st.mBuckets b).takeWhile fun i =>
        !(t.node? i).any (found i))) ∧
      (ChainLink.behind ((st.mBuckets b).takeWhile fun i => !(t.node? i).any (found i))).get t.next
        (t.first b) = (st.mBuckets b).find? fun i => (t.node? i).any (found i) := by
  have hchain := h.chain b hb
  have hlength : (st.mBuckets b).length < t.mNodeListSize + 1 := by
    have hle := length_le (hwf.chain_nodup b) fun i hi => lt_size hwf hi
    rw [h.size]
    omega
  have hexamine : ∀ i ∈ st.mBuckets b,
      (t.node? i).map (found i) = some ((t.node? i).any (found i)) := by
    intro i hi
    obtain ⟨node, hslot, _⟩ := h.isNode hwf hi
    rw [node?_eq_some.mpr hslot]
    rfl
  have hseek : seek t.next (t.first b) (fun i => (t.node? i).map (found i)) (t.mNodeListSize + 1)
      (ChainLink.behind []) = some (ChainLink.behind ([] ++ (st.mBuckets b).takeWhile fun i =>
        !(t.node? i).any (found i))) := seek_eq hchain hexamine hlength
  exact ⟨hseek, get_seek hchain⟩

end Represents

section relink

/-- A slot but for the link of its node. -/
def Slot.unlinked : Slot → Slot
  | .word w => .word w
  | .node node => .node { node with nextIndex := 0 }
  | .freed => .freed

/-- The tables differ in their links only. -/
structure Relinked (t t' : NodeTable) : Prop where
  slot : ∀ i, (t'.mNodeList i).unlinked = (t.mNodeList i).unlinked
  size : t'.mNodeListSize = t.mNodeListSize
  freeEntry : t'.mNodeListFreeEntry = t.mNodeListFreeEntry
  buckets : t'.mBuckets.isSome = t.mBuckets.isSome
  itemCount : t'.mItemCount = t.mItemCount
  freeStringDataSize : t'.mFreeStringDataSize = t.mFreeStringDataSize

namespace Relinked

theorem refl (t : NodeTable) : Relinked t t := ⟨fun _ => rfl, rfl, rfl, rfl, rfl, rfl⟩

theorem trans {t₁ t₂ t₃ : NodeTable} (h : Relinked t₁ t₂) (h' : Relinked t₂ t₃) :
    Relinked t₁ t₃ where
  slot i := (h'.slot i).trans (h.slot i)
  size := h'.size.trans h.size
  freeEntry := h'.freeEntry.trans h.freeEntry
  buckets := h'.buckets.trans h.buckets
  itemCount := h'.itemCount.trans h.itemCount
  freeStringDataSize := h'.freeStringDataSize.trans h.freeStringDataSize

theorem word_iff (h : Relinked t t') {w : ℕ} : t'.mNodeList i = .word w ↔ t.mNodeList i = .word w := by
  have hslot := h.slot i
  cases ht : t.mNodeList i <;> cases ht' : t'.mNodeList i <;> simp_all [Slot.unlinked]

theorem freed_iff (h : Relinked t t') : t'.mNodeList i = .freed ↔ t.mNodeList i = .freed := by
  have hslot := h.slot i
  cases ht : t.mNodeList i <;> cases ht' : t'.mNodeList i <;> simp_all [Slot.unlinked]

theorem exists_node (h : Relinked t t') (hnode : t.mNodeList i = .node node) :
    ∃ node', t'.mNodeList i = .node node' ∧ node'.masterIndex = node.masterIndex ∧
      node'.content = node.content := by
  have hslot := h.slot i
  rw [hnode] at hslot
  cases ht' : t'.mNodeList i with
  | word w => rw [ht'] at hslot; cases hslot
  | freed => rw [ht'] at hslot; cases hslot
  | node node' =>
    rw [ht', Slot.unlinked, Slot.unlinked, Slot.node.injEq, Node.mk.injEq] at hslot
    obtain ⟨hindex, -, hhash, hlen, hcount, hdata⟩ := hslot
    exact ⟨node', rfl, hindex, by rw [Node.content, Node.content, hhash, hlen, hcount, hdata]⟩

theorem symm (h : Relinked t t') : Relinked t' t :=
  ⟨fun i => (h.slot i).symm, h.size.symm, h.freeEntry.symm, h.buckets.symm, h.itemCount.symm,
    h.freeStringDataSize.symm⟩

theorem nextFree (h : Relinked t t') : t'.nextFree = t.nextFree := by
  funext i
  have hslot := h.slot i
  rw [NodeTable.nextFree, NodeTable.nextFree]
  cases ht : t.mNodeList i <;> cases ht' : t'.mNodeList i <;> simp_all [Slot.unlinked]

end Relinked

/-- New chains through the same nodes. -/
theorem Represents.relink (h : Represents t st) (hlinks : Relinked t t') {chains : ℕ → List ℕ}
    (hchain : ∀ b < t'.mNumBuckets, Chain t'.next (t'.first b) (chains b) none) :
    Represents t' { st with mBuckets := chains, mNumBuckets := t'.mNumBuckets } where
  node i node' hnode := by
    obtain ⟨node, hslot, hindex, hcontent⟩ := hlinks.symm.exists_node hnode
    obtain ⟨hplace, hst⟩ := h.node i node hslot
    exact ⟨hindex.symm.trans hplace, hcontent ▸ hst⟩
  word i w hw := h.word i w (hlinks.word_iff.mp hw)
  freed i hi := h.freed i (hlinks.freed_iff.mp hi)
  size := hlinks.size.trans h.size
  buckets := hlinks.buckets.trans h.buckets
  numBuckets := rfl
  itemCount := hlinks.itemCount.trans h.itemCount
  freeStringDataSize := hlinks.freeStringDataSize.trans h.freeStringDataSize
  free := by
    rw [hlinks.nextFree, hlinks.freeEntry]
    exact h.free
  chain := hchain

theorem setNextIndex_relinked (hnode : t.mNodeList i = .node node) (index : ℕ) :
    Relinked t (t.setNextIndex i index) := by
  rw [setNextIndex_eq hnode]
  refine ⟨fun j => ?_, rfl, rfl, rfl, rfl, rfl⟩
  rw [setNode]
  dsimp only
  by_cases hj : j = i
  · subst hj
    rw [Function.update_self, hnode]
    rfl
  · rw [Function.update_of_ne hj]

theorem next_setNextIndex (hnode : t.mNodeList i = .node node) (index : ℕ) :
    (t.setNextIndex i index).next = Function.update t.next i (ptr index) := by
  rw [setNextIndex_eq hnode, next_setNode]

theorem first_setNextIndex (i index b : ℕ) : (t.setNextIndex i index).first b = t.first b := by
  rw [setNextIndex]
  split <;> rfl

theorem setNextIndex_numBuckets (i index : ℕ) :
    (t.setNextIndex i index).mNumBuckets = t.mNumBuckets := by
  rw [setNextIndex]
  split <;> rfl

/-- A link into a chain: the head, or the link of a node. -/
def IsLink (t : NodeTable) : ChainLink → Prop
  | .head => True
  | .next i => ∃ node, t.mNodeList i = .node node

theorem isLink_behind (hl : ∀ i ∈ l, ∃ node, t.mNodeList i = .node node) :
    t.IsLink (ChainLink.behind l) := by
  rcases List.eq_nil_or_concat l with rfl | ⟨l, i, rfl⟩
  · trivial
  · rw [List.concat_eq_append] at hl ⊢
    rw [ChainLink.behind_concat]
    exact hl i (by simp)

theorem setLink_relinked {walk : ChainLink} (hwalk : t.IsLink walk) (bucket index : ℕ) :
    Relinked t (t.setLink bucket walk index) := by
  cases walk with
  | head => exact ⟨fun _ => rfl, rfl, rfl, Option.isSome_map .., rfl, rfl⟩
  | next i =>
    obtain ⟨node, hnode⟩ := hwalk
    exact setNextIndex_relinked hnode index

theorem next_setLink {walk : ChainLink} (hwalk : t.IsLink walk) (bucket index : ℕ) :
    (t.setLink bucket walk index).next = walk.setNext t.next (ptr index) := by
  cases walk with
  | head => rfl
  | next i =>
    obtain ⟨node, hnode⟩ := hwalk
    exact next_setNextIndex hnode index

theorem first_setLink (hbuckets : t.mBuckets.isSome) (walk : ChainLink) (bucket index : ℕ) :
    (t.setLink bucket walk index).first b =
      if b = bucket then walk.setHead (t.first bucket) (ptr index) else t.first b := by
  obtain ⟨buckets, hsome⟩ := Option.isSome_iff_exists.mp hbuckets
  cases walk with
  | head =>
    rw [setLink, first, first, first, hsome]
    by_cases hb : b = bucket
    · simp [hb, ChainLink.setHead]
    · simp [hb]
  | next i =>
    rw [setLink, first_setNextIndex]
    split
    · rename_i hb
      rw [hb]
      rfl
    · rfl

theorem setLink_numBuckets (bucket : ℕ) (walk : ChainLink) (index : ℕ) :
    (t.setLink bucket walk index).mNumBuckets = t.mNumBuckets := by
  cases walk with
  | head => rfl
  | next i => exact setNextIndex_numBuckets i index

end relink

section places

theorem freePlaces_word (high i : ℕ) : ∃ w, freePlaces high i = .word w := by
  rw [freePlaces]
  split
  · exact ⟨_, rfl⟩
  · exact ⟨_, rfl⟩

/-- The free places of a stretch of the node list are linked in their order. -/
theorem chain_freePlaces {low n : ℕ} (hplaces : ∀ i, low ≤ i → i < low + n + 1 →
    t.mNodeList i = freePlaces (low + n + 1) i) :
    Chain t.nextFree (some low) (List.range' low (n + 1)) none := by
  refine Chain.range' (fun k hk => ?_) ?_
  · rw [nextFree, hplaces _ (by omega) (by omega), freePlaces, if_pos (by omega)]
    exact freePtr_freeEntry _
  · rw [nextFree, hplaces _ (by omega) (by omega), freePlaces, if_neg (by omega)]
    rfl

theorem represents_init : Represents init StringTable.init where
  node i node hnode := by
    rw [init] at hnode
    dsimp only at hnode
    split at hnode
    · rename_i hi
      obtain rfl := Slot.node.inj hnode
      exact ⟨hi.symm, if_pos hi⟩
    · obtain ⟨w, hw⟩ := freePlaces_word initialNodeListSize i
      rw [hw] at hnode
      cases hnode
  word i w hw := by
    rw [init] at hw
    dsimp only at hw
    split at hw
    · cases hw
    · rename_i hi
      exact if_neg hi
  freed i hi := by
    rw [init] at hi
    dsimp only at hi
    split at hi
    · cases hi
    · obtain ⟨w, hw⟩ := freePlaces_word initialNodeListSize i
      rw [hw] at hi
      cases hi
  size := rfl
  buckets := rfl
  numBuckets := rfl
  itemCount := rfl
  freeStringDataSize := rfl
  free := by
    rw [show init.mNodeListFreeEntry = freeEntry 1 from rfl, freePtr_freeEntry]
    exact chain_freePlaces (n := 2046) fun i hi _ => if_neg (by omega)
  chain b _ := rfl

/-- A slot that no node of the list table belongs to is free. -/
theorem Represents.exists_word (h : Represents t st) (hi : i ≠ 0) (hnone : st.mNodeList i = none) :
    ∃ w, t.mNodeList i = .word w := by
  cases hslot : t.mNodeList i with
  | word w => exact ⟨w, rfl⟩
  | node node =>
    rw [(h.node i node hslot).2] at hnone
    cases hnone
  | freed => exact absurd (h.freed i hslot) hi

theorem Represents.growNodeList (h : Represents t st) (hwf : st.Wf) :
    Represents t.growNodeList st.growNodeList := by
  have hentry : t.mNodeListFreeEntry = 0 ↔ st.freeList = [] := by
    rw [← freePtr_eq_none, h.free.head_eq, List.head?_eq_none_iff]
  have hzero : 0 < st.mNodeListSize := by
    by_contra hle
    have hsome := hwf.zero
    rw [hwf.beyond 0 (by omega)] at hsome
    cases hsome
  by_cases hfull : t.mNodeListFreeEntry = 0
  · rw [NodeTable.growNodeList, if_pos hfull, StringTable.growNodeList, if_pos (hentry.mp hfull)]
    dsimp only
    rw [h.size]
    have hnode : ∀ i node, (if i < st.mNodeListSize then t.mNodeList i
        else freePlaces (st.mNodeListSize + initialNodeListSize) i) = .node node →
        t.mNodeList i = .node node := by
      intro i node hnode
      split at hnode
      · exact hnode
      · obtain ⟨w, hw⟩ := freePlaces_word (st.mNodeListSize + initialNodeListSize) i
        rw [hw] at hnode
        cases hnode
    have hnext : ∀ b < t.mNumBuckets, ∀ i ∈ st.mBuckets b, i < st.mNodeListSize :=
      fun b _ i hi => lt_size hwf hi
    constructor
    · exact fun i node hi => h.node i node (hnode i node hi)
    · intro i w hw
      dsimp only at hw ⊢
      split at hw
      · exact h.word i w hw
      · exact hwf.beyond i (by omega)
    · intro i hi
      dsimp only at hi
      split at hi
      · exact h.freed i hi
      · obtain ⟨w, hw⟩ := freePlaces_word (st.mNodeListSize + initialNodeListSize) i
        rw [hw] at hi
        cases hi
    · rfl
    · exact h.buckets
    · exact h.numBuckets
    · exact h.itemCount
    · exact h.freeStringDataSize
    · rw [freePtr_freeEntry]
      exact chain_freePlaces (n := 2047) fun i hi _ => if_neg (by omega)
    · intro b hb
      refine (h.chain b hb).congr fun i hi => ?_
      rw [next, next, node?, node?]
      dsimp only
      rw [if_pos (hnext b hb i hi)]
  · rw [NodeTable.growNodeList, if_neg hfull, StringTable.growNodeList,
      if_neg (mt hentry.mpr hfull)]
    exact h

/-- Changing a node that stays in its place and keeps its link. -/
theorem Represents.setNode (h : Represents t st) (hslot : t.mNodeList i = .node node)
    (node' : Node) (hindex : node'.masterIndex = node.masterIndex)
    (hlink : node'.nextIndex = node.nextIndex) : Represents (t.setNode i node')
      { st with mNodeList := Function.update st.mNodeList i (some node'.content) } := by
  have hother : ∀ j, j ≠ i → (t.setNode i node').mNodeList j = t.mNodeList j :=
    fun j hj => Function.update_of_ne hj ..
  have hself : (t.setNode i node').mNodeList i = .node node' := Function.update_self ..
  constructor
  · intro j n hn
    by_cases hj : j = i
    · subst hj
      obtain rfl := Slot.node.inj (hself.symm.trans hn)
      exact ⟨hindex.trans (h.node j node hslot).1, Function.update_self ..⟩
    · rw [hother j hj] at hn
      dsimp only
      rw [Function.update_of_ne hj]
      exact h.node j n hn
  · intro j w hw
    have hj : j ≠ i := by
      rintro rfl
      rw [hself] at hw
      cases hw
    rw [hother j hj] at hw
    dsimp only
    rw [Function.update_of_ne hj]
    exact h.word j w hw
  · intro j hfreed
    have hj : j ≠ i := by
      rintro rfl
      rw [hself] at hfreed
      cases hfreed
    rw [hother j hj] at hfreed
    exact h.freed j hfreed
  · exact h.size
  · exact h.buckets
  · exact h.numBuckets
  · exact h.itemCount
  · exact h.freeStringDataSize
  · have hnone : t.nextFree i = none := by rw [nextFree, hslot]
    have hsame : (t.setNode i node').nextFree = t.nextFree := by
      rw [nextFree_setNode, ← hnone, Function.update_eq_self]
    rw [hsame]
    exact h.free
  · intro b hb
    have hsame : t.next i = ptr node'.nextIndex := by rw [next_of_node hslot, hlink]
    rw [next_setNode, ← hsame, Function.update_eq_self]
    exact h.chain b hb

end places

section resize

/-- Taking a chain off leaves its nodes in reverse in front of the others. -/
theorem reverseChain_eq (hwalk : Chain t.next (ptr walk) l none)
    (hhead : Chain t.next (ptr head) l' none) (hdisjoint : ∀ i ∈ l, i ∉ l')
    (hnodes : ∀ i ∈ l, ∃ node, t.mNodeList i = .node node) (hfuel : l.length < fuel) :
    ∃ t' head', reverseChain fuel t walk head = some (t', head') ∧ Relinked t t' ∧
      t'.mBuckets = t.mBuckets ∧ t'.mNumBuckets = t.mNumBuckets ∧
      Chain t'.next (ptr head') (l.reverse ++ l') none ∧ ∀ i, i ∉ l → t'.next i = t.next i := by
  induction l generalizing t walk head l' fuel with
  | nil =>
    obtain ⟨fuel, rfl⟩ := Nat.exists_eq_succ_of_ne_zero (by omega : fuel ≠ 0)
    have hzero : walk = 0 := ptr_eq_none.mp hwalk
    refine ⟨t, head, ?_, .refl t, rfl, rfl, hhead, fun _ _ => rfl⟩
    rw [reverseChain, if_pos hzero]
  | cons i l ih =>
    obtain ⟨fuel, rfl⟩ := Nat.exists_eq_succ_of_ne_zero (by omega : fuel ≠ 0)
    have hnodup := hwalk.nodup
    obtain ⟨hi, hl⟩ := hwalk
    obtain ⟨rfl, hne⟩ := ptr_eq_some.mp hi
    obtain ⟨node, hnode⟩ := hnodes walk List.mem_cons_self
    obtain ⟨hnot, _⟩ := List.nodup_cons.mp hnodup
    have hnot' := hdisjoint walk List.mem_cons_self
    have hlinks := setNextIndex_relinked hnode head
    have hnext := next_setNextIndex hnode head
    rw [next_of_node hnode] at hl
    have hrest : Chain (t.setNextIndex walk head).next (ptr node.nextIndex) l none := by
      rw [hnext]
      exact hl.update hnot _
    have hfirst : Chain (t.setNextIndex walk head).next (ptr walk) (walk :: l') none := by
      rw [hnext]
      refine ⟨ptr_of_ne hne, ?_⟩
      rw [Function.update_self]
      exact hhead.update hnot' _
    have hapart : ∀ j ∈ l, j ∉ walk :: l' := by
      intro j hj hmem
      rcases List.mem_cons.mp hmem with rfl | hmem
      · exact hnot hj
      · exact hdisjoint j (List.mem_cons_of_mem _ hj) hmem
    have hnodes' : ∀ j ∈ l, ∃ node, (t.setNextIndex walk head).mNodeList j = .node node := by
      intro j hj
      obtain ⟨n, hn⟩ := hnodes j (List.mem_cons_of_mem _ hj)
      obtain ⟨n', hn', _⟩ := hlinks.exists_node hn
      exact ⟨n', hn'⟩
    obtain ⟨t', head', heq, hlinks', hbuckets, hnum, hchain, hsame⟩ :=
      ih hrest hfirst hapart hnodes' (Nat.lt_of_succ_lt_succ hfuel)
    refine ⟨t', head', ?_, hlinks.trans hlinks', ?_, ?_, ?_, fun j hj => ?_⟩
    · rw [reverseChain, if_neg hne, node?_eq_some.mpr hnode]
      exact heq
    · rw [hbuckets, setNextIndex_eq hnode]
      rfl
    · rw [hnum, setNextIndex_numBuckets]
    · rw [List.reverse_cons, List.append_assoc]
      exact hchain
    · rw [List.mem_cons, not_or] at hj
      obtain ⟨hji, hjl⟩ := hj
      rw [hsame j hjl, hnext, Function.update_of_ne hji]

/-- Taking the chains of several buckets off. -/
theorem reverseBuckets_eq {buckets : ℕ → ℕ} {chains : ℕ → List ℕ} (bs : List ℕ)
    (hchains : ∀ b ∈ bs, Chain t.next (ptr (buckets b)) (chains b) none)
    (hhead : Chain t.next (ptr head) l none) (hnodup : (bs.flatMap chains ++ l).Nodup)
    (hnodes : ∀ i ∈ bs.flatMap chains, ∃ node, t.mNodeList i = .node node)
    (hlt : ∀ b ∈ bs, (chains b).length < t.mNodeListSize + 1) :
    ∃ t' head', bs.foldlM (fun (x : NodeTable × ℕ) i =>
        reverseChain (x.1.mNodeListSize + 1) x.1 (buckets i) x.2) (t, head) = some (t', head') ∧
      Relinked t t' ∧ t'.mBuckets = t.mBuckets ∧ t'.mNumBuckets = t.mNumBuckets ∧
      Chain t'.next (ptr head') ((bs.flatMap chains).reverse ++ l) none := by
  induction bs generalizing t head l with
  | nil => exact ⟨t, head, rfl, .refl t, rfl, rfl, hhead⟩
  | cons b bs ih =>
    rw [List.flatMap_cons, List.append_assoc] at hnodup
    obtain ⟨_, hrest, hapart⟩ := List.nodup_append.mp hnodup
    have hdisjoint : ∀ i ∈ chains b, i ∉ bs.flatMap chains ++ l := fun i hi hmem =>
      hapart i hi i hmem rfl
    obtain ⟨t₁, head₁, heq, hlinks, hbuckets, hnum, hchain, hsame⟩ :=
      reverseChain_eq (hchains b List.mem_cons_self) hhead
        (fun i hi hmem => hdisjoint i hi (List.mem_append_right _ hmem))
        (fun i hi => hnodes i (by rw [List.flatMap_cons]; exact List.mem_append_left _ hi))
        (hlt b List.mem_cons_self)
    have hchains' : ∀ c ∈ bs, Chain t₁.next (ptr (buckets c)) (chains c) none := by
      intro c hc
      refine (hchains c (List.mem_cons_of_mem b hc)).congr fun i hi => hsame i fun hib => ?_
      exact hdisjoint i hib (List.mem_append_left _ (List.mem_flatMap.mpr ⟨c, hc, hi⟩))
    have hnodup' : (bs.flatMap chains ++ ((chains b).reverse ++ l)).Nodup := by
      refine (List.Perm.nodup_iff ?_).mp hnodup
      rw [← List.append_assoc, ← List.append_assoc]
      exact (List.perm_append_comm.trans ((List.reverse_perm _).symm.append_left _)).append_right l
    have hnodes' : ∀ i ∈ bs.flatMap chains, ∃ node, t₁.mNodeList i = .node node := by
      intro i hi
      obtain ⟨n, hn⟩ := hnodes i (by rw [List.flatMap_cons]; exact List.mem_append_right _ hi)
      obtain ⟨n', hn', _⟩ := hlinks.exists_node hn
      exact ⟨n', hn'⟩
    have hlt' : ∀ c ∈ bs, (chains c).length < t₁.mNodeListSize + 1 := by
      intro c hc
      rw [hlinks.size]
      exact hlt c (List.mem_cons_of_mem b hc)
    obtain ⟨t', head', heq', hlinks', hbuckets', hnum', hchain'⟩ :=
      ih hchains' hchain hnodup' hnodes' hlt'
    refine ⟨t', head', ?_, hlinks.trans hlinks', hbuckets'.trans hbuckets, hnum'.trans hnum, ?_⟩
    · rw [List.foldlM_cons]
      dsimp only
      rw [heq]
      exact heq'
    · rw [List.flatMap_cons, List.reverse_append, List.append_assoc]
      exact hchain'

/-- The bucket of the node at an index. -/
def bucketOf (st : StringTable) (newSize i : ℕ) (b : ℕ) : Bool :=
  (st.mNodeList i).any (fun node => node.hash.toNat % newSize = b)

/-- Taking the nodes off and adding each to the front of its bucket. -/
theorem spread_eq (hwalk : Chain t.next (ptr walk) l none) {chains : ℕ → List ℕ}
    (hchains : ∀ b < newSize, Chain t.next (t.first b) (chains b) none)
    (hdisjoint : ∀ i ∈ l, ∀ b, i ∉ chains b)
    (hnodes : ∀ i ∈ l, ∃ node, t.mNodeList i = .node node ∧ node.masterIndex = i ∧
      st.mNodeList i = some node.content)
    (hbuckets : t.mBuckets.isSome) (hfuel : l.length < fuel) :
    ∃ t', spread newSize fuel t walk = some t' ∧ Relinked t t' ∧
      t'.mNumBuckets = t.mNumBuckets ∧ ∀ b < newSize, Chain t'.next (t'.first b)
        ((l.filter fun i => bucketOf st newSize i b).reverse ++ chains b) none := by
  induction l generalizing t walk chains fuel with
  | nil =>
    obtain ⟨fuel, rfl⟩ := Nat.exists_eq_succ_of_ne_zero (by omega : fuel ≠ 0)
    have hzero : walk = 0 := ptr_eq_none.mp hwalk
    refine ⟨t, ?_, .refl t, rfl, hchains⟩
    rw [spread, if_pos hzero]
  | cons i l ih =>
    obtain ⟨fuel, rfl⟩ := Nat.exists_eq_succ_of_ne_zero (by omega : fuel ≠ 0)
    have hnodup := hwalk.nodup
    obtain ⟨hi, hl⟩ := hwalk
    obtain ⟨rfl, hne⟩ := ptr_eq_some.mp hi
    obtain ⟨hnot, _⟩ := List.nodup_cons.mp hnodup
    obtain ⟨node, hnode, hindex, hcontent⟩ := hnodes walk List.mem_cons_self
    obtain ⟨buckets, hsome⟩ := Option.isSome_iff_exists.mp hbuckets
    rw [next_of_node hnode] at hl
    set c := node.hash.toNat % newSize with hc
    set t₁ : NodeTable := { t.setNextIndex walk (buckets c) with
      mBuckets := some (Function.update buckets c node.masterIndex) } with ht₁
    have hlinks : Relinked t t₁ := by
      have hset := setNextIndex_relinked hnode (buckets c)
      exact ⟨hset.slot, hset.size, hset.freeEntry, by rw [hsome]; rfl, hset.itemCount,
        hset.freeStringDataSize⟩
    have hnext : t₁.next = Function.update t.next walk (ptr (buckets c)) :=
      next_setNextIndex hnode (buckets c)
    have hfirst : ∀ b, t₁.first b = if b = c then some walk else t.first b := by
      intro b
      rw [first, first, hsome, ht₁]
      by_cases hb : b = c
      · simp [hb, hindex, ptr_of_ne hne]
      · simp [hb]
    have hchains' : ∀ b < newSize, Chain t₁.next (t₁.first b)
        (if b = c then walk :: chains b else chains b) none := by
      intro b hb
      have hold := (hchains b hb).update (hdisjoint walk List.mem_cons_self b) (ptr (buckets c))
      rw [hfirst, hnext]
      split
      · rename_i hbc
        refine ⟨rfl, ?_⟩
        rw [Function.update_self]
        rw [first, hsome, hbc] at hold
        exact hbc ▸ hold
      · exact hold
    have hrest : Chain t₁.next (ptr node.nextIndex) l none := by
      rw [hnext]
      exact hl.update hnot _
    have hapart : ∀ j ∈ l, ∀ b, j ∉ if b = c then walk :: chains b else chains b := by
      intro j hj b
      have hold := hdisjoint j (List.mem_cons_of_mem walk hj) b
      split
      · rw [List.mem_cons, not_or]
        refine ⟨?_, hold⟩
        rintro rfl
        exact hnot hj
      · exact hold
    have hnodes' : ∀ j ∈ l, ∃ node, t₁.mNodeList j = .node node ∧ node.masterIndex = j ∧
        st.mNodeList j = some node.content := by
      intro j hj
      obtain ⟨n, hn, hplace, hst⟩ := hnodes j (List.mem_cons_of_mem walk hj)
      obtain ⟨n', hn', hplace', hsame⟩ := hlinks.exists_node hn
      exact ⟨n', hn', hplace'.trans hplace, hsame ▸ hst⟩
    obtain ⟨t', heq, hlinks', hnum, hchain⟩ :=
      ih hrest hchains' hapart hnodes' rfl (Nat.lt_of_succ_lt_succ hfuel)
    refine ⟨t', ?_, hlinks.trans hlinks', ?_, fun b hb => ?_⟩
    · rw [spread, if_neg hne, node?_eq_some.mpr hnode, hsome]
      exact heq
    · rw [hnum]
      exact setNextIndex_numBuckets ..
    · have hbucket : bucketOf st newSize walk b = decide (b = c) := by
        rw [bucketOf, hcontent, Option.any_some, Node.content]
        exact decide_eq_decide.mpr eq_comm
      have hresult := hchain b hb
      by_cases hbc : b = c
      · rw [if_pos hbc] at hresult
        rw [List.filter_cons_of_pos (by rw [hbucket]; exact decide_eq_true hbc),
          List.reverse_cons, List.append_assoc]
        exact hresult
      · rw [if_neg hbc] at hresult
        rw [List.filter_cons_of_neg (by rw [hbucket]; simpa using hbc)]
        exact hresult

/-- More buckets. -/
theorem Represents.resizeHashTable (h : Represents t st) (hwf : st.Wf) (newSize : ℕ) :
    ∃ t', t.resizeHashTable newSize = some t' ∧ Represents t' (st.resizeHashTable newSize) := by
  obtain ⟨buckets, hbuckets⟩ := Option.isSome_iff_exists.mp h.buckets
  set nodes := (List.range st.mNumBuckets).flatMap st.mBuckets with hnodes
  have hchains : ∀ b ∈ List.range t.mNumBuckets,
      Chain t.next (ptr (buckets b)) (st.mBuckets b) none := by
    intro b hb
    have hchain := h.chain b (List.mem_range.mp hb)
    rwa [first, hbuckets, Option.bind_some] at hchain
  have hisNode : ∀ i ∈ nodes, ∃ node, t.mNodeList i = .node node ∧ node.masterIndex = i ∧
      st.mNodeList i = some node.content := by
    intro i hi
    obtain ⟨b, _, hib⟩ := List.mem_flatMap.mp hi
    obtain ⟨node, hslot, hindex, _⟩ := h.isNode hwf hib
    exact ⟨node, hslot, hindex, (h.node i node hslot).2⟩
  have hlt : ∀ b ∈ List.range t.mNumBuckets, (st.mBuckets b).length < t.mNodeListSize + 1 := by
    intro b _
    have hle := length_le (hwf.chain_nodup b) fun i hi => lt_size hwf hi
    rw [h.size]
    omega
  have hzero : Chain t.next (ptr 0) [] none := rfl
  rw [← h.numBuckets] at hnodes
  obtain ⟨t₁, head₁, heq₁, hlinks₁, hbuckets₁, hnum₁, hchain₁⟩ := reverseBuckets_eq _ hchains hzero
    (by rw [List.append_nil, ← hnodes, hnodes, h.numBuckets]; exact hwf.flatMap_nodup)
    (fun i hi => (hisNode i (hnodes ▸ hi)).imp fun _ hn => hn.1) hlt
  rw [List.append_nil, ← hnodes] at hchain₁
  set t₂ : NodeTable := { t₁ with mBuckets := some fun _ => 0, mNumBuckets := newSize } with ht₂
  have hlinks₂ : Relinked t t₂ := by
    refine ⟨hlinks₁.slot, hlinks₁.size, hlinks₁.freeEntry, ?_, hlinks₁.itemCount,
      hlinks₁.freeStringDataSize⟩
    rw [hbuckets]
    rfl
  have hisNode₂ : ∀ i ∈ nodes.reverse, ∃ node, t₂.mNodeList i = .node node ∧
      node.masterIndex = i ∧ st.mNodeList i = some node.content := by
    intro i hi
    obtain ⟨n, hn, hplace, hst⟩ := hisNode i (List.mem_reverse.mp hi)
    obtain ⟨n', hn', hplace', hsame⟩ := hlinks₂.exists_node hn
    exact ⟨n', hn', hplace'.trans hplace, hsame ▸ hst⟩
  have hempty : ∀ b < newSize, Chain t₂.next (t₂.first b) [] none := fun b _ => rfl
  have hfuel : nodes.reverse.length < t₁.mNodeListSize + 1 := by
    have hnodup : nodes.Nodup := by
      rw [hnodes, h.numBuckets]
      exact hwf.flatMap_nodup
    have hle : nodes.length ≤ st.mNodeListSize := length_le hnodup fun i hi => by
      obtain ⟨b, _, hib⟩ := List.mem_flatMap.mp hi
      exact lt_size hwf hib
    rw [List.length_reverse, hlinks₁.size, h.size]
    omega
  obtain ⟨t', heq', hlinks', hnum', hchain'⟩ := spread_eq (t := t₂) hchain₁ hempty
    (fun i _ b => List.not_mem_nil) hisNode₂ rfl hfuel
  refine ⟨t', ?_, ?_⟩
  · rw [NodeTable.resizeHashTable, hbuckets]
    dsimp only
    rw [heq₁]
    exact heq'
  · have hnum : t'.mNumBuckets = newSize := hnum'
    have hchains : ∀ b < t'.mNumBuckets, Chain t'.next (t'.first b)
        (nodes.filter fun i => bucketOf st newSize i b) none := by
      intro b hb
      have hchain := hchain' b (hnum ▸ hb)
      rwa [List.append_nil, List.filter_reverse, List.reverse_reverse] at hchain
    have hrelink := h.relink (hlinks₂.trans hlinks') hchains
    rw [hnum] at hrelink
    exact hrelink

end resize

section insertion

/-- The link after a part of the chain of a bucket. -/
theorem Represents.isLink (h : Represents t st) (hwf : st.Wf) (hl : ∀ i ∈ l, i ∈ st.mBuckets b) :
    t.IsLink (ChainLink.behind l) := by
  refine isLink_behind fun i hi => ?_
  obtain ⟨node, hslot, _⟩ := h.isNode hwf (hl i hi)
  exact ⟨node, hslot⟩

theorem growNodeList_same (t : NodeTable) : t.growNodeList.mBuckets = t.mBuckets ∧
    t.growNodeList.mNumBuckets = t.mNumBuckets := by
  rw [growNodeList]
  split <;> exact ⟨rfl, rfl⟩

theorem stringTable_growNodeList_same (st : StringTable) :
    st.growNodeList.mBuckets = st.mBuckets ∧ st.growNodeList.mNumBuckets = st.mNumBuckets := by
  rw [StringTable.growNodeList]
  split <;> exact ⟨rfl, rfl⟩

/-- A free place becomes a node at the end of its chain. -/
theorem Represents.place (h : Represents t st) (hwf : st.Wf) {key : U32} {w : ℕ} {rest : List ℕ}
    (hfree : st.freeList = i :: rest) (hslot : t.mNodeList i = .word w) (hne : i ≠ 0)
    (hkey : key.toNat % st.mNumBuckets = b) (hb : b < t.mNumBuckets) (len : U16) (data : List U8) :
    Represents
      { (t.setLink b (ChainLink.behind (st.mBuckets b)) i).setNode i ⟨i, 0, key, len, 1, data⟩ with
        mNodeListFreeEntry := w
        mItemCount := (t.setLink b (ChainLink.behind (st.mBuckets b)) i).mItemCount + 1 }
      { st with
        mNodeList := Function.update st.mNodeList i (some ⟨key, len, 1, data⟩)
        freeList := rest
        mBuckets := Function.update st.mBuckets b (st.mBuckets b ++ [i])
        mItemCount := st.mItemCount + 1 } := by
  have hwalk : t.IsLink (ChainLink.behind (st.mBuckets b)) := h.isLink hwf fun _ hi => hi
  have hlinks := setLink_relinked hwalk b i
  have hnone : st.mNodeList i = none := h.word i w hslot
  have hunchained : ∀ c, i ∉ st.mBuckets c := by
    intro c hi
    obtain ⟨_, sn, hsn, _⟩ := hwf.chained c i hi
    rw [hnone] at hsn
    cases hsn
  have hnext : ∀ j, j ≠ i → ((t.setLink b (ChainLink.behind (st.mBuckets b)) i).setNode i
      ⟨i, 0, key, len, 1, data⟩).next j = (ChainLink.behind (st.mBuckets b)).setNext t.next (ptr i) j := by
    intro j hj
    rw [next_setNode, Function.update_of_ne hj, next_setLink hwalk]
  have hself : ((t.setLink b (ChainLink.behind (st.mBuckets b)) i).setNode i
      ⟨i, 0, key, len, 1, data⟩).mNodeList i = .node ⟨i, 0, key, len, 1, data⟩ :=
    Function.update_self ..
  have hother : ∀ j, j ≠ i → ((t.setLink b (ChainLink.behind (st.mBuckets b)) i).setNode i
      ⟨i, 0, key, len, 1, data⟩).mNodeList j =
        (t.setLink b (ChainLink.behind (st.mBuckets b)) i).mNodeList j :=
    fun j hj => Function.update_of_ne hj ..
  constructor
  · intro j n hn
    by_cases hj : j = i
    · subst hj
      obtain rfl := Slot.node.inj (hself.symm.trans hn)
      exact ⟨rfl, Function.update_self ..⟩
    · obtain ⟨n', hn', hindex, hcontent⟩ := hlinks.symm.exists_node ((hother j hj).symm.trans hn)
      obtain ⟨hplace, hst⟩ := h.node j n' hn'
      dsimp only
      rw [Function.update_of_ne hj]
      exact ⟨hindex.symm.trans hplace, hcontent ▸ hst⟩
  · intro j w' hw
    have hj : j ≠ i := by
      rintro rfl
      cases hself.symm.trans hw
    dsimp only
    rw [Function.update_of_ne hj]
    exact h.word j w' (hlinks.word_iff.mp ((hother j hj).symm.trans hw))
  · intro j hfreed
    have hj : j ≠ i := by
      rintro rfl
      cases hself.symm.trans hfreed
    exact h.freed j (hlinks.freed_iff.mp ((hother j hj).symm.trans hfreed))
  · exact hlinks.size.trans h.size
  · exact hlinks.buckets.trans h.buckets
  · exact (setLink_numBuckets ..).trans h.numBuckets
  · exact congrArg (· + 1) (hlinks.itemCount.trans h.itemCount)
  · exact hlinks.freeStringDataSize.trans h.freeStringDataSize
  · have hchain := h.free
    rw [hfree] at hchain
    obtain ⟨_, hrest⟩ := hchain
    have hfreeNext : t.nextFree i = freePtr w := by rw [nextFree, hslot]
    have hnot : i ∉ rest := by
      have hnodup := hwf.free_nodup
      rw [hfree] at hnodup
      exact (List.nodup_cons.mp hnodup).1
    rw [hfreeNext] at hrest
    refine hrest.congr fun j hj => ?_
    have hji : j ≠ i := fun heq => hnot (heq ▸ hj)
    rw [← hlinks.nextFree, nextFree, nextFree]
    dsimp only
    rw [hother j hji]
  · intro c hc
    have hc' : c < t.mNumBuckets := (setLink_numBuckets b _ i (t := t)) ▸ hc
    have hfirst : (t.setLink b (ChainLink.behind (st.mBuckets b)) i).first c = _ :=
      first_setLink h.buckets _ b i
    change Chain ((t.setLink b (ChainLink.behind (st.mBuckets b)) i).setNode i
      ⟨i, 0, key, len, 1, data⟩).next ((t.setLink b (ChainLink.behind (st.mBuckets b)) i).first c) _ none
    rw [hfirst]
    by_cases hcb : c = b
    · subst hcb
      dsimp only
      rw [if_pos rfl, Function.update_self, ptr_of_ne hne]
      have hold : Chain t.next (t.first c) (st.mBuckets c ++ []) none := by
        rw [List.append_nil]
        exact h.chain c hc'
      refine Chain.append_iff.mpr ⟨some i, ?_, rfl, ?_⟩
      · refine (ChainLink.set_behind hold (some i)).congr fun j hj => ?_
        rw [← ptr_of_ne hne]
        exact hnext j fun heq => hunchained c (heq ▸ hj)
      · rw [next_setNode, Function.update_self]
        rfl
    · dsimp only
      rw [if_neg hcb, Function.update_of_ne hcb]
      refine (h.chain c hc').congr fun j hj => ?_
      rw [hnext j fun heq => hunchained c (heq ▸ hj)]
      refine ChainLink.setNext_of_notMem (fun hjb => hcb ?_) _
      obtain ⟨_, sn, hsn, hmod⟩ := hwf.chained c j hj
      obtain ⟨_, sn', hsn', hmod'⟩ := hwf.chained b j hjb
      obtain rfl := Option.some.inj (hsn.symm.trans hsn')
      exact hmod.symm.trans hmod'

/-- The first free place. -/
theorem Represents.first_free (h : Represents t st) (hwf : st.Wf) {rest : List ℕ}
    (hfree : st.freeList = i :: rest) : t.mNodeListFreeEntry / 2 = i ∧ i ≠ 0 ∧
      ∃ w, t.mNodeList i = .word w := by
  have hchain := h.free
  rw [hfree] at hchain
  have hnone := (hwf.free i (by rw [hfree]; exact List.mem_cons_self)).1
  have hne : i ≠ 0 := by
    rintro rfl
    have hsome := hwf.zero
    rw [hnone] at hsome
    cases hsome
  exact ⟨freePtr_eq_some hchain.1, hne, h.exists_word hne hnone⟩

/-- The check for a resizing after a node has been added. -/
theorem Represents.resizeIfFull (h : Represents t st) (hwf : st.Wf) (j : ℕ) :
    ∃ t', (if t.mItemCount > 2 * t.mNumBuckets then
        (t.resizeHashTable (4 * t.mNumBuckets - 1)).map (j, ·) else some (j, t)) = some (j, t') ∧
      Represents t' (if st.mItemCount > 2 * st.mNumBuckets then
        st.resizeHashTable (4 * st.mNumBuckets - 1) else st) := by
  rw [h.itemCount, h.numBuckets]
  split
  · obtain ⟨t', heq, hrep⟩ := h.resizeHashTable hwf (4 * st.mNumBuckets - 1)
    exact ⟨t', by rw [heq, Option.map_some], hrep⟩
  · exact ⟨t, rfl, h⟩

/-- Adding a node does in memory what it does to the lists. -/
theorem Represents.addNode (h : Represents t st) (hwf : st.Wf) {key : U32} {val : List U8} {len : ℕ}
    (hkey : key.toNat % st.mNumBuckets = b) :
    (st.addNode key val len = none ∧
      t.addNode b (ChainLink.behind (st.mBuckets b)) key val len = none) ∨
    ∃ j st' t', st.addNode key val len = some (j, st') ∧
      t.addNode b (ChainLink.behind (st.mBuckets b)) key val len = some (j, t') ∧
        Represents t' st' := by
  have hgrow := h.growNodeList hwf
  obtain ⟨hwfgrow, hnonempty⟩ := hwf.growNodeList
  obtain ⟨_, hsameNum⟩ := growNodeList_same t
  obtain ⟨hsameBuckets, hsameNum'⟩ := stringTable_growNodeList_same st
  have hb : b < t.mNumBuckets := by
    rw [h.numBuckets, ← hkey]
    exact Nat.mod_lt _ hwf.buckets_pos
  rw [StringTable.addNode, NodeTable.addNode]
  dsimp only
  split
  · exact .inl ⟨rfl, rfl⟩
  · obtain ⟨i, rest, hfree⟩ := List.exists_cons_of_ne_nil hnonempty
    obtain ⟨hentry, hne, w, hslot⟩ := hgrow.first_free hwfgrow hfree
    have hkey' : key.toNat % st.growNodeList.mNumBuckets = b := by rw [hsameNum', hkey]
    have hplace := hgrow.place hwfgrow hfree hslot hne hkey' (hsameNum.symm ▸ hb)
      (BitVec.ofNat 16 len) (copyString val len)
    have hwfplace := hwfgrow.place hfree ⟨key, BitVec.ofNat 16 len, 1, copyString val len⟩
    have hslot' : (t.growNodeList.setLink b (ChainLink.behind (st.mBuckets b)) i).mNodeList i =
        .word w := by
      rw [← hsameBuckets]
      exact (setLink_relinked (hgrow.isLink hwfgrow fun _ hi => hi) b i).word_iff.mpr hslot
    rw [hkey'] at hwfplace
    rw [hfree, List.headD_cons, List.tail_cons, hentry, hslot', ← hsameBuckets, hkey']
    dsimp only
    obtain ⟨t', heq, hrep⟩ := hplace.resizeIfFull hwfplace i
    exact .inr ⟨i, _, t', rfl, heq, hrep⟩

end insertion

section removal

theorem Represents.compact (h : Represents t st) (hne : ∀ b, ∀ i ∈ st.mBuckets b, i ≠ 0) :
    Represents t.compact st.compact := by
  have hnode : ∀ i node, i ≠ 0 → t.mNodeList i = .node node → t.compact.mNodeList i =
      .node { node with stringData := cstr node.stringData ++ [0] } := by
    intro i node hi hslot
    rw [NodeTable.compact]
    dsimp only
    rw [hslot]
    simp only [if_neg hi]
  have hword : ∀ i w, t.mNodeList i = .word w → t.compact.mNodeList i = .word w := by
    intro i w hslot
    rw [NodeTable.compact]
    dsimp only
    rw [hslot]
  have hfree : ∀ i, t.mNodeList i = .freed → t.compact.mNodeList i = .freed := by
    intro i hslot
    rw [NodeTable.compact]
    dsimp only
    rw [hslot]
  have hzero : ∀ node, t.compact.mNodeList 0 ≠ .node node := by
    intro node
    rw [NodeTable.compact]
    dsimp only
    split <;> simp
  have hnext : ∀ i, i ≠ 0 → t.compact.next i = t.next i := by
    intro i hi
    rw [next, next, node?, node?]
    cases hold : t.mNodeList i with
    | word w => rw [hword i w hold]
    | node n =>
      rw [hnode i n hi hold]
      rfl
    | freed => rw [hfree i hold]
  constructor
  · intro i node hnew
    have hi : i ≠ 0 := by
      rintro rfl
      exact hzero node hnew
    cases hold : t.mNodeList i with
    | word w =>
      rw [hword i w hold] at hnew
      cases hnew
    | freed =>
      rw [hfree i hold] at hnew
      cases hnew
    | node n =>
      rw [hnode i n hi hold] at hnew
      obtain rfl := Slot.node.inj hnew
      obtain ⟨hindex, hst⟩ := h.node i n hold
      refine ⟨hindex, ?_⟩
      rw [StringTable.compact]
      dsimp only
      rw [if_neg hi, hst]
      rfl
  · intro i w hw
    have hold : t.mNodeList i = .word w := by
      rw [NodeTable.compact] at hw
      dsimp only at hw
      cases hold : t.mNodeList i with
      | word w' => rw [hold] at hw; exact hw
      | node n =>
        rw [hold] at hw
        dsimp only at hw
        split at hw <;> cases hw
      | freed => rw [hold] at hw; cases hw
    have hnone := h.word i w hold
    rw [StringTable.compact]
    dsimp only
    split
    · rename_i hi
      rw [← hi, hnone]
    · rw [hnone]
      rfl
  · intro i hfreed
    by_contra hi
    cases hold : t.mNodeList i with
    | word w =>
      rw [hword i w hold] at hfreed
      cases hfreed
    | node n =>
      rw [hnode i n hi hold] at hfreed
      cases hfreed
    | freed => exact hi (h.freed i hold)
  · exact h.size
  · exact h.buckets
  · exact h.numBuckets
  · exact h.itemCount
  · rfl
  · refine h.free.congr fun i _ => ?_
    rw [nextFree, nextFree, NodeTable.compact]
    dsimp only
    cases t.mNodeList i with
    | word w => rfl
    | node n => by_cases hi : i = 0 <;> simp [hi]
    | freed => rfl
  · intro b hb
    exact (h.chain b hb).congr fun i hi => hnext i (hne b i hi)

/-- A node leaves its chain, and its place becomes the first free one. -/
theorem Represents.unplace (h : Represents t st) (hwf : st.Wf) {l' : List ℕ} (hne : index ≠ 0)
    (hslot : t.mNodeList index = .node node) (hb : b < t.mNumBuckets)
    (hchain : st.mBuckets b = l ++ index :: l') (freed : ℕ) :
    Represents
      { t.setLink b (ChainLink.behind l) node.nextIndex with
        mFreeStringDataSize := freed
        mNodeList := Function.update (t.setLink b (ChainLink.behind l) node.nextIndex).mNodeList index
          (.word t.mNodeListFreeEntry)
        mNodeListFreeEntry := freeEntry index }
      { st with
        mBuckets := Function.update st.mBuckets b (l ++ l')
        mNodeList := Function.update st.mNodeList index none
        freeList := index :: st.freeList
        mFreeStringDataSize := freed } := by
  have hin : ∀ i ∈ l, i ∈ st.mBuckets b := fun i hi => by
    rw [hchain]
    exact List.mem_append_left _ hi
  have hwalk : t.IsLink (ChainLink.behind l) := h.isLink hwf hin
  have hlinks := setLink_relinked hwalk b node.nextIndex
  have hnext := next_setLink hwalk b node.nextIndex
  have hsome : st.mNodeList index = some node.content := (h.node index node hslot).2
  have hnotFree : index ∉ st.freeList := by
    intro hfree
    rw [(hwf.free index hfree).1] at hsome
    cases hsome
  have hnodup := hwf.chain_nodup b
  rw [hchain] at hnodup
  have hnot : index ∉ l ++ l' :=
    (List.nodup_cons.mp (List.perm_middle.nodup_iff.mp hnodup)).1
  constructor
  · intro i n hn
    have hi : i ≠ index := by
      rintro rfl
      dsimp only at hn
      rw [Function.update_self] at hn
      cases hn
    dsimp only at hn ⊢
    rw [Function.update_of_ne hi] at hn ⊢
    obtain ⟨n', hn', hindex, hcontent⟩ := hlinks.symm.exists_node hn
    obtain ⟨hplace, hst⟩ := h.node i n' hn'
    exact ⟨hindex.symm.trans hplace, hcontent ▸ hst⟩
  · intro i w hw
    dsimp only at hw ⊢
    by_cases hi : i = index
    · rw [hi, Function.update_self]
    · rw [Function.update_of_ne hi] at hw ⊢
      exact h.word i w (hlinks.word_iff.mp hw)
  · intro i hfreed
    dsimp only at hfreed
    by_cases hi : i = index
    · rw [hi, Function.update_self] at hfreed
      cases hfreed
    · rw [Function.update_of_ne hi] at hfreed
      exact h.freed i (hlinks.freed_iff.mp hfreed)
  · exact hlinks.size.trans h.size
  · exact hlinks.buckets.trans h.buckets
  · exact (setLink_numBuckets ..).trans h.numBuckets
  · exact hlinks.itemCount.trans h.itemCount
  · rfl
  · rw [freePtr_freeEntry]
    refine ⟨rfl, ?_⟩
    rw [nextFree]
    dsimp only
    rw [Function.update_self]
    refine h.free.congr fun i hi => ?_
    have hne' : i ≠ index := fun heq => hnotFree (heq ▸ hi)
    rw [← hlinks.nextFree, nextFree, nextFree]
    dsimp only
    rw [Function.update_of_ne hne']
  · intro c hc
    have hc' : c < t.mNumBuckets := (setLink_numBuckets b _ node.nextIndex (t := t)) ▸ hc
    have hfirst : (t.setLink b (ChainLink.behind l) node.nextIndex).first c = _ :=
      first_setLink h.buckets _ b node.nextIndex
    have hkeep : ∀ i, i ≠ index → NodeTable.next
        { t.setLink b (ChainLink.behind l) node.nextIndex with
          mFreeStringDataSize := freed
          mNodeList := Function.update (t.setLink b (ChainLink.behind l) node.nextIndex).mNodeList index
            (.word t.mNodeListFreeEntry)
          mNodeListFreeEntry := freeEntry index } i =
        (ChainLink.behind l).setNext t.next (ptr node.nextIndex) i := by
      intro i hi
      rw [← hnext, next, next, node?, node?]
      dsimp only
      rw [Function.update_of_ne hi]
    change Chain _ ((t.setLink b (ChainLink.behind l) node.nextIndex).first c) _ none
    rw [hfirst]
    by_cases hcb : c = b
    · subst hcb
      dsimp only
      rw [if_pos rfl, Function.update_self, ← next_of_node hslot]
      have hold := h.chain c hc'
      rw [hchain] at hold
      refine (ChainLink.unlink hold).congr fun i hi => ?_
      rw [hkeep i fun heq => hnot (heq ▸ hi), next_of_node hslot]
    · dsimp only
      rw [if_neg hcb, Function.update_of_ne hcb]
      have hother : ∀ i ∈ st.mBuckets c, i ∉ st.mBuckets b := by
        intro i hi hib
        obtain ⟨_, sn, hsn, hmod⟩ := hwf.chained c i hi
        obtain ⟨_, sn', hsn', hmod'⟩ := hwf.chained b i hib
        obtain rfl := Option.some.inj (hsn.symm.trans hsn')
        exact hcb (hmod.symm.trans hmod')
      refine (h.chain c hc').congr fun i hi => ?_
      have hib := hother i hi
      rw [hkeep i fun heq => hib (by rw [hchain, heq]; simp)]
      exact ChainLink.setNext_of_notMem (fun hil => hib (hin i hil)) _

/-- Compacting the memory and counting the node that has been freed. -/
theorem Represents.settle (h : Represents t st) (hne : ∀ b, ∀ i ∈ st.mBuckets b, i ≠ 0)
    (hpos : st.mItemCount - 1 ≠ 0) : Represents
      (let t := if t.mFreeStringDataSize > compactThreshold then t.compact else t
        let t := { t with mItemCount := t.mItemCount - 1 }
        if t.mItemCount = 0 then t.destroy else t)
      (let st := if st.mFreeStringDataSize > compactThreshold then st.compact else st
        let st := { st with mItemCount := st.mItemCount - 1 }
        if st.mItemCount = 0 then StringTable.init else st) := by
  have huncount : ∀ (t : NodeTable) (st : StringTable), Represents t st → st.mItemCount - 1 ≠ 0 →
      Represents (let t := { t with mItemCount := t.mItemCount - 1 }
        if t.mItemCount = 0 then t.destroy else t)
      (let st := { st with mItemCount := st.mItemCount - 1 }
        if st.mItemCount = 0 then StringTable.init else st) := by
    intro t st h hpos
    have hcount := congrArg (· - 1) h.itemCount
    dsimp only at hcount ⊢
    rw [hcount, if_neg hpos, if_neg hpos]
    exact { h with itemCount := rfl }
  rw [h.freeStringDataSize]
  by_cases hfull : st.mFreeStringDataSize > compactThreshold
  · rw [if_pos hfull, if_pos hfull]
    exact huncount _ _ (h.compact hne) hpos
  · rw [if_neg hfull, if_neg hfull]
    exact huncount _ _ h hpos

/-- Freeing a node that is in its chain does in memory what it does to the lists. The node's count
has been changed before. -/
theorem Represents.freeNode (h : Represents t st) (hwf : st.Wf) {node' : Node} (node : Node)
    (hne : index ≠ 0)
    (hslot : t.mNodeList index = .node node') (hlink : node'.nextIndex = node.nextIndex)
    (hmem : index ∈ st.mBuckets (node.hash.toNat % st.mNumBuckets)) :
    ∃ t', t.freeNode index node = some t' ∧ Represents t' (st.freeNode index node.content) := by
  set b := node.hash.toNat % st.mNumBuckets with hb
  have hlt : b < t.mNumBuckets := by
    rw [h.numBuckets]
    exact Nat.mod_lt _ hwf.buckets_pos
  obtain ⟨hwalk, hget⟩ := h.walkTo_eq hwf hlt fun i _ => decide (i = index)
  have hfound : ∀ i ∈ st.mBuckets b, (t.node? i).any (fun _ => decide (i = index)) =
      decide (i = index) := by
    intro i hi
    obtain ⟨n, hn, _⟩ := h.isNode hwf hi
    rw [node?_eq_some.mpr hn]
    rfl
  obtain ⟨l, l', hsplit⟩ := List.append_of_mem hmem
  have hnodup := hwf.chain_nodup b
  rw [hsplit] at hnodup
  have hnot : index ∉ l ++ l' :=
    (List.nodup_cons.mp (List.perm_middle.nodup_iff.mp hnodup)).1
  have hnotl : index ∉ l := fun hmem => hnot (List.mem_append_left _ hmem)
  have htake : (st.mBuckets b).takeWhile
      (fun i => !(t.node? i).any fun _ => decide (i = index)) = l := by
    rw [hsplit] at hfound ⊢
    rw [List.takeWhile_append_of_pos, List.takeWhile_cons_of_neg, List.append_nil]
    · rw [hfound index (by simp)]
      simp
    · intro i hi
      rw [hfound i (by simp [hi])]
      have hne' : i ≠ index := fun heq => hnotl (heq ▸ hi)
      simp [hne']
  have herase : (st.mBuckets b).erase index = l ++ l' := by
    rw [hsplit, List.erase_append_right _ hnotl, List.erase_cons_head]
  have hgetIndex : (ChainLink.behind l).get t.next (t.first b) = some index := by
    have hold := h.chain b hlt
    rw [hsplit] at hold
    exact ChainLink.get_behind hold
  rw [htake] at hwalk
  have hplaced := h.unplace hwf hne hslot hlt hsplit
    (t.mFreeStringDataSize + node.stringLen.toNat + sizeofNode)
  have hwfremoved := hwf.remove hne (h.node index node' hslot).2
    (st.mFreeStringDataSize + node.stringLen.toNat + sizeofNode)
  have hpos := hwfremoved.mItemCount_pos
  rw [← herase, hlink, h.freeStringDataSize] at hplaced
  have hlinked : ∀ c, ∀ i ∈ Function.update st.mBuckets b ((st.mBuckets b).erase index) c,
      i ≠ 0 := by
    intro c i hi
    by_cases hc : c = b
    · rw [hc, Function.update_self] at hi
      exact (hwf.chained b i (List.mem_of_mem_erase hi)).1
    · rw [Function.update_of_ne hc] at hi
      exact (hwf.chained c i hi).1
  have hsettled := hplaced.settle hlinked hpos.ne'
  refine ⟨_, ?_, hsettled⟩
  rw [NodeTable.freeNode, h.numBuckets, ← hb]
  dsimp only
  rw [hwalk]
  dsimp only
  have hlinks := setLink_relinked (h.isLink hwf fun i hi => by
    rw [hsplit]
    exact List.mem_append_left _ hi) b node.nextIndex
  rw [if_pos hgetIndex, hlinks.freeStringDataSize, hlinks.freeEntry, h.freeStringDataSize]

theorem Represents.incRef (h : Represents t st) (hslot : t.mNodeList index = .node node) :
    ∃ t', t.incRef index = some t' ∧ Represents t' (st.incRef index) := by
  have hrep := h.setNode hslot { node with refCount := node.refCount + 1 } rfl rfl
  rw [NodeTable.incRef, node?_eq_some.mpr hslot, StringTable.incRef, (h.node index node hslot).2]
  exact ⟨_, rfl, hrep⟩

theorem Represents.decRef (h : Represents t st) (hwf : st.Wf) (hne : index ≠ 0)
    (hslot : t.mNodeList index = .node node)
    (hmem : index ∈ st.mBuckets (node.hash.toNat % st.mNumBuckets)) :
    ∃ t', t.decRef index = some t' ∧ Represents t' (st.decRef index) := by
  have hst := (h.node index node hslot).2
  have hrep := h.setNode hslot { node with refCount := node.refCount - 1 } rfl rfl
  rw [NodeTable.decRef, node?_eq_some.mpr hslot, StringTable.decRef, hst]
  dsimp only [Node.content] at hrep ⊢
  by_cases hmore : node.refCount - 1 ≠ 0
  · rw [if_pos hmore, if_pos hmore]
    exact ⟨_, rfl, hrep⟩
  · rw [if_neg hmore, if_neg hmore]
    have hself : (t.setNode index { node with refCount := node.refCount - 1 }).mNodeList index =
        .node { node with refCount := node.refCount - 1 } := Function.update_self ..
    have hfreed := hrep.freeNode (hwf.setNode hst rfl) node hne hself rfl hmem
    have hsame : ∀ sn, StringTable.freeNode
        { st with mNodeList := Function.update st.mNodeList index sn } index node.content =
          st.freeNode index node.content := by
      intro sn
      rw [StringTable.freeNode, StringTable.freeNode]
      dsimp only
      rw [Function.update_idem]
    rw [hsame] at hfreed
    exact hfreed

end removal

end TNL.NodeTable
