import TNL.StringTable.NodeTableRefinement

/-!
# The structure of the global string table

Every place is free or holds a node, every node but that of the empty string is
in the one chain of its hash, and no string has two nodes. The hash is any
function of the string.
-/
namespace TNL
open Library

namespace StringTable

/-- Nodes are found by the hash of their strings. -/
structure Keyed (hash : List U8 → U32) (st : StringTable) : Prop where
  chained : ∀ i node, st.mNodeList i = some node → i ≠ 0 →
    i ∈ st.mBuckets (node.hash.toNat % st.mNumBuckets)
  hashed : ∀ i node, st.mNodeList i = some node → i ≠ 0 →
    node.hash = hash (cstr node.stringData) ∧ cstr node.stringData ≠ [] ∧
      ∃ pad, node.stringData = cstr node.stringData ++ List.replicate (pad + 1) 0
  zero : ∀ node, st.mNodeList 0 = some node → cstr node.stringData = []
  placed : ∀ i < st.mNodeListSize, st.mNodeList i = none → i ∈ st.freeList

variable {hash : List U8 → U32} {st : StringTable} {i index : ℕ} {node : StringNode}

namespace Keyed

theorem init : Keyed hash StringTable.init where
  chained i node hnode hi := by
    rw [StringTable.init] at hnode
    dsimp only at hnode
    rw [if_neg hi] at hnode
    cases hnode
  hashed i node hnode hi := by
    rw [StringTable.init] at hnode
    dsimp only at hnode
    rw [if_neg hi] at hnode
    cases hnode
  zero node hnode := by
    obtain rfl := Option.some.inj hnode
    rfl
  placed i hlt hnone := by
    have hi : i ≠ 0 := by
      rintro rfl
      cases hnone
    have hlt' : i < 2048 := hlt
    exact List.mem_range'_1.mpr ⟨by omega, show i < 1 + 2047 by omega⟩

/-- Changing a node that keeps its string and its hash. -/
theorem setNode (h : Keyed hash st) (hnode : st.mNodeList index = some node) {node' : StringNode}
    (hhash : node'.hash = node.hash) (hdata : node'.stringData = node.stringData) :
    Keyed hash { st with mNodeList := Function.update st.mNodeList index (some node') } := by
  have hold : ∀ i n, Function.update st.mNodeList index (some node') i = some n →
      ∃ n', st.mNodeList i = some n' ∧ n.hash = n'.hash ∧ n.stringData = n'.stringData := by
    intro i n hn
    by_cases hi : i = index
    · subst hi
      rw [Function.update_self] at hn
      obtain rfl := Option.some.inj hn
      exact ⟨node, hnode, hhash, hdata⟩
    · rw [Function.update_of_ne hi] at hn
      exact ⟨n, hn, rfl, rfl⟩
  constructor
  · intro i n hn hi
    obtain ⟨n', hn', hhash', _⟩ := hold i n hn
    rw [hhash']
    exact h.chained i n' hn' hi
  · intro i n hn hi
    obtain ⟨n', hn', hhash', hdata'⟩ := hold i n hn
    rw [hhash', hdata']
    exact h.hashed i n' hn' hi
  · intro n hn
    obtain ⟨n', hn', _, hdata'⟩ := hold 0 n hn
    rw [hdata']
    exact h.zero n' hn'
  · intro i hlt hnone
    have hi : i ≠ index := by
      rintro rfl
      dsimp only at hnone
      rw [Function.update_self] at hnone
      cases hnone
    dsimp only at hnone
    rw [Function.update_of_ne hi] at hnone
    exact h.placed i hlt hnone

theorem incRef (h : Keyed hash st) (index : ℕ) : Keyed hash (st.incRef index) := by
  rw [StringTable.incRef]
  cases hnode : st.mNodeList index with
  | none => exact h
  | some node => exact h.setNode hnode rfl rfl

theorem growNodeList (h : Keyed hash st) : Keyed hash st.growNodeList := by
  rw [StringTable.growNodeList]
  split
  · rename_i hempty
    refine { h with placed := fun i hlt hnone => ?_ }
    have hge : st.mNodeListSize ≤ i := by
      by_contra hlow
      have hmem := h.placed i (by omega) hnone
      rw [hempty] at hmem
      cases hmem
    exact List.mem_range'_1.mpr ⟨hge, hlt⟩
  · exact h

/-- A node for a new string. -/
theorem place (h : Keyed hash st) (hwf : st.Wf) {rest : List ℕ} (hfree : st.freeList = i :: rest)
    (node : StringNode) {str : List U8} (hstr : str ≠ [])
    (hdata : ∃ pad, node.stringData = str ++ List.replicate (pad + 1) 0)
    (hcstr : cstr node.stringData = str) (hhash : node.hash = hash str) :
    Keyed hash { st with
      mNodeList := Function.update st.mNodeList i (some node)
      freeList := rest
      mBuckets := Function.update st.mBuckets (node.hash.toNat % st.mNumBuckets)
        (st.mBuckets (node.hash.toNat % st.mNumBuckets) ++ [i])
      mItemCount := st.mItemCount + 1 } := by
  have hnone := (hwf.free i (by rw [hfree]; exact List.mem_cons_self)).1
  have hne : i ≠ 0 := by
    rintro rfl
    have hsome := hwf.zero
    rw [hnone] at hsome
    cases hsome
  have hold : ∀ j n, Function.update st.mNodeList i (some node) j = some n →
      (j = i ∧ n = node) ∨ (j ≠ i ∧ st.mNodeList j = some n) := by
    intro j n hn
    by_cases hj : j = i
    · rw [hj, Function.update_self] at hn
      exact .inl ⟨hj, (Option.some.inj hn).symm⟩
    · rw [Function.update_of_ne hj] at hn
      exact .inr ⟨hj, hn⟩
  have hmem : ∀ b, ∀ j ∈ st.mBuckets b, j ∈ Function.update st.mBuckets
      (node.hash.toNat % st.mNumBuckets) (st.mBuckets (node.hash.toNat % st.mNumBuckets) ++ [i]) b := by
    intro b j hj
    by_cases hb : b = node.hash.toNat % st.mNumBuckets
    · rw [hb, Function.update_self]
      exact List.mem_append_left _ (hb ▸ hj)
    · rwa [Function.update_of_ne hb]
  constructor
  · intro j n hn hj
    rcases hold j n hn with ⟨rfl, rfl⟩ | ⟨_, hn⟩
    · dsimp only
      rw [Function.update_self]
      exact List.mem_append_right _ (List.mem_singleton_self j)
    · exact hmem _ j (h.chained j n hn hj)
  · intro j n hn hj
    rcases hold j n hn with ⟨rfl, rfl⟩ | ⟨_, hn⟩
    · rw [hcstr]
      exact ⟨hhash, hstr, hdata⟩
    · exact h.hashed j n hn hj
  · intro n hn
    rcases hold 0 n hn with ⟨hzero, _⟩ | ⟨_, hn⟩
    · exact absurd hzero.symm hne
    · exact h.zero n hn
  · intro j hlt hnone'
    have hj : j ≠ i := by
      rintro rfl
      dsimp only at hnone'
      rw [Function.update_self] at hnone'
      cases hnone'
    dsimp only at hnone'
    rw [Function.update_of_ne hj] at hnone'
    have hin := h.placed j hlt hnone'
    rw [hfree] at hin
    exact (List.mem_cons.mp hin).resolve_left hj

theorem resizeHashTable (h : Keyed hash st) (hwf : st.Wf) (newSize : ℕ) :
    Keyed hash (st.resizeHashTable newSize) := by
  refine { h with chained := fun i n hn hi => ?_ }
  have hmem := h.chained i n hn hi
  refine List.mem_filter.mpr ⟨List.mem_flatMap.mpr ⟨_, List.mem_range.mpr ?_, hmem⟩, ?_⟩
  · exact Nat.mod_lt _ hwf.buckets_pos
  · have hn' : st.mNodeList i = some n := hn
    rw [hn', Option.any_some]
    exact decide_eq_true rfl

theorem remove (h : Keyed hash st) (index : ℕ) (node : StringNode) (freed count : ℕ) :
    Keyed hash { st with
      mBuckets := Function.update st.mBuckets (node.hash.toNat % st.mNumBuckets)
        ((st.mBuckets (node.hash.toNat % st.mNumBuckets)).erase index)
      mNodeList := Function.update st.mNodeList index none
      freeList := index :: st.freeList
      mFreeStringDataSize := freed
      mItemCount := count } := by
  have hold : ∀ j n, Function.update st.mNodeList index none j = some n →
      j ≠ index ∧ st.mNodeList j = some n := by
    intro j n hn
    by_cases hj : j = index
    · rw [hj, Function.update_self] at hn
      cases hn
    · rw [Function.update_of_ne hj] at hn
      exact ⟨hj, hn⟩
  constructor
  · intro j n hn hj
    obtain ⟨hne, hn⟩ := hold j n hn
    have hmem := h.chained j n hn hj
    dsimp only
    by_cases hb : n.hash.toNat % st.mNumBuckets = node.hash.toNat % st.mNumBuckets
    · rw [hb, Function.update_self]
      exact (List.mem_erase_of_ne hne).mpr (hb ▸ hmem)
    · rwa [Function.update_of_ne hb]
  · exact fun j n hn hj => h.hashed j n (hold j n hn).2 hj
  · exact fun n hn => h.zero n (hold 0 n hn).2
  · intro j hlt hnone
    by_cases hj : j = index
    · exact hj ▸ List.mem_cons_self
    · dsimp only at hnone
      rw [Function.update_of_ne hj] at hnone
      exact List.mem_cons_of_mem _ (h.placed j hlt hnone)

theorem compact (h : Keyed hash st) : Keyed hash st.compact := by
  have hold : ∀ j n, st.compact.mNodeList j = some n →
      ∃ n', st.mNodeList j = some n' ∧ n.hash = n'.hash ∧
        cstr n.stringData = cstr n'.stringData ∧
        (j ≠ 0 → n.stringData = cstr n'.stringData ++ [0]) := by
    intro j n hn
    rw [StringTable.compact] at hn
    dsimp only at hn
    by_cases hj : j = 0
    · rw [if_pos hj] at hn
      exact ⟨n, hj ▸ hn, rfl, rfl, fun hne => absurd hj hne⟩
    · rw [if_neg hj] at hn
      obtain ⟨n', hn', rfl⟩ := Option.map_eq_some_iff.mp hn
      exact ⟨n', hn', rfl, cstr_append_zero _, fun _ => rfl⟩
  constructor
  · intro j n hn hj
    obtain ⟨n', hn', hhash, _, _⟩ := hold j n hn
    rw [hhash]
    exact h.chained j n' hn' hj
  · intro j n hn hj
    obtain ⟨n', hn', hhash, hcstr, hdata⟩ := hold j n hn
    obtain ⟨hkey, hne, _⟩ := h.hashed j n' hn' hj
    exact ⟨by rw [hhash, hcstr, hkey], hcstr ▸ hne, 0, by rw [hcstr, hdata hj]; rfl⟩
  · intro n hn
    obtain ⟨n', hn', _, hcstr, _⟩ := hold 0 n hn
    exact hcstr.trans (h.zero n' hn')
  · intro j hlt hnone
    refine h.placed j hlt ?_
    rw [StringTable.compact] at hnone
    dsimp only at hnone
    split at hnone
    · rename_i hj
      exact hj ▸ hnone
    · exact Option.map_eq_none_iff.mp hnone

theorem decRef (h : Keyed hash st) (index : ℕ) : Keyed hash (st.decRef index) := by
  rw [StringTable.decRef]
  cases hnode : st.mNodeList index with
  | none => exact h
  | some node =>
    dsimp only
    split
    · exact h.setNode hnode rfl rfl
    · rw [freeNode]
      dsimp only
      split
      · have hcompact := (h.remove index node 0 (st.mItemCount - 1)).compact
        split
        · exact .init
        · exact { hcompact with }
      · split
        · exact .init
        · exact h.remove index node _ _

theorem addNode (h : Keyed hash st) (hwf : st.Wf) {val : List U8} {len j : ℕ} {st' : StringTable}
    (hpos : 0 < len) (hval : cstr val ≠ [])
    (hadd : st.addNode (hash ((cstr val).take len)) val len = some (j, st')) : Keyed hash st' := by
  obtain ⟨hwfgrow, hnonempty⟩ := hwf.growNodeList
  obtain ⟨i, rest, hfree⟩ := List.exists_cons_of_ne_nil hnonempty
  have hstr : (cstr val).take len ≠ [] := by
    rw [ne_eq, List.take_eq_nil_iff]
    exact not_or.mpr ⟨hpos.ne', hval⟩
  have hcopy : ∃ pad, copyString val len = (cstr val).take len ++ List.replicate (pad + 1) 0 := by
    have hle : ((cstr val).take len).length ≤ len := List.length_take_le ..
    refine ⟨len - ((cstr val).take len).length, ?_⟩
    rw [copyString, Nat.succ_sub hle]
  have hplace := h.growNodeList.place hwfgrow hfree
    ⟨hash ((cstr val).take len), BitVec.ofNat 16 len, 1, copyString val len⟩ hstr hcopy
    (cstr_copyString val len) rfl
  have hwfplace := hwfgrow.place hfree
    ⟨hash ((cstr val).take len), BitVec.ofNat 16 len, 1, copyString val len⟩
  rw [StringTable.addNode] at hadd
  dsimp only at hadd
  split at hadd
  · cases hadd
  · rw [hfree, List.headD_cons, List.tail_cons] at hadd
    obtain ⟨_, rfl⟩ := Prod.mk.inj (Option.some.inj hadd)
    split
    · exact hplace.resizeHashTable hwfplace _
    · exact hplace

end Keyed

end StringTable

namespace NodeTable
open StringTable (sizeofNode chunkSize)

/-- The operations of the table; `beyond` is what an insertion reads behind the bytes of a node. -/
inductive Op where
  | insertn (beyond : ℕ → U8) (val : Option (List U8)) (len : ℤ) (caseSens : Bool)
  | incRef (index : ℕ)
  | decRef (index : ℕ)

/-- The ids that are handed out. -/
def Allocated (t : NodeTable) (index : ℕ) : Prop := index ≠ 0 ∧ (t.node? index).isSome

instance (t : NodeTable) (index : ℕ) : Decidable (t.Allocated index) :=
  inferInstanceAs (Decidable (_ ∧ _))

/-- References are counted on allocated ids only. -/
def Permitted (t : NodeTable) : Op → Prop
  | .insertn _ _ _ _ => True
  | .incRef index => t.Allocated index
  | .decRef index => t.Allocated index

def step (hash : List U8 → U32) (t : NodeTable) : Op → Option NodeTable
  | .insertn beyond val len caseSens => (t.insertn hash beyond val len caseSens).map Prod.snd
  | .incRef index => if t.Allocated index then t.incRef index else none
  | .decRef index => if t.Allocated index then t.decRef index else none

/-- The length is not negative, fits in a chunk and leads to none of the bytes behind the node that
has the whole string. -/
def Within (t : NodeTable) : Op → Prop
  | .insertn _ (some val) len _ => cstr val = [] ∨ len = 0 ∨
    (0 < len ∧ sizeofNode + len ≤ chunkSize ∧ ∀ i node, t.mNodeList i = .node node →
      cstr node.stringData = cstr val → len < node.stringData.length)
  | _ => True

/-- The operation takes the last reference to the node. -/
def TakesLast (t : NodeTable) (i : ℕ) : Op → Prop
  | .decRef index => index = i ∧ ∃ node, t.mNodeList i = .node node ∧ node.refCount = 1
  | _ => False

/-- The place is not that of a node. -/
def Slot.isFree : Slot → Bool
  | .word _ => true
  | _ => false

/-- The facts about the structure of the table. -/
structure Structured (hash : List U8 → U32) (t : NodeTable) : Prop where
  partition : ∃ free, Chain t.nextFree (freePtr t.mNodeListFreeEntry) free none ∧ free.Nodup ∧
    ∀ i, i ∈ free ↔ i < t.mNodeListSize ∧ (t.mNodeList i).isFree
  nodes_lt : ∀ i node, t.mNodeList i = .node node → i < t.mNodeListSize
  itemCount : t.mItemCount = ((Finset.range t.mNodeListSize).filter
    fun i => ¬(t.mNodeList i).isFree).card
  buckets : ∃ chains : ℕ → List ℕ,
    (∀ b < t.mNumBuckets, Chain t.next (t.first b) (chains b) none ∧ (chains b).Nodup) ∧
    (∀ b < t.mNumBuckets, ∀ i ∈ chains b, i ≠ 0 ∧ ∃ node, t.mNodeList i = .node node) ∧
    ∀ i node, t.mNodeList i = .node node → i ≠ 0 →
      ∀ b < t.mNumBuckets, i ∈ chains b ↔ b = node.hash.toNat % t.mNumBuckets
  bucket_lt : ∀ i node, t.mNodeList i = .node node → i ≠ 0 →
    node.hash.toNat % t.mNumBuckets < t.mNumBuckets
  hashed : ∀ i node, t.mNodeList i = .node node → i ≠ 0 → node.hash = hash (cstr node.stringData)
  nonempty : ∀ i node, t.mNodeList i = .node node → i ≠ 0 → cstr node.stringData ≠ []
  masterIndex : ∀ i node, t.mNodeList i = .node node → node.masterIndex = i
  distinct : ∀ i j node node', t.mNodeList i = .node node → t.mNodeList j = .node node' →
    cstr node.stringData = cstr node'.stringData → i = j

/-- The node has the string. -/
def Holds (t : NodeTable) (i : ℕ) (str : List U8) : Prop :=
  ∃ node, t.mNodeList i = .node node ∧ cstr node.stringData = str

/-- No string has two nodes. -/
def Distinct (t : NodeTable) : Prop :=
  ∀ i j str, i ≠ 0 → j ≠ 0 → t.Holds i str → t.Holds j str → i = j

/-- The table is unused, or it is the table of lists with its nodes in memory. -/
def Sound (hash : List U8 → U32) (t : NodeTable) : Prop :=
  t = start ∨ ∃ st, Represents t st ∧ st.Wf ∧ st.Keyed hash

variable {hash : List U8 → U32} {t t' : NodeTable} {st : StringTable} {i index : ℕ} {node : Node}

theorem start_structured : Structured hash start where
  partition := ⟨[], rfl, List.nodup_nil, fun i => by simp [start]⟩
  nodes_lt i node hnode := by cases hnode
  itemCount := rfl
  buckets := ⟨fun _ => [], fun b hb => absurd hb (Nat.not_lt_zero b),
    fun b hb => absurd hb (Nat.not_lt_zero b), fun i node hnode => by cases hnode⟩
  bucket_lt i node hnode := by cases hnode
  hashed i node hnode := by cases hnode
  nonempty i node hnode := by cases hnode
  masterIndex i node hnode := by cases hnode
  distinct i j node node' hnode := by cases hnode

theorem Represents.isFree_iff (h : Represents t st) (hwf : st.Wf) :
    (t.mNodeList i).isFree ↔ st.mNodeList i = none := by
  constructor
  · intro hfree
    cases hslot : t.mNodeList i with
    | word w => exact h.word i w hslot
    | node node =>
      rw [hslot] at hfree
      cases hfree
    | freed =>
      rw [hslot] at hfree
      cases hfree
  · intro hnone
    have hi : i ≠ 0 := by
      rintro rfl
      have hsome := hwf.zero
      rw [hnone] at hsome
      cases hsome
    obtain ⟨w, hw⟩ := h.exists_word hi hnone
    rw [hw]
    rfl

theorem Represents.structured (h : Represents t st) (hwf : st.Wf) (hkeyed : st.Keyed hash)
    (hdistinct : Distinct t) : Structured hash t where
  partition := by
    refine ⟨st.freeList, h.free, hwf.free_nodup, fun i => ?_⟩
    rw [h.isFree_iff hwf, h.size]
    constructor
    · intro hi
      obtain ⟨hnone, hlt⟩ := hwf.free i hi
      exact ⟨hlt, hnone⟩
    · rintro ⟨hlt, hnone⟩
      exact hkeyed.placed i hlt hnone
  nodes_lt i node hnode := by
    have hst := (h.node i node hnode).2
    by_contra hge
    rw [hwf.beyond i (by rw [← h.size]; omega)] at hst
    cases hst
  itemCount := by
    rw [h.itemCount, hwf.count, h.size]
    congr 1
    refine Finset.filter_congr fun i _ => ?_
    rw [Option.isSome_iff_ne_none, ne_eq, ← h.isFree_iff hwf]
  buckets := by
    refine ⟨st.mBuckets, fun b hb => ⟨h.chain b hb, hwf.chain_nodup b⟩, fun b _ i hi => ?_,
      fun i node hnode hi b _ => ?_⟩
    · obtain ⟨node, hnode, _, hne, _⟩ := h.isNode hwf hi
      exact ⟨hne, node, hnode⟩
    · rw [h.numBuckets]
      have hst := (h.node i node hnode).2
      constructor
      · intro hmem
        obtain ⟨_, sn, hsn, hb⟩ := hwf.chained b i hmem
        obtain rfl := Option.some.inj (hst.symm.trans hsn)
        exact hb.symm
      · rintro rfl
        exact hkeyed.chained i node.content hst hi
  bucket_lt i node _ _ := by
    rw [h.numBuckets]
    exact Nat.mod_lt _ hwf.buckets_pos
  hashed i node hnode hi := (hkeyed.hashed i node.content (h.node i node hnode).2 hi).1
  nonempty i node hnode hi := (hkeyed.hashed i node.content (h.node i node hnode).2 hi).2.1
  masterIndex i node hnode := (h.node i node hnode).1
  distinct i j node node' hnode hnode' heq := by
    have hempty : ∀ node, t.mNodeList 0 = .node node → cstr node.stringData = [] :=
      fun node hnode => hkeyed.zero node.content (h.node 0 node hnode).2
    have hnonempty : ∀ i node, t.mNodeList i = .node node → i ≠ 0 → cstr node.stringData ≠ [] :=
      fun i node hnode hi => (hkeyed.hashed i node.content (h.node i node hnode).2 hi).2.1
    by_cases hi : i = 0
    · by_cases hj : j = 0
      · rw [hi, hj]
      · subst hi
        exact absurd (heq.symm.trans (hempty node hnode)) (hnonempty j node' hnode' hj)
    · by_cases hj : j = 0
      · subst hj
        exact absurd (heq.trans (hempty node' hnode')) (hnonempty i node hnode hi)
      · exact hdistinct i j _ hi hj ⟨node, hnode, rfl⟩ ⟨node', hnode', heq.symm⟩

theorem Sound.structured (h : Sound hash t) (hdistinct : Distinct t) : Structured hash t := by
  rcases h with rfl | ⟨st, hrep, hwf, hkeyed⟩
  · exact start_structured
  · exact hrep.structured hwf hkeyed hdistinct

theorem Represents.holds_iff (h : Represents t st) (hi : i ≠ 0) {str : List U8} :
    t.Holds i str ↔ ∃ count, st.content i = some (str, count) := by
  constructor
  · rintro ⟨node, hnode, rfl⟩
    refine ⟨node.refCount, ?_⟩
    rw [StringTable.content, (h.node i node hnode).2]
    rfl
  · rintro ⟨count, hcontent⟩
    obtain ⟨sn, hsn, hstr, _⟩ := StringTable.content_eq_some hcontent
    obtain ⟨node, hnode, _, rfl⟩ := h.exists_node hi hsn
    exact ⟨node, hnode, hstr⟩

section step
variable {beyond : ℕ → U8} {val : List U8} {len : ℕ} {caseSens : Bool}

/-- A node with the string is found, whatever lies behind it. -/
theorem matchesn_of_eq {pad : ℕ} (hstr : cstr node.stringData = (cstr val).take len)
    (hdata : node.stringData = cstr node.stringData ++ List.replicate (pad + 1) 0)
    (hlen : len < node.stringData.length) :
    matchesn beyond val len caseSens i node = true := by
  have hle : (cstr node.stringData).length ≤ len := by
    rw [hstr]
    exact List.length_take_le ..
  have hsame : sameStringn caseSens node.stringData val len := by
    rw [sameStringn, hstr, List.take_take, min_self]
    cases caseSens <;> rfl
  have hclosed : node.stringData.getD len (beyond i) = 0 := by
    rw [hdata, List.length_append, List.length_replicate] at hlen
    rw [hdata, List.getD_append_right _ _ _ _ hle, List.getD_replicate]
    omega
  rw [matchesn]
  exact decide_eq_true ⟨hsame, hclosed⟩

/-- When the search ends behind the last node, no node has the string. -/
theorem Represents.fresh (h : Represents t st) (hkeyed : st.Keyed hash)
    (hlen : ∀ i node, t.mNodeList i = .node node → cstr node.stringData = cstr val →
      len < node.stringData.length)
    (hnone : (st.mBuckets ((hash ((cstr val).take len)).toNat % st.mNumBuckets)).find?
      (fun i => (t.node? i).any (matchesn beyond val len caseSens i)) = none) (hi : i ≠ 0) :
    ¬ t.Holds i ((cstr val).take len) := by
  rintro ⟨node, hslot, heq⟩
  have hst := (h.node i node hslot).2
  obtain ⟨hhash, _, pad, hdata⟩ := hkeyed.hashed i node.content hst hi
  have hmem := hkeyed.chained i node.content hst hi
  rw [hhash, Node.content, heq] at hmem
  have hlt : len < node.stringData.length := by
    by_cases hle : len ≤ (cstr val).length
    · have hlength := congrArg List.length hdata
      rw [Node.content, heq, List.length_append, List.length_take_of_le hle,
        List.length_replicate] at hlength
      have : node.stringData.length = len + (pad + 1) := hlength
      omega
    · rw [List.take_of_length_le (not_le.mp hle).le] at heq
      exact hlen i node hslot heq
  have hnot := List.find?_eq_none.mp hnone i hmem
  rw [node?_eq_some.mpr hslot, Option.any_some] at hnot
  exact hnot (matchesn_of_eq heq hdata hlt)

/-- The strings of the nodes after one node has changed. -/
theorem Represents.holds_update (h : Represents t st) {st' : StringTable}
    (hrep : Represents t' st') {new : Option (List U8 × U16)}
    (hcontent : st'.content = Function.update st.content index new) (hi : i ≠ 0) {str : List U8} :
    t'.Holds i str ↔ if i = index then ∃ count, new = some (str, count) else t.Holds i str := by
  rw [hrep.holds_iff hi, hcontent]
  by_cases hindex : i = index
  · subst hindex
    rw [Function.update_self, if_pos rfl]
  · rw [Function.update_of_ne hindex, if_neg hindex, h.holds_iff hi]

/-- The strings of the nodes after a change of one node's count. -/
theorem Represents.holds_recount (h : Represents t st) {st' : StringTable}
    (hrep : Represents t' st') (hslot : t.mNodeList index = .node node) {count : U16}
    (hcontent : st'.content = Function.update st.content index (some (cstr node.stringData, count)))
    (hi : i ≠ 0) {str : List U8} : t'.Holds i str ↔ t.Holds i str := by
  rw [h.holds_update hrep hcontent hi]
  by_cases hindex : i = index
  · subst hindex
    rw [if_pos rfl]
    constructor
    · rintro ⟨_, heq⟩
      exact ⟨node, hslot, (Prod.mk.inj (Option.some.inj heq)).1⟩
    · rintro ⟨node', hslot', rfl⟩
      obtain rfl := Slot.node.inj (hslot.symm.trans hslot')
      exact ⟨count, rfl⟩
  · rw [if_neg hindex]

theorem Represents.content_eq (h : Represents t st) (hslot : t.mNodeList index = .node node) :
    st.content index = some (cstr node.stringData, node.refCount) := by
  rw [StringTable.content, (h.node index node hslot).2]
  rfl

theorem Distinct.congr (h : Distinct t)
    (hsame : ∀ i str, i ≠ 0 → t'.Holds i str → t.Holds i str) : Distinct t' :=
  fun i j str hi hj hholds hholds' => h i j str hi hj (hsame i str hi hholds) (hsame j str hj hholds')

/-- What an operation leaves: a sound table, in which the nodes keep their strings but for one that
is freed. -/
structure Advances (hash : List U8 → U32) (t : NodeTable) (op : Op) (t' : NodeTable) : Prop where
  sound : Sound hash t'
  keeps : ∀ i str, i ≠ 0 → t.Holds i str → ¬ t.TakesLast i op → t'.Holds i str
  distinct : t.Within op → Distinct t → Distinct t'

/-- A node for a new string leaves the others as they are. -/
theorem Represents.advances_addNode (h : Represents t st) (hwf : st.Wf) (hkeyed : st.Keyed hash)
    (hpos : 0 < len) (hval : cstr val ≠ []) {op : Op}
    (hfresh : t.Within op → ∀ i, i ≠ 0 → ¬ t.Holds i ((cstr val).take len)) :
    (t.addNode ((hash ((cstr val).take len)).toNat % st.mNumBuckets)
        (ChainLink.behind (st.mBuckets ((hash ((cstr val).take len)).toNat % st.mNumBuckets)))
        (hash ((cstr val).take len)) val len = none ∧ sizeofNode + len > chunkSize) ∨
    ∃ j t', t.addNode ((hash ((cstr val).take len)).toNat % st.mNumBuckets)
        (ChainLink.behind (st.mBuckets ((hash ((cstr val).take len)).toNat % st.mNumBuckets)))
        (hash ((cstr val).take len)) val len = some (j, t') ∧ Advances hash t op t' := by
  have hplaced : (st.addNode (hash ((cstr val).take len)) val len = none ∧ _) ∨ _ :=
    h.addNode hwf rfl
  rcases hplaced with ⟨hfail, hfail'⟩ | ⟨j, st', t', hadd, hadd', hrep⟩
  · refine .inl ⟨hfail', ?_⟩
    by_contra hroom
    rw [StringTable.addNode] at hfail
    dsimp only at hfail
    rw [if_neg hroom] at hfail
    cases hfail
  · obtain ⟨hwf', _, hfree, hcontent⟩ := StringTable.addNode_spec hwf hadd
    have hholds : ∀ i str, i ≠ 0 → (t'.Holds i str ↔
        if i = j then ∃ count, some ((cstr val).take len, (1 : U16)) = some (str, count)
        else t.Holds i str) := fun i str hi => h.holds_update hrep hcontent hi
    refine .inr ⟨j, t', hadd', .inr ⟨st', hrep, hwf', hkeyed.addNode hwf hpos hval hadd⟩, ?_, ?_⟩
    · intro i str hi hold _
      have hne : i ≠ j := by
        rintro rfl
        obtain ⟨count, hcontent'⟩ := (h.holds_iff hi).mp hold
        rw [hfree] at hcontent'
        cases hcontent'
      rwa [hholds i str hi, if_neg hne]
    · intro hwithin hdistinct i k str hi hk hholdsi hholdsk
      have hnew := hfresh hwithin
      rw [hholds i str hi] at hholdsi
      rw [hholds k str hk] at hholdsk
      split at hholdsi <;> split at hholdsk
      · rename_i hij hkj
        exact hij.trans hkj.symm
      · obtain ⟨_, heq⟩ := hholdsi
        exact absurd ((Prod.mk.inj (Option.some.inj heq)).1 ▸ hholdsk) (hnew k hk)
      · obtain ⟨_, heq⟩ := hholdsk
        exact absurd ((Prod.mk.inj (Option.some.inj heq)).1 ▸ hholdsi) (hnew i hi)
      · exact hdistinct i k str hi hk hholdsi hholdsk

theorem Represents.advances_incRef (h : Represents t st) (hwf : st.Wf) (hkeyed : st.Keyed hash)
    (hslot : t.mNodeList index = .node node) (op : Op) :
    ∃ t', t.incRef index = some t' ∧ Advances hash t op t' := by
  obtain ⟨t', heq, hrep⟩ := h.incRef hslot
  have hholds : ∀ i str, i ≠ 0 → (t'.Holds i str ↔ t.Holds i str) := fun _ _ hi =>
    h.holds_recount hrep hslot (StringTable.incRef_content (h.content_eq hslot)) hi
  exact ⟨t', heq, .inr ⟨_, hrep, hwf.incRef index, hkeyed.incRef index⟩,
    fun i str hi hold _ => (hholds i str hi).mpr hold,
    fun _ hdistinct => hdistinct.congr fun i str hi => (hholds i str hi).mp⟩

theorem Represents.advances_decRef (h : Represents t st) (hwf : st.Wf) (hkeyed : st.Keyed hash)
    (hne : index ≠ 0) (hslot : t.mNodeList index = .node node) :
    ∃ t', t.decRef index = some t' ∧ Advances hash t (.decRef index) t' := by
  have hst := (h.node index node hslot).2
  have hcontent := h.content_eq hslot
  obtain ⟨t', heq, hrep⟩ := h.decRef hwf hne hslot (hkeyed.chained index _ hst hne)
  by_cases hone : node.refCount = 1
  · rw [hone] at hcontent
    obtain ⟨hwf', hcontent'⟩ := StringTable.decRef_freed hwf hne hcontent
    have hholds : ∀ i str, i ≠ 0 → (t'.Holds i str ↔
        if i = index then ∃ count, none = some (str, count) else t.Holds i str) :=
      fun _ _ hi => h.holds_update hrep hcontent' hi
    refine ⟨t', heq, .inr ⟨_, hrep, hwf', hkeyed.decRef index⟩, ?_, fun _ hdistinct =>
      hdistinct.congr ?_⟩
    · intro i str hi hold hlast
      have hindex : i ≠ index := by
        rintro rfl
        exact hlast ⟨rfl, node, hslot, hone⟩
      rwa [hholds i str hi, if_neg hindex]
    · intro i str hi hold
      rw [hholds i str hi] at hold
      split at hold
      · obtain ⟨_, hnone⟩ := hold
        cases hnone
      · exact hold
  · obtain ⟨hwf', hcontent'⟩ := StringTable.decRef_kept hwf hcontent hone
    have hholds : ∀ i str, i ≠ 0 → (t'.Holds i str ↔ t.Holds i str) := fun _ _ hi =>
      h.holds_recount hrep hslot hcontent' hi
    exact ⟨t', heq, .inr ⟨_, hrep, hwf', hkeyed.decRef index⟩,
      fun i str hi hold _ => (hholds i str hi).mpr hold,
      fun _ hdistinct => hdistinct.congr fun i str hi => (hholds i str hi).mp⟩

/-- An insertion fails for a length that is negative or does not fit in a chunk only. -/
theorem Represents.advances_insertn (h : Represents t st) (hwf : st.Wf) (hkeyed : st.Keyed hash)
    (beyond : ℕ → U8) (val : Option (List U8)) (len : ℤ) (caseSens : Bool) :
    (t.insertn hash beyond val len caseSens = none ∧
      ¬ t.Within (.insertn beyond val len caseSens)) ∨
    ∃ j t', t.insertn hash beyond val len caseSens = some (j, t') ∧
      Advances hash t (.insertn beyond val len caseSens) t' := by
  have hself : Advances hash t (.insertn beyond val len caseSens) t :=
    ⟨.inr ⟨st, h, hwf, hkeyed⟩, fun _ _ _ hholds _ => hholds, fun _ hdistinct => hdistinct⟩
  cases val with
  | none => exact .inr ⟨0, t, rfl, hself⟩
  | some val =>
    rw [NodeTable.insertn]
    by_cases hempty : cstr val = [] ∨ len = 0
    · rw [if_pos hempty]
      exact .inr ⟨0, t, rfl, hself⟩
    · have hval : cstr val ≠ [] := fun hval => hempty (.inl hval)
      have hlen : len ≠ 0 := fun hlen => hempty (.inr hlen)
      have hwithin : t.Within (.insertn beyond (some val) len caseSens) → 0 < len ∧
          (sizeofNode : ℤ) + len ≤ chunkSize ∧ ∀ i node, t.mNodeList i = .node node →
            cstr node.stringData = cstr val → len < node.stringData.length :=
        fun hwithin => (hwithin.resolve_left hval).resolve_left hlen
      by_cases hneg : len < 0
      · rw [if_neg hempty, if_pos hneg]
        exact .inl ⟨rfl, fun h => (hwithin h).1.not_gt hneg⟩
      lift len to ℕ using not_lt.mp hneg
      have hpos : 0 < len := Nat.pos_of_ne_zero fun hzero => hlen (congrArg Nat.cast hzero)
      have hbuckets : t.mBuckets.isNone = false := by
        rw [Option.isNone_eq_false_iff]
        exact h.buckets
      rw [if_neg hempty, if_neg hneg, Int.toNat_natCast, hbuckets, if_neg Bool.false_ne_true]
      dsimp only
      rw [h.numBuckets]
      have hb : (hash ((cstr val).take len)).toNat % st.mNumBuckets < t.mNumBuckets := by
        rw [h.numBuckets]
        exact Nat.mod_lt _ hwf.buckets_pos
      obtain ⟨hwalk, hget⟩ := h.walkTo_eq hwf hb (matchesn beyond val len caseSens)
      rw [hwalk]
      dsimp only
      rw [hget]
      cases hfind : (st.mBuckets ((hash ((cstr val).take len)).toNat % st.mNumBuckets)).find?
          (fun i => (t.node? i).any (matchesn beyond val len caseSens i)) with
      | some index =>
        obtain ⟨node, hslot, _⟩ := h.isNode hwf (List.mem_of_find?_eq_some hfind)
        obtain ⟨t', heq, hadvances⟩ := h.advances_incRef hwf hkeyed hslot
          (.insertn beyond (some val) len caseSens)
        have hinsert : (t.incRef index).map (index, ·) = some (index, t') := by
          rw [heq]
          rfl
        exact .inr ⟨index, t', hinsert, hadvances⟩
      | none =>
        have hbehind : (st.mBuckets ((hash ((cstr val).take len)).toNat % st.mNumBuckets)).takeWhile
            (fun i => !(t.node? i).any (matchesn beyond val len caseSens i)) =
              st.mBuckets ((hash ((cstr val).take len)).toNat % st.mNumBuckets) := by
          rw [List.takeWhile_eq_self_iff]
          intro i hi
          have hnot := List.find?_eq_none.mp hfind i hi
          simpa using hnot
        rw [hbehind]
        have hfresh : t.Within (.insertn beyond (some val) len caseSens) →
            ∀ i, i ≠ 0 → ¬ t.Holds i ((cstr val).take len) := fun hw i hi =>
          h.fresh hkeyed (by exact_mod_cast (hwithin hw).2.2) hfind hi
        rcases h.advances_addNode hwf hkeyed hpos hval hfresh with ⟨hfail, hroom⟩ | hadded
        · refine .inl ⟨hfail, fun hw => ?_⟩
          have : sizeofNode + len ≤ chunkSize := by exact_mod_cast (hwithin hw).2.1
          omega
        · exact .inr hadded

/-- A table just made has the node of the empty string only. -/
theorem init_within {op : Op} (h : start.Within op) : init.Within op := by
  cases op with
  | insertn beyond val len caseSens =>
    cases val with
    | none => trivial
    | some val =>
      by_cases hval : cstr val = []
      · exact .inl hval
      · refine h.imp_right (Or.imp_right fun ⟨hpos, hfit, _⟩ => ⟨hpos, hfit, ?_⟩)
        intro i node hnode heq
        have hst := (represents_init.node i node hnode).2
        have hzero := (StringTable.Keyed.init : StringTable.Keyed (fun _ => 0) _).zero
        by_cases hi : i = 0
        · subst hi
          exact absurd (heq.symm.trans (hzero node.content hst)) hval
        · rw [StringTable.init] at hst
          dsimp only at hst
          rw [if_neg hi] at hst
          cases hst
  | incRef index => trivial
  | decRef index => trivial

theorem start_distinct : Distinct start := by
  rintro i j str _ _ ⟨node, hnode, _⟩
  cases hnode

theorem init_distinct : Distinct init := by
  rintro i j str hi _ ⟨node, hnode, _⟩
  have hst := (represents_init.node i node hnode).2
  rw [StringTable.init] at hst
  dsimp only at hst
  rw [if_neg hi] at hst
  cases hst

theorem start_not_allocated : ¬ start.Allocated index := by
  rintro ⟨_, hsome⟩
  cases hsome

/-- The first insertion of a string makes the table first. -/
theorem start_insertn (hash : List U8 → U32) (beyond : ℕ → U8) (val : Option (List U8)) (len : ℤ)
    (caseSens : Bool) : start.insertn hash beyond val len caseSens =
        init.insertn hash beyond val len caseSens ∨
      start.insertn hash beyond val len caseSens = some (0, start) := by
  cases val with
  | none => exact .inr rfl
  | some val =>
    rw [insertn, insertn]
    by_cases hempty : cstr val = [] ∨ len = 0
    · rw [if_pos hempty, if_pos hempty]
      exact .inr rfl
    · rw [if_neg hempty, if_neg hempty]
      exact .inl rfl

/-- What an operation on allocated ids does to a sound table; it fails for a length that is negative
or does not fit in a chunk only. -/
theorem Sound.advances (h : Sound hash t) {op : Op} (hpermitted : t.Permitted op) :
    (step hash t op = none ∧ ¬ t.Within op) ∨
      ∃ t', step hash t op = some t' ∧ Advances hash t op t' := by
  rcases h with rfl | ⟨st, hrep, hwf, hkeyed⟩
  · cases op with
    | insertn beyond val len caseSens =>
      rcases start_insertn hash beyond val len caseSens with hsame | hsame
      · rcases represents_init.advances_insertn StringTable.wf_init
            (StringTable.Keyed.init : StringTable.Keyed hash _) beyond val len caseSens with
          ⟨hfail, hnot⟩ | ⟨j, t', heq, hadvances⟩
        · exact .inl ⟨by rw [step, hsame, hfail, Option.map_none], fun hw => hnot (init_within hw)⟩
        · refine .inr ⟨t', by rw [step, hsame, heq, Option.map_some], hadvances.sound, ?_, ?_⟩
          · rintro i str _ ⟨node, hnode, _⟩
            cases hnode
          · exact fun hw _ => hadvances.distinct (init_within hw) init_distinct
      · exact .inr ⟨start, by rw [step, hsame, Option.map_some], .inl rfl,
          fun _ _ _ hholds _ => hholds, fun _ hdistinct => hdistinct⟩
    | incRef index => exact absurd hpermitted start_not_allocated
    | decRef index => exact absurd hpermitted start_not_allocated
  · cases op with
    | insertn beyond val len caseSens =>
      rcases hrep.advances_insertn hwf hkeyed beyond val len caseSens with
        ⟨hfail, hnot⟩ | ⟨j, t', heq, hadvances⟩
      · exact .inl ⟨by rw [step, hfail, Option.map_none], hnot⟩
      · exact .inr ⟨t', by rw [step, heq, Option.map_some], hadvances⟩
    | incRef index =>
      have hallocated : t.Allocated index := hpermitted
      obtain ⟨node, hnode⟩ := Option.isSome_iff_exists.mp hallocated.2
      obtain ⟨t', heq, hadvances⟩ := hrep.advances_incRef hwf hkeyed (node?_eq_some.mp hnode)
        (.incRef index)
      exact .inr ⟨t', by rw [step, if_pos hallocated, heq], hadvances⟩
    | decRef index =>
      have hallocated : t.Allocated index := hpermitted
      obtain ⟨node, hnode⟩ := Option.isSome_iff_exists.mp hallocated.2
      obtain ⟨t', heq, hadvances⟩ := hrep.advances_decRef hwf hkeyed hallocated.1
        (node?_eq_some.mp hnode)
      exact .inr ⟨t', by rw [step, if_pos hallocated, heq], hadvances⟩

end step

theorem permitted_of_step {op : Op} (htaken : step hash t op = some t') : t.Permitted op := by
  cases op with
  | insertn => trivial
  | incRef index =>
    rw [step] at htaken
    split at htaken
    · rename_i hallocated
      exact hallocated
    · cases htaken
  | decRef index =>
    rw [step] at htaken
    split at htaken
    · rename_i hallocated
      exact hallocated
    · cases htaken

theorem Sound.step (h : Sound hash t) {op : Op} (htaken : step hash t op = some t') :
    Advances hash t op t' := by
  rcases h.advances (permitted_of_step htaken) with ⟨hfail, _⟩ | ⟨u, heq, hadvances⟩
  · rw [hfail] at htaken
    cases htaken
  · obtain rfl := Option.some.inj (htaken.symm.trans heq)
    exact hadvances

/-- The table is sound after any operations, whatever lengths they are given. -/
theorem Sound.run (h : Sound hash t) {guard : NodeTable → Op → Prop} {ops : List Op}
    (hrun : Run (NodeTable.step hash) guard t ops t') : Sound hash t' :=
  hrun.invariant (fun _ _ _ hsound _ htaken => (hsound.step htaken).sound) h

theorem Distinct.run (h : Distinct t) (hsound : Sound hash t) {ops : List Op}
    (hrun : Run (NodeTable.step hash) Within t ops t') : Distinct t' :=
  hrun.invariant_along (fun _ _ _ hsound _ htaken => (hsound.step htaken).sound)
    (fun _ _ _ hsound hdistinct hwithin htaken => (hsound.step htaken).distinct hwithin hdistinct)
    hsound h

/-- A node keeps its id and its string over a run that does not take its last reference. -/
theorem Sound.keeps (h : Sound hash t) {ops : List Op} {str : List U8} (hi : i ≠ 0)
    (hrun : Run (NodeTable.step hash) (fun t op => ¬ t.TakesLast i op) t ops t')
    (hholds : t.Holds i str) : t'.Holds i str :=
  hrun.invariant_along (I := fun t => t.Holds i str)
    (fun _ _ _ (hsound : Sound hash _) _ htaken => (hsound.step htaken).sound)
    (fun _ _ _ hsound hholds hkept htaken => (hsound.step htaken).keeps i str hi hholds hkept)
    h hholds

/-- When every insertion is given a length that fits in a chunk and does not lead behind the node that
has the string, the table keeps its structure, no operation fails, and nodes stay as they are until
they are freed. -/
theorem structured_of_within (hash : List U8 → U32) (ops : List Op) (t : NodeTable)
    (hrun : Run (step hash) Within start ops t) :
    Structured hash t ∧
    (∀ op, t.Within op → t.Permitted op → ∃ t', step hash t op = some t') ∧
    ∀ i str ops' t', i ≠ 0 → t.Holds i str →
      Run (step hash) (fun t op => ¬ t.TakesLast i op) t ops' t' →
      t'.Holds i str := by
  have hsound : Sound hash t := Sound.run (.inl rfl) hrun
  have hdistinct : Distinct t := start_distinct.run (.inl rfl) hrun
  refine ⟨hsound.structured hdistinct, fun op hwithin hpermitted => ?_,
    fun i str ops' t' hi hholds hrun' => hsound.keeps hi hrun' hholds⟩
  rcases hsound.advances hpermitted with ⟨_, hnot⟩ | ⟨t', heq, _⟩
  · exact absurd hwithin hnot
  · exact ⟨t', heq⟩

/-- "ab" in memory. -/
def ab : List U8 := [0x61, 0x62, 0]

/-- "cd" in memory. -/
def cd : List U8 := [0x63, 0x64, 0]

theorem structured_of_within_ab : ∃ t t' : NodeTable,
    Run (step fun _ => 0) Within start [.insertn (fun _ => 2) (some ab) 2 true] t ∧
    step (fun _ => 0) t (.incRef 1) = some t' ∧ Structured (fun _ => 0) t ∧
    t.Holds 1 [0x61, 0x62] ∧ t'.Holds 1 [0x61, 0x62] := by
  have htaken : ∃ t, step (fun _ => 0) start (.insertn (fun _ => 2) (some ab) 2 true) = some t ∧
      ((t.node? 1).map fun node => cstr node.stringData) = some [0x61, 0x62] := by
    decide +kernel
  obtain ⟨t, htaken, hstr⟩ := htaken
  obtain ⟨node, hnode, hstr⟩ := Option.map_eq_some_iff.mp hstr
  have hwithin : start.Within (.insertn (fun _ => 2) (some ab) 2 true) :=
    .inr (.inr ⟨by decide, by decide, fun i node hnode => by cases hnode⟩)
  have hrun : Run (step fun _ => 0) Within start [.insertn (fun _ => 2) (some ab) 2 true] t :=
    .cons hwithin htaken (.nil t)
  obtain ⟨hstructured, hprogress, hkeep⟩ := structured_of_within _ _ t hrun
  have hholds : t.Holds 1 [0x61, 0x62] := ⟨node, node?_eq_some.mp hnode, hstr⟩
  obtain ⟨t', htaken'⟩ := hprogress (.incRef 1) trivial
    ⟨one_ne_zero, Option.isSome_iff_exists.mpr ⟨node, hnode⟩⟩
  have hrun' : Run (step fun _ => 0) (fun t op => ¬ t.TakesLast 1 op) t [.incRef 1] t' :=
    .cons (fun hlast => hlast) htaken' (.nil t')
  exact ⟨t, t', hrun, htaken', hstructured, hholds, hkeep 1 _ _ t' one_ne_zero hholds hrun'⟩

/-- The second insertion of "ab" takes eight for its length, so that the comparison reads a byte of the
index of the node behind. -/
theorem within_needed : ∃ t : NodeTable,
    Run (step fun _ => 0) (fun t op => t.Permitted op) start
      [.insertn (fun _ => 2) (some ab) 2 true, .insertn (fun _ => 2) (some cd) 2 true,
        .insertn (fun _ => 2) (some ab) 8 true] t ∧
      ¬ Structured (fun _ => 0) t := by
  have hexec : ∃ t, exec (step fun _ => 0) start
      [.insertn (fun _ => 2) (some ab) 2 true, .insertn (fun _ => 2) (some cd) 2 true,
        .insertn (fun _ => 2) (some ab) 8 true] = some t ∧
      ((t.node? 1).map fun node => cstr node.stringData) = some [0x61, 0x62] ∧
      ((t.node? 3).map fun node => cstr node.stringData) = some [0x61, 0x62] := by
    decide +kernel
  obtain ⟨t, hexec, hfirst, hsecond⟩ := hexec
  have hguard : ∀ t op t', step (fun _ => 0) t op = some t' → (True ↔ t.Permitted op) :=
    fun _ _ _ htaken => iff_of_true trivial (permitted_of_step htaken)
  refine ⟨t, (Run.congr_guard hguard).mp (Run.of_exec hexec), ?_⟩
  intro hstructured
  obtain ⟨node, hnode, hstr⟩ := Option.map_eq_some_iff.mp hfirst
  obtain ⟨node', hnode', hstr'⟩ := Option.map_eq_some_iff.mp hsecond
  have heq := hstructured.distinct 1 3 node node' (node?_eq_some.mp hnode) (node?_eq_some.mp hnode')
    (hstr.trans hstr'.symm)
  omega

end NodeTable

end TNL
