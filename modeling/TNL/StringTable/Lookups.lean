import TNL.StringTable.NodeTableStructure

/-!
# Lookups in the global string table

A lookup hashes its string anew and walks along one chain. The table of squares
has no entry for a negative character, and there are no chains before the first
insertion. A lookup that is given a length may read behind a node.
-/
namespace TNL
open Library

instance (caseSens : Bool) (a b : List U8) : Decidable (sameString caseSens a b) :=
  inferInstanceAs (Decidable (if caseSens then _ else _))

namespace NodeTable

def sgToLowerTable (c : U8) : U8 := toLower c * toLower c

/-- The hash of characters, which are signed when they index the table. -/
def hashFrom (ret : U32) : List U8 → Option U32
  | [] => some ret
  | c :: str =>
    if c < 0x80#8 then hashFrom ((ret <<< 1) ^^^ (sgToLowerTable c).setWidth 32) str else none

/-- The characters that are hashed: a negative length is never counted down to zero. -/
def counted (val : List U8) (len : ℤ) : List U8 :=
  if len < 0 then cstr val else (cstr val).take len.toNat

def hashString (val : List U8) : Option U32 := hashFrom 0 (cstr val)

def hashStringn (val : List U8) (len : ℤ) : Option U32 := hashFrom 0 (counted val len)

/-- The walk along the chain of a hash. There is a modulo by the number of buckets. -/
def lookupWith (t : NodeTable) (key : Option U32) (examine : Node → Option Bool) : Option ℕ :=
  match key, t.mBuckets with
  | some key, some _ =>
    if t.mNumBuckets = 0 then none
    else
      let bucket := key.toNat % t.mNumBuckets
      (seek t.next (t.first bucket) (fun i => (t.node? i).bind examine) (t.mNodeListSize + 1)
        .head).map fun walk => (walk.get t.next (t.first bucket)).getD 0
  | _, _ => none

/-- The comparison of a node's string, which `strcmp` or `stricmp` makes. -/
def examine (val : List U8) (caseSens : Bool) (node : Node) : Option Bool :=
  some (sameString caseSens (cstr node.stringData) (cstr val))

/-- `strncmp` or `strnicmp` takes a negative length for a huge one. The byte at the index `len` must
be one of the node's. -/
def examinen (val : List U8) (len : ℤ) (caseSens : Bool) (node : Node) : Option Bool :=
  if len < 0 then if sameString caseSens (cstr node.stringData) (cstr val) then none else some false
  else if sameStringn caseSens node.stringData val len.toNat then
    node.stringData[len.toNat]?.map (· = 0)
  else some false

def lookup (t : NodeTable) (val : List U8) (caseSens : Bool) : Option ℕ :=
  t.lookupWith (hashString val) (examine val caseSens)

def lookupn (t : NodeTable) (val : List U8) (len : ℤ) (caseSens : Bool) : Option ℕ :=
  t.lookupWith (hashStringn val len) (examinen val len caseSens)

/-- A lookup returns the id of a node with an equal string, or zero when there is none. -/
def Finds (t : NodeTable) (equal : List U8 → Prop) (result : Option ℕ) : Prop :=
  ∃ index, result = some index ∧
    ((index ≠ 0 ∧ ∃ str, t.Holds index str ∧ equal str) ∨
      (index = 0 ∧ ∀ i str, i ≠ 0 → t.Holds i str → ¬ equal str))

/-- The hash of the table is the code's where that reads inside its table of squares. -/
def HashesAs (hash : List U8 → U32) : Prop := ∀ str key, hashFrom 0 str = some key → hash str = key

section hash
variable {str str' : List U8} {ret : U32}

theorem hashFrom_isSome : (hashFrom ret str).isSome ↔ ∀ c ∈ str, c < 0x80#8 := by
  induction str generalizing ret with
  | nil => simp [hashFrom]
  | cons c str ih =>
    rw [hashFrom, List.forall_mem_cons]
    split
    · rename_i hc
      rw [ih]
      exact (and_iff_right hc).symm
    · rename_i hc
      simp [hc]

theorem lt_of_toLower_eq {c d : U8} (h : toLower c = toLower d) : c < 0x80#8 ↔ d < 0x80#8 := by
  have hkeep : ∀ c : U8, toLower c < 0x80#8 ↔ c < 0x80#8 := by
    intro c
    rw [toLower]
    split
    · rename_i hletter
      bv_omega
    · rfl
  rw [← hkeep c, h, hkeep d]

/-- The case of letters does not change the hash. -/
theorem hashFrom_congr (h : str.map toLower = str'.map toLower) :
    hashFrom ret str = hashFrom ret str' := by
  induction str generalizing str' ret with
  | nil =>
    obtain rfl := List.map_eq_nil_iff.mp h.symm
    rfl
  | cons c str ih =>
    obtain ⟨d, str', rfl, hd, hrest⟩ := List.map_eq_cons_iff.mp h.symm
    have hsquare : sgToLowerTable c = sgToLowerTable d := by
      rw [sgToLowerTable, sgToLowerTable, hd]
    rw [hashFrom, hashFrom, hsquare]
    by_cases hc : c < 0x80#8
    · rw [if_pos hc, if_pos ((lt_of_toLower_eq hd.symm).mp hc)]
      exact ih hrest.symm
    · rw [if_neg hc, if_neg (mt (lt_of_toLower_eq hd.symm).mpr hc)]

theorem map_toLower_of_sameString {caseSens : Bool} (h : sameString caseSens str str') :
    str.map toLower = str'.map toLower := by
  cases caseSens with
  | true => exact congrArg (List.map toLower) h
  | false => exact h

end hash

variable {hash : List U8 → U32} {t : NodeTable} {st : StringTable} {i : ℕ} {node : Node}

theorem lookupWith_start (key : Option U32) (examine : Node → Option Bool) :
    start.lookupWith key examine = none := by
  cases key <;> rfl

/-- A lookup walks along the chain of its hash. -/
theorem Represents.lookupWith_eq (h : Represents t st) (hwf : st.Wf) (key : U32)
    (examine : Node → Option Bool) :
    t.lookupWith (some key) examine =
      (scan (fun i => (t.node? i).bind examine) (st.mBuckets (key.toNat % st.mNumBuckets))).map
        fun index => index.getD 0 := by
  obtain ⟨buckets, hbuckets⟩ := Option.isSome_iff_exists.mp h.buckets
  have hb : key.toNat % st.mNumBuckets < t.mNumBuckets := by
    rw [h.numBuckets]
    exact Nat.mod_lt _ hwf.buckets_pos
  have hlength : (st.mBuckets (key.toNat % st.mNumBuckets)).length < t.mNodeListSize + 1 := by
    have hle := length_le (hwf.chain_nodup (key.toNat % st.mNumBuckets)) fun i hi => lt_size hwf hi
    rw [h.size]
    omega
  have hscan : (seek t.next (t.first _) (fun i => (t.node? i).bind examine) (t.mNodeListSize + 1)
      (ChainLink.behind [])).map (ChainLink.get t.next (t.first _)) = scan _ _ :=
    seek_scan (h.chain _ hb) hlength
  rw [← hscan, Option.map_map, lookupWith.eq_1 _ _ _ buckets hbuckets, h.numBuckets,
    if_neg hwf.buckets_pos.ne']
  rfl

/-- A lookup whose examinations tell equal strings finds one of them, if it hashes its characters and
examines the nodes inside their memory. -/
theorem Represents.lookupWith_finds (h : Represents t st) (hwf : st.Wf) (hkeyed : st.Keyed hash)
    (has : HashesAs hash) {part : List U8} {caseSens : Bool} {examine : Node → Option Bool}
    (hequal : ∀ i node, i ≠ 0 → t.mNodeList i = .node node → ∀ found, examine node = some found →
      (found = true ↔ sameString caseSens (cstr node.stringData) part)) :
    Finds t (sameString caseSens · part) (t.lookupWith (hashFrom 0 part) examine) ↔
      ∃ key, hashFrom 0 part = some key ∧
        scan (fun i => (t.node? i).bind examine) (st.mBuckets (key.toNat % st.mNumBuckets)) ≠
          none := by
  cases hkey : hashFrom 0 part with
  | none => simp [Finds, lookupWith]
  | some key =>
    rw [h.lookupWith_eq hwf]
    cases hscan : scan (fun i => (t.node? i).bind examine)
        (st.mBuckets (key.toNat % st.mNumBuckets)) with
    | none => simp [Finds, hscan]
    | some index =>
      refine iff_of_true ?_ ⟨key, rfl, by rw [hscan]; exact Option.some_ne_none index⟩
      cases index with
      | some index =>
        obtain ⟨hmem, hfound⟩ := scan_eq_some_some hscan
        obtain ⟨node, hslot, _, hne, _⟩ := h.isNode hwf hmem
        rw [node?_eq_some.mpr hslot, Option.bind_some] at hfound
        exact ⟨index, rfl, .inl ⟨hne, _, ⟨node, hslot, rfl⟩,
          (hequal index node hne hslot true hfound).mp rfl⟩⟩
      | none =>
        refine ⟨0, rfl, .inr ⟨rfl, ?_⟩⟩
        rintro i _ hi ⟨node, hslot, rfl⟩ hsame
        have hst := (h.node i node hslot).2
        have hmem := hkeyed.chained i node.content hst hi
        -- an equal string has the hash that is looked for
        have hhash : hash (cstr node.stringData) = key :=
          has _ key ((hashFrom_congr (map_toLower_of_sameString hsame)).trans hkey)
        rw [(hkeyed.hashed i node.content hst hi).1, Node.content, hhash] at hmem
        have hnot := scan_eq_some_none hscan i hmem
        rw [node?_eq_some.mpr hslot, Option.bind_some] at hnot
        cases (hequal i node hi hslot false hnot).mpr hsame

/-- A lookup finds the string, when the table is there and the string has no negative character. -/
theorem lookup_finds (hash : List U8 → U32) (has : HashesAs hash) (ops : List Op) (t : NodeTable)
    (hrun : Run (step hash) (fun _ _ => True) start ops t) (val : List U8) (caseSens : Bool) :
    Finds t (sameString caseSens · (cstr val)) (t.lookup val caseSens) ↔
      t.mBuckets.isSome ∧ ∀ c ∈ cstr val, c < 0x80#8 := by
  have hsound : Sound hash t := Sound.run (.inl rfl) hrun
  rcases hsound with rfl | ⟨st, h, hwf, hkeyed⟩
  · rw [lookup, lookupWith_start]
    simp [Finds, start]
  · have hequal : ∀ i node, i ≠ 0 → t.mNodeList i = .node node → ∀ found,
        examine val caseSens node = some found →
          (found = true ↔ sameString caseSens (cstr node.stringData) (cstr val)) := by
      intro i node _ _ found hfound
      obtain rfl := Option.some.inj hfound
      exact decide_eq_true_iff
    have hhashed : (hashFrom 0 (cstr val)).isSome ↔ ∀ c ∈ cstr val, c < 0x80#8 := hashFrom_isSome
    rw [lookup, hashString, h.lookupWith_finds hwf hkeyed has hequal,
      and_iff_right h.buckets, ← hhashed, Option.isSome_iff_exists]
    refine exists_congr fun key => and_iff_left fun hfail => ?_
    obtain ⟨before, i, after, hsplit, _, hnone⟩ := scan_eq_none.mp hfail
    obtain ⟨node, hslot, _⟩ := h.isNode hwf (i := i) (b := key.toNat % st.mNumBuckets) (by
      rw [hsplit]
      simp)
    rw [node?_eq_some.mpr hslot] at hnone
    cases hnone

/-- The first node of the chain that has an equal string. -/
def FirstEqual (t : NodeTable) (bucket : ℕ) (val : List U8) (caseSens : Bool) (i : ℕ) : Prop :=
  ∃ chain, Chain t.next (t.first bucket) chain none ∧ chain.find? (fun i =>
    (t.node? i).any fun node => sameString caseSens (cstr node.stringData) (cstr val)) = some i

/-- The index `len` is one in the first node that has the whole string. -/
def InReach (t : NodeTable) (val : List U8) (len : ℤ) (caseSens : Bool) : Prop :=
  (0 ≤ len ∧ len ≤ (cstr val).length) ∨
    ∀ key i node, hashString val = some key →
      t.FirstEqual (key.toNat % t.mNumBuckets) val caseSens i → t.mNodeList i = .node node →
      0 ≤ len ∧ len < node.stringData.length

section lookupn
variable {val : List U8} {len : ℤ} {caseSens : Bool} {data : List U8} {pad : ℕ}

theorem sameString_length (h : sameString caseSens data val) : data.length = val.length := by
  simpa using congrArg List.length (map_toLower_of_sameString h)

/-- Behind the end of its string a node holds zeros. -/
theorem padded_getElem? {n : ℕ} (hdata : data = cstr data ++ List.replicate (pad + 1) 0)
    (hle : (cstr data).length ≤ n) {c : U8} (hc : data[n]? = some c) : c = 0 := by
  rw [hdata, List.getElem?_append_right hle, List.getElem?_replicate] at hc
  split at hc
  · exact (Option.some.inj hc).symm
  · cases hc

theorem counted_of_outside (hout : ¬ (0 ≤ len ∧ len ≤ (cstr val).length)) :
    counted val len = cstr val := by
  rw [counted]
  split
  · rfl
  · exact List.take_of_length_le (by omega)

/-- An examination that gives an answer tells equal strings. -/
theorem examinen_eq (hdata : node.stringData = cstr node.stringData ++ List.replicate (pad + 1) 0)
    {found : Bool} (hfound : examinen val len caseSens node = some found) :
    found = true ↔ sameString caseSens (cstr node.stringData) (counted val len) := by
  rw [examinen] at hfound
  rw [counted]
  by_cases hneg : len < 0
  · rw [if_pos hneg] at hfound ⊢
    split at hfound
    · cases hfound
    · rename_i hdiffer
      obtain rfl := Option.some.inj hfound
      exact iff_of_false Bool.false_ne_true hdiffer
  · rw [if_neg hneg] at hfound ⊢
    split at hfound
    · rename_i hsame
      obtain ⟨c, hc, hclosed⟩ := Option.map_eq_some_iff.mp hfound
      rw [← hclosed, decide_eq_true_iff]
      constructor
      · rintro rfl
        have hread : node.stringData.getD len.toNat 0 = 0 := by
          rw [List.getD_eq_getElem?_getD, hc, Option.getD_some]
        exact StringTable.sameString_of_sameStringn hsame hread
      · intro hsame
        refine padded_getElem? hdata ?_ hc
        rw [sameString_length hsame]
        exact List.length_take_le ..
    · rename_i hdiffer
      obtain rfl := Option.some.inj hfound
      refine iff_of_false Bool.false_ne_true fun hsame => hdiffer ?_
      have hle : (cstr node.stringData).length ≤ len.toNat := by
        rw [sameString_length hsame]
        exact List.length_take_le ..
      rw [sameStringn, List.take_of_length_le hle]
      exact hsame

/-- A length of a part of the string is an index in every node that compares equal. -/
theorem examinen_inside
    (hdata : node.stringData = cstr node.stringData ++ List.replicate (pad + 1) 0)
    (hin : 0 ≤ len ∧ len ≤ (cstr val).length) : examinen val len caseSens node ≠ none := by
  rw [examinen, if_neg (not_lt.mpr hin.1)]
  split
  · rename_i hsame
    have hlength : ((cstr node.stringData).take len.toNat).length =
        ((cstr val).take len.toNat).length := by
      have hmap : ((cstr node.stringData).take len.toNat).map toLower =
          ((cstr val).take len.toNat).map toLower := by
        rw [sameStringn] at hsame
        split at hsame
        · rw [hsame]
        · exact hsame
      simpa using congrArg List.length hmap
    have hbytes := congrArg List.length hdata
    rw [List.length_take, List.length_take] at hlength
    rw [List.length_append, List.length_replicate] at hbytes
    have hlt : len.toNat < node.stringData.length := by omega
    rw [List.getElem?_eq_getElem hlt]
    exact Option.some_ne_none _
  · exact Option.some_ne_none _

/-- Any other length leads to the whole string being compared, and the byte read is behind it. -/
theorem examinen_outside
    (hdata : node.stringData = cstr node.stringData ++ List.replicate (pad + 1) 0)
    (hout : ¬ (0 ≤ len ∧ len ≤ (cstr val).length)) : examinen val len caseSens node =
      if sameString caseSens (cstr node.stringData) (cstr val) then
        if 0 ≤ len ∧ len < node.stringData.length then some true else none
      else some false := by
  rw [examinen]
  by_cases hneg : len < 0
  · rw [if_pos hneg, if_neg (fun hin : 0 ≤ len ∧ _ => hin.1.not_gt hneg)]
  · have hlong : (cstr val).length ≤ len.toNat := by omega
    have hbytes := congrArg List.length hdata
    rw [List.length_append, List.length_replicate] at hbytes
    have hsame : sameStringn caseSens node.stringData val len.toNat ↔
        sameString caseSens (cstr node.stringData) (cstr val) := by
      change sameString caseSens ((cstr node.stringData).take len.toNat)
        ((cstr val).take len.toNat) ↔ _
      rw [List.take_of_length_le hlong]
      constructor
      · intro h
        have hlength := sameString_length h
        rw [List.length_take] at hlength
        rwa [List.take_of_length_le (by omega)] at h
      · intro h
        have hlength := sameString_length h
        rwa [List.take_of_length_le (by omega)]
    rw [if_neg hneg]
    by_cases heq : sameString caseSens (cstr node.stringData) (cstr val)
    · rw [if_pos (hsame.mpr heq), if_pos heq]
      have hlength := sameString_length heq
      split
      · rename_i hin
        have hlt : len.toNat < node.stringData.length := by omega
        have hzero := padded_getElem? hdata (by omega) (List.getElem?_eq_getElem hlt)
        rw [List.getElem?_eq_getElem hlt, Option.map_some, hzero]
        rfl
      · rename_i hbehind
        have hge : node.stringData.length ≤ len.toNat := by omega
        rw [List.getElem?_eq_none hge]
        rfl
    · rw [if_neg (mt hsame.mp heq), if_neg heq]

theorem Represents.padded (h : Represents t st) (hkeyed : st.Keyed hash) (hi : i ≠ 0)
    (hslot : t.mNodeList i = .node node) :
    ∃ pad, node.stringData = cstr node.stringData ++ List.replicate (pad + 1) 0 :=
  (hkeyed.hashed i node.content (h.node i node hslot).2 hi).2.2

/-- A walk stays inside the nodes when the first node with the whole string is long enough. -/
theorem Represents.scan_examinen (h : Represents t st) (hwf : st.Wf) (hkeyed : st.Keyed hash)
    {key : U32} (hkey : hashStringn val len = some key) :
    scan (fun i => (t.node? i).bind (examinen val len caseSens))
        (st.mBuckets (key.toNat % st.mNumBuckets)) ≠ none ↔ t.InReach val len caseSens := by
  set chain := st.mBuckets (key.toNat % st.mNumBuckets) with hchain
  have hnodes : ∀ i ∈ chain, ∃ node, t.mNodeList i = .node node ∧
      ∃ pad, node.stringData = cstr node.stringData ++ List.replicate (pad + 1) 0 := by
    intro i hi
    obtain ⟨node, hslot, _, hne, _⟩ := h.isNode hwf hi
    exact ⟨node, hslot, h.padded hkeyed hne hslot⟩
  by_cases hin : 0 ≤ len ∧ len ≤ (cstr val).length
  · refine iff_of_true (fun hfail => ?_) (.inl hin)
    obtain ⟨before, i, after, hsplit, _, hnone⟩ := scan_eq_none.mp hfail
    obtain ⟨node, hslot, pad, hdata⟩ := hnodes i (by rw [hsplit]; simp)
    rw [node?_eq_some.mpr hslot, Option.bind_some] at hnone
    exact examinen_inside hdata hin hnone
  · have hexamine : ∀ i ∈ chain, (t.node? i).bind (examinen val len caseSens) =
        if (t.node? i).any fun node => sameString caseSens (cstr node.stringData) (cstr val) then
          if (t.node? i).any fun node => 0 ≤ len ∧ len < node.stringData.length then some true
          else none
        else some false := by
      intro i hi
      obtain ⟨node, hslot, pad, hdata⟩ := hnodes i hi
      rw [node?_eq_some.mpr hslot, Option.bind_some, examinen_outside hdata hin]
      simp only [Option.any_some, decide_eq_true_eq]
    have hcode : hashString val = some key := by
      rw [hashString, ← counted_of_outside hin]
      exact hkey
    have hlinked : Chain t.next (t.first (key.toNat % t.mNumBuckets)) chain none := by
      rw [hchain, h.numBuckets]
      exact h.chain _ (by rw [h.numBuckets]; exact Nat.mod_lt _ hwf.buckets_pos)
    rw [scan_ne_none hexamine]
    constructor
    · refine fun hfirst => .inr fun key' i node hkey' hequal hslot => ?_
      obtain rfl := Option.some.inj (hcode.symm.trans hkey')
      obtain ⟨chain', hlinked', hfind⟩ := hequal
      rw [hlinked'.unique hlinked] at hfind
      have hsound := hfirst i hfind
      rw [node?_eq_some.mpr hslot, Option.any_some, decide_eq_true_iff] at hsound
      exact hsound
    · intro hreach i hfind
      obtain ⟨node, hslot, _⟩ := hnodes i (List.mem_of_find?_eq_some hfind)
      rw [node?_eq_some.mpr hslot, Option.any_some, decide_eq_true_iff]
      exact (hreach.resolve_left hin) key i node hcode ⟨chain, hlinked, hfind⟩ hslot

/-- A lookup of a part finds it, when the table is there, the part has no negative character, and the
index of the last comparison is in reach. -/
theorem lookupn_finds (hash : List U8 → U32) (has : HashesAs hash) (ops : List Op) (t : NodeTable)
    (hrun : Run (step hash) (fun _ _ => True) start ops t) (val : List U8) (len : ℤ)
    (caseSens : Bool) :
    Finds t (sameString caseSens · (counted val len)) (t.lookupn val len caseSens) ↔
      t.mBuckets.isSome ∧ (∀ c ∈ counted val len, c < 0x80#8) ∧ t.InReach val len caseSens := by
  have hsound : Sound hash t := Sound.run (.inl rfl) hrun
  rcases hsound with rfl | ⟨st, h, hwf, hkeyed⟩
  · rw [lookupn, lookupWith_start]
    simp [Finds, start]
  · have hequal : ∀ i node, i ≠ 0 → t.mNodeList i = .node node → ∀ found,
        examinen val len caseSens node = some found →
          (found = true ↔ sameString caseSens (cstr node.stringData) (counted val len)) := by
      intro i node hi hslot found hfound
      obtain ⟨pad, hdata⟩ := h.padded hkeyed hi hslot
      exact examinen_eq hdata hfound
    have hhashed : (hashFrom 0 (counted val len)).isSome ↔ ∀ c ∈ counted val len, c < 0x80#8 :=
      hashFrom_isSome
    rw [lookupn, hashStringn, h.lookupWith_finds hwf hkeyed has hequal, and_iff_right h.buckets,
      ← hhashed, Option.isSome_iff_exists, ← exists_and_right]
    exact exists_congr fun key => and_congr_right fun hkey => h.scan_examinen hwf hkeyed hkey

end lookupn

/-- Lookups agree with insertions in every state, when the table is there, the characters hashed are
not negative, and the length of a part leads to no byte behind the node with the whole string. -/
theorem lookups_agree (hash : List U8 → U32) (has : HashesAs hash) (ops : List Op) (t : NodeTable)
    (hrun : Run (step hash) (fun _ _ => True) start ops t) (val : List U8) (len : ℤ)
    (caseSens : Bool) :
    (Finds t (sameString caseSens · (cstr val)) (t.lookup val caseSens) ↔
      t.mBuckets.isSome ∧ ∀ c ∈ cstr val, c < 0x80#8) ∧
    (Finds t (sameString caseSens · (counted val len)) (t.lookupn val len caseSens) ↔
      t.mBuckets.isSome ∧ (∀ c ∈ counted val len, c < 0x80#8) ∧ t.InReach val len caseSens) :=
  ⟨lookup_finds hash has ops t hrun val caseSens, lookupn_finds hash has ops t hrun val len caseSens⟩

/-- "AB" is found as "ab", also as a part of "ABC". -/
theorem lookups_agree_ab : ∃ t : NodeTable,
    Run (step fun str => (hashFrom 0 str).getD 0) (fun _ _ => True) start
      [.insertn (fun _ => 0) (some ab) 2 true] t ∧
    Finds t (sameString false · [0x41, 0x42]) (t.lookup [0x41, 0x42, 0] false) ∧
    Finds t (sameString false · [0x41, 0x42]) (t.lookupn [0x41, 0x42, 0x43, 0] 2 false) := by
  have has : HashesAs fun str => (hashFrom 0 str).getD 0 := by
    intro str key hkey
    dsimp only
    rw [hkey, Option.getD_some]
  have hexec : ∃ t, exec (step fun str => (hashFrom 0 str).getD 0) start
      [.insertn (fun _ => 0) (some ab) 2 true] = some t ∧ t.mBuckets.isSome := by
    decide +kernel
  obtain ⟨t, hexec, hbuckets⟩ := hexec
  have hrun := Run.of_exec hexec
  have hwhole := (lookups_agree _ has _ t hrun [0x41, 0x42, 0] 0 false).1
  have hpart := (lookups_agree _ has _ t hrun [0x41, 0x42, 0x43, 0] 2 false).2
  exact ⟨t, hrun, hwhole.mpr ⟨hbuckets, by decide⟩,
    hpart.mpr ⟨hbuckets, by decide, .inl (by decide)⟩⟩

/-- Before the first insertion a lookup takes its hash modulo zero. -/
theorem lookup_at_start : ∃ t : NodeTable,
    Run (step fun str => (hashFrom 0 str).getD 0) (fun _ _ => True) start [] t ∧
    ¬ Finds t (sameString true · [0x61, 0x62]) (t.lookup ab true) := by
  refine ⟨start, .nil start, ?_⟩
  rintro ⟨index, hfound, _⟩
  rw [lookup, lookupWith_start] at hfound
  cases hfound

end NodeTable

end TNL
