import Mathlib.Data.Fintype.Card
import TNL.Library.Chain
import TNL.Library.SentinelList
import TNL.StringTable.LastUse

/-!
# The entries of the string table in memory

An entry is linked into a hash chain and, between two sentinels, into the list in
the order of use. A write may unlink it from both and link it in elsewhere.
-/
namespace TNL
open Library

/-- What a link of the list in the order of use leads to. -/
inductive LRULink where
  | entry (index : ℕ)
  | mLRUHead
  | mLRUTail
  deriving DecidableEq

/-- The fields of `mEntryTable`, one function each; `links` are `nextLink` and `prevLink`. -/
structure EntryTable (ν : Type*) where
  string : ℕ → ν
  receiveConfirmed : ℕ → Bool
  nextHash : ℕ → Option ℕ
  mHashTable : ℕ → Option ℕ
  links : Links LRULink

namespace EntryTable
open ConnectionStringTable

variable {ν : Type*}

/-- Every entry is linked to its neighbours in the table, and the first and the last one to the
sentinels. -/
def new [Inhabited ν] : EntryTable ν where
  string _ := default
  receiveConfirmed _ := false
  nextHash _ := none
  mHashTable _ := none
  links :=
    let links : Links LRULink := ⟨fun
      | .entry i => .entry (i + 1)
      | link => link, fun
      | .entry i => .entry (i - 1)
      | link => link⟩
    let links := links.setNext .mLRUHead (.entry 0)
    let links := links.setPrev (.entry 0) .mLRUHead
    let links := links.setPrev .mLRUTail (.entry (entryCount - 1))
    links.setNext (.entry (entryCount - 1)) .mLRUTail

def pushBack (t : EntryTable ν) (entry : ℕ) : EntryTable ν :=
  { t with links := (t.links.unlink (.entry entry)).insertBefore (.entry entry) .mLRUTail }

/-- Walk a chain to the first entry that satisfies a test. -/
def walk (t : EntryTable ν) (hashIndex : ℕ) (test : ℕ → Bool) : Option ChainLink :=
  seek t.nextHash (t.mHashTable hashIndex) (fun entry => some (test entry)) (entryCount + 1) .head

section writing

variable [DecidableEq ν] (getIndex : ν → ℕ) (t : EntryTable ν) (string : ν)

def find : Option (Option ℕ) :=
  let hashIndex := getIndex string % entryCount
  (t.walk hashIndex fun entry => t.string entry = string).map
    (ChainLink.get t.nextHash (t.mHashTable hashIndex))

omit [DecidableEq ν] in
/-- Take an entry out of the chain of its string. -/
def removeHash (sendEntry : ℕ) : Option (EntryTable ν) :=
  let hashIndex := getIndex (t.string sendEntry) % entryCount
  (t.walk hashIndex fun entry => entry = sendEntry).map fun hashWalk =>
    match hashWalk.get t.nextHash (t.mHashTable hashIndex) with
    | none => t
    | some _ => { t with
        nextHash := hashWalk.setNext t.nextHash (t.nextHash sendEntry)
        mHashTable := Function.update t.mHashTable hashIndex
          (hashWalk.setHead (t.mHashTable hashIndex) (t.nextHash sendEntry)) }

omit [DecidableEq ν] in
/-- Give an entry a string and link it in at the head of the chain of the string. -/
def assign (sendEntry : ℕ) : EntryTable ν :=
  let hashIndex := getIndex string % entryCount
  { t with
    string := Function.update t.string sendEntry string
    receiveConfirmed := Function.update t.receiveConfirmed sendEntry false
    nextHash := Function.update t.nextHash sendEntry (t.mHashTable hashIndex)
    mHashTable := Function.update t.mHashTable hashIndex (some sendEntry) }

/-- The entry a string is sent by. -/
def sendEntry : Option (ℕ × EntryTable ν) :=
  match t.find getIndex string with
  | none => none
  | some (some walk) => some (walk, t.pushBack walk)
  | some none =>
    match t.links.next .mLRUHead with
    | .entry sendEntry => ((t.pushBack sendEntry).removeHash getIndex sendEntry).map fun t =>
        (sendEntry, t.assign getIndex string sendEntry)
    | _ => none

/-- The index written and, unless the peer has it, the string. -/
def writeStringTableEntry : Option ((ℕ × Option ν) × EntryTable ν) :=
  (t.sendEntry getIndex string).map fun (sendEntry, t) =>
    ((sendEntry, if t.receiveConfirmed sendEntry then none else some (t.string sendEntry)), t)

def writeStrings (t : EntryTable ν) : List ν → Option (List (ℕ × Option ν) × EntryTable ν)
  | [] => some ([], t)
  | string :: strings =>
    match t.writeStringTableEntry getIndex string with
    | none => none
    | some (record, t) => (t.writeStrings strings).map fun (records, t) => (record :: records, t)

end writing

def link (e : Fin entryCount) : LRULink := .entry e.val

/-- The chains and the list in the order of use are those of the table of lists. -/
structure Represents (p : EntryTable ν) (t : ConnectionStringTable ν) : Prop where
  string : ∀ e : Fin entryCount, p.string e = (t.mEntryTable e).string
  receiveConfirmed : ∀ e : Fin entryCount,
    p.receiveConfirmed e = (t.mEntryTable e).receiveConfirmed
  chain : ∀ b : Fin entryCount, Chain p.nextHash (p.mHashTable b)
    ((t.mHashTable b).map Fin.val) none
  lru : p.links.Row (.mLRUHead :: (t.lru.map link ++ [.mLRUTail]))

/-- Entries between their neighbours in a table that ends at the tail. -/
theorem row_range' {k : Links LRULink} {low n : ℕ} {u : LRULink}
    (hfirst : k.next u = .entry low) (hback : k.prev (.entry low) = u)
    (hnext : ∀ i, low ≤ i → i < low + n → k.next (.entry i) = .entry (i + 1))
    (hprev : ∀ i, low ≤ i → i < low + n → k.prev (.entry (i + 1)) = .entry i)
    (hlast : k.next (.entry (low + n)) = .mLRUTail)
    (htail : k.prev .mLRUTail = .entry (low + n)) :
    k.Row (u :: ((List.range' low (n + 1)).map LRULink.entry ++ [.mLRUTail])) := by
  induction n generalizing low u with
  | zero =>
    apply List.isChain_cons_cons.mpr
    exact ⟨⟨hfirst, hback⟩, List.isChain_cons_cons.mpr ⟨⟨hlast, htail⟩, List.isChain_singleton _⟩⟩
  | succ n ih =>
    rw [List.range'_succ, List.map_cons, List.cons_append]
    apply List.isChain_cons_cons.mpr
    refine ⟨⟨hfirst, hback⟩, ?_⟩
    apply ih
    · exact hnext low le_rfl (by omega)
    · exact hprev low le_rfl (by omega)
    · intro i hlow hi
      exact hnext i (by omega) (by omega)
    · intro i hlow hi
      exact hprev i (by omega) (by omega)
    · rw [show low + 1 + n = low + (n + 1) by omega]
      exact hlast
    · rw [show low + 1 + n = low + (n + 1) by omega]
      exact htail

theorem map_val_finRange : (List.finRange entryCount).map link =
    (List.range' 0 (1023 + 1)).map LRULink.entry := by
  rw [← List.range_eq_range', ← List.map_coe_finRange_eq_range, List.map_map]
  rfl

theorem Represents.new [Inhabited ν] :
    (new : EntryTable ν).Represents ConnectionStringTable.new where
  string _ := rfl
  receiveConfirmed _ := rfl
  chain _ := rfl
  lru := by
    rw [ConnectionStringTable.new, map_val_finRange]
    apply row_range'
    · simp [EntryTable.new, Links.setNext, Links.setPrev]
    · simp [EntryTable.new, Links.setNext, Links.setPrev]
    · intro i _ hi
      have hne : i ≠ 1023 := by omega
      simp [EntryTable.new, Links.setNext, Links.setPrev, hne]
    · intro i _ _
      simp [EntryTable.new, Links.setNext, Links.setPrev]
    · simp [EntryTable.new, Links.setNext, Links.setPrev]
    · simp [EntryTable.new, Links.setNext, Links.setPrev]

namespace Represents

variable {p : EntryTable ν} {t : ConnectionStringTable ν}

theorem row_nodup {l : List (Fin entryCount)} (h : l.Nodup) :
    (LRULink.mLRUHead :: (l.map link ++ [.mLRUTail])).Nodup := by
  have hmap : (l.map link).Nodup := h.map fun e e' heq => Fin.ext (LRULink.entry.inj heq)
  rw [List.nodup_cons, List.nodup_append]
  refine ⟨by simp [link], hmap, List.nodup_singleton _, ?_⟩
  intro a ha b hb heq
  obtain ⟨e, -, rfl⟩ := List.mem_map.mp ha
  rw [List.mem_singleton.mp hb] at heq
  cases heq

theorem pushBack (h : p.Represents t) (hnodup : t.lru.Nodup) {e : Fin entryCount}
    (he : e ∈ t.lru) : (p.pushBack e).Represents (t.pushBack e) where
  string := h.string
  receiveConfirmed := h.receiveConfirmed
  chain := h.chain
  lru := by
    have hmoved := h.lru.moveBack (row_nodup hnodup) (List.mem_map_of_mem he)
    have herase : (t.lru.erase e).map link = (t.lru.map link).erase (link e) :=
      map_erase_of_injOn fun x _ heq => Fin.ext (LRULink.entry.inj heq)
    rw [ConnectionStringTable.pushBack, List.map_append, herase]
    exact hmoved

/-- A chain has at most as many entries as the table. -/
theorem length_chain (h : p.Represents t) (b : Fin entryCount) :
    ((t.mHashTable b).map Fin.val).length < entryCount + 1 := by
  have hnodup : (t.mHashTable b).Nodup := (h.chain b).nodup.of_map
  have hlength := List.Nodup.length_le_card hnodup
  rw [Fintype.card_fin] at hlength
  rw [List.length_map]
  exact Nat.lt_succ_of_le hlength

/-- The walk ends before the first entry that satisfies the test. -/
theorem walk_eq (h : p.Represents t) (b : Fin entryCount) (test : ℕ → Bool) :
    p.walk b test =
      some (ChainLink.behind (((t.mHashTable b).map Fin.val).takeWhile fun e => !test e)) := by
  have hseek := seek_eq (l := []) (h.chain b) (fun x _ => rfl : ∀ x ∈ _, some (test x) = _)
    (h.length_chain b)
  exact hseek

theorem find (h : p.Represents t) [DecidableEq ν] (getIndex : ν → ℕ) (string : ν) :
    p.find getIndex string = some ((t.find getIndex string).map Fin.val) := by
  have hwalk := h.walk_eq (hashIndex getIndex string) fun entry => p.string entry = string
  have hfind : (p.find getIndex string) = (p.walk (hashIndex getIndex string) fun entry =>
      p.string entry = string).map (ChainLink.get p.nextHash (p.mHashTable
        (hashIndex getIndex string))) := rfl
  rw [hfind, hwalk, Option.map_some, get_seek (h.chain _), List.find?_map]
  congr 3
  funext e
  exact congrArg (fun s => decide (s = string)) (h.string e)

/-- An entry in no other chain leaves the chain of its string. -/
theorem removeHash (h : p.Represents t) (getIndex : ν → ℕ) (e : Fin entryCount)
    (hdisjoint : ∀ b b' x, x ∈ t.mHashTable b → x ∈ t.mHashTable b' → b = b') :
    ∃ p', p.removeHash getIndex e = some p' ∧ p'.Represents { t with
      mHashTable := Function.update t.mHashTable (hashIndex getIndex (t.mEntryTable e).string)
        ((t.mHashTable (hashIndex getIndex (t.mEntryTable e).string)).erase e) } := by
  set old := hashIndex getIndex (t.mEntryTable e).string with hold
  have hindex : getIndex (p.string e) % entryCount = old := by
    rw [h.string e]
    rfl
  have hchain := h.chain old
  have hremove : p.removeHash getIndex e = (p.walk old fun entry => entry = e.val).map
      fun hashWalk => match hashWalk.get p.nextHash (p.mHashTable old) with
        | none => p
        | some _ => { p with
            nextHash := hashWalk.setNext p.nextHash (p.nextHash e)
            mHashTable := Function.update p.mHashTable old
              (hashWalk.setHead (p.mHashTable old) (p.nextHash e)) } := by
    rw [EntryTable.removeHash, hindex]
  rw [hremove, h.walk_eq, Option.map_some]
  refine ⟨_, rfl, ?_⟩
  rw [get_seek hchain]
  by_cases he : e ∈ t.mHashTable old
  · obtain ⟨before, after, hsplit, hnot⟩ := List.eq_append_cons_of_mem he
    have hbefore : e.val ∉ before.map Fin.val := fun hmem => by
      obtain ⟨x, hx, heq⟩ := List.mem_map.mp hmem
      exact hnot (Fin.ext heq ▸ hx)
    have hvalues : (t.mHashTable old).map Fin.val =
        before.map Fin.val ++ e.val :: after.map Fin.val := by
      rw [hsplit, List.map_append, List.map_cons]
    have hskip : ((t.mHashTable old).map Fin.val).takeWhile (fun x => !decide (x = e.val)) =
        before.map Fin.val := by
      rw [hvalues, List.takeWhile_append_of_pos]
      · rw [List.takeWhile_cons_of_neg (by simp), List.append_nil]
      · intro x hx
        have hne : x ≠ e.val := ne_of_mem_of_not_mem hx hbefore
        simpa using hne
    have hfound : ((t.mHashTable old).map Fin.val).find? (fun x => decide (x = e.val)) =
        some e.val := by
      rw [hvalues, List.find?_append, List.find?_eq_none.mpr, Option.none_or]
      · exact List.find?_cons_of_pos (by simp)
      · intro x hx
        have hne : x ≠ e.val := ne_of_mem_of_not_mem hx hbefore
        simpa using hne
    rw [hskip, hfound]
    rw [hvalues] at hchain
    refine ⟨h.string, h.receiveConfirmed, fun b => ?_, h.lru⟩
    by_cases hb : b = old
    · subst hb
      dsimp only
      rw [Function.update_self, Function.update_self, hsplit,
        List.erase_append_right _ hnot, List.erase_cons_head, List.map_append]
      exact ChainLink.unlink hchain
    · have hval : b.val ≠ old.val := fun heq => hb (Fin.ext heq)
      dsimp only
      rw [Function.update_of_ne hval, Function.update_of_ne hb]
      apply (h.chain b).congr
      intro x hx
      apply ChainLink.setNext_of_notMem
      intro hmem
      obtain ⟨y, hy, rfl⟩ := List.mem_map.mp hx
      obtain ⟨z, hz, hzy⟩ := List.mem_map.mp hmem
      obtain rfl : z = y := Fin.ext hzy
      apply hb
      apply hdisjoint b old z hy
      rw [hsplit]
      exact List.mem_append_left _ hz
  · have hfound : ((t.mHashTable old).map Fin.val).find? (fun x => decide (x = e.val)) = none := by
      rw [List.find?_eq_none]
      intro x hx
      obtain ⟨y, hy, rfl⟩ := List.mem_map.mp hx
      have hne : y.val ≠ e.val := fun heq => he (Fin.ext heq ▸ hy)
      simpa using hne
    rw [hfound, List.erase_of_not_mem he, Function.update_eq_self]
    exact h

/-- An entry in no chain is linked in at the head of one. -/
theorem assign (h : p.Represents t) (getIndex : ν → ℕ) (string : ν) {e : Fin entryCount}
    (hnot : ∀ b, e ∉ t.mHashTable b) :
    (p.assign getIndex string e).Represents { t with
      mEntryTable := Function.update t.mEntryTable e ⟨string, false⟩
      mHashTable := Function.update t.mHashTable (hashIndex getIndex string)
        (e :: t.mHashTable (hashIndex getIndex string)) } where
  string x := by
    by_cases hx : x = e
    · subst hx
      simp [EntryTable.assign]
    · have hval : x.val ≠ e.val := fun heq => hx (Fin.ext heq)
      simp [EntryTable.assign, hx, hval, h.string]
  receiveConfirmed x := by
    by_cases hx : x = e
    · subst hx
      simp [EntryTable.assign]
    · have hval : x.val ≠ e.val := fun heq => hx (Fin.ext heq)
      simp [EntryTable.assign, hx, hval, h.receiveConfirmed]
  chain b := by
    have hout : e.val ∉ (t.mHashTable b).map Fin.val := by
      intro hmem
      obtain ⟨x, hx, heq⟩ := List.mem_map.mp hmem
      exact hnot b (Fin.ext heq ▸ hx)
    have hkept := (h.chain b).update hout (p.mHashTable (hashIndex getIndex string))
    by_cases hb : b = hashIndex getIndex string
    · subst hb
      have hindex : getIndex string % entryCount = (hashIndex getIndex string).val := rfl
      rw [EntryTable.assign, hindex]
      dsimp only
      rw [Function.update_self, Function.update_self, List.map_cons]
      refine ⟨rfl, ?_⟩
      rw [Function.update_self]
      exact hkept
    · have hval : b.val ≠ (hashIndex getIndex string).val := fun heq => hb (Fin.ext heq)
      have hindex : getIndex string % entryCount = (hashIndex getIndex string).val := rfl
      rw [EntryTable.assign, hindex]
      dsimp only
      rw [Function.update_of_ne hval, Function.update_of_ne hb]
      exact hkept
  lru := h.lru

variable [DecidableEq ν] {getIndex : ν → ℕ} {strings : List ν} {indices : List (Fin entryCount)}

theorem sendEntry (h : p.Represents t) (hkept : t.Bookkept getIndex strings indices) (string : ν) :
    ∃ p', p.sendEntry getIndex string = some ((t.sendEntry getIndex string).1.val, p') ∧
      p'.Represents (t.sendEntry getIndex string).2 := by
  have hfind := h.find getIndex string
  cases hheld : t.find getIndex string with
  | some walk =>
    rw [hheld, Option.map_some] at hfind
    refine ⟨p.pushBack walk, ?_, ?_⟩
    · rw [EntryTable.sendEntry, hfind, ConnectionStringTable.sendEntry, hheld]
    · rw [ConnectionStringTable.sendEntry, hheld]
      apply h.pushBack hkept.lru_nodup
      exact hkept.perm.mem_iff.mpr (List.mem_finRange walk)
  | none =>
    rw [hheld, Option.map_none] at hfind
    obtain ⟨head, tail, hlru, hsend⟩ := hkept.sendEntry_of_not_found hheld
    have hfirst : p.links.next .mLRUHead = .entry head.val := by
      have hrow := h.lru
      rw [hlru, List.map_cons, List.cons_append] at hrow
      exact (List.isChain_cons_cons.mp hrow).1.1
    have hback := h.pushBack hkept.lru_nodup (e := head) (hlru ▸ List.mem_cons_self)
    have hdisjoint : ∀ b b' x, x ∈ (t.pushBack head).mHashTable b →
        x ∈ (t.pushBack head).mHashTable b' → b = b' := by
      intro b b' x hb hb'
      exact ((hkept.bucket b x).mp hb).2.symm.trans ((hkept.bucket b' x).mp hb').2
    obtain ⟨p', hremove, hremoved⟩ := hback.removeHash getIndex head hdisjoint
    refine ⟨p'.assign getIndex string head, ?_, ?_⟩
    · rw [EntryTable.sendEntry, hfind, hsend]
      dsimp only
      rw [hfirst]
      dsimp only
      rw [hremove]
      rfl
    · rw [hsend]
      apply hremoved.assign getIndex string
      intro b hmem
      exact ((hkept.mem_removed head b head).mp hmem).1 rfl

theorem writeStringTableEntry (h : p.Represents t) (hkept : t.Bookkept getIndex strings indices)
    (string : ν) : ∃ p', p.writeStringTableEntry getIndex string =
        some (((t.writeStringTableEntry getIndex string).1.index.val,
          (t.writeStringTableEntry getIndex string).1.string), p') ∧
      p'.Represents (t.writeStringTableEntry getIndex string).2 := by
  obtain ⟨p', hsend, hafter⟩ := h.sendEntry hkept string
  refine ⟨p', ?_, hafter⟩
  rw [EntryTable.writeStringTableEntry, hsend, Option.map_some]
  dsimp only
  rw [hafter.receiveConfirmed, hafter.string]
  rfl

end Represents

/-- The bookkeeping after some strings have been written and the entries in `indices` sent for
them. -/
structure Bookkept (getIndex : ν → ℕ) [DecidableEq ν] (strings : List ν) (indices : List ℕ)
    (t : EntryTable ν) : Prop where
  /-- From the one sentinel to the other stand the unused entries and then the others in the order
  of their last use. -/
  lru : ∃ lru : List ℕ, t.links.Row (.mLRUHead :: (lru.map LRULink.entry ++ [.mLRUTail])) ∧
    lru.Perm (List.range entryCount) ∧
      lru = (List.range entryCount).filter (· ∉ indices) ++ indices.dedup
  /-- The used entries are in the chains of their strings. -/
  bucket : ∀ b < entryCount, ∃ chain, Chain t.nextHash (t.mHashTable b) chain none ∧
    chain.Nodup ∧ ∀ e, e ∈ chain ↔ e ∈ indices ∧ getIndex (t.string e) % entryCount = b
  injective : ∀ e ∈ indices, ∀ e' ∈ indices, t.string e = t.string e' → e = e'
  /-- A string among the last distinct ones is found where it was put. -/
  found : ∀ before string after, strings = before ++ string :: after →
    (string :: after).dedup.length ≤ entryCount →
      ∃ e, indices[before.length]? = some e ∧ t.find getIndex string = some (some e)

theorem range_entryCount : List.range entryCount = (List.finRange entryCount).map Fin.val :=
  (List.map_coe_finRange_eq_range (n := entryCount)).symm

theorem filter_val {n : ℕ} (indices l : List (Fin n)) :
    (l.map Fin.val).filter (· ∉ indices.map Fin.val) = (l.filter (· ∉ indices)).map Fin.val := by
  rw [List.filter_map]
  congr 1
  apply List.filter_congr
  intro e _
  have hmem : e.val ∈ indices.map Fin.val ↔ e ∈ indices :=
    List.mem_map_of_injective Fin.val_injective
  exact decide_eq_decide.mpr (not_congr hmem)

theorem Represents.bookkept {p : EntryTable ν} {t : ConnectionStringTable ν} [DecidableEq ν]
    {getIndex : ν → ℕ} {strings : List ν} {indices : List (Fin entryCount)}
    (h : p.Represents t) (hkept : t.Bookkept getIndex strings indices)
    (hrecalled : t.Recalled strings indices) :
    p.Bookkept getIndex strings (indices.map Fin.val) where
  lru := by
    refine ⟨t.lru.map Fin.val, ?_, ?_, ?_⟩
    · rw [List.map_map]
      exact h.lru
    · exact (hkept.perm.map Fin.val).trans (List.Perm.of_eq range_entryCount.symm)
    · have hfilter : (List.range entryCount).filter (· ∉ indices.map Fin.val) =
          ((List.finRange entryCount).filter (· ∉ indices)).map Fin.val := by
        rw [range_entryCount]
        exact filter_val indices _
      rw [hkept.lru, List.map_append, hfilter,
        List.dedup_map_of_injective Fin.val_injective]
  bucket b hb := by
    refine ⟨(t.mHashTable ⟨b, hb⟩).map Fin.val, h.chain ⟨b, hb⟩, (h.chain ⟨b, hb⟩).nodup, ?_⟩
    intro e
    constructor
    · intro hmem
      obtain ⟨x, hx, rfl⟩ := List.mem_map.mp hmem
      obtain ⟨hused, hindex⟩ := (hkept.bucket _ x).mp hx
      refine ⟨List.mem_map_of_mem hused, ?_⟩
      rw [h.string]
      exact congrArg Fin.val hindex
    · intro hused
      obtain ⟨hmem, hindex⟩ := hused
      obtain ⟨x, hx, rfl⟩ := List.mem_map.mp hmem
      rw [h.string] at hindex
      exact List.mem_map_of_mem ((hkept.bucket _ x).mpr ⟨hx, Fin.ext hindex⟩)
  injective e he e' he' heq := by
    obtain ⟨x, hx, rfl⟩ := List.mem_map.mp he
    obtain ⟨x', hx', rfl⟩ := List.mem_map.mp he'
    rw [h.string, h.string] at heq
    rw [hkept.injOn hx hx' heq]
  found before string after heq hrecent := by
    obtain ⟨e, hindex, hstring⟩ := hrecalled before string after heq hrecent
    refine ⟨e, ?_, ?_⟩
    · rw [List.getElem?_map, hindex, Option.map_some]
    · have hfound := hkept.find_eq_some.mpr ⟨List.mem_of_getElem? hindex, hstring⟩
      rw [h.find, hfound, Option.map_some]

/-- A run of writes keeps the books. -/
theorem Represents.writeStrings {p : EntryTable ν} {t : ConnectionStringTable ν} [DecidableEq ν]
    {getIndex : ν → ℕ} {strings : List ν} {indices : List (Fin entryCount)}
    (h : p.Represents t) (hkept : t.Bookkept getIndex strings indices)
    (hrecalled : t.Recalled strings indices) (hlength : indices.length = strings.length)
    (more : List ν) : ∃ records p', p.writeStrings getIndex more = some (records, p') ∧
      p'.Bookkept getIndex (strings ++ more) (indices.map Fin.val ++ records.map Prod.fst) := by
  induction more generalizing p t strings indices with
  | nil =>
    refine ⟨[], p, rfl, ?_⟩
    rw [List.append_nil, List.map_nil, List.append_nil]
    exact h.bookkept hkept hrecalled
  | cons string more ih =>
    obtain ⟨p', hwrite, hafter⟩ := h.writeStringTableEntry hkept string
    obtain ⟨records, p'', hrun, hlast⟩ := ih hafter (hkept.sendEntry string)
      (hrecalled.sendEntry hkept hlength string) (by simp [hlength])
    refine ⟨((t.writeStringTableEntry getIndex string).1.index.val,
      (t.writeStringTableEntry getIndex string).1.string) :: records, p'', ?_, ?_⟩
    · rw [EntryTable.writeStrings, hwrite]
      dsimp only
      rw [hrun]
      rfl
    · simp only [List.map_append, List.append_assoc] at hlast
      exact hlast

/-- Whatever strings are written, none of them fails and the books are kept. -/
theorem bookkept_of_writes [Inhabited ν] [DecidableEq ν] (getIndex : ν → ℕ) (strings : List ν) :
    ∃ records t, (new : EntryTable ν).writeStrings getIndex strings = some (records, t) ∧
      t.Bookkept getIndex strings (records.map Prod.fst) := by
  have hrecalled : (ConnectionStringTable.new : ConnectionStringTable ν).Recalled [] [] := by
    intro before string after heq _
    exact absurd heq.symm (by simp)
  exact Represents.new.writeStrings ConnectionStringTable.Bookkept.new hrecalled rfl strings

end EntryTable

end TNL
