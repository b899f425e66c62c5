import TNL.Library.Recency
import TNL.StringTable.ConnectionStringTable

/-!
# The order of last use

The entries of the table behind the unused ones stand in the order in which they
were last sent, and hold the strings written most recently.
-/
namespace TNL
open Library

namespace ConnectionStringTable

variable {ν : Type*} [DecidableEq ν] {getIndex : ν → ℕ} {t : ConnectionStringTable ν}

/-- The table after some strings, next to the entries they were sent by. -/
structure Bookkept (getIndex : ν → ℕ) (strings : List ν) (indices : List (Fin entryCount))
    (t : ConnectionStringTable ν) : Prop where
  lru : t.lru = (List.finRange entryCount).filter (· ∉ indices) ++ indices.dedup
  strings : indices.dedup.map (fun e => (t.mEntryTable e).string) = recent entryCount strings
  bucket : ∀ b e, e ∈ t.mHashTable b ↔
    e ∈ indices ∧ hashIndex getIndex (t.mEntryTable e).string = b
  nodup : ∀ b, (t.mHashTable b).Nodup

namespace Bookkept

variable {strings : List ν} {indices : List (Fin entryCount)}

theorem new [Inhabited ν] : Bookkept getIndex [] [] (new : ConnectionStringTable ν) where
  lru := by
    have hall : (List.finRange entryCount).filter (· ∉ ([] : List (Fin entryCount))) =
        List.finRange entryCount :=
      List.filter_eq_self.mpr fun e _ => decide_eq_true List.not_mem_nil
    rw [ConnectionStringTable.new, hall, List.dedup_nil, List.append_nil]
  strings := by
    rw [recent_of_length_le (Nat.zero_le entryCount)]
    exact List.map_nil
  bucket b e := by simp [ConnectionStringTable.new]
  nodup b := List.nodup_nil

theorem perm (h : t.Bookkept getIndex strings indices) : t.lru.Perm (List.finRange entryCount) := by
  apply (List.perm_ext_iff_of_nodup _ (List.nodup_finRange entryCount)).mpr
  · intro e
    simp [h.lru, em']
  · rw [h.lru]
    apply List.Nodup.append
    · exact (List.nodup_finRange entryCount).filter _
    · exact List.nodup_dedup indices
    · intro e hfree hused
      simp only [List.mem_filter, decide_eq_true_eq] at hfree
      exact hfree.2 (List.mem_dedup.mp hused)

theorem lru_nodup (h : t.Bookkept getIndex strings indices) : t.lru.Nodup :=
  h.perm.nodup_iff.mpr (List.nodup_finRange entryCount)

theorem injOn (h : t.Bookkept getIndex strings indices) {e e' : Fin entryCount} (he : e ∈ indices)
    (he' : e' ∈ indices) (heq : (t.mEntryTable e).string = (t.mEntryTable e').string) : e = e' := by
  have hnodup : (indices.dedup.map fun e => (t.mEntryTable e).string).Nodup := by
    rw [h.strings]
    exact nodup_recent
  exact List.inj_on_of_nodup_map hnodup (List.mem_dedup.mpr he) (List.mem_dedup.mpr he') heq

theorem mem_recent_iff (h : t.Bookkept getIndex strings indices) {string : ν} :
    string ∈ recent entryCount strings ↔ ∃ e ∈ indices, (t.mEntryTable e).string = string := by
  rw [← h.strings]
  simp

/-- A string is found at the entry that holds it. -/
theorem find_eq_some (h : t.Bookkept getIndex strings indices) {string : ν} {e : Fin entryCount} :
    t.find getIndex string = some e ↔ e ∈ indices ∧ (t.mEntryTable e).string = string := by
  constructor
  · intro hfind
    have hmem := (h.bucket _ e).mp (List.mem_of_find?_eq_some hfind)
    have hstring := List.find?_some hfind
    exact ⟨hmem.1, by simpa using hstring⟩
  · intro hheld
    obtain ⟨he, hstring⟩ := hheld
    have hmem : e ∈ t.mHashTable (hashIndex getIndex string) :=
      (h.bucket _ e).mpr ⟨he, by rw [hstring]⟩
    cases hfind : t.find getIndex string with
    | none =>
      have hnone := List.find?_eq_none.mp hfind e hmem
      simp [hstring] at hnone
    | some walk =>
      have hwalk := (h.bucket _ walk).mp (List.mem_of_find?_eq_some hfind)
      have hsame := List.find?_some hfind
      rw [h.injOn hwalk.1 he (by simpa [hstring] using hsame)]

theorem find_eq_none (h : t.Bookkept getIndex strings indices) {string : ν} :
    t.find getIndex string = none ↔ string ∉ recent entryCount strings := by
  rw [h.mem_recent_iff, Option.eq_none_iff_forall_ne_some]
  constructor
  · intro hnone hheld
    obtain ⟨e, he, hstring⟩ := hheld
    exact hnone e (h.find_eq_some.mpr ⟨he, hstring⟩)
  · intro hnot e hfind
    exact hnot ⟨e, h.find_eq_some.mp hfind⟩

/-- The entries used so far stand behind the unused ones also after another use. -/
theorem lru_concat (indices : List (Fin entryCount)) (e : Fin entryCount) :
    ((List.finRange entryCount).filter (· ∉ indices) ++ indices.dedup).erase e ++ [e] =
      (List.finRange entryCount).filter (· ∉ indices ++ [e]) ++ (indices ++ [e]).dedup := by
  have hfree : (List.finRange entryCount).filter (· ∉ indices ++ [e]) =
      ((List.finRange entryCount).filter (· ∉ indices)).erase e := by
    have hnodup := (List.nodup_finRange entryCount).filter (fun x => decide (x ∉ indices))
    rw [hnodup.erase_eq_filter, List.filter_filter]
    apply List.filter_congr
    intro x _
    grind
  rw [hfree, dedup_concat]
  by_cases he : e ∈ indices
  · have hnot : e ∉ (List.finRange entryCount).filter (· ∉ indices) := by simp [he]
    rw [List.erase_append_right _ hnot, List.erase_of_not_mem hnot, List.append_assoc]
  · have hmem : e ∈ (List.finRange entryCount).filter (· ∉ indices) := by simp [he]
    have hnot : e ∉ indices.dedup := fun h => he (List.mem_dedup.mp h)
    rw [List.erase_append_left _ hmem, List.erase_of_not_mem hnot, List.append_assoc]

/-- A string that is found moves its entry to the back. -/
theorem pushBack (h : t.Bookkept getIndex strings indices) {string : ν} {e : Fin entryCount}
    (he : e ∈ indices) (hstring : (t.mEntryTable e).string = string) :
    (t.pushBack e).Bookkept getIndex (strings ++ [string]) (indices ++ [e]) where
  lru := by
    rw [ConnectionStringTable.pushBack, h.lru, lru_concat]
  strings := by
    have hmem : string ∈ recent entryCount strings := h.mem_recent_iff.mpr ⟨e, he, hstring⟩
    rw [dedup_concat, recent_concat_of_mem hmem, ← h.strings, List.map_append]
    congr 1
    · subst hstring
      apply map_erase_of_injOn
      intro x hx
      exact h.injOn (List.mem_dedup.mp hx) he
    · exact congrArg (fun s => [s]) hstring
  bucket b x := by
    have hmem : x ∈ indices ++ [e] ↔ x ∈ indices := by grind
    rw [hmem]
    exact h.bucket b x
  nodup := h.nodup

/-- The strings held once the entry at the front has been given a new one. -/
theorem recent_concat (h : t.Bookkept getIndex strings indices) {string : ν}
    {head : Fin entryCount} {tail : List (Fin entryCount)} (hlru : t.lru = head :: tail)
    (hnew : string ∉ recent entryCount strings) :
    (indices.dedup.erase head).map (fun e => (t.mEntryTable e).string) ++ [string] =
      recent entryCount (strings ++ [string]) := by
  have hlength := congrArg List.length h.strings
  rw [List.length_map] at hlength
  cases hfree : (List.finRange entryCount).filter (· ∉ indices) with
  | cons first rest =>
    -- an unused entry stands at the front
    have hsplit := h.lru
    rw [hlru, hfree, List.cons_append] at hsplit
    have hhead : head ∈ (List.finRange entryCount).filter (· ∉ indices) := by
      rw [hfree, (List.cons.inj hsplit).1]
      exact List.mem_cons_self
    have hnot : head ∉ indices.dedup := by
      intro hmem
      simp only [List.mem_filter, decide_eq_true_eq] at hhead
      exact hhead.2 (List.mem_dedup.mp hmem)
    have hroom : indices.dedup.length < entryCount := by
      have htotal := h.perm.length_eq
      rw [h.lru, hfree, List.length_append, List.length_cons, List.length_finRange] at htotal
      omega
    rw [List.erase_of_not_mem hnot, h.strings,
      recent_concat_of_length_lt hnew (hlength ▸ hroom)]
  | nil =>
    have hsplit := h.lru
    rw [hlru, hfree, List.nil_append] at hsplit
    have hfull : (recent entryCount strings).length = entryCount := by
      rw [← hlength, ← hsplit, ← hlru, h.perm.length_eq, List.length_finRange]
    have hfirst := h.strings
    rw [← hsplit, List.map_cons] at hfirst
    rw [← hsplit, List.erase_cons_head, recent_concat_of_full hnew hfirst.symm hfull]

/-- What is left of the chains when an entry is taken out of the chain of its string. -/
theorem mem_removed (h : t.Bookkept getIndex strings indices) (head b e : Fin entryCount) :
    e ∈ Function.update t.mHashTable (hashIndex getIndex (t.mEntryTable head).string)
      ((t.mHashTable (hashIndex getIndex (t.mEntryTable head).string)).erase head) b ↔
    e ≠ head ∧ e ∈ t.mHashTable b := by
  by_cases hb : b = hashIndex getIndex (t.mEntryTable head).string
  · rw [hb, Function.update_self, (h.nodup _).mem_erase_iff]
  · rw [Function.update_of_ne hb]
    constructor
    · intro hmem
      refine ⟨?_, hmem⟩
      rintro rfl
      exact hb ((h.bucket b e).mp hmem).2.symm
    · exact And.right

/-- A new string takes the entry at the front of the list. -/
theorem assign (h : t.Bookkept getIndex strings indices) {string : ν} {head : Fin entryCount}
    {tail : List (Fin entryCount)} (hlru : t.lru = head :: tail)
    (hnew : string ∉ recent entryCount strings) :
    ((t.pushBack head).assign getIndex string head).Bookkept getIndex (strings ++ [string])
      (indices ++ [head]) where
  lru := by
    change t.lru.erase head ++ [head] = _
    rw [h.lru, lru_concat]
  strings := by
    rw [dedup_concat, List.map_append, ← h.recent_concat hlru hnew]
    congr 1
    · apply List.map_congr_left
      intro e he
      have hne : e ≠ head := by
        rintro rfl
        exact ((List.nodup_dedup indices).mem_erase_iff.mp he).1 rfl
      simp [ConnectionStringTable.assign, ConnectionStringTable.pushBack, hne]
    · simp [ConnectionStringTable.assign]
  bucket b e := by
    have hremoved := fun b => h.mem_removed head b e
    simp only [ConnectionStringTable.assign, ConnectionStringTable.pushBack]
    by_cases he : e = head
    · subst he
      rw [Function.update_self]
      by_cases hb : b = hashIndex getIndex string
      · subst hb
        simp
      · rw [Function.update_of_ne hb]
        constructor
        · intro hmem
          exact absurd rfl ((hremoved b).mp hmem).1
        · intro hheld
          exact absurd hheld.2.symm hb
    · have hmem : e ∈ indices ++ [head] ↔ e ∈ indices := by grind
      rw [Function.update_of_ne he, hmem, ← h.bucket b e]
      by_cases hb : b = hashIndex getIndex string
      · subst hb
        rw [Function.update_self, List.mem_cons, hremoved]
        exact ⟨fun hor => (hor.resolve_left he).2, fun hold => .inr ⟨he, hold⟩⟩
      · rw [Function.update_of_ne hb, hremoved]
        exact ⟨And.right, fun hold => ⟨he, hold⟩⟩
  nodup b := by
    have hremoved : ∀ b, (Function.update t.mHashTable
        (hashIndex getIndex (t.mEntryTable head).string)
        ((t.mHashTable (hashIndex getIndex (t.mEntryTable head).string)).erase head) b).Nodup := by
      intro b
      by_cases hb : b = hashIndex getIndex (t.mEntryTable head).string
      · subst hb
        rw [Function.update_self]
        exact (h.nodup _).erase head
      · rw [Function.update_of_ne hb]
        exact h.nodup b
    simp only [ConnectionStringTable.assign, ConnectionStringTable.pushBack]
    by_cases hb : b = hashIndex getIndex string
    · subst hb
      rw [Function.update_self]
      exact List.nodup_cons.mpr ⟨fun hmem => ((h.mem_removed head _ head).mp hmem).1 rfl, hremoved _⟩
    · rw [Function.update_of_ne hb]
      exact hremoved b

/-- A new string is sent by the entry at the front. -/
theorem sendEntry_of_not_found (h : t.Bookkept getIndex strings indices) {string : ν}
    (hfind : t.find getIndex string = none) : ∃ head tail, t.lru = head :: tail ∧
      t.sendEntry getIndex string = (head, (t.pushBack head).assign getIndex string head) := by
  cases hlru : t.lru with
  | nil =>
    have hlength := h.perm.length_eq
    rw [hlru, List.length_finRange] at hlength
    cases hlength
  | cons head tail =>
    refine ⟨head, tail, rfl, ?_⟩
    rw [ConnectionStringTable.sendEntry, hfind, hlru]
    rfl

theorem sendEntry (h : t.Bookkept getIndex strings indices) (string : ν) :
    (t.sendEntry getIndex string).2.Bookkept getIndex (strings ++ [string])
      (indices ++ [(t.sendEntry getIndex string).1]) := by
  cases hfind : t.find getIndex string with
  | some walk =>
    obtain ⟨hwalk, hstring⟩ := h.find_eq_some.mp hfind
    rw [ConnectionStringTable.sendEntry, hfind]
    exact h.pushBack hwalk hstring
  | none =>
    obtain ⟨head, tail, hlru, hsend⟩ := h.sendEntry_of_not_found hfind
    rw [hsend]
    exact h.assign hlru (h.find_eq_none.mp hfind)

/-- An entry loses its string only when the string is no longer held. -/
theorem sendEntry_string (h : t.Bookkept getIndex strings indices) (string : ν)
    {e : Fin entryCount} (he : e ∈ indices)
    (hheld : (t.mEntryTable e).string ∈ recent entryCount (strings ++ [string])) :
    ((t.sendEntry getIndex string).2.mEntryTable e).string = (t.mEntryTable e).string := by
  cases hfind : t.find getIndex string with
  | some walk =>
    rw [ConnectionStringTable.sendEntry, hfind]
    rfl
  | none =>
    have hafter := h.sendEntry string
    obtain ⟨head, tail, hlru, hsend⟩ := h.sendEntry_of_not_found hfind
    rw [hsend] at hafter ⊢
    by_cases hhead : e = head
    · subst hhead
      -- another entry would have to hold the string of the one recycled
      obtain ⟨e', he', hsame⟩ := hafter.mem_recent_iff.mp hheld
      by_cases hne : e' = e
      · rw [hne] at hsame
        exact hsame
      · have hkept : e' ∈ indices := by grind
        simp only [ConnectionStringTable.assign, ConnectionStringTable.pushBack,
          Function.update_of_ne hne] at hsame
        exact absurd (h.injOn hkept he hsame) hne
    · simp [ConnectionStringTable.assign, ConnectionStringTable.pushBack, hhead]

end Bookkept

/-- A string among the last distinct ones is still at the entry that was sent for it. -/
def Recalled (strings : List ν) (indices : List (Fin entryCount))
    (t : ConnectionStringTable ν) : Prop :=
  ∀ before string after, strings = before ++ string :: after →
    (string :: after).dedup.length ≤ entryCount →
      ∃ e, indices[before.length]? = some e ∧ (t.mEntryTable e).string = string

theorem Recalled.sendEntry {strings : List ν} {indices : List (Fin entryCount)}
    (h : t.Recalled strings indices) (hkept : t.Bookkept getIndex strings indices)
    (hlength : indices.length = strings.length) (string : ν) :
    (t.sendEntry getIndex string).2.Recalled (strings ++ [string])
      (indices ++ [(t.sendEntry getIndex string).1]) := by
  intro before other after heq hrecent
  rcases List.eq_nil_or_concat after with rfl | ⟨middle, last, rfl⟩
  · obtain ⟨rfl, hlast⟩ := List.append_inj' heq rfl
    obtain rfl : string = other := by simpa using hlast
    refine ⟨_, ?_, (sendEntry_spec getIndex t string).1⟩
    rw [← hlength, List.getElem?_concat_length]
  · rw [List.concat_eq_append] at heq hrecent
    rw [← List.cons_append, ← List.append_assoc] at heq
    obtain ⟨rfl, hlast⟩ := List.append_inj' heq rfl
    obtain rfl : string = last := by simpa using hlast
    have hless : (other :: middle).dedup.length ≤ entryCount := by
      rw [← List.cons_append, dedup_concat, List.length_append, List.length_singleton] at hrecent
      have herase := List.le_length_erase (l := (other :: middle).dedup) (a := string)
      omega
    obtain ⟨e, hindex, hheld⟩ := h before other middle rfl hless
    have he : e ∈ indices := List.mem_of_getElem? hindex
    refine ⟨e, ?_, ?_⟩
    · rw [List.getElem?_append_left (List.getElem?_eq_some_iff.mp hindex).1]
      exact hindex
    · rw [hkept.sendEntry_string string he, hheld]
      rw [hheld, List.append_assoc]
      exact mem_recent hrecent

end ConnectionStringTable

end TNL
