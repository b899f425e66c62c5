import TNL.Library.Run
import TNL.StringTable.NetStringTable

/-!
# String table entries

An entry is a handle on a node of the global string table. Entries are made,
copied, assigned and destroyed in any order; the class has no destructor, so a
destroyed entry keeps its reference. Next to each live entry stands the string
it was last given.
-/
namespace TNL
open Library StringTable

/-- A string given to an entry, and whether its case matters. -/
structure GivenString where
  str : List U8
  caseSens : Bool
  deriving DecidableEq

structure EntrySystem where
  table : StringTable
  live : Finset ℕ
  mIndex : ℕ → ℕ
  given : ℕ → GivenString

namespace EntrySystem

/-- `StringTableEntry::decRef`. -/
def decRef (t : StringTable) (mIndex : ℕ) : StringTable :=
  if mIndex ≠ 0 then t.decRef mIndex else t

/-- `StringTableEntry::incRef`. -/
def incRef (t : StringTable) (mIndex : ℕ) : StringTable :=
  if mIndex ≠ 0 then t.incRef mIndex else t

/-- A C string as an argument, how much of it counts, and what the memory behind nodes holds. -/
structure StringArgument where
  string : Option (List U8)
  len : ℕ
  caseSensitive : Bool
  beyond : ℕ → U8

namespace StringArgument

/-- The argument of `insert`, which takes the whole string. -/
def whole (string : Option (List U8)) (caseSensitive : Bool) (beyond : ℕ → U8) : StringArgument :=
  ⟨string, (string.elim [] cstr).length, caseSensitive, beyond⟩

def given (arg : StringArgument) : GivenString :=
  ⟨(arg.string.elim [] cstr).take arg.len, arg.caseSensitive⟩

end StringArgument

inductive Action where
  | construct (e : ℕ)
  | constructString (e : ℕ) (string : Option (List U8)) (caseSensitive : Bool) (beyond : ℕ → U8)
  | copy (e theString : ℕ)
  | assign (e s : ℕ)
  | assignString (e : ℕ) (string : Option (List U8)) (beyond : ℕ → U8)
  | set (e : ℕ) (string : Option (List U8)) (caseSensitive : Bool) (beyond : ℕ → U8)
  | setn (e : ℕ) (arg : StringArgument)
  | destroy (e : ℕ)

variable (sgToLowerTable : U8 → U8)

def insert (t : StringTable) (arg : StringArgument) : Option (ℕ × StringTable) :=
  insertn sgToLowerTable t arg.beyond arg.string arg.len arg.caseSensitive

/-- The entry refers to `index` from now on. -/
def bind (s : EntrySystem) (e : ℕ) (given : GivenString) (index : ℕ) (table : StringTable) :
    EntrySystem :=
  ⟨table, Insert.insert e s.live, Function.update s.mIndex e index,
    Function.update s.given e given⟩

def setTo (s : EntrySystem) (e : ℕ) (arg : StringArgument) : Option EntrySystem :=
  if e ∈ s.live then
    (insert sgToLowerTable (decRef s.table (s.mIndex e)) arg).map (fun (index, table) =>
      s.bind e arg.given index table)
  else none

/-- Entries are made where none is and used where one is. -/
def step (s : EntrySystem) : Action → Option EntrySystem
  | .construct e => if e ∉ s.live then some (s.bind e ⟨[], true⟩ 0 s.table) else none
  | .constructString e string caseSensitive beyond =>
    if e ∉ s.live then
      (insert sgToLowerTable s.table (.whole string caseSensitive beyond)).map (fun (index, table) =>
        s.bind e (StringArgument.whole string caseSensitive beyond).given index table)
    else none
  | .copy e theString =>
    if e ∉ s.live ∧ theString ∈ s.live then
      some (s.bind e (s.given theString) (s.mIndex theString)
        (incRef s.table (s.mIndex theString)))
    else none
  | .assign e r =>
    if e ∈ s.live ∧ r ∈ s.live then
      let table := decRef s.table (s.mIndex e)
      some (s.bind e (s.given r) (s.mIndex r) (incRef table (s.mIndex r)))
    else none
  | .assignString e string beyond => s.setTo sgToLowerTable e (.whole string true beyond)
  | .set e string caseSensitive beyond =>
    s.setTo sgToLowerTable e (.whole string caseSensitive beyond)
  | .setn e arg => s.setTo sgToLowerTable e arg
  | .destroy e => if e ∈ s.live then some { s with live := s.live.erase e } else none

def getString (s : EntrySystem) (e : ℕ) : Option (List U8) := s.table.getString (s.mIndex e)

def start : EntrySystem := ⟨.init, ∅, fun _ => 0, fun _ => ⟨[], true⟩⟩

/-- One more reference to the node still fits its counter. -/
def Uncapped (t : StringTable) (index : ℕ) : Prop :=
  ∀ str, t.content index ≠ some (str, 65535)

/-- An insertion does not find a node whose counter is at its limit. -/
def InsertUncapped (t : StringTable) (arg : StringArgument) : Prop :=
  ∀ string ∈ arg.string, ∀ walk ∈ lookupn sgToLowerTable t arg.beyond string arg.len
    arg.caseSensitive, Uncapped t walk

/-- No counter runs over, and no entry with the only reference to a node is assigned to itself or
from another entry of that node. -/
def Careful (s : EntrySystem) : Action → Prop
  | .construct _ | .destroy _ => True
  | .constructString _ string caseSensitive beyond =>
    InsertUncapped sgToLowerTable s.table (.whole string caseSensitive beyond)
  | .copy _ theString => Uncapped s.table (s.mIndex theString)
  | .assign e r => if s.mIndex e = s.mIndex r then ∀ str, s.table.content (s.mIndex e) ≠ some (str, 1)
    else Uncapped s.table (s.mIndex r)
  | .assignString e string beyond => InsertUncapped sgToLowerTable
      (decRef s.table (s.mIndex e)) (.whole string true beyond)
  | .set e string caseSensitive beyond => InsertUncapped sgToLowerTable
      (decRef s.table (s.mIndex e)) (.whole string caseSensitive beyond)
  | .setn e arg => InsertUncapped sgToLowerTable (decRef s.table (s.mIndex e)) arg

/-- The live entries of a place. -/
def holders (s : EntrySystem) (index : ℕ) : Finset ℕ := s.live.filter (fun e => s.mIndex e = index)

/-- Every live entry refers to a node with its string, and no node has more entries than its
counter says. -/
structure Sound (s : EntrySystem) : Prop where
  wf : s.table.Wf
  null : ∀ e ∈ s.live, s.mIndex e = 0 → (s.given e).str = []
  held : ∀ e ∈ s.live, s.mIndex e ≠ 0 → ∃ str count, s.table.content (s.mIndex e) =
    some (str, count) ∧ sameString (s.given e).caseSens str (s.given e).str
  counted : ∀ index str count, index ≠ 0 → s.table.content index = some (str, count) →
    (s.holders index).card ≤ count.toNat

variable {sgToLowerTable} {s s' : EntrySystem} {e r index : ℕ}

theorem mem_holders : e ∈ s.holders index ↔ e ∈ s.live ∧ s.mIndex e = index := Finset.mem_filter

theorem mem_bind {e' : ℕ} {given : GivenString} {table : StringTable} :
    e' ∈ (s.bind e given index table).live ↔ e' = e ∨ e' ∈ s.live := Finset.mem_insert

theorem holders_bind_self (he : e ∉ s.live) (given : GivenString) (table : StringTable) :
    (s.bind e given index table).holders index = Insert.insert e (s.holders index) := by
  ext e'
  rw [mem_holders, mem_bind, Finset.mem_insert, mem_holders]
  by_cases heq : e' = e
  · subst heq
    simp [bind]
  · simp [bind, heq]

theorem holders_bind_of_ne (he : e ∉ s.live) (given : GivenString) (table : StringTable) {i : ℕ}
    (hi : i ≠ index) : (s.bind e given index table).holders i = s.holders i := by
  ext e'
  rw [mem_holders, mem_bind, mem_holders]
  by_cases heq : e' = e
  · subst heq
    simp [bind, he, hi.symm]
  · simp [bind, heq]

theorem sound_start : start.Sound where
  wf := wf_init
  null := by simp [start]
  held := by simp [start]
  counted := by
    intro index str count _ _
    have empty : start.holders index = ∅ := Finset.filter_empty _
    rw [empty]
    exact Nat.zero_le _

namespace Sound

/-- A live entry with an index counts as a holder of it. -/
theorem count_pos (h : s.Sound) (he : e ∈ s.live) (hi : s.mIndex e ≠ 0) {str : List U8}
    {count : U16} (hc : s.table.content (s.mIndex e) = some (str, count)) : 0 < count.toNat :=
  (Finset.card_pos.mpr ⟨e, mem_holders.mpr ⟨he, rfl⟩⟩).trans_le (h.counted _ _ _ hi hc)

/-- A destroyed entry keeps its reference. -/
theorem destroy (h : s.Sound) (e : ℕ) : Sound { s with live := s.live.erase e } where
  wf := h.wf
  null := fun e' he' => h.null e' (Finset.mem_of_mem_erase he')
  held := fun e' he' => h.held e' (Finset.mem_of_mem_erase he')
  counted := by
    intro index str count hi hc
    refine (Finset.card_le_card ?_).trans (h.counted index str count hi hc)
    exact Finset.filter_subset_filter _ (Finset.erase_subset ..)

/-- An entry gives up its reference. -/
theorem drop (h : s.Sound) (he : e ∈ s.live) :
    Sound { s with table := decRef s.table (s.mIndex e), live := s.live.erase e } := by
  by_cases hi : s.mIndex e = 0
  · rw [decRef, if_neg (not_not.mpr hi)]
    exact h.destroy e
  · rw [decRef, if_pos hi]
    obtain ⟨str, count, hc, -⟩ := h.held e he hi
    have hholder : e ∈ s.holders (s.mIndex e) := mem_holders.mpr ⟨he, rfl⟩
    have fewer : ∀ index, EntrySystem.holders { s with
        table := s.table.decRef (s.mIndex e), live := s.live.erase e } index =
        (s.holders index).erase e := fun index => Finset.filter_erase ..
    by_cases hone : count = 1
    · subst hone
      obtain ⟨hwf, hcontent⟩ := decRef_freed h.wf hi hc
      have alone : ∀ e' ∈ s.live.erase e, s.mIndex e' ≠ s.mIndex e := by
        intro e' he' heq
        obtain ⟨hne, he'⟩ := Finset.mem_erase.mp he'
        have hcard := h.counted _ _ _ hi hc
        exact hne (Finset.card_le_one.mp hcard e' (mem_holders.mpr ⟨he', heq⟩) e hholder)
      refine ⟨hwf, fun e' he' => h.null e' (Finset.mem_of_mem_erase he'), ?_, ?_⟩
      · intro e' he' hi'
        obtain ⟨str', count', hc', same⟩ := h.held e' (Finset.mem_of_mem_erase he') hi'
        exact ⟨str', count', by simp only [hcontent, Function.update_of_ne (alone e' he'), hc'],
          same⟩
      · intro index str' count' hindex hc'
        simp only [hcontent] at hc'
        have hne : index ≠ s.mIndex e := by
          rintro rfl
          simp at hc'
        rw [Function.update_of_ne hne] at hc'
        rw [fewer]
        exact (Finset.card_erase_le).trans (h.counted index str' count' hindex hc')
    · obtain ⟨hwf, hcontent⟩ := decRef_kept h.wf hc hone
      refine ⟨hwf, fun e' he' => h.null e' (Finset.mem_of_mem_erase he'), ?_, ?_⟩
      · intro e' he' hi'
        obtain ⟨str', count', hc', same⟩ := h.held e' (Finset.mem_of_mem_erase he') hi'
        by_cases heq : s.mIndex e' = s.mIndex e
        · rw [heq, hc] at hc'
          cases hc'
          exact ⟨str, count - 1, by simp only [hcontent, heq, Function.update_self], same⟩
        · exact ⟨str', count', by simp only [hcontent, Function.update_of_ne heq, hc'], same⟩
      · intro index str' count' hindex hc'
        simp only [hcontent] at hc'
        rw [fewer]
        by_cases heq : index = s.mIndex e
        · subst heq
          rw [Function.update_self] at hc'
          cases hc'
          have hcard := h.counted _ _ _ hi hc
          have hpos := h.count_pos he hi hc
          rw [Finset.card_erase_of_mem hholder]
          bv_omega
        · rw [Function.update_of_ne heq] at hc'
          exact (Finset.card_erase_le).trans (h.counted index str' count' hindex hc')

/-- An entry with the empty string. -/
theorem bindNull (h : s.Sound) (he : e ∉ s.live) {given : GivenString} (hg : given.str = []) :
    (s.bind e given 0 s.table).Sound where
  wf := h.wf
  null := by
    intro e' he' hi
    by_cases heq : e' = e
    · subst heq
      simpa [bind] using hg
    · simp only [bind, Function.update_of_ne heq] at hi ⊢
      exact h.null e' ((mem_bind.mp he').resolve_left heq) hi
  held := by
    intro e' he' hi
    by_cases heq : e' = e
    · subst heq
      simp [bind] at hi
    · simp only [bind, Function.update_of_ne heq] at hi ⊢
      exact h.held e' ((mem_bind.mp he').resolve_left heq) hi
  counted := by
    intro index str count hi hc
    rw [holders_bind_of_ne he _ _ hi]
    exact h.counted index str count hi hc

/-- An entry takes a reference to a node with its string. -/
theorem take (h : s.Sound) (he : e ∉ s.live) {given : GivenString} {table : StringTable}
    (hwf : table.Wf) (hi : index ≠ 0) {str : List U8} {count : U16}
    (hcontent : table.content = Function.update s.table.content index (some (str, count + 1)))
    (same : sameString given.caseSens str given.str)
    (before : s.table.content index = none ∧ count = 0 ∨
      s.table.content index = some (str, count) ∧ count ≠ 65535) :
    (s.bind e given index table).Sound where
  wf := hwf
  null := by
    intro e' he' hzero
    by_cases heq : e' = e
    · subst heq
      simp only [bind, Function.update_self] at hzero
      exact absurd hzero hi
    · simp only [bind, Function.update_of_ne heq] at hzero ⊢
      exact h.null e' ((mem_bind.mp he').resolve_left heq) hzero
  held := by
    intro e' he' hne
    by_cases heq : e' = e
    · subst heq
      simp only [bind, Function.update_self, hcontent]
      exact ⟨str, count + 1, rfl, same⟩
    · simp only [bind, Function.update_of_ne heq] at hne ⊢
      obtain ⟨str', count', hc, same'⟩ := h.held e' ((mem_bind.mp he').resolve_left heq) hne
      by_cases hidx : s.mIndex e' = index
      · rw [hidx] at hc
        rcases before with ⟨hnone, -⟩ | ⟨hsome, -⟩
        · rw [hnone] at hc
          cases hc
        · rw [hsome] at hc
          cases hc
          exact ⟨str, count + 1, by rw [hcontent, hidx, Function.update_self], same'⟩
      · exact ⟨str', count', by rw [hcontent, Function.update_of_ne hidx, hc], same'⟩
  counted := by
    intro i str' count' hne hc
    change table.content i = _ at hc
    rw [hcontent] at hc
    by_cases hidx : i = index
    · subst hidx
      rw [Function.update_self] at hc
      cases hc
      rw [holders_bind_self he]
      refine (Finset.card_insert_le ..).trans ?_
      rcases before with ⟨hnone, rfl⟩ | ⟨hsome, hlimit⟩
      · have empty : s.holders i = ∅ := by
          rw [Finset.eq_empty_iff_forall_notMem]
          intro e' he'
          obtain ⟨hlive, hidx⟩ := mem_holders.mp he'
          obtain ⟨_, _, hc, -⟩ := h.held e' hlive (by rw [hidx]; exact hne)
          rw [hidx, hnone] at hc
          cases hc
        rw [empty]
        decide
      · have := h.counted i str count hne hsome
        bv_omega
    · rw [Function.update_of_ne hidx] at hc
      rw [holders_bind_of_ne he _ _ hidx]
      exact h.counted i str' count' hne hc

/-- A reference taken by incrementing the counter of a node. -/
theorem takeRef (h : s.Sound) (he : e ∉ s.live) {given : GivenString}
    (null : index = 0 → given.str = [])
    (node : index ≠ 0 → ∃ str count, s.table.content index = some (str, count) ∧
      count ≠ 65535 ∧ sameString given.caseSens str given.str) :
    (s.bind e given index (EntrySystem.incRef s.table index)).Sound := by
  by_cases hi : index = 0
  · subst hi
    exact h.bindNull he (null rfl)
  · obtain ⟨str, count, hc, hlimit, same⟩ := node hi
    rw [EntrySystem.incRef, if_pos hi]
    exact h.take he (h.wf.incRef index) hi (incRef_content hc) same (.inr ⟨hc, hlimit⟩)

/-- A reference taken by inserting a string. -/
theorem insert (h : s.Sound) (he : e ∉ s.live) {arg : StringArgument} {table : StringTable}
    (uncapped : InsertUncapped sgToLowerTable s.table arg)
    (hins : EntrySystem.insert sgToLowerTable s.table arg = some (index, table)) :
    (s.bind e arg.given index table).Sound := by
  rcases insertn_spec h.wf hins with ⟨rfl, rfl, hempty⟩ | ⟨hi, hwf, str, count, same, hcontent, hc⟩
  · exact h.bindNull he hempty
  · refine h.take he hwf hi hcontent same (hc.imp id ?_)
    rintro ⟨hc, hfind⟩
    obtain ⟨string, hstring, hwalk⟩ := Option.bind_eq_some_iff.mp hfind
    refine ⟨hc, ?_⟩
    rintro rfl
    exact uncapped string hstring index hwalk str hc

/-- Binding an entry that gave up its reference before. -/
theorem of_dropped (he : e ∈ s.live) {given : GivenString} {table table' : StringTable}
    (h : (EntrySystem.bind { s with table := table', live := s.live.erase e } e given index
      table).Sound) : (s.bind e given index table).Sound := by
  have same : Insert.insert e (s.live.erase e) = Insert.insert e s.live := by
    rw [Finset.insert_erase he, Finset.insert_eq_of_mem he]
  rw [bind] at h ⊢
  rw [← same]
  exact h

theorem setTo (h : s.Sound) {arg : StringArgument}
    (uncapped : InsertUncapped sgToLowerTable (EntrySystem.decRef s.table (s.mIndex e)) arg)
    (taken : s.setTo sgToLowerTable e arg = some s') : s'.Sound := by
  rw [EntrySystem.setTo] at taken
  obtain ⟨he, taken⟩ := Option.ite_none_right_eq_some.mp taken
  obtain ⟨⟨index, table⟩, hins, rfl⟩ := Option.map_eq_some_iff.mp taken
  exact of_dropped he ((h.drop he).insert (Finset.notMem_erase e s.live) uncapped hins)

theorem assign (h : s.Sound) (careful : Careful sgToLowerTable s (.assign e r))
    (taken : s.step sgToLowerTable (.assign e r) = some s') : s'.Sound := by
  obtain ⟨⟨he, hr⟩, ⟨⟩⟩ := Option.ite_none_right_eq_some.mp taken
  refine of_dropped he ((h.drop he).takeRef (Finset.notMem_erase e s.live) (h.null r hr) fun hi => ?_)
  obtain ⟨str, count, hc, same⟩ := h.held r hr hi
  by_cases heq : s.mIndex e = s.mIndex r
  · -- the node keeps a reference, which makes room for the new one
    rw [Careful, if_pos heq] at careful
    have hone : count ≠ 1 := by
      rintro rfl
      exact careful str (heq ▸ hc)
    have hpos := h.count_pos hr hi hc
    refine ⟨str, count - 1, ?_, by bv_omega, same⟩
    simp only [EntrySystem.decRef, heq, if_pos hi, (decRef_kept h.wf hc hone).2,
      Function.update_self]
  · rw [Careful, if_neg heq] at careful
    refine ⟨str, count, ?_, ?_, same⟩
    · by_cases hzero : s.mIndex e = 0
      · simpa only [EntrySystem.decRef, hzero, ne_eq, not_true, if_false] using hc
      · obtain ⟨_, _, hce, -⟩ := h.held e he hzero
        simp only [EntrySystem.decRef, if_pos hzero]
        rw [decRef_other h.wf hzero hce (Ne.symm heq), hc]
    · rintro rfl
      exact careful str hc

theorem step (h : s.Sound) {a : Action} (careful : Careful sgToLowerTable s a)
    (taken : s.step sgToLowerTable a = some s') : s'.Sound := by
  cases a with
  | construct e =>
    obtain ⟨he, ⟨⟩⟩ := Option.ite_none_right_eq_some.mp taken
    exact h.bindNull he rfl
  | constructString e string caseSensitive beyond =>
    obtain ⟨he, taken⟩ := Option.ite_none_right_eq_some.mp taken
    obtain ⟨⟨index, table⟩, hins, rfl⟩ := Option.map_eq_some_iff.mp taken
    exact h.insert he careful hins
  | copy e theString =>
    obtain ⟨⟨he, hs⟩, ⟨⟩⟩ := Option.ite_none_right_eq_some.mp taken
    refine h.takeRef he (h.null theString hs) fun hi => ?_
    obtain ⟨str, count, hc, same⟩ := h.held theString hs hi
    refine ⟨str, count, hc, ?_, same⟩
    rintro rfl
    exact careful str hc
  | assign e r => exact h.assign careful taken
  | assignString e string beyond => exact h.setTo careful taken
  | set e string caseSensitive beyond => exact h.setTo careful taken
  | setn e arg => exact h.setTo careful taken
  | destroy e =>
    obtain ⟨-, ⟨⟩⟩ := Option.ite_none_right_eq_some.mp taken
    exact h.destroy e

end Sound

/-- The table of squares of the lower-case letters, with zeros before it. -/
def squares (c : U8) : U8 := if c.toNat < 128 then toLower c * toLower c else 0

end EntrySystem

end TNL
