import Mathlib.Algebra.Order.BigOperators.Group.List
import Mathlib.Algebra.Order.Ring.Nat
import Mathlib.Data.Nat.Fib.Basic
import TNL.Library.EraseFast
import TNL.Stream.Huffman

/-!
# The tree that is built

Of the trees that are left, the two merged are populated least. Merging loses no
character, and the height of a tree is bounded by its population as that of the
Fibonacci trees.
-/
namespace TNL

namespace HuffTree

def height : HuffTree → ℕ
  | leaf _ => 0
  | node index0 index1 => max index0.height index1.height + 1

theorem length_le_height {tree : HuffTree} {code : UInt8 × List Bool}
    (h : code ∈ tree.generateCodes) : code.2.length ≤ tree.height := by
  induction tree generalizing code with
  | leaf =>
    rw [List.mem_singleton.mp h]
    exact le_rfl
  | node index0 index1 ih₀ ih₁ =>
    rcases List.mem_append.mp h with h | h
    · obtain ⟨below, hmem, rfl⟩ := List.mem_map.mp h
      exact Nat.succ_le_succ ((ih₀ hmem).trans (Nat.le_max_left ..))
    · obtain ⟨below, hmem, rfl⟩ := List.mem_map.mp h
      exact Nat.succ_le_succ ((ih₁ hmem).trans (Nat.le_max_right ..))

theorem code_length_le_height {tree : HuffTree} {symbol : UInt8} (h : symbol ∈ tree.symbols) :
    (tree.code symbol).length ≤ tree.height :=
  length_le_height (code_mem h)

end HuffTree

namespace HuffmanStringProcessor

/-- The bound that populations stay below. -/
def popLimit : ℕ := 0xfffffffe

def Mins.start : Mins := ⟨0xfffffffe, 0xffffffff, 0, 0⟩

/-- After the first two trees the places are two different ones among those visited. -/
def Mins.Found (m : Mins) (i : ℕ) : Prop :=
  match i with
  | 0 => m = start
  | 1 => m.index1 = 0 ∧ m.min2 = popLimit
  | i => m.index1 < i ∧ m.index2 < i ∧ m.index1 ≠ m.index2

theorem Mins.Found.visit {m : Mins} {pop i : ℕ} (h : m.Found i) (hpop : pop < popLimit) :
    (m.visit pop i).Found (i + 1) := by
  match i with
  | 0 =>
    obtain rfl : m = start := h
    rw [Mins.visit, if_pos (show pop < start.min1 from hpop)]
    exact ⟨rfl, rfl⟩
  | 1 =>
    obtain ⟨hindex, hmin⟩ : m.index1 = 0 ∧ m.min2 = popLimit := h
    rw [Mins.visit]
    split_ifs with h₁ h₂
    · exact ⟨Nat.lt_succ_self 1, hindex.trans_lt Nat.two_pos, (hindex.trans_lt Nat.one_pos).ne'⟩
    · exact ⟨hindex.trans_lt Nat.two_pos, Nat.lt_succ_self 1, (hindex.trans_lt Nat.one_pos).ne⟩
    · exact absurd (hmin.symm ▸ hpop) h₂
  | i + 2 =>
    obtain ⟨h₁, h₂, hne⟩ : m.index1 < i + 2 ∧ m.index2 < i + 2 ∧ m.index1 ≠ m.index2 := h
    change _ < i + 3 ∧ _ < i + 3 ∧ _ ≠ _
    rw [Mins.visit]
    split_ifs
    · exact ⟨Nat.lt_succ_self _, h₁.trans (Nat.lt_succ_self _), h₁.ne'⟩
    · exact ⟨h₁.trans (Nat.lt_succ_self _), Nat.lt_succ_self _, h₁.ne⟩
    · exact ⟨h₁.trans (Nat.lt_succ_self _), h₂.trans (Nat.lt_succ_self _), hne⟩

theorem findMins_found {wraps : List HuffWrap} {i : ℕ} {m : Mins} (h : m.Found i)
    (hpops : ∀ wrap ∈ wraps, wrap.pop < popLimit) :
    (findMins wraps i m).Found (i + wraps.length) := by
  induction wraps generalizing i m with
  | nil => exact h
  | cons wrap wraps ih =>
    have hrest := ih (h.visit (hpops wrap List.mem_cons_self))
      fun w hw => hpops w (List.mem_cons_of_mem _ hw)
    rwa [Nat.add_assoc, Nat.add_comm 1] at hrest

/-- The two populations are those at the places, and none of the others is less. -/
structure Mins.Least (m : Mins) (seen : List HuffWrap) : Prop where
  first : seen ≠ [] → seen[m.index1]?.map HuffWrap.pop = some m.min1
  second : 2 ≤ seen.length → seen[m.index2]?.map HuffWrap.pop = some m.min2
  le : m.min1 ≤ m.min2
  least : ∀ k wrap, seen[k]? = some wrap → k ≠ m.index1 → k ≠ m.index2 → m.min2 ≤ wrap.pop

theorem Mins.Least.visit {m : Mins} {seen : List HuffWrap} {wrap : HuffWrap} (h : m.Least seen)
    (hfound : m.Found seen.length) (hpop : wrap.pop < popLimit) :
    (m.visit wrap.pop seen.length).Least (seen ++ [wrap]) := by
  have hnew : (seen ++ [wrap])[seen.length]?.map HuffWrap.pop = some wrap.pop := by
    rw [List.getElem?_append_right le_rfl, Nat.sub_self]
    rfl
  have hold : ∀ {k pop : ℕ}, seen[k]?.map HuffWrap.pop = some pop →
      (seen ++ [wrap])[k]?.map HuffWrap.pop = some pop := by
    intro k pop hk
    have hlt : k < seen.length := by
      by_contra hge
      rw [List.getElem?_eq_none (not_lt.mp hge)] at hk
      exact absurd hk (by simp)
    rwa [List.getElem?_append_left hlt]
  have hseen : ∀ {k : ℕ} {other}, (seen ++ [wrap])[k]? = some other → k ≠ seen.length →
      seen[k]? = some other := by
    intro k other hk hne
    rcases Nat.lt_or_ge k seen.length with hlt | hge
    · rwa [List.getElem?_append_left hlt] at hk
    · rw [List.getElem?_eq_none (by simp; omega)] at hk
      exact absurd hk (by simp)
  have hsecond : ∀ {k : ℕ} {other}, seen[k]? = some other → k ≠ m.index1 → k = m.index2 →
      other.pop = m.min2 := by
    intro k other hk hne hindex
    have hlt : k < seen.length := (List.getElem?_eq_some_iff.mp hk).1
    have hmany : 2 ≤ seen.length := by
      by_contra hfew
      obtain hone : seen.length = 1 := by omega
      rw [hone] at hfound
      exact hne (by rw [hfound.1]; omega)
    have hpop := h.second hmany
    rw [← hindex, hk] at hpop
    exact Option.some.inj hpop
  have hnonempty : ¬ wrap.pop < m.min1 → seen ≠ [] := by
    rintro hge rfl
    obtain rfl : m = start := hfound
    exact hge hpop
  rw [Mins.visit]
  split_ifs with hmin1 hmin2
  · refine ⟨fun _ => hnew, fun hmany => ?_, hmin1.le, fun k other hk hne hne' => ?_⟩
    · refine hold (h.first ?_)
      rintro rfl
      simp at hmany
    · have hk := hseen hk hne
      by_cases hindex : k = m.index2
      · rw [hsecond hk hne' hindex]
        exact h.le
      · exact h.le.trans (h.least k other hk hne' hindex)
  · refine ⟨fun _ => hold (h.first (hnonempty hmin1)), fun _ => hnew, not_lt.mp hmin1,
      fun k other hk hne hne' => ?_⟩
    have hk := hseen hk hne'
    by_cases hindex : k = m.index2
    · rw [hsecond hk hne hindex]
      exact hmin2.le
    · exact hmin2.le.trans (h.least k other hk hne hindex)
  · refine ⟨fun _ => hold (h.first (hnonempty hmin1)), fun _ => hold (h.second ?_), h.le,
      fun k other hk hne hne' => ?_⟩
    · by_contra hfew
      have hpos := List.length_pos_of_ne_nil (hnonempty hmin1)
      obtain hone : seen.length = 1 := by omega
      rw [hone] at hfound
      exact hmin2 (hfound.2 ▸ hpop)
    · by_cases hlast : k = seen.length
      · rw [hlast, List.getElem?_append_right le_rfl, Nat.sub_self] at hk
        obtain rfl : wrap = other := Option.some.inj hk
        exact not_lt.mp hmin2
      · exact h.least k other (hseen hk hlast) hne hne'

theorem findMins_least {wraps seen : List HuffWrap} {m : Mins} (h : m.Least seen)
    (hfound : m.Found seen.length) (hpops : ∀ wrap ∈ wraps, wrap.pop < popLimit) :
    (findMins wraps seen.length m).Least (seen ++ wraps) := by
  induction wraps generalizing seen m with
  | nil => rwa [List.append_nil]
  | cons wrap wraps ih =>
    have hpop := hpops wrap List.mem_cons_self
    have hlength : (seen ++ [wrap]).length = seen.length + 1 := by simp
    have hrest := ih (h.visit hfound hpop) (hlength ▸ hfound.visit hpop)
      fun w hw => hpops w (List.mem_cons_of_mem _ hw)
    rwa [hlength, List.append_assoc] at hrest

/-- Replacing one of two elements and erasing the other. -/
theorem eraseIdx_set_perm {α : Type*} {l : List α} {i j : ℕ} (hij : i < j) (hj : j < l.length)
    (r : α) : l.Perm (l[i] :: l[j] :: (l.eraseIdx j).eraseIdx i) ∧
      ((l.set i r).eraseIdx j).Perm (r :: (l.eraseIdx j).eraseIdx i) := by
  have hi : i < (l.eraseIdx j).length := by
    rw [List.length_eraseIdx_of_lt hj]
    omega
  constructor
  · have hget : (l.eraseIdx j)[i] = l[i] := List.getElem_eraseIdx_of_lt hi hij
    have hfirst : (l[i] :: (l.eraseIdx j).eraseIdx i).Perm (l.eraseIdx j) :=
      hget ▸ List.getElem_cons_eraseIdx_perm hi
    exact ((List.getElem_cons_eraseIdx_perm hj).symm.trans (hfirst.symm.cons _)).trans
      (List.Perm.swap ..)
  · rw [List.eraseIdx_set_gt hij]
    exact List.set_perm_cons_eraseIdx hi r

/-- The last tree moves to the place that is free. -/
theorem nuke_perm {l : List HuffWrap} {i j k : ℕ} (hij : i < j) (hj : j < l.length) (r : HuffWrap)
    (hk : k = l.length - 1 → j = k) (hlast : l.length - 1 < l.length) :
    (if k = (l.set i r).length - 1 then l.set i r else (l.set i r).set j l[l.length - 1]).dropLast.Perm
      ((l.set i r).eraseIdx j) := by
  have hlength : (l.set i r).length = l.length := List.length_set
  by_cases hlater : k = (l.set i r).length - 1
  · have hjk := hk (hlater.trans (congrArg (· - 1) hlength))
    rw [if_pos hlater, List.eraseIdx_eq_dropLast (by omega)]
  · have hget : (l.set i r).getLast? = some l[l.length - 1] := by
      rw [List.getLast?_eq_getElem?, hlength, List.getElem?_set_ne (by omega),
        List.getElem?_eq_getElem hlast]
    have herase := eraseFast_perm (show j < (l.set i r).length by omega)
    rw [eraseFast, hget] at herase
    rw [if_neg hlater]
    exact herase

/-- Merging replaces two trees by their node, and no other is populated less. -/
theorem merge_perm {pWrap : List HuffWrap} (hlength : 2 ≤ pWrap.length)
    (hpops : ∀ wrap ∈ pWrap, wrap.pop < popLimit) : ∃ wrap1 wrap2 rest,
      pWrap.Perm (wrap1 :: wrap2 :: rest) ∧
      (merge pWrap).Perm (⟨wrap1.pop + wrap2.pop, .node wrap1.tree wrap2.tree⟩ :: rest) ∧
      wrap1.pop ≤ wrap2.pop ∧ ∀ wrap ∈ rest, wrap2.pop ≤ wrap.pop := by
  have hfound := findMins_found (m := .start) (i := 0) rfl hpops
  have hleast := findMins_least (m := .start)
    ⟨fun h => absurd rfl h, fun h => absurd h (by decide), by decide, by simp⟩ rfl hpops
  obtain ⟨n, hn⟩ : ∃ n, pWrap.length = n + 2 := ⟨pWrap.length - 2, by omega⟩
  rw [hn, Nat.zero_add] at hfound
  rw [List.nil_append, List.length_nil] at hleast
  rw [merge, show (⟨0xfffffffe, 0xffffffff, 0, 0⟩ : Mins) = .start from rfl]
  generalize findMins pWrap 0 .start = m at hfound hleast
  obtain ⟨h₁, h₂, hne⟩ : m.index1 < n + 2 ∧ m.index2 < n + 2 ∧ m.index1 ≠ m.index2 := hfound
  rw [← hn] at h₁ h₂
  have hlast : pWrap.length - 1 < pWrap.length := by omega
  have hpop1 := hleast.first (List.ne_nil_of_length_pos (by omega))
  have hpop2 := hleast.second hlength
  rw [List.getElem?_eq_getElem h₁, Option.map_some, Option.some.injEq] at hpop1
  rw [List.getElem?_eq_getElem h₂, Option.map_some, Option.some.injEq] at hpop2
  simp only [List.getElem?_eq_getElem h₁, List.getElem?_eq_getElem h₂,
    List.getElem?_eq_getElem hlast]
  generalize hr : (⟨pWrap[m.index1].pop + pWrap[m.index2].pop,
    .node pWrap[m.index1].tree pWrap[m.index2].tree⟩ : HuffWrap) = rNode
  have hmin : min m.index1 m.index2 < max m.index1 m.index2 := by omega
  have hmax : max m.index1 m.index2 < pWrap.length := by omega
  obtain ⟨hbefore, hafter⟩ := eraseIdx_set_perm hmin hmax rNode
  refine ⟨pWrap[m.index1], pWrap[m.index2],
    (pWrap.eraseIdx (max m.index1 m.index2)).eraseIdx (min m.index1 m.index2), ?_, ?_, ?_,
    fun wrap hwrap => ?_⟩
  · rcases Nat.lt_or_ge m.index1 m.index2 with hlt | hge
    · simpa only [Nat.min_eq_left hlt.le, Nat.max_eq_right hlt.le] using hbefore
    · simp only [Nat.min_eq_right hge, Nat.max_eq_left hge] at hbefore ⊢
      exact hbefore.trans (List.Perm.swap ..)
  · rw [hr]
    exact (nuke_perm hmin hmax rNode (by omega) hlast).trans hafter
  · rw [hpop1, hpop2]
    exact hleast.le
  · rw [hpop2]
    obtain ⟨k, hk, hget⟩ := List.mem_eraseIdx_iff_getElem?.mp hwrap
    rw [List.getElem?_eraseIdx] at hget
    split_ifs at hget with hlow
    · exact hleast.least k wrap hget (by omega) (by omega)
    · exact hleast.least (k + 1) wrap hget (by omega) (by omega)

/-- The characters of a sequence of trees. -/
def symbolsOf (pWrap : List HuffWrap) : List UInt8 := pWrap.flatMap fun wrap => wrap.tree.symbols

def populationOf (pWrap : List HuffWrap) : ℕ := (pWrap.map HuffWrap.pop).sum

theorem pop_lt_of_populationOf {pWrap : List HuffWrap} (h : populationOf pWrap < popLimit) :
    ∀ wrap ∈ pWrap, wrap.pop < popLimit := fun _ hwrap =>
  (List.le_sum_of_mem (List.mem_map_of_mem hwrap)).trans_lt h

theorem merge_keeps {pWrap : List HuffWrap} (hlength : 2 ≤ pWrap.length)
    (h : populationOf pWrap < popLimit) :
    (symbolsOf (merge pWrap)).Perm (symbolsOf pWrap) ∧
      populationOf (merge pWrap) = populationOf pWrap ∧
      (merge pWrap).length + 1 = pWrap.length := by
  obtain ⟨wrap1, wrap2, rest, hbefore, hafter, -⟩ := merge_perm hlength (pop_lt_of_populationOf h)
  refine ⟨?_, ?_, ?_⟩
  · refine (hafter.flatMap_right _).trans (List.Perm.trans ?_ (hbefore.flatMap_right _).symm)
    rw [List.flatMap_cons, List.flatMap_cons, List.flatMap_cons, HuffTree.symbols,
      List.append_assoc]
  · rw [populationOf, (hafter.map _).sum_nat, populationOf, (hbefore.map _).sum_nat]
    simp only [List.map_cons, List.sum_cons, Nat.add_assoc]
  · rw [hafter.length_eq, hbefore.length_eq]
    rfl

/-- A deep tree has a large population, and the trees below its root were among the least populated
ones when they were merged. -/
def Deep (pWrap : List HuffWrap) : Prop :=
  ∀ wrap ∈ pWrap, Nat.fib (wrap.tree.height + 2) ≤ wrap.pop ∧
    ∀ other ∈ pWrap, Nat.fib (wrap.tree.height + 1) ≤ other.pop

theorem Deep.perm {l l' : List HuffWrap} (h : Deep l) (hperm : l.Perm l') : Deep l' :=
  fun wrap hwrap => ⟨(h wrap (hperm.mem_iff.mpr hwrap)).1,
    fun other hother => (h wrap (hperm.mem_iff.mpr hwrap)).2 other (hperm.mem_iff.mpr hother)⟩

/-- The sum of two populations grows with the greater height like the Fibonacci numbers. -/
theorem fib_le_add {h₁ h₂ pop1 pop2 : ℕ} (h₁' : Nat.fib (h₁ + 2) ≤ pop1)
    (h₁₂ : Nat.fib (h₁ + 1) ≤ pop2) (h₂' : Nat.fib (h₂ + 2) ≤ pop2)
    (h₂₁ : Nat.fib (h₂ + 1) ≤ pop1) : Nat.fib (max h₁ h₂ + 1 + 2) ≤ pop1 + pop2 := by
  have hstep : ∀ h, Nat.fib (h + 1 + 2) = Nat.fib (h + 1) + Nat.fib (h + 2) := fun h =>
    Nat.fib_add_two
  rw [hstep]
  rcases Nat.le_total h₁ h₂ with hle | hle
  · rw [Nat.max_eq_right hle]
    omega
  · rw [Nat.max_eq_left hle]
    omega

theorem Deep.merge {pWrap : List HuffWrap} (hdeep : Deep pWrap) (hlength : 2 ≤ pWrap.length)
    (h : populationOf pWrap < popLimit) : Deep (merge pWrap) := by
  obtain ⟨wrap1, wrap2, rest, hbefore, hafter, hle, hleast⟩ :=
    merge_perm hlength (pop_lt_of_populationOf h)
  have hdeep := hdeep.perm hbefore
  obtain ⟨hpop1, hother1⟩ := hdeep wrap1 List.mem_cons_self
  obtain ⟨hpop2, hother2⟩ := hdeep wrap2 (List.mem_cons_of_mem _ List.mem_cons_self)
  have hmem2 : wrap2 ∈ wrap1 :: wrap2 :: rest := List.mem_cons_of_mem _ List.mem_cons_self
  have hsum := fib_le_add hpop1 (hother1 wrap2 hmem2) hpop2 (hother2 wrap1 List.mem_cons_self)
  -- both children are populated less than any tree that is left
  have hchild : ∀ pop, wrap2.pop ≤ pop →
      Nat.fib (max wrap1.tree.height wrap2.tree.height + 1 + 1) ≤ pop := by
    intro pop hpop
    rcases Nat.le_total wrap1.tree.height wrap2.tree.height with hh | hh
    · rw [Nat.max_eq_right hh]
      exact hpop2.trans hpop
    · rw [Nat.max_eq_left hh]
      exact hpop1.trans (hle.trans hpop)
  refine Deep.perm (fun wrap hwrap => ?_) hafter.symm
  rcases List.mem_cons.mp hwrap with rfl | hwrap
  · refine ⟨hsum, fun other hother => ?_⟩
    rcases List.mem_cons.mp hother with rfl | hother
    · exact hchild _ (Nat.le_add_left ..)
    · exact hchild _ (hleast other hother)
  · obtain ⟨hpop, hothers⟩ := hdeep wrap (List.mem_cons_of_mem _ (List.mem_cons_of_mem _ hwrap))
    refine ⟨hpop, fun other hother => ?_⟩
    rcases List.mem_cons.mp hother with rfl | hother
    · exact (hothers wrap1 List.mem_cons_self).trans (Nat.le_add_right ..)
    · exact hothers other (List.mem_cons_of_mem _ (List.mem_cons_of_mem _ hother))

theorem mergeAll_keeps {n : ℕ} {pWrap : List HuffWrap} (hlength : n + 1 = pWrap.length)
    (h : populationOf pWrap < popLimit) (hdeep : Deep pWrap) :
    (symbolsOf (mergeAll n pWrap)).Perm (symbolsOf pWrap) ∧
      populationOf (mergeAll n pWrap) = populationOf pWrap ∧
      (mergeAll n pWrap).length = 1 ∧ Deep (mergeAll n pWrap) := by
  induction n generalizing pWrap with
  | zero => exact ⟨List.Perm.refl _, rfl, hlength.symm, hdeep⟩
  | succ n ih =>
    obtain ⟨hsymbols, hpopulation, hmerged⟩ := merge_keeps (by omega) h
    obtain ⟨hrest, hpopulation', hone⟩ :=
      ih (by omega) (hpopulation.trans_lt h) (hdeep.merge (by omega) h)
    exact ⟨hrest.trans hsymbols, hpopulation'.trans hpopulation, hone⟩

/-- The tree has exactly the characters that have a frequency, and its height is bounded by the sum
of the frequencies. -/
theorem buildTables_spec {freqs : List ℕ} (hne : freqs ≠ [])
    (h : freqs.sum + freqs.length < popLimit) :
    (buildTables freqs).symbols.Perm ((List.range freqs.length).map UInt8.ofNat) ∧
      Nat.fib ((buildTables freqs).height + 2) ≤ freqs.sum + freqs.length := by
  set pWrap : List HuffWrap :=
    freqs.zipIdx.map (fun f => ⟨f.1 + 1, .leaf (UInt8.ofNat f.2)⟩) with hwrap
  have hlength : pWrap.length = freqs.length := by simp [hwrap]
  have hpopulation : populationOf pWrap = freqs.sum + freqs.length := by
    have hpops : pWrap.map HuffWrap.pop = freqs.map (· + 1) := by
      rw [← congrArg (List.map (· + 1)) (List.zipIdx_map_fst 0 freqs), hwrap, List.map_map,
        List.map_map]
      rfl
    rw [populationOf, hpops, List.sum_map_add, List.map_id', List.map_const',
      List.sum_replicate_nat, Nat.mul_one]
  have hsymbols : symbolsOf pWrap = (List.range freqs.length).map UInt8.ofNat := by
    rw [List.range_eq_range', ← List.zipIdx_map_snd 0 freqs, List.map_map, symbolsOf, hwrap,
      List.flatMap_map]
    exact List.flatMap_pure_eq_map ..
  have hdeep : Deep pWrap := by
    have hleaf : ∀ wrap ∈ pWrap, wrap.tree.height = 0 ∧ 1 ≤ wrap.pop := by
      intro wrap hmem
      obtain ⟨f, -, rfl⟩ := List.mem_map.mp hmem
      exact ⟨rfl, Nat.le_add_left ..⟩
    intro wrap hmem
    obtain ⟨hheight, hpop⟩ := hleaf wrap hmem
    rw [hheight]
    exact ⟨hpop, fun other hother => (hleaf other hother).2⟩
  have hpos : 0 < freqs.length := List.length_pos_of_ne_nil hne
  obtain ⟨hkept, hpopulation', hone, hdeep⟩ :=
    mergeAll_keeps (n := pWrap.length - 1) (by omega) (hpopulation.trans_lt h) hdeep
  obtain ⟨wrap, heq⟩ := List.length_eq_one_iff.mp hone
  rw [heq, hpopulation] at hpopulation'
  rw [heq] at hdeep
  rw [heq, hsymbols] at hkept
  rw [buildTables, ← hwrap, heq]
  constructor
  · simpa [symbolsOf] using hkept
  · rw [← hpopulation', populationOf, List.map_singleton, List.sum_singleton]
    exact (hdeep wrap List.mem_cons_self).1

theorem mCharFreqs_length : mCharFreqs.length = 256 := by decide +kernel

theorem mCharFreqs_ne_nil : mCharFreqs ≠ [] :=
  List.ne_nil_of_length_pos (mCharFreqs_length.symm ▸ by decide)

theorem mCharFreqs_total : mCharFreqs.sum + mCharFreqs.length = 32782 := by decide +kernel

/-- Every character has a code. -/
theorem mem_symbols (c : UInt8) : c ∈ (buildTables mCharFreqs).symbols := by
  have htotal : mCharFreqs.sum + mCharFreqs.length < popLimit := mCharFreqs_total.trans_lt (by decide)
  rw [(buildTables_spec mCharFreqs_ne_nil htotal).1.mem_iff, List.mem_map]
  exact ⟨c.toNat, List.mem_range.mpr (mCharFreqs_length.symm ▸ c.toNat_lt), UInt8.ofNat_toNat⟩

/-- No code is longer than the 32 bits it is kept in. -/
theorem code_length_le (c : UInt8) : ((buildTables mCharFreqs).code c).length ≤ 32 := by
  have htotal : mCharFreqs.sum + mCharFreqs.length < popLimit := mCharFreqs_total.trans_lt (by decide)
  have hfib := (buildTables_spec mCharFreqs_ne_nil htotal).2
  have hheight : (buildTables mCharFreqs).height ≤ 32 := by
    by_contra hhigh
    have hmono := Nat.fib_mono (show 32 ≤ (buildTables mCharFreqs).height + 2 by omega)
    rw [mCharFreqs_total] at hfib
    exact absurd (hmono.trans hfib) (by decide +kernel)
  exact (HuffTree.code_length_le_height (mem_symbols c)).trans hheight

end HuffmanStringProcessor

end TNL
