import Mathlib.Data.List.Chain
import Mathlib.Data.List.Nodup
import Mathlib.Logic.Function.Basic

/-!
# Doubly linked lists between sentinels

Every node has both links, since the ends are nodes of their own. A node can be
taken out and linked in again without asking where it stands.
-/
namespace TNL.Library

structure Links (α : Type*) where
  next : α → α
  prev : α → α

namespace Links

variable {α : Type*} [DecidableEq α]

def setNext (k : Links α) (x value : α) : Links α :=
  { k with next := Function.update k.next x value }

def setPrev (k : Links α) (x value : α) : Links α :=
  { k with prev := Function.update k.prev x value }

/-- Link the neighbours of a node to each other. -/
def unlink (k : Links α) (x : α) : Links α :=
  let k := k.setNext (k.prev x) (k.next x)
  k.setPrev (k.next x) (k.prev x)

/-- Link a node in before another one. -/
def insertBefore (k : Links α) (x b : α) : Links α :=
  let k := k.setNext x b
  let k := k.setPrev x (k.prev b)
  let k := k.setPrev (k.next x) x
  k.setNext (k.prev x) x

/-- Link a node to itself. -/
def isolate (k : Links α) (x : α) : Links α := (k.setNext x x).setPrev x x

omit [DecidableEq α] in
/-- Each node is linked to the one behind it and back. -/
def Row (k : Links α) (l : List α) : Prop :=
  l.IsChain fun u v => k.next u = v ∧ k.prev v = u

variable {k k' : Links α} {before after : List α} {u x v b : α}

omit [DecidableEq α] in
theorem Row.congr {l : List α} (h : k.Row l) (hnext : ∀ y ∈ l.dropLast, k'.next y = k.next y)
    (hprev : ∀ y ∈ l.tail, k'.prev y = k.prev y) : k'.Row l := by
  induction l with
  | nil => exact List.isChain_nil
  | cons y l ih =>
    cases l with
    | nil => exact List.isChain_singleton y
    | cons z l =>
      obtain ⟨⟨hy, hz⟩, hrest⟩ := List.isChain_cons_cons.mp h
      apply List.isChain_cons_cons.mpr
      constructor
      · constructor
        · rw [hnext y List.mem_cons_self, hy]
        · rw [hprev z List.mem_cons_self, hz]
      · apply ih hrest
        · intro w hw
          exact hnext w (List.mem_cons_of_mem y hw)
        · intro w hw
          exact hprev w (List.mem_cons_of_mem z hw)

theorem next_unlink (k : Links α) (x : α) :
    (k.unlink x).next = Function.update k.next (k.prev x) (k.next x) := rfl

theorem prev_unlink (k : Links α) (x : α) :
    (k.unlink x).prev = Function.update k.prev (k.next x) (k.prev x) := by
  have hnext : Function.update k.next (k.prev x) (k.next x) x = k.next x := by
    by_cases h : x = k.prev x
    · rw [← h, Function.update_self]
    · rw [Function.update_of_ne h]
  change Function.update k.prev (Function.update k.next (k.prev x) (k.next x) x) (k.prev x) = _
  rw [hnext]

theorem next_insertBefore (k : Links α) (h : x ≠ b) :
    (k.insertBefore x b).next = Function.update (Function.update k.next x b) (k.prev b) x := by
  simp [insertBefore, setNext, setPrev, h]

theorem prev_insertBefore (k : Links α) (x b : α) :
    (k.insertBefore x b).prev = Function.update (Function.update k.prev x (k.prev b)) b x := by
  simp [insertBefore, setNext, setPrev]

/-- The node before and the node behind it need not be the same as any other of their kind, so
that the list may end where it begins. -/
theorem Row.unlink_of (h : k.Row (before ++ u :: x :: v :: after))
    (hu : u ∉ before ∧ u ∉ (v :: after).dropLast) (hv : v ∉ (before ++ [u]).tail ∧ v ∉ after) :
    (k.unlink x).Row (before ++ u :: v :: after) := by
  obtain ⟨hbefore, ⟨hux, hxu⟩, hrest⟩ := List.isChain_append_cons_cons.mp h
  obtain ⟨⟨hxv, hvx⟩, hafter⟩ := List.isChain_cons_cons.mp hrest
  have hnext := k.next_unlink x
  have hprev := k.prev_unlink x
  rw [hxu, hxv] at hnext hprev
  apply List.isChain_append_cons_cons.mpr
  refine ⟨?_, ?_, ?_⟩
  · apply Row.congr hbefore
    · intro y hy
      rw [List.dropLast_concat] at hy
      rw [hnext, Function.update_of_ne (ne_of_mem_of_not_mem hy hu.1)]
    · intro y hy
      rw [hprev, Function.update_of_ne (ne_of_mem_of_not_mem hy hv.1)]
  · rw [hnext, hprev, Function.update_self, Function.update_self]
    exact ⟨rfl, rfl⟩
  · apply Row.congr hafter
    · intro y hy
      rw [hnext, Function.update_of_ne (ne_of_mem_of_not_mem hy hu.2)]
    · intro y hy
      rw [hprev, Function.update_of_ne (ne_of_mem_of_not_mem hy hv.2)]

theorem Row.unlink (h : k.Row (before ++ u :: x :: v :: after))
    (hnodup : (before ++ u :: x :: v :: after).Nodup) :
    (k.unlink x).Row (before ++ u :: v :: after) := by
  apply h.unlink_of
  · constructor
    · grind
    · intro hmem
      have hmem' := List.dropLast_subset _ hmem
      grind
  · constructor
    · intro hmem
      have hmem' := List.mem_of_mem_tail hmem
      grind
    · grind

theorem Row.insertBefore_of (h : k.Row (before ++ u :: b :: after))
    (hx : x ∉ before ++ u :: b :: after) (hu : u ∉ before ∧ u ∉ (b :: after).dropLast)
    (hb : b ∉ (before ++ [u]).tail ∧ b ∉ after) :
    (k.insertBefore x b).Row (before ++ u :: x :: b :: after) := by
  obtain ⟨hbefore, ⟨hub, hbu⟩, hafter⟩ := List.isChain_append_cons_cons.mp h
  have hxu : x ≠ u := by grind
  have hxb : x ≠ b := by grind
  have hnext := k.next_insertBefore hxb
  have hprev := k.prev_insertBefore x b
  rw [hbu] at hnext hprev
  apply List.isChain_append_cons_cons.mpr
  refine ⟨?_, ?_, List.isChain_cons_cons.mpr ⟨?_, ?_⟩⟩
  · apply Row.congr hbefore
    · intro y hy
      rw [hnext, Function.update_of_ne, Function.update_of_ne] <;> grind
    · intro y hy
      have hmem := List.mem_of_mem_tail hy
      rw [hprev, Function.update_of_ne (ne_of_mem_of_not_mem hy hb.1), Function.update_of_ne]
      grind
  · constructor
    · rw [hnext, Function.update_self]
    · rw [hprev, Function.update_of_ne hxb, Function.update_self]
  · constructor
    · rw [hnext, Function.update_of_ne hxu, Function.update_self]
    · rw [hprev, Function.update_self]
  · apply Row.congr hafter
    · intro y hy
      have hmem := List.dropLast_subset _ hy
      rw [hnext, Function.update_of_ne (ne_of_mem_of_not_mem hy hu.2), Function.update_of_ne]
      grind
    · intro y hy
      rw [hprev, Function.update_of_ne (ne_of_mem_of_not_mem hy hb.2), Function.update_of_ne]
      grind

theorem Row.insertBefore (h : k.Row (before ++ u :: b :: after))
    (hnodup : (before ++ u :: x :: b :: after).Nodup) :
    (k.insertBefore x b).Row (before ++ u :: x :: b :: after) := by
  apply h.insertBefore_of
  · grind
  · constructor
    · grind
    · intro hmem
      have hmem' := List.dropLast_subset _ hmem
      grind
  · constructor
    · intro hmem
      have hmem' := List.mem_of_mem_tail hmem
      grind
    · grind

/-- A node moves to the end of the list between two sentinels. -/
theorem Row.moveBack {a : α} {l : List α} (h : k.Row (a :: (l ++ [b])))
    (hnodup : (a :: (l ++ [b])).Nodup) (hx : x ∈ l) :
    ((k.unlink x).insertBefore x b).Row (a :: ((l.erase x ++ [x]) ++ [b])) := by
  obtain ⟨front, back, rfl⟩ := List.append_of_mem hx
  have herase : (front ++ x :: back).erase x = front ++ back := by
    rw [List.erase_append_right, List.erase_cons_head]
    grind
  rw [herase]
  obtain ⟨before, u, hu⟩ : ∃ before u, a :: front = before ++ [u] :=
    ⟨_, _, (List.dropLast_append_getLast (List.cons_ne_nil a front)).symm⟩
  obtain ⟨v, after, hv⟩ : ∃ v after, back ++ [b] = v :: after :=
    List.exists_cons_of_ne_nil (by simp)
  have hlist : a :: ((front ++ x :: back) ++ [b]) = before ++ u :: x :: v :: after := by
    rw [← hv]
    simpa using congrArg (· ++ x :: (back ++ [b])) hu
  rw [hlist] at h hnodup
  have hout := h.unlink hnodup
  have hwithout : before ++ u :: v :: after = a :: ((front ++ back) ++ [b]) := by
    rw [← hv]
    simpa using (congrArg (· ++ (back ++ [b])) hu).symm
  rw [hwithout] at hout
  -- the node before the sentinel, once the node is out
  obtain ⟨init, w, hw⟩ : ∃ init w, a :: (front ++ back) = init ++ [w] :=
    ⟨_, _, (List.dropLast_append_getLast (List.cons_ne_nil a _)).symm⟩
  have hend : a :: ((front ++ back) ++ [b]) = init ++ w :: b :: [] := by
    simpa using congrArg (· ++ [b]) hw
  rw [hend] at hout
  have hmoved : a :: ((front ++ back ++ [x]) ++ [b]) = init ++ w :: x :: b :: [] := by
    simpa using congrArg (· ++ [x, b]) hw
  rw [hmoved]
  apply hout.insertBefore
  rw [← hmoved]
  rw [← hlist] at hnodup
  have hperm : (front ++ back ++ [x]).Perm (front ++ x :: back) := by
    rw [List.append_assoc]
    exact List.Perm.append_left front (List.perm_append_singleton x back)
  exact ((hperm.append_right [b]).cons a).nodup_iff.mpr hnodup

/-! ### Rings around one sentinel -/

omit [DecidableEq α] in
/-- The nodes are linked from the sentinel back to itself. -/
structure Ring (k : Links α) (a : α) (l : List α) : Prop where
  row : k.Row (a :: (l ++ [a]))
  nodup : (a :: l).Nodup

variable {a : α} {l : List α}

theorem Ring.insertFront (h : k.Ring a l) (hx : x ∉ a :: l) :
    (k.insertBefore x (k.next a)).Ring a (x :: l) := by
  refine ⟨?_, ?_⟩
  · have hrow := h.row
    have hnodup := h.nodup
    cases l with
    | nil =>
      have hnext : k.next a = a := (List.isChain_cons_cons.mp hrow).1.1
      rw [hnext]
      change (k.insertBefore x a).Row ([] ++ a :: x :: a :: [])
      apply Row.insertBefore_of hrow <;> simp_all
    | cons b l =>
      have hnext : k.next a = b := (List.isChain_cons_cons.mp hrow).1.1
      rw [hnext]
      change (k.insertBefore x b).Row ([] ++ a :: x :: b :: (l ++ [a]))
      apply Row.insertBefore_of hrow
      · simp_all
      · rw [← List.cons_append, List.dropLast_concat]
        simp_all
      · simp_all [eq_comm]
  · have hperm := List.Perm.swap x a l
    exact hperm.nodup_iff.mpr (List.nodup_cons.mpr ⟨hx, h.nodup⟩)

theorem Ring.erase (h : k.Ring a l) (hx : x ∈ l) : (k.unlink x).Ring a (l.erase x) := by
  refine ⟨?_, h.nodup.sublist (List.erase_sublist.cons_cons a)⟩
  obtain ⟨hrow, hnodup⟩ := h
  obtain ⟨front, back, rfl⟩ := List.append_of_mem hx
  have herase : (front ++ x :: back).erase x = front ++ back := by
    rw [List.erase_append_right, List.erase_cons_head]
    grind
  obtain ⟨before, u, hu⟩ : ∃ before u, a :: front = before ++ [u] :=
    ⟨_, _, (List.dropLast_append_getLast (List.cons_ne_nil a front)).symm⟩
  obtain ⟨v, after, hv⟩ : ∃ v after, back ++ [a] = v :: after :=
    List.exists_cons_of_ne_nil (by simp)
  have hlist : a :: ((front ++ x :: back) ++ [a]) = before ++ u :: x :: v :: after := by
    rw [← hv]
    simpa using congrArg (· ++ x :: (back ++ [a])) hu
  have hwithout : a :: ((front ++ x :: back).erase x ++ [a]) = before ++ u :: v :: after := by
    rw [← hv, herase]
    simpa using congrArg (· ++ (back ++ [a])) hu
  rw [hlist] at hrow
  rw [hwithout]
  have hdropLast : (v :: after).dropLast = back := by rw [← hv, List.dropLast_concat]
  have htail : (before ++ [u]).tail = front := by rw [← hu, List.tail_cons]
  have hmemu : u ∈ a :: front := by simp [hu]
  have hmemv : v ∈ back ++ [a] := by simp [hv]
  have hfront : (before ++ [u]).Nodup := by
    rw [← hu]
    grind
  have hback : (v :: after).Nodup := by
    rw [← hv]
    grind
  apply hrow.unlink_of
  · rw [hdropLast]
    grind
  · rw [htail]
    grind

omit [DecidableEq α] in
theorem Row.next_mem {y : α} (h : k.Row l) (hy : y ∈ l.dropLast) : k.next y ∈ l := by
  induction l with
  | nil => exact absurd hy List.not_mem_nil
  | cons z l ih =>
    cases l with
    | nil => exact absurd hy List.not_mem_nil
    | cons w l =>
      obtain ⟨⟨hz, -⟩, hrest⟩ := List.isChain_cons_cons.mp h
      rcases List.mem_cons.mp hy with rfl | hy
      · rw [hz]
        exact List.mem_cons_of_mem _ List.mem_cons_self
      · exact List.mem_cons_of_mem z (ih hrest hy)

omit [DecidableEq α] in
theorem Row.prev_mem {y : α} (h : k.Row l) (hy : y ∈ l.tail) : k.prev y ∈ l := by
  induction l with
  | nil => exact absurd hy List.not_mem_nil
  | cons z l ih =>
    cases l with
    | nil => exact absurd hy List.not_mem_nil
    | cons w l =>
      obtain ⟨⟨-, hw⟩, hrest⟩ := List.isChain_cons_cons.mp h
      rcases List.mem_cons.mp hy with rfl | hy
      · rw [hw]
        exact List.mem_cons_self
      · exact List.mem_cons_of_mem z (ih hrest hy)

omit [DecidableEq α] in
theorem Ring.next_mem {y : α} (h : k.Ring a l) (hy : y ∈ a :: l) : k.next y ∈ a :: l := by
  have hmem := h.row.next_mem (y := y) (by rwa [← List.cons_append, List.dropLast_concat])
  simp only [List.mem_cons, List.mem_append, List.not_mem_nil, or_false] at hmem ⊢
  grind

omit [DecidableEq α] in
theorem Ring.prev_mem {y : α} (h : k.Ring a l) (hy : y ∈ a :: l) : k.prev y ∈ a :: l := by
  have hmem := h.row.prev_mem (y := y) (by simpa [or_comm] using hy)
  simp only [List.mem_cons, List.mem_append, List.not_mem_nil, or_false] at hmem ⊢
  grind

/-- A node that is linked to itself stays so as long as the ring changes elsewhere. -/
def Single (k : Links α) (x : α) : Prop := k.next x = x ∧ k.prev x = x

theorem single_isolate (k : Links α) (x : α) : (k.isolate x).Single x :=
  ⟨Function.update_self .., Function.update_self ..⟩

theorem Single.isolate {y : α} (h : k.Single y) (x : α) : (k.isolate x).Single y := by
  by_cases hxy : y = x
  · rw [hxy]
    exact single_isolate k x
  · rw [Single, Links.isolate, setPrev, setNext]
    dsimp only
    rw [Function.update_of_ne hxy, Function.update_of_ne hxy]
    exact h

theorem Ring.isolate (h : k.Ring a l) (hx : x ∉ a :: l) : (k.isolate x).Ring a l := by
  refine ⟨?_, h.nodup⟩
  apply h.row.congr
  · intro y hy
    rw [← List.cons_append, List.dropLast_concat] at hy
    exact Function.update_of_ne (ne_of_mem_of_not_mem hy hx) ..
  · intro y hy
    have hmem : y ∈ a :: l := by simpa [or_comm] using hy
    exact Function.update_of_ne (ne_of_mem_of_not_mem hmem hx) ..

theorem Single.unlink_self (h : k.Single x) : k.unlink x = k := by
  have hnext : (k.unlink x).next = k.next := by
    rw [next_unlink, h.2, Function.update_eq_self]
  have hprev : (k.unlink x).prev = k.prev := by
    rw [prev_unlink, h.1, Function.update_eq_self]
  calc k.unlink x = ⟨(k.unlink x).next, (k.unlink x).prev⟩ := rfl
    _ = k := by rw [hnext, hprev]

theorem Single.unlink {y : α} (h : k.Single y) (hring : k.Ring a l) (hx : x ∈ l)
    (hy : y ∉ a :: l) : (k.unlink x).Single y := by
  have hx' : x ∈ a :: l := List.mem_cons_of_mem a hx
  have hnext := ne_of_mem_of_not_mem (hring.next_mem hx') hy
  have hprev := ne_of_mem_of_not_mem (hring.prev_mem hx') hy
  rw [Single, next_unlink, prev_unlink, Function.update_of_ne hprev.symm,
    Function.update_of_ne hnext.symm]
  exact h

theorem Single.insertFront {y : α} (h : k.Single y) (hring : k.Ring a l) (hx : x ∉ a :: l)
    (hy : y ∉ x :: a :: l) : (k.insertBefore x (k.next a)).Single y := by
  have hmem := hring.next_mem List.mem_cons_self
  have hnext := ne_of_mem_of_not_mem hmem (List.not_mem_of_not_mem_cons hy)
  have hprev := ne_of_mem_of_not_mem (hring.prev_mem hmem) (List.not_mem_of_not_mem_cons hy)
  have hyx := List.ne_of_not_mem_cons hy
  rw [Single, next_insertBefore k (ne_of_mem_of_not_mem hmem hx).symm, prev_insertBefore,
    Function.update_of_ne hprev.symm, Function.update_of_ne hyx, Function.update_of_ne hnext.symm,
    Function.update_of_ne hyx]
  exact h

end Links

end TNL.Library
