import Mathlib.Data.List.Nodup
import Mathlib.Data.List.TakeWhile

/-!
# Singly linked lists in memory

Nodes with a link field, and lists of them reached from a head pointer. A walk
that inserts into a list keeps a pointer to a place that holds a pointer, which
is the head variable of the list or the link of a node. Lists at disjoint
addresses do not see each other's writes.
-/
namespace TNL.Library

variable {α : Type*}

structure Node (α : Type*) where
  data : α
  next : Option ℕ

/-- `none` at an address that is not allocated. -/
abbrev Memory (α : Type*) := ℕ → Option (Node α)

namespace Memory

/-- Overwrite the link of an allocated node. -/
def setNext (m : Memory α) (p : ℕ) (next : Option ℕ) : Option (Memory α) :=
  match m p with
  | none => none
  | some node => some (Function.update m p (some ⟨node.data, next⟩))

/-- The nodes from `head` up to the pointer `stop`, with their addresses. -/
def Segment (m : Memory α) : Option ℕ → List (ℕ × α) → Option ℕ → Prop
  | head, [], stop => head = stop
  | head, (p, a) :: rest, stop =>
    head = some p ∧ ∃ next, m p = some ⟨a, next⟩ ∧ m.Segment next rest stop

/-- The addresses of a list. -/
def addresses (nodes : List (ℕ × α)) : List ℕ := nodes.map Prod.fst

@[simp] theorem addresses_nil : addresses ([] : List (ℕ × α)) = [] := rfl

@[simp] theorem addresses_cons (x : ℕ × α) (nodes : List (ℕ × α)) :
    addresses (x :: nodes) = x.1 :: addresses nodes := rfl

@[simp] theorem addresses_append (before after : List (ℕ × α)) :
    addresses (before ++ after) = addresses before ++ addresses after := List.map_append

variable {m m' : Memory α} {head stop : Option ℕ} {p : ℕ} {a : α}
  {nodes before after : List (ℕ × α)}

theorem segment_append : m.Segment head (before ++ after) stop ↔
    ∃ middle, m.Segment head before middle ∧ m.Segment middle after stop := by
  induction before generalizing head with
  | nil => simp [Segment]
  | cons x before ih =>
    rcases x with ⟨p, a⟩
    simp only [List.cons_append, Segment, ih]
    constructor
    · rintro ⟨hhead, next, hnode, middle, hbefore, hafter⟩
      exact ⟨middle, ⟨hhead, next, hnode, hbefore⟩, hafter⟩
    · rintro ⟨middle, ⟨hhead, next, hnode, hbefore⟩, hafter⟩
      exact ⟨hhead, next, hnode, middle, hbefore, hafter⟩

namespace Segment

theorem mem (h : m.Segment head nodes stop) (hp : p ∈ addresses nodes) : (m p).isSome := by
  induction nodes generalizing head with
  | nil => simp at hp
  | cons x nodes ih =>
    rcases h with ⟨-, next, hnode, hrest⟩
    rcases List.mem_cons.mp hp with rfl | htail
    · rw [hnode]
      rfl
    · exact ih hrest htail

theorem node_data (h : m.Segment head nodes stop) {node : Node α} (hnode : m p = some node)
    (hp : (p, a) ∈ nodes) : node.data = a := by
  induction nodes generalizing head with
  | nil => cases hp
  | cons x nodes ih =>
    rcases h with ⟨-, next, hfirst, hrest⟩
    rcases List.mem_cons.mp hp with rfl | htail
    · rw [hnode] at hfirst
      exact congrArg Node.data (Option.some.inj hfirst)
    · exact ih hrest htail

/-- A list only depends on the memory at its own addresses. -/
theorem congr (h : m.Segment head nodes stop) (heq : ∀ p ∈ addresses nodes, m' p = m p) :
    m'.Segment head nodes stop := by
  induction nodes generalizing head with
  | nil => exact h
  | cons x nodes ih =>
    rcases h with ⟨hhead, next, hnode, hrest⟩
    refine ⟨hhead, next, ?_, ih hrest fun p hp => heq p (List.mem_cons_of_mem _ hp)⟩
    rw [heq x.1 List.mem_cons_self]
    exact hnode

theorem update (h : m.Segment head nodes stop) (hp : p ∉ addresses nodes) (x : Option (Node α)) :
    Segment (Function.update m p x) head nodes stop := by
  apply h.congr
  intro q hq
  apply Function.update_of_ne
  rintro rfl
  exact hp hq

/-- The head of a list that ends in null is its first node. -/
theorem head_eq (h : m.Segment head nodes none) : head = (addresses nodes).head? := by
  cases nodes with
  | nil => exact h
  | cons x nodes => exact h.1

/-- Relinking the last node redirects the end of a list. -/
theorem redirect (h : m.Segment head (before ++ [(p, a)]) stop)
    (hp : p ∉ addresses before) (next : Option ℕ) :
    Segment (Function.update m p (some ⟨a, next⟩)) head (before ++ [(p, a)]) next := by
  rcases segment_append.mp h with ⟨middle, hbefore, hhead, -, -, -⟩
  apply segment_append.mpr
  refine ⟨middle, hbefore.update hp _, hhead, next, ?_, rfl⟩
  exact Function.update_self ..

end Segment

/-- A place that holds a pointer: the head variable of a list, or the link of a node. -/
inductive Cell where
  | head
  | link (p : ℕ)

namespace Cell

/-- Reading through a null or dangling pointer is a fault. -/
def get (m : Memory α) (head : Option ℕ) : Cell → Option (Option ℕ)
  | .head => some head
  | .link p => (m p).map Node.next

/-- The memory and the head variable after a write. -/
def set (m : Memory α) (head : Option ℕ) : Cell → Option ℕ → Option (Memory α × Option ℕ)
  | .head, value => some (m, value)
  | .link p, value => (m.setNext p value).map (·, head)

/-- The place after a part of a list. -/
def behind (before : List (ℕ × α)) : Cell :=
  match before.getLast? with
  | none => .head
  | some x => .link x.1

@[simp] theorem behind_nil : behind ([] : List (ℕ × α)) = .head := rfl

@[simp] theorem behind_concat (before : List (ℕ × α)) (x : ℕ × α) :
    behind (before ++ [x]) = .link x.1 := by simp [behind]

/-- Move on past the nodes to be skipped. -/
def advance (m : Memory α) (head : Option ℕ) (skip : α → Bool) : ℕ → Cell → Option Cell
  | 0, _ => none
  | fuel + 1, cell =>
    match cell.get m head with
    | none => none
    | some none => some cell
    | some (some p) =>
      match m p with
      | none => none
      | some node => if skip node.data then advance m head skip fuel (.link p) else some cell

theorem get_behind (h : m.Segment head (before ++ after) none) :
    (Cell.behind before).get m head = some (addresses after).head? := by
  rcases segment_append.mp h with ⟨middle, hbefore, hafter⟩
  rw [← hafter.head_eq]
  rcases List.eq_nil_or_concat before with rfl | ⟨init, x, rfl⟩
  · rw [show head = middle from hbefore]
    rfl
  · rw [List.concat_eq_append] at hbefore ⊢
    rcases segment_append.mp hbefore with ⟨-, -, -, next, hnode, hnext⟩
    rw [behind_concat, get, hnode, show next = middle from hnext]
    rfl

/-- A write at the place after `before` links it to another node. -/
theorem set_behind (h : m.Segment head (before ++ after) none)
    (hnodup : (addresses before).Nodup) (value : Option ℕ) :
    ∃ m' head', (Cell.behind before).set m head value = some (m', head') ∧
      m'.Segment head' before value ∧ ∀ q ∉ addresses before, m' q = m q := by
  rcases segment_append.mp h with ⟨middle, hbefore, -⟩
  rcases List.eq_nil_or_concat before with rfl | ⟨init, x, rfl⟩
  · exact ⟨m, value, rfl, rfl, fun q _ => rfl⟩
  · rw [List.concat_eq_append] at hbefore hnodup ⊢
    rcases x with ⟨p, a⟩
    rcases segment_append.mp hbefore with ⟨-, -, -, next, hnode, -⟩
    have hp : p ∉ addresses init := by
      rw [addresses_append] at hnodup
      exact fun hmem => List.disjoint_of_nodup_append hnodup hmem (List.mem_singleton_self p)
    refine ⟨Function.update m p (some ⟨a, value⟩), head, ?_, hbefore.redirect hp value, ?_⟩
    · rw [behind_concat, set, setNext, hnode]
      rfl
    · intro q hq
      apply Function.update_of_ne
      rintro rfl
      exact hq (by simp)

theorem advance_eq (skip : α → Bool) {fuel : ℕ} (h : m.Segment head (before ++ after) none)
    (hfuel : after.length < fuel) :
    advance m head skip fuel (Cell.behind before) =
      some (Cell.behind (before ++ after.takeWhile (fun x => skip x.2))) := by
  induction after generalizing before fuel with
  | nil =>
    obtain ⟨fuel, rfl⟩ := Nat.exists_eq_succ_of_ne_zero (by omega : fuel ≠ 0)
    simp [advance, get_behind h]
  | cons x after ih =>
    obtain ⟨fuel, rfl⟩ := Nat.exists_eq_succ_of_ne_zero (by omega : fuel ≠ 0)
    rcases segment_append.mp h with ⟨middle, -, -, next, hnode, -⟩
    have hget := get_behind h
    rw [addresses_cons, List.head?_cons] at hget
    cases hskip : skip x.2 with
    | false => simp [advance, hget, hnode, hskip]
    | true =>
      have hmoved : m.Segment head ((before ++ [x]) ++ after) none := by simpa using h
      have hrest := ih hmoved (by simpa using hfuel : after.length < fuel)
      rw [behind_concat] at hrest
      simp [advance, hget, hnode, hskip, hrest]

end Cell

/-- Link node `p` in at a place. -/
def insertAt (m : Memory α) (head : Option ℕ) (cell : Cell) (p : ℕ) :
    Option (Memory α × Option ℕ) :=
  match cell.get m head with
  | none => none
  | some after =>
    match m.setNext p after with
    | none => none
    | some m => cell.set m head (some p)

theorem insertAt_eq (h : m.Segment head (before ++ after) none)
    (hnodup : (addresses (before ++ after)).Nodup) {link : Option ℕ} (hnode : m p = some ⟨a, link⟩)
    (hp : p ∉ addresses (before ++ after)) :
    ∃ m' head', m.insertAt head (Cell.behind before) p = some (m', head') ∧
      m'.Segment head' (before ++ (p, a) :: after) none ∧
        ∀ q, q ≠ p → q ∉ addresses before → m' q = m q := by
  rw [addresses_append] at hnodup hp
  rcases List.nodup_append.mp hnodup with ⟨hbefore, -, hcross⟩
  rw [List.mem_append, not_or] at hp
  have hlinked : Segment (Function.update m p (some ⟨a, (addresses after).head?⟩)) head
      (before ++ after) none := by
    apply h.update
    rw [addresses_append, List.mem_append, not_or]
    exact hp
  rcases Cell.set_behind hlinked hbefore (some p) with ⟨m', head', hset, hsegment, hframe⟩
  refine ⟨m', head', ?_, ?_, ?_⟩
  · rw [insertAt, Cell.get_behind h]
    simp only [setNext, hnode]
    exact hset
  · rcases segment_append.mp hlinked with ⟨middle, -, hafter⟩
    refine segment_append.mpr ⟨some p, hsegment, rfl, (addresses after).head?, ?_, ?_⟩
    · rw [hframe p hp.1]
      exact Function.update_self ..
    · rw [← hafter.head_eq]
      apply hafter.congr
      exact fun q hq => hframe q fun hmem => hcross q hmem q hq rfl
  · intro q hq hmem
    rw [hframe q hmem]
    exact Function.update_of_ne hq ..

/-- Link node `p` in behind the tail of a list, or make it the only node. -/
def append (m : Memory α) (head tail : Option ℕ) (p : ℕ) :
    Option (Memory α × Option ℕ × Option ℕ) :=
  match head, tail with
  | none, _ => some (m, some p, some p)
  | some _, none => none
  | some _, some last => (m.setNext last (some p)).map (·, head, some p)

/-- A list with a pointer to its last node. The tail pointer of an empty list is arbitrary. -/
structure Queue (m : Memory α) (head tail : Option ℕ) (nodes : List (ℕ × α)) : Prop where
  segment : m.Segment head nodes none
  last : ∀ x, nodes.getLast? = some x → tail = some x.1

namespace Queue

variable {tail : Option ℕ}

theorem nil : m.Queue none tail [] := ⟨rfl, by simp⟩

theorem congr (h : m.Queue head tail nodes) (heq : ∀ p ∈ addresses nodes, m' p = m p) :
    m'.Queue head tail nodes :=
  ⟨h.segment.congr heq, h.last⟩

theorem update (h : m.Queue head tail nodes) (hp : p ∉ addresses nodes) (x : Option (Node α)) :
    Queue (Function.update m p x) head tail nodes :=
  ⟨h.segment.update hp x, h.last⟩

/-- What is left after nodes have been taken off the head keeps its tail. -/
theorem suffix (h : m.Queue head tail (before ++ nodes)) {head' : Option ℕ}
    (hnodes : m'.Segment head' nodes none) : m'.Queue head' tail nodes := by
  refine ⟨hnodes, ?_⟩
  intro x hx
  apply h.last x
  rw [List.getLast?_append, hx]
  rfl

theorem append (h : m.Queue head tail nodes) (hnodup : (addresses nodes).Nodup)
    (hnode : m p = some ⟨a, none⟩) (hp : p ∉ addresses nodes) :
    ∃ m' head', m.append head tail p = some (m', head', some p) ∧
      m'.Queue head' (some p) (nodes ++ [(p, a)]) ∧ ∀ q ∉ addresses nodes, m' q = m q := by
  rcases List.eq_nil_or_concat nodes with rfl | ⟨init, ⟨last, b⟩, rfl⟩
  · obtain rfl : head = none := h.segment
    exact ⟨m, some p, rfl, ⟨⟨rfl, none, hnode, rfl⟩, by simp⟩, fun q _ => rfl⟩
  · rw [List.concat_eq_append] at h hnodup hp ⊢
    have htail := h.last (last, b) (by simp)
    rcases segment_append.mp h.segment with ⟨middle, -, -, next, hlast, -⟩
    have hne : last ∉ addresses init := by
      rw [addresses_append] at hnodup
      exact fun hmem => List.disjoint_of_nodup_append hnodup hmem (List.mem_singleton_self last)
    have hhead : head.isSome := by
      rw [h.segment.head_eq]
      cases init <;> rfl
    obtain ⟨first, rfl⟩ := Option.isSome_iff_exists.mp hhead
    refine ⟨Function.update m last (some ⟨b, some p⟩), some first, ?_, ⟨?_, by simp⟩, ?_⟩
    · simp [Memory.append, htail, setNext, hlast]
    · apply segment_append.mpr
      refine ⟨some p, h.segment.redirect hne (some p), rfl, none, ?_, rfl⟩
      rw [Function.update_of_ne, hnode]
      rintro rfl
      exact hp (by simp)
    · intro q hq
      apply Function.update_of_ne
      rintro rfl
      exact hq (by simp)

end Queue

end Memory

/-- Move an insertion point past the smaller elements and insert there. The point is then after the
new element. -/
def insertInto (lt : α → α → Bool) (point : List α × List α) (x : α) : List α × List α :=
  (point.1 ++ point.2.takeWhile (lt · x) ++ [x], point.2.dropWhile (lt · x))

section insertInto

@[simp] theorem Memory.Cell.behind_insertInto (lt : ℕ × α → ℕ × α → Bool)
    (point : List (ℕ × α) × List (ℕ × α)) (x : ℕ × α) :
    Cell.behind (insertInto lt point x).1 = .link x.1 :=
  Cell.behind_concat ..

variable {β : Type*} (lt : α → α → Bool) (point : List α × List α)

theorem insertInto_perm (x : α) :
    ((insertInto lt point x).1 ++ (insertInto lt point x).2).Perm (x :: (point.1 ++ point.2)) := by
  have hmiddle : (insertInto lt point x).1 ++ (insertInto lt point x).2 =
      point.1 ++ point.2.takeWhile (lt · x) ++ x :: point.2.dropWhile (lt · x) := by
    simp [insertInto]
  rw [hmiddle]
  apply List.perm_middle.trans
  rw [List.append_assoc, List.takeWhile_append_dropWhile]

theorem foldl_insertInto_perm (xs : List α) :
    ((xs.foldl (insertInto lt) point).1 ++ (xs.foldl (insertInto lt) point).2).Perm
      (xs ++ (point.1 ++ point.2)) := by
  induction xs generalizing point with
  | nil => rfl
  | cons x xs ih =>
    apply (ih (insertInto lt point x)).trans
    apply ((insertInto_perm lt point x).append_left xs).trans
    exact List.perm_middle

/-- Insertion looks at the keys only. -/
theorem map_foldl_insertInto (f : β → α) (point : List β × List β) (xs : List β) :
    ((xs.foldl (insertInto fun x y => lt (f x) (f y)) point).map (List.map f) (List.map f)) =
      (xs.map f).foldl (insertInto lt) (point.map (List.map f) (List.map f)) := by
  induction xs generalizing point with
  | nil => rfl
  | cons x xs ih =>
    rw [List.foldl_cons, ih, List.map_cons, List.foldl_cons]
    congr 1
    simp [insertInto, Prod.map, List.takeWhile_map, List.dropWhile_map, Function.comp_def]

end insertInto

end TNL.Library
