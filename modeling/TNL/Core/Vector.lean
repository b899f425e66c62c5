import TNL.Connection.Header
import TNL.Library.EraseFast
import TNL.Library.ObjectMemory

/-!
# Vectors

A vector has an array of a size that is a multiple of a block, and its first elements
are constructed. When it grows, the elements are copied to a new array and the old one
is freed. An argument is a value or a pointer to an element of any vector, and it is
read when the vector copies it.
-/
namespace TNL
open Library

def VectorBlockSize : U32 := 16

structure TVector where
  mElementCount : U32
  mArraySize : U32
  mArray : Option ℕ
  deriving DecidableEq

/-- An argument of type `const T&`. -/
inductive VectorArgument (α : Type) where
  | value (x : α)
  | element (array index : ℕ)

namespace TVector

variable {α : Type}

/-- The vector that the constructor begins with. -/
def empty : TVector := ⟨0, 0, none⟩

section loops

variable (m : ObjectMemory α) (mArray : Option ℕ) (start stop : ℕ)

def destroy : Option (ObjectMemory α) :=
  (List.range' start (stop - start)).foldlM
    (fun m i => mArray.bind fun a => m.destruct a i) m

/-- What the default constructor leaves in a slot need not be determined. -/
def constructDefault (made : ℕ → α) : Option (ObjectMemory α) :=
  (List.range' start (stop - start)).foldlM
    (fun m i => mArray.bind fun a => m.construct a i (made i)) m

def constructCopies (array : Option ℕ) : Option (ObjectMemory α) :=
  (List.range' start (stop - start)).foldlM
    (fun m i => mArray.bind fun a => array.bind fun b =>
      (m.read b i).bind fun x => m.construct a i x) m

end loops

/-- Assign one element to another one of the same array. -/
def copyElement (m : ObjectMemory α) (mArray : Option ℕ) (target source : ℕ) :
    Option (ObjectMemory α) :=
  mArray.bind fun a => (m.read a source).bind fun x => m.assign a target x

def load (m : ObjectMemory α) : VectorArgument α → Option α
  | .value x => some x
  | .element array index => m.read array index

def checkSize (m : ObjectMemory α) (v : TVector) (newCount : U32) :
    Option (ObjectMemory α × TVector) :=
  if newCount ≤ v.mArraySize then some (m, v)
  else
    let newCount := newCount + (VectorBlockSize - newCount % VectorBlockSize)
    let new := m.malloc newCount.toNat
    (constructCopies new.1 (some new.2) 0 v.mElementCount.toNat v.mArray).bind fun m =>
    (destroy m v.mArray 0 v.mElementCount.toNat).bind fun m =>
    (m.free v.mArray).map fun m => (m, ⟨v.mElementCount, newCount, some new.2⟩)

def setSize (m : ObjectMemory α) (v : TVector) (size : U32) (made : ℕ → α) :
    Option (ObjectMemory α × TVector) :=
  (checkSize m v size).bind fun (m, v) =>
    if size > v.mElementCount then
      (constructDefault m v.mArray v.mElementCount.toNat size.toNat made).map fun m =>
        (m, { v with mElementCount := size })
    else if size < v.mElementCount then
      (destroy m v.mArray size.toNat v.mElementCount.toNat).bind fun m =>
        if size = 0 then (m.free v.mArray).map fun m => (m, ⟨0, 0, none⟩)
        else some (m, { v with mElementCount := size })
    else some (m, v)

/-- The last element is constructed once before the others move, and the new one twice. -/
def insert (m : ObjectMemory α) (v : TVector) (index : ℕ) (made : ℕ → α) :
    Option (ObjectMemory α × TVector) :=
  (checkSize m v (v.mElementCount + 1)).bind fun (m, v) =>
  (v.mArray.bind fun a => m.construct a v.mElementCount.toNat (made v.mElementCount.toNat)).bind
    fun m =>
  let v := { v with mElementCount := v.mElementCount + 1 }
  ((List.range' 0 (v.mElementCount.toNat - 1 - index)).foldlM (fun m k =>
    copyElement m v.mArray (v.mElementCount.toNat - 1 - k) (v.mElementCount.toNat - 1 - k - 1))
    m).bind fun m =>
  (v.mArray.bind fun a => m.destruct a index).bind fun m =>
  (v.mArray.bind fun a => m.construct a index (made index)).map fun m => (m, v)

def erase (m : ObjectMemory α) (v : TVector) (index : ℕ) : Option (ObjectMemory α × TVector) :=
  ((List.range' index (v.mElementCount.toNat - 1 - index)).foldlM (fun m i =>
    copyElement m v.mArray i (i + 1)) m).bind fun m =>
  (v.mArray.bind fun a => m.destruct a (v.mElementCount.toNat - 1)).map fun m =>
    (m, { v with mElementCount := v.mElementCount - 1 })

def erase_fast (m : ObjectMemory α) (v : TVector) (index : ℕ) :
    Option (ObjectMemory α × TVector) :=
  (if index ≠ v.mElementCount.toNat - 1 then
    copyElement m v.mArray index (v.mElementCount.toNat - 1) else some m).bind fun m =>
  (v.mArray.bind fun a => m.destruct a (v.mElementCount.toNat - 1)).map fun m =>
    (m, { v with mElementCount := v.mElementCount - 1 })

def push_front (m : ObjectMemory α) (v : TVector) (x : VectorArgument α) (made : ℕ → α) :
    Option (ObjectMemory α × TVector) :=
  (insert m v 0 made).bind fun (m, v) =>
  (load m x).bind fun x =>
  (v.mArray.bind fun a => m.assign a 0 x).map fun m => (m, v)

def push_back (m : ObjectMemory α) (v : TVector) (x : VectorArgument α) :
    Option (ObjectMemory α × TVector) :=
  (checkSize m v (v.mElementCount + 1)).bind fun (m, v) =>
  let v := { v with mElementCount := v.mElementCount + 1 }
  (load m x).bind fun x =>
  (v.mArray.bind fun a => m.construct a (v.mElementCount.toNat - 1) x).map fun m => (m, v)

def pop_front (m : ObjectMemory α) (v : TVector) : Option (ObjectMemory α × TVector) :=
  erase m v 0

def pop_back (m : ObjectMemory α) (v : TVector) : Option (ObjectMemory α × TVector) :=
  let v := { v with mElementCount := v.mElementCount - 1 }
  (v.mArray.bind fun a => m.destruct a v.mElementCount.toNat).map fun m => (m, v)

/-- Nothing is constructed, so that the default constructor is not asked. -/
def clear (m : ObjectMemory α) (v : TVector) (made : ℕ → α) : Option (ObjectMemory α × TVector) :=
  setSize m v 0 made

def reserve (m : ObjectMemory α) (v : TVector) (size : U32) : Option (ObjectMemory α × TVector) :=
  checkSize m v size

def destruct (m : ObjectMemory α) (v : TVector) : Option (ObjectMemory α) :=
  (destroy m v.mArray 0 v.mElementCount.toNat).bind fun m => m.free v.mArray

/-! ### The list that a vector holds -/

structure Holds (m : ObjectMemory α) (v : TVector) (l : List α) : Prop where
  count : v.mElementCount.toNat = l.length
  fits : l.length ≤ v.mArraySize.toNat
  blocks : v.mArraySize.toNat % 16 = 0
  array : ∀ a, v.mArray = some a → m.arrays a = some (Cells.holding v.mArraySize.toNat l)
  null : v.mArray = none → v.mArraySize = 0
  given : ∀ a, v.mArray = some a → a < m.next

/-- What an operation on one vector does to the memory. -/
structure Effect (m : ObjectMemory α) (v : TVector) (m' : ObjectMemory α) (v' : TVector) :
    Prop where
  next_le : m.next ≤ m'.next
  others : ∀ b < m.next, v.mArray ≠ some b → m'.arrays b = m.arrays b
  array : ∀ a, v'.mArray = some a → v.mArray = some a ∨ m.next ≤ a

variable {m m' : ObjectMemory α} {v v' : TVector} {l : List α} {capacity a b i : ℕ}

/-! ### The loops -/

/-- The slots of the first elements are left as they are. -/
theorem destroy_put (m : ObjectMemory α) (a capacity start : ℕ) (l : List α) :
    destroy (m.put a (Cells.holding capacity l)) (some a) start l.length =
      some (m.put a (Cells.holding capacity (l.take start))) := by
  obtain ⟨f, hf⟩ : ∃ f : ℕ → ObjectMemory α, ∀ k, f k = m.put a ⟨capacity, fun j =>
      if start ≤ j ∧ j < start + k then none else l[j]?⟩ := ⟨_, fun _ => rfl⟩
  have hfirst : m.put a (Cells.holding capacity l) = f 0 := by
    rw [hf, Cells.holding]
    congr
    funext j
    rw [if_neg (by omega)]
  have hlast : m.put a (Cells.holding capacity (l.take start)) = f (l.length - start) := by
    rw [hf, Cells.holding]
    congr
    funext j
    rw [List.getElem?_take]
    split_ifs <;> first | rfl | omega | skip
    exact (List.getElem?_eq_none (by omega)).symm
  rw [destroy, hfirst, hlast]
  apply foldlM_range'_eq f
  intro k hk
  have hlt : start + k < l.length := by omega
  have hheld : (if start ≤ start + k ∧ start + k < start + k then none else l[start + k]?) =
      some l[start + k] := by
    rw [if_neg (by omega), List.getElem?_eq_getElem hlt]
  rw [hf, Option.bind_some, ObjectMemory.destruct_put hheld, hf]
  congr
  funext j
  by_cases hj : j = start + k
  · rw [hj, Function.update_self, if_pos (by omega)]
  · rw [Function.update_of_ne hj]
    dsimp only
    by_cases hjk : start ≤ j ∧ j < start + k
    · rw [if_pos hjk, if_pos (by omega)]
    · rw [if_neg hjk, if_neg (by omega)]

theorem constructDefault_put (m : ObjectMemory α) (a : ℕ) {capacity stop : ℕ} (l : List α)
    (hstop : stop ≤ capacity) (made : ℕ → α) :
    constructDefault (m.put a (Cells.holding capacity l)) (some a) l.length stop made =
      some (m.put a (Cells.holding capacity
        (l ++ (List.range' l.length (stop - l.length)).map made))) := by
  obtain ⟨f, hf⟩ : ∃ f : ℕ → ObjectMemory α, ∀ k, f k = m.put a (Cells.holding capacity
      (l ++ (List.range' l.length k).map made)) := ⟨_, fun _ => rfl⟩
  have hfirst : m.put a (Cells.holding capacity l) = f 0 := by
    rw [hf, List.range'_zero, List.map_nil, List.append_nil]
  rw [constructDefault, hfirst, ← hf]
  apply foldlM_range'_eq f
  intro k hk
  have hlength : (l ++ (List.range' l.length k).map made).length = l.length + k := by simp
  have hraw : (Cells.holding capacity (l ++ (List.range' l.length k).map made)).slots
      (l.length + k) = none := List.getElem?_eq_none (Nat.le_of_eq hlength)
  have hcapacity : l.length + k <
      (Cells.holding capacity (l ++ (List.range' l.length k).map made)).capacity := by
    change l.length + k < capacity
    omega
  have hupdate := Cells.holding_update_length capacity (l ++ (List.range' l.length k).map made)
    (made (l.length + k))
  rw [hlength] at hupdate
  rw [hf, Option.bind_some, ObjectMemory.construct_put hcapacity hraw, hf, List.range'_concat,
    List.map_append, ← List.append_assoc, Nat.one_mul]
  exact congrArg (fun cells => some (m.put a cells)) hupdate

theorem constructCopies_put (hb : m.arrays b = some (Cells.holding i l)) (hne : b ≠ a)
    (hcapacity : l.length ≤ capacity) :
    constructCopies (m.put a (Cells.holding capacity [])) (some a) 0 l.length (some b) =
      some (m.put a (Cells.holding capacity l)) := by
  obtain ⟨f, hf⟩ : ∃ f : ℕ → ObjectMemory α, ∀ k, f k = m.put a (Cells.holding capacity
      (l.take k)) := ⟨_, fun _ => rfl⟩
  have hfirst : m.put a (Cells.holding capacity []) = f 0 := by rw [hf, List.take_zero]
  have hlast : m.put a (Cells.holding capacity l) = f (l.length - 0) := by
    rw [hf, Nat.sub_zero, List.take_length]
  rw [constructCopies, hfirst, hlast]
  apply foldlM_range'_eq f
  intro k hk
  rw [Nat.sub_zero] at hk
  rw [Nat.zero_add]
  have hlength : (l.take k).length = k := by rw [List.length_take]; omega
  have hread : (f k).read b k = some l[k] := by
    rw [hf, ObjectMemory.read_put_of_ne hne, ObjectMemory.read, hb, Option.bind_some]
    exact List.getElem?_eq_getElem hk
  have hraw : (Cells.holding capacity (l.take k)).slots k = none :=
    List.getElem?_eq_none (Nat.le_of_eq hlength)
  have hupdate := Cells.holding_update_length capacity (l.take k) l[k]
  rw [hlength] at hupdate
  rw [Option.bind_some, Option.bind_some, hread, Option.bind_some, hf,
    ObjectMemory.construct_put (Nat.lt_of_lt_of_le hk hcapacity) hraw, hf, List.take_add_one,
    List.getElem?_eq_getElem hk]
  exact congrArg (fun cells => some (m.put a cells)) hupdate

/-! ### Growing -/

theorem malloc_eq (m : ObjectMemory α) (capacity : ℕ) :
    m.malloc capacity =
      ((⟨m.arrays, m.next + 1⟩ : ObjectMemory α).put m.next (Cells.holding capacity []), m.next) := by
  rw [ObjectMemory.malloc, ObjectMemory.put, Cells.holding]
  simp

/-- The size of a new array, if it is less than `2 ^ 32`. -/
theorem grown_toNat {newCount : U32} (h : newCount.toNat + 16 < 2 ^ 32) :
    newCount.toNat <
        (newCount + (VectorBlockSize - newCount % VectorBlockSize)).toNat ∧
      (newCount + (VectorBlockSize - newCount % VectorBlockSize)).toNat % 16 = 0 := by
  have hmod : newCount.toNat % 16 < 16 := Nat.mod_lt _ (by decide)
  have hsize : (16 : U32).toNat = 16 := rfl
  rw [VectorBlockSize, BitVec.toNat_add, BitVec.toNat_sub, BitVec.toNat_umod, hsize]
  omega

theorem Holds.null_iff (h : Holds m v l) (hnull : v.mArray = none) : l = [] := by
  have hfits := h.fits
  rw [h.null hnull] at hfits
  exact List.length_eq_zero_iff.mp (Nat.le_zero.mp hfits)

theorem Effect.refl (m : ObjectMemory α) (v : TVector) : Effect m v m v :=
  ⟨Nat.le_refl _, fun _ _ _ => rfl, fun _ h => .inl h⟩

theorem Holds.checkSize {newCount : U32} (h : Holds m v l)
    (hfits : newCount ≤ v.mArraySize ∨ newCount.toNat + 16 < 2 ^ 32) :
    Succeeds (checkSize m v newCount) fun r => Holds r.1 r.2 l ∧ Effect m v r.1 r.2 ∧
      newCount ≤ r.2.mArraySize ∧ (newCount ≤ v.mArraySize → r = (m, v)) := by
  rw [TVector.checkSize]
  by_cases hle : newCount ≤ v.mArraySize
  · rw [if_pos hle]
    exact ⟨_, rfl, h, Effect.refl m v, hle, fun _ => rfl⟩
  have hsmall := hfits.resolve_left hle
  obtain ⟨hsize, hblocks⟩ := grown_toNat hsmall
  rw [if_neg hle]
  generalize newCount + (VectorBlockSize - newCount % VectorBlockSize) = size at hsize hblocks ⊢
  have hlength : l.length ≤ size.toNat := by
    have hold := h.fits
    have hlt := BitVec.lt_def.mp (BitVec.not_le.mp hle)
    omega
  dsimp only
  rw [malloc_eq, h.count]
  cases harray : v.mArray with
  | none =>
    obtain rfl := h.null_iff harray
    refine ⟨_, rfl, ?_, ?_, ?_, fun habs => absurd habs hle⟩
    · refine ⟨h.count, hlength, hblocks, ?_, nofun, ?_⟩
      · intro a ha
        obtain rfl := Option.some.inj ha
        exact ObjectMemory.arrays_put_self ..
      · intro a ha
        obtain rfl := Option.some.inj ha
        exact Nat.lt_succ_self _
    · refine ⟨Nat.le_succ _, ?_, ?_⟩
      · intro b hb _
        exact ObjectMemory.arrays_put_of_ne (Nat.ne_of_lt hb) _
      · intro a ha
        obtain rfl := Option.some.inj ha
        exact .inr (Nat.le_refl _)
    · exact BitVec.le_def.mpr (Nat.le_of_lt hsize)
  | some b =>
    have hb := h.array b harray
    have hne : b ≠ m.next := Nat.ne_of_lt (h.given b harray)
    have hcopies := constructCopies_put (m := ⟨m.arrays, m.next + 1⟩) hb hne hlength
    have hcopied := ObjectMemory.put_eq_self
      ((ObjectMemory.arrays_put_of_ne (m := ⟨m.arrays, m.next + 1⟩) hne
        (Cells.holding size.toNat l)).trans hb)
    rw [hcopies, Option.bind_some, ← hcopied, destroy_put, Option.bind_some, List.take_zero,
      ObjectMemory.free_put (fun _ => rfl), Option.map_some]
    refine ⟨_, rfl, ?_, ?_, ?_, fun habs => absurd habs hle⟩
    · refine ⟨h.count, hlength, hblocks, ?_, nofun, ?_⟩
      · intro a ha
        obtain rfl := Option.some.inj ha
        exact (Function.update_of_ne hne.symm ..).trans (ObjectMemory.arrays_put_self ..)
      · intro a ha
        obtain rfl := Option.some.inj ha
        exact Nat.lt_succ_self _
    · refine ⟨Nat.le_succ _, ?_, ?_⟩
      · intro c hc hother
        have hcb : c ≠ b := by
          rintro rfl
          exact hother harray
        exact (Function.update_of_ne hcb ..).trans
          (ObjectMemory.arrays_put_of_ne (Nat.ne_of_lt hc) _)
      · intro a ha
        obtain rfl := Option.some.inj ha
        exact .inr (Nat.le_refl _)
    · exact BitVec.le_def.mpr (Nat.le_of_lt hsize)

/-! ### The operations -/

theorem Effect.trans {m'' : ObjectMemory α} {v'' : TVector} (h : Effect m v m' v')
    (k : Effect m' v' m'' v'') : Effect m v m'' v'' where
  next_le := h.next_le.trans k.next_le
  others := by
    intro b hb hother
    have hother' : v'.mArray ≠ some b := by
      intro harray
      rcases h.array b harray with hsame | hnew
      · exact hother hsame
      · exact absurd hb (Nat.not_lt.mpr hnew)
    rw [k.others b (Nat.lt_of_lt_of_le hb h.next_le) hother', h.others b hb hother]
  array := by
    intro a ha
    rcases k.array a ha with hsame | hnew
    · exact h.array a hsame
    · exact .inr (h.next_le.trans hnew)

/-- The array gets other contents. -/
theorem Holds.replace {l' : List α} (h : Holds m v l) (ha : v.mArray = some a) {count : U32}
    (hcount : count.toNat = l'.length) (hfits : l'.length ≤ v.mArraySize.toNat) :
    Holds (m.put a (Cells.holding v.mArraySize.toNat l')) { v with mElementCount := count } l' ∧
      Effect m v (m.put a (Cells.holding v.mArraySize.toNat l'))
        { v with mElementCount := count } := by
  constructor
  · refine ⟨hcount, hfits, h.blocks, ?_, h.null, h.given⟩
    intro b hb
    obtain rfl := Option.some.inj (ha.symm.trans hb)
    exact ObjectMemory.arrays_put_self ..
  · refine ⟨Nat.le_refl _, ?_, fun b hb => .inl hb⟩
    intro b _ hother
    have hne : b ≠ a := by
      rintro rfl
      exact hother ha
    exact ObjectMemory.arrays_put_of_ne hne _

/-- A vector with room has an array. -/
theorem Holds.exists_array (h : Holds m v l) (hroom : 0 < v.mArraySize.toNat) :
    ∃ a, v.mArray = some a ∧ m = m.put a (Cells.holding v.mArraySize.toNat l) := by
  cases ha : v.mArray with
  | none =>
    rw [h.null ha] at hroom
    exact absurd hroom (Nat.lt_irrefl 0)
  | some a => exact ⟨a, rfl, (ObjectMemory.put_eq_self (h.array a ha)).symm⟩

theorem Holds.exists_array_of_mem (h : Holds m v l) (hi : i < l.length) :
    ∃ a, v.mArray = some a ∧ m = m.put a (Cells.holding v.mArraySize.toNat l) :=
  h.exists_array (Nat.lt_of_lt_of_le (Nat.zero_lt_of_lt hi) h.fits)

/-- The argument is this value. If it is an element of the vector itself, it stays where it is. -/
def Loads (stays : Prop) (m : ObjectMemory α) (v : TVector) (argument : VectorArgument α) (x : α) :
    Prop :=
  match argument with
  | .value y => y = x
  | .element b i => b < m.next ∧ m.read b i = some x ∧ (v.mArray = some b → stays)

theorem load_eq {stays : Prop} {argument : VectorArgument α} {x : α}
    (h : Loads stays m v argument x) (heffect : Effect m v m' v')
    (hstays : stays → (m', v') = (m, v)) : load m' argument = some x := by
  cases argument with
  | value y => exact congrArg some h
  | element b i =>
    obtain ⟨hb, hread, hown⟩ := h
    by_cases harray : v.mArray = some b
    · obtain ⟨rfl, -⟩ := Prod.mk.inj (hstays (hown harray))
      exact hread
    · rw [load, ObjectMemory.read, heffect.others b hb harray]
      exact hread

theorem destruct_last (m : ObjectMemory α) (a capacity : ℕ) (hl : l ≠ []) :
    (m.put a (Cells.holding capacity l)).destruct a (l.length - 1) =
      some (m.put a (Cells.holding capacity l.dropLast)) := by
  obtain ⟨front, x, rfl⟩ : ∃ front x, l = front ++ [x] :=
    ⟨_, _, (List.dropLast_append_getLast hl).symm⟩
  have hheld : (Cells.holding capacity (front ++ [x])).slots front.length = some x :=
    List.getElem?_concat_length
  rw [List.length_append, List.length_singleton, Nat.add_sub_cancel, List.dropLast_concat,
    ObjectMemory.destruct_put hheld, ← Cells.holding_update_last capacity front x]
  rfl

theorem add_one_toNat {count : U32} (h : count.toNat + 1 < 2 ^ 32) :
    (count + 1).toNat = count.toNat + 1 := by
  have hone : (1 : U32).toNat = 1 := rfl
  rw [BitVec.toNat_add, hone]
  exact Nat.mod_eq_of_lt h

theorem sub_one_toNat {count : U32} (h : 0 < count.toNat) :
    (count - 1).toNat = count.toNat - 1 := by
  bv_omega

/-- There is room for one element more, or the vector grows to a size of less than `2 ^ 32`. -/
def Fits (v : TVector) (newCount : U32) : Prop :=
  newCount ≤ v.mArraySize ∨ newCount.toNat + 16 < 2 ^ 32

theorem Holds.count_add_one (h : Holds m v l) :
    (v.mElementCount + 1).toNat = l.length + 1 := by
  have hblocks := h.blocks
  have hfits := h.fits
  have hlt := v.mArraySize.isLt
  rw [add_one_toNat (by rw [h.count]; omega), h.count]

/-- Room is made for one element. -/
theorem Holds.checkSize_add_one (h : Holds m v l) (hfits : Fits v (v.mElementCount + 1)) :
    Succeeds (TVector.checkSize m v (v.mElementCount + 1)) fun r => Holds r.1 r.2 l ∧
      Effect m v r.1 r.2 ∧ l.length < r.2.mArraySize.toNat ∧
      r.2.mElementCount = v.mElementCount ∧
      (v.mElementCount + 1 ≤ v.mArraySize → r = (m, v)) := by
  apply (h.checkSize hfits).mono
  rintro ⟨m', v'⟩ ⟨hholds, heffect, hroom, hsame⟩
  refine ⟨hholds, heffect, ?_, ?_, hsame⟩
  · rw [BitVec.le_def, h.count_add_one] at hroom
    exact hroom
  · apply BitVec.eq_of_toNat_eq
    rw [hholds.count, h.count]

theorem Holds.push_back {argument : VectorArgument α} {x : α} (h : Holds m v l)
    (hfits : Fits v (v.mElementCount + 1))
    (hload : Loads (v.mElementCount + 1 ≤ v.mArraySize) m v argument x) :
    Succeeds (TVector.push_back m v argument) fun r =>
      Holds r.1 r.2 (l ++ [x]) ∧ Effect m v r.1 r.2 := by
  apply (h.checkSize_add_one hfits).bind
  rintro ⟨m', v'⟩ ⟨hholds, heffect, hroom, hsameCount, hsame⟩
  dsimp only at hholds heffect hroom hsameCount ⊢
  obtain ⟨a, ha, hm⟩ := hholds.exists_array (Nat.zero_lt_of_lt hroom)
  have hnew : (v'.mElementCount + 1).toNat = l.length + 1 := by
    rw [hsameCount, h.count_add_one]
  have hraw : (Cells.holding v'.mArraySize.toNat l).slots l.length = none :=
    List.getElem?_eq_none (Nat.le_refl _)
  have hlength : (l ++ [x]).length = l.length + 1 := List.length_append
  obtain ⟨hpushed, hreplaced⟩ := hholds.replace ha (hnew.trans hlength.symm) (hlength ▸ hroom)
  rw [load_eq hload heffect hsame, Option.bind_some, ha, Option.bind_some, hnew,
    Nat.add_sub_cancel, hm, ObjectMemory.construct_put hroom hraw, Option.map_some]
  rw [← Cells.holding_update_length] at hpushed hreplaced
  exact ⟨_, rfl, ha ▸ hpushed, heffect.trans (ha ▸ hreplaced)⟩

theorem Holds.pop_back (h : Holds m v l) (hl : l ≠ []) :
    Succeeds (TVector.pop_back m v) fun r => Holds r.1 r.2 l.dropLast ∧ Effect m v r.1 r.2 := by
  have hpos : 0 < l.length := List.length_pos_iff.mpr hl
  obtain ⟨a, ha, hm⟩ := h.exists_array_of_mem hpos
  have hcount : (v.mElementCount - 1).toNat = l.length - 1 := by
    rw [sub_one_toNat (by rw [h.count]; exact hpos), h.count]
  obtain ⟨hpopped, hreplaced⟩ := h.replace ha (hcount.trans (List.length_dropLast ..).symm)
    (by rw [List.length_dropLast]; exact (Nat.sub_le _ _).trans h.fits)
  have hresult : TVector.pop_back m v =
      some (m.put a (Cells.holding v.mArraySize.toNat l.dropLast),
        { v with mElementCount := v.mElementCount - 1 }) := by
    rw [TVector.pop_back]
    dsimp only
    rw [ha, Option.bind_some, hcount, hm, destruct_last _ _ _ hl, Option.map_some,
      ObjectMemory.put_put]
  exact ⟨_, hresult, hpopped, hreplaced⟩

/-- The elements behind a place move back by one. -/
theorem moveBack_put (m : ObjectMemory α) (a capacity index : ℕ) (l : List α) :
    (List.range' index (l.length - 1 - index)).foldlM
        (fun m i => copyElement m (some a) i (i + 1)) (m.put a (Cells.holding capacity l)) =
      some (m.put a ⟨capacity, fun j =>
        if index ≤ j ∧ j < l.length - 1 then l[j + 1]? else l[j]?⟩) := by
  obtain ⟨f, hf⟩ : ∃ f : ℕ → ObjectMemory α, ∀ k, f k = m.put a ⟨capacity, fun j =>
      if index ≤ j ∧ j < index + k then l[j + 1]? else l[j]?⟩ := ⟨_, fun _ => rfl⟩
  have hfirst : m.put a (Cells.holding capacity l) = f 0 := by
    rw [hf, Cells.holding]
    congr
    funext j
    rw [if_neg (by omega)]
  have hlast : m.put a ⟨capacity, fun j =>
      if index ≤ j ∧ j < l.length - 1 then l[j + 1]? else l[j]?⟩ =
      f (l.length - 1 - index) := by
    rw [hf]
    congr
    funext j
    by_cases hj : index ≤ j ∧ j < l.length - 1
    · rw [if_pos hj, if_pos (by omega)]
    · rw [if_neg hj, if_neg (by omega)]
  rw [hfirst, hlast]
  apply foldlM_range'_eq f
  intro k hk
  have hlt : index + k < l.length := by omega
  have hlt' : index + k + 1 < l.length := by omega
  have hread : (if index ≤ index + k + 1 ∧ index + k + 1 < index + k then l[index + k + 1 + 1]?
      else l[index + k + 1]?) = some l[index + k + 1] := by
    rw [if_neg (by omega), List.getElem?_eq_getElem hlt']
  have hheld : (if index ≤ index + k ∧ index + k < index + k then l[index + k + 1]?
      else l[index + k]?) = some l[index + k] := by
    rw [if_neg (by omega), List.getElem?_eq_getElem hlt]
  rw [hf, copyElement, Option.bind_some, ObjectMemory.read_put]
  dsimp only
  rw [hread, Option.bind_some, ObjectMemory.assign_put hheld, hf]
  congr
  funext j
  dsimp only
  by_cases hj : j = index + k
  · rw [hj, Function.update_self, if_pos (by omega), List.getElem?_eq_getElem hlt']
  · rw [Function.update_of_ne hj]
    by_cases hjk : index ≤ j ∧ j < index + k
    · rw [if_pos hjk, if_pos (by omega)]
    · rw [if_neg hjk, if_neg (by omega)]

theorem Holds.erase {index : ℕ} (h : Holds m v l) (hindex : index < l.length) :
    Succeeds (TVector.erase m v index) fun r =>
      Holds r.1 r.2 (l.eraseIdx index) ∧ Effect m v r.1 r.2 := by
  obtain ⟨a, ha, hm⟩ := h.exists_array_of_mem hindex
  have hpos : 0 < l.length := Nat.zero_lt_of_lt hindex
  have hcount : (v.mElementCount - 1).toNat = l.length - 1 := by
    rw [sub_one_toNat (by rw [h.count]; exact hpos), h.count]
  have hlength : (l.eraseIdx index).length = l.length - 1 := List.length_eraseIdx_of_lt hindex
  obtain ⟨herased, hreplaced⟩ := h.replace ha (hcount.trans hlength.symm)
    (by rw [hlength]; exact (Nat.sub_le _ _).trans h.fits)
  have hlast : (if index ≤ l.length - 1 ∧ l.length - 1 < l.length - 1 then l[l.length - 1 + 1]?
      else l[l.length - 1]?) = some l[l.length - 1] := by
    rw [if_neg (by omega), List.getElem?_eq_getElem]
  have hslots : (⟨v.mArraySize.toNat, Function.update (fun j =>
      if index ≤ j ∧ j < l.length - 1 then l[j + 1]? else l[j]?) (l.length - 1) none⟩ : Cells α) =
      Cells.holding v.mArraySize.toNat (l.eraseIdx index) := by
    rw [Cells.holding]
    congr
    funext j
    rw [List.getElem?_eraseIdx]
    by_cases hj : j = l.length - 1
    · rw [hj, Function.update_self]
      split_ifs
      · rw [List.getElem?_eq_none (by omega)]
      · rw [List.getElem?_eq_none (by omega)]
    · rw [Function.update_of_ne hj]
      by_cases hji : j < index
      · rw [if_neg (by omega), if_pos hji]
      · rw [if_neg hji]
        by_cases hjl : j < l.length - 1
        · rw [if_pos (by omega)]
        · rw [if_neg (by omega), List.getElem?_eq_none (by omega),
            List.getElem?_eq_none (by omega)]
  have hresult : TVector.erase m v index =
      some (m.put a (Cells.holding v.mArraySize.toNat (l.eraseIdx index)),
        { v with mElementCount := v.mElementCount - 1 }) := by
    rw [TVector.erase, ha, h.count, hm, moveBack_put, Option.bind_some, Option.bind_some,
      ObjectMemory.destruct_put hlast, hslots, Option.map_some, ObjectMemory.put_put]
  exact ⟨_, hresult, herased, hreplaced⟩

theorem Holds.erase_fast {index : ℕ} (h : Holds m v l) (hindex : index < l.length) :
    Succeeds (TVector.erase_fast m v index) fun r =>
      Holds r.1 r.2 (eraseFast l index) ∧ Effect m v r.1 r.2 := by
  obtain ⟨a, ha, hm⟩ := h.exists_array_of_mem hindex
  obtain ⟨front, last, rfl⟩ : ∃ front last, l = front ++ [last] :=
    ⟨_, _, (List.dropLast_append_getLast (List.ne_nil_of_length_pos
      (Nat.zero_lt_of_lt hindex))).symm⟩
  have hlength : (front ++ [last]).length = front.length + 1 := List.length_append
  have hcount : (v.mElementCount - 1).toNat = front.length := by
    rw [sub_one_toNat (by rw [h.count, hlength]; exact Nat.succ_pos _), h.count, hlength]
    rfl
  have herase : eraseFast (front ++ [last]) index =
      ((front ++ [last]).set index last).dropLast := by
    rw [eraseFast, List.getLast?_concat]
  have hlength' : (eraseFast (front ++ [last]) index).length = front.length := by
    rw [herase, List.length_dropLast, List.length_set, hlength]
    rfl
  obtain ⟨herased, hreplaced⟩ := h.replace ha (hcount.trans hlength'.symm)
    (by rw [hlength']; have hfits := h.fits; omega)
  have hmoved : (if index ≠ v.mElementCount.toNat - 1 then
      copyElement m v.mArray index (v.mElementCount.toNat - 1) else some m) =
      some (m.put a (Cells.holding v.mArraySize.toNat ((front ++ [last]).set index last))) := by
    rw [h.count, hlength, Nat.add_sub_cancel]
    have hheld : (Cells.holding v.mArraySize.toNat (front ++ [last])).slots index =
        some (front ++ [last])[index] := List.getElem?_eq_getElem hindex
    have hread : (Cells.holding v.mArraySize.toNat (front ++ [last])).slots front.length =
        some last := List.getElem?_concat_length
    by_cases hne : index = front.length
    · rw [if_neg (not_not.mpr hne), hne]
      simpa using congrArg some hm
    · rw [if_pos hne, copyElement, ha, Option.bind_some, hm, ObjectMemory.read_put, hread,
        Option.bind_some, ObjectMemory.assign_put hheld, ObjectMemory.put_put,
        ← Cells.holding_set hindex]
      rfl
  have hset : (front ++ [last]).set index last ≠ [] := by
    rw [Ne, List.set_eq_nil_iff]
    exact List.append_ne_nil_of_right_ne_nil _ (List.cons_ne_nil _ _)
  have hdestruct := destruct_last m a v.mArraySize.toNat hset
  rw [List.length_set, hlength, Nat.add_sub_cancel, ← herase] at hdestruct
  have hresult : TVector.erase_fast m v index =
      some (m.put a (Cells.holding v.mArraySize.toNat (eraseFast (front ++ [last]) index)),
        { v with mElementCount := v.mElementCount - 1 }) := by
    rw [TVector.erase_fast, hmoved, Option.bind_some, ha, Option.bind_some, h.count, hlength,
      Nat.add_sub_cancel, hdestruct, Option.map_some]
  exact ⟨_, hresult, herased, hreplaced⟩

/-- The elements behind a place move on by one, from the last one on. -/
theorem moveOn_put (m : ObjectMemory α) (a capacity : ℕ) {index : ℕ} (l : List α) (d : α)
    (hindex : index ≤ l.length) :
    (List.range' 0 (l.length - index)).foldlM
        (fun m k => copyElement m (some a) (l.length - k) (l.length - k - 1))
        (m.put a (Cells.holding capacity (l ++ [d]))) =
      some (m.put a ⟨capacity, fun j => if j ≤ index then (l ++ [d])[j]? else l[j - 1]?⟩) := by
  obtain ⟨f, hf⟩ : ∃ f : ℕ → ObjectMemory α, ∀ k, f k = m.put a ⟨capacity, fun j =>
      if j ≤ l.length - k then (l ++ [d])[j]? else l[j - 1]?⟩ := ⟨_, fun _ => rfl⟩
  have hfirst : m.put a (Cells.holding capacity (l ++ [d])) = f 0 := by
    rw [hf, Cells.holding]
    congr
    funext j
    by_cases hj : j ≤ l.length - 0
    · rw [if_pos hj]
    · rw [if_neg hj, List.getElem?_eq_none, List.getElem?_eq_none (by omega)]
      rw [List.length_append, List.length_singleton]
      omega
  have hlast : m.put a ⟨capacity, fun j => if j ≤ index then (l ++ [d])[j]? else l[j - 1]?⟩ =
      f (l.length - index) := by
    rw [hf, Nat.sub_sub_self hindex]
  rw [hfirst, hlast]
  apply foldlM_range'_eq f
  intro k hk
  rw [Nat.zero_add]
  have hlt : l.length - k - 1 < l.length := by omega
  have hread : (if l.length - k - 1 ≤ l.length - k then (l ++ [d])[l.length - k - 1]?
      else l[l.length - k - 1 - 1]?) = some l[l.length - k - 1] := by
    rw [if_pos (Nat.sub_le _ _), List.getElem?_append_left hlt, List.getElem?_eq_getElem]
  have hin : l.length - k < (l ++ [d]).length := by
    rw [List.length_append, List.length_singleton]
    omega
  have hheld : (if l.length - k ≤ l.length - k then (l ++ [d])[l.length - k]?
      else l[l.length - k - 1]?) = some (l ++ [d])[l.length - k] := by
    rw [if_pos (Nat.le_refl _), List.getElem?_eq_getElem hin]
  rw [hf, copyElement, Option.bind_some, ObjectMemory.read_put]
  dsimp only
  rw [hread, Option.bind_some, ObjectMemory.assign_put hheld, hf]
  congr
  funext j
  dsimp only
  by_cases hj : j = l.length - k
  · rw [hj, Function.update_self, if_neg (by omega), List.getElem?_eq_getElem]
  · rw [Function.update_of_ne hj]
    by_cases hjk : j ≤ l.length - k
    · rw [if_pos hjk, if_pos (by omega)]
    · rw [if_neg hjk, if_neg (by omega)]

theorem Holds.insert {index : ℕ} (h : Holds m v l) (hfits : Fits v (v.mElementCount + 1))
    (hindex : index ≤ l.length) (made : ℕ → α) :
    Succeeds (TVector.insert m v index made) fun r =>
      Holds r.1 r.2 (l.insertIdx index (made index)) ∧ Effect m v r.1 r.2 := by
  apply (h.checkSize_add_one hfits).bind
  rintro ⟨m', v'⟩ ⟨hholds, heffect, hroom, hsameCount, -⟩
  dsimp only at hholds heffect hroom hsameCount ⊢
  obtain ⟨a, ha, hm⟩ := hholds.exists_array (Nat.zero_lt_of_lt hroom)
  have hnew : (v'.mElementCount + 1).toNat = l.length + 1 := by
    rw [hsameCount, h.count_add_one]
  have hraw : (Cells.holding v'.mArraySize.toNat l).slots l.length = none :=
    List.getElem?_eq_none (Nat.le_refl _)
  have hlength : (l.insertIdx index (made index)).length = l.length + 1 :=
    List.length_insertIdx_of_le_length hindex _
  obtain ⟨hinserted, hreplaced⟩ := hholds.replace ha (hnew.trans hlength.symm) (hlength ▸ hroom)
  have hconstruct := ObjectMemory.construct_put (m := m') (a := a) hroom hraw (made l.length)
  rw [← hm] at hconstruct
  have hupdate : (⟨(Cells.holding v'.mArraySize.toNat l).capacity, Function.update
      (Cells.holding v'.mArraySize.toNat l).slots l.length (some (made l.length))⟩ : Cells α) =
      Cells.holding v'.mArraySize.toNat (l ++ [made l.length]) :=
    Cells.holding_update_length ..
  have hin : index < (l ++ [made l.length]).length := by
    rw [List.length_append, List.length_singleton]
    omega
  have hheld : (if index ≤ index then (l ++ [made l.length])[index]? else l[index - 1]?) =
      some (l ++ [made l.length])[index] := by
    rw [if_pos (Nat.le_refl _), List.getElem?_eq_getElem hin]
  have hslots : (⟨v'.mArraySize.toNat, Function.update (Function.update (fun j =>
      if j ≤ index then (l ++ [made l.length])[j]? else l[j - 1]?) index none) index
      (some (made index))⟩ : Cells α) =
      Cells.holding v'.mArraySize.toNat (l.insertIdx index (made index)) := by
    rw [Cells.holding, Function.update_idem]
    congr
    funext j
    rw [List.getElem?_insertIdx]
    by_cases hj : j = index
    · rw [hj, Function.update_self, if_neg (Nat.lt_irrefl _), if_pos rfl, if_pos hindex]
    · rw [Function.update_of_ne hj]
      by_cases hlt : j < index
      · rw [if_pos (Nat.le_of_lt hlt), if_pos hlt, List.getElem?_append_left (by omega)]
      · rw [if_neg (by omega), if_neg hlt, if_neg hj]
  rw [ha, Option.bind_some, hholds.count, hconstruct, hupdate, Option.bind_some, hnew,
    Nat.add_sub_cancel, moveOn_put m' a v'.mArraySize.toNat l (made l.length) hindex,
    Option.bind_some, Option.bind_some, ObjectMemory.destruct_put hheld, Option.bind_some,
    Option.bind_some, ObjectMemory.construct_put (Nat.lt_of_le_of_lt hindex hroom)
      (Function.update_self ..), hslots, Option.map_some]
  exact ⟨_, rfl, ha ▸ hinserted, heffect.trans (ha ▸ hreplaced)⟩

theorem Holds.push_front {argument : VectorArgument α} {x : α} (h : Holds m v l)
    (hfits : Fits v (v.mElementCount + 1)) (made : ℕ → α) (hload : Loads False m v argument x) :
    Succeeds (TVector.push_front m v argument made) fun r =>
      Holds r.1 r.2 (x :: l) ∧ Effect m v r.1 r.2 := by
  apply (h.insert hfits (Nat.zero_le _) made).bind
  rintro ⟨m', v'⟩ ⟨hholds, heffect⟩
  dsimp only at hholds heffect ⊢
  rw [List.insertIdx_zero] at hholds
  obtain ⟨a, ha, hm⟩ := hholds.exists_array_of_mem (Nat.succ_pos l.length)
  have hpush : Holds (m'.put a (Cells.holding v'.mArraySize.toNat (x :: l))) v' (x :: l) ∧
      Effect m' v' (m'.put a (Cells.holding v'.mArraySize.toNat (x :: l))) v' :=
    hholds.replace ha hholds.count hholds.fits
  obtain ⟨hpushed, hreplaced⟩ := hpush
  have hheld : (Cells.holding v'.mArraySize.toNat (made 0 :: l)).slots 0 = some (made 0) := rfl
  have hassign := ObjectMemory.assign_put (m := m') (a := a) hheld x
  have hset : (⟨v'.mArraySize.toNat, Function.update
      (Cells.holding v'.mArraySize.toNat (made 0 :: l)).slots 0 (some x)⟩ : Cells α) =
      Cells.holding v'.mArraySize.toNat (x :: l) := Cells.holding_set (Nat.succ_pos l.length) x
  rw [← hm] at hassign
  rw [load_eq hload heffect (fun habs => absurd habs not_false), Option.bind_some, ha,
    Option.bind_some, hassign, Option.map_some]
  refine ⟨_, rfl, ?_, ?_⟩
  · exact hset ▸ hpushed
  · exact heffect.trans (hset ▸ hreplaced)

theorem holds_empty (m : ObjectMemory α) : Holds m empty ([] : List α) :=
  ⟨rfl, Nat.le_refl _, rfl, nofun, fun _ => rfl, nofun⟩

/-- The array is given back. -/
theorem effect_free (ha : v.mArray = some a) :
    Effect m v { m with arrays := Function.update m.arrays a none } empty where
  next_le := Nat.le_refl _
  others := by
    intro b _ hother
    have hne : b ≠ a := by
      rintro rfl
      exact hother ha
    exact Function.update_of_ne hne ..
  array := nofun

theorem Holds.setSize {size : U32} (h : Holds m v l) (hfits : Fits v size) (made : ℕ → α) :
    Succeeds (TVector.setSize m v size made) fun r =>
      Holds r.1 r.2 (l.take size.toNat ++
        (List.range' l.length (size.toNat - l.length)).map made) ∧ Effect m v r.1 r.2 := by
  apply (h.checkSize hfits).bind
  rintro ⟨m', v'⟩ ⟨hholds, heffect, hroom, -⟩
  dsimp only at hholds heffect hroom ⊢
  rw [BitVec.le_def] at hroom
  by_cases hmore : size > v'.mElementCount
  · rw [if_pos hmore]
    rw [gt_iff_lt, BitVec.lt_def, hholds.count] at hmore
    obtain ⟨a, ha, hm⟩ := hholds.exists_array (Nat.lt_of_lt_of_le (Nat.zero_lt_of_lt hmore) hroom)
    have hlength : (l ++ (List.range' l.length (size.toNat - l.length)).map made).length =
        size.toNat := by
      rw [List.length_append, List.length_map, List.length_range']
      omega
    obtain ⟨hsized, hreplaced⟩ := hholds.replace ha hlength.symm (by rw [hlength]; exact hroom)
    have hconstruct := constructDefault_put m' a l hroom made
    rw [← hm] at hconstruct
    rw [ha, hholds.count, hconstruct, Option.map_some, List.take_of_length_le (Nat.le_of_lt hmore)]
    exact ⟨_, rfl, ha ▸ hsized, heffect.trans (ha ▸ hreplaced)⟩
  rw [if_neg hmore]
  rw [gt_iff_lt, BitVec.lt_def, hholds.count, Nat.not_lt] at hmore
  rw [Nat.sub_eq_zero_of_le hmore, List.range'_zero, List.map_nil, List.append_nil]
  by_cases hless : size < v'.mElementCount
  · rw [if_pos hless]
    rw [BitVec.lt_def, hholds.count] at hless
    obtain ⟨a, ha, hm⟩ := hholds.exists_array_of_mem hless
    have hdestroy := destroy_put m' a v'.mArraySize.toNat size.toNat l
    rw [← hm] at hdestroy
    rw [ha, hholds.count, hdestroy, Option.bind_some]
    have hlength : (l.take size.toNat).length = size.toNat := by
      rw [List.length_take]
      omega
    by_cases hzero : size = 0
    · subst hzero
      rw [if_pos rfl, ObjectMemory.free_put (by simp [Cells.holding]), Option.map_some]
      exact ⟨_, rfl, holds_empty _, heffect.trans (effect_free ha)⟩
    · obtain ⟨hsized, hreplaced⟩ := hholds.replace ha hlength.symm
        (by rw [hlength]; exact hroom)
      rw [if_neg hzero]
      exact ⟨_, rfl, ha ▸ hsized, heffect.trans (ha ▸ hreplaced)⟩
  · rw [if_neg hless]
    rw [BitVec.lt_def, hholds.count, Nat.not_lt] at hless
    rw [List.take_of_length_le hless]
    exact ⟨_, rfl, hholds, heffect⟩

theorem Holds.clear (h : Holds m v l) (made : ℕ → α) :
    Succeeds (TVector.clear m v made) fun r => Holds r.1 r.2 [] ∧ Effect m v r.1 r.2 := by
  have hfits : Fits v 0 := .inl (BitVec.le_def.mpr (Nat.zero_le _))
  apply (h.setSize hfits made).mono
  rintro r ⟨hholds, heffect⟩
  have hzero : (0 : U32).toNat = 0 := rfl
  rw [hzero, List.take_zero, Nat.zero_sub, List.range'_zero] at hholds
  exact ⟨hholds, heffect⟩

theorem Holds.reserve {size : U32} (h : Holds m v l) (hfits : Fits v size) :
    Succeeds (TVector.reserve m v size) fun r => Holds r.1 r.2 l ∧ Effect m v r.1 r.2 := by
  apply (h.checkSize hfits).mono
  rintro r ⟨hholds, heffect, -⟩
  exact ⟨hholds, heffect⟩

/-- All elements are destructed. -/
theorem Holds.destroy (h : Holds m v l) :
    ∃ m', TVector.destroy m v.mArray 0 v.mElementCount.toNat = some m' ∧
      Holds m' { v with mElementCount := 0 } [] ∧
      Effect m v m' { v with mElementCount := 0 } := by
  rw [h.count]
  cases ha : v.mArray with
  | none =>
    obtain rfl := h.null_iff ha
    refine ⟨m, rfl, ?_, ?_⟩
    · exact ⟨rfl, Nat.zero_le _, h.blocks, nofun, fun _ => h.null ha, nofun⟩
    · exact ⟨Nat.le_refl _, fun _ _ _ => rfl, nofun⟩
  | some a =>
    have hm := ObjectMemory.put_eq_self (h.array a ha)
    have hempty : (0 : U32).toNat = ([] : List α).length := rfl
    obtain ⟨hdestroyed, hreplaced⟩ := h.replace ha hempty (Nat.zero_le _)
    have hdestroy := destroy_put m a v.mArraySize.toNat 0 l
    rw [hm, List.take_zero] at hdestroy
    exact ⟨_, hdestroy, ha ▸ hdestroyed, ha ▸ hreplaced⟩

theorem Holds.destruct (h : Holds m v l) :
    ∃ m', TVector.destruct m v = some m' ∧ Effect m v m' empty := by
  obtain ⟨m', hdestroy, hholds, heffect⟩ := h.destroy
  rw [TVector.destruct, hdestroy, Option.bind_some]
  cases ha : v.mArray with
  | none => exact ⟨m', rfl, heffect.next_le, heffect.others, nofun⟩
  | some a =>
    have hm := ObjectMemory.put_eq_self (hholds.array a ha)
    refine ⟨{ m' with arrays := Function.update m'.arrays a none }, ?_, ?_⟩
    · rw [← hm, ObjectMemory.free_put (fun _ => rfl)]
      simp [ObjectMemory.put]
    · exact heffect.trans (effect_free ha)

/-- What is done with another vector leaves the list of this one. -/
theorem Holds.other (h : Holds m v l) {old new : TVector} (heffect : Effect m old m' new)
    (hother : ∀ a, v.mArray = some a → old.mArray ≠ some a) : Holds m' v l := by
  refine ⟨h.count, h.fits, h.blocks, ?_, h.null, ?_⟩
  · intro a ha
    rw [heffect.others a (h.given a ha) (hother a ha)]
    exact h.array a ha
  · intro a ha
    exact Nat.lt_of_lt_of_le (h.given a ha) heffect.next_le

/-- An empty vector with room takes the elements of another one. -/
theorem Holds.copies {other : TVector} (h : Holds m v ([] : List α)) (hother : Holds m other l)
    (hroom : other.mElementCount ≤ v.mArraySize)
    (hapart : ∀ a, v.mArray = some a → other.mArray ≠ some a) :
    ∃ m', constructCopies m v.mArray 0 other.mElementCount.toNat other.mArray = some m' ∧
      Holds m' { v with mElementCount := other.mElementCount } l ∧
      Effect m v m' { v with mElementCount := other.mElementCount } := by
  rw [BitVec.le_def] at hroom
  have hcount := hother.count
  rw [hcount] at hroom ⊢
  cases l with
  | nil =>
    refine ⟨m, rfl, ?_, ?_⟩
    · exact ⟨hcount, hroom, h.blocks, h.array, h.null, h.given⟩
    · exact ⟨Nat.le_refl _, fun _ _ _ => rfl, fun _ ha => .inl ha⟩
  | cons x l =>
    have hpos : 0 < (x :: l).length := Nat.succ_pos _
    obtain ⟨a, ha, hm⟩ := h.exists_array (Nat.lt_of_lt_of_le hpos hroom)
    obtain ⟨b, hb, -⟩ := hother.exists_array_of_mem hpos
    have hne : b ≠ a := by
      rintro rfl
      exact hapart b ha hb
    have hcopies := constructCopies_put (hother.array b hb) hne hroom
    rw [← hm] at hcopies
    obtain ⟨hcopied, hreplaced⟩ := h.replace ha hcount hroom
    refine ⟨_, ?_, hcopied, hreplaced⟩
    rw [ha, hb]
    exact hcopies

end TVector

end TNL
