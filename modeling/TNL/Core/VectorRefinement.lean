import TNL.Core.Vector
import TNL.Library.Refinement

/-!
# Vectors refine lists

Any number of vectors share a memory. As long as no new element count comes close to
`2 ^ 32`, the operations do with the vectors what they do with the lists that these hold,
unless a vector is assigned to itself or takes an element of its own that moves.
-/
namespace TNL
open Library

/-- An argument of an operation: a value, or an element of a vector. -/
inductive Operand (ν α : Type) where
  | value (x : α)
  | element (w : ν) (index : ℕ)

/-- The element is one of the vector itself. -/
def Operand.IsOwn {ν α : Type} (v : ν) : Operand ν α → Prop
  | .value _ => False
  | .element w _ => w = v

structure Vectors (ν α : Type) where
  memory : ObjectMemory α
  vectors : ν → Option TVector

namespace Vectors

variable {ν α : Type} [DecidableEq ν]

/-- What the default constructor leaves behind is part of the operations that use it. -/
inductive Action (ν α : Type) where
  | construct (v : ν) (initialSize : U32)
  | copy (v p : ν)
  | destruct (v : ν)
  | assign (v p : ν)
  | push_back (v : ν) (x : Operand ν α)
  | push_front (v : ν) (x : Operand ν α) (made : ℕ → α)
  | pop_back (v : ν)
  | pop_front (v : ν)
  | insert (v : ν) (index : ℕ) (made : ℕ → α)
  | erase (v : ν) (index : ℕ)
  | erase_fast (v : ν) (index : ℕ)
  | setSize (v : ν) (size : U32) (made : ℕ → α)
  | clear (v : ν) (made : ℕ → α)
  | reserve (v : ν) (size : U32)

def start : Vectors ν α := ⟨⟨fun _ => none, 0⟩, fun _ => none⟩

def set (s : Vectors ν α) (v : ν) (r : ObjectMemory α × TVector) : Vectors ν α :=
  ⟨r.1, Function.update s.vectors v (some r.2)⟩

/-- The pointer that is passed. -/
def argument (s : Vectors ν α) : Operand ν α → Option (VectorArgument α)
  | .value x => some (.value x)
  | .element w index => (s.vectors w).bind fun vec => vec.mArray.map fun a => .element a index

/-- The copy constructor. -/
def copy (s : Vectors ν α) (v p : ν) : Option (Vectors ν α) :=
  (s.vectors p).bind fun other =>
  (TVector.checkSize s.memory .empty other.mElementCount).bind fun (m, vec) =>
  (TVector.constructCopies m vec.mArray 0 other.mElementCount.toNat other.mArray).map fun m =>
    s.set v (m, { vec with mElementCount := other.mElementCount })

/-- The other vector is looked at again after each change of this one. -/
def assign (s : Vectors ν α) (v p : ν) : Option (Vectors ν α) :=
  (s.vectors v).bind fun vec =>
  (TVector.destroy s.memory vec.mArray 0 vec.mElementCount.toNat).bind fun m =>
  let vec := { vec with mElementCount := 0 }
  let s := s.set v (m, vec)
  (s.vectors p).bind fun other =>
  (TVector.checkSize s.memory vec other.mElementCount).bind fun (m, vec) =>
  let s := s.set v (m, vec)
  (s.vectors p).bind fun other =>
  (TVector.constructCopies s.memory vec.mArray 0 other.mElementCount.toNat other.mArray).map
    fun m => s.set v (m, { vec with mElementCount := other.mElementCount })

/-- Let an operation change one vector. -/
def change (s : Vectors ν α) (v : ν)
    (f : ObjectMemory α → TVector → Option (ObjectMemory α × TVector)) : Option (Vectors ν α) :=
  (s.vectors v).bind fun vec => (f s.memory vec).map (s.set v)

def step (s : Vectors ν α) : Action ν α → Option (Vectors ν α)
  | .construct v initialSize =>
    if (s.vectors v).isSome then none
    else if initialSize = 0 then some (s.set v (s.memory, .empty))
    else (TVector.reserve s.memory .empty initialSize).map (s.set v)
  | .copy v p => if (s.vectors v).isSome then none else s.copy v p
  | .destruct v => (s.vectors v).bind fun vec => (vec.destruct s.memory).map fun m =>
    ⟨m, Function.update s.vectors v none⟩
  | .assign v p => s.assign v p
  | .push_back v x => (s.argument x).bind fun x => s.change v fun m vec => vec.push_back m x
  | .push_front v x made =>
    (s.argument x).bind fun x => s.change v fun m vec => vec.push_front m x made
  | .pop_back v => s.change v fun m vec => vec.pop_back m
  | .pop_front v => s.change v fun m vec => vec.pop_front m
  | .insert v index made => s.change v fun m vec => vec.insert m index made
  | .erase v index => s.change v fun m vec => vec.erase m index
  | .erase_fast v index => s.change v fun m vec => vec.erase_fast m index
  | .setSize v size made => s.change v fun m vec => vec.setSize m size made
  | .clear v made => s.change v fun m vec => vec.clear m made
  | .reserve v size => s.change v fun m vec => vec.reserve m size

/-! ### The operations on lists -/

def valueOf (lists : ν → Option (List α)) : Operand ν α → Option α
  | .value x => some x
  | .element w index => (lists w).bind fun l => l[index]?

/-- Let an operation change one list, if it is in range. -/
def changeList (lists : ν → Option (List α)) (v : ν) (inRange : List α → Prop)
    [DecidablePred inRange] (f : List α → List α) : Option (ν → Option (List α)) :=
  (lists v).bind fun l =>
    if inRange l then some (Function.update lists v (some (f l))) else none

/-- Undefined where an argument is not in range. -/
def listStep (lists : ν → Option (List α)) : Action ν α → Option (ν → Option (List α))
  | .construct v _ =>
    if (lists v).isSome then none else some (Function.update lists v (some []))
  | .copy v p =>
    if (lists v).isSome then none
    else (lists p).map fun l => Function.update lists v (some l)
  | .destruct v => (lists v).map fun _ => Function.update lists v none
  | .assign v p => (lists v).bind fun _ => (lists p).map fun l => Function.update lists v (some l)
  | .push_back v x =>
    (valueOf lists x).bind fun x => changeList lists v (fun _ => True) fun l => l ++ [x]
  | .push_front v x _ =>
    (valueOf lists x).bind fun x => changeList lists v (fun _ => True) fun l => x :: l
  | .pop_back v => changeList lists v (fun l => 0 < l.length) List.dropLast
  | .pop_front v => changeList lists v (fun l => 0 < l.length) List.tail
  | .insert v index made =>
    changeList lists v (fun l => index ≤ l.length) fun l => l.insertIdx index (made index)
  | .erase v index => changeList lists v (fun l => index < l.length) fun l => l.eraseIdx index
  | .erase_fast v index => changeList lists v (fun l => index < l.length) fun l => eraseFast l index
  | .setSize v size made => changeList lists v (fun _ => True) fun l =>
    l.take size.toNat ++ (List.range' l.length (size.toNat - l.length)).map made
  | .clear v _ => changeList lists v (fun _ => True) fun _ => []
  | .reserve v _ => changeList lists v (fun _ => True) id

/-- Each vector holds its list, in an array of its own. -/
structure Refines (s : Vectors ν α) (lists : ν → Option (List α)) : Prop where
  holds : ∀ v vec, s.vectors v = some vec → ∃ l, lists v = some l ∧ vec.Holds s.memory l
  gone : ∀ v, s.vectors v = none → lists v = none
  apart : ∀ v w vec vec' a, s.vectors v = some vec → s.vectors w = some vec' →
    vec.mArray = some a → vec'.mArray = some a → v = w

/-- The steps that do not reach a defect. -/
def Harmless (s : Vectors ν α) : Action ν α → Prop
  | .construct _ initialSize => TVector.empty.Fits initialSize
  | .copy _ p => ∀ other ∈ s.vectors p, TVector.empty.Fits other.mElementCount
  | .assign v p => ∀ vec ∈ s.vectors v, ∀ other ∈ s.vectors p,
    vec.Fits other.mElementCount ∧ (v = p → vec.mElementCount = 0)
  | .push_back v x => ∀ vec ∈ s.vectors v, vec.Fits (vec.mElementCount + 1) ∧
    (x.IsOwn v → vec.mElementCount + 1 ≤ vec.mArraySize)
  | .push_front v x _ => ∀ vec ∈ s.vectors v, vec.Fits (vec.mElementCount + 1) ∧ ¬x.IsOwn v
  | .insert v _ _ => ∀ vec ∈ s.vectors v, vec.Fits (vec.mElementCount + 1)
  | .setSize v size _ => ∀ vec ∈ s.vectors v, vec.Fits size
  | .reserve v size => ∀ vec ∈ s.vectors v, vec.Fits size
  | _ => True

variable {s s' : Vectors ν α} {lists lists' : ν → Option (List α)} {v p : ν}
  {vec vec' : TVector} {m : ObjectMemory α} {l l' : List α}

omit [DecidableEq ν] in
theorem refines_start : (start : Vectors ν α).Refines fun _ => none :=
  ⟨nofun, fun _ _ => rfl, nofun⟩

omit [DecidableEq ν] in
theorem Refines.not_live (h : s.Refines lists) (hv : lists v = none) : s.vectors v = none := by
  by_contra hlive
  obtain ⟨vec, hvec⟩ := Option.ne_none_iff_exists'.mp hlive
  obtain ⟨l, hl, -⟩ := h.holds v vec hvec
  rw [hv] at hl
  exact absurd hl (Option.some_ne_none l).symm

omit [DecidableEq ν] in
theorem Refines.live (h : s.Refines lists) (hv : lists v = some l) :
    ∃ vec, s.vectors v = some vec ∧ vec.Holds s.memory l := by
  cases hvec : s.vectors v with
  | none =>
    rw [h.gone v hvec] at hv
    exact absurd hv (Option.some_ne_none l).symm
  | some vec =>
    obtain ⟨l', hl', hholds⟩ := h.holds v vec hvec
    obtain rfl := Option.some.inj (hv.symm.trans hl')
    exact ⟨vec, rfl, hholds⟩

@[simp] theorem vectors_set_self (s : Vectors ν α) (v : ν) (r : ObjectMemory α × TVector) :
    (s.set v r).vectors v = some r.2 := Function.update_self ..

theorem vectors_set_of_ne {w : ν} (s : Vectors ν α) (h : w ≠ v) (r : ObjectMemory α × TVector) :
    (s.set v r).vectors w = s.vectors w := Function.update_of_ne h ..

@[simp] theorem set_set (s : Vectors ν α) (v : ν) (r r' : ObjectMemory α × TVector) :
    (s.set v r).set v r' = s.set v r' := by
  simp [set]

/-- One vector changes, and the other ones do not use the array that it had. -/
theorem Refines.set (h : s.Refines lists) {old : TVector}
    (hold : ∀ w, w ≠ v → ∀ other, s.vectors w = some other →
      ∀ a, other.mArray = some a → old.mArray ≠ some a)
    (hholds : vec'.Holds m l') (heffect : TVector.Effect s.memory old m vec') :
    (s.set v (m, vec')).Refines (Function.update lists v (some l')) := by
  -- the array of this vector is none of the other ones
  have hown : ∀ w, w ≠ v → ∀ other, s.vectors w = some other →
      ∀ a, other.mArray = some a → vec'.mArray ≠ some a := by
    intro w hwv other hw a ha harray
    rcases heffect.array a harray with hsame | hnew
    · exact hold w hwv other hw a ha hsame
    · obtain ⟨l, -, hholds'⟩ := h.holds w other hw
      exact absurd (hholds'.given a ha) (Nat.not_lt.mpr hnew)
  constructor
  case holds =>
    intro w other hw
    by_cases hwv : w = v
    · subst hwv
      rw [vectors_set_self] at hw
      obtain rfl := Option.some.inj hw
      exact ⟨l', Function.update_self .., hholds⟩
    · rw [vectors_set_of_ne s hwv] at hw
      obtain ⟨l, hl, hholds'⟩ := h.holds w other hw
      refine ⟨l, ?_, hholds'.other heffect (hold w hwv other hw)⟩
      rw [Function.update_of_ne hwv]
      exact hl
  case gone =>
    intro w hw
    by_cases hwv : w = v
    · subst hwv
      rw [vectors_set_self] at hw
      exact absurd hw (Option.some_ne_none _)
    · rw [vectors_set_of_ne s hwv] at hw
      rw [Function.update_of_ne hwv]
      exact h.gone w hw
  case apart =>
    intro w w' other other' a hw hw' ha ha'
    by_cases hwv : w = v
    · by_cases hwv' : w' = v
      · rw [hwv, hwv']
      · rw [vectors_set_of_ne s hwv'] at hw'
        rw [hwv, vectors_set_self] at hw
        obtain rfl := Option.some.inj hw
        exact absurd ha (hown w' hwv' other' hw' a ha')
    · rw [vectors_set_of_ne s hwv] at hw
      by_cases hwv' : w' = v
      · rw [hwv', vectors_set_self] at hw'
        obtain rfl := Option.some.inj hw'
        exact absurd ha' (hown w hwv other hw a ha)
      · rw [vectors_set_of_ne s hwv'] at hw'
        exact h.apart w w' other other' a hw hw' ha ha'

omit [DecidableEq ν] in
theorem Refines.apart_of_ne (h : s.Refines lists) (hv : s.vectors v = some vec) :
    ∀ w, w ≠ v → ∀ other, s.vectors w = some other →
      ∀ a, other.mArray = some a → vec.mArray ≠ some a := by
  intro w hwv other hw a ha harray
  exact hwv (h.apart w v other vec a hw hv ha harray)

/-- An operation on one vector that does to its list what it should. -/
theorem Refines.change (h : s.Refines lists) (hl : lists v = some l)
    {f : ObjectMemory α → TVector → Option (ObjectMemory α × TVector)}
    (hf : ∀ vec, s.vectors v = some vec → vec.Holds s.memory l →
      Succeeds (f s.memory vec) fun r =>
        r.2.Holds r.1 l' ∧ TVector.Effect s.memory vec r.1 r.2) :
    Succeeds (s.change v f) fun s' => s'.Refines (Function.update lists v (some l')) := by
  obtain ⟨vec, hvec, hholds⟩ := h.live hl
  obtain ⟨r, hr, hholds', heffect⟩ := hf vec hvec hholds
  rw [Vectors.change, hvec, Option.bind_some, hr, Option.map_some]
  exact ⟨_, rfl, h.set (h.apart_of_ne hvec) hholds' heffect⟩

theorem Refines.copy (h : s.Refines lists) (hp : lists p = some l)
    (hfits : ∀ other ∈ s.vectors p, TVector.empty.Fits other.mElementCount) :
    Succeeds (s.copy v p) fun s' => s'.Refines (Function.update lists v (some l)) := by
  obtain ⟨other, hother, hholds⟩ := h.live hp
  have hnew := TVector.holds_empty (α := α) s.memory
  obtain ⟨r, hr, hroomy, heffect, hroom, -⟩ := hnew.checkSize (hfits other hother)
  have hold : ∀ a, other.mArray = some a → TVector.empty.mArray ≠ some a := nofun
  have hapart : ∀ a, r.2.mArray = some a → other.mArray ≠ some a := by
    intro a ha harray
    rcases heffect.array a ha with hsame | hfresh
    · exact absurd hsame nofun
    · exact absurd (hholds.given a harray) (Nat.not_lt.mpr hfresh)
  obtain ⟨m', hcopies, hcopied, heffect'⟩ :=
    hroomy.copies (hholds.other heffect hold) hroom hapart
  rw [Vectors.copy, hother, Option.bind_some, hr, Option.bind_some]
  dsimp only
  rw [hcopies, Option.map_some]
  refine ⟨_, rfl, h.set ?_ hcopied (heffect.trans heffect')⟩
  intro w _ _ _ a _
  exact nofun

theorem Refines.assign (h : s.Refines lists) (hv : lists v = some l) (hp : lists p = some l')
    (hfits : ∀ vec ∈ s.vectors v, ∀ other ∈ s.vectors p,
      vec.Fits other.mElementCount ∧ (v = p → vec.mElementCount = 0)) :
    Succeeds (s.assign v p) fun s' => s'.Refines (Function.update lists v (some l')) := by
  obtain ⟨vec, hvec, hholds⟩ := h.live hv
  obtain ⟨other, hother, hholds'⟩ := h.live hp
  obtain ⟨hroom, hself⟩ := hfits vec hvec other hother
  obtain ⟨m₁, hdestroy, hempty, heffect₁⟩ := hholds.destroy
  rw [Vectors.assign, hvec, Option.bind_some, hdestroy, Option.bind_some]
  dsimp only
  by_cases hpv : p = v
  · -- nothing is left of the vector, so that it must have been empty
    subst hpv
    have hzero : l.length = 0 := by
      rw [← hholds.count, hself rfl]
      rfl
    obtain rfl := List.length_eq_zero_iff.mp hzero
    obtain rfl := Option.some.inj (hv.symm.trans hp)
    have hcheck : TVector.checkSize m₁ { vec with mElementCount := 0 } 0 =
        some (m₁, { vec with mElementCount := 0 }) := if_pos (BitVec.le_def.mpr (Nat.zero_le _))
    have hcopies : TVector.constructCopies m₁ vec.mArray 0 (0 : U32).toNat vec.mArray = some m₁ :=
      rfl
    rw [vectors_set_self, Option.bind_some]
    dsimp only [Vectors.set]
    rw [hcheck, Option.bind_some, Function.update_self, Option.bind_some, hcopies, Option.map_some]
    refine ⟨_, rfl, ?_⟩
    have hset := h.set (h.apart_of_ne hvec) hempty heffect₁
    simpa [Vectors.set] using hset
  · obtain ⟨r, hr, hroomy, heffect₂, hle, -⟩ := hempty.checkSize hroom
    have heffect := heffect₁.trans heffect₂
    have hothers := h.apart_of_ne hvec p hpv other hother
    have hapart : ∀ a, r.2.mArray = some a → other.mArray ≠ some a := by
      intro a ha harray
      rcases heffect.array a ha with hsame | hfresh
      · exact hothers a harray hsame
      · exact absurd (hholds'.given a harray) (Nat.not_lt.mpr hfresh)
    obtain ⟨m', hcopies, hcopied, heffect₃⟩ :=
      hroomy.copies (hholds'.other heffect hothers) hle hapart
    rw [vectors_set_of_ne s hpv, hother, Option.bind_some]
    dsimp only [Vectors.set]
    rw [hr, Option.bind_some, Function.update_of_ne hpv, Function.update_of_ne hpv, hother, Option.bind_some, hcopies,
      Option.map_some]
    refine ⟨_, rfl, ?_⟩
    have hset := h.set (h.apart_of_ne hvec) hcopied (heffect.trans heffect₃)
    simpa [Vectors.set] using hset

theorem Refines.construct (h : s.Refines lists) {initialSize : U32}
    (hv : lists v = none) (hfits : TVector.empty.Fits initialSize) :
    Succeeds (s.step (.construct v initialSize)) fun s' =>
      s'.Refines (Function.update lists v (some [])) := by
  have hnew := TVector.holds_empty (α := α) s.memory
  have hold : ∀ w, w ≠ v → ∀ other, s.vectors w = some other →
      ∀ a, other.mArray = some a → TVector.empty.mArray ≠ some a := fun _ _ _ _ _ _ => nofun
  rw [step, h.not_live hv, Option.isSome_none, if_neg Bool.false_ne_true]
  by_cases hzero : initialSize = 0
  · rw [if_pos hzero]
    exact ⟨_, rfl, h.set hold hnew (TVector.Effect.refl _ _)⟩
  · obtain ⟨r, hr, hholds, heffect⟩ := hnew.reserve hfits
    rw [if_neg hzero, hr, Option.map_some]
    exact ⟨_, rfl, h.set hold hholds heffect⟩

theorem Refines.destruct (h : s.Refines lists) (hv : lists v = some l) :
    Succeeds (s.step (.destruct v)) fun s' => s'.Refines (Function.update lists v none) := by
  obtain ⟨vec, hvec, hholds⟩ := h.live hv
  obtain ⟨m, hdestruct, heffect⟩ := hholds.destruct
  rw [step, hvec, Option.bind_some, hdestruct, Option.map_some]
  refine ⟨_, rfl, ?_⟩
  constructor
  case holds =>
    intro w other hw
    dsimp only at hw
    by_cases hwv : w = v
    · rw [hwv, Function.update_self] at hw
      exact absurd hw (Option.some_ne_none other).symm
    · rw [Function.update_of_ne hwv] at hw ⊢
      obtain ⟨l', hl', hholds'⟩ := h.holds w other hw
      exact ⟨l', hl', hholds'.other heffect (h.apart_of_ne hvec w hwv other hw)⟩
  case gone =>
    intro w hw
    dsimp only at hw
    by_cases hwv : w = v
    · rw [hwv, Function.update_self]
    · rw [Function.update_of_ne hwv] at hw ⊢
      exact h.gone w hw
  case apart =>
    intro w w' other other' a hw hw' ha ha'
    dsimp only at hw hw'
    have hwv : w ≠ v := by
      rintro rfl
      rw [Function.update_self] at hw
      exact absurd hw (Option.some_ne_none other).symm
    have hwv' : w' ≠ v := by
      rintro rfl
      rw [Function.update_self] at hw'
      exact absurd hw' (Option.some_ne_none other').symm
    rw [Function.update_of_ne hwv] at hw
    rw [Function.update_of_ne hwv'] at hw'
    exact h.apart w w' other other' a hw hw' ha ha'

omit [DecidableEq ν] in
/-- The pointer that is passed leads to the value. -/
theorem Refines.loads {x : Operand ν α} {y : α} {stays : Prop} (h : s.Refines lists)
    (hvec : s.vectors v = some vec) (hx : valueOf lists x = some y) (hown : x.IsOwn v → stays) :
    ∃ argument, s.argument x = some argument ∧
      TVector.Loads stays s.memory vec argument y := by
  cases x with
  | value z => exact ⟨_, rfl, Option.some.inj hx⟩
  | element w index =>
    obtain ⟨l, hl, hindex⟩ := Option.bind_eq_some_iff.mp hx
    obtain ⟨other, hother, hholds⟩ := h.live hl
    obtain ⟨hlt, -⟩ := List.getElem?_eq_some_iff.mp hindex
    obtain ⟨a, ha, -⟩ := hholds.exists_array_of_mem hlt
    refine ⟨.element a index, ?_, hholds.given a ha, ?_, ?_⟩
    · rw [argument, hother, Option.bind_some, ha, Option.map_some]
    · rw [ObjectMemory.read, hholds.array a ha, Option.bind_some]
      exact hindex
    · intro hvecArray
      exact hown (h.apart w v other vec a hother hvec ha hvecArray)

theorem changeList_eq_some {inRange : List α → Prop} [DecidablePred inRange]
    {f : List α → List α} (h : changeList lists v inRange f = some lists') :
    ∃ l, lists v = some l ∧ inRange l ∧ lists' = Function.update lists v (some (f l)) := by
  obtain ⟨l, hl, h⟩ := Option.bind_eq_some_iff.mp h
  split_ifs at h with hrange
  exact ⟨l, hl, hrange, (Option.some.inj h).symm⟩

/-- One step that does not reach a defect. -/
theorem Refines.step {a : Action ν α} (h : s.Refines lists) (hlist : listStep lists a = some lists')
    (hharmless : s.Harmless a) : Succeeds (s.step a) fun s' => s'.Refines lists' := by
  cases a with
  | construct v initialSize =>
    rw [listStep] at hlist
    split_ifs at hlist with hv
    rw [Option.not_isSome_iff_eq_none] at hv
    obtain rfl := Option.some.inj hlist
    exact h.construct hv hharmless
  | copy v p =>
    rw [listStep] at hlist
    split_ifs at hlist with hv
    rw [Option.not_isSome_iff_eq_none] at hv
    obtain ⟨l, hp, rfl⟩ := Option.map_eq_some_iff.mp hlist
    rw [Vectors.step, h.not_live hv, Option.isSome_none, if_neg Bool.false_ne_true]
    exact h.copy hp hharmless
  | destruct v =>
    obtain ⟨l, hv, rfl⟩ := Option.map_eq_some_iff.mp hlist
    exact h.destruct hv
  | assign v p =>
    obtain ⟨l, hv, hlist⟩ := Option.bind_eq_some_iff.mp hlist
    obtain ⟨l', hp, rfl⟩ := Option.map_eq_some_iff.mp hlist
    exact h.assign hv hp hharmless
  | push_back v x =>
    obtain ⟨y, hx, hlist⟩ := Option.bind_eq_some_iff.mp hlist
    obtain ⟨l, hv, -, rfl⟩ := changeList_eq_some hlist
    obtain ⟨vec, hvec, -⟩ := h.live hv
    obtain ⟨hfits, hown⟩ := hharmless vec hvec
    obtain ⟨argument, hargument, hloads⟩ := h.loads hvec hx hown
    rw [Vectors.step, hargument, Option.bind_some]
    apply h.change hv
    intro vec' hvec' hholds
    obtain rfl := Option.some.inj (hvec.symm.trans hvec')
    exact hholds.push_back hfits hloads
  | push_front v x made =>
    obtain ⟨y, hx, hlist⟩ := Option.bind_eq_some_iff.mp hlist
    obtain ⟨l, hv, -, rfl⟩ := changeList_eq_some hlist
    obtain ⟨vec, hvec, -⟩ := h.live hv
    obtain ⟨hfits, hown⟩ := hharmless vec hvec
    obtain ⟨argument, hargument, hloads⟩ := h.loads hvec hx hown
    rw [Vectors.step, hargument, Option.bind_some]
    apply h.change hv
    intro vec' hvec' hholds
    obtain rfl := Option.some.inj (hvec.symm.trans hvec')
    exact hholds.push_front hfits made hloads
  | pop_back v =>
    obtain ⟨l, hv, hrange, rfl⟩ := changeList_eq_some hlist
    rw [Vectors.step]
    apply h.change hv
    intro vec hvec hholds
    exact hholds.pop_back (List.ne_nil_of_length_pos hrange)
  | pop_front v =>
    obtain ⟨l, hv, hrange, rfl⟩ := changeList_eq_some hlist
    rw [← List.eraseIdx_zero]
    rw [Vectors.step]
    apply h.change hv
    intro vec hvec hholds
    exact hholds.erase hrange
  | insert v index made =>
    obtain ⟨l, hv, hrange, rfl⟩ := changeList_eq_some hlist
    rw [Vectors.step]
    apply h.change hv
    intro vec hvec hholds
    exact hholds.insert (hharmless vec hvec) hrange made
  | erase v index =>
    obtain ⟨l, hv, hrange, rfl⟩ := changeList_eq_some hlist
    rw [Vectors.step]
    apply h.change hv
    intro vec hvec hholds
    exact hholds.erase hrange
  | erase_fast v index =>
    obtain ⟨l, hv, hrange, rfl⟩ := changeList_eq_some hlist
    rw [Vectors.step]
    apply h.change hv
    intro vec hvec hholds
    exact hholds.erase_fast hrange
  | setSize v size made =>
    obtain ⟨l, hv, -, rfl⟩ := changeList_eq_some hlist
    rw [Vectors.step]
    apply h.change hv
    intro vec hvec hholds
    exact hholds.setSize (hharmless vec hvec) made
  | clear v made =>
    obtain ⟨l, hv, -, rfl⟩ := changeList_eq_some hlist
    rw [Vectors.step]
    apply h.change hv
    intro vec hvec hholds
    exact hholds.clear made
  | reserve v size =>
    obtain ⟨l, hv, -, rfl⟩ := changeList_eq_some hlist
    rw [Vectors.step]
    apply h.change hv
    intro vec hvec hholds
    exact hholds.reserve (hharmless vec hvec)

/-- Vectors do what lists do as long as no step reaches a defect. -/
theorem vectors_refine_lists {actions : List (Action ν α)}
    (hlists : exec listStep (fun _ => none) actions = some lists)
    (hharmless : AllowedRun step Harmless (start : Vectors ν α) actions) :
    ∃ s, exec step start actions = some s ∧ s.Refines lists :=
  hharmless.refines (fun _ _ _ _ h => h.step) refines_start hlists

/-- Two vectors, one of them a copy that then takes its own first element. -/
def copyAndPush : List (Action Bool ℕ) :=
  [.construct true 0, .push_back true (.value 5), .copy false true,
    .push_back false (.element false 0)]

theorem vectors_refine_lists_copy :
    ∃ s, exec step start copyAndPush = some s ∧ s.Refines
      (Function.update (Function.update (Function.update (Function.update (fun _ => none)
        true (some [])) true (some [5])) false (some [5])) false (some [5, 5])) := by
  apply vectors_refine_lists
  · rfl
  · refine ⟨.inl (by decide), fun s hs => ?_⟩
    obtain rfl := Option.some.inj hs
    refine ⟨fun vec hvec => ?_, fun s hs => ?_⟩
    · obtain rfl := Option.some.inj hvec
      exact ⟨.inr (by decide), nofun⟩
    obtain rfl := Option.some.inj hs
    refine ⟨fun vec hvec => ?_, fun s hs => ?_⟩
    · obtain rfl := Option.some.inj hvec
      exact .inr (by decide)
    obtain rfl := Option.some.inj hs
    refine ⟨fun vec hvec => ?_, fun s hs => trivial⟩
    obtain rfl := Option.some.inj hvec
    exact ⟨.inl (by decide), fun _ => by decide⟩

/-- A vector that is assigned to itself is empty afterwards. -/
theorem assign_self_loses :
    ¬∀ (actions : List (Action Bool ℕ)) (lists : Bool → Option (List ℕ)),
      exec listStep (fun _ => none) actions = some lists →
        ∃ s, exec step start actions = some s ∧ s.Refines lists := by
  intro h
  obtain ⟨s, hs, hrefines⟩ :=
    h [.construct true 0, .push_back true (.value 5), .assign true true] _ rfl
  have hcount : (s.vectors true).map (·.mElementCount) = some 0 := by
    have hrun : ((exec step start [.construct true 0, .push_back true (.value 5),
        .assign true true] : Option (Vectors Bool ℕ)).bind fun s => (s.vectors true).map
          (·.mElementCount)) = some 0 := by decide +kernel
    rwa [hs, Option.bind_some] at hrun
  obtain ⟨vec, hvec, hholds⟩ := hrefines.live (v := true) (l := [5]) rfl
  rw [hvec, Option.map_some] at hcount
  have hlength := hholds.count
  rw [Option.some.inj hcount] at hlength
  exact absurd hlength (by decide)

/-- An own element is read after the array that held it was freed. -/
theorem push_back_own_fails :
    exec step (start : Vectors Bool ℕ) (.construct true 0 :: (List.replicate 16
      (.push_back true (.value 5)) ++ [.push_back true (.element true 0)])) = none := by
  have hnone : (exec step (start : Vectors Bool ℕ) (.construct true 0 :: (List.replicate 16
      (.push_back true (.value 5)) ++ [.push_back true (.element true 0)]))).isNone = true := by
    decide +kernel
  exact Option.isNone_iff_eq_none.mp hnone

end Vectors

end TNL
