import TNL.Connection.Header
import TNL.Library.DoublyLinkedList
import TNL.Library.Run

/-!
# Reference counts and safe pointers

A `RefPtr` counts itself in the object that it refers to, which is destroyed when
the count comes down to zero. A `SafePtr` is a node of a list that begins in the
object, and the destructor of the object clears all of them. The memory of a
destroyed object keeps what was in it.
-/
namespace TNL
open Library

structure Object where
  firstObjectRef : Option ℕ
  refCount : U32
  alive : Bool

/-- The links of a reference without an object are not initialized, and not read. -/
structure SafeObjectRef where
  object : Option ℕ
  prevObjectRef : Option ℕ
  nextObjectRef : Option ℕ

/-- The memory: objects, `RefPtr`s and `SafePtr`s at their addresses. What was done with them is
kept besides: which objects a `RefPtr` has held, which object a `SafePtr` was last set to, and the
objects in the order in which they were destroyed. -/
structure References where
  objects : ℕ → Option Object
  refPtrs : ℕ → Option (Option ℕ)
  safePtrs : ℕ → Option SafeObjectRef
  objectCount : ℕ
  safeCount : ℕ
  held : ℕ → Bool
  aim : ℕ → Option ℕ
  destroyed : List ℕ

namespace References

def start : References :=
  ⟨fun _ => none, fun _ => none, fun _ => none, 0, 0, fun _ => false, fun _ => none, []⟩

/-- The loop of the destructor. -/
def clearSafePtrs : ℕ → Option ℕ → (ℕ → Option SafeObjectRef) → ℕ → Option SafeObjectRef
  | fuel + 1, some walk, safePtrs =>
    let next := (safePtrs walk).bind (·.nextObjectRef)
    clearSafePtrs fuel next (modify safePtrs walk (fun _ => ⟨none, none, none⟩))
  | _, _, safePtrs => safePtrs

/-- There are no more references in the list than were ever made. -/
def destroySelf (s : References) (o : ℕ) : References :=
  { s with
    safePtrs := clearSafePtrs s.safeCount ((s.objects o).bind (·.firstObjectRef)) s.safePtrs
    objects := modify s.objects o (fun object => { object with alive := false })
    destroyed := s.destroyed ++ [o] }

section RefObjectRef

/-- Of no object if the pointer is null. -/
def incRef (s : References) : Option ℕ → References
  | none => s
  | some o => { s with
      objects := modify s.objects o (fun object =>
        { object with refCount := object.refCount + 1 })
      held := Function.update s.held o true }

def decRef (s : References) : Option ℕ → References
  | none => s
  | some o =>
    let s := { s with objects := modify s.objects o (fun object =>
      { object with refCount := object.refCount - 1 }) }
    if (s.objects o).any (fun object => object.refCount = 0) then s.destroySelf o else s

def setRefPtr (s : References) (r : ℕ) (object : Option ℕ) : References :=
  let s := s.decRef (s.refPtrs r).join
  let s := { s with refPtrs := Function.update s.refPtrs r (some object) }
  s.incRef object

def constructRefPtr (s : References) (r : ℕ) (object : Option ℕ) : References :=
  incRef { s with refPtrs := Function.update s.refPtrs r (some object) } object

def destructRefPtr (s : References) (r : ℕ) : References :=
  let s := s.decRef (s.refPtrs r).join
  { s with refPtrs := Function.update s.refPtrs r none }

end RefObjectRef

section SafeObjectRef

def target (s : References) (x : ℕ) : Option ℕ := (s.safePtrs x).bind (·.object)

def prevRef (s : References) (x : ℕ) : Option ℕ := (s.safePtrs x).bind (·.prevObjectRef)

def nextRef (s : References) (x : ℕ) : Option ℕ := (s.safePtrs x).bind (·.nextObjectRef)

def setPrevRef (s : References) (x : ℕ) (prev : Option ℕ) : References :=
  { s with safePtrs := modify s.safePtrs x (fun ref => { ref with prevObjectRef := prev }) }

def setNextRef (s : References) (x : ℕ) (next : Option ℕ) : References :=
  { s with safePtrs := modify s.safePtrs x (fun ref => { ref with nextObjectRef := next }) }

def setFirstRef (s : References) (o : ℕ) (first : Option ℕ) : References :=
  { s with objects := modify s.objects o (fun object => { object with firstObjectRef := first }) }

/-- Set the pointer that leads to what follows `prev`. -/
def setNextOf (s : References) (o : ℕ) (prev next : Option ℕ) : References :=
  match prev with
  | some prev => s.setNextRef prev next
  | none => s.setFirstRef o next

/-- Set the pointer back from `next`. -/
def setPrevOf (s : References) (next prev : Option ℕ) : References :=
  match next with
  | some next => s.setPrevRef next prev
  | none => s

def unregisterReference (s : References) (x : ℕ) : References :=
  match s.target x with
  | none => s
  | some o =>
    let s := s.setNextOf o (s.prevRef x) (s.nextRef x)
    s.setPrevOf (s.nextRef x) (s.prevRef x)

def registerReference (s : References) (x : ℕ) : References :=
  match s.target x with
  | none => s
  | some o =>
    let s := s.setNextRef x ((s.objects o).bind (·.firstObjectRef))
    let s := s.setPrevOf (s.nextRef x) (some x)
    let s := s.setPrevRef x none
    s.setFirstRef o (some x)

/-- Let a reference point to an object. -/
def setTarget (s : References) (x : ℕ) (object : Option ℕ) : References :=
  { s with
    safePtrs := modify s.safePtrs x (fun ref => { ref with object := object })
    aim := Function.update s.aim x object }

def setSafePtr (s : References) (x : ℕ) (object : Option ℕ) : References :=
  let s := s.unregisterReference x
  let s := s.setTarget x object
  s.registerReference x

def constructSafePtr (s : References) (object : Option ℕ) : References :=
  let x := s.safeCount
  let s := { s with
    safePtrs := Function.update s.safePtrs x (some ⟨object, none, none⟩)
    safeCount := x + 1
    aim := Function.update s.aim x object }
  s.registerReference x

def destructSafePtr (s : References) (x : ℕ) : References :=
  let s := s.unregisterReference x
  { s with
    safePtrs := Function.update s.safePtrs x none
    aim := Function.update s.aim x none }

end SafeObjectRef

inductive Action where
  | newObject
  | deleteObject (o : ℕ)
  | constructRefPtr (r : ℕ) (object : Option ℕ)
  | copyRefPtr (r ref : ℕ)
  | setRefPtr (r : ℕ) (object : Option ℕ)
  | assignRefPtr (r ref : ℕ)
  | destructRefPtr (r : ℕ)
  | constructSafePtr (object : Option ℕ)
  | copySafePtr (ref : ℕ)
  | setSafePtr (x : ℕ) (object : Option ℕ)
  | assignSafePtr (x ref : ℕ)
  | destructSafePtr (x : ℕ)

/-- A pointer that a program may pass: null, or to an object that is not destroyed. -/
def Valid (s : References) (object : Option ℕ) : Prop :=
  ∀ o ∈ object, (s.objects o).any (·.alive)

instance (s : References) (object : Option ℕ) : Decidable (s.Valid object) :=
  inferInstanceAs (Decidable (∀ o ∈ object, _))

/-- A step is not taken if the program is wrong: it passes a dangling pointer, uses a pointer that
is not there, makes one where there is one, or deletes an object that has a reference count. -/
def step (s : References) : Action → Option References
  | .newObject => some { s with
      objects := Function.update s.objects s.objectCount (some ⟨none, 0, true⟩)
      objectCount := s.objectCount + 1 }
  | .deleteObject o =>
    if (s.objects o).any (fun object => object.alive ∧ object.refCount = 0) then
      some (s.destroySelf o)
    else none
  | .constructRefPtr r object =>
    if s.refPtrs r = none ∧ s.Valid object then some (s.constructRefPtr r object) else none
  | .copyRefPtr r ref =>
    if s.refPtrs r = none then (s.refPtrs ref).map (s.constructRefPtr r) else none
  | .setRefPtr r object =>
    if s.refPtrs r ≠ none ∧ s.Valid object then some (s.setRefPtr r object) else none
  | .assignRefPtr r ref =>
    if s.refPtrs r ≠ none then (s.refPtrs ref).map (s.setRefPtr r) else none
  | .destructRefPtr r => if s.refPtrs r ≠ none then some (s.destructRefPtr r) else none
  | .constructSafePtr object =>
    if s.Valid object then some (s.constructSafePtr object) else none
  | .copySafePtr ref => (s.safePtrs ref).map (fun ref => s.constructSafePtr ref.object)
  | .setSafePtr x object =>
    if (s.safePtrs x).isSome ∧ s.Valid object then some (s.setSafePtr x object) else none
  | .assignSafePtr x ref =>
    if (s.safePtrs x).isSome then
      (s.safePtrs ref).map (fun ref => s.setSafePtr x ref.object)
    else none
  | .destructSafePtr x => if (s.safePtrs x).isSome then some (s.destructSafePtr x) else none

end References

end TNL
