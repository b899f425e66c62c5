import Mathlib
import TNL.Connection.Header
import TNL.Library.Run

/-!
# The grid database

The plane is cut into cells, and the cells are folded into a grid of buckets. An object
stands once for each of its cells in the bucket of the cell, so that it can stand in one
bucket several times. A query looks at the buckets of its own cells and marks the objects
that it has found with its id.
-/
namespace TNL
open Library

structure Point (R : Type) where
  x : R
  y : R
  deriving DecidableEq

/-- The corners in order. -/
structure Rect (R : Type) [LinearOrder R] where
  min : Point R
  max : Point R
  le_x : min.x ≤ max.x
  le_y : min.y ≤ max.y

namespace Rect

variable {R : Type} [LinearOrder R]

/-- The constructor puts the coordinates of the two points in order. -/
def set (p1 p2 : Point R) : Rect R where
  min := ⟨if p1.x < p2.x then p1.x else p2.x, if p1.y < p2.y then p1.y else p2.y⟩
  max := ⟨if p1.x < p2.x then p2.x else p1.x, if p1.y < p2.y then p2.y else p1.y⟩
  le_x := by
    by_cases h : p1.x < p2.x
    · simpa [h] using le_of_lt h
    · simpa [h] using le_of_not_gt h
  le_y := by
    by_cases h : p1.y < p2.y
    · simpa [h] using le_of_lt h
    · simpa [h] using le_of_not_gt h

def intersects (extent r : Rect R) : Bool :=
  extent.min.x < r.max.x ∧ extent.min.y < r.max.y ∧ extent.max.x > r.min.x ∧
    extent.max.y > r.min.y

end Rect

structure GameObject (R : Type) [LinearOrder R] where
  mLastQueryId : U32
  extent : Rect R
  mObjectTypeMask : U32

def BucketRowCount : ℤ := 16

/-- The database and the objects. How often an object was added and not removed is kept besides. -/
structure GridDatabase (ο R : Type) [LinearOrder R] where
  mQueryId : U32
  mBuckets : ℤ → ℤ → List ο
  objects : ο → GameObject R
  copies : ο → ℕ

namespace GridDatabase

variable {ο R : Type} [DecidableEq ο] [LinearOrder R]

/-- The objects have not been found by any query. -/
def start (extent : ο → Rect R) (mObjectTypeMask : ο → U32) : GridDatabase ο R :=
  ⟨0, fun _ _ => [], fun o => ⟨0, extent o, mObjectTypeMask o⟩, fun _ => 0⟩

/-- The values of a loop variable from `low` up to `high`. -/
def loopRange (low high : ℤ) : List ℤ :=
  (List.range (high + 1 - low).toNat).map fun i : ℕ => low + i

/-- The cells of a rectangle, column by column, for a map from coordinates to cells. -/
def cells (cell : R → ℤ) (extents : Rect R) : List (ℤ × ℤ) :=
  loopRange (cell extents.min.x) (cell extents.max.x) ×ˢ
    loopRange (cell extents.min.y) (cell extents.max.y)

/-- The mask takes the low bits of a number in two's complement. -/
def bucketOf (c : ℤ × ℤ) : ℤ × ℤ := (c.1 % BucketRowCount, c.2 % BucketRowCount)

/-- Change one bucket. -/
def setBucket (mBuckets : ℤ → ℤ → List ο) (b : ℤ × ℤ) (entries : List ο) : ℤ → ℤ → List ο :=
  Function.update mBuckets b.1 (Function.update (mBuckets b.1) b.2 entries)

def setObject (s : GridDatabase ο R) (o : ο) (object : GameObject R) : GridDatabase ο R :=
  { s with objects := Function.update s.objects o object }

/-- A new entry comes first in the bucket. -/
def addEntry (o : ο) (mBuckets : ℤ → ℤ → List ο) (c : ℤ × ℤ) : ℤ → ℤ → List ο :=
  let b := bucketOf c
  setBucket mBuckets b (o :: mBuckets b.1 b.2)

/-- The first entry of the object is unlinked. -/
def removeEntry (o : ο) (mBuckets : ℤ → ℤ → List ο) (c : ℤ × ℤ) : ℤ → ℤ → List ο :=
  let b := bucketOf c
  setBucket mBuckets b ((mBuckets b.1 b.2).erase o)

variable (cell : R → ℤ)

def addToExtents (s : GridDatabase ο R) (o : ο) (extents : Rect R) : GridDatabase ο R :=
  { s with
    mBuckets := (cells cell extents).foldl (addEntry o) s.mBuckets
    copies := Function.update s.copies o (s.copies o + 1) }

def removeFromExtents (s : GridDatabase ο R) (o : ο) (extents : Rect R) : GridDatabase ο R :=
  { s with
    mBuckets := (cells cell extents).foldl (removeEntry o) s.mBuckets
    copies := Function.update s.copies o (s.copies o - 1) }

/-- Look at one entry of a bucket. -/
def visit (typeMask mQueryId : U32) (extents : Rect R) (r : (ο → GameObject R) × List ο) (o : ο) :
    (ο → GameObject R) × List ο :=
  let theObject := r.1 o
  if theObject.mLastQueryId ≠ mQueryId ∧ theObject.extent.intersects extents ∧
      theObject.mObjectTypeMask &&& typeMask ≠ 0 then
    (Function.update r.1 o { theObject with mLastQueryId := mQueryId }, r.2 ++ [o])
  else r

def findObjects (s : GridDatabase ο R) (typeMask : U32) (fillVector : List ο) (extents : Rect R) :
    GridDatabase ο R × List ο :=
  let mQueryId := s.mQueryId + 1
  let r := (cells cell extents).foldl (fun r c =>
    (s.mBuckets (bucketOf c).1 (bucketOf c).2).foldl (visit typeMask mQueryId extents) r)
    (s.objects, fillVector)
  ({ s with mQueryId := mQueryId, objects := r.1 }, r.2)

/-- An object that is not in the database can be made anew, and its extent can change. -/
inductive Action (ο R : Type) [LinearOrder R] where
  | construct (o : ο) (extent : Rect R) (mObjectTypeMask : U32)
  | setExtent (o : ο) (extent : Rect R)
  | setTypeMask (o : ο) (mObjectTypeMask : U32)
  | addToExtents (o : ο) (extents : Rect R)
  | removeFromExtents (o : ο) (extents : Rect R)
  | findObjects (typeMask : U32) (extents : Rect R)

def Action.isQuery : Action ο R → Bool
  | .findObjects _ _ => true
  | _ => false

def step (s : GridDatabase ο R) : Action ο R → Option (GridDatabase ο R)
  | .construct o extent mObjectTypeMask => some (s.setObject o ⟨0, extent, mObjectTypeMask⟩)
  | .setExtent o extent => some (s.setObject o { s.objects o with extent := extent })
  | .setTypeMask o mObjectTypeMask =>
    some (s.setObject o { s.objects o with mObjectTypeMask := mObjectTypeMask })
  | .addToExtents o extents => some (s.addToExtents cell o extents)
  | .removeFromExtents o extents => some (s.removeFromExtents cell o extents)
  | .findObjects typeMask extents => some (s.findObjects cell typeMask [] extents).1

/-- An object is added with its extent, which stays until it is removed with it. -/
def Allowed (s : GridDatabase ο R) : Action ο R → Prop
  | .construct o _ _ => s.copies o = 0
  | .setExtent o _ => s.copies o = 0
  | .addToExtents o extents => extents = (s.objects o).extent
  | .removeFromExtents o extents => extents = (s.objects o).extent
  | _ => True

/-- An object stands in a bucket as often as it has cells there, and no query has marked an object with
an id that is still to come. -/
structure Sound (s : GridDatabase ο R) : Prop where
  counted : ∀ b o, (s.mBuckets b.1 b.2).count o =
    s.copies o * (cells cell (s.objects o).extent).countP fun c => bucketOf c = b
  marked : ∀ o, (s.objects o).mLastQueryId ≤ s.mQueryId

variable {cell} {s s' : GridDatabase ο R} {o : ο} {extents : Rect R}

/-! ### Entries of buckets -/

omit [DecidableEq ο] in
theorem setBucket_apply (mBuckets : ℤ → ℤ → List ο) (b d : ℤ × ℤ) (entries : List ο) :
    setBucket mBuckets b entries d.1 d.2 = if d = b then entries else mBuckets d.1 d.2 := by
  rw [setBucket]
  by_cases hx : d.1 = b.1
  · by_cases hy : d.2 = b.2
    · simp [Prod.ext hx hy]
    · have hne : d ≠ b := fun h => hy (congrArg Prod.snd h)
      rw [if_neg hne, hx, Function.update_self, Function.update_of_ne hy]
  · have hne : d ≠ b := fun h => hx (congrArg Prod.fst h)
    rw [if_neg hne, Function.update_of_ne hx]

theorem count_addEntries (o p : ο) (mBuckets : ℤ → ℤ → List ο) (cs : List (ℤ × ℤ)) (b : ℤ × ℤ) :
    (cs.foldl (addEntry o) mBuckets b.1 b.2).count p =
      (mBuckets b.1 b.2).count p + if p = o then cs.countP (fun c => bucketOf c = b) else 0 := by
  induction cs generalizing mBuckets with
  | nil => simp
  | cons c cs ih =>
    rw [List.foldl_cons, ih, addEntry, setBucket_apply, List.countP_cons]
    by_cases hb : b = bucketOf c
    · subst hb
      by_cases hp : p = o
      · subst hp
        simp
        omega
      · simp [hp, Ne.symm hp]
    · simp [hb, Ne.symm hb]

theorem count_removeEntries (o p : ο) (mBuckets : ℤ → ℤ → List ο) (cs : List (ℤ × ℤ))
    (b : ℤ × ℤ) :
    (cs.foldl (removeEntry o) mBuckets b.1 b.2).count p =
      (mBuckets b.1 b.2).count p - if p = o then cs.countP (fun c => bucketOf c = b) else 0 := by
  induction cs generalizing mBuckets with
  | nil => simp
  | cons c cs ih =>
    rw [List.foldl_cons, ih, removeEntry, setBucket_apply, List.countP_cons]
    by_cases hb : b = bucketOf c
    · subst hb
      by_cases hp : p = o
      · subst hp
        simp
        omega
      · simp [hp, List.count_erase_of_ne hp]
    · simp [hb, Ne.symm hb]

theorem mem_loopRange {low high x : ℤ} : x ∈ loopRange low high ↔ low ≤ x ∧ x ≤ high := by
  rw [loopRange, List.mem_map]
  constructor
  · rintro ⟨i, hi, rfl⟩
    rw [List.mem_range] at hi
    omega
  · rintro ⟨hlow, hhigh⟩
    refine ⟨(x - low).toNat, ?_, ?_⟩
    · rw [List.mem_range]
      omega
    · omega

theorem mem_cells {c : ℤ × ℤ} : c ∈ cells cell extents ↔
    (cell extents.min.x ≤ c.1 ∧ c.1 ≤ cell extents.max.x) ∧
      cell extents.min.y ≤ c.2 ∧ c.2 ≤ cell extents.max.y := by
  obtain ⟨x, y⟩ := c
  rw [cells, List.mem_product, mem_loopRange, mem_loopRange]

/-- Rectangles that intersect have a cell in common. -/
theorem common_cell (hcell : Monotone cell) {r : Rect R} (h : extents.intersects r) :
    ∃ c, c ∈ cells cell extents ∧ c ∈ cells cell r := by
  obtain ⟨hx, hy, hx', hy'⟩ := of_decide_eq_true h
  have hleft := hcell (le_of_lt hx)
  have hright := hcell (le_of_lt hx')
  have hlow := hcell (le_of_lt hy)
  have hhigh := hcell (le_of_lt hy')
  have hextents := hcell extents.le_x
  have hextents' := hcell extents.le_y
  have hr := hcell r.le_x
  have hr' := hcell r.le_y
  refine ⟨(max (cell extents.min.x) (cell r.min.x), max (cell extents.min.y) (cell r.min.y)),
    ?_, ?_⟩
  · rw [mem_cells]
    omega
  · rw [mem_cells]
    omega

/-! ### What a query finds -/

/-- The object is one that the query asks for. -/
def Wanted (typeMask : U32) (extents : Rect R) (object : GameObject R) : Prop :=
  object.extent.intersects extents ∧ object.mObjectTypeMask &&& typeMask ≠ 0

/-- What has been found after some entries. Exactly the objects that were found carry the id. -/
structure Found (objects : ο → GameObject R) (typeMask mQueryId : U32) (extents : Rect R)
    (fillVector : List ο) (entries : List ο) (r : (ο → GameObject R) × List ο) : Prop where
  fill : ∃ found, r.2 = fillVector ++ found ∧ found.Nodup ∧
    (∀ o, o ∈ found ↔ o ∈ entries ∧ Wanted typeMask extents (objects o)) ∧
    ∀ o, r.1 o = if o ∈ found then { objects o with mLastQueryId := mQueryId } else objects o

variable {objects : ο → GameObject R} {typeMask mQueryId : U32} {fillVector entries : List ο}
  {r : (ο → GameObject R) × List ο}

theorem Found.visit (h : Found objects typeMask mQueryId extents fillVector entries r)
    (hfresh : (objects o).mLastQueryId ≠ mQueryId) :
    Found objects typeMask mQueryId extents fillVector (entries ++ [o])
      (visit typeMask mQueryId extents r o) := by
  obtain ⟨found, hfill, hnodup, hmem, hobjects⟩ := h.fill
  rw [GridDatabase.visit]
  by_cases hfound : o ∈ found
  · -- it carries the id already
    have hmarked : (r.1 o).mLastQueryId = mQueryId := by rw [hobjects, if_pos hfound]
    rw [if_neg (fun habs => habs.1 hmarked)]
    refine ⟨found, hfill, hnodup, ?_, hobjects⟩
    intro p
    rw [hmem, List.mem_append, List.mem_singleton]
    constructor
    · exact fun hp => ⟨.inl hp.1, hp.2⟩
    · rintro ⟨hp | rfl, hwanted⟩
      · exact ⟨hp, hwanted⟩
      · exact (hmem p).mp hfound
  · have hsame : r.1 o = objects o := by rw [hobjects, if_neg hfound]
    rw [hsame]
    by_cases hwanted : Wanted typeMask extents (objects o)
    · rw [if_pos ⟨hfresh, hwanted⟩]
      refine ⟨found ++ [o], ?_, ?_, ?_, ?_⟩
      · rw [hfill, List.append_assoc]
      · exact List.nodup_append.mpr ⟨hnodup, List.nodup_cons.mpr ⟨List.not_mem_nil,
          List.nodup_nil⟩, by grind⟩
      · intro p
        rw [List.mem_append, List.mem_singleton, hmem, List.mem_append, List.mem_singleton]
        constructor
        · rintro (hp | rfl)
          · exact ⟨.inl hp.1, hp.2⟩
          · exact ⟨.inr rfl, hwanted⟩
        · rintro ⟨hp | rfl, hpwanted⟩
          · exact .inl ⟨hp, hpwanted⟩
          · exact .inr rfl
      · intro p
        dsimp only
        by_cases hp : p = o
        · subst hp
          simp
        · rw [Function.update_of_ne hp, hobjects]
          simp [hp]
    · rw [if_neg (fun habs => hwanted habs.2)]
      refine ⟨found, hfill, hnodup, ?_, hobjects⟩
      intro p
      rw [hmem, List.mem_append, List.mem_singleton]
      constructor
      · exact fun hp => ⟨.inl hp.1, hp.2⟩
      · rintro ⟨hp | rfl, hpwanted⟩
        · exact ⟨hp, hpwanted⟩
        · exact absurd hpwanted hwanted

theorem Found.foldl (hfresh : ∀ o, (objects o).mLastQueryId ≠ mQueryId)
    (h : Found objects typeMask mQueryId extents fillVector entries r) (more : List ο) :
    Found objects typeMask mQueryId extents fillVector (entries ++ more)
      (more.foldl (GridDatabase.visit typeMask mQueryId extents) r) := by
  induction more generalizing entries r with
  | nil =>
    rw [List.append_nil]
    exact h
  | cons o more ih =>
    have hnext := ih (h.visit (hfresh o))
    rw [List.append_assoc, List.singleton_append] at hnext
    exact hnext

theorem found_cells (hfresh : ∀ o, (objects o).mLastQueryId ≠ mQueryId)
    (mBuckets : ℤ → ℤ → List ο) (cs : List (ℤ × ℤ)) :
    Found objects typeMask mQueryId extents fillVector
      (cs.flatMap fun c => mBuckets (bucketOf c).1 (bucketOf c).2)
      (cs.foldl (fun r c => (mBuckets (bucketOf c).1 (bucketOf c).2).foldl
        (visit typeMask mQueryId extents) r) (objects, fillVector)) := by
  have hstart : Found objects typeMask mQueryId extents fillVector [] (objects, fillVector) :=
    ⟨[], (List.append_nil _).symm, List.nodup_nil, by simp, by simp⟩
  have hall := hstart.foldl hfresh
    (cs.flatMap fun c => mBuckets (bucketOf c).1 (bucketOf c).2)
  rw [List.foldl_flatMap, List.nil_append] at hall
  exact hall

/-! ### Steps -/

theorem Sound.mem_bucket (h : s.Sound cell) {b : ℤ × ℤ} :
    o ∈ s.mBuckets b.1 b.2 ↔
      0 < s.copies o ∧ ∃ c ∈ cells cell (s.objects o).extent, bucketOf c = b := by
  rw [← List.count_pos_iff, h.counted, CanonicallyOrderedAdd.mul_pos, List.countP_pos_iff]
  simp only [decide_eq_true_eq]

theorem sound_start (extent : ο → Rect R) (mObjectTypeMask : ο → U32) :
    (start extent mObjectTypeMask).Sound cell where
  counted b o := by
    rw [start]
    simp
  marked o := BitVec.le_refl _

@[simp]
theorem setObject_objects (object : GameObject R) (p : ο) :
    (s.setObject o object).objects p = if p = o then object else s.objects p := by
  rw [setObject]
  by_cases hp : p = o
  · subst hp
    simp
  · simp [hp]

/-- An object with no entries can change as it likes, any other one but for its extent. -/
theorem Sound.setObject (h : s.Sound cell) {object : GameObject R}
    (hextent : s.copies o = 0 ∨ object.extent = (s.objects o).extent)
    (hmarked : object.mLastQueryId ≤ s.mQueryId) : (s.setObject o object).Sound cell where
  counted b p := by
    rw [setObject_objects]
    by_cases hp : p = o
    · subst hp
      rw [if_pos rfl]
      cases hextent with
      | inl hnone =>
        have hcount := h.counted b p
        rw [hnone, Nat.zero_mul] at hcount
        change (s.mBuckets b.1 b.2).count p = s.copies p * _
        rw [hcount, hnone, Nat.zero_mul]
      | inr hsame =>
        rw [hsame]
        exact h.counted b p
    · rw [if_neg hp]
      exact h.counted b p
  marked p := by
    rw [setObject_objects]
    by_cases hp : p = o
    · rw [if_pos hp]
      exact hmarked
    · rw [if_neg hp]
      exact h.marked p

theorem Sound.addToExtents (h : s.Sound cell) (o : ο) :
    (s.addToExtents cell o (s.objects o).extent).Sound cell where
  counted b p := by
    change ((cells cell (s.objects o).extent).foldl (addEntry o) s.mBuckets b.1 b.2).count p =
      Function.update s.copies o (s.copies o + 1) p * _
    rw [count_addEntries, h.counted]
    by_cases hp : p = o
    · subst hp
      rw [if_pos rfl, Function.update_self, Nat.add_mul, Nat.one_mul]
      rfl
    · rw [if_neg hp, Function.update_of_ne hp]
      rfl
  marked := h.marked

theorem Sound.removeFromExtents (h : s.Sound cell) (o : ο) :
    (s.removeFromExtents cell o (s.objects o).extent).Sound cell where
  counted b p := by
    change ((cells cell (s.objects o).extent).foldl (removeEntry o) s.mBuckets b.1 b.2).count p =
      Function.update s.copies o (s.copies o - 1) p * _
    rw [count_removeEntries, h.counted]
    by_cases hp : p = o
    · subst hp
      rw [if_pos rfl, Function.update_self, Nat.sub_mul, Nat.one_mul]
      rfl
    · rw [if_neg hp, Function.update_of_ne hp]
      rfl
  marked := h.marked

/-! ### Queries -/

theorem Sound.fresh (h : s.Sound cell) (hid : s.mQueryId.toNat + 1 < 2 ^ 32) (o : ο) :
    (s.objects o).mLastQueryId ≠ s.mQueryId + 1 := by
  have hmarked := h.marked o
  intro heq
  rw [heq] at hmarked
  bv_omega

/-- The entries that a query looks at. -/
def visited (cell : R → ℤ) (s : GridDatabase ο R) (extents : Rect R) : List ο :=
  (cells cell extents).flatMap fun c => s.mBuckets (bucketOf c).1 (bucketOf c).2

theorem Sound.findObjects_found (h : s.Sound cell) (hid : s.mQueryId.toNat + 1 < 2 ^ 32)
    (typeMask : U32) (fillVector : List ο) (extents : Rect R) :
    Found s.objects typeMask (s.mQueryId + 1) extents fillVector (s.visited cell extents)
      ((s.findObjects cell typeMask fillVector extents).1.objects,
        (s.findObjects cell typeMask fillVector extents).2) :=
  found_cells (h.fresh hid) s.mBuckets (cells cell extents)

/-- An object that a query wants stands in a bucket that the query looks at. -/
theorem Sound.mem_visited (hcell : Monotone cell) (h : s.Sound cell)
    (hwanted : Wanted typeMask extents (s.objects o)) :
    o ∈ s.visited cell extents ↔ 0 < s.copies o := by
  rw [visited, List.mem_flatMap]
  constructor
  · rintro ⟨c, -, hmem⟩
    exact (h.mem_bucket.mp hmem).1
  · intro hcopies
    obtain ⟨c, hown, hquery⟩ := common_cell hcell hwanted.1
    exact ⟨c, hquery, h.mem_bucket.mpr ⟨hcopies, c, hown, rfl⟩⟩

theorem Sound.findObjects (h : s.Sound cell) (hid : s.mQueryId.toNat + 1 < 2 ^ 32)
    (typeMask : U32) (fillVector : List ο) (extents : Rect R) :
    (s.findObjects cell typeMask fillVector extents).1.Sound cell := by
  obtain ⟨found, -, -, -, hobjects⟩ :=
    (h.findObjects_found hid typeMask fillVector extents).fill
  dsimp only at hobjects
  constructor
  · intro b o
    rw [hobjects]
    by_cases hfound : o ∈ found
    · rw [if_pos hfound]
      exact h.counted b o
    · rw [if_neg hfound]
      exact h.counted b o
  · intro o
    rw [hobjects]
    change _ ≤ s.mQueryId + 1
    by_cases hfound : o ∈ found
    · rw [if_pos hfound]
      exact BitVec.le_refl _
    · rw [if_neg hfound]
      have hmarked := h.marked o
      bv_omega

theorem Sound.step (h : s.Sound cell) {a : Action ο R}
    (hid : a.isQuery → s.mQueryId.toNat + 1 < 2 ^ 32)
    (hallowed : s.Allowed a) (hstep : s.step cell a = some s') : s'.Sound cell := by
  cases a with
  | construct o extent mObjectTypeMask =>
    cases hstep
    exact h.setObject (.inl hallowed) (Nat.zero_le _)
  | setExtent o extent =>
    cases hstep
    exact h.setObject (.inl hallowed) (h.marked o)
  | setTypeMask o mObjectTypeMask =>
    cases hstep
    exact h.setObject (.inr rfl) (h.marked o)
  | addToExtents o extents =>
    cases hstep
    rw [show extents = (s.objects o).extent from hallowed]
    exact h.addToExtents o
  | removeFromExtents o extents =>
    cases hstep
    rw [show extents = (s.objects o).extent from hallowed]
    exact h.removeFromExtents o
  | findObjects typeMask extents =>
    cases hstep
    exact h.findObjects (hid rfl) typeMask [] extents

/-- The id counts the queries. -/
theorem mQueryId_step {a : Action ο R} (hstep : s.step cell a = some s') :
    s'.mQueryId = if a.isQuery then s.mQueryId + 1 else s.mQueryId := by
  cases a with
  | findObjects typeMask extents =>
    cases hstep
    rfl
  | _ =>
    cases hstep
    rfl

/-- While the ids do not wrap, every state of a run is sound. -/
theorem Sound.run (h : s.Sound cell) {actions : List (Action ο R)}
    (hrun : Run (GridDatabase.step cell) Allowed s actions s')
    (hqueries : s.mQueryId.toNat + actions.countP Action.isQuery < 2 ^ 32) :
    s'.Sound cell ∧ s'.mQueryId.toNat = s.mQueryId.toNat + actions.countP Action.isQuery := by
  induction hrun with
  | nil s => exact ⟨h, rfl⟩
  | @cons s t u a actions allowed taken rest ih =>
    have hnext := mQueryId_step taken
    rw [List.countP_cons] at hqueries ⊢
    by_cases hquery : a.isQuery
    · rw [if_pos hquery] at hqueries hnext ⊢
      have hid : t.mQueryId.toNat = s.mQueryId.toNat + 1 := by
        rw [hnext]
        bv_omega
      have hsound : t.Sound cell := h.step (fun _ => by omega) allowed taken
      have hrest := ih hsound (by omega)
      exact ⟨hrest.1, by omega⟩
    · rw [if_neg hquery] at hqueries hnext ⊢
      have hsound : t.Sound cell := h.step (fun habs => absurd habs hquery) allowed taken
      have hrest := ih hsound (by rw [hnext]; omega)
      rw [hnext] at hrest
      exact ⟨hrest.1, by omega⟩

/-- A query after any history with fewer than 2 ^ 32 queries, itself included. -/
theorem findObjects_exact (hcell : Monotone cell) {extent : ο → Rect R}
    {mObjectTypeMask : ο → U32} {actions : List (Action ο R)}
    (hrun : Run (step cell) Allowed (start extent mObjectTypeMask) actions s)
    (hqueries : actions.countP Action.isQuery + 1 < 2 ^ 32)
    (typeMask : U32) (fillVector : List ο) (extents : Rect R) :
    ∃ found, (s.findObjects cell typeMask fillVector extents).2 = fillVector ++ found ∧
      found.Nodup ∧ ∀ o, o ∈ found ↔ 0 < s.copies o ∧
        (s.objects o).extent.intersects extents ∧
          (s.objects o).mObjectTypeMask &&& typeMask ≠ 0 := by
  have hzero : (start extent mObjectTypeMask).mQueryId.toNat = 0 := rfl
  obtain ⟨hsound, hid⟩ := (sound_start extent mObjectTypeMask).run hrun (by omega)
  obtain ⟨found, hfill, hnodup, hmem, -⟩ :=
    (hsound.findObjects_found (by omega) typeMask fillVector extents).fill
  refine ⟨found, hfill, hnodup, ?_⟩
  intro o
  rw [hmem]
  constructor
  · rintro ⟨hvisited, hwanted⟩
    exact ⟨(hsound.mem_visited hcell hwanted).mp hvisited, hwanted⟩
  · rintro ⟨hcopies, hwanted⟩
    exact ⟨(hsound.mem_visited hcell hwanted).mpr hcopies, hwanted⟩

/-- The first object goes once round the buckets of a row and shares one with the second. -/
def extentOf (o : Bool) : Rect ℤ :=
  if o then Rect.set ⟨0, 0⟩ ⟨5000, 10⟩ else Rect.set ⟨10, 10⟩ ⟨20, 20⟩

def twoObjects : GridDatabase Bool ℤ :=
  ((start extentOf fun _ => 1).addToExtents (·.tdiv 256) true (extentOf true)).addToExtents
    (·.tdiv 256) false (extentOf false)

theorem run_twoObjects :
    Run (step (·.tdiv 256)) Allowed (start extentOf fun _ => 1)
      [.addToExtents true (extentOf true), .addToExtents false (extentOf false)] twoObjects :=
  .cons rfl rfl (.cons rfl rfl (.nil _))

theorem findObjects_exact_twoObjects :
    (twoObjects.findObjects (·.tdiv 256) 1 [] (Rect.set ⟨4150, 0⟩ ⟨4200, 30⟩)).2 = [true] ∧
      ∃ found, (twoObjects.findObjects (·.tdiv 256) 1 []
          (Rect.set ⟨4150, 0⟩ ⟨4200, 30⟩)).2 = [] ++ found ∧ found.Nodup ∧
        ∀ o, o ∈ found ↔ 0 < twoObjects.copies o ∧
          (twoObjects.objects o).extent.intersects (Rect.set ⟨4150, 0⟩ ⟨4200, 30⟩) ∧
            (twoObjects.objects o).mObjectTypeMask &&& 1 ≠ 0 :=
  ⟨by decide +kernel, findObjects_exact (fun _ _ h => Int.tdiv_le_tdiv (by decide) h)
    run_twoObjects (by decide) 1 [] _⟩

end GridDatabase

end TNL
