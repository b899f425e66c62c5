import TNL.Core.DataChunker

/-!
# Elements of a class in chunks

An element that is freed holds, in its first bytes, the pointer to the one that was freed before
it. `links` is the pointer that the first bytes of an element spell: an element that is not freed
holds what its owner puts there.
-/
namespace TNL
open Library

structure ClassChunker where
  base : DataChunker
  numAllocated : S32
  elementSize : S32
  freeListHead : Option Pointer

namespace ClassChunker

/-- `sizeofT` is the size of an element, and pointers have eight bytes. -/
def construct (pages : PageTable) (sizeofT : BitVec 32) (size : S32) : ClassChunker × PageTable :=
  let (base, pages) := DataChunker.construct pages size
  (⟨base, 0, if 8#32 < sizeofT then sizeofT else 8#32, none⟩, pages)

def alloc (pages : PageTable) (links : Pointer → Option Pointer) (c : ClassChunker) :
    Pointer × ClassChunker × PageTable :=
  let c := { c with numAllocated := c.numAllocated + 1 }
  match c.freeListHead with
  | none =>
    let (ret, base, pages) := c.base.alloc pages c.elementSize
    (ret, { c with base := base }, pages)
  | some ret => (ret, { c with freeListHead := links ret }, pages)

def free (links : Pointer → Option Pointer) (c : ClassChunker) (elem : Pointer) :
    ClassChunker × (Pointer → Option Pointer) :=
  let c := { c with numAllocated := c.numAllocated - 1 }
  ({ c with freeListHead := some elem }, Function.update links elem c.freeListHead)

def freeBlocks (c : ClassChunker) : ClassChunker := { c with base := c.base.freeBlocks }

variable {pages : PageTable} {links : Pointer → Option Pointer} {c : ClassChunker}

theorem alloc_of_none (h : c.freeListHead = none) :
    c.alloc pages links = ((c.base.alloc pages c.elementSize).1,
      ⟨(c.base.alloc pages c.elementSize).2.1, c.numAllocated + 1, c.elementSize, none⟩,
      (c.base.alloc pages c.elementSize).2.2) := by
  rw [alloc, h]

theorem alloc_of_some {p : Pointer} (h : c.freeListHead = some p) :
    c.alloc pages links = (p, ⟨c.base, c.numAllocated + 1, c.elementSize, links p⟩, pages) := by
  rw [alloc, h]

end ClassChunker

/-- The elements from a link on, each linked to the one behind it, and the last to none. -/
def Linked (links : Pointer → Option Pointer) : Option Pointer → List Pointer → Prop
  | head, [] => head = none
  | head, p :: freed => head = some p ∧ Linked links (links p) freed

theorem Linked.update {links : Pointer → Option Pointer} {head : Option Pointer} {p : Pointer}
    {freed : List Pointer} (h : Linked links head freed) (hp : p ∉ freed) (link : Option Pointer) :
    Linked (Function.update links p link) head freed := by
  induction freed generalizing head with
  | nil => exact h
  | cons q freed ih =>
    rw [List.mem_cons, not_or] at hp
    refine ⟨h.1, ?_⟩
    rw [Function.update_of_ne (Ne.symm hp.1)]
    exact ih h.2 hp.2

/-- A chunker, the memory, and the elements that have been allocated and not been freed since. -/
structure ClassMemory where
  pages : PageTable
  links : Pointer → Option Pointer
  chunker : ClassChunker
  live : List Pointer

namespace ClassMemory

/-- What new memory holds is arbitrary. -/
def start (links : Pointer → Option Pointer) (sizeofT : BitVec 32) (size : S32) : ClassMemory :=
  let (chunker, pages) := ClassChunker.construct ⟨fun _ => 0, 0⟩ sizeofT size
  ⟨pages, links, chunker, []⟩

inductive Action where
  | alloc (contents : Option Pointer)
  | write (elem : Pointer) (contents : Option Pointer)
  | free (elem : Pointer)
  | freeBlocks

/-- Only live elements are written to and freed. -/
def step (s : ClassMemory) : Action → Option ClassMemory
  | .alloc contents =>
    let (ret, chunker, pages) := s.chunker.alloc s.pages s.links
    some ⟨pages, Function.update s.links ret contents, chunker, ret :: s.live⟩
  | .write elem contents =>
    if elem ∈ s.live then some { s with links := Function.update s.links elem contents } else none
  | .free elem =>
    if elem ∈ s.live then
      let (chunker, links) := s.chunker.free s.links elem
      some { s with links := links, chunker := chunker, live := s.live.erase elem }
    else none
  | .freeBlocks => some { s with chunker := s.chunker.freeBlocks, live := [] }

/-- The pages of the chunker, with the ranges of some elements. -/
def paging (s : ClassMemory) (elems : List Pointer) : Paging Unit :=
  s.pages.paging (fun _ => s.chunker.base.blocks)
    (elems.map fun p => ((), p.range s.chunker.elementSize))

/-- The live ranges are apart, and each is in a page of the chunker. -/
def StepSafe (s : ClassMemory) (a : Action) : Prop :=
  ∀ s', s.step a = some s' → (s'.paging s'.live).Safe

/-- An element is no larger than a page. -/
def Requested (s : ClassMemory) : Action → Prop
  | .alloc _ => 0 ≤ s.chunker.elementSize.toInt ∧
      s.chunker.elementSize.toInt ≤ s.chunker.base.chunkSize.toInt
  | _ => True

/-- An element from the current page fits into it, and one from the free list is still in a page of
the chunker. -/
def Fits (s : ClassMemory) : Action → Prop
  | .alloc _ =>
    match s.chunker.freeListHead with
    | none => s.chunker.base.Fits s.pages s.chunker.elementSize
    | some p => ∃ b ∈ s.chunker.base.blocks, b.data = p.page
  | _ => True

/-- The freed elements are linked from the head, and they and the live ones are apart. -/
structure Sound (s : ClassMemory) (freed : List Pointer) : Prop where
  linked : Linked s.links s.chunker.freeListHead freed
  paging : (s.paging (s.live ++ freed)).Sound
  size : 8 ≤ s.chunker.elementSize.toNat
  positive : s.live ≠ [] → 0 < s.chunker.elementSize.toInt

/-- The pages have been freed, and there are still elements in the free list. -/
structure Stale (s : ClassMemory) : Prop where
  blocks : s.chunker.base.blocks = []
  live : s.live = []
  head : s.chunker.freeListHead ≠ none

def Kept (s : ClassMemory) : Prop := (∃ freed, s.Sound freed) ∨ s.Stale

variable {s s' : ClassMemory} {a : Action} {elem : Pointer} {freed : List Pointer}
  {contents : Option Pointer}

theorem update_unit {α : Type*} (x y : α) : Function.update (fun _ : Unit => x) () y = fun _ => y :=
  funext fun _ => Function.update_self ..

theorem start_sound (links : Pointer → Option Pointer) (sizeofT : BitVec 32) (size : S32) :
    (start links sizeofT size).Sound [] := by
  have hempty : (PageTable.paging ⟨fun _ => 0, 0⟩ (fun _ : Unit => []) []).Sound :=
    .of_blocks_nil (fun _ => rfl) rfl
  have hnew := hempty.newPage () size.toInt
  rw [← paging_newBlock, update_unit] at hnew
  refine ⟨rfl, hnew, ?_, fun hlive => absurd rfl hlive⟩
  change 8 ≤ (if 8#32 < sizeofT then sizeofT else 8#32).toNat
  split_ifs with hlt
  · exact Nat.le_of_lt hlt
  · exact Nat.le_refl 8

theorem elementSize_pos (hsize : 8 ≤ s.chunker.elementSize.toNat)
    (hnonneg : 0 ≤ s.chunker.elementSize.toInt) : 0 < s.chunker.elementSize.toInt := by
  have hint := BitVec.toInt_eq_toNat_cond s.chunker.elementSize
  split at hint <;> omega

/-- Elements that are apart are not the same. -/
theorem ne_of_apart {size : S32} (hpos : 0 < size.toInt) {p q : Pointer}
    (h : (p.range size).Apart (q.range size)) : p ≠ q := by
  rintro rfl
  exact MemoryRange.not_apart_self hpos h

theorem apart_elements {elems : List Pointer} (h : (s.paging elems).Sound) :
    elems.Pairwise fun p q =>
      (p.range s.chunker.elementSize).Apart (q.range s.chunker.elementSize) := by
  have hlive : (elems.map fun p => ((), p.range s.chunker.elementSize)).Pairwise
      fun a b => a.2.Apart b.2 := h.apart
  rwa [List.pairwise_map] at hlive

/-- A live element is not in the free list. -/
theorem Sound.notMem_freed (h : s.Sound freed) (helem : elem ∈ s.live) : elem ∉ freed := by
  intro hfreed
  have hpos := h.positive (List.ne_nil_of_mem helem)
  have hcross := (List.pairwise_append.mp (apart_elements h.paging)).2.2
  exact ne_of_apart hpos (hcross elem helem elem hfreed) rfl

theorem Sound.perm {elems elems' : List Pointer} (h : (s.paging elems).Sound)
    (hperm : elems'.Perm elems) : (s.paging elems').Sound :=
  Paging.Sound.perm h (hperm.map _)

/-- The live elements of a sound state are safe. -/
theorem Sound.safe (h : s.Sound freed) : (s.paging s.live).Safe :=
  (Paging.Sound.sublist h.paging ((List.sublist_append_left s.live freed).map _)).safe

theorem Sound.write (h : s.Sound freed) (hstep : s.step (.write elem contents) = some s') :
    s'.Sound freed := by
  obtain ⟨helem, heq⟩ := Option.ite_none_right_eq_some.mp hstep
  obtain rfl := Option.some.inj heq
  exact ⟨h.linked.update (h.notMem_freed helem) contents, h.paging, h.size, h.positive⟩

theorem Sound.free (h : s.Sound freed) (hstep : s.step (.free elem) = some s') :
    s'.Sound (elem :: freed) := by
  obtain ⟨helem, heq⟩ := Option.ite_none_right_eq_some.mp hstep
  obtain rfl := Option.some.inj heq
  have hperm : (s.live.erase elem ++ elem :: freed).Perm (s.live ++ freed) :=
    List.perm_middle.trans ((List.perm_cons_erase helem).symm.append_right freed)
  refine ⟨⟨rfl, ?_⟩, Sound.perm h.paging hperm, h.size, fun _ =>
    h.positive (List.ne_nil_of_mem helem)⟩
  change Linked (Function.update s.links elem _) (Function.update s.links elem _ elem) freed
  rw [Function.update_self]
  exact h.linked.update (h.notMem_freed helem) _

theorem Sound.freeBlocks (h : s.Sound freed) (hstep : s.step .freeBlocks = some s') : s'.Kept := by
  obtain rfl := Option.some.inj hstep
  cases hhead : s.chunker.freeListHead with
  | none =>
    exact .inl ⟨[], hhead, .of_blocks_nil (fun _ => rfl) rfl, h.size,
      fun hlive => absurd rfl hlive⟩
  | some p =>
    refine .inr ⟨rfl, rfl, ?_⟩
    change s.chunker.freeListHead ≠ none
    rw [hhead]
    exact Option.some_ne_none p

theorem step_alloc {ret : Pointer} {chunker : ClassChunker} {pages : PageTable}
    (h : s.chunker.alloc s.pages s.links = (ret, chunker, pages)) (contents : Option Pointer) :
    s.step (.alloc contents) =
      some ⟨pages, Function.update s.links ret contents, chunker, ret :: s.live⟩ := by
  rw [step, h]

theorem Sound.alloc (h : s.Sound freed) (hrequest : s.Requested (.alloc contents))
    (hfits : s.Fits (.alloc contents)) (hstep : s.step (.alloc contents) = some s') :
    ∃ freed', s'.Sound freed' := by
  have hpos := elementSize_pos h.size hrequest.1
  have hlinked := h.linked
  rw [Fits] at hfits
  cases hhead : s.chunker.freeListHead with
  | none =>
    rw [hhead] at hlinked hfits
    rw [step_alloc (ClassChunker.alloc_of_none hhead)] at hstep
    obtain rfl := Option.some.inj hstep
    cases freed with
    | cons p freed => cases hlinked.1
    | nil =>
      have hpaging := h.paging
      rw [List.append_nil] at hpaging
      have halloc := sound_alloc (k := ()) (c := s.chunker.base) hpaging rfl hrequest.1 hrequest.2
        hfits
      rw [update_unit] at halloc
      refine ⟨[], rfl, ?_, h.size, fun _ => hpos⟩
      rw [List.append_nil]
      exact halloc
  | some p =>
    rw [hhead] at hlinked
    rw [step_alloc (ClassChunker.alloc_of_some hhead)] at hstep
    obtain rfl := Option.some.inj hstep
    cases freed with
    | nil => cases hlinked
    | cons q freed =>
      obtain ⟨hq, hrest⟩ := hlinked
      obtain rfl := Option.some.inj hq
      have hp : p ∉ freed := by
        intro hin
        have hapart := (List.pairwise_append.mp (apart_elements h.paging)).2.1
        exact ne_of_apart hpos ((List.pairwise_cons.mp hapart).1 p hin) rfl
      exact ⟨freed, hrest.update hp contents, Sound.perm h.paging List.perm_middle.symm, h.size,
        fun _ => hpos⟩

theorem Stale.not_alloc (h : s.Stale) : ¬ s.Fits (.alloc contents) := by
  rw [Fits]
  cases hhead : s.chunker.freeListHead with
  | none => exact absurd hhead h.head
  | some p =>
    rintro ⟨b, hb, -⟩
    rw [h.blocks] at hb
    cases hb

theorem Stale.step (h : s.Stale) (hfits : s.Fits a) (hstep : s.step a = some s') : s'.Stale := by
  have hnot : ∀ p, p ∉ s.live := fun p hp => by
    rw [h.live] at hp
    cases hp
  cases a with
  | alloc contents => exact absurd hfits h.not_alloc
  | write elem contents => exact absurd (Option.ite_none_right_eq_some.mp hstep).1 (hnot elem)
  | free elem => exact absurd (Option.ite_none_right_eq_some.mp hstep).1 (hnot elem)
  | freeBlocks =>
    obtain rfl := Option.some.inj hstep
    exact ⟨rfl, rfl, h.head⟩

theorem Kept.step (h : s.Kept) (hrequest : s.Requested a) (hfits : s.Fits a)
    (hstep : s.step a = some s') : s'.Kept := by
  rcases h with ⟨freed, hsound⟩ | hstale
  · cases a with
    | alloc contents => exact .inl (hsound.alloc hrequest hfits hstep)
    | write elem contents => exact .inl ⟨freed, hsound.write hstep⟩
    | free elem => exact .inl ⟨elem :: freed, hsound.free hstep⟩
    | freeBlocks => exact hsound.freeBlocks hstep
  · exact .inr (hstale.step hfits hstep)

theorem Kept.safe (h : s.Kept) : (s.paging s.live).Safe := by
  rcases h with ⟨freed, hsound⟩ | hstale
  · exact hsound.safe
  · rw [hstale.live]
    exact ⟨.nil, fun r hr => by cases hr⟩

/-- An element that does not fit is not in a page of the chunker when it has been allocated. -/
theorem fits_of_stepSafe (hsafe : s.StepSafe (.alloc contents)) : s.Fits (.alloc contents) := by
  rw [Fits]
  cases hhead : s.chunker.freeListHead with
  | none => exact fits_of_safe (hsafe _ (step_alloc (ClassChunker.alloc_of_none hhead) contents))
  | some p =>
    have hafter := hsafe _ (step_alloc (ClassChunker.alloc_of_some hhead) contents)
    obtain ⟨b, hb, hpage, -⟩ := hafter.owned _ List.mem_cons_self
    obtain ⟨c, hc, rfl⟩ := List.mem_map.mp hb
    exact ⟨c, hc, hpage⟩

theorem stepSafe_iff (h : s.Kept) (hrequest : s.Requested a) : s.StepSafe a ↔ s.Fits a := by
  constructor
  · intro hsafe
    cases a with
    | alloc contents => exact fits_of_stepSafe hsafe
    | write elem contents => trivial
    | free elem => trivial
    | freeBlocks => trivial
  · intro hfits s' hstep
    exact (h.step hrequest hfits hstep).safe

theorem run_safe_iff {links : Pointer → Option Pointer} {sizeofT : BitVec 32} {size : S32}
    {as : List Action} {s : ClassMemory} :
    Run step (fun s a => s.Requested a ∧ s.StepSafe a) (start links sizeofT size) as s ↔
      Run step (fun s a => s.Requested a ∧ s.Fits a) (start links sizeofT size) as s := by
  refine Run.congr_of_invariant (I := Kept) ?_ ?_ (.inl ⟨[], start_sound links sizeofT size⟩)
  · exact fun s a s' hs _ => and_congr_right fun hrequest => stepSafe_iff hs hrequest
  · rintro s a s' hs ⟨hrequest, hfits⟩ hstep
    exact hs.step hrequest hfits hstep

end ClassMemory

/-- Chunkers of raw memory and of elements keep what is live apart and in their own pages just as
long as what is taken from a current page fits into that page, and what is taken from a free list
is still in a page of the chunker. -/
theorem chunks_safe_iff {κ : Type*} [DecidableEq κ] (as : List (Chunkers.Action κ))
    (s : Chunkers κ) (links : Pointer → Option Pointer) (sizeofT : BitVec 32) (size : S32)
    (bs : List ClassMemory.Action) (t : ClassMemory) :
    (Run Chunkers.step (fun s a => s.Requested a ∧ s.StepSafe a) .start as s ↔
      Run Chunkers.step (fun s a => s.Requested a ∧ s.Fits a) .start as s) ∧
    (Run ClassMemory.step (fun t b => t.Requested b ∧ t.StepSafe b)
        (.start links sizeofT size) bs t ↔
      Run ClassMemory.step (fun t b => t.Requested b ∧ t.Fits b)
        (.start links sizeofT size) bs t) :=
  ⟨Chunkers.run_safe_iff, ClassMemory.run_safe_iff⟩

/-- A chunker with pages of a hundred bytes takes over a page of eight in a swap, and gives out
fifty bytes of it. An element is taken from the free list after its page has been freed. -/
theorem swapped_page_overrun :
    (¬ ∀ (as : List (Chunkers.Action Bool)) (s : Chunkers Bool),
      Run Chunkers.step Chunkers.Requested .start as s →
        Run Chunkers.step (fun s a => s.Requested a ∧ s.StepSafe a) .start as s) ∧
    ¬ ∀ (as : List ClassMemory.Action) (s : ClassMemory),
      Run ClassMemory.step ClassMemory.Requested (.start (fun _ => none) 12 100) as s →
        Run ClassMemory.step (fun s a => s.Requested a ∧ s.StepSafe a)
          (.start (fun _ => none) 12 100) as s := by
  constructor
  · intro hclaim
    let before : List (Chunkers.Action Bool) :=
      [.construct false 8, .construct true 100, .swap false true]
    have hbefore : ∀ s, ∀ a ∈ before, Chunkers.Requested s a := by
      intro s
      simp [before, Chunkers.Requested]
    have hstates : (exec Chunkers.step .start before).map (fun s =>
        (s.chunkers true, s.pages.sizes 0)) = some (some ⟨[⟨0, 0⟩], 100⟩, 8) := rfl
    obtain ⟨s, hexec, hs⟩ := Option.map_eq_some_iff.mp hstates
    obtain ⟨hchunker, hpage⟩ := Prod.mk.inj hs
    have hrequest : s.Requested (.alloc true 50) := by
      refine ⟨by decide, fun c hc => ?_⟩
      rw [hchunker] at hc
      obtain rfl := Option.some.inj hc
      decide
    obtain ⟨t, hstep⟩ : ∃ t, s.step (.alloc true 50) = some t := by
      rw [Chunkers.step, hchunker]
      exact ⟨_, rfl⟩
    have hrun := hclaim _ _ ((Run.of_exec_of_forall hbefore hexec).snoc hrequest hstep)
    obtain ⟨u, hu, -, hfits⟩ := (Chunkers.run_safe_iff.mp hrun).allowed_at
    obtain rfl := Option.some.inj (hexec.symm.trans hu.exec_eq)
    have hle := (hfits _ hchunker rfl).2
    rw [hpage] at hle
    exact absurd hle (by decide)
  · intro hclaim
    let before : List ClassMemory.Action := [.alloc none, .free ⟨0, 0⟩, .freeBlocks]
    obtain ⟨s, hrun, hblocks, hhead, hrequest⟩ : ∃ s, Run ClassMemory.step ClassMemory.Requested
        (.start (fun _ => none) 12 100) before s ∧ s.chunker.base.blocks = [] ∧
          s.chunker.freeListHead = some ⟨0, 0⟩ ∧ s.Requested (.alloc none) := by
      refine ⟨_, .cons ⟨by decide, by decide⟩ rfl (.cons trivial rfl (.cons trivial rfl (.nil _))),
        rfl, rfl, by decide, by decide⟩
    have hafter := hclaim _ _ (hrun.snoc (a := .alloc none) hrequest rfl)
    obtain ⟨u, hu, -, hfits⟩ := (ClassMemory.run_safe_iff.mp hafter).allowed_at
    obtain rfl := Option.some.inj (hrun.exec_eq.symm.trans hu.exec_eq)
    rw [ClassMemory.Fits, hhead, hblocks] at hfits
    obtain ⟨b, hb, -⟩ := hfits
    cases hb

end TNL
