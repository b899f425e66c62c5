import TNL.Library.PagedMemory
import TNL.Library.Run

/-!
# Chunked allocation

A chunker gives out the bytes of its pages one behind the other. Page numbers stand for the
addresses that `new` returns, and every page has the size it was made with. Signed sums wrap
around. The elements of a class are kept in such pages, and a freed element holds the link to
the one that was freed before it.
-/
namespace TNL
open Library

abbrev S32 := BitVec 32

structure DataBlock where
  data : ℕ
  curIndex : S32

/-- The list of pages from `curBlock` on. -/
structure DataChunker where
  blocks : List DataBlock
  chunkSize : S32

/-- The sizes of the pages that have been made, and their number. -/
structure PageTable where
  sizes : ℕ → S32
  next : ℕ

structure Pointer where
  page : ℕ
  offset : S32
  deriving DecidableEq

def PageTable.newBlock (pages : PageTable) (size : S32) : DataBlock × PageTable :=
  (⟨pages.next, 0⟩, ⟨Function.update pages.sizes pages.next size, pages.next + 1⟩)

namespace DataChunker

def construct (pages : PageTable) (size : S32) : DataChunker × PageTable :=
  let (curBlock, pages) := pages.newBlock size
  (⟨[curBlock], size⟩, pages)

/-- The page that is allocated from, in front of the list. -/
def curPage (pages : PageTable) (c : DataChunker) (size : S32) :
    DataBlock × List DataBlock × PageTable :=
  match c.blocks with
  | curBlock :: rest =>
    if c.chunkSize.slt (size + curBlock.curIndex) then
      let (temp, pages) := pages.newBlock c.chunkSize
      (temp, curBlock :: rest, pages)
    else (curBlock, rest, pages)
  | [] =>
    let (temp, pages) := pages.newBlock c.chunkSize
    (temp, [], pages)

def alloc (pages : PageTable) (c : DataChunker) (size : S32) : Pointer × DataChunker × PageTable :=
  let (curBlock, rest, pages) := c.curPage pages size
  let ret : Pointer := ⟨curBlock.data, curBlock.curIndex⟩
  let curBlock := { curBlock with curIndex := curBlock.curIndex + ((size + 3) &&& ~~~3#32) }
  (ret, { c with blocks := curBlock :: rest }, pages)

def freeBlocks (c : DataChunker) : DataChunker := { c with blocks := [] }

/-- The chunkers keep their sizes. -/
def swap (c d : DataChunker) : DataChunker × DataChunker :=
  ({ c with blocks := d.blocks }, { d with blocks := c.blocks })

end DataChunker

section align

variable {size index : S32}

theorem and_not_three (y : S32) : y &&& ~~~3#32 = (y >>> 2) <<< 2 := by
  have hthree : ∀ i < 32, (3#32).getLsbD i = decide (i < 2) := by decide
  apply BitVec.eq_of_getLsbD_eq
  intro i hi
  rw [BitVec.getLsbD_and, BitVec.getLsbD_not, BitVec.getLsbD_shiftLeft,
    BitVec.getLsbD_ushiftRight, hthree i hi]
  by_cases h : i < 2
  · simp [h]
  · simp [h, hi, Nat.add_sub_cancel' (Nat.not_lt.mp h)]

theorem toNat_and_not_three (y : S32) : (y &&& ~~~3#32).toNat = y.toNat / 4 * 4 := by
  have hlt := y.isLt
  rw [and_not_three, BitVec.toNat_shiftLeft, BitVec.toNat_ushiftRight,
    Nat.shiftRight_eq_div_pow, Nat.shiftLeft_eq]
  omega

/-- An index that is moved is behind what has been given out, or has run over. -/
theorem moved_index (hsize : 0 ≤ size.toInt) (hindex : 0 ≤ index.toInt)
    (hfits : index.toInt + size.toInt < 2147483648) :
    (index + ((size + 3) &&& ~~~3#32)).toInt < 0 ∨
      index.toInt + size.toInt ≤ (index + ((size + 3) &&& ~~~3#32)).toInt := by
  have hmoved : (index + ((size + 3) &&& ~~~3#32)).toNat =
      (index.toNat + (size + 3).toNat / 4 * 4) % 2 ^ 32 := by
    rw [BitVec.toNat_add, toNat_and_not_three]
  have hplus : (size + 3).toNat = (size.toNat + 3) % 2 ^ 32 := BitVec.toNat_add ..
  generalize index + ((size + 3) &&& ~~~3#32) = moved at hmoved ⊢
  have hmovedint := BitVec.toInt_eq_toNat_cond moved
  have hindexint := BitVec.toInt_eq_toNat_cond index
  have hsizeint := BitVec.toInt_eq_toNat_cond size
  have hmovedlt := moved.isLt
  have hindexlt := index.isLt
  have hsizelt := size.isLt
  split at hmovedint <;> split at hindexint <;> split at hsizeint <;> omega

theorem toInt_lt (x : S32) : x.toInt < 2147483648 := by
  have hint := BitVec.toInt_eq_toNat_cond x
  have hlt := x.isLt
  split at hint <;> omega

end align

def DataBlock.toOwnedPage (b : DataBlock) : OwnedPage := ⟨b.data, b.curIndex.toInt⟩

def Pointer.range (p : Pointer) (size : S32) : MemoryRange := ⟨p.page, p.offset.toInt, size.toInt⟩

/-- The pages of some owners, with the ranges that are live. -/
def PageTable.paging {κ : Type*} (pages : PageTable) (blocks : κ → List DataBlock)
    (live : List (κ × MemoryRange)) : Paging κ where
  blocks k := (blocks k).map DataBlock.toOwnedPage
  size page := (pages.sizes page).toInt
  next := pages.next
  live := live

/-- If the current page is taken, then the request fits behind its index, which has not run over. -/
def DataChunker.Fits (pages : PageTable) (c : DataChunker) (size : S32) : Prop :=
  match c.blocks with
  | [] => True
  | curBlock :: _ => c.chunkSize.slt (size + curBlock.curIndex) = false →
      0 ≤ curBlock.curIndex.toInt ∧
        curBlock.curIndex.toInt + size.toInt ≤ (pages.sizes curBlock.data).toInt

section paging

variable {κ : Type*} {pages : PageTable} {blocks : κ → List DataBlock}
  {live : List (κ × MemoryRange)} {k : κ} {c : DataChunker} {size : S32}

/-- The current page is the first of the list, or a new one in front of it. -/
theorem curPage_cases (pages : PageTable) (c : DataChunker) (size : S32) :
    (∃ curBlock rest, c.blocks = curBlock :: rest ∧
      c.chunkSize.slt (size + curBlock.curIndex) = false ∧
      c.curPage pages size = (curBlock, rest, pages)) ∨
    c.Fits pages size ∧ c.curPage pages size =
      ((pages.newBlock c.chunkSize).1, c.blocks, (pages.newBlock c.chunkSize).2) := by
  rw [DataChunker.curPage, DataChunker.Fits]
  cases hblocks : c.blocks with
  | nil => exact .inr ⟨trivial, rfl⟩
  | cons curBlock rest =>
    dsimp only
    cases hfull : c.chunkSize.slt (size + curBlock.curIndex) with
    | false => exact .inl ⟨curBlock, rest, rfl, hfull, rfl⟩
    | true =>
      refine .inr ⟨fun htaken => ?_, rfl⟩
      cases htaken

/-- What has been allocated is in its page only if the request fits. -/
theorem fits_of_safe {blocks' : κ → List DataBlock}
    (h : ((c.alloc pages size).2.2.paging blocks'
      ((k, (c.alloc pages size).1.range size) :: live)).Safe) : c.Fits pages size := by
  rcases curPage_cases pages c size with ⟨curBlock, rest, hlist, htaken, hcur⟩ | ⟨hfits, -⟩
  · rw [DataChunker.alloc, hcur] at h
    obtain ⟨-, -, -, hpos, hle⟩ := h.owned _ List.mem_cons_self
    rw [DataChunker.Fits, hlist]
    exact fun _ => ⟨hpos, hle⟩
  · exact hfits

variable [DecidableEq κ]

theorem paging_newBlock (pages : PageTable) (blocks : κ → List DataBlock)
    (live : List (κ × MemoryRange)) (k : κ) (size : S32) :
    (pages.newBlock size).2.paging
        (Function.update blocks k ((pages.newBlock size).1 :: blocks k)) live =
      (pages.paging blocks live).newPage k size.toInt := by
  rw [PageTable.paging, Paging.newPage]
  congr 1
  · funext l
    by_cases hl : l = k
    · subst hl
      rw [Function.update_self, Function.update_self]
      rfl
    · rw [Function.update_of_ne hl, Function.update_of_ne hl]
      rfl
  · funext page
    by_cases hpage : page = pages.next
    · subst hpage
      change (Function.update pages.sizes pages.next size pages.next).toInt =
        Function.update (fun page => (pages.sizes page).toInt) pages.next size.toInt pages.next
      rw [Function.update_self, Function.update_self]
    · change (Function.update pages.sizes pages.next size page).toInt =
        Function.update (fun page => (pages.sizes page).toInt) pages.next size.toInt page
      rw [Function.update_of_ne hpage, Function.update_of_ne hpage]

theorem paging_place (pages : PageTable) (blocks : κ → List DataBlock)
    (live : List (κ × MemoryRange)) (k : κ) (curBlock : DataBlock) (rest : List DataBlock)
    (size index : S32) :
    pages.paging (Function.update blocks k ({ curBlock with curIndex := index } :: rest))
        ((k, Pointer.range ⟨curBlock.data, curBlock.curIndex⟩ size) :: live) =
      (pages.paging blocks live).place k curBlock.toOwnedPage (rest.map DataBlock.toOwnedPage)
        size.toInt index.toInt := by
  rw [PageTable.paging, Paging.place]
  congr 1
  funext l
  by_cases hl : l = k
  · subst hl
    rw [Function.update_self, Function.update_self]
    rfl
  · rw [Function.update_of_ne hl, Function.update_of_ne hl]
    rfl

theorem sound_place {curBlock : DataBlock} {rest : List DataBlock}
    (h : (pages.paging blocks live).Sound) (hblocks : blocks k = curBlock :: rest)
    (hsize : 0 ≤ size.toInt) (hpos : 0 ≤ curBlock.curIndex.toInt)
    (hfits : curBlock.curIndex.toInt + size.toInt ≤ (pages.sizes curBlock.data).toInt) :
    (pages.paging (Function.update blocks k
        ({ curBlock with curIndex := curBlock.curIndex + ((size + 3) &&& ~~~3#32) } :: rest))
      ((k, Pointer.range ⟨curBlock.data, curBlock.curIndex⟩ size) :: live)).Sound := by
  have hpage := toInt_lt (pages.sizes curBlock.data)
  rw [paging_place]
  refine h.place ?_ hpos hfits hsize (moved_index hsize hpos (by omega))
  change (blocks k).map DataBlock.toOwnedPage = _
  rw [hblocks]
  rfl

theorem sound_alloc (h : (pages.paging blocks live).Sound) (hblocks : blocks k = c.blocks)
    (hsize : 0 ≤ size.toInt) (hrequest : size.toInt ≤ c.chunkSize.toInt)
    (hfits : c.Fits pages size) :
    ((c.alloc pages size).2.2.paging (Function.update blocks k (c.alloc pages size).2.1.blocks)
      ((k, (c.alloc pages size).1.range size) :: live)).Sound := by
  rw [DataChunker.alloc]
  rcases curPage_cases pages c size with ⟨curBlock, rest, hlist, htaken, hcur⟩ | ⟨-, hcur⟩
  · rw [hcur]
    rw [DataChunker.Fits, hlist] at hfits
    obtain ⟨hpos, hle⟩ := hfits htaken
    exact sound_place h (hblocks.trans hlist) hsize hpos hle
  · rw [hcur]
    have hnew := h.newPage k c.chunkSize.toInt
    rw [← paging_newBlock, hblocks] at hnew
    have hstart : (0 : S32).toInt = 0 := by decide
    have hfitsNew : (0 : S32).toInt + size.toInt ≤
        (Function.update pages.sizes pages.next c.chunkSize pages.next).toInt := by
      rw [Function.update_self, hstart, Int.zero_add]
      exact hrequest
    have hplaced := sound_place hnew (Function.update_self ..) hsize (Int.le_of_eq hstart.symm)
      hfitsNew
    rw [Function.update_idem] at hplaced
    exact hplaced

end paging

section chunkers

variable {κ : Type*}

/-- Chunkers, and what has been allocated with them and not been freed since. -/
structure Chunkers (κ : Type*) where
  pages : PageTable
  chunkers : κ → Option DataChunker
  live : List (κ × MemoryRange)

namespace Chunkers

def start : Chunkers κ := ⟨⟨fun _ => 0, 0⟩, fun _ => none, []⟩

inductive Action (κ : Type*) where
  | construct (k : κ) (size : S32)
  | alloc (k : κ) (size : S32)
  | freeBlocks (k : κ)
  | swap (k l : κ)

/-- The pages that a chunker owns, with the indices in them. -/
def blocks (s : Chunkers κ) (k : κ) : List DataBlock :=
  match s.chunkers k with
  | none => []
  | some c => c.blocks

def paging (s : Chunkers κ) : Paging κ := s.pages.paging s.blocks s.live

/-- Pages have a size, and a request is for no more than the size of a page. -/
def Requested (s : Chunkers κ) : Action κ → Prop
  | .construct _ size => 0 ≤ size.toInt
  | .alloc k size => 0 ≤ size.toInt ∧ ∀ c ∈ s.chunkers k, size.toInt ≤ c.chunkSize.toInt
  | _ => True

/-- A request that is served from the current page fits into it. -/
def Fits (s : Chunkers κ) : Action κ → Prop
  | .alloc k size => ∀ c ∈ s.chunkers k, c.Fits s.pages size
  | _ => True

variable {s s' : Chunkers κ} {k l : κ} {a : Action κ}

theorem blocks_of_some {c : DataChunker} (h : s.chunkers k = some c) : s.blocks k = c.blocks := by
  rw [blocks, h]

theorem start_sound : (start : Chunkers κ).paging.Sound :=
  .of_blocks_nil (fun _ => rfl) rfl

variable [DecidableEq κ]

/-- What has been allocated goes with the pages. -/
def step (s : Chunkers κ) : Action κ → Option (Chunkers κ)
  | .construct k size =>
    match s.chunkers k with
    | some _ => none
    | none =>
      let (c, pages) := DataChunker.construct s.pages size
      some { s with pages := pages, chunkers := Function.update s.chunkers k (some c) }
  | .alloc k size =>
    (s.chunkers k).map fun c =>
      let (ret, c, pages) := c.alloc s.pages size
      { pages := pages
        chunkers := Function.update s.chunkers k (some c)
        live := (k, ret.range size) :: s.live }
  | .freeBlocks k =>
    (s.chunkers k).map fun c =>
      { s with
        chunkers := Function.update s.chunkers k (some c.freeBlocks)
        live := s.live.filter (·.1 ≠ k) }
  | .swap k l =>
    (s.chunkers k).bind fun c => (s.chunkers l).map fun d =>
      let (c, d) := c.swap d
      { s with
        chunkers := Function.update (Function.update s.chunkers k (some c)) l (some d)
        live := s.live.map fun r => (Equiv.swap k l r.1, r.2) }

/-- The live ranges are apart, and each is in a page of the chunker that holds it. -/
def StepSafe (s : Chunkers κ) (a : Action κ) : Prop := ∀ s', s.step a = some s' → s'.paging.Safe

theorem paging_update (s : Chunkers κ) (pages : PageTable) (live : List (κ × MemoryRange))
    (c : DataChunker) (k : κ) :
    paging ⟨pages, Function.update s.chunkers k (some c), live⟩ =
      pages.paging (Function.update s.blocks k c.blocks) live := by
  rw [paging]
  congr 1
  funext l
  by_cases hl : l = k
  · subst hl
    rw [Function.update_self]
    exact blocks_of_some (Function.update_self ..)
  · rw [Function.update_of_ne hl, blocks, blocks]
    dsimp only
    rw [Function.update_of_ne hl]

theorem sound_construct (h : s.paging.Sound) {size : S32}
    (hstep : s.step (.construct k size) = some s') : s'.paging.Sound := by
  rw [step] at hstep
  cases hk : s.chunkers k with
  | some c =>
    rw [hk] at hstep
    cases hstep
  | none =>
    rw [hk] at hstep
    obtain rfl := Option.some.inj hstep
    have hblocks : s.blocks k = [] := by rw [blocks, hk]
    have hnew := h.newPage k size.toInt
    rw [paging, ← paging_newBlock, hblocks] at hnew
    rw [paging_update]
    exact hnew

theorem sound_allocStep (h : s.paging.Sound) {size : S32} (hrequest : s.Requested (.alloc k size))
    (hfits : s.Fits (.alloc k size)) (hstep : s.step (.alloc k size) = some s') :
    s'.paging.Sound := by
  obtain ⟨c, hc, rfl⟩ := Option.map_eq_some_iff.mp hstep
  rw [paging_update]
  exact sound_alloc h (blocks_of_some hc) hrequest.1 (hrequest.2 c hc) (hfits c hc)

theorem sound_freeBlocks (h : s.paging.Sound) (hstep : s.step (.freeBlocks k) = some s') :
    s'.paging.Sound := by
  obtain ⟨c, hc, rfl⟩ := Option.map_eq_some_iff.mp hstep
  have hreleased : (s.pages.paging (Function.update s.blocks k []) (s.live.filter (·.1 ≠ k))) =
      s.paging.release k := by
    rw [paging, PageTable.paging, Paging.release]
    congr 1
    funext l
    by_cases hl : l = k
    · subst hl
      rw [Function.update_self, Function.update_self]
      rfl
    · rw [Function.update_of_ne hl, Function.update_of_ne hl]
      rfl
  rw [paging_update]
  exact hreleased ▸ h.release k

theorem sound_swap (h : s.paging.Sound) (hstep : s.step (.swap k l) = some s') :
    s'.paging.Sound := by
  obtain ⟨c, hc, hstep⟩ := Option.bind_eq_some_iff.mp hstep
  obtain ⟨d, hd, rfl⟩ := Option.map_eq_some_iff.mp hstep
  have hpermuted : paging ⟨s.pages, Function.update (Function.update s.chunkers k
      (some (c.swap d).1)) l (some (c.swap d).2), s.live.map fun r => (Equiv.swap k l r.1, r.2)⟩ =
      s.paging.permute (Equiv.swap k l) := by
    rw [paging, PageTable.paging, Paging.permute]
    congr 1
    funext l'
    apply congrArg (List.map DataBlock.toOwnedPage)
    rw [Equiv.symm_swap, blocks]
    dsimp only
    by_cases hl : l' = l
    · subst hl
      rw [Function.update_self, Equiv.swap_apply_right, blocks_of_some hc]
      rfl
    · rw [Function.update_of_ne hl]
      by_cases hk : l' = k
      · subst hk
        rw [Function.update_self, Equiv.swap_apply_left, blocks_of_some hd]
        rfl
      · rw [Function.update_of_ne hk, Equiv.swap_apply_of_ne_of_ne hk hl]
        rfl
  exact hpermuted ▸ h.permute (Equiv.swap k l)

theorem step_sound (h : s.paging.Sound) (hrequest : s.Requested a) (hfits : s.Fits a)
    (hstep : s.step a = some s') : s'.paging.Sound := by
  cases a with
  | construct k size => exact sound_construct h hstep
  | alloc k size => exact sound_allocStep h hrequest hfits hstep
  | freeBlocks k => exact sound_freeBlocks h hstep
  | swap k l => exact sound_swap h hstep

/-- A step keeps the live ranges in their pages just when its request fits. -/
theorem stepSafe_iff (h : s.paging.Sound) (hrequest : s.Requested a) :
    s.StepSafe a ↔ s.Fits a := by
  constructor
  · intro hsafe
    cases a with
    | alloc k size =>
      intro c hc
      have hstep : s.step (.alloc k size) = some _ := Option.map_eq_some_iff.mpr ⟨c, hc, rfl⟩
      exact fits_of_safe (hsafe _ hstep)
    | construct k size => trivial
    | freeBlocks k => trivial
    | swap k l => trivial
  · intro hfits s' hstep
    exact (step_sound h hrequest hfits hstep).safe

/-- A run keeps the live ranges in their pages just when its requests fit. -/
theorem run_safe_iff {as : List (Action κ)} {s : Chunkers κ} :
    Run step (fun s a => s.Requested a ∧ s.StepSafe a) start as s ↔
      Run step (fun s a => s.Requested a ∧ s.Fits a) start as s := by
  refine Run.congr_of_invariant (I := fun s => s.paging.Sound) ?_ ?_ start_sound
  · exact fun s a s' hs _ => and_congr_right fun hrequest => stepSafe_iff hs hrequest
  · rintro s a s' hs ⟨hrequest, hfits⟩ hstep
    exact step_sound hs hrequest hfits hstep

end Chunkers

end chunkers

end TNL
