import Mathlib.Data.List.Perm.Basic
import Mathlib.Data.List.Nodup
import Mathlib.Logic.Equiv.Basic
import Mathlib.Logic.Function.Basic
import Mathlib.Tactic.Common

/-!
# Ranges of memory in pages

Owners hold pages and give out ranges of them one behind the other, up to an index in each page.
An index that has run over is below zero, and nothing is known of it. Pages are numbered, and a
number is not given out again.
-/
namespace TNL.Library

structure MemoryRange where
  page : ℕ
  offset : ℤ
  size : ℤ

namespace MemoryRange

def stop (r : MemoryRange) : ℤ := r.offset + r.size

def Covers (r : MemoryRange) (x : ℤ) : Prop := r.offset ≤ x ∧ x < r.stop

/-- No byte is in both. -/
def Apart (a b : MemoryRange) : Prop := a.page = b.page → ∀ x, ¬ (a.Covers x ∧ b.Covers x)

def Within (r : MemoryRange) (size : ℤ) : Prop := 0 ≤ r.offset ∧ r.stop ≤ size

variable {a b : MemoryRange}

theorem Apart.symm (h : a.Apart b) : b.Apart a := fun hpage x hx => h hpage.symm x hx.symm

theorem apart_of_page_ne (h : a.page ≠ b.page) : a.Apart b := fun hpage => absurd hpage h

theorem apart_of_stop_le (h : b.stop ≤ a.offset) : a.Apart b := by
  rintro - x ⟨ha, hb⟩
  exact Int.not_lt.mpr (Int.le_trans h ha.1) hb.2

/-- Only an empty range is apart from itself. -/
theorem not_apart_self (h : 0 < a.size) : ¬ a.Apart a := by
  intro hself
  have hstart : a.Covers a.offset := ⟨Int.le_refl _, by rw [stop]; omega⟩
  exact hself rfl a.offset ⟨hstart, hstart⟩

end MemoryRange

/-- A page that somebody owns, and the index behind what has been given out of it. -/
structure OwnedPage where
  page : ℕ
  index : ℤ

structure Paging (κ : Type*) where
  blocks : κ → List OwnedPage
  size : ℕ → ℤ
  next : ℕ
  live : List (κ × MemoryRange)

namespace Paging

variable {κ : Type*} {p : Paging κ} {k : κ}

/-- The live ranges are apart, and each is in a page of its owner. -/
structure Safe (p : Paging κ) : Prop where
  apart : p.live.Pairwise fun a b => a.2.Apart b.2
  owned : ∀ r ∈ p.live, ∃ b ∈ p.blocks r.1, b.page = r.2.page ∧ r.2.Within (p.size r.2.page)

/-- No page is owned twice, and an index that has not run over is behind the ranges in its page. -/
structure Sound (p : Paging κ) : Prop where
  known : ∀ k, ∀ b ∈ p.blocks k, b.page < p.next
  once : ∀ k, ((p.blocks k).map OwnedPage.page).Nodup
  owner : ∀ k l, ∀ b ∈ p.blocks k, ∀ c ∈ p.blocks l, b.page = c.page → k = l
  apart : p.live.Pairwise fun a b => a.2.Apart b.2
  owned : ∀ r ∈ p.live, ∃ b ∈ p.blocks r.1, b.page = r.2.page ∧
    r.2.Within (p.size r.2.page) ∧ (b.index < 0 ∨ r.2.stop ≤ b.index)

theorem Sound.safe (h : p.Sound) : p.Safe := by
  refine ⟨h.apart, fun r hr => ?_⟩
  obtain ⟨b, hb, hpage, hwithin, -⟩ := h.owned r hr
  exact ⟨b, hb, hpage, hwithin⟩

theorem Sound.of_blocks_nil (hblocks : ∀ k, p.blocks k = []) (hlive : p.live = []) : p.Sound where
  known k b hb := by
    rw [hblocks] at hb
    cases hb
  once k := by
    rw [hblocks]
    exact List.nodup_nil
  owner k l b hb := by
    rw [hblocks] at hb
    cases hb
  apart := by
    rw [hlive]
    exact .nil
  owned r hr := by
    rw [hlive] at hr
    cases hr

theorem Sound.live_lt (h : p.Sound) {r : κ × MemoryRange} (hr : r ∈ p.live) :
    r.2.page < p.next := by
  obtain ⟨b, hb, hpage, -⟩ := h.owned r hr
  exact hpage ▸ h.known r.1 b hb

/-- The order of the live ranges makes no difference. -/
theorem Sound.perm (h : p.Sound) {live : List (κ × MemoryRange)} (hperm : live.Perm p.live) :
    Sound { p with live := live } where
  known := h.known
  once := h.once
  owner := h.owner
  apart := (hperm.pairwise_iff fun hab => MemoryRange.Apart.symm hab).mpr h.apart
  owned r hr := h.owned r (hperm.mem_iff.mp hr)

theorem Sound.sublist (h : p.Sound) {live : List (κ × MemoryRange)} (hsub : live.Sublist p.live) :
    Sound { p with live := live } where
  known := h.known
  once := h.once
  owner := h.owner
  apart := h.apart.sublist hsub
  owned r hr := h.owned r (hsub.subset hr)

/-- The owners change places, and keep their ranges with the pages. -/
def permute (p : Paging κ) (σ : Equiv.Perm κ) : Paging κ :=
  { p with
    blocks := fun k => p.blocks (σ.symm k)
    live := p.live.map fun r => (σ r.1, r.2) }

theorem Sound.permute (h : p.Sound) (σ : Equiv.Perm κ) : (p.permute σ).Sound := by
  refine ⟨fun k b hb => h.known _ b hb, fun k => h.once _, fun k l b hb c hc hpage => ?_, ?_,
    fun r hr => ?_⟩
  · exact σ.symm.injective (h.owner _ _ b hb c hc hpage)
  · exact List.pairwise_map.mpr h.apart
  · obtain ⟨r', hr', rfl⟩ := List.mem_map.mp hr
    obtain ⟨b, hb, hrest⟩ := h.owned r' hr'
    refine ⟨b, ?_, hrest⟩
    change b ∈ p.blocks (σ.symm (σ r'.1))
    rwa [Equiv.symm_apply_apply]

variable [DecidableEq κ]

/-- A new page in front of the others of its owner, of which nothing has been given out. -/
def newPage (p : Paging κ) (k : κ) (size : ℤ) : Paging κ :=
  { p with
    blocks := Function.update p.blocks k (⟨p.next, 0⟩ :: p.blocks k)
    size := Function.update p.size p.next size
    next := p.next + 1 }

@[simp]
theorem newPage_blocks_self (p : Paging κ) (k : κ) (size : ℤ) :
    (p.newPage k size).blocks k = ⟨p.next, 0⟩ :: p.blocks k :=
  Function.update_self ..

theorem newPage_blocks_of_ne {l : κ} (hl : l ≠ k) (size : ℤ) :
    (p.newPage k size).blocks l = p.blocks l :=
  Function.update_of_ne hl ..

theorem newPage_size_of_ne {page : ℕ} (hpage : page ≠ p.next) (size : ℤ) :
    (p.newPage k size).size page = p.size page :=
  Function.update_of_ne hpage ..

theorem Sound.newPage (h : p.Sound) (k : κ) (size : ℤ) : (p.newPage k size).Sound := by
  have hmem : ∀ l, ∀ b ∈ (p.newPage k size).blocks l, b ∈ p.blocks l ∨ l = k ∧ b = ⟨p.next, 0⟩ := by
    intro l b hb
    by_cases hl : l = k
    · subst hl
      rw [newPage_blocks_self] at hb
      rcases List.mem_cons.mp hb with rfl | hold
      · exact .inr ⟨rfl, rfl⟩
      · exact .inl hold
    · rw [newPage_blocks_of_ne hl] at hb
      exact .inl hb
  have hkept : ∀ l, ∀ b ∈ p.blocks l, b ∈ (p.newPage k size).blocks l := by
    intro l b hb
    by_cases hl : l = k
    · subst hl
      rw [newPage_blocks_self]
      exact List.mem_cons_of_mem _ hb
    · rw [newPage_blocks_of_ne hl]
      exact hb
  refine ⟨fun l b hb => ?_, fun l => ?_, fun l l' b hb c hc hpage => ?_, h.apart, fun r hr => ?_⟩
  · rcases hmem l b hb with hold | ⟨-, rfl⟩
    · exact Nat.lt_succ_of_lt (h.known l b hold)
    · exact Nat.lt_succ_self _
  · by_cases hl : l = k
    · subst hl
      rw [newPage_blocks_self, List.map_cons, List.nodup_cons]
      refine ⟨fun hin => ?_, h.once l⟩
      obtain ⟨b, hb, hpage⟩ := List.mem_map.mp hin
      exact Nat.ne_of_lt (h.known l b hb) hpage
    · rw [newPage_blocks_of_ne hl]
      exact h.once l
  · rcases hmem l b hb with hold | ⟨rfl, rfl⟩
    · rcases hmem l' c hc with hold' | ⟨rfl, rfl⟩
      · exact h.owner l l' b hold c hold' hpage
      · exact absurd hpage (Nat.ne_of_lt (h.known l b hold))
    · rcases hmem l' c hc with hold' | ⟨rfl, rfl⟩
      · exact absurd hpage (Nat.ne_of_gt (h.known l' c hold'))
      · rfl
  · obtain ⟨b, hb, hpage, hwithin, hindex⟩ := h.owned r hr
    refine ⟨b, hkept r.1 b hb, hpage, ?_, hindex⟩
    rw [newPage_size_of_ne (Nat.ne_of_lt (h.live_lt hr))]
    exact hwithin

/-- Give out the next `size` bytes of the page in front, and move its index. -/
def place (p : Paging κ) (k : κ) (b : OwnedPage) (rest : List OwnedPage) (size index : ℤ) :
    Paging κ :=
  { p with
    blocks := Function.update p.blocks k (⟨b.page, index⟩ :: rest)
    live := (k, ⟨b.page, b.index, size⟩) :: p.live }

@[simp]
theorem place_blocks_self (p : Paging κ) (k : κ) (b : OwnedPage) (rest : List OwnedPage)
    (size index : ℤ) : (p.place k b rest size index).blocks k = ⟨b.page, index⟩ :: rest :=
  Function.update_self ..

theorem place_blocks_of_ne {l : κ} (hl : l ≠ k) (b : OwnedPage) (rest : List OwnedPage)
    (size index : ℤ) : (p.place k b rest size index).blocks l = p.blocks l :=
  Function.update_of_ne hl ..

theorem Sound.place (h : p.Sound) {b : OwnedPage} {rest : List OwnedPage} {size index : ℤ}
    (hblocks : p.blocks k = b :: rest) (hpos : 0 ≤ b.index) (hfits : b.index + size ≤ p.size b.page)
    (hsize : 0 ≤ size) (hindex : index < 0 ∨ b.index + size ≤ index) :
    (p.place k b rest size index).Sound := by
  have hpages : ∀ l, ((p.place k b rest size index).blocks l).map OwnedPage.page =
      (p.blocks l).map OwnedPage.page := by
    intro l
    by_cases hl : l = k
    · subst hl
      rw [place_blocks_self, hblocks]
      rfl
    · rw [place_blocks_of_ne hl]
  have hold : ∀ l, ∀ c ∈ (p.place k b rest size index).blocks l,
      ∃ c' ∈ p.blocks l, c'.page = c.page := by
    intro l c hc
    have hmem := List.mem_map_of_mem (f := OwnedPage.page) hc
    rw [hpages] at hmem
    exact List.mem_map.mp hmem
  refine ⟨fun l c hc => ?_, fun l => ?_, fun l l' c hc d hd hpage => ?_, ?_, ?_⟩
  · obtain ⟨c', hc', hpage⟩ := hold l c hc
    exact hpage ▸ h.known l c' hc'
  · rw [hpages]
    exact h.once l
  · obtain ⟨c', hc', hpage'⟩ := hold l c hc
    obtain ⟨d', hd', hpage''⟩ := hold l' d hd
    exact h.owner l l' c' hc' d' hd' (hpage'.trans (hpage.trans hpage''.symm))
  · refine List.pairwise_cons.mpr ⟨fun r hr => ?_, h.apart⟩
    by_cases hpage : r.2.page = b.page
    · obtain ⟨c, hc, hcpage, -, hcindex⟩ := h.owned r hr
      have hb : b ∈ p.blocks k := hblocks ▸ List.mem_cons_self
      have hk : r.1 = k := h.owner r.1 k c hc b hb (hcpage.trans hpage)
      rw [hk] at hc
      have hsame : c = b := List.inj_on_of_nodup_map (h.once k) hc hb (hcpage.trans hpage)
      subst hsame
      apply MemoryRange.apart_of_stop_le
      exact hcindex.resolve_left (Int.not_lt.mpr hpos)
    · exact MemoryRange.apart_of_page_ne fun heq => hpage heq.symm
  · intro r hr
    rcases List.mem_cons.mp hr with rfl | hr
    · refine ⟨⟨b.page, index⟩, ?_, rfl, ⟨hpos, hfits⟩, hindex⟩
      rw [place_blocks_self]
      exact List.mem_cons_self
    · obtain ⟨c, hc, hcpage, hwithin, hcindex⟩ := h.owned r hr
      by_cases hk : r.1 = k
      · rw [hk, hblocks] at hc
        rcases List.mem_cons.mp hc with rfl | hrest
        · refine ⟨⟨c.page, index⟩, ?_, hcpage, hwithin, ?_⟩
          · rw [hk, place_blocks_self]
            exact List.mem_cons_self
          · rcases hindex with hover | hle
            · exact .inl hover
            · have hstop := hcindex.resolve_left (Int.not_lt.mpr hpos)
              have hle' : r.2.stop ≤ index := by omega
              exact .inr hle'
        · refine ⟨c, ?_, hcpage, hwithin, hcindex⟩
          rw [hk, place_blocks_self]
          exact List.mem_cons_of_mem _ hrest
      · refine ⟨c, ?_, hcpage, hwithin, hcindex⟩
        rw [place_blocks_of_ne hk]
        exact hc

/-- An owner gives up its pages, and the ranges in them are not live any more. -/
def release (p : Paging κ) (k : κ) : Paging κ :=
  { p with
    blocks := Function.update p.blocks k []
    live := p.live.filter (·.1 ≠ k) }

@[simp]
theorem release_blocks_self (p : Paging κ) (k : κ) : (p.release k).blocks k = [] :=
  Function.update_self ..

theorem release_blocks_of_ne {l : κ} (hl : l ≠ k) : (p.release k).blocks l = p.blocks l :=
  Function.update_of_ne hl ..

theorem Sound.release (h : p.Sound) (k : κ) : (p.release k).Sound := by
  have hmem : ∀ l, ∀ b ∈ (p.release k).blocks l, b ∈ p.blocks l := by
    intro l b hb
    by_cases hl : l = k
    · rw [hl, release_blocks_self] at hb
      cases hb
    · rwa [release_blocks_of_ne hl] at hb
  refine ⟨fun l b hb => h.known l b (hmem l b hb), fun l => ?_,
    fun l l' b hb c hc => h.owner l l' b (hmem l b hb) c (hmem l' c hc),
    h.apart.sublist List.filter_sublist, fun r hr => ?_⟩
  · by_cases hl : l = k
    · rw [hl, release_blocks_self]
      exact List.nodup_nil
    · rw [release_blocks_of_ne hl]
      exact h.once l
  · obtain ⟨hlive, hk⟩ := List.mem_filter.mp hr
    obtain ⟨b, hb, hrest⟩ := h.owned r hlive
    refine ⟨b, ?_, hrest⟩
    rw [release_blocks_of_ne (by simpa using hk)]
    exact hb

end Paging

end TNL.Library
