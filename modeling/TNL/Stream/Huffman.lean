import TNL.Stream.BitStream

/-!
# The Huffman tables

`buildTables` merges the two least frequent trees until one is left. The tables
of nodes and leaves are a tree; the code of a leaf is the path to it, so reading
it leads back to its character, whatever follows.
-/
namespace TNL

inductive HuffTree where
  | leaf (symbol : UInt8)
  | node (index0 index1 : HuffTree)
  deriving DecidableEq

namespace HuffTree

/-- The characters with their codes, as `generateCodes` visits the leaves. -/
def generateCodes : HuffTree → List (UInt8 × List Bool)
  | leaf symbol => [(symbol, [])]
  | node index0 index1 =>
    index0.generateCodes.map (fun c => (c.1, false :: c.2)) ++
      index1.generateCodes.map (fun c => (c.1, true :: c.2))

/-- The code of a character. -/
def code (tree : HuffTree) (symbol : UInt8) : List Bool :=
  (tree.generateCodes.lookup symbol).getD []

/-- Follow flags of the stream down to a leaf. -/
def readSymbol : HuffTree → BitStream → UInt8 × BitStream
  | leaf symbol, s => (symbol, s)
  | node index0 index1, s =>
    let (flag, s) := s.readFlag
    if flag then index1.readSymbol s else index0.readSymbol s

/-- The characters at the leaves. -/
def symbols : HuffTree → List UInt8
  | leaf symbol => [symbol]
  | node index0 index1 => index0.symbols ++ index1.symbols

theorem map_fst_generateCodes (tree : HuffTree) :
    tree.generateCodes.map Prod.fst = tree.symbols := by
  induction tree with
  | leaf symbol => rfl
  | node index0 index1 ih₀ ih₁ =>
    rw [generateCodes, symbols, ← ih₀, ← ih₁, List.map_append, List.map_map, List.map_map]
    rfl

/-- Every character at a leaf has a path to it for a code. -/
theorem code_mem {tree : HuffTree} {symbol : UInt8} (h : symbol ∈ tree.symbols) :
    (symbol, tree.code symbol) ∈ tree.generateCodes := by
  rw [← map_fst_generateCodes] at h
  obtain ⟨⟨symbol, path⟩, hmem, rfl⟩ := List.mem_map.mp h
  cases hcode : tree.generateCodes.lookup symbol with
  | none => exact absurd (List.lookup_eq_none_iff.mp hcode _ hmem) (by simp)
  | some found =>
    obtain ⟨before, after, heq, -⟩ := List.lookup_eq_some_iff.mp hcode
    rw [code, hcode, heq]
    exact List.mem_append_right _ List.mem_cons_self

/-- Following the code of a character leads to it. -/
theorem readSymbol_ahead {tree : HuffTree} {symbol : UInt8} {path more : List Bool}
    (h : (symbol, path) ∈ tree.generateCodes) {s : BitStream} (hs : s.Ahead (path ++ more)) :
    tree.readSymbol s = (symbol, s.advanceBitPosition path.length) := by
  induction tree generalizing path s with
  | leaf =>
    obtain ⟨rfl, rfl⟩ := Prod.mk.inj (List.mem_singleton.mp h)
    rfl
  | node index0 index1 ih₀ ih₁ =>
    have hstep : ∀ b rest, path = b :: rest →
        (if b then index1 else index0).readSymbol (s.advanceBitPosition 1) =
          (symbol, (s.advanceBitPosition 1).advanceBitPosition rest.length) →
        (node index0 index1).readSymbol s = (symbol, s.advanceBitPosition path.length) := by
      rintro b rest rfl hrest
      rw [readSymbol, hs.readFlag]
      have hpos : (s.advanceBitPosition 1).advanceBitPosition rest.length =
          s.advanceBitPosition (b :: rest).length := by
        rw [List.length_cons, Nat.add_comm rest.length,
          BitStream.advanceBitPosition_advanceBitPosition]
      cases b
      · exact hrest.trans (congrArg _ hpos)
      · exact hrest.trans (congrArg _ hpos)
    rcases List.mem_append.mp h with h | h
    · obtain ⟨⟨symbol', rest⟩, hmem, heq⟩ := List.mem_map.mp h
      obtain ⟨rfl, rfl⟩ := Prod.mk.inj heq
      exact hstep false rest rfl (ih₀ hmem hs.tail)
    · obtain ⟨⟨symbol', rest⟩, hmem, heq⟩ := List.mem_map.mp h
      obtain ⟨rfl, rfl⟩ := Prod.mk.inj heq
      exact hstep true rest rfl (ih₁ hmem hs.tail)

end HuffTree

namespace HuffmanStringProcessor

def mCharFreqs : List ℕ :=
  [0, 0, 0, 0, 0, 0, 0, 0, 0, 329, 21, 0, 0, 0, 0, 0, 0, 0, 0, 0, 0, 0, 0, 0, 0, 0, 0, 0, 0, 0,
    0, 0, 2809, 68, 0, 27, 0, 58, 3, 62, 4, 7, 0, 0, 15, 65, 554, 3, 394, 404, 189, 117, 30, 51,
    27, 15, 34, 32, 80, 1, 142, 3, 142, 39, 0, 144, 125, 44, 122, 275, 70, 135, 61, 127, 8, 12,
    113, 246, 122, 36, 185, 1, 149, 309, 335, 12, 11, 14, 54, 151, 0, 0, 2, 0, 0, 211, 0, 2090,
    344, 736, 993, 2872, 701, 605, 646, 1552, 328, 305, 1240, 735, 1533, 1713, 562, 3, 1775,
    1149, 1469, 979, 407, 553, 59, 279, 31, 0, 0, 0, 68] ++ List.replicate 129 0

structure HuffWrap where
  pop : ℕ
  tree : HuffTree

/-- The two least populations with their places; the first of equal ones comes first. -/
structure Mins where
  min1 : ℕ
  min2 : ℕ
  index1 : ℕ
  index2 : ℕ

def Mins.visit (m : Mins) (pop i : ℕ) : Mins :=
  if pop < m.min1 then ⟨pop, m.min1, i, m.index1⟩
  else if pop < m.min2 then { m with min2 := pop, index2 := i }
  else m

def findMins : List HuffWrap → ℕ → Mins → Mins
  | [], _, m => m
  | wrap :: wraps, i, m => findMins wraps (i + 1) (m.visit wrap.pop i)

/-- Merge the two least populated trees. -/
def merge (pWrap : List HuffWrap) : List HuffWrap :=
  let m := findMins pWrap 0 ⟨0xfffffffe, 0xffffffff, 0, 0⟩
  match pWrap[m.index1]?, pWrap[m.index2]?, pWrap[pWrap.length - 1]? with
  | some wrap1, some wrap2, some last =>
    let rNode : HuffWrap := ⟨wrap1.pop + wrap2.pop, .node wrap1.tree wrap2.tree⟩
    let mergeIndex := min m.index1 m.index2
    let nukeIndex := max m.index1 m.index2
    let pWrap := pWrap.set mergeIndex rNode
    let pWrap := if m.index2 = pWrap.length - 1 then pWrap else pWrap.set nukeIndex last
    pWrap.dropLast
  | _, _, _ => pWrap

def mergeAll : ℕ → List HuffWrap → List HuffWrap
  | 0, pWrap => pWrap
  | currWraps + 1, pWrap => mergeAll currWraps (merge pWrap)

/-- The tree of the characters with these frequencies. -/
def buildTables (freqs : List ℕ) : HuffTree :=
  let pWrap := freqs.zipIdx.map (fun f => ⟨f.1 + 1, .leaf (UInt8.ofNat f.2)⟩)
  match mergeAll (pWrap.length - 1) pWrap with
  | wrap :: _ => wrap.tree
  | [] => .leaf 0

end HuffmanStringProcessor

end TNL
