import Mathlib.Data.List.Nodup
import TNL.Connection.ClientPuzzle

/-!
# The search for the solution of a client puzzle

A client tries one value after another. A slice of the search ends after a fragment
if too much time has passed since it began, and the next one goes on from the value
that was saved. The readings of the clock are inputs.
-/
namespace TNL.ClientPuzzle
open Library

namespace ClientPuzzleManager

def maxSolutionComputeFragment : U32 := 30
def solutionFragmentIterations : U32 := 50000

/-- Whether the loop over the values of a fragment finds a solution, the value that it stops at and
the values that it tests. -/
def searchFragment (check : U32 → Bool) (nextValue startValue : U32) : Bool × U32 × List U32 :=
  if startValue < nextValue then
    if check startValue then (true, startValue, [startValue])
    else
      let (found, value, tested) := searchFragment check nextValue (startValue + 1)
      (found, value, startValue :: tested)
  else (false, startValue, [])
  termination_by nextValue.toNat - startValue.toNat
  decreasing_by bv_omega

/-- One fragment after another. `readings` are what the clock says after each; while the slice goes
on behind the last of them there is no result. -/
def searchFragments (check : U32 → Bool) (startTime : U32) (readings : List U32)
    (startValue : U32) : Option (Bool × U32 × List U32) :=
  let nextValue := startValue + solutionFragmentIterations
  let (found, value, tested) := searchFragment check nextValue startValue
  if found then some (true, value, tested)
  else
    match readings with
    | [] => none
    | now :: readings =>
      if now - startTime > maxSolutionComputeFragment then some (false, value, tested)
      else (searchFragments check startTime readings value).map
        fun (found, value, tested') => (found, value, tested ++ tested')

variable (sha256 : List (BitVec 8) → ℕ → BitVec 8)

/-- Whether a value solves the puzzle. -/
def solves (theParams : Submission) (value : U32) : Bool :=
  checkOneSolution sha256 value theParams.clientNonce theParams.serverNonce
    theParams.puzzleDifficulty theParams.clientIdentity

def solvePuzzle (theParams : Submission) (startTime : U32) (readings : List U32) :
    Option (Bool × U32 × List U32) :=
  searchFragments (solves sha256 theParams) startTime readings theParams.solution

/-- A connection whose puzzle is being solved, with all values that were tested. -/
structure Search where
  theParams : Submission
  solved : Bool
  tested : List U32

/-- A slice, with what the clock says at its beginning and after each fragment. -/
structure Slice where
  startTime : U32
  readings : List U32

namespace Search

/-- The challenge response has arrived. -/
def start (theParams : Submission) : Search := ⟨{ theParams with solution := 0 }, false, []⟩

def continuePuzzleSolution (s : Search) (slice : Slice) : Option Search :=
  (solvePuzzle sha256 s.theParams slice.startTime slice.readings).map
    fun (solved, solution, tested) =>
      ⟨{ s.theParams with solution := solution }, solved, s.tested ++ tested⟩

/-- There are no more slices when the puzzle is solved. -/
def step (s : Search) (slice : Slice) : Option Search :=
  if s.solved then none else s.continuePuzzleSolution sha256 slice

end Search

/-- The values from a number on. -/
def candidates (first n : ℕ) : List U32 := (List.range' first n).map (BitVec.ofNat 32)

/-- What is known when a search from a value on has stopped. -/
structure Outcome (check : U32 → Bool) (startValue : U32) (result : Bool × U32 × List U32) :
    Prop where
  le : startValue ≤ result.2.1
  failed : ∀ v, startValue ≤ v → v < result.2.1 → check v = false
  found : result.1 = true → check result.2.1 = true
  tested : result.2.2 =
    candidates startValue.toNat (result.2.1.toNat - startValue.toNat + result.1.toNat)

section outcomes

variable {check : U32 → Bool} {startValue value startTime : U32} {readings tested tested' : List U32}
  {found : Bool}

theorem candidates_append {first middle n : ℕ} (h : middle = first + n) (m : ℕ) :
    candidates first n ++ candidates middle m = candidates first (n + m) := by
  rw [h, candidates, candidates, candidates, ← List.map_append, List.range'_append_1]

theorem candidates_succ (first n : ℕ) :
    BitVec.ofNat 32 first :: candidates (first + 1) n = candidates first (n + 1) := by
  rw [candidates, candidates, List.range'_succ, List.map_cons]

theorem Outcome.here : Outcome check startValue (false, startValue, []) where
  le := BitVec.le_refl _
  failed v hle hlt := absurd hlt (BitVec.not_lt.mpr hle)
  found := nofun
  tested := by
    change [] = candidates _ (_ - _ + 0)
    rw [Nat.sub_self]
    rfl

theorem Outcome.trans {result : Bool × U32 × List U32}
    (h : Outcome check startValue (false, value, tested)) (hnext : Outcome check value result) :
    Outcome check startValue (result.1, result.2.1, tested ++ result.2.2) where
  le := BitVec.le_trans h.le hnext.le
  failed v hle hlt := by
    by_cases hv : v < value
    · exact h.failed v hle hv
    · exact hnext.failed v (BitVec.not_lt.mp hv) hlt
  found := hnext.found
  tested := by
    have hle : startValue.toNat ≤ value.toNat := h.le
    have hle' : value.toNat ≤ result.2.1.toNat := hnext.le
    have hfirst : tested = candidates startValue.toNat (value.toNat - startValue.toNat) := h.tested
    dsimp only
    rw [hnext.tested, hfirst, candidates_append (by omega)]
    congr 1
    omega

/-- A fragment is searched up to its end or to the first solution in it. -/
theorem searchFragment_outcome (check : U32 → Bool) (nextValue startValue : U32) :
    Outcome check startValue (searchFragment check nextValue startValue) ∧
      ((searchFragment check nextValue startValue).1 = false → startValue ≤ nextValue →
        (searchFragment check nextValue startValue).2.1 = nextValue) := by
  induction hn : nextValue.toNat - startValue.toNat generalizing startValue with
  | zero =>
    have hlt : ¬startValue < nextValue := by bv_omega
    rw [searchFragment, if_neg hlt]
    exact ⟨.here, fun _ hle => BitVec.le_antisymm hle (BitVec.not_lt.mp hlt)⟩
  | succ n ih =>
    have hlt : startValue < nextValue := by bv_omega
    rw [searchFragment, if_pos hlt]
    by_cases hcheck : check startValue = true
    · rw [if_pos hcheck]
      refine ⟨⟨BitVec.le_refl _, ?_, fun _ => hcheck, ?_⟩, nofun⟩
      · exact fun v hle hlt => absurd hlt (BitVec.not_lt.mpr hle)
      · change [startValue] = candidates _ (_ - _ + 1)
        rw [Nat.sub_self, ← candidates_succ, BitVec.ofNat_toNat, BitVec.setWidth_eq]
        rfl
    · have hone : Outcome check startValue (false, startValue + 1, [startValue]) := by
        refine ⟨by bv_omega, fun v hle hlt' => ?_, nofun, ?_⟩
        · obtain rfl : v = startValue := by
            change v < startValue + 1 at hlt'
            bv_omega
          exact Bool.eq_false_of_not_eq_true hcheck
        · have hnext : (startValue + 1).toNat - startValue.toNat = 0 + 1 := by bv_omega
          change [startValue] = candidates _ ((startValue + 1).toNat - _ + 0)
          rw [hnext, Nat.add_zero, ← candidates_succ, BitVec.ofNat_toNat, BitVec.setWidth_eq]
          rfl
      obtain ⟨houtcome, hend⟩ := ih (startValue + 1) (by bv_omega)
      rw [if_neg hcheck]
      exact ⟨hone.trans houtcome, fun hfound _ => hend hfound (by bv_omega)⟩

/-- A fragment without a solution is searched as a whole, unless its end wraps around. -/
theorem searchFragment_cases (h : searchFragment check (startValue + solutionFragmentIterations)
    startValue = (found, value, tested)) :
    Outcome check startValue (found, value, tested) ∧
      (found = false → startValue.toNat + 50000 < 2 ^ 32 →
        value.toNat = startValue.toNat + 50000) := by
  obtain ⟨houtcome, hend⟩ := searchFragment_outcome check
    (startValue + solutionFragmentIterations) startValue
  rw [h] at houtcome hend
  refine ⟨houtcome, fun hfound hroom => ?_⟩
  have hnext : (startValue + solutionFragmentIterations).toNat = startValue.toNat + 50000 := by
    rw [solutionFragmentIterations]
    bv_omega
  have hvalue : value = startValue + solutionFragmentIterations := hend hfound (by bv_omega)
  rw [hvalue, hnext]

theorem searchFragments_outcome {result : Bool × U32 × List U32}
    (h : searchFragments check startTime readings startValue = some result) :
    Outcome check startValue result ∧
      (result.1 = false → startValue.toNat + 50000 < 2 ^ 32 →
        startValue.toNat + 50000 ≤ result.2.1.toNat) := by
  induction readings generalizing startValue result with
  | nil =>
    rcases hfragment : searchFragment check (startValue + solutionFragmentIterations) startValue with
      ⟨found, value, tested⟩
    rw [searchFragments, hfragment] at h
    cases found with
    | true =>
      obtain rfl : (true, value, tested) = result := Option.some.inj h
      exact ⟨(searchFragment_cases hfragment).1, nofun⟩
    | false => cases h
  | cons now readings ih =>
    rcases hfragment : searchFragment check (startValue + solutionFragmentIterations) startValue with
      ⟨found, value, tested⟩
    rw [searchFragments, hfragment] at h
    obtain ⟨houtcome, hadvance⟩ := searchFragment_cases hfragment
    cases found with
    | true =>
      obtain rfl : (true, value, tested) = result := Option.some.inj h
      exact ⟨houtcome, nofun⟩
    | false =>
      dsimp only at h
      rw [if_neg Bool.false_ne_true] at h
      by_cases hlate : now - startTime > maxSolutionComputeFragment
      · rw [if_pos hlate] at h
        obtain rfl := Option.some.inj h
        exact ⟨houtcome, fun hfound hroom => (hadvance hfound hroom).ge⟩
      · rw [if_neg hlate] at h
        obtain ⟨rest, hrest, rfl⟩ := Option.map_eq_some_iff.mp h
        obtain ⟨hnext, -⟩ := ih hrest
        refine ⟨houtcome.trans hnext, fun _ hroom => ?_⟩
        rw [← hadvance rfl hroom]
        exact hnext.le

/-- A slice comes to an end at the latest when it has reached a solution. -/
theorem searchFragments_isSome {solution : U32} (hsolution : check solution = true)
    (hbound : solution.toNat + 50000 < 2 ^ 32) (hle : startValue ≤ solution)
    (henough : solution.toNat < startValue.toNat + 50000 * (readings.length + 1)) :
    (searchFragments check startTime readings startValue).isSome := by
  have hle' : startValue.toNat ≤ solution.toNat := hle
  induction readings generalizing startValue with
  | nil =>
    rcases hfragment : searchFragment check (startValue + solutionFragmentIterations) startValue with
      ⟨found, value, tested⟩
    rw [searchFragments, hfragment]
    obtain ⟨houtcome, hadvance⟩ := searchFragment_cases hfragment
    cases found with
    | true => rfl
    | false =>
      have hvalue := hadvance rfl (by omega)
      have hfalse := houtcome.failed solution hle (by
        rw [List.length_nil] at henough
        change solution < value
        bv_omega)
      rw [hsolution] at hfalse
      cases hfalse
  | cons now readings ih =>
    rcases hfragment : searchFragment check (startValue + solutionFragmentIterations) startValue with
      ⟨found, value, tested⟩
    rw [searchFragments, hfragment]
    obtain ⟨houtcome, hadvance⟩ := searchFragment_cases hfragment
    cases found with
    | true => rfl
    | false =>
      have hvalue := hadvance rfl (by omega)
      dsimp only
      rw [if_neg Bool.false_ne_true]
      split
      · rfl
      · rw [Option.isSome_map]
        have hreached : value ≤ solution := by
          by_contra hlt
          have hfalse := houtcome.failed solution hle (BitVec.not_le.mp hlt)
          rw [hsolution] at hfalse
          cases hfalse
        have hrest : solution.toNat < value.toNat + 50000 * (readings.length + 1) := by
          rw [List.length_cons, Nat.mul_succ] at henough
          rw [hvalue, Nat.add_assoc, Nat.add_comm 50000]
          exact henough
        exact ih hreached hrest (BitVec.le_def.mp hreached)

end outcomes

/-- The smallest solution of a puzzle. -/
def Least (check : U32 → Bool) (solution : U32) : Prop :=
  check solution = true ∧ ∀ v < solution, check v = false

namespace Search

/-- The values were tried in order from 0 on, none left out and none tried again. -/
def TestedInOrder (s : Search) : Prop :=
  s.tested = candidates 0 s.tested.length ∧ s.tested.Nodup

/-- The search for a smallest solution after a number of slices: nothing else is reported, it is
reported in the slice that tests it, and a slice that goes on until then comes to an end. -/
structure Finds (s : Search) (slices : ℕ) (least : U32) : Prop where
  reported : s.solved = true → s.theParams.solution = least
  reached : least ∈ s.tested → s.solved = true
  accepted : s.solved = true → checkOneSolution sha256 s.theParams.solution
    s.theParams.clientNonce s.theParams.serverNonce s.theParams.puzzleDifficulty
    s.theParams.clientIdentity = true
  slices_le : s.solved = false → 50000 * slices ≤ least.toNat
  returns : s.solved = false → ∀ (startTime : U32) (clock : ℕ → U32), ∃ n,
    (s.step sha256 ⟨startTime, (List.range n).map clock⟩).isSome

section runs

variable {sha256} {theParams : Submission} {s t : Search} {slice : Slice} {slices : List Slice}
  {least : U32}

/-- The search from 0 on has come to where it is. -/
structure Sound (sha256 : List (BitVec 8) → ℕ → BitVec 8) (theParams : Submission) (s : Search) :
    Prop where
  params : solves sha256 s.theParams = solves sha256 theParams
  outcome : Outcome (solves sha256 theParams) 0 (s.solved, s.theParams.solution, s.tested)

theorem Sound.start (theParams : Submission) : Sound sha256 theParams (start theParams) :=
  ⟨rfl, .here⟩

theorem step_cases (hstep : s.step sha256 slice = some t) : s.solved = false ∧
    ∃ tested, t.tested = s.tested ++ tested ∧
      t.theParams = { s.theParams with solution := t.theParams.solution } ∧
      searchFragments (solves sha256 s.theParams) slice.startTime slice.readings
        s.theParams.solution = some (t.solved, t.theParams.solution, tested) := by
  cases hsolved : s.solved with
  | true =>
    rw [step, if_pos hsolved] at hstep
    cases hstep
  | false =>
    rw [step, hsolved, if_neg Bool.false_ne_true] at hstep
    obtain ⟨⟨found, value, tested⟩, hslice, rfl⟩ := Option.map_eq_some_iff.mp hstep
    exact ⟨rfl, tested, rfl, rfl, hslice⟩

theorem Sound.step (h : Sound sha256 theParams s) (hstep : s.step sha256 slice = some t) :
    Sound sha256 theParams t := by
  obtain ⟨hsolved, tested, htested, hparams, hslice⟩ := step_cases hstep
  have houtcome := h.outcome
  rw [h.params] at hslice
  rw [hsolved] at houtcome
  constructor
  · rw [hparams]
    exact h.params
  · rw [htested]
    exact houtcome.trans (searchFragments_outcome hslice).1

theorem sound_of_run (hrun : Run (step sha256) (fun _ _ => True) (.start theParams) slices s) :
    Sound sha256 theParams s :=
  hrun.invariant (fun _ _ _ h _ hstep => h.step hstep) (.start theParams)

/-- The search has not gone beyond the smallest solution. -/
theorem Sound.le_least (h : Sound sha256 theParams s) (hleast : Least (solves sha256 theParams) least) :
    s.theParams.solution ≤ least := by
  by_contra hlt
  have hfalse := h.outcome.failed least (Nat.zero_le _) (BitVec.not_le.mp hlt)
  rw [hleast.1] at hfalse
  cases hfalse

/-- A slice without result advances by a fragment at least. -/
theorem Sound.advance (h : Sound sha256 theParams s)
    (hleast : Least (solves sha256 theParams) least) (hbound : least.toNat + 50000 < 2 ^ 32)
    (hstep : s.step sha256 slice = some t) (hunsolved : t.solved = false) :
    s.theParams.solution.toNat + 50000 ≤ t.theParams.solution.toNat := by
  obtain ⟨-, tested, -, -, hslice⟩ := step_cases hstep
  have hle : s.theParams.solution.toNat ≤ least.toNat := h.le_least hleast
  exact (searchFragments_outcome hslice).2 hunsolved (by omega)

theorem advance_of_run (hrun : Run (step sha256) (fun _ _ => True) s slices t)
    (h : Sound sha256 theParams s) (hleast : Least (solves sha256 theParams) least)
    (hbound : least.toNat + 50000 < 2 ^ 32) (hunsolved : t.solved = false) :
    s.theParams.solution.toNat + 50000 * slices.length ≤ t.theParams.solution.toNat := by
  induction hrun with
  | nil s => exact Nat.le_refl _
  | @cons s u t slice slices allowed taken rest ih =>
    -- a solved search takes no more slices
    have hu : u.solved = false := by
      cases rest with
      | nil => exact hunsolved
      | cons allowed taken rest => exact (step_cases taken).1
    have hone := h.advance hleast hbound taken hu
    have hrest := ih (h.step taken) hunsolved
    rw [List.length_cons, Nat.mul_succ, Nat.add_comm (50000 * _), ← Nat.add_assoc]
    exact (Nat.add_le_add_right hone _).trans hrest

theorem Sound.testedInOrder (h : Sound sha256 theParams s) : s.TestedInOrder := by
  have htested : s.tested =
      candidates 0 (s.theParams.solution.toNat - 0 + s.solved.toNat) := h.outcome.tested
  have hlength : s.tested.length = s.theParams.solution.toNat - 0 + s.solved.toNat := by
    rw [htested, candidates, List.length_map, List.length_range']
  constructor
  · rw [hlength]
    exact htested
  · rw [htested, candidates]
    refine List.Nodup.map_on (fun i hi j hj heq => ?_) List.nodup_range'
    have hsolution := s.theParams.solution.isLt
    have hone : s.solved.toNat ≤ 1 := Bool.toNat_le s.solved
    rw [List.mem_range'_1] at hi hj
    have heq' := congrArg BitVec.toNat heq
    rw [BitVec.toNat_ofNat, BitVec.toNat_ofNat, Nat.mod_eq_of_lt (by omega),
      Nat.mod_eq_of_lt (by omega)] at heq'
    exact heq'

theorem Sound.finds (h : Sound sha256 theParams s)
    (hleast : Least (solves sha256 theParams) least) (hbound : least.toNat + 50000 < 2 ^ 32)
    (hslices : s.solved = false → 50000 * slices.length ≤ least.toNat) :
    s.Finds sha256 slices.length least where
  reported hsolved := by
    refine BitVec.le_antisymm (h.le_least hleast) (BitVec.not_lt.mp fun hlt => ?_)
    have hfound := h.outcome.found hsolved
    rw [hleast.2 _ hlt] at hfound
    cases hfound
  reached hmem := by
    by_contra hunsolved
    have hfalse : s.solved = false := Bool.eq_false_of_not_eq_true hunsolved
    have htested : s.tested = candidates 0 (s.theParams.solution.toNat - 0 + s.solved.toNat) :=
      h.outcome.tested
    rw [htested, hfalse, candidates] at hmem
    obtain ⟨i, hi, rfl⟩ := List.mem_map.mp hmem
    rw [List.mem_range'_1] at hi
    have hsolution := s.theParams.solution.isLt
    have hi' : i < s.theParams.solution.toNat - 0 + 0 + 0 := by
      rw [Bool.toNat_false] at hi
      omega
    have hfailed := h.outcome.failed (BitVec.ofNat 32 i) (Nat.zero_le _) (by
      rw [BitVec.lt_def, BitVec.toNat_ofNat, Nat.mod_eq_of_lt (by omega)]
      exact hi')
    rw [hleast.1] at hfailed
    cases hfailed
  accepted hsolved := by
    have hfound := h.outcome.found hsolved
    rw [← h.params] at hfound
    exact hfound
  slices_le := hslices
  returns hunsolved startTime clock := by
    refine ⟨least.toNat, ?_⟩
    have hle := h.le_least hleast
    rw [Search.step, hunsolved, if_neg Bool.false_ne_true, continuePuzzleSolution, Option.isSome_map,
      solvePuzzle, h.params]
    refine searchFragments_isSome hleast.1 hbound hle ?_
    rw [List.length_map, List.length_range]
    have hle' : least.toNat + 1 ≤ 50000 * (least.toNat + 1) := Nat.le_mul_of_pos_left _ (by decide)
    exact (Nat.lt_of_succ_le hle').trans_le (Nat.le_add_left _ _)

end runs

/-- Whatever the hash function and the clock do, the values are tried in order, and the search
finds the smallest solution if it is not among the last values. -/
theorem search_complete (sha256 : List (BitVec 8) → ℕ → BitVec 8) (theParams : Submission)
    (slices : List Slice) (s : Search)
    (hrun : Run (step sha256) (fun _ _ => True) (.start theParams) slices s) :
    s.TestedInOrder ∧ ∀ least, Least (solves sha256 theParams) least →
      least.toNat + solutionFragmentIterations.toNat < 2 ^ 32 →
      s.Finds sha256 slices.length least := by
  have hsound := sound_of_run hrun
  refine ⟨hsound.testedInOrder, fun least hleast hbound => hsound.finds hleast hbound ?_⟩
  intro hunsolved
  have hadvance := advance_of_run hrun (.start theParams) hleast hbound hunsolved
  have hle : s.theParams.solution.toNat ≤ least.toNat := hsound.le_least hleast
  exact ((Nat.le_add_left _ _).trans hadvance).trans hle

/-- The first value is no solution, and the second one is. -/
theorem search_complete_second :
    let sha256 : List (BitVec 8) → ℕ → BitVec 8 := fun bytes _ => if bytes[3]? = some 1 then 0 else 1
    let theParams : Submission := ⟨0, Vector.replicate 8 2, Vector.replicate 8 3, 8, 4⟩
    ∃ s : Search, s = ⟨{ theParams with solution := 1 }, true, [0, 1]⟩ ∧ s.TestedInOrder ∧
      s.Finds sha256 1 1 := by
  intro sha256 theParams
  have hfirst : solves sha256 theParams 0 = false := by
    rw [solves, checkOneSolution, leadingZeros]
    decide
  have hsecond : solves sha256 theParams 1 = true := by
    rw [solves, checkOneSolution, leadingZeros]
    decide
  have hfragment : searchFragment (solves sha256 theParams) (0 + solutionFragmentIterations) 0 =
      (true, 1, [0, 1]) := by
    have hone : (0 + 1 : U32) = 1 := rfl
    rw [searchFragment, if_pos (by decide), hfirst, if_neg Bool.false_ne_true, searchFragment,
      if_pos (by decide), hone, hsecond, if_pos rfl]
  have hstep : (start theParams).step sha256 ⟨0, []⟩ =
      some ⟨{ theParams with solution := 1 }, true, [0, 1]⟩ := by
    change (searchFragments (solves sha256 theParams) 0 [] 0).map _ = _
    rw [searchFragments, hfragment]
    rfl
  have hfinds := search_complete sha256 theParams [⟨0, []⟩] _ (.cons trivial hstep (.nil _))
  refine ⟨_, rfl, hfinds.1, hfinds.2 1 ⟨hsecond, fun v hlt => ?_⟩ (by decide)⟩
  obtain rfl : v = 0 := by bv_omega
  exact hfirst

end Search

end ClientPuzzleManager

end TNL.ClientPuzzle
