import TNL.Ghost.Operations

/-!
# The partition of the ghost array

In every run the ghost array holds each record once, at the place the record
knows: first the ghosts with pending updates, then the others, then the free
records. The only operation that can break this is `clearMaskBits`, which
compares a mask with the bits to be cleared instead of with what is left.
-/
namespace TNL.GhostServer
open GhostArray Library

/-- The assertions of `validateGhostArray`. -/
def validateGhostArray (s : GhostServer) : Prop :=
  s.array.mGhostZeroUpdateIndex ≤ s.array.mGhostFreeIndex ∧
  s.array.mGhostFreeIndex ≤ maxGhostCount ∧
  (∀ i < s.array.mGhostZeroUpdateIndex,
    s.array.arrayIndex (s.array.mGhostArray i) = i ∧ s.updateMask (s.array.mGhostArray i) ≠ 0) ∧
  (∀ i, s.array.mGhostZeroUpdateIndex ≤ i → i < s.array.mGhostFreeIndex →
    s.array.arrayIndex (s.array.mGhostArray i) = i ∧ s.updateMask (s.array.mGhostArray i) = 0) ∧
  ∀ i, s.array.mGhostFreeIndex ≤ i → i < maxGhostCount →
    s.array.arrayIndex (s.array.mGhostArray i) = i

/-- No object, no update and no packet in flight is about the record. -/
def Unused (s : GhostServer) (g : Ghost) : Prop :=
  s.obj g = none ∧ s.updateMask g = 0 ∧
    ∀ note ∈ s.notifyQueue, ∀ r ∈ note.ghostList, (s.refs r).ghost ≠ g

/-- The three segments of the ghost array. -/
structure Partitioned (s : GhostServer) : Prop where
  validated : s.validateGhostArray
  permutation : ∀ g, s.array.arrayIndex g < maxGhostCount ∧
    s.array.mGhostArray (s.array.arrayIndex g) = g
  nonzero_iff : ∀ g, s.array.arrayIndex g < s.array.mGhostZeroUpdateIndex ↔ s.updateMask g ≠ 0
  unused : ∀ g, s.array.mGhostFreeIndex ≤ s.array.arrayIndex g → s.Unused g

variable {traits : ObjectTraits} {s : GhostServer}

theorem Sound.partitioned (h : Sound s s.inFlight) : Partitioned s := by
  have hplace : ∀ i < maxGhostCount, s.array.arrayIndex (s.array.mGhostArray i) = i :=
    h.masked.valid.indexed.pos_arr
  have hzero := h.masked.valid.zero_le
  have hfree := h.masked.valid.free_le
  have hnonzero : ∀ g, s.array.arrayIndex g < s.array.mGhostZeroUpdateIndex ↔ s.updateMask g ≠ 0 :=
    h.masked.pending_iff
  constructor
  · refine ⟨hzero, hfree, fun i hi => ?_, fun i hi hi' => ?_, fun i _ hi => hplace i hi⟩
    · have hi' := hplace i (hi.trans_le (hzero.trans hfree))
      exact ⟨hi', (hnonzero _).mp (hi'.symm ▸ hi)⟩
    · have hplace' := hplace i (hi'.trans_le hfree)
      refine ⟨hplace', ?_⟩
      by_contra hne
      have hlt := (hnonzero _).mpr hne
      omega
  · exact fun g => ⟨h.masked.valid.indexed.pos_lt g, h.masked.valid.indexed.arr_pos g⟩
  · exact hnonzero
  · intro g hg
    have hout : ¬ s.array.Allocated g := Nat.not_lt.mpr hg
    refine ⟨?_, ?_, ?_⟩
    · cases hobj : s.obj g with
      | none => rfl
      | some o => exact absurd (h.ghosts.allocated_of_obj g o hobj) hout
    · by_contra hne
      exact hout (h.masked.valid.allocated_of_pending ((hnonzero g).mpr hne))
    · intro note hnote r hr hghost
      have hin : r ∈ s.inFlight g :=
        List.mem_filter.mpr ⟨List.mem_flatMap.mpr ⟨note, hnote, hr⟩, decide_eq_true hghost⟩
      rw [h.ghosts.unallocated g hout] at hin
      cases hin

/-- The array is partitioned in every state of every run in which no call of `clearMaskBits` takes
all bits of a ghost's mask and more. -/
theorem ghostArray_partitioned {alive : ℕ → Bool} {as : List Action}
    (run : Run (step traits) ClearsExactly (new alive) as s) : s.Partitioned :=
  (sound_of_run run).partitioned

theorem ghostArray_partitioned_one : ∃ s : GhostServer,
    s.array.mGhostZeroUpdateIndex = 1 ∧ s.Partitioned := by
  have hreached : (exec (step .plain) (new fun _ => true) [.objectInScope 0]).map
      (fun s => s.array.mGhostZeroUpdateIndex) = some 1 := by decide +kernel
  obtain ⟨s, hexec, hs⟩ := Option.map_eq_some_iff.mp hreached
  refine ⟨s, hs, ghostArray_partitioned (.of_exec_of_forall ?_ hexec)⟩
  intro s a ha
  obtain rfl := List.mem_singleton.mp ha
  trivial

/-- A ghost that is left without bits stays in the first segment. -/
theorem clearMaskBits_not_partitioned :
    ¬ ∀ (traits : ObjectTraits) (alive : ℕ → Bool) (as : List Action) (s : GhostServer),
      Run (step traits) (fun _ _ => True) (new alive) as s → s.Partitioned := by
  intro claim
  have hreached : (exec (step .plain) (new fun _ => true)
      [.objectInScope 0, .clearMaskBits 0 (~~~1), .clearMaskBits 0 3]).map
        (fun s => (s.array.mGhostZeroUpdateIndex, s.updateMask (s.array.mGhostArray 0))) =
      some (1, 0) := by decide +kernel
  obtain ⟨s, hexec, hs⟩ := Option.map_eq_some_iff.mp hreached
  obtain ⟨hzero, hmask⟩ := Prod.mk.inj hs
  obtain ⟨_, _, hfirst, _, _⟩ := (claim .plain _ _ s (.of_exec hexec)).validated
  exact (hfirst 0 (by omega)).2 hmask

end TNL.GhostServer
