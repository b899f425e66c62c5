import TNL.Event.Packet
import TNL.Ghost.GhostConnection

/-!
# The ghost section of a packet

The records of ghosts as they are written into the packet, each of which is
taken back if it leaves too little space. The objects pack their updates as a
sequence of writes of any length. What the section does to the connection is what
`writePacket` does, given the masks of the updates that fitted.
-/
namespace TNL
open BitStream EventConnection

/-- What a program defines for its objects. `packUpdate` gets the object, the update mask and
whether this is the initial update, and returns the bits it leaves over with what it writes. -/
structure ObjectClass (σ : Type*) where
  getClassId : Option ℕ → ℕ
  mClassBitSize : ℕ
  packUpdate : σ → Option ℕ → Mask → Bool → Mask × List (List Bool) × σ

namespace GhostServer

variable {σ : Type*}

/-- The part of an update after its flags. -/
def writeUpdate (mDebugObjectSizes : Bool) (O : ObjectClass σ) (r : GhostRecord) (updateMask : Mask)
    (w : PackStream σ) : Mask × PackStream σ :=
  let s := if mDebugObjectSizes then w.stream.advanceBitPosition bitStreamPosBitSize else w.stream
  let s := if r.classId then s.writeInt (O.getClassId r.object) O.mClassBitSize else s
  let (retMask, chunks, side) := O.packUpdate w.side r.object updateMask r.classId
  let s := s.writeAll chunks
  let s := if mDebugObjectSizes then s.writeIntAt s.bitNum bitStreamPosBitSize w.stream.bitNum
    else s
  (retMask, ⟨s, side⟩)

/-- A whole record; of a ghost to be deleted only the flags are written. -/
def packRecord (mDebugObjectSizes : Bool) (O : ObjectClass σ) (sendSize : ℕ) (r : GhostRecord)
    (updateMask : Mask) (w : PackStream σ) : Mask × PackStream σ :=
  let s := w.stream.writeFlag true
  let s := s.writeInt r.index sendSize
  let s := s.writeFlag r.killGhost
  if r.killGhost then (0, ⟨s, w.side⟩)
  else writeUpdate mDebugObjectSizes O r updateMask ⟨s, w.side⟩

/-- Write the ghosts below place `i`, the last one first, until the packet is full. -/
def packRecords (mDebugObjectSizes : Bool) (O : ObjectClass σ) (sendSize : ℕ) :
    ℕ → GhostServer → List ℕ → PackStream σ → GhostServer × List ℕ × PackStream σ
  | 0, s, updateList, w => (s, updateList, w)
  | i + 1, s, updateList, w =>
    if w.stream.isFull then (s, updateList, w)
    else
      let walk := s.array.mGhostArray i
      if (s.flags walk).killingGhost || (s.flags walk).ghosting then
        packRecords mDebugObjectSizes O sendSize i s updateList w
      else
        let (retMask, v) :=
          packRecord mDebugObjectSizes O sendSize (s.recordOf walk) (s.updateMask walk) w
        if v.stream.getBitSpaceAvailable < minimumPaddingBits then
          (s, updateList,
            { v with stream := (v.stream.setBitPosition w.stream.bitNum).clearError })
        else
          packRecords mDebugObjectSizes O sendSize i (s.writeRecord walk retMask)
            (s.nextRef :: updateList) v

/-- The stream before the records, with the size of the indices. -/
def packSendSize (maxIndex : ℕ) (w : PackStream σ) : PackStream σ :=
  { w with stream := w.stream.writeInt (sendSize maxIndex - 3) 3 }

/-- The loops before the records: the greatest index and the ghosts in the order of `sort`, which is
by priority. -/
def prepareGhosts (traits : ObjectTraits) (sort : List Ghost → List Ghost) (s : GhostServer) :
    ℕ × GhostServer :=
  let s := detachOutOfScope traits s.array.mGhostZeroUpdateIndex s
  let (maxIndex, s) := freeUnsent s.array.mGhostZeroUpdateIndex 0 s
  (maxIndex, { s with array := s.array.reorder (sort s.array.pending) })

/-- The notify of a packet lists its references. -/
def noteSection (sendSize : ℕ) (s : GhostServer) (updateList : List ℕ) : GhostServer :=
  { s with notifyQueue := s.notifyQueue ++ [⟨updateList, sendSize⟩] }

/-- The section up to its closing flag. -/
def packGhosts (mDebugObjectSizes : Bool) (O : ObjectClass σ) (traits : ObjectTraits)
    (sort : List Ghost → List Ghost) (s : GhostServer) (w : PackStream σ) :
    GhostServer × PackStream σ :=
  let (maxIndex, s) := s.prepareGhosts traits sort
  let (s, updateList, w) := packRecords mDebugObjectSizes O (sendSize maxIndex)
    s.array.mGhostZeroUpdateIndex s [] (packSendSize maxIndex w)
  (s.noteSection (sendSize maxIndex) updateList, w)

/-- The stream before the flag that says whether there are ghosts. -/
def packChecksum (mDebugObjectSizes : Bool) (w : PackStream σ) : PackStream σ :=
  if mDebugObjectSizes then { w with stream := w.stream.writeInt debugChecksum 32 } else w

/-- The stream behind that flag. -/
def packFlag (mDebugObjectSizes : Bool) (s : GhostServer) (scopeValid : Bool) (w : PackStream σ) :
    PackStream σ :=
  let w := packChecksum mDebugObjectSizes w
  { w with stream := w.stream.writeFlag (s.mGhosting && scopeValid) }

/-- What `writePacket` writes behind the section of the events. -/
def packPacket (mDebugObjectSizes : Bool) (O : ObjectClass σ) (traits : ObjectTraits)
    (doesGhostFrom scopeValid : Bool) (sort : List Ghost → List Ghost) (s : GhostServer)
    (w : PackStream σ) : GhostServer × PackStream σ :=
  if !doesGhostFrom then (s.noteSection 0 [], packChecksum mDebugObjectSizes w)
  else
    let w := s.packFlag mDebugObjectSizes scopeValid w
    if s.mGhosting && scopeValid then
      let (s, w) := packGhosts mDebugObjectSizes O traits sort s w
      (s, { w with stream := w.stream.writeFlag false })
    else (s.noteSection 0 [], w)

section refinement

variable (mDebugObjectSizes : Bool) (O : ObjectClass σ) (traits : ObjectTraits)

theorem writeRecords_nil (i : ℕ) (s : GhostServer) (updateList : List ℕ) :
    writeRecords i [] s updateList = (s, updateList) := by
  induction i with
  | zero => rfl
  | succ i ih =>
    rw [writeRecords]
    split
    · exact ih
    · rfl

/-- The records that fit are those that are noted, each with the mask its object returned. -/
theorem packRecords_refines (sendSize i : ℕ) (s : GhostServer) (updateList : List ℕ)
    (w : PackStream σ) : ∃ leftOver,
      writeRecords i leftOver s updateList =
        ((packRecords mDebugObjectSizes O sendSize i s updateList w).1,
          (packRecords mDebugObjectSizes O sendSize i s updateList w).2.1) := by
  induction i generalizing s updateList w with
  | zero => exact ⟨[], rfl⟩
  | succ i ih =>
    unfold packRecords
    by_cases hfull : w.stream.isFull = true
    · rw [if_pos hfull]
      exact ⟨[], writeRecords_nil _ s updateList⟩
    · rw [if_neg hfull]
      dsimp only
      by_cases hskip : ((s.flags (s.array.mGhostArray i)).killingGhost ||
          (s.flags (s.array.mGhostArray i)).ghosting) = true
      · rw [if_pos hskip]
        obtain ⟨leftOver, hrest⟩ := ih s updateList w
        refine ⟨leftOver, ?_⟩
        unfold writeRecords
        dsimp only
        rw [if_pos hskip]
        exact hrest
      · rw [if_neg hskip]
        generalize packRecord mDebugObjectSizes O sendSize (s.recordOf (s.array.mGhostArray i))
          (s.updateMask (s.array.mGhostArray i)) w = written
        obtain ⟨retMask, v⟩ := written
        dsimp only
        by_cases hspace : v.stream.getBitSpaceAvailable < minimumPaddingBits
        · rw [if_pos hspace]
          exact ⟨[], writeRecords_nil _ s updateList⟩
        · rw [if_neg hspace]
          obtain ⟨leftOver, hrest⟩ := ih (s.writeRecord (s.array.mGhostArray i) retMask)
            (s.nextRef :: updateList) v
          refine ⟨retMask :: leftOver, ?_⟩
          unfold writeRecords
          dsimp only
          rw [if_neg hskip]
          exact hrest

/-- The section does to the connection what `writePacket` does. -/
theorem packPacket_refines (scopeValid : Bool) {sort : List Ghost → List Ghost}
    (hsort : ∀ l, (sort l).Perm l) (s : GhostServer) (w : PackStream σ) : ∃ order leftOver,
      s.writePacket traits scopeValid order leftOver =
        some (s.packPacket mDebugObjectSizes O traits true scopeValid sort w).1 := by
  unfold packPacket
  by_cases hghosting : (s.mGhosting && scopeValid) = true
  · simp only [Bool.not_true, Bool.false_eq_true, if_false, if_pos hghosting]
    obtain ⟨leftOver, hrecords⟩ := packRecords_refines mDebugObjectSizes O
      (sendSize (s.prepareGhosts traits sort).1)
      (s.prepareGhosts traits sort).2.array.mGhostZeroUpdateIndex (s.prepareGhosts traits sort).2 []
      (packSendSize (s.prepareGhosts traits sort).1 (s.packFlag mDebugObjectSizes scopeValid w))
    refine ⟨sort (freeUnsent (detachOutOfScope traits s.array.mGhostZeroUpdateIndex
      s).array.mGhostZeroUpdateIndex 0
        (detachOutOfScope traits s.array.mGhostZeroUpdateIndex s)).2.array.pending, leftOver, ?_⟩
    have hwrite : s.writePacket traits scopeValid (sort (freeUnsent (detachOutOfScope traits
        s.array.mGhostZeroUpdateIndex s).array.mGhostZeroUpdateIndex 0
          (detachOutOfScope traits s.array.mGhostZeroUpdateIndex s)).2.array.pending) leftOver =
        some (noteSection (sendSize (s.prepareGhosts traits sort).1)
          (writeRecords (s.prepareGhosts traits sort).2.array.mGhostZeroUpdateIndex leftOver
            (s.prepareGhosts traits sort).2 []).1
          (writeRecords (s.prepareGhosts traits sort).2.array.mGhostZeroUpdateIndex leftOver
            (s.prepareGhosts traits sort).2 []).2) := by
      rw [writePacket, if_pos hghosting]
      dsimp only
      rw [if_pos (hsort _)]
      rfl
    rw [hwrite, hrecords]
    rfl
  · refine ⟨[], [], ?_⟩
    rw [writePacket, if_neg hghosting]
    simp only [Bool.not_true, Bool.false_eq_true, if_false, if_neg hghosting]
    rfl

end refinement

section space

variable (mDebugObjectSizes : Bool) (O : ObjectClass σ) (traits : ObjectTraits) {limit : ℕ}

/-- Writes of any length stay below the limit. -/
theorem writeAll_le {s : BitStream} (hroom : Room limit 0 s) (chunks : List (List Bool)) :
    s.Extends (s.writeAll chunks) ∧ (s.writeAll chunks).bitNum ≤ limit := by
  have hle : s.bitNum ≤ limit := hroom.room
  obtain ⟨hext, hposition⟩ := writeAll_extends hroom.fixed (by rw [hroom.maxWrite]; exact hle) chunks
  refine ⟨hext, ?_⟩
  rw [hposition, hroom.maxWrite]
  exact positionAfter_le hle chunks

theorem writeUpdate_le (r : GhostRecord) (updateMask : Mask) {w : PackStream σ}
    (hroom : Room limit 16 w.stream) :
    w.stream.Extends (writeUpdate mDebugObjectSizes O r updateMask w).2.stream ∧
      (writeUpdate mDebugObjectSizes O r updateMask w).2.stream.bitNum ≤ limit := by
  have hlimit := hroom.room
  -- the class and the contents, from wherever they start
  have hbody : ∀ s : BitStream, Room limit 0 s →
      s.Extends ((if r.classId then s.writeInt (O.getClassId r.object) O.mClassBitSize
        else s).writeAll (O.packUpdate w.side r.object updateMask r.classId).2.1) ∧
      ((if r.classId then s.writeInt (O.getClassId r.object) O.mClassBitSize
        else s).writeAll (O.packUpdate w.side r.object updateMask r.classId).2.1).bitNum ≤
          limit := by
    intro s hs
    cases r.classId with
    | false => exact writeAll_le hs _
    | true => exact writeAll_le hs (intBits (O.getClassId r.object) O.mClassBitSize :: _)
  cases mDebugObjectSizes with
  | false => exact hbody w.stream (hroom.mono (Nat.zero_le 16))
  | true =>
    have hstart : Room limit 0 (w.stream.advanceBitPosition bitStreamPosBitSize) :=
      hroom.extends_ (advance_extends w.stream bitStreamPosBitSize) hlimit
    obtain ⟨hext, hle⟩ := hbody _ hstart
    constructor
    · apply writeIntAt_extends hext
      rw [hext.maxWrite]
      exact hlimit.trans_eq hroom.maxWrite.symm
    · exact hle

theorem packRecord_le {sendSize : ℕ} (hsize : sendSize ≤ 10) (r : GhostRecord) (updateMask : Mask)
    {w : PackStream σ} (hroom : Room limit 28 w.stream) :
    w.stream.Extends (packRecord mDebugObjectSizes O sendSize r updateMask w).2.stream ∧
      (packRecord mDebugObjectSizes O sendSize r updateMask w).2.stream.bitNum ≤ limit := by
  have hlimit := hroom.room
  have hmax := hroom.maxWrite
  have hfirst := writeFlag_fits (s := w.stream) true (by omega)
  have hindex := hfirst.append (writeInt_fits r.index sendSize (by
    rw [hfirst.position, hfirst.maxWrite, List.length_singleton]
    omega))
  have hkill := hindex.append (writeFlag_fits r.killGhost (by
    rw [hindex.position, hindex.maxWrite, List.length_append, List.length_singleton,
      intBits_length]
    omega))
  have hposition := hkill.position
  simp only [List.length_append, List.length_singleton, intBits_length] at hposition
  have hflags : Room limit 16 (((w.stream.writeFlag true).writeInt r.index sendSize).writeFlag
      r.killGhost) := hroom.extends_ hkill.toExtends (by omega)
  unfold packRecord
  dsimp only
  cases hkind : r.killGhost with
  | true =>
    rw [hkind] at hkill hflags
    exact ⟨hkill.toExtends, (hflags.mono (Nat.zero_le 16)).room⟩
  | false =>
    rw [hkind] at hkill hflags
    obtain ⟨hext, hle⟩ := writeUpdate_le mDebugObjectSizes O r updateMask
      (w := ⟨_, w.side⟩) hflags
    exact ⟨hkill.toExtends.trans hext, hle⟩

/-- The records leave at least the padding, or none is written. -/
theorem packRecords_le {sendSize : ℕ} (hsize : sendSize ≤ 10) (i : ℕ) (s : GhostServer)
    (updateList : List ℕ) {w : PackStream σ} (hroom : Room limit 28 w.stream) :
    w.stream.Extends (packRecords mDebugObjectSizes O sendSize i s updateList w).2.2.stream ∧
      ((packRecords mDebugObjectSizes O sendSize i s updateList w).2.2.stream.bitNum =
          w.stream.bitNum ∨
        (packRecords mDebugObjectSizes O sendSize i s updateList w).2.2.stream.bitNum +
          minimumPaddingBits ≤ limit) := by
  have hpadding : minimumPaddingBits = 128 := rfl
  induction i generalizing s updateList w with
  | zero => exact ⟨.refl _, .inl rfl⟩
  | succ i ih =>
    unfold packRecords
    by_cases hfull : w.stream.isFull = true
    · rw [if_pos hfull]
      exact ⟨.refl _, .inl rfl⟩
    · rw [if_neg hfull]
      dsimp only
      by_cases hskip : ((s.flags (s.array.mGhostArray i)).killingGhost ||
          (s.flags (s.array.mGhostArray i)).ghosting) = true
      · rw [if_pos hskip]
        exact ih s updateList hroom
      · rw [if_neg hskip]
        obtain ⟨hext, hle⟩ := packRecord_le mDebugObjectSizes O hsize
          (s.recordOf (s.array.mGhostArray i)) (s.updateMask (s.array.mGhostArray i)) hroom
        generalize packRecord mDebugObjectSizes O sendSize (s.recordOf (s.array.mGhostArray i))
          (s.updateMask (s.array.mGhostArray i)) w = written at hext hle ⊢
        obtain ⟨retMask, v⟩ := written
        dsimp only at hext hle ⊢
        have hwritten : Room limit 0 v.stream := hroom.extends_ hext hle
        rw [hwritten.available]
        by_cases hspace : limit - v.stream.bitNum < minimumPaddingBits
        · rw [if_pos hspace]
          exact ⟨hext.rewind, .inl rfl⟩
        · rw [if_neg hspace]
          have hnext : Room limit 28 v.stream := hroom.extends_ hext (by omega)
          obtain ⟨hrest, hbound⟩ := ih (s.writeRecord (s.array.mGhostArray i) retMask)
            (s.nextRef :: updateList) hnext
          refine ⟨hext.trans hrest, .inr ?_⟩
          cases hbound with
          | inl hsame =>
            rw [hsame]
            omega
          | inr hbound => exact hbound

/-- No index needs more than ten bits. -/
theorem freeUnsent_le (i maxIndex : ℕ) (s : GhostServer) (h : maxIndex < maxGhostCount) :
    (freeUnsent i maxIndex s).1 < maxGhostCount := by
  induction i generalizing maxIndex s with
  | zero => exact h
  | succ i ih => exact ih _ _ (max_lt h (s.array.mGhostArray i).isLt)

theorem sendSize_le {maxIndex : ℕ} (h : maxIndex < maxGhostCount) : sendSize maxIndex ≤ 10 := by
  have hlog : Nat.log2 maxIndex < 10 := by
    by_cases hzero : maxIndex = 0
    · rw [hzero]
      decide
    · exact (Nat.log2_lt hzero).mpr h
  unfold sendSize
  omega

theorem packSendSize_wrote (maxIndex : ℕ) {w : PackStream σ} (hroom : Room limit 3 w.stream) :
    w.stream.Wrote (intBits (sendSize maxIndex - 3) 3) (packSendSize maxIndex w).stream :=
  writeInt_fits _ _ (by rw [hroom.maxWrite]; exact hroom.room)

theorem packChecksum_wrote {w : PackStream σ} (hroom : Room limit 32 w.stream) :
    ∃ bits : List Bool, bits.length ≤ 32 ∧
      w.stream.Wrote bits (packChecksum mDebugObjectSizes w).stream := by
  cases mDebugObjectSizes with
  | false => exact ⟨[], Nat.zero_le 32, .nil _⟩
  | true =>
    refine ⟨intBits debugChecksum 32, by simp, writeInt_fits _ _ ?_⟩
    rw [hroom.maxWrite]
    exact hroom.room

theorem packGhosts_le (sort : List Ghost → List Ghost) (s : GhostServer) {w : PackStream σ}
    {room : ℕ} (hroom : Room limit (31 + room) w.stream) (hsmall : 3 + room ≤ 128) :
    w.stream.Extends (packGhosts mDebugObjectSizes O traits sort s w).2.stream ∧
      Room limit room (packGhosts mDebugObjectSizes O traits sort s w).2.stream := by
  have hlimit := hroom.room
  have hindex : (s.prepareGhosts traits sort).1 < maxGhostCount :=
    freeUnsent_le _ 0 _ (by decide)
  unfold packGhosts
  generalize s.prepareGhosts traits sort = prepared at hindex ⊢
  obtain ⟨maxIndex, t⟩ := prepared
  dsimp only at hindex ⊢
  have hsize := packSendSize_wrote maxIndex (hroom.mono (by omega))
  have hposition := hsize.position
  rw [intBits_length] at hposition
  have hstart : Room limit 28 (packSendSize maxIndex w).stream :=
    hroom.extends_ hsize.toExtends (by omega)
  obtain ⟨hext, hbound⟩ := packRecords_le mDebugObjectSizes O
    (sendSize_le hindex) t.array.mGhostZeroUpdateIndex t [] hstart
  have hpadding : minimumPaddingBits = 128 := rfl
  refine ⟨hsize.toExtends.trans hext, hroom.extends_ (hsize.toExtends.trans hext) ?_⟩
  cases hbound with
  | inl hsame =>
    rw [hsame]
    omega
  | inr hbound => exact le_trans (Nat.add_le_add_left (by omega : room ≤ 128) _) hbound

theorem packFlag_le (s : GhostServer) (scopeValid : Bool) {w : PackStream σ} {room : ℕ}
    (hroom : Room limit (33 + room) w.stream) :
    w.stream.Extends (s.packFlag mDebugObjectSizes scopeValid w).stream ∧
      Room limit room (s.packFlag mDebugObjectSizes scopeValid w).stream := by
  have hlimit := hroom.room
  obtain ⟨bits, hlength, hchecksum⟩ := packChecksum_wrote mDebugObjectSizes
    (hroom.mono (Nat.le_add_right_of_le (by decide)))
  have hflag := hchecksum.append (writeFlag_fits (s.mGhosting && scopeValid) (by
    rw [hchecksum.position, hchecksum.maxWrite, hroom.maxWrite]
    omega))
  refine ⟨hflag.toExtends, hroom.extends_ hflag.toExtends ?_⟩
  have hposition := hflag.position
  rw [List.length_append, List.length_singleton] at hposition
  change (s.packFlag mDebugObjectSizes scopeValid w).stream.bitNum = _ at hposition
  omega

/-- Whatever the objects write, the section takes few bits of the space that must be left, and it is
closed. -/
theorem packPacket_le (doesGhostFrom scopeValid : Bool) (sort : List Ghost → List Ghost)
    (s : GhostServer) {w : PackStream σ} {room : ℕ} (hroom : Room limit (65 + room) w.stream)
    (hsmall : 3 + room ≤ 127) :
    w.stream.Extends (s.packPacket mDebugObjectSizes O traits doesGhostFrom scopeValid sort
      w).2.stream ∧
    Room limit room (s.packPacket mDebugObjectSizes O traits doesGhostFrom scopeValid sort
      w).2.stream ∧
    (doesGhostFrom = true → (s.mGhosting && scopeValid) = true →
      (packGhosts mDebugObjectSizes O traits sort s
        (s.packFlag mDebugObjectSizes scopeValid w)).2.stream.Wrote [false]
        (s.packPacket mDebugObjectSizes O traits doesGhostFrom scopeValid sort w).2.stream) := by
  have hlimit := hroom.room
  unfold packPacket
  cases doesGhostFrom with
  | false =>
    obtain ⟨bits, hlength, hchecksum⟩ := packChecksum_wrote mDebugObjectSizes
      (hroom.mono (Nat.le_add_right_of_le (by decide)))
    refine ⟨hchecksum.toExtends, hroom.extends_ hchecksum.toExtends ?_, fun h => nomatch h⟩
    change (packChecksum mDebugObjectSizes w).stream.bitNum + room ≤ limit
    rw [hchecksum.position]
    omega
  | true =>
    obtain ⟨hflag, hflagRoom⟩ := packFlag_le mDebugObjectSizes s scopeValid
      (show Room limit (33 + (32 + room)) w.stream from hroom.mono (by omega))
    rw [if_neg (by decide)]
    dsimp only
    by_cases hghosting : (s.mGhosting && scopeValid) = true
    · rw [if_pos hghosting]
      obtain ⟨hext, hleft⟩ := packGhosts_le mDebugObjectSizes O traits sort s
        (show Room limit (31 + (1 + room)) _ from hflagRoom.mono (by omega)) (by omega)
      have hclose := writeFlag_fits (s := (packGhosts mDebugObjectSizes O traits sort s
        (s.packFlag mDebugObjectSizes scopeValid w)).2.stream) false (by
          rw [hleft.maxWrite]
          have hend := hleft.room
          omega)
      refine ⟨hflag.trans (hext.trans hclose.toExtends), hleft.extends_ hclose.toExtends ?_,
        fun _ _ => hclose⟩
      have hposition := hclose.position
      have hend := hleft.room
      rw [List.length_singleton] at hposition
      change (BitStream.writeFlag _ false).bitNum + room ≤ limit
      omega
    · rw [if_neg hghosting]
      exact ⟨hflag, hflagRoom.mono (by omega), fun _ h => absurd h hghosting⟩

end space

end GhostServer

end TNL
