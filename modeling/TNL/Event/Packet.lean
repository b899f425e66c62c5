import TNL.Event.Framing

/-!
# Written packets are read back

The whole event section of a packet, written by `writePacket` and read by
`readPacket`. When the events fit, the section is the complete records of the
events noted as sent, and reading it unpacks exactly these events. Otherwise it
is too short to hold them.
-/
namespace TNL
open BitStream

namespace EventConnection

variable {ε σ : Type*} {limit : ℕ}

def checksumBits (P : EventParameters) : List Bool :=
  if P.mDebugObjectSizes then intBits debugChecksum 32 else []

/-- The event section from position `p` on. The loops start from the states `side` and
`between`. -/
def sectionBits (P : EventParameters) (E : EventClass ε σ) (unordered ordered : List (EventNote ε))
    (side between : σ) (p : ℕ) : List Bool :=
  let first := (eventCode P E unorderedFlags).encode none unordered side
    (p + (checksumBits P).length)
  checksumBits P ++ (first ++ ([false] ++ ((eventCode P E orderedFlags).encode none ordered between
    (p + (checksumBits P).length + first.length + 1) ++ [false])))

/-- The events outside the send window stop the loop over the ordered events. -/
def outsideWindow (c : EventConnection ε) (ev : EventNote ε) : Bool :=
  ev.mSeqCount > c.mLastAckedEventSeq + eventWindow

/-- The unordered loop of a packet whose section starts at position `p`. -/
def unorderedPlan (c : EventConnection ε) (P : EventParameters) (E : EventClass ε σ)
    (limit size : ℕ) (side : σ) (p : ℕ) : List (EventNote ε) × σ × ℕ :=
  (eventCode P E unorderedFlags).plan limit size (fun _ => false) none c.mUnorderedSendEventQueue
    side (p + (checksumBits P).length)

/-- Every event that leaves at least the padding fits as a whole. -/
def PacketFits (c : EventConnection ε) (P : EventParameters) (E : EventClass ε σ)
    (limit size : ℕ) (side : σ) (p : ℕ) : Prop :=
  (eventCode P E unorderedFlags).Fits limit size (fun _ => false) none c.mUnorderedSendEventQueue
    side (p + (checksumBits P).length) ∧
  (eventCode P E orderedFlags).Fits limit size c.outsideWindow none c.mSendEventQueue
    (c.unorderedPlan P E limit size side p).2.1 ((c.unorderedPlan P E limit size side p).2.2 + 1)

section writing

variable (c : EventConnection ε) (P : EventParameters) (E : EventClass ε σ) (w : PackStream σ)

/-- The stream at the start of the unordered loop. -/
def afterChecksum : PackStream σ :=
  if P.mDebugObjectSizes then { w with stream := w.stream.writeInt debugChecksum 32 } else w

def unorderedRun : List (EventNote ε) × List (EventNote ε) × PackStream σ :=
  recordLoop (fun _ => false) (fun _ => writeUnorderedRecord P E)
    (fun w => (w.stream.writeFlag true).bitNum - 1) none c.mUnorderedSendEventQueue
    (afterChecksum P w)

/-- The stream at the start of the ordered loop. -/
def afterUnordered : PackStream σ :=
  let v := (c.unorderedRun P E w).2.2
  { v with stream := v.stream.writeFlag false }

def orderedRun : List (EventNote ε) × List (EventNote ε) × PackStream σ :=
  recordLoop c.outsideWindow (writeOrderedRecord P E) (fun w => w.stream.bitNum) none
    c.mSendEventQueue (c.afterUnordered P E w)

theorem writePacket_eq : c.writePacket P E w =
    { unordered := (c.unorderedRun P E w).1
      ordered := (c.orderedRun P E w).1
      conn := { c with
        mUnorderedSendEventQueue := (c.unorderedRun P E w).2.1
        mSendEventQueue := (c.orderedRun P E w).2.1 }
      w := { (c.orderedRun P E w).2.2 with
        stream := (c.orderedRun P E w).2.2.stream.writeFlag false } } := rfl

variable {c P E w}

theorem afterChecksum_wrote (hroom : Room limit 128 w.stream) :
    w.stream.Wrote (checksumBits P) (afterChecksum P w).stream ∧
      (afterChecksum P w).side = w.side ∧ Room limit 96 (afterChecksum P w).stream := by
  have hwrote : w.stream.Wrote (checksumBits P) (afterChecksum P w).stream := by
    unfold checksumBits afterChecksum
    cases P.mDebugObjectSizes with
    | false => exact .nil _
    | true => exact writeInt_fits _ _ (by rw [hroom.maxWrite]; have := hroom.room; omega)
  refine ⟨hwrote, by unfold afterChecksum; split <;> rfl, ?_⟩
  refine hroom.extends_ hwrote.toExtends ?_
  have := hroom.room
  have hlength : (checksumBits P).length ≤ 32 := by
    unfold checksumBits
    split <;> simp
  rw [hwrote.position]
  omega

/-- Both loops of a packet, one after the other. -/
theorem loops_spec (hroom : Room limit 128 w.stream) :
    RecordCode.LoopSpec (eventCode P E unorderedFlags) limit none (afterChecksum P w)
      ((eventCode P E unorderedFlags).Fits limit (afterChecksum P w).stream.mBufSize
        (fun _ => false) none c.mUnorderedSendEventQueue (afterChecksum P w).side
        (afterChecksum P w).stream.bitNum)
      (c.unorderedRun P E w).1 (c.unorderedRun P E w).2.2 ∧
    (c.unorderedRun P E w).2.2.stream.Wrote [false] (c.afterUnordered P E w).stream ∧
    RecordCode.LoopSpec (eventCode P E orderedFlags) limit none (c.afterUnordered P E w)
      ((eventCode P E orderedFlags).Fits limit (c.afterUnordered P E w).stream.mBufSize
        c.outsideWindow none c.mSendEventQueue (c.afterUnordered P E w).side
        (c.afterUnordered P E w).stream.bitNum)
      (c.orderedRun P E w).1 (c.orderedRun P E w).2.2 ∧
    (c.orderedRun P E w).2.2.stream.Wrote [false] (c.writePacket P E w).w.stream ∧
    Room limit 64 (c.afterUnordered P E w).stream := by
  have hpadding : BitStream.minimumPaddingBits = 128 := rfl
  obtain ⟨-, -, hroom₁⟩ := afterChecksum_wrote (P := P) hroom
  have hlimit₁ := hroom₁.room
  have hfirst := (unordered_describes (P := P) (E := E)).recordLoop_spec
    (eventCode_fixed_le _) (fun _ => false) none c.mUnorderedSendEventQueue (afterChecksum P w)
    (hroom₁.mono (by simp))
  have hroom₂ : Room limit 96 (c.unorderedRun P E w).2.2.stream := by
    refine hroom₁.extends_ hfirst.extends_ ?_
    have := hfirst.bound
    change (c.unorderedRun P E w).2.2.stream.bitNum = _ ∨
      (c.unorderedRun P E w).2.2.stream.bitNum + _ ≤ limit at this
    omega
  have hlimit₂ := hroom₂.room
  have hflag : (c.unorderedRun P E w).2.2.stream.Wrote [false] (c.afterUnordered P E w).stream :=
    writeFlag_fits false (by rw [hroom₂.maxWrite]; omega)
  have hroom₃ : Room limit 64 (c.afterUnordered P E w).stream :=
    hroom₂.extends_ hflag.toExtends (by rw [hflag.position]; simp; omega)
  have hlimit₃ := hroom₃.room
  have hsecond := (ordered_describes (P := P) (E := E)).recordLoop_spec
    (eventCode_fixed_le _) c.outsideWindow none c.mSendEventQueue (c.afterUnordered P E w)
    (hroom₃.mono (by simp))
  have hroom₄ : Room limit 64 (c.orderedRun P E w).2.2.stream := by
    refine hroom₃.extends_ hsecond.extends_ ?_
    have := hsecond.bound
    change (c.orderedRun P E w).2.2.stream.bitNum = _ ∨
      (c.orderedRun P E w).2.2.stream.bitNum + _ ≤ limit at this
    omega
  have hlimit₄ := hroom₄.room
  exact ⟨hfirst, hflag, hsecond, writeFlag_fits false (by rw [hroom₄.maxWrite]; omega), hroom₃⟩

theorem writePacket_le_limit (hroom : Room limit 128 w.stream) :
    (c.writePacket P E w).w.stream.bitNum ≤ limit := by
  obtain ⟨-, -, hsecond, hend, hroom₃⟩ := loops_spec (c := c) (P := P) (E := E) hroom
  have hlimit := hroom₃.room
  have hpadding : BitStream.minimumPaddingBits = 128 := rfl
  have hposition := hend.position
  have hbound := hsecond.bound
  rw [List.length_singleton] at hposition
  omega

theorem unorderedPlan_eq (hroom : Room limit 128 w.stream)
    (hfits : (eventCode P E unorderedFlags).Fits limit w.stream.mBufSize (fun _ => false) none
      c.mUnorderedSendEventQueue w.side (w.stream.bitNum + (checksumBits P).length)) :
    c.unorderedPlan P E limit w.stream.mBufSize w.side w.stream.bitNum =
      ((c.unorderedRun P E w).1, (c.unorderedRun P E w).2.2.side,
        (c.unorderedRun P E w).2.2.stream.bitNum) := by
  obtain ⟨hchecksum, hside, hroom₁⟩ := afterChecksum_wrote (P := P) hroom
  rw [← hchecksum.position, ← hside, ← hchecksum.size] at hfits
  have hplan := (unordered_describes (P := P) (E := E)).recordLoop_eq_plan (eventCode_fixed_le _)
    (fun _ => false) none c.mUnorderedSendEventQueue (afterChecksum P w) (hroom₁.mono (by simp))
    hfits
  rw [hchecksum.position, hside, hchecksum.size] at hplan
  exact hplan

/-- When the events fit, the section is the complete records of the events sent. -/
theorem writePacket_wrote (hroom : Room limit 128 w.stream)
    (hfits : c.PacketFits P E limit w.stream.mBufSize w.side w.stream.bitNum) :
    w.stream.Wrote (sectionBits P E (c.writePacket P E w).unordered (c.writePacket P E w).ordered
        w.side (c.unorderedPlan P E limit w.stream.mBufSize w.side w.stream.bitNum).2.1
        w.stream.bitNum)
      (c.writePacket P E w).w.stream ∧
    (c.writePacket P E w).unordered =
      (c.unorderedPlan P E limit w.stream.mBufSize w.side w.stream.bitNum).1 := by
  obtain ⟨hchecksum, hside, hroom₁⟩ := afterChecksum_wrote (P := P) hroom
  obtain ⟨hfirst, hflag, hsecond, hend, -⟩ := loops_spec (c := c) (P := P) (E := E) hroom
  obtain ⟨hfits₁, hfits₂⟩ := hfits
  have hsize₁ := hchecksum.size
  have hplan' := unorderedPlan_eq hroom hfits₁
  rw [← hchecksum.position, ← hside, ← hsize₁] at hfits₁
  rw [hplan'] at hfits₂ ⊢
  have hwrote₁ := hfirst.wrote hfits₁
  have hsize₂ : (c.afterUnordered P E w).stream.mBufSize = w.stream.mBufSize :=
    hflag.size.trans (hwrote₁.size.trans hsize₁)
  have hflagpos := hflag.position
  have hwrote₂ := hsecond.wrote (by
    rw [hsize₂, hflagpos]
    exact hfits₂)
  have hpos₂ : (c.afterUnordered P E w).stream.bitNum = w.stream.bitNum +
      (checksumBits P).length + ((eventCode P E unorderedFlags).encode none
        (c.unorderedRun P E w).1 w.side (w.stream.bitNum + (checksumBits P).length)).length + 1 := by
    rw [hflagpos, hwrote₁.position, hside, hchecksum.position, List.length_singleton]
  rw [hpos₂] at hwrote₂
  rw [hside, hchecksum.position] at hwrote₁
  exact ⟨hchecksum.append (hwrote₁.append (hflag.append (hwrote₂.append hend))), rfl⟩

/-- Without any state besides the bits, a section in which some event does not fit is shorter than
the complete records of the events noted as sent. -/
theorem writePacket_short [Subsingleton σ] (hroom : Room limit 128 w.stream)
    (hmisfit : ¬ c.PacketFits P E limit w.stream.mBufSize w.side w.stream.bitNum) :
    (c.writePacket P E w).w.stream.bitNum < w.stream.bitNum +
      (sectionBits P E (c.writePacket P E w).unordered (c.writePacket P E w).ordered
        w.side w.side w.stream.bitNum).length := by
  obtain ⟨hchecksum, hside, hroom₁⟩ := afterChecksum_wrote (P := P) hroom
  obtain ⟨hfirst, hflag, hsecond, hend, -⟩ := loops_spec (c := c) (P := P) (E := E) hroom
  have hsize₁ := hchecksum.size
  have hpos₁ := hchecksum.position
  have hpos₂ := hflag.position
  have hpos₃ := hend.position
  have hside₂ : (c.afterUnordered P E w).side = w.side := Subsingleton.elim _ _
  have hle₁ := hfirst.le
  have hle₂ := hsecond.le
  rw [hside, hpos₁] at hle₁
  rw [hside₂] at hle₂
  have hcongr := (eventCode P E orderedFlags).encode_length_congr none (c.orderedRun P E w).1 w.side
    (c.afterUnordered P E w).stream.bitNum (w.stream.bitNum + (checksumBits P).length +
      ((eventCode P E unorderedFlags).encode none (c.unorderedRun P E w).1 w.side
        (w.stream.bitNum + (checksumBits P).length)).length + 1)
  rw [List.length_singleton] at hpos₂ hpos₃
  simp only [sectionBits, List.length_append, List.length_singleton]
  rw [writePacket_eq] at hpos₃ ⊢
  dsimp only at hpos₃ ⊢
  by_cases hfits₁ : (eventCode P E unorderedFlags).Fits limit w.stream.mBufSize (fun _ => false)
      none c.mUnorderedSendEventQueue w.side (w.stream.bitNum + (checksumBits P).length)
  · have hplan' := unorderedPlan_eq hroom hfits₁
    have hsize₂ : (c.afterUnordered P E w).stream.mBufSize = w.stream.mBufSize :=
      hflag.size.trans (hfirst.extends_.size.trans hsize₁)
    have hshort := hsecond.short (by
      intro hfits₂
      apply hmisfit
      refine ⟨hfits₁, ?_⟩
      rw [hplan']
      rw [hsize₂, hpos₂] at hfits₂
      exact hfits₂)
    rw [hside₂] at hshort
    omega
  · have hshort := hfirst.short (by rw [hside, hpos₁, hsize₁]; exact hfits₁)
    rw [hside, hpos₁] at hshort
    omega

end writing

/-- Every record takes at least one bit. -/
theorem length_le_encode (flags : RecordFlags ε) (previous : Option (EventNote ε))
    (notes : List (EventNote ε)) (side : σ) (p : ℕ) :
    notes.length ≤ ((eventCode P E flags).encode previous notes side p).length := by
  induction notes generalizing previous side p with
  | nil => simp
  | cons note notes ih =>
    have hrest := ih (some note) ((eventCode P E flags).next note side)
      (p + (eventCode P E flags).size previous note side)
    have hflags := flags.length_pos previous note
    have hsize : (flags.bits previous note).length ≤
        ((eventCode P E flags).bits previous note side p).length := by
      simp [eventCode]
    simp only [RecordCode.encode, List.length_append, List.length_cons]
    omega

theorem length_le_sectionBits (unordered ordered : List (EventNote ε)) (side between : σ) (p : ℕ) :
    unordered.length + ordered.length ≤
      (sectionBits P E unordered ordered side between p).length := by
  have hfirst := length_le_encode (P := P) (E := E) unorderedFlags none unordered side
    (p + (checksumBits P).length)
  have hsecond := length_le_encode (P := P) (E := E) orderedFlags none ordered between
    (p + (checksumBits P).length + ((eventCode P E unorderedFlags).encode none unordered side
      (p + (checksumBits P).length)).length + 1)
  simp only [sectionBits, List.length_append]
  omega

section queues

variable (c : EventConnection ε) (P : EventParameters) (E : EventClass ε σ) (w : PackStream σ)

/-- The events sent are the first ones of each queue. -/
theorem writePacket_unordered : c.mUnorderedSendEventQueue = (c.writePacket P E w).unordered ++
    (c.writePacket P E w).conn.mUnorderedSendEventQueue :=
  recordLoop_append ..

theorem writePacket_ordered : c.mSendEventQueue = (c.writePacket P E w).ordered ++
    (c.writePacket P E w).conn.mSendEventQueue :=
  recordLoop_append ..

theorem writePacket_window : ∀ n ∈ (c.writePacket P E w).ordered,
    n.mSeqCount ≤ c.mLastAckedEventSeq + eventWindow := by
  intro n hn
  have hstop := recordLoop_stop c.outsideWindow (writeOrderedRecord P E)
    (fun w => w.stream.bitNum) none c.mSendEventQueue (c.afterUnordered P E w) n hn
  simpa [outsideWindow] using hstop

end queues

end EventConnection

end TNL
