import TNL.Stream.BitStream

/-!
# Programs that only read

An unpack method that only reads is a sequence of reads, each of which may depend
on what was read before. A read that asks for a bit at or behind the end of the
stream is noted. No code looks at the note; the stream's own error flag misses
a flag right behind the end.
-/
namespace TNL
open BitStream

structure ReadStream where
  stream : BitStream
  past : Bool

namespace ReadStream

def readFlag (s : ReadStream) : Bool × ReadStream :=
  let (val, stream) := s.stream.readFlag
  (val, ⟨stream, s.past || decide (s.stream.maxReadBitNum ≤ s.stream.bitNum)⟩)

def readBits (s : ReadStream) (bitCount : ℕ) : Option (List Bool) × ReadStream :=
  let (bits, stream) := s.stream.readBits bitCount
  (bits, ⟨stream, s.past ||
    decide (bitCount ≠ 0 ∧ s.stream.maxReadBitNum < s.stream.bitNum + bitCount)⟩)

def readInt (s : ReadStream) (bitCount : ℕ) : ℕ × ReadStream :=
  let (bits, s) := s.readBits bitCount
  (bitsInt (bits.getD []), s)

/-- Begin a note of its own. -/
def fresh (s : ReadStream) : ReadStream := { s with past := false }

/-- Add the note begun at `s`. -/
def resume (s t : ReadStream) : ReadStream := { t with past := s.past || t.past }

/-- The stream of a packet, no longer than the largest one, whose position is at most one flag
behind the end. -/
structure Bounded (s : ReadStream) : Prop where
  small : s.stream.maxReadBitNum ≤ maxPacketDataSize * 8
  bitNum_le : s.stream.bitNum ≤ s.stream.maxReadBitNum + 1

/-- The note agrees with the error flag and the position. -/
structure Tracks (s : ReadStream) : Prop extends Bounded s where
  noted : s.past = true → s.stream.error = true ∨ s.stream.maxReadBitNum < s.stream.bitNum

/-- What reading may change. -/
structure Follows (s t : ReadStream) : Prop where
  tracks : t.Tracks
  limit : t.stream.maxReadBitNum = s.stream.maxReadBitNum
  le : s.stream.bitNum ≤ t.stream.bitNum
  error : s.stream.error = true → t.stream.error = true

variable {s t u : ReadStream}

theorem Tracks.follows (h : s.Tracks) : s.Follows s := ⟨h, rfl, le_rfl, id⟩

theorem Follows.trans (h : s.Follows t) (k : t.Follows u) : s.Follows u :=
  ⟨k.tracks, k.limit.trans h.limit, h.le.trans k.le, k.error ∘ h.error⟩

theorem Bounded.fresh (h : s.Bounded) : s.fresh.Tracks :=
  ⟨⟨h.small, h.bitNum_le⟩, fun hpast => absurd hpast (by simp [ReadStream.fresh])⟩

/-- A note of its own is added. -/
theorem Follows.resume (hs : s.Tracks) (h : s.fresh.Follows t) : s.Follows (s.resume t) := by
  refine ⟨⟨⟨h.tracks.small, h.tracks.bitNum_le⟩, fun hpast => ?_⟩, h.limit, h.le, h.error⟩
  rcases Bool.or_eq_true_iff.mp hpast with hold | hnew
  · rcases hs.noted hold with herror | hbehind
    · exact .inl (h.error herror)
    · have hle := h.le
      have hlimit := h.limit
      simp only [ReadStream.fresh, ReadStream.resume] at hle hlimit ⊢
      exact .inr (by omega)
  · exact h.tracks.noted hnew

/-- Only a flag that is set has certainly been read. -/
theorem readFlag_follows (h : s.Tracks) : s.Follows s.readFlag.2 ∧
    (s.readFlag.1 = true → s.stream.bitNum < s.readFlag.2.stream.bitNum) := by
  have hsmall := h.small
  have hle := h.bitNum_le
  unfold maxPacketDataSize at hsmall
  by_cases hbehind : s.stream.bitNum > s.stream.maxReadBitNum
  · have hread : s.stream.readFlag = (false, { s.stream with error := true }) := by
      rw [BitStream.readFlag, if_pos hbehind]
    simp only [readFlag, hread]
    exact ⟨⟨⟨⟨h.small, h.bitNum_le⟩, fun _ => .inl rfl⟩, rfl, le_rfl, fun _ => rfl⟩,
      fun hval => absurd hval (by simp)⟩
  · have hread : s.stream.readFlag =
        (s.stream.buffer s.stream.bitNum, s.stream.setBitPosition (s.stream.bitNum + 1)) := by
      rw [BitStream.readFlag, if_neg hbehind, Nat.mod_eq_of_lt (by omega)]
    simp only [readFlag, hread, setBitPosition]
    refine ⟨⟨⟨⟨h.small, by dsimp only; omega⟩, fun hpast => ?_⟩, rfl, by dsimp only; omega, id⟩,
      fun _ => Nat.lt_succ_self _⟩
    rcases Bool.or_eq_true_iff.mp hpast with hold | hnew
    · exact (h.noted hold).imp id fun hlt => absurd hlt hbehind
    · have := of_decide_eq_true hnew
      exact .inr (by dsimp only; omega)

/-- A count that is small, or lies inside the stream, is read or refused as it should be. -/
theorem readBits_follows (h : s.Tracks) {bitCount : ℕ}
    (hcount : bitCount ≤ 32 ∨ (s.readBits bitCount).2.past = false) :
    s.Follows (s.readBits bitCount).2 := by
  have hsmall := h.small
  have hle := h.bitNum_le
  unfold maxPacketDataSize at hsmall
  by_cases hzero : bitCount = 0
  · subst hzero
    have hread : s.stream.readBits 0 = (some [], s.stream) := by simp [BitStream.readBits]
    simp only [readBits, hread]
    simpa using h.follows
  · have hinside : s.stream.bitNum + bitCount ≤ s.stream.maxReadBitNum ∨ bitCount ≤ 32 := by
      rcases hcount with hcount | hpast
      · exact .inr hcount
      · simp only [readBits, Bool.or_eq_false_iff, decide_eq_false_iff_not, not_and] at hpast
        exact .inl (Nat.le_of_not_lt (hpast.2 hzero))
    have hmod : (bitCount + s.stream.bitNum) % 2 ^ 32 = bitCount + s.stream.bitNum :=
      Nat.mod_eq_of_lt (by omega)
    by_cases hbehind : bitCount + s.stream.bitNum > s.stream.maxReadBitNum
    · have hread : s.stream.readBits bitCount = (none, { s.stream with error := true }) := by
        rw [BitStream.readBits, if_neg hzero, hmod, if_pos hbehind]
      simp only [readBits, hread]
      exact ⟨⟨⟨h.small, h.bitNum_le⟩, fun _ => .inl rfl⟩, rfl, le_rfl, fun _ => rfl⟩
    · have hread : (s.stream.readBits bitCount).2 =
          s.stream.setBitPosition (s.stream.bitNum + bitCount) := by
        rw [BitStream.readBits, if_neg hzero, hmod, if_neg hbehind,
          Nat.mod_eq_of_lt (by omega)]
      simp only [readBits, hread, setBitPosition]
      refine ⟨⟨⟨h.small, by dsimp only; omega⟩, fun hpast => ?_⟩, rfl, by dsimp only; omega, id⟩
      rcases Bool.or_eq_true_iff.mp hpast with hold | hnew
      · exact (h.noted hold).imp id fun hlt => by dsimp only; omega
      · have := of_decide_eq_true hnew
        omega

theorem readInt_follows (h : s.Tracks) {bitCount : ℕ} (hcount : bitCount ≤ 32) :
    s.Follows (s.readInt bitCount).2 :=
  readBits_follows h (.inl hcount)

end ReadStream

/-- A program that reads. -/
inductive Reader (α : Type*) where
  | done (a : α)
  | readFlag (next : Bool → Reader α)
  | readBits (bitCount : ℕ) (next : Option (List Bool) → Reader α)

namespace Reader

variable {α : Type*}

def run : Reader α → ReadStream → α × ReadStream
  | done a, s => (a, s)
  | readFlag next, s => (next s.readFlag.1).run s.readFlag.2
  | readBits bitCount next, s => (next (s.readBits bitCount).1).run (s.readBits bitCount).2

/-- The note is never taken back. -/
theorem past_run (program : Reader α) {s : ReadStream} (h : s.past = true) :
    (program.run s).2.past = true := by
  induction program generalizing s with
  | done a => exact h
  | readFlag next ih => exact ih _ (by simp [ReadStream.readFlag, h])
  | readBits bitCount next ih => exact ih _ (by simp [ReadStream.readBits, h])

/-- A program may go back by a count that wraps, but never leaves the stream. -/
theorem run_bounded (program : Reader α) {s : ReadStream} (h : s.Bounded) :
    (program.run s).2.Bounded ∧
      (program.run s).2.stream.maxReadBitNum = s.stream.maxReadBitNum := by
  induction program generalizing s with
  | done a => exact ⟨h, rfl⟩
  | readFlag next ih =>
    have hflag := (ReadStream.readFlag_follows h.fresh).1
    obtain ⟨hrest, hlimit⟩ := ih s.readFlag.1 (s := s.readFlag.2)
      ⟨hflag.tracks.small, hflag.tracks.bitNum_le⟩
    exact ⟨hrest, hlimit.trans hflag.limit⟩
  | readBits bitCount next ih =>
    have hbits : (s.readBits bitCount).2.Bounded ∧
        (s.readBits bitCount).2.stream.maxReadBitNum = s.stream.maxReadBitNum := by
      simp only [ReadStream.readBits, BitStream.readBits]
      split_ifs with hzero hbehind
      · exact ⟨⟨h.small, h.bitNum_le⟩, rfl⟩
      · exact ⟨⟨h.small, h.bitNum_le⟩, rfl⟩
      · refine ⟨⟨h.small, ?_⟩, rfl⟩
        simp only [setBitPosition]
        omega
    obtain ⟨hrest, hlimit⟩ := ih (s.readBits bitCount).1 hbits.1
    exact ⟨hrest, hlimit.trans hbits.2⟩

/-- A program that stays inside the stream. -/
theorem run_follows (program : Reader α) {s : ReadStream} (h : s.Tracks)
    (hinside : (program.run s).2.past = false) : s.Follows (program.run s).2 := by
  induction program generalizing s with
  | done a => exact h.follows
  | readFlag next ih =>
    have hflag := (ReadStream.readFlag_follows h).1
    exact hflag.trans (ih _ hflag.tracks hinside)
  | readBits bitCount next ih =>
    have hpast : (s.readBits bitCount).2.past = false := by
      by_contra hpast
      have := past_run (next (s.readBits bitCount).1) (by simpa using hpast)
      exact absurd hinside (by rw [run, this]; simp)
    have hbits := ReadStream.readBits_follows h (.inr hpast)
    exact hbits.trans (ih _ hbits.tracks hinside)

end Reader

end TNL
