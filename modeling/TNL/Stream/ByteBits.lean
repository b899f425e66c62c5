import TNL.Stream.ByteStream

/-!
# The operations on bytes are those on bits

Each path of `writeBits` stores exactly the bits of its source at the position
and no others, and each path of `readBits` copies exactly the bits at the
position. With the bits of its buffer for the buffer, every operation is the one
of `BitStream`.
-/
namespace TNL

namespace ByteStream
open BitStream

variable {s : ByteStream} {sourcePtr buffer : ℕ → U8} {k n u b : ℕ}

theorem lowMask_getLsbD : ∀ n ≤ 8, ∀ b < 8, (((1 : U8) <<< n) - 1).getLsbD b = decide (b < n) := by
  decide

theorem highMask_getLsbD : ∀ n ≤ 8, ∀ b < 8, ((0xFF : U8) >>> n).getLsbD b = decide (b + n < 8) := by
  decide

/-- Replacing the bits of a byte under a mask. -/
theorem masked_getLsbD (old new mask : U8) (hb : b < 8) :
    ((old &&& ~~~mask) ||| (new &&& mask)).getLsbD b =
      if mask.getLsbD b then new.getLsbD b else old.getLsbD b := by
  simp only [BitVec.getLsbD_or, BitVec.getLsbD_and, BitVec.getLsbD_not, hb, decide_true,
    Bool.true_and]
  cases mask.getLsbD b <;> simp

theorem copyBytes_apply (n dest source : ℕ) (buffer : ℕ → U8) (j : ℕ) :
    copyBytes sourcePtr n dest source buffer j =
      if dest ≤ j ∧ j < dest + n then sourcePtr (source + (j - dest)) else buffer j := by
  induction n generalizing dest source buffer with
  | zero =>
    rw [copyBytes, if_neg (by omega)]
  | succ n ih =>
    rw [copyBytes, ih, Function.update_apply]
    split_ifs with h₁ h₂ h₃ h₄
    · congr 1
      omega
    · omega
    · subst h₃
      simp
    · omega
    · omega
    · rfl

/-- The bits that a byte takes over from the one before. -/
def carry (sourcePtr : ℕ → U8) (downShift : ℕ) (first : U8) (source : ℕ) : ℕ → U8
  | 0 => first
  | k + 1 => sourcePtr (source + k) >>> downShift

theorem shiftBytes_fst (sourcePtr : ℕ → U8) (upShift downShift n dest source : ℕ) (first : U8)
    (buffer : ℕ → U8) :
    (shiftBytes sourcePtr upShift downShift n dest source first buffer).1 =
      carry sourcePtr downShift first source n := by
  induction n generalizing dest source first buffer with
  | zero => rfl
  | succ n ih =>
    rw [shiftBytes, ih]
    cases n with
    | zero => rfl
    | succ n => simp only [carry, Nat.add_right_comm, Nat.add_assoc]

theorem shiftBytes_snd (sourcePtr : ℕ → U8) (upShift downShift n dest source : ℕ) (first : U8)
    (buffer : ℕ → U8) (j : ℕ) :
    (shiftBytes sourcePtr upShift downShift n dest source first buffer).2 j =
      if dest ≤ j ∧ j < dest + n then
        carry sourcePtr downShift first source (j - dest) |||
          (sourcePtr (source + (j - dest)) <<< upShift)
      else buffer j := by
  induction n generalizing dest source first buffer with
  | zero => rw [shiftBytes, if_neg (by omega)]
  | succ n ih =>
    rw [shiftBytes, ih, Function.update_apply]
    by_cases hlow : j = dest
    · subst hlow
      rw [if_neg (by omega), if_pos rfl, if_pos (by omega), Nat.sub_self]
      rfl
    · rw [if_neg hlow]
      by_cases hin : dest + 1 ≤ j ∧ j < dest + 1 + n
      · obtain ⟨k, rfl⟩ : ∃ k, j = dest + 1 + k := ⟨j - (dest + 1), by omega⟩
        rw [if_pos hin, if_pos (by omega), Nat.add_sub_cancel_left,
          show dest + 1 + k - dest = k + 1 by omega, Nat.add_assoc source 1 k, Nat.add_comm 1 k]
        congr 1
        cases k with
        | zero => rfl
        | succ k => simp only [carry, Nat.add_right_comm, Nat.add_assoc]
      · rw [if_neg hin, if_neg (by omega)]

theorem shifted_getLsbD (x : U8) (hb : b < 8) :
    (x <<< u).getLsbD b = (decide (u ≤ b) && x.getLsbD (b - u)) := by
  rw [BitVec.getLsbD_shiftLeft, decide_eq_true hb, Bool.true_and, ← decide_not]
  simp only [Nat.not_lt]

/-- Two neighbouring bytes joined over their border. -/
theorem straddle_getLsbD (bytes : ℕ → U8) (j : ℕ) {v : ℕ} (hv : 0 < v) (hv' : v < 8) (hb : b < 8) :
    ((bytes j >>> v) ||| (bytes (j + 1) <<< (8 - v))).getLsbD b = bit bytes (8 * j + v + b) := by
  rw [BitVec.getLsbD_or, BitVec.getLsbD_ushiftRight, shifted_getLsbD _ hb, bit]
  by_cases hlow : v + b < 8
  · rw [show (8 * j + v + b) / 8 = j by omega, show (8 * j + v + b) % 8 = v + b by omega]
    simp [show ¬ 8 - v ≤ b by omega]
  · rw [show (8 * j + v + b) / 8 = j + 1 by omega,
      show (8 * j + v + b) % 8 = b - (8 - v) by omega, BitVec.getLsbD_of_ge _ _ (by omega)]
    simp [show 8 - v ≤ b by omega]

/-- Byte `k` of the bytes written over borders, above the bits `first` that stay. -/
theorem merged_getLsbD (first : U8) (hu : 0 < u) (hu' : u < 8) (hb : b < 8)
    (hfirst : u ≤ b → first.getLsbD b = false) :
    (carry sourcePtr (8 - u) first 0 k ||| (sourcePtr k <<< u)).getLsbD b =
      if 8 * k + b < u then first.getLsbD b else bit sourcePtr (8 * k + b - u) := by
  cases k with
  | zero =>
    rw [carry, BitVec.getLsbD_or, shifted_getLsbD _ hb, bit]
    by_cases hlow : b < u
    · simp [hlow, show ¬ u ≤ b by omega]
    · rw [hfirst (by omega), if_neg (by omega), show (8 * 0 + b - u) / 8 = 0 by omega,
        show (8 * 0 + b - u) % 8 = b - u by omega]
      simp [show u ≤ b by omega]
  | succ k =>
    rw [carry, Nat.zero_add, if_neg (by omega)]
    have hstraddle := straddle_getLsbD sourcePtr k (v := 8 - u) (by omega) (by omega) hb
    rw [show 8 - (8 - u) = u by omega] at hstraddle
    rw [hstraddle]
    congr 1
    omega

/-- The bits carried over alone. -/
theorem carry_getLsbD (first : U8) (hu : 0 < u) (hu' : u < 8) (hb : b < u) :
    (carry sourcePtr (8 - u) first 0 k).getLsbD b =
      if k = 0 then first.getLsbD b else bit sourcePtr (8 * k + b - u) := by
  cases k with
  | zero => rfl
  | succ k =>
    rw [carry, Nat.zero_add, if_neg (by omega), BitVec.getLsbD_ushiftRight, bit,
      show (8 * (k + 1) + b - u) / 8 = k by omega,
      show (8 * (k + 1) + b - u) % 8 = 8 - u + b by omega]

/-- What storing `n` bits of a source at a position makes of a buffer. -/
def stored (buffer sourcePtr : ℕ → U8) (p n i : ℕ) : Bool :=
  if p ≤ i ∧ i < p + n then bit sourcePtr (i - p) else bit buffer i

theorem store_short (hn : n ≤ 8 - s.bitNum % 8) (i : ℕ) :
    bit (s.store n sourcePtr).buffer i = stored s.buffer sourcePtr s.bitNum n i := by
  have hb : i % 8 < 8 := Nat.mod_lt _ (by decide)
  simp only [store, ge_iff_le, hn, if_true, bit, stored, Function.update_apply]
  by_cases hj : i / 8 = s.bitNum / 8
  · rw [if_pos hj, masked_getLsbD _ _ _ hb, shifted_getLsbD _ hb, shifted_getLsbD _ hb]
    by_cases hlow : s.bitNum % 8 ≤ i % 8
    · rw [lowMask_getLsbD n (by omega) _ (by omega)]
      by_cases hin : i % 8 - s.bitNum % 8 < n
      · rw [if_pos (show s.bitNum ≤ i ∧ i < s.bitNum + n by omega),
          show (i - s.bitNum) / 8 = 0 by omega,
          show (i - s.bitNum) % 8 = i % 8 - s.bitNum % 8 by omega]
        simp [hlow, hin]
      · rw [if_neg (show ¬ (s.bitNum ≤ i ∧ i < s.bitNum + n) by omega), hj]
        simp [hin]
    · rw [if_neg (show ¬ (s.bitNum ≤ i ∧ i < s.bitNum + n) by omega), hj]
      simp [hlow]
  · rw [if_neg hj, if_neg (by omega)]

theorem store_aligned (hn : ¬ n ≤ 8 - s.bitNum % 8) (hu : s.bitNum % 8 = 0) (i : ℕ) :
    bit (s.store n sourcePtr).buffer i = stored s.buffer sourcePtr s.bitNum n i := by
  have hb : i % 8 < 8 := Nat.mod_lt _ (by decide)
  rw [hu] at hn
  have hwhole : bit (copyBytes sourcePtr (n / 8) (s.bitNum / 8) 0 s.buffer) i =
      stored s.buffer sourcePtr s.bitNum (n / 8 * 8) i := by
    rw [bit, copyBytes_apply, Nat.zero_add, stored]
    by_cases hin : s.bitNum / 8 ≤ i / 8 ∧ i / 8 < s.bitNum / 8 + n / 8
    · rw [if_pos hin, if_pos (by omega), bit, show (i - s.bitNum) / 8 = i / 8 - s.bitNum / 8 by omega,
        show (i - s.bitNum) % 8 = i % 8 by omega]
    · rw [if_neg hin, if_neg (by omega), bit]
  simp only [store, hu, ge_iff_le, hn, if_false, if_true]
  split_ifs with hrest
  · rw [hwhole, show n / 8 * 8 = n by omega]
  · rw [bit, Function.update_apply]
    by_cases hj : i / 8 = s.bitNum / 8 + n / 8
    · rw [if_pos hj, BitVec.or_comm, ← hj, masked_getLsbD _ _ _ hb,
        lowMask_getLsbD _ (by omega) _ hb, stored]
      by_cases hin : i % 8 < n % 8
      · rw [if_pos (decide_eq_true hin), if_pos (by omega), bit,
          show (i - s.bitNum) / 8 = n / 8 by omega, show (i - s.bitNum) % 8 = i % 8 by omega]
      · rw [if_neg (by simpa using hin), if_neg (by omega)]
        rw [bit] at hwhole
        rw [hwhole, stored, if_neg (by omega)]
    · rw [if_neg hj]
      rw [bit] at hwhole
      rw [hwhole, stored, stored]
      by_cases hin : s.bitNum ≤ i ∧ i < s.bitNum + n / 8 * 8
      · rw [if_pos hin, if_pos (by omega)]
      · rw [if_neg hin, if_neg (by omega)]

theorem store_unaligned (hn : ¬ n ≤ 8 - s.bitNum % 8) (hu : s.bitNum % 8 ≠ 0) (i : ℕ) :
    bit (s.store n sourcePtr).buffer i = stored s.buffer sourcePtr s.bitNum n i := by
  have hb : i % 8 < 8 := Nat.mod_lt _ (by decide)
  set u := s.bitNum % 8 with hu'
  set dest := s.bitNum / 8 with hdest
  have hpos : s.bitNum = 8 * dest + u := by omega
  have hu₀ : 0 < u := Nat.pos_of_ne_zero hu
  have hu₈ : u < 8 := Nat.mod_lt _ (by decide)
  set first := s.buffer dest &&& ((0xFF : U8) >>> (8 - u)) with hfirst
  have first_bit : ∀ b < 8, first.getLsbD b = (decide (b < u) && (s.buffer dest).getLsbD b) := by
    intro b hb
    rw [hfirst, BitVec.getLsbD_and, highMask_getLsbD _ (by omega) _ hb, Bool.and_comm]
    congr 1
    exact decide_eq_decide.mpr (by omega)
  have first_high : ∀ b < 8, u ≤ b → first.getLsbD b = false := by
    intro b hb hle
    rw [first_bit b hb, decide_eq_false (by omega), Bool.false_and]
  have first_low : ∀ b < u, first.getLsbD b = (s.buffer dest).getLsbD b := by
    intro b hb
    rw [first_bit b (by omega), decide_eq_true hb, Bool.true_and]
  -- every byte joined from two of the source holds the bits it should
  have joined : ∀ k b, b < 8 → (carry sourcePtr (8 - u) first 0 k ||| (sourcePtr k <<< u)).getLsbD b =
      if 8 * k + b < u then bit s.buffer (8 * (dest + k) + b)
      else bit sourcePtr (8 * (dest + k) + b - s.bitNum) := by
    intro k b hb
    rw [merged_getLsbD first hu₀ hu₈ hb (first_high b hb)]
    split_ifs with hlow
    · obtain rfl : k = 0 := by omega
      rw [first_low b (by omega), bit, show (8 * (dest + 0) + b) / 8 = dest by omega,
        show (8 * (dest + 0) + b) % 8 = b by omega]
    · congr 1
      omega
  have hlast : ∀ b < 8, ((0xFF : U8) >>> (7 - (s.bitNum + n - 1) % 8)).getLsbD b =
      decide (b ≤ (s.bitNum + n - 1) % 8) := by
    intro b hb
    rw [highMask_getLsbD _ (by omega) _ hb]
    exact decide_eq_decide.mpr (by omega)
  have hfst := shiftBytes_fst sourcePtr u (8 - u) (n / 8) dest 0 first s.buffer
  have hsnd := shiftBytes_snd sourcePtr u (8 - u) (n / 8) dest 0 first s.buffer
  simp only [store, ge_iff_le, ← hu', ← hdest, ← hfirst, hn, hu, if_false]
  generalize shiftBytes sourcePtr u (8 - u) (n / 8) dest 0 first s.buffer = result at *
  obtain ⟨destByte, buffer⟩ := result
  dsimp only at *
  subst hfst
  -- the bytes of the loop, and those it does not reach
  have looped : i / 8 < dest + n / 8 →
      (buffer (i / 8)).getLsbD (i % 8) = stored s.buffer sourcePtr s.bitNum n i := by
    intro hlow
    rw [hsnd, stored]
    by_cases hin : dest ≤ i / 8
    · rw [if_pos ⟨hin, hlow⟩, Nat.zero_add, joined _ _ hb,
        show 8 * (dest + (i / 8 - dest)) + i % 8 = i by omega]
      split_ifs <;> first | rfl | omega
    · rw [if_neg (by omega), if_neg (by omega), bit]
  have beyond : dest + n / 8 ≤ i / 8 → (buffer (i / 8)).getLsbD (i % 8) = bit s.buffer i := by
    intro hhigh
    rw [hsnd, if_neg (by omega), bit]
  have elsewhere : i / 8 ≠ dest + n / 8 → (i / 8 = dest + n / 8 + 1 → s.bitNum + n ≤ i) →
      (buffer (i / 8)).getLsbD (i % 8) = stored s.buffer sourcePtr s.bitNum n i := by
    intro hne hnext
    by_cases hlow : i / 8 < dest + n / 8
    · exact looped hlow
    · rw [beyond (by omega), stored, if_neg (by omega)]
  split_ifs with hrest hfit
  · -- the bits carried over from the last whole byte
    rw [bit, Function.update_apply]
    by_cases hj : i / 8 = dest + n / 8
    · rw [if_pos hj, masked_getLsbD _ _ _ hb, hlast _ hb, ← hj, beyond hj.ge, stored]
      by_cases hin : i % 8 ≤ (s.bitNum + n - 1) % 8
      · rw [if_pos (decide_eq_true hin), if_pos (by omega),
          carry_getLsbD first hu₀ hu₈ (by omega), if_neg (by omega)]
        congr 1
        omega
      · rw [if_neg (by simpa using hin), if_neg (by omega)]
    · rw [if_neg hj]
      exact elsewhere hj (by omega)
  · -- some more bits, which end in the same byte
    rw [bit, Function.update_apply]
    by_cases hj : i / 8 = dest + n / 8
    · rw [if_pos hj, masked_getLsbD _ _ _ hb, hlast _ hb, joined _ _ hb, ← hj, beyond hj.ge, stored,
        show 8 * (i / 8) + i % 8 = i by omega]
      by_cases hin : i % 8 ≤ (s.bitNum + n - 1) % 8
      · rw [if_pos (decide_eq_true hin)]
        split_ifs <;> first | rfl | omega
      · rw [if_neg (by simpa using hin), if_neg (by omega)]
    · rw [if_neg hj]
      exact elsewhere hj (by omega)
  · -- some more bits, the last of which go into the next byte
    rw [bit, Function.update_apply, Function.update_of_ne (show dest + n / 8 + 1 ≠ dest + n / 8 by omega),
      Function.update_apply]
    by_cases hj : i / 8 = dest + n / 8 + 1
    · rw [if_pos hj, masked_getLsbD _ _ _ hb, hlast _ hb, ← hj, beyond (by omega), stored]
      by_cases hin : i % 8 ≤ (s.bitNum + n - 1) % 8
      · rw [if_pos (decide_eq_true hin), if_pos (by omega), BitVec.getLsbD_ushiftRight, bit,
          show (i - s.bitNum) / 8 = n / 8 by omega,
          show (i - s.bitNum) % 8 = 8 - u + i % 8 by omega]
      · rw [if_neg (by simpa using hin), if_neg (by omega)]
    · rw [if_neg hj]
      by_cases hj' : i / 8 = dest + n / 8
      · rw [if_pos hj', joined _ _ hb, ← hj', show 8 * (i / 8) + i % 8 = i by omega, stored]
        split_ifs <;> first | rfl | omega
      · rw [if_neg hj']
        exact elsewhere hj' fun h => absurd h hj

/-- Storing changes exactly the bits at the position. -/
theorem store_bit (s : ByteStream) (n : ℕ) (sourcePtr : ℕ → U8) (i : ℕ) :
    bit (s.store n sourcePtr).buffer i = stored s.buffer sourcePtr s.bitNum n i := by
  by_cases hshort : n ≤ 8 - s.bitNum % 8
  · exact store_short hshort i
  · by_cases haligned : s.bitNum % 8 = 0
    · exact store_aligned hshort haligned i
    · exact store_unaligned hshort haligned i

/-- Loading copies the bits at the position. -/
theorem load_bit (s : ByteStream) (destPtr : ℕ → U8) {n i : ℕ} (hi : i < n) :
    bit (s.load n destPtr) i = bit s.buffer (s.bitNum + i) := by
  have hb : i % 8 < 8 := Nat.mod_lt _ (by decide)
  set v := s.bitNum % 8 with hv
  set source := s.bitNum / 8 with hsource
  have hpos : s.bitNum = 8 * source + v := by omega
  simp only [load, ← hv, ← hsource]
  by_cases hv₀ : v = 0
  · rw [if_pos hv₀, bit, copyBytes_apply, if_pos (by omega), bit,
      show (s.bitNum + i) / 8 = source + (i / 8 - 0) by omega,
      show (s.bitNum + i) % 8 = i % 8 by omega]
  · have hv₈ : v < 8 := Nat.mod_lt _ (by decide)
    rw [if_neg hv₀]
    have hcarry : ∀ k, carry s.buffer v (s.buffer source >>> v) (source + 1) k =
        s.buffer (source + k) >>> v := by
      intro k
      cases k with
      | zero => rfl
      | succ k => rw [carry, show source + 1 + k = source + (k + 1) by omega]
    have hjoined : ∀ k b, b < 8 → ((s.buffer (source + k) >>> v) |||
        (s.buffer (source + 1 + k) <<< (8 - v))).getLsbD b = bit s.buffer (s.bitNum + (8 * k + b)) := by
      intro k b hb
      rw [show source + 1 + k = source + k + 1 by omega, straddle_getLsbD _ _ (by omega) hv₈ hb]
      congr 1
      omega
    have hfst := shiftBytes_fst s.buffer (8 - v) v (n / 8) 0 (source + 1)
      (s.buffer source >>> v) destPtr
    have hsnd := shiftBytes_snd s.buffer (8 - v) v (n / 8) 0 (source + 1)
      (s.buffer source >>> v) destPtr
    generalize shiftBytes s.buffer (8 - v) v (n / 8) 0 (source + 1) (s.buffer source >>> v) destPtr =
      result at *
    obtain ⟨sourceByte, dest⟩ := result
    dsimp only at *
    subst hfst
    have looped : i / 8 < n / 8 → (dest (i / 8)).getLsbD (i % 8) = bit s.buffer (s.bitNum + i) := by
      intro hlow
      rw [hsnd, if_pos (by omega), Nat.sub_zero, hcarry, hjoined _ _ hb,
        show 8 * (i / 8) + i % 8 = i by omega]
    split_ifs with hrest hfit
    · rw [bit, looped (by omega)]
    · rw [bit, Function.update_apply]
      by_cases hj : i / 8 = n / 8
      · rw [if_pos hj, hcarry, BitVec.getLsbD_ushiftRight, bit,
          show (s.bitNum + i) / 8 = source + n / 8 by omega,
          show (s.bitNum + i) % 8 = v + i % 8 by omega]
      · rw [if_neg hj, looped (by omega)]
    · rw [bit, Function.update_apply]
      by_cases hj : i / 8 = n / 8
      · rw [if_pos hj, hcarry, show source + n / 8 + 1 = source + 1 + n / 8 by omega,
          hjoined _ _ hb, ← hj, show 8 * (i / 8) + i % 8 = i by omega]
      · rw [if_neg hj, looped (by omega)]

/-- The first bits of a byte sequence. -/
def sourceBits (n : ℕ) (bytes : ℕ → U8) : List Bool := (List.range n).map (bit bytes)

@[simp] theorem sourceBits_length (n : ℕ) (bytes : ℕ → U8) : (sourceBits n bytes).length = n := by
  simp [sourceBits]

theorem sourceBits_eq_nil (n : ℕ) (bytes : ℕ → U8) : sourceBits n bytes = [] ↔ n = 0 := by
  rw [← List.length_eq_zero_iff, sourceBits_length]

theorem store_bits (s : ByteStream) (n : ℕ) (sourcePtr : ℕ → U8) :
    (s.store n sourcePtr).bits = s.bits.store (sourceBits n sourcePtr) := by
  have hbuffer : bit (s.store n sourcePtr).buffer =
      (s.bits.store (sourceBits n sourcePtr)).buffer := by
    ext i
    rw [store_bit, stored]
    by_cases hlow : s.bitNum ≤ i
    · by_cases hin : i - s.bitNum < n
      · simp [BitStream.store, bits, hlow, sourceBits, List.getD, hin,
          show i < s.bitNum + n by omega]
      · simp [BitStream.store, bits, hlow, sourceBits, List.getD, hin,
          show ¬ i < s.bitNum + n by omega]
    · simp [BitStream.store, bits, hlow]
  change { s.bits with
    buffer := bit (s.store n sourcePtr).buffer, bitNum := s.bitNum + n } = _
  rw [hbuffer, BitStream.store, sourceBits_length]
  rfl

theorem resize_bits (s : ByteStream) (newBufferSize : ℕ) :
    s.bits.resize newBufferSize =
      ((s.resize newBufferSize).1, (s.resize newBufferSize).2.bits) := by
  rw [BitStream.resize, resize, show s.bits.mBufSize = s.mBufSize from rfl,
    show s.bits.mOwnsMemory = s.mOwnsMemory from rfl]
  split_ifs <;> rfl

theorem resizeBits_bits (s : ByteStream) (newBits : ℕ) :
    s.bits.resizeBits newBits = ((s.resizeBits newBits).1, (s.resizeBits newBits).2.bits) := by
  rw [BitStream.resizeBits, resizeBits, resize_bits,
    show s.bits.maxWriteBitNum = s.maxWriteBitNum from rfl]
  generalize s.resize ((s.maxWriteBitNum + newBits + 7) / 8 + resizePad) = result
  obtain ⟨resized, t⟩ := result
  cases resized <;> rfl

theorem writeBits_bits (s : ByteStream) (n : ℕ) (bitPtr : ℕ → U8) :
    s.bits.writeBits (sourceBits n bitPtr) =
      ((s.writeBits n bitPtr).1, (s.writeBits n bitPtr).2.bits) := by
  have hnum : s.bits.bitNum = s.bitNum := rfl
  have hmax : s.bits.maxWriteBitNum = s.maxWriteBitNum := rfl
  rw [BitStream.writeBits, writeBits]
  simp only [sourceBits_eq_nil, sourceBits_length, resizeBits_bits, hnum, hmax, ← store_bits]
  split_ifs <;> rfl

theorem setFlag_getLsbD (x : U8) (val : Bool) {m : ℕ} (hm : m < 8) (b : ℕ) :
    (if val then x ||| ((1 : U8) <<< m) else x &&& ~~~((1 : U8) <<< m)).getLsbD b =
      if b = m then val else x.getLsbD b := by
  have hone : ((1 : U8) <<< m).getLsbD b = decide (b = m) := by
    rw [show (1 : U8) <<< m = BitVec.twoPow 8 m from (BitVec.twoPow_eq 8 m).symm,
      BitVec.getLsbD_twoPow]
    simp [hm, eq_comm]
  cases val with
  | true =>
    rw [if_pos rfl, BitVec.getLsbD_or, hone]
    by_cases hb : b = m
    · rw [if_pos hb, decide_eq_true hb, Bool.or_true]
    · rw [if_neg hb, decide_eq_false hb, Bool.or_false]
  | false =>
    rw [if_neg Bool.false_ne_true, BitVec.getLsbD_and, BitVec.getLsbD_not, hone]
    by_cases hb : b = m
    · rw [if_pos hb, decide_eq_true hb, Bool.not_true, Bool.and_false, Bool.and_false]
    · rw [if_neg hb, decide_eq_false hb, Bool.not_false, Bool.and_true]
      by_cases hin : b < 8
      · rw [decide_eq_true hin, Bool.and_true]
      · rw [BitVec.getLsbD_of_ge x b (Nat.not_lt.mp hin), Bool.false_and]

theorem store_flag_apply (s : BitStream) (val : Bool) (i : ℕ) :
    (s.store [val]).buffer i = if i = s.bitNum then val else s.buffer i := by
  simp only [BitStream.store]
  by_cases hi : i = s.bitNum
  · rw [if_pos hi, if_pos hi.ge, hi, Nat.sub_self, List.getD_cons_zero]
  · rw [if_neg hi]
    by_cases hlow : s.bitNum ≤ i
    · have hout : [val].length ≤ i - s.bitNum := by
        rw [List.length_singleton]
        omega
      rw [if_pos hlow, List.getD_eq_default _ _ hout]
    · rw [if_neg hlow]

theorem storeFlag_bits (s : ByteStream) (val : Bool) :
    (s.storeFlag val).bits = s.bits.store [val] := by
  have hbuffer : bit (s.storeFlag val).buffer = (s.bits.store [val]).buffer := by
    ext i
    have hb : i % 8 < 8 := Nat.mod_lt _ (by decide)
    rw [store_flag_apply]
    change _ = if i = s.bitNum then val else bit s.buffer i
    simp only [storeFlag, bit, Function.update_apply]
    by_cases hj : i / 8 = s.bitNum / 8
    · rw [if_pos hj, setFlag_getLsbD _ _ (Nat.mod_lt _ (by decide)), hj]
      by_cases hi : i = s.bitNum
      · rw [if_pos hi, if_pos (congrArg (· % 8) hi)]
      · rw [if_neg hi, if_neg (by omega)]
    · rw [if_neg hj, if_neg fun hi => hj (congrArg (· / 8) hi)]
  change { s.bits with
    buffer := bit (s.storeFlag val).buffer, bitNum := s.bitNum + 1 } = _
  rw [hbuffer]
  rfl

theorem writeFlag_bits (s : ByteStream) (val : Bool) :
    s.bits.writeFlag val = (s.writeFlag val).bits := by
  have hnum : s.bits.bitNum = s.bitNum := rfl
  have hmax : s.bits.maxWriteBitNum = s.maxWriteBitNum := rfl
  rw [BitStream.writeFlag, writeFlag]
  simp only [resizeBits_bits, hnum, hmax, ← storeFlag_bits]
  split_ifs <;> rfl

theorem readFlag_bits (s : ByteStream) :
    s.bits.readFlag = (s.readFlag.1, s.readFlag.2.bits) := by
  have hbit : s.bits.buffer s.bitNum =
      decide (s.buffer (s.bitNum / 8) &&& ((1 : U8) <<< (s.bitNum % 8)) ≠ 0) := by
    have hb : s.bitNum % 8 < 8 := Nat.mod_lt _ (by decide)
    rw [show (1 : U8) <<< (s.bitNum % 8) = BitVec.twoPow 8 (s.bitNum % 8) from
      (BitVec.twoPow_eq 8 _).symm, BitVec.and_twoPow]
    change (s.buffer (s.bitNum / 8)).getLsbD (s.bitNum % 8) = _
    generalize s.bitNum % 8 = b at hb
    cases (s.buffer (s.bitNum / 8)).getLsbD b with
    | false => simp
    | true => revert b; decide
  rw [BitStream.readFlag, readFlag, show s.bits.bitNum = s.bitNum from rfl, hbit]
  change (if s.bitNum > s.maxReadBitNum then _ else _) = _
  split_ifs <;> rfl

theorem readBits_bits (s : ByteStream) (n : ℕ) (bitPtr : ℕ → U8) :
    s.bits.readBits n =
      (if (s.readBits n bitPtr).1 then some (sourceBits n (s.readBits n bitPtr).2.1) else none,
        (s.readBits n bitPtr).2.2.bits) := by
  have hwindow : s.bits.window s.bitNum n = sourceBits n (s.load n bitPtr) :=
    List.map_congr_left fun i hi => (load_bit s bitPtr (List.mem_range.mp hi)).symm
  rw [BitStream.readBits, readBits, show s.bits.bitNum = s.bitNum from rfl, hwindow,
    show s.bits.maxReadBitNum = s.maxReadBitNum from rfl]
  by_cases hzero : n = 0
  · subst hzero
    rfl
  · rw [if_neg hzero, if_neg hzero]
    by_cases hlimit : (n + s.bitNum) % 2 ^ 32 > s.maxReadBitNum
    · rw [if_pos hlimit, if_pos hlimit]
      rfl
    · rw [if_neg hlimit, if_neg hlimit]
      rfl

theorem intBytes_bit (val : BitVec 32) (i : ℕ) : bit (intBytes val) i = val.getLsbD i := by
  have hb : i % 8 < 8 := Nat.mod_lt _ (by decide)
  rw [bit, intBytes, BitVec.getLsbD_setWidth, BitVec.getLsbD_ushiftRight, Nat.div_add_mod,
    decide_eq_true hb, Bool.true_and]

theorem sourceBits_intBytes (n : ℕ) (val : BitVec 32) :
    sourceBits n (intBytes val) = intBits val.toNat n :=
  List.map_congr_left fun i _ => intBytes_bit val i

theorem writeInt_bits (s : ByteStream) (val : BitVec 32) (n : ℕ) :
    s.bits.writeInt val.toNat n = (s.writeInt val n).bits := by
  rw [BitStream.writeInt, ← sourceBits_intBytes, writeBits_bits, writeInt]

/-- The integer in four bytes. -/
theorem word_getLsbD (bytes : ℕ → U8) {i : ℕ} (hi : i < 32) :
    (bytes 3 ++ bytes 2 ++ bytes 1 ++ bytes 0 : BitVec 32).getLsbD i = bit bytes i := by
  simp only [BitVec.getLsbD_append, bit]
  obtain h | h | h | h : i / 8 = 0 ∨ i / 8 = 1 ∨ i / 8 = 2 ∨ i / 8 = 3 := by omega
  · rw [if_pos (by omega), h, show i % 8 = i by omega]
  · rw [if_neg (by omega), if_pos (by omega), h, show i % 8 = i - 8 by omega]
  · rw [if_neg (by omega), if_neg (by omega), if_pos (by omega), h,
      show i % 8 = i - 8 - 8 by omega]
  · rw [if_neg (by omega), if_neg (by omega), if_neg (by omega), h,
      show i % 8 = i - 8 - 8 - 8 by omega]

theorem lowBits_toNat (ret : BitVec 32) {n : ℕ} (hn : n ≤ 32) :
    (if n = 32 then ret else ret &&& (((1 : BitVec 32) <<< n) - 1)).toNat =
      ret.toNat % 2 ^ n := by
  by_cases hall : n = 32
  · rw [if_pos hall, hall, Nat.mod_eq_of_lt ret.isLt]
  · have hone : ((1 : BitVec 32) <<< n).toNat = 2 ^ n := by
      have hlt : 2 ^ n < 2 ^ 32 := Nat.pow_lt_pow_right (by decide) (by omega)
      rw [BitVec.toNat_shiftLeft, Nat.shiftLeft_eq, show (1 : BitVec 32).toNat = 1 from rfl,
        Nat.one_mul, Nat.mod_eq_of_lt hlt]
    have hmask : (((1 : BitVec 32) <<< n) - 1).toNat = 2 ^ n - 1 := by
      have hpos : 0 < 2 ^ n := Nat.two_pow_pos n
      have hle : 2 ^ n < 2 ^ 32 := Nat.pow_lt_pow_right (by decide) (by omega)
      rw [BitVec.toNat_sub, hone, show (1 : BitVec 32).toNat = 1 from rfl]
      omega
    rw [if_neg hall, BitVec.toNat_and, hmask, Nat.and_two_pow_sub_one_eq_mod]

theorem readInt_bits (s : ByteStream) {n : ℕ} (hn : n ≤ 32) :
    s.bits.readInt n = ((s.readInt n).1.toNat, (s.readInt n).2.bits) := by
  have hread := readBits_bits s n fun _ => 0
  have hzero : (s.readBits n fun _ => 0).1 = false → (s.readBits n fun _ => 0).2.1 = fun _ => 0 := by
    rw [readBits]
    split_ifs <;> simp
  rw [BitStream.readInt, hread, readInt]
  generalize (s.readBits n fun _ => 0) = result at hzero ⊢
  obtain ⟨accepted, bytes, t⟩ := result
  refine Prod.ext ?_ rfl
  simp only at hzero ⊢
  rw [lowBits_toNat _ hn]
  cases accepted with
  | true =>
    rw [← bitsInt_intBits]
    congr 1
    refine List.map_congr_left fun i hi => ?_
    rw [← word_getLsbD bytes (by have := List.mem_range.mp hi; omega)]
    rfl
  | false =>
    rw [hzero rfl]
    exact (Nat.zero_mod _).symm

end ByteStream

end TNL
