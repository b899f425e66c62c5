import TNL.Rust.BitStream

/-!
# Bits in Rust and in C++

Every check of the Rust stream passes while the bits fit, but for one: a whole byte at
a byte border takes the branch for bits within one byte, where a byte is shifted by
eight bits. Whatever passes the checks is what the C++ stream does.
-/
namespace TNL.Rust
open Library

namespace BitStream
open ByteStream (bit intBytes)

/-- The stream as one of the C++ library. -/
def cpp (s : BitStream) : ByteStream where
  buffer := s.buffer.elems
  mBufSize := s.buffer.len
  mOwnsMemory := true
  bitNum := s.bitNum
  error := s.error
  maxReadBitNum := s.maxReadBitNum
  maxWriteBitNum := s.maxWriteBitNum

/-- There are `n` more bits in the buffer and up to both limits. -/
structure Fits (s : BitStream) (n : ℕ) : Prop where
  buffer : s.bitNum + n ≤ 8 * s.buffer.len
  write : s.bitNum + n ≤ s.maxWriteBitNum
  read : s.bitNum + n ≤ s.maxReadBitNum
  position : s.bitNum + n < 2 ^ 32

/-- Writing and reading do what they do in C++, to the bytes and to the stream. -/
structure Agrees (s : BitStream) (n : ℕ) (bitPtr destPtr : Slice U8) : Prop where
  write : (s.writeBits n bitPtr).map (fun r => (r.1, r.2.cpp)) =
    some (s.cpp.writeBits n bitPtr.elems)
  read : (s.readBits n destPtr).map (fun r => (r.1, r.2.1.elems, r.2.2.cpp)) =
    some (s.cpp.readBits n destPtr.elems)

/-- An integer is written where the stream stands, with no other bit changed, and read back there. -/
def RoundTrips (bigEndian : Bool) (s : BitStream) (val : BitVec 32) (n : ℕ) : Prop :=
  ∃ t, s.writeInt bigEndian val n = some t ∧ t.bitNum = s.bitNum + n ∧
    (∀ i, i < s.bitNum ∨ s.bitNum + n ≤ i → bit t.buffer.elems i = bit s.buffer.elems i) ∧
    ∃ r, readInt { t with bitNum := s.bitNum } n = some (val, r) ∧ r.bitNum = s.bitNum + n ∧
      r.buffer = t.buffer

variable {s : BitStream} {n dest source upShift downShift : ℕ} {buffer bitPtr destPtr : Slice U8}
  {destByte : U8}

/-! ### Loops -/

theorem copyBytes_eq (hsource : source + n ≤ bitPtr.len) (hdest : dest + n ≤ buffer.len) :
    copyBytes bitPtr n dest source buffer =
      some ⟨buffer.len, ByteStream.copyBytes bitPtr.elems n dest source buffer.elems⟩ := by
  induction n generalizing dest source buffer with
  | zero => rfl
  | succ n ih =>
    simp (disch := omega) only [copyBytes, Slice.get_of_lt, Slice.set_of_lt, Option.bind_eq_bind,
      Option.bind_some]
    exact ih (by omega) (by dsimp only; omega)

theorem shiftBytes_eq (hup : upShift < 8) (hdown : downShift < 8)
    (hsource : source + n ≤ bitPtr.len) (hdest : dest + n ≤ buffer.len) :
    shiftBytes bitPtr upShift downShift n dest source destByte buffer =
      some ((ByteStream.shiftBytes bitPtr.elems upShift downShift n dest source destByte
          buffer.elems).1,
        ⟨buffer.len, (ByteStream.shiftBytes bitPtr.elems upShift downShift n dest source destByte
          buffer.elems).2⟩) := by
  induction n generalizing dest source buffer destByte with
  | zero => rfl
  | succ n ih =>
    simp (disch := omega) only [shiftBytes, Slice.get_of_lt, Slice.set_of_lt, checkedShl_of_lt,
      checkedShr_of_lt, Option.bind_eq_bind, Option.bind_some]
    exact ih (by omega) (by dsimp only; omega)

/-- One more byte is copied last. -/
theorem copyBytes_succ (sourcePtr : ℕ → U8) (n dest source : ℕ) (bytes : ℕ → U8) :
    ByteStream.copyBytes sourcePtr (n + 1) dest source bytes =
      Function.update (ByteStream.copyBytes sourcePtr n dest source bytes) (dest + n)
        (sourcePtr (source + n)) := by
  funext j
  rw [ByteStream.copyBytes_apply, Function.update_apply, ByteStream.copyBytes_apply]
  by_cases hlast : j = dest + n
  · rw [if_pos hlast, if_pos (by omega)]
    congr 1
    omega
  · rw [if_neg hlast]
    refine if_congr ?_ rfl rfl
    omega

/-! ### Storing -/

theorem storeShort_eq (hn : n < 8) (hup : upShift < 8) (hsource : 0 < bitPtr.len)
    (hdest : dest < buffer.len) :
    storeShort buffer bitPtr dest n upShift =
      some ⟨buffer.len, Function.update buffer.elems dest
        ((buffer.elems dest &&& ~~~((((1 : U8) <<< n) - 1) <<< upShift)) |||
          ((bitPtr.elems 0 <<< upShift) &&& ((((1 : U8) <<< n) - 1) <<< upShift)))⟩ := by
  simp (disch := omega) only [storeShort, Slice.get_of_lt, Slice.set_of_lt, checkedShl_of_lt,
    Option.bind_eq_bind, Option.bind_some]

/-- The slip: eight bits take this branch as well. -/
theorem storeShort_eight : storeShort buffer bitPtr dest 8 upShift = none := by
  rw [storeShort, checkedShl_of_le (by omega)]
  rfl

theorem storeAligned_eq (hsource : n ≤ 8 * bitPtr.len) (hdest : 8 * dest + n ≤ 8 * buffer.len) :
    storeAligned buffer bitPtr dest n = some ⟨buffer.len,
      if n % 8 = 0 then ByteStream.copyBytes bitPtr.elems (n / 8) dest 0 buffer.elems
      else Function.update (ByteStream.copyBytes bitPtr.elems (n / 8) dest 0 buffer.elems)
        (dest + n / 8) ((bitPtr.elems (n / 8) &&& (((1 : U8) <<< (n % 8)) - 1)) |||
          (ByteStream.copyBytes bitPtr.elems (n / 8) dest 0 buffer.elems (dest + n / 8) &&&
            ~~~(((1 : U8) <<< (n % 8)) - 1)))⟩ := by
  rw [storeAligned, copyBytes_eq (by omega) (by omega), Option.bind_eq_bind, Option.bind_some]
  by_cases hrest : n % 8 = 0
  · simp only [if_pos hrest]
    rfl
  · simp (disch := omega) only [if_neg hrest, Slice.get_of_lt, Slice.get_mk, Slice.set_mk,
      checkedShl_of_lt, Option.bind_some, Option.bind_eq_bind]

/-- The third branch in C++. -/
theorem store_unaligned_buffer (t : ByteStream) (bitNum : ℕ) (bytes : ℕ → U8)
    (hbitNum : t.bitNum = bitNum) (hbytes : t.buffer = bytes) (sourcePtr : ℕ → U8)
    (hshort : ¬ 8 - bitNum % 8 ≥ n) (hup : bitNum % 8 ≠ 0) (lastMask : U8)
    (hmask : lastMask = (0xFF : U8) >>> (7 - (bitNum + n - 1) % 8)) (r : U8 × (ℕ → U8))
    (hr : r = ByteStream.shiftBytes sourcePtr (bitNum % 8) (8 - bitNum % 8) (n / 8)
      (bitNum / 8) 0 (bytes (bitNum / 8) &&& ((0xFF : U8) >>> (8 - bitNum % 8))) bytes) :
    (t.store n sourcePtr).buffer =
      if n % 8 = 0 then Function.update r.2 (bitNum / 8 + n / 8)
        ((r.2 (bitNum / 8 + n / 8) &&& ~~~lastMask) ||| (r.1 &&& lastMask))
      else if n % 8 ≤ 8 - bitNum % 8 then Function.update r.2 (bitNum / 8 + n / 8)
        ((r.2 (bitNum / 8 + n / 8) &&& ~~~lastMask) |||
          ((r.1 ||| (sourcePtr (n / 8) <<< (bitNum % 8))) &&& lastMask))
      else
        let joined := Function.update r.2 (bitNum / 8 + n / 8)
          (r.1 ||| (sourcePtr (n / 8) <<< (bitNum % 8)))
        Function.update joined (bitNum / 8 + n / 8 + 1)
          ((joined (bitNum / 8 + n / 8 + 1) &&& ~~~lastMask) |||
            ((sourcePtr (n / 8) >>> (8 - bitNum % 8)) &&& lastMask)) := by
  subst hbitNum hbytes hmask hr
  rw [ByteStream.store]
  dsimp only
  rw [if_neg hshort, if_neg hup]

theorem storeUnaligned_eq (s : BitStream) (hshort : ¬ 8 - s.bitNum % 8 ≥ n)
    (hup : s.bitNum % 8 ≠ 0) (hfits : s.Fits n) (hsource : n ≤ 8 * bitPtr.len) :
    storeUnaligned s.buffer bitPtr s.bitNum n =
      some ⟨s.buffer.len, (s.cpp.store n bitPtr.elems).buffer⟩ := by
  have hbuffer := hfits.buffer
  have hposition := hfits.position
  have hfirst : s.buffer.get (s.bitNum / 8) = some _ := Slice.get_of_lt (by omega)
  have hkept : checkedShr (0xFF : U8) (8 - s.bitNum % 8) = some _ := checkedShr_of_lt (by omega)
  have hlast : checkedAdd 32 s.bitNum n = some _ := checkedAdd_of_lt hposition
  have hmask : checkedShr (0xFF : U8) (7 - (s.bitNum + n - 1) % 8) = some _ :=
    checkedShr_of_lt (by omega)
  have hloop : shiftBytes bitPtr (s.bitNum % 8) (8 - s.bitNum % 8) (n / 8) (s.bitNum / 8) 0
      (s.buffer.elems (s.bitNum / 8) &&& ((0xFF : U8) >>> (8 - s.bitNum % 8))) s.buffer = some _ :=
    shiftBytes_eq (by omega) (by omega) (by omega) (by omega)
  rw [store_unaligned_buffer s.cpp s.bitNum s.buffer.elems rfl rfl bitPtr.elems hshort hup _ rfl _ rfl]
  simp only [storeUnaligned, hfirst, hkept, hlast, hmask, hloop, Option.bind_eq_bind,
    Option.bind_some]
  generalize ByteStream.shiftBytes bitPtr.elems (s.bitNum % 8) (8 - s.bitNum % 8) (n / 8)
    (s.bitNum / 8) 0 (s.buffer.elems (s.bitNum / 8) &&& ((0xFF : U8) >>> (8 - s.bitNum % 8)))
      s.buffer.elems = r
  by_cases hrest : n % 8 = 0
  · rw [if_pos hrest, if_pos hrest]
    simp (disch := omega) only [Slice.get_mk, Slice.set_mk, Option.bind_some]
  · have hsourceByte : bitPtr.get (n / 8) = some _ := Slice.get_of_lt (by omega)
    have hlow (byte : U8) : checkedShl byte (s.bitNum % 8) = some _ := checkedShl_of_lt (by omega)
    have hhigh (byte : U8) : checkedShr byte (8 - s.bitNum % 8) = some _ :=
      checkedShr_of_lt (by omega)
    rw [if_neg hrest, if_neg hrest]
    simp only [hsourceByte, hlow, Option.bind_some]
    by_cases hshort : n % 8 ≤ 8 - s.bitNum % 8
    · rw [if_pos hshort, if_pos hshort]
      simp (disch := omega) only [Slice.get_mk, Slice.set_mk, Option.bind_some]
    · rw [if_neg hshort, if_neg hshort]
      simp (disch := omega) only [Slice.get_mk, Slice.set_mk, hhigh, Option.bind_some]

/-- Storing passes the checks, unless it is a whole byte at a byte border. -/
theorem store_eq (hpos : 0 < n) (hfits : s.Fits n) (hsource : n ≤ 8 * bitPtr.len) :
    s.store n bitPtr =
      if n = 8 ∧ s.bitNum % 8 = 0 then none
      else some { s with
        buffer := ⟨s.buffer.len, (s.cpp.store n bitPtr.elems).buffer⟩
        bitNum := s.bitNum + n } := by
  have hbuffer := hfits.buffer
  have hposition := hfits.position
  rw [store]
  dsimp only
  by_cases hshort : 8 - s.bitNum % 8 ≥ n
  · rw [if_pos hshort]
    by_cases hn : n = 8
    · subst hn
      rw [storeShort_eight, if_pos (by omega)]
      rfl
    · have hcpp : (s.cpp.store n bitPtr.elems).buffer = _ := if_pos hshort
      rw [storeShort_eq (by omega) (by omega) (by omega) (by omega), if_neg (by omega), hcpp,
        Option.bind_eq_bind, Option.bind_some, checkedAdd_of_lt hposition]
      rfl
  · rw [if_neg hshort, if_neg (by omega : ¬(n = 8 ∧ s.bitNum % 8 = 0))]
    by_cases hup : s.bitNum % 8 = 0
    · have hcpp : (s.cpp.store n bitPtr.elems).buffer = _ := (if_neg hshort).trans (if_pos hup)
      rw [if_pos hup, storeAligned_eq hsource (by omega), hcpp, Option.bind_eq_bind,
        Option.bind_some, checkedAdd_of_lt hposition]
      rfl
    · rw [if_neg hup, storeUnaligned_eq s hshort hup hfits hsource, Option.bind_eq_bind,
        Option.bind_some, checkedAdd_of_lt hposition]
      rfl

theorem writeBits_of_fits (hn : n ≠ 0) (hfits : s.Fits n) :
    s.writeBits n bitPtr = (s.store n bitPtr).map (true, ·) := by
  have hwrite := hfits.write
  have hposition := hfits.position
  rw [writeBits, if_neg hn, checkedAdd_of_lt (by omega), Option.bind_eq_bind, Option.bind_some,
    if_neg (by omega)]
  cases hstore : s.store n bitPtr <;> simp [hstore]

theorem writeBits_eq (hfits : s.Fits n) (hsource : n ≤ 8 * bitPtr.len) :
    (s.writeBits n bitPtr).map (fun r => (r.1, r.2.cpp)) =
      if n = 8 ∧ s.bitNum % 8 = 0 then none else some (s.cpp.writeBits n bitPtr.elems) := by
  have hwrite := hfits.write
  by_cases hn : n = 0
  · rw [writeBits, ByteStream.writeBits, if_pos hn, if_pos hn, if_neg (by omega)]
    rfl
  · have hroom : ¬ n + s.cpp.bitNum > s.cpp.maxWriteBitNum := by
      change ¬ n + s.bitNum > s.maxWriteBitNum
      omega
    rw [writeBits_of_fits hn hfits, store_eq (by omega) hfits hsource, ByteStream.writeBits,
      if_neg hn, if_neg hroom]
    split_ifs <;> rfl

/-! ### Loading -/

theorem load_eq (t : ByteStream) (hbytes : t.buffer = s.buffer.elems) (hbitNum : t.bitNum = s.bitNum)
    (hpos : 0 < n) (hfits : s.Fits n) (hdest : n ≤ 8 * destPtr.len) :
    load s.buffer s.bitNum n destPtr = some ⟨destPtr.len, t.load n destPtr.elems⟩ := by
  have hbuffer := hfits.buffer
  rw [load, ByteStream.load, hbytes, hbitNum]
  dsimp only
  by_cases hdown : s.bitNum % 8 = 0
  · rw [if_pos hdown, if_pos hdown, copyBytes_eq (by omega) (by omega), Option.bind_eq_bind,
      Option.bind_some]
    by_cases hrest : n % 8 = 0
    · rw [if_pos hrest, show (n + 7) / 8 = n / 8 by omega]
      rfl
    · rw [if_neg hrest, show (n + 7) / 8 = n / 8 + 1 by omega, copyBytes_succ]
      simp (disch := omega) only [Slice.get_of_lt, Slice.set_mk, Option.bind_eq_bind,
        Option.bind_some, Nat.zero_add]
  · rw [if_neg hdown, if_neg hdown]
    simp (disch := omega) only [Slice.get_of_lt, checkedShr_of_lt, shiftBytes_eq,
      Option.bind_eq_bind, Option.bind_some]
    by_cases hrest : n % 8 = 0
    · rw [if_pos hrest, if_pos hrest]
      rfl
    · rw [if_neg hrest, if_neg hrest]
      by_cases hlow : n % 8 ≤ 8 - s.bitNum % 8
      · rw [if_pos hlow, if_pos hlow]
        simp (disch := omega) only [Slice.set_mk]
      · rw [if_neg hlow, if_neg hlow]
        simp (disch := omega) only [Slice.set_mk, checkedShl_of_lt, Option.bind_some]

theorem readBits_of_fits (hn : n ≠ 0) (hfits : s.Fits n) (hdest : n ≤ 8 * destPtr.len) :
    s.readBits n destPtr = some (true, ⟨destPtr.len, s.cpp.load n destPtr.elems⟩,
      { s with bitNum := s.bitNum + n }) := by
  have hread := hfits.read
  have hposition := hfits.position
  rw [readBits, if_neg hn, checkedAdd_of_lt (by omega), Option.bind_eq_bind, Option.bind_some,
    if_neg (by omega), load_eq s.cpp rfl rfl (by omega) hfits hdest, Nat.add_comm n]
  rfl

theorem readBits_eq (hfits : s.Fits n) (hdest : n ≤ 8 * destPtr.len) :
    (s.readBits n destPtr).map (fun r => (r.1, r.2.1.elems, r.2.2.cpp)) =
      some (s.cpp.readBits n destPtr.elems) := by
  have hread := hfits.read
  have hposition := hfits.position
  by_cases hn : n = 0
  · rw [readBits, ByteStream.readBits, if_pos hn, if_pos hn]
    rfl
  · have hroom : ¬ (n + s.cpp.bitNum) % 2 ^ 32 > s.cpp.maxReadBitNum := by
      change ¬ (n + s.bitNum) % 2 ^ 32 > s.maxReadBitNum
      rw [Nat.mod_eq_of_lt (by omega)]
      omega
    have hnext : (s.cpp.bitNum + n) % 2 ^ 32 = s.bitNum + n := Nat.mod_eq_of_lt hposition
    rw [readBits_of_fits hn hfits hdest, ByteStream.readBits, if_neg hn, if_neg hroom, hnext]
    rfl

theorem writes_agree_iff (hfits : s.Fits n) (hsource : n ≤ 8 * bitPtr.len)
    (hdest : n ≤ 8 * destPtr.len) :
    s.Agrees n bitPtr destPtr ↔ ¬(n = 8 ∧ s.bitNum % 8 = 0) := by
  constructor
  · intro h hslip
    have hwrite := h.write
    rw [writeBits_eq hfits hsource, if_pos hslip] at hwrite
    cases hwrite
  · intro hslip
    exact ⟨(writeBits_eq hfits hsource).trans (if_neg hslip), readBits_eq hfits hdest⟩

/-! ### Integers -/

variable {val : BitVec 32}

/-- The stream after an integer has been stored. -/
def afterInt (s : BitStream) (val : BitVec 32) (n : ℕ) : BitStream where
  buffer := ⟨s.buffer.len, (s.cpp.store n (intBytes val)).buffer⟩
  bitNum := s.bitNum + n
  maxReadBitNum := s.maxReadBitNum
  maxWriteBitNum := s.maxWriteBitNum
  error := s.error

theorem writeInt_eq (bigEndian : Bool) (hn : 1 ≤ n) (hn' : n ≤ 32) (hfits : s.Fits n) :
    s.writeInt bigEndian val n =
      if n = 8 ∧ s.bitNum % 8 = 0 then none else some (s.afterInt (toLe bigEndian val) n) := by
  have hsource : n ≤ 8 * (toLeBytes (toLe bigEndian val)).len := hn'
  rw [writeInt, writeBits_of_fits (by omega) hfits, store_eq (by omega) hfits hsource]
  split_ifs <;> rfl

theorem afterInt_bit (val : BitVec 32) (i : ℕ) : bit (s.afterInt val n).buffer.elems i =
    if s.bitNum ≤ i ∧ i < s.bitNum + n then val.getLsbD (i - s.bitNum)
    else bit s.buffer.elems i := by
  refine (s.cpp.store_bit n (intBytes val) i).trans ?_
  rw [ByteStream.stored, ByteStream.intBytes_bit]
  rfl

/-- Of an integer that was stored the low bits are read back. -/
theorem readInt_afterInt (val : BitVec 32) (hn : 1 ≤ n) (hn' : n ≤ 32) (hfits : s.Fits n) :
    ∃ ret r, readInt { s.afterInt val n with bitNum := s.bitNum } n = some (ret, r) ∧
      ret.toNat = val.toNat % 2 ^ n ∧ r.bitNum = s.bitNum + n ∧
      r.buffer = (s.afterInt val n).buffer := by
  obtain ⟨t, ht⟩ : ∃ t : BitStream, t = { s.afterInt val n with bitNum := s.bitNum } := ⟨_, rfl⟩
  have hfits' : t.Fits n := by
    subst ht
    exact ⟨hfits.buffer, hfits.write, hfits.read, hfits.position⟩
  have hbitNum : t.bitNum = s.bitNum := by rw [ht]
  have hbuffer : t.buffer = (s.afterInt val n).buffer := by rw [ht]
  have hdest : n ≤ 8 * (⟨4, fun _ => 0⟩ : Slice U8).len := hn'
  obtain ⟨ret, hret⟩ : ∃ ret : BitVec 32, ret = t.cpp.load n (fun _ => 0) 3 ++
      t.cpp.load n (fun _ => 0) 2 ++ t.cpp.load n (fun _ => 0) 1 ++ t.cpp.load n (fun _ => 0) 0 :=
    ⟨_, rfl⟩
  have hlow : ret.toNat % 2 ^ n = val.toNat % 2 ^ n := by
    refine Nat.eq_of_testBit_eq (fun i => ?_)
    rw [Nat.testBit_mod_two_pow, Nat.testBit_mod_two_pow]
    by_cases hi : i < n
    · have hbit : ret.getLsbD i = val.getLsbD i := by
        rw [hret, ByteStream.word_getLsbD _ (by omega), ByteStream.load_bit _ _ hi]
        change bit t.buffer.elems (t.bitNum + i) = _
        rw [hbuffer, hbitNum, afterInt_bit, if_pos (by omega), Nat.add_sub_cancel_left]
      exact congrArg (decide (i < n) && ·) hbit
    · simp [hi]
  have hmasked := ByteStream.lowBits_toNat ret hn'
  rw [← ht, readInt, readBits_of_fits (by omega) hfits' hdest, Option.bind_eq_bind,
    Option.bind_some]
  dsimp only
  rw [← hret]
  by_cases hall : n = 32
  · rw [if_pos hall] at hmasked ⊢
    exact ⟨ret, _, rfl, hmasked.trans hlow, by rw [← hbitNum], hbuffer⟩
  · rw [if_neg hall] at hmasked ⊢
    rw [checkedShl_of_lt (by omega)]
    exact ⟨_, _, rfl, hmasked.trans hlow, by rw [← hbitNum], hbuffer⟩

theorem ints_roundTrip_iff (bigEndian : Bool) (hn : 1 ≤ n) (hn' : n ≤ 32) (hfits : s.Fits n)
    (hval : val.toNat < 2 ^ n) : RoundTrips bigEndian s val n ↔
      ¬(n = 8 ∧ s.bitNum % 8 = 0) ∧ (toLe bigEndian val).toNat % 2 ^ n = val.toNat := by
  obtain ⟨ret, r, hread, hret, hbitNum, hbuffer⟩ :=
    readInt_afterInt (toLe bigEndian val) hn hn' hfits
  rw [RoundTrips, writeInt_eq bigEndian hn hn' hfits]
  constructor
  · rintro ⟨t, hwrite, -, -, r', hread', -⟩
    split_ifs at hwrite with hslip
    obtain rfl := Option.some.inj hwrite
    rw [hread] at hread'
    obtain ⟨rfl, -⟩ := Prod.mk.inj (Option.some.inj hread')
    exact ⟨hslip, hret.symm⟩
  · rintro ⟨hslip, hvalue⟩
    obtain rfl : ret = val := BitVec.eq_of_toNat_eq (hret.trans hvalue)
    refine ⟨_, if_neg hslip, rfl, ?_, r, hread, hbitNum, hbuffer⟩
    intro i hi
    rw [afterInt_bit, if_neg (by omega)]

/-- Both streams agree on everything that fits, but for a byte at a byte border. Integers also need a
target that is little endian, unless swapping the bytes does not matter. -/
theorem rust_agrees_iff (hfits : s.Fits n) (hsource : n ≤ 8 * bitPtr.len)
    (hdest : n ≤ 8 * destPtr.len) :
    (s.Agrees n bitPtr destPtr ↔ ¬(n = 8 ∧ s.bitNum % 8 = 0)) ∧
      ∀ (bigEndian : Bool) (val : BitVec 32), 1 ≤ n → n ≤ 32 → val.toNat < 2 ^ n →
        (RoundTrips bigEndian s val n ↔
          ¬(n = 8 ∧ s.bitNum % 8 = 0) ∧ (toLe bigEndian val).toNat % 2 ^ n = val.toNat) :=
  ⟨writes_agree_iff hfits hsource hdest,
    fun bigEndian _ hn hn' hval => ints_roundTrip_iff bigEndian hn hn' hfits hval⟩

/-- A stream over four bytes. -/
def fourBytes (bitNum : ℕ) : BitStream := ⟨⟨4, fun _ => 0xA5⟩, bitNum, 32, 32, false⟩

theorem fourBytes_fits {bitNum : ℕ} (h : bitNum + n ≤ 32) : (fourBytes bitNum).Fits n where
  buffer := h
  write := h
  read := h
  position := by
    change bitNum + n < 2 ^ 32
    omega

theorem rust_agrees_iff_byte :
    ((fourBytes 3).Agrees 8 ⟨1, fun _ => 0x3C⟩ ⟨1, fun _ => 0⟩ ↔
      ¬(8 = 8 ∧ (fourBytes 3).bitNum % 8 = 0)) ∧
      ∀ (bigEndian : Bool) (val : BitVec 32), 1 ≤ 8 → 8 ≤ 32 → val.toNat < 2 ^ 8 →
        (RoundTrips bigEndian (fourBytes 3) val 8 ↔ ¬(8 = 8 ∧ (fourBytes 3).bitNum % 8 = 0) ∧
          (toLe bigEndian val).toNat % 2 ^ 8 = val.toNat) :=
  rust_agrees_iff (fourBytes_fits (by decide)) (by decide) (by decide)

theorem byte_overflows : ¬ ∀ (s : BitStream) (n : ℕ) (bitPtr destPtr : Slice U8), s.Fits n →
    n ≤ 8 * bitPtr.len → n ≤ 8 * destPtr.len → s.Agrees n bitPtr destPtr := by
  intro h
  have hagrees := h (fourBytes 0) 8 ⟨1, fun _ => 0x3C⟩ ⟨1, fun _ => 0⟩
    (fourBytes_fits (by decide)) (by decide) (by decide)
  have hwrite := hagrees.write
  cases hwrite

end BitStream

end TNL.Rust
