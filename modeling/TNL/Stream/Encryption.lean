import TNL.Connection.CipherCounter
import TNL.Stream.BitRoundTrip

/-!
# Signed and encrypted packets

A stream cipher with feedback: each byte that is encrypted replaces the byte of the
pad it was encrypted with, and a pad that is used up is encrypted itself. A packet
gets a digest of its bytes, and is then encrypted in place from some byte on. The
block cipher and the hash are any functions.
-/
namespace TNL

abbrev Block := Vector U8 16

/-- What the library of ciphers offers. -/
structure Crypto (K : Type*) where
  rijndael_ecb_encrypt : Block → K → Block
  sha256 : List U8 → Vector U8 32

def blockSize : ℕ := 16

/-- Of the vector only the words that are set are kept. -/
structure SymmetricCipher (K : Type*) where
  mCounter : Vector U32 4
  mInitVector : Vector U32 4
  mPad : Block
  mSymmetricKey : K
  mPadLen : ℕ
  mPadLen_le : mPadLen ≤ blockSize

namespace SymmetricCipher

variable {K : Type*} (lib : Crypto K)

/-- The bytes of the counter, which is kept in little endian. -/
def counterBytes (mCounter : Vector U32 4) : Block :=
  .ofFn fun i => (mCounter[i.val / 4] >>> (8 * (i.val % 4))).setWidth 8

/-- The constructor. -/
def new (symmetricKey : K) (initVector : Vector U32 4) : SymmetricCipher K where
  mCounter := initVector
  mInitVector := initVector
  mPad := lib.rijndael_ecb_encrypt (counterBytes initVector) symmetricKey
  mSymmetricKey := symmetricKey
  mPadLen := 0
  mPadLen_le := Nat.zero_le _

def setupCounter (c : SymmetricCipher K)
    (counterValue1 counterValue2 counterValue3 counterValue4 : U32) : SymmetricCipher K :=
  let mCounter : Vector U32 4 := c.mInitVector.zipWith (· + ·)
    #v[counterValue1, counterValue2, counterValue3, counterValue4]
  { c with
    mCounter := mCounter
    mPad := lib.rijndael_ecb_encrypt (counterBytes mCounter) c.mSymmetricKey
    mPadLen := 0
    mPadLen_le := Nat.zero_le _ }

/-- Compute a new pad once the end of it is reached. -/
def refresh (c : SymmetricCipher K) : SymmetricCipher K :=
  if c.mPadLen = blockSize then
    { c with
      mPad := lib.rijndael_ecb_encrypt c.mPad c.mSymmetricKey
      mPadLen := 0
      mPadLen_le := Nat.zero_le _ }
  else c

theorem refresh_mPadLen_lt (c : SymmetricCipher K) : (c.refresh lib).mPadLen < blockSize := by
  rw [refresh]
  split
  · exact Nat.zero_lt_succ 15
  · exact lt_of_le_of_ne c.mPadLen_le ‹_›

/-- `mPad[mPadLen]` -/
def padByte (c : SymmetricCipher K) : U8 :=
  (c.refresh lib).mPad.get ⟨(c.refresh lib).mPadLen, c.refresh_mPadLen_lt lib⟩

/-- `mPad[mPadLen++] = encryptedChar` -/
def feed (c : SymmetricCipher K) (encryptedChar : U8) : SymmetricCipher K :=
  let d := c.refresh lib
  { d with
    mPad := d.mPad.set d.mPadLen encryptedChar (c.refresh_mPadLen_lt lib)
    mPadLen := d.mPadLen + 1
    mPadLen_le := c.refresh_mPadLen_lt lib }

/-- Both pointers are into one buffer. -/
def encrypt : SymmetricCipher K → (ℕ → U8) → ℕ → ℕ → ℕ → SymmetricCipher K × (ℕ → U8)
  | c, buffer, _, _, 0 => (c, buffer)
  | c, buffer, plainText, cipherText, len + 1 =>
    let encryptedChar := buffer plainText ^^^ c.padByte lib
    encrypt (c.feed lib encryptedChar) (Function.update buffer cipherText encryptedChar)
      (plainText + 1) (cipherText + 1) len

def decrypt : SymmetricCipher K → (ℕ → U8) → ℕ → ℕ → ℕ → SymmetricCipher K × (ℕ → U8)
  | c, buffer, _, _, 0 => (c, buffer)
  | c, buffer, cipherText, plainText, len + 1 =>
    let encryptedChar := buffer cipherText
    decrypt (c.feed lib encryptedChar)
      (Function.update buffer plainText (encryptedChar ^^^ c.padByte lib))
      (cipherText + 1) (plainText + 1) len

section roundTrip

variable {lib : Crypto K} {c : SymmetricCipher K} {buffer received : ℕ → U8} {p i len : ℕ}

theorem encrypt_frame (hi : i < p ∨ p + len ≤ i) (q : ℕ) :
    (c.encrypt lib buffer q p len).2 i = buffer i := by
  induction len generalizing c buffer p q with
  | zero => rfl
  | succ len ih =>
    rw [encrypt, ih (by omega), Function.update_of_ne (by omega)]

theorem decrypt_frame (hi : i < p ∨ p + len ≤ i) (q : ℕ) :
    (c.decrypt lib buffer q p len).2 i = buffer i := by
  induction len generalizing c buffer p q with
  | zero => rfl
  | succ len ih =>
    rw [decrypt, ih (by omega), Function.update_of_ne (by omega)]

/-- Decryption feeds the pad with the same bytes, so that both pads stay equal. -/
theorem decrypt_encrypt
    (h : ∀ i, p ≤ i → i < p + len → received i = (c.encrypt lib buffer p p len).2 i) :
    (c.decrypt lib received p p len).1 = (c.encrypt lib buffer p p len).1 ∧
      ∀ i, p ≤ i → i < p + len → (c.decrypt lib received p p len).2 i = buffer i := by
  induction len generalizing c buffer received p with
  | zero => exact ⟨rfl, fun i hlow hhigh => by omega⟩
  | succ len ih =>
    rw [encrypt, decrypt]
    have hchar : received p = buffer p ^^^ c.padByte lib := by
      rw [h p (Nat.le_refl p) (by omega), encrypt, encrypt_frame (Or.inl (Nat.lt_succ_self p)), Function.update_self]
    have hrest : ∀ i, p + 1 ≤ i → i < p + 1 + len →
        Function.update received p (received p ^^^ c.padByte lib) i =
          ((c.feed lib (buffer p ^^^ c.padByte lib)).encrypt lib
            (Function.update buffer p (buffer p ^^^ c.padByte lib)) (p + 1) (p + 1) len).2 i := by
      intro i hlow hhigh
      rw [Function.update_of_ne (by omega), h i (by omega) (by omega), encrypt]
    obtain ⟨hcipher, hbytes⟩ := ih hrest
    rw [hchar] at hcipher hbytes ⊢
    refine ⟨hcipher, fun i hlow hhigh => ?_⟩
    by_cases hi : i = p
    · rw [hi, decrypt_frame (Or.inl (Nat.lt_succ_self p)), Function.update_self,
        BitVec.xor_assoc, BitVec.xor_self, BitVec.xor_zero]
    · rw [hbytes i (by omega) (by omega), Function.update_of_ne hi]

variable (lib c) in
/-- Nothing has been encrypted since the counter was set. -/
structure Fresh : Prop where
  mPad : c.mPad = lib.rijndael_ecb_encrypt (counterBytes c.mCounter) c.mSymmetricKey
  mPadLen : c.mPadLen = 0

theorem fresh_new (symmetricKey : K) (initVector : Vector U32 4) :
    (new lib symmetricKey initVector).Fresh lib := ⟨rfl, rfl⟩

theorem fresh_setupCounter (c : SymmetricCipher K) (v₁ v₂ v₃ v₄ : U32) :
    (c.setupCounter lib v₁ v₂ v₃ v₄).Fresh lib := ⟨rfl, rfl⟩

theorem Fresh.eq {d : SymmetricCipher K} (hc : c.Fresh lib) (hd : d.Fresh lib)
    (hkey : c.mSymmetricKey = d.mSymmetricKey) (hvector : c.mInitVector = d.mInitVector)
    (hcounter : c.mCounter = d.mCounter) : c = d := by
  have hpad : c.mPad = d.mPad := by rw [hc.mPad, hd.mPad, hkey, hcounter]
  have hlen : c.mPadLen = d.mPadLen := hc.mPadLen.trans hd.mPadLen.symm
  cases c
  cases d
  congr

end roundTrip

end SymmetricCipher

namespace ByteStream
open SymmetricCipher BitStream

variable {K : Type*} (lib : Crypto K)

def digest (buffer : ℕ → U8) (size : ℕ) : ℕ → U8 :=
  fun i => (lib.sha256 (bytes buffer size)).toList.getD i 0

def hashAndEncrypt (s : ByteStream) (hashDigestSize encryptStartOffset : ℕ)
    (theCipher : SymmetricCipher K) : ByteStream × SymmetricCipher K :=
  let digestStart := s.getBytePosition
  let s := s.setBytePosition digestStart
  let hash := digest lib s.buffer digestStart
  let (_, s) := s.write hashDigestSize hash
  let (theCipher, buffer) := theCipher.encrypt lib s.buffer encryptStartOffset encryptStartOffset
    (s.getBytePosition - encryptStartOffset)
  ({ s with buffer := buffer }, theCipher)

def decryptAndCheckHash (s : ByteStream) (hashDigestSize decryptStartOffset : ℕ)
    (theCipher : SymmetricCipher K) : Bool × ByteStream × SymmetricCipher K :=
  let bufferSize := s.mBufSize
  if bufferSize < decryptStartOffset + hashDigestSize then (false, s, theCipher)
  else
    let (theCipher, buffer) := theCipher.decrypt lib s.buffer decryptStartOffset decryptStartOffset
      (bufferSize - decryptStartOffset)
    let s := { s with buffer := buffer }
    let hash := digest lib buffer (bufferSize - hashDigestSize)
    if ∀ i < hashDigestSize, buffer (bufferSize - hashDigestSize + i) = hash i then
      (true, (s.resize (bufferSize - hashDigestSize)).2, theCipher)
    else (false, s, theCipher)

section roundTrip

variable {lib : Crypto K} {s r : ByteStream} {c d : SymmetricCipher K} {hashDigestSize start : ℕ}

/-- Bytes with the same bits are the same. -/
theorem byte_ext {x y : ℕ → U8} {j k : ℕ} (h : ∀ b < 8, bit x (8 * j + b) = bit y (8 * k + b)) :
    x j = y k := by
  apply BitVec.eq_of_getLsbD_eq
  intro b hb
  have hbit := h b hb
  rwa [bit, bit, Nat.mul_add_div (by decide), Nat.mul_add_div (by decide), Nat.mul_add_mod,
    Nat.mul_add_mod, Nat.div_eq_of_lt hb, Nat.mod_eq_of_lt hb, Nat.add_zero, Nat.add_zero] at hbit

/-- Bytes written at a byte border. -/
theorem write_aligned {position n : ℕ} (source : ℕ → U8) (hposition : s.bitNum = position * 8)
    (hroom : s.bits.Room (n * 8)) :
    (s.write n source).2.bitNum = (position + n) * 8 ∧
    (∀ i < position, (s.write n source).2.buffer i = s.buffer i) ∧
    ∀ i < n, (s.write n source).2.buffer (position + i) = source i := by
  rw [← sourceBits_length (n * 8) source] at hroom
  have hput := (writeBits_put hroom).2
  rw [writeBits_bits] at hput
  have hbuffer : ∀ i, bit (s.write n source).2.buffer i =
      (s.bits.store (sourceBits (n * 8) source)).buffer i := fun i => congrFun hput.buffer i
  refine ⟨?_, fun i hi => byte_ext fun b hb => ?_, fun i hi => byte_ext fun b hb => ?_⟩
  · have hend := hput.position
    rw [sourceBits_length] at hend
    change (s.write n source).2.bitNum = s.bitNum + n * 8 at hend
    omega
  · rw [hbuffer, store_apply, if_neg]
    · rfl
    · change ¬ s.bitNum ≤ _
      omega
  · have hlow : s.bits.bitNum = position * 8 := hposition
    have hat : 8 * (position + i) + b - position * 8 = 8 * i + b := by omega
    rw [hbuffer, store_apply, hlow, if_pos (by omega), hat,
      List.getD_eq_getElem _ _ (by rw [sourceBits_length]; omega)]
    simp only [sourceBits, List.getElem_map, List.getElem_range]

theorem digest_congr {x y : ℕ → U8} {size : ℕ} (h : ∀ i < size, x i = y i) :
    digest lib x size = digest lib y size := by
  have hbytes : bytes x size = bytes y size :=
    List.map_congr_left fun i hi => h i (List.mem_range.mp hi)
  exact congrArg (fun content i => (lib.sha256 content).toList.getD i 0) hbytes

/-- What a packet is before it is encrypted: the bytes of the stream and their digest. -/
theorem hashAndEncrypt_eq (lib : Crypto K) (c : SymmetricCipher K) (start : ℕ) (hfits : (s.setBytePosition s.getBytePosition).bits.Room
    (hashDigestSize * 8)) : ∃ buffer : ℕ → U8,
      (∀ i < s.getBytePosition, buffer i = s.buffer i) ∧
      (∀ i < hashDigestSize, buffer (s.getBytePosition + i) =
        digest lib s.buffer s.getBytePosition i) ∧
      (s.hashAndEncrypt lib hashDigestSize start c).1.getBytePosition =
        s.getBytePosition + hashDigestSize ∧
      (s.hashAndEncrypt lib hashDigestSize start c).1.buffer = (c.encrypt lib buffer start start
        (s.getBytePosition + hashDigestSize - start)).2 := by
  obtain ⟨hend, hbefore, hdigest⟩ := write_aligned
    (digest lib s.buffer s.getBytePosition) rfl hfits
  have hposition : ((s.setBytePosition s.getBytePosition).write hashDigestSize
      (digest lib s.buffer s.getBytePosition)).2.getBytePosition =
      s.getBytePosition + hashDigestSize := by
    rw [getBytePosition, hend]
    omega
  refine ⟨_, hbefore, hdigest, hposition, ?_⟩
  rw [← hposition]
  rfl

theorem resize_of_le {newBufferSize : ℕ} (h : newBufferSize ≤ s.mBufSize) :
    s.resize newBufferSize = (false, { s with mBufSize := newBufferSize }) := if_pos h

/-- A packet that arrives as it was sent passes the check and is what it was before, and what
stands before the encrypted part is left alone. -/
theorem decryptAndCheckHash_hashAndEncrypt (hc : c.Fresh lib) (hd : d.Fresh lib)
    (hkey : c.mSymmetricKey = d.mSymmetricKey) (hvector : c.mInitVector = d.mInitVector)
    (hcounter : c.mCounter = d.mCounter) (_hsize : hashDigestSize ≤ 32)
    (hstart : start ≤ s.getBytePosition)
    (hfits : (s.setBytePosition s.getBytePosition).bits.Room (hashDigestSize * 8))
    (hlength : r.mBufSize = (s.hashAndEncrypt lib hashDigestSize start c).1.getBytePosition)
    (hbytes : ∀ i < r.mBufSize,
      r.buffer i = (s.hashAndEncrypt lib hashDigestSize start c).1.buffer i) :
    (r.decryptAndCheckHash lib hashDigestSize start d).1 = true ∧
    (r.decryptAndCheckHash lib hashDigestSize start d).2.1.mBufSize = s.getBytePosition ∧
    (∀ i < s.getBytePosition,
      (r.decryptAndCheckHash lib hashDigestSize start d).2.1.buffer i = s.buffer i) ∧
    (∀ i < start, (s.hashAndEncrypt lib hashDigestSize start c).1.buffer i = s.buffer i) ∧
    ∀ i < start,
      (r.decryptAndCheckHash lib hashDigestSize start d).2.1.buffer i = r.buffer i := by
  obtain ⟨buffer, hbefore, hdigest, hposition, hencrypted⟩ :=
    hashAndEncrypt_eq lib c start hfits
  rw [hposition] at hlength
  rw [hencrypted] at hbytes ⊢
  obtain rfl := hc.eq hd hkey hvector hcounter
  have hend : start + (s.getBytePosition + hashDigestSize - start) =
      s.getBytePosition + hashDigestSize := by omega
  set decrypted := (c.decrypt lib r.buffer start start
    (s.getBytePosition + hashDigestSize - start)).2 with hdecrypted
  have hplain : ∀ i, start ≤ i → i < start + (s.getBytePosition + hashDigestSize - start) →
      decrypted i = buffer i := (decrypt_encrypt fun i _ hi => hbytes i (by omega)).2
  have hall : ∀ i < s.getBytePosition + hashDigestSize, decrypted i = buffer i := by
    intro i hi
    by_cases hlow : i < start
    · rw [hdecrypted, decrypt_frame (Or.inl hlow), hbytes i (by omega), encrypt_frame (Or.inl hlow)]
    · exact hplain i (by omega) (by omega)
  have hpayload : ∀ i < s.getBytePosition, decrypted i = s.buffer i := fun i hi =>
    (hall i (by omega)).trans (hbefore i hi)
  have hcheck : ∀ i < hashDigestSize, decrypted (s.getBytePosition + i) =
      digest lib decrypted s.getBytePosition i := by
    intro i hi
    rw [hall _ (by omega), hdigest i hi, digest_congr hpayload]
  have hresult : r.decryptAndCheckHash lib hashDigestSize start c = (true,
      { r with
        buffer := decrypted
        mBufSize := s.getBytePosition },
      (c.decrypt lib r.buffer start start (s.getBytePosition + hashDigestSize - start)).1) := by
    rw [decryptAndCheckHash, hlength, if_neg (by omega)]
    dsimp only
    rw [← hdecrypted, Nat.add_sub_cancel, if_pos hcheck, resize_of_le (Nat.le_add_right ..)]
  rw [hresult]
  refine ⟨rfl, rfl, hpayload, fun i hi => ?_, fun i hi => decrypt_frame (Or.inl hi) start⟩
  rw [encrypt_frame (Or.inl hi)]
  exact hbefore i (by omega)

/-- A cipher that adds the key to each byte, and a hash that is constant. -/
def toyCrypto : Crypto U8 := ⟨fun block key => block.map (· + key), fun _ => .replicate 32 7⟩

/-- Three bits after a byte that is not encrypted. -/
def toyStream : ByteStream := ⟨fun _ => 0x5A, 64, false, 11, false, 512, 512⟩

def toyCipher : SymmetricCipher U8 :=
  (SymmetricCipher.new toyCrypto 3 #v[1, 2, 3, 4]).setupCounter toyCrypto 5 6 7 0

/-- The packet of four bytes, as it arrives. -/
def toyReceived : ByteStream :=
  ⟨(toyStream.hashAndEncrypt toyCrypto 2 1 toyCipher).1.buffer, 4, false, 0, false, 32, 0⟩

/-- It passes the check, and has two bytes then. -/
theorem decryptAndCheckHash_hashAndEncrypt_toy :
    (toyReceived.decryptAndCheckHash toyCrypto 2 1 toyCipher).1 = true ∧
      (toyReceived.decryptAndCheckHash toyCrypto 2 1 toyCipher).2.1.mBufSize = 2 := by
  have hfresh : toyCipher.Fresh toyCrypto := fresh_setupCounter ..
  obtain ⟨hcheck, hsize, _⟩ := decryptAndCheckHash_hashAndEncrypt hfresh hfresh rfl rfl rfl
    (by decide : 2 ≤ 32) (by decide : 1 ≤ toyStream.getBytePosition) (Or.inl (by decide)) rfl
    fun i _ => (rfl : toyReceived.buffer i = _)
  exact ⟨hcheck, hsize⟩

end roundTrip

end ByteStream

end TNL
