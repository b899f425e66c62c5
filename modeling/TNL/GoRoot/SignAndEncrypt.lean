import TNL.GoRoot.BitStream

/-!
# Signed and encrypted data of the Go stream

The digest is put behind the data and both are encrypted from an offset on. The
position stays at the end of the data, although there is a digest now and the encrypted
message is longer by a nonce and a tag. The digests and the authenticated cipher of the
standard library are parameters.
-/
namespace TNL.GoRoot
open Library

structure Digests where
  md5 : List UInt8 → List UInt8
  sha256 : List UInt8 → List UInt8
  md5_length : ∀ data, (md5 data).length = 16
  sha256_length : ∀ data, (sha256 data).length = 32

namespace Digests

/-- Other sizes are not supported. -/
def sum (digests : Digests) (hashDigestSize : ℕ) (data : List UInt8) : Option (List UInt8) :=
  match hashDigestSize with
  | 16 => some (digests.md5 data)
  | 32 => some (digests.sha256 data)
  | _ => none

theorem sum_length {digests : Digests} {hashDigestSize : ℕ} {data hash : List UInt8}
    (h : digests.sum hashDigestSize data = some hash) : hash.length = hashDigestSize := by
  unfold sum at h
  split at h
  · rw [← Option.some.inj h, digests.md5_length]
  · rw [← Option.some.inj h, digests.sha256_length]
  · cases h

theorem exists_sum {hashDigestSize : ℕ} (digests : Digests)
    (hsize : hashDigestSize = 16 ∨ hashDigestSize = 32) (data : List UInt8) :
    ∃ hash, digests.sum hashDigestSize data = some hash := by
  rcases hsize with rfl | rfl
  · exact ⟨_, rfl⟩
  · exact ⟨_, rfl⟩

end Digests

/-- A block cipher in Galois counter mode under a key, with its laws. -/
structure AESCipher where
  nonceSize : ℕ
  overhead : ℕ
  gcmSeal : List UInt8 → List UInt8 → List UInt8
  gcmOpen : List UInt8 → List UInt8 → Option (List UInt8)
  seal_length : ∀ nonce data, (gcmSeal nonce data).length = data.length + overhead
  open_seal : ∀ nonce data, gcmOpen nonce (gcmSeal nonce data) = some data

namespace AESCipher

/-- The nonce comes from a reader that may fail. -/
def encrypt (c : AESCipher) (random : Except String (List UInt8)) (data : List UInt8) :
    Except String (List UInt8) := do
  let nonce ← random
  return nonce ++ c.gcmSeal nonce data

def decrypt (c : AESCipher) (data : List UInt8) : Except String (List UInt8) :=
  if data.length < c.nonceSize then .error "ciphertext too short"
  else match c.gcmOpen (data.take c.nonceSize) (data.drop c.nonceSize) with
    | none => .error "cipher: message authentication failed"
    | some plaintext => .ok plaintext

/-- Decryption inverts encryption. -/
theorem decrypt_encrypt (c : AESCipher) {nonce data ciphertext : List UInt8}
    (hnonce : nonce.length = c.nonceSize) (h : c.encrypt (.ok nonce) data = .ok ciphertext) :
    c.decrypt ciphertext = .ok data := by
  obtain rfl : nonce ++ c.gcmSeal nonce data = ciphertext := Except.ok.inj h
  rw [decrypt, if_neg (by rw [List.length_append]; omega), List.take_left' hnonce,
    List.drop_left' hnonce, c.open_seal]

end AESCipher

/-- A part of a slice, which ends the program if it is not within it. -/
def slice (bytes : List UInt8) (start stop : ℕ) : Option (List UInt8) :=
  if start ≤ stop ∧ stop ≤ bytes.length then some ((bytes.take stop).drop start) else none

/-- A slice after bytes have been copied to it from an index on, as many as there is room for. -/
def copyAt (bytes : List UInt8) (start : ℕ) (source : List UInt8) : List UInt8 :=
  let copied := source.take (bytes.length - start)
  bytes.take start ++ copied ++ bytes.drop (start + copied.length)

namespace BitStream

def getBytePosition (bs : BitStream) : ℕ := (bs.bitNum + 7) / 8

/-- An error with its text, if there is one, and the stream. -/
def hashAndEncrypt (digests : Digests) (bs : BitStream) (hashDigestSize encryptStartOffset : ℕ)
    (cipher : Option AESCipher) (random : Except String (List UInt8)) :
    Option (Option String × BitStream) :=
  match cipher with
  | none => some (some "cipher is nil", bs)
  | some cipher =>
    if hashDigestSize ≠ 16 ∧ hashDigestSize ≠ 32 then
      some (some "unsupported hash digest size", bs)
    else do
      let dataSize := bs.getBytePosition
      let data ← slice bs.buffer 0 dataSize
      let hash ← digests.sum hashDigestSize data
      let bs := { bs with buffer := copyAt bs.buffer dataSize hash }
      if encryptStartOffset < dataSize + hashDigestSize then
        let part ← slice bs.buffer encryptStartOffset (dataSize + hashDigestSize)
        match cipher.encrypt random part with
        | .error err => return (some err, bs)
        | .ok encrypted =>
          return (none, { bs with buffer := copyAt bs.buffer encryptStartOffset encrypted })
      else return (none, bs)

/-- The check once the data are decrypted. -/
def checkHash (digests : Digests) (bs : BitStream) (hashDigestSize : ℕ) :
    Option (Bool × BitStream) := do
  let dataSize := bs.getBytePosition
  let actualDataSize := dataSize - hashDigestSize
  if hashDigestSize ≠ 16 ∧ hashDigestSize ≠ 32 then return (false, bs)
  else
    let data ← slice bs.buffer 0 actualDataSize
    let expectedHash ← digests.sum hashDigestSize data
    let storedHash ← slice bs.buffer actualDataSize dataSize
    return (decide (expectedHash = storedHash), bs)

def decryptAndCheckHash (digests : Digests) (bs : BitStream)
    (hashDigestSize decryptStartOffset : ℕ) (cipher : Option AESCipher) :
    Option (Bool × BitStream) :=
  match cipher with
  | none => some (false, bs)
  | some cipher =>
    let dataSize := bs.getBytePosition
    if dataSize < hashDigestSize then some (false, bs)
    else if decryptStartOffset < dataSize then do
      let part ← slice bs.buffer decryptStartOffset dataSize
      match cipher.decrypt part with
      | .error _ => return (false, bs)
      | .ok decrypted =>
        checkHash digests { bs with buffer := copyAt bs.buffer decryptStartOffset decrypted }
          hashDigestSize
    else checkHash digests bs hashDigestSize

/-- The bytes of a stream up to its position, in a stream of their own at their end. -/
def received (bs : BitStream) : BitStream :=
  { newBitStream (bs.buffer.take bs.getBytePosition) with bitNum := 8 * bs.getBytePosition }

/-- What is sent passes the check and gives the data back, and an error leaves the stream as it
was. -/
structure SignsAndEncrypts (digests : Digests) (bs : BitStream) (hashDigestSize offset : ℕ)
    (cipher : AESCipher) (random : Except String (List UInt8)) : Prop where
  passes : ∀ sent, hashAndEncrypt digests bs hashDigestSize offset cipher random =
    some (none, sent) → ∃ bs', decryptAndCheckHash digests sent.received hashDigestSize offset cipher =
      some (true, bs') ∧
        bs'.buffer.take bs.getBytePosition = bs.buffer.take bs.getBytePosition
  unchanged : ∀ err sent, hashAndEncrypt digests bs hashDigestSize offset cipher random =
    some (some err, sent) → sent = bs

/-- The data end with the digest of what is before it. -/
def SelfSigned (digests : Digests) (hashDigestSize : ℕ) (data : List UInt8) : Prop :=
  hashDigestSize ≤ data.length ∧
    digests.sum hashDigestSize (data.take (data.length - hashDigestSize)) =
      some (data.drop (data.length - hashDigestSize))

instance (digests : Digests) (hashDigestSize : ℕ) (data : List UInt8) :
    Decidable (SelfSigned digests hashDigestSize data) :=
  inferInstanceAs (Decidable (_ ∧ _))

/-- Either nothing of the data is encrypted, or as many bytes of the encrypted message as there are
data can be decrypted and are the data again, with the bytes that are left of the message. -/
def Survives (cipher : AESCipher) (offset : ℕ) (nonce data hash : List UInt8) : Prop :=
  offset = data.length ∨
    let encrypted :=
      (nonce ++ cipher.gcmSeal nonce (data.drop offset ++ hash)).take (data.length - offset)
    ∃ plain, cipher.decrypt encrypted = .ok plain ∧
      copyAt (data.take offset ++ encrypted) offset plain = data

/-- What the data and the buffer are like where the code keeps its promise. -/
def Unharmed (digests : Digests) (bs : BitStream) (hashDigestSize offset : ℕ)
    (cipher : AESCipher) : Except String (List UInt8) → Prop
  | .ok nonce =>
    let data := bs.buffer.take bs.getBytePosition
    SelfSigned digests hashDigestSize data ∧
      ∀ hash ∈ digests.sum hashDigestSize data, Survives cipher offset nonce data hash
  | .error _ =>
    digests.sum hashDigestSize (bs.buffer.take bs.getBytePosition) =
      some ((bs.buffer.drop bs.getBytePosition).take hashDigestSize)

variable {digests : Digests} {bs : BitStream} {hashDigestSize offset : ℕ} {cipher : AESCipher}
  {random : Except String (List UInt8)} {bytes source hash data : List UInt8} {start stop n : ℕ}

section slices

theorem slice_of_le (hstart : start ≤ stop) (hstop : stop ≤ bytes.length) :
    slice bytes start stop = some ((bytes.take stop).drop start) := if_pos ⟨hstart, hstop⟩

@[simp] theorem copyAt_length (bytes : List UInt8) (start : ℕ) (source : List UInt8)
    (hstart : start ≤ bytes.length) : (copyAt bytes start source).length = bytes.length := by
  simp only [copyAt, List.length_append, List.length_take, List.length_drop]
  omega

/-- What is copied over the end of the part that is looked at. -/
theorem copyAt_take (hstart : start ≤ n) (hn : n ≤ bytes.length) (hsource : n - start ≤ source.length) :
    (copyAt bytes start source).take n = bytes.take start ++ source.take (n - start) := by
  rw [copyAt, List.append_assoc, List.take_append, List.length_take_of_le (hstart.trans hn),
    List.take_of_length_le (by rw [List.length_take]; omega)]
  congr 1
  rw [List.take_append_of_le_length (by rw [List.length_take]; omega), List.take_take,
    Nat.min_eq_left (by omega)]

theorem slice_all (hstop : stop = bytes.length) (hstart : start ≤ stop) :
    slice bytes start stop = some (bytes.drop start) := by
  rw [slice_of_le hstart hstop.le, hstop, List.take_length]

end slices

section checking

/-- The check of a stream that is at its end. -/
theorem checkHash_eq (hsize : hashDigestSize = 16 ∨ hashDigestSize = 32)
    (hend : bs.getBytePosition = bs.buffer.length) (hle : hashDigestSize ≤ bs.buffer.length) :
    checkHash digests bs hashDigestSize =
      some (decide (SelfSigned digests hashDigestSize bs.buffer), bs) := by
  obtain ⟨hash, hhash⟩ := digests.exists_sum hsize
    (bs.buffer.take (bs.buffer.length - hashDigestSize))
  rw [checkHash, hend, if_neg (by omega), slice_of_le (Nat.zero_le _) (Nat.sub_le ..),
    List.drop_zero, slice_all rfl (Nat.sub_le ..)]
  simp only [Option.bind_eq_bind, Option.bind_some, hhash]
  have hiff : SelfSigned digests hashDigestSize bs.buffer ↔
      hash = bs.buffer.drop (bs.buffer.length - hashDigestSize) := by
    rw [SelfSigned, hhash, Option.some_inj, and_iff_right hle]
  exact congrArg (fun result => some (result, bs)) (decide_eq_decide.mpr hiff.symm)

/-- What arrives is the beginning of the data and of the encrypted message. -/
theorem passes_iff {encrypted : List UInt8} (hsize : hashDigestSize = 16 ∨ hashDigestSize = 32)
    (hoffset : offset ≤ data.length) (hlength : encrypted.length = data.length - offset)
    (hbuffer : bs.buffer = data.take offset ++ encrypted)
    (hend : bs.getBytePosition = data.length) :
    (∃ bs', decryptAndCheckHash digests bs hashDigestSize offset cipher = some (true, bs') ∧
        bs'.buffer.take data.length = data) ↔
      SelfSigned digests hashDigestSize data ∧ (offset = data.length ∨ ∃ plain,
        cipher.decrypt encrypted = .ok plain ∧
          copyAt (data.take offset ++ encrypted) offset plain = data) := by
  have htake : (data.take offset).length = offset := List.length_take_of_le hoffset
  have hall : bs.buffer.length = data.length := by
    rw [hbuffer, List.length_append, htake]
    omega
  rw [decryptAndCheckHash, hend]
  by_cases hle : hashDigestSize ≤ data.length
  · rw [if_neg (Nat.not_lt.mpr hle)]
    by_cases hlt : offset < data.length
    · have hpart : slice bs.buffer offset data.length = some encrypted := by
        rw [slice_all hall.symm hoffset, hbuffer, List.drop_left' htake]
      rw [if_pos hlt, hpart, Option.bind_eq_bind, Option.bind_some, or_iff_right (Nat.ne_of_lt hlt)]
      cases hplain : cipher.decrypt encrypted with
      | error err => simp
      | ok plain =>
        have hcopied : (copyAt bs.buffer offset plain).length = data.length := by
          rw [copyAt_length _ _ _ (by omega), hall]
        have hcheck := @checkHash_eq digests { bs with buffer := copyAt bs.buffer offset plain }
          hashDigestSize hsize (hend.trans hcopied.symm) (hle.trans hcopied.symm.le)
        simp only [hcheck, Except.ok.injEq, exists_eq_left', ← hbuffer]
        constructor
        · rintro ⟨bs', heq, hdata⟩
          obtain ⟨hsigned, rfl⟩ := Prod.mk.inj (Option.some.inj heq)
          rw [List.take_of_length_le hcopied.le] at hdata
          exact ⟨hdata ▸ of_decide_eq_true hsigned, hdata⟩
        · rintro ⟨hsigned, hdata⟩
          rw [hdata, decide_eq_true hsigned]
          exact ⟨_, rfl, List.take_length⟩
    · have hdata : bs.buffer = data := by
        rw [hbuffer, List.length_eq_zero_iff.mp (by omega : encrypted.length = 0), List.append_nil,
          List.take_of_length_le (by omega)]
      rw [if_neg hlt, checkHash_eq hsize (hend.trans hall.symm) (hle.trans hall.symm.le), hdata,
        and_iff_left (.inl (by omega))]
      constructor
      · rintro ⟨bs', heq, -⟩
        exact of_decide_eq_true (Prod.mk.inj (Option.some.inj heq)).1
      · intro hsigned
        rw [decide_eq_true hsigned]
        exact ⟨bs, rfl, by rw [hdata, List.take_length]⟩
  · rw [if_pos (Nat.not_le.mp hle)]
    constructor
    · rintro ⟨bs', heq, -⟩
      exact absurd (Prod.mk.inj (Option.some.inj heq)).1 Bool.false_ne_true
    · rintro ⟨⟨hsigned, -⟩, -⟩
      exact absurd hsigned hle

end checking

section signing

/-- What is encrypted, and what is left of it where the data were. -/
theorem hashAndEncrypt_eq (hsize : hashDigestSize = 16 ∨ hashDigestSize = 32)
    (hoffset : offset ≤ bs.getBytePosition)
    (hroom : bs.getBytePosition + hashDigestSize ≤ bs.buffer.length)
    (hdata : data = bs.buffer.take bs.getBytePosition)
    (hhash : digests.sum hashDigestSize data = some hash) :
    hashAndEncrypt digests bs hashDigestSize offset cipher random =
      match random with
      | .error err =>
        some (some err, { bs with buffer := copyAt bs.buffer bs.getBytePosition hash })
      | .ok nonce => some (none, { bs with
          buffer := copyAt (copyAt bs.buffer bs.getBytePosition hash) offset
            (nonce ++ cipher.gcmSeal nonce (data.drop offset ++ hash)) }) := by
  have hlength : hash.length = hashDigestSize := Digests.sum_length hhash
  have hcopied : (copyAt bs.buffer bs.getBytePosition hash).take
      (bs.getBytePosition + hashDigestSize) = data ++ hash := by
    rw [copyAt_take (Nat.le_add_right ..) hroom (by omega), Nat.add_sub_cancel_left, ← hdata,
      ← hlength, List.take_length]
  have hpart : slice (copyAt bs.buffer bs.getBytePosition hash) offset
      (bs.getBytePosition + hashDigestSize) = some (data.drop offset ++ hash) := by
    rw [slice_of_le (by omega) (by rw [copyAt_length _ _ _ (by omega)]; exact hroom), hcopied,
      List.drop_append_of_le_length (by rw [hdata, List.length_take]; omega)]
  rw [hashAndEncrypt]
  dsimp only
  rw [if_neg (by omega), slice_of_le (Nat.zero_le _) (by omega), List.drop_zero, ← hdata]
  simp only [Option.bind_eq_bind, Option.bind_some, hhash]
  rw [if_pos (by omega), hpart]
  cases random with
  | error err => rfl
  | ok nonce => rfl

/-- The digest is copied to where it stands already. -/
theorem copyAt_eq_self_iff (hroom : start + source.length ≤ bytes.length) :
    copyAt bytes start source = bytes ↔ (bytes.drop start).take source.length = source := by
  have hfits : source.take (bytes.length - start) = source := List.take_of_length_le (by omega)
  have hsplit : bytes.take start ++ ((bytes.drop start).take source.length ++
      bytes.drop (start + source.length)) = bytes := by
    rw [← List.drop_drop, List.take_append_drop, List.take_append_drop]
  rw [copyAt, hfits, List.append_assoc]
  constructor
  · intro heq
    have hmiddle := List.append_cancel_left (heq.trans hsplit.symm)
    exact (List.append_cancel_right hmiddle).symm
  · intro heq
    rw [heq] at hsplit
    exact hsplit

/-- The bytes up to the position are those of the data and the beginning of the message. -/
theorem received_buffer {encrypted : List UInt8} {sent : BitStream}
    (hdata : data = bs.buffer.take bs.getBytePosition)
    (hposition : data.length = bs.getBytePosition)
    (hoffset : offset ≤ data.length) (hencrypted : data.length ≤ offset + encrypted.length)
    (hsent : sent = { bs with
      buffer := copyAt (copyAt bs.buffer bs.getBytePosition hash) offset encrypted }) :
    sent.received.buffer = data.take offset ++ encrypted.take (data.length - offset) := by
  have hle : bs.getBytePosition ≤ bs.buffer.length := by
    rw [hdata, List.length_take] at hposition
    omega
  have hcopied := copyAt_length bs.buffer bs.getBytePosition hash hle
  have hbefore : (copyAt bs.buffer bs.getBytePosition hash).take bs.getBytePosition = data := by
    rw [copyAt_take le_rfl hle (by omega), Nat.sub_self, List.take_zero, List.append_nil, hdata]
  have htaken : (copyAt bs.buffer bs.getBytePosition hash).take offset = data.take offset := by
    rw [← hbefore, List.take_take, Nat.min_eq_left (by omega)]
  change sent.buffer.take sent.getBytePosition = _
  have hsame : sent.getBytePosition = bs.getBytePosition := by
    rw [hsent]
    rfl
  rw [hsame, hsent]
  dsimp only
  rw [copyAt_take (by omega) (by omega) (by omega), htaken, hposition]

end signing

/-- The digest of nothing. -/
def emptyHash : List UInt8 :=
  [212, 29, 140, 217, 143, 0, 178, 4, 233, 128, 9, 152, 236, 248, 66, 126]

/-- The digest of that digest. -/
def emptyHashHash : List UInt8 :=
  [89, 173, 178, 78, 243, 205, 190, 2, 151, 240, 91, 57, 88, 39, 69, 63]

/-- The same under a key and a nonce of zeros, with its tag. -/
def emptyHashSealed : List UInt8 :=
  [151, 10, 242, 115, 190, 173, 213, 108, 144, 190, 158, 234, 226, 212, 216, 39,
    80, 201, 166, 185, 129, 217, 3, 69, 235, 50, 233, 33, 58, 15, 146, 231]

/-- Digests with the values that are used. -/
def fewDigests : Digests where
  md5 data := if data = [] then emptyHash else if data = emptyHash then emptyHashHash
    else List.replicate 16 0
  sha256 _ := List.replicate 32 0
  md5_length data := by split_ifs <;> rfl
  sha256_length _ := List.length_replicate

/-- A cipher with the value that is used, and a tag of zeros otherwise. -/
def zeroKey : AESCipher where
  nonceSize := 12
  overhead := 16
  gcmSeal nonce data := if nonce = List.replicate 12 0 ∧ data = emptyHashHash then emptyHashSealed
    else data ++ List.replicate 16 0
  gcmOpen nonce data := if nonce = List.replicate 12 0 ∧ data = emptyHashSealed then
      some emptyHashHash
    else some (data.take (data.length - 16))
  seal_length nonce data := by
    split_ifs with h
    · rw [h.2]
      rfl
    · rw [List.length_append, List.length_replicate]
  open_seal nonce data := by
    split_ifs with h₁ h₂ h₃
    · rw [h₁.2]
    · exact absurd ⟨h₁.1, rfl⟩ h₂
    · have hlast := congrArg List.getLast? h₃.2
      rw [List.getLast?_append_of_ne_nil _ (by decide)] at hlast
      exact absurd hlast (by decide)
    · simp

end BitStream

end TNL.GoRoot
