import TNL.Go.Handshake

/-!
# The messages of the handshake of the Go port

A message is its fields, one behind the other. A slice of bytes has its length in
front, as a number up to 1024 in eleven bits. A length above that is not written,
the bytes behind it are.
-/
namespace TNL.Go

/-- The string compression. -/
structure Smaz where
  compress : List UInt8 → List UInt8
  decompress : List UInt8 → Option (List UInt8)
  decompress_compress : ∀ s, decompress (compress s) = some s

namespace BitWriter

/-- The loops that write a number of bytes. -/
def writeBytes (b : BitWriter) (bytes : List UInt8) : BitWriter := bytes.foldl writeUint8 b

/-- The length of a slice, as 32 bits, and its bytes. -/
def writeSlice (b : BitWriter) (bytes : List UInt8) : BitWriter :=
  (b.writeRangedUint32 (bytes.length % 2 ^ 32) 0 1024).writeBytes bytes

def writeString (S : Smaz) (b : BitWriter) (s : List UInt8) : BitWriter :=
  b.writeSlice (S.compress s)

/-- The bits that fill the last byte. -/
def padding (b : BitWriter) : List Bool := List.replicate ((8 - b.length % 8) % 8) false

def flush (b : BitWriter) : BitWriter := b ++ b.padding

end BitWriter

/-- The length of a slice and its bytes. -/
def BitReader.readSlice (b : BitReader) : List UInt8 × BitReader :=
  let (length, b) := b.readRangedUint32 0 1024
  readBytes length b

open BitWriter BitReader

def ChallengeRequest.write (m : ChallengeRequest) (bs : BitWriter) : BitWriter :=
  bs.writeBytes m.clientNonce

def ChallengeRequest.readFrom (bs : BitReader) : ChallengeRequest × BitReader :=
  let (clientNonce, bs) := readBytes 16 bs
  (⟨clientNonce⟩, bs)

def ChallengeResponse.write (m : ChallengeResponse) (bs : BitWriter) : BitWriter :=
  let bs := bs.writeBytes m.clientNonce
  let bs := bs.writeBytes m.serverNonce
  let bs := bs.writeUint32 m.clientIdentity
  let bs := bs.writeUint32 m.difficulty
  bs.writeSlice m.publicKey

def ChallengeResponse.readFrom (bs : BitReader) : ChallengeResponse × BitReader :=
  let (clientNonce, bs) := readBytes 16 bs
  let (serverNonce, bs) := readBytes 16 bs
  let (clientIdentity, bs) := bs.readUint32
  let (difficulty, bs) := bs.readUint32
  let (publicKey, bs) := bs.readSlice
  (⟨clientNonce, serverNonce, clientIdentity, difficulty, publicKey⟩, bs)

def ConnectRequest.write (S : Smaz) (m : ConnectRequest) (bs : BitWriter) : BitWriter :=
  let bs := bs.writeBytes m.clientNonce
  let bs := bs.writeBytes m.serverNonce
  let bs := bs.writeUint32 m.puzzleSolution
  let bs := bs.writeSlice m.clientPublicKey
  let bs := bs.writeString S m.connectionClass
  bs.writeSlice m.data

def ConnectRequest.readFrom (decompress : List UInt8 → Option (List UInt8)) (bs : BitReader) :
    ConnectRequest × BitReader :=
  let (clientNonce, bs) := readBytes 16 bs
  let (serverNonce, bs) := readBytes 16 bs
  let (puzzleSolution, bs) := bs.readUint32
  let (clientPublicKey, bs) := bs.readSlice
  let (connectionClass, bs) := bs.readString decompress
  let (data, bs) := bs.readSlice
  (⟨clientNonce, serverNonce, puzzleSolution, clientPublicKey, connectionClass, data⟩, bs)

def ConnectAccept.write (m : ConnectAccept) (bs : BitWriter) : BitWriter :=
  let bs := bs.writeUint32 m.initialSendSeq
  let bs := bs.writeUint32 m.initialRecvSeq
  let bs := bs.writeSlice m.sessionIV
  bs.writeSlice m.data

def ConnectAccept.readFrom (bs : BitReader) : ConnectAccept × BitReader :=
  let (initialSendSeq, bs) := bs.readUint32
  let (initialRecvSeq, bs) := bs.readUint32
  let (sessionIV, bs) := bs.readSlice
  let (data, bs) := bs.readSlice
  (⟨initialSendSeq, initialRecvSeq, sessionIV, data⟩, bs)

structure ConnectReject where
  reason : List UInt8
  deriving DecidableEq

def ConnectReject.write (S : Smaz) (m : ConnectReject) (bs : BitWriter) : BitWriter :=
  bs.writeString S m.reason

def ConnectReject.readFrom (decompress : List UInt8 → Option (List UInt8)) (bs : BitReader) :
    ConnectReject × BitReader :=
  let (reason, bs) := bs.readString decompress
  (⟨reason⟩, bs)

inductive HandshakeMessage where
  | challengeRequest (m : ChallengeRequest)
  | challengeResponse (m : ChallengeResponse)
  | connectRequest (m : ConnectRequest)
  | connectAccept (m : ConnectAccept)
  | connectReject (m : ConnectReject)
  deriving DecidableEq

namespace HandshakeMessage

def write (S : Smaz) : HandshakeMessage → BitWriter → BitWriter
  | challengeRequest m, bs => m.write bs
  | challengeResponse m, bs => m.write bs
  | connectRequest m, bs => m.write S bs
  | connectAccept m, bs => m.write bs
  | connectReject m, bs => m.write S bs

/-- Read a message of the kind that this one is. -/
def readFrom (S : Smaz) : HandshakeMessage → BitReader → HandshakeMessage × BitReader
  | challengeRequest _, bs => (ChallengeRequest.readFrom bs).map challengeRequest id
  | challengeResponse _, bs => (ChallengeResponse.readFrom bs).map challengeResponse id
  | connectRequest _, bs => (ConnectRequest.readFrom S.decompress bs).map connectRequest id
  | connectAccept _, bs => (ConnectAccept.readFrom bs).map connectAccept id
  | connectReject _, bs => (ConnectReject.readFrom S.decompress bs).map connectReject id

/-- The nonces have 16 bytes. -/
def Nonces : HandshakeMessage → Prop
  | challengeRequest m => m.clientNonce.length = 16
  | challengeResponse m => m.clientNonce.length = 16 ∧ m.serverNonce.length = 16
  | connectRequest m => m.clientNonce.length = 16 ∧ m.serverNonce.length = 16
  | connectAccept _ => True
  | connectReject _ => True

/-- The lengths of the slices that are written, a string as it is compressed. -/
def lengths (S : Smaz) : HandshakeMessage → List ℕ
  | challengeRequest _ => []
  | challengeResponse m => [m.publicKey.length]
  | connectRequest m =>
    [m.clientPublicKey.length, (S.compress m.connectionClass).length, m.data.length]
  | connectAccept m => [m.sessionIV.length, m.data.length]
  | connectReject m => [(S.compress m.reason).length]

/-- The message is read from the bytes that it was written as, and nothing else of them is. -/
def RoundTrips (S : Smaz) (m : HandshakeMessage) : Prop :=
  m.readFrom S ⟨(m.write S []).flush, false⟩ = (m, ⟨(m.write S []).padding, false⟩)

end HandshakeMessage

/-- What the server's handler reads of a message. -/
theorem ConnectRequest.readFrom_fst (C : Crypto) (bs : BitReader) :
    (ConnectRequest.readFrom C.decompress bs).1 = ConnectRequest.read C bs := by
  simp only [ConnectRequest.readFrom, ConnectRequest.read, readSlice]

section write

variable (b : BitWriter) (bytes : List UInt8)

theorem writeBytes_eq : b.writeBytes bytes = b ++ byteBits bytes := by
  induction bytes generalizing b with
  | nil => exact (List.append_nil b).symm
  | cons byte bytes ih =>
    rw [writeBytes, List.foldl_cons, ← writeBytes, ih, byteBits_cons, writeUint8, writeBits,
      List.append_assoc]

theorem writeSlice_append : b.writeSlice bytes = b ++ writeSlice [] bytes := by
  rw [writeSlice, writeSlice, writeBytes_eq, writeBytes_eq, writeRangedUint32_append,
    List.append_assoc]

theorem writeSlice_length : (b.writeSlice bytes).length =
    b.length + (if bytes.length % 2 ^ 32 ≤ 1024 then 11 else 0) + 8 * bytes.length := by
  rw [writeSlice, writeBytes_eq, List.length_append, byteBits_length]
  by_cases hshort : bytes.length % 2 ^ 32 ≤ 1024
  · rw [writeRangedUint32_eq b hshort, List.length_append, bitsOf_length, if_pos hshort]
  · rw [writeRangedUint32, if_pos (.inr (by omega)), if_neg hshort, Nat.add_zero]

theorem flush_length : b.flush.length = b.length + b.padding.length := List.length_append ..

end write

section roundTrip

variable {bytes : List UInt8} {rest : List Bool}

theorem readBytes_byteBits : readBytes bytes.length ⟨byteBits bytes ++ rest, false⟩ =
    (bytes, ⟨rest, false⟩) := by
  induction bytes with
  | nil => rfl
  | cons byte bytes ih =>
    have hbyte : byte.toNat % 2 ^ 8 = byte.toNat := Nat.mod_eq_of_lt byte.toNat_lt
    rw [byteBits_cons, List.append_assoc, List.length_cons, readBytes, readUint8,
      readBits_bitsOf, hbyte]
    dsimp only
    rw [ih, UInt8.ofNat_toNat]

theorem readSlice_writeSlice (hshort : bytes.length ≤ 1024) :
    readSlice ⟨writeSlice [] bytes ++ rest, false⟩ = (bytes, ⟨rest, false⟩) := by
  rw [writeSlice, Nat.mod_eq_of_lt (by omega), writeRangedUint32_eq [] hshort, writeBytes_eq,
    List.nil_append, List.append_assoc, readSlice, readRangedUint32_bitsOf hshort]
  exact readBytes_byteBits

theorem readString_writeSlice (S : Smaz) {s : List UInt8}
    (hshort : (S.compress s).length ≤ 1024) :
    readString S.decompress ⟨writeSlice [] (S.compress s) ++ rest, false⟩ =
      (s, ⟨rest, false⟩) := by
  rw [writeSlice, Nat.mod_eq_of_lt (by omega), writeRangedUint32_eq [] hshort, writeBytes_eq,
    List.nil_append, List.append_assoc, readString, if_neg Bool.false_ne_true,
    readRangedUint32_bitsOf hshort]
  dsimp only
  rw [if_neg Bool.false_ne_true, readBytes_byteBits]
  dsimp only
  rw [S.decompress_compress]

end roundTrip

section takes

/-- A slice that is read is short, and takes its bytes and the eleven bits of its length. -/
theorem readSlice_takes (b : BitReader) : b.readSlice.1.length < 2048 ∧
    b.Takes (11 + 8 * b.readSlice.1.length) b.readSlice.2 := by
  have hbits : getNextBinLog2 (1024 - 0 + 1) = 11 := by decide
  have htakes : b.Takes 11 (b.readRangedUint32 0 1024).2 := by
    rw [readRangedUint32, hbits]
    exact readBits_takes b 11
  have hvalue : (b.readRangedUint32 0 1024).1 < 2048 := by
    rw [readRangedUint32, hbits]
    exact readBits_lt b 11
  rw [readSlice, readBytes_length]
  exact ⟨hvalue, htakes.trans (readBytes_takes _ _)⟩

/-- A string that is read was compressed to a short slice. -/
theorem readString_takes (decompress : List UInt8 → Option (List UInt8)) (b : BitReader) :
    ∃ n < 2048, b.Takes (11 + 8 * n) (b.readString decompress).2 := by
  obtain ⟨hshort, htakes⟩ := readSlice_takes b
  refine ⟨_, hshort, fun hok => ?_⟩
  have hslice : (b.readString decompress).2 = b.readSlice.2 := by
    simp only [readString, readSlice] at hok ⊢
    generalize b.readRangedUint32 0 1024 = length at hok ⊢
    split_ifs at hok ⊢ with hstart hlength
    · exact absurd hok (by simp [hstart])
    · exact absurd hok (by simp [hlength])
    · cases hstring : decompress (readBytes length.1 length.2).1 with
      | none =>
        rw [hstring] at hok
        exact Bool.noConfusion hok
      | some s => rfl
  rw [hslice] at hok ⊢
  exact htakes hok

theorem ChallengeResponse.readFrom_takes (b : BitReader) :
    (readFrom b).1.publicKey.length < 2048 ∧
      b.Takes (8 * 16 + (8 * 16 + (32 + (32 + (11 + 8 * (readFrom b).1.publicKey.length)))))
        (readFrom b).2 := by
  simp only [readFrom]
  obtain ⟨hkey, hslice⟩ := readSlice_takes (readUint32 (readUint32 (readBytes 16
    (readBytes 16 b).2).2).2).2
  exact ⟨hkey, (readBytes_takes 16 b).trans <| (readBytes_takes 16 _).trans <|
    (readUint32_takes _).trans <| (readUint32_takes _).trans hslice⟩

theorem ConnectRequest.readFrom_takes (decompress : List UInt8 → Option (List UInt8))
    (b : BitReader) : ∃ n < 2048, (readFrom decompress b).1.clientPublicKey.length < 2048 ∧
      (readFrom decompress b).1.data.length < 2048 ∧
      b.Takes (8 * 16 + (8 * 16 + (32 +
        ((11 + 8 * (readFrom decompress b).1.clientPublicKey.length) +
          ((11 + 8 * n) + (11 + 8 * (readFrom decompress b).1.data.length))))))
        (readFrom decompress b).2 := by
  simp only [readFrom]
  obtain ⟨hkey, hkeySlice⟩ := readSlice_takes (readUint32 (readBytes 16 (readBytes 16 b).2).2).2
  obtain ⟨n, hn, hstring⟩ := readString_takes decompress (readSlice (readUint32 (readBytes 16
    (readBytes 16 b).2).2).2).2
  obtain ⟨hdata, hdataSlice⟩ := readSlice_takes (readString decompress (readSlice (readUint32
    (readBytes 16 (readBytes 16 b).2).2).2).2).2
  exact ⟨n, hn, hkey, hdata, (readBytes_takes 16 b).trans <| (readBytes_takes 16 _).trans <|
    (readUint32_takes _).trans <| hkeySlice.trans <| hstring.trans hdataSlice⟩

theorem ConnectAccept.readFrom_takes (b : BitReader) :
    (readFrom b).1.sessionIV.length < 2048 ∧ (readFrom b).1.data.length < 2048 ∧
      b.Takes (32 + (32 + ((11 + 8 * (readFrom b).1.sessionIV.length) +
        (11 + 8 * (readFrom b).1.data.length)))) (readFrom b).2 := by
  simp only [readFrom]
  obtain ⟨hiv, hivSlice⟩ := readSlice_takes (readUint32 (readUint32 b).2).2
  obtain ⟨hdata, hdataSlice⟩ := readSlice_takes (readSlice (readUint32 (readUint32 b).2).2).2
  exact ⟨hiv, hdata, (readUint32_takes b).trans <| (readUint32_takes _).trans <|
    hivSlice.trans hdataSlice⟩

end takes

namespace HandshakeMessage

variable (S : Smaz) (m : HandshakeMessage)

theorem write_append (bs : BitWriter) : m.write S bs = bs ++ m.write S [] := by
  cases m <;> simp only [write, ChallengeRequest.write, ChallengeResponse.write,
    ConnectRequest.write, ConnectAccept.write, ConnectReject.write, writeBytes_eq, writeUint32,
    writeBits, writeString, List.nil_append, List.append_assoc,
    writeSlice_append (_ ++ _), writeSlice_append bs]

/-- Slices up to 1024 bytes are read as they were written, whatever is behind the message. -/
theorem readFrom_write (hnonces : m.Nonces) (hshort : ∀ n ∈ m.lengths S, n ≤ 1024)
    (rest : List Bool) : m.readFrom S ⟨m.write S [] ++ rest, false⟩ = (m, ⟨rest, false⟩) := by
  have hnonce : ∀ nonce : List UInt8, nonce.length = 16 → ∀ rest : List Bool,
      readBytes 16 ⟨byteBits nonce ++ rest, false⟩ = (nonce, ⟨rest, false⟩) := by
    intro nonce hlength rest
    rw [← hlength]
    exact readBytes_byteBits
  cases m with
  | challengeRequest m =>
    simp only [write, readFrom, ChallengeRequest.write, ChallengeRequest.readFrom, writeBytes_eq,
      List.nil_append, hnonce _ hnonces, Prod.map, id]
  | challengeResponse m =>
    obtain ⟨hclient, hserver⟩ := hnonces
    have hkey : m.publicKey.length ≤ 1024 := hshort _ List.mem_cons_self
    simp only [write, readFrom, ChallengeResponse.write, ChallengeResponse.readFrom, writeBytes_eq,
      writeUint32, writeBits, writeSlice_append (_ ++ _), List.nil_append, List.append_assoc,
      hnonce _ hclient, hnonce _ hserver, readUint32_bitsOf, readSlice_writeSlice hkey, Prod.map,
      id]
  | connectRequest m =>
    obtain ⟨hclient, hserver⟩ := hnonces
    obtain ⟨hkey, hclass, hdata⟩ : m.clientPublicKey.length ≤ 1024 ∧
        (S.compress m.connectionClass).length ≤ 1024 ∧ m.data.length ≤ 1024 := by
      simpa [lengths] using hshort
    simp only [write, readFrom, ConnectRequest.write, ConnectRequest.readFrom, writeBytes_eq,
      writeUint32, writeBits, writeString, writeSlice_append (_ ++ _), List.nil_append,
      List.append_assoc, hnonce _ hclient, hnonce _ hserver, readUint32_bitsOf,
      readSlice_writeSlice hkey, readString_writeSlice S hclass, readSlice_writeSlice hdata,
      Prod.map, id]
  | connectAccept m =>
    obtain ⟨hiv, hdata⟩ : m.sessionIV.length ≤ 1024 ∧ m.data.length ≤ 1024 := by
      simpa [lengths] using hshort
    simp only [write, readFrom, ConnectAccept.write, ConnectAccept.readFrom, writeUint32,
      writeBits, writeSlice_append (_ ++ _), List.nil_append,
      List.append_assoc, readUint32_bitsOf, readSlice_writeSlice hiv, readSlice_writeSlice hdata,
      Prod.map, id]
  | connectReject m =>
    have hreason : (S.compress m.reason).length ≤ 1024 := hshort _ List.mem_cons_self
    simp only [write, readFrom, ConnectReject.write, ConnectReject.readFrom, writeString,
      readString_writeSlice S hreason, Prod.map, id]

/-! A message that is read as it was written has short slices. -/

theorem challengeResponse_short {m : ChallengeResponse} (hnonces : (challengeResponse m).Nonces)
    (h : RoundTrips S (challengeResponse m)) : m.publicKey.length ≤ 1024 := by
  obtain ⟨hclient, hserver⟩ := hnonces
  have hread : ChallengeResponse.readFrom ⟨(m.write []).flush, false⟩ =
      (m, ⟨(m.write []).padding, false⟩) :=
    Function.Injective.prodMap (fun _ _ => challengeResponse.inj) Function.injective_id h
  obtain ⟨hkey, htakes⟩ := ChallengeResponse.readFrom_takes ⟨(m.write []).flush, false⟩
  rw [hread] at hkey htakes
  obtain ⟨-, hlength⟩ := htakes rfl
  simp only [flush_length, ChallengeResponse.write, writeSlice_length, writeBytes_eq, writeUint32,
    writeBits, List.length_append, byteBits_length, bitsOf_length, List.length_nil, hclient,
    hserver] at hlength hkey
  split_ifs at hlength <;> omega

theorem connectRequest_short {m : ConnectRequest} (hnonces : (connectRequest m).Nonces)
    (h : RoundTrips S (connectRequest m)) : m.clientPublicKey.length ≤ 1024 ∧
      (S.compress m.connectionClass).length ≤ 1024 ∧ m.data.length ≤ 1024 := by
  obtain ⟨hclient, hserver⟩ := hnonces
  have hread : ConnectRequest.readFrom S.decompress ⟨(m.write S []).flush, false⟩ =
      (m, ⟨(m.write S []).padding, false⟩) :=
    Function.Injective.prodMap (fun _ _ => connectRequest.inj) Function.injective_id h
  obtain ⟨n, hclass, hkey, hdata, htakes⟩ :=
    ConnectRequest.readFrom_takes S.decompress ⟨(m.write S []).flush, false⟩
  rw [hread] at hkey hdata htakes
  obtain ⟨-, hlength⟩ := htakes rfl
  simp only [flush_length, ConnectRequest.write, writeString, writeSlice_length, writeBytes_eq,
    writeUint32, writeBits, List.length_append, byteBits_length, bitsOf_length, List.length_nil,
    hclient, hserver] at hlength hkey hdata
  -- the lengths that were not written leave a number of bits that is no number of bytes
  split_ifs at hlength <;> omega

theorem connectAccept_short {m : ConnectAccept} (h : RoundTrips S (connectAccept m)) :
    m.sessionIV.length ≤ 1024 ∧ m.data.length ≤ 1024 := by
  have hread : ConnectAccept.readFrom ⟨(m.write []).flush, false⟩ =
      (m, ⟨(m.write []).padding, false⟩) :=
    Function.Injective.prodMap (fun _ _ => connectAccept.inj) Function.injective_id h
  obtain ⟨hiv, hdata, htakes⟩ := ConnectAccept.readFrom_takes ⟨(m.write []).flush, false⟩
  rw [hread] at hiv hdata htakes
  obtain ⟨-, hlength⟩ := htakes rfl
  simp only [flush_length, ConnectAccept.write, writeSlice_length, writeUint32, writeBits,
    List.length_append, bitsOf_length, List.length_nil] at hlength hiv hdata
  split_ifs at hlength <;> omega

theorem connectReject_short {m : ConnectReject} (h : RoundTrips S (connectReject m)) :
    (S.compress m.reason).length ≤ 1024 := by
  have hread : ConnectReject.readFrom S.decompress ⟨(m.write S []).flush, false⟩ =
      (m, ⟨(m.write S []).padding, false⟩) :=
    Function.Injective.prodMap (fun _ _ => connectReject.inj) Function.injective_id h
  obtain ⟨n, hreason, htakes⟩ := readString_takes S.decompress ⟨(m.write S []).flush, false⟩
  have hafter : (readString S.decompress ⟨(m.write S []).flush, false⟩).2 =
      ⟨(m.write S []).padding, false⟩ := congrArg Prod.snd hread
  rw [hafter] at htakes
  obtain ⟨-, hlength⟩ := htakes rfl
  simp only [flush_length, ConnectReject.write, writeString, writeSlice_length,
    List.length_nil] at hlength
  split_ifs at hlength <;> omega

/-- A message is read as it was written exactly when its slices have at most 1024 bytes. -/
theorem roundTrips_iff (hnonces : m.Nonces) :
    m.RoundTrips S ↔ ∀ n ∈ m.lengths S, n ≤ 1024 := by
  refine ⟨fun h => ?_, fun hshort => m.readFrom_write S hnonces hshort _⟩
  cases m with
  | challengeRequest m => exact List.forall_mem_nil _
  | challengeResponse m =>
    simp only [lengths, List.mem_cons, List.not_mem_nil, or_false, forall_eq]
    exact challengeResponse_short S hnonces h
  | connectRequest m =>
    simp only [lengths, List.mem_cons, List.not_mem_nil, or_false, forall_eq_or_imp, forall_eq]
    exact connectRequest_short S hnonces h
  | connectAccept m =>
    simp only [lengths, List.mem_cons, List.not_mem_nil, or_false, forall_eq_or_imp, forall_eq]
    exact connectAccept_short S h
  | connectReject m =>
    simp only [lengths, List.mem_cons, List.not_mem_nil, or_false, forall_eq]
    exact connectReject_short S h

/-- A compression that leaves every string as it is. -/
def plain : Smaz where
  compress s := s
  decompress s := some s
  decompress_compress _ := rfl

/-- A request without a key and with a few bytes of data. -/
theorem roundTrips_iff_request : RoundTrips plain (.connectRequest
    ⟨List.replicate 16 1, List.replicate 16 2, 3, [], [], [4, 5, 6]⟩) :=
  (roundTrips_iff plain (.connectRequest _) ⟨rfl, rfl⟩).mpr (by decide)

/-- A key of 1025 bytes is written without its length, and an empty key is read. -/
theorem long_key_lost : ¬ ∀ (S : Smaz) (m : HandshakeMessage), m.Nonces → m.RoundTrips S := by
  intro claim
  have same := claim plain (.challengeResponse
    ⟨List.replicate 16 1, List.replicate 16 2, 3, 4, List.replicate 1025 0⟩) ⟨rfl, rfl⟩
  have hshort := challengeResponse_short plain ⟨rfl, rfl⟩ same
  rw [List.length_replicate] at hshort
  exact absurd hshort (by decide)

end HandshakeMessage

end TNL.Go
