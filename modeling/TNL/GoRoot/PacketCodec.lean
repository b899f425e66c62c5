import TNL.GoRoot.MasterPackets

/-!
# The bytes of the packets of the Go master server

Packets consist of whole bytes. What is sent is given as bytes, and what is read
as what it leaves of the bytes of the packet; fields that are cut off are zero.
-/
namespace TNL.GoRoot
open Library

/-! The bytes that are sent. -/

section sending
variable {bs : BitStream} {bytes : List UInt8}

def addressBytes (addr : Address) : List UInt8 := wireIP addr.host ++ leBytes 2 addr.port.toNat

def addressesBytes (addresses : List Address) : List UInt8 :=
  leBytes 2 addresses.length ++ addresses.flatMap addressBytes

def bufferBytes (data : List UInt8) : List UInt8 := leBytes 2 data.length ++ data

/-- The head of a packet about the RPC with a number. -/
def headBytes (rpcID : ℕ) : List UInt8 := leBytes 1 2 ++ leBytes 2 rpcID

theorem wireIP_length (host : List UInt8) : (wireIP host).length = 4 := by
  rw [wireIP]
  split
  · assumption
  · rfl

theorem leBytes_mod (k n : ℕ) : leBytes k (n % 256 ^ k) = leBytes k n := by
  induction k generalizing n with
  | zero => rfl
  | succ k ih =>
    have hlow : n % 256 ^ (k + 1) % 256 = n % 256 :=
      Nat.mod_mod_of_dvd n (Dvd.intro_left (256 ^ k) (Nat.pow_succ ..).symm)
    have hhigh : n % 256 ^ (k + 1) / 256 = n / 256 % 256 ^ k := by
      rw [Nat.pow_succ', Nat.mod_mul_right_div_self]
    have hbyte : UInt8.ofNat (n % 256 ^ (k + 1)) = UInt8.ofNat n := by
      apply UInt8.toNat_inj.mp
      rw [UInt8.toNat_ofNat', UInt8.toNat_ofNat']
      exact hlow
    rw [leBytes, leBytes, hbyte, hhigh, ih]

/-- A length is cut to its two bytes when it is written. -/
theorem leBytes_length_field (n : ℕ) : leBytes 2 (BitVec.ofNat 32 n).toNat = leBytes 2 n := by
  have hmod : n % 2 ^ 32 % 256 ^ 2 = n % 256 ^ 2 := Nat.mod_mod_of_dvd n (by decide)
  rw [BitVec.toNat_ofNat, ← leBytes_mod, hmod, leBytes_mod]

theorem rpcPacket_writes (rpcID : U32) :
    ∃ bs, rpcPacket rpcID = some bs ∧ bs.Writes (headBytes rpcID.toNat) := by
  obtain ⟨bs₁, heq₁, h₁⟩ := BitStream.newResizableBitStream_writes.writeInt 2 1
  obtain ⟨bs₂, heq₂, h₂⟩ := h₁.writeInt rpcID 2
  refine ⟨bs₂, ?_, h₂⟩
  rw [rpcPacket, heq₁]
  exact heq₂

theorem writeAddress_writes (h : bs.Writes bytes) (addr : Address) :
    ∃ bs', writeAddress bs addr = some bs' ∧ bs'.Writes (bytes ++ addressBytes addr) := by
  have hlength := wireIP_length addr.host
  obtain ⟨bs₁, heq₁, h₁⟩ := h.writeBits (n := 4) hlength.ge
  obtain ⟨bs₂, heq₂, h₂⟩ := h₁.writeInt (addr.port.setWidth 32) 2
  have hport : (addr.port.setWidth 32).toNat = addr.port.toNat := by
    rw [BitVec.toNat_setWidth]
    exact Nat.mod_eq_of_lt (addr.port.isLt.trans (by decide))
  rw [hport, List.take_of_length_le hlength.le, List.append_assoc] at h₂
  refine ⟨bs₂, ?_, h₂⟩
  rw [writeAddress, heq₁]
  exact heq₂

theorem writeAddresses_writes (h : bs.Writes bytes) (addresses : List Address) :
    ∃ bs', writeAddresses bs addresses = some bs' ∧
      bs'.Writes (bytes ++ addressesBytes addresses) := by
  have hloop : ∀ (addresses : List Address) (bs : BitStream) (bytes : List UInt8),
      bs.Writes bytes → ∃ bs', addresses.foldlM writeAddress bs = some bs' ∧
        bs'.Writes (bytes ++ addresses.flatMap addressBytes) := by
    intro addresses
    induction addresses with
    | nil => exact fun bs bytes h => ⟨bs, rfl, by simpa using h⟩
    | cons addr addresses ih =>
      intro bs bytes h
      obtain ⟨bs₁, heq₁, h₁⟩ := writeAddress_writes h addr
      obtain ⟨bs', heq', h'⟩ := ih bs₁ _ h₁
      refine ⟨bs', ?_, by simpa using h'⟩
      rw [List.foldlM_cons, heq₁]
      exact heq'
  obtain ⟨bs₁, heq₁, h₁⟩ := h.writeInt (BitVec.ofNat 32 addresses.length) 2
  rw [leBytes_length_field] at h₁
  obtain ⟨bs', heq', h'⟩ := hloop addresses bs₁ _ h₁
  refine ⟨bs', ?_, by rwa [List.append_assoc] at h'⟩
  rw [writeAddresses, heq₁]
  exact heq'

theorem writeByteBuffer_writes (h : bs.Writes bytes) (data : List UInt8) :
    ∃ bs', writeByteBuffer bs data = some bs' ∧ bs'.Writes (bytes ++ bufferBytes data) := by
  obtain ⟨bs₁, heq₁, h₁⟩ := h.writeInt (BitVec.ofNat 32 data.length) 2
  rw [leBytes_length_field] at h₁
  obtain ⟨bs₂, heq₂, h₂⟩ := h₁.writeBits (le_refl data.length)
  rw [List.take_length, List.append_assoc] at h₂
  refine ⟨bs₂, ?_, h₂⟩
  rw [writeByteBuffer, heq₁]
  change (bs₁.writeBits (8 * data.length) data).bind _ = _
  rw [heq₂]
  rfl

theorem writeStrings_writes (h : bs.Writes bytes) (strings : List (List UInt8)) :
    ∃ bs' bytes', writeStrings bs strings = some bs' ∧ bs'.Writes bytes' := by
  have hloop : ∀ (strings : List (List UInt8)) (bs : BitStream) (bytes : List UInt8),
      bs.Writes bytes → ∃ bs' bytes',
        strings.foldlM (fun bs str => bs.writeString str 255) bs = some bs' ∧ bs'.Writes bytes' := by
    intro strings
    induction strings with
    | nil => exact fun bs bytes h => ⟨bs, bytes, rfl, h⟩
    | cons str strings ih =>
      intro bs bytes h
      obtain ⟨bs₁, heq₁, bytes₁, h₁⟩ := h.writeString str 255
      obtain ⟨bs', bytes', heq', h'⟩ := ih bs₁ _ h₁
      refine ⟨bs', bytes', ?_, h'⟩
      rw [List.foldlM_cons, heq₁]
      exact heq'
  obtain ⟨bs₁, heq₁, h₁⟩ := h.writeInt (BitVec.ofNat 32 strings.length) 2
  obtain ⟨bs', bytes', heq', h'⟩ := hloop strings bs₁ _ h₁
  refine ⟨bs', bytes', ?_, h'⟩
  rw [writeStrings, heq₁]
  exact heq'

theorem sendGameTypesResponse_some (queryID : U32) (gameTypes missionTypes : List (List UInt8)) :
    ∃ packet, sendGameTypesResponse queryID gameTypes missionTypes = some packet := by
  obtain ⟨bs₁, heq₁, h₁⟩ := rpcPacket_writes 1
  obtain ⟨bs₂, heq₂, h₂⟩ := h₁.writeInt queryID 4
  obtain ⟨bs₃, bytes₃, heq₃, h₃⟩ := writeStrings_writes h₂ gameTypes
  obtain ⟨bs₄, bytes₄, heq₄, h₄⟩ := writeStrings_writes h₃ missionTypes
  refine ⟨bytes₄, ?_⟩
  rw [sendGameTypesResponse, heq₁]
  change (bs₁.writeInt queryID (8 * 4)).bind _ = _
  rw [heq₂]
  change (writeStrings bs₂ gameTypes).bind _ = _
  rw [heq₃]
  change (writeStrings bs₃ missionTypes).bind _ = _
  rw [heq₄]
  exact h₄.packet

theorem sendServersResponse_some (queryID : U32) (servers : List Address) :
    ∃ packet, sendServersResponse queryID servers = some packet := by
  obtain ⟨bs₁, heq₁, h₁⟩ := rpcPacket_writes 2
  obtain ⟨bs₂, heq₂, h₂⟩ := h₁.writeInt queryID 4
  obtain ⟨bs₃, heq₃, h₃⟩ := writeAddresses_writes h₂ servers
  refine ⟨headBytes 2 ++ leBytes 4 queryID.toNat ++ addressesBytes servers, ?_⟩
  rw [sendServersResponse, heq₁]
  change (bs₁.writeInt queryID (8 * 4)).bind _ = _
  rw [heq₂]
  change (writeAddresses bs₂ servers).bind _ = _
  rw [heq₃]
  exact h₃.packet

theorem sendMOTD_some (motd : List UInt8) : ∃ packet, sendMOTD motd = some packet := by
  obtain ⟨bs₁, heq₁, h₁⟩ := rpcPacket_writes 6
  obtain ⟨bs₂, heq₂, bytes₂, h₂⟩ := h₁.writeString motd 255
  refine ⟨bytes₂, ?_⟩
  rw [sendMOTD, heq₁]
  change (bs₁.writeString motd 255).bind _ = _
  rw [heq₂]
  exact h₂.packet

theorem sendPossibleAddresses_eq (rpcID requestID : U32) (possibleAddresses : List Address)
    (data : List UInt8) : sendPossibleAddresses rpcID requestID possibleAddresses data =
      some (headBytes rpcID.toNat ++ leBytes 4 requestID.toNat ++ addressesBytes possibleAddresses ++
        bufferBytes data) := by
  obtain ⟨bs₁, heq₁, h₁⟩ := rpcPacket_writes rpcID
  obtain ⟨bs₂, heq₂, h₂⟩ := h₁.writeInt requestID 4
  obtain ⟨bs₃, heq₃, h₃⟩ := writeAddresses_writes h₂ possibleAddresses
  obtain ⟨bs₄, heq₄, h₄⟩ := writeByteBuffer_writes h₃ data
  rw [sendPossibleAddresses, heq₁]
  change (bs₁.writeInt requestID (8 * 4)).bind _ = _
  rw [heq₂]
  change (writeAddresses bs₂ possibleAddresses).bind _ = _
  rw [heq₃]
  change (writeByteBuffer bs₃ data).bind _ = _
  rw [heq₄]
  exact h₄.packet

end sending

/-- The packet of a message about an arranged connection. -/
def Message.bytes : Message → List UInt8
  | .clientRequestedArrangedConnection requestID possibleAddresses connectionParams =>
    headBytes 3 ++ leBytes 4 requestID.toNat ++ addressesBytes possibleAddresses ++
      bufferBytes connectionParams
  | .arrangedConnectionAccepted requestID possibleAddresses connectionData =>
    headBytes 4 ++ leBytes 4 requestID.toNat ++ addressesBytes possibleAddresses ++
      bufferBytes connectionData
  | .arrangedConnectionRejected requestID rejectData =>
    headBytes 5 ++ leBytes 4 requestID.toNat ++ bufferBytes rejectData

theorem Message.send_eq (message : Message) : message.send = some message.bytes := by
  cases message with
  | clientRequestedArrangedConnection requestID possibleAddresses connectionParams =>
    exact sendPossibleAddresses_eq 3 requestID possibleAddresses connectionParams
  | arrangedConnectionAccepted requestID possibleAddresses connectionData =>
    exact sendPossibleAddresses_eq 4 requestID possibleAddresses connectionData
  | arrangedConnectionRejected requestID rejectData =>
    obtain ⟨bs₁, heq₁, h₁⟩ := rpcPacket_writes 5
    obtain ⟨bs₂, heq₂, h₂⟩ := h₁.writeInt requestID 4
    obtain ⟨bs₃, heq₃, h₃⟩ := writeByteBuffer_writes h₂ rejectData
    rw [send, sendArrangedConnectionRejected, heq₁]
    change (bs₁.writeInt requestID (8 * 4)).bind _ = _
    rw [heq₂]
    change (writeByteBuffer bs₂ rejectData).bind _ = _
    rw [heq₃]
    exact h₃.packet

theorem sendAll_eq (messages : List (MasterServerConnection × Message)) :
    sendAll messages = some (messages.map fun (conn, message) => (conn.address, message.bytes)) := by
  induction messages with
  | nil => rfl
  | cons head messages ih =>
    obtain ⟨conn, message⟩ := head
    rw [sendAll, List.mapM_cons]
    dsimp only
    rw [Message.send_eq, Option.map_some]
    change (sendAll messages).bind _ = _
    rw [ih]
    rfl

/-! The fields of a packet. -/

section reading
open TNL.GoRoot.BitStream

/-- An address in a packet: four bytes, which are taken for its text, and a port. -/
structure AddressField where
  ip : List UInt8
  port : ℕ

def AddressField.resolve (net : Net) (field : AddressField) : Option Address :=
  newAddress net field.ip (BitVec.ofNat 16 field.port)

def takeAddress (rest : List UInt8) : AddressField × List UInt8 :=
  let afterIP := (takeBytes 4 rest).2
  (⟨(takeBytes 4 rest).1, (takeInt 2 afterIP).1⟩, (takeInt 2 afterIP).2)

def takeByteBuffer (rest : List UInt8) : List UInt8 :=
  (takeBytes (takeInt 2 rest).1 (takeInt 2 rest).2).1

structure RequestPacket where
  requestID : U32
  remote : AddressField
  internal : AddressField
  connectionParams : List UInt8

def takeRequest (rest : List UInt8) : RequestPacket :=
  let afterID := (takeInt 4 rest).2
  let afterRemote := (takeAddress afterID).2
  ⟨BitVec.ofNat 32 (takeInt 4 rest).1, (takeAddress afterID).1, (takeAddress afterRemote).1,
    takeByteBuffer (takeAddress afterRemote).2⟩

structure AcceptPacket where
  requestID : U32
  internal : AddressField
  connectionData : List UInt8

def takeAccept (rest : List UInt8) : AcceptPacket :=
  let afterID := (takeInt 4 rest).2
  ⟨BitVec.ofNat 32 (takeInt 4 rest).1, (takeAddress afterID).1,
    takeByteBuffer (takeAddress afterID).2⟩

structure RejectPacket where
  requestID : U32
  rejectData : List UInt8

def takeReject (rest : List UInt8) : RejectPacket :=
  ⟨BitVec.ofNat 32 (takeInt 4 rest).1, takeByteBuffer (takeInt 4 rest).2⟩

variable {net : Net} {ms : MasterProcess} {bs : BitStream} {rest : List UInt8}
  {conn : MasterServerConnection} {currentTime : U32}

theorem takeInt_lt (k : ℕ) (rest : List UInt8) : (takeInt k rest).1 < 256 ^ k := by
  rw [takeInt]
  split
  · exact Nat.pow_pos (by decide)
  · rename_i hlength
    have hlt := leValue_lt (rest.take k)
    rwa [List.length_take_of_le (not_lt.mp hlength)] at hlt

namespace MasterProcess

theorem readAddress_reads (net : Net) (h : bs.Reads rest) :
    ∃ bs', readAddress net bs = some ((takeAddress rest).1.resolve net, bs') ∧
      bs'.Reads (takeAddress rest).2 := by
  obtain ⟨bs₁, heq₁, h₁⟩ := h.readBits 4
  obtain ⟨bs₂, heq₂, h₂⟩ := h₁.readInt (k := 2) (by decide)
  refine ⟨bs₂, ?_, h₂⟩
  rw [readAddress]
  change (bs.readBits (8 * 4) (List.replicate 4 0)).bind _ = _
  rw [heq₁]
  change (bs₁.readInt (8 * 2)).bind _ = _
  rw [heq₂]
  change some (newAddress net _ ((BitVec.ofNat 32 _).setWidth 16), bs₂) = _
  rw [BitVec.setWidth_ofNat_of_le (by decide)]
  rfl

theorem readByteBuffer_reads (h : bs.Reads rest) :
    readByteBuffer bs = some (MasterServer.newByteBufferFromData (takeByteBuffer rest)) := by
  obtain ⟨bs₁, heq₁, h₁⟩ := h.readInt (k := 2) (by decide)
  have hsize : (BitVec.ofNat 32 (takeInt 2 rest).1).toNat = (takeInt 2 rest).1 :=
    Nat.mod_eq_of_lt ((takeInt_lt 2 rest).trans (by decide))
  obtain ⟨bs₂, heq₂, _⟩ := h₁.readBits (takeInt 2 rest).1
  rw [readByteBuffer]
  change (bs.readInt (8 * 2)).bind _ = _
  rw [heq₁]
  change (bs₁.readBits (8 * (BitVec.ofNat 32 _).toNat) (List.replicate (BitVec.ofNat 32 _).toNat 0)).bind
    _ = _
  rw [hsize, heq₂]
  rfl

theorem handleRequestArrangedConnection_reads (h : bs.Reads rest) :
    let packet := takeRequest rest
    ms.handleRequestArrangedConnection net conn bs currentTime = ms.locked fun ms =>
      ms.requestArranged conn packet.requestID (packet.remote.resolve net)
        (packet.internal.resolve net) (MasterServer.newByteBufferFromData packet.connectionParams)
        currentTime := by
  obtain ⟨bs₁, heq₁, h₁⟩ := h.readInt (k := 4) (by decide)
  obtain ⟨bs₂, heq₂, h₂⟩ := readAddress_reads net h₁
  obtain ⟨bs₃, heq₃, h₃⟩ := readAddress_reads net h₂
  have heq₄ := readByteBuffer_reads h₃
  rw [handleRequestArrangedConnection]
  change (bs.readInt (8 * 4)).bind _ = _
  rw [heq₁]
  change (readAddress net bs₁).bind _ = _
  rw [heq₂]
  change (readAddress net bs₂).bind _ = _
  rw [heq₃]
  change (readByteBuffer bs₃).bind _ = _
  rw [heq₄, Option.bind_some]
  dsimp only [takeRequest]

theorem handleAcceptArrangedConnection_reads (h : bs.Reads rest) :
    let packet := takeAccept rest
    ms.handleAcceptArrangedConnection net conn bs = ms.locked fun ms =>
      ms.acceptArranged conn packet.requestID (packet.internal.resolve net)
        (MasterServer.newByteBufferFromData packet.connectionData) := by
  obtain ⟨bs₁, heq₁, h₁⟩ := h.readInt (k := 4) (by decide)
  obtain ⟨bs₂, heq₂, h₂⟩ := readAddress_reads net h₁
  have heq₃ := readByteBuffer_reads h₂
  rw [handleAcceptArrangedConnection]
  change (bs.readInt (8 * 4)).bind _ = _
  rw [heq₁]
  change (readAddress net bs₁).bind _ = _
  rw [heq₂]
  change (readByteBuffer bs₂).bind _ = _
  rw [heq₃]
  rfl

theorem handleRejectArrangedConnection_reads (h : bs.Reads rest) :
    let packet := takeReject rest
    ms.handleRejectArrangedConnection bs = ms.locked fun ms =>
      ms.rejectArranged packet.requestID
        (MasterServer.newByteBufferFromData packet.rejectData) := by
  obtain ⟨bs₁, heq₁, h₁⟩ := h.readInt (k := 4) (by decide)
  have heq₂ := readByteBuffer_reads h₁
  rw [handleRejectArrangedConnection]
  change (bs.readInt (8 * 4)).bind _ = _
  rw [heq₁]
  change (readByteBuffer bs₁).bind _ = _
  rw [heq₂]
  rfl

end MasterProcess

end reading

end TNL.GoRoot
