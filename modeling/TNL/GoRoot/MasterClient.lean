import TNL.GoRoot.PacketCodec

/-!
# The clients of the Go master server

What a client sends about arranged connections, and what its handlers read of the
packets that the master server passes on. The handlers only log what they have
read, or answer it; here they return it. A client reads addresses as numbers
between dots.
-/
namespace TNL.GoRoot
open Library TNL.GoRoot.BitStream

/-! What a client sends. -/

inductive ClientMessage where
  | requestArrangedConnection (requestID : U32) (remoteAddress internalAddress : Address)
      (connectionParams : List UInt8)
  | acceptArrangedConnection (requestID : U32) (internalAddress : Address)
      (connectionData : List UInt8)
  | rejectArrangedConnection (requestID : U32) (rejectData : List UInt8)

def sendRequestArrangedConnection (requestID : U32) (remoteAddress internalAddress : Address)
    (connectionParams : List UInt8) : Option (List UInt8) := do
  let bs ← rpcPacket 3
  let bs ← bs.writeInt requestID 32
  let bs ← writeAddress bs remoteAddress
  let bs ← writeAddress bs internalAddress
  let bs ← writeByteBuffer bs connectionParams
  bs.packet

def sendAcceptArrangedConnection (requestID : U32) (internalAddress : Address)
    (connectionData : List UInt8) : Option (List UInt8) := do
  let bs ← rpcPacket 4
  let bs ← bs.writeInt requestID 32
  let bs ← writeAddress bs internalAddress
  let bs ← writeByteBuffer bs connectionData
  bs.packet

def sendRejectArrangedConnection (requestID : U32) (rejectData : List UInt8) :
    Option (List UInt8) := do
  let bs ← rpcPacket 5
  let bs ← bs.writeInt requestID 32
  let bs ← writeByteBuffer bs rejectData
  bs.packet

namespace ClientMessage

def send : ClientMessage → Option (List UInt8)
  | requestArrangedConnection requestID remoteAddress internalAddress connectionParams =>
    sendRequestArrangedConnection requestID remoteAddress internalAddress connectionParams
  | acceptArrangedConnection requestID internalAddress connectionData =>
    sendAcceptArrangedConnection requestID internalAddress connectionData
  | rejectArrangedConnection requestID rejectData =>
    sendRejectArrangedConnection requestID rejectData

def bytes : ClientMessage → List UInt8
  | requestArrangedConnection requestID remoteAddress internalAddress connectionParams =>
    headBytes 3 ++ (leBytes 4 requestID.toNat ++ (addressBytes remoteAddress ++
      (addressBytes internalAddress ++ bufferBytes connectionParams)))
  | acceptArrangedConnection requestID internalAddress connectionData =>
    headBytes 4 ++ (leBytes 4 requestID.toNat ++ (addressBytes internalAddress ++
      bufferBytes connectionData))
  | rejectArrangedConnection requestID rejectData =>
    headBytes 5 ++ (leBytes 4 requestID.toNat ++ bufferBytes rejectData)

theorem send_eq (message : ClientMessage) : message.send = some message.bytes := by
  cases message with
  | requestArrangedConnection requestID remoteAddress internalAddress connectionParams =>
    obtain ⟨bs₁, heq₁, h₁⟩ := rpcPacket_writes 3
    obtain ⟨bs₂, heq₂, h₂⟩ := h₁.writeInt requestID 4
    obtain ⟨bs₃, heq₃, h₃⟩ := writeAddress_writes h₂ remoteAddress
    obtain ⟨bs₄, heq₄, h₄⟩ := writeAddress_writes h₃ internalAddress
    obtain ⟨bs₅, heq₅, h₅⟩ := writeByteBuffer_writes h₄ connectionParams
    rw [send, sendRequestArrangedConnection, heq₁]
    change (bs₁.writeInt requestID (8 * 4)).bind _ = _
    rw [heq₂]
    change (writeAddress bs₂ remoteAddress).bind _ = _
    rw [heq₃]
    change (writeAddress bs₃ internalAddress).bind _ = _
    rw [heq₄]
    change (writeByteBuffer bs₄ connectionParams).bind _ = _
    rw [heq₅]
    have hpacket := h₅.packet
    simp only [List.append_assoc] at hpacket
    exact hpacket
  | acceptArrangedConnection requestID internalAddress connectionData =>
    obtain ⟨bs₁, heq₁, h₁⟩ := rpcPacket_writes 4
    obtain ⟨bs₂, heq₂, h₂⟩ := h₁.writeInt requestID 4
    obtain ⟨bs₃, heq₃, h₃⟩ := writeAddress_writes h₂ internalAddress
    obtain ⟨bs₄, heq₄, h₄⟩ := writeByteBuffer_writes h₃ connectionData
    rw [send, sendAcceptArrangedConnection, heq₁]
    change (bs₁.writeInt requestID (8 * 4)).bind _ = _
    rw [heq₂]
    change (writeAddress bs₂ internalAddress).bind _ = _
    rw [heq₃]
    change (writeByteBuffer bs₃ connectionData).bind _ = _
    rw [heq₄]
    have hpacket := h₄.packet
    simp only [List.append_assoc] at hpacket
    exact hpacket
  | rejectArrangedConnection requestID rejectData =>
    obtain ⟨bs₁, heq₁, h₁⟩ := rpcPacket_writes 5
    obtain ⟨bs₂, heq₂, h₂⟩ := h₁.writeInt requestID 4
    obtain ⟨bs₃, heq₃, h₃⟩ := writeByteBuffer_writes h₂ rejectData
    rw [send, sendRejectArrangedConnection, heq₁]
    change (bs₁.writeInt requestID (8 * 4)).bind _ = _
    rw [heq₂]
    change (writeByteBuffer bs₂ rejectData).bind _ = _
    rw [heq₃]
    have hpacket := h₃.packet
    simp only [List.append_assoc] at hpacket
    exact hpacket

end ClientMessage

/-! What a client reads. -/

structure MasterClient where
  masterAddress : Address
  isServer : Bool
  currentQueryID : U32

/-- Read a number of addresses. -/
def readAddressList : ℕ → BitStream → Option (List Address × BitStream)
  | 0, bs => some ([], bs)
  | n + 1, bs => do
    let (ip, bs) ← bs.readBits 32 (List.replicate 4 0)
    let (port, bs) ← bs.readInt 16
    let (addresses, bs) ← readAddressList n bs
    return (⟨ip, port.setWidth 16⟩ :: addresses, bs)

def readPossibleAddresses (bs : BitStream) : Option (List Address × BitStream) := do
  let (addressCount, bs) ← bs.readInt 16
  readAddressList addressCount.toNat bs

/-- Nothing is read if there is nothing to read. -/
def readData (bs : BitStream) : Option (List UInt8) := do
  let (dataSize, bs) ← bs.readInt 16
  let data := List.replicate dataSize.toNat 0
  if dataSize > 0 then
    let (data, _) ← bs.readBits (8 * dataSize.toNat) data
    return data
  else return data

namespace MasterClient

/-- The first address is logged, which ends the program if there is none. -/
def handleClientRequestedArrangedConnection (mc : MasterClient) (bs : BitStream) :
    Option (Option Message) :=
  if !mc.isServer then some none
  else do
    let (requestID, bs) ← bs.readInt 32
    let (possibleAddresses, bs) ← readPossibleAddresses bs
    let paramData ← readData bs
    let connectionParams := MasterServer.newByteBufferFromData paramData
    let _ ← possibleAddresses[0]?
    return some (.clientRequestedArrangedConnection requestID possibleAddresses connectionParams)

def handleArrangedConnectionAccepted (mc : MasterClient) (bs : BitStream) :
    Option (Option Message) :=
  if mc.isServer then some none
  else do
    let (requestID, bs) ← bs.readInt 32
    if requestID ≠ mc.currentQueryID then return none
    else
      let (possibleAddresses, bs) ← readPossibleAddresses bs
      let connectionData ← readData bs
      return some (.arrangedConnectionAccepted requestID possibleAddresses connectionData)

def handleArrangedConnectionRejected (mc : MasterClient) (bs : BitStream) :
    Option (Option Message) :=
  if mc.isServer then some none
  else do
    let (requestID, bs) ← bs.readInt 32
    if requestID ≠ mc.currentQueryID then return none
    else
      let rejectData ← readData bs
      return some (.arrangedConnectionRejected requestID rejectData)

/-- What a packet tells about an arranged connection. -/
def handleRPCResponse (mc : MasterClient) (bs : BitStream) : Option (Option Message) := do
  let (rpcID, bs) ← bs.readInt 16
  match rpcID.toNat with
  | 3 => mc.handleClientRequestedArrangedConnection bs
  | 4 => mc.handleArrangedConnectionAccepted bs
  | 5 => mc.handleArrangedConnectionRejected bs
  | _ => return none

def processPacket (mc : MasterClient) (data : List UInt8) (addr : Address) :
    Option (Option Message) :=
  if addr ≠ mc.masterAddress then some none
  else do
    let (packetType, bs) ← (newBitStream data).readInt 8
    match packetType.toNat with
    | 2 => mc.handleRPCResponse bs
    | _ => return none

/-- The client is waiting for a message. -/
def Expects (mc : MasterClient) : Message → Prop
  | .clientRequestedArrangedConnection _ _ _ => mc.isServer = true
  | .arrangedConnectionAccepted requestID _ _ =>
    mc.isServer = false ∧ requestID = mc.currentQueryID
  | .arrangedConnectionRejected requestID _ => mc.isServer = false ∧ requestID = mc.currentQueryID

end MasterClient

section fields

variable {bs : BitStream} {rest data : List UInt8}

theorem takeInt_append (k n : ℕ) (rest : List UInt8) :
    takeInt k (leBytes k n ++ rest) = (n % 256 ^ k, rest) := by
  have hlength : (leBytes k n).length = k := leBytes_length k n
  rw [takeInt, if_neg (by rw [List.length_append]; omega), List.take_left' hlength,
    List.drop_left' hlength, leValue_leBytes]

theorem takeBytes_append {n : ℕ} (hlength : data.length = n) (rest : List UInt8) :
    takeBytes n (data ++ rest) = (data, rest) := by
  rw [takeBytes, if_neg (by rw [List.length_append]; omega), List.take_left' hlength,
    List.drop_left' hlength]

theorem port_mod (port : BitVec 16) : port.toNat % 256 ^ 2 = port.toNat :=
  Nat.mod_eq_of_lt port.isLt

/-- An address as packets have it. -/
def Address.onWire (addr : Address) : Address := ⟨wireIP addr.host, addr.port⟩

theorem takeAddress_append (addr : Address) (rest : List UInt8) :
    takeAddress (addressBytes addr ++ rest) = (⟨wireIP addr.host, addr.port.toNat⟩, rest) := by
  rw [takeAddress, addressBytes, List.append_assoc, takeBytes_append (wireIP_length _)]
  dsimp only
  rw [takeInt_append]
  dsimp only
  rw [port_mod]

theorem takeByteBuffer_append (hshort : data.length < 256 ^ 2) (rest : List UInt8) :
    takeByteBuffer (bufferBytes data ++ rest) = data := by
  rw [takeByteBuffer, bufferBytes, List.append_assoc, takeInt_append, Nat.mod_eq_of_lt hshort,
    takeBytes_append rfl]

theorem readAddressList_reads (addresses : List Address) (h : bs.Reads
    (addresses.flatMap addressBytes ++ rest)) :
    ∃ bs', readAddressList addresses.length bs = some (addresses.map Address.onWire, bs') ∧
      bs'.Reads rest := by
  induction addresses generalizing bs with
  | nil => exact ⟨bs, rfl, h⟩
  | cons addr addresses ih =>
    rw [List.flatMap_cons, addressBytes, List.append_assoc, List.append_assoc] at h
    obtain ⟨bs₁, heq₁, h₁⟩ := h.readBits 4
    rw [takeBytes_append (wireIP_length _)] at heq₁ h₁
    obtain ⟨bs₂, heq₂, h₂⟩ := h₁.readInt (k := 2) (by decide)
    rw [takeInt_append, port_mod] at heq₂
    rw [takeInt_append] at h₂
    obtain ⟨bs₃, heq₃, h₃⟩ := ih h₂
    refine ⟨bs₃, ?_, h₃⟩
    rw [List.length_cons, readAddressList]
    change (bs.readBits (8 * 4) (List.replicate 4 0)).bind _ = _
    rw [heq₁]
    change (bs₁.readInt (8 * 2)).bind _ = _
    rw [heq₂]
    change (readAddressList addresses.length bs₂).bind _ = _
    rw [heq₃]
    have hport : (BitVec.ofNat 32 addr.port.toNat).setWidth 16 = addr.port := by
      rw [BitVec.setWidth_ofNat_of_le (by decide), BitVec.ofNat_toNat, BitVec.setWidth_eq]
    change some (Address.mk _ ((BitVec.ofNat 32 addr.port.toNat).setWidth 16) :: _, bs₃) = _
    rw [hport]
    rfl

theorem readPossibleAddresses_reads {addresses : List Address}
    (hshort : addresses.length < 256 ^ 2) (h : bs.Reads (addressesBytes addresses ++ rest)) :
    ∃ bs', readPossibleAddresses bs = some (addresses.map Address.onWire, bs') ∧
      bs'.Reads rest := by
  rw [addressesBytes, List.append_assoc] at h
  obtain ⟨bs₁, heq₁, h₁⟩ := h.readInt (k := 2) (by decide)
  rw [takeInt_append, Nat.mod_eq_of_lt hshort] at heq₁
  rw [takeInt_append] at h₁
  obtain ⟨bs₂, heq₂, h₂⟩ := readAddressList_reads addresses h₁
  refine ⟨bs₂, ?_, h₂⟩
  rw [readPossibleAddresses]
  change (bs.readInt (8 * 2)).bind _ = _
  rw [heq₁]
  change readAddressList (BitVec.ofNat 32 addresses.length).toNat bs₁ = _
  rw [BitVec.toNat_ofNat, Nat.mod_eq_of_lt (hshort.trans (by decide)), heq₂]

theorem readData_reads (hshort : data.length < 256 ^ 2) (h : bs.Reads (bufferBytes data)) :
    readData bs = some data := by
  rw [bufferBytes] at h
  obtain ⟨bs₁, heq₁, h₁⟩ := h.readInt (k := 2) (by decide)
  rw [takeInt_append, Nat.mod_eq_of_lt hshort] at heq₁
  rw [takeInt_append] at h₁
  have hsize : (BitVec.ofNat 32 data.length).toNat = data.length := by
    rw [BitVec.toNat_ofNat, Nat.mod_eq_of_lt (hshort.trans (by decide))]
  obtain ⟨bs₂, heq₂, h₂⟩ := h₁.readBits data.length
  have htaken : takeBytes data.length data = (data, []) := by
    simpa using takeBytes_append rfl []
  rw [htaken] at heq₂
  rw [readData]
  change (bs.readInt (8 * 2)).bind _ = _
  rw [heq₁, Option.bind_some]
  dsimp only
  rw [hsize]
  by_cases hempty : data.length = 0
  · rw [List.length_eq_zero_iff.mp hempty]
    rfl
  · have hpos : BitVec.ofNat 32 data.length > 0 := by
      rw [gt_iff_lt, BitVec.lt_def, hsize]
      exact Nat.pos_of_ne_zero hempty
    rw [if_pos hpos]
    change (bs₁.readBits (8 * data.length) (List.replicate data.length 0)).bind _ = _
    rw [heq₂]
    rfl

end fields

/-- What a client makes of a message that it is waiting for. -/
def Message.received : Message → Message
  | .clientRequestedArrangedConnection requestID possibleAddresses connectionParams =>
    .clientRequestedArrangedConnection requestID (possibleAddresses.map Address.onWire)
      (MasterServer.newByteBufferFromData connectionParams)
  | .arrangedConnectionAccepted requestID possibleAddresses connectionData =>
    .arrangedConnectionAccepted requestID (possibleAddresses.map Address.onWire) connectionData
  | .arrangedConnectionRejected requestID rejectData =>
    .arrangedConnectionRejected requestID rejectData

def Message.data : Message → List UInt8
  | .clientRequestedArrangedConnection _ _ data => data
  | .arrangedConnectionAccepted _ _ data => data
  | .arrangedConnectionRejected _ data => data

/-- The possible addresses, one at least, unless there are none in the packet. -/
def Message.Addressed : Message → Prop
  | .clientRequestedArrangedConnection _ addresses _ =>
    addresses ≠ [] ∧ addresses.length < 256 ^ 2
  | .arrangedConnectionAccepted _ addresses _ => addresses.length < 256 ^ 2
  | .arrangedConnectionRejected _ _ => True

namespace MasterClient

variable {mc : MasterClient} {bs : BitStream} {rest : List UInt8}

theorem processPacket_reads (mc : MasterClient) (rpcID : ℕ) (rest : List UInt8) :
    ∃ bs, bs.Reads rest ∧ mc.processPacket (headBytes rpcID ++ rest) mc.masterAddress =
      match (BitVec.ofNat 32 (rpcID % 256 ^ 2)).toNat with
      | 3 => mc.handleClientRequestedArrangedConnection bs
      | 4 => mc.handleArrangedConnectionAccepted bs
      | 5 => mc.handleArrangedConnectionRejected bs
      | _ => some none := by
  obtain ⟨bs₁, heq₁, h₁⟩ := (newBitStream_reads (headBytes rpcID ++ rest)).readInt (k := 1)
    (by decide)
  rw [headBytes, List.append_assoc, takeInt_append] at h₁
  rw [headBytes, List.append_assoc, takeInt_append] at heq₁
  obtain ⟨bs₂, heq₂, h₂⟩ := h₁.readInt (k := 2) (by decide)
  rw [takeInt_append] at heq₂ h₂
  refine ⟨bs₂, h₂, ?_⟩
  rw [processPacket, if_neg (not_not.mpr rfl), headBytes, List.append_assoc]
  change ((newBitStream (leBytes 1 2 ++ (leBytes 2 rpcID ++ rest))).readInt (8 * 1)).bind _ = _
  rw [heq₁, Option.bind_some]
  change mc.handleRPCResponse bs₁ = _
  rw [handleRPCResponse]
  change (bs₁.readInt (8 * 2)).bind _ = _
  rw [heq₂]
  rfl

theorem toNat_id (requestID : U32) :
    BitVec.ofNat 32 (requestID.toNat % 256 ^ 4) = requestID := by
  have hmod : requestID.toNat % 256 ^ 4 = requestID.toNat := Nat.mod_eq_of_lt requestID.isLt
  rw [hmod, BitVec.ofNat_toNat, BitVec.setWidth_eq]

theorem processPacket_bytes {message : Message} (hexpects : mc.Expects message)
    (haddressed : message.Addressed) (hshort : message.data.length < 256 ^ 2) :
    mc.processPacket message.bytes mc.masterAddress = some (some message.received) := by
  cases message with
  | clientRequestedArrangedConnection requestID possibleAddresses connectionParams =>
    obtain ⟨hne, hcount⟩ := haddressed
    have hserver : mc.isServer = true := hexpects
    obtain ⟨bs, hbs, heq⟩ := mc.processPacket_reads 3 (leBytes 4 requestID.toNat ++
      (addressesBytes possibleAddresses ++ bufferBytes connectionParams))
    obtain ⟨bs₁, heq₁, h₁⟩ := hbs.readInt (k := 4) (by decide)
    rw [takeInt_append] at heq₁ h₁
    rw [toNat_id] at heq₁
    obtain ⟨bs₂, heq₂, h₂⟩ := readPossibleAddresses_reads hcount h₁
    have heq₃ := readData_reads hshort h₂
    rw [Message.bytes, List.append_assoc, List.append_assoc]
    refine heq.trans ?_
    change mc.handleClientRequestedArrangedConnection bs = _
    rw [handleClientRequestedArrangedConnection, hserver, Bool.not_true, if_neg Bool.false_ne_true]
    change (bs.readInt (8 * 4)).bind _ = _
    rw [heq₁]
    change (readPossibleAddresses bs₁).bind _ = _
    rw [heq₂]
    change (readData bs₂).bind _ = _
    rw [heq₃]
    cases possibleAddresses with
    | nil => exact (hne rfl).elim
    | cons first others => rfl
  | arrangedConnectionAccepted requestID possibleAddresses connectionData =>
    obtain ⟨hclient, hid⟩ := hexpects
    obtain ⟨bs, hbs, heq⟩ := mc.processPacket_reads 4 (leBytes 4 requestID.toNat ++
      (addressesBytes possibleAddresses ++ bufferBytes connectionData))
    obtain ⟨bs₁, heq₁, h₁⟩ := hbs.readInt (k := 4) (by decide)
    rw [takeInt_append] at heq₁ h₁
    rw [toNat_id] at heq₁
    obtain ⟨bs₂, heq₂, h₂⟩ := readPossibleAddresses_reads haddressed h₁
    have heq₃ := readData_reads hshort h₂
    rw [Message.bytes, List.append_assoc, List.append_assoc]
    refine heq.trans ?_
    change mc.handleArrangedConnectionAccepted bs = _
    rw [handleArrangedConnectionAccepted, hclient, if_neg Bool.false_ne_true]
    change (bs.readInt (8 * 4)).bind _ = _
    rw [heq₁, Option.bind_some]
    dsimp only
    rw [if_neg (not_not.mpr hid)]
    change (readPossibleAddresses bs₁).bind _ = _
    rw [heq₂]
    change (readData bs₂).bind _ = _
    rw [heq₃]
    rfl
  | arrangedConnectionRejected requestID rejectData =>
    obtain ⟨hclient, hid⟩ := hexpects
    obtain ⟨bs, hbs, heq⟩ := mc.processPacket_reads 5 (leBytes 4 requestID.toNat ++
      bufferBytes rejectData)
    obtain ⟨bs₁, heq₁, h₁⟩ := hbs.readInt (k := 4) (by decide)
    rw [takeInt_append] at heq₁ h₁
    rw [toNat_id] at heq₁
    have heq₂ := readData_reads hshort h₁
    rw [Message.bytes, List.append_assoc]
    refine heq.trans ?_
    change mc.handleArrangedConnectionRejected bs = _
    rw [handleArrangedConnectionRejected, hclient, if_neg Bool.false_ne_true]
    change (bs.readInt (8 * 4)).bind _ = _
    rw [heq₁, Option.bind_some]
    dsimp only
    rw [if_neg (not_not.mpr hid)]
    change (readData bs₁).bind _ = _
    rw [heq₂]
    rfl

end MasterClient

end TNL.GoRoot
