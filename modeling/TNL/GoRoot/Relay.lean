import TNL.GoRoot.MasterClient
import TNL.GoRoot.PacketSafety

/-!
# What the Go master server passes on

A message about an arranged connection should reach the other party as it was sent,
with the addresses at which the sender may be. But the server takes the four bytes
of an address for its text, and its byte buffers do not copy what they are made
from.
-/
namespace TNL.GoRoot
open Library TNL.GoRoot.BitStream MasterProcess

/-- The address that the server makes of the bytes of an address. -/
def Address.reread (net : Net) (addr : Address) : Option Address :=
  newAddress net (wireIP addr.host) addr.port

namespace MasterServer

/-- The other party of an arranged connection, and what it should be told. There is none if the
host is not known or no request is pending under the number. -/
def relay (s : MasterServer) (sender : MasterServerConnection) :
    ClientMessage → Option (Address × Message)
  | .requestArrangedConnection _ remoteAddress internalAddress connectionParams =>
    (s.connections remoteAddress).map fun host =>
      (host.address, .clientRequestedArrangedConnection s.nextQueryID
        (possibleAddresses sender.address internalAddress) connectionParams)
  | .acceptArrangedConnection requestID internalAddress connectionData =>
    (s.connectRequests.find? (·.hostQueryID = requestID)).map fun req =>
      (req.initiator.address, .arrangedConnectionAccepted req.initiatorQueryID
        (possibleAddresses sender.address internalAddress) connectionData)
  | .rejectArrangedConnection requestID rejectData =>
    (s.connectRequests.find? (·.hostQueryID = requestID)).map fun req =>
      (req.initiator.address, .arrangedConnectionRejected req.initiatorQueryID rejectData)

/-- What the server does with a message, once it has read its packet. -/
def serve (net : Net) (s : MasterServer) (sender : MasterServerConnection) (currentTime : U32) :
    ClientMessage → Option (MasterServer × List (MasterServerConnection × Message))
  | .requestArrangedConnection requestID remoteAddress internalAddress connectionParams =>
    s.handleRequestArrangedConnection sender requestID (remoteAddress.reread net)
      (internalAddress.reread net) (newByteBufferFromData connectionParams) currentTime
  | .acceptArrangedConnection requestID internalAddress connectionData =>
    s.handleAcceptArrangedConnection sender requestID (internalAddress.reread net)
      (newByteBufferFromData connectionData)
  | .rejectArrangedConnection requestID rejectData =>
    some (s.handleRejectArrangedConnection requestID (newByteBufferFromData rejectData))

end MasterServer

def ClientMessage.data : ClientMessage → List UInt8
  | requestArrangedConnection _ _ _ data => data
  | acceptArrangedConnection _ _ data => data
  | rejectArrangedConnection _ data => data

/-- The packets of a list of messages. -/
def packets (messages : List (MasterServerConnection × Message)) : Sent :=
  messages.map fun (conn, message) => (conn.address, message.bytes)

namespace MasterProcess

section serving

variable {net : Net} {ms : MasterProcess} {sender : MasterServerConnection} {addr : Address}
  {currentTime : U32} {message : ClientMessage}

theorem Held.requestArranged_sent {remoteAddr internalAddr : Option Address} {requestID : U32}
    {connectionParams : List UInt8} (h : ms.Held) :
    (ms.requestArranged sender requestID remoteAddr internalAddr connectionParams
      currentTime).map Prod.snd = (ms.server.handleRequestArrangedConnection sender requestID
        remoteAddr internalAddr connectionParams currentTime).map fun r => packets r.2 := by
  rw [MasterProcess.requestArranged]
  cases hserved : ms.server.handleRequestArrangedConnection sender requestID remoteAddr internalAddr
    connectionParams currentTime with
  | none => rfl
  | some served =>
    obtain ⟨server, messages⟩ := served
    obtain ⟨ms', hactive, -⟩ := h.checkActivityTime sender 2000 currentTime
    change Option.map Prod.snd (if (remoteAddr.bind ms.server.connections).isSome then _ else _) = _
    by_cases hknown : (remoteAddr.bind ms.server.connections).isSome
    · rw [if_pos hknown]
      change Option.map Prod.snd ((ms.checkActivityTime sender 2000 currentTime).bind _) = _
      rw [hactive]
      change Option.map Prod.snd ((GoRoot.sendAll messages).bind _) = _
      rw [sendAll_eq]
      rfl
    · rw [if_neg hknown]
      change Option.map Prod.snd ((GoRoot.sendAll messages).bind _) = _
      rw [sendAll_eq]
      rfl

theorem acceptArranged_sent (ms : MasterProcess) (internalAddr : Option Address) (requestID : U32)
    (connectionData : List UInt8) :
    (ms.acceptArranged sender requestID internalAddr connectionData).map Prod.snd =
      (ms.server.handleAcceptArrangedConnection sender requestID internalAddr
        connectionData).map fun r => packets r.2 := by
  rw [MasterProcess.acceptArranged]
  cases ms.server.handleAcceptArrangedConnection sender requestID internalAddr connectionData with
  | none => rfl
  | some served =>
    obtain ⟨server, messages⟩ := served
    change Option.map Prod.snd ((GoRoot.sendAll messages).bind _) = _
    rw [sendAll_eq]
    rfl

theorem rejectArranged_sent (ms : MasterProcess) (requestID : U32) (rejectData : List UInt8) :
    (ms.rejectArranged requestID rejectData).map Prod.snd =
      some (packets (ms.server.handleRejectArrangedConnection requestID rejectData).2) := by
  rw [MasterProcess.rejectArranged]
  change Option.map Prod.snd ((sendAll _).bind _) = _
  rw [sendAll_eq]
  rfl

theorem Idle.locked_sent {body : MasterProcess → Option (MasterProcess × Sent)} (h : ms.Idle) :
    (ms.locked body).map Prod.snd = (body { ms with mutex := ⟨0, true⟩ }).map Prod.snd := by
  rw [h.locked_eq]
  cases body { ms with mutex := ⟨0, true⟩ } with
  | none => rfl
  | some result => rfl

/-- The fields of a client's packet are read as they were written. -/
theorem takeRequest_bytes (requestID : U32) (remoteAddress internalAddress : Address)
    {connectionParams : List UInt8} (hshort : connectionParams.length < 256 ^ 2) :
    takeRequest (leBytes 4 requestID.toNat ++ (addressBytes remoteAddress ++
      (addressBytes internalAddress ++ bufferBytes connectionParams))) =
      ⟨requestID, ⟨wireIP remoteAddress.host, remoteAddress.port.toNat⟩,
        ⟨wireIP internalAddress.host, internalAddress.port.toNat⟩, connectionParams⟩ := by
  have hbuffer := takeByteBuffer_append hshort []
  rw [List.append_nil] at hbuffer
  rw [takeRequest, takeInt_append]
  dsimp only
  rw [takeAddress_append]
  dsimp only
  rw [takeAddress_append]
  dsimp only
  rw [hbuffer, MasterClient.toNat_id]

theorem takeAccept_bytes (requestID : U32) (internalAddress : Address)
    {connectionData : List UInt8} (hshort : connectionData.length < 256 ^ 2) :
    takeAccept (leBytes 4 requestID.toNat ++ (addressBytes internalAddress ++
      bufferBytes connectionData)) =
      ⟨requestID, ⟨wireIP internalAddress.host, internalAddress.port.toNat⟩, connectionData⟩ := by
  have hbuffer := takeByteBuffer_append hshort []
  rw [List.append_nil] at hbuffer
  rw [takeAccept, takeInt_append]
  dsimp only
  rw [takeAddress_append]
  dsimp only
  rw [hbuffer, MasterClient.toNat_id]

theorem takeReject_bytes (requestID : U32) {rejectData : List UInt8}
    (hshort : rejectData.length < 256 ^ 2) :
    takeReject (leBytes 4 requestID.toNat ++ bufferBytes rejectData) =
      ⟨requestID, rejectData⟩ := by
  have hbuffer := takeByteBuffer_append hshort []
  rw [List.append_nil] at hbuffer
  rw [takeReject, takeInt_append]
  dsimp only
  rw [hbuffer, MasterClient.toNat_id]

theorem resolve_toNat (net : Net) (addr : Address) :
    AddressField.resolve net ⟨wireIP addr.host, addr.port.toNat⟩ = addr.reread net := by
  rw [AddressField.resolve, Address.reread, BitVec.ofNat_toNat, BitVec.setWidth_eq]

theorem Idle.handleRPCCall_bytes (net : Net) (h : ms.Idle) (rpcID : ℕ) (rest : List UInt8)
    (hconn : ms.server.connections addr = some sender)
    (hsize : (headBytes rpcID ++ rest).length ≤ maxPacketDataSize) (hid : rpcID < 256 ^ 2) :
    ∃ bs, bs.Reads rest ∧ ms.act net (.receive (headBytes rpcID ++ rest) addr currentTime) =
      match rpcID with
      | 1 => ms.handleQueryGameTypes sender bs
      | 2 => ms.handleQueryServers sender bs
      | 3 => ms.handleRequestArrangedConnection net sender bs currentTime
      | 4 => ms.handleAcceptArrangedConnection net sender bs
      | 5 => ms.handleRejectArrangedConnection bs
      | 6 => ms.handleUpdateServerStatus sender bs currentTime
      | _ => some (ms, []) := by
  obtain ⟨bs₁, h₁, hprocess⟩ := MasterProcess.processPacket_reads net ms (headBytes rpcID ++ rest)
    addr currentTime
  rw [headBytes, List.append_assoc, takeInt_append] at h₁ hprocess
  obtain ⟨bs₂, h₂, hcall⟩ : ∃ bs : BitStream, bs.Reads _ ∧
      ms.handleRPCCall net bs₁ addr currentTime = _ := h.handleRPCCall_reads net h₁ hconn
  rw [takeInt_append, Nat.mod_eq_of_lt hid] at h₂ hcall
  refine ⟨bs₂, h₂, ?_⟩
  have hreceived : recvFrom (headBytes rpcID ++ rest) = leBytes 1 2 ++ (leBytes 2 rpcID ++ rest) := by
    rw [recvFrom, List.take_of_length_le hsize, headBytes, List.append_assoc]
  rw [act, hreceived, hprocess]
  exact hcall

/-- What the server sends when it receives a client's packet. -/
theorem Idle.receive_sent (net : Net) (h : ms.Idle)
    (hconn : ms.server.connections addr = some sender)
    (hsize : message.bytes.length ≤ maxPacketDataSize) :
    (ms.act net (.receive message.bytes addr currentTime)).map Prod.snd =
      (ms.server.serve net sender currentTime message).map fun r => packets r.2 := by
  have hheld : Held { ms with mutex := ⟨0, true⟩ } := ⟨rfl, h.connMutex, h.keyed⟩
  have hdata : message.data.length < 256 ^ 2 := by
    have hle : message.data.length ≤ message.bytes.length := by
      cases message <;>
        simp only [ClientMessage.data, ClientMessage.bytes, bufferBytes, List.length_append] <;>
        omega
    have hmax : maxPacketDataSize = 1500 := rfl
    omega
  cases message with
  | requestArrangedConnection requestID remoteAddress internalAddress connectionParams =>
    have hparams : connectionParams.length < 256 ^ 2 := hdata
    obtain ⟨bs, hbs, hact⟩ : ∃ bs : BitStream, bs.Reads _ ∧
        ms.act net (.receive _ addr currentTime) = _ :=
      h.handleRPCCall_bytes net 3 _ hconn hsize (by decide)
    rw [ClientMessage.bytes, hact]
    change (ms.handleRequestArrangedConnection net sender bs currentTime).map Prod.snd = _
    rw [handleRequestArrangedConnection_reads hbs, takeRequest_bytes _ _ _ hparams]
    dsimp only
    rw [h.locked_sent, hheld.requestArranged_sent, resolve_toNat, resolve_toNat]
    rfl
  | acceptArrangedConnection requestID internalAddress connectionData =>
    have hparams : connectionData.length < 256 ^ 2 := hdata
    obtain ⟨bs, hbs, hact⟩ : ∃ bs : BitStream, bs.Reads _ ∧
        ms.act net (.receive _ addr currentTime) = _ :=
      h.handleRPCCall_bytes net 4 _ hconn hsize (by decide)
    rw [ClientMessage.bytes, hact]
    change (ms.handleAcceptArrangedConnection net sender bs).map Prod.snd = _
    rw [handleAcceptArrangedConnection_reads hbs, takeAccept_bytes _ _ hparams]
    dsimp only
    rw [h.locked_sent, acceptArranged_sent, resolve_toNat]
    rfl
  | rejectArrangedConnection requestID rejectData =>
    have hparams : rejectData.length < 256 ^ 2 := hdata
    obtain ⟨bs, hbs, hact⟩ : ∃ bs : BitStream, bs.Reads _ ∧
        ms.act net (.receive _ addr currentTime) = _ :=
      h.handleRPCCall_bytes net 5 _ hconn hsize (by decide)
    rw [ClientMessage.bytes, hact]
    change (ms.handleRejectArrangedConnection bs).map Prod.snd = _
    rw [handleRejectArrangedConnection_reads hbs, takeReject_bytes _ hparams]
    dsimp only
    rw [h.locked_sent, rejectArranged_sent]
    rfl

end serving

end MasterProcess

section onWire

variable {addr internal i : Address}

@[simp]
theorem wireIP_wireIP (host : List UInt8) : wireIP (wireIP host) = wireIP host :=
  if_pos (wireIP_length host)

theorem Address.onWire_eq_iff : addr.onWire = addr ↔ addr.host.length = 4 := by
  constructor
  · intro heq
    rw [← congrArg Address.host heq]
    exact wireIP_length addr.host
  · intro hlength
    exact congrArg (Address.mk · addr.port) (if_pos hlength)

theorem Address.onWire_onWire (addr : Address) : addr.onWire.onWire = addr.onWire := by
  simp only [Address.onWire, wireIP_wireIP]

theorem addressBytes_onWire (addr : Address) : addressBytes addr.onWire = addressBytes addr := by
  simp only [addressBytes, Address.onWire, wireIP_wireIP]

theorem addressesBytes_onWire (addresses : List Address) :
    addressesBytes (addresses.map Address.onWire) = addressesBytes addresses := by
  simp only [addressesBytes, List.length_map, List.flatMap_map, addressBytes_onWire]

theorem Message.bytes_received {message : Message}
    (hdata : MasterServer.newByteBufferFromData message.data = message.data) :
    message.received.bytes = message.bytes := by
  cases message with
  | clientRequestedArrangedConnection requestID possibleAddresses connectionParams =>
    simp only [Message.data] at hdata
    simp only [Message.received, Message.bytes, addressesBytes_onWire, hdata]
  | arrangedConnectionAccepted requestID possibleAddresses connectionData =>
    simp only [Message.received, Message.bytes, addressesBytes_onWire]
  | arrangedConnectionRejected requestID rejectData => rfl

/-- What the packets have of the addresses is what the server has been told. -/
theorem possibleAddresses_onWire_iff :
    (MasterServer.possibleAddresses addr i).map Address.onWire =
        MasterServer.possibleAddresses addr internal ↔
      addr.host.length = 4 ∧ (i = addr ↔ internal = addr) ∧
        (internal ≠ addr → i.onWire = internal) := by
  rw [← Address.onWire_eq_iff, MasterServer.possibleAddresses, MasterServer.possibleAddresses]
  have hport (port : BitVec 16) : (⟨addr.host, port⟩ : Address).onWire = ⟨addr.host, port⟩ ↔
      addr.onWire = addr := by
    rw [Address.onWire_eq_iff, Address.onWire_eq_iff]
  by_cases hi : i = addr <;> by_cases hinternal : internal = addr
  · simp [hi, hinternal, hport]
  · simp [hi, hinternal]
  · simp [hi, hinternal]
  · simp [hi, hinternal, hport]

end onWire

/-- The internal address of the sender is told to the other party as it is. -/
def Listed (net : Net) (sender : MasterServerConnection) (internalAddress : Address) : Prop :=
  ∃ i, internalAddress.reread net = some i ∧ sender.address.host.length = 4 ∧
    (i = sender.address ↔ internalAddress = sender.address) ∧
    (internalAddress ≠ sender.address → i.onWire = internalAddress)

/-- The data that come out of a buffer, and the addresses that are read from their bytes, are the
ones of the message. -/
def Relayable (net : Net) (sender : MasterServerConnection) : ClientMessage → Prop
  | .requestArrangedConnection _ remoteAddress internalAddress connectionParams =>
    remoteAddress.reread net = some remoteAddress ∧ Listed net sender internalAddress ∧
      MasterServer.newByteBufferFromData connectionParams = connectionParams
  | .acceptArrangedConnection _ internalAddress connectionData =>
    Listed net sender internalAddress ∧
      MasterServer.newByteBufferFromData connectionData = connectionData
  | .rejectArrangedConnection _ rejectData =>
    MasterServer.newByteBufferFromData rejectData = rejectData

/-- The other party is sent what it should be told, and reads it from the packet. -/
structure Relayed (net : Net) (ms : MasterProcess) (addr : Address) (message : ClientMessage)
    (currentTime : U32) (party : Address) (expected : Message) : Prop where
  sent : ∃ datagram ms', message.send = some datagram ∧
    ms.act net (.receive datagram addr currentTime) = some (ms', [(party, expected.bytes)])
  decoded : ∀ mc : MasterClient, mc.Expects expected →
    mc.processPacket (recvFrom expected.bytes) mc.masterAddress = some (some expected)

section relayed

variable {net : Net} {ms : MasterProcess} {sender : MasterServerConnection}
  {addr party : Address} {currentTime : U32} {message : ClientMessage} {expected : Message}

theorem MasterServer.newByteBufferFromData_twice (data : List UInt8) :
    MasterServer.newByteBufferFromData (MasterServer.newByteBufferFromData data) =
      MasterServer.newByteBufferFromData data := by
  rw [newByteBufferFromData, newByteBufferFromData, List.length_replicate]

theorem possibleAddresses_addressed (addr internal : Address) :
    MasterServer.possibleAddresses addr internal ≠ [] ∧
      (MasterServer.possibleAddresses addr internal).length < 256 ^ 2 := by
  rw [MasterServer.possibleAddresses]
  split
  · exact ⟨List.cons_ne_nil _ _, (by decide : 2 < 256 ^ 2)⟩
  · exact ⟨List.cons_ne_nil _ _, (by decide : 3 < 256 ^ 2)⟩

/-- There is a client that waits for the message. -/
theorem exists_expects (expected : Message) : ∃ mc : MasterClient, mc.Expects expected := by
  cases expected with
  | clientRequestedArrangedConnection requestID possibleAddresses connectionParams =>
    exact ⟨⟨⟨[], 0⟩, true, requestID⟩, rfl⟩
  | arrangedConnectionAccepted requestID possibleAddresses connectionData =>
    exact ⟨⟨⟨[], 0⟩, false, requestID⟩, rfl, rfl⟩
  | arrangedConnectionRejected requestID rejectData =>
    exact ⟨⟨⟨[], 0⟩, false, requestID⟩, rfl, rfl⟩

theorem data_length_lt (expected : Message) (hsize : expected.bytes.length ≤ maxPacketDataSize) :
    expected.data.length < 256 ^ 2 := by
  have hle : expected.data.length ≤ expected.bytes.length := by
    cases expected <;>
      simp only [Message.data, Message.bytes, bufferBytes, List.length_append] <;>
      omega
  have hmax : maxPacketDataSize = 1500 := rfl
  omega

theorem relay_addressed (hrelay : ms.server.relay sender message = some (party, expected)) :
    expected.Addressed := by
  cases message with
  | requestArrangedConnection requestID remoteAddress internalAddress connectionParams =>
    obtain ⟨host, -, heq⟩ := Option.map_eq_some_iff.mp hrelay
    obtain rfl : _ = expected := congrArg Prod.snd heq
    exact possibleAddresses_addressed _ _
  | acceptArrangedConnection requestID internalAddress connectionData =>
    obtain ⟨req, -, heq⟩ := Option.map_eq_some_iff.mp hrelay
    obtain rfl : _ = expected := congrArg Prod.snd heq
    exact (possibleAddresses_addressed _ _).2
  | rejectArrangedConnection requestID rejectData =>
    obtain ⟨req, -, heq⟩ := Option.map_eq_some_iff.mp hrelay
    obtain rfl : _ = expected := congrArg Prod.snd heq
    trivial

/-- The other party reads what it is sent, except for its buffer and the form of the addresses. -/
theorem decoded_iff (haddressed : expected.Addressed)
    (hsize : expected.bytes.length ≤ maxPacketDataSize) :
    (∀ mc : MasterClient, mc.Expects expected →
      mc.processPacket (recvFrom expected.bytes) mc.masterAddress = some (some expected)) ↔
      expected.received = expected := by
  have hreceived : recvFrom expected.bytes = expected.bytes := List.take_of_length_le hsize
  rw [hreceived]
  constructor
  · intro hdecoded
    obtain ⟨mc, hexpects⟩ := exists_expects expected
    have hprocess := MasterClient.processPacket_bytes hexpects haddressed
      (data_length_lt expected hsize)
    rw [hdecoded mc hexpects] at hprocess
    exact (Option.some.inj (Option.some.inj hprocess)).symm
  · intro heq mc hexpects
    rw [MasterClient.processPacket_bytes hexpects haddressed (data_length_lt expected hsize), heq]

theorem relayed_iff_served (hidle : ms.Idle) (hsender : ms.server.connections addr = some sender)
    (hrelay : ms.server.relay sender message = some (party, expected))
    (hmessage : message.bytes.length ≤ maxPacketDataSize)
    (hexpected : expected.bytes.length ≤ maxPacketDataSize) :
    Relayed net ms addr message currentTime party expected ↔
      (ms.server.serve net sender currentTime message).map (fun r => packets r.2) =
        some [(party, expected.bytes)] ∧ expected.received = expected := by
  rw [← hidle.receive_sent net hsender hmessage,
    ← decoded_iff (relay_addressed hrelay) hexpected]
  constructor
  · rintro ⟨⟨datagram, ms', hsend, hact⟩, hdecoded⟩
    rw [message.send_eq] at hsend
    rw [Option.some.inj hsend, hact]
    exact ⟨rfl, hdecoded⟩
  · rintro ⟨hsent, hdecoded⟩
    obtain ⟨⟨ms', sent⟩, hact, heq⟩ := Option.map_eq_some_iff.mp hsent
    refine ⟨⟨message.bytes, ms', message.send_eq, ?_⟩, hdecoded⟩
    rw [hact]
    exact congrArg (fun sent => some (ms', sent)) heq

theorem Message.received_received (message : Message) :
    message.received.received = message.received := by
  cases message <;>
    simp only [Message.received, List.map_map, MasterServer.newByteBufferFromData_twice,
      Function.comp_def, Address.onWire_onWire]

theorem Message.received_data {data : List UInt8}
    (hdata : expected.data = MasterServer.newByteBufferFromData data) :
    expected.received.data = MasterServer.newByteBufferFromData data := by
  cases expected with
  | clientRequestedArrangedConnection requestID possibleAddresses connectionParams =>
    have hparams : connectionParams = MasterServer.newByteBufferFromData data := hdata
    rw [hparams]
    exact MasterServer.newByteBufferFromData_twice data
  | arrangedConnectionAccepted requestID possibleAddresses connectionData => exact hdata
  | arrangedConnectionRejected requestID rejectData => exact hdata

/-- The packet is the right one if the client that it is for reads it rightly, since reading undoes
what the buffers have done. -/
theorem told_iff (mc : MasterClient) (told expected : Message) (htold : mc.Expects told)
    (hexpected : mc.Expects expected) (htoldaddressed : told.Addressed)
    (haddressed : expected.Addressed) (hshort : expected.data.length < 256 ^ 2)
    (hdata : told.data = MasterServer.newByteBufferFromData expected.data) :
    told.bytes = expected.bytes ∧ expected.received = expected ↔
      told.received = expected ∧
        MasterServer.newByteBufferFromData expected.data = expected.data := by
  have htoldshort : told.data.length < 256 ^ 2 := by
    rw [hdata, MasterServer.newByteBufferFromData, List.length_replicate]
    exact hshort
  constructor
  · rintro ⟨hbytes, hreceived⟩
    have hprocess := MasterClient.processPacket_bytes htold htoldaddressed htoldshort
    rw [hbytes, MasterClient.processPacket_bytes hexpected haddressed hshort, hreceived] at hprocess
    have heq : told.received = expected := (Option.some.inj (Option.some.inj hprocess)).symm
    refine ⟨heq, ?_⟩
    rw [← Message.received_data hdata, heq]
  · rintro ⟨heq, hzero⟩
    have htwice : MasterServer.newByteBufferFromData told.data = told.data := by
      rw [hdata, MasterServer.newByteBufferFromData_twice]
    constructor
    · rw [← heq, Message.bytes_received htwice]
    · rw [← heq, Message.received_received]

theorem rejected_bytes_ne (requestID hostQueryID : U32) (addresses : List Address)
    (rejectData connectionParams : List UInt8) :
    (Message.arrangedConnectionRejected requestID rejectData).bytes ≠
      (Message.clientRequestedArrangedConnection hostQueryID addresses connectionParams).bytes := by
  intro heq
  rw [Message.bytes, Message.bytes, List.append_assoc, List.append_assoc, List.append_assoc] at heq
  have hhead := (List.append_inj heq rfl).1
  revert hhead
  decide

theorem serve_request_iff {requestID : U32} {remoteAddress internalAddress : Address}
    {connectionParams : List UInt8} (hkeyed : ms.server.Keyed)
    (hrelay : ms.server.relay sender (.requestArrangedConnection requestID remoteAddress
      internalAddress connectionParams) = some (party, expected))
    (hshort : expected.data.length < 256 ^ 2) :
    (ms.server.serve net sender currentTime (.requestArrangedConnection requestID remoteAddress
      internalAddress connectionParams)).map (fun r => packets r.2) =
        some [(party, expected.bytes)] ∧ expected.received = expected ↔
      Relayable net sender (.requestArrangedConnection requestID remoteAddress internalAddress
        connectionParams) := by
  obtain ⟨host, hhost, heq⟩ := Option.map_eq_some_iff.mp hrelay
  obtain rfl : host.address = party := congrArg Prod.fst heq
  obtain rfl : _ = expected := congrArg Prod.snd heq
  rw [MasterServer.serve, MasterServer.handleRequestArrangedConnection, Relayable, Listed]
  cases hremote : remoteAddress.reread net with
  | none => simp
  | some remoteAddr =>
    rw [Option.bind_eq_bind, Option.bind_some]
    cases hknown : ms.server.connections remoteAddr with
    | none =>
      have hne : some remoteAddr ≠ some remoteAddress := by
        rintro heq
        rw [Option.some.inj heq, hhost] at hknown
        cases hknown
      constructor
      · rintro ⟨hsent, -⟩
        have hbytes := congrArg Prod.snd (List.cons.inj (Option.some.inj hsent)).1
        exact (rejected_bytes_ne _ _ _ _ _ hbytes).elim
      · rintro ⟨hsame, -⟩
        exact (hne hsame).elim
    | some hostConn =>
      have hparty : hostConn.address = host.address ↔ some remoteAddr = some remoteAddress := by
        rw [hkeyed _ _ hknown, hkeyed _ _ hhost, Option.some_inj]
      cases hinternal : internalAddress.reread net with
      | none => simp
      | some internalAddr =>
        have htold := told_iff ⟨⟨[], 0⟩, true, 0⟩ (.clientRequestedArrangedConnection
          ms.server.nextQueryID (MasterServer.possibleAddresses sender.address internalAddr)
          (MasterServer.newByteBufferFromData connectionParams)) (.clientRequestedArrangedConnection
          ms.server.nextQueryID (MasterServer.possibleAddresses sender.address internalAddress)
          connectionParams) rfl rfl (possibleAddresses_addressed _ _)
          (possibleAddresses_addressed _ _) hshort rfl
        change some [(hostConn.address, Message.bytes (.clientRequestedArrangedConnection
          ms.server.nextQueryID (MasterServer.possibleAddresses sender.address internalAddr)
          (MasterServer.newByteBufferFromData connectionParams)))] = some [_] ∧ _ ↔ _
        rw [Option.some_inj, List.singleton_inj, Prod.mk.injEq, hparty, and_assoc, htold,
          Message.received, Message.clientRequestedArrangedConnection.injEq,
          possibleAddresses_onWire_iff]
        simp [Message.data, MasterServer.newByteBufferFromData_twice, and_assoc]

theorem serve_accept_iff {requestID : U32} {internalAddress : Address}
    {connectionData : List UInt8}
    (hrelay : ms.server.relay sender (.acceptArrangedConnection requestID internalAddress
      connectionData) = some (party, expected)) (hshort : expected.data.length < 256 ^ 2) :
    (ms.server.serve net sender currentTime (.acceptArrangedConnection requestID internalAddress
      connectionData)).map (fun r => packets r.2) = some [(party, expected.bytes)] ∧
        expected.received = expected ↔
      Relayable net sender (.acceptArrangedConnection requestID internalAddress
        connectionData) := by
  obtain ⟨req, hpending, heq⟩ := Option.map_eq_some_iff.mp hrelay
  obtain rfl : req.initiator.address = party := congrArg Prod.fst heq
  obtain rfl : _ = expected := congrArg Prod.snd heq
  rw [MasterServer.serve, MasterServer.handleAcceptArrangedConnection,
    MasterServer.findAndRemoveRequest, hpending, Relayable, Listed]
  cases hinternal : internalAddress.reread net with
  | none => simp
  | some internalAddr =>
    have htold := told_iff ⟨⟨[], 0⟩, false, req.initiatorQueryID⟩ (.arrangedConnectionAccepted
      req.initiatorQueryID (MasterServer.possibleAddresses sender.address internalAddr)
      (MasterServer.newByteBufferFromData connectionData)) (.arrangedConnectionAccepted
      req.initiatorQueryID (MasterServer.possibleAddresses sender.address internalAddress)
      connectionData) ⟨rfl, rfl⟩ ⟨rfl, rfl⟩ (possibleAddresses_addressed _ _).2
      (possibleAddresses_addressed _ _).2 hshort rfl
    change some [(req.initiator.address, Message.bytes (.arrangedConnectionAccepted
      req.initiatorQueryID (MasterServer.possibleAddresses sender.address internalAddr)
      (MasterServer.newByteBufferFromData connectionData)))] = some [_] ∧ _ ↔ _
    rw [Option.some_inj, List.singleton_inj, Prod.mk.injEq, and_assoc, htold, Message.received,
      Message.arrangedConnectionAccepted.injEq, possibleAddresses_onWire_iff]
    simp [Message.data, and_assoc]

theorem serve_reject_iff {requestID : U32} {rejectData : List UInt8}
    (hrelay : ms.server.relay sender (.rejectArrangedConnection requestID rejectData) =
      some (party, expected)) (hshort : expected.data.length < 256 ^ 2) :
    (ms.server.serve net sender currentTime (.rejectArrangedConnection requestID rejectData)).map
        (fun r => packets r.2) = some [(party, expected.bytes)] ∧
          expected.received = expected ↔
      Relayable net sender (.rejectArrangedConnection requestID rejectData) := by
  obtain ⟨req, hpending, heq⟩ := Option.map_eq_some_iff.mp hrelay
  obtain rfl : req.initiator.address = party := congrArg Prod.fst heq
  obtain rfl : _ = expected := congrArg Prod.snd heq
  have htold := told_iff ⟨⟨[], 0⟩, false, req.initiatorQueryID⟩ (.arrangedConnectionRejected
    req.initiatorQueryID (MasterServer.newByteBufferFromData rejectData))
    (.arrangedConnectionRejected req.initiatorQueryID rejectData) ⟨rfl, rfl⟩ ⟨rfl, rfl⟩ trivial
    trivial hshort rfl
  rw [MasterServer.serve, MasterServer.handleRejectArrangedConnection,
    MasterServer.findAndRemoveRequest, hpending, Relayable]
  change some [(req.initiator.address, Message.bytes (.arrangedConnectionRejected
    req.initiatorQueryID (MasterServer.newByteBufferFromData rejectData)))] = some [_] ∧ _ ↔ _
  rw [Option.some_inj, List.singleton_inj, Prod.mk.injEq, and_assoc, htold, Message.received,
    Message.arrangedConnectionRejected.injEq]
  simp [Message.data]

/-- In every state that the server reaches, a message that is for a known party is relayed exactly
if its data are zeros and the addresses in it are the texts of themselves. -/
theorem relayed_iff {motdList : List (List UInt8 × List UInt8)}
    {as : List MasterProcess.Action}
    (hrun : Run (MasterProcess.step net) (fun _ _ => True) (MasterProcess.start motdList) as ms)
    (hsender : ms.server.connections addr = some sender)
    (hrelay : ms.server.relay sender message = some (party, expected))
    (hmessage : message.bytes.length ≤ maxPacketDataSize)
    (hexpected : expected.bytes.length ≤ maxPacketDataSize) :
    Relayed net ms addr message currentTime party expected ↔ Relayable net sender message := by
  have hidle := MasterProcess.idle_of_run hrun
  have hshort := data_length_lt expected hexpected
  rw [relayed_iff_served hidle hsender hrelay hmessage hexpected]
  cases message with
  | requestArrangedConnection requestID remoteAddress internalAddress connectionParams =>
    exact serve_request_iff hidle.keyed hrelay hshort
  | acceptArrangedConnection requestID internalAddress connectionData =>
    exact serve_accept_iff hrelay hshort
  | rejectArrangedConnection requestID rejectData => exact serve_reject_iff hrelay hshort

/-- The bytes of both addresses are the name of the host that they belong to, and the parameters are
zeros. -/
theorem relayed_iff_named :
    let name : List UInt8 := "host".toList.map Char.toUInt8
    let net : Net := ⟨fun _ => none, fun text => if text = name then [name] else []⟩
    let message : ClientMessage := .requestArrangedConnection 7 ⟨name, 28000⟩ ⟨name, 29000⟩ [0, 0]
    let expected : Message := .clientRequestedArrangedConnection 1
      [⟨[10, 0, 0, 1], 28002⟩, ⟨[10, 0, 0, 1], 28001⟩, ⟨name, 29000⟩] [0, 0]
    ∃ ms, Relayed net ms ⟨[10, 0, 0, 1], 28001⟩ message 5 ⟨name, 28000⟩ expected := by
  intro name net message expected
  have hstates : ((MasterProcess.step net (MasterProcess.start [])
      (.receive [1, 0, 0] ⟨name, 28000⟩ 0)).bind fun ms =>
      (MasterProcess.step net ms (.receive [1, 0, 0] ⟨[10, 0, 0, 1], 28001⟩ 0)).map fun ms =>
        (ms.server.connections ⟨[10, 0, 0, 1], 28001⟩,
          ms.server.relay ⟨1, [10, 0, 0, 1], 28001⟩ message)) =
      some (some ⟨1, [10, 0, 0, 1], 28001⟩, some (⟨name, 28000⟩, expected)) := by decide +kernel
  obtain ⟨ms₁, hstep₁, hrest⟩ := Option.bind_eq_some_iff.mp hstates
  obtain ⟨ms₂, hstep₂, heq⟩ := Option.map_eq_some_iff.mp hrest
  obtain ⟨hsender, hrelay⟩ := Prod.mk.inj heq
  refine ⟨ms₂, (relayed_iff (.cons trivial hstep₁ (.cons trivial hstep₂ (.nil ms₂))) hsender hrelay
    (by decide) (by decide)).mpr ?_⟩
  exact ⟨by decide, ⟨⟨name, 29000⟩, by decide, rfl, by decide, fun _ => by decide⟩, rfl⟩

/-- A client asks for a connection to a host that is connected, and the server takes the four bytes
of its address for a name. -/
theorem greeting_lost : ¬ ∀ (net : Net) (motdList : List (List UInt8 × List UInt8))
    (as : List MasterProcess.Action) (ms : MasterProcess) (sender : MasterServerConnection)
    (addr party : Address) (currentTime : U32) (message : ClientMessage) (expected : Message),
    Run (MasterProcess.step net) (fun _ _ => True) (MasterProcess.start motdList) as ms →
    ms.server.connections addr = some sender →
    ms.server.relay sender message = some (party, expected) →
    message.bytes.length ≤ maxPacketDataSize → expected.bytes.length ≤ maxPacketDataSize →
    Relayed net ms addr message currentTime party expected := by
  intro hclaim
  let net : Net := ⟨fun _ => none, fun _ => []⟩
  let host : Address := ⟨[10, 0, 0, 2], 28000⟩
  let client : Address := ⟨[10, 0, 0, 1], 28001⟩
  let greeting : List UInt8 := "Hello World!".toList.map Char.toUInt8
  let message : ClientMessage := .requestArrangedConnection 7 host client greeting
  let expected : Message :=
    .clientRequestedArrangedConnection 1 [⟨client.host, 28002⟩, client] greeting
  have hstates : ((MasterProcess.step net (MasterProcess.start [])
      (.receive [1, 0, 0] host 0)).bind fun ms =>
      (MasterProcess.step net ms (.receive [1, 0, 0] client 0)).map fun ms =>
        (ms.server.connections client, ms.server.relay ⟨1, client⟩ message,
          (ms.act net (.receive message.bytes client 5)).isNone)) =
      some (some ⟨1, client⟩, some (host, expected), true) := by decide +kernel
  obtain ⟨ms₁, hstep₁, hrest⟩ := Option.bind_eq_some_iff.mp hstates
  obtain ⟨ms₂, hstep₂, heq⟩ := Option.map_eq_some_iff.mp hrest
  obtain ⟨hsender, hrest⟩ := Prod.mk.inj heq
  obtain ⟨hrelay, hnone⟩ := Prod.mk.inj hrest
  obtain ⟨datagram, ms', hsend, hact⟩ := (hclaim net [] _ ms₂ ⟨1, client⟩ client host 5 message
    expected (.cons trivial hstep₁ (.cons trivial hstep₂ (.nil ms₂))) hsender hrelay (by decide)
    (by decide)).sent
  rw [message.send_eq] at hsend
  rw [← Option.some.inj hsend] at hact
  rw [hact] at hnone
  cases hnone

end relayed

end TNL.GoRoot
