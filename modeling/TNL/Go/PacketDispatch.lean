import TNL.Go.GhostCreation
import TNL.Go.HandshakeCodec
import TNL.Go.OrderedEvents
import TNL.Go.ProcessPacket

/-!
# Handshake packets at a connection of the Go port

The dispatcher looks at the address of a packet alone. So a handshake packet from
an address that has a connection is read as a packet of the game. The lowest bit
of its type is where the header has the flag of a game packet, and the bytes
behind the type are where it has the rest of its two numbers.
-/
namespace TNL.Go
open BitWriter BitReader TNL.Go.NetConnection

def connectChallengeResponse : UInt8 := 1
def connectReject : UInt8 := 3
def connectAccept : UInt8 := 4

namespace HandshakeMessage

def packetType : HandshakeMessage → UInt8
  | challengeRequest _ => connectChallengeRequest
  | challengeResponse _ => connectChallengeResponse
  | connectRequest _ => Go.connectRequest
  | connectAccept _ => Go.connectAccept
  | connectReject _ => Go.connectReject

/-- The packet that a message is sent in. -/
def packet (S : Smaz) (m : HandshakeMessage) : BitWriter :=
  (m.write S (writeUint8 [] m.packetType)).flush

/-- What is behind the type. -/
def body (S : Smaz) (m : HandshakeMessage) : List Bool := (m.packet S).drop 8

/-- The bits that a header has its number in. -/
def sequence (S : Smaz) (m : HandshakeMessage) : BitVec 11 :=
  BitVec.ofNat 11 (m.packetType.toNat / 2 + 2 ^ 5 * bitsValue ((m.body S).take 6))

/-- The bits that a header has its acknowledgement in. -/
def ack (S : Smaz) (m : HandshakeMessage) : BitVec 10 :=
  BitVec.ofNat 10 (bitsValue (((m.body S).drop 6).take 10))

/-- The message is none that the connection takes for a packet of the game: its type is even, or its
first bits are no number of the receive window, or they acknowledge what was not sent. -/
def Distinct (S : Smaz) (m : HandshakeMessage) (nc : NetConnection) : Prop :=
  m.packetType.toNat % 2 = 0 ∨
    31 < (m.sequence S - nc.lastRecvSeq.setWidth 11).toNat ∨
    nc.lastSendSeq < nc.highestAckedSeq +
      BitVec.ofNat 32 (m.ack S - nc.highestAckedSeq.setWidth 10).toNat

end HandshakeMessage

/-- The connections by the text of their address. -/
structure Interface (ε ω : Type) where
  connections : AList (fun _ : List UInt8 => Connection ε ω)

namespace Interface

variable {ε ω τ : Type} (E : EventTypes ε) (R : ObjectTypes ω τ)

/-- A packet from an address that has no connection goes to the handshake. -/
def dispatchPacket (i : Interface ε ω) (p : Packet) : Interface ε ω × Option (Processed ε ω) :=
  match i.connections.lookup p.addr with
  | none => (i, none)
  | some conn =>
    let r := conn.processPacket E R (newReader p.data)
    ({ i with connections := i.connections.replace p.addr r.conn }, some r)

/-- The packet is rejected, and nothing of the connection changes. -/
def Rejects (i : Interface ε ω) (p : Packet) (conn : Connection ε ω) : Prop :=
  ∃ r, (i.dispatchPacket E R p).2 = some r ∧ r.accepted = false ∧ r.conn = conn ∧
    r.outcomes = [] ∧ r.events = [] ∧ r.records = []

end Interface

theorem readBits_take {bits : List Bool} {nbits : ℕ} (hlength : nbits ≤ bits.length) :
    readBits ⟨bits, false⟩ nbits = (bitsValue (bits.take nbits), ⟨bits.drop nbits, false⟩) := by
  rw [readBits, if_neg Bool.false_ne_true, if_neg (Nat.not_lt.mpr hlength)]

/-- The type of a packet, as the parts of a header. -/
theorem bitsOf_type {t : ℕ} (ht : t < 8) :
    bitsOf 8 t = bitsOf 2 0 ++ (bitsOf 5 (t / 2) ++ [decide (t % 2 = 1)]) := by
  have htypes : ∀ t < 8, bitsOf 8 t = bitsOf 2 0 ++ (bitsOf 5 (t / 2) ++ [decide (t % 2 = 1)]) := by
    decide
  exact htypes t ht

theorem headerFields_type {t : ℕ} (ht : t < 8) (body : List Bool) :
    (headerFields ⟨bitsOf 8 t ++ body, false⟩).1.isGameData = decide (t % 2 = 1) := by
  rw [bitsOf_type ht]
  simp only [headerFields, List.append_assoc, readBits_bitsOf, List.singleton_append,
    readFlag_cons]

theorem headerFields_body {t : ℕ} (ht : t < 8) {body : List Bool} (hbody : 16 ≤ body.length) :
    headerFields ⟨bitsOf 8 t ++ body, false⟩ =
      (⟨.dataPacket, decide (t % 2 = 1), BitVec.ofNat 11 (t / 2 + 2 ^ 5 * bitsValue (body.take 6)),
        BitVec.ofNat 10 (bitsValue ((body.drop 6).take 10))⟩, ⟨(body.drop 6).drop 10, false⟩) := by
  have hlow : t / 2 % 2 ^ 5 = t / 2 := Nat.mod_eq_of_lt (by omega)
  rw [bitsOf_type ht]
  simp only [headerFields, List.append_assoc, readBits_bitsOf, List.singleton_append,
    readFlag_cons, hlow]
  rw [readBits_take (by omega)]
  dsimp only
  rw [readBits_take (by rw [List.length_drop]; omega)]
  rfl

namespace HandshakeMessage

variable (S : Smaz) (m : HandshakeMessage)

theorem packetType_lt : m.packetType.toNat < 8 := by
  cases m <;> exact of_decide_eq_true rfl

theorem packet_eq : m.packet S = bitsOf 8 m.packetType.toNat ++ m.body S := by
  have htype : bitsOf 8 m.packetType.toNat = (m.packet S).take 8 := by
    rw [packet, flush, write_append, writeUint8, writeBits, List.nil_append, List.append_assoc,
      List.take_left' (bitsOf_length ..)]
  rw [htype, body, List.take_append_drop]

/-- A message of an odd type has bits for all of a header's numbers. -/
theorem body_length (hodd : m.packetType.toNat % 2 = 1) : 16 ≤ (m.body S).length := by
  have hwritten : 11 ≤ (m.write S []).length := by
    cases m with
    | challengeRequest m => exact absurd hodd Nat.zero_ne_one
    | challengeResponse m =>
      simp only [write, ChallengeResponse.write, writeSlice_length, writeUint32, writeBits,
        List.length_append, bitsOf_length]
      omega
    | connectRequest m => exact absurd (show 2 % 2 = 1 from hodd) (by decide)
    | connectAccept m => exact absurd (show 4 % 2 = 1 from hodd) (by decide)
    | connectReject m =>
      rw [write, ConnectReject.write, writeString, writeSlice_length]
      split <;> omega
  rw [body, packet, List.length_drop, flush_length, write_append, List.length_append, padding,
    List.length_replicate, List.length_append, writeUint8, writeBits, List.length_append,
    bitsOf_length, List.length_nil]
  omega

/-- A connection's tests of a header see through every message that is not distinct. -/
theorem admits_packet (nc : NetConnection) :
    nc.admits (headerFields ⟨m.packet S, false⟩).1 = false ↔ m.Distinct S nc := by
  rw [packet_eq, Distinct]
  obtain heven | hodd := Nat.mod_two_eq_zero_or_one m.packetType.toNat
  · have hdata := headerFields_type m.packetType_lt (m.body S)
    rw [heven] at hdata
    simp [admits, hdata, heven]
  · rw [headerFields_body m.packetType_lt (m.body_length S hodd), admits]
    simp only [hodd, decide_true, Bool.true_and, Bool.and_eq_false_iff, decide_eq_false_iff_not]
    rw [← sequence, ← ack]
    simp only [ahead, newlyAcked, Nat.not_le, BitVec.not_le, one_ne_zero, false_or]

end HandshakeMessage

namespace Interface

variable {ε ω τ : Type} (E : EventTypes ε) (R : ObjectTypes ω τ)

/-- A connection rejects a handshake message, and stays as it was, exactly when the message is
distinct from the packets that the connection expects. -/
theorem rejects_iff (S : Smaz) (m : HandshakeMessage) (i : Interface ε ω) (p : Packet)
    (conn : Connection ε ω) (hconn : i.connections.lookup p.addr = some conn)
    (hmessage : byteBits p.data = m.packet S) :
    i.Rejects E R p conn ↔ m.Distinct S conn.net := by
  have hdispatch : (i.dispatchPacket E R p).2 =
      some (conn.processPacket E R ⟨m.packet S, false⟩) := by
    rw [dispatchPacket, hconn, newReader, hmessage]
  rw [Rejects, hdispatch, ← m.admits_packet S conn.net]
  constructor
  · rintro ⟨r, hr, haccepted, -⟩
    rw [← conn.processPacket_accepted E R, Option.some.inj hr, haccepted]
  · intro hrejected
    exact ⟨_, congrArg some (conn.processPacket_rejected E R _ hrejected), rfl, rfl, rfl, rfl, rfl⟩

/-- A client whose connection has been accepted. -/
def client : Connection UInt8 (U32 × UInt8) := .newConnection 2000 1000

def clientInterface : Interface UInt8 (U32 × UInt8) := ⟨AList.singleton [9] client⟩

/-- A late challenge response to a client with a nonce of zeros. -/
theorem rejects_iff_zeros : clientInterface.Rejects EventStream.messages GhostStream.byteObjects
    ⟨[9], 1 :: List.replicate 42 0, []⟩ client :=
  (rejects_iff EventStream.messages GhostStream.byteObjects HandshakeMessage.plain
    (.challengeResponse ⟨List.replicate 16 0, List.replicate 16 0, 0, 0, []⟩) clientInterface _
    client rfl (by decide +kernel)).mpr (.inr (.inl (by decide +kernel)))

/-- The late challenge response to another nonce is taken for packet 1024 of the game. -/
theorem late_response_accepted : ¬ ∀ (S : Smaz) (m : HandshakeMessage)
    (i : Interface UInt8 (U32 × UInt8)) (p : Packet) (conn : Connection UInt8 (U32 × UInt8)),
    i.connections.lookup p.addr = some conn → byteBits p.data = m.packet S →
      i.Rejects EventStream.messages GhostStream.byteObjects p conn := by
  intro claim
  obtain ⟨r, hr, haccepted, -⟩ := claim HandshakeMessage.plain
    (.challengeResponse ⟨131 :: 208 :: List.replicate 14 0, List.replicate 16 0, 0, 0, []⟩)
    clientInterface ⟨[9], 1 :: 131 :: 208 :: List.replicate 40 0, []⟩ client
    rfl (by decide +kernel)
  have hresult := congrArg (fun r => r.map (·.accepted)) hr
  rw [Option.map_some, haccepted] at hresult
  exact absurd hresult (by decide +kernel)

end Interface

end TNL.Go
