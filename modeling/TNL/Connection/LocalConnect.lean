import TNL.Stream.Messages
import TNL.Connection.PendingAttempts

/-!
# Local connections

`connectLocal` does the handshake of two connections in one process: the request
and the acceptance are written to one stream, whose position alone goes back in
between. The stream still holds the last string of the message before, which the
writer of the acceptance continues and its reader does not. Connections are
objects, and a deleted one leaves null behind in the other's reference to it.
-/
namespace TNL
open BitStream CharArray
open Attempt (NetConnectionState setBytePosition)

/-- What a connection class writes and reads in the handshake. The acceptance may depend on what was
read of the request. -/
structure ConnectionClass where
  writeConnectRequest : List FieldWrite
  readConnectRequest : MessageReader
  writeConnectAccept : List FieldValue → List FieldWrite
  readConnectAccept : MessageReader
  request_matches : readConnectRequest.Matches writeConnectRequest
  accept_matches : ∀ request, readConnectAccept.Matches (writeConnectAccept request)

/-- The part of a connection that the handshake sets. -/
structure LocalEnd where
  mInterface : Option ℕ
  mIsInitiator : Bool
  mIsLocal : Bool
  mInitialSendSeq : U32
  mInitialRecvSeq : U32
  mLastSeqRecvd : U32
  mLastRecvAckAck : U32
  mRemoteConnection : Option ℕ
  mConnectionState : NetConnectionState

namespace LocalEnd

def setInitialRecvSequence (c : LocalEnd) (sequence : U32) : LocalEnd :=
  { c with mInitialRecvSeq := sequence, mLastSeqRecvd := sequence, mLastRecvAckAck := sequence }

end LocalEnd

/-- How `connectLocal` ends: what it returns, the two connections, what each has read, and the
connection lists of all interfaces. -/
structure LocalConnect where
  connected : Bool
  client : LocalEnd
  server : Option LocalEnd
  requestRead : Option (List FieldValue × Bool)
  acceptRead : Option (List FieldValue × Bool)
  mConnectionList : ℕ → List ℕ

/-- The call: the two interfaces, the two objects, the client's state and that of the new connection
unless there is none, and the connection lists. -/
structure LocalCall where
  connectionInterface : ℕ
  serverInterface : ℕ
  clientObject : ℕ
  serverObject : ℕ
  client : LocalEnd
  created : Option LocalEnd
  mConnectionList : ℕ → List ℕ

namespace StringStream

/-- A packet on the stack, its string buffer empty. -/
def packetStream (memory : ℕ → Bool) (chars : ℕ → UInt8) : StringStream :=
  reset ⟨BitStream.packetStream memory maxPacketDataSize, ⟨chars, []⟩⟩

def setBytePosition (s : StringStream) (position : ℕ) : StringStream :=
  { s with stream := Attempt.setBytePosition s.stream position }

end StringStream

def addConnection (mConnectionList : ℕ → List ℕ) (interface connection : ℕ) : ℕ → List ℕ :=
  Function.update mConnectionList interface (mConnectionList interface ++ [connection])

namespace ConnectionClass
open HuffmanStringProcessor

/-- The two connections before the messages. -/
def prepareClient (call : LocalCall) (server : LocalEnd) : LocalEnd :=
  { call.client.setInitialRecvSequence server.mInitialSendSeq with
    mInterface := some call.connectionInterface
    mIsInitiator := true
    mIsLocal := true
    mRemoteConnection := some call.serverObject }

def prepareServer (call : LocalCall) (server : LocalEnd) : LocalEnd :=
  { server.setInitialRecvSequence call.client.mInitialSendSeq with
    mInterface := some call.serverInterface
    mIsLocal := true
    mRemoteConnection := some call.clientObject }

/-- The exit on failure, where the server's connection is deleted. -/
def errorOut (call : LocalCall) (client : LocalEnd)
    (requestRead acceptRead : Option (List FieldValue × Bool)) : LocalConnect :=
  ⟨false, { client with mRemoteConnection := none }, none, requestRead, acceptRead,
    call.mConnectionList⟩

def connectLocal (c : ConnectionClass) (call : LocalCall) (stream : StringStream) :
    LocalConnect :=
  let tree := buildTables mCharFreqs
  match call.created with
  | none => ⟨false, call.client, none, none, none, call.mConnectionList⟩
  | some created =>
    let client := prepareClient call created
    let server := prepareServer call created
    let stream := writeMessage tree (stream.setBytePosition 0) c.writeConnectRequest
    let (request, stream) := c.readConnectRequest.run tree (stream.setBytePosition 0)
    if !request.2 then errorOut call client (some request) none
    else
      let stream := writeMessage tree (stream.setBytePosition 0) (c.writeConnectAccept request.1)
      let (accept, _) := c.readConnectAccept.run tree (stream.setBytePosition 0)
      if !accept.2 then errorOut call client (some request) (some accept)
      else
        let client := { client with mConnectionState := .connected }
        let server := { server with mConnectionState := .connected }
        let list := addConnection call.mConnectionList call.connectionInterface call.clientObject
        let list := addConnection list call.serverInterface call.serverObject
        ⟨true, client, some server, some request, some accept, list⟩

/-- What the server makes of the request as it was written. -/
def request (c : ConnectionClass) : List FieldValue × Bool :=
  c.readConnectRequest.onValues (c.writeConnectRequest.map FieldWrite.value)

def acceptMessage (c : ConnectionClass) : List FieldWrite := c.writeConnectAccept c.request.1

/-- What the client makes of the acceptance as it was written. -/
def accept (c : ConnectionClass) : List FieldValue × Bool :=
  c.readConnectAccept.onValues (c.acceptMessage.map FieldWrite.value)

/-- Both sides read what was written, and a failure leaves the client as it was. -/
structure Agrees (c : ConnectionClass) (call : LocalCall) (result : LocalConnect) : Prop where
  request : call.created.isSome = true → result.requestRead = some c.request
  accept : call.created.isSome = true → c.request.2 = true → result.acceptRead = some c.accept
  unchanged : result.connected = false → result.client = call.client

/-- Both messages fit in a packet. -/
structure Fits (c : ConnectionClass) : Prop where
  request : (messageBits (buildTables mCharFreqs) [] c.writeConnectRequest).length ≤
    maxPacketDataSize * 8
  accept : c.request.2 = true → (messageBits (buildTables mCharFreqs)
    (lastString [] c.writeConnectRequest) c.acceptMessage).length ≤ maxPacketDataSize * 8

/-- What a failure leaves of the client. -/
def abandoned (call : LocalCall) (server : LocalEnd) : LocalEnd :=
  { prepareClient call server with mRemoteConnection := none }

/-- The first string of the acceptance continues the last string of the request for two characters
at most, or the last string of the acceptance starts with all that it continues. -/
def Continues (c : ConnectionClass) : Prop :=
  Compatible (lastString [] c.writeConnectRequest)
    (lastString (lastString [] c.writeConnectRequest) c.acceptMessage) c.accept.1

section passes

variable {s : StringStream} {prev : List UInt8} {message : List FieldWrite} {tree : HuffTree}

/-- The stream has the size of a packet. -/
structure PacketSized (s : StringStream) : Prop where
  maxRead : s.stream.maxReadBitNum = maxPacketDataSize * 8
  maxWrite : s.stream.maxWriteBitNum = maxPacketDataSize * 8

/-- A message that was written is ahead once the position is back at the start. -/
theorem writeMessage_ahead (hs : PacketSized s) (hholds : s.mStringBuffer.Holds prev)
    (hfits : (messageBits tree prev message).length ≤ maxPacketDataSize * 8) :
    PacketSized ((writeMessage tree (s.setBytePosition 0) message).setBytePosition 0) ∧
      ((writeMessage tree (s.setBytePosition 0) message).setBytePosition 0).mStringBuffer.Holds
        (lastString prev message) ∧
      ((writeMessage tree (s.setBytePosition 0) message).setBytePosition 0).stream.Ahead
        (messageBits tree prev message ++ []) := by
  have hroom : (s.setBytePosition 0).stream.bitNum + (messageBits tree prev message).length ≤
      (s.setBytePosition 0).stream.maxWriteBitNum := by
    change 0 * 8 + _ ≤ s.stream.maxWriteBitNum
    rw [hs.maxWrite]
    omega
  have hstart : (s.setBytePosition 0).mStringBuffer.Holds prev := hholds
  obtain ⟨hwrote, hlast⟩ := writeMessage_fits hstart hroom
  have hmaxRead := hwrote.maxRead.trans hs.maxRead
  refine ⟨⟨hmaxRead, hwrote.maxWrite.trans hs.maxWrite⟩, hlast, ?_⟩
  rw [List.append_nil]
  refine ⟨hwrote.holds, ?_, ?_⟩
  · change 0 * 8 + _ ≤ (writeMessage tree (s.setBytePosition 0) message).stream.maxReadBitNum
    rw [hmaxRead]
    omega
  · change (writeMessage tree (s.setBytePosition 0) message).stream.maxReadBitNum < _
    rw [hmaxRead]
    decide

end passes

section

variable {c : ConnectionClass} {call : LocalCall} {created : LocalEnd}

/-- The stream after the request has been read. -/
def requestPass (c : ConnectionClass) (s : StringStream) :
    (List FieldValue × Bool) × StringStream :=
  c.readConnectRequest.run (buildTables mCharFreqs) ((writeMessage (buildTables mCharFreqs)
    (s.setBytePosition 0) c.writeConnectRequest).setBytePosition 0)

def acceptPass (c : ConnectionClass) (request : List FieldValue) (s : StringStream) :
    (List FieldValue × Bool) × StringStream :=
  c.readConnectAccept.run (buildTables mCharFreqs) ((writeMessage (buildTables mCharFreqs)
    (s.setBytePosition 0) (c.writeConnectAccept request)).setBytePosition 0)

theorem requestPass_eq (hfits : c.Fits) {s : StringStream} (hs : PacketSized s)
    (hholds : s.mStringBuffer.Holds []) :
    (c.requestPass s).1 = c.request ∧ PacketSized (c.requestPass s).2 ∧
      (c.request.2 = true →
        (c.requestPass s).2.mStringBuffer.Holds (lastString [] c.writeConnectRequest)) := by
  obtain ⟨hsize, hlast, hahead⟩ := writeMessage_ahead hs hholds hfits.request
  obtain ⟨hrun, ⟨n, hstream⟩, hheld⟩ := MessageReader.run_ahead mem_symbols c.request_matches hlast
    (compatible_nil _ _) hahead
  rw [lastString_lastString] at hheld
  refine ⟨hrun, ⟨?_, ?_⟩, fun haccepted => hheld ?_⟩
  · exact (congrArg BitStream.maxReadBitNum hstream).trans hsize.maxRead
  · exact (congrArg BitStream.maxWriteBitNum hstream).trans hsize.maxWrite
  · rw [hrun]
    exact haccepted

theorem acceptPass_eq_iff (hfits : c.Fits) (haccepted : c.request.2 = true) {s : StringStream}
    (hs : PacketSized s) (hholds : s.mStringBuffer.Holds (lastString [] c.writeConnectRequest)) :
    (c.acceptPass c.request.1 s).1 = c.accept ↔ c.Continues := by
  obtain ⟨_hsize, hlast, hahead⟩ := writeMessage_ahead hs hholds (hfits.accept haccepted)
  exact MessageReader.run_eq_iff mem_symbols (c.accept_matches _) hlast hahead

theorem connectLocal_eq (hcreated : call.created = some created) (s : StringStream) :
    c.connectLocal call s =
      if !(c.requestPass s).1.2 then
        errorOut call (prepareClient call created) (some (c.requestPass s).1) none
      else if !(c.acceptPass (c.requestPass s).1.1 (c.requestPass s).2).1.2 then
        errorOut call (prepareClient call created) (some (c.requestPass s).1)
          (some (c.acceptPass (c.requestPass s).1.1 (c.requestPass s).2).1)
      else
        ⟨true, { prepareClient call created with mConnectionState := .connected },
          some { prepareServer call created with mConnectionState := .connected },
          some (c.requestPass s).1, some (c.acceptPass (c.requestPass s).1.1 (c.requestPass s).2).1,
          addConnection (addConnection call.mConnectionList call.connectionInterface
            call.clientObject) call.serverInterface call.serverObject⟩ := by
  unfold connectLocal
  rw [hcreated]
  rfl

theorem packetStream_sized (memory : ℕ → Bool) (chars : ℕ → UInt8) :
    PacketSized (StringStream.packetStream memory chars) := ⟨rfl, rfl⟩

theorem packetStream_holds (memory : ℕ → Bool) (chars : ℕ → UInt8) :
    (StringStream.packetStream memory chars).mStringBuffer.Holds [] :=
  StringStream.reset_holds ⟨BitStream.packetStream memory maxPacketDataSize, ⟨chars, []⟩⟩

theorem connectLocal_rejected (hfits : c.Fits) (hcreated : call.created = some created)
    (hrejected : c.request.2 = false) (memory : ℕ → Bool) (chars : ℕ → UInt8) :
    c.connectLocal call (StringStream.packetStream memory chars) =
      errorOut call (prepareClient call created) (some c.request) none := by
  obtain ⟨hrequest, -, -⟩ := requestPass_eq hfits (packetStream_sized memory chars)
    (packetStream_holds memory chars)
  rw [connectLocal_eq hcreated, hrequest, hrejected]
  rfl

/-- What an accepted request leads to, in terms of what the client makes of the acceptance. -/
theorem connectLocal_accepted (hfits : c.Fits) (hcreated : call.created = some created)
    (haccepted : c.request.2 = true) (memory : ℕ → Bool) (chars : ℕ → UInt8) :
    ∃ accept, (accept = c.accept ↔ c.Continues) ∧
      (c.connectLocal call (StringStream.packetStream memory chars)).requestRead =
        some c.request ∧
      (c.connectLocal call (StringStream.packetStream memory chars)).acceptRead = some accept ∧
      (c.connectLocal call (StringStream.packetStream memory chars)).connected = accept.2 ∧
      (accept.2 = false → (c.connectLocal call (StringStream.packetStream memory chars)).client =
        abandoned call created) := by
  obtain ⟨hrequest, hsize, hheld⟩ := requestPass_eq hfits (packetStream_sized memory chars)
    (packetStream_holds memory chars)
  have haccept := acceptPass_eq_iff hfits haccepted hsize (hheld haccepted)
  refine ⟨_, haccept, ?_⟩
  rw [connectLocal_eq hcreated, hrequest, haccepted, Bool.not_true, if_neg Bool.false_ne_true]
  cases hverdict : (c.acceptPass c.request.1
    (c.requestPass (StringStream.packetStream memory chars)).2).1.2 with
  | false => exact ⟨rfl, rfl, rfl, fun _ => rfl⟩
  | true => exact ⟨rfl, rfl, rfl, fun hfalse => by cases hfalse⟩

/-- Local connections agree with the handshake over the network exactly if the acceptance continues
no string that its reader does not hold, and a failure finds the client as it leaves it. -/
theorem connectLocal_agrees_iff (c : ConnectionClass) (hfits : c.Fits) (call : LocalCall)
    (memory : ℕ → Bool) (chars : ℕ → UInt8) :
    c.Agrees call (c.connectLocal call (StringStream.packetStream memory chars)) ↔
      ∀ created ∈ call.created, (c.request.2 = true → c.Continues) ∧
        (c.request.2 = true ∧ c.accept.2 = true ∨ abandoned call created = call.client) := by
  cases hcreated : call.created with
  | none =>
    apply iff_of_true
    · have hresult : c.connectLocal call (StringStream.packetStream memory chars) =
          ⟨false, call.client, none, none, none, call.mConnectionList⟩ := by
        unfold connectLocal
        rw [hcreated]
      rw [hresult]
      refine ⟨fun hsome => ?_, fun hsome => ?_, fun _ => rfl⟩
      all_goals
        rw [hcreated] at hsome
        cases hsome
    · intro created hnone
      cases hnone
  | some created =>
    have hsome : call.created.isSome = true := by rw [hcreated]; rfl
    cases hverdict : c.request.2 with
    | false =>
      rw [connectLocal_rejected hfits hcreated hverdict]
      constructor
      · intro h other hother
        cases hother
        exact ⟨fun hfalse => (by cases hfalse), Or.inr (h.unchanged rfl)⟩
      · intro h
        have hunchanged := (h created rfl).2.resolve_left fun hboth => by cases hboth.1
        refine ⟨fun _ => rfl, fun _ haccepted => ?_, fun _ => hunchanged⟩
        rw [hverdict] at haccepted
        cases haccepted
    | true =>
      obtain ⟨accept, hcontinues, hrequest, haccept, hconnected, hclient⟩ :=
        connectLocal_accepted hfits hcreated hverdict memory chars
      constructor
      · intro h other hother
        cases hother
        have hread : accept = c.accept :=
          Option.some.inj (haccept.symm.trans (h.accept hsome hverdict))
        refine ⟨fun _ => hcontinues.mp hread, ?_⟩
        cases hend : c.accept.2 with
        | true => exact Or.inl ⟨rfl, rfl⟩
        | false =>
          have hfailed : accept.2 = false := hread ▸ hend
          exact Or.inr ((hclient hfailed).symm.trans (h.unchanged (hconnected.trans hfailed)))
      · intro h
        obtain ⟨hcompatible, hrest⟩ := h created rfl
        have hread := hcontinues.mpr (hcompatible rfl)
        refine ⟨fun _ => hrequest, fun _ _ => haccept.trans (congrArg some hread), fun hfails => ?_⟩
        have hfailed : accept.2 = false := hconnected.symm.trans hfails
        have hunchanged := hrest.resolve_left fun hboth => by
          rw [← hread, hfailed] at hboth
          cases hboth.2
        exact (hclient hfailed).trans hunchanged

end

/-- A reader that takes a number of strings whatever they are. -/
def stringReader : ℕ → MessageReader
  | 0 => .done true
  | n + 1 => .read (.readString fun _ => 0) fun _ => stringReader n

def writeStrings (strings : List {string : List UInt8 // 0 ∉ string}) : List FieldWrite :=
  strings.map fun string => .writeString string 255

theorem stringReader_matches (strings : List {string : List UInt8 // 0 ∉ string}) :
    (stringReader strings.length).Matches (writeStrings strings) := by
  induction strings with
  | nil => exact fun _ => rfl
  | cons string strings ih => exact ⟨trivial, ih⟩

/-- A class that sends some strings each way. -/
def stringClass (request accept : List {string : List UInt8 // 0 ∉ string}) : ConnectionClass where
  writeConnectRequest := writeStrings request
  readConnectRequest := stringReader request.length
  writeConnectAccept _ := writeStrings accept
  readConnectAccept := stringReader accept.length
  request_matches := stringReader_matches request
  accept_matches _ := stringReader_matches accept

def newConnection (sequence : U32) : LocalEnd :=
  ⟨none, false, false, sequence, 0, 0, 0, none, .notConnected⟩

def newCall : LocalCall := ⟨1, 2, 3, 4, newConnection 5, some (newConnection 6), fun _ => []⟩

theorem stringClass_fits (request accept : List {string : List UInt8 // 0 ∉ string})
    (hrequest : ((writeStrings request).map FieldWrite.size).sum ≤ maxPacketDataSize * 8)
    (haccept : ((writeStrings accept).map FieldWrite.size).sum ≤ maxPacketDataSize * 8) :
    (stringClass request accept).Fits :=
  ⟨(messageBits_length_le ..).trans hrequest, fun _ => (messageBits_length_le ..).trans haccept⟩

/-- The request is "abcd" and the acceptance "abcx". -/
def continuedClass : ConnectionClass :=
  stringClass [⟨[97, 98, 99, 100], by decide⟩] [⟨[97, 98, 99, 120], by decide⟩]

/-- The same with a second string "zzz" in the acceptance. -/
def misreadClass : ConnectionClass :=
  stringClass [⟨[97, 98, 99, 100], by decide⟩]
    [⟨[97, 98, 99, 120], by decide⟩, ⟨[122, 122, 122], by decide⟩]

theorem continuedClass_fits : continuedClass.Fits :=
  stringClass_fits _ _ (by decide) (by decide)

theorem misreadClass_fits : misreadClass.Fits :=
  stringClass_fits _ _ (by decide) (by decide)

theorem connectLocal_agrees_iff_continued : continuedClass.Agrees newCall
    (continuedClass.connectLocal newCall
      (StringStream.packetStream (fun _ => false) fun _ => 0)) := by
  apply (connectLocal_agrees_iff _ continuedClass_fits newCall (fun _ => false) fun _ => 0).mpr
  intro created _hcreated
  refine ⟨fun _ => ?_, Or.inl ⟨rfl, rfl⟩⟩
  intro string hstring
  cases hstring
  decide

theorem connectLocal_misread : ¬ misreadClass.Agrees newCall
    (misreadClass.connectLocal newCall
      (StringStream.packetStream (fun _ => false) fun _ => 0)) := by
  intro h
  obtain ⟨accept, hcontinues, -, haccept, -⟩ := connectLocal_accepted misreadClass_fits
    (show newCall.created = some (newConnection 6) from rfl) rfl (fun _ => false) fun _ => 0
  have hread := hcontinues.mp (Option.some.inj (haccept.symm.trans (h.accept rfl rfl)))
  have hfirst := hread [97, 98, 99, 120] rfl
  revert hfirst
  decide

end ConnectionClass

end TNL
