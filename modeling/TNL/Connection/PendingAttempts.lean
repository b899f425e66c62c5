import TNL.Connection.NetInterface
import TNL.Connection.Handshake
import TNL.Stream.Payload
import TNL.Library.EraseFast

/-!
# The parameters of pending connections

The handlers of the packets that a pending connection waits for, as they read a
packet bit by bit and store what they read. Connections are objects that the two
lists of an interface point to. A read that the stream refuses leaves a nonce as
it was, and a number as the memory of a local variable happens to be.
-/
namespace TNL
open BitStream

namespace Attempt

abbrev Nonce : Type := BitVec 64

/-- Sixteen bytes. -/
abbrev Block : Type := List Bool

/-- Keys and certificates with what is done with them. A certificate or key is read from a stream
whatever its bits are, and is valid or not. -/
structure KeyPrimitives where
  Certificate : Type
  PublicKey : Type
  PrivateKey : Type
  Secret : Type
  readCertificate : BitStream → Certificate × BitStream
  certificateIsValid : Certificate → Bool
  validateCertificate : Certificate → Bool
  getPublicKey : Certificate → PublicKey
  readPublicKey : BitStream → PublicKey × BitStream
  publicKeyIsValid : PublicKey → Bool
  validatePublicKey : PublicKey → Bool
  publicKeySize : PublicKey → ℕ
  privateKeySize : PrivateKey → ℕ
  computeSharedSecretKey : PrivateKey → PublicKey → Secret
  symmetricCipher : Option Secret → PacketCipher
  checkOneSolution : U32 → Nonce → Nonce → U32 → U32 → Bool

variable {P : KeyPrimitives}

inductive NetConnectionState where
  | notConnected
  | awaitingChallengeResponse
  | sendingPunchPackets
  | computingPuzzleSolution
  | awaitingConnectResponse
  | connectTimedOut
  | connectRejected
  | connected
  | disconnected
  | timedOut
  deriving DecidableEq

structure ConnectionParameters (P : KeyPrimitives) where
  mIsArranged : Bool
  mUsingCrypto : Bool
  mPuzzleRetried : Bool
  mNonce : Nonce
  mServerNonce : Nonce
  mPuzzleDifficulty : U32
  mPuzzleSolution : U32
  mClientIdentity : U32
  mPublicKey : Option P.PublicKey
  mPrivateKey : Option P.PrivateKey
  mCertificate : Option P.Certificate
  mSharedSecret : Option P.Secret
  mRequestKeyExchange : Bool
  mRequestCertificate : Bool
  mSymmetricKey : Block
  mInitVector : Block
  mPossibleAddresses : List Address
  mIsInitiator : Bool
  mArrangedSecret : Option P.Secret
  mDebugObjectSizes : Bool

structure NetConnection (P : KeyPrimitives) where
  mNetAddress : Address
  mConnectionState : NetConnectionState
  mConnectionParameters : ConnectionParameters P
  mInitialSendSeq : U32
  mInitialRecvSeq : U32
  mSymmetricCipher : Option (Block × Block)

/-- The lists hold pointers to connections. -/
structure NetInterface (P : KeyPrimitives) where
  connection : ℕ → NetConnection P
  mConnectionList : List ℕ
  mPendingConnections : List ℕ
  mPrivateKey : Option P.PrivateKey

/-- What a handler finds: the memory of its local variables, random values, how far the puzzle
comes, and whether the program's own connect data is accepted. -/
structure Chance (P : KeyPrimitives) where
  nonce : Nonce
  serverNonce : Nonce
  word : U32
  difficultyWord : U32
  generatedKey : ℕ → P.PrivateKey
  randomBlock : Block
  iterations : ℕ
  accepted : Bool

def maxPuzzleDifficulty : U32 := 26
def nonceSize : ℕ := 8
def keySize : ℕ := 16
def messageSignatureBytes : ℕ := 5

def readNonce (theNonce : Nonce) (stream : BitStream) : Nonce × BitStream :=
  let (data, stream) := stream.read nonceSize
  (match data with
    | none => theNonce
    | some data => BitVec.ofNat 64 (bitsInt data), stream)

/-- A number goes through a variable that was not set. -/
def readU32 (temp : U32) (stream : BitStream) : U32 × BitStream :=
  let (data, stream) := stream.read 4
  (match data with
    | none => temp
    | some data => BitVec.ofNat 32 (bitsInt data), stream)

def readBlock (block : Block) (stream : BitStream) : Block × BitStream :=
  let (data, stream) := stream.read keySize
  (data.getD block, stream)

def getBytePosition (stream : BitStream) : ℕ := (stream.bitNum + 7) / 8

def setBytePosition (stream : BitStream) (position : ℕ) : BitStream :=
  stream.setBitPosition (position * 8)

/-- Decrypt the rest of the packet. -/
def decrypt (secret : Option P.Secret) (stream : BitStream) : Bool × BitStream :=
  stream.decryptAndCheckHash (P.symmetricCipher secret) messageSignatureBytes
    (getBytePosition stream)

/-- The key that a packet offers for a key exchange. -/
inductive Offer (P : KeyPrimitives) where
  | none
  | certificate (mCertificate : P.Certificate)
  | publicKey (mPublicKey : P.PublicKey)

namespace Offer

def read (stream : BitStream) : Offer P :=
  let (exchange, stream) := stream.readFlag
  if exchange then
    let (certified, stream) := stream.readFlag
    if certified then .certificate (P.readCertificate stream).1
    else .publicKey (P.readPublicKey stream).1
  else .none

def Acceptable : Offer P → Bool
  | .none => true
  | .certificate mCertificate =>
    P.certificateIsValid mCertificate && P.validateCertificate mCertificate
  | .publicKey mPublicKey => P.publicKeyIsValid mPublicKey && P.validatePublicKey mPublicKey

end Offer

namespace ConnectionParameters

/-- What is set once the public key is known to be good. -/
def exchange (theParams : ConnectionParameters P) (mPrivateKey : Option P.PrivateKey)
    (x : Chance P) (mPublicKey : P.PublicKey) : ConnectionParameters P :=
  let key := match mPrivateKey with
    | none => x.generatedKey (P.publicKeySize mPublicKey)
    | some key =>
      if P.privateKeySize key ≠ P.publicKeySize mPublicKey then
        x.generatedKey (P.publicKeySize mPublicKey)
      else key
  { theParams with
    mPublicKey := some mPublicKey
    mPrivateKey := some key
    mSharedSecret := some (P.computeSharedSecretKey key mPublicKey)
    mSymmetricKey := x.randomBlock
    mUsingCrypto := true }

/-- Take the key that is offered, with whether it is accepted. -/
def take (theParams : ConnectionParameters P) (mPrivateKey : Option P.PrivateKey) (x : Chance P) :
    Offer P → ConnectionParameters P × Bool
  | .none => (theParams, true)
  | .certificate mCertificate =>
    let theParams := { theParams with mCertificate := some mCertificate }
    if (Offer.certificate mCertificate).Acceptable then
      (theParams.exchange mPrivateKey x (P.getPublicKey mCertificate), true)
    else (theParams, false)
  | .publicKey mPublicKey =>
    let theParams := { theParams with mPublicKey := some mPublicKey }
    if (Offer.publicKey mPublicKey).Acceptable then
      (theParams.exchange mPrivateKey x mPublicKey, true)
    else (theParams, false)

end ConnectionParameters

namespace NetInterface
open TNL.Attempt.NetConnectionState

def findConnection (s : NetInterface P) (address : Address) : Option ℕ :=
  s.mConnectionList.find? fun p => address = (s.connection p).mNetAddress

def findPendingConnection (s : NetInterface P) (address : Address) : Option ℕ :=
  s.mPendingConnections.find? fun p => address = (s.connection p).mNetAddress

def removePendingConnection (s : NetInterface P) (p : ℕ) : NetInterface P :=
  { s with mPendingConnections := s.mPendingConnections.erase p }

def addConnection (s : NetInterface P) (p : ℕ) : NetInterface P :=
  { s with mConnectionList := s.mConnectionList ++ [p] }

def set (s : NetInterface P) (p : ℕ) (conn : NetConnection P) : NetInterface P :=
  { s with connection := Function.update s.connection p conn }

def setParameters (s : NetInterface P) (p : ℕ) (theParams : ConnectionParameters P) :
    NetInterface P :=
  s.set p { s.connection p with mConnectionParameters := theParams }

def setConnectionState (s : NetInterface P) (p : ℕ) (state : NetConnectionState) :
    NetInterface P :=
  s.set p { s.connection p with mConnectionState := state }

def disconnect (s : NetInterface P) (p : ℕ) : NetInterface P :=
  if (s.connection p).mConnectionState = awaitingChallengeResponse ∨
      (s.connection p).mConnectionState = awaitingConnectResponse then
    s.removePendingConnection p
  else if (s.connection p).mConnectionState = connected then
    let s := s.setConnectionState p disconnected
    { s with mConnectionList := eraseFast s.mConnectionList (s.mConnectionList.idxOf p) }
  else s

def continuePuzzleSolution (s : NetInterface P) (x : Chance P) (p : ℕ) : NetInterface P :=
  let theParams := (s.connection p).mConnectionParameters
  let (solution, solved) := ClientPuzzleManager.solvePuzzle (fun solution =>
    P.checkOneSolution solution theParams.mNonce theParams.mServerNonce theParams.mPuzzleDifficulty
      theParams.mClientIdentity) x.iterations theParams.mPuzzleSolution
  let s := s.setParameters p { theParams with mPuzzleSolution := solution }
  if solved then s.setConnectionState p awaitingConnectResponse else s

/-- The parameters as a challenge response sets them, and the rest of it. -/
def readChallenge (theParams : ConnectionParameters P) (x : Chance P) (stream : BitStream) :
    ConnectionParameters P × BitStream :=
  let (mClientIdentity, stream) := readU32 x.word stream
  let (mServerNonce, stream) := readNonce theParams.mServerNonce stream
  let (mPuzzleDifficulty, stream) := readU32 x.difficultyWord stream
  ({ theParams with
    mClientIdentity := mClientIdentity
    mServerNonce := mServerNonce
    mPuzzleDifficulty := mPuzzleDifficulty }, stream)

def handleConnectChallengeResponse (s : NetInterface P) (x : Chance P) (address : Address)
    (stream : BitStream) : NetInterface P :=
  match s.findPendingConnection address with
  | none => s
  | some p =>
    if (s.connection p).mConnectionState ≠ awaitingChallengeResponse then s
    else
      let (theNonce, stream) := readNonce x.nonce stream
      let theParams := (s.connection p).mConnectionParameters
      if theNonce ≠ theParams.mNonce then s
      else
        let (theParams, stream) := readChallenge theParams x stream
        if theParams.mPuzzleDifficulty > maxPuzzleDifficulty then s.setParameters p theParams
        else
          let (theParams, accepted) := theParams.take s.mPrivateKey x (Offer.read stream)
          if !accepted then s.setParameters p theParams
          else
            let s := s.setParameters p { theParams with mPuzzleSolution := 0 }
            (s.setConnectionState p computingPuzzleSolution).continuePuzzleSolution x p

def handleConnectAccept (s : NetInterface P) (x : Chance P) (address : Address)
    (stream : BitStream) : NetInterface P :=
  let (nonce, stream) := readNonce x.nonce stream
  let (serverNonce, stream) := readNonce x.serverNonce stream
  let stream := setBytePosition stream (getBytePosition stream)
  match s.findPendingConnection address with
  | none => s
  | some p =>
    if (s.connection p).mConnectionState ≠ awaitingConnectResponse then s
    else
      let theParams := (s.connection p).mConnectionParameters
      if theParams.mNonce ≠ nonce ∨ theParams.mServerNonce ≠ serverNonce then s
      else
        let (decrypted, stream) :=
          if theParams.mUsingCrypto then decrypt theParams.mSharedSecret stream else (true, stream)
        if !decrypted then s
        else
          let (recvSequence, stream) := readU32 x.word stream
          let s := s.set p { s.connection p with mInitialRecvSeq := recvSequence }
          if !x.accepted then s.removePendingConnection p
          else
            let conn := s.connection p
            let conn := if theParams.mUsingCrypto then
                let (mInitVector, _) := readBlock theParams.mInitVector stream
                { conn with
                  mConnectionParameters := { theParams with mInitVector := mInitVector }
                  mSymmetricCipher := some (theParams.mSymmetricKey, mInitVector) }
              else conn
            (((s.set p conn).addConnection p).removePendingConnection p).setConnectionState p
              connected

/-- A connection that may be waiting for a punch packet with this nonce. -/
def Punched (firstNonce : Nonce) (conn : NetConnection P) : Prop :=
  conn.mConnectionState = sendingPunchPackets ∧
    firstNonce = (if conn.mConnectionParameters.mIsInitiator then
      conn.mConnectionParameters.mServerNonce else conn.mConnectionParameters.mNonce)

instance (firstNonce : Nonce) (conn : NetConnection P) : Decidable (Punched firstNonce conn) :=
  inferInstanceAs (Decidable (_ ∧ _))

/-- Add an address unless there are too many. -/
def addPossibleAddress (theAddress : Address) (conn : NetConnection P) : NetConnection P :=
  if conn.mConnectionParameters.mPossibleAddresses.length < 5 then
    { conn with mConnectionParameters := { conn.mConnectionParameters with
      mPossibleAddresses := conn.mConnectionParameters.mPossibleAddresses ++ [theAddress] } }
  else conn

/-- The loop of `handlePunch` over the pending connections. -/
def findPunched (theAddress : Address) (firstNonce : Nonce) :
    List ℕ → NetInterface P → Option ℕ × NetInterface P
  | [], s => (none, s)
  | p :: ps, s =>
    let conn := s.connection p
    if ¬ Punched firstNonce conn then findPunched theAddress firstNonce ps s
    else if theAddress ∈ conn.mConnectionParameters.mPossibleAddresses then
      if conn.mConnectionParameters.mIsInitiator then (some p, s)
      else findPunched theAddress firstNonce ps s
    else if !conn.mConnectionParameters.mPossibleAddresses.any theAddress.isEqualAddress then
      findPunched theAddress firstNonce ps s
    else
      let s := s.set p (addPossibleAddress theAddress conn)
      if conn.mConnectionParameters.mIsInitiator then (some p, s)
      else findPunched theAddress firstNonce ps s

def handlePunch (s : NetInterface P) (x : Chance P) (theAddress : Address) (stream : BitStream) :
    NetInterface P :=
  let (firstNonce, stream) := readNonce x.nonce stream
  let (found, s) := findPunched theAddress firstNonce s.mPendingConnections s
  match found with
  | none => s
  | some p =>
    let theParams := (s.connection p).mConnectionParameters
    let (decrypted, stream) := decrypt theParams.mArrangedSecret stream
    if !decrypted then s
    else
      let (nextNonce, stream) := readNonce x.serverNonce stream
      if nextNonce ≠ theParams.mNonce then s
      else
        let (theParams, accepted) := theParams.take s.mPrivateKey x (Offer.read stream)
        if !accepted then s.setParameters p theParams
        else s.set p { s.connection p with
          mConnectionParameters := theParams
          mNetAddress := theAddress
          mConnectionState := awaitingConnectResponse }

/-- A connection that waits for an arranged connect request with this nonce. -/
def Requested (theAddress : Address) (nonce : Nonce) (conn : NetConnection P) : Bool :=
  conn.mConnectionState = sendingPunchPackets ∧ conn.mConnectionParameters.mIsInitiator = false ∧
    nonce = conn.mConnectionParameters.mNonce ∧
    conn.mConnectionParameters.mPossibleAddresses.any theAddress.isEqualAddress

/-- The parameters with the keys of an arranged connect request, and the rest of the request when it
is decrypted with them. -/
def takeKeys (theParams : ConnectionParameters P) (key : P.PrivateKey) (stream : BitStream) :
    ConnectionParameters P × Bool × BitStream :=
  let (mPublicKey, stream) := P.readPublicKey stream
  let secret := P.computeSharedSecretKey key mPublicKey
  let theParams := { theParams with
    mUsingCrypto := true
    mPublicKey := some mPublicKey
    mPrivateKey := some key
    mSharedSecret := some secret }
  (theParams, decrypt (some secret) (setBytePosition stream (getBytePosition stream)))

/-- What follows when the request's keys are taken. -/
def acceptRequest (s : NetInterface P) (x : Chance P) (theAddress : Address)
    (oldConnection : Option ℕ) (p : ℕ) (stream : BitStream) : NetInterface P :=
  let theParams := (s.connection p).mConnectionParameters
  let (mDebugObjectSizes, stream) := stream.readFlag
  let (connectSequence, _) := readU32 x.word stream
  let s := s.setParameters p { theParams with mDebugObjectSizes := mDebugObjectSizes }
  let s := match oldConnection with
    | none => s
    | some old => s.disconnect old
  let s := s.set p { s.connection p with
    mNetAddress := theAddress
    mInitialRecvSeq := connectSequence
    mSymmetricCipher :=
      if theParams.mUsingCrypto then some (theParams.mSymmetricKey, theParams.mInitVector)
      else (s.connection p).mSymmetricCipher }
  if !x.accepted then s.removePendingConnection p
  else ((s.addConnection p).removePendingConnection p).setConnectionState p connected

def handleArrangedConnectRequest (s : NetInterface P) (x : Chance P) (theAddress : Address)
    (stream : BitStream) : NetInterface P :=
  let (nonce, stream) := readNonce x.nonce stream
  let oldConnection := s.findConnection theAddress
  if oldConnection.any fun old => (s.connection old).mConnectionParameters.mNonce = nonce then s
  else match s.mPendingConnections.find? fun p => Requested theAddress nonce (s.connection p) with
  | none => s
  | some p =>
    let theParams := (s.connection p).mConnectionParameters
    let (decrypted, stream) := decrypt theParams.mArrangedSecret stream
    if !decrypted then s
    else
      let (serverNonce, stream) :=
        readNonce x.serverNonce (setBytePosition stream (getBytePosition stream))
      if serverNonce ≠ theParams.mServerNonce then s
      else
        let (usingCrypto, stream) := stream.readFlag
        if usingCrypto then
          match s.mPrivateKey with
          | none => s
          | some key =>
            let (theParams, decrypted, stream) := takeKeys theParams key stream
            if !decrypted then s.setParameters p theParams
            else
              let (mSymmetricKey, stream) := readBlock theParams.mSymmetricKey stream
              let s := s.setParameters p { theParams with
                mSymmetricKey := mSymmetricKey
                mInitVector := x.randomBlock }
              s.acceptRequest x theAddress oldConnection p stream
        else s.acceptRequest x theAddress oldConnection p stream

end NetInterface

/-- The packets that a pending connection may wait for. -/
inductive PacketKind where
  | connectChallengeResponse
  | punch
  | arrangedConnectRequest
  | connectAccept

namespace NetInterface

/-- A packet arrives, after its type was read. -/
def receive (s : NetInterface P) (x : Chance P) (address : Address) (stream : BitStream) :
    PacketKind → NetInterface P
  | .connectChallengeResponse => s.handleConnectChallengeResponse x address stream
  | .punch => s.handlePunch x address stream
  | .arrangedConnectRequest => s.handleArrangedConnectRequest x address stream
  | .connectAccept => s.handleConnectAccept x address stream

end NetInterface

end Attempt

end TNL
