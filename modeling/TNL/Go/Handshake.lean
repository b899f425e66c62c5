import TNL.Go.BitStream

/-!
# The handshake of the Go port

The server's side: it answers a challenge request with its nonce and a puzzle,
and accepts a connect request whose puzzle is solved. Hashes, the key exchange
and the string compression are parameters; random bytes are inputs.
-/
namespace TNL.Go
open BitReader

/-- The functions of other packages. -/
structure Crypto where
  sha256 : List UInt8 → List UInt8
  hmac : List UInt8 → List UInt8 → List UInt8
  decompress : List UInt8 → Option (List UInt8)

/-- A key pair. No secret is shared with a key that is no point of the curve. -/
structure KeyExchange where
  publicKey : List UInt8
  computeSharedSecret : List UInt8 → Option (List UInt8)

/-- `binary.BigEndian.PutUint32`. -/
def putUint32 (value : U32) : List UInt8 :=
  [24, 16, 8, 0].map (fun shift => UInt8.ofNat (value >>> shift).toNat)

/-- `binary.BigEndian.Uint32`. -/
def bigEndianUint32 (bytes : List UInt8) : U32 :=
  BitVec.ofNat 32 ((bytes.take 4).foldl (fun value byte => 256 * value + byte.toNat) 0)

/-- A stateless identity for a client. -/
def computeIdentity (C : Crypto) (addr serverSecret serverNonce : List UInt8) : U32 :=
  bigEndianUint32 (C.hmac serverSecret (addr ++ serverNonce))

structure ChallengeRequest where
  clientNonce : List UInt8
  deriving DecidableEq

structure ChallengeResponse where
  clientNonce : List UInt8
  serverNonce : List UInt8
  clientIdentity : U32
  difficulty : U32
  publicKey : List UInt8
  deriving DecidableEq

structure ConnectRequest where
  clientNonce : List UInt8
  serverNonce : List UInt8
  puzzleSolution : U32
  clientPublicKey : List UInt8
  connectionClass : List UInt8
  data : List UInt8
  deriving DecidableEq

structure ConnectAccept where
  initialSendSeq : U32
  initialRecvSeq : U32
  sessionIV : List UInt8
  data : List UInt8
  deriving DecidableEq

def ChallengeRequest.read (bs : BitReader) : ChallengeRequest := ⟨(readBytes 16 bs).1⟩

def ConnectRequest.read (C : Crypto) (bs : BitReader) : ConnectRequest :=
  let (clientNonce, bs) := readBytes 16 bs
  let (serverNonce, bs) := readBytes 16 bs
  let (puzzleSolution, bs) := bs.readUint32
  let (pkLen, bs) := bs.readRangedUint32 0 1024
  let (clientPublicKey, bs) := readBytes pkLen bs
  let (connectionClass, bs) := bs.readString C.decompress
  let (dataLen, bs) := bs.readRangedUint32 0 1024
  let (data, _) := readBytes dataLen bs
  ⟨clientNonce, serverNonce, puzzleSolution, clientPublicKey, connectionClass, data⟩

/-- A hash starts with a number of zero bits. -/
def leadingZeros : List UInt8 → ℕ → Bool
  | [], _ => true
  | byte :: h, d =>
    if d > 8 then byte = 0 && leadingZeros h (d - 8)
    else if d > 0 then byte &&& (0xFF <<< UInt8.ofNat (8 - d)) = 0
    else true

def checkSolution (C : Crypto) (solution clientIdentity : U32) (clientNonce serverNonce : List UInt8)
    (difficulty : U32) : Bool :=
  leadingZeros (C.sha256 (putUint32 solution ++ putUint32 clientIdentity ++ clientNonce ++
    serverNonce)) difficulty.toNat

/-- The types of the packets that the server handles. -/
def connectChallengeRequest : UInt8 := 0
def connectRequest : UInt8 := 2

structure HandshakeManager where
  serverSecret : List UInt8
  currentNonce : List UInt8
  puzzleDifficulty : U32
  kx : KeyExchange

/-- A packet with the text of its address, and the random bytes drawn when it is handled. -/
structure Packet where
  addr : List UInt8
  data : List UInt8
  random : List UInt8
  deriving DecidableEq

/-- What is sent back. -/
inductive Reply where
  | challengeResponse (resp : ChallengeResponse)
  | connectAccept (accept : ConnectAccept)
  deriving DecidableEq

/-- The arguments of `OnConnectionAccepted`. -/
structure Accepted where
  addr : List UInt8
  sharedSecret : List UInt8
  iv : List UInt8
  sendSeq : U32
  recvSeq : U32
  deriving DecidableEq

namespace HandshakeManager

def handleChallengeRequest (C : Crypto) (hm : HandshakeManager) (p : Packet) (bs : BitReader) :
    ChallengeResponse :=
  let req := ChallengeRequest.read bs
  { clientNonce := req.clientNonce
    serverNonce := hm.currentNonce
    clientIdentity := computeIdentity C p.addr hm.serverSecret hm.currentNonce
    difficulty := hm.puzzleDifficulty
    publicKey := hm.kx.publicKey }

/-- The nonces that were read are never nil. -/
def handleConnectRequest (C : Crypto) (hm : HandshakeManager) (p : Packet) (bs : BitReader) :
    Option (ConnectAccept × Accepted) :=
  let req := ConnectRequest.read C bs
  let expectedIc := computeIdentity C p.addr hm.serverSecret hm.currentNonce
  if !checkSolution C req.puzzleSolution expectedIc req.clientNonce req.serverNonce
      hm.puzzleDifficulty then none
  else (hm.kx.computeSharedSecret req.clientPublicKey).map (fun sharedSecret =>
    let accept : ConnectAccept := ⟨1000, 2000, p.random, "welcome".toList.map Char.toUInt8⟩
    (accept, ⟨p.addr, sharedSecret, accept.sessionIV, accept.initialSendSeq,
      accept.initialRecvSeq⟩))

/-- What is sent, and the call of `OnConnectionAccepted`. The manager itself does not change. -/
def handlePacket (C : Crypto) (hm : HandshakeManager) (p : Packet) :
    Option Reply × Option Accepted :=
  let (pktType, bs) := (newReader p.data).readUint8
  if pktType = connectChallengeRequest then
    (some (.challengeResponse (hm.handleChallengeRequest C p bs)), none)
  else if pktType = connectRequest then
    match hm.handleConnectRequest C p bs with
    | none => (none, none)
    | some (accept, accepted) => (some (.connectAccept accept), some accepted)
  else (none, none)

end HandshakeManager

end TNL.Go
