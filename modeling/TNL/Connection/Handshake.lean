import TNL.Connection.Header
import TNL.Library.Run

/-!
# The connect handshake

The handshake between a client interface and a server interface. Every message
ever sent stays in the network, so it may be lost, duplicated, reordered and
delayed, but none is forged. Hashing and key agreement are given, and a message
encrypted with a shared secret is read with that secret only. Random values, the
time that puzzles and retries take, and what the program's own connect data says
are inputs of the actions. A connection ends on either side at any time, which
stands for timeouts and disconnect packets.
-/
namespace TNL

/-- Nonces, keys and their operations. The client has one address, so its identity token depends on
the nonce alone. `garbled` is what the sequence in an encrypted packet reads as when it is not
decrypted. -/
structure HandshakePrimitives where
  Nonce : Type
  PrivateKey : Type
  PublicKey : Type
  Secret : Type
  /-- Sixteen bytes, the size of symmetric keys and of init vectors. -/
  Block : Type
  [nonceEq : DecidableEq Nonce]
  [secretEq : DecidableEq Secret]
  [nonceInhabited : Inhabited Nonce]
  [blockInhabited : Inhabited Block]
  computeClientIdentityToken : Nonce → U32
  checkOneSolution : U32 → Nonce → Nonce → U32 → U32 → Bool
  getPublicKey : PrivateKey → PublicKey
  privateKeySize : PrivateKey → ℕ
  publicKeySize : PublicKey → ℕ
  computeSharedSecretKey : PrivateKey → PublicKey → Secret
  garbled : Secret → U32 → Block → U32

namespace HandshakePrimitives
attribute [instance] nonceEq secretEq nonceInhabited blockInhabited
end HandshakePrimitives

variable {P : HandshakePrimitives}

inductive NetConnectionState where
  | notConnected
  | awaitingChallengeResponse
  | computingPuzzleSolution
  | awaitingConnectResponse
  | connected
  deriving DecidableEq

/-- A certificate is given by its public key. -/
structure ConnectionParameters (P : HandshakePrimitives) where
  mUsingCrypto : Bool
  mPuzzleRetried : Bool
  mNonce : P.Nonce
  mServerNonce : P.Nonce
  mPuzzleDifficulty : U32
  mPuzzleSolution : U32
  mClientIdentity : U32
  mPublicKey : Option P.PublicKey
  mPrivateKey : Option P.PrivateKey
  mCertificate : Option P.PublicKey
  mSharedSecret : Option P.Secret
  mRequestKeyExchange : Bool
  mRequestCertificate : Bool
  mSymmetricKey : P.Block
  mInitVector : P.Block
  mDebugObjectSizes : Bool

/-- What the handshake keeps of a `NetConnection`. The symmetric cipher is its key with the init
vector. -/
structure HandshakeConnection (P : HandshakePrimitives) where
  params : ConnectionParameters P
  mConnectionState : NetConnectionState
  mConnectSendCount : ℕ
  mInitialSendSeq : U32
  mInitialRecvSeq : U32
  mSymmetricCipher : Option (P.Block × P.Block)

/-- A connection that is about to be started. -/
def HandshakeConnection.new (nonce : P.Nonce) (initialSendSeq : U32)
    (requestKeyExchange requestCertificate debugObjectSizes : Bool) : HandshakeConnection P where
  params :=
    { mUsingCrypto := false
      mPuzzleRetried := false
      mNonce := nonce
      mServerNonce := default
      mPuzzleDifficulty := 0
      mPuzzleSolution := 0
      mClientIdentity := 0
      mPublicKey := none
      mPrivateKey := none
      mCertificate := none
      mSharedSecret := none
      mRequestKeyExchange := requestKeyExchange
      mRequestCertificate := requestCertificate
      mSymmetricKey := default
      mInitVector := default
      mDebugObjectSizes := debugObjectSizes }
  mConnectionState := .notConnected
  mConnectSendCount := 0
  mInitialSendSeq := initialSendSeq
  mInitialRecvSeq := 0
  mSymmetricCipher := none

/-- The key a server offers. -/
inductive KeyOffer (P : HandshakePrimitives) where
  | certificate (publicKey : P.PublicKey)
  | publicKey (publicKey : P.PublicKey)

structure ChallengeResponse (P : HandshakePrimitives) where
  mNonce : P.Nonce
  mClientIdentity : U32
  mServerNonce : P.Nonce
  mPuzzleDifficulty : U32
  key : Option (KeyOffer P)

/-- The part of a connect request after the puzzle. -/
inductive RequestBody (P : HandshakePrimitives) where
  | plain (mDebugObjectSizes : Bool) (initialSendSequence : U32)
  | encrypted (publicKey : P.PublicKey) (secret : P.Secret) (mSymmetricKey : P.Block)
      (mDebugObjectSizes : Bool) (initialSendSequence : U32)

structure ConnectRequest (P : HandshakePrimitives) where
  mNonce : P.Nonce
  mServerNonce : P.Nonce
  mClientIdentity : U32
  mPuzzleDifficulty : U32
  mPuzzleSolution : U32
  body : RequestBody P

inductive AcceptBody (P : HandshakePrimitives) where
  | plain (initialSendSequence : U32)
  | encrypted (secret : P.Secret) (initialSendSequence : U32) (mInitVector : P.Block)

structure ConnectAccept (P : HandshakePrimitives) where
  mNonce : P.Nonce
  mServerNonce : P.Nonce
  body : AcceptBody P

inductive ServerBound (P : HandshakePrimitives) where
  | connectChallengeRequest (mNonce : P.Nonce) (mRequestKeyExchange mRequestCertificate : Bool)
  | connectRequest (r : ConnectRequest P)

inductive ClientBound (P : HandshakePrimitives) where
  | connectChallengeResponse (c : ChallengeResponse P)
  | connectAccept (a : ConnectAccept P)
  | connectReject (mNonce mServerNonce : P.Nonce) (reason : String)

namespace ClientPuzzleManager

inductive ErrorCode where
  | success
  | invalidSolution
  | invalidServerNonce
  | invalidClientNonce
  | invalidPuzzleDifficulty
  deriving DecidableEq

def initialPuzzleDifficulty : U32 := 17
def maxPuzzleDifficulty : U32 := 26

/-- Try solutions one after another for as long as the time allows. -/
def solvePuzzle (check : U32 → Bool) : ℕ → U32 → U32 × Bool
  | 0, startValue => (startValue, false)
  | iterations + 1, startValue =>
    if check startValue then (startValue, true) else solvePuzzle check iterations (startValue + 1)

end ClientPuzzleManager

/-- The nonce tables are lists. -/
structure ClientPuzzleManager (P : HandshakePrimitives) where
  mCurrentDifficulty : U32
  mCurrentNonce : P.Nonce
  mLastNonce : P.Nonce
  mCurrentNonceTable : List P.Nonce
  mLastNonceTable : List P.Nonce

namespace ClientPuzzleManager

/-- Refresh the puzzle. -/
def tick (m : ClientPuzzleManager P) (nonce : P.Nonce) : ClientPuzzleManager P :=
  { m with
    mLastNonce := m.mCurrentNonce
    mLastNonceTable := m.mCurrentNonceTable
    mCurrentNonceTable := []
    mCurrentNonce := nonce }

def checkSolution (m : ClientPuzzleManager P) (solution : U32) (clientNonce serverNonce : P.Nonce)
    (puzzleDifficulty clientIdentity : U32) : ErrorCode × ClientPuzzleManager P :=
  if puzzleDifficulty ≠ m.mCurrentDifficulty then (.invalidPuzzleDifficulty, m)
  else
    let solved := P.checkOneSolution solution clientNonce serverNonce puzzleDifficulty clientIdentity
    if serverNonce = m.mCurrentNonce then
      if !solved then (.invalidSolution, m)
      else if clientNonce ∈ m.mCurrentNonceTable then (.invalidClientNonce, m)
      else (.success, { m with mCurrentNonceTable := clientNonce :: m.mCurrentNonceTable })
    else if serverNonce = m.mLastNonce then
      if !solved then (.invalidSolution, m)
      else if clientNonce ∈ m.mLastNonceTable then (.invalidClientNonce, m)
      else (.success, { m with mLastNonceTable := clientNonce :: m.mLastNonceTable })
    else (.invalidServerNonce, m)

end ClientPuzzleManager

/-- The client has at most one pending connection and one connection to the server's address. -/
structure ClientInterface (P : HandshakePrimitives) where
  mPrivateKey : Option P.PrivateKey
  pending : Option (HandshakeConnection P)
  connection : Option (HandshakeConnection P)

structure ServerInterface (P : HandshakePrimitives) where
  mPrivateKey : Option P.PrivateKey
  mCertificate : Option P.PublicKey
  mRequiresKeyExchange : Bool
  mAllowConnections : Bool
  mPuzzleManager : ClientPuzzleManager P
  connection : Option (HandshakeConnection P)

/-- Both interfaces and all messages ever sent. The history has the nonces drawn, the connections
the server created, and those the client established. -/
structure Handshake (P : HandshakePrimitives) where
  client : ClientInterface P
  server : ServerInterface P
  toServer : List (ServerBound P)
  toClient : List (ClientBound P)
  clientNonces : List P.Nonce
  serverNonces : List P.Nonce
  created : List (HandshakeConnection P)
  established : List (HandshakeConnection P)

/-- What a client draws at random, how long it solves a puzzle, and what the program says about the
server's key and its connect data. -/
structure ClientChance (P : HandshakePrimitives) where
  nonce : P.Nonce
  validKey : Bool
  generatedKey : P.PrivateKey
  symmetricKey : P.Block
  iterations : ℕ
  readConnectAccept : Bool

/-- What a server draws at random, and what the program says about the connection class and its
connect data; a refusal may come with an error text. -/
structure ServerChance (P : HandshakePrimitives) where
  initVector : P.Block
  initialSendSeq : U32
  knownClass : Bool
  refusal : Option (Option String)

namespace HandshakeConnection

/-- The connect request of a connection. A key missing here would be a null dereference. -/
def connectRequest (conn : HandshakeConnection P) : Option (ConnectRequest P) :=
  let body := if conn.params.mUsingCrypto then
    match conn.params.mPrivateKey, conn.params.mSharedSecret with
    | some key, some secret => some (.encrypted (P.getPublicKey key) secret
        conn.params.mSymmetricKey conn.params.mDebugObjectSizes conn.mInitialSendSeq)
    | _, _ => none
  else some (.plain conn.params.mDebugObjectSizes conn.mInitialSendSeq)
  body.map fun body =>
    { mNonce := conn.params.mNonce
      mServerNonce := conn.params.mServerNonce
      mClientIdentity := conn.params.mClientIdentity
      mPuzzleDifficulty := conn.params.mPuzzleDifficulty
      mPuzzleSolution := conn.params.mPuzzleSolution
      body := body }

/-- The connect accept packet of a connection. -/
def connectAccept (conn : HandshakeConnection P) : Option (ConnectAccept P) :=
  let body := if conn.params.mUsingCrypto then
    conn.params.mSharedSecret.map fun secret =>
      .encrypted secret conn.mInitialSendSeq conn.params.mInitVector
  else some (.plain conn.mInitialSendSeq)
  body.map fun body =>
    { mNonce := conn.params.mNonce
      mServerNonce := conn.params.mServerNonce
      body := body }

/-- The client's connection after the accept packet has been read. -/
def accepted (conn : HandshakeConnection P) (recvSequence : U32) (mInitVector : Option P.Block) :
    HandshakeConnection P :=
  let conn := match mInitVector with
    | none => conn
    | some v => { conn with
      params := { conn.params with mInitVector := v }
      mSymmetricCipher := some (conn.params.mSymmetricKey, v) }
  { conn with mInitialRecvSeq := recvSequence, mConnectionState := .connected }

end HandshakeConnection

namespace Handshake

def start (nonce lastNonce : P.Nonce) : Handshake P where
  client := ⟨none, none, none⟩
  server :=
    { mPrivateKey := none
      mCertificate := none
      mRequiresKeyExchange := false
      mAllowConnections := true
      mPuzzleManager := ⟨ClientPuzzleManager.initialPuzzleDifficulty, nonce, lastNonce, [], []⟩
      connection := none }
  toServer := []
  toClient := []
  clientNonces := []
  serverNonces := [nonce, lastNonce]
  created := []
  established := []

def setPending (h : Handshake P) (conn : HandshakeConnection P) : Handshake P :=
  { h with client := { h.client with pending := some conn } }

def removePendingConnection (h : Handshake P) : Handshake P :=
  { h with client := { h.client with pending := none } }

section client

def sendConnectChallengeRequest (h : Handshake P) (conn : HandshakeConnection P) : Handshake P :=
  { h.setPending { conn with mConnectSendCount := conn.mConnectSendCount + 1 } with
    toServer := h.toServer ++ [.connectChallengeRequest conn.params.mNonce
      conn.params.mRequestKeyExchange conn.params.mRequestCertificate] }

/-- Starting a connection replaces a pending one and disconnects one to the same address. -/
def startConnection (h : Handshake P) (conn : HandshakeConnection P) : Handshake P :=
  sendConnectChallengeRequest
    { h with
      client := { h.client with connection := none }
      clientNonces := conn.params.mNonce :: h.clientNonces }
    { conn with mConnectSendCount := 0, mConnectionState := .awaitingChallengeResponse }

def sendConnectRequest (h : Handshake P) (conn : HandshakeConnection P) : Option (Handshake P) :=
  conn.connectRequest.map fun r =>
    { h.setPending { conn with mConnectSendCount := conn.mConnectSendCount + 1 } with
      toServer := h.toServer ++ [.connectRequest r] }

def continuePuzzleSolution (h : Handshake P) (conn : HandshakeConnection P) (iterations : ℕ) :
    Option (Handshake P) :=
  let p := conn.params
  let result := ClientPuzzleManager.solvePuzzle (fun solution => P.checkOneSolution solution
    p.mNonce p.mServerNonce p.mPuzzleDifficulty p.mClientIdentity) iterations p.mPuzzleSolution
  let conn := { conn with params := { p with mPuzzleSolution := result.1 } }
  if result.2 then h.sendConnectRequest { conn with mConnectionState := .awaitingConnectResponse }
  else some (h.setPending conn)

/-- Take over the server's key. The second result says whether it is valid. -/
def acceptKey (mPrivateKey : Option P.PrivateKey) (theParams : ConnectionParameters P)
    (x : ClientChance P) : Option (KeyOffer P) → ConnectionParameters P × Bool
  | none => (theParams, true)
  | some offer =>
    let read := match offer with
      | .certificate publicKey =>
        ({ theParams with
          mCertificate := some publicKey
          mPublicKey := if x.validKey then some publicKey else theParams.mPublicKey }, publicKey)
      | .publicKey publicKey => ({ theParams with mPublicKey := some publicKey }, publicKey)
    if x.validKey then
      let key := match mPrivateKey with
        | none => x.generatedKey
        | some key =>
          if P.privateKeySize key ≠ P.publicKeySize read.2 then x.generatedKey else key
      ({ read.1 with
        mPrivateKey := some key
        mSharedSecret := some (P.computeSharedSecretKey key read.2)
        mSymmetricKey := x.symmetricKey
        mUsingCrypto := true }, true)
    else (read.1, false)

def handleConnectChallengeResponse (h : Handshake P) (c : ChallengeResponse P)
    (x : ClientChance P) : Option (Handshake P) :=
  match h.client.pending with
  | none => some h
  | some conn =>
    if conn.mConnectionState ≠ .awaitingChallengeResponse ∨ c.mNonce ≠ conn.params.mNonce then
      some h
    else
      let theParams := { conn.params with
        mClientIdentity := c.mClientIdentity
        mServerNonce := c.mServerNonce
        mPuzzleDifficulty := c.mPuzzleDifficulty }
      if theParams.mPuzzleDifficulty > ClientPuzzleManager.maxPuzzleDifficulty then
        some (h.setPending { conn with params := theParams })
      else
        let result := acceptKey h.client.mPrivateKey theParams x c.key
        if result.2 then
          h.continuePuzzleSolution
            { conn with
              params := { result.1 with mPuzzleSolution := 0 }
              mConnectionState := .computingPuzzleSolution
              mConnectSendCount := 0 } x.iterations
        else some (h.setPending { conn with params := result.1 })

/-- What the client reads from a connect accept packet: the server's send sequence, and when the
connection uses encryption the init vector. -/
def readAccept (theParams : ConnectionParameters P) : AcceptBody P → Option (U32 × Option P.Block)
  | .plain sequence => if theParams.mUsingCrypto then none else some (sequence, none)
  | .encrypted secret sequence mInitVector =>
    if theParams.mUsingCrypto then
      if theParams.mSharedSecret = some secret then some (sequence, some mInitVector) else none
    else some (P.garbled secret sequence mInitVector, none)

def handleConnectAccept (h : Handshake P) (a : ConnectAccept P) (x : ClientChance P) :
    Handshake P :=
  match h.client.pending with
  | none => h
  | some conn =>
    if conn.mConnectionState ≠ .awaitingConnectResponse then h
    else if conn.params.mNonce ≠ a.mNonce ∨ conn.params.mServerNonce ≠ a.mServerNonce then h
    else match readAccept conn.params a.body with
    | none => h
    | some (recvSequence, mInitVector) =>
      if !x.readConnectAccept then h.removePendingConnection
      else
        let conn := conn.accepted recvSequence mInitVector
        { h.removePendingConnection with
          client := { h.client with pending := none, connection := some conn }
          established := h.established ++ [conn] }

/-- A bad puzzle solution is tried once more with a new nonce. -/
def handleConnectReject (h : Handshake P) (nonce serverNonce : P.Nonce) (reason : String)
    (x : ClientChance P) : Handshake P :=
  match h.client.pending with
  | none => h
  | some conn =>
    if conn.mConnectionState ≠ .awaitingChallengeResponse ∧
      conn.mConnectionState ≠ .awaitingConnectResponse then h
    else if conn.params.mNonce ≠ nonce ∨ conn.params.mServerNonce ≠ serverNonce then h
    else if reason = "Puzzle" ∧ conn.params.mPuzzleRetried = false then
      sendConnectChallengeRequest { h with clientNonces := x.nonce :: h.clientNonces }
        { conn with
          params := { conn.params with mPuzzleRetried := true, mNonce := x.nonce }
          mConnectionState := .awaitingChallengeResponse
          mConnectSendCount := 0 }
    else h.removePendingConnection

def retryCount : ℕ := 4

/-- A pending connection has waited for the retry time, or has been solving its puzzle for too
long. -/
def timeout (h : Handshake P) : Option (Handshake P) :=
  match h.client.pending with
  | none => some h
  | some conn =>
    match conn.mConnectionState with
    | .awaitingChallengeResponse =>
      if conn.mConnectSendCount > retryCount then some h.removePendingConnection
      else some (h.sendConnectChallengeRequest conn)
    | .awaitingConnectResponse =>
      if conn.mConnectSendCount > retryCount then some h.removePendingConnection
      else h.sendConnectRequest conn
    | .computingPuzzleSolution => some h.removePendingConnection
    | _ => some h

def receiveAtClient (h : Handshake P) (x : ClientChance P) : ClientBound P → Option (Handshake P)
  | .connectChallengeResponse c => h.handleConnectChallengeResponse c x
  | .connectAccept a => some (h.handleConnectAccept a x)
  | .connectReject nonce serverNonce reason =>
    some (h.handleConnectReject nonce serverNonce reason x)

end client

section server

def toClientOnly (h : Handshake P) (m : ClientBound P) : Handshake P :=
  { h with toClient := h.toClient ++ [m] }

/-- Key exchange that is required without a private key would be a null dereference. -/
def handleConnectChallengeRequest (h : Handshake P) (clientNonce : P.Nonce)
    (wantsKeyExchange wantsCertificate : Bool) : Option (Handshake P) :=
  let s := h.server
  if !s.mAllowConnections then some h
  else
    let key : Option (Option (KeyOffer P)) :=
      if s.mRequiresKeyExchange || (wantsKeyExchange && s.mPrivateKey.isSome) then
        match s.mCertificate with
        | some certificate =>
          if wantsCertificate then some (some (.certificate certificate))
          else s.mPrivateKey.map fun key => some (.publicKey (P.getPublicKey key))
        | none => s.mPrivateKey.map fun key => some (.publicKey (P.getPublicKey key))
      else some none
    key.map fun key => h.toClientOnly (.connectChallengeResponse
      { mNonce := clientNonce
        mClientIdentity := P.computeClientIdentityToken clientNonce
        mServerNonce := s.mPuzzleManager.mCurrentNonce
        mPuzzleDifficulty := s.mPuzzleManager.mCurrentDifficulty
        key := key })

def sendConnectAccept (h : Handshake P) (conn : HandshakeConnection P) : Option (Handshake P) :=
  conn.connectAccept.map fun a => h.toClientOnly (.connectAccept a)

/-- What the server reads from the body of a connect request: the connection parameters and the
client's send sequence. -/
def readRequest (mPrivateKey : Option P.PrivateKey) (r : ConnectRequest P) (x : ServerChance P) :
    Option (ConnectionParameters P × U32) :=
  let theParams := { (HandshakeConnection.new (P := P) r.mNonce 0 false false false).params with
    mServerNonce := r.mServerNonce
    mClientIdentity := r.mClientIdentity
    mPuzzleDifficulty := r.mPuzzleDifficulty
    mPuzzleSolution := r.mPuzzleSolution }
  match r.body with
  | .plain mDebugObjectSizes sequence =>
    some ({ theParams with mDebugObjectSizes := mDebugObjectSizes }, sequence)
  | .encrypted publicKey secret mSymmetricKey mDebugObjectSizes sequence =>
    match mPrivateKey with
    | none => none
    | some key =>
      if P.computeSharedSecretKey key publicKey = secret then
        some ({ theParams with
          mUsingCrypto := true
          mPublicKey := some publicKey
          mPrivateKey := some key
          mSharedSecret := some (P.computeSharedSecretKey key publicKey)
          mSymmetricKey := mSymmetricKey
          mInitVector := x.initVector
          mDebugObjectSizes := mDebugObjectSizes }, sequence)
      else none

def createConnection (theParams : ConnectionParameters P) (connectSequence : U32)
    (x : ServerChance P) : HandshakeConnection P where
  params := theParams
  mConnectionState := .connected
  mConnectSendCount := 0
  mInitialSendSeq := x.initialSendSeq
  mInitialRecvSeq := connectSequence
  mSymmetricCipher :=
    if theParams.mUsingCrypto then some (theParams.mSymmetricKey, theParams.mInitVector) else none

/-- A connect request that does not repeat the one of the present connection. -/
def handleNewRequest (h : Handshake P) (r : ConnectRequest P) (x : ServerChance P) :
    Option (Handshake P) :=
  let result := h.server.mPuzzleManager.checkSolution r.mPuzzleSolution r.mNonce r.mServerNonce
    r.mPuzzleDifficulty r.mClientIdentity
  let h := { h with server := { h.server with mPuzzleManager := result.2 } }
  if result.1 ≠ .success then
    some (h.toClientOnly (.connectReject r.mNonce r.mServerNonce "Puzzle"))
  else match readRequest h.server.mPrivateKey r x with
  | none => some h
  | some (theParams, connectSequence) =>
    -- a connection with other nonces is disconnected
    let h := { h with server := { h.server with connection := none } }
    if !x.knownClass then some h
    else
      let conn := createConnection theParams connectSequence x
      match x.refusal with
      | some none => some h
      | some (some reason) => some (h.toClientOnly (.connectReject r.mNonce r.mServerNonce reason))
      | none => sendConnectAccept
          { h with
            server := { h.server with connection := some conn }
            created := h.created ++ [conn] } conn

def handleConnectRequest (h : Handshake P) (r : ConnectRequest P) (x : ServerChance P) :
    Option (Handshake P) :=
  if !h.server.mAllowConnections then some h
  else if r.mClientIdentity ≠ P.computeClientIdentityToken r.mNonce then some h
  else match h.server.connection with
  | none => h.handleNewRequest r x
  | some connect =>
    if connect.params.mNonce = r.mNonce ∧ connect.params.mServerNonce = r.mServerNonce then
      h.sendConnectAccept connect
    else h.handleNewRequest r x

def receiveAtServer (h : Handshake P) (x : ServerChance P) : ServerBound P → Option (Handshake P)
  | .connectChallengeRequest nonce wantsKeyExchange wantsCertificate =>
    h.handleConnectChallengeRequest nonce wantsKeyExchange wantsCertificate
  | .connectRequest r => h.handleConnectRequest r x

end server

inductive Action (P : HandshakePrimitives) where
  | startConnection (nonce : P.Nonce) (initialSendSeq : U32)
      (requestKeyExchange requestCertificate debugObjectSizes : Bool)
  | timeout
  | continuePuzzleSolution (iterations : ℕ)
  | clientReceives (index : ℕ) (x : ClientChance P)
  | serverReceives (index : ℕ) (x : ServerChance P)
  | tick (nonce : P.Nonce)
  | setClientKey (key : Option P.PrivateKey)
  | configureServer (key : Option P.PrivateKey) (certificate : Option P.PublicKey)
      (requiresKeyExchange allowConnections : Bool)
  | endClientConnection
  | endServerConnection

def step (h : Handshake P) : Action P → Option (Handshake P)
  | .startConnection nonce initialSendSeq requestKeyExchange requestCertificate debugObjectSizes =>
    some (h.startConnection (.new nonce initialSendSeq requestKeyExchange requestCertificate
      debugObjectSizes))
  | .timeout => h.timeout
  | .continuePuzzleSolution iterations =>
    match h.client.pending with
    | none => some h
    | some conn =>
      if conn.mConnectionState = .computingPuzzleSolution then
        h.continuePuzzleSolution conn iterations
      else some h
  | .clientReceives index x => h.toClient[index]?.bind (h.receiveAtClient x)
  | .serverReceives index x => h.toServer[index]?.bind (h.receiveAtServer x)
  | .tick nonce => some { h with
      server := { h.server with mPuzzleManager := h.server.mPuzzleManager.tick nonce }
      serverNonces := nonce :: h.serverNonces }
  | .setClientKey key => some { h with client := { h.client with mPrivateKey := key } }
  | .configureServer key certificate requiresKeyExchange allowConnections => some { h with
      server := { h.server with
        mPrivateKey := key
        mCertificate := certificate
        mRequiresKeyExchange := requiresKeyExchange
        mAllowConnections := allowConnections } }
  | .endClientConnection => some { h with client := { h.client with connection := none } }
  | .endServerConnection => some { h with server := { h.server with connection := none } }

/-- Nonces are never drawn twice. -/
def Fresh (h : Handshake P) : Action P → Prop
  | .startConnection nonce _ _ _ _ => nonce ∉ h.clientNonces
  | .clientReceives _ x => x.nonce ∉ h.clientNonces
  | .tick nonce => nonce ∉ h.serverNonces
  | _ => True

end Handshake

end TNL
