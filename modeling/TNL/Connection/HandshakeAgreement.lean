import TNL.Connection.Handshake

/-!
# What the handshake agrees on

A client nonce is in at most one state at a time: as long as the pending
connection has not solved its puzzle no request carries its nonce, and from then
on every request that does repeats the same connection parameters. The server
creates at most one connection for a pair of nonces, since the nonce tables
remember the client nonces of the two server nonces that are still valid.
-/
namespace TNL
open Library

variable {P : HandshakePrimitives}

/-- The server created `s` from this request. -/
structure ConnectRequest.CreatedBy (r : ConnectRequest P) (s : HandshakeConnection P) : Prop where
  nonce : s.params.mNonce = r.mNonce
  serverNonce : s.params.mServerNonce = r.mServerNonce
  body : match r.body with
    | .plain _ sequence => s.params.mUsingCrypto = false ∧ s.mInitialRecvSeq = sequence
    | .encrypted _ secret mSymmetricKey _ sequence => s.params.mUsingCrypto = true ∧
        s.params.mSharedSecret = some secret ∧ s.params.mSymmetricKey = mSymmetricKey ∧
          s.mSymmetricCipher = some (mSymmetricKey, s.params.mInitVector) ∧
            s.mInitialRecvSeq = sequence

namespace HandshakeConnection

/-- Both ends are for the same pair of nonces. -/
def SameNonces (c s : HandshakeConnection P) : Prop :=
  c.params.mNonce = s.params.mNonce ∧ c.params.mServerNonce = s.params.mServerNonce

/-- The client's end `c` and the server's end `s` of a connection agree. -/
structure Agrees (c s : HandshakeConnection P) : Prop where
  nonces : c.SameNonces s
  recv : c.mInitialRecvSeq = s.mInitialSendSeq
  send : s.mInitialRecvSeq = c.mInitialSendSeq
  crypto : c.params.mUsingCrypto = s.params.mUsingCrypto
  secret : c.params.mUsingCrypto = true → c.params.mSharedSecret.isSome ∧
    c.params.mSharedSecret = s.params.mSharedSecret
  symmetricKey : c.params.mUsingCrypto = true → c.params.mSymmetricKey = s.params.mSymmetricKey
  initVector : c.params.mUsingCrypto = true → c.params.mInitVector = s.params.mInitVector
  cipher : c.params.mUsingCrypto = true → c.mSymmetricCipher.isSome ∧
    c.mSymmetricCipher = s.mSymmetricCipher

variable {conn s : HandshakeConnection P} {r : ConnectRequest P} {a : ConnectAccept P}

theorem connectRequest_nonces (h : conn.connectRequest = some r) :
    r.mNonce = conn.params.mNonce ∧ r.mServerNonce = conn.params.mServerNonce := by
  rcases Option.map_eq_some_iff.mp h with ⟨body, -, rfl⟩
  exact ⟨rfl, rfl⟩

theorem connectAccept_nonces (h : s.connectAccept = some a) :
    a.mNonce = s.params.mNonce ∧ a.mServerNonce = s.params.mServerNonce := by
  rcases Option.map_eq_some_iff.mp h with ⟨body, -, rfl⟩
  exact ⟨rfl, rfl⟩

/-- An accept packet of the connection that was created from the client's request. -/
theorem agrees_of_accept (hrequest : conn.connectRequest = some r) (hcreated : r.CreatedBy s)
    (haccept : s.connectAccept = some a) (hserver : conn.params.mServerNonce = a.mServerNonce)
    {recvSequence : U32} {mInitVector : Option P.Block}
    (hread : Handshake.readAccept conn.params a.body = some (recvSequence, mInitVector)) :
    (conn.accepted recvSequence mInitVector).Agrees s := by
  have hnonces := connectRequest_nonces hrequest
  have hanonces := connectAccept_nonces haccept
  have hnonce : conn.params.mNonce = s.params.mNonce := hnonces.1.symm.trans hcreated.nonce.symm
  have hserverNonce : conn.params.mServerNonce = s.params.mServerNonce :=
    hserver.trans hanonces.2
  rcases Option.map_eq_some_iff.mp hrequest with ⟨rbody, hrbody, rfl⟩
  rcases Option.map_eq_some_iff.mp haccept with ⟨abody, habody, rfl⟩
  have hbody := hcreated.body
  cases hcrypto : conn.params.mUsingCrypto with
  | false =>
    simp only [hcrypto, Bool.false_eq_true, if_false, Option.some.injEq] at hrbody
    subst hrbody
    rcases hbody with ⟨hplain, hrecv⟩
    simp only [hplain, Bool.false_eq_true, if_false, Option.some.injEq] at habody
    subst habody
    simp only [Handshake.readAccept, hcrypto, Bool.false_eq_true, if_false, Option.some.injEq,
      Prod.mk.injEq] at hread
    rcases hread with ⟨rfl, rfl⟩
    have hoff : conn.params.mUsingCrypto ≠ true := by simp [hcrypto]
    constructor
    · exact ⟨hnonce, hserverNonce⟩
    · rfl
    · exact hrecv
    · exact hcrypto.trans hplain.symm
    · exact fun hon => absurd hon hoff
    · exact fun hon => absurd hon hoff
    · exact fun hon => absurd hon hoff
    · exact fun hon => absurd hon hoff
  | true =>
    cases hkey : conn.params.mPrivateKey with
    | none => simp [hcrypto, hkey] at hrbody
    | some key =>
      cases hsecret : conn.params.mSharedSecret with
      | none => simp [hcrypto, hkey, hsecret] at hrbody
      | some secret =>
        simp only [hcrypto, hkey, hsecret, if_true, Option.some.injEq] at hrbody
        subst hrbody
        rcases hbody with ⟨hon, hshared, hsymmetric, hcipher, hrecv⟩
        simp only [hon, hshared, if_true, Option.map_some, Option.some.injEq] at habody
        subst habody
        simp only [Handshake.readAccept, hcrypto, hsecret, if_true, Option.some.injEq,
          Prod.mk.injEq] at hread
        rcases hread with ⟨rfl, rfl⟩
        constructor
        · exact ⟨hnonce, hserverNonce⟩
        · rfl
        · exact hrecv
        · exact hcrypto.trans hon.symm
        · intro _
          change conn.params.mSharedSecret.isSome ∧ conn.params.mSharedSecret = _
          rw [hsecret, hshared]
          exact ⟨rfl, rfl⟩
        · exact fun _ => hsymmetric.symm
        · exact fun _ => rfl
        · exact fun _ => ⟨rfl, hcipher.symm⟩

end HandshakeConnection

namespace Handshake
open HandshakeConnection

/-- What holds of the pending connection: its nonce has been drawn, and the requests that carry it
are the connection's own. -/
structure PendingSound (h : Handshake P) (p : HandshakeConnection P) : Prop where
  drawn : p.params.mNonce ∈ h.clientNonces
  requests : ∀ r, .connectRequest r ∈ h.toServer → r.mNonce = p.params.mNonce →
    p.mConnectionState = .awaitingConnectResponse ∧ p.connectRequest = some r

structure Sound (h : Handshake P) : Prop where
  drawn : ∀ r, .connectRequest r ∈ h.toServer → r.mNonce ∈ h.clientNonces
  pending : ∀ p, h.client.pending = some p → h.PendingSound p
  created : ∀ s ∈ h.created, ∃ r, .connectRequest r ∈ h.toServer ∧ r.CreatedBy s
  unique : ∀ s ∈ h.created, ∀ t ∈ h.created, s.SameNonces t → s = t
  accepts : ∀ a, .connectAccept a ∈ h.toClient → ∃ s ∈ h.created, s.connectAccept = some a
  serverConnection : ∀ s, h.server.connection = some s → s ∈ h.created
  serverNonces : ∀ s ∈ h.created, s.params.mServerNonce ∈ h.serverNonces
  current : h.server.mPuzzleManager.mCurrentNonce ∈ h.serverNonces
  last : h.server.mPuzzleManager.mLastNonce ∈ h.serverNonces
  inCurrent : ∀ s ∈ h.created, s.params.mServerNonce = h.server.mPuzzleManager.mCurrentNonce →
    s.params.mNonce ∈ h.server.mPuzzleManager.mCurrentNonceTable
  inLast : ∀ s ∈ h.created, s.params.mServerNonce ≠ h.server.mPuzzleManager.mCurrentNonce →
    s.params.mServerNonce = h.server.mPuzzleManager.mLastNonce →
      s.params.mNonce ∈ h.server.mPuzzleManager.mLastNonceTable
  established : ∀ c ∈ h.established, ∃ s ∈ h.created, c.Agrees s
  clientConnection : ∀ c, h.client.connection = some c → c ∈ h.established

theorem start_sound (nonce lastNonce : P.Nonce) : (start nonce lastNonce).Sound := by
  constructor <;> simp [start]

section client

variable {h h' : Handshake P} {conn : HandshakeConnection P}

/-- Before the puzzle is solved no request carries the nonce of the pending connection. -/
theorem PendingSound.no_requests (hp : h.PendingSound conn)
    (hstate : conn.mConnectionState ≠ .awaitingConnectResponse) :
    ∀ r, .connectRequest r ∈ h.toServer → r.mNonce ≠ conn.params.mNonce :=
  fun r hr heq => hstate (hp.requests r hr heq).1

/-- Changing the client's own records. -/
theorem Sound.withClient (hs : h.Sound) {client : ClientInterface P}
    (hpending : ∀ p, client.pending = some p → h.PendingSound p)
    (hconnection : ∀ c, client.connection = some c → c ∈ h.established) :
    Sound { h with client := client } where
  drawn := hs.drawn
  pending p hp := ⟨(hpending p hp).drawn, (hpending p hp).requests⟩
  created := hs.created
  unique := hs.unique
  accepts := hs.accepts
  serverConnection := hs.serverConnection
  serverNonces := hs.serverNonces
  current := hs.current
  last := hs.last
  inCurrent := hs.inCurrent
  inLast := hs.inLast
  established := hs.established
  clientConnection := hconnection

theorem Sound.setPending (hs : h.Sound) (hp : h.PendingSound conn) : (h.setPending conn).Sound := by
  apply hs.withClient
  · intro p heq
    obtain rfl := Option.some.inj heq
    exact hp
  · exact hs.clientConnection

theorem Sound.removePendingConnection (hs : h.Sound) : h.removePendingConnection.Sound :=
  hs.withClient (fun _ hp => absurd hp (by simp)) hs.clientConnection

/-- Sending a challenge request. -/
theorem Sound.sendConnectChallengeRequest (hs : h.Sound) (hp : h.PendingSound conn) :
    (h.sendConnectChallengeRequest conn).Sound := by
  have hset : (h.setPending { conn with mConnectSendCount := conn.mConnectSendCount + 1 }).Sound :=
    hs.setPending ⟨hp.drawn, hp.requests⟩
  have hrequest : ∀ r, .connectRequest r ∈ h.toServer ++ [.connectChallengeRequest
      conn.params.mNonce conn.params.mRequestKeyExchange conn.params.mRequestCertificate] →
        .connectRequest r ∈ h.toServer := by
    intro r hr
    simpa using hr
  refine { hset with
    drawn := fun r hr => hs.drawn r (hrequest r hr)
    pending := ?_
    created := ?_ }
  · intro p heq
    have hold := hset.pending p heq
    exact ⟨hold.drawn, fun r hr => hold.requests r (hrequest r hr)⟩
  · intro s hmem
    rcases hs.created s hmem with ⟨r, hr, hcreated⟩
    exact ⟨r, List.mem_append_left _ hr, hcreated⟩

/-- Sending a connect request, which repeats the earlier ones for its nonce. -/
theorem Sound.sendConnectRequest (hs : h.Sound)
    (hdrawn : conn.params.mNonce ∈ h.clientNonces)
    (hstate : conn.mConnectionState = .awaitingConnectResponse)
    (hrequests : ∀ r, .connectRequest r ∈ h.toServer → r.mNonce = conn.params.mNonce →
      conn.connectRequest = some r)
    (hsend : h.sendConnectRequest conn = some h') : h'.Sound := by
  rcases Option.map_eq_some_iff.mp hsend with ⟨request, hrequest, rfl⟩
  have hset : (h.setPending { conn with mConnectSendCount := conn.mConnectSendCount + 1 }).Sound :=
    hs.setPending ⟨hdrawn, fun r hr heq => ⟨hstate, hrequests r hr heq⟩⟩
  refine { hset with drawn := ?_, pending := ?_, created := ?_ }
  · intro r hr
    rcases List.mem_append.mp hr with hold | hnew
    · exact hs.drawn r hold
    · obtain rfl : r = request := by simpa using hnew
      rw [(connectRequest_nonces hrequest).1]
      exact hdrawn
  · intro p heq
    have hold := hset.pending p heq
    refine ⟨hold.drawn, ?_⟩
    intro r hr hnonce
    rcases List.mem_append.mp hr with hearlier | hnew
    · exact hold.requests r hearlier hnonce
    · obtain rfl : r = request := by simpa using hnew
      obtain rfl := Option.some.inj heq
      exact ⟨hstate, hrequest⟩
  · intro s hmem
    rcases hs.created s hmem with ⟨r, hr, hcreated⟩
    exact ⟨r, List.mem_append_left _ hr, hcreated⟩

/-- Drawing a client nonce. -/
theorem Sound.draw (hs : h.Sound) (nonce : P.Nonce) :
    Sound { h with clientNonces := nonce :: h.clientNonces } where
  drawn r hr := List.mem_cons_of_mem _ (hs.drawn r hr)
  pending p hp := ⟨List.mem_cons_of_mem _ (hs.pending p hp).drawn, (hs.pending p hp).requests⟩
  created := hs.created
  unique := hs.unique
  accepts := hs.accepts
  serverConnection := hs.serverConnection
  serverNonces := hs.serverNonces
  current := hs.current
  last := hs.last
  inCurrent := hs.inCurrent
  inLast := hs.inLast
  established := hs.established
  clientConnection := hs.clientConnection

theorem Sound.startConnection (hs : h.Sound) (hfresh : conn.params.mNonce ∉ h.clientNonces) :
    (h.startConnection conn).Sound := by
  have hdisconnected : Sound { h with client := { h.client with connection := none } } :=
    hs.withClient hs.pending (fun c hc => absurd hc (by simp))
  apply (hdisconnected.draw conn.params.mNonce).sendConnectChallengeRequest
  refine ⟨List.mem_cons_self, ?_⟩
  intro r hr heq
  exact absurd (heq ▸ hs.drawn r hr) hfresh

theorem Sound.continuePuzzleSolution (hs : h.Sound) (hp : h.PendingSound conn)
    (hstate : conn.mConnectionState = .computingPuzzleSolution) {iterations : ℕ}
    (hstep : h.continuePuzzleSolution conn iterations = some h') : h'.Sound := by
  have hnone := hp.no_requests (by rw [hstate]; decide)
  rw [Handshake.continuePuzzleSolution] at hstep
  dsimp only at hstep
  split_ifs at hstep
  · apply hs.sendConnectRequest _ _ _ hstep
    · exact hp.drawn
    · rfl
    · exact fun r hr heq => absurd heq (hnone r hr)
  · obtain rfl := Option.some.inj hstep
    exact hs.setPending ⟨hp.drawn, fun r hr heq => absurd heq (hnone r hr)⟩

theorem acceptKey_nonce (mPrivateKey : Option P.PrivateKey) (theParams : ConnectionParameters P)
    (x : ClientChance P) (offer : Option (KeyOffer P)) :
    (acceptKey mPrivateKey theParams x offer).1.mNonce = theParams.mNonce := by
  cases offer with
  | none => rfl
  | some offer => cases offer <;> simp only [acceptKey] <;> split_ifs <;> rfl

theorem Sound.handleConnectChallengeResponse (hs : h.Sound) {c : ChallengeResponse P}
    {x : ClientChance P} (hstep : h.handleConnectChallengeResponse c x = some h') : h'.Sound := by
  rw [Handshake.handleConnectChallengeResponse] at hstep
  cases hpending : h.client.pending with
  | none =>
    rw [hpending] at hstep
    exact Option.some.inj hstep ▸ hs
  | some conn =>
    have hp := hs.pending conn hpending
    simp only [hpending] at hstep
    split_ifs at hstep with hskip hdifficulty hvalid
    · exact Option.some.inj hstep ▸ hs
    all_goals
      have hstate : conn.mConnectionState = .awaitingChallengeResponse :=
        not_not.mp fun hne => hskip (.inl hne)
      have hnone := hp.no_requests (by rw [hstate]; decide)
    · obtain rfl := Option.some.inj hstep
      exact hs.setPending ⟨hp.drawn, fun r hr heq => absurd heq (hnone r hr)⟩
    · apply hs.continuePuzzleSolution _ _ hstep
      · refine ⟨?_, ?_⟩
        · dsimp only
          rw [acceptKey_nonce]
          exact hp.drawn
        · intro r hr heq
          dsimp only at heq
          rw [acceptKey_nonce] at heq
          exact absurd heq (hnone r hr)
      · rfl
    · obtain rfl := Option.some.inj hstep
      refine hs.setPending ⟨?_, ?_⟩
      · dsimp only
        rw [acceptKey_nonce]
        exact hp.drawn
      · intro r hr heq
        dsimp only at heq
        rw [acceptKey_nonce] at heq
        exact absurd heq (hnone r hr)

theorem Sound.handleConnectAccept (hs : h.Sound) {a : ConnectAccept P} {x : ClientChance P}
    (ha : .connectAccept a ∈ h.toClient) : (h.handleConnectAccept a x).Sound := by
  rw [Handshake.handleConnectAccept]
  cases hpending : h.client.pending with
  | none => exact hs
  | some conn =>
    have hp := hs.pending conn hpending
    cases hread : readAccept conn.params a.body with
    | none =>
      simp only [hread]
      split_ifs <;> exact hs
    | some result =>
      rcases result with ⟨recvSequence, mInitVector⟩
      simp only [hread]
      split_ifs with hstate hnonces
      · exact hs
      · exact hs
      · exact hs.removePendingConnection
      · rw [not_or, not_not, not_not] at hnonces
        rcases hs.accepts a ha with ⟨s, hmem, haccept⟩
        rcases hs.created s hmem with ⟨r, hr, hcreated⟩
        -- the request the server answered is the pending connection's own
        have hnonce : r.mNonce = conn.params.mNonce :=
          (hcreated.nonce.symm.trans (connectAccept_nonces haccept).1.symm).trans hnonces.1.symm
        have hagrees := agrees_of_accept (hp.requests r hr hnonce).2 hcreated haccept hnonces.2
          hread
        refine { hs with pending := ?_, established := ?_, clientConnection := ?_ }
        · intro p hnone
          cases hnone
        · intro c hc
          rcases List.mem_append.mp hc with hold | hnew
          · exact hs.established c hold
          · rw [List.mem_singleton.mp hnew]
            exact ⟨s, hmem, hagrees⟩
        · intro c hc
          rw [← Option.some.inj hc]
          exact List.mem_append_right _ (List.mem_singleton_self _)

theorem Sound.handleConnectReject (hs : h.Sound) {nonce serverNonce : P.Nonce} {reason : String}
    {x : ClientChance P} (hfresh : x.nonce ∉ h.clientNonces) :
    (h.handleConnectReject nonce serverNonce reason x).Sound := by
  rw [Handshake.handleConnectReject]
  cases hpending : h.client.pending with
  | none => exact hs
  | some conn =>
    dsimp only
    split_ifs
    · exact hs
    · exact hs
    · apply (hs.draw x.nonce).sendConnectChallengeRequest
      refine ⟨List.mem_cons_self, ?_⟩
      intro r hr heq
      have hdrawn := hs.drawn r hr
      rw [heq] at hdrawn
      exact absurd hdrawn hfresh
    · exact hs.removePendingConnection

theorem Sound.timeout (hs : h.Sound) (hstep : h.timeout = some h') : h'.Sound := by
  rw [Handshake.timeout] at hstep
  cases hpending : h.client.pending with
  | none =>
    rw [hpending] at hstep
    exact Option.some.inj hstep ▸ hs
  | some conn =>
    have hp := hs.pending conn hpending
    simp only [hpending] at hstep
    cases hstate : conn.mConnectionState with
    | awaitingChallengeResponse =>
      simp only [hstate] at hstep
      split_ifs at hstep
      · exact Option.some.inj hstep ▸ hs.removePendingConnection
      · exact Option.some.inj hstep ▸ hs.sendConnectChallengeRequest hp
    | awaitingConnectResponse =>
      simp only [hstate] at hstep
      split_ifs at hstep
      · exact Option.some.inj hstep ▸ hs.removePendingConnection
      · exact hs.sendConnectRequest hp.drawn hstate (fun r hr heq => (hp.requests r hr heq).2)
          hstep
    | computingPuzzleSolution =>
      simp only [hstate] at hstep
      exact Option.some.inj hstep ▸ hs.removePendingConnection
    | notConnected =>
      simp only [hstate] at hstep
      exact Option.some.inj hstep ▸ hs
    | connected =>
      simp only [hstate] at hstep
      exact Option.some.inj hstep ▸ hs

end client

section server

variable {h h' : Handshake P} {r : ConnectRequest P} {x : ServerChance P}

theorem checkSolution_cases (m : ClientPuzzleManager P) (solution : U32)
    (clientNonce serverNonce : P.Nonce) (puzzleDifficulty clientIdentity : U32) :
    let result := m.checkSolution solution clientNonce serverNonce puzzleDifficulty clientIdentity
    result.1 ≠ .success ∧ result.2 = m ∨
      result.1 = .success ∧ serverNonce = m.mCurrentNonce ∧ clientNonce ∉ m.mCurrentNonceTable ∧
        result.2 = { m with mCurrentNonceTable := clientNonce :: m.mCurrentNonceTable } ∨
      result.1 = .success ∧ serverNonce ≠ m.mCurrentNonce ∧ serverNonce = m.mLastNonce ∧
        clientNonce ∉ m.mLastNonceTable ∧
          result.2 = { m with mLastNonceTable := clientNonce :: m.mLastNonceTable } := by
  dsimp only
  rw [ClientPuzzleManager.checkSolution]
  dsimp only
  split_ifs with hdifficulty hcurrent hsolved hold hlast hsolved hold
  · exact .inl ⟨by simp, rfl⟩
  · exact .inl ⟨by simp, rfl⟩
  · exact .inl ⟨by simp, rfl⟩
  · exact .inr (.inl ⟨rfl, hcurrent, hold, rfl⟩)
  · exact .inl ⟨by simp, rfl⟩
  · exact .inl ⟨by simp, rfl⟩
  · exact .inr (.inr ⟨rfl, hcurrent, hlast, hold, rfl⟩)
  · exact .inl ⟨by simp, rfl⟩

/-- Changing the server's records except for the nonces of its puzzles. -/
theorem Sound.withServer (hs : h.Sound) {server : ServerInterface P}
    (hconnection : ∀ s, server.connection = some s → s ∈ h.created)
    (hcurrent : server.mPuzzleManager.mCurrentNonce = h.server.mPuzzleManager.mCurrentNonce)
    (hlast : server.mPuzzleManager.mLastNonce = h.server.mPuzzleManager.mLastNonce)
    (hcurrentTable : h.server.mPuzzleManager.mCurrentNonceTable ⊆
      server.mPuzzleManager.mCurrentNonceTable)
    (hlastTable : h.server.mPuzzleManager.mLastNonceTable ⊆
      server.mPuzzleManager.mLastNonceTable) :
    Sound { h with server := server } where
  drawn := hs.drawn
  pending p hp := ⟨(hs.pending p hp).drawn, (hs.pending p hp).requests⟩
  created := hs.created
  unique := hs.unique
  accepts := hs.accepts
  serverConnection := hconnection
  serverNonces := hs.serverNonces
  current := hcurrent ▸ hs.current
  last := hlast ▸ hs.last
  inCurrent s hmem heq := hcurrentTable (hs.inCurrent s hmem (heq.trans hcurrent))
  inLast s hmem hne heq :=
    hlastTable (hs.inLast s hmem (fun hcur => hne (hcur.trans hcurrent.symm)) (heq.trans hlast))
  established := hs.established
  clientConnection := hs.clientConnection

theorem Sound.toClientOnly (hs : h.Sound) {m : ClientBound P}
    (hm : ∀ a, m = .connectAccept a → ∃ s ∈ h.created, s.connectAccept = some a) :
    (h.toClientOnly m).Sound := by
  refine { hs with pending := ?_, accepts := ?_ }
  · exact fun p hp => ⟨(hs.pending p hp).drawn, (hs.pending p hp).requests⟩
  · intro a ha
    rcases List.mem_append.mp ha with hold | hnew
    · exact hs.accepts a hold
    · exact hm a (List.mem_singleton.mp hnew).symm

theorem Sound.sendConnectAccept (hs : h.Sound) {s : HandshakeConnection P} (hmem : s ∈ h.created)
    (hsend : h.sendConnectAccept s = some h') : h'.Sound := by
  rcases Option.map_eq_some_iff.mp hsend with ⟨a, haccept, rfl⟩
  apply hs.toClientOnly
  intro b hb
  obtain rfl := ClientBound.connectAccept.inj hb
  exact ⟨s, hmem, haccept⟩

theorem createdBy_of_readRequest {key : Option P.PrivateKey} {theParams : ConnectionParameters P}
    {sequence : U32} (hread : readRequest key r x = some (theParams, sequence)) :
    r.CreatedBy (createConnection theParams sequence x) := by
  rw [readRequest] at hread
  cases hbody : r.body with
  | plain mDebugObjectSizes initialSendSequence =>
    simp only [hbody, Option.some.injEq, Prod.mk.injEq] at hread
    rcases hread with ⟨rfl, rfl⟩
    constructor
    · rfl
    · rfl
    · rw [hbody]
      exact ⟨rfl, rfl⟩
  | encrypted publicKey secret mSymmetricKey mDebugObjectSizes initialSendSequence =>
    cases key with
    | none => simp [hbody] at hread
    | some key =>
      simp only [hbody] at hread
      split_ifs at hread with hsecret
      simp only [Option.some.injEq, Prod.mk.injEq] at hread
      rcases hread with ⟨rfl, rfl⟩
      constructor
      · rfl
      · rfl
      · rw [hbody]
        exact ⟨rfl, congrArg some hsecret, rfl, rfl, rfl⟩

/-- Creating a connection for a new pair of nonces. -/
theorem Sound.create (hs : h.Sound) {conn : HandshakeConnection P}
    (hr : .connectRequest r ∈ h.toServer) (hcreated : r.CreatedBy conn)
    (hnew : ∀ s ∈ h.created, ¬ s.SameNonces conn)
    (hserverNonce : conn.params.mServerNonce ∈ h.serverNonces)
    (hinCurrent : conn.params.mServerNonce = h.server.mPuzzleManager.mCurrentNonce →
      conn.params.mNonce ∈ h.server.mPuzzleManager.mCurrentNonceTable)
    (hinLast : conn.params.mServerNonce ≠ h.server.mPuzzleManager.mCurrentNonce →
      conn.params.mServerNonce = h.server.mPuzzleManager.mLastNonce →
        conn.params.mNonce ∈ h.server.mPuzzleManager.mLastNonceTable) :
    Sound { h with
      server := { h.server with connection := some conn }
      created := h.created ++ [conn] } := by
  have hsplit : ∀ {p : HandshakeConnection P → Prop}, (∀ s ∈ h.created, p s) → p conn →
      ∀ s ∈ h.created ++ [conn], p s := by
    intro p hold hlast s hmem
    rcases List.mem_append.mp hmem with hs | hs
    · exact hold s hs
    · rw [List.mem_singleton.mp hs]
      exact hlast
  have hkeep : ∀ {p : HandshakeConnection P → Prop}, (∃ s ∈ h.created, p s) →
      ∃ s ∈ h.created ++ [conn], p s :=
    fun ⟨s, hmem, hp⟩ => ⟨s, List.mem_append_left _ hmem, hp⟩
  constructor
  · exact hs.drawn
  · exact fun p hp => ⟨(hs.pending p hp).drawn, (hs.pending p hp).requests⟩
  · exact hsplit hs.created ⟨r, hr, hcreated⟩
  · apply hsplit
    · intro s hmem
      apply hsplit (hs.unique s hmem)
      exact fun hsame => absurd hsame (hnew s hmem)
    · apply hsplit
      · exact fun s hmem hsame => absurd ⟨hsame.1.symm, hsame.2.symm⟩ (hnew s hmem)
      · exact fun _ => rfl
  · exact fun a ha => hkeep (hs.accepts a ha)
  · intro s heq
    rw [← Option.some.inj heq]
    exact List.mem_append_right _ (List.mem_singleton_self _)
  · exact hsplit hs.serverNonces hserverNonce
  · exact hs.current
  · exact hs.last
  · exact hsplit hs.inCurrent hinCurrent
  · exact hsplit hs.inLast hinLast
  · exact fun c hc => hkeep (hs.established c hc)
  · exact hs.clientConnection

/-- The server has used up the nonce pair of a connection it created. -/
theorem Sound.solution_refused (hs : h.Sound) {s : HandshakeConnection P} (hmem : s ∈ h.created)
    (hnonce : s.params.mNonce = r.mNonce) (hserverNonce : s.params.mServerNonce = r.mServerNonce) :
    (h.server.mPuzzleManager.checkSolution r.mPuzzleSolution r.mNonce r.mServerNonce
      r.mPuzzleDifficulty r.mClientIdentity).1 ≠ .success ∧
    (h.server.mPuzzleManager.checkSolution r.mPuzzleSolution r.mNonce r.mServerNonce
      r.mPuzzleDifficulty r.mClientIdentity).2 = h.server.mPuzzleManager := by
  rcases checkSolution_cases h.server.mPuzzleManager r.mPuzzleSolution r.mNonce r.mServerNonce
    r.mPuzzleDifficulty r.mClientIdentity with hrefused | ⟨-, hcurrent, hfresh, -⟩ |
      ⟨-, hcurrent, hlast, hfresh, -⟩
  · exact hrefused
  · have hused := hs.inCurrent s hmem (hserverNonce.trans hcurrent)
    rw [hnonce] at hused
    exact absurd hused hfresh
  · have hused := hs.inLast s hmem (fun heq => hcurrent (hserverNonce.symm.trans heq))
      (hserverNonce.trans hlast)
    rw [hnonce] at hused
    exact absurd hused hfresh

theorem Sound.handleNewRequest (hs : h.Sound) (hr : .connectRequest r ∈ h.toServer)
    (hstep : h.handleNewRequest r x = some h') : h'.Sound := by
  have hcases := checkSolution_cases h.server.mPuzzleManager r.mPuzzleSolution r.mNonce
    r.mServerNonce r.mPuzzleDifficulty r.mClientIdentity
  have hrefused : ∀ s ∈ h.created, s.params.mNonce = r.mNonce →
      s.params.mServerNonce = r.mServerNonce → (h.server.mPuzzleManager.checkSolution
        r.mPuzzleSolution r.mNonce r.mServerNonce r.mPuzzleDifficulty r.mClientIdentity).1 ≠
          .success :=
    fun s hmem hnonce hserverNonce => (hs.solution_refused hmem hnonce hserverNonce).1
  rw [Handshake.handleNewRequest] at hstep
  generalize h.server.mPuzzleManager.checkSolution r.mPuzzleSolution r.mNonce r.mServerNonce
    r.mPuzzleDifficulty r.mClientIdentity = result at hcases hrefused hstep
  rcases result with ⟨code, manager⟩
  dsimp only at hcases hrefused hstep
  have hsound : Sound { h with server := { h.server with mPuzzleManager := manager } } := by
    rcases hcases with ⟨-, rfl⟩ | ⟨-, -, -, rfl⟩ | ⟨-, -, -, -, rfl⟩
    · exact hs
    · exact hs.withServer hs.serverConnection rfl rfl (List.subset_cons_self ..) (List.Subset.refl _)
    · exact hs.withServer hs.serverConnection rfl rfl (List.Subset.refl _) (List.subset_cons_self ..)
  by_cases hcode : code ≠ .success
  · rw [if_pos hcode] at hstep
    obtain rfl := Option.some.inj hstep
    exact hsound.toClientOnly (fun a ha => by cases ha)
  · rw [if_neg hcode] at hstep
    rw [not_not] at hcode
    cases hread : readRequest h.server.mPrivateKey r x with
    | none =>
      rw [hread, Option.some.injEq] at hstep
      exact hstep ▸ hsound
    | some result =>
      rcases result with ⟨theParams, sequence⟩
      have hcreated := createdBy_of_readRequest hread
      have hclosed : Sound { h with server := { h.server with
          mPuzzleManager := manager, connection := none } } :=
        hsound.withServer (fun s heq => by cases heq) rfl rfl (List.Subset.refl _)
          (List.Subset.refl _)
      simp only [hread] at hstep
      split_ifs at hstep
      · exact Option.some.inj hstep ▸ hclosed
      · cases hrefusal : x.refusal with
        | some text =>
          cases text with
          | none =>
            simp only [hrefusal, Option.some.injEq] at hstep
            exact hstep ▸ hclosed
          | some reason =>
            simp only [hrefusal, Option.some.injEq] at hstep
            subst hstep
            exact hclosed.toClientOnly (fun a ha => by cases ha)
        | none =>
          simp only [hrefusal] at hstep
          have hnew : ∀ s ∈ h.created, ¬ s.SameNonces (createConnection theParams sequence x) :=
            fun s hmem hsame => hrefused s hmem (hsame.1.trans hcreated.nonce)
              (hsame.2.trans hcreated.serverNonce) hcode
          apply Sound.sendConnectAccept _ (List.mem_append_right _ (List.mem_singleton_self _)) hstep
          apply hclosed.create hr hcreated hnew
          · rw [hcreated.serverNonce]
            rcases hcases with ⟨hbad, -⟩ | ⟨-, heq, -, -⟩ | ⟨-, -, heq, -, -⟩
            · exact absurd hcode hbad
            · exact heq ▸ hs.current
            · exact heq ▸ hs.last
          · rw [hcreated.serverNonce, hcreated.nonce]
            intro heq
            rcases hcases with ⟨hbad, -⟩ | ⟨-, -, -, rfl⟩ | ⟨-, hne, -, -, rfl⟩
            · exact absurd hcode hbad
            · exact List.mem_cons_self
            · exact absurd heq hne
          · rw [hcreated.serverNonce, hcreated.nonce]
            intro hne heq
            rcases hcases with ⟨hbad, -⟩ | ⟨-, hcurrent, -, rfl⟩ | ⟨-, -, -, -, rfl⟩
            · exact absurd hcode hbad
            · exact absurd hcurrent hne
            · exact List.mem_cons_self

theorem Sound.handleConnectRequest (hs : h.Sound) (hr : .connectRequest r ∈ h.toServer)
    (hstep : h.handleConnectRequest r x = some h') : h'.Sound := by
  rw [Handshake.handleConnectRequest] at hstep
  cases hconnection : h.server.connection with
  | none =>
    simp only [hconnection] at hstep
    split_ifs at hstep
    · exact Option.some.inj hstep ▸ hs
    · exact Option.some.inj hstep ▸ hs
    · exact hs.handleNewRequest hr hstep
  | some connect =>
    simp only [hconnection] at hstep
    split_ifs at hstep
    · exact Option.some.inj hstep ▸ hs
    · exact Option.some.inj hstep ▸ hs
    · exact hs.sendConnectAccept (hs.serverConnection connect hconnection) hstep
    · exact hs.handleNewRequest hr hstep

theorem Sound.handleConnectChallengeRequest (hs : h.Sound) {nonce : P.Nonce}
    {wantsKeyExchange wantsCertificate : Bool}
    (hstep : h.handleConnectChallengeRequest nonce wantsKeyExchange wantsCertificate = some h') :
    h'.Sound := by
  rw [Handshake.handleConnectChallengeRequest] at hstep
  dsimp only at hstep
  by_cases hallowed : (!h.server.mAllowConnections) = true
  · rw [if_pos hallowed] at hstep
    exact Option.some.inj hstep ▸ hs
  · rw [if_neg hallowed] at hstep
    rcases Option.map_eq_some_iff.mp hstep with ⟨key, -, rfl⟩
    exact hs.toClientOnly (fun a ha => by cases ha)

theorem Sound.tick (hs : h.Sound) {nonce : P.Nonce} (hfresh : nonce ∉ h.serverNonces) :
    Sound { h with
      server := { h.server with mPuzzleManager := h.server.mPuzzleManager.tick nonce }
      serverNonces := nonce :: h.serverNonces } where
  drawn := hs.drawn
  pending p hp := ⟨(hs.pending p hp).drawn, (hs.pending p hp).requests⟩
  created := hs.created
  unique := hs.unique
  accepts := hs.accepts
  serverConnection := hs.serverConnection
  serverNonces s hmem := List.mem_cons_of_mem _ (hs.serverNonces s hmem)
  current := List.mem_cons_self
  last := List.mem_cons_of_mem _ hs.current
  inCurrent s hmem heq := by
    have hused := hs.serverNonces s hmem
    rw [show s.params.mServerNonce = nonce from heq] at hused
    exact absurd hused hfresh
  inLast s hmem _ heq := hs.inCurrent s hmem heq
  established := hs.established
  clientConnection := hs.clientConnection

/-- A request for a connection that was created before changes nothing but the packets sent. -/
theorem Sound.repeated_request (hs : h.Sound) {s : HandshakeConnection P} (hmem : s ∈ h.created)
    (hnonce : s.params.mNonce = r.mNonce) (hserverNonce : s.params.mServerNonce = r.mServerNonce)
    (hstep : h.handleConnectRequest r x = some h') :
    h'.created = h.created ∧ h'.server = h.server := by
  have hnew : h.handleNewRequest r x = some h' → h'.created = h.created ∧ h'.server = h.server := by
    intro hnew
    rcases hs.solution_refused hmem hnonce hserverNonce with ⟨hcode, hmanager⟩
    rw [Handshake.handleNewRequest] at hnew
    dsimp only at hnew
    rw [if_pos hcode, hmanager] at hnew
    rw [← Option.some.inj hnew]
    exact ⟨rfl, rfl⟩
  rw [Handshake.handleConnectRequest] at hstep
  cases hconnection : h.server.connection with
  | none =>
    simp only [hconnection] at hstep
    split_ifs at hstep
    · exact Option.some.inj hstep ▸ ⟨rfl, rfl⟩
    · exact Option.some.inj hstep ▸ ⟨rfl, rfl⟩
    · exact hnew hstep
  | some connect =>
    simp only [hconnection] at hstep
    split_ifs at hstep
    · exact Option.some.inj hstep ▸ ⟨rfl, rfl⟩
    · exact Option.some.inj hstep ▸ ⟨rfl, rfl⟩
    · rcases Option.map_eq_some_iff.mp hstep with ⟨a, -, rfl⟩
      exact ⟨rfl, rfl⟩
    · exact hnew hstep

end server

theorem step_sound {h h' : Handshake P} {a : Action P} (hs : h.Sound) (hfresh : h.Fresh a)
    (hstep : h.step a = some h') : h'.Sound := by
  cases a with
  | startConnection nonce initialSendSeq requestKeyExchange requestCertificate debugObjectSizes =>
    exact Option.some.inj hstep ▸ hs.startConnection hfresh
  | timeout => exact hs.timeout hstep
  | continuePuzzleSolution iterations =>
    rw [step] at hstep
    cases hpending : h.client.pending with
    | none =>
      rw [hpending] at hstep
      exact Option.some.inj hstep ▸ hs
    | some conn =>
      simp only [hpending] at hstep
      split_ifs at hstep with hstate
      · exact hs.continuePuzzleSolution (hs.pending conn hpending) hstate hstep
      · exact Option.some.inj hstep ▸ hs
  | clientReceives index x =>
    rcases Option.bind_eq_some_iff.mp hstep with ⟨m, hm, hreceive⟩
    cases m with
    | connectChallengeResponse c => exact hs.handleConnectChallengeResponse hreceive
    | connectAccept a =>
      exact Option.some.inj hreceive ▸ hs.handleConnectAccept (List.mem_of_getElem? hm)
    | connectReject nonce serverNonce reason =>
      exact Option.some.inj hreceive ▸ hs.handleConnectReject hfresh
  | serverReceives index x =>
    rcases Option.bind_eq_some_iff.mp hstep with ⟨m, hm, hreceive⟩
    cases m with
    | connectChallengeRequest nonce wantsKeyExchange wantsCertificate =>
      exact hs.handleConnectChallengeRequest hreceive
    | connectRequest r => exact hs.handleConnectRequest (List.mem_of_getElem? hm) hreceive
  | tick nonce => exact Option.some.inj hstep ▸ hs.tick hfresh
  | setClientKey key =>
    exact Option.some.inj hstep ▸ hs.withClient hs.pending hs.clientConnection
  | configureServer key certificate requiresKeyExchange allowConnections =>
    exact Option.some.inj hstep ▸ hs.withServer hs.serverConnection rfl rfl (List.Subset.refl _)
      (List.Subset.refl _)
  | endClientConnection =>
    exact Option.some.inj hstep ▸ hs.withClient hs.pending (fun c hc => by cases hc)
  | endServerConnection =>
    exact Option.some.inj hstep ▸ hs.withServer (fun s hc => by cases hc) rfl rfl
      (List.Subset.refl _) (List.Subset.refl _)

/-- Every connection the client establishes agrees with one that the server created for the same
nonces, of which there is only one, and requests that are repeated change neither. -/
theorem handshake_agreement {h : Handshake P} {nonce lastNonce : P.Nonce} {as : List (Action P)}
    (run : Run step Fresh (start nonce lastNonce) as h) :
    (∀ c ∈ h.established, ∃ s ∈ h.created, c.Agrees s) ∧
    (∀ c, h.client.connection = some c → c ∈ h.established) ∧
    (∀ s ∈ h.created, ∀ t ∈ h.created, s.SameNonces t → s = t) ∧
    ∀ s ∈ h.created, ∀ index r x h', h.toServer[index]? = some (.connectRequest r) →
      s.params.mNonce = r.mNonce → s.params.mServerNonce = r.mServerNonce →
        h.step (.serverReceives index x) = some h' →
          h'.created = h.created ∧ h'.server = h.server := by
  have hs : h.Sound := run.invariant (I := Sound)
    (fun _ _ _ hs hfresh hstep => step_sound hs hfresh hstep) (start_sound nonce lastNonce)
  refine ⟨hs.established, hs.clientConnection, hs.unique, ?_⟩
  intro s hmem index r x h' hr hnonce hserverNonce hstep
  rw [step, hr] at hstep
  exact hs.repeated_request hmem hnonce hserverNonce hstep

/-- Numbers for nonces and keys, a product for the shared secret, and puzzles solved by one. -/
def plainPrimitives : HandshakePrimitives where
  Nonce := ℕ
  PrivateKey := ℕ
  PublicKey := ℕ
  Secret := ℕ
  Block := ℕ
  computeClientIdentityToken nonce := BitVec.ofNat 32 nonce
  checkOneSolution solution _ _ _ _ := solution = 1
  getPublicKey key := key
  privateKeySize _ := 20
  publicKeySize _ := 20
  computeSharedSecretKey key publicKey := key * publicKey
  garbled _ sequence _ := sequence

def clientChance : ClientChance plainPrimitives where
  nonce := (9 : ℕ)
  validKey := true
  generatedKey := (5 : ℕ)
  symmetricKey := (6 : ℕ)
  iterations := 2
  readConnectAccept := true

def serverChance : ServerChance plainPrimitives where
  initVector := (7 : ℕ)
  initialSendSeq := 20
  knownClass := true
  refusal := none

/-- A handshake with key exchange in which the connect request arrives twice. -/
def keyExchange : List (Action plainPrimitives) :=
  [.configureServer (some (3 : ℕ)) none true true, .startConnection (1 : ℕ) 10 true false false,
    .serverReceives 0 serverChance, .clientReceives 0 clientChance, .serverReceives 1 serverChance,
    .serverReceives 1 serverChance, .clientReceives 1 clientChance]

theorem handshake_agreement_keyExchange : ∃ (h : Handshake plainPrimitives)
    (c s : HandshakeConnection plainPrimitives), h.established = [c] ∧ h.created = [s] ∧
      c.params.mUsingCrypto = true ∧ c.Agrees s := by
  obtain ⟨h, c, s, run, hc, hs, hcrypto⟩ : ∃ h c s, Run step Fresh
      (start (P := plainPrimitives) (100 : ℕ) (101 : ℕ)) keyExchange h ∧ h.established = [c] ∧
        h.created = [s] ∧ c.params.mUsingCrypto = true := by
    refine ⟨_, _, _, .cons trivial rfl (.cons ?_ rfl (.cons trivial rfl (.cons ?_ rfl
      (.cons trivial rfl (.cons trivial rfl (.cons ?_ rfl (.nil _))))))), rfl, rfl, rfl⟩
    · exact (by decide : (1 : ℕ) ∉ ([] : List ℕ))
    · exact (by decide : (9 : ℕ) ∉ [1])
    · exact (by decide : (9 : ℕ) ∉ [1])
  have hagrees := (handshake_agreement run).1 c (by rw [hc]; exact List.mem_singleton_self c)
  rw [hs] at hagrees
  rcases hagrees with ⟨t, ht, hagrees⟩
  rw [List.mem_singleton.mp ht] at hagrees
  exact ⟨h, c, s, hc, hs, hcrypto, hagrees⟩

end Handshake

end TNL
