import TNL.Go.Handshake

/-!
# Connect requests that come again

Handling a packet does not change the manager, so a connect request is accepted
as often as it is received.
-/
namespace TNL.Go
open BitReader

/-- The connect request that a packet is read as. -/
def Packet.request (C : Crypto) (p : Packet) : ConnectRequest :=
  ConnectRequest.read C (newReader p.data).readUint8.2

def Packet.pktType (p : Packet) : UInt8 := (newReader p.data).readUint8.1

namespace HandshakeManager

variable {C : Crypto} {hm : HandshakeManager} {p q : Packet} {packets : List Packet}

/-- The manager hands out a server nonce. -/
def Issues (C : Crypto) (hm : HandshakeManager) (p : Packet) (nonce : List UInt8) : Prop :=
  ∃ resp, (hm.handlePacket C p).1 = some (.challengeResponse resp) ∧ resp.serverNonce = nonce

def Accepts (C : Crypto) (hm : HandshakeManager) (p : Packet) : Prop :=
  (hm.handlePacket C p).2.isSome

/-- A connect request is accepted once for its nonces, and only if its server nonce was handed out
before and is current. -/
def ReplayProtected (C : Crypto) (hm : HandshakeManager) (packets : List Packet) : Prop :=
  ∀ before p after, packets = before ++ p :: after → hm.Accepts C p →
    (∃ q ∈ before, hm.Issues C q (p.request C).serverNonce) ∧
    (p.request C).serverNonce = hm.currentNonce ∧
    ∀ q ∈ before, hm.Accepts C q → ((q.request C).clientNonce, (q.request C).serverNonce) ≠
      ((p.request C).clientNonce, (p.request C).serverNonce)

/-- A packet is a connect request with a solution of the puzzle for its address and a public key. -/
def Solves (C : Crypto) (hm : HandshakeManager) (p : Packet) : Prop :=
  p.pktType = connectRequest ∧
  checkSolution C (p.request C).puzzleSolution
    (computeIdentity C p.addr hm.serverSecret hm.currentNonce) (p.request C).clientNonce
    (p.request C).serverNonce hm.puzzleDifficulty = true ∧
  (hm.kx.computeSharedSecret (p.request C).clientPublicKey).isSome

/-- Every solved connect request among the packets comes after a challenge request, has the current
server nonce, and has other nonces than those before it. -/
def FreshRequests (C : Crypto) (hm : HandshakeManager) (packets : List Packet) : Prop :=
  ∀ before p after, packets = before ++ p :: after → hm.Solves C p →
    (∃ q ∈ before, q.pktType = connectChallengeRequest) ∧
    (p.request C).serverNonce = hm.currentNonce ∧
    ∀ q ∈ before, hm.Solves C q → ((q.request C).clientNonce, (q.request C).serverNonce) ≠
      ((p.request C).clientNonce, (p.request C).serverNonce)

theorem handlePacket_eq (C : Crypto) (hm : HandshakeManager) (p : Packet) :
    hm.handlePacket C p =
      if p.pktType = connectChallengeRequest then
        (some (.challengeResponse (hm.handleChallengeRequest C p (newReader p.data).readUint8.2)),
          none)
      else if p.pktType = connectRequest then
        match hm.handleConnectRequest C p (newReader p.data).readUint8.2 with
        | none => (none, none)
        | some (accept, accepted) => (some (.connectAccept accept), some accepted)
      else (none, none) := rfl

/-- The checks of a connect request. -/
theorem handleConnectRequest_isSome : (hm.handleConnectRequest C p
    (newReader p.data).readUint8.2).isSome ↔
      checkSolution C (p.request C).puzzleSolution
        (computeIdentity C p.addr hm.serverSecret hm.currentNonce) (p.request C).clientNonce
        (p.request C).serverNonce hm.puzzleDifficulty = true ∧
      (hm.kx.computeSharedSecret (p.request C).clientPublicKey).isSome := by
  rw [handleConnectRequest, ← Packet.request]
  dsimp only
  cases checkSolution C (p.request C).puzzleSolution
      (computeIdentity C p.addr hm.serverSecret hm.currentNonce) (p.request C).clientNonce
      (p.request C).serverNonce hm.puzzleDifficulty with
  | false => simp
  | true => simp

theorem issues_iff {nonce : List UInt8} : hm.Issues C p nonce ↔
    p.pktType = connectChallengeRequest ∧ hm.currentNonce = nonce := by
  rw [Issues, handlePacket_eq]
  by_cases hchallenge : p.pktType = connectChallengeRequest
  · rw [if_pos hchallenge]
    constructor
    · rintro ⟨resp, heq, rfl⟩
      obtain rfl := Reply.challengeResponse.inj (Option.some.inj heq)
      exact ⟨hchallenge, rfl⟩
    · rintro ⟨-, rfl⟩
      exact ⟨_, rfl, rfl⟩
  · rw [if_neg hchallenge]
    refine iff_of_false ?_ (fun h => hchallenge h.1)
    rintro ⟨resp, heq, -⟩
    by_cases hconnect : p.pktType = connectRequest
    · rw [if_pos hconnect] at heq
      cases haccept : hm.handleConnectRequest C p (newReader p.data).readUint8.2 with
      | none => simp [haccept] at heq
      | some accept => simp [haccept] at heq
    · rw [if_neg hconnect] at heq
      exact absurd heq (Option.some_ne_none _).symm

theorem accepts_iff : hm.Accepts C p ↔ hm.Solves C p := by
  rw [Solves, ← handleConnectRequest_isSome, Accepts, handlePacket_eq]
  by_cases hchallenge : p.pktType = connectChallengeRequest
  · rw [if_pos hchallenge, hchallenge]
    exact iff_of_false Bool.false_ne_true (fun h => absurd h.1 (by decide))
  · rw [if_neg hchallenge]
    by_cases hconnect : p.pktType = connectRequest
    · rw [if_pos hconnect, and_iff_right hconnect]
      cases hm.handleConnectRequest C p (newReader p.data).readUint8.2 <;> rfl
    · rw [if_neg hconnect]
      exact iff_of_false Bool.false_ne_true (fun h => hconnect h.1)

/-- Replayed requests are kept out exactly if none are received. -/
theorem replayProtected_iff (C : Crypto) (hm : HandshakeManager) (packets : List Packet) :
    hm.ReplayProtected C packets ↔ hm.FreshRequests C packets := by
  have hissued : ∀ before : List Packet, ∀ nonce, nonce = hm.currentNonce →
      ((∃ q ∈ before, hm.Issues C q nonce) ↔
        ∃ q ∈ before, q.pktType = connectChallengeRequest) := by
    rintro before nonce rfl
    simp only [issues_iff, and_true]
  constructor
  · intro h before p after heq hp
    obtain ⟨hissue, hcurrent, hnew⟩ := h before p after heq (accepts_iff.mpr hp)
    exact ⟨(hissued before _ hcurrent).mp hissue, hcurrent,
      fun q hq hsolved => hnew q hq (accepts_iff.mpr hsolved)⟩
  · intro h before p after heq hp
    obtain ⟨hissue, hcurrent, hnew⟩ := h before p after heq (accepts_iff.mp hp)
    exact ⟨(hissued before _ hcurrent).mpr hissue, hcurrent,
      fun q hq haccepted => hnew q hq (accepts_iff.mp haccepted)⟩

/-- A recorded connect request is accepted again, after a challenge request and the request itself. -/
theorem replay_accepted :
    ¬ ∀ (C : Crypto) (hm : HandshakeManager) (packets : List Packet),
      hm.ReplayProtected C packets := by
  intro hclaim
  let addr : List UInt8 := [49, 46, 50, 46, 51, 46, 52, 58, 53, 54, 55, 56]
  let serverSecret : List UInt8 := List.replicate 32 0
  let serverNonce : List UInt8 := List.replicate 16 7
  let clientNonce : List UInt8 := List.replicate 16 9
  let clientPublicKey : List UInt8 :=
    [4, 107, 23, 209, 242, 225, 44, 66, 71, 248, 188, 230, 229, 99, 164, 64, 242, 119, 3, 125, 129,
    45, 235, 51, 160, 244, 161, 57, 69, 216, 152, 194, 150, 79, 227, 66, 226, 254, 26, 127, 155,
    142, 231, 235, 74, 124, 15, 158, 22, 43, 206, 51, 87, 107, 49, 94, 206, 203, 182, 64, 104, 55,
    191, 81, 245]
  let publicKey : List UInt8 :=
    [4, 124, 242, 123, 24, 141, 3, 79, 126, 138, 82, 56, 3, 4, 181, 26, 195, 192, 137, 105, 226,
    119, 242, 27, 53, 166, 11, 72, 252, 71, 102, 153, 120, 7, 119, 85, 16, 219, 142, 208, 64, 41,
    61, 154, 198, 159, 116, 48, 219, 186, 125, 173, 230, 60, 233, 130, 41, 158, 4, 183, 157, 34,
    120, 115, 209]
  let sharedSecret : List UInt8 :=
    [124, 242, 123, 24, 141, 3, 79, 126, 138, 82, 56, 3, 4, 181, 26, 195, 192, 137, 105, 226, 119,
    242, 27, 53, 166, 11, 72, 252, 71, 102, 153, 120]
  let hash : List UInt8 :=
    [0, 0, 8, 101, 32, 126, 223, 141, 6, 255, 244, 155, 239, 198, 232, 228, 84, 26, 3, 162, 227,
    139, 174, 215, 90, 150, 211, 224, 17, 164, 130, 235]
  let mac : List UInt8 :=
    [111, 254, 68, 108, 221, 94, 244, 217, 96, 204, 56, 80, 236, 89, 93, 73, 24, 248, 47, 131, 166,
    90, 3, 92, 19, 243, 37, 171, 49, 185, 152, 67]
  let C : Crypto :=
    ⟨fun bytes => if bytes = [0, 0, 75, 94, 111, 254, 68, 108] ++ clientNonce ++ serverNonce
      then hash else [255],
     fun key bytes => if key = serverSecret ∧ bytes = addr ++ serverNonce then mac else [],
     fun bytes => if bytes = [] then some [] else none⟩
  let hm : HandshakeManager := ⟨serverSecret, serverNonce, 17, publicKey,
    fun key => if key = clientPublicKey then some sharedSecret else none⟩
  let challenge : Packet := ⟨addr, 0 :: clientNonce, []⟩
  let request : Packet := ⟨addr,
    [2, 9, 9, 9, 9, 9, 9, 9, 9, 9, 9, 9, 9, 9, 9, 9, 9, 7, 7, 7, 7, 7, 7, 7, 7, 7, 7, 7, 7, 7, 7, 7,
    7, 0, 0, 75, 94, 8, 32, 141, 98, 250, 62, 92, 37, 136, 72, 255, 23, 156, 220, 172, 116, 136, 30,
    78, 224, 111, 176, 37, 189, 102, 116, 30, 148, 39, 40, 187, 19, 24, 82, 201, 252, 104, 92, 95,
    195, 79, 243, 113, 220, 253, 105, 79, 129, 243, 194, 197, 121, 198, 106, 237, 102, 43, 217, 217,
    118, 200, 13, 6, 247, 234, 62, 160, 0, 0, 0],
    []⟩
  have haccepts : hm.Accepts C request := by
    change (hm.handlePacket C request).2.isSome = true
    decide +kernel
  exact (hclaim C hm [challenge, request, request] [challenge, request] request [] rfl
    haccepts).2.2 request (by simp) haccepts rfl

end HandshakeManager

end TNL.Go
