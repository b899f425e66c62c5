import TNL.Connection.PendingAttempts

/-!
# What rejected packets leave behind

A handler that returns early leaves in the connection what it has stored by then.
For each of them this tells for which packets that is nothing new.
-/
namespace TNL
open BitStream

namespace Attempt

variable {P : KeyPrimitives}

/-- The connection is neither moved to another state nor taken out of the list. -/
def Stays (s s' : NetInterface P) (p : ℕ) : Prop :=
  s'.mPendingConnections.count p = s.mPendingConnections.count p ∧
    (s'.connection p).mConnectionState = (s.connection p).mConnectionState

/-- An offer that is stored although it is refused is the one stored before. -/
def Offer.Known (theParams : ConnectionParameters P) : Offer P → Prop
  | .none => True
  | .certificate mCertificate => theParams.mCertificate = some mCertificate
  | .publicKey mPublicKey => theParams.mPublicKey = some mPublicKey

namespace NetInterface
open TNL.Attempt.NetConnectionState

variable {s : NetInterface P} {x : Chance P} {address : Address} {stream : BitStream} {p q : ℕ}

/-- A challenge response for the connection: it is found, waits for one and has the nonce. -/
def Challenged (s : NetInterface P) (x : Chance P) (address : Address) (stream : BitStream)
    (p : ℕ) : Prop :=
  s.findPendingConnection address = some p ∧
    (s.connection p).mConnectionState = awaitingChallengeResponse ∧
    (readNonce x.nonce stream).1 = (s.connection p).mConnectionParameters.mNonce

/-- A challenge response that is rejected says nothing that the connection does not have. -/
def ChallengeKnown (theParams : ConnectionParameters P) (x : Chance P) (stream : BitStream) :
    Prop :=
  let read := readChallenge theParams x (readNonce x.nonce stream).2
  let offer : Offer P := Offer.read read.2
  (read.1.mPuzzleDifficulty > maxPuzzleDifficulty ∨ offer.Acceptable = false) →
    read.1.mClientIdentity = theParams.mClientIdentity ∧
    read.1.mServerNonce = theParams.mServerNonce ∧
    read.1.mPuzzleDifficulty = theParams.mPuzzleDifficulty ∧
    (read.1.mPuzzleDifficulty ≤ maxPuzzleDifficulty → offer.Known theParams)

@[simp] theorem set_connection_self (s : NetInterface P) (p : ℕ) (conn : NetConnection P) :
    (s.set p conn).connection p = conn := Function.update_self ..

theorem set_connection_ne (s : NetInterface P) (conn : NetConnection P) (h : q ≠ p) :
    (s.set p conn).connection q = s.connection q := Function.update_of_ne h _ _

theorem stays_set (s : NetInterface P) (p : ℕ) (conn : NetConnection P) :
    Stays s (s.set p conn) p ↔ conn.mConnectionState = (s.connection p).mConnectionState := by
  rw [Stays, set_connection_self]
  exact ⟨fun h => h.2, fun h => ⟨rfl, h⟩⟩

/-- Setting the parameters changes a connection unless they are the same. -/
theorem setParameters_unchanged_iff (s : NetInterface P) (p : ℕ)
    (theParams : ConnectionParameters P) :
    (Stays s (s.setParameters p theParams) p →
      (s.setParameters p theParams).connection p = s.connection p) ↔
      theParams = (s.connection p).mConnectionParameters := by
  have hstays : Stays s (s.setParameters p theParams) p := (stays_set ..).mpr rfl
  rw [setParameters, set_connection_self]
  constructor
  · exact fun h => congrArg NetConnection.mConnectionParameters (h hstays)
  · rintro rfl _
    rfl

/-- What is stored of an offer before it is checked. -/
def storeOffer (theParams : ConnectionParameters P) : Offer P → ConnectionParameters P
  | .none => theParams
  | .certificate mCertificate => { theParams with mCertificate := some mCertificate }
  | .publicKey mPublicKey => { theParams with mPublicKey := some mPublicKey }

theorem take_refused {theParams : ConnectionParameters P} {mPrivateKey : Option P.PrivateKey}
    {offer : Offer P} (h : offer.Acceptable = false) :
    theParams.take mPrivateKey x offer = (storeOffer theParams offer, false) := by
  cases offer with
  | none => exact absurd h (by simp [Offer.Acceptable])
  | certificate mCertificate => simp [ConnectionParameters.take, storeOffer, h]
  | publicKey mPublicKey => simp [ConnectionParameters.take, storeOffer, h]

theorem take_accepted {theParams : ConnectionParameters P} {mPrivateKey : Option P.PrivateKey}
    {offer : Offer P} (h : offer.Acceptable = true) :
    (theParams.take mPrivateKey x offer).2 = true := by
  cases offer with
  | none => rfl
  | certificate mCertificate => simp [ConnectionParameters.take, h]
  | publicKey mPublicKey => simp [ConnectionParameters.take, h]

theorem storeOffer_eq_iff (offer : Offer P) (theParams theParams' : ConnectionParameters P)
    (hcertificate : theParams.mCertificate = theParams'.mCertificate)
    (hkey : theParams.mPublicKey = theParams'.mPublicKey) :
    storeOffer theParams offer = theParams' ↔ theParams = theParams' ∧ offer.Known theParams' := by
  cases offer with
  | none => exact ⟨fun h => ⟨h, trivial⟩, fun h => h.1⟩
  | certificate mCertificate =>
    simp only [storeOffer, Offer.Known]
    constructor
    · intro h
      have hknown : theParams'.mCertificate = some mCertificate := by rw [← h]
      refine ⟨?_, hknown⟩
      rw [← h, ← hknown, ← hcertificate]
    · rintro ⟨rfl, hknown⟩
      rw [← hknown]
  | publicKey mPublicKey =>
    simp only [storeOffer, Offer.Known]
    constructor
    · intro h
      have hknown : theParams'.mPublicKey = some mPublicKey := by rw [← h]
      refine ⟨?_, hknown⟩
      rw [← h, ← hknown, ← hkey]
    · rintro ⟨rfl, hknown⟩
      rw [← hknown]

theorem readChallenge_eq_iff (theParams : ConnectionParameters P) (x : Chance P)
    (stream : BitStream) : (readChallenge theParams x stream).1 = theParams ↔
      (readChallenge theParams x stream).1.mClientIdentity = theParams.mClientIdentity ∧
      (readChallenge theParams x stream).1.mServerNonce = theParams.mServerNonce ∧
      (readChallenge theParams x stream).1.mPuzzleDifficulty = theParams.mPuzzleDifficulty := by
  constructor
  · intro h
    rw [h]
    exact ⟨rfl, rfl, rfl⟩
  · rintro ⟨hidentity, hnonce, hdifficulty⟩
    simp only [readChallenge] at hidentity hnonce hdifficulty ⊢
    rw [hidentity, hnonce, hdifficulty]

theorem readChallenge_kept (theParams : ConnectionParameters P) (x : Chance P)
    (stream : BitStream) :
    (readChallenge theParams x stream).1.mCertificate = theParams.mCertificate ∧
      (readChallenge theParams x stream).1.mPublicKey = theParams.mPublicKey :=
  ⟨rfl, rfl⟩

/-- Solving the puzzle is for a connection that has moved on. -/
theorem continuePuzzleSolution_state (s : NetInterface P) (x : Chance P) (p : ℕ) :
    ((s.continuePuzzleSolution x p).connection p).mConnectionState =
        (s.connection p).mConnectionState ∨
      ((s.continuePuzzleSolution x p).connection p).mConnectionState = awaitingConnectResponse := by
  simp only [continuePuzzleSolution]
  split_ifs
  · right
    rw [setConnectionState, set_connection_self]
  · left
    rw [setParameters, set_connection_self]

theorem continuePuzzleSolution_ne (s : NetInterface P) (x : Chance P) (h : q ≠ p) :
    (s.continuePuzzleSolution x p).connection q = s.connection q := by
  simp only [continuePuzzleSolution]
  split_ifs
  · rw [setConnectionState, set_connection_ne _ _ h, setParameters, set_connection_ne _ _ h]
  · rw [setParameters, set_connection_ne _ _ h]

/-- The handler has found the connection that the challenge response is for. -/
theorem handleConnectChallengeResponse_eq (h : Challenged s x address stream p) :
    s.handleConnectChallengeResponse x address stream =
      let read := readChallenge (s.connection p).mConnectionParameters x
        (readNonce x.nonce stream).2
      if read.1.mPuzzleDifficulty > maxPuzzleDifficulty then s.setParameters p read.1
      else
        let taken := read.1.take s.mPrivateKey x (Offer.read read.2)
        if taken.2 then
          ((s.setParameters p { taken.1 with mPuzzleSolution := 0 }).setConnectionState p
            computingPuzzleSolution).continuePuzzleSolution x p
        else s.setParameters p taken.1 := by
  obtain ⟨hfind, hstate, hnonce⟩ := h
  simp only [handleConnectChallengeResponse, hfind, hstate, hnonce, ne_eq, not_true_eq_false,
    if_false]
  split_ifs with hdifficulty hrefused haccepted haccepted
  · rfl
  · exact absurd haccepted (by simpa using hrefused)
  · rfl
  · rfl
  · exact absurd (by simpa using hrefused) haccepted

theorem handleConnectChallengeResponse_other (h : ¬ Challenged s x address stream p) :
    (s.handleConnectChallengeResponse x address stream).connection p = s.connection p := by
  by_cases hother : ∃ q, Challenged s x address stream q
  · obtain ⟨q, hq⟩ := hother
    have hne : p ≠ q := by
      rintro rfl
      exact h hq
    rw [handleConnectChallengeResponse_eq hq]
    dsimp only
    split_ifs
    · rw [setParameters, set_connection_ne _ _ hne]
    · rw [continuePuzzleSolution_ne _ _ hne, setConnectionState, set_connection_ne _ _ hne,
        setParameters, set_connection_ne _ _ hne]
    · rw [setParameters, set_connection_ne _ _ hne]
  · rw [handleConnectChallengeResponse]
    cases hfind : s.findPendingConnection address with
    | none => rfl
    | some q =>
      dsimp only
      split_ifs with hstate hnonce
      · rfl
      · rfl
      all_goals exact absurd ⟨q, hfind, not_not.mp hstate, not_not.mp hnonce⟩ hother

/-- A rejected challenge response leaves the connection as it was if and only if it says nothing
new. -/
theorem challengeResponse_unchanged_iff :
    (Stays s (s.handleConnectChallengeResponse x address stream) p →
      (s.handleConnectChallengeResponse x address stream).connection p = s.connection p) ↔
      (Challenged s x address stream p →
        ChallengeKnown (s.connection p).mConnectionParameters x stream) := by
  by_cases hchallenged : Challenged s x address stream p
  · have hstate := hchallenged.2.1
    rw [handleConnectChallengeResponse_eq hchallenged, ChallengeKnown]
    dsimp only
    have hread := readChallenge_eq_iff (s.connection p).mConnectionParameters x
      (readNonce x.nonce stream).2
    obtain ⟨hcertificate, hkey⟩ := readChallenge_kept (s.connection p).mConnectionParameters x
      (readNonce x.nonce stream).2
    generalize readChallenge (s.connection p).mConnectionParameters x
      (readNonce x.nonce stream).2 = read at hread hcertificate hkey ⊢
    by_cases hdifficulty : read.1.mPuzzleDifficulty > maxPuzzleDifficulty
    · rw [if_pos hdifficulty, setParameters_unchanged_iff, hread]
      have hlarge : ¬ read.1.mPuzzleDifficulty ≤ maxPuzzleDifficulty := BitVec.not_le.mpr hdifficulty
      simp [hchallenged, hdifficulty, hlarge]
    · rw [if_neg hdifficulty]
      have hsmall : read.1.mPuzzleDifficulty ≤ maxPuzzleDifficulty := BitVec.not_lt.mp hdifficulty
      cases hoffer : (Offer.read read.2 : Offer P).Acceptable with
      | false =>
        rw [take_refused hoffer, if_neg Bool.false_ne_true, setParameters_unchanged_iff,
          storeOffer_eq_iff _ _ _ hcertificate hkey, hread]
        simp [hchallenged, hsmall, and_assoc]
      | true =>
        rw [if_pos (take_accepted hoffer)]
        refine iff_of_true (fun hstays => ?_) fun _ h => ?_
        · have hmoved := hstays.2
          rcases continuePuzzleSolution_state _ x p with h | h
          · rw [h, setConnectionState, set_connection_self, hstate] at hmoved
            exact NetConnectionState.noConfusion hmoved
          · rw [h, hstate] at hmoved
            exact NetConnectionState.noConfusion hmoved
        · rcases h with h | h
          · exact absurd h hdifficulty
          · exact absurd h (by simp)
  · exact iff_of_true (fun _ => handleConnectChallengeResponse_other hchallenged)
      fun h => absurd h hchallenged

/-- A connection taken out of the list is the only one that a handler changes then. -/
theorem unchanged_of_erase {s' : NetInterface P} (hq : q ∈ s.mPendingConnections)
    (hpending : s'.mPendingConnections = s.mPendingConnections.erase q)
    (hother : ∀ r, r ≠ q → s'.connection r = s.connection r) (hstays : Stays s s' p) :
    s'.connection p = s.connection p := by
  by_cases hpq : p = q
  · have hcount := hstays.1
    have hpos := List.count_pos_iff.mpr hq
    rw [hpending, hpq, List.count_erase_self] at hcount
    omega
  · exact hother p hpq

/-- A connect accept packet is checked before anything of it is stored. -/
theorem connectAccept_unchanged :
    Stays s (s.handleConnectAccept x address stream) p →
      (s.handleConnectAccept x address stream).connection p = s.connection p := by
  simp only [handleConnectAccept]
  cases hfind : s.findPendingConnection address with
  | none => exact fun _ => rfl
  | some q =>
    have hq : q ∈ s.mPendingConnections := List.mem_of_find?_eq_some hfind
    have hset : ∀ (r : ℕ) (conn : NetConnection P), r ≠ q →
        (s.set q conn).connection r = s.connection r :=
      fun r conn hr => set_connection_ne s conn hr
    dsimp only
    split_ifs
    · exact fun _ => rfl
    · exact fun _ => rfl
    · exact fun _ => rfl
    · exact unchanged_of_erase hq rfl fun r hr => hset r _ hr
    · refine unchanged_of_erase hq rfl fun r hr => ?_
      rw [setConnectionState, set_connection_ne _ _ hr]
      exact (set_connection_ne _ _ hr).trans (hset r _ hr)
    · exact fun _ => rfl
    · exact unchanged_of_erase hq rfl fun r hr => hset r _ hr
    · refine unchanged_of_erase hq rfl fun r hr => ?_
      rw [setConnectionState, set_connection_ne _ _ hr]
      exact (set_connection_ne _ _ hr).trans (hset r _ hr)

/-- The loop stops at an initiator that knows the address, at least but for the port. -/
def Stops (theAddress : Address) (firstNonce : Nonce) (conn : NetConnection P) : Bool :=
  Punched firstNonce conn ∧ conn.mConnectionParameters.mIsInitiator = true ∧
    (theAddress ∈ conn.mConnectionParameters.mPossibleAddresses ∨
      conn.mConnectionParameters.mPossibleAddresses.any theAddress.isEqualAddress = true)

/-- The connection gets one more possible address. -/
def Learns (theAddress : Address) (firstNonce : Nonce) (conn : NetConnection P) : Bool :=
  Punched firstNonce conn ∧ theAddress ∉ conn.mConnectionParameters.mPossibleAddresses ∧
    conn.mConnectionParameters.mPossibleAddresses.any theAddress.isEqualAddress = true ∧
    conn.mConnectionParameters.mPossibleAddresses.length < 5

/-- What the loop leaves of a connection that it comes to. -/
def afterVisit (theAddress : Address) (firstNonce : Nonce) (conn : NetConnection P) :
    NetConnection P :=
  if Learns theAddress firstNonce conn then addPossibleAddress theAddress conn else conn

/-- The connections that the loop comes to. -/
def visited (s : NetInterface P) (theAddress : Address) (firstNonce : Nonce) (ps : List ℕ) :
    List ℕ :=
  ps.takeWhile (fun p => !Stops theAddress firstNonce (s.connection p)) ++
    (ps.find? fun p => Stops theAddress firstNonce (s.connection p)).toList

/-- The connections after the loop. -/
def afterLoop (s : NetInterface P) (theAddress : Address) (firstNonce : Nonce) (ps : List ℕ)
    (p : ℕ) : NetConnection P :=
  if p ∈ visited s theAddress firstNonce ps then
    afterVisit theAddress firstNonce (s.connection p)
  else s.connection p

section loop

variable {theAddress : Address} {firstNonce : Nonce} {ps : List ℕ} {conn : NetConnection P}

theorem afterVisit_stops (h : Stops theAddress firstNonce conn = false) :
    Stops theAddress firstNonce (afterVisit theAddress firstNonce conn) = false := by
  cases hlearns : Learns theAddress firstNonce conn with
  | false => rwa [afterVisit, hlearns]
  | true =>
    obtain ⟨hpunched, -, hany, hroom⟩ := of_decide_eq_true hlearns
    have hinitiator : conn.mConnectionParameters.mIsInitiator = false := by
      by_contra hinitiator
      exact of_decide_eq_false h ⟨hpunched, eq_true_of_ne_false hinitiator, Or.inr hany⟩
    rw [afterVisit, hlearns, if_pos rfl, addPossibleAddress, if_pos hroom]
    simp [Stops, hinitiator]

theorem afterVisit_learns : Learns theAddress firstNonce (afterVisit theAddress firstNonce conn) =
    false := by
  cases hlearns : Learns theAddress firstNonce conn with
  | false => rwa [afterVisit, hlearns]
  | true =>
    obtain ⟨-, -, -, hroom⟩ := of_decide_eq_true hlearns
    rw [afterVisit, hlearns, if_pos rfl, addPossibleAddress, if_pos hroom]
    simp [Learns]

theorem afterLoop_stop (ps : List ℕ) (h : Stops theAddress firstNonce (s.connection p) = true) :
    (p :: ps).find? (fun r => Stops theAddress firstNonce (s.connection r)) = some p ∧
      afterLoop s theAddress firstNonce (p :: ps) =
        (s.set p (afterVisit theAddress firstNonce (s.connection p))).connection := by
  refine ⟨List.find?_cons_of_pos h, funext fun r => ?_⟩
  have hvisited : visited s theAddress firstNonce (p :: ps) = [p] := by
    simp [visited, h]
  by_cases hr : r = p
  · subst hr
    simp [afterLoop, hvisited]
  · simp [afterLoop, hvisited, hr, set_connection_ne]

theorem afterLoop_go (ps : List ℕ) (h : Stops theAddress firstNonce (s.connection p) = false) :
    let s' := s.set p (afterVisit theAddress firstNonce (s.connection p))
    (p :: ps).find? (fun r => Stops theAddress firstNonce (s.connection r)) =
        ps.find? (fun r => Stops theAddress firstNonce (s'.connection r)) ∧
      afterLoop s theAddress firstNonce (p :: ps) = afterLoop s' theAddress firstNonce ps := by
  intro s'
  have hsame : ∀ r, Stops theAddress firstNonce (s'.connection r) =
      Stops theAddress firstNonce (s.connection r) := by
    intro r
    by_cases hr : r = p
    · rw [hr, set_connection_self, h, afterVisit_stops h]
    · rw [set_connection_ne _ _ hr]
  have hvisited : visited s theAddress firstNonce (p :: ps) =
      p :: visited s' theAddress firstNonce ps := by
    simp [visited, h, hsame]
  refine ⟨?_, funext fun r => ?_⟩
  · rw [List.find?_cons_of_neg (by simp [h])]
    simp only [hsame]
  · simp only [afterLoop, hvisited, List.mem_cons]
    by_cases hr : r = p
    · subst hr
      have hagain : afterVisit theAddress firstNonce (s'.connection r) = s'.connection r := by
        rw [set_connection_self, afterVisit, afterVisit_learns, if_neg Bool.false_ne_true]
      rw [if_pos (Or.inl rfl), hagain, ite_self, set_connection_self]
    · simp [hr, s', set_connection_ne]

theorem set_connection_eq_self (s : NetInterface P) (p : ℕ) : s.set p (s.connection p) = s := by
  rw [set, Function.update_eq_self]

theorem findPunched_cons : findPunched theAddress firstNonce (p :: ps) s =
    if Stops theAddress firstNonce (s.connection p) then
      (some p, s.set p (afterVisit theAddress firstNonce (s.connection p)))
    else findPunched theAddress firstNonce ps
      (s.set p (afterVisit theAddress firstNonce (s.connection p))) := by
  have hself := set_connection_eq_self s p
  rw [findPunched]
  generalize s.connection p = conn at hself ⊢
  by_cases hpunched : Punched firstNonce conn
  · by_cases hexact : theAddress ∈ conn.mConnectionParameters.mPossibleAddresses
    · have hvisit : afterVisit theAddress firstNonce conn = conn := by
        simp [afterVisit, Learns, hexact]
      cases hinitiator : conn.mConnectionParameters.mIsInitiator <;>
        simp [hpunched, hexact, hvisit, hself, Stops, hinitiator]
    · cases hany : conn.mConnectionParameters.mPossibleAddresses.any theAddress.isEqualAddress with
      | false =>
        have hvisit : afterVisit theAddress firstNonce conn = conn := by
          simp [afterVisit, Learns, hany]
        simp [hpunched, hexact, hany, hvisit, hself, Stops]
      | true =>
        have hvisit : afterVisit theAddress firstNonce conn =
            addPossibleAddress theAddress conn := by
          by_cases hroom : conn.mConnectionParameters.mPossibleAddresses.length < 5
          · simp [afterVisit, Learns, hpunched, hexact, hany, hroom]
          · simp [afterVisit, Learns, addPossibleAddress, hroom]
        cases hinitiator : conn.mConnectionParameters.mIsInitiator <;>
          simp [hpunched, hexact, hany, hvisit, Stops, hinitiator]
  · have hvisit : afterVisit theAddress firstNonce conn = conn := by
      simp [afterVisit, Learns, hpunched]
    simp [hpunched, hvisit, hself, Stops]

end loop

theorem findPunched_eq (theAddress : Address) (firstNonce : Nonce) (ps : List ℕ)
    (s : NetInterface P) : findPunched theAddress firstNonce ps s =
      (ps.find? (fun p => Stops theAddress firstNonce (s.connection p)),
        { s with connection := afterLoop s theAddress firstNonce ps }) := by
  induction ps generalizing s with
  | nil => rfl
  | cons p ps ih =>
    rw [findPunched_cons]
    cases hstops : Stops theAddress firstNonce (s.connection p) with
    | true =>
      obtain ⟨hfind, hloop⟩ := afterLoop_stop ps hstops
      rw [hfind, hloop, if_pos rfl]
      rfl
    | false =>
      obtain ⟨hfind, hloop⟩ := afterLoop_go ps hstops
      rw [hfind, hloop, if_neg Bool.false_ne_true, ih]
      rfl

/-- The stream behind the first nonce of a punch packet. -/
def behindNonce (x : Chance P) (stream : BitStream) : BitStream := (readNonce x.nonce stream).2

/-- The connection gets one more address from the packet. -/
def PunchLearns (s : NetInterface P) (x : Chance P) (theAddress : Address) (stream : BitStream)
    (p : ℕ) : Prop :=
  p ∈ visited s theAddress (readNonce x.nonce stream).1 s.mPendingConnections ∧
    Learns theAddress (readNonce x.nonce stream).1 (s.connection p) = true

/-- What is left of a punch packet for a connection when it is decrypted. -/
def decrypted (s : NetInterface P) (x : Chance P) (stream : BitStream) (p : ℕ) :
    Bool × BitStream :=
  decrypt (s.connection p).mConnectionParameters.mArrangedSecret (behindNonce x stream)

/-- The packet is for the connection, and has its secret and its nonces. -/
def PunchAuthentic (s : NetInterface P) (x : Chance P) (theAddress : Address) (stream : BitStream)
    (p : ℕ) : Prop :=
  s.mPendingConnections.find? (fun p =>
      Stops theAddress (readNonce x.nonce stream).1 (s.connection p)) = some p ∧
    (s.decrypted x stream p).1 = true ∧
    (readNonce x.serverNonce (s.decrypted x stream p).2).1 =
      (s.connection p).mConnectionParameters.mNonce

def punchOffer (s : NetInterface P) (x : Chance P) (stream : BitStream) (p : ℕ) : Offer P :=
  Offer.read (readNonce x.serverNonce (s.decrypted x stream p).2).2

/-- The connection gets no address from a packet that it does not accept, and no key from one whose
key it refuses. -/
def PunchKnown (s : NetInterface P) (x : Chance P) (theAddress : Address) (stream : BitStream)
    (p : ℕ) : Prop :=
  (¬ (PunchAuthentic s x theAddress stream p ∧ (s.punchOffer x stream p).Acceptable = true) →
      ¬ PunchLearns s x theAddress stream p) ∧
    (PunchAuthentic s x theAddress stream p → (s.punchOffer x stream p).Acceptable = false →
      (s.punchOffer x stream p).Known (s.connection p).mConnectionParameters)

/-- A visit changes nothing but the possible addresses. -/
theorem afterVisit_spec (theAddress : Address) (firstNonce : Nonce) (conn : NetConnection P) :
    ∃ addresses, afterVisit theAddress firstNonce conn = { conn with
      mConnectionParameters := { conn.mConnectionParameters with
        mPossibleAddresses := addresses } } ∧
      (addresses = conn.mConnectionParameters.mPossibleAddresses ↔
        Learns theAddress firstNonce conn = false) := by
  cases hlearns : Learns theAddress firstNonce conn with
  | false => exact ⟨_, by rw [afterVisit, hlearns]; rfl, by simp⟩
  | true =>
    obtain ⟨-, -, -, hroom⟩ := of_decide_eq_true hlearns
    refine ⟨_, by rw [afterVisit, hlearns, if_pos rfl, addPossibleAddress, if_pos hroom], ?_⟩
    simp

theorem afterLoop_spec (s : NetInterface P) (theAddress : Address) (firstNonce : Nonce)
    (ps : List ℕ) (p : ℕ) :
    ∃ addresses, afterLoop s theAddress firstNonce ps p = { s.connection p with
      mConnectionParameters := { (s.connection p).mConnectionParameters with
        mPossibleAddresses := addresses } } ∧
      (addresses = (s.connection p).mConnectionParameters.mPossibleAddresses ↔
        ¬ (p ∈ visited s theAddress firstNonce ps ∧
          Learns theAddress firstNonce (s.connection p) = true)) := by
  by_cases hvisited : p ∈ visited s theAddress firstNonce ps
  · obtain ⟨addresses, heq, hiff⟩ := afterVisit_spec theAddress firstNonce (s.connection p)
    refine ⟨addresses, by rw [afterLoop, if_pos hvisited, heq], ?_⟩
    rw [hiff]
    simp [hvisited]
  · exact ⟨_, by rw [afterLoop, if_neg hvisited], by simp [hvisited]⟩

/-- The interface after the loop over the pending connections. -/
def looped (s : NetInterface P) (x : Chance P) (theAddress : Address) (stream : BitStream) :
    NetInterface P :=
  { s with
    connection := afterLoop s theAddress (readNonce x.nonce stream).1 s.mPendingConnections }

theorem looped_spec (s : NetInterface P) (x : Chance P) (theAddress : Address)
    (stream : BitStream) (p : ℕ) :
    ∃ addresses, (s.looped x theAddress stream).connection p = { s.connection p with
      mConnectionParameters := { (s.connection p).mConnectionParameters with
        mPossibleAddresses := addresses } } ∧
      (addresses = (s.connection p).mConnectionParameters.mPossibleAddresses ↔
        ¬ PunchLearns s x theAddress stream p) :=
  afterLoop_spec s theAddress (readNonce x.nonce stream).1 s.mPendingConnections p

/-- What a punch packet does once the loop has found a connection. -/
def punched (s : NetInterface P) (x : Chance P) (theAddress : Address) (stream : BitStream)
    (q : ℕ) : NetInterface P :=
  let theParams := (s.connection q).mConnectionParameters
  let (decrypted, stream) := decrypt theParams.mArrangedSecret (behindNonce x stream)
  if !decrypted then s
  else
    let (nextNonce, stream) := readNonce x.serverNonce stream
    if nextNonce ≠ theParams.mNonce then s
    else
      let (theParams, accepted) := theParams.take s.mPrivateKey x (Offer.read stream)
      if !accepted then s.setParameters q theParams
      else s.set q { s.connection q with
        mConnectionParameters := theParams
        mNetAddress := theAddress
        mConnectionState := awaitingConnectResponse }

theorem handlePunch_loop (s : NetInterface P) (x : Chance P) (theAddress : Address)
    (stream : BitStream) : s.handlePunch x theAddress stream =
      match s.mPendingConnections.find? (fun p =>
        Stops theAddress (readNonce x.nonce stream).1 (s.connection p)) with
      | none => s.looped x theAddress stream
      | some q => (s.looped x theAddress stream).punched x theAddress stream q := by
  rw [handlePunch]
  dsimp only
  rw [findPunched_eq]
  rfl

theorem punched_ne (h : p ≠ q) :
    (s.punched x address stream q).connection p = s.connection p := by
  simp only [punched]
  split_ifs
  · rfl
  · rfl
  · rw [setParameters, set_connection_ne _ _ h]
  · rw [set_connection_ne _ _ h]

theorem punched_pending : (s.punched x address stream q).mPendingConnections =
    s.mPendingConnections := by
  simp only [punched]
  split_ifs <;> rfl

/-- A packet that is not for the connection, or that does not have its secret and its nonces, only
goes through the loop. -/
theorem handlePunch_other (h : ¬ PunchAuthentic s x address stream p) :
    (s.handlePunch x address stream).connection p =
      (s.looped x address stream).connection p := by
  rw [handlePunch_loop]
  cases hfind : s.mPendingConnections.find? (fun p =>
      Stops address (readNonce x.nonce stream).1 (s.connection p)) with
  | none => rfl
  | some q =>
    dsimp only
    by_cases hpq : p = q
    · subst hpq
      obtain ⟨addresses, hloop, -⟩ := looped_spec s x address stream p
      simp only [punched, hloop]
      split_ifs with hdecrypted hnonce
      · exact hloop
      · exact hloop
      all_goals
        refine absurd ⟨hfind, ?_, not_not.mp hnonce⟩ h
        simpa [decrypted] using hdecrypted
    · exact punched_ne hpq

theorem handlePunch_pending :
    (s.handlePunch x address stream).mPendingConnections = s.mPendingConnections := by
  rw [handlePunch_loop]
  cases s.mPendingConnections.find? (fun p =>
      Stops address (readNonce x.nonce stream).1 (s.connection p)) with
  | none => rfl
  | some q => exact punched_pending

theorem handlePunch_authentic (h : PunchAuthentic s x address stream p) :
    s.handlePunch x address stream =
      let looped := s.looped x address stream
      let taken := (looped.connection p).mConnectionParameters.take s.mPrivateKey x
        (s.punchOffer x stream p)
      if taken.2 then looped.set p { looped.connection p with
        mConnectionParameters := taken.1
        mNetAddress := address
        mConnectionState := awaitingConnectResponse }
      else looped.setParameters p taken.1 := by
  obtain ⟨hfind, hdecrypted, hnonce⟩ := h
  obtain ⟨addresses, hloop, -⟩ := looped_spec s x address stream p
  rw [handlePunch_loop, hfind]
  have hdecrypt : decrypt ((s.looped x address stream).connection p).mConnectionParameters.mArrangedSecret
      (behindNonce x stream) = s.decrypted x stream p := by
    rw [hloop]
    rfl
  have hsame : ((s.looped x address stream).connection p).mConnectionParameters.mNonce =
      (s.connection p).mConnectionParameters.mNonce := by rw [hloop]
  have hoffer : Offer.read (readNonce x.serverNonce (s.decrypted x stream p).2).2 =
      s.punchOffer x stream p := rfl
  have hkey : (s.looped x address stream).mPrivateKey = s.mPrivateKey := rfl
  simp only [punched, hdecrypt, hdecrypted, hnonce, hsame, hoffer, hkey, Bool.not_true,
    Bool.false_eq_true, if_false, ne_eq, not_true_eq_false]
  cases (((s.looped x address stream).connection p).mConnectionParameters.take s.mPrivateKey x
    (s.punchOffer x stream p)).2 <;> rfl

/-- A rejected punch packet leaves the connection as it was if and only if the connection learns
nothing from it. -/
theorem punch_unchanged_iff :
    (Stays s (s.handlePunch x address stream) p →
      (s.handlePunch x address stream).connection p = s.connection p) ↔
      PunchKnown s x address stream p := by
  obtain ⟨addresses, hloop, hlearns⟩ := looped_spec s x address stream p
  by_cases hauthentic : PunchAuthentic s x address stream p
  · rw [handlePunch_authentic hauthentic]
    dsimp only
    cases hoffer : (s.punchOffer x stream p).Acceptable with
    | true =>
      rw [if_pos (take_accepted hoffer)]
      refine iff_of_true (fun hstays => ?_)
        ⟨fun h => absurd ⟨hauthentic, hoffer⟩ h, fun _ h => absurd (hoffer.symm.trans h) (by decide)⟩
      have hstops := List.find?_some hauthentic.1
      have hmoved := hstays.2
      rw [set_connection_self, (of_decide_eq_true hstops).1.1] at hmoved
      exact NetConnectionState.noConfusion hmoved
    | false =>
      have hstays : Stays s ((s.looped x address stream).setParameters p
          (storeOffer ((s.looped x address stream).connection p).mConnectionParameters
            (s.punchOffer x stream p))) p := by
        refine ⟨rfl, ?_⟩
        rw [setParameters, set_connection_self, hloop]
      rw [take_refused hoffer, if_neg Bool.false_ne_true, setParameters, set_connection_self]
      rw [setParameters] at hstays
      rw [hloop] at hstays ⊢
      have hstored := storeOffer_eq_iff (s.punchOffer x stream p)
        { (s.connection p).mConnectionParameters with mPossibleAddresses := addresses }
        (s.connection p).mConnectionParameters rfl rfl
      have haddresses : { (s.connection p).mConnectionParameters with
          mPossibleAddresses := addresses } = (s.connection p).mConnectionParameters ↔
          ¬ PunchLearns s x address stream p := by
        rw [← hlearns]
        exact ⟨fun h => congrArg ConnectionParameters.mPossibleAddresses h, fun h => by rw [h]⟩
      rw [haddresses] at hstored
      constructor
      · intro h
        have hparams := congrArg NetConnection.mConnectionParameters (h hstays)
        dsimp only at hparams
        obtain ⟨hnone, hknown⟩ := hstored.mp hparams
        exact ⟨fun _ => hnone, fun _ _ => hknown⟩
      · intro h _
        have hnone := h.1 fun hboth => absurd (hoffer.symm.trans hboth.2) (by decide)
        rw [hstored.mpr ⟨hnone, h.2 hauthentic hoffer⟩]
  · have hconnection := handlePunch_other hauthentic
    rw [hloop] at hconnection
    have hstays : Stays s (s.handlePunch x address stream) p := by
      refine ⟨by rw [handlePunch_pending], ?_⟩
      rw [hconnection]
    rw [hconnection]
    constructor
    · intro h
      refine ⟨fun _ => ?_, fun h => absurd h hauthentic⟩
      exact hlearns.mp (congrArg (fun conn => conn.mConnectionParameters.mPossibleAddresses)
        (h hstays))
    · intro h _
      rw [hlearns.mpr (h.1 fun hboth => hauthentic hboth.1)]

/-- A connection that is disconnected was connected, and one that waits for a request stays. -/
theorem disconnect_spec (s : NetInterface P) (old r : ℕ) :
    ((s.disconnect old).connection r = s.connection r ∨
      (s.connection r).mConnectionState = connected ∧
        ((s.disconnect old).connection r).mConnectionState = disconnected) ∧
    ((s.connection r).mConnectionState = sendingPunchPackets →
      (s.disconnect old).connection r = s.connection r ∧
      (s.disconnect old).mPendingConnections.count r = s.mPendingConnections.count r) := by
  rw [disconnect]
  split_ifs with hpending hconnected
  · refine ⟨Or.inl rfl, fun hstate => ⟨rfl, ?_⟩⟩
    have hne : r ≠ old := by
      rintro rfl
      rw [hstate] at hpending
      exact absurd hpending (by decide)
    exact List.count_erase_of_ne hne
  · by_cases hr : r = old
    · subst hr
      refine ⟨Or.inr ⟨hconnected, ?_⟩, fun hstate => ?_⟩
      · exact congrArg NetConnection.mConnectionState (set_connection_self s r _)
      · rw [hconnected] at hstate
        exact NetConnectionState.noConfusion hstate
    · have hsame : (s.setConnectionState old disconnected).connection r = s.connection r :=
        set_connection_ne _ _ hr
      exact ⟨Or.inl hsame, fun _ => ⟨hsame, rfl⟩⟩
  · exact ⟨Or.inl rfl, fun _ => ⟨rfl, rfl⟩⟩

/-- The lists and connections when an accepted request comes to the connect data. -/
structure Reached (s s' : NetInterface P) (q : ℕ) : Prop where
  waiting : (s'.connection q).mConnectionState = sendingPunchPackets
  count : s'.mPendingConnections.count q = s.mPendingConnections.count q
  other : ∀ r, r ≠ q → s'.connection r = s.connection r ∨
    (s.connection r).mConnectionState = connected ∧
      (s'.connection r).mConnectionState = disconnected

theorem Reached.disconnect {s' : NetInterface P} (h : Reached s s' q) (old : ℕ) :
    Reached s (s'.disconnect old) q := by
  obtain ⟨hconn, hcount⟩ := (disconnect_spec s' old q).2 h.waiting
  refine ⟨by rw [hconn]; exact h.waiting, hcount.trans h.count, fun r hr => ?_⟩
  rcases (disconnect_spec s' old r).1 with hsame | ⟨hbefore, hafter⟩
  · rw [hsame]
    exact h.other r hr
  · rcases h.other r hr with heq | ⟨-, hgone⟩
    · rw [heq] at hbefore
      exact Or.inr ⟨hbefore, hafter⟩
    · rw [hgone] at hbefore
      exact NetConnectionState.noConfusion hbefore

theorem Reached.unchanged {s' : NetInterface P} (h : Reached s s' q)
    (hq : q ∈ s.mPendingConnections)
    (hstate : (s.connection q).mConnectionState = sendingPunchPackets) (accepted : Bool)
    (conn : NetConnection P) :
    let s'' := if !accepted then (s'.set q conn).removePendingConnection q
      else (((s'.set q conn).addConnection q).removePendingConnection q).setConnectionState q
        connected
    Stays s s'' p → s''.connection p = s.connection p := by
  intro s'' hstays
  by_cases hpq : p = q
  · subst hpq
    cases haccepted : accepted with
    | false =>
      have hcount := hstays.1
      have hpos := List.count_pos_iff.mpr hq
      have herased : s''.mPendingConnections.count p = s'.mPendingConnections.count p - 1 := by
        simp only [s'', haccepted]
        exact List.count_erase_self
      rw [herased, h.count] at hcount
      omega
    | true =>
      have hmoved := hstays.2
      have hconnected : (s''.connection p).mConnectionState = connected := by
        simp only [s'', haccepted]
        exact congrArg NetConnection.mConnectionState (set_connection_self _ p _)
      rw [hconnected, hstate] at hmoved
      exact NetConnectionState.noConfusion hmoved
  · have hsame : s''.connection p = s'.connection p := by
      simp only [s'']
      split_ifs
      · exact set_connection_ne _ _ hpq
      · rw [setConnectionState, set_connection_ne _ _ hpq]
        exact set_connection_ne _ _ hpq
    rw [hsame]
    rcases h.other p hpq with heq | ⟨hbefore, hafter⟩
    · exact heq
    · have hmoved := hstays.2
      rw [hsame, hafter, hbefore] at hmoved
      exact NetConnectionState.noConfusion hmoved

theorem acceptRequest_unchanged {s' : NetInterface P} {oldConnection : Option ℕ}
    {theAddress : Address} (hq : q ∈ s.mPendingConnections)
    (hstate : (s.connection q).mConnectionState = sendingPunchPackets)
    (hpending : s'.mPendingConnections = s.mPendingConnections)
    (hwaiting : (s'.connection q).mConnectionState = sendingPunchPackets)
    (hother : ∀ r, r ≠ q → s'.connection r = s.connection r) :
    Stays s (s'.acceptRequest x theAddress oldConnection q stream) p →
      (s'.acceptRequest x theAddress oldConnection q stream).connection p = s.connection p := by
  have hset : Reached s (s'.setParameters q { (s'.connection q).mConnectionParameters with
      mDebugObjectSizes := stream.readFlag.1 }) q := by
    refine ⟨?_, by rw [← hpending]; rfl, fun r hr => Or.inl ?_⟩
    · rw [setParameters, set_connection_self]
      exact hwaiting
    · exact (set_connection_ne _ _ hr).trans (hother r hr)
  rw [acceptRequest]
  cases oldConnection with
  | none => exact hset.unchanged hq hstate x.accepted _
  | some old => exact (hset.disconnect old).unchanged hq hstate x.accepted _

/-- The stream behind the server nonce of an arranged connect request. -/
def requestRest (s : NetInterface P) (x : Chance P) (stream : BitStream) (p : ℕ) :
    Nonce × BitStream :=
  let body := (s.decrypted x stream p).2
  readNonce x.serverNonce (setBytePosition body (getBytePosition body))

/-- An arranged connect request for the connection has the arranged secret and both nonces, but is
not encrypted with its own key. -/
structure KeysRefused (s : NetInterface P) (x : Chance P) (theAddress : Address)
    (stream : BitStream) (p : ℕ) (key : P.PrivateKey) : Prop where
  fresh : (s.findConnection theAddress).any (fun old =>
    (s.connection old).mConnectionParameters.mNonce = (readNonce x.nonce stream).1) = false
  found : s.mPendingConnections.find? (fun p =>
    Requested theAddress (readNonce x.nonce stream).1 (s.connection p)) = some p
  decrypted : (s.decrypted x stream p).1 = true
  serverNonce :
    (s.requestRest x stream p).1 = (s.connection p).mConnectionParameters.mServerNonce
  usingCrypto : (s.requestRest x stream p).2.readFlag.1 = true
  mPrivateKey : s.mPrivateKey = some key
  refused : (takeKeys (s.connection p).mConnectionParameters key
    (s.requestRest x stream p).2.readFlag.2).2.1 = false

/-- The keys of the request are the ones that the connection has. -/
def KeysKnown (s : NetInterface P) (x : Chance P) (stream : BitStream) (p : ℕ)
    (key : P.PrivateKey) : Prop :=
  let theParams := (s.connection p).mConnectionParameters
  let mPublicKey := (P.readPublicKey (s.requestRest x stream p).2.readFlag.2).1
  theParams.mUsingCrypto = true ∧ theParams.mPublicKey = some mPublicKey ∧
    theParams.mPrivateKey = some key ∧
    theParams.mSharedSecret = some (P.computeSharedSecretKey key mPublicKey)

theorem takeKeys_eq_iff (theParams : ConnectionParameters P) (key : P.PrivateKey)
    (stream : BitStream) : (takeKeys theParams key stream).1 = theParams ↔
      theParams.mUsingCrypto = true ∧
      theParams.mPublicKey = some (P.readPublicKey stream).1 ∧ theParams.mPrivateKey = some key ∧
      theParams.mSharedSecret =
        some (P.computeSharedSecretKey key (P.readPublicKey stream).1) := by
  simp only [takeKeys]
  constructor
  · intro h
    rw [← h]
    exact ⟨rfl, rfl, rfl, rfl⟩
  · rintro ⟨hcrypto, hpublic, hprivate, hsecret⟩
    rw [← hcrypto, ← hpublic, ← hprivate, ← hsecret]

/-- What an arranged connect request does once a connection is found for it. -/
def requested (s : NetInterface P) (x : Chance P) (theAddress : Address) (stream : BitStream)
    (q : ℕ) : NetInterface P :=
  let theParams := (s.connection q).mConnectionParameters
  if !(s.decrypted x stream q).1 then s
  else
    let (serverNonce, rest) := s.requestRest x stream q
    if serverNonce ≠ theParams.mServerNonce then s
    else
      let (usingCrypto, rest) := rest.readFlag
      if usingCrypto then
        match s.mPrivateKey with
        | none => s
        | some key =>
          let (theParams, decrypted, rest) := takeKeys theParams key rest
          if !decrypted then s.setParameters q theParams
          else
            let (mSymmetricKey, rest) := readBlock theParams.mSymmetricKey rest
            let s' := s.setParameters q { theParams with
              mSymmetricKey := mSymmetricKey
              mInitVector := x.randomBlock }
            s'.acceptRequest x theAddress (s.findConnection theAddress) q rest
      else s.acceptRequest x theAddress (s.findConnection theAddress) q rest

theorem handleArrangedConnectRequest_eq (s : NetInterface P) (x : Chance P) (theAddress : Address)
    (stream : BitStream) : s.handleArrangedConnectRequest x theAddress stream =
      if (s.findConnection theAddress).any (fun old =>
        (s.connection old).mConnectionParameters.mNonce = (readNonce x.nonce stream).1) then s
      else match s.mPendingConnections.find? (fun p =>
        Requested theAddress (readNonce x.nonce stream).1 (s.connection p)) with
      | none => s
      | some q => s.requested x theAddress stream q := rfl

/-- The connection that the request is for. -/
theorem requested_unchanged_iff {theAddress : Address} (hq : q ∈ s.mPendingConnections)
    (hstate : (s.connection q).mConnectionState = sendingPunchPackets) :
    (Stays s (s.requested x theAddress stream q) p →
      (s.requested x theAddress stream q).connection p = s.connection p) ↔
      (p = q → (s.decrypted x stream q).1 = true →
        (s.requestRest x stream q).1 = (s.connection q).mConnectionParameters.mServerNonce →
        (s.requestRest x stream q).2.readFlag.1 = true → ∀ key, s.mPrivateKey = some key →
        (takeKeys (s.connection q).mConnectionParameters key
          (s.requestRest x stream q).2.readFlag.2).2.1 = false → KeysKnown s x stream q key) := by
  rw [requested]
  dsimp only
  by_cases hdecrypted : (s.decrypted x stream q).1 = true
  · rw [if_neg (by simp [hdecrypted])]
    by_cases hnonce : (s.requestRest x stream q).1 =
        (s.connection q).mConnectionParameters.mServerNonce
    · rw [if_neg (not_not_intro hnonce)]
      by_cases hcrypto : (s.requestRest x stream q).2.readFlag.1 = true
      · rw [if_pos hcrypto]
        cases hkey : s.mPrivateKey with
        | none => exact iff_of_true (fun _ => rfl) fun _ _ _ _ key h => by cases h
        | some key =>
          dsimp only
          cases hrefused : (takeKeys (s.connection q).mConnectionParameters key
            (s.requestRest x stream q).2.readFlag.2).2.1 with
          | false =>
            rw [if_pos (by simp)]
            by_cases hpq : p = q
            · subst hpq
              rw [setParameters_unchanged_iff, takeKeys_eq_iff]
              constructor
              · rintro h _ _ _ _ _ hsame _
                obtain rfl := Option.some.inj hsame
                exact h
              · exact fun h => h rfl hdecrypted hnonce hcrypto key rfl hrefused
            · exact iff_of_true (fun _ => set_connection_ne _ _ hpq) fun h => absurd h hpq
          | true =>
            rw [if_neg (by simp)]
            refine iff_of_true (acceptRequest_unchanged hq hstate rfl ?_ fun r hr =>
              set_connection_ne _ _ hr) ?_
            · rw [setParameters, set_connection_self]
              exact hstate
            · rintro _ _ _ _ _ hsame hfalse
              obtain rfl := Option.some.inj hsame
              exact absurd (hrefused.symm.trans hfalse) (by decide)
      · rw [if_neg hcrypto]
        exact iff_of_true (acceptRequest_unchanged hq hstate rfl hstate fun r _ => rfl)
          fun _ _ _ h => absurd h hcrypto
    · rw [if_pos hnonce]
      exact iff_of_true (fun _ => rfl) fun _ _ h => absurd h hnonce
  · rw [if_pos (by simp [hdecrypted])]
    exact iff_of_true (fun _ => rfl) fun _ h => absurd h hdecrypted

/-- A rejected arranged connect request leaves the connection as it was if and only if its keys are
known when they are refused. -/
theorem arrangedRequest_unchanged_iff :
    (Stays s (s.handleArrangedConnectRequest x address stream) p →
      (s.handleArrangedConnectRequest x address stream).connection p = s.connection p) ↔
      ∀ key, KeysRefused s x address stream p key → KeysKnown s x stream p key := by
  rw [handleArrangedConnectRequest_eq]
  by_cases hfresh : (s.findConnection address).any (fun old =>
      (s.connection old).mConnectionParameters.mNonce = (readNonce x.nonce stream).1) = true
  · rw [if_pos hfresh]
    exact iff_of_true (fun _ => rfl) fun key h => absurd (hfresh.symm.trans h.fresh) (by decide)
  · rw [if_neg hfresh]
    cases hfind : s.mPendingConnections.find? (fun p =>
        Requested address (readNonce x.nonce stream).1 (s.connection p)) with
    | none =>
      refine iff_of_true (fun _ => rfl) fun key h => ?_
      have hfound := h.found
      rw [hfind] at hfound
      cases hfound
    | some q =>
      have hq := List.mem_of_find?_eq_some hfind
      have hrequested := List.find?_some hfind
      have hstate := (of_decide_eq_true hrequested).1
      dsimp only
      rw [requested_unchanged_iff hq hstate]
      constructor
      · intro h key hrefused
        have hpq : p = q := Option.some.inj (hrefused.found.symm.trans hfind)
        subst hpq
        exact h rfl hrefused.decrypted hrefused.serverNonce hrefused.usingCrypto key
          hrefused.mPrivateKey hrefused.refused
      · rintro h rfl hdecrypted hnonce hcrypto key hkey hrefused
        exact h key ⟨eq_false_of_ne_true hfresh, hfind, hdecrypted, hnonce, hcrypto, hkey, hrefused⟩

/-- What a packet stores in the connection before it is rejected is what the connection has. -/
def Harmless (s : NetInterface P) (x : Chance P) (address : Address) (stream : BitStream)
    (p : ℕ) : PacketKind → Prop
  | .connectChallengeResponse => Challenged s x address stream p →
    ChallengeKnown (s.connection p).mConnectionParameters x stream
  | .punch => PunchKnown s x address stream p
  | .arrangedConnectRequest => ∀ key, KeysRefused s x address stream p key →
    KeysKnown s x stream p key
  | .connectAccept => True

/-- A packet that neither moves a connection to another state nor takes it out of the list leaves it
as it was if and only if it is harmless to the connection. -/
theorem receive_unchanged_iff (s : NetInterface P) (x : Chance P) (address : Address)
    (stream : BitStream) (kind : PacketKind) (p : ℕ) :
    (Stays s (s.receive x address stream kind) p →
      (s.receive x address stream kind).connection p = s.connection p) ↔
      s.Harmless x address stream p kind := by
  cases kind with
  | connectChallengeResponse => exact challengeResponse_unchanged_iff
  | punch => exact punch_unchanged_iff
  | arrangedConnectRequest => exact arrangedRequest_unchanged_iff
  | connectAccept => exact iff_of_true connectAccept_unchanged trivial

/-- Keys and certificates that carry nothing. -/
def unitKeys : KeyPrimitives where
  Certificate := Unit
  PublicKey := Unit
  PrivateKey := Unit
  Secret := Unit
  readCertificate stream := ((), stream)
  certificateIsValid _ := true
  validateCertificate _ := true
  getPublicKey _ := ()
  readPublicKey stream := ((), stream)
  publicKeyIsValid _ := true
  validatePublicKey _ := true
  publicKeySize _ := 32
  privateKeySize _ := 32
  computeSharedSecretKey _ _ := ()
  symmetricCipher _ := ⟨fun buffer _ _ => buffer, fun _ _ => []⟩
  checkOneSolution _ _ _ _ _ := true

/-- A connection that waits for a challenge response. -/
def waitingConnection : NetConnection unitKeys where
  mNetAddress := .unset
  mConnectionState := awaitingChallengeResponse
  mConnectionParameters :=
    { mIsArranged := false
      mUsingCrypto := false
      mPuzzleRetried := false
      mNonce := 0
      mServerNonce := 0
      mPuzzleDifficulty := 0
      mPuzzleSolution := 0
      mClientIdentity := 0
      mPublicKey := none
      mPrivateKey := none
      mCertificate := none
      mSharedSecret := none
      mRequestKeyExchange := false
      mRequestCertificate := false
      mSymmetricKey := []
      mInitVector := []
      mPossibleAddresses := []
      mIsInitiator := false
      mArrangedSecret := none
      mDebugObjectSizes := false }
  mInitialSendSeq := 0
  mInitialRecvSeq := 0
  mSymmetricCipher := none

/-- A challenge response with the right nonce asks for a puzzle that is too hard, and leaves its
identity token and the difficulty in the connection. -/
theorem challengeResponse_changes :
    ¬ ∀ (P : KeyPrimitives) (s : NetInterface P) (x : Chance P) (address : Address)
      (stream : BitStream) (kind : PacketKind) (p : ℕ), p ∈ s.mPendingConnections →
      Stays s (s.receive x address stream kind) p →
        (s.receive x address stream kind).connection p = s.connection p := by
  intro hclaim
  let s : NetInterface unitKeys := ⟨fun _ => waitingConnection, [], [0], none⟩
  let x : Chance unitKeys := ⟨0, 0, 0, 0, fun _ => (), [], 0, true⟩
  let stream : BitStream :=
    ⟨(27 * 2 ^ 160 + 7 * 2 ^ 64).testBit, 24, false, 0, false, 192, 192⟩
  have hsame := hclaim unitKeys s x .unset stream .connectChallengeResponse 0 (by decide)
    ⟨by decide +kernel, by decide +kernel⟩
  have hidentity := congrArg (fun conn => conn.mConnectionParameters.mClientIdentity) hsame
  exact absurd hidentity (by decide +kernel)

end NetInterface

end Attempt

end TNL
