import TNL.Library.LossyLink
import TNL.Library.Run
import TNL.Zap.ControlObjectConnection

/-!
# The order in which moves are applied

The server takes the first move of a packet that it does not skip for its next one.
So it applies the moves in order and none twice as long as no packet begins behind
its next move.
-/
namespace TNL
open Library

/-- A client and a server, the packets between them and the moves that were applied. -/
structure MoveStream where
  client : ControlObjectConnection
  server : ControlObjectConnection
  link : LossyLink MovePacket
  recorded : ℕ
  applied : List Move

namespace MoveStream

inductive Action where
  | addPendingMove (time : U32)
  | addToTimeCredit (timeAmount : U32)
  | write
  | receive (valid : Move → Bool)
  | lose
  | notify

def start : MoveStream := ⟨.new, .new, .empty, 0, []⟩

/-- A move is recorded if there is room for it. -/
def step (s : MoveStream) : Action → Option MoveStream
  | .addPendingMove time => some { s with
      client := s.client.addPendingMove ⟨s.recorded + 1, time⟩
      recorded := if s.client.pendingMoves.length < ControlObjectConnection.maxPendingMoves then
        s.recorded + 1 else s.recorded }
  | .addToTimeCredit timeAmount => some { s with
      server := s.server.addToTimeCredit timeAmount }
  | .write =>
    let (packet, client) := s.client.writePacket
    some { s with client := client, link := s.link.send packet }
  | .receive valid => (s.link.settle true).map (fun (packet, link) =>
      let (server, applied) := s.server.readPacket valid packet
      { s with server := server, link := link, applied := s.applied ++ applied })
  | .lose => (s.link.settle false).map (fun (_, link) => { s with link := link })
  | .notify => (s.link.notify).map (fun ((packet, received), link) => { s with
      client := if received then s.client.packetReceived packet else s.client
      link := link })

/-- No packet with moves begins behind the server's next move, and all indices are below
`2 ^ 32`. -/
def NoGap (s : MoveStream) : Action → Prop
  | .addPendingMove _ => s.recorded + 2 < 2 ^ 32
  | .receive _ => ∀ packet ∈ s.link.inFlight.head?,
      packet.moves = [] ∨ packet.firstMove ≤ s.server.firstMoveIndex
  | _ => True

/-- The moves are in the order in which they were recorded, none twice. -/
def InOrder (s : MoveStream) : Prop := (s.applied.map (·.index)).Pairwise (· < ·)

/-! ### The indices of moves -/

/-- Successive moves from an index on. -/
def Successive (first : ℕ) (moves : List Move) : Prop :=
  moves.map (·.index) = List.range' first moves.length

theorem Successive.tail {first : ℕ} {theMove : Move} {moves : List Move}
    (h : Successive first (theMove :: moves)) :
    theMove.index = first ∧ Successive (first + 1) moves := by
  rw [Successive, List.map_cons, List.length_cons, List.range'_succ] at h
  exact List.cons.inj h

theorem Successive.drop {first : ℕ} {moves : List Move} (h : Successive first moves) (n : ℕ) :
    Successive (first + n) (moves.drop n) := by
  rw [Successive, List.map_drop, h, List.length_drop, List.drop_range', Nat.mul_one]

theorem Successive.snoc {first : ℕ} {moves : List Move} (h : Successive first moves)
    {theMove : Move} (hmove : theMove.index = first + moves.length) :
    Successive first (moves ++ [theMove]) := by
  rw [Successive, List.map_append, h, List.length_append, List.map_singleton,
    List.length_singleton, List.range'_1_concat, hmove]

theorem Successive.nil (first : ℕ) : Successive first [] := rfl

/-! ### The client -/

/-- What the client still has are the last moves that it recorded. -/
structure ClientSound (c : ControlObjectConnection) (recorded : ℕ) : Prop where
  pending : Successive c.firstMoveIndex.toNat c.pendingMoves
  total : c.firstMoveIndex.toNat + c.pendingMoves.length = recorded + 1
  bound : recorded + 1 < 2 ^ 32
  high : c.highSendIndex.1.toNat ≤ recorded + 1 ∧ c.highSendIndex.2.1.toNat ≤ recorded + 1 ∧
    c.highSendIndex.2.2.toNat ≤ recorded + 1

/-- What a packet holds. -/
structure PacketSound (packet : MovePacket) (recorded : ℕ) : Prop where
  moves : Successive packet.firstMove.toNat packet.moves
  bound : packet.firstMove.toNat + packet.moves.length ≤ recorded + 1

theorem PacketSound.mono {packet : MovePacket} {recorded recorded' : ℕ}
    (h : PacketSound packet recorded) (hle : recorded ≤ recorded') :
    PacketSound packet recorded' :=
  ⟨h.moves, h.bound.trans (Nat.succ_le_succ hle)⟩

variable {c : ControlObjectConnection} {recorded : ℕ}

theorem ClientSound.addPendingMove (h : ClientSound c recorded) (time : U32)
    (hlt : recorded + 2 < 2 ^ 32) (hroom : c.pendingMoves.length <
      ControlObjectConnection.maxPendingMoves) :
    ClientSound (c.addPendingMove ⟨recorded + 1, time⟩) (recorded + 1) := by
  rw [ControlObjectConnection.addPendingMove, if_pos hroom]
  refine ⟨h.pending.snoc h.total.symm, ?_, hlt, ?_⟩
  · rw [List.length_append, List.length_singleton, ← Nat.add_assoc, h.total]
  · exact ⟨h.high.1.trans (Nat.le_succ _), h.high.2.1.trans (Nat.le_succ _),
      h.high.2.2.trans (Nat.le_succ _)⟩

theorem eraseMoves_spec (firstUnsent : U32) {first : U32} {moves : List Move}
    (h : Successive first.toNat moves) (hlt : first.toNat + moves.length < 2 ^ 32) :
    Successive (ControlObjectConnection.eraseMoves firstUnsent first moves).1.toNat
      (ControlObjectConnection.eraseMoves firstUnsent first moves).2 ∧
    (ControlObjectConnection.eraseMoves firstUnsent first moves).1.toNat +
      (ControlObjectConnection.eraseMoves firstUnsent first moves).2.length =
        first.toNat + moves.length := by
  induction moves generalizing first with
  | nil => exact ⟨h, rfl⟩
  | cons theMove moves ih =>
    rw [ControlObjectConnection.eraseMoves]
    rw [List.length_cons] at hlt
    have hsucc : (first + 1).toNat = first.toNat + 1 := by bv_omega
    split_ifs
    · have htail : Successive (first + 1).toNat moves := hsucc.symm ▸ h.tail.2
      obtain ⟨hmoves, htotal⟩ := ih htail (by omega)
      refine ⟨hmoves, htotal.trans ?_⟩
      rw [hsucc, List.length_cons]
      omega
    · exact ⟨h, rfl⟩

theorem ClientSound.packetReceived (h : ClientSound c recorded) (notify : MovePacket) :
    ClientSound (c.packetReceived notify) recorded := by
  obtain ⟨hmoves, htotal⟩ := eraseMoves_spec notify.firstUnsentMoveIndex h.pending
    (h.total.trans_lt h.bound)
  exact ⟨hmoves, htotal.trans h.total, h.bound, h.high⟩

theorem ClientSound.writePacket (h : ClientSound c recorded) :
    PacketSound c.writePacket.1 recorded ∧ ClientSound c.writePacket.2 recorded := by
  have htotal := h.total
  have hbound := h.bound
  have hhigh := h.high
  have hskip : c.writePacket.1.firstMove.toNat =
      c.firstMoveIndex.toNat + (c.writePacket.1.firstMove - c.firstMoveIndex).toNat ∧
      c.writePacket.1.firstMove.toNat ≤ recorded + 1 := by
    simp only [ControlObjectConnection.writePacket]
    split_ifs with hlt
    · exact ⟨by bv_omega, by omega⟩
    · exact ⟨by bv_omega, hhigh.1⟩
  constructor
  · constructor
    · rw [hskip.1]
      exact h.pending.drop _
    · change _ + (c.pendingMoves.drop (c.writePacket.1.firstMove - c.firstMoveIndex).toNat).length ≤
        recorded + 1
      rw [List.length_drop]
      omega
  · refine ⟨h.pending, h.total, h.bound, hhigh.2.1, hhigh.2.2, ?_⟩
    change (c.firstMoveIndex + BitVec.ofNat 32 c.pendingMoves.length).toNat ≤ recorded + 1
    rw [BitVec.toNat_add, BitVec.toNat_ofNat]
    omega

/-! ### The server -/

/-- What is not skipped begins at the server's next move or at the front of the packet. -/
theorem skipMoves_spec (firstMoveIndex : U32) {first : U32} {moves : List Move}
    (h : Successive first.toNat moves) (hlt : first.toNat + moves.length < 2 ^ 32)
    (hle : first ≤ firstMoveIndex) : ∃ next,
      Successive next (ControlObjectConnection.skipMoves firstMoveIndex first moves) ∧
      next + (ControlObjectConnection.skipMoves firstMoveIndex first moves).length =
        first.toNat + moves.length ∧
      (ControlObjectConnection.skipMoves firstMoveIndex first moves = [] ∨
        next = firstMoveIndex.toNat) := by
  induction moves generalizing first with
  | nil => exact ⟨first.toNat, h, rfl, .inl rfl⟩
  | cons theMove moves ih =>
    rw [ControlObjectConnection.skipMoves]
    rw [List.length_cons] at hlt
    have hsucc : (first + 1).toNat = first.toNat + 1 := by bv_omega
    split_ifs with hskip
    · have htail : Successive (first + 1).toNat moves := hsucc.symm ▸ h.tail.2
      obtain ⟨next, hmoves, htotal, hnext⟩ := ih htail (by omega) (by bv_omega)
      refine ⟨next, hmoves, htotal.trans ?_, hnext⟩
      rw [hsucc, List.length_cons]
      omega
    · exact ⟨first.toNat, h, rfl, .inr (by bv_omega)⟩

/-- Every move that is processed counts, whether it is applied or not. -/
theorem processMoves_spec (valid : Move → Bool) (c : ControlObjectConnection)
    (moves : List Move) :
    (c.processMoves valid moves).1.firstMoveIndex =
      c.firstMoveIndex + BitVec.ofNat 32 moves.length ∧
    (c.processMoves valid moves).2.Sublist moves := by
  induction moves generalizing c with
  | nil => exact ⟨(BitVec.add_zero _).symm, List.Sublist.refl _⟩
  | cons theMove moves ih =>
    have hlength : ∀ i : U32, i + 1 + BitVec.ofNat 32 moves.length =
        i + BitVec.ofNat 32 (theMove :: moves).length := by
      intro i
      rw [List.length_cons, Nat.add_comm, BitVec.ofNat_add, ← BitVec.add_assoc]
      rfl
    rw [ControlObjectConnection.processMoves]
    split_ifs
    · obtain ⟨hindex, hsublist⟩ := ih { c with
        mMoveTimeCredit := c.mMoveTimeCredit - theMove.time
        firstMoveIndex := c.firstMoveIndex + 1 }
      exact ⟨hindex.trans (hlength _), hsublist.cons_cons theMove⟩
    · obtain ⟨hindex, hsublist⟩ := ih { c with firstMoveIndex := c.firstMoveIndex + 1 }
      exact ⟨hindex.trans (hlength _), hsublist.cons theMove⟩

/-- The server has applied moves before its next one, in order. -/
structure ServerSound (c : ControlObjectConnection) (applied : List Move) (recorded : ℕ) :
    Prop where
  bound : c.firstMoveIndex.toNat ≤ recorded + 1
  before : ∀ theMove ∈ applied, theMove.index < c.firstMoveIndex.toNat
  order : (applied.map (·.index)).Pairwise (· < ·)

theorem ServerSound.readPacket {applied : List Move} (h : ServerSound c applied recorded)
    (hrecorded : recorded + 1 < 2 ^ 32) {packet : MovePacket}
    (hpacket : PacketSound packet recorded)
    (hgap : packet.moves = [] ∨ packet.firstMove ≤ c.firstMoveIndex) (valid : Move → Bool) :
    ServerSound (c.readPacket valid packet).1 (applied ++ (c.readPacket valid packet).2)
      recorded := by
  have hskip : ∃ next, Successive next
      (ControlObjectConnection.skipMoves c.firstMoveIndex packet.firstMove packet.moves) ∧
      next + (ControlObjectConnection.skipMoves c.firstMoveIndex packet.firstMove
        packet.moves).length = packet.firstMove.toNat + packet.moves.length ∧
      (ControlObjectConnection.skipMoves c.firstMoveIndex packet.firstMove packet.moves = [] ∨
        next = c.firstMoveIndex.toNat) := by
    cases hgap with
    | inl hnil =>
      rw [hnil]
      exact ⟨_, Successive.nil _, rfl, .inl rfl⟩
    | inr hle =>
      exact skipMoves_spec c.firstMoveIndex hpacket.moves
        (Nat.lt_of_le_of_lt hpacket.bound hrecorded) hle
  obtain ⟨next, hmoves, htotal, hnext⟩ := hskip
  obtain ⟨hindex, hsublist⟩ := processMoves_spec valid c
    (ControlObjectConnection.skipMoves c.firstMoveIndex packet.firstMove packet.moves)
  rw [ControlObjectConnection.readPacket]
  cases hnext with
  | inl hnil =>
    rw [hnil]
    exact ⟨h.bound, by rw [ControlObjectConnection.processMoves, List.append_nil]; exact h.before,
      by rw [ControlObjectConnection.processMoves, List.append_nil]; exact h.order⟩
  | inr hnext =>
    subst hnext
    set moves := ControlObjectConnection.skipMoves c.firstMoveIndex packet.firstMove packet.moves
    have hle := hpacket.bound
    have hfirst : (c.processMoves valid moves).1.firstMoveIndex.toNat =
        c.firstMoveIndex.toNat + moves.length := by
      rw [hindex, BitVec.toNat_add, BitVec.toNat_ofNat]
      omega
    have hrange : ∀ theMove ∈ (c.processMoves valid moves).2,
        c.firstMoveIndex.toNat ≤ theMove.index ∧
          theMove.index < c.firstMoveIndex.toNat + moves.length := by
      intro theMove hmove
      have hmem : theMove.index ∈ moves.map (·.index) :=
        List.mem_map_of_mem (hsublist.subset hmove)
      rw [hmoves] at hmem
      simpa using hmem
    constructor
    · rw [hfirst]
      omega
    · intro theMove hmove
      rw [hfirst]
      cases List.mem_append.mp hmove with
      | inl hmove => exact Nat.lt_add_right _ (h.before theMove hmove)
      | inr hmove => exact (hrange theMove hmove).2
    · rw [List.map_append, List.pairwise_append]
      refine ⟨h.order, ?_, ?_⟩
      · refine List.Pairwise.sublist (hsublist.map _) ?_
        rw [hmoves]
        exact List.pairwise_lt_range'
      · intro i hi j hj
        obtain ⟨theMove, hmove, rfl⟩ := List.mem_map.mp hi
        obtain ⟨theMove', hmove', rfl⟩ := List.mem_map.mp hj
        exact (h.before theMove hmove).trans_le (hrange theMove' hmove').1

/-! ### Runs -/

structure Sound (s : MoveStream) : Prop where
  client : ClientSound s.client s.recorded
  server : ServerSound s.server s.applied s.recorded
  packets : ∀ packet ∈ s.link.outstanding, PacketSound packet.1 s.recorded

theorem Sound.start : Sound start where
  client := ⟨rfl, rfl, by decide, by decide⟩
  server := ⟨by decide, nofun, List.Pairwise.nil⟩
  packets := nofun

/-- What is outstanding after a packet settles was so before. -/
theorem Sound.settle {s : MoveStream} (h : Sound s) {received : Bool} {packet : MovePacket}
    {link : LossyLink MovePacket} (hsettle : s.link.settle received = some (packet, link)) :
    PacketSound packet s.recorded ∧
      ∀ packet ∈ link.outstanding, PacketSound packet.1 s.recorded := by
  obtain ⟨before, after, hbefore, hafter⟩ := LossyLink.settle_spec hsettle
  have hpackets := h.packets
  rw [hbefore, List.forall_mem_append, List.forall_mem_cons] at hpackets
  refine ⟨hpackets.2.1, ?_⟩
  rw [hafter, List.forall_mem_append, List.forall_mem_cons]
  exact hpackets

theorem Sound.step {s t : MoveStream} {a : Action} (h : Sound s) (allowed : NoGap s a)
    (taken : step s a = some t) : Sound t := by
  cases a with
  | addPendingMove time =>
    cases taken
    have hle : s.recorded ≤ s.recorded + 1 := Nat.le_succ _
    split_ifs with hroom
    · exact ⟨h.client.addPendingMove time allowed hroom,
        ⟨h.server.bound.trans (Nat.succ_le_succ hle), h.server.before, h.server.order⟩,
        fun packet hpacket => (h.packets packet hpacket).mono hle⟩
    · simp only [ControlObjectConnection.addPendingMove, if_neg hroom]
      exact ⟨h.client, h.server, h.packets⟩
  | addToTimeCredit timeAmount =>
    cases taken
    exact ⟨h.client, ⟨h.server.bound, h.server.before, h.server.order⟩, h.packets⟩
  | write =>
    cases taken
    obtain ⟨hpacket, hclient⟩ := h.client.writePacket
    refine ⟨hclient, h.server, ?_⟩
    change ∀ packet ∈ (s.link.send s.client.writePacket.1).outstanding, _
    rw [LossyLink.outstanding_send, List.forall_mem_append, List.forall_mem_singleton]
    exact ⟨h.packets, hpacket⟩
  | receive valid =>
    obtain ⟨⟨packet, link⟩, hsettle, rfl⟩ := Option.map_eq_some_iff.mp taken
    obtain ⟨hpacket, hpackets⟩ := h.settle hsettle
    have hhead : packet ∈ s.link.inFlight.head? := LossyLink.settle_head hsettle
    exact ⟨h.client, h.server.readPacket h.client.bound hpacket (allowed packet hhead) valid,
      hpackets⟩
  | lose =>
    obtain ⟨⟨packet, link⟩, hsettle, rfl⟩ := Option.map_eq_some_iff.mp taken
    exact ⟨h.client, h.server, (h.settle hsettle).2⟩
  | notify =>
    obtain ⟨⟨⟨packet, received⟩, link⟩, hnotify, rfl⟩ := Option.map_eq_some_iff.mp taken
    have hpackets := h.packets
    rw [LossyLink.notify_spec hnotify, List.forall_mem_cons] at hpackets
    refine ⟨?_, h.server, hpackets.2⟩
    cases received with
    | true => exact h.client.packetReceived packet
    | false => exact h.client

theorem inOrder_of_noGap {s : MoveStream} {as : List Action} (h : Run step NoGap start as s) :
    InOrder s :=
  (h.invariant (I := Sound) (fun _ _ _ hs allowed taken => hs.step allowed taken)
    Sound.start).server.order

/-- Two packets are lost, and their moves arrive with the third. -/
theorem inOrder_of_noGap_twoLost : ∃ s : MoveStream,
    s.applied.map (·.index) = [1, 2, 3] ∧ InOrder s := by
  have run : ∃ as s, Run step NoGap start as s ∧ s.applied.map (·.index) = [1, 2, 3] :=
    ⟨[.addToTimeCredit 512, .addPendingMove 32, .write, .addPendingMove 32, .write,
      .addPendingMove 32, .write, .lose, .lose, .receive (fun _ => true), .notify, .notify,
      .notify, .write, .receive (fun _ => true)], _,
      .cons trivial rfl <| .cons (show 0 + 2 < _ by decide) rfl <| .cons trivial rfl <|
      .cons (show 1 + 2 < _ by decide) rfl <| .cons trivial rfl <|
      .cons (show 2 + 2 < _ by decide) rfl <| .cons trivial rfl <| .cons trivial rfl <|
      .cons trivial rfl <| .cons (fun _ hpacket => by cases hpacket; exact .inr (by decide)) rfl <|
      .cons trivial rfl <| .cons trivial rfl <| .cons trivial rfl <| .cons trivial rfl <|
      .cons (fun _ hpacket => by cases hpacket; exact .inl rfl) rfl <| .nil _, by decide +kernel⟩
  obtain ⟨as, s, run, happlied⟩ := run
  exact ⟨s, happlied, inOrder_of_noGap run⟩

/-- A move for every packet, and three packets are lost: the fourth begins behind the server's next
move, and the last of its moves is applied again with the fifth. -/
theorem applied_twice : ∃ as s, Run step (fun _ _ => True) start as s ∧
    s.applied.map (·.index) = [2, 3, 4, 4, 5] ∧ ¬InOrder s :=
  ⟨[.addToTimeCredit 512, .addPendingMove 32, .write, .addPendingMove 32, .write,
    .addPendingMove 32, .write, .addPendingMove 32, .write, .addPendingMove 32, .write,
    .lose, .lose, .lose, .receive (fun _ => true), .receive (fun _ => true)], _, .of_exec rfl,
    by decide +kernel, by unfold InOrder; decide +kernel⟩

end MoveStream

end TNL
