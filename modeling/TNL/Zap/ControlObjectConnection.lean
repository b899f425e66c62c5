import TNL.Connection.Header

/-!
# The moves of a control object

A client keeps its moves until a packet with them is known to have arrived and
writes those that were not in the third last packet or one before. The server
applies the moves of a packet from the first one on that it has not applied yet.
-/
namespace TNL

/-- A move with its place among those that the client has recorded, from 1 on. What else is in a
move is floating point. -/
structure Move where
  index : ℕ
  time : U32
  deriving DecidableEq

/-- The moves of a packet, which are counted there, and the index in its note. -/
structure MovePacket where
  firstMove : U32
  moves : List Move
  firstUnsentMoveIndex : U32

structure ControlObjectConnection where
  pendingMoves : List Move
  firstMoveIndex : U32
  highSendIndex : U32 × U32 × U32
  mMoveTimeCredit : U32

namespace ControlObjectConnection

def maxPendingMoves : ℕ := 63
def maxMoveTimeCredit : U32 := 512

def new : ControlObjectConnection := ⟨[], 1, (0, 0, 0), 0⟩

def addPendingMove (c : ControlObjectConnection) (theMove : Move) : ControlObjectConnection :=
  if c.pendingMoves.length < maxPendingMoves then
    { c with pendingMoves := c.pendingMoves ++ [theMove] }
  else c

def addToTimeCredit (c : ControlObjectConnection) (timeAmount : U32) : ControlObjectConnection :=
  let credit := c.mMoveTimeCredit + timeAmount
  { c with mMoveTimeCredit := if credit > maxMoveTimeCredit then maxMoveTimeCredit else credit }

/-- Erase moves from the front. There is one for each index up to the note's. -/
def eraseMoves (firstUnsentMoveIndex : U32) : U32 → List Move → U32 × List Move
  | firstMoveIndex, [] => (firstMoveIndex, [])
  | firstMoveIndex, theMove :: moves =>
    if firstMoveIndex < firstUnsentMoveIndex then
      eraseMoves firstUnsentMoveIndex (firstMoveIndex + 1) moves
    else (firstMoveIndex, theMove :: moves)

def packetReceived (c : ControlObjectConnection) (notify : MovePacket) :
    ControlObjectConnection :=
  let (firstMoveIndex, pendingMoves) :=
    eraseMoves notify.firstUnsentMoveIndex c.firstMoveIndex c.pendingMoves
  { c with firstMoveIndex := firstMoveIndex, pendingMoves := pendingMoves }

/-- The client's part. -/
def writePacket (c : ControlObjectConnection) : MovePacket × ControlObjectConnection :=
  let firstSendIndex :=
    if c.highSendIndex.1 < c.firstMoveIndex then c.firstMoveIndex else c.highSendIndex.1
  let skipCount := firstSendIndex - c.firstMoveIndex
  let firstUnsentMoveIndex := c.firstMoveIndex + BitVec.ofNat 32 c.pendingMoves.length
  (⟨firstSendIndex, c.pendingMoves.drop skipCount.toNat, firstUnsentMoveIndex⟩,
    { c with highSendIndex := (c.highSendIndex.2.1, c.highSendIndex.2.2, firstUnsentMoveIndex) })

/-- Skip the moves before `firstMoveIndex`. -/
def skipMoves (firstMoveIndex : U32) : U32 → List Move → List Move
  | _, [] => []
  | firstMove, theMove :: moves =>
    if firstMove < firstMoveIndex then skipMoves firstMoveIndex (firstMove + 1) moves
    else theMove :: moves

/-- Process moves, and return those that are applied. `valid` says whether there is a control object
at a move. -/
def processMoves (valid : Move → Bool) :
    ControlObjectConnection → List Move → ControlObjectConnection × List Move
  | c, [] => (c, [])
  | c, theMove :: moves =>
    if c.mMoveTimeCredit ≥ theMove.time ∧ valid theMove then
      let (c, applied) := processMoves valid { c with
        mMoveTimeCredit := c.mMoveTimeCredit - theMove.time
        firstMoveIndex := c.firstMoveIndex + 1 } moves
      (c, theMove :: applied)
    else processMoves valid { c with firstMoveIndex := c.firstMoveIndex + 1 } moves

/-- The server's part. -/
def readPacket (c : ControlObjectConnection) (valid : Move → Bool) (packet : MovePacket) :
    ControlObjectConnection × List Move :=
  processMoves valid c (skipMoves c.firstMoveIndex packet.firstMove packet.moves)

end ControlObjectConnection

end TNL
