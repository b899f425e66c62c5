import TNL.Event.EventConnection
import TNL.Stream.Reader

/-!
# Reading the body of a packet

What `readRawPacket` does once the header has been accepted: the event section,
the ghost section and, when both have been read, a look at the stream's error
flag. Events and ghosts take effect while the packet is being read. Each event
carries a mark that its unpacking asked for bits behind the end, and so does each
record of a ghost's creation, update or deletion. Errors set by the `process`
methods and the callback for a deleted ghost are left out.
-/
namespace TNL
open BitStream

/-- A program's events. `unpack` is `none` when it has set the last error, and processing an event
may change the local ghosts, as `rpcEndGhosting` does. -/
structure EventReaders (ε γ : Type*) where
  create : ℕ → Option EventDirection
  unpack : ℕ → Reader (Option ε)
  process : (ℕ → Option γ) → ε → ℕ → Option γ

/-- A program's objects. `unpackUpdate` is told whether it is the initial update, and its flag says
that it has set the last error. -/
structure GhostReaders (γ : Type*) where
  classCount : ℕ
  classBitSize : ℕ
  create : ℕ → Option γ
  unpackUpdate : γ → Bool → Reader (γ × Bool)
  onGhostAdd : γ → Bool
  classBitSize_le : classBitSize ≤ 32

/-- A creation, an update or a deletion of a local ghost, with the mark of its record. -/
structure GhostAct where
  index : ℕ
  cut : Bool
  deriving DecidableEq, Repr

/-- A packet's body being read. -/
structure BodyReading (ε γ : Type*) where
  s : ReadStream
  waiting : List (EventNote (ε × Bool)) × List (EventNote (ε × Bool))
  mLocalGhosts : ℕ → Option γ
  processed : List (ε × Bool)
  acts : List GhostAct
  failed : Bool

namespace BodyReading
open EventConnection

variable {ε γ : Type*}

section events

variable (P : EventParameters) (C : EventReaders ε γ) (fromServer : Bool)

/-- The class and the contents of an event; `none` when the last error has been set. -/
def readEvent (s : ReadStream) : Option (ε × Bool) × ReadStream :=
  let s := if P.mDebugObjectSizes then (s.readInt bitStreamPosBitSize).2 else s
  let (classId, s) := s.readInt P.mEventClassBitSize
  if classId ≥ P.mEventClassCount then (none, s)
  else match C.create classId with
    | none => (none, s)
    | some direction =>
      if isLegalDirection fromServer direction then
        let (event, t) := (C.unpack classId).run s.fresh
        (event.map fun event => (event, t.past), s.resume t)
      else (none, s)

/-- The low seven bits of an ordered event's number. -/
def readSeq (prevSeq : ℤ) (s : ReadStream) : ℤ × ReadStream :=
  let (follows, s) := s.readFlag
  if follows then ((prevSeq + 1) % 128, s)
  else
    let (seq, s) := s.readInt 7
    (seq, s)

def process (r : BodyReading ε γ) (event : ε × Bool) : BodyReading ε γ :=
  { r with
    mLocalGhosts := C.process r.mLocalGhosts event.1
    processed := r.processed ++ [event] }

/-- The flags before a record: whether it is an unordered one, and whether there is one. -/
def readPhase (unguaranteedPhase : Bool) (s : ReadStream) : Bool × Bool × ReadStream :=
  let (bit, s) := s.readFlag
  if unguaranteedPhase && !bit then
    let (bit, s) := s.readFlag
    (false, bit, s)
  else (unguaranteedPhase, bit, s)

/-- The event records. The loop ends with the flags in the packet, so a bound on the number of
records is given; `none` when it is reached. -/
def readEvents (mNextRecvEventSeq : ℤ) :
    ℕ → Bool → ℤ → BodyReading ε γ → Option (BodyReading ε γ)
  | 0, _, _, _ => none
  | fuel + 1, unguaranteedPhase, prevSeq, r =>
    let (unguaranteedPhase, bit, s) := readPhase unguaranteedPhase r.s
    if !bit then some { r with s := s }
    else
      let (seq, s) := if unguaranteedPhase then (-1, s) else readSeq prevSeq s
      match readEvent P C fromServer s with
      | (none, s) => some { r with s := s, failed := true }
      | (some event, s) =>
        if unguaranteedPhase then
          readEvents mNextRecvEventSeq fuel true prevSeq ({ r with s := s }.process C event)
        else
          readEvents mNextRecvEventSeq fuel false seq { r with
            s := s
            waiting := insertNote r.waiting ⟨event, completeSeq mNextRecvEventSeq seq⟩ }

end events

section ghosts

variable (P : EventParameters) (G : GhostReaders γ)

/-- A new or updated ghost. The loop stops when the last error has been set. -/
def store (r : BodyReading ε γ) (index : ℕ) (obj : γ) (s : ReadStream) (error : Bool) :
    Bool × BodyReading ε γ :=
  (r.failed || error, { r with
    s := s
    mLocalGhosts := Function.update r.mLocalGhosts index (some obj)
    acts := r.acts ++ [⟨index, s.past⟩]
    failed := r.failed || error })

/-- A ghost record after its leading flag, and whether the loop stops with it. -/
def readGhost (idSize : ℕ) (r : BodyReading ε γ) : Bool × BodyReading ε γ :=
  let (index, s) := r.s.readInt idSize
  let (killGhost, s) := s.readFlag
  if killGhost then
    match r.mLocalGhosts index with
    | none => (false, { r with s := s })
    | some _ => (false, { r with
        s := s
        mLocalGhosts := Function.update r.mLocalGhosts index none
        acts := r.acts ++ [⟨index, s.past⟩] })
  else
    let s := if P.mDebugObjectSizes then (s.readInt bitStreamPosBitSize).2 else s
    match r.mLocalGhosts index with
    | none =>
      let (classId, s) := s.readInt G.classBitSize
      if classId ≥ G.classCount then (true, { r with s := s, failed := true })
      else match G.create classId with
        | none => (true, { r with s := s, failed := true })
        | some obj =>
          let ((obj, error), s) := (G.unpackUpdate obj true).run s
          r.store index obj s (error || !G.onGhostAdd obj)
    | some obj =>
      let ((obj, error), s) := (G.unpackUpdate obj false).run s
      r.store index obj s error

/-- The ghost records, each with a note of its own. -/
def readGhosts (idSize : ℕ) : ℕ → BodyReading ε γ → Option (BodyReading ε γ)
  | 0, _ => none
  | fuel + 1, r =>
    let (bit, s) := r.s.fresh.readFlag
    if !bit then some { r with s := r.s.resume s }
    else
      let (stop, next) := readGhost P G idSize { r with s := s }
      let next := { next with s := r.s.resume next.s }
      if stop then some next else readGhosts idSize fuel next

end ghosts

end BodyReading

/-- The receiving half of a ghost connection, with what it has processed and done to its ghosts.
`missed` is set when a packet was read past its end and not reported. -/
structure BodyReceiver (ε γ : Type*) where
  mWaitSeqEvents : List (EventNote (ε × Bool))
  mNextRecvEventSeq : ℤ
  mLocalGhosts : ℕ → Option γ
  closed : Bool
  processed : List (ε × Bool)
  acts : List GhostAct
  missed : Bool

/-- The stream of an accepted packet where its body starts. Reading the header may have gone past
the end. -/
structure BodyStream where
  stream : BitStream
  small : stream.maxReadBitNum ≤ maxPacketDataSize * 8
  bitNum_le : stream.bitNum ≤ stream.maxReadBitNum + 1

def BodyStream.start (b : BodyStream) : ReadStream :=
  ⟨b.stream, b.stream.error || decide (b.stream.maxReadBitNum < b.stream.bitNum)⟩

namespace BodyReceiver
open EventConnection

variable {ε γ : Type*}

def start (mLocalGhosts : ℕ → Option γ) : BodyReceiver ε γ :=
  ⟨[], firstValidSendEventSeq, mLocalGhosts, false, [], [], false⟩

section

variable (P : EventParameters) (C : EventReaders ε γ) (G : GhostReaders γ)
  (fromServer doesGhostTo : Bool)

/-- Process the waiting events whose turn it is. Returns those left and the next number. -/
def processWaiting : List (EventNote (ε × Bool)) → ℤ → BodyReading ε γ →
    List (EventNote (ε × Bool)) × ℤ × BodyReading ε γ
  | [], next, r => ([], next, r)
  | note :: notes, next, r =>
    if note.mSeqCount = next then processWaiting notes (next + 1) (r.process C note.mEvent)
    else (note :: notes, next, r)

/-- `EventConnection::readPacket`. No packet has more records than bits. -/
def readEventSection (r : BodyReceiver ε γ) (s : ReadStream) :
    Option (List (EventNote (ε × Bool)) × ℤ × BodyReading ε γ) :=
  let s := if P.mDebugObjectSizes then (s.readInt 32).2 else s
  (BodyReading.readEvents P C fromServer r.mNextRecvEventSeq (s.stream.maxReadBitNum + 2) true (-2)
    ⟨s, ([], r.mWaitSeqEvents), r.mLocalGhosts, r.processed, r.acts, false⟩).map fun reading =>
    let waiting := reading.waiting.1 ++ reading.waiting.2
    if reading.failed then (waiting, r.mNextRecvEventSeq, reading)
    else processWaiting C waiting r.mNextRecvEventSeq reading

/-- `GhostConnection::readPacket` after the event section, which is read even when that has set the
last error. -/
def readGhostSection (r : BodyReading ε γ) : Option (BodyReading ε γ) :=
  let s := if P.mDebugObjectSizes then (r.s.readInt 32).2 else r.s
  if !doesGhostTo then some { r with s := s }
  else
    let (bit, s) := s.readFlag
    if !bit then some { r with s := s }
    else
      let (idSize, s) := s.readInt 3
      BodyReading.readGhosts P G (idSize + 3) (s.stream.maxReadBitNum + 2) { r with s := s }

/-- The body of a packet. A packet that is reported closes the connection. -/
def readBody (r : BodyReceiver ε γ) (b : BodyStream) : Option (BodyReceiver ε γ) :=
  (r.readEventSection P C fromServer b.start).bind fun (waiting, next, events) =>
    (readGhostSection P G doesGhostTo events).map fun reading =>
      let reported := reading.failed || reading.s.stream.error
      { mWaitSeqEvents := waiting
        mNextRecvEventSeq := next
        mLocalGhosts := reading.mLocalGhosts
        closed := reported
        processed := reading.processed
        acts := reading.acts
        missed := r.missed || (reading.s.past && !reported) }

def step (r : BodyReceiver ε γ) (b : BodyStream) : Option (BodyReceiver ε γ) :=
  if r.closed then some r else r.readBody P C G fromServer doesGhostTo b

end

end BodyReceiver

end TNL
