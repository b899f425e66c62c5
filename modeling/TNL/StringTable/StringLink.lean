import TNL.Library.Run
import TNL.StringTable.ConnectionStringTable

/-!
# Two string tables over a lossy network

Packets carry the records of the strings written into them. Those that arrive
are read in the order they were sent, and each packet is reported to the sender
in that order, as received exactly if it was read.
-/
namespace TNL
open Library

/-- A packet: the strings passed to `writeStringTableEntry`, each with the record written. -/
structure StringPacket (ν : Type*) where
  writes : List (ν × StringRecord ν)

namespace StringPacket

variable {ν : Type*}

def records (p : StringPacket ν) : List (StringRecord ν) := p.writes.map Prod.snd

end StringPacket

/-- The tables of both sides, and the packets not yet reported. The settled ones were read
(`true`), or overtaken by one that was; the pending ones may still arrive. `exchanged` is the
history of strings written and read. -/
structure StringLink (ν : Type*) where
  table : ConnectionStringTable ν
  mRemoteStringTable : Fin ConnectionStringTable.entryCount → ν
  settled : List (StringPacket ν × Bool)
  pending : List (StringPacket ν)
  exchanged : List (ν × ν)

namespace StringLink
open ConnectionStringTable

variable {ν : Type*}

/-- Write the strings of a packet. -/
def writeStrings [DecidableEq ν] (getIndex : ν → ℕ) :
    ConnectionStringTable ν → List ν → List (ν × StringRecord ν) × ConnectionStringTable ν
  | t, [] => ([], t)
  | t, string :: strings =>
    let (record, t) := t.writeStringTableEntry getIndex string
    let (writes, t) := writeStrings getIndex t strings
    ((string, record) :: writes, t)

/-- Read the records of a packet, next to the strings they were written for. -/
def readStrings : (Fin entryCount → ν) → List (ν × StringRecord ν) →
    List (ν × ν) × (Fin entryCount → ν)
  | remote, [] => ([], remote)
  | remote, (string, record) :: writes =>
    let (value, remote) := readStringTableEntry remote record
    let (values, remote) := readStrings remote writes
    ((string, value) :: values, remote)

inductive Action (ν : Type*) where
  | writePacket (strings : List ν)
  | deliver (skipped : ℕ)
  | notify

def start [Inhabited ν] : StringLink ν := ⟨.new, fun _ => default, [], [], []⟩

/-- The packets skipped by a delivery never arrive later. -/
def step [DecidableEq ν] (getIndex : ν → ℕ) (l : StringLink ν) : Action ν → Option (StringLink ν)
  | .writePacket strings =>
    let (writes, table) := writeStrings getIndex l.table strings
    some { l with table := table, pending := l.pending ++ [⟨writes⟩] }
  | .deliver skipped =>
    match l.pending.drop skipped with
    | [] => none
    | p :: rest =>
      let (values, remote) := readStrings l.mRemoteStringTable p.writes
      some { l with
        mRemoteStringTable := remote
        settled := l.settled ++ (l.pending.take skipped).map (fun q => (q, false)) ++ [(p, true)]
        pending := rest
        exchanged := l.exchanged ++ values }
  | .notify =>
    match l.settled, l.pending with
    | (p, true) :: rest, _ => some { l with
        table := l.table.packetReceived (stringList p.records)
        settled := rest }
    | (p, false) :: rest, _ => some { l with
        table := l.table.packetDropped (stringList p.records)
        settled := rest }
    | [], p :: rest => some { l with
        table := l.table.packetDropped (stringList p.records)
        pending := rest }
    | [], [] => none

/-- The records read by the peer and not yet reported. -/
def readRecords (settled : List (StringPacket ν × Bool)) : List (StringRecord ν) :=
  (settled.filter Prod.snd).flatMap (fun p => p.1.records)

def pendingWrites (l : StringLink ν) : List (ν × StringRecord ν) :=
  l.pending.flatMap StringPacket.writes

/-- The last string that records give to an entry. -/
def lastString (entry : Fin entryCount) (records : List (StringRecord ν)) : Option ν :=
  ((records.filter (fun r => r.index = entry)).filterMap StringRecord.string).getLast?

/-- A packet reported received confirms no entry that has been recycled in between: the last string
the peer has since read for the entry is the one confirmed, and so is every string on its way. -/
def NotRecycled (l : StringLink ν) : Action ν → Prop
  | .notify => ∀ p rest, l.settled = (p, true) :: rest →
      ∀ before r after, p.records = before ++ r :: after → ∀ string, r.string = some string →
        (l.table.mEntryTable r.index).string = string →
          (∀ other ∈ lastString r.index (after ++ readRecords rest), other = string) ∧
          ∀ q ∈ l.pendingWrites, q.2.index = r.index → ∀ other ∈ q.2.string, other = string
  | _ => True

end StringLink

end TNL
