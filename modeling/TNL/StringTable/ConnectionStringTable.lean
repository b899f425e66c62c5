import Mathlib.Data.List.FinRange
import Mathlib.Logic.Function.Basic

/-!
# The connection string table

Strings that are sent often travel as the index of a table entry. The sender
recycles the entry used least recently, and names an entry by its index alone
once the peer is known to have its string. Pointers between entries are
indices: a hash chain and the list in the order of use are lists of them.
-/
namespace TNL

abbrev ConnectionStringTable.entryCount : ℕ := 1024

open ConnectionStringTable in
/-- What is written for a string: its entry, and the string itself unless the peer has it. -/
structure StringRecord (ν : Type*) where
  index : Fin entryCount
  string : Option ν
  deriving DecidableEq

namespace ConnectionStringTable

structure Entry (ν : Type*) where
  string : ν
  receiveConfirmed : Bool

structure PacketEntry (ν : Type*) where
  stringTableEntry : Fin entryCount
  string : ν

end ConnectionStringTable

open ConnectionStringTable in
/-- The sender's table; `lru` lists the entries from the least recently used one on. -/
structure ConnectionStringTable (ν : Type*) where
  mEntryTable : Fin entryCount → Entry ν
  mHashTable : Fin entryCount → List (Fin entryCount)
  lru : List (Fin entryCount)

namespace ConnectionStringTable

variable {ν : Type*}

/-- All entries hold the empty string and are in no chain. -/
def new [Inhabited ν] : ConnectionStringTable ν where
  mEntryTable _ := ⟨default, false⟩
  mHashTable _ := []
  lru := List.finRange entryCount

def pushBack (t : ConnectionStringTable ν) (entry : Fin entryCount) : ConnectionStringTable ν :=
  { t with lru := t.lru.erase entry ++ [entry] }

section writing

variable [DecidableEq ν] (getIndex : ν → ℕ) (t : ConnectionStringTable ν) (string : ν)

/-- The bucket of a string, by its index in the global string table. -/
def hashIndex : Fin entryCount :=
  ⟨getIndex string % entryCount, Nat.mod_lt (getIndex string) (by decide)⟩

def find : Option (Fin entryCount) :=
  (t.mHashTable (hashIndex getIndex string)).find? (fun walk =>
    (t.mEntryTable walk).string = string)

/-- Give an entry to a new string: it leaves the chain of its old string and heads the one of the
new string. -/
def assign (sendEntry : Fin entryCount) : ConnectionStringTable ν :=
  let old := hashIndex getIndex (t.mEntryTable sendEntry).string
  let mHashTable := Function.update t.mHashTable old ((t.mHashTable old).erase sendEntry)
  { t with
    mEntryTable := Function.update t.mEntryTable sendEntry ⟨string, false⟩
    mHashTable := Function.update mHashTable (hashIndex getIndex string)
      (sendEntry :: mHashTable (hashIndex getIndex string)) }

/-- The entry a string is sent by, moved to the back of the list. -/
def sendEntry : Fin entryCount × ConnectionStringTable ν :=
  match t.find getIndex string with
  | some walk => (walk, t.pushBack walk)
  | none =>
    let head := t.lru.headD ⟨0, by decide⟩
    (head, (t.pushBack head).assign getIndex string head)

def writeStringTableEntry : StringRecord ν × ConnectionStringTable ν :=
  let (entry, t) := t.sendEntry getIndex string
  (⟨entry, if (t.mEntryTable entry).receiveConfirmed then none
    else some (t.mEntryTable entry).string⟩, t)

/-- The entry sent holds the string, and no other entry changes unless it loses its
confirmation. -/
theorem sendEntry_spec :
    ((t.sendEntry getIndex string).2.mEntryTable (t.sendEntry getIndex string).1).string = string ∧
      ∀ j, ((t.sendEntry getIndex string).2.mEntryTable j).receiveConfirmed = true →
        (t.sendEntry getIndex string).2.mEntryTable j = t.mEntryTable j := by
  unfold sendEntry
  cases hfind : t.find getIndex string with
  | some walk =>
    refine ⟨?_, fun j _ => rfl⟩
    have hstring := List.find?_some hfind
    simpa [pushBack] using hstring
  | none =>
    refine ⟨by simp [assign], ?_⟩
    dsimp only
    generalize t.lru.headD ⟨0, _⟩ = head
    intro j hj
    by_cases hhead : j = head
    · subst hhead
      simp [assign] at hj
    · simp [assign, pushBack, hhead]

end writing

/-- The entries noted for a packet are those whose string was written. -/
def stringList (records : List (StringRecord ν)) : List (PacketEntry ν) :=
  records.filterMap (fun r => r.string.map (PacketEntry.mk r.index))

variable [DecidableEq ν]

/-- Confirm an entry if it still holds the string that was sent. -/
def confirm (t : ConnectionStringTable ν) (walk : PacketEntry ν) : ConnectionStringTable ν :=
  if (t.mEntryTable walk.stringTableEntry).string = walk.string then
    { t with
      mEntryTable := Function.update t.mEntryTable walk.stringTableEntry
        { t.mEntryTable walk.stringTableEntry with receiveConfirmed := true } }
  else t

def packetReceived (t : ConnectionStringTable ν) (note : List (PacketEntry ν)) :
    ConnectionStringTable ν :=
  note.foldl confirm t

/-- Only the list of the packet is freed. -/
def packetDropped (t : ConnectionStringTable ν) (_note : List (PacketEntry ν)) :
    ConnectionStringTable ν := t

omit [DecidableEq ν] in
/-- The receiver's table after a record. -/
def remember (mRemoteStringTable : Fin entryCount → ν) (r : StringRecord ν) : Fin entryCount → ν :=
  match r.string with
  | none => mRemoteStringTable
  | some string => Function.update mRemoteStringTable r.index string

def readStringTableEntry (mRemoteStringTable : Fin entryCount → ν) (r : StringRecord ν) :
    ν × (Fin entryCount → ν) :=
  (remember mRemoteStringTable r r.index, remember mRemoteStringTable r)

end ConnectionStringTable

end TNL
