import Mathlib.Data.List.AList
import TNL.Connection.Header
import TNL.Stream.BitStream

/-!
# The string table of a Go connection

A string is written in full the first time and as its number in the table of the
sender afterwards. The table is locked for reading while a string is written, and
a string that is written in full is added to it under the lock for writing, which
is not given while the other one is held.
-/
namespace TNL.GoRoot
open TNL.BitStream

structure StringTableEntry where
  string : List UInt8
  index : U32
  deriving DecidableEq

/-- `sync.RWMutex`, for a single goroutine. An operation that waits forever has no result. -/
structure RWMutex where
  readers : ℕ
  writer : Bool
  deriving DecidableEq

namespace RWMutex

def lock (m : RWMutex) : Option RWMutex :=
  if m.readers = 0 ∧ m.writer = false then some { m with writer := true } else none

def unlock (m : RWMutex) : RWMutex := { m with writer := false }

def rLock (m : RWMutex) : Option RWMutex :=
  if m.writer then none else some { m with readers := m.readers + 1 }

def rUnlock (m : RWMutex) : RWMutex := { m with readers := m.readers - 1 }

end RWMutex

/-- The packets whose strings are tracked, the current one first. -/
structure ConnectionStringTable where
  mutex : RWMutex
  localStrings : AList (fun _ : List UInt8 => StringTableEntry)
  remoteStrings : List (List UInt8)
  localIndex : U32
  packetList : List (List StringTableEntry)

/-- The bits left to read, the lowest of a value first. -/
structure BitReader where
  rest : List Bool
  error : Bool
  deriving DecidableEq

namespace BitReader

/-- A read past the end sets the error, and stays where it is. -/
def readInt (bs : BitReader) (bitCount : ℕ) : ℕ × BitReader :=
  if bs.rest.length < bitCount then (0, { bs with error := true })
  else (bitsInt (bs.rest.take bitCount), { bs with rest := bs.rest.drop bitCount })

def readFlag (bs : BitReader) : Bool × BitReader :=
  match bs.rest with
  | [] => (false, { bs with error := true })
  | bit :: rest => (bit, { bs with rest := rest })

def readBytes : ℕ → BitReader → List UInt8 × BitReader
  | 0, bs => ([], bs)
  | n + 1, bs =>
    let (byte, bs) := bs.readInt 8
    let (bytes, bs) := readBytes n bs
    (UInt8.ofNat byte :: bytes, bs)

/-- The bytes are copied into a copy of the buffer, so that nothing but the stream changes. -/
def readString (bs : BitReader) : BitReader :=
  let (length, bs) := bs.readInt 8
  (readBytes length bs).2

end BitReader

/-- Write a string without its length of at most `maxLen`. -/
def writeString (bs : List Bool) (str : List UInt8) (maxLen : ℕ) : List Bool :=
  let str := if str.length > maxLen then str.take maxLen else str
  bs ++ intBits str.length 8 ++ str.flatMap (fun b => intBits b.toNat 8)

namespace ConnectionStringTable

def newConnectionStringTable : ConnectionStringTable := ⟨⟨0, false⟩, ∅, [], 1, []⟩

def addString (cst : ConnectionStringTable) (str : List UInt8) :
    Option (StringTableEntry × ConnectionStringTable) :=
  cst.mutex.lock.map (fun mutex =>
    match cst.localStrings.lookup str with
    | some entry => (entry, { cst with mutex := mutex.unlock })
    | none =>
      let entry : StringTableEntry := ⟨str, cst.localIndex⟩
      (entry, { cst with
        mutex := mutex.unlock
        localStrings := cst.localStrings.insert str entry
        localIndex := cst.localIndex + 1 }))

def getString (cst : ConnectionStringTable) (index : U32) :
    Option (List UInt8 × ConnectionStringTable) :=
  cst.mutex.rLock.map (fun mutex =>
    (if index = 0 then [] else cst.remoteStrings.getD (index - 1).toNat [],
      { cst with mutex := mutex.rUnlock }))

def addRemoteString (cst : ConnectionStringTable) (str : List UInt8) :
    Option (U32 × ConnectionStringTable) :=
  cst.mutex.lock.map (fun mutex =>
    match cst.remoteStrings.findIdx? (· = str) with
    | some i => (BitVec.ofNat 32 (i + 1), { cst with mutex := mutex.unlock })
    | none => (BitVec.ofNat 32 (cst.remoteStrings.length + 1), { cst with
        mutex := mutex.unlock
        remoteStrings := cst.remoteStrings ++ [str] }))

/-- Put an entry in the list of the current packet, if there is one. -/
def track (packetList : List (List StringTableEntry)) (entry : StringTableEntry) :
    List (List StringTableEntry) :=
  match packetList with
  | [] => []
  | current :: next => (current ++ [entry]) :: next

/-- The table, the stream and the entry with its number. -/
def writeStringTableEntry (cst : ConnectionStringTable) (bs : List Bool)
    (ste : Option StringTableEntry) :
    Option (ConnectionStringTable × List Bool × Option StringTableEntry) :=
  match ste with
  | none => some (cst, bs ++ intBits 0 8, none)
  | some ste => do
    let mutex ← cst.mutex.rLock
    let cst := { cst with mutex := mutex }
    match cst.localStrings.lookup ste.string with
    | some entry =>
      let bs := bs ++ [true] ++ intBits entry.index.toNat 16
      let packetList := track cst.packetList entry
      return ({ cst with packetList := packetList, mutex := cst.mutex.rUnlock }, bs, some ste)
    | none =>
      let bs := writeString (bs ++ [false]) ste.string 255
      let (newEntry, cst) ← cst.addString ste.string
      return ({ cst with mutex := cst.mutex.rUnlock }, bs, some { ste with index := newEntry.index })

/-- The buffer of 256 zeros that a string is read into is what the string is made of. -/
def readStringTableEntry (cst : ConnectionStringTable) (bs : BitReader) :
    Option (StringTableEntry × ConnectionStringTable × BitReader) :=
  let (hasIndex, bs) := bs.readFlag
  if hasIndex then
    let (index, bs) := bs.readInt 16
    (cst.getString (BitVec.ofNat 32 index)).map (fun (str, cst) =>
      (⟨str, BitVec.ofNat 32 index⟩, cst, bs))
  else
    let strBuffer : List UInt8 := List.replicate 256 0
    let bs := bs.readString
    (cst.addRemoteString strBuffer).map (fun (index, cst) => (⟨strBuffer, index⟩, cst, bs))

/-- Write a sequence of entries. -/
def writeEntries (cst : ConnectionStringTable) (bs : List Bool) :
    List (Option StringTableEntry) → Option (ConnectionStringTable × List Bool)
  | [] => some (cst, bs)
  | ste :: entries => do
    let (cst, bs, _) ← cst.writeStringTableEntry bs ste
    writeEntries cst bs entries

/-- Read a number of entries. -/
def readEntries (cst : ConnectionStringTable) (bs : BitReader) :
    ℕ → Option (List StringTableEntry × ConnectionStringTable × BitReader)
  | 0 => some ([], cst, bs)
  | n + 1 => do
    let (ste, cst, bs) ← cst.readStringTableEntry bs
    let (entries, cst, bs) ← readEntries cst bs n
    return (ste :: entries, cst, bs)

/-- The string of a value that is written. -/
def stringOf : Option StringTableEntry → List UInt8
  | none => []
  | some ste => ste.string

/-- No write and no read waits forever, every string is read as it was written, and nothing is read
of what is behind the last one. -/
def Agrees (entries : List (Option StringTableEntry)) (more : List Bool) : Prop :=
  ∃ sender bits, writeEntries newConnectionStringTable [] entries = some (sender, bits) ∧
    ∃ reads receiver, readEntries newConnectionStringTable ⟨bits ++ more, false⟩ entries.length =
      some (reads, receiver, ⟨more, false⟩) ∧ reads.map (·.string) = entries.map stringOf

variable {cst cst' : ConnectionStringTable} {bs bs' : List Bool}

/-- A string that is not in the table is never written. -/
theorem writeStringTableEntry_new {ste : StringTableEntry}
    (hnew : cst.localStrings.lookup ste.string = none) :
    cst.writeStringTableEntry bs (some ste) = none := by
  simp only [writeStringTableEntry, RWMutex.rLock]
  split
  · rfl
  · simp [hnew, addString, RWMutex.lock]

theorem writeStringTableEntry_append {ste ste' : Option StringTableEntry}
    (h : cst.writeStringTableEntry bs ste = some (cst', bs', ste')) : ∃ bits, bs' = bs ++ bits := by
  cases ste with
  | none =>
    simp only [writeStringTableEntry, Option.some.injEq, Prod.mk.injEq] at h
    exact ⟨_, h.2.1.symm⟩
  | some ste =>
    cases hentry : cst.localStrings.lookup ste.string with
    | none =>
      rw [writeStringTableEntry_new hentry] at h
      cases h
    | some entry =>
      simp only [writeStringTableEntry, Option.bind_eq_bind, Option.bind_eq_some_iff, hentry] at h
      obtain ⟨mutex, -, heq⟩ := h
      obtain ⟨-, heq⟩ := Prod.mk.inj (Option.some.inj heq)
      exact ⟨_, (Prod.mk.inj heq).1.symm.trans (List.append_assoc ..)⟩

theorem writeEntries_append {entries : List (Option StringTableEntry)}
    (h : writeEntries cst bs entries = some (cst', bs')) : ∃ bits, bs' = bs ++ bits := by
  induction entries generalizing cst bs with
  | nil =>
    obtain ⟨-, rfl⟩ := Prod.mk.inj (Option.some.inj h)
    exact ⟨[], (List.append_nil _).symm⟩
  | cons ste entries ih =>
    simp only [writeEntries, Option.bind_eq_bind, Option.bind_eq_some_iff] at h
    obtain ⟨⟨cst, bs, ste'⟩, hfirst, hrest⟩ := h
    obtain ⟨bits, rfl⟩ := writeStringTableEntry_append hfirst
    obtain ⟨bits', rfl⟩ := ih hrest
    exact ⟨bits ++ bits', List.append_assoc ..⟩

/-- What is written without a number is read as 256 zeros. -/
theorem readStringTableEntry_string {bits : List Bool} {ste : StringTableEntry} {bs' : BitReader}
    (h : cst.readStringTableEntry ⟨false :: bits, false⟩ = some (ste, cst', bs')) :
    ste.string = List.replicate 256 0 := by
  simp only [readStringTableEntry, BitReader.readFlag, Bool.false_eq_true, if_false,
    Option.map_eq_some_iff] at h
  obtain ⟨_, -, heq⟩ := h
  rw [← (Prod.mk.inj heq).1]

/-- The tables agree on no sequence but the empty one. -/
theorem strings_agree_iff (entries : List (Option StringTableEntry)) (more : List Bool) :
    Agrees entries more ↔ entries = [] := by
  constructor
  · rintro ⟨sender, bits, hwrite, reads, receiver, hread, hstrings⟩
    cases entries with
    | nil => rfl
    | cons ste entries =>
      simp only [writeEntries, Option.bind_eq_bind, Option.bind_eq_some_iff] at hwrite
      obtain ⟨⟨cst, bs, ste'⟩, hfirst, hrest⟩ := hwrite
      cases ste with
      | some ste =>
        rw [writeStringTableEntry_new (AList.lookup_empty _)] at hfirst
        cases hfirst
      | none =>
        obtain ⟨tail, rfl⟩ := writeEntries_append hrest
        obtain ⟨-, heq⟩ := Prod.mk.inj (Option.some.inj hfirst)
        obtain ⟨rfl, -⟩ := Prod.mk.inj heq
        simp only [List.length_cons, readEntries, Option.bind_eq_bind,
          Option.bind_eq_some_iff] at hread
        obtain ⟨⟨ste, cst', bs'⟩, hfirst, ⟨others, cst'', bs''⟩, -, heq⟩ := hread
        obtain ⟨rfl, -⟩ := Prod.mk.inj (Option.some.inj heq)
        have hzeros : ste.string = List.replicate 256 0 := readStringTableEntry_string hfirst
        have hempty : ste.string = [] := (List.cons.inj hstrings).1
        rw [hempty] at hzeros
        cases hzeros
  · rintro rfl
    exact ⟨_, [], rfl, [], _, rfl, rfl⟩

/-- The first use of a string waits for the lock that the call holds itself. -/
theorem first_string_blocks : ¬ ∀ (entries : List (Option StringTableEntry)) (more : List Bool),
    (∀ ste ∈ entries, (stringOf ste).length ≤ 255) → Agrees entries more := by
  intro claim
  obtain ⟨sender, bits, hwrite, -⟩ := claim [some ⟨[97], 0⟩] [] (by decide)
  have hblocked : writeEntries newConnectionStringTable [] [some ⟨[97], 0⟩] = none := rfl
  exact absurd (hblocked.symm.trans hwrite) (Option.some_ne_none _).symm

end ConnectionStringTable

end TNL.GoRoot
