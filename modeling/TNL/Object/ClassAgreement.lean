import TNL.Journal.IndexBits
import TNL.Stream.BitStream

/-!
# Agreement on object classes

The classes of a program are numbered by group and type when the program starts. A
connection compares a checksum of the class group, which the program never computes,
and the number of the event classes; the object classes of the two ends may differ.
-/
namespace TNL
open BitStream

inductive NetClassType where
  | object
  | dataBlock
  | event
  deriving DecidableEq

/-- Game, community, master and a reserved group. -/
abbrev NetClassGroup := Fin 4

/-- A class as its `NetClassRepInstance` registers it. -/
structure RegisteredClass extends NetClassRep where
  mClassGroupMask : U32
  mClassType : NetClassType
  deriving DecidableEq

/-- `ACRCompare` is not positive. -/
def NetClassRep.notAfter (a b : NetClassRep) : Bool :=
  a.mClassVersion < b.mClassVersion ||
    (a.mClassVersion = b.mClassVersion && decide (a.mClassName ≤ b.mClassName))

/-- The classes a program registers; no two have one name. -/
structure ClassProgram where
  mClassLinkList : List RegisteredClass
  names_nodup : (mClassLinkList.map (·.mClassName)).Nodup
  few : mClassLinkList.length < 2 ^ 31 - 65

def getNextPow2 (value : U32) : U32 :=
  if isPow2 value then value else (1 : U32) <<< (getBinLog2 value + 1)

namespace ClassProgram
open NetClassRep

def initialCRCValue : U32 := 0xFFFFFFFF

/-- The checksums of the groups: the initialiser has one value, and nothing assigns them later. -/
def mClassCRC (classGroup : NetClassGroup) : U32 :=
  if classGroup.val = 0 then initialCRCValue else 0

/-- The classes of a group and a type. -/
def members (p : ClassProgram) (classGroup : NetClassGroup) (classType : NetClassType) :
    List NetClassRep :=
  (p.mClassLinkList.filter fun walk => walk.mClassType = classType ∧
    walk.mClassGroupMask &&& ((1 : U32) <<< classGroup.val) ≠ 0).map (·.toNetClassRep)

def mClassTable (p : ClassProgram) (classGroup : NetClassGroup) (classType : NetClassType) :
    List NetClassRep :=
  (p.members classGroup classType).mergeSort notAfter

/-- An empty table leaves the bit size at zero. -/
def mNetClassBitSize (p : ClassProgram) (classGroup : NetClassGroup) (classType : NetClassType) :
    U32 :=
  let size := (p.mClassTable classGroup classType).length
  if size = 0 then 0 else getBinLog2 (getNextPow2 (BitVec.ofNat 32 (size + 1)))

/-- The place of a class in its table. -/
def getClassId (p : ClassProgram) (classGroup : NetClassGroup) (classType : NetClassType)
    (classRep : NetClassRep) : ℕ :=
  (p.mClassTable classGroup classType).idxOf classRep

def writeClassId (p : ClassProgram) (classId : ℕ) (classType : NetClassType)
    (classGroup : NetClassGroup) (s : BitStream) : BitStream :=
  s.writeInt classId (p.mNetClassBitSize classGroup classType).toNat

/-- `none` stands for the id that no class has. -/
def readClassId (p : ClassProgram) (classType : NetClassType) (classGroup : NetClassGroup)
    (s : BitStream) : Option ℕ × BitStream :=
  let (ret, s) := s.readInt (p.mNetClassBitSize classGroup classType).toNat
  (if ret ≥ (p.mClassTable classGroup classType).length then none else some ret, s)

/-- What the program brings into the handshake of a connection of a group. -/
def peer (p : ClassProgram) (classGroup : NetClassGroup) : ClassPeer where
  classGroup := BitVec.ofNat 32 classGroup.val
  classCRC := mClassCRC classGroup
  classTable := p.mClassTable classGroup .event
  classCount_lt := by
    have hle : (p.mClassTable classGroup .event).length ≤ p.mClassLinkList.length := by
      rw [mClassTable, List.length_mergeSort, members, List.length_map]
      exact List.length_filter_le ..
    have := p.few
    omega

/-- What one end writes for any of its object classes, the other end reads as that class, with
as many bits. -/
def Denotes (writer reader : ClassProgram) (classGroup : NetClassGroup) : Prop :=
  ∀ classRep ∈ writer.members classGroup .object,
    reader.mNetClassBitSize classGroup .object = writer.mNetClassBitSize classGroup .object ∧
    ∀ s : BitStream, s.Ahead (intBits (writer.getClassId classGroup .object classRep)
        (writer.mNetClassBitSize classGroup .object).toNat) →
      ∃ classId, reader.readClassId .object classGroup s = (some classId,
          s.advanceBitPosition (writer.mNetClassBitSize classGroup .object).toNat) ∧
        (reader.mClassTable classGroup .object)[classId]? = some classRep

variable {p client server : ClassProgram} {group : NetClassGroup} {n : ℕ}

theorem notAfter_trans (a b c : NetClassRep) (hab : notAfter a b = true)
    (hbc : notAfter b c = true) : notAfter a c = true := by
  simp only [notAfter, Bool.or_eq_true, Bool.and_eq_true, decide_eq_true_eq] at hab hbc ⊢
  rcases hab with hlt | ⟨heq, hle⟩ <;> rcases hbc with hlt' | ⟨heq', hle'⟩
  · exact .inl (hlt.trans hlt')
  · exact .inl (heq' ▸ hlt)
  · exact .inl (heq ▸ hlt')
  · exact .inr ⟨heq.trans heq', hle.trans hle'⟩

theorem notAfter_total (a b : NetClassRep) : (notAfter a b || notAfter b a) = true := by
  simp only [notAfter, Bool.or_eq_true, Bool.and_eq_true, decide_eq_true_eq]
  rcases lt_trichotomy a.mClassVersion b.mClassVersion with hlt | heq | hlt
  · exact .inl (.inl hlt)
  · cases le_total a.mClassName b.mClassName with
    | inl hle => exact .inl (.inr ⟨heq, hle⟩)
    | inr hle => exact .inr (.inr ⟨heq.symm, hle⟩)
  · exact .inr (.inl hlt)

theorem notAfter_antisymm {a b : NetClassRep} (hab : notAfter a b = true)
    (hba : notAfter b a = true) : a = b := by
  simp only [notAfter, Bool.or_eq_true, Bool.and_eq_true, decide_eq_true_eq] at hab hba
  rcases hab with hlt | ⟨heq, hle⟩ <;> rcases hba with hlt' | ⟨heq', hle'⟩
  · omega
  · omega
  · omega
  · cases a
    cases b
    cases heq
    cases hle.antisymm hle'
    rfl

/-- No class is twice in a table. -/
theorem members_nodup (p : ClassProgram) (group : NetClassGroup) (classType : NetClassType) :
    (p.members group classType).Nodup := by
  have hnames : ((p.members group classType).map mClassName).Nodup := by
    rw [members, List.map_map]
    exact p.names_nodup.sublist (List.filter_sublist.map _)
  exact hnames.of_map _

theorem mClassTable_perm (p : ClassProgram) (group : NetClassGroup) (classType : NetClassType) :
    (p.mClassTable group classType).Perm (p.members group classType) :=
  List.mergeSort_perm ..

/-- The order in which the classes were registered does not matter. -/
theorem mClassTable_eq (hsame : ∀ c, c ∈ client.members group .object ↔
    c ∈ server.members group .object) :
    client.mClassTable group .object = server.mClassTable group .object := by
  have hperm : (client.members group .object).Perm (server.members group .object) :=
    (List.perm_ext_iff_of_nodup (members_nodup ..) (members_nodup ..)).mpr hsame
  refine List.Perm.eq_of_pairwise (fun _ _ _ _ => notAfter_antisymm)
    (List.pairwise_mergeSort notAfter_trans notAfter_total _)
    (List.pairwise_mergeSort notAfter_trans notAfter_total _) ?_
  exact (mClassTable_perm ..).trans (hperm.trans (mClassTable_perm ..).symm)

theorem length_mClassTable_lt (p : ClassProgram) (group : NetClassGroup)
    (classType : NetClassType) : (p.mClassTable group classType).length < 2 ^ 31 - 65 := by
  have hle : (p.mClassTable group classType).length ≤ p.mClassLinkList.length := by
    rw [(mClassTable_perm p group classType).length_eq, members, List.length_map]
    exact List.length_filter_le ..
  exact hle.trans_lt p.few

/-- The next power of two is not lower, as far as the shift is not too long. -/
theorem le_two_pow_getNextPow2 (hpos : 0 < n) (hn : n < 2 ^ 31 - 64) :
    n ≤ 2 ^ (getBinLog2 (getNextPow2 (BitVec.ofNat 32 n))).toNat := by
  have hsmall : n < 2 ^ 32 := by omega
  obtain ⟨hlow, hhigh⟩ := log2_bounds hpos
  rw [getNextPow2]
  split
  case isTrue hpow =>
    have heq := (isPowerOfTwo_iff hpos).mp ((isPow2_ofNat hpos hsmall).mp hpow)
    rw [getBinLog2_ofNat hpos hsmall]
    split_ifs
    · exact hhigh.le
    · exact heq.le
  case isFalse =>
    have hlog : n.log2 ≤ 30 := by
      have := (Nat.log2_lt (n := n) (k := 31) hpos.ne').mpr (by omega)
      omega
    have hround : (getBinLog2 (BitVec.ofNat 32 n)).toNat ≤ 30 ∧
        n.log2 ≤ (getBinLog2 (BitVec.ofNat 32 n)).toNat := by
      rw [getBinLog2_ofNat hpos hsmall]
      split
      case isTrue hup =>
        have hnot : n.log2 ≠ 30 := by
          intro hmax
          rw [hmax] at hup
          have := hup.2
          omega
        omega
      case isFalse => omega
    have hshift : (1 : U32) <<< (getBinLog2 (BitVec.ofNat 32 n) + 1) =
        BitVec.ofNat 32 (2 ^ ((getBinLog2 (BitVec.ofNat 32 n)).toNat + 1)) := by
      have hsucc : (getBinLog2 (BitVec.ofNat 32 n) + 1).toNat =
          (getBinLog2 (BitVec.ofNat 32 n)).toNat + 1 := by bv_omega
      rw [BitVec.shiftLeft_eq', hsucc]
      apply BitVec.eq_of_toNat_eq
      simp [BitVec.toNat_shiftLeft, Nat.shiftLeft_eq]
    have hexp : 2 ^ ((getBinLog2 (BitVec.ofNat 32 n)).toNat + 1) < 2 ^ 32 :=
      Nat.pow_lt_pow_right (by decide) (by omega)
    rw [hshift, getBinLog2_ofNat (Nat.two_pow_pos _) hexp, Nat.log2_two_pow,
      if_neg (not_roundsUp_two_pow _)]
    exact hhigh.le.trans (Nat.pow_le_pow_right (by decide) (by omega))

theorem lt_two_pow_mNetClassBitSize {i : ℕ} (hi : i < (p.mClassTable group .object).length) :
    i < 2 ^ (p.mNetClassBitSize group .object).toNat := by
  have hlt := length_mClassTable_lt p group .object
  have hle := le_two_pow_getNextPow2 (n := (p.mClassTable group .object).length + 1)
    (Nat.succ_pos _) (by omega)
  rw [mNetClassBitSize, if_neg (by omega)]
  omega

/-- A stream of some bits, at its start. -/
def holding (bits : List Bool) : BitStream where
  buffer i := bits.getD i false
  mBufSize := (bits.length + 7) / 8
  mOwnsMemory := false
  bitNum := 0
  error := false
  maxReadBitNum := bits.length
  maxWriteBitNum := 0

theorem holding_ahead {bits : List Bool} (h : bits.length < 2 ^ 32) :
    (holding bits).Ahead bits where
  holds := by
    apply List.ext_getElem
    · simp [window]
    · intro i _ hi
      simp [window, holding, hi]
  inside := (Nat.zero_add _).le
  small := h

/-- Exactly which class a class of one end is read as by the other. -/
theorem readClassId_eq {classId : ℕ} {s : BitStream}
    (hid : classId < (client.mClassTable group .object).length)
    (hbits : server.mNetClassBitSize group .object = client.mNetClassBitSize group .object)
    (h : s.Ahead (intBits classId (client.mNetClassBitSize group .object).toNat)) :
    server.readClassId .object group s =
      (if classId ≥ (server.mClassTable group .object).length then none else some classId,
        s.advanceBitPosition (client.mNetClassBitSize group .object).toNat) := by
  rw [← List.append_nil (intBits _ _)] at h
  have hread := h.readInt
  rw [Nat.mod_eq_of_lt (lt_two_pow_mNetClassBitSize hid)] at hread
  rw [readClassId, hbits, hread]

theorem mem_mClassTable {c : NetClassRep} :
    c ∈ p.mClassTable group .object ↔ c ∈ p.members group .object :=
  (mClassTable_perm ..).mem_iff

theorem getElem?_getClassId {c : NetClassRep} (hc : c ∈ p.members group .object) :
    (p.mClassTable group .object)[p.getClassId group .object c]? = some c :=
  List.getElem?_idxOf (mem_mClassTable.mpr hc)

theorem getClassId_lt {c : NetClassRep} (hc : c ∈ p.members group .object) :
    p.getClassId group .object c < (p.mClassTable group .object).length :=
  List.idxOf_lt_length_iff.mpr (mem_mClassTable.mpr hc)

/-- Ends that register the same classes understand each other's ids. -/
theorem denotes_of_same (hsame : ∀ c, c ∈ client.members group .object ↔
    c ∈ server.members group .object) : client.Denotes server group := by
  have htable := mClassTable_eq hsame
  have hbits : server.mNetClassBitSize group .object = client.mNetClassBitSize group .object := by
    rw [mNetClassBitSize, mNetClassBitSize, htable]
  intro classRep hclass
  refine ⟨hbits, fun s hs => ⟨client.getClassId group .object classRep, ?_, ?_⟩⟩
  · have hlt := getClassId_lt hclass
    rw [readClassId_eq hlt hbits hs, ← htable, if_neg (Nat.not_le.mpr hlt)]
  · rw [← htable]
    exact getElem?_getClassId hclass

/-- A class whose id is understood is registered at the other end. -/
theorem Denotes.mem (h : client.Denotes server group) {c : NetClassRep}
    (hc : c ∈ client.members group .object) : c ∈ server.members group .object := by
  obtain ⟨-, hread⟩ := h c hc
  have hlength : (intBits (client.getClassId group .object c)
      (client.mNetClassBitSize group .object).toNat).length < 2 ^ 32 := by
    rw [intBits_length]
    exact BitVec.isLt _
  obtain ⟨classId, -, helem⟩ := hread _ (holding_ahead hlength)
  exact mem_mClassTable.mp (List.mem_of_getElem? helem)

/-- A request is accepted for the group and the event classes alone. -/
theorem classGroup_eq {clientGroup serverGroup : NetClassGroup} {s : EventClasses}
    (request : (server.peer serverGroup).readConnectRequest
      (client.peer clientGroup).writeConnectRequest = some s) : clientGroup = serverGroup := by
  obtain ⟨⟨hgroup, -⟩, -⟩ := Option.ite_none_right_eq_some.mp request
  have hval := congrArg BitVec.toNat hgroup
  simp only [ClassPeer.writeConnectRequest, peer, BitVec.toNat_ofNat] at hval
  apply Fin.ext
  omega

/-- When a request and its answer are accepted, the object class ids of each end denote the same
classes at the other end exactly if both programs register the same object classes in the group. -/
theorem objectClasses_agree_iff {clientGroup serverGroup : NetClassGroup}
    {initial s c : EventClasses}
    (request : (server.peer serverGroup).readConnectRequest
      (client.peer clientGroup).writeConnectRequest = some s)
    (_accept : (client.peer clientGroup).readConnectAccept initial
      (ClassPeer.writeConnectAccept s) = some c) :
    (client.Denotes server clientGroup ∧ server.Denotes client serverGroup) ↔
      ∀ classRep, classRep ∈ client.members clientGroup .object ↔
        classRep ∈ server.members serverGroup .object := by
  obtain rfl := classGroup_eq request
  constructor
  · rintro ⟨hclient, hserver⟩ classRep
    exact ⟨hclient.mem, hserver.mem⟩
  · intro hsame
    exact ⟨denotes_of_same hsame, denotes_of_same fun classRep => (hsame classRep).symm⟩

/-- A program with one kind of event and one kind of object. -/
def oneObject (mClassName : String) (hne : mClassName ≠ "ChatEvent") : ClassProgram where
  mClassLinkList :=
    [⟨⟨"ChatEvent", 0⟩, 1, .event⟩, ⟨⟨mClassName, 0⟩, 1, .object⟩]
  names_nodup := by simpa using hne.symm
  few := by simp

def ships : ClassProgram := oneObject "Ship" (by decide)

def asteroids : ClassProgram := oneObject "Asteroid" (by decide)

theorem objectClasses_agree_ships :
    ∃ s c, (ships.peer 0).readConnectRequest (ships.peer 0).writeConnectRequest = some s ∧
      (ships.peer 0).readConnectAccept ⟨0, 0, 0⟩ (ClassPeer.writeConnectAccept s) = some c ∧
      ((ships.Denotes ships 0 ∧ ships.Denotes ships 0) ↔
        ∀ classRep, classRep ∈ ships.members 0 .object ↔ classRep ∈ ships.members 0 .object) := by
  have request : (ships.peer 0).readConnectRequest (ships.peer 0).writeConnectRequest =
      some ⟨1, 0, 0⟩ := by decide +kernel
  have accept : (ships.peer 0).readConnectAccept ⟨0, 0, 0⟩
      (ClassPeer.writeConnectAccept ⟨1, 0, 0⟩) = some ⟨1, 0, 0⟩ := by decide +kernel
  exact ⟨_, _, request, accept, objectClasses_agree_iff request accept⟩

/-- Nothing shows that one end has ships where the other has asteroids. -/
theorem ships_asteroids_accepted : ¬ ∀ (client server : ClassProgram) (group : NetClassGroup)
    (initial s c : EventClasses),
    (server.peer group).readConnectRequest (client.peer group).writeConnectRequest = some s →
    (client.peer group).readConnectAccept initial (ClassPeer.writeConnectAccept s) = some c →
    client.Denotes server group ∧ server.Denotes client group := by
  intro hclaim
  have request : (asteroids.peer 0).readConnectRequest (ships.peer 0).writeConnectRequest =
      some ⟨1, 0, 0⟩ := by decide +kernel
  have accept : (ships.peer 0).readConnectAccept ⟨0, 0, 0⟩
      (ClassPeer.writeConnectAccept ⟨1, 0, 0⟩) = some ⟨1, 0, 0⟩ := by decide +kernel
  have hship := (hclaim ships asteroids 0 ⟨0, 0, 0⟩ ⟨1, 0, 0⟩ ⟨1, 0, 0⟩ request accept).1.mem
    (c := ⟨"Ship", 0⟩) (by decide)
  revert hship
  decide

end ClassProgram

end TNL
