import Mathlib.Data.Finset.Max
import Mathlib.Data.List.Sort
import Mathlib.Data.String.Basic
import TNL.Connection.Header

/-!
# Negotiation of the event classes

Both peers number their event classes by version and then by name. The
initiator of a connection offers the number of its classes; the acceptor cuts
it back to the number of its own, or accepts it if it is the number of its
classes up to some version, and the initiator checks the result in the same
way. What the connect packets carry besides the classes is left out.
-/
namespace TNL

structure NetClassRep where
  mClassName : String
  mClassVersion : ℤ
  deriving DecidableEq

namespace NetClassRep

/-- `ACRCompare` is negative. -/
def before (a b : NetClassRep) : Prop :=
  a.mClassVersion < b.mClassVersion ∨
    a.mClassVersion = b.mClassVersion ∧ a.mClassName < b.mClassName

/-- A class table as `initialize` leaves it; a name with a version is registered once. -/
def Sorted (classTable : List NetClassRep) : Prop := classTable.Pairwise before

instance : DecidableRel before := fun _ _ => inferInstanceAs (Decidable (_ ∨ _))

instance (classTable : List NetClassRep) : Decidable (Sorted classTable) :=
  inferInstanceAs (Decidable (classTable.Pairwise before))

def isVersionBorderCount (classTable : List NetClassRep) (count : ℕ) : Bool :=
  count = classTable.length ∨
    0 < count ∧ classTable[count]?.map mClassVersion ≠ classTable[count - 1]?.map mClassVersion

end NetClassRep

/-- The exponent of the single-precision number nearest to an integer. Its significand has 24 bits,
and a tie below a power of two is rounded up to it. -/
def getBinLog2 (value : U32) : U32 :=
  if value = 0 then 0 - 127
  else
    let exponent := value.toNat.log2
    BitVec.ofNat 32
      (if 24 ≤ exponent ∧ 2 ^ (exponent + 1) - 2 ^ (exponent - 24) ≤ value.toNat then exponent + 1
      else exponent)

def isPow2 (number : U32) : Bool := number &&& (number - 1) = 0

def getNextBinLog2 (number : U32) : U32 := getBinLog2 number + if isPow2 number then 0 else 1

/-- The fields of an `EventConnection` that the negotiation sets. The constructor leaves the version
as the memory was. -/
structure EventClasses where
  mEventClassCount : U32
  mEventClassBitSize : U32
  mEventClassVersion : U32
  deriving DecidableEq

/-- The connect request of a connection, as far as it is about classes. -/
structure ClassRequest where
  classGroup : U32
  classCRC : U32
  classCount : U32

/-- One end: its class group, the checksum of the group and its event classes. -/
structure ClassPeer where
  classGroup : U32
  classCRC : U32
  classTable : List NetClassRep
  classCount_lt : classTable.length < 2 ^ 32

namespace ClassPeer
open NetClassRep

def getNetClassCount (p : ClassPeer) : U32 := BitVec.ofNat 32 p.classTable.length

def writeConnectRequest (p : ClassPeer) : ClassRequest :=
  ⟨p.classGroup, p.classCRC, p.getNetClassCount⟩

/-- `none` when the request is refused, or when there is no class to take the version of. -/
def readConnectRequest (p : ClassPeer) (r : ClassRequest) : Option EventClasses :=
  if r.classGroup = p.classGroup ∧ r.classCRC = p.classCRC then
    let myCount := p.getNetClassCount
    let count := if myCount ≤ r.classCount then myCount else r.classCount
    if myCount ≤ r.classCount ∨ isVersionBorderCount p.classTable count.toNat then
      p.classTable[(count - 1).toNat]?.map (fun classRep =>
        ⟨count, getNextBinLog2 count, BitVec.ofInt 32 classRep.mClassVersion⟩)
    else none
  else none

def writeConnectAccept (c : EventClasses) : U32 := c.mEventClassCount

def readConnectAccept (p : ClassPeer) (c : EventClasses) (eventClassCount : U32) :
    Option EventClasses :=
  if eventClassCount > p.getNetClassCount then none
  else if !isVersionBorderCount p.classTable eventClassCount.toNat then none
  else some { c with
    mEventClassCount := eventClassCount
    mEventClassBitSize := getNextBinLog2 eventClassCount }

/-- A version of which there is a class. -/
def Knows (classTable : List NetClassRep) (version : ℤ) : Prop :=
  ∃ c ∈ classTable, c.mClassVersion = version

/-- The classes of the versions that both tables have are the same. -/
def Agree (a b : List NetClassRep) : Prop :=
  ∀ c, Knows a c.mClassVersion → Knows b c.mClassVersion → (c ∈ a ↔ c ∈ b)

/-- Neither table has a version that the other lacks, up to the lower of their highest versions. -/
def SameVersions (a b : List NetClassRep) : Prop :=
  ∀ version, (∃ v ≥ version, Knows a v) → (∃ v ≥ version, Knows b v) →
    (Knows a version ↔ Knows b version)

instance : Std.Irrefl before := ⟨fun a h => by simp [before] at h⟩

instance : Std.Antisymm before := ⟨fun a b hab hba => by
  rcases hab with hlt | ⟨heq, hlt⟩ <;> rcases hba with hlt' | ⟨heq', hlt'⟩
  · omega
  · omega
  · omega
  · exact absurd hlt (lt_asymm hlt')⟩

variable {a b : List NetClassRep}

theorem pairwise_versions (h : Sorted a) :
    a.Pairwise (fun c d => c.mClassVersion ≤ d.mClassVersion) :=
  h.imp (fun hcd => hcd.elim le_of_lt (fun heq => heq.1.le))

/-- A table that is not empty has a highest version. -/
theorem exists_highest (hne : a ≠ []) :
    ∃ highest, Knows a highest ∧ ∀ c ∈ a, c.mClassVersion ≤ highest := by
  obtain ⟨c, hc, hmax⟩ := Finset.exists_max_image a.toFinset mClassVersion
    (List.toFinset_nonempty_iff a |>.mpr hne)
  exact ⟨c.mClassVersion, ⟨c, List.mem_toFinset.mp hc, rfl⟩,
    fun d hd => hmax d (List.mem_toFinset.mpr hd)⟩

/-- Up to a version that the tables have in common they are the same. -/
theorem filter_eq (ha : Sorted a) (hb : Sorted b) (agree : Agree a b) (version : ℤ)
    (same : ∀ v ≤ version, Knows a v ↔ Knows b v) :
    a.filter (·.mClassVersion ≤ version) = b.filter (·.mClassVersion ≤ version) := by
  refine (ha.filter _).eq_of_mem_iff (hb.filter _) fun c => ?_
  simp only [List.mem_filter, decide_eq_true_iff]
  constructor
  · rintro ⟨hc, hv⟩
    have hknows : Knows a c.mClassVersion := ⟨c, hc, rfl⟩
    exact ⟨(agree c hknows ((same _ hv).mp hknows)).mp hc, hv⟩
  · rintro ⟨hc, hv⟩
    have hknows : Knows b c.mClassVersion := ⟨c, hc, rfl⟩
    exact ⟨(agree c ((same _ hv).mpr hknows) hknows).mpr hc, hv⟩

/-- The classes up to a version come first. -/
theorem filter_eq_take (h : Sorted a) (version : ℤ) :
    a.filter (·.mClassVersion ≤ version) =
      a.take (a.filter (·.mClassVersion ≤ version)).length := by
  induction a with
  | nil => rfl
  | cons c a ih =>
    have hcons := List.pairwise_cons.mp (pairwise_versions h)
    by_cases hc : c.mClassVersion ≤ version
    · rw [List.filter_cons_of_pos (by simpa using hc), List.length_cons, List.take_succ_cons,
        ← ih (List.Pairwise.of_cons h)]
    · have none : a.filter (·.mClassVersion ≤ version) = [] := by
        rw [List.filter_eq_nil_iff]
        intro d hd
        have := hcons.1 d hd
        simp only [decide_eq_true_iff]
        omega
      rw [List.filter_cons_of_neg (by simpa using hc), none]
      rfl

/-- A table is the first part of one at least as long, which has a version border there, exactly if
they have the same versions up to the highest of both. -/
theorem eq_take_iff (ha : Sorted a) (hb : Sorted b) (agree : Agree a b) (hne : a ≠ [])
    (hle : a.length ≤ b.length) (border : isVersionBorderCount b a.length = true) :
    a = b.take a.length ↔ SameVersions a b := by
  obtain ⟨highest, hknown, hmax⟩ := exists_highest hne
  constructor
  · intro heq version hva hvb
    constructor
    · rintro ⟨c, hc, hv⟩
      rw [heq] at hc
      exact ⟨c, List.mem_of_mem_take hc, hv⟩
    · rintro ⟨c, hc, hv⟩
      obtain ⟨va, hva, d, hd, hdv⟩ := hva
      obtain ⟨i, hi, hci⟩ := List.getElem_of_mem hc
      by_cases hlt : i < a.length
      · refine ⟨c, ?_, hv⟩
        rw [heq, List.mem_take_iff_getElem]
        exact ⟨i, by omega, hci⟩
      · -- past the border all versions are higher than in the first part
        exfalso
        rw [heq, List.mem_take_iff_getElem] at hd
        obtain ⟨j, hj, hdj⟩ := hd
        have mono : ∀ m n (hm : m ≤ n) (hn : n < b.length),
            (b.get ⟨m, by omega⟩).mClassVersion ≤ (b.get ⟨n, hn⟩).mClassVersion := by
          intro m n hm hn
          rcases hm.eq_or_lt with rfl | hlt
          · exact le_rfl
          · exact List.pairwise_iff_getElem.mp (pairwise_versions hb) m n _ hn hlt
        have hk : a.length < b.length := by omega
        have before := mono j (a.length - 1) (by omega) (by omega)
        have across := mono (a.length - 1) a.length (by omega) hk
        have behind := mono a.length i (by omega) hi
        have equal : (b.get ⟨a.length, hk⟩).mClassVersion =
            (b.get ⟨a.length - 1, by omega⟩).mClassVersion := by
          have hlast : (b.get ⟨i, hi⟩).mClassVersion = version := by
            rw [List.get_eq_getElem, hci, hv]
          have hfirst : (b.get ⟨j, by omega⟩).mClassVersion = va := by
            rw [List.get_eq_getElem, hdj, hdv]
          omega
        rcases of_decide_eq_true border with hlen | ⟨-, hne⟩
        · omega
        · apply hne
          rw [List.getElem?_eq_getElem hk, List.getElem?_eq_getElem (by omega)]
          exact congrArg some equal
  · intro same
    obtain ⟨highest', hknown', hmax'⟩ := exists_highest (a := b) (by
      rintro rfl
      exact hne (List.eq_nil_of_length_eq_zero (by simpa using hle)))
    have whole : ∀ {t : List NetClassRep} {v : ℤ}, (∀ c ∈ t, c.mClassVersion ≤ v) →
        t.filter (·.mClassVersion ≤ v) = t := by
      intro t v hall
      rw [List.filter_eq_self]
      intro c hc
      exact decide_eq_true (hall c hc)
    rcases le_or_gt highest highest' with hhigh | hlow
    · have heq := filter_eq ha hb agree highest fun v hv =>
        same v ⟨highest, hv, hknown⟩ ⟨highest', hv.trans hhigh, hknown'⟩
      rw [whole hmax] at heq
      have htake := filter_eq_take hb highest
      rw [← heq] at htake
      exact htake
    · have heq := filter_eq ha hb agree highest' fun v hv =>
        same v ⟨highest, hv.trans hlow.le, hknown⟩ ⟨highest', hv, hknown'⟩
      rw [whole hmax'] at heq
      have shorter : b.length < a.length := by
        rw [← heq]
        obtain ⟨c, hc, hcv⟩ := hknown
        exact List.length_filter_lt_length_iff_exists.mpr ⟨c, hc, by simp; omega⟩
      omega

theorem getElem?_eq_iff : (∀ i < a.length, a[i]? = b[i]?) ↔ a = b.take a.length := by
  constructor
  · intro h
    apply List.ext_getElem?
    intro i
    rw [List.getElem?_take]
    split_ifs with hi
    · exact h i hi
    · exact List.getElem?_eq_none (by omega)
  · intro h i hi
    have htake := congrArg (·[i]?) h
    rwa [List.getElem?_take_of_lt hi] at htake

theorem Agree.symm (h : Agree a b) : Agree b a := fun c hb ha => (h c ha hb).symm

theorem sameVersions_comm : SameVersions a b ↔ SameVersions b a := by
  constructor <;> exact fun h v hb ha => (h v ha hb).symm

theorem getNetClassCount_toNat (p : ClassPeer) : p.getNetClassCount.toNat = p.classTable.length :=
  BitVec.toNat_ofNat .. |>.trans (Nat.mod_eq_of_lt p.classCount_lt)

variable {client server : ClassPeer} {initial s c : EventClasses}

/-- Below a count of zero there is no class. -/
theorem index_pred {count : U32} {classRep : NetClassRep}
    (h : server.classTable[(count - 1).toNat]? = some classRep) :
    count ≠ 0 ∧ (count - 1).toNat = count.toNat - 1 := by
  have hne : count ≠ 0 := by
    rintro rfl
    have hlt := (List.getElem?_eq_some_iff.mp h).1
    have := server.classCount_lt
    have hmax : ((0 : U32) - 1).toNat = 2 ^ 32 - 1 := rfl
    omega
  exact ⟨hne, by bv_omega⟩

/-- An accepted request makes the smaller count the common one. -/
theorem readConnectRequest_spec
    (accepted : server.readConnectRequest client.writeConnectRequest = some s) :
    s.mEventClassCount.toNat = min client.classTable.length server.classTable.length ∧
    s.mEventClassCount ≠ 0 ∧
    s.mEventClassBitSize = getNextBinLog2 s.mEventClassCount ∧
    server.classTable[s.mEventClassCount.toNat - 1]?.map (BitVec.ofInt 32 ·.mClassVersion) =
      some s.mEventClassVersion ∧
    isVersionBorderCount server.classTable s.mEventClassCount.toNat = true := by
  have hclient := client.getNetClassCount_toNat
  have hserver := server.getNetClassCount_toNat
  obtain ⟨-, accepted⟩ := Option.ite_none_right_eq_some.mp accepted
  by_cases hle : server.getNetClassCount ≤ client.getNetClassCount
  · simp only [writeConnectRequest, hle, true_or, if_true] at accepted
    obtain ⟨classRep, hrep, rfl⟩ := Option.map_eq_some_iff.mp accepted
    obtain ⟨hne, hindex⟩ := index_pred hrep
    rw [hindex] at hrep
    have hlen : server.classTable.length ≤ client.classTable.length := by
      rw [← hclient, ← hserver]
      exact hle
    refine ⟨hserver.trans (min_eq_right hlen).symm, hne, rfl, by rw [hrep]; rfl, ?_⟩
    exact decide_eq_true (.inl hserver)
  · simp only [writeConnectRequest, hle, false_or] at accepted
    obtain ⟨hborder, accepted⟩ := Option.ite_none_right_eq_some.mp accepted
    obtain ⟨classRep, hrep, rfl⟩ := Option.map_eq_some_iff.mp accepted
    obtain ⟨hne, hindex⟩ := index_pred hrep
    rw [hindex] at hrep
    have hlen : client.classTable.length ≤ server.classTable.length := by
      rw [← hclient, ← hserver]
      exact (BitVec.not_le.mp hle).le
    exact ⟨hclient.trans (min_eq_left hlen).symm, hne, rfl, by rw [hrep]; rfl, hborder⟩

theorem readConnectAccept_spec
    (accepted : client.readConnectAccept initial s.mEventClassCount = some c) :
    c = ⟨s.mEventClassCount, getNextBinLog2 s.mEventClassCount, initial.mEventClassVersion⟩ ∧
    isVersionBorderCount client.classTable s.mEventClassCount.toNat = true := by
  rw [readConnectAccept] at accepted
  split_ifs at accepted with hcount hborder
  cases accepted
  exact ⟨rfl, by simpa using hborder⟩

/-- When a request and its answer are accepted, both ends agree on the count, the bit size, the
version and the classes exactly if the initiator's version had the right value all along and neither
table lacks a version of the other one below the highest of both. -/
theorem negotiated_iff (hclient : Sorted client.classTable) (hserver : Sorted server.classTable)
    (agree : Agree client.classTable server.classTable)
    (request : server.readConnectRequest client.writeConnectRequest = some s)
    (accept : client.readConnectAccept initial (writeConnectAccept s) = some c) :
    (c.mEventClassCount = s.mEventClassCount ∧ c.mEventClassBitSize = s.mEventClassBitSize ∧
      c.mEventClassVersion = s.mEventClassVersion ∧
      ∀ i < c.mEventClassCount.toNat, client.classTable[i]? = server.classTable[i]?) ↔
    server.classTable[min client.classTable.length server.classTable.length - 1]?.map
        (BitVec.ofInt 32 ·.mClassVersion) = some initial.mEventClassVersion ∧
      SameVersions client.classTable server.classTable := by
  obtain ⟨hcount, hne, hbits, hversion, hborder⟩ := readConnectRequest_spec request
  obtain ⟨rfl, hborder'⟩ := readConnectAccept_spec accept
  have hpos : 0 < s.mEventClassCount.toNat := by bv_omega
  rw [hcount] at hborder hborder' hversion hpos
  -- both tables begin with the same classes exactly if the shorter one is the beginning of the other
  have classes : (∀ i < min client.classTable.length server.classTable.length,
      client.classTable[i]? = server.classTable[i]?) ↔
      SameVersions client.classTable server.classTable := by
    rcases le_total client.classTable.length server.classTable.length with hle | hle
    · rw [min_eq_left hle] at hborder hpos ⊢
      rw [← eq_take_iff hclient hserver agree (List.ne_nil_of_length_pos hpos) hle hborder]
      exact getElem?_eq_iff
    · rw [min_eq_right hle] at hborder' hpos ⊢
      rw [sameVersions_comm, ← eq_take_iff hserver hclient agree.symm
        (List.ne_nil_of_length_pos hpos) hle hborder', ← getElem?_eq_iff]
      exact forall₂_congr fun i _ => eq_comm
  rw [hversion]
  simp only [hcount, hbits, classes, Option.some.injEq, true_and]
  rw [eq_comm]

/-- The first versions of a program's event classes, and the same with a class of a later version. -/
def firstVersion : ClassPeer := ⟨0, 0, [⟨"ChatEvent", 0⟩, ⟨"MoveEvent", 0⟩], by decide⟩

def laterVersion : ClassPeer :=
  ⟨0, 0, [⟨"ChatEvent", 0⟩, ⟨"MoveEvent", 0⟩, ⟨"TradeEvent", 3⟩], by decide⟩

theorem agree_firstVersion : Agree firstVersion.classTable laterVersion.classTable := by
  rintro c ⟨d, hd, hv⟩ -
  have hzero : c.mClassVersion = 0 := by
    simp only [firstVersion, List.mem_cons, List.not_mem_nil, or_false] at hd
    rcases hd with rfl | rfl <;> exact hv.symm
  have hne : c ≠ ⟨"TradeEvent", 3⟩ := by
    rintro rfl
    cases hzero
  simp [firstVersion, laterVersion, hne]

/-- A program connects to a later version of itself. -/
theorem negotiated_iff_laterVersion :
    ∃ s c, laterVersion.readConnectRequest firstVersion.writeConnectRequest = some s ∧
      firstVersion.readConnectAccept ⟨0, 0, 0⟩ (writeConnectAccept s) = some c ∧
      ((c.mEventClassCount = s.mEventClassCount ∧ c.mEventClassBitSize = s.mEventClassBitSize ∧
        c.mEventClassVersion = s.mEventClassVersion ∧
        ∀ i < c.mEventClassCount.toNat,
          firstVersion.classTable[i]? = laterVersion.classTable[i]?) ↔
      laterVersion.classTable[min firstVersion.classTable.length
          laterVersion.classTable.length - 1]?.map (BitVec.ofInt 32 ·.mClassVersion) = some 0 ∧
        SameVersions firstVersion.classTable laterVersion.classTable) := by
  have request : laterVersion.readConnectRequest firstVersion.writeConnectRequest =
      some ⟨2, 1, 0⟩ := by decide +kernel
  have accept : firstVersion.readConnectAccept ⟨0, 0, 0⟩ (writeConnectAccept ⟨2, 1, 0⟩) =
      some ⟨2, 1, 0⟩ := by decide +kernel
  exact ⟨_, _, request, accept, negotiated_iff (by decide +kernel) (by decide +kernel)
    agree_firstVersion request accept⟩

/-- Two equal programs, where the initiator's version is not the one negotiated. -/
theorem version_not_negotiated :
    ¬ ∀ (client server : ClassPeer) (initial s c : EventClasses), Sorted client.classTable →
      Sorted server.classTable → Agree client.classTable server.classTable →
      server.readConnectRequest client.writeConnectRequest = some s →
      client.readConnectAccept initial (writeConnectAccept s) = some c →
      c.mEventClassCount = s.mEventClassCount ∧ c.mEventClassBitSize = s.mEventClassBitSize ∧
        c.mEventClassVersion = s.mEventClassVersion ∧
        ∀ i < c.mEventClassCount.toNat, client.classTable[i]? = server.classTable[i]? := by
  intro h
  have same := h laterVersion laterVersion ⟨0, 0, 0⟩ ⟨3, 2, 3⟩ ⟨3, 2, 0⟩ (by decide +kernel)
    (by decide +kernel) (fun _ _ _ => Iff.rfl) (by decide +kernel) (by decide +kernel)
  exact absurd same.2.2.1 (by decide)

end ClassPeer

end TNL
