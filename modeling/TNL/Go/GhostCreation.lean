import TNL.Go.GhostConnection
import TNL.Library.Run

/-!
# Creation of ghosts in the Go port

A server keeps ghosts on a client. Packets arrive in order or are lost, and the
server is told in order what became of them. A record carries the creation of its
ghost if it is the first one that was written for it; whether that one arrived
does not matter to the server. So the client can read every record as long as no
packet with a creation is lost.
-/
namespace TNL.Go
open Library BitReader

variable {ω τ : Type}

/-- A type of objects is known on both sides under the same id, and reading an update consumes what
was written. -/
def ObjectTypes.Registered (R : ObjectTypes ω τ) (type : τ) : Prop :=
  (∃ id ≤ 1024, R.getObjectFactoryID type = some id ∧
    ∃ created, R.createObject id = some created ∧ R.typeOf created = type) ∧
  ∀ obj ghost mask rest, R.typeOf obj = type → R.typeOf ghost = type →
    (R.unpackUpdate ghost ⟨(R.packUpdate obj mask).1 ++ rest, false⟩).2 = ⟨rest, false⟩

/-- What a record was written for. -/
structure GhostRecord (ω : Type) where
  ghostID : ℕ
  isNew : Bool
  obj : ω
  mask : U32

/-- A packet, with the records that were written into it and what was written behind them. -/
structure GhostPacket (ω : Type) where
  packetSeq : U32
  body : List Bool
  records : List (GhostRecord ω)
  tail : List Bool

/-- A packet that arrived, with what the client made of it. -/
structure GhostDelivery (ω : Type) where
  packet : GhostPacket ω
  read : List (ReadRecord ω)
  rest : BitReader

/-- A server and a client. `uncreated` are the ghosts of which a creation was reported as dropped,
as long as no record has been written for them since, and `rewritten` the records that were. -/
structure GhostStream (ω : Type) where
  server : GhostConnection ω
  client : GhostConnection ω
  objects : ℕ
  inFlight : List (GhostPacket ω)
  notices : List (GhostPacket ω × Bool)
  delivered : List (GhostDelivery ω)
  uncreated : List ℕ
  rewritten : List (GhostRecord ω)

namespace GhostStream
open GhostConnection

inductive Action (ω : Type) where
  | objectInScope (obj : ω)
  | change (netID : U32) (obj : ω) (mask : U32)
  | write (order : List U32) (packetSeq : U32) (events tail : List Bool)
  | deliver
  | lose
  | notify

/-- The record that is written for an object, if there is one. -/
def recordOf (gi : GhostInfo ω) : Option (GhostRecord ω) :=
  if gi.mask = 0 then none else some ⟨gi.ghostID, gi.isNew, gi.obj, gi.mask⟩

def recordsOf (ghosts : AList (fun _ : U32 => GhostInfo ω)) (order : List U32) :
    List (GhostRecord ω) :=
  order.filterMap (fun netID => (ghosts.lookup netID).bind recordOf)

/-- The ghosts that records create. -/
def created (records : List (GhostRecord ω)) : List ℕ :=
  (records.filter (·.isNew)).map (·.ghostID)

variable (R : ObjectTypes ω τ)

def start : GhostStream ω := ⟨newGhostConnection, newGhostConnection, 0, [], [], [], [], []⟩

/-- `events` is what is in the packet before the records. An object keeps its type. -/
def step [DecidableEq τ] (s : GhostStream ω) : Action ω → Option (GhostStream ω)
  | .objectInScope obj => some { s with
      server := s.server.objectInScope R obj
      objects := if (s.server.ghostsToClient.lookup (R.getNetID obj)).isSome then s.objects
        else s.objects + 1 }
  | .change netID obj mask =>
    match s.server.ghostsToClient.lookup netID with
    | none => none
    | some gi =>
      if R.typeOf obj = R.typeOf gi.obj then some { s with
        server := { s.server with
          ghostsToClient := s.server.ghostsToClient.insert netID { gi with obj, mask } } }
      else none
  | .write order packetSeq events tail =>
    if order.Perm s.server.ghostsToClient.keys then
      let records := recordsOf s.server.ghostsToClient order
      let (server, bs) := s.server.writeGhosts R order events packetSeq
      some { s with
        server := server
        inFlight := s.inFlight ++ [⟨packetSeq, (bs ++ tail).drop events.length, records, tail⟩]
        rewritten := s.rewritten ++ records.filter (fun r => r.ghostID ∈ s.uncreated)
        uncreated := s.uncreated.filter (fun id => id ∉ records.map (·.ghostID)) }
    else none
  | .deliver =>
    match s.inFlight with
    | [] => none
    | packet :: inFlight =>
      let (client, read, rest) := s.client.readGhosts R ⟨packet.body, false⟩
      some { s with
        client := client
        inFlight := inFlight
        notices := s.notices ++ [(packet, true)]
        delivered := s.delivered ++ [⟨packet, read, rest⟩] }
  | .lose =>
    match s.inFlight with
    | [] => none
    | packet :: inFlight =>
      some { s with inFlight := inFlight, notices := s.notices ++ [(packet, false)] }
  | .notify =>
    match s.notices with
    | [] => none
    | (packet, true) :: notices => some { s with
        server := s.server.onGhostPacketReceived packet.packetSeq
        notices := notices }
    | (packet, false) :: notices => some { s with
        server := s.server.onGhostPacketDropped packet.packetSeq
        notices := notices
        uncreated := s.uncreated ++ created packet.records }

/-- The type of the object, in a record that creates the ghost. -/
def typeBits (r : GhostRecord ω) : List Bool :=
  if r.isNew then
    match R.getObjectFactoryID (R.typeOf r.obj) with
    | some typeID => BitWriter.writeRangedUint32 [] typeID 0 1024
    | none => []
  else []

/-- The bits of a record behind its flag. -/
def recordBits (r : GhostRecord ω) : List Bool :=
  BitWriter.writeRangedUint32 [] r.ghostID 0 1024 ++ r.isNew :: (typeBits R r ++
    (R.packUpdate r.obj r.mask).1)

/-- What is promised: the client knows the ghost of every record that it reads, the first record
after a lost creation is a creation, and every record is read to its end. -/
structure Survives (s : GhostStream ω) : Prop where
  told : ∀ d ∈ s.delivered, ∀ r ∈ d.read, r.ghost.isSome
  rewritten : ∀ r ∈ s.rewritten, r.isNew = true
  consumed : ∀ d ∈ s.delivered, d.read.map (·.bits) = d.packet.records.map (recordBits R) ∧
    d.rest = ⟨d.packet.tail, false⟩

/-- The types of objects in scope are registered, ids are not used again, and no packet with a
creation is lost. -/
def CreationsArrive (s : GhostStream ω) : Action ω → Prop
  | .objectInScope obj => R.Registered (R.typeOf obj) ∧
      (s.server.ghostsToClient.lookup (R.getNetID obj) = none → s.objects < 1024)
  | .lose => ∀ packet ∈ s.inFlight.head?, created packet.records = []
  | _ => True

/-! ### What is written -/

variable {R}

theorem writeGhost_bits {gi : GhostInfo ω} (hmask : gi.mask ≠ 0) (bs : BitWriter) :
    ∃ r, recordOf gi = some r ∧ (writeGhost R bs gi).1 = bs ++ true :: recordBits R r := by
  refine ⟨_, if_neg hmask, ?_⟩
  rw [writeGhost, recordBits, typeBits, BitWriter.writeRangedUint32_append]
  simp only [BitWriter.writeFlag]
  cases gi.isNew with
  | false => simp
  | true =>
    cases R.getObjectFactoryID (R.typeOf gi.obj) with
    | none => simp
    | some typeID =>
      simp only [if_true]
      rw [BitWriter.writeRangedUint32_append _ typeID]
      simp

/-- An object after its record, if there is one, has been written. -/
def written (R : ObjectTypes ω τ) (gi : GhostInfo ω) : GhostInfo ω :=
  if gi.mask = 0 then gi
  else { gi with isNew := false, mask := (R.packUpdate gi.obj gi.mask).2 }

theorem writeGhost_info {gi : GhostInfo ω} (hmask : gi.mask ≠ 0) (bs : BitWriter) :
    (writeGhost R bs gi).2.2 = written R gi := by
  rw [written, if_neg hmask]
  rfl

theorem recordsOf_congr {ghosts ghosts' : AList (fun _ : U32 => GhostInfo ω)} {order : List U32}
    (h : ∀ netID ∈ order, ghosts'.lookup netID = ghosts.lookup netID) :
    recordsOf ghosts' order = recordsOf ghosts order :=
  List.filterMap_congr (fun netID hmem => by rw [h netID hmem])

theorem writeLoop_bits {order : List U32} (horder : order.Nodup)
    (ghosts : AList (fun _ : U32 => GhostInfo ω)) (bs : BitWriter) :
    (writeLoop R order ghosts bs).2.1 =
      bs ++ (recordsOf ghosts order).flatMap (fun r => true :: recordBits R r) := by
  induction order generalizing ghosts bs with
  | nil => exact (List.append_nil bs).symm
  | cons id order ih =>
    obtain ⟨hid, horder⟩ := List.nodup_cons.mp horder
    rw [writeLoop, recordsOf, List.filterMap_cons]
    cases hgi : ghosts.lookup id with
    | none => exact ih horder ghosts bs
    | some gi =>
      rw [Option.bind_some]
      by_cases hmask : gi.mask = 0
      · simp only [recordOf, if_pos hmask]
        exact ih horder ghosts bs
      · obtain ⟨r, hr, hbits⟩ := writeGhost_bits (R := R) hmask bs
        simp only [if_neg hmask, hr, List.flatMap_cons]
        have hsame : ∀ netID ∈ order, (ghosts.insert id (writeGhost R bs gi).2.2).lookup netID =
            ghosts.lookup netID :=
          fun netID hmem => AList.lookup_insert_ne (ne_of_mem_of_not_mem hmem hid)
        rw [ih horder, hbits, recordsOf_congr hsame, List.append_assoc]
        rfl

theorem writeLoop_lookup {order : List U32} (horder : order.Nodup)
    (ghosts : AList (fun _ : U32 => GhostInfo ω)) (bs : BitWriter) (netID : U32) :
    (writeLoop R order ghosts bs).1.lookup netID =
      if netID ∈ order then (ghosts.lookup netID).map (written R) else ghosts.lookup netID := by
  induction order generalizing ghosts bs with
  | nil => exact (if_neg List.not_mem_nil).symm
  | cons id order ih =>
    obtain ⟨hid, horder⟩ := List.nodup_cons.mp horder
    have hskip : (ghosts.lookup id).map (written R) = ghosts.lookup id →
        (writeLoop R order ghosts bs).1.lookup netID =
          if netID ∈ id :: order then (ghosts.lookup netID).map (written R)
          else ghosts.lookup netID := by
      intro hsame
      rw [ih horder]
      by_cases hnet : netID = id
      · rw [hnet, if_neg hid, if_pos List.mem_cons_self, hsame]
      · simp only [List.mem_cons, hnet, false_or]
    rw [writeLoop]
    cases hgi : ghosts.lookup id with
    | none => exact hskip (by rw [hgi]; rfl)
    | some gi =>
      by_cases hmask : gi.mask = 0
      · simp only [if_pos hmask]
        refine hskip ?_
        rw [hgi, Option.map_some, written, if_pos hmask]
      · simp only [if_neg hmask]
        rw [ih horder, writeGhost_info hmask]
        by_cases hnet : netID = id
        · rw [hnet, if_neg hid, if_pos List.mem_cons_self, AList.lookup_insert, hgi,
            Option.map_some]
        · rw [AList.lookup_insert_ne hnet]
          simp only [List.mem_cons, hnet, false_or]

/-! ### What is read -/

/-- The types of the client's ghosts. -/
def typesOf (R : ObjectTypes ω τ) (ghosts : AList (fun _ : ℕ => ω)) : ℕ → Option τ :=
  fun ghostID => (ghosts.lookup ghostID).map R.typeOf

/-- The types of the client's ghosts after some records. -/
def learn (R : ObjectTypes ω τ) (known : ℕ → Option τ) (records : List (GhostRecord ω)) :
    ℕ → Option τ :=
  records.foldl (fun known r => Function.update known r.ghostID (some (R.typeOf r.obj))) known

/-- A record that the client can read, knowing the types of its ghosts. -/
structure RecordReadable (R : ObjectTypes ω τ) (known : ℕ → Option τ) (r : GhostRecord ω) :
    Prop where
  registered : R.Registered (R.typeOf r.obj)
  ghostID : r.ghostID ≤ 1024
  told : r.isNew = false → known r.ghostID = some (R.typeOf r.obj)

/-- Records that the client can read one after the other. -/
def Readable (R : ObjectTypes ω τ) (known : ℕ → Option τ) : List (GhostRecord ω) → Prop
  | [] => True
  | r :: records => RecordReadable R known r ∧
      Readable R (Function.update known r.ghostID (some (R.typeOf r.obj))) records

theorem Readable.append {known : ℕ → Option τ} {records records' : List (GhostRecord ω)}
    (h : Readable R known records) (h' : Readable R (learn R known records) records') :
    Readable R known (records ++ records') := by
  induction records generalizing known with
  | nil => exact h'
  | cons r records ih => exact ⟨h.1, ih h.2 h'⟩

theorem Readable.of_append {known : ℕ → Option τ} {records records' : List (GhostRecord ω)}
    (h : Readable R known (records ++ records')) :
    Readable R known records ∧ Readable R (learn R known records) records' := by
  induction records generalizing known with
  | nil => exact ⟨trivial, h⟩
  | cons r records ih => exact ⟨⟨h.1, (ih h.2).1⟩, (ih h.2).2⟩

theorem learn_append (known : ℕ → Option τ) (records records' : List (GhostRecord ω)) :
    learn R known (records ++ records') = learn R (learn R known records) records' :=
  List.foldl_append

theorem learn_of_not_mem {known : ℕ → Option τ} {records : List (GhostRecord ω)} {ghostID : ℕ}
    (h : ghostID ∉ records.map (·.ghostID)) : learn R known records ghostID = known ghostID := by
  induction records generalizing known with
  | nil => rfl
  | cons r records ih =>
    obtain ⟨hne, h⟩ := not_or.mp (fun hmem => h (List.mem_cons.mpr hmem))
    exact (ih h).trans (Function.update_of_ne hne ..)

theorem learn_of_mem {known : ℕ → Option τ} {records : List (GhostRecord ω)}
    (hnodup : (records.map (·.ghostID)).Nodup) {r : GhostRecord ω} (hr : r ∈ records) :
    learn R known records r.ghostID = some (R.typeOf r.obj) := by
  induction records generalizing known with
  | nil => exact absurd hr List.not_mem_nil
  | cons r' records ih =>
    obtain ⟨hid, hnodup⟩ := List.nodup_cons.mp hnodup
    cases List.mem_cons.mp hr with
    | inl hr => rw [hr]; exact (learn_of_not_mem hid).trans (Function.update_self ..)
    | inr hr => exact ih hnodup hr

/-- Records of different ghosts do not depend on each other. -/
theorem Readable.of_nodup {known : ℕ → Option τ} {records : List (GhostRecord ω)}
    (hnodup : (records.map (·.ghostID)).Nodup) (h : ∀ r ∈ records, RecordReadable R known r) :
    Readable R known records := by
  induction records generalizing known with
  | nil => exact trivial
  | cons r records ih =>
    obtain ⟨hid, hnodup⟩ := List.nodup_cons.mp hnodup
    obtain ⟨hr, h⟩ := List.forall_mem_cons.mp h
    refine ⟨hr, ih hnodup (fun r' hr' => ⟨(h r' hr').registered, (h r' hr').ghostID, ?_⟩)⟩
    intro hnew
    rw [Function.update_of_ne (fun heq => hid (List.mem_map.mpr ⟨r', hr', heq⟩))]
    exact (h r' hr').told hnew

/-- Without a creation there is nothing to learn. -/
theorem learn_of_created_nil {known : ℕ → Option τ} {records : List (GhostRecord ω)}
    (h : Readable R known records) (hcreated : created records = []) :
    learn R known records = known := by
  induction records generalizing known with
  | nil => rfl
  | cons r records ih =>
    cases hnew : r.isNew with
    | true => simp [created, hnew] at hcreated
    | false =>
      have hsame : Function.update known r.ghostID (some (R.typeOf r.obj)) = known := by
        rw [← h.1.told hnew, Function.update_eq_self]
      have hrecords := h.2
      rw [hsame] at hrecords
      rw [learn, List.foldl_cons, hsame]
      refine ih hrecords ?_
      simpa [created, hnew] using hcreated

theorem typesOf_insert (ghosts : AList (fun _ : ℕ => ω)) (ghostID : ℕ) (obj : ω) :
    typesOf R (ghosts.insert ghostID obj) =
      Function.update (typesOf R ghosts) ghostID (some (R.typeOf obj)) := by
  funext id
  by_cases hid : id = ghostID
  · rw [hid, Function.update_self, typesOf, AList.lookup_insert, Option.map_some]
  · rw [Function.update_of_ne hid, typesOf, AList.lookup_insert_ne hid, typesOf]

theorem take_length_sub (bits rest : List Bool) :
    (bits ++ rest).take ((bits ++ rest).length - rest.length) = bits := by
  rw [List.length_append, Nat.add_sub_cancel, List.take_left]

/-- The client has the ghost, or makes it. -/
theorem findGhost_eq {ghosts : AList (fun _ : ℕ => ω)} {r : GhostRecord ω}
    (h : RecordReadable R (typesOf R ghosts) r) :
    ∃ ghost, R.typeOf ghost = R.typeOf r.obj ∧ ∀ rest,
      findGhost R ghosts r.ghostID r.isNew ⟨typeBits R r ++ rest, false⟩ =
        (some ghost, ⟨rest, false⟩) := by
  rw [typeBits]
  cases hnew : r.isNew with
  | true =>
    obtain ⟨⟨typeID, htypeID, hfactory, new, hcreate, hnewType⟩, -⟩ := h.registered
    have hbits := BitWriter.writeRangedUint32_eq [] htypeID
    refine ⟨new, hnewType, fun rest => ?_⟩
    simp only [findGhost, if_true, hfactory, hbits, List.nil_append,
      readRangedUint32_bitsOf htypeID, hcreate]
  | false =>
    obtain ⟨ghost, hghost, htype⟩ := Option.map_eq_some_iff.mp (h.told hnew)
    refine ⟨ghost, htype, fun rest => ?_⟩
    simp only [findGhost, Bool.false_eq_true, if_false, List.nil_append, hghost]

/-- A record is read by a ghost of its type, to its end. -/
theorem readGhost_eq {ghosts : AList (fun _ : ℕ => ω)} {r : GhostRecord ω}
    (h : RecordReadable R (typesOf R ghosts) r) (rest : List Bool) :
    ∃ obj, R.typeOf obj = R.typeOf r.obj ∧
      readGhost R ghosts ⟨recordBits R r ++ rest, false⟩ =
        (ghosts.insert r.ghostID obj, ⟨r.ghostID, r.isNew, some obj, recordBits R r⟩,
          ⟨rest, false⟩) := by
  obtain ⟨ghost, hghost, hfind⟩ := findGhost_eq h
  have hunpack := h.registered.2 r.obj ghost r.mask rest rfl hghost
  have hbits : recordBits R r ++ rest = bitsOf 11 r.ghostID ++ (r.isNew :: (typeBits R r ++
      ((R.packUpdate r.obj r.mask).1 ++ rest))) := by
    rw [recordBits, BitWriter.writeRangedUint32_eq [] h.ghostID]
    simp
  refine ⟨(R.unpackUpdate ghost ⟨(R.packUpdate r.obj r.mask).1 ++ rest, false⟩).1,
    (R.typeOf_unpackUpdate ..).trans hghost, ?_⟩
  rw [readGhost, hbits, readRangedUint32_bitsOf h.ghostID]
  simp only [readFlag_cons, hfind, hunpack]
  rw [← hbits, take_length_sub]

theorem readLoop_eq {ghosts : AList (fun _ : ℕ => ω)} {records : List (GhostRecord ω)}
    (h : Readable R (typesOf R ghosts) records) (rest : List Bool) {fuel : ℕ}
    (hfuel : records.length < fuel) :
    ∃ ghosts' read, typesOf R ghosts' = learn R (typesOf R ghosts) records ∧
      readLoop R fuel ghosts ⟨flagged (recordBits R) records ++ rest, false⟩ =
        (ghosts', read, ⟨rest, false⟩) ∧
      (∀ r ∈ read, r.ghost.isSome) ∧ read.map (·.bits) = records.map (recordBits R) := by
  induction records generalizing ghosts fuel with
  | nil =>
    obtain ⟨fuel, rfl⟩ : ∃ k, fuel = k + 1 := ⟨fuel - 1, by omega⟩
    refine ⟨ghosts, [], rfl, ?_, fun _ hr => absurd hr List.not_mem_nil, rfl⟩
    rw [readLoop, flagged, List.flatMap_nil, List.nil_append, List.singleton_append, readFlag_cons]
    rfl
  | cons r records ih =>
    obtain ⟨fuel, rfl⟩ : ∃ k, fuel = k + 1 := ⟨fuel - 1, by omega⟩
    obtain ⟨obj, htype, hread⟩ := readGhost_eq h.1 (flagged (recordBits R) records ++ rest)
    have hrecords : Readable R (typesOf R (ghosts.insert r.ghostID obj)) records := by
      rw [typesOf_insert, htype]
      exact h.2
    obtain ⟨ghosts', read, htypes, hloop, hghost, hbits⟩ :=
      ih hrecords (Nat.lt_of_succ_lt_succ hfuel)
    refine ⟨ghosts', ⟨r.ghostID, r.isNew, some obj, recordBits R r⟩ :: read, ?_, ?_,
      List.forall_mem_cons.mpr ⟨rfl, hghost⟩, congrArg _ hbits⟩
    · rw [htypes, typesOf_insert, htype]
      rfl
    · rw [flagged_cons, List.cons_append, List.append_assoc, readLoop, readFlag_cons]
      simp only [if_true, hread, hloop]

/-! ### The objects in scope -/

/-- What a packet does not change of an object, or only once. -/
def core (R : ObjectTypes ω τ) (gi : GhostInfo ω) : τ × ℕ × Bool :=
  (R.typeOf gi.obj, gi.ghostID, gi.isNew)

/-- `known` are the types of the ghosts that the client will have when it has read all that was
written. -/
structure GhostsSound (R : ObjectTypes ω τ) (ghosts : AList (fun _ : U32 => GhostInfo ω))
    (objects : ℕ) (known : ℕ → Option τ) : Prop where
  registered : ∀ netID gi, ghosts.lookup netID = some gi → R.Registered (R.typeOf gi.obj)
  bound : ∀ netID gi, ghosts.lookup netID = some gi → gi.ghostID ≤ objects
  injective : ∀ netID netID' gi gi', ghosts.lookup netID = some gi →
    ghosts.lookup netID' = some gi' → gi.ghostID = gi'.ghostID → netID = netID'
  told : ∀ netID gi, ghosts.lookup netID = some gi → gi.isNew = false →
    known gi.ghostID = some (R.typeOf gi.obj)

variable {ghosts ghosts' : AList (fun _ : U32 => GhostInfo ω)} {objects : ℕ}
  {known : ℕ → Option τ}

theorem GhostsSound.of_core (h : GhostsSound R ghosts objects known)
    (hcore : ∀ netID, (ghosts'.lookup netID).map (core R) = (ghosts.lookup netID).map (core R)) :
    GhostsSound R ghosts' objects known := by
  have hback : ∀ netID gi', ghosts'.lookup netID = some gi' → ∃ gi, ghosts.lookup netID = some gi ∧
      R.typeOf gi.obj = R.typeOf gi'.obj ∧ gi.ghostID = gi'.ghostID ∧ gi.isNew = gi'.isNew := by
    intro netID gi' hgi'
    have heq := hcore netID
    rw [hgi', Option.map_some, eq_comm, Option.map_eq_some_iff] at heq
    obtain ⟨gi, hgi, heq⟩ := heq
    obtain ⟨htype, hrest⟩ := Prod.mk.inj heq
    exact ⟨gi, hgi, htype, Prod.mk.inj hrest⟩
  constructor
  case registered =>
    intro netID gi' hgi'
    obtain ⟨gi, hgi, htype, -⟩ := hback netID gi' hgi'
    exact htype ▸ h.registered netID gi hgi
  case bound =>
    intro netID gi' hgi'
    obtain ⟨gi, hgi, -, hid, -⟩ := hback netID gi' hgi'
    exact hid ▸ h.bound netID gi hgi
  case injective =>
    intro netID netID' gi₁' gi₂' hgi₁' hgi₂' heq
    obtain ⟨gi₁, hgi₁, -, hid₁, -⟩ := hback netID gi₁' hgi₁'
    obtain ⟨gi₂, hgi₂, -, hid₂, -⟩ := hback netID' gi₂' hgi₂'
    exact h.injective netID netID' gi₁ gi₂ hgi₁ hgi₂ (hid₁.trans (heq.trans hid₂.symm))
  case told =>
    intro netID gi' hgi' hnew
    obtain ⟨gi, hgi, htype, hid, hisNew⟩ := hback netID gi' hgi'
    rw [← hid, ← htype]
    exact h.told netID gi hgi (hisNew.trans hnew)

theorem restore_core (ghosts : AList (fun _ : U32 => GhostInfo ω)) (up : GhostUpdateNote)
    (netID : U32) : ((restore ghosts up).lookup netID).map (core R) =
      (ghosts.lookup netID).map (core R) := by
  rw [restore]
  cases hfind : ghosts.entries.find? (fun entry => entry.2.ghostID = up.ghostID) with
  | none => rfl
  | some entry =>
    obtain ⟨id, gi⟩ := entry
    have hgi : ghosts.lookup id = some gi :=
      AList.mem_lookup_iff.mpr (List.mem_of_find?_eq_some hfind)
    by_cases hid : netID = id
    · subst hid
      simp only [AList.lookup_insert, hgi]
      rfl
    · exact congrArg (Option.map (core R)) (AList.lookup_insert_ne hid)

/-- A dropped packet changes nothing but masks. -/
theorem onGhostPacketDropped_core (gc : GhostConnection ω) (sequence : U32) (netID : U32) :
    ((gc.onGhostPacketDropped sequence).ghostsToClient.lookup netID).map (core R) =
      (gc.ghostsToClient.lookup netID).map (core R) := by
  rw [onGhostPacketDropped]
  cases gc.sentGhostUpdates.lookup sequence with
  | none => rfl
  | some updates =>
    have hfold : ∀ ghosts, ((updates.foldl restore ghosts).lookup netID).map (core R) =
        (ghosts.lookup netID).map (core R) := by
      induction updates with
      | nil => exact fun _ => rfl
      | cons up updates ih => exact fun ghosts => (ih _).trans (restore_core ghosts up netID)
    exact hfold gc.ghostsToClient

theorem onGhostPacketDropped_frame (gc : GhostConnection ω) (sequence : U32) :
    (gc.onGhostPacketDropped sequence).nextGhostID = gc.nextGhostID := by
  rw [onGhostPacketDropped]
  cases gc.sentGhostUpdates.lookup sequence <;> rfl

theorem GhostsSound.insert (h : GhostsSound R ghosts objects known) {netID : U32} {obj : ω}
    (hobj : R.Registered (R.typeOf obj)) (mask : U32) :
    GhostsSound R (ghosts.insert netID ⟨obj, objects + 1, mask, true⟩) (objects + 1) known := by
  have hback : ∀ netID' gi,
      (ghosts.insert netID ⟨obj, objects + 1, mask, true⟩).lookup netID' = some gi →
      netID' = netID ∧ gi = ⟨obj, objects + 1, mask, true⟩ ∨
        netID' ≠ netID ∧ ghosts.lookup netID' = some gi := by
    intro netID' gi hgi
    by_cases hnet : netID' = netID
    · rw [hnet, AList.lookup_insert] at hgi
      exact .inl ⟨hnet, (Option.some.inj hgi).symm⟩
    · rw [AList.lookup_insert_ne hnet] at hgi
      exact .inr ⟨hnet, hgi⟩
  constructor
  case registered =>
    intro netID' gi hgi
    cases hback netID' gi hgi with
    | inl hnew => exact hnew.2 ▸ hobj
    | inr hold => exact h.registered netID' gi hold.2
  case bound =>
    intro netID' gi hgi
    cases hback netID' gi hgi with
    | inl hnew => exact hnew.2 ▸ Nat.le_refl _
    | inr hold => exact Nat.le_succ_of_le (h.bound netID' gi hold.2)
  case injective =>
    intro netID₁ netID₂ gi₁ gi₂ hgi₁ hgi₂ heq
    rcases hback netID₁ gi₁ hgi₁ with ⟨rfl, rfl⟩ | ⟨-, hold₁⟩ <;>
      rcases hback netID₂ gi₂ hgi₂ with ⟨rfl, rfl⟩ | ⟨-, hold₂⟩
    · rfl
    · have hbound := h.bound netID₂ gi₂ hold₂
      simp only at heq
      omega
    · have hbound := h.bound netID₁ gi₁ hold₁
      simp only at heq
      omega
    · exact h.injective netID₁ netID₂ gi₁ gi₂ hold₁ hold₂ heq
  case told =>
    intro netID' gi hgi hisNew
    cases hback netID' gi hgi with
    | inl hnew => rw [hnew.2] at hisNew; cases hisNew
    | inr hold => exact h.told netID' gi hold.2 hisNew

theorem mem_recordsOf {order : List U32} {r : GhostRecord ω} (hr : r ∈ recordsOf ghosts order) :
    ∃ netID ∈ order, ∃ gi, ghosts.lookup netID = some gi ∧ gi.mask ≠ 0 ∧
      r = ⟨gi.ghostID, gi.isNew, gi.obj, gi.mask⟩ := by
  obtain ⟨netID, hmem, hrecord⟩ := List.mem_filterMap.mp hr
  obtain ⟨gi, hgi, hrecord⟩ := Option.bind_eq_some_iff.mp hrecord
  refine ⟨netID, hmem, gi, hgi, ?_⟩
  rw [recordOf] at hrecord
  split_ifs at hrecord with hmask
  exact ⟨hmask, (Option.some.inj hrecord).symm⟩

theorem recordsOf_nodup (h : GhostsSound R ghosts objects known) {order : List U32}
    (horder : order.Nodup) : ((recordsOf ghosts order).map (·.ghostID)).Nodup := by
  rw [recordsOf, List.map_filterMap]
  refine horder.filterMap (fun netID netID' ghostID hid hid' => ?_)
  obtain ⟨r, hr, rfl⟩ := Option.map_eq_some_iff.mp hid
  obtain ⟨r', hr', heq⟩ := Option.map_eq_some_iff.mp hid'
  obtain ⟨_, h₁, gi, hgi, -, rfl⟩ := mem_recordsOf (List.mem_filterMap.mpr
    ⟨netID, List.mem_singleton_self netID, hr⟩)
  obtain ⟨_, h₂, gi', hgi', -, rfl⟩ := mem_recordsOf (List.mem_filterMap.mpr
    ⟨netID', List.mem_singleton_self netID', hr'⟩)
  rw [List.mem_singleton] at h₁ h₂
  subst h₁ h₂
  exact h.injective _ _ gi gi' hgi hgi' heq.symm

/-- The client can read the records, and has all ghosts when it has. -/
theorem GhostsSound.write (h : GhostsSound R ghosts objects known) (hobjects : objects ≤ 1024)
    {order : List U32} (horder : order.Nodup) (hall : ∀ netID ∈ ghosts.keys, netID ∈ order)
    (bs : BitWriter) :
    Readable R known (recordsOf ghosts order) ∧
      GhostsSound R (writeLoop R order ghosts bs).1 objects
        (learn R known (recordsOf ghosts order)) := by
  have hnodup := recordsOf_nodup h horder
  have hwritten : ∀ netID, (writeLoop R order ghosts bs).1.lookup netID =
      (ghosts.lookup netID).map (written R) := by
    intro netID
    rw [writeLoop_lookup horder]
    split_ifs with hmem
    · rfl
    · rw [AList.lookup_eq_none.mpr (fun hkey => hmem (hall netID hkey)), Option.map_none]
  have hback : ∀ netID gi', (writeLoop R order ghosts bs).1.lookup netID = some gi' →
      ∃ gi, ghosts.lookup netID = some gi ∧ gi' = written R gi ∧ gi'.obj = gi.obj ∧
        gi'.ghostID = gi.ghostID := by
    intro netID gi' hgi'
    rw [hwritten, Option.map_eq_some_iff] at hgi'
    obtain ⟨gi, hgi, rfl⟩ := hgi'
    refine ⟨gi, hgi, rfl, ?_⟩
    rw [written]
    split_ifs <;> exact ⟨rfl, rfl⟩
  constructor
  · refine Readable.of_nodup hnodup (fun r hr => ?_)
    obtain ⟨netID, -, gi, hgi, -, rfl⟩ := mem_recordsOf hr
    exact ⟨h.registered netID gi hgi, (h.bound netID gi hgi).trans hobjects, h.told netID gi hgi⟩
  constructor
  case registered =>
    intro netID gi' hgi'
    obtain ⟨gi, hgi, -, hobj, -⟩ := hback netID gi' hgi'
    exact hobj ▸ h.registered netID gi hgi
  case bound =>
    intro netID gi' hgi'
    obtain ⟨gi, hgi, -, -, hid⟩ := hback netID gi' hgi'
    exact hid ▸ h.bound netID gi hgi
  case injective =>
    intro netID₁ netID₂ gi₁' gi₂' hgi₁' hgi₂' heq
    obtain ⟨gi₁, hgi₁, -, -, hid₁⟩ := hback netID₁ gi₁' hgi₁'
    obtain ⟨gi₂, hgi₂, -, -, hid₂⟩ := hback netID₂ gi₂' hgi₂'
    exact h.injective netID₁ netID₂ gi₁ gi₂ hgi₁ hgi₂ (hid₁.symm.trans (heq.trans hid₂))
  case told =>
    intro netID gi' hgi' hnew
    obtain ⟨gi, hgi, hgi'_eq, hobj, hid⟩ := hback netID gi' hgi'
    rw [hobj, hid]
    by_cases hmask : gi.mask = 0
    · have hsame : gi' = gi := by rw [hgi'_eq, written, if_pos hmask]
      rw [learn_of_not_mem, h.told netID gi hgi (hsame ▸ hnew)]
      intro hmem
      obtain ⟨r, hr, heq⟩ := List.mem_map.mp hmem
      obtain ⟨netID', -, gi₂, hgi₂, hmask₂, rfl⟩ := mem_recordsOf hr
      have hnet := h.injective netID' netID gi₂ gi hgi₂ hgi heq
      rw [hnet, hgi] at hgi₂
      exact hmask₂ (Option.some.inj hgi₂ ▸ hmask)
    · refine learn_of_mem hnodup (r := ⟨gi.ghostID, gi.isNew, gi.obj, gi.mask⟩) ?_
      refine List.mem_filterMap.mpr ⟨netID, hall netID ?_, ?_⟩
      · exact AList.lookup_isSome.mp (by rw [hgi]; rfl)
      · rw [hgi, Option.bind_some, recordOf, if_neg hmask]

/-! ### Runs -/

/-- The records on their way. -/
def pending (s : GhostStream ω) : List (GhostRecord ω) := s.inFlight.flatMap (·.records)

structure Sound (R : ObjectTypes ω τ) (s : GhostStream ω) : Prop where
  nextGhostID : s.server.nextGhostID = s.objects % 1024 + 1
  objects : s.objects ≤ 1024
  ghosts : GhostsSound R s.server.ghostsToClient s.objects
    (learn R (typesOf R s.client.ghostsFromRemote) s.pending)
  readable : Readable R (typesOf R s.client.ghostsFromRemote) s.pending
  packets : ∀ packet ∈ s.inFlight,
    packet.body = flagged (recordBits R) packet.records ++ packet.tail
  notices : ∀ notice ∈ s.notices, notice.2 = false → created notice.1.records = []
  uncreated : s.uncreated = []
  survives : Survives R s

theorem Survives.congr {s t : GhostStream ω} (h : Survives R s)
    (hdelivered : t.delivered = s.delivered) (hrewritten : t.rewritten = s.rewritten) :
    Survives R t :=
  ⟨hdelivered ▸ h.told, hrewritten ▸ h.rewritten, hdelivered ▸ h.consumed⟩

theorem GhostsSound.empty : GhostsSound R ∅ 0 known where
  registered := fun _ _ hgi => nomatch hgi
  bound := fun _ _ hgi => nomatch hgi
  injective := fun _ _ _ _ hgi => nomatch hgi
  told := fun _ _ hgi => nomatch hgi

theorem Sound.start : Sound R (start : GhostStream ω) where
  nextGhostID := rfl
  objects := Nat.zero_le _
  ghosts := GhostsSound.empty
  readable := trivial
  packets := fun _ h => absurd h List.not_mem_nil
  notices := fun _ h => absurd h List.not_mem_nil
  uncreated := rfl
  survives := ⟨fun _ h => absurd h List.not_mem_nil, fun _ h => absurd h List.not_mem_nil,
    fun _ h => absurd h List.not_mem_nil⟩

variable [DecidableEq τ] {s t : GhostStream ω}

theorem Sound.objectInScope (h : Sound R s) {obj : ω}
    (allowed : CreationsArrive R s (.objectInScope obj))
    (taken : step R s (.objectInScope obj) = some t) : Sound R t := by
  cases taken
  obtain ⟨hobj, hlt⟩ := allowed
  cases hlookup : s.server.ghostsToClient.lookup (R.getNetID obj) with
  | some gi =>
    simp only [GhostConnection.objectInScope, hlookup, Option.isSome_some, if_true]
    exact ⟨h.nextGhostID, h.objects, h.ghosts, h.readable, h.packets, h.notices, h.uncreated,
      h.survives.congr rfl rfl⟩
  | none =>
    have hlt := hlt hlookup
    have hnext := h.nextGhostID
    rw [Nat.mod_eq_of_lt hlt] at hnext
    simp only [GhostConnection.objectInScope, hlookup, Option.isSome_none, Bool.false_eq_true,
      if_false]
    refine ⟨?_, hlt, ?_, h.readable, h.packets, h.notices, h.uncreated, h.survives.congr rfl rfl⟩
    · simp only [hnext]
    · simp only [hnext]
      exact h.ghosts.insert hobj (-1)

theorem Sound.change (h : Sound R s) {netID : U32} {obj : ω} {mask : U32}
    (taken : step R s (.change netID obj mask) = some t) : Sound R t := by
  simp only [step] at taken
  cases hgi : s.server.ghostsToClient.lookup netID with
  | none => rw [hgi] at taken; cases taken
  | some gi =>
    simp only [hgi] at taken
    split_ifs at taken with htype
    cases taken
    refine ⟨h.nextGhostID, h.objects, h.ghosts.of_core (fun netID' => ?_), h.readable, h.packets,
      h.notices, h.uncreated, h.survives.congr rfl rfl⟩
    by_cases hnet : netID' = netID
    · rw [hnet, AList.lookup_insert, hgi, Option.map_some, Option.map_some, core, core, htype]
    · rw [AList.lookup_insert_ne hnet]

theorem Sound.write (h : Sound R s) {order : List U32} {packetSeq : U32} {events tail : List Bool}
    (taken : step R s (.write order packetSeq events tail) = some t) : Sound R t := by
  simp only [step] at taken
  split_ifs at taken with horder
  cases taken
  have hnodup : order.Nodup := horder.nodup_iff.mpr s.server.ghostsToClient.nodupKeys
  obtain ⟨hreadable, hghosts⟩ := h.ghosts.write h.objects hnodup
    (fun netID hkey => horder.mem_iff.mpr hkey) events
  have hbits := writeLoop_bits (R := R) hnodup s.server.ghostsToClient events
  have hpending : ∀ packet : GhostPacket ω,
      (s.inFlight ++ [packet]).flatMap (·.records) = s.pending ++ packet.records := by
    intro packet
    rw [List.flatMap_append, List.flatMap_singleton, pending]
  constructor
  case nextGhostID => exact h.nextGhostID
  case objects => exact h.objects
  case ghosts =>
    rw [pending, hpending, learn_append]
    exact hghosts
  case readable =>
    rw [pending, hpending]
    exact h.readable.append hreadable
  case packets =>
    intro packet hpacket
    cases List.mem_append.mp hpacket with
    | inl hpacket => exact h.packets packet hpacket
    | inr hpacket =>
      cases List.mem_singleton.mp hpacket
      simp only [writeGhosts, hbits, BitWriter.writeFlag, flagged, List.append_assoc,
        List.drop_left]
  case notices => exact h.notices
  case uncreated => rw [h.uncreated, List.filter_nil]
  case survives =>
    refine ⟨h.survives.told, fun r hr => ?_, h.survives.consumed⟩
    simp only [h.uncreated, List.not_mem_nil, decide_false, List.filter_false,
      List.append_nil] at hr
    exact h.survives.rewritten r hr

theorem Sound.deliver (h : Sound R s) (taken : step R s .deliver = some t) : Sound R t := by
  simp only [step] at taken
  cases hflight : s.inFlight with
  | nil => rw [hflight] at taken; cases taken
  | cons packet inFlight =>
    have hpending : s.pending = packet.records ++ inFlight.flatMap (·.records) := by
      rw [pending, hflight, List.flatMap_cons]
    obtain ⟨hpacket, hpackets⟩ := List.forall_mem_cons.mp (hflight ▸ h.packets)
    obtain ⟨hreadable, hrest⟩ := Readable.of_append (hpending ▸ h.readable)
    obtain ⟨ghosts, read, htypes, hloop, hghost, hbits⟩ :=
      readLoop_eq hreadable packet.tail (length_lt_flagged (recordBits R) _ packet.tail)
    simp only [hflight, readGhosts, hpacket, hloop] at taken
    cases taken
    constructor
    case nextGhostID => exact h.nextGhostID
    case objects => exact h.objects
    case ghosts =>
      rw [pending, htypes, ← learn_append, ← hpending]
      exact h.ghosts
    case readable =>
      rw [pending, htypes]
      exact hrest
    case packets => exact hpackets
    case notices =>
      intro notice hnotice hdropped
      cases List.mem_append.mp hnotice with
      | inl hnotice => exact h.notices notice hnotice hdropped
      | inr hnotice =>
        cases List.mem_singleton.mp hnotice
        cases hdropped
    case uncreated => exact h.uncreated
    case survives =>
      refine ⟨fun d hd => ?_, h.survives.rewritten, fun d hd => ?_⟩
      · cases List.mem_append.mp hd with
        | inl hd => exact h.survives.told d hd
        | inr hd => cases List.mem_singleton.mp hd; exact hghost
      · cases List.mem_append.mp hd with
        | inl hd => exact h.survives.consumed d hd
        | inr hd => cases List.mem_singleton.mp hd; exact ⟨hbits, rfl⟩

theorem Sound.lose (h : Sound R s) (allowed : CreationsArrive R s .lose)
    (taken : step R s .lose = some t) : Sound R t := by
  simp only [step] at taken
  cases hflight : s.inFlight with
  | nil => rw [hflight] at taken; cases taken
  | cons packet inFlight =>
    simp only [hflight] at taken
    cases taken
    have hcreated : created packet.records = [] := allowed packet (by rw [hflight]; rfl)
    have hpending : s.pending = packet.records ++ inFlight.flatMap (·.records) := by
      rw [pending, hflight, List.flatMap_cons]
    obtain ⟨hreadable, hrest⟩ := Readable.of_append (hpending ▸ h.readable)
    have hlearn := learn_of_created_nil hreadable hcreated
    have hghosts := h.ghosts
    rw [hpending, learn_append, hlearn] at hghosts
    rw [hlearn] at hrest
    refine ⟨h.nextGhostID, h.objects, hghosts, hrest,
      (List.forall_mem_cons.mp (hflight ▸ h.packets)).2, fun notice hnotice hdropped => ?_,
      h.uncreated, h.survives.congr rfl rfl⟩
    cases List.mem_append.mp hnotice with
    | inl hnotice => exact h.notices notice hnotice hdropped
    | inr hnotice =>
      cases List.mem_singleton.mp hnotice
      exact hcreated

theorem Sound.notify (h : Sound R s) (taken : step R s .notify = some t) : Sound R t := by
  simp only [step] at taken
  cases hnotices : s.notices with
  | nil => rw [hnotices] at taken; cases taken
  | cons notice notices =>
    obtain ⟨packet, received⟩ := notice
    obtain ⟨hnotice, hrest⟩ := List.forall_mem_cons.mp (hnotices ▸ h.notices)
    cases received with
    | true =>
      simp only [hnotices] at taken
      cases taken
      exact ⟨h.nextGhostID, h.objects, h.ghosts, h.readable, h.packets, hrest, h.uncreated,
        h.survives.congr rfl rfl⟩
    | false =>
      simp only [hnotices] at taken
      cases taken
      refine ⟨(onGhostPacketDropped_frame ..).trans h.nextGhostID, h.objects,
        h.ghosts.of_core (onGhostPacketDropped_core _ _), h.readable, h.packets, hrest, ?_,
        h.survives.congr rfl rfl⟩
      rw [h.uncreated, hnotice rfl, List.append_nil]

theorem Sound.step {a : Action ω} (h : Sound R s) (allowed : CreationsArrive R s a)
    (taken : step R s a = some t) : Sound R t := by
  cases a with
  | objectInScope obj => exact h.objectInScope allowed taken
  | change netID obj mask => exact h.change taken
  | write order packetSeq events tail => exact h.write taken
  | deliver => exact h.deliver taken
  | lose => exact h.lose allowed taken
  | notify => exact h.notify taken

/-- As long as no packet with a creation is lost, every record is read. -/
theorem survives_of_creationsArrive {as : List (Action ω)}
    (h : Run (step R) (CreationsArrive R) start as s) : Survives R s :=
  (h.invariant (I := Sound R) (fun _ _ _ hs allowed taken => hs.step allowed taken)
    Sound.start).survives

/-- Objects with a net id and a byte that is written if the lowest bit of the mask is set. -/
def byteObjects : ObjectTypes (U32 × UInt8) Unit where
  typeOf := fun _ => ()
  getNetID := Prod.fst
  getObjectFactoryID := fun _ => some 200
  createObject := fun id => if id = 200 then some (0, 0) else none
  packUpdate := fun obj mask =>
    (if mask &&& 1 = 1 then true :: bitsOf 8 obj.2.toNat else [false], 0)
  unpackUpdate := fun obj bs =>
    let (more, bs) := bs.readFlag
    if more then ((obj.1, bs.readUint8.1), bs.readUint8.2) else (obj, bs)
  typeOf_unpackUpdate := fun _ _ => rfl

theorem byteObjects_registered (type : Unit) : byteObjects.Registered type := by
  refine ⟨⟨200, by decide, rfl, (0, 0), rfl, rfl⟩, fun obj ghost mask rest _ _ => ?_⟩
  change (byteObjects.unpackUpdate ghost
    ⟨(if mask &&& 1 = 1 then true :: bitsOf 8 obj.2.toNat else [false]) ++ rest, false⟩).2 = _
  split_ifs
  · simp only [byteObjects, List.cons_append, readFlag_cons, if_true, readUint8, readBits_bitsOf]
  · simp only [byteObjects, List.cons_append, readFlag_cons, Bool.false_eq_true, if_false,
      List.nil_append]

/-- An update of the object is lost, one while the creation is on its way is not. -/
theorem survives_of_creationsArrive_byte : ∃ s : GhostStream (U32 × UInt8),
    s.delivered.length = 2 ∧ Survives byteObjects s := by
  have run : ∃ as s, Run (step byteObjects) (CreationsArrive byteObjects) start as s ∧
      s.delivered.length = 2 :=
    ⟨[.objectInScope (1000, 1), .write [1000] 0 [] [], .change 1000 (1000, 2) 1,
      .write [1000] 1 [] [], .deliver, .lose, .notify, .notify, .write [1000] 2 [true] [true],
      .deliver], _,
      .cons ⟨byteObjects_registered _, fun _ => by decide⟩ rfl <| .cons trivial rfl <|
      .cons trivial rfl <| .cons trivial rfl <| .cons trivial rfl <|
      .cons (fun _ hpacket => by cases hpacket; decide +kernel) rfl <| .cons trivial rfl <|
      .cons trivial rfl <| .cons trivial rfl <| .cons trivial rfl <| .nil _, by decide +kernel⟩
  obtain ⟨as, s, run, hdelivered⟩ := run
  exact ⟨s, hdelivered, survives_of_creationsArrive run⟩

/-- The packet with the creation is lost. The next record is an update, and the client leaves the
rest of it where it is. -/
theorem creation_lost : ∃ as s, Run (step byteObjects) (fun _ _ => True) start as s ∧
    (¬∀ d ∈ s.delivered, ∀ r ∈ d.read, r.ghost.isSome) ∧ (¬∀ r ∈ s.rewritten, r.isNew = true) ∧
    ¬∀ d ∈ s.delivered, d.read.map (·.bits) = d.packet.records.map (recordBits byteObjects) ∧
      d.rest = ⟨d.packet.tail, false⟩ :=
  ⟨[.objectInScope (1000, 1), .write [1000] 0 [] [], .lose, .notify, .write [1000] 1 [] [],
    .deliver], _, .of_exec rfl, by decide +kernel, by decide +kernel, by decide +kernel⟩

end GhostStream

end TNL.Go
