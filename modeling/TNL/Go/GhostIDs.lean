import Mathlib.Order.Interval.Finset.Nat
import TNL.Go.GhostCreation

/-!
# The ids of ghosts in the Go port

Every object that comes into scope takes the next of 1024 ids, and keeps it. What
is remembered of a packet has the ids of its ghosts, and a packet that was dropped
looks for them. So an id has to be that of one object.
-/
namespace TNL.Go
open Library

/-- The server's side. By the sequence of a packet it is kept besides which masks were packed into it
last, from which objects. -/
structure GhostServer (ω : Type) where
  connection : GhostConnection ω
  packed : AList (fun _ : U32 => List (U32 × U32))

namespace GhostServer
open GhostConnection GhostStream

variable {ω τ : Type}

inductive Action (ω : Type) where
  | objectInScope (obj : ω)
  | change (netID : U32) (obj : ω) (mask : U32)
  | writeGhosts (order : List U32) (bs : BitWriter) (packetSeq : U32)
  | packetReceived (sequence : U32)
  | packetDropped (sequence : U32)

def start : GhostServer ω := ⟨newGhostConnection, ∅⟩

variable (R : ObjectTypes ω τ)

/-- What is packed of the mask of an object. -/
def sentMask (gi : GhostInfo ω) : U32 := gi.mask &&& ~~~(R.packUpdate gi.obj gi.mask).2

/-- The objects of which something is packed, with their masks. -/
def masksOf (ghosts : AList (fun _ : U32 => GhostInfo ω)) (order : List U32) : List (U32 × U32) :=
  order.flatMap fun netID => (ghosts.lookup netID).toList.flatMap fun gi =>
    if sentMask R gi ≠ 0 then [(netID, sentMask R gi)] else []

/-- An object and its mask can change at any time. -/
def step (s : GhostServer ω) : Action ω → Option (GhostServer ω)
  | .objectInScope obj => some { s with connection := s.connection.objectInScope R obj }
  | .change netID obj mask =>
    (s.connection.ghostsToClient.lookup netID).map fun gi => { s with
      connection := { s.connection with
        ghostsToClient := s.connection.ghostsToClient.insert netID { gi with obj, mask } } }
  | .writeGhosts order bs packetSeq =>
    if order.Perm s.connection.ghostsToClient.keys then
      let masks := masksOf R s.connection.ghostsToClient order
      some {
        connection := (s.connection.writeGhosts R order bs packetSeq).1
        packed := if masks = [] then s.packed else s.packed.insert packetSeq masks }
    else none
  | .packetReceived sequence => some {
      connection := s.connection.onGhostPacketReceived sequence
      packed := s.packed.erase sequence }
  | .packetDropped sequence => some {
      connection := s.connection.onGhostPacketDropped sequence
      packed := s.packed.erase sequence }

/-- The net ids of the objects that came into scope. -/
def netIDs (actions : List (Action ω)) : List U32 :=
  actions.filterMap fun
    | .objectInScope obj => some (R.getNetID obj)
    | _ => none

/-- What was packed of an object's mask. -/
def maskOf (masks : List (U32 × U32)) (netID : U32) : U32 :=
  masks.foldr (fun up mask => if up.1 = netID then up.2 ||| mask else mask) 0

/-- The ids of the entries are different and can be written, and a packet that is dropped restores
what was packed into it, each mask to its object. -/
structure Identified (s : GhostServer ω) : Prop where
  unique : ∀ netID netID' gi gi', s.connection.ghostsToClient.lookup netID = some gi →
    s.connection.ghostsToClient.lookup netID' = some gi' → gi.ghostID = gi'.ghostID →
      netID = netID'
  fits : ∀ order, ∀ r ∈ recordsOf s.connection.ghostsToClient order, r.ghostID ≤ 1024
  restored : ∀ sequence netID,
    (s.connection.onGhostPacketDropped sequence).ghostsToClient.lookup netID =
      (s.connection.ghostsToClient.lookup netID).map fun gi =>
        { gi with mask := gi.mask ||| maskOf ((s.packed.lookup sequence).getD []) netID }

/-! ### Ids -/

variable {R} {ghosts ghosts' : AList (fun _ : U32 => GhostInfo ω)} {netID : U32}
  {gi : GhostInfo ω} {masks : List (U32 × U32)}

def ids (ghosts : AList (fun _ : U32 => GhostInfo ω)) (netID : U32) : Option ℕ :=
  (ghosts.lookup netID).map (·.ghostID)

def Unique (ids : U32 → Option ℕ) : Prop :=
  ∀ netID netID' id, ids netID = some id → ids netID' = some id → netID = netID'

theorem ids_insert (netID' : U32) : ids (ghosts.insert netID gi) netID' =
    if netID' = netID then some gi.ghostID else ids ghosts netID' := by
  rw [ids]
  by_cases hnet : netID' = netID
  · rw [hnet, AList.lookup_insert, if_pos rfl, Option.map_some]
  · rw [AList.lookup_insert_ne hnet, if_neg hnet, ids]

/-- An entry that is replaced keeps its id. -/
theorem ids_insert_same (h : ids ghosts netID = some gi.ghostID) :
    ids (ghosts.insert netID gi) = ids ghosts := by
  funext netID'
  rw [ids_insert]
  split_ifs with hnet
  · rw [hnet, h]
  · rfl

theorem ids_writeLoop {order : List U32} (horder : order.Nodup)
    (ghosts : AList (fun _ : U32 => GhostInfo ω)) (bs : BitWriter) :
    ids (writeLoop R order ghosts bs).1 = ids ghosts := by
  have hwritten : ∀ gi : GhostInfo ω, (written R gi).ghostID = gi.ghostID := by
    intro gi
    rw [written]
    split_ifs <;> rfl
  funext netID
  rw [ids, writeLoop_lookup horder]
  split_ifs
  · simp only [Option.map_map, Function.comp_def, hwritten, ids]
  · rfl

theorem ids_of_core (R : ObjectTypes ω τ) (h : ∀ netID, (ghosts'.lookup netID).map (core R) =
    (ghosts.lookup netID).map (core R)) : ids ghosts' = ids ghosts := by
  funext netID
  have hcore := congrArg (Option.map (·.2.1)) (h netID)
  rw [Option.map_map, Option.map_map] at hcore
  exact hcore

theorem mem_keys_iff : netID ∈ ghosts.keys ↔ (ids ghosts netID).isSome := by
  rw [ids, Option.isSome_map, AList.lookup_isSome, AList.mem_keys]

theorem length_keys_congr (h : ids ghosts' = ids ghosts) :
    ghosts'.keys.length = ghosts.keys.length := by
  refine List.Perm.length_eq ((List.perm_ext_iff_of_nodup ghosts'.keys_nodup ghosts.keys_nodup).mpr ?_)
  intro netID
  rw [mem_keys_iff, mem_keys_iff, h]

/-! ### What is remembered of a packet -/

/-- The notes of a packet have the ids instead of the net ids. -/
def notesOf (ids : U32 → Option ℕ) (masks : List (U32 × U32)) : List GhostUpdateNote :=
  masks.filterMap fun up => (ids up.1).map (⟨·, up.2⟩)

theorem masksOf_congr {order : List U32}
    (h : ∀ netID ∈ order, ghosts'.lookup netID = ghosts.lookup netID) :
    masksOf R ghosts' order = masksOf R ghosts order :=
  List.flatMap_congr (fun netID hmem => by rw [h netID hmem])

theorem mem_masksOf {order : List U32} {up : U32 × U32} (h : up ∈ masksOf R ghosts order) :
    (ids ghosts up.1).isSome := by
  obtain ⟨netID, -, hup⟩ := List.mem_flatMap.mp h
  obtain ⟨gi, hgi, hup⟩ := List.mem_flatMap.mp hup
  split_ifs at hup with hmask
  · rw [List.mem_singleton.mp hup, ids, Option.mem_toList.mp hgi]
    rfl
  · cases hup

theorem writeLoop_notes {order : List U32} (horder : order.Nodup)
    (ghosts : AList (fun _ : U32 => GhostInfo ω)) (bs : BitWriter) :
    (writeLoop R order ghosts bs).2.2 = notesOf (ids ghosts) (masksOf R ghosts order) := by
  induction order generalizing ghosts bs with
  | nil => rfl
  | cons netID order ih =>
    obtain ⟨hnetID, horder⟩ := List.nodup_cons.mp horder
    rw [writeLoop, masksOf, List.flatMap_cons]
    cases hgi : ghosts.lookup netID with
    | none => exact ih horder ghosts bs
    | some gi =>
      have hid : ids ghosts netID = some gi.ghostID := by rw [ids, hgi, Option.map_some]
      rw [Option.toList_some, List.flatMap_singleton, notesOf, List.filterMap_append]
      by_cases hmask : gi.mask = 0
      · have hnothing : sentMask R gi = 0 := by simp [sentMask, hmask]
        rw [if_neg (not_not.mpr hnothing)]
        simp only [hmask, if_true]
        exact ih horder ghosts bs
      · have hsame : ∀ other ∈ order, (ghosts.insert netID (writeGhost R bs gi).2.2).lookup other =
            ghosts.lookup other :=
          fun other hmem => AList.lookup_insert_ne (ne_of_mem_of_not_mem hmem hnetID)
        have hids : ids (ghosts.insert netID (writeGhost R bs gi).2.2) = ids ghosts :=
          ids_insert_same hid
        simp only [if_neg hmask]
        rw [ih horder, hids, masksOf_congr hsame]
        refine congrArg₂ _ ?_ rfl
        change (if sentMask R gi ≠ 0 then some (⟨gi.ghostID, sentMask R gi⟩ : GhostUpdateNote)
          else none).toList = _
        by_cases hnothing : sentMask R gi = 0
        · rw [if_neg (not_not.mpr hnothing), if_neg (not_not.mpr hnothing)]
          rfl
        · rw [if_pos hnothing, if_pos hnothing, List.filterMap_cons, hid]
          rfl

theorem notesOf_eq_nil (h : ∀ up ∈ masks, (ids ghosts up.1).isSome) :
    notesOf (ids ghosts) masks = [] ↔ masks = [] := by
  rw [notesOf, List.filterMap_eq_nil_iff]
  constructor
  · intro hnone
    rw [List.eq_nil_iff_forall_not_mem]
    intro up hup
    have hsome := h up hup
    rw [Option.map_eq_none_iff.mp (hnone up hup)] at hsome
    cases hsome
  · rintro rfl
    exact List.forall_mem_nil _

/-! ### What a dropped packet restores -/

theorem ids_restore (R : ObjectTypes ω τ) (ghosts : AList (fun _ : U32 => GhostInfo ω))
    (up : GhostUpdateNote) : ids (restore ghosts up) = ids ghosts :=
  ids_of_core R (restore_core ghosts up)

/-- The object with the id is the only one that is changed. -/
theorem restore_lookup (hunique : Unique (ids ghosts)) {id : ℕ} (hid : ids ghosts netID = some id)
    (mask : U32) (netID' : U32) : (restore ghosts ⟨id, mask⟩).lookup netID' =
      (ghosts.lookup netID').map fun gi =>
        { gi with mask := if netID = netID' then gi.mask ||| mask else gi.mask } := by
  obtain ⟨gi, hgi, hgid⟩ := Option.map_eq_some_iff.mp hid
  rw [restore]
  cases hfind : ghosts.entries.find? (fun entry => entry.2.ghostID = id) with
  | none =>
    have hnot := List.find?_eq_none.mp hfind ⟨netID, gi⟩ (AList.mem_lookup_iff.mp hgi)
    exact absurd hgid (by simpa using hnot)
  | some entry =>
    obtain ⟨found, gi'⟩ := entry
    have hgi' : ghosts.lookup found = some gi' :=
      AList.mem_lookup_iff.mpr (List.mem_of_find?_eq_some hfind)
    have hid' : gi'.ghostID = id := by simpa using List.find?_some hfind
    obtain rfl : netID = found := hunique _ _ id hid (by rw [ids, hgi', Option.map_some, hid'])
    by_cases hnet : netID = netID'
    · subst hnet
      simp only [AList.lookup_insert, hgi', Option.map_some, if_true]
    · simp only [AList.lookup_insert_ne (Ne.symm hnet), if_neg hnet, Option.map_id']

theorem foldl_restore (R : ObjectTypes ω τ) (hunique : Unique (ids ghosts))
    (hknown : ∀ up ∈ masks, (ids ghosts up.1).isSome) (netID : U32) :
    ((notesOf (ids ghosts) masks).foldl restore ghosts).lookup netID =
      (ghosts.lookup netID).map fun gi => { gi with mask := gi.mask ||| maskOf masks netID } := by
  induction masks generalizing ghosts with
  | nil => simp [notesOf, maskOf]
  | cons up masks ih =>
    obtain ⟨hup, hknown⟩ := List.forall_mem_cons.mp hknown
    obtain ⟨id, hid⟩ := Option.isSome_iff_exists.mp hup
    have hids := ids_restore R ghosts ⟨id, up.2⟩
    have hrest := @ih (restore ghosts ⟨id, up.2⟩) (by rw [hids]; exact hunique)
      (by rw [hids]; exact hknown)
    rw [hids, restore_lookup hunique hid, Option.map_map] at hrest
    rw [notesOf, List.filterMap_cons, hid, Option.map_some]
    refine hrest.trans (congrArg (Option.map · _) ?_)
    funext gi
    rw [maskOf, maskOf, List.foldr_cons]
    by_cases hnet : up.1 = netID
    · simp [hnet, BitVec.or_assoc]
    · simp [hnet]

/-! ### Every run -/

/-- Ids are given out in turn. They are those of the first objects as long as there are not more
objects than ids. -/
structure Sound (s : GhostServer ω) : Prop where
  next : s.connection.nextGhostID = s.connection.ghostsToClient.keys.length % 1024 + 1
  range : ∀ netID id, ids s.connection.ghostsToClient netID = some id → 1 ≤ id ∧ id ≤ 1024
  bound : s.connection.ghostsToClient.keys.length ≤ 1024 → ∀ netID id,
    ids s.connection.ghostsToClient netID = some id → id ≤ s.connection.ghostsToClient.keys.length
  unique : s.connection.ghostsToClient.keys.length ≤ 1024 → Unique (ids s.connection.ghostsToClient)
  notes : ∀ sequence, s.connection.sentGhostUpdates.lookup sequence =
    (s.packed.lookup sequence).map (notesOf (ids s.connection.ghostsToClient))
  known : ∀ sequence masks, s.packed.lookup sequence = some masks → ∀ up ∈ masks,
    (ids s.connection.ghostsToClient up.1).isSome

variable {s t : GhostServer ω}

theorem sound_start : Sound (start : GhostServer ω) where
  next := rfl
  range := fun _ _ hid => nomatch hid
  bound := fun _ _ _ hid => nomatch hid
  unique := fun _ _ _ _ hid => nomatch hid
  notes := fun _ => rfl
  known := fun _ _ hmasks => nomatch hmasks

/-- A step that keeps the ids keeps what is said about them. -/
theorem Sound.of_ids (h : s.Sound)
    (hids : ids t.connection.ghostsToClient = ids s.connection.ghostsToClient)
    (hnext : t.connection.nextGhostID = s.connection.nextGhostID)
    (hnotes : ∀ sequence, t.connection.sentGhostUpdates.lookup sequence =
      (t.packed.lookup sequence).map (notesOf (ids s.connection.ghostsToClient)))
    (hknown : ∀ sequence masks, t.packed.lookup sequence = some masks → ∀ up ∈ masks,
      (ids s.connection.ghostsToClient up.1).isSome) : t.Sound := by
  have hlength := length_keys_congr hids
  constructor
  · rw [hnext, hlength]
    exact h.next
  · rw [hids]
    exact h.range
  · rw [hids, hlength]
    exact h.bound
  · rw [hids, hlength]
    exact h.unique
  · rw [hids]
    exact hnotes
  · rw [hids]
    exact hknown

/-- The notes of packets are about objects that were there. -/
theorem notesOf_insert (hnone : ids ghosts netID = none)
    (hknown : ∀ up ∈ masks, (ids ghosts up.1).isSome) :
    notesOf (ids (ghosts.insert netID gi)) masks = notesOf (ids ghosts) masks := by
  refine List.filterMap_congr (fun up hup => ?_)
  have hne : up.1 ≠ netID := by
    intro heq
    have hsome := hknown up hup
    rw [heq, hnone] at hsome
    cases hsome
  rw [ids_insert, if_neg hne]

theorem Sound.insert (h : s.Sound) (hnone : ids s.connection.ghostsToClient netID = none) (obj : ω)
    (mask : U32) : Sound { s with connection := { s.connection with
      ghostsToClient := s.connection.ghostsToClient.insert netID
        ⟨obj, s.connection.nextGhostID, mask, true⟩
      nextGhostID := s.connection.nextGhostID % 1024 + 1 } } := by
  have hnext := h.next
  have hnotMem : netID ∉ s.connection.ghostsToClient.keys := by
    rw [mem_keys_iff, hnone]
    exact Bool.false_ne_true
  have hlength : (s.connection.ghostsToClient.insert netID
      ⟨obj, s.connection.nextGhostID, mask, true⟩).keys.length =
        s.connection.ghostsToClient.keys.length + 1 := by
    rw [AList.keys_insert, List.erase_of_not_mem hnotMem, List.length_cons]
  constructor
  case next =>
    dsimp only
    rw [hlength, hnext]
    omega
  case range =>
    intro netID' id hid
    rw [ids_insert] at hid
    split_ifs at hid
    · obtain rfl := Option.some.inj hid
      dsimp only
      omega
    · exact h.range netID' id hid
  case bound =>
    intro hcount netID' id hid
    dsimp only at hcount hid ⊢
    rw [hlength] at hcount ⊢
    rw [ids_insert] at hid
    split_ifs at hid
    · obtain rfl := Option.some.inj hid
      dsimp only
      omega
    · have hle := h.bound (by omega) netID' id hid
      omega
  case unique =>
    intro hcount netID₁ netID₂ id hid₁ hid₂
    dsimp only at hcount hid₁ hid₂
    rw [hlength] at hcount
    have hold : ∀ netID', ids s.connection.ghostsToClient netID' ≠
        some s.connection.nextGhostID := by
      intro netID' hid
      have hle := h.bound (by omega) netID' _ hid
      omega
    rw [ids_insert] at hid₁ hid₂
    by_cases hnet₁ : netID₁ = netID <;> by_cases hnet₂ : netID₂ = netID
    · rw [hnet₁, hnet₂]
    · rw [if_pos hnet₁] at hid₁
      rw [if_neg hnet₂, ← hid₁] at hid₂
      exact absurd hid₂ (hold netID₂)
    · rw [if_pos hnet₂] at hid₂
      rw [if_neg hnet₁, ← hid₂] at hid₁
      exact absurd hid₁ (hold netID₁)
    · rw [if_neg hnet₁] at hid₁
      rw [if_neg hnet₂] at hid₂
      exact h.unique (by omega) netID₁ netID₂ id hid₁ hid₂
  case notes =>
    intro sequence
    refine (h.notes sequence).trans ?_
    cases hmasks : s.packed.lookup sequence with
    | none => rfl
    | some masks => exact congrArg some (notesOf_insert hnone (h.known sequence masks hmasks)).symm
  case known =>
    intro sequence masks hmasks up hup
    rw [ids_insert]
    split_ifs
    · rfl
    · exact h.known sequence masks hmasks up hup

theorem Sound.objectInScope (h : s.Sound) (obj : ω) :
    Sound { s with connection := s.connection.objectInScope R obj } := by
  rw [GhostConnection.objectInScope]
  cases hlookup : s.connection.ghostsToClient.lookup (R.getNetID obj) with
  | some gi => exact h
  | none => exact h.insert (by rw [ids, hlookup, Option.map_none]) obj (-1)

theorem Sound.writeGhosts (h : s.Sound) {order : List U32}
    (horder : order.Perm s.connection.ghostsToClient.keys) (bs : BitWriter) (packetSeq : U32) :
    Sound {
      connection := (s.connection.writeGhosts R order bs packetSeq).1
      packed := if masksOf R s.connection.ghostsToClient order = [] then s.packed
        else s.packed.insert packetSeq (masksOf R s.connection.ghostsToClient order) } := by
  have hnodup : order.Nodup := horder.nodup_iff.mpr s.connection.ghostsToClient.keys_nodup
  have hmasks : ∀ up ∈ masksOf R s.connection.ghostsToClient order,
      (ids s.connection.ghostsToClient up.1).isSome := fun _ => mem_masksOf
  refine h.of_ids (ids_writeLoop hnodup _ bs) rfl ?_ ?_
  · intro sequence
    simp only [GhostConnection.writeGhosts, writeLoop_notes hnodup, notesOf_eq_nil hmasks]
    split_ifs with hempty
    · exact h.notes sequence
    · by_cases hseq : sequence = packetSeq
      · rw [hseq, AList.lookup_insert, AList.lookup_insert, Option.map_some]
      · rw [AList.lookup_insert_ne hseq, AList.lookup_insert_ne hseq]
        exact h.notes sequence
  · intro sequence masks hlookup
    dsimp only at hlookup
    split_ifs at hlookup with hempty
    · exact h.known sequence masks hlookup
    · by_cases hseq : sequence = packetSeq
      · rw [hseq, AList.lookup_insert] at hlookup
        cases hlookup
        exact hmasks
      · rw [AList.lookup_insert_ne hseq] at hlookup
        exact h.known sequence masks hlookup

theorem lookup_erase_congr {notes : AList (fun _ : U32 => List GhostUpdateNote)}
    {packed : AList (fun _ : U32 => List (U32 × U32))} {f : List (U32 × U32) → List GhostUpdateNote}
    (h : ∀ sequence, notes.lookup sequence = (packed.lookup sequence).map f) (erased sequence : U32) :
    (notes.erase erased).lookup sequence = ((packed.erase erased).lookup sequence).map f := by
  by_cases hseq : sequence = erased
  · rw [hseq, AList.lookup_erase, AList.lookup_erase, Option.map_none]
  · rw [AList.lookup_erase_ne hseq, AList.lookup_erase_ne hseq, h]

theorem Sound.known_erase (h : s.Sound) {erased sequence : U32}
    (hmasks : (s.packed.erase erased).lookup sequence = some masks) :
    ∀ up ∈ masks, (ids s.connection.ghostsToClient up.1).isSome := by
  by_cases hseq : sequence = erased
  · rw [hseq, AList.lookup_erase] at hmasks
    cases hmasks
  · rw [AList.lookup_erase_ne hseq] at hmasks
    exact h.known sequence masks hmasks

theorem Sound.packetReceived (h : s.Sound) (sequence : U32) :
    Sound { connection := s.connection.onGhostPacketReceived sequence
            packed := s.packed.erase sequence } :=
  h.of_ids rfl rfl (lookup_erase_congr h.notes sequence) fun _ _ => h.known_erase

theorem Sound.packetDropped (R : ObjectTypes ω τ) (h : s.Sound) (sequence : U32) :
    Sound { connection := s.connection.onGhostPacketDropped sequence
            packed := s.packed.erase sequence } := by
  refine h.of_ids (ids_of_core R (onGhostPacketDropped_core s.connection sequence))
    (onGhostPacketDropped_frame s.connection sequence) ?_ fun _ _ => h.known_erase
  intro other
  rw [← lookup_erase_congr h.notes sequence other, onGhostPacketDropped]
  cases hnotes : s.connection.sentGhostUpdates.lookup sequence with
  | none =>
    -- there is nothing to erase
    dsimp only
    by_cases hseq : other = sequence
    · rw [hseq, AList.lookup_erase, hnotes]
    · rw [AList.lookup_erase_ne hseq]
  | some notes => rfl

theorem Sound.step {a : Action ω} (h : s.Sound) (hstep : s.step R a = some t) : t.Sound := by
  cases a with
  | objectInScope obj =>
    cases hstep
    exact h.objectInScope obj
  | change netID obj mask =>
    obtain ⟨gi, hgi, rfl⟩ := Option.map_eq_some_iff.mp hstep
    exact h.of_ids (ids_insert_same (by rw [ids, hgi, Option.map_some])) rfl h.notes h.known
  | writeGhosts order bs packetSeq =>
    rw [GhostServer.step] at hstep
    split_ifs at hstep with horder
    cases hstep
    exact h.writeGhosts horder bs packetSeq
  | packetReceived sequence =>
    cases hstep
    exact h.packetReceived sequence
  | packetDropped sequence =>
    cases hstep
    exact h.packetDropped R sequence

theorem sound_run {actions : List (Action ω)}
    (hrun : Run (GhostServer.step R) (fun _ _ => True) start actions s) : s.Sound :=
  hrun.invariant (I := Sound) (fun _ _ _ h _ hstep => h.step hstep) sound_start

/-- An object comes into scope once and stays there. -/
theorem isSome_ids_step {a : Action ω} (hstep : s.step R a = some t) :
    (ids t.connection.ghostsToClient netID).isSome ↔
      (ids s.connection.ghostsToClient netID).isSome ∨ netID ∈ netIDs R [a] := by
  cases a with
  | objectInScope obj =>
    cases hstep
    rw [GhostConnection.objectInScope]
    cases hlookup : s.connection.ghostsToClient.lookup (R.getNetID obj) with
    | some gi =>
      have hsome : (ids s.connection.ghostsToClient (R.getNetID obj)).isSome := by
        rw [ids, hlookup]
        rfl
      constructor
      · exact .inl
      · rintro (hold | hnew)
        · exact hold
        · rw [List.mem_singleton.mp hnew]
          exact hsome
    | none =>
      change (ids (s.connection.ghostsToClient.insert _ _) netID).isSome ↔ _ ∨ netID ∈ [_]
      rw [ids_insert, List.mem_singleton]
      split_ifs with hnew
      · simp [hnew]
      · simp [hnew]
  | change netID' obj mask =>
    obtain ⟨gi, hgi, rfl⟩ := Option.map_eq_some_iff.mp hstep
    have hids : ids (s.connection.ghostsToClient.insert netID' { gi with obj, mask }) =
        ids s.connection.ghostsToClient := ids_insert_same (by rw [ids, hgi, Option.map_some])
    simp [hids, netIDs]
  | writeGhosts order bs packetSeq =>
    rw [GhostServer.step] at hstep
    split_ifs at hstep with horder
    cases hstep
    have hids := ids_writeLoop (R := R) (horder.nodup_iff.mpr s.connection.ghostsToClient.keys_nodup)
      s.connection.ghostsToClient bs
    simp [netIDs, GhostConnection.writeGhosts, hids]
  | packetReceived sequence =>
    cases hstep
    simp [netIDs, onGhostPacketReceived]
  | packetDropped sequence =>
    cases hstep
    have hids := ids_of_core R (onGhostPacketDropped_core s.connection sequence)
    simp [netIDs, hids]

theorem isSome_ids_run {actions : List (Action ω)}
    (hrun : Run (GhostServer.step R) (fun _ _ => True) s actions t) :
    (ids t.connection.ghostsToClient netID).isSome ↔
      (ids s.connection.ghostsToClient netID).isSome ∨ netID ∈ netIDs R actions := by
  induction hrun with
  | nil s => simp [netIDs]
  | @cons s t u a actions allowed taken rest ih =>
    rw [ih, isSome_ids_step taken, or_assoc, ← List.mem_append, netIDs, netIDs, netIDs,
      ← List.filterMap_append, List.singleton_append]

theorem length_keys_run {actions : List (Action ω)}
    (hrun : Run (GhostServer.step R) (fun _ _ => True) start actions s) :
    s.connection.ghostsToClient.keys.length = (netIDs R actions).dedup.length := by
  refine List.Perm.length_eq ((List.perm_ext_iff_of_nodup
    s.connection.ghostsToClient.keys_nodup (List.nodup_dedup _)).mpr ?_)
  intro netID
  rw [mem_keys_iff, isSome_ids_run hrun, List.mem_dedup]
  exact or_iff_right (fun h => nomatch h)

/-- There are not more different ids than 1024. -/
theorem Sound.length_keys_le (h : s.Sound) (hunique : Unique (ids s.connection.ghostsToClient)) :
    s.connection.ghostsToClient.keys.length ≤ 1024 := by
  let idOf : U32 → ℕ := fun netID => (ids s.connection.ghostsToClient netID).getD 0
  have hidOf : ∀ netID ∈ s.connection.ghostsToClient.keys,
      ids s.connection.ghostsToClient netID = some (idOf netID) := by
    intro netID hmem
    obtain ⟨id, hid⟩ := Option.isSome_iff_exists.mp (mem_keys_iff.mp hmem)
    simp only [idOf, hid, Option.getD_some]
  have hcard := Finset.card_le_card_of_injOn (s := s.connection.ghostsToClient.keys.toFinset)
    (t := Finset.Icc 1 1024) idOf ?_ ?_
  · rw [List.toFinset_card_of_nodup s.connection.ghostsToClient.keys_nodup, Nat.card_Icc] at hcard
    exact hcard
  · intro netID hmem
    exact Finset.mem_Icc.mpr (h.range netID _ (hidOf netID (List.mem_toFinset.mp hmem)))
  · intro netID hmem netID' hmem' heq
    have hid := hidOf netID (List.mem_toFinset.mp hmem)
    rw [heq] at hid
    exact hunique netID netID' _ hid (hidOf netID' (List.mem_toFinset.mp hmem'))

theorem Identified.unique_ids (h : Identified s) : Unique (ids s.connection.ghostsToClient) := by
  intro netID netID' id hid hid'
  obtain ⟨gi, hgi, rfl⟩ := Option.map_eq_some_iff.mp hid
  obtain ⟨gi', hgi', heq⟩ := Option.map_eq_some_iff.mp hid'
  exact h.unique netID netID' gi gi' hgi hgi' heq.symm

theorem Sound.identified (R : ObjectTypes ω τ) (h : s.Sound)
    (hcount : s.connection.ghostsToClient.keys.length ≤ 1024) : Identified s where
  unique netID netID' gi gi' hgi hgi' heq :=
    h.unique hcount netID netID' gi.ghostID (by rw [ids, hgi, Option.map_some])
      (by rw [ids, hgi', Option.map_some, heq])
  fits order r hr := by
    obtain ⟨netID, -, gi, hgi, -, rfl⟩ := mem_recordsOf hr
    exact (h.range netID gi.ghostID (by rw [ids, hgi, Option.map_some])).2
  restored sequence netID := by
    have hnotes := h.notes sequence
    rw [onGhostPacketDropped]
    cases hmasks : s.packed.lookup sequence with
    | none =>
      rw [hmasks] at hnotes
      simp [hnotes, maskOf]
    | some masks =>
      rw [hmasks] at hnotes
      simp only [hnotes, Option.map_some, Option.getD_some]
      exact foldl_restore R (h.unique hcount) (h.known sequence masks hmasks) netID

/-- The ids of ghosts identify them as long as no more than 1024 objects have come into scope. -/
theorem identified_iff {actions : List (Action ω)}
    (hrun : Run (GhostServer.step R) (fun _ _ => True) start actions s) :
    Identified s ↔ (netIDs R actions).dedup.length ≤ 1024 := by
  have hsound := sound_run hrun
  rw [← length_keys_run hrun]
  constructor
  · exact fun h => hsound.length_keys_le h.unique_ids
  · exact hsound.identified R

/-- An update of both objects is dropped, and the masks are as they were. -/
theorem identified_iff_dropped : ∃ s : GhostServer (U32 × UInt8),
    (s.connection.ghostsToClient.lookup 1000).map (·.mask) = some (-1) ∧
      (Identified s ↔ (netIDs byteObjects [.objectInScope (1000, 1), .objectInScope (2000, 2),
        .objectInScope (1000, 1), .writeGhosts [1000, 2000] [] 5, .packetDropped 5]).dedup.length ≤
          1024) := by
  have run : ∃ s, Run (GhostServer.step byteObjects) (fun _ _ => True) start
      [.objectInScope (1000, 1), .objectInScope (2000, 2), .objectInScope (1000, 1),
        .writeGhosts [1000, 2000] [] 5, .packetDropped 5] s ∧
      (s.connection.ghostsToClient.lookup 1000).map (·.mask) = some (-1) :=
    ⟨_, .of_exec rfl, by decide +kernel⟩
  obtain ⟨s, hrun, hmask⟩ := run
  exact ⟨s, hmask, identified_iff hrun⟩

theorem run_objectInScope (R : ObjectTypes ω τ) (objs : List ω) (s : GhostServer ω) :
    ∃ t, Run (GhostServer.step R) (fun _ _ => True) s (objs.map .objectInScope) t := by
  induction objs generalizing s with
  | nil => exact ⟨s, .nil s⟩
  | cons obj objs ih =>
    obtain ⟨t, hrun⟩ := ih { s with connection := s.connection.objectInScope R obj }
    exact ⟨t, .cons trivial rfl hrun⟩

/-- Objects with net ids from 0 up to 1024. -/
def manyObjects : List (U32 × UInt8) := (List.range 1025).map fun i => (BitVec.ofNat 32 i, 0)

theorem netIDs_manyObjects :
    (netIDs byteObjects (manyObjects.map .objectInScope)).dedup.length = 1025 := by
  have hnetIDs : netIDs byteObjects (manyObjects.map .objectInScope) =
      (List.range 1025).map (BitVec.ofNat 32) := by
    simp [netIDs, manyObjects, List.filterMap_map, Function.comp_def, byteObjects]
  have hnodup : ((List.range 1025).map (BitVec.ofNat 32)).Nodup := by
    refine List.Nodup.map_on ?_ List.nodup_range
    intro i hi j hj heq
    rw [List.mem_range] at hi hj
    have htoNat := congrArg BitVec.toNat heq
    rw [BitVec.toNat_ofNat, BitVec.toNat_ofNat] at htoNat
    omega
  rw [hnetIDs, List.dedup_eq_self.mpr hnodup, List.length_map, List.length_range]

theorem manyObjects_clash : ¬ ∀ (ω τ : Type) (R : ObjectTypes ω τ) (actions : List (Action ω))
    (s : GhostServer ω), Run (GhostServer.step R) (fun _ _ => True) start actions s →
      Identified s := by
  intro h
  obtain ⟨s, hrun⟩ := run_objectInScope byteObjects manyObjects start
  have hle := (sound_run hrun).length_keys_le (h _ _ byteObjects _ s hrun).unique_ids
  rw [length_keys_run hrun, netIDs_manyObjects] at hle
  omega

end GhostServer

end TNL.Go
