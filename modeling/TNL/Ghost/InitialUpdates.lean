import TNL.Ghost.RecordFlags

/-!
# Initial updates

A ghost that the client has not created yet owes all its bits: before its
creation is written they are in its mask, and while the creation is in flight
they are in its mask or carried by the creation. Only `clearMaskBits` can take
one of them away, and then the update that creates the ghost is packed with
less than the mask that `packUpdate` is promised.
-/
namespace TNL.GhostServer
open GhostArray Library

/-- The mask that `packUpdate` is promised for the initial update of an object. -/
def initialMask : Mask := 0xFFFFFFFF

/-- An update written with the class id is packed with the initial mask. -/
def InitialComplete (s : GhostServer) (walk : Ghost) : Prop :=
  (s.flags walk).killGhost = false → (s.flags walk).notYetGhosted = true →
    s.updateMask walk = initialMask

instance (s : GhostServer) (walk : Ghost) : Decidable (s.InitialComplete walk) :=
  inferInstanceAs (Decidable (_ → _ → _))

/-- The masks of the references of a ghost. -/
def masks (refs : ℕ → GhostRef) (rs : List ℕ) : List Mask := rs.map (fun r => (refs r).mask)

/-- The bits a ghost with flags `f` owes are in its mask or in flight. -/
structure Owing (f : GhostFlags) (mask : Mask) (inFlight : List Mask) : Prop where
  notYetGhosted : f.notYetGhosted = true → mask = initialMask
  ghosting : f.ghosting = true → ∀ sent ∈ inFlight, mask ||| sent = initialMask

/-- No bit of a ghost that has not been created is missing. -/
def Complete (p : GhostServer × Flight) : Prop :=
  ∀ g, p.1.array.Allocated g →
    Owing (p.1.flags g) (p.1.updateMask g) (masks p.1.refs (p.2 g))

/-- A call of `clearMaskBits` takes no bit from a ghost that has not been sent, and from one whose
creation is in flight only bits that the creation carries. -/
def KeepsInitial (s : GhostServer) : Action → Prop
  | .clearMaskBits obj orMask =>
    s.ClearsExactly (.clearMaskBits obj orMask) ∧ ∀ g, s.obj g = some obj →
      ((s.flags g).notYetGhosted = true → s.updateMask g &&& orMask = 0) ∧
      ((s.flags g).ghosting = true → ∀ r, s.lastUpdateChain g = some r →
        s.updateMask g &&& orMask &&& ~~~(s.refs r).mask = 0)
  | _ => True

variable {traits : ObjectTraits} {causes : Causes} {s t : GhostServer} {flight : Flight} {g : Ghost}
  {p q : GhostServer × Flight}

theorem initialMask_eq : initialMask = BitVec.allOnes 32 := by decide

@[simp] theorem initialMask_or (bits : Mask) : initialMask ||| bits = initialMask := by
  rw [initialMask_eq, BitVec.allOnes_or]

/-- What is left over of all bits and what is not. -/
theorem split_allOnes (leftOver : Mask) : (leftOver &&& BitVec.allOnes 32) |||
    (BitVec.allOnes 32 &&& ~~~(leftOver &&& BitVec.allOnes 32)) = BitVec.allOnes 32 := by
  rw [BitVec.and_allOnes, BitVec.allOnes_and, BitVec.or_not_self]

theorem Owing.raise {f f' : GhostFlags} {mask : Mask} {sent : List Mask} (h : Owing f mask sent)
    (hnot : f'.notYetGhosted = f.notYetGhosted) (hghosting : f'.ghosting = f.ghosting)
    (bits : Mask) : Owing f' (mask ||| bits) sent := by
  constructor
  · intro hf
    rw [h.notYetGhosted (hnot ▸ hf), initialMask_or]
  · intro hf m hm
    rw [BitVec.or_assoc, BitVec.or_comm bits, ← BitVec.or_assoc, h.ghosting (hghosting ▸ hf) m hm,
      initialMask_or]

theorem Owing.congr {f f' : GhostFlags} {mask : Mask} {sent : List Mask} (h : Owing f mask sent)
    (hnot : f'.notYetGhosted = f.notYetGhosted) (hghosting : f'.ghosting = f.ghosting) :
    Owing f' mask sent :=
  ⟨fun hf => h.notYetGhosted (hnot ▸ hf), fun hf => h.ghosting (hghosting ▸ hf)⟩

/-- A ghost that the client has created owes nothing. -/
theorem Owing.created {f : GhostFlags} (hnot : f.notYetGhosted = false)
    (hghosting : f.ghosting = false) (mask : Mask) (sent : List Mask) : Owing f mask sent := by
  constructor
  · intro hf
    rw [hnot] at hf
    cases hf
  · intro hf
    rw [hghosting] at hf
    cases hf

/-- The references in flight keep their masks. -/
theorem masks_eq (h : Sound s flight) (hkept : Kept causes s t) (g : Ghost) :
    masks t.refs (flight g) = masks s.refs (flight g) := by
  refine List.map_congr_left fun r hr => ?_
  have hsame := congrArg GhostRef.mask (hkept.refs r (h.ghosts.owned g r hr).2)
  exact hsame

/-- A move that concerns one ghost. -/
theorem Complete.of_ghost (h : Complete (s, flight)) {flight' : Flight} (hsound : Sound s flight)
    (hkept : Kept causes s t) (g : Ghost)
    (hother : ∀ x, x ≠ g → t.array.Allocated x → s.array.Allocated x ∧ t.flags x = s.flags x ∧
      t.updateMask x = s.updateMask x ∧ flight' x = flight x)
    (hself : t.array.Allocated g →
      Owing (t.flags g) (t.updateMask g) (masks t.refs (flight' g))) : Complete (t, flight') := by
  intro x hx
  by_cases hxg : x = g
  · rw [hxg] at hx ⊢
    exact hself hx
  · obtain ⟨hx', hflags, hmask, hflight⟩ := hother x hxg hx
    dsimp only
    rw [hflags, hmask, hflight, masks_eq hsound hkept]
    exact h x hx'

section moves

theorem Complete.addGhost (h : Complete (s, flight)) (hsound : Sound s flight)
    (hg : ¬ s.array.Allocated g) (o : ℕ) : Complete (s.addGhost traits o g, flight) := by
  have hallocated : ∀ x, (s.addGhost traits o g).array.Allocated x ↔ x = g ∨ s.array.Allocated x :=
    (hsound.addGhost hg o).2
  have hkept : Kept Causes.none s (s.addGhost traits o g) := .of_ghosts ..
  refine h.of_ghost hsound hkept g (fun x hx ha => ?_) fun _ => ⟨fun _ => ?_, fun hf => ?_⟩
  · refine ⟨((hallocated x).mp ha).resolve_left hx, ?_, ?_, rfl⟩
    · exact Function.update_of_ne hx ..
    · exact Function.update_of_ne hx ..
  · exact (Function.update_self ..).trans initialMask_eq.symm
  · rw [show (s.addGhost traits o g).flags g = _ from Function.update_self ..] at hf
    cases hf

theorem Complete.addMask (h : Complete (s, flight)) (hsound : Sound s flight)
    (hg : s.array.Allocated g) {bits : Mask} (hbits : bits ≠ 0) :
    Complete (s.addMask g bits, flight) := by
  have hallocated := addMask_allocated hsound hg hbits
  have hkept : Kept Causes.none s (s.addMask g bits) := addMask_kept g bits
  refine h.of_ghost hsound hkept g ?_ fun _ => ?_
  · intro x hx ha
    rw [hallocated] at ha
    rw [addMask_eq]
    exact ⟨ha, rfl, Function.update_of_ne hx .., rfl⟩
  · rw [addMask_eq]
    dsimp only
    rw [Function.update_self]
    exact (h g hg).raise rfl rfl bits

theorem Complete.detachObject (h : Complete (s, flight)) (hsound : Sound s flight)
    (hg : s.array.Allocated g) : Complete (s.detachObject traits g, flight) := by
  have hallocated : (s.detachObject traits g).array.Allocated = s.array.Allocated :=
    detachObject_allocated hsound hg
  have hkept : Kept Causes.none s (s.detachObject traits g) := detachObject_kept g
  obtain ⟨table, heq⟩ := detachObject_eq traits s g
  refine h.of_ghost hsound hkept g ?_ fun _ => ?_
  · intro x hx ha
    rw [hallocated] at ha
    rw [heq]
    exact ⟨ha, Function.update_of_ne hx .., Function.update_of_ne hx .., rfl⟩
  · have hmask : (if s.updateMask g = 0 then BitVec.allOnes 32 else s.updateMask g) =
        s.updateMask g ||| if s.updateMask g = 0 then BitVec.allOnes 32 else 0 := by
      split
      · rename_i hzero
        simp [hzero]
      · simp
    have hraised : Owing (s.flags g) _ _ :=
      (h g hg).raise rfl rfl (if s.updateMask g = 0 then BitVec.allOnes 32 else 0)
    rw [heq]
    dsimp only
    rw [Function.update_self, Function.update_self, hmask]
    exact hraised.congr rfl rfl

/-- A ghost that is freed owes nothing any more. -/
theorem Complete.released (h : Complete (s, flight)) (hsound : Sound s flight)
    (hg : s.array.Allocated g) (hobj : s.obj g = none) :
    Complete ((s.forget g).freeGhostInfo g, flight.pop g []) := by
  have hallocated := (hsound.release hg hobj).2
  have hkept : Kept Causes.none s ((s.forget g).freeGhostInfo g) :=
    Kept.trans (.of_ghosts ..) (freeGhostInfo_kept g)
  refine h.of_ghost hsound hkept g (fun x hx ha => ?_) fun ha => ?_
  · refine ⟨((hallocated x).mp ha).2, ?_, ?_, Function.update_of_ne hx ..⟩
    · rw [freeGhostInfo_flags, forget]
    · unfold freeGhostInfo
      split
      · exact Function.update_of_ne hx ..
      · rfl
  · exact absurd rfl ((hallocated g).mp ha).1

theorem Complete.writeRecord (h : Complete (s, flight)) (hsound : Sound s flight)
    (hp : s.array.Pending g) (hkilling : (s.flags g).killingGhost = false)
    (hghosting : (s.flags g).ghosting = false) (hsend : s.Sendable g) (leftOver : Mask) :
    Complete (s.writeRecord g leftOver, flight.push g s.nextRef) := by
  have hallocated := (hsound.writeRecord hp hkilling hghosting hsend leftOver).2
  have hg := hsound.masked.valid.allocated_of_pending hp
  have hkept : Kept Causes.none s (s.writeRecord g leftOver) := writeRecord_kept g leftOver
  refine h.of_ghost hsound hkept g ?_ fun _ => ?_
  · intro x hx ha
    rw [hallocated] at ha
    rw [writeRecord_eq]
    exact ⟨ha, Function.update_of_ne hx .., Function.update_of_ne hx .., Function.update_of_ne hx ..⟩
  · rw [writeRecord_eq]
    dsimp only
    rw [Function.update_self, Function.update_self]
    by_cases hkill : (s.flags g).killGhost = true
    · have hnot : (s.flags g).notYetGhosted = false := by
        simpa [Sendable, hkill] using hsend
      simp only [hkill, if_true]
      exact (Owing.created hnot hghosting ..).congr rfl rfl
    · by_cases hnot : (s.flags g).notYetGhosted = true
      · -- the creation carries the bits that are not left over
        have hflight := hsound.flight_of_notYetGhosted hg hnot
        have hmask := (h g hg).notYetGhosted hnot
        simp only [hkill, hnot, if_true, if_false, Bool.false_eq_true]
        constructor
        · rintro ⟨⟩
        · intro _ sent hsent
          rw [Flight.push, Function.update_self, hflight, List.nil_append] at hsent
          rw [List.mem_singleton.mp hsent]
          dsimp only at hmask ⊢
          rw [linked_new]
          dsimp only
          rw [hmask, initialMask_eq]
          exact split_allOnes leftOver
      · simp only [hkill, hnot, if_false, Bool.false_eq_true]
        exact .created (by simpa using hnot) hghosting ..

/-- A creation in flight is the only reference of its ghost. -/
theorem Phase.ghosting_pop {f : GhostFlags} {k : GhostInfoFlags} {ks : List GhostInfoFlags}
    (h : Phase f (k :: ks)) : f.notYetGhosted = false ∧
      (k = .ghosting → f.ghosting = true ∧ ks = []) ∧ (k ≠ .ghosting → f.ghosting = false) := by
  generalize hall : k :: ks = all at h
  cases h with
  | notYetGhosted _ _ _ => cases hall
  | ghosting hnot hghosting _ =>
    obtain ⟨rfl, rfl⟩ := List.cons.inj hall
    exact ⟨hnot, fun _ => ⟨hghosting, rfl⟩, fun hk => absurd rfl hk⟩
  | live hnot hghosting _ n =>
    refine ⟨hnot, fun hk => ?_, fun _ => hghosting⟩
    have hmem : k ∈ List.replicate n GhostInfoFlags.update := hall ▸ List.mem_cons_self
    rw [hk] at hmem
    cases List.eq_of_mem_replicate hmem
  | killing hnot hghosting _ n =>
    refine ⟨hnot, fun hk => ?_, fun _ => hghosting⟩
    have hmem : k ∈ List.replicate n GhostInfoFlags.update ++ [.killingGhost] :=
      hall ▸ List.mem_cons_self
    rw [hk] at hmem
    rcases List.mem_append.mp hmem with hmem | hmem
    · cases List.eq_of_mem_replicate hmem
    · cases List.mem_singleton.mp hmem

variable {r : ℕ} {rs : List ℕ}

theorem Sound.popped_phase (h : Sound s flight) (hflight : flight g = r :: rs) :
    (s.flags g).notYetGhosted = false ∧
      ((s.refs r).ghostInfoFlags = .ghosting → (s.flags g).ghosting = true ∧ rs = []) ∧
      ((s.refs r).ghostInfoFlags ≠ .ghosting → (s.flags g).ghosting = false) := by
  have hphase := h.ghosts.phase g (h.allocated_of_flight hflight)
  rw [hflight] at hphase
  obtain ⟨hnot, hcreation, hother⟩ := hphase.ghosting_pop
  exact ⟨hnot, fun hk => (hcreation hk).imp_right List.map_eq_nil_iff.mp, hother⟩

/-- A lost creation gives back the bits it carried. -/
theorem Complete.refDropped (h : Complete (s, flight)) (hsound : Sound s flight)
    (hflight : flight g = r :: rs) : Complete (s.refDropped r, flight.pop g rs) := by
  have hallocated := (hsound.refDropped hflight).2
  obtain ⟨hnot, hcreation, hother⟩ := hsound.popped_phase hflight
  have hmask : (if s.restored r rs = 0 then s else s.addMask g (s.restored r rs)).updateMask =
      Function.update s.updateMask g (s.updateMask g ||| s.restored r rs) := by
    split
    · rename_i hzero
      rw [hzero]
      simp
    · rw [addMask_eq]
  have hkept : Kept Causes.none s (s.refDropped r) := refDropped_kept r
  refine h.of_ghost hsound hkept g ?_ fun ha => ?_
  · intro x hx ha
    rw [hallocated] at ha
    rw [hsound.refDropped_eq hflight]
    dsimp only
    rw [hmask]
    exact ⟨ha, Function.update_of_ne hx .., Function.update_of_ne hx .., Function.update_of_ne hx ..⟩
  · rw [hallocated] at ha
    rw [hsound.refDropped_eq hflight]
    dsimp only
    rw [hmask, Function.update_self, Function.update_self]
    cases hkind : (s.refs r).ghostInfoFlags with
    | ghosting =>
      obtain ⟨hghosting, rfl⟩ := hcreation hkind
      have hin : r ∈ flight g := by
        rw [hflight]
        exact List.mem_cons_self
      have hcarried := (h g ha).ghosting hghosting (s.refs r).mask (List.mem_map_of_mem hin)
      exact ⟨fun _ => hcarried, fun hf => by cases hf⟩
    | killingGhost =>
      have hghosting := hother (by rw [hkind]; decide)
      exact (Owing.created hnot hghosting ..).congr rfl rfl
    | update => exact .created hnot (hother (by rw [hkind]; decide)) ..

theorem Complete.refReceived (h : Complete (s, flight)) (hsound : Sound s flight)
    (hflight : flight g = r :: rs) : Complete (s.refReceived r, flight.pop g rs) := by
  have hg := hsound.allocated_of_flight hflight
  obtain ⟨hnot, _, hother⟩ := hsound.popped_phase hflight
  by_cases hkill : (s.refs r).ghostInfoFlags = .killingGhost
  · obtain ⟨rfl, hobj, heq⟩ := hsound.refReceived_kill hflight hkill
    rw [heq]
    exact h.released hsound hg hobj
  · have hkept : Kept Causes.none s (s.refReceived r) := refReceived_kept r
    refine h.of_ghost hsound hkept g ?_ fun _ => ?_
    · intro x hx ha
      rw [hsound.refReceived_eq hflight hkill] at ha ⊢
      exact ⟨ha, Function.update_of_ne hx .., rfl, Function.update_of_ne hx ..⟩
    · rw [hsound.refReceived_eq hflight hkill]
      dsimp only
      rw [Function.update_self]
      cases hkind : (s.refs r).ghostInfoFlags with
      | ghosting =>
        have hcreated : (receivedFlags (s.flags g) .ghosting).notYetGhosted = false := hnot
        exact .created hcreated rfl ..
      | killingGhost => exact absurd hkind hkill
      | update => exact .created hnot (hother (by rw [hkind]; decide)) ..

/-- Every move but the clearing of bits keeps the bits owed. -/
theorem Move.complete (m : Move traits causes p q) (hcleared : ∀ g bits, ¬ causes.cleared g bits)
    (hsound : Sound p.1 p.2) (h : Complete p) : Complete q := by
  cases m with
  | session => exact h
  | leave => exact h
  | queue => exact h
  | objects => exact h
  | scope s flight g inScope scopeLocalAlways =>
    have hkept : Kept Causes.none s (s.setFlags g fun f =>
        { f with inScope := inScope, scopeLocalAlways := scopeLocalAlways }) := setFlags_kept ..
    refine h.of_ghost hsound hkept g ?_ fun ha => ?_
    · exact fun x hx ha => ⟨ha, Function.update_of_ne hx .., rfl, rfl⟩
    · rw [setFlags]
      dsimp only
      rw [Function.update_self]
      exact (h g ha).congr rfl rfl
  | reorder horder flight =>
    have hallocated := (hsound.masked.reorder horder).2
    intro x hx
    dsimp only at hx
    rw [hallocated] at hx
    exact h x hx
  | reset hfree flight =>
    intro x hx
    dsimp only [Allocated, activateGhosting] at hx
    rw [hfree] at hx
    cases hx
  | addGhost hscoping hg o flight => exact h.addGhost hsound hg o
  | addMask hg hbits flight => exact h.addMask hsound hg hbits
  | clearMask hclear hbits flight => exact absurd hclear (hcleared _ _)
  | detach hg flight => exact h.detachObject hsound hg
  | @free s g flight hg hobj hnot =>
    have hflight : flight g = [] := hsound.flight_of_notYetGhosted hg hnot
    have hlast : s.lastUpdateChain g = (flight g).getLast? := hsound.ghosts.last g
    rw [hflight, List.getLast?_nil] at hlast
    have hreleased := h.released hsound hg hobj
    rwa [Flight.pop, ← hflight, Function.update_eq_self, forget, ← hlast,
      Function.update_eq_self] at hreleased
  | release hreleased hg hobj => exact h.released hsound hg hobj
  | write hp hkilling hghosting hunsent leftOver flight =>
    exact h.writeRecord hsound hp hkilling hghosting hunsent leftOver
  | dropped hdropped hflight => exact h.refDropped hsound hflight
  | received hreceived hflight => exact h.refReceived hsound hflight

end moves

theorem Phase.eq_of_ghosting {f : GhostFlags} {ks : List GhostInfoFlags} (h : Phase f ks)
    (hghosting : f.ghosting = true) : ks = [.ghosting] := by
  cases h with
  | ghosting _ _ _ => rfl
  | notYetGhosted _ hnone _ => rw [hghosting] at hnone; cases hnone
  | live _ hnone _ n => rw [hghosting] at hnone; cases hnone
  | killing _ hnone _ n => rw [hghosting] at hnone; cases hnone

theorem Sound.flight_of_ghosting (h : Sound s flight) (hg : s.array.Allocated g)
    (hghosting : (s.flags g).ghosting = true) : ∃ r, flight g = [r] := by
  have hkinds := (h.ghosts.phase g hg).eq_of_ghosting hghosting
  obtain ⟨r, hr, _⟩ := List.map_eq_singleton_iff.mp hkinds
  exact ⟨r, hr⟩

section clear

/-- Clearing bits that are all in flight leaves the bits owed. -/
theorem clear_or_sent {mask bits sent : Mask} (h : mask &&& bits &&& ~~~sent = 0) :
    (mask &&& ~~~bits) ||| sent = mask ||| sent := by
  ext i hi
  have hbit : (mask &&& bits &&& ~~~sent)[i] = false := by simp [h]
  simp only [BitVec.getElem_and, BitVec.getElem_not] at hbit
  simp only [BitVec.getElem_or, BitVec.getElem_and, BitVec.getElem_not]
  revert hbit
  cases mask[i] <;> cases bits[i] <;> cases sent[i] <;> decide

theorem clearMask_eq (s : GhostServer) (bits : Mask) (g : Ghost) :
    s.clearMask bits g = { s with
      updateMask := Function.update s.updateMask g (s.updateMask g &&& ~~~bits)
      array := if s.updateMask g ≠ 0 ∧ s.updateMask g = bits then s.array.ghostPushToZero g
        else s.array } := by
  unfold clearMask
  split
  · rename_i hequal
    rw [hequal.2, BitVec.and_not_self]
  · rfl

/-- The bits that a call may take from a ghost. -/
def MayClear (s : GhostServer) (bits : Mask) (g : Ghost) : Prop :=
  (s.updateMask g ≠ 0 → s.updateMask g ≠ bits → s.updateMask g &&& ~~~bits ≠ 0) ∧
  ((s.flags g).notYetGhosted = true → s.updateMask g &&& bits = 0) ∧
  ((s.flags g).ghosting = true → ∀ r, s.lastUpdateChain g = some r →
    s.updateMask g &&& bits &&& ~~~(s.refs r).mask = 0)

theorem Complete.clearMask (h : Complete (s, flight)) (hsound : Sound s flight) {bits : Mask}
    (hmay : s.MayClear bits g) : Complete (s.clearMask bits g, flight) := by
  obtain ⟨hexact, hnot, hghosting⟩ := hmay
  have hallocated : (s.clearMask bits g).array.Allocated = s.array.Allocated := by
    rw [clearMask_eq]
    dsimp only
    split
    · rename_i hequal
      exact (hsound.masked.lower ((hsound.masked.pending_iff g).mpr hequal.1)).2
    · rfl
  have hkept : Kept Causes.none s (s.clearMask bits g) := by
    rw [clearMask_eq]
    exact .of_ghosts ..
  refine h.of_ghost hsound hkept g (fun x hx ha => ?_) fun ha => ?_
  · rw [hallocated] at ha
    rw [clearMask_eq]
    exact ⟨ha, rfl, Function.update_of_ne hx .., rfl⟩
  · rw [hallocated] at ha
    rw [clearMask_eq]
    dsimp only
    rw [Function.update_self]
    constructor
    · intro hf
      have hmask : s.updateMask g = initialMask := (h g ha).notYetGhosted hf
      have hbits : bits = 0 := by
        rw [← hnot hf, hmask, initialMask_eq, BitVec.allOnes_and]
      rw [hbits, hmask]
      decide
    · intro hf sent hsent
      obtain ⟨r, hr, rfl⟩ := List.mem_map.mp hsent
      obtain ⟨r', hsingle⟩ := hsound.flight_of_ghosting ha hf
      have hlast : s.lastUpdateChain g = some r := by
        rw [hsound.ghosts.last, hsingle, List.getLast?_singleton]
        rw [hsingle] at hr
        rw [List.mem_singleton.mp hr]
      rw [clear_or_sent (hghosting hf r hlast)]
      exact (h g ha).ghosting hf _ hsent

theorem MayClear.congr {bits : Mask} (h : s.MayClear bits g)
    (hmask : t.updateMask g = s.updateMask g) (hflags : t.flags = s.flags)
    (hlast : t.lastUpdateChain = s.lastUpdateChain) (hrefs : t.refs = s.refs) :
    t.MayClear bits g := by
  rw [MayClear, hmask, hflags, hlast, hrefs]
  exact h

theorem Complete.foldl_clearMask {bits : Mask} {ghosts : List Ghost} (hnodup : ghosts.Nodup)
    (h : Complete (s, flight)) (hsound : Sound s flight)
    (hmay : ∀ g ∈ ghosts, s.MayClear bits g) :
    Complete (ghosts.foldl (GhostServer.clearMask bits) s, flight) := by
  induction ghosts generalizing s with
  | nil => exact h
  | cons g ghosts ih =>
    obtain ⟨hnot, hnodup⟩ := List.nodup_cons.mp hnodup
    have hg := hmay g List.mem_cons_self
    refine ih hnodup (h.clearMask hsound hg) (hsound.clearMask hg.1) fun x hx => ?_
    have hne : x ≠ g := by
      rintro rfl
      exact hnot hx
    refine (hmay x (List.mem_cons_of_mem g hx)).congr (clearMask_updateMask hne bits) ?_ ?_ ?_
    all_goals rw [clearMask_eq]

theorem Complete.clearMaskBits (h : Complete (s, flight)) (hsound : Sound s flight) {o : ℕ}
    {bits : Mask} (hkeeps : s.KeepsInitial (.clearMaskBits o bits)) :
    Complete (s.clearMaskBits o bits, flight) := by
  obtain ⟨hexact, hinitial⟩ := hkeeps
  unfold GhostServer.clearMaskBits
  dsimp only
  generalize hclean : (if s.mDirtyMaskBits o = 0 then s else _) = s'
  have hsame : s' = { s with mDirtyMaskBits := s'.mDirtyMaskBits, mDirtyList := s'.mDirtyList } := by
    rw [← hclean]
    split <;> rfl
  rw [hsame]
  have hsound' : Sound { s with
      mDirtyMaskBits := s'.mDirtyMaskBits, mDirtyList := s'.mDirtyList } flight :=
    ⟨hsound.masked, { hsound.ghosts with }⟩
  refine Complete.foldl_clearMask (hsound.ghosts.list_nodup o) h hsound' fun g hg => ?_
  have hobj := (hsound.ghosts.list_iff o g).mp hg
  exact ⟨hexact g hobj, hinitial g hobj⟩

end clear

section runs

theorem KeepsInitial.exact {a : Action} (h : s.KeepsInitial a) : s.ClearsExactly a := by
  cases a with
  | clearMaskBits o bits => exact h.1
  | _ => trivial

/-- The bits owed are kept by every operation that meets the condition. -/
theorem step_complete {a : Action} (h : Sound s s.inFlight ∧ Complete (s, s.inFlight))
    (hkeeps : s.KeepsInitial a) (hstep : step traits s a = some t) :
    Sound t t.inFlight ∧ Complete (t, t.inFlight) := by
  obtain ⟨hsound, hcomplete⟩ := h
  have hmoves := step_moves hsound hkeeps.exact hstep
  refine ⟨hmoves.sound hsound, ?_⟩
  by_cases hclear : ∀ g bits, ¬ (s.causesOf a).cleared g bits
  · exact Moves.keeps (fun p q m hp hJ => m.complete hclear hp hJ) hmoves hsound hcomplete
  · cases a with
    | clearMaskBits o bits =>
      obtain ⟨_, ⟨⟩⟩ := Option.ite_none_right_eq_some.mp hstep
      rw [inFlight_congr hsound hmoves.kept id]
      exact hcomplete.clearMaskBits hsound hkeeps
    | _ => exact absurd (fun _ _ => id) hclear

theorem new_complete (alive : ℕ → Bool) : Complete (new alive, (new alive).inFlight) := by
  intro g hg
  exact absurd hg (Nat.not_lt_zero _)

/-- In every run whose calls of `clearMaskBits` take nothing that a creation still owes, every
update that creates a ghost is packed with the initial mask, whatever is left over of the others. -/
theorem creations_complete {alive : ℕ → Bool} {as : List Action} {scopeValid : Bool}
    {order : List Ghost} {leftOver : List Mask}
    (run : Run (step traits) KeepsInitial (new alive) as s)
    (hvalid : (s.mGhosting && scopeValid) = true)
    (hwrite : s.writePacket traits scopeValid order leftOver = some t) :
    s.BeforeUpdates traits order leftOver InitialComplete := by
  have hreached : Sound s s.inFlight ∧ Complete (s, s.inFlight) :=
    run.invariant (I := fun s => Sound s s.inFlight ∧ Complete (s, s.inFlight))
      (fun _ _ _ h hkeeps hstep => step_complete h hkeeps hstep)
      ⟨new_sound alive, new_complete alive⟩
  refine hreached.1.beforeUpdates (J := Complete) ?_ ?_ hreached.2 hvalid hwrite
  · exact fun p q m hsound hJ => m.complete (fun _ _ => id) hsound hJ
  · exact fun s flight g _ hJ hg _ _ hnot => (hJ g hg).notYetGhosted hnot

theorem creations_complete_resent : ∃ s : GhostServer,
    (s.flags (GhostArray.new.mGhostArray 0)).notYetGhosted = true ∧
      s.BeforeUpdates .plain [GhostArray.new.mGhostArray 0] [0] InitialComplete := by
  have hreached : (exec (step .plain) (new fun _ => true)
      [.objectInScope 0, .rpcReadyForNormalGhosts,
        .writePacket true [GhostArray.new.mGhostArray 0] [2], .packetDropped]).map (fun s =>
          ((s.flags (GhostArray.new.mGhostArray 0)).notYetGhosted, s.mGhosting && true,
            (s.writePacket .plain true [GhostArray.new.mGhostArray 0] [0]).isSome)) =
      some (true, true, true) := by decide +kernel
  obtain ⟨s, hexec, hs⟩ := Option.map_eq_some_iff.mp hreached
  obtain ⟨hnot, hpair⟩ := Prod.mk.inj hs
  obtain ⟨hvalid, hwrites⟩ := Prod.mk.inj hpair
  obtain ⟨t, hwrite⟩ := Option.isSome_iff_exists.mp hwrites
  refine ⟨s, hnot, creations_complete (.of_exec_of_forall ?_ hexec) hvalid hwrite⟩
  intro s a ha
  simp only [List.mem_cons, List.not_mem_nil, or_false] at ha
  rcases ha with rfl | rfl | rfl | rfl <;> trivial

/-- Bits cleared before the creation is written are missing in it. -/
theorem clearMaskBits_incomplete : ¬ ∀ (traits : ObjectTraits) (alive : ℕ → Bool)
    (as : List Action) (s t : GhostServer) (scopeValid : Bool) (order : List Ghost)
    (leftOver : List Mask), Run (step traits) (fun _ _ => True) (new alive) as s →
      (s.mGhosting && scopeValid) = true →
      s.writePacket traits scopeValid order leftOver = some t →
      s.BeforeUpdates traits order leftOver InitialComplete := by
  intro claim
  have hreached : (exec (step .plain) (new fun _ => true)
      [.objectInScope 0, .clearMaskBits 0 1, .rpcReadyForNormalGhosts]).map (fun s =>
        (s.mGhosting && true,
          (s.writePacket .plain true [GhostArray.new.mGhostArray 0] [0]).isSome,
          decide (s.BeforeUpdates .plain [GhostArray.new.mGhostArray 0] [0] InitialComplete))) =
      some (true, true, false) := by decide +kernel
  obtain ⟨s, hexec, hs⟩ := Option.map_eq_some_iff.mp hreached
  obtain ⟨hvalid, hpair⟩ := Prod.mk.inj hs
  obtain ⟨hwrites, hfails⟩ := Prod.mk.inj hpair
  obtain ⟨t, hwrite⟩ := Option.isSome_iff_exists.mp hwrites
  exact of_decide_eq_false hfails (claim .plain _ _ s t true _ _ (.of_exec hexec) hvalid hwrite)

end runs

end TNL.GhostServer
