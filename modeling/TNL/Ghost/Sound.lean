import TNL.Ghost.GhostConnection

/-!
# The invariant of the ghost manager

The array agrees with the update masks, the lists of the objects with the
records, and the flags of a record with its references in flight: a ghost that
has not been sent has none, one being created only its creation, one being
deleted ends with its deletion, and every other one has only updates.
-/
namespace TNL
open Library

/-- The array is in order, and exactly the ghosts with a nonzero mask are in its first segment. -/
structure GhostArray.Masked (a : GhostArray) (updateMask : Ghost → Mask) : Prop where
  valid : a.Valid
  pending_iff : ∀ g, a.Pending g ↔ updateMask g ≠ 0

namespace GhostArray.Masked

variable {a : GhostArray} {updateMask : Ghost → Mask} {info : Ghost} {mask : Mask}

/-- Giving a nonzero mask to an allocated ghost. -/
theorem raise (h : a.Masked updateMask) (ha : a.Allocated info) (hmask : mask ≠ 0) :
    Masked (if updateMask info = 0 then a.ghostPushNonZero info else a)
        (Function.update updateMask info mask) ∧
      (if updateMask info = 0 then a.ghostPushNonZero info else a).Allocated = a.Allocated := by
  have hother : ∀ g, g = info ∨ a.Pending g ↔ Function.update updateMask info mask g ≠ 0 := by
    intro g
    by_cases hg : g = info
    · simpa [hg] using hmask
    · simp [hg, h.pending_iff]
  split
  · rename_i hzero
    have hp : ¬ a.Pending info := fun hp => (h.pending_iff info).mp hp hzero
    obtain ⟨hvalid, hpending, hallocated⟩ := ghostPushNonZero_valid h.valid hp ha
    exact ⟨⟨hvalid, fun g => (hpending g).trans (hother g)⟩, funext fun g => propext (hallocated g)⟩
  · rename_i hnonzero
    refine ⟨⟨h.valid, fun g => ?_⟩, rfl⟩
    rw [← hother]
    refine ⟨.inr, fun hg => hg.elim ?_ id⟩
    rintro rfl
    exact (h.pending_iff g).mpr hnonzero

/-- Clearing a nonzero mask. -/
theorem lower (h : a.Masked updateMask) (hp : a.Pending info) :
    Masked (a.ghostPushToZero info) (Function.update updateMask info 0) ∧
      (a.ghostPushToZero info).Allocated = a.Allocated := by
  obtain ⟨hvalid, hpending, hallocated⟩ := ghostPushToZero_valid h.valid hp
  refine ⟨⟨hvalid, fun g => ?_⟩, funext fun g => propext (hallocated g)⟩
  rw [hpending, h.pending_iff]
  by_cases hg : g = info <;> simp [hg]

/-- Changing a mask without moving its ghost. -/
theorem set (h : a.Masked updateMask) (hmask : mask = 0 ↔ updateMask info = 0) :
    Masked a (Function.update updateMask info mask) := by
  refine ⟨h.valid, fun g => ?_⟩
  rw [h.pending_iff]
  by_cases hg : g = info
  · simpa [hg] using hmask.symm.not
  · simp [hg]

theorem free (h : a.Masked updateMask) (hzero : updateMask info = 0) (ha : a.Allocated info) :
    Masked (a.ghostPushZeroToFree info) updateMask ∧
      ∀ g, (a.ghostPushZeroToFree info).Allocated g ↔ g ≠ info ∧ a.Allocated g := by
  have hp : ¬ a.Pending info := fun hp => (h.pending_iff info).mp hp hzero
  obtain ⟨hvalid, hpending, hallocated⟩ := ghostPushZeroToFree_valid h.valid hp ha
  exact ⟨⟨hvalid, fun g => (hpending g).trans (h.pending_iff g)⟩, hallocated⟩

theorem enter (h : a.Masked updateMask) (ha : ¬ a.Allocated info) (hmask : mask ≠ 0) :
    Masked ((a.ghostPushFreeToZero info).ghostPushNonZero info)
        (Function.update updateMask info mask) ∧
      ∀ g, ((a.ghostPushFreeToZero info).ghostPushNonZero info).Allocated g ↔
        g = info ∨ a.Allocated g := by
  obtain ⟨hvalid, hpending, hallocated⟩ := ghostPushFreeToZero_valid h.valid ha
  have hp : ¬ (a.ghostPushFreeToZero info).Pending info := fun hp =>
    ha (h.valid.allocated_of_pending ((hpending info).mp hp))
  obtain ⟨hvalid', hpending', hallocated'⟩ :=
    ghostPushNonZero_valid hvalid hp ((hallocated info).mpr (.inl rfl))
  refine ⟨⟨hvalid', fun g => ?_⟩, fun g => (hallocated' g).trans (hallocated g)⟩
  rw [hpending', hpending, h.pending_iff]
  by_cases hg : g = info
  · simpa [hg] using hmask
  · simp [hg]

theorem reorder (h : a.Masked updateMask) {order : List Ghost} (horder : order.Perm a.pending) :
    Masked (a.reorder order) updateMask ∧ (a.reorder order).Allocated = a.Allocated := by
  obtain ⟨hvalid, hpending, hallocated⟩ := reorder_valid h.valid horder
  exact ⟨⟨hvalid, fun g => (hpending g).trans (h.pending_iff g)⟩,
    funext fun g => propext (hallocated g)⟩

end GhostArray.Masked

namespace GhostServer
open GhostArray

/-- The references in flight, for each ghost from the oldest one on. -/
abbrev Flight : Type := Ghost → List ℕ

/-- What the flags of a ghost say about its references in flight. -/
inductive Phase (f : GhostFlags) : List GhostInfoFlags → Prop where
  | notYetGhosted (hnot : f.notYetGhosted = true) (hghosting : f.ghosting = false)
      (hkilling : f.killingGhost = false) : Phase f []
  | ghosting (hnot : f.notYetGhosted = false) (hghosting : f.ghosting = true)
      (hkilling : f.killingGhost = false) : Phase f [.ghosting]
  | live (hnot : f.notYetGhosted = false) (hghosting : f.ghosting = false)
      (hkilling : f.killingGhost = false) (n : ℕ) : Phase f (List.replicate n .update)
  | killing (hnot : f.notYetGhosted = false) (hghosting : f.ghosting = false)
      (hkilling : f.killingGhost = true) (n : ℕ) :
      Phase f (List.replicate n .update ++ [.killingGhost])

/-- Each reference points to the next newer one of its ghost. -/
def Chained (refs : ℕ → GhostRef) : List ℕ → Prop
  | [] => True
  | r :: rs => (refs r).updateChain = rs.head? ∧ Chained refs rs

def kinds (refs : ℕ → GhostRef) (rs : List ℕ) : List GhostInfoFlags :=
  rs.map (fun r => (refs r).ghostInfoFlags)

/-- The records, the objects and the references agree. -/
structure GhostsSound (allocated : Ghost → Prop) (s : GhostServer) (flight : Flight) : Prop where
  list_iff : ∀ o g, g ∈ s.mFirstObjectRef o ↔ s.obj g = some o
  list_nodup : ∀ o, (s.mFirstObjectRef o).Nodup
  allocated_of_obj : ∀ g o, s.obj g = some o → allocated g
  unallocated : ∀ g, ¬ allocated g → flight g = []
  detached : ∀ g, allocated g →
    (s.obj g = none ↔ (s.flags g).killGhost = true ∨ (s.flags g).killingGhost = true)
  phase : ∀ g, allocated g → Phase (s.flags g) (kinds s.refs (flight g))
  chained : ∀ g, Chained s.refs (flight g)
  last : ∀ g, s.lastUpdateChain g = (flight g).getLast?
  owned : ∀ g, ∀ r ∈ flight g, (s.refs r).ghost = g ∧ r < s.nextRef
  increasing : ∀ g, (flight g).Pairwise (· < ·)

structure Sound (s : GhostServer) (flight : Flight) : Prop where
  masked : s.array.Masked s.updateMask
  ghosts : GhostsSound s.array.Allocated s flight

variable {traits : ObjectTraits} {s : GhostServer} {flight : Flight} {g : Ghost}

theorem new_sound (alive : ℕ → Bool) : Sound (new alive) (fun _ => []) where
  masked := ⟨GhostArray.new_valid, fun g => by simp [new, Pending, GhostArray.new]⟩
  ghosts := by
    constructor <;> simp [new, Chained, Allocated, GhostArray.new]

section masks

theorem addMask_eq (s : GhostServer) (g : Ghost) (bits : Mask) : s.addMask g bits = { s with
    updateMask := Function.update s.updateMask g (s.updateMask g ||| bits)
    array := if s.updateMask g = 0 then s.array.ghostPushNonZero g else s.array } := by
  unfold addMask
  split
  · rename_i hzero
    rw [hzero, show (0 : Mask) ||| bits = bits from BitVec.zero_or]
  · rfl

theorem Sound.addMask (h : Sound s flight) (hg : s.array.Allocated g) {bits : Mask}
    (hbits : bits ≠ 0) : Sound (s.addMask g bits) flight := by
  have hmask : s.updateMask g ||| bits ≠ 0 := by
    simpa [BitVec.or_eq_zero_iff] using fun _ => hbits
  obtain ⟨hmasked, hallocated⟩ := h.masked.raise hg hmask
  rw [addMask_eq]
  exact ⟨hmasked, hallocated ▸ { h.ghosts with }⟩

/-- Clearing bits keeps the array in order unless it clears all bits of a mask that is not
compared equal. -/
theorem Sound.clearMask (h : Sound s flight) {bits : Mask}
    (hbits : s.updateMask g ≠ 0 → s.updateMask g ≠ bits → s.updateMask g &&& ~~~bits ≠ 0) :
    Sound (s.clearMask bits g) flight := by
  unfold GhostServer.clearMask
  split
  · rename_i hequal
    obtain ⟨hmasked, hallocated⟩ := h.masked.lower ((h.masked.pending_iff g).mpr hequal.1)
    exact ⟨hmasked, hallocated ▸ { h.ghosts with }⟩
  · rename_i hdiffer
    refine ⟨h.masked.set ?_, { h.ghosts with }⟩
    by_cases hzero : s.updateMask g = 0
    · simp [hzero]
    · exact iff_of_false (hbits hzero fun heq => hdiffer ⟨hzero, heq⟩) hzero

end masks

section records

theorem Phase.congr {f f' : GhostFlags} {ks : List GhostInfoFlags} (h : Phase f ks)
    (hnot : f'.notYetGhosted = f.notYetGhosted) (hghosting : f'.ghosting = f.ghosting)
    (hkilling : f'.killingGhost = f.killingGhost) : Phase f' ks := by
  cases h with
  | notYetGhosted h₁ h₂ h₃ => exact .notYetGhosted (hnot ▸ h₁) (hghosting ▸ h₂) (hkilling ▸ h₃)
  | ghosting h₁ h₂ h₃ => exact .ghosting (hnot ▸ h₁) (hghosting ▸ h₂) (hkilling ▸ h₃)
  | live h₁ h₂ h₃ n => exact .live (hnot ▸ h₁) (hghosting ▸ h₂) (hkilling ▸ h₃) n
  | killing h₁ h₂ h₃ n => exact .killing (hnot ▸ h₁) (hghosting ▸ h₂) (hkilling ▸ h₃) n

/-- Flags that only concern the scope. -/
theorem Sound.setFlags (h : Sound s flight) {f : GhostFlags → GhostFlags}
    (hnot : (f (s.flags g)).notYetGhosted = (s.flags g).notYetGhosted)
    (hghosting : (f (s.flags g)).ghosting = (s.flags g).ghosting)
    (hkill : (f (s.flags g)).killGhost = (s.flags g).killGhost)
    (hkilling : (f (s.flags g)).killingGhost = (s.flags g).killingGhost) :
    Sound (s.setFlags g f) flight := by
  refine ⟨h.masked, { h.ghosts with detached := ?_, phase := ?_ }⟩
  · intro x hx
    have hold := h.ghosts.detached x hx
    by_cases hxg : x = g
    · subst hxg
      simpa [GhostServer.setFlags, hkill, hkilling] using hold
    · simpa [GhostServer.setFlags, hxg] using hold
  · intro x hx
    have hold := h.ghosts.phase x hx
    by_cases hxg : x = g
    · subst hxg
      simpa [GhostServer.setFlags] using hold.congr hnot hghosting hkilling
    · simpa [GhostServer.setFlags, hxg] using hold

theorem detachObject_eq (traits : ObjectTraits) (s : GhostServer) (g : Ghost) :
    ∃ table, s.detachObject traits g = { s with
      flags := Function.update s.flags g { s.flags g with killGhost := true }
      updateMask := Function.update s.updateMask g
        (if s.updateMask g = 0 then BitVec.allOnes 32 else s.updateMask g)
      array := if s.updateMask g = 0 then s.array.ghostPushNonZero g else s.array
      obj := Function.update s.obj g none
      mFirstObjectRef := fun o =>
        if s.obj g = some o then (s.mFirstObjectRef o).erase g else s.mFirstObjectRef o
      mGhostLookupTable := table } := by
  have hlist : ∀ o, s.obj g = some o →
      Function.update s.mFirstObjectRef o ((s.mFirstObjectRef o).erase g) = fun x =>
        if s.obj g = some x then (s.mFirstObjectRef x).erase g else s.mFirstObjectRef x := by
    intro o hobj
    funext x
    by_cases hx : x = o
    · subst hx
      simp [hobj]
    · simp [hobj, hx, Ne.symm hx]
  unfold detachObject GhostServer.setFlags
  cases hobj : s.obj g with
  | none =>
    have hsame : Function.update s.obj g none = s.obj := by rw [← hobj, Function.update_eq_self]
    refine ⟨s.mGhostLookupTable, ?_⟩
    by_cases hzero : s.updateMask g = 0
    · simp only [hzero, if_true, hobj, hsame, reduceCtorEq, if_false]
    · simp only [hzero, if_false, hobj, hsame, reduceCtorEq, Function.update_eq_self]
  | some o =>
    have hlist' := hlist o hobj
    rw [hobj] at hlist'
    refine ⟨Function.update s.mGhostLookupTable (bucket traits o)
      ((s.mGhostLookupTable (bucket traits o)).erase g), ?_⟩
    by_cases hzero : s.updateMask g = 0
    · simp only [hzero, if_true, hobj, hlist']
    · simp only [hzero, if_false, hobj, hlist', Function.update_eq_self]

theorem Sound.detachObject (h : Sound s flight) (hg : s.array.Allocated g) :
    Sound (s.detachObject traits g) flight := by
  obtain ⟨table, heq⟩ := detachObject_eq traits s g
  have hmask : (if s.updateMask g = 0 then BitVec.allOnes 32 else s.updateMask g) ≠ 0 := by
    split
    · decide
    · assumption
  obtain ⟨hmasked, hallocated⟩ := h.masked.raise hg hmask
  rw [heq]
  refine ⟨hmasked, ?_⟩
  dsimp only
  rw [hallocated]
  refine { h.ghosts with
    list_iff := ?_, list_nodup := ?_, allocated_of_obj := ?_, detached := ?_, phase := ?_ }
  · intro o x
    have hold := h.ghosts.list_iff o x
    dsimp only
    by_cases hx : x = g
    · subst hx
      split
      · simpa using (h.ghosts.list_nodup o).not_mem_erase
      · rename_i hobj
        simpa [hold] using hobj
    · split
      · rw [List.mem_erase_of_ne hx, hold, Function.update_of_ne hx]
      · rw [hold, Function.update_of_ne hx]
  · intro o
    dsimp only
    split
    · exact (h.ghosts.list_nodup o).erase g
    · exact h.ghosts.list_nodup o
  · intro x o hobj
    dsimp only at hobj
    by_cases hx : x = g
    · exact hx ▸ hg
    · rw [Function.update_of_ne hx] at hobj
      exact h.ghosts.allocated_of_obj x o hobj
  · intro x hx
    by_cases hxg : x = g
    · simp [hxg]
    · simpa [hxg] using h.ghosts.detached x hx
  · intro x hx
    by_cases hxg : x = g
    · subst hxg
      have hphase : Phase { s.flags x with killGhost := true } (kinds s.refs (flight x)) :=
        (h.ghosts.phase x hx).congr rfl rfl rfl
      simpa using hphase
    · simpa [hxg] using h.ghosts.phase x hx

/-- The references in flight when those of a ghost are `rs`. -/
def Flight.pop (flight : Flight) (g : Ghost) (rs : List ℕ) : Flight := Function.update flight g rs

/-- Forget the last reference of a ghost. -/
def forget (s : GhostServer) (g : Ghost) : GhostServer :=
  { s with lastUpdateChain := Function.update s.lastUpdateChain g none }

/-- Freeing a detached ghost, whose references are forgotten. -/
theorem Sound.release (h : Sound s flight) (hg : s.array.Allocated g) (hobj : s.obj g = none) :
    Sound ((s.forget g).freeGhostInfo g) (flight.pop g []) ∧
      ∀ x, ((s.forget g).freeGhostInfo g).array.Allocated x ↔ x ≠ g ∧ s.array.Allocated x := by
  have hghosts : ∀ allocated : Ghost → Prop, (∀ x, allocated x ↔ x ≠ g ∧ s.array.Allocated x) →
      GhostsSound allocated (s.forget g) (flight.pop g []) := by
    intro allocated hallocated
    have hother : ∀ {x}, x ≠ g → flight.pop g [] x = flight x :=
      fun hx => Function.update_of_ne hx ..
    have hself : flight.pop g [] g = [] := Function.update_self ..
    constructor
    · exact h.ghosts.list_iff
    · exact h.ghosts.list_nodup
    · intro x o hx
      refine (hallocated x).mpr ⟨?_, h.ghosts.allocated_of_obj x o hx⟩
      rintro rfl
      rw [forget, hobj] at hx
      cases hx
    · intro x hx
      by_cases hxg : x = g
      · exact hxg ▸ hself
      · rw [hother hxg]
        exact h.ghosts.unallocated x (fun ha => hx ((hallocated x).mpr ⟨hxg, ha⟩))
    · exact fun x hx => h.ghosts.detached x ((hallocated x).mp hx).2
    · intro x hx
      obtain ⟨hxg, hold⟩ := (hallocated x).mp hx
      rw [hother hxg]
      exact h.ghosts.phase x hold
    · intro x
      by_cases hxg : x = g
      · rw [hxg, hself]
        trivial
      · rw [hother hxg]
        exact h.ghosts.chained x
    · intro x
      by_cases hxg : x = g
      · rw [hxg, hself]
        exact Function.update_self ..
      · rw [hother hxg]
        exact (Function.update_of_ne hxg ..).trans (h.ghosts.last x)
    · intro x r hr
      by_cases hxg : x = g
      · rw [hxg, hself] at hr
        cases hr
      · rw [hother hxg] at hr
        exact h.ghosts.owned x r hr
    · intro x
      by_cases hxg : x = g
      · rw [hxg, hself]
        exact List.Pairwise.nil
      · rw [hother hxg]
        exact h.ghosts.increasing x
  unfold GhostServer.freeGhostInfo forget
  by_cases hp : s.array.arrayIndex g < s.array.mGhostZeroUpdateIndex
  · rw [if_pos hp]
    obtain ⟨hmasked, hallocated⟩ := h.masked.lower hp
    obtain ⟨hmasked', hallocated'⟩ := hmasked.free (Function.update_self ..) (hallocated ▸ hg)
    rw [hallocated] at hallocated'
    exact ⟨⟨hmasked', { hghosts _ hallocated' with }⟩, hallocated'⟩
  · rw [if_neg hp]
    have hzero : s.updateMask g = 0 := by
      by_contra hne
      exact hp ((h.masked.pending_iff g).mpr hne)
    obtain ⟨hmasked', hallocated'⟩ := h.masked.free hzero hg
    exact ⟨⟨hmasked', { hghosts _ hallocated' with }⟩, hallocated'⟩

/-- Freeing a detached ghost that has no references in flight. -/
theorem Sound.freeGhostInfo (h : Sound s flight) (hg : s.array.Allocated g) (hobj : s.obj g = none)
    (hflight : flight g = []) : Sound (s.freeGhostInfo g) flight ∧
      ∀ x, (s.freeGhostInfo g).array.Allocated x ↔ x ≠ g ∧ s.array.Allocated x := by
  have hlast : s.lastUpdateChain g = none := by rw [h.ghosts.last, hflight, List.getLast?_nil]
  have hrelease := h.release hg hobj
  rwa [Flight.pop, ← hflight, Function.update_eq_self, forget, ← hlast, Function.update_eq_self]
    at hrelease

theorem Sound.addGhost (h : Sound s flight) (hg : ¬ s.array.Allocated g) (o : ℕ) :
    Sound (s.addGhost traits o g) flight ∧
      ∀ x, (s.addGhost traits o g).array.Allocated x ↔ x = g ∨ s.array.Allocated x := by
  obtain ⟨hmasked, hallocated⟩ :=
    h.masked.enter hg (show BitVec.allOnes 32 ≠ 0 by decide)
  have hobj : ∀ x, s.obj g ≠ some x := fun x hx => hg (h.ghosts.allocated_of_obj g x hx)
  have hflight := h.ghosts.unallocated g hg
  have hold : ∀ {x}, x ≠ g → (s.addGhost traits o g).array.Allocated x → s.array.Allocated x :=
    fun hx ha => ((hallocated _).mp ha).resolve_left hx
  refine ⟨⟨hmasked, { h.ghosts with
    list_iff := ?_, list_nodup := ?_, allocated_of_obj := ?_, unallocated := ?_, detached := ?_
    phase := ?_, last := ?_ }⟩, hallocated⟩
  · intro q x
    have hiff := h.ghosts.list_iff q x
    by_cases hx : x = g
    · subst hx
      by_cases hq : q = o
      · simp [GhostServer.addGhost, hq]
      · simp [GhostServer.addGhost, hq, Ne.symm hq, hiff, hobj]
    · by_cases hq : q = o
      · subst hq
        simpa [GhostServer.addGhost, hx] using hiff
      · simpa [GhostServer.addGhost, hq, hx] using hiff
  · intro q
    by_cases hq : q = o
    · subst hq
      have hnot : g ∉ s.mFirstObjectRef q := fun hin => hobj q ((h.ghosts.list_iff q g).mp hin)
      simpa [GhostServer.addGhost] using ⟨hnot, h.ghosts.list_nodup q⟩
    · simpa [GhostServer.addGhost, hq] using h.ghosts.list_nodup q
  · intro x q hx
    refine (hallocated x).mpr ?_
    by_cases hxg : x = g
    · exact .inl hxg
    · rw [GhostServer.addGhost] at hx
      dsimp only at hx
      rw [Function.update_of_ne hxg] at hx
      exact .inr (h.ghosts.allocated_of_obj x q hx)
  · intro x hx
    exact h.ghosts.unallocated x (fun ha => hx ((hallocated x).mpr (.inr ha)))
  · intro x hx
    by_cases hxg : x = g
    · simp [GhostServer.addGhost, hxg]
    · simpa [GhostServer.addGhost, hxg] using h.ghosts.detached x (hold hxg hx)
  · intro x hx
    by_cases hxg : x = g
    · subst hxg
      rw [hflight]
      exact .notYetGhosted (by simp [GhostServer.addGhost]) (by simp [GhostServer.addGhost])
        (by simp [GhostServer.addGhost])
    · simpa [GhostServer.addGhost, hxg] using h.ghosts.phase x (hold hxg hx)
  · intro x
    by_cases hxg : x = g
    · subst hxg
      simp [GhostServer.addGhost, hflight]
    · simpa [GhostServer.addGhost, hxg] using h.ghosts.last x

theorem Sound.reorder (h : Sound s flight) {order : List Ghost}
    (horder : order.Perm s.array.pending) :
    Sound { s with array := s.array.reorder order } flight := by
  obtain ⟨hmasked, hallocated⟩ := h.masked.reorder horder
  exact ⟨hmasked, hallocated ▸ { h.ghosts with }⟩

end records

end GhostServer

end TNL
