import TNL.Ghost.References
import Mathlib.Logic.Relation

/-!
# Moves

Every operation of a ghosting server is a sequence of moves, each of which
concerns one ghost. The moves carry the references in flight along, so that an
invariant of the ghosts is proved for each move and holds for every operation.
-/
namespace TNL.GhostServer
open GhostArray

/-- What the moves of an operation may do: which references they take away, which bits they clear,
whether they release ghosts whose references are in flight, and whether they change the queue of
notifies and the objects. -/
structure Causes where
  received : ℕ → Prop
  dropped : ℕ → Prop
  cleared : Ghost → Mask → Prop
  released : Prop
  queued : Prop
  dirtied : Prop

namespace Causes

def none : Causes := ⟨fun _ => False, fun _ => False, fun _ _ => False, False, False, False⟩

/-- What is permitted by the first is permitted by the second. -/
structure Le (causes causes' : Causes) : Prop where
  received : ∀ r, causes.received r → causes'.received r
  dropped : ∀ r, causes.dropped r → causes'.dropped r
  cleared : ∀ g bits, causes.cleared g bits → causes'.cleared g bits
  released : causes.released → causes'.released
  queued : causes.queued → causes'.queued
  dirtied : causes.dirtied → causes'.dirtied

theorem none_le (causes : Causes) : Le none causes := by
  constructor <;> simp [none]

end Causes

/-- What can happen to a server and its references in flight. -/
inductive Move (traits : ObjectTraits) (causes : Causes) :
    GhostServer × Flight → GhostServer × Flight → Prop where
  | session (s : GhostServer) (flight : Flight) (mGhosting : Bool) :
      Move traits causes (s, flight) ({ s with mGhosting := mGhosting }, flight)
  | leave (hreleased : causes.released) (s : GhostServer) (flight : Flight) :
      Move traits causes (s, flight) ({ s with mGhosting := false, mScoping := false }, flight)
  | queue (hqueued : causes.queued) (s : GhostServer) (flight : Flight)
      (notifyQueue : List GhostPacket) :
      Move traits causes (s, flight) ({ s with notifyQueue := notifyQueue }, flight)
  | objects (hdirtied : causes.dirtied) (s : GhostServer) (flight : Flight) (alive : ℕ → Bool)
      (mDirtyMaskBits : ℕ → Mask) (mDirtyList : List ℕ) : Move traits causes (s, flight)
      ({ s with alive := alive, mDirtyMaskBits := mDirtyMaskBits, mDirtyList := mDirtyList }, flight)
  | scope (s : GhostServer) (flight : Flight) (g : Ghost) (inScope scopeLocalAlways : Bool) :
      Move traits causes (s, flight) (s.setFlags g fun f =>
        { f with inScope := inScope, scopeLocalAlways := scopeLocalAlways }, flight)
  | reorder {s : GhostServer} {order : List Ghost} (horder : order.Perm s.array.pending)
      (flight : Flight) :
      Move traits causes (s, flight) ({ s with array := s.array.reorder order }, flight)
  | reset {s : GhostServer} (hfree : s.array.mGhostFreeIndex = 0) (flight : Flight) :
      Move traits causes (s, flight) (s.activateGhosting, flight)
  | addGhost {s : GhostServer} {g : Ghost} (hscoping : s.mScoping = true)
      (hg : ¬ s.array.Allocated g) (o : ℕ) (flight : Flight) :
      Move traits causes (s, flight) (s.addGhost traits o g, flight)
  | addMask {s : GhostServer} {g : Ghost} {bits : Mask} (hg : s.array.Allocated g)
      (hbits : bits ≠ 0) (flight : Flight) :
      Move traits causes (s, flight) (s.addMask g bits, flight)
  | clearMask {s : GhostServer} {g : Ghost} {bits : Mask} (hcleared : causes.cleared g bits)
      (hbits : s.updateMask g ≠ 0 → s.updateMask g ≠ bits → s.updateMask g &&& ~~~bits ≠ 0)
      (flight : Flight) : Move traits causes (s, flight) (s.clearMask bits g, flight)
  | detach {s : GhostServer} {g : Ghost} (hg : s.array.Allocated g) (flight : Flight) :
      Move traits causes (s, flight) (s.detachObject traits g, flight)
  | free {s : GhostServer} {g : Ghost} {flight : Flight} (hg : s.array.Allocated g)
      (hobj : s.obj g = none) (hnot : (s.flags g).notYetGhosted = true) :
      Move traits causes (s, flight) (s.freeGhostInfo g, flight)
  | release {s : GhostServer} {g : Ghost} {flight : Flight} (hreleased : causes.released)
      (hg : s.array.Allocated g) (hobj : s.obj g = none) :
      Move traits causes (s, flight) ((s.forget g).freeGhostInfo g, flight.pop g [])
  | write {s : GhostServer} {g : Ghost} (hp : s.array.Pending g)
      (hkilling : (s.flags g).killingGhost = false) (hghosting : (s.flags g).ghosting = false)
      (hunsent : ¬ ((s.flags g).killGhost = true ∧ (s.flags g).notYetGhosted = true))
      (leftOver : Mask) (flight : Flight) :
      Move traits causes (s, flight) (s.writeRecord g leftOver, flight.push g s.nextRef)
  | dropped {s : GhostServer} {g : Ghost} {flight : Flight} {r : ℕ} {rs : List ℕ}
      (hdropped : causes.dropped r) (hflight : flight g = r :: rs) :
      Move traits causes (s, flight) (s.refDropped r, flight.pop g rs)
  | received {s : GhostServer} {g : Ghost} {flight : Flight} {r : ℕ} {rs : List ℕ}
      (hreceived : causes.received r) (hflight : flight g = r :: rs) :
      Move traits causes (s, flight) (s.refReceived r, flight.pop g rs)

/-- A sequence of moves. -/
abbrev Moves (traits : ObjectTraits) (causes : Causes) :
    GhostServer × Flight → GhostServer × Flight → Prop :=
  Relation.ReflTransGen (Move traits causes)

variable {traits : ObjectTraits} {causes : Causes} {s s' : GhostServer} {flight flight' : Flight}
  {p q : GhostServer × Flight} {g : Ghost} {r : ℕ} {rs : List ℕ}

theorem Phase.nil_of_notYetGhosted {f : GhostFlags} {ks : List GhostInfoFlags} (h : Phase f ks)
    (hnot : f.notYetGhosted = true) : ks = [] := by
  cases h with
  | notYetGhosted _ _ _ => rfl
  | ghosting hsent _ _ => rw [hnot] at hsent; cases hsent
  | live hsent _ _ _ => rw [hnot] at hsent; cases hsent
  | killing hsent _ _ _ => rw [hnot] at hsent; cases hsent

theorem Sound.flight_of_notYetGhosted (h : Sound s flight) (hg : s.array.Allocated g)
    (hnot : (s.flags g).notYetGhosted = true) : flight g = [] :=
  List.map_eq_nil_iff.mp ((h.ghosts.phase g hg).nil_of_notYetGhosted hnot)

/-- Without ghosts the array may be reset. -/
theorem Sound.reset (h : Sound s flight) (hfree : s.array.mGhostFreeIndex = 0) :
    Sound s.activateGhosting flight := by
  have hzero : s.array.mGhostZeroUpdateIndex = 0 :=
    Nat.le_zero.mp (h.masked.valid.zero_le.trans hfree.le)
  have hnone : s.activateGhosting.array.Allocated = s.array.Allocated := by
    funext g
    simp [Allocated, GhostServer.activateGhosting, hfree]
  refine ⟨⟨⟨GhostArray.new_valid.indexed, h.masked.valid.zero_le, h.masked.valid.free_le⟩, ?_⟩, ?_⟩
  · intro g
    have hold := h.masked.pending_iff g
    simp only [Pending, hzero, Nat.not_lt_zero, false_iff] at hold
    simpa [Pending, GhostServer.activateGhosting, hzero] using hold
  · exact hnone ▸ { h.ghosts with }

/-- The invariant is preserved by every move. -/
theorem Move.sound (m : Move traits causes p q) (h : Sound p.1 p.2) : Sound q.1 q.2 := by
  cases m with
  | session => exact ⟨h.masked, { h.ghosts with }⟩
  | leave => exact ⟨h.masked, { h.ghosts with }⟩
  | queue => exact ⟨h.masked, { h.ghosts with }⟩
  | objects => exact ⟨h.masked, { h.ghosts with }⟩
  | scope s flight g inScope scopeLocalAlways =>
    dsimp only at h ⊢
    apply h.setFlags <;> rfl
  | reorder horder flight => exact h.reorder horder
  | reset hfree flight => exact h.reset hfree
  | addGhost hscoping hg o flight => exact (h.addGhost hg o).1
  | addMask hg hbits flight => exact h.addMask hg hbits
  | clearMask hcleared hbits flight => exact h.clearMask hbits
  | detach hg flight => exact h.detachObject hg
  | free hg hobj hnot => exact (h.freeGhostInfo hg hobj (h.flight_of_notYetGhosted hg hnot)).1
  | release hreleased hg hobj => exact (h.release hg hobj).1
  | write hp hkilling hghosting hunsent leftOver flight =>
    exact (h.writeRecord hp hkilling hghosting hunsent leftOver).1
  | dropped hdropped hflight => exact (h.refDropped hflight).1
  | received hreceived hflight => exact h.refReceived hflight

theorem Moves.sound (m : Moves traits causes p q) (h : Sound p.1 p.2) : Sound q.1 q.2 := by
  induction m with
  | refl => exact h
  | tail _ last ih => exact last.sound ih

theorem Moves.mono {causes' : Causes} (hle : causes.Le causes') (m : Moves traits causes p q) :
    Moves traits causes' p q := by
  refine Relation.ReflTransGen.mono (fun p q m => ?_) _ _ m
  cases m with
  | session s flight mGhosting => exact .session s flight mGhosting
  | leave hreleased s flight => exact .leave (hle.released hreleased) s flight
  | queue hqueued s flight notifyQueue => exact .queue (hle.queued hqueued) s flight notifyQueue
  | objects hdirtied s flight alive mDirtyMaskBits mDirtyList =>
    exact .objects (hle.dirtied hdirtied) s flight alive mDirtyMaskBits mDirtyList
  | scope s flight g inScope scopeLocalAlways => exact .scope s flight g inScope scopeLocalAlways
  | reorder horder flight => exact .reorder horder flight
  | reset hfree flight => exact .reset hfree flight
  | addGhost hscoping hg o flight => exact .addGhost hscoping hg o flight
  | addMask hg hbits flight => exact .addMask hg hbits flight
  | clearMask hcleared hbits flight => exact .clearMask (hle.cleared _ _ hcleared) hbits flight
  | detach hg flight => exact .detach hg flight
  | free hg hobj hnot => exact .free hg hobj hnot
  | release hreleased hg hobj => exact .release (hle.released hreleased) hg hobj
  | write hp hkilling hghosting hunsent leftOver flight =>
    exact .write hp hkilling hghosting hunsent leftOver flight
  | dropped hdropped hflight => exact .dropped (hle.dropped _ hdropped) hflight
  | received hreceived hflight => exact .received (hle.received _ hreceived) hflight

section kept

/-- A reference without its place in the chain. -/
def unlinked (ref : GhostRef) : GhostRef := { ref with updateChain := .none }

/-- What moves leave as it is. -/
structure Kept (causes : Causes) (s t : GhostServer) : Prop where
  notifyQueue : ¬ causes.queued → t.notifyQueue = s.notifyQueue
  objects : ¬ causes.dirtied →
    t.mDirtyMaskBits = s.mDirtyMaskBits ∧ t.mDirtyList = s.mDirtyList ∧ t.alive = s.alive
  nextRef_le : s.nextRef ≤ t.nextRef
  refs : ∀ r < s.nextRef, unlinked (t.refs r) = unlinked (s.refs r)

theorem Kept.trans {s t u : GhostServer} (h : Kept causes s t) (h' : Kept causes t u) :
    Kept causes s u where
  notifyQueue hqueued := (h'.notifyQueue hqueued).trans (h.notifyQueue hqueued)
  objects hdirtied := by
    obtain ⟨hbits, hlist, halive⟩ := h.objects hdirtied
    obtain ⟨hbits', hlist', halive'⟩ := h'.objects hdirtied
    exact ⟨hbits'.trans hbits, hlist'.trans hlist, halive'.trans halive⟩
  nextRef_le := h.nextRef_le.trans h'.nextRef_le
  refs r hr := (h'.refs r (hr.trans_le h.nextRef_le)).trans (h.refs r hr)

/-- Only the ghosts change. -/
theorem Kept.of_ghosts (causes : Causes) (s : GhostServer) (obj : Ghost → Option ℕ)
    (updateMask : Ghost → Mask) (lastUpdateChain : Ghost → Option ℕ) (flags : Ghost → GhostFlags)
    (array : GhostArray) (mGhostLookupTable : ℕ → List Ghost) (mScoping mGhosting : Bool)
    (mFirstObjectRef : ℕ → List Ghost) : Kept causes s { s with
      obj := obj, updateMask := updateMask, lastUpdateChain := lastUpdateChain, flags := flags
      array := array, mGhostLookupTable := mGhostLookupTable, mScoping := mScoping
      mGhosting := mGhosting, mFirstObjectRef := mFirstObjectRef } :=
  ⟨fun _ => rfl, fun _ => ⟨rfl, rfl, rfl⟩, le_rfl, fun _ _ => rfl⟩

theorem Kept.refl (causes : Causes) (s : GhostServer) : Kept causes s s := .of_ghosts ..

theorem setFlags_kept (g : Ghost) (f : GhostFlags → GhostFlags) :
    Kept causes s (s.setFlags g f) := .of_ghosts ..

theorem addMask_kept (g : Ghost) (bits : Mask) : Kept causes s (s.addMask g bits) := by
  rw [addMask_eq]
  exact .of_ghosts ..

theorem detachObject_kept (g : Ghost) : Kept causes s (s.detachObject traits g) := by
  obtain ⟨table, heq⟩ := detachObject_eq traits s g
  rw [heq]
  exact .of_ghosts ..

theorem freeGhostInfo_kept (g : Ghost) : Kept causes s (s.freeGhostInfo g) := by
  unfold freeGhostInfo
  split <;> exact .of_ghosts ..

theorem unchain_kept (r : ℕ) : Kept causes s (s.unchain r) := by
  unfold unchain
  dsimp only
  split
  · exact .of_ghosts ..
  · exact .refl ..

theorem refDropped_kept (r : ℕ) : Kept causes s (s.refDropped r) := by
  unfold refDropped
  dsimp only
  set bits := uncarried s.refs s.nextRef (s.refs r).updateChain (s.refs r).mask
  have hmask : Kept causes s (if bits = 0 then s else s.addMask (s.refs r).ghost bits) := by
    split
    · exact .refl ..
    · exact addMask_kept ..
  have hchain := hmask.trans (unchain_kept r)
  split
  · exact hchain.trans (setFlags_kept ..)
  · exact hchain.trans (setFlags_kept ..)
  · exact hchain

theorem refReceived_kept (r : ℕ) : Kept causes s (s.refReceived r) := by
  unfold refReceived
  dsimp only
  split
  · exact (unchain_kept r).trans (setFlags_kept ..)
  · exact (unchain_kept r).trans (freeGhostInfo_kept _)
  · exact unchain_kept r

theorem writeRecord_kept (g : Ghost) (leftOver : Mask) :
    Kept causes s (s.writeRecord g leftOver) := by
  rw [writeRecord_eq]
  refine ⟨fun _ => rfl, fun _ => ⟨rfl, rfl, rfl⟩, Nat.le_succ _, fun r hr => ?_⟩
  dsimp only
  rw [linked_old s g _ hr.ne]
  rfl

theorem Move.kept (m : Move traits causes p q) : Kept causes p.1 q.1 := by
  cases m with
  | session s flight mGhosting => exact .of_ghosts ..
  | leave hreleased s flight => exact .of_ghosts ..
  | queue hqueued s flight notifyQueue =>
    exact ⟨fun hnot => absurd hqueued hnot, fun _ => ⟨rfl, rfl, rfl⟩, le_rfl, fun _ _ => rfl⟩
  | objects hdirtied s flight alive mDirtyMaskBits mDirtyList =>
    exact ⟨fun _ => rfl, fun hnot => absurd hdirtied hnot, le_rfl, fun _ _ => rfl⟩
  | scope s flight g inScope scopeLocalAlways =>
    dsimp only
    exact setFlags_kept ..
  | reorder horder flight => exact .of_ghosts ..
  | reset hfree flight => exact .of_ghosts ..
  | addGhost hscoping hg o flight => exact .of_ghosts ..
  | addMask hg hbits flight => exact addMask_kept ..
  | clearMask hcleared hbits flight =>
    dsimp only
    unfold GhostServer.clearMask
    split <;> exact .of_ghosts ..
  | detach hg flight => exact detachObject_kept _
  | free hg hobj hnot => exact freeGhostInfo_kept _
  | release hreleased hg hobj => exact Kept.trans (.of_ghosts ..) (freeGhostInfo_kept _)
  | write hp hkilling hghosting hunsent leftOver flight => exact writeRecord_kept ..
  | dropped hdropped hflight => exact refDropped_kept _
  | received hreceived hflight => exact refReceived_kept _

theorem Moves.kept (m : Moves traits causes p q) : Kept causes p.1 q.1 := by
  induction m with
  | refl => exact .refl ..
  | tail _ last ih => exact ih.trans last.kept

end kept

end TNL.GhostServer
