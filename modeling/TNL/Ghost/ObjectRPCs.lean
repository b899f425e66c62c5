import TNL.Ghost.LifetimeAgreement

/-!
# RPCs on objects

A `NetObjectRPCEvent` carries the ghost index that its object has when it is
packed. The server packs an index only while the client is known to have the
ghost, and it keeps the record of a ghost that a client's packet shows until it
has read the packet.
-/
namespace TNL.GhostLink
open Library
open GhostServer (Matched)

variable {traits : ObjectTraits} {l m : GhostLink} {index : ℕ}

/-- Object RPCs of the client are unpacked in the session in which they were packed. -/
def AddressesSession (l : GhostLink) : Action → Prop
  | .deliverToServer index => ∀ p, l.toServer.deliverable index = some p →
    p.payload.rpcs ≠ [] → p.payload.processed = l.toClient.posted.length
  | a => l.KeepsLifetimes a

theorem AddressesSession.keepsLifetimes {a : Action} (h : l.AddressesSession a) :
    l.KeepsLifetimes a := by
  cases a with
  | deliverToServer => trivial
  | _ => exact h

/-- Each object RPC was resolved to the object that it is about or to none. -/
def Addressed (l : GhostLink) : Prop :=
  ∀ e ∈ l.unpacked, e.2 = none ∨ e.2 = e.1.object

theorem deliverToClient_addressed (h : l.LifetimeSound) (ha : l.Addressed) (index : ℕ) :
    (l.deliverToClient index).Addressed := by
  cases hp : l.toClient.deliverable index with
  | none =>
    rw [deliverToClient, hp]
    exact ha
  | some p =>
    obtain ⟨hindex, hget⟩ := Channel.deliverable_iff.mp hp
    obtain ⟨answers, heq⟩ := deliverToClient_eq hp
    obtain ⟨hknown, hahead⟩ := h.upToArrival_known hindex
    rw [heq]
    intro e he
    rcases List.mem_append.mp he with hold | hnew
    · exact ha e hold
    · obtain ⟨rpc, hrpc, rfl⟩ := List.mem_map.mp hnew
      cases hid : rpc.ghostIndex with
      | none => exact .inl rfl
      | some id =>
        have hresolved := h.readable.addressed _ hknown index p hindex hget rpc hrpc id hid
        rw [hahead] at hresolved
        exact .inr hresolved

/-- The record with an index that a client's packet shows is still the object's, or no one's. -/
theorem resolveGhostParent_matched {s : GhostServer} {arrives : ℕ → Bool}
    {table : ℕ → Option LocalGhost} {id : ℕ} (hm : Matched arrives s s.inFlight table)
    (hid : table id ≠ none) : s.resolveGhostParent id = none ∨
      s.resolveGhostParent id = (table id).bind LocalGhost.object := by
  obtain ⟨x, hx⟩ := Option.ne_none_iff_exists'.mp hid
  have hlt := hm.bounded id x hx
  set g : Ghost := ⟨id, hlt⟩ with hg
  have hplace : GhostArray.new.mGhostArray id = g := Fin.ext (Nat.mod_eq_of_lt hlt)
  have hallocated : s.array.Allocated g := by
    by_contra hnot
    have hnone := hm.unallocated g hnot
    rw [hg, hx] at hnone
    cases hnone
  obtain ⟨o, ho⟩ := hm.allocated g hallocated
  have hentry := ho.entry
  rw [show table g.val = some x from hx] at hentry
  split_ifs at hentry with hpresent
  · have hobject : x.object = some o := Option.some.inj hentry
    rw [GhostServer.resolveGhostParent, hplace, hx]
    cases hobj : s.obj g with
    | none => exact .inl rfl
    | some o' => exact .inr (by rw [ho.owner o' hobj]; exact hobject.symm)
  · cases hentry

theorem deliverToServer_addressed (h : l.LifetimeSound) (ha : l.Addressed)
    (hguard : l.AddressesSession (.deliverToServer index))
    (hstep : l.deliverToServer index = some m) : m.Addressed := by
  rw [deliverToServer] at hstep
  cases hp : l.toServer.deliverable index with
  | none =>
    rw [hp, Option.some.injEq] at hstep
    exact hstep ▸ ha
  | some p =>
    simp only [hp, Option.map_eq_some_iff] at hstep
    obtain ⟨s, hnotify, rfl⟩ := hstep
    obtain ⟨hindex, hget⟩ := Channel.deliverable_iff.mp hp
    rw [foldl_ready]
    intro e he
    rcases List.mem_append.mp he with hold | hnew
    · exact ha e hold
    · obtain ⟨rpc, hrpc, rfl⟩ := List.mem_map.mp hnew
      cases hid : rpc.ghostIndex with
      | none => exact .inl rfl
      | some id =>
        obtain ⟨table, arrives, hshows, hfated, hmatched⟩ := h.agreed.shown index p hindex hget
          (hguard p hp (List.ne_nil_of_mem hrpc))
        obtain ⟨-, -, _, -, hmatched'⟩ := h.notified_matched hmatched hfated
          (fun i b hb => by rw [told, hb, Option.getD_some]) hnotify
        obtain ⟨hsome, hobject⟩ := hshows rpc hrpc id hid
        rw [Option.bind_some, ← hobject]
        exact resolveGhostParent_matched hmatched' hsome

theorem step_addressed {a : Action} (h : l.LifetimeSound) (ha : l.Addressed)
    (hguard : l.AddressesSession a) (hstep : l.step traits a = some m) : m.Addressed := by
  cases a with
  | call a =>
    simp only [step, Option.ite_none_right_eq_some, Option.map_eq_some_iff] at hstep
    obtain ⟨-, s, -, rfl⟩ := hstep
    exact ha
  | activateGhosting =>
    obtain rfl := Option.some.inj hstep
    exact ha
  | resetGhosting =>
    have hsame : m.unpacked = l.unpacked := by
      rw [← Option.some.inj hstep, GhostLink.resetGhosting]
    exact fun e he => ha e (hsame ▸ he)
  | writePacket =>
    obtain ⟨s, note, -, -, rfl⟩ := write_eq hstep
    exact ha
  | clientWritePacket =>
    obtain ⟨c, -, rfl⟩ := Option.map_eq_some_iff.mp hstep
    exact ha
  | deliverToClient index =>
    obtain rfl := Option.some.inj hstep
    exact deliverToClient_addressed h ha index
  | deliverToServer index => exact deliverToServer_addressed h ha hguard hstep

/-- In every run in which the server unpacks the client's object RPCs in the session in which they
were packed, each object RPC reaches the object it is about or none, whatever is lost and however
indices are reused. -/
theorem object_rpcs_addressed {alive : ℕ → Bool} {as : List Action}
    (run : Run (step traits) AddressesSession (start alive) as l) : l.Addressed :=
  run.invariant_along (J := LifetimeSound)
    (fun _ _ _ h hguard hstep => step_lifetimeSound h hguard.keepsLifetimes hstep)
    (fun _ _ _ h ha hguard hstep => step_addressed h ha hguard hstep)
    (start_lifetimeSound alive) fun _ he => absurd he List.not_mem_nil

/-- A check for runs without `clearMaskBits`. -/
def addressesSession (l : GhostLink) : Action → Bool
  | .call (.clearMaskBits _ _) => false
  | .activateGhosting => !l.server.mGhosting && decide (l.mGhostingSequence.toNat + 1 < 2 ^ 32) &&
    l.server.array.mGhostFreeIndex == 0
  | .resetGhosting => decide (l.mGhostingSequence.toNat + 1 < 2 ^ 32)
  | .deliverToServer index => (l.toServer.deliverable index).all fun p =>
    p.payload.rpcs.isEmpty || p.payload.processed == l.toClient.posted.length
  | _ => true

theorem addressesSession_sound (l : GhostLink) (a : Action) (h : l.addressesSession a = true) :
    l.AddressesSession a := by
  cases a with
  | call a =>
    cases a with
    | clearMaskBits => cases h
    | _ => trivial
  | activateGhosting =>
    simp only [addressesSession, Bool.and_eq_true, Bool.not_eq_true', decide_eq_true_eq,
      beq_iff_eq] at h
    exact h
  | resetGhosting =>
    have hwrap : l.mGhostingSequence.toNat + 1 < 2 ^ 32 := of_decide_eq_true h
    exact hwrap
  | deliverToServer index =>
    intro p hp hrpcs
    rw [addressesSession, hp, Option.all_some, Bool.or_eq_true, beq_iff_eq] at h
    exact h.resolve_left fun hempty => hrpcs (List.isEmpty_iff.mp hempty)
  | _ => trivial

/-- One object RPC in each direction. -/
def bothWays : List Action :=
  .activateGhosting :: (handOver ++ ghostOne ++ settle ++ [.writePacket true [] [] [] [0],
    .deliverToClient 2, .clientWritePacket [] [0], .deliverToServer 2])

theorem object_rpcs_addressed_both : ∃ l : GhostLink,
    l.unpacked = [(⟨some 0, some 0⟩, some 0), (⟨some 0, some 0⟩, some 0)] ∧ l.Addressed := by
  have hreached : (exec (step .plain) (start fun _ => true) bothWays).map (fun l => l.unpacked) =
      some [(⟨some 0, some 0⟩, some 0), (⟨some 0, some 0⟩, some 0)] := by decide +kernel
  have hchecked : checked (step .plain) addressesSession (start fun _ => true) bothWays = true := by
    decide +kernel
  obtain ⟨l, hexec, hunpacked⟩ := Option.map_eq_some_iff.mp hreached
  exact ⟨l, hunpacked, object_rpcs_addressed (.of_checked addressesSession_sound hchecked hexec)⟩

end TNL.GhostLink
