import TNL.Ghost.Moves
import TNL.Library.Run

/-!
# Operations as moves

Each operation of a ghosting server is a sequence of moves from the references
in its queue of notifies to those in the queue it leaves.
-/
namespace TNL.GhostServer
open GhostArray

/-- The references in the notifies of the packets in flight, from the oldest packet on. -/
def inFlight (s : GhostServer) : Flight := fun g =>
  (s.notifyQueue.flatMap GhostPacket.ghostList).filter fun r => (s.refs r).ghost = g

variable {traits : ObjectTraits} {causes : Causes} {s s' : GhostServer} {flight : Flight} {g : Ghost}

theorem Moves.one {p q : GhostServer × Flight} (m : Move traits causes p q) :
    Moves traits causes p q := .single m

theorem Moves.trans {p q w : GhostServer × Flight} (m : Moves traits causes p q)
    (m' : Moves traits causes q w) : Moves traits causes p w :=
  Relation.ReflTransGen.trans m m'

theorem setFlags_moves (g : Ghost) (inScope scopeLocalAlways : Bool) :
    Moves traits causes (s, flight) (s.setFlags g fun f =>
      { f with inScope := inScope, scopeLocalAlways := scopeLocalAlways }, flight) :=
  .one (.scope ..)

section scope

theorem objectInScope_moves (traits : ObjectTraits) (causes : Causes) (h : Sound s flight) (o : ℕ) :
    Moves traits causes (s, flight) (s.objectInScope traits o, flight) := by
  unfold objectInScope
  split
  · exact .refl
  · rename_i hscoping
    split
    · exact .refl
    · split
      · rename_i walk hlookup
        exact setFlags_moves walk true (s.flags walk).scopeLocalAlways
      · split
        · exact .refl
        · rename_i hroom
          have hlt : s.array.mGhostFreeIndex < maxGhostCount :=
            lt_of_le_of_ne h.masked.valid.free_le hroom
          refine .one (.addGhost (by simpa using hscoping) ?_ o flight)
          rw [Allocated, h.masked.valid.indexed.pos_arr _ hlt]
          exact lt_irrefl _

theorem objectLocalScopeAlways_moves (h : Sound s flight) (o : ℕ) :
    Moves traits causes (s, flight) (s.objectLocalScopeAlways traits o, flight) := by
  have hscope := objectInScope_moves traits causes h o
  unfold objectLocalScopeAlways
  dsimp only
  split
  · exact hscope.trans (setFlags_moves _ _ true)
  · exact hscope

theorem objectLocalClearAlways_moves (o : ℕ) :
    Moves traits causes (s, flight) (s.objectLocalClearAlways traits o, flight) := by
  unfold objectLocalClearAlways
  split
  · exact setFlags_moves _ _ false
  · exact .refl

theorem prepareWritePacket_moves :
    Moves traits causes (s, flight) (s.prepareWritePacket, flight) := by
  unfold prepareWritePacket
  generalize s.array.pending = ghosts
  induction ghosts generalizing s with
  | nil => exact .refl
  | cons walk ghosts ih =>
    refine Relation.ReflTransGen.trans ?_ ih
    dsimp only
    split
    · exact .refl
    · exact setFlags_moves walk false (s.flags walk).scopeLocalAlways

end scope

section write

theorem Sound.pending_place (h : Sound s flight) {i : ℕ}
    (hi : i < s.array.mGhostZeroUpdateIndex) :
    s.array.arrayIndex (s.array.mGhostArray i) = i ∧ s.array.Pending (s.array.mGhostArray i) := by
  have hplace : s.array.arrayIndex (s.array.mGhostArray i) = i :=
    h.masked.valid.indexed.pos_arr i
      (hi.trans_le (h.masked.valid.zero_le.trans h.masked.valid.free_le))
  refine ⟨hplace, ?_⟩
  rw [Pending, hplace]
  exact hi

/-- A pending ghost stays where it is when it is detached. -/
theorem Sound.detach_array (h : Sound s flight) (hp : s.array.Pending g) :
    (s.detachObject traits g).array = s.array := by
  obtain ⟨table, heq⟩ := detachObject_eq traits s g
  rw [heq]
  dsimp only
  rw [if_neg ((h.masked.pending_iff g).mp hp)]

theorem detachOutOfScope_moves (traits : ObjectTraits) (causes : Causes) (h : Sound s flight) {i : ℕ}
    (hi : i ≤ s.array.mGhostZeroUpdateIndex) :
    Moves traits causes (s, flight) (detachOutOfScope traits i s, flight) := by
  induction i generalizing s with
  | zero => exact .refl
  | succ i ih =>
    rw [detachOutOfScope]
    split
    · exact ih h (Nat.le_of_succ_le hi)
    · have hp := (h.pending_place hi).2
      have hg := h.masked.valid.allocated_of_pending hp
      have hdetach : Move traits causes (s, flight)
          (s.detachObject traits (s.array.mGhostArray i), flight) := .detach hg flight
      refine (Moves.one hdetach).trans (ih (hdetach.sound h) ?_)
      rw [h.detach_array hp]
      exact Nat.le_of_succ_le hi

theorem freeGhostInfo_of_pending (hp : s.array.Pending g) : s.freeGhostInfo g = { s with
    updateMask := Function.update s.updateMask g 0
    array := (s.array.ghostPushToZero g).ghostPushZeroToFree g } := by
  have hlt : s.array.arrayIndex g < s.array.mGhostZeroUpdateIndex := hp
  unfold freeGhostInfo
  rw [if_pos hlt]

/-- The ghosts before a pending ghost stay where they are when it is freed. -/
theorem Sound.free_keeps (h : Sound s flight) (hp : s.array.Pending g) :
    (s.freeGhostInfo g).array.mGhostZeroUpdateIndex = s.array.mGhostZeroUpdateIndex - 1 ∧
      ∀ x, s.array.arrayIndex x < s.array.arrayIndex g →
        (s.freeGhostInfo g).array.arrayIndex x = s.array.arrayIndex x := by
  have hvalid := h.masked.valid
  obtain ⟨hvalid', _, hallocated'⟩ := ghostPushToZero_valid hvalid hp
  have hself := ghostPushToZero_self hvalid hp
  rw [freeGhostInfo_of_pending hp]
  refine ⟨exchange_zero _, fun x hx => ?_⟩
  have hkeep := ghostPushToZero_keeps hvalid hp hx
  rw [ghostPushZeroToFree_keeps hvalid' ((hallocated' g).mpr (hvalid.allocated_of_pending hp)) ?_,
    hkeep]
  unfold Pending at hp
  rw [hkeep, hself]
  omega

theorem freeGhostInfo_obj (s : GhostServer) (g : Ghost) : (s.freeGhostInfo g).obj = s.obj := by
  unfold freeGhostInfo
  split <;> rfl

theorem freeGhostInfo_flags (s : GhostServer) (g : Ghost) :
    (s.freeGhostInfo g).flags = s.flags := by
  unfold freeGhostInfo
  split <;> rfl

theorem Sound.free_pending (h : Sound s flight) (hp : s.array.Pending g) (hobj : s.obj g = none)
    (hflight : flight g = []) {x : Ghost} (hx : (s.freeGhostInfo g).array.Pending x) :
    x ≠ g ∧ s.array.Pending x := by
  have hg := h.masked.valid.allocated_of_pending hp
  have hmask : (s.freeGhostInfo g).updateMask = Function.update s.updateMask g 0 := by
    rw [freeGhostInfo_of_pending hp]
  have hnonzero := ((h.freeGhostInfo hg hobj hflight).1.masked.pending_iff x).mp hx
  rw [hmask] at hnonzero
  by_cases hxg : x = g
  · rw [hxg, Function.update_self] at hnonzero
    exact absurd rfl hnonzero
  · rw [Function.update_of_ne hxg] at hnonzero
    exact ⟨hxg, (h.masked.pending_iff x).mpr hnonzero⟩

/-- The ghost is not one that is to be deleted without ever having been sent. -/
def Sendable (s : GhostServer) (g : Ghost) : Prop :=
  ¬ ((s.flags g).killGhost = true ∧ (s.flags g).notYetGhosted = true)

/-- No ghost is left in the first segment that would be deleted without ever having been sent. -/
theorem freeUnsent_moves (traits : ObjectTraits) (causes : Causes) (h : Sound s flight) {i : ℕ} (maxIndex : ℕ)
    (hi : i ≤ s.array.mGhostZeroUpdateIndex)
    (hdone : ∀ x, s.array.Pending x → i ≤ s.array.arrayIndex x → s.Sendable x) :
    Moves traits causes (s, flight) ((freeUnsent i maxIndex s).2, flight) ∧
      ∀ x, (freeUnsent i maxIndex s).2.array.Pending x → (freeUnsent i maxIndex s).2.Sendable x := by
  induction i generalizing s maxIndex with
  | zero => exact ⟨.refl, fun x hx => hdone x hx (Nat.zero_le _)⟩
  | succ i ih =>
    obtain ⟨hplace, hp⟩ := h.pending_place hi
    have hg := h.masked.valid.allocated_of_pending hp
    rw [freeUnsent]
    generalize s.array.mGhostArray i = walk at hplace hp hg
    split
    · rename_i hkill
      rw [Bool.and_eq_true] at hkill
      have hobj := (h.ghosts.detached walk hg).mpr (.inl hkill.1)
      have hfree : Move traits causes (s, flight) (s.freeGhostInfo walk, flight) :=
        .free hg hobj hkill.2
      obtain ⟨hzero, hkeeps⟩ := h.free_keeps hp
      have hsound : Sound (s.freeGhostInfo walk) flight := hfree.sound h
      have hrest := ih hsound (max maxIndex walk.val) (by omega) ?_
      · exact ⟨(Moves.one hfree).trans hrest.1, hrest.2⟩
      · intro x hx hplace'
        obtain ⟨hne, hx⟩ := h.free_pending hp hobj (h.flight_of_notYetGhosted hg hkill.2) hx
        have hsendable : s.Sendable x := by
          refine hdone x hx ?_
          by_contra hlt
          have hne' : s.array.arrayIndex x ≠ s.array.arrayIndex walk := fun heq =>
            hne (h.masked.valid.indexed.pos_inj heq)
          have hkeep := hkeeps x (by omega)
          omega
        rwa [Sendable, freeGhostInfo_flags]
    · rename_i hkill
      refine ih h _ (Nat.le_of_succ_le hi) fun x hx hplace' => ?_
      rcases Nat.lt_or_ge i (s.array.arrayIndex x) with hlt | hge
      · exact hdone x hx hlt
      · have hx : x = walk :=
          h.masked.valid.indexed.pos_inj ((Nat.le_antisymm hge hplace').trans hplace.symm)
        rw [hx]
        simpa [Sendable] using hkill

/-- The ghosts before a pending ghost stay where they are when it is written. -/
theorem Sound.write_keeps (h : Sound s flight) (hp : s.array.Pending g) (leftOver : Mask) :
    s.array.arrayIndex g ≤ (s.writeRecord g leftOver).array.mGhostZeroUpdateIndex ∧
      ∀ x, s.array.arrayIndex x < s.array.arrayIndex g →
        (s.writeRecord g leftOver).array.arrayIndex x = s.array.arrayIndex x := by
  rw [writeRecord_eq]
  dsimp only
  split
  · refine ⟨?_, fun x hx => ghostPushToZero_keeps h.masked.valid hp hx⟩
    unfold Pending at hp
    rw [ghostPushToZero]
    dsimp only
    omega
  · exact ⟨hp.le, fun _ _ => rfl⟩

theorem writeRecord_flags {x : Ghost} (hx : x ≠ g) (leftOver : Mask) :
    (s.writeRecord g leftOver).flags x = s.flags x := by
  rw [writeRecord_eq]
  exact Function.update_of_ne hx ..

theorem writeRecord_ghost (leftOver : Mask) :
    ((s.writeRecord g leftOver).refs s.nextRef).ghost = g := by
  rw [writeRecord_eq]
  dsimp only
  rw [linked_new]

/-- The ghosts before a pending ghost that is written are still to be visited. -/
theorem Sound.write_next (h : Sound s flight) (hp : s.array.Pending g) {i : ℕ}
    (hplace : s.array.arrayIndex g = i) (hsend : ∀ x, s.array.arrayIndex x < i + 1 → s.Sendable x)
    (hkilling : (s.flags g).killingGhost = false) (hghosting : (s.flags g).ghosting = false)
    (leftOver : Mask) : i ≤ (s.writeRecord g leftOver).array.mGhostZeroUpdateIndex ∧
      (∀ x, (s.writeRecord g leftOver).array.arrayIndex x < i → s.array.arrayIndex x < i) ∧
      ∀ x, (s.writeRecord g leftOver).array.arrayIndex x < i →
        (s.writeRecord g leftOver).Sendable x := by
  have hsound := (h.writeRecord hp hkilling hghosting (hsend g (by omega)) leftOver).1
  obtain ⟨hzero, hkeeps⟩ := h.write_keeps hp leftOver
  rw [hplace] at hzero hkeeps
  have hback : ∀ x, (s.writeRecord g leftOver).array.arrayIndex x < i →
      s.array.arrayIndex x < i := by
    intro x hx
    rwa [h.masked.valid.indexed.pos_eq_of_keeps hsound.masked.valid.indexed hkeeps hx]
  refine ⟨hzero, hback, fun x hx => ?_⟩
  have hlt := hback x hx
  have hne : x ≠ g := by
    rintro rfl
    omega
  rw [Sendable, writeRecord_flags hne]
  exact hsend x (by omega)

/-- The references written into one packet are of different ghosts, so each comes after the older
ones of its ghost. -/
theorem writeRecords_moves (traits : ObjectTraits) (causes : Causes) (h : Sound s flight) {i : ℕ} (leftOver : List Mask)
    (updateList : List ℕ) (hi : i ≤ s.array.mGhostZeroUpdateIndex)
    (hsend : ∀ x, s.array.arrayIndex x < i → s.Sendable x) :
    ∃ (t : GhostServer) (new : List ℕ) (flight' : Flight),
      writeRecords i leftOver s updateList = (t, new ++ updateList) ∧
        Moves traits causes (s, flight) (t, flight') ∧
        (∀ r ∈ new, s.array.arrayIndex (t.refs r).ghost < i) ∧
        ∀ x, flight' x = flight x ++ new.filter fun r => (t.refs r).ghost = x := by
  induction i generalizing s flight leftOver updateList with
  | zero => exact ⟨s, [], flight, rfl, .refl, nofun, fun x => by simp⟩
  | succ i ih =>
    obtain ⟨hplace, hp⟩ := h.pending_place hi
    rw [writeRecords.eq_def]
    dsimp only
    generalize s.array.mGhostArray i = walk at hplace hp
    have hless : ∀ x, s.array.arrayIndex x < i → s.array.arrayIndex x < i + 1 := fun _ hx => by omega
    split
    · obtain ⟨t, new, flight', heq, hmoves, hnew, hflight⟩ := ih h leftOver updateList
        (Nat.le_of_succ_le hi) (fun x hx => hsend x (hless x hx))
      exact ⟨t, new, flight', heq, hmoves, fun r hr => hless _ (hnew r hr), hflight⟩
    · rename_i hidle
      rw [Bool.or_eq_true, not_or, Bool.not_eq_true, Bool.not_eq_true] at hidle
      cases leftOver with
      | nil => exact ⟨s, [], flight, rfl, .refl, nofun, fun x => by simp⟩
      | cons mask leftOver =>
        have hwrite : Move traits causes (s, flight)
            (s.writeRecord walk mask, flight.push walk s.nextRef) :=
          .write hp hidle.1 hidle.2 (hsend walk (by omega)) mask flight
        have hsound : Sound (s.writeRecord walk mask) (flight.push walk s.nextRef) :=
          hwrite.sound h
        obtain ⟨hzero, hback, hsend'⟩ := h.write_next hp hplace hsend hidle.1 hidle.2 mask
        obtain ⟨t, new, flight', heq, hmoves, hnew, hflight⟩ :=
          ih hsound leftOver (s.nextRef :: updateList) hzero hsend'
        have hghost : (t.refs s.nextRef).ghost = walk := by
          have hkept := hmoves.kept.refs s.nextRef (by rw [writeRecord_eq]; exact Nat.lt_succ_self _)
          exact (congrArg GhostRef.ghost hkept).trans (writeRecord_ghost mask)
        refine ⟨t, new ++ [s.nextRef], flight', by simpa using heq,
          (Moves.one hwrite).trans hmoves, ?_, ?_⟩
        · intro r hr
          rcases List.mem_append.mp hr with hr | hr
          · exact hless _ (hback _ (hnew r hr))
          · rw [List.mem_singleton.mp hr, hghost, hplace]
            exact Nat.lt_succ_self i
        · intro x
          rw [hflight, List.filter_append]
          by_cases hx : x = walk
          · have hnone : (new.filter fun r => (t.refs r).ghost = x) = [] := by
              rw [List.filter_eq_nil_iff]
              intro r hr heq'
              have hlt := hback _ (hnew r hr)
              rw [of_decide_eq_true heq', hx, hplace] at hlt
              exact lt_irrefl i hlt
            rw [hnone]
            simp [hx, hghost, Flight.push]
          · simp [Flight.push, hx, hghost, Ne.symm hx]

theorem Kept.ghost_eq {t : GhostServer} (h : Kept causes s t) {r : ℕ} (hr : r < s.nextRef) :
    (t.refs r).ghost = (s.refs r).ghost :=
  have hsame := congrArg GhostRef.ghost (h.refs r hr)
  hsame

theorem Sound.queued_lt (h : Sound s s.inFlight) {r : ℕ}
    (hr : r ∈ s.notifyQueue.flatMap GhostPacket.ghostList) : r < s.nextRef :=
  (h.ghosts.owned (s.refs r).ghost r (List.mem_filter.mpr ⟨hr, decide_eq_true rfl⟩)).2

/-- The notifies of the packets in the queue are of the same ghosts as before. -/
theorem Sound.filter_queue (h : Sound s s.inFlight) {t : GhostServer} (hkept : Kept causes s t)
    {notes : List GhostPacket} (hnotes : notes ⊆ s.notifyQueue) (x : Ghost) :
    ((notes.flatMap GhostPacket.ghostList).filter fun r => (t.refs r).ghost = x) =
      (notes.flatMap GhostPacket.ghostList).filter fun r => (s.refs r).ghost = x := by
  refine List.filter_congr fun r hr => ?_
  obtain ⟨note, hnote, hr⟩ := List.mem_flatMap.mp hr
  rw [hkept.ghost_eq (h.queued_lt (List.mem_flatMap.mpr ⟨note, hnotes hnote, hr⟩))]

theorem writePacket_moves {t : GhostServer} {scopeValid : Bool} {order : List Ghost}
    {leftOver : List Mask} (h : Sound s s.inFlight)
    (hwrite : s.writePacket traits scopeValid order leftOver = some t) :
    Moves traits { Causes.none with queued := True } (s, s.inFlight) (t, t.inFlight) := by
  unfold writePacket at hwrite
  split at hwrite
  · have hdetach := detachOutOfScope_moves traits .none h le_rfl
    have hsound := hdetach.sound h
    generalize detachOutOfScope traits _ s = s₁ at hwrite hdetach hsound
    dsimp only at hwrite hsound
    have hfree := freeUnsent_moves traits .none hsound 0 le_rfl
      fun x hx hout => absurd hx (Nat.not_lt.mpr hout)
    rcases hfreed : freeUnsent s₁.array.mGhostZeroUpdateIndex 0 s₁ with ⟨maxIndex, s₂⟩
    rw [hfreed] at hwrite hfree
    rcases hfree with ⟨hfree, hsend⟩
    have hsound₂ : Sound s₂ s.inFlight := hfree.sound hsound
    dsimp only at hwrite
    split at hwrite
    · rename_i horder
      have hreorder : Move traits .none (s₂, s.inFlight)
          ({ s₂ with array := s₂.array.reorder order }, s.inFlight) := .reorder horder _
      have hpending := (reorder_valid hsound₂.masked.valid horder).2.1
      obtain ⟨s₃, new, flight', heq, hrecords, _, hflight⟩ := writeRecords_moves traits
        .none (hreorder.sound hsound₂) leftOver [] le_rfl
        fun x hx => hsend x ((hpending x).mp hx)
      have hmoves := ((hdetach.trans hfree).trans (Moves.one hreorder)).trans hrecords
      rw [List.append_nil] at heq
      rw [heq] at hwrite
      obtain rfl := Option.some.inj hwrite
      have hqueue : s₃.notifyQueue = s.notifyQueue := hmoves.kept.notifyQueue id
      have hend : inFlight { s₃ with
          notifyQueue := s₃.notifyQueue ++ [⟨new, sendSize maxIndex⟩] } = flight' := by
        funext x
        rw [hflight, inFlight]
        dsimp only
        rw [hqueue, List.flatMap_append, List.filter_append,
          h.filter_queue hmoves.kept (List.Subset.refl _)]
        simp [inFlight]
      rw [hend]
      exact (hmoves.mono (Causes.none_le _)).trans (Moves.one (.queue trivial ..))
    · cases hwrite
  · obtain rfl := Option.some.inj hwrite
    have hend : inFlight { s with notifyQueue := s.notifyQueue ++ [⟨[], 0⟩] } = s.inFlight := by
      funext x
      simp [inFlight]
    rw [hend]
    exact Moves.one (.queue trivial ..)

end write

section notified

/-- The references of a notify are taken away one by one, whether they arrived or not. -/
theorem foldl_pop_moves {f : GhostServer → ℕ → GhostServer} {ghostList : List ℕ} (rest : Flight)
    (hf : ∀ r ∈ ghostList, ∀ (s : GhostServer) (flight : Flight) (g : Ghost) (rs : List ℕ),
      flight g = r :: rs → Move traits causes (s, flight) (f s r, flight.pop g rs))
    (h : Sound s flight)
    (hflight : ∀ x, flight x = (ghostList.filter fun r => (s.refs r).ghost = x) ++ rest x) :
    Moves traits causes (s, flight) (ghostList.foldl f s, rest) := by
  induction ghostList generalizing s flight with
  | nil =>
    obtain rfl : flight = rest := funext fun x => by simpa using hflight x
    exact .refl
  | cons r ghostList ih =>
    set g := (s.refs r).ghost with hg
    have hhead : flight g = r :: ((ghostList.filter fun r => (s.refs r).ghost = g) ++ rest g) := by
      rw [hflight, List.filter_cons_of_pos (by simp [hg]), List.cons_append]
    have hmove := hf r List.mem_cons_self s flight g _ hhead
    have hsound : Sound (f s r) _ := hmove.sound h
    have hghost : ∀ r' ∈ ghostList, ((f s r).refs r').ghost = (s.refs r').ghost := by
      intro r' hr'
      have hin : r' ∈ flight (s.refs r').ghost := by
        rw [hflight, List.mem_append]
        exact .inl (List.mem_filter.mpr ⟨List.mem_cons_of_mem r hr', decide_eq_true rfl⟩)
      exact hmove.kept.ghost_eq (h.ghosts.owned _ r' hin).2
    have hfilter : ∀ x, (ghostList.filter fun r' => ((f s r).refs r').ghost = x) =
        ghostList.filter fun r' => (s.refs r').ghost = x := fun x =>
      List.filter_congr fun r' hr' => by rw [hghost r' hr']
    refine (Moves.one hmove).trans (ih (fun r' hr' => hf r' (List.mem_cons_of_mem r hr')) hsound ?_)
    intro x
    rw [hfilter]
    by_cases hx : x = g
    · rw [hx]
      exact Function.update_self ..
    · have hne : ¬ (s.refs r).ghost = x := fun heq => hx (heq.symm.trans hg.symm)
      rw [Flight.pop, Function.update_of_ne hx, hflight, List.filter_cons_of_neg (by simpa using hne)]

/-- What a notification of the packet at the head of the queue does to its references. -/
theorem notified_moves (causes : Causes) {f : GhostServer → ℕ → GhostServer} {note : GhostPacket}
    {rest : List GhostPacket} (h : Sound s s.inFlight) (hqueue : s.notifyQueue = note :: rest)
    (hf : ∀ r ∈ note.ghostList, ∀ (s : GhostServer) (flight : Flight) (g : Ghost) (rs : List ℕ),
      flight g = r :: rs →
        Move traits { causes with queued := False } (s, flight) (f s r, flight.pop g rs)) :
    Moves traits { causes with queued := True } (s, s.inFlight)
      (note.ghostList.foldl f { s with notifyQueue := rest },
        (note.ghostList.foldl f { s with notifyQueue := rest }).inFlight) := by
  have hpop : Move traits { causes with queued := True } (s, s.inFlight)
      ({ s with notifyQueue := rest }, s.inFlight) := .queue trivial ..
  have hsound : Sound { s with notifyQueue := rest } s.inFlight := hpop.sound h
  have hmoves := foldl_pop_moves (fun x => (rest.flatMap GhostPacket.ghostList).filter
    fun r => (s.refs r).ghost = x) hf hsound (fun x => by
      rw [inFlight, hqueue, List.flatMap_cons, List.filter_append])
  have hle : Causes.Le { causes with queued := False } { causes with queued := True } :=
    ⟨fun _ => id, fun _ => id, fun _ _ => id, id, False.elim, id⟩
  have hall := (Moves.one hpop).trans (hmoves.mono hle)
  have hend : (note.ghostList.foldl f { s with notifyQueue := rest }).inFlight =
      fun x => (rest.flatMap GhostPacket.ghostList).filter fun r => (s.refs r).ghost = x := by
    funext x
    have hrest : rest ⊆ s.notifyQueue := fun note' hnote' =>
      hqueue ▸ List.mem_cons_of_mem note hnote'
    rw [inFlight, hmoves.kept.notifyQueue id]
    exact h.filter_queue hall.kept hrest x
  rw [hend]
  exact hall

/-- The references in the notify of the oldest packet in flight. -/
def oldest (s : GhostServer) (r : ℕ) : Prop :=
  ∃ note, s.notifyQueue.head? = some note ∧ r ∈ note.ghostList

theorem packetReceived_moves {t : GhostServer} (h : Sound s s.inFlight)
    (hstep : s.packetReceived = some t) :
    Moves traits { Causes.none with received := s.oldest, queued := True } (s, s.inFlight)
      (t, t.inFlight) := by
  unfold packetReceived at hstep
  cases hqueue : s.notifyQueue with
  | nil =>
    rw [hqueue] at hstep
    cases hstep
  | cons note rest =>
    rw [hqueue] at hstep
    obtain rfl := Option.some.inj hstep
    refine notified_moves { Causes.none with received := s.oldest } h hqueue ?_
    intro r hr s' flight g rs hflight
    exact .received ⟨note, by rw [hqueue, List.head?_cons], hr⟩ hflight

theorem packetDropped_moves {t : GhostServer} (h : Sound s s.inFlight)
    (hstep : s.packetDropped = some t) :
    Moves traits { Causes.none with dropped := s.oldest, queued := True } (s, s.inFlight)
      (t, t.inFlight) := by
  unfold packetDropped at hstep
  cases hqueue : s.notifyQueue with
  | nil =>
    rw [hqueue] at hstep
    cases hstep
  | cons note rest =>
    rw [hqueue] at hstep
    obtain rfl := Option.some.inj hstep
    refine notified_moves { Causes.none with dropped := s.oldest } h hqueue ?_
    intro r hr s' flight g rs hflight
    exact .dropped ⟨note, by rw [hqueue, List.head?_cons], hr⟩ hflight

end notified

section objects

theorem detachObject_allocated (h : Sound s flight) (hg : s.array.Allocated g) :
    (s.detachObject traits g).array.Allocated = s.array.Allocated := by
  obtain ⟨table, heq⟩ := detachObject_eq traits s g
  have hmask : (if s.updateMask g = 0 then BitVec.allOnes 32 else s.updateMask g) ≠ 0 := by
    split
    · decide
    · assumption
  rw [heq]
  exact (h.masked.raise hg hmask).2

theorem addMask_allocated (h : Sound s flight) (hg : s.array.Allocated g) {bits : Mask}
    (hbits : bits ≠ 0) : (s.addMask g bits).array.Allocated = s.array.Allocated := by
  have hmask : s.updateMask g ||| bits ≠ 0 := by
    simpa [BitVec.or_eq_zero_iff] using fun _ => hbits
  rw [addMask_eq]
  exact (h.masked.raise hg hmask).2

/-- The same move for each of a list of allocated ghosts. -/
theorem foldl_moves {f : GhostServer → Ghost → GhostServer} (ghosts : List Ghost)
    (hf : ∀ (s : GhostServer) (g : Ghost), Sound s flight → s.array.Allocated g →
      Move traits causes (s, flight) (f s g, flight) ∧
        (f s g).array.Allocated = s.array.Allocated)
    (h : Sound s flight) (hg : ∀ g ∈ ghosts, s.array.Allocated g) :
    Moves traits causes (s, flight) (ghosts.foldl f s, flight) := by
  induction ghosts generalizing s with
  | nil => exact .refl
  | cons g ghosts ih =>
    obtain ⟨hmove, hallocated⟩ := hf s g h (hg g List.mem_cons_self)
    refine (Moves.one hmove).trans (ih (hmove.sound h) fun g' hg' => ?_)
    rw [hallocated]
    exact hg g' (List.mem_cons_of_mem g hg')

theorem Sound.allocated_of_mem (h : Sound s flight) {o : ℕ} (hg : g ∈ s.mFirstObjectRef o) :
    s.array.Allocated g :=
  h.ghosts.allocated_of_obj g o ((h.ghosts.list_iff o g).mp hg)

theorem destroy_moves (h : Sound s flight) (o : ℕ) :
    Moves traits { Causes.none with dirtied := True } (s, flight) (s.destroy traits o, flight) := by
  unfold destroy
  have hdetach : Moves traits .none (s, flight)
      ((s.mFirstObjectRef o).foldl (detachObject traits) s, flight) :=
    foldl_moves _ (fun s g h hg => ⟨.detach hg flight, detachObject_allocated h hg⟩) h
      fun g hg => h.allocated_of_mem hg
  exact (hdetach.mono (Causes.none_le _)).trans (Moves.one (.objects trivial _ _ _ _ _))

theorem collapseObject_moves (h : Sound s flight) (o : ℕ) :
    Moves traits { Causes.none with dirtied := True } (s, flight) (s.collapseObject o, flight) := by
  have hclean : Move traits { Causes.none with dirtied := True } (s, flight)
      ({ s with mDirtyMaskBits := Function.update s.mDirtyMaskBits o 0 }, flight) :=
    .objects trivial s flight s.alive _ s.mDirtyList
  have hsound : Sound { s with mDirtyMaskBits := Function.update s.mDirtyMaskBits o 0 } flight :=
    hclean.sound h
  unfold collapseObject
  dsimp only
  split
  · exact Moves.one hclean
  · rename_i hbits
    refine (Moves.one hclean).trans (foldl_moves _ ?_ hsound fun g hg => h.allocated_of_mem hg)
    exact fun s g h hg => ⟨.addMask hg hbits flight, addMask_allocated h hg hbits⟩

theorem collapseDirtyList_moves (h : Sound s flight) :
    Moves traits { Causes.none with dirtied := True } (s, flight) (s.collapseDirtyList, flight) := by
  have hcollapse : ∀ (objects : List ℕ) (s : GhostServer), Sound s flight →
      Moves traits { Causes.none with dirtied := True } (s, flight)
        (objects.foldl collapseObject s, flight) := by
    intro objects
    induction objects with
    | nil => exact fun s _ => .refl
    | cons o objects ih =>
      intro s h
      have hfirst : Moves traits { Causes.none with dirtied := True } (s, flight)
          (s.collapseObject o, flight) := collapseObject_moves h o
      exact hfirst.trans (ih _ (hfirst.sound h))
  exact (hcollapse s.mDirtyList s h).trans (Moves.one (.objects trivial _ _ _ _ _))

/-- A call of `clearMaskBits` takes all bits of a mask only when they are the bits it clears. -/
def ClearsExactly (s : GhostServer) : Action → Prop
  | .clearMaskBits obj orMask => ∀ g, s.obj g = some obj →
    s.updateMask g ≠ 0 → s.updateMask g ≠ orMask → s.updateMask g &&& ~~~orMask ≠ 0
  | _ => True

theorem clearMask_updateMask {x : Ghost} (hx : x ≠ g) (bits : Mask) :
    (s.clearMask bits g).updateMask x = s.updateMask x := by
  unfold clearMask
  split <;> exact Function.update_of_ne hx ..

theorem foldl_clearMask_moves {bits : Mask} {ghosts : List Ghost} (hnodup : ghosts.Nodup)
    (hcleared : ∀ g ∈ ghosts, causes.cleared g bits)
    (hbits : ∀ g ∈ ghosts, s.updateMask g ≠ 0 → s.updateMask g ≠ bits →
      s.updateMask g &&& ~~~bits ≠ 0) :
    Moves traits causes (s, flight) (ghosts.foldl (clearMask bits) s, flight) := by
  induction ghosts generalizing s with
  | nil => exact .refl
  | cons g ghosts ih =>
    obtain ⟨hnot, hnodup⟩ := List.nodup_cons.mp hnodup
    have hmove : Move traits causes (s, flight) (s.clearMask bits g, flight) :=
      .clearMask (hcleared g List.mem_cons_self) (hbits g List.mem_cons_self) flight
    refine (Moves.one hmove).trans (ih hnodup (fun x hx => hcleared x (List.mem_cons_of_mem g hx)) ?_)
    intro x hx
    have hne : x ≠ g := by
      rintro rfl
      exact hnot hx
    rw [clearMask_updateMask hne]
    exact hbits x (List.mem_cons_of_mem g hx)

theorem clearMaskBits_moves (h : Sound s flight) {o : ℕ} {bits : Mask}
    (hexact : s.ClearsExactly (.clearMaskBits o bits)) :
    Moves traits { Causes.none with
      cleared := fun g bits' => s.obj g = some o ∧ bits' = bits, dirtied := True }
      (s, flight) (s.clearMaskBits o bits, flight) := by
  unfold clearMaskBits
  dsimp only
  generalize hclean : (if s.mDirtyMaskBits o = 0 then s else _) = s'
  have hsame : s' = { s with mDirtyMaskBits := s'.mDirtyMaskBits, mDirtyList := s'.mDirtyList } := by
    rw [← hclean]
    split <;> rfl
  have hobjects : Move traits { Causes.none with
      cleared := fun g bits' => s.obj g = some o ∧ bits' = bits, dirtied := True }
      (s, flight) (s', flight) := by
    rw [hsame]
    exact .objects trivial s flight s.alive _ _
  rw [hsame] at hobjects ⊢
  refine (Moves.one hobjects).trans (foldl_clearMask_moves (h.ghosts.list_nodup o) ?_ ?_)
  · exact fun g hg => ⟨(h.ghosts.list_iff o g).mp hg, rfl⟩
  · exact fun g hg => hexact g ((h.ghosts.list_iff o g).mp hg)

end objects

section release

theorem detachObject_obj (s : GhostServer) (g : Ghost) : (s.detachObject traits g).obj g = none := by
  obtain ⟨table, heq⟩ := detachObject_eq traits s g
  rw [heq]
  exact Function.update_self ..

/-- All ghosts are released, and no references are left. -/
theorem clearGhostInfo_moves (h : Sound s s.inFlight) :
    Moves traits { Causes.none with released := True, queued := True } (s, s.inFlight)
      (s.clearGhostInfo traits, (s.clearGhostInfo traits).inFlight) := by
  have hempty : Move traits { Causes.none with released := True, queued := True } (s, s.inFlight)
      ({ s with notifyQueue := s.notifyQueue.map fun note => { note with ghostList := [] } },
        s.inFlight) := .queue trivial ..
  have hall : ∀ (ghosts : List Ghost) (s : GhostServer) (flight : Flight), Sound s flight →
      ∃ flight', Moves traits { Causes.none with released := True } (s, flight)
        (ghosts.foldl (fun s info => if s.array.arrayIndex info < s.array.mGhostFreeIndex then
          (({ s.detachObject traits info with
            lastUpdateChain := Function.update (s.detachObject traits info).lastUpdateChain info
              none }).freeGhostInfo info) else s) s, flight') ∧
        ∀ x, x ∈ ghosts ∨ flight x = [] → flight' x = [] := by
    intro ghosts
    induction ghosts with
    | nil => exact fun s flight _ => ⟨flight, .refl, fun x hx => hx.resolve_left List.not_mem_nil⟩
    | cons info ghosts ih =>
      intro s flight h
      rw [List.foldl_cons]
      split
      · rename_i hg
        have hdetach : Move traits { Causes.none with released := True } (s, flight)
            (s.detachObject traits info, flight) := .detach hg flight
        have hsound : Sound (s.detachObject traits info) flight := hdetach.sound h
        have hg' : (s.detachObject traits info).array.Allocated info := by
          rw [detachObject_allocated h hg]
          exact hg
        have hrelease : Move traits { Causes.none with released := True }
            (s.detachObject traits info, flight) (_, flight.pop info []) :=
          .release trivial hg' (detachObject_obj s info)
        obtain ⟨flight', hmoves, hnone⟩ := ih _ _ (hrelease.sound hsound)
        refine ⟨flight', (Moves.one hdetach).trans ((Moves.one hrelease).trans hmoves), ?_⟩
        intro x hx
        apply hnone
        by_cases hxi : x = info
        · exact .inr (hxi ▸ Function.update_self ..)
        · refine hx.imp (fun hx => (List.mem_cons.mp hx).resolve_left hxi) fun hx => ?_
          exact (Function.update_of_ne hxi ..).trans hx
      · rename_i hg
        obtain ⟨flight', hmoves, hnone⟩ := ih s flight h
        refine ⟨flight', hmoves, fun x hx => hnone x ?_⟩
        by_cases hxi : x = info
        · exact .inr (hxi ▸ h.ghosts.unallocated info hg)
        · exact hx.imp_left fun hx => (List.mem_cons.mp hx).resolve_left hxi
  obtain ⟨flight', hmoves, hnone⟩ := hall (List.finRange maxGhostCount) _ _ (hempty.sound h)
  have hend : (s.clearGhostInfo traits).inFlight = flight' := by
    funext x
    rw [hnone x (.inl (List.mem_finRange x)), inFlight]
    have hqueue : (s.clearGhostInfo traits).notifyQueue =
        s.notifyQueue.map fun note => { note with ghostList := [] } :=
      hmoves.kept.notifyQueue id
    rw [hqueue, List.flatMap_map]
    simp
  rw [hend]
  have hle : Causes.Le { Causes.none with released := True }
      { Causes.none with released := True, queued := True } :=
    ⟨fun _ => id, fun _ => id, fun _ _ => id, id, False.elim, id⟩
  exact (Moves.one hempty).trans (hmoves.mono hle)

end release

section steps

/-- What the moves of an operation may do. -/
def causesOf (s : GhostServer) : Action → Causes
  | .setMaskBits _ _ | .collapseDirtyList | .destroy _ => { Causes.none with dirtied := True }
  | .clearMaskBits obj orMask => { Causes.none with
    cleared := fun g bits => s.obj g = some obj ∧ bits = orMask, dirtied := True }
  | .freeGhostInfo _ => { Causes.none with released := True }
  | .clearGhostInfo | .resetGhosting => { Causes.none with released := True, queued := True }
  | .writePacket _ _ _ => { Causes.none with queued := True }
  | .packetReceived => { Causes.none with received := s.oldest, queued := True }
  | .packetDropped => { Causes.none with dropped := s.oldest, queued := True }
  | _ => Causes.none

theorem inFlight_congr {t : GhostServer} (h : Sound s s.inFlight) (hkept : Kept causes s t)
    (hqueue : ¬ causes.queued) : t.inFlight = s.inFlight := by
  funext x
  rw [inFlight, hkept.notifyQueue hqueue]
  exact h.filter_queue hkept (List.Subset.refl _) x

/-- Moves that leave the queue as it is leave the same references in flight. -/
theorem Moves.to_inFlight {t : GhostServer} (m : Moves traits causes (s, s.inFlight) (t, s.inFlight))
    (h : Sound s s.inFlight) (hqueue : ¬ causes.queued) :
    Moves traits causes (s, s.inFlight) (t, t.inFlight) := by
  rw [inFlight_congr h m.kept hqueue]
  exact m

/-- Every operation is a sequence of moves. -/
theorem step_moves {t : GhostServer} {a : Action} (h : Sound s s.inFlight)
    (hexact : s.ClearsExactly a) (hstep : step traits s a = some t) :
    Moves traits (s.causesOf a) (s, s.inFlight) (t, t.inFlight) := by
  cases a with
  | setMaskBits o bits =>
    obtain ⟨_, ⟨⟩⟩ := Option.ite_none_right_eq_some.mp hstep
    exact Moves.to_inFlight (Moves.one (.objects trivial s _ s.alive _ _)) h id
  | clearMaskBits o bits =>
    obtain ⟨_, ⟨⟩⟩ := Option.ite_none_right_eq_some.mp hstep
    exact (clearMaskBits_moves h hexact).to_inFlight h id
  | collapseDirtyList =>
    obtain rfl := Option.some.inj hstep
    exact (collapseDirtyList_moves h).to_inFlight h id
  | destroy o =>
    obtain ⟨_, ⟨⟩⟩ := Option.ite_none_right_eq_some.mp hstep
    exact (destroy_moves h o).to_inFlight h id
  | objectInScope o =>
    obtain ⟨_, ⟨⟩⟩ := Option.ite_none_right_eq_some.mp hstep
    exact (objectInScope_moves traits .none h o).to_inFlight h id
  | objectLocalScopeAlways o =>
    obtain ⟨_, ⟨⟩⟩ := Option.ite_none_right_eq_some.mp hstep
    exact (objectLocalScopeAlways_moves h o).to_inFlight h id
  | objectLocalClearAlways o =>
    obtain ⟨_, ⟨⟩⟩ := Option.ite_none_right_eq_some.mp hstep
    exact (objectLocalClearAlways_moves o).to_inFlight h id
  | detachObject info =>
    obtain ⟨hg, ⟨⟩⟩ := Option.ite_none_right_eq_some.mp hstep
    exact Moves.to_inFlight (Moves.one (.detach hg _)) h id
  | freeGhostInfo info =>
    obtain ⟨⟨hg, hobj, hlast⟩, ⟨⟩⟩ := Option.ite_none_right_eq_some.mp hstep
    have hflight : s.inFlight info = [] := by
      rw [← List.getLast?_eq_none_iff, ← h.ghosts.last, hlast]
    have hforget : s.forget info = s := by
      rw [forget, ← hlast, Function.update_eq_self]
    have hrelease : Moves traits { Causes.none with released := True } (s, s.inFlight)
        ((s.forget info).freeGhostInfo info, s.inFlight.pop info []) :=
      Moves.one (.release trivial hg hobj)
    rw [hforget, Flight.pop, ← hflight, Function.update_eq_self] at hrelease
    exact hrelease.to_inFlight h id
  | clearGhostInfo =>
    obtain rfl := Option.some.inj hstep
    exact clearGhostInfo_moves h
  | activateGhosting =>
    obtain ⟨⟨hfree, _⟩, ⟨⟩⟩ := Option.ite_none_right_eq_some.mp hstep
    exact Moves.to_inFlight (Moves.one (.reset hfree _)) h id
  | resetGhosting =>
    obtain rfl := Option.some.inj hstep
    have hoff : Move traits { Causes.none with released := True, queued := True }
        (s, s.inFlight) ({ s with mGhosting := false, mScoping := false }, s.inFlight) :=
      .leave trivial s _
    exact (Moves.one hoff).trans (clearGhostInfo_moves (hoff.sound h))
  | rpcReadyForNormalGhosts =>
    obtain rfl := Option.some.inj hstep
    exact Moves.to_inFlight (Moves.one (.session s _ true)) h id
  | prepareWritePacket =>
    obtain rfl := Option.some.inj hstep
    exact prepareWritePacket_moves.to_inFlight h id
  | writePacket scopeValid order leftOver => exact writePacket_moves h hstep
  | packetReceived => exact packetReceived_moves h hstep
  | packetDropped => exact packetDropped_moves h hstep

/-- The invariant holds in every run whose calls of `clearMaskBits` take all bits of a mask only
when they are the bits they clear. -/
theorem sound_of_run {alive : ℕ → Bool} {as : List Action}
    (run : Library.Run (step traits) ClearsExactly (new alive) as s) : Sound s s.inFlight :=
  run.invariant (I := fun s => Sound s s.inFlight)
    (fun _ _ _ h hexact hstep => (step_moves h hexact hstep).sound h) (new_sound alive)

end steps

end TNL.GhostServer
