import TNL.Ghost.Operations

/-!
# The flags of ghost records

A record that belongs to no object is one that is to be deleted or is being
deleted, so that building a packet only asks objects that exist. A record is
freed when no packet in flight refers to it. The conditions of a loop are read
in the state before each of its steps.
-/
namespace TNL.GhostServer
open GhostArray Library

/-- What the flags of the allocated records say about their objects. -/
structure FlagsAgree (s : GhostServer) : Prop where
  obj_eq_none_iff : ∀ g, s.array.Allocated g →
    (s.obj g = none ↔ (s.flags g).killGhost = true ∨ (s.flags g).killingGhost = true)
  not_both : ∀ g, s.array.Allocated g →
    ¬ ((s.flags g).ghosting = true ∧ (s.flags g).notYetGhosted = true)

/-- No reference in flight is to the record; `remaining` are those of the notify being handled. -/
def Unreferenced (s : GhostServer) (remaining : List ℕ) (g : Ghost) : Prop :=
  s.lastUpdateChain g = none ∧
    ∀ r ∈ remaining ++ s.notifyQueue.flatMap GhostPacket.ghostList, (s.refs r).ghost ≠ g

/-- The second loop of `writePacket` below place `i`: what it frees is not referred to, and it asks
objects that exist for their priority. -/
def UnsentSafe : ℕ → GhostServer → Prop
  | 0, _ => True
  | i + 1, s =>
    let walk := s.array.mGhostArray i
    if (s.flags walk).killGhost && (s.flags walk).notYetGhosted then
      s.Unreferenced [] walk ∧ UnsentSafe i (s.freeGhostInfo walk)
    else
      ((s.flags walk).killingGhost = false → (s.flags walk).ghosting = false →
        (s.flags walk).killGhost = false → (s.obj walk).isSome) ∧ UnsentSafe i s

/-- What holds before each update that the last loop of `writePacket` packs below place `i`, the
one that does not fit too. -/
def BeforeRecords (P : GhostServer → Ghost → Prop) : ℕ → List Mask → GhostServer → Prop
  | 0, _, _ => True
  | i + 1, leftOver, s =>
    let walk := s.array.mGhostArray i
    if (s.flags walk).killingGhost || (s.flags walk).ghosting then BeforeRecords P i leftOver s
    else P s walk ∧
      match leftOver with
      | [] => True
      | mask :: leftOver => BeforeRecords P i leftOver (s.writeRecord walk mask)

instance decidableBeforeRecords (P : GhostServer → Ghost → Prop) [∀ s walk, Decidable (P s walk)] :
    ∀ (i : ℕ) (leftOver : List Mask) (s : GhostServer), Decidable (BeforeRecords P i leftOver s)
  | 0, _, _ => .isTrue trivial
  | i + 1, [], s =>
    have := decidableBeforeRecords P i [] s
    inferInstanceAs (Decidable (if (s.flags (s.array.mGhostArray i)).killingGhost ||
        (s.flags (s.array.mGhostArray i)).ghosting then BeforeRecords P i [] s
      else P s (s.array.mGhostArray i) ∧ True))
  | i + 1, mask :: leftOver, s =>
    have := decidableBeforeRecords P i (mask :: leftOver) s
    have := decidableBeforeRecords P i leftOver (s.writeRecord (s.array.mGhostArray i) mask)
    inferInstanceAs (Decidable (if (s.flags (s.array.mGhostArray i)).killingGhost ||
        (s.flags (s.array.mGhostArray i)).ghosting then BeforeRecords P i (mask :: leftOver) s
      else P s (s.array.mGhostArray i) ∧
        BeforeRecords P i leftOver (s.writeRecord (s.array.mGhostArray i) mask)))

/-- What holds before each update that `writePacket` packs. -/
def BeforeUpdates (traits : ObjectTraits) (s : GhostServer) (order : List Ghost)
    (leftOver : List Mask) (P : GhostServer → Ghost → Prop) : Prop :=
  let s := detachOutOfScope traits s.array.mGhostZeroUpdateIndex s
  let s := (freeUnsent s.array.mGhostZeroUpdateIndex 0 s).2
  BeforeRecords P s.array.mGhostZeroUpdateIndex leftOver { s with array := s.array.reorder order }

instance (traits : ObjectTraits) (s : GhostServer) (order : List Ghost) (leftOver : List Mask)
    (P : GhostServer → Ghost → Prop) [∀ s walk, Decidable (P s walk)] :
    Decidable (s.BeforeUpdates traits order leftOver P) :=
  decidableBeforeRecords P ..

/-- An update is packed by an object that exists. -/
def Packable (s : GhostServer) (walk : Ghost) : Prop :=
  (s.flags walk).killGhost = false → (s.obj walk).isSome

def WriteSafe (traits : ObjectTraits) (s : GhostServer) (order : List Ghost)
    (leftOver : List Mask) : Prop :=
  let s' := detachOutOfScope traits s.array.mGhostZeroUpdateIndex s
  UnsentSafe s'.array.mGhostZeroUpdateIndex s' ∧ s.BeforeUpdates traits order leftOver Packable

/-- The loop of `packetReceived`: a record is freed when no other reference to it is left. -/
def ReceivedSafe : GhostServer → List ℕ → Prop
  | _, [] => True
  | s, packRef :: remaining =>
    ((s.refs packRef).ghostInfoFlags = .killingGhost →
      (s.unchain packRef).Unreferenced remaining (s.refs packRef).ghost) ∧
    ReceivedSafe (s.refReceived packRef) remaining

/-- The second loop of `clearGhostInfo`. -/
def ClearSafe (traits : ObjectTraits) : GhostServer → List Ghost → Prop
  | _, [] => True
  | s, info :: ghosts =>
    if s.array.arrayIndex info < s.array.mGhostFreeIndex then
      let s := (s.detachObject traits info).forget info
      s.Unreferenced [] info ∧ ClearSafe traits (s.freeGhostInfo info) ghosts
    else ClearSafe traits s ghosts

/-- The queue after the first loop of `clearGhostInfo`. -/
def withoutRefs (s : GhostServer) : GhostServer :=
  { s with notifyQueue := s.notifyQueue.map (fun note => { note with ghostList := [] }) }

/-- An operation reads no object through a record that has none, and frees no record that is
referred to. -/
def Safe (traits : ObjectTraits) (s : GhostServer) : Action → Prop
  | .writePacket scopeValid order leftOver =>
    (s.mGhosting && scopeValid) = true → s.WriteSafe traits order leftOver
  | .packetReceived => match s.notifyQueue with
    | [] => True
    | notify :: rest => ReceivedSafe { s with notifyQueue := rest } notify.ghostList
  | .freeGhostInfo info => s.Unreferenced [] info
  | .clearGhostInfo => ClearSafe traits s.withoutRefs (List.finRange maxGhostCount)
  | .resetGhosting => ClearSafe traits
      (withoutRefs { s with mGhosting := false, mScoping := false }) (List.finRange maxGhostCount)
  | _ => True

variable {traits : ObjectTraits} {s : GhostServer} {flight : Flight} {g : Ghost}

theorem Phase.not_both {f : GhostFlags} {ks : List GhostInfoFlags} (h : Phase f ks) :
    ¬ (f.ghosting = true ∧ f.notYetGhosted = true) := by
  cases h <;> simp [*]

theorem Sound.flagsAgree (h : Sound s flight) : s.FlagsAgree where
  obj_eq_none_iff := h.ghosts.detached
  not_both g hg := (h.ghosts.phase g hg).not_both

/-- A record that is not to be deleted belongs to an object. -/
theorem Sound.obj_isSome (h : Sound s flight) (hg : s.array.Allocated g)
    (hkill : (s.flags g).killGhost = false) (hkilling : (s.flags g).killingGhost = false) :
    (s.obj g).isSome := by
  rw [Option.isSome_iff_ne_none, ne_eq, h.ghosts.detached g hg]
  simp [hkill, hkilling]

/-- A record without references in flight is referred to by nothing. -/
theorem Sound.unreferenced (h : Sound s flight) (hflight : flight g = []) {remaining : List ℕ}
    (hin : ∀ r ∈ remaining ++ s.notifyQueue.flatMap GhostPacket.ghostList,
      r ∈ flight (s.refs r).ghost) : s.Unreferenced remaining g := by
  constructor
  · rw [h.ghosts.last, hflight, List.getLast?_nil]
  · intro r hr hghost
    have hmem := hin r hr
    rw [hghost, hflight] at hmem
    cases hmem

theorem mem_inFlight {r : ℕ} (hr : r ∈ s.notifyQueue.flatMap GhostPacket.ghostList) :
    r ∈ s.inFlight (s.refs r).ghost :=
  List.mem_filter.mpr ⟨hr, decide_eq_true rfl⟩

section write

theorem freeGhostInfo_inFlight (s : GhostServer) (g : Ghost) :
    (s.freeGhostInfo g).inFlight = s.inFlight := by
  unfold freeGhostInfo
  split <;> rfl

theorem unsentSafe (h : Sound s s.inFlight) {i : ℕ} (hi : i ≤ s.array.mGhostZeroUpdateIndex) :
    UnsentSafe i s := by
  induction i generalizing s with
  | zero => trivial
  | succ i ih =>
    have hp := (h.pending_place hi).2
    have hg := h.masked.valid.allocated_of_pending hp
    rw [UnsentSafe]
    generalize s.array.mGhostArray i = walk at hp hg
    split
    · rename_i hkill
      rw [Bool.and_eq_true] at hkill
      have hobj := (h.ghosts.detached walk hg).mpr (.inl hkill.1)
      have hflight := h.flight_of_notYetGhosted hg hkill.2
      have hfreed := (h.freeGhostInfo hg hobj hflight).1
      have hzero := (h.free_keeps hp).1
      refine ⟨h.unreferenced hflight fun r hr => mem_inFlight hr, ih ?_ (by omega)⟩
      rw [freeGhostInfo_inFlight]
      exact hfreed
    · exact ⟨fun hkilling _ hkill => h.obj_isSome hg hkill hkilling, ih h (Nat.le_of_succ_le hi)⟩

/-- The rule for the last loop of `writePacket`, with an invariant that the moves preserve. -/
theorem beforeRecords {J : GhostServer × Flight → Prop} {P : GhostServer → Ghost → Prop}
    (hmove : ∀ p q, Move traits .none p q → Sound p.1 p.2 → J p → J q)
    (hpack : ∀ s flight g, Sound s flight → J (s, flight) → s.array.Allocated g →
      (s.flags g).killingGhost = false → P s g)
    (h : Sound s flight) (hJ : J (s, flight)) {i : ℕ} (hi : i ≤ s.array.mGhostZeroUpdateIndex)
    (hsend : ∀ x, s.array.arrayIndex x < i → s.Sendable x) (leftOver : List Mask) :
    BeforeRecords P i leftOver s := by
  induction i generalizing s flight leftOver with
  | zero => trivial
  | succ i ih =>
    obtain ⟨hplace, hp⟩ := h.pending_place hi
    have hg := h.masked.valid.allocated_of_pending hp
    rw [BeforeRecords.eq_def]
    dsimp only
    generalize s.array.mGhostArray i = walk at hplace hp hg
    split
    · exact ih h hJ (Nat.le_of_succ_le hi) (fun x hx => hsend x (by omega)) leftOver
    · rename_i hidle
      rw [Bool.or_eq_true, not_or, Bool.not_eq_true, Bool.not_eq_true] at hidle
      refine ⟨hpack s flight walk h hJ hg hidle.1, ?_⟩
      cases leftOver with
      | nil => trivial
      | cons mask leftOver =>
        have hwrite : Move traits .none (s, flight)
            (s.writeRecord walk mask, flight.push walk s.nextRef) :=
          .write hp hidle.1 hidle.2 (hsend walk (by omega)) mask flight
        obtain ⟨hzero, _, hsend'⟩ := h.write_next hp hplace hsend hidle.1 hidle.2 mask
        exact ih (hwrite.sound h) (hmove _ _ hwrite h hJ) hzero hsend' leftOver

theorem Moves.keeps {causes : Causes} {J : GhostServer × Flight → Prop} {p q : GhostServer × Flight}
    (hmove : ∀ p q, Move traits causes p q → Sound p.1 p.2 → J p → J q)
    (m : Moves traits causes p q) (h : Sound p.1 p.2) (hJ : J p) : J q := by
  induction m with
  | refl => exact hJ
  | tail first last ih => exact hmove _ _ last (Moves.sound first h) ih

/-- Detaching records changes no reference and no notify. -/
theorem detachOutOfScope_inFlight (traits : ObjectTraits) (i : ℕ) (s : GhostServer) :
    (detachOutOfScope traits i s).inFlight = s.inFlight := by
  induction i generalizing s with
  | zero => rfl
  | succ i ih =>
    rw [detachOutOfScope, ih]
    split
    · rfl
    · obtain ⟨table, heq⟩ := detachObject_eq traits s (s.array.mGhostArray i)
      rw [heq]
      rfl

/-- The rule for `writePacket`. -/
theorem Sound.beforeUpdates {J : GhostServer × Flight → Prop} {P : GhostServer → Ghost → Prop}
    (hmove : ∀ p q, Move traits .none p q → Sound p.1 p.2 → J p → J q)
    (hpack : ∀ s flight g, Sound s flight → J (s, flight) → s.array.Allocated g →
      (s.flags g).killingGhost = false → P s g)
    (h : Sound s s.inFlight) (hJ : J (s, s.inFlight)) {t : GhostServer} {scopeValid : Bool}
    {order : List Ghost} {leftOver : List Mask} (hvalid : (s.mGhosting && scopeValid) = true)
    (hwrite : s.writePacket traits scopeValid order leftOver = some t) :
    s.BeforeUpdates traits order leftOver P := by
  have hdetach := detachOutOfScope_moves traits .none h le_rfl
  have hdetached := hdetach.sound h
  have hJ₁ := Moves.keeps hmove hdetach h hJ
  unfold writePacket at hwrite
  unfold BeforeUpdates
  rw [if_pos hvalid] at hwrite
  dsimp only at hwrite hdetached ⊢
  generalize detachOutOfScope traits _ s = s₁ at hwrite hdetached hJ₁ ⊢
  obtain ⟨hfree, hsend⟩ := freeUnsent_moves traits .none hdetached 0 le_rfl
    fun x hx hout => absurd hx (Nat.not_lt.mpr hout)
  have hfreed : Sound _ s.inFlight := hfree.sound hdetached
  have hJ₂ := Moves.keeps hmove hfree hdetached hJ₁
  dsimp only at hfreed
  generalize (freeUnsent s₁.array.mGhostZeroUpdateIndex 0 s₁).2 = s₂ at hwrite hsend hfreed hJ₂ ⊢
  have horder : order.Perm s₂.array.pending := by
    by_contra hnot
    rw [if_neg hnot] at hwrite
    cases hwrite
  have hpending := (reorder_valid hfreed.masked.valid horder).2.1
  have hJ₃ := hmove _ _ (.reorder horder s.inFlight) hfreed hJ₂
  refine beforeRecords hmove hpack (hfreed.reorder horder) hJ₃ le_rfl ?_ leftOver
  exact fun x hx => hsend x ((hpending x).mp hx)

theorem Sound.writeSafe {t : GhostServer} {scopeValid : Bool} {order : List Ghost}
    {leftOver : List Mask} (h : Sound s s.inFlight) (hvalid : (s.mGhosting && scopeValid) = true)
    (hwrite : s.writePacket traits scopeValid order leftOver = some t) :
    s.WriteSafe traits order leftOver := by
  have hdetached := (detachOutOfScope_moves traits .none h le_rfl).sound h
  have hsame := detachOutOfScope_inFlight traits s.array.mGhostZeroUpdateIndex s
  constructor
  · dsimp only at hdetached ⊢
    rw [← hsame] at hdetached
    exact unsentSafe hdetached le_rfl
  · refine h.beforeUpdates (J := fun _ => True) (fun _ _ _ _ _ => trivial) ?_ trivial hvalid hwrite
    exact fun s flight g h _ hg hkilling hkill => h.obj_isSome hg hkill hkilling

end write

section notified

theorem receivedSafe {ghostList : List ℕ} (h : Sound s flight)
    (hflight : ∀ x, flight x = (ghostList.filter fun r => (s.refs r).ghost = x) ++
      ((s.notifyQueue.flatMap GhostPacket.ghostList).filter fun r => (s.refs r).ghost = x)) :
    ReceivedSafe s ghostList := by
  induction ghostList generalizing s flight with
  | nil => trivial
  | cons r ghostList ih =>
    have hmem : ∀ r' ∈ r :: ghostList ++ s.notifyQueue.flatMap GhostPacket.ghostList,
        r' ∈ flight (s.refs r').ghost := by
      intro r' hr'
      rw [hflight, ← List.filter_append]
      exact List.mem_filter.mpr ⟨hr', decide_eq_true rfl⟩
    set g := (s.refs r).ghost with hg
    have hhead : flight g = r :: ((ghostList ++
        s.notifyQueue.flatMap GhostPacket.ghostList).filter fun r => (s.refs r).ghost = g) := by
      rw [hflight, List.filter_cons_of_pos (by simp [hg]), List.cons_append, List.filter_append]
    have hkept : Kept Causes.none s (s.refReceived r) := refReceived_kept r
    have hghost : ∀ r' ∈ ghostList ++ s.notifyQueue.flatMap GhostPacket.ghostList,
        ((s.refReceived r).refs r').ghost = (s.refs r').ghost := by
      intro r' hr'
      have hin := hmem r' (by simp only [List.cons_append, List.mem_cons, hr', or_true])
      exact hkept.ghost_eq (h.ghosts.owned _ r' hin).2
    have hqueue : (s.refReceived r).notifyQueue = s.notifyQueue := hkept.notifyQueue id
    constructor
    · intro hkind
      have hrest := (h.refReceived_kill hhead hkind).1
      have hunchain : s.unchain r = s.forget g := by
        rw [h.ghosts.unchain_eq hhead, hrest]
        rfl
      rw [hunchain]
      refine ⟨Function.update_self .., fun r' hr' hsame => ?_⟩
      have hin : r' ∈ (ghostList ++ s.notifyQueue.flatMap GhostPacket.ghostList).filter
          fun r => (s.refs r).ghost = g := List.mem_filter.mpr ⟨hr', decide_eq_true hsame⟩
      rw [hrest] at hin
      cases hin
    · refine ih (h.refReceived hhead) fun x => ?_
      have hfilter : ((ghostList ++ s.notifyQueue.flatMap GhostPacket.ghostList).filter
          fun r' => ((s.refReceived r).refs r').ghost = x) =
          (ghostList ++ s.notifyQueue.flatMap GhostPacket.ghostList).filter
            fun r' => (s.refs r').ghost = x :=
        List.filter_congr fun r' hr' => by rw [hghost r' hr']
      rw [hqueue, ← List.filter_append, hfilter]
      by_cases hx : x = g
      · rw [hx]
        exact Function.update_self ..
      · have hne : ¬ (s.refs r).ghost = x := fun heq => hx (heq.symm.trans hg.symm)
        rw [Flight.pop, Function.update_of_ne hx, hflight,
          List.filter_cons_of_neg (by simpa using hne), List.filter_append]

end notified

theorem clearSafe (h : ∀ note ∈ s.notifyQueue, note.ghostList = []) (ghosts : List Ghost) :
    ClearSafe traits s ghosts := by
  induction ghosts generalizing s with
  | nil => trivial
  | cons info ghosts ih =>
    rw [ClearSafe]
    split
    · have hqueue : ((s.detachObject traits info).forget info).notifyQueue = s.notifyQueue := by
        obtain ⟨table, heq⟩ := detachObject_eq traits s info
        rw [heq]
        rfl
      refine ⟨⟨Function.update_self .., ?_⟩, ih ?_⟩
      · intro r hr
        rw [List.nil_append, hqueue] at hr
        obtain ⟨note, hnote, hr⟩ := List.mem_flatMap.mp hr
        rw [h note hnote] at hr
        cases hr
      · have hkept : Kept Causes.none ((s.detachObject traits info).forget info) _ :=
          freeGhostInfo_kept info
        rw [hkept.notifyQueue id, hqueue]
        exact h
    · exact ih h

theorem packetReceived_eq {note : GhostPacket} {rest : List GhostPacket}
    (hqueue : s.notifyQueue = note :: rest) : step traits s .packetReceived =
      some (note.ghostList.foldl refReceived { s with notifyQueue := rest }) := by
  rw [step, packetReceived, hqueue]

theorem withoutRefs_empty (s : GhostServer) :
    ∀ note ∈ s.withoutRefs.notifyQueue, note.ghostList = [] := by
  intro note hnote
  obtain ⟨note', _, rfl⟩ := List.mem_map.mp hnote
  rfl

/-- Every operation that the invariant permits is safe. -/
theorem Sound.safe {t : GhostServer} {a : Action} (h : Sound s s.inFlight)
    (hstep : step traits s a = some t) : s.Safe traits a := by
  cases a with
  | writePacket scopeValid order leftOver => exact fun hvalid => h.writeSafe hvalid hstep
  | packetReceived =>
    rw [Safe]
    cases hqueue : s.notifyQueue with
    | nil => trivial
    | cons note rest =>
      have hsound : Sound { s with notifyQueue := rest } s.inFlight := ⟨h.masked, { h.ghosts with }⟩
      refine receivedSafe hsound fun x => ?_
      rw [inFlight, hqueue, List.flatMap_cons, List.filter_append]
  | freeGhostInfo info =>
    obtain ⟨⟨_, _, hlast⟩, _⟩ := Option.ite_none_right_eq_some.mp hstep
    refine h.unreferenced ?_ fun r hr => mem_inFlight hr
    rw [← List.getLast?_eq_none_iff, ← h.ghosts.last, hlast]
  | clearGhostInfo =>
    rw [Safe]
    generalize List.finRange maxGhostCount = ghosts
    exact clearSafe s.withoutRefs_empty ghosts
  | resetGhosting =>
    rw [Safe]
    generalize List.finRange maxGhostCount = ghosts
    exact clearSafe (withoutRefs_empty _) ghosts
  | _ => trivial

/-- The flags of the records agree with their objects in every state of every run, and whatever is
done next asks no object that does not exist and frees no record that is referred to. -/
theorem ghostFlags_agree {alive : ℕ → Bool} {as : List Action}
    (run : Run (step traits) ClearsExactly (new alive) as s) :
    s.FlagsAgree ∧ ∀ a t, step traits s a = some t → s.Safe traits a :=
  ⟨(sound_of_run run).flagsAgree, fun _ _ hstep => (sound_of_run run).safe hstep⟩

theorem ghostFlags_agree_destroyed : ∃ s : GhostServer,
    (s.flags (GhostArray.new.mGhostArray 0)).killingGhost = true ∧ s.notifyQueue ≠ [] ∧
      s.FlagsAgree ∧ s.Safe .plain .packetReceived := by
  have hreached : (exec (step .plain) (new fun _ => true)
      [.objectInScope 0, .rpcReadyForNormalGhosts,
        .writePacket true [GhostArray.new.mGhostArray 0] [0], .packetReceived, .destroy 0,
        .writePacket true [GhostArray.new.mGhostArray 0] [0]]).map (fun s =>
          ((s.flags (GhostArray.new.mGhostArray 0)).killingGhost, s.notifyQueue.length)) =
      some (true, 1) := by decide +kernel
  obtain ⟨s, hexec, hs⟩ := Option.map_eq_some_iff.mp hreached
  obtain ⟨hkilling, hlength⟩ := Prod.mk.inj hs
  obtain ⟨note, hqueue⟩ := List.length_eq_one_iff.mp hlength
  have run : Run (step .plain) ClearsExactly (new fun _ => true) _ s :=
    .of_exec_of_forall (fun s a ha => by
      simp only [List.mem_cons, List.not_mem_nil, or_false] at ha
      rcases ha with rfl | rfl | rfl | rfl | rfl | rfl <;> trivial) hexec
  have hagree := ghostFlags_agree run
  refine ⟨s, hkilling, ?_, hagree.1, hagree.2 .packetReceived _ (packetReceived_eq hqueue)⟩
  rw [hqueue]
  exact List.cons_ne_nil _ _

end TNL.GhostServer
