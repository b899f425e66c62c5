import TNL.Ghost.Operations

/-!
# No update is lost

A bit that is set while an object has a live ghost is owed to the ghost until
`clearMaskBits` takes it back or the ghost is detached. It is carried from the
dirty bits to the update mask, from there into the references of packets, and
back when a packet is lost whose newer references do not carry it.
-/
namespace TNL.GhostServer
open GhostArray Library

/-- A bit set on an object while `ghost` was its ghost, before reference `since` was made. -/
structure Owed where
  ghost : Ghost
  object : ℕ
  bit : ℕ
  since : ℕ

/-- A reference in flight or one that has arrived, made since the bit was set, carries it. -/
def Referred (arrived : ℕ → Prop) (s : GhostServer) (flight : Flight) (e : Owed) : Prop :=
  ∃ r, (r ∈ flight e.ghost ∨ arrived r) ∧ r < s.nextRef ∧ (s.refs r).ghost = e.ghost ∧
    e.since ≤ r ∧ (s.refs r).mask.getLsbD e.bit = true

def Carried (arrived : ℕ → Prop) (s : GhostServer) (flight : Flight) (e : Owed) : Prop :=
  (s.updateMask e.ghost).getLsbD e.bit = true ∨ Referred arrived s flight e

variable {traits : ObjectTraits} {causes : Causes} {s t : GhostServer} {flight flight' : Flight}
  {p q : GhostServer × Flight} {arrived : ℕ → Prop} {g : Ghost} {e : Owed}

section moves

theorem Kept.mask_eq (h : Kept causes s t) {r : ℕ} (hr : r < s.nextRef) :
    (t.refs r).mask = (s.refs r).mask :=
  have hsame := congrArg GhostRef.mask (h.refs r hr)
  hsame

theorem Referred.keep (h : Referred arrived s flight e) (hkept : Kept causes s t)
    (hflight : ∀ r ∈ flight e.ghost, r ∈ flight' e.ghost ∨ arrived r) :
    Referred arrived t flight' e := by
  obtain ⟨r, hr, hlt, hghost, hsince, hbit⟩ := h
  refine ⟨r, hr.elim (hflight r) .inr, hlt.trans_le hkept.nextRef_le, ?_, hsince, ?_⟩
  · exact (hkept.ghost_eq hlt).trans hghost
  · rwa [hkept.mask_eq hlt]

/-- References stay as they are, so only the update mask and those in flight matter. -/
theorem Carried.keep (h : Carried arrived s flight e) (hkept : Kept causes s t)
    (hmask : (s.updateMask e.ghost).getLsbD e.bit = true →
      (t.updateMask e.ghost).getLsbD e.bit = true)
    (hflight : ∀ r ∈ flight e.ghost, r ∈ flight' e.ghost ∨ arrived r) :
    Carried arrived t flight' e :=
  h.imp hmask fun hin => hin.keep hkept hflight

theorem Carried.mono {arrived' : ℕ → Prop} (h : Carried arrived s flight e)
    (hle : ∀ r, arrived r → arrived' r) : Carried arrived' s flight e :=
  h.imp_right fun ⟨r, hr, hrest⟩ => ⟨r, hr.imp_right (hle r), hrest⟩

theorem freeGhostInfo_updateMask {x : Ghost} (hx : x ≠ g) :
    (s.freeGhostInfo g).updateMask x = s.updateMask x := by
  unfold freeGhostInfo
  split
  · exact Function.update_of_ne hx ..
  · rfl

theorem Carried.addMask (h : Carried arrived s flight e) (bits : Mask) :
    Carried arrived (s.addMask g bits) flight e := by
  have hkept : Kept .none s (s.addMask g bits) := addMask_kept g bits
  refine h.keep hkept (fun hbit => ?_) fun r => .inl
  rw [addMask_eq]
  by_cases hx : e.ghost = g
  · dsimp only
    rw [hx, Function.update_self, BitVec.getLsbD_or, ← hx, hbit, Bool.true_or]
  · dsimp only
    rwa [Function.update_of_ne hx]

/-- Clearing other bits. -/
theorem Carried.clearMask (h : Carried arrived s flight e) {bits : Mask}
    (hbits : e.ghost = g → bits.getLsbD e.bit = false) :
    Carried arrived (s.clearMask bits g) flight e := by
  have hkept : Kept .none s (s.clearMask bits g) := by
    unfold GhostServer.clearMask
    split <;> exact .of_ghosts ..
  refine h.keep hkept (fun hbit => ?_) fun r => .inl
  by_cases hx : e.ghost = g
  · unfold GhostServer.clearMask
    split
    · rename_i hequal
      rw [hx, hequal.2, hbits hx] at hbit
      cases hbit
    · dsimp only
      rw [hx, Function.update_self, BitVec.getLsbD_and, BitVec.getLsbD_not, ← hx, hbit, hbits hx]
      simpa using BitVec.lt_of_getLsbD hbit
  · rwa [clearMask_updateMask hx]

/-- What a live ghost's record leaves over stays in its update mask, and the rest goes with the
reference. -/
theorem Carried.write (h : Carried arrived s flight e) (hsince : e.since ≤ s.nextRef)
    (hkill : e.ghost = g → (s.flags g).killGhost = false) (leftOver : Mask) :
    Carried arrived (s.writeRecord g leftOver) (flight.push g s.nextRef) e := by
  have hkept : Kept .none s (s.writeRecord g leftOver) := writeRecord_kept g leftOver
  have hpush : ∀ r ∈ flight e.ghost, r ∈ flight.push g s.nextRef e.ghost ∨ arrived r := by
    intro r hr
    refine .inl ?_
    by_cases hx : e.ghost = g
    · rw [Flight.push, hx, Function.update_self]
      exact List.mem_append_left _ (hx ▸ hr)
    · rwa [Flight.push, Function.update_of_ne hx]
  by_cases hx : e.ghost = g
  · rcases h with hbit | hold
    · have hkill' := hkill hx
      subst hx
      by_cases hleft : leftOver.getLsbD e.bit = true
      · refine .inl ?_
        rw [writeRecord_eq]
        simp [hkill', hleft, hbit]
      · refine .inr ⟨s.nextRef, .inl ?_, ?_, ?_, hsince, ?_⟩
        · rw [Flight.push, Function.update_self]
          exact List.mem_append_right _ (List.mem_singleton_self _)
        · rw [writeRecord_eq]
          exact Nat.lt_succ_self _
        · exact writeRecord_ghost leftOver
        · rw [writeRecord_eq]
          dsimp only
          rw [linked_new]
          simpa [hkill', hleft, hbit] using BitVec.lt_of_getLsbD hbit
    · exact .inr (hold.keep hkept hpush)
  · refine h.keep hkept (fun hbit => ?_) hpush
    rw [writeRecord_eq]
    dsimp only
    rwa [Function.update_of_ne hx]

/-- A lost reference gives a bit back unless a newer one carries it. -/
theorem Carried.dropped (h : Carried arrived s flight e) (hsound : Sound s flight) {r : ℕ}
    {rs : List ℕ} (hflight : flight g = r :: rs) :
    Carried arrived (s.refDropped r) (flight.pop g rs) e := by
  have hkept : Kept .none s (s.refDropped r) := refDropped_kept r
  have hmask : (s.refDropped r).updateMask =
      Function.update s.updateMask g (s.updateMask g ||| s.restored r rs) := by
    rw [hsound.refDropped_eq hflight]
    dsimp only
    split
    · rename_i hzero
      rw [hzero, show s.updateMask g ||| 0 = s.updateMask g from BitVec.or_zero,
        Function.update_eq_self]
    · rw [addMask_eq]
  by_cases hx : e.ghost = g
  · subst hx
    have hpop : flight.pop e.ghost rs e.ghost = rs := Function.update_self ..
    rcases h with hbit | ⟨r', hr', hlt, hghost, hsince, hbit⟩
    · refine .inl ?_
      rw [hmask, Function.update_self, BitVec.getLsbD_or, hbit, Bool.true_or]
    · by_cases hkeep : r' ∈ rs ∨ arrived r'
      · have hrefer : Referred arrived s (flight.pop e.ghost rs) e :=
          ⟨r', hpop.symm ▸ hkeep, hlt, hghost, hsince, hbit⟩
        exact .inr (hrefer.keep hkept fun r => .inl)
      · rw [hflight, List.mem_cons] at hr'
        obtain rfl : r' = r := hr'.elim (fun hr' => hr'.resolve_right fun hin => hkeep (.inl hin))
          fun hin => absurd (.inr hin) hkeep
        by_cases hback : (s.restored r' rs).getLsbD e.bit = true
        · refine .inl ?_
          rw [hmask, Function.update_self, BitVec.getLsbD_or, hback, Bool.or_true]
        · -- a newer reference carries the bit
          rw [restored, foldl_carried, not_and] at hback
          obtain ⟨r, hr, hcarries⟩ : ∃ r ∈ rs, (s.refs r).mask.getLsbD e.bit ≠ false := by
            by_contra hnone
            exact hback hbit fun r hr => not_not.mp fun hne => hnone ⟨r, hr, hne⟩
          have hin : r ∈ flight e.ghost := by
            rw [hflight]
            exact List.mem_cons_of_mem r' hr
          obtain ⟨howner, hnext⟩ := hsound.ghosts.owned e.ghost r hin
          have hincreasing := hsound.ghosts.increasing e.ghost
          rw [hflight] at hincreasing
          have hrefer : Referred arrived s (flight.pop e.ghost rs) e :=
            ⟨r, .inl (hpop.symm ▸ hr), hnext, howner,
              hsince.trans ((List.pairwise_cons.mp hincreasing).1 r hr).le,
              eq_true_of_ne_false hcarries⟩
          exact .inr (hrefer.keep hkept fun r => .inl)
  · refine h.keep hkept (fun hbit => ?_) fun r hr => .inl ?_
    · rwa [hmask, Function.update_of_ne hx]
    · rwa [Flight.pop, Function.update_of_ne hx]

theorem Carried.release (h : Carried arrived s flight e) (hx : e.ghost ≠ g) :
    Carried arrived ((s.forget g).freeGhostInfo g) (flight.pop g []) e := by
  have hkept : Kept .none s ((s.forget g).freeGhostInfo g) :=
    Kept.trans (.of_ghosts ..) (freeGhostInfo_kept g)
  refine h.keep hkept (fun hbit => ?_) fun r hr => .inl ?_
  · rwa [freeGhostInfo_updateMask hx]
  · rwa [Flight.pop, Function.update_of_ne hx]

/-- A bit goes with a reference that arrives, which is not that of a deletion. -/
theorem Carried.received (h : Carried arrived s flight e) (hsound : Sound s flight) {r : ℕ}
    {rs : List ℕ} (hflight : flight g = r :: rs) (harrived : arrived r)
    (hlive : (s.refReceived r).obj e.ghost = some e.object) :
    Carried arrived (s.refReceived r) (flight.pop g rs) e := by
  by_cases hkind : (s.refs r).ghostInfoFlags = .killingGhost
  · obtain ⟨rfl, hobj, heq⟩ := hsound.refReceived_kill hflight hkind
    rw [heq] at hlive ⊢
    rw [freeGhostInfo_obj] at hlive
    refine h.release ?_
    rintro rfl
    rw [forget, hobj] at hlive
    cases hlive
  · have hkept : Kept .none s (s.refReceived r) := refReceived_kept r
    refine h.keep hkept (fun hbit => ?_) fun r' hr' => ?_
    · rwa [hsound.refReceived_eq hflight hkind]
    · by_cases hx : e.ghost = g
      · rw [hx, hflight, List.mem_cons] at hr'
        rw [hx, Flight.pop, Function.update_self]
        exact hr'.elim (fun heq => .inr (heq ▸ harrived)) .inl
      · rw [Flight.pop, Function.update_of_ne hx]
        exact .inl hr'

/-- The obligation is kept by every move, as long as the ghost is live. -/
theorem Move.carried (m : Move traits causes p q) (h : Sound p.1 p.2) (hbit : e.bit < 32)
    (hsince : e.since ≤ p.1.nextRef) (harrived : ∀ r, causes.received r → arrived r)
    (hcleared : ∀ bits, causes.cleared e.ghost bits → bits.getLsbD e.bit = false)
    (hcarried : p.1.obj e.ghost = some e.object → Carried arrived p.1 p.2 e)
    (hlive : q.1.obj e.ghost = some e.object) : Carried arrived q.1 q.2 e := by
  have hkept := m.kept
  cases m with
  | session s flight mGhosting => exact (hcarried hlive).keep hkept id fun r => .inl
  | leave hreleased s flight => exact (hcarried hlive).keep hkept id fun r => .inl
  | queue hqueued s flight notifyQueue => exact (hcarried hlive).keep hkept id fun r => .inl
  | objects hdirtied s flight alive mDirtyMaskBits mDirtyList =>
    exact (hcarried hlive).keep hkept id fun r => .inl
  | scope s flight g inScope scopeLocalAlways => exact (hcarried hlive).keep hkept id fun r => .inl
  | reorder horder flight => exact (hcarried hlive).keep hkept id fun r => .inl
  | reset hfree flight => exact (hcarried hlive).keep hkept id fun r => .inl
  | @addGhost s g hscoping hg o flight =>
    by_cases hx : e.ghost = g
    · refine .inl ?_
      dsimp only [GhostServer.addGhost]
      rw [hx, Function.update_self, BitVec.getLsbD_allOnes]
      exact decide_eq_true hbit
    · dsimp only [GhostServer.addGhost] at hlive
      rw [Function.update_of_ne hx] at hlive
      refine (hcarried hlive).keep hkept (fun hin => ?_) fun r => .inl
      dsimp only [GhostServer.addGhost]
      rwa [Function.update_of_ne hx]
  | @addMask s g bits hg hbits flight =>
    have hold : s.obj e.ghost = some e.object := by
      rw [addMask_eq] at hlive
      exact hlive
    exact (hcarried hold).addMask bits
  | @clearMask s g bits hclear hbits flight =>
    have hold : s.obj e.ghost = some e.object := by
      dsimp only at hlive
      unfold GhostServer.clearMask at hlive
      split at hlive <;> exact hlive
    refine (hcarried hold).clearMask ?_
    rintro rfl
    exact hcleared bits hclear
  | @detach s g hg flight =>
    obtain ⟨table, heq⟩ := detachObject_eq traits s g
    dsimp only at hlive hkept ⊢
    rw [heq] at hlive hkept ⊢
    by_cases hx : e.ghost = g
    · dsimp only at hlive
      rw [hx, Function.update_self] at hlive
      cases hlive
    · dsimp only at hlive
      rw [Function.update_of_ne hx] at hlive
      refine (hcarried hlive).keep hkept (fun hin => ?_) fun r => .inl
      dsimp only
      rwa [Function.update_of_ne hx]
  | @free s g flight hg hobj hnot =>
    dsimp only at hlive hkept ⊢
    rw [freeGhostInfo_obj] at hlive
    have hx : e.ghost ≠ g := by
      rintro rfl
      rw [hobj] at hlive
      cases hlive
    refine (hcarried hlive).keep hkept (fun hin => ?_) fun r => .inl
    rwa [freeGhostInfo_updateMask hx]
  | @release s g flight hreleased hg hobj =>
    dsimp only at hlive
    rw [freeGhostInfo_obj] at hlive
    refine (hcarried hlive).release ?_
    rintro rfl
    rw [forget, hobj] at hlive
    cases hlive
  | @write s g hp hkilling hghosting hunsent leftOver flight =>
    have hold : s.obj e.ghost = some e.object := by
      rw [writeRecord_eq] at hlive
      exact hlive
    refine (hcarried hold).write hsince (fun hx => ?_) leftOver
    have hg := h.ghosts.allocated_of_obj e.ghost e.object hold
    rw [← hx]
    by_contra hkill
    rw [(h.ghosts.detached e.ghost hg).mpr (.inl (eq_true_of_ne_false hkill))] at hold
    cases hold
  | @dropped s g flight r rs hdropped hflight =>
    have hold : s.obj e.ghost = some e.object := by
      dsimp only at hlive
      rw [Sound.refDropped_eq h hflight] at hlive
      dsimp only at hlive
      split at hlive
      · exact hlive
      · rw [addMask_eq] at hlive
        exact hlive
    exact (hcarried hold).dropped h hflight
  | @received s g flight r rs hreceived hflight =>
    have hold : s.obj e.ghost = some e.object := by
      by_cases hkind : (s.refs r).ghostInfoFlags = .killingGhost
      · rw [(Sound.refReceived_kill h hflight hkind).2.2, freeGhostInfo_obj] at hlive
        exact hlive
      · rw [Sound.refReceived_eq h hflight hkind] at hlive
        exact hlive
    exact (hcarried hold).received h hflight (harrived r hreceived) hlive

theorem Moves.carried (m : Moves traits causes p q) (h : Sound p.1 p.2) (hbit : e.bit < 32)
    (hsince : e.since ≤ p.1.nextRef) (harrived : ∀ r, causes.received r → arrived r)
    (hcleared : ∀ bits, causes.cleared e.ghost bits → bits.getLsbD e.bit = false)
    (hcarried : p.1.obj e.ghost = some e.object → Carried arrived p.1 p.2 e) :
    q.1.obj e.ghost = some e.object → Carried arrived q.1 q.2 e := by
  induction m with
  | refl => exact hcarried
  | tail before last ih =>
    have hle := (Moves.kept before).nextRef_le
    exact last.carried (Moves.sound before h) hbit (hsince.trans hle) harrived hcleared ih

end moves

section objects

/-- The bit is among the dirty bits of an object in the dirty list. -/
def Dirty (s : GhostServer) (e : Owed) : Prop :=
  (s.mDirtyMaskBits e.object).getLsbD e.bit = true ∧ e.object ∈ s.mDirtyList

/-- Every object with dirty bits is in the dirty list. -/
def Listed (s : GhostServer) : Prop :=
  ∀ o, s.alive o = true → s.mDirtyMaskBits o ≠ 0 → o ∈ s.mDirtyList

theorem foldl_addMask_obj (ghosts : List Ghost) (bits : Mask) (s : GhostServer) :
    (ghosts.foldl (fun s walk => s.addMask walk bits) s).obj = s.obj := by
  induction ghosts generalizing s with
  | nil => rfl
  | cons g ghosts ih =>
    rw [List.foldl_cons, ih, addMask_eq]

theorem foldl_addMask_kept (ghosts : List Ghost) (bits : Mask) (s : GhostServer) :
    Kept causes s (ghosts.foldl (fun s walk => s.addMask walk bits) s) := by
  induction ghosts generalizing s with
  | nil => exact .refl ..
  | cons g ghosts ih => exact (addMask_kept g bits).trans (ih _)

theorem foldl_addMask_updateMask {ghosts : List Ghost} {bits : Mask} {bit : ℕ}
    (hin : g ∈ ghosts ∧ bits.getLsbD bit = true ∨ (s.updateMask g).getLsbD bit = true) :
    ((ghosts.foldl (fun s walk => s.addMask walk bits) s).updateMask g).getLsbD bit = true := by
  induction ghosts generalizing s with
  | nil => exact hin.resolve_left fun h => absurd h.1 List.not_mem_nil
  | cons x ghosts ih =>
    rw [List.foldl_cons]
    apply ih
    rw [addMask_eq]
    by_cases hx : g = x
    · refine .inr ?_
      dsimp only
      rw [hx, Function.update_self, BitVec.getLsbD_or, Bool.or_eq_true]
      exact hin.elim (fun h => .inr h.2) fun h => .inl (hx ▸ h)
    · dsimp only
      rw [Function.update_of_ne hx]
      exact hin.imp_left fun h => ⟨(List.mem_cons.mp h.1).resolve_left hx, h.2⟩

theorem collapseObject_obj (s : GhostServer) (o : ℕ) : (s.collapseObject o).obj = s.obj := by
  unfold collapseObject
  dsimp only
  split
  · rfl
  · exact foldl_addMask_obj ..

theorem collapseObject_dirty (s : GhostServer) (o : ℕ) : (s.collapseObject o).mDirtyMaskBits =
    Function.update s.mDirtyMaskBits o 0 := by
  unfold collapseObject
  dsimp only
  split
  · rfl
  · have hkept : Kept .none { s with mDirtyMaskBits := Function.update s.mDirtyMaskBits o 0 } _ :=
      foldl_addMask_kept (s.mFirstObjectRef o) (s.mDirtyMaskBits o) _
    exact (hkept.objects id).1

/-- The dirty bits of an object are handed to its ghosts. -/
theorem collapseObject_carried (h : Sound s flight) (hlive : s.obj e.ghost = some e.object)
    (hdirty : (s.mDirtyMaskBits e.object).getLsbD e.bit = true) :
    Carried arrived (s.collapseObject e.object) flight e := by
  have hne : s.mDirtyMaskBits e.object ≠ 0 := by
    intro hzero
    rw [hzero] at hdirty
    simp at hdirty
  unfold collapseObject
  dsimp only
  rw [if_neg hne]
  exact .inl (foldl_addMask_updateMask (.inl ⟨(h.ghosts.list_iff _ _).mpr hlive, hdirty⟩))

theorem foldl_collapse_carried {objects : List ℕ} (h : Sound s flight) (hbit : e.bit < 32)
    (hsince : e.since ≤ s.nextRef) (hlive : s.obj e.ghost = some e.object)
    (howed : (s.mDirtyMaskBits e.object).getLsbD e.bit = true ∧ e.object ∈ objects ∨
      Carried arrived s flight e) :
    Carried arrived (objects.foldl collapseObject s) flight e := by
  induction objects generalizing s with
  | nil => exact howed.resolve_left fun hin => absurd hin.2 List.not_mem_nil
  | cons o objects ih =>
    have hmoves : Moves .plain _ (s, flight) (s.collapseObject o, flight) :=
      collapseObject_moves h o
    have hlive' : (s.collapseObject o).obj e.ghost = some e.object := by
      rwa [collapseObject_obj]
    refine ih (Moves.sound hmoves h) (hsince.trans (Moves.kept hmoves).nextRef_le) hlive' ?_
    rcases howed with ⟨hdirty, hin⟩ | hcarried
    · by_cases ho : e.object = o
      · rw [← ho]
        exact .inr (collapseObject_carried h hlive hdirty)
      · refine .inl ⟨?_, (List.mem_cons.mp hin).resolve_left ho⟩
        rwa [collapseObject_dirty, Function.update_of_ne ho]
    · exact .inr (hmoves.carried h hbit hsince nofun nofun (fun _ => hcarried) hlive')

/-- What the four calls that change the dirty bits do to them. -/
theorem setMaskBits_objects (s : GhostServer) (o : ℕ) (bits : Mask) :
    (s.setMaskBits o bits).mDirtyMaskBits =
        Function.update s.mDirtyMaskBits o (s.mDirtyMaskBits o ||| bits) ∧
      (s.setMaskBits o bits).mDirtyList =
        (if s.mDirtyMaskBits o = 0 then o :: s.mDirtyList else s.mDirtyList) ∧
      (s.setMaskBits o bits).alive = s.alive :=
  ⟨rfl, rfl, rfl⟩

theorem clearMask_kept (bits : Mask) (g : Ghost) : Kept causes s (s.clearMask bits g) := by
  unfold clearMask
  split <;> exact .of_ghosts ..

theorem clearMaskBits_objects (s : GhostServer) (o : ℕ) (bits : Mask) :
    (s.clearMaskBits o bits).mDirtyMaskBits =
        Function.update s.mDirtyMaskBits o (s.mDirtyMaskBits o &&& ~~~bits) ∧
      (s.clearMaskBits o bits).mDirtyList =
        (if s.mDirtyMaskBits o ≠ 0 ∧ s.mDirtyMaskBits o &&& ~~~bits = 0 then s.mDirtyList.erase o
          else s.mDirtyList) ∧
      (s.clearMaskBits o bits).alive = s.alive := by
  have hfold : ∀ (ghosts : List Ghost) (s : GhostServer),
      Kept .none s (ghosts.foldl (clearMask bits) s) := by
    intro ghosts
    induction ghosts with
    | nil => exact fun s => .refl ..
    | cons g ghosts ih => exact fun s => (clearMask_kept bits g).trans (ih _)
  unfold clearMaskBits
  dsimp only
  generalize hclean : (if s.mDirtyMaskBits o = 0 then s else _) = s'
  obtain ⟨hbits, hlist, halive⟩ := (hfold (s'.mFirstObjectRef o) s').objects id
  rw [hbits, hlist, halive, ← hclean]
  split
  · rename_i hzero
    rw [hzero, show (0 : Mask) &&& ~~~bits = 0 from BitVec.zero_and, ← hzero,
      Function.update_eq_self]
    simp
  · rename_i hne
    simp only [ne_eq, hne, not_false_eq_true, true_and, and_self]

theorem foldl_collapse_objects (objects : List ℕ) (s : GhostServer) :
    (objects.foldl collapseObject s).alive = s.alive ∧
      ∀ o, (objects.foldl collapseObject s).mDirtyMaskBits o =
        if o ∈ objects then 0 else s.mDirtyMaskBits o := by
  have halive : ∀ (s : GhostServer) (o : ℕ), (s.collapseObject o).alive = s.alive := by
    intro s o
    unfold collapseObject
    dsimp only
    split
    · rfl
    · have hkept : Kept .none { s with mDirtyMaskBits := Function.update s.mDirtyMaskBits o 0 } _ :=
        foldl_addMask_kept (s.mFirstObjectRef o) (s.mDirtyMaskBits o) _
      exact (hkept.objects id).2.2
  induction objects generalizing s with
  | nil => exact ⟨rfl, fun o => by simp⟩
  | cons x objects ih =>
    obtain ⟨hkeep, hbits⟩ := ih (s.collapseObject x)
    refine ⟨hkeep.trans (halive s x), fun o => ?_⟩
    rw [List.foldl_cons, hbits, collapseObject_dirty]
    by_cases ho : o = x
    · simp [ho]
    · simp [ho]

theorem foldl_detach_kept (ghosts : List Ghost) (s : GhostServer) :
    Kept causes s (ghosts.foldl (detachObject traits) s) := by
  induction ghosts generalizing s with
  | nil => exact .refl ..
  | cons g ghosts ih => exact (detachObject_kept g).trans (ih _)

/-- A destroyed object has no ghosts. -/
theorem destroy_obj (h : Sound s flight) (o : ℕ) (g : Ghost) :
    (s.destroy traits o).obj g ≠ some o := by
  have hfold : ∀ (ghosts : List Ghost) (s : GhostServer), g ∈ ghosts ∨ s.obj g ≠ some o →
      (ghosts.foldl (detachObject traits) s).obj g ≠ some o := by
    intro ghosts
    induction ghosts with
    | nil => exact fun s hin => hin.resolve_left List.not_mem_nil
    | cons x ghosts ih =>
      intro s hin
      apply ih
      obtain ⟨table, heq⟩ := detachObject_eq traits s x
      rw [heq]
      by_cases hx : g = x
      · exact .inr (by simp [hx])
      · dsimp only
        rw [Function.update_of_ne hx]
        exact hin.imp_left fun h => (List.mem_cons.mp h).resolve_left hx
  refine hfold (s.mFirstObjectRef o) s ?_
  by_cases hin : g ∈ s.mFirstObjectRef o
  · exact .inl hin
  · exact .inr fun hobj => hin ((h.ghosts.list_iff o g).mpr hobj)

theorem destroy_objects (traits : ObjectTraits) (s : GhostServer) (o : ℕ) :
    (s.destroy traits o).mDirtyMaskBits = s.mDirtyMaskBits ∧
      (s.destroy traits o).mDirtyList =
        (if s.mDirtyMaskBits o = 0 then s.mDirtyList else s.mDirtyList.erase o) ∧
      (s.destroy traits o).alive = Function.update s.alive o false := by
  have hkept : Kept .none s ((s.mFirstObjectRef o).foldl (detachObject traits) s) :=
    foldl_detach_kept ..
  obtain ⟨hbits, hlist, halive⟩ := hkept.objects id
  unfold destroy
  dsimp only
  rw [hbits, hlist, halive]
  exact ⟨rfl, rfl, rfl⟩

end objects

/-- A server with what is owed to its ghosts and the references that have arrived. -/
structure Ledger where
  server : GhostServer
  owed : List Owed
  arrived : List ℕ

namespace Ledger

def start (alive : ℕ → Bool) : Ledger := ⟨new alive, [], []⟩

/-- The bits set on an object are owed to each of its ghosts. -/
def incurred (s : GhostServer) : Action → List Owed
  | .setMaskBits obj orMask => (s.mFirstObjectRef obj).flatMap fun g =>
    ((List.range 32).filter orMask.getLsbD).map fun bit => ⟨g, obj, bit, s.nextRef⟩
  | _ => []

def takenBack : Action → Owed → Bool
  | .clearMaskBits obj orMask, e => e.object = obj && orMask.getLsbD e.bit
  | _, _ => false

/-- The references reported received. -/
def arriving (s : GhostServer) : Action → List ℕ
  | .packetReceived => (s.notifyQueue.head?.map GhostPacket.ghostList).getD []
  | _ => []

/-- What is owed ends with `clearMaskBits`, or when the ghost is detached. -/
def step (traits : ObjectTraits) (l : Ledger) (a : Action) : Option Ledger :=
  (l.server.step traits a).map fun t =>
    { server := t
      owed := (l.owed.filter (fun e => !takenBack a e) ++ incurred l.server a).filter
        fun e => t.obj e.ghost = some e.object
      arrived := l.arrived ++ arriving l.server a }

/-- Everything owed is dirty or carried. -/
structure LedgerSound (l : Ledger) : Prop where
  sound : Sound l.server l.server.inFlight
  listed : l.server.Listed
  owed : ∀ e ∈ l.owed, e.bit < 32 ∧ e.since ≤ l.server.nextRef ∧
    l.server.obj e.ghost = some e.object ∧
      (l.server.Dirty e ∨ Carried (· ∈ l.arrived) l.server l.server.inFlight e)

theorem mem_arriving {a : Action} {r : ℕ} (hr : (s.causesOf a).received r) : r ∈ arriving s a := by
  cases a with
  | packetReceived =>
    obtain ⟨note, hnote, hr⟩ := hr
    simpa [arriving, hnote] using hr
  | _ => cases hr

theorem start_ledgerSound (alive : ℕ → Bool) : (start alive).LedgerSound :=
  ⟨new_sound alive, fun _ _ hne => absurd rfl hne, nofun⟩

theorem step_listed {a : Action} (hstep : s.step traits a = some t) (h : Sound s s.inFlight)
    (hexact : s.ClearsExactly a) (hlisted : s.Listed) : t.Listed := by
  intro o halive hne
  by_cases hdirtied : (s.causesOf a).dirtied
  · cases a with
    | setMaskBits x bits =>
      obtain ⟨_, ⟨⟩⟩ := Option.ite_none_right_eq_some.mp hstep
      have hold : s.mDirtyMaskBits o ≠ 0 → o ∈ s.mDirtyList := hlisted o halive
      rw [(setMaskBits_objects s x bits).2.1]
      by_cases ho : o = x
      · subst ho
        split
        · exact List.mem_cons_self
        · rename_i hdirty
          exact hold hdirty
      · rw [(setMaskBits_objects s x bits).1, Function.update_of_ne ho] at hne
        split
        · exact List.mem_cons_of_mem x (hold hne)
        · exact hold hne
    | clearMaskBits x bits =>
      obtain ⟨_, ⟨⟩⟩ := Option.ite_none_right_eq_some.mp hstep
      obtain ⟨hbits, hlist, hlive⟩ := clearMaskBits_objects s x bits
      rw [hlive] at halive
      rw [hbits] at hne
      rw [hlist]
      by_cases ho : o = x
      · subst ho
        rw [Function.update_self] at hne
        have hold : s.mDirtyMaskBits o ≠ 0 := by
          intro hzero
          rw [hzero] at hne
          exact hne BitVec.zero_and
        rw [if_neg fun hgone => hne hgone.2]
        exact hlisted o halive hold
      · rw [Function.update_of_ne ho] at hne
        split
        · exact (List.mem_erase_of_ne ho).mpr (hlisted o halive hne)
        · exact hlisted o halive hne
    | collapseDirtyList =>
      obtain rfl := Option.some.inj hstep
      obtain ⟨hlive, hbits⟩ := foldl_collapse_objects s.mDirtyList s
      have hne' : (if o ∈ s.mDirtyList then 0 else s.mDirtyMaskBits o) ≠ 0 := hbits o ▸ hne
      have halive' : s.alive o = true := hlive ▸ halive
      by_cases hin : o ∈ s.mDirtyList
      · rw [if_pos hin] at hne'
        exact absurd rfl hne'
      · rw [if_neg hin] at hne'
        exact absurd (hlisted o halive' hne') hin
    | destroy x =>
      obtain ⟨_, ⟨⟩⟩ := Option.ite_none_right_eq_some.mp hstep
      obtain ⟨hbits, hlist, hlive⟩ := destroy_objects traits s x
      rw [hlive] at halive
      rw [hbits] at hne
      rw [hlist]
      have ho : o ≠ x := by
        rintro rfl
        rw [Function.update_self] at halive
        cases halive
      rw [Function.update_of_ne ho] at halive
      split
      · exact hlisted o halive hne
      · exact (List.mem_erase_of_ne ho).mpr (hlisted o halive hne)
    | _ => cases hdirtied
  · obtain ⟨hbits, hlist, hlive⟩ := (Moves.kept (step_moves h hexact hstep)).objects hdirtied
    dsimp only at hbits hlist hlive
    rw [hlist]
    exact hlisted o (hlive ▸ halive) (hbits ▸ hne)

/-- A dirty bit stays dirty or is handed to the ghost. -/
theorem step_dirty {a : Action} (hstep : s.step traits a = some t) (h : Sound s s.inFlight)
    (hexact : s.ClearsExactly a) (hbit : e.bit < 32) (hsince : e.since ≤ s.nextRef)
    (hkeep : takenBack a e = false) (hold : s.obj e.ghost = some e.object)
    (hlive : t.obj e.ghost = some e.object) (hdirty : s.Dirty e) :
    t.Dirty e ∨ Carried arrived t t.inFlight e := by
  obtain ⟨hset, hin⟩ := hdirty
  by_cases hdirtied : (s.causesOf a).dirtied
  · cases a with
    | setMaskBits x bits =>
      obtain ⟨_, ⟨⟩⟩ := Option.ite_none_right_eq_some.mp hstep
      obtain ⟨hbits, hlist, _⟩ := setMaskBits_objects s x bits
      refine .inl ⟨?_, ?_⟩
      · rw [hbits]
        by_cases ho : e.object = x
        · rw [ho, Function.update_self, BitVec.getLsbD_or, ← ho, hset, Bool.true_or]
        · rwa [Function.update_of_ne ho]
      · rw [hlist]
        split
        · exact List.mem_cons_of_mem x hin
        · exact hin
    | clearMaskBits x bits =>
      obtain ⟨_, ⟨⟩⟩ := Option.ite_none_right_eq_some.mp hstep
      obtain ⟨hbits, hlist, _⟩ := clearMaskBits_objects s x bits
      have hleft : ((s.clearMaskBits x bits).mDirtyMaskBits e.object).getLsbD e.bit = true := by
        rw [hbits]
        by_cases ho : e.object = x
        · have hother : bits.getLsbD e.bit = false := by simpa [takenBack, ho] using hkeep
          rw [ho, Function.update_self, BitVec.getLsbD_and, BitVec.getLsbD_not, ← ho, hset, hother]
          simpa using hbit
        · rwa [Function.update_of_ne ho]
      refine .inl ⟨hleft, ?_⟩
      rw [hlist]
      by_cases ho : e.object = x
      · rw [hbits, ho, Function.update_self] at hleft
        have hne : s.mDirtyMaskBits x &&& ~~~bits ≠ 0 := by
          intro hzero
          rw [hzero] at hleft
          simp at hleft
        rwa [if_neg fun hgone => hne hgone.2]
      · split
        · exact (List.mem_erase_of_ne ho).mpr hin
        · exact hin
    | collapseDirtyList =>
      obtain rfl := Option.some.inj hstep
      have hcarried : Carried arrived (s.mDirtyList.foldl collapseObject s) s.inFlight e :=
        foldl_collapse_carried h hbit hsince hold (.inl ⟨hset, hin⟩)
      rw [inFlight_congr h (Moves.kept (step_moves h hexact hstep)) id]
      exact .inr hcarried
    | destroy x =>
      obtain ⟨_, ⟨⟩⟩ := Option.ite_none_right_eq_some.mp hstep
      obtain ⟨hbits, hlist, _⟩ := destroy_objects traits s x
      have ho : e.object ≠ x := by
        intro ho
        rw [ho] at hlive
        exact destroy_obj h x e.ghost hlive
      refine .inl ⟨by rwa [hbits], ?_⟩
      rw [hlist]
      split
      · exact hin
      · exact (List.mem_erase_of_ne ho).mpr hin
    | _ => cases hdirtied
  · obtain ⟨hbits, hlist, _⟩ := (Moves.kept (step_moves h hexact hstep)).objects hdirtied
    dsimp only at hbits hlist
    refine .inl ⟨?_, ?_⟩
    · rwa [hbits]
    · rwa [hlist]

theorem mem_incurred {a : Action} (he : e ∈ incurred s a) : ∃ bits,
    a = .setMaskBits e.object bits ∧ e.ghost ∈ s.mFirstObjectRef e.object ∧ e.bit < 32 ∧
      bits.getLsbD e.bit = true ∧ e.since = s.nextRef := by
  cases a with
  | setMaskBits x bits =>
    obtain ⟨g, hg, he⟩ := List.mem_flatMap.mp he
    obtain ⟨bit, hbit, rfl⟩ := List.mem_map.mp he
    obtain ⟨hlt, hset⟩ := List.mem_filter.mp hbit
    exact ⟨bits, rfl, hg, List.mem_range.mp hlt, hset, rfl⟩
  | _ => cases he

theorem step_ledgerSound {l m : Ledger} {a : Action} (h : l.LedgerSound)
    (hexact : l.server.ClearsExactly a) (hstep : l.step traits a = some m) : m.LedgerSound := by
  obtain ⟨t, hserver, rfl⟩ := Option.map_eq_some_iff.mp hstep
  have hmoves := step_moves h.sound hexact hserver
  refine ⟨Moves.sound hmoves h.sound, step_listed hserver h.sound hexact h.listed, ?_⟩
  intro e he
  obtain ⟨he, hlive⟩ := List.mem_filter.mp he
  have hlive : t.obj e.ghost = some e.object := of_decide_eq_true hlive
  have hle : l.server.nextRef ≤ t.nextRef := (Moves.kept hmoves).nextRef_le
  rcases List.mem_append.mp he with he | he
  · obtain ⟨he, hkeep⟩ := List.mem_filter.mp he
    have hkeep : takenBack a e = false := by simpa using hkeep
    obtain ⟨hbit, hsince, hold, howed⟩ := h.owed e he
    refine ⟨hbit, hsince.trans hle, hlive, ?_⟩
    rcases howed with hdirty | hcarried
    · exact step_dirty hserver h.sound hexact hbit hsince hkeep hold hlive hdirty
    · refine .inr (hmoves.carried h.sound hbit hsince ?_ ?_ (fun _ => hcarried.mono ?_) hlive)
      · exact fun r hr => List.mem_append_right _ (mem_arriving hr)
      · intro bits hcleared
        cases a with
        | clearMaskBits x bits' =>
          obtain ⟨hobj, rfl⟩ := hcleared
          have ho : e.object = x := Option.some.inj (hold.symm.trans hobj)
          simpa [takenBack, ho] using hkeep
        | _ => cases hcleared
      · exact fun r => List.mem_append_left _
  · obtain ⟨bits, rfl, hg, hbit, hset, hsince⟩ := mem_incurred he
    obtain ⟨⟨halive, _⟩, ⟨⟩⟩ := Option.ite_none_right_eq_some.mp hserver
    obtain ⟨hbits, hlist, _⟩ := setMaskBits_objects l.server e.object bits
    refine ⟨hbit, hsince.le.trans hle, hlive, .inl ⟨?_, ?_⟩⟩
    · dsimp only
      rw [hbits, Function.update_self, BitVec.getLsbD_or, hset, Bool.or_true]
    · dsimp only
      rw [hlist]
      split
      · exact List.mem_cons_self
      · rename_i hdirty
        exact h.listed e.object halive hdirty

/-- Where a bit that is owed can be: among the dirty bits of the object, in the update mask of the
ghost, in the mask of a reference in flight, or in one that has arrived and was made after the bit
was set. -/
def Accounted (l : Ledger) (e : Owed) : Prop :=
  (l.server.mDirtyMaskBits e.object).getLsbD e.bit = true ∨
    (l.server.updateMask e.ghost).getLsbD e.bit = true ∨
    (∃ note ∈ l.server.notifyQueue, ∃ r ∈ note.ghostList,
      (l.server.refs r).ghost = e.ghost ∧ (l.server.refs r).mask.getLsbD e.bit = true) ∨
    ∃ r ∈ l.arrived, e.since ≤ r ∧ (l.server.refs r).ghost = e.ghost ∧
      (l.server.refs r).mask.getLsbD e.bit = true

theorem LedgerSound.accounted {l : Ledger} (h : l.LedgerSound) (he : e ∈ l.owed) : l.Accounted e := by
  obtain ⟨_, _, _, ⟨hset, _⟩ | hmask | ⟨r, hr, _, hghost, hsince, hset⟩⟩ := h.owed e he
  · exact .inl hset
  · exact .inr (.inl hmask)
  · rcases hr with hr | hr
    · obtain ⟨hr, _⟩ := List.mem_filter.mp hr
      obtain ⟨note, hnote, hr⟩ := List.mem_flatMap.mp hr
      exact .inr (.inr (.inl ⟨note, hnote, r, hr, hghost, hset⟩))
    · exact .inr (.inr (.inr ⟨r, hr, hsince, hghost, hset⟩))

/-- No update is lost: in every run, everything owed is kept. -/
theorem no_update_lost {alive : ℕ → Bool} {as : List Action} {l : Ledger}
    (run : Run (step traits) (fun l => l.server.ClearsExactly) (start alive) as l) :
    ∀ e ∈ l.owed, l.Accounted e :=
  fun _ he => (run.invariant (fun _ _ _ h hexact hstep => step_ledgerSound h hexact hstep)
    (start_ledgerSound alive)).accounted he

theorem no_update_lost_one : ∃ l : Ledger, l.arrived = [0] ∧ l.owed.length = 1 ∧
    ∀ e ∈ l.owed, l.Accounted e := by
  have hreached : (exec (step .plain) (start fun _ => true)
      [.objectInScope 0, .rpcReadyForNormalGhosts, .setMaskBits 0 1, .collapseDirtyList,
        .writePacket true [GhostArray.new.mGhostArray 0] [0], .packetReceived]).map
        (fun l => (l.arrived, l.owed.length)) = some ([0], 1) := by decide +kernel
  obtain ⟨l, hexec, hl⟩ := Option.map_eq_some_iff.mp hreached
  obtain ⟨harrived, howed⟩ := Prod.mk.inj hl
  refine ⟨l, harrived, howed, no_update_lost (.of_exec_of_forall ?_ hexec)⟩
  intro l a ha
  simp only [List.mem_cons, List.not_mem_nil, or_false] at ha
  rcases ha with rfl | rfl | rfl | rfl | rfl | rfl <;> trivial

end Ledger

end TNL.GhostServer
