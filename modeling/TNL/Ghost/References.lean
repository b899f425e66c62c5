import TNL.Ghost.Sound

/-!
# References to ghosts

Each record written for a ghost adds a reference to the end of its chain, and
each notify takes the oldest one away. A lost reference gives back the bits
that no newer one carries.
-/
namespace TNL.GhostServer
open GhostArray

variable {s : GhostServer} {flight : Flight} {g : Ghost} {refs : ℕ → GhostRef} {r : ℕ} {rs : List ℕ}

section written

/-- Extending a chain: the last reference now points to the new one. -/
theorem Chained.append (h : Chained refs rs) (hsorted : rs.Pairwise (· < ·)) {upd : ℕ}
    {refs' : ℕ → GhostRef} (hlast : ∀ r ∈ rs, (refs' r).updateChain =
      if rs.getLast? = some r then some upd else (refs r).updateChain)
    (hnew : (refs' upd).updateChain = none) : Chained refs' (rs ++ [upd]) := by
  induction rs with
  | nil => exact ⟨hnew, trivial⟩
  | cons r rs ih =>
    obtain ⟨hhead, htail⟩ := h
    obtain ⟨hlt, hrest⟩ := List.pairwise_cons.mp hsorted
    have hr := hlast r List.mem_cons_self
    cases rs with
    | nil =>
      refine ⟨?_, hnew, trivial⟩
      simpa using hr
    | cons r' rs =>
      refine ⟨?_, ih htail hrest ?_⟩
      · have hne : (r' :: rs).getLast? ≠ some r := by
          intro heq
          exact absurd (hlt r (List.mem_of_getLast? heq)) (lt_irrefl r)
        rw [List.getLast?_cons_cons, if_neg hne] at hr
        rw [hr, hhead]
        rfl
      · intro x hx
        rw [hlast x (List.mem_cons_of_mem _ hx), List.getLast?_cons_cons]

theorem Chained.congr (h : Chained refs rs) {refs' : ℕ → GhostRef}
    (hsame : ∀ r ∈ rs, (refs' r).updateChain = (refs r).updateChain) : Chained refs' rs := by
  induction rs with
  | nil => trivial
  | cons r rs ih =>
    exact ⟨(hsame r List.mem_cons_self).trans h.1,
      ih h.2 (fun x hx => hsame x (List.mem_cons_of_mem _ hx))⟩

/-- The references in flight after one more has been written for a ghost. -/
def Flight.push (flight : Flight) (g : Ghost) (r : ℕ) : Flight :=
  Function.update flight g (flight g ++ [r])

/-- What a record written for a ghost does to it. -/
theorem writeRecord_eq (s : GhostServer) (g : Ghost) (leftOver : Mask) :
    s.writeRecord g leftOver = { s with
      nextRef := s.nextRef + 1
      lastUpdateChain := Function.update s.lastUpdateChain g (some s.nextRef)
      flags := Function.update s.flags g
        (if (s.flags g).killGhost then { s.flags g with killGhost := false, killingGhost := true }
        else if (s.flags g).notYetGhosted then
          { s.flags g with notYetGhosted := false, ghosting := true }
        else s.flags g)
      updateMask := Function.update s.updateMask g
        (if (s.flags g).killGhost then 0 else leftOver &&& s.updateMask g)
      array := if (s.flags g).killGhost ∨ leftOver &&& s.updateMask g = 0 then
        s.array.ghostPushToZero g else s.array
      refs := s.linked g
        ⟨if (s.flags g).killGhost then s.updateMask g
          else s.updateMask g &&& ~~~(leftOver &&& s.updateMask g),
        if (s.flags g).killGhost then .killingGhost
          else if (s.flags g).notYetGhosted then .ghosting else .update,
        g, none, s.recordOf g⟩ } := by
  unfold writeRecord
  by_cases hkill : (s.flags g).killGhost = true
  · simp only [hkill, if_true, true_or]
  · by_cases hnot : (s.flags g).notYetGhosted = true
    · simp only [hkill, hnot, if_true, if_false, false_or, Bool.false_eq_true]
    · simp only [hkill, hnot, if_false, false_or, Function.update_eq_self, Bool.false_eq_true]

/-- Linking a new reference changes nothing else about the older ones. -/
theorem linked_old (s : GhostServer) (g : Ghost) (ref : GhostRef) {r : ℕ} (hr : r ≠ s.nextRef) :
    s.linked g ref r = { s.refs r with
      updateChain :=
        if s.lastUpdateChain g = some r then some s.nextRef else (s.refs r).updateChain } := by
  unfold linked
  rw [Function.update_of_ne hr]
  cases hlast : s.lastUpdateChain g with
  | none => rfl
  | some last =>
    dsimp only
    by_cases hrl : r = last
    · simp [hrl]
    · simp [hrl, Ne.symm hrl]

theorem linked_new (s : GhostServer) (g : Ghost) (ref : GhostRef) :
    s.linked g ref s.nextRef = ref :=
  Function.update_self ..

/-- Writing a record for a pending ghost that is neither being created nor being deleted, nor to be
deleted without ever having been sent. -/
theorem Sound.writeRecord (h : Sound s flight) (hp : s.array.Pending g)
    (hkilling : (s.flags g).killingGhost = false) (hghosting : (s.flags g).ghosting = false)
    (hunsent : ¬ ((s.flags g).killGhost = true ∧ (s.flags g).notYetGhosted = true))
    (leftOver : Mask) : Sound (s.writeRecord g leftOver) (flight.push g s.nextRef) ∧
      (s.writeRecord g leftOver).array.Allocated = s.array.Allocated := by
  rw [writeRecord_eq]
  have hg := h.masked.valid.allocated_of_pending hp
  set flags' : GhostFlags := if (s.flags g).killGhost then
      { s.flags g with killGhost := false, killingGhost := true }
    else if (s.flags g).notYetGhosted then
      { s.flags g with notYetGhosted := false, ghosting := true }
    else s.flags g with hflags'
  set kind : GhostInfoFlags := if (s.flags g).killGhost then .killingGhost
    else if (s.flags g).notYetGhosted then .ghosting else .update with hkind
  set mask' : Mask := if (s.flags g).killGhost then 0 else leftOver &&& s.updateMask g with hmask'
  generalize href : GhostRef.mk _ kind g none (s.recordOf g) = ref
  have hrefghost : ref.ghost = g := by rw [← href]
  have hrefkind : ref.ghostInfoFlags = kind := by rw [← href]
  have hrefchain : ref.updateChain = none := by rw [← href]
  -- the array
  have harray : Masked (if (s.flags g).killGhost = true ∨ leftOver &&& s.updateMask g = 0 then
        s.array.ghostPushToZero g else s.array) (Function.update s.updateMask g mask') ∧
      (if (s.flags g).killGhost = true ∨ leftOver &&& s.updateMask g = 0 then
        s.array.ghostPushToZero g else s.array).Allocated = s.array.Allocated := by
    by_cases hzero : (s.flags g).killGhost = true ∨ leftOver &&& s.updateMask g = 0
    · have hmask : mask' = 0 := by
        rw [hmask']
        split
        · rfl
        · rename_i hkill
          exact hzero.resolve_left hkill
      rw [if_pos hzero, hmask]
      exact h.masked.lower hp
    · rw [if_neg hzero]
      refine ⟨h.masked.set (iff_of_false ?_ ((h.masked.pending_iff g).mp hp)), rfl⟩
      rw [hmask', if_neg (fun hkill => hzero (.inl hkill))]
      exact fun hmask => hzero (.inr hmask)
  -- the older references
  have hold : ∀ x, ∀ r ∈ flight x, r ≠ s.nextRef := fun x r hr =>
    (h.ghosts.owned x r hr).2.ne
  have hkinds : ∀ x, kinds (s.linked g ref) (flight x) = kinds s.refs (flight x) := by
    intro x
    refine List.map_congr_left fun r hr => ?_
    rw [linked_old s g ref (hold x r hr)]
  have hphase : Phase flags' (kinds s.refs (flight g) ++ [kind]) := by
    have hphase := h.ghosts.phase g hg
    generalize kinds s.refs (flight g) = ks at hphase ⊢
    cases hphase with
    | notYetGhosted hnot _ _ =>
      have hkill : (s.flags g).killGhost = false := by
        cases hkill : (s.flags g).killGhost with
        | false => rfl
        | true => exact absurd ⟨hkill, hnot⟩ hunsent
      simp only [hflags', hkind, hkill, hnot, if_true, Bool.false_eq_true, if_false]
      exact .ghosting rfl rfl hkilling
    | ghosting _ hsent _ =>
      rw [hghosting] at hsent
      cases hsent
    | live hnot _ _ n =>
      by_cases hkill : (s.flags g).killGhost = true
      · simp only [hflags', hkind, hkill, if_true]
        refine .killing ?_ ?_ ?_ n
        · exact hnot
        · exact hghosting
        · rfl
      · simp only [hflags', hkind, hkill, hnot, Bool.false_eq_true, if_false]
        rw [← List.replicate_succ']
        exact .live hnot hghosting hkilling (n + 1)
    | killing _ _ hkilled _ =>
      rw [hkilling] at hkilled
      cases hkilled
  refine ⟨⟨harray.1, ?_⟩, harray.2⟩
  dsimp only
  rw [harray.2]
  refine { h.ghosts with
    unallocated := ?_, detached := ?_, phase := ?_, chained := ?_, last := ?_, owned := ?_
    increasing := ?_ }
  · intro x hx
    have hxg : x ≠ g := fun heq => hx (heq ▸ hg)
    simpa [Flight.push, hxg] using h.ghosts.unallocated x hx
  · intro x hx
    have hiff := h.ghosts.detached x hx
    by_cases hxg : x = g
    · subst hxg
      simp only [Function.update_self, hflags']
      by_cases hkill : (s.flags x).killGhost = true
      · simpa [hkill] using hiff
      · by_cases hnot : (s.flags x).notYetGhosted = true <;> simpa [hkill, hnot] using hiff
    · simpa [hxg] using hiff
  · intro x hx
    by_cases hxg : x = g
    · subst hxg
      have happend : kinds (s.linked x ref) (flight x ++ [s.nextRef]) =
          kinds s.refs (flight x) ++ [kind] := by
        rw [kinds, List.map_append, ← hkinds x, List.map_singleton, linked_new, hrefkind]
        rfl
      simpa only [Flight.push, Function.update_self, happend] using hphase
    · simpa [Flight.push, hxg, hkinds x] using h.ghosts.phase x hx
  · intro x
    by_cases hxg : x = g
    · subst hxg
      simp only [Flight.push, Function.update_self]
      refine (h.ghosts.chained x).append (h.ghosts.increasing x) ?_ (by rw [linked_new, hrefchain])
      intro r hr
      rw [linked_old s x ref (hold x r hr), h.ghosts.last]
    · simp only [Flight.push, Function.update_of_ne hxg]
      refine (h.ghosts.chained x).congr fun r hr => ?_
      have hne : s.lastUpdateChain g ≠ some r := by
        intro hlast
        rw [h.ghosts.last] at hlast
        have howner := (h.ghosts.owned g r (List.mem_of_getLast? hlast)).1
        exact hxg ((h.ghosts.owned x r hr).1.symm.trans howner)
      rw [linked_old s g ref (hold x r hr), if_neg hne]
  · intro x
    by_cases hxg : x = g
    · subst hxg
      simp [Flight.push]
    · simpa [Flight.push, hxg] using h.ghosts.last x
  · intro x r hr
    by_cases hnew : r = s.nextRef
    · subst hnew
      have hxg : x = g := by
        by_contra hxg
        simp only [Flight.push, Function.update_of_ne hxg] at hr
        exact hold x _ hr rfl
      dsimp only
      rw [linked_new, hrefghost]
      exact ⟨hxg.symm, Nat.lt_succ_self _⟩
    · have hr' : r ∈ flight x := by
        by_cases hxg : x = g
        · subst hxg
          simpa [Flight.push, hnew] using hr
        · simpa [Flight.push, hxg] using hr
      obtain ⟨howner, hlt⟩ := h.ghosts.owned x r hr'
      dsimp only
      rw [linked_old s g ref hnew]
      exact ⟨howner, Nat.lt_succ_of_lt hlt⟩
  · intro x
    by_cases hxg : x = g
    · subst hxg
      simp only [Flight.push, Function.update_self]
      refine List.pairwise_append.mpr ⟨h.ghosts.increasing x, List.pairwise_singleton .., ?_⟩
      intro r hr r' hr'
      rw [List.mem_singleton.mp hr']
      exact (h.ghosts.owned x r hr).2
    · simpa [Flight.push, hxg] using h.ghosts.increasing x

end written

section notified

theorem uncarried_zero (fuel : ℕ) (walk : Option ℕ) : uncarried refs fuel walk 0 = 0 := by
  cases fuel with
  | zero => rfl
  | succ fuel => cases walk <;> simp [uncarried]

/-- A lost reference gives back its bits less those of every newer one. -/
theorem uncarried_eq (h : Chained refs rs) {fuel : ℕ} (hfuel : rs.length ≤ fuel) (bits : Mask) :
    uncarried refs fuel rs.head? bits = rs.foldl (fun bits r => bits &&& ~~~(refs r).mask) bits := by
  induction rs generalizing fuel bits with
  | nil => cases fuel <;> rfl
  | cons r rs ih =>
    rcases h with ⟨hhead, htail⟩
    cases fuel with
    | zero => cases hfuel
    | succ fuel =>
      have hrest := ih htail (Nat.le_of_succ_le_succ hfuel) (bits &&& ~~~(refs r).mask)
      rw [List.head?_cons, List.foldl_cons, ← hrest, uncarried, hhead]
      split
      · rename_i hzero
        rw [hzero, show (0 : Mask) &&& ~~~(refs r).mask = 0 from BitVec.zero_and, uncarried_zero]
      · rfl

theorem foldl_carried (refs : ℕ → GhostRef) (rs : List ℕ) (bits : Mask) (i : ℕ) :
    (rs.foldl (fun bits r => bits &&& ~~~(refs r).mask) bits).getLsbD i = true ↔
      bits.getLsbD i = true ∧ ∀ r ∈ rs, (refs r).mask.getLsbD i = false := by
  induction rs generalizing bits with
  | nil => simp
  | cons r rs ih =>
    rw [List.foldl_cons, ih]
    constructor
    · rintro ⟨hbit, hrest⟩
      by_cases hi : i < 32 <;> simp_all
    · rintro ⟨hbit, hrest⟩
      have hi := BitVec.lt_of_getLsbD hbit
      simp_all

/-- The flags of a ghost after its oldest reference has been lost. -/
def droppedFlags (f : GhostFlags) : GhostInfoFlags → GhostFlags
  | .ghosting => { f with notYetGhosted := true, ghosting := false }
  | .killingGhost => { f with killGhost := true, killingGhost := false }
  | .update => f

/-- The flags of a ghost after its oldest reference has arrived. -/
def receivedFlags (f : GhostFlags) : GhostInfoFlags → GhostFlags
  | .ghosting => { f with ghosting := false }
  | .killingGhost => f
  | .update => f

theorem Phase.live_nil {f : GhostFlags} (hnot : f.notYetGhosted = false)
    (hghosting : f.ghosting = false) (hkilling : f.killingGhost = false) : Phase f [] :=
  .live hnot hghosting hkilling 0

/-- What the oldest reference of a ghost and its flags say about each other. -/
theorem Phase.pop {f : GhostFlags} {k : GhostInfoFlags} {ks : List GhostInfoFlags}
    (h : Phase f (k :: ks)) : Phase (droppedFlags f k) ks ∧
      (k ≠ .killingGhost → Phase (receivedFlags f k) ks) ∧
      (k = .killingGhost → ks = [] ∧ f.killingGhost = true) := by
  generalize hall : k :: ks = all at h
  cases h with
  | notYetGhosted _ _ _ => cases hall
  | ghosting hnot hghosting hkilling =>
    obtain ⟨rfl, rfl⟩ := List.cons.inj hall
    exact ⟨.notYetGhosted rfl rfl hkilling, fun _ => .live_nil hnot rfl hkilling, nofun⟩
  | live hnot hghosting hkilling n =>
    cases n with
    | zero => cases hall
    | succ n =>
      obtain ⟨rfl, rfl⟩ := List.cons.inj hall
      exact ⟨.live hnot hghosting hkilling n, fun _ => .live hnot hghosting hkilling n, nofun⟩
  | killing hnot hghosting hkilling n =>
    cases n with
    | zero =>
      obtain ⟨rfl, rfl⟩ := List.cons.inj hall
      exact ⟨.live_nil hnot hghosting rfl, fun hk => absurd rfl hk, fun _ => ⟨rfl, hkilling⟩⟩
    | succ n =>
      obtain ⟨rfl, rfl⟩ := List.cons.inj hall
      exact ⟨.killing hnot hghosting hkilling n, fun _ => .killing hnot hghosting hkilling n, nofun⟩

/-- Only a reference that is the last one of its ghost has to be forgotten. -/
theorem GhostsSound.unchain_eq {allocated : Ghost → Prop} (h : GhostsSound allocated s flight)
    (hflight : flight g = r :: rs) : s.unchain r =
      { s with lastUpdateChain := Function.update s.lastUpdateChain g rs.getLast? } := by
  have howner : (s.refs r).ghost = g := (h.owned g r (by simp [hflight])).1
  have hlast : s.lastUpdateChain g = (r :: rs).getLast? := by rw [h.last, hflight]
  unfold unchain
  dsimp only
  rw [howner]
  cases rs with
  | nil =>
    rw [if_pos (by simpa using hlast), List.getLast?_nil]
  | cons r' rs =>
    have hne : s.lastUpdateChain g ≠ some r := by
      intro heq
      have hincreasing := h.increasing g
      rw [hflight] at hincreasing
      rw [hlast, List.getLast?_cons_cons] at heq
      exact lt_irrefl r ((List.pairwise_cons.mp hincreasing).1 r (List.mem_of_getLast? heq))
    rw [if_neg hne, ← List.getLast?_cons_cons (a := r), ← hlast, Function.update_eq_self]

/-- Taking away the oldest reference of a ghost. -/
theorem GhostsSound.popped {allocated : Ghost → Prop} (h : GhostsSound allocated s flight)
    (hg : allocated g) (hflight : flight g = r :: rs) {f : GhostFlags}
    (hphase : Phase f (kinds s.refs rs))
    (hdetached : s.obj g = none ↔ f.killGhost = true ∨ f.killingGhost = true) :
    GhostsSound allocated { s with
        lastUpdateChain := Function.update s.lastUpdateChain g rs.getLast?
        flags := Function.update s.flags g f } (flight.pop g rs) := by
  have hother : ∀ {x}, x ≠ g → flight.pop g rs x = flight x := fun hx => Function.update_of_ne hx ..
  have hself : flight.pop g rs g = rs := Function.update_self ..
  have hsub : ∀ x, (flight.pop g rs x).Sublist (flight x) := by
    intro x
    by_cases hxg : x = g
    · rw [hxg, hself, hflight]
      exact List.sublist_cons_self r rs
    · rw [hother hxg]
  refine { h with
    unallocated := ?_, detached := ?_, phase := ?_, chained := ?_, last := ?_, owned := ?_
    increasing := ?_ }
  · intro x hx
    have hxg : x ≠ g := fun heq => hx (heq ▸ hg)
    rw [hother hxg]
    exact h.unallocated x hx
  · intro x hx
    by_cases hxg : x = g
    · simpa [hxg] using hdetached
    · simpa [hxg] using h.detached x hx
  · intro x hx
    by_cases hxg : x = g
    · subst hxg
      simpa [hself] using hphase
    · simpa [hother hxg, hxg] using h.phase x hx
  · intro x
    by_cases hxg : x = g
    · have hchained := h.chained g
      rw [hflight] at hchained
      rw [hxg, hself]
      exact hchained.2
    · rw [hother hxg]
      exact h.chained x
  · intro x
    by_cases hxg : x = g
    · simp [hxg, hself]
    · simpa [hother hxg, hxg] using h.last x
  · exact fun x r' hr' => h.owned x r' ((hsub x).subset hr')
  · exact fun x => (h.increasing x).sublist (hsub x)

theorem Sound.allocated_of_flight (h : Sound s flight) (hflight : flight g = r :: rs) :
    s.array.Allocated g := by
  by_contra hg
  have hempty := h.ghosts.unallocated g hg
  rw [hflight] at hempty
  cases hempty

/-- The bits that a lost reference gives back. -/
def restored (s : GhostServer) (r : ℕ) (rs : List ℕ) : Mask :=
  rs.foldl (fun bits r => bits &&& ~~~(s.refs r).mask) (s.refs r).mask

theorem Sound.refDropped_eq (h : Sound s flight) (hflight : flight g = r :: rs) :
    s.refDropped r =
      { (if s.restored r rs = 0 then s else s.addMask g (s.restored r rs)) with
        lastUpdateChain := Function.update s.lastUpdateChain g rs.getLast?
        flags := Function.update s.flags g
          (droppedFlags (s.flags g) (s.refs r).ghostInfoFlags) } := by
  have howned := h.ghosts.owned g
  rw [hflight] at howned
  have hchained := h.ghosts.chained g
  rw [hflight] at hchained
  have hfuel : rs.length ≤ s.nextRef := by
    have hincreasing := h.ghosts.increasing g
    rw [hflight] at hincreasing
    have hnodup : rs.Nodup := (List.pairwise_cons.mp hincreasing).2.imp fun hlt => hlt.ne
    have hsub : rs ⊆ List.range s.nextRef := fun x hx =>
      List.mem_range.mpr (howned x (List.mem_cons_of_mem r hx)).2
    simpa using (List.subperm_of_subset hnodup hsub).length_le
  have hbits : uncarried s.refs s.nextRef (s.refs r).updateChain (s.refs r).mask =
      s.restored r rs := by
    rw [hchained.1, uncarried_eq hchained.2 hfuel]
    rfl
  set bits := s.restored r rs
  unfold refDropped
  dsimp only
  rw [hbits, (howned r List.mem_cons_self).1]
  have hghosts : GhostsSound s.array.Allocated (if bits = 0 then s else s.addMask g bits) flight := by
    split
    · exact h.ghosts
    · rw [addMask_eq]
      exact { h.ghosts with }
  rw [hghosts.unchain_eq hflight]
  have hsame : (if bits = 0 then s else s.addMask g bits).lastUpdateChain = s.lastUpdateChain ∧
      (if bits = 0 then s else s.addMask g bits).flags = s.flags := by
    split
    · exact ⟨rfl, rfl⟩
    · rw [addMask_eq]
      exact ⟨rfl, rfl⟩
  cases hkind : (s.refs r).ghostInfoFlags with
  | update => simp only [hsame.1, droppedFlags, Function.update_eq_self, ← hsame.2]
  | ghosting => simp only [hsame.1, hsame.2, GhostServer.setFlags, droppedFlags]
  | killingGhost => simp only [hsame.1, hsame.2, GhostServer.setFlags, droppedFlags]

theorem Sound.refDropped (h : Sound s flight) (hflight : flight g = r :: rs) :
    Sound (s.refDropped r) (flight.pop g rs) ∧
      (s.refDropped r).array.Allocated = s.array.Allocated := by
  have hg := h.allocated_of_flight hflight
  have hphase : Phase (s.flags g) ((s.refs r).ghostInfoFlags :: kinds s.refs rs) := by
    have hphase := h.ghosts.phase g hg
    rwa [hflight] at hphase
  rw [h.refDropped_eq hflight]
  have hpop : ∀ s' : GhostServer, Sound s' flight → s'.array.Allocated = s.array.Allocated →
      s'.refs = s.refs → s'.obj = s.obj → s'.flags = s.flags →
      s'.lastUpdateChain = s.lastUpdateChain →
      Sound { s' with
        lastUpdateChain := Function.update s.lastUpdateChain g rs.getLast?
        flags := Function.update s.flags g (droppedFlags (s.flags g) (s.refs r).ghostInfoFlags) }
        (flight.pop g rs) := by
    intro s' hs' hallocated hrefs hobj hflags hlast
    rw [← hflags, ← hlast]
    refine ⟨hs'.masked, hs'.ghosts.popped (hallocated ▸ hg) hflight ?_ ?_⟩
    · rw [hflags, hrefs]
      exact hphase.pop.1
    · rw [hflags, hobj, h.ghosts.detached g hg]
      cases hkind : (s.refs r).ghostInfoFlags with
      | update => rfl
      | ghosting => rfl
      | killingGhost =>
        exact iff_of_true (.inr (hphase.pop.2.2 hkind).2) (.inl rfl)
  split
  · exact ⟨hpop s h rfl rfl rfl rfl rfl, rfl⟩
  · rename_i hbits
    have hadd := h.addMask hg hbits
    have hallocated : (s.addMask g (s.restored r rs)).array.Allocated = s.array.Allocated := by
      have hmask : s.updateMask g ||| s.restored r rs ≠ 0 := by
        simpa [BitVec.or_eq_zero_iff] using fun _ => hbits
      rw [addMask_eq]
      exact (h.masked.raise hg hmask).2
    rw [addMask_eq] at hadd hallocated ⊢
    exact ⟨hpop _ hadd hallocated rfl rfl rfl rfl, hallocated⟩

/-- The reference of a deletion is the only one left when it arrives. -/
theorem Sound.refReceived_kill (h : Sound s flight) (hflight : flight g = r :: rs)
    (hkind : (s.refs r).ghostInfoFlags = .killingGhost) :
    rs = [] ∧ s.obj g = none ∧ s.refReceived r = (s.forget g).freeGhostInfo g := by
  have hg := h.allocated_of_flight hflight
  have hphase := h.ghosts.phase g hg
  rw [hflight] at hphase
  obtain ⟨hempty, hkilling⟩ := hphase.pop.2.2 hkind
  have hrs : rs = [] := List.map_eq_nil_iff.mp hempty
  refine ⟨hrs, (h.ghosts.detached g hg).mpr (.inr hkilling), ?_⟩
  unfold GhostServer.refReceived
  dsimp only
  rw [(h.ghosts.owned g r (by simp [hflight])).1, hkind, h.ghosts.unchain_eq hflight, hrs]
  rfl

theorem Sound.refReceived_eq (h : Sound s flight) (hflight : flight g = r :: rs)
    (hkind : (s.refs r).ghostInfoFlags ≠ .killingGhost) : s.refReceived r = { s with
      lastUpdateChain := Function.update s.lastUpdateChain g rs.getLast?
      flags := Function.update s.flags g
        (receivedFlags (s.flags g) (s.refs r).ghostInfoFlags) } := by
  unfold GhostServer.refReceived
  dsimp only
  rw [(h.ghosts.owned g r (by simp [hflight])).1, h.ghosts.unchain_eq hflight]
  cases hk : (s.refs r).ghostInfoFlags with
  | update => simp only [receivedFlags, Function.update_eq_self]
  | ghosting => simp only [receivedFlags, GhostServer.setFlags]
  | killingGhost => exact absurd hk hkind

theorem Sound.refReceived (h : Sound s flight) (hflight : flight g = r :: rs) :
    Sound (s.refReceived r) (flight.pop g rs) := by
  have hg := h.allocated_of_flight hflight
  have hphase := h.ghosts.phase g hg
  rw [hflight] at hphase
  by_cases hkind : (s.refs r).ghostInfoFlags = .killingGhost
  · obtain ⟨rfl, hobj, heq⟩ := h.refReceived_kill hflight hkind
    rw [heq]
    exact (h.release hg hobj).1
  · rw [h.refReceived_eq hflight hkind]
    refine ⟨h.masked, h.ghosts.popped hg hflight (hphase.pop.2.1 hkind) ?_⟩
    rw [h.ghosts.detached g hg]
    cases hk : (s.refs r).ghostInfoFlags with
    | update => rfl
    | ghosting => rfl
    | killingGhost => exact absurd hk hkind

end notified

end TNL.GhostServer
