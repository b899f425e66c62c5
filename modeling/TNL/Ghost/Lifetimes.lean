import TNL.Ghost.GhostLink
import TNL.Ghost.Operations

/-!
# Ghost lifetimes

Which ghosts the client has follows from what the server knows to have arrived
and from the references in flight that do arrive. Every move of the server keeps
the two sides in agreement, and a record that is written is one the client
understands.
-/
namespace TNL.GhostServer
open GhostArray

/-- Whether the client has a ghost once a reference has arrived. -/
def afterRef : GhostInfoFlags → Bool → Bool
  | .update, b => b
  | .ghosting, _ => true
  | .killingGhost, _ => false

/-- Whether the client has a ghost once those of its references that arrive have done so. -/
def present (arrives : ℕ → Bool) (refs : ℕ → GhostRef) (rs : List ℕ) (b : Bool) : Bool :=
  rs.foldl (fun b r => if arrives r then afterRef (refs r).ghostInfoFlags b else b) b

/-- The creation of the ghost is known to have arrived. -/
def sent (f : GhostFlags) : Bool := !(f.notYetGhosted || f.ghosting)

/-- What is written for a ghost of an object. -/
def recordFor (g : Ghost) (o : ℕ) : GhostInfoFlags → GhostRecord
  | .update => ⟨g.val, false, false, some o⟩
  | .ghosting => ⟨g.val, false, true, some o⟩
  | .killingGhost => ⟨g.val, true, false, none⟩

/-- Where the references that arrive leave the client's entry for a ghost. -/
structure Matches (arrives : ℕ → Bool) (g : Ghost) (obj : Option ℕ) (sent : Bool)
    (refs : ℕ → GhostRef) (rs : List ℕ) (entry : Option LocalGhost) (o : ℕ) : Prop where
  owner : ∀ o', obj = some o' → o' = o
  records : ∀ r ∈ rs, (refs r).record = recordFor g o (refs r).ghostInfoFlags
  entry : entry.map LocalGhost.object =
    if present arrives refs rs sent then some (some o) else none

/-- The client's table agrees with the server and the references in flight. -/
structure Matched (arrives : ℕ → Bool) (s : GhostServer) (flight : Flight)
    (table : ℕ → Option LocalGhost) : Prop where
  bounded : ∀ i x, table i = some x → i < maxGhostCount
  unallocated : ∀ g : Ghost, ¬ s.array.Allocated g → table g.val = none
  allocated : ∀ g : Ghost, s.array.Allocated g →
    ∃ o, Matches arrives g (s.obj g) (sent (s.flags g)) s.refs (flight g) (table g.val) o

variable {traits : ObjectTraits} {causes : Causes} {s t : GhostServer} {flight flight' : Flight}
  {arrives : ℕ → Bool} {g : Ghost} {table : ℕ → Option LocalGhost} {r : ℕ} {rs : List ℕ} {o : ℕ}

theorem present_cons (refs : ℕ → GhostRef) (b : Bool) : present arrives refs (r :: rs) b =
    present arrives refs rs (if arrives r then afterRef (refs r).ghostInfoFlags b else b) :=
  rfl

theorem present_concat (refs : ℕ → GhostRef) (b : Bool) : present arrives refs (rs ++ [r]) b =
    if arrives r then afterRef (refs r).ghostInfoFlags (present arrives refs rs b)
    else present arrives refs rs b := by
  rw [present, List.foldl_append]
  rfl

theorem present_congr {arrives' : ℕ → Bool} {refs refs' : ℕ → GhostRef} {b : Bool}
    (harrives : ∀ r ∈ rs, arrives' r = arrives r)
    (hrefs : ∀ r ∈ rs, (refs' r).ghostInfoFlags = (refs r).ghostInfoFlags) :
    present arrives' refs' rs b = present arrives refs rs b := by
  induction rs generalizing b with
  | nil => rfl
  | cons r rs ih =>
    rw [present_cons, present_cons, harrives r List.mem_cons_self, hrefs r List.mem_cons_self]
    exact ih (fun r' hr' => harrives r' (List.mem_cons_of_mem r hr'))
      fun r' hr' => hrefs r' (List.mem_cons_of_mem r hr')

/-- Updates neither create nor delete. -/
theorem present_updates {refs : ℕ → GhostRef} {n : ℕ} {b : Bool}
    (h : kinds refs rs = List.replicate n .update) : present arrives refs rs b = b := by
  induction rs generalizing n b with
  | nil => rfl
  | cons r rs ih =>
    cases n with
    | zero => cases h
    | succ n =>
      obtain ⟨hkind, hrest⟩ := List.cons.inj h
      dsimp only at hkind
      rw [present_cons, hkind, afterRef, ite_self]
      exact ih hrest

theorem Kept.kind_eq (h : Kept causes s t) (hr : r < s.nextRef) :
    (t.refs r).ghostInfoFlags = (s.refs r).ghostInfoFlags :=
  have hsame := congrArg GhostRef.ghostInfoFlags (h.refs r hr)
  hsame

theorem Kept.record_eq (h : Kept causes s t) (hr : r < s.nextRef) :
    (t.refs r).record = (s.refs r).record :=
  have hsame := congrArg GhostRef.record (h.refs r hr)
  hsame

/-- The owner of a ghost is forgotten, or nothing changes. -/
theorem Matches.congr {arrives' : ℕ → Bool} {obj obj' : Option ℕ} {b : Bool}
    {refs refs' : ℕ → GhostRef} {entry : Option LocalGhost}
    (h : Matches arrives g obj b refs rs entry o) (hobj : obj' = obj ∨ obj' = none)
    (harrives : ∀ r ∈ rs, arrives' r = arrives r)
    (hkinds : ∀ r ∈ rs, (refs' r).ghostInfoFlags = (refs r).ghostInfoFlags)
    (hrecords : ∀ r ∈ rs, (refs' r).record = (refs r).record) :
    Matches arrives' g obj' b refs' rs entry o where
  owner o' ho' := by
    rcases hobj with rfl | rfl
    · exact h.owner o' ho'
    · cases ho'
  records r hr := by rw [hrecords r hr, hkinds r hr, h.records r hr]
  entry := by rw [present_congr harrives hkinds, h.entry]

/-- Ghosts that a move is not about. -/
theorem Matched.others (h : Matched arrives s flight table) (hs : Sound s flight)
    (hkept : Kept causes s t) {x : Ghost} (hx : s.array.Allocated x)
    (hobj : t.obj x = s.obj x ∨ t.obj x = none) (hsent : sent (t.flags x) = sent (s.flags x))
    (hflight : flight' x = flight x) : ∃ o,
      Matches arrives x (t.obj x) (sent (t.flags x)) t.refs (flight' x) (table x.val) o := by
  obtain ⟨o, ho⟩ := h.allocated x hx
  rw [hsent, hflight]
  have hlt : ∀ r ∈ flight x, r < s.nextRef := fun r hr => (hs.ghosts.owned x r hr).2
  exact ⟨o, ho.congr hobj (fun _ _ => rfl) (fun r hr => hkept.kind_eq (hlt r hr))
    fun r hr => hkept.record_eq (hlt r hr)⟩

/-- Moves that only change what the client does not depend on. -/
theorem Matched.keep (h : Matched arrives s flight table) (hs : Sound s flight)
    (hkept : Kept causes s t) (hallocated : t.array.Allocated = s.array.Allocated)
    (hobj : ∀ x, t.obj x = s.obj x ∨ t.obj x = none)
    (hsent : ∀ x, sent (t.flags x) = sent (s.flags x)) : Matched arrives t flight table where
  bounded := h.bounded
  unallocated x hx := h.unallocated x (hallocated ▸ hx)
  allocated x hx := h.others hs hkept (hallocated ▸ hx) (hobj x) (hsent x) rfl

section freed

/-- A ghost that the client does not have may be freed. -/
theorem Matched.freed (h : Matched arrives s flight table) (hs : Sound s flight)
    (hkept : Kept causes s t) (hallocated : ∀ x, t.array.Allocated x ↔ x ≠ g ∧ s.array.Allocated x)
    (hnone : table g.val = none) (hobj : t.obj = s.obj) (hflags : t.flags = s.flags)
    (hflight : ∀ x, x ≠ g → flight' x = flight x) : Matched arrives t flight' table where
  bounded := h.bounded
  unallocated x hx := by
    by_cases hxg : x = g
    · rw [hxg, hnone]
    · exact h.unallocated x fun hold => hx ((hallocated x).mpr ⟨hxg, hold⟩)
  allocated x hx := by
    obtain ⟨hxg, hold⟩ := (hallocated x).mp hx
    exact h.others hs hkept hold (.inl (by rw [hobj])) (by rw [hflags]) (hflight x hxg)

/-- A ghost whose creation has not been sent is not on the client. -/
theorem Matched.notYetGhosted (h : Matched arrives s flight table) (hs : Sound s flight)
    (hg : s.array.Allocated g) (hnot : (s.flags g).notYetGhosted = true) : table g.val = none := by
  obtain ⟨o, ho⟩ := h.allocated g hg
  have hentry := ho.entry
  rw [hs.flight_of_notYetGhosted hg hnot] at hentry
  simpa [present, sent, hnot] using hentry

theorem Matched.addGhost (h : Matched arrives s flight table) (hs : Sound s flight)
    (hg : ¬ s.array.Allocated g) (o : ℕ) :
    Matched arrives (s.addGhost traits o g) flight table := by
  have hallocated : ∀ x, (s.addGhost traits o g).array.Allocated x ↔ x = g ∨ s.array.Allocated x :=
    (hs.addGhost hg o).2
  have hkept : Kept .none s (s.addGhost traits o g) := .of_ghosts ..
  constructor
  · exact h.bounded
  · exact fun x hx => h.unallocated x fun hold => hx ((hallocated x).mpr (.inr hold))
  · intro x hx
    by_cases hxg : x = g
    · subst hxg
      refine ⟨o, ?_, ?_, ?_⟩
      · intro o' ho'
        dsimp only [GhostServer.addGhost] at ho'
        rw [Function.update_self] at ho'
        exact (Option.some.inj ho').symm
      · rw [hs.ghosts.unallocated x hg]
        exact fun r hr => absurd hr List.not_mem_nil
      · rw [hs.ghosts.unallocated x hg, h.unallocated x hg]
        simp [GhostServer.addGhost, present, sent]
    · have hold := ((hallocated x).mp hx).resolve_left hxg
      refine h.others hs hkept hold (.inl ?_) ?_ rfl
      · exact Function.update_of_ne hxg ..
      · dsimp only [GhostServer.addGhost]
        rw [Function.update_of_ne hxg]

end freed

section notified

/-- The oldest reference and the flags agree on what is known to have arrived. -/
theorem Phase.sent_pop {f : GhostFlags} {k : GhostInfoFlags} {ks : List GhostInfoFlags}
    (h : Phase f (k :: ks)) : sent (droppedFlags f k) = sent f ∧
      (k ≠ .killingGhost → sent (receivedFlags f k) = afterRef k (sent f)) := by
  generalize hall : k :: ks = all at h
  cases h with
  | notYetGhosted _ _ _ => cases hall
  | ghosting hnot hghosting hkilling =>
    obtain ⟨rfl, rfl⟩ := List.cons.inj hall
    simp [sent, droppedFlags, receivedFlags, afterRef, hnot, hghosting]
  | live hnot hghosting hkilling n =>
    cases n with
    | zero => cases hall
    | succ n =>
      obtain ⟨rfl, rfl⟩ := List.cons.inj hall
      simp [droppedFlags, receivedFlags, afterRef]
  | killing hnot hghosting hkilling n =>
    cases n with
    | zero =>
      obtain ⟨rfl, rfl⟩ := List.cons.inj hall
      simp [sent, droppedFlags]
    | succ n =>
      obtain ⟨rfl, rfl⟩ := List.cons.inj hall
      simp [droppedFlags, receivedFlags, afterRef]

/-- Taking away the oldest reference of a ghost, with the flags that its fate gives. -/
theorem Matched.popped (h : Matched arrives s flight table) (hs : Sound s flight)
    (hflight : flight g = r :: rs) (hkept : Kept causes s t)
    (hallocated : t.array.Allocated = s.array.Allocated) (hobj : t.obj = s.obj)
    (hothers : ∀ x, x ≠ g → t.flags x = s.flags x)
    (hsent : sent (t.flags g) = if arrives r then
      afterRef (s.refs r).ghostInfoFlags (sent (s.flags g)) else sent (s.flags g)) :
    Matched arrives t (flight.pop g rs) table where
  bounded := h.bounded
  unallocated x hx := h.unallocated x (hallocated ▸ hx)
  allocated x hx := by
    have hx' : s.array.Allocated x := hallocated ▸ hx
    by_cases hxg : x = g
    · subst hxg
      obtain ⟨o, ho⟩ := h.allocated x hx'
      have hlt : ∀ r' ∈ rs, r' < s.nextRef := fun r' hr' =>
        (hs.ghosts.owned x r' (hflight ▸ List.mem_cons_of_mem r hr')).2
      have hrecords := ho.records
      have hentry := ho.entry
      rw [hflight] at hrecords hentry
      rw [Flight.pop, Function.update_self, hobj, hsent]
      have hrest : Matches arrives x (s.obj x) (if arrives r then
          afterRef (s.refs r).ghostInfoFlags (sent (s.flags x)) else sent (s.flags x)) s.refs rs
          (table x.val) o :=
        ⟨ho.owner, fun r' hr' => hrecords r' (List.mem_cons_of_mem r hr'), hentry⟩
      exact ⟨o, hrest.congr (.inl rfl) (fun _ _ => rfl) (fun r' hr' => hkept.kind_eq (hlt r' hr'))
        fun r' hr' => hkept.record_eq (hlt r' hr')⟩
    · exact h.others hs hkept hx' (.inl (by rw [hobj])) (by rw [hothers x hxg])
        (Function.update_of_ne hxg ..)

theorem Matched.dropped (h : Matched arrives s flight table) (hs : Sound s flight)
    (hflight : flight g = r :: rs) (hlost : arrives r = false) :
    Matched arrives (s.refDropped r) (flight.pop g rs) table := by
  have hphase := hs.ghosts.phase g (hs.allocated_of_flight hflight)
  rw [hflight] at hphase
  have hflags : (s.refDropped r).flags = Function.update s.flags g
      (droppedFlags (s.flags g) (s.refs r).ghostInfoFlags) := by
    rw [hs.refDropped_eq hflight]
  have hobj : (s.refDropped r).obj = s.obj := by
    rw [hs.refDropped_eq hflight]
    dsimp only
    split
    · rfl
    · rw [addMask_eq]
  have hkept : Kept .none s (s.refDropped r) := refDropped_kept r
  refine h.popped hs hflight hkept (hs.refDropped hflight).2 hobj (fun x hx => ?_) ?_
  · rw [hflags, Function.update_of_ne hx]
  · rw [hflags, Function.update_self, hphase.sent_pop.1, hlost]
    rfl

theorem Matched.received (h : Matched arrives s flight table) (hs : Sound s flight)
    (hflight : flight g = r :: rs) (harrived : arrives r = true) :
    Matched arrives (s.refReceived r) (flight.pop g rs) table := by
  have hg := hs.allocated_of_flight hflight
  have hkept : Kept .none s (s.refReceived r) := refReceived_kept r
  by_cases hkind : (s.refs r).ghostInfoFlags = .killingGhost
  · obtain ⟨rfl, hobj, heq⟩ := hs.refReceived_kill hflight hkind
    have hnone : table g.val = none := by
      obtain ⟨o, ho⟩ := h.allocated g hg
      have hentry := ho.entry
      rw [hflight, present_cons, harrived, hkind] at hentry
      simpa [present, afterRef] using hentry
    rw [heq] at hkept ⊢
    refine h.freed hs hkept (hs.release hg hobj).2 hnone ?_ ?_ fun x hx =>
      Function.update_of_ne hx ..
    · rw [freeGhostInfo_obj]
      rfl
    · rw [freeGhostInfo_flags]
      rfl
  · have hphase := hs.ghosts.phase g hg
    rw [hflight] at hphase
    have heq := hs.refReceived_eq hflight hkind
    refine h.popped hs hflight hkept ?_ ?_ (fun x hx => ?_) ?_
    · rw [heq]
    · rw [heq]
    · rw [heq]
      exact Function.update_of_ne hx ..
    · rw [heq]
      dsimp only
      rw [Function.update_self, hphase.sent_pop.2 hkind, harrived]
      rfl

end notified

section written

/-- A deletion finds a ghost, a class id is read exactly when it was written, and an update is
unpacked by the ghost of the object that packed it. -/
def Understood (idSize : ℕ) (table : ℕ → Option LocalGhost) (r : GhostRecord) : Prop :=
  if r.killGhost then table (r.index % 2 ^ idSize) ≠ none
  else (r.classId = true ↔ table (r.index % 2 ^ idSize) = none) ∧
    ∀ x, table (r.index % 2 ^ idSize) = some x → x.object = r.object

/-- The records of a packet are understood one after the other. -/
def UnderstoodAll (session : U32) (idSize : ℕ) :
    (ℕ → Option LocalGhost) → List GhostRecord → Prop
  | _, [] => True
  | table, r :: records => Understood idSize table r ∧
    UnderstoodAll session idSize (GhostLink.readRecord session idSize table r) records

variable {session : U32} {idSize : ℕ}

theorem readRecord_of_ne {record : GhostRecord} {i : ℕ} (hi : i ≠ record.index % 2 ^ idSize) :
    GhostLink.readRecord session idSize table record i = table i := by
  unfold GhostLink.readRecord
  split
  · exact Function.update_of_ne hi ..
  · cases table (record.index % 2 ^ idSize) with
    | none => exact Function.update_of_ne hi ..
    | some x => rfl

/-- What a record does to the entry of its ghost. -/
theorem read_recordFor (session : U32) {k : GhostInfoFlags} {b : Bool} (hsize : g.val < 2 ^ idSize)
    (hentry : (table g.val).map LocalGhost.object = if b then some (some o) else none)
    (hk : b = decide (k ≠ .ghosting)) : Understood idSize table (recordFor g o k) ∧
      (GhostLink.readRecord session idSize table (recordFor g o k) g.val).map LocalGhost.object =
        if afterRef k b then some (some o) else none := by
  have hindex : g.val % 2 ^ idSize = g.val := Nat.mod_eq_of_lt hsize
  unfold Understood GhostLink.readRecord
  cases k with
  | update =>
    subst hk
    obtain ⟨x, hx, hobject⟩ := Option.map_eq_some_iff.mp hentry
    simp [recordFor, hindex, hx, hobject, afterRef]
  | ghosting =>
    subst hk
    have hnone : table g.val = none := Option.map_eq_none_iff.mp hentry
    simp [recordFor, hindex, hnone, afterRef]
  | killingGhost =>
    subst hk
    obtain ⟨x, hx, hobject⟩ := Option.map_eq_some_iff.mp hentry
    simp [recordFor, hindex, hx, afterRef]

/-- What is written for a pending ghost. -/
theorem Sound.recordOf_eq (hs : Sound s flight) (hg : s.array.Allocated g)
    (hkilling : (s.flags g).killingGhost = false) (ho : ∀ o', s.obj g = some o' → o' = o) :
    s.recordOf g = recordFor g o (if (s.flags g).killGhost then .killingGhost
      else if (s.flags g).notYetGhosted then .ghosting else .update) := by
  unfold recordOf
  by_cases hkill : (s.flags g).killGhost = true
  · simp [hkill, recordFor]
  · have hobj : s.obj g = some o := by
      cases hobj : s.obj g with
      | none =>
        have hgone := (hs.ghosts.detached g hg).mp hobj
        rw [hkilling] at hgone
        exact absurd (hgone.resolve_right Bool.false_ne_true) hkill
      | some o' => rw [ho o' hobj]
    by_cases hnot : (s.flags g).notYetGhosted = true <;> simp [hkill, hnot, hobj, recordFor]

/-- The kind of the record that is written for a pending ghost. -/
def kindOf (f : GhostFlags) : GhostInfoFlags :=
  if f.killGhost then .killingGhost else if f.notYetGhosted then .ghosting else .update

/-- A pending ghost whose creation and deletion are not under way is on the client exactly when it
is not its creation that is written. -/
theorem Sound.present_of_pending (hs : Sound s flight) (hg : s.array.Allocated g)
    (hkilling : (s.flags g).killingGhost = false) (hghosting : (s.flags g).ghosting = false)
    (hsend : s.Sendable g) : present arrives s.refs (flight g) (sent (s.flags g)) =
      decide (kindOf (s.flags g) ≠ .ghosting) := by
  have hphase := hs.ghosts.phase g hg
  generalize hks : kinds s.refs (flight g) = ks at hphase
  cases hphase with
  | notYetGhosted hnot _ _ =>
    have hkill : (s.flags g).killGhost = false := by
      by_contra hkill
      exact hsend ⟨eq_true_of_ne_false hkill, hnot⟩
    rw [List.map_eq_nil_iff.mp hks]
    simp [present, sent, kindOf, hnot, hkill]
  | ghosting _ hsent _ => rw [hghosting] at hsent; cases hsent
  | live hnot _ _ n =>
    rw [present_updates hks]
    by_cases hkill : (s.flags g).killGhost = true <;> simp [sent, kindOf, hnot, hghosting, hkill]
  | killing _ _ hkilled _ => rw [hkilling] at hkilled; cases hkilled

/-- A record is written: its ghost's entry is as if the record had been read when it arrives. -/
theorem Matched.written (h : Matched arrives s flight table) (hs : Sound s flight)
    (hp : s.array.Pending g) (hkilling : (s.flags g).killingGhost = false)
    (hghosting : (s.flags g).ghosting = false) (hsend : s.Sendable g) (leftOver : Mask)
    {table' : ℕ → Option LocalGhost} (hother : ∀ i, i ≠ g.val → table' i = table i)
    (hentry : ∀ o, (∀ o', s.obj g = some o' → o' = o) → ∀ b : Bool,
      b = decide (kindOf (s.flags g) ≠ .ghosting) →
      (table g.val).map LocalGhost.object = (if b then some (some o) else none) →
      (table' g.val).map LocalGhost.object =
        if (if arrives s.nextRef then afterRef (kindOf (s.flags g)) b else b) then some (some o)
        else none) :
    Matched arrives (s.writeRecord g leftOver) (flight.push g s.nextRef) table' := by
  have hg := hs.masked.valid.allocated_of_pending hp
  have hallocated := (hs.writeRecord hp hkilling hghosting hsend leftOver).2
  have hkept : Kept .none s (s.writeRecord g leftOver) := writeRecord_kept g leftOver
  have hobj : (s.writeRecord g leftOver).obj = s.obj := by rw [writeRecord_eq]
  have hnew : ((s.writeRecord g leftOver).refs s.nextRef).ghostInfoFlags = kindOf (s.flags g) ∧
      ((s.writeRecord g leftOver).refs s.nextRef).record = s.recordOf g := by
    rw [writeRecord_eq]
    dsimp only
    rw [linked_new]
    exact ⟨rfl, rfl⟩
  have hsent : sent ((s.writeRecord g leftOver).flags g) = sent (s.flags g) := by
    rw [writeRecord_eq]
    dsimp only
    rw [Function.update_self]
    by_cases hkill : (s.flags g).killGhost = true
    · simp [hkill, sent]
    · by_cases hnot : (s.flags g).notYetGhosted = true <;> simp [hkill, hnot, sent]
  have hdown : ∀ x : Ghost, x ≠ g → table' x.val = table x.val := fun x hx =>
    hother x.val fun heq => hx (Fin.ext heq)
  constructor
  · intro i x hi
    by_cases hig : i = g.val
    · rw [hig]
      exact g.isLt
    · exact h.bounded i x (hother i hig ▸ hi)
  · intro x hx
    have hxg : x ≠ g := by
      rintro rfl
      exact hx (hallocated ▸ hg)
    rw [hdown x hxg]
    exact h.unallocated x (hallocated ▸ hx)
  · intro x hx
    by_cases hxg : x = g
    · subst hxg
      obtain ⟨o, ho⟩ := h.allocated x hg
      have hlt : ∀ r ∈ flight x, r < s.nextRef := fun r hr => (hs.ghosts.owned x r hr).2
      have hpresent : present arrives s.refs (flight x) (sent (s.flags x)) = _ :=
        hs.present_of_pending hg hkilling hghosting hsend
      have hkinds : ∀ r ∈ flight x, ((s.writeRecord x leftOver).refs r).ghostInfoFlags =
          (s.refs r).ghostInfoFlags := fun r hr => hkept.kind_eq (hlt r hr)
      rw [Flight.push, Function.update_self, hobj, hsent]
      refine ⟨o, ho.owner, ?_, ?_⟩
      · intro r hr
        rcases List.mem_append.mp hr with hr | hr
        · rw [hkept.record_eq (hlt r hr), hkinds r hr, ho.records r hr]
        · rw [List.mem_singleton.mp hr, hnew.1, hnew.2, hs.recordOf_eq hg hkilling ho.owner]
          rfl
      · rw [present_concat, hnew.1, present_congr (fun _ _ => rfl) hkinds]
        exact hentry o ho.owner _ hpresent ho.entry
    · rw [hdown x hxg]
      refine h.others hs hkept (hallocated ▸ hx) (.inl (by rw [hobj])) ?_ ?_
      · rw [writeRecord_flags hxg]
      · exact Function.update_of_ne hxg ..

end written

section moves

theorem clearMask_allocated (h : Sound s flight) (bits : Mask) :
    (s.clearMask bits g).array.Allocated = s.array.Allocated := by
  unfold GhostServer.clearMask
  split
  · rename_i hequal
    exact (h.masked.lower ((h.masked.pending_iff g).mpr hequal.1)).2
  · rfl

/-- A move that writes a record: it is understood, and reading it gives the client's table if the
record arrives. -/
def Written (arrives : ℕ → Bool) (p q : GhostServer × Flight)
    (table : ℕ → Option LocalGhost) : Prop :=
  q.1.nextRef = p.1.nextRef + 1 ∧
  (arrives p.1.nextRef = false → Matched arrives q.1 q.2 table) ∧
  (arrives p.1.nextRef = true → ∀ (session : U32) (idSize : ℕ),
    (q.1.refs p.1.nextRef).record.index < 2 ^ idSize →
    Understood idSize table (q.1.refs p.1.nextRef).record ∧
      Matched arrives q.1 q.2
        (GhostLink.readRecord session idSize table (q.1.refs p.1.nextRef).record))

theorem Matched.write (h : Matched arrives s flight table) (hs : Sound s flight)
    (hp : s.array.Pending g) (hkilling : (s.flags g).killingGhost = false)
    (hghosting : (s.flags g).ghosting = false) (hsend : s.Sendable g) (leftOver : Mask) :
    Written arrives (s, flight) (s.writeRecord g leftOver, flight.push g s.nextRef) table := by
  have hg := hs.masked.valid.allocated_of_pending hp
  have hrecord : ((s.writeRecord g leftOver).refs s.nextRef).record = s.recordOf g := by
    rw [writeRecord_eq]
    dsimp only
    rw [linked_new]
  have hindex : (s.recordOf g).index = g.val := by
    unfold recordOf
    split <;> rfl
  have hpresent : present arrives s.refs (flight g) (sent (s.flags g)) =
      decide (kindOf (s.flags g) ≠ .ghosting) := hs.present_of_pending hg hkilling hghosting hsend
  refine ⟨by rw [writeRecord_eq], fun hlost => ?_, fun harrives session idSize hsize => ?_⟩
  · dsimp only at hlost
    apply h.written hs hp hkilling hghosting hsend leftOver (fun _ _ => rfl)
    intro o _ b _ hentry
    rw [hlost]
    exact hentry
  · dsimp only at harrives hsize ⊢
    rw [hrecord] at hsize ⊢
    have hsmall : g.val < 2 ^ idSize := hindex ▸ hsize
    constructor
    · rcases h.allocated g hg with ⟨o, ho⟩
      have hentry := ho.entry
      rw [hpresent] at hentry
      rw [hs.recordOf_eq hg hkilling ho.owner]
      exact (read_recordFor session hsmall hentry rfl).1
    · apply h.written hs hp hkilling hghosting hsend leftOver
      · intro i hi
        apply readRecord_of_ne
        rwa [hindex, Nat.mod_eq_of_lt hsmall]
      · intro o ho b hb hentry
        rw [harrives, if_pos rfl, hs.recordOf_eq hg hkilling ho]
        exact (read_recordFor session hsmall hentry hb).2

/-- A move leaves the agreement as it is, if what it takes from the references in flight is their
fate and what it writes is lost. -/
theorem Move.matched {p q : GhostServer × Flight} (m : Move traits causes p q)
    (h : Matched arrives p.1 p.2 table) (hs : Sound p.1 p.2)
    (hreceived : ∀ r, causes.received r → arrives r = true)
    (hdropped : ∀ r, causes.dropped r → arrives r = false) (hreleased : ¬ causes.released)
    (hlost : ∀ r, p.1.nextRef ≤ r → arrives r = false) : Matched arrives q.1 q.2 table := by
  cases m with
  | session s flight mGhosting =>
    exact h.keep hs (.of_ghosts causes ..) rfl (fun _ => .inl rfl) fun _ => rfl
  | leave hleave => exact absurd hleave hreleased
  | queue hqueued s flight notifyQueue =>
    exact ⟨h.bounded, h.unallocated, h.allocated⟩
  | objects hdirtied s flight alive mDirtyMaskBits mDirtyList =>
    exact ⟨h.bounded, h.unallocated, h.allocated⟩
  | scope s flight g inScope scopeLocalAlways =>
    have hkept : Kept causes s (s.setFlags g fun f =>
        { f with inScope := inScope, scopeLocalAlways := scopeLocalAlways }) := setFlags_kept ..
    refine h.keep hs hkept rfl (fun _ => .inl rfl) fun x => ?_
    by_cases hx : x = g
    · simp [setFlags, hx, sent]
    · simp [setFlags, hx]
  | @reorder s order horder flight =>
    have hallocated : (s.array.reorder order).Allocated = s.array.Allocated := by
      funext x
      exact propext ((reorder_valid hs.masked.valid horder).2.2 x)
    have hkept : Kept causes s { s with array := s.array.reorder order } := .of_ghosts ..
    exact h.keep hs hkept hallocated (fun _ => .inl rfl) fun _ => rfl
  | @reset s hfree flight =>
    have hallocated : s.activateGhosting.array.Allocated = s.array.Allocated := by
      funext x
      simp [Allocated, GhostServer.activateGhosting, hfree]
    have hkept : Kept causes s s.activateGhosting := .of_ghosts ..
    exact h.keep hs hkept hallocated (fun _ => .inl rfl) fun _ => rfl
  | addGhost hscoping hg o flight => exact h.addGhost hs hg o
  | @addMask s g bits hg hbits flight =>
    have hkept : Kept causes s (s.addMask g bits) := addMask_kept ..
    apply h.keep hs hkept (addMask_allocated hs hg hbits)
    · intro x
      rw [addMask_eq]
      exact .inl rfl
    · intro x
      rw [addMask_eq]
  | @clearMask s g bits hcleared hbits flight =>
    have heq : s.clearMask bits g = { s with
        updateMask := (s.clearMask bits g).updateMask, array := (s.clearMask bits g).array } := by
      unfold GhostServer.clearMask
      split <;> rfl
    have hallocated := clearMask_allocated (g := g) hs bits
    dsimp only at hallocated ⊢
    rw [heq] at hallocated ⊢
    exact h.keep hs (.of_ghosts causes ..) hallocated (fun _ => .inl rfl) fun _ => rfl
  | @detach s g hg flight =>
    have hallocated : (s.detachObject traits g).array.Allocated = s.array.Allocated :=
      detachObject_allocated hs hg
    rcases detachObject_eq traits s g with ⟨table, heq⟩
    have hkept : Kept causes s (s.detachObject traits g) := detachObject_kept ..
    apply h.keep hs hkept hallocated
    · intro x
      dsimp only
      rw [heq]
      by_cases hx : x = g
      · exact .inr (hx ▸ Function.update_self ..)
      · exact .inl (Function.update_of_ne hx ..)
    · intro x
      dsimp only
      rw [heq]
      by_cases hx : x = g
      · simp [hx, sent]
      · simp [hx]
  | @free s g flight hg hobj hnot =>
    have hfree := hs.freeGhostInfo hg hobj (hs.flight_of_notYetGhosted hg hnot)
    have hkept : Kept causes s (s.freeGhostInfo g) := freeGhostInfo_kept ..
    exact h.freed hs hkept hfree.2 (h.notYetGhosted hs hg hnot)
      (freeGhostInfo_obj s g) (freeGhostInfo_flags s g) fun _ _ => rfl
  | release hrelease => exact absurd hrelease hreleased
  | write hp hkilling hghosting hunsent leftOver flight =>
    exact (h.write hs hp hkilling hghosting hunsent leftOver).2.1 (hlost _ le_rfl)
  | dropped hdrop hflight => exact h.dropped hs hflight (hdropped _ hdrop)
  | received hreceive hflight => exact h.received hs hflight (hreceived _ hreceive)

theorem Moves.matched {p q : GhostServer × Flight} (m : Moves traits causes p q)
    (h : Matched arrives p.1 p.2 table) (hs : Sound p.1 p.2)
    (hreceived : ∀ r, causes.received r → arrives r = true)
    (hdropped : ∀ r, causes.dropped r → arrives r = false) (hreleased : ¬ causes.released)
    (hlost : ∀ r, p.1.nextRef ≤ r → arrives r = false) : Matched arrives q.1 q.2 table := by
  induction m with
  | refl => exact h
  | tail init last ih =>
    exact last.matched ih (Moves.sound init hs) hreceived hdropped hreleased
      fun r hr => hlost r ((Moves.kept init).nextRef_le.trans hr)

/-- The fates of references that are not in flight do not matter. -/
theorem Matched.congr_arrives (h : Matched arrives s flight table) {arrives' : ℕ → Bool}
    (hsame : ∀ x, ∀ r ∈ flight x, arrives' r = arrives r) : Matched arrives' s flight table where
  bounded := h.bounded
  unallocated := h.unallocated
  allocated x hx := by
    obtain ⟨o, ho⟩ := h.allocated x hx
    exact ⟨o, ho.congr (.inl rfl) (hsame x) (fun _ _ => rfl) fun _ _ => rfl⟩

/-- What happens to the references that an operation finds. -/
def upTo (n : ℕ) (arrives : ℕ → Bool) (r : ℕ) : Bool := decide (r < n) && arrives r

theorem upTo_of_lt {n : ℕ} (hr : r < n) : upTo n arrives r = arrives r := by
  rw [upTo, decide_eq_true hr, Bool.true_and]

theorem upTo_of_le {n : ℕ} (hr : n ≤ r) : upTo n arrives r = false := by
  rw [upTo, decide_eq_false (Nat.not_lt.mpr hr), Bool.false_and]

/-- The same for an operation that makes no reference. -/
theorem Moves.matched_upTo (m : Moves traits causes (s, flight) (t, flight'))
    (h : Matched arrives s flight table) (hs : Sound s flight)
    (hreceived : ∀ r, causes.received r → r < s.nextRef ∧ arrives r = true)
    (hdropped : ∀ r, causes.dropped r → arrives r = false) (hreleased : ¬ causes.released) :
    Matched (upTo s.nextRef arrives) t flight' table := by
  apply m.matched ?_ hs ?_ ?_ hreleased fun r hr => upTo_of_le hr
  · exact h.congr_arrives fun x r hr => upTo_of_lt (hs.ghosts.owned x r hr).2
  · intro r hr
    rw [upTo_of_lt (hreceived r hr).1]
    exact (hreceived r hr).2
  · intro r hr
    rw [upTo, hdropped r hr, Bool.and_false]

end moves

section packets

/-- The packet's records are understood, and reading them gives the client's table if the packet
arrives. -/
structure ReadBack (arrives : ℕ → Bool) (packet : Bool) (session : U32) (idSize : ℕ)
    (table : ℕ → Option LocalGhost) (records : List GhostRecord) (t : GhostServer)
    (flight : Flight) : Prop where
  lost : packet = false → Matched arrives t flight table
  arrived : packet = true → UnderstoodAll session idSize table records ∧
    Matched arrives t flight (records.foldl (GhostLink.readRecord session idSize) table)

/-- The indices of all pending ghosts are at most the greatest one seen. -/
theorem freeUnsent_bound (h : Sound s flight) {i : ℕ} (maxIndex : ℕ)
    (hi : i ≤ s.array.mGhostZeroUpdateIndex)
    (hdone : ∀ x, s.array.Pending x → i ≤ s.array.arrayIndex x → x.val ≤ maxIndex) :
    ∀ x, (freeUnsent i maxIndex s).2.array.Pending x → x.val ≤ (freeUnsent i maxIndex s).1 := by
  induction i generalizing s maxIndex with
  | zero => exact fun x hx => hdone x hx (Nat.zero_le _)
  | succ i ih =>
    obtain ⟨hplace, hp⟩ := h.pending_place hi
    have hg := h.masked.valid.allocated_of_pending hp
    rw [freeUnsent]
    generalize s.array.mGhostArray i = walk at hplace hp hg
    have hseen : ∀ x, s.array.Pending x → i ≤ s.array.arrayIndex x →
        x.val ≤ max maxIndex walk.val := by
      intro x hx hle
      rcases Nat.lt_or_ge i (s.array.arrayIndex x) with hlt | hge
      · exact le_max_of_le_left (hdone x hx hlt)
      · have hsame : x = walk :=
          h.masked.valid.indexed.pos_inj ((Nat.le_antisymm hge hle).trans hplace.symm)
        rw [hsame]
        exact le_max_right ..
    split
    · rename_i hkill
      rw [Bool.and_eq_true] at hkill
      have hobj := (h.ghosts.detached walk hg).mpr (.inl hkill.1)
      have hempty := h.flight_of_notYetGhosted hg hkill.2
      obtain ⟨hzero, hkeeps⟩ := h.free_keeps hp
      apply ih (h.freeGhostInfo hg hobj hempty).1 _ (by omega)
      intro x hx hle
      obtain ⟨hne, hpending⟩ := h.free_pending hp hobj hempty hx
      apply hseen x hpending
      by_contra hlt
      have hkeep := hkeeps x (by omega)
      omega
    · exact ih h _ (Nat.le_of_succ_le hi) hseen

/-- Each record is read with the table that the records before it leave. -/
theorem writeRecords_readBack (traits : ObjectTraits) {session : U32} {idSize : ℕ} {packet : Bool}
    (h : Sound s flight) (hm : Matched arrives s flight table) {i : ℕ} (leftOver : List Mask)
    (updateList : List ℕ) (hi : i ≤ s.array.mGhostZeroUpdateIndex)
    (hsend : ∀ x, s.array.arrayIndex x < i → s.Sendable x)
    (hsize : ∀ x, s.array.arrayIndex x < i → x.val < 2 ^ idSize)
    (harrives : ∀ r, s.nextRef ≤ r → arrives r = packet) {new : List ℕ}
    (hwrite : writeRecords i leftOver s updateList = (t, new ++ updateList))
    (hflight : ∀ x, flight' x = flight x ++ new.filter fun r => (t.refs r).ghost = x) :
    ReadBack arrives packet session idSize table (new.reverse.map fun r => (t.refs r).record) t
      flight' := by
  induction i generalizing s flight leftOver updateList table new with
  | zero =>
    obtain ⟨rfl, hnew⟩ := Prod.mk.inj hwrite
    obtain rfl : new = [] := List.self_eq_append_left.mp hnew
    obtain rfl : flight' = flight := funext fun x => by simpa using hflight x
    exact ⟨fun _ => hm, fun _ => ⟨trivial, hm⟩⟩
  | succ i ih =>
    obtain ⟨hplace, hp⟩ := h.pending_place hi
    rw [writeRecords.eq_def] at hwrite
    dsimp only at hwrite
    generalize s.array.mGhostArray i = walk at hplace hp hwrite
    have hless : ∀ x, s.array.arrayIndex x < i → s.array.arrayIndex x < i + 1 :=
      fun _ hx => Nat.lt_succ_of_lt hx
    split at hwrite
    · exact ih h hm leftOver updateList (Nat.le_of_succ_le hi) (fun x hx => hsend x (hless x hx))
        (fun x hx => hsize x (hless x hx)) harrives hwrite hflight
    · rename_i hidle
      rw [Bool.or_eq_true, not_or, Bool.not_eq_true, Bool.not_eq_true] at hidle
      cases leftOver with
      | nil =>
        obtain ⟨rfl, hnew⟩ := Prod.mk.inj hwrite
        obtain rfl : new = [] := List.self_eq_append_left.mp hnew
        obtain rfl : flight' = flight := funext fun x => by simpa using hflight x
        exact ⟨fun _ => hm, fun _ => ⟨trivial, hm⟩⟩
      | cons mask leftOver =>
        have hsendable := hsend walk (by omega)
        have hsound := (h.writeRecord hp hidle.1 hidle.2 hsendable mask).1
        obtain ⟨hnext, hlost, harrived⟩ := hm.write h hp hidle.1 hidle.2 hsendable mask
        obtain ⟨hzero, hback, hsend'⟩ := h.write_next hp hplace hsend hidle.1 hidle.2 mask
        have hindex : ((s.writeRecord walk mask).refs s.nextRef).record.index = walk.val := by
          rw [writeRecord_eq]
          dsimp only
          rw [linked_new]
          dsimp only [recordOf]
          split <;> rfl
        dsimp only at hnext hlost harrived
        rw [harrives s.nextRef le_rfl] at hlost harrived
        obtain ⟨t', new', flight'', heq, hmoves, hnew, _⟩ := writeRecords_moves traits .none hsound
          leftOver (s.nextRef :: updateList) hzero hsend'
        obtain ⟨rfl, hlist⟩ := Prod.mk.inj (heq.symm.trans hwrite)
        obtain rfl : new = new' ++ [s.nextRef] := by
          rw [← List.singleton_append, ← List.append_assoc] at hlist
          exact (List.append_cancel_right hlist).symm
        have hkept := hmoves.kept
        have hold : s.nextRef < (s.writeRecord walk mask).nextRef := by omega
        have hghost : (t'.refs s.nextRef).ghost = walk :=
          (hkept.ghost_eq hold).trans (writeRecord_ghost mask)
        -- the other records of the packet are of other ghosts
        have hothers : ∀ x, flight' x = flight.push walk s.nextRef x ++
            new'.filter fun r => (t'.refs r).ghost = x := by
          intro x
          rw [hflight, List.filter_append]
          by_cases hx : x = walk
          · have hnone : (new'.filter fun r => (t'.refs r).ghost = x) = [] := by
              rw [List.filter_eq_nil_iff]
              intro r hr heq'
              have hlt := hback _ (hnew r hr)
              rw [of_decide_eq_true heq', hx, hplace] at hlt
              exact lt_irrefl i hlt
            rw [hnone]
            simp [hx, hghost, Flight.push]
          · simp [Flight.push, hx, hghost, Ne.symm hx]
        have hrest : ∀ {table' : ℕ → Option LocalGhost},
            Matched arrives (s.writeRecord walk mask) (flight.push walk s.nextRef) table' →
            ReadBack arrives packet session idSize table'
              (new'.reverse.map fun r => (t'.refs r).record) t' flight' :=
          fun hm' => ih hsound hm' leftOver (s.nextRef :: updateList) hzero hsend'
            (fun x hx => hsize x (hless x (hback x hx))) (fun r hr => harrives r (by omega)) heq
            hothers
        rw [List.reverse_append, List.reverse_singleton, List.singleton_append, List.map_cons,
          hkept.record_eq hold]
        constructor
        · exact fun hpacket => (hrest (hlost hpacket)).lost hpacket
        · intro hpacket
          obtain ⟨hunderstood, hmatched⟩ := harrived hpacket session idSize
            (hindex ▸ hsize walk (by omega))
          obtain ⟨hall, hend⟩ := (hrest hmatched).arrived hpacket
          exact ⟨⟨hunderstood, hall⟩, hend⟩

theorem mem_writeRecords (i : ℕ) (leftOver : List Mask) (s : GhostServer) (updateList : List ℕ)
    (hr : r ∈ (writeRecords i leftOver s updateList).2) : r ∈ updateList ∨ s.nextRef ≤ r := by
  induction i generalizing s leftOver updateList with
  | zero => exact .inl hr
  | succ i ih =>
    rw [writeRecords.eq_def] at hr
    dsimp only at hr
    split at hr
    · exact ih leftOver s updateList hr
    · cases leftOver with
      | nil => exact .inl hr
      | cons mask leftOver =>
        have hnext : s.nextRef ≤ (s.writeRecord (s.array.mGhostArray i) mask).nextRef := by
          rw [writeRecord_eq]
          exact Nat.le_succ _
        rcases ih leftOver _ _ hr with hold | hle
        · rcases List.mem_cons.mp hold with rfl | hold
          · exact .inr le_rfl
          · exact .inl hold
        · exact .inr (hnext.trans hle)

theorem lt_sendSize {n maxIndex : ℕ} (h : n ≤ maxIndex) : n < 2 ^ sendSize maxIndex := by
  have hlog : maxIndex < 2 ^ (Nat.log2 maxIndex + 1) := Nat.lt_log2_self
  exact h.trans_lt (hlog.trans_le (Nat.pow_le_pow_right (by decide) (le_max_right ..)))

/-- What a packet holds is understood once it arrives, and what arrives is what the server
expects. -/
theorem writePacket_readBack {scopeValid : Bool} {order : List Ghost} {leftOver : List Mask}
    (h : Sound s s.inFlight) (hm : Matched arrives s s.inFlight table) {packet : Bool}
    (harrives : ∀ r, s.nextRef ≤ r → arrives r = packet)
    (hwrite : s.writePacket traits scopeValid order leftOver = some t) :
    ∃ note, t.notifyQueue = s.notifyQueue ++ [note] ∧ (∀ r ∈ note.ghostList, s.nextRef ≤ r) ∧
      ∀ session, ReadBack arrives packet session note.sendSize table (t.records note) t
        t.inFlight := by
  unfold writePacket at hwrite
  split at hwrite
  · have hdetach := detachOutOfScope_moves traits .none h le_rfl
    have hsound := hdetach.sound h
    generalize detachOutOfScope traits _ s = s₁ at hwrite hdetach hsound
    dsimp only at hwrite hsound
    have hfree := freeUnsent_moves traits .none hsound 0 le_rfl
      fun x hx hout => absurd hx (Nat.not_lt.mpr hout)
    have hbound := freeUnsent_bound hsound 0 le_rfl
      fun x hx hout => absurd hx (Nat.not_lt.mpr hout)
    rcases hfreed : freeUnsent s₁.array.mGhostZeroUpdateIndex 0 s₁ with ⟨maxIndex, s₂⟩
    rw [hfreed] at hwrite hfree hbound
    rcases hfree with ⟨hfree, hsend⟩
    have hsound₂ : Sound s₂ s.inFlight := hfree.sound hsound
    dsimp only at hwrite hbound
    split at hwrite
    · rename_i horder
      have hreorder : Move traits .none (s₂, s.inFlight)
          ({ s₂ with array := s₂.array.reorder order }, s.inFlight) := .reorder horder _
      have hpending := (reorder_valid hsound₂.masked.valid horder).2.1
      have hbefore := (hdetach.trans hfree).trans (Moves.one hreorder)
      have hsound₃ := hreorder.sound hsound₂
      -- nothing is written before the records
      have hmatched : Matched arrives { s₂ with array := s₂.array.reorder order } s.inFlight
          table := by
        have hupTo := hbefore.matched_upTo hm h (fun r hr => hr.elim) (fun r hr => hr.elim) id
        exact hupTo.congr_arrives fun x r hr => (upTo_of_lt (h.ghosts.owned x r hr).2).symm
      have hlater : s.nextRef ≤ s₂.nextRef := hbefore.kept.nextRef_le
      obtain ⟨s₄, new, flight', heq, hrecords, _, hflight⟩ := writeRecords_moves traits
        .none hsound₃ leftOver [] le_rfl fun x hx => hsend x ((hpending x).mp hx)
      have hread : ∀ session, ReadBack arrives packet session (sendSize maxIndex) table
          (new.reverse.map fun r => (s₄.refs r).record) s₄ flight' := fun session =>
        writeRecords_readBack traits hsound₃ hmatched leftOver [] le_rfl
          (fun x hx => hsend x ((hpending x).mp hx))
          (fun x hx => lt_sendSize (hbound x ((hpending x).mp hx)))
          (fun r hr => harrives r (hlater.trans hr)) heq hflight
      have hmem : ∀ r ∈ new, s.nextRef ≤ r := by
        intro r hr
        have hlist := congrArg Prod.snd heq
        dsimp only at hlist
        rw [← List.append_nil new, ← hlist] at hr
        rcases mem_writeRecords _ _ _ _ hr with hnone | hle
        · exact absurd hnone List.not_mem_nil
        · exact hlater.trans hle
      have hmoves := hbefore.trans hrecords
      rw [List.append_nil] at heq
      rw [heq] at hwrite
      obtain rfl := Option.some.inj hwrite
      have hqueue : s₄.notifyQueue = s.notifyQueue := hmoves.kept.notifyQueue id
      have hend : inFlight { s₄ with
          notifyQueue := s₄.notifyQueue ++ [⟨new, sendSize maxIndex⟩] } = flight' := by
        funext x
        rw [hflight, inFlight]
        dsimp only
        rw [hqueue, List.flatMap_append, List.filter_append,
          h.filter_queue hmoves.kept (List.Subset.refl _)]
        simp [inFlight]
      refine ⟨⟨new, sendSize maxIndex⟩, by rw [← hqueue], hmem, fun session => ?_⟩
      rw [hend]
      exact ⟨fun hlost => { (hread session).lost hlost with }, fun harrived =>
        ⟨((hread session).arrived harrived).1, { ((hread session).arrived harrived).2 with }⟩⟩
    · cases hwrite
  · obtain rfl := Option.some.inj hwrite
    have hend : inFlight { s with notifyQueue := s.notifyQueue ++ [⟨[], 0⟩] } = s.inFlight := by
      funext x
      simp [inFlight]
    refine ⟨⟨[], 0⟩, rfl, fun r hr => absurd hr List.not_mem_nil, fun session => ?_⟩
    rw [hend]
    exact ⟨fun _ => { hm with }, fun _ => ⟨trivial, { hm with }⟩⟩

end packets

section notified

/-- The references in the queue have the fates of their packets; the first packet has number `n`. -/
def Fated (fate : ℕ → Bool) (n : ℕ) (arrives : ℕ → Bool) (s : GhostServer) : Prop :=
  ∀ j note, s.notifyQueue[j]? = some note → ∀ r ∈ note.ghostList, arrives r = fate (n + j)

variable {fate : ℕ → Bool} {n : ℕ}

theorem Sound.lt_of_getElem? (h : Sound s s.inFlight) {j : ℕ} {note : GhostPacket}
    (hnote : s.notifyQueue[j]? = some note) (hr : r ∈ note.ghostList) : r < s.nextRef :=
  h.queued_lt (List.mem_flatMap.mpr ⟨note, List.mem_of_getElem? hnote, hr⟩)

/-- Operations that leave the queue as it is do not change which references are in it. -/
theorem Fated.upTo (hfate : Fated fate n arrives s) (h : Sound s s.inFlight)
    (hqueue : t.notifyQueue = s.notifyQueue) : Fated fate n (upTo s.nextRef arrives) t := by
  intro j note hnote r hr
  rw [hqueue] at hnote
  rw [upTo_of_lt (h.lt_of_getElem? hnote hr)]
  exact hfate j note hnote r hr

theorem foldl_kept {f : GhostServer → ℕ → GhostServer} (hf : ∀ s r, Kept .none s (f s r))
    (rs : List ℕ) (s : GhostServer) : Kept .none s (rs.foldl f s) := by
  induction rs generalizing s with
  | nil => exact .refl ..
  | cons r rs ih => exact (hf s r).trans (ih (f s r))

theorem packetReceived_queue (hstep : s.packetReceived = some t) :
    ∃ note, s.notifyQueue = note :: t.notifyQueue := by
  unfold packetReceived at hstep
  cases hqueue : s.notifyQueue with
  | nil =>
    rw [hqueue] at hstep
    cases hstep
  | cons note rest =>
    rw [hqueue] at hstep
    obtain rfl := Option.some.inj hstep
    rw [(foldl_kept (fun _ r => refReceived_kept r) note.ghostList _).notifyQueue id]
    exact ⟨note, rfl⟩

theorem packetDropped_queue (hstep : s.packetDropped = some t) :
    ∃ note, s.notifyQueue = note :: t.notifyQueue := by
  unfold packetDropped at hstep
  cases hqueue : s.notifyQueue with
  | nil =>
    rw [hqueue] at hstep
    cases hstep
  | cons note rest =>
    rw [hqueue] at hstep
    obtain rfl := Option.some.inj hstep
    rw [(foldl_kept (fun _ r => refDropped_kept r) note.ghostList _).notifyQueue id]
    exact ⟨note, rfl⟩

theorem Fated.tail (hfate : Fated fate n arrives s) (h : Sound s s.inFlight) {note : GhostPacket}
    (hqueue : s.notifyQueue = note :: t.notifyQueue) :
    Fated fate (n + 1) (GhostServer.upTo s.nextRef arrives) t := by
  intro j note' hnote r hr
  have hnote' : s.notifyQueue[j + 1]? = some note' := by
    rw [hqueue]
    exact hnote
  rw [upTo_of_lt (h.lt_of_getElem? hnote' hr), hfate _ _ hnote' r hr, Nat.add_right_comm,
    Nat.add_assoc]

theorem Fated.oldest (hfate : Fated fate n arrives s) (h : Sound s s.inFlight)
    (hr : s.oldest r) : r < s.nextRef ∧ arrives r = fate n := by
  obtain ⟨note, hnote, hr⟩ := hr
  rw [List.head?_eq_getElem?] at hnote
  exact ⟨h.lt_of_getElem? hnote hr, hfate 0 note hnote r hr⟩

/-- Notifications that tell the fates of the packets keep up the agreement. -/
theorem notify_matched {acks : List Bool} (h : Sound s s.inFlight)
    (hm : Matched arrives s s.inFlight table) (hfate : Fated fate n arrives s)
    (hacks : ∀ (j : ℕ) (b : Bool), acks[j]? = some b → fate (n + j) = b)
    (hnotify : s.notify acks = some t) : Sound t t.inFlight ∧
      t.notifyQueue.length + acks.length = s.notifyQueue.length ∧
      ∃ arrives', Fated fate (n + acks.length) arrives' t ∧
        Matched arrives' t t.inFlight table := by
  induction acks generalizing s n arrives with
  | nil =>
    obtain rfl := Option.some.inj hnotify
    exact ⟨h, rfl, arrives, hfate, hm⟩
  | cons ack acks ih =>
    have hhead := hacks 0 ack rfl
    have htail : ∀ (j : ℕ) (b : Bool), acks[j]? = some b → fate (n + 1 + j) = b := by
      intro j b hj
      rw [Nat.add_right_comm]
      exact hacks (j + 1) b hj
    have hstep : ∀ u : GhostServer, (∃ note, s.notifyQueue = note :: u.notifyQueue) →
        Sound u u.inFlight → Matched (upTo s.nextRef arrives) u u.inFlight table →
        u.notify acks = some t → Sound t t.inFlight ∧
          t.notifyQueue.length + (ack :: acks).length = s.notifyQueue.length ∧
          ∃ arrives', Fated fate (n + (ack :: acks).length) arrives' t ∧
            Matched arrives' t t.inFlight table := by
      intro u hqueue hsound hmatched hrest
      obtain ⟨note, hqueue⟩ := hqueue
      obtain ⟨hend, hlength, hagree⟩ := ih hsound hmatched (hfate.tail h hqueue) htail hrest
      rw [List.length_cons, ← Nat.add_assoc, hlength, hqueue, List.length_cons]
      rw [show n + 1 + acks.length = n + (acks.length + 1) by omega] at hagree
      exact ⟨hend, rfl, hagree⟩
    cases ack with
    | true =>
      obtain ⟨u, hreceived, hrest⟩ := Option.bind_eq_some_iff.mp hnotify
      have hmoves : Moves .plain { Causes.none with received := s.oldest, queued := True }
          (s, s.inFlight) (u, u.inFlight) := packetReceived_moves h hreceived
      apply hstep u (packetReceived_queue hreceived) (hmoves.sound h) ?_ hrest
      refine hmoves.matched_upTo hm h (fun r hr => ?_) (fun r hr => hr.elim) id
      rw [← hhead]
      exact hfate.oldest h hr
    | false =>
      obtain ⟨u, hdropped, hrest⟩ := Option.bind_eq_some_iff.mp hnotify
      have hmoves : Moves .plain { Causes.none with dropped := s.oldest, queued := True }
          (s, s.inFlight) (u, u.inFlight) := packetDropped_moves h hdropped
      apply hstep u (packetDropped_queue hdropped) (hmoves.sound h) ?_ hrest
      refine hmoves.matched_upTo hm h (fun r hr => hr.elim) (fun r hr => ?_) id
      rw [← hhead]
      exact (hfate.oldest h hr).2

/-- The next packet joins the queue. -/
theorem writePacket_matched {scopeValid : Bool} {order : List Ghost} {leftOver : List Mask}
    (h : Sound s s.inFlight) (hm : Matched arrives s s.inFlight table)
    (hfate : Fated fate n arrives s)
    (hwrite : s.writePacket traits scopeValid order leftOver = some t) :
    ∃ note, t.notifyQueue = s.notifyQueue ++ [note] ∧ ∃ arrives', Fated fate n arrives' t ∧
      ∀ session, ReadBack arrives' (fate (n + s.notifyQueue.length)) session note.sendSize table
        (t.records note) t t.inFlight := by
  set arrives' : ℕ → Bool := fun r =>
    if r < s.nextRef then arrives r else fate (n + s.notifyQueue.length) with harrives'
  have hold : ∀ r < s.nextRef, arrives' r = arrives r := fun r hr => if_pos hr
  have hnew : ∀ r, s.nextRef ≤ r → arrives' r = fate (n + s.notifyQueue.length) :=
    fun r hr => if_neg (Nat.not_lt.mpr hr)
  have hm' : Matched arrives' s s.inFlight table :=
    hm.congr_arrives fun x r hr => hold r (h.ghosts.owned x r hr).2
  obtain ⟨note, hqueue, hrefs, hread⟩ := writePacket_readBack h hm' hnew hwrite
  refine ⟨note, hqueue, arrives', fun j note' hnote r hr => ?_, hread⟩
  rw [hqueue, List.getElem?_append] at hnote
  split_ifs at hnote with hlt
  · rw [hold r (h.lt_of_getElem? hnote hr)]
    exact hfate j note' hnote r hr
  · obtain ⟨hj, rfl⟩ := List.getElem?_eq_some_iff.mp hnote
    rw [List.length_singleton] at hj
    rw [List.getElem_singleton] at hr
    rw [hnew r (hrefs r hr)]
    congr 2
    omega

end notified

section released

/-- No ghost is left, and no packet in flight has references. -/
theorem clearGhostInfo_none (traits : ObjectTraits) (h : Sound s s.inFlight) :
    (∀ g, ¬ (s.clearGhostInfo traits).array.Allocated g) ∧
      (s.clearGhostInfo traits).notifyQueue =
        s.notifyQueue.map fun note => { note with ghostList := [] } := by
  have hall : ∀ (ghosts : List Ghost) (s : GhostServer) (flight : Flight), Sound s flight →
      let t := ghosts.foldl (fun s info =>
        if s.array.arrayIndex info < s.array.mGhostFreeIndex then
          (({ s.detachObject traits info with
            lastUpdateChain := Function.update (s.detachObject traits info).lastUpdateChain info
              none }).freeGhostInfo info) else s) s
      t.notifyQueue = s.notifyQueue ∧
        ∀ x, t.array.Allocated x → x ∉ ghosts ∧ s.array.Allocated x := by
    intro ghosts
    induction ghosts with
    | nil => exact fun s flight _ => ⟨rfl, fun x hx => ⟨List.not_mem_nil, hx⟩⟩
    | cons info ghosts ih =>
      intro s flight h
      dsimp only
      rw [List.foldl_cons]
      split
      · rename_i hg
        have hdetach : Move traits { Causes.none with released := True } (s, flight)
            (s.detachObject traits info, flight) := .detach hg flight
        have hsound : Sound (s.detachObject traits info) flight := hdetach.sound h
        have hallocated : (s.detachObject traits info).array.Allocated = s.array.Allocated :=
          detachObject_allocated h hg
        have hrelease := hsound.release (hallocated ▸ hg) (detachObject_obj s info)
        obtain ⟨hqueue, hrest⟩ := ih _ _ hrelease.1
        constructor
        · have hkept : Kept .none s
              (((s.detachObject traits info).forget info).freeGhostInfo info) :=
            ((detachObject_kept info).trans (.of_ghosts ..)).trans (freeGhostInfo_kept info)
          exact hqueue.trans (hkept.notifyQueue id)
        · intro x hx
          obtain ⟨hnot, hx⟩ := hrest x hx
          obtain ⟨hne, hx⟩ := (hrelease.2 x).mp hx
          exact ⟨List.not_mem_cons_of_ne_of_not_mem hne hnot, hallocated ▸ hx⟩
      · rename_i hg
        obtain ⟨hqueue, hrest⟩ := ih s flight h
        refine ⟨hqueue, fun x hx => ?_⟩
        obtain ⟨hnot, hx⟩ := hrest x hx
        refine ⟨List.not_mem_cons_of_ne_of_not_mem ?_ hnot, hx⟩
        rintro rfl
        exact hg hx
  have hempty : Move traits { Causes.none with released := True, queued := True } (s, s.inFlight)
      ({ s with notifyQueue := s.notifyQueue.map fun note => { note with ghostList := [] } },
        s.inFlight) := .queue trivial ..
  obtain ⟨hqueue, hnone⟩ := hall (List.finRange maxGhostCount) _ _ (hempty.sound h)
  exact ⟨fun g hg => (hnone g hg).1 (List.mem_finRange g), hqueue⟩

theorem resetGhosting_none (traits : ObjectTraits) (h : Sound s s.inFlight) :
    Sound (s.resetGhosting traits) (s.resetGhosting traits).inFlight ∧
      (∀ g, ¬ (s.resetGhosting traits).array.Allocated g) ∧
      (s.resetGhosting traits).notifyQueue =
        s.notifyQueue.map fun note => { note with ghostList := [] } := by
  have hexact : s.ClearsExactly .resetGhosting := trivial
  have hsound : ∀ t, step traits s .resetGhosting = some t → Sound t t.inFlight :=
    fun t ht => (step_moves h hexact ht).sound h
  have hoff : Sound { s with mGhosting := false, mScoping := false }
      (inFlight { s with mGhosting := false, mScoping := false }) :=
    ⟨h.masked, { h.ghosts with }⟩
  exact ⟨hsound _ rfl, clearGhostInfo_none traits hoff⟩

end released

end TNL.GhostServer
