import TNL.Object.References

/-!
# Soundness of reference counts and safe pointers

The count of an object is the number of its `RefPtr`s and its list links all of
its `SafePtr`s. An assignment lets the old object go before it takes the new one,
so both are sound as long as the pointer is not the only one to the object that it
is assigned.
-/
namespace TNL
open Library

namespace References

variable {s t : References} {o r x : ℕ}

def alive (s : References) (o : ℕ) : Bool := (s.objects o).any (·.alive)

def refCount (s : References) (o : ℕ) : U32 := ((s.objects o).map (·.refCount)).getD 0

def firstRef (s : References) (o : ℕ) : Option ℕ := (s.objects o).bind (·.firstObjectRef)

/-- The count of a live object is the number of `RefPtr`s to it. -/
structure CountSound (s : References) : Prop where
  counted : ∀ o, s.alive o → ∃ l : List ℕ, l.Nodup ∧ (∀ r, r ∈ l ↔ s.refPtrs r = some (some o)) ∧
    (s.refCount o).toNat = l.length
  live : ∀ r o, s.refPtrs r = some (some o) → s.alive o
  held : ∀ r o, s.refPtrs r = some (some o) → s.held o

/-- The list of an object links the `SafePtr`s to it. -/
structure LinkedList (s : References) (o : ℕ) (l : List ℕ) : Prop where
  nodup : l.Nodup
  mem : ∀ x, x ∈ l ↔ s.target x = some o
  linked : DoublyLinked s.prevRef s.nextRef none (s.firstRef o) l

structure SafeSound (s : References) : Prop where
  linked : ∀ o, s.alive o → ∃ l, LinkedList s o l
  aim : ∀ x o, s.target x = some o ↔ s.aim x = some o ∧ s.alive o
  fresh : ∀ x o, s.aim x = some o → o < s.objectCount
  count : ∀ x, (s.safePtrs x).isSome → x < s.safeCount

structure LogSound (s : References) : Prop where
  nodup : s.destroyed.Nodup
  mem : ∀ o, o ∈ s.destroyed ↔ (s.objects o).isSome ∧ s.alive o = false
  fresh : ∀ o, (s.objects o).isSome ↔ o < s.objectCount
  held : ∀ o, s.held o → (s.objects o).isSome

/-- A live object that was held is held. -/
def StillHeld (s : References) (o : ℕ) : Prop :=
  s.alive o → s.held o → ∃ r, s.refPtrs r = some (some o)

structure Sound (s : References) : Prop where
  counts : CountSound s
  safe : SafeSound s
  log : LogSound s

/-! ### What an operation leaves as it was -/

structure SameCounts (s t : References) : Prop where
  alive : ∀ o, t.alive o = s.alive o
  refCount : ∀ o, t.refCount o = s.refCount o
  allocated : ∀ o, (t.objects o).isSome = (s.objects o).isSome
  refPtrs : ∀ r o, t.refPtrs r = some (some o) ↔ s.refPtrs r = some (some o)
  held : t.held = s.held
  destroyed : t.destroyed = s.destroyed
  objectCount : t.objectCount = s.objectCount

structure SameLists (s t : References) : Prop where
  alive : ∀ o, t.alive o = s.alive o
  firstRef : ∀ o, t.firstRef o = s.firstRef o
  safePtrs : t.safePtrs = s.safePtrs
  aim : t.aim = s.aim
  safeCount : t.safeCount = s.safeCount
  objectCount : t.objectCount = s.objectCount

theorem SameCounts.refl (s : References) : SameCounts s s :=
  ⟨fun _ => rfl, fun _ => rfl, fun _ => rfl, fun _ _ => Iff.rfl, rfl, rfl, rfl⟩

theorem SameCounts.trans {u : References} (h : SameCounts s t) (k : SameCounts t u) :
    SameCounts s u :=
  ⟨fun o => (k.alive o).trans (h.alive o), fun o => (k.refCount o).trans (h.refCount o),
    fun o => (k.allocated o).trans (h.allocated o),
    fun r o => (k.refPtrs r o).trans (h.refPtrs r o),
    k.held.trans h.held, k.destroyed.trans h.destroyed, k.objectCount.trans h.objectCount⟩

theorem CountSound.congr (h : CountSound s) (same : SameCounts s t) : CountSound t := by
  constructor
  case counted =>
    intro o ho
    obtain ⟨l, hnodup, hmem, hlength⟩ := h.counted o (same.alive o ▸ ho)
    exact ⟨l, hnodup, fun r => (hmem r).trans (same.refPtrs r o).symm,
      (same.refCount o).symm ▸ hlength⟩
  case live =>
    intro r o hr
    exact (same.alive o).symm ▸ h.live r o ((same.refPtrs r o).mp hr)
  case held =>
    intro r o hr
    exact same.held ▸ h.held r o ((same.refPtrs r o).mp hr)

theorem LogSound.congr (h : LogSound s) (same : SameCounts s t) : LogSound t := by
  constructor
  case nodup => exact same.destroyed ▸ h.nodup
  case mem =>
    intro o
    rw [same.destroyed, same.allocated, same.alive]
    exact h.mem o
  case fresh =>
    intro o
    rw [same.objectCount, same.allocated]
    exact h.fresh o
  case held =>
    intro o ho
    rw [same.allocated]
    exact h.held o (same.held ▸ ho)

theorem StillHeld.congr (h : StillHeld s o) (same : SameCounts s t) : StillHeld t o := by
  rw [StillHeld, same.alive, same.held]
  intro ho hheld
  obtain ⟨r, hr⟩ := h ho hheld
  exact ⟨r, (same.refPtrs r o).mpr hr⟩

theorem SafeSound.congr (h : SafeSound s) (same : SameLists s t) : SafeSound t := by
  have htarget : t.target = s.target := funext (fun x => by rw [target, target, same.safePtrs])
  have hprev : t.prevRef = s.prevRef := funext (fun x => by rw [prevRef, prevRef, same.safePtrs])
  have hnext : t.nextRef = s.nextRef := funext (fun x => by rw [nextRef, nextRef, same.safePtrs])
  constructor
  case linked =>
    intro o ho
    obtain ⟨l, hnodup, hmem, hlinked⟩ := h.linked o (same.alive o ▸ ho)
    exact ⟨l, hnodup, htarget ▸ hmem, by rwa [hprev, hnext, same.firstRef]⟩
  case aim =>
    intro x o
    rw [htarget, same.aim, same.alive]
    exact h.aim x o
  case fresh =>
    rw [same.aim, same.objectCount]
    exact h.fresh
  case count =>
    rw [same.safePtrs, same.safeCount]
    exact h.count

/-! ### RefPtr -/

theorem alive_iff : s.alive o ↔ ∃ object, s.objects o = some object ∧ object.alive := by
  rw [alive, Option.any_eq_true]

/-- A pointer takes an object. It has none before, or is not there. -/
theorem Sound.constructRefPtr (h : Sound s) (hr : (s.refPtrs r).join = none) {object : Option ℕ}
    (hvalid : s.Valid object) (hlt : ∀ o ∈ object, (s.refCount o).toNat + 1 < 2 ^ 32) :
    Sound (s.constructRefPtr r object) := by
  have hnone : ∀ o, s.refPtrs r ≠ some (some o) := by
    intro o heq
    rw [heq] at hr
    cases hr
  cases object with
  | none =>
    have same : SameCounts s (s.constructRefPtr r none) := by
      refine ⟨fun _ => rfl, fun _ => rfl, fun _ => rfl, fun r' o => ?_, rfl, rfl, rfl⟩
      change Function.update s.refPtrs r (some none) r' = some (some o) ↔ _
      by_cases hr' : r' = r
      · rw [hr', Function.update_self]
        exact ⟨nofun, fun heq => absurd heq (hnone o)⟩
      · rw [Function.update_of_ne hr']
    exact ⟨h.counts.congr same, h.safe.congr ⟨fun _ => rfl, fun _ => rfl, rfl, rfl, rfl, rfl⟩,
      h.log.congr same⟩
  | some o =>
    have ho : s.alive o := hvalid o rfl
    have halive : ∀ q, (s.constructRefPtr r (some o)).alive q = s.alive q :=
      fun q => any_modify (fun _ => rfl)
    have hrefs : ∀ r' q, (s.constructRefPtr r (some o)).refPtrs r' = some (some q) ↔
        r' = r ∧ q = o ∨ s.refPtrs r' = some (some q) := by
      intro r' q
      change Function.update s.refPtrs r (some (some o)) r' = some (some q) ↔ _
      by_cases hr' : r' = r
      · rw [hr', Function.update_self]
        simp only [Option.some.injEq, true_and, hnone q, or_false]
        exact eq_comm
      · rw [Function.update_of_ne hr']
        simp only [hr', false_and, false_or]
    have hcount : ∀ q, (s.constructRefPtr r (some o)).refCount q =
        if q = o then s.refCount q + 1 else s.refCount q := by
      intro q
      change ((modify s.objects o _ q).map _).getD 0 = _
      rw [modify_apply]
      split_ifs with hq
      · obtain ⟨object, hobject, -⟩ := alive_iff.mp ho
        rw [refCount, hq, hobject]
        rfl
      · rfl
    have hallocated : ∀ q, ((s.constructRefPtr r (some o)).objects q).isSome =
        (s.objects q).isSome := fun q => isSome_modify ..
    refine ⟨⟨?_, ?_, ?_⟩,
      h.safe.congr ⟨halive, fun q => bind_modify (fun _ => rfl), rfl, rfl, rfl, rfl⟩,
      ⟨h.log.nodup, ?_, ?_, ?_⟩⟩
    · intro q hq
      obtain ⟨l, hnodup, hmem, hlength⟩ := h.counts.counted q (halive q ▸ hq)
      rw [hcount]
      by_cases hqo : q = o
      · subst hqo
        refine ⟨r :: l, List.nodup_cons.mpr ⟨fun hmem' => hnone q ((hmem r).mp hmem'), hnodup⟩,
          fun r' => ?_, ?_⟩
        · rw [hrefs, List.mem_cons, hmem]
          simp only [and_true]
        · have hbound := hlt q rfl
          rw [if_pos rfl, List.length_cons, ← hlength]
          bv_omega
      · rw [if_neg hqo]
        refine ⟨l, hnodup, fun r' => ?_, hlength⟩
        rw [hrefs, hmem]
        simp only [hqo, and_false, false_or]
    · intro r' q hr'
      rw [halive]
      rcases (hrefs r' q).mp hr' with ⟨-, rfl⟩ | hr'
      · exact ho
      · exact h.counts.live r' q hr'
    · intro r' q hr'
      change Function.update s.held o true q = true
      rcases (hrefs r' q).mp hr' with ⟨-, rfl⟩ | hr'
      · exact Function.update_self ..
      · rw [Function.update_apply]
        split_ifs
        · rfl
        · exact h.counts.held r' q hr'
    · intro q
      rw [halive, hallocated]
      exact h.log.mem q
    · intro q
      rw [hallocated]
      exact h.log.fresh q
    · intro q hq
      rw [hallocated]
      by_cases hqo : q = o
      · obtain ⟨object, hobject, -⟩ := alive_iff.mp ho
        rw [hqo, hobject]
        rfl
      · exact h.log.held q ((Function.update_of_ne hqo ..).symm.trans hq)

theorem StillHeld.constructRefPtr (h : StillHeld s o) (hr : (s.refPtrs r).join = none)
    (object : Option ℕ) : StillHeld (s.constructRefPtr r object) o := by
  by_cases hobject : object = some o
  · subst hobject
    exact fun _ _ => ⟨r, Function.update_self ..⟩
  · have hsame : (s.constructRefPtr r object).alive o = s.alive o ∧
        (s.constructRefPtr r object).held o = s.held o := by
      cases object with
      | none => exact ⟨rfl, rfl⟩
      | some q =>
        exact ⟨any_modify (fun _ => rfl),
          Function.update_of_ne (fun heq => hobject (congrArg some heq.symm)) ..⟩
    have hrefs : (s.constructRefPtr r object).refPtrs =
        Function.update s.refPtrs r (some object) := by
      cases object <;> rfl
    rw [StillHeld, hsame.1, hsame.2, hrefs]
    intro ho hheld
    obtain ⟨r', hr'⟩ := h ho hheld
    refine ⟨r', (Function.update_of_ne ?_ ..).trans hr'⟩
    intro heq
    rw [← heq, hr'] at hr
    cases hr

theorem clearSafePtrs_apply {fuel : ℕ} {before head : Option ℕ} {l : List ℕ}
    {prev : ℕ → Option ℕ} {safePtrs : ℕ → Option SafeObjectRef} (hnodup : l.Nodup)
    (h : DoublyLinked prev (fun x => (safePtrs x).bind (·.nextObjectRef)) before head l)
    (hfuel : l.length ≤ fuel) (y : ℕ) : clearSafePtrs fuel head safePtrs y =
      if y ∈ l then (safePtrs y).map (fun _ => ⟨none, none, none⟩) else safePtrs y := by
  induction l generalizing fuel before head safePtrs with
  | nil =>
    cases h
    cases fuel <;> exact (if_neg List.not_mem_nil).symm
  | cons x l ih =>
    obtain ⟨rfl, -, hrest⟩ := h
    obtain ⟨hx, hnodup⟩ := List.nodup_cons.mp hnodup
    obtain ⟨fuel, rfl⟩ : ∃ k, fuel = k + 1 := ⟨fuel - 1, by rw [List.length_cons] at hfuel; omega⟩
    have hrest' := hrest.congr (fun _ _ => rfl) (fun z hz => congrArg
      (Option.bind · SafeObjectRef.nextObjectRef)
      (modify_of_ne (m := safePtrs) (f := fun _ => ⟨none, none, none⟩)
        (ne_of_mem_of_not_mem hz hx)))
    rw [clearSafePtrs, ih hnodup hrest' (Nat.le_of_succ_le_succ hfuel)]
    by_cases hy : y = x
    · rw [hy, if_neg hx, if_pos List.mem_cons_self, modify_self]
    · rw [modify_of_ne hy]
      simp only [List.mem_cons, hy, false_or]

theorem LinkedList.length_le {l : List ℕ} (h : LinkedList s o l) (hsafe : SafeSound s) :
    l.length ≤ s.safeCount := by
  have hsub : l ⊆ List.range s.safeCount := by
    intro x hx
    have htarget := (h.mem x).mp hx
    refine List.mem_range.mpr (hsafe.count x ?_)
    rw [target] at htarget
    cases hsafe : s.safePtrs x with
    | none => rw [hsafe] at htarget; cases htarget
    | some ref => rfl
  exact (List.Nodup.length_le_of_subset h.nodup hsub).trans_eq List.length_range

theorem destroySelf_alive (ho : s.alive o) (q : ℕ) :
    (s.destroySelf o).alive q = if q = o then false else s.alive q := by
  obtain ⟨object, hobject, -⟩ := alive_iff.mp ho
  change Option.any _ (modify s.objects o _ q) = _
  rw [modify_apply]
  split_ifs with hq
  · rw [hq, hobject]
    rfl
  · rfl

theorem destroySelf_refCount (q : ℕ) : (s.destroySelf o).refCount q = s.refCount q :=
  congrArg (Option.getD · 0) (map_modify (fun _ => rfl))

/-- Destroying an object that no `RefPtr` refers to. -/
theorem Sound.destroySelf (h : Sound s) (ho : s.alive o)
    (hrefs : ∀ r, s.refPtrs r ≠ some (some o)) : Sound (s.destroySelf o) := by
  obtain ⟨object, hobject, -⟩ := alive_iff.mp ho
  have halive := destroySelf_alive ho
  have hallocated : ∀ q, ((s.destroySelf o).objects q).isSome = (s.objects q).isSome :=
    fun q => isSome_modify ..
  have hfirst : ∀ q, (s.destroySelf o).firstRef q = s.firstRef q :=
    fun q => bind_modify (fun _ => rfl)
  obtain ⟨l, hl⟩ := h.safe.linked o ho
  have hsafePtrs : ∀ y, (s.destroySelf o).safePtrs y =
      if y ∈ l then (s.safePtrs y).map (fun _ => ⟨none, none, none⟩) else s.safePtrs y :=
    clearSafePtrs_apply hl.nodup hl.linked (hl.length_le h.safe)
  have htarget : ∀ y, (s.destroySelf o).target y = if y ∈ l then none else s.target y := by
    intro y
    rw [target, hsafePtrs]
    split_ifs
    · cases s.safePtrs y <;> rfl
    · rfl
  refine ⟨⟨?_, ?_, h.counts.held⟩, ⟨?_, ?_, h.safe.fresh, ?_⟩, ⟨?_, ?_, ?_, ?_⟩⟩
  · intro q hq
    rw [halive] at hq
    split_ifs at hq
    rw [destroySelf_refCount]
    exact h.counts.counted q hq
  · intro r q hr
    have hqo : q ≠ o := by
      intro heq
      exact hrefs r (heq ▸ hr)
    rw [halive, if_neg hqo]
    exact h.counts.live r q hr
  · intro q hq
    rw [halive] at hq
    split_ifs at hq with hqo
    obtain ⟨k, hk⟩ := h.safe.linked q hq
    have hdisjoint : ∀ y ∈ k, y ∉ l := by
      intro y hy hyl
      exact hqo (Option.some.inj (((hk.mem y).mp hy).symm.trans ((hl.mem y).mp hyl)))
    refine ⟨k, hk.nodup, fun y => ?_, ?_⟩
    · rw [htarget]
      split_ifs with hyl
      · exact ⟨fun hyk => absurd hyl (hdisjoint y hyk), nofun⟩
      · exact hk.mem y
    · rw [hfirst]
      refine hk.linked.congr (fun y hy => ?_) (fun y hy => ?_)
      · rw [prevRef, hsafePtrs, if_neg (hdisjoint y hy), prevRef]
      · rw [nextRef, hsafePtrs, if_neg (hdisjoint y hy), nextRef]
  · intro y q
    rw [htarget, halive]
    change _ ↔ s.aim y = some q ∧ _
    have haim := h.safe.aim y q
    split_ifs with hyl hqo hqo
    · exact ⟨nofun, nofun⟩
    · refine ⟨nofun, fun haimed => ?_⟩
      have htargeto := (hl.mem y).mp hyl
      rw [haim.mpr haimed] at htargeto
      exact absurd (Option.some.inj htargeto) hqo
    · refine ⟨fun htargeto => ?_, nofun⟩
      exact absurd ((hl.mem y).mpr (hqo ▸ htargeto)) hyl
    · exact haim
  · intro y hy
    refine h.safe.count y ?_
    rw [hsafePtrs] at hy
    split_ifs at hy
    · rwa [Option.isSome_map] at hy
    · exact hy
  · refine h.log.nodup.append (List.nodup_singleton o) ?_
    rw [List.disjoint_singleton]
    intro hmem
    rw [h.log.mem, ho] at hmem
    cases hmem.2
  · intro q
    change q ∈ s.destroyed ++ [o] ↔ _
    rw [List.mem_append, List.mem_singleton, h.log.mem, halive, hallocated]
    split_ifs with hqo
    · rw [hqo, hobject]
      simp
    · simp only [hqo, or_false]
  · intro q
    rw [hallocated]
    exact h.log.fresh q
  · intro q hq
    rw [hallocated]
    exact h.log.held q hq

/-- What an assignment and a destructor begin with: a pointer lets its object go. -/
def letGo (s : References) (r : ℕ) (rest : Option (Option ℕ)) : References :=
  { s.decRef (s.refPtrs r).join with refPtrs := Function.update s.refPtrs r rest }

/-- The object is not let go by its only pointer. -/
def Shared (s : References) (r o : ℕ) : Prop := s.refPtrs r = some (some o) → s.refCount o ≠ 1

/-- A pointer without an object lets nothing go. -/
theorem letGo_none (hr : (s.refPtrs r).join = none) {rest : Option (Option ℕ)}
    (hrest : rest.join = none) :
    SameCounts s (s.letGo r rest) ∧ SameLists s (s.letGo r rest) := by
  rw [letGo, hr, decRef]
  refine ⟨⟨fun _ => rfl, fun _ => rfl, fun _ => rfl, fun r' o => ?_, rfl, rfl, rfl⟩,
    fun _ => rfl, fun _ => rfl, rfl, rfl, rfl, rfl⟩
  change Function.update s.refPtrs r rest r' = some (some o) ↔ _
  by_cases hr' : r' = r
  · rw [hr', Function.update_self]
    constructor
    · intro heq
      rw [heq] at hrest
      cases hrest
    · intro heq
      rw [heq] at hr
      cases hr
  · rw [Function.update_of_ne hr']

/-- The count of an object goes down with a pointer to it. -/
def countDown (s : References) (r o : ℕ) (rest : Option (Option ℕ)) : References :=
  { s with
    objects := modify s.objects o (fun object => { object with refCount := object.refCount - 1 })
    refPtrs := Function.update s.refPtrs r rest }

theorem countDown_alive (q : ℕ) (rest : Option (Option ℕ)) :
    (s.countDown r o rest).alive q = s.alive q :=
  any_modify (fun _ => rfl)

theorem countDown_refCount (ho : s.alive o) (q : ℕ) (rest : Option (Option ℕ)) :
    (s.countDown r o rest).refCount q = if q = o then s.refCount q - 1 else s.refCount q := by
  change ((modify s.objects o _ q).map _).getD 0 = _
  rw [modify_apply]
  split_ifs with hq
  · obtain ⟨object, hobject, -⟩ := alive_iff.mp ho
    rw [refCount, hq, hobject]
    rfl
  · rfl

theorem letGo_some (ho : s.alive o) (hr : s.refPtrs r = some (some o))
    (rest : Option (Option ℕ)) : s.letGo r rest =
      if s.refCount o = 1 then (s.countDown r o rest).destroySelf o else s.countDown r o rest := by
  obtain ⟨object, hobject, -⟩ := alive_iff.mp ho
  have hcount : s.refCount o = object.refCount := by rw [refCount, hobject]; rfl
  have hzero : object.refCount - 1 = 0 ↔ object.refCount = 1 := by
    constructor <;> intro h <;> bv_omega
  rw [letGo, hr, Option.join_some, decRef, hcount]
  simp only [modify_self, hobject, Option.map_some, Option.any_some, hzero, decide_eq_true_eq]
  split_ifs <;> rfl

theorem countDown_refPtrs {rest : Option (Option ℕ)} (hrest : rest.join = none) (r' q : ℕ) :
    (s.countDown r o rest).refPtrs r' = some (some q) ↔
      r' ≠ r ∧ s.refPtrs r' = some (some q) := by
  change Function.update s.refPtrs r rest r' = some (some q) ↔ _
  by_cases hr' : r' = r
  · rw [hr', Function.update_self]
    constructor
    · intro heq
      rw [heq] at hrest
      cases hrest
    · exact fun heq => absurd rfl heq.1
  · rw [Function.update_of_ne hr']
    exact ⟨fun heq => ⟨hr', heq⟩, fun heq => heq.2⟩

theorem Sound.countDown (h : Sound s) (hr : s.refPtrs r = some (some o))
    {rest : Option (Option ℕ)} (hrest : rest.join = none) : Sound (s.countDown r o rest) := by
  have ho := h.counts.live r o hr
  have hrefs := countDown_refPtrs (s := s) (r := r) (o := o) hrest
  have hallocated : ∀ q, ((s.countDown r o rest).objects q).isSome = (s.objects q).isSome :=
    fun q => isSome_modify ..
  refine ⟨⟨?_, ?_, ?_⟩, h.safe.congr ⟨fun q => countDown_alive q rest,
    fun q => bind_modify (fun _ => rfl), rfl, rfl, rfl, rfl⟩, ⟨h.log.nodup, ?_, ?_, ?_⟩⟩
  · intro q hq
    rw [countDown_alive] at hq
    obtain ⟨l, hnodup, hmem, hlength⟩ := h.counts.counted q hq
    rw [countDown_refCount ho]
    by_cases hqo : q = o
    · subst hqo
      have hrl : r ∈ l := (hmem r).mpr hr
      have hpos := List.length_pos_of_mem hrl
      refine ⟨l.erase r, hnodup.erase r, fun r' => ?_, ?_⟩
      · rw [hnodup.mem_erase_iff, hrefs, hmem]
      · rw [if_pos rfl, List.length_erase_of_mem hrl, ← hlength]
        bv_omega
    · rw [if_neg hqo]
      refine ⟨l, hnodup, fun r' => ?_, hlength⟩
      rw [hrefs, hmem]
      refine ⟨fun heq => ⟨?_, heq⟩, fun heq => heq.2⟩
      rintro rfl
      exact hqo (Option.some.inj (Option.some.inj (heq.symm.trans hr)))
  · intro r' q hr'
    rw [countDown_alive]
    exact h.counts.live r' q ((hrefs r' q).mp hr').2
  · exact fun r' q hr' => h.counts.held r' q ((hrefs r' q).mp hr').2
  · intro q
    rw [countDown_alive, hallocated]
    exact h.log.mem q
  · intro q
    rw [hallocated]
    exact h.log.fresh q
  · intro q hq
    rw [hallocated]
    exact h.log.held q hq

/-- The count is one exactly if there is no other pointer. -/
theorem Sound.other_pointer (h : Sound s) (hr : s.refPtrs r = some (some o)) :
    s.refCount o ≠ 1 ↔ ∃ r' ≠ r, s.refPtrs r' = some (some o) := by
  obtain ⟨l, hnodup, hmem, hlength⟩ := h.counts.counted o (h.counts.live r o hr)
  have hrl : r ∈ l := (hmem r).mpr hr
  have hone : s.refCount o = 1 ↔ l.length = 1 := by
    rw [← hlength]
    constructor <;> intro h <;> bv_omega
  rw [Ne, hone]
  constructor
  · intro hne
    have hpos := List.length_pos_of_mem hrl
    have herase : (l.erase r).length ≠ 0 := by
      rw [List.length_erase_of_mem hrl]
      omega
    obtain ⟨r', hr'⟩ := List.exists_mem_of_length_pos (Nat.pos_of_ne_zero herase)
    obtain ⟨hne', hmem'⟩ := hnodup.mem_erase_iff.mp hr'
    exact ⟨r', hne', (hmem r').mp hmem'⟩
  · rintro ⟨r', hne', hr'⟩ hlen
    obtain ⟨a, rfl⟩ := List.length_eq_one_iff.mp hlen
    exact hne' ((List.mem_singleton.mp ((hmem r').mpr hr')).trans (List.mem_singleton.mp hrl).symm)

theorem Sound.letGo (h : Sound s) {rest : Option (Option ℕ)} (hrest : rest.join = none) :
    Sound (s.letGo r rest) := by
  cases hr : (s.refPtrs r).join with
  | none =>
    obtain ⟨hcounts, hlists⟩ := letGo_none hr hrest
    exact ⟨h.counts.congr hcounts, h.safe.congr hlists, h.log.congr hcounts⟩
  | some o =>
    have hr := Option.join_eq_some_iff.mp hr
    have ho := h.counts.live r o hr
    have hdown := h.countDown hr hrest
    rw [letGo_some ho hr]
    split_ifs with hone
    · refine hdown.destroySelf ((countDown_alive o rest).trans ho) (fun r' hr' => ?_)
      exact (h.other_pointer hr).mpr ⟨r', (countDown_refPtrs hrest r' o).mp hr'⟩ hone
    · exact hdown

theorem decRef_frame (object : Option ℕ) :
    (s.decRef object).refPtrs = s.refPtrs ∧ (s.decRef object).held = s.held := by
  cases object with
  | none => exact ⟨rfl, rfl⟩
  | some o =>
    rw [decRef]
    split_ifs <;> exact ⟨rfl, rfl⟩

/-- Only an object that is not shared is destroyed. -/
theorem Sound.letGo_alive (h : Sound s) {rest : Option (Option ℕ)} (hrest : rest.join = none)
    {q : ℕ} : (s.letGo r rest).alive q ↔ s.alive q ∧ Shared s r q := by
  cases hr : (s.refPtrs r).join with
  | none =>
    rw [(letGo_none hr hrest).1.alive, Shared]
    refine ⟨fun hq => ⟨hq, fun heq => ?_⟩, And.left⟩
    rw [heq] at hr
    cases hr
  | some o =>
    have hr := Option.join_eq_some_iff.mp hr
    have ho := h.counts.live r o hr
    have hqo : s.refPtrs r = some (some q) ↔ q = o := by
      rw [hr, Option.some.injEq, Option.some.injEq]
      exact eq_comm
    rw [letGo_some ho hr, Shared, hqo]
    split_ifs with hone
    · rw [destroySelf_alive ((countDown_alive o rest).trans ho), countDown_alive]
      split_ifs with heq
      · exact ⟨nofun, fun hq => absurd (heq ▸ hone) (hq.2 heq)⟩
      · exact ⟨fun hq => ⟨hq, fun hne => absurd hne heq⟩, And.left⟩
    · rw [countDown_alive]
      exact ⟨fun hq => ⟨hq, fun heq => heq ▸ hone⟩, And.left⟩

theorem Sound.letGo_refCount (h : Sound s) {rest : Option (Option ℕ)} (hrest : rest.join = none)
    {q : ℕ} (hlt : s.refPtrs r ≠ some (some q) → (s.refCount q).toNat + 1 < 2 ^ 32) :
    ((s.letGo r rest).refCount q).toNat + 1 < 2 ^ 32 ∨ ¬Shared s r q := by
  cases hr : (s.refPtrs r).join with
  | none =>
    rw [(letGo_none hr hrest).1.refCount]
    refine .inl (hlt (fun heq => ?_))
    rw [heq] at hr
    cases hr
  | some o =>
    have hr := Option.join_eq_some_iff.mp hr
    have ho := h.counts.live r o hr
    obtain ⟨l, -, hmem, hlength⟩ := h.counts.counted o ho
    have hpos := List.length_pos_of_mem ((hmem r).mpr hr)
    by_cases hone : s.refCount o = 1
    · by_cases hqo : q = o
      · exact .inr (fun hshared => hshared (hqo ▸ hr) (hqo ▸ hone))
      · rw [letGo_some ho hr, if_pos hone, destroySelf_refCount, countDown_refCount ho,
          if_neg hqo]
        exact .inl (hlt (fun heq => hqo (Option.some.inj (Option.some.inj (heq.symm.trans hr)))))
    · rw [letGo_some ho hr, if_neg hone, countDown_refCount ho]
      split_ifs with hqo
      · subst hqo
        exact .inl (by bv_omega)
      · exact .inl (hlt (fun heq => hqo (Option.some.inj (Option.some.inj (heq.symm.trans hr)))))

theorem StillHeld.letGo (hheld : StillHeld s o) (h : Sound s) {rest : Option (Option ℕ)}
    (hrest : rest.join = none) : StillHeld (s.letGo r rest) o := by
  intro ho hho
  have hho : s.held o := (decRef_frame (s.refPtrs r).join).2 ▸ hho
  obtain ⟨ho, hshared⟩ := (h.letGo_alive hrest).mp ho
  obtain ⟨r', hr'⟩ := hheld ho hho
  by_cases hrr : r' = r
  · subst hrr
    obtain ⟨r'', hne, hr''⟩ := (h.other_pointer hr').mp (hshared hr')
    exact ⟨r'', (Function.update_of_ne hne ..).trans hr''⟩
  · exact ⟨r', (Function.update_of_ne hrr ..).trans hr'⟩

/-- An assignment lets an object go and takes one. -/
theorem setRefPtr_eq (s : References) (r : ℕ) (object : Option ℕ) :
    s.setRefPtr r object = (s.letGo r (some none)).constructRefPtr r object := by
  rw [setRefPtr, References.constructRefPtr, References.letGo]
  simp only [Function.update_idem, decRef_frame]

theorem destructRefPtr_eq (s : References) (r : ℕ) : s.destructRefPtr r = s.letGo r none := by
  rw [destructRefPtr, References.letGo]
  simp only [decRef_frame]

theorem letGo_self (rest : Option (Option ℕ)) : (s.letGo r rest).refPtrs r = rest := by
  simp only [letGo, Function.update_self]

theorem Sound.setRefPtr (h : Sound s) {object : Option ℕ} (hvalid : s.Valid object)
    (hshared : ∀ o ∈ object, Shared s r o)
    (hlt : ∀ o ∈ object, s.refPtrs r ≠ some (some o) → (s.refCount o).toNat + 1 < 2 ^ 32) :
    Sound (s.setRefPtr r object) := by
  rw [setRefPtr_eq]
  refine (h.letGo rfl).constructRefPtr ?_ ?_ ?_
  · exact congrArg Option.join (letGo_self (some none))
  · exact fun o ho => (h.letGo_alive rfl).mpr ⟨hvalid o ho, hshared o ho⟩
  · exact fun o ho => (h.letGo_refCount rfl (hlt o ho)).resolve_right (not_not_intro (hshared o ho))

theorem StillHeld.setRefPtr (hheld : StillHeld s o) (h : Sound s) (object : Option ℕ) :
    StillHeld (s.setRefPtr r object) o := by
  rw [setRefPtr_eq]
  exact (hheld.letGo h rfl).constructRefPtr (congrArg Option.join (letGo_self (some none))) object

/-! ### SafePtr -/

theorem alive_isSome (ho : s.alive o) : (s.objects o).isSome := by
  obtain ⟨object, hobject, -⟩ := alive_iff.mp ho
  rw [hobject]
  rfl

theorem LinkedList.disjoint {q : ℕ} {k l : List ℕ} (hk : LinkedList s q k)
    (hl : LinkedList s o l) (hqo : q ≠ o) : ∀ y ∈ k, y ∉ l := by
  intro y hy hyl
  exact hqo (Option.some.inj (((hk.mem y).mp hy).symm.trans ((hl.mem y).mp hyl)))

theorem target_isSome (hx : s.target x = some o) : (s.safePtrs x).isSome := by
  obtain ⟨ref, href, -⟩ := Option.bind_eq_some_iff.mp hx
  rw [href]
  rfl

/-- What writing a link leaves as it was. -/
structure SameTargets (s t : References) : Prop where
  counts : SameCounts s t
  target : ∀ x, t.target x = s.target x
  allocated : ∀ x, (t.safePtrs x).isSome = (s.safePtrs x).isSome
  aim : t.aim = s.aim
  safeCount : t.safeCount = s.safeCount

theorem SameTargets.trans {u : References} (h : SameTargets s t) (k : SameTargets t u) :
    SameTargets s u :=
  ⟨h.counts.trans k.counts, fun x => (k.target x).trans (h.target x),
    fun x => (k.allocated x).trans (h.allocated x), k.aim.trans h.aim,
    k.safeCount.trans h.safeCount⟩

section links

variable (s) (p : ℕ) (v : Option ℕ)

theorem setPrevRef_same : SameTargets s (s.setPrevRef p v) :=
  ⟨⟨fun _ => rfl, fun _ => rfl, fun _ => rfl, fun _ _ => Iff.rfl, rfl, rfl, rfl⟩,
    fun _ => bind_modify (fun _ => rfl), fun _ => isSome_modify .., rfl, rfl⟩

theorem setNextRef_same : SameTargets s (s.setNextRef p v) :=
  ⟨⟨fun _ => rfl, fun _ => rfl, fun _ => rfl, fun _ _ => Iff.rfl, rfl, rfl, rfl⟩,
    fun _ => bind_modify (fun _ => rfl), fun _ => isSome_modify .., rfl, rfl⟩

theorem setFirstRef_same : SameTargets s (s.setFirstRef p v) :=
  ⟨⟨fun _ => any_modify (fun _ => rfl),
    fun _ => congrArg (Option.getD · 0) (map_modify (fun _ => rfl)), fun _ => isSome_modify ..,
    fun _ _ => Iff.rfl, rfl, rfl, rfl⟩, fun _ => rfl, fun _ => rfl, rfl, rfl⟩

@[simp] theorem setNextRef_prevRef : (s.setNextRef p v).prevRef x = s.prevRef x :=
  bind_modify (fun _ => rfl)

@[simp] theorem setFirstRef_prevRef : (s.setFirstRef p v).prevRef x = s.prevRef x := rfl

@[simp] theorem setPrevRef_nextRef : (s.setPrevRef p v).nextRef x = s.nextRef x :=
  bind_modify (fun _ => rfl)

@[simp] theorem setFirstRef_nextRef : (s.setFirstRef p v).nextRef x = s.nextRef x := rfl

@[simp] theorem setPrevRef_firstRef : (s.setPrevRef p v).firstRef o = s.firstRef o := rfl

@[simp] theorem setNextRef_firstRef : (s.setNextRef p v).firstRef o = s.firstRef o := rfl

variable {s}

theorem setPrevRef_prevRef (hx : (s.safePtrs x).isSome) :
    (s.setPrevRef p v).prevRef x = if x = p then v else s.prevRef x := by
  obtain ⟨ref, href⟩ := Option.isSome_iff_exists.mp hx
  change (modify s.safePtrs p _ x).bind _ = _
  rw [modify_apply, prevRef, href]
  split_ifs <;> rfl

theorem setNextRef_nextRef (hx : (s.safePtrs x).isSome) :
    (s.setNextRef p v).nextRef x = if x = p then v else s.nextRef x := by
  obtain ⟨ref, href⟩ := Option.isSome_iff_exists.mp hx
  change (modify s.safePtrs p _ x).bind _ = _
  rw [modify_apply, nextRef, href]
  split_ifs <;> rfl

theorem setFirstRef_firstRef (ho : (s.objects o).isSome) :
    (s.setFirstRef p v).firstRef o = if o = p then v else s.firstRef o := by
  obtain ⟨object, hobject⟩ := Option.isSome_iff_exists.mp ho
  change (modify s.objects p _ o).bind _ = _
  rw [modify_apply, firstRef, hobject]
  split_ifs <;> rfl

variable (s) (prev next : Option ℕ)

theorem setNextOf_same : SameTargets s (s.setNextOf p prev v) := by
  cases prev with
  | none => exact setFirstRef_same s p v
  | some prev => exact setNextRef_same s prev v

theorem setPrevOf_same : SameTargets s (s.setPrevOf next v) := by
  cases next with
  | none =>
    exact ⟨.refl s, fun _ => rfl, fun _ => rfl, rfl, rfl⟩
  | some next => exact setPrevRef_same s next v

@[simp] theorem setNextOf_prevRef : (s.setNextOf p prev v).prevRef x = s.prevRef x := by
  cases prev with
  | none => rfl
  | some prev => exact setNextRef_prevRef s prev v

@[simp] theorem setPrevOf_nextRef : (s.setPrevOf next v).nextRef x = s.nextRef x := by
  cases next with
  | none => rfl
  | some next => exact setPrevRef_nextRef s next v

@[simp] theorem setPrevOf_firstRef : (s.setPrevOf next v).firstRef o = s.firstRef o := by
  cases next <;> rfl

variable {s}

theorem setNextOf_nextRef (hx : (s.safePtrs x).isSome) :
    (s.setNextOf p prev v).nextRef x = if prev = some x then v else s.nextRef x := by
  cases prev with
  | none => exact (if_neg nofun).symm
  | some prev =>
    rw [setNextOf, setNextRef_nextRef prev v hx]
    simp only [Option.some.injEq, eq_comm]

theorem setPrevOf_prevRef (hx : (s.safePtrs x).isSome) :
    (s.setPrevOf next v).prevRef x = if next = some x then v else s.prevRef x := by
  cases next with
  | none => exact (if_neg nofun).symm
  | some next =>
    rw [setPrevOf, setPrevRef_prevRef next v hx]
    simp only [Option.some.injEq, eq_comm]

theorem setNextOf_firstRef (ho : (s.objects o).isSome) :
    (s.setNextOf p prev v).firstRef o =
      if o = p ∧ prev = none then v else s.firstRef o := by
  cases prev with
  | none =>
    rw [setNextOf, setFirstRef_firstRef p v ho]
    simp only [and_true]
  | some prev => exact (if_neg (fun heq => nomatch heq.2)).symm

end links

section unregister

theorem unregisterReference_same (s : References) (x : ℕ) :
    SameTargets s (s.unregisterReference x) := by
  rw [unregisterReference]
  cases s.target x with
  | none => exact ⟨.refl s, fun _ => rfl, fun _ => rfl, rfl, rfl⟩
  | some o => exact (setNextOf_same ..).trans (setPrevOf_same ..)

variable (hx : s.target x = some o)
include hx

/-- The links of the reference itself do not change while it is unlinked. -/
theorem unregisterReference_eq : s.unregisterReference x =
    (s.setNextOf o (s.prevRef x) (s.nextRef x)).setPrevOf (s.nextRef x) (s.prevRef x) := by
  rw [unregisterReference, hx]
  simp only [setNextOf_prevRef, setNextOf_nextRef _ _ _ (target_isSome hx), ite_self]

theorem unregisterReference_prevRef {y : ℕ} (hy : (s.safePtrs y).isSome) :
    (s.unregisterReference x).prevRef y =
      if s.nextRef x = some y then s.prevRef x else s.prevRef y := by
  rw [unregisterReference_eq hx, setPrevOf_prevRef _ _ (((setNextOf_same ..).allocated y).trans hy),
    setNextOf_prevRef]

theorem unregisterReference_nextRef {y : ℕ} (hy : (s.safePtrs y).isSome) :
    (s.unregisterReference x).nextRef y =
      if s.prevRef x = some y then s.nextRef x else s.nextRef y := by
  rw [unregisterReference_eq hx, setPrevOf_nextRef, setNextOf_nextRef _ _ _ hy]

theorem unregisterReference_firstRef {q : ℕ} (hq : (s.objects q).isSome) :
    (s.unregisterReference x).firstRef q =
      if q = o ∧ s.prevRef x = none then s.nextRef x else s.firstRef q := by
  rw [unregisterReference_eq hx, setPrevOf_firstRef, setNextOf_firstRef _ _ _ hq]

end unregister

section register

theorem registerReference_same (s : References) (x : ℕ) :
    SameTargets s (s.registerReference x) := by
  rw [registerReference]
  cases s.target x with
  | none => exact ⟨.refl s, fun _ => rfl, fun _ => rfl, rfl, rfl⟩
  | some o =>
    exact (setNextRef_same ..).trans ((setPrevOf_same ..).trans ((setPrevRef_same ..).trans
      (setFirstRef_same ..)))

variable (hx : s.target x = some o)
include hx

theorem registerReference_eq : s.registerReference x =
    (((s.setNextRef x (s.firstRef o)).setPrevOf (s.firstRef o) (some x)).setPrevRef x
      none).setFirstRef o (some x) := by
  rw [registerReference, hx]
  simp only [setNextRef_nextRef _ _ (target_isSome hx), if_true]
  rfl

theorem registerReference_prevRef {y : ℕ} (hy : (s.safePtrs y).isSome) :
    (s.registerReference x).prevRef y =
      if y = x then none else if s.firstRef o = some y then some x else s.prevRef y := by
  have hy' := ((setNextRef_same s x (s.firstRef o)).allocated y).trans hy
  rw [registerReference_eq hx, setFirstRef_prevRef,
    setPrevRef_prevRef _ _ (((setPrevOf_same ..).allocated y).trans hy'),
    setPrevOf_prevRef _ _ hy', setNextRef_prevRef]

theorem registerReference_nextRef {y : ℕ} (hy : (s.safePtrs y).isSome) :
    (s.registerReference x).nextRef y = if y = x then s.firstRef o else s.nextRef y := by
  rw [registerReference_eq hx, setFirstRef_nextRef, setPrevRef_nextRef, setPrevOf_nextRef,
    setNextRef_nextRef _ _ hy]

theorem registerReference_firstRef {q : ℕ} (hq : (s.objects q).isSome) :
    (s.registerReference x).firstRef q = if q = o then some x else s.firstRef q := by
  have hsame := (setNextRef_same s x (s.firstRef o)).trans ((setPrevOf_same _ (some x)
    (s.firstRef o)).trans (setPrevRef_same _ x none))
  rw [registerReference_eq hx, setFirstRef_firstRef _ _ ((hsame.counts.allocated q).trans hq),
    setPrevRef_firstRef, setPrevOf_firstRef, setNextRef_firstRef]

end register

theorem setTarget_sameCounts (s : References) (x : ℕ) (object : Option ℕ) :
    SameCounts s (s.setTarget x object) :=
  ⟨fun _ => rfl, fun _ => rfl, fun _ => rfl, fun _ _ => Iff.rfl, rfl, rfl, rfl⟩

theorem setTarget_target (hx : (s.safePtrs x).isSome) (object : Option ℕ) (y : ℕ) :
    (s.setTarget x object).target y = if y = x then object else s.target y := by
  obtain ⟨ref, href⟩ := Option.isSome_iff_exists.mp hx
  change (modify s.safePtrs x _ y).bind _ = _
  rw [modify_apply]
  split_ifs with hy
  · rw [hy, href]
    rfl
  · rfl

theorem setTarget_prevRef (object : Option ℕ) (y : ℕ) :
    (s.setTarget x object).prevRef y = s.prevRef y :=
  bind_modify (fun _ => rfl)

theorem setTarget_nextRef (object : Option ℕ) (y : ℕ) :
    (s.setTarget x object).nextRef y = s.nextRef y :=
  bind_modify (fun _ => rfl)

theorem setTarget_isSome (object : Option ℕ) (y : ℕ) :
    ((s.setTarget x object).safePtrs y).isSome = (s.safePtrs y).isSome :=
  isSome_modify ..

/-- What an assignment and a destructor begin with: a reference leaves its list. -/
def detach (s : References) (x : ℕ) : References := (s.unregisterReference x).setTarget x none

/-- What an assignment and a constructor end with. -/
def attach (s : References) (x : ℕ) (object : Option ℕ) : References :=
  (s.setTarget x object).registerReference x

theorem detach_sameCounts (s : References) (x : ℕ) : SameCounts s (s.detach x) :=
  (unregisterReference_same s x).counts.trans (setTarget_sameCounts ..)

theorem attach_sameCounts (s : References) (x : ℕ) (object : Option ℕ) :
    SameCounts s (s.attach x object) :=
  (setTarget_sameCounts ..).trans (registerReference_same ..).counts

theorem detach_target (hx : (s.safePtrs x).isSome) (y : ℕ) :
    (s.detach x).target y = if y = x then none else s.target y := by
  have hsame := unregisterReference_same s x
  rw [detach, setTarget_target ((hsame.allocated x).trans hx), hsame.target]

theorem Sound.detach (h : Sound s) (hx : (s.safePtrs x).isSome) : Sound (s.detach x) := by
  have hsame := unregisterReference_same s x
  have hcounts := detach_sameCounts s x
  have htarget := detach_target hx
  refine ⟨h.counts.congr hcounts, ⟨fun q hq => ?_, fun y q => ?_, fun y q hy => ?_, fun y hy => ?_⟩,
    h.log.congr hcounts⟩
  · rw [hcounts.alive] at hq
    obtain ⟨k, hk⟩ := h.safe.linked q hq
    cases hxo : s.target x with
    | none =>
      have hunregister : s.unregisterReference x = s := by rw [unregisterReference, hxo]
      refine ⟨k, hk.nodup, fun y => ?_, ?_⟩
      · rw [hk.mem, htarget]
        split_ifs with hyx
        · rw [hyx, hxo]
          exact ⟨nofun, nofun⟩
        · rfl
      · rw [References.detach, hunregister]
        exact hk.linked.congr (fun y _ => setTarget_prevRef none y)
          (fun y _ => setTarget_nextRef none y)
    | some o =>
      have hprev : ∀ y ∈ k, (s.detach x).prevRef y =
          if s.nextRef x = some y then s.prevRef x else s.prevRef y := by
        intro y hy
        rw [References.detach, setTarget_prevRef,
          unregisterReference_prevRef hxo (target_isSome ((hk.mem y).mp hy))]
      have hnext : ∀ y ∈ k, (s.detach x).nextRef y =
          if s.prevRef x = some y then s.nextRef x else s.nextRef y := by
        intro y hy
        rw [References.detach, setTarget_nextRef,
          unregisterReference_nextRef hxo (target_isSome ((hk.mem y).mp hy))]
      have hfirst : (s.detach x).firstRef q =
          if q = o ∧ s.prevRef x = none then s.nextRef x else s.firstRef q :=
        unregisterReference_firstRef hxo (alive_isSome hq)
      by_cases hqo : q = o
      · subst hqo
        have hxk : x ∈ k := (hk.mem x).mpr hxo
        refine ⟨k.erase x, hk.nodup.erase x, fun y => ?_, ?_⟩
        · rw [hk.nodup.mem_erase_iff, hk.mem, htarget]
          split_ifs with hyx
          · exact ⟨fun hmem => absurd hyx hmem.1, nofun⟩
          · exact ⟨And.right, fun hy => ⟨hyx, hy⟩⟩
        · refine hk.linked.unlink hk.nodup hxk nofun ?_ (fun y hy _ => hprev y hy)
            (fun y hy _ => hnext y hy)
          rw [hfirst]
          simp only [true_and]
      · obtain ⟨l, hl⟩ := h.safe.linked o (((h.safe.aim x o).mp hxo).2)
        have hxl : x ∈ l := (hl.mem x).mpr hxo
        have hdisjoint : ∀ y ∈ k, y ∉ l := hk.disjoint hl hqo
        refine ⟨k, hk.nodup, fun y => ?_, ?_⟩
        · rw [hk.mem, htarget]
          split_ifs with hyx
          · rw [hyx, hxo]
            exact ⟨fun heq => absurd (Option.some.inj heq).symm hqo, nofun⟩
          · rfl
        · rw [hfirst, if_neg (fun heq => hqo heq.1)]
          refine hk.linked.congr (fun y hy => ?_) (fun y hy => ?_)
          · rw [hprev y hy, if_neg]
            exact fun heq => hdisjoint y hy (hl.linked.next_mem hxl heq)
          · rw [hnext y hy, if_neg]
            intro heq
            cases hl.linked.prev_mem hxl with
            | inl hnone => rw [heq] at hnone; cases hnone
            | inr hsome =>
              obtain ⟨z, hz, hzx⟩ := hsome
              exact hdisjoint y hy (Option.some.inj (heq.symm.trans hzx) ▸ hz)
  · rw [htarget, hcounts.alive]
    change _ ↔ Function.update (s.unregisterReference x).aim x none y = some q ∧ _
    rw [Function.update_apply, hsame.aim]
    split_ifs
    · exact ⟨nofun, nofun⟩
    · exact h.safe.aim y q
  · rw [hcounts.objectCount]
    change Function.update (s.unregisterReference x).aim x none y = some q at hy
    rw [Function.update_apply, hsame.aim] at hy
    split_ifs at hy
    exact h.safe.fresh y q hy
  · change y < (s.unregisterReference x).safeCount
    rw [hsame.safeCount]
    rw [References.detach, setTarget_isSome, hsame.allocated] at hy
    exact h.safe.count y hy

theorem Sound.attach (h : Sound s) (hx : (s.safePtrs x).isSome) (hnone : s.target x = none)
    {object : Option ℕ} (hvalid : s.Valid object) : Sound (s.attach x object) := by
  have hsame := registerReference_same (s.setTarget x object) x
  have hcounts := attach_sameCounts s x object
  have htarget : ∀ y, (s.attach x object).target y = if y = x then object else s.target y :=
    fun y => (hsame.target y).trans (setTarget_target hx object y)
  have hother : ∀ {q k}, LinkedList s q k → ∀ y ∈ k, y ≠ x := by
    intro q k hk y hy heq
    have hy := (hk.mem y).mp hy
    rw [heq, hnone] at hy
    cases hy
  refine ⟨h.counts.congr hcounts, ⟨fun q hq => ?_, fun y q => ?_, fun y q hy => ?_, fun y hy => ?_⟩,
    h.log.congr hcounts⟩
  · rw [hcounts.alive] at hq
    obtain ⟨k, hk⟩ := h.safe.linked q hq
    cases object with
    | none =>
      have hregister : s.attach x none = s.setTarget x none := by
        rw [References.attach, registerReference, setTarget_target hx, if_pos rfl]
      refine ⟨k, hk.nodup, fun y => ?_, ?_⟩
      · rw [hk.mem, htarget]
        split_ifs with hyx
        · rw [hyx, hnone]
          exact ⟨nofun, nofun⟩
        · rfl
      · rw [hregister]
        exact hk.linked.congr (fun y _ => setTarget_prevRef none y)
          (fun y _ => setTarget_nextRef none y)
    | some o =>
      have hxo : (s.setTarget x (some o)).target x = some o := by
        rw [setTarget_target hx, if_pos rfl]
      have hsome : ∀ y ∈ k, ((s.setTarget x (some o)).safePtrs y).isSome := fun y hy =>
        (setTarget_isSome ..).trans (target_isSome ((hk.mem y).mp hy))
      have hprev : ∀ y ∈ k, (s.attach x (some o)).prevRef y =
          if s.firstRef o = some y then some x else s.prevRef y := by
        intro y hy
        rw [References.attach, registerReference_prevRef hxo (hsome y hy), if_neg (hother hk y hy),
          setTarget_prevRef]
        rfl
      have hnext : ∀ y ∈ k, (s.attach x (some o)).nextRef y = s.nextRef y := by
        intro y hy
        rw [References.attach, registerReference_nextRef hxo (hsome y hy), if_neg (hother hk y hy),
          setTarget_nextRef]
      have hfirst : (s.attach x (some o)).firstRef q = if q = o then some x else s.firstRef q :=
        registerReference_firstRef hxo (alive_isSome hq)
      have hxsome : ((s.setTarget x (some o)).safePtrs x).isSome := (setTarget_isSome ..).trans hx
      by_cases hqo : q = o
      · subst hqo
        have hxk : x ∉ k := fun hmem => hother hk x hmem rfl
        refine ⟨x :: k, List.nodup_cons.mpr ⟨hxk, hk.nodup⟩, fun y => ?_, ?_⟩
        · rw [List.mem_cons, hk.mem, htarget]
          split_ifs with hyx
          · simp only [hyx, true_or]
          · simp only [hyx, false_or]
        · rw [hfirst, if_pos rfl]
          refine hk.linked.push hxk ?_ ?_ hprev hnext hk.nodup
          · rw [References.attach, registerReference_prevRef hxo hxsome, if_pos rfl]
          · rw [References.attach, registerReference_nextRef hxo hxsome, if_pos rfl]
            rfl
      · obtain ⟨l, hl⟩ := h.safe.linked o (hvalid o rfl)
        refine ⟨k, hk.nodup, fun y => ?_, ?_⟩
        · rw [hk.mem, htarget]
          split_ifs with hyx
          · rw [hyx, hnone]
            exact ⟨nofun, fun heq => absurd (Option.some.inj heq).symm hqo⟩
          · rfl
        · rw [hfirst, if_neg hqo]
          refine hk.linked.congr (fun y hy => ?_) hnext
          rw [hprev y hy, if_neg]
          intro heq
          have hlinked := hl.linked
          rw [heq] at hlinked
          exact hk.disjoint hl hqo y hy hlinked.head_mem
  · rw [htarget, hcounts.alive]
    change _ ↔ ((s.setTarget x object).registerReference x).aim y = some q ∧ _
    rw [hsame.aim]
    change _ ↔ Function.update s.aim x object y = some q ∧ _
    rw [Function.update_apply]
    split_ifs
    · exact ⟨fun heq => ⟨heq, hvalid q heq⟩, And.left⟩
    · exact h.safe.aim y q
  · rw [hcounts.objectCount]
    change ((s.setTarget x object).registerReference x).aim y = some q at hy
    rw [hsame.aim] at hy
    change Function.update s.aim x object y = some q at hy
    rw [Function.update_apply] at hy
    split_ifs at hy
    · exact (h.log.fresh q).mp (alive_isSome (hvalid q hy))
    · exact h.safe.fresh y q hy
  · rw [References.attach, hsame.safeCount]
    rw [References.attach, hsame.allocated, setTarget_isSome] at hy
    exact h.safe.count y hy

theorem setSafePtr_eq (s : References) (x : ℕ) (object : Option ℕ) :
    s.setSafePtr x object = (s.detach x).attach x object := by
  rw [setSafePtr, References.detach, References.attach]
  simp only [setTarget, modify_modify, Function.update_idem]
  rfl

theorem Sound.setSafePtr (h : Sound s) (hx : (s.safePtrs x).isSome) {object : Option ℕ}
    (hvalid : s.Valid object) : Sound (s.setSafePtr x object) := by
  have hcounts := detach_sameCounts s x
  rw [setSafePtr_eq]
  refine (h.detach hx).attach ?_ ?_ (fun o ho => (hcounts.alive o).trans (hvalid o ho))
  · exact (setTarget_isSome ..).trans (((unregisterReference_same s x).allocated x).trans hx)
  · rw [detach_target hx, if_pos rfl]

/-- Write or remove a reference that points to no object. -/
def place (s : References) (x : ℕ) (ref : Option SafeObjectRef) (count : ℕ) : References :=
  { s with
    safePtrs := Function.update s.safePtrs x ref
    safeCount := count
    aim := Function.update s.aim x none }

theorem place_self (ref : Option SafeObjectRef) (count : ℕ) :
    (s.place x ref count).safePtrs x = ref := by
  simp only [place, Function.update_self]

theorem place_sameCounts (s : References) (x : ℕ) (ref : Option SafeObjectRef) (count : ℕ) :
    SameCounts s (s.place x ref count) :=
  ⟨fun _ => rfl, fun _ => rfl, fun _ => rfl, fun _ _ => Iff.rfl, rfl, rfl, rfl⟩

theorem Sound.place (h : Sound s) (hnone : s.target x = none) {ref : Option SafeObjectRef}
    (href : ref.bind (·.object) = none) {count : ℕ} (hcount : s.safeCount ≤ count)
    (hx : ref.isSome → x < count) : Sound (s.place x ref count) := by
  have hsafePtrs : ∀ y ≠ x, (s.place x ref count).safePtrs y = s.safePtrs y :=
    fun y hy => Function.update_of_ne hy ..
  have htarget : ∀ y, (s.place x ref count).target y = s.target y := by
    intro y
    by_cases hy : y = x
    · rw [hy, hnone, target, place_self, href]
    · rw [target, hsafePtrs y hy, target]
  have same := place_sameCounts s x ref count
  refine ⟨h.counts.congr same, ⟨fun q hq => ?_, fun y q => ?_, fun y q hy => ?_, fun y hy => ?_⟩,
    h.log.congr same⟩
  · obtain ⟨k, hk⟩ := h.safe.linked q hq
    have hne : ∀ y ∈ k, y ≠ x := by
      intro y hy hyx
      have hy := (hk.mem y).mp hy
      rw [hyx, hnone] at hy
      cases hy
    refine ⟨k, hk.nodup, fun y => (hk.mem y).trans (iff_of_eq (by rw [htarget])), ?_⟩
    exact hk.linked.congr
      (fun y hy => congrArg (Option.bind · SafeObjectRef.prevObjectRef) (hsafePtrs y (hne y hy)))
      (fun y hy => congrArg (Option.bind · SafeObjectRef.nextObjectRef) (hsafePtrs y (hne y hy)))
  · rw [htarget, h.safe.aim]
    change _ ↔ Function.update s.aim x none y = some q ∧ _
    by_cases hy : y = x
    · rw [hy, Function.update_self]
      refine ⟨fun haim => ?_, nofun⟩
      rw [← h.safe.aim, hnone] at haim
      cases haim
    · rw [Function.update_of_ne hy]
      rfl
  · change Function.update s.aim x none y = some q at hy
    rw [Function.update_apply] at hy
    split_ifs at hy
    exact h.safe.fresh y q hy
  · by_cases hyx : y = x
    · rw [hyx, place_self] at hy
      exact hyx ▸ hx hy
    · rw [hsafePtrs y hyx] at hy
      exact (h.safe.count y hy).trans_le hcount

theorem constructSafePtr_eq (s : References) (object : Option ℕ) :
    s.constructSafePtr object = (s.place s.safeCount (some ⟨none, none, none⟩)
      (s.safeCount + 1)).attach s.safeCount object := by
  rw [constructSafePtr, References.attach, References.place]
  simp only [setTarget, modify_update, Function.update_idem]
  rfl

theorem destructSafePtr_eq (s : References) (x : ℕ) :
    s.destructSafePtr x = (s.detach x).place x none (s.detach x).safeCount := by
  rw [destructSafePtr, References.detach, References.place]
  simp only [setTarget, update_modify, Function.update_idem]

theorem constructSafePtr_sameCounts (s : References) (object : Option ℕ) :
    SameCounts s (s.constructSafePtr object) := by
  rw [constructSafePtr_eq]
  exact (place_sameCounts ..).trans (attach_sameCounts ..)

theorem setSafePtr_sameCounts (s : References) (x : ℕ) (object : Option ℕ) :
    SameCounts s (s.setSafePtr x object) := by
  rw [setSafePtr_eq]
  exact (detach_sameCounts ..).trans (attach_sameCounts ..)

theorem destructSafePtr_sameCounts (s : References) (x : ℕ) :
    SameCounts s (s.destructSafePtr x) := by
  rw [destructSafePtr_eq]
  exact (detach_sameCounts ..).trans (place_sameCounts ..)

theorem Sound.constructSafePtr (h : Sound s) {object : Option ℕ} (hvalid : s.Valid object) :
    Sound (s.constructSafePtr object) := by
  have hnone : s.target s.safeCount = none := by
    by_contra hne
    obtain ⟨o, ho⟩ := Option.ne_none_iff_exists'.mp hne
    exact Nat.lt_irrefl _ (h.safe.count _ (target_isSome ho))
  have hplace : Sound (s.place s.safeCount (some ⟨none, none, none⟩) (s.safeCount + 1)) :=
    h.place hnone rfl (Nat.le_succ _) (fun _ => Nat.lt_succ_self _)
  rw [constructSafePtr_eq]
  refine hplace.attach ?_ ?_ hvalid
  · rw [place_self]
    rfl
  · rw [target, place_self]
    rfl

theorem Sound.destructSafePtr (h : Sound s) (hx : (s.safePtrs x).isSome) :
    Sound (s.destructSafePtr x) := by
  rw [destructSafePtr_eq]
  refine (h.detach hx).place ?_ rfl (Nat.le_refl _) nofun
  rw [detach_target hx, if_pos rfl]

theorem Sound.newObject (h : Sound s) : Sound { s with
    objects := Function.update s.objects s.objectCount (some ⟨none, 0, true⟩)
    objectCount := s.objectCount + 1 } := by
  set t : References := { s with
    objects := Function.update s.objects s.objectCount (some ⟨none, 0, true⟩)
    objectCount := s.objectCount + 1 }
  have hnew : t.objects s.objectCount = some ⟨none, 0, true⟩ := Function.update_self ..
  have hold : ∀ q ≠ s.objectCount, t.objects q = s.objects q :=
    fun q hq => Function.update_of_ne hq ..
  have hfresh : ∀ q, s.alive q → q ≠ s.objectCount :=
    fun q hq => ((h.log.fresh q).mp (alive_isSome hq)).ne
  have halive : ∀ q, t.alive q ↔ q = s.objectCount ∨ s.alive q := by
    intro q
    by_cases hq : q = s.objectCount
    · rw [hq, alive, hnew]
      simp
    · rw [alive, hold q hq]
      exact (or_iff_right hq).symm
  refine ⟨⟨fun q hq => ?_, fun r q hr => ?_, h.counts.held⟩,
    ⟨fun q hq => ?_, fun x q => ?_, fun x q hx => ?_, h.safe.count⟩,
    ⟨h.log.nodup, fun q => ?_, fun q => ?_, fun q hq => ?_⟩⟩
  · by_cases hqnew : q = s.objectCount
    · refine ⟨[], List.nodup_nil, fun r => ⟨nofun, fun hr => ?_⟩, ?_⟩
      · exact absurd hqnew (hfresh q (h.counts.live r q hr))
      · rw [hqnew, refCount, hnew]
        rfl
    · rw [refCount, hold q hqnew]
      exact h.counts.counted q (((halive q).mp hq).resolve_left hqnew)
  · exact (halive q).mpr (.inr (h.counts.live r q hr))
  · by_cases hqnew : q = s.objectCount
    · refine ⟨[], List.nodup_nil, fun x => ⟨nofun, fun hx => ?_⟩, ?_⟩
      · exact absurd hqnew (hfresh q ((h.safe.aim x q).mp hx).2)
      · rw [hqnew, firstRef, hnew]
        rfl
    · obtain ⟨l, hnodup, hmem, hlinked⟩ :=
        h.safe.linked q (((halive q).mp hq).resolve_left hqnew)
      refine ⟨l, hnodup, hmem, ?_⟩
      rw [firstRef, hold q hqnew]
      exact hlinked
  · rw [halive]
    refine (h.safe.aim x q).trans (and_congr_right (fun hx => ?_))
    exact (or_iff_right (h.safe.fresh x q hx).ne).symm
  · exact Nat.lt_succ_of_lt (h.safe.fresh x q hx)
  · by_cases hqnew : q = s.objectCount
    · have hdead : t.alive q := (halive q).mpr (.inl hqnew)
      rw [hdead]
      refine (h.log.mem q).trans ⟨fun hq => ?_, fun hq => nomatch hq.2⟩
      exact absurd hqnew ((h.log.fresh q).mp hq.1).ne
    · rw [hold q hqnew, alive, hold q hqnew]
      exact h.log.mem q
  · by_cases hqnew : q = s.objectCount
    · rw [hqnew, hnew]
      exact ⟨fun _ => Nat.lt_succ_self _, fun _ => rfl⟩
    · rw [hold q hqnew, h.log.fresh]
      exact ⟨Nat.lt_succ_of_lt, fun hq => lt_of_le_of_ne (Nat.le_of_lt_succ hq) hqnew⟩
  · by_cases hqnew : q = s.objectCount
    · rw [hqnew, hnew]
      rfl
    · rw [hold q hqnew]
      exact h.log.held q hq

/-! ### Runs -/

/-- What is promised of an object that was held, and of the pointers to an object. -/
structure Correct (s : References) : Prop where
  destroyed : ∀ o, s.held o → (o ∈ s.destroyed ↔ ∀ r, s.refPtrs r ≠ some (some o))
  once : s.destroyed.Nodup
  live : ∀ r o, s.refPtrs r = some (some o) → o ∉ s.destroyed
  safe : ∀ x o, s.aim x = some o → s.target x = if o ∈ s.destroyed then none else some o
  linked : ∀ o, s.alive o → ∃ l, LinkedList s o l

/-- A pointer may be counted. -/
def Countable (s : References) (object : Option ℕ) : Prop :=
  ∀ o ∈ object, (s.refCount o).toNat + 1 < 2 ^ 32

/-- A pointer that is assigned an object is not the only one that holds it. -/
def KeepsObject (s : References) (r : ℕ) (object : Option ℕ) : Prop :=
  ∀ o ∈ object, Shared s r o ∧
    (s.refPtrs r ≠ some (some o) → (s.refCount o).toNat + 1 < 2 ^ 32)

def Allowed (s : References) : Action → Prop
  | .constructRefPtr _ object => s.Countable object
  | .copyRefPtr _ ref => s.Countable (s.refPtrs ref).join
  | .setRefPtr r object => s.KeepsObject r object
  | .assignRefPtr r ref => s.KeepsObject r (s.refPtrs ref).join
  | _ => True

instance (s : References) (object : Option ℕ) : Decidable (s.Countable object) :=
  inferInstanceAs (Decidable (∀ o ∈ object, _))

instance (s : References) (r o : ℕ) : Decidable (s.Shared r o) :=
  inferInstanceAs (Decidable (_ → _))

instance (s : References) (r : ℕ) (object : Option ℕ) : Decidable (s.KeepsObject r object) :=
  inferInstanceAs (Decidable (∀ o ∈ object, _))

/-- What holds along a run. -/
def Invariant (s : References) : Prop := Sound s ∧ ∀ o, StillHeld s o

theorem Sound.valid_refPtr (h : Sound s) {object : Option ℕ} (hr : s.refPtrs r = some object) :
    s.Valid object := by
  intro o ho
  cases ho
  exact h.counts.live r o hr

theorem Sound.valid_safePtr (h : Sound s) {ref : SafeObjectRef} (hx : s.safePtrs x = some ref) :
    s.Valid ref.object := by
  intro o ho
  refine ((h.safe.aim x o).mp ?_).2
  rw [target, hx]
  exact ho

theorem Invariant.start : Invariant start := by
  refine ⟨⟨⟨nofun, nofun, nofun⟩, ⟨nofun, ?_, nofun, nofun⟩, ⟨List.nodup_nil, ?_, ?_, nofun⟩⟩,
    fun o ho => nomatch ho⟩
  · exact fun x o => ⟨nofun, nofun⟩
  · exact fun o => ⟨nofun, nofun⟩
  · exact fun o => ⟨nofun, nofun⟩

theorem Invariant.constructRefPtr (h : Invariant s) (hr : s.refPtrs r = none)
    {object : Option ℕ} (hvalid : s.Valid object) (hcount : s.Countable object) :
    Invariant (s.constructRefPtr r object) :=
  ⟨h.1.constructRefPtr (congrArg Option.join hr) hvalid hcount,
    fun o => (h.2 o).constructRefPtr (congrArg Option.join hr) object⟩

theorem Invariant.setRefPtr (h : Invariant s) {object : Option ℕ} (hvalid : s.Valid object)
    (hkeeps : s.KeepsObject r object) : Invariant (s.setRefPtr r object) :=
  ⟨h.1.setRefPtr hvalid (fun o ho => (hkeeps o ho).1) (fun o ho => (hkeeps o ho).2),
    fun o => (h.2 o).setRefPtr h.1 object⟩

theorem Invariant.destroySelf (h : Invariant s) (ho : s.alive o) (hcount : s.refCount o = 0) :
    Invariant (s.destroySelf o) := by
  obtain ⟨l, -, hmem, hlength⟩ := h.1.counts.counted o ho
  have hnil : l = [] := List.length_eq_zero_iff.mp (by rw [← hlength, hcount]; rfl)
  have hrefs : ∀ r, s.refPtrs r ≠ some (some o) := by
    intro r hr
    have hmem' := (hmem r).mpr hr
    rw [hnil] at hmem'
    cases hmem'
  refine ⟨h.1.destroySelf ho hrefs, fun q hq hheld => h.2 q ?_ hheld⟩
  rw [destroySelf_alive ho] at hq
  split_ifs at hq
  exact hq

theorem Invariant.step {a : Action} (h : Invariant s) (allowed : s.Allowed a)
    (taken : s.step a = some t) : Invariant t := by
  have safe : ∀ {u : References}, SameCounts s u → Sound u → Invariant u :=
    fun same hu => ⟨hu, fun o => (h.2 o).congr same⟩
  cases a with
  | newObject =>
    cases taken
    refine ⟨h.1.newObject, fun q hq hheld => ?_⟩
    have hsome := h.1.log.held q hheld
    refine h.2 q ?_ hheld
    change Option.any _ (Function.update s.objects s.objectCount _ q) = true at hq
    rwa [Function.update_of_ne ((h.1.log.fresh q).mp hsome).ne] at hq
  | deleteObject o =>
    simp only [References.step] at taken
    split_ifs at taken with hdelete
    cases taken
    obtain ⟨object, hobject, hdelete⟩ := (Option.any_eq_true ..).mp hdelete
    obtain ⟨halive, hcount⟩ := of_decide_eq_true hdelete
    refine h.destroySelf (alive_iff.mpr ⟨object, hobject, halive⟩) ?_
    rw [refCount, hobject]
    exact hcount
  | constructRefPtr r object =>
    simp only [References.step] at taken
    split_ifs at taken with hr
    cases taken
    exact h.constructRefPtr hr.1 hr.2 allowed
  | copyRefPtr r ref =>
    simp only [References.step] at taken
    split_ifs at taken with hr
    obtain ⟨object, href, rfl⟩ := Option.map_eq_some_iff.mp taken
    rw [Allowed, href] at allowed
    exact h.constructRefPtr hr (h.1.valid_refPtr href) allowed
  | setRefPtr r object =>
    simp only [References.step] at taken
    split_ifs at taken with hr
    cases taken
    exact h.setRefPtr hr.2 allowed
  | assignRefPtr r ref =>
    simp only [References.step] at taken
    split_ifs at taken with hr
    obtain ⟨object, href, rfl⟩ := Option.map_eq_some_iff.mp taken
    rw [Allowed, href] at allowed
    exact h.setRefPtr (h.1.valid_refPtr href) allowed
  | destructRefPtr r =>
    simp only [References.step] at taken
    split_ifs at taken
    cases taken
    rw [destructRefPtr_eq]
    exact ⟨h.1.letGo rfl, fun o => (h.2 o).letGo h.1 rfl⟩
  | constructSafePtr object =>
    simp only [References.step] at taken
    split_ifs at taken with hvalid
    cases taken
    exact safe (constructSafePtr_sameCounts ..) (h.1.constructSafePtr hvalid)
  | copySafePtr ref =>
    obtain ⟨ref', href, rfl⟩ := Option.map_eq_some_iff.mp taken
    exact safe (constructSafePtr_sameCounts ..) (h.1.constructSafePtr (h.1.valid_safePtr href))
  | setSafePtr x object =>
    simp only [References.step] at taken
    split_ifs at taken with hx
    cases taken
    exact safe (setSafePtr_sameCounts ..) (h.1.setSafePtr hx.1 hx.2)
  | assignSafePtr x ref =>
    simp only [References.step] at taken
    split_ifs at taken with hx
    obtain ⟨ref', href, rfl⟩ := Option.map_eq_some_iff.mp taken
    exact safe (setSafePtr_sameCounts ..) (h.1.setSafePtr hx (h.1.valid_safePtr href))
  | destructSafePtr x =>
    simp only [References.step] at taken
    split_ifs at taken with hx
    cases taken
    exact safe (destructSafePtr_sameCounts ..) (h.1.destructSafePtr hx)

theorem Invariant.correct (h : Invariant s) : Correct s := by
  have hdead : ∀ o, s.alive o → o ∉ s.destroyed := by
    intro o ho hmem
    rw [h.1.log.mem, ho] at hmem
    cases hmem.2
  constructor
  case destroyed =>
    intro o hheld
    constructor
    · exact fun hmem r hr => hdead o (h.1.counts.live r o hr) hmem
    · intro hrefs
      refine (h.1.log.mem o).mpr ⟨h.1.log.held o hheld, ?_⟩
      by_contra halive
      obtain ⟨r, hr⟩ := h.2 o (eq_true_of_ne_false halive) hheld
      exact hrefs r hr
  case once => exact h.1.log.nodup
  case live => exact fun r o hr => hdead o (h.1.counts.live r o hr)
  case safe =>
    intro x o hx
    split_ifs with hmem
    · by_contra hne
      obtain ⟨q, hq⟩ := Option.ne_none_iff_exists'.mp hne
      obtain ⟨haim, halive⟩ := (h.1.safe.aim x q).mp hq
      rw [hx] at haim
      cases haim
      exact hdead o halive hmem
    · refine (h.1.safe.aim x o).mpr ⟨hx, ?_⟩
      by_contra halive
      refine hmem ((h.1.log.mem o).mpr ⟨?_, eq_false_of_ne_true halive⟩)
      exact (h.1.log.fresh o).mpr (h.1.safe.fresh x o hx)
  case linked => exact h.1.safe.linked

/-- As long as an assignment does not let go of what it takes. -/
theorem correct_of_allowed {as : List Action} (h : Run step Allowed start as s) : Correct s :=
  (h.invariant (I := Invariant) (fun _ _ _ hs allowed taken => hs.step allowed taken)
    Invariant.start).correct

/-- A shared object is assigned to one of its pointers and then let go by both. -/
theorem correct_of_allowed_shared : ∃ s : References,
    s.destroyed = [0] ∧ s.target 0 = none ∧ Correct s := by
  have run : ∃ as s, Run step Allowed start as s ∧ s.destroyed = [0] ∧ s.target 0 = none :=
    ⟨[.newObject, .constructRefPtr 0 (some 0), .constructSafePtr (some 0), .copySafePtr 0,
      .copyRefPtr 1 0, .assignRefPtr 0 1, .destructSafePtr 1, .setRefPtr 0 none,
      .destructRefPtr 1], _,
      .cons trivial rfl <| .cons (show Countable _ _ by decide +kernel) rfl <|
      .cons trivial rfl <| .cons trivial rfl <|
      .cons (show Countable _ _ by decide +kernel) rfl <|
      .cons (show KeepsObject _ _ _ by decide +kernel) rfl <| .cons trivial rfl <|
      .cons (show KeepsObject _ _ _ by decide +kernel) rfl <| .cons trivial rfl <| .nil _,
      by decide +kernel, by decide +kernel⟩
  obtain ⟨as, s, run, hdestroyed, htarget⟩ := run
  exact ⟨s, hdestroyed, htarget, correct_of_allowed run⟩

/-- The only pointer to an object is assigned the object: it is destroyed and still referred to. -/
theorem assigned_itself : ∃ as s, Run step (fun _ _ => True) start as s ∧
    ¬∀ r o, s.refPtrs r = some (some o) → o ∉ s.destroyed :=
  ⟨[.newObject, .constructRefPtr 0 (some 0), .assignRefPtr 0 0], _, .of_exec rfl,
    fun h => h 0 0 (by decide +kernel) (by decide +kernel)⟩

end References

end TNL
