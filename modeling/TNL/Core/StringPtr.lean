import Mathlib.Data.Finset.Card
import TNL.Connection.Header
import TNL.Library.Refinement
import TNL.Stream.ByteStream

/-!
# String pointers

A `StringPtr` is null or refers to a buffer that counts the pointers to it and is freed
with the last of them. An assignment lets the old buffer go before it looks at the new
string, so the new one must not be the buffer that is just freed. Assigning an empty
pointer follows the null pointer.
-/
namespace TNL
open Library

structure StringData where
  mRefCount : U32
  mStringData : List U8
  deriving DecidableEq

/-- The buffers at their addresses, the number of addresses given out, and the addresses in the order
in which the buffers were freed. An address is not given out again. -/
structure StringMemory where
  buffers : ℕ → Option StringData
  next : ℕ
  freed : List ℕ

/-- An argument of type `const char *`: characters somewhere else, or the string of a pointer. -/
inductive CharPointer (π : Type) where
  | outside (string : List U8)
  | ofStringPtr (q : π)

namespace StringMemory

def alloc (h : StringMemory) (string : List U8) : StringMemory × Option ℕ :=
  (⟨Function.update h.buffers h.next (some ⟨1, string⟩), h.next + 1, h.freed⟩, some h.next)

/-- Undefined if the buffer was freed. -/
def decRef (h : StringMemory) : Option ℕ → Option StringMemory
  | none => some h
  | some a => (h.buffers a).map fun data =>
    if data.mRefCount - 1 = 0 then
      { h with buffers := Function.update h.buffers a none, freed := h.freed ++ [a] }
    else { h with
      buffers := Function.update h.buffers a (some { data with mRefCount := data.mRefCount - 1 }) }

/-- Undefined if there is no buffer. -/
def incRef (h : StringMemory) : Option ℕ → Option StringMemory
  | none => none
  | some a => (h.buffers a).map fun data => { h with
      buffers := Function.update h.buffers a (some { data with mRefCount := data.mRefCount + 1 }) }

def getString (h : StringMemory) : Option ℕ → Option (List U8)
  | none => some []
  | some a => (h.buffers a).map (·.mStringData)

end StringMemory

/-- The pointers that are alive, each with its `mString`. -/
structure StringPtrs (π : Type) where
  memory : StringMemory
  mString : π → Option (Option ℕ)

namespace StringPtrs

variable {π : Type} [DecidableEq π]

inductive Action (π : Type) where
  | construct (p : π)
  | constructString (p : π) (string : CharPointer π)
  | copy (p q : π)
  | assign (p q : π)
  | assignString (p : π) (string : CharPointer π)
  | destruct (p : π)

def start : StringPtrs π := ⟨⟨fun _ => none, 0, []⟩, fun _ => none⟩

def set (s : StringPtrs π) (p : π) (memory : StringMemory) (mString : Option ℕ) : StringPtrs π :=
  ⟨memory, Function.update s.mString p (some mString)⟩

/-- The characters that a pointer leads to when the memory is this one. -/
def characters (s : StringPtrs π) (memory : StringMemory) : CharPointer π → Option (List U8)
  | .outside string => some string
  | .ofStringPtr q => (s.mString q).bind memory.getString

def construct (s : StringPtrs π) (p : π) : StringPtrs π := s.set p s.memory none

def constructString (s : StringPtrs π) (p : π) (string : CharPointer π) :
    Option (StringPtrs π) :=
  (s.characters s.memory string).map fun string =>
    let new := s.memory.alloc string
    s.set p new.1 new.2

def copy (s : StringPtrs π) (p q : π) : Option (StringPtrs π) :=
  (s.mString q).bind fun mString =>
    if mString = none then some (s.set p s.memory none)
    else (s.memory.incRef mString).map fun memory => s.set p memory mString

def assign (s : StringPtrs π) (p q : π) : Option (StringPtrs π) :=
  (s.mString p).bind fun mString =>
  (s.memory.decRef mString).bind fun memory =>
  (s.mString q).bind fun mString =>
  (memory.incRef mString).map fun memory => s.set p memory mString

def assignString (s : StringPtrs π) (p : π) (string : CharPointer π) : Option (StringPtrs π) :=
  (s.mString p).bind fun mString =>
  (s.memory.decRef mString).bind fun memory =>
  (s.characters memory string).map fun string =>
    let new := memory.alloc string
    s.set p new.1 new.2

def destruct (s : StringPtrs π) (p : π) : Option (StringPtrs π) :=
  (s.mString p).bind fun mString =>
  (s.memory.decRef mString).map fun memory => ⟨memory, Function.update s.mString p none⟩

def step (s : StringPtrs π) : Action π → Option (StringPtrs π)
  | .construct p => if (s.mString p).isSome then none else some (s.construct p)
  | .constructString p string =>
    if (s.mString p).isSome then none else s.constructString p string
  | .copy p q => if (s.mString p).isSome then none else s.copy p q
  | .assign p q => s.assign p q
  | .assignString p string => s.assignString p string
  | .destruct p => s.destruct p

/-! ### What the pointers should read -/

def givenCharacters (given : π → Option (List U8)) : CharPointer π → Option (List U8)
  | .outside string => some string
  | .ofStringPtr q => given q

/-- The string that each living pointer was last given. Undefined for a pointer that does not live, or
that already does. -/
def give (given : π → Option (List U8)) : Action π → Option (π → Option (List U8))
  | .construct p => if (given p).isSome then none else some (Function.update given p (some []))
  | .constructString p string =>
    if (given p).isSome then none
    else (givenCharacters given string).map fun string => Function.update given p (some string)
  | .copy p q =>
    if (given p).isSome then none
    else (given q).map fun string => Function.update given p (some string)
  | .assign p q =>
    (given p).bind fun _ => (given q).map fun string => Function.update given p (some string)
  | .assignString p string =>
    (given p).bind fun _ =>
      (givenCharacters given string).map fun string => Function.update given p (some string)
  | .destruct p => (given p).map fun _ => Function.update given p none

/-- The pointers read what they were given, the counts are right, and every buffer without a pointer to
it was freed once. -/
structure Sound (s : StringPtrs π) (given : π → Option (List U8)) : Prop where
  reads : ∀ p mString, s.mString p = some mString →
    ∃ string, given p = some string ∧ s.memory.getString mString = some string
  gone : ∀ p, s.mString p = none → given p = none
  counted : ∀ a data, s.memory.buffers a = some data → ∃ holders : Finset π, holders.Nonempty ∧
    (∀ p, p ∈ holders ↔ s.mString p = some (some a)) ∧ data.mRefCount.toNat = holders.card
  used : ∀ a, (s.memory.buffers a).isSome → a < s.memory.next
  freed : s.memory.freed.Nodup ∧
    ∀ a, a ∈ s.memory.freed ↔ a < s.memory.next ∧ s.memory.buffers a = none

/-- One pointer more to the buffer can be counted. -/
def Uncapped (s : StringPtrs π) (mString : Option ℕ) : Prop :=
  ∀ a ∈ mString, ∀ data ∈ s.memory.buffers a, data.mRefCount.toNat + 1 < 2 ^ 32

/-- The pointer is not the only one to its buffer. -/
def Shared (s : StringPtrs π) (p : π) : Prop :=
  ∀ a, s.mString p = some (some a) → ∀ data ∈ s.memory.buffers a, data.mRefCount ≠ 1

/-- The steps that do not reach a defect. -/
def Harmless (s : StringPtrs π) : Action π → Prop
  | .copy _ q => ∀ mString ∈ s.mString q, s.Uncapped mString
  | .assign p q => (∀ mString ∈ s.mString q, mString ≠ none) ∧ (p = q → s.Shared p) ∧
    (s.mString p ≠ s.mString q → ∀ mString ∈ s.mString q, s.Uncapped mString)
  | .assignString p (.ofStringPtr q) => s.mString p = s.mString q → s.Shared p
  | _ => True

variable {s s' : StringPtrs π} {given given' : π → Option (List U8)} {p q : π}
  {mString : Option ℕ} {data : StringData} {string : List U8} {memory : StringMemory} {a : ℕ}

omit [DecidableEq π] in
theorem sound_start : (start : StringPtrs π).Sound fun _ => none where
  reads := nofun
  gone := fun _ _ => rfl
  counted := nofun
  used := nofun
  freed := ⟨List.nodup_nil, by simp [start]⟩

omit [DecidableEq π] in
theorem Sound.lives (h : s.Sound given) (hp : given p = some string) :
    ∃ mString, s.mString p = some mString ∧ s.memory.getString mString = some string := by
  cases hlive : s.mString p with
  | none =>
    rw [h.gone p hlive] at hp
    exact absurd hp (Option.some_ne_none string).symm
  | some mString =>
    obtain ⟨string', hgiven, hreads⟩ := h.reads p mString hlive
    obtain rfl := Option.some.inj (hp.symm.trans hgiven)
    exact ⟨mString, rfl, hreads⟩

omit [DecidableEq π] in
theorem Sound.dead (h : s.Sound given) (hp : given p = none) : s.mString p = none := by
  by_contra hlive
  obtain ⟨mString, hmString⟩ := Option.ne_none_iff_exists'.mp hlive
  obtain ⟨string, hgiven, -⟩ := h.reads p mString hmString
  rw [hp] at hgiven
  exact absurd hgiven (Option.some_ne_none string).symm

/-! ### A pointer lets go of its buffer or takes one -/

/-- The strings of other pointers stay. -/
theorem Sound.set (h : s.Sound given) (hp : s.mString p = none)
    (hreads : memory.getString mString = some string)
    (hothers : ∀ q a, s.mString q = some (some a) →
      memory.getString (some a) = s.memory.getString (some a))
    (hcounted : ∀ a data, memory.buffers a = some data → ∃ holders : Finset π,
      holders.Nonempty ∧ (∀ q, q ∈ holders ↔ (s.set p memory mString).mString q = some (some a)) ∧
        data.mRefCount.toNat = holders.card)
    (hused : ∀ a, (memory.buffers a).isSome → a < memory.next)
    (hfreed : memory.freed.Nodup ∧
      ∀ a, a ∈ memory.freed ↔ a < memory.next ∧ memory.buffers a = none) :
    (s.set p memory mString).Sound (Function.update given p (some string)) where
  reads := by
    intro q mString' hq
    by_cases hqp : q = p
    · subst hqp
      have hmString : mString = mString' := by simpa [StringPtrs.set] using hq
      exact ⟨string, Function.update_self .., hmString ▸ hreads⟩
    · have hold : s.mString q = some mString' := by simpa [StringPtrs.set, hqp] using hq
      obtain ⟨string', hgiven, hreads'⟩ := h.reads q mString' hold
      refine ⟨string', ?_, ?_⟩
      · rw [Function.update_of_ne hqp, hgiven]
      · cases mString' with
        | none => exact hreads'
        | some a =>
          change memory.getString (some a) = some string'
          rw [hothers q a hold, hreads']
  gone := by
    intro q hq
    by_cases hqp : q = p
    · subst hqp
      simp [StringPtrs.set] at hq
    · have hold : s.mString q = none := by simpa [StringPtrs.set, hqp] using hq
      rw [Function.update_of_ne hqp, h.gone q hold]
  counted := hcounted
  used := hused
  freed := hfreed

theorem Sound.takeNull (h : s.Sound given) (hp : s.mString p = none) :
    (s.set p s.memory none).Sound (Function.update given p (some [])) := by
  apply h.set hp rfl (fun _ _ _ => rfl) ?_ h.used h.freed
  intro a data hdata
  obtain ⟨holders, hnonempty, hmem, hcard⟩ := h.counted a data hdata
  refine ⟨holders, hnonempty, ?_, hcard⟩
  intro q
  rw [hmem]
  by_cases hqp : q = p
  · subst hqp
    simp [StringPtrs.set, hp]
  · simp [StringPtrs.set, hqp]

theorem Sound.alloc (h : s.Sound given) (hp : s.mString p = none) (string : List U8) :
    (s.set p (s.memory.alloc string).1 (s.memory.alloc string).2).Sound
      (Function.update given p (some string)) := by
  have hfresh : s.memory.buffers s.memory.next = none := by
    by_contra hlive
    exact absurd (h.used _ (Option.isSome_iff_ne_none.mpr hlive)) (Nat.lt_irrefl _)
  have hnew : (s.memory.alloc string).1.buffers s.memory.next = some ⟨1, string⟩ :=
    Function.update_self ..
  have hold : ∀ a, a ≠ s.memory.next →
      (s.memory.alloc string).1.buffers a = s.memory.buffers a := fun a ha =>
    Function.update_of_ne ha ..
  have hbuffer : ∀ q a, s.mString q = some (some a) → a ≠ s.memory.next := by
    rintro q a hq rfl
    obtain ⟨string', -, hreads⟩ := h.reads q _ hq
    rw [StringMemory.getString, hfresh] at hreads
    exact absurd hreads (Option.some_ne_none string').symm
  apply h.set hp
  case hreads =>
    change ((s.memory.alloc string).1.buffers s.memory.next).map (·.mStringData) = some string
    rw [hnew]
    rfl
  case hothers =>
    intro q a hq
    rw [StringMemory.getString, hold a (hbuffer q a hq), StringMemory.getString]
  case hcounted =>
    intro a data hdata
    by_cases ha : a = s.memory.next
    · subst ha
      obtain rfl := Option.some.inj (hnew.symm.trans hdata)
      refine ⟨{p}, Finset.singleton_nonempty p, ?_, rfl⟩
      intro q
      rw [Finset.mem_singleton]
      by_cases hqp : q = p
      · subst hqp
        simp [StringPtrs.set, StringMemory.alloc]
      · have hne : s.mString q ≠ some (some s.memory.next) := fun hq => hbuffer q _ hq rfl
        simp [StringPtrs.set, hqp, hne]
    · rw [hold a ha] at hdata
      obtain ⟨holders, hnonempty, hmem, hcard⟩ := h.counted a data hdata
      refine ⟨holders, hnonempty, ?_, hcard⟩
      intro q
      rw [hmem]
      by_cases hqp : q = p
      · subst hqp
        simp [StringPtrs.set, StringMemory.alloc, hp, Ne.symm ha]
      · simp [StringPtrs.set, hqp]
  case hused =>
    intro a ha
    by_cases hne : a = s.memory.next
    · rw [hne]
      exact Nat.lt_succ_self _
    · rw [hold a hne] at ha
      exact Nat.lt_succ_of_lt (h.used a ha)
  case hfreed =>
    refine ⟨h.freed.1, ?_⟩
    intro a
    change a ∈ s.memory.freed ↔ a < s.memory.next + 1 ∧ _
    rw [h.freed.2]
    by_cases hne : a = s.memory.next
    · subst hne
      rw [hnew]
      simp
    · rw [hold a hne]
      apply and_congr_left
      intro _
      omega

/-- The pointer no longer lives, or is about to get another string. -/
def release (s : StringPtrs π) (p : π) (memory : StringMemory) : StringPtrs π :=
  ⟨memory, Function.update s.mString p none⟩

theorem Sound.release (h : s.Sound given)
    (hothers : ∀ q, q ≠ p → ∀ a, s.mString q = some (some a) →
      memory.getString (some a) = s.memory.getString (some a))
    (hcounted : ∀ a data, memory.buffers a = some data → ∃ holders : Finset π,
      holders.Nonempty ∧ (∀ q, q ∈ holders ↔ (s.release p memory).mString q = some (some a)) ∧
        data.mRefCount.toNat = holders.card)
    (hused : ∀ a, (memory.buffers a).isSome → a < memory.next)
    (hfreed : memory.freed.Nodup ∧
      ∀ a, a ∈ memory.freed ↔ a < memory.next ∧ memory.buffers a = none) :
    (s.release p memory).Sound (Function.update given p none) where
  reads := by
    intro q mString' hq
    by_cases hqp : q = p
    · subst hqp
      simp [StringPtrs.release] at hq
    · have hold : s.mString q = some mString' := by simpa [StringPtrs.release, hqp] using hq
      obtain ⟨string', hgiven, hreads'⟩ := h.reads q mString' hold
      refine ⟨string', ?_, ?_⟩
      · rw [Function.update_of_ne hqp, hgiven]
      · cases mString' with
        | none => exact hreads'
        | some a =>
          change memory.getString (some a) = some string'
          rw [hothers q hqp a hold, hreads']
  gone := by
    intro q hq
    by_cases hqp : q = p
    · rw [hqp, Function.update_self]
    · have hold : s.mString q = none := by simpa [StringPtrs.release, hqp] using hq
      rw [Function.update_of_ne hqp, h.gone q hold]
  counted := hcounted
  used := hused
  freed := hfreed

/-- The holders of another buffer stay. -/
theorem Sound.counted_release (h : s.Sound given) (hp : s.mString p ≠ some (some a))
    (hdata : s.memory.buffers a = some data) (memory : StringMemory) :
    ∃ holders : Finset π, holders.Nonempty ∧
      (∀ q, q ∈ holders ↔ (s.release p memory).mString q = some (some a)) ∧
        data.mRefCount.toNat = holders.card := by
  obtain ⟨holders, hnonempty, hmem, hcard⟩ := h.counted a data hdata
  refine ⟨holders, hnonempty, ?_, hcard⟩
  intro q
  rw [hmem]
  by_cases hqp : q = p
  · subst hqp
    simp [StringPtrs.release, hp]
  · simp [StringPtrs.release, hqp]

theorem sub_one_eq_zero_iff (count : U32) : count - 1 = 0 ↔ count = 1 := by
  constructor
  · intro h
    bv_omega
  · rintro rfl
    rfl

def free (h : StringMemory) (a : ℕ) : StringMemory :=
  { h with buffers := Function.update h.buffers a none, freed := h.freed ++ [a] }

def recount (h : StringMemory) (a : ℕ) (data : StringData) (count : U32) : StringMemory :=
  { h with buffers := Function.update h.buffers a (some { data with mRefCount := count }) }

theorem decRef_eq {h : StringMemory} (hdata : h.buffers a = some data) :
    h.decRef (some a) =
      some (if data.mRefCount = 1 then free h a else recount h a data (data.mRefCount - 1)) := by
  rw [StringMemory.decRef, hdata, Option.map_some]
  by_cases hone : data.mRefCount = 1
  · rw [if_pos ((sub_one_eq_zero_iff _).mpr hone), if_pos hone, free]
  · rw [if_neg ((sub_one_eq_zero_iff _).not.mpr hone), if_neg hone, recount]

theorem incRef_eq {h : StringMemory} (hdata : h.buffers a = some data) :
    h.incRef (some a) = some (recount h a data (data.mRefCount + 1)) := by
  rw [StringMemory.incRef, hdata, Option.map_some, recount]

theorem buffers_free_of_ne {h : StringMemory} {b : ℕ} (hne : b ≠ a) :
    (free h a).buffers b = h.buffers b := Function.update_of_ne hne ..

theorem buffers_recount_self (h : StringMemory) (a : ℕ) (data : StringData) (count : U32) :
    (recount h a data count).buffers a = some { data with mRefCount := count } :=
  Function.update_self ..

theorem buffers_recount_of_ne {h : StringMemory} {b : ℕ} (hne : b ≠ a) (count : U32) :
    (recount h a data count).buffers b = h.buffers b := Function.update_of_ne hne ..

theorem getString_recount {h : StringMemory} (hdata : h.buffers a = some data) (count : U32)
    (b : ℕ) : (recount h a data count).getString (some b) = h.getString (some b) := by
  by_cases hne : b = a
  · subst hne
    rw [StringMemory.getString, buffers_recount_self, StringMemory.getString, hdata]
    rfl
  · rw [StringMemory.getString, buffers_recount_of_ne hne, StringMemory.getString]

omit [DecidableEq π] in
/-- The addresses in use and the freed ones are as before. -/
theorem Sound.used_recount (h : s.Sound given) (hdata : s.memory.buffers a = some data)
    (count : U32) :
    (∀ b, ((recount s.memory a data count).buffers b).isSome → b < s.memory.next) ∧
      ∀ b, b ∈ s.memory.freed ↔
        b < s.memory.next ∧ (recount s.memory a data count).buffers b = none := by
  constructor
  · intro b hb
    by_cases hne : b = a
    · rw [hne]
      exact h.used a (by rw [hdata]; rfl)
    · rw [buffers_recount_of_ne hne] at hb
      exact h.used b hb
  · intro b
    rw [h.freed.2]
    by_cases hne : b = a
    · subst hne
      rw [buffers_recount_self, hdata]
      simp
    · rw [buffers_recount_of_ne hne]

/-- The only pointer to a buffer lets go of it. -/
theorem Sound.dropLast (h : s.Sound given) (hp : s.mString p = some (some a))
    (hdata : s.memory.buffers a = some data) (hone : data.mRefCount = 1) :
    (s.release p (free s.memory a)).Sound (Function.update given p none) := by
  obtain ⟨holders, -, hmem, hcard⟩ := h.counted a data hdata
  have hpmem : p ∈ holders := (hmem p).mpr hp
  have halone : ∀ q, q ≠ p → s.mString q ≠ some (some a) := by
    intro q hqp hq
    have hle : holders.card ≤ 1 := by
      rw [← hcard, hone]
      exact Nat.le_refl 1
    exact hqp (Finset.card_le_one.mp hle q ((hmem q).mpr hq) p hpmem)
  have hgone : (free s.memory a).buffers a = none := Function.update_self ..
  apply h.release
  case hothers =>
    intro q hqp b hq
    have hne : b ≠ a := by
      rintro rfl
      exact halone q hqp hq
    rw [StringMemory.getString, buffers_free_of_ne hne, StringMemory.getString]
  case hcounted =>
    intro b data' hdata'
    have hne : b ≠ a := by
      rintro rfl
      rw [hgone] at hdata'
      exact absurd hdata' (Option.some_ne_none data').symm
    rw [buffers_free_of_ne hne] at hdata'
    apply h.counted_release _ hdata'
    rw [hp]
    exact fun heq => hne (Option.some.inj (Option.some.inj heq)).symm
  case hused =>
    intro b hb
    have hne : b ≠ a := by
      rintro rfl
      rw [hgone] at hb
      exact absurd hb Bool.false_ne_true
    rw [buffers_free_of_ne hne] at hb
    exact h.used b hb
  case hfreed =>
    have hlt := h.used a (by rw [hdata]; rfl)
    have hnew : a ∉ s.memory.freed := by
      rw [h.freed.2, hdata]
      exact fun habs => absurd habs.2 (Option.some_ne_none data)
    constructor
    · exact List.nodup_append.mpr ⟨h.freed.1, List.nodup_cons.mpr ⟨List.not_mem_nil,
        List.nodup_nil⟩, by grind⟩
    · intro b
      change b ∈ s.memory.freed ++ [a] ↔ b < s.memory.next ∧ _
      rw [List.mem_append, List.mem_singleton, h.freed.2]
      by_cases hne : b = a
      · subst hne
        simp [hlt, hgone]
      · rw [buffers_free_of_ne hne]
        simp [hne]

/-- One of several pointers to a buffer lets go of it. -/
theorem Sound.dropShared (h : s.Sound given) (hp : s.mString p = some (some a))
    (hdata : s.memory.buffers a = some data) (hshared : data.mRefCount ≠ 1) :
    (s.release p (recount s.memory a data (data.mRefCount - 1))).Sound
        (Function.update given p none) ∧
      (data.mRefCount - 1).toNat + 1 = data.mRefCount.toNat := by
  obtain ⟨holders, hnonempty, hmem, hcard⟩ := h.counted a data hdata
  have hpmem : p ∈ holders := (hmem p).mpr hp
  have hpos : 0 < data.mRefCount.toNat := by
    rw [hcard]
    exact Finset.card_pos.mpr hnonempty
  have hless : (data.mRefCount - 1).toNat + 1 = data.mRefCount.toNat := by bv_omega
  refine ⟨?_, hless⟩
  have hcard' : (data.mRefCount - 1).toNat = (holders.erase p).card := by
    rw [Finset.card_erase_of_mem hpmem, ← hcard]
    omega
  apply h.release
  case hothers => exact fun q _ b _ => getString_recount hdata _ b
  case hcounted =>
    intro b data' hdata'
    by_cases hne : b = a
    · subst hne
      rw [buffers_recount_self] at hdata'
      obtain rfl := Option.some.inj hdata'
      refine ⟨holders.erase p, ?_, ?_, hcard'⟩
      · rw [← Finset.card_pos, ← hcard']
        have htwo : data.mRefCount.toNat ≠ 1 := fun heq => hshared (BitVec.eq_of_toNat_eq heq)
        omega
      · intro q
        rw [Finset.mem_erase, hmem]
        by_cases hqp : q = p
        · subst hqp
          simp [StringPtrs.release]
        · simp [StringPtrs.release, hqp]
    · rw [buffers_recount_of_ne hne] at hdata'
      apply h.counted_release _ hdata'
      rw [hp]
      exact fun heq => hne (Option.some.inj (Option.some.inj heq)).symm
  case hused => exact (h.used_recount hdata _).1
  case hfreed => exact ⟨h.freed.1, (h.used_recount hdata _).2⟩

/-- What is left of a buffer after a pointer let go of its own one. -/
def Remains (data : StringData) (mString : Option ℕ) (a : ℕ) (memory : StringMemory) : Prop :=
  ∃ count, memory.buffers a = some { data with mRefCount := count } ∧
    count.toNat + (if mString = some a then 1 else 0) = data.mRefCount.toNat

/-- A pointer lets go of its buffer. Only that buffer can be freed, by the only pointer to it. -/
theorem Sound.drop (h : s.Sound given) (hp : s.mString p = some mString) :
    ∃ memory, s.memory.decRef mString = some memory ∧
      (s.release p memory).Sound (Function.update given p none) ∧
      ∀ a data, s.memory.buffers a = some data → (mString = some a → data.mRefCount ≠ 1) →
        Remains data mString a memory := by
  cases mString with
  | none =>
    refine ⟨s.memory, rfl, ?_, ?_⟩
    · apply h.release (fun _ _ _ _ => rfl) _ h.used h.freed
      intro a data hdata
      exact h.counted_release (by rw [hp]; exact nofun) hdata _
    · intro a data hdata _
      exact ⟨data.mRefCount, hdata, rfl⟩
  | some b =>
    obtain ⟨string, -, hreads⟩ := h.reads p _ hp
    obtain ⟨held, hheld, -⟩ := Option.map_eq_some_iff.mp hreads
    rw [decRef_eq hheld]
    by_cases hone : held.mRefCount = 1
    · rw [if_pos hone]
      refine ⟨_, rfl, h.dropLast hp hheld hone, ?_⟩
      intro a data hdata hkept
      have hne : a ≠ b := by
        rintro rfl
        obtain rfl := Option.some.inj (hheld.symm.trans hdata)
        exact hkept rfl hone
      refine ⟨data.mRefCount, ?_, ?_⟩
      · rw [buffers_free_of_ne hne, hdata]
      · rw [if_neg (fun heq => hne (Option.some.inj heq).symm), Nat.add_zero]
    · obtain ⟨hsound, hless⟩ := h.dropShared hp hheld hone
      rw [if_neg hone]
      refine ⟨_, rfl, hsound, ?_⟩
      intro a data hdata _
      by_cases hne : a = b
      · subst hne
        obtain rfl := Option.some.inj (hheld.symm.trans hdata)
        refine ⟨held.mRefCount - 1, buffers_recount_self .., ?_⟩
        rw [if_pos rfl, hless]
      · refine ⟨data.mRefCount, ?_, ?_⟩
        · rw [buffers_recount_of_ne hne, hdata]
        · rw [if_neg (fun heq => hne (Option.some.inj heq).symm), Nat.add_zero]

/-- A pointer takes a buffer that others refer to. -/
theorem Sound.take (h : s.Sound given) (hp : s.mString p = none)
    (hdata : s.memory.buffers a = some data) (huncapped : data.mRefCount.toNat + 1 < 2 ^ 32) :
    (s.set p (recount s.memory a data (data.mRefCount + 1)) (some a)).Sound
      (Function.update given p (some data.mStringData)) := by
  obtain ⟨holders, hnonempty, hmem, hcard⟩ := h.counted a data hdata
  have hpmem : p ∉ holders := by
    rw [hmem, hp]
    exact nofun
  have hmore : (data.mRefCount + 1).toNat = data.mRefCount.toNat + 1 := by bv_omega
  apply h.set hp
  case hreads =>
    rw [StringMemory.getString, buffers_recount_self]
    rfl
  case hothers => exact fun q b _ => getString_recount hdata _ b
  case hcounted =>
    intro b data' hdata'
    by_cases hne : b = a
    · subst hne
      rw [buffers_recount_self] at hdata'
      obtain rfl := Option.some.inj hdata'
      refine ⟨insert p holders, Finset.insert_nonempty .., ?_, ?_⟩
      · intro q
        rw [Finset.mem_insert, hmem]
        by_cases hqp : q = p
        · subst hqp
          simp [StringPtrs.set]
        · simp [StringPtrs.set, hqp]
      · rw [Finset.card_insert_of_notMem hpmem, hmore, hcard]
    · rw [buffers_recount_of_ne hne] at hdata'
      obtain ⟨holders', hnonempty', hmem', hcard'⟩ := h.counted b data' hdata'
      refine ⟨holders', hnonempty', ?_, hcard'⟩
      intro q
      rw [hmem']
      by_cases hqp : q = p
      · subst hqp
        simp [StringPtrs.set, hp, Ne.symm hne]
      · simp [StringPtrs.set, hqp]
  case hused => exact (h.used_recount hdata _).1
  case hfreed => exact ⟨h.freed.1, (h.used_recount hdata _).2⟩

/-! ### Steps -/

theorem set_release (s : StringPtrs π) (p : π) (memory memory' : StringMemory)
    (mString : Option ℕ) :
    (s.release p memory).set p memory' mString = s.set p memory' mString := by
  simp [set, release]

theorem mString_release_self (s : StringPtrs π) (p : π) (memory : StringMemory) :
    (s.release p memory).mString p = none := Function.update_self ..

omit [DecidableEq π] in
theorem Sound.characters (h : s.Sound given) {pointer : CharPointer π}
    (hgiven : givenCharacters given pointer = some string) :
    s.characters s.memory pointer = some string := by
  cases pointer with
  | outside string' => exact hgiven
  | ofStringPtr q =>
    obtain ⟨mString, hq, hreads⟩ := h.lives hgiven
    rw [StringPtrs.characters, hq, Option.bind_some, hreads]

theorem Sound.copy (h : s.Sound given) (hp : s.mString p = none) (hq : given q = some string)
    (huncapped : ∀ mString ∈ s.mString q, s.Uncapped mString) :
    Succeeds (s.copy p q) fun s' => s'.Sound (Function.update given p (some string)) := by
  obtain ⟨mString, hmString, hreads⟩ := h.lives hq
  rw [StringPtrs.copy, hmString, Option.bind_some]
  cases mString with
  | none =>
    obtain rfl := Option.some.inj hreads
    exact ⟨_, if_pos rfl, h.takeNull hp⟩
  | some a =>
    obtain ⟨data, hdata, rfl⟩ := Option.map_eq_some_iff.mp hreads
    rw [if_neg (Option.some_ne_none a), incRef_eq hdata, Option.map_some]
    exact ⟨_, rfl, h.take hp hdata (huncapped (some a) hmString a rfl data hdata)⟩

omit [DecidableEq π] in
/-- Two pointers to one buffer are counted. -/
theorem Sound.count_ne_one (h : s.Sound given) (hpq : p ≠ q) (hp : s.mString p = some (some a))
    (hq : s.mString q = some (some a)) (hdata : s.memory.buffers a = some data) :
    data.mRefCount ≠ 1 := by
  intro hone
  obtain ⟨holders, -, hmem, hcard⟩ := h.counted a data hdata
  have hle : holders.card ≤ 1 := by
    rw [← hcard, hone]
    exact Nat.le_refl 1
  exact hpq (Finset.card_le_one.mp hle p ((hmem p).mpr hp) q ((hmem q).mpr hq))

theorem Sound.assign (h : s.Sound given) {old : List U8} (hp : given p = some old)
    (hq : given q = some string) (hharmless : s.Harmless (.assign p q)) :
    Succeeds (s.assign p q) fun s' => s'.Sound (Function.update given p (some string)) := by
  obtain ⟨mine, hmine, -⟩ := h.lives hp
  obtain ⟨theirs, htheirs, hreads⟩ := h.lives hq
  obtain ⟨hnotNull, hself, huncapped⟩ := hharmless
  cases theirs with
  | none => exact absurd rfl (hnotNull none htheirs)
  | some a =>
    obtain ⟨data, hdata, rfl⟩ := Option.map_eq_some_iff.mp hreads
    obtain ⟨memory, hdecRef, hreleased, hremains⟩ := h.drop hmine
    have hkept : mine = some a → data.mRefCount ≠ 1 := by
      rintro rfl
      by_cases hpq : p = q
      · exact hself hpq a hmine data hdata
      · exact h.count_ne_one hpq hmine htheirs hdata
    obtain ⟨count, hbuffer, hcount⟩ := hremains a data hdata hkept
    have hroom : count.toNat + 1 < 2 ^ 32 := by
      by_cases hsame : mine = some a
      · rw [if_pos hsame] at hcount
        rw [hcount]
        exact data.mRefCount.isLt
      · have hne : s.mString p ≠ s.mString q := by
          rw [hmine, htheirs]
          exact fun heq => hsame (Option.some.inj heq)
        rw [if_neg hsame, Nat.add_zero] at hcount
        rw [hcount]
        exact huncapped hne (some a) htheirs a rfl data hdata
    have htaken := hreleased.take (mString_release_self s p memory) hbuffer hroom
    rw [Function.update_idem, set_release] at htaken
    rw [StringPtrs.assign, hmine, Option.bind_some, hdecRef, Option.bind_some, htheirs,
      Option.bind_some, incRef_eq hbuffer, Option.map_some]
    exact ⟨_, rfl, htaken⟩

theorem Sound.assignString (h : s.Sound given) {old : List U8} {pointer : CharPointer π}
    (hp : given p = some old) (hgiven : givenCharacters given pointer = some string)
    (hharmless : s.Harmless (.assignString p pointer)) :
    Succeeds (s.assignString p pointer) fun s' =>
      s'.Sound (Function.update given p (some string)) := by
  obtain ⟨mine, hmine, -⟩ := h.lives hp
  obtain ⟨memory, hdecRef, hreleased, hremains⟩ := h.drop hmine
  have hcharacters : s.characters memory pointer = some string := by
    cases pointer with
    | outside string' => exact hgiven
    | ofStringPtr q =>
      obtain ⟨theirs, htheirs, hreads⟩ := h.lives hgiven
      rw [StringPtrs.characters, htheirs, Option.bind_some]
      cases theirs with
      | none => exact hreads
      | some a =>
        obtain ⟨data, hdata, rfl⟩ := Option.map_eq_some_iff.mp hreads
        have hkept : mine = some a → data.mRefCount ≠ 1 := by
          rintro rfl
          exact hharmless (hmine.trans htheirs.symm) a hmine data hdata
        obtain ⟨count, hbuffer, -⟩ := hremains a data hdata hkept
        rw [StringMemory.getString, hbuffer]
        rfl
  have hnew := hreleased.alloc (mString_release_self s p memory) string
  rw [Function.update_idem, set_release] at hnew
  rw [StringPtrs.assignString, hmine, Option.bind_some, hdecRef, Option.bind_some, hcharacters,
    Option.map_some]
  exact ⟨_, rfl, hnew⟩

theorem Sound.step {a : Action π} (h : s.Sound given) (hgive : give given a = some given')
    (hharmless : s.Harmless a) : Succeeds (s.step a) fun s' => s'.Sound given' := by
  cases a with
  | construct p =>
    rw [give] at hgive
    split_ifs at hgive with hp
    rw [Option.not_isSome_iff_eq_none] at hp
    obtain rfl := Option.some.inj hgive
    rw [StringPtrs.step, h.dead hp, Option.isSome_none, if_neg Bool.false_ne_true]
    exact ⟨_, rfl, h.takeNull (h.dead hp)⟩
  | constructString p pointer =>
    rw [give] at hgive
    split_ifs at hgive with hp
    rw [Option.not_isSome_iff_eq_none] at hp
    obtain ⟨string, hstring, rfl⟩ := Option.map_eq_some_iff.mp hgive
    rw [StringPtrs.step, h.dead hp, Option.isSome_none, if_neg Bool.false_ne_true,
      constructString, h.characters hstring, Option.map_some]
    exact ⟨_, rfl, h.alloc (h.dead hp) string⟩
  | copy p q =>
    rw [give] at hgive
    split_ifs at hgive with hp
    rw [Option.not_isSome_iff_eq_none] at hp
    obtain ⟨string, hq, rfl⟩ := Option.map_eq_some_iff.mp hgive
    rw [StringPtrs.step, h.dead hp, Option.isSome_none, if_neg Bool.false_ne_true]
    exact h.copy (h.dead hp) hq hharmless
  | assign p q =>
    obtain ⟨old, hp, hgive⟩ := Option.bind_eq_some_iff.mp hgive
    obtain ⟨string, hq, rfl⟩ := Option.map_eq_some_iff.mp hgive
    exact h.assign hp hq hharmless
  | assignString p pointer =>
    obtain ⟨old, hp, hgive⟩ := Option.bind_eq_some_iff.mp hgive
    obtain ⟨string, hstring, rfl⟩ := Option.map_eq_some_iff.mp hgive
    exact h.assignString hp hstring hharmless
  | destruct p =>
    obtain ⟨old, hp, rfl⟩ := Option.map_eq_some_iff.mp hgive
    obtain ⟨mine, hmine, -⟩ := h.lives hp
    obtain ⟨memory, hdecRef, hreleased, -⟩ := h.drop hmine
    rw [StringPtrs.step, destruct, hmine, Option.bind_some, hdecRef, Option.map_some]
    exact ⟨_, rfl, hreleased⟩

/-- String pointers are sound as long as no step reaches a defect. -/
theorem stringPtrs_sound {actions : List (Action π)}
    (hgive : exec give (fun _ => none) actions = some given)
    (hharmless : AllowedRun step Harmless (start : StringPtrs π) actions) :
    ∃ s, exec step start actions = some s ∧ s.Sound given :=
  hharmless.refines (fun _ _ _ _ h => h.step) sound_start hgive

/-- One pointer gets a string, and another one is made, assigned to and destructed. -/
def assignAndDestruct : List (Action Bool) :=
  [.constructString true (.outside [104, 105]), .construct false, .assign false true,
    .destruct true]

theorem stringPtrs_sound_assign :
    ∃ s, exec step start assignAndDestruct = some s ∧ s.Sound
      (Function.update (Function.update (Function.update (Function.update (fun _ => none)
        true (some [104, 105])) false (some [])) false (some [104, 105])) true none) := by
  apply stringPtrs_sound
  · rfl
  · refine ⟨trivial, fun s hs => ?_⟩
    obtain rfl := Option.some.inj hs
    refine ⟨trivial, fun s hs => ?_⟩
    obtain rfl := Option.some.inj hs
    refine ⟨⟨?_, nofun, ?_⟩, fun s hs => ⟨trivial, fun _ _ => trivial⟩⟩
    · intro mString hmString
      obtain rfl := Option.some.inj hmString
      exact nofun
    · intro _ mString hmString a ha data hdata
      obtain rfl := Option.some.inj hmString
      obtain rfl := Option.some.inj ha
      obtain rfl := Option.some.inj hdata
      decide

/-- The null pointer of an empty `StringPtr` is followed. -/
theorem assign_empty_fails :
    ¬∀ (actions : List (Action Bool)) (given : Bool → Option (List U8)),
      exec give (fun _ => none) actions = some given →
        ∃ s, exec step start actions = some s ∧ s.Sound given := by
  intro h
  obtain ⟨s, hs, -⟩ := h [.construct true, .construct false, .assign true false] _ rfl
  have hnone : exec step (start : StringPtrs Bool)
      [.construct true, .construct false, .assign true false] = none := rfl
  rw [hnone] at hs
  exact absurd hs nofun

/-- The only pointer to a buffer is assigned to itself, or the string in its buffer is. -/
theorem assign_self_fails :
    exec step (start : StringPtrs Bool)
        [.constructString true (.outside [104]), .assign true true] = none ∧
      exec step (start : StringPtrs Bool)
        [.constructString true (.outside [104]), .assignString true (.ofStringPtr true)] = none :=
  ⟨rfl, rfl⟩

end StringPtrs

end TNL
