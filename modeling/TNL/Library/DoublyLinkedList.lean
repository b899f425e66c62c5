import Mathlib.Data.List.Nodup
import Mathlib.Logic.Function.Basic

/-!
# Doubly linked lists in memory

Nodes with two links and lists of them reached from a head pointer. The links are
functions of the address, so that a memory of any kind of nodes gives them. What
an operation must write is said pointwise.
-/
namespace TNL.Library

/-- Change what is allocated at an address. -/
def modify {β : Type*} (m : ℕ → Option β) (p : ℕ) (f : β → β) : ℕ → Option β :=
  Function.update m p ((m p).map f)

section modify

variable {β : Type*} (m : ℕ → Option β) {p q : ℕ} (f : β → β)

@[simp] theorem modify_self : modify m p f p = (m p).map f := Function.update_self ..

variable {m f}

theorem modify_of_ne (h : q ≠ p) : modify m p f q = m q := Function.update_of_ne h ..

theorem modify_apply : modify m p f q = if q = p then (m q).map f else m q := by
  by_cases h : q = p
  · rw [if_pos h, h, modify_self]
  · rw [if_neg h, modify_of_ne h]

/-- What a change leaves as it was is read as before. -/
theorem map_modify {γ : Type*} {g : β → γ} (h : ∀ b, g (f b) = g b) :
    (modify m p f q).map g = (m q).map g := by
  rw [modify_apply]
  split_ifs
  · rw [Option.map_map]
    exact congrArg (Option.map · (m q)) (funext h)
  · rfl

theorem bind_modify {γ : Type*} {g : β → Option γ} (h : ∀ b, g (f b) = g b) :
    (modify m p f q).bind g = (m q).bind g := by
  rw [modify_apply]
  split_ifs
  · rw [Option.bind_map]
    exact congrArg (Option.bind (m q)) (funext h)
  · rfl

theorem any_modify {g : β → Bool} (h : ∀ b, g (f b) = g b) :
    (modify m p f q).any g = (m q).any g := by
  rw [modify_apply]
  split_ifs
  · rw [Option.any_map]
    exact congrArg (Option.any · (m q)) (funext h)
  · rfl

theorem isSome_modify : (modify m p f q).isSome = (m q).isSome := by
  rw [modify_apply]
  split_ifs
  · exact Option.isSome_map
  · rfl

theorem modify_modify (g : β → β) : modify (modify m p f) p g = modify m p (g ∘ f) := by
  rw [modify, modify_self, Option.map_map, modify, Function.update_idem, modify]

theorem update_modify (b : Option β) :
    Function.update (modify m p f) p b = Function.update m p b := by
  rw [modify, Function.update_idem]

theorem modify_update (b : Option β) :
    modify (Function.update m p b) p f = Function.update m p (b.map f) := by
  rw [modify, Function.update_self, Function.update_idem]

end modify

/-- The nodes from `head` on, where the first of them points back to `before`. -/
def DoublyLinked (prev next : ℕ → Option ℕ) : Option ℕ → Option ℕ → List ℕ → Prop
  | _, head, [] => head = none
  | before, head, x :: l => head = some x ∧ prev x = before ∧
      DoublyLinked prev next (some x) (next x) l

namespace DoublyLinked

variable {prev next prev' next' : ℕ → Option ℕ} {before head head' : Option ℕ} {l : List ℕ}
  {x : ℕ}

/-- The list depends only on the links of its nodes. -/
theorem congr (h : DoublyLinked prev next before head l) (hprev : ∀ y ∈ l, prev' y = prev y)
    (hnext : ∀ y ∈ l, next' y = next y) : DoublyLinked prev' next' before head l := by
  induction l generalizing before head with
  | nil => exact h
  | cons y l ih =>
    obtain ⟨hhead, hbefore, hrest⟩ := h
    refine ⟨hhead, (hprev y List.mem_cons_self).trans hbefore, ?_⟩
    rw [hnext y List.mem_cons_self]
    exact ih hrest (fun z hz => hprev z (List.mem_cons_of_mem _ hz))
      (fun z hz => hnext z (List.mem_cons_of_mem _ hz))

theorem head_mem (h : DoublyLinked prev next before (some x) l) : x ∈ l := by
  cases l with
  | nil => cases h
  | cons y l =>
    cases h.1
    exact List.mem_cons_self

theorem next_mem (h : DoublyLinked prev next before head l) {y : ℕ} (hx : x ∈ l)
    (hy : next x = some y) : y ∈ l := by
  induction l generalizing before head with
  | nil => exact absurd hx List.not_mem_nil
  | cons z l ih =>
    obtain ⟨-, -, hrest⟩ := h
    cases List.mem_cons.mp hx with
    | inl hx =>
      rw [← hx, hy] at hrest
      exact List.mem_cons_of_mem _ hrest.head_mem
    | inr hx => exact List.mem_cons_of_mem _ (ih hrest hx)

theorem prev_mem (h : DoublyLinked prev next before head l) (hx : x ∈ l) :
    prev x = before ∨ ∃ y ∈ l, prev x = some y := by
  induction l generalizing before head with
  | nil => exact absurd hx List.not_mem_nil
  | cons z l ih =>
    obtain ⟨-, hbefore, hrest⟩ := h
    cases List.mem_cons.mp hx with
    | inl hx => exact .inl (hx ▸ hbefore)
    | inr hx =>
      cases ih hrest hx with
      | inl hprev => exact .inr ⟨z, List.mem_cons_self, hprev⟩
      | inr hprev =>
        obtain ⟨y, hy, hprev⟩ := hprev
        exact .inr ⟨y, List.mem_cons_of_mem _ hy, hprev⟩

/-- Link a node in at the front. -/
theorem push (h : DoublyLinked prev next none head l) (hx : x ∉ l)
    (hprevx : prev' x = none) (hnextx : next' x = head)
    (hprev : ∀ y ∈ l, prev' y = if head = some y then some x else prev y)
    (hnext : ∀ y ∈ l, next' y = next y) (hnodup : l.Nodup) :
    DoublyLinked prev' next' none (some x) (x :: l) := by
  refine ⟨rfl, hprevx, ?_⟩
  rw [hnextx]
  cases l with
  | nil => exact h
  | cons y l =>
    obtain ⟨hhead, hbefore, hrest⟩ := h
    obtain ⟨hy, hnodup⟩ := List.nodup_cons.mp hnodup
    refine ⟨hhead, ?_, ?_⟩
    · rw [hprev y List.mem_cons_self, if_pos hhead]
    · rw [hnext y List.mem_cons_self]
      refine hrest.congr (fun z hz => ?_) (fun z hz => hnext z (List.mem_cons_of_mem _ hz))
      rw [hprev z (List.mem_cons_of_mem _ hz), if_neg]
      rw [hhead]
      exact fun heq => hy (Option.some.inj heq ▸ hz)

/-- Unlink a node: its neighbours point to each other. -/
theorem unlink (h : DoublyLinked prev next before head l) (hnodup : l.Nodup) (hx : x ∈ l)
    (hbefore : ∀ y, before = some y → y ∉ l)
    (hhead : head' = if prev x = before then next x else head)
    (hprev : ∀ y ∈ l, y ≠ x → prev' y = if next x = some y then prev x else prev y)
    (hnext : ∀ y ∈ l, y ≠ x → next' y = if prev x = some y then next x else next y) :
    DoublyLinked prev' next' before head' (l.erase x) := by
  induction l generalizing before head head' with
  | nil => exact absurd hx List.not_mem_nil
  | cons y l ih =>
    obtain ⟨hfirst, hback, hrest⟩ := h
    obtain ⟨hy, hnodup⟩ := List.nodup_cons.mp hnodup
    by_cases hxy : y = x
    · subst hxy
      rw [List.erase_cons_head, hhead, if_pos hback]
      have hprevl : ∀ z ∈ l, prev' z = if next y = some z then before else prev z := by
        intro z hz
        rw [hprev z (List.mem_cons_of_mem _ hz) (ne_of_mem_of_not_mem hz hy), hback]
      have hnextl : ∀ z ∈ l, next' z = next z := by
        intro z hz
        rw [hnext z (List.mem_cons_of_mem _ hz) (ne_of_mem_of_not_mem hz hy), hback, if_neg]
        exact fun heq => hbefore z heq (List.mem_cons_of_mem _ hz)
      cases l with
      | nil => exact hrest
      | cons z l =>
        obtain ⟨hz, -, hrest⟩ := hrest
        refine ⟨hz, ?_, ?_⟩
        · rw [hprevl z List.mem_cons_self, if_pos hz]
        · rw [hnextl z List.mem_cons_self]
          refine hrest.congr (fun w hw => ?_) (fun w hw => hnextl w (List.mem_cons_of_mem _ hw))
          rw [hprevl w (List.mem_cons_of_mem _ hw), if_neg]
          rw [hz]
          exact fun heq => (List.nodup_cons.mp hnodup).1 (Option.some.inj heq ▸ hw)
    · have hxl : x ∈ l := (List.mem_cons.mp hx).resolve_left (Ne.symm hxy)
      rw [List.erase_cons_tail (by simpa using hxy)]
      have hprevx : prev x ≠ before := by
        intro heq
        cases hrest.prev_mem hxl with
        | inl hprevx => exact hbefore y (heq.symm.trans hprevx) List.mem_cons_self
        | inr hprevx =>
          obtain ⟨z, hz, hprevx⟩ := hprevx
          exact hbefore z (heq.symm.trans hprevx) (List.mem_cons_of_mem _ hz)
      refine ⟨?_, ?_, ?_⟩
      · rw [hhead, if_neg hprevx, hfirst]
      · rw [hprev y List.mem_cons_self hxy, if_neg, hback]
        exact fun heq => hy (hrest.next_mem hxl heq)
      · refine ih hrest hnodup hxl (fun z hz => ?_) (hnext y List.mem_cons_self hxy)
          (fun z hz => hprev z (List.mem_cons_of_mem _ hz))
          (fun z hz => hnext z (List.mem_cons_of_mem _ hz))
        exact fun hmem => hy (Option.some.inj hz ▸ hmem)

end DoublyLinked

end TNL.Library
