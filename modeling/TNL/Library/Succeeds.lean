import Mathlib.Tactic.Common

/-!
# Computations that succeed

A partial computation succeeds with a property of its result. Rules for the ways
of composing such computations, so that a proof follows the program.
-/
namespace TNL.Library

variable {α β σ : Type*} {x : Option α} {f : α → Option β} {Q Q' : α → Prop} {R : β → Prop}

abbrev Succeeds (x : Option α) (Q : α → Prop) : Prop := ∃ a, x = some a ∧ Q a

namespace Succeeds

theorem pure {a : α} (h : Q a) : Succeeds (some a) Q := ⟨a, rfl, h⟩

theorem mono (h : Succeeds x Q) (hweak : ∀ a, Q a → Q' a) : Succeeds x Q' := by
  obtain ⟨a, rfl, ha⟩ := h
  exact ⟨a, rfl, hweak a ha⟩

theorem bind (h : Succeeds x Q) (hf : ∀ a, Q a → Succeeds (f a) R) : Succeeds (x.bind f) R := by
  obtain ⟨a, rfl, ha⟩ := h
  exact hf a ha

theorem map {g : α → β} (h : Succeeds x fun a => R (g a)) : Succeeds (x.map g) R := by
  obtain ⟨a, rfl, ha⟩ := h
  exact ⟨g a, rfl, ha⟩

/-- A loop keeps what each of its steps keeps. -/
theorem foldlM {step : σ → α → Option σ} {I : σ → Prop} {as : List α} {s : σ} (hs : I s)
    (hstep : ∀ s, I s → ∀ a ∈ as, Succeeds (step s a) I) : Succeeds (as.foldlM step s) I := by
  induction as generalizing s with
  | nil => exact pure hs
  | cons a as ih =>
    rw [List.foldlM_cons]
    exact (hstep s hs a List.mem_cons_self).bind fun s hs =>
      ih hs fun s hs b hb => hstep s hs b (List.mem_cons_of_mem a hb)

theorem isSome (h : Succeeds x Q) : x.isSome := by
  obtain ⟨a, rfl, _⟩ := h
  rfl

end Succeeds

end TNL.Library
