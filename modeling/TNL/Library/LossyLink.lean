import Mathlib.Data.List.Basic

/-!
# A link that loses packets

Packets arrive in the order in which they were sent or not at all, and the sender
is told in that order what became of each. A packet is outstanding until then.
-/
namespace TNL.Library

/-- A packet that was overtaken is as good as lost. -/
structure LossyLink (π : Type*) where
  inFlight : List π
  notices : List (π × Bool)

namespace LossyLink

variable {π : Type*} {l l' : LossyLink π} {p : π} {received : Bool}

def empty : LossyLink π := ⟨[], []⟩

def send (l : LossyLink π) (p : π) : LossyLink π := { l with inFlight := l.inFlight ++ [p] }

/-- The next packet comes to its end, received or lost. -/
def settle (l : LossyLink π) (received : Bool) : Option (π × LossyLink π) :=
  match l.inFlight with
  | [] => none
  | p :: inFlight => some (p, ⟨inFlight, l.notices ++ [(p, received)]⟩)

/-- The sender is told about the next packet. -/
def notify (l : LossyLink π) : Option ((π × Bool) × LossyLink π) :=
  match l.notices with
  | [] => none
  | notice :: notices => some (notice, { l with notices := notices })

/-- The outstanding packets in the order in which they were sent, with what became of them. -/
def outstanding (l : LossyLink π) : List (π × Option Bool) :=
  l.notices.map (fun notice => (notice.1, some notice.2)) ++ l.inFlight.map (fun p => (p, none))

theorem outstanding_send : (l.send p).outstanding = l.outstanding ++ [(p, none)] := by
  simp [outstanding, send]

theorem settle_head (h : l.settle received = some (p, l')) : l.inFlight.head? = some p := by
  cases hflight : l.inFlight with
  | nil => rw [settle, hflight] at h; cases h
  | cons q inFlight =>
    simp only [settle, hflight, Option.some.injEq, Prod.mk.injEq] at h
    rw [h.1, List.head?_cons]

/-- Nothing is known yet of the packets after one that has just settled. -/
theorem settle_spec (h : l.settle received = some (p, l')) :
    ∃ (before : List (π × Option Bool)) (after : List π),
      l.outstanding = before ++ (p, none) :: after.map (fun q => (q, none)) ∧
      l'.outstanding = before ++ (p, some received) :: after.map (fun q => (q, none)) := by
  cases hflight : l.inFlight with
  | nil => rw [settle, hflight] at h; cases h
  | cons q inFlight =>
    simp only [settle, hflight, Option.some.injEq, Prod.mk.injEq] at h
    obtain ⟨rfl, rfl⟩ := h
    exact ⟨l.notices.map (fun notice => (notice.1, some notice.2)), inFlight,
      by simp [outstanding, hflight], by simp [outstanding]⟩

theorem notify_spec (h : l.notify = some ((p, received), l')) :
    l.outstanding = (p, some received) :: l'.outstanding := by
  cases hnotices : l.notices with
  | nil => rw [notify, hnotices] at h; cases h
  | cons notice notices =>
    simp only [notify, hnotices, Option.some.injEq, Prod.mk.injEq] at h
    obtain ⟨rfl, rfl⟩ := h
    simp [outstanding, hnotices]

end LossyLink

end TNL.Library
