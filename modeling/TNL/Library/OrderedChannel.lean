import Mathlib.Data.List.Basic

/-!
# Ordered messages over packets that may be lost

Messages are numbered as they are posted and written into packets, each as often
as it takes. Packets are processed in the order of their numbers, so one that is
overtaken has no effect when it arrives. The receiver processes the messages in
the order of their numbers, each one as soon as it has come and all earlier ones
have been processed.
-/
namespace TNL.Library

variable {μ κ : Type*}

structure Parcel (κ : Type*) where
  carried : List ℕ
  payload : κ
  /-- The number of messages that had been posted. -/
  posted : ℕ

structure Channel (μ κ : Type*) where
  posted : List μ
  packets : List (Parcel κ)
  expected : ℕ
  arrived : List ℕ
  processed : ℕ

namespace Channel

def empty : Channel μ κ := ⟨[], [], 0, [], 0⟩

def post (c : Channel μ κ) (message : μ) : Channel μ κ :=
  { c with posted := c.posted ++ [message] }

/-- Only messages that have been posted are written. -/
def write (c : Channel μ κ) (carried : List ℕ) (payload : κ) : Option (Channel μ κ) :=
  if ∀ n ∈ carried, n < c.posted.length then
    some { c with packets := c.packets ++ [⟨carried, payload, c.posted.length⟩] }
  else none

/-- The first number from `n` on that has not arrived. -/
def advance (arrived : List ℕ) : ℕ → ℕ → ℕ
  | 0, n => n
  | fuel + 1, n => if n ∈ arrived then advance arrived fuel (n + 1) else n

/-- Process a packet. There are no more numbers to go through than have arrived. -/
def accept (c : Channel μ κ) (index : ℕ) (p : Parcel κ) : Channel μ κ :=
  { c with
    expected := index + 1
    arrived := p.carried ++ c.arrived
    processed := advance (p.carried ++ c.arrived) (p.carried ++ c.arrived).length c.processed }

/-- The packet with this number, unless a later one has been processed. -/
def deliverable (c : Channel μ κ) (index : ℕ) : Option (Parcel κ) :=
  if index < c.expected then none else c.packets[index]?

/-- The messages that are processed with a packet. -/
def messages (c : Channel μ κ) (index : ℕ) (p : Parcel κ) : List μ :=
  (c.posted.take (c.accept index p).processed).drop c.processed

/-- What packets carry had been posted when they were written. Whatever has been processed had been
posted before any packet that is still to come was written. -/
structure Sound (c : Channel μ κ) : Prop where
  carried : ∀ p ∈ c.packets, ∀ n ∈ p.carried, n < p.posted
  posted_le : ∀ p ∈ c.packets, p.posted ≤ c.posted.length
  increasing : c.packets.Pairwise fun p q => p.posted ≤ q.posted
  arrived_lt : ∀ n ∈ c.arrived, n < c.posted.length
  arrived_before : ∀ n ∈ c.arrived, ∀ index p, c.expected ≤ index →
    c.packets[index]? = some p → n < p.posted
  processed : ∀ n < c.processed, n ∈ c.arrived

variable {c d : Channel μ κ} {index : ℕ} {p : Parcel κ}

theorem advance_spec (arrived : List ℕ) (fuel n : ℕ) : n ≤ advance arrived fuel n ∧
    ∀ k, n ≤ k → k < advance arrived fuel n → k ∈ arrived := by
  induction fuel generalizing n with
  | zero => exact ⟨Nat.le_refl _, fun k hle hlt => absurd hlt (Nat.not_lt.mpr hle)⟩
  | succ fuel ih =>
    rw [advance]
    by_cases hn : n ∈ arrived
    · rw [if_pos hn]
      rcases ih (n + 1) with ⟨hle, hmem⟩
      constructor
      · omega
      · intro k hk hlt
        rcases Nat.eq_or_lt_of_le hk with rfl | hk
        · exact hn
        · exact hmem k hk hlt
    · rw [if_neg hn]
      exact ⟨Nat.le_refl _, fun k hle hlt => absurd hlt (Nat.not_lt.mpr hle)⟩

theorem empty_sound : Sound (empty : Channel μ κ) := by
  constructor <;> simp [empty]

theorem processed_le (c : Channel μ κ) (index : ℕ) (p : Parcel κ) :
    c.processed ≤ (c.accept index p).processed :=
  (advance_spec ..).1

theorem deliverable_iff : c.deliverable index = some p ↔
    c.expected ≤ index ∧ c.packets[index]? = some p := by
  simp [deliverable]

/-- The messages processed with a packet, by their numbers. -/
theorem mem_messages {message : μ} : message ∈ c.messages index p ↔
    ∃ n, c.processed ≤ n ∧ n < (c.accept index p).processed ∧ c.posted[n]? = some message := by
  rw [messages, List.mem_iff_getElem?]
  constructor
  · rintro ⟨i, hi⟩
    rw [List.getElem?_drop] at hi
    rcases List.getElem?_eq_some_iff.mp hi with ⟨hlt, -⟩
    rw [List.length_take] at hlt
    refine ⟨c.processed + i, Nat.le_add_right .., by omega, ?_⟩
    rwa [List.getElem?_take_of_lt (by omega)] at hi
  · rintro ⟨n, hle, hlt, hget⟩
    refine ⟨n - c.processed, ?_⟩
    rw [List.getElem?_drop, Nat.add_sub_cancel' hle, List.getElem?_take_of_lt hlt, hget]

theorem getElem?_post {message : μ} {n : ℕ} : (c.post message).posted[n]? =
    if n = c.posted.length then some message else c.posted[n]? := by
  rw [post, List.getElem?_append]
  by_cases heq : n = c.posted.length
  · simp [heq]
  · rw [if_neg heq]
    split_ifs with hlt
    · rfl
    · rw [List.getElem?_eq_none (Nat.not_lt.mp hlt)]
      simp only [List.getElem?_eq_none_iff, List.length_singleton]
      omega

namespace Sound

theorem processed_le_length (h : c.Sound) : c.processed ≤ c.posted.length := by
  by_contra hlt
  have hlast := h.processed (c.processed - 1) (by omega)
  have := h.arrived_lt _ hlast
  omega

/-- A packet and those before it carry only what had been posted before it was written. -/
theorem accept_processed_le (h : c.Sound) (hp : c.deliverable index = some p) :
    (c.accept index p).processed ≤ p.posted := by
  rcases deliverable_iff.mp hp with ⟨hindex, hget⟩
  have hbefore : ∀ n < c.processed, n < p.posted := fun n hn =>
    h.arrived_before n (h.processed n hn) index p hindex hget
  by_contra hlt
  by_cases hold : (c.accept index p).processed - 1 < c.processed
  · have := hbefore _ hold
    omega
  · have hlast := (advance_spec (p.carried ++ c.arrived) (p.carried ++ c.arrived).length
      c.processed).2 ((c.accept index p).processed - 1) (by omega)
      (by change _ < (c.accept index p).processed; omega)
    rcases List.mem_append.mp hlast with hnew | hearlier
    · have := h.carried p (List.mem_of_getElem? hget) _ hnew
      omega
    · have := h.arrived_before _ hearlier index p hindex hget
      omega

theorem post (h : c.Sound) (message : μ) : (c.post message).Sound := by
  have hlength : (c.post message).posted.length = c.posted.length + 1 := by simp [Channel.post]
  constructor
  · exact h.carried
  · intro p hp
    have := h.posted_le p hp
    omega
  · exact h.increasing
  · intro n hn
    have := h.arrived_lt n hn
    omega
  · exact h.arrived_before
  · exact h.processed

theorem write (h : c.Sound) {carried : List ℕ} {payload : κ}
    (hwrite : c.write carried payload = some d) : d.Sound := by
  rw [Channel.write] at hwrite
  by_cases hcarried : ∀ n ∈ carried, n < c.posted.length
  · rw [if_pos hcarried, Option.some.injEq] at hwrite
    subst hwrite
    constructor
    · intro p hp
      rcases List.mem_append.mp hp with hold | hnew
      · exact h.carried p hold
      · rw [List.mem_singleton.mp hnew]
        exact hcarried
    · intro p hp
      rcases List.mem_append.mp hp with hold | hnew
      · exact h.posted_le p hold
      · obtain rfl := List.mem_singleton.mp hnew
        exact Nat.le_refl _
    · apply List.pairwise_append.mpr
      refine ⟨h.increasing, List.pairwise_singleton .., ?_⟩
      intro p hp q hq
      rw [List.mem_singleton.mp hq]
      exact h.posted_le p hp
    · exact h.arrived_lt
    · intro n hn index p hindex hp
      rcases List.mem_append.mp (List.mem_of_getElem? hp) with hold | hnew
      · rw [List.getElem?_append] at hp
        by_cases hlt : index < c.packets.length
        · rw [if_pos hlt] at hp
          exact h.arrived_before n hn index p hindex hp
        · rw [if_neg hlt] at hp
          rw [List.mem_singleton.mp (List.mem_of_getElem? hp)]
          exact h.arrived_lt n hn
      · rw [List.mem_singleton.mp hnew]
        exact h.arrived_lt n hn
    · exact h.processed
  · rw [if_neg hcarried] at hwrite
    cases hwrite

theorem accept (h : c.Sound) (hp : c.deliverable index = some p) : (c.accept index p).Sound := by
  rcases deliverable_iff.mp hp with ⟨hindex, hget⟩
  have hmem := List.mem_of_getElem? hget
  constructor
  · exact h.carried
  · exact h.posted_le
  · exact h.increasing
  · intro n hn
    rcases List.mem_append.mp hn with hnew | hold
    · exact Nat.lt_of_lt_of_le (h.carried p hmem n hnew) (h.posted_le p hmem)
    · exact h.arrived_lt n hold
  · intro n hn later q hlater hq
    change index + 1 ≤ later at hlater
    rcases List.mem_append.mp hn with hnew | hold
    · -- later packets were written later
      apply Nat.lt_of_lt_of_le (h.carried p hmem n hnew)
      rcases List.getElem?_eq_some_iff.mp hget with ⟨hi, rfl⟩
      rcases List.getElem?_eq_some_iff.mp hq with ⟨hj, rfl⟩
      exact List.pairwise_iff_getElem.mp h.increasing index later hi hj (by omega)
    · exact h.arrived_before n hold later q (by omega) hq
  · intro n hn
    by_cases hold : n < c.processed
    · exact List.mem_append_right _ (h.processed n hold)
    · exact (advance_spec ..).2 n (by omega) hn

end Sound

end Channel

end TNL.Library
