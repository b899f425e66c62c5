import TNL.Core.WorkCalls

/-!
# Response calls

The response calls are dispatched in a loop over the list, under the lock, and the list is cleared
at its end. A call of the loop from within a response call would begin at the front again.
-/
namespace TNL.ThreadQueue
open Library

variable {τ κ : Type} [DecidableEq τ]

namespace Frame

/-- How many of the response calls the loop has dispatched. -/
def position : Frame κ → ℕ
  | responseLoop i => i
  | responseBody i _ => i + 1
  | _ => 0

def responds : Frame κ → ℕ
  | responseLock | responseLoop _ | responseBody _ _ | responseUnlock => 1
  | _ => 0

section

variable {f g : Frame κ} {gs : List (Frame κ)}

theorem responds_afterLock (h : f.afterLock = some g) :
    g.position = f.position ∧ g.responds = f.responds := by
  cases f <;> cases h <;> exact ⟨rfl, rfl⟩

theorem responds_afterUnlock (h : f.afterUnlock = some gs) :
    weight position gs = f.position ∧ weight responds gs ≤ f.responds := by
  cases f <;> cases h <;> exact ⟨rfl, Nat.zero_le _⟩

theorem responds_return (h : return_ f = some g) :
    g.position = f.position ∧ g.responds = f.responds := by
  cases f <;> cases h <;> exact ⟨rfl, rfl⟩

theorem position_eq_zero (h : f.responds = 0) : f.position = 0 := by
  cases f <;> first | rfl | cases h

theorem position_of_locks (h : f.locks = 0) : f.position = 0 := by
  cases f <;> first | rfl | cases h

end

end Frame

/-- The response calls are not dispatched from within one of them. -/
def NotNested (s : Threads τ (Shared τ κ) (Frame κ)) (a : τ × Action κ) : Prop :=
  a.2 = .dispatchResponseCalls → ∀ i c, .responseBody i c ∉ s.stack a.1

/-- What is left of the list has not been dispatched. -/
structure Answering [Fintype τ] (s : Threads τ (Shared τ κ) (Frame κ)) : Prop where
  order : s.shared.responded.map Prod.snd =
    s.shared.answered.map Prod.snd ++ s.shared.mResponseCalls.drop (s.total Frame.position)
  position_le : s.total Frame.position ≤ s.shared.mResponseCalls.length
  one : ∀ t, weight Frame.responds (s.stack t) ≤ 1

section runs

variable {team : Team τ} {maximumCount : ℕ} {as : List (τ × Action κ)}
  {s : Threads τ (Shared τ κ) (Frame κ)} {t : τ}

theorem start_answering [Fintype τ] (team : Team τ) (maximumCount : ℕ) :
    Answering (κ := κ) (start team maximumCount) where
  order := List.drop_nil.symm
  position_le := by
    rw [Threads.total, Finset.sum_eq_zero]
    · exact Nat.zero_le _
    · intro t _
      dsimp only [start]
      split_ifs <;> rfl
  one t := by
    dsimp only [start]
    split_ifs <;> exact Nat.zero_le _

theorem weight_position {fs : List (Frame κ)} (h : weight Frame.responds fs = 0) :
    weight Frame.position fs = 0 := by
  apply weight_eq_zero
  intro g hg
  exact Frame.position_eq_zero (Nat.le_zero.mp (h ▸ le_weight hg))

/-- In the loop, the position of its frame is that of the queue. -/
theorem total_position [Fintype τ] (hlocks : s.Locks Shared.mLock Frame.locks)
    (hone : weight Frame.responds (s.stack t) ≤ 1) {i : ℕ} {fs : List (Frame κ)}
    (hstack : s.stack t = .responseLoop i :: fs) : s.total Frame.position = i := by
  rw [hstack, weight_cons, Frame.responds] at hone
  have hpos : 0 < weight Frame.locks (s.stack t) := by
    rw [hstack, weight_cons]
    exact Nat.lt_of_lt_of_le Nat.zero_lt_one (Nat.le_add_right _ _)
  rw [hlocks.total_eq hpos fun _ => Frame.position_of_locks, hstack, weight_cons,
    weight_position (by omega)]
  rfl

/-- Where no response call is dispatched, none of the frames belongs to the loop. -/
theorem responds_eq_zero {worker : Bool} {fs : List (Frame κ)} (hshaped : Shaped worker fs)
    (houtside : ∀ f ∈ fs.head?, f.outside = true)
    (hnone : ∀ i c, .responseBody i c ∉ fs) : weight Frame.responds fs = 0 := by
  apply weight_eq_zero
  intro g hg
  have hg' : g.outside = true := by
    cases fs with
    | nil => cases hg
    | cons f fs =>
      rcases List.mem_cons.mp hg with rfl | hrest
      · exact houtside _ rfl
      · exact hshaped.outside_of_mem hrest
  cases g with
  | responseBody i c => exact absurd hg (hnone i c)
  | program | threadStart | callBody => rfl
  | _ => cases hg'

theorem one_update {u : τ} {f : Frame κ} {fs gs : List (Frame κ)}
    (hone : ∀ t, weight Frame.responds (s.stack t) ≤ 1) (hstack : s.stack t = f :: fs)
    (hle : weight Frame.responds (gs ++ fs) ≤ 1) :
    weight Frame.responds (Function.update s.stack t (gs ++ fs) u) ≤ 1 := by
  by_cases hu : u = t
  · subst hu
    rwa [Function.update_self]
  · rw [Function.update_of_ne hu]
    exact hone u

section keeping

variable [Fintype τ] {d : Shared τ κ} {f : Frame κ} {fs gs : List (Frame κ)}

/-- The lists stay as they are, and so does the position. -/
theorem Answering.keep_lists (h : Answering s) (hstack : s.stack t = f :: fs)
    (hresponse : d.mResponseCalls = s.shared.mResponseCalls)
    (hresponded : d.responded = s.shared.responded) (hanswered : d.answered = s.shared.answered)
    (hposition : weight Frame.position gs = f.position)
    (hone : ∀ u, weight Frame.responds (Function.update s.stack t (gs ++ fs) u) ≤ 1) :
    Answering ⟨d, Function.update s.stack t (gs ++ fs)⟩ := by
  have htotal := Threads.total_update Frame.position d gs hstack
  rw [hposition] at htotal
  have heq := Nat.add_right_cancel htotal
  refine ⟨?_, ?_, hone⟩
  · rw [heq]
    dsimp only
    rw [hresponse, hresponded, hanswered]
    exact h.order
  · rw [heq]
    dsimp only
    rw [hresponse]
    exact h.position_le

theorem Answering.keep (h : Answering s) (hstack : s.stack t = f :: fs)
    (hresponse : d.mResponseCalls = s.shared.mResponseCalls)
    (hresponded : d.responded = s.shared.responded) (hanswered : d.answered = s.shared.answered)
    (hposition : weight Frame.position gs = f.position)
    (hresponds : weight Frame.responds gs ≤ f.responds) :
    Answering ⟨d, Function.update s.stack t (gs ++ fs)⟩ := by
  refine h.keep_lists hstack hresponse hresponded hanswered hposition fun u =>
    one_update h.one hstack ?_
  have hself := h.one t
  rw [hstack, weight_cons] at hself
  rw [weight_append]
  exact (Nat.add_le_add_right hresponds _).trans hself

end keeping

theorem step_answering [Fintype τ] {s' : Threads τ (Shared τ κ) (Frame κ)} {a : Action κ}
    (hlisted : Listed team s) (hlocks : s.Locks Shared.mLock Frame.locks)
    (hanswering : Answering s) (hnested : NotNested s (t, a))
    (h : Threads.step next s (t, a) = some s') : Answering s' := by
  obtain ⟨f, fs, d, gs, hstack, htook, rfl⟩ := step_took h
  have htotal := Threads.total_update Frame.position d gs hstack
  cases htook with
  | returned hreturn =>
    obtain ⟨hposition, hresponds⟩ := Frame.responds_return hreturn
    exact hanswering.keep hstack rfl rfl rfl hposition hresponds.le
  | locked hafter =>
    obtain ⟨hposition, hresponds⟩ := Frame.responds_afterLock hafter
    exact hanswering.keep hstack rfl rfl rfl hposition hresponds.le
  | unlocked hafter =>
    obtain ⟨hposition, hresponds⟩ := Frame.responds_afterUnlock hafter
    exact hanswering.keep hstack rfl rfl rfl hposition hresponds
  | methodCalled =>
    exact hanswering.keep hstack rfl rfl rfl (Nat.zero_add _) (Nat.zero_add _).le
  | responsesCalled hcalled houtside =>
    have hzero := responds_eq_zero (hlisted.shaped t)
      (fun g hg => by
        rw [hstack] at hg
        exact Option.some.inj hg ▸ houtside)
      (hnested hcalled)
    rw [hstack] at hzero
    refine hanswering.keep_lists hstack rfl rfl rfl (Nat.zero_add _) fun u =>
      one_update hanswering.one hstack ?_
    rw [List.cons_append, List.singleton_append, weight_cons, hzero]
    exact le_rfl
  | answered hget =>
    have hself := hanswering.one t
    have hposition := total_position hlocks hself hstack
    obtain ⟨hi, hc⟩ := List.getElem?_eq_some_iff.mp hget
    obtain ⟨horder, -, hone⟩ := hanswering
    rw [weight_cons, weight_nil, hposition] at htotal
    have hnext := Nat.add_right_cancel (htotal.trans (Nat.add_comm _ _))
    rw [hstack] at hself
    refine ⟨?_, ?_, fun u => one_update hone hstack hself⟩
    · rw [hnext]
      dsimp only
      rw [horder, hposition, ← List.cons_getElem_drop_succ (h := hi), hc, List.map_append,
        List.append_assoc]
      rfl
    · rw [hnext]
      exact hi
  | cleared hend =>
    have hself := hanswering.one t
    have hposition := total_position hlocks hself hstack
    obtain ⟨horder, -, hone⟩ := hanswering
    rw [weight_cons, weight_nil, hposition] at htotal
    have hnext := Nat.add_right_cancel (htotal.trans (Nat.add_comm _ _))
    rw [hstack] at hself
    refine ⟨?_, ?_, fun u => one_update hone hstack hself⟩
    · rw [hnext]
      dsimp only
      rw [horder, hposition, List.drop_eq_nil_of_le (List.getElem?_eq_none_iff.mp hend)]
      rfl
    · rw [hnext]
      exact Nat.zero_le _
  | responded c =>
    obtain ⟨horder, hle, hone⟩ := hanswering
    have hself := hone t
    rw [hstack] at hself
    have hnext := Nat.add_right_cancel htotal
    refine ⟨?_, ?_, fun u => one_update hone hstack hself⟩
    · rw [hnext]
      dsimp only
      rw [List.map_append, horder, List.drop_append_of_le_length hle, List.append_assoc]
      rfl
    · rw [hnext]
      dsimp only
      rw [List.length_append]
      exact hle.trans (Nat.le_add_right _ _)
  | signalled | storageSet | waited | foundNone | foundCall | dispatched | posted | incremented
  | incrementLost => exact hanswering.keep hstack rfl rfl rfl rfl (Nat.zero_le _)

theorem run_answering [Fintype τ] (h : Running NotNested team maximumCount as s) : Answering s :=
  Run.invariant_along
    (J := fun s => Listed team s ∧ s.Locks Shared.mLock Frame.locks)
    (fun _ _ _ hs _ hstep => ⟨step_listed hs.1 hstep, hs.2.step locksNext hstep⟩)
    (fun _ _ _ hs ha hnested hstep => step_answering hs.1 hs.2 ha hnested hstep) h
    ⟨start_listed team maximumCount, start_locks team maximumCount⟩
    (start_answering team maximumCount)

/-- The response calls are dispatched in the order in which the other threads posted them, and each
one once, as long as none of them dispatches the response calls itself. -/
theorem response_calls_once [Fintype τ] (h : Running NotNested team maximumCount as s) :
    s.shared.responded.map Prod.snd = s.shared.answered.map Prod.snd ++
        s.shared.mResponseCalls.drop (s.total Frame.position) ∧
      (∀ p ∈ s.shared.responded, p.1 ≠ team.main) ∧
      ((∀ t, ∀ f ∈ s.stack t, f.responds = 0) → s.shared.responded.map Prod.snd =
        s.shared.answered.map Prod.snd ++ s.shared.mResponseCalls) := by
  obtain ⟨horder, -, -⟩ := run_answering h
  refine ⟨horder, (run_listed h).responded_other, fun hnone => ?_⟩
  have hzero : s.total Frame.position = 0 := by
    apply Finset.sum_eq_zero
    intro t _
    apply weight_position
    apply weight_eq_zero
    intro f hf
    exact hnone t f hf
  rw [horder, hzero, List.drop_zero]

/-- The guard as a check. -/
def notNested (s : Threads τ (Shared τ κ) (Frame κ)) (a : τ × Action κ) : Bool :=
  match a.2 with
  | .dispatchResponseCalls => (s.stack a.1).all fun f => match f with
    | .responseBody _ _ => false
    | _ => true
  | _ => true

omit [DecidableEq τ] in
theorem notNested_of_check (s : Threads τ (Shared τ κ) (Frame κ)) (a : τ × Action κ)
    (h : notNested s a = true) : NotNested s a := by
  intro hcalled i c hmem
  rw [notNested, hcalled] at h
  exact Bool.false_ne_true (List.all_eq_true.mp h _ hmem)

theorem response_calls_once_exchange : ∃ s : Threads Bool (Shared Bool ℕ) (Frame ℕ),
    s.shared.answered = [(true, 8)] ∧
      s.shared.responded.map Prod.snd = s.shared.answered.map Prod.snd ++
        s.shared.mResponseCalls.drop (s.total Frame.position) ∧
      (∀ p ∈ s.shared.responded, p.1 ≠ pair.main) ∧
      ((∀ t, ∀ f ∈ s.stack t, f.responds = 0) → s.shared.responded.map Prod.snd =
        s.shared.answered.map Prod.snd ++ s.shared.mResponseCalls) := by
  have hrun : ∃ s, exec (Threads.step next) (start pair 1024) exchange = some s ∧
      s.shared.answered = [(true, 8)] := ⟨_, rfl, rfl⟩
  obtain ⟨s, hexec, hanswered⟩ := hrun
  exact ⟨s, hanswered, response_calls_once (Run.of_checked notNested_of_check rfl hexec)⟩

end runs

end TNL.ThreadQueue
