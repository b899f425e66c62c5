import TNL.Core.ThreadQueue

/-!
# Calls to worker threads

A call has one token from the time it is put on the list until a worker takes it. The token is with
the thread that posts the call, in the semaphore, or with a worker that is on its way to the list.
The lock excludes the threads from each other, and a thread that holds it can always proceed.
-/
namespace TNL.ThreadQueue
open Library

variable {τ κ : Type} [DecidableEq τ]

namespace Frame

/-- Frames at the bottom of a stack: of a worker, or of another thread. -/
def home : Frame κ → Option Bool
  | program => some false
  | threadStart | storageLock | storageSet | storageUnlock | wait | callLock | callFirst
  | callUnlockEmpty | callUnlock _ | callDispatch _ | callBody _ => some true
  | _ => none

/-- A call that is put on the list has a token from then on until it is taken. The semaphore
counts the tokens that no frame has. -/
def token : Frame κ → ℕ
  | postUnlockMain | postIncrement | callLock | callFirst => 1
  | _ => 0

/-- The call that the frame has taken and not dispatched. -/
def inHand : Frame κ → List κ
  | callUnlock c | callDispatch c => [c]
  | _ => []

section

variable {f g : Frame κ} {gs : List (Frame κ)}

theorem token_afterLock (h : f.afterLock = some g) : g.token = f.token := by
  cases f <;> cases h <;> rfl

theorem token_afterUnlock (h : f.afterUnlock = some gs) :
    weight token gs = f.token := by
  cases f <;> cases h <;> rfl

theorem token_return (h : return_ f = some g) : g.token = f.token := by
  cases f <;> cases h <;> rfl

theorem inHand_afterUnlock (h : f.afterUnlock = some gs) : gs.flatMap inHand = f.inHand := by
  cases f <;> cases h <;> rfl

theorem inHand_afterLock (h : f.afterLock = some g) : g.inHand = f.inHand := by
  cases f <;> cases h <;> rfl

theorem inHand_return (h : return_ f = some g) : g.inHand = f.inHand := by
  cases f <;> cases h <;> rfl

end

end Frame

/-- The first frame is above frames of code outside the queue, and the last one is where the
thread began. -/
def Shaped (worker : Bool) : List (Frame κ) → Prop
  | [] => False
  | [f] => f.home = some worker
  | f :: g :: fs => f.home = none ∧ g.outside = true ∧ Shaped worker (g :: fs)

namespace Shaped

variable {worker : Bool} {f g : Frame κ} {fs gs : List (Frame κ)}

/-- A frame of the worker's own loop is the only one. -/
theorem eq_nil (h : Shaped worker (f :: fs)) {b : Bool} (hhome : f.home = some b) :
    fs = [] ∧ worker = b := by
  cases fs with
  | nil => exact ⟨rfl, Option.some.inj (h.symm.trans hhome)⟩
  | cons g fs => cases h.1.symm.trans hhome

theorem replace (h : Shaped worker (f :: fs)) (hhome : g.home = f.home) :
    Shaped worker (g :: fs) := by
  cases fs with
  | nil => exact hhome.trans h
  | cons g' fs => exact ⟨hhome.trans h.1, h.2⟩

theorem pop (h : Shaped worker (f :: fs)) (hhome : f.home = none) : Shaped worker fs := by
  cases fs with
  | nil => cases hhome.symm.trans h
  | cons g' fs => exact h.2.2

theorem outside_of_mem (h : Shaped worker (f :: fs)) (hg : g ∈ fs) : g.outside = true := by
  induction fs generalizing f with
  | nil => cases hg
  | cons g' fs ih =>
    cases hg with
    | head => exact h.2.1
    | tail _ hmem => exact ih h.2.2 hmem

theorem step {τ : Type} [DecidableEq τ] {t : τ} {d d' : Shared τ κ} {a : Action κ}
    (h : Took t d a f d' gs)
    (hshaped : Shaped worker (f :: fs)) : Shaped worker (gs ++ fs) := by
  cases h with
  | methodCalled c houtside | responsesCalled _ houtside => exact ⟨rfl, houtside, hshaped⟩
  | returned hreturn => exact hshaped.replace (by cases f <;> cases hreturn <;> rfl)
  | locked hafter => exact hshaped.replace (by cases f <;> cases hafter <;> rfl)
  | unlocked hafter =>
    cases f with
    | storageUnlock | callUnlockEmpty | callUnlock | postUnlockMain =>
      cases hafter
      exact hshaped.replace rfl
    | postUnlock | responseUnlock =>
      cases hafter
      exact hshaped.pop rfl
    | _ => cases hafter
  | incremented | incrementLost => exact hshaped.pop rfl
  | signalled | storageSet | waited | foundNone | foundCall | dispatched | posted | responded
  | answered | cleared => exact hshaped.replace rfl

end Shaped

/-- The calls of one thread. -/
def ofThread (t : τ) (calls : List (τ × κ)) : List κ :=
  (calls.filter (fun p => p.1 = t)).map Prod.snd

theorem ofThread_snoc (t : τ) (calls : List (τ × κ)) (p : τ × κ) :
    ofThread t (calls ++ [p]) = ofThread t calls ++ if p.1 = t then [p.2] else [] := by
  rw [ofThread, List.filter_append, List.map_append, ofThread]
  split_ifs with h <;> simp [h]

def inHand (fs : List (Frame κ)) : List κ := fs.flatMap Frame.inHand

theorem inHand_append (fs gs : List (Frame κ)) : inHand (fs ++ gs) = inHand fs ++ inHand gs :=
  List.flatMap_append

theorem inHand_cons (f : Frame κ) (fs : List (Frame κ)) :
    inHand (f :: fs) = f.inHand ++ inHand fs := List.flatMap_cons

theorem inHand_singleton (f : Frame κ) : inHand [f] = f.inHand := List.append_nil _

/-- Who posts, takes and dispatches which calls. -/
structure Listed (team : Team τ) (s : Threads τ (Shared τ κ) (Frame κ)) : Prop where
  shaped : ∀ t, Shaped (team.worker t) (s.stack t)
  storage : ∀ t, s.shared.mStorage t = decide (t = team.main)
  order : s.shared.posted.map Prod.snd = s.shared.taken.map Prod.snd ++ s.shared.mThreadCalls
  posted_main : ∀ p ∈ s.shared.posted, p.1 = team.main
  taken_worker : ∀ p ∈ s.shared.taken, team.worker p.1 = true
  responded_other : ∀ p ∈ s.shared.responded, p.1 ≠ team.main
  own : ∀ t, ofThread t s.shared.taken = ofThread t s.shared.dispatched ++ inHand (s.stack t)

/-- Each call on the list has a token, unless the increment for it has failed. -/
structure Balanced [Fintype τ] (s : Threads τ (Shared τ κ) (Frame κ)) : Prop where
  tokens : s.shared.mSemaphore.count + s.total Frame.token + s.shared.lost + s.shared.unneeded =
    s.shared.mThreadCalls.length + s.shared.interrupted
  unneeded_le : s.shared.unneeded ≤ s.shared.interrupted

section invariants

variable {team : Team τ} {maximumCount : ℕ} {s s' : Threads τ (Shared τ κ) (Frame κ)} {t : τ}
  {a : Action κ}

theorem start_listed (team : Team τ) (maximumCount : ℕ) :
    Listed (κ := κ) team (start team maximumCount) where
  shaped t := by
    dsimp only [start]
    split_ifs with h
    · exact h.symm ▸ rfl
    · exact (Bool.eq_false_of_not_eq_true h).symm ▸ rfl
  storage t := by
    by_cases h : t = team.main
    · subst h
      simp [start]
    · simp [start, h]
  order := rfl
  posted_main := fun _ h => absurd h List.not_mem_nil
  taken_worker := fun _ h => absurd h List.not_mem_nil
  responded_other := fun _ h => absurd h List.not_mem_nil
  own t := by
    dsimp only [start]
    split_ifs <;> rfl

theorem ofThread_of_ne {d d' : Shared τ κ} {f : Frame κ} {gs : List (Frame κ)} {u : τ}
    (h : Took t d a f d' gs) (hu : u ≠ t) :
    ofThread u d'.taken = ofThread u d.taken ∧
      ofThread u d'.dispatched = ofThread u d.dispatched := by
  cases h with
  | foundCall =>
    dsimp only
    rw [ofThread_snoc, if_neg hu.symm, List.append_nil]
    exact ⟨rfl, rfl⟩
  | dispatched =>
    dsimp only
    rw [ofThread_snoc, if_neg hu.symm, List.append_nil]
    exact ⟨rfl, rfl⟩
  | _ => exact ⟨rfl, rfl⟩

/-- The thread that takes the step has taken what it has dispatched and what it has in hand. -/
theorem ofThread_self {d d' : Shared τ κ} {f : Frame κ} {fs gs : List (Frame κ)} {worker : Bool}
    (h : Took t d a f d' gs) (hshaped : Shaped worker (f :: fs))
    (hown : ofThread t d.taken = ofThread t d.dispatched ++ inHand (f :: fs)) :
    ofThread t d'.taken = ofThread t d'.dispatched ++ inHand (gs ++ fs) := by
  rw [inHand_cons] at hown
  rw [inHand_append]
  cases h with
  | returned hreturn =>
    rw [inHand_singleton, Frame.inHand_return hreturn]
    exact hown
  | locked hafter =>
    rw [inHand_singleton, Frame.inHand_afterLock hafter]
    exact hown
  | unlocked hafter =>
    rw [inHand, Frame.inHand_afterUnlock hafter]
    exact hown
  | methodCalled | responsesCalled =>
    rw [inHand_cons, inHand_singleton]
    exact hown
  | foundCall =>
    obtain ⟨rfl, -⟩ := hshaped.eq_nil rfl
    dsimp only
    rw [ofThread_snoc, if_pos rfl, hown, List.append_assoc]
    rfl
  | dispatched =>
    obtain ⟨rfl, -⟩ := hshaped.eq_nil rfl
    dsimp only
    rw [ofThread_snoc, if_pos rfl, hown, List.append_assoc]
    rfl
  | signalled | storageSet | waited | foundNone | posted | responded | incremented
  | incrementLost | answered | cleared =>
    exact hown

theorem step_listed (hlisted : Listed team s) (h : Threads.step next s (t, a) = some s') :
    Listed team s' := by
  obtain ⟨f, fs, d, gs, hstack, htook, rfl⟩ := step_took h
  have hshaped := hlisted.shaped t
  have hown := hlisted.own t
  rw [hstack] at hshaped hown
  have hshaped' : ∀ u, Shaped (team.worker u) (Function.update s.stack t (gs ++ fs) u) := by
    intro u
    by_cases hu : u = t
    · subst hu
      rw [Function.update_self]
      exact hshaped.step htook
    · rw [Function.update_of_ne hu]
      exact hlisted.shaped u
  have hown' : ∀ u, ofThread u d.taken = ofThread u d.dispatched ++
      inHand (Function.update s.stack t (gs ++ fs) u) := by
    intro u
    by_cases hu : u = t
    · subst hu
      rw [Function.update_self]
      exact ofThread_self htook hshaped hown
    · rw [Function.update_of_ne hu, (ofThread_of_ne htook hu).1, (ofThread_of_ne htook hu).2]
      exact hlisted.own u
  obtain ⟨-, hstorage, horder, hposted, htaken, hresponded, -⟩ := hlisted
  cases htook with
  | storageSet =>
    refine ⟨hshaped', fun u => ?_, horder, hposted, htaken, hresponded, hown'⟩
    dsimp only
    by_cases hu : u = t
    · subst hu
      have hne : u ≠ team.main := by
        rintro rfl
        exact Bool.false_ne_true (team.main_not_worker.symm.trans (hshaped.eq_nil rfl).2)
      rw [Function.update_self, decide_eq_false hne]
    · rw [Function.update_of_ne hu]
      exact hstorage u
  | foundCall hcons =>
    refine ⟨hshaped', hstorage, ?_, hposted, ?_, hresponded, hown'⟩
    · dsimp only
      rw [horder, hcons, List.map_append, List.append_assoc]
      rfl
    · intro p hp
      rcases List.mem_append.mp hp with hold | hnew
      · exact htaken p hold
      · obtain rfl := List.mem_singleton.mp hnew
        exact (hshaped.eq_nil rfl).2
  | posted c hmain =>
    refine ⟨hshaped', hstorage, ?_, ?_, htaken, hresponded, hown'⟩
    · dsimp only
      rw [List.map_append, horder, List.append_assoc]
      rfl
    · intro p hp
      rcases List.mem_append.mp hp with hold | hnew
      · exact hposted p hold
      · obtain rfl := List.mem_singleton.mp hnew
        exact of_decide_eq_true ((hstorage t).symm.trans hmain)
  | responded c hmain =>
    refine ⟨hshaped', hstorage, horder, hposted, htaken, ?_, hown'⟩
    intro p hp
    rcases List.mem_append.mp hp with hold | hnew
    · exact hresponded p hold
    · obtain rfl := List.mem_singleton.mp hnew
      exact of_decide_eq_false ((hstorage t).symm.trans hmain)
  | _ => exact ⟨hshaped', hstorage, horder, hposted, htaken, hresponded, hown'⟩

theorem step_balanced [Fintype τ] (hbalanced : Balanced s)
    (h : Threads.step next s (t, a) = some s') : Balanced s' := by
  obtain ⟨f, fs, d, gs, hstack, htook, rfl⟩ := step_took h
  obtain ⟨htokens, hle⟩ := hbalanced
  have htotal := Threads.total_update Frame.token d gs hstack
  cases htook with
  | methodCalled | responsesCalled =>
    refine ⟨?_, hle⟩
    simp only [weight_cons, weight_nil, Frame.token] at htotal
    dsimp only
    omega
  | returned hreturn =>
    refine ⟨?_, hle⟩
    rw [weight_cons, Frame.token_return hreturn, weight_nil] at htotal
    dsimp only
    omega
  | locked hafter =>
    refine ⟨?_, hle⟩
    rw [weight_cons, Frame.token_afterLock hafter, weight_nil] at htotal
    dsimp only
    omega
  | unlocked hafter =>
    refine ⟨?_, hle⟩
    rw [Frame.token_afterUnlock hafter] at htotal
    dsimp only
    omega
  | foundNone hnone =>
    simp only [weight_cons, weight_nil, Frame.token] at htotal
    have hlength := congrArg List.length hnone
    rw [List.length_nil] at hlength
    constructor <;> dsimp only <;> omega
  | foundCall hcons =>
    simp only [weight_cons, weight_nil, Frame.token] at htotal
    have hlength := congrArg List.length hcons
    rw [List.length_cons] at hlength
    constructor <;> dsimp only <;> omega
  | posted =>
    simp only [weight_cons, weight_nil, Frame.token] at htotal
    constructor <;> dsimp only
    · rw [List.length_append, List.length_singleton]
      omega
    · exact hle
  | signalled | storageSet | waited | dispatched | responded | incremented | incrementLost
  | answered | cleared =>
    simp only [weight_cons, weight_nil, Frame.token] at htotal
    constructor <;> dsimp only <;> omega

theorem start_balanced [Fintype τ] (team : Team τ) (maximumCount : ℕ) :
    Balanced (κ := κ) (start team maximumCount) where
  tokens := by
    have hzero : (start (κ := κ) team maximumCount).total Frame.token = 0 := by
      apply Finset.sum_eq_zero
      intro t _
      dsimp only [start]
      split_ifs <;> rfl
    rw [hzero]
    rfl
  unneeded_le := le_rfl

theorem start_locks (team : Team τ) (maximumCount : ℕ) :
    (start (κ := κ) team maximumCount).Locks Shared.mLock Frame.locks := by
  intro t
  dsimp only [start]
  split_ifs <;> rfl

end invariants

section runs

variable {guard : Threads τ (Shared τ κ) (Frame κ) → τ × Action κ → Prop} {team : Team τ}
  {maximumCount : ℕ} {as : List (τ × Action κ)} {s : Threads τ (Shared τ κ) (Frame κ)} {t : τ}

theorem run_listed (h : Running guard team maximumCount as s) : Listed team s :=
  Run.invariant (fun _ _ _ hs _ hstep => step_listed hs hstep) h (start_listed team maximumCount)

theorem run_locks (h : Running guard team maximumCount as s) : s.Locks Shared.mLock Frame.locks :=
  Run.invariant (fun _ _ _ hs _ hstep => hs.step locksNext hstep) h
    (start_locks team maximumCount)

theorem run_balanced [Fintype τ] (h : Running guard team maximumCount as s) : Balanced s :=
  Run.invariant (fun _ _ _ hs _ hstep => step_balanced hs hstep) h
    (start_balanced team maximumCount)

theorem mem_ofThread {calls : List (τ × κ)} {c : κ} : c ∈ ofThread t calls ↔ (t, c) ∈ calls := by
  simp [ofThread]

/-- The calls are taken in the order in which the main thread posted them, each one once, and each
worker dispatches those that it has taken, in that order and once. -/
theorem work_calls_once (h : Running guard team maximumCount as s) :
    s.shared.posted.map Prod.snd = s.shared.taken.map Prod.snd ++ s.shared.mThreadCalls ∧
      (∀ t, ofThread t s.shared.taken = ofThread t s.shared.dispatched ++ inHand (s.stack t)) ∧
      (∀ p ∈ s.shared.posted, p.1 = team.main) ∧
      ∀ p ∈ s.shared.dispatched, team.worker p.1 = true := by
  have hlisted := run_listed h
  refine ⟨hlisted.order, hlisted.own, hlisted.posted_main, fun p hp => ?_⟩
  have hown : p.2 ∈ ofThread p.1 s.shared.taken := by
    rw [hlisted.own]
    exact List.mem_append_left _ (mem_ofThread.mpr hp)
  exact hlisted.taken_worker p (mem_ofThread.mp hown)

/-- The main thread and one worker. -/
def pair : Team Bool := ⟨true, fun t => !t, rfl⟩

/-- The main thread posts a call, which posts another one for the main thread. -/
def exchange : List (Bool × Action ℕ) :=
  [(true, .method 7), (true, .proceed), (true, .proceed), (false, .return), (true, .proceed),
    (false, .proceed), (true, .proceed), (false, .proceed), (false, .proceed), (false, .proceed),
    (false, .proceed), (false, .proceed), (false, .proceed), (false, .proceed),
    (false, .method 8), (false, .proceed), (false, .proceed), (false, .proceed),
    (false, .return), (true, .dispatchResponseCalls), (true, .proceed), (true, .proceed),
    (true, .return), (true, .proceed), (true, .proceed)]

theorem work_calls_once_exchange : ∃ s : Threads Bool (Shared Bool ℕ) (Frame ℕ),
    s.shared.dispatched = [(false, 7)] ∧
      s.shared.posted.map Prod.snd = s.shared.taken.map Prod.snd ++ s.shared.mThreadCalls ∧
      (∀ t, ofThread t s.shared.taken = ofThread t s.shared.dispatched ++ inHand (s.stack t)) ∧
      (∀ p ∈ s.shared.posted, p.1 = pair.main) ∧
      ∀ p ∈ s.shared.dispatched, pair.worker p.1 = true := by
  have hrun : ∃ s, exec (Threads.step next) (start pair 1024) exchange = some s ∧
      s.shared.dispatched = [(false, 7)] := ⟨_, rfl, rfl⟩
  obtain ⟨s, hexec, hdispatched⟩ := hrun
  exact ⟨s, hdispatched, work_calls_once (Run.of_exec hexec)⟩

/-- No thread has a token while it runs code outside the queue. -/
theorem token_of_outside {f : Frame κ} (h : f.outside = true) : f.token = 0 := by
  cases f <;> first | rfl | cases h

theorem weight_token (hlisted : Listed team s) {f : Frame κ} {fs : List (Frame κ)}
    (hstack : s.stack t = f :: fs) : weight Frame.token (s.stack t) = f.token := by
  have hshaped := hlisted.shaped t
  rw [hstack] at hshaped
  have hrest : weight Frame.token fs = 0 := by
    apply weight_eq_zero
    intro g hg
    exact token_of_outside (hshaped.outside_of_mem hg)
  rw [hstack, weight_cons, hrest, Nat.add_zero]

/-- For each call on the list a worker is still going to come, unless an increment has failed. A
worker finds no call only where a signal has ended a wait. -/
theorem calls_have_tokens [Fintype τ] (h : Running guard team maximumCount as s) :
    s.shared.mThreadCalls.length ≤
        s.shared.mSemaphore.count + s.total Frame.token + s.shared.lost ∧
      s.shared.unneeded ≤ s.shared.interrupted ∧
      ((∀ t f fs, s.stack t = f :: fs → f.token = 0) →
        s.shared.mThreadCalls.length ≤ s.shared.mSemaphore.count + s.shared.lost) := by
  obtain ⟨htokens, hle⟩ := run_balanced h
  refine ⟨by omega, hle, fun hidle => ?_⟩
  have hzero : s.total Frame.token = 0 := by
    apply Finset.sum_eq_zero
    intro t _
    cases hstack : s.stack t with
    | nil => rfl
    | cons f fs => rw [← hstack, weight_token (run_listed h) hstack, hidle t f fs hstack]
  omega

/-- After the first seven steps the call is on the list, and its token is in the semaphore. -/
theorem calls_have_tokens_posted : ∃ s : Threads Bool (Shared Bool ℕ) (Frame ℕ),
    s.shared.mThreadCalls = [7] ∧ s.shared.mSemaphore.count = 1 ∧
      s.shared.mThreadCalls.length ≤
        s.shared.mSemaphore.count + s.total Frame.token + s.shared.lost ∧
      s.shared.unneeded ≤ s.shared.interrupted ∧
      ((∀ t f fs, s.stack t = f :: fs → f.token = 0) →
        s.shared.mThreadCalls.length ≤ s.shared.mSemaphore.count + s.shared.lost) := by
  have hrun : ∃ s, exec (Threads.step next) (start pair 1024) (exchange.take 7) = some s ∧
      s.shared.mThreadCalls = [7] ∧ s.shared.mSemaphore.count = 1 := ⟨_, rfl, rfl, rfl⟩
  obtain ⟨s, hexec, hcalls, hcount⟩ := hrun
  exact ⟨s, hcalls, hcount, calls_have_tokens (Run.of_exec hexec)⟩

/-- No signal ends a wait, and no more calls are on the list than the semaphore can count. -/
def Within (s : Threads τ (Shared τ κ) (Frame κ)) (a : τ × Action κ) : Prop :=
  a.2 ≠ .signal ∧ s.shared.mThreadCalls.length ≤ s.shared.mSemaphore.maximumCount

theorem step_within [Fintype τ] {s s' : Threads τ (Shared τ κ) (Frame κ)} {a : Action κ}
    (hbalanced : Balanced s) (hzero : s.shared.interrupted = 0 ∧ s.shared.lost = 0)
    (hwithin : Within s (t, a)) (h : Threads.step next s (t, a) = some s') :
    s'.shared.interrupted = 0 ∧ s'.shared.lost = 0 := by
  obtain ⟨f, fs, d, gs, hstack, htook, rfl⟩ := step_took h
  obtain ⟨htokens, hle⟩ := hbalanced
  obtain ⟨hsignal, hlength⟩ := hwithin
  have htotal := Threads.total_update Frame.token d gs hstack
  cases htook with
  | signalled hcalled => exact absurd hcalled hsignal
  | incrementLost hcount =>
    -- the semaphore has the tokens of as many calls, and this one is on the list too
    simp only [weight_nil, Frame.token] at htotal
    omega
  | _ => exact hzero

/-- Where no signal ends a wait and the semaphore can count the calls, every call on the list has
exactly one token, no worker finds no call, and no call is left behind. -/
theorem calls_have_one_token [Fintype τ] (h : Running Within team maximumCount as s) :
    s.shared.mThreadCalls.length = s.shared.mSemaphore.count + s.total Frame.token ∧
      s.shared.unneeded = 0 := by
  have hzero := Run.invariant_along
    (I := fun s => s.shared.interrupted = 0 ∧ s.shared.lost = 0)
    (fun _ _ _ hs _ hstep => step_balanced hs hstep)
    (fun _ _ _ hs hz hwithin hstep => step_within hs hz hwithin hstep) h
    (start_balanced team maximumCount) ⟨rfl, rfl⟩
  obtain ⟨htokens, hle⟩ := run_balanced h
  omega

/-- The thread has a step that does not need a signal. -/
def CanProceed (s : Threads τ (Shared τ κ) (Frame κ)) (t : τ) : Prop :=
  ∃ a, a ≠ .signal ∧ (Threads.step next s (t, a)).isSome

theorem canProceed {f : Frame κ} {fs : List (Frame κ)} (hstack : s.stack t = f :: fs)
    (a : Action κ) (hsignal : a ≠ .signal) (h : (next t s.shared f a).isSome) :
    CanProceed s t :=
  ⟨a, hsignal, (Threads.isSome_step hstack).trans h⟩

theorem isSome_lock {d : Shared τ κ} (fs : List (Frame κ))
    (h : ∀ u, u ≠ t → d.mLock.depth u = 0) : (lock t d fs).isSome := by
  rw [lock, Option.isSome_map]
  exact RecursiveMutex.isSome_lock_iff.mpr h

theorem isSome_unlock {d : Shared τ κ} (fs : List (Frame κ)) (h : 0 < d.mLock.depth t) :
    (unlock t d fs).isSome := by
  rw [unlock, Option.isSome_map]
  exact RecursiveMutex.isSome_unlock h

/-- A thread that no other thread keeps from the lock waits for the semaphore only. -/
theorem canProceed_or_wait (hlisted : Listed team s) (hlocks : s.Locks Shared.mLock Frame.locks)
    (hfree : ∀ u, u ≠ t → s.shared.mLock.depth u = 0) :
    CanProceed s t ∨ s.stack t = [.wait] ∧ s.shared.mSemaphore.count = 0 := by
  have hshaped := hlisted.shaped t
  have hdepth := hlocks t
  cases hstack : s.stack t with
  | nil =>
    rw [hstack] at hshaped
    exact hshaped.elim
  | cons f fs =>
    rw [hstack] at hshaped hdepth
    rw [weight_cons] at hdepth
    cases f with
    | program | responseBody => exact .inl (canProceed hstack .dispatchResponseCalls (by simp) rfl)
    | threadStart | callBody => exact .inl (canProceed hstack .return (by simp) rfl)
    | storageLock | callLock | postLock | responseLock =>
      exact .inl (canProceed hstack .proceed (by simp) (isSome_lock _ hfree))
    | storageUnlock | callUnlockEmpty | callUnlock | postUnlockMain | postUnlock
    | responseUnlock =>
      refine .inl (canProceed hstack .proceed (by simp) (isSome_unlock _ ?_))
      rw [hdepth]
      exact Nat.lt_of_lt_of_le Nat.zero_lt_one (Nat.le_add_right _ _)
    | storageSet | callDispatch | postIncrement =>
      exact .inl (canProceed hstack .proceed (by simp) rfl)
    | callFirst =>
      refine .inl (canProceed hstack .proceed (by simp) ?_)
      dsimp only [next, proceed]
      split <;> rfl
    | postPush =>
      refine .inl (canProceed hstack .proceed (by simp) ?_)
      dsimp only [next, proceed]
      split_ifs <;> rfl
    | responseLoop =>
      refine .inl (canProceed hstack .proceed (by simp) ?_)
      dsimp only [next, proceed]
      split <;> rfl
    | wait =>
      obtain ⟨rfl, -⟩ := hshaped.eq_nil rfl
      by_cases hcount : s.shared.mSemaphore.count = 0
      · exact .inr ⟨rfl, hcount⟩
      · refine .inl (canProceed hstack .proceed (by simp) ?_)
        dsimp only [next, proceed, Semaphore.wait]
        rw [if_neg hcount]
        rfl

/-- What is done between a lock and its unlock excludes what other threads do there. A thread that
cannot proceed waits for the semaphore, which has no token, or for another thread that holds the
lock and can proceed. -/
theorem lock_protects (h : Running guard team maximumCount as s) :
    (∀ t u f g, f ∈ s.stack t → g ∈ s.stack u → f.locks = 1 → g.locks = 1 → t = u) ∧
      ∀ t, CanProceed s t ∨ (s.stack t = [.wait] ∧ s.shared.mSemaphore.count = 0) ∨
        ∃ u, u ≠ t ∧ 0 < s.shared.mLock.depth u ∧ CanProceed s u := by
  have hlocks := run_locks h
  have hlisted := run_listed h
  constructor
  · intro t u f g hf hg hlf hlg
    have hholds : ∀ v k, k ∈ s.stack v → k.locks = 1 → 0 < s.shared.mLock.depth v := by
      intro v k hk hlk
      rw [hlocks v]
      exact Nat.lt_of_lt_of_le (hlk ▸ Nat.zero_lt_one) (le_weight hk)
    exact RecursiveMutex.eq_of_depth_pos (hholds t f hf hlf) (hholds u g hg hlg)
  · intro t
    by_cases hfree : ∀ u, u ≠ t → s.shared.mLock.depth u = 0
    · exact (canProceed_or_wait hlisted hlocks hfree).imp_right .inl
    · obtain ⟨u, hu⟩ := not_forall.mp hfree
      obtain ⟨hne, hpos⟩ := Classical.not_imp.mp hu
      have hpos := Nat.pos_of_ne_zero hpos
      refine .inr (.inr ⟨u, hne, hpos, ?_⟩)
      rcases canProceed_or_wait hlisted hlocks
        (fun v hv => RecursiveMutex.depth_eq_zero hpos hv) with hproceed | ⟨hwait, -⟩
      · exact hproceed
      · rw [hlocks u, hwait] at hpos
        exact absurd hpos (Nat.lt_irrefl 0)

/-- The main thread holds the lock, and the worker has the frame that locks it. -/
theorem lock_protects_blocked : ∃ s : Threads Bool (Shared Bool ℕ) (Frame ℕ),
    s.shared.mLock.depth true = 1 ∧ s.stack false = [.storageLock] ∧
      (∀ t u f g, f ∈ s.stack t → g ∈ s.stack u → f.locks = 1 → g.locks = 1 → t = u) ∧
      ∀ t, CanProceed s t ∨ (s.stack t = [.wait] ∧ s.shared.mSemaphore.count = 0) ∨
        ∃ u, u ≠ t ∧ 0 < s.shared.mLock.depth u ∧ CanProceed s u := by
  have hrun : ∃ s, exec (Threads.step next) (start pair 1024) (exchange.take 4) = some s ∧
      s.shared.mLock.depth true = 1 ∧ s.stack false = [.storageLock] := ⟨_, rfl, rfl, rfl⟩
  obtain ⟨s, hexec, hdepth, hstack⟩ := hrun
  exact ⟨s, hdepth, hstack, lock_protects (Run.of_exec hexec)⟩

end runs

end TNL.ThreadQueue
