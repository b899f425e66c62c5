import TNL.Library.Threads

/-!
# Queues of calls to worker threads

The main thread posts calls that the worker threads take and dispatch, and what a worker posts is
dispatched where the response calls are. Every primitive is a step of its own: a lock, an unlock,
the wait and the increment of the semaphore, and what is done between them. The code that uses the
queue, and the body of every call, may do any calls of the queue. The lists of the calls that were
posted, taken and dispatched so far are kept beside the queue.
-/
namespace TNL
open Library

structure Semaphore where
  count : ℕ
  maximumCount : ℕ
  deriving DecidableEq

namespace Semaphore

def wait (s : Semaphore) : Option Semaphore :=
  if s.count = 0 then none else some { s with count := s.count - 1 }

/-- An increment beyond the maximum count fails, and nobody looks at that. -/
def increment (s : Semaphore) : Semaphore :=
  if s.count < s.maximumCount then { s with count := s.count + 1 } else s

end Semaphore

namespace ThreadQueue

variable {τ κ : Type} [DecidableEq τ]

/-- What a thread does next. The frames that are not on top of a stack wait for the ones above. -/
inductive Frame (κ : Type) where
  /-- The code that uses the queue. -/
  | program
  | threadStart
  | storageLock
  | storageSet
  | storageUnlock
  | wait
  | callLock
  | callFirst
  | callUnlockEmpty
  | callUnlock (c : κ)
  | callDispatch (c : κ)
  | callBody (c : κ)
  | postLock (c : κ)
  | postPush (c : κ)
  | postUnlockMain
  | postIncrement
  | postUnlock
  | responseLock
  | responseLoop (i : ℕ)
  | responseBody (i : ℕ) (c : κ)
  | responseUnlock
  deriving DecidableEq

namespace Frame

/-- Code that is not the queue's own. -/
def outside : Frame κ → Bool
  | program | threadStart | callBody _ | responseBody _ _ => true
  | _ => false

/-- The frame holds the lock. -/
def locks : Frame κ → ℕ
  | storageSet | storageUnlock | callFirst | callUnlockEmpty | callUnlock _ | postPush _
  | postUnlockMain | postUnlock | responseLoop _ | responseBody _ _ | responseUnlock => 1
  | _ => 0

end Frame

structure Shared (τ κ : Type) where
  mThreadCalls : List κ
  mResponseCalls : List κ
  mSemaphore : Semaphore
  mLock : RecursiveMutex τ
  mStorage : τ → Bool
  /-- The calls put on the list of the workers, those taken from it, and those dispatched. -/
  posted : List (τ × κ)
  taken : List (τ × κ)
  dispatched : List (τ × κ)
  /-- The calls put on the list of the responses, and those dispatched. -/
  responded : List (τ × κ)
  answered : List (τ × κ)
  /-- Increments that failed, waits that a signal ended, and threads that found no call. -/
  lost : ℕ
  interrupted : ℕ
  unneeded : ℕ

inductive Action (κ : Type) where
  /-- The code outside calls a method of the queue that is marshalled as a call. -/
  | method (c : κ)
  | dispatchResponseCalls
  | return
  | proceed
  /-- A signal ends the wait. -/
  | signal
  deriving DecidableEq

abbrev isMainThread (d : Shared τ κ) (t : τ) : Bool := d.mStorage t

def lock (t : τ) (d : Shared τ κ) (fs : List (Frame κ)) : Option (Shared τ κ × List (Frame κ)) :=
  (d.mLock.lock t).map fun m => ({ d with mLock := m }, fs)

def unlock (t : τ) (d : Shared τ κ) (fs : List (Frame κ)) : Option (Shared τ κ × List (Frame κ)) :=
  (d.mLock.unlock t).map fun m => ({ d with mLock := m }, fs)

/-- The queue's own code. -/
def proceed (t : τ) (d : Shared τ κ) : Frame κ → Option (Shared τ κ × List (Frame κ))
  -- ThreadQueueThread::run
  | .storageLock => lock t d [.storageSet]
  | .storageSet =>
    some ({ d with mStorage := Function.update d.mStorage t false }, [.storageUnlock])
  | .storageUnlock => unlock t d [.wait]
  -- dispatchNextCall
  | .wait => d.mSemaphore.wait.map fun m => ({ d with mSemaphore := m }, [.callLock])
  | .callLock => lock t d [.callFirst]
  | .callFirst => match d.mThreadCalls with
    | [] => some ({ d with unneeded := d.unneeded + 1 }, [.callUnlockEmpty])
    | c :: cs => some ({ d with mThreadCalls := cs, taken := d.taken ++ [(t, c)] }, [.callUnlock c])
  | .callUnlockEmpty => unlock t d [.wait]
  | .callUnlock c => unlock t d [.callDispatch c]
  | .callDispatch c => some ({ d with dispatched := d.dispatched ++ [(t, c)] }, [.callBody c])
  -- postCall
  | .postLock c => lock t d [.postPush c]
  | .postPush c =>
    if isMainThread d t then
      some ({ d with mThreadCalls := d.mThreadCalls ++ [c], posted := d.posted ++ [(t, c)] },
        [.postUnlockMain])
    else
      some ({ d with
        mResponseCalls := d.mResponseCalls ++ [c], responded := d.responded ++ [(t, c)] },
        [.postUnlock])
  | .postUnlockMain => unlock t d [.postIncrement]
  | .postIncrement =>
    some ({ d with
      mSemaphore := d.mSemaphore.increment
      lost := if d.mSemaphore.count < d.mSemaphore.maximumCount then d.lost else d.lost + 1 }, [])
  | .postUnlock => unlock t d []
  -- dispatchResponseCalls
  | .responseLock => lock t d [.responseLoop 0]
  | .responseLoop i => match d.mResponseCalls[i]? with
    | some c => some ({ d with answered := d.answered ++ [(t, c)] }, [.responseBody i c])
    | none => some ({ d with mResponseCalls := [] }, [.responseUnlock])
  | .responseUnlock => unlock t d []
  | _ => none

/-- The end of code that the queue has called. A call is deleted after its dispatch. -/
def return_ : Frame κ → Option (Frame κ)
  | .threadStart => some .storageLock
  | .callBody _ => some .wait
  | .responseBody i _ => some (.responseLoop (i + 1))
  | _ => none

def next (t : τ) (d : Shared τ κ) (f : Frame κ) :
    Action κ → Option (Shared τ κ × List (Frame κ))
  | .method c => if f.outside then some (d, [.postLock c, f]) else none
  | .dispatchResponseCalls => if f.outside then some (d, [.responseLock, f]) else none
  | .return => (return_ f).map fun g => (d, [g])
  | .proceed => proceed t d f
  | .signal => match f with
    | .wait => some ({ d with interrupted := d.interrupted + 1 }, [.callLock])
    | _ => none

/-- The main thread, and which threads the constructor has started. -/
structure Team (τ : Type) where
  main : τ
  worker : τ → Bool
  main_not_worker : worker main = false

/-- The queue after its constructor. -/
def start (team : Team τ) (maximumCount : ℕ) : Threads τ (Shared τ κ) (Frame κ) where
  shared := {
    mThreadCalls := []
    mResponseCalls := []
    mSemaphore := ⟨0, maximumCount⟩
    mLock := RecursiveMutex.free
    mStorage := Function.update (fun _ => false) team.main true
    posted := []
    taken := []
    dispatched := []
    responded := []
    answered := []
    lost := 0
    interrupted := 0
    unneeded := 0 }
  stack t := if team.worker t then [.threadStart] else [.program]

/-- A run of any threads, with any code outside the queue. -/
abbrev Running (guard : Threads τ (Shared τ κ) (Frame κ) → τ × Action κ → Prop) (team : Team τ)
    (maximumCount : ℕ) (as : List (τ × Action κ)) (s : Threads τ (Shared τ κ) (Frame κ)) : Prop :=
  Run (Threads.step next) guard (start team maximumCount) as s

/-- What follows a lock. -/
def Frame.afterLock : Frame κ → Option (Frame κ)
  | .storageLock => some .storageSet
  | .callLock => some .callFirst
  | .postLock c => some (.postPush c)
  | .responseLock => some (.responseLoop 0)
  | _ => none

/-- What follows an unlock. -/
def Frame.afterUnlock : Frame κ → Option (List (Frame κ))
  | .storageUnlock | .callUnlockEmpty => some [.wait]
  | .callUnlock c => some [.callDispatch c]
  | .postUnlockMain => some [.postIncrement]
  | .postUnlock | .responseUnlock => some []
  | _ => none

/-- What one transition can do. -/
inductive Took (t : τ) (d : Shared τ κ) (a : Action κ) :
    Frame κ → Shared τ κ → List (Frame κ) → Prop where
  | methodCalled {f : Frame κ} (c : κ) (houtside : f.outside = true) :
      Took t d a f d [.postLock c, f]
  | responsesCalled {f : Frame κ} (hcalled : a = .dispatchResponseCalls)
      (houtside : f.outside = true) : Took t d a f d [.responseLock, f]
  | returned {f g : Frame κ} (hreturn : return_ f = some g) : Took t d a f d [g]
  | signalled (hsignal : a = .signal) :
      Took t d a .wait { d with interrupted := d.interrupted + 1 } [.callLock]
  | locked {f g : Frame κ} {m : RecursiveMutex τ} (hafter : f.afterLock = some g)
      (hlock : d.mLock.lock t = some m) : Took t d a f { d with mLock := m } [g]
  | unlocked {f : Frame κ} {gs : List (Frame κ)} {m : RecursiveMutex τ}
      (hafter : f.afterUnlock = some gs) (hunlock : d.mLock.unlock t = some m) :
      Took t d a f { d with mLock := m } gs
  | storageSet : Took t d a .storageSet { d with mStorage := Function.update d.mStorage t false }
      [.storageUnlock]
  | waited (hcount : d.mSemaphore.count ≠ 0) : Took t d a .wait
      { d with mSemaphore := ⟨d.mSemaphore.count - 1, d.mSemaphore.maximumCount⟩ } [.callLock]
  | foundNone (hnone : d.mThreadCalls = []) :
      Took t d a .callFirst { d with unneeded := d.unneeded + 1 } [.callUnlockEmpty]
  | foundCall {c : κ} {cs : List κ} (hcons : d.mThreadCalls = c :: cs) :
      Took t d a .callFirst { d with mThreadCalls := cs, taken := d.taken ++ [(t, c)] }
        [.callUnlock c]
  | dispatched (c : κ) :
      Took t d a (.callDispatch c) { d with dispatched := d.dispatched ++ [(t, c)] } [.callBody c]
  | posted (c : κ) (hmain : isMainThread d t = true) : Took t d a (.postPush c)
      { d with mThreadCalls := d.mThreadCalls ++ [c], posted := d.posted ++ [(t, c)] }
      [.postUnlockMain]
  | responded (c : κ) (hmain : isMainThread d t = false) : Took t d a (.postPush c)
      { d with mResponseCalls := d.mResponseCalls ++ [c], responded := d.responded ++ [(t, c)] }
      [.postUnlock]
  | incremented (hcount : d.mSemaphore.count < d.mSemaphore.maximumCount) :
      Took t d a .postIncrement
        { d with mSemaphore := ⟨d.mSemaphore.count + 1, d.mSemaphore.maximumCount⟩ } []
  | incrementLost (hcount : ¬ d.mSemaphore.count < d.mSemaphore.maximumCount) :
      Took t d a .postIncrement { d with lost := d.lost + 1 } []
  | answered {i : ℕ} {c : κ} (hget : d.mResponseCalls[i]? = some c) : Took t d a (.responseLoop i)
      { d with answered := d.answered ++ [(t, c)] } [.responseBody i c]
  | cleared {i : ℕ} (hend : d.mResponseCalls[i]? = none) :
      Took t d a (.responseLoop i) { d with mResponseCalls := [] } [.responseUnlock]

section transitions

variable {t : τ} {d d' : Shared τ κ} {f g : Frame κ} {gs : List (Frame κ)} {a : Action κ}

theorem lock_took (hafter : f.afterLock = some g) (h : lock t d [g] = some (d', gs)) :
    Took t d a f d' gs := by
  obtain ⟨m, hm, heq⟩ := Option.map_eq_some_iff.mp h
  obtain ⟨rfl, rfl⟩ := Prod.mk.inj heq
  exact .locked hafter hm

theorem unlock_took {fs : List (Frame κ)} (hafter : f.afterUnlock = some fs)
    (h : unlock t d fs = some (d', gs)) : Took t d a f d' gs := by
  obtain ⟨m, hm, heq⟩ := Option.map_eq_some_iff.mp h
  obtain ⟨rfl, rfl⟩ := Prod.mk.inj heq
  exact .unlocked hafter hm

theorem proceed_took (h : proceed t d f = some (d', gs)) : Took t d a f d' gs := by
  cases f with
  | program | threadStart | callBody | responseBody => cases h
  | storageLock | callLock | postLock | responseLock => exact lock_took rfl h
  | storageUnlock | callUnlockEmpty | callUnlock | postUnlockMain | postUnlock | responseUnlock =>
    exact unlock_took rfl h
  | storageSet =>
    cases h
    exact .storageSet
  | wait =>
    dsimp only [proceed, Semaphore.wait] at h
    split_ifs at h with hcount
    · cases h
    · cases h
      exact .waited hcount
  | callFirst =>
    dsimp only [proceed] at h
    split at h
    next hnone =>
      cases h
      exact .foundNone hnone
    next hcons =>
      cases h
      exact .foundCall hcons
  | callDispatch c =>
    cases h
    exact .dispatched c
  | postPush c =>
    dsimp only [proceed] at h
    split_ifs at h with hmain
    · cases h
      exact .posted c hmain
    · cases h
      exact .responded c (Bool.eq_false_of_not_eq_true hmain)
  | postIncrement =>
    cases h
    dsimp only [Semaphore.increment]
    split_ifs with hcount
    · exact .incremented hcount
    · exact .incrementLost hcount
  | responseLoop i =>
    dsimp only [proceed] at h
    split at h
    next hget =>
      cases h
      exact .answered hget
    next hend =>
      cases h
      exact .cleared hend

theorem next_took (h : next t d f a = some (d', gs)) : Took t d a f d' gs := by
  cases a with
  | method c =>
    dsimp only [next] at h
    split_ifs at h with houtside
    cases h
    exact .methodCalled c houtside
  | dispatchResponseCalls =>
    dsimp only [next] at h
    split_ifs at h with houtside
    cases h
    exact .responsesCalled rfl houtside
  | «return» =>
    obtain ⟨g, hg, heq⟩ := Option.map_eq_some_iff.mp h
    obtain ⟨rfl, rfl⟩ := Prod.mk.inj heq
    exact .returned hg
  | proceed => exact proceed_took h
  | signal =>
    cases f <;> cases h
    exact .signalled rfl

theorem Frame.locks_afterLock (h : f.afterLock = some g) : f.locks = 0 ∧ g.locks = 1 := by
  cases f <;> cases h <;> exact ⟨rfl, rfl⟩

theorem Frame.locks_afterUnlock (h : f.afterUnlock = some gs) :
    f.locks = 1 ∧ weight Frame.locks gs = 0 := by
  cases f <;> cases h <;> exact ⟨rfl, rfl⟩

theorem Frame.locks_return (h : return_ f = some g) : g.locks = f.locks := by
  cases f <;> cases h <;> rfl

/-- The frames say which thread has locked the queue and how often. -/
theorem locksNext : Threads.LocksNext (next (τ := τ) (κ := κ)) Shared.mLock Frame.locks := by
  intro t d f a d' gs h
  cases next_took h with
  | locked hafter hlock =>
    obtain ⟨hf, hg⟩ := Frame.locks_afterLock hafter
    rw [RecursiveMutex.depth_lock hlock, Function.update_self, weight_cons, hf, hg]
    exact ⟨fun u hu => Function.update_of_ne hu _ _, rfl⟩
  | unlocked hafter hunlock =>
    obtain ⟨hf, hgs⟩ := Frame.locks_afterUnlock hafter
    obtain ⟨hpos, hdepth⟩ := RecursiveMutex.depth_unlock hunlock
    rw [hdepth, Function.update_self, hf, hgs]
    exact ⟨fun u hu => Function.update_of_ne hu _ _, Nat.sub_add_cancel hpos⟩
  | returned hreturn =>
    refine ⟨fun _ _ => rfl, ?_⟩
    rw [weight_cons, Frame.locks_return hreturn]
    rfl
  | methodCalled | responsesCalled =>
    refine ⟨fun _ _ => rfl, ?_⟩
    simp only [weight_cons, weight_nil, Frame.locks]
    omega
  | signalled | storageSet | waited | foundNone | foundCall | dispatched | posted | responded
  | incremented | incrementLost | answered | cleared => exact ⟨fun _ _ => rfl, rfl⟩

end transitions

section steps

variable {team : Team τ} {maximumCount : ℕ} {s s' : Threads τ (Shared τ κ) (Frame κ)} {t : τ}
  {a : Action κ}

theorem step_took (h : Threads.step next s (t, a) = some s') :
    ∃ f fs d gs, s.stack t = f :: fs ∧ Took t s.shared a f d gs ∧
      s' = ⟨d, Function.update s.stack t (gs ++ fs)⟩ := by
  obtain ⟨f, fs, d, gs, hstack, hnext, rfl⟩ := Threads.step_cases h
  exact ⟨f, fs, d, gs, hstack, next_took hnext, rfl⟩

end steps

end ThreadQueue

end TNL
