import TNL.Master.ArrangedConnections

/-!
# Requests that nobody answers

A client should hear that there is no such host, or that the host did not answer in
time. The master has a sweep over its requests for the latter, but its main loop does
not call it. And a client is told with the RPC that hosts reject requests with, which
goes the other way.
-/
namespace TNL
open Library

namespace MasterServer

variable {κ : Type} [DecidableEq κ] {s s' t : MasterServer κ} {c : κ} {gcr p : ℕ}
  {sent : List (κ × MasterRPC)} {currentTime : U32}

def connectRequestTimeout : U32 := 30000

/-- With the zero at its end. -/
def MasterRequestTimedOut : List UInt8 := "Timed Out".toList.map Char.toUInt8 ++ [0]

def expired (currentTime : U32) (req : GameConnectRequest κ) : Bool :=
  currentTime - req.requestTime > connectRequestTimeout

def removeFromHost (s : MasterServer κ) (req : GameConnectRequest κ) (gcr : ℕ) :
    Option (MasterServer κ) :=
  match req.host with
  | none => some s
  | some host => s.removeConnectRequest host gcr

/-- The part of the sweep that ends an old request. -/
def expireRequest (s : MasterServer κ) (gcr : ℕ) (req : GameConnectRequest κ) :
    Option (MasterServer κ × List (κ × MasterRPC)) := do
  let s ← s.removeFromInitiator req gcr
  let sent := notifyInitiator req (.c2mRejectArrangedConnection · MasterRequestTimedOut)
  let s ← s.removeFromHost req gcr
  return (s.deleteRequest gcr, sent)

/-- The sweep from a position on, with as many turns as there are requests behind it. -/
def sweep (currentTime : U32) :
    ℕ → ℕ → MasterServer κ → Option (MasterServer κ × List (κ × MasterRPC))
  | 0, _, s => some (s, [])
  | turns + 1, i, s => do
    let gcr ← s.gConnectList[i]?
    let req ← s.requests gcr
    if expired currentTime req then
      let (s, sent) ← s.expireRequest gcr req
      let (s, rest) ← sweep currentTime turns i
        { s with gConnectList := eraseFast s.gConnectList i }
      return (s, sent ++ rest)
    else sweep currentTime turns (i + 1) s

def checkConnectTimeouts (s : MasterServer κ) (currentTime : U32) :
    Option (MasterServer κ × List (κ × MasterRPC)) :=
  sweep currentTime s.gConnectList.length 0 s

/-- What the main loop does: calls and disconnections come from the packets of a pass. -/
inductive LoopAction (κ : Type) where
  | rpc (a : Action κ)
  | pass (currentTime : U32)

/-- Besides them a pass only reads the configuration. -/
def loopAct (s : MasterServer κ) : LoopAction κ → Option (MasterServer κ × List (κ × MasterRPC))
  | .rpc a => s.act a
  | .pass _ => some (s, [])

def loopStep (s : MasterServer κ) (a : LoopAction κ) : Option (MasterServer κ) :=
  (s.loopAct a).map Prod.fst

/-- The clients that were told about a rejection, with the ids. -/
def rejected (sent : List (κ × MasterRPC)) : List (κ × U32) :=
  sent.filterMap fun (c, rpc) =>
    match rpc with
    | .m2cArrangedConnectionRejected requestId _ => some (c, requestId)
    | _ => none

/-- The connection is still in the list of the interface. -/
def isConnected (s : MasterServer κ) (c : κ) : Bool := (s.connections c).any (·.connected)

/-- The rejection that a request should end with, if its initiator is still connected. -/
def owed (s : MasterServer κ) (gcr : ℕ) : List (κ × U32) :=
  (s.requests gcr).elim [] fun req =>
    (req.initiator.filter s.isConnected).elim [] fun c => [(c, req.initiatorQueryId)]

/-- The request is in no list and freed. -/
structure Gone (s : MasterServer κ) (gcr : ℕ) : Prop where
  freed : s.requests gcr = none
  connection : ∀ c, gcr ∉ s.listOf c
  global : gcr ∉ s.gConnectList

/-- A refused request leads to one rejection, and a pass to one for each request that is too old,
which is gone after it. -/
def Answers (s : MasterServer κ) : LoopAction κ → MasterServer κ → List (κ × MasterRPC) → Prop
  | .rpc (.request c requestId none _ _ _ _), s', sent =>
    (s.isConnected c → rejected sent = [(c, requestId)]) ∧ s'.requests = s.requests
  | .pass currentTime, s', sent =>
    ∃ old : List ℕ, old.Nodup ∧
      (∀ p, p ∈ old ↔ ∃ req ∈ s.requests p, expired currentTime req) ∧
      (rejected sent).Perm (old.flatMap s.owed) ∧ ∀ p ∈ old, s'.Gone p
  | _, _, _ => True

def StepAnswers (s : MasterServer κ) (a : LoopAction κ) : Prop :=
  ∀ s' sent, s.loopAct a = some (s', sent) → s.Answers a s' sent

/-- Nobody who is connected asks for an unknown host, and every request is answered in time. -/
def Timely (s : MasterServer κ) : LoopAction κ → Prop
  | .rpc (.request c _ none _ _ _ _) => s.isConnected c = false
  | .pass currentTime => ∀ p, ∀ req ∈ s.requests p, expired currentTime req = false
  | _ => True

/-- The sweep would not send the right RPC either. -/
theorem rejected_sweep (turns i : ℕ) (h : sweep currentTime turns i s = some (s', sent)) :
    rejected sent = [] := by
  induction turns generalizing i s s' sent with
  | zero =>
    obtain ⟨-, rfl⟩ := Prod.mk.inj (Option.some.inj h)
    rfl
  | succ turns ih =>
    rw [sweep] at h
    obtain ⟨gcr, -, h⟩ := Option.bind_eq_some_iff.mp h
    obtain ⟨req, -, h⟩ := Option.bind_eq_some_iff.mp h
    by_cases hold : expired currentTime req = true
    · rw [if_pos hold] at h
      obtain ⟨⟨s₁, sent₁⟩, hexpire, h⟩ := Option.bind_eq_some_iff.mp h
      obtain ⟨⟨s₂, rest⟩, hrest, h⟩ := Option.bind_eq_some_iff.mp h
      obtain ⟨-, rfl⟩ := Prod.mk.inj (Option.some.inj h)
      have hsent : rejected sent₁ = [] := by
        obtain ⟨s₃, -, hexpire⟩ := Option.bind_eq_some_iff.mp hexpire
        obtain ⟨s₄, -, hexpire⟩ := Option.bind_eq_some_iff.mp hexpire
        obtain ⟨-, rfl⟩ := Prod.mk.inj (Option.some.inj hexpire)
        rw [notifyInitiator]
        cases req.initiator <;> rfl
      rw [rejected, List.filterMap_append, ← rejected, ← rejected, hsent, ih i hrest]
      rfl
    · rw [if_neg hold] at h
      exact ih (i + 1) h

theorem answers_iff {a : LoopAction κ} (hact : s.loopAct a = some (s', sent)) :
    s.Answers a s' sent ↔ s.Timely a := by
  cases a with
  | rpc a =>
    cases a with
    | request c requestId host internalAddress connectionParameters gcr currentTime =>
      cases host with
      | none =>
        have hsent : sent = [(c, .c2mRejectArrangedConnection requestId MasterNoSuchHost)] ∧
            s' = s := by
          rw [loopAct, act] at hact
          split at hact
          · obtain ⟨hs, hsent⟩ := Prod.mk.inj (Option.some.inj hact)
            exact ⟨hsent.symm, hs.symm⟩
          · cases hact
        obtain ⟨rfl, rfl⟩ := hsent
        constructor
        · rintro ⟨hanswer, -⟩
          by_contra hconnected
          have hnone := hanswer (Bool.eq_true_of_not_eq_false hconnected)
          cases hnone
        · intro htimely
          have hconnected : s'.isConnected c = false := htimely
          refine ⟨fun h => ?_, rfl⟩
          rw [hconnected] at h
          cases h
      | some host => exact Iff.rfl
    | _ => exact Iff.rfl
  | pass currentTime =>
    obtain ⟨rfl, rfl⟩ := Prod.mk.inj (Option.some.inj hact)
    constructor
    · rintro ⟨old, -, hold, -, hgone⟩ p req hreq
      by_contra hexpired
      have hmem := (hold p).mpr ⟨req, hreq, Bool.eq_true_of_not_eq_false hexpired⟩
      rw [(hgone p hmem).freed] at hreq
      cases hreq
    · intro htimely
      refine ⟨[], List.nodup_nil, fun p => ?_, .nil, List.forall_mem_nil _⟩
      constructor
      · intro hp
        exact absurd hp List.not_mem_nil
      · rintro ⟨req, hreq, hexpired⟩
        rw [htimely p req hreq] at hexpired
        cases hexpired

/-- In a run of the main loop every request is answered exactly if no connected client asks for an
unknown host and no request gets too old. -/
theorem answers_run_iff (as : List (LoopAction κ)) (s : MasterServer κ) :
    Run loopStep StepAnswers start as s ↔ Run loopStep Timely start as s := by
  refine Run.congr_guard fun s a t hstep => ?_
  obtain ⟨⟨s', sent⟩, hact, -⟩ := Option.map_eq_some_iff.mp hstep
  constructor
  · intro h
    exact (answers_iff hact).mp (h s' sent hact)
  · intro h s'' sent' hact'
    exact (answers_iff hact').mpr h

/-- A client asks for a host that is not there. -/
theorem no_such_host : ¬ ∀ (as : List (LoopAction ℕ)) (s : MasterServer ℕ),
    Run loopStep (fun _ _ => True) start as s → Run loopStep StepAnswers start as s := by
  intro hclaim
  let connect : LoopAction ℕ := .rpc (.connect 0 ⟨1, 28000⟩ 5)
  let request : LoopAction ℕ := .rpc (.request 0 7 none ⟨1, 28000⟩ [] 0 100)
  obtain ⟨s, hexec⟩ : ∃ s, exec loopStep start [connect, request] = some s :=
    Option.isSome_iff_exists.mp (by decide)
  obtain ⟨t, hrun, hanswers⟩ : ∃ t, Run loopStep StepAnswers start [connect] t ∧
    t.StepAnswers request := (hclaim _ s (.of_exec hexec)).allowed_at
  have hsent : (exec loopStep start [connect]).bind (fun t => (t.loopAct request).map fun r =>
      (t.isConnected 0, rejected r.2)) = some (true, []) := by decide
  rw [hrun.exec_eq] at hsent
  obtain ⟨⟨s', sent⟩, hact, heq⟩ := Option.map_eq_some_iff.mp hsent
  obtain ⟨hconnected, hnone⟩ := Prod.mk.inj heq
  have hanswer := (hanswers s' sent hact).1 hconnected
  rw [hnone] at hanswer
  cases hanswer

end MasterServer

end TNL
