import TNL.Master.MasterServer

/-!
# Strikes against clients of the master server

A call that comes too soon after the one before it is a strike, and a client with
three strikes is out. The time of the last activity is set when a connection is made,
to zero, and never again, so that a call is too soon if it comes soon after the clock
was at zero.
-/
namespace TNL
open Library

/-- A call whose time is checked, with the strikes before and after it, and whether it ended the
connection. -/
structure Watch.Call where
  timeDeltaMinimum : U32
  currentTime : U32
  before : U32
  after : U32
  out : Bool
  deriving DecidableEq

/-- The connections with the calls of each, the newest first. -/
structure Watch (κ : Type) where
  server : MasterServer κ
  calls : κ → List Watch.Call

namespace MasterServer

variable {κ : Type} [DecidableEq κ] {s s' : MasterServer κ} {c d : κ}

/-- The update of a status, apart from the status. -/
def c2mUpdateServerStatus (s : MasterServer κ) (c : κ) (mIsGameServer : Bool)
    (currentTime : U32) : Option (MasterServer κ) :=
  if !mIsGameServer then some s else s.checkActivityTime c 15000 currentTime

/-- The strikes of a connection, the time of its last activity and whether it is in the list of the
interface. -/
def standing (s : MasterServer κ) (c : κ) : Option (U32 × U32 × Bool) :=
  (s.connections c).map fun conn => (conn.mStrikeCount, conn.mLastActivityTime, conn.connected)

def strikes (s : MasterServer κ) (c : κ) : U32 := ((s.standing c).map (·.1)).getD 0

def inList (s : MasterServer κ) (c : κ) : Bool := (s.standing c).any (·.2.2)

end MasterServer

namespace Watch

variable {κ : Type} [DecidableEq κ]

inductive Action (κ : Type) where
  | rpc (a : MasterServer.Action κ)
  | updateServerStatus (c : κ) (mIsGameServer : Bool) (currentTime : U32)

def start : Watch κ := ⟨.start, fun _ => []⟩

/-- Note down a call of a connection that takes the server to `s'`. -/
def record (w : Watch κ) (c : κ) (timeDeltaMinimum currentTime : U32) (s' : MasterServer κ) :
    Watch κ :=
  let call : Call := ⟨timeDeltaMinimum, currentTime, w.server.strikes c, s'.strikes c,
    w.server.inList c && !s'.inList c⟩
  ⟨s', Function.update w.calls c (call :: w.calls c)⟩

/-- A request for a host that is not there is not checked. -/
def step (w : Watch κ) : Action κ → Option (Watch κ)
  | .rpc a => (w.server.act a).map fun (s', _) =>
    match a with
    | .connect c _ _ => ⟨s', Function.update w.calls c []⟩
    | .request c _ (some _) _ _ _ currentTime => w.record c 2000 currentTime s'
    | _ => ⟨s', w.calls⟩
  | .updateServerStatus c mIsGameServer currentTime =>
    (w.server.c2mUpdateServerStatus c mIsGameServer currentTime).map fun s' =>
      if mIsGameServer then w.record c 15000 currentTime s' else ⟨s', w.calls⟩

/-- The times of the calls of a connection do not decrease. -/
def Ordered (w : Watch κ) : Action κ → Prop
  | .rpc (.request c _ (some _) _ _ _ currentTime) =>
    ∀ previous ∈ (w.calls c).head?, previous.currentTime ≤ currentTime
  | .updateServerStatus c _ currentTime =>
    ∀ previous ∈ (w.calls c).head?, previous.currentTime ≤ currentTime
  | _ => True

/-- A call comes less than its minimum after the one before it. -/
def Soon (call : Call) (earlier : List Call) : Prop :=
  ∃ previous ∈ earlier.head?, call.currentTime - previous.currentTime < call.timeDeltaMinimum

/-- A strike more, or one less if there is one. -/
def judged (before : U32) (strike : Prop) [Decidable strike] : U32 :=
  if strike then before + 1 else if before > 0 then before - 1 else before

/-- Every call that comes too soon is a strike, and every other one takes a strike away. -/
def Judged : List Call → Prop
  | [] => True
  | call :: earlier =>
    ((Soon call earlier → call.after = judged call.before True) ∧
      (¬Soon call earlier → call.after = judged call.before False)) ∧ Judged earlier

/-- No call comes too soon. -/
def Patient : List Call → Prop
  | [] => True
  | call :: earlier => ¬Soon call earlier ∧ Patient earlier

/-- A call comes too soon exactly if it comes soon after the clock was at zero. -/
def Sensed : List Call → Prop
  | [] => True
  | call :: earlier =>
    (call.currentTime < call.timeDeltaMinimum ↔ Soon call earlier) ∧ Sensed earlier

/-- The calls of a connection are judged rightly. Who is patient is not thrown out, and whoever comes
too soon three times in a row is. -/
structure FloodProtected (w : Watch κ) (c : κ) : Prop where
  judged : Judged (w.calls c)
  spared : Patient (w.calls c) → ∀ call ∈ w.calls c, call.out = false
  expelled : ∀ third second first earlier, w.calls c = third :: second :: first :: earlier →
    Soon first earlier → Soon second (first :: earlier) → Soon third (second :: first :: earlier) →
    w.server.inList c = false

end Watch

namespace MasterServer

section frames

variable {κ : Type} [DecidableEq κ] {s s' : MasterServer κ} {c d : κ}
  {conn : MasterServerConnection} {sent : List (κ × MasterRPC)}

theorem standing_setConnection (s : MasterServer κ) (c d : κ) (conn : MasterServerConnection) :
    (s.setConnection c conn).standing d = if d = c then
      some (conn.mStrikeCount, conn.mLastActivityTime, conn.connected) else s.standing d := by
  by_cases h : d = c
  · rw [if_pos h, h, standing, setConnection]
    dsimp only
    rw [Function.update_self]
    rfl
  · rw [if_neg h, standing, setConnection]
    dsimp only
    rw [Function.update_of_ne h]
    rfl

/-- A change of the requests of a connection is none of its standing. -/
theorem standing_setRequests (hconn : s.connections c = some conn) (mLastQueryId : U32)
    (mConnectList : List ℕ) :
    (s.setConnection c { conn with
      mLastQueryId := mLastQueryId, mConnectList := mConnectList }).standing = s.standing := by
  funext d
  rw [standing_setConnection]
  by_cases h : d = c
  · rw [if_pos h, h, standing, hconn]
    rfl
  · rw [if_neg h]

theorem standing_removeConnectRequest {gcr : ℕ} (h : s.removeConnectRequest c gcr = some s') :
    s'.standing = s.standing := by
  obtain ⟨conn, hconn, rfl⟩ := Option.map_eq_some_iff.mp h
  exact standing_setRequests hconn _ _

theorem standing_removeFromInitiator {req : GameConnectRequest κ} {gcr : ℕ}
    (h : s.removeFromInitiator req gcr = some s') : s'.standing = s.standing := by
  rw [removeFromInitiator] at h
  cases hinitiator : req.initiator with
  | none =>
    rw [hinitiator] at h
    rw [Option.some.inj h]
  | some initiator =>
    rw [hinitiator] at h
    exact standing_removeConnectRequest h

theorem standing_findAndRemoveRequest {requestId : U32} {found : Option ℕ}
    (h : s.findAndRemoveRequest c requestId = some (s', found)) : s'.standing = s.standing := by
  obtain ⟨conn, hconn, h⟩ := Option.bind_eq_some_iff.mp h
  obtain ⟨place, -, h⟩ := Option.bind_eq_some_iff.mp h
  cases place with
  | none =>
    obtain ⟨rfl, -⟩ := Prod.mk.inj (Option.some.inj h)
    rfl
  | some place =>
    obtain ⟨req, -, h⟩ := Option.bind_eq_some_iff.mp h
    obtain ⟨s₁, hremoved, h⟩ := Option.bind_eq_some_iff.mp h
    obtain ⟨rfl, -⟩ := Prod.mk.inj (Option.some.inj h)
    change s₁.standing = _
    rw [standing_removeFromInitiator hremoved]
    exact standing_setRequests hconn _ _

theorem standing_answerRequest {requestId : U32} {rpc : U32 → MasterRPC}
    (h : s.answerRequest c requestId rpc = some (s', sent)) : s'.standing = s.standing := by
  obtain ⟨⟨s₁, found⟩, hfind, h⟩ := Option.bind_eq_some_iff.mp h
  have hsame := standing_findAndRemoveRequest hfind
  cases found with
  | none =>
    obtain ⟨rfl, -⟩ := Prod.mk.inj (Option.some.inj h)
    exact hsame
  | some gcr =>
    obtain ⟨req, -, h⟩ := Option.bind_eq_some_iff.mp h
    obtain ⟨rfl, -⟩ := Prod.mk.inj (Option.some.inj h)
    exact hsame

/-- What a check makes of the standing of the connection that it checks. -/
def checked (timeDeltaMinimum currentTime : U32) (standing : U32 × U32 × Bool) :
    U32 × U32 × Bool :=
  let strike := currentTime - standing.2.1 < timeDeltaMinimum
  let after := Watch.judged standing.1 strike
  (after, standing.2.1, standing.2.2 && !(strike && after = 3))

theorem standing_checkActivityTime {timeDeltaMinimum currentTime : U32}
    (h : s.checkActivityTime c timeDeltaMinimum currentTime = some s') (d : κ) :
    s'.standing d = if d = c then
      (s.standing c).map (checked timeDeltaMinimum currentTime) else s.standing d := by
  obtain ⟨conn, hconn, h⟩ := Option.bind_eq_some_iff.mp h
  have hstanding : s.standing c =
      some (conn.mStrikeCount, conn.mLastActivityTime, conn.connected) := by
    rw [standing, hconn]
    rfl
  rw [hstanding, Option.map_some, checked, Watch.judged]
  dsimp only
  by_cases hstrike : currentTime - conn.mLastActivityTime < timeDeltaMinimum
  · rw [if_pos hstrike] at h
    rw [if_pos hstrike, decide_eq_true hstrike, Bool.true_and]
    by_cases hthird : conn.mStrikeCount + 1 = 3
    · have hself : (s.setConnection c { conn with mStrikeCount := conn.mStrikeCount + 1 }).connections c =
          some { conn with mStrikeCount := conn.mStrikeCount + 1 } := Function.update_self ..
      rw [if_pos hthird, disconnect, hself, Option.map_some] at h
      rw [← Option.some.inj h, standing_setConnection, hthird]
      by_cases hd : d = c
      · rw [if_pos hd, if_pos hd]
        simp
      · rw [if_neg hd, if_neg hd]
        exact (standing_setConnection s c d _).trans (if_neg hd)
    · rw [if_neg hthird] at h
      rw [← Option.some.inj h, standing_setConnection, decide_eq_false hthird]
      simp
  · rw [if_neg hstrike] at h
    rw [if_neg hstrike, decide_eq_false hstrike, Bool.false_and, Bool.not_false, Bool.and_true]
    by_cases hpos : conn.mStrikeCount > 0
    · rw [if_pos hpos] at h
      rw [if_pos hpos, ← Option.some.inj h, standing_setConnection]
    · rw [if_neg hpos] at h
      rw [if_neg hpos, ← Option.some.inj h]
      by_cases hd : d = c
      · rw [if_pos hd, hd, hstanding]
      · rw [if_neg hd]

theorem standing_request {requestId : U32} {host : κ} {internalAddress : IPAddress}
    {connectionParameters : List UInt8} {gcr : ℕ} {currentTime : U32}
    (h : s.c2mRequestArrangedConnection c requestId (some host) internalAddress
      connectionParameters gcr currentTime = some (s', sent)) (d : κ) :
    s'.standing d = if d = c then
      (s.standing c).map (checked 2000 currentTime) else s.standing d := by
  obtain ⟨conn, hconn, h⟩ := Option.bind_eq_some_iff.mp h
  obtain ⟨hostConn, hhost, h⟩ := Option.bind_eq_some_iff.mp h
  obtain ⟨s₁, hcheck, h⟩ := Option.bind_eq_some_iff.mp h
  obtain ⟨rfl, -⟩ := Prod.mk.inj (Option.some.inj h)
  -- the lists that the request is put into do not matter
  have hlisted := standing_setRequests (s := { s with
      requests := Function.update s.requests gcr
        (some ⟨some c, some host, requestId, conn.mLastQueryId, currentTime⟩) }) hconn
    (conn.mLastQueryId + 1) (conn.mConnectList ++ [gcr])
  have hboth := (standing_setRequests hhost hostConn.mLastQueryId
    (hostConn.mConnectList ++ [gcr])).trans hlisted
  exact (standing_checkActivityTime hcheck d).trans (congrArg (fun standing =>
    if d = c then (standing c).map (checked 2000 currentTime) else standing d) hboth)

theorem standing_destroy (s : MasterServer κ) (c d : κ) :
    (s.destroy c).standing d = if d = c then none else s.standing d := by
  rw [destroy, standing]
  dsimp only
  by_cases h : d = c
  · rw [if_pos h, h, Function.update_self]
    rfl
  · rw [if_neg h, Function.update_of_ne h]
    rfl

theorem standing_disconnect (h : s.disconnect c = some s') (d : κ) :
    s'.standing d = if d = c then
      (s.standing c).map (fun standing => (standing.1, standing.2.1, false)) else s.standing d := by
  obtain ⟨conn, hconn, rfl⟩ := Option.map_eq_some_iff.mp h
  have hstanding : s.standing c =
      some (conn.mStrikeCount, conn.mLastActivityTime, conn.connected) := by
    rw [standing, hconn]
    rfl
  rw [standing_setConnection, hstanding]
  rfl

end frames

end MasterServer

namespace Watch

section runs

variable {κ : Type} [DecidableEq κ] {w w' : Watch κ} {c d : κ} {a : Action κ}

/-- What a step does to the standing and the calls of a connection. -/
inductive Change (w w' : Watch κ) (c : κ) : Prop where
  | kept (calls : w'.calls c = w.calls c)
      (standing : w'.server.standing c = w.server.standing c)
  | made (calls : w'.calls c = []) (standing : w'.server.standing c = some (0, 0, true))
  | dropped (calls : w'.calls c = w.calls c) (standing : w'.server.standing c =
      (w.server.standing c).map fun standing => (standing.1, standing.2.1, false))
  | destroyed (calls : w'.calls c = w.calls c) (standing : w'.server.standing c = none)
  | checked (timeDeltaMinimum currentTime : U32) (standing : U32 × U32 × Bool)
      (before : w.server.standing c = some standing)
      (after : w'.server.standing c =
        some (MasterServer.checked timeDeltaMinimum currentTime standing))
      (calls : w'.calls c = ⟨timeDeltaMinimum, currentTime, standing.1,
        (MasterServer.checked timeDeltaMinimum currentTime standing).1,
        standing.2.2 && !(MasterServer.checked timeDeltaMinimum currentTime standing).2.2⟩ ::
          w.calls c)

/-- A check of a connection that exists is noted down, and no other connection changes. -/
theorem change_record {timeDeltaMinimum currentTime : U32} {s' : MasterServer κ}
    (h : ∀ e, s'.standing e = if e = d then
      (w.server.standing d).map (MasterServer.checked timeDeltaMinimum currentTime)
      else w.server.standing e) (hd : (w.server.standing d).isSome) (c : κ) :
    Change w (w.record d timeDeltaMinimum currentTime s') c := by
  by_cases hc : c = d
  · subst hc
    obtain ⟨standing, hstanding⟩ := Option.isSome_iff_exists.mp hd
    have hafter := h c
    rw [if_pos rfl, hstanding, Option.map_some] at hafter
    refine .checked timeDeltaMinimum currentTime standing hstanding hafter ?_
    rw [record]
    dsimp only
    rw [Function.update_self, MasterServer.strikes, MasterServer.strikes, MasterServer.inList,
      MasterServer.inList, hstanding, hafter]
    rfl
  · refine .kept ?_ ?_
    · exact Function.update_of_ne hc ..
    · exact (h c).trans (if_neg hc)

theorem step_change (h : w.step a = some w') (c : κ) : Change w w' c := by
  cases a with
  | updateServerStatus d mIsGameServer currentTime =>
    obtain ⟨s', hupdate, rfl⟩ := Option.map_eq_some_iff.mp h
    cases mIsGameServer with
    | false =>
      rw [if_neg Bool.false_ne_true, ← (Option.some.inj hupdate : w.server = s')]
      exact .kept rfl rfl
    | true =>
      rw [if_pos rfl]
      obtain ⟨conn, hconn, -⟩ := Option.bind_eq_some_iff.mp hupdate
      refine change_record (MasterServer.standing_checkActivityTime hupdate) ?_ c
      rw [MasterServer.standing, hconn]
      rfl
  | rpc a =>
    obtain ⟨⟨s', sent⟩, hact, rfl⟩ := Option.map_eq_some_iff.mp h
    cases a with
    | connect d address mLastQueryId =>
      rw [MasterServer.act] at hact
      split at hact
      · obtain ⟨rfl, -⟩ := Prod.mk.inj (Option.some.inj hact)
        dsimp only
        by_cases hc : c = d
        · refine .made ?_ ?_
          · rw [hc]
            exact Function.update_self ..
          · exact (MasterServer.standing_setConnection w.server d c _).trans (if_pos hc)
        · refine .kept ?_ ?_
          · exact Function.update_of_ne hc ..
          · exact (MasterServer.standing_setConnection w.server d c _).trans (if_neg hc)
      · cases hact
    | request d requestId host internalAddress connectionParameters gcr currentTime =>
      rw [MasterServer.act] at hact
      split at hact
      · cases host with
        | none =>
          obtain ⟨rfl, -⟩ := Prod.mk.inj (Option.some.inj hact)
          exact .kept rfl rfl
        | some host =>
          obtain ⟨conn, hconn, -⟩ := Option.bind_eq_some_iff.mp hact
          refine change_record (MasterServer.standing_request hact) ?_ c
          rw [MasterServer.standing, hconn]
          rfl
      · cases hact
    | accept d requestId internalAddress connectionData =>
      obtain ⟨conn, -, hanswer⟩ := Option.bind_eq_some_iff.mp hact
      exact .kept rfl (congrFun (MasterServer.standing_answerRequest hanswer) c)
    | reject d requestId rejectData =>
      exact .kept rfl (congrFun (MasterServer.standing_answerRequest hact) c)
    | disconnect d =>
      obtain ⟨s₁, hdisconnect, heq⟩ := Option.map_eq_some_iff.mp hact
      obtain ⟨rfl, -⟩ := Prod.mk.inj heq
      have hstanding := MasterServer.standing_disconnect hdisconnect c
      by_cases hc : c = d
      · rw [if_pos hc, ← hc] at hstanding
        exact .dropped rfl hstanding
      · rw [if_neg hc] at hstanding
        exact .kept rfl hstanding
    | destroy d =>
      rw [MasterServer.act] at hact
      split at hact
      · obtain ⟨rfl, -⟩ := Prod.mk.inj (Option.some.inj hact)
        have hstanding := MasterServer.standing_destroy w.server d c
        by_cases hc : c = d
        · rw [if_pos hc] at hstanding
          exact .destroyed rfl hstanding
        · rw [if_neg hc] at hstanding
          exact .kept rfl hstanding
      · cases hact

/-- The strikes after each call are the ones before the next, down to none at first. -/
def Chained : List Call → U32 → Prop
  | [], strikes => strikes = 0
  | call :: earlier, strikes => strikes = call.after ∧ Chained earlier call.before

/-- The activity of a connection that exists is at zero for ever, and one that is still in the list
has had less than three strikes all along. -/
structure Sound (w : Watch κ) (c : κ) : Prop where
  judged : ∀ call ∈ w.calls c,
    call.after = judged call.before (call.currentTime < call.timeDeltaMinimum)
  out : ∀ call ∈ w.calls c, call.out = true → call.currentTime < call.timeDeltaMinimum
  live : ∀ strikes time connected, w.server.standing c = some (strikes, time, connected) →
    time = 0 ∧ Chained (w.calls c) strikes ∧
      (connected = true → strikes < 3 ∧ ∀ call ∈ w.calls c, call.before < 3)

omit [DecidableEq κ] in
/-- The third strike takes a connection out of the list. -/
theorem judged_lt {strikes : U32} {strike : Prop} [Decidable strike] (hfew : strikes < 3)
    (hstays : (!(decide strike && decide (judged strikes strike = 3))) = true) :
    judged strikes strike < 3 := by
  rw [judged] at *
  by_cases hstrike : strike
  · rw [if_pos hstrike] at *
    have hne : strikes + 1 ≠ 3 := by simpa [hstrike] using hstays
    bv_omega
  · rw [if_neg hstrike]
    split_ifs <;> bv_omega

omit [DecidableEq κ] in
theorem Sound.start : Sound (start : Watch κ) c where
  judged := nofun
  out := nofun
  live := nofun

omit [DecidableEq κ] in
theorem Sound.change (h : Sound w c) (hchange : Change w w' c) : Sound w' c := by
  cases hchange with
  | kept calls standing =>
    refine ⟨calls ▸ h.judged, calls ▸ h.out, ?_⟩
    rw [calls, standing]
    exact h.live
  | made calls standing =>
    refine ⟨by rw [calls]; nofun, by rw [calls]; nofun, fun strikes time connected heq => ?_⟩
    rw [standing] at heq
    obtain ⟨rfl, hrest⟩ := Prod.mk.inj (Option.some.inj heq)
    obtain ⟨rfl, rfl⟩ := Prod.mk.inj hrest
    rw [calls]
    exact ⟨rfl, rfl, fun _ => ⟨by decide, nofun⟩⟩
  | dropped calls standing =>
    refine ⟨calls ▸ h.judged, calls ▸ h.out, fun strikes time connected heq => ?_⟩
    rw [standing] at heq
    obtain ⟨⟨strikes', time', connected'⟩, hbefore, heq⟩ := Option.map_eq_some_iff.mp heq
    obtain ⟨rfl, hrest⟩ := Prod.mk.inj heq
    obtain ⟨rfl, rfl⟩ := Prod.mk.inj hrest
    obtain ⟨htime, hchained, -⟩ := h.live _ _ _ hbefore
    rw [calls]
    exact ⟨htime, hchained, nofun⟩
  | destroyed calls standing =>
    refine ⟨calls ▸ h.judged, calls ▸ h.out, fun strikes time connected heq => ?_⟩
    rw [standing] at heq
    cases heq
  | checked timeDeltaMinimum currentTime standing before after calls =>
    obtain ⟨strikes, time, connected⟩ := standing
    obtain ⟨rfl, hchained, hconnected⟩ := h.live _ _ _ before
    have hzero : currentTime - 0 = currentTime := BitVec.sub_zero currentTime
    rw [MasterServer.checked] at after calls
    dsimp only at after calls
    simp only [hzero] at after calls
    refine ⟨?_, ?_, fun strikes' time' connected' heq => ?_⟩
    · rw [calls, List.forall_mem_cons]
      exact ⟨rfl, h.judged⟩
    · rw [calls, List.forall_mem_cons]
      refine ⟨fun hout => ?_, h.out⟩
      by_contra hstrike
      simp [hstrike] at hout
    · rw [after] at heq
      obtain ⟨rfl, hrest⟩ := Prod.mk.inj (Option.some.inj heq)
      obtain ⟨rfl, rfl⟩ := Prod.mk.inj hrest
      rw [calls, List.forall_mem_cons]
      refine ⟨rfl, ⟨rfl, hchained⟩, fun hin => ?_⟩
      obtain ⟨hbefore, hstays⟩ := Bool.and_eq_true_iff.mp hin
      obtain ⟨hfew, hcalls⟩ := hconnected hbefore
      exact ⟨judged_lt hfew hstays, hfew, hcalls⟩

theorem sound_of_run {as : List (Action κ)} (hrun : Run step Ordered start as w) (c : κ) :
    Sound w c :=
  hrun.invariant (I := fun w => Sound w c)
    (fun _ _ _ h _ hstep => h.change (step_change hstep c)) .start

theorem judged_succ_ne (before : U32) : judged before True ≠ judged before False := by
  rw [judged, judged, if_pos trivial, if_neg not_false]
  split_ifs <;> bv_omega

/-- The calls are judged rightly exactly if they are sensed rightly. -/
theorem judged_iff_sensed {calls : List Call} (h : ∀ call ∈ calls,
    call.after = judged call.before (call.currentTime < call.timeDeltaMinimum)) :
    Judged calls ↔ Sensed calls := by
  induction calls with
  | nil => exact Iff.rfl
  | cons call earlier ih =>
    rw [List.forall_mem_cons] at h
    obtain ⟨hcall, hearlier⟩ := h
    rw [Judged, Sensed, ih hearlier]
    refine and_congr_left' ?_
    have hne := judged_succ_ne call.before
    by_cases hstrike : call.currentTime < call.timeDeltaMinimum
    · have hafter : call.after = judged call.before True := by
        rw [hcall, judged, judged, if_pos hstrike, if_pos trivial]
      rw [hafter, iff_true_left hstrike]
      constructor
      · intro hjudged
        by_contra hsoon
        exact hne (hjudged.2 hsoon)
      · exact fun hsoon => ⟨fun _ => rfl, fun hnot => absurd hsoon hnot⟩
    · have hafter : call.after = judged call.before False := by
        rw [hcall, judged, judged, if_neg hstrike, if_neg not_false]
      rw [hafter, iff_false_left hstrike]
      constructor
      · exact fun hjudged hsoon => hne (hjudged.1 hsoon).symm
      · exact fun hsoon => ⟨fun hnot => absurd hnot hsoon, fun _ => rfl⟩

/-- A patient connection has had no strike. -/
theorem patient_slow {calls : List Call} (hsensed : Sensed calls) (hpatient : Patient calls) :
    ∀ call ∈ calls, ¬call.currentTime < call.timeDeltaMinimum := by
  induction calls with
  | nil => nofun
  | cons call earlier ih =>
    rw [List.forall_mem_cons]
    exact ⟨fun hstrike => hpatient.1 (hsensed.1.mp hstrike), ih hsensed.2 hpatient.2⟩

end runs

end Watch

end TNL
