import TNL.Connection.Header
import TNL.Library.Run

/-!
# When a silent connection times out

`checkTimeout` sends a ping each time a ping timeout has passed, and gives up after a
number of pings. What is heard from the peer starts the count again: zero stands for a
start time that the next check has still to set. On an adaptive connection the timeout
and the number depend on whether packets are not acknowledged.
-/
namespace TNL
open Library

/-- The fields that pings use, beside the window. -/
structure PingConnection (ν : Type*) where
  window : NetConnection ν
  isNetworkConnection : Bool
  isAdaptive : Bool
  mPingTimeout : U32
  mPingRetryCount : U32
  mPingSendCount : U32
  mLastPingSendTime : U32

namespace PingConnection

def adaptiveInitialPingTimeout : U32 := 60000
def adaptivePingRetryCount : U32 := 4
def defaultPingTimeout : U32 := 5000
def defaultPingRetryCount : U32 := 10
def adaptiveUnackedSentPingTimeout : U32 := 3000

variable {ν : Type*}

/-- The constructor and `setPingTimeouts`. -/
def new (window : NetConnection ν) (isNetworkConnection isAdaptive : Bool)
    (mPingTimeout mPingRetryCount : U32) : PingConnection ν :=
  ⟨window, isNetworkConnection, isAdaptive, mPingTimeout, mPingRetryCount, 0, 0⟩

def hasUnackedSentPackets (c : PingConnection ν) : Bool :=
  c.window.mLastSendSeq ≠ c.window.mHighestAckedSeq

def timeout (c : PingConnection ν) : U32 :=
  if c.isAdaptive then
    if c.hasUnackedSentPackets then adaptiveUnackedSentPingTimeout
    else if c.mPingSendCount = 0 then adaptiveInitialPingTimeout
    else c.mPingTimeout
  else c.mPingTimeout

def timeoutCount (c : PingConnection ν) : U32 :=
  if c.isAdaptive && !c.hasUnackedSentPackets then adaptivePingRetryCount else c.mPingRetryCount

/-- The ping packet itself leaves these fields as they are. -/
def checkTimeout (c : PingConnection ν) (time : U32) : Bool × PingConnection ν :=
  if !c.isNetworkConnection then (false, c)
  else
    let c := { c with
      mLastPingSendTime := if c.mLastPingSendTime = 0 then time else c.mLastPingSendTime }
    if time - c.mLastPingSendTime > c.timeout then
      if c.mPingSendCount ≥ c.timeoutCount then (true, c)
      else (false, { c with
        mLastPingSendTime := time
        mPingSendCount := c.mPingSendCount + 1 })
    else (false, c)

def keepAlive (c : PingConnection ν) : PingConnection ν :=
  { c with
    mLastPingSendTime := 0
    mPingSendCount := 0 }

/-- `checkPacketSend` with something to transmit. -/
def checkPacketSend (c : PingConnection ν) (cwnd : Option ℕ) (note : ν) : PingConnection ν :=
  if c.window.windowFull cwnd then c
  else { c with window := (c.window.writeDataPacket note).2 }

def readPacketHeader (c : PingConnection ν) (ctx : NetConnection.ReadContext) (h : PacketHeader) :
    Option (PingConnection ν × Bool) :=
  (c.window.readPacketHeader ctx h).map fun received =>
    if c.window.headerAccepted ctx h then
      (({ c with window := received.conn } : PingConnection ν).keepAlive, true)
    else ({ c with window := received.conn }, false)

end PingConnection

inductive PingAction (ν : Type*)
  | checkTimeout (time : U32)
  | keepAlive
  | checkPacketSend (cwnd : Option ℕ) (note : ν)
  | readPacketHeader (ctx : NetConnection.ReadContext) (h : PacketHeader)

/-- A connection with the checks made on it: the last one, the first one after the last
`keepAlive`, and those after it that returned true. -/
structure PingRun (ν : Type*) where
  conn : PingConnection ν
  lastCheck : Option U32
  firstCheck : Option U32
  timedOut : List U32

namespace PingRun

variable {ν : Type*}

def start (conn : PingConnection ν) : PingRun ν := ⟨conn, none, none, []⟩

def checkTimeout (w : PingRun ν) (time : U32) : PingRun ν :=
  let (result, conn) := w.conn.checkTimeout time
  { conn := conn
    lastCheck := some time
    firstCheck := some (w.firstCheck.getD time)
    timedOut := if result then w.timedOut ++ [time] else w.timedOut }

/-- Something has been heard from the peer. -/
def heard (w : PingRun ν) (conn : PingConnection ν) : PingRun ν :=
  { w with
    conn := conn
    firstCheck := none
    timedOut := [] }

def step (w : PingRun ν) : PingAction ν → Option (PingRun ν)
  | .checkTimeout time => some (w.checkTimeout time)
  | .keepAlive => some (w.heard w.conn.keepAlive)
  | .checkPacketSend cwnd note => some { w with conn := w.conn.checkPacketSend cwnd note }
  | .readPacketHeader ctx h => (w.conn.readPacketHeader ctx h).map fun (conn, accepted) =>
    if accepted then w.heard conn else { w with conn := conn }

/-- The times of the checks are not zero, do not go back, and are at most `q` apart. -/
def Sampled (q : ℕ) (w : PingRun ν) : PingAction ν → Prop
  | .checkTimeout time =>
    time ≠ 0 ∧ ∀ last, w.lastCheck = some last → last ≤ time ∧ time.toNat ≤ last.toNat + q
  | _ => True

end PingRun

namespace PingConnection

variable {ν : Type*} {c : PingConnection ν} {time : U32}

/-- When the time since the last ping began. -/
def pingStart (c : PingConnection ν) (time : U32) : U32 :=
  if c.mLastPingSendTime = 0 then time else c.mLastPingSendTime

/-- What a check does: nothing yet, one more ping, or the end of the connection. -/
theorem checkTimeout_cases (hnetwork : c.isNetworkConnection = true) (time : U32) :
    time - c.pingStart time ≤ c.timeout ∧
      c.checkTimeout time = (false, { c with mLastPingSendTime := c.pingStart time }) ∨
    time - c.pingStart time > c.timeout ∧ c.mPingSendCount < c.timeoutCount ∧
      c.checkTimeout time = (false, { c with
        mLastPingSendTime := time
        mPingSendCount := c.mPingSendCount + 1 }) ∨
    time - c.pingStart time > c.timeout ∧ c.timeoutCount ≤ c.mPingSendCount ∧
      c.checkTimeout time = (true, { c with mLastPingSendTime := c.pingStart time }) := by
  rw [checkTimeout, hnetwork, Bool.not_true, if_neg Bool.false_ne_true]
  by_cases htime : time - c.pingStart time > c.timeout
  · right
    by_cases hcount : c.mPingSendCount ≥ c.timeoutCount
    · exact .inr ⟨htime, hcount, (if_pos htime).trans (if_pos hcount)⟩
    · exact .inl ⟨htime, BitVec.not_le.mp hcount, (if_pos htime).trans (if_neg hcount)⟩
  · exact .inl ⟨BitVec.not_lt.mp htime, if_neg htime⟩

end PingConnection

namespace PingRun
open PingConnection

variable {ν : Type*} {w : PingRun ν} {time first : U32} {spacing count q : ℕ}

/-- Since the first check, pings were sent with more than `spacing` between them, at most `count` of
them, and no check returned true before one more such time had passed. -/
structure Silence (spacing count : ℕ) (w : PingRun ν) (first : U32) : Prop where
  begun : w.conn.mLastPingSendTime ≠ 0
  counted : w.conn.mPingSendCount.toNat ≤ count
  spaced : first.toNat + w.conn.mPingSendCount.toNat * (spacing + 1) ≤
    w.conn.mLastPingSendTime.toNat
  checked : ∃ last, w.lastCheck = some last ∧ w.conn.mLastPingSendTime ≤ last
  late : ∀ u ∈ w.timedOut, first.toNat + (count + 1) * spacing < u.toNat

/-- The peer has been heard, and nothing has been checked since. -/
structure Fresh (w : PingRun ν) : Prop where
  unset : w.conn.mLastPingSendTime = 0
  none_sent : w.conn.mPingSendCount = 0
  none_timedOut : w.timedOut = []

structure Counted (spacing count : ℕ) (w : PingRun ν) : Prop where
  fresh : w.firstCheck = none → w.Fresh
  silence : ∀ first, w.firstCheck = some first → w.Silence spacing count first

/-- The first check begins the count. -/
theorem Fresh.checkTimeout (h : w.Fresh) (hnetwork : w.conn.isNetworkConnection = true)
    (htime : time ≠ 0) : (w.checkTimeout time).Silence spacing count time ∧
      (w.checkTimeout time).conn = { w.conn with mLastPingSendTime := time } ∧
      (w.checkTimeout time).timedOut = [] := by
  have hstart : w.conn.pingStart time = time := if_pos h.unset
  have hcheck : w.conn.checkTimeout time = (false, { w.conn with mLastPingSendTime := time }) := by
    rcases checkTimeout_cases hnetwork time with ⟨_, hcheck⟩ | ⟨hlate, _⟩ | ⟨hlate, _⟩
    · rwa [hstart] at hcheck
    · rw [hstart, BitVec.sub_self] at hlate
      bv_omega
    · rw [hstart, BitVec.sub_self] at hlate
      bv_omega
  have hzero : w.conn.mPingSendCount.toNat = 0 := by rw [h.none_sent]; rfl
  rw [PingRun.checkTimeout, hcheck]
  refine ⟨⟨htime, ?_, ?_, ⟨time, rfl, BitVec.le_refl time⟩, ?_⟩, rfl, h.none_timedOut⟩
  · change w.conn.mPingSendCount.toNat ≤ count
    omega
  · change time.toNat + w.conn.mPingSendCount.toNat * (spacing + 1) ≤ time.toNat
    rw [hzero]
    omega
  · change ∀ u ∈ w.timedOut, _
    rw [h.none_timedOut]
    exact fun u hu => absurd hu List.not_mem_nil

/-- A later check keeps the count if it times out late enough only. -/
theorem Silence.checkTimeout (h : w.Silence spacing count first)
    (hnetwork : w.conn.isNetworkConnection = true) (hsampled : Sampled q w (.checkTimeout time))
    (hspacing : spacing ≤ w.conn.timeout.toNat)
    (hcount : w.conn.mPingSendCount < w.conn.timeoutCount → w.conn.mPingSendCount.toNat < count)
    (hlate : time - w.conn.mLastPingSendTime > w.conn.timeout →
      w.conn.timeoutCount ≤ w.conn.mPingSendCount →
      first.toNat + (count + 1) * spacing < time.toNat) :
    (w.checkTimeout time).Silence spacing count first := by
  obtain ⟨htime, hlast⟩ := hsampled
  obtain ⟨last, hchecked, hle⟩ := h.checked
  obtain ⟨hmono, _⟩ := hlast last hchecked
  have hstart : w.conn.pingStart time = w.conn.mLastPingSendTime := if_neg h.begun
  have hpast : w.conn.mLastPingSendTime ≤ time := BitVec.le_trans hle hmono
  rcases checkTimeout_cases hnetwork time with ⟨_, hcheck⟩ | ⟨hping, hmore, hcheck⟩ |
    ⟨hping, hall, hcheck⟩
  · rw [hstart] at hcheck
    rw [PingRun.checkTimeout, hcheck]
    exact ⟨h.begun, h.counted, h.spaced, ⟨time, rfl, hpast⟩, h.late⟩
  · rw [hstart] at hping
    rw [PingRun.checkTimeout, hcheck]
    have hsmall := hcount hmore
    have hlt := w.conn.timeoutCount.isLt
    have hnext : (w.conn.mPingSendCount + 1).toNat = w.conn.mPingSendCount.toNat + 1 := by
      bv_omega
    have hgap : w.conn.mLastPingSendTime.toNat + spacing < time.toNat := by bv_omega
    refine ⟨htime, ?_, ?_, ⟨time, rfl, BitVec.le_refl time⟩, h.late⟩
    · change (w.conn.mPingSendCount + 1).toNat ≤ count
      omega
    · change first.toNat + (w.conn.mPingSendCount + 1).toNat * (spacing + 1) ≤ time.toNat
      have hspaced := h.spaced
      rw [hnext, Nat.succ_mul]
      omega
  · rw [hstart] at hping hcheck
    rw [PingRun.checkTimeout, hcheck]
    refine ⟨h.begun, h.counted, h.spaced, ⟨time, rfl, hpast⟩, fun u hu => ?_⟩
    rcases List.mem_append.mp hu with hold | hnew
    · exact h.late u hold
    · rw [List.mem_singleton.mp hnew]
      exact hlate hping hall

/-- The count does not depend on the window. -/
theorem Silence.window (h : w.Silence spacing count first) (window : NetConnection ν) :
    Silence spacing count { w with conn := { w.conn with window := window } } first :=
  ⟨h.begun, h.counted, h.spaced, h.checked, h.late⟩

theorem Counted.window (h : w.Counted spacing count) (window : NetConnection ν) :
    Counted spacing count { w with conn := { w.conn with window := window } } where
  fresh hfirst := ⟨(h.fresh hfirst).unset, (h.fresh hfirst).none_sent, (h.fresh hfirst).none_timedOut⟩
  silence first hfirst := (h.silence first hfirst).window window

theorem counted_heard (w : PingRun ν) (conn : PingConnection ν) :
    Counted spacing count (w.heard conn.keepAlive) :=
  ⟨fun _ => ⟨rfl, rfl, rfl⟩, fun _ hfirst => by cases hfirst⟩

/-- A step is a check, or starts the count again, or leaves it and changes at most the window. -/
theorem step_cases {a : PingAction ν} {t : PingRun ν} (hstep : w.step a = some t) :
    (∃ time, a = .checkTimeout time ∧ t = w.checkTimeout time) ∨
    (∃ conn : PingConnection ν, (∃ window, conn = { w.conn with window := window }) ∧
      t = w.heard conn.keepAlive) ∨
    (∃ cwnd note, t = { w with conn := w.conn.checkPacketSend cwnd note }) ∨ t = w := by
  cases a with
  | checkTimeout time => exact .inl ⟨time, rfl, (Option.some.inj hstep).symm⟩
  | keepAlive => exact .inr (.inl ⟨w.conn, ⟨w.conn.window, rfl⟩, (Option.some.inj hstep).symm⟩)
  | checkPacketSend cwnd note =>
    exact .inr (.inr (.inl ⟨cwnd, note, (Option.some.inj hstep).symm⟩))
  | readPacketHeader ctx h =>
    obtain ⟨⟨conn, accepted⟩, hread, rfl⟩ := Option.map_eq_some_iff.mp hstep
    obtain ⟨received, hreceived, heq⟩ := Option.map_eq_some_iff.mp hread
    by_cases haccepted : w.conn.window.headerAccepted ctx h = true
    · rw [if_pos haccepted] at heq
      cases heq
      exact .inr (.inl ⟨_, ⟨received.conn, rfl⟩, rfl⟩)
    · rw [if_neg haccepted] at heq
      cases heq
      rw [NetConnection.readPacketHeader, if_neg haccepted] at hreceived
      cases hreceived
      exact .inr (.inr (.inr rfl))

theorem checkPacketSend_window (c : PingConnection ν) (cwnd : Option ℕ) (note : ν) :
    ∃ window, c.checkPacketSend cwnd note = { c with window := window } := by
  rw [checkPacketSend]
  split
  · exact ⟨c.window, rfl⟩
  · exact ⟨_, rfl⟩

/-! ## Without adaption -/

/-- A check has returned true in time, or the pings go out in time. -/
def Prompt (mPingTimeout mPingRetryCount q : ℕ) (w : PingRun ν) (first : U32) : Prop :=
  (∃ u ∈ w.timedOut, u.toNat ≤ first.toNat + (mPingRetryCount + 1) * (mPingTimeout + q)) ∨
    (∀ last, w.lastCheck = some last →
      last.toNat ≤ w.conn.mLastPingSendTime.toNat + mPingTimeout) ∧
    w.conn.mLastPingSendTime.toNat ≤
      first.toNat + w.conn.mPingSendCount.toNat * (mPingTimeout + q)

structure Fixed (mPingTimeout mPingRetryCount : U32) (q : ℕ) (w : PingRun ν) : Prop where
  network : w.conn.isNetworkConnection = true
  fixed : w.conn.isAdaptive = false
  timeout : w.conn.mPingTimeout = mPingTimeout
  retries : w.conn.mPingRetryCount = mPingRetryCount
  counted : w.Counted mPingTimeout.toNat mPingRetryCount.toNat
  prompt : ∀ first, w.firstCheck = some first →
    w.Prompt mPingTimeout.toNat mPingRetryCount.toNat q first

variable {mPingTimeout mPingRetryCount : U32}

theorem checkTimeout_conn (hnetwork : w.conn.isNetworkConnection = true) (time : U32) :
    ∃ start count, (w.checkTimeout time).conn = { w.conn with
      mLastPingSendTime := start
      mPingSendCount := count } := by
  rw [PingRun.checkTimeout]
  rcases checkTimeout_cases hnetwork time with ⟨_, hcheck⟩ | ⟨_, _, hcheck⟩ | ⟨_, _, hcheck⟩
  all_goals
    rw [hcheck]
    exact ⟨_, _, rfl⟩

theorem Counted.of_silence (h : (w.checkTimeout time).Silence spacing count (w.firstCheck.getD time)) :
    (w.checkTimeout time).Counted spacing count where
  fresh hfirst := by cases hfirst
  silence first hfirst := by
    obtain rfl := Option.some.inj hfirst
    exact h

theorem Prompt.checkTimeout {P N : ℕ} (h : w.Prompt P N q first) (hsilence : w.Silence P N first)
    (hnetwork : w.conn.isNetworkConnection = true) (htimeout : w.conn.timeout.toNat = P)
    (hretries : w.conn.timeoutCount.toNat = N) (hsampled : Sampled q w (.checkTimeout time)) :
    (w.checkTimeout time).Prompt P N q first := by
  obtain ⟨_, hlast⟩ := hsampled
  obtain ⟨last, hchecked, hle⟩ := hsilence.checked
  obtain ⟨hmono, hgap⟩ := hlast last hchecked
  have hstart : w.conn.pingStart time = w.conn.mLastPingSendTime := if_neg hsilence.begun
  have hpast : w.conn.mLastPingSendTime ≤ time := BitVec.le_trans hle hmono
  rcases h with ⟨u, hu, hbound⟩ | ⟨hwithin, hpings⟩
  · refine .inl ⟨u, ?_, hbound⟩
    rw [PingRun.checkTimeout]
    dsimp only
    split
    · exact List.mem_append_left _ hu
    · exact hu
  · have htime : time.toNat ≤ w.conn.mLastPingSendTime.toNat + P + q :=
      hgap.trans (Nat.add_le_add_right (hwithin last hchecked) q)
    rcases checkTimeout_cases hnetwork time with ⟨hwait, hcheck⟩ | ⟨hping, hmore, hcheck⟩ |
      ⟨hping, hall, hcheck⟩
    · rw [hstart] at hwait hcheck
      rw [PingRun.checkTimeout, hcheck]
      refine .inr ⟨fun t ht => ?_, hpings⟩
      obtain rfl := Option.some.inj ht
      change time.toNat ≤ w.conn.mLastPingSendTime.toNat + P
      bv_omega
    · have hlt := w.conn.timeoutCount.isLt
      have hnext : (w.conn.mPingSendCount + 1).toNat = w.conn.mPingSendCount.toNat + 1 := by
        bv_omega
      rw [PingRun.checkTimeout, hcheck]
      refine .inr ⟨fun t ht => ?_, ?_⟩
      · obtain rfl := Option.some.inj ht
        exact Nat.le_add_right ..
      · change time.toNat ≤ first.toNat + (w.conn.mPingSendCount + 1).toNat * (P + q)
        rw [hnext, Nat.succ_mul]
        omega
    · rw [PingRun.checkTimeout, hcheck]
      refine .inl ⟨time, List.mem_append_right _ (List.mem_singleton_self time), ?_⟩
      have hcounted : w.conn.mPingSendCount.toNat * (P + q) ≤ N * (P + q) :=
        Nat.mul_le_mul_right _ hsilence.counted
      rw [Nat.succ_mul]
      omega

theorem Fixed.checkTimeout (h : w.Fixed mPingTimeout mPingRetryCount q)
    (hsampled : Sampled q w (.checkTimeout time)) :
    (w.checkTimeout time).Fixed mPingTimeout mPingRetryCount q := by
  have htimeout : w.conn.timeout = mPingTimeout := by
    rw [PingConnection.timeout, h.fixed, h.timeout]
    rfl
  have hretries : w.conn.timeoutCount = mPingRetryCount := by
    rw [timeoutCount, h.fixed, h.retries]
    rfl
  have hboth : (w.checkTimeout time).Silence mPingTimeout.toNat mPingRetryCount.toNat
      (w.firstCheck.getD time) ∧ (w.checkTimeout time).Prompt mPingTimeout.toNat
        mPingRetryCount.toNat q (w.firstCheck.getD time) := by
    cases hfirst : w.firstCheck with
    | none =>
      obtain ⟨hsilence, hconn, _⟩ := (h.counted.fresh hfirst).checkTimeout h.network hsampled.1
      refine ⟨hsilence, .inr ⟨fun last hlast => ?_, ?_⟩⟩
      · obtain rfl := Option.some.inj hlast
        rw [hconn]
        exact Nat.le_add_right ..
      · rw [hconn]
        exact Nat.le_add_right ..
    | some first =>
      have hsilence := h.counted.silence first hfirst
      constructor
      · refine hsilence.checkTimeout h.network hsampled (htimeout ▸ Nat.le_refl _) ?_ ?_
        · rw [hretries]
          exact BitVec.lt_def.mp
        · intro hping hall
          rw [htimeout] at hping
          rw [hretries] at hall
          obtain ⟨_, hlast⟩ := hsampled
          obtain ⟨last, hchecked, hle⟩ := hsilence.checked
          have hpast := BitVec.le_trans hle (hlast last hchecked).1
          have hspaced := hsilence.spaced
          have hcounted := hsilence.counted
          have heq : w.conn.mPingSendCount.toNat = mPingRetryCount.toNat :=
            Nat.le_antisymm hcounted (BitVec.le_def.mp hall)
          rw [heq, Nat.mul_succ] at hspaced
          rw [Nat.succ_mul]
          bv_omega
      · exact (h.prompt first hfirst).checkTimeout hsilence h.network (congrArg _ htimeout)
          (congrArg _ hretries) hsampled
  obtain ⟨start, count, hconn⟩ := checkTimeout_conn h.network time
  constructor
  · rw [hconn]
    exact h.network
  · rw [hconn]
    exact h.fixed
  · rw [hconn]
    exact h.timeout
  · rw [hconn]
    exact h.retries
  · exact .of_silence hboth.1
  · intro first hfirst
    obtain rfl := Option.some.inj hfirst
    exact hboth.2

theorem Fixed.heard (h : w.Fixed mPingTimeout mPingRetryCount q) (window : NetConnection ν) :
    (w.heard ({ w.conn with window := window } : PingConnection ν).keepAlive).Fixed
      mPingTimeout mPingRetryCount q :=
  ⟨h.network, h.fixed, h.timeout, h.retries, counted_heard w _, fun _ hfirst => by cases hfirst⟩

theorem Fixed.window (h : w.Fixed mPingTimeout mPingRetryCount q) (window : NetConnection ν) :
    Fixed mPingTimeout mPingRetryCount q { w with conn := { w.conn with window := window } } :=
  ⟨h.network, h.fixed, h.timeout, h.retries, h.counted.window window, h.prompt⟩

theorem Fixed.step {a : PingAction ν} {t : PingRun ν} (h : w.Fixed mPingTimeout mPingRetryCount q)
    (hsampled : Sampled q w a) (hstep : w.step a = some t) :
    t.Fixed mPingTimeout mPingRetryCount q := by
  rcases step_cases hstep with ⟨time, rfl, rfl⟩ | ⟨conn, ⟨window, rfl⟩, rfl⟩ | ⟨cwnd, note, rfl⟩ | rfl
  · exact h.checkTimeout hsampled
  · exact h.heard window
  · obtain ⟨window, hwindow⟩ := checkPacketSend_window w.conn cwnd note
    rw [hwindow]
    exact h.window window
  · exact h

/-! ## With adaption -/

/-- With nothing to acknowledge, the first ping is sent after a minute. -/
def Idle (w : PingRun ν) (first : U32) : Prop :=
  w.conn.hasUnackedSentPackets = true ∨ w.conn.mPingSendCount = 0 ∨
    first.toNat + 60000 < w.conn.mLastPingSendTime.toNat

structure Adaptive (w : PingRun ν) : Prop where
  network : w.conn.isNetworkConnection = true
  adaptive : w.conn.isAdaptive = true
  timeout : w.conn.mPingTimeout = defaultPingTimeout
  retries : w.conn.mPingRetryCount = defaultPingRetryCount
  counted : w.Counted adaptiveUnackedSentPingTimeout.toNat defaultPingRetryCount.toNat
  idle : ∀ first, w.firstCheck = some first → w.Idle first

theorem Adaptive.timeout_eq (h : w.Adaptive) :
    w.conn.hasUnackedSentPackets = true ∧ w.conn.timeout = 3000 ∧ w.conn.timeoutCount = 10 ∨
    w.conn.hasUnackedSentPackets = false ∧ w.conn.mPingSendCount = 0 ∧ w.conn.timeout = 60000 ∧
      w.conn.timeoutCount = 4 ∨
    w.conn.hasUnackedSentPackets = false ∧ w.conn.mPingSendCount ≠ 0 ∧ w.conn.timeout = 5000 ∧
      w.conn.timeoutCount = 4 := by
  rw [PingConnection.timeout, timeoutCount, h.adaptive, h.timeout, h.retries, Bool.true_and,
    if_pos rfl]
  cases hunacked : w.conn.hasUnackedSentPackets with
  | true => exact .inl ⟨rfl, rfl, rfl⟩
  | false =>
    by_cases hnone : w.conn.mPingSendCount = 0
    · exact .inr (.inl ⟨rfl, hnone, if_pos hnone, rfl⟩)
    · exact .inr (.inr ⟨rfl, hnone, if_neg hnone, rfl⟩)

theorem Adaptive.silence (h : w.Adaptive) (hfirst : w.firstCheck = some first)
    (hsampled : Sampled q w (.checkTimeout time)) :
    (w.checkTimeout time).Silence adaptiveUnackedSentPingTimeout.toNat defaultPingRetryCount.toNat
      first := by
  have hsilence := h.counted.silence first hfirst
  obtain ⟨_, hlast⟩ := id hsampled
  obtain ⟨last, hchecked, hle⟩ := hsilence.checked
  have hpast := BitVec.le_trans hle (hlast last hchecked).1
  have hspaced := hsilence.spaced
  have hcounted := hsilence.counted
  have hspacing : adaptiveUnackedSentPingTimeout.toNat = 3000 := rfl
  have hcount : defaultPingRetryCount.toNat = 10 := rfl
  have hidle := h.idle first hfirst
  rw [hspacing, hcount] at hsilence ⊢
  rw [hspacing] at hspaced
  rw [hcount] at hcounted
  rcases h.timeout_eq with ⟨hunacked, htimeout, hretries⟩ | ⟨hunacked, hnone, htimeout, hretries⟩ |
    ⟨hunacked, hsome, htimeout, hretries⟩
  · refine hsilence.checkTimeout h.network hsampled (by rw [htimeout]; decide) ?_ ?_
    · rw [hretries]
      bv_omega
    · rw [htimeout, hretries]
      intro hping hall
      have hten : w.conn.mPingSendCount.toNat = 10 := by bv_omega
      rw [hten] at hspaced
      bv_omega
  · refine hsilence.checkTimeout h.network hsampled (by rw [htimeout]; decide) ?_ ?_
    · rw [hretries]
      bv_omega
    · rw [hretries, hnone]
      intro _ hall
      exact absurd hall (by decide)
  · have hminute : first.toNat + 60000 < w.conn.mLastPingSendTime.toNat := by
      rcases hidle with hunacked' | hnone | hminute
      · rw [hunacked] at hunacked'
        cases hunacked'
      · exact absurd hnone hsome
      · exact hminute
    refine hsilence.checkTimeout h.network hsampled (by rw [htimeout]; decide) ?_ ?_
    · rw [hretries]
      bv_omega
    · intro _ _
      bv_omega

theorem Adaptive.idle_checkTimeout (h : w.Adaptive) (hfirst : w.firstCheck = some first)
    (hsampled : Sampled q w (.checkTimeout time)) : (w.checkTimeout time).Idle first := by
  have hsilence := h.counted.silence first hfirst
  obtain ⟨_, hlast⟩ := id hsampled
  obtain ⟨last, hchecked, hle⟩ := hsilence.checked
  have hpast := BitVec.le_trans hle (hlast last hchecked).1
  have hfirst_le : first.toNat ≤ w.conn.mLastPingSendTime.toNat :=
    (Nat.le_add_right ..).trans hsilence.spaced
  have hstart : w.conn.pingStart time = w.conn.mLastPingSendTime := if_neg hsilence.begun
  have hidle := h.idle first hfirst
  rcases checkTimeout_cases h.network time with ⟨_, hcheck⟩ | ⟨hping, _, hcheck⟩ | ⟨_, _, hcheck⟩
  · rw [hstart] at hcheck
    rw [PingRun.checkTimeout, hcheck]
    exact hidle
  · rw [hstart] at hping
    rw [PingRun.checkTimeout, hcheck]
    rcases h.timeout_eq with ⟨hunacked, _⟩ | ⟨_, _, htimeout, _⟩ | ⟨hunacked, hsome, _, _⟩
    · exact .inl hunacked
    · refine .inr (.inr ?_)
      rw [htimeout] at hping
      change first.toNat + 60000 < time.toNat
      bv_omega
    · rcases hidle with hunacked' | hnone | hminute
      · exact .inl hunacked'
      · exact absurd hnone hsome
      · refine .inr (.inr ?_)
        change first.toNat + 60000 < time.toNat
        bv_omega
  · rw [hstart] at hcheck
    rw [PingRun.checkTimeout, hcheck]
    exact hidle

theorem Adaptive.checkTimeout (h : w.Adaptive) (hsampled : Sampled q w (.checkTimeout time)) :
    (w.checkTimeout time).Adaptive := by
  have hboth : (w.checkTimeout time).Silence adaptiveUnackedSentPingTimeout.toNat
      defaultPingRetryCount.toNat (w.firstCheck.getD time) ∧
        (w.checkTimeout time).Idle (w.firstCheck.getD time) := by
    cases hfirst : w.firstCheck with
    | none =>
      have hfresh := h.counted.fresh hfirst
      obtain ⟨hsilence, hconn, _⟩ := hfresh.checkTimeout h.network hsampled.1
      refine ⟨hsilence, .inr (.inl ?_)⟩
      rw [hconn]
      exact hfresh.none_sent
    | some first => exact ⟨h.silence hfirst hsampled, h.idle_checkTimeout hfirst hsampled⟩
  obtain ⟨start, count, hconn⟩ := checkTimeout_conn h.network time
  constructor
  · rw [hconn]
    exact h.network
  · rw [hconn]
    exact h.adaptive
  · rw [hconn]
    exact h.timeout
  · rw [hconn]
    exact h.retries
  · exact .of_silence hboth.1
  · intro first hfirst
    obtain rfl := Option.some.inj hfirst
    exact hboth.2

/-- A data packet is sent with less than a window not acknowledged, so that it counts. -/
theorem hasUnackedSentPackets_checkPacketSend (c : PingConnection ν) (cwnd : Option ℕ) (note : ν) :
    c.checkPacketSend cwnd note = c ∨
      (c.checkPacketSend cwnd note).hasUnackedSentPackets = true := by
  rw [checkPacketSend]
  by_cases hfull : c.window.windowFull cwnd = true
  · exact .inl (if_pos hfull)
  · right
    rw [if_neg hfull, hasUnackedSentPackets, decide_eq_true_iff]
    change c.window.mLastSendSeq + 1 ≠ c.window.mHighestAckedSeq
    intro heq
    have hmany : c.window.mLastSendSeq - c.window.mHighestAckedSeq ≥
        NetConnection.maxPacketWindowSize - 2 := by
      rw [NetConnection.maxPacketWindowSize]
      bv_omega
    exact hfull (if_pos hmany)

theorem Adaptive.checkPacketSend (h : w.Adaptive) (cwnd : Option ℕ) (note : ν) :
    Adaptive { w with conn := w.conn.checkPacketSend cwnd note } := by
  obtain ⟨window, hwindow⟩ := checkPacketSend_window w.conn cwnd note
  rcases hasUnackedSentPackets_checkPacketSend w.conn cwnd note with hsame | hunacked
  · rw [hsame]
    exact h
  · rw [hwindow] at hunacked ⊢
    exact ⟨h.network, h.adaptive, h.timeout, h.retries, h.counted.window window,
      fun _ _ => .inl hunacked⟩

theorem Adaptive.step {a : PingAction ν} {t : PingRun ν} (h : w.Adaptive) (hsampled : Sampled q w a)
    (hstep : w.step a = some t) : t.Adaptive := by
  rcases step_cases hstep with ⟨time, rfl, rfl⟩ | ⟨conn, ⟨window, rfl⟩, rfl⟩ | ⟨cwnd, note, rfl⟩ | rfl
  · exact h.checkTimeout hsampled
  · exact ⟨h.network, h.adaptive, h.timeout, h.retries, counted_heard w _,
      fun _ hfirst => by cases hfirst⟩
  · exact h.checkPacketSend cwnd note
  · exact h

variable {window : NetConnection ν} {as : List (PingAction ν)} {isAdaptive : Bool}

theorem counted_start : Counted spacing count (start (new window true isAdaptive mPingTimeout
    mPingRetryCount)) :=
  ⟨fun _ => ⟨rfl, rfl, rfl⟩, fun _ hfirst => by cases hfirst⟩

theorem fixed_of_run (h : Run step (Sampled q)
    (start (new window true false mPingTimeout mPingRetryCount)) as w) :
    w.Fixed mPingTimeout mPingRetryCount q :=
  h.invariant (fun _ _ _ hw => hw.step)
    ⟨rfl, rfl, rfl, rfl, counted_start, fun _ hfirst => by cases hfirst⟩

theorem adaptive_of_run (h : Run step (Sampled q)
    (start (new window true true defaultPingTimeout defaultPingRetryCount)) as w) : w.Adaptive :=
  h.invariant (fun _ _ _ hw => hw.step)
    ⟨rfl, rfl, rfl, rfl, counted_start, fun _ hfirst => by cases hfirst⟩

theorem Fixed.timedOut (h : w.Fixed mPingTimeout mPingRetryCount q)
    (hfirst : w.firstCheck = some first) {last : U32} (hlast : w.lastCheck = some last)
    (hlong : first.toNat + (mPingRetryCount.toNat + 1) * (mPingTimeout.toNat + q) < last.toNat) :
    ∃ u ∈ w.timedOut,
      u.toNat ≤ first.toNat + (mPingRetryCount.toNat + 1) * (mPingTimeout.toNat + q) := by
  rcases h.prompt first hfirst with htimedOut | ⟨hwithin, hpings⟩
  · exact htimedOut
  · have hsent : w.conn.mPingSendCount.toNat * (mPingTimeout.toNat + q) ≤
        mPingRetryCount.toNat * (mPingTimeout.toNat + q) :=
      Nat.mul_le_mul_right _ (h.counted.silence first hfirst).counted
    have hlate := hwithin last hlast
    rw [Nat.succ_mul] at hlong
    omega

theorem timedOut_eq_nil {c : PingConnection ν} (h : Run step (Sampled q) (start c) as w) :
    w.firstCheck = none → w.timedOut = [] := by
  refine h.invariant (I := fun w => w.firstCheck = none → w.timedOut = []) ?_ fun _ => rfl
  intro w a t hw _ hstep
  rcases step_cases hstep with ⟨time, rfl, rfl⟩ | ⟨conn, _, rfl⟩ | ⟨cwnd, note, rfl⟩ | rfl
  · exact fun hfirst => by cases hfirst
  · exact fun _ => rfl
  · exact hw
  · exact hw

/-- Without adaption a connection is given up neither before the peer has been silent for all its
pings, nor much later; with adaption, not in the first 33 seconds. -/
theorem timedOut_of_run (h : Run step (Sampled q)
    (start (new window true isAdaptive mPingTimeout mPingRetryCount)) as w) :
    (isAdaptive = false → ∀ first, w.firstCheck = some first →
      (∀ u ∈ w.timedOut,
        first.toNat + (mPingRetryCount.toNat + 1) * mPingTimeout.toNat < u.toNat) ∧
      ∀ last, w.lastCheck = some last →
        first.toNat + (mPingRetryCount.toNat + 1) * (mPingTimeout.toNat + q) < last.toNat →
        ∃ u ∈ w.timedOut,
          u.toNat ≤ first.toNat + (mPingRetryCount.toNat + 1) * (mPingTimeout.toNat + q)) ∧
    (isAdaptive = true → mPingTimeout = defaultPingTimeout →
      mPingRetryCount = defaultPingRetryCount → ∀ first, w.firstCheck = some first →
        ∀ u ∈ w.timedOut, first.toNat + 33000 < u.toNat) ∧
    (w.firstCheck = none → w.timedOut = []) := by
  refine ⟨?_, ?_, timedOut_eq_nil h⟩
  · rintro rfl first hfirst
    have hfixed := fixed_of_run h
    exact ⟨(hfixed.counted.silence first hfirst).late,
      fun last hlast hlong => hfixed.timedOut hfirst hlast hlong⟩
  · rintro rfl rfl rfl first hfirst
    exact ((adaptive_of_run h).counted.silence first hfirst).late

/-- Without retries a connection is given up by the first check that is late. -/
theorem timedOut_of_run_once : ∃ u ∈ (((start (new (.connected 0 0 : NetConnection Unit) true false
    10 0)).checkTimeout 1).checkTimeout 12).timedOut, 1 + (0 + 1) * 10 < u.toNat := by
  have hrun : Run step (Sampled 11) (start (new (.connected 0 0 : NetConnection Unit) true false 10 0))
      [.checkTimeout 1, .checkTimeout 12] _ :=
    .cons ⟨by decide, fun _ hlast => by cases hlast⟩ rfl
      (.cons ⟨by decide, fun _ hlast => by cases hlast; decide⟩ rfl (.nil _))
  exact ⟨12, by decide, ((timedOut_of_run hrun).1 rfl 1 rfl).1 12 (by decide)⟩

end PingRun

end TNL
