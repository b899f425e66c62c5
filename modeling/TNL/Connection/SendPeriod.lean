import TNL.Connection.PacketRate
import TNL.Library.Allowance

/-!
# The send period of a connection

A connection that is not adaptive sends a data packet when its period has passed since
the last one. What it is late is a credit for the next packets, of at most a second.
The credit is taken before it is known whether there is something to send, and the
time of the last packet stays when there is not, so the same delay is credited again.
-/
namespace TNL
open Library PacketRate

/-- What decides when a connection sends. -/
structure SendTimer where
  connectionAdaptive : Bool
  connectionRemoteAdaptive : Bool
  mLocalRate : NetRate
  mRemoteRate : NetRate
  mCurrentPacketSendPeriod : U32
  mLastUpdateTime : U32
  mSendDelayCredit : U32
  deriving DecidableEq

/-- A call of `checkPacketSend`, with the answers it gets. -/
structure SendCall where
  force : Bool
  curTime : U32
  windowFull : Bool
  isDataToTransmit : Bool
  deriving DecidableEq

namespace SendTimer

def isAdaptive (c : SendTimer) : Bool := c.connectionAdaptive || c.connectionRemoteAdaptive

def computeNegotiatedRate (c : SendTimer) : SendTimer :=
  { c with
    mCurrentPacketSendPeriod :=
      if c.mLocalRate.minPacketSendPeriod > c.mRemoteRate.minPacketRecvPeriod then
        c.mLocalRate.minPacketSendPeriod
      else c.mRemoteRate.minPacketRecvPeriod }

/-- The state the constructor leaves. -/
def constructed : SendTimer :=
  computeNegotiatedRate
    { connectionAdaptive := false, connectionRemoteAdaptive := false, mLocalRate := defaultRate
      mRemoteRate := defaultRate, mCurrentPacketSendPeriod := 0, mLastUpdateTime := 0
      mSendDelayCredit := 0 }

def setIsAdaptive (c : SendTimer) : SendTimer := { c with connectionAdaptive := true }

def setFixedRateParameters (c : SendTimer) (rate : NetRate) : SendTimer :=
  computeNegotiatedRate { c with connectionAdaptive := false, mLocalRate := rate }

def readPacketRateInfo (c : SendTimer) : Option RateInfo → SendTimer
  | none => c
  | some .adaptive => { c with connectionRemoteAdaptive := true }
  | some (.fixed rate) => computeNegotiatedRate { c with mRemoteRate := rate }

/-- The delay that is left when the period is paid, at most a second. -/
def nextCredit (c : SendTimer) (curTime : U32) : U32 :=
  let mSendDelayCredit :=
    curTime - (c.mLastUpdateTime + c.mCurrentPacketSendPeriod - c.mSendDelayCredit)
  if mSendDelayCredit > 1000 then 1000 else mSendDelayCredit

/-- The end of the call: the packet, unless the window is full or there is nothing to send. -/
def transmit (c : SendTimer) (call : SendCall) : SendTimer × Bool :=
  if call.windowFull || !call.isDataToTransmit then (c, false)
  else ({ c with mLastUpdateTime := call.curTime }, true)

/-- The state after a call, and whether it sent a data packet. -/
def checkPacketSend (c : SendTimer) (call : SendCall) : SendTimer × Bool :=
  if !call.force && !c.isAdaptive then
    if call.curTime - c.mLastUpdateTime + c.mSendDelayCredit < c.mCurrentPacketSendPeriod then
      (c, false)
    else
      transmit { c with mSendDelayCredit := c.nextCredit call.curTime } call
  else
    transmit c call

/-- A call that has nothing to send, past the period, while the credit is below its cap. -/
def RaisesCredit (c : SendTimer) (call : SendCall) : Prop :=
  (call.windowFull = true ∨ call.isDataToTransmit = false) ∧
    c.mCurrentPacketSendPeriod < call.curTime - c.mLastUpdateTime ∧ c.mSendDelayCredit < 1000

instance (c : SendTimer) (call : SendCall) : Decidable (c.RaisesCredit call) := by
  unfold RaisesCredit
  infer_instance

end SendTimer

/-- A connection and the latest time it was called at. -/
structure TimedSender where
  timer : SendTimer
  now : ℕ

/-- What happens to a connection. -/
inductive SenderAction where
  | checkPacketSend (call : SendCall)
  | setIsAdaptive
  | setFixedRateParameters (rate : NetRate)
  | readPacketRateInfo (info : Option RateInfo)

namespace TimedSender

def constructed : TimedSender := ⟨SendTimer.constructed, 0⟩

/-- A call at a time that is not before the last one. -/
def check (s : TimedSender) (call : SendCall) : Option TimedSender :=
  if s.now ≤ call.curTime.toNat ∧ call.curTime.toNat < 2 ^ 31 then
    some ⟨(s.timer.checkPacketSend call).1, call.curTime.toNat⟩
  else none

def step (s : TimedSender) : SenderAction → Option TimedSender
  | .checkPacketSend call => s.check call
  | .setIsAdaptive => some { s with timer := s.timer.setIsAdaptive }
  | .setFixedRateParameters rate => some { s with timer := s.timer.setFixedRateParameters rate }
  | .readPacketRateInfo info => some { s with timer := s.timer.readPacketRateInfo info }

/-- The times at which the calls send data packets. -/
def dataTimes (s : TimedSender) (calls : List SendCall) : List ℕ :=
  spendTimes check (fun s call => (s.timer.checkPacketSend call).2) (·.curTime.toNat) s calls

/-- The last packet is not later than the last call, and the credit is at most its cap. -/
structure Sound (s : TimedSender) : Prop where
  updated : s.timer.mLastUpdateTime.toNat ≤ s.now
  credit : s.timer.mSendDelayCredit.toNat ≤ 1000

end TimedSender

namespace SendTimer

variable {c : SendTimer} {call : SendCall}

/-- No value of the elapsed time or of the credit goes round. -/
theorem nextCredit_toNat {curTime : U32} (htime : curTime.toNat < 2 ^ 31)
    (hlast : c.mLastUpdateTime.toNat ≤ curTime.toNat) (hcredit : c.mSendDelayCredit.toNat ≤ 1000)
    (hpast : ¬ curTime - c.mLastUpdateTime + c.mSendDelayCredit < c.mCurrentPacketSendPeriod) :
    (c.nextCredit curTime).toNat = min 1000
      (curTime.toNat - c.mLastUpdateTime.toNat + c.mSendDelayCredit.toNat -
        c.mCurrentPacketSendPeriod.toNat) ∧
      c.mCurrentPacketSendPeriod.toNat ≤
        curTime.toNat - c.mLastUpdateTime.toNat + c.mSendDelayCredit.toNat := by
  have hsub : (curTime - c.mLastUpdateTime).toNat = curTime.toNat - c.mLastUpdateTime.toNat := by
    bv_omega
  have hsum : (curTime - c.mLastUpdateTime + c.mSendDelayCredit).toNat =
      curTime.toNat - c.mLastUpdateTime.toNat + c.mSendDelayCredit.toNat := by
    bv_omega
  have hperiod : c.mCurrentPacketSendPeriod.toNat ≤
      curTime.toNat - c.mLastUpdateTime.toNat + c.mSendDelayCredit.toNat := by
    rw [← hsum]
    exact Nat.not_lt.mp hpast
  have hleft : (curTime -
      (c.mLastUpdateTime + c.mCurrentPacketSendPeriod - c.mSendDelayCredit)).toNat =
      curTime.toNat - c.mLastUpdateTime.toNat + c.mSendDelayCredit.toNat -
        c.mCurrentPacketSendPeriod.toNat := by
    bv_omega
  refine ⟨?_, hperiod⟩
  rw [nextCredit]
  split
  case isTrue hcap =>
    have hcap' : 1000 < (curTime -
        (c.mLastUpdateTime + c.mCurrentPacketSendPeriod - c.mSendDelayCredit)).toNat := hcap
    rw [hleft] at hcap'
    exact (Nat.min_eq_left hcap'.le).symm
  case isFalse hcap =>
    have hcap' : ¬ 1000 < (curTime -
        (c.mLastUpdateTime + c.mCurrentPacketSendPeriod - c.mSendDelayCredit)).toNat := hcap
    rw [hleft] at hcap' ⊢
    exact (Nat.min_eq_right (Nat.not_lt.mp hcap')).symm

/-- Everything a call can do. -/
theorem checkPacketSend_cases (c : SendTimer) (call : SendCall) :
    c.checkPacketSend call = (c, false) ∨
    ((call.force || c.isAdaptive) = true ∧
      c.checkPacketSend call = ({ c with mLastUpdateTime := call.curTime }, true)) ∨
    (¬ call.curTime - c.mLastUpdateTime + c.mSendDelayCredit < c.mCurrentPacketSendPeriod ∧
      (call.windowFull = true ∨ call.isDataToTransmit = false) ∧
      c.checkPacketSend call =
        ({ c with mSendDelayCredit := c.nextCredit call.curTime }, false)) ∨
    (¬ call.curTime - c.mLastUpdateTime + c.mSendDelayCredit < c.mCurrentPacketSendPeriod ∧
      c.checkPacketSend call =
        ({ c with mSendDelayCredit := c.nextCredit call.curTime
                  mLastUpdateTime := call.curTime }, true)) := by
  have hstopped : (call.windowFull || !call.isDataToTransmit) = true ↔
      call.windowFull = true ∨ call.isDataToTransmit = false := by simp
  cases hfree : call.force || c.isAdaptive with
  | true =>
    have hcheck : c.checkPacketSend call = c.transmit call := by
      rw [checkPacketSend, ← Bool.not_or, hfree, Bool.not_true, if_neg Bool.false_ne_true]
    rw [hcheck, transmit]
    split
    case isTrue => exact Or.inl rfl
    case isFalse => exact Or.inr (Or.inl ⟨rfl, rfl⟩)
  | false =>
    rw [checkPacketSend, ← Bool.not_or, hfree, Bool.not_false, if_pos rfl]
    split
    case isTrue => exact Or.inl rfl
    case isFalse hpast =>
      rw [transmit]
      split
      case isTrue hstop => exact Or.inr (Or.inr (Or.inl ⟨hpast, hstopped.mp hstop, rfl⟩))
      case isFalse => exact Or.inr (Or.inr (Or.inr ⟨hpast, rfl⟩))

end SendTimer

namespace TimedSender

variable {s t : TimedSender} {call : SendCall}

theorem check_eq (h : s.check call = some t) :
    (s.now ≤ call.curTime.toNat ∧ call.curTime.toNat < 2 ^ 31) ∧
      t = ⟨(s.timer.checkPacketSend call).1, call.curTime.toNat⟩ := by
  rw [check] at h
  split at h
  case isTrue htime => exact ⟨htime, (Option.some.inj h).symm⟩
  case isFalse => cases h

theorem Sound.check (hs : s.Sound) (h : s.check call = some t) : t.Sound := by
  obtain ⟨⟨hlater, htime⟩, rfl⟩ := check_eq h
  have hlast := hs.updated.trans hlater
  rcases s.timer.checkPacketSend_cases call with hcheck | ⟨-, hcheck⟩ | ⟨hpast, -, hcheck⟩ |
    ⟨hpast, hcheck⟩
  · rw [hcheck]
    exact ⟨hlast, hs.credit⟩
  · rw [hcheck]
    exact ⟨le_rfl, hs.credit⟩
  · rw [hcheck]
    have hnext := SendTimer.nextCredit_toNat htime hlast hs.credit hpast
    exact ⟨hlast, hnext.1.trans_le (Nat.min_le_left ..)⟩
  · rw [hcheck]
    have hnext := SendTimer.nextCredit_toNat htime hlast hs.credit hpast
    exact ⟨le_rfl, hnext.1.trans_le (Nat.min_le_left ..)⟩

theorem Sound.step (hs : s.Sound) {action : SenderAction} (h : s.step action = some t) :
    t.Sound := by
  cases action with
  | checkPacketSend call => exact hs.check h
  | setIsAdaptive =>
    obtain rfl := Option.some.inj h
    exact ⟨hs.updated, hs.credit⟩
  | setFixedRateParameters rate =>
    obtain rfl := Option.some.inj h
    exact ⟨hs.updated, hs.credit⟩
  | readPacketRateInfo info =>
    obtain rfl := Option.some.inj h
    match info with
    | none => exact ⟨hs.updated, hs.credit⟩
    | some .adaptive => exact ⟨hs.updated, hs.credit⟩
    | some (.fixed rate) => exact ⟨hs.updated, hs.credit⟩

theorem sound_of_run {actions : List SenderAction}
    (h : Run step (fun _ _ => True) constructed actions s) : s.Sound :=
  h.invariant (fun _ _ _ hs _ taken => hs.step taken) ⟨Nat.zero_le _, Nat.zero_le _⟩

/-- What holds where a fixed-rate connection with a period is called. -/
structure FixedRate (period : U32) (s : TimedSender) : Prop where
  sound : s.Sound
  fixed : s.timer.isAdaptive = false
  period_eq : s.timer.mCurrentPacketSendPeriod = period

/-- A call without force that does not raise the credit for nothing. -/
def KeepsCredit (s : TimedSender) (call : SendCall) : Prop :=
  call.force = false ∧ ¬ s.timer.RaisesCredit call

instance (s : TimedSender) (call : SendCall) : Decidable (s.KeepsCredit call) := by
  unfold KeepsCredit
  infer_instance

variable {period : U32}

theorem FixedRate.check (hs : s.FixedRate period) (h : s.check call = some t) :
    t.FixedRate period := by
  refine ⟨hs.sound.check h, ?_, ?_⟩
  all_goals obtain ⟨-, rfl⟩ := check_eq h
  · rcases s.timer.checkPacketSend_cases call with hcheck | ⟨-, hcheck⟩ | ⟨-, -, hcheck⟩ |
      ⟨-, hcheck⟩ <;> rw [hcheck] <;> exact hs.fixed
  · rcases s.timer.checkPacketSend_cases call with hcheck | ⟨-, hcheck⟩ | ⟨-, -, hcheck⟩ |
      ⟨-, hcheck⟩ <;> rw [hcheck] <;> exact hs.period_eq

/-- A data packet costs a period, and the credit is what is left of the time since the last. -/
theorem allowance (period : U32) :
    Allowance check (fun s call => s.FixedRate period ∧ s.KeepsCredit call)
      (fun s call => (s.timer.checkPacketSend call).2) (·.curTime.toNat)
      (·.timer.mLastUpdateTime.toNat) (·.timer.mSendDelayCredit.toNat) period.toNat 1000 where
  elapsed := by
    rintro s call t ⟨hs, -⟩ h
    exact hs.sound.updated.trans (check_eq h).1.1
  spend := by
    rintro s call t ⟨hs, hforce, -⟩ h hsent
    obtain ⟨⟨hlater, htime⟩, rfl⟩ := check_eq h
    have hlast := hs.sound.updated.trans hlater
    rcases s.timer.checkPacketSend_cases call with hcheck | ⟨hfree, -⟩ | ⟨-, -, hcheck⟩ |
      ⟨hpast, hcheck⟩
    · rw [hcheck] at hsent
      cases hsent
    · rw [hforce, hs.fixed] at hfree
      cases hfree
    · rw [hcheck] at hsent
      cases hsent
    · obtain ⟨hnext, hperiod⟩ :=
        SendTimer.nextCredit_toNat htime hlast hs.sound.credit hpast
      rw [hs.period_eq] at hnext hperiod
      rw [hcheck]
      refine ⟨rfl, ?_, hnext.trans_le (Nat.min_le_left ..)⟩
      have hle := hnext.trans_le (Nat.min_le_right ..)
      show (s.timer.nextCredit call.curTime).toNat + period.toNat ≤ _
      omega
  idle := by
    rintro s call t ⟨hs, hforce, hkeeps⟩ h hsent
    obtain ⟨⟨hlater, htime⟩, rfl⟩ := check_eq h
    have hlast := hs.sound.updated.trans hlater
    rcases s.timer.checkPacketSend_cases call with hcheck | ⟨hfree, -⟩ | ⟨hpast, hstop, hcheck⟩ |
      ⟨-, hcheck⟩
    · rw [hcheck]
      exact ⟨rfl, le_rfl⟩
    · rw [hforce, hs.fixed] at hfree
      cases hfree
    · obtain ⟨hnext, hperiod⟩ :=
        SendTimer.nextCredit_toNat htime hlast hs.sound.credit hpast
      rw [hcheck]
      refine ⟨rfl, ?_⟩
      show (s.timer.nextCredit call.curTime).toNat ≤ s.timer.mSendDelayCredit.toNat
      have hsub : (call.curTime - s.timer.mLastUpdateTime).toNat =
          call.curTime.toNat - s.timer.mLastUpdateTime.toNat := by bv_omega
      have hnot : ¬ (s.timer.mCurrentPacketSendPeriod.toNat <
          (call.curTime - s.timer.mLastUpdateTime).toNat ∧
          s.timer.mSendDelayCredit.toNat < 1000) := fun hraise =>
        hkeeps ⟨hstop, hraise.1, hraise.2⟩
      rw [hnext]
      omega
    · rw [hcheck] at hsent
      cases hsent

/-- In every run of calls none of which raises the credit for nothing, an interval of a
length has at most the data packets that the length and a second pay for, and one more. -/
theorem dataPackets_le {actions : List SenderAction} {calls : List SendCall}
    (hreach : Run step (fun _ _ => True) constructed actions s)
    (hfixed : s.timer.isAdaptive = false) (hperiod : 0 < s.timer.mCurrentPacketSendPeriod.toNat)
    (hcalls : Run check KeepsCredit s calls t) (start length : ℕ) :
    countWithin (s.dataTimes calls) start length ≤
      (length + 1000) / s.timer.mCurrentPacketSendPeriod.toNat + 1 := by
  have hstart : s.FixedRate s.timer.mCurrentPacketSendPeriod := ⟨sound_of_run hreach, hfixed, rfl⟩
  have hrun := hcalls.with_invariant (fun _ _ _ hs _ taken => FixedRate.check hs taken) hstart
  have hsorted := Allowance.sorted_of_run TimedSender.now (·.curTime.toNat) (fun taken => by
    obtain ⟨⟨hlater, -⟩, rfl⟩ := check_eq taken
    exact ⟨hlater, rfl⟩) hcalls
  exact (allowance _).countWithin_le hperiod hrun hsorted.1 start length

/-- A connection that sends a packet every half second. -/
def halfSecond : TimedSender :=
  ⟨SendTimer.constructed.setFixedRateParameters ⟨500, 500, 2500, 2500⟩, 0⟩

theorem reaches_halfSecond : Run step (fun _ _ => True) constructed
    [.setFixedRateParameters ⟨500, 500, 2500, 2500⟩] halfSecond :=
  .cons trivial rfl (.nil _)

/-- A call with nothing to send at the time the next packet is due takes no credit. -/
theorem dataPackets_le_halfSecond :
    countWithin (halfSecond.dataTimes [⟨false, 600, false, true⟩, ⟨false, 1000, false, false⟩,
      ⟨false, 1200, false, true⟩]) 600 600 ≤ (600 + 1000) / 500 + 1 := by
  have hcalls : Run check KeepsCredit halfSecond [⟨false, 600, false, true⟩,
      ⟨false, 1000, false, false⟩, ⟨false, 1200, false, true⟩] _ :=
    .cons (by decide) rfl (.cons (by decide) rfl (.cons (by decide) rfl (.nil _)))
  exact dataPackets_le reaches_halfSecond rfl (by decide) hcalls 600 600

/-- Three packets at once leave no credit, and a packet is due every half second. -/
def lateCalls : List SendCall :=
  [⟨false, 2000, false, true⟩, ⟨false, 2000, false, true⟩, ⟨false, 2000, false, true⟩,
    ⟨false, 2750, false, false⟩, ⟨false, 2750, false, false⟩, ⟨false, 2750, false, false⟩,
    ⟨false, 2750, false, true⟩, ⟨false, 2750, false, true⟩, ⟨false, 2750, false, true⟩]

/-- Three calls without data credit the same delay three times: six packets in 750 ms. -/
theorem lateCalls_exceed : ¬ ∀ (actions : List SenderAction) (s t : TimedSender)
    (calls : List SendCall), Run step (fun _ _ => True) constructed actions s →
      s.timer.isAdaptive = false → 0 < s.timer.mCurrentPacketSendPeriod.toNat →
      Run check (fun _ call => call.force = false) s calls t → ∀ start length : ℕ,
        countWithin (s.dataTimes calls) start length ≤
          (length + 1000) / s.timer.mCurrentPacketSendPeriod.toNat + 1 := by
  intro hclaim
  have hexec : ∃ t, exec check halfSecond lateCalls = some t := Option.isSome_iff_exists.mp rfl
  obtain ⟨t, ht⟩ := hexec
  have hcalls : Run check (fun _ call => call.force = false) halfSecond lateCalls t :=
    Run.of_exec_of_forall (fun _ => by decide) ht
  have hle := hclaim _ _ _ _ reaches_halfSecond rfl (by decide) hcalls 2000 750
  revert hle
  decide

end TimedSender

end TNL
