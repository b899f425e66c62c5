import TNL.Library.LossyLink
import TNL.Library.Run
import TNL.RPC.MethodDispatch

/-!
# Agreement on packet rates

A side that changes its mode or its rate says so in the next packet it writes, and
again in a later one if that packet is dropped. The peer's rate follows in the end,
but nothing clears the peer's flag once this side has been adaptive.
-/
namespace TNL
open Library

structure NetRate where
  minPacketSendPeriod : U32
  minPacketRecvPeriod : U32
  maxSendBandwidth : U32
  maxRecvBandwidth : U32
  deriving DecidableEq

namespace PacketRate

def defaultFixedBandwidth : U32 := 2500
def defaultFixedSendPeriod : U32 := 96
def maxFixedBandwidth : U32 := 65535
def maxFixedSendPeriod : U32 := 2047

def defaultRate : NetRate :=
  ⟨defaultFixedSendPeriod, defaultFixedSendPeriod, defaultFixedBandwidth, defaultFixedBandwidth⟩

/-- What is read of a value of a range that was written. -/
def rangedU32 (value rangeStart rangeEnd : U32) : U32 :=
  rangeStart + BitVec.ofNat 32
    ((value - rangeStart).toNat % 2 ^ (TypedStream.rangeBits rangeStart rangeEnd).toNat)

/-- What is read of a rate that was written. -/
def wireRate (rate : NetRate) : NetRate where
  maxRecvBandwidth := rangedU32 rate.maxRecvBandwidth 0 maxFixedBandwidth
  maxSendBandwidth := rangedU32 rate.maxSendBandwidth 0 maxFixedBandwidth
  minPacketRecvPeriod := rangedU32 rate.minPacketRecvPeriod 1 maxFixedSendPeriod
  minPacketSendPeriod := rangedU32 rate.minPacketSendPeriod 1 maxFixedSendPeriod

/-- The values of a rate are in the ranges they are written with. -/
def InRange (rate : NetRate) : Prop :=
  rate.maxRecvBandwidth ≤ maxFixedBandwidth ∧ rate.maxSendBandwidth ≤ maxFixedBandwidth ∧
    (1 ≤ rate.minPacketRecvPeriod ∧ rate.minPacketRecvPeriod ≤ maxFixedSendPeriod) ∧
    1 ≤ rate.minPacketSendPeriod ∧ rate.minPacketSendPeriod ≤ maxFixedSendPeriod

/-- What a packet says of a mode. -/
inductive RateInfo where
  | adaptive
  | fixed (rate : NetRate)
  deriving DecidableEq

/-- This side: its mode and its rate. -/
structure LocalRate where
  connectionAdaptive : Bool
  mLocalRate : NetRate
  mLocalRateChanged : Bool

/-- What the peer knows of them. -/
structure RemoteRate where
  connectionRemoteAdaptive : Bool
  mRemoteRate : NetRate

/-- What a packet says of the rate, in which case its note says that the rate was changed. -/
def writePacketRateInfo (side : LocalRate) : Option RateInfo × LocalRate :=
  (if side.mLocalRateChanged then
    some (if side.connectionAdaptive then .adaptive else .fixed (wireRate side.mLocalRate))
  else none, { side with mLocalRateChanged := false })

def readPacketRateInfo (peer : RemoteRate) : Option RateInfo → RemoteRate
  | none => peer
  | some .adaptive => { peer with connectionRemoteAdaptive := true }
  | some (.fixed rate) => { peer with mRemoteRate := rate }

def setIsAdaptive (side : LocalRate) : LocalRate :=
  { side with connectionAdaptive := true, mLocalRateChanged := true }

def setFixedRateParameters (side : LocalRate)
    (minPacketSendPeriod minPacketRecvPeriod maxSendBandwidth maxRecvBandwidth : U32) : LocalRate :=
  { side with
    connectionAdaptive := false
    mLocalRate := ⟨minPacketSendPeriod, minPacketRecvPeriod, maxSendBandwidth, maxRecvBandwidth⟩
    mLocalRateChanged := true }

def handleNotify (side : LocalRate) (rateChanged recvd : Bool) : LocalRate :=
  if rateChanged && !recvd then { side with mLocalRateChanged := true } else side

/-- The two sides, the packets between them, and what those that arrived said of the rate. -/
structure Rates where
  side : LocalRate
  peer : RemoteRate
  link : LossyLink (Option RateInfo)
  arrived : List RateInfo

inductive Action where
  | setIsAdaptive
  | setFixedRateParameters (minPacketSendPeriod minPacketRecvPeriod maxSendBandwidth
      maxRecvBandwidth : U32)
  | write
  | receive
  | lose
  | notify

def start : Rates := ⟨⟨false, defaultRate, true⟩, ⟨false, defaultRate⟩, .empty, []⟩

def step (s : Rates) : Action → Option Rates
  | .setIsAdaptive => some { s with side := PacketRate.setIsAdaptive s.side }
  | .setFixedRateParameters sendPeriod recvPeriod sendBandwidth recvBandwidth => some { s with
      side := PacketRate.setFixedRateParameters s.side sendPeriod recvPeriod sendBandwidth
        recvBandwidth }
  | .write =>
    let (info, side) := writePacketRateInfo s.side
    some { s with side := side, link := s.link.send info }
  | .receive => (s.link.settle true).map (fun (info, link) => { s with
      peer := readPacketRateInfo s.peer info
      link := link
      arrived := s.arrived ++ info.toList })
  | .lose => (s.link.settle false).map (fun (_, link) => { s with link := link })
  | .notify => (s.link.notify).map (fun ((info, recvd), link) => { s with
      side := handleNotify s.side info.isSome recvd
      link := link })

/-- Fixed rates are set within the ranges of the packets. -/
def SetsInRange (_ : Rates) : Action → Prop
  | .setFixedRateParameters sendPeriod recvPeriod sendBandwidth recvBandwidth =>
    InRange ⟨sendPeriod, recvPeriod, sendBandwidth, recvBandwidth⟩
  | _ => True

/-- The last change was told and no packet that tells of one is outstanding. -/
def Quiescent (s : Rates) : Prop :=
  s.side.mLocalRateChanged = false ∧ ∀ packet ∈ s.link.outstanding, packet.1 = none

/-- The peer knows the mode, and the rate if it is fixed. -/
def Agrees (s : Rates) : Prop :=
  s.peer.connectionRemoteAdaptive = s.side.connectionAdaptive ∧
    (s.side.connectionAdaptive = false → s.peer.mRemoteRate = s.side.mLocalRate)

/-! ### What a packet says is read -/

theorem rangedU32_eq {value rangeStart rangeEnd : U32}
    (h : (value - rangeStart).toNat < 2 ^ (TypedStream.rangeBits rangeStart rangeEnd).toNat) :
    rangedU32 value rangeStart rangeEnd = value := by
  rw [rangedU32, Nat.mod_eq_of_lt h, BitVec.ofNat_toNat, BitVec.setWidth_eq, BitVec.add_comm,
    BitVec.sub_add_cancel]

theorem wireRate_eq {rate : NetRate} (h : InRange rate) : wireRate rate = rate := by
  obtain ⟨hrecv, hsend, ⟨hrecvMin, hrecvMax⟩, hsendMin, hsendMax⟩ := h
  have hbandwidth : (TypedStream.rangeBits 0 maxFixedBandwidth).toNat = 16 := by decide
  have hperiod : (TypedStream.rangeBits 1 maxFixedSendPeriod).toNat = 11 := by decide
  have hbandwidthMax : maxFixedBandwidth = 65535 := rfl
  have hperiodMax : maxFixedSendPeriod = 2047 := rfl
  rw [hbandwidthMax] at hrecv hsend
  rw [hperiodMax] at hrecvMax hsendMax
  rw [wireRate, rangedU32_eq, rangedU32_eq, rangedU32_eq, rangedU32_eq]
  · rw [hbandwidth]
    bv_omega
  · rw [hbandwidth]
    bv_omega
  · rw [hperiod]
    bv_omega
  · rw [hperiod]
    bv_omega

/-! ### Runs -/

/-- What the next packet that tells of a change will say. -/
def current (side : LocalRate) : RateInfo :=
  if side.connectionAdaptive then .adaptive else .fixed (wireRate side.mLocalRate)

/-- The outstanding packets that tell of a change. -/
def changes (outstanding : List (Option RateInfo × Option Bool)) :
    List (RateInfo × Option Bool) :=
  outstanding.filterMap (fun packet => packet.1.map (·, packet.2))

/-- The last packet that tells of a change says what is current. If it is not outstanding any more
or is known to have arrived, it was the last one to arrive. -/
def LastTold (outstanding : List (Option RateInfo × Option Bool)) (arrived : List RateInfo)
    (info : RateInfo) : Prop :=
  match (changes outstanding).getLast? with
  | none => arrived.getLast? = some info
  | some (last, fate) => last = info ∧ (fate = some true → arrived.getLast? = some info)

structure Sound (s : Rates) : Prop where
  inRange : InRange s.side.mLocalRate
  flag : s.peer.connectionRemoteAdaptive = true ↔ .adaptive ∈ s.arrived
  rate : ∀ rate, s.arrived.getLast? = some (.fixed rate) → s.peer.mRemoteRate = rate
  told : s.side.mLocalRateChanged = false →
    LastTold s.link.outstanding s.arrived (current s.side)

variable {s t : Rates} {outstanding : List (Option RateInfo × Option Bool)}
  {arrived : List RateInfo} {info : RateInfo}

theorem changes_append (before after : List (Option RateInfo × Option Bool)) :
    changes (before ++ after) = changes before ++ changes after :=
  List.filterMap_append

/-- A packet that tells nothing does not matter. -/
theorem changes_append_none (before after : List (Option RateInfo × Option Bool))
    (fate : Option Bool) :
    changes (before ++ (none, fate) :: after) = changes (before ++ after) := by
  rw [changes_append, changes_append]
  rfl

theorem changes_append_some (before after : List (Option RateInfo × Option Bool))
    (fate : Option Bool) :
    changes (before ++ (some info, fate) :: after) =
      changes before ++ (info, fate) :: changes after :=
  changes_append ..

/-- The packets in flight that tell of a change. -/
theorem changes_inFlight (packets : List (Option RateInfo)) :
    ∀ change ∈ changes (packets.map (fun packet => (packet, none))), change.2 = none := by
  intro change hchange
  obtain ⟨packet, hpacket, hchange⟩ := List.mem_filterMap.mp hchange
  obtain ⟨info, -, rfl⟩ := List.mem_map.mp hpacket
  obtain ⟨_, -, rfl⟩ := Option.map_eq_some_iff.mp hchange
  rfl

theorem LastTold.write (info : RateInfo) :
    LastTold (outstanding ++ [(some info, none)]) arrived info := by
  rw [LastTold, changes_append_some]
  simp [changes]

theorem LastTold.settle {before : List (Option RateInfo × Option Bool)}
    {after : List (Option RateInfo)} {packet : Option RateInfo} (received : Bool)
    (h : LastTold (before ++ (packet, none) :: after.map (fun q => (q, none))) arrived info) :
    LastTold (before ++ (packet, some received) :: after.map (fun q => (q, none)))
      (if received then arrived ++ packet.toList else arrived) info := by
  cases packet with
  | none =>
    rw [LastTold, changes_append_none] at h ⊢
    rw [Option.toList_none, List.append_nil, ite_self]
    exact h
  | some last =>
    have hfate := changes_inFlight after
    rw [LastTold, changes_append_some] at h ⊢
    rcases List.eq_nil_or_concat (changes (after.map (fun q => (q, none)))) with
      hafter | ⟨init, change, hafter⟩
    · rw [hafter] at h ⊢
      simp only [List.getLast?_append, List.getLast?_singleton, Option.some_or] at h ⊢
      refine ⟨h.1, fun hreceived => ?_⟩
      cases hreceived
      simp [h.1]
    · rw [List.concat_eq_append] at hafter
      rw [hafter] at hfate
      rw [hafter, ← List.cons_append, ← List.append_assoc, List.getLast?_concat] at h ⊢
      obtain ⟨last, fate⟩ := change
      obtain rfl := hfate (last, fate) (List.mem_append_right _ List.mem_cons_self)
      exact ⟨h.1, nofun⟩

theorem LastTold.notify {packet : Option RateInfo} {received : Bool}
    (h : LastTold ((packet, some received) :: outstanding) arrived info)
    (hkept : (packet.isSome && !received) = false) : LastTold outstanding arrived info := by
  cases packet with
  | none => exact h
  | some last =>
    obtain rfl : received = true := by simpa using hkept
    have hcons : changes ((some last, some true) :: outstanding) =
        (last, some true) :: changes outstanding := rfl
    rw [LastTold, hcons] at h
    rw [LastTold]
    rcases List.eq_nil_or_concat (changes outstanding) with hnil | ⟨init, change, hconcat⟩
    · rw [hnil] at h ⊢
      exact h.2 rfl
    · rw [List.concat_eq_append] at hconcat
      rw [hconcat, ← List.cons_append, List.getLast?_concat] at h
      rw [hconcat, List.getLast?_concat]
      exact h

theorem Sound.start : Sound start where
  inRange := by
    refine ⟨?_, ?_, ⟨?_, ?_⟩, ?_, ?_⟩ <;> decide
  flag := ⟨nofun, nofun⟩
  rate := nofun
  told := nofun

theorem Sound.step {a : Action} (h : Sound s) (allowed : SetsInRange s a)
    (taken : step s a = some t) : Sound t := by
  cases a with
  | setIsAdaptive =>
    cases taken
    exact ⟨h.inRange, h.flag, h.rate, nofun⟩
  | setFixedRateParameters sendPeriod recvPeriod sendBandwidth recvBandwidth =>
    cases taken
    exact ⟨allowed, h.flag, h.rate, nofun⟩
  | write =>
    cases taken
    refine ⟨h.inRange, h.flag, h.rate, fun _ => ?_⟩
    change LastTold (s.link.send (writePacketRateInfo s.side).1).outstanding s.arrived
      (current s.side)
    rw [LossyLink.outstanding_send]
    simp only [writePacketRateInfo]
    cases hchanged : s.side.mLocalRateChanged with
    | true => exact LastTold.write (current s.side)
    | false =>
      have htold := h.told hchanged
      rw [LastTold] at htold ⊢
      simp only [Bool.false_eq_true, if_false, changes_append_none, List.append_nil]
      exact htold
  | receive =>
    obtain ⟨⟨packet, link⟩, hsettle, rfl⟩ := Option.map_eq_some_iff.mp taken
    obtain ⟨before, after, hbefore, hafter⟩ := LossyLink.settle_spec hsettle
    have htold : s.side.mLocalRateChanged = false →
        LastTold link.outstanding (s.arrived ++ packet.toList) (current s.side) := by
      intro hchanged
      have htold := h.told hchanged
      rw [hbefore] at htold
      rw [hafter]
      exact htold.settle true
    cases packet with
    | none =>
      simp only [Option.toList_none, List.append_nil] at htold ⊢
      exact ⟨h.inRange, h.flag, h.rate, htold⟩
    | some info =>
      cases info with
      | adaptive =>
        exact ⟨h.inRange, by simp [readPacketRateInfo], by simp, htold⟩
      | fixed rate =>
        refine ⟨h.inRange, ?_, ?_, htold⟩
        · simpa [readPacketRateInfo] using h.flag
        · simp [readPacketRateInfo]
  | lose =>
    obtain ⟨⟨packet, link⟩, hsettle, rfl⟩ := Option.map_eq_some_iff.mp taken
    obtain ⟨before, after, hbefore, hafter⟩ := LossyLink.settle_spec hsettle
    refine ⟨h.inRange, h.flag, h.rate, fun hchanged => ?_⟩
    have htold := h.told hchanged
    rw [hbefore] at htold
    rw [hafter]
    exact htold.settle false
  | notify =>
    obtain ⟨⟨⟨packet, received⟩, link⟩, hnotify, rfl⟩ := Option.map_eq_some_iff.mp taken
    have houtstanding := LossyLink.notify_spec hnotify
    cases hkept : packet.isSome && !received with
    | true =>
      have hside : handleNotify s.side packet.isSome received =
          { s.side with mLocalRateChanged := true } := if_pos hkept
      simp only [hside]
      exact ⟨h.inRange, h.flag, h.rate, nofun⟩
    | false =>
      have hside : handleNotify s.side packet.isSome received = s.side :=
        if_neg (Bool.eq_false_iff.mp hkept)
      simp only [hside]
      refine ⟨h.inRange, h.flag, h.rate, fun hchanged => ?_⟩
      have htold := h.told hchanged
      rw [houtstanding] at htold
      exact htold.notify hkept

/-- In a quiescent state the last change has arrived. -/
theorem Sound.arrived_current (h : Sound s) (hquiet : Quiescent s) :
    s.arrived.getLast? = some (current s.side) := by
  have hnone : changes s.link.outstanding = [] :=
    List.filterMap_eq_nil_iff.mpr (fun packet hpacket => by rw [hquiet.2 packet hpacket]; rfl)
  have htold := h.told hquiet.1
  rw [LastTold, hnone] at htold
  exact htold

/-- The two sides agree if this one is adaptive, or if no packet that said so has arrived. -/
theorem agrees_iff {as : List Action} (h : Run step SetsInRange start as s)
    (hquiet : Quiescent s) :
    Agrees s ↔ s.side.connectionAdaptive = true ∨ .adaptive ∉ s.arrived := by
  have hsound : Sound s := h.invariant
    (fun _ _ _ hs allowed taken => hs.step allowed taken) Sound.start
  have hlast := hsound.arrived_current hquiet
  rw [Agrees, current] at *
  cases hadaptive : s.side.connectionAdaptive with
  | true =>
    rw [hadaptive] at hlast
    have hmem : .adaptive ∈ s.arrived := List.mem_of_getLast? hlast
    exact iff_of_true ⟨hsound.flag.mpr hmem, nofun⟩ (.inl rfl)
  | false =>
    rw [hadaptive] at hlast
    have hrate := hsound.rate _ hlast
    rw [wireRate_eq hsound.inRange] at hrate
    simp only [Bool.false_eq_true, false_or, ← hsound.flag, Bool.not_eq_true, forall_const,
      hrate, and_true]

/-- A rate is lost, set again and told again. -/
theorem agrees_iff_fixed : ∃ s : Rates, Quiescent s ∧ s.side.connectionAdaptive = false ∧
    (Agrees s ↔ s.side.connectionAdaptive = true ∨ .adaptive ∉ s.arrived) := by
  have run : ∃ as s, Run step SetsInRange start as s ∧ Quiescent s ∧
      s.side.connectionAdaptive = false :=
    ⟨[.write, .setFixedRateParameters 50 50 8000 8000, .write, .lose, .lose, .notify, .notify,
      .write, .receive, .notify], _,
      .cons trivial rfl <| .cons (by unfold SetsInRange InRange; decide) rfl <|
      .cons trivial rfl <| .cons trivial rfl <| .cons trivial rfl <| .cons trivial rfl <|
      .cons trivial rfl <| .cons trivial rfl <| .cons trivial rfl <| .cons trivial rfl <|
      .nil _, ⟨by decide +kernel, by decide +kernel⟩, rfl⟩
  obtain ⟨as, s, run, hquiet, hadaptive⟩ := run
  exact ⟨s, hquiet, hadaptive, agrees_iff run hquiet⟩

/-- This side is adaptive for a while and then fixed again: the peer goes on to think that it is
adaptive. -/
theorem still_adaptive : ∃ as s, Run step SetsInRange start as s ∧ Quiescent s ∧ ¬Agrees s :=
  ⟨[.setIsAdaptive, .write, .receive, .notify, .setFixedRateParameters 50 50 8000 8000, .write,
    .receive, .notify], _,
    .cons trivial rfl <| .cons trivial rfl <| .cons trivial rfl <| .cons trivial rfl <|
    .cons (by unfold SetsInRange InRange; decide) rfl <| .cons trivial rfl <|
    .cons trivial rfl <| .cons trivial rfl <| .nil _,
    ⟨by decide +kernel, by decide +kernel⟩, fun h => nomatch h.1⟩

end PacketRate

end TNL
