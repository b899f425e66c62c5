import TNL.Connection.ConnectionTable
import TNL.Library.LinkedList
import TNL.Stream.ByteStream

/-!
# Packets that are sent later

With a simulated latency an interface keeps its packets in a list that is sorted by
the time to send them, and takes them off the head when it processes its
connections. Times are those of `Platform::getRealMilliseconds`.
-/
namespace TNL
open Library Memory

/-- The size of the packet is that of its data. -/
structure DelaySendPacket where
  remoteAddress : Address
  sendTime : U32
  packetData : List U8

/-- A call that sends packets later or now. `malloc` returns `p`. -/
inductive DelayCall
  | sendtoDelayed (p : ℕ) (address : Address) (stream : ByteStream) (millisecondDelay : U32)
  | processConnections (realMilliseconds : U32)

/-- A packet on the socket, with the number of the call that sent it. -/
structure Transmission where
  call : ℕ
  remoteAddress : Address
  packetData : List U8
  deriving DecidableEq

/-- The fields of an interface that delayed packets use, with the calls so far and what has been
sent. -/
structure DelayedPackets where
  memory : Memory DelaySendPacket
  mSendPacketList : Option ℕ
  mCurrentTime : U32
  calls : List DelayCall
  sent : List Transmission

namespace DelayedPackets

/-- The constructor, at a time. -/
def new (realMilliseconds : U32) : DelayedPackets := ⟨fun _ => none, none, realMilliseconds, [], []⟩

def sendtoDelayed (s : DelayedPackets) (p : ℕ) (address : Address) (stream : ByteStream)
    (millisecondDelay : U32) : Option DelayedPackets :=
  let thePacket : DelaySendPacket :=
    ⟨address, s.mCurrentTime + millisecondDelay, stream.packetData⟩
  let memory := Function.update s.memory p (some ⟨thePacket, none⟩)
  -- there are no more packets than calls
  (Cell.advance memory s.mSendPacketList (fun packet => packet.sendTime < thePacket.sendTime)
    (s.calls.length + 1) .head).bind fun list =>
  (insertAt memory s.mSendPacketList list p).map fun (memory, head) =>
    { s with memory := memory, mSendPacketList := head }

/-- The loop that sends the packets whose time has come. -/
def sendLoop : ℕ → DelayedPackets → Option DelayedPackets
  | 0, _ => none
  | fuel + 1, s =>
    match s.mSendPacketList with
    | none => some s
    | some p => (s.memory p).bind fun node =>
      if node.data.sendTime < s.mCurrentTime then
        sendLoop fuel
          { s with
            memory := Function.update s.memory p none
            mSendPacketList := node.next
            sent := s.sent ++
              [⟨s.calls.length, node.data.remoteAddress, node.data.packetData⟩] }
      else some s

def processConnections (s : DelayedPackets) (realMilliseconds : U32) : Option DelayedPackets :=
  sendLoop (s.calls.length + 1) { s with mCurrentTime := realMilliseconds }

def perform (s : DelayedPackets) : DelayCall → Option DelayedPackets
  | .sendtoDelayed p address stream millisecondDelay =>
    s.sendtoDelayed p address stream millisecondDelay
  | .processConnections realMilliseconds => s.processConnections realMilliseconds

def step (s : DelayedPackets) (call : DelayCall) : Option DelayedPackets :=
  (s.perform call).map fun t => { t with calls := s.calls ++ [call] }

end DelayedPackets

/-! ## What the calls ask for -/

namespace DelayCall

/-- The time of the interface after some calls. -/
def currentTime (start : U32) (calls : List DelayCall) : U32 :=
  calls.foldl (fun now call => match call with
    | .sendtoDelayed .. => now
    | .processConnections realMilliseconds => realMilliseconds) start

/-- A packet that a call asks to send later. -/
structure Request where
  remoteAddress : Address
  sendTime : ℕ
  packetData : List U8

variable (start : U32) (calls : List DelayCall)

def request (k : ℕ) : Option Request :=
  match calls[k]? with
  | some (.sendtoDelayed _ address stream millisecondDelay) =>
    some ⟨address, (currentTime start (calls.take k)).toNat + millisecondDelay.toNat,
      stream.packetData⟩
  | _ => none

/-- Call `c` processes the connections after the send time of what call `k` asks for. -/
def Due (k c : ℕ) : Prop :=
  k < c ∧ ∃ x t, request start calls k = some x ∧ calls[c]? = some (.processConnections t) ∧
    x.sendTime < t.toNat

def FirstDue (k c : ℕ) : Prop := Due start calls k c ∧ ∀ c' < c, ¬ Due start calls k c'

/-- Earlier by the send time, and for equal ones by the call. -/
def Earlier (i j : ℕ) : Prop :=
  ∃ x y, request start calls i = some x ∧ request start calls j = some y ∧
    (x.sendTime < y.sendTime ∨ x.sendTime = y.sendTime ∧ i < j)

/-- The transmission of what call `k` asks for. -/
def Transmits (k : ℕ) (x : Transmission) : Prop :=
  FirstDue start calls k x.call ∧
    ∃ y, request start calls k = some y ∧ x.remoteAddress = y.remoteAddress ∧
      x.packetData = y.packetData

/-- Every packet that is due has been sent once, unchanged, by the first call where it was due, and
all of them in order. -/
structure DeliveredBy (sent : List Transmission) (order : List ℕ) : Prop where
  transmitted : List.Forall₂ (Transmits start calls) order sent
  once : order.Nodup
  all : ∀ k c, Due start calls k c → k ∈ order
  ordered : order.Pairwise (Earlier start calls)

def Delivered (sent : List Transmission) : Prop := ∃ order, DeliveredBy start calls sent order

section append

variable {start calls} {call : DelayCall} {k c i j : ℕ} {y : Request} {x : Transmission}

theorem currentTime_sendtoDelayed (p : ℕ) (address : Address) (stream : ByteStream) (delay : U32) :
    currentTime start (calls ++ [.sendtoDelayed p address stream delay]) =
      currentTime start calls := by
  rw [currentTime, List.foldl_append]
  rfl

theorem currentTime_processConnections (t : U32) :
    currentTime start (calls ++ [.processConnections t]) = t := by
  rw [currentTime, List.foldl_append]
  rfl

theorem request_lt (h : request start calls k = some y) : k < calls.length := by
  rw [request] at h
  by_contra hnot
  rw [List.getElem?_eq_none (by omega)] at h
  cases h

theorem request_append_of_lt (hk : k < calls.length) :
    request start (calls ++ [call]) k = request start calls k := by
  rw [request, request, List.getElem?_append_left hk, List.take_append_of_le_length hk.le]

theorem request_append (h : request start calls k = some y) :
    request start (calls ++ [call]) k = some y := by
  rwa [request_append_of_lt (request_lt h)]

theorem request_sendtoDelayed (p : ℕ) (address : Address) (stream : ByteStream) (delay : U32) :
    request start (calls ++ [.sendtoDelayed p address stream delay]) calls.length =
      some ⟨address, (currentTime start calls).toNat + delay.toNat, stream.packetData⟩ := by
  rw [request, List.getElem?_concat_length, List.take_left]

theorem request_processConnections (t : U32) :
    request start (calls ++ [.processConnections t]) calls.length = none := by
  rw [request, List.getElem?_concat_length]

theorem Due.lt (h : Due start calls k c) : c < calls.length := by
  obtain ⟨_, _, _, _, hcall, _⟩ := h
  exact (List.getElem?_eq_some_iff.mp hcall).1

theorem due_append_iff (hc : c < calls.length) :
    Due start (calls ++ [call]) k c ↔ Due start calls k c := by
  rw [Due, Due, List.getElem?_append_left hc]
  refine and_congr_right fun hk => ?_
  rw [request_append_of_lt (hk.trans hc)]

theorem due_append_cases (h : Due start (calls ++ [call]) k c) : Due start calls k c ∨
    c = calls.length ∧ ∃ y t, request start calls k = some y ∧ call = .processConnections t ∧
      y.sendTime < t.toNat := by
  have hlt := h.lt
  rw [List.length_append, List.length_singleton] at hlt
  rcases Nat.lt_succ_iff_lt_or_eq.mp hlt with hold | hnew
  · exact .inl ((due_append_iff hold).mp h)
  · obtain ⟨hk, y, t, hrequest, hcall, htime⟩ := h
    rw [hnew, List.getElem?_concat_length] at hcall
    rw [request_append_of_lt (hnew ▸ hk)] at hrequest
    exact .inr ⟨hnew, y, t, hrequest, Option.some.inj hcall, htime⟩

theorem FirstDue.append (h : FirstDue start calls k c) : FirstDue start (calls ++ [call]) k c :=
  ⟨(due_append_iff h.1.lt).mpr h.1,
    fun c' hc' hdue => h.2 c' hc' ((due_append_iff (hc'.trans h.1.lt)).mp hdue)⟩

theorem Transmits.append (h : Transmits start calls k x) :
    Transmits start (calls ++ [call]) k x := by
  obtain ⟨hdue, y, hrequest, hsame⟩ := h
  exact ⟨hdue.append, y, request_append hrequest, hsame⟩

theorem Earlier.append (h : Earlier start calls i j) : Earlier start (calls ++ [call]) i j := by
  obtain ⟨x, y, hx, hy, hlt⟩ := h
  exact ⟨x, y, request_append hx, request_append hy, hlt⟩

end append

end DelayCall

namespace DelayedPackets
open DelayCall

/-- What a call may do so that packets keep their order: malloc gives free memory, a send time is
not past the largest one and differs from those of all packets that wait, and time does not go
back. -/
def Permitted (s : DelayedPackets) : DelayCall → Prop
  | .sendtoDelayed p _ _ millisecondDelay =>
    s.memory p = none ∧ s.mCurrentTime.toNat + millisecondDelay.toNat < 2 ^ 32 ∧
      ∀ q node, s.memory q = some node → node.data.sendTime ≠ s.mCurrentTime + millisecondDelay
  | .processConnections realMilliseconds => s.mCurrentTime ≤ realMilliseconds

variable {s t : DelayedPackets}

/-- The loop takes the packets that are due off the head. -/
theorem sendLoop_eq {fuel : ℕ} {nodes : List (ℕ × DelaySendPacket)}
    (hlist : s.memory.Segment s.mSendPacketList nodes none) (hnodup : (addresses nodes).Nodup)
    (hfuel : nodes.length < fuel) : ∃ memory head, sendLoop fuel s = some { s with
        memory := memory
        mSendPacketList := head
        sent := s.sent ++ (nodes.takeWhile (fun x => x.2.sendTime < s.mCurrentTime)).map
          fun x => ⟨s.calls.length, x.2.remoteAddress, x.2.packetData⟩ } ∧
      memory.Segment head (nodes.dropWhile (fun x => x.2.sendTime < s.mCurrentTime)) none ∧
      ∀ q, (memory q).isSome → (s.memory q).isSome ∧
        q ∉ addresses (nodes.takeWhile (fun x => x.2.sendTime < s.mCurrentTime)) := by
  induction nodes generalizing s fuel with
  | nil =>
    obtain ⟨fuel, rfl⟩ := Nat.exists_eq_succ_of_ne_zero (by omega : fuel ≠ 0)
    have hhead : s.mSendPacketList = none := hlist
    refine ⟨s.memory, none, ?_, rfl, fun q hq => ⟨hq, List.not_mem_nil⟩⟩
    rw [sendLoop, hhead]
    cases s
    simp_all
  | cons x nodes ih =>
    obtain ⟨fuel, rfl⟩ := Nat.exists_eq_succ_of_ne_zero (by omega : fuel ≠ 0)
    rcases x with ⟨p, packet⟩
    obtain ⟨hhead, next, hnode, hrest⟩ := hlist
    rw [addresses_cons, List.nodup_cons] at hnodup
    rw [sendLoop, hhead]
    simp only [hnode, Option.bind_some]
    by_cases hdue : packet.sendTime < s.mCurrentTime
    · rw [if_pos hdue, List.takeWhile_cons_of_pos (by simpa using hdue),
        List.dropWhile_cons_of_pos (by simpa using hdue)]
      obtain ⟨memory, head, heq, hsegment, hframe⟩ := ih
        (s := { s with
          memory := Function.update s.memory p none
          mSendPacketList := next
          sent := s.sent ++ [⟨s.calls.length, packet.remoteAddress, packet.packetData⟩] })
        (hrest.update hnodup.1 none) hnodup.2 (by simpa using hfuel)
      refine ⟨memory, head, ?_, hsegment, fun q hq => ?_⟩
      · rw [heq]
        simp
      · obtain ⟨hq', htaken⟩ := hframe q hq
        change (Function.update s.memory p none q).isSome = true at hq'
        have hne : q ≠ p := by
          rintro rfl
          simp at hq'
        rw [Function.update_of_ne hne] at hq'
        exact ⟨hq', fun hmem => (List.mem_cons.mp hmem).elim hne htaken⟩
    · rw [if_neg hdue, List.takeWhile_cons_of_neg (by simpa using hdue),
        List.dropWhile_cons_of_neg (by simpa using hdue)]
      refine ⟨s.memory, some p, ?_, ⟨rfl, next, hnode, hrest⟩, fun q hq => ⟨hq, List.not_mem_nil⟩⟩
      cases s
      simp_all

/-- The walk stops before the first packet that is not sent earlier. -/
theorem sendtoDelayed_eq {nodes : List (ℕ × DelaySendPacket)} {p : ℕ}
    (hlist : s.memory.Segment s.mSendPacketList nodes none) (hnodup : (addresses nodes).Nodup)
    (hp : p ∉ addresses nodes) (hfuel : nodes.length ≤ s.calls.length) (address : Address)
    (stream : ByteStream) (delay : U32) :
    ∃ memory head, s.sendtoDelayed p address stream delay =
        some { s with memory := memory, mSendPacketList := head } ∧
      memory.Segment head (nodes.takeWhile (fun y => y.2.sendTime < s.mCurrentTime + delay) ++
        (p, ⟨address, s.mCurrentTime + delay, stream.packetData⟩) ::
          nodes.dropWhile (fun y => y.2.sendTime < s.mCurrentTime + delay)) none ∧
      ∀ q, q ≠ p → q ∉ addresses nodes → memory q = s.memory q := by
  have hsplit : nodes.takeWhile (fun y => y.2.sendTime < s.mCurrentTime + delay) ++
      nodes.dropWhile (fun y => y.2.sendTime < s.mCurrentTime + delay) = nodes :=
    List.takeWhile_append_dropWhile
  have hfresh := hlist.update hp
    (some ⟨⟨address, s.mCurrentTime + delay, stream.packetData⟩, none⟩)
  have hadvance := Cell.advance_eq
    (fun packet : DelaySendPacket => packet.sendTime < s.mCurrentTime + delay)
    ((List.nil_append nodes).symm ▸ hfresh : Segment _ _ ([] ++ nodes) none)
    (Nat.lt_succ_of_le hfuel)
  rw [List.nil_append, Cell.behind_nil] at hadvance
  rw [← hsplit] at hfresh hnodup hp
  obtain ⟨memory, head, hinsert, hsegment, hframe⟩ := insertAt_eq hfresh hnodup
    (Function.update_self ..) hp
  refine ⟨memory, head, ?_, hsegment, fun q hq hmem => ?_⟩
  · rw [sendtoDelayed]
    rw [hadvance, Option.bind_some, hinsert]
    rfl
  · rw [← hsplit, addresses_append, List.mem_append, not_or] at hmem
    exact (hframe q hq hmem.1).trans (Function.update_of_ne hq ..)

/-- A packet that waits, with the number of its call and its address. -/
abbrev Waiting := ℕ × ℕ × DelaySendPacket

def Waiting.before (x y : Waiting) : Prop := x.2.2.sendTime < y.2.2.sendTime

/-- The packets that wait and the calls whose packets have been sent account for all requests. -/
structure Tracks (start : U32) (s : DelayedPackets) (waiting : List Waiting) (order : List ℕ) :
    Prop where
  time : s.mCurrentTime = currentTime start s.calls
  list : s.memory.Segment s.mSendPacketList (waiting.map Prod.snd) none
  nodup : (addresses (waiting.map Prod.snd)).Nodup
  allocated : ∀ p, (s.memory p).isSome → p ∈ addresses (waiting.map Prod.snd)
  short : waiting.length ≤ s.calls.length
  sorted : waiting.Pairwise Waiting.before
  later : ∀ x ∈ waiting, s.mCurrentTime ≤ x.2.2.sendTime
  requested : ∀ x ∈ waiting, request start s.calls x.1 =
    some ⟨x.2.2.remoteAddress, x.2.2.sendTime.toNat, x.2.2.packetData⟩
  undue : ∀ x ∈ waiting, ∀ c, ¬ Due start s.calls x.1 c
  complete : ∀ k y, request start s.calls k = some y → k ∈ waiting.map Prod.fst ∨ k ∈ order
  numbers : (order ++ waiting.map Prod.fst).Nodup
  past : ∀ k ∈ order, ∃ y, request start s.calls k = some y ∧ y.sendTime < s.mCurrentTime.toNat
  transmitted : List.Forall₂ (Transmits start s.calls) order s.sent
  ordered : order.Pairwise (Earlier start s.calls)

variable {start : U32} {waiting : List Waiting} {order : List ℕ}

theorem tracks_new : Tracks start (new start) [] [] where
  time := rfl
  list := rfl
  nodup := List.nodup_nil
  allocated := by simp [new]
  short := Nat.le_refl 0
  sorted := List.Pairwise.nil
  later := by simp
  requested := by simp
  undue := by simp
  complete := by simp [new, request]
  numbers := List.nodup_nil
  past := by simp
  transmitted := List.Forall₂.nil
  ordered := List.Pairwise.nil

theorem Tracks.delivered (h : Tracks start s waiting order) :
    DeliveredBy start s.calls s.sent order where
  transmitted := h.transmitted
  once := (List.nodup_append.mp h.numbers).1
  all k c hdue := by
    obtain ⟨_, y, _, hrequest, _⟩ := id hdue
    rcases h.complete k y hrequest with hwaiting | horder
    · obtain ⟨x, hx, rfl⟩ := List.mem_map.mp hwaiting
      exact absurd hdue (h.undue x hx c)
    · exact horder
  ordered := h.ordered

/-- Past the packets that are sent before a new one, all are sent after it. -/
theorem sorted_insert {x : Waiting} (h : waiting.Pairwise Waiting.before)
    (hne : ∀ y ∈ waiting, y.2.2.sendTime ≠ x.2.2.sendTime) :
    (waiting.takeWhile (fun y => y.2.2.sendTime < x.2.2.sendTime) ++
      x :: waiting.dropWhile (fun y => y.2.2.sendTime < x.2.2.sendTime)).Pairwise
        Waiting.before := by
  induction waiting with
  | nil => exact List.pairwise_singleton _ _
  | cons y waiting ih =>
    obtain ⟨hfirst, hrest⟩ := List.pairwise_cons.mp h
    by_cases hlt : y.2.2.sendTime < x.2.2.sendTime
    · rw [List.takeWhile_cons_of_pos (by simpa using hlt),
        List.dropWhile_cons_of_pos (by simpa using hlt), List.cons_append, List.pairwise_cons]
      refine ⟨fun z hz => ?_, ih hrest fun z hz => hne z (List.mem_cons_of_mem y hz)⟩
      rw [List.mem_append, List.mem_cons] at hz
      rcases hz with hz | rfl | hz
      · exact hfirst z (List.takeWhile_subset _ hz)
      · exact hlt
      · exact hfirst z (List.dropWhile_subset _ hz)
    · rw [List.takeWhile_cons_of_neg (by simpa using hlt),
        List.dropWhile_cons_of_neg (by simpa using hlt), List.nil_append, List.pairwise_cons]
      refine ⟨fun z hz => ?_, h⟩
      have hxy : x.2.2.sendTime < y.2.2.sendTime := by
        have hy := hne y List.mem_cons_self
        bv_omega
      rcases List.mem_cons.mp hz with rfl | hz
      · exact hxy
      · exact BitVec.lt_trans hxy (hfirst z hz)

/-- What is left once the packets that are due have been taken is not due. -/
theorem dropWhile_later (h : waiting.Pairwise Waiting.before) (now : U32) :
    ∀ x ∈ waiting.dropWhile (fun x => x.2.2.sendTime < now), now ≤ x.2.2.sendTime := by
  induction waiting with
  | nil => simp
  | cons y waiting ih =>
    obtain ⟨hfirst, hrest⟩ := List.pairwise_cons.mp h
    by_cases hlt : y.2.2.sendTime < now
    · rw [List.dropWhile_cons_of_pos (by simpa using hlt)]
      exact ih hrest
    · rw [List.dropWhile_cons_of_neg (by simpa using hlt)]
      intro x hx
      rcases List.mem_cons.mp hx with rfl | hx
      · exact BitVec.not_lt.mp hlt
      · exact BitVec.le_trans (BitVec.not_lt.mp hlt) (BitVec.le_of_lt (hfirst x hx))

theorem Tracks.sendtoDelayed (h : Tracks start s waiting order) {p : ℕ} {address : Address}
    {stream : ByteStream} {delay : U32}
    (hpermitted : s.Permitted (.sendtoDelayed p address stream delay)) :
    ∃ t waiting', s.step (.sendtoDelayed p address stream delay) = some t ∧
      Tracks start t waiting' order := by
  obtain ⟨hfree, hsum, hne⟩ := hpermitted
  have hp : p ∉ addresses (waiting.map Prod.snd) := by
    intro hmem
    have hsome := h.list.mem hmem
    rw [hfree] at hsome
    cases hsome
  have hnew : ∀ y ∈ waiting, y.2.2.sendTime ≠ s.mCurrentTime + delay := by
    intro y hy heq
    have hmem : y.2.1 ∈ addresses (waiting.map Prod.snd) :=
      List.mem_map_of_mem (List.mem_map_of_mem hy)
    obtain ⟨node, hnode⟩ := Option.isSome_iff_exists.mp (h.list.mem hmem)
    have hdata := h.list.node_data hnode (List.mem_map_of_mem hy)
    exact hne y.2.1 node hnode (hdata ▸ heq)
  have hshort := h.short
  rw [← List.length_map Prod.snd] at hshort
  obtain ⟨memory, head, hsend, hsegment, hframe⟩ :=
    sendtoDelayed_eq h.list h.nodup hp hshort address stream delay
  let x : Waiting := (s.calls.length, p, ⟨address, s.mCurrentTime + delay, stream.packetData⟩)
  let waiting' := waiting.takeWhile (fun y => y.2.2.sendTime < s.mCurrentTime + delay) ++
    x :: waiting.dropWhile (fun y => y.2.2.sendTime < s.mCurrentTime + delay)
  have hperm : waiting'.Perm (x :: waiting) := by
    refine List.perm_middle.trans ?_
    rw [List.takeWhile_append_dropWhile]
  have hnodes : waiting'.map Prod.snd =
      (waiting.map Prod.snd).takeWhile (fun y => y.2.sendTime < s.mCurrentTime + delay) ++
        x.2 :: (waiting.map Prod.snd).dropWhile
          (fun y => y.2.sendTime < s.mCurrentTime + delay) := by
    rw [List.map_append, List.map_cons, List.takeWhile_map, List.dropWhile_map]
    rfl
  have hmem : ∀ y, y ∈ waiting' ↔ y = x ∨ y ∈ waiting := fun y =>
    hperm.mem_iff.trans List.mem_cons
  have htime : (s.mCurrentTime + delay).toNat = s.mCurrentTime.toNat + delay.toNat := by
    rw [BitVec.toNat_add, Nat.mod_eq_of_lt hsum]
  have hrequest : request start (s.calls ++ [.sendtoDelayed p address stream delay])
      s.calls.length = some ⟨address, (s.mCurrentTime + delay).toNat, stream.packetData⟩ := by
    rw [request_sendtoDelayed, htime, h.time]
  have hnumber : s.calls.length ∉ order ++ waiting.map Prod.fst := by
    intro hnumber
    rcases List.mem_append.mp hnumber with hk | hk
    · obtain ⟨y, hy, _⟩ := h.past _ hk
      exact absurd (request_lt hy) (Nat.lt_irrefl _)
    · obtain ⟨y, hy, heq⟩ := List.mem_map.mp hk
      have hlt := request_lt (h.requested y hy)
      omega
  refine ⟨⟨memory, head, s.mCurrentTime, s.calls ++ [.sendtoDelayed p address stream delay],
    s.sent⟩, waiting', ?_, ?_⟩
  · rw [step, perform, hsend]
    rfl
  · exact {
      time := h.time.trans (currentTime_sendtoDelayed p address stream delay).symm
      list := hnodes ▸ hsegment
      nodup := by
        have hperm' := (hperm.map Prod.snd).map Prod.fst
        exact hperm'.nodup_iff.mpr (List.nodup_cons.mpr ⟨hp, h.nodup⟩)
      allocated := by
        intro q hq
        have hperm' := (hperm.map Prod.snd).map Prod.fst
        refine hperm'.mem_iff.mpr (List.mem_cons.mpr ?_)
        by_contra hnot
        rw [not_or] at hnot
        change (memory q).isSome = true at hq
        rw [hframe q hnot.1 hnot.2] at hq
        exact hnot.2 (h.allocated q hq)
      short := by
        rw [hperm.length_eq, List.length_cons, List.length_append]
        exact Nat.succ_le_succ h.short
      sorted := sorted_insert (x := x) h.sorted hnew
      later := by
        intro y hy
        rcases (hmem y).mp hy with rfl | hold
        · rw [BitVec.le_def]
          exact (Nat.le_add_right ..).trans htime.ge
        · exact h.later y hold
      requested := by
        intro y hy
        rcases (hmem y).mp hy with rfl | hold
        · exact hrequest
        · exact request_append (h.requested y hold)
      undue := by
        intro y hy c hdue
        rcases due_append_cases hdue with hdue | ⟨_, _, _, _, hcall, _⟩
        · rcases (hmem y).mp hy with rfl | hold
          · exact absurd (hdue.1.trans hdue.lt) (Nat.lt_irrefl _)
          · exact h.undue y hold c hdue
        · cases hcall
      complete := by
        intro k y hk
        have hlt := request_lt hk
        rw [List.length_append, List.length_singleton] at hlt
        rcases Nat.lt_succ_iff_lt_or_eq.mp hlt with hold | rfl
        · rw [request_append_of_lt hold] at hk
          rcases h.complete k y hk with hwaiting | horder
          · obtain ⟨z, hz, rfl⟩ := List.mem_map.mp hwaiting
            exact .inl (List.mem_map_of_mem ((hmem z).mpr (.inr hz)))
          · exact .inr horder
        · exact .inl (List.mem_map_of_mem ((hmem x).mpr (.inl rfl)))
      numbers := by
        have hperm' := (hperm.map Prod.fst).append_left order
        refine hperm'.nodup_iff.mpr ?_
        rw [List.map_cons]
        exact List.nodup_middle.mpr (List.nodup_cons.mpr ⟨hnumber, h.numbers⟩)
      past := by
        intro k hk
        obtain ⟨y, hy, hlt⟩ := h.past k hk
        exact ⟨y, request_append hy, hlt⟩
      transmitted := h.transmitted.imp fun _ _ => Transmits.append
      ordered := h.ordered.imp Earlier.append }

theorem Tracks.processConnections (h : Tracks start s waiting order) {now : U32}
    (hpermitted : s.Permitted (.processConnections now)) :
    ∃ t waiting' order', s.step (.processConnections now) = some t ∧
      Tracks start t waiting' order' := by
  have hshort := h.short
  rw [← List.length_map Prod.snd] at hshort
  obtain ⟨memory, head, hloop, hsegment, hframe⟩ :=
    sendLoop_eq (s := { s with mCurrentTime := now }) h.list h.nodup (Nat.lt_succ_of_le hshort)
  let taken := waiting.takeWhile (fun x => x.2.2.sendTime < now)
  let rest := waiting.dropWhile (fun x => x.2.2.sendTime < now)
  have hsplit : taken ++ rest = waiting := List.takeWhile_append_dropWhile
  have htaken : ∀ x ∈ taken, x ∈ waiting ∧ x.2.2.sendTime < now := fun x hx =>
    ⟨List.takeWhile_subset _ hx, by simpa using List.mem_takeWhile_imp hx⟩
  have hrest : ∀ x ∈ rest, x ∈ waiting ∧ now ≤ x.2.2.sendTime := fun x hx =>
    ⟨List.dropWhile_subset _ hx, dropWhile_later h.sorted now x hx⟩
  have hsorted := h.sorted
  rw [← hsplit] at hsorted
  have hpast : ∀ k ∈ order ++ taken.map Prod.fst,
      ∃ y, request start s.calls k = some y ∧ y.sendTime < now.toNat := by
    intro k hk
    rcases List.mem_append.mp hk with hk | hk
    · obtain ⟨y, hy, hlt⟩ := h.past k hk
      exact ⟨y, hy, hlt.trans_le (BitVec.le_def.mp hpermitted)⟩
    · obtain ⟨x, hx, rfl⟩ := List.mem_map.mp hk
      exact ⟨_, h.requested x (htaken x hx).1, BitVec.lt_def.mp (htaken x hx).2⟩
  refine ⟨⟨memory, head, now, s.calls ++ [.processConnections now],
    s.sent ++ taken.map fun x => ⟨s.calls.length, x.2.2.remoteAddress, x.2.2.packetData⟩⟩,
    rest, order ++ taken.map Prod.fst, ?_, ?_⟩
  · rw [step, perform, DelayedPackets.processConnections, hloop, List.takeWhile_map, List.map_map]
    rfl
  · exact {
      time := (currentTime_processConnections now).symm
      list := by
        rw [List.dropWhile_map] at hsegment
        exact hsegment
      nodup := by
        have hnodup := h.nodup
        rw [← hsplit, List.map_append, addresses_append] at hnodup
        exact (List.nodup_append.mp hnodup).2.1
      allocated := by
        intro q hq
        obtain ⟨hold, hnot⟩ := hframe q hq
        have hmem := h.allocated q hold
        rw [List.takeWhile_map] at hnot
        rw [← hsplit, List.map_append, addresses_append, List.mem_append] at hmem
        exact hmem.resolve_left hnot
      short := by
        have hlength := congrArg List.length hsplit
        rw [List.length_append] at hlength ⊢
        have hle := h.short
        omega
      sorted := (List.pairwise_append.mp hsorted).2.1
      later := fun x hx => (hrest x hx).2
      requested := fun x hx => request_append (h.requested x (hrest x hx).1)
      undue := by
        intro x hx c hdue
        rcases due_append_cases hdue with hdue | ⟨_, y, t, hrequest, hcall, hlt⟩
        · exact h.undue x (hrest x hx).1 c hdue
        · cases hcall
          rw [h.requested x (hrest x hx).1] at hrequest
          cases hrequest
          exact absurd (BitVec.le_def.mp (hrest x hx).2) (Nat.not_le_of_lt hlt)
      complete := by
        intro k y hk
        have hold : request start s.calls k = some y := by
          have hlt := request_lt hk
          rw [List.length_append, List.length_singleton] at hlt
          rcases Nat.lt_succ_iff_lt_or_eq.mp hlt with hold | rfl
          · rwa [request_append_of_lt hold] at hk
          · rw [request_processConnections] at hk
            cases hk
        rcases h.complete k y hold with hwaiting | horder
        · rw [← hsplit, List.map_append, List.mem_append] at hwaiting
          rcases hwaiting with hk | hk
          · exact .inr (List.mem_append_right order hk)
          · exact .inl hk
        · exact .inr (List.mem_append_left _ horder)
      numbers := by
        have hnumbers := h.numbers
        rwa [← hsplit, List.map_append, ← List.append_assoc] at hnumbers
      past := by
        intro k hk
        obtain ⟨y, hy, hlt⟩ := hpast k hk
        exact ⟨y, request_append hy, hlt⟩
      transmitted := by
        apply List.rel_append (h.transmitted.imp fun _ _ => Transmits.append)
        rw [List.forall₂_map_left_iff, List.forall₂_map_right_iff, List.forall₂_same]
        intro x hx
        have hrequest := h.requested x (htaken x hx).1
        have hrequest' : request start (s.calls ++ [.processConnections now]) x.1 = some _ :=
          request_append hrequest
        refine ⟨⟨⟨request_lt hrequest, _, now, hrequest', List.getElem?_concat_length ..,
          BitVec.lt_def.mp (htaken x hx).2⟩, fun c hc hdue => ?_⟩, _, hrequest', rfl, rfl⟩
        exact h.undue x (htaken x hx).1 c ((due_append_iff hc).mp hdue)
      ordered := by
        rw [List.pairwise_append, List.pairwise_map]
        refine ⟨h.ordered.imp Earlier.append, ?_, ?_⟩
        · refine (List.pairwise_append.mp hsorted).1.imp_of_mem fun {x y} hx hy hlt => ?_
          exact ⟨_, _, request_append (h.requested x (htaken x hx).1),
            request_append (h.requested y (htaken y hy).1), .inl (BitVec.lt_def.mp hlt)⟩
        · intro k hk j hj
          obtain ⟨y, hy, hlt⟩ := h.past k hk
          obtain ⟨x, hx, rfl⟩ := List.mem_map.mp hj
          exact ⟨_, _, request_append hy, request_append (h.requested x (htaken x hx).1),
            .inl (hlt.trans_le (BitVec.le_def.mp (h.later x (htaken x hx).1)))⟩ }

theorem Tracks.step (h : Tracks start s waiting order) {call : DelayCall}
    (hpermitted : s.Permitted call) :
    ∃ t waiting' order', s.step call = some t ∧ Tracks start t waiting' order' := by
  cases call with
  | sendtoDelayed p address stream delay =>
    obtain ⟨t, waiting', hstep, ht⟩ := h.sendtoDelayed hpermitted
    exact ⟨t, waiting', order, hstep, ht⟩
  | processConnections now => exact h.processConnections hpermitted

theorem calls_of_run {guard : DelayedPackets → DelayCall → Prop} {calls : List DelayCall}
    (h : Run step guard s calls t) : t.calls = s.calls ++ calls := by
  induction h with
  | nil s => exact (List.append_nil _).symm
  | cons allowed taken rest ih =>
    obtain ⟨u, _, rfl⟩ := Option.map_eq_some_iff.mp taken
    rw [ih, List.append_assoc]
    rfl

theorem tracks_of_run {calls : List DelayCall} (h : Run step Permitted (new start) calls s) :
    ∃ waiting order, Tracks start s waiting order := by
  refine h.invariant (I := fun s => ∃ waiting order, Tracks start s waiting order) ?_
    ⟨[], [], tracks_new⟩
  rintro s call t ⟨waiting, order, hs⟩ hpermitted hstep
  obtain ⟨u, waiting', order', hu, htracks⟩ := hs.step hpermitted
  obtain rfl := Option.some.inj (hstep.symm.trans hu)
  exact ⟨waiting', order', htracks⟩

/-- As long as no packet gets the send time of one that waits, all packets are sent once, as soon as
they are due, and in order, and no call fails. -/
theorem delivered_of_run {calls : List DelayCall} (h : Run step Permitted (new start) calls s) :
    Delivered start calls s.sent ∧ ∀ call, s.Permitted call → (s.step call).isSome := by
  obtain ⟨waiting, order, hs⟩ := tracks_of_run h
  have hcalls : s.calls = calls := calls_of_run h
  constructor
  · rw [← hcalls]
    exact ⟨order, hs.delivered⟩
  · intro call hpermitted
    obtain ⟨t, _, _, hstep, _⟩ := hs.step hpermitted
    rw [hstep]
    rfl

def anyAddress : Address := ⟨0, 0, #v[10, 0, 0, 1]⟩

/-- A packet of one byte. -/
def oneByte (data : U8) : ByteStream := ⟨fun _ => data, 1, false, 8, false, 8, 8⟩

def after (s : DelayedPackets) (call : DelayCall) : DelayedPackets := (s.step call).getD s

def firstCall (delay : U32) : DelayCall := .sendtoDelayed 0 anyAddress (oneByte 1) delay

def secondCall (delay : U32) : DelayCall := .sendtoDelayed 1 anyAddress (oneByte 2) delay

/-- The packet that is sent earlier was asked for second. -/
theorem delivered_of_run_two : Delivered 0 [firstCall 20, secondCall 10, .processConnections 30]
    [⟨2, anyAddress, [2]⟩, ⟨2, anyAddress, [1]⟩] := by
  let s := (new 0).after (firstCall 20)
  let t := s.after (secondCall 10)
  have hfirst : (new 0).Permitted (firstCall 20) := ⟨rfl, by decide, by simp [new]⟩
  have hsecond : s.Permitted (secondCall 10) := by
    refine ⟨rfl, by decide, fun q node hnode => ?_⟩
    by_cases hq : q = 0
    · subst hq
      cases hnode
      decide
    · change Function.update (Function.update (fun _ => none) 0 _) 0 _ q = some node at hnode
      rw [Function.update_of_ne hq, Function.update_of_ne hq] at hnode
      cases hnode
  have hthird : t.Permitted (.processConnections 30) := (by decide : (0 : U32) ≤ 30)
  have hrun : Run step Permitted (new 0) [firstCall 20, secondCall 10, .processConnections 30]
      (t.after (.processConnections 30)) :=
    .cons hfirst (t := s) rfl (.cons hsecond (t := t) rfl (.cons hthird rfl (.nil _)))
  exact (delivered_of_run hrun).1

/-- Two packets with one send time. -/
abbrev tie : List DelayCall := [firstCall 10, secondCall 10, .processConnections 30]

theorem request_tie {k : ℕ} {x : Request} (h : request 0 tie k = some x) :
    x.sendTime = 10 ∧ (k = 0 ∧ x.packetData = [1] ∨ k = 1 ∧ x.packetData = [2]) := by
  have hk : k < 3 := request_lt h
  match k with
  | 0 =>
    cases h
    exact ⟨rfl, .inl ⟨rfl, rfl⟩⟩
  | 1 =>
    cases h
    exact ⟨rfl, .inr ⟨rfl, rfl⟩⟩
  | 2 => cases h

/-- They are sent in the wrong order. -/
theorem tie_reversed : ¬ ∀ (start : U32) (calls : List DelayCall) (s : DelayedPackets),
    Run step (fun s call => match call with
      | .sendtoDelayed p _ _ delay => s.memory p = none ∧ s.mCurrentTime.toNat + delay.toNat < 2 ^ 31
      | .processConnections now => s.mCurrentTime ≤ now ∧ now.toNat < 2 ^ 31) (new start) calls s →
    Delivered start calls s.sent := by
  intro hclaim
  let s := (new 0).after (firstCall 10)
  let t := s.after (secondCall 10)
  obtain ⟨order, horder⟩ := hclaim 0 tie (t.after (.processConnections 30))
    (.cons ⟨rfl, by decide⟩ (t := s) rfl (.cons ⟨rfl, by decide⟩ (t := t) rfl
      (.cons ⟨(by decide : (0 : U32) ≤ 30), by decide⟩ rfl (.nil _))))
  have hsent : List.Forall₂ (Transmits 0 tie) order
      [⟨2, anyAddress, [2]⟩, ⟨2, anyAddress, [1]⟩] := horder.transmitted
  obtain ⟨i, _, ⟨_, x, hi, _, hx⟩, hrest, rfl⟩ := List.forall₂_cons_right_iff.mp hsent
  obtain ⟨j, _, ⟨_, y, hj, _, hy⟩, _, rfl⟩ := List.forall₂_cons_right_iff.mp hrest
  obtain ⟨x', y', hx', hy', hearlier⟩ :=
    (List.pairwise_cons.mp horder.ordered).1 j List.mem_cons_self
  cases hi.symm.trans hx'
  cases hj.symm.trans hy'
  obtain ⟨htime, hnumber⟩ := request_tie hi
  obtain ⟨htime', hnumber'⟩ := request_tie hj
  rw [← hx] at hnumber
  rw [← hy] at hnumber'
  simp at hnumber hnumber'
  omega

end DelayedPackets

end TNL
