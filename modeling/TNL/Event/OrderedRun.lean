import TNL.Event.Ordered

/-!
# Runs of two event connections

The invariant of both ends and of all packets, kept by every action as long as
the events of each packet fit. At every moment the ordered events processed are
a prefix of those posted.
-/
namespace TNL
open Library BitStream

namespace EventLink
open EventConnection

variable {ε : Type*} {P : EventParameters} {E : EventClass ε Unit} {fromServer : Bool}
  {l m : EventLink ε}

/-- What holds of a packet from the moment it is written. -/
structure PacketSound (P : EventParameters) (E : EventClass ε Unit) (l : EventLink ε)
    (p : SentPacket ε) : Prop where
  complete : p.start.stream.Wrote
    (sectionBits P E p.unordered p.ordered () () p.start.stream.bitNum) p.sent
  inside : p.sent.bitNum ≤ maxPacketDataSize * 8
  genuine : ∀ n ∈ p.ordered, Genuine l.posted n
  increasing : Increasing p.ordered
  ordered_type : ∀ n ∈ p.ordered, E.mGuaranteeType n.mEvent = .guaranteedOrdered
  unordered_type : ∀ n ∈ p.unordered, E.mGuaranteeType n.mEvent ≠ .guaranteedOrdered
  fresh : p.fate = .inFlight → ∀ n ∈ p.ordered, ¬ l.receiver.Got n.mSeqCount
  window : ∀ n ∈ p.ordered, n.mSeqCount < l.receiver.mNextRecvEventSeq + 128
  got : p.fate = .processed → ∀ n ∈ p.ordered, l.receiver.Got n.mSeqCount
  queue_disjoint : p.fate = .inFlight → SeqDisjoint p.ordered l.sender.mSendEventQueue

structure Sound (P : EventParameters) (E : EventClass ε Unit) (l : EventLink ε) : Prop where
  next_send : l.sender.mNextSendEventSeq = l.posted.length
  receiver : ReceiverSound l.posted l.processed l.receiver
  queue_genuine : ∀ n ∈ l.sender.mSendEventQueue, Genuine l.posted n
  queue_increasing : Increasing l.sender.mSendEventQueue
  queue_type : ∀ n ∈ l.sender.mSendEventQueue, E.mGuaranteeType n.mEvent = .guaranteedOrdered
  queue_fresh : ∀ n ∈ l.sender.mSendEventQueue, ¬ l.receiver.Got n.mSeqCount
  unordered_type : ∀ n ∈ l.sender.mUnorderedSendEventQueue,
    E.mGuaranteeType n.mEvent ≠ .guaranteedOrdered
  notify_got : ∀ n ∈ l.sender.mNotifyEventList, l.receiver.Got n.mSeqCount
  acked_got : ∀ seq, 0 ≤ seq → seq ≤ l.sender.mLastAckedEventSeq → l.receiver.Got seq
  packets : ∀ p ∈ l.packets, PacketSound P E l p
  packets_disjoint : ∀ (i j : ℕ) (p q : SentPacket ε), l.packets[i]? = some p →
    l.packets[j]? = some q → i ≠ j →
    p.fate = .inFlight → q.fate = .inFlight → SeqDisjoint p.ordered q.ordered

theorem start_sound : Sound P E (start (ε := ε)) := by
  constructor <;> simp [start, new, firstValidSendEventSeq, Increasing]
  · exact ⟨le_rfl, by simp, rfl, by simp, by simp [Increasing], by simp⟩
  · intro seq hnonneg hacked
    omega

/-- The receiver is ahead of what has been acknowledged. -/
theorem Sound.acked_lt (hl : Sound P E l) :
    l.sender.mLastAckedEventSeq < l.receiver.mNextRecvEventSeq := by
  by_contra hle
  obtain hlt | ⟨n, hn, hseq⟩ := hl.acked_got _ hl.receiver.next_nonneg (by omega)
  · omega
  · have := hl.receiver.wait_gt n hn
    omega

theorem filter_eventList {unordered ordered : List (EventNote ε)}
    (hordered : ∀ n ∈ ordered, E.mGuaranteeType n.mEvent = .guaranteedOrdered)
    (hunordered : ∀ n ∈ unordered, E.mGuaranteeType n.mEvent ≠ .guaranteedOrdered) :
    (unordered ++ ordered).filter (fun n => E.mGuaranteeType n.mEvent = .guaranteedOrdered) =
      ordered := by
  rw [List.filter_append, List.filter_eq_nil_iff.mpr (by simpa using hunordered),
    List.filter_eq_self.mpr (by simpa using hordered), List.nil_append]

theorem post_sound (hl : Sound P E l) (event : ε)
    (hstep : l.step P E fromServer (.postNetEvent event) = some m) : Sound P E m := by
  obtain rfl := Option.some.inj hstep
  have hreceiver : ∀ more, ReceiverSound (l.posted ++ more) l.processed l.receiver := by
    intro more
    have hr := hl.receiver
    have hle := hr.next_le
    have hnonneg := hr.next_nonneg
    refine ⟨hnonneg, ?_, ?_, fun n hn => (hr.wait_genuine n hn).append, hr.wait_increasing,
      hr.wait_gt⟩
    · rw [List.length_append]
      omega
    · rw [List.take_append_of_le_length (by omega)]
      exact hr.processed_eq
  have hgenuine : ∀ (more : List ε) (notes : List (EventNote ε)),
      (∀ n ∈ notes, Genuine l.posted n) → ∀ n ∈ notes, Genuine (l.posted ++ more) n :=
    fun more notes h n hn => (h n hn).append
  by_cases htype : E.mGuaranteeType event = .guaranteedOrdered
  · -- the new number is above every number in use
    have hnew : Genuine (l.posted ++ [event]) ⟨event, l.sender.mNextSendEventSeq⟩ := by
      refine ⟨?_, ?_⟩
      · rw [hl.next_send]
        exact Int.natCast_nonneg _
      · simp [hl.next_send]
    have hnot : ¬ l.receiver.Got l.sender.mNextSendEventSeq := by
      rw [hl.next_send]
      rintro (hlt | ⟨n, hn, hseq⟩)
      · have := hl.receiver.next_le
        omega
      · have := (hl.receiver.wait_genuine n hn).lt
        omega
    have hbelow : ∀ n : EventNote ε, Genuine l.posted n →
        n.mSeqCount < l.sender.mNextSendEventSeq := by
      intro n hn
      rw [hl.next_send]
      exact hn.lt
    simp only [postNetEvent, htype, if_true]
    constructor
    · simp [hl.next_send]
    · exact hreceiver _
    · intro n hn
      obtain hold | rfl := List.mem_append.mp hn |>.imp_right List.mem_singleton.mp
      · exact (hl.queue_genuine n hold).append
      · exact hnew
    · refine List.pairwise_append.mpr ⟨hl.queue_increasing, by simp, ?_⟩
      intro n hn k hk
      obtain rfl := List.mem_singleton.mp hk
      exact hbelow n (hl.queue_genuine n hn)
    · intro n hn
      obtain hold | rfl := List.mem_append.mp hn |>.imp_right List.mem_singleton.mp
      · exact hl.queue_type n hold
      · exact htype
    · intro n hn
      obtain hold | rfl := List.mem_append.mp hn |>.imp_right List.mem_singleton.mp
      · exact hl.queue_fresh n hold
      · exact hnot
    · exact hl.unordered_type
    · exact hl.notify_got
    · exact hl.acked_got
    · intro p hp
      have hpacket := hl.packets p hp
      refine { hpacket with genuine := hgenuine _ _ hpacket.genuine, queue_disjoint := ?_ }
      intro hfate n hn k hk
      obtain hold | rfl := List.mem_append.mp hk |>.imp_right List.mem_singleton.mp
      · exact hpacket.queue_disjoint hfate n hn k hold
      · exact (hbelow n (hpacket.genuine n hn)).ne
    · exact hl.packets_disjoint
  · simp only [postNetEvent, htype, if_false, List.append_nil]
    refine { hl with
      unordered_type := ?_
      packets := fun p hp => { hl.packets p hp with } }
    intro n hn
    obtain hold | rfl := List.mem_append.mp hn |>.imp_right List.mem_singleton.mp
    · exact hl.unordered_type n hold
    · exact htype

theorem write_sound (hl : Sound P E l) {packet : PacketStart}
    (hfits : l.EventsFit P E (.writePacket packet))
    (hstep : l.step P E fromServer (.writePacket packet) = some m) : Sound P E m := by
  obtain rfl := Option.some.inj hstep
  have hlength : packet.stream.bitNum = packet.header.length := by
    simp [PacketStart.stream, store, packetStream]
  have hfits' : l.sender.PacketFits P E (maxPacketDataSize * 8) packet.stream.mBufSize ()
      packet.stream.bitNum := hlength ▸ hfits
  obtain ⟨hwrote, -⟩ := writePacket_wrote (w := ⟨packet.stream, ()⟩) packet.room hfits'
  have hinside := writePacket_le_limit (c := l.sender) (P := P) (E := E)
    (w := ⟨packet.stream, ()⟩) packet.room
  have hunordered := l.sender.writePacket_unordered P E ⟨packet.stream, ()⟩
  have hordered := l.sender.writePacket_ordered P E ⟨packet.stream, ()⟩
  have hwindow := l.sender.writePacket_window P E ⟨packet.stream, ()⟩
  have hrest : (l.sender.writePacket P E ⟨packet.stream, ()⟩).conn = { l.sender with
      mUnorderedSendEventQueue :=
        (l.sender.writePacket P E ⟨packet.stream, ()⟩).conn.mUnorderedSendEventQueue
      mSendEventQueue :=
        (l.sender.writePacket P E ⟨packet.stream, ()⟩).conn.mSendEventQueue } := rfl
  generalize l.sender.writePacket P E ⟨packet.stream, ()⟩ = r at *
  have hsent : ∀ n ∈ r.ordered, n ∈ l.sender.mSendEventQueue :=
    fun n hn => hordered ▸ List.mem_append_left _ hn
  have hleft : ∀ n ∈ r.conn.mSendEventQueue, n ∈ l.sender.mSendEventQueue :=
    fun n hn => hordered ▸ List.mem_append_right _ hn
  have hincreasing := hl.queue_increasing
  rw [hordered] at hincreasing
  obtain ⟨hsentIncr, hleftIncr, hcross⟩ := List.pairwise_append.mp hincreasing
  have hacked := hl.acked_lt
  have hpacket : PacketSound P E { l with sender := r.conn }
      ⟨packet, r.unordered, r.ordered, r.w.stream, .inFlight⟩ := by
    constructor
    · exact hwrote
    · exact hinside
    · exact fun n hn => hl.queue_genuine n (hsent n hn)
    · exact hsentIncr
    · exact fun n hn => hl.queue_type n (hsent n hn)
    · exact fun n hn => hl.unordered_type n (hunordered ▸ List.mem_append_left _ hn)
    · exact fun _ n hn => hl.queue_fresh n (hsent n hn)
    · intro n hn
      have := hwindow n hn
      simp only [eventWindow] at this
      dsimp only
      omega
    · intro hfate
      cases hfate
    · exact fun _ n hn k hk => (hcross n hn k hk).ne
  constructor
  · rw [hrest]
    exact hl.next_send
  · exact hl.receiver
  · exact fun n hn => hl.queue_genuine n (hleft n hn)
  · exact hleftIncr
  · exact fun n hn => hl.queue_type n (hleft n hn)
  · exact fun n hn => hl.queue_fresh n (hleft n hn)
  · exact fun n hn => hl.unordered_type n (hunordered ▸ List.mem_append_right _ hn)
  · rw [hrest]
    exact hl.notify_got
  · rw [hrest]
    exact hl.acked_got
  · intro p hp
    obtain hold | hnew := List.mem_append.mp hp
    · have h := hl.packets p hold
      exact { h with
        queue_disjoint := fun hfate n hn k hk => h.queue_disjoint hfate n hn k (hleft k hk) }
    · obtain rfl := List.mem_singleton.mp hnew
      exact { hpacket with }
  · -- an older packet in flight has nothing in common with the queue the new one was taken from
    have hfresh : ∀ p ∈ l.packets, p.fate = .inFlight → SeqDisjoint p.ordered r.ordered :=
      fun p hp hfate n hn k hk => (hl.packets p hp).queue_disjoint hfate n hn k (hsent k hk)
    intro i j p q hi hj hne hpfate hqfate
    rw [List.getElem?_append] at hi hj
    split at hi <;> split at hj
    · exact hl.packets_disjoint i j p q hi hj hne hpfate hqfate
    · obtain rfl : q = _ := by simpa using (List.mem_of_getElem? hj)
      exact hfresh p (List.mem_of_getElem? hi) hpfate
    · obtain rfl : p = _ := by simpa using (List.mem_of_getElem? hi)
      exact fun n hn k hk => (hfresh q (List.mem_of_getElem? hj) hqfate k hk n hn).symm
    · have h₁ : i - l.packets.length < 1 := by
        simpa using (List.getElem?_eq_some_iff.mp hi).1
      have h₂ : j - l.packets.length < 1 := by
        simpa using (List.getElem?_eq_some_iff.mp hj).1
      omega

section settle

variable {index : ℕ} {p q : SentPacket ε} {fate : PacketFate}

theorem getElem?_settled {i : ℕ} (hp : l.packets[index]? = some p)
    (hq : (l.packets.set index (p.withFate fate))[i]? = some q) :
    i = index ∧ q = p.withFate fate ∨ i ≠ index ∧ l.packets[i]? = some q := by
  obtain ⟨hlt, -⟩ := List.getElem?_eq_some_iff.mp hp
  rw [List.getElem?_set] at hq
  split at hq
  · rename_i heq
    exact .inl ⟨heq.symm, by simpa [hlt] using hq.symm⟩
  · rename_i hne
    exact .inr ⟨fun h => hne h.symm, hq⟩

/-- Packets in flight stay disjoint when one of them settles. -/
theorem Sound.disjoint_settled (hl : Sound P E l) (hp : l.packets[index]? = some p)
    (hfate : fate ≠ .inFlight) (i j : ℕ) (q r : SentPacket ε)
    (hi : (l.packets.set index (p.withFate fate))[i]? = some q)
    (hj : (l.packets.set index (p.withFate fate))[j]? = some r) (hne : i ≠ j)
    (hqfate : q.fate = .inFlight) (hrfate : r.fate = .inFlight) :
    SeqDisjoint q.ordered r.ordered := by
  obtain ⟨-, rfl⟩ | ⟨-, hi⟩ := getElem?_settled hp hi
  · exact absurd hqfate hfate
  · obtain ⟨-, rfl⟩ | ⟨-, hj⟩ := getElem?_settled hp hj
    · exact absurd hrfate hfate
    · exact hl.packets_disjoint i j q r hi hj hne hqfate hrfate

end settle

theorem deliver_sound (hcodec : Codec P E fromServer (fun _ _ => True)) (hl : Sound P E l)
    {index : ℕ} {memory : ℕ → Bool}
    (hstep : l.step P E fromServer (.deliver index memory) = some m) : Sound P E m := by
  simp only [step] at hstep
  cases hp : l.packets[index]? with
  | none => simp [hp] at hstep
  | some p =>
    by_cases hfate : p.fate = .inFlight
    · have hpacket := hl.packets p (List.mem_of_getElem? hp)
      set s := receivedStream memory p.start.stream p.sent with hs
      have hdelivered : Delivered p.start.stream p.sent s :=
        receivedStream_delivered _ _ hpacket.inside
      have hfuel : p.unordered.length + p.ordered.length < s.maxReadBitNum + 1 := by
        have hsection := length_le_sectionBits (P := P) (E := E) p.unordered p.ordered () ()
          p.start.stream.bitNum
        have hposition := hpacket.complete.position
        have hsize := hdelivered.size
        omega
      obtain ⟨v, -, hread⟩ := readPacket_eq hcodec l.receiver (w := ⟨s, ()⟩) trivial hfuel
        (hdelivered.ahead hpacket.complete)
      simp only [hp, hfate, if_true, ← hs, hread, Option.some.injEq] at hstep
      subst hstep
      obtain ⟨hreceiver, hnext, hgot⟩ := hl.receiver.receive hpacket.genuine hpacket.increasing
        (hpacket.fresh hfate) hpacket.window
      have hother : ∀ seq, ¬ l.receiver.Got seq → (∀ n ∈ p.ordered, n.mSeqCount ≠ seq) →
          ¬ (l.receiver.receive p.ordered).2.Got seq := by
        intro seq hnot hne hnew
        obtain hold | ⟨n, hn, heq⟩ := (hgot seq).mp hnew
        · exact hnot hold
        · exact hne n hn heq
      constructor
      · exact hl.next_send
      · exact hreceiver
      · exact hl.queue_genuine
      · exact hl.queue_increasing
      · exact hl.queue_type
      · exact fun n hn => hother _ (hl.queue_fresh n hn)
          (fun k hk => hpacket.queue_disjoint hfate k hk n hn)
      · exact hl.unordered_type
      · exact fun n hn => (hgot _).mpr (.inl (hl.notify_got n hn))
      · exact fun seq hnonneg hacked => (hgot _).mpr (.inl (hl.acked_got seq hnonneg hacked))
      · intro q hq
        obtain ⟨j, hj⟩ := List.getElem?_of_mem hq
        obtain ⟨-, rfl⟩ | ⟨hne, hj⟩ := getElem?_settled hp hj
        · exact { hpacket with
            fresh := fun h => by cases h
            window := fun n hn => lt_of_lt_of_le (hpacket.window n hn) (by dsimp only; omega)
            got := fun _ n hn => (hgot _).mpr (.inr ⟨n, hn, rfl⟩)
            queue_disjoint := fun h => by cases h }
        · have hother' := hl.packets q (List.mem_of_getElem? hj)
          exact { hother' with
            fresh := fun hqfate n hn => hother _ (hother'.fresh hqfate n hn) (fun k hk =>
              hl.packets_disjoint index j p q hp hj (Ne.symm hne) hfate hqfate k hk n hn)
            window := fun n hn => lt_of_lt_of_le (hother'.window n hn) (by dsimp only; omega)
            got := fun hqfate n hn => (hgot _).mpr (.inl (hother'.got hqfate n hn)) }
      · exact hl.disjoint_settled hp (by decide)
    · simp only [hp, hfate, if_false, Option.some.injEq] at hstep
      exact hstep ▸ hl

theorem received_sound (hl : Sound P E l) {index : ℕ}
    (hstep : l.step P E fromServer (.packetReceived index) = some m) : Sound P E m := by
  simp only [step] at hstep
  cases hp : l.packets[index]? with
  | none => simp [hp] at hstep
  | some p =>
    by_cases hfate : p.fate = .processed
    · simp only [hp, hfate, if_true, Option.some.injEq] at hstep
      subst hstep
      have hpacket := hl.packets p (List.mem_of_getElem? hp)
      have hfilter := filter_eventList hpacket.ordered_type hpacket.unordered_type
      set notes := insertNotes l.sender.mNotifyEventList p.ordered with hnotes
      obtain ⟨taken, hsplit, -, hlast, hseqs, -⟩ :=
        takeConsecutive_spec notes (l.sender.mLastAckedEventSeq + 1)
      have hsender : l.sender.packetReceived E p.eventList = { l.sender with
          mNotifyEventList := (takeConsecutive notes (l.sender.mLastAckedEventSeq + 1)).2.1
          mLastAckedEventSeq :=
            (takeConsecutive notes (l.sender.mLastAckedEventSeq + 1)).2.2 - 1 } := by
        rw [packetReceived, SentPacket.eventList, hfilter]
      have hall : ∀ n ∈ notes, l.receiver.Got n.mSeqCount := by
        intro n hn
        obtain hold | hnew := mem_insertNotes.mp hn
        · exact hl.notify_got n hold
        · exact hpacket.got hfate n hnew
      rw [hsender]
      generalize takeConsecutive notes (l.sender.mLastAckedEventSeq + 1) = result at *
      obtain ⟨events, left, last⟩ := result
      dsimp only at *
      refine { hl with
        notify_got := fun n hn => hall n (hsplit ▸ List.mem_append_right _ hn)
        acked_got := ?_
        packets := ?_
        packets_disjoint := hl.disjoint_settled hp (by decide) }
      · intro seq hnonneg hacked
        dsimp only at hacked
        by_cases hold : seq ≤ l.sender.mLastAckedEventSeq
        · exact hl.acked_got seq hnonneg hold
        · -- a number acknowledged now was taken off the notify list
          have hi : (seq - (l.sender.mLastAckedEventSeq + 1)).toNat < taken.length := by omega
          have hseq := hseqs _ hi
          have hgot := hall _ (hsplit ▸ List.mem_append_left _ (List.getElem_mem hi))
          rw [hseq] at hgot
          convert hgot using 1
          omega
      · intro q hq
        obtain ⟨j, hj⟩ := List.getElem?_of_mem hq
        obtain ⟨-, rfl⟩ | ⟨-, hj⟩ := getElem?_settled hp hj
        · exact { hpacket with
            fresh := fun h => by cases h
            got := fun h => by cases h
            queue_disjoint := fun h => by cases h }
        · exact { hl.packets q (List.mem_of_getElem? hj) with }
    · simp [hp, hfate] at hstep

theorem dropped_sound (hl : Sound P E l) {index : ℕ}
    (hstep : l.step P E fromServer (.packetDropped index) = some m) : Sound P E m := by
  simp only [step] at hstep
  cases hp : l.packets[index]? with
  | none => simp [hp] at hstep
  | some p =>
    by_cases hfate : p.fate = .inFlight
    · simp only [hp, hfate, if_true, Option.some.injEq] at hstep
      subst hstep
      have hpacket := hl.packets p (List.mem_of_getElem? hp)
      have hfilter := filter_eventList hpacket.ordered_type hpacket.unordered_type
      have hsender : l.sender.packetDropped E p.eventList = { l.sender with
          mSendEventQueue := insertNotes l.sender.mSendEventQueue p.ordered
          mUnorderedSendEventQueue :=
            (p.eventList.filter (fun n => E.mGuaranteeType n.mEvent = .guaranteed)).reverse ++
              l.sender.mUnorderedSendEventQueue } := by
        rw [packetDropped, SentPacket.eventList, hfilter]
      have hqueue : ∀ n, n ∈ insertNotes l.sender.mSendEventQueue p.ordered ↔
          n ∈ l.sender.mSendEventQueue ∨ n ∈ p.ordered := fun n => mem_insertNotes
      rw [hsender]
      constructor
      · exact hl.next_send
      · exact hl.receiver
      · intro n hn
        exact ((hqueue n).mp hn).elim (hl.queue_genuine n) (hpacket.genuine n)
      · refine insertNotes_increasing hl.queue_increasing hpacket.increasing ?_
        exact fun n hn k hk => (hpacket.queue_disjoint hfate k hk n hn).symm
      · intro n hn
        exact ((hqueue n).mp hn).elim (hl.queue_type n) (hpacket.ordered_type n)
      · intro n hn
        exact ((hqueue n).mp hn).elim (hl.queue_fresh n) (hpacket.fresh hfate n)
      · intro n hn
        obtain hrequeued | hold := List.mem_append.mp hn
        · obtain ⟨-, htype⟩ := List.mem_filter.mp (List.mem_reverse.mp hrequeued)
          rw [of_decide_eq_true htype]
          decide
        · exact hl.unordered_type n hold
      · exact hl.notify_got
      · exact hl.acked_got
      · intro q hq
        obtain ⟨j, hj⟩ := List.getElem?_of_mem hq
        obtain ⟨-, rfl⟩ | ⟨hne, hj⟩ := getElem?_settled hp hj
        · exact { hpacket with
            fresh := fun h => by cases h
            got := fun h => by cases h
            queue_disjoint := fun h => by cases h }
        · have hother := hl.packets q (List.mem_of_getElem? hj)
          refine { hother with queue_disjoint := ?_ }
          intro hqfate n hn k hk
          obtain hold | hrequeued := (hqueue k).mp hk
          · exact hother.queue_disjoint hqfate n hn k hold
          · exact hl.packets_disjoint j index q p hj hp hne hqfate hfate n hn k hrequeued
      · exact hl.disjoint_settled hp (by decide)
    · simp [hp, hfate] at hstep

theorem step_sound (hcodec : Codec P E fromServer (fun _ _ => True)) (hl : Sound P E l)
    {a : Action ε} (hfits : l.EventsFit P E a) (hstep : l.step P E fromServer a = some m) :
    Sound P E m := by
  cases a with
  | postNetEvent event => exact post_sound hl event hstep
  | writePacket packet => exact write_sound hl hfits hstep
  | deliver index memory => exact deliver_sound hcodec hl hstep
  | packetReceived index => exact received_sound hl hstep
  | packetDropped index => exact dropped_sound hl hstep

theorem sound_of_run (hcodec : Codec P E fromServer (fun _ _ => True)) {as : List (Action ε)}
    (run : Run (step P E fromServer) (EventsFit P E) start as l) : Sound P E l :=
  run.invariant (I := Sound P E) (fun _ _ _ hs hfits hstep => step_sound hcodec hs hfits hstep)
    start_sound

/-- A packet of the largest size without a header. -/
def barePacket : PacketStart := ⟨fun _ => false, 1500, [], by decide, by decide⟩

/-- An event that is posted, written and delivered. -/
def oneEvent (event : BufferEvent) : List (Action BufferEvent) :=
  [.postNetEvent event, .writePacket barePacket, .deliver 0 (fun _ => false)]

end EventLink

end TNL
