import TNL.Event.NoteLists
import TNL.Event.Notes
import Mathlib.Data.List.InsertIdx

/-!
# Guaranteed events are conserved

Every ordered note is in one place: the send queue, a packet in flight, the
list of notes to be acknowledged, or among those notified. The ordered notes
notified are the first of those posted. The notes of a lost packet are merged
back by number, which needs both lists to be increasing.
-/
namespace TNL
open Library Memory BitStream

namespace EventConnection

variable {ε σ : Type*} {E : EventClass ε σ}

def isOrdered (E : EventClass ε σ) (n : EventNote ε) : Bool :=
  E.mGuaranteeType n.mEvent = .guaranteedOrdered

def isGuaranteed (E : EventClass ε σ) (n : EventNote ε) : Bool :=
  E.mGuaranteeType n.mEvent = .guaranteed

/-- The notes of the ordered events posted. -/
def orderedNotes (E : EventClass ε σ) (posted : List ε) : List (EventNote ε) :=
  (posted.filter fun e => E.mGuaranteeType e = .guaranteedOrdered).zipIdx.map
    fun x => ⟨x.1, x.2⟩

theorem orderedNotes_ordered (posted : List ε) {theEvent : ε}
    (h : E.mGuaranteeType theEvent = .guaranteedOrdered) :
    orderedNotes E (posted ++ [theEvent]) =
      orderedNotes E posted ++ [⟨theEvent, (orderedNotes E posted).length⟩] := by
  simp [orderedNotes, h, List.zipIdx_append]

theorem orderedNotes_other (posted : List ε) {theEvent : ε}
    (h : E.mGuaranteeType theEvent ≠ .guaranteedOrdered) :
    orderedNotes E (posted ++ [theEvent]) = orderedNotes E posted := by
  simp [orderedNotes, h]

theorem orderedNotes_seq {posted : List ε} {i : ℕ} (hi : i < (orderedNotes E posted).length) :
    (orderedNotes E posted)[i].mSeqCount = i := by
  simp [orderedNotes]

theorem orderedNotes_increasing (posted : List ε) : Increasing (orderedNotes E posted) := by
  apply List.pairwise_iff_getElem.mpr
  intro i j hi hj hij
  rw [orderedNotes_seq hi, orderedNotes_seq hj]
  omega

/-- The events of the sender and where their notes are. -/
structure Conserved (E : EventClass ε σ) (posted : List ε) (c : EventConnection ε)
    (inFlight : List (List (EventNote ε))) (delivered : List (EventNote ε)) : Prop where
  ordered : (c.mSendEventQueue ++ inFlight.flatten.filter (isOrdered E) ++ c.mNotifyEventList ++
    delivered.filter (isOrdered E)).Perm (orderedNotes E posted)
  guaranteed : (((c.mUnorderedSendEventQueue ++ inFlight.flatten ++ delivered).filter
    (isGuaranteed E)).map EventNote.mEvent).Perm
      (posted.filter fun e => E.mGuaranteeType e = .guaranteed)
  unordered : ∀ n ∈ c.mUnorderedSendEventQueue, isOrdered E n = false
  next : c.mNextSendEventSeq = (orderedNotes E posted).length
  send : Increasing c.mSendEventQueue
  notify : Increasing c.mNotifyEventList
  packets : ∀ l ∈ inFlight, Increasing (l.filter (isOrdered E))
  delivered_eq : delivered.filter (isOrdered E) =
    (orderedNotes E posted).take (c.mLastAckedEventSeq + 1).toNat
  acked_nonneg : 0 ≤ c.mLastAckedEventSeq + 1
  acked_le : c.mLastAckedEventSeq + 1 ≤ (orderedNotes E posted).length
  few : (c.mSendEventQueue ++ c.mUnorderedSendEventQueue ++ inFlight.flatten ++
    c.mNotifyEventList).length ≤ posted.length

namespace Conserved

variable {posted : List ε} {c : EventConnection ε} {inFlight : List (List (EventNote ε))}
  {delivered : List (EventNote ε)}

theorem new : Conserved E [] (EventConnection.new (ε := ε)) [] [] := by
  constructor <;> simp [EventConnection.new, orderedNotes, Increasing, firstValidSendEventSeq]

/-- No two ordered notes have one number. -/
theorem seqDisjoint_of_perm {front back : List (EventNote ε)} (rest : List (EventNote ε))
    (hperm : (front ++ back ++ rest).Perm (orderedNotes E posted)) : SeqDisjoint front back := by
  have hnodup : ((orderedNotes E posted).map EventNote.mSeqCount).Nodup :=
    (List.pairwise_map.mpr (orderedNotes_increasing posted)).imp fun hlt => hlt.ne
  have hall := ((hperm.map EventNote.mSeqCount).nodup_iff).mpr hnodup
  rw [List.map_append, List.nodup_append, List.map_append, List.nodup_append] at hall
  intro n hn m hm
  exact hall.1.2.2 _ (List.mem_map_of_mem hn) _ (List.mem_map_of_mem hm)

theorem isOrdered_of_mem {n : EventNote ε} (hn : n ∈ orderedNotes E posted) :
    isOrdered E n = true := by
  simp only [orderedNotes, List.mem_map] at hn
  rcases hn with ⟨⟨e, i⟩, hmem, rfl⟩
  have hevent := List.fst_mem_of_mem_zipIdx hmem
  simpa [isOrdered] using (List.mem_filter.mp hevent).2

theorem not_isGuaranteed {n : EventNote ε} (hn : isOrdered E n = true) :
    isGuaranteed E n = false := by
  simp only [isOrdered, decide_eq_true_eq] at hn
  simp [isGuaranteed, hn]

theorem send_ordered (h : Conserved E posted c inFlight delivered) :
    ∀ n ∈ c.mSendEventQueue, isOrdered E n = true := by
  intro n hn
  apply isOrdered_of_mem
  apply h.ordered.mem_iff.mp
  simp [hn]

theorem notify_ordered (h : Conserved E posted c inFlight delivered) :
    ∀ n ∈ c.mNotifyEventList, isOrdered E n = true := by
  intro n hn
  apply isOrdered_of_mem
  apply h.ordered.mem_iff.mp
  simp [hn]

theorem post (h : Conserved E posted c inFlight delivered) (theEvent : ε) :
    Conserved E (posted ++ [theEvent]) (c.postNetEvent E theEvent) inFlight delivered := by
  have hfew := h.few
  by_cases htype : E.mGuaranteeType theEvent = .guaranteedOrdered
  · have hposted := orderedNotes_ordered posted htype
    have hlength : (orderedNotes E (posted ++ [theEvent])).length =
        (orderedNotes E posted).length + 1 := by rw [hposted, List.length_append]; rfl
    have hacked := h.acked_le
    rw [EventConnection.postNetEvent, if_pos htype]
    constructor
    · rw [hposted, ← h.next]
      simp only [List.append_assoc]
      apply (List.Perm.append_left _ List.perm_append_comm).trans
      simpa only [List.append_assoc] using h.ordered.append_right _
    · simpa [htype] using h.guaranteed
    · exact h.unordered
    · rw [hlength, h.next]
      push_cast
      rfl
    · apply List.pairwise_append.mpr
      refine ⟨h.send, List.pairwise_singleton .., ?_⟩
      intro n hn m hm
      rw [List.mem_singleton] at hm
      subst hm
      have hmem : n ∈ orderedNotes E posted := h.ordered.mem_iff.mp (by simp [hn])
      rcases List.getElem_of_mem hmem with ⟨i, hi, rfl⟩
      rw [orderedNotes_seq hi, h.next]
      exact Int.ofNat_lt.mpr hi
    · exact h.notify
    · exact h.packets
    · rw [h.delivered_eq, hposted, List.take_append_of_le_length]
      exact Int.toNat_le.mpr hacked
    · exact h.acked_nonneg
    · rw [hlength]
      push_cast
      omega
    · simp only [List.length_append, List.length_singleton] at hfew ⊢
      omega
  · have hposted := orderedNotes_other posted htype
    rw [EventConnection.postNetEvent, if_neg htype]
    constructor
    · rw [hposted]
      exact h.ordered
    · cases hevent : E.mGuaranteeType theEvent with
      | guaranteedOrdered => exact absurd hevent htype
      | guaranteed =>
        simp only [List.filter_append, List.map_append, List.append_assoc]
        have hperm := h.guaranteed
        simp only [List.filter_append, List.map_append, List.append_assoc] at hperm
        rw [show [theEvent].filter (fun e => E.mGuaranteeType e = .guaranteed) = [theEvent] by
          simp [hevent]]
        simp only [isGuaranteed, hevent, List.filter_cons, decide_true, if_true, List.filter_nil,
          List.map_cons, List.map_nil]
        apply (List.Perm.append_left _ List.perm_append_comm).trans
        rw [← List.append_assoc]
        simpa only [List.append_assoc] using hperm.append_right [theEvent]
      | unguaranteed => simpa [isGuaranteed, hevent] using h.guaranteed
    · intro n hn
      rcases List.mem_append.mp hn with hold | hnew
      · exact h.unordered n hold
      · rw [List.mem_singleton] at hnew
        simp [hnew, isOrdered, htype]
    · rw [hposted]
      exact h.next
    · exact h.send
    · exact h.notify
    · exact h.packets
    · rw [hposted]
      exact h.delivered_eq
    · exact h.acked_nonneg
    · rw [hposted]
      exact h.acked_le
    · simp only [List.length_append, List.length_singleton] at hfew ⊢
      omega

/-- What a packet takes from the two queues. -/
theorem writePacket_split (c : EventConnection ε) (P : EventParameters) (w : PackStream σ) :
    c.mSendEventQueue = (c.writePacket P E w).ordered ++ (c.writePacket P E w).conn.mSendEventQueue ∧
      c.mUnorderedSendEventQueue = (c.writePacket P E w).unordered ++
        (c.writePacket P E w).conn.mUnorderedSendEventQueue :=
  ⟨recordLoop_append .., recordLoop_append ..⟩

theorem write (h : Conserved E posted c inFlight delivered) (P : EventParameters)
    (w : PackStream σ) :
    Conserved E posted (c.writePacket P E w).conn
      (inFlight ++ [(c.writePacket P E w).eventList]) delivered := by
  rcases writePacket_split (E := E) c P w with ⟨hsend, hunordered⟩
  have hfew := h.few
  have hordered := h.ordered
  have hguaranteed := h.guaranteed
  have hincreasing := h.send
  have hnotOrdered := h.unordered
  have hallOrdered := h.send_ordered
  rw [hsend] at hordered hincreasing hallOrdered
  rw [hunordered] at hguaranteed hnotOrdered
  rw [hsend, hunordered] at hfew
  have hfilter : ((c.writePacket P E w).eventList).filter (isOrdered E) =
      (c.writePacket P E w).ordered := by
    rw [WriteResult.eventList, List.filter_append, List.filter_eq_nil_iff.mpr, List.nil_append,
      List.filter_eq_self.mpr]
    · exact fun n hn => hallOrdered n (List.mem_append_left _ hn)
    · exact fun n hn => by simp [hnotOrdered n (List.mem_append_left _ hn)]
  have hfilter' : ((c.writePacket P E w).eventList).filter (isGuaranteed E) =
      (c.writePacket P E w).unordered.filter (isGuaranteed E) := by
    have hnone : (c.writePacket P E w).ordered.filter (isGuaranteed E) = [] := by
      apply List.filter_eq_nil_iff.mpr
      intro n hn
      simp [not_isGuaranteed (hallOrdered n (List.mem_append_left _ hn))]
    rw [WriteResult.eventList, List.filter_append, hnone, List.append_nil]
  have hnotify : (c.writePacket P E w).conn.mNotifyEventList = c.mNotifyEventList := rfl
  constructor
  · rw [List.flatten_append, List.filter_append, List.flatten_singleton, hfilter, hnotify]
    apply List.Perm.trans _ hordered
    classical
    rw [List.perm_iff_count]
    intro n
    simp only [List.count_append]
    omega
  · simp only [List.flatten_append, List.flatten_singleton, List.filter_append, hfilter',
      List.map_append] at hguaranteed ⊢
    apply List.Perm.trans _ hguaranteed
    classical
    rw [List.perm_iff_count]
    intro n
    simp only [List.count_append]
    omega
  · exact fun n hn => hnotOrdered n (List.mem_append_right _ hn)
  · exact h.next
  · exact (List.pairwise_append.mp hincreasing).2.1
  · exact h.notify
  · intro l hl
    rcases List.mem_append.mp hl with hold | hnew
    · exact h.packets l hold
    · rw [List.mem_singleton] at hnew
      rw [hnew, hfilter]
      exact (List.pairwise_append.mp hincreasing).1
  · exact h.delivered_eq
  · exact h.acked_nonneg
  · exact h.acked_le
  · rw [hnotify]
    simp only [List.length_append, List.flatten_append, List.flatten_singleton,
      WriteResult.eventList] at hfew ⊢
    omega

theorem flatten_perm {α : Type*} {lists : List (List α)} {index : ℕ} {l : List α}
    (hl : lists[index]? = some l) :
    lists.flatten.Perm (l ++ (lists.eraseIdx index).flatten) := by
  rcases List.getElem?_eq_some_iff.mp hl with ⟨hlt, rfl⟩
  have hsplit : lists = lists.take index ++ lists[index] :: lists.drop (index + 1) := by
    rw [← List.drop_eq_getElem_cons hlt, List.take_append_drop]
  rw [List.eraseIdx_eq_take_drop_succ]
  conv_lhs => rw [hsplit]
  rw [List.flatten_append, List.flatten_cons, List.flatten_append]
  exact List.perm_append_comm_assoc ..

theorem insertNotes_perm (list notes : List (EventNote ε)) :
    (insertNotes list notes).Perm (notes ++ list) :=
  foldl_insertInto_perm (fun n m : EventNote ε => decide (n.mSeqCount < m.mSeqCount)) ([], list)
    notes

theorem filter_length_le (l : List (EventNote ε)) :
    (l.filter (isOrdered E)).length + (l.filter (isGuaranteed E)).length ≤ l.length := by
  induction l with
  | nil => simp
  | cons n l ih =>
    cases hordered : isOrdered E n with
    | true =>
      simp only [List.filter_cons, hordered, not_isGuaranteed hordered, if_true, List.length_cons]
      simp only [Bool.false_eq_true, if_false]
      omega
    | false =>
      cases hguaranteed : isGuaranteed E n <;>
        simp [hordered, hguaranteed] <;> omega

theorem drop (h : Conserved E posted c inFlight delivered) {index : ℕ} {l : List (EventNote ε)}
    (hl : inFlight[index]? = some l) :
    Conserved E posted (c.packetDropped E l) (inFlight.eraseIdx index) delivered := by
  have hflat := flatten_perm hl
  have hfew := h.few
  have hinsert := insertNotes_perm c.mSendEventQueue (l.filter (isOrdered E))
  have hmem : l ∈ inFlight := List.mem_of_getElem? hl
  have hcount := hflat.filter (isOrdered E)
  rw [List.filter_append] at hcount
  constructor
  · change (insertNotes c.mSendEventQueue (l.filter (isOrdered E)) ++ _ ++ _ ++ _).Perm _
    apply List.Perm.trans _ h.ordered
    classical
    rw [List.perm_iff_count] at hinsert hcount ⊢
    intro n
    have hi := hinsert n
    have hc := hcount n
    simp only [List.count_append] at hi hc ⊢
    change _ + _ + List.count n c.mNotifyEventList + _ = _
    omega
  · change (((((l.filter (isGuaranteed E)).reverse ++ c.mUnorderedSendEventQueue) ++ _ ++
      delivered).filter (isGuaranteed E)).map EventNote.mEvent).Perm _
    apply List.Perm.trans _ h.guaranteed
    apply List.Perm.map
    have hperm := hflat.filter (isGuaranteed E)
    have hself : (l.filter (isGuaranteed E)).filter (isGuaranteed E) =
        l.filter (isGuaranteed E) := by simp
    classical
    rw [List.perm_iff_count] at hperm ⊢
    intro n
    have hp := hperm n
    simp only [List.filter_append, List.filter_reverse, hself, List.count_append,
      List.count_reverse] at hp ⊢
    omega
  · intro n hn
    change n ∈ (l.filter (isGuaranteed E)).reverse ++ c.mUnorderedSendEventQueue at hn
    rcases List.mem_append.mp hn with hnew | hold
    · have hguaranteed := (List.mem_filter.mp (List.mem_reverse.mp hnew)).2
      simp only [isGuaranteed, decide_eq_true_eq] at hguaranteed
      simp [isOrdered, hguaranteed]
    · exact h.unordered n hold
  · exact h.next
  · apply insertNotes_increasing h.send (h.packets l hmem)
    apply seqDisjoint_of_perm (E := E)
      ((inFlight.eraseIdx index).flatten.filter (isOrdered E) ++ c.mNotifyEventList ++
        delivered.filter (isOrdered E))
    apply List.Perm.trans _ h.ordered
    simp only [← List.append_assoc]
    apply List.Perm.append_right
    apply List.Perm.append_right
    rw [List.append_assoc]
    exact hcount.symm.append_left _
  · exact h.notify
  · exact fun l' hl' => h.packets l' (List.mem_of_mem_eraseIdx hl')
  · exact h.delivered_eq
  · exact h.acked_nonneg
  · exact h.acked_le
  · have hlength := hflat.length_eq
    have hinserted := hinsert.length_eq
    have hdisjoint := filter_length_le (E := E) l
    change ((insertNotes c.mSendEventQueue (l.filter (isOrdered E)) ++
      ((l.filter (isGuaranteed E)).reverse ++ c.mUnorderedSendEventQueue) ++ _ ++
        c.mNotifyEventList).length ≤ _)
    simp only [List.length_append, List.length_reverse] at hfew hlength hinserted ⊢
    omega

/-- What the notes taken off `mNotifyEventList` are: the next ordered ones. -/
theorem taken_eq (h : Conserved E posted c inFlight delivered) {taken : List (EventNote ε)}
    (hmem : ∀ n ∈ taken, n ∈ orderedNotes E posted)
    (hseqs : ∀ i (hi : i < taken.length), taken[i].mSeqCount = c.mLastAckedEventSeq + 1 + i) :
    c.mLastAckedEventSeq + 1 + taken.length ≤ (orderedNotes E posted).length ∧
      (orderedNotes E posted).take (c.mLastAckedEventSeq + 1).toNat ++ taken =
        (orderedNotes E posted).take (c.mLastAckedEventSeq + 1 + taken.length).toNat := by
  have hnonneg := h.acked_nonneg
  have hle := h.acked_le
  have hat : ∀ i (hi : i < taken.length),
      (orderedNotes E posted)[(c.mLastAckedEventSeq + 1).toNat + i]? = some taken[i] := by
    intro i hi
    rcases List.getElem_of_mem (hmem _ (List.getElem_mem hi)) with ⟨j, hj, hget⟩
    have hseq := hseqs i hi
    rw [← hget, orderedNotes_seq hj] at hseq
    rw [show (c.mLastAckedEventSeq + 1).toNat + i = j by omega, List.getElem?_eq_getElem hj, hget]
  constructor
  · rcases Nat.eq_zero_or_pos taken.length with hzero | hpos
    · omega
    · have hlast := hat (taken.length - 1) (by omega)
      rcases List.getElem?_eq_some_iff.mp hlast with ⟨hlt, -⟩
      omega
  · have hsplit : (c.mLastAckedEventSeq + 1 + taken.length).toNat =
        (c.mLastAckedEventSeq + 1).toNat + taken.length := by omega
    rw [hsplit, List.take_add]
    congr 1
    apply List.ext_getElem?
    intro i
    rw [List.getElem?_take, List.getElem?_drop]
    split
    · rename_i hi
      rw [hat i hi, List.getElem?_eq_getElem hi]
    · rename_i hi
      exact List.getElem?_eq_none (by omega)

theorem receive (h : Conserved E posted c inFlight delivered) {index : ℕ} {l : List (EventNote ε)}
    (hl : inFlight[index]? = some l) {taken left : List (EventNote ε)}
    (hsplit : insertNotes c.mNotifyEventList (l.filter (isOrdered E)) = taken ++ left)
    (hleft : (c.packetReceived E l).mNotifyEventList = left) :
    Conserved E posted (c.packetReceived E l) (inFlight.eraseIdx index)
        (delivered ++ (l.filter (fun n => !isOrdered E n) ++ taken)) := by
  have hflat := flatten_perm hl
  have hfew := h.few
  have hinsert := insertNotes_perm c.mNotifyEventList (l.filter (isOrdered E))
  have hcount := hflat.filter (isOrdered E)
  rw [List.filter_append] at hcount
  obtain ⟨hlast, hseqs⟩ : (c.packetReceived E l).mLastAckedEventSeq =
        c.mLastAckedEventSeq + taken.length ∧
      ∀ i (hi : i < taken.length), taken[i].mSeqCount = c.mLastAckedEventSeq + 1 + i := by
    rcases takeConsecutive_spec (insertNotes c.mNotifyEventList (l.filter (isOrdered E)))
      (c.mLastAckedEventSeq + 1) with ⟨taken', hsplit', -, hnext, hseqs, -⟩
    change _ = taken' ++ (c.packetReceived E l).mNotifyEventList at hsplit'
    rw [hleft, hsplit] at hsplit'
    obtain rfl := List.append_cancel_right hsplit'
    refine ⟨?_, hseqs⟩
    have hdef : (c.packetReceived E l).mLastAckedEventSeq = (takeConsecutive (insertNotes
        c.mNotifyEventList (l.filter (isOrdered E))) (c.mLastAckedEventSeq + 1)).2.2 - 1 := rfl
    rw [hdef, hnext]
    omega
  have hmem : ∀ n ∈ taken ++ left, n ∈ orderedNotes E posted := by
    intro n hn
    rw [← hsplit, hinsert.mem_iff] at hn
    apply h.ordered.mem_iff.mp
    rcases List.mem_append.mp hn with hnew | hold
    · have hflight : n ∈ inFlight.flatten.filter (isOrdered E) :=
        hcount.mem_iff.mpr (List.mem_append_left _ hnew)
      exact List.mem_append_left _ (List.mem_append_left _ (List.mem_append_right _ hflight))
    · exact List.mem_append_left _ (List.mem_append_right _ hold)
  rcases h.taken_eq (fun n hn => hmem n (List.mem_append_left _ hn)) hseqs with ⟨hbound, htake⟩
  have htakenOrdered : taken.filter (isOrdered E) = taken :=
    List.filter_eq_self.mpr fun n hn => isOrdered_of_mem (hmem n (List.mem_append_left _ hn))
  have hrest : (l.filter fun n => !isOrdered E n).filter (isOrdered E) = [] := by simp
  have hsend : (c.packetReceived E l).mSendEventQueue = c.mSendEventQueue := rfl
  have hunordered : (c.packetReceived E l).mUnorderedSendEventQueue =
      c.mUnorderedSendEventQueue := rfl
  have hmerged : Increasing (taken ++ left) := by
    rw [← hsplit]
    apply insertNotes_increasing h.notify (h.packets l (List.mem_of_getElem? hl))
    apply seqDisjoint_of_perm (E := E)
      (c.mSendEventQueue ++ (inFlight.eraseIdx index).flatten.filter (isOrdered E) ++
        delivered.filter (isOrdered E))
    apply List.Perm.trans _ h.ordered
    classical
    rw [List.perm_iff_count] at hcount ⊢
    intro n
    have hc := hcount n
    simp only [List.count_append] at hc ⊢
    omega
  constructor
  · rw [hsend, hleft, List.filter_append, List.filter_append, hrest, htakenOrdered]
    apply List.Perm.trans _ h.ordered
    rw [hsplit] at hinsert
    classical
    rw [List.perm_iff_count] at hinsert hcount ⊢
    intro n
    have hi := hinsert n
    have hc := hcount n
    simp only [List.count_append, List.count_nil] at hi hc ⊢
    omega
  · rw [hunordered]
    apply List.Perm.trans _ h.guaranteed
    apply List.Perm.map
    have hperm := hflat.filter (isGuaranteed E)
    have htakenNone : taken.filter (isGuaranteed E) = [] := by
      apply List.filter_eq_nil_iff.mpr
      intro n hn
      simp [not_isGuaranteed (isOrdered_of_mem (hmem n (List.mem_append_left _ hn)))]
    have hall : (l.filter fun n => !isOrdered E n).filter (isGuaranteed E) =
        l.filter (isGuaranteed E) := by
      rw [List.filter_filter]
      apply List.filter_congr
      intro n _
      cases hn : isOrdered E n <;> simp [not_isGuaranteed, hn]
    simp only [List.filter_append, htakenNone, hall] at hperm ⊢
    classical
    rw [List.perm_iff_count] at hperm ⊢
    intro n
    have hp := hperm n
    simp only [List.count_append, List.count_nil] at hp ⊢
    omega
  · exact h.unordered
  · exact h.next
  · exact h.send
  · rw [hleft]
    exact (List.pairwise_append.mp hmerged).2.1
  · exact fun l' hl' => h.packets l' (List.mem_of_mem_eraseIdx hl')
  · rw [List.filter_append, List.filter_append, hrest, htakenOrdered, List.nil_append, hlast,
      h.delivered_eq, htake]
    congr 2
    omega
  · have := h.acked_nonneg
    rw [hlast]
    omega
  · rw [hlast]
    omega
  · have hlength := hflat.length_eq
    have hinserted := hinsert.length_eq
    have hdisjoint := filter_length_le (E := E) l
    rw [hsplit] at hinserted
    rw [hsend, hunordered, hleft]
    simp only [List.length_append] at hfew hlength hinserted ⊢
    omega

/-- Two kinds of events are guaranteed. -/
theorem kinds_perm (E : EventClass ε σ) (events : List ε) :
    (events.filter fun e => E.mGuaranteeType e ≠ .unguaranteed).Perm
      ((events.filter fun e => E.mGuaranteeType e = .guaranteedOrdered) ++
        events.filter fun e => E.mGuaranteeType e = .guaranteed) := by
  induction events with
  | nil => rfl
  | cons e events ih =>
    cases htype : E.mGuaranteeType e with
    | guaranteedOrdered => simpa [htype] using ih
    | guaranteed =>
      simp only [List.filter_cons, htype]
      exact (ih.cons e).trans List.perm_middle.symm
    | unguaranteed => simpa [htype] using ih

theorem map_orderedNotes (posted : List ε) : (orderedNotes E posted).map EventNote.mEvent =
    posted.filter fun e => E.mGuaranteeType e = .guaranteedOrdered := by
  rw [orderedNotes, List.map_map]
  exact List.zipIdx_map_fst ..

theorem events_perm (h : Conserved E posted c inFlight delivered) :
    (((c.mSendEventQueue ++ c.mUnorderedSendEventQueue ++ c.mNotifyEventList ++ inFlight.flatten ++
      delivered).map EventNote.mEvent).filter fun e => E.mGuaranteeType e ≠ .unguaranteed).Perm
        (posted.filter fun e => E.mGuaranteeType e ≠ .unguaranteed) := by
  have hsend : c.mSendEventQueue.filter (isOrdered E) = c.mSendEventQueue :=
    List.filter_eq_self.mpr h.send_ordered
  have hnotify : c.mNotifyEventList.filter (isOrdered E) = c.mNotifyEventList :=
    List.filter_eq_self.mpr h.notify_ordered
  have hunordered : c.mUnorderedSendEventQueue.filter (isOrdered E) = [] :=
    List.filter_eq_nil_iff.mpr fun n hn => by simp [h.unordered n hn]
  have hsend' : c.mSendEventQueue.filter (isGuaranteed E) = [] :=
    List.filter_eq_nil_iff.mpr fun n hn => by simp [not_isGuaranteed (h.send_ordered n hn)]
  have hnotify' : c.mNotifyEventList.filter (isGuaranteed E) = [] :=
    List.filter_eq_nil_iff.mpr fun n hn => by simp [not_isGuaranteed (h.notify_ordered n hn)]
  apply (kinds_perm E _).trans
  apply List.Perm.trans _ (kinds_perm E posted).symm
  rw [List.filter_map, List.filter_map, ← map_orderedNotes]
  apply List.Perm.append
  · apply List.Perm.map
    change (List.filter (isOrdered E) _).Perm _
    simp only [List.filter_append, hsend, hnotify, hunordered]
    apply List.Perm.trans _ h.ordered
    classical
    rw [List.perm_iff_count]
    intro n
    simp only [List.count_append, List.count_nil]
    omega
  · apply List.Perm.trans _ h.guaranteed
    apply List.Perm.map
    change (List.filter (isGuaranteed E) _).Perm _
    simp only [List.filter_append, hsend', hnotify', List.nil_append, List.append_nil]
    rfl

end Conserved

end EventConnection

namespace NoteSystem
open NoteConnection EventConnection Placed

variable {ε σ : Type*} {P : EventParameters} {E : EventClass ε σ} {s t : NoteSystem ε}
  {send unordered notify : List (Placed ε)} {inFlight : List (List (Placed ε))}

/-- The notes for which `notifyDelivered` was called with true. -/
def delivered (s : NoteSystem ε) : List (EventNote ε) :=
  (s.conn.notified.filter Prod.snd).map Prod.fst

/-- What is in memory, and that nothing is lost. -/
structure Stored (E : EventClass ε σ) (s : NoteSystem ε) (send unordered notify : List (Placed ε))
    (inFlight : List (List (Placed ε))) : Prop where
  holds : s.conn.Holds send unordered notify
  heads : s.inFlight = inFlight.map fun nodes => (addresses nodes).head?
  packets : ∀ nodes ∈ inFlight, s.conn.memory.Segment (addresses nodes).head? nodes none
  nodup : (addresses (send ++ unordered ++ notify ++ inFlight.flatten)).Nodup
  conserved : Conserved E s.posted (s.conn.lists send unordered notify)
    (inFlight.map (List.map Prod.snd)) s.delivered

/-- An allocator returns free memory, and a notification is for a packet in flight. -/
def Possible (s : NoteSystem ε) : Action ε σ → Prop
  | .postNetEvent _ p => s.conn.memory p = none
  | .writePacket _ => True
  | .packetReceived index => index < s.inFlight.length
  | .packetDropped index => index < s.inFlight.length

theorem Stored.start : Stored E (start : NoteSystem ε) [] [] [] [] := by
  refine ⟨⟨.nil, .nil, rfl⟩, rfl, by simp, List.nodup_nil, ?_⟩
  exact Conserved.new

theorem Stored.few (h : Stored E s send unordered notify inFlight) :
    send.length + unordered.length + inFlight.flatten.length + notify.length ≤ s.posted.length := by
  have hfew := h.conserved.few
  simp only [lists, ← List.map_flatten, List.length_append, List.length_map] at hfew
  omega

theorem possible_of_step {a : Action ε σ} (hstep : s.step P E a = some t) : s.Possible a := by
  cases a with
  | postNetEvent theEvent p =>
    simp only [step] at hstep
    cases hp : s.conn.memory p with
    | none => exact hp
    | some node => simp [hp] at hstep
  | writePacket w => trivial
  | packetReceived index =>
    rcases Option.bind_eq_some_iff.mp hstep with ⟨eventList, hindex, -⟩
    exact (List.getElem?_eq_some_iff.mp hindex).1
  | packetDropped index =>
    rcases Option.bind_eq_some_iff.mp hstep with ⟨eventList, hindex, -⟩
    exact (List.getElem?_eq_some_iff.mp hindex).1

theorem mem_addresses_flatten {nodes : List (Placed ε)} (hnodes : nodes ∈ inFlight) {q : ℕ}
    (hq : q ∈ addresses nodes) : q ∈ addresses inFlight.flatten := by
  rcases List.mem_map.mp hq with ⟨x, hx, rfl⟩
  exact List.mem_map_of_mem (List.mem_flatten_of_mem hnodes hx)

/-- Every address of a list is allocated. -/
theorem Stored.allocated (h : Stored E s send unordered notify inFlight) {q : ℕ}
    (hq : q ∈ addresses (send ++ unordered ++ notify ++ inFlight.flatten)) :
    (s.conn.memory q).isSome := by
  simp only [addresses_append, List.mem_append] at hq
  rcases hq with ((hsend | hunordered) | hnotify) | hflight
  · exact h.holds.send.segment.mem hsend
  · exact h.holds.unordered.segment.mem hunordered
  · exact h.holds.notify.mem hnotify
  · rcases List.mem_map.mp hflight with ⟨x, hx, rfl⟩
    rcases List.mem_flatten.mp hx with ⟨nodes, hnodes, hmem⟩
    exact (h.packets nodes hnodes).mem (List.mem_map_of_mem hmem)

theorem post_stored (h : Stored E s send unordered notify inFlight) (theEvent : ε) {p : ℕ}
    (hp : s.conn.memory p = none) :
    ∃ t send' unordered', s.step P E (.postNetEvent theEvent p) = some t ∧
      Stored E t send' unordered' notify inFlight := by
  have hfresh : ∀ q ∈ addresses (send ++ unordered ++ notify ++ inFlight.flatten), q ≠ p := by
    rintro q hq rfl
    have hsome := h.allocated hq
    rw [hp] at hsome
    cases hsome
  have hnodup := h.nodup
  rw [addresses_append, List.nodup_append] at hnodup
  rcases hnodup with ⟨hlists, -, hcross⟩
  rcases postNetEvent_eq (E := E) h.holds theEvent hp hlists with
    ⟨d, send', unordered', hpost, hholds, hrefines, hperm, hnotified, hframe⟩
  refine ⟨{ s with conn := d, posted := s.posted ++ [theEvent] }, send', unordered', ?_, hholds,
    h.heads, ?_, ?_, ?_⟩
  · simp only [step, hp, hpost]
    rfl
  · intro nodes hnodes
    apply (h.packets nodes hnodes).congr
    intro q hq
    have hmem := mem_addresses_flatten hnodes hq
    apply hframe q
    · apply hfresh q
      rw [addresses_append]
      exact List.mem_append_right _ hmem
    · intro hq'
      apply hcross q _ q hmem rfl
      rw [addresses_append]
      exact List.mem_append_left _ hq'
  · have hall := (hperm.append_right (notify ++ inFlight.flatten)).map Prod.fst
    rw [List.cons_append, ← List.append_assoc, ← List.append_assoc] at hall
    apply hall.nodup_iff.mpr
    exact List.nodup_cons.mpr ⟨fun hmem => hfresh p hmem rfl, h.nodup⟩
  · have hdelivered : ({ s with conn := d, posted := s.posted ++ [theEvent] } :
        NoteSystem ε).delivered = s.delivered := by
      simp only [delivered, hnotified]
    rw [hdelivered, hrefines]
    exact h.conserved.post theEvent

theorem write_stored (h : Stored E s send unordered notify inFlight) (w : PackStream σ) :
    ∃ t send' unordered' nodes, s.step P E (.writePacket w) = some t ∧
      Stored E t send' unordered' notify (inFlight ++ [nodes]) := by
  have hfew := h.few
  have hnodup := h.nodup
  rw [addresses_append, List.nodup_append] at hnodup
  rcases hnodup with ⟨hlists, -, hcross⟩
  have hbound : (send ++ unordered).length < s.posted.length + 1 := by
    rw [List.length_append]
    omega
  rcases writePacket_eq (P := P) (E := E) h.holds w hlists hbound with
    ⟨d, eventList, sentUnordered, leftUnordered, sentOrdered, leftOrdered, t, hwrite, rfl, rfl,
      hholds, hpacket, hrefines, hnotified, hframe⟩
  refine ⟨{ s with conn := d, inFlight := s.inFlight ++ [eventList] }, leftOrdered, leftUnordered,
    sentUnordered ++ sentOrdered, ?_, hholds, ?_, ?_, ?_, ?_⟩
  · simp only [step, hwrite]
    rfl
  · simp only [h.heads, List.map_append, List.map_cons, List.map_nil]
    rw [hpacket.head_eq]
  · intro nodes hnodes
    rcases List.mem_append.mp hnodes with hold | hnew
    · apply (h.packets nodes hold).congr
      intro q hq
      have hmem := mem_addresses_flatten hold hq
      apply hframe q
      intro hq'
      apply hcross q _ q hmem rfl
      rw [addresses_append]
      exact List.mem_append_left _ hq'
    · rw [List.mem_singleton] at hnew
      subst hnew
      rw [← hpacket.head_eq]
      exact hpacket
  · apply List.Perm.nodup _ h.nodup
    apply List.Perm.map
    classical
    rw [List.perm_iff_count]
    intro x
    simp only [List.flatten_append, List.flatten_singleton, List.count_append]
    omega
  · have hwritten := h.conserved.write P w
    rw [hrefines] at hwritten
    have hdelivered : ({ s with conn := d, inFlight := s.inFlight ++ [eventList] } :
        NoteSystem ε).delivered = s.delivered := by
      simp only [delivered, hnotified]
    rw [hdelivered]
    simpa [WriteResult.eventList] using hwritten

/-- The packet a notification is for. -/
theorem Stored.packet (h : Stored E s send unordered notify inFlight) {index : ℕ}
    (hindex : index < s.inFlight.length) :
    ∃ nodes, inFlight[index]? = some nodes ∧
      s.inFlight[index]? = some (addresses nodes).head? ∧
      (s.inFlight.eraseIdx index =
        (inFlight.eraseIdx index).map fun nodes => (addresses nodes).head?) ∧
      s.conn.memory.Segment (addresses nodes).head? nodes none ∧
      (send ++ unordered ++ notify ++ inFlight.flatten).Perm
        (nodes ++ send ++ unordered ++ notify ++ (inFlight.eraseIdx index).flatten) := by
  rw [h.heads, List.length_map] at hindex
  have hget := List.getElem?_eq_getElem hindex
  refine ⟨inFlight[index], hget, ?_, ?_, h.packets _ (List.getElem_mem hindex), ?_⟩
  · rw [h.heads, List.getElem?_map, hget]
    rfl
  · rw [h.heads, List.eraseIdx_map]
  · have hflat := Conserved.flatten_perm hget
    classical
    rw [List.perm_iff_count] at hflat ⊢
    intro x
    have hx := hflat x
    simp only [List.count_append] at hx ⊢
    omega

/-- What is left in flight is not written to. -/
theorem packets_congr {memory : Memory (EventNote ε)} {index : ℕ} {touched : List ℕ}
    (h : Stored E s send unordered notify inFlight)
    (hcross : ∀ a ∈ touched, ∀ b ∈ addresses (inFlight.eraseIdx index).flatten, a ≠ b)
    (hframe : ∀ q ∉ touched, memory q = s.conn.memory q) :
    ∀ nodes ∈ inFlight.eraseIdx index, memory.Segment (addresses nodes).head? nodes none := by
  intro nodes hnodes
  apply (h.packets nodes (List.mem_of_mem_eraseIdx hnodes)).congr
  intro q hq
  exact hframe q fun hmem => hcross q hmem q (mem_addresses_flatten hnodes hq) rfl

/-- The three kinds of notes of a packet. -/
theorem ofType_perm (E : EventClass ε σ) (nodes : List (Placed ε)) :
    (ofType E .guaranteedOrdered nodes ++ ofType E .guaranteed nodes ++
      ofType E .unguaranteed nodes).Perm nodes := by
  induction nodes with
  | nil => rfl
  | cons x nodes ih =>
    cases htype : E.mGuaranteeType x.2.mEvent with
    | guaranteedOrdered =>
      rw [ofType_cons_same htype, ofType_cons_other (by simp [htype]),
        ofType_cons_other (by simp [htype])]
      exact ih.cons x
    | guaranteed =>
      rw [ofType_cons_same htype, ofType_cons_other (by simp [htype]),
        ofType_cons_other (by simp [htype]), List.append_assoc]
      rw [List.append_assoc] at ih
      exact List.perm_middle.trans (ih.cons x)
    | unguaranteed =>
      rw [ofType_cons_same htype, ofType_cons_other (by simp [htype]),
        ofType_cons_other (by simp [htype])]
      exact List.perm_middle.trans (ih.cons x)

theorem drop_stored (h : Stored E s send unordered notify inFlight) {index : ℕ}
    (hindex : index < s.inFlight.length) :
    ∃ t send' unordered', s.step P E (.packetDropped index) = some t ∧
      Stored E t send' unordered' notify (inFlight.eraseIdx index) := by
  rcases h.packet hindex with ⟨nodes, hget, hhead, hheads, hsegment, hperm⟩
  have hfew := h.few
  have hlength := hperm.length_eq
  simp only [List.length_append] at hlength
  have hnodup := (hperm.map Prod.fst).nodup_iff.mp h.nodup
  have hparts := hnodup
  rw [List.map_append, List.nodup_append] at hparts
  rcases hparts with ⟨hlists, -, hcross⟩
  have hbound : nodes.length < s.posted.length + 1 := by omega
  rcases packetDropped_eq (E := E) h.holds hsegment hlists hbound (by omega) with ⟨d, hdrop, hholds, hrefines, hnotified, hframe⟩
  refine ⟨{ s with conn := d, inFlight := s.inFlight.eraseIdx index }, _, _, ?_, hholds, hheads,
    ?_, ?_, ?_⟩
  · simp only [step, hhead, Option.bind_some, hdrop]
    rfl
  · apply packets_congr h _ hframe
    intro a ha b hb
    apply hcross a _ b hb
    rw [List.map_append]
    exact List.mem_append_left _ ha
  · have hkinds := ofType_perm E nodes
    have hinsert := insertPlaced_perm send (ofType E .guaranteedOrdered nodes)
    have hall : (insertPlaced send (ofType E .guaranteedOrdered nodes) ++
        ((ofType E .guaranteed nodes).reverse ++ unordered) ++ notify ++
          (inFlight.eraseIdx index).flatten ++ ofType E .unguaranteed nodes).Perm
        (nodes ++ send ++ unordered ++ notify ++ (inFlight.eraseIdx index).flatten) := by
      classical
      rw [List.perm_iff_count] at hkinds hinsert ⊢
      intro x
      have hk := hkinds x
      have hi := hinsert x
      simp only [List.count_append, List.count_reverse] at hk hi ⊢
      omega
    have hboth := (hall.map Prod.fst).nodup_iff.mpr hnodup
    rw [List.map_append, List.nodup_append] at hboth
    exact hboth.1
  · have hpacket : (inFlight.map (List.map Prod.snd))[index]? = some (nodes.map Prod.snd) := by
      rw [List.getElem?_map, hget]
      rfl
    have hdropped := h.conserved.drop hpacket
    rw [← hrefines, List.eraseIdx_map] at hdropped
    have hdelivered : ({ s with conn := d, inFlight := s.inFlight.eraseIdx index } :
        NoteSystem ε).delivered = s.delivered := by
      simp [delivered, hnotified]
    rw [hdelivered]
    exact hdropped

theorem receive_stored (h : Stored E s send unordered notify inFlight) {index : ℕ}
    (hindex : index < s.inFlight.length) :
    ∃ t notify', s.step P E (.packetReceived index) = some t ∧
      Stored E t send unordered notify' (inFlight.eraseIdx index) := by
  rcases h.packet hindex with ⟨nodes, hget, hhead, hheads, hsegment, hperm⟩
  have hfew := h.few
  have hlength := hperm.length_eq
  simp only [List.length_append] at hlength
  have hnodup := (hperm.map Prod.fst).nodup_iff.mp h.nodup
  have hmoved : (nodes ++ send ++ unordered ++ notify ++ (inFlight.eraseIdx index).flatten).Perm
      (nodes ++ notify ++ (send ++ unordered) ++ (inFlight.eraseIdx index).flatten) := by
    classical
    rw [List.perm_iff_count]
    intro x
    simp only [List.count_append]
    omega
  have hparts := (hmoved.map Prod.fst).nodup_iff.mp hnodup
  rw [List.map_append, List.nodup_append] at hparts
  rcases hparts with ⟨hlists, -, hcross⟩
  have hbound : (nodes ++ notify).length < s.posted.length + 1 := by
    rw [List.length_append]
    omega
  rcases packetReceived_eq (E := E) h.holds hsegment hlists hbound with
    ⟨d, taken, left, hreceive, hsplit, hholds, hrefines, -, hnotified, hframe⟩
  refine ⟨{ s with conn := d, inFlight := s.inFlight.eraseIdx index }, left, ?_, hholds, hheads,
    ?_, ?_, ?_⟩
  · simp only [step, hhead, Option.bind_some, hreceive]
    rfl
  · apply packets_congr h _ hframe
    intro a ha b hb
    apply hcross a _ b hb
    rw [List.map_append]
    exact List.mem_append_left _ ha
  · have hall := received_perm E notify nodes
    rw [hsplit] at hall
    have hkept : (send ++ unordered ++ left ++ (inFlight.eraseIdx index).flatten ++
        (taken ++ nodes.filter fun x => E.mGuaranteeType x.2.mEvent ≠ .guaranteedOrdered)).Perm
        (nodes ++ send ++ unordered ++ notify ++ (inFlight.eraseIdx index).flatten) := by
      classical
      rw [List.perm_iff_count] at hall ⊢
      intro x
      have hx := hall x
      simp only [List.count_append] at hx ⊢
      omega
    have hboth := (hkept.map Prod.fst).nodup_iff.mpr hnodup
    rw [List.map_append, List.nodup_append] at hboth
    exact hboth.1
  · have hinserted : insertNotes (s.conn.lists send unordered notify).mNotifyEventList
        ((nodes.map Prod.snd).filter (isOrdered E)) =
          taken.map Prod.snd ++ left.map Prod.snd := by
      rw [← List.map_append, ← hsplit, map_insertPlaced, map_ofType]
      rfl
    have hpacket : (inFlight.map (List.map Prod.snd))[index]? = some (nodes.map Prod.snd) := by
      rw [List.getElem?_map, hget]
      rfl
    have hreceived := h.conserved.receive hpacket hinserted (by rw [← hrefines]; rfl)
    rw [← hrefines, List.eraseIdx_map] at hreceived
    have hdelivered : ({ s with conn := d, inFlight := s.inFlight.eraseIdx index } :
        NoteSystem ε).delivered = s.delivered ++
          ((nodes.map Prod.snd).filter (fun n => !isOrdered E n) ++ taken.map Prod.snd) := by
      simp only [delivered, hnotified, List.filter_append, List.map_append]
      congr 1
      simp only [List.filter_map]
      simp [Function.comp_def, isOrdered]
    rw [hdelivered]
    exact hreceived

theorem step_stored {a : Action ε σ} (h : Stored E s send unordered notify inFlight)
    (ha : s.Possible a) :
    ∃ t send' unordered' notify' inFlight', s.step P E a = some t ∧
      Stored E t send' unordered' notify' inFlight' := by
  cases a with
  | postNetEvent theEvent p =>
    rcases post_stored h theEvent ha with ⟨t, send', unordered', hstep, ht⟩
    exact ⟨t, send', unordered', notify, inFlight, hstep, ht⟩
  | writePacket w =>
    rcases write_stored h w with ⟨t, send', unordered', nodes, hstep, ht⟩
    exact ⟨t, send', unordered', notify, inFlight ++ [nodes], hstep, ht⟩
  | packetReceived index =>
    rcases receive_stored h ha with ⟨t, notify', hstep, ht⟩
    exact ⟨t, send, unordered, notify', inFlight.eraseIdx index, hstep, ht⟩
  | packetDropped index =>
    rcases drop_stored h ha with ⟨t, send', unordered', hstep, ht⟩
    exact ⟨t, send', unordered', notify, inFlight.eraseIdx index, hstep, ht⟩

theorem stored_of_run {as : List (Action ε σ)}
    (run : Run (step P E) (fun _ _ => True) (start : NoteSystem ε) as s) :
    ∃ send unordered notify inFlight, Stored E s send unordered notify inFlight := by
  apply run.invariant (I := fun s => ∃ send unordered notify inFlight,
    Stored E s send unordered notify inFlight)
  · rintro s a t ⟨send, unordered, notify, inFlight, h⟩ - hstep
    rcases step_stored h (possible_of_step hstep) with
      ⟨t', send', unordered', notify', inFlight', hstep', ht⟩
    rw [hstep] at hstep'
    cases hstep'
    exact ⟨send', unordered', notify', inFlight', ht⟩
  · exact ⟨[], [], [], [], .start⟩

/-- Each guaranteed event posted is in one place, the lists in memory are sorted and linked with
the right tails, ordered events are notified in order without gaps, and no step faults. -/
theorem conserved_of_run {as : List (Action ε σ)}
    (run : Run (step P E) (fun _ _ => True) (start : NoteSystem ε) as s) :
    (∃ (send unordered notify : List (Placed ε)) (inFlight : List (List (Placed ε))),
      s.conn.memory.Queue s.conn.mSendEventQueueHead s.conn.mSendEventQueueTail send ∧
      s.conn.memory.Queue s.conn.mUnorderedSendEventQueueHead
        s.conn.mUnorderedSendEventQueueTail unordered ∧
      s.conn.memory.Segment s.conn.mNotifyEventList notify none ∧
      List.Forall₂ (fun eventList nodes => s.conn.memory.Segment eventList nodes none)
        s.inFlight inFlight ∧
      (addresses (send ++ unordered ++ notify ++ inFlight.flatten)).Nodup ∧
      ((((send ++ unordered ++ notify ++ inFlight.flatten).map Prod.snd ++ s.delivered).map
        EventNote.mEvent).filter (fun e => E.mGuaranteeType e ≠ .unguaranteed)).Perm
          (s.posted.filter fun e => E.mGuaranteeType e ≠ .unguaranteed) ∧
      Increasing (send.map Prod.snd) ∧ Increasing (notify.map Prod.snd)) ∧
    s.delivered.filter (isOrdered E) =
      (orderedNotes E s.posted).take (s.conn.mLastAckedEventSeq + 1).toNat ∧
    ∀ a : Action ε σ, s.Possible a → (s.step P E a).isSome := by
  rcases stored_of_run run with ⟨send, unordered, notify, inFlight, h⟩
  refine ⟨⟨send, unordered, notify, inFlight, h.holds.send, h.holds.unordered, h.holds.notify, ?_,
    h.nodup, ?_, h.conserved.send, h.conserved.notify⟩, h.conserved.delivered_eq, ?_⟩
  · rw [h.heads]
    apply List.forall₂_map_left_iff.mpr
    apply List.forall₂_same.mpr
    exact h.packets
  · have hevents := h.conserved.events_perm
    simp only [lists, ← List.map_flatten, ← List.map_append] at hevents
    exact hevents
  · intro a ha
    rcases step_stored h ha with ⟨t, -, -, -, -, hstep, -⟩
    rw [hstep]
    rfl

/-- Events without contents, one class for each guarantee. -/
def plainEvents : EventClass GuaranteeType Unit where
  mGuaranteeType := id
  getClassId _ := 0
  pack _ _ := ([], ())
  create _ := some .dirAny
  unpack _ _ s := some (.guaranteed, (), s)

theorem plain_classCount_le : 1 ≤ 2 ^ 0 := Nat.one_le_two_pow

theorem plain_classBitSize_le : 0 ≤ 32 := Nat.zero_le 32

def plainParameters : EventParameters where
  mDebugObjectSizes := false
  mEventClassCount := 1
  mEventClassBitSize := 0
  classCount_le := plain_classCount_le
  classBitSize_le := plain_classBitSize_le

/-- Three events whose packet is lost once, at addresses that are used again. -/
def resent : List (Action GuaranteeType Unit) :=
  [.postNetEvent .guaranteedOrdered 4, .postNetEvent .guaranteed 2,
    .postNetEvent .guaranteedOrdered 9, .writePacket ⟨packetStream (fun _ => false) 1500, ()⟩,
    .packetDropped 0, .writePacket ⟨packetStream (fun _ => false) 1500, ()⟩, .packetReceived 0,
    .postNetEvent .guaranteedOrdered 4]

theorem conserved_of_run_resent : ∃ s : NoteSystem GuaranteeType,
    exec (step plainParameters plainEvents) start resent = some s ∧
      s.conn.mLastAckedEventSeq = 1 ∧
      s.delivered.filter (isOrdered plainEvents) =
        (orderedNotes plainEvents s.posted).take (s.conn.mLastAckedEventSeq + 1).toNat := by
  have hacked : (exec (step plainParameters plainEvents) start resent).map
      (fun s => s.conn.mLastAckedEventSeq) = some 1 := by decide +kernel
  rcases Option.map_eq_some_iff.mp hacked with ⟨s, hexec, hlast⟩
  exact ⟨s, hexec, hlast, (conserved_of_run (Run.of_exec hexec)).2.1⟩

end NoteSystem

end TNL
