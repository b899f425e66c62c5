import TNL.Event.EventLink
import TNL.Event.Notes

/-!
# Ordered events arrive in order

Every number of an ordered event is in one place: the send queue, one packet in
flight, or among the numbers the receiver has got, which are those below
`mNextRecvEventSeq` and those on its waiting list. Acknowledged numbers have
been got, so the send window keeps each number in flight within 128 of the
receiver's next one and its low seven bits determine it.
-/
namespace TNL
open Library BitStream

namespace EventConnection

variable {ε : Type*}

/-- A note of a posted ordered event. -/
structure Genuine (posted : List ε) (n : EventNote ε) : Prop where
  nonneg : 0 ≤ n.mSeqCount
  event : posted[n.mSeqCount.toNat]? = some n.mEvent

/-- The receiver has got the event with this number. -/
def Got (c : EventConnection ε) (seq : ℤ) : Prop :=
  seq < c.mNextRecvEventSeq ∨ ∃ n ∈ c.mWaitSeqEvents, n.mSeqCount = seq

theorem Genuine.lt {posted : List ε} {n : EventNote ε} (h : Genuine posted n) :
    n.mSeqCount < posted.length := by
  obtain ⟨hlt, -⟩ := List.getElem?_eq_some_iff.mp h.event
  have := h.nonneg
  omega

theorem Genuine.append {posted more : List ε} {n : EventNote ε} (h : Genuine posted n) :
    Genuine (posted ++ more) n := by
  refine ⟨h.nonneg, ?_⟩
  obtain ⟨hlt, -⟩ := List.getElem?_eq_some_iff.mp h.event
  rw [List.getElem?_append_left hlt]
  exact h.event

/-- Genuine notes with consecutive numbers continue a prefix of the posted events. -/
theorem take_append_genuine {posted : List ε} {taken : List (EventNote ε)} {k : ℕ}
    (hgenuine : ∀ n ∈ taken, Genuine posted n)
    (hseqs : ∀ i (hi : i < taken.length), taken[i].mSeqCount = (k : ℤ) + i) :
    posted.take k ++ taken.map EventNote.mEvent = posted.take (k + taken.length) := by
  induction taken generalizing k with
  | nil => simp
  | cons note taken ih =>
    have hnote := hgenuine note List.mem_cons_self
    have hseq : note.mSeqCount = k := (hseqs 0 (by simp)).trans (by simp)
    have hevent := hnote.event
    rw [hseq, Int.toNat_natCast] at hevent
    have hrest := ih (k := k + 1) (fun n hn => hgenuine n (List.mem_cons_of_mem _ hn))
      (fun i hi => by
        have := hseqs (i + 1) (by simpa using hi)
        rw [List.getElem_cons_succ] at this
        omega)
    rw [List.take_add_one, hevent, Option.toList_some, List.append_assoc] at hrest
    rw [List.map_cons, List.length_cons, show k + (taken.length + 1) = k + 1 + taken.length by omega,
      ← hrest]
    rfl

/-- The low seven bits of a number inside the window determine it. -/
theorem completeSeq_eq {next seq : ℤ} (hle : next ≤ seq) (hlt : seq < next + 128) :
    completeSeq next (seq % 128) = seq := by
  unfold completeSeq
  dsimp only
  split <;> omega

/-- What the receiver knows about the events posted. -/
structure ReceiverSound (posted processed : List ε) (c : EventConnection ε) : Prop where
  next_nonneg : 0 ≤ c.mNextRecvEventSeq
  next_le : c.mNextRecvEventSeq ≤ posted.length
  processed_eq : processed = posted.take c.mNextRecvEventSeq.toNat
  wait_genuine : ∀ n ∈ c.mWaitSeqEvents, Genuine posted n
  wait_increasing : Increasing c.mWaitSeqEvents
  wait_gt : ∀ n ∈ c.mWaitSeqEvents, c.mNextRecvEventSeq < n.mSeqCount

/-- Receiving new events whose numbers are inside the window. -/
theorem ReceiverSound.receive {posted processed : List ε} {c : EventConnection ε}
    {ordered : List (EventNote ε)} (hc : ReceiverSound posted processed c)
    (hgenuine : ∀ n ∈ ordered, Genuine posted n) (hincreasing : Increasing ordered)
    (hnew : ∀ n ∈ ordered, ¬ c.Got n.mSeqCount)
    (hwindow : ∀ n ∈ ordered, n.mSeqCount < c.mNextRecvEventSeq + 128) :
    ReceiverSound posted (processed ++ (c.receive ordered).1) (c.receive ordered).2 ∧
      c.mNextRecvEventSeq ≤ (c.receive ordered).2.mNextRecvEventSeq ∧
      ∀ seq, (c.receive ordered).2.Got seq ↔ c.Got seq ∨ ∃ n ∈ ordered, n.mSeqCount = seq := by
  have hge : ∀ n ∈ ordered, c.mNextRecvEventSeq ≤ n.mSeqCount := by
    intro n hn
    by_contra hlt
    exact hnew n hn (.inl (by omega))
  have hdecoded : ordered.map (decodedNote c.mNextRecvEventSeq) = ordered := by
    refine (List.map_congr_left ?_).trans (List.map_id ordered)
    intro n hn
    simp [decodedNote, completeSeq_eq (hge n hn) (hwindow n hn)]
  set waiting := insertNotes c.mWaitSeqEvents ordered with hwaiting
  have hmem : ∀ n, n ∈ waiting ↔ n ∈ c.mWaitSeqEvents ∨ n ∈ ordered := fun n => mem_insertNotes
  have hsorted : Increasing waiting := by
    refine insertNotes_increasing hc.wait_increasing hincreasing ?_
    intro n hn m hm heq
    exact hnew m hm (.inr ⟨n, hn, heq⟩)
  have hall : ∀ n ∈ waiting, Genuine posted n ∧ c.mNextRecvEventSeq ≤ n.mSeqCount := by
    intro n hn
    obtain hwait | hordered := (hmem n).mp hn
    · exact ⟨hc.wait_genuine n hwait, (hc.wait_gt n hwait).le⟩
    · exact ⟨hgenuine n hordered, hge n hordered⟩
  have hreceive : c.receive ordered =
      ((takeConsecutive waiting c.mNextRecvEventSeq).1,
        { c with
          mWaitSeqEvents := (takeConsecutive waiting c.mNextRecvEventSeq).2.1
          mNextRecvEventSeq := (takeConsecutive waiting c.mNextRecvEventSeq).2.2 }) := by
    rw [EventConnection.receive, hdecoded]
  obtain ⟨taken, hsplit, hevents, hlast, hseqs, hhead⟩ :=
    takeConsecutive_spec waiting c.mNextRecvEventSeq
  rw [hreceive]
  generalize takeConsecutive waiting c.mNextRecvEventSeq = result at *
  obtain ⟨events, left, last⟩ := result
  dsimp only at *
  have hnonneg := hc.next_nonneg
  have htaken : ∀ n ∈ taken, n ∈ waiting := fun n hn => hsplit ▸ List.mem_append_left _ hn
  have hleft : ∀ n ∈ left, n ∈ waiting := fun n hn => hsplit ▸ List.mem_append_right _ hn
  have hincr := hsorted
  rw [hsplit] at hincr
  obtain ⟨-, hleftIncr, hcross⟩ := List.pairwise_append.mp hincr
  have hprefix : posted.take c.mNextRecvEventSeq.toNat ++ taken.map EventNote.mEvent =
      posted.take (c.mNextRecvEventSeq.toNat + taken.length) :=
    take_append_genuine (fun n hn => (hall n (htaken n hn)).1)
      (fun i hi => by rw [hseqs i hi]; omega)
  have hgt : ∀ n ∈ left, last < n.mSeqCount := by
    -- what is left lies above the taken numbers, and its head is not the next one
    have hlow : ∀ n ∈ left, last ≤ n.mSeqCount := by
      intro n hn
      cases htail : taken.length with
      | zero =>
        have := (hall n (hleft n hn)).2
        omega
      | succ k =>
        have hbelow := hcross taken[k] (List.getElem_mem (by omega)) n hn
        have := hseqs k (by omega)
        omega
    cases left with
    | nil => simp
    | cons head tail =>
      have hheadNe := hhead head rfl
      have hheadLow := hlow head List.mem_cons_self
      intro n hn
      obtain rfl | htail := List.mem_cons.mp hn
      · omega
      · have := (List.pairwise_cons.mp hleftIncr).1 n htail
        omega
  refine ⟨⟨?_, ?_, ?_, ?_, hleftIncr, hgt⟩, ?_, ?_⟩
  · dsimp only
    omega
  · dsimp only
    cases htail : taken.length with
    | zero =>
      have := hc.next_le
      omega
    | succ k =>
      have hlt := (hall taken[k] (htaken _ (List.getElem_mem (by omega)))).1.lt
      have := hseqs k (by omega)
      omega
  · dsimp only
    rw [hc.processed_eq, hevents, hprefix]
    congr 1
    omega
  · exact fun n hn => (hall n (hleft n hn)).1
  · omega
  · intro seq
    constructor
    · rintro (hlt | ⟨n, hn, rfl⟩)
      · dsimp only at hlt
        by_cases hold : seq < c.mNextRecvEventSeq
        · exact .inl (.inl hold)
        · -- a number passed now belongs to a note that was taken
          have hi : (seq - c.mNextRecvEventSeq).toNat < taken.length := by omega
          have hseq := hseqs _ hi
          have hmemTaken := htaken _ (List.getElem_mem hi)
          obtain hwait | hordered := (hmem _).mp hmemTaken
          · exact .inl (.inr ⟨_, hwait, by omega⟩)
          · exact .inr ⟨_, hordered, by omega⟩
      · obtain hwait | hordered := (hmem n).mp (hleft n hn)
        · exact .inl (.inr ⟨n, hwait, rfl⟩)
        · exact .inr ⟨n, hordered, rfl⟩
    · have hwaitGot : ∀ n ∈ waiting, n.mSeqCount < last ∨ ∃ m ∈ left, m.mSeqCount = n.mSeqCount := by
        intro n hn
        rw [hsplit] at hn
        obtain h | h := List.mem_append.mp hn
        · obtain ⟨i, hi, rfl⟩ := List.getElem_of_mem h
          exact .inl (by rw [hseqs i hi]; omega)
        · exact .inr ⟨n, h, rfl⟩
      rintro ((hlt | ⟨n, hn, rfl⟩) | ⟨n, hn, rfl⟩)
      · exact .inl (by dsimp only; omega)
      · exact hwaitGot n ((hmem n).mpr (.inl hn))
      · exact hwaitGot n ((hmem n).mpr (.inr hn))

end EventConnection

end TNL
