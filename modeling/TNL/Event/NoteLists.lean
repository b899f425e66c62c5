import TNL.Event.NoteMemory

/-!
# The note lists hold what the lists of the model hold

Each operation on the lists in memory does to the notes on them what the
operation of `EventConnection` does to its lists, keeps the tail pointers
exact, and never follows a null or dangling pointer.
-/
namespace TNL
open Library Memory

/-- A note and its address. -/
abbrev Placed (ε : Type*) := ℕ × EventNote ε

namespace Placed

variable {ε σ : Type*}

def seqLt (x y : Placed ε) : Bool := x.2.mSeqCount < y.2.mSeqCount

def ofType (E : EventClass ε σ) (type : GuaranteeType) (nodes : List (Placed ε)) :
    List (Placed ε) :=
  nodes.filter fun x => E.mGuaranteeType x.2.mEvent = type

@[simp] theorem ofType_nil (E : EventClass ε σ) (type : GuaranteeType) : ofType E type [] = [] := rfl

theorem ofType_cons_same {E : EventClass ε σ} {type : GuaranteeType} {x : Placed ε}
    (h : E.mGuaranteeType x.2.mEvent = type) (nodes : List (Placed ε)) :
    ofType E type (x :: nodes) = x :: ofType E type nodes := by
  simp [ofType, h]

theorem ofType_cons_other {E : EventClass ε σ} {type : GuaranteeType} {x : Placed ε}
    (h : E.mGuaranteeType x.2.mEvent ≠ type) (nodes : List (Placed ε)) :
    ofType E type (x :: nodes) = ofType E type nodes := by
  simp [ofType, h]

end Placed

namespace NoteConnection
open EventConnection Placed

variable {ε σ : Type*} {E : EventClass ε σ} {c : NoteConnection ε} {bound fuel p : ℕ}
  {walk link : Option ℕ} {note : EventNote ε}
  {walkNodes before after send unordered notify : List (Placed ε)}

/-- The list after inserting at a place in one list, as memory and as a list. -/
theorem insert_eq {memory : Memory (EventNote ε)} {head : Option ℕ}
    (hlist : memory.Segment head (before ++ after) none)
    (hnode : memory p = some ⟨note, link⟩) (hnodup : (addresses (before ++ after)).Nodup)
    (hp : p ∉ addresses (before ++ after)) (hbound : after.length < bound) :
    ∃ cell rest m head', Cell.advance memory head (fun n => n.mSeqCount < note.mSeqCount) bound
        (Cell.behind before) = some cell ∧ cell.get memory head = some (addresses rest).head? ∧
      memory.insertAt head cell p = some (m, head') ∧
      rest = (insertInto seqLt (before, after) (p, note)).2 ∧
      m.Segment head' ((insertInto seqLt (before, after) (p, note)).1 ++ rest) none ∧
      ∀ q, q ≠ p → q ∉ addresses (before ++ after) → m q = memory q := by
  have hsplit : before ++ after.takeWhile (fun x => seqLt x (p, note)) ++
      after.dropWhile (fun x => seqLt x (p, note)) = before ++ after := by
    rw [List.append_assoc, List.takeWhile_append_dropWhile]
  have hadvance := Cell.advance_eq (fun n : EventNote ε => n.mSeqCount < note.mSeqCount) hlist hbound
  rw [← hsplit] at hlist hnodup hp
  rcases insertAt_eq hlist hnodup hnode hp with ⟨m, head', hinsert, hsegment, hframe⟩
  refine ⟨_, _, m, head', hadvance, Cell.get_behind hlist, hinsert, rfl, ?_, ?_⟩
  · simpa [insertInto] using hsegment
  · intro q hq hmem
    apply hframe q hq
    rw [← hsplit, addresses_append, List.mem_append, not_or] at hmem
    exact hmem.1

theorem requeueOrdered_eq
    (hsend : c.memory.Queue c.mSendEventQueueHead c.mSendEventQueueTail (before ++ after))
    (hnode : c.memory p = some ⟨note, link⟩) (hnodup : (addresses (before ++ after)).Nodup)
    (hp : p ∉ addresses (before ++ after)) (hbound : after.length < bound) :
    ∃ memory head tail, c.requeueOrdered bound p note (Cell.behind before) =
        some ({ c with
          memory := memory
          mSendEventQueueHead := head
          mSendEventQueueTail := tail },
          Cell.behind (insertInto seqLt (before, after) (p, note)).1) ∧
      memory.Queue head tail ((insertInto seqLt (before, after) (p, note)).1 ++
        (insertInto seqLt (before, after) (p, note)).2) ∧
      ∀ q, q ≠ p → q ∉ addresses (before ++ after) → memory q = c.memory q := by
  rcases insert_eq hsend.segment hnode hnodup hp hbound with
    ⟨cell, rest, m, head, hadvance, hget, hinsert, hrest, hsegment, hframe⟩
  refine ⟨m, head, if (addresses rest).head?.isNone then some p else c.mSendEventQueueTail,
    ?_, ⟨hrest ▸ hsegment, ?_⟩, hframe⟩
  · simp [requeueOrdered, hadvance, hget, hinsert]
  · -- the tail moves exactly when nothing is left behind the note
    intro x hx
    rw [← hrest] at hx
    rcases List.eq_nil_or_concat rest with hnil | ⟨init, y, hconcat⟩
    · rw [hnil] at hx ⊢
      simp only [insertInto, List.append_nil, List.getLast?_concat] at hx
      rw [← Option.some.inj hx]
      rfl
    · have hbehind : (before ++ after).getLast? = some x := by
        have hsplit : before ++ after = before ++
            after.takeWhile (fun x => seqLt x (p, note)) ++ rest := by
          rw [hrest, insertInto, List.append_assoc, List.takeWhile_append_dropWhile]
        rw [hsplit, hconcat, List.concat_eq_append, ← List.append_assoc]
        rw [hconcat, List.concat_eq_append, ← List.append_assoc] at hx
        rw [List.getLast?_concat] at hx ⊢
        exact hx
      have hsome : (addresses rest).head?.isNone = false := by
        rw [hconcat]
        cases init <;> rfl
      rw [hsome]
      exact hsend.last x hbehind

theorem requeueUnordered_eq
    (hunordered : c.memory.Queue c.mUnorderedSendEventQueueHead c.mUnorderedSendEventQueueTail
      unordered) (hnode : c.memory p = some ⟨note, link⟩) (hp : p ∉ addresses unordered) :
    ∃ memory tail, c.requeueUnordered p = some { c with
          memory := memory
          mUnorderedSendEventQueueHead := some p
          mUnorderedSendEventQueueTail := tail } ∧
      memory.Queue (some p) tail ((p, note) :: unordered) ∧
      ∀ q, q ≠ p → memory q = c.memory q := by
  refine ⟨Function.update c.memory p (some ⟨note, c.mUnorderedSendEventQueueHead⟩),
    if c.mUnorderedSendEventQueueHead.isNone then some p else c.mUnorderedSendEventQueueTail, ?_,
    ⟨?_, ?_⟩, fun q hq => Function.update_of_ne hq ..⟩
  · simp only [requeueUnordered, setNext, hnode]
    rfl
  · refine ⟨rfl, c.mUnorderedSendEventQueueHead, Function.update_self .., ?_⟩
    exact hunordered.segment.update hp _
  · intro x hx
    rw [hunordered.segment.head_eq]
    cases unordered with
    | nil =>
      cases hx
      rfl
    | cons y rest =>
      rw [List.getLast?_cons_cons] at hx
      exact hunordered.last x hx

/-- The sizes of what lies behind the insertion point only shrink. -/
theorem insertInto_length (x : Placed ε) :
    (insertInto seqLt (before, after) x).2.length ≤ after.length :=
  (List.dropWhile_sublist _).length_le

/-- The addresses of the lists while note `x` moves from the walked list to its place. -/
theorem insertInto_addresses (before after unordered : List (Placed ε)) (x : Placed ε)
    (rest : List (Placed ε)) :
    (addresses (rest ++ ((insertInto seqLt (before, after) x).1 ++
        (insertInto seqLt (before, after) x).2) ++ unordered)).Perm
      (addresses (x :: rest ++ (before ++ after) ++ unordered)) := by
  apply List.Perm.map
  apply List.Perm.append_right
  apply ((insertInto_perm seqLt (before, after) x).append_left rest).trans
  exact List.perm_middle

/-- `packetDropped` walks the event list once, the insertion point moving on. -/
theorem dropLoop_eq (hwalk : c.memory.Segment walk walkNodes none)
    (hsend : c.memory.Queue c.mSendEventQueueHead c.mSendEventQueueTail (before ++ after))
    (hunordered : c.memory.Queue c.mUnorderedSendEventQueueHead c.mUnorderedSendEventQueueTail
      unordered)
    (hnodup : (addresses (walkNodes ++ (before ++ after) ++ unordered)).Nodup)
    (hfuel : walkNodes.length < fuel) (hbound : after.length < bound) :
    ∃ memory sendHead sendTail unorderedHead unorderedTail,
      dropLoop E bound fuel walk (Cell.behind before) c = some { c with
        memory := memory
        mSendEventQueueHead := sendHead
        mSendEventQueueTail := sendTail
        mUnorderedSendEventQueueHead := unorderedHead
        mUnorderedSendEventQueueTail := unorderedTail
        notified := c.notified ++
          (ofType E .unguaranteed walkNodes).map fun x => (x.2, false) } ∧
      memory.Queue sendHead sendTail
        (((ofType E .guaranteedOrdered walkNodes).foldl (insertInto seqLt) (before, after)).1 ++
          ((ofType E .guaranteedOrdered walkNodes).foldl (insertInto seqLt) (before, after)).2) ∧
      memory.Queue unorderedHead unorderedTail
        ((ofType E .guaranteed walkNodes).reverse ++ unordered) ∧
      ∀ q ∉ addresses (walkNodes ++ (before ++ after) ++ unordered), memory q = c.memory q := by
  induction walkNodes generalizing walk c before after unordered fuel with
  | nil =>
    obtain rfl : walk = none := hwalk
    obtain ⟨fuel, rfl⟩ := Nat.exists_eq_succ_of_ne_zero (by omega : fuel ≠ 0)
    exact ⟨_, _, _, _, _, by simp [dropLoop], hsend, hunordered, fun q _ => rfl⟩
  | cons x rest ih =>
    rcases x with ⟨p, note⟩
    obtain ⟨rfl, next, hnode, hrest⟩ := hwalk
    obtain ⟨fuel, rfl⟩ := Nat.exists_eq_succ_of_ne_zero (by omega : fuel ≠ 0)
    have hshort : rest.length < fuel := by simpa using hfuel
    have hall := hnodup
    rw [List.cons_append, List.cons_append, addresses_cons, List.nodup_cons] at hnodup
    rcases hnodup with ⟨happart, hnodup⟩
    -- no write below touches a list other than the one it is for
    have hdisjoint := hnodup
    simp only [addresses_append, List.mem_append, not_or] at happart
    simp only [addresses_append, List.nodup_append, List.mem_append] at hdisjoint
    obtain ⟨⟨-, ⟨hbefore, hafter, hcross⟩, hwalkSend⟩, -, hothers⟩ := hdisjoint
    cases htype : E.mGuaranteeType note.mEvent with
    | guaranteedOrdered =>
      rcases requeueOrdered_eq hsend hnode
        (by simpa only [addresses_append, List.nodup_append] using ⟨hbefore, hafter, hcross⟩)
        (by simpa only [addresses_append, List.mem_append, not_or] using happart.1.2) hbound with
        ⟨memory, head, tail, hrequeue, hqueue, hframe⟩
      have hkeep : ∀ q, q ≠ p → q ∉ addresses before → q ∉ addresses after →
          memory q = c.memory q := by
        intro q hq hqb hqa
        apply hframe q hq
        rw [addresses_append, List.mem_append, not_or]
        exact ⟨hqb, hqa⟩
      have hperm := insertInto_addresses before after unordered (p, note) rest
      rcases ih (c := { c with
          memory := memory
          mSendEventQueueHead := head
          mSendEventQueueTail := tail })
        (hrest.congr fun q hq => hkeep q (fun h => happart.1.1 (h ▸ hq))
          (fun h => hwalkSend q hq q (Or.inl h) rfl) (fun h => hwalkSend q hq q (Or.inr h) rfl))
        hqueue
        (hunordered.congr fun q hq => hkeep q (fun h => happart.2 (h ▸ hq))
          (fun h => hothers q (Or.inr (Or.inl h)) q hq rfl)
          (fun h => hothers q (Or.inr (Or.inr h)) q hq rfl))
        (hperm.nodup_iff.mpr hall) hshort ((insertInto_length _).trans_lt hbound) with
        ⟨memory', sendHead, sendTail, unorderedHead, unorderedTail, hloop, hsend', hunordered',
          hframe'⟩
      refine ⟨memory', sendHead, sendTail, unorderedHead, unorderedTail, ?_, ?_, ?_, ?_⟩
      · simp only [dropLoop, hnode, Option.bind_some, htype, hrequeue, hloop]
        rw [ofType_cons_other (by simp [htype])]
      · rw [ofType_cons_same htype]
        exact hsend'
      · rw [ofType_cons_other (by simp [htype])]
        exact hunordered'
      · intro q hq
        rw [hframe' q fun h => hq (hperm.mem_iff.mp h)]
        simp only [List.cons_append, addresses_cons, addresses_append, List.mem_cons,
          List.mem_append, not_or] at hq
        exact hkeep q hq.1 hq.2.1.2.1 hq.2.1.2.2
    | guaranteed =>
      rcases requeueUnordered_eq hunordered hnode happart.2 with
        ⟨memory, tail, hrequeue, hqueue, hframe⟩
      have hperm : (addresses (rest ++ (before ++ after) ++ (p, note) :: unordered)).Perm
          (addresses ((p, note) :: rest ++ (before ++ after) ++ unordered)) :=
        List.perm_middle.map Prod.fst
      rcases ih (c := { c with
          memory := memory
          mUnorderedSendEventQueueHead := some p
          mUnorderedSendEventQueueTail := tail })
        (hrest.congr fun q hq => hframe q fun h => happart.1.1 (h ▸ hq))
        (hsend.congr fun q hq => hframe q fun h => by
          rw [addresses_append, List.mem_append, h] at hq
          exact hq.elim happart.1.2.1 happart.1.2.2)
        hqueue (hperm.nodup_iff.mpr hall) hshort hbound with
        ⟨memory', sendHead, sendTail, unorderedHead, unorderedTail, hloop, hsend', hunordered',
          hframe'⟩
      refine ⟨memory', sendHead, sendTail, unorderedHead, unorderedTail, ?_, ?_, ?_, ?_⟩
      · simp only [dropLoop, hnode, Option.bind_some, htype, hrequeue, hloop]
        rw [ofType_cons_other (by simp [htype])]
      · rw [ofType_cons_other (by simp [htype])]
        exact hsend'
      · rw [ofType_cons_same htype, List.reverse_cons, List.append_assoc]
        exact hunordered'
      · intro q hq
        rw [hframe' q fun h => hq (hperm.mem_iff.mp h)]
        exact hframe q fun h => hq (h ▸ List.mem_cons_self)
    | unguaranteed =>
      have hframe : ∀ q, q ≠ p → Function.update c.memory p none q = c.memory q :=
        fun q hq => Function.update_of_ne hq ..
      rcases ih (c := c.notifyAndFree p note false)
        (hrest.congr fun q hq => hframe q fun h => happart.1.1 (h ▸ hq))
        (hsend.congr fun q hq => hframe q fun h => by
          rw [addresses_append, List.mem_append, h] at hq
          exact hq.elim happart.1.2.1 happart.1.2.2)
        (hunordered.congr fun q hq => hframe q fun h => happart.2 (h ▸ hq)) hnodup hshort hbound with
        ⟨memory', sendHead, sendTail, unorderedHead, unorderedTail, hloop, hsend', hunordered',
          hframe'⟩
      refine ⟨memory', sendHead, sendTail, unorderedHead, unorderedTail, ?_, ?_, ?_, ?_⟩
      · simp only [dropLoop, hnode, Option.bind_some, htype, hloop]
        rw [ofType_cons_same htype]
        simp [notifyAndFree]
      · rw [ofType_cons_other (by simp [htype])]
        exact hsend'
      · rw [ofType_cons_other (by simp [htype])]
        exact hunordered'
      · intro q hq
        rw [List.cons_append, List.cons_append, addresses_cons, List.mem_cons, not_or] at hq
        rw [hframe' q hq.2]
        exact hframe q hq.1

theorem awaitNotify_eq (hnotify : c.memory.Segment c.mNotifyEventList (before ++ after) none)
    (hnode : c.memory p = some ⟨note, link⟩) (hnodup : (addresses (before ++ after)).Nodup)
    (hp : p ∉ addresses (before ++ after)) (hbound : after.length < bound) :
    ∃ memory head, c.awaitNotify bound p note (Cell.behind before) =
        some ({ c with memory := memory, mNotifyEventList := head },
          Cell.behind (insertInto seqLt (before, after) (p, note)).1) ∧
      memory.Segment head ((insertInto seqLt (before, after) (p, note)).1 ++
        (insertInto seqLt (before, after) (p, note)).2) none ∧
      ∀ q, q ≠ p → q ∉ addresses (before ++ after) → memory q = c.memory q := by
  rcases insert_eq hnotify hnode hnodup hp hbound with
    ⟨cell, rest, m, head, hadvance, -, hinsert, rfl, hsegment, hframe⟩
  exact ⟨m, head, by simp [awaitNotify, hadvance, hinsert], hsegment, hframe⟩

/-- The first loop of `packetReceived`. -/
theorem receiveLoop_eq (hwalk : c.memory.Segment walk walkNodes none)
    (hnotify : c.memory.Segment c.mNotifyEventList (before ++ after) none)
    (hnodup : (addresses (walkNodes ++ (before ++ after))).Nodup)
    (hfuel : walkNodes.length < fuel) (hbound : after.length < bound) :
    ∃ memory head, receiveLoop E bound fuel walk (Cell.behind before) c = some { c with
        memory := memory
        mNotifyEventList := head
        notified := c.notified ++ (walkNodes.filter fun x =>
          E.mGuaranteeType x.2.mEvent ≠ .guaranteedOrdered).map fun x => (x.2, true) } ∧
      memory.Segment head
        (((ofType E .guaranteedOrdered walkNodes).foldl (insertInto seqLt) (before, after)).1 ++
          ((ofType E .guaranteedOrdered walkNodes).foldl (insertInto seqLt) (before, after)).2)
        none ∧
      ∀ q ∉ addresses (walkNodes ++ (before ++ after)), memory q = c.memory q := by
  induction walkNodes generalizing walk c before after fuel with
  | nil =>
    obtain rfl : walk = none := hwalk
    obtain ⟨fuel, rfl⟩ := Nat.exists_eq_succ_of_ne_zero (by omega : fuel ≠ 0)
    exact ⟨_, _, by simp [receiveLoop], hnotify, fun q _ => rfl⟩
  | cons x rest ih =>
    rcases x with ⟨p, note⟩
    obtain ⟨rfl, next, hnode, hrest⟩ := hwalk
    obtain ⟨fuel, rfl⟩ := Nat.exists_eq_succ_of_ne_zero (by omega : fuel ≠ 0)
    have hshort : rest.length < fuel := by simpa using hfuel
    have hall := hnodup
    rw [List.cons_append, addresses_cons, List.nodup_cons] at hnodup
    rcases hnodup with ⟨happart, hnodup⟩
    have hdisjoint := hnodup
    rw [addresses_append, List.mem_append, not_or] at happart
    rw [addresses_append, List.nodup_append] at hdisjoint
    rcases hdisjoint with ⟨-, hlist, hothers⟩
    by_cases htype : E.mGuaranteeType note.mEvent = .guaranteedOrdered
    · rcases awaitNotify_eq hnotify hnode hlist happart.2 hbound with
        ⟨memory, head, hawait, hsegment, hframe⟩
      have hperm : (addresses (rest ++ ((insertInto seqLt (before, after) (p, note)).1 ++
            (insertInto seqLt (before, after) (p, note)).2))).Perm
          (addresses ((p, note) :: rest ++ (before ++ after))) := by
        simpa using insertInto_addresses before after [] (p, note) rest
      rcases ih (c := { c with memory := memory, mNotifyEventList := head })
        (hrest.congr fun q hq => hframe q (fun h => happart.1 (h ▸ hq))
          (fun h => hothers q hq q h rfl))
        hsegment (hperm.nodup_iff.mpr hall) hshort ((insertInto_length _).trans_lt hbound) with
        ⟨memory', head', hloop, hsegment', hframe'⟩
      refine ⟨memory', head', ?_, ?_, ?_⟩
      · simp only [receiveLoop, hnode, Option.bind_some, htype, ne_eq, not_true_eq_false, if_false,
          hawait, hloop]
        simp [htype]
      · rw [ofType_cons_same htype]
        exact hsegment'
      · intro q hq
        rw [hframe' q fun h => hq (hperm.mem_iff.mp h)]
        rw [List.cons_append, addresses_cons, List.mem_cons, not_or, addresses_append,
          List.mem_append, not_or] at hq
        exact hframe q hq.1 hq.2.2
    · have hframe : ∀ q, q ≠ p → Function.update c.memory p none q = c.memory q :=
        fun q hq => Function.update_of_ne hq ..
      rcases ih (c := c.notifyAndFree p note true)
        (hrest.congr fun q hq => hframe q fun h => happart.1 (h ▸ hq))
        (hnotify.congr fun q hq => hframe q fun h => happart.2 (h ▸ hq)) hnodup hshort hbound with
        ⟨memory', head', hloop, hsegment', hframe'⟩
      refine ⟨memory', head', ?_, ?_, ?_⟩
      · simp only [receiveLoop, hnode, Option.bind_some, ne_eq, htype, not_false_eq_true, if_true,
          hloop]
        simp [notifyAndFree, htype]
      · rw [ofType_cons_other htype]
        exact hsegment'
      · intro q hq
        rw [List.cons_append, addresses_cons, List.mem_cons, not_or] at hq
        rw [hframe' q hq.2]
        exact hframe q hq.1

/-- The second loop of `packetReceived` takes the consecutive notes off the list. -/
theorem notifyLoop_eq (hnotify : c.memory.Segment c.mNotifyEventList notify none)
    (hnodup : (addresses notify).Nodup) (hfuel : notify.length < fuel) :
    ∃ taken left memory head, notify = taken ++ left ∧
      takeConsecutive (notify.map Prod.snd) (c.mLastAckedEventSeq + 1) =
        (taken.map fun x => x.2.mEvent, left.map Prod.snd,
          c.mLastAckedEventSeq + 1 + taken.length) ∧
      notifyLoop fuel c = some { c with
        memory := memory
        mNotifyEventList := head
        mLastAckedEventSeq := c.mLastAckedEventSeq + taken.length
        notified := c.notified ++ taken.map fun x => (x.2, true) } ∧
      memory.Segment head left none ∧ ∀ q ∉ addresses notify, memory q = c.memory q := by
  induction notify generalizing c fuel with
  | nil =>
    obtain ⟨fuel, rfl⟩ := Nat.exists_eq_succ_of_ne_zero (by omega : fuel ≠ 0)
    have hhead : c.mNotifyEventList = none := hnotify
    refine ⟨[], [], c.memory, c.mNotifyEventList, rfl, ?_, ?_, hnotify, fun q _ => rfl⟩
    · simp [takeConsecutive]
    · simp only [notifyLoop, hhead]
      simp [← hhead]
  | cons x rest ih =>
    rcases x with ⟨p, note⟩
    obtain ⟨hhead, next, hnode, hrest⟩ := hnotify
    obtain ⟨fuel, rfl⟩ := Nat.exists_eq_succ_of_ne_zero (by omega : fuel ≠ 0)
    rw [addresses_cons, List.nodup_cons] at hnodup
    by_cases hseq : note.mSeqCount = c.mLastAckedEventSeq + 1
    · rcases ih (c := { c.notifyAndFree p note true with
          mLastAckedEventSeq := c.mLastAckedEventSeq + 1
          mNotifyEventList := next }) (hrest.update hnodup.1 none) hnodup.2
        (by simpa using hfuel : rest.length < fuel) with
        ⟨taken, left, memory, head, rfl, htake, hloop, hsegment, hframe⟩
      refine ⟨(p, note) :: taken, left, memory, head, rfl, ?_, ?_, hsegment, ?_⟩
      · simp only [List.map_cons, takeConsecutive, hseq, if_true, htake, List.length_cons]
        congr 2
        omega
      · simp only [notifyLoop, hhead, hnode, Option.bind_some, hseq, if_true, hloop]
        simp only [notifyAndFree, List.length_cons, List.map_cons, List.append_assoc,
          List.cons_append, List.nil_append]
        congr 2
        omega
      · intro q hq
        rw [addresses_cons, List.mem_cons, not_or] at hq
        rw [hframe q hq.2]
        exact Function.update_of_ne hq.1 ..
    · refine ⟨[], (p, note) :: rest, c.memory, c.mNotifyEventList, rfl, ?_, ?_,
        ⟨hhead, next, hnode, hrest⟩, fun q _ => rfl⟩
      · simp [takeConsecutive, hseq]
      · simp only [notifyLoop, hhead, hnode, Option.bind_some, hseq, if_false]
        simp [← hhead]

/-- A loop of `writePacket` is the record loop on the notes of its queue. -/
theorem packLoop_eq (stop : EventNote ε → Bool)
    (write : Option (EventNote ε) → EventNote ε → PackStream σ → PackStream σ)
    (rewindTo : PackStream σ → ℕ) (previous : Option (EventNote ε)) {s : Packing ε σ}
    {nodes packed : List (Placed ε)} (hnodes : s.memory.Segment s.head nodes none)
    (hpacked : s.memory.Queue s.packQueueHead s.packQueueTail packed)
    (hnodup : (addresses (nodes ++ packed)).Nodup) (hfuel : nodes.length < fuel) :
    ∃ sent left t, nodes = sent ++ left ∧
      recordLoop stop write rewindTo previous (nodes.map Prod.snd) s.w =
        (sent.map Prod.snd, left.map Prod.snd, t.w) ∧
      packLoop stop write rewindTo fuel previous s = some t ∧
      t.memory.Segment t.head left none ∧
      t.memory.Queue t.packQueueHead t.packQueueTail (packed ++ sent) ∧
      ∀ q ∉ addresses (nodes ++ packed), t.memory q = s.memory q := by
  induction nodes generalizing s previous packed fuel with
  | nil =>
    obtain ⟨fuel, rfl⟩ := Nat.exists_eq_succ_of_ne_zero (by omega : fuel ≠ 0)
    have hhead : s.head = none := hnodes
    refine ⟨[], [], s, rfl, rfl, ?_, hnodes, ?_, fun q _ => rfl⟩
    · simp [packLoop, hhead]
    · simpa using hpacked
  | cons x rest ih =>
    rcases x with ⟨ev, note⟩
    obtain ⟨hhead, next, hnode, hrest⟩ := hnodes
    obtain ⟨fuel, rfl⟩ := Nat.exists_eq_succ_of_ne_zero (by omega : fuel ≠ 0)
    have hall := hnodup
    rw [List.cons_append, addresses_cons, List.nodup_cons, addresses_append, List.mem_append,
      not_or, List.nodup_append] at hnodup
    rcases hnodup with ⟨⟨hevRest, hevPacked⟩, -, hpackedNodup, hcross⟩
    have hstay : s.memory.Queue s.packQueueHead s.packQueueTail (packed ++ []) := by
      simpa using hpacked
    by_cases hstop : s.w.stream.isFull || stop note
    · refine ⟨[], (ev, note) :: rest, s, rfl, ?_, ?_, ⟨hhead, next, hnode, hrest⟩, hstay,
        fun q _ => rfl⟩
      · simp only [List.map_cons, recordLoop, hstop, if_true, List.map_nil]
      · simp only [packLoop, hhead, hnode, Option.bind_some, hstop, if_true]
    · rw [Bool.not_eq_true] at hstop
      by_cases hspace : (write previous note s.w).stream.getBitSpaceAvailable <
          BitStream.minimumPaddingBits
      · refine ⟨[], (ev, note) :: rest, { s with w := { write previous note s.w with
            stream := ((write previous note s.w).stream.setBitPosition (rewindTo s.w)).clearError } },
          rfl, ?_, ?_, ⟨hhead, next, hnode, hrest⟩, hstay, fun q _ => rfl⟩
        · simp only [List.map_cons, recordLoop, hstop, hspace, if_true, List.map_nil]
          rfl
        · simp only [packLoop, hhead, hnode, Option.bind_some, hstop, hspace, if_true]
          rfl
      · -- the note moves from the queue to the packet's list
        have hunlinked : Memory.Queue (Function.update s.memory ev (some ⟨note, none⟩))
            s.packQueueHead s.packQueueTail packed :=
          hpacked.update hevPacked _
        rcases hunlinked.append hpackedNodup (Function.update_self ..) hevPacked with
          ⟨m, head, happend, hqueue, hframe⟩
        have hkeep : ∀ q, q ≠ ev → q ∉ addresses packed → m q = s.memory q := by
          intro q hq hmem
          rw [hframe q hmem]
          exact Function.update_of_ne hq ..
        have hperm : (addresses (rest ++ (packed ++ [(ev, note)]))).Perm
            (addresses ((ev, note) :: rest ++ packed)) := by
          apply List.Perm.map
          rw [← List.append_assoc]
          exact List.perm_append_singleton ..
        rcases ih (s := ⟨m, next, head, some ev, write previous note s.w⟩) (some note)
          (hrest.congr fun q hq => hkeep q (fun h => hevRest (h ▸ hq))
            fun h => hcross q hq q h rfl)
          hqueue (hperm.nodup_iff.mpr hall) (by simpa using hfuel : rest.length < fuel) with
          ⟨sent, left, t, rfl, hrecord, hloop, hleft, hpacked', hframe'⟩
        refine ⟨(ev, note) :: sent, left, t, rfl, ?_, ?_, hleft, ?_, ?_⟩
        · simp only [List.map_cons, recordLoop, hstop, hspace, if_false, hrecord]
          rfl
        · simp only [packLoop, hhead, hnode, Option.bind_some, hstop, hspace, if_false,
            Packing.dequeue, setNext, happend, Option.map_some, hloop]
          rfl
        · rwa [List.append_assoc] at hpacked'
        · intro q hq
          rw [hframe' q fun h => hq (hperm.mem_iff.mp h)]
          rw [List.cons_append, addresses_cons, List.mem_cons, not_or, addresses_append,
            List.mem_append, not_or] at hq
          exact hkeep q hq.1 hq.2.2

/-- The note lists of a connection in memory, apart from those of packets in flight. -/
structure Holds (c : NoteConnection ε) (send unordered notify : List (Placed ε)) : Prop where
  send : c.memory.Queue c.mSendEventQueueHead c.mSendEventQueueTail send
  unordered : c.memory.Queue c.mUnorderedSendEventQueueHead c.mUnorderedSendEventQueueTail unordered
  notify : c.memory.Segment c.mNotifyEventList notify none

/-- The connection with lists for the lists in memory, and nothing received. -/
def lists (c : NoteConnection ε) (send unordered notify : List (Placed ε)) :
    EventConnection ε where
  mSendEventQueue := send.map Prod.snd
  mUnorderedSendEventQueue := unordered.map Prod.snd
  mWaitSeqEvents := []
  mNotifyEventList := notify.map Prod.snd
  mNextSendEventSeq := c.mNextSendEventSeq
  mNextRecvEventSeq := firstValidSendEventSeq
  mLastAckedEventSeq := c.mLastAckedEventSeq

/-- All insertions of a walk over an event list. -/
def insertPlaced (list nodes : List (Placed ε)) : List (Placed ε) :=
  (nodes.foldl (insertInto seqLt) ([], list)).1 ++ (nodes.foldl (insertInto seqLt) ([], list)).2

theorem insertPlaced_perm (list nodes : List (Placed ε)) :
    (insertPlaced list nodes).Perm (nodes ++ list) :=
  foldl_insertInto_perm seqLt ([], list) nodes

theorem map_insertPlaced (list nodes : List (Placed ε)) :
    (insertPlaced list nodes).map Prod.snd =
      insertNotes (list.map Prod.snd) (nodes.map Prod.snd) := by
  have hmap := map_foldl_insertInto (fun n m : EventNote ε => decide (n.mSeqCount < m.mSeqCount))
    Prod.snd (([], list) : List (Placed ε) × List (Placed ε)) nodes
  have hnote : insertInto (fun n m : EventNote ε => decide (n.mSeqCount < m.mSeqCount)) =
      insertNote := rfl
  rw [hnote] at hmap
  simp only [Prod.map, List.map_nil] at hmap
  rw [insertPlaced, List.map_append, insertNotes, ← hmap]
  rfl

theorem map_ofType (type : GuaranteeType) (nodes : List (Placed ε)) :
    (ofType E type nodes).map Prod.snd =
      (nodes.map Prod.snd).filter fun n => E.mGuaranteeType n.mEvent = type := by
  rw [ofType, List.filter_map]
  rfl

theorem packetDropped_eq (h : c.Holds send unordered notify)
    (hwalk : c.memory.Segment walk walkNodes none)
    (hnodup : (addresses (walkNodes ++ send ++ unordered ++ notify)).Nodup)
    (hbound : walkNodes.length < bound) (hsend : send.length < bound) :
    ∃ d, c.packetDropped E bound walk = some d ∧
      d.Holds (insertPlaced send (ofType E .guaranteedOrdered walkNodes))
        ((ofType E .guaranteed walkNodes).reverse ++ unordered) notify ∧
      d.lists (insertPlaced send (ofType E .guaranteedOrdered walkNodes))
        ((ofType E .guaranteed walkNodes).reverse ++ unordered) notify =
        (c.lists send unordered notify).packetDropped E (walkNodes.map Prod.snd) ∧
      d.notified = c.notified ++ (ofType E .unguaranteed walkNodes).map (fun x => (x.2, false)) ∧
      ∀ q ∉ addresses (walkNodes ++ send ++ unordered), d.memory q = c.memory q := by
  rw [addresses_append] at hnodup
  rcases List.nodup_append.mp hnodup with ⟨hothers, -, hnotify⟩
  have hqueue : c.memory.Queue c.mSendEventQueueHead c.mSendEventQueueTail ([] ++ send) := h.send
  rcases dropLoop_eq (E := E) hwalk hqueue h.unordered hothers hbound hsend with
    ⟨memory, sendHead, sendTail, unorderedHead, unorderedTail, hloop, hsend', hunordered, hframe⟩
  refine ⟨_, hloop, ⟨hsend', hunordered, ?_⟩, ?_, rfl, hframe⟩
  · apply h.notify.congr
    exact fun q hq => hframe q fun hmem => hnotify q hmem q hq rfl
  · simp only [lists, EventConnection.packetDropped, map_insertPlaced, map_ofType, List.map_append,
      List.map_reverse]

theorem received_perm (E : EventClass ε σ) (notify walkNodes : List (Placed ε)) :
    (insertPlaced notify (ofType E .guaranteedOrdered walkNodes) ++ walkNodes.filter fun x =>
      E.mGuaranteeType x.2.mEvent ≠ .guaranteedOrdered).Perm (walkNodes ++ notify) := by
  apply ((insertPlaced_perm notify _).append_right _).trans
  rw [List.append_assoc]
  apply (List.perm_append_comm.append_left _).trans
  rw [← List.append_assoc]
  apply List.Perm.append_right
  simpa [ofType] using List.filter_append_perm
    (fun x : Placed ε => E.mGuaranteeType x.2.mEvent = .guaranteedOrdered) walkNodes

theorem packetReceived_eq (h : c.Holds send unordered notify)
    (hwalk : c.memory.Segment walk walkNodes none)
    (hnodup : (addresses (walkNodes ++ notify ++ (send ++ unordered))).Nodup)
    (hbound : (walkNodes ++ notify).length < bound) :
    ∃ d taken left, c.packetReceived E bound walk = some d ∧
      insertPlaced notify (ofType E .guaranteedOrdered walkNodes) = taken ++ left ∧
      d.Holds send unordered left ∧
      d.lists send unordered left =
        (c.lists send unordered notify).packetReceived E (walkNodes.map Prod.snd) ∧
      d.mLastAckedEventSeq = c.mLastAckedEventSeq + taken.length ∧
      d.notified = c.notified ++ ((walkNodes.filter fun x =>
        E.mGuaranteeType x.2.mEvent ≠ .guaranteedOrdered) ++ taken).map (fun x => (x.2, true)) ∧
      ∀ q ∉ addresses (walkNodes ++ notify), d.memory q = c.memory q := by
  rw [addresses_append] at hnodup
  rcases List.nodup_append.mp hnodup with ⟨hwalked, -, hqueues⟩
  rw [List.length_append] at hbound
  have hlist : c.memory.Segment c.mNotifyEventList ([] ++ notify) none := h.notify
  rcases receiveLoop_eq (E := E) hwalk hlist hwalked (by omega : walkNodes.length < bound)
    (by omega : notify.length < bound) with ⟨memory, head, hloop, hsegment, hframe⟩
  have hperm := received_perm E notify walkNodes
  have haddresses := hperm.map Prod.fst
  have hinserted : (addresses (insertPlaced notify (ofType E .guaranteedOrdered walkNodes))).Nodup := by
    have hall := haddresses.nodup_iff.mpr hwalked
    rw [List.map_append] at hall
    exact (List.nodup_append.mp hall).1
  have hfew : (insertPlaced notify (ofType E .guaranteedOrdered walkNodes)).length < bound := by
    have hlength := hperm.length_eq
    rw [List.length_append, List.length_append] at hlength
    omega
  have hsubset : ∀ q ∈ addresses (insertPlaced notify (ofType E .guaranteedOrdered walkNodes)),
      q ∈ addresses (walkNodes ++ notify) := by
    intro q hq
    apply haddresses.mem_iff.mp
    rw [List.map_append]
    exact List.mem_append_left _ hq
  rcases notifyLoop_eq (c := { c with
      memory := memory
      mNotifyEventList := head
      notified := c.notified ++ (walkNodes.filter fun x =>
        E.mGuaranteeType x.2.mEvent ≠ .guaranteedOrdered).map fun x => (x.2, true) })
    hsegment hinserted hfew with
    ⟨taken, left, memory', head', hsplit, htake, hnotifyLoop, hleft, hframe'⟩
  have hkeep : ∀ q ∉ addresses (walkNodes ++ notify), memory' q = c.memory q :=
    fun q hq => (hframe' q fun hmem => hq (hsubset q hmem)).trans (hframe q hq)
  have hreceived : c.packetReceived E bound walk = some { c with
      memory := memory'
      mNotifyEventList := head'
      mLastAckedEventSeq := c.mLastAckedEventSeq + taken.length
      notified := c.notified ++ (walkNodes.filter fun x =>
        E.mGuaranteeType x.2.mEvent ≠ .guaranteedOrdered).map (fun x => (x.2, true)) ++
          taken.map fun x => (x.2, true) } := by
    rw [packetReceived, show Cell.head = Cell.behind ([] : List (Placed ε)) from rfl, hloop]
    exact hnotifyLoop
  refine ⟨_, taken, left, hreceived, hsplit, ⟨?_, ?_, hleft⟩, ?_, rfl, ?_, hkeep⟩
  · apply h.send.congr
    exact fun q hq => hkeep q fun hmem => hqueues q hmem q (by simp [hq]) rfl
  · apply h.unordered.congr
    exact fun q hq => hkeep q fun hmem => hqueues q hmem q (by simp [hq]) rfl
  · have htaken : takeConsecutive (insertNotes (c.lists send unordered notify).mNotifyEventList
          ((walkNodes.map Prod.snd).filter fun n => E.mGuaranteeType n.mEvent = .guaranteedOrdered))
        ((c.lists send unordered notify).mLastAckedEventSeq + 1) =
          (taken.map fun x => x.2.mEvent, left.map Prod.snd,
            c.mLastAckedEventSeq + 1 + taken.length) := by
      rw [← map_ofType, lists, ← map_insertPlaced]
      exact htake
    rw [EventConnection.packetReceived, htaken]
    simp only [lists, EventConnection.mk.injEq, true_and]
    omega
  · simp only [List.map_append, List.append_assoc]

theorem postNetEvent_eq (h : c.Holds send unordered notify) (theEvent : ε)
    (hp : c.memory p = none) (hnodup : (addresses (send ++ unordered ++ notify)).Nodup) :
    ∃ d send' unordered', c.postNetEvent E theEvent p = some d ∧ d.Holds send' unordered' notify ∧
      d.lists send' unordered' notify = (c.lists send unordered notify).postNetEvent E theEvent ∧
      (send' ++ unordered').Perm ((p, if E.mGuaranteeType theEvent = .guaranteedOrdered then
        ⟨theEvent, c.mNextSendEventSeq⟩ else ⟨theEvent, invalidSendEventSeq⟩) ::
          (send ++ unordered)) ∧
      d.notified = c.notified ∧
      ∀ q ≠ p, q ∉ addresses (send ++ unordered) → d.memory q = c.memory q := by
  have hfresh : ∀ {head : Option ℕ} {nodes : List (Placed ε)},
      c.memory.Segment head nodes none → p ∉ addresses nodes := by
    intro head nodes hnodes hmem
    have hsome := hnodes.mem hmem
    rw [hp] at hsome
    cases hsome
  have hsend := hfresh h.send.segment
  have hunordered := hfresh h.unordered.segment
  have hnotify := hfresh h.notify
  simp only [addresses_append, List.nodup_append, List.mem_append] at hnodup
  obtain ⟨⟨hsendNodup, hunorderedNodup, hqueues⟩, -, hothers⟩ := hnodup
  by_cases htype : E.mGuaranteeType theEvent = .guaranteedOrdered
  · have hqueue : Memory.Queue (Function.update c.memory p
        (some ⟨⟨theEvent, c.mNextSendEventSeq⟩, none⟩)) c.mSendEventQueueHead
        c.mSendEventQueueTail send := h.send.update hsend _
    rcases hqueue.append hsendNodup (Function.update_self ..) hsend with
      ⟨m, head, happend, hqueue', hframe⟩
    have hkeep : ∀ q, q ≠ p → q ∉ addresses send → m q = c.memory q := by
      intro q hq hmem
      rw [hframe q hmem]
      exact Function.update_of_ne hq ..
    have hposted : c.postNetEvent E theEvent p = some { c with
        memory := m
        mNextSendEventSeq := c.mNextSendEventSeq + 1
        mSendEventQueueHead := head
        mSendEventQueueTail := some p } := by
      simp only [postNetEvent, htype, if_true, happend]
      rfl
    refine ⟨_, _, unordered, hposted, ⟨hqueue', ?_, ?_⟩, ?_, ?_, rfl, ?_⟩
    · apply h.unordered.congr
      exact fun q hq => hkeep q (fun heq => hunordered (heq ▸ hq)) fun hmem =>
        hqueues q hmem q hq rfl
    · apply h.notify.congr
      exact fun q hq => hkeep q (fun heq => hnotify (heq ▸ hq)) fun hmem =>
        hothers q (Or.inl hmem) q hq rfl
    · simp [lists, EventConnection.postNetEvent, htype]
    · simp only [htype, if_true, List.append_assoc, List.cons_append, List.nil_append]
      exact List.perm_middle
    · intro q hq hmem
      rw [addresses_append, List.mem_append, not_or] at hmem
      exact hkeep q hq hmem.1
  · have hqueue : Memory.Queue (Function.update c.memory p
        (some ⟨⟨theEvent, invalidSendEventSeq⟩, none⟩)) c.mUnorderedSendEventQueueHead
        c.mUnorderedSendEventQueueTail unordered := h.unordered.update hunordered _
    rcases hqueue.append hunorderedNodup (Function.update_self ..) hunordered with
      ⟨m, head, happend, hqueue', hframe⟩
    have hkeep : ∀ q, q ≠ p → q ∉ addresses unordered → m q = c.memory q := by
      intro q hq hmem
      rw [hframe q hmem]
      exact Function.update_of_ne hq ..
    have hposted : c.postNetEvent E theEvent p = some { c with
        memory := m
        mUnorderedSendEventQueueHead := head
        mUnorderedSendEventQueueTail := some p } := by
      simp only [postNetEvent, htype, if_false, happend]
      rfl
    refine ⟨_, send, _, hposted, ⟨?_, hqueue', ?_⟩, ?_, ?_, rfl, ?_⟩
    · apply h.send.congr
      exact fun q hq => hkeep q (fun heq => hsend (heq ▸ hq)) fun hmem =>
        hqueues q hq q hmem rfl
    · apply h.notify.congr
      exact fun q hq => hkeep q (fun heq => hnotify (heq ▸ hq)) fun hmem =>
        hothers q (Or.inr hmem) q hq rfl
    · simp [lists, EventConnection.postNetEvent, htype]
    · simp only [htype, if_false, ← List.append_assoc]
      exact List.perm_append_singleton ..
    · intro q hq hmem
      rw [addresses_append, List.mem_append, not_or] at hmem
      exact hkeep q hq hmem.2

theorem writePacket_eq {P : EventParameters} (h : c.Holds send unordered notify)
    (w : PackStream σ) (hnodup : (addresses (send ++ unordered ++ notify)).Nodup)
    (hbound : (send ++ unordered).length < bound) :
    ∃ d eventList sentUnordered leftUnordered sentOrdered leftOrdered t,
      c.writePacket P E bound w = some (d, eventList, t) ∧
      unordered = sentUnordered ++ leftUnordered ∧ send = sentOrdered ++ leftOrdered ∧
      d.Holds leftOrdered leftUnordered notify ∧
      d.memory.Segment eventList (sentUnordered ++ sentOrdered) none ∧
      (c.lists send unordered notify).writePacket P E w =
        ⟨sentUnordered.map Prod.snd, sentOrdered.map Prod.snd,
          d.lists leftOrdered leftUnordered notify, t⟩ ∧
      d.notified = c.notified ∧
      ∀ q ∉ addresses (send ++ unordered), d.memory q = c.memory q := by
  simp only [addresses_append, List.nodup_append, List.mem_append] at hnodup
  obtain ⟨⟨hsendNodup, hunorderedNodup, hqueues⟩, -, hothers⟩ := hnodup
  rw [List.length_append] at hbound
  let w₀ := if P.mDebugObjectSizes then
    { w with stream := w.stream.writeInt debugChecksum 32 } else w
  rcases packLoop_eq (s := ⟨c.memory, c.mUnorderedSendEventQueueHead, none, none, w₀⟩)
    (fun _ => false) (fun _ => writeUnorderedRecord P E)
    (fun w => (w.stream.writeFlag true).bitNum - 1) none h.unordered.segment .nil
    (by simpa using hunorderedNodup) (by omega : unordered.length < bound) with
    ⟨sentUnordered, leftUnordered, t, rfl, hrecord, hloop, hleft, hpacked, hframe⟩
  rw [List.append_nil] at hframe
  rw [List.nil_append] at hpacked
  rw [addresses_append] at hunorderedNodup hqueues hothers hframe
  rcases List.nodup_append.mp hunorderedNodup with ⟨hsentNodup, -, hsentLeft⟩
  have hsendApart : ∀ q ∈ addresses send, q ∉ addresses sentUnordered ++ addresses leftUnordered :=
    fun q hq hmem => hqueues q hq q hmem rfl
  -- the second loop continues the packet's list
  rcases packLoop_eq (s := { t with
      head := c.mSendEventQueueHead
      w := { t.w with stream := t.w.stream.writeFlag false } })
    (fun ev => ev.mSeqCount > c.mLastAckedEventSeq + eventWindow) (writeOrderedRecord P E)
    (fun w => w.stream.bitNum) none
    (h.send.segment.congr fun q hq => hframe q (hsendApart q hq)) hpacked
    (by
      rw [addresses_append]
      exact List.nodup_append.mpr ⟨hsendNodup, hsentNodup, fun q hq r hr heq =>
        hsendApart q hq (List.mem_append_left _ (heq ▸ hr))⟩)
    (by omega : send.length < bound) with
    ⟨sentOrdered, leftOrdered, u, rfl, hrecord', hloop', hleft', hpacked', hframe'⟩
  have hkeep : ∀ q, q ∉ addresses (sentOrdered ++ leftOrdered) → q ∉ addresses sentUnordered →
      q ∉ addresses leftUnordered → u.memory q = c.memory q := by
    intro q hsend hsent hleft
    rw [hframe' q (by rw [addresses_append, List.mem_append, not_or]; exact ⟨hsend, hsent⟩)]
    exact hframe q (by rw [List.mem_append, not_or]; exact ⟨hsent, hleft⟩)
  have hwritten : c.writePacket P E bound w = some ({ c with
      memory := u.memory
      mUnorderedSendEventQueueHead := t.head
      mSendEventQueueHead := u.head }, u.packQueueHead,
      { u.w with stream := u.w.stream.writeFlag false }) := by
    simp only [writePacket]
    rw [hloop, Option.bind_some, hloop']
    rfl
  refine ⟨_, _, sentUnordered, leftUnordered, sentOrdered, leftOrdered, _, hwritten, rfl, rfl,
    ⟨h.send.suffix hleft', ?_, ?_⟩, hpacked'.segment, ?_, rfl, ?_⟩
  · apply h.unordered.suffix
    apply hleft.congr
    intro q hq
    apply hframe'
    rw [addresses_append, List.mem_append, not_or]
    exact ⟨fun hmem => hqueues q hmem q (List.mem_append_right _ hq) rfl,
      fun hmem => hsentLeft q hmem q hq rfl⟩
  · apply h.notify.congr
    intro q hq
    exact hkeep q (fun hmem => hothers q (Or.inl hmem) q hq rfl)
      (fun hmem => hothers q (Or.inr (List.mem_append_left _ hmem)) q hq rfl)
      (fun hmem => hothers q (Or.inr (List.mem_append_right _ hmem)) q hq rfl)
  · simp only [EventConnection.writePacket, lists]
    rw [hrecord]
    erw [hrecord']
  · intro q hq
    rw [addresses_append, addresses_append (sentUnordered), List.mem_append, List.mem_append,
      not_or, not_or] at hq
    exact hkeep q hq.1 hq.2.1 hq.2.2

end NoteConnection

end TNL
