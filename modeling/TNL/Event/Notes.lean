import TNL.Event.EventConnection
import Mathlib.Data.List.TakeWhile
import Mathlib.Data.Int.Order.Basic

/-!
# Lists of numbered notes

Merging two lists of notes with increasing numbers gives a list with increasing
numbers, and taking consecutive notes off the head gives the events whose
numbers follow.
-/
namespace TNL
namespace EventConnection

variable {ε : Type*} {list notes : List (EventNote ε)}

/-- The numbers of the notes increase. -/
def Increasing (notes : List (EventNote ε)) : Prop :=
  notes.Pairwise (fun n m => n.mSeqCount < m.mSeqCount)

/-- No number occurs in both lists. -/
def SeqDisjoint (list notes : List (EventNote ε)) : Prop :=
  ∀ n ∈ list, ∀ m ∈ notes, n.mSeqCount ≠ m.mSeqCount

theorem mem_insertNote {pointer : List (EventNote ε) × List (EventNote ε)} {note n : EventNote ε} :
    n ∈ (insertNote pointer note).1 ++ (insertNote pointer note).2 ↔
      n ∈ pointer.1 ++ pointer.2 ∨ n = note := by
  have hsplit : n ∈ pointer.2 ↔ n ∈ pointer.2.takeWhile (fun n => n.mSeqCount < note.mSeqCount) ∨
      n ∈ pointer.2.dropWhile (fun n => n.mSeqCount < note.mSeqCount) := by
    rw [← List.mem_append, List.takeWhile_append_dropWhile]
  simp only [insertNote, List.mem_append, List.mem_singleton, hsplit]
  tauto

theorem mem_insertNotes {n : EventNote ε} : n ∈ insertNotes list notes ↔ n ∈ list ∨ n ∈ notes := by
  have hfold : ∀ pointer : List (EventNote ε) × List (EventNote ε),
      n ∈ (notes.foldl insertNote pointer).1 ++ (notes.foldl insertNote pointer).2 ↔
        n ∈ pointer.1 ++ pointer.2 ∨ n ∈ notes := by
    induction notes with
    | nil => simp
    | cons note notes ih =>
      intro pointer
      rw [List.foldl_cons, ih, mem_insertNote, List.mem_cons, or_assoc]
  simpa [insertNotes] using hfold ([], list)

/-- Inserting a note that is larger than everything before the pointer. -/
theorem insertNote_increasing {pointer : List (EventNote ε) × List (EventNote ε)}
    {note : EventNote ε} (hpointer : Increasing (pointer.1 ++ pointer.2))
    (hbefore : ∀ n ∈ pointer.1, n.mSeqCount < note.mSeqCount)
    (hnew : ∀ n ∈ pointer.2, n.mSeqCount ≠ note.mSeqCount) :
    Increasing ((insertNote pointer note).1 ++ (insertNote pointer note).2) ∧
      ∀ n ∈ (insertNote pointer note).1, n.mSeqCount ≤ note.mSeqCount := by
  obtain ⟨before, after⟩ := pointer
  dsimp only at hpointer hbefore hnew
  have hskipped : ∀ n ∈ after.takeWhile (fun n => n.mSeqCount < note.mSeqCount),
      n.mSeqCount < note.mSeqCount := fun n hn => by simpa using List.mem_takeWhile_imp hn
  have hlow : ∀ n ∈ before ++ after.takeWhile (fun n => n.mSeqCount < note.mSeqCount),
      n.mSeqCount < note.mSeqCount := by
    intro n hn
    obtain h | h := List.mem_append.mp hn
    · exact hbefore n h
    · exact hskipped n h
  have hsplit : Increasing ((before ++ after.takeWhile (fun n => n.mSeqCount < note.mSeqCount)) ++
      after.dropWhile (fun n => n.mSeqCount < note.mSeqCount)) := by
    rw [List.append_assoc, List.takeWhile_append_dropWhile]
    exact hpointer
  obtain ⟨hfirst, hsecond, hcross⟩ := List.pairwise_append.mp hsplit
  have hhigh : ∀ n ∈ after.dropWhile (fun n => n.mSeqCount < note.mSeqCount),
      note.mSeqCount < n.mSeqCount := by
    generalize hdrop : after.dropWhile (fun n => n.mSeqCount < note.mSeqCount) = rest at hsecond
    cases rest with
    | nil => simp
    | cons head tail =>
      have hmem : head ∈ after := List.dropWhile_subset _ (hdrop ▸ List.mem_cons_self)
      have hhead := List.head_dropWhile_not
        (fun n : EventNote ε => decide (n.mSeqCount < note.mSeqCount)) (l := after)
        (by rw [hdrop]; simp)
      simp only [hdrop, List.head_cons, decide_eq_false_iff_not] at hhead
      have hne := hnew head hmem
      intro n hn
      obtain rfl | htail := List.mem_cons.mp hn
      · omega
      · have := (List.pairwise_cons.mp hsecond).1 n htail
        omega
  constructor
  · refine List.pairwise_append.mpr ⟨List.pairwise_append.mpr ⟨hfirst, by simp, ?_⟩, hsecond, ?_⟩
    · intro n hn m hm
      obtain rfl := List.mem_singleton.mp hm
      exact hlow n hn
    · intro n hn m hm
      obtain h | h := List.mem_append.mp hn
      · exact hcross n h m hm
      · obtain rfl := List.mem_singleton.mp h
        exact hhigh m hm
  · intro n hn
    obtain h | h := List.mem_append.mp hn
    · exact (hlow n h).le
    · exact (List.mem_singleton.mp h ▸ le_rfl)

/-- Merging in one pass. -/
theorem insertNotes_increasing (hlist : Increasing list) (hnotes : Increasing notes)
    (hdisjoint : SeqDisjoint list notes) : Increasing (insertNotes list notes) := by
  have hfold : ∀ pointer : List (EventNote ε) × List (EventNote ε),
      Increasing (pointer.1 ++ pointer.2) →
      (∀ n ∈ pointer.1, ∀ m ∈ notes, n.mSeqCount < m.mSeqCount) →
      (∀ n ∈ pointer.2, ∀ m ∈ notes, n.mSeqCount ≠ m.mSeqCount) →
        Increasing ((notes.foldl insertNote pointer).1 ++ (notes.foldl insertNote pointer).2) := by
    clear hdisjoint
    induction notes with
    | nil => exact fun pointer h _ _ => h
    | cons note notes ih =>
      intro pointer hpointer hbefore hnew
      obtain ⟨hhead, htail⟩ := List.pairwise_cons.mp hnotes
      obtain ⟨hinsert, hle⟩ := insertNote_increasing hpointer
        (fun n hn => hbefore n hn note List.mem_cons_self)
        (fun n hn => hnew n hn note List.mem_cons_self)
      refine ih htail _ hinsert ?_ ?_
      · exact fun n hn m hm => lt_of_le_of_lt (hle n hn) (hhead m hm)
      · intro n hn m hm
        exact hnew n (List.dropWhile_subset _ hn) m (List.mem_cons_of_mem _ hm)
  exact hfold ([], list) hlist (by simp) hdisjoint

/-- The notes taken off the head have the numbers from `next` on, and the one left at the head has
not. -/
theorem takeConsecutive_spec (notes : List (EventNote ε)) (next : ℤ) :
    ∃ taken, notes = taken ++ (takeConsecutive notes next).2.1 ∧
      (takeConsecutive notes next).1 = taken.map EventNote.mEvent ∧
      (takeConsecutive notes next).2.2 = next + taken.length ∧
      (∀ i (hi : i < taken.length), taken[i].mSeqCount = next + i) ∧
      ∀ n ∈ (takeConsecutive notes next).2.1.head?,
        n.mSeqCount ≠ (takeConsecutive notes next).2.2 := by
  induction notes generalizing next with
  | nil => exact ⟨[], by simp [takeConsecutive]⟩
  | cons note notes ih =>
    by_cases hnext : note.mSeqCount = next
    · obtain ⟨taken, hsplit, hevents, hlast, hseqs, hhead⟩ := ih (next + 1)
      have hcons : takeConsecutive (note :: notes) next =
          (note.mEvent :: (takeConsecutive notes (next + 1)).1,
            (takeConsecutive notes (next + 1)).2) := by
        simp [takeConsecutive, hnext]
      rw [hcons]
      refine ⟨note :: taken, ?_, ?_, ?_, ?_, hhead⟩
      · rw [List.cons_append, ← hsplit]
      · rw [hevents, List.map_cons]
      · rw [hlast, List.length_cons]
        omega
      · intro i hi
        cases i with
        | zero => simpa using hnext
        | succ i =>
          rw [List.getElem_cons_succ, hseqs i (by simpa using hi)]
          omega
    · refine ⟨[], ?_⟩
      simp [takeConsecutive, hnext]

end EventConnection

end TNL
