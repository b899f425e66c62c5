import TNL.StringTable.StringLink

/-!
# A string table that is used in a circle

When the strings of the entries come up in the order of the entries, the entry
used least recently moves through the table in a circle, and each new string
takes the place of the one it meets there.
-/
namespace TNL

namespace StringLink
open ConnectionStringTable

section ring

variable {t : ConnectionStringTable ℕ} {strings : Fin entryCount → ℕ} {assigned k n s : ℕ}

/-- A table of numbers, each of which is its own index in the global table. The first `assigned`
entries are in use, each in the bucket of its own index, and entry `k` is used least recently. -/
structure Ring (strings : Fin entryCount → ℕ) (assigned k : ℕ) (t : ConnectionStringTable ℕ) :
    Prop where
  entries : ∀ i, t.mEntryTable i = ⟨strings i, false⟩
  buckets : ∀ i : Fin entryCount, i.val < assigned → strings i % entryCount = i.val
  chains : ∀ b : Fin entryCount, t.mHashTable b = if b.val < assigned then [b] else []
  lru : t.lru = (List.finRange entryCount).drop k ++ (List.finRange entryCount).take k

theorem Ring.wrap (h : Ring strings assigned entryCount t) : Ring strings assigned 0 t where
  entries := h.entries
  buckets := h.buckets
  chains := h.chains
  lru := by
    have hlength : (List.finRange entryCount).length = entryCount := List.length_finRange
    rw [h.lru, List.drop_eq_nil_of_le hlength.le, List.take_of_length_le hlength.le,
      List.drop_zero, List.take_zero, List.append_nil, List.nil_append]

theorem Ring.lru_cons (h : Ring strings assigned k t) (hk : k < entryCount) : t.lru =
    ⟨k, hk⟩ :: ((List.finRange entryCount).drop (k + 1) ++ (List.finRange entryCount).take k) := by
  rw [h.lru, List.drop_eq_getElem_cons (by simpa using hk)]
  simp

theorem Ring.pushBack_lru (h : Ring strings assigned k t) (hk : k < entryCount) :
    (t.pushBack ⟨k, hk⟩).lru =
      (List.finRange entryCount).drop (k + 1) ++ (List.finRange entryCount).take (k + 1) := by
  rw [List.take_add_one, List.getElem?_eq_getElem (by simpa using hk)]
  simp [pushBack, h.lru_cons hk]

theorem hashIndex_id (hk : k < entryCount) (hbucket : s % entryCount = k) :
    hashIndex id s = ⟨k, hk⟩ :=
  Fin.ext hbucket

/-- The string of entry `k` is found there. -/
theorem Ring.hit (h : Ring strings assigned k t) (hk : k < entryCount) (hassigned : k < assigned) :
    (t.writeStringTableEntry id (strings ⟨k, hk⟩)).1 = ⟨⟨k, hk⟩, some (strings ⟨k, hk⟩)⟩ ∧
      Ring strings assigned (k + 1) (t.writeStringTableEntry id (strings ⟨k, hk⟩)).2 := by
  have hfind : t.find id (strings ⟨k, hk⟩) = some ⟨k, hk⟩ := by
    rw [find, hashIndex_id hk (h.buckets _ hassigned), h.chains, if_pos hassigned]
    simp [h.entries]
  simp only [writeStringTableEntry, sendEntry, hfind]
  refine ⟨by simp [pushBack, h.entries], ?_⟩
  exact ⟨h.entries, h.buckets, h.chains, h.pushBack_lru hk⟩

/-- A new string takes entry `k`, which is unused or holds another string of its bucket. -/
theorem Ring.miss (h : Ring strings assigned k t) (hk : k < entryCount)
    (hassigned : k < assigned ∨ k = assigned ∧ strings ⟨k, hk⟩ = 0)
    (hbucket : s % entryCount = k) (hnew : strings ⟨k, hk⟩ ≠ s) :
    (t.writeStringTableEntry id s).1 = ⟨⟨k, hk⟩, some s⟩ ∧
      Ring (Function.update strings ⟨k, hk⟩ s) (max assigned (k + 1)) (k + 1)
        (t.writeStringTableEntry id s).2 := by
  have hfind : t.find id s = none := by
    rw [find, hashIndex_id hk hbucket, h.chains]
    split <;> simp [h.entries, hnew]
  have hpushed : ∀ i, (t.pushBack ⟨k, hk⟩).mEntryTable i = ⟨strings i, false⟩ := h.entries
  have hchains : ∀ b : Fin entryCount, (t.pushBack ⟨k, hk⟩).mHashTable b =
    if b.val < assigned then [b] else [] := h.chains
  simp only [writeStringTableEntry, sendEntry, hfind, h.lru_cons hk, List.headD_cons]
  refine ⟨by simp [assign], ?_, ?_, ?_, h.pushBack_lru hk⟩
  · intro i
    by_cases hi : i = ⟨k, hk⟩ <;> simp [assign, hi, hpushed]
  · intro i hi
    by_cases hik : i = ⟨k, hk⟩
    · simpa [hik] using hbucket
    · have hne : i.val ≠ k := fun h => hik (Fin.ext h)
      simpa [hik] using h.buckets i (by omega)
  · intro b
    simp only [assign, hashIndex_id hk hbucket, hpushed]
    by_cases hb : b = ⟨k, hk⟩
    · have hempty : Function.update (t.pushBack ⟨k, hk⟩).mHashTable
          (hashIndex id (strings ⟨k, hk⟩)) (((t.pushBack ⟨k, hk⟩).mHashTable
            (hashIndex id (strings ⟨k, hk⟩))).erase ⟨k, hk⟩) ⟨k, hk⟩ = [] := by
        obtain hin | ⟨heq, -⟩ := hassigned
        · rw [hashIndex_id hk (h.buckets _ hin), Function.update_self, hchains, if_pos hin]
          simp
        · rw [Function.update_apply]
          split
          · rename_i hold
            rw [← hold, hchains, if_neg (by simp [heq])]
            rfl
          · rw [hchains, if_neg (by simp [heq])]
      rw [hb, Function.update_self, hempty, if_pos (by simp)]
    · have hne : b.val ≠ k := fun h => hb (Fin.ext h)
      rw [Function.update_of_ne hb, Function.update_apply]
      have herase : ((t.pushBack ⟨k, hk⟩).mHashTable b).erase ⟨k, hk⟩ =
          (t.pushBack ⟨k, hk⟩).mHashTable b := by
        rw [hchains]
        split
        · exact List.erase_of_not_mem (by simpa using Ne.symm hb)
        · rfl
      have hstill : b.val < max assigned (k + 1) ↔ b.val < assigned := by omega
      simp only [hstill, ← hchains]
      split
      · rename_i hold
        rw [← hold, herase]
      · rfl

/-- What is written for a string that the peer does not have yet. -/
def stated (string : ℕ) : ℕ × StringRecord ℕ :=
  (string, ⟨hashIndex id string, some string⟩)

theorem stated_eq (hk : k < entryCount) (hbucket : s % entryCount = k) :
    (s, (⟨⟨k, hk⟩, some s⟩ : StringRecord ℕ)) = stated s := by
  subst hbucket
  rfl

theorem writeStrings_cons (t : ConnectionStringTable ℕ) (string : ℕ) (rest : List ℕ) :
    writeStrings id t (string :: rest) =
      ((string, (t.writeStringTableEntry id string).1) ::
        (writeStrings id (t.writeStringTableEntry id string).2 rest).1,
        (writeStrings id (t.writeStringTableEntry id string).2 rest).2) := rfl

/-- Strings 1024 and up in the entries below `k`. -/
def filled (k : ℕ) (i : Fin entryCount) : ℕ := if i.val < k then 1024 + i.val else 0

theorem filled_succ (hk : k < entryCount) :
    Function.update (filled k) ⟨k, hk⟩ (1024 + k) = filled (k + 1) := by
  funext i
  have hi : i = ⟨k, hk⟩ ↔ i.val = k := Fin.ext_iff
  simp only [Function.update_apply, filled, hi]
  split <;> rename_i hik
  · simp [hik]
  · have : i.val < k + 1 ↔ i.val < k := by omega
    simp only [this]

/-- The table fills up in order. -/
theorem Ring.fill (h : Ring (filled k) k k t) (hn : k + n ≤ entryCount) :
    (writeStrings id t (List.range' (1024 + k) n)).1 = (List.range' (1024 + k) n).map stated ∧
      Ring (filled (k + n)) (k + n) (k + n) (writeStrings id t (List.range' (1024 + k) n)).2 := by
  induction n generalizing k t with
  | zero => exact ⟨rfl, h⟩
  | succ n ih =>
    have hk : k < entryCount := by omega
    have hbucket : (1024 + k) % entryCount = k := by simp [Nat.mod_eq_of_lt hk]
    have hunused : filled k ⟨k, hk⟩ = 0 := by simp [filled]
    obtain ⟨hrecord, hring⟩ := h.miss hk (.inr ⟨rfl, hunused⟩) hbucket (by omega)
    rw [filled_succ, max_eq_right (Nat.le_succ k)] at hring
    obtain ⟨hrecords, hrest⟩ := ih hring (by omega)
    rw [Nat.add_right_comm, Nat.add_assoc] at hrest
    rw [List.range'_succ, writeStrings_cons, hrecord, stated_eq hk hbucket, Nat.add_assoc 1024]
    exact ⟨congrArg (stated (1024 + k) :: ·) hrecords, hrest⟩

/-- Strings that are in the table are found in order. -/
theorem Ring.refresh (h : Ring strings entryCount k t) (hn : k + n ≤ entryCount)
    (hstrings : ∀ i : Fin entryCount, k ≤ i.val → strings i = 1024 + i.val) :
    (writeStrings id t (List.range' (1024 + k) n)).1 = (List.range' (1024 + k) n).map stated ∧
      Ring strings entryCount (k + n) (writeStrings id t (List.range' (1024 + k) n)).2 := by
  induction n generalizing k t with
  | zero => exact ⟨rfl, h⟩
  | succ n ih =>
    have hk : k < entryCount := by omega
    have hbucket : (1024 + k) % entryCount = k := by simp [Nat.mod_eq_of_lt hk]
    have hhit := h.hit hk hk
    rw [hstrings ⟨k, hk⟩ le_rfl] at hhit
    obtain ⟨hrecord, hring⟩ := hhit
    obtain ⟨hrecords, hrest⟩ := ih hring (by omega) (fun i hi => hstrings i (by omega))
    rw [Nat.add_right_comm, Nat.add_assoc] at hrest
    rw [List.range'_succ, writeStrings_cons, hrecord, stated_eq hk hbucket, Nat.add_assoc 1024]
    exact ⟨congrArg (stated (1024 + k) :: ·) hrecords, hrest⟩

/-- Write packets of strings one after the other. -/
def writePackets : ConnectionStringTable ℕ → List (List ℕ) →
    List (StringPacket ℕ) × ConnectionStringTable ℕ
  | t, [] => ([], t)
  | t, strings :: packets =>
    let (writes, t) := writeStrings id t strings
    let (rest, t) := writePackets t packets
    (⟨writes⟩ :: rest, t)

/-- Packets in which every string is stated, from table `t` to table `u`. -/
def States (packets : List (List ℕ)) (t u : ConnectionStringTable ℕ) : Prop :=
  writePackets t packets = (packets.map (fun p => ⟨p.map stated⟩), u)

theorem States.append {u v : ConnectionStringTable ℕ} {p q : List (List ℕ)} (h : States p t u)
    (k : States q u v) : States (p ++ q) t v := by
  induction p generalizing t with
  | nil =>
    obtain rfl : t = u := congrArg Prod.snd h
    exact k
  | cons strings p ih =>
    obtain ⟨hfirst, hlast⟩ := Prod.mk.inj h
    obtain ⟨hhead, htail⟩ := List.cons.inj hfirst
    have hrest : writePackets (writeStrings id t strings).2 (p ++ q) = _ :=
      ih (Prod.ext htail hlast)
    rw [States, List.cons_append, writePackets]
    simp only [hrest]
    exact Prod.ext (congrArg (· :: _) hhead) rfl

theorem states_single (strings : List ℕ)
    (h : (writeStrings id t strings).1 = strings.map stated) :
    States [strings] t (writeStrings id t strings).2 := by
  rw [States, writePackets]
  simp [h, writePackets]

/-- The strings of the entries from `k` on. -/
def block (k n : ℕ) : List ℕ := List.range' (1024 + k) n

/-- Packets of 128 strings each. -/
def blocks (j m : ℕ) : List (List ℕ) := (List.range' j m).map (fun j => block (128 * j) 128)

theorem blocks_succ (j m : ℕ) : blocks j (m + 1) = [block (128 * j) 128] ++ blocks (j + 1) m := by
  simp [blocks, List.range'_succ]

theorem fill_blocks {j m : ℕ} (h : Ring (filled (128 * j)) (128 * j) (128 * j) t)
    (hm : 128 * (j + m) ≤ entryCount) : ∃ u, States (blocks j m) t u ∧
      Ring (filled (128 * (j + m))) (128 * (j + m)) (128 * (j + m)) u := by
  induction m generalizing j t with
  | zero => exact ⟨t, rfl, h⟩
  | succ m ih =>
    obtain ⟨hrecords, hring⟩ := h.fill (n := 128) (by omega)
    obtain ⟨u, hstates, hlast⟩ := ih (j := j + 1) hring (by omega)
    rw [Nat.add_right_comm, Nat.add_assoc] at hlast
    exact ⟨u, blocks_succ j m ▸ (states_single _ hrecords).append hstates, hlast⟩

theorem refresh_blocks {j m : ℕ} (h : Ring strings entryCount (128 * j) t) (hj : 1 ≤ j)
    (hm : 128 * (j + m) ≤ entryCount)
    (hstrings : ∀ i : Fin entryCount, 1 ≤ i.val → strings i = 1024 + i.val) :
    ∃ u, States (blocks j m) t u ∧ Ring strings entryCount (128 * (j + m)) u := by
  induction m generalizing j t with
  | zero => exact ⟨t, rfl, h⟩
  | succ m ih =>
    obtain ⟨hrecords, hring⟩ := h.refresh (n := 128) (by omega) (fun i hi => hstrings i (by omega))
    obtain ⟨u, hstates, hlast⟩ := ih (j := j + 1) hring (by omega) (by omega)
    rw [Nat.add_right_comm, Nat.add_assoc] at hlast
    exact ⟨u, blocks_succ j m ▸ (states_single _ hrecords).append hstates, hlast⟩

end ring

end StringLink

end TNL
