import Mathlib.Data.List.DropRight
import Mathlib.Tactic.Common
import Mathlib.Tactic.IntervalCases

/-!
# Names of players

A player that connects gets the name it asks for, or that name with a number. The number is cut to
one character, so that the search for a name that nobody has may go on for ever.
-/
namespace TNL.PlayerNames

/-- The name at the start of the buffer, without the spaces around it. -/
def stripped (buf : List UInt8) : List UInt8 :=
  (((buf.takeWhile (· ≠ 0)).take 30).dropWhile (· = 32)).rdropWhile (· = 32)

/-- Invisible characters are replaced. -/
def visible (c : UInt8) : UInt8 := if c < 32 ∨ 127 < c then 'X'.toUInt8 else c

def requestedName (buf : List UInt8) : List UInt8 := (stripped buf).map visible

/-- `"%d"` -/
def decimal (n : Int32) : List UInt8 :=
  if n < 0 then '-'.toUInt8 :: (Nat.toDigits 10 n.toInt.natAbs).map Char.toUInt8
  else (Nat.toDigits 10 n.toInt.natAbs).map Char.toUInt8

/-- `dSprintf(name + len, 3, ".%d", index)` writes two characters and a zero. -/
def numbered (name : List UInt8) (index : UInt32) : List UInt8 :=
  name ++ ('.'.toUInt8 :: decimal index.toInt32).take 2

/-- The loop over the names of the clients, started again whenever one of them is `current`. -/
def checkPlayerName (taken : List (List UInt8)) (name : List UInt8) :
    ℕ → UInt32 → List UInt8 → Option (List UInt8)
  | 0, _, _ => none
  | fuel + 1, index, current =>
    if taken.contains current then checkPlayerName taken name fuel (index + 1) (numbered name index)
    else some current

/-- The name of a player that asks for the name in the buffer. -/
def clientName (taken : List (List UInt8)) (buf : List UInt8) (fuel : ℕ) : Option (List UInt8) :=
  checkPlayerName taken (requestedName buf) fuel 0 (requestedName buf)

/-- The characters that the search can put after the dot. -/
def marks : List UInt8 := ['0', '1', '2', '3', '4', '5', '6', '7', '8', '9', '-'].map Char.toUInt8

variable {taken : List (List UInt8)} {name current found : List UInt8} {fuel : ℕ} {index : UInt32}

theorem checkPlayerName_taken (h : current ∈ taken) :
    checkPlayerName taken name (fuel + 1) index current =
      checkPlayerName taken name fuel (index + 1) (numbered name index) :=
  if_pos (List.contains_iff_mem.mpr h)

theorem checkPlayerName_free (h : current ∉ taken) :
    checkPlayerName taken name (fuel + 1) index current = some current :=
  if_neg (mt List.contains_iff_mem.mp h)

theorem isDigit_marks {c : Char} (h : c.isDigit) : c.toUInt8 ∈ marks := by
  simp only [Char.isDigit, Bool.and_eq_true, decide_eq_true_eq] at h
  obtain ⟨hlow, hhigh⟩ := h
  have hlow := UInt32.le_iff_toNat_le.mp hlow
  have hhigh := UInt32.le_iff_toNat_le.mp hhigh
  have hc : c.toUInt8 = UInt8.ofNat c.val.toNat := rfl
  rw [hc]
  generalize c.val.toNat = n at hlow hhigh
  have hlow : 48 ≤ n := hlow
  have hhigh : n ≤ 57 := hhigh
  interval_cases n <;> decide

theorem toDigits_marks (n : ℕ) :
    ∃ mark ∈ marks, ∃ rest, (Nat.toDigits 10 n).map Char.toUInt8 = mark :: rest := by
  cases hdigits : Nat.toDigits 10 n with
  | nil => exact absurd hdigits Nat.toDigits_ne_nil
  | cons c rest =>
    have hc : c ∈ Nat.toDigits 10 n := hdigits ▸ List.mem_cons_self
    have hdigit := Nat.isDigit_of_mem_toDigits (by decide) (by decide) hc
    exact ⟨c.toUInt8, isDigit_marks hdigit, _, rfl⟩

/-- Only one character of the number is left. -/
theorem numbered_marks (name : List UInt8) (index : UInt32) :
    ∃ mark ∈ marks, numbered name index = name ++ ['.'.toUInt8, mark] := by
  have h : ∃ mark ∈ marks, ∃ rest, decimal index.toInt32 = mark :: rest := by
    unfold decimal
    split_ifs
    · exact ⟨_, by decide, _, rfl⟩
    · exact toDigits_marks _
  obtain ⟨mark, hmark, rest, heq⟩ := h
  exact ⟨mark, hmark, by rw [numbered, heq]; rfl⟩

/-- Every mark comes up at some index. -/
theorem exists_numbered (name : List UInt8) {mark : UInt8} (h : mark ∈ marks) :
    ∃ index, numbered name index = name ++ ['.'.toUInt8, mark] := by
  have hindex : ∀ mark ∈ marks,
      ∃ index ∈ ([0, 1, 2, 3, 4, 5, 6, 7, 8, 9, 0x80000000] : List UInt32),
        (decimal index.toInt32).take 1 = [mark] := by
    decide +kernel
  obtain ⟨index, -, heq⟩ := hindex mark h
  exact ⟨index, by rw [numbered, List.take_succ_cons, heq]⟩

/-- What the search finds. -/
theorem checkPlayerName_some (h : checkPlayerName taken name fuel index current = some found) :
    found ∉ taken ∧ (found = current ∨ ∃ mark ∈ marks, found = name ++ ['.'.toUInt8, mark]) := by
  induction fuel generalizing index current with
  | zero => exact absurd h (by simp [checkPlayerName])
  | succ fuel ih =>
    by_cases hcurrent : current ∈ taken
    · rw [checkPlayerName_taken hcurrent] at h
      obtain ⟨hfree, hfound⟩ := ih h
      rcases hfound with rfl | hfound
      · exact ⟨hfree, .inr (numbered_marks name index)⟩
      · exact ⟨hfree, .inr hfound⟩
    · rw [checkPlayerName_free hcurrent] at h
      obtain rfl := Option.some.inj h
      exact ⟨hcurrent, .inl rfl⟩

/-- The search gets to every index unless it has ended before. -/
theorem checkPlayerName_ends (k : ℕ) (hfree : numbered name (index + UInt32.ofNat k) ∉ taken) :
    ∃ fuel found, checkPlayerName taken name fuel index current = some found := by
  induction k generalizing index current with
  | zero =>
    by_cases hcurrent : current ∈ taken
    · refine ⟨2, numbered name index, ?_⟩
      rw [checkPlayerName_taken hcurrent, checkPlayerName_free (by simpa using hfree)]
    · exact ⟨1, current, checkPlayerName_free hcurrent⟩
  | succ k ih =>
    by_cases hcurrent : current ∈ taken
    · have hnext : index + 1 + UInt32.ofNat k = index + UInt32.ofNat (k + 1) := by
        rw [UInt32.ofNat_add, UInt32.add_assoc, UInt32.add_comm 1]
        rfl
      obtain ⟨fuel, found, hfound⟩ := ih (hnext ▸ hfree)
      exact ⟨fuel + 1, found, by rw [checkPlayerName_taken hcurrent, hfound]⟩
    · exact ⟨1, current, checkPlayerName_free hcurrent⟩

theorem requestedName_length (buf : List UInt8) : (requestedName buf).length ≤ 30 := by
  rw [requestedName, List.length_map, stripped]
  calc _ ≤ _ := (List.rdropWhile_prefix _ _).length_le
    _ ≤ ((buf.takeWhile (· ≠ 0)).take 30).length := List.length_dropWhile_le _ _
    _ ≤ 30 := List.length_take_le _ _

theorem visible_range (c : UInt8) : 32 ≤ visible c ∧ visible c ≤ 127 := by
  unfold visible
  split_ifs with h
  · decide
  · obtain ⟨hlow, hhigh⟩ := not_or.mp h
    exact ⟨UInt8.not_lt.mp hlow, UInt8.not_lt.mp hhigh⟩

/-- A name that is found is that of no other player and fits the buffer. The search ends exactly if
the name is free, or one of the eleven that are made from it. -/
theorem clientName_spec (taken : List (List UInt8)) (buf : List UInt8) :
    (∀ fuel found, clientName taken buf fuel = some found →
      found ∉ taken ∧ found.length ≤ 32 ∧ ∀ c ∈ found, 32 ≤ c ∧ c ≤ 127) ∧
    ((∃ fuel found, clientName taken buf fuel = some found) ↔
      requestedName buf ∉ taken ∨
        ∃ mark ∈ marks, requestedName buf ++ ['.'.toUInt8, mark] ∉ taken) := by
  have hvisible : ∀ c ∈ requestedName buf, 32 ≤ c ∧ c ≤ 127 := by
    intro c hc
    obtain ⟨d, -, rfl⟩ := List.mem_map.mp hc
    exact visible_range d
  have hmarks : ∀ c ∈ '.'.toUInt8 :: marks, 32 ≤ c ∧ c ≤ 127 := by
    have hall : ('.'.toUInt8 :: marks).all (fun c => 32 ≤ c ∧ c ≤ 127) := by decide
    exact fun c hc => of_decide_eq_true (List.all_eq_true.mp hall c hc)
  refine ⟨fun fuel found h => ?_, fun ⟨fuel, found, h⟩ => ?_, fun h => ?_⟩
  · obtain ⟨hfree, rfl | ⟨mark, hmark, rfl⟩⟩ := checkPlayerName_some h
    · exact ⟨hfree, Nat.le_trans (requestedName_length buf) (by decide), hvisible⟩
    · refine ⟨hfree, ?_, fun c hc => ?_⟩
      · rw [List.length_append]
        exact Nat.add_le_add_right (requestedName_length buf) 2
      · rcases List.mem_append.mp hc with hc | hc
        · exact hvisible c hc
        · refine hmarks c ?_
          rcases List.mem_cons.mp hc with rfl | hc
          · exact List.mem_cons_self
          · exact List.mem_cons_of_mem _ (List.mem_singleton.mp hc ▸ hmark)
  · obtain ⟨hfree, rfl | ⟨mark, hmark, rfl⟩⟩ := checkPlayerName_some h
    · exact .inl hfree
    · exact .inr ⟨mark, hmark, hfree⟩
  · rcases h with hfree | ⟨mark, hmark, hfree⟩
    · exact ⟨1, _, checkPlayerName_free hfree⟩
    · obtain ⟨index, heq⟩ := exists_numbered (requestedName buf) hmark
      refine checkPlayerName_ends index.toNat ?_
      rwa [UInt32.ofNat_toNat, UInt32.zero_add, heq]

end TNL.PlayerNames
