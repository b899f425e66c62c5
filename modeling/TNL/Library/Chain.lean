import Mathlib.Data.List.Nodup
import Mathlib.Data.List.TakeWhile
import Mathlib.Tactic.Common

/-!
# Chains of links

A table whose places each have a link to another place or to none, and the
lists of places reached from a head. A search keeps the link it stands at, which
is the head or the link of a place, so that what it finds can be linked anew.
-/
namespace TNL.Library

/-- The places from `head` up to the link `stop`. -/
def Chain (next : ℕ → Option ℕ) : Option ℕ → List ℕ → Option ℕ → Prop
  | head, [], stop => head = stop
  | head, x :: l, stop => head = some x ∧ Chain next (next x) l stop

variable {next next' : ℕ → Option ℕ} {head stop : Option ℕ} {x : ℕ} {l l' : List ℕ}

namespace Chain

theorem append_iff : Chain next head (l ++ l') stop ↔
    ∃ middle, Chain next head l middle ∧ Chain next middle l' stop := by
  induction l generalizing head with
  | nil => simp [Chain]
  | cons x l ih => simp [Chain, ih, and_assoc]

/-- A chain only depends on the links of its own places. -/
theorem congr (h : Chain next head l stop) (hsame : ∀ x ∈ l, next' x = next x) :
    Chain next' head l stop := by
  induction l generalizing head with
  | nil => exact h
  | cons x l ih =>
    refine ⟨h.1, ?_⟩
    rw [hsame x List.mem_cons_self]
    exact ih h.2 fun y hy => hsame y (List.mem_cons_of_mem x hy)

theorem update (h : Chain next head l stop) (hx : x ∉ l) (value : Option ℕ) :
    Chain (Function.update next x value) head l stop := by
  apply h.congr
  intro y hy
  apply Function.update_of_ne
  rintro rfl
  exact hx hy

theorem head_eq (h : Chain next head l none) : head = l.head? := by
  cases l with
  | nil => exact h
  | cons x l => exact h.1

/-- The head determines the chain. -/
theorem unique (h : Chain next head l none) (h' : Chain next head l' none) : l = l' := by
  induction l generalizing head l' with
  | nil =>
    cases l' with
    | nil => rfl
    | cons y l' =>
      have hnone : head = none := h
      have hsome : head = some y := h'.1
      rw [hnone] at hsome
      cases hsome
  | cons x l ih =>
    cases l' with
    | nil =>
      have hnone : head = none := h'
      have hsome : head = some x := h.1
      rw [hnone] at hsome
      cases hsome
    | cons y l' =>
      obtain rfl : x = y := Option.some.inj (h.1.symm.trans h'.1)
      rw [ih h.2 h'.2]

theorem split (h : Chain next head (l ++ l') none) :
    Chain next head l l'.head? ∧ Chain next l'.head? l' none := by
  obtain ⟨middle, hl, hl'⟩ := append_iff.mp h
  rw [← hl'.head_eq]
  exact ⟨hl, hl'⟩

/-- A chain that ends has no cycle. -/
theorem nodup (h : Chain next head l none) : l.Nodup := by
  induction l generalizing head with
  | nil => exact List.nodup_nil
  | cons x l ih =>
    refine List.nodup_cons.mpr ⟨fun hx => ?_, ih h.2⟩
    obtain ⟨before, after, rfl⟩ := List.append_of_mem hx
    have hagain : Chain next (some x) (x :: after) none := (split h.2).2
    have hfirst : Chain next (some x) (x :: (before ++ x :: after)) none := ⟨rfl, h.2⟩
    have hlength := congrArg List.length (hfirst.unique hagain)
    simp only [List.length_cons, List.length_append] at hlength
    omega

/-- Places in a row, each linked to the one behind it. -/
theorem range' {low n : ℕ} (hnext : ∀ k < n, next (low + k) = some (low + k + 1))
    (hlast : next (low + n) = none) :
    Chain next (some low) (List.range' low (n + 1)) none := by
  induction n generalizing low with
  | zero => exact ⟨rfl, hlast⟩
  | succ n ih =>
    rw [List.range'_succ]
    have hfirst : next low = some (low + 1) := hnext 0 (Nat.succ_pos n)
    refine ⟨rfl, hfirst ▸ ih (fun k hk => ?_) ?_⟩
    · have hk' := hnext (k + 1) (by omega)
      rw [show low + 1 + k = low + (k + 1) by omega]
      exact hk'
    · rw [show low + 1 + n = low + (n + 1) by omega]
      exact hlast

end Chain

/-- A link: the head, or the link of a place. -/
inductive ChainLink where
  | head
  | next (x : ℕ)
  deriving DecidableEq

namespace ChainLink

def get (next : ℕ → Option ℕ) (head : Option ℕ) : ChainLink → Option ℕ
  | .head => head
  | .next x => next x

/-- The head and the links of the places after a link has been set. -/
def setHead (head : Option ℕ) : ChainLink → Option ℕ → Option ℕ
  | .head, value => value
  | .next _, _ => head

def setNext (next : ℕ → Option ℕ) : ChainLink → Option ℕ → ℕ → Option ℕ
  | .head, _ => next
  | .next x, value => Function.update next x value

/-- The link after a part of a chain. -/
def behind (l : List ℕ) : ChainLink :=
  match l.getLast? with
  | none => .head
  | some x => .next x

@[simp] theorem behind_nil : behind [] = .head := rfl

@[simp] theorem behind_concat (l : List ℕ) (x : ℕ) : behind (l ++ [x]) = .next x := by
  simp [behind]

theorem get_behind (h : Chain next head (l ++ l') none) :
    (behind l).get next head = l'.head? := by
  obtain ⟨hl, _⟩ := h.split
  rcases List.eq_nil_or_concat l with rfl | ⟨l, x, rfl⟩
  · exact hl
  · rw [List.concat_eq_append] at hl ⊢
    obtain ⟨_, _, _, hlast⟩ := Chain.append_iff.mp hl
    rw [behind_concat]
    exact hlast

theorem setNext_of_notMem (hx : x ∉ l) (value : Option ℕ) :
    (behind l).setNext next value x = next x := by
  rcases List.eq_nil_or_concat l with rfl | ⟨l, y, rfl⟩
  · rfl
  · rw [List.concat_eq_append] at hx ⊢
    rw [behind_concat]
    apply Function.update_of_ne
    rintro rfl
    exact hx (by simp)

/-- Setting the link after a part of a chain redirects that part. -/
theorem set_behind (h : Chain next head (l ++ l') none) (value : Option ℕ) :
    Chain ((behind l).setNext next value) ((behind l).setHead head value) l value := by
  have hnodup := (List.nodup_append.mp h.nodup).1
  obtain ⟨hl, _⟩ := h.split
  rcases List.eq_nil_or_concat l with rfl | ⟨l, x, rfl⟩
  · rfl
  · rw [List.concat_eq_append] at hl hnodup ⊢
    obtain ⟨middle, hbefore, hx, _⟩ := Chain.append_iff.mp hl
    have hnot : x ∉ l := by
      have hdisjoint := List.disjoint_of_nodup_append hnodup
      exact fun hmem => hdisjoint hmem (List.mem_singleton_self x)
    rw [behind_concat]
    refine Chain.append_iff.mpr ⟨middle, hbefore.update hnot value, hx, ?_⟩
    exact Function.update_self ..

/-- Taking the place behind a link out of the chain. -/
theorem unlink (h : Chain next head (l ++ x :: l') none) :
    Chain ((behind l).setNext next (next x)) ((behind l).setHead head (next x)) (l ++ l') none := by
  have hdisjoint := List.disjoint_of_nodup_append h.nodup
  obtain ⟨_, _, hrest⟩ := h.split
  refine Chain.append_iff.mpr ⟨next x, set_behind h (next x), hrest.congr fun y hy => ?_⟩
  exact setNext_of_notMem (fun hmem => hdisjoint hmem (List.mem_cons_of_mem x hy)) _

end ChainLink

/-- Walk from a link to the first one that leads nowhere or to a place to stop at. What cannot be
examined is a fault. -/
def seek (next : ℕ → Option ℕ) (head : Option ℕ) (examine : ℕ → Option Bool) :
    ℕ → ChainLink → Option ChainLink
  | 0, _ => none
  | fuel + 1, link =>
    match link.get next head with
    | none => some link
    | some x =>
      match examine x with
      | none => none
      | some true => some link
      | some false => seek next head examine fuel (.next x)

theorem seek_eq {examine : ℕ → Option Bool} {found : ℕ → Bool} {fuel : ℕ}
    (h : Chain next head (l ++ l') none) (hexamine : ∀ x ∈ l', examine x = some (found x))
    (hfuel : l'.length < fuel) : seek next head examine fuel (ChainLink.behind l) =
      some (ChainLink.behind (l ++ l'.takeWhile fun x => !found x)) := by
  induction l' generalizing l fuel with
  | nil =>
    obtain ⟨fuel, rfl⟩ := Nat.exists_eq_succ_of_ne_zero (by omega : fuel ≠ 0)
    have hget : (ChainLink.behind l).get next head = none := ChainLink.get_behind h
    simp [seek, hget]
  | cons x l' ih =>
    obtain ⟨fuel, rfl⟩ := Nat.exists_eq_succ_of_ne_zero (by omega : fuel ≠ 0)
    have hget : (ChainLink.behind l).get next head = some x := ChainLink.get_behind h
    have hx := hexamine x List.mem_cons_self
    cases hfound : found x with
    | true => simp [seek, hget, hx, hfound]
    | false =>
      have hrest : Chain next head ((l ++ [x]) ++ l') none := by simpa using h
      have hlength : l'.length < fuel := by simpa using hfuel
      have hseek := ih hrest (fun y hy => hexamine y (List.mem_cons_of_mem x hy)) hlength
      rw [ChainLink.behind_concat] at hseek
      simp [seek, hget, hx, hfound, hseek]

/-- The place at which a search ends is the first one found. -/
theorem get_seek {found : ℕ → Bool} (h : Chain next head l none) :
    (ChainLink.behind (l.takeWhile fun x => !found x)).get next head = l.find? found := by
  have hsplit : Chain next head
      (l.takeWhile (fun x => !found x) ++ l.dropWhile fun x => !found x) none := by
    rwa [List.takeWhile_append_dropWhile]
  rw [ChainLink.get_behind hsplit]
  clear h hsplit
  induction l with
  | nil => rfl
  | cons x l ih =>
    cases hfound : found x with
    | true => simp [hfound]
    | false => simpa [hfound] using ih

/-- The first place of a list found by a search that may fail. -/
def scan (examine : ℕ → Option Bool) : List ℕ → Option (Option ℕ)
  | [] => some none
  | x :: l =>
    match examine x with
    | none => none
    | some true => some (some x)
    | some false => scan examine l

theorem seek_scan {examine : ℕ → Option Bool} {fuel : ℕ} (h : Chain next head (l ++ l') none)
    (hfuel : l'.length < fuel) :
    (seek next head examine fuel (ChainLink.behind l)).map (ChainLink.get next head) = scan examine l' := by
  induction l' generalizing l fuel with
  | nil =>
    obtain ⟨fuel, rfl⟩ := Nat.exists_eq_succ_of_ne_zero (by omega : fuel ≠ 0)
    have hget : (ChainLink.behind l).get next head = none := ChainLink.get_behind h
    simp [seek, scan, hget]
  | cons x l' ih =>
    obtain ⟨fuel, rfl⟩ := Nat.exists_eq_succ_of_ne_zero (by omega : fuel ≠ 0)
    have hget : (ChainLink.behind l).get next head = some x := ChainLink.get_behind h
    cases hx : examine x with
    | none => simp [seek, scan, hget, hx]
    | some found =>
      cases found with
      | true => simp [seek, scan, hget, hx]
      | false =>
        have hrest : Chain next head ((l ++ [x]) ++ l') none := by simpa using h
        have hlength : l'.length < fuel := by simpa using hfuel
        have hseek := ih hrest hlength
        rw [ChainLink.behind_concat] at hseek
        simpa [seek, scan, hget, hx] using hseek

section scan
variable {examine : ℕ → Option Bool}

theorem scan_eq_some_some (h : scan examine l = some (some x)) : x ∈ l ∧ examine x = some true := by
  induction l with
  | nil => cases h
  | cons y l ih =>
    rw [scan] at h
    split at h
    · cases h
    · rename_i hy
      obtain rfl := Option.some.inj (Option.some.inj h)
      exact ⟨List.mem_cons_self, hy⟩
    · obtain ⟨hmem, hx⟩ := ih h
      exact ⟨List.mem_cons_of_mem y hmem, hx⟩

theorem scan_eq_some_none (h : scan examine l = some none) : ∀ x ∈ l, examine x = some false := by
  induction l with
  | nil => simp
  | cons y l ih =>
    rw [scan] at h
    split at h
    · cases h
    · cases h
    · rename_i hy
      intro x hx
      rcases List.mem_cons.mp hx with rfl | hx
      · exact hy
      · exact ih h x hx

/-- A search fails at the first place that cannot be examined, if nothing is found before it. -/
theorem scan_eq_none : scan examine l = none ↔
    ∃ before x after, l = before ++ x :: after ∧ (∀ y ∈ before, examine y = some false) ∧
      examine x = none := by
  induction l with
  | nil => simp [scan]
  | cons y l ih =>
    rw [scan]
    constructor
    · intro h
      split at h
      · rename_i hy
        exact ⟨[], y, l, rfl, by simp, hy⟩
      · cases h
      · rename_i hy
        obtain ⟨before, x, after, rfl, hbefore, hx⟩ := ih.mp h
        exact ⟨y :: before, x, after, rfl, List.forall_mem_cons.mpr ⟨hy, hbefore⟩, hx⟩
    · rintro ⟨before, x, after, heq, hbefore, hx⟩
      cases before with
      | nil =>
        obtain ⟨rfl, _⟩ := List.cons.inj heq
        rw [hx]
      | cons z before =>
        obtain ⟨rfl, rfl⟩ := List.cons.inj heq
        rw [hbefore y List.mem_cons_self]
        exact ih.mpr ⟨before, x, after, rfl, fun w hw => hbefore w (List.mem_cons_of_mem y hw), hx⟩

/-- A search that fails at some of the places it looks for depends on the first one only. -/
theorem scan_ne_none {found sound : ℕ → Bool} (h : ∀ x ∈ l, examine x =
    if found x then if sound x then some true else none else some false) :
    scan examine l ≠ none ↔ ∀ x, l.find? found = some x → sound x := by
  induction l with
  | nil => simp [scan]
  | cons y l ih =>
    obtain ⟨hy, hl⟩ := List.forall_mem_cons.mp h
    rw [scan, hy]
    cases hfound : found y with
    | true => cases hsound : sound y <;> simp [hfound, hsound]
    | false => simpa [hfound] using ih hl

end scan

end TNL.Library
