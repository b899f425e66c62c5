import Mathlib.Tactic.Common
import Mathlib.Data.Nat.Find
import Mathlib.Data.Nat.ModEq
import Mathlib.Data.Finset.Card

/-!
# Flat hash tables with linear probing

An entry is stored in the first free slot at or after its home slot, going
around at the end of the table. Unrolled, the table is a periodic sequence of
cells, and an entry is found when every cell from its home up to it is taken.
Removing an entry leaves a hole; taking out and storing again all entries from
the hole up to the next free slot closes it.
-/
namespace TNL.Library

/-- Only the slots below the size are used. -/
structure ProbeTable (β : Type*) where
  size : ℕ
  slot : ℕ → Option β

namespace ProbeTable
variable {β : Type*}

def empty (size : ℕ) : ProbeTable β := ⟨size, fun _ => none⟩

def put (t : ProbeTable β) (i : ℕ) (v : Option β) : ProbeTable β :=
  { t with slot := Function.update t.slot i v }

/-- The slot after this one. -/
def next (t : ProbeTable β) (i : ℕ) : ℕ := if i + 1 ≥ t.size then 0 else i + 1

/-- The first slot from `i` on whose contents are what the walk looks for. -/
def walk (t : ProbeTable β) (stop : Option β → Bool) : ℕ → ℕ → Option ℕ
  | 0, _ => none
  | fuel + 1, i => if stop (t.slot i) then some i else t.walk stop fuel (t.next i)

/-- Store an entry in the first free slot from its home on; `none` when there is none. -/
def store (t : ProbeTable β) (home : β → ℕ) (x : β) : Option (ProbeTable β) :=
  (t.walk Option.isNone t.size (home x % t.size)).map (fun i => t.put i (some x))

/-- Take out the entries behind slot `i` and store each again, up to the next free slot. -/
def rehash (home : β → ℕ) : ℕ → ℕ → ProbeTable β → Option (ProbeTable β)
  | 0, _, _ => none
  | fuel + 1, i, t =>
    match t.slot (t.next i) with
    | none => some t
    | some x => ((t.put (t.next i) none).store home x).bind (rehash home fuel (t.next i))

/-- The table unrolled. -/
def cell (t : ProbeTable β) (k : ℕ) : Option β := t.slot (k % t.size)

def Holds (t : ProbeTable β) (x : β) : Prop := ∃ q, t.cell q = some x

/-- Each entry is stored once, and every cell from its home up to it is taken. -/
structure Hashed (home : β → ℕ) (t : ProbeTable β) : Prop where
  size_pos : 0 < t.size
  single : ∀ p q x, t.cell p = some x → t.cell q = some x → p % t.size = q % t.size
  path : ∀ q x, t.cell q = some x → ∃ b q', q' % t.size = q % t.size ∧ b ≤ q' ∧
    b % t.size = home x % t.size ∧ ∀ j, b ≤ j → j < q' → t.cell j ≠ none

variable {t : ProbeTable β} {home : β → ℕ} {stop : Option β → Bool} {x y : β} {i : ℕ}

@[simp] theorem put_size (i : ℕ) (v : Option β) : (t.put i v).size = t.size := rfl

theorem cell_of_mod_eq {p q : ℕ} (h : p % t.size = q % t.size) : t.cell p = t.cell q := by
  rw [cell, cell, h]

@[simp] theorem cell_mod (q : ℕ) : t.cell (q % t.size) = t.cell q := by
  simp [cell]

theorem cell_eq_slot (hi : i < t.size) : t.cell i = t.slot i := by
  rw [cell, Nat.mod_eq_of_lt hi]

theorem cell_put (i : ℕ) (v : Option β) (q : ℕ) :
    (t.put (i % t.size) v).cell q = if q % t.size = i % t.size then v else t.cell q := by
  simp [cell, put, Function.update_apply]

theorem cell_put_of_ne {q : ℕ} {v : Option β} (h : q % t.size ≠ i % t.size) :
    (t.put (i % t.size) v).cell q = t.cell q := by
  rw [cell_put, if_neg h]

/-- Positions less than one round apart are in different slots. -/
theorem mod_ne_of_window {s e p q : ℕ} (hep : e < p) (hpq : p < q) (hq : q ≤ e + s) :
    p % s ≠ q % s := by
  intro h
  have hle : s ≤ q - p := Nat.le_of_dvd (by omega) ((Nat.modEq_iff_dvd' hpq.le).mp h)
  omega

theorem next_eq (hi : i < t.size) : t.next i = (i + 1) % t.size := by
  by_cases h : i + 1 ≥ t.size
  · have : i + 1 = t.size := by omega
    simp [next, this]
  · simp only [next, if_neg h]
    exact (Nat.mod_eq_of_lt (by omega)).symm

theorem next_lt (hi : i < t.size) : t.next i < t.size := by
  rw [next_eq hi]
  exact Nat.mod_lt _ (by omega)

/-- The walk ends at the first cell with the contents looked for. -/
theorem walk_eq {n fuel : ℕ} (hi : i < t.size) (found : stop (t.cell (i + n)) = true)
    (before : ∀ j < n, stop (t.cell (i + j)) = false) (enough : n < fuel) :
    t.walk stop fuel i = some ((i + n) % t.size) := by
  induction n generalizing i fuel with
  | zero =>
    obtain ⟨fuel, rfl⟩ := Nat.exists_eq_add_of_lt enough
    rw [Nat.add_zero, cell_eq_slot hi] at found
    simp [walk, found, Nat.mod_eq_of_lt hi]
  | succ n ih =>
    obtain ⟨fuel, rfl⟩ : ∃ f, fuel = f + 1 := ⟨fuel - 1, by omega⟩
    have here : stop (t.slot i) = false := by
      have := before 0 (by omega)
      rwa [Nat.add_zero, cell_eq_slot hi] at this
    have shift : ∀ j, t.cell (t.next i + j) = t.cell (i + (j + 1)) := by
      intro j
      apply cell_of_mod_eq
      rw [next_eq hi, Nat.mod_add_mod]
      congr 1
      omega
    have rest := ih (next_lt hi) (by rw [shift]; exact found)
      (fun j hj => by rw [shift]; exact before (j + 1) (by omega)) (Nat.lt_of_succ_lt_succ enough)
    rw [walk, here, if_neg (by decide), rest, next_eq hi, Nat.mod_add_mod]
    congr 2
    omega

/-- A walk all around that finds nothing. -/
theorem walk_eq_none (fuel : ℕ) (hi : i < t.size) (never : ∀ q, stop (t.cell q) = false) :
    t.walk stop fuel i = none := by
  induction fuel generalizing i with
  | zero => rfl
  | succ fuel ih =>
    have here : stop (t.slot i) = false := by
      rw [← cell_eq_slot hi]
      exact never i
    rw [walk, here, if_neg (by decide)]
    exact ih (next_lt hi)

/-- One round is enough: some first cell stops the walk if any cell does. -/
theorem exists_first (stop : Option β → Bool) (hi : i < t.size) {q : ℕ}
    (hq : stop (t.cell q) = true) :
    ∃ n < t.size, stop (t.cell (i + n)) = true ∧ ∀ j < n, stop (t.cell (i + j)) = false := by
  classical
  have hex : ∃ n, stop (t.cell (i + n)) = true ∧ n < t.size := by
    refine ⟨(q + (t.size - i)) % t.size, ?_, Nat.mod_lt _ (by omega)⟩
    have same : (i + (q + (t.size - i)) % t.size) % t.size = q % t.size := by
      rw [Nat.add_mod_mod, show i + (q + (t.size - i)) = q + t.size by omega, Nat.add_mod_right]
    rw [cell_of_mod_eq same]
    exact hq
  refine ⟨Nat.find hex, (Nat.find_spec hex).2, (Nat.find_spec hex).1, fun j hj => ?_⟩
  have earlier := Nat.find_min hex hj
  have lt : j < t.size := hj.trans (Nat.find_spec hex).2
  simpa [lt] using earlier

/-- Storing takes the first free cell on the way from the home to a given free cell. -/
theorem store_eq (hs : 0 < t.size) {b m : ℕ} (hb : b % t.size = home x % t.size)
    (free : t.cell (b + m) = none) :
    ∃ n ≤ m, t.store home x = some (t.put ((b + n) % t.size) (some x)) ∧
      t.cell (b + n) = none ∧ ∀ j < n, t.cell (b + j) ≠ none := by
  have along : ∀ j, t.cell (home x % t.size + j) = t.cell (b + j) := by
    intro j
    apply cell_of_mod_eq
    rw [← hb, Nat.mod_add_mod]
  obtain ⟨n, hn, found, before⟩ := exists_first Option.isNone (q := b + m)
    (Nat.mod_lt (home x) hs) (by simp [free])
  refine ⟨n, ?_, ?_, ?_, fun j hj hnone => ?_⟩
  · by_contra hmn
    have := before m (by omega)
    rw [along, free] at this
    cases this
  · rw [store, walk_eq (Nat.mod_lt _ hs) found before hn, ← hb, Nat.mod_add_mod]
    rfl
  · rw [along] at found
    simpa using found
  · have := before j hj
    rw [along, hnone] at this
    cases this

theorem store_size {t' : ProbeTable β} (h : t.store home x = some t') : t'.size = t.size := by
  obtain ⟨i, -, rfl⟩ := Option.map_eq_some_iff.mp h
  rfl

theorem rehash_size {fuel : ℕ} {t' : ProbeTable β} (h : rehash home fuel i t = some t') :
    t'.size = t.size := by
  induction fuel generalizing t i with
  | zero => cases h
  | succ fuel ih =>
    rw [rehash] at h
    cases hslot : t.slot (t.next i) with
    | none =>
      rw [hslot] at h
      cases h
      rfl
    | some x =>
      rw [hslot] at h
      obtain ⟨u, stored, rest⟩ := Option.bind_eq_some_iff.mp h
      rw [ih rest, store_size stored, put_size]

theorem holds_iff (hs : 0 < t.size) : t.Holds x ↔ ∃ i < t.size, t.slot i = some x := by
  constructor
  · rintro ⟨q, hq⟩
    exact ⟨q % t.size, Nat.mod_lt _ hs, hq⟩
  · rintro ⟨i, hi, h⟩
    exact ⟨i, by rw [cell_eq_slot hi]; exact h⟩

theorem hashed_empty {s : ℕ} (hs : 0 < s) : Hashed home (empty s : ProbeTable β) where
  size_pos := hs
  single := by simp [cell, empty]
  path := by simp [cell, empty]

theorem not_holds_empty (s : ℕ) : ¬ (empty s : ProbeTable β).Holds x := by
  simp [Holds, cell, empty]

namespace Hashed

/-- The path of an entry, seen from the entry. A free cell is not on it. -/
theorem path_above (h : Hashed home t) {e q : ℕ} (free : t.cell e = none) (hq : t.cell q = some x)
    (he : e < q) : ∃ b, e < b ∧ b ≤ q ∧ b % t.size = home x % t.size ∧
      ∀ j, b ≤ j → j < q → t.cell j ≠ none := by
  obtain ⟨b, q', same, hb, start, taken⟩ := h.path q x hq
  -- the path moved so that it ends at `q`
  have moved : ∀ d ≤ q' - b, d ≤ q → (q - d) % t.size = (q' - d) % t.size := by
    intro d hd hdq
    refine Nat.ModEq.add_right_cancel' d ?_
    show (q - d + d) % t.size = (q' - d + d) % t.size
    rw [Nat.sub_add_cancel hdq, Nat.sub_add_cancel (by omega), same]
  have short : q' - b < q - e := by
    by_contra long
    have hcell := taken (q' - (q - e)) (by omega) (by omega)
    rw [← cell_of_mod_eq (moved (q - e) (by omega) (by omega)),
      show q - (q - e) = e by omega] at hcell
    exact hcell free
  refine ⟨q - (q' - b), by omega, by omega, ?_, fun j hbj hjq => ?_⟩
  · rw [moved _ le_rfl (by omega), show q' - (q' - b) = b by omega, start]
  · have hcell := taken (q' - (q - j)) (by omega) (by omega)
    rwa [← cell_of_mod_eq (moved (q - j) (by omega) (by omega)),
      show q - (q - j) = j by omega] at hcell

/-- Storing a new entry where a slot is free. -/
theorem store (h : Hashed home t) (new : ¬ t.Holds x) {e : ℕ} (free : t.cell e = none) :
    ∃ t', t.store home x = some t' ∧ t'.size = t.size ∧ Hashed home t' ∧
      ∀ y, t'.Holds y ↔ y = x ∨ t.Holds y := by
  let a := home x % t.size
  have ha : a < t.size := Nat.mod_lt _ h.size_pos
  have reach : t.cell (a + (t.size - a + e)) = none := by
    rw [← free]
    apply cell_of_mod_eq
    rw [show a + (t.size - a + e) = t.size + e by omega, Nat.add_mod_left]
  obtain ⟨n, -, stored, hfree, before⟩ := store_eq h.size_pos (Nat.mod_mod _ _) reach
  let t' := t.put ((a + n) % t.size) (some x)
  have hcell : ∀ q, t'.cell q = if q % t.size = (a + n) % t.size then some x else t.cell q :=
    fun q => cell_put ..
  have kept : ∀ q, t.cell q ≠ none → t'.cell q = t.cell q := by
    intro q hq
    rw [hcell, if_neg]
    intro same
    exact hq ((cell_of_mod_eq same).trans hfree)
  refine ⟨t', stored, rfl, ⟨h.size_pos, ?_, ?_⟩, ?_⟩
  · intro p q y hp hq
    rw [hcell] at hp hq
    split_ifs at hp hq with hpa hqa hqa
    · exact hpa.trans hqa.symm
    · cases hp
      exact absurd ⟨q, hq⟩ new
    · cases hq
      exact absurd ⟨p, hp⟩ new
    · exact h.single p q y hp hq
  · intro q y hq
    rw [hcell] at hq
    split_ifs at hq with hqa
    · cases hq
      refine ⟨a, a + n, hqa.symm, by omega, Nat.mod_mod _ _, fun j hbj hjq => ?_⟩
      have taken : t.cell j ≠ none := by
        have := before (j - a) (by omega)
        rwa [Nat.add_sub_of_le hbj] at this
      rwa [kept j taken]
    · obtain ⟨b, q', same, hb, start, taken⟩ := h.path q y hq
      refine ⟨b, q', same, hb, start, fun j hbj hjq => ?_⟩
      rw [kept j (taken j hbj hjq)]
      exact taken j hbj hjq
  · intro y
    constructor
    · rintro ⟨q, hq⟩
      rw [hcell] at hq
      split_ifs at hq with hqa
      · cases hq
        exact .inl rfl
      · exact .inr ⟨q, hq⟩
    · rintro (rfl | ⟨q, hq⟩)
      · exact ⟨a + n, by rw [hcell, if_pos rfl]⟩
      · exact ⟨q, by rw [kept q (by simp [hq]), hq]⟩

/-- A search for an entry with a given property that only entries of the given home can have. -/
theorem walk_find (h : Hashed home t) {P : β → Bool} {k e : ℕ} (free : t.cell e = none)
    (homed : ∀ y, P y = true → home y = k) :
    ∃ j, t.walk (fun v => v.all P) t.size (k % t.size) = some j ∧
      ((∃ y, t.slot j = some y ∧ P y = true ∧ t.Holds y) ∨
        (t.slot j = none ∧ ∀ y, P y = true → ¬ t.Holds y)) := by
  have hi : k % t.size < t.size := Nat.mod_lt _ h.size_pos
  obtain ⟨n, hn, found, before⟩ :=
    exists_first (fun v => v.all P) hi (q := e) (by simp [free])
  refine ⟨_, walk_eq hi found before hn, ?_⟩
  change (∃ y, t.cell (k % t.size + n) = some y ∧ _ ∧ _) ∨ (t.cell (k % t.size + n) = none ∧ _)
  cases hcell : t.cell (k % t.size + n) with
  | some y =>
    rw [hcell] at found
    exact .inl ⟨y, rfl, by simpa using found, _, hcell⟩
  | none =>
    refine .inr ⟨rfl, ?_⟩
    rintro y hy ⟨q, hq⟩
    obtain ⟨b, q', same, hb, start, taken⟩ := h.path q y hq
    -- the path of `y` starts where the walk does
    have along : ∀ j, t.cell (k % t.size + j) = t.cell (b + j) := by
      intro j
      apply cell_of_mod_eq
      rw [Nat.mod_add_mod, ← homed y hy, ← Nat.mod_add_mod b, start, Nat.mod_add_mod]
    have last : t.cell (k % t.size + (q' - b)) = some y := by
      rw [along, Nat.add_sub_of_le hb, cell_of_mod_eq same, hq]
    rcases Nat.lt_trichotomy n (q' - b) with hlt | rfl | hgt
    · refine taken (b + n) (by omega) (by omega) ?_
      rw [← along, hcell]
    · rw [hcell] at last
      cases last
    · have := before (q' - b) hgt
      rw [last] at this
      simp [hy] at this

end Hashed

/-- Between the free cells `e` and `stop`, the entries of `t` from `next` on still lie where they
lay in `t₀`, and all others are found from their homes; `t` holds what `t₀` holds but for `c`. -/
structure RehashStage (home : β → ℕ) (t₀ : ProbeTable β) (c : β) (e stop next : ℕ)
    (t : ProbeTable β) : Prop where
  size_eq : t.size = t₀.size
  untouched : ∀ j, next ≤ j → j ≤ stop → t.cell j = t₀.cell j
  single : ∀ p q x, t.cell p = some x → t.cell q = some x → p % t.size = q % t.size
  path : ∀ q x, e < q → q < next → t.cell q = some x → ∃ b, e < b ∧ b ≤ q ∧
    b % t.size = home x % t.size ∧ ∀ j, b ≤ j → j < q → t.cell j ≠ none
  holds : ∀ x, t.Holds x ↔ x ≠ c ∧ t₀.Holds x

namespace RehashStage
variable {t₀ : ProbeTable β} {c : β} {e stop next : ℕ}

/-- After the entry in cell `p` is taken out. -/
theorem start (stop : ℕ) (h : Hashed home t₀) (free : t₀.cell e = none) {p : ℕ}
    (hp : t₀.cell p = some c) (hep : e < p) (hps : p < stop) (hstop : stop ≤ e + t₀.size) :
    RehashStage home t₀ c e stop (p + 1) (t₀.put (p % t₀.size) none) := by
  have hcell : ∀ q, (t₀.put (p % t₀.size) none).cell q =
      if q % t₀.size = p % t₀.size then none else t₀.cell q := fun q => cell_put p none q
  have earlier : ∀ q x, (t₀.put (p % t₀.size) none).cell q = some x →
      q % t₀.size ≠ p % t₀.size ∧ t₀.cell q = some x := by
    intro q x hq
    rw [hcell] at hq
    split_ifs at hq with hqp
    exact ⟨hqp, hq⟩
  refine ⟨rfl, ?_, ?_, ?_, ?_⟩
  · intro j hj hjs
    exact cell_put_of_ne (mod_ne_of_window hep (by omega) (by omega)).symm
  · intro a b x ha hb
    exact h.single a b x (earlier a x ha).2 (earlier b x hb).2
  · intro q x heq hqp hq
    obtain ⟨b, heb, hbq, home_eq, taken⟩ := h.path_above free (earlier q x hq).2 heq
    refine ⟨b, heb, hbq, home_eq, fun j hbj hjq => ?_⟩
    rw [hcell, if_neg (mod_ne_of_window (show e < j by omega) (show j < p by omega) (by omega))]
    exact taken j hbj hjq
  · intro x
    constructor
    · rintro ⟨q, hq⟩
      refine ⟨?_, q, (earlier q x hq).2⟩
      rintro rfl
      exact (earlier q x hq).1 (h.single q p x (earlier q x hq).2 hp)
    · rintro ⟨hne, q, hq⟩
      refine ⟨q, ?_⟩
      rw [hcell, if_neg, hq]
      intro same
      have := (cell_of_mod_eq same).symm.trans hq
      rw [hp] at this
      exact hne (Option.some.inj this).symm

/-- The entry of the next cell is taken out and stored again. -/
theorem step (h : Hashed home t₀) (free : t₀.cell e = none)
    (st : RehashStage home t₀ c e stop next t) (hen : e < next) (hns : next < stop)
    (hstop : stop ≤ e + t₀.size) (hx : t.cell next = some x) :
    ∃ t', (t.put (next % t.size) none).store home x = some t' ∧
      RehashStage home t₀ c e stop (next + 1) t' := by
  let u := t.put (next % t.size) none
  have hstop' : stop ≤ e + t.size := by rw [st.size_eq]; exact hstop
  have hpos : 0 < t.size := by rw [st.size_eq]; exact h.size_pos
  have ucell : ∀ q, u.cell q = if q % t.size = next % t.size then none else t.cell q :=
    fun q => cell_put next none q
  obtain ⟨b, heb, hbn, hb, -⟩ :=
    h.path_above free (by rw [← st.untouched next le_rfl hns.le]; exact hx) hen
  rw [← st.size_eq] at hb
  obtain ⟨n, hn, stored, rfree, before⟩ := store_eq (t := u) (b := b)
    (m := next - b) hpos hb (by rw [ucell, Nat.add_sub_of_le hbn, if_pos rfl])
  let r := b + n
  have hr : r ≤ next := by omega
  let t' := u.put (r % u.size) (some x)
  have hcell : ∀ q, t'.cell q = if q % t.size = r % t.size then some x else u.cell q :=
    fun q => cell_put (t := u) r (some x) q
  -- the entry is now in cell `r` and nowhere else
  have other : ∀ q y, t'.cell q = some y → q % t.size ≠ r % t.size →
      q % t.size ≠ next % t.size ∧ t.cell q = some y := by
    intro q y hq hqr
    rw [hcell, if_neg hqr, ucell] at hq
    split_ifs at hq with hqn
    exact ⟨hqn, hq⟩
  have only : ∀ q, t'.cell q = some x → q % t.size = r % t.size := by
    intro q hq
    by_contra hqr
    obtain ⟨hqn, hq⟩ := other q x hq hqr
    exact hqn (st.single q next x hq hx)
  have kept : ∀ q, u.cell q ≠ none → t'.cell q ≠ none := by
    intro q hq
    rw [hcell]
    split_ifs
    · simp
    · exact hq
  refine ⟨t', stored, st.size_eq, ?_, ?_, ?_, ?_⟩
  · intro j hj hjs
    rw [hcell, if_neg (mod_ne_of_window (show e < r by omega) (by omega) (by omega)).symm, ucell,
      if_neg (mod_ne_of_window hen (by omega) (by omega)).symm]
    exact st.untouched j (by omega) hjs
  · intro p q y hp hq
    change p % t.size = q % t.size
    by_cases hpr : p % t.size = r % t.size
    · rw [hcell, if_pos hpr] at hp
      cases hp
      exact hpr.trans (only q hq).symm
    · by_cases hqr : q % t.size = r % t.size
      · rw [hcell, if_pos hqr] at hq
        cases hq
        exact (only p hp).trans hqr.symm
      · exact st.single p q y (other p y hp hpr).2 (other q y hq hqr).2
  · intro q y heq hqn hq
    by_cases hqr : q % t.size = r % t.size
    · have hqr' : q = r := by
        rcases Nat.lt_trichotomy q r with hlt | heq' | hgt
        · exact absurd hqr (mod_ne_of_window heq hlt (by omega))
        · exact heq'
        · exact absurd hqr.symm (mod_ne_of_window (show e < r by omega) hgt (by omega))
      rw [hcell, if_pos hqr] at hq
      cases hq
      refine ⟨b, heb, by omega, hb, fun j hbj hjq => kept j ?_⟩
      have := before (j - b) (by omega)
      rwa [Nat.add_sub_of_le hbj] at this
    · obtain ⟨hqne, hq⟩ := other q y hq hqr
      have hlt : q < next := by
        rcases Nat.lt_or_ge q next with hlt | hge
        · exact hlt
        · exact absurd (congrArg (· % t.size) (show q = next by omega)) hqne
      obtain ⟨b', heb', hbq', hb', taken⟩ := st.path q y heq hlt hq
      refine ⟨b', heb', hbq', hb', fun j hbj hjq => kept j ?_⟩
      rw [ucell, if_neg (mod_ne_of_window (show e < j by omega) (by omega) (by omega))]
      exact taken j hbj hjq
  · intro y
    rw [← st.holds y]
    constructor
    · rintro ⟨q, hq⟩
      by_cases hqr : q % t.size = r % t.size
      · rw [hcell, if_pos hqr] at hq
        cases hq
        exact ⟨next, hx⟩
      · exact ⟨q, (other q y hq hqr).2⟩
    · rintro ⟨q, hq⟩
      by_cases hqn : q % t.size = next % t.size
      · rw [cell_of_mod_eq hqn, hx] at hq
        cases hq
        exact ⟨r, by rw [hcell, if_pos rfl]⟩
      · have huq : u.cell q = some y := by rw [ucell, if_neg hqn, hq]
        refine ⟨q, ?_⟩
        rw [hcell, if_neg, huq]
        intro hqr
        have := (cell_of_mod_eq (t := u) hqr).symm.trans huq
        rw [rfree] at this
        cases this

/-- At the free cell where the cluster ended, every entry is found from its home again. -/
theorem hashed (st : RehashStage home t₀ c e (e + t₀.size) (e + t₀.size) t) (hs : 0 < t₀.size)
    (free : t₀.cell e = none) : Hashed home t where
  size_pos := by rw [st.size_eq]; exact hs
  single := st.single
  path := by
    intro q x hq
    let d := (q + (t.size - e % t.size)) % t.size
    have hpos : 0 < t.size := by rw [st.size_eq]; exact hs
    have hd : d < t.size := Nat.mod_lt _ hpos
    have same : (e + d) % t.size = q % t.size := by
      have he : e % t.size ≤ t.size := (Nat.mod_lt e hpos).le
      rw [Nat.add_mod_mod, ← Nat.mod_add_mod e,
        show e % t.size + (q + (t.size - e % t.size)) = q + t.size by omega, Nat.add_mod_right]
    have hed : e < e + d := by
      by_contra hzero
      have hcell : t.cell (e + d) = t₀.cell (e + t₀.size) := by
        rw [show e + d = e by omega, ← st.untouched _ le_rfl le_rfl]
        apply cell_of_mod_eq
        rw [← st.size_eq, Nat.add_mod_right]
      have free' : t₀.cell (e + t₀.size) = none := by
        rw [← free]
        exact cell_of_mod_eq (Nat.add_mod_right ..)
      rw [free', cell_of_mod_eq same, hq] at hcell
      cases hcell
    obtain ⟨b, -, hb, home_eq, taken⟩ := st.path (e + d) x hed (by rw [← st.size_eq]; omega)
      (by rw [cell_of_mod_eq same, hq])
    exact ⟨b, e + d, same, hb, home_eq, taken⟩

/-- The loop runs to the next free cell. -/
theorem run (h : Hashed home t₀) (free : t₀.cell e = none) {k : ℕ}
    (taken : ∀ j, next ≤ j → j < e + t₀.size → t₀.cell j ≠ none)
    (st : RehashStage home t₀ c e (e + t₀.size) next t) (hen : e < next)
    (hk : next + k = e + t₀.size) (fuel : ℕ) {i : ℕ} (hi : i < t.size)
    (hnext : t.next i = next % t.size) (enough : k < fuel) :
    ∃ t', rehash home fuel i t = some t' ∧
      RehashStage home t₀ c e (e + t₀.size) (e + t₀.size) t' := by
  induction k generalizing t next fuel i with
  | zero =>
    obtain ⟨fuel, rfl⟩ : ∃ f, fuel = f + 1 := ⟨fuel - 1, by omega⟩
    obtain rfl : next = e + t₀.size := by omega
    have hcell : t.slot (t.next i) = none := by
      rw [hnext]
      change t.cell _ = none
      rw [st.untouched _ le_rfl le_rfl, ← free]
      exact cell_of_mod_eq (Nat.add_mod_right ..)
    exact ⟨t, by rw [rehash, hcell], st⟩
  | succ k ih =>
    obtain ⟨fuel, rfl⟩ : ∃ f, fuel = f + 1 := ⟨fuel - 1, by omega⟩
    have hcell : t.cell next ≠ none := by
      rw [st.untouched next le_rfl (by omega)]
      exact taken next le_rfl (by omega)
    obtain ⟨x, hx⟩ := Option.ne_none_iff_exists'.mp hcell
    obtain ⟨t', stored, st'⟩ := st.step h free hen (by omega) le_rfl hx
    have hnext' : t'.next (t.next i) = (next + 1) % t'.size := by
      have hsize : t'.size = t.size := st'.size_eq.trans st.size_eq.symm
      rw [next_eq (by rw [hsize]; exact next_lt hi), hnext, hsize, Nat.mod_add_mod]
    obtain ⟨t'', hrun, st''⟩ := ih (fun j hj => taken j (by omega)) st' (by omega) (by omega) fuel
      (by rw [st'.size_eq, ← st.size_eq]; exact next_lt hi) hnext' (Nat.lt_of_succ_lt_succ enough)
    refine ⟨t'', ?_, st''⟩
    have hslot : t.slot (t.next i) = some x := by rw [hnext]; exact hx
    rw [rehash, hslot]
    change ((t.put (t.next i) none).store home x).bind _ = _
    rw [hnext, stored]
    rw [hnext] at hrun
    exact hrun

end RehashStage

/-- Removing the entry of slot `i` from a table that still has a free slot. -/
theorem Hashed.erase (h : Hashed home t) {c : β} (hi : i < t.size) (hc : t.slot i = some c) {f : ℕ}
    (free : t.cell f = none) :
    ∃ t', rehash home t.size i (t.put i none) = some t' ∧ t'.size = t.size ∧ Hashed home t' ∧
      ∀ x, t'.Holds x ↔ x ≠ c ∧ t.Holds x := by
  have hcell : t.cell i = some c := by rw [cell_eq_slot hi, hc]
  -- the free cell after the removed entry, `n + 1` places on
  obtain ⟨n, hn, found, before⟩ :=
    exists_first Option.isNone (next_lt hi) (q := f) (by simp [free])
  have along : ∀ j, t.cell (t.next i + j) = t.cell (i + 1 + j) := by
    intro j
    apply cell_of_mod_eq
    rw [next_eq hi, Nat.mod_add_mod]
  have hfree : t.cell (i + 1 + n) = none := by
    rw [along] at found
    simpa using found
  have hlast : n + 1 < t.size := by
    rcases Nat.lt_or_ge (n + 1) t.size with hlt | hge
    · exact hlt
    · rw [show i + 1 + n = i + t.size by omega,
        cell_of_mod_eq (Nat.add_mod_right i t.size), hcell] at hfree
      cases hfree
  have hp : t.cell (i + t.size) = some c := by
    rw [← hcell]
    exact cell_of_mod_eq (Nat.add_mod_right ..)
  have st := RehashStage.start (i + 1 + n + t.size) h hfree hp (by omega) (by omega) le_rfl
  rw [Nat.add_mod_right, Nat.mod_eq_of_lt hi] at st
  have taken : ∀ j, i + t.size + 1 ≤ j → j < i + 1 + n + t.size → t.cell j ≠ none := by
    intro j hj hjn hnone
    have := before (j - (i + 1) - t.size) (by omega)
    rw [along, show i + 1 + (j - (i + 1) - t.size) = j - t.size by omega,
      cell_of_mod_eq (show (j - t.size) % t.size = j % t.size by
        rw [← Nat.mod_eq_sub_mod (by omega)]), hnone] at this
    cases this
  obtain ⟨t', hrun, st'⟩ := st.run (k := n) (i := i) h hfree taken (by omega)
    (by omega) t.size hi (by
      rw [next_eq (by exact hi), put_size, show i + t.size + 1 = i + 1 + t.size by omega,
        Nat.add_mod_right]) (by omega)
  exact ⟨t', hrun, st'.size_eq, st'.hashed h.size_pos hfree, st'.holds⟩

/-- A table with fewer entries than slots has a free slot. -/
theorem Hashed.exists_free [DecidableEq β] (h : Hashed home t) {l : List β}
    (listed : ∀ x, t.Holds x → x ∈ l) (hl : l.length < t.size) : ∃ e, t.cell e = none := by
  by_contra full
  push Not at full
  choose entry hentry using fun e => Option.ne_none_iff_exists'.mp (full e)
  have maps : ∀ e ∈ Finset.range t.size, entry e ∈ l.toFinset := fun e _ =>
    List.mem_toFinset.mpr (listed _ ⟨e, hentry e⟩)
  have fewer : l.toFinset.card < (Finset.range t.size).card := by
    rw [Finset.card_range]
    exact (List.toFinset_card_le l).trans_lt hl
  obtain ⟨p, hp, q, hq, hne, same⟩ := Finset.exists_ne_map_eq_of_card_lt_of_maps_to fewer maps
  have := h.single p q (entry p) (hentry p) (same ▸ hentry q)
  rw [Nat.mod_eq_of_lt (Finset.mem_range.mp hp), Nat.mod_eq_of_lt (Finset.mem_range.mp hq)] at this
  exact hne this

end ProbeTable

end TNL.Library
