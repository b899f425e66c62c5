import TNL.Connection.Header
import TNL.Library.EraseFast
import TNL.Library.ProbeTable
import TNL.Library.Run

/-!
# The connection table of an interface

A `NetInterface` keeps its connections in a list and, by remote address, in a
flat hash table that grows when it is more than half full. Connections are
pointers with an address. A loop over the table that finds nothing in one round
never ends, which is `none` here.
-/
namespace TNL
open Library

structure Address where
  transport : BitVec 16
  port : BitVec 16
  netNum : Vector U32 4
  deriving DecidableEq

namespace Address

def hash (a : Address) : U32 :=
  a.netNum[0] ^^^ (a.port.setWidth 32 <<< 8) ^^^ (a.netNum[1] <<< 16) ^^^ (a.netNum[1] >>> 16) ^^^
    (a.netNum[2] <<< 5)

end Address

/-- The two containers of an interface's connections. -/
structure ConnectionTable (C : Type*) where
  mConnectionList : List C
  mConnectionHashTable : ProbeTable C

namespace ConnectionTable
variable {C : Type*} (getNetAddress : C → Address)

def initial : ConnectionTable C := ⟨[], .empty 129⟩

def hashOf (c : C) : ℕ := (getNetAddress c).hash.toNat

def findConnection (s : ConnectionTable C) (addr : Address) : Option (Option C) :=
  let table := s.mConnectionHashTable
  (table.walk (fun v => v.all (fun c => addr = getNetAddress c)) table.size
    (addr.hash.toNat % table.size)).map table.slot

section
variable [DecidableEq C]

def removeConnection (s : ConnectionTable C) (conn : C) : Option (ConnectionTable C) :=
  let list := if conn ∈ s.mConnectionList then
    eraseFast s.mConnectionList (s.mConnectionList.idxOf conn) else s.mConnectionList
  let table := s.mConnectionHashTable
  match table.walk (fun v => v = some conn) table.size
    (hashOf getNetAddress conn % table.size) with
  | none => some ⟨list, table⟩
  | some index =>
    (ProbeTable.rehash (hashOf getNetAddress) table.size index (table.put index none)).map
      (fun table => ⟨list, table⟩)

end

/-- Room for the connections in the list, and each of them stored in turn. -/
def regrow (list : List C) (size : ℕ) : Option (ProbeTable C) :=
  list.foldlM (fun table c => table.store (hashOf getNetAddress) c) (.empty size)

def addConnection (s : ConnectionTable C) (conn : C) : Option (ConnectionTable C) :=
  let list := s.mConnectionList ++ [conn]
  let numConnections := list.length
  let table := if numConnections > s.mConnectionHashTable.size / 2 then
    regrow getNetAddress list (numConnections * 4 - 1)
  else s.mConnectionHashTable.store (hashOf getNetAddress) conn
  table.map (fun table => ⟨list, table⟩)

section
variable [DecidableEq C]

inductive Action (C : Type*) where
  | add (conn : C)
  | remove (conn : C)

def step (s : ConnectionTable C) : Action C → Option (ConnectionTable C)
  | .add conn => s.addConnection getNetAddress conn
  | .remove conn => s.removeConnection getNetAddress conn

/-- The connections added and not removed since. -/
def present (as : List (Action C)) : List C :=
  as.foldl (fun cs a => match a with
    | .add conn => conn :: cs
    | .remove conn => cs.filter (· ≠ conn)) []

/-- No connection is added while one with its address is present. -/
def Distinct (as : List (Action C)) : Prop :=
  ∀ bs conn, bs ++ [.add conn] <+: as → ∀ c ∈ present bs, getNetAddress c ≠ getNetAddress conn

end

/-- The table holds the connections of the list, each once, and at least half of it is free. -/
structure Tabled (s : ConnectionTable C) : Prop where
  hashed : s.mConnectionHashTable.Hashed (hashOf getNetAddress)
  holds : ∀ c, s.mConnectionHashTable.Holds c ↔ c ∈ s.mConnectionList
  nodup : s.mConnectionList.Nodup
  load : s.mConnectionList.length ≤ s.mConnectionHashTable.size / 2

variable {getNetAddress} {s : ConnectionTable C} {conn c : C}

theorem tabled_initial : Tabled getNetAddress (initial : ConnectionTable C) where
  hashed := ProbeTable.hashed_empty (by decide)
  holds c := by simp [initial, ProbeTable.not_holds_empty]
  nodup := List.nodup_nil
  load := by simp [initial]

section
variable [DecidableEq C]

/-- Storing connections one after another while slots are free. -/
theorem foldlM_store {t : ProbeTable C} (h : t.Hashed (hashOf getNetAddress)) {l : List C}
    (old : List C) (holds : ∀ c, t.Holds c ↔ c ∈ old) (nodup : (old ++ l).Nodup)
    (room : (old ++ l).length ≤ t.size) :
    ∃ t', l.foldlM (fun t c => t.store (hashOf getNetAddress) c) t = some t' ∧ t'.size = t.size ∧
      t'.Hashed (hashOf getNetAddress) ∧ ∀ c, t'.Holds c ↔ c ∈ old ++ l := by
  induction l generalizing t old with
  | nil => exact ⟨t, rfl, rfl, h, by simpa using holds⟩
  | cons c l ih =>
    rw [List.append_cons] at nodup room
    have shorter : old.length < t.size := by
      simp only [List.length_append, List.length_singleton] at room
      omega
    obtain ⟨e, free⟩ := h.exists_free (fun c hc => (holds c).mp hc) shorter
    have new : ¬ t.Holds c := by
      rw [holds]
      have := (List.nodup_append.mp (List.nodup_append.mp nodup).1).2.2
      intro hc
      exact this c hc c List.mem_cons_self rfl
    obtain ⟨t₁, stored, size₁, h₁, holds₁⟩ := h.store new free
    obtain ⟨t₂, rest, size₂, h₂, holds₂⟩ := ih h₁ (old ++ [c])
      (fun d => by rw [holds₁, holds]; simp [or_comm]) nodup (by rw [size₁]; exact room)
    refine ⟨t₂, ?_, size₂.trans size₁, h₂, fun d => ?_⟩
    · rw [List.foldlM_cons, stored]
      exact rest
    · rw [holds₂]
      simp

end

namespace Tabled

variable [DecidableEq C]

theorem exists_free (h : Tabled getNetAddress s) : ∃ e, s.mConnectionHashTable.cell e = none := by
  have hpos := h.hashed.size_pos
  have hload := h.load
  exact h.hashed.exists_free (fun c hc => (h.holds c).mp hc) (by omega)

theorem add (h : Tabled getNetAddress s) (new : conn ∉ s.mConnectionList) :
    ∃ s', s.addConnection getNetAddress conn = some s' ∧
      s'.mConnectionList = s.mConnectionList ++ [conn] ∧ Tabled getNetAddress s' := by
  have nodup' : (s.mConnectionList ++ [conn]).Nodup := by
    refine List.nodup_append.mpr ⟨h.nodup, List.nodup_singleton _, fun c hc d hd => ?_⟩
    rintro rfl
    exact new (List.mem_singleton.mp hd ▸ hc)
  have hlength : (s.mConnectionList ++ [conn]).length = s.mConnectionList.length + 1 := by simp
  by_cases hgrow : (s.mConnectionList ++ [conn]).length > s.mConnectionHashTable.size / 2
  · obtain ⟨t, stored, hsize, hashed, holds⟩ := foldlM_store
      (t := .empty ((s.mConnectionList ++ [conn]).length * 4 - 1))
      (l := s.mConnectionList ++ [conn])
      (ProbeTable.hashed_empty (by omega)) [] (fun c => by simp [ProbeTable.not_holds_empty]) nodup'
      (by simp only [List.nil_append, ProbeTable.empty]; omega)
    refine ⟨⟨s.mConnectionList ++ [conn], t⟩, ?_, rfl, hashed, holds, nodup', ?_⟩
    · rw [addConnection, if_pos hgrow, regrow, stored]
      rfl
    · change (s.mConnectionList ++ [conn]).length ≤ t.size / 2
      rw [hsize]
      change _ ≤ ((s.mConnectionList ++ [conn]).length * 4 - 1) / 2
      omega
  · obtain ⟨e, free⟩ := h.exists_free
    have absent : ¬ s.mConnectionHashTable.Holds conn := by
      rw [h.holds]
      exact new
    obtain ⟨t, stored, hsize, hashed, holds⟩ := h.hashed.store absent free
    refine ⟨⟨s.mConnectionList ++ [conn], t⟩, ?_, rfl, hashed, fun c => ?_, nodup', ?_⟩
    · rw [addConnection, if_neg hgrow, stored]
      rfl
    · rw [holds, h.holds]
      simp [or_comm]
    · change (s.mConnectionList ++ [conn]).length ≤ t.size / 2
      rw [hsize]
      omega

theorem remove (h : Tabled getNetAddress s) (conn : C) :
    ∃ s', s.removeConnection getNetAddress conn = some s' ∧
      s'.mConnectionList.Perm (s.mConnectionList.erase conn) ∧ Tabled getNetAddress s' := by
  by_cases hconn : conn ∈ s.mConnectionList
  · have perm : (eraseFast s.mConnectionList (s.mConnectionList.idxOf conn)).Perm
        (s.mConnectionList.erase conn) := by
      rw [List.erase_eq_eraseIdx_of_idxOf rfl]
      exact eraseFast_perm (List.idxOf_lt_length_of_mem hconn)
    let t := s.mConnectionHashTable
    let stop : Option C → Bool := fun v => v = some conn
    have start : hashOf getNetAddress conn % t.size < t.size := Nat.mod_lt _ h.hashed.size_pos
    obtain ⟨q, hq⟩ := (h.holds conn).mpr hconn
    obtain ⟨n, hn, found, before⟩ := t.exists_first stop start (q := q) (decide_eq_true hq)
    obtain ⟨e, free⟩ := h.exists_free
    obtain ⟨t', rehashed, hsize, hashed, holds⟩ := h.hashed.erase
      (Nat.mod_lt (hashOf getNetAddress conn % t.size + n) h.hashed.size_pos)
      (of_decide_eq_true found) free
    refine ⟨⟨eraseFast s.mConnectionList (s.mConnectionList.idxOf conn), t'⟩, ?_, perm, hashed,
      fun c => ?_, perm.nodup_iff.mpr (h.nodup.erase conn), ?_⟩
    · have walked := ProbeTable.walk_eq start found before hn
      rw [removeConnection, if_pos hconn]
      simp only [stop, t] at walked rehashed
      simp only [walked, rehashed]
      rfl
    · rw [holds, h.holds, perm.mem_iff, h.nodup.mem_erase_iff]
    · change (eraseFast s.mConnectionList (s.mConnectionList.idxOf conn)).length ≤ t'.size / 2
      rw [hsize, perm.length_eq]
      exact (List.erase_sublist.length_le).trans h.load
  · have absent : ∀ q, s.mConnectionHashTable.cell q ≠ some conn := by
      intro q hq
      exact hconn ((h.holds conn).mp ⟨q, hq⟩)
    refine ⟨s, ?_, ?_, h⟩
    · rw [removeConnection, if_neg hconn]
      have around : s.mConnectionHashTable.walk (fun v => v = some conn) _ _ = none :=
        ProbeTable.walk_eq_none s.mConnectionHashTable.size
          (Nat.mod_lt (hashOf getNetAddress conn) h.hashed.size_pos)
          (fun q => decide_eq_false (absent q))
      simp only [around]
    · rw [List.erase_of_not_mem hconn]

/-- The search ends, at a connection with the address if there is one. -/
theorem find (h : Tabled getNetAddress s) (addr : Address) :
    ∃ r, s.findConnection getNetAddress addr = some r ∧
      (∀ c, r = some c → c ∈ s.mConnectionList ∧ getNetAddress c = addr) ∧
      (r = none → ∀ c ∈ s.mConnectionList, getNetAddress c ≠ addr) := by
  obtain ⟨e, free⟩ := h.exists_free
  obtain ⟨j, walked, outcome⟩ := h.hashed.walk_find (k := addr.hash.toNat)
    (P := fun c => addr = getNetAddress c) free
    (fun c hc => by rw [hashOf, ← of_decide_eq_true hc])
  refine ⟨s.mConnectionHashTable.slot j, by rw [findConnection, walked]; rfl, ?_⟩
  rcases outcome with ⟨d, hslot, hd⟩ | ⟨hslot, hnone⟩
  · rw [hslot]
    refine ⟨?_, fun hnone => Option.some_ne_none d hnone |>.elim⟩
    rintro c ⟨⟩
    exact ⟨(h.holds d).mp hd.2, (of_decide_eq_true hd.1).symm⟩
  · rw [hslot]
    refine ⟨fun c hc => Option.some_ne_none c hc.symm |>.elim, ?_⟩
    rintro - c hc rfl
    exact hnone c (by simp) ((h.holds c).mpr hc)

end Tabled

section
variable [DecidableEq C]

/-- What a step makes of the connections present. -/
theorem present_snoc (as : List (Action C)) (a : Action C) :
    present (as ++ [a]) = match a with
      | .add conn => conn :: present as
      | .remove conn => (present as).filter (· ≠ conn) := by
  rw [present, List.foldl_append]
  rfl

/-- After any calls, the list has the connections present, with distinct addresses, and the table
is in order. -/
theorem exec_tabled {as : List (Action C)} (distinct : Distinct getNetAddress as) :
    ∃ s, exec (step getNetAddress) initial as = some s ∧ Tabled getNetAddress s ∧
      (s.mConnectionList.map getNetAddress).Nodup ∧ ∀ c, c ∈ s.mConnectionList ↔ c ∈ present as := by
  induction as using List.reverseRecOn with
  | nil => exact ⟨initial, rfl, tabled_initial, List.nodup_nil, fun c => by simp [initial, present]⟩
  | append_singleton as a ih =>
    obtain ⟨s, hexec, h, haddr, mem⟩ :=
      ih (fun bs conn hbs => distinct bs conn (hbs.trans (List.prefix_append ..)))
    rw [exec_append, hexec, present_snoc]
    cases a with
    | add conn =>
      have new : ∀ c ∈ s.mConnectionList, getNetAddress c ≠ getNetAddress conn := fun c hc =>
        distinct as conn (List.prefix_refl _) c ((mem c).mp hc)
      have absent : conn ∉ s.mConnectionList := fun hc => new conn hc rfl
      obtain ⟨s', hstep, hlist, h'⟩ := h.add absent
      refine ⟨s', ?_, h', ?_, fun c => ?_⟩
      · simp [exec, step, hstep]
      · rw [hlist, List.map_append, List.map_singleton, List.nodup_append]
        refine ⟨haddr, List.nodup_singleton _, fun a ha b hb => ?_⟩
        obtain ⟨c, hc, rfl⟩ := List.mem_map.mp ha
        rw [List.mem_singleton.mp hb]
        exact new c hc
      · rw [hlist, List.mem_append, mem, List.mem_singleton, List.mem_cons, or_comm]
    | remove conn =>
      obtain ⟨s', hstep, perm, h'⟩ := h.remove conn
      refine ⟨s', ?_, h', ?_, fun c => ?_⟩
      · simp [exec, step, hstep]
      · exact (perm.map _).nodup_iff.mpr (haddr.sublist (List.erase_sublist.map _))
      · rw [perm.mem_iff, h.nodup.mem_erase_iff, mem, List.mem_filter, decide_eq_true_iff, and_comm]

omit [DecidableEq C] in
theorem regrow_size {l : List C} {n : ℕ} {t : ProbeTable C}
    (h : regrow getNetAddress l n = some t) : t.size = n := by
  have fold : ∀ (l : List C) (t₀ t : ProbeTable C),
      l.foldlM (fun t c => t.store (hashOf getNetAddress) c) t₀ = some t → t.size = t₀.size := by
    intro l
    induction l with
    | nil =>
      rintro t₀ t ⟨⟩
      rfl
    | cons c l ih =>
      intro t₀ t h
      rw [List.foldlM_cons] at h
      obtain ⟨t₁, stored, rest⟩ := Option.bind_eq_some_iff.mp h
      rw [ih t₁ t rest, ProbeTable.store_size stored]
  exact fold l _ t h

/-- The sizes of the table stay in the signed 32-bit range as long as the list has fewer than
`2 ^ 29` connections, which is `n` here. -/
theorem size_le {n : ℕ} {as : List (Action C)}
    (h : Run (step getNetAddress) (fun s _ => s.mConnectionList.length < n) initial as s) :
    s.mConnectionHashTable.size ≤ max 129 (4 * n - 1) := by
  refine h.invariant (I := fun s => s.mConnectionHashTable.size ≤ max 129 (4 * n - 1)) ?_
    (le_max_left ..)
  intro s a s' hs hlen taken
  cases a with
  | add conn =>
    obtain ⟨t, htable, rfl⟩ := Option.map_eq_some_iff.mp taken
    split_ifs at htable with hgrow
    · change t.size ≤ _
      rw [regrow_size htable, List.length_append, List.length_singleton]
      exact le_max_of_le_right (by omega)
    · change t.size ≤ _
      rw [ProbeTable.store_size htable]
      exact hs
  | remove conn =>
    change s.removeConnection getNetAddress conn = some s' at taken
    rw [removeConnection] at taken
    split at taken
    · cases taken
      exact hs
    · obtain ⟨t, htable, rfl⟩ := Option.map_eq_some_iff.mp taken
      change t.size ≤ _
      rw [ProbeTable.rehash_size htable, ProbeTable.put_size]
      exact hs

theorem distinct_nil : Distinct getNetAddress ([] : List (Action C)) := by
  intro bs conn h
  simp at h

theorem distinct_snoc (as : List (Action C)) (a : Action C) :
    Distinct getNetAddress (as ++ [a]) ↔ Distinct getNetAddress as ∧
      ∀ conn, a = .add conn → ∀ c ∈ present as, getNetAddress c ≠ getNetAddress conn := by
  constructor
  · intro h
    refine ⟨fun bs conn hbs => h bs conn (hbs.trans (List.prefix_append ..)), ?_⟩
    rintro conn rfl
    exact h as conn (List.prefix_refl _)
  · rintro ⟨h, last⟩ bs conn hbs
    rcases List.prefix_concat_iff.mp hbs with heq | hbs
    · obtain ⟨rfl, ha⟩ := List.append_inj' heq rfl
      exact last conn (List.singleton_inj.mp ha).symm
    · exact h bs conn hbs

/-- Whatever connections were added and removed, as long as those present have distinct addresses,
a search ends and returns the connection present with the address, if any. -/
theorem findConnection_correct (as : List (Action C)) (distinct : Distinct getNetAddress as) :
    ∃ s, exec (step getNetAddress) initial as = some s ∧
      ∀ addr, ∃ r, s.findConnection getNetAddress addr = some r ∧
        ∀ c, r = some c ↔ c ∈ present as ∧ getNetAddress c = addr := by
  obtain ⟨s, hexec, h, haddr, mem⟩ := exec_tabled distinct
  refine ⟨s, hexec, fun addr => ?_⟩
  obtain ⟨r, hfind, found, absent⟩ := h.find addr
  refine ⟨r, hfind, fun c => ?_⟩
  rw [← mem]
  constructor
  · exact found c
  · rintro ⟨hc, rfl⟩
    cases r with
    | none => exact absurd rfl (absent rfl c hc)
    | some d =>
      obtain ⟨hd, same⟩ := found d rfl
      rw [List.inj_on_of_nodup_map haddr hd hc same]

/-- Two connections that share a home slot, and the first of them removed. -/
theorem findConnection_correct_collision :
    ∃ s, exec (step id) initial [.add (⟨0, 0, #v[0, 0, 0, 0]⟩ : Address),
        .add ⟨0, 0, #v[129, 0, 0, 0]⟩, .remove ⟨0, 0, #v[0, 0, 0, 0]⟩] = some s ∧
      ∀ addr, ∃ r, s.findConnection id addr = some r ∧
        ∀ c, r = some c ↔ c ∈ present [.add (⟨0, 0, #v[0, 0, 0, 0]⟩ : Address),
          .add ⟨0, 0, #v[129, 0, 0, 0]⟩, .remove ⟨0, 0, #v[0, 0, 0, 0]⟩] ∧ c = addr :=
  findConnection_correct _ (by
    refine (distinct_snoc [.add _, .add _] _).mpr ⟨?_, by simp⟩
    refine (distinct_snoc [.add _] _).mpr ⟨?_, by simp [present]⟩
    exact (distinct_snoc [] _).mpr ⟨distinct_nil, by simp [present]⟩)

end

end ConnectionTable

end TNL
