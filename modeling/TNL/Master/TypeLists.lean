import Mathlib.Data.List.ReduceOption
import TNL.Connection.Header
import TNL.Library.Batches
import TNL.Library.EraseFast

/-!
# The lists of game and mission types

A server refers to its types by `RefPtr`s and the two global lists by `SafePtr`s,
which are null once the type is gone. A query for the types takes the null pointers
out of the lists while it goes through them, and answers in packets that hold names
of both kinds.
-/
namespace TNL
open Library

/-- The global lists. -/
inductive TypeKind where
  | gameType
  | missionType
  deriving DecidableEq

/-- Names are indexes into the string table, zero for the null entry. -/
structure MissionGameType where
  mName : ℕ
  mRefCount : U32
  deriving DecidableEq

/-- The objects at their addresses and the lists. For which list the object at an address was made is
kept besides. -/
structure TypeLists where
  objects : ℕ → Option MissionGameType
  list : TypeKind → List (Option ℕ)
  kind : ℕ → TypeKind

structure QueryGameTypesResponse where
  queryId : U32
  gameTypes : List ℕ
  missionTypes : List ℕ
  deriving DecidableEq

def GameMissionTypesPerPacket : ℕ := 20

namespace TypeLists

def start : TypeLists := ⟨fun _ => none, fun _ => [], fun _ => .gameType⟩

def nameOf (t : TypeLists) (o : ℕ) : ℕ := ((t.objects o).map (·.mName)).getD 0

section RefPtr

def setRefCount (t : TypeLists) (o : ℕ) (type : MissionGameType) (count : U32) : TypeLists :=
  { t with objects := Function.update t.objects o (some { type with mRefCount := count }) }

/-- Every `SafePtr` to the object is null afterwards. -/
def destroySelf (t : TypeLists) (o : ℕ) : TypeLists :=
  { t with
    objects := Function.update t.objects o none
    list := fun k => (t.list k).map fun entry => if entry = some o then none else entry }

/-- A pointer to memory that was freed changes nothing that is still in use. -/
def incRef (t : TypeLists) (o : ℕ) : TypeLists :=
  match t.objects o with
  | none => t
  | some type => t.setRefCount o type (type.mRefCount + 1)

def decRef (t : TypeLists) (o : ℕ) : TypeLists :=
  match t.objects o with
  | none => t
  | some type =>
    if type.mRefCount - 1 = 0 then t.destroySelf o else t.setRefCount o type (type.mRefCount - 1)

def release (t : TypeLists) (current : Option ℕ) : TypeLists := current.elim t t.decRef

/-- Let a `RefPtr` to the first object refer to the second one. -/
def setRef (t : TypeLists) (current : Option ℕ) (o : ℕ) : TypeLists := (t.release current).incRef o

end RefPtr

/-- The first object of the list with this name. -/
def find (t : TypeLists) (k : TypeKind) (name : ℕ) : Option ℕ :=
  ((t.list k).find? fun entry => entry.any fun o => t.nameOf o = name).join

def new (t : TypeLists) (k : TypeKind) (name address : ℕ) : TypeLists :=
  { t with
    objects := Function.update t.objects address (some ⟨name, 0⟩)
    kind := Function.update t.kind address k }

def pushBack (t : TypeLists) (k : TypeKind) (o : ℕ) : TypeLists :=
  { t with list := Function.update t.list k (t.list k ++ [some o]) }

/-- A new object is made at an address where none is. The result is what the `RefPtr` refers to. -/
def setType (t : TypeLists) (k : TypeKind) (current : Option ℕ) (name address : ℕ) :
    Option (TypeLists × ℕ) :=
  match t.find k name with
  | some o => some (t.setRef current o, o)
  | none =>
    if (t.objects address).isSome then none
    else some (((t.new k name address).setRef current address).pushBack k address, address)

def setGameType (t : TypeLists) (mCurrentGameType : Option ℕ) (gameType address : ℕ) :
    Option (TypeLists × ℕ) :=
  t.setType .gameType mCurrentGameType gameType address

def setMissionType (t : TypeLists) (mCurrentMissionType : Option ℕ) (missionType address : ℕ) :
    Option (TypeLists × ℕ) :=
  t.setType .missionType mCurrentMissionType missionType address

/-- The loop over a list that takes null pointers out and notes down the other ones. -/
def cull {α : Type} (push : α → ℕ → α) (list : List (Option ℕ)) (i : ℕ) (a : α) :
    List (Option ℕ) × α :=
  if h : i < list.length then
    match list.get ⟨i, h⟩ with
    | none => cull push (eraseFast list i) i a
    | some o => cull push list (i + 1) (push a o)
  else (list, a)
termination_by list.length - i
decreasing_by
  · have hlength := (eraseFast_perm h).length_eq
    rw [List.length_eraseIdx_of_lt h] at hlength
    omega
  · omega

/-- The local variables of a query, and the answers so far. -/
structure TypesQuery where
  gameTypes : List ℕ
  missionTypes : List ℕ
  listSize : ℕ
  sent : List QueryGameTypesResponse

def pushGameType (queryId : U32) (a : TypesQuery) (name : ℕ) : TypesQuery :=
  let a := { a with gameTypes := a.gameTypes ++ [name], listSize := a.listSize + 1 }
  if a.listSize ≥ GameMissionTypesPerPacket then
    { a with
      sent := a.sent ++ [⟨queryId, a.gameTypes, a.missionTypes⟩], listSize := 0, gameTypes := [] }
  else a

def pushMissionType (queryId : U32) (a : TypesQuery) (name : ℕ) : TypesQuery :=
  let a := { a with missionTypes := a.missionTypes ++ [name], listSize := a.listSize + 1 }
  if a.listSize ≥ GameMissionTypesPerPacket then
    { a with
      sent := a.sent ++ [⟨queryId, a.gameTypes, a.missionTypes⟩], listSize := 0, gameTypes := [],
      missionTypes := [] }
  else a

def finish (queryId : U32) (a : TypesQuery) : List QueryGameTypesResponse :=
  let sent := a.sent ++ [⟨queryId, a.gameTypes, a.missionTypes⟩]
  if a.gameTypes.length ≠ 0 ∨ a.missionTypes.length ≠ 0 then sent ++ [⟨queryId, [], []⟩] else sent

def c2mQueryGameTypes (t : TypeLists) (queryId : U32) : TypeLists × List QueryGameTypesResponse :=
  let games := cull (fun a o => pushGameType queryId a (t.nameOf o)) (t.list .gameType) 0
    ⟨[], [], 0, []⟩
  let missions := cull (fun a o => pushMissionType queryId a (t.nameOf o)) (t.list .missionType) 0
    games.2
  let list : TypeKind → List (Option ℕ)
    | .gameType => games.1
    | .missionType => missions.1
  ({ t with list := list }, finish queryId missions.2)

/-- The names in a list. -/
def names (t : TypeLists) (k : TypeKind) : List ℕ := (t.list k).reduceOption.map t.nameOf

/-- The objects of a list are those that were made for it and still exist, and no two of them have one
name. -/
structure Sound (t : TypeLists) : Prop where
  listed : ∀ k o, some o ∈ t.list k ↔ (t.objects o).isSome ∧ t.kind o = k
  distinct : ∀ k, (t.names k).Nodup

theorem sound_start : start.Sound := by
  constructor
  · intro k o
    simp [start]
  · intro k
    exact List.nodup_nil

variable {t : TypeLists} {k : TypeKind} {o : ℕ}

theorem nameOf_of_ne {objects : ℕ → Option MissionGameType} {list : TypeKind → List (Option ℕ)}
    {kind : ℕ → TypeKind} {type : Option MissionGameType} {p : ℕ} (h : p ≠ o) :
    nameOf ⟨Function.update objects o type, list, kind⟩ p = nameOf ⟨objects, list, kind⟩ p := by
  simp [nameOf, h]

theorem nameOf_pushBack (t : TypeLists) (k : TypeKind) (o : ℕ) :
    (t.pushBack k o).nameOf = t.nameOf := rfl

theorem names_pushBack_self (t : TypeLists) (k : TypeKind) (o : ℕ) :
    (t.pushBack k o).names k = t.names k ++ [t.nameOf o] := by
  rw [names, names, nameOf_pushBack, pushBack]
  simp [List.reduceOption_append]

theorem names_pushBack_of_ne {k' : TypeKind} (t : TypeLists) (h : k' ≠ k) (o : ℕ) :
    (t.pushBack k o).names k' = t.names k' := by
  rw [names, names, nameOf_pushBack, pushBack]
  simp [h]

/-! ### What an operation does to the lists -/

theorem Sound.setRefCount {type : MissionGameType} (h : t.Sound) (ho : t.objects o = some type)
    (count : U32) : (t.setRefCount o type count).Sound := by
  have hname : (t.setRefCount o type count).nameOf = t.nameOf := by
    funext p
    rw [nameOf, nameOf, TypeLists.setRefCount]
    by_cases hp : p = o
    · subst hp
      simp [ho]
    · simp [hp]
  constructor
  · intro k p
    rw [TypeLists.setRefCount]
    by_cases hp : p = o
    · subst hp
      simp [h.listed, ho]
    · simp [h.listed, hp]
  · intro k
    rw [names, hname]
    exact h.distinct k

theorem reduceOption_clear (list : List (Option ℕ)) (o : ℕ) :
    (list.map fun entry => if entry = some o then none else entry).reduceOption =
      list.reduceOption.filter (· ≠ o) := by
  induction list with
  | nil => rfl
  | cons entry list ih =>
    rw [List.map_cons]
    cases entry with
    | none =>
      rw [if_neg nofun, List.reduceOption_cons_of_none, List.reduceOption_cons_of_none, ih]
    | some p =>
      by_cases hp : p = o
      · rw [if_pos (congrArg some hp), List.reduceOption_cons_of_none,
          List.reduceOption_cons_of_some, ih, List.filter_cons_of_neg (by simpa using hp)]
      · rw [if_neg (hp ∘ Option.some.inj), List.reduceOption_cons_of_some,
          List.reduceOption_cons_of_some, ih, List.filter_cons_of_pos (by simpa using hp)]

theorem Sound.destroySelf (h : t.Sound) (o : ℕ) : (t.destroySelf o).Sound := by
  constructor
  · intro k p
    rw [← List.reduceOption_mem_iff, TypeLists.destroySelf, reduceOption_clear, List.mem_filter,
      List.reduceOption_mem_iff, h.listed]
    by_cases hp : p = o
    · simp [hp]
    · simp [hp]
  · intro k
    have hnames : (t.destroySelf o).names k =
        ((t.list k).reduceOption.filter (· ≠ o)).map t.nameOf := by
      rw [names, TypeLists.destroySelf, reduceOption_clear]
      apply List.map_congr_left
      intro p hp
      have hne : p ≠ o := by simpa using (List.mem_filter.mp hp).2
      exact nameOf_of_ne hne
    rw [hnames]
    exact (h.distinct k).sublist (List.filter_sublist.map _)

theorem Sound.incRef (h : t.Sound) (o : ℕ) : (t.incRef o).Sound := by
  rw [TypeLists.incRef]
  cases ho : t.objects o with
  | none => exact h
  | some type => exact h.setRefCount ho _

theorem Sound.decRef (h : t.Sound) (o : ℕ) : (t.decRef o).Sound := by
  rw [TypeLists.decRef]
  cases ho : t.objects o with
  | none => exact h
  | some type =>
    dsimp only
    split_ifs with hzero
    · exact h.destroySelf o
    · exact h.setRefCount ho _

theorem Sound.release (h : t.Sound) (current : Option ℕ) : (t.release current).Sound := by
  cases current with
  | none => exact h
  | some p => exact h.decRef p

theorem Sound.setRef (h : t.Sound) (current : Option ℕ) (o : ℕ) : (t.setRef current o).Sound :=
  (h.release current).incRef o

/-! ### A new type -/

theorem find_eq_none {name : ℕ} (h : t.find k name = none) : name ∉ t.names k := by
  intro hmem
  obtain ⟨o, ho, hname⟩ := List.mem_map.mp hmem
  rw [List.reduceOption_mem_iff] at ho
  rw [find] at h
  cases hfind : (t.list k).find? fun entry => entry.any fun o => t.nameOf o = name with
  | none => simpa [hname] using List.find?_eq_none.mp hfind (some o) ho
  | some entry =>
    have hentry := List.find?_some hfind
    cases entry with
    | none => exact absurd hentry Bool.false_ne_true
    | some p =>
      rw [hfind] at h
      exact absurd h (Option.some_ne_none p)

/-- The list takes a new object in. -/
theorem Sound.new (h : t.Sound) {name address : ℕ} (hfree : t.objects address = none)
    (hname : name ∉ t.names k) : ((t.new k name address).pushBack k address).Sound := by
  have hlisted : ∀ k', some address ∉ t.list k' := by
    intro k' hmem
    have halive := ((h.listed k' address).mp hmem).1
    rw [hfree] at halive
    exact absurd halive Bool.false_ne_true
  have hold : ∀ k', (t.new k name address).names k' = t.names k' := by
    intro k'
    apply List.map_congr_left
    intro p hp
    rw [List.reduceOption_mem_iff] at hp
    have hne : p ≠ address := by
      rintro rfl
      exact hlisted k' hp
    exact nameOf_of_ne hne
  constructor
  · intro k' p
    rw [pushBack, TypeLists.new]
    by_cases hk : k' = k
    · subst hk
      by_cases hp : p = address
      · simp [hp]
      · simp [hp, h.listed]
    · by_cases hp : p = address
      · simp [hp, hk, hlisted, Ne.symm hk]
      · simp [hp, hk, h.listed]
  · intro k'
    by_cases hk : k' = k
    · subst hk
      have hnew : (t.new k' name address).nameOf address = name := by simp [nameOf, TypeLists.new]
      rw [names_pushBack_self, hold, hnew]
      exact List.nodup_append.mpr ⟨h.distinct k', List.nodup_cons.mpr ⟨List.not_mem_nil,
        List.nodup_nil⟩, by grind⟩
    · rw [names_pushBack_of_ne _ hk, hold]
      exact h.distinct k'

theorem destroySelf_pushBack (t : TypeLists) (k : TypeKind) {p : ℕ} (h : p ≠ o) :
    (t.pushBack k o).destroySelf p = (t.destroySelf p).pushBack k o := by
  rw [destroySelf, destroySelf, pushBack, pushBack]
  congr 1
  funext k'
  by_cases hk : k' = k
  · subst hk
    simp [Ne.symm h]
  · simp [hk]

/-- The object that the list is about to take in is not destroyed, as its count is zero. -/
theorem release_pushBack {current : Option ℕ} {type : MissionGameType}
    (ho : t.objects o = some type) (hcount : type.mRefCount = 0) :
    (t.pushBack k o).release current = (t.release current).pushBack k o := by
  cases current with
  | none => rfl
  | some p =>
    change (t.pushBack k o).decRef p = (t.decRef p).pushBack k o
    rw [decRef, decRef]
    change (match t.objects p with
      | none => _
      | some type => _) = _
    cases hp : t.objects p with
    | none => rfl
    | some type' =>
      dsimp only
      split_ifs with hzero
      · have hne : p ≠ o := by
          rintro rfl
          obtain rfl := Option.some.inj (ho.symm.trans hp)
          rw [hcount] at hzero
          exact absurd hzero (by decide)
        exact destroySelf_pushBack t k hne
      · rfl

theorem incRef_pushBack (t : TypeLists) (k : TypeKind) (o p : ℕ) :
    (t.pushBack k o).incRef p = (t.incRef p).pushBack k o := by
  rw [incRef, incRef]
  change (match t.objects p with
    | none => _
    | some type => _) = _
  cases t.objects p with
  | none => rfl
  | some type => rfl

theorem Sound.setType (h : t.Sound) {t' : TypeLists} {current : Option ℕ} {name address : ℕ}
    (hset : t.setType k current name address = some (t', o)) : t'.Sound := by
  rw [TypeLists.setType] at hset
  cases hfind : t.find k name with
  | some p =>
    rw [hfind] at hset
    obtain ⟨rfl, -⟩ := Prod.mk.inj (Option.some.inj hset)
    exact h.setRef current p
  | none =>
    rw [hfind] at hset
    dsimp only at hset
    split_ifs at hset with hfree
    obtain ⟨rfl, -⟩ := Prod.mk.inj (Option.some.inj hset)
    rw [Option.not_isSome_iff_eq_none] at hfree
    have hnew := h.new hfree (find_eq_none hfind)
    have hmade : (t.new k name address).objects address = some ⟨name, 0⟩ :=
      Function.update_self ..
    rw [TypeLists.setRef, ← incRef_pushBack, ← release_pushBack hmade rfl]
    exact hnew.setRef current address

/-! ### A query -/

theorem eraseFast_front {α : Type} (front back : List α) (x : α) :
    ∃ moved, eraseFast (front ++ x :: back) front.length = front ++ moved ∧ moved.Perm back := by
  rcases List.eq_nil_or_concat back with rfl | ⟨back, last, rfl⟩
  · exact ⟨[], by simp [eraseFast], List.Perm.nil⟩
  · rw [List.concat_eq_append]
    refine ⟨last :: back, ?_, (List.perm_append_singleton last back).symm⟩
    rw [eraseFast, ← List.cons_append, ← List.append_assoc, List.getLast?_concat]
    dsimp only
    rw [List.append_assoc, List.cons_append, List.set_append_right _ _ (Nat.le_refl _),
      Nat.sub_self, List.set_cons_zero, ← List.cons_append, ← List.append_assoc, List.dropLast_concat]

/-- What is left of the list is noted down in its order. -/
theorem cull_append {α : Type} (push : α → ℕ → α) (front back : List (Option ℕ)) (a : α) :
    ∃ rest : List ℕ, cull push (front ++ back) front.length a =
      (front ++ rest.map some, rest.foldl push a) ∧ rest.Perm back.reduceOption := by
  obtain ⟨n, hn⟩ : ∃ n, n = back.length := ⟨_, rfl⟩
  induction n generalizing front back a with
  | zero =>
    obtain rfl := List.length_eq_zero_iff.mp hn.symm
    refine ⟨[], ?_, List.Perm.nil⟩
    rw [cull, dif_neg (by simp)]
    simp
  | succ n ih =>
    obtain ⟨entry, back, rfl⟩ := List.exists_cons_of_length_eq_add_one hn.symm
    have hlt : front.length < (front ++ entry :: back).length := by simp
    have hget : (front ++ entry :: back).get ⟨front.length, hlt⟩ = entry := by simp
    rw [cull, dif_pos hlt, hget]
    rw [List.length_cons] at hn
    cases entry with
    | none =>
      obtain ⟨moved, hmoved, hperm⟩ := eraseFast_front front back (none : Option ℕ)
      obtain ⟨rest, hcull, hrest⟩ := ih front moved a (by rw [hperm.length_eq]; omega)
      refine ⟨rest, ?_, ?_⟩
      · rw [hmoved]
        exact hcull
      · rw [List.reduceOption_cons_of_none]
        exact hrest.trans (hperm.filterMap id)
    | some o =>
      obtain ⟨rest, hcull, hrest⟩ := ih (front ++ [some o]) back (push a o) (by omega)
      refine ⟨o :: rest, ?_, ?_⟩
      · rw [List.length_append, List.length_singleton, List.append_assoc] at hcull
        rw [List.map_cons, List.foldl_cons, ← List.singleton_append (l := rest.map some),
          ← List.append_assoc]
        exact hcull
      · rw [List.reduceOption_cons_of_some]
        exact hrest.cons o

/-- The response that carries a batch of names, those of game types on the left. -/
def response (queryId : U32) (batch : List (ℕ ⊕ ℕ)) : QueryGameTypesResponse :=
  ⟨queryId, batch.filterMap Sum.getLeft?, batch.filterMap Sum.getRight?⟩

/-- The variables of a query that collects batches. -/
def ofBatches (queryId : U32) (b : Batches (ℕ ⊕ ℕ)) : TypesQuery :=
  ⟨b.pending.filterMap Sum.getLeft?, b.pending.filterMap Sum.getRight?, b.pending.length,
    b.sent.map (response queryId)⟩

section batches

variable {queryId : U32} {b : Batches (ℕ ⊕ ℕ)}

/-- Only the names of game types are cleared, and there are no other ones yet. -/
theorem pushGameType_ofBatches (h : b.pending.filterMap Sum.getRight? = []) (name : ℕ) :
    pushGameType queryId (ofBatches queryId b) name =
      ofBatches queryId (b.push GameMissionTypesPerPacket (.inl name)) := by
  rw [pushGameType, Batches.push, List.length_append, List.length_singleton]
  change (if b.pending.length + 1 ≥ GameMissionTypesPerPacket then _ else _) = _
  by_cases hfull : b.pending.length + 1 ≥ GameMissionTypesPerPacket
  · rw [if_pos hfull, if_pos hfull]
    simp [ofBatches, response, h]
  · rw [if_neg hfull, if_neg hfull]
    simp [ofBatches]

theorem pushMissionType_ofBatches (b : Batches (ℕ ⊕ ℕ)) (name : ℕ) :
    pushMissionType queryId (ofBatches queryId b) name =
      ofBatches queryId (b.push GameMissionTypesPerPacket (.inr name)) := by
  rw [pushMissionType, Batches.push, List.length_append, List.length_singleton]
  change (if b.pending.length + 1 ≥ GameMissionTypesPerPacket then _ else _) = _
  by_cases hfull : b.pending.length + 1 ≥ GameMissionTypesPerPacket
  · rw [if_pos hfull, if_pos hfull]
    simp [ofBatches, response]
  · rw [if_neg hfull, if_neg hfull]
    simp [ofBatches]

theorem pushGameTypes_ofBatches (h : b.pending.filterMap Sum.getRight? = []) (games : List ℕ) :
    games.foldl (pushGameType queryId) (ofBatches queryId b) =
      ofBatches queryId
        ((games.map Sum.inl).foldl (Batches.push GameMissionTypesPerPacket) b) := by
  induction games generalizing b with
  | nil => rfl
  | cons name games ih =>
    rw [List.foldl_cons, pushGameType_ofBatches h, List.map_cons, List.foldl_cons]
    apply ih
    rw [Batches.push]
    split_ifs
    · rfl
    · simp [h]

theorem pushMissionTypes_ofBatches (b : Batches (ℕ ⊕ ℕ)) (missions : List ℕ) :
    missions.foldl (pushMissionType queryId) (ofBatches queryId b) =
      ofBatches queryId
        ((missions.map Sum.inr).foldl (Batches.push GameMissionTypesPerPacket) b) := by
  induction missions generalizing b with
  | nil => rfl
  | cons name missions ih =>
    rw [List.foldl_cons, pushMissionType_ofBatches, List.map_cons, List.foldl_cons]
    exact ih _

theorem finish_ofBatches (b : Batches (ℕ ⊕ ℕ)) :
    finish queryId (ofBatches queryId b) = b.finish.map (response queryId) := by
  have hempty : (ofBatches queryId b).gameTypes.length ≠ 0 ∨
      (ofBatches queryId b).missionTypes.length ≠ 0 ↔ b.pending ≠ [] := by
    rw [ofBatches]
    cases b.pending with
    | nil => simp
    | cons name pending => cases name <;> simp
  rw [finish, Batches.finish]
  by_cases hpending : b.pending = []
  · rw [if_pos hpending]
    rw [if_neg (hempty.not.mpr (not_not.mpr hpending))]
    simp [response, ofBatches]
  · rw [if_neg hpending]
    rw [if_pos (hempty.mpr hpending)]
    simp [response, ofBatches]

end batches

/-- The names of a batch with those of game types in front of the other ones. -/
theorem response_names {queryId : U32} {batch : List (ℕ ⊕ ℕ)}
    (h : batch.Pairwise fun x y => x.isRight → y.isRight) :
    (response queryId batch).gameTypes ++ (response queryId batch).missionTypes =
      batch.map (Sum.elim id id) := by
  rw [response]
  dsimp only
  induction h with
  | nil => rfl
  | cons hx hbatch ih =>
    rename_i x batch
    cases x with
    | inl name =>
      change name :: (batch.filterMap Sum.getLeft? ++ batch.filterMap Sum.getRight?) = _
      rw [ih]
      rfl
    | inr name =>
      have hnil : batch.filterMap Sum.getLeft? = [] := by
        rw [List.filterMap_eq_nil_iff]
        intro y hy
        exact Sum.getLeft?_eq_none_iff.mpr (hx y hy rfl)
      rw [hnil, List.nil_append] at ih
      change batch.filterMap Sum.getLeft? ++ name :: batch.filterMap Sum.getRight? = _
      rw [hnil, ih]
      rfl

/-- What a client gathers from the answers to a query for the types. -/
structure TypesAnswered (queryId : U32) (games missions : List ℕ)
    (responses : List QueryGameTypesResponse) : Prop where
  sameQuery : ∀ response ∈ responses, response.queryId = queryId
  gameTypes : responses.flatMap (·.gameTypes) = games
  missionTypes : responses.flatMap (·.missionTypes) = missions
  inOrder : (responses.flatMap fun response => response.gameTypes ++ response.missionTypes) =
    games ++ missions
  terminated : Batches.Terminated GameMissionTypesPerPacket
    (responses.map fun response => response.gameTypes ++ response.missionTypes)

theorem answered_ofBatches (queryId : U32) (games missions : List ℕ) {b : Batches (ℕ ⊕ ℕ)}
    (hsound : b.Sound GameMissionTypesPerPacket)
    (hitems : b.items = games.map Sum.inl ++ missions.map Sum.inr) :
    TypesAnswered queryId games missions (b.finish.map (response queryId)) := by
  have hflatten : b.finish.flatten = games.map Sum.inl ++ missions.map Sum.inr :=
    b.flatten_finish.trans hitems
  have hsorted : b.finish.flatten.Pairwise fun x y => x.isRight → y.isRight := by
    rw [hflatten, List.pairwise_append]
    refine ⟨?_, ?_, ?_⟩
    · rw [List.pairwise_map]
      exact List.pairwise_of_forall nofun
    · rw [List.pairwise_map]
      exact List.pairwise_of_forall fun _ _ _ => rfl
    · rintro x - y hy -
      obtain ⟨name, -, rfl⟩ := List.mem_map.mp hy
      rfl
  have hnames : ∀ batch ∈ b.finish, (response queryId batch).gameTypes ++
      (response queryId batch).missionTypes = batch.map (Sum.elim id id) := by
    intro batch hbatch
    exact response_names (hsorted.sublist (List.sublist_flatten_of_mem hbatch))
  constructor
  · intro r hr
    obtain ⟨batch, -, rfl⟩ := List.mem_map.mp hr
    rfl
  · rw [List.flatMap_map]
    change b.finish.flatMap (List.filterMap Sum.getLeft?) = games
    rw [List.flatMap_def, ← List.filterMap_flatten, hflatten, List.filterMap_append,
      List.filterMap_map, List.filterMap_map]
    simp [Function.comp_def]
  · rw [List.flatMap_map]
    change b.finish.flatMap (List.filterMap Sum.getRight?) = missions
    rw [List.flatMap_def, ← List.filterMap_flatten, hflatten, List.filterMap_append,
      List.filterMap_map, List.filterMap_map]
    simp [Function.comp_def]
  · rw [List.flatMap_map, List.flatMap_congr hnames, List.flatMap_def, ← List.map_flatten, hflatten]
    simp
  · rw [List.map_map]
    have hmap : b.finish.map ((fun r => r.gameTypes ++ r.missionTypes) ∘ response queryId) =
        b.finish.map (List.map (Sum.elim id id)) := List.map_congr_left hnames
    rw [hmap]
    exact hsound.terminated.map _

theorem Sound.mem_names (h : t.Sound) {name : ℕ} :
    name ∈ t.names k ↔ ∃ o type, t.objects o = some type ∧ t.kind o = k ∧ type.mName = name := by
  rw [names, List.mem_map]
  constructor
  · rintro ⟨o, ho, rfl⟩
    rw [List.reduceOption_mem_iff, h.listed] at ho
    obtain ⟨type, htype⟩ := Option.isSome_iff_exists.mp ho.1
    refine ⟨o, type, htype, ho.2, ?_⟩
    rw [nameOf, htype, Option.map_some, Option.getD_some]
  · rintro ⟨o, type, htype, hkind, rfl⟩
    refine ⟨o, ?_, ?_⟩
    · rw [List.reduceOption_mem_iff, h.listed, htype]
      exact ⟨rfl, hkind⟩
    · rw [nameOf, htype, Option.map_some, Option.getD_some]

/-- Without the null pointers, and in another order, the lists are sound as before. -/
theorem Sound.reorder (h : t.Sound) {list : TypeKind → List (Option ℕ)}
    (hlist : ∀ k, (list k).reduceOption.Perm (t.list k).reduceOption) :
    Sound { t with list := list } := by
  constructor
  · intro k o
    rw [← List.reduceOption_mem_iff, (hlist k).mem_iff, List.reduceOption_mem_iff, h.listed]
  · intro k
    exact ((hlist k).map t.nameOf).nodup_iff.mpr (h.distinct k)

theorem cull_list {α : Type} (push : α → ℕ → α) (list : List (Option ℕ)) (a : α) :
    ∃ rest : List ℕ, cull push list 0 a = (rest.map some, rest.foldl push a) ∧
      rest.Perm list.reduceOption :=
  cull_append push [] list a

theorem Sound.c2mQueryGameTypes (h : t.Sound) (queryId : U32) :
    (t.c2mQueryGameTypes queryId).1.Sound ∧
      ∃ games missions, games.Perm (t.names .gameType) ∧ missions.Perm (t.names .missionType) ∧
        TypesAnswered queryId games missions (t.c2mQueryGameTypes queryId).2 := by
  obtain ⟨games, hgames, hgamesPerm⟩ := cull_list
    (fun a o => pushGameType queryId a (t.nameOf o)) (t.list .gameType) ⟨[], [], 0, []⟩
  obtain ⟨missions, hmissions, hmissionsPerm⟩ := cull_list
    (fun a o => pushMissionType queryId a (t.nameOf o)) (t.list .missionType)
    (games.foldl (fun a o => pushGameType queryId a (t.nameOf o)) ⟨[], [], 0, []⟩)
  rw [TypeLists.c2mQueryGameTypes, hgames]
  dsimp only
  rw [hmissions]
  constructor
  · apply h.reorder
    rintro (_ | _)
    · simpa [List.reduceOption] using hgamesPerm
    · simpa [List.reduceOption] using hmissionsPerm
  · refine ⟨games.map t.nameOf, missions.map t.nameOf, hgamesPerm.map _, hmissionsPerm.map _, ?_⟩
    have hsound : (Batches.empty : Batches (ℕ ⊕ ℕ)).Sound GameMissionTypesPerPacket :=
      Batches.Sound.empty (by decide)
    have hcollected : missions.foldl (fun a o => pushMissionType queryId a (t.nameOf o))
        (games.foldl (fun a o => pushGameType queryId a (t.nameOf o)) ⟨[], [], 0, []⟩) =
        ofBatches queryId (((missions.map t.nameOf).map Sum.inr).foldl
          (Batches.push GameMissionTypesPerPacket) (((games.map t.nameOf).map Sum.inl).foldl
            (Batches.push GameMissionTypesPerPacket) Batches.empty)) := by
      rw [← pushMissionTypes_ofBatches, ← pushGameTypes_ofBatches rfl, List.foldl_map,
        List.foldl_map]
      rfl
    rw [hcollected, finish_ofBatches]
    apply answered_ofBatches
    · exact (hsound.foldl _).foldl _
    · rw [Batches.items_foldl, Batches.items_foldl]
      rfl

end TypeLists

end TNL
