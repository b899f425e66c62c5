import TNL.StringTable.Ring

/-!
# The string tables agree

Whatever subset of the pending records arrives, each is read as the string it
was written for, and a confirmed entry ends up with its string on the peer.
-/
namespace TNL
open Library

namespace ConnectionStringTable

variable {ν : Type*} [DecidableEq ν] {t : ConnectionStringTable ν}

/-- A packet received confirms only entries that still hold the string noted for them. -/
theorem packetReceived_spec (note : List (PacketEntry ν)) (j : Fin entryCount) :
    ((t.packetReceived note).mEntryTable j).string = (t.mEntryTable j).string ∧
      (((t.packetReceived note).mEntryTable j).receiveConfirmed = true →
        (t.mEntryTable j).receiveConfirmed = true ∨
          ∃ walk ∈ note, walk.stringTableEntry = j ∧ (t.mEntryTable j).string = walk.string) := by
  induction note generalizing t with
  | nil => exact ⟨rfl, .inl⟩
  | cons walk note ih =>
    obtain ⟨hstring, hconfirmed⟩ := ih (t := t.confirm walk)
    have hsame : ((t.confirm walk).mEntryTable j).string = (t.mEntryTable j).string := by
      unfold confirm
      split
      · by_cases hj : j = walk.stringTableEntry
        · subst hj
          simp
        · simp [hj]
      · rfl
    refine ⟨hstring.trans hsame, fun h => ?_⟩
    obtain hbefore | ⟨other, hmem, hentry, heq⟩ := hconfirmed h
    · by_cases hj : walk.stringTableEntry = j ∧ (t.mEntryTable j).string = walk.string
      · exact .inr ⟨walk, List.mem_cons_self, hj⟩
      · left
        unfold confirm at hbefore
        split at hbefore
        · rename_i hheld
          have hne : j ≠ walk.stringTableEntry := by
            rintro rfl
            exact hj ⟨rfl, hheld⟩
          simpa [hne] using hbefore
        · exact hbefore
    · exact .inr ⟨other, List.mem_cons_of_mem _ hmem, hentry, hsame ▸ heq⟩

end ConnectionStringTable

namespace StringLink
open ConnectionStringTable

variable {ν : Type*}

/-- The peer's table after some records. -/
def rememberAll (remote : Fin entryCount → ν) (writes : List (ν × StringRecord ν)) :
    Fin entryCount → ν :=
  (writes.map Prod.snd).foldl remember remote

/-- Every string is read as it was written. -/
def Readable (remote : Fin entryCount → ν) (writes : List (ν × StringRecord ν)) : Prop :=
  ∀ v ∈ (readStrings remote writes).1, v.1 = v.2

section reading

variable {remote : Fin entryCount → ν} {v w : List (ν × StringRecord ν)}

theorem rememberAll_append :
    rememberAll remote (v ++ w) = rememberAll (rememberAll remote v) w := by
  simp [rememberAll]

theorem readStrings_remote : (readStrings remote w).2 = rememberAll remote w := by
  induction w generalizing remote with
  | nil => rfl
  | cons x w ih => exact ih

theorem readStrings_append : (readStrings remote (v ++ w)).1 =
    (readStrings remote v).1 ++ (readStrings (rememberAll remote v) w).1 := by
  induction v generalizing remote with
  | nil => rfl
  | cons x v ih =>
    change _ :: (readStrings (remember remote x.2) (v ++ w)).1 = _
    rw [ih]
    rfl

theorem readable_append :
    Readable remote (v ++ w) ↔ Readable remote v ∧ Readable (rememberAll remote v) w := by
  simp [Readable, readStrings_append, or_imp, forall_and]

theorem readable_singleton {string : ν} {r : StringRecord ν} :
    Readable remote [(string, r)] ↔ string = remember remote r r.index := by
  simp [Readable, readStrings, readStringTableEntry]

/-- An entry holds the last string given to it. -/
theorem foldl_remember (records : List (StringRecord ν)) (i : Fin entryCount) :
    records.foldl remember remote i = (lastString i records).getD (remote i) := by
  induction records generalizing remote with
  | nil => rfl
  | cons r records ih =>
    rw [List.foldl_cons, ih]
    have hcons : lastString i (r :: records) =
        (lastString i records).or (if r.index = i then r.string else none) := by
      unfold lastString
      by_cases hi : r.index = i
      · cases hr : r.string with
        | none => simp [hi, hr]
        | some s =>
          simp only [hi, decide_true, List.filter_cons_of_pos, List.filterMap_cons, hr, if_true,
            List.getLast?_cons]
          cases ((records.filter (fun r => r.index = i)).filterMap StringRecord.string).getLast? <;>
            rfl
      · simp [hi]
    rw [hcons]
    cases lastString i records with
    | some s => rfl
    | none =>
      unfold remember
      by_cases hi : r.index = i
      · cases hr : r.string with
        | none => simp [hi]
        | some s => simp [hi]
      · cases hr : r.string with
        | none => simp [hi]
        | some s => simp [hi, Ne.symm hi]

end reading

/-- Agreement on the records pending, whichever of them arrive. -/
structure TableAgreed (t : ConnectionStringTable ν) (remote : Fin entryCount → ν)
    (pending : List (ν × StringRecord ν)) : Prop where
  readable : ∀ w, w.Sublist pending → Readable remote w
  confirmed : ∀ i, (t.mEntryTable i).receiveConfirmed = true → ∀ w, w.Sublist pending →
    rememberAll remote w i = (t.mEntryTable i).string

section agreed

variable {t : ConnectionStringTable ν} {remote : Fin entryCount → ν}
  {pending : List (ν × StringRecord ν)}

/-- Reading a packet that was pending, of which those before it are skipped. -/
theorem TableAgreed.read {skipped w rest : List (ν × StringRecord ν)}
    (h : TableAgreed t remote (skipped ++ (w ++ rest))) :
    Readable remote w ∧ TableAgreed t (rememberAll remote w) rest := by
  have hsub : ∀ {v : List (ν × StringRecord ν)}, v.Sublist rest →
      (w ++ v).Sublist (skipped ++ (w ++ rest)) := fun hv =>
    ((List.Sublist.refl w).append hv).trans (List.sublist_append_right ..)
  refine ⟨?_, ?_, ?_⟩
  · exact h.readable w (by simp)
  · exact fun v hv => (readable_append.mp (h.readable _ (hsub hv))).2
  · intro i hi v hv
    rw [← rememberAll_append]
    exact h.confirmed i hi _ (hsub hv)

theorem TableAgreed.mono {more : List (ν × StringRecord ν)} (h : TableAgreed t remote more)
    (hsub : pending.Sublist more) : TableAgreed t remote pending :=
  ⟨fun w hw => h.readable w (hw.trans hsub), fun i hi w hw => h.confirmed i hi w (hw.trans hsub)⟩

variable [DecidableEq ν] {getIndex : ν → ℕ}

theorem TableAgreed.write (h : TableAgreed t remote pending) (getIndex : ν → ℕ) (string : ν) :
    TableAgreed (t.writeStringTableEntry getIndex string).2 remote
      (pending ++ [(string, (t.writeStringTableEntry getIndex string).1)]) := by
  obtain ⟨hstring, hkept⟩ := sendEntry_spec getIndex t string
  unfold writeStringTableEntry
  generalize t.sendEntry getIndex string = sent at *
  obtain ⟨i, t'⟩ := sent
  dsimp only at *
  -- a confirmed entry was confirmed before, so what is pending leaves it alone
  have hconfirmed : ∀ j, (t'.mEntryTable j).receiveConfirmed = true → ∀ w, w.Sublist pending →
      rememberAll remote w j = (t'.mEntryTable j).string := by
    intro j hj w hw
    have hsame := hkept j hj
    rw [hsame] at hj ⊢
    exact h.confirmed j hj w hw
  have hsplit : ∀ {x} {w : List (ν × StringRecord ν)}, w.Sublist (pending ++ [x]) →
      w.Sublist pending ∨ ∃ v, v.Sublist pending ∧ w = v ++ [x] := by
    intro x w hw
    obtain ⟨v, u, rfl, hv, hu⟩ := List.sublist_append_iff.mp hw
    obtain rfl | rfl := List.sublist_singleton.mp hu
    · exact .inl (by simpa using hv)
    · exact .inr ⟨v, hv, rfl⟩
  constructor
  · intro w hw
    obtain hold | ⟨v, hv, rfl⟩ := hsplit hw
    · exact h.readable w hold
    · refine readable_append.mpr ⟨h.readable v hv, readable_singleton.mpr ?_⟩
      unfold remember
      by_cases hi : (t'.mEntryTable i).receiveConfirmed = true
      · simp only [hi, if_true]
        exact ((hconfirmed i hi v hv).trans hstring).symm
      · simp [hi, hstring]
  · intro j hj w hw
    obtain hold | ⟨v, hv, rfl⟩ := hsplit hw
    · exact hconfirmed j hj w hold
    · rw [rememberAll_append]
      have hv' := hconfirmed j hj v hv
      by_cases hi : (t'.mEntryTable i).receiveConfirmed = true
      · simpa [rememberAll, remember, hi] using hv'
      · have hne : j ≠ i := by
          rintro rfl
          exact hi hj
        simpa [rememberAll, remember, hi, hne] using hv'

theorem TableAgreed.writeStrings (h : TableAgreed t remote pending) (getIndex : ν → ℕ)
    (strings : List ν) :
    TableAgreed (writeStrings getIndex t strings).2 remote
      (pending ++ (StringLink.writeStrings getIndex t strings).1) := by
  induction strings generalizing t pending with
  | nil => simpa [StringLink.writeStrings] using h
  | cons string strings ih =>
    have hrest := ih (h.write getIndex string)
    rw [List.append_assoc] at hrest
    exact hrest

end agreed

/-- The peer's table comes from the packets it has read. -/
structure Agreed (l : StringLink ν) : Prop where
  table : TableAgreed l.table l.mRemoteStringTable l.pendingWrites
  remote : ∃ base, l.mRemoteStringTable = (readRecords l.settled).foldl remember base
  exchanged : ∀ e ∈ l.exchanged, e.1 = e.2

theorem start_agreed [Inhabited ν] : Agreed (start : StringLink ν) where
  table := by
    refine ⟨?_, ?_⟩
    · intro w hw
      obtain rfl := List.sublist_nil.mp hw
      simp [Readable, readStrings]
    · intro i hi
      simp [start, new] at hi
  remote := ⟨fun _ => default, rfl⟩
  exchanged := by simp [start]

variable [DecidableEq ν] {getIndex : ν → ℕ} {l m : StringLink ν}

theorem write_agreed (hl : Agreed l) {strings : List ν}
    (hstep : l.step getIndex (.writePacket strings) = some m) : Agreed m := by
  obtain rfl := Option.some.inj hstep
  refine ⟨?_, hl.remote, hl.exchanged⟩
  simpa [pendingWrites] using hl.table.writeStrings getIndex strings

theorem deliver_agreed (hl : Agreed l) {skipped : ℕ}
    (hstep : l.step getIndex (.deliver skipped) = some m) : Agreed m := by
  simp only [step] at hstep
  cases hdrop : l.pending.drop skipped with
  | nil => simp [hdrop] at hstep
  | cons p rest =>
    simp only [hdrop, Option.some.injEq] at hstep
    subst hstep
    have hpending : l.pendingWrites = (l.pending.take skipped).flatMap StringPacket.writes ++
        (p.writes ++ rest.flatMap StringPacket.writes) := by
      conv_lhs => rw [pendingWrites, ← List.take_append_drop skipped l.pending, hdrop]
      simp
    obtain ⟨hread, htable⟩ := (hpending ▸ hl.table).read
    obtain ⟨base, hbase⟩ := hl.remote
    constructor
    · rw [readStrings_remote]
      exact htable
    · refine ⟨base, ?_⟩
      have hskipped : ∀ v : List (StringPacket ν),
          readRecords (v.map (fun q => (q, false))) = [] := by
        intro v
        simp [readRecords, List.filter_eq_nil_iff.mpr]
      have hrecords : ∀ v w : List (StringPacket ν × Bool),
          readRecords (v ++ w) = readRecords v ++ readRecords w := by
        simp [readRecords]
      rw [readStrings_remote, rememberAll, hbase, hrecords, hrecords, hskipped]
      simp [readRecords, StringPacket.records]
    · intro e he
      obtain hold | hnew := List.mem_append.mp he
      · exact hl.exchanged e hold
      · exact hread e hnew

theorem notify_agreed (hl : Agreed l) (hcurrent : l.NotRecycled .notify)
    (hstep : l.step getIndex .notify = some m) : Agreed m := by
  obtain ⟨table, remote, settled, pending, exchanged⟩ := l
  simp only [step] at hstep
  match settled, pending, hstep with
  | [], p :: rest, hstep =>
    obtain rfl := Option.some.inj hstep
    exact ⟨hl.table.mono (List.sublist_append_right ..), hl.remote, hl.exchanged⟩
  | (p, false) :: rest, _, hstep =>
    obtain rfl := Option.some.inj hstep
    exact ⟨hl.table, hl.remote, hl.exchanged⟩
  | (p, true) :: rest, pending, hstep =>
    obtain rfl := Option.some.inj hstep
    obtain ⟨base, hbase⟩ := hl.remote
    dsimp only at hbase
    refine ⟨⟨hl.table.readable, ?_⟩, ?_, hl.exchanged⟩
    · intro i hi w hw
      obtain ⟨hstring, hconfirmed⟩ := packetReceived_spec (t := table) (stringList p.records) i
      dsimp only at hi ⊢
      rw [hstring]
      obtain hbefore | ⟨walk, hmem, hentry, hheld⟩ := hconfirmed hi
      · exact hl.table.confirmed i hbefore w hw
      · -- the entry still holds the string of a record in this packet
        obtain ⟨r, hr, hwalk⟩ := List.mem_filterMap.mp hmem
        obtain ⟨string, hrstring, rfl⟩ := Option.map_eq_some_iff.mp hwalk
        obtain ⟨before, after, hsplit⟩ := List.append_of_mem hr
        dsimp only at hentry hheld
        subst hentry
        obtain ⟨hlast, hpending⟩ := hcurrent p rest rfl before r after hsplit string hrstring hheld
        have hremote : remote r.index = string := by
          rw [hbase]
          have hrecords : readRecords ((p, true) :: rest) =
              before ++ r :: (after ++ readRecords rest) := by
            simp [readRecords, hsplit]
          rw [hrecords, List.foldl_append, List.foldl_cons, foldl_remember]
          have hr : remember (before.foldl remember base) r r.index = string := by
            simp [remember, hrstring]
          rw [hr]
          cases hopt : lastString r.index (after ++ readRecords rest) with
          | none => rfl
          | some other => exact hlast other hopt
        rw [rememberAll, foldl_remember, hremote, hheld]
        cases hopt : lastString r.index (w.map Prod.snd) with
        | none => rfl
        | some other =>
          have hother := List.mem_of_getLast? hopt
          obtain ⟨q, hq, hqstring⟩ := List.mem_filterMap.mp hother
          obtain ⟨hqmem, hqindex⟩ := List.mem_filter.mp hq
          obtain ⟨x, hx, rfl⟩ := List.mem_map.mp hqmem
          exact hpending x (hw.subset hx) (of_decide_eq_true hqindex) other hqstring
    · refine ⟨p.records.foldl remember base, ?_⟩
      rw [hbase]
      simp [readRecords]

/-- Every string is read as it was written, as long as no entry is confirmed that has been recycled
in between. -/
theorem exchanged_eq [Inhabited ν] {as : List (Action ν)}
    (run : Run (step getIndex) NotRecycled start as l) : ∀ e ∈ l.exchanged, e.1 = e.2 := by
  refine (run.invariant (I := Agreed) ?_ start_agreed).exchanged
  intro l a m hl hcurrent hstep
  cases a with
  | writePacket strings => exact write_agreed hl hstep
  | deliver skipped => exact deliver_agreed hl hstep
  | notify => exact notify_agreed hl hcurrent hstep

section runs

variable {t : ConnectionStringTable ℕ}

theorem start_ring : Ring (filled 0) 0 0 (new : ConnectionStringTable ℕ) where
  entries _ := rfl
  buckets i hi := absurd hi (Nat.not_lt_zero _)
  chains _ := rfl
  lru := by simp [new]

/-- Entry 0 gets string 1024, then string 2048 and, when all other entries have been used, string
1024 again. -/
def recycling : List (List ℕ) :=
  blocks 0 8 ++ [[2048]] ++ [block 1 127] ++ blocks 1 7 ++ [[1024]]

theorem recycling_states : ∃ (strings : Fin entryCount → ℕ) (u : ConnectionStringTable ℕ),
    States recycling new u ∧ strings 0 = 1024 ∧ Ring strings entryCount 1 u := by
  obtain ⟨t₁, hstates₁, hring₁⟩ := fill_blocks (j := 0) (m := 8) start_ring (by decide)
  have hwrap₁ : Ring (filled entryCount) entryCount 0 t₁ := hring₁.wrap
  obtain ⟨hrecord₂, hring₂⟩ := hwrap₁.miss (s := 2048) (by decide) (.inl (by decide))
    (by decide) (by decide)
  have hstates₂ := states_single (t := t₁) [2048] (by rw [writeStrings_cons, hrecord₂]; rfl)
  have hothers : ∀ i : Fin entryCount, 1 ≤ i.val →
      Function.update (filled entryCount) ⟨0, by decide⟩ 2048 i = 1024 + i.val := by
    intro i hi
    have hne : i ≠ ⟨0, by decide⟩ := fun h => by simp [h] at hi
    rw [Function.update_of_ne hne, filled, if_pos i.isLt]
  have hring₂' : Ring (Function.update (filled entryCount) ⟨0, by decide⟩ 2048) entryCount 1
      (writeStrings id t₁ [2048]).2 := hring₂
  obtain ⟨hrecords₃, hring₃⟩ := hring₂'.refresh (n := 127) (by decide) hothers
  obtain ⟨t₄, hstates₄, hring₄⟩ :=
    refresh_blocks (j := 1) (m := 7) hring₃ le_rfl (by decide) hothers
  have hwrap₄ : Ring (Function.update (filled entryCount) ⟨0, by decide⟩ 2048) entryCount 0 t₄ :=
    hring₄.wrap
  obtain ⟨hrecord₅, hring₅⟩ := hwrap₄.miss (s := 1024) (by decide) (.inl (by decide)) (by decide)
    (by simp)
  have hstates₅ := states_single (t := t₄) [1024] (by rw [writeStrings_cons, hrecord₅]; rfl)
  exact ⟨_, _, (((hstates₁.append hstates₂).append (states_single _ hrecords₃)).append
    hstates₄).append hstates₅, Function.update_self .., hring₅⟩

/-- Writing packets is a run. -/
theorem run_writePackets (l : StringLink ℕ) (packets : List (List ℕ)) :
    Run (step id) (fun _ _ => True) l (packets.map Action.writePacket) { l with
      table := (writePackets l.table packets).2
      pending := l.pending ++ (writePackets l.table packets).1 } := by
  induction packets generalizing l with
  | nil => simpa [writePackets] using Run.nil l
  | cons strings packets ih =>
    refine .cons trivial rfl ?_
    have hrest := ih { l with
      table := (writeStrings id l.table strings).2
      pending := l.pending ++ [⟨(writeStrings id l.table strings).1⟩] }
    rw [List.append_assoc] at hrest
    exact hrest

/-- A packet received leaves the chains alone. -/
theorem packetReceived_mHashTable (t : ConnectionStringTable ℕ) (note : List (PacketEntry ℕ)) :
    (t.packetReceived note).mHashTable = t.mHashTable := by
  induction note generalizing t with
  | nil => rfl
  | cons walk note ih =>
    refine (ih (t.confirm walk)).trans ?_
    unfold confirm
    split <;> rfl

theorem packetReceived_confirmed (t : ConnectionStringTable ℕ) (note : List (PacketEntry ℕ))
    (i : Fin entryCount) : ((t.packetReceived (⟨i, (t.mEntryTable i).string⟩ :: note)).mEntryTable
      i).receiveConfirmed = true := by
  have hkept : ∀ (t : ConnectionStringTable ℕ) (note : List (PacketEntry ℕ)),
      (t.mEntryTable i).receiveConfirmed = true →
        ((t.packetReceived note).mEntryTable i).receiveConfirmed = true := by
    intro t note
    induction note generalizing t with
    | nil => exact id
    | cons walk note ih =>
      intro h
      refine ih (t.confirm walk) ?_
      unfold confirm
      split
      · by_cases hi : i = walk.stringTableEntry <;> simp [hi, h]
      · exact h
  refine hkept (t.confirm ⟨i, (t.mEntryTable i).string⟩) note ?_
  simp [confirm]

/-- A confirmed entry is sent by its index. -/
theorem write_confirmed {t : ConnectionStringTable ℕ} {i : Fin entryCount} {s : ℕ}
    (hchain : t.mHashTable (hashIndex id s) = [i]) (hstring : (t.mEntryTable i).string = s)
    (hconfirmed : (t.mEntryTable i).receiveConfirmed = true) :
    (writeStrings id t [s]).1 = [(s, ⟨i, none⟩)] := by
  have hfind : t.find id s = some i := by simp [find, hchain, hstring]
  simp [writeStringTableEntry, sendEntry, hfind, pushBack, hconfirmed, writeStrings]

theorem step_deliver {l : StringLink ℕ} {n : ℕ} {p : StringPacket ℕ} {rest : List (StringPacket ℕ)}
    (h : l.pending.drop n = p :: rest) : l.step id (.deliver n) = some { l with
      mRemoteStringTable := (readStrings l.mRemoteStringTable p.writes).2
      settled := l.settled ++ (l.pending.take n).map (fun q => (q, false)) ++ [(p, true)]
      pending := rest
      exchanged := l.exchanged ++ (readStrings l.mRemoteStringTable p.writes).1 } := by
  simp [step, h]

theorem step_writePacket (l : StringLink ℕ) (strings : List ℕ) :
    l.step id (.writePacket strings) = some { l with
      table := (writeStrings id l.table strings).2
      pending := l.pending ++ [⟨(writeStrings id l.table strings).1⟩] } := rfl

theorem step_notify {l : StringLink ℕ} {p : StringPacket ℕ} {rest : List (StringPacket ℕ × Bool)}
    (h : l.settled = (p, true) :: rest) : l.step id .notify = some { l with
      table := l.table.packetReceived (stringList p.records)
      settled := rest } := by
  simp [step, h]

/-- A string that is confirmed between two packets. -/
theorem exchanged_eq_confirmed : ∃ (as : List (Action ℕ)) (l : StringLink ℕ),
    Run (step id) NotRecycled start as l ∧ l.exchanged.length = 2 ∧
      ∀ e ∈ l.exchanged, e.1 = e.2 := by
  obtain ⟨l, run, hlength⟩ : ∃ l : StringLink ℕ, Run (step id) NotRecycled start
      [.writePacket [1024], .deliver 0, .notify, .writePacket [1024], .deliver 0] l ∧
        l.exchanged.length = 2 := by
    refine ⟨_, .cons trivial (step_writePacket _ [1024]) (.cons trivial (step_deliver rfl)
      (.cons ?_ (step_notify rfl) (.cons trivial (step_writePacket _ [1024])
        (.cons trivial (step_deliver rfl) (.nil _))))),
          by simp [start, readStrings, writeStrings]⟩
    intro p rest hsettled before r after hrecords string hstring hheld
    obtain ⟨hp, rfl⟩ := List.cons.inj hsettled
    obtain rfl := (Prod.mk.inj hp).1
    have hafter : after = [] := by
      have hlength := congrArg List.length hrecords
      simp only [StringPacket.records, writeStrings, List.length_map, List.length_append,
        List.length_cons, List.length_nil] at hlength
      exact List.length_eq_zero_iff.mp (by omega)
    subst hafter
    refine ⟨?_, ?_⟩
    · simp [lastString, readRecords]
    · simp [pendingWrites]
  exact ⟨_, l, run, hlength, exchanged_eq run⟩

/-- The first packet confirms entry 0 for string 1024, although the peer has read string 2048 for it
and the packet that gives it string 1024 again is lost. -/
theorem recycled_confirmed :
    ¬ ∀ (as : List (Action ℕ)) (l : StringLink ℕ), Run (step id) (fun _ _ => True) start as l →
      ∀ e ∈ l.exchanged, e.1 = e.2 := by
  intro claim
  obtain ⟨strings, u, hstates, hzero, hring⟩ := recycling_states
  have htable : writePackets (start : StringLink ℕ).table recycling =
    (recycling.map (fun p => ⟨p.map stated⟩), u) := hstates
  have hrecycling : recycling = block 0 128 :: (blocks 1 7 ++
      [2048] :: (block 1 127 :: (blocks 1 7 ++ [[1024]]))) := rfl
  have run := run_writePackets start recycling
  rw [htable, hrecycling] at run
  have hnote : stringList (StringPacket.mk ((block 0 128).map stated)).records =
      ⟨0, (u.mEntryTable 0).string⟩ ::
        stringList (StringPacket.mk ((block 1 127).map stated)).records := by
    rw [hring.entries, hzero]
    rfl
  have hwritten : (writeStrings id (u.packetReceived (stringList (StringPacket.mk
      ((block 0 128).map stated)).records)) [1024]).1 = [(1024, ⟨0, none⟩)] := by
    refine write_confirmed ?_ ?_ ?_
    · rw [packetReceived_mHashTable, hring.chains]
      rfl
    · rw [(packetReceived_spec _ 0).1, hring.entries, hzero]
    · rw [hnote]
      exact packetReceived_confirmed u _ 0
  have hread : ∀ remote : Fin entryCount → ℕ, (readStrings (readStrings remote
      ([2048].map stated)).2 [(1024, ⟨0, none⟩)]).1 = [(1024, 2048)] := fun _ => rfl
  have run₁ := run.snoc trivial (step_deliver (n := 0) rfl)
  dsimp only at run₁
  have run₂ := run₁.snoc trivial (step_deliver (n := 7) rfl)
  dsimp only at run₂
  have run₃ := run₂.snoc trivial (step_notify rfl)
  dsimp only at run₃
  have run₄ := run₃.snoc trivial (step_writePacket _ [1024])
  dsimp only at run₄
  rw [hwritten] at run₄
  have run₅ := run₄.snoc trivial (step_deliver (n := 9) rfl)
  dsimp only at run₅
  rw [hread] at run₅
  have lost := claim _ _ run₅ (1024, 2048) (List.mem_append_right _ List.mem_cons_self)
  exact absurd lost (by decide)

end runs

end StringLink

end TNL
