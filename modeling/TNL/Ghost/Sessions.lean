import TNL.Ghost.GhostLink
import TNL.Ghost.Sound

/-!
# Ghosting sessions

The server only ghosts while the client is in the same session. The end of a
session is posted after all of its records were written and is processed before
the start of the next one, so the records of a session reach the client before
its end or not at all.
-/
namespace TNL
open Library

namespace GhostServer

variable {traits : ObjectTraits} {s t : GhostServer}

section ghosting

theorem foldl_mGhosting {β : Type*} {f : GhostServer → β → GhostServer}
    (hf : ∀ s x, (f s x).mGhosting = s.mGhosting) (xs : List β) (s : GhostServer) :
    (xs.foldl f s).mGhosting = s.mGhosting := by
  induction xs generalizing s with
  | nil => rfl
  | cons x xs ih => rw [List.foldl_cons, ih, hf]

@[simp] theorem setFlags_mGhosting (g : Ghost) (f : GhostFlags → GhostFlags) :
    (s.setFlags g f).mGhosting = s.mGhosting := rfl

@[simp] theorem addMask_mGhosting (g : Ghost) (bits : Mask) :
    (s.addMask g bits).mGhosting = s.mGhosting := by
  rw [addMask]
  split_ifs <;> rfl

@[simp] theorem detachObject_mGhosting (g : Ghost) :
    (s.detachObject traits g).mGhosting = s.mGhosting := by
  rcases detachObject_eq traits s g with ⟨table, heq⟩
  rw [heq]

@[simp] theorem freeGhostInfo_mGhosting (g : Ghost) :
    (s.freeGhostInfo g).mGhosting = s.mGhosting := by
  rw [freeGhostInfo]
  split_ifs <;> rfl

@[simp] theorem objectInScope_mGhosting (o : ℕ) :
    (s.objectInScope traits o).mGhosting = s.mGhosting := by
  rw [objectInScope]
  cases s.lookup traits o <;> dsimp only <;> split_ifs <;> rfl

theorem objectLocalScopeAlways_mGhosting (o : ℕ) :
    (s.objectLocalScopeAlways traits o).mGhosting = s.mGhosting := by
  rw [objectLocalScopeAlways]
  cases (s.objectInScope traits o).lookup traits o <;> simp

theorem objectLocalClearAlways_mGhosting (o : ℕ) :
    (s.objectLocalClearAlways traits o).mGhosting = s.mGhosting := by
  rw [objectLocalClearAlways]
  cases s.lookup traits o <;> rfl

theorem prepareWritePacket_mGhosting : s.prepareWritePacket.mGhosting = s.mGhosting := by
  apply foldl_mGhosting
  intro s g
  split_ifs <;> rfl

@[simp] theorem detachOutOfScope_mGhosting (i : ℕ) :
    (detachOutOfScope traits i s).mGhosting = s.mGhosting := by
  induction i generalizing s with
  | zero => rfl
  | succ i ih =>
    rw [detachOutOfScope, ih]
    split_ifs <;> simp

@[simp] theorem freeUnsent_mGhosting (i maxIndex : ℕ) :
    (freeUnsent i maxIndex s).2.mGhosting = s.mGhosting := by
  induction i generalizing s maxIndex with
  | zero => rfl
  | succ i ih =>
    rw [freeUnsent, ih]
    split_ifs <;> simp

@[simp] theorem writeRecord_mGhosting (g : Ghost) (leftOver : Mask) :
    (s.writeRecord g leftOver).mGhosting = s.mGhosting := by
  rw [writeRecord]
  split_ifs <;> rfl

@[simp] theorem writeRecords_mGhosting (i : ℕ) (leftOver : List Mask) (updateList : List ℕ) :
    (writeRecords i leftOver s updateList).1.mGhosting = s.mGhosting := by
  induction i generalizing s leftOver updateList with
  | zero => rfl
  | succ i ih =>
    cases leftOver with
    | nil =>
      rw [writeRecords]
      split_ifs
      · exact ih ..
      · rfl
    | cons mask leftOver =>
      rw [writeRecords]
      split_ifs
      · exact ih ..
      · exact (ih ..).trans (writeRecord_mGhosting ..)

theorem writePacket_mGhosting {scopeValid : Bool} {order : List Ghost} {leftOver : List Mask}
    (h : s.writePacket traits scopeValid order leftOver = some t) :
    t.mGhosting = s.mGhosting := by
  rw [writePacket] at h
  dsimp only at h
  split_ifs at h
  · rw [← Option.some.inj h]
    simp
  · rw [← Option.some.inj h]

@[simp] theorem unchain_mGhosting (r : ℕ) : (s.unchain r).mGhosting = s.mGhosting := by
  rw [unchain]
  split_ifs <;> rfl

theorem refDropped_mGhosting (s : GhostServer) (r : ℕ) :
    (s.refDropped r).mGhosting = s.mGhosting := by
  rw [refDropped]
  split_ifs <;> cases (s.refs r).ghostInfoFlags <;> simp

theorem refReceived_mGhosting (s : GhostServer) (r : ℕ) :
    (s.refReceived r).mGhosting = s.mGhosting := by
  rw [refReceived]
  cases (s.refs r).ghostInfoFlags <;> simp

theorem packetDropped_mGhosting (h : s.packetDropped = some t) : t.mGhosting = s.mGhosting := by
  rw [packetDropped] at h
  cases hqueue : s.notifyQueue with
  | nil => simp [hqueue] at h
  | cons note rest =>
    rw [hqueue] at h
    rw [← Option.some.inj h]
    exact foldl_mGhosting refDropped_mGhosting ..

theorem packetReceived_mGhosting (h : s.packetReceived = some t) : t.mGhosting = s.mGhosting := by
  rw [packetReceived] at h
  cases hqueue : s.notifyQueue with
  | nil => simp [hqueue] at h
  | cons note rest =>
    rw [hqueue] at h
    rw [← Option.some.inj h]
    exact foldl_mGhosting refReceived_mGhosting ..

theorem notify_mGhosting {acks : List Bool} (h : s.notify acks = some t) :
    t.mGhosting = s.mGhosting := by
  induction acks generalizing s with
  | nil => rw [← Option.some.inj h]
  | cons ack acks ih =>
    cases ack with
    | false =>
      rcases Option.bind_eq_some_iff.mp h with ⟨r, hdropped, hrest⟩
      exact (ih hrest).trans (packetDropped_mGhosting hdropped)
    | true =>
      rcases Option.bind_eq_some_iff.mp h with ⟨r, hreceived, hrest⟩
      exact (ih hrest).trans (packetReceived_mGhosting hreceived)

theorem resetGhosting_mGhosting : (s.resetGhosting traits).mGhosting = false := by
  rw [resetGhosting, clearGhostInfo]
  refine (foldl_mGhosting ?_ ..).trans rfl
  intro s g
  split_ifs <;> simp

theorem clearMask_mGhosting (bits : Mask) (s : GhostServer) (g : Ghost) :
    (s.clearMask bits g).mGhosting = s.mGhosting := by
  rw [clearMask]
  split_ifs <;> rfl

theorem clearMaskBits_mGhosting (o : ℕ) (bits : Mask) :
    (s.clearMaskBits o bits).mGhosting = s.mGhosting := by
  rw [clearMaskBits]
  refine (foldl_mGhosting (clearMask_mGhosting bits) ..).trans ?_
  split_ifs <;> rfl

theorem collapseObject_mGhosting (s : GhostServer) (o : ℕ) :
    (s.collapseObject o).mGhosting = s.mGhosting := by
  rw [collapseObject]
  split_ifs
  · rfl
  · exact foldl_mGhosting (fun _ _ => addMask_mGhosting ..) ..

theorem collapseDirtyList_mGhosting : s.collapseDirtyList.mGhosting = s.mGhosting :=
  foldl_mGhosting collapseObject_mGhosting ..

theorem destroy_mGhosting (o : ℕ) : (s.destroy traits o).mGhosting = s.mGhosting :=
  foldl_mGhosting (fun _ _ => detachObject_mGhosting ..) ..

/-- What the program calls between packets neither starts nor stops ghosting. -/
theorem call_mGhosting {a : Action} (hcall : a.isCall) (h : s.step traits a = some t) :
    t.mGhosting = s.mGhosting := by
  cases a <;> simp only [Action.isCall, Bool.false_eq_true] at hcall <;>
    simp only [step, Option.ite_none_right_eq_some, Option.some.injEq] at h
  case setMaskBits => rw [← h.2]; rfl
  case clearMaskBits => rw [← h.2, clearMaskBits_mGhosting]
  case collapseDirtyList => rw [← h, collapseDirtyList_mGhosting]
  case destroy => rw [← h.2, destroy_mGhosting]
  case objectInScope => rw [← h.2, objectInScope_mGhosting]
  case objectLocalScopeAlways => rw [← h.2, objectLocalScopeAlways_mGhosting]
  case objectLocalClearAlways => rw [← h.2, objectLocalClearAlways_mGhosting]
  case prepareWritePacket => rw [← h, prepareWritePacket_mGhosting]

end ghosting

section written

theorem writePacket_records {scopeValid : Bool} {order : List Ghost} {leftOver : List Mask}
    {note : GhostPacket} (h : s.writePacket traits scopeValid order leftOver = some t)
    (hnote : t.notifyQueue.getLast? = some note) (hrecords : t.records note ≠ []) :
    s.mGhosting = true := by
  rw [writePacket] at h
  dsimp only at h
  split_ifs at h with hghosting
  · exact (Bool.and_eq_true_iff.mp hghosting).1
  · rw [← Option.some.inj h, List.getLast?_concat, Option.some.injEq] at hnote
    rw [← hnote] at hrecords
    exact absurd rfl hrecords

end written

end GhostServer

namespace GhostLink

variable {traits : ObjectTraits} {l m : GhostLink}

/-- The client has processed the start of a session. -/
def Started (l : GhostLink) (sequence : U32) : Prop :=
  ∃ n < l.toClient.processed, l.toClient.posted[n]? = some (.rpcStartGhosting sequence)

/-- A session that has not ended, or whose end was posted with number `n` or later. -/
def Current (l : GhostLink) (session : U32) (n : ℕ) : Prop :=
  session = l.mGhostingSequence ∧ l.server.mGhosting = true ∨
    ∃ k, n ≤ k ∧ l.toClient.posted[k]? = some .rpcEndGhosting

/-- The sequence numbers do not wrap around, and ghosting is not activated while it is on. -/
def SeparatesSessions (l : GhostLink) : Action → Prop
  | .activateGhosting =>
    l.server.mGhosting = false ∧ l.mGhostingSequence.toNat + 1 < 2 ^ 32
  | .resetGhosting => l.mGhostingSequence.toNat + 1 < 2 ^ 32
  | _ => True

structure SessionSound (l : GhostLink) : Prop where
  toClient : l.toClient.Sound
  starts_le : ∀ (n : ℕ) (s : U32), l.toClient.posted[n]? = some (.rpcStartGhosting s) →
    s.toNat ≤ l.mGhostingSequence.toNat
  last : ∀ n : ℕ, l.toClient.posted[n]? = some (.rpcStartGhosting l.mGhostingSequence) →
    n + 1 = l.toClient.posted.length
  answered : ∀ s ∈ l.toServer.posted, l.Started s
  started : l.server.mGhosting = true → l.Started l.mGhostingSequence
  packets : ∀ p ∈ l.toClient.packets, p.payload.records ≠ [] → l.Current p.payload.session p.posted
  ghosts : ∀ i x, l.mLocalGhosts i = some x → l.Current x.session l.toClient.processed

theorem start_sessionSound (alive : ℕ → Bool) : (start alive).SessionSound := by
  constructor <;> simp [start, Channel.empty, GhostServer.new]
  exact Channel.empty_sound

/-- Sessions do not depend on the rest of the server. -/
theorem SessionSound.withServer (h : l.SessionSound) {s : GhostServer}
    (hs : s.mGhosting = l.server.mGhosting) : SessionSound { l with server := s } := by
  have hcurrent : ∀ session n, l.Current session n → Current { l with server := s } session n := by
    intro session n hcurrent
    rwa [Current, hs]
  constructor
  · exact h.toClient
  · exact h.starts_le
  · exact h.last
  · exact h.answered
  · exact fun hghosting => h.started (hs ▸ hghosting)
  · exact fun p hp hrecords => hcurrent _ _ (h.packets p hp hrecords)
  · exact fun i x hx => hcurrent _ _ (h.ghosts i x hx)

theorem toNat_add_one {a : U32} (h : a.toNat + 1 < 2 ^ 32) : (a + 1).toNat = a.toNat + 1 := by
  rw [BitVec.toNat_add]
  exact Nat.mod_eq_of_lt h

section growth

theorem getElem?_of_prefix {α : Type*} {xs ys : List α} (h : xs <+: ys) {n : ℕ} {a : α}
    (hn : xs[n]? = some a) : ys[n]? = some a := by
  rcases h with ⟨more, rfl⟩
  rcases List.getElem?_eq_some_iff.mp hn with ⟨hlt, -⟩
  rwa [List.getElem?_append_left hlt]

theorem Started.mono {sequence : U32} (h : l.Started sequence)
    (hprocessed : l.toClient.processed ≤ m.toClient.processed)
    (hposted : l.toClient.posted <+: m.toClient.posted) : m.Started sequence := by
  rcases h with ⟨n, hn, hget⟩
  exact ⟨n, hn.trans_le hprocessed, getElem?_of_prefix hposted hget⟩

theorem Current.mono {session : U32} {n : ℕ} (h : l.Current session n)
    (hsequence : m.mGhostingSequence = l.mGhostingSequence)
    (hghosting : l.server.mGhosting = true → m.server.mGhosting = true)
    (hposted : l.toClient.posted <+: m.toClient.posted) : m.Current session n := by
  rcases h with ⟨hsession, hon⟩ | ⟨k, hk, hget⟩
  · exact .inl ⟨hsession.trans hsequence.symm, hghosting hon⟩
  · exact .inr ⟨k, hk, getElem?_of_prefix hposted hget⟩

end growth

theorem activate_sessionSound (h : l.SessionSound) (hoff : l.server.mGhosting = false)
    (hwrap : l.mGhostingSequence.toNat + 1 < 2 ^ 32) : l.activateGhosting.SessionSound := by
  have hsequence := toNat_add_one hwrap
  have hposted : l.toClient.posted <+: l.activateGhosting.toClient.posted := List.prefix_append ..
  have hlength : l.activateGhosting.toClient.posted.length = l.toClient.posted.length + 1 :=
    List.length_append
  have hcurrent : ∀ session n, l.Current session n → l.activateGhosting.Current session n := by
    intro session n hcurrent
    rcases hcurrent with ⟨-, hon⟩ | ⟨k, hk, hget⟩
    · rw [hoff] at hon
      cases hon
    · exact .inr ⟨k, hk, getElem?_of_prefix hposted hget⟩
  constructor
  · exact h.toClient.post _
  · intro n s hget
    change s.toNat ≤ (l.mGhostingSequence + 1).toNat
    change (l.toClient.post _).posted[n]? = _ at hget
    rw [Channel.getElem?_post] at hget
    split_ifs at hget
    · simp only [Option.some.injEq, GhostingRPC.rpcStartGhosting.injEq] at hget
      rw [hget]
    · have := h.starts_le n s hget
      omega
  · intro n hget
    rw [hlength]
    change (l.toClient.post _).posted[n]? = some (.rpcStartGhosting (l.mGhostingSequence + 1)) at hget
    rw [Channel.getElem?_post] at hget
    split_ifs at hget with hn
    · rw [hn]
    · have := h.starts_le n _ hget
      omega
  · exact fun s hs => (h.answered s hs).mono le_rfl hposted
  · intro hon
    change l.server.mGhosting = true at hon
    rw [hoff] at hon
    cases hon
  · exact fun p hp hrecords => hcurrent _ _ (h.packets p hp hrecords)
  · exact fun i x hx => hcurrent _ _ (h.ghosts i x hx)

/-- The end of a session is posted once the server does not ghost any more. -/
theorem reset_sessionSound (h : l.SessionSound) {s : GhostServer} (hoff : s.mGhosting = false)
    (hwrap : l.mGhostingSequence.toNat + 1 < 2 ^ 32) : SessionSound { l with
      server := s
      mGhostingSequence := l.mGhostingSequence + 1
      toClient := l.toClient.post .rpcEndGhosting } := by
  have hsequence := toNat_add_one hwrap
  have hposted : l.toClient.posted <+: (l.toClient.post .rpcEndGhosting).posted :=
    List.prefix_append ..
  -- every record written so far is followed by the new end
  have hcurrent : ∀ session n, n ≤ l.toClient.posted.length →
      Current { l with
        server := s
        mGhostingSequence := l.mGhostingSequence + 1
        toClient := l.toClient.post .rpcEndGhosting } session n := by
    intro session n hn
    refine .inr ⟨l.toClient.posted.length, hn, ?_⟩
    change (l.toClient.post _).posted[_]? = _
    rw [Channel.getElem?_post, if_pos rfl]
  constructor
  · exact h.toClient.post _
  · intro n sequence hget
    change sequence.toNat ≤ (l.mGhostingSequence + 1).toNat
    change (l.toClient.post _).posted[n]? = _ at hget
    rw [Channel.getElem?_post] at hget
    split_ifs at hget
    · cases hget
    · have := h.starts_le n sequence hget
      omega
  · intro n hget
    change (l.toClient.post _).posted[n]? = some (.rpcStartGhosting (l.mGhostingSequence + 1)) at hget
    rw [Channel.getElem?_post] at hget
    split_ifs at hget
    · cases hget
    · have := h.starts_le n _ hget
      omega
  · exact fun sequence hs => (h.answered sequence hs).mono le_rfl hposted
  · intro hon
    change s.mGhosting = true at hon
    rw [hoff] at hon
    cases hon
  · exact fun p hp _ => hcurrent _ _ (h.toClient.posted_le p hp)
  · exact fun i x _ => hcurrent _ _ h.toClient.processed_le_length

theorem write_sessionSound (h : l.SessionSound) {scopeValid : Bool} {order : List Ghost}
    {leftOver : List Mask} {carried objects : List ℕ}
    (hstep : l.writePacket traits scopeValid order leftOver carried objects = some m) :
    m.SessionSound := by
  rw [writePacket] at hstep
  cases hs : l.server.writePacket traits scopeValid order leftOver with
  | none => simp [hs] at hstep
  | some s =>
    cases hnote : s.notifyQueue.getLast? with
    | none => simp [hs, hnote] at hstep
    | some note =>
      simp only [hs, hnote, Option.map_eq_some_iff] at hstep
      rcases hstep with ⟨c, hwrite, rfl⟩
      have hghosting := GhostServer.writePacket_mGhosting hs
      have hsound := h.toClient.write hwrite
      rw [Channel.write] at hwrite
      split_ifs at hwrite
      rw [Option.some.injEq] at hwrite
      subst hwrite
      have hserver := h.withServer hghosting
      constructor
      · exact hsound
      · exact h.starts_le
      · exact h.last
      · exact h.answered
      · exact hserver.started
      · intro p hp hrecords
        rcases List.mem_append.mp hp with hold | hnew
        · exact hserver.packets p hold hrecords
        · rw [List.mem_singleton.mp hnew] at hrecords ⊢
          exact .inl ⟨rfl, hghosting.trans (GhostServer.writePacket_records hs hnote hrecords)⟩
      · exact hserver.ghosts

/-- What the client does with the RPCs of a packet. -/
theorem foldl_process (messages : List GhostingRPC) (l : GhostLink) :
    ∃ answers, messages.foldl process l = { l with
        mLocalGhosts := if .rpcEndGhosting ∈ messages then fun _ => none else l.mLocalGhosts
        toServer := { l.toServer with posted := l.toServer.posted ++ answers } } ∧
      ∀ s ∈ answers, .rpcStartGhosting s ∈ messages := by
  induction messages generalizing l with
  | nil => exact ⟨[], by simp, by simp⟩
  | cons message messages ih =>
    rcases ih (l.process message) with ⟨answers, heq, hanswers⟩
    rw [List.foldl_cons, heq]
    cases message with
    | rpcStartGhosting sequence =>
      refine ⟨sequence :: answers, ?_, ?_⟩
      · simp [process, Channel.post]
      · intro s hs
        rcases List.mem_cons.mp hs with rfl | hs
        · exact List.mem_cons_self
        · exact List.mem_cons_of_mem _ (hanswers s hs)
    | rpcEndGhosting =>
      refine ⟨answers, ?_, fun s hs => List.mem_cons_of_mem _ (hanswers s hs)⟩
      simp [process]

/-- A ghost read from a packet is one the client had or one of the packet's session. -/
theorem foldl_readRecord {session : U32} {idSize : ℕ} {records : List GhostRecord}
    {ghosts : ℕ → Option LocalGhost} {i : ℕ} {x : LocalGhost}
    (hx : records.foldl (readRecord session idSize) ghosts i = some x) :
    ghosts i = some x ∨ x.session = session ∧ records ≠ [] := by
  induction records generalizing ghosts with
  | nil => exact .inl hx
  | cons r records ih =>
    rw [List.foldl_cons] at hx
    rcases ih hx with hread | ⟨hsession, -⟩
    · rw [readRecord] at hread
      split_ifs at hread with hkill
      · by_cases hi : i = r.index % 2 ^ idSize
        · subst hi
          simp at hread
        · rw [Function.update_of_ne hi] at hread
          exact .inl hread
      · cases hold : ghosts (r.index % 2 ^ idSize) with
        | some y =>
          rw [hold] at hread
          exact .inl hread
        | none =>
          rw [hold] at hread
          by_cases hi : i = r.index % 2 ^ idSize
          · subst hi
            simp only [Function.update_self, Option.some.injEq] at hread
            exact .inr ⟨by rw [← hread], List.cons_ne_nil _ _⟩
          · simp only [Function.update_of_ne hi] at hread
            exact .inl hread
    · exact .inr ⟨hsession, List.cons_ne_nil _ _⟩

theorem deliverToClient_sessionSound (h : l.SessionSound) (index : ℕ) :
    (l.deliverToClient index).SessionSound := by
  rw [deliverToClient]
  cases hp : l.toClient.deliverable index with
  | none => exact h
  | some p =>
    have hmem := List.mem_of_getElem? (Channel.deliverable_iff.mp hp).2
    have hle := Channel.processed_le l.toClient index p
    have hposted := h.toClient.accept_processed_le hp
    rcases foldl_process (l.toClient.messages index p) { l with
      toClient := l.toClient.accept index p
      fates := l.fates ++ List.replicate (index - l.toClient.expected) false ++ [true]
      unpacked := l.unpacked ++ unpack l.resolveGhost p.payload.rpcs } with
      ⟨answers, heq, hanswers⟩
    dsimp only
    rw [heq]
    -- ghosts that outlive the packet's RPCs belong to a session that still lasts for the client
    have hkept : ∀ i x, (if .rpcEndGhosting ∈ l.toClient.messages index p then fun _ => none
        else l.mLocalGhosts) i = some x →
          l.Current x.session (l.toClient.accept index p).processed := by
      intro i x hx
      split_ifs at hx with hend
      rcases h.ghosts i x hx with hcurrent | ⟨k, hk, hget⟩
      · exact .inl hcurrent
      · refine .inr ⟨k, ?_, hget⟩
        by_contra hlt
        exact hend (Channel.mem_messages.mpr ⟨k, hk, not_le.mp hlt, hget⟩)
    constructor
    · exact h.toClient.accept hp
    · exact h.starts_le
    · exact h.last
    · intro s hs
      rcases List.mem_append.mp hs with hold | hnew
      · exact (h.answered s hold).mono hle (List.prefix_refl _)
      · rcases Channel.mem_messages.mp (hanswers s hnew) with ⟨n, -, hn, hget⟩
        exact ⟨n, hn, hget⟩
    · exact fun hon => (h.started hon).mono hle (List.prefix_refl _)
    · exact h.packets
    · intro i x hx
      rcases foldl_readRecord hx with hold | ⟨hsession, hrecords⟩
      · exact hkept i x hold
      · rcases h.packets p hmem hrecords with ⟨hnow, hon⟩ | ⟨k, hk, hget⟩
        · exact .inl ⟨hsession.trans hnow, hon⟩
        · exact .inr ⟨k, hposted.trans hk, hget⟩

/-- Readiness RPCs turn ghosting on if one of them has the current sequence. -/
theorem foldl_ready (sequences : List U32) (l : GhostLink) :
    sequences.foldl rpcReadyForNormalGhosts l = { l with
      server := { l.server with
        mGhosting := l.server.mGhosting || decide (l.mGhostingSequence ∈ sequences) } } := by
  induction sequences generalizing l with
  | nil => simp
  | cons sequence sequences ih =>
    rw [List.foldl_cons, ih, rpcReadyForNormalGhosts]
    by_cases hequal : sequence = l.mGhostingSequence
    · simp [hequal]
    · simp [hequal, Ne.symm hequal]

theorem deliverToServer_sessionSound (h : l.SessionSound) {index : ℕ}
    (hstep : l.deliverToServer index = some m) : m.SessionSound := by
  rw [deliverToServer] at hstep
  cases hp : l.toServer.deliverable index with
  | none =>
    rw [hp, Option.some.injEq] at hstep
    exact hstep ▸ h
  | some p =>
    simp only [hp, Option.map_eq_some_iff] at hstep
    rcases hstep with ⟨s, hnotify, rfl⟩
    rw [foldl_ready]
    have hghosting := GhostServer.notify_mGhosting hnotify
    have hon : l.server.mGhosting = true → (s.mGhosting ||
        decide (l.mGhostingSequence ∈ l.toServer.messages index p)) = true := by
      intro hon
      rw [hghosting, hon, Bool.true_or]
    constructor
    · exact h.toClient
    · exact h.starts_le
    · exact h.last
    · exact h.answered
    · intro hnow
      rcases Bool.or_eq_true_iff.mp hnow with hbefore | hready
      · exact h.started (hghosting ▸ hbefore)
      · rcases Channel.mem_messages.mp (of_decide_eq_true hready) with ⟨n, -, -, hget⟩
        exact h.answered _ (List.mem_of_getElem? hget)
    · exact fun q hq hrecords => (h.packets q hq hrecords).mono rfl hon (List.prefix_refl _)
    · exact fun i x hx => (h.ghosts i x hx).mono rfl hon (List.prefix_refl _)

theorem step_sessionSound {a : Action} (h : l.SessionSound) (hguard : l.SeparatesSessions a)
    (hstep : l.step traits a = some m) : m.SessionSound := by
  cases a with
  | call a =>
    simp only [step, Option.ite_none_right_eq_some, Option.map_eq_some_iff] at hstep
    rcases hstep with ⟨hcall, s, hs, rfl⟩
    exact h.withServer (GhostServer.call_mGhosting hcall hs)
  | activateGhosting =>
    rw [← Option.some.inj hstep]
    exact activate_sessionSound h hguard.1 hguard.2
  | resetGhosting =>
    rw [← Option.some.inj hstep, GhostLink.resetGhosting]
    exact reset_sessionSound h GhostServer.resetGhosting_mGhosting hguard
  | writePacket => exact write_sessionSound h hstep
  | clientWritePacket carried ghosts =>
    simp only [step, clientWritePacket, Option.map_eq_some_iff] at hstep
    rcases hstep with ⟨c, hwrite, rfl⟩
    rw [Channel.write] at hwrite
    split_ifs at hwrite
    rw [← Option.some.inj hwrite]
    exact { h with }
  | deliverToClient index =>
    rw [← Option.some.inj hstep]
    exact deliverToClient_sessionSound h index
  | deliverToServer index => exact deliverToServer_sessionSound h hstep

theorem sessionSound_of_run {alive : ℕ → Bool} {as : List Action}
    (run : Run (step traits) SeparatesSessions (start alive) as l) : l.SessionSound :=
  run.invariant (fun _ _ _ hs hguard hstep => step_sessionSound hs hguard hstep)
    (start_sessionSound alive)

/-- The session that the client has started and that has not been reset is the one opened last. -/
theorem SessionSound.getLast_posted (h : l.SessionSound)
    (hstarted : l.Started l.mGhostingSequence) :
    l.toClient.posted.getLast? = some (.rpcStartGhosting l.mGhostingSequence) := by
  rcases hstarted with ⟨n, -, hget⟩
  rw [List.getLast?_eq_getElem?, ← h.last n hget, Nat.add_sub_cancel]
  exact hget

/-- Only readiness RPCs turn ghosting on. -/
theorem step_mGhosting {a : Action} (hstep : l.step traits a = some m)
    (hoff : l.server.mGhosting = false) (hon : m.server.mGhosting = true) :
    ∃ n, l.toServer.processed ≤ n ∧ n < m.toServer.processed ∧
      l.toServer.posted[n]? = some l.mGhostingSequence := by
  have hsame : m.server.mGhosting ≠ l.server.mGhosting := by
    rw [hoff, hon]
    decide
  cases a with
  | call a =>
    simp only [step, Option.ite_none_right_eq_some, Option.map_eq_some_iff] at hstep
    rcases hstep with ⟨hcall, s, hs, rfl⟩
    exact absurd (GhostServer.call_mGhosting hcall hs) hsame
  | activateGhosting =>
    rw [← Option.some.inj hstep] at hsame
    exact absurd rfl hsame
  | resetGhosting =>
    rw [← Option.some.inj hstep, GhostLink.resetGhosting] at hon
    rw [GhostServer.resetGhosting_mGhosting] at hon
    cases hon
  | writePacket scopeValid order leftOver carried objects =>
    simp only [step, writePacket] at hstep
    cases hs : l.server.writePacket traits scopeValid order leftOver with
    | none => simp [hs] at hstep
    | some s =>
      cases hnote : s.notifyQueue.getLast? with
      | none => simp [hs, hnote] at hstep
      | some note =>
        simp only [hs, hnote, Option.map_eq_some_iff] at hstep
        rcases hstep with ⟨c, -, rfl⟩
        exact absurd (GhostServer.writePacket_mGhosting hs) hsame
  | clientWritePacket carried ghosts =>
    simp only [step, clientWritePacket, Option.map_eq_some_iff] at hstep
    rcases hstep with ⟨c, -, rfl⟩
    exact absurd rfl hsame
  | deliverToClient index =>
    rw [← Option.some.inj hstep, deliverToClient] at hsame
    cases hp : l.toClient.deliverable index with
    | none =>
      rw [hp] at hsame
      exact absurd rfl hsame
    | some p =>
      rw [hp] at hsame
      rcases foldl_process (l.toClient.messages index p) { l with
        toClient := l.toClient.accept index p
        fates := l.fates ++ List.replicate (index - l.toClient.expected) false ++ [true]
        unpacked := l.unpacked ++ unpack l.resolveGhost p.payload.rpcs } with ⟨answers, heq, -⟩
      dsimp only at hsame
      rw [heq] at hsame
      exact absurd rfl hsame
  | deliverToServer index =>
    simp only [step, deliverToServer] at hstep
    cases hp : l.toServer.deliverable index with
    | none =>
      rw [hp, Option.some.injEq] at hstep
      rw [hstep] at hsame
      exact absurd rfl hsame
    | some p =>
      simp only [hp, Option.map_eq_some_iff] at hstep
      rcases hstep with ⟨s, hnotify, rfl⟩
      rw [foldl_ready] at hon ⊢
      have hready : (s.mGhosting ||
          decide (l.mGhostingSequence ∈ l.toServer.messages index p)) = true := hon
      rw [GhostServer.notify_mGhosting hnotify, hoff, Bool.false_or] at hready
      exact Channel.mem_messages.mp (of_decide_eq_true hready)

/-- While the server ghosts, the client has started the session and has only ghosts of it. Ghosting
is turned on by the readiness of the session opened last. -/
theorem ghosting_in_session {alive : ℕ → Bool} {as : List Action}
    (run : Run (step traits) SeparatesSessions (start alive) as l) :
    (l.server.mGhosting = true → l.Started l.mGhostingSequence ∧
      ∀ i x, l.mLocalGhosts i = some x → x.session = l.mGhostingSequence) ∧
    ∀ a m, l.step traits a = some m → l.server.mGhosting = false → m.server.mGhosting = true →
      (∃ n, l.toServer.processed ≤ n ∧ n < m.toServer.processed ∧
        l.toServer.posted[n]? = some l.mGhostingSequence) ∧
      l.toClient.posted.getLast? = some (.rpcStartGhosting l.mGhostingSequence) := by
  have h := sessionSound_of_run run
  constructor
  · intro hon
    have hstarted := h.started hon
    refine ⟨hstarted, ?_⟩
    intro i x hx
    rcases h.ghosts i x hx with ⟨hsession, -⟩ | ⟨k, hk, hend⟩
    · exact hsession
    · -- the start is the last RPC, so no end is still to be processed
      rcases hstarted with ⟨n, hn, hget⟩
      have hlast := h.last n hget
      rcases List.getElem?_eq_some_iff.mp hend with ⟨hlt, -⟩
      omega
  · intro a m hstep hoff hon
    have hready := step_mGhosting hstep hoff hon
    refine ⟨hready, ?_⟩
    rcases hready with ⟨n, -, -, hget⟩
    exact h.getLast_posted (h.answered _ (List.mem_of_getElem? hget))

/-- Hand over the first RPC of the server and the answer. -/
def handOver : List Action :=
  [.writePacket true [] [] [0] [], .deliverToClient 0, .clientWritePacket [0] [],
    .deliverToServer 0]

/-- One object comes into scope, and its ghost reaches the client. -/
def ghostOne : List Action :=
  [.call (.objectInScope 0), .writePacket true [GhostArray.new.mGhostArray 0] [0] [] [], .deliverToClient 1]

theorem ghosting_in_session_one : ∃ l : GhostLink, l.server.mGhosting = true ∧
    l.mLocalGhosts 0 = some ⟨some 0, 1⟩ ∧ l.Started l.mGhostingSequence ∧
      ∀ i x, l.mLocalGhosts i = some x → x.session = l.mGhostingSequence := by
  have hreached : (exec (step .plain) (start fun _ => true)
      (.activateGhosting :: (handOver ++ ghostOne))).map
        (fun l => (l.server.mGhosting, l.mLocalGhosts 0)) = some (true, some ⟨some 0, 1⟩) := by
    decide +kernel
  obtain ⟨l, hexec, hl⟩ := Option.map_eq_some_iff.mp hreached
  obtain ⟨hon, hghost⟩ := Prod.mk.inj hl
  have run : Run (step .plain) SeparatesSessions (start fun _ => true)
      (.activateGhosting :: (handOver ++ ghostOne)) l := by
    obtain ⟨r, hactivate, hrest⟩ := Option.bind_eq_some_iff.mp hexec
    refine .cons ⟨rfl, by decide⟩ hactivate (.of_exec_of_forall ?_ hrest)
    intro s a ha
    simp only [handOver, ghostOne, List.cons_append, List.nil_append, List.mem_cons,
      List.not_mem_nil, or_false] at ha
    rcases ha with rfl | rfl | rfl | rfl | rfl | rfl | rfl <;> trivial
  exact ⟨l, hon, hghost, (ghosting_in_session run).1 hon⟩

/-- When ghosting is activated again without a reset, it stays on in the new session. -/
theorem reactivated_ghosting :
    ¬ ∀ (traits : ObjectTraits) (alive : ℕ → Bool) (as : List Action) (l : GhostLink),
      Run (step traits) (fun _ _ => True) (start alive) as l → l.server.mGhosting = true →
        l.Started l.mGhostingSequence := by
  intro claim
  have hreached : (exec (step .plain) (start fun _ => true)
      (.activateGhosting :: (handOver ++ [.activateGhosting]))).map (fun l => (l.server.mGhosting,
        l.mGhostingSequence, l.toClient.processed, l.toClient.posted)) =
      some (true, 2, 1, [.rpcStartGhosting 1, .rpcStartGhosting 2]) := by decide +kernel
  obtain ⟨l, hexec, hl⟩ := Option.map_eq_some_iff.mp hreached
  simp only [Prod.mk.injEq] at hl
  rcases hl with ⟨hon, hsequence, hprocessed, hposted⟩
  rcases claim .plain _ _ l (.of_exec hexec) hon with ⟨n, hn, hget⟩
  rw [hprocessed] at hn
  obtain rfl : n = 0 := by omega
  rw [hposted, hsequence] at hget
  exact absurd hget (by decide)

end GhostLink

end TNL
