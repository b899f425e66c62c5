import TNL.Connection.BodyReading
import TNL.Event.Notes
import TNL.Library.Run

/-!
# Truncated bodies

The error flag is only looked at when the whole packet has been read, so events
and ghost records that are cut off by the end of the packet take effect. As long
as what takes effect lies inside its packet and the packet's last flag is not the
bit right behind its end, a packet that is read past its end is reported, and
reading always comes to an end.
-/
namespace TNL
open Library BitStream EventConnection

namespace BodyReading

variable {ε γ : Type*}

/-- Every event the packet is read as lies inside it, up to the first that is refused. -/
def EventsInside (P : EventParameters) (C : EventReaders ε γ) (fromServer : Bool) :
    ℕ → Bool → ReadStream → Prop
  | 0, _, _ => True
  | fuel + 1, unguaranteedPhase, s =>
    let (unguaranteedPhase, bit, s) := readPhase unguaranteedPhase s
    bit = true →
      let (event, s) := readEvent P C fromServer (if unguaranteedPhase then s else (readSeq 0 s).2)
      ∀ e ∈ event, e.2 = false ∧ EventsInside P C fromServer fuel unguaranteedPhase s

/-- A flag just read was not the bit right behind the end, unless an error has been noticed. -/
def EndsInside (failed : Bool) (s : ReadStream) : Prop :=
  failed = true ∨ s.stream.error = true ∨ s.stream.bitNum ≤ s.stream.maxReadBitNum

/-- Every ghost record with an effect lies inside the packet, and so does the flag at the end. -/
def GhostsInside (P : EventParameters) (G : GhostReaders γ) (idSize : ℕ) :
    ℕ → BodyReading ε γ → Prop
  | 0, _ => True
  | fuel + 1, r =>
    let (bit, s) := r.s.fresh.readFlag
    if bit then
      let (stop, next) := readGhost P G idSize { r with s := s }
      (next.acts = r.acts ∨ next.s.past = false) ∧
        (stop = false → GhostsInside P G idSize fuel { next with s := r.s.resume next.s })
    else EndsInside r.failed s

/-- The same for the ghost section as a whole. -/
def SectionInside (P : EventParameters) (G : GhostReaders γ) (doesGhostTo : Bool)
    (r : BodyReading ε γ) : Prop :=
  let s := if P.mDebugObjectSizes then (r.s.readInt 32).2 else r.s
  if doesGhostTo then
    let (bit, s) := s.readFlag
    if bit then
      let (idSize, s) := s.readInt 3
      GhostsInside P G (idSize + 3) (s.stream.maxReadBitNum + 2) { r with s := s }
    else EndsInside r.failed s
  else EndsInside r.failed s

variable {P : EventParameters} {C : EventReaders ε γ} {G : GhostReaders γ} {fromServer : Bool}

theorem readPhase_follows {s : ReadStream} (h : s.Tracks) (unguaranteedPhase : Bool) :
    s.Follows (readPhase unguaranteedPhase s).2.2 ∧
      ((readPhase unguaranteedPhase s).2.1 = true →
        s.stream.bitNum < (readPhase unguaranteedPhase s).2.2.stream.bitNum) := by
  obtain ⟨hfirst, hless⟩ := ReadStream.readFlag_follows h
  unfold readPhase
  dsimp only
  split_ifs with hswitch
  · obtain ⟨hsecond, hless'⟩ := ReadStream.readFlag_follows hfirst.tracks
    exact ⟨hfirst.trans hsecond, fun hbit => lt_of_le_of_lt hfirst.le (hless' hbit)⟩
  · exact ⟨hfirst, hless⟩

theorem readSeq_stream (prevSeq : ℤ) (s : ReadStream) : (readSeq prevSeq s).2 = (readSeq 0 s).2 := by
  unfold readSeq
  dsimp only
  split_ifs <;> rfl

theorem readSeq_follows {s : ReadStream} (h : s.Tracks) (prevSeq : ℤ) :
    s.Follows (readSeq prevSeq s).2 := by
  have hflag := (ReadStream.readFlag_follows h).1
  unfold readSeq
  dsimp only
  split_ifs
  · exact hflag
  · exact hflag.trans (ReadStream.readInt_follows hflag.tracks (by decide : 7 ≤ 32))

variable (P C fromServer) in
/-- An event that lies inside the packet leaves the stream in order; a refused one leaves it within
its bounds. -/
theorem readEvent_follows {s : ReadStream} (h : s.Tracks) :
    ((readEvent P C fromServer s).2.Bounded ∧
      (readEvent P C fromServer s).2.stream.maxReadBitNum = s.stream.maxReadBitNum) ∧
    ∀ e ∈ (readEvent P C fromServer s).1, e.2 = false → s.Follows (readEvent P C fromServer s).2 := by
  have hhole : s.Follows (if P.mDebugObjectSizes then (s.readInt bitStreamPosBitSize).2 else s) := by
    split_ifs
    · exact ReadStream.readInt_follows h (by decide)
    · exact h.follows
  unfold readEvent
  dsimp only
  generalize (if P.mDebugObjectSizes then (s.readInt bitStreamPosBitSize).2 else s) = t at hhole ⊢
  have hclass := hhole.trans (ReadStream.readInt_follows hhole.tracks P.classBitSize_le)
  split_ifs with hcount
  · exact ⟨⟨hclass.tracks.toBounded, hclass.limit⟩, by simp⟩
  · cases C.create (t.readInt P.mEventClassBitSize).1 with
    | none => exact ⟨⟨hclass.tracks.toBounded, hclass.limit⟩, by simp⟩
    | some direction =>
      dsimp only
      split_ifs with hlegal
      · set program := C.unpack (t.readInt P.mEventClassBitSize).1
        have hfresh := hclass.tracks.toBounded.fresh
        obtain ⟨hbounded, hlimit⟩ := program.run_bounded hfresh.toBounded
        refine ⟨⟨⟨hbounded.small, hbounded.bitNum_le⟩, hlimit.trans hclass.limit⟩, ?_⟩
        intro e he hinside
        obtain ⟨event, -, rfl⟩ := Option.map_eq_some_iff.mp he
        exact hclass.trans (.resume hclass.tracks (program.run_follows hfresh hinside))
      · exact ⟨⟨hclass.tracks.toBounded, hclass.limit⟩, by simp⟩

/-- What the event records leave when all of them lie inside the packet. -/
structure EventsRead (r r' : BodyReading ε γ) : Prop where
  bounded : r'.s.Bounded
  limit : r'.s.stream.maxReadBitNum = r.s.stream.maxReadBitNum
  tracks : r'.failed = false → r'.s.Tracks
  acts : r'.acts = r.acts
  processed : (∀ e ∈ r.processed, e.2 = false) → ∀ e ∈ r'.processed, e.2 = false
  waiting : (∀ n ∈ r.waiting.1 ++ r.waiting.2, n.mEvent.2 = false) →
    ∀ n ∈ r'.waiting.1 ++ r'.waiting.2, n.mEvent.2 = false

theorem EventsRead.trans {r r' r'' : BodyReading ε γ} (h : EventsRead r r')
    (k : EventsRead r' r'') : EventsRead r r'' :=
  ⟨k.bounded, k.limit.trans h.limit, k.tracks, k.acts.trans h.acts, k.processed ∘ h.processed,
    k.waiting ∘ h.waiting⟩

theorem readEvents_inside (next prevSeq : ℤ) {fuel : ℕ} {unguaranteedPhase : Bool}
    {r : BodyReading ε γ} (h : r.s.Tracks) (hfailed : r.failed = false)
    (hfuel : r.s.stream.maxReadBitNum + 1 < r.s.stream.bitNum + fuel)
    (inside : EventsInside P C fromServer fuel unguaranteedPhase r.s) :
    ∃ r', readEvents P C fromServer next fuel unguaranteedPhase prevSeq r = some r' ∧
      EventsRead r r' := by
  induction fuel generalizing unguaranteedPhase prevSeq r with
  | zero =>
    have := h.bitNum_le
    omega
  | succ fuel ih =>
    obtain ⟨hphase, hless⟩ := readPhase_follows h unguaranteedPhase
    rw [readEvents]
    rw [EventsInside] at inside
    generalize readPhase unguaranteedPhase r.s = phase at *
    obtain ⟨unordered, bit, s⟩ := phase
    dsimp only at *
    cases bit with
    | false =>
      exact ⟨_, rfl, hphase.tracks.toBounded, hphase.limit, fun _ => hphase.tracks, rfl, id, id⟩
    | true =>
      have hless := hless rfl
      have inside := inside rfl
      simp only [Bool.not_true, Bool.false_eq_true, if_false]
      -- the number of an ordered event comes first
      have hseq : s.Follows (if unordered then s else (readSeq 0 s).2) := by
        split_ifs
        · exact hphase.tracks.follows
        · exact readSeq_follows hphase.tracks 0
      have hstream : (if unordered = true then ((-1 : ℤ), s) else readSeq prevSeq s).2 =
          if unordered then s else (readSeq 0 s).2 := by
        split_ifs
        · rfl
        · exact readSeq_stream prevSeq s
      rw [hstream]
      generalize (if unordered then s else (readSeq 0 s).2) = t at hseq inside ⊢
      obtain ⟨⟨hbounded, hlimit⟩, hfollows⟩ := readEvent_follows P C fromServer hseq.tracks
      generalize readEvent P C fromServer t = decoded at *
      obtain ⟨event, u⟩ := decoded
      dsimp only at *
      have hfirst := hphase.trans hseq
      cases event with
      | none =>
        exact ⟨_, rfl, hbounded, hlimit.trans hfirst.limit, fun hok => absurd hok (by simp), rfl,
          id, id⟩
      | some event =>
        obtain ⟨hevent, inside⟩ := inside event rfl
        have hlast := hfollows event rfl hevent
        have hle := (hseq.trans hlast).le
        have hmax := (hfirst.trans hlast).limit
        dsimp only
        cases unordered with
        | true =>
          have hstep : EventsRead r ({ r with s := u }.process C event) := by
            refine ⟨hlast.tracks.toBounded, hmax, fun _ => hlast.tracks, rfl, ?_, id⟩
            intro hall e he
            rcases List.mem_append.mp he with hold | hnew
            · exact hall e hold
            · rw [List.mem_singleton.mp hnew]
              exact hevent
          obtain ⟨r', hr', hread⟩ := ih prevSeq (r := { r with s := u }.process C event)
            hlast.tracks hfailed (by simp only [process]; omega) inside
          exact ⟨r', hr', hstep.trans hread⟩
        | false =>
          have hstep : EventsRead r { r with
              s := u
              waiting := insertNote r.waiting ⟨event, completeSeq next (readSeq prevSeq s).1⟩ } := by
            refine ⟨hlast.tracks.toBounded, hmax, fun _ => hlast.tracks, rfl, id, ?_⟩
            intro hall n hn
            rcases mem_insertNote.mp hn with hold | rfl
            · exact hall n hold
            · exact hevent
          obtain ⟨r', hr', hread⟩ := ih (readSeq prevSeq s).1 (r := { r with
              s := u
              waiting := insertNote r.waiting ⟨event, completeSeq next (readSeq prevSeq s).1⟩ })
            hlast.tracks hfailed (by dsimp only; omega) inside
          exact ⟨r', hr', hstep.trans hread⟩

/-- What a ghost record does: it stops the loop only with an error, has at most one effect, and
leaves the stream in order unless its effect is cut off. -/
structure GhostRead (r : BodyReading ε γ) (stop : Bool) (r' : BodyReading ε γ) : Prop where
  stops : stop = true → r'.failed = true
  goesOn : stop = false → r'.failed = r.failed
  acts : r'.acts = r.acts ∨ ∃ index, r'.acts = r.acts ++ [⟨index, r'.s.past⟩]
  follows : (r'.acts = r.acts ∨ r'.s.past = false) → r.s.Follows r'.s
  processed : r'.processed = r.processed

theorem store_read {r : BodyReading ε γ} {s : ReadStream} (h : r.s.Follows s) (index : ℕ)
    (program : Reader (γ × Bool)) (failing : γ → Bool) :
    GhostRead r (r.store index (program.run s).1.1 (program.run s).2
        ((program.run s).1.2 || failing (program.run s).1.1)).1
      (r.store index (program.run s).1.1 (program.run s).2
        ((program.run s).1.2 || failing (program.run s).1.1)).2 := by
  refine ⟨id, fun hstop => ?_, .inr ⟨index, rfl⟩, fun hinside => ?_, rfl⟩
  · simp only [store] at hstop ⊢
    rw [hstop]
    exact (Bool.or_eq_false_iff.mp hstop).1.symm
  · rcases hinside with hsame | hpast
    · exact absurd hsame (by simp [store])
    · exact h.trans (program.run_follows h.tracks hpast)

theorem readGhost_read {r : BodyReading ε γ} (h : r.s.Tracks) {idSize : ℕ} (hid : idSize ≤ 32) :
    GhostRead r (readGhost P G idSize r).1 (readGhost P G idSize r).2 := by
  have hindex := ReadStream.readInt_follows h hid
  have hkill := hindex.trans (ReadStream.readFlag_follows hindex.tracks).1
  have hhole : r.s.Follows (if P.mDebugObjectSizes then
      (((r.s.readInt idSize).2.readFlag.2).readInt bitStreamPosBitSize).2
        else (r.s.readInt idSize).2.readFlag.2) := by
    split_ifs
    · exact hkill.trans (ReadStream.readInt_follows hkill.tracks (by decide))
    · exact hkill
  have hclass := hhole.trans (ReadStream.readInt_follows hhole.tracks G.classBitSize_le)
  unfold readGhost
  dsimp only
  generalize (if P.mDebugObjectSizes then
    (((r.s.readInt idSize).2.readFlag.2).readInt bitStreamPosBitSize).2
      else (r.s.readInt idSize).2.readFlag.2) = t at hhole hclass ⊢
  by_cases killGhost : (r.s.readInt idSize).2.readFlag.1 = true
  · rw [if_pos killGhost]
    cases r.mLocalGhosts (r.s.readInt idSize).1 with
    | none => exact ⟨fun hstop => absurd hstop (by simp), fun _ => rfl, .inl rfl, fun _ => hkill, rfl⟩
    | some obj =>
      exact ⟨fun hstop => absurd hstop (by simp), fun _ => rfl, .inr ⟨_, rfl⟩, fun _ => hkill, rfl⟩
  · rw [if_neg killGhost]
    cases r.mLocalGhosts (r.s.readInt idSize).1 with
    | none =>
      dsimp only
      by_cases hcount : (t.readInt G.classBitSize).1 ≥ G.classCount
      · rw [if_pos hcount]
        exact ⟨fun _ => rfl, fun hstop => absurd hstop (by simp), .inl rfl, fun _ => hclass, rfl⟩
      · rw [if_neg hcount]
        cases G.create (t.readInt G.classBitSize).1 with
        | none =>
          exact ⟨fun _ => rfl, fun hstop => absurd hstop (by simp), .inl rfl, fun _ => hclass, rfl⟩
        | some obj => exact store_read hclass _ (G.unpackUpdate obj true) fun obj => !G.onGhostAdd obj
    | some obj =>
      have hstore := store_read hhole (r.s.readInt idSize).1 (G.unpackUpdate obj false)
        fun _ => false
      simpa using hstore

theorem readGhosts_inside {idSize fuel : ℕ} {r : BodyReading ε γ} (hid : idSize ≤ 32)
    (h : r.s.Bounded) (hfuel : r.s.stream.maxReadBitNum + 1 < r.s.stream.bitNum + fuel)
    (hacts : ∀ a ∈ r.acts, a.cut = false) (inside : GhostsInside P G idSize fuel r) :
    ∃ r', readGhosts P G idSize fuel r = some r' ∧ r'.processed = r.processed ∧
      (∀ a ∈ r'.acts, a.cut = false) ∧ (r.failed = true → r'.failed = true) ∧
        (r'.failed = true ∨ (r.s.Tracks → r'.s.past = true → r'.s.stream.error = true)) := by
  induction fuel generalizing r with
  | zero =>
    have := h.bitNum_le
    omega
  | succ fuel ih =>
    obtain ⟨hflag, hless⟩ := ReadStream.readFlag_follows h.fresh
    rw [readGhosts]
    rw [GhostsInside] at inside
    cases hbit : r.s.fresh.readFlag.1 with
    | false =>
      simp only [hbit, Bool.false_eq_true, if_false, Bool.not_false, if_true] at inside ⊢
      refine ⟨_, rfl, rfl, hacts, id, ?_⟩
      rcases inside with hfailed | hends
      · exact .inl hfailed
      · refine .inr fun tracks hpast => ?_
        rcases (ReadStream.Follows.resume tracks hflag).tracks.noted hpast with herror | hbehind
        · exact herror
        · exact hends.resolve_right (Nat.not_le.mpr hbehind)
    | true =>
      have hless := hless hbit
      simp only [hbit, if_true, Bool.not_true, Bool.false_eq_true, if_false] at inside ⊢
      have hrecord := readGhost_read (P := P) (G := G) (r := { r with s := r.s.fresh.readFlag.2 })
        hflag.tracks hid
      generalize readGhost P G idSize { r with s := r.s.fresh.readFlag.2 } = outcome at *
      obtain ⟨stop, next⟩ := outcome
      dsimp only at *
      have hcut : ∀ a ∈ next.acts, a.cut = false := by
        rcases hrecord.acts with hsame | ⟨index, hacted⟩
        · rw [hsame]
          exact hacts
        · have hpast : next.s.past = false := inside.1.resolve_left (by simp [hacted])
          intro a ha
          rw [hacted] at ha
          rcases List.mem_append.mp ha with hold | hnew
          · exact hacts a hold
          · rw [List.mem_singleton.mp hnew]
            exact hpast
      have hfollows : r.s.fresh.Follows next.s := hflag.trans (hrecord.follows inside.1)
      cases stop with
      | true => 
        have hfailed := hrecord.stops rfl
        exact ⟨_, rfl, hrecord.processed, hcut, fun _ => hfailed, .inl hfailed⟩
      | false =>
        have hle := (hrecord.follows inside.1).le
        have hlimit := hfollows.limit
        obtain ⟨r', hr', hprocessed, hcut', hfailed, hreported⟩ :=
          ih (r := { next with s := r.s.resume next.s })
            ⟨hfollows.tracks.small, hfollows.tracks.bitNum_le⟩
            (by simp only [ReadStream.resume, ReadStream.fresh] at *; omega) hcut (inside.2 rfl)
        refine ⟨r', hr', hprocessed.trans hrecord.processed, hcut', ?_, hreported.imp id ?_⟩
        · exact fun h => hfailed ((hrecord.goesOn rfl).trans h)
        · exact fun hrest tracks => hrest (ReadStream.Follows.resume tracks hfollows).tracks

end BodyReading

namespace BodyReceiver
open BodyReading

variable {ε γ : Type*} {P : EventParameters} {C : EventReaders ε γ} {G : GhostReaders γ}
  {fromServer doesGhostTo : Bool} {r m : BodyReceiver ε γ}

/-- What takes effect in the packet lies inside it, and its last flag is not the bit right behind
its end. -/
def PacketInside (P : EventParameters) (C : EventReaders ε γ) (G : GhostReaders γ)
    (fromServer doesGhostTo : Bool) (r : BodyReceiver ε γ) (b : BodyStream) : Prop :=
  let s := if P.mDebugObjectSizes then (b.start.readInt 32).2 else b.start
  r.closed = true ∨
    (EventsInside P C fromServer (s.stream.maxReadBitNum + 2) true s ∧
      ∀ events ∈ r.readEventSection P C fromServer b.start,
        SectionInside P G doesGhostTo events.2.2)

/-- Nothing that took effect was cut off, and every packet read past its end was reported. -/
structure Sound (r : BodyReceiver ε γ) : Prop where
  processed : ∀ e ∈ r.processed, e.2 = false
  acts : ∀ a ∈ r.acts, a.cut = false
  reported : r.missed = false
  waiting : ∀ n ∈ r.mWaitSeqEvents, n.mEvent.2 = false

theorem start_sound (mLocalGhosts : ℕ → Option γ) : Sound (start (ε := ε) mLocalGhosts) := by
  constructor <;> simp [start]

theorem start_tracks (b : BodyStream) : b.start.Tracks := by
  refine ⟨⟨b.small, b.bitNum_le⟩, fun hpast => ?_⟩
  simpa [BodyStream.start] using hpast

theorem checksum_follows {s : ReadStream} (h : s.Tracks) :
    s.Follows (if P.mDebugObjectSizes then (s.readInt 32).2 else s) := by
  split_ifs
  · exact ReadStream.readInt_follows h le_rfl
  · exact h.follows

/-- Processing waiting events moves them from one list to the other. -/
theorem processWaiting_keeps (waiting : List (EventNote (ε × Bool))) (next : ℤ)
    (reading : BodyReading ε γ) :
    (processWaiting C waiting next reading).2.2.s = reading.s ∧
      (processWaiting C waiting next reading).2.2.acts = reading.acts ∧
      (processWaiting C waiting next reading).2.2.failed = reading.failed ∧
      ((∀ n ∈ waiting, n.mEvent.2 = false) →
        ∀ n ∈ (processWaiting C waiting next reading).1, n.mEvent.2 = false) ∧
      ((∀ n ∈ waiting, n.mEvent.2 = false) → (∀ e ∈ reading.processed, e.2 = false) →
        ∀ e ∈ (processWaiting C waiting next reading).2.2.processed, e.2 = false) := by
  induction waiting generalizing next reading with
  | nil => exact ⟨rfl, rfl, rfl, id, fun _ => id⟩
  | cons note notes ih =>
    rw [processWaiting]
    split_ifs with hturn
    · obtain ⟨hs, hacts, hfailed, hleft, hprocessed⟩ := ih (next + 1)
        (reading.process C note.mEvent)
      refine ⟨hs, hacts, hfailed, fun hall => ?_, fun hall hold => ?_⟩
      · exact hleft fun n hn => hall n (List.mem_cons_of_mem _ hn)
      · refine hprocessed (fun n hn => hall n (List.mem_cons_of_mem _ hn)) fun e he => ?_
        rcases List.mem_append.mp he with hold' | hnew
        · exact hold e hold'
        · rw [List.mem_singleton.mp hnew]
          exact hall note List.mem_cons_self
    · exact ⟨rfl, rfl, rfl, id, fun _ => id⟩

theorem readEventSection_inside (h : r.Sound) (b : BodyStream)
    (inside : EventsInside P C fromServer
      ((if P.mDebugObjectSizes then (b.start.readInt 32).2 else b.start).stream.maxReadBitNum + 2)
      true (if P.mDebugObjectSizes then (b.start.readInt 32).2 else b.start)) :
    ∃ waiting next reading, r.readEventSection P C fromServer b.start =
        some (waiting, next, reading) ∧ reading.s.Bounded ∧
      (reading.failed = false → reading.s.Tracks) ∧ (∀ n ∈ waiting, n.mEvent.2 = false) ∧
      (∀ e ∈ reading.processed, e.2 = false) ∧ reading.acts = r.acts := by
  have hchecksum := checksum_follows (P := P) (start_tracks b)
  unfold readEventSection
  dsimp only
  generalize (if P.mDebugObjectSizes then (b.start.readInt 32).2 else b.start) = s at *
  obtain ⟨reading, hreading, hread⟩ := readEvents_inside r.mNextRecvEventSeq (-2)
    (r := ⟨s, ([], r.mWaitSeqEvents), r.mLocalGhosts, r.processed, r.acts, false⟩)
    hchecksum.tracks rfl (by dsimp only; omega) inside
  have hwaiting := hread.waiting h.waiting
  have hprocessed := hread.processed h.processed
  rw [hreading]
  cases hfailed : reading.failed with
  | true =>
    exact ⟨_, r.mNextRecvEventSeq, reading, by simp [hfailed], hread.bounded, hread.tracks,
      hwaiting, hprocessed, hread.acts⟩
  | false =>
    obtain ⟨hs, hacts, -, hleft, hdone⟩ := processWaiting_keeps (C := C)
      (reading.waiting.1 ++ reading.waiting.2) r.mNextRecvEventSeq reading
    exact ⟨_, _, _, by simp only [Option.map_some, hfailed, Bool.false_eq_true, if_false]; rfl,
      hs ▸ hread.bounded, fun _ => hs ▸ hread.tracks hfailed, hleft hwaiting,
      hdone hwaiting hprocessed, hacts.trans hread.acts⟩

theorem readGhostSection_inside {reading : BodyReading ε γ} (h : reading.s.Bounded)
    (htracks : reading.failed = false → reading.s.Tracks)
    (hacts : ∀ a ∈ reading.acts, a.cut = false) (inside : SectionInside P G doesGhostTo reading) :
    ∃ final, readGhostSection P G doesGhostTo reading = some final ∧
      final.processed = reading.processed ∧ (∀ a ∈ final.acts, a.cut = false) ∧
        (final.failed = true ∨ (final.s.past = true → final.s.stream.error = true)) := by
  -- the bounds are kept from the start, the note only when no error has been set
  have hchecksum : (if P.mDebugObjectSizes then (reading.s.readInt 32).2 else reading.s).Bounded ∧
      (reading.s.Tracks →
        (if P.mDebugObjectSizes then (reading.s.readInt 32).2 else reading.s).Tracks) := by
    split_ifs
    · have hfresh := ReadStream.readInt_follows h.fresh (le_refl 32)
      exact ⟨⟨hfresh.tracks.small, hfresh.tracks.bitNum_le⟩,
        fun ht => (ReadStream.readInt_follows ht (le_refl 32)).tracks⟩
    · exact ⟨h, id⟩
  unfold readGhostSection
  unfold SectionInside at inside
  dsimp only at inside ⊢
  generalize (if P.mDebugObjectSizes then (reading.s.readInt 32).2 else reading.s) = s at *
  obtain ⟨hbounded, hs⟩ := hchecksum
  have ends : ∀ t : ReadStream, (s.Tracks → t.Tracks) → EndsInside reading.failed t →
      reading.failed = true ∨ (t.past = true → t.stream.error = true) := by
    intro t ht hends
    cases hfailed : reading.failed with
    | true => exact .inl rfl
    | false =>
      refine .inr fun hpast => ?_
      rcases (ht (hs (htracks hfailed))).noted hpast with herror | hbehind
      · exact herror
      · rw [hfailed] at hends
        exact (hends.resolve_left (by simp)).resolve_right (Nat.not_le.mpr hbehind)
  cases doesGhostTo with
  | false =>
    simp only [Bool.false_eq_true, if_false, Bool.not_false, if_true] at inside ⊢
    exact ⟨_, rfl, rfl, hacts, ends s id inside⟩
  | true =>
    simp only [if_true, Bool.not_true, Bool.false_eq_true, if_false] at inside ⊢
    have hflag := (ReadStream.readFlag_follows hbounded.fresh).1
    cases hbit : s.readFlag.1 with
    | false =>
      simp only [hbit, Bool.false_eq_true, if_false, Bool.not_false, if_true] at inside ⊢
      exact ⟨_, rfl, rfl, hacts,
        ends s.readFlag.2 (fun ht => (ReadStream.readFlag_follows ht).1.tracks) inside⟩
    | true =>
      simp only [hbit, if_true, Bool.not_true, Bool.false_eq_true, if_false] at inside ⊢
      have hsize := ReadStream.readInt_follows
        (ReadStream.Bounded.fresh (s := s.readFlag.2) ⟨hflag.tracks.small, hflag.tracks.bitNum_le⟩)
        (by decide : 3 ≤ 32)
      have hid : (s.readFlag.2.readInt 3).1 + 3 ≤ 32 := by
        have : (s.readFlag.2.readInt 3).1 < 2 ^ 3 :=
          readInt_lt s.readFlag.2.stream 3
        omega
      obtain ⟨final, hfinal, hprocessed, hcut, hkept, hreported⟩ := readGhosts_inside
        (r := { reading with s := (s.readFlag.2.readInt 3).2 }) hid
        ⟨hsize.tracks.small, hsize.tracks.bitNum_le⟩ (by dsimp only; omega) hacts inside
      refine ⟨final, hfinal, hprocessed, hcut, ?_⟩
      cases hfailed : reading.failed with
      | true => exact .inl (hkept hfailed)
      | false =>
        have ht := (ReadStream.readFlag_follows (hs (htracks hfailed))).1.tracks
        exact hreported.imp id fun hrest =>
          hrest (ReadStream.readInt_follows ht (by decide : 3 ≤ 32)).tracks

theorem step_sound (h : r.Sound) (b : BodyStream)
    (inside : PacketInside P C G fromServer doesGhostTo r b) :
    ∃ m, r.step P C G fromServer doesGhostTo b = some m ∧ m.Sound := by
  unfold step
  split_ifs with hclosed
  · exact ⟨r, rfl, h⟩
  · obtain ⟨hevents, hghosts⟩ := inside.resolve_left hclosed
    obtain ⟨waiting, next, reading, heq, hbounded, htracks, hwaiting, hprocessed, hacts⟩ :=
      readEventSection_inside h b hevents
    obtain ⟨final, hfinal, hsame, hcut, hreported⟩ := readGhostSection_inside hbounded htracks
      (hacts ▸ h.acts) (hghosts _ heq)
    refine ⟨_, by rw [readBody, heq, Option.bind_some]; dsimp only; rw [hfinal, Option.map_some], ?_⟩
    refine ⟨hsame ▸ hprocessed, hcut, ?_, hwaiting⟩
    dsimp only
    rw [h.reported, Bool.false_or, Bool.and_eq_false_iff]
    rcases hreported with hfailed | herror
    · exact .inr (by simp [hfailed])
    · cases hpast : final.s.past with
      | false => exact .inl rfl
      | true => exact .inr (by simp [herror hpast])

/-- One class of events and one of objects, each unpacked from a number of 32 bits. -/
def numberEvents : EventReaders ℕ ℕ where
  create _ := some .dirAny
  unpack _ := .readBits 32 fun bits => .done (some (bitsInt (bits.getD [])))
  process mLocalGhosts _ := mLocalGhosts

def numberGhosts : GhostReaders ℕ where
  classCount := 1
  classBitSize := 0
  create _ := some 0
  unpackUpdate _ _ := .readBits 32 fun bits => .done (bitsInt (bits.getD []), false)
  onGhostAdd _ := true
  classBitSize_le := by decide

def numberParameters : EventParameters where
  mDebugObjectSizes := false
  mEventClassCount := 1
  mEventClassBitSize := 0
  classCount_le := by decide
  classBitSize_le := by decide

/-- A body of whole bytes, given by its bits that are set. -/
def bodyOf (bits : List ℕ) (bytes : ℕ) (small : bytes * 8 ≤ maxPacketDataSize * 8) : BodyStream where
  stream := ⟨fun i => i ∈ bits, bytes, false, 0, false, bytes * 8, 0⟩
  small := small
  bitNum_le := Nat.zero_le _

/-- A packet with one event, the number zero. -/
def wholeEvent : BodyStream := bodyOf [0] 5 (by decide)

/-- The event's number is cut off after seven of its bits. -/
def cutEvent : BodyStream := bodyOf [0] 1 (by decide)

/-- A record of a new ghost, whose number is cut off after five bits. -/
def cutGhost : BodyStream := bodyOf [2, 6] 2 (by decide)

/-- A body of two bits, the flags that end the events; the flag for the ghosts is behind the end. -/
def cutFlag : BodyStream where
  stream := ⟨fun _ => false, 1, false, 6, false, 8, 0⟩
  small := by decide
  bitNum_le := by decide

end BodyReceiver

end TNL
