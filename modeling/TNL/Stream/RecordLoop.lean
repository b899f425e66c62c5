import TNL.Stream.BitStream

/-!
# Writing records until the packet is full

Events and ghost updates are written by the same loop. Whether a record fitted
is only looked at after it has been written, by the space that is left, and a
record that leaves too little is taken back. A record is complete when all its
writes fitted, so the loop is exact as long as each record that leaves enough
space fits as a whole.
-/
namespace TNL

/-- A stream being written or read, with the state that packing and unpacking carry along. -/
structure PackStream (σ : Type*) where
  stream : BitStream
  side : σ

variable {ρ σ : Type*}

/-- The loop that writes records until the stream is full or a record stops it. A record after
which too little space is left is taken back: the position and the error flag are reset, and
nothing else. Returns the records sent, those left and the stream. -/
def recordLoop (stop : ρ → Bool) (write : Option ρ → ρ → PackStream σ → PackStream σ)
    (rewindTo : PackStream σ → ℕ) :
    Option ρ → List ρ → PackStream σ → List ρ × List ρ × PackStream σ
  | _, [], w => ([], [], w)
  | previous, record :: rest, w =>
    if w.stream.isFull || stop record then ([], record :: rest, w)
    else
      let written := write previous record w
      if written.stream.getBitSpaceAvailable < BitStream.minimumPaddingBits then
        ([], record :: rest,
          { written with
            stream := (written.stream.setBitPosition (rewindTo w)).clearError })
      else
        let (sent, left, w) := recordLoop stop write rewindTo (some record) rest written
        (record :: sent, left, w)

section recordLoop

variable (stop : ρ → Bool) (write : Option ρ → ρ → PackStream σ → PackStream σ)
  (rewindTo : PackStream σ → ℕ) (previous : Option ρ) (records : List ρ) (w : PackStream σ)

theorem recordLoop_append : records = (recordLoop stop write rewindTo previous records w).1 ++
    (recordLoop stop write rewindTo previous records w).2.1 := by
  induction records generalizing previous w with
  | nil => rfl
  | cons record rest ih =>
    unfold recordLoop
    dsimp only
    split
    · rfl
    · split
      · rfl
      · rw [List.cons_append, ← ih]

theorem recordLoop_stop : ∀ record ∈ (recordLoop stop write rewindTo previous records w).1,
    stop record = false := by
  induction records generalizing previous w with
  | nil => simp [recordLoop]
  | cons record rest ih =>
    unfold recordLoop
    dsimp only
    split
    · simp
    · rename_i hstop
      split
      · simp
      · intro sent hsent
        obtain rfl | htail := List.mem_cons.mp hsent
        · simp only [Bool.or_eq_true, not_or] at hstop
          simpa using hstop.2
        · exact ih _ _ _ htail

end recordLoop

/-- The bits of a record written at a position, the position its writes reach when those that do
not fit below the limit are refused, and the state it leaves. No record starts with more than
`fixed` bits before the first write that may be refused. -/
structure RecordCode (ρ σ : Type*) where
  bits : Option ρ → ρ → σ → ℕ → List Bool
  size : Option ρ → ρ → σ → ℕ
  reach : ℕ → Option ρ → ρ → σ → ℕ → ℕ
  next : ρ → σ → σ
  fixed : ℕ
  length_bits : ∀ previous record side p, (bits previous record side p).length =
    size previous record side
  reach_le_size : ∀ limit previous record side p, reach limit previous record side p ≤
    p + size previous record side
  reach_eq : ∀ limit previous record side p, p + fixed ≤ limit →
    (reach limit previous record side p = p + size previous record side ↔
      p + size previous record side ≤ limit)

/-- A stream over borrowed memory with room for `n` more bits below the limit. -/
structure Room (limit n : ℕ) (s : BitStream) : Prop where
  fixed : s.Fixed
  maxWrite : s.maxWriteBitNum = limit
  room : s.bitNum + n ≤ limit
  small : limit < 2 ^ 32

namespace Room

variable {limit n : ℕ} {s t : BitStream}

theorem available (h : Room limit n s) : s.getBitSpaceAvailable = limit - s.bitNum := by
  have := h.room
  have := h.small
  unfold BitStream.getBitSpaceAvailable
  rw [h.maxWrite]
  omega

theorem mono {m : ℕ} (h : Room limit n s) (hm : m ≤ n) : Room limit m s :=
  ⟨h.fixed, h.maxWrite, by have := h.room; omega, h.small⟩

theorem extends_ {m : ℕ} (h : Room limit n s) (he : s.Extends t) (ht : t.bitNum + m ≤ limit) :
    Room limit m t :=
  ⟨he.fixed h.fixed, he.maxWrite.trans h.maxWrite, ht, h.small⟩

end Room

namespace RecordCode

variable (code : RecordCode ρ σ)

/-- What it means that a loop writes records of this form. -/
structure Describes (limit : ℕ) (write : Option ρ → ρ → PackStream σ → PackStream σ)
    (rewindTo : PackStream σ → ℕ) : Prop where
  extends_ : ∀ previous record (w : PackStream σ), Room limit code.fixed w.stream →
    w.stream.Extends (write previous record w).stream
  position : ∀ previous record (w : PackStream σ), Room limit code.fixed w.stream →
    (write previous record w).stream.bitNum =
      code.reach limit previous record w.side w.stream.bitNum
  le_limit : ∀ previous record (w : PackStream σ), Room limit code.fixed w.stream →
    (write previous record w).stream.bitNum ≤ limit
  side : ∀ previous record (w : PackStream σ),
    (write previous record w).side = code.next record w.side
  rewinds : ∀ w : PackStream σ, Room limit code.fixed w.stream → rewindTo w = w.stream.bitNum
  wrote : ∀ previous record (w : PackStream σ), Room limit code.fixed w.stream →
    w.stream.bitNum + code.size previous record w.side ≤ limit →
      w.stream.Wrote (code.bits previous record w.side w.stream.bitNum)
        (write previous record w).stream

/-- The bits of a sequence of records. -/
def encode : Option ρ → List ρ → σ → ℕ → List Bool
  | _, [], _, _ => []
  | previous, record :: rest, side, p => code.bits previous record side p ++
      encode (some record) rest (code.next record side) (p + code.size previous record side)

/-- The state a sequence of records leaves. -/
def sideAfter (records : List ρ) (side : σ) : σ :=
  records.foldl (fun side record => code.next record side) side

/-- Every record that leaves at least the padding fits as a whole. -/
def Fits (limit size : ℕ) (stop : ρ → Bool) : Option ρ → List ρ → σ → ℕ → Prop
  | _, [], _, _ => True
  | previous, record :: rest, side, p =>
    p > size * 8 ∨ stop record = true ∨
      limit - code.reach limit previous record side p < BitStream.minimumPaddingBits ∨
      (p + code.size previous record side ≤ limit ∧
        Fits limit size stop (some record) rest (code.next record side)
          (p + code.size previous record side))

/-- The records a loop sends, and the state and position it leaves, when every record that leaves
enough space fits. The record taken back leaves its state behind. -/
def plan (limit size : ℕ) (stop : ρ → Bool) : Option ρ → List ρ → σ → ℕ → List ρ × σ × ℕ
  | _, [], side, p => ([], side, p)
  | previous, record :: rest, side, p =>
    if decide (p > size * 8) || stop record then ([], side, p)
    else if limit - code.reach limit previous record side p < BitStream.minimumPaddingBits then
      ([], code.next record side, p)
    else
      let (sent, final) := plan limit size stop (some record) rest (code.next record side)
        (p + code.size previous record side)
      (record :: sent, final)

theorem encode_length_congr (previous : Option ρ) (records : List ρ) (side : σ) (p q : ℕ) :
    (code.encode previous records side p).length =
      (code.encode previous records side q).length := by
  induction records generalizing previous side p q with
  | nil => rfl
  | cons record rest ih =>
    simp only [encode, List.length_append, code.length_bits]
    rw [ih]

variable {code}

/-- What the loop has done with its stream: the position stays at least the padding below the
limit or where it was, and what is written is complete exactly when all records fit. -/
structure LoopSpec (code : RecordCode ρ σ) (limit : ℕ) (previous : Option ρ) (w : PackStream σ)
    (fits : Prop) (sent : List ρ) (v : PackStream σ) : Prop where
  extends_ : w.stream.Extends v.stream
  bound : v.stream.bitNum = w.stream.bitNum ∨
    v.stream.bitNum + BitStream.minimumPaddingBits ≤ limit
  le : v.stream.bitNum ≤ w.stream.bitNum +
    (code.encode previous sent w.side w.stream.bitNum).length
  wrote : fits → w.stream.Wrote (code.encode previous sent w.side w.stream.bitNum) v.stream
  short : ¬ fits → v.stream.bitNum < w.stream.bitNum +
    (code.encode previous sent w.side w.stream.bitNum).length

theorem LoopSpec.nothing {limit : ℕ} {previous : Option ρ} {w v : PackStream σ} {fits : Prop}
    (hfits : fits) (he : w.stream.Extends v.stream) (hv : v.stream.bitNum = w.stream.bitNum) :
    LoopSpec code limit previous w fits [] v where
  extends_ := he
  bound := .inl hv
  le := by simp [hv]
  wrote _ := .of_extends he hv (.nil _)
  short h := absurd hfits h

theorem Describes.recordLoop_spec {limit : ℕ}
    {write : Option ρ → ρ → PackStream σ → PackStream σ} {rewindTo : PackStream σ → ℕ}
    (hcode : code.Describes limit write rewindTo)
    (hfixed : code.fixed ≤ BitStream.minimumPaddingBits) (stop : ρ → Bool) (previous : Option ρ)
    (records : List ρ) (w : PackStream σ)
    (hroom : Room limit code.fixed w.stream) :
    LoopSpec code limit previous w
      (code.Fits limit w.stream.mBufSize stop previous records w.side w.stream.bitNum)
      (recordLoop stop write rewindTo previous records w).1
      (recordLoop stop write rewindTo previous records w).2.2 := by
  induction records generalizing previous w with
  | nil => exact .nothing trivial (.refl _) rfl
  | cons record rest ih =>
    unfold recordLoop Fits
    by_cases hstop : (w.stream.isFull || stop record) = true
    · rw [if_pos hstop]
      refine .nothing ?_ (.refl _) rfl
      simpa [BitStream.isFull, or_assoc] using Or.inl hstop
    · rw [if_neg hstop]
      simp only [BitStream.isFull, Bool.or_eq_true, decide_eq_true_eq, not_or] at hstop
      have hext := hcode.extends_ previous record w hroom
      have hpos := hcode.position previous record w hroom
      have hwritten : Room limit 0 (write previous record w).stream :=
        hroom.extends_ hext (hcode.le_limit previous record w hroom)
      simp only [hwritten.available, hpos]
      by_cases hspace : limit - code.reach limit previous record w.side w.stream.bitNum <
          BitStream.minimumPaddingBits
      · rw [if_pos hspace]
        refine .nothing (.inr (.inr (.inl hspace))) ?_ ?_
        · simpa [hcode.rewinds w hroom] using hext.rewind
        · exact hcode.rewinds w hroom
      · rw [if_neg hspace, or_iff_right hstop.1, or_iff_right hstop.2, or_iff_right hspace]
        have hpadding : BitStream.minimumPaddingBits = 128 := rfl
        have hnext : Room limit code.fixed (write previous record w).stream := by
          refine hroom.extends_ hext ?_
          rw [hpos]
          have := hcode.le_limit previous record w hroom
          omega
        have hrest := ih (some record) (write previous record w) hnext
        generalize recordLoop stop write rewindTo (some record) rest (write previous record w) =
          run at hrest ⊢
        obtain ⟨sent, left, v⟩ := run
        dsimp only at hrest ⊢
        have hreach := code.reach_le_size limit previous record w.side w.stream.bitNum
        have hlen := code.length_bits previous record w.side w.stream.bitNum
        have hcongr := code.encode_length_congr (some record) sent (code.next record w.side)
          (code.reach limit previous record w.side w.stream.bitNum)
          (w.stream.bitNum + code.size previous record w.side)
        have hside := hcode.side previous record w
        have hle := hrest.le
        rw [hside, hpos] at hle
        constructor
        · exact hext.trans hrest.extends_
        · obtain hsame | hbound := hrest.bound
          · right
            rw [hsame, hpos]
            omega
          · exact .inr hbound
        · simp only [encode, List.length_append, hlen]
          omega
        · rintro ⟨hsize, hfits⟩
          have hwrote := hcode.wrote previous record w hroom hsize
          have hreached : (write previous record w).stream.bitNum =
              w.stream.bitNum + code.size previous record w.side := by
            rw [hwrote.position, hlen]
          have htail := hrest.wrote (by rw [hside, hreached, hext.size]; exact hfits)
          rw [hside, hreached] at htail
          exact hwrote.append htail
        · intro hmisfit
          simp only [encode, List.length_append, hlen]
          by_cases hsize : w.stream.bitNum + code.size previous record w.side ≤ limit
          · have hreached : (write previous record w).stream.bitNum =
                w.stream.bitNum + code.size previous record w.side := by
              rw [(hcode.wrote previous record w hroom hsize).position, hlen]
            have htail := hrest.short (by
              rw [hside, hreached, hext.size]
              exact fun h => hmisfit ⟨hsize, h⟩)
            rw [hside, hreached] at htail
            omega
          · have hne := mt (code.reach_eq limit previous record w.side w.stream.bitNum
              hroom.room).mp hsize
            omega

/-- A loop all of whose records fit does what is planned. -/
theorem Describes.recordLoop_eq_plan {limit : ℕ}
    {write : Option ρ → ρ → PackStream σ → PackStream σ} {rewindTo : PackStream σ → ℕ}
    (hcode : code.Describes limit write rewindTo)
    (hfixed : code.fixed ≤ BitStream.minimumPaddingBits) (stop : ρ → Bool) (previous : Option ρ)
    (records : List ρ) (w : PackStream σ)
    (hroom : Room limit code.fixed w.stream)
    (hfits : code.Fits limit w.stream.mBufSize stop previous records w.side w.stream.bitNum) :
    code.plan limit w.stream.mBufSize stop previous records w.side w.stream.bitNum =
      ((recordLoop stop write rewindTo previous records w).1,
        (recordLoop stop write rewindTo previous records w).2.2.side,
        (recordLoop stop write rewindTo previous records w).2.2.stream.bitNum) := by
  induction records generalizing previous w with
  | nil => rfl
  | cons record rest ih =>
    unfold recordLoop plan
    unfold Fits at hfits
    by_cases hstop : (w.stream.isFull || stop record) = true
    · rw [if_pos hstop, if_pos (by simpa [BitStream.isFull] using hstop)]
    · rw [if_neg hstop, if_neg (by simpa [BitStream.isFull] using hstop)]
      simp only [BitStream.isFull, Bool.or_eq_true, decide_eq_true_eq, not_or] at hstop
      rw [or_iff_right hstop.1, or_iff_right hstop.2] at hfits
      have hext := hcode.extends_ previous record w hroom
      have hpos := hcode.position previous record w hroom
      have hle := hcode.le_limit previous record w hroom
      have hwritten : Room limit 0 (write previous record w).stream := hroom.extends_ hext hle
      have hside := hcode.side previous record w
      simp only [hwritten.available, hpos]
      by_cases hspace : limit - code.reach limit previous record w.side w.stream.bitNum <
          BitStream.minimumPaddingBits
      · rw [if_pos hspace, if_pos hspace]
        simp [hside, BitStream.clearError, BitStream.setBitPosition, hcode.rewinds w hroom]
      · rw [if_neg hspace, if_neg hspace]
        obtain ⟨hsize, hfits⟩ := (or_iff_right hspace).mp hfits
        have hpadding : BitStream.minimumPaddingBits = 128 := rfl
        have hreached : (write previous record w).stream.bitNum =
            w.stream.bitNum + code.size previous record w.side := by
          rw [(hcode.wrote previous record w hroom hsize).position, code.length_bits]
        have hnext : Room limit code.fixed (write previous record w).stream :=
          hroom.extends_ hext (by omega)
        have htail := ih (some record) (write previous record w) hnext
          (by rw [hside, hreached, hext.size]; exact hfits)
        rw [hside, hreached, hext.size] at htail
        rw [htail]

end RecordCode

end TNL
