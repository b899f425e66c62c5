import TNL.Stream.ByteBits

/-!
# What is written is read back

A write that fits, at once or in a larger buffer, puts its bits at the position
and leaves all others. Reads that match a sequence of writes, from the same
position and over the same bits, return what was written.
-/
namespace TNL

namespace BitStream

variable {s t u : BitStream} {bits more : List Bool} {n : ℕ}

/-- A stream that gets a larger buffer whenever it asks for one. -/
structure Growable (s : BitStream) : Prop where
  owned : s.mOwnsMemory = true
  size_le : s.mBufSize * 8 ≤ s.maxWriteBitNum
  position_le : s.bitNum ≤ s.maxWriteBitNum

/-- There is room for `n` more bits, where a larger buffer is one whose bits 32-bit integers count. -/
def Room (s : BitStream) (n : ℕ) : Prop :=
  s.bitNum + n ≤ s.maxWriteBitNum ∨
    s.Growable ∧ ((s.bitNum + n + 7) / 8 + resizePad) * 8 < 2 ^ 32

/-- The bits are in the buffer, and nothing else is changed. -/
structure Stored (s : BitStream) (bits : List Bool) (t : BitStream) : Prop where
  buffer : t.buffer = (s.store bits).buffer
  position : t.bitNum = s.bitNum + bits.length

/-- The bits are in the buffer, and there is still room for the rest. -/
structure Put (s : BitStream) (bits : List Bool) (t : BitStream) : Prop extends Stored s bits t where
  room : ∀ n, s.Room (bits.length + n) → t.Room n

theorem store_apply (s : BitStream) (bits : List Bool) (i : ℕ) : (s.store bits).buffer i =
    if s.bitNum ≤ i then bits.getD (i - s.bitNum) (s.buffer i) else s.buffer i := rfl

theorem store_bitNum (s : BitStream) (bits : List Bool) :
    (s.store bits).bitNum = s.bitNum + bits.length := rfl

theorem store_append_apply (s : BitStream) (bits more : List Bool) (i : ℕ) :
    (s.store (bits ++ more)).buffer i = ((s.store bits).store more).buffer i := by
  rw [store_apply, store_apply (s.store bits), store_apply s bits, store_bitNum]
  by_cases hlow : s.bitNum ≤ i
  · by_cases hin : s.bitNum + bits.length ≤ i
    · rw [if_pos hlow, if_pos hlow, if_pos hin, List.getD_append_right _ _ _ _ (by omega),
        List.getD_eq_default bits _ (by omega), Nat.sub_add_eq]
    · rw [if_pos hlow, if_pos hlow, if_neg hin, List.getD_append _ _ _ _ (by omega)]
  · rw [if_neg hlow, if_neg hlow, if_neg (by omega)]

namespace Stored

theorem nil (s : BitStream) : s.Stored [] s where
  buffer := by
    ext i
    rw [store_apply]
    simp
  position := rfl

theorem append (h : s.Stored bits t) (k : t.Stored more u) : s.Stored (bits ++ more) u where
  buffer := by
    ext i
    rw [k.buffer, store_append_apply, store_apply, h.buffer, h.position, store_apply (s.store bits),
      store_bitNum]
  position := by
    rw [k.position, h.position, List.length_append, Nat.add_assoc]

theorem holds (h : s.Stored bits t) : t.window s.bitNum bits.length = bits := by
  have hstored := (store_wrote s bits).holds
  rwa [window_congr fun i _ _ => congrFun h.buffer.symm i] at hstored

end Stored

namespace Put

theorem nil (s : BitStream) : s.Put [] s where
  toStored := Stored.nil s
  room n h := by
    rwa [List.length_nil, Nat.zero_add] at h

theorem append (h : s.Put bits t) (k : t.Put more u) : s.Put (bits ++ more) u where
  toStored := h.toStored.append k.toStored
  room n hn := by
    rw [List.length_append, Nat.add_assoc] at hn
    exact k.room n (h.room _ hn)

end Put

theorem Room.mono {m : ℕ} (h : s.Room n) (hm : m ≤ n) : s.Room m := by
  refine h.imp (fun hfits => by omega) (And.imp_right fun hsize => ?_)
  have : (s.bitNum + m + 7) / 8 ≤ (s.bitNum + n + 7) / 8 := Nat.div_le_div_right (by omega)
  omega

theorem store_put (hfits : s.bitNum + bits.length ≤ s.maxWriteBitNum) :
    s.Put bits (s.store bits) where
  toStored := ⟨rfl, rfl⟩
  room n hn := by
    rcases hn with hn | ⟨hgrow, hsize⟩
    · exact Or.inl (by simpa only [store, Nat.add_assoc] using hn)
    · exact Or.inr ⟨⟨hgrow.owned, hgrow.size_le, hfits⟩,
        by simpa only [store, Nat.add_assoc] using hsize⟩

/-- A stream that is growable grows to what was asked for and some more. -/
theorem Growable.resizeBits (h : s.Growable) (newBits : ℕ) :
    s.resizeBits newBits = (true, { s with
      mBufSize := (s.maxWriteBitNum + newBits + 7) / 8 + resizePad
      maxReadBitNum := ((s.maxWriteBitNum + newBits + 7) / 8 + resizePad) * 8
      maxWriteBitNum := ((s.maxWriteBitNum + newBits + 7) / 8 + resizePad) * 8 }) := by
  have hsize : ¬ s.mBufSize ≥ (s.maxWriteBitNum + newBits + 7) / 8 + resizePad := by
    have := h.size_le
    unfold resizePad
    omega
  rw [BitStream.resizeBits, resize, if_neg hsize, if_pos h.owned]
  rfl

/-- Growing changes neither the bits nor the position, and makes room. -/
theorem Growable.put (h : s.Growable) (hmore : s.maxWriteBitNum < s.bitNum + bits.length) :
    s.Put bits ((s.resizeBits (s.bitNum + bits.length - s.maxWriteBitNum)).2.store bits) := by
  have hnew : s.maxWriteBitNum + (s.bitNum + bits.length - s.maxWriteBitNum) =
      s.bitNum + bits.length := by omega
  rw [h.resizeBits, hnew]
  refine ⟨⟨rfl, rfl⟩, fun n hn => ?_⟩
  rcases hn with hn | ⟨-, hsize⟩
  · omega
  · refine Or.inr ⟨⟨h.owned, le_rfl, ?_⟩, by simpa only [store, Nat.add_assoc] using hsize⟩
    simp only [store]
    omega

theorem writeBits_put (h : s.Room bits.length) :
    (s.writeBits bits).1 = true ∧ s.Put bits (s.writeBits bits).2 := by
  by_cases hnil : bits = []
  · subst hnil
    exact ⟨rfl, Put.nil s⟩
  · rw [writeBits, if_neg hnil]
    by_cases hfits : s.bitNum + bits.length ≤ s.maxWriteBitNum
    · rw [if_neg (by omega)]
      exact ⟨rfl, store_put hfits⟩
    · obtain ⟨hgrow, -⟩ := h.resolve_left hfits
      have hput := hgrow.put (Nat.not_le.mp hfits)
      rw [if_pos (by omega), Nat.add_comm bits.length]
      rw [hgrow.resizeBits] at hput ⊢
      exact ⟨rfl, hput⟩

theorem writeFlag_put (val : Bool) (h : s.Room 1) : s.Put [val] (s.writeFlag val) := by
  rw [writeFlag]
  by_cases hfits : s.bitNum + 1 ≤ s.maxWriteBitNum
  · rw [if_neg (by omega)]
    exact store_put hfits
  · obtain ⟨hgrow, -⟩ := h.resolve_left hfits
    have hput : s.Put [val] _ := hgrow.put (Nat.not_le.mp hfits)
    have hone : s.bitNum + [val].length - s.maxWriteBitNum = 1 := by
      have := hgrow.position_le
      rw [List.length_singleton]
      omega
    rw [hone] at hput
    rw [if_pos (by omega)]
    rw [hgrow.resizeBits] at hput ⊢
    exact hput

/-- Writes to a growable stream leave no error. -/
theorem Growable.writeBits (h : s.Growable) (bits : List Bool) :
    (s.writeBits bits).2.Growable ∧ (s.writeBits bits).2.error = s.error := by
  rw [BitStream.writeBits]
  split_ifs with hnil hfull
  · exact ⟨h, rfl⟩
  · simp only [h.resizeBits, if_true]
    refine ⟨⟨h.owned, le_rfl, ?_⟩, rfl⟩
    simp only [store]
    omega
  · exact ⟨⟨h.owned, h.size_le, by simp only [store]; omega⟩, rfl⟩

theorem Growable.writeFlag (h : s.Growable) (val : Bool) :
    (s.writeFlag val).Growable ∧ (s.writeFlag val).error = s.error := by
  have hposition := h.position_le
  rw [BitStream.writeFlag]
  split_ifs with hfull
  · simp only [h.resizeBits, if_true]
    refine ⟨⟨h.owned, le_rfl, ?_⟩, rfl⟩
    simp only [store, List.length_singleton]
    omega
  · exact ⟨⟨h.owned, h.size_le, by simp only [store, List.length_singleton]; omega⟩, rfl⟩

theorem Growable.writeAll (h : s.Growable) (chunks : List (List Bool)) :
    (s.writeAll chunks).Growable ∧ (s.writeAll chunks).error = s.error := by
  induction chunks generalizing s with
  | nil => exact ⟨h, rfl⟩
  | cons bits chunks ih =>
    obtain ⟨hfirst, herror⟩ := h.writeBits bits
    obtain ⟨hrest, herror'⟩ := ih hfirst
    exact ⟨hrest, herror'.trans herror⟩

/-- A larger buffer changes only the limits, and is refused with an error. -/
theorem resizeBits_cases (s : BitStream) (newBits : ℕ) :
    ((s.resizeBits newBits).1 = true ∧ ∃ size, (s.resizeBits newBits).2 =
        { s with mBufSize := size, maxReadBitNum := size * 8, maxWriteBitNum := size * 8 }) ∨
      ((s.resizeBits newBits).1 = false ∧ (s.resizeBits newBits).2.error = true) := by
  rw [resizeBits, resize]
  split_ifs
  · exact Or.inr ⟨rfl, rfl⟩
  · exact Or.inl ⟨rfl, _, rfl⟩
  · exact Or.inr ⟨rfl, rfl⟩

/-- Bits are in the buffer after a write that left no error. -/
theorem writeBits_stored (h : (s.writeBits bits).2.error = false) :
    s.error = false ∧ s.Stored bits (s.writeBits bits).2 := by
  rw [writeBits] at h ⊢
  by_cases hnil : bits = []
  · subst hnil
    exact ⟨h, Stored.nil s⟩
  · rw [if_neg hnil] at h ⊢
    by_cases hfull : bits.length + s.bitNum > s.maxWriteBitNum
    · rw [if_pos hfull] at h ⊢
      rcases resizeBits_cases s (bits.length + s.bitNum - s.maxWriteBitNum) with
        ⟨hresized, size, hs⟩ | ⟨hrefused, herror⟩
      · simp only [hresized, hs, if_true] at h ⊢
        exact ⟨h, rfl, rfl⟩
      · simp only [hrefused, Bool.false_eq_true, if_false, herror] at h
        cases h
    · rw [if_neg hfull] at h ⊢
      exact ⟨h, rfl, rfl⟩

theorem writeFlag_stored {val : Bool} (h : (s.writeFlag val).error = false) :
    s.error = false ∧ s.Stored [val] (s.writeFlag val) := by
  rw [writeFlag] at h ⊢
  by_cases hfull : s.bitNum + 1 > s.maxWriteBitNum
  · rw [if_pos hfull] at h ⊢
    rcases resizeBits_cases s 1 with ⟨hresized, size, hs⟩ | ⟨hrefused, herror⟩
    · simp only [hresized, hs, if_true] at h ⊢
      exact ⟨h, rfl, rfl⟩
    · simp only [hrefused, Bool.false_eq_true, if_false, herror] at h
      cases h
  · rw [if_neg hfull] at h ⊢
    exact ⟨h, rfl, rfl⟩

theorem writeInt_stored {value bitCount : ℕ} (h : (s.writeInt value bitCount).error = false) :
    s.error = false ∧ s.Stored (intBits value bitCount) (s.writeInt value bitCount) :=
  writeBits_stored h

theorem writeAll_stored {chunks : List (List Bool)} (h : (s.writeAll chunks).error = false) :
    s.error = false ∧ s.Stored chunks.flatten (s.writeAll chunks) := by
  induction chunks generalizing s with
  | nil => exact ⟨h, Stored.nil s⟩
  | cons bits chunks ih =>
    obtain ⟨hmid, hrest⟩ := ih h
    obtain ⟨hfirst, hbits⟩ := writeBits_stored hmid
    exact ⟨hfirst, hbits.append hrest⟩

end BitStream

namespace ByteStream
open BitStream

variable {s t r : ByteStream} {n : ℕ}

/-- One write, with its arguments. -/
inductive Item
  | int (val : BitVec 32) (bitCount : ℕ)
  | flag (val : Bool)
  | bytes (in_pBuffer : List U8)

namespace Item

def write (s : ByteStream) : Item → ByteStream
  | int val bitCount => s.writeInt val bitCount
  | flag val => s.writeFlag val
  | bytes in_pBuffer => (s.write in_pBuffer.length fun i => in_pBuffer.getD i 0).2

/-- Integers are written in up to 32 bits, and in enough of them. -/
def Valid : Item → Prop
  | int val bitCount => 1 ≤ bitCount ∧ bitCount ≤ 32 ∧ val.toNat < 2 ^ bitCount
  | _ => True

def size : Item → ℕ
  | int _ bitCount => bitCount
  | flag _ => 1
  | bytes in_pBuffer => in_pBuffer.length * 8

/-- The bits on the wire. -/
def code : Item → List Bool
  | int val bitCount => intBits val.toNat bitCount
  | flag val => [val]
  | bytes in_pBuffer => sourceBits (in_pBuffer.length * 8) fun i => in_pBuffer.getD i 0

@[simp] theorem code_length (item : Item) : item.code.length = item.size := by
  cases item <;> simp [code, size]

theorem write_put (item : Item) (h : s.bits.Room item.size) :
    s.bits.Put item.code (item.write s).bits := by
  rw [← code_length] at h
  cases item with
  | int val bitCount =>
    have hput := (writeBits_put h).2
    rw [code, ← sourceBits_intBytes, writeBits_bits] at hput
    rw [code, ← sourceBits_intBytes]
    exact hput
  | flag val =>
    have hput := writeFlag_put val h
    rwa [writeFlag_bits] at hput
  | bytes in_pBuffer =>
    have hput := (writeBits_put h).2
    rwa [code, writeBits_bits] at hput

end Item

/-- One read, with its arguments. -/
inductive Reading
  | int (bitCount : ℕ)
  | flag
  | bytes (in_numBytes : ℕ) (out_pBuffer : ℕ → U8)

namespace Reading

/-- What the read returns, as the item that was read. -/
def read (s : ByteStream) : Reading → Item × ByteStream
  | int bitCount => (Item.int (s.readInt bitCount).1 bitCount, (s.readInt bitCount).2)
  | flag => (Item.flag s.readFlag.1, s.readFlag.2)
  | bytes in_numBytes out_pBuffer =>
    let (_, out_pBuffer, s) := s.read in_numBytes out_pBuffer
    (Item.bytes ((List.range in_numBytes).map out_pBuffer), s)

/-- The read that belongs to a write. Where the bytes go there may be anything before. -/
inductive Matches : Reading → Item → Prop
  | int (val : BitVec 32) (bitCount : ℕ) : Matches (int bitCount) (Item.int val bitCount)
  | flag (val : Bool) : Matches flag (Item.flag val)
  | bytes (in_pBuffer : List U8) (out_pBuffer : ℕ → U8) :
    Matches (bytes in_pBuffer.length out_pBuffer) (Item.bytes in_pBuffer)

end Reading

/-- Bytes with the same bits are the same. -/
theorem map_range_of_bits {bytes : ℕ → U8} {l : List U8}
    (h : sourceBits (l.length * 8) bytes = sourceBits (l.length * 8) fun i => l.getD i 0) :
    (List.range l.length).map bytes = l := by
  have hbit : ∀ i < l.length * 8, bit bytes i = bit (fun i => l.getD i 0) i := fun i hi =>
    List.map_inj_left.mp h i (List.mem_range.mpr hi)
  apply List.ext_getElem
  · simp
  · intro j hj hj'
    rw [List.getElem_map, List.getElem_range]
    apply BitVec.eq_of_getLsbD_eq
    intro b hb
    have hjb := hbit (8 * j + b) (by omega)
    rw [bit, bit, show (8 * j + b) / 8 = j by omega, show (8 * j + b) % 8 = b by omega] at hjb
    rw [hjb, List.getD_eq_getElem _ _ hj']

/-- A read in front of the bits of its item returns the item and moves past them. -/
theorem Reading.Matches.read {reading : Reading} {item : Item} {more : List Bool}
    (h : reading.Matches item) (hvalid : item.Valid) (hr : r.bits.Ahead (item.code ++ more)) :
    (reading.read r).1 = item ∧
      (reading.read r).2.bits = r.bits.advanceBitPosition item.size := by
  cases h with
  | int val bitCount =>
    obtain ⟨-, hle, hlt⟩ := hvalid
    have hread := Ahead.readInt hr
    rw [readInt_bits r hle, Nat.mod_eq_of_lt hlt] at hread
    have hval := BitVec.eq_of_toNat_eq (congrArg Prod.fst hread)
    exact ⟨congrArg (Item.int · bitCount) hval, congrArg Prod.snd hread⟩
  | flag val =>
    have hread := Ahead.readFlag hr
    rw [readFlag_bits] at hread
    exact ⟨congrArg Item.flag (congrArg Prod.fst hread), congrArg Prod.snd hread⟩
  | bytes in_pBuffer out_pBuffer =>
    have hsize : in_pBuffer.length * 8 % 2 ^ 32 = in_pBuffer.length * 8 := by
      have hinside := hr.left.inside
      have hsmall := hr.small
      rw [Item.code_length, Item.size] at hinside
      exact Nat.mod_eq_of_lt (by omega)
    have hread := Ahead.readBits hr (Item.code_length _)
    rw [Item.size, readBits_bits r _ out_pBuffer] at hread
    simp only [Reading.read, ByteStream.read, hsize]
    generalize r.readBits (in_pBuffer.length * 8) out_pBuffer = result at hread ⊢
    obtain ⟨accepted, bytes, r'⟩ := result
    cases accepted with
    | true =>
      have hbits := Option.some.inj (congrArg Prod.fst hread)
      exact ⟨congrArg Item.bytes (map_range_of_bits hbits), congrArg Prod.snd hread⟩
    | false => exact absurd (congrArg Prod.fst hread) (by simp)

def writeAll (s : ByteStream) (items : List Item) : ByteStream := items.foldl Item.write s

def readAll (s : ByteStream) : List Reading → List Item × ByteStream
  | [] => ([], s)
  | reading :: readings =>
    let (item, s) := reading.read s
    let (items, s) := s.readAll readings
    (item :: items, s)

/-- How many bits a sequence of writes takes. -/
def totalSize (items : List Item) : ℕ := (items.map Item.size).sum

theorem flatMap_code_length (items : List Item) :
    (items.flatMap Item.code).length = totalSize items := by
  simp [totalSize, List.length_flatMap]

theorem writeAll_put (items : List Item) (h : s.bits.Room (totalSize items)) :
    s.bits.Put (items.flatMap Item.code) (s.writeAll items).bits := by
  induction items generalizing s with
  | nil => exact Put.nil s.bits
  | cons item items ih =>
    rw [totalSize, List.map_cons, List.sum_cons] at h
    have hitem := item.write_put (h.mono (Nat.le_add_right ..))
    rw [← item.code_length] at h
    exact hitem.append (ih (hitem.room _ h))

theorem readAll_eq {readings : List Reading} {items : List Item}
    (h : List.Forall₂ Reading.Matches readings items) (hvalid : ∀ item ∈ items, item.Valid)
    {more : List Bool} (hr : r.bits.Ahead (items.flatMap Item.code ++ more)) :
    (r.readAll readings).1 = items ∧
      (r.readAll readings).2.bits = r.bits.advanceBitPosition (totalSize items) := by
  induction h generalizing r with
  | nil => exact ⟨rfl, rfl⟩
  | @cons reading item readings items hmatches _ ih =>
    rw [List.flatMap_cons, List.append_assoc] at hr
    obtain ⟨hitem, hrest⟩ := hmatches.read (hvalid item List.mem_cons_self) hr
    have hahead := hr.advance
    rw [item.code_length, ← hrest] at hahead
    obtain ⟨hitems, hend⟩ := ih (fun item hmem => hvalid item (List.mem_cons_of_mem _ hmem)) hahead
    refine ⟨congrArg₂ List.cons hitem hitems, ?_⟩
    change ((reading.read r).2.readAll readings).2.bits = _
    rw [hend, hrest, totalSize, totalSize, List.map_cons, List.sum_cons,
      advanceBitPosition_advanceBitPosition]

/-- A stream that reads, from the position where `s` wrote, the `n` bits that `t` has there. -/
structure Rereads (s t r : ByteStream) (n : ℕ) : Prop where
  position : r.bitNum = s.bitNum
  same : ∀ i, s.bitNum ≤ i → i < s.bitNum + n → bit r.buffer i = bit t.buffer i
  inside : s.bitNum + n ≤ r.maxReadBitNum
  small : r.maxReadBitNum < 2 ^ 32

theorem Rereads.ahead {written : List Bool} (h : s.Rereads t r n) (hput : s.bits.Put written t.bits)
    (hn : written.length = n) : r.bits.Ahead written where
  holds := by
    have hholds := hput.holds
    rw [window_congr (t := r.bits)] at hholds
    · rwa [show s.bits.bitNum = r.bits.bitNum from h.position.symm] at hholds
    · intro i hlow hhigh
      rw [hn] at hhigh
      exact (h.same i hlow hhigh).symm
  inside := by
    rw [show r.bits.bitNum = s.bitNum from h.position, hn]
    exact h.inside
  small := h.small

/-- Bits written where there is room for them are exactly the first bits of the source, at the
position and nowhere else, and are read back; and so are whole sequences of writes. -/
theorem bits_roundTrip (s : ByteStream) :
    (∀ (n : ℕ) (bitPtr : ℕ → U8), s.bits.Room n →
      (s.writeBits n bitPtr).1 = true ∧
      (s.writeBits n bitPtr).2.bitNum = s.bitNum + n ∧
      (∀ i, bit (s.writeBits n bitPtr).2.buffer i =
        if s.bitNum ≤ i ∧ i < s.bitNum + n then bit bitPtr (i - s.bitNum) else bit s.buffer i) ∧
      ∀ (r : ByteStream) (outPtr : ℕ → U8), s.Rereads (s.writeBits n bitPtr).2 r n →
        (r.readBits n outPtr).1 = true ∧
        (∀ i < n, bit (r.readBits n outPtr).2.1 i = bit bitPtr i) ∧
        (r.readBits n outPtr).2.2.bitNum = s.bitNum + n) ∧
    ∀ items : List Item, (∀ item ∈ items, item.Valid) → s.bits.Room (totalSize items) →
      ∀ (r : ByteStream) (readings : List Reading),
        s.Rereads (s.writeAll items) r (totalSize items) →
        List.Forall₂ Reading.Matches readings items →
        (r.readAll readings).1 = items ∧
        (r.readAll readings).2.bitNum = s.bitNum + totalSize items := by
  constructor
  · intro n bitPtr hroom
    rw [← sourceBits_length n bitPtr] at hroom
    obtain ⟨haccepted, hput⟩ := writeBits_put hroom
    rw [writeBits_bits] at haccepted hput
    refine ⟨haccepted, ?_, fun i => ?_, fun r outPtr hr => ?_⟩
    · have hposition := hput.position
      rwa [sourceBits_length] at hposition
    · have hbuffer := congrFun hput.buffer i
      rw [← store_bits] at hbuffer
      exact hbuffer.trans (store_bit s n bitPtr i)
    · have hahead := hr.ahead hput (sourceBits_length n bitPtr)
      rw [← List.append_nil (sourceBits n bitPtr)] at hahead
      have hread := hahead.readBits (sourceBits_length n bitPtr)
      rw [readBits_bits r n outPtr] at hread
      generalize r.readBits n outPtr = result at hread ⊢
      obtain ⟨accepted, bytes, r'⟩ := result
      cases accepted with
      | true =>
        have hbits := List.map_inj_left.mp (Option.some.inj (congrArg Prod.fst hread))
        refine ⟨rfl, fun i hi => hbits i (List.mem_range.mpr hi), ?_⟩
        have hend := congrArg (BitStream.bitNum ∘ Prod.snd) hread
        exact hend.trans (congrArg (· + n) hr.position)
      | false => exact absurd (congrArg Prod.fst hread) (by simp)
  · intro items hvalid hroom r readings hr hmatches
    have hput := writeAll_put items hroom
    have hahead := hr.ahead hput (flatMap_code_length items)
    rw [← List.append_nil (items.flatMap Item.code)] at hahead
    obtain ⟨hitems, hend⟩ := readAll_eq hmatches hvalid hahead
    refine ⟨hitems, ?_⟩
    have hposition := congrArg BitStream.bitNum hend
    exact hposition.trans (congrArg (· + totalSize items) hr.position)

/-- Eleven bits over three bytes, and an integer, a flag and two bytes after six bits. -/
theorem bits_roundTrip_mixed :
    let s : ByteStream := ⟨fun _ => 0xFF, 64, false, 6, false, 512, 512⟩
    let t := (s.writeBits 11 fun _ => 0x35).2
    let items := [Item.int 5 3, Item.flag true, Item.bytes [0xAB, 0x01]]
    (∀ i < 11, bit ((t.setBitPosition 6).readBits 11 fun _ => 0).2.1 i = bit (fun _ => 0x35) i) ∧
    (((s.writeAll items).setBitPosition 6).readAll
      [Reading.int 3, Reading.flag, Reading.bytes 2 fun _ => 0]).1 = items := by
  intro s t items
  constructor
  · have hwritten := (bits_roundTrip s).1 11 (fun _ => 0x35) (Or.inl (by decide))
    exact (hwritten.2.2.2 (t.setBitPosition 6) (fun _ => 0)
      ⟨rfl, fun _ _ _ => rfl, by decide, by decide⟩).2.1
  · have hvalid : ∀ item ∈ items, item.Valid := by simp [items, Item.Valid]
    have hsize : totalSize items = 20 := rfl
    have hroom : s.bits.Room (totalSize items) := Or.inl (by rw [hsize]; decide)
    have hlimit : (s.writeAll items).maxReadBitNum = 512 := rfl
    have hrereads : s.Rereads (s.writeAll items) ((s.writeAll items).setBitPosition 6)
        (totalSize items) :=
      ⟨rfl, fun _ _ _ => rfl, hsize.symm ▸ hlimit.ge.trans' (by decide),
        hlimit.le.trans_lt (by decide)⟩
    exact ((bits_roundTrip s).2 items hvalid hroom _ _ hrereads
      (.cons (.int _ _) (.cons (.flag _) (.cons (.bytes _ _) .nil)))).1

end ByteStream

end TNL
