import TNL.RPC.MethodDispatch
import TNL.Stream.StringRoundTrip

/-!
# Arguments written are read back

What a type's `write` puts into the stream its `read` takes out again, and the
two leave writer and reader with the same string and the same table entries. The
value is the one written exactly when it fits the bits that its type has for it.
-/
namespace TNL
open BitStream ConnectionStringTable HuffmanStringProcessor

namespace TypedStream

/-- Every entry that the peer is known to have is the peer's. -/
def TablesAgree : Option StringTables → Option StringTables → Prop
  | none, none => True
  | some w, some r => ∀ entry, (w.table.mEntryTable entry).receiveConfirmed = true →
      r.mRemoteStringTable entry = (w.table.mEntryTable entry).string
  | _, _ => False

/-- Writer and reader hold the same string, and their tables agree. -/
structure Synced (w r : TypedStream) : Prop where
  buffer : ∃ prev, w.strings.mStringBuffer.Holds prev ∧ r.strings.mStringBuffer.Holds prev
  tables : TablesAgree w.mStringTable r.mStringTable

theorem Synced.tables_none {w r : TypedStream} (h : w.Synced r) (hw : w.mStringTable = none) :
    r.mStringTable = none := by
  have hagree := h.tables
  rw [hw] at hagree
  cases hr : r.mStringTable with
  | none => rfl
  | some tables =>
    rw [hr] at hagree
    exact hagree.elim

theorem Synced.tables_some {w r : TypedStream} {tables : StringTables} (h : w.Synced r)
    (hw : w.mStringTable = some tables) : ∃ remote, r.mStringTable = some remote ∧
      ∀ entry, (tables.table.mEntryTable entry).receiveConfirmed = true →
        remote.mRemoteStringTable entry = (tables.table.mEntryTable entry).string := by
  have hagree := h.tables
  rw [hw] at hagree
  cases hr : r.mStringTable with
  | none =>
    rw [hr] at hagree
    exact hagree.elim
  | some remote =>
    rw [hr] at hagree
    exact ⟨remote, rfl, hagree⟩

/-- What was written between two states reads back as a value exactly if it fits, and then reading
leaves off where writing did. -/
def ReadsBack {V : Type} (w w' : TypedStream) (read : TypedStream → V × TypedStream) (v : V)
    (fits : Prop) : Prop :=
  ∃ code, w.bits.Stored code w'.bits ∧ ∀ r more, w.Synced r → r.bits.Ahead (code ++ more) →
    ((read r).1 = v ↔ fits) ∧
    (fits → w'.Synced (read r).2 ∧
      (read r).2.bits = r.bits.advanceBitPosition code.length)

variable {V W : Type} {w w' w'' r : TypedStream} {v : V} {fits : Prop} {more : List Bool}

theorem ReadsBack.congr {fits' : Prop} {read : TypedStream → V × TypedStream}
    (h : ReadsBack w w' read v fits) (hfits : fits ↔ fits') : ReadsBack w w' read v fits' := by
  rwa [← propext hfits]

/-- One value after another, put together. -/
theorem ReadsBack.seq {U : Type} {read : TypedStream → V × TypedStream}
    {read' : TypedStream → W × TypedStream} {u : W} {fits' : Prop} {g : V → W → U}
    (hg : ∀ {a b a' b'}, g a b = g a' b' → a = a' ∧ b = b')
    (h : ReadsBack w w' read v fits) (h' : ReadsBack w' w'' read' u fits') :
    ReadsBack w w'' (fun s => (g (read s).1 (read' (read s).2).1, (read' (read s).2).2)) (g v u)
      (fits ∧ fits') := by
  obtain ⟨code, hstored, hread⟩ := h
  obtain ⟨code', hstored', hread'⟩ := h'
  refine ⟨code ++ code', hstored.append hstored', fun r more hsynced hahead => ?_⟩
  rw [List.append_assoc] at hahead
  obtain ⟨hvalue, hrest⟩ := hread r _ hsynced hahead
  by_cases hfits : fits
  · obtain ⟨hsynced', hbits⟩ := hrest hfits
    obtain ⟨hvalue', hrest'⟩ := hread' (read r).2 more hsynced' (hbits ▸ hahead.advance)
    constructor
    · constructor
      · exact fun heq => ⟨hfits, hvalue'.mp (hg heq).2⟩
      · exact fun hboth => congrArg₂ g (hvalue.mpr hfits) (hvalue'.mpr hboth.2)
    · intro hboth
      obtain ⟨hsynced'', hbits'⟩ := hrest' hboth.2
      refine ⟨hsynced'', ?_⟩
      rw [hbits', hbits, advanceBitPosition_advanceBitPosition, List.length_append]
  · refine ⟨⟨fun heq => absurd (hvalue.mp (hg heq).1) hfits, fun hboth => absurd hboth.1 hfits⟩,
      fun hboth => absurd hboth.1 hfits⟩

/-- A value that takes only bits. -/
theorem ReadsBack.of_bits {bits : BitStream} {code : List Bool}
    {read : TypedStream → V × TypedStream} (hstored : w.bits.Stored code bits)
    (hread : ∀ r more, r.bits.Ahead (code ++ more) → ((read r).1 = v ↔ fits) ∧
      (fits → (read r).2 = r.withBits (r.bits.advanceBitPosition code.length))) :
    ReadsBack w (w.withBits bits) read v fits := by
  refine ⟨code, hstored, fun r more hsynced hahead => ?_⟩
  obtain ⟨hvalue, hrest⟩ := hread r more hahead
  refine ⟨hvalue, fun hfits => ?_⟩
  rw [hrest hfits]
  exact ⟨⟨hsynced.buffer, hsynced.tables⟩, rfl⟩

/-- `r` reads, from where the writing between two states began, the bits that it left there. -/
structure Rereads (w w' r : TypedStream) : Prop where
  position : r.bits.bitNum = w.bits.bitNum
  same : ∀ i, w.bits.bitNum ≤ i → i < w'.bits.bitNum → r.bits.buffer i = w'.bits.buffer i
  inside : w'.bits.bitNum ≤ r.bits.maxReadBitNum
  small : r.bits.maxReadBitNum < 2 ^ 32

theorem ReadsBack.of_rereads {read : TypedStream → V × TypedStream}
    (h : ReadsBack w w' read v fits) (hsynced : w.Synced r) (hr : Rereads w w' r) :
    (read r).1 = v ∧ (read r).2.bits.bitNum = w'.bits.bitNum ↔ fits := by
  obtain ⟨code, hstored, hread⟩ := h
  have hend := hstored.position
  have hahead : r.bits.Ahead code := by
    refine ⟨?_, ?_, hr.small⟩
    · have hwindow : r.bits.window w.bits.bitNum code.length = _ :=
        window_congr fun i hlow hhigh => hr.same i hlow (by omega)
      rw [hr.position, hwindow]
      exact hstored.holds
    · rw [hr.position, ← hend]
      exact hr.inside
  rw [← List.append_nil code] at hahead
  obtain ⟨hvalue, hrest⟩ := hread r [] hsynced hahead
  constructor
  · exact fun h => hvalue.mp h.1
  · intro hfits
    refine ⟨hvalue.mpr hfits, ?_⟩
    rw [(hrest hfits).2, hend, ← hr.position]
    rfl

theorem readInt_ahead {value n : ℕ} (h : r.bits.Ahead (intBits value n ++ more)) :
    r.readInt n = (value % 2 ^ n, r.withBits (r.bits.advanceBitPosition n)) := by
  rw [readInt, Ahead.readInt h]

theorem readFlag_ahead {val : Bool} (h : r.bits.Ahead (val :: more)) :
    r.readFlag = (val, r.withBits (r.bits.advanceBitPosition 1)) := by
  rw [readFlag, Ahead.readFlag h]

/-- What a signed integer is without its sign. -/
def magnitude (value : BitVec 32) : BitVec 32 := if value.slt 0 then -value else value

/-- What a signed integer reads back as. -/
def signedBack (n : ℕ) (value : BitVec 32) : BitVec 32 :=
  if value.slt 0 then -BitVec.ofNat 32 ((magnitude value).toNat % 2 ^ (n - 1))
  else BitVec.ofNat 32 ((magnitude value).toNat % 2 ^ (n - 1))

def signedCode (n : ℕ) (value : BitVec 32) : List Bool :=
  value.slt 0 :: intBits (magnitude value).toNat (n - 1)

theorem writeSignedInt_eq (w : TypedStream) (value : BitVec 32) (n : ℕ) :
    w.writeSignedInt value n = w.withBits
      ((w.bits.writeFlag (value.slt 0)).writeInt (magnitude value).toNat (n - 1)) := by
  rw [writeSignedInt, magnitude]
  cases value.slt 0 <;> rfl

theorem writeSignedInt_stored {value : BitVec 32} {n : ℕ}
    (h : (w.writeSignedInt value n).bits.error = false) : w.bits.error = false ∧
      w.bits.Stored (signedCode n value)
        ((w.bits.writeFlag (value.slt 0)).writeInt (magnitude value).toNat (n - 1)) := by
  rw [writeSignedInt_eq] at h
  obtain ⟨hmid, hint⟩ := writeInt_stored h
  obtain ⟨hstart, hflag⟩ := writeFlag_stored hmid
  exact ⟨hstart, hflag.append hint⟩

theorem readSignedInt_ahead {value : BitVec 32} {n : ℕ}
    (h : r.bits.Ahead (signedCode n value ++ more)) :
    r.readSignedInt n = (signedBack n value,
      r.withBits (r.bits.advanceBitPosition (signedCode n value).length)) := by
  have hflag := readFlag_ahead h
  have hint := readInt_ahead (r := r.withBits (r.bits.advanceBitPosition 1)) h.tail
  simp only [readSignedInt, hflag, hint, signedBack]
  refine Prod.ext rfl ?_
  change r.withBits ((r.bits.advanceBitPosition 1).advanceBitPosition (n - 1)) = _
  rw [advanceBitPosition_advanceBitPosition, signedCode, List.length_cons, intBits_length,
    Nat.add_comm]

/-- An integer survives the cut to some bits if it has no more. -/
theorem ofNat_mod_eq_iff (v : BitVec 32) (n : ℕ) :
    BitVec.ofNat 32 (v.toNat % 2 ^ n) = v ↔ v.toNat < 2 ^ n := by
  constructor
  · intro h
    have hmod := congrArg BitVec.toNat h
    rw [BitVec.toNat_ofNat, Nat.mod_eq_of_lt ((Nat.mod_le ..).trans_lt v.isLt)] at hmod
    rw [← hmod]
    exact Nat.mod_lt _ (Nat.two_pow_pos n)
  · intro h
    rw [Nat.mod_eq_of_lt h, BitVec.ofNat_toNat, BitVec.setWidth_eq]

theorem signedBack_eq_iff (n : ℕ) (v : BitVec 32) :
    signedBack n v = v ↔ (magnitude v).toNat < 2 ^ (n - 1) := by
  rw [← ofNat_mod_eq_iff, signedBack]
  cases hsign : v.slt 0 with
  | true =>
    rw [if_pos rfl, BitVec.neg_eq_iff_eq_neg, magnitude, hsign, if_pos rfl]
  | false =>
    rw [if_neg Bool.false_ne_true, magnitude, hsign, if_neg Bool.false_ne_true]

end TypedStream

/-- Values that are written without error read back exactly if they fit. -/
def Marshal.Correct {V : Type} (m : Marshal V) (admissible fits : V → Prop) : Prop :=
  ∀ w v, admissible v → (m.write w v).bits.error = false →
    w.bits.error = false ∧ TypedStream.ReadsBack w (m.write w v) m.read v (fits v)

namespace Types
open TypedStream

theorem scalar_correct (numBytes : ℕ) :
    (scalar numBytes).Correct (fun _ => True) fun _ => True := by
  intro w v _ h
  obtain ⟨hstart, hstored⟩ := writeBits_stored h
  refine ⟨hstart, ReadsBack.of_bits hstored fun r more hahead => ?_⟩
  have hlt : v.toNat < 2 ^ (8 * numBytes) := v.isLt
  simp only [scalar, hahead.readBits (intBits_length ..), Option.getD_some, bitsInt_intBits,
    Nat.mod_eq_of_lt hlt, BitVec.ofNat_toNat, BitVec.setWidth_eq, intBits_length, true_and,
    imp_self]

theorem bool_correct : bool.Correct (fun _ => True) fun _ => True := by
  intro w v _ h
  obtain ⟨hstart, hstored⟩ := writeFlag_stored h
  refine ⟨hstart, ReadsBack.of_bits hstored fun r more hahead => ?_⟩
  have hread := readFlag_ahead hahead
  exact ⟨iff_of_true (congrArg Prod.fst hread) trivial, fun _ => congrArg Prod.snd hread⟩

theorem int_correct (bitCount : ℕ) :
    (int bitCount).Correct (fun _ => True) fun v => v.toNat < 2 ^ bitCount := by
  intro w v _ h
  obtain ⟨hstart, hstored⟩ := writeInt_stored h
  refine ⟨hstart, ReadsBack.of_bits hstored fun r more hahead => ?_⟩
  simp only [int, readInt_ahead hahead, ofNat_mod_eq_iff, intBits_length, true_and, imp_true_iff]

theorem signedInt_correct (bitCount : ℕ) :
    (signedInt bitCount).Correct (fun _ => True) fun v =>
      (magnitude v).toNat < 2 ^ (bitCount - 1) := by
  intro w v _ h
  obtain ⟨hstart, hstored⟩ := writeSignedInt_stored h
  refine ⟨hstart, ?_⟩
  simp only [signedInt, writeSignedInt_eq]
  refine ReadsBack.of_bits hstored fun r more hahead => ?_
  rw [readSignedInt_ahead hahead]
  exact ⟨signedBack_eq_iff bitCount v, fun _ => rfl⟩

theorem rangedU32_correct (minValue maxValue : U32) :
    (rangedU32 minValue maxValue).Correct (fun _ => True) fun v =>
      (v - minValue).toNat < 2 ^ (rangeBits minValue maxValue).toNat := by
  intro w v _ h
  obtain ⟨hstart, hstored⟩ := writeInt_stored h
  refine ⟨hstart, ReadsBack.of_bits hstored fun r more hahead => ?_⟩
  simp only [rangedU32, readRangedU32, readInt_ahead hahead, ← BitVec.eq_sub_iff_add_eq,
    ofNat_mod_eq_iff, intBits_length, true_and, imp_true_iff]

theorem float_correct (F : FloatConversions) (bitCount : ℕ) :
    (float F bitCount).Correct (fun _ => True) fun v => F.readFloat bitCount
      (BitVec.ofNat 32 ((F.writeFloat bitCount v).toNat % 2 ^ bitCount)) = v := by
  intro w v _ h
  obtain ⟨hstart, hstored⟩ := writeInt_stored h
  refine ⟨hstart, ReadsBack.of_bits hstored fun r more hahead => ?_⟩
  simp only [float, readInt_ahead hahead, intBits_length, true_and, imp_true_iff]

theorem signedFloat_correct (F : FloatConversions) (bitCount : ℕ) :
    (signedFloat F bitCount).Correct (fun _ => True) fun v =>
      F.readSignedFloat bitCount (signedBack bitCount (F.writeSignedFloat bitCount v)) = v := by
  intro w v _ h
  obtain ⟨hstart, hstored⟩ := writeSignedInt_stored h
  refine ⟨hstart, ?_⟩
  simp only [signedFloat, writeSignedInt_eq]
  refine ReadsBack.of_bits hstored fun r more hahead => ?_
  rw [readSignedInt_ahead hahead]
  exact ⟨Iff.rfl, fun _ => rfl⟩

theorem byteBuffer_correct :
    byteBuffer.Correct (fun _ => True) fun v => v.length < 2 ^ byteBufferSizeBitSize := by
  intro w v _ h
  obtain ⟨hmid, hbytes⟩ := writeBits_stored h
  obtain ⟨hstart, hsize⟩ := writeInt_stored hmid
  refine ⟨hstart, ReadsBack.of_bits (hsize.append hbytes) fun r more hahead => ?_⟩
  rw [List.append_assoc] at hahead
  have hread := readInt_ahead hahead
  by_cases hfits : v.length < 2 ^ byteBufferSizeBitSize
  · have hrest := hahead.advance
    rw [intBits_length] at hrest
    rw [Nat.mod_eq_of_lt hfits] at hread
    simp only [byteBuffer, hread]
    change ((toBytes (((r.bits.advanceBitPosition byteBufferSizeBitSize).readBits
      (v.length * 8)).1.getD []) v.length = v ↔ _) ∧ (_ → r.withBits
        ((r.bits.advanceBitPosition byteBufferSizeBitSize).readBits (v.length * 8)).2 = _))
    rw [hrest.readBits (flatMap_charBits_length v), Option.getD_some, toBytes_flatMap,
      advanceBitPosition_advanceBitPosition, List.length_append, intBits_length,
      flatMap_charBits_length]
    exact ⟨iff_of_true rfl hfits, fun _ => rfl⟩
  · refine ⟨iff_of_false (fun heq => hfits ?_) hfits, fun h => absurd h hfits⟩
    have hlength := congrArg List.length heq
    simp only [byteBuffer, hread, StringStream.toBytes_length] at hlength
    rw [← hlength]
    exact Nat.mod_lt _ (Nat.two_pow_pos _)

theorem ipAddress_correct : ipAddress.Correct (fun _ => True) fun _ => True := by
  intro w v _ h
  obtain ⟨hmid, hport⟩ := scalar_correct 2 _ v.2 trivial h
  obtain ⟨hstart, hnetNum⟩ := scalar_correct 4 _ v.1 trivial hmid
  exact ⟨hstart, (hnetNum.seq (g := Prod.mk) Prod.mk.inj hport).congr and_self_iff⟩

section strings

variable {tree : HuffTree} {buffer : ℕ → UInt8} {w r : TypedStream} {str : List UInt8}

theorem writeString_readsBack (hsymbols : ∀ c, c ∈ tree.symbols) (buffer : ℕ → UInt8)
    (hzero : 0 ∉ str) (hshort : str.length ≤ 255)
    (h : (w.writeString tree str).bits.error = false) : w.bits.error = false ∧
      ReadsBack w (w.writeString tree str) (readString tree buffer) str True := by
  obtain ⟨hstart, hstored⟩ := StringStream.writeString_stored h
  have hwhole : str.take 255 = str := List.take_of_length_le hshort
  refine ⟨hstart, _, hstored, fun r more hsynced hahead => ?_⟩
  obtain ⟨prev, hw, hr⟩ := hsynced.buffer
  have hcode := StringStream.stringCode_coded tree hw str 255
  rw [hwhole] at hcode
  obtain ⟨hstream, hheld, hbuf⟩ := StringStream.readString_ahead hr hcode hzero hshort
    (fun c _ => hsymbols c) hahead ⟨buffer, []⟩
  have hwritten := StringStream.writeString_holds tree w.strings
    (show 0 ∉ (some str).getD [] from hzero) le_rfl
  rw [Option.getD_some, hwhole] at hwritten
  exact ⟨iff_of_true hbuf.string_eq trivial,
    fun _ => ⟨⟨⟨str, hwritten, hheld⟩, hsynced.tables⟩, hstream⟩⟩

theorem string_correct (hsymbols : ∀ c, c ∈ tree.symbols) (buffer : ℕ → UInt8) :
    (string tree buffer).Correct (fun v => 0 ∉ v ∧ v.length ≤ 255) fun _ => True :=
  fun _ _ hv h => writeString_readsBack hsymbols buffer hv.1 hv.2 h

theorem stringTableEntry_correct (hsymbols : ∀ c, c ∈ tree.symbols) (getIndex : List UInt8 → ℕ)
    (buffer : ℕ → UInt8) : (stringTableEntry tree getIndex buffer).Correct
      (fun v => 0 ∉ v ∧ v.length ≤ 255) fun _ => True := by
  rintro w v ⟨hzero, hshort⟩ h
  simp only [stringTableEntry, TypedStream.writeStringTableEntry] at h ⊢
  cases htables : w.mStringTable with
  | none =>
    simp only [htables] at h ⊢
    obtain ⟨hstart, code, hstored, hread⟩ := writeString_readsBack hsymbols buffer hzero hshort h
    refine ⟨hstart, code, hstored, fun r more hsynced hahead => ?_⟩
    have hr := hsynced.tables_none htables
    simp only [TypedStream.readStringTableEntry, hr]
    exact hread r more hsynced hahead
  | some tables =>
    obtain ⟨hstring, hkept⟩ := sendEntry_spec getIndex tables.table v
    simp only [htables, ConnectionStringTable.writeStringTableEntry] at h ⊢
    generalize tables.table.sendEntry getIndex v = sent at h hstring hkept ⊢
    obtain ⟨entry, table⟩ := sent
    dsimp only at h hstring hkept ⊢
    rw [hstring] at h ⊢
    have hindex : entry.val % 2 ^ entryBitSize = entry.val := Nat.mod_eq_of_lt entry.isLt
    have hentry : ∀ h, (⟨entry.val % 2 ^ entryBitSize % entryCount, h⟩ : Fin entryCount) = entry :=
      fun h => Fin.ext (Nat.mod_eq_of_lt (hindex.symm ▸ entry.isLt) |>.trans hindex)
    by_cases hconfirmed : (table.mEntryTable entry).receiveConfirmed = true
    · -- the peer has the string already
      simp only [hconfirmed, if_true] at h ⊢
      obtain ⟨hmid, hflag⟩ := writeFlag_stored h
      obtain ⟨hstart, hint⟩ := writeInt_stored hmid
      refine ⟨hstart, _, hint.append hflag, fun r more hsynced hahead => ?_⟩
      obtain ⟨remote, hr, hagree⟩ := hsynced.tables_some htables
      rw [List.append_assoc] at hahead
      have hrest := hahead.advance
      rw [intBits_length] at hrest
      have hreadFlag := readFlag_ahead
        (r := r.withBits (r.bits.advanceBitPosition entryBitSize)) hrest
      simp only [TypedStream.readStringTableEntry, hr, readInt_ahead hahead, hreadFlag, if_true,
        hentry]
      have hkept' := hkept entry hconfirmed
      constructor
      · refine iff_of_true ?_ trivial
        rw [hagree entry (hkept' ▸ hconfirmed), ← hkept', hstring]
      · refine fun _ => ⟨⟨hsynced.buffer, ?_⟩, ?_⟩
        · change TablesAgree (some _) r.mStringTable
          rw [hr]
          intro e he
          have hsame := hkept e he
          rw [hsame] at he ⊢
          exact hagree e he
        · rw [List.length_append, intBits_length]
          exact advanceBitPosition_advanceBitPosition ..
    · -- the string follows, and the peer keeps it
      simp only [hconfirmed, if_false, Bool.false_eq_true] at h ⊢
      obtain ⟨hwritten, code, hstored, hread⟩ :=
        writeString_readsBack hsymbols buffer hzero hshort h
      obtain ⟨hmid, hflag⟩ := writeFlag_stored hwritten
      obtain ⟨hstart, hint⟩ := writeInt_stored hmid
      refine ⟨hstart, _, (hint.append hflag).append hstored, fun r more hsynced hahead => ?_⟩
      obtain ⟨remote, hr, hagree⟩ := hsynced.tables_some htables
      rw [List.append_assoc, List.append_assoc] at hahead
      have hrest := hahead.advance
      rw [intBits_length] at hrest
      have hreadFlag := readFlag_ahead
        (r := r.withBits (r.bits.advanceBitPosition entryBitSize)) hrest
      simp only [TypedStream.readStringTableEntry, hr, readInt_ahead hahead, hreadFlag,
        Bool.false_eq_true, if_false, hentry]
      have hagree' : ∀ e, (table.mEntryTable e).receiveConfirmed = true →
          remote.mRemoteStringTable e = (table.mEntryTable e).string := by
        intro e he
        have hsame := hkept e he
        rw [hsame] at he ⊢
        exact hagree e he
      generalize hr₂ : (r.withBits (r.bits.advanceBitPosition entryBitSize)).withBits
        ((r.withBits (r.bits.advanceBitPosition entryBitSize)).bits.advanceBitPosition 1) = r₂
      have hsynced₂ : Synced ((({ w with mStringTable := some { tables with table := table } } :
          TypedStream).writeInt entry.val entryBitSize).writeFlag false) r₂ := by
        subst hr₂
        refine ⟨hsynced.buffer, ?_⟩
        change TablesAgree (some _) r.mStringTable
        rw [hr]
        exact hagree'
      have hahead₂ : r₂.bits.Ahead (code ++ more) := hr₂ ▸ hrest.tail
      obtain ⟨hvalue, hend⟩ := hread r₂ more hsynced₂ hahead₂
      obtain ⟨hsynced', hbits⟩ := hend trivial
      constructor
      · rw [Function.update_self]
        exact hvalue
      · refine fun _ => ⟨⟨hsynced'.buffer, ?_⟩, ?_⟩
        · intro e he
          have hne : e ≠ entry := fun heq => hconfirmed (heq ▸ he)
          exact (Function.update_of_ne hne ..).trans (hagree' e he)
        · refine hbits.trans ?_
          subst hr₂
          change ((r.bits.advanceBitPosition entryBitSize).advanceBitPosition 1).advanceBitPosition
            code.length = _
          rw [advanceBitPosition_advanceBitPosition, advanceBitPosition_advanceBitPosition,
            List.length_append, List.length_append, intBits_length, List.length_singleton,
            Nat.add_assoc]

end strings

theorem readElements_length {V : Type} (m : Marshal V) (n : ℕ) (s : TypedStream) :
    (readElements m n s).1.length = n := by
  induction n generalizing s with
  | zero => rfl
  | succ n ih => exact congrArg Nat.succ (ih _)

theorem elements_readsBack {V : Type} {m : Marshal V} {admissible fits : V → Prop}
    (hm : m.Correct admissible fits) {vs : List V} (hvs : ∀ v ∈ vs, admissible v) {w : TypedStream}
    (h : (vs.foldl m.write w).bits.error = false) : w.bits.error = false ∧
      ReadsBack w (vs.foldl m.write w) (readElements m vs.length) vs (∀ v ∈ vs, fits v) := by
  induction vs generalizing w with
  | nil => exact ⟨h, [], Stored.nil w.bits, fun r more hsynced _ => ⟨by simp [readElements],
      fun _ => ⟨hsynced, rfl⟩⟩⟩
  | cons v vs ih =>
    obtain ⟨hmid, hrest⟩ := ih (fun v hv => hvs v (List.mem_cons_of_mem _ hv)) h
    obtain ⟨hstart, hfirst⟩ := hm w v (hvs v List.mem_cons_self) hmid
    exact ⟨hstart, (hfirst.seq (g := List.cons) List.cons.inj hrest).congr
      List.forall_mem_cons.symm⟩

theorem vector_correct {V : Type} {m : Marshal V} {admissible fits : V → Prop}
    (hm : m.Correct admissible fits) : (vector m).Correct (fun vs => ∀ v ∈ vs, admissible v)
      fun vs => vs.length < 2 ^ vectorSizeBitSize ∧ ∀ v ∈ vs, fits v := by
  intro w vs hvs h
  obtain ⟨hmid, code, hstored, hread⟩ := elements_readsBack hm hvs h
  obtain ⟨hstart, hsize⟩ := writeInt_stored hmid
  refine ⟨hstart, _, hsize.append hstored, fun r more hsynced hahead => ?_⟩
  rw [List.append_assoc] at hahead
  have hreadSize := readInt_ahead hahead
  have hrest := hahead.advance
  rw [intBits_length] at hrest
  by_cases hfits : vs.length < 2 ^ vectorSizeBitSize
  · rw [Nat.mod_eq_of_lt hfits] at hreadSize
    simp only [vector, hreadSize]
    obtain ⟨hvalue, hend⟩ := hread (r.withBits (r.bits.advanceBitPosition vectorSizeBitSize)) more
      ⟨hsynced.buffer, hsynced.tables⟩ hrest
    refine ⟨hvalue.trans (and_iff_right hfits).symm, fun h => ?_⟩
    obtain ⟨hsynced', hbits⟩ := hend h.2
    refine ⟨hsynced', hbits.trans ?_⟩
    rw [List.length_append, intBits_length]
    exact advanceBitPosition_advanceBitPosition ..
  · refine ⟨iff_of_false (fun heq => hfits ?_) fun h => hfits h.1, fun h => absurd h.1 hfits⟩
    have hlength := congrArg List.length heq
    simp only [vector, hreadSize, readElements_length] at hlength
    rw [← hlength]
    exact Nat.mod_lt _ (Nat.two_pow_pos _)

end Types

namespace ArgType

/-- The strings among a value are C strings of at most 255 characters. -/
def Admissible : (type : ArgType) → type.Value → Prop
  | string => fun v : List UInt8 => 0 ∉ v ∧ v.length ≤ 255
  | stringTableEntry => fun v : List UInt8 => 0 ∉ v ∧ v.length ≤ 255
  | vector element => fun v : List element.Value => ∀ e ∈ v, element.Admissible e
  | scalar _ | bool | int _ | signedInt _ | rangedU32 _ | float _ | signedFloat _ | byteBuffer
  | ipAddress => fun _ => True

/-- A value fits what its type has on the wire: a number its bits, a vector and a byte buffer the
bits of their size. -/
def Fits (P : TypeParams) : (type : ArgType) → type.Value → Prop
  | int bitCount => fun v : U32 => v.toNat < 2 ^ bitCount.val
  | signedInt bitCount => fun v : BitVec 32 =>
    (TypedStream.magnitude v).toNat < 2 ^ (bitCount.val - 1)
  | rangedU32 range => fun v : U32 =>
    (v - range.minValue).toNat < 2 ^ (TypedStream.rangeBits range.minValue range.maxValue).toNat
  | float bitCount => fun v : BitVec 32 => P.float.readFloat bitCount.val
    (BitVec.ofNat 32 ((P.float.writeFloat bitCount.val v).toNat % 2 ^ bitCount.val)) = v
  | signedFloat bitCount => fun v : BitVec 32 => P.float.readSignedFloat bitCount.val
    (TypedStream.signedBack bitCount.val (P.float.writeSignedFloat bitCount.val v)) = v
  | byteBuffer => fun v : List UInt8 => v.length < 2 ^ Types.byteBufferSizeBitSize
  | vector element => fun v : List element.Value =>
    v.length < 2 ^ Types.vectorSizeBitSize ∧ ∀ e ∈ v, element.Fits P e
  | scalar _ | bool | string | stringTableEntry | ipAddress => fun _ => True

theorem marshal_correct (P : TypeParams) (type : ArgType) :
    (type.marshal P).Correct type.Admissible (type.Fits P) := by
  induction type with
  | scalar numBytes => exact Types.scalar_correct numBytes
  | bool => exact Types.bool_correct
  | int bitCount => exact Types.int_correct bitCount.val
  | signedInt bitCount => exact Types.signedInt_correct bitCount.val
  | rangedU32 range => exact Types.rangedU32_correct range.minValue range.maxValue
  | float bitCount => exact Types.float_correct P.float bitCount.val
  | signedFloat bitCount => exact Types.signedFloat_correct P.float bitCount.val
  | string => exact Types.string_correct P.complete P.buffer
  | stringTableEntry => exact Types.stringTableEntry_correct P.complete P.getIndex P.buffer
  | byteBuffer => exact Types.byteBuffer_correct
  | ipAddress => exact Types.ipAddress_correct
  | vector element ih => exact Types.vector_correct ih

end ArgType

namespace Args

def Admissible : (types : List ArgType) → Args types → Prop
  | [], _ => True
  | type :: types, (a, args) => type.Admissible a ∧ Admissible types args

def Fit (P : TypeParams) : (types : List ArgType) → Args types → Prop
  | [], _ => True
  | type :: types, (a, args) => type.Fits P a ∧ Fit P types args

end Args

namespace FunctorDecl
open TypedStream

variable {P : TypeParams} {types : List ArgType}

theorem write_readsBack {args : Args types} (hargs : Args.Admissible types args) {w : TypedStream}
    (h : (write P types w args).bits.error = false) : w.bits.error = false ∧
      ReadsBack w (write P types w args) (read P types) args (Args.Fit P types args) := by
  induction types generalizing w with
  | nil => exact ⟨h, [], Stored.nil w.bits, fun r more hsynced _ => ⟨iff_of_true rfl trivial,
      fun _ => ⟨hsynced, rfl⟩⟩⟩
  | cons type types ih =>
    obtain ⟨a, args⟩ := args
    obtain ⟨hmid, hrest⟩ := ih hargs.2 h
    obtain ⟨hstart, hfirst⟩ := type.marshal_correct P w a hargs.1 hmid
    exact ⟨hstart, hfirst.seq (g := Prod.mk) Prod.mk.inj hrest⟩

end FunctorDecl

end TNL
