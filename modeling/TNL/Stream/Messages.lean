import TNL.Stream.StringRoundTrip

/-!
# Messages of integers, flags and strings

A message is a sequence of writes. Its reader reads one field after the other,
each perhaps depending on those before, and may turn the message down at any
point. The first string of a message is written against the string that the
stream held before, so that it needs a reader which holds as much of it.
-/
namespace TNL
open BitStream CharArray HuffmanStringProcessor

/-- A call of `writeInt`, `writeFlag` or `writeString`. -/
inductive FieldWrite
  | writeInt (value bitCount : ℕ)
  | writeFlag (val : Bool)
  | writeString (string : {string : List UInt8 // 0 ∉ string}) (maxLen : UInt8)

/-- A call of `readInt`, `readFlag` or `readString`, the last with a buffer of any contents. -/
inductive FieldRead
  | readInt (bitCount : ℕ)
  | readFlag
  | readString (buf : ℕ → UInt8)

inductive FieldValue
  | int (value : ℕ)
  | flag (val : Bool)
  | string (string : List UInt8)
  deriving DecidableEq

namespace FieldWrite

/-- What is written: the low bits of an integer, a string up to its maximum length. -/
def value : FieldWrite → FieldValue
  | writeInt value bitCount => .int (value % 2 ^ bitCount)
  | writeFlag val => .flag val
  | writeString string maxLen => .string (string.val.take maxLen.toNat)

def write (tree : HuffTree) (s : StringStream) : FieldWrite → StringStream
  | writeInt value bitCount => { s with stream := s.stream.writeInt value bitCount }
  | writeFlag val => { s with stream := s.stream.writeFlag val }
  | writeString string maxLen => s.writeString tree (some string.val) maxLen.toNat

/-- The string that the stream holds afterwards. -/
def heldAfter (prev : List UInt8) : FieldWrite → List UInt8
  | writeString string maxLen => string.val.take maxLen.toNat
  | _ => prev

def MatchedBy : FieldWrite → FieldRead → Prop
  | writeInt _ bitCount, .readInt bitCount' => bitCount = bitCount'
  | writeFlag _, .readFlag => True
  | writeString _ _, .readString _ => True
  | _, _ => False

end FieldWrite

def FieldRead.read (tree : HuffTree) (s : StringStream) : FieldRead → FieldValue × StringStream
  | .readInt bitCount =>
    let (value, stream) := s.stream.readInt bitCount
    (.int value, { s with stream := stream })
  | .readFlag =>
    let (val, stream) := s.stream.readFlag
    (.flag val, { s with stream := stream })
  | .readString buf =>
    let (s, buf) := s.readString tree ⟨buf, []⟩
    (.string buf.string, s)

def writeMessage (tree : HuffTree) (s : StringStream) (message : List FieldWrite) : StringStream :=
  message.foldl (fun s field => field.write tree s) s

/-- A reader that ends with its verdict on the message. -/
inductive MessageReader
  | done (accepted : Bool)
  | read (field : FieldRead) (next : FieldValue → MessageReader)

namespace MessageReader

/-- The values read and the verdict. -/
def run (tree : HuffTree) : MessageReader → StringStream → (List FieldValue × Bool) × StringStream
  | done accepted, s => (([], accepted), s)
  | read field next, s =>
    let (value, s) := field.read tree s
    let (result, s) := (next value).run tree s
    ((value :: result.1, result.2), s)

/-- The same over the values themselves. -/
def onValues : MessageReader → List FieldValue → List FieldValue × Bool
  | done accepted, _ => ([], accepted)
  | read _ _, [] => ([], false)
  | read _ next, value :: values =>
    let result := (next value).onValues values
    (value :: result.1, result.2)

/-- The reads match the writes, all of them if the message is accepted. -/
def Matches : MessageReader → List FieldWrite → Prop
  | done accepted, message => accepted = true → message = []
  | read _ _, [] => False
  | read field next, write :: message =>
    write.MatchedBy field ∧ (next write.value).Matches message

end MessageReader

/-- The string that the stream holds after a message. -/
def lastString (prev : List UInt8) (message : List FieldWrite) : List UInt8 :=
  message.foldl FieldWrite.heldAfter prev

/-- How many first characters two strings share. -/
def commonPrefix : List UInt8 → List UInt8 → ℕ
  | c :: cs, d :: ds => if c = d then commonPrefix cs ds + 1 else 0
  | _, _ => 0

def firstString : List FieldValue → Option (List UInt8)
  | [] => none
  | .string string :: _ => some string
  | _ :: values => firstString values

/-- A message written after `prev` makes sense to a reader that holds `held`: its first string
continues `prev` for two characters at most, or `held` starts with all that it continues. -/
def Compatible (prev held : List UInt8) (values : List FieldValue) : Prop :=
  ∀ string ∈ firstString values, 2 < commonPrefix prev string →
    commonPrefix prev string ≤ commonPrefix held string

section commonPrefix

variable {cs ds : List UInt8}

theorem commonPrefix_le_left (cs ds : List UInt8) : commonPrefix cs ds ≤ cs.length := by
  fun_induction commonPrefix cs ds with
  | case1 c cs ds ih => exact Nat.succ_le_succ ih
  | case2 => exact Nat.zero_le _
  | case3 => exact Nat.zero_le _

theorem commonPrefix_le_right (cs ds : List UInt8) : commonPrefix cs ds ≤ ds.length := by
  fun_induction commonPrefix cs ds with
  | case1 c cs ds ih => exact Nat.succ_le_succ ih
  | case2 => exact Nat.zero_le _
  | case3 => exact Nat.zero_le _

theorem getD_commonPrefix {i : ℕ} (hi : i < commonPrefix cs ds) : cs.getD i 0 = ds.getD i 0 := by
  fun_induction commonPrefix cs ds generalizing i with
  | case1 c cs ds ih =>
    cases i with
    | zero => rfl
    | succ i =>
      rw [List.getD_cons_succ, List.getD_cons_succ]
      exact ih (Nat.lt_of_succ_lt_succ hi)
  | case2 => exact absurd hi (Nat.not_lt_zero _)
  | case3 => exact absurd hi (Nat.not_lt_zero _)

theorem le_commonPrefix {n : ℕ} (hcs : n ≤ cs.length) (hds : n ≤ ds.length)
    (hshared : ∀ i < n, cs.getD i 0 = ds.getD i 0) : n ≤ commonPrefix cs ds := by
  fun_induction commonPrefix cs ds generalizing n with
  | case1 c cs ds ih =>
    cases n with
    | zero => exact Nat.zero_le _
    | succ n =>
      refine Nat.succ_le_succ (ih (Nat.le_of_succ_le_succ hcs) (Nat.le_of_succ_le_succ hds) ?_)
      intro i hi
      have hnext := hshared (i + 1) (Nat.succ_lt_succ hi)
      rwa [List.getD_cons_succ, List.getD_cons_succ] at hnext
  | case2 c cs d ds hne =>
    by_contra hlt
    exact hne (hshared 0 (by omega))
  | case3 cs ds hnone =>
    cases cs with
    | nil => exact hcs
    | cons c cs =>
      cases ds with
      | nil => exact hds
      | cons d ds => exact (hnone c cs d ds rfl rfl).elim

end commonPrefix

/-- What a string looks like on the wire after another one. -/
def stringBits (tree : HuffTree) (prev string : List UInt8) : List Bool :=
  let j := commonPrefix prev string
  if j > 2 then header true j ++ huffCode tree (string.drop j)
  else false :: huffCode tree string

def FieldWrite.bits (tree : HuffTree) (prev : List UInt8) : FieldWrite → List Bool
  | writeInt value bitCount => intBits value bitCount
  | writeFlag val => [val]
  | writeString string maxLen => stringBits tree prev (string.val.take maxLen.toNat)

def messageBits (tree : HuffTree) : List UInt8 → List FieldWrite → List Bool
  | _, [] => []
  | prev, field :: message =>
    field.bits tree prev ++ messageBits tree (field.heldAfter prev) message

/-- A message replaces the string that the stream holds or leaves it alone. -/
theorem lastString_cases (message : List FieldWrite) :
    (∀ prev, lastString prev message = prev) ∨
      ∃ string, ∀ prev, lastString prev message = string := by
  induction message with
  | nil => exact Or.inl fun _ => rfl
  | cons field message ih =>
    cases field with
    | writeInt value bitCount => exact ih
    | writeFlag val => exact ih
    | writeString string maxLen =>
      exact Or.inr ⟨lastString (string.val.take maxLen.toNat) message, fun _ => rfl⟩

theorem lastString_lastString (prev : List UInt8) (message : List FieldWrite) :
    lastString (lastString prev message) message = lastString prev message := by
  rcases lastString_cases message with hkept | ⟨string, hreplaced⟩
  · rw [hkept]
  · rw [hreplaced, hreplaced]

theorem compatible_nil (held : List UInt8) (values : List FieldValue) :
    Compatible [] held values := by
  intro string _hstring hlong
  cases hlong

open StringStream (huffCode_length_le) in
theorem stringBits_length_le (tree : HuffTree) (prev string : List UInt8) :
    (stringBits tree prev string).length ≤ 18 + string.length * 8 := by
  unfold stringBits
  dsimp only
  split_ifs with hlong
  · have hcode := huffCode_length_le tree (string.drop (commonPrefix prev string))
    rw [List.length_drop] at hcode
    rw [List.length_append, header_length]
    omega
  · have hcode := huffCode_length_le tree string
    rw [List.length_cons]
    omega

/-- The most bits that a write can take. -/
def FieldWrite.size : FieldWrite → ℕ
  | writeInt _ bitCount => bitCount
  | writeFlag _ => 1
  | writeString string _ => 18 + string.val.length * 8

theorem messageBits_length_le (tree : HuffTree) (prev : List UInt8) (message : List FieldWrite) :
    (messageBits tree prev message).length ≤ (message.map FieldWrite.size).sum := by
  induction message generalizing prev with
  | nil => exact le_rfl
  | cons field message ih =>
    have hfield : (field.bits tree prev).length ≤ field.size := by
      cases field with
      | writeInt value bitCount => exact (intBits_length ..).le
      | writeFlag val => exact le_rfl
      | writeString string maxLen =>
        have hbits := stringBits_length_le tree prev (string.val.take maxLen.toNat)
        rw [List.length_take] at hbits
        simp only [FieldWrite.bits, FieldWrite.size]
        omega
    rw [messageBits, List.length_append, List.map_cons, List.sum_cons]
    exact Nat.add_le_add hfield (ih _)

section writing

variable {tree : HuffTree} {s : BitStream} {w : StringStream} {prev string : List UInt8}
  {maxLen : ℕ}

/-- Two strings stop agreeing where they differ or end. -/
theorem agreeing_stops {a : CharArray} (h : StringStream.agreeing a string maxLen < maxLen) :
    a.chars (StringStream.agreeing a string maxLen) =
      string.getD (StringStream.agreeing a string maxLen) 0 →
    string.getD (StringStream.agreeing a string maxLen) 0 = 0 := by
  intro hsame
  have hplace : StringStream.agreeing a string maxLen < (List.range maxLen).length := by
    rwa [List.length_range]
  unfold StringStream.agreeing at hplace
  have hstop := List.findIdx_getElem (w := hplace)
  rw [List.getElem_range] at hstop
  change (!(a.chars (StringStream.agreeing a string maxLen) ==
    string.getD (StringStream.agreeing a string maxLen) 0 &&
    string.getD (StringStream.agreeing a string maxLen) 0 != 0)) = true at hstop
  rw [hsame] at hstop
  by_contra hne
  rw [beq_self_eq_true, Bool.true_and, bne_iff_ne.mpr hne] at hstop
  cases hstop

/-- The string buffer of the stream stands for the string that it holds. -/
theorem agreeing_eq {a : CharArray} (h : a.Holds prev) (hzero : 0 ∉ string) (maxLen : ℕ) :
    StringStream.agreeing a string maxLen = commonPrefix prev (string.take maxLen) := by
  have hprev := StringStream.agreeing_le_of_holds h string maxLen
  have hmax := StringStream.agreeing_le a string maxLen
  have hlength := StringStream.agreeing_le_length a string maxLen
  apply le_antisymm
  · apply le_commonPrefix hprev
    · rw [List.length_take]
      exact le_min hmax hlength
    · intro i hi
      rw [StringStream.getD_take (hi.trans_le hmax), ← h.chars i (hi.le.trans hprev)]
      exact (StringStream.agreeing_lt hi).1
  · by_contra hlt
    have hstop := not_le.mp hlt
    have hleft := hstop.trans_le (commonPrefix_le_left ..)
    have hright := hstop.trans_le (commonPrefix_le_right ..)
    rw [List.length_take] at hright
    have hshared := getD_commonPrefix hstop
    rw [StringStream.getD_take (by omega), ← h.chars _ hprev] at hshared
    have hend := agreeing_stops (by omega) hshared
    rw [List.getD_eq_getElem _ _ (by omega)] at hend
    exact hzero (hend ▸ List.getElem_mem _)

theorem stringCode_eq {a : CharArray} (h : a.Holds prev) (hzero : 0 ∉ string) (maxLen : ℕ) :
    StringStream.stringCode tree a string maxLen =
      stringBits tree prev (string.take maxLen) := by
  unfold StringStream.stringCode stringBits
  dsimp only
  rw [agreeing_eq h hzero, List.drop_take]
  rfl

theorem writeHeader_fits (val : Bool) (value : ℕ) (h : s.bitNum + 9 ≤ s.maxWriteBitNum) :
    s.Wrote (header val value) ((s.writeFlag val).writeInt value 8) := by
  have hflag := writeFlag_fits val (show s.bitNum + 1 ≤ s.maxWriteBitNum by omega)
  have hroom : (s.writeFlag val).bitNum + 8 ≤ (s.writeFlag val).maxWriteBitNum := by
    rw [hflag.position, hflag.maxWrite, List.length_singleton]
    omega
  exact hflag.append (writeInt_fits value 8 hroom)

theorem writeHuffBuffer_fits {maxLen : ℕ} (h : s.bitNum +
    (huffCode tree (string.take maxLen)).length ≤ s.maxWriteBitNum) :
    s.Wrote (huffCode tree (string.take maxLen))
      (writeHuffBuffer tree s (some string) maxLen) := by
  have hlength : (if string.length > maxLen then maxLen else string.length) =
      (string.take maxLen).length := by
    rw [List.length_take]
    split_ifs <;> omega
  rw [writeHuffBuffer, take_min, hlength]
  generalize string.take maxLen = cs at h ⊢
  rw [huffCode] at h ⊢
  split_ifs at h ⊢
  · rw [List.length_append, header_length] at h
    have hheader := writeHeader_fits false cs.length (show s.bitNum + 9 ≤ _ by omega)
    apply hheader.append
    apply writeBits_fits
    rw [hheader.position, hheader.maxWrite, header_length]
    omega
  · rw [List.length_append, header_length] at h
    have hheader := writeHeader_fits true cs.length (show s.bitNum + 9 ≤ _ by omega)
    have hroom : ((s.writeFlag true).writeInt cs.length 8).bitNum +
        (cs.map tree.code).flatten.length ≤
          ((s.writeFlag true).writeInt cs.length 8).maxWriteBitNum := by
      rw [hheader.position, hheader.maxWrite, header_length]
      change _ + (cs.flatMap tree.code).length ≤ _
      omega
    exact hheader.append (writeAll_fits hroom)

theorem writeString_fits (hholds : w.mStringBuffer.Holds prev) (hzero : 0 ∉ string)
    (h : w.stream.bitNum + (stringBits tree prev (string.take maxLen)).length ≤
      w.stream.maxWriteBitNum) :
    w.stream.Wrote (stringBits tree prev (string.take maxLen))
      (w.writeString tree (some string) maxLen).stream := by
  rw [← stringCode_eq hholds hzero, StringStream.stringCode] at h ⊢
  rw [StringStream.writeString, Option.getD_some]
  by_cases hlong : StringStream.agreeing w.mStringBuffer string maxLen > 2
  · simp only [if_pos hlong, decide_eq_true hlong] at h ⊢
    rw [List.length_append, header_length] at h
    have hheader := writeHeader_fits (s := w.stream) true
      (StringStream.agreeing w.mStringBuffer string maxLen) (by omega)
    apply hheader.append
    apply writeHuffBuffer_fits
    rw [hheader.position, hheader.maxWrite, header_length]
    omega
  · simp only [if_neg hlong, decide_eq_false hlong] at h ⊢
    rw [List.length_append, List.length_singleton] at h
    have hflag := writeFlag_fits (s := w.stream) false (by omega)
    apply hflag.append
    apply writeHuffBuffer_fits
    rw [hflag.position, hflag.maxWrite, List.length_singleton]
    omega

theorem FieldWrite.write_fits (field : FieldWrite) (hholds : w.mStringBuffer.Holds prev)
    (h : w.stream.bitNum + (field.bits tree prev).length ≤ w.stream.maxWriteBitNum) :
    w.stream.Wrote (field.bits tree prev) (field.write tree w).stream ∧
      (field.write tree w).mStringBuffer.Holds (field.heldAfter prev) := by
  cases field with
  | writeInt value bitCount =>
    rw [FieldWrite.bits, intBits_length] at h
    exact ⟨writeInt_fits value bitCount h, hholds⟩
  | writeFlag val => exact ⟨writeFlag_fits val h, hholds⟩
  | writeString string maxLen =>
    have hmax : maxLen.toNat ≤ 255 := Nat.le_of_lt_succ maxLen.toNat_lt
    exact ⟨writeString_fits hholds string.property h,
      StringStream.writeString_holds tree w string.property hmax⟩

/-- A message that fits is written as it is. -/
theorem writeMessage_fits {message : List FieldWrite} (hholds : w.mStringBuffer.Holds prev)
    (h : w.stream.bitNum + (messageBits tree prev message).length ≤ w.stream.maxWriteBitNum) :
    w.stream.Wrote (messageBits tree prev message) (writeMessage tree w message).stream ∧
      (writeMessage tree w message).mStringBuffer.Holds (lastString prev message) := by
  induction message generalizing w prev with
  | nil => exact ⟨Wrote.nil w.stream, hholds⟩
  | cons field message ih =>
    rw [messageBits, List.length_append] at h
    have hfirst : w.stream.bitNum + (field.bits tree prev).length ≤ w.stream.maxWriteBitNum := by
      omega
    obtain ⟨hfield, hheld⟩ := field.write_fits hholds hfirst
    have hrest : (field.write tree w).stream.bitNum +
        (messageBits tree (field.heldAfter prev) message).length ≤
          (field.write tree w).stream.maxWriteBitNum := by
      rw [hfield.position, hfield.maxWrite]
      omega
    obtain ⟨hmessage, hlast⟩ := ih hheld hrest
    exact ⟨hfield.append hmessage, hlast⟩

end writing

section reading

variable {tree : HuffTree} {r : StringStream} {prev held string : List UInt8} {more : List Bool}

theorem stringBits_coded (tree : HuffTree) (h : 2 < commonPrefix prev string →
    commonPrefix prev string ≤ commonPrefix held string) :
    StringStream.Coded tree held string (stringBits tree prev string) := by
  unfold stringBits
  dsimp only
  split_ifs with hlong
  · have hle := h hlong
    apply StringStream.Coded.continued
    · exact hle.trans (commonPrefix_le_left ..)
    · exact commonPrefix_le_right ..
    · intro i hi
      exact getD_commonPrefix (hi.trans_le hle)
  · exact StringStream.Coded.whole

theorem strlen_zero {src : CharArray} {e limit : ℕ} (he : src.chars e = 0) (hlimit : e < limit) :
    src.chars (src.strlen limit) = 0 := by
  have hplace : src.strlen limit < (List.range limit).length := by
    rw [List.length_range]
    exact (strlen_le he hlimit).trans_lt hlimit
  unfold CharArray.strlen at hplace
  have hzero := List.findIdx_getElem (w := hplace)
  rw [List.getElem_range] at hzero
  exact eq_of_beq hzero

theorem strcpy_chars (dest src : CharArray) {i limit : ℕ} (hi : i ≤ src.strlen limit) :
    (dest.strcpy src limit).chars i = src.chars i := by
  have hlength : i < ((List.range (src.strlen limit + 1)).map src.chars).length := by
    rw [List.length_map, List.length_range]
    exact Nat.lt_succ_of_le hi
  rw [CharArray.strcpy, store_chars, if_pos ⟨Nat.zero_le _, by omega⟩, Nat.sub_zero,
    List.getD_eq_getElem _ _ hlength, List.getElem_map, List.getElem_range]

theorem chars_of_string {a : CharArray} (h : a.string = string) {i : ℕ} (hi : i < string.length) :
    a.chars i = string.getD i 0 := by
  subst h
  unfold CharArray.string at hi ⊢
  rw [List.getD_eq_getElem _ _ hi, List.getElem_map, List.getElem_range]

theorem getD_ne_zero (hzero : 0 ∉ string) {i : ℕ} (hi : i < string.length) :
    string.getD i 0 ≠ 0 := by
  rw [List.getD_eq_getElem _ _ hi]
  exact fun heq => hzero (heq ▸ List.getElem_mem hi)

/-- A copy has the characters of the string only if the original has. -/
theorem chars_of_strcpy {dest src : CharArray} {limit e : ℕ} (he : src.chars e = 0)
    (hlimit : e < limit) (hzero : 0 ∉ string) (h : (dest.strcpy src limit).string = string)
    {i : ℕ} (hi : i < string.length) : src.chars i = string.getD i 0 := by
  have hlength : string.length ≤ src.strlen limit := by
    by_contra hlt
    have hplace := not_le.mp hlt
    have hend := chars_of_string h hplace
    rw [strcpy_chars dest src le_rfl, strlen_zero he hlimit] at hend
    exact getD_ne_zero hzero hplace hend.symm
  rw [← strcpy_chars dest src (hi.le.trans hlength)]
  exact chars_of_string h hi

/-- A string comes out as it is exactly if the reader holds all that it continues. -/
theorem readString_eq_iff (hheld : r.mStringBuffer.Holds held) (hzero : 0 ∉ string)
    (hshort : string.length ≤ 255) (hsymbols : ∀ c ∈ string, c ∈ tree.symbols)
    (hr : r.stream.Ahead (stringBits tree prev string ++ more)) (buf : CharArray) :
    (r.readString tree buf).2.string = string ↔ (2 < commonPrefix prev string →
      commonPrefix prev string ≤ commonPrefix held string) := by
  constructor
  · intro heq hlong
    have hle := commonPrefix_le_right prev string
    unfold stringBits at hr
    dsimp only at hr
    rw [if_pos hlong, List.append_assoc] at hr
    generalize commonPrefix prev string = j at hlong hle hr
    have hrest : (string.drop j).length < 2 ^ 8 := by
      rw [List.length_drop]
      omega
    obtain ⟨hflag, hoffset, hbody⟩ := readHeader_ahead (by omega) hr
    have hread := readHuffBuffer_ahead (fun c hc => hsymbols c (List.mem_of_mem_drop hc)) hrest
      hbody r.mStringBuffer j
    generalize hsize : 2 * stringBufferSize = limit
    have hlimit : limit = 512 := hsize.symm
    unfold StringStream.readString at heq
    simp only [hflag, hoffset, hread, if_true, hsize] at heq
    have hplace : j + (string.drop j).length < limit := by
      rw [List.length_drop]
      omega
    have hchars : ∀ i < j, r.mStringBuffer.chars i = string.getD i 0 := by
      intro i hi
      have hcopied := chars_of_strcpy (Function.update_self ..) hplace hzero heq (hi.trans_le hle)
      have hne : i ≠ j + (string.drop j).length := by omega
      rw [← hcopied]
      refine Eq.symm ((Function.update_of_ne hne ..).trans ?_)
      rw [store_chars, if_neg (by omega)]
    have hlength : j ≤ held.length := by
      by_contra hlt
      have hend := hchars held.length (not_le.mp hlt)
      rw [hheld.chars _ le_rfl, List.getD_eq_default _ _ le_rfl] at hend
      exact getD_ne_zero hzero ((not_le.mp hlt).trans_le hle) hend.symm
    apply le_commonPrefix hlength hle
    intro i hi
    rw [← hheld.chars i (hi.le.trans hlength)]
    exact hchars i hi
  · intro h
    have hread := StringStream.readString_ahead hheld (stringBits_coded tree h) hzero hshort
      hsymbols hr buf
    exact hread.2.2.string_eq

theorem compatible_refl (prev : List UInt8) (values : List FieldValue) :
    Compatible prev prev values :=
  fun _ _ _ => le_rfl

theorem Compatible.head {value : FieldValue} {values : List FieldValue}
    (h : Compatible prev held (value :: values)) : Compatible prev held [value] := by
  intro string hstring
  cases value with
  | int value => cases hstring
  | flag val => cases hstring
  | string first => exact h string hstring

theorem FieldRead.read_ahead (hsymbols : ∀ c, c ∈ tree.symbols) {write : FieldWrite}
    {field : FieldRead} (hmatch : write.MatchedBy field) (hheld : r.mStringBuffer.Holds held)
    (hcompatible : Compatible prev held [write.value])
    (hr : r.stream.Ahead (write.bits tree prev ++ more)) :
    (field.read tree r).1 = write.value ∧
      (field.read tree r).2.stream =
        r.stream.advanceBitPosition (write.bits tree prev).length ∧
      (field.read tree r).2.mStringBuffer.Holds (write.heldAfter held) := by
  cases write with
  | writeInt value bitCount =>
    cases field with
    | readInt bitCount' =>
      obtain rfl : bitCount = bitCount' := hmatch
      have hread := Ahead.readInt hr
      simp only [FieldRead.read, hread]
      refine ⟨rfl, ?_, hheld⟩
      rw [FieldWrite.bits, intBits_length]
    | readFlag => exact hmatch.elim
    | readString buf => exact hmatch.elim
  | writeFlag val =>
    cases field with
    | readInt bitCount => exact hmatch.elim
    | readFlag =>
      have hread := Ahead.readFlag hr
      simp only [FieldRead.read, hread]
      exact ⟨rfl, rfl, hheld⟩
    | readString buf => exact hmatch.elim
  | writeString string maxLen =>
    cases field with
    | readInt bitCount => exact hmatch.elim
    | readFlag => exact hmatch.elim
    | readString buf =>
      have hcode := stringBits_coded tree (hcompatible _ rfl)
      have hzero : 0 ∉ string.val.take maxLen.toNat :=
        fun hmem => string.property (List.mem_of_mem_take hmem)
      have hshort : (string.val.take maxLen.toNat).length ≤ 255 := by
        have := maxLen.toNat_lt
        rw [List.length_take]
        omega
      obtain ⟨hstream, hholds, hbuf⟩ := StringStream.readString_ahead hheld hcode hzero hshort
        (fun c _ => hsymbols c) hr ⟨buf, []⟩
      exact ⟨congrArg FieldValue.string hbuf.string_eq, hstream, hholds⟩

theorem FieldRead.compatible_of_read (hsymbols : ∀ c, c ∈ tree.symbols) {write : FieldWrite}
    {field : FieldRead} (hmatch : write.MatchedBy field) (hheld : r.mStringBuffer.Holds held)
    (hr : r.stream.Ahead (write.bits tree prev ++ more))
    (heq : (field.read tree r).1 = write.value) : Compatible prev held [write.value] := by
  cases write with
  | writeInt value bitCount =>
    intro string hstring
    cases hstring
  | writeFlag val =>
    intro string hstring
    cases hstring
  | writeString string maxLen =>
    cases field with
    | readInt bitCount => exact hmatch.elim
    | readFlag => exact hmatch.elim
    | readString buf =>
      have hzero : 0 ∉ string.val.take maxLen.toNat :=
        fun hmem => string.property (List.mem_of_mem_take hmem)
      have hshort : (string.val.take maxLen.toNat).length ≤ 255 := by
        have := maxLen.toNat_lt
        rw [List.length_take]
        omega
      have hread := (readString_eq_iff hheld hzero hshort (fun c _ => hsymbols c) hr
        ⟨buf, []⟩).mp (FieldValue.string.inj heq)
      intro first hfirst
      cases hfirst
      exact hread

namespace MessageReader

variable {reader : MessageReader} {message : List FieldWrite}

theorem run_read_iff {field : FieldRead} {next : FieldValue → MessageReader} {value : FieldValue}
    {result : List FieldValue × Bool} :
    ((read field next).run tree r).1 = (value :: result.1, result.2) ↔
      (field.read tree r).1 = value ∧
        ((next (field.read tree r).1).run tree (field.read tree r).2).1 = result := by
  rw [Prod.ext_iff, Prod.ext_iff, ← and_assoc]
  apply and_congr_left
  intro _hverdict
  exact List.cons_eq_cons

/-- A reader that holds enough of what the writer held reads the message as it was written, and ends
with the same string as the writer if the message has any. -/
theorem run_ahead (hsymbols : ∀ c, c ∈ tree.symbols) (hmatches : reader.Matches message)
    (hheld : r.mStringBuffer.Holds held)
    (hcompatible : Compatible prev held (reader.onValues (message.map FieldWrite.value)).1)
    (hr : r.stream.Ahead (messageBits tree prev message ++ more)) :
    (reader.run tree r).1 = reader.onValues (message.map FieldWrite.value) ∧
      (∃ n, (reader.run tree r).2.stream = r.stream.advanceBitPosition n) ∧
      ((reader.run tree r).1.2 = true →
        (reader.run tree r).2.mStringBuffer.Holds (lastString held message)) := by
  induction message generalizing reader r prev held with
  | nil =>
    cases reader with
    | done accepted => exact ⟨rfl, ⟨0, rfl⟩, fun _ => hheld⟩
    | read field next => exact hmatches.elim
  | cons write message ih =>
    cases reader with
    | done accepted =>
      refine ⟨rfl, ⟨0, rfl⟩, fun haccepted => ?_⟩
      cases hmatches haccepted
    | read field next =>
      obtain ⟨hmatch, hnext⟩ := hmatches
      rw [messageBits, List.append_assoc] at hr
      obtain ⟨hvalue, hstream, hholds⟩ := FieldRead.read_ahead hsymbols hmatch hheld
        hcompatible.head hr
      have hrest := hr.advance
      rw [← hstream] at hrest
      have hfollows : Compatible (write.heldAfter prev) (write.heldAfter held)
          ((next write.value).onValues (message.map FieldWrite.value)).1 := by
        cases write with
        | writeInt value bitCount => exact hcompatible
        | writeFlag val => exact hcompatible
        | writeString string maxLen => exact compatible_refl _ _
      rw [← hvalue] at hnext hfollows
      obtain ⟨hrun, ⟨n, hposition⟩, hlast⟩ := ih hnext hholds hfollows hrest
      refine ⟨?_, ⟨(write.bits tree prev).length + n, ?_⟩, hlast⟩
      · rw [List.map_cons, onValues, run_read_iff, ← hvalue]
        exact ⟨rfl, hrun⟩
      · rw [hstream, advanceBitPosition_advanceBitPosition] at hposition
        exact hposition

theorem compatible_of_run (hsymbols : ∀ c, c ∈ tree.symbols) (hmatches : reader.Matches message)
    (hheld : r.mStringBuffer.Holds held)
    (hr : r.stream.Ahead (messageBits tree prev message ++ more))
    (heq : (reader.run tree r).1 = reader.onValues (message.map FieldWrite.value)) :
    Compatible prev held (reader.onValues (message.map FieldWrite.value)).1 := by
  induction message generalizing reader r with
  | nil =>
    cases reader with
    | done accepted =>
      intro string hstring
      cases hstring
    | read field next => exact hmatches.elim
  | cons write message ih =>
    cases reader with
    | done accepted =>
      intro string hstring
      cases hstring
    | read field next =>
      obtain ⟨hmatch, hnext⟩ := hmatches
      rw [messageBits, List.append_assoc] at hr
      rw [List.map_cons, onValues, run_read_iff] at heq
      have hfirst := FieldRead.compatible_of_read hsymbols hmatch hheld hr heq.1
      obtain ⟨hvalue, hstream, hholds⟩ := FieldRead.read_ahead hsymbols hmatch hheld hfirst hr
      have hrest := hr.advance
      rw [← hstream] at hrest
      rw [hvalue] at heq
      cases write with
      | writeInt value bitCount => exact ih hnext hholds hrest heq.2
      | writeFlag val => exact ih hnext hholds hrest heq.2
      | writeString string maxLen => exact hfirst

/-- A reader that may hold another string than the writer held reads the message as it was written
exactly if the two are compatible. -/
theorem run_eq_iff (hsymbols : ∀ c, c ∈ tree.symbols) (hmatches : reader.Matches message)
    (hheld : r.mStringBuffer.Holds held)
    (hr : r.stream.Ahead (messageBits tree prev message ++ more)) :
    (reader.run tree r).1 = reader.onValues (message.map FieldWrite.value) ↔
      Compatible prev held (reader.onValues (message.map FieldWrite.value)).1 :=
  ⟨compatible_of_run hsymbols hmatches hheld hr, fun hcompatible =>
    (run_ahead hsymbols hmatches hheld hcompatible hr).1⟩

/-- A message is read as it was written from a packet that has just been received, where neither
side holds a string yet. -/
theorem run_received (hsymbols : ∀ c, c ∈ tree.symbols) (hmatches : reader.Matches message)
    {w : StringStream} (hw : w.mStringBuffer.Holds []) (hheld : r.mStringBuffer.Holds [])
    (hfits : w.stream.bitNum + (messageBits tree [] message).length ≤ w.stream.maxWriteBitNum)
    (hposition : r.stream.bitNum = w.stream.bitNum)
    (hsame : ∀ i < (writeMessage tree w message).stream.bitNum,
      r.stream.buffer i = (writeMessage tree w message).stream.buffer i)
    (hinside : (writeMessage tree w message).stream.bitNum ≤ r.stream.maxReadBitNum)
    (hsmall : r.stream.maxReadBitNum < 2 ^ 32) :
    (reader.run tree r).1 = reader.onValues (message.map FieldWrite.value) := by
  obtain ⟨hwrote, -⟩ := writeMessage_fits hw hfits
  have hahead : r.stream.Ahead (messageBits tree [] message ++ []) := by
    rw [List.append_nil]
    refine ⟨?_, ?_, hsmall⟩
    · have hend := hwrote.position
      rw [hposition, window_congr fun i _ hi => hsame i (by omega)]
      exact hwrote.holds
    · rw [hposition, ← hwrote.position]
      exact hinside
  exact (run_ahead hsymbols hmatches hheld (compatible_nil _ _) hahead).1

end MessageReader

end reading

end TNL
