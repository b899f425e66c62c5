import TNL.Stream.HuffmanTables
import TNL.Stream.StringWriter

/-!
# Strings written are read back

Writer and reader hold the same string before every string of a stream, so that
the common prefix means the same to both. Its characters, Huffman coded or not,
read back as they are.
-/
namespace TNL
open BitStream CharArray

namespace HuffmanStringProcessor

variable {tree : HuffTree} {s : BitStream} {cs : List UInt8} {more : List Bool}

theorem flatMap_charBits_length (cs : List UInt8) : (cs.flatMap charBits).length = cs.length * 8 := by
  simp [List.length_flatMap, charBits]

theorem take_min {α : Type*} (l : List α) (n : ℕ) :
    l.take (if l.length > n then n else l.length) = l.take n := by
  split_ifs with h
  · rfl
  · rw [List.take_length, List.take_of_length_le (Nat.not_lt.mp h)]

/-- A flag and eight bits, which stand in front of an offset or a length. -/
def header (val : Bool) (value : ℕ) : List Bool := val :: intBits value 8

@[simp] theorem header_length (val : Bool) (value : ℕ) : (header val value).length = 9 := rfl

theorem writeHeader_stored {val : Bool} {value : ℕ}
    (h : ((s.writeFlag val).writeInt value 8).error = false) :
    s.error = false ∧ s.Stored (header val value) ((s.writeFlag val).writeInt value 8) := by
  obtain ⟨hflagError, hint⟩ := writeInt_stored h
  obtain ⟨hstart, hflag⟩ := writeFlag_stored hflagError
  exact ⟨hstart, hflag.append hint⟩

theorem readHeader_ahead {val : Bool} {value : ℕ} (hvalue : value < 2 ^ 8)
    (hs : s.Ahead (header val value ++ more)) :
    s.readFlag = (val, s.advanceBitPosition 1) ∧
      (s.advanceBitPosition 1).readInt 8 = (value, s.advanceBitPosition 9) ∧
      (s.advanceBitPosition 9).Ahead more := by
  have hint := hs.tail.readInt
  rw [Nat.mod_eq_of_lt hvalue, advanceBitPosition_advanceBitPosition] at hint
  exact ⟨hs.readFlag, hint, hs.advance⟩

/-- The characters of a string on the wire, Huffman coded when that is shorter. -/
def huffCode (tree : HuffTree) (cs : List UInt8) : List Bool :=
  if (cs.map fun c => (tree.code c).length).sum ≥ cs.length * 8 then
    header false cs.length ++ cs.flatMap charBits
  else header true cs.length ++ cs.flatMap tree.code

theorem writeHuffBuffer_stored {string : List UInt8} {maxLen : ℕ}
    (h : (writeHuffBuffer tree s (some string) maxLen).error = false) :
    s.error = false ∧ s.Stored (huffCode tree (string.take maxLen))
      (writeHuffBuffer tree s (some string) maxLen) := by
  have hlength : (if string.length > maxLen then maxLen else string.length) =
      (string.take maxLen).length := by
    rw [List.length_take]
    split_ifs <;> omega
  rw [writeHuffBuffer, take_min, hlength] at h ⊢
  generalize string.take maxLen = cs at h ⊢
  rw [huffCode]
  by_cases hraw : (cs.map fun c => (tree.code c).length).sum ≥ cs.length * 8
  · simp only [if_pos hraw] at h ⊢
    obtain ⟨hmid, hbits⟩ := writeBits_stored h
    obtain ⟨hstart, hheader⟩ := writeHeader_stored hmid
    exact ⟨hstart, hheader.append hbits⟩
  · simp only [if_neg hraw] at h ⊢
    obtain ⟨hmid, hbits⟩ := writeAll_stored h
    obtain ⟨hstart, hheader⟩ := writeHeader_stored hmid
    exact ⟨hstart, hheader.append hbits⟩

theorem writeHuffBuffer_growable (tree : HuffTree) (h : s.Growable) (string : Option (List UInt8)) (maxLen : ℕ) :
    (writeHuffBuffer tree s string maxLen).Growable ∧
      (writeHuffBuffer tree s string maxLen).error = s.error := by
  have hheader : ∀ val value, ((s.writeFlag val).writeInt value 8).Growable ∧
      ((s.writeFlag val).writeInt value 8).error = s.error := by
    intro val value
    obtain ⟨hflag, herror⟩ := h.writeFlag val
    obtain ⟨hint, herror'⟩ := hflag.writeBits (intBits value 8)
    exact ⟨hint, herror'.trans herror⟩
  cases string with
  | none => exact hheader false 0
  | some string =>
    simp only [writeHuffBuffer]
    generalize (if string.length > maxLen then maxLen else string.length) = len
    split_ifs
    · obtain ⟨hgrow, herror⟩ := hheader false len
      obtain ⟨hbits, herror'⟩ := hgrow.writeBits ((string.take len).flatMap charBits)
      exact ⟨hbits, herror'.trans herror⟩
    · obtain ⟨hgrow, herror⟩ := hheader true len
      obtain ⟨hbits, herror'⟩ := hgrow.writeAll ((string.take len).map tree.code)
      exact ⟨hbits, herror'.trans herror⟩

theorem toBytes_flatMap (cs : List UInt8) : toBytes (cs.flatMap charBits) cs.length = cs := by
  induction cs with
  | nil => rfl
  | cons c cs ih =>
    have hlength : (charBits c).length = 8 := intBits_length ..
    rw [List.flatMap_cons, List.length_cons, toBytes, List.take_left' hlength,
      List.drop_left' hlength, ih, charBits, bitsInt_intBits, Nat.mod_eq_of_lt c.toNat_lt,
      UInt8.ofNat_toNat]

theorem readSymbols_ahead (hsymbols : ∀ c ∈ cs, c ∈ tree.symbols)
    (hs : s.Ahead (cs.flatMap tree.code ++ more)) :
    readSymbols tree cs.length s = (cs, s.advanceBitPosition (cs.flatMap tree.code).length) := by
  induction cs generalizing s with
  | nil => rfl
  | cons c cs ih =>
    rw [List.flatMap_cons, List.append_assoc] at hs
    have hread := HuffTree.readSymbol_ahead (HuffTree.code_mem (hsymbols c List.mem_cons_self)) hs
    have hrest := ih (fun c hc => hsymbols c (List.mem_cons_of_mem _ hc)) hs.advance
    rw [List.length_cons, readSymbols, hread, List.flatMap_cons, List.length_append]
    simp only [hrest, advanceBitPosition_advanceBitPosition]

theorem readHuffBuffer_ahead (hsymbols : ∀ c ∈ cs, c ∈ tree.symbols) (hshort : cs.length < 2 ^ 8)
    (hs : s.Ahead (huffCode tree cs ++ more)) (out : CharArray) (place : ℕ) :
    readHuffBuffer tree s out place = (s.advanceBitPosition (huffCode tree cs).length,
      (out.store place cs).set (place + cs.length) 0) := by
  rw [huffCode] at hs ⊢
  by_cases hraw : (cs.map fun c => (tree.code c).length).sum ≥ cs.length * 8
  · rw [if_pos hraw, List.append_assoc] at hs
    obtain ⟨hflag, hlength, hbody⟩ := readHeader_ahead hshort hs
    have hbits := hbody.readBits (flatMap_charBits_length cs)
    simp only [readHuffBuffer, hflag, hlength, hbits, toBytes_flatMap, Bool.false_eq_true,
      if_false, if_pos hraw, advanceBitPosition_advanceBitPosition, List.length_append,
      header_length, flatMap_charBits_length]
  · rw [if_neg hraw, List.append_assoc] at hs
    obtain ⟨hflag, hlength, hbody⟩ := readHeader_ahead hshort hs
    simp only [readHuffBuffer, hflag, hlength, readSymbols_ahead hsymbols hbody, if_true,
      if_neg hraw, advanceBitPosition_advanceBitPosition, List.length_append, header_length]

end HuffmanStringProcessor

namespace StringStream
open HuffmanStringProcessor

variable {tree : HuffTree} {s r : StringStream} {prev str string : List UInt8} {maxLen : ℕ}

/-- The bits of a string after another one: its characters, or the number of those it has in common
with the other and the rest. -/
inductive Coded (tree : HuffTree) (prev str : List UInt8) : List Bool → Prop
  | whole : Coded tree prev str (false :: huffCode tree str)
  | continued (j : ℕ) (hprev : j ≤ prev.length) (hstr : j ≤ str.length)
    (hshared : ∀ i < j, prev.getD i 0 = str.getD i 0) :
    Coded tree prev str (header true j ++ huffCode tree (str.drop j))

/-- What `writeString` writes. -/
def stringCode (tree : HuffTree) (mStringBuffer : CharArray) (string : List UInt8) (maxLen : ℕ) :
    List Bool :=
  let j := agreeing mStringBuffer string maxLen
  if j > 2 then header true j ++ huffCode tree ((string.drop j).take (maxLen - j))
  else [false] ++ huffCode tree (string.take maxLen)

theorem agreeing_lt {a : CharArray} {i : ℕ} (hi : i < agreeing a string maxLen) :
    a.chars i = string.getD i 0 ∧ string.getD i 0 ≠ 0 := by
  have hagrees := List.not_of_lt_findIdx hi
  rw [List.getElem_range] at hagrees
  simpa using hagrees

theorem agreeing_le (a : CharArray) (string : List UInt8) (maxLen : ℕ) :
    agreeing a string maxLen ≤ maxLen :=
  List.findIdx_le_length.trans_eq List.length_range

theorem agreeing_le_length (a : CharArray) (string : List UInt8) (maxLen : ℕ) :
    agreeing a string maxLen ≤ string.length := by
  by_contra hlt
  exact (agreeing_lt (not_le.mp hlt)).2 (List.getD_eq_default _ _ le_rfl)

/-- The characters that agree are not more than the array holds. -/
theorem agreeing_le_of_holds {a : CharArray} (h : a.Holds prev) (string : List UInt8) (maxLen : ℕ) :
    agreeing a string maxLen ≤ prev.length := by
  by_contra hlt
  obtain ⟨hsame, hne⟩ := agreeing_lt (not_le.mp hlt)
  rw [h.chars _ le_rfl, List.getD_eq_default _ _ le_rfl] at hsame
  exact hne hsame.symm

theorem getD_take {i : ℕ} (hi : i < maxLen) : (string.take maxLen).getD i 0 = string.getD i 0 := by
  rw [List.getD_eq_getElem?_getD, List.getD_eq_getElem?_getD, List.getElem?_take_of_lt hi]

theorem stringCode_coded (tree : HuffTree) {a : CharArray} (h : a.Holds prev)
    (string : List UInt8) (maxLen : ℕ) :
    Coded tree prev (string.take maxLen) (stringCode tree a string maxLen) := by
  have hprev := agreeing_le_of_holds h string maxLen
  have hle := agreeing_le a string maxLen
  have hlength := agreeing_le_length a string maxLen
  rw [stringCode]
  split_ifs with hlong
  · rw [← List.drop_take]
    refine Coded.continued _ hprev ?_ fun i hi => ?_
    · rw [List.length_take]
      omega
    · rw [getD_take (hi.trans_le hle), ← h.chars i (by omega)]
      exact (agreeing_lt hi).1
  · exact Coded.whole

theorem writeString_stored {string : Option (List UInt8)}
    (h : (s.writeString tree string maxLen).stream.error = false) :
    s.stream.error = false ∧
      s.stream.Stored (stringCode tree s.mStringBuffer (string.getD []) maxLen)
        (s.writeString tree string maxLen).stream := by
  rw [stringCode]
  rw [writeString] at h ⊢
  generalize string.getD [] = string at h ⊢
  generalize agreeing s.mStringBuffer string maxLen = j at h ⊢
  by_cases hlong : j > 2
  · simp only [if_pos hlong, decide_eq_true hlong] at h ⊢
    obtain ⟨hmid, hstring⟩ := writeHuffBuffer_stored h
    obtain ⟨hstart, hheader⟩ := writeHeader_stored hmid
    exact ⟨hstart, hheader.append hstring⟩
  · simp only [if_neg hlong, decide_eq_false hlong] at h ⊢
    obtain ⟨hmid, hstring⟩ := writeHuffBuffer_stored h
    obtain ⟨hstart, hflag⟩ := writeFlag_stored hmid
    exact ⟨hstart, hflag.append hstring⟩

theorem writeString_growable (tree : HuffTree) (h : s.stream.Growable) (string : Option (List UInt8)) (maxLen : ℕ) :
    (s.writeString tree string maxLen).stream.Growable ∧
      (s.writeString tree string maxLen).stream.error = s.stream.error := by
  rw [writeString]
  generalize agreeing s.mStringBuffer (string.getD []) maxLen = j
  obtain ⟨hflag, herror⟩ := h.writeFlag (decide (j > 2))
  split_ifs
  · obtain ⟨hint, herror'⟩ := hflag.writeBits (intBits j 8)
    obtain ⟨hstring, herror''⟩ := writeHuffBuffer_growable tree hint
      (some ((string.getD []).drop j)) (maxLen - j)
    exact ⟨hstring, (herror''.trans herror').trans herror⟩
  · obtain ⟨hstring, herror'⟩ := writeHuffBuffer_growable tree hflag
      (some (string.getD [])) maxLen
    exact ⟨hstring, herror'.trans herror⟩

/-- Afterwards the string buffer holds the string that was written. -/
theorem writeString_holds (tree : HuffTree) (s : StringStream) {string : Option (List UInt8)}
    (hzero : 0 ∉ string.getD []) (hmax : maxLen ≤ 255) :
    (s.writeString tree string maxLen).mStringBuffer.Holds ((string.getD []).take maxLen) := by
  have hbuffer : (s.writeString tree string maxLen).mStringBuffer =
      (s.mStringBuffer.strncpy (agreeing s.mStringBuffer (string.getD []) maxLen)
        ((string.getD []).drop (agreeing s.mStringBuffer (string.getD []) maxLen))
        (maxLen - agreeing s.mStringBuffer (string.getD []) maxLen)).set maxLen 0 := by
    rw [writeString]
    split_ifs <;> rfl
  rw [hbuffer]
  generalize string.getD [] = string at hzero ⊢
  have hle := agreeing_le s.mStringBuffer string maxLen
  refine ⟨fun i hi => ?_, fun hmem => hzero (List.mem_of_mem_take hmem), ?_⟩
  · rw [List.length_take] at hi
    by_cases hlast : i = maxLen
    · rw [hlast, List.getD_eq_default _ _ (by simp)]
      exact Function.update_self ..
    · refine (Function.update_of_ne hlast ..).trans ?_
      rw [getD_take (by omega), strncpy, store_chars, List.length_map, List.length_range]
      by_cases hin : agreeing s.mStringBuffer string maxLen ≤ i
      · rw [if_pos (by omega), List.getD_eq_getElem _ _ (by simp; omega), List.getElem_map,
          List.getElem_range, List.getD_eq_getElem?_getD, List.getElem?_drop,
          Nat.add_sub_cancel' hin, List.getD_eq_getElem?_getD]
      · rw [if_neg (by omega)]
        exact (agreeing_lt (not_le.mp hin)).1
  · rw [List.length_take]
    exact (Nat.min_le_left ..).trans_lt (Nat.lt_succ_of_le hmax)

/-- A string after the one that the string buffer holds is read as it is, and is held next. -/
theorem readString_ahead {code more : List Bool} (h : r.mStringBuffer.Holds prev)
    (hcode : Coded tree prev str code) (hzero : 0 ∉ str) (hshort : str.length ≤ 255)
    (hsymbols : ∀ c ∈ str, c ∈ tree.symbols) (hr : r.stream.Ahead (code ++ more)) (buf : CharArray) :
    (r.readString tree buf).1.stream = r.stream.advanceBitPosition code.length ∧
      (r.readString tree buf).1.mStringBuffer.Holds str ∧ (r.readString tree buf).2.Holds str := by
  have hsize : str.length < stringBufferSize := Nat.lt_succ_of_le hshort
  have hlimit : str.length < 2 * stringBufferSize := by omega
  generalize hlimit' : 2 * stringBufferSize = limit at hlimit
  cases hcode with
  | whole =>
    have hread := readHuffBuffer_ahead hsymbols (Nat.lt_succ_of_le hshort) hr.tail buf 0
    have hholds : ((buf.store 0 str).set (0 + str.length) 0).Holds str :=
      Holds.of_store_drop (fun _ hi => absurd hi (Nat.not_lt_zero _)) (Nat.zero_le _) hzero hsize
    simp only [readString, hr.readFlag, hread, Bool.false_eq_true, if_false, hlimit']
    refine ⟨?_, hholds.strcpy _ hlimit, hholds⟩
    rw [advanceBitPosition_advanceBitPosition, List.length_cons, Nat.add_comm]
  | continued j hprev hstr hshared =>
    rw [List.append_assoc] at hr
    obtain ⟨hflag, hoffset, hbody⟩ := readHeader_ahead (by omega) hr
    have hread := readHuffBuffer_ahead (fun c hc => hsymbols c (List.mem_of_mem_drop hc))
      (by rw [List.length_drop]; omega) hbody r.mStringBuffer j
    have hheld : ∀ i < j, r.mStringBuffer.chars i = str.getD i 0 := fun i hi =>
      (h.chars i (hi.le.trans hprev)).trans (hshared i hi)
    have hholds := Holds.of_store_drop hheld hstr hzero hsize
    simp only [readString, hflag, hoffset, hread, if_true, hlimit']
    refine ⟨?_, hholds, hholds.strcpy _ hlimit⟩
    rw [advanceBitPosition_advanceBitPosition, List.length_append, header_length]

/-- What a sequence of `writeString` calls writes. -/
def stringCodes (tree : HuffTree) : StringStream → List (Option (List UInt8) × ℕ) → List Bool
  | _, [] => []
  | s, (string, maxLen) :: strings =>
    stringCode tree s.mStringBuffer (string.getD []) maxLen ++
      stringCodes tree (s.writeString tree string maxLen) strings

theorem huffCode_length_le (tree : HuffTree) (cs : List UInt8) :
    (huffCode tree cs).length ≤ 9 + cs.length * 8 := by
  rw [huffCode]
  split_ifs with hraw
  · rw [List.length_append, header_length, flatMap_charBits_length]
  · rw [List.length_append, header_length, List.length_flatMap]
    omega

/-- The coding never takes much more than the characters themselves. -/
theorem stringCodes_length_le (tree : HuffTree) (s : StringStream)
    (strings : List (Option (List UInt8) × ℕ)) : (stringCodes tree s strings).length ≤
      (strings.map fun string => 18 + (string.1.getD []).length * 8).sum := by
  induction strings generalizing s with
  | nil => exact le_rfl
  | cons string strings ih =>
    obtain ⟨string, maxLen⟩ := string
    have hfirst : (stringCode tree s.mStringBuffer (string.getD []) maxLen).length ≤
        18 + (string.getD []).length * 8 := by
      rw [stringCode]
      split_ifs with hlong
      · have hcode := huffCode_length_le tree (((string.getD []).drop
          (agreeing s.mStringBuffer (string.getD []) maxLen)).take
            (maxLen - agreeing s.mStringBuffer (string.getD []) maxLen))
        rw [List.length_take, List.length_drop] at hcode
        rw [List.length_append, header_length]
        omega
      · have hcode := huffCode_length_le tree ((string.getD []).take maxLen)
        rw [List.length_take] at hcode
        rw [List.length_append, List.length_singleton]
        omega
    have hrest := ih (s.writeString tree string maxLen)
    rw [stringCodes, List.length_append, List.map_cons, List.sum_cons]
    exact Nat.add_le_add hfirst hrest

theorem writeStrings_stored {strings : List (Option (List UInt8) × ℕ)}
    (h : (s.writeStrings tree strings).stream.error = false) :
    s.stream.error = false ∧
      s.stream.Stored (stringCodes tree s strings) (s.writeStrings tree strings).stream := by
  induction strings generalizing s with
  | nil => exact ⟨h, Stored.nil s.stream⟩
  | cons string strings ih =>
    obtain ⟨hmid, hrest⟩ := ih h
    obtain ⟨hstart, hstring⟩ := writeString_stored hmid
    exact ⟨hstart, hstring.append hrest⟩

theorem writeStrings_growable (h : s.stream.Growable) (strings : List (Option (List UInt8) × ℕ)) :
    (s.writeStrings tree strings).stream.error = s.stream.error := by
  induction strings generalizing s with
  | nil => rfl
  | cons string strings ih =>
    obtain ⟨hgrow, herror⟩ := writeString_growable tree h string.1 string.2
    exact (ih hgrow).trans herror

/-- Writer and reader hold the same string before each string and after it. -/
theorem readStrings_ahead (hsymbols : ∀ c, c ∈ tree.symbols)
    {strings : List (Option (List UInt8) × ℕ)}
    (hstrings : ∀ string ∈ strings, 0 ∉ string.1.getD [] ∧ string.2 ≤ 255)
    {bufs : List (ℕ → UInt8)} (hbufs : bufs.length = strings.length)
    (hs : s.mStringBuffer.Holds prev) (hr : r.mStringBuffer.Holds prev) {more : List Bool}
    (hahead : r.stream.Ahead (stringCodes tree s strings ++ more)) :
    (r.readStrings tree bufs).1.map CharArray.string =
        strings.map (fun string => (string.1.getD []).take string.2) ∧
      (r.readStrings tree bufs).2.stream =
        r.stream.advanceBitPosition (stringCodes tree s strings).length := by
  induction strings generalizing s r prev bufs with
  | nil =>
    rw [List.length_nil, List.length_eq_zero_iff] at hbufs
    subst hbufs
    exact ⟨rfl, rfl⟩
  | cons string strings ih =>
    obtain ⟨string, maxLen⟩ := string
    cases bufs with
    | nil => exact absurd hbufs (by simp)
    | cons chars bufs =>
      obtain ⟨hzero, hmax⟩ := hstrings _ List.mem_cons_self
      rw [stringCodes, List.append_assoc] at hahead
      have hshort : ((string.getD []).take maxLen).length ≤ 255 := by
        rw [List.length_take]
        exact (Nat.min_le_left ..).trans hmax
      have hcode := stringCode_coded tree hs (string.getD []) maxLen
      obtain ⟨hstream, hheld, hbuf⟩ := readString_ahead hr hcode
        (fun hmem => hzero (List.mem_of_mem_take hmem)) hshort (fun c _ => hsymbols c) hahead
        ⟨chars, []⟩
      obtain ⟨hread, hend⟩ := ih (fun x hx => hstrings x (List.mem_cons_of_mem _ hx))
        (Nat.succ.inj hbufs) (writeString_holds tree s hzero hmax) hheld
        (hstream ▸ hahead.advance)
      constructor
      · rw [List.map_cons, ← hread, ← hbuf.string_eq]
        rfl
      · rw [stringCodes, List.length_append, ← advanceBitPosition_advanceBitPosition, ← hstream]
        exact hend

theorem reset_holds (s : StringStream) : s.reset.mStringBuffer.Holds [] where
  chars i hi := by
    obtain rfl : i = 0 := Nat.le_zero.mp hi
    exact Function.update_self 0 (0 : UInt8) s.mStringBuffer.chars
  nonzero := List.not_mem_nil
  short := Nat.succ_pos _

/-- Strings written without error are read back from the same bits, each up to its maximum
length, and reading ends where writing did. -/
theorem strings_roundTrip (s r : StringStream) (strings : List (Option (List UInt8) × ℕ))
    (bufs : List (ℕ → UInt8))
    (hstrings : ∀ string ∈ strings, 0 ∉ string.1.getD [] ∧ string.2 ≤ 255)
    (hbufs : bufs.length = strings.length)
    (hsize : (s.reset.writeStrings (buildTables mCharFreqs) strings).stream.error = false)
    (hsame : ∀ i < (s.reset.writeStrings (buildTables mCharFreqs) strings).stream.bitNum,
      r.stream.buffer i = (s.reset.writeStrings (buildTables mCharFreqs) strings).stream.buffer i)
    (hinside : (s.reset.writeStrings (buildTables mCharFreqs) strings).stream.bitNum ≤
      r.stream.maxReadBitNum)
    (hsmall : r.stream.maxReadBitNum < 2 ^ 32) :
    (r.reset.readStrings (buildTables mCharFreqs) bufs).1.map CharArray.string =
        strings.map (fun string => (string.1.getD []).take string.2) ∧
      (r.reset.readStrings (buildTables mCharFreqs) bufs).2.stream.bitNum =
        (s.reset.writeStrings (buildTables mCharFreqs) strings).stream.bitNum := by
  generalize htree : buildTables mCharFreqs = tree at *
  have hsymbols : ∀ c, c ∈ tree.symbols := htree ▸ mem_symbols
  obtain ⟨-, hstored⟩ := writeStrings_stored hsize
  have hposition : (s.reset.writeStrings tree strings).stream.bitNum =
      (stringCodes tree s.reset strings).length := hstored.position.trans (Nat.zero_add _)
  have hwritten := hstored.holds
  have hahead : r.reset.stream.Ahead (stringCodes tree s.reset strings) := by
    refine ⟨?_, ?_, hsmall⟩
    · have hwindow : r.reset.stream.window 0 (stringCodes tree s.reset strings).length = _ :=
        window_congr fun i _ hi => hsame i (by omega)
      exact hwindow.trans hwritten
    · rw [← hposition]
      exact (Nat.zero_add _).trans_le hinside
  rw [← List.append_nil (stringCodes tree s.reset strings)] at hahead
  obtain ⟨hread, hend⟩ := readStrings_ahead hsymbols hstrings hbufs (reset_holds s) (reset_holds r)
    hahead
  exact ⟨hread, (congrArg BitStream.bitNum hend).trans hstored.position.symm⟩

/-- Two strings with a common prefix, the second cut short, and a null pointer, written to a stream
that grows. -/
theorem strings_roundTrip_prefix :
    let s : StringStream := ⟨⟨fun _ => true, 0, true, 5, true, 0, 0⟩, ⟨fun _ => 7, []⟩⟩
    let strings := [(some [97, 98, 99, 100], 255), (some [97, 98, 99, 200, 1], 4), (none, 0)]
    let t := s.reset.writeStrings (buildTables mCharFreqs) strings
    let r : StringStream := ⟨{ t.stream with maxReadBitNum := 800 }, t.mStringBuffer⟩
    (r.reset.readStrings (buildTables mCharFreqs) [fun _ => 9, fun _ => 9, fun _ => 9]).1.map
      CharArray.string = [[97, 98, 99, 100], [97, 98, 99, 200], []] := by
  intro s strings
  have hgrow : s.reset.stream.Growable := ⟨rfl, le_rfl, le_rfl⟩
  have herror : (s.reset.writeStrings (buildTables mCharFreqs) strings).stream.error = false :=
    writeStrings_growable hgrow strings
  have hstrings : ∀ string ∈ strings, 0 ∉ string.1.getD [] ∧ string.2 ≤ 255 := by
    simp [strings]
  have hread : ∀ t, t = s.reset.writeStrings (buildTables mCharFreqs) strings →
      ((⟨{ t.stream with maxReadBitNum := 800 }, t.mStringBuffer⟩ : StringStream).reset.readStrings
        (buildTables mCharFreqs) [fun _ => 9, fun _ => 9, fun _ => 9]).1.map CharArray.string =
          [[97, 98, 99, 100], [97, 98, 99, 200], []] := by
    intro t ht
    have hposition : (s.reset.writeStrings (buildTables mCharFreqs) strings).stream.bitNum ≤ 126 :=
      ((writeStrings_stored herror).2.position.trans (Nat.zero_add _)).trans_le
        (stringCodes_length_le ..)
    have hlimit : (800 : ℕ) < 2 ^ 32 := by omega
    exact (strings_roundTrip s ⟨{ t.stream with maxReadBitNum := 800 }, t.mStringBuffer⟩ strings
      [fun _ => 9, fun _ => 9, fun _ => 9] hstrings rfl herror
      (fun i _ => congrFun (congrArg (fun t : StringStream => t.stream.buffer) ht) i)
      (hposition.trans (by decide : 126 ≤ 800)) hlimit).1
  exact hread _ rfl

end StringStream

end TNL
