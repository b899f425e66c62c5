import TNL.Core.ByteBuffer
import Mathlib.Data.Nat.Bitwise

/-!
# Buffers of bytes in base 64

Three bytes are spelled as four characters, and the last characters are padding where bytes are
missing. The decoder passes over every character that is not one of these, wherever it stands, and
it counts the padding characters from the beginning of the text on.
-/
namespace TNL.ByteBuffer

def codes : List UInt8 :=
  ['A', 'B', 'C', 'D', 'E', 'F', 'G', 'H', 'I', 'J', 'K', 'L', 'M',
    'N', 'O', 'P', 'Q', 'R', 'S', 'T', 'U', 'V', 'W', 'X', 'Y', 'Z',
    'a', 'b', 'c', 'd', 'e', 'f', 'g', 'h', 'i', 'j', 'k', 'l', 'm',
    'n', 'o', 'p', 'q', 'r', 's', 't', 'u', 'v', 'w', 'x', 'y', 'z',
    '0', '1', '2', '3', '4', '5', '6', '7', '8', '9', '+', '/'].map Char.toUInt8

/-- The value of a character. It is 254 for padding, and 255 where the character is passed over. -/
def map : List UInt8 := [
    255, 255, 255, 255, 255, 255, 255, 255, 255, 255, 255, 255,
    255, 255, 255, 255, 255, 255, 255, 255, 255, 255, 255, 255,
    255, 255, 255, 255, 255, 255, 255, 255, 255, 255, 255, 255,
    255, 255, 255, 255, 255, 255, 255,  62, 255, 255, 255,  63,
     52,  53,  54,  55,  56,  57,  58,  59,  60,  61, 255, 255,
    255, 254, 255, 255, 255,   0,   1,   2,   3,   4,   5,   6,
      7,   8,   9,  10,  11,  12,  13,  14,  15,  16,  17,  18,
     19,  20,  21,  22,  23,  24,  25, 255, 255, 255, 255, 255,
    255,  26,  27,  28,  29,  30,  31,  32,  33,  34,  35,  36,
     37,  38,  39,  40,  41,  42,  43,  44,  45,  46,  47,  48,
     49,  50,  51, 255, 255, 255, 255, 255, 255, 255, 255, 255,
    255, 255, 255, 255, 255, 255, 255, 255, 255, 255, 255, 255,
    255, 255, 255, 255, 255, 255, 255, 255, 255, 255, 255, 255,
    255, 255, 255, 255, 255, 255, 255, 255, 255, 255, 255, 255,
    255, 255, 255, 255, 255, 255, 255, 255, 255, 255, 255, 255,
    255, 255, 255, 255, 255, 255, 255, 255, 255, 255, 255, 255,
    255, 255, 255, 255, 255, 255, 255, 255, 255, 255, 255, 255,
    255, 255, 255, 255, 255, 255, 255, 255, 255, 255, 255, 255,
    255, 255, 255, 255, 255, 255, 255, 255, 255, 255, 255, 255,
    255, 255, 255, 255, 255, 255, 255, 255, 255, 255, 255, 255,
    255, 255, 255, 255, 255, 255, 255, 255, 255, 255, 255, 255,
    255, 255, 255, 255]

def code (i : ℕ) : UInt8 := codes.getD i 0

def pad : UInt8 := '='.toUInt8

/-- The characters without the terminator. -/
def base64_encode : List UInt8 → List UInt8
  | a :: b :: c :: rest =>
    [code (a.toNat >>> 2), code (((a.toNat &&& 3) <<< 4) + (b.toNat >>> 4)),
      code (((b.toNat &&& 0xf) <<< 2) + (c.toNat >>> 6)), code (c.toNat &&& 0x3f)] ++
      base64_encode rest
  | [a, b] =>
    [code (a.toNat >>> 2), code (((a.toNat &&& 3) <<< 4) + (b.toNat >>> 4)),
      code (((b.toNat &&& 0xf) <<< 2) + (0 >>> 6)), pad]
  | [a] => [code (a.toNat >>> 2), code (((a.toNat &&& 3) <<< 4) + (0 >>> 4)), pad, pad]
  | [] => []

/-- Where there is not enough room, only the terminator is written, behind the room. -/
def encodeBase64 (memory : ℕ → UInt8) (b : ByteBuffer) : ByteBuffer :=
  let outLen : UInt32 := (b.getBufferSize / 3 + 1) * 4 + 4 + 1
  if outLen.toNat < 4 * ((b.bytes.length + 2) / 3) + 1 then
    written memory (outLen + 1) ((List.range outLen.toNat).map memory ++ [0])
  else
    written memory (UInt32.ofNat (base64_encode b.bytes).length + 1) (base64_encode b.bytes ++ [0])

/-- The loop of the decoder. -/
structure Decoding where
  t : ℕ
  y : ℕ
  g : ℤ
  out : List UInt8

/-- The room is compared with an unsigned sum. An error leaves what was written so far. -/
def decodeStep (outlen : ℕ) (s : Decoding) (x : UInt8) : Except (List UInt8) Decoding :=
  let c := map.getD x.toNat 0
  if c = 255 then .ok s
  else
    let g := if c = 254 then s.g - 1 else s.g
    let c := if c = 254 then 0 else c
    let t := s.t <<< 6 ||| c.toNat
    if s.y + 1 = 4 then
      if (outlen : ℤ) < (s.out.length + g) % 2 ^ 64 then .error s.out
      else .ok ⟨0, 0, g, s.out ++ [UInt8.ofNat ((t >>> 16) &&& 255)] ++
        (if 1 < g then [UInt8.ofNat ((t >>> 8) &&& 255)] else []) ++
        (if 2 < g then [UInt8.ofNat (t &&& 255)] else [])⟩
    else .ok ⟨t, s.y + 1, g, s.out⟩

def base64_decode (outlen : ℕ) (text : List UInt8) : Except (List UInt8) (List UInt8) := do
  let s ← text.foldlM (decodeStep outlen) ⟨0, 0, 3, []⟩
  if s.y ≠ 0 then .error s.out else .ok s.out

/-- The result is not looked at: after an error the buffer has the size of the text. -/
def decodeBase64 (memory : ℕ → UInt8) (b : ByteBuffer) : ByteBuffer :=
  match base64_decode b.bytes.length b.bytes with
  | .ok out => written memory (UInt32.ofNat out.length) out
  | .error out => written memory b.getBufferSize out

section tables

theorem map_code : ∀ i < 64, map.getD (code i).toNat 0 = UInt8.ofNat i := by decide

theorem map_pad : map.getD pad.toNat 0 = 254 := by decide

end tables

section steps

variable {outlen : ℕ} {s : Decoding} {x : UInt8} {i t y : ℕ} {g : ℤ} {out : List UInt8}

theorem decodeStep_skip (h : map.getD x.toNat 0 = 255) : decodeStep outlen s x = .ok s := if_pos h

theorem shiftLeft_or (t : ℕ) (h : i < 64) : t <<< 6 ||| i = t * 64 + i := by
  rw [← Nat.shiftLeft_add_eq_or_of_lt h, Nat.shiftLeft_eq]

theorem toNat_ofNat_lt (h : i < 64) : (UInt8.ofNat i).toNat = i :=
  Nat.mod_eq_of_lt (h.trans (by decide))

theorem ofNat_ne (h : i < 64) {c : UInt8} (hc : 64 ≤ c.toNat) : UInt8.ofNat i ≠ c := by
  intro heq
  have hi := toNat_ofNat_lt h
  rw [heq] at hi
  omega

/-- One of the first three characters of a group. -/
theorem decodeStep_code (h : i < 64) (hy : y < 3) :
    decodeStep outlen ⟨t, y, g, out⟩ (code i) = .ok ⟨t * 64 + i, y + 1, g, out⟩ := by
  have hskip : UInt8.ofNat i ≠ 255 := ofNat_ne h (by decide)
  have hpad : UInt8.ofNat i ≠ 254 := ofNat_ne h (by decide)
  have hfour : y + 1 ≠ 4 := by omega
  simp only [decodeStep, map_code i h, if_neg hskip, if_neg hpad, if_neg hfour, toNat_ofNat_lt h,
    shiftLeft_or t h]

theorem decodeStep_pad (hy : y < 3) :
    decodeStep outlen ⟨t, y, g, out⟩ pad = .ok ⟨t * 64, y + 1, g - 1, out⟩ := by
  have hskip : (254 : UInt8) ≠ 255 := by decide
  have hfour : y + 1 ≠ 4 := by omega
  have hshift : t <<< 6 ||| 0 = t * 64 := shiftLeft_or t (Nat.zero_lt_succ 63)
  simp only [decodeStep, map_pad, if_neg hskip, if_pos, if_neg hfour, UInt8.toNat_zero, hshift]

/-- The bytes that a full group gives. -/
def emitted (g : ℤ) (t : ℕ) : List UInt8 :=
  [UInt8.ofNat ((t >>> 16) &&& 255)] ++ (if 1 < g then [UInt8.ofNat ((t >>> 8) &&& 255)] else []) ++
    (if 2 < g then [UInt8.ofNat (t &&& 255)] else [])

theorem room (hg : 0 ≤ g) (hroom : (out.length : ℤ) + g ≤ outlen) (hlt : outlen < 2 ^ 32) :
    ¬ (outlen : ℤ) < (out.length + g) % 2 ^ 64 := by
  rw [Int.emod_eq_of_lt (by omega) (by omega)]
  omega

theorem decodeStep_code_last (h : i < 64) (hg : 0 ≤ g)
    (hroom : (out.length : ℤ) + g ≤ outlen) (hlt : outlen < 2 ^ 32) :
    decodeStep outlen ⟨t, 3, g, out⟩ (code i) =
      .ok ⟨0, 0, g, out ++ emitted g (t * 64 + i)⟩ := by
  have hskip : UInt8.ofNat i ≠ 255 := ofNat_ne h (by decide)
  have hpad : UInt8.ofNat i ≠ 254 := ofNat_ne h (by decide)
  simp only [decodeStep, map_code i h, if_neg hskip, if_neg hpad, if_pos, toNat_ofNat_lt h,
    shiftLeft_or t h, if_neg (room hg hroom hlt), emitted, List.append_assoc]

theorem decodeStep_pad_last (hg : 1 ≤ g) (hroom : (out.length : ℤ) + (g - 1) ≤ outlen)
    (hlt : outlen < 2 ^ 32) : decodeStep outlen ⟨t, 3, g, out⟩ pad =
      .ok ⟨0, 0, g - 1, out ++ emitted (g - 1) (t * 64)⟩ := by
  have hskip : (254 : UInt8) ≠ 255 := by decide
  have hshift : t <<< 6 ||| 0 = t * 64 := shiftLeft_or t (Nat.zero_lt_succ 63)
  simp only [decodeStep, map_pad, if_neg hskip, if_pos, UInt8.toNat_zero, hshift,
    if_neg (room (Int.sub_nonneg_of_le hg) hroom hlt), emitted, List.append_assoc]

end steps

section groups

variable {outlen : ℕ} {out : List UInt8}

theorem and_mask (n k : ℕ) : n &&& (2 ^ k - 1) = n % 2 ^ k := Nat.and_two_pow_sub_one_eq_mod n k

/-- The four values of three bytes. -/
theorem indices (a b c : UInt8) :
    a.toNat >>> 2 = a.toNat / 4 ∧
      ((a.toNat &&& 3) <<< 4) + (b.toNat >>> 4) = a.toNat % 4 * 16 + b.toNat / 16 ∧
      ((b.toNat &&& 0xf) <<< 2) + (c.toNat >>> 6) = b.toNat % 16 * 4 + c.toNat / 64 ∧
      c.toNat &&& 0x3f = c.toNat % 64 := by
  have ha : a.toNat &&& 3 = a.toNat % 4 := and_mask a.toNat 2
  have hb : b.toNat &&& 0xf = b.toNat % 16 := and_mask b.toNat 4
  refine ⟨Nat.shiftRight_eq_div_pow .., ?_, ?_, and_mask c.toNat 6⟩
  · rw [Nat.shiftRight_eq_div_pow, Nat.shiftLeft_eq, ha]
  · rw [Nat.shiftRight_eq_div_pow, Nat.shiftLeft_eq, hb]

/-- The bytes of a number of 24 bits. -/
theorem emitted_eq (g : ℤ) (a b c : UInt8) {t : ℕ}
    (ht : t = a.toNat * 65536 + b.toNat * 256 + c.toNat) :
    emitted g t = [a] ++ (if 1 < g then [b] else []) ++ (if 2 < g then [c] else []) := by
  have ha := a.toNat_lt
  have hb := b.toNat_lt
  have hc := c.toNat_lt
  have hmask : ∀ n, n &&& 255 = n % 256 := fun n => and_mask n 8
  have hfirst : t >>> 16 &&& 255 = a.toNat := by
    rw [hmask, Nat.shiftRight_eq_div_pow]
    omega
  have hsecond : t >>> 8 &&& 255 = b.toNat := by
    rw [hmask, Nat.shiftRight_eq_div_pow]
    omega
  have hthird : t &&& 255 = c.toNat := by
    rw [hmask]
    omega
  rw [emitted, hfirst, hsecond, hthird, UInt8.ofNat_toNat, UInt8.ofNat_toNat, UInt8.ofNat_toNat]

theorem foldlM_ok {s s' : Decoding} {x : UInt8} {text : List UInt8}
    (h : decodeStep outlen s x = .ok s') :
    (x :: text).foldlM (decodeStep outlen) s = text.foldlM (decodeStep outlen) s' := by
  rw [List.foldlM_cons, h]
  rfl

/-- The decoder passes over the other characters. -/
theorem foldlM_filter (text : List UInt8) (s : Decoding) : text.foldlM (decodeStep outlen) s =
    (text.filter fun x => map.getD x.toNat 0 ≠ 255).foldlM (decodeStep outlen) s := by
  induction text generalizing s with
  | nil => rfl
  | cons x text ih =>
    by_cases h : map.getD x.toNat 0 = 255
    · rw [List.filter_cons_of_neg (by simpa using h), List.foldlM_cons, decodeStep_skip h]
      exact ih s
    · rw [List.filter_cons_of_pos (by simpa using h), List.foldlM_cons, List.foldlM_cons]
      exact congrArg _ (funext ih)

section four

variable {i j k l : ℕ} {rest : List UInt8}

/-- A group, and the last one with one or two padding characters. -/
theorem decode_four (hi : i < 64) (hj : j < 64) (hk : k < 64) (hl : l < 64)
    (hroom : out.length + 3 ≤ outlen) (hlt : outlen < 2 ^ 32) :
    ([code i, code j, code k, code l] ++ rest).foldlM (decodeStep outlen) ⟨0, 0, 3, out⟩ =
      rest.foldlM (decodeStep outlen)
        ⟨0, 0, 3, out ++ emitted 3 ((((0 * 64 + i) * 64 + j) * 64 + k) * 64 + l)⟩ := by
  rw [List.cons_append, foldlM_ok (decodeStep_code hi (by decide)), List.cons_append,
    foldlM_ok (decodeStep_code hj (by decide)), List.cons_append,
    foldlM_ok (decodeStep_code hk (by decide)), List.cons_append,
    foldlM_ok (decodeStep_code_last hl (by decide) (by omega) hlt), List.nil_append]

theorem decode_three (hi : i < 64) (hj : j < 64) (hk : k < 64)
    (hroom : out.length + 2 ≤ outlen) (hlt : outlen < 2 ^ 32) :
    [code i, code j, code k, pad].foldlM (decodeStep outlen) ⟨0, 0, 3, out⟩ =
      .ok ⟨0, 0, 2, out ++ emitted 2 ((((0 * 64 + i) * 64 + j) * 64 + k) * 64)⟩ := by
  rw [foldlM_ok (decodeStep_code hi (by decide)), foldlM_ok (decodeStep_code hj (by decide)),
    foldlM_ok (decodeStep_code hk (by decide)),
    foldlM_ok (decodeStep_pad_last (by decide) (by omega) hlt)]
  rfl

theorem decode_two (hi : i < 64) (hj : j < 64) (hroom : out.length + 1 ≤ outlen)
    (hlt : outlen < 2 ^ 32) :
    [code i, code j, pad, pad].foldlM (decodeStep outlen) ⟨0, 0, 3, out⟩ =
      .ok ⟨0, 0, 1, out ++ emitted 1 ((((0 * 64 + i) * 64 + j) * 64) * 64)⟩ := by
  rw [foldlM_ok (decodeStep_code hi (by decide)), foldlM_ok (decodeStep_code hj (by decide)),
    foldlM_ok (decodeStep_pad (by decide)),
    foldlM_ok (decodeStep_pad_last (by decide) (by omega) hlt)]
  rfl

end four

theorem foldlM_encode (out bytes : List UInt8) (hroom : out.length + bytes.length ≤ outlen)
    (hlt : outlen < 2 ^ 32) : ∃ g, (base64_encode bytes).foldlM (decodeStep outlen)
      ⟨0, 0, 3, out⟩ = .ok ⟨0, 0, g, out ++ bytes⟩ := by
  induction bytes using base64_encode.induct generalizing out with
  | case1 a b c rest ih =>
    obtain ⟨h₁, h₂, h₃, h₄⟩ := indices a b c
    have ha := a.toNat_lt
    have hb := b.toNat_lt
    have hc := c.toNat_lt
    rw [List.length_cons, List.length_cons, List.length_cons] at hroom
    have hout : (out ++ [a, b, c]).length = out.length + 3 := List.length_append
    obtain ⟨g, hg⟩ := ih (out ++ [a, b, c]) (by omega)
    rw [List.append_assoc] at hg
    refine ⟨g, ?_⟩
    rw [base64_encode, h₁, h₂, h₃, h₄, decode_four (by omega) (by omega) (by omega) (by omega)
      (by omega) hlt, emitted_eq 3 a b c (by omega)]
    exact hg
  | case2 a b =>
    obtain ⟨h₁, h₂, h₃, -⟩ := indices a b 0
    have ha := a.toNat_lt
    have hb := b.toNat_lt
    rw [UInt8.toNat_zero, Nat.zero_div, Nat.add_zero] at h₃
    refine ⟨2, ?_⟩
    rw [base64_encode, h₁, h₂, h₃, decode_three (by omega) (by omega) (by omega) hroom hlt,
      emitted_eq 2 a b 0 (by rw [UInt8.toNat_zero]; omega)]
    rfl
  | case3 a =>
    obtain ⟨h₁, h₂, -, -⟩ := indices a 0 0
    have ha := a.toNat_lt
    rw [UInt8.toNat_zero, Nat.zero_div, Nat.add_zero] at h₂
    refine ⟨1, ?_⟩
    rw [base64_encode, h₁, h₂, decode_two (by omega) (by omega) hroom hlt,
      emitted_eq 1 a 0 0 (by rw [UInt8.toNat_zero]; omega)]
    rfl
  | case4 => exact ⟨3, by rw [List.append_nil]; rfl⟩

end groups

section buffers

/-- The characters that the decoder does not pass over. -/
def known (text : List UInt8) : List UInt8 := text.filter fun x => map.getD x.toNat 0 ≠ 255

theorem known_append (text text' : List UInt8) :
    known (text ++ text') = known text ++ known text' := List.filter_append ..

theorem length_base64_encode (bytes : List UInt8) :
    (base64_encode bytes).length = 4 * ((bytes.length + 2) / 3) := by
  induction bytes using base64_encode.induct with
  | case1 a b c rest ih =>
    rw [base64_encode, List.length_append, ih]
    simp only [List.length_cons, List.length_nil]
    omega
  | case2 | case3 =>
    rw [base64_encode]
    simp only [List.length_cons, List.length_nil]
  | case4 => rfl

theorem code_known {i : ℕ} (h : i < 64) : map.getD (code i).toNat 0 ≠ 255 := by
  rw [map_code i h]
  exact ofNat_ne h (by decide)

/-- Every character of an encoded text is known to the decoder. -/
theorem known_encode (bytes : List UInt8) : known (base64_encode bytes) = base64_encode bytes := by
  have hpad : map.getD pad.toNat 0 ≠ 255 := by decide
  apply List.filter_eq_self.mpr
  intro x hx
  rw [decide_eq_true_iff]
  induction bytes using base64_encode.induct with
  | case1 a b c rest ih =>
    obtain ⟨h₁, h₂, h₃, h₄⟩ := indices a b c
    have ha := a.toNat_lt
    have hb := b.toNat_lt
    have hc := c.toNat_lt
    rw [base64_encode, h₁, h₂, h₃, h₄] at hx
    rcases List.mem_append.mp hx with hgroup | hrest
    · simp only [List.mem_cons, List.not_mem_nil, or_false] at hgroup
      rcases hgroup with rfl | rfl | rfl | rfl <;> exact code_known (by omega)
    · exact ih hrest
  | case2 a b =>
    obtain ⟨h₁, h₂, h₃, -⟩ := indices a b 0
    have ha := a.toNat_lt
    have hb := b.toNat_lt
    rw [UInt8.toNat_zero, Nat.zero_div, Nat.add_zero] at h₃
    rw [base64_encode, h₁, h₂, h₃] at hx
    simp only [List.mem_cons, List.not_mem_nil, or_false] at hx
    rcases hx with rfl | rfl | rfl | rfl
    · exact code_known (by omega)
    · exact code_known (by omega)
    · exact code_known (by omega)
    · exact hpad
  | case3 a =>
    obtain ⟨h₁, h₂, -, -⟩ := indices a 0 0
    have ha := a.toNat_lt
    rw [UInt8.toNat_zero, Nat.zero_div, Nat.add_zero] at h₂
    rw [base64_encode, h₁, h₂] at hx
    simp only [List.mem_cons, List.not_mem_nil, or_false] at hx
    rcases hx with rfl | rfl | rfl | rfl
    · exact code_known (by omega)
    · exact code_known (by omega)
    · exact hpad
    · exact hpad
  | case4 => exact absurd hx List.not_mem_nil

variable {b : ByteBuffer}

/-- The room for the text is computed with 32 bits. -/
def TextFits (b : ByteBuffer) : Prop := (b.bytes.length / 3 + 1) * 4 + 5 < 2 ^ 32

theorem encodeBase64_bytes (memory : ℕ → UInt8) (h : b.TextFits) :
    (b.encodeBase64 memory).bytes = base64_encode b.bytes ++ [0] := by
  have hlength := length_base64_encode b.bytes
  have hfits : (b.bytes.length / 3 + 1) * 4 + 5 < 4294967296 := h
  have hroom : ((b.getBufferSize / 3 + 1) * 4 + 4 + 1).toNat =
      (b.bytes.length / 3 + 1) * 4 + 5 := by
    have hsize := b.toNat_getBufferSize
    have hone : UInt32.toNat 1 = 1 := rfl
    have hthree : UInt32.toNat 3 = 3 := rfl
    have hfour : UInt32.toNat 4 = 4 := rfl
    simp only [UInt32.toNat_add, UInt32.toNat_mul, UInt32.toNat_div, hsize, hone, hthree, hfour]
    omega
  have henough : ¬ ((b.getBufferSize / 3 + 1) * 4 + 4 + 1).toNat <
      4 * ((b.bytes.length + 2) / 3) + 1 := by omega
  dsimp only [encodeBase64]
  rw [if_neg henough]
  apply written_bytes
  rw [UInt32.toNat_add, UInt32.toNat_ofNat', List.length_append, List.length_singleton, hlength]
  have hone : UInt32.toNat 1 = 1 := rfl
  omega

/-- A text is decoded to the bytes that its known characters spell. -/
theorem decodeBase64_eq (memory : ℕ → UInt8) {text : ByteBuffer}
    (h : known text.bytes = base64_encode b.bytes) : text.decodeBase64 memory = b := by
  have hle : b.bytes.length ≤ text.bytes.length := by
    have hfilter : (known text.bytes).length ≤ text.bytes.length := List.length_filter_le ..
    have hlength := length_base64_encode b.bytes
    rw [h] at hfilter
    omega
  obtain ⟨g, hg⟩ := foldlM_encode [] b.bytes (by simpa using hle) text.size
  have hdecode : base64_decode text.bytes.length text.bytes = .ok b.bytes := by
    rw [base64_decode, foldlM_filter, ← known, h, hg]
    rfl
  apply ext_bytes
  rw [decodeBase64, hdecode]
  exact written_bytes (Nat.mod_eq_of_lt b.size)

/-- A buffer comes back from its text in base 64, and from every text that has the same characters
with any others between them. -/
theorem decodeBase64_encodeBase64 (memory memory' : ℕ → UInt8) (h : b.TextFits) {text : ByteBuffer}
    (hknown : known text.bytes = known (b.encodeBase64 memory).bytes) :
    text.decodeBase64 memory' = b := by
  apply decodeBase64_eq
  rw [hknown, encodeBase64_bytes memory h, known_append, known_encode]
  exact List.append_nil _

/-- Four bytes, and their text with a blank, a line break and no terminator. -/
theorem decodeBase64_encodeBase64_four :
    decodeBase64 (fun _ => 0xcd)
        ⟨[0x54, 0x57, 0x20, 0x46, 0x75, 0x0a, 0x54, 0x51, 0x3d, 0x3d], by decide⟩ =
      ⟨[0x4d, 0x61, 0x6e, 0x4d], by decide⟩ :=
  decodeBase64_encodeBase64 (fun _ => 0xcd) (fun _ => 0xcd) (show _ < _ by decide) (by decide)

end buffers

end TNL.ByteBuffer
