import CrossShim.Locale.MbState
import CrossShim.Stdio.Format
import CrossShim.Stdio.Utf8

/-!
# Encoders and decoders

The functions that write a character as UTF-8, and those that read one.  `encode_utf8` of the wide streams and
`append_utf8` of the formats refuse surrogates three bytes, but then give them four; `wcstombs`, `wcrtomb` and `c32rtomb`
give them three; no decoder of `hle_wchar.cpp`, `hle_scan.cpp`, `hle_file.cpp` or `hle_locale.cpp` takes either back.
`wcsnrtombs` passes over what is not ASCII.  Every other character is read back: `readBack_iff`.
-/

namespace CrossShim.Locale

open Lib Stdio BitVec List

/-! ### Encoders -/

def wcToUtf8Len (wc : BitVec 32) : Option ℕ :=
  if wc ≤ 0x7f then some 1
  else if wc ≤ 0x7ff then some 2
  else if wc ≤ 0xffff then some 3
  else if wc ≤ 0x10ffff then some 4
  else none

def wcToUtf8 (wc : BitVec 32) : Option (List Byte) :=
  let low (shift : ℕ) : Byte := 0x80 ||| (wc >>> shift &&& 0x3f).setWidth 8
  let top (mark : Byte) (shift : ℕ) : Byte := mark ||| (wc >>> shift).setWidth 8
  if wc ≤ 0x7f then some [wc.setWidth 8]
  else if wc ≤ 0x7ff then some [top 0xc0 6, low 0]
  else if wc ≤ 0xffff then some [top 0xe0 12, low 6, low 0]
  else if wc ≤ 0x10ffff then some [top 0xf0 18, low 12, low 6, low 0]
  else none

inductive Encoder where
  | encodeUtf8
  | appendUtf8
  | wcstombs
  | wcsrtombs
  | wcrtomb
  | c32rtomb
  | wctomb
  | wcsnrtombs
  deriving DecidableEq

/-- The bytes for a character that is not refused. `encode_utf8` and `append_utf8` have one text; so have `wcrtomb`,
`c32rtomb` and `wc_to_utf8`, of whose bytes `wcstombs` and `wcsrtombs` write `wc_to_utf8_len`. -/
def Encoder.bytes (wc : BitVec 32) : Encoder → Option (List Byte)
  | .encodeUtf8 | .appendUtf8 => Format.utf8 wc
  | .wcstombs | .wcsrtombs => do return (← wcToUtf8 wc).take (← wcToUtf8Len wc)
  | .wcrtomb | .c32rtomb => wcToUtf8 wc
  | .wctomb => if wc ≤ 127 then some [wc.setWidth 8] else none
  | .wcsnrtombs => if wc ≤ 127 then some [wc.setWidth 8] else some []

def IsSurrogate (wc : BitVec 32) : Prop := 0xd800 ≤ wc ∧ wc ≤ 0xdfff

/-- The bytes are those of one character, and every decoder gives the character back and consumes them all. -/
structure ReadBack (wc : BitVec 32) (bytes : List Byte) : Prop where
  wellFormed : ∃ c : Char, bytes = charBytes c
  decodeUtf8 : decodeUtf8Codepoint bytes = .ok wc.toNat bytes.length
  expectedLen : expectedLen (bytes.getD 0 0) = some bytes.length
  decode : ∀ fn, decode fn (bytes.getD · 0) bytes.length = some wc

/-! ### What is encoded -/

section

variable {wc : BitVec 32} {c : Char}

lemma setWidth_shift (wc : BitVec 32) (shift : ℕ) :
    (wc >>> shift).setWidth 8 = BitVec.ofNat 8 (wc.toNat / 2 ^ shift) := by
  apply eq_of_toNat_eq
  rw [toNat_setWidth, toNat_ushiftRight, Nat.shiftRight_eq_div_pow, toNat_ofNat]

lemma low_eq (wc : BitVec 32) (shift : ℕ) : (0x80 : Byte) ||| (wc >>> shift &&& 0x3f).setWidth 8 =
    BitVec.ofNat 8 (wc.toNat / 2 ^ shift % 64 + 128) := by
  have hor : ∀ x < 64, (0x80 : Byte) ||| BitVec.ofNat 8 x = BitVec.ofNat 8 (x + 128) := by decide
  rw [← hor _ (Nat.mod_lt _ (by decide))]
  congr 1
  apply eq_of_toNat_eq
  have hmask : (0x3f : BitVec 32).toNat = 2 ^ 6 - 1 := rfl
  rw [toNat_setWidth, toNat_and, hmask, Nat.and_two_pow_sub_one_eq_mod, toNat_ushiftRight,
    Nat.shiftRight_eq_div_pow, toNat_ofNat]

lemma wcToUtf8_char (h : wc.toNat = codepoint c) : wcToUtf8 wc = some (charBytes c) := by
  have htwo : ∀ x < 32, (0xc0 : Byte) ||| BitVec.ofNat 8 x = BitVec.ofNat 8 (x + 192) := by decide
  have hthree : ∀ x < 16, (0xe0 : Byte) ||| BitVec.ofNat 8 x = BitVec.ofNat 8 (x + 224) := by decide
  have hfour : ∀ x < 8, (0xf0 : Byte) ||| BitVec.ofNat 8 x = BitVec.ofNat 8 (x + 240) := by decide
  have hone : wc.setWidth 8 = BitVec.ofNat 8 wc.toNat := eq_of_toNat_eq (by simp)
  have hvalid : codepoint c < 0xD800 ∨ 0xDFFF < codepoint c ∧ codepoint c < 0x110000 := c.valid
  rw [← h] at hvalid
  rw [charBytes_eq, ← h]
  unfold wcToUtf8
  simp only [le_def, BitVec.reduceToNat, low_eq, setWidth_shift, hone, Nat.reducePow, Nat.div_one]
  split_ifs with h1 h2 h3 h4
  · rfl
  · rw [htwo _ (by omega), Nat.mod_eq_of_lt (show wc.toNat / 64 < 32 by omega)]
  · rw [hthree _ (by omega), Nat.mod_eq_of_lt (show wc.toNat / 4096 < 16 by omega)]
  · rw [hfour _ (by omega), Nat.mod_eq_of_lt (show wc.toNat / 262144 < 8 by omega)]
  · omega

lemma exists_char (hle : wc ≤ 0x10ffff) (hs : ¬ IsSurrogate wc) : ∃ c : Char, wc.toNat = codepoint c := by
  simp only [IsSurrogate, le_def, BitVec.reduceToNat] at hle hs
  obtain ⟨c, hc⟩ := exists_codepoint (v := wc.toNat) (by omega)
  exact ⟨c, hc.symm⟩

lemma utf8_eq_wcToUtf8 (hs : ¬ IsSurrogate wc) : Format.utf8 wc = wcToUtf8 wc := by
  have hiff : wc ≤ 0xffff ∧ (wc < 0xd800 ∨ 0xdfff < wc) ↔ wc ≤ 0xffff := by
    simp only [IsSurrogate, not_and_or, not_le] at hs
    exact and_iff_left hs
  simp only [Format.utf8, wcToUtf8, hiff]

lemma take_wcToUtf8Len (wc : BitVec 32) : Encoder.bytes wc .wcstombs = wcToUtf8 wc := by
  simp only [Encoder.bytes, wcToUtf8, wcToUtf8Len]
  split_ifs <;> rfl

/-! ### What is decoded -/

section bits

variable {x y z w shift : ℕ}

lemma toNat_bitsAt (b mask : Byte) (hs : shift ≤ 18) :
    (bitsAt b mask shift).toNat = (b.toNat &&& mask.toNat) <<< shift := by
  have hlt : b.toNat &&& mask.toNat < 2 ^ 8 := Nat.and_lt_two_pow _ mask.isLt
  have hmod : (b.toNat &&& mask.toNat) % 2 ^ 32 = b.toNat &&& mask.toNat := Nat.mod_eq_of_lt (by omega)
  rw [bitsAt, toNat_shiftLeft, toNat_setWidth, toNat_and, hmod, Nat.mod_eq_of_lt]
  rw [Nat.shiftLeft_eq]
  calc _ < 2 ^ 8 * 2 ^ shift := Nat.mul_lt_mul_of_pos_right hlt (by positivity)
    _ ≤ 2 ^ 8 * 2 ^ 18 := Nat.mul_le_mul_left _ (Nat.pow_le_pow_right (by decide) hs)
    _ ≤ 2 ^ 32 := by norm_num

lemma toNat_tail (hx : x < 64) (hs : shift ≤ 18) :
    (bitsAt (BitVec.ofNat 8 (x + 128)) 0x3f shift).toNat = x <<< shift := by
  rw [toNat_bitsAt _ _ hs, toNat_byte (by omega)]
  exact congrArg (· <<< shift) (tail_bits hx).2

lemma toNat_two (hx : x < 32) (hy : y < 64) : (bitsAt (BitVec.ofNat 8 (x + 192)) 0x1f 6 |||
    bitsAt (BitVec.ofNat 8 (y + 128)) 0x3f 0).toNat = 64 * x + y := by
  rw [toNat_or, toNat_tail hy (by decide), toNat_bitsAt _ _ (by decide), toNat_byte (by omega)]
  change ((x + 192) &&& 0x1F) <<< 6 ||| y = _
  exact (lead_bits_two hx).symm ▸ shiftLeft_or 6 hy

lemma toNat_three (hx : x < 16) (hy : y < 64) (hz : z < 64) : (bitsAt (BitVec.ofNat 8 (x + 224)) 0x0f 12 |||
    bitsAt (BitVec.ofNat 8 (y + 128)) 0x3f 6 ||| bitsAt (BitVec.ofNat 8 (z + 128)) 0x3f 0).toNat =
      4096 * x + 64 * y + z := by
  rw [toNat_or, toNat_or, toNat_tail hy (by decide), toNat_tail hz (by decide),
    toNat_bitsAt _ _ (by decide), toNat_byte (by omega)]
  change ((x + 224) &&& 0x0F) <<< 12 ||| y <<< 6 ||| z = _
  rw [lead_bits_three hx, Nat.or_assoc, shiftLeft_or 6 hz, shiftLeft_or 12 (by omega)]
  omega

lemma toNat_four (hx : x < 8) (hy : y < 64) (hz : z < 64) (hw : w < 64) :
    (bitsAt (BitVec.ofNat 8 (x + 240)) 0x07 18 ||| bitsAt (BitVec.ofNat 8 (y + 128)) 0x3f 12 |||
      bitsAt (BitVec.ofNat 8 (z + 128)) 0x3f 6 ||| bitsAt (BitVec.ofNat 8 (w + 128)) 0x3f 0).toNat =
      262144 * x + 4096 * y + 64 * z + w := by
  rw [toNat_or, toNat_or, toNat_or, toNat_tail hy (by decide), toNat_tail hz (by decide),
    toNat_tail hw (by decide), toNat_bitsAt _ _ (by decide), toNat_byte (by omega)]
  change ((x + 240) &&& 0x07) <<< 18 ||| y <<< 12 ||| z <<< 6 ||| w = _
  rw [lead_bits_four hx, Nat.or_assoc, Nat.or_assoc, shiftLeft_or 6 hw, shiftLeft_or 12 (by omega),
    shiftLeft_or 18 (by omega)]
  omega

end bits

lemma decode_char (fn : Fn) (h : wc.toNat = codepoint c) :
    expectedLen ((charBytes c).getD 0 0) = some (charBytes c).length ∧
      decode fn ((charBytes c).getD · 0) (charBytes c).length = some wc := by
  have hlen : (∀ x < 128, expectedLen (BitVec.ofNat 8 x) = some 1) ∧
      (∀ x < 32, expectedLen (BitVec.ofNat 8 (x + 192)) = some 2) ∧
      (∀ x < 16, expectedLen (BitVec.ofNat 8 (x + 224)) = some 3) ∧
      ∀ x < 8, expectedLen (BitVec.ofNat 8 (x + 240)) = some 4 := by decide
  have htail : ∀ x < 64, isTail (BitVec.ofNat 8 (x + 128)) = true := by decide
  have hform := utf8Form_char c
  generalize charBytes c = bs, codepoint c = v at hform h
  -- the value that is put together again is that of the character, so that its range checks pass
  cases hform with
  | one hx =>
    refine ⟨hlen.1 _ (by omega), congrArg some (eq_of_toNat_eq ?_)⟩
    rw [toNat_bitsAt _ _ (by decide)]
    change ((BitVec.ofNat 8 v).toNat &&& 255) <<< 0 = _
    rw [toNat_byte (by omega), h]
    exact Nat.and_two_pow_sub_one_of_lt_two_pow (n := 8) (by omega)
  | two hx hx' hy =>
    have hv := eq_of_toNat_eq ((toNat_two hx' hy).trans h.symm)
    refine ⟨hlen.2.1 _ hx', ?_⟩
    simp only [decode, length_cons, length_nil, getD_cons_zero, getD_cons_succ, hv, htail _ hy,
      le_def, BitVec.reduceToNat]
    rw [if_neg (by decide), if_pos trivial, if_pos ⟨trivial, by omega⟩]
  | three hx hy hz hlow hsur =>
    have hv := eq_of_toNat_eq ((toNat_three hx hy hz).trans h.symm)
    have hrefuse : ¬ fn.refuses wc = true := by
      cases fn with
      | mbrtowc =>
        simp only [Fn.refuses, le_def, BitVec.reduceToNat, decide_eq_true_eq]
        omega
      | mbrtoc16 | mbrtoc32 => exact Bool.false_ne_true
    refine ⟨hlen.2.2.1 _ hx, ?_⟩
    simp only [decode, length_cons, length_nil, getD_cons_zero, getD_cons_succ, hv, htail _ hy,
      htail _ hz, le_def, BitVec.reduceToNat]
    rw [if_neg (by decide), if_neg (by decide), if_pos trivial, if_pos ⟨trivial, trivial, by omega, hrefuse⟩]
  | four hx hy hz hw hlow hhigh =>
    have hv := eq_of_toNat_eq ((toNat_four (by omega) hy hz hw).trans h.symm)
    refine ⟨hlen.2.2.2 _ (by omega), ?_⟩
    simp only [decode, length_cons, length_nil, getD_cons_zero, getD_cons_succ, hv, htail _ hy,
      htail _ hz, htail _ hw, le_def, BitVec.reduceToNat]
    rw [if_neg (by decide), if_neg (by decide), if_neg (by decide), if_pos ⟨trivial, trivial, trivial, by omega, by omega⟩]

/-- **What an encoder accepts is read back** exactly if it is no surrogate, and, from `wcsnrtombs`, only if it is
ASCII. -/
theorem readBack_iff (enc : Encoder) (wc : BitVec 32) (bytes : List Byte) (h : enc.bytes wc = some bytes) :
    ReadBack wc bytes ↔ ¬ IsSurrogate wc ∧ (enc = .wcsnrtombs → wc ≤ 0x7f) := by
  constructor
  · intro hr
    obtain ⟨c, rfl⟩ := hr.wellFormed
    have hdec := decodeUtf8Codepoint_charBytes c []
    rw [append_nil, hr.decodeUtf8] at hdec
    obtain ⟨hv, -⟩ := Utf8DecodeStatus.ok.inj hdec
    have hvalid : codepoint c < 0xD800 ∨ 0xDFFF < codepoint c ∧ codepoint c < 0x110000 := c.valid
    refine ⟨?_, ?_⟩
    · simp only [IsSurrogate, le_def, BitVec.reduceToNat]
      omega
    · rintro rfl
      by_contra hbig
      simp only [Encoder.bytes, hbig, if_false, Option.some.injEq] at h
      exact charBytes_ne_nil c h.symm
  · rintro ⟨hs, hskip⟩
    obtain ⟨hle, hbytes⟩ : wc ≤ 0x10ffff ∧ wcToUtf8 wc = some bytes := by
      have hascii (h7 : wc ≤ 0x7f) (hb : some [wc.setWidth 8] = some bytes) :
          wc ≤ 0x10ffff ∧ wcToUtf8 wc = some bytes := by
        refine ⟨h7.trans (by decide), ?_⟩
        rw [wcToUtf8, if_pos h7, hb]
      have hwide (hb : wcToUtf8 wc = some bytes) : wc ≤ 0x10ffff ∧ wcToUtf8 wc = some bytes := by
        refine ⟨?_, hb⟩
        by_contra hbig
        simp only [wcToUtf8, le_def, BitVec.reduceToNat] at hb hbig
        simp [hbig, show ¬ wc.toNat ≤ 127 by omega, show ¬ wc.toNat ≤ 2047 by omega,
          show ¬ wc.toNat ≤ 65535 by omega] at hb
      cases enc with
      | encodeUtf8 | appendUtf8 => exact hwide (utf8_eq_wcToUtf8 hs ▸ h)
      | wcstombs | wcsrtombs => exact hwide ((take_wcToUtf8Len wc).symm.trans h)
      | wcrtomb | c32rtomb => exact hwide h
      | wctomb =>
        by_cases h7 : wc ≤ 127
        · exact hascii h7 ((if_pos h7).symm.trans h)
        · cases (if_neg h7).symm.trans h
      | wcsnrtombs => exact hascii (hskip rfl) ((if_pos (hskip rfl)).symm.trans h)
    obtain ⟨c, hc⟩ := exists_char hle hs
    obtain rfl : charBytes c = bytes := Option.some.inj ((wcToUtf8_char hc).symm.trans hbytes)
    have hdec := decodeUtf8Codepoint_charBytes c []
    rw [append_nil, ← hc] at hdec
    exact ⟨⟨c, rfl⟩, hdec, (decode_char .mbrtowc hc).1, fun fn => (decode_char fn hc).2⟩

/-- `wcrtomb` of U+20AC. -/
theorem readBack_euro : ReadBack 0x20ac [0xe2, 0x82, 0xac] :=
  (readBack_iff .wcrtomb 0x20ac [0xe2, 0x82, 0xac] (by decide)).2 ⟨by simp [IsSurrogate], by decide⟩

/-- A surrogate gets bytes that the decoders refuse, and `wcsnrtombs` passes over an accented letter. -/
theorem encoders_surrogate :
    Encoder.bytes 0xd800 .wcrtomb = some [0xed, 0xa0, 0x80] ∧
      decodeUtf8Codepoint [0xed, 0xa0, 0x80] = .invalid ∧
      Encoder.bytes 0xd800 .encodeUtf8 = some [0xf0, 0x8d, 0xa0, 0x80] ∧
      decodeUtf8Codepoint [0xf0, 0x8d, 0xa0, 0x80] = .invalid ∧ Encoder.bytes 0xe9 .wcsnrtombs = some [] := by
  decide

end

end CrossShim.Locale
