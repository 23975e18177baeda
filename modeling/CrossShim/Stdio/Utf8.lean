import CrossShim.Lib.Blocks

/-!
# UTF-8 for wide streams

`decode_utf8_codepoint` and `decode_utf8_string_to_guest_wchars` of `hle_file.cpp`.  The first accepts exactly what starts
with the bytes of a character, `decodeUtf8Codepoint_eq_ok_iff`, and the second reads back every text that is encoded:
`decodeUtf8String_utf8Bytes`.
-/

namespace CrossShim.Stdio

open Lib List

/-- `Utf8DecodeStatus`, with the code point and the bytes consumed where there is one. -/
inductive Utf8DecodeStatus where
  | ok (codepoint consumed : ℕ)
  | incomplete
  | invalid
  deriving DecidableEq

def decodeUtf8Codepoint (input : List Byte) : Utf8DecodeStatus :=
  let b (i : ℕ) : ℕ := (input.getD i 0).toNat
  if input.length = 0 then .incomplete
  else if b 0 < 0x80 then .ok (b 0) 1
  else if 0xC2 ≤ b 0 ∧ b 0 ≤ 0xDF then
    if input.length < 2 then .incomplete
    else if b 1 &&& 0xC0 ≠ 0x80 then .invalid
    else .ok ((b 0 &&& 0x1F) <<< 6 ||| (b 1 &&& 0x3F)) 2
  else if 0xE0 ≤ b 0 ∧ b 0 ≤ 0xEF then
    if input.length < 3 then .incomplete
    else if b 1 &&& 0xC0 ≠ 0x80 ∨ b 2 &&& 0xC0 ≠ 0x80 then .invalid
    else if (b 0 = 0xE0 ∧ b 1 < 0xA0) ∨ (b 0 = 0xED ∧ 0xA0 ≤ b 1) then .invalid
    else .ok ((b 0 &&& 0x0F) <<< 12 ||| (b 1 &&& 0x3F) <<< 6 ||| (b 2 &&& 0x3F)) 3
  else if 0xF0 ≤ b 0 ∧ b 0 ≤ 0xF4 then
    if input.length < 4 then .incomplete
    else if b 1 &&& 0xC0 ≠ 0x80 ∨ b 2 &&& 0xC0 ≠ 0x80 ∨ b 3 &&& 0xC0 ≠ 0x80 then .invalid
    else if (b 0 = 0xF0 ∧ b 1 < 0x90) ∨ (b 0 = 0xF4 ∧ 0x90 ≤ b 1) then .invalid
    else .ok ((b 0 &&& 0x07) <<< 18 ||| (b 1 &&& 0x3F) <<< 12 ||| (b 2 &&& 0x3F) <<< 6 ||| (b 3 &&& 0x3F)) 4
  else .invalid

/-- The loop over the string; every round consumes a byte. -/
def decodeLoop : ℕ → List Byte → Option (List ℕ)
  | _, [] => some []
  | 0, _ :: _ => none
  | rounds + 1, b :: bs =>
    match decodeUtf8Codepoint (b :: bs) with
    | .ok codepoint consumed => (decodeLoop rounds ((b :: bs).drop consumed)).map (codepoint :: ·)
    | _ => none

/-- `decode_utf8_string_to_guest_wchars`. -/
def decodeUtf8String (input : List Byte) : Option (List ℕ) := decodeLoop input.length input

lemma length_decodeLoop {rounds : ℕ} {bs : List Byte} {cs : List ℕ} (h : decodeLoop rounds bs = some cs) :
    cs.length ≤ rounds := by
  induction rounds generalizing bs cs with
  | zero =>
    cases bs with
    | nil =>
      cases h
      exact le_rfl
    | cons b bs => cases h
  | succ rounds ih =>
    cases bs with
    | nil =>
      cases h
      exact Nat.zero_le _
    | cons b bs =>
      unfold decodeLoop at h
      split at h
      · obtain ⟨cs', hcs', rfl⟩ := Option.map_eq_some_iff.1 h
        exact Nat.succ_le_succ (ih hcs')
      · cases h

/-! ### Texts -/

def charBytes (c : Char) : List Byte := (String.utf8EncodeChar c).map UInt8.toBitVec

def utf8Bytes (text : List Char) : List Byte := text.flatMap charBytes

def codepoint (c : Char) : ℕ := c.val.toNat

section

variable {x y : ℕ}

lemma toNat_byte (h : x < 256) : (BitVec.ofNat 8 x).toNat = x := by
  rw [BitVec.toNat_ofNat]
  exact Nat.mod_eq_of_lt h

lemma tail_bits (h : x < 64) : (x + 128) &&& 0xC0 = 0x80 ∧ (x + 128) &&& 0x3F = x := by
  have : ∀ x < 64, (x + 128) &&& 0xC0 = 0x80 ∧ (x + 128) &&& 0x3F = x := by decide
  exact this x h

lemma lead_bits_two (h : x < 32) : (x + 192) &&& 0x1F = x := by
  have : ∀ x < 32, (x + 192) &&& 0x1F = x := by decide
  exact this x h

lemma lead_bits_three (h : x < 16) : (x + 224) &&& 0x0F = x := by
  have : ∀ x < 16, (x + 224) &&& 0x0F = x := by decide
  exact this x h

lemma lead_bits_four (h : x < 8) : (x + 240) &&& 0x07 = x := by
  have : ∀ x < 8, (x + 240) &&& 0x07 = x := by decide
  exact this x h

lemma shiftLeft_or (i : ℕ) (h : y < 2 ^ i) : x <<< i ||| y = 2 ^ i * x + y := by
  rw [Nat.shiftLeft_eq, Nat.mul_comm, ← Nat.two_pow_add_eq_or_of_lt h]

end

/-- The bytes of a character and its number, by the number of bytes. -/
inductive Utf8Form : List Byte → ℕ → Prop
  | one {x} (hx : x ≤ 0x7f) : Utf8Form [BitVec.ofNat 8 x] x
  | two {x y} (hx : 2 ≤ x) (hx' : x < 32) (hy : y < 64) :
    Utf8Form [BitVec.ofNat 8 (x + 192), BitVec.ofNat 8 (y + 128)] (64 * x + y)
  | three {x y z} (hx : x < 16) (hy : y < 64) (hz : z < 64) (hlow : x = 0 → 32 ≤ y) (hsur : x = 13 → y < 32) :
    Utf8Form [BitVec.ofNat 8 (x + 224), BitVec.ofNat 8 (y + 128), BitVec.ofNat 8 (z + 128)] (4096 * x + 64 * y + z)
  | four {x y z w} (hx : x < 5) (hy : y < 64) (hz : z < 64) (hw : w < 64) (hlow : x = 0 → 16 ≤ y)
    (hhigh : x = 4 → y < 16) :
    Utf8Form [BitVec.ofNat 8 (x + 240), BitVec.ofNat 8 (y + 128), BitVec.ofNat 8 (z + 128), BitVec.ofNat 8 (w + 128)]
      (262144 * x + 4096 * y + 64 * z + w)

/-- **A form is read back**, whatever comes behind it. -/
theorem Utf8Form.decode {bs : List Byte} {v : ℕ} (h : Utf8Form bs v) (rest : List Byte) :
    decodeUtf8Codepoint (bs ++ rest) = .ok v bs.length := by
  unfold decodeUtf8Codepoint
  cases h with
  | one hx =>
    simp only [cons_append, getD_cons_zero, toNat_byte (show v < 256 by omega)]
    rw [if_neg (by simp), if_pos (by omega)]
    rfl
  | @two x y hx hx' hy =>
    simp only [cons_append, getD_cons_zero, getD_cons_succ, toNat_byte (show x + 192 < 256 by omega),
      toNat_byte (show y + 128 < 256 by omega), tail_bits hy, lead_bits_two hx', length_cons]
    rw [if_neg (by simp), if_neg (by omega), if_pos (by omega), if_neg (by omega), if_neg (by simp), shiftLeft_or 6 hy]
    rfl
  | @three x y z hx hy hz hlow hsur =>
    simp only [cons_append, getD_cons_zero, getD_cons_succ, toNat_byte (show x + 224 < 256 by omega),
      toNat_byte (show y + 128 < 256 by omega), toNat_byte (show z + 128 < 256 by omega), tail_bits hy, tail_bits hz,
      lead_bits_three hx, length_cons]
    rw [if_neg (by simp), if_neg (by omega), if_neg (by omega), if_pos (by omega), if_neg (by omega), if_neg (by simp),
      if_neg (by omega), Nat.or_assoc, shiftLeft_or 6 hz, shiftLeft_or 12 (by omega)]
    congr 1
    omega
  | @four x y z w hx hy hz hw hlow hhigh =>
    simp only [cons_append, getD_cons_zero, getD_cons_succ, toNat_byte (show x + 240 < 256 by omega),
      toNat_byte (show y + 128 < 256 by omega), toNat_byte (show z + 128 < 256 by omega),
      toNat_byte (show w + 128 < 256 by omega), tail_bits hy, tail_bits hz, tail_bits hw,
      lead_bits_four (show x < 8 by omega), length_cons]
    rw [if_neg (by simp), if_neg (by omega), if_neg (by omega), if_neg (by omega), if_pos (by omega),
      if_neg (by omega), if_neg (by simp), if_neg (by omega), Nat.or_assoc, Nat.or_assoc, shiftLeft_or 6 hw,
      shiftLeft_or 12 (by omega), shiftLeft_or 18 (by omega)]
    congr 1
    omega

lemma charBytes_eq (c : Char) :
    charBytes c =
      if codepoint c ≤ 0x7f then [BitVec.ofNat 8 (codepoint c)]
      else if codepoint c ≤ 0x7ff then
        [BitVec.ofNat 8 (codepoint c / 64 % 32 + 192), BitVec.ofNat 8 (codepoint c % 64 + 128)]
      else if codepoint c ≤ 0xffff then
        [BitVec.ofNat 8 (codepoint c / 4096 % 16 + 224), BitVec.ofNat 8 (codepoint c / 64 % 64 + 128),
          BitVec.ofNat 8 (codepoint c % 64 + 128)]
      else
        [BitVec.ofNat 8 (codepoint c / 262144 % 8 + 240), BitVec.ofNat 8 (codepoint c / 4096 % 64 + 128),
          BitVec.ofNat 8 (codepoint c / 64 % 64 + 128), BitVec.ofNat 8 (codepoint c % 64 + 128)] := by
  unfold charBytes String.utf8EncodeChar codepoint
  dsimp only
  split_ifs <;> rfl

lemma utf8Form_char (c : Char) : Utf8Form (charBytes c) (codepoint c) := by
  have hvalid : codepoint c < 0xD800 ∨ 0xDFFF < codepoint c ∧ codepoint c < 0x110000 := c.valid
  rw [charBytes_eq]
  generalize codepoint c = v at hvalid
  split_ifs with h1 h2 h3
  · exact .one h1
  · have h := Utf8Form.two (x := v / 64 % 32) (y := v % 64) (by omega) (by omega) (by omega)
    rwa [show 64 * (v / 64 % 32) + v % 64 = v by omega] at h
  · have h := Utf8Form.three (x := v / 4096 % 16) (y := v / 64 % 64) (z := v % 64) (by omega) (by omega) (by omega)
      (by omega) (by omega)
    rwa [show 4096 * (v / 4096 % 16) + 64 * (v / 64 % 64) + v % 64 = v by omega] at h
  · have h := Utf8Form.four (x := v / 262144 % 8) (y := v / 4096 % 64) (z := v / 64 % 64) (w := v % 64) (by omega)
      (by omega) (by omega) (by omega) (by omega) (by omega)
    rwa [show 262144 * (v / 262144 % 8) + 4096 * (v / 4096 % 64) + 64 * (v / 64 % 64) + v % 64 = v by omega] at h

theorem decodeUtf8Codepoint_charBytes (c : Char) (rest : List Byte) :
    decodeUtf8Codepoint (charBytes c ++ rest) = .ok (codepoint c) (charBytes c).length :=
  (utf8Form_char c).decode rest

lemma exists_codepoint {v : ℕ} (h : v < 0xD800 ∨ 0xDFFF < v ∧ v < 0x110000) : ∃ c, codepoint c = v := by
  refine ⟨⟨UInt32.ofNat v, ?_⟩, ?_⟩
  · change (UInt32.ofNat v).toNat < 0xD800 ∨ 0xDFFF < (UInt32.ofNat v).toNat ∧ (UInt32.ofNat v).toNat < 0x110000
    rwa [UInt32.toNat_ofNat', Nat.mod_eq_of_lt (by omega)]
  · exact (UInt32.toNat_ofNat' ..).trans (Nat.mod_eq_of_lt (by omega))

lemma Utf8Form.exists_char {bs : List Byte} {v : ℕ} (h : Utf8Form bs v) : ∃ c, charBytes c = bs ∧ codepoint c = v := by
  obtain ⟨c, rfl⟩ := exists_codepoint (v := v) (by cases h <;> omega)
  refine ⟨c, ?_, rfl⟩
  rw [charBytes_eq]
  generalize codepoint c = v at h
  cases h with
  | one hx => rw [if_pos hx]
  | @two x y hx hx' hy =>
    rw [if_neg (by omega), if_pos (by omega), show (64 * x + y) / 64 % 32 = x by omega,
      show (64 * x + y) % 64 = y by omega]
  | @three x y z hx hy hz =>
    rw [if_neg (by omega), if_neg (by omega), if_pos (by omega),
      show (4096 * x + 64 * y + z) / 4096 % 16 = x by omega, show (4096 * x + 64 * y + z) / 64 % 64 = y by omega,
      show (4096 * x + 64 * y + z) % 64 = z by omega]
  | @four x y z w hx hy hz hw =>
    rw [if_neg (by omega), if_neg (by omega), if_neg (by omega),
      show (262144 * x + 4096 * y + 64 * z + w) / 262144 % 8 = x by omega,
      show (262144 * x + 4096 * y + 64 * z + w) / 4096 % 64 = y by omega,
      show (262144 * x + 4096 * y + 64 * z + w) / 64 % 64 = z by omega,
      show (262144 * x + 4096 * y + 64 * z + w) % 64 = w by omega]

lemma exists_tail {b : Byte} (h : b.toNat &&& 0xC0 = 0x80) : ∃ y < 64, b = BitVec.ofNat 8 (y + 128) := by
  have hrange : ∀ n < 256, n &&& 0xC0 = 0x80 → 128 ≤ n ∧ n < 192 := by decide +kernel
  obtain ⟨hlow, hhigh⟩ := hrange b.toNat b.isLt h
  refine ⟨b.toNat - 128, by omega, ?_⟩
  rw [Nat.sub_add_cancel hlow, BitVec.ofNat_toNat, BitVec.setWidth_eq]

lemma exists_lead {b : Byte} {base : ℕ} (h : base ≤ b.toNat) : b = BitVec.ofNat 8 (b.toNat - base + base) := by
  rw [Nat.sub_add_cancel h, BitVec.ofNat_toNat, BitVec.setWidth_eq]

lemma eq_front_append {input : List Byte} {k : ℕ} (h : k ≤ input.length) :
    input = (range k).map (input.getD · 0) ++ input.drop k := by
  nth_rewrite 1 [← take_append_drop k input]
  congr 1
  apply ext_getElem (by simpa using h)
  intro i hi _
  have hlt : i < input.length := by
    rw [length_take] at hi
    omega
  simp [hlt]

/-- **What is decoded is the character at the front.** -/
theorem decodeUtf8Codepoint_eq_ok_iff {input : List Byte} {cp k : ℕ} : decodeUtf8Codepoint input = .ok cp k ↔
    ∃ c rest, input = charBytes c ++ rest ∧ codepoint c = cp ∧ (charBytes c).length = k := by
  constructor
  swap
  · rintro ⟨c, rest, rfl, rfl, rfl⟩
    exact decodeUtf8Codepoint_charBytes c rest
  intro h
  suffices hfront : ∃ bs rest v, input = bs ++ rest ∧ Utf8Form bs v by
    obtain ⟨bs, rest, v, rfl, hform⟩ := hfront
    obtain ⟨c, rfl, -⟩ := hform.exists_char
    obtain ⟨hcp, hk⟩ := Utf8DecodeStatus.ok.inj ((decodeUtf8Codepoint_charBytes c rest).symm.trans h)
    exact ⟨c, rest, rfl, hcp, hk⟩
  unfold decodeUtf8Codepoint at h
  dsimp only at h
  -- a branch that gives a character has as many bytes as it reads, and the bytes fit its form
  split_ifs at h with h0 h1 h2 h3 h4 h5 h6 h7 h8 h9 h10 h11 h12
  · refine ⟨_, input.drop 1, _, ?_, .one (Nat.le_of_lt_succ h1)⟩
    rw [BitVec.ofNat_toNat, BitVec.setWidth_eq]
    exact eq_front_append (Nat.pos_of_ne_zero h0)
  · obtain ⟨y, hy, hb₁⟩ := exists_tail (not_not.1 h4)
    refine ⟨_, input.drop 2, _, ?_, .two (x := (input.getD 0 0).toNat - 192) (by omega) (by omega) hy⟩
    rw [← exists_lead (by omega), ← hb₁]
    exact eq_front_append (not_lt.1 h3)
  · simp only [ne_eq, not_or, not_not, not_and_or] at h7 h8
    obtain ⟨y, hy, hb₁⟩ := exists_tail h7.1
    obtain ⟨z, hz, hb₂⟩ := exists_tail h7.2
    rw [hb₁, toNat_byte (by omega)] at h8
    refine ⟨_, input.drop 3, _, ?_,
      .three (x := (input.getD 0 0).toNat - 224) (by omega) hy hz (by omega) (by omega)⟩
    rw [← exists_lead h5.1, ← hb₁, ← hb₂]
    exact eq_front_append (not_lt.1 h6)
  · simp only [ne_eq, not_or, not_not, not_and_or] at h11 h12
    obtain ⟨y, hy, hb₁⟩ := exists_tail h11.1
    obtain ⟨z, hz, hb₂⟩ := exists_tail h11.2.1
    obtain ⟨w, hw, hb₃⟩ := exists_tail h11.2.2
    rw [hb₁, toNat_byte (by omega)] at h12
    refine ⟨_, input.drop 4, _, ?_,
      .four (x := (input.getD 0 0).toNat - 240) (by omega) hy hz hw (by omega) (by omega)⟩
    rw [← exists_lead h9.1, ← hb₁, ← hb₂, ← hb₃]
    exact eq_front_append (not_lt.1 h10)

lemma charBytes_ne_nil (c : Char) : charBytes c ≠ [] := by
  rw [charBytes_eq]
  split_ifs <;> simp

/-- **A text is read back.** -/
theorem decodeUtf8String_utf8Bytes (text : List Char) :
    decodeUtf8String (utf8Bytes text) = some (text.map codepoint) := by
  have hrounds : ∀ rounds, (utf8Bytes text).length ≤ rounds →
      decodeLoop rounds (utf8Bytes text) = some (text.map codepoint) := by
    induction text with
    | nil =>
      intro rounds _
      cases rounds <;> rfl
    | cons c text ih =>
      intro rounds hle
      have hbytes : utf8Bytes (c :: text) = charBytes c ++ utf8Bytes text := rfl
      have hpos := length_pos_iff.2 (charBytes_ne_nil c)
      rw [hbytes, length_append] at hle
      obtain ⟨rounds, rfl⟩ : ∃ r, rounds = r + 1 := ⟨rounds - 1, by omega⟩
      obtain ⟨b, bs, hcons⟩ : ∃ b bs, charBytes c ++ utf8Bytes text = b :: bs := by
        cases hc : charBytes c with
        | nil => exact absurd hc (charBytes_ne_nil c)
        | cons b bs => exact ⟨b, bs ++ utf8Bytes text, rfl⟩
      have hone := decodeUtf8Codepoint_charBytes c (utf8Bytes text)
      rw [hbytes, hcons, decodeLoop, ← hcons, hone]
      simp only [drop_left, ih rounds (by omega), Option.map_some, map_cons]
  exact hrounds _ le_rfl

end CrossShim.Stdio
