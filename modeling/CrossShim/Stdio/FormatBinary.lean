import CrossShim.Stdio.Format

/-!
# Binary conversions

`b` and `B` are formatted without the host.  `c23Text` is what C23 prints for them, and `binary_iff` tells when
`format_directive` gives the same.

The value is the one that `read_arg` took, of 32 or of 64 bits, and not one of as many bits as the length names: with
`hh`, `h` and the short `w` lengths there are bits too many, and with `t` the upper half is missing.  Otherwise only
widths and precisions at the ends of the range of `int` make a difference.
-/

namespace CrossShim.Stdio.Format

open Lib List

/-! ## The text -/

/-- How many bits the unsigned type has that a length names.  `L` names none. -/
def LengthMod.bits : LengthMod → ℕ
  | .hh => 8
  | .h => 16
  | .none | .bigL => 32
  | .l | .ll | .j | .z | .t => 64
  | .exactW bits => 8 * bits.bytes
  | .fastW bits => 8 * bits.fastBytes

def binaryDigits (value : ℕ) : List Byte := (value.bits.map fun bit => ascii (if bit then '1' else '0')).reverse

namespace FormatSpec

abbrev Precise (spec : FormatSpec) (precision : ℤ) : Prop := spec.precision ≠ .absent ∧ 0 ≤ precision

/-- The digits, with zeros before them up to the precision, which is 1 if there is none. -/
def c23Digits (spec : FormatSpec) (precision : ℤ) (value : ℕ) : List Byte :=
  let least := if spec.Precise precision then precision.toNat else 1
  List.replicate (least - (binaryDigits value).length) (ascii '0') ++ binaryDigits value

def c23Base (spec : FormatSpec) (value : ℕ) : List Byte :=
  if spec.hasFlag '#' ∧ value ≠ 0 then chars ['0', if spec.conv = ascii 'B' then 'B' else 'b'] else []

/-- The text of a value.  Which side it is padded on, and with what, is for the flags and the sign of the width. -/
def c23Text (spec : FormatSpec) (width precision : ℤ) (value : ℕ) : List Byte :=
  let base := spec.c23Base value
  let digits := spec.c23Digits precision value
  let fill := width.natAbs - (base.length + digits.length)
  if spec.hasFlag '-' ∨ width < 0 then base ++ digits ++ List.replicate fill (ascii ' ')
  else if spec.hasFlag '0' ∧ ¬ spec.Precise precision then base ++ List.replicate fill (ascii '0') ++ digits
  else List.replicate fill (ascii ' ') ++ base ++ digits

/-- The width has no opposite, or the base and the digits are more characters than an `int` counts. -/
def Overlong (spec : FormatSpec) (width precision : ℤ) (value : ℕ) : Prop :=
  width = -2 ^ 31 ∨ spec.hasFlag '#' ∧ value ≠ 0 ∧ 2 ^ 31 - 2 ≤ precision

end FormatSpec

/-- The bits of the register that are printed and should not be, or should be and are not, are clear. -/
def LengthMod.Spare (raw : Word) : LengthMod → Prop
  | .hh | .exactW .b8 | .fastW .b8 => raw.extractLsb' 8 24 = 0
  | .h | .exactW .b16 => raw.extractLsb' 16 16 = 0
  | .t => raw.extractLsb' 32 32 = 0
  | _ => True

/-! ## A text has one value -/

/-- The number that the digits of a text write after `n`, whatever else is in the text. -/
def readBinary (n : ℕ) (text : List Byte) : ℕ :=
  text.foldl (fun n c => if c = ascii '0' then 2 * n else if c = ascii '1' then 2 * n + 1 else n) n

@[simp] lemma readBinary_append (n : ℕ) (s t : List Byte) : readBinary n (s ++ t) = readBinary (readBinary n s) t :=
  foldl_append

@[simp] lemma readBinary_blanks (n k : ℕ) : readBinary n (List.replicate k (ascii ' ')) = n := by
  induction k with
  | zero => rfl
  | succ k ih => exact ih

@[simp] lemma readBinary_zeros (k : ℕ) : readBinary 0 (List.replicate k (ascii '0')) = 0 := by
  induction k with
  | zero => rfl
  | succ k ih => exact ih

@[simp] lemma readBinary_binaryDigits (value : ℕ) : readBinary 0 (binaryDigits value) = value := by
  -- along the bits from the lowest on, which is the last digit
  induction value using Nat.binaryRec' with
  | zero => rfl
  | bit b n hn ih =>
    have hdigits : binaryDigits (Nat.bit b n) = binaryDigits n ++ [ascii (if b then '1' else '0')] := by
      simp [binaryDigits, Nat.bits_append_bit n b hn]
    rw [hdigits, readBinary_append, ih]
    cases b with
    | false => simp [readBinary, Nat.bit]
    | true => simp [readBinary, Nat.bit, ascii]

variable {spec : FormatSpec} {args : List PrintArg} {width precision : ℤ}

lemma readBinary_c23Text (spec : FormatSpec) (width precision : ℤ) (value : ℕ) :
    readBinary 0 (spec.c23Text width precision value) = value := by
  have hbase : readBinary 0 (spec.c23Base value) = 0 := by
    unfold FormatSpec.c23Base
    split_ifs <;> rfl
  unfold FormatSpec.c23Text FormatSpec.c23Digits
  split_ifs <;> simp [hbase]

/-! ## Counts -/

@[simp] lemma ok_bind {α β : Type} (a : α) (g : α → Except Stop β) : (Except.ok a >>= g) = g a := rfl

lemma forall_oneOf (P : Byte → Prop) {cs : List Char} {conv : Byte} (h : cs.Forall fun c => P (ascii c))
    (hconv : oneOf cs conv = true) : P conv := by
  obtain ⟨c, hc, rfl⟩ := mem_map.1 (contains_iff_mem.1 hconv)
  exact forall_iff_forall_mem.1 h c hc

lemma castInt_range (v : ℤ) : -2 ^ 31 ≤ castInt v ∧ castInt v < 2 ^ 31 := by
  unfold castInt
  have h1 := BitVec.le_toInt (BitVec.ofInt 32 v)
  have h2 := BitVec.toInt_lt (x := BitVec.ofInt 32 v)
  omega

section

variable {n total : ℕ} {width : ℤ} {wanted : Prop}

lemma castInt_of_lt (h : n < 2 ^ 31) : castInt n = n := by
  unfold castInt
  rw [BitVec.toInt_ofInt, Int.bmod_def]
  split
  all_goals omega

lemma castInt_of_ge (h : 2 ^ 31 ≤ n) (h' : n < 2 ^ 32) : castInt n = n - 2 ^ 32 := by
  unfold castInt
  rw [BitVec.toInt_ofInt, Int.bmod_def]
  split
  all_goals omega

lemma absWidth_ok (hlow : -2 ^ 31 < width) (hhigh : width < 2 ^ 31) : FormatSpec.absWidth width = .ok |width| := by
  unfold FormatSpec.absWidth intSub INT_MAX
  split
  · next h =>
    rw [if_pos (by omega), abs_of_neg h, zero_sub]
  · next h => rw [abs_of_nonneg (by omega)]

lemma missing_ok [Decidable wanted] (h0 : 0 ≤ width) (hwidth : width < 2 ^ 31) (htotal : total < 2 ^ 31) :
    FormatSpec.missing wanted width total = .ok (if wanted ∧ (total : ℤ) < width then width - total else 0) := by
  unfold FormatSpec.missing intSub INT_MAX
  rw [castInt_of_lt htotal]
  split
  · rw [if_pos (by omega)]
  · rfl

lemma missing_of_not [Decidable wanted] (h : ¬ wanted) (width : ℤ) (total : ℕ) :
    FormatSpec.missing wanted width total = .ok 0 := by
  unfold FormatSpec.missing
  exact if_neg fun hw => h hw.1

end

lemma length_sign (alternate : Prop) [Decidable alternate] (c : Char) :
    (if alternate then chars ['0', c] else []).length = if alternate then 2 else 0 := by
  split
  · rfl
  · rfl

/-! ## The layout -/

lemma missing_wanted {wanted : Prop} [Decidable wanted] (h : wanted) {width total : ℕ} (hwidth : width < 2 ^ 31)
    (htotal : total < 2 ^ 31) : FormatSpec.missing wanted width total = .ok ((width - total : ℕ) : ℤ) := by
  rw [missing_ok (by omega) (by omega) htotal]
  congr 1
  split
  · omega
  · next hno =>
    have hle : ¬ (total : ℤ) < width := fun hlt => hno ⟨h, hlt⟩
    omega

lemma layOut_ok {left zero : Prop} [Decidable left] [Decidable zero] {sign digits : List Byte} {width : ℕ}
    (hwidth : width < 2 ^ 31) (htotal : sign.length + digits.length < 2 ^ 31) :
    FormatSpec.layOut left zero sign digits width = .ok
      (let fill := width - (sign.length + digits.length)
      if left then sign ++ digits ++ List.replicate fill (ascii ' ')
      else if zero then sign ++ List.replicate fill (ascii '0') ++ digits
      else List.replicate fill (ascii ' ') ++ sign ++ digits) := by
  unfold FormatSpec.layOut
  by_cases hzero : ¬ left ∧ zero
  · -- the zeros fill the width, and no blanks are missing
    rw [missing_wanted hzero hwidth htotal, ok_bind, Int.toNat_natCast]
    dsimp only
    rw [missing_wanted trivial hwidth (by rw [length_append, length_replicate]; omega), ok_bind,
      Int.toNat_natCast, length_append, length_replicate, if_neg hzero.1, if_neg hzero.1, if_pos hzero.2]
    have hnone : width - (sign.length + (width - (sign.length + digits.length) + digits.length)) = 0 := by omega
    rw [hnone, replicate_zero, nil_append, append_assoc]
    rfl
  · rw [missing_of_not hzero, ok_bind, Int.toNat_zero, replicate_zero]
    dsimp only
    rw [nil_append, missing_wanted trivial hwidth htotal, ok_bind, Int.toNat_natCast]
    by_cases hleft : left
    · rw [if_pos hleft, if_pos hleft]
      rfl
    · rw [if_neg hleft, if_neg hleft, if_neg fun hz => hzero ⟨hleft, hz⟩]
      rfl

lemma layOut_overlong {left zero : Prop} [Decidable left] [Decidable zero] {sign digits text : List Byte} {width : ℕ}
    (hwidth : width < 2 ^ 31) (hzero : ¬ zero) (htotal : 2 ^ 31 ≤ sign.length + digits.length)
    (hcast : sign.length + digits.length < 2 ^ 32) (h : FormatSpec.layOut left zero sign digits width = .ok text) :
    sign.length + digits.length < text.length := by
  unfold FormatSpec.layOut at h
  rw [missing_of_not fun hz => hzero hz.2, ok_bind, Int.toNat_zero, replicate_zero] at h
  dsimp only at h
  rw [nil_append] at h
  unfold FormatSpec.missing intSub at h
  rw [castInt_of_ge htotal hcast, if_pos ⟨trivial, by omega⟩] at h
  split at h
  · rw [ok_bind] at h
    cases h
    split
    all_goals
      simp only [length_append, length_replicate]
      omega
  · cases h

open FormatSpec in
lemma preciseDigits_eq (spec : FormatSpec) (precision : ℤ) (value : Word) :
    let digits := if value = 0 then [ascii '0'] else binaryDigits value.toNat
    (if spec.Precise precision then preciseDigits digits precision value else digits) =
      spec.c23Digits precision value.toNat := by
  intro digits
  unfold preciseDigits c23Digits
  by_cases hv : value = 0
  · subst hv
    have hnone : binaryDigits (0 : Word).toNat = [] := rfl
    simp only [digits, hnone, if_true, and_true, length_nil, length_singleton, Nat.sub_zero, append_nil]
    by_cases hp : spec.Precise precision
    · rw [if_pos hp, if_pos hp]
      obtain hzero | ⟨n, hn⟩ : precision = 0 ∨ ∃ n : ℕ, precision = n + 1 := by
        rcases hp.2.eq_or_lt with h | h
        · exact .inl h.symm
        · exact .inr ⟨(precision - 1).toNat, by omega⟩
      · rw [if_pos hzero, hzero]
        rfl
      · rw [if_neg (by omega), hn]
        have h1 : ((n : ℤ) + 1 - (1 : ℕ)).toNat = n := by omega
        have h2 : ((n : ℤ) + 1).toNat = n + 1 := by omega
        rw [h1, h2, replicate_succ']
    · rw [if_neg hp, if_neg hp]
      rfl
  · have hpos : 1 ≤ (binaryDigits value.toNat).length := by
      rw [binaryDigits, length_reverse, length_map, Nat.size_eq_bits_len, Nat.one_le_iff_ne_zero]
      intro h
      exact hv (BitVec.eq_of_toNat_eq (Nat.size_eq_zero.1 h))
    simp only [digits, if_neg hv, hv, and_false, if_false]
    split
    · congr 2
      omega
    · rw [Nat.sub_eq_zero_of_le hpos]
      rfl

lemma length_binaryDigits_le {value : ℕ} (h : value < 2 ^ 64) : (binaryDigits value).length ≤ 64 := by
  rw [binaryDigits, length_reverse, length_map, Nat.size_eq_bits_len]
  exact Nat.size_le.2 h

namespace FormatSpec

lemma length_c23Digits (spec : FormatSpec) (precision : ℤ) (value : ℕ) : (spec.c23Digits precision value).length =
    max (if spec.Precise precision then precision.toNat else 1) (binaryDigits value).length := by
  unfold c23Digits
  rw [length_append, length_replicate]
  omega

lemma length_c23Base (spec : FormatSpec) (value : ℕ) :
    (spec.c23Base value).length = if spec.hasFlag '#' ∧ value ≠ 0 then 2 else 0 := length_sign ..

lemma length_c23Text (spec : FormatSpec) (width precision : ℤ) (value : ℕ) :
    (spec.c23Text width precision value).length =
      max width.natAbs ((spec.c23Base value).length + (spec.c23Digits precision value).length) := by
  unfold c23Text
  split_ifs
  all_goals
    simp only [length_append, length_replicate]
    omega

end FormatSpec

lemma Count.value_range {count : Count} {n : ℤ} (h : count.value args = .ok n) : -2 ^ 31 ≤ n ∧ n < 2 ^ 31 := by
  cases count with
  | absent | given k =>
    cases h
    omega
  | fromArg position =>
    change (argAt args position >>= fun arg => .ok (castInt arg.s64)) = _ at h
    cases harg : argAt args position with
    | error e =>
      rw [harg] at h
      cases h
    | ok arg =>
      rw [harg] at h
      cases h
      exact castInt_range _

section conversion

open FormatSpec

variable {value : Word} (hwidth : spec.width.value args = .ok width)
  (hprecision : spec.precision.value args = .ok precision)

include hwidth hprecision

lemma formatBinary_eq (hmin : width ≠ -2 ^ 31) : spec.formatBinary args value =
    layOut (spec.hasFlag '-' ∨ width < 0) (spec.hasFlag '0' ∧ ¬ spec.Precise precision) (spec.c23Base value.toNat)
      (spec.c23Digits precision value.toNat) width.natAbs := by
  obtain ⟨hlow, hhigh⟩ := Count.value_range hwidth
  have hzero : value ≠ 0 ↔ value.toNat ≠ 0 := not_congr BitVec.toNat_inj.symm
  unfold formatBinary applyBinaryWidth
  rw [hprecision, hwidth, ok_bind, ok_bind, absWidth_ok (by omega) hhigh, ok_bind, Int.abs_eq_natAbs,
    ← preciseDigits_eq spec precision value]
  simp only [c23Base, hzero, decide_eq_true_eq]
  rfl

lemma formatBinary_ok (hlong : ¬ spec.Overlong width precision value.toNat) :
    spec.formatBinary args value = .ok (spec.c23Text width precision value.toNat) := by
  obtain ⟨hmin, hlong⟩ := not_or.1 hlong
  obtain ⟨hlow, hhigh⟩ := Count.value_range hwidth
  obtain ⟨-, hp⟩ := Count.value_range hprecision
  have hdigits := length_binaryDigits_le value.isLt
  rw [formatBinary_eq hwidth hprecision hmin, layOut_ok (by omega)]
  · rfl
  rw [length_c23Base, length_c23Digits]
  split
  · next halt =>
    have hless : ¬ 2 ^ 31 - 2 ≤ precision := fun h => hlong ⟨halt.1, halt.2, h⟩
    split <;> omega
  · split <;> omega

/-- A text that an `int` cannot count is filled up, although it is longer than any width. -/
lemma formatBinary_overlong (hlong : spec.Overlong width precision value.toNat) {named : ℕ} (hnamed : named < 2 ^ 64) :
    spec.formatBinary args value ≠ .ok (spec.c23Text width precision named) := by
  obtain ⟨hlow, hhigh⟩ := Count.value_range hwidth
  obtain ⟨-, hp⟩ := Count.value_range hprecision
  intro htext
  by_cases hmin : width = -2 ^ 31
  · have hfault : absWidth width = .error (.fault .overflow) := by
      rw [hmin]
      decide
    unfold formatBinary applyBinaryWidth at htext
    rw [hprecision, hwidth, ok_bind, ok_bind, hfault] at htext
    cases htext
  obtain ⟨hflag, hne, hbig⟩ := hlong.resolve_left hmin
  have hprecise : spec.Precise precision := by
    refine ⟨fun habsent => ?_, by omega⟩
    rw [habsent] at hprecision
    cases hprecision
    omega
  have hdigits (v : ℕ) (hv : v < 2 ^ 64) : (spec.c23Digits precision v).length = precision.toNat := by
    have hle := length_binaryDigits_le hv
    rw [length_c23Digits, if_pos hprecise]
    omega
  have hbase : (spec.c23Base value.toNat).length = 2 := by rw [length_c23Base, if_pos ⟨hflag, hne⟩]
  rw [formatBinary_eq hwidth hprecision hmin] at htext
  have hlonger := layOut_overlong (by omega) (fun hz => hz.2 hprecise)
    (by rw [hbase, hdigits _ value.isLt]; omega) (by rw [hbase, hdigits _ value.isLt]; omega) htext
  rw [hbase, hdigits _ value.isLt, length_c23Text, length_c23Base, hdigits _ hnamed] at hlonger
  split at hlonger <;> omega

end conversion

/-! ## The value -/

lemma determineArgKind_binary (hconv : oneOf ['b', 'B'] spec.conv = true) : spec.determineArgKind =
    match spec.length with
    | .exactW bits => if bits.bytes ≤ 4 then .uint else .ulongLong
    | .fastW bits => if bits.fastBytes ≤ 4 then .uint else .ulongLong
    | length => unsignedKind length := by
  obtain ⟨hfloat, hsigned, hunsigned⟩ := forall_oneOf
    (fun c => isFloatConv c = false ∧ isSignedIntConv c = false ∧ isUnsignedIntConv c = true) (by decide) hconv
  unfold FormatSpec.determineArgKind resolveWArgKind
  rw [hfloat, hsigned, hunsigned]
  cases spec.length <;> rfl

lemma extractLsb'_eq_zero {raw : Word} {start len : ℕ} :
    raw.extractLsb' start len = 0 ↔ raw.toNat / 2 ^ start % 2 ^ len = 0 := by
  rw [← BitVec.toNat_inj, BitVec.extractLsb'_toNat, Nat.shiftRight_eq_div_pow]
  rfl

/-- **The value that is printed is the one that the length names** if the bits that tell them apart are clear. -/
lemma binaryValue_iff {σ : Type} (source : ArgSource σ) (s : σ) (hconv : oneOf ['b', 'B'] spec.conv = true) :
    (FormatSpec.binaryValue (readArg source s spec.determineArgKind).1).toNat =
        (source.nextGpRaw s).1.toNat % 2 ^ spec.length.bits ↔ spec.length.Spare (source.nextGpRaw s).1 := by
  rw [determineArgKind_binary hconv]
  generalize hraw : (source.nextGpRaw s).1 = raw
  cases spec.length with
  | exactW bits | fastW bits =>
    cases bits
    all_goals
      simp only [WBits.bytes, WBits.fastBytes, Nat.reduceLeDiff, if_true, if_false, readArg, FormatSpec.binaryValue, hraw,
        BitVec.toNat_setWidth, LengthMod.bits, LengthMod.Spare, extractLsb'_eq_zero, iff_true]
      omega
  | _ =>
    simp only [unsignedKind, readArg, FormatSpec.binaryValue, hraw, BitVec.toNat_setWidth, LengthMod.bits,
      LengthMod.Spare, extractLsb'_eq_zero, iff_true]
    omega

lemma formatDirective_binary (host : Host) (guest : Guest) {arg : PrintArg} (hconv : oneOf ['b', 'B'] spec.conv = true)
    (harg : args[spec.valuePosition]? = some arg) :
    spec.formatDirective host guest args = spec.formatBinary args (FormatSpec.binaryValue arg) := by
  obtain ⟨hn, hm, hp, hs, hc⟩ := forall_oneOf (fun c => c ≠ ascii 'n' ∧ c ≠ ascii 'm' ∧ c ≠ ascii 'p' ∧
    ¬ oneOf ['s', 'S'] c = true ∧ ¬ oneOf ['c', 'C'] c = true) (by decide) hconv
  unfold FormatSpec.formatDirective argAt
  rw [if_neg hn, if_neg hm, if_neg hp, if_neg hs, if_neg hc, if_pos hconv, harg]
  rfl

/-- **The binary conversions**: the text is that of C23 for the value of the bits that the length names exactly if the
register has no other bits that count, and width and precision leave the text within the range of `int`. -/
theorem binary_iff {σ : Type} (host : Host) (guest : Guest) (source : ArgSource σ) (s : σ) (spec : FormatSpec)
    (args : List PrintArg) (width precision : ℤ) (hconv : oneOf ['b', 'B'] spec.conv = true)
    (harg : args[spec.valuePosition]? = some (readArg source s spec.determineArgKind).1)
    (hwidth : spec.width.value args = .ok width) (hprecision : spec.precision.value args = .ok precision) :
    let raw := (source.nextGpRaw s).1
    let named := raw.toNat % 2 ^ spec.length.bits
    spec.formatDirective host guest args = .ok (spec.c23Text width precision named) ↔
      spec.length.Spare raw ∧ ¬ spec.Overlong width precision named := by
  intro raw named
  rw [formatDirective_binary host guest hconv harg, ← binaryValue_iff source s hconv]
  generalize FormatSpec.binaryValue (readArg source s spec.determineArgKind).1 = value
  have hnamed : named < 2 ^ 64 := (Nat.mod_le _ _).trans_lt raw.isLt
  constructor
  · intro htext
    by_cases hlong : spec.Overlong width precision value.toNat
    · exact absurd htext (formatBinary_overlong hwidth hprecision hlong hnamed)
    rw [formatBinary_ok hwidth hprecision hlong] at htext
    have hvalue := congrArg (readBinary 0) (Except.ok.inj htext)
    rw [readBinary_c23Text, readBinary_c23Text] at hvalue
    exact ⟨hvalue, hvalue ▸ hlong⟩
  · rintro ⟨hvalue, hlong⟩
    change _ = named at hvalue
    rw [← hvalue] at hlong ⊢
    exact formatBinary_ok hwidth hprecision hlong

/-- A host with plenty of memory, whose `snprintf` always gives the empty text. -/
def roomyHost : Host where
  kindRoom := 2 ^ 40
  argRoom := 2 ^ 40
  textRoom := 2 ^ 40
  snprintf _ := .ok []
  one_le_kindRoom := by decide

/-- A guest with a text at this address, and zeros everywhere else. -/
def guestWith (addr : Word) (text : List Char) : Guest where
  read size a := if size = 1 then (true, (chars text)[(a - addr).toNat]?.getD 0 |>.setWidth (8 * size)) else (true, 0)
  errno := 0

def oneRegister (raw : Word) : ArgSource Unit := ⟨fun _ => (raw, ()), fun _ => (0, ()), fun _ => (0, ())⟩

/-- `%#010b` with 5. -/
theorem binary_five :
    let spec : FormatSpec := ⟨chars ['#', '0'], .given 10, .absent, 1, .none, ascii 'b'⟩
    spec.formatDirective roomyHost (guestWith 0 []) [{}, (readArg (oneRegister 5) () .uint).1] =
      .ok (chars ['0', 'b', '0', '0', '0', '0', '0', '1', '0', '1']) := by
  have h := (binary_iff roomyHost (guestWith 0 []) (oneRegister 5) ()
    ⟨chars ['#', '0'], .given 10, .absent, 1, .none, ascii 'b'⟩ [{}, (readArg (oneRegister 5) () .uint).1] 10 0
    (by decide) rfl rfl rfl).2 ⟨trivial, by simp [FormatSpec.Overlong]⟩
  exact h

/-- `%hhb` with `0x1ff` prints nine digits, and `%tb` with `2^32` prints a zero. -/
theorem binary_spare :
    (⟨[], .absent, .absent, 1, .hh, ascii 'b'⟩ : FormatSpec).formatDirective roomyHost (guestWith 0 [])
        [{}, (readArg (oneRegister 0x1ff) () .uint).1] = .ok (List.replicate 9 (ascii '1')) ∧
      (⟨[], .absent, .absent, 1, .hh, ascii 'b'⟩ : FormatSpec).c23Text 0 0 (0x1ff % 2 ^ LengthMod.bits .hh) =
        List.replicate 8 (ascii '1') ∧
      (⟨[], .absent, .absent, 1, .t, ascii 'b'⟩ : FormatSpec).formatDirective roomyHost (guestWith 0 [])
        [{}, (readArg (oneRegister (2 ^ 32)) () .uint).1] = .ok [ascii '0'] ∧
      (⟨[], .absent, .absent, 1, .t, ascii 'b'⟩ : FormatSpec).c23Text 0 0 (2 ^ 32 % 2 ^ LengthMod.bits .t) =
        ascii '1' :: List.replicate 32 (ascii '0') := by
  decide +kernel

end CrossShim.Stdio.Format
