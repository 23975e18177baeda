import CrossShim.Stdio.ScanSet
import CrossShim.Stdio.Utf8

/-!
# Characters and strings of `scanf`

`c`, `C`, `s` and `S` are put to the host's scanning function, which stores into a temporary; so many bytes are then
copied to the guest as the width says, or as a terminator is looked for.  `Codec` is what is used of the multibyte
characters of the host, `hostMatch` what the C standard says that a directive matches and stores.  `stringCopy_iff` says
exactly when the copy stays within the temporary and, for characters, is what was consumed.
-/

namespace CrossShim.Stdio.Scan

open Lib Memory List Option ScanDirective
open Format (ascii oneOf)

/-! ### Units -/

def IsText (unit : ℕ) (bytes : List Byte) : Prop :=
  ∃ units : List (List Byte), bytes = units.flatten ∧ ∀ x ∈ units, x.length = unit ∧ x ≠ List.replicate unit 0

/-- There is a zero at this place, counted in units. -/
def ZeroAt (unit : ℕ) (memory : List Byte) (i : ℕ) : Prop :=
  (memory.drop (unit * i)).take unit = List.replicate unit 0

section

variable {unit i size : ℕ} {bytes bytes' more memory : List Byte}

lemma isText_nil : IsText unit [] := ⟨[], rfl, nofun⟩

lemma IsText.append (h : IsText unit bytes) (h' : IsText unit bytes') : IsText unit (bytes ++ bytes') := by
  obtain ⟨units, rfl, hu⟩ := h
  obtain ⟨units', rfl, hu'⟩ := h'
  exact ⟨units ++ units', (flatten_append ..).symm, forall_mem_append.2 ⟨hu, hu'⟩⟩

/-- **A zero behind a text** is not before its end. -/
lemma IsText.length_le (h : IsText unit bytes) (hz : ZeroAt unit (bytes ++ more) i) : bytes.length ≤ unit * i := by
  obtain ⟨units, rfl, hu⟩ := h
  induction units generalizing i with
  | nil => exact Nat.zero_le _
  | cons x units ih =>
    obtain ⟨hlen, hne⟩ := hu x mem_cons_self
    cases i with
    | zero =>
      unfold ZeroAt at hz
      rw [Nat.mul_zero, drop_zero, flatten_cons, append_assoc, take_left' hlen] at hz
      exact absurd hz hne
    | succ i =>
      have hz' : ZeroAt unit (units.flatten ++ more) i := by
        unfold ZeroAt at hz ⊢
        rwa [Nat.mul_succ, Nat.add_comm, flatten_cons, append_assoc, ← drop_drop,
          drop_left' hlen] at hz
      have := ih (fun y hy => hu y (mem_cons_of_mem _ hy)) hz'
      rw [flatten_cons, length_append, hlen, Nat.mul_succ]
      omega

lemma IsText.exists_length (h : IsText unit bytes) : ∃ k, bytes.length = unit * k := by
  obtain ⟨units, rfl, hu⟩ := h
  refine ⟨units.length, ?_⟩
  induction units with
  | nil => rfl
  | cons x units ih =>
    rw [flatten_cons, length_append, (hu x mem_cons_self).1,
      ih fun y hy => hu y (mem_cons_of_mem _ hy), length_cons, Nat.mul_succ, Nat.add_comm]

instance (unit : ℕ) (memory : List Byte) (i : ℕ) : Decidable (ZeroAt unit memory i) := by
  unfold ZeroAt
  infer_instance

lemma unitsLen_eq_findIdx :
    unitsLen unit memory = (List.range (memory.length / unit)).findIdx fun i => decide (ZeroAt unit memory i) := by
  have hnot : (fun i => !decide ((memory.drop (unit * i)).take unit ≠ List.replicate unit 0)) =
      fun i => decide (ZeroAt unit memory i) := by
    funext i
    simp [ZeroAt]
  rw [unitsLen, takeWhile_eq_take_findIdx_not, hnot, length_take]
  exact Nat.min_eq_left findIdx_le_length

lemma zeroAt_unitsLen (h : unitsLen unit memory < memory.length / unit) : ZeroAt unit memory (unitsLen unit memory) := by
  rw [unitsLen_eq_findIdx] at h ⊢
  have hget := findIdx_getElem (w := by rwa [length_range])
  rwa [getElem_range, decide_eq_true_eq] at hget

lemma not_zeroAt_of_lt (h : i < unitsLen unit memory) : ¬ZeroAt unit memory i := by
  rw [unitsLen_eq_findIdx] at h
  have hnot := not_of_lt_findIdx h
  rwa [getElem_range, decide_eq_false_iff_not] at hnot

/-- **Looking for a terminator** stays within the first `size` bytes exactly if there is a zero in them. -/
lemma unitsLen_le_iff (hu : 0 < unit) (hsize : size ≤ memory.length) :
    (unitsLen unit memory + 1) * unit ≤ size ↔ ∃ i, (i + 1) * unit ≤ size ∧ ZeroAt unit memory i := by
  constructor
  · intro h
    refine ⟨_, h, zeroAt_unitsLen ?_⟩
    exact (Nat.le_div_iff_mul_le hu).2 (h.trans hsize)
  · rintro ⟨i, hi, hz⟩
    have hle : unitsLen unit memory ≤ i := not_lt.1 fun hlt => not_zeroAt_of_lt hlt hz
    exact (Nat.mul_le_mul_right unit (Nat.succ_le_succ hle)).trans hi

lemma unitsLen_text (hu : 0 < unit) (h : IsText unit bytes)
    (hsize : size ≤ (bytes ++ (List.replicate unit 0 ++ more)).length) :
    (unitsLen unit (bytes ++ (List.replicate unit 0 ++ more)) + 1) * unit ≤ size ↔ bytes.length + unit ≤ size := by
  rw [unitsLen_le_iff hu hsize]
  constructor
  · rintro ⟨i, hi, hz⟩
    have hle := h.length_le hz
    rw [Nat.succ_mul, Nat.mul_comm] at hi
    omega
  · intro hle
    obtain ⟨k, hk⟩ := h.exists_length
    refine ⟨k, ?_, ?_⟩
    · rw [Nat.succ_mul, Nat.mul_comm, ← hk]
      exact hle
    · unfold ZeroAt
      rw [← hk, drop_left, take_left' length_replicate]

end

/-! ### Characters -/

/-- The multibyte characters of the host: those of ASCII are one byte, the others several, none of them zero. -/
structure Codec where
  decode : List Byte → Option (ℕ × BitVec 32)
  encode : BitVec 32 → Option (List Byte)
  decode_nil : decode [] = none
  decode_ascii : ∀ b bs, b < 0x80 → decode (b :: bs) = some (1, b.setWidth 32)
  decode_other : ∀ b bs k c, ¬b < 0x80 → decode (b :: bs) = some (k, c) → 2 ≤ k ∧ k ≤ (b :: bs).length ∧ c ≠ 0
  encode_ascii : ∀ c, c < 0x80 → encode c = some [c.setWidth 8]
  encode_other : ∀ c bytes, ¬c < 0x80 → encode c = some bytes → 2 ≤ bytes.length ∧ 0 ∉ bytes

/-- How the character at the front of an input is read and stored, and how much it takes up. -/
structure Transcoding (w : ℕ) where
  unit : ℕ
  front : List (BitVec w) → Option (ℕ × BitVec 32)
  store : BitVec 32 → Option (List Byte)
  unit_pos : 0 < unit
  front_le : ∀ {rest k c}, front rest = some (k, c) → 1 ≤ k ∧ k ≤ rest.length
  front_ne : ∀ {rest k c}, 0 ∉ rest → front rest = some (k, c) → c ≠ 0
  store_isText : ∀ {c bytes}, c ≠ 0 → store c = some bytes → IsText unit bytes
  unit_le_store : ∀ {c bytes}, store c = some bytes → unit ≤ bytes.length

/-- The next `n` characters: how much of the input they are, and the bytes stored for them. -/
def takeChars {w : ℕ} (t : Transcoding w) : ℕ → List (BitVec w) → Option (ℕ × List Byte)
  | 0, _ => some (0, [])
  | n + 1, rest => do
    let (k, c) ← t.front rest
    let bytes ← t.store c
    let (count, text) ← takeChars t n (rest.drop k)
    return (k + count, bytes ++ text)

/-- The same up to white space, the end of the input or the width. -/
def takeWord {w : ℕ} (t : Transcoding w) (isSpace : BitVec w → Bool) : ℕ → List (BitVec w) → Option (ℕ × List Byte)
  | 0, _ => some (0, [])
  | n + 1, rest =>
    if (rest.head?.map isSpace).getD true then some (0, [])
    else do
      let (k, c) ← t.front rest
      let bytes ← t.store c
      let (count, text) ← takeWord t isSpace n (rest.drop k)
      return (k + count, bytes ++ text)

section

variable {w n n' count max : ℕ} {t : Transcoding w} {rest : List (BitVec w)} {text text' : List Byte}
  {isSpace : BitVec w → Bool}

lemma takeChars_succ : takeChars t (n + 1) rest = some (count, text) ↔ ∃ k c bytes count' text',
    t.front rest = some (k, c) ∧ t.store c = some bytes ∧ takeChars t n (rest.drop k) = some (count', text') ∧
      count = k + count' ∧ text = bytes ++ text' := by
  rw [takeChars]
  simp only [Option.bind_eq_bind, Option.bind_eq_some_iff, Prod.exists, Option.pure_def, Option.some.injEq, Prod.mk.injEq]
  constructor
  · rintro ⟨k, c, hfront, bytes, hstore, count', text', hrest, rfl, rfl⟩
    exact ⟨k, c, bytes, count', text', hfront, hstore, hrest, rfl, rfl⟩
  · rintro ⟨k, c, bytes, count', text', hfront, hstore, hrest, rfl, rfl⟩
    exact ⟨k, c, hfront, bytes, hstore, count', text', hrest, rfl, rfl⟩

/-- **A word** is so many characters. -/
lemma exists_takeChars_of_takeWord (h : takeWord t isSpace max rest = some (count, text)) :
    ∃ n ≤ max, takeChars t n rest = some (count, text) := by
  induction max generalizing rest count text with
  | zero =>
    exact ⟨0, le_rfl, h⟩
  | succ max ih =>
    rw [takeWord] at h
    split_ifs at h with hend
    · exact ⟨0, Nat.zero_le _, h⟩
    · simp only [Option.bind_eq_bind, Option.bind_eq_some_iff, Prod.exists, Option.pure_def, Option.some.injEq,
        Prod.mk.injEq] at h
      obtain ⟨k, c, hfront, bytes, hstore, count', text', hrest, rfl, rfl⟩ := h
      obtain ⟨n, hn, hchars⟩ := ih hrest
      exact ⟨n + 1, Nat.succ_le_succ hn, takeChars_succ.2 ⟨k, c, bytes, count', text', hfront, hstore, hchars, rfl, rfl⟩⟩

lemma takeChars_le (h : takeChars t n rest = some (count, text)) :
    n ≤ count ∧ count ≤ rest.length ∧ t.unit * n ≤ text.length := by
  induction n generalizing rest count text with
  | zero =>
    cases h
    exact ⟨le_rfl, Nat.zero_le _, le_rfl⟩
  | succ n ih =>
    obtain ⟨k, c, bytes, count', text', hfront, hstore, hrest, rfl, rfl⟩ := takeChars_succ.1 h
    obtain ⟨h1, h2, h3⟩ := ih hrest
    obtain ⟨hk, hk'⟩ := t.front_le hfront
    have hunit := t.unit_le_store hstore
    rw [length_drop] at h2
    rw [length_append, Nat.mul_succ]
    omega

lemma takeChars_isText (hzero : 0 ∉ rest) (h : takeChars t n rest = some (count, text)) : IsText t.unit text := by
  induction n generalizing rest count text with
  | zero =>
    cases h
    exact isText_nil
  | succ n ih =>
    obtain ⟨k, c, bytes, count', text', hfront, hstore, hrest, rfl, rfl⟩ := takeChars_succ.1 h
    exact (t.store_isText (t.front_ne hzero hfront) hstore).append (ih (fun h => hzero (mem_of_mem_drop h)) hrest)

lemma takeChars_inj (h : takeChars t n rest = some (count, text)) (h' : takeChars t n' rest = some (count, text')) :
    n = n' := by
  induction n generalizing n' rest count text text' with
  | zero =>
    cases h
    have := (takeChars_le h').1
    omega
  | succ n ih =>
    obtain ⟨k, c, bytes, count', text₁, hfront, hstore, hrest, rfl, rfl⟩ := takeChars_succ.1 h
    have hk := (t.front_le hfront).1
    cases n' with
    | zero =>
      have hzero : 0 = k + count' := congrArg Prod.fst (some.inj h')
      omega
    | succ n' =>
      obtain ⟨k', c', bytes', count'', text₂, hfront', hstore', hrest', hcount, rfl⟩ := takeChars_succ.1 h'
      cases hfront.symm.trans hfront'
      obtain rfl : count' = count'' := Nat.add_left_cancel hcount
      rw [ih hrest hrest']

end

/-! ### Narrow and wide -/

lemma isText_unit {bytes : List Byte} {unit : ℕ} (hlen : bytes.length = unit) (hne : bytes ≠ List.replicate unit 0) :
    IsText unit bytes :=
  ⟨[bytes], (flatten_singleton).symm, fun _ hx => mem_singleton.1 hx ▸ ⟨hlen, hne⟩⟩

lemma isText_one {bytes : List Byte} (h : 0 ∉ bytes) : IsText 1 bytes := by
  induction bytes with
  | nil => exact isText_nil
  | cons b bytes ih =>
    have hb : IsText 1 [b] := isText_unit rfl fun heq => h (by rw [(List.cons.inj heq).1]; exact mem_cons_self)
    exact hb.append (ih fun hmem => h (mem_cons_of_mem _ hmem))

lemma leBytes_eq_zero_iff {k v : ℕ} : leBytes k v = List.replicate k 0 ↔ v % 256 ^ k = 0 := by
  induction k generalizing v with
  | zero => simp [leBytes, Nat.mod_one]
  | succ k ih =>
    have hlow : BitVec.ofNat 8 v = 0 ↔ v % 256 = 0 := by
      rw [← BitVec.toNat_inj, BitVec.toNat_ofNat]
      rfl
    rw [leBytes, replicate_succ, List.cons.injEq, hlow, ih, Nat.pow_succ', Nat.mod_mul]
    constructor
    · rintro ⟨h1, h2⟩
      rw [h1, h2]
    · intro h
      have h1 : v % 256 = 0 := by omega
      have h2 : 256 * (v / 256 % 256 ^ k) = 0 := by omega
      exact ⟨h1, (Nat.mul_eq_zero.1 h2).resolve_left (by decide)⟩

variable {c : BitVec 32} {w k : ℕ}

lemma isText_wchar (hc : c ≠ 0) : IsText 4 (leBytes 4 c.toNat) :=
  isText_unit (length_leBytes ..) fun h => hc (BitVec.eq_of_toNat_eq (by
    rw [leBytes_eq_zero_iff, Nat.mod_eq_of_lt (c.isLt.trans_eq (by norm_num))] at h
    exact h))

def element {w : ℕ} : List (BitVec w) → Option (ℕ × BitVec 32)
  | [] => none
  | c :: _ => some (1, c.setWidth 32)

lemma element_eq_some {rest : List (BitVec w)} (h : element rest = some (k, c)) :
    ∃ b more, rest = b :: more ∧ k = 1 ∧ c = b.setWidth 32 := by
  cases rest with
  | nil => cases h
  | cons b more =>
    cases h
    exact ⟨b, more, rfl, rfl, rfl⟩

lemma element_le {rest : List (BitVec w)} (h : element rest = some (k, c)) : 1 ≤ k ∧ k ≤ rest.length := by
  obtain ⟨b, more, rfl, rfl, -⟩ := element_eq_some h
  exact ⟨le_rfl, Nat.succ_le_succ (Nat.zero_le _)⟩

lemma element_ne (hw : w ≤ 32) {rest : List (BitVec w)} (hzero : 0 ∉ rest) (h : element rest = some (k, c)) :
    c ≠ 0 := by
  obtain ⟨b, more, rfl, -, rfl⟩ := element_eq_some h
  intro hc
  have hb : b = 0 := by
    apply BitVec.eq_of_toNat_eq
    have hnat := congrArg BitVec.toNat hc
    rwa [BitVec.toNat_setWidth_of_le hw] at hnat
  exact hzero (hb ▸ mem_cons_self)

/-- `char` to `char`. -/
def charToChar : Transcoding 8 where
  unit := 1
  front := element
  store c := if c.toNat < 256 then some [c.setWidth 8] else none
  unit_pos := by decide
  front_le := element_le
  front_ne := element_ne (by decide)
  store_isText := by
    intro c bytes hc h
    split_ifs at h with hlt
    cases h
    refine isText_unit rfl fun heq => hc (BitVec.eq_of_toNat_eq ?_)
    have hnat := congrArg BitVec.toNat (List.cons.inj heq).1
    rwa [BitVec.toNat_setWidth, Nat.mod_eq_of_lt hlt] at hnat
  unit_le_store := by
    intro c bytes h
    split_ifs at h
    cases h
    exact le_rfl

lemma Codec.decode_cases (codec : Codec) {rest : List Byte} (h : codec.decode rest = some (k, c)) :
    element rest = some (k, c) ∨ 2 ≤ k ∧ k ≤ rest.length ∧ c ≠ 0 := by
  cases rest with
  | nil =>
    rw [codec.decode_nil] at h
    cases h
  | cons b bs =>
    by_cases hb : b < 0x80
    · exact .inl ((codec.decode_ascii b bs hb).symm.trans h)
    · exact .inr (codec.decode_other b bs k c hb h)

/-- `char` to `wchar_t`. -/
def charToWide (codec : Codec) : Transcoding 8 where
  unit := 4
  front := codec.decode
  store c := some (leBytes 4 c.toNat)
  unit_pos := by decide
  front_le := by
    intro rest k c h
    rcases codec.decode_cases h with h | ⟨h2, hle, -⟩
    · exact element_le h
    · exact ⟨Nat.le_of_succ_le h2, hle⟩
  front_ne := by
    intro rest k c hzero h
    rcases codec.decode_cases h with h | ⟨-, -, hc⟩
    · exact element_ne (by decide) hzero h
    · exact hc
  store_isText := by
    intro c bytes hc h
    cases h
    exact isText_wchar hc
  unit_le_store := by
    intro c bytes h
    cases h
    exact (length_leBytes ..).ge

/-- `wchar_t` to `char`. -/
def wideToChar (codec : Codec) : Transcoding 32 where
  unit := 1
  front := element
  store := codec.encode
  unit_pos := by decide
  front_le := element_le
  front_ne := element_ne le_rfl
  store_isText := by
    intro c bytes hc h
    apply isText_one
    by_cases hlt : c < 0x80
    · rw [codec.encode_ascii c hlt] at h
      cases h
      intro hmem
      have hnat := congrArg BitVec.toNat (List.mem_singleton.1 hmem)
      have hlt' : c.toNat < 128 := hlt
      rw [BitVec.toNat_setWidth, Nat.mod_eq_of_lt (by omega)] at hnat
      exact hc (BitVec.eq_of_toNat_eq hnat.symm)
    · exact (codec.encode_other c bytes hlt h).2
  unit_le_store := by
    intro c bytes h
    by_cases hlt : c < 0x80
    · rw [codec.encode_ascii c hlt] at h
      cases h
      exact le_rfl
    · exact Nat.le_of_succ_le (codec.encode_other c bytes hlt h).1

/-- `wchar_t` to `wchar_t`. -/
def wideToWide : Transcoding 32 where
  unit := 4
  front := element
  store c := some (leBytes 4 c.toNat)
  unit_pos := by decide
  front_le := element_le
  front_ne := element_ne le_rfl
  store_isText := by
    intro c bytes hc h
    cases h
    exact isText_wchar hc
  unit_le_store := by
    intro c bytes h
    cases h
    exact (length_leBytes ..).ge

def narrowTo (codec : Codec) (wideDest : Bool) : Transcoding 8 := if wideDest then charToWide codec else charToChar

def wideTo (codec : Codec) (wideDest : Bool) : Transcoding 32 := if wideDest then wideToWide else wideToChar codec

/-! ### What the host does -/

/-- The width for the host, which takes a zero for no width. -/
def hostWidth (spec : ScanDirective) : Option ℕ := (spec.width.map Fin.val).filter (· ≠ 0)

/-- **What a directive matches**, by the C standard: so many characters, or white space and a word that is not empty; how
much of the input it is, and what is stored. -/
def hostMatch {w : ℕ} (t : Transcoding w) (isSpace : BitVec w → Bool) (spec : ScanDirective) (rest : List (BitVec w)) :
    Option (ℕ × List Byte) :=
  if spec.isChar then takeChars t ((hostWidth spec).getD 1) rest
  else
    let lead := (rest.takeWhile isSpace).length
    match takeWord t isSpace ((hostWidth spec).getD rest.length) (rest.drop lead) with
    | some (count + 1, text) => some (lead + (count + 1), text ++ List.replicate t.unit 0)
    | _ => none

/-- The host's answer to one directive.  With an `m` it stores the address of a block. -/
def HostScan.Answers (r : HostScan) (alloc : Bool) (addr : Word) : Option (ℕ × List Byte) → Prop
  | some (count, text) => r.rc = 1 ∧ r.count = count ∧
    if alloc then r.written = leBytes 8 addr.toNat ∧ r.block = some text else r.written = text
  | none => r.rc ≠ 1

def isStringConv : Byte → Bool := oneOf ['c', 's', 'C', 'S']

/-- **The host behaves as specified**, with its blocks at these addresses. -/
structure ScanHost.Specified {w : ℕ} (host : ScanHost (BitVec w)) (trans : Bool → Transcoding w) (isSpace : BitVec w → Bool)
    (addr : ScanDirective → List (BitVec w) → Word) : Prop where
  mbCurMax_pos : 1 ≤ host.mbCurMax
  answers : ∀ spec rest, isStringConv spec.conv → spec.suppress = false → 0 ∉ rest →
    (host.scan spec rest).Answers spec.assignAlloc (addr spec rest) (hostMatch (trans spec.wideDest) isSpace spec rest)

/-! ### The copy -/

/-- The copy that a conversion of a character or a string makes, with what it consumes. -/
def stringCopy {α : Type} (ct : CharType α) (host : ScanHost α) (input : List α) (pos : ℕ) (spec : ScanDirective)
    (wideInput : Bool) : Option (ℕ × TextCopy) :=
  if spec.suppress then none
  else if spec.assignAlloc ∧ spec.isChar then manualAllocChars ct input pos spec
  else hostStringCopy host input pos spec wideInput

/-- **What a copy is to be**: within the temporary, and for characters what was consumed. -/
def CopySound {w : ℕ} (t : Transcoding w) (rest : List (BitVec w)) (spec : ScanDirective) (c : ℕ × TextCopy) : Prop :=
  c.2.length ≤ c.2.tempSize ∧ (spec.isChar → ∃ n, takeChars t n rest = some (c.1, c.2.bytes))

/-- **A conversion stores its copy**, in a new block if there is an `m` that the source sees to. -/
lemma handleConversion_string {α : Type} {ct : CharType α} {host : ScanHost α} {input : List α} {pos : ℕ}
    {spec : ScanDirective} {argPtr : Word} {wideInput : Bool} {g : GuestHeap} (hconv : isStringConv spec.conv)
    (hsuppress : spec.suppress = false) : handleConversion ct host input pos spec argPtr wideInput g =
      (stringCopy ct host input pos spec wideInput).map fun c => (c.1,
        if spec.assignAlloc ∧ (spec.isChar ∨ wideInput = false) then putAlloc g argPtr c.2.bytes c.2.length
        else put g argPtr c.2.bytes) := by
  have hint : isIntegerConv spec.conv = false ∧ isFloatConv spec.conv = false ∧ isStringishConv spec.conv = true ∧
      spec.conv ≠ ascii '[' := by
    have hall : ∀ c : Byte, isStringConv c → isIntegerConv c = false ∧ isFloatConv c = false ∧ isStringishConv c = true ∧
        c ≠ ascii '[' := by decide +kernel
    exact hall spec.conv hconv
  obtain ⟨h1, h2, h3, h4⟩ := hint
  unfold handleConversion stringCopy
  rw [h1, h2, h3, hsuppress, if_neg Bool.false_ne_true, if_neg Bool.false_ne_true, if_pos rfl, if_neg h4,
    if_neg Bool.false_ne_true]
  by_cases hmanual : spec.assignAlloc ∧ spec.isChar
  · have hnew : spec.assignAlloc ∧ (spec.isChar ∨ wideInput = false) := ⟨hmanual.1, .inl hmanual.2⟩
    rw [if_pos hmanual, if_pos hmanual, handleAllocCharScan, hsuppress, if_neg Bool.false_ne_true]
    simp only [if_pos hnew]
  · rw [if_neg hmanual, if_neg hmanual, handleHostStringScan, hsuppress, if_neg Bool.false_ne_true]
    by_cases hhost : spec.assignAlloc ∧ wideInput = false
    · have hnew : spec.assignAlloc ∧ !wideInput := ⟨hhost.1, by rw [hhost.2]; rfl⟩
      simp only [if_pos hnew, if_pos (show spec.assignAlloc ∧ (spec.isChar ∨ wideInput = false) from ⟨hhost.1, .inr hhost.2⟩)]
    · have hold : ¬(spec.assignAlloc ∧ !wideInput) := fun h => hhost ⟨h.1, by simpa using h.2⟩
      have hold' : ¬(spec.assignAlloc ∧ (spec.isChar ∨ wideInput = false)) := by
        rintro ⟨hm, hc | hw⟩
        · exact hmanual ⟨hm, hc⟩
        · exact hhost ⟨hm, hw⟩
      simp only [if_neg hold, if_neg hold']

section

variable {w size k v : ℕ} {t : Transcoding w} {isSpace : BitVec w → Bool} {host : ScanHost (BitVec w)}
  {input rest : List (BitVec w)} {pos count : ℕ} {spec : ScanDirective} {wideInput : Bool} {addr : Word}
  {text more bytes : List Byte}

lemma hostWidth_cases (spec : ScanDirective) : (spec.width = none ∧ hostWidth spec = none ∧ spec.widthOrOne = 1) ∨
    (spec.width = some 0 ∧ hostWidth spec = none ∧ spec.widthOrOne = 0) ∨
    ∃ width, spec.width = some width ∧ 0 < width.val ∧ hostWidth spec = some width.val ∧ spec.widthOrOne = width.val := by
  unfold hostWidth widthOrOne
  cases hwidth : spec.width with
  | none => exact .inl ⟨rfl, rfl, rfl⟩
  | some width =>
    by_cases h0 : width.val = 0
    · have hz : width = 0 := Fin.ext h0
      subst hz
      exact .inr (.inl ⟨rfl, rfl, rfl⟩)
    · refine .inr (.inr ⟨width, rfl, Nat.pos_of_ne_zero h0, ?_, rfl⟩)
      simp [Option.filter, h0]

lemma unit_of_wide (h : spec.wideDest) : spec.unit = 4 := if_pos h

lemma unit_of_narrow (h : spec.wideDest = false) : spec.unit = 1 := if_neg (ne_true_of_eq_false h)

lemma hostWidth_zero (h : spec.width = some 0) : hostWidth spec = none ∧ spec.widthOrOne = 0 := by
  unfold hostWidth widthOrOne
  rw [h]
  exact ⟨rfl, rfl⟩

lemma widthOrOne_le (h : takeChars t ((hostWidth spec).getD 1) (input.drop pos) = some (count, text)) :
    spec.widthOrOne ≤ (hostWidth spec).getD 1 ∧ spec.widthOrOne ≤ fieldLimit input pos spec := by
  obtain ⟨hn, hcount, -⟩ := takeChars_le h
  rw [length_drop] at hcount
  unfold fieldLimit
  rcases hostWidth_cases spec with ⟨h1, h2, h3⟩ | ⟨h1, h2, h3⟩ | ⟨width, h1, hpos, h2, h3⟩
  · rw [h2] at hn
    rw [h1, h2, h3]
    exact ⟨le_rfl, hn.trans hcount⟩
  · rw [h3]
    exact ⟨Nat.zero_le _, Nat.zero_le _⟩
  · rw [h2] at hn
    rw [h1, h2, h3]
    exact ⟨le_rfl, le_min (hn.trans hcount) le_rfl⟩

lemma widthOrOne_mul_le (hmb : 1 ≤ host.mbCurMax) (h : spec.widthOrOne ≤ fieldLimit input pos spec) :
    spec.widthOrOne * spec.unit ≤ temporarySize host input pos spec wideInput := by
  unfold temporarySize unit
  dsimp only
  split_ifs with h1 h2
  · omega
  · have := Nat.mul_le_mul_left (fieldLimit input pos spec) hmb
    omega
  · omega

lemma hostMatch_word (hchar : spec.isChar = false) (h : hostMatch t isSpace spec rest = some (count, text)) :
    ∃ lead n word, n ≤ (hostWidth spec).getD rest.length ∧
      lead < count ∧ takeChars t n (rest.drop lead) = some (count - lead, word) ∧
      text = word ++ List.replicate t.unit 0 ∧ 0 < n := by
  rw [hostMatch, if_neg (by rw [hchar]; decide)] at h
  dsimp only at h
  split at h
  · rename_i count' word hword
    cases h
    obtain ⟨n, hn, hchars⟩ := exists_takeChars_of_takeWord hword
    refine ⟨(rest.takeWhile isSpace).length, n, word, hn, by omega, ?_, rfl, ?_⟩
    · rw [hchars, Nat.add_sub_cancel_left]
    · rw [Nat.pos_iff_ne_zero]
      rintro rfl
      exact absurd (congrArg Prod.fst (some.inj hchars)) (Nat.succ_ne_zero count').symm
  · cases h

/-- **Characters** are stored as they were consumed exactly if they fill the width. -/
lemma copySound_chars_iff (hunit : t.unit = spec.unit) (hmb : 1 ≤ host.mbCurMax) (hchar : spec.isChar)
    (h : takeChars t ((hostWidth spec).getD 1) (input.drop pos) = some (count, text)) :
    CopySound t (input.drop pos) spec (count, ⟨temporarySize host input pos spec wideInput,
      copyLength spec (text ++ more), (text ++ more).take (copyLength spec (text ++ more))⟩) ↔
    text.length ≤ spec.widthOrOne * spec.unit := by
  obtain ⟨hle, hlimit⟩ := widthOrOne_le h
  have htext := (takeChars_le h).2.2
  have hlen : copyLength spec (text ++ more) = spec.widthOrOne * spec.unit := if_pos hchar
  have hroom : spec.widthOrOne * spec.unit ≤ text.length := by
    rw [hunit, Nat.mul_comm] at htext
    exact (Nat.mul_le_mul_right _ hle).trans htext
  rw [hlen, take_append_of_le_length hroom]
  constructor
  · rintro ⟨-, hbytes⟩
    obtain ⟨n, hn⟩ := hbytes hchar
    obtain rfl := takeChars_inj hn h
    have heq : text.take (spec.widthOrOne * spec.unit) = text := congrArg Prod.snd (some.inj (hn.symm.trans h))
    have := congrArg List.length heq
    rw [length_take] at this
    omega
  · intro hfull
    refine ⟨widthOrOne_mul_le hmb hlimit, fun _ => ⟨(hostWidth spec).getD 1, ?_⟩⟩
    rw [take_of_length_le hfull]
    exact h

lemma copyLength_word (hunit : t.unit = spec.unit) (hchar : spec.isChar = false) (memory : List Byte) :
    copyLength spec memory = (unitsLen t.unit memory + 1) * t.unit := by
  rw [copyLength, hchar, hunit]
  rfl

lemma copySound_of_word {copy : TextCopy} (hchar : spec.isChar = false) :
    CopySound t rest spec (count, copy) ↔ copy.length ≤ copy.tempSize :=
  and_iff_left fun h => absurd (hchar.symm.trans h) (by decide)

/-- **A string** is looked through no further than the temporary goes exactly if it fits into it. -/
lemma copySound_word_iff (hunit : t.unit = spec.unit) (hchar : spec.isChar = false) (hzero : 0 ∉ rest)
    (hsize : size ≤ (text ++ more).length) (h : hostMatch t isSpace spec rest = some (count, text)) :
    CopySound t rest spec (count, ⟨size, copyLength spec (text ++ more), bytes⟩) ↔ text.length ≤ size := by
  obtain ⟨lead, n, word, -, -, hword, rfl, -⟩ := hostMatch_word hchar h
  have htext : IsText t.unit word := takeChars_isText (fun hmem => hzero (mem_of_mem_drop hmem)) hword
  rw [append_assoc] at hsize ⊢
  have hiff := unitsLen_text t.unit_pos htext hsize
  rw [← copyLength_word hunit hchar] at hiff
  rw [length_append, length_replicate, ← hiff]
  exact copySound_of_word hchar

/-! Addresses, for the calls that store one. -/

lemma take_leBytes {j : ℕ} (h : j ≤ k) : (leBytes k v).take j = leBytes j v := by
  induction j generalizing k v with
  | zero => rfl
  | succ j ih =>
    obtain ⟨k, rfl⟩ : ∃ k', k = k' + 1 := ⟨k - 1, by omega⟩
    rw [leBytes, take_succ_cons, ih (by omega), leBytes]

lemma drop_leBytes {j k v : ℕ} : (leBytes (j + k) v).drop j = leBytes k (v / 256 ^ j) := by
  induction j generalizing k v with
  | zero =>
    rw [Nat.zero_add, drop_zero, Nat.pow_zero, Nat.div_one]
  | succ j ih =>
    rw [Nat.succ_add, leBytes, drop_succ_cons, ih, Nat.div_div_eq_div_mul, Nat.pow_succ']

lemma leBytes_add {j : ℕ} : leBytes (j + k) v = leBytes j v ++ leBytes k (v / 256 ^ j) := by
  rw [← drop_leBytes, ← take_leBytes (Nat.le_add_right j k), take_append_drop]

lemma zeroAt_leBytes {unit i : ℕ} (h : (i + 1) * unit ≤ k) :
    ZeroAt unit (leBytes k v ++ more) i ↔ v / 256 ^ (unit * i) % 256 ^ unit = 0 := by
  rw [Nat.succ_mul, Nat.mul_comm] at h
  obtain ⟨k, rfl⟩ : ∃ k', k = unit * i + k' := ⟨k - unit * i, by omega⟩
  have hlen : (leBytes (unit * i + k) v).length = unit * i + k := length_leBytes ..
  unfold ZeroAt
  rw [drop_append_of_le_length (by omega), drop_leBytes, take_append_of_le_length (by rw [length_leBytes]; omega),
    take_leBytes (by omega), leBytes_eq_zero_iff]

/-- **An address stored in place of a string** is looked through no further than the temporary goes exactly if one of
its units there is zero. -/
lemma copySound_addr_iff (hunit : t.unit = spec.unit) (hchar : spec.isChar = false) {memory : List Byte}
    (hmemory : memory = leBytes 8 addr.toNat ++ (List.replicate size 0).drop 8 ++ more) :
    CopySound t rest spec (count, ⟨size, copyLength spec memory, bytes⟩) ↔
      ∃ i, (i + 1) * t.unit ≤ size ∧ addr.toNat / 256 ^ (t.unit * i) % 256 ^ t.unit = 0 := by
  have haddr : memory = leBytes (8 + (size - 8)) addr.toNat ++ more := by
    have hhigh : leBytes (size - 8) (addr.toNat / 256 ^ 8) = List.replicate (size - 8) 0 := by
      rw [leBytes_eq_zero_iff, Nat.div_eq_of_lt (addr.isLt.trans_eq (by norm_num)), Nat.zero_mod]
    rw [hmemory, leBytes_add, hhigh, drop_replicate]
  have hsize : size ≤ memory.length := by
    rw [haddr, length_append, length_leBytes]
    omega
  have hiff := unitsLen_le_iff t.unit_pos hsize
  rw [← copyLength_word hunit hchar] at hiff
  have hzero : (∃ i, (i + 1) * t.unit ≤ size ∧ ZeroAt t.unit memory i) ↔
      ∃ i, (i + 1) * t.unit ≤ size ∧ addr.toNat / 256 ^ (t.unit * i) % 256 ^ t.unit = 0 := by
    refine exists_congr fun i => and_congr_right fun hi => ?_
    rw [haddr, zeroAt_leBytes (by omega)]
  rw [← hzero, ← hiff]
  exact copySound_of_word hchar

lemma hostMatch_pos (h : hostMatch t isSpace spec (input.drop pos) = some (count, text)) : 0 < count := by
  cases hchar : spec.isChar with
  | true =>
    rw [hostMatch, if_pos hchar] at h
    refine Nat.lt_of_lt_of_le ?_ (takeChars_le h).1
    rcases hostWidth_cases spec with ⟨-, hw, -⟩ | ⟨-, hw, -⟩ | ⟨width, -, hpos, hw, -⟩
    · rw [hw]
      exact Nat.one_pos
    · rw [hw]
      exact Nat.one_pos
    · rw [hw]
      exact hpos
  | false =>
    obtain ⟨lead, n, word, -, hlt, -⟩ := hostMatch_word hchar h
    omega

/-- What is asked of the text that the host stores, or of the address in its place. -/
def HostFits (spec : ScanDirective) (wideInput : Bool) (size : ℕ) (addr : Word) (text : List Byte) : Prop :=
  if spec.assignAlloc then
    wideInput → ∃ i, (i + 1) * spec.unit ≤ size ∧ addr.toNat / 256 ^ (spec.unit * i) % 256 ^ spec.unit = 0
  else if spec.isChar then text.length ≤ spec.widthOrOne * spec.unit
  else text.length ≤ size

lemma hostStringCopy_iff (hunit : t.unit = spec.unit) (hmb : 1 ≤ host.mbCurMax) (hzero : 0 ∉ input.drop pos)
    (hmanual : ¬(spec.assignAlloc ∧ spec.isChar))
    (hans : (host.scan spec (input.drop pos)).Answers spec.assignAlloc addr
      (hostMatch t isSpace spec (input.drop pos))) :
    (∀ c ∈ hostStringCopy host input pos spec wideInput, CopySound t (input.drop pos) spec c) ↔
      ∀ m ∈ hostMatch t isSpace spec (input.drop pos),
        HostFits spec wideInput (temporarySize host input pos spec wideInput) addr m.2 := by
  unfold hostStringCopy
  generalize host.scan spec (input.drop pos) = r at hans
  cases hmatch : hostMatch t isSpace spec (input.drop pos) with
  | none =>
    rw [hmatch] at hans
    rw [if_pos (.inl hans)]
    simp
  | some m =>
    obtain ⟨count, text⟩ := m
    rw [hmatch] at hans
    obtain ⟨hrc, hcount, hstored⟩ := hans
    have hpos := hostMatch_pos hmatch
    have hok : ¬(r.rc ≠ 1 ∨ r.count ≤ 0) := by
      rw [hrc, hcount]
      simpa using hpos.ne'
    have hnat : r.count.toNat = count := by
      rw [hcount]
      rfl
    rw [if_neg hok, hnat]
    simp only [mem_def, some.injEq, forall_eq']
    unfold HostFits
    by_cases halloc : spec.assignAlloc
    · have hchar : spec.isChar = false := by
        rw [Bool.eq_false_iff]
        exact fun hc => hmanual ⟨halloc, hc⟩
      rw [if_pos halloc] at hstored ⊢
      obtain ⟨hwritten, hblock⟩ := hstored
      cases wideInput with
      | false =>
        -- the temporary is the block of the host
        have hroom : text.length ≤ (text ++ host.behind).length := by simp
        rw [if_pos ⟨halloc, rfl⟩, hblock]
        simp only [map_some, some.injEq, forall_eq', Bool.false_eq_true, false_implies, iff_true]
        exact (copySound_word_iff hunit hchar hzero hroom hmatch).2 le_rfl
      | true =>
        rw [if_neg (by simp), hwritten, length_leBytes]
        simp only [some.injEq, forall_eq', forall_const]
        rw [← hunit]
        exact copySound_addr_iff hunit hchar rfl
    · rw [if_neg halloc] at hstored ⊢
      rw [if_neg (fun h => halloc h.1), hstored]
      simp only [some.injEq, forall_eq', append_assoc]
      by_cases hchar : spec.isChar
      · rw [if_pos hchar]
        rw [hostMatch, if_pos hchar] at hmatch
        exact copySound_chars_iff hunit hmb hchar hmatch
      · have hroom : temporarySize host input pos spec wideInput ≤ (text ++ ((List.replicate (temporarySize host input pos spec
            wideInput) (0 : Byte)).drop text.length ++ host.behind)).length := by
          simp only [length_append, length_drop, length_replicate]
          omega
        rw [if_neg hchar]
        exact copySound_word_iff hunit (Bool.eq_false_iff.2 hchar) hzero hroom hmatch

end

/-! ### Characters that are stored as they are -/

section

variable {w n count : ℕ} {t : Transcoding w} {rest : List (BitVec w)} {text : List Byte}

lemma takeChars_eq_flatMap {raw : BitVec w → List Byte} (hlen : n ≤ rest.length)
    (h : ∀ b ∈ rest.take n, ∀ more, ∃ c, t.front (b :: more) = some (1, c) ∧ t.store c = some (raw b)) :
    takeChars t n rest = some (n, (rest.take n).flatMap raw) := by
  induction n generalizing rest with
  | zero => rfl
  | succ n ih =>
    cases rest with
    | nil => exact absurd hlen (Nat.not_succ_le_zero n)
    | cons b rest =>
      rw [take_succ_cons] at h
      obtain ⟨c, hfront, hstore⟩ := h b mem_cons_self rest
      have hrest := ih (Nat.le_of_succ_le_succ hlen) fun b' hb' => h b' (mem_cons_of_mem _ hb')
      refine takeChars_succ.2 ⟨1, c, raw b, n, (rest.take n).flatMap raw, hfront, hstore, hrest, Nat.add_comm n 1, ?_⟩
      rw [take_succ_cons, flatMap_cons]

/-- If characters take up one element and are stored in one unit each on the whole, then every one of them is. -/
lemma front_of_takeChars (h : takeChars t n rest = some (n, text)) (hlen : text.length ≤ t.unit * n) :
    ∀ b ∈ rest.take n,
      ∃ more c bytes, t.front (b :: more) = some (1, c) ∧ t.store c = some bytes ∧ bytes.length = t.unit := by
  induction n generalizing rest text with
  | zero =>
    intro b hb
    cases hb
  | succ n ih =>
    intro b hb
    obtain ⟨k, c, bytes, count, text', hfront, hstore, hrest, hcount, rfl⟩ := takeChars_succ.1 h
    obtain ⟨hk, hk'⟩ := t.front_le hfront
    obtain ⟨hn, -, htext⟩ := takeChars_le hrest
    have hunit := t.unit_le_store hstore
    rw [length_append, Nat.mul_succ] at hlen
    obtain rfl : k = 1 := by omega
    obtain rfl : count = n := by omega
    cases rest with
    | nil => cases hb
    | cons b' rest =>
      rcases mem_cons.1 (take_succ_cons ▸ hb) with rfl | hb
      · exact ⟨rest, c, bytes, hfront, hstore, by omega⟩
      · exact ih hrest (by omega) b hb

lemma length_takeChars (hplain : ∀ c bytes, t.store c = some bytes → bytes.length = t.unit)
    (h : takeChars t n rest = some (count, text)) : text.length = t.unit * n := by
  induction n generalizing rest count text with
  | zero =>
    cases h
    rfl
  | succ n ih =>
    obtain ⟨k, c, bytes, count', text', -, hstore, hrest, -, rfl⟩ := takeChars_succ.1 h
    rw [length_append, hplain c bytes hstore, ih hrest, Nat.mul_succ, Nat.add_comm]

lemma takeChars_count (hsingle : t.front = element) (h : takeChars t n rest = some (count, text)) : count = n := by
  induction n generalizing rest count text with
  | zero =>
    cases h
    rfl
  | succ n ih =>
    obtain ⟨k, c, bytes, count', text', hfront, -, hrest, rfl, -⟩ := takeChars_succ.1 h
    rw [hsingle] at hfront
    obtain ⟨b, more, -, rfl, -⟩ := element_eq_some hfront
    rw [ih hrest, Nat.add_comm]

def InAscii (text : List (BitVec w)) : Prop := ∀ c ∈ text, c.toNat < 0x80

variable {ct : CharType (BitVec w)} {input : List (BitVec w)} {pos : ℕ} {spec : ScanDirective}

lemma textBytes_eq_flatMap {wideDest : Bool} {text : List (BitVec w)} :
    textBytes ct wideDest text = text.flatMap fun c => textBytes ct wideDest [c] := by
  cases wideDest with
  | false =>
    exact map_eq_flatMap
  | true =>
    refine congrArg (fun f => text.flatMap f) (funext fun c => ?_)
    exact (append_nil _).symm

lemma length_textBytes {text : List (BitVec w)} : (textBytes ct spec.wideDest text).length = spec.unit * text.length := by
  unfold textBytes unit
  split_ifs
  · rw [length_flatMap]
    simp [Nat.mul_comm]
  · rw [length_map, Nat.one_mul]

/-- **Characters that the source allocates itself** are what was consumed exactly if each is one of its own. -/
lemma manualAllocChars_iff (hunit : t.unit = spec.unit) (hchar : spec.isChar)
    (hcount : ∀ {n count : ℕ} {text : List Byte}, takeChars t n (input.drop pos) = some (count, text) →
      text.length = t.unit * count → n = count) {P : BitVec w → Prop}
    (hraw : ∀ b more, P b → ∃ c, t.front (b :: more) = some (1, c) ∧ t.store c = some (textBytes ct spec.wideDest [b]))
    (hP : ∀ b more c bytes, t.front (b :: more) = some (1, c) → t.store c = some bytes → bytes.length = t.unit → P b) :
    (∀ c ∈ manualAllocChars ct input pos spec, CopySound t (input.drop pos) spec c) ↔
      ∀ b ∈ (input.drop pos).take spec.widthOrOne, P b := by
  have htake : (input.drop pos).take spec.widthOrOne =
      (input.drop pos).take (min spec.widthOrOne (input.length - pos)) := by
    rw [← length_drop, ← take_eq_take_min]
  rw [htake]
  unfold manualAllocChars
  have hwidth : min spec.widthOrOne (input.length - pos) ≤ (input.drop pos).length := by
    rw [length_drop]
    exact Nat.min_le_right ..
  generalize min spec.widthOrOne (input.length - pos) = width at hwidth
  have hlen : (textBytes ct spec.wideDest ((input.drop pos).take width)).length = t.unit * width := by
    rw [length_textBytes, hunit, length_take, Nat.min_eq_left hwidth]
  by_cases h0 : width = 0
  · rw [if_pos h0, h0]
    simp
  · rw [if_neg h0]
    simp only [mem_def, some.injEq, forall_eq']
    constructor
    · rintro ⟨-, hbytes⟩ b hb
      obtain ⟨n, hn⟩ := hbytes hchar
      obtain rfl : n = width := hcount hn hlen
      obtain ⟨more, c, bytes, hfront, hstore, hone⟩ := front_of_takeChars hn hlen.le b hb
      exact hP b more c bytes hfront hstore hone
    · intro hall
      refine ⟨le_rfl, fun _ => ⟨width, ?_⟩⟩
      rw [takeChars_eq_flatMap hwidth fun b hb more => hraw b more (hall b hb), ← textBytes_eq_flatMap]

end

/-! ### Strings and characters of the host -/

section

variable {w : ℕ} {t : Transcoding w} {isSpace : BitVec w → Bool} {host : ScanHost (BitVec w)} {input : List (BitVec w)}
  {pos count : ℕ} {spec : ScanDirective} {wideInput : Bool} {addr : Word} {text : List Byte}

lemma widthOrOne_eq (h : spec.width ≠ some 0) : (hostWidth spec).getD 1 = spec.widthOrOne := by
  rcases hostWidth_cases spec with ⟨-, h2, h3⟩ | ⟨h1, -, -⟩ | ⟨width, -, -, h2, h3⟩
  · rw [h2, h3]
    rfl
  · exact absurd h1 h
  · rw [h2, h3]
    rfl

lemma word_le_fieldLimit {n lead : ℕ} {word : List Byte} (hn : n ≤ (hostWidth spec).getD (input.drop pos).length)
    (hword : takeChars t n ((input.drop pos).drop lead) = some (count, word)) (hpos : 0 < n) :
    n ≤ fieldLimit input pos spec ↔ spec.width ≠ some 0 := by
  have hlen : n ≤ input.length - pos := by
    obtain ⟨h1, h2, -⟩ := takeChars_le hword
    rw [length_drop, length_drop] at h2
    omega
  unfold fieldLimit
  rcases hostWidth_cases spec with ⟨h1, h2, -⟩ | ⟨h1, h2, -⟩ | ⟨width, h1, hwidth, h2, -⟩
  · rw [h1]
    simpa using hlen
  · rw [h1]
    simpa using hpos.ne'
  · rw [h2] at hn
    have hn' : n ≤ width.val := hn
    have hne : width ≠ 0 := fun h0 => hwidth.ne' (congrArg Fin.val h0)
    rw [h1]
    simpa [hlen, hn'] using hne

/-- **If a unit is stored for each character**, only a width of zero goes wrong. -/
lemma hostFits_plain (hplain : ∀ c bytes, t.store c = some bytes → bytes.length = t.unit) (hunit : t.unit = spec.unit)
    (hsize : temporarySize host input pos spec wideInput = spec.unit * (fieldLimit input pos spec + 1))
    (halloc : spec.assignAlloc = false) (hmatch : hostMatch t isSpace spec (input.drop pos) = some (count, text)) :
    HostFits spec wideInput (temporarySize host input pos spec wideInput) addr text ↔ spec.width ≠ some 0 := by
  have hpos := t.unit_pos
  unfold HostFits
  rw [halloc, if_neg Bool.false_ne_true]
  by_cases hchar : spec.isChar
  · rw [hostMatch, if_pos hchar] at hmatch
    rw [if_pos hchar, length_takeChars hplain hmatch, hunit, Nat.mul_comm spec.widthOrOne,
      Nat.mul_le_mul_left_iff (hunit ▸ hpos)]
    constructor
    · intro hle h0
      rw [(hostWidth_zero h0).1, (hostWidth_zero h0).2] at hle
      exact absurd hle (by decide)
    · intro h
      exact (widthOrOne_eq h).le
  · obtain ⟨lead, n, word, hn, -, hword, rfl, hn0⟩ := hostMatch_word (Bool.eq_false_iff.2 hchar) hmatch
    rw [if_neg hchar, hsize, length_append, length_replicate, length_takeChars hplain hword, ← Nat.mul_succ,
      hunit, Nat.mul_le_mul_left_iff (hunit ▸ hpos), Nat.succ_le_succ_iff]
    exact word_le_fieldLimit hn hword hn0

end

section

variable {codec : Codec} {isSpace : BitVec 32 → Bool} {host : ScanHost (BitVec 32)} {input : List (BitVec 32)}
  {pos count : ℕ} {spec : ScanDirective} {addr : Word} {text : List Byte}

lemma encode_ascii_iff {bytes : List Byte} (h : codec.encode c = some bytes) :
    bytes.length = 1 ↔ c.toNat < 0x80 := by
  by_cases hc : c < 0x80
  · rw [codec.encode_ascii c hc] at h
    cases h
    exact iff_of_true rfl hc
  · have := (codec.encode_other c bytes hc h).1
    exact iff_of_false (by omega) hc

lemma element_wide (b : BitVec 32) (more : List (BitVec 32)) : element (b :: more) = some (1, b) := by
  rw [element, BitVec.setWidth_eq]

lemma length_encoded_iff {n : ℕ} {rest : List (BitVec 32)}
    (h : takeChars (wideToChar codec) n rest = some (count, text)) : text.length ≤ n ↔ InAscii (rest.take n) := by
  obtain rfl := takeChars_count rfl h
  have hunit : (wideToChar codec).unit * count = count := Nat.one_mul count
  constructor
  · intro hle b hb
    obtain ⟨more, c, bytes, hfront, hstore, hone⟩ := front_of_takeChars h (hle.trans_eq hunit.symm) b hb
    cases (element_wide b more).symm.trans hfront
    exact (encode_ascii_iff hstore).1 hone
  · intro hall
    have hraw : takeChars (wideToChar codec) count rest = some (count, (rest.take count).flatMap fun b => [b.setWidth 8]) :=
      takeChars_eq_flatMap (takeChars_le h).2.1 fun b hb more => ⟨b, element_wide b more, codec.encode_ascii b (hall b hb)⟩
    cases h.symm.trans hraw
    rw [← map_eq_flatMap, length_map]
    exact length_take_le ..

/-- **If a character is stored in several bytes**, characters must be ASCII and strings within so many bytes. -/
lemma hostFits_encoded (hdest : spec.wideDest = false) (halloc : spec.assignAlloc = false)
    (hmatch : hostMatch (wideToChar codec) isSpace spec (input.drop pos) = some (count, text)) :
    HostFits spec true (temporarySize host input pos spec true) addr text ↔ spec.width ≠ some 0 ∧
      if spec.isChar then InAscii ((input.drop pos).take spec.widthOrOne)
      else text.length ≤ fieldLimit input pos spec * host.mbCurMax + 1 := by
  have hsize : temporarySize host input pos spec true = fieldLimit input pos spec * host.mbCurMax + 1 := by
    unfold temporarySize
    rw [hdest]
    rfl
  unfold HostFits
  rw [halloc, if_neg Bool.false_ne_true, hsize, unit_of_narrow hdest, Nat.mul_one]
  by_cases hchar : spec.isChar
  · rw [hostMatch, if_pos hchar] at hmatch
    have hlen := (takeChars_le hmatch).2.2
    rw [show (wideToChar codec).unit = 1 from rfl, Nat.one_mul] at hlen
    rw [if_pos hchar, if_pos hchar]
    by_cases h0 : spec.width = some 0
    · rw [(hostWidth_zero h0).1] at hlen
      have hone : 1 ≤ text.length := hlen
      rw [(hostWidth_zero h0).2]
      exact iff_of_false (by omega) fun h => h.1 h0
    · rw [← widthOrOne_eq h0, length_encoded_iff hmatch]
      exact (and_iff_right h0).symm
  · obtain ⟨lead, n, word, hn, -, hword, rfl, hn0⟩ := hostMatch_word (Bool.eq_false_iff.2 hchar) hmatch
    have hlen := (takeChars_le hword).2.2
    rw [if_neg hchar, if_neg hchar]
    refine ⟨fun h => ⟨fun h0 => ?_, h⟩, fun h => h.2⟩
    -- the temporary has one byte only
    have hlimit : fieldLimit input pos spec = 0 := by
      unfold fieldLimit
      rw [h0]
      exact Nat.min_zero _
    rw [hlimit, Nat.zero_mul, length_append, length_replicate] at h
    rw [show (wideToChar codec).unit = 1 from rfl] at h hlen
    omega

end

/-! ### When a copy is sound -/

section

variable {w : ℕ}

instance neZeroWidths : NeZero (2 ^ 31) := ⟨by decide⟩

/-- **The condition.** Nothing is copied if the directive is suppressed. Characters that the source allocates itself
must be those of the input, or ASCII. Otherwise, if the host matches: the width must not be zero, unless the host has
allocated the string; what is stored as `char` from a wide input must be ASCII, or a string not too long for
`MB_CUR_MAX`; and with a wide input and an `m` the address in place of the string must have a zero. -/
def CopyAllowed (wideInput : Bool) (trans : Bool → Transcoding w) (isSpace : BitVec w → Bool) (mbCurMax : ℕ) (addr : Word)
    (input : List (BitVec w)) (pos : ℕ) (spec : ScanDirective) : Prop :=
  spec.suppress ∨
  if spec.assignAlloc ∧ spec.isChar then
    wideInput = spec.wideDest ∨ InAscii ((input.drop pos).take spec.widthOrOne)
  else ∀ m ∈ hostMatch (trans spec.wideDest) isSpace spec (input.drop pos),
    if spec.assignAlloc then
      wideInput → ∃ i ≤ fieldLimit input pos spec * (if spec.wideDest then 1 else mbCurMax),
        addr.toNat / 256 ^ (spec.unit * i) % 256 ^ spec.unit = 0
    else spec.width ≠ some 0 ∧ (wideInput → spec.wideDest = false →
      if spec.isChar then InAscii ((input.drop pos).take spec.widthOrOne)
      else m.2.length ≤ fieldLimit input pos spec * mbCurMax + 1)

end

section

variable {w : ℕ} {wideInput : Bool} {trans : Bool → Transcoding w} {isSpace : BitVec w → Bool} {ct : CharType (BitVec w)}
  {host : ScanHost (BitVec w)} {addr : ScanDirective → List (BitVec w) → Word} {input : List (BitVec w)} {pos : ℕ}
  {spec : ScanDirective}

lemma mul_le_temporarySize_iff {i : ℕ} (h : wideInput) : (i + 1) * spec.unit ≤ temporarySize host input pos spec wideInput ↔
    i ≤ fieldLimit input pos spec * (if spec.wideDest then 1 else host.mbCurMax) := by
  unfold temporarySize unit
  cases spec.wideDest with
  | true =>
    rw [if_pos rfl, if_pos rfl, if_pos rfl]
    omega
  | false =>
    rw [if_neg Bool.false_ne_true, if_neg Bool.false_ne_true, if_neg Bool.false_ne_true, if_pos h]
    omega

lemma stringCopy_iff_of (hhost : host.Specified trans isSpace addr) (hunit : (trans spec.wideDest).unit = spec.unit)
    (hzero : 0 ∉ input) (hconv : isStringConv spec.conv)
    (hmanual : spec.isChar →
      ((∀ c ∈ manualAllocChars ct input pos spec, CopySound (trans spec.wideDest) (input.drop pos) spec c) ↔
        wideInput = spec.wideDest ∨ InAscii ((input.drop pos).take spec.widthOrOne)))
    (hfits : ∀ m ∈ hostMatch (trans spec.wideDest) isSpace spec (input.drop pos), spec.assignAlloc = false →
      (HostFits spec wideInput (temporarySize host input pos spec wideInput) (addr spec (input.drop pos)) m.2 ↔
        spec.width ≠ some 0 ∧ (wideInput → spec.wideDest = false →
          if spec.isChar then InAscii ((input.drop pos).take spec.widthOrOne)
          else m.2.length ≤ fieldLimit input pos spec * host.mbCurMax + 1))) :
    (∀ c ∈ stringCopy ct host input pos spec wideInput, CopySound (trans spec.wideDest) (input.drop pos) spec c) ↔
      CopyAllowed wideInput trans isSpace host.mbCurMax (addr spec (input.drop pos)) input pos spec := by
  unfold stringCopy CopyAllowed
  by_cases hsup : spec.suppress
  · rw [if_pos hsup]
    exact iff_of_true nofun (.inl hsup)
  rw [if_neg hsup, or_iff_right hsup]
  by_cases hown : spec.assignAlloc ∧ spec.isChar
  · rw [if_pos hown, if_pos hown]
    exact hmanual hown.2
  · rw [if_neg hown, if_neg hown]
    have hans := hhost.answers spec (input.drop pos) hconv (Bool.eq_false_iff.2 hsup) fun hmem =>
      hzero (mem_of_mem_drop hmem)
    rw [hostStringCopy_iff hunit hhost.mbCurMax_pos (fun hmem => hzero (mem_of_mem_drop hmem)) hown hans]
    refine forall₂_congr fun m hm => ?_
    by_cases halloc : spec.assignAlloc
    · rw [HostFits, if_pos halloc, if_pos halloc]
      refine forall_congr' fun hwide => exists_congr fun i => ?_
      rw [mul_le_temporarySize_iff hwide]
    · rw [if_neg halloc]
      exact hfits m hm (Bool.eq_false_iff.2 halloc)

end

section

variable {codec : Codec} {pos : ℕ} {spec : ScanDirective} {input : List Byte} {iswspace : BitVec 32 → Bool}

lemma plain_charToChar (c : BitVec 32) (bytes : List Byte) (h : charToChar.store c = some bytes) :
    bytes.length = charToChar.unit := by
  have hstore : (if c.toNat < 256 then some [c.setWidth 8] else none) = some bytes := h
  split_ifs at hstore
  cases hstore
  rfl

lemma plain_charToWide (c : BitVec 32) (bytes : List Byte) (h : (charToWide codec).store c = some bytes) :
    bytes.length = (charToWide codec).unit := by
  cases h
  exact length_leBytes ..

lemma plain_wideToWide (c : BitVec 32) (bytes : List Byte) (h : wideToWide.store c = some bytes) :
    bytes.length = wideToWide.unit := by
  cases h
  exact length_leBytes ..

lemma manual_charToChar (hdest : spec.wideDest = false) (hchar : spec.isChar) :
    ∀ c ∈ manualAllocChars narrow input pos spec, CopySound charToChar (input.drop pos) spec c := by
  refine (manualAllocChars_iff (P := fun _ => True) (unit_of_narrow hdest).symm hchar
    (fun h _ => (takeChars_count rfl h).symm) ?_ ?_).2 fun _ _ => trivial
  · intro b more _
    refine ⟨b.setWidth 32, rfl, ?_⟩
    show (if (b.setWidth 32).toNat < 256 then some [(b.setWidth 32).setWidth 8] else none) = _
    rw [toNat_setWidth_byte, if_pos b.isLt, hdest]
    have hback : (b.setWidth 32).setWidth 8 = b := by
      apply BitVec.eq_of_toNat_eq
      rw [BitVec.toNat_setWidth, toNat_setWidth_byte, Nat.mod_eq_of_lt b.isLt]
    rw [hback]
    rfl
  · exact fun _ _ _ _ _ _ _ => trivial

lemma manual_wideToWide {input : List (BitVec 32)} (hdest : spec.wideDest) (hchar : spec.isChar) :
    ∀ c ∈ manualAllocChars (wide iswspace) input pos spec, CopySound wideToWide (input.drop pos) spec c := by
  refine (manualAllocChars_iff (P := fun _ => True) (unit_of_wide hdest).symm hchar
    (fun h _ => (takeChars_count rfl h).symm) ?_ ?_).2 fun _ _ => trivial
  · intro b more _
    refine ⟨b, element_wide b more, ?_⟩
    rw [hdest]
    rfl
  · exact fun _ _ _ _ _ _ _ => trivial

lemma manual_charToWide (hdest : spec.wideDest) (hchar : spec.isChar) :
    (∀ c ∈ manualAllocChars narrow input pos spec, CopySound (charToWide codec) (input.drop pos) spec c) ↔
      InAscii ((input.drop pos).take spec.widthOrOne) := by
  refine manualAllocChars_iff (unit_of_wide hdest).symm hchar (fun {n count text} h hlen => ?_) (fun b more hb => ?_)
    fun b more c bytes hfront _ _ => ?_
  · rw [length_takeChars plain_charToWide h] at hlen
    exact Nat.eq_of_mul_eq_mul_left (charToWide codec).unit_pos hlen
  · refine ⟨b.setWidth 32, codec.decode_ascii b more hb, ?_⟩
    rw [hdest]
    rfl
  · by_contra hb
    have := (codec.decode_other b more 1 c hb hfront).1
    omega

lemma manual_wideToChar {input : List (BitVec 32)} (hdest : spec.wideDest = false) (hchar : spec.isChar) :
    (∀ c ∈ manualAllocChars (wide iswspace) input pos spec, CopySound (wideToChar codec) (input.drop pos) spec c) ↔
      InAscii ((input.drop pos).take spec.widthOrOne) := by
  refine manualAllocChars_iff (unit_of_narrow hdest).symm hchar (fun h _ => (takeChars_count rfl h).symm)
    (fun b more hb => ?_) fun b more c bytes hfront hstore hone => ?_
  · refine ⟨b, element_wide b more, ?_⟩
    rw [hdest]
    exact codec.encode_ascii b hb
  · cases (element_wide b more).symm.trans hfront
    exact (encode_ascii_iff hstore).1 hone

end

/-- **Copies of characters and strings**, for a host as specified: what is copied to the guest is within the temporary,
and for characters it is what was consumed, exactly under the condition. -/
theorem stringCopy_iff (codec : Codec) :
    (∀ (host : ScanHost Byte) (isSpace : Byte → Bool) (addr : ScanDirective → List Byte → Word),
      host.Specified (narrowTo codec) isSpace addr →
      ∀ (input : List Byte) (pos : ℕ) (spec : ScanDirective), 0 ∉ input → isStringConv spec.conv →
      ((∀ c ∈ stringCopy narrow host input pos spec false,
          CopySound (narrowTo codec spec.wideDest) (input.drop pos) spec c) ↔
        CopyAllowed false (narrowTo codec) isSpace host.mbCurMax (addr spec (input.drop pos)) input pos spec)) ∧
    ∀ (host : ScanHost (BitVec 32)) (isSpace iswspace : BitVec 32 → Bool)
      (addr : ScanDirective → List (BitVec 32) → Word), host.Specified (wideTo codec) isSpace addr →
      ∀ (input : List (BitVec 32)) (pos : ℕ) (spec : ScanDirective), 0 ∉ input → isStringConv spec.conv →
      ((∀ c ∈ stringCopy (wide iswspace) host input pos spec true,
          CopySound (wideTo codec spec.wideDest) (input.drop pos) spec c) ↔
        CopyAllowed true (wideTo codec) isSpace host.mbCurMax (addr spec (input.drop pos)) input pos spec) := by
  constructor
  · intro host isSpace addr hhost input pos spec hzero hconv
    have hunit : (narrowTo codec spec.wideDest).unit = spec.unit := by
      rw [unit]
      cases spec.wideDest <;> rfl
    have hplain : ∀ c bytes, (narrowTo codec spec.wideDest).store c = some bytes →
        bytes.length = (narrowTo codec spec.wideDest).unit := by
      cases spec.wideDest with
      | false => exact plain_charToChar
      | true => exact plain_charToWide
    have hsize : temporarySize host input pos spec false = spec.unit * (fieldLimit input pos spec + 1) := by
      unfold temporarySize unit
      cases spec.wideDest with
      | false => exact (Nat.one_mul _).symm
      | true => rfl
    refine stringCopy_iff_of hhost hunit hzero hconv (fun hchar => ?_) fun m hm halloc => ?_
    · cases hdest : spec.wideDest with
      | false => exact iff_of_true (manual_charToChar hdest hchar) (.inl rfl)
      | true =>
        rw [or_iff_right Bool.false_ne_true]
        exact manual_charToWide hdest hchar
    · rw [hostFits_plain hplain hunit hsize halloc hm]
      exact (and_iff_left fun h => absurd h Bool.false_ne_true).symm
  · intro host isSpace iswspace addr hhost input pos spec hzero hconv
    have hunit : (wideTo codec spec.wideDest).unit = spec.unit := by
      rw [unit]
      cases spec.wideDest <;> rfl
    refine stringCopy_iff_of hhost hunit hzero hconv (fun hchar => ?_) fun m hm halloc => ?_
    · cases hdest : spec.wideDest with
      | true => exact iff_of_true (manual_wideToWide hdest hchar) (.inl rfl)
      | false =>
        rw [or_iff_right Bool.false_ne_true.symm]
        exact manual_wideToChar hdest hchar
    · cases hdest : spec.wideDest with
      | true =>
        rw [hdest] at hunit hm
        have hsize : temporarySize host input pos spec true = spec.unit * (fieldLimit input pos spec + 1) := by
          unfold temporarySize unit
          rw [hdest]
          rfl
        rw [hostFits_plain plain_wideToWide hunit hsize halloc hm]
        exact (and_iff_left fun _ h => absurd h Bool.false_ne_true.symm).symm
      | false =>
        rw [hdest] at hm
        rw [hostFits_encoded hdest halloc hm]
        simp only [forall_const]

/-! ### A host with UTF-8 -/

lemma decodeUtf8Codepoint_other {b : Byte} {bs : List Byte} {cp : ℕ} (hb : ¬b < 0x80)
    (h : decodeUtf8Codepoint (b :: bs) = .ok cp k) : 2 ≤ k ∧ k ≤ (b :: bs).length ∧ 0 < cp ∧ cp < 2 ^ 32 := by
  obtain ⟨c, rest, hcons, rfl, rfl⟩ := decodeUtf8Codepoint_eq_ok_iff.1 h
  have hhigh : ¬codepoint c ≤ 0x7f := by
    intro hle
    rw [charBytes_eq, if_pos hle] at hcons
    obtain ⟨rfl, -⟩ := List.cons.inj hcons
    apply hb
    rw [BitVec.lt_def, toNat_byte (by omega)]
    exact Nat.lt_succ_of_le hle
  have hlen : 2 ≤ (charBytes c).length := by
    rw [charBytes_eq, if_neg hhigh]
    split_ifs <;> simp
  rw [hcons, length_append]
  exact ⟨hlen, Nat.le_add_right .., by omega, c.val.toNat_lt⟩

def utf8Front (bs : List Byte) : Option (ℕ × BitVec 32) :=
  match decodeUtf8Codepoint bs with
  | .ok cp k => some (k, BitVec.ofNat 32 cp)
  | _ => none

/-- **UTF-8**, as the host has it: surrogates are not encoded. -/
def utf8Codec : Codec where
  decode := utf8Front
  encode c := if 0xd800 ≤ c ∧ c ≤ 0xdfff then none else Format.utf8 c
  decode_nil := rfl
  decode_ascii := by
    intro b bs hb
    have hle : b.toNat ≤ 0x7f := Nat.le_of_lt_succ hb
    have hone : decodeUtf8Codepoint (BitVec.ofNat 8 b.toNat :: bs) = .ok b.toNat 1 :=
      Utf8Form.decode (.one hle) bs
    rw [BitVec.ofNat_toNat, BitVec.setWidth_eq] at hone
    rw [utf8Front, hone]
    dsimp only
    rw [BitVec.ofNat_toNat]
  decode_other := by
    intro b bs k c hb h
    unfold utf8Front at h
    split at h
    · rename_i cp k' hdecode
      cases h
      obtain ⟨h2, hle, hpos, hlt⟩ := decodeUtf8Codepoint_other hb hdecode
      refine ⟨h2, hle, fun h0 => ?_⟩
      have := congrArg BitVec.toNat h0
      rw [BitVec.toNat_ofNat, Nat.mod_eq_of_lt hlt] at this
      exact hpos.ne' this
    · cases h
  encode_ascii := by
    intro c hc
    have hlow : ¬(0xd800 ≤ c ∧ c ≤ 0xdfff) := by
      rintro ⟨h, -⟩
      have h1 : c.toNat < 128 := hc
      have h2 : 0xd800 ≤ c.toNat := h
      omega
    rw [if_neg hlow, utf8_ascii hc]
  encode_other := by
    intro c bytes hc h
    split_ifs at h
    obtain ⟨bytes', hbytes, hlen, hhigh⟩ := utf8_high hc (le_of_utf8 h)
    cases h.symm.trans hbytes
    exact ⟨hlen, fun hmem => absurd (hhigh 0 hmem) (by decide)⟩

def specifiedHost {w : ℕ} (trans : Bool → Transcoding w) (isSpace : BitVec w → Bool) (mbCurMax : ℕ) (addr : Word) :
    ScanHost (BitVec w) where
  scan spec rest :=
    match hostMatch (trans spec.wideDest) isSpace spec rest with
    | some (count, text) =>
      if spec.assignAlloc then { rc := 1, count, written := leBytes 8 addr.toNat, block := some text }
      else { rc := 1, count, written := text }
    | none => { rc := -1 }
  mbCurMax := mbCurMax

lemma specified_specifiedHost {trans : Bool → Transcoding w} {isSpace : BitVec w → Bool} {mbCurMax : ℕ} {addr : Word}
    (hmb : 1 ≤ mbCurMax) : (specifiedHost trans isSpace mbCurMax addr).Specified trans isSpace fun _ _ => addr where
  mbCurMax_pos := hmb
  answers := by
    intro spec rest _ _ _
    unfold specifiedHost
    dsimp only
    cases hostMatch (trans spec.wideDest) isSpace spec rest with
    | none => exact (by decide : (-1 : ℤ) ≠ 1)
    | some m =>
      cases spec.assignAlloc with
      | true => exact ⟨rfl, rfl, rfl, rfl⟩
      | false => exact ⟨rfl, rfl, rfl⟩

/-- `%2c`. -/
def twoChars : ScanDirective := ⟨Format.chars ['%', '2', 'c'], false, false, some 2, .none, ascii 'c'⟩

/-- `%c`. -/
def oneChar : ScanDirective := ⟨Format.chars ['%', 'c'], false, false, none, .none, ascii 'c'⟩

/-- `%ms`. -/
def allocString : ScanDirective := ⟨Format.chars ['%', 'm', 's'], false, true, none, .none, ascii 's'⟩

/-- `%2c` on `ab`, from a narrow and from a wide input. -/
theorem stringCopy_two :
    (∀ c ∈ stringCopy narrow (specifiedHost (narrowTo utf8Codec) isspace 6 0x1000) [97, 98] 0 twoChars false,
      CopySound (narrowTo utf8Codec false) [97, 98] twoChars c) ∧
    ∀ c ∈ stringCopy (wide iswspaceC) (specifiedHost (wideTo utf8Codec) iswspaceC 6 0x1000) [97, 98] 0 twoChars true,
      CopySound (wideTo utf8Codec false) [97, 98] twoChars c := by
  obtain ⟨hnarrow, hwide⟩ := stringCopy_iff utf8Codec
  constructor
  · refine (hnarrow _ isspace (fun _ _ => 0x1000) (specified_specifiedHost (by decide)) [97, 98] 0 twoChars (by decide)
      (by decide)).2 (.inr ?_)
    rw [if_neg (by decide)]
    intro m _
    rw [if_neg (by decide)]
    exact ⟨by decide, fun h => absurd h (by decide)⟩
  · refine (hwide _ iswspaceC iswspaceC (fun _ _ => 0x1000) (specified_specifiedHost (by decide)) [97, 98] 0 twoChars
      (by decide) (by decide)).2 (.inr ?_)
    rw [if_neg (by decide)]
    intro m _
    rw [if_neg (by decide)]
    refine ⟨by decide, fun _ _ => ?_⟩
    rw [if_pos (by decide)]
    exact (by simp [twoChars, widthOrOne] : ∀ c ∈ ([97, 98] : List (BitVec 32)).take twoChars.widthOrOne, c.toNat < 0x80)

/-- **The character `é`** of a wide input, stored as `char`: one of its two bytes is copied. With an `m`, seven bytes of
an address are copied from a temporary of two. -/
theorem stringCopy_accent :
    stringCopy (wide iswspaceC) (specifiedHost (wideTo utf8Codec) iswspaceC 1 0x7f1122334455) [0xe9] 0 oneChar true =
      some (1, ⟨2, 1, [0xc3]⟩) ∧
    takeChars (wideTo utf8Codec false) 1 [0xe9] = some (1, [0xc3, 0xa9]) ∧
    stringCopy (wide iswspaceC) (specifiedHost (wideTo utf8Codec) iswspaceC 1 0x7f1122334455) [97] 0 allocString true =
      some (1, ⟨2, 7, [0x55, 0x44, 0x33, 0x22, 0x11, 0x7f, 0]⟩) := by
  decide +kernel

end CrossShim.Stdio.Scan
