import CrossShim.Stdio.Scan

/-!
# Literal texts of `scanf`

The characters of a format that are neither white space nor part of a directive must be the next ones of the input.  The
source compares bytes of the format with characters of the input.  For a narrow format this goes wrong with bytes from
0x80 on, since `char` has a sign; a wide format is in UTF-8 by then, and its other characters have become several bytes.
`scanned_literal_iff`: the rule is kept for the formats in ASCII, and for no other.
-/

namespace CrossShim.Stdio.Scan

open Lib Memory List
open Format (ascii utf8 utf8Text)

section

variable {α : Type} {isSpace : α → Bool} {pos : ℕ} {fmt : List Byte}

/-- The rule of the C standard, for a format without directives: where the matching ends. -/
def literalRule [DecidableEq α] (isSpace : α → Bool) : ℕ → List α → List α → LiteralEnd
  | pos, _, [] => .matched pos
  | pos, input, fc :: fmt =>
    if isSpace fc then
      literalRule isSpace (pos + (input.takeWhile isSpace).length) (input.dropWhile isSpace) fmt
    else
      match input with
      | [] => .exhausted pos
      | ch :: rest => if ch = fc then literalRule isSpace (pos + 1) rest fmt else .mismatch pos

lemma literalRule_cons [DecidableEq α] {fc : α} {input fmt : List α} :
    literalRule isSpace pos input (fc :: fmt) =
      if isSpace fc then
        literalRule isSpace (pos + (input.takeWhile isSpace).length) (input.dropWhile isSpace) fmt
      else
        match input with
        | [] => .exhausted pos
        | ch :: rest => if ch = fc then literalRule isSpace (pos + 1) rest fmt else .mismatch pos := by
  cases input <;> rfl

/-- The result of a scan that ends in a literal text before any assignment, and its position. -/
def LiteralEnd.outcome : LiteralEnd → ℤ × ℕ
  | .matched pos => (0, pos)
  | .exhausted pos => (EOF, pos)
  | .mismatch pos => (0, pos)

/-- The result of a scan, and the position that it comes to. -/
def scanned {σ : Type} (ct : CharType α) (host : ScanHost α) (nextPtr : PtrSource σ) (wideInput : Bool) (source : σ)
    (g : GuestHeap) (fmt : List Byte) (input : List α) : Option (ℤ × ℕ) :=
  match parseScanFormat fmt with
  | .ok tokens =>
    let (result, s) := scanWithInput ct host nextPtr wideInput input { source, g } tokens
    some (result, s.pos)
  | .error _ => none

/-! ### Formats without directives -/

lemma parseLoop_literal {fmt pending : List Byte} {rounds : ℕ} (hle : fmt.length ≤ rounds)
    (hne : ∀ c ∈ fmt, c ≠ ascii '%') : parseLoop rounds pending fmt = .ok (flushLiteral (pending ++ fmt)) := by
  induction fmt generalizing pending rounds with
  | nil =>
    rw [append_nil, parseLoop]
  | cons c fmt ih =>
    rw [length_cons] at hle
    obtain ⟨rounds, rfl⟩ : ∃ r, rounds = r + 1 := ⟨rounds - 1, by omega⟩
    rw [parseLoop, if_pos (hne c mem_cons_self), ih (by omega) fun c' hc' => hne c' (mem_cons_of_mem _ hc')]
    rw [append_assoc, singleton_append]

lemma parseScanFormat_literal (h : ∀ c ∈ fmt, c ≠ ascii '%') : parseScanFormat fmt = .ok (flushLiteral fmt) :=
  parseLoop_literal le_rfl h

lemma scanned_literal {σ : Type} {ct : CharType α} {host : ScanHost α} {nextPtr : PtrSource σ} {wideInput : Bool}
    {source : σ} {g : GuestHeap} {input : List α} (h : ∀ c ∈ fmt, c ≠ ascii '%') :
    scanned ct host nextPtr wideInput source g fmt input = some (matchLiteral ct input 0 fmt).outcome := by
  unfold scanned
  rw [parseScanFormat_literal h]
  dsimp only
  cases fmt with
  | nil => rfl
  | cons c fmt =>
    rw [flushLiteral, if_neg (cons_ne_nil c fmt), scanWithInput, scanToken]
    cases matchLiteral ct input 0 (c :: fmt) with
    | matched pos | exhausted pos | mismatch pos => rfl

/-! ### The loop and the rule -/

variable {ct : CharType α} {input : List α}

lemma drop_skipInputSpace : input.drop (skipInputSpace ct input pos) = (input.drop pos).dropWhile ct.isSpace := by
  rw [skipInputSpace, ← drop_drop]
  generalize input.drop pos = rest
  have hleft : (rest.takeWhile ct.isSpace ++ rest.dropWhile ct.isSpace).drop (rest.takeWhile ct.isSpace).length =
      rest.dropWhile ct.isSpace := drop_left
  rwa [takeWhile_append_dropWhile] at hleft

/-- **The loop keeps the rule** if each byte stands for one character of the format. -/
lemma matchLiteral_eq [DecidableEq α] {toByte : α → Byte} {fmt : List α}
    (h : ∀ c ∈ fmt, isspace (toByte c) = ct.isSpace c ∧ ∀ ch, asciiEquals (ct.code ch) (toByte c) ↔ ch = c) :
    matchLiteral ct input pos (fmt.map toByte) = literalRule ct.isSpace pos (input.drop pos) fmt := by
  induction fmt generalizing pos with
  | nil => rfl
  | cons c fmt ih =>
    obtain ⟨hspace, hequals⟩ := h c mem_cons_self
    have ih := fun pos => @ih pos fun c' hc' => h c' (mem_cons_of_mem _ hc')
    rw [map_cons, matchLiteral, literalRule_cons, hspace]
    by_cases hs : ct.isSpace c
    · rw [if_pos hs, if_pos hs, ih, drop_skipInputSpace]
      rfl
    · rw [if_neg hs, if_neg hs, ← head?_drop]
      cases hrest : input.drop pos with
      | nil => rfl
      | cons ch rest =>
        have hnext : input.drop (pos + 1) = rest := by rw [← drop_drop, hrest, drop_one, tail_cons]
        simp only [head?_cons, hequals]
        split_ifs
        · rw [ih, hnext]
        · rfl

lemma literalRule_self [DecidableEq α] {fmt inp : List α} (h : inp = fmt ∨ inp = fmt.dropWhile isSpace) :
    literalRule isSpace pos inp fmt = .matched (pos + inp.length) := by
  induction fmt generalizing inp pos with
  | nil =>
    have hinp : inp = [] := by simpa using h
    rw [hinp, literalRule]
    rfl
  | cons c fmt ih =>
    rw [literalRule_cons]
    by_cases hs : isSpace c
    · -- the run of white space ends at the same character for the format and for the input
      have hdrop : inp.dropWhile isSpace = fmt.dropWhile isSpace := by
        rcases h with rfl | rfl
        · exact dropWhile_cons_of_pos hs
        · rw [dropWhile_cons_of_pos hs, dropWhile_idempotent]
      rw [if_pos hs, ih (.inr hdrop), Nat.add_assoc, ← length_append, takeWhile_append_dropWhile]
    · have hinp : inp = c :: fmt := by
        rcases h with rfl | rfl
        · rfl
        · exact dropWhile_cons_of_neg hs
      rw [if_neg hs, hinp]
      dsimp only
      rw [if_pos rfl, ih (.inl rfl), length_cons, Nat.add_assoc, Nat.add_comm 1]

def IsHigh (c : Byte) : Prop := 0x80 ≤ c

instance : DecidablePred IsHigh := fun c => by
  unfold IsHigh
  infer_instance

/-- **When a literal text is matched to its end**, the input has a character for each of its high bytes. -/
lemma countP_le_of_matched {high : α → Bool} (hhigh : ∀ ch fc, IsHigh fc → asciiEquals (ct.code ch) fc → high ch)
    {text : List Byte} {pos stop : ℕ} (h : matchLiteral ct input pos text = .matched stop) :
    text.countP (fun c => IsHigh c) ≤ (input.drop pos).countP high := by
  induction text generalizing pos stop with
  | nil =>
    exact Nat.zero_le _
  | cons fc text ih =>
    rw [matchLiteral] at h
    by_cases hs : isspace fc
    · rw [if_pos hs] at h
      have hlow : ¬IsHigh fc := by
        intro hh
        have : ∀ c : Byte, isspace c → ¬0x80 ≤ c := by decide
        exact this fc hs hh
      rw [countP_cons_of_neg (by simpa using hlow)]
      refine (ih h).trans ?_
      rw [drop_skipInputSpace]
      exact (dropWhile_sublist _).countP_le
    · rw [if_neg hs, ← head?_drop] at h
      cases hrest : input.drop pos with
      | nil =>
        rw [hrest] at h
        cases h
      | cons ch rest =>
        rw [hrest, head?_cons] at h
        dsimp only at h
        have hnext : input.drop (pos + 1) = rest := by rw [← drop_drop, hrest, drop_one, tail_cons]
        split_ifs at h with heq
        have hle := ih h
        rw [hnext] at hle
        by_cases hh : IsHigh fc
        · rw [countP_cons_of_pos (by simpa using hh), countP_cons_of_pos (hhigh ch fc hh heq)]
          exact Nat.succ_le_succ hle
        · rw [countP_cons_of_neg (by simpa using hh)]
          exact hle.trans ((sublist_cons_self ch rest).countP_le)

lemma lt_length_of_mismatch {text : List Byte} {pos stop : ℕ} (h : matchLiteral ct input pos text = .mismatch stop) :
    stop < input.length := by
  induction text generalizing pos stop with
  | nil =>
    cases h
  | cons fc text ih =>
    rw [matchLiteral] at h
    split_ifs at h with hs
    · exact ih h
    · cases hget : input[pos]? with
      | none =>
        rw [hget] at h
        cases h
      | some ch =>
        rw [hget] at h
        dsimp only at h
        split_ifs at h
        · exact ih h
        · cases h
          exact (List.getElem?_eq_some_iff.1 hget).1

lemma outcome_literalRule_self [DecidableEq α] {fmt : List α} :
    (literalRule isSpace 0 fmt fmt).outcome = (0, fmt.length) := by
  rw [literalRule_self (.inl rfl), Nat.zero_add]
  rfl

/-- A scan that takes all of the input, without running out of it, has matched the text to its end. -/
lemma exists_matched {text : List Byte} (h : (matchLiteral ct input 0 text).outcome = (0, input.length)) :
    ∃ stop, matchLiteral ct input 0 text = .matched stop := by
  cases hm : matchLiteral ct input 0 text with
  | matched stop => exact ⟨stop, rfl⟩
  | exhausted stop =>
    rw [hm] at h
    exact absurd (congrArg Prod.fst h) (by show EOF ≠ 0; decide)
  | mismatch stop =>
    have hlt := lt_length_of_mismatch hm
    rw [hm] at h
    have hstop : stop = input.length := congrArg Prod.snd h
    omega

end

/-! ### Narrow formats -/

lemma signExtend_low : ∀ ch : Byte, ¬IsHigh ch → ch.signExtend 32 = ch.setWidth 32 := by decide

lemma signExtend_high : ∀ ch : Byte, IsHigh ch → 256 ≤ (ch.signExtend 32).toNat := by decide

lemma toNat_setWidth_byte (c : Byte) : (c.setWidth 32).toNat = c.toNat := by
  rw [BitVec.toNat_setWidth]
  omega

lemma narrow_equals {ch fc : Byte} : asciiEquals (narrow.code ch) fc ↔ ch = fc ∧ ¬IsHigh fc := by
  show ch.signExtend 32 = fc.setWidth 32 ↔ ch = fc ∧ ¬IsHigh fc
  by_cases hch : IsHigh ch
  · have hge := signExtend_high ch hch
    constructor
    · intro h
      rw [h, toNat_setWidth_byte] at hge
      omega
    · rintro ⟨rfl, hfc⟩
      exact absurd hch hfc
  · rw [signExtend_low ch hch]
    constructor
    · intro h
      have heq : ch = fc := by
        apply BitVec.eq_of_toNat_eq
        rw [← toNat_setWidth_byte ch, h, toNat_setWidth_byte]
      exact ⟨heq, heq ▸ hch⟩
    · rintro ⟨rfl, -⟩
      rfl

/-! ### Wide formats -/

variable {wc : BitVec 32}

lemma utf8_ascii (h : wc < 0x80) : utf8 wc = some [wc.setWidth 8] := by
  unfold utf8
  have hle : wc ≤ 0x7f := by
    have : wc.toNat < 128 := h
    show wc.toNat ≤ 127
    omega
  rw [if_pos hle]

lemma setWidth_setWidth_ascii (h : wc < 0x80) : (wc.setWidth 8).setWidth 32 = wc := by
  apply BitVec.eq_of_toNat_eq
  have : wc.toNat < 128 := h
  rw [BitVec.toNat_setWidth, BitVec.toNat_setWidth]
  omega

lemma isHigh_or {mark x : Byte} (h : IsHigh mark) : IsHigh (mark ||| x) := by
  have h1 : 128 ≤ mark.toNat := h
  have h2 : mark.toNat ≤ (mark ||| x).toNat := by
    rw [BitVec.toNat_or]
    exact Nat.left_le_or
  show 128 ≤ (mark ||| x).toNat
  omega

lemma utf8_high (h : ¬wc < 0x80) (hv : wc ≤ 0x10ffff) :
    ∃ bytes, utf8 wc = some bytes ∧ 2 ≤ bytes.length ∧ ∀ b ∈ bytes, IsHigh b := by
  have hlt : ¬wc ≤ 0x7f := by
    intro hle
    have h1 : wc.toNat ≤ 127 := hle
    have h2 : ¬wc.toNat < 128 := h
    omega
  have hlow : ∀ x : Byte, IsHigh (0x80 ||| x) := fun x => isHigh_or (by decide)
  unfold utf8
  rw [if_neg hlt]
  split_ifs with h2 h3
  all_goals
    refine ⟨_, rfl, by simp, ?_⟩
    simp only [mem_cons, not_mem_nil, or_false, forall_eq_or_imp, forall_eq]
    refine ⟨isHigh_or (by decide), ?_⟩
  exacts [hlow _, ⟨hlow _, hlow _⟩, ⟨hlow _, hlow _, hlow _⟩]

lemma utf8Text_ascii {fmt : List (BitVec 32)} (h : ∀ c ∈ fmt, c < 0x80) :
    utf8Text fmt = fmt.map (BitVec.setWidth 8) := by
  induction fmt with
  | nil => rfl
  | cons c fmt ih =>
    rw [utf8Text, utf8_ascii (h c mem_cons_self)]
    rw [ih fun c' hc' => h c' (mem_cons_of_mem _ hc')]
    rfl

/-- **Every character that is not ASCII makes two high bytes.** -/
lemma two_mul_countP_le {fmt : List (BitVec 32)} (h : ∀ c ∈ fmt, c ≤ 0x10ffff) :
    2 * fmt.countP (fun c => ¬c < 0x80) ≤ (utf8Text fmt).countP (fun c => IsHigh c) := by
  induction fmt with
  | nil => exact Nat.zero_le _
  | cons c fmt ih =>
    have ih := ih fun c' hc' => h c' (mem_cons_of_mem _ hc')
    by_cases hc : c < 0x80
    · rw [countP_cons_of_neg (by simpa using hc), utf8Text, utf8_ascii hc]
      rw [countP_append]
      omega
    · obtain ⟨bytes, hbytes, hlen, hhigh⟩ := utf8_high hc (h c mem_cons_self)
      have hall : bytes.countP (fun c => IsHigh c) = bytes.length := by
        rw [countP_eq_length]
        simpa using hhigh
      rw [countP_cons_of_pos (by simpa using hc), utf8Text, hbytes]
      dsimp only
      rw [countP_append, hall]
      omega

lemma utf8Text_ne_percent {fmt : List (BitVec 32)} (h : ∀ c ∈ fmt, c ≤ 0x10ffff ∧ c ≠ (ascii '%').setWidth 32) :
    ∀ b ∈ utf8Text fmt, b ≠ ascii '%' := by
  induction fmt with
  | nil => nofun
  | cons c fmt ih =>
    intro b hb
    have ih := ih fun c' hc' => h c' (mem_cons_of_mem _ hc')
    rw [utf8Text] at hb
    by_cases hc : c < 0x80
    · rw [utf8_ascii hc] at hb
      rcases mem_append.1 hb with hb | hb
      · rw [mem_singleton.1 hb]
        intro heq
        apply (h c mem_cons_self).2
        rw [← heq, setWidth_setWidth_ascii hc]
      · exact ih b hb
    · obtain ⟨bytes, hbytes, -, hhigh⟩ := utf8_high hc (h c mem_cons_self).1
      rw [hbytes] at hb
      rcases mem_append.1 hb with hb | hb
      · rintro rfl
        exact absurd (hhigh _ hb) (by decide)
      · exact ih b hb

/-! ### The rule -/

section

variable {σ : Type} {nextPtr : PtrSource σ} {source : σ} {g : GuestHeap}

lemma scanned_narrow_iff {host : ScanHost Byte} {fmt : List Byte} (hfmt : ∀ c ∈ fmt, c ≠ ascii '%') :
    (∀ input, scanned narrow host nextPtr false source g fmt input = some (literalRule isspace 0 input fmt).outcome) ↔
      ∀ c ∈ fmt, c < 0x80 := by
  simp only [scanned_literal hfmt, Option.some.injEq]
  constructor
  · intro h
    obtain ⟨stop, hstop⟩ := exists_matched ((h fmt).trans outcome_literalRule_self)
    have hcount : fmt.countP (fun c => IsHigh c) ≤ (fmt.drop 0).countP fun _ => false :=
      countP_le_of_matched (fun ch fc hfc heq => absurd hfc (narrow_equals.1 heq).2) hstop
    rw [countP_false] at hcount
    intro c hc
    by_contra hge
    have hhigh : IsHigh c := BitVec.not_lt.1 hge
    have hpos : 0 < fmt.countP (fun c => IsHigh c) := countP_pos_iff.2 ⟨c, hc, by simpa using hhigh⟩
    exact absurd hcount (by simpa using hpos.ne')
  · intro h input
    have hrule : matchLiteral narrow input 0 (fmt.map id) = literalRule isspace 0 (input.drop 0) fmt := by
      refine matchLiteral_eq fun c hc => ⟨rfl, fun ch => narrow_equals.trans ⟨fun h => h.1, fun h' => ⟨h', ?_⟩⟩⟩
      intro hhigh
      have h1 : c.toNat < 128 := h c hc
      have h2 : 128 ≤ c.toNat := hhigh
      omega
    rw [map_id, drop_zero] at hrule
    rw [hrule]

lemma scanned_wide_iff {host : ScanHost (BitVec 32)} {iswspace : BitVec 32 → Bool}
    (hspace : ∀ c, c < 0x80 → iswspace c = isspace (c.setWidth 8)) {fmt : List (BitVec 32)}
    (hfmt : ∀ c ∈ fmt, c ≤ 0x10ffff ∧ c ≠ (ascii '%').setWidth 32) :
    (∀ input, scanned (wide iswspace) host nextPtr true source g (utf8Text fmt) input =
        some (literalRule iswspace 0 input fmt).outcome) ↔ ∀ c ∈ fmt, c < 0x80 := by
  simp only [scanned_literal (utf8Text_ne_percent hfmt), Option.some.injEq]
  constructor
  · intro h
    obtain ⟨stop, hstop⟩ := exists_matched ((h fmt).trans outcome_literalRule_self)
    -- the input has as many characters as the format, but the bytes of the format want twice as many
    have hcount : (utf8Text fmt).countP (fun c => IsHigh c) ≤ (fmt.drop 0).countP fun c => ¬c < 0x80 := by
      refine countP_le_of_matched (fun ch fc hfc heq => ?_) hstop
      have hch : ch = fc.setWidth 32 := heq
      have h1 : 128 ≤ fc.toNat := hfc
      have h2 : ¬ch.toNat < 128 := by
        rw [hch, toNat_setWidth_byte]
        omega
      exact decide_eq_true h2
    rw [drop_zero] at hcount
    have htwo := two_mul_countP_le fun c hc => (hfmt c hc).1
    intro c hc
    by_contra hge
    have hpos : 0 < fmt.countP (fun c => ¬c < 0x80) := countP_pos_iff.2 ⟨c, hc, by simpa using hge⟩
    omega
  · intro h input
    have hrule : matchLiteral (wide iswspace) input 0 (fmt.map (BitVec.setWidth 8)) =
        literalRule iswspace 0 (input.drop 0) fmt := by
      refine matchLiteral_eq fun c hc => ⟨(hspace c (h c hc)).symm, fun ch => ?_⟩
      show ch = (c.setWidth 8).setWidth 32 ↔ ch = c
      rw [setWidth_setWidth_ascii (h c hc)]
    rw [drop_zero] at hrule
    rw [utf8Text_ascii h, hrule]

end

/-- **Literal texts**: a format of ordinary characters and white space is matched by the rule of the C standard, on
every input, exactly if it is ASCII. -/
theorem scanned_literal_iff (σ : Type) (nextPtr : PtrSource σ) (source : σ) (g : GuestHeap) :
    (∀ (sscanf : ScanHost Byte) (fmt : List Byte), (∀ c ∈ fmt, c ≠ 0 ∧ c ≠ ascii '%') →
      ((∀ input, scanned narrow sscanf nextPtr false source g fmt input =
          some (literalRule isspace 0 input fmt).outcome) ↔ ∀ c ∈ fmt, c < 0x80)) ∧
    ∀ (swscanf : ScanHost (BitVec 32)) (iswspace : BitVec 32 → Bool),
      (∀ c, c < 0x80 → iswspace c = isspace (c.setWidth 8)) → ∀ fmt : List (BitVec 32),
      (∀ c ∈ fmt, c ≠ 0 ∧ c.toNat.isValidChar ∧ c ≠ (ascii '%').setWidth 32) →
      ((∀ input, scanned (wide iswspace) swscanf nextPtr true source g (utf8Text fmt) input =
          some (literalRule iswspace 0 input fmt).outcome) ↔ ∀ c ∈ fmt, c < 0x80) := by
  constructor
  · intro sscanf fmt hfmt
    exact scanned_narrow_iff fun c hc => (hfmt c hc).2
  · intro swscanf iswspace hspace fmt hfmt
    refine scanned_wide_iff hspace fun c hc => ⟨?_, (hfmt c hc).2.2⟩
    have hvalid : c.toNat < 0xd800 ∨ 0xdfff < c.toNat ∧ c.toNat < 0x110000 := (hfmt c hc).2.1
    show c.toNat ≤ 0x10ffff
    omega

def noHost (α : Type) : ScanHost α := ⟨fun _ _ => { rc := -1 }, 1, []⟩

def scanGuest : GuestHeap := ⟨⟨fun _ => 0, fun _ => true⟩, .init 0x10000 0x10000⟩

/-- `iswspace`, in the locale that a program starts in. -/
def iswspaceC (c : BitVec 32) : Bool := c < 0x80 && isspace (c.setWidth 8)

/-- The format `a b`, narrow and wide. -/
theorem scanned_literal_ascii :
    (∀ input, scanned narrow (noHost _) (fun _ s => (0, s)) false () scanGuest (Format.chars ['a', ' ', 'b']) input =
      some (literalRule isspace 0 input (Format.chars ['a', ' ', 'b'])).outcome) ∧
    ∀ input, scanned (wide iswspaceC) (noHost _) (fun _ s => (0, s)) true () scanGuest (utf8Text [97, 32, 98]) input =
      some (literalRule iswspaceC 0 input [97, 32, 98]).outcome := by
  obtain ⟨hnarrow, hwide⟩ := scanned_literal_iff Unit (fun _ s => (0, s)) () scanGuest
  refine ⟨(hnarrow (noHost _) (Format.chars ['a', ' ', 'b']) (by decide +kernel)).2 (by decide +kernel), ?_⟩
  refine (hwide (noHost _) iswspaceC (fun c hc => ?_) [97, 32, 98] (fun c hc => ?_)).2 (by simp)
  · unfold iswspaceC
    rw [decide_eq_true hc, Bool.true_and]
  · simp only [mem_cons, not_mem_nil, or_false] at hc
    rcases hc with rfl | rfl | rfl
    · exact ⟨by decide, .inl (by decide), by decide⟩
    · exact ⟨by decide, .inl (by decide), by decide⟩
    · exact ⟨by decide, .inl (by decide), by decide⟩

/-- **The character `é`** as format and input, in Latin-1 and wide: the rule consumes it, the source does not. -/
theorem literal_not_ascii :
    scanned narrow (noHost _) (fun _ s => (0, s)) false () scanGuest [0xe9] [0xe9] = some (0, 0) ∧
    (literalRule isspace 0 [0xe9] [0xe9]).outcome = (0, 1) ∧
    scanned (wide iswspaceC) (noHost _) (fun _ s => (0, s)) true () scanGuest (utf8Text [0xe9]) [0xe9] = some (0, 0) ∧
    (literalRule iswspaceC 0 [(0xe9 : BitVec 32)] [0xe9]).outcome = (0, 1) := by
  rw [scanned_literal (by decide), scanned_literal (by decide)]
  decide

end CrossShim.Stdio.Scan
