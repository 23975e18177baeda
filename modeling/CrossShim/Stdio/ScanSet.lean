import CrossShim.Stdio.ScanInteger
import CrossShim.Stdio.ScanLiteral

/-!
# Scansets

The set that is written between the brackets: the characters that are listed, and what lies between two characters with a
dash between them, in ascending order; after a caret all others.  The source parses the format twice, once for the end of
the directive and once for the set, and the set is a table of bytes.  For narrow formats the table is the set that is
written.  A wide format is in UTF-8 by then, and its bytes are taken for characters: `scanset_iff`.
-/

namespace CrossShim.Stdio.Scan

open Lib Memory List
open Format (ascii isDigit utf8Text)

/-! ### The set that is written -/

/-- The dash of a range: between two characters, of which the first is not above the second and is no such dash. -/
def isRange (body : List ℕ) : ℕ → Bool
  | 0 => false
  | k + 1 => body[k + 1]? == some '-'.toNat && !isRange body k &&
    match body[k]?, body[k + 2]? with
    | some a, some b => decide (a ≤ b)
    | _, _ => false

/-- A place gives a character: it is listed there, or lies in the range that starts there. -/
def gives (body : List ℕ) (k c : ℕ) : Bool :=
  (body[k]? == some c && !isRange body k) ||
    (isRange body (k + 1) &&
      match body[k]?, body[k + 2]? with
      | some a, some b => decide (a ≤ c) && decide (c ≤ b)
      | _, _ => false)

def InBody (body : List ℕ) (c : ℕ) : Prop := ∃ k < body.length, gives body k c

instance (body : List ℕ) (c : ℕ) : Decidable (InBody body c) := by
  unfold InBody
  infer_instance

/-- What stands between the first `[` and the last `]` of a directive. -/
def writtenBody (text : List ℕ) : List ℕ :=
  (((text.dropWhile (· ≠ '['.toNat)).tail.reverse.dropWhile (· ≠ ']'.toNat)).tail).reverse

/-- **The set that a directive writes.** -/
def InScanset (text : List ℕ) (c : ℕ) : Prop :=
  if (writtenBody text).head? = some '^'.toNat then ¬InBody (writtenBody text).tail c else InBody (writtenBody text) c

instance (text : List ℕ) (c : ℕ) : Decidable (InScanset text c) := by
  unfold InScanset
  infer_instance

/-! ### Bodies, from the left -/

section

variable {a b c d i k : ℕ} {body rest : List ℕ}

lemma isRange_succ : isRange body (k + 1) = (body[k + 1]? == some '-'.toNat && !isRange body k &&
    match body[k]?, body[k + 2]? with
    | some a, some b => decide (a ≤ b)
    | _, _ => false) := rfl

lemma isRange_drop (h : isRange body i = false) : ∀ k, isRange (body.drop i) k = isRange body (i + k) := by
  intro k
  induction k with
  | zero => exact h.symm
  | succ k ih =>
    rw [isRange_succ, ih, getElem?_drop, getElem?_drop, getElem?_drop]
    rfl

lemma gives_drop (h : isRange body i = false) : gives (body.drop i) k c = gives body (i + k) c := by
  unfold gives
  rw [isRange_drop h, isRange_drop h, getElem?_drop, getElem?_drop]
  rfl

lemma inBody_iff_drop (h : isRange body i = false) :
    InBody body c ↔ (∃ k < i, k < body.length ∧ gives body k c) ∨ InBody (body.drop i) c := by
  unfold InBody
  rw [length_drop]
  constructor
  · rintro ⟨k, hk, hg⟩
    by_cases hki : k < i
    · exact .inl ⟨k, hki, hk, hg⟩
    · obtain ⟨j, rfl⟩ := Nat.exists_eq_add_of_le (not_lt.1 hki)
      exact .inr ⟨j, by omega, (gives_drop h).symm ▸ hg⟩
  · rintro (⟨k, -, hk, hg⟩ | ⟨k, hk, hg⟩)
    · exact ⟨k, hk, hg⟩
    · exact ⟨i + k, by omega, gives_drop h ▸ hg⟩

lemma inBody_nil : ¬InBody [] c := by
  rintro ⟨k, hk, -⟩
  exact absurd hk (Nat.not_lt_zero k)

lemma inBody_cons (h : isRange (a :: rest) 1 = false) : InBody (a :: rest) c ↔ c = a ∨ InBody rest c := by
  have hg0 : gives (a :: rest) 0 c ↔ c = a := by
    unfold gives
    rw [h]
    simp only [getElem?_cons_zero, isRange, Bool.false_and, Bool.or_false, Bool.not_false, Bool.and_true, beq_iff_eq,
      Option.some.injEq]
    exact eq_comm
  rw [inBody_iff_drop h]
  refine or_congr ⟨?_, fun h => ⟨0, Nat.zero_lt_one, Nat.succ_pos _, hg0.2 h⟩⟩ Iff.rfl
  rintro ⟨k, hk, -, hg⟩
  obtain rfl : k = 0 := by omega
  exact hg0.1 hg

lemma inBody_singleton : InBody [a] c ↔ c = a := (inBody_cons rfl).trans (or_iff_left inBody_nil)

lemma inBody_range (hab : a ≤ b) :
    InBody (a :: '-'.toNat :: b :: rest) c ↔ (a ≤ c ∧ c ≤ b) ∨ InBody (b :: rest) c := by
  have h1 : isRange (a :: '-'.toNat :: b :: rest) 1 = true := by
    rw [isRange_succ]
    simpa [isRange] using hab
  have h2 : isRange (a :: '-'.toNat :: b :: rest) 2 = false := by
    rw [isRange_succ, h1]
    simp
  have hg0 : gives (a :: '-'.toNat :: b :: rest) 0 c ↔ a ≤ c ∧ c ≤ b := by
    unfold gives
    rw [h1]
    simp only [getElem?_cons_zero, isRange, Bool.or_eq_true, Bool.and_eq_true, beq_iff_eq, Option.some.injEq,
      Bool.not_false, and_true, true_and, getElem?_cons_succ, decide_eq_true_eq]
    omega
  have hg1 : ¬gives (a :: '-'.toNat :: b :: rest) 1 c := by
    unfold gives
    rw [h1, h2]
    simp
  rw [inBody_iff_drop h2]
  refine or_congr ⟨?_, fun h => ⟨0, Nat.zero_lt_two, Nat.succ_pos _, hg0.2 h⟩⟩ Iff.rfl
  rintro ⟨k, hk, -, hg⟩
  match k with
  | 0 => exact hg0.1 hg
  | 1 => exact absurd hg hg1

lemma isRange_one : isRange (a :: d :: rest) 1 = true ↔ d = '-'.toNat ∧ ∃ b ∈ rest.head?, a ≤ b := by
  rw [isRange_succ]
  cases rest with
  | nil => simp
  | cons b rest => simp [isRange]

lemma inBody_head : InBody (a :: rest) a := by
  refine ⟨0, Nat.succ_pos _, ?_⟩
  unfold gives
  simp [isRange]

lemma exists_le_of_inBody (h : InBody body c) : ∃ b ∈ body, c ≤ b := by
  obtain ⟨k, hk, hg⟩ := h
  unfold gives at hg
  rw [Bool.or_eq_true, Bool.and_eq_true, Bool.and_eq_true] at hg
  rcases hg with ⟨hlisted, -⟩ | ⟨-, hrange⟩
  · exact ⟨c, mem_of_getElem? (beq_iff_eq.1 hlisted), le_rfl⟩
  · split at hrange
    · rename_i a b ha hb
      rw [Bool.and_eq_true, decide_eq_true_eq, decide_eq_true_eq] at hrange
      exact ⟨b, mem_of_getElem? hb, hrange.2⟩
    · cases hrange

end

/-! ### The table -/

def codes {w : ℕ} (text : List (BitVec w)) : List ℕ := text.map BitVec.toNat

section

variable {table : Byte → Bool} {ch v : Byte} {rest body : List Byte}

lemma addChar_iff : addChar table ch v ↔ table v ∨ v = ch := by
  unfold addChar
  by_cases h : v = ch
  · subst h
    simp
  · simp [h]

lemma addRange_iff {last : Byte} : addRange table ch last v ↔ table v ∨ ch < v ∧ v ≤ last := by
  unfold addRange
  rw [Bool.or_eq_true, Bool.and_eq_true, decide_eq_true_eq, decide_eq_true_eq]

lemma inBody_codes_singleton : InBody (codes [ch]) v.toNat ↔ v = ch := by
  show InBody [ch.toNat] v.toNat ↔ v = ch
  rw [inBody_singleton, BitVec.toNat_inj]

/-- **The loop of the source** adds what is written from the character before on. -/
lemma scansetLoop_some {o : Option Byte} : ∀ {prev : Byte}, o = some prev → table prev → ascii ']' ∉ rest →
    (scansetLoop table o rest v ↔ table v ∨ InBody (codes (prev :: rest)) v.toNat) := by
  induction table, o, rest using scansetLoop.induct with
  | case1 table o =>
    intro prev _ hprev _
    rw [scansetLoop, inBody_codes_singleton]
    constructor
    · exact .inl
    · rintro (h | rfl)
      · exact h
      · exact hprev
  | case2 table o ch =>
    intro prev _ hprev _
    have hone : isRange (codes [prev, ch]) 1 = false := by simp [codes, isRange]
    have hcons : InBody (codes [prev, ch]) v.toNat ↔ v.toNat = prev.toNat ∨ InBody (codes [ch]) v.toNat := inBody_cons hone
    rw [scansetLoop, addChar_iff, hcons, inBody_codes_singleton, BitVec.toNat_inj]
    constructor
    · rintro (h | h)
      · exact .inl h
      · exact .inr (.inr h)
    · rintro (h | rfl | h)
      · exact .inl h
      · exact .inl hprev
      · exact .inr h
  | case3 table ch last rest ih =>
    intro prev ho
    cases ho
  | case4 table prev ch last rest hcond ih =>
    intro prev' ho hprev hbr
    cases ho
    obtain ⟨rfl, hne, hle⟩ := hcond
    have hlast : addRange table prev last last := by
      rw [addRange_iff]
      by_cases heq : prev = last
      · exact .inl (heq ▸ hprev)
      · exact .inr ⟨BitVec.lt_of_le_ne hle heq, BitVec.le_refl _⟩
    have hrange : InBody (codes (prev :: ascii '-' :: last :: rest)) v.toNat ↔
        (prev.toNat ≤ v.toNat ∧ v.toNat ≤ last.toNat) ∨ InBody (codes (last :: rest)) v.toNat := inBody_range hle
    have hbr' : ascii ']' ∉ rest := fun h => hbr (mem_cons_of_mem _ (mem_cons_of_mem _ h))
    rw [scansetLoop, if_pos ⟨rfl, hne, hle⟩, ih rfl hlast hbr', addRange_iff, hrange, or_assoc]
    -- the first of the range is in the table
    constructor
    · rintro (h | h | h)
      · exact .inl h
      · exact .inr (.inl ⟨BitVec.le_of_lt h.1, h.2⟩)
      · exact .inr (.inr h)
    · rintro (h | h | h)
      · exact .inl h
      · by_cases heq : prev = v
        · exact .inl (heq ▸ hprev)
        · exact .inr (.inl ⟨BitVec.lt_of_le_ne h.1 heq, h.2⟩)
      · exact .inr (.inr h)
  | case5 table prev ch last rest hcond ih =>
    intro prev' ho hprev hbr
    cases ho
    have hone : isRange (codes (prev :: ch :: last :: rest)) 1 = false := by
      rw [Bool.eq_false_iff]
      intro h
      obtain ⟨hdash, b, hb, hle⟩ := isRange_one.1 h
      cases hb
      refine hcond ⟨BitVec.eq_of_toNat_eq hdash, ?_, hle⟩
      rintro rfl
      exact hbr (mem_cons_of_mem _ mem_cons_self)
    have hcons : InBody (codes (prev :: ch :: last :: rest)) v.toNat ↔
        v.toNat = prev.toNat ∨ InBody (codes (ch :: last :: rest)) v.toNat := inBody_cons hone
    rw [scansetLoop, if_neg hcond, ih rfl (addChar_iff.2 (.inr rfl)) fun h => hbr (mem_cons_of_mem _ h), addChar_iff,
      hcons, BitVec.toNat_inj]
    constructor
    · rintro ((h | rfl) | h)
      · exact .inl h
      · exact .inr (.inr inBody_head)
      · exact .inr (.inr h)
    · rintro (h | rfl | h)
      · exact .inl (.inl h)
      · exact .inl (.inl hprev)
      · exact .inr h

lemma scansetLoop_none : scansetLoop table none (ch :: rest) = scansetLoop (addChar table ch) (some ch) rest := by
  cases rest with
  | nil | cons last rest => rfl

def setBody (body : List Byte) : List Byte := if body.head? = some (ascii '^') then body.tail else body

/-- **The table is the set that is written**, for a body with a `]` in the first place only. -/
lemma parseScanset_table {spec : ScanDirective} (hbr : ascii ']' ∉ (setBody (bracketBody spec.original)).tail) :
    (parseScanset spec).table v ↔ InBody (codes (setBody (bracketBody spec.original))) v.toNat := by
  have hset : (if (bracketBody spec.original).head? = some (ascii '^') then (bracketBody spec.original).tail
      else bracketBody spec.original) = setBody (bracketBody spec.original) := rfl
  simp only [parseScanset, hset]
  cases hbody : setBody (bracketBody spec.original) with
  | nil =>
    have hnil : ¬InBody (codes ([] : List Byte)) v.toNat := inBody_nil
    simpa using hnil
  | cons ch rest =>
    rw [hbody, tail_cons] at hbr
    dsimp only
    rw [scansetLoop_none, ite_self, scansetLoop_some rfl (addChar_iff.2 (.inr rfl)) hbr, addChar_iff]
    constructor
    · rintro ((h | rfl) | h)
      · cases h
      · exact inBody_head
      · exact h
    · exact .inr

lemma writtenBody_codes {original : List Byte} : writtenBody (codes original) = codes (bracketBody original) := by
  have hne (c : Char) (hc : c.toNat < 256) : ((fun n : ℕ => decide (n ≠ c.toNat)) ∘ BitVec.toNat : Byte → Bool) =
      fun b => decide (b ≠ ascii c) := by
    funext b
    have hb : b.toNat = c.toNat ↔ b = ascii c := by
      rw [← BitVec.toNat_inj, ascii, BitVec.toNat_ofNat, Nat.mod_eq_of_lt hc]
    simp [hb]
  unfold writtenBody bracketBody codes
  rw [dropWhile_map, ← map_tail, ← map_reverse, dropWhile_map, ← map_tail, ← map_reverse,
    hne '[' (by decide), hne ']' (by decide)]

/-- **Characters of the input** match exactly if they are in the set that is written. -/
lemma matches_iff {spec : ScanDirective} (hbr : ascii ']' ∉ (setBody (bracketBody spec.original)).tail)
    (cp : BitVec 32) : (parseScanset spec).matches cp ↔ InScanset (codes spec.original) cp.toNat := by
  have hin : (decide (cp.toNat < 256) && (parseScanset spec).table (cp.setWidth 8)) = true ↔
      InBody (codes (setBody (bracketBody spec.original))) cp.toNat := by
    rw [Bool.and_eq_true, decide_eq_true_eq, parseScanset_table hbr]
    constructor
    · rintro ⟨hlt, h⟩
      rwa [BitVec.toNat_setWidth, Nat.mod_eq_of_lt hlt] at h
    · intro h
      obtain ⟨b, hb, hle⟩ := exists_le_of_inBody h
      obtain ⟨byte, -, rfl⟩ := mem_map.1 hb
      have hlt : cp.toNat < 256 := Nat.lt_of_le_of_lt hle byte.isLt
      refine ⟨hlt, ?_⟩
      rwa [BitVec.toNat_setWidth, Nat.mod_eq_of_lt hlt]
  have hcaret : (writtenBody (codes spec.original)).head? = some '^'.toNat ↔
      (bracketBody spec.original).head? = some (ascii '^') := by
    rw [writtenBody_codes, codes, head?_map]
    cases (bracketBody spec.original).head? with
    | none => simp
    | some b =>
      rw [Option.map_some, Option.some.injEq, Option.some.injEq, ← BitVec.toNat_inj]
      rfl
  unfold ParsedScanSet.matches InScanset
  rw [writtenBody_codes] at hcaret ⊢
  by_cases hc : (bracketBody spec.original).head? = some (ascii '^')
  · have hneg : (parseScanset spec).negate = true := decide_eq_true hc
    have hbody : codes (setBody (bracketBody spec.original)) = (codes (bracketBody spec.original)).tail := by
      rw [setBody, if_pos hc, codes, codes, map_tail]
    rw [if_pos (hcaret.2 hc), hneg, if_pos rfl, ← hbody, ← hin, Bool.not_eq_true', Bool.not_eq_true]
  · have hneg : (parseScanset spec).negate = false := decide_eq_false hc
    have hbody : setBody (bracketBody spec.original) = bracketBody spec.original := if_neg hc
    rw [if_neg (fun h => hc (hcaret.1 h)), hneg, if_neg Bool.false_ne_true, ← hbody, hin]

end

/-! ### What the format parser accepts -/

section

open Scanner

variable {fmt rest rest' : List Byte} {spec : ScanDirective} {tokens : List ScanToken}

abbrev NoBracket {β : Type} (p : Scanner Byte ScanError β) : Prop := Takes (· ≠ ascii '[') p

lemma isDigit_ne_bracket : ∀ c : Byte, isDigit c → c ≠ ascii '[' := by decide

lemma scanWidth_noBracket : NoBracket scanWidth := by
  refine .bind (.takeWhile isDigit_ne_bracket) fun digits => .ite (.pure _) ?_
  cases Format.countValue digits with
  | ok width => exact .pure _
  | error e => exact .throw _

lemma noBracket_letter {β : Type} {c : Byte} {p q : Scanner Byte ScanError β} (hc : c ≠ ascii '[') (hp : NoBracket p)
    (hq : NoBracket q) : NoBracket (do if ← accept c then p else q) :=
  .bind (.accept hc) fun _ => .ite hp hq

lemma scanLength_noBracket : NoBracket scanLength := by
  refine noBracket_letter (by decide) (.bind (.accept (by decide)) fun _ => .bind (.takeWhile isDigit_ne_bracket) ?_)
    (noBracket_letter (by decide) (.bind (.accept (by decide)) fun _ => .pure _)
    (noBracket_letter (by decide) (.bind (.accept (by decide)) fun _ => .pure _)
    (noBracket_letter (by decide) (.pure _) (noBracket_letter (by decide) (.pure _)
    (noBracket_letter (by decide) (.pure _) (noBracket_letter (by decide) (.pure _) (.pure _)))))))
  intro digits
  cases wBits digits with
  | some bits => exact .pure _
  | none => exact .throw _

/-- **The end of a scanset**: a `]` that is not in the first place. -/
lemma scanBracket_eq_ok (h : scanBracket rest = .ok ((), rest')) :
    ∃ inner, rest = inner ++ ascii ']' :: rest' ∧ ascii ']' ∉ (setBody inner).tail := by
  obtain ⟨caret, ts₁, hcaret, h⟩ := bind_eq_ok.1 h
  obtain ⟨first, ts₂, hfirst, h⟩ := bind_eq_ok.1 h
  obtain ⟨run, ts₃, hrun, h⟩ := bind_eq_ok.1 h
  obtain ⟨close, ts₄, hclose, h⟩ := bind_eq_ok.1 h
  cases hrun
  generalize hr : ts₂.takeWhile (· ≠ ascii ']') = run
  have hno : ascii ']' ∉ run := by
    intro hmem
    rw [← hr] at hmem
    simpa using mem_takeWhile_imp hmem
  have hts₂ : ts₂ = run ++ ts₂.dropWhile (· ≠ ascii ']') := by rw [← hr, takeWhile_append_dropWhile]
  -- the scanner does not stop, so that there is a `]` at the end
  rcases accept_eq_ok.1 hclose with ⟨rfl, heq⟩ | ⟨rfl, -, -⟩
  · cases h
    rw [heq] at hts₂
    obtain ⟨body, hbody, hbr⟩ : ∃ body, ts₁ = body ++ ascii ']' :: rest' ∧ ascii ']' ∉ body.tail := by
      rcases accept_eq_ok.1 hfirst with ⟨-, rfl⟩ | ⟨-, rfl, -⟩
      · exact ⟨ascii ']' :: run, by rw [hts₂]; rfl, hno⟩
      · exact ⟨run, hts₂, fun hmem => hno (mem_of_mem_tail hmem)⟩
    rcases accept_eq_ok.1 hcaret with ⟨-, rfl⟩ | ⟨-, rfl, hne⟩
    · refine ⟨ascii '^' :: body, by rw [hbody]; rfl, ?_⟩
      rwa [setBody, head?_cons, if_pos rfl, tail_cons]
    · refine ⟨body, hbody, ?_⟩
      rw [setBody, if_neg]
      · exact hbr
      · intro hhead
        obtain ⟨body', rfl⟩ := head?_eq_some_iff.1 hhead
        exact hne (by rw [hbody]; rfl)
  · cases h

lemma scanSpec_bracket (h : scanSpec rest = .ok (spec, rest')) (hconv : spec.conv = ascii '[') :
    ∃ pre inner, rest = pre ++ ascii '[' :: (inner ++ ascii ']' :: rest') ∧ ascii '[' ∉ pre ∧
      ascii ']' ∉ (setBody inner).tail := by
  obtain ⟨suppress, ts₁, h1, h⟩ := bind_eq_ok.1 h
  obtain ⟨width, ts₂, h2, h⟩ := bind_eq_ok.1 h
  obtain ⟨assignAlloc, ts₃, h3, h⟩ := bind_eq_ok.1 h
  obtain ⟨length, ts₄, h4, h⟩ := bind_eq_ok.1 h
  obtain ⟨conv, ts₅, h5, h⟩ := bind_eq_ok.1 h
  have hstar : NoBracket (accept (ascii '*')) := .accept (by decide)
  have hm : NoBracket (accept (ascii 'm')) := .accept (by decide)
  obtain ⟨u₁, rfl, hu₁⟩ := hstar h1
  obtain ⟨u₂, rfl, hu₂⟩ := scanWidth_noBracket h2
  obtain ⟨u₃, rfl, hu₃⟩ := hm h3
  obtain ⟨u₄, rfl, hu₄⟩ := scanLength_noBracket h4
  match ts₄, h5 with
  | [], h5 =>
    cases h5
    cases h
  | c :: ts, h5 =>
    cases h5
    have hc : c = ascii '[' := by
      dsimp only [head?_cons] at h
      split_ifs at h with hc
      · exact hc
      · cases h
        exact hconv
    subst hc
    rw [head?_cons, tail_cons] at h
    dsimp only at h
    rw [if_pos rfl] at h
    obtain ⟨⟨⟩, ts', hbracket, h⟩ := bind_eq_ok.1 h
    cases h
    obtain ⟨inner, rfl, hbr⟩ := scanBracket_eq_ok hbracket
    refine ⟨u₁ ++ (u₂ ++ (u₃ ++ u₄)), inner, by simp only [append_assoc], ?_, hbr⟩
    intro hmem
    simp only [mem_append] at hmem
    rcases hmem with hmem | hmem | hmem | hmem
    · exact hu₁ _ hmem rfl
    · exact hu₂ _ hmem rfl
    · exact hu₃ _ hmem rfl
    · exact hu₄ _ hmem rfl

lemma scanSpec_takes : Takes (fun _ => True) scanSpec := by
  have hbracket : Takes (fun _ => True) scanBracket :=
    .bind (.accept trivial) fun _ => .bind (.accept trivial) fun _ => .bind (.takeWhile fun _ _ => trivial) fun _ =>
      .bind (.accept trivial) fun _ => .ite (.pure _) (.throw _)
  refine .bind (.accept trivial) fun suppress => .bind (scanWidth_noBracket.mono fun _ _ => trivial) fun width =>
    .bind (.accept trivial) fun assignAlloc => .bind (scanLength_noBracket.mono fun _ _ => trivial) fun length =>
    .bind (.next fun _ => trivial) fun conv => ?_
  cases conv with
  | none => exact .throw _
  | some conv => exact .ite (.bind hbracket fun _ => .pure _) (.pure _)

/-- **The directives of a format** are scanned after a `%` of it, and keep the text. -/
lemma parseLoop_directive : ∀ {rounds : ℕ} {pending fmt : List Byte} {tokens : List ScanToken},
    parseLoop rounds pending fmt = .ok tokens → .directive spec ∈ tokens → ∃ pre used post spec',
      fmt = pre ++ ascii '%' :: (used ++ post) ∧ scanSpec (used ++ post) = .ok (spec', post) ∧
      spec = { spec' with original := ascii '%' :: used } := by
  have hflush {pending : List Byte} : .directive spec ∉ flushLiteral pending := by
    unfold flushLiteral
    split_ifs <;> simp
  intro rounds
  induction rounds with
  | zero =>
    intro pending fmt tokens h hmem
    cases fmt with
    | nil =>
      cases h
      exact absurd hmem hflush
    | cons c fmt =>
      cases h
      cases hmem
  | succ rounds ih =>
    intro pending fmt tokens h hmem
    cases fmt with
    | nil =>
      cases h
      exact absurd hmem hflush
    | cons c rest =>
      rw [parseLoop] at h
      split_ifs at h with hlit hpercent
      · obtain ⟨pre, used, post, spec', rfl, hscan, hspec⟩ := ih h hmem
        exact ⟨c :: pre, used, post, spec', rfl, hscan, hspec⟩
      · obtain ⟨rest, rfl⟩ := head?_eq_some_iff.1 hpercent
        obtain ⟨pre, used, post, spec', heq, hscan, hspec⟩ := ih h hmem
        rw [tail_cons] at heq
        exact ⟨c :: ascii '%' :: pre, used, post, spec', by rw [heq]; rfl, hscan, hspec⟩
      · obtain rfl : c = ascii '%' := not_not.1 hlit
        cases hscan : scanSpec rest with
        | error e =>
          rw [hscan] at h
          cases h
        | ok r =>
          obtain ⟨spec', post⟩ := r
          obtain ⟨used, rfl, -⟩ := scanSpec_takes hscan
          rw [hscan] at h
          cases hloop : parseLoop rounds [] post with
          | error e =>
            change (parseLoop rounds [] post >>= _) = _ at h
            rw [hloop] at h
            cases h
          | ok more =>
            change (parseLoop rounds [] post >>= _) = _ at h
            rw [hloop] at h
            cases h
            rcases mem_append.1 hmem with hmem | hmem
            · exact absurd hmem hflush
            · rcases mem_cons.1 hmem with heq | hmem
              · refine ⟨[], used, post, spec', rfl, hscan, ?_⟩
                cases heq
                have hlen : 1 + (used ++ post).length - post.length = used.length + 1 := by
                  rw [length_append]
                  omega
                rw [hlen, take_succ_cons, take_left]
              · obtain ⟨pre, used', post', spec'', rfl, hscan', hspec⟩ := ih hloop hmem
                exact ⟨ascii '%' :: (used ++ pre), used', post', spec'', by simp, hscan', hspec⟩

/-- **A bracket directive of a format**: a piece of it, from a `%` on up to a `]`. -/
lemma parseScanFormat_bracket (hparse : parseScanFormat fmt = .ok tokens) (hmem : .directive spec ∈ tokens)
    (hconv : spec.conv = ascii '[') : ∃ pre inner before after, ascii '[' ∉ pre ∧
      spec.original = ascii '%' :: (pre ++ ascii '[' :: (inner ++ [ascii ']'])) ∧
      fmt = before ++ (spec.original ++ after) ∧ ascii ']' ∉ (setBody inner).tail := by
  obtain ⟨before, used, after, spec', rfl, hscan, hspec⟩ := parseLoop_directive hparse hmem
  have hconv' : spec'.conv = ascii '[' := by rw [← hconv, hspec]
  obtain ⟨pre, inner, heq, hpre, hbr⟩ := scanSpec_bracket hscan hconv'
  have hcat : used ++ after = (pre ++ ascii '[' :: (inner ++ [ascii ']'])) ++ after := by
    rw [heq]
    simp
  have hused : used = pre ++ ascii '[' :: (inner ++ [ascii ']']) := append_cancel_right hcat
  refine ⟨pre, inner, before, after, hpre, ?_, ?_, hbr⟩
  · rw [hspec, hused]
  · rw [hspec]
    rfl

lemma bracketBody_eq {pre inner : List Byte} (hpre : ascii '[' ∉ pre) :
    bracketBody (ascii '%' :: (pre ++ ascii '[' :: (inner ++ [ascii ']']))) = inner := by
  have hopen : (ascii '%' :: (pre ++ ascii '[' :: (inner ++ [ascii ']']))).dropWhile (· ≠ ascii '[') =
      ascii '[' :: (inner ++ [ascii ']']) := by
    rw [← cons_append, dropWhile_append_of_pos]
    · rw [dropWhile_cons_of_neg (by simp)]
    · intro c hc
      rcases mem_cons.1 hc with rfl | hc
      · decide
      · rw [decide_eq_true_eq]
        rintro rfl
        exact hpre hc
  unfold bracketBody
  rw [hopen, tail_cons, reverse_append, reverse_singleton, singleton_append,
    dropWhile_cons_of_neg (by simp), tail_cons, reverse_reverse]

end

/-! ### Wide formats -/

lemma le_of_utf8 {wc : BitVec 32} {bytes : List Byte} (h : Format.utf8 wc = some bytes) : wc ≤ 0x10ffff := by
  by_contra hgt
  have hlt : 0x10ffff < wc.toNat := by simpa [BitVec.le_def] using hgt
  unfold Format.utf8 at h
  simp only [BitVec.le_def] at h
  rw [if_neg (by simp; omega), if_neg (by simp; omega), if_neg (by simp; omega), if_neg (by simp; omega)] at h
  cases h

/-- **A byte of ASCII** in the bytes of a wide text is a character of it. -/
lemma utf8Text_split {b : Byte} (hb : ¬IsHigh b) {text : List (BitVec 32)} {x y : List Byte}
    (h : utf8Text text = x ++ b :: y) : ∃ before after, text = before ++ b.setWidth 32 :: after ∧
      utf8Text after = y ∧ ∀ more, utf8Text (before ++ more) = x ++ utf8Text more := by
  induction text generalizing x y with
  | nil =>
    exact absurd h.symm (by simp [utf8Text])
  | cons wc text ih =>
    cases hutf : Format.utf8 wc with
    | none =>
      rw [utf8Text, hutf] at h
      exact absurd h.symm (by simp)
    | some bytes =>
      -- a character before it
      have hbefore (x' : List Byte) (hx : x = bytes ++ x') (htext : utf8Text text = x' ++ b :: y) :
          ∃ before after, wc :: text = before ++ b.setWidth 32 :: after ∧ utf8Text after = y ∧
            ∀ more, utf8Text (before ++ more) = x ++ utf8Text more := by
        obtain ⟨before, after, rfl, hafter, hmore⟩ := ih htext
        refine ⟨wc :: before, after, rfl, hafter, fun more => ?_⟩
        rw [cons_append, utf8Text, hutf]
        dsimp only
        rw [hmore, hx, append_assoc]
      rw [utf8Text, hutf] at h
      rcases append_eq_append_iff.1 h with ⟨x', hx, htext⟩ | ⟨_ | ⟨b', z⟩, hbytes, hz⟩
      · exact hbefore x' hx htext
      · exact hbefore [] (by simpa using hbytes.symm) hz.symm
      · -- the byte is one of this character, which then is ASCII
        obtain ⟨rfl, rfl⟩ := List.cons.inj hz
        by_cases hwc : wc < 0x80
        · rw [utf8_ascii hwc, hbytes, Option.some.injEq] at hutf
          cases x with
          | nil =>
            obtain ⟨rfl, rfl⟩ := List.cons.inj hutf
            exact ⟨[], text, by rw [setWidth_setWidth_ascii hwc]; rfl, rfl, fun more => rfl⟩
          | cons x₀ x => exact absurd (List.cons.inj hutf).2 (by simp)
        · obtain ⟨bytes', hutf', -, hhigh⟩ := utf8_high hwc (le_of_utf8 hutf)
          cases hutf.symm.trans hutf'
          refine absurd (hhigh b ?_) hb
          rw [hbytes]
          exact mem_append_right _ mem_cons_self

/-- **A bracket directive of a wide format** is a piece of it, in UTF-8. -/
lemma exists_wide_directive {fmt : List (BitVec 32)} {spec : ScanDirective} {tokens : List ScanToken}
    (hparse : parseScanFormat (utf8Text fmt) = .ok tokens) (hmem : .directive spec ∈ tokens)
    (hconv : spec.conv = ascii '[') : ∃ text, text <:+: fmt ∧ utf8Text text = spec.original := by
  obtain ⟨pre, inner, before, after, -, horiginal, hfmt, -⟩ := parseScanFormat_bracket hparse hmem hconv
  have hfirst : utf8Text fmt = before ++ ascii '%' :: (pre ++ ascii '[' :: (inner ++ [ascii ']']) ++ after) := by
    rw [hfmt, horiginal]
    rfl
  obtain ⟨left, right, rfl, hright, -⟩ := utf8Text_split (by decide) hfirst
  have hlast : utf8Text right = (pre ++ ascii '[' :: inner) ++ ascii ']' :: after := by
    rw [hright]
    simp
  obtain ⟨middle, rest, rfl, -, hmiddle⟩ := utf8Text_split (by decide) hlast
  refine ⟨(ascii '%').setWidth 32 :: (middle ++ [(ascii ']').setWidth 32]), ⟨left, rest, by simp⟩, ?_⟩
  rw [utf8Text, utf8_ascii (by decide)]
  dsimp only
  have hclose : utf8Text [(ascii ']').setWidth 32] = [ascii ']'] := by decide
  have hopen : ((ascii '%').setWidth 32).setWidth 8 = ascii '%' := by decide
  rw [hmiddle, horiginal, hclose, hopen]
  simp

/-! ### The conversion -/

section

variable {α : Type} {ct : CharType α} {host : ScanHost α} {input : List α} {pos : ℕ} {spec : ScanDirective}
  {argPtr : Word} {wideInput : Bool} {g : GuestHeap} {member : α → Prop}

/-- **What a scanset conversion is for**: it consumes the longest prefix of members that is not empty, or fails. -/
def ScansMembers (member : α → Prop) (field : List α) : Option (ℕ × GuestHeap) → Prop
  | some (consumed, _) => ∃ w, LongestPrefix (fun w => w ≠ [] ∧ ∀ c ∈ w, member c) field w ∧ consumed = w.length
  | none => ¬∃ w, w <+: field ∧ w ≠ [] ∧ ∀ c ∈ w, member c

lemma handleConversion_bracket (hconv : spec.conv = ascii '[') :
    handleConversion ct host input pos spec argPtr wideInput g = handleManualScansetScan ct input pos spec argPtr g := by
  unfold handleConversion
  rw [hconv]
  rfl

lemma take_fieldLimit : (input.drop pos).take (fieldLimit input pos spec) = field spec.width (input.drop pos) := by
  rw [← length_field]
  exact (prefix_iff_eq_take.1 field_isPrefix).symm

lemma scansMembers_matches : ScansMembers (fun c => (parseScanset spec).matches (ct.codepoint c))
    (field spec.width (input.drop pos)) (handleManualScansetScan ct input pos spec argPtr g) := by
  unfold handleManualScansetScan
  dsimp only
  rw [take_fieldLimit]
  generalize htext : (field spec.width (input.drop pos)).takeWhile
    (fun c => (parseScanset spec).matches (ct.codepoint c)) = text
  by_cases hnil : text.length = 0
  · rw [if_pos hnil]
    rw [length_eq_zero_iff, ← htext] at hnil
    exact LongestPrefix.takeWhile_eq_nil_iff.1 hnil
  · have hne : text ≠ [] := fun h => hnil (length_eq_zero_iff.2 h)
    have hlongest := LongestPrefix.of_takeWhile_ne_nil (htext ▸ hne)
    rw [htext] at hlongest
    rw [if_neg hnil]
    split_ifs
    all_goals exact ⟨text, hlongest, rfl⟩

lemma scansMembers_congr {member' : α → Prop} {field : List α} {result : Option (ℕ × GuestHeap)}
    (h : ∀ c, member c ↔ member' c) : ScansMembers member field result ↔ ScansMembers member' field result := by
  have heq : member = member' := funext fun c => propext (h c)
  rw [heq]

lemma scansMembers_singleton {c : α} {result : Option (ℕ × GuestHeap)} (h : ScansMembers member [c] result) :
    result.isSome ↔ member c := by
  cases result with
  | none =>
    constructor
    · nofun
    · intro hc
      exact absurd ⟨[c], prefix_rfl, cons_ne_nil c [], by simpa using hc⟩ h
  | some r =>
    obtain ⟨w, hw, -⟩ := h
    refine ⟨fun _ => ?_, fun _ => rfl⟩
    obtain ⟨hne, hall⟩ := hw.holds
    have hmem : c ∈ w := by
      have hhead := head?_eq_of_isPrefix hw.within hne
      rw [head?_cons] at hhead
      exact mem_of_mem_head? hhead.symm
    exact hall c hmem

lemma scansMembers_nil {member' : α → Prop} {result : Option (ℕ × GuestHeap)} (h : ScansMembers member [] result) :
    ScansMembers member' [] result := by
  cases result with
  | none =>
    rintro ⟨w, hw, hne, -⟩
    exact hne (prefix_nil.1 hw)
  | some r =>
    obtain ⟨w, hw, -⟩ := h
    exact absurd (prefix_nil.1 hw.within) hw.holds.1

lemma field_singleton {c : α} (h : spec.width ≠ some 0) : field spec.width [c] = [c] := by
  unfold field
  cases hwidth : spec.width with
  | none => rfl
  | some width =>
    have hpos : 1 ≤ width.val := by
      rw [hwidth] at h
      refine Nat.one_le_iff_ne_zero.2 fun h0 => h ?_
      rw [show width = 0 from Fin.ext h0]
    exact take_of_length_le hpos

/-- **A conversion keeps to a set**, whatever the input, exactly if it is that of the table or the width is zero. -/
lemma scansMembers_iff (hconv : spec.conv = ascii '[') :
    (∀ input pos argPtr g, ScansMembers member (field spec.width (input.drop pos))
      (handleConversion ct host input pos spec argPtr wideInput g)) ↔
    spec.width = some 0 ∨ ∀ c, (parseScanset spec).matches (ct.codepoint c) ↔ member c := by
  simp only [handleConversion_bracket hconv]
  constructor
  · intro h
    by_cases hwidth : spec.width = some 0
    · exact .inl hwidth
    · right
      intro c
      have hwritten := h [c] 0 0 scanGuest
      have htable : ScansMembers (fun c => (parseScanset spec).matches (ct.codepoint c)) (field spec.width ([c].drop 0))
        (handleManualScansetScan ct [c] 0 spec 0 scanGuest) := scansMembers_matches
      rw [drop_zero, field_singleton hwidth] at hwritten htable
      exact (scansMembers_singleton htable).symm.trans (scansMembers_singleton hwritten)
  · rintro (hwidth | h) input pos argPtr g
    · have hfield : field spec.width (input.drop pos) = [] := by
        rw [hwidth]
        rfl
      have htable : ScansMembers (fun c => (parseScanset spec).matches (ct.codepoint c)) (field spec.width (input.drop pos))
        (handleManualScansetScan ct input pos spec argPtr g) := scansMembers_matches
      rw [hfield] at htable ⊢
      exact scansMembers_nil htable
    · exact (scansMembers_congr h).1 scansMembers_matches

end

lemma codes_utf8Text {text : List (BitVec 32)} (h : ∀ c ∈ text, c < 0x80) : codes (utf8Text text) = codes text := by
  rw [utf8Text_ascii h, codes, codes, map_map]
  refine map_congr_left fun c hc => ?_
  have : c.toNat < 128 := h c hc
  rw [Function.comp_apply, BitVec.toNat_setWidth]
  omega

/-- **Scansets**: every bracket conversion of a narrow format consumes the longest prefix of members of the set that is
written, and fails if it is empty. One of a wide format does so, on every input, exactly if the bytes of its text in
UTF-8, taken for characters, write the same set, or if the width is zero. -/
theorem scanset_iff (tokens : List ScanToken) (spec : ScanDirective) (hmem : .directive spec ∈ tokens)
    (hconv : spec.conv = ascii '[') :
    (∀ (host : ScanHost Byte) (fmt : List Byte), parseScanFormat fmt = .ok tokens →
      spec.original <:+: fmt ∧ ∀ input pos argPtr g,
        ScansMembers (fun c : Byte => InScanset (codes spec.original) c.toNat) (field spec.width (input.drop pos))
          (handleConversion narrow host input pos spec argPtr false g)) ∧
    ∀ (host : ScanHost (BitVec 32)) (iswspace : BitVec 32 → Bool) (fmt : List (BitVec 32)),
      parseScanFormat (utf8Text fmt) = .ok tokens →
      (∃ text, text <:+: fmt ∧ utf8Text text = spec.original) ∧
      ∀ text, text <:+: fmt → utf8Text text = spec.original →
        ((∀ input pos argPtr g,
          ScansMembers (fun c : BitVec 32 => InScanset (codes text) c.toNat) (field spec.width (input.drop pos))
            (handleConversion (wide iswspace) host input pos spec argPtr true g)) ↔
          spec.width = some 0 ∨
            ∀ c : BitVec 32, InScanset (codes (utf8Text text)) c.toNat ↔ InScanset (codes text) c.toNat) := by
  have htable {fmt : List Byte} (hparse : parseScanFormat fmt = .ok tokens) (cp : BitVec 32) :
      (parseScanset spec).matches cp ↔ InScanset (codes spec.original) cp.toNat := by
    obtain ⟨pre, inner, before, after, hpre, horiginal, -, hbr⟩ := parseScanFormat_bracket hparse hmem hconv
    refine matches_iff ?_ cp
    rwa [horiginal, bracketBody_eq hpre]
  constructor
  · intro host fmt hparse
    obtain ⟨pre, inner, before, after, -, -, hfmt, -⟩ := parseScanFormat_bracket hparse hmem hconv
    refine ⟨⟨before, after, by rw [hfmt, append_assoc]⟩, (scansMembers_iff hconv).2 (.inr fun c => ?_)⟩
    rw [htable hparse]
    show InScanset _ (c.setWidth 32).toNat ↔ _
    rw [toNat_setWidth_byte]
  · intro host iswspace fmt hparse
    refine ⟨exists_wide_directive hparse hmem hconv, fun text _ htext => ?_⟩
    refine (scansMembers_iff hconv).trans (or_congr_right (forall_congr' fun c => ?_))
    rw [htable hparse, htext]
    rfl

/-- The directive `%[a-c]`, and its text in a wide format. -/
def lettersSpec : ScanDirective := ⟨Format.chars ['%', '[', 'a', '-', 'c', ']'], false, false, none, .none, ascii '['⟩

def lettersText : List (BitVec 32) := [0x25, 0x5b, 0x61, 0x2d, 0x63, 0x5d]

/-- `%[a-c]`, narrow and wide. -/
theorem scanset_letters :
    (∀ input pos argPtr g, ScansMembers (fun c : Byte => InScanset (codes lettersSpec.original) c.toNat) (input.drop pos)
      (handleConversion narrow (noHost _) input pos lettersSpec argPtr false g)) ∧
    ∀ input pos argPtr g, ScansMembers (fun c : BitVec 32 => InScanset (codes lettersText) c.toNat) (input.drop pos)
      (handleConversion (wide iswspaceC) (noHost _) input pos lettersSpec argPtr true g) := by
  obtain ⟨hnarrow, hwide⟩ := scanset_iff [.directive lettersSpec] lettersSpec mem_cons_self rfl
  have hascii : ∀ c ∈ lettersText, c < 0x80 := by simp [lettersText]
  refine ⟨(hnarrow (noHost _) lettersSpec.original (by decide +kernel)).2, ?_⟩
  refine ((hwide (noHost _) iswspaceC lettersText (by decide +kernel)).2 lettersText infix_rfl
    (by decide +kernel)).2 (.inr fun c => ?_)
  rw [codes_utf8Text hascii]

/-- The directive `%[é]`, in UTF-8. -/
def accentSpec : ScanDirective := ⟨[0x25, 0x5b, 0xc3, 0xa9, 0x5d], false, false, none, .none, ascii '['⟩

/-- **The set of `é`**, in a wide format: `é` is in the set, and the conversion fails on it. -/
theorem scanset_accent :
    parseScanFormat (utf8Text [0x25, 0x5b, 0xe9, 0x5d]) = .ok [.directive accentSpec] ∧
    InScanset (codes [0x25, 0x5b, 0xe9, (0x5d : BitVec 32)]) 0xe9 ∧
    handleConversion (wide iswspaceC) (noHost _) [0xe9] 0 accentSpec 0 true scanGuest = none := by
  rw [handleConversion_bracket rfl]
  exact ⟨by decide +kernel, by decide +kernel, rfl⟩

end CrossShim.Stdio.Scan
