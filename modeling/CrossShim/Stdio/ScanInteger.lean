import CrossShim.Lib.LongestPrefix
import CrossShim.Stdio.Scan

/-!
# Integers of `scanf`

`parse_integer_value` takes the longest numeral off the input: `parseIntegerValue_iff`.  A numeral is a sign, the letters
of a base and digits of that base, as the conversion allows them.  `readNumeral` is the scanner on the list of characters
that the field has; the loop of the source gives its numeral, with the value modulo 2⁶⁴.
-/

namespace CrossShim.Stdio.Scan

open Lib List Option
open Format (ascii oneOf)

/-! ### Numerals -/

def letter (c : Char) : BitVec 32 := (ascii c).setWidth 32

/-- What may stand before the digits in a conversion, and the base that the digits then have. -/
def numeralBases (conv : Byte) : List (List Char × ℕ) :=
  if oneOf ['d', 'u'] conv then [([], 10)]
  else if conv = ascii 'o' then [([], 8)]
  else if oneOf ['x', 'X', 'p'] conv then [([], 16), (['0', 'x'], 16), (['0', 'X'], 16)]
  else if conv = ascii 'b' then [([], 2), (['0', 'b'], 2), (['0', 'B'], 2)]
  else if conv = ascii 'i' then
    [(['0', 'x'], 16), (['0', 'X'], 16), (['0', 'b'], 2), (['0', 'B'], 2), ([], 8), ([], 10)]
  else []

structure Numeral where
  sign : List Char
  lead : List Char
  base : ℕ
  digits : List (BitVec 32)

namespace Numeral

def text (n : Numeral) : List (BitVec 32) := n.sign.map letter ++ (n.lead.map letter ++ n.digits)

def magnitude (n : Numeral) : ℕ := Nat.ofDigits n.base (n.digits.reverse.map fun c => (digitValue c).toNat)

def value (n : Numeral) : ℤ := if n.sign = ['-'] then -n.magnitude else n.magnitude

/-- **A numeral that the conversion allows.**  In `%i` digits without letters before them are octal if the first is a
`0`, and decimal otherwise. -/
structure Fits (n : Numeral) (conv : Byte) : Prop where
  sign : n.sign = [] ∨ conv ≠ ascii 'p' ∧ (n.sign = ['+'] ∨ n.sign = ['-'])
  lead : (n.lead, n.base) ∈ numeralBases conv
  ne_nil : n.digits ≠ []
  digits : ∀ c ∈ n.digits, IsDigitOf n.base c
  octal : conv = ascii 'i' → n.lead = [] → (n.base = 8 ↔ n.digits.head? = some (letter '0'))

end Numeral

open Numeral

def IsNumeral (conv : Byte) (w : List (BitVec 32)) : Prop := ∃ n : Numeral, n.Fits conv ∧ n.text = w

/-! ### The scanner, on the characters of the field -/

def frontDigits (base : ℕ) (cs : List (BitVec 32)) : List (BitVec 32) := cs.takeWhile fun c => IsDigitOf base c

/-- A `0`, the letter and a digit of the base. -/
def Leads (base : ℕ) (c : Char) (cs : List (BitVec 32)) : Prop :=
  cs.take 2 = [letter '0', letter c] ∧ frontDigits base (cs.drop 2) ≠ []

instance (base : ℕ) (c : Char) (cs : List (BitVec 32)) : Decidable (Leads base c cs) := by
  unfold Leads
  infer_instance

def chooseLead (cs : List (BitVec 32)) : ℕ × Bool → List Char × ℕ
  | (0, _) =>
    if Leads 16 'x' cs then (['0', 'x'], 16)
    else if Leads 16 'X' cs then (['0', 'X'], 16)
    else if Leads 2 'b' cs then (['0', 'b'], 2)
    else if Leads 2 'B' cs then (['0', 'B'], 2)
    else if cs.head? = some (letter '0') then ([], 8)
    else ([], 10)
  | (base, true) =>
    if Leads base (if base = 16 then 'x' else 'b') cs then (['0', if base = 16 then 'x' else 'b'], base)
    else if Leads base (if base = 16 then 'X' else 'B') cs then (['0', if base = 16 then 'X' else 'B'], base)
    else ([], base)
  | (base, false) => ([], base)

def chooseSign (conv : Byte) (cs : List (BitVec 32)) : List Char :=
  if conv = ascii 'p' then []
  else if cs.head? = some (letter '+') then ['+']
  else if cs.head? = some (letter '-') then ['-']
  else []

def readNumeral (conv : Byte) (rule : ℕ × Bool) (cs : List (BitVec 32)) : Option Numeral :=
  let sign := chooseSign conv cs
  let rest := cs.drop sign.length
  let (lead, base) := chooseLead rest rule
  let digits := frontDigits base (rest.drop lead.length)
  if digits = [] then none else some ⟨sign, lead, base, digits⟩

/-! ### Characters that are no digits -/

variable {base : ℕ} {c : Char}

lemma not_isDigitOf_letter (hb : base ≤ 16) (hc : c = 'x' ∨ c = 'X') : ¬IsDigitOf base (letter c) := by
  have hv : digitValue (letter c) = 33 := by
    rcases hc with rfl | rfl
    · decide
    · decide
  unfold IsDigitOf
  omega

lemma not_isDigitOf_letter_b (hb : base ≤ 11) (hc : c = 'b' ∨ c = 'B') : ¬IsDigitOf base (letter c) := by
  have hv : digitValue (letter c) = 11 := by
    rcases hc with rfl | rfl
    · decide
    · decide
  unfold IsDigitOf
  omega

lemma not_isDigitOf_sign (hc : c = '+' ∨ c = '-') : ¬IsDigitOf base (letter c) := by
  have hv : digitValue (letter c) = -1 := by
    rcases hc with rfl | rfl
    · decide
    · decide
  unfold IsDigitOf
  omega

section

variable {conv : Byte} {base base' : ℕ} {c : Char} {cs ds : List (BitVec 32)} {rule : ℕ × Bool}

lemma length_le_frontDigits (hds : ds <+: cs) (hd : ∀ c ∈ ds, IsDigitOf base c) :
    ds.length ≤ (frontDigits base cs).length :=
  LongestPrefix.length_le_takeWhile hds (by simpa using hd)

lemma Leads.length_le_one (h : Leads base c cs) (hc : ¬IsDigitOf base' (letter c)) (hds : ds <+: cs)
    (hd : ∀ c ∈ ds, IsDigitOf base' c) : ds.length ≤ 1 := by
  by_contra hlen
  have htake : ds.take 2 = [letter '0', letter c] := by
    rw [← h.1]
    obtain ⟨t, rfl⟩ := hds
    rw [take_append_of_le_length (by omega)]
  exact hc (hd _ (mem_of_mem_take (by rw [htake]; simp)))

lemma letter_inj {a b : Char} (ha : a.toNat < 256) (hb : b.toNat < 256) (h : letter a = letter b) : a = b := by
  have hto : ∀ {c : Char}, c.toNat < 256 → (letter c).toNat = c.toNat := by
    intro c hc
    unfold letter ascii
    rw [BitVec.toNat_setWidth, BitVec.toNat_ofNat]
    omega
  have hval : (letter a).toNat = (letter b).toNat := by rw [h]
  rw [hto ha, hto hb] at hval
  exact Char.toNat_inj.1 hval

lemma head?_eq_of_isPrefix {α : Type} {w l : List α} (hw : w <+: l) (hne : w ≠ []) : l.head? = w.head? := by
  obtain ⟨t, rfl⟩ := hw
  exact head?_append_of_ne_nil w hne

/-! ### The longest numeral -/

/-- A base that is written before the digits, as a `0` and one of two letters. -/
inductive Lettered : ℕ → Char → Char → Prop
  | hex : Lettered 16 'x' 'X'
  | binary : Lettered 2 'b' 'B'

lemma Lettered.not_isDigitOf {lower upper : Char} (hl : Lettered base lower upper) (hc : c = lower ∨ c = upper) :
    ¬IsDigitOf base (letter c) := by
  cases hl with
  | hex => exact not_isDigitOf_letter le_rfl hc
  | binary => exact not_isDigitOf_letter_b (by decide) hc

lemma conversionBase_cases (h : conversionBase conv = some rule) :
    (∃ base, rule = (base, false) ∧ base ≠ 0 ∧ numeralBases conv = [([], base)] ∧ conv ≠ ascii 'i') ∨
    (∃ base lower upper, Lettered base lower upper ∧ rule = (base, true) ∧
      numeralBases conv = [([], base), (['0', lower], base), (['0', upper], base)] ∧ conv ≠ ascii 'i') ∨
    (rule = (0, false) ∧ conv = ascii 'i') := by
  unfold conversionBase at h
  split_ifs at h with h1 h2 h3 h4 h5
  · cases h
    refine .inl ⟨10, rfl, by decide, by rw [numeralBases, if_pos h1], ?_⟩
    rintro rfl
    exact absurd h1 (by decide)
  · cases h
    subst h2
    exact .inl ⟨8, rfl, by decide, rfl, by decide⟩
  · cases h
    refine .inr (.inl ⟨_, _, _, .hex, rfl, by rw [numeralBases, if_neg h1, if_neg h2, if_pos h3], ?_⟩)
    rintro rfl
    exact absurd h3 (by decide)
  · cases h
    subst h4
    exact .inr (.inl ⟨_, _, _, .binary, rfl, rfl, by decide⟩)
  · cases h
    exact .inr (.inr ⟨rfl, h5⟩)

lemma mem_lettered {lead : List Char} {lower upper : Char} :
    (lead, base') ∈ [([], base), (['0', lower], base), (['0', upper], base)] ↔
      (lead = [] ∨ lead = ['0', lower] ∨ lead = ['0', upper]) ∧ base' = base := by
  simp only [mem_cons, Prod.mk.injEq, not_mem_nil, or_false, or_and_right]

lemma mem_numeralBases_i {lead : List Char} : (lead, base) ∈ numeralBases (ascii 'i') ↔
    ((lead = ['0', 'x'] ∨ lead = ['0', 'X']) ∧ base = 16) ∨ ((lead = ['0', 'b'] ∨ lead = ['0', 'B']) ∧ base = 2) ∨
      (lead = [] ∧ (base = 8 ∨ base = 10)) := by
  have hi : numeralBases (ascii 'i') =
      [(['0', 'x'], 16), (['0', 'X'], 16), (['0', 'b'], 2), (['0', 'B'], 2), ([], 8), ([], 10)] := by decide
  rw [hi]
  simp only [mem_cons, Prod.mk.injEq, not_mem_nil, or_false]
  tauto

/-- The choice between digits alone and two ways of writing the base before them. -/
def chooseLetter (base : ℕ) (lower upper : Char) (cs : List (BitVec 32)) : List Char × ℕ :=
  if Leads base lower cs then (['0', lower], base)
  else if Leads base upper cs then (['0', upper], base)
  else ([], base)

lemma chooseLead_plain (h : base ≠ 0) : chooseLead cs (base, false) = ([], base) := by
  cases base with
  | zero => exact absurd rfl h
  | succ base => rfl

lemma Lettered.chooseLead {lower upper : Char} (hl : Lettered base lower upper) :
    chooseLead cs (base, true) = chooseLetter base lower upper cs := by
  cases hl <;> rfl

/-- The letters of a choice are there, with a digit after them. -/
def Stands (cs : List (BitVec 32)) (choice : List Char × ℕ) : Prop :=
  choice.1.map letter <+: cs ∧ (choice.1 ≠ [] → frontDigits choice.2 (cs.drop choice.1.length) ≠ [])

lemma stands_nil : Stands cs ([], base) := ⟨ nil_prefix, fun h => absurd rfl h⟩

lemma Leads.stands (h : Leads base c cs) : Stands cs (['0', c], base) := by
  refine ⟨?_, fun _ => h.2⟩
  have := take_prefix 2 cs
  rwa [h.1] at this

lemma chooseLetter_fits {lower upper : Char} :
    chooseLetter base lower upper cs ∈ [([], base), (['0', lower], base), (['0', upper], base)] ∧
      Stands cs (chooseLetter base lower upper cs) := by
  unfold chooseLetter
  split_ifs with h1 h2
  · exact ⟨by simp, h1.stands⟩
  · exact ⟨by simp, h2.stands⟩
  · exact ⟨by simp, stands_nil⟩

lemma chooseLead_fits (cs : List (BitVec 32)) (h : conversionBase conv = some rule) :
    chooseLead cs rule ∈ numeralBases conv ∧ Stands cs (chooseLead cs rule) ∧
    (conv = ascii 'i' → (chooseLead cs rule).1 = [] → ((chooseLead cs rule).2 = 8 ↔ cs.head? = some (letter '0'))) := by
  obtain ⟨base, rfl, h0, hb, hi⟩ | ⟨base, lower, upper, hl, rfl, hb, hi⟩ | ⟨rfl, rfl⟩ := conversionBase_cases h
  · rw [hb, chooseLead_plain h0]
    exact ⟨mem_singleton.2 rfl, stands_nil, fun hc => absurd hc hi⟩
  · rw [hb, hl.chooseLead]
    exact ⟨chooseLetter_fits.1, chooseLetter_fits.2, fun hc => absurd hc hi⟩
  · rw [chooseLead]
    split_ifs with h1 h2 h3 h4 h5
    · exact ⟨by decide, h1.stands, fun _ hnil => absurd hnil (by simp)⟩
    · exact ⟨by decide, h2.stands, fun _ hnil => absurd hnil (by simp)⟩
    · exact ⟨by decide, h3.stands, fun _ hnil => absurd hnil (by simp)⟩
    · exact ⟨by decide, h4.stands, fun _ hnil => absurd hnil (by simp)⟩
    · exact ⟨by decide, stands_nil, fun _ _ => by simp [h5]⟩
    · exact ⟨by decide, stands_nil, fun _ _ => by simp [h5]⟩

end

section

variable {conv : Byte} {rule : ℕ × Bool} {cs : List (BitVec 32)} {n n' : Numeral} {base : ℕ} {c : Char}

/-- The characters that a choice of letters takes. -/
def reachOf (cs : List (BitVec 32)) (choice : List Char × ℕ) : ℕ :=
  choice.1.length + (frontDigits choice.2 (cs.drop choice.1.length)).length

lemma length_le_reachOf_leads {base' : ℕ} {ds : List (BitVec 32)} (hl : Leads base c cs)
    (hc : ¬IsDigitOf base' (letter c)) (hds : ds <+: cs) (hd : ∀ c ∈ ds, IsDigitOf base' c) :
    ds.length ≤ reachOf cs (['0', c], base) := by
  have := hl.length_le_one hc hds hd
  unfold reachOf
  simp only [length_cons]
  omega

lemma leads_of_reads {ds : List (BitVec 32)} (hds : ['0', c].map letter ++ ds <+: cs) (hne : ds ≠ [])
    (hd : ∀ c ∈ ds, IsDigitOf base c) : Leads base c cs ∧ ['0', c].length + ds.length ≤ reachOf cs (['0', c], base) := by
  obtain ⟨t, rfl⟩ := hds
  have hlen : ds.length ≤ (frontDigits base (ds ++ t)).length := length_le_frontDigits (prefix_append ds t) hd
  refine ⟨⟨rfl, ?_⟩, Nat.add_le_add_left hlen 2⟩
  intro hnil
  have hnil' : frontDigits base (ds ++ t) = [] := hnil
  rw [hnil', length_nil] at hlen
  exact hne (length_eq_zero_iff.1 (by omega))

lemma length_le_reachOf_prefixed {lower upper : Char} (hlower : ¬IsDigitOf base (letter lower))
    (hupper : ¬IsDigitOf base (letter upper)) (hlead : n.lead = [] ∨ n.lead = ['0', lower] ∨ n.lead = ['0', upper])
    (hne : n.digits ≠ []) (hd : ∀ c ∈ n.digits, IsDigitOf base c) (hpre : n.lead.map letter ++ n.digits <+: cs) :
    n.lead.length + n.digits.length ≤ reachOf cs (chooseLetter base lower upper cs) := by
  unfold chooseLetter
  rcases hlead with hlead | hlead | hlead <;> rw [hlead] at hpre ⊢
  · rw [length_nil, Nat.zero_add]
    split_ifs with h1 h2
    · exact length_le_reachOf_leads h1 hlower hpre hd
    · exact length_le_reachOf_leads h2 hupper hpre hd
    · exact (length_le_frontDigits hpre hd).trans (Nat.le_add_left ..)
  · obtain ⟨h1, hle⟩ := leads_of_reads hpre hne hd
    rw [if_pos h1]
    exact hle
  · obtain ⟨h2, hle⟩ := leads_of_reads hpre hne hd
    rw [if_pos h2]
    split_ifs
    · exact hle
    · exact hle

lemma length_le_reachOf_i (hn : n.Fits (ascii 'i')) (hpre : n.lead.map letter ++ n.digits <+: cs) :
    n.lead.length + n.digits.length ≤ reachOf cs (chooseLead cs (0, false)) := by
  have hx : ∀ {base}, base ≤ 16 → ¬IsDigitOf base (letter 'x') := fun hb => not_isDigitOf_letter hb (.inl rfl)
  have hX : ∀ {base}, base ≤ 16 → ¬IsDigitOf base (letter 'X') := fun hb => not_isDigitOf_letter hb (.inr rfl)
  have hb : ∀ {base}, base ≤ 11 → ¬IsDigitOf base (letter 'b') := fun hb => not_isDigitOf_letter_b hb (.inl rfl)
  have hB : ∀ {base}, base ≤ 11 → ¬IsDigitOf base (letter 'B') := fun hb => not_isDigitOf_letter_b hb (.inr rfl)
  have hclash : ∀ {base base' c c'}, letter c ≠ letter c' → Leads base c cs → ¬Leads base' c' cs := by
    intro base base' c c' hne h1 h2
    have := h1.1.symm.trans h2.1
    simp only [List.cons.injEq] at this
    exact hne this.2.1
  rw [chooseLead]
  have hd {base : ℕ} (hbase : n.base = base) : ∀ c ∈ n.digits, IsDigitOf base c := hbase ▸ hn.digits
  have hleads {base : ℕ} {c : Char} (hlead : n.lead = ['0', c]) (hbase : n.base = base) :
      Leads base c cs ∧ n.lead.length + n.digits.length ≤ reachOf cs (['0', c], base) := by
    rw [hlead] at hpre ⊢
    exact leads_of_reads hpre hn.ne_nil (hd hbase)
  rcases mem_numeralBases_i.1 hn.lead with ⟨hlead | hlead, hbase⟩ | ⟨hlead | hlead, hbase⟩ | ⟨hlead, hbase⟩
  · obtain ⟨h1, hle⟩ := hleads hlead hbase
    rwa [if_pos h1]
  · obtain ⟨h1, hle⟩ := hleads hlead hbase
    rwa [if_neg (hclash (by decide) h1), if_pos h1]
  · obtain ⟨h1, hle⟩ := hleads hlead hbase
    rwa [if_neg (hclash (by decide) h1), if_neg (hclash (by decide) h1), if_pos h1]
  · obtain ⟨h1, hle⟩ := hleads hlead hbase
    rwa [if_neg (hclash (by decide) h1), if_neg (hclash (by decide) h1), if_neg (hclash (by decide) h1), if_pos h1]
  · have hoct := hn.octal rfl hlead
    rw [hlead] at hpre ⊢
    have hpre' : n.digits <+: cs := hpre
    rw [← head?_eq_of_isPrefix hpre' hn.ne_nil] at hoct
    rw [length_nil, Nat.zero_add]
    split_ifs with h1 h2 h3 h4 h5
    · exact length_le_reachOf_leads h1 (hx (by omega)) hpre' hn.digits
    · exact length_le_reachOf_leads h2 (hX (by omega)) hpre' hn.digits
    · exact length_le_reachOf_leads h3 (hb (by omega)) hpre' hn.digits
    · exact length_le_reachOf_leads h4 (hB (by omega)) hpre' hn.digits
    · exact (length_le_frontDigits hpre' (hd (hoct.2 h5))).trans (Nat.le_add_left ..)
    · have hten : n.base = 10 := hbase.resolve_left fun h8 => h5 (hoct.1 h8)
      exact (length_le_frontDigits hpre' (hd hten)).trans (Nat.le_add_left ..)

section

variable (h : conversionBase conv = some rule) (hn : n.Fits conv)
include h hn

lemma length_le_reachOf (hpre : n.lead.map letter ++ n.digits <+: cs) :
    n.lead.length + n.digits.length ≤ reachOf cs (chooseLead cs rule) := by
  have hlead := hn.lead
  have hd := hn.digits
  obtain ⟨base, rfl, h0, hb, -⟩ | ⟨base, lower, upper, hl, rfl, hb, -⟩ | ⟨rfl, rfl⟩ := conversionBase_cases h
  · rw [hb, mem_singleton, Prod.mk.injEq] at hlead
    rw [hlead.2] at hd
    rw [hlead.1] at hpre ⊢
    rw [chooseLead_plain h0, length_nil, Nat.zero_add]
    exact (length_le_frontDigits hpre hd).trans (Nat.le_add_left ..)
  · rw [hb] at hlead
    obtain ⟨hlead, hbase⟩ := mem_lettered.1 hlead
    rw [hbase] at hd
    rw [hl.chooseLead]
    exact length_le_reachOf_prefixed (hl.not_isDigitOf (.inl rfl)) (hl.not_isDigitOf (.inr rfl)) hlead hn.ne_nil hd hpre
  · exact length_le_reachOf_i hn hpre

lemma lead_cases : n.lead = [] ∨ ∃ c, n.lead = ['0', c] := by
  have hlead := hn.lead
  obtain ⟨base, rfl, h0, hb, -⟩ | ⟨base, lower, upper, hl, rfl, hb, -⟩ | ⟨rfl, rfl⟩ := conversionBase_cases h
  · rw [hb, mem_singleton, Prod.mk.injEq] at hlead
    exact .inl hlead.1
  · rw [hb] at hlead
    rcases (mem_lettered.1 hlead).1 with h | h | h
    exacts [.inl h, .inr ⟨_, h⟩, .inr ⟨_, h⟩]
  · rcases mem_numeralBases_i.1 hlead with ⟨h | h, -⟩ | ⟨h | h, -⟩ | ⟨h, -⟩
    exacts [.inr ⟨_, h⟩, .inr ⟨_, h⟩, .inr ⟨_, h⟩, .inr ⟨_, h⟩, .inl h]

lemma head?_ne_sign (hc : c = '+' ∨ c = '-') : (n.lead.map letter ++ n.digits).head? ≠ some (letter c) := by
  intro heq
  rcases lead_cases h hn with hlead | ⟨l, hlead⟩
  · rw [hlead, map_nil, nil_append] at heq
    exact not_isDigitOf_sign hc (hn.digits _ (mem_of_mem_head? heq))
  · rw [hlead, map_cons, cons_append, head?_cons, Option.some.injEq] at heq
    rcases hc with rfl | rfl
    · exact absurd heq (by decide)
    · exact absurd heq (by decide)

lemma sign_eq_chooseSign (hpre : n.text <+: cs) : n.sign = chooseSign conv cs := by
  have hne : n.text ≠ [] := by
    intro hnil
    simp only [text, append_eq_nil_iff] at hnil
    exact hn.ne_nil hnil.2.2
  have hhead : cs.head? = n.text.head? := head?_eq_of_isPrefix hpre hne
  unfold chooseSign
  rcases hn.sign with hs | ⟨hp, hs | hs⟩
  · have hplus := head?_ne_sign h hn (c := '+') (.inl rfl)
    have hminus := head?_ne_sign h hn (c := '-') (.inr rfl)
    rw [text, hs, map_nil, nil_append] at hhead
    rw [← hhead] at hplus hminus
    rw [if_neg hplus, if_neg hminus, hs, ite_self]
  · rw [text, hs] at hhead
    have hhead' : cs.head? = some (letter '+') := hhead
    rw [if_neg hp, if_pos hhead', hs]
  · rw [text, hs] at hhead
    have hhead' : cs.head? = some (letter '-') := hhead
    rw [if_neg hp, if_neg (by rw [hhead']; decide), if_pos hhead', hs]

end

lemma isDigitOf_letter (hn : n.Fits conv) (hlead : n.lead = []) (hlead' : n'.lead = ['0', c])
    (heq : n.lead.map letter ++ n.digits = n'.lead.map letter ++ n'.digits) : IsDigitOf n.base (letter c) := by
  rw [hlead, hlead'] at heq
  refine hn.digits _ ?_
  have heq' : n.digits = letter '0' :: letter c :: n'.digits := heq
  rw [heq']
  exact mem_cons_of_mem _ mem_cons_self

lemma numeralBases_letters (h : conversionBase conv = some rule) {b : ℕ} (hc : (['0', c], b) ∈ numeralBases conv) :
    ((c = 'x' ∨ c = 'X') ∧ b = 16 ∨ (c = 'b' ∨ c = 'B') ∧ b = 2) ∧
      ∀ b', ([], b') ∈ numeralBases conv → ¬IsDigitOf b' (letter c) := by
  obtain ⟨base, rfl, h0, hb, -⟩ | ⟨base, lower, upper, hl, rfl, hb, -⟩ | ⟨rfl, rfl⟩ := conversionBase_cases h
  · rw [hb] at hc
    simp at hc
  · rw [hb] at hc ⊢
    obtain ⟨hletter, rfl⟩ : (c = lower ∨ c = upper) ∧ b = base := by simpa using mem_lettered.1 hc
    refine ⟨?_, fun b' hb' => ?_⟩
    · cases hl with
      | hex => exact .inl ⟨hletter, rfl⟩
      | binary => exact .inr ⟨hletter, rfl⟩
    · rw [(mem_lettered.1 hb').2]
      exact hl.not_isDigitOf hletter
  · have hx : (c = 'x' ∨ c = 'X') ∧ b = 16 ∨ (c = 'b' ∨ c = 'B') ∧ b = 2 := by simpa using mem_numeralBases_i.1 hc
    refine ⟨hx, fun b' hb' => ?_⟩
    have hb'' : b' = 8 ∨ b' = 10 := by simpa using mem_numeralBases_i.1 hb'
    rcases hx with hx | hx
    · exact not_isDigitOf_letter (by omega) hx.1
    · exact not_isDigitOf_letter_b (by omega) hx.1

/-- **A text is read in one way**: a letter before the digits is no digit of the bases without letters. -/
lemma lead_unique (h : conversionBase conv = some rule) (hn : n.Fits conv) (hn' : n'.Fits conv)
    (heq : n.lead.map letter ++ n.digits = n'.lead.map letter ++ n'.digits) : n.lead = n'.lead := by
  have hmem := hn.lead
  have hmem' := hn'.lead
  rcases lead_cases h hn with hlead | ⟨c, hlead⟩ <;> rcases lead_cases h hn' with hlead' | ⟨c', hlead'⟩ <;>
    rw [hlead] at hmem <;> rw [hlead'] at hmem'
  · rw [hlead, hlead']
  · have hd := isDigitOf_letter hn hlead hlead' heq
    exact absurd hd ((numeralBases_letters h hmem').2 _ hmem)
  · have hd := isDigitOf_letter hn' hlead' hlead heq.symm
    exact absurd hd ((numeralBases_letters h hmem).2 _ hmem')
  · rw [hlead, hlead'] at heq ⊢
    have hsmall : ∀ {c b}, (['0', c], b) ∈ numeralBases conv → c.toNat < 256 := by
      intro c b hc
      rcases (numeralBases_letters h hc).1 with ⟨rfl | rfl, -⟩ | ⟨rfl | rfl, -⟩ <;> decide
    simp only [map_cons, map_nil, cons_append, nil_append, List.cons.injEq, true_and] at heq
    rw [letter_inj (hsmall hmem) (hsmall hmem') heq.1]

lemma base_unique (h : conversionBase conv = some rule) (hn : n.Fits conv) (hn' : n'.Fits conv)
    (hlead : n.lead = n'.lead) (hdigits : n.digits = n'.digits) : n.base = n'.base := by
  have hmem := hn.lead
  have hmem' := hn'.lead
  rcases lead_cases h hn with hnil | ⟨c, hc⟩
  · rw [← hlead, hnil] at hmem'
    rw [hnil] at hmem
    obtain ⟨base, rfl, h0, hb, -⟩ | ⟨base, lower, upper, hl, rfl, hb, -⟩ | ⟨rfl, rfl⟩ := conversionBase_cases h
    · rw [hb] at hmem hmem'
      simp only [mem_singleton, Prod.mk.injEq, true_and] at hmem hmem'
      rw [hmem, hmem']
    · rw [hb] at hmem hmem'
      rw [(mem_lettered.1 hmem).2, (mem_lettered.1 hmem').2]
    · have h1 : n.base = 8 ∨ n.base = 10 := by simpa using mem_numeralBases_i.1 hmem
      have h2 : n'.base = 8 ∨ n'.base = 10 := by simpa using mem_numeralBases_i.1 hmem'
      have hoct : n.base = 8 ↔ n'.base = 8 := by
        rw [hn.octal rfl hnil, hn'.octal rfl (hlead ▸ hnil), hdigits]
      omega
  · rw [← hlead, hc] at hmem'
    rw [hc] at hmem
    rcases (numeralBases_letters h hmem).1 with ⟨hx, h1⟩ | ⟨hx, h1⟩ <;>
      rcases (numeralBases_letters h hmem').1 with ⟨hy, h2⟩ | ⟨hy, h2⟩
    · rw [h1, h2]
    · rcases hx with rfl | rfl <;> simp at hy
    · rcases hx with rfl | rfl <;> simp at hy
    · rw [h1, h2]

lemma Numeral.Fits.unique {n n' : Numeral} (h : conversionBase conv = some rule) (hn : n.Fits conv) (hn' : n'.Fits conv)
    (heq : n.text = n'.text) : n = n' := by
  have hsign : n.sign = n'.sign := by
    have h1 : n.sign = chooseSign conv n.text := sign_eq_chooseSign h hn prefix_rfl
    have h2 : n'.sign = chooseSign conv n.text := sign_eq_chooseSign h hn' (heq ▸ prefix_rfl)
    rw [h1, h2]
  have hrest : n.lead.map letter ++ n.digits = n'.lead.map letter ++ n'.digits := by
    have := heq
    rw [text, text, hsign] at this
    exact append_cancel_left this
  have hlead := lead_unique h hn hn' hrest
  have hdigits : n.digits = n'.digits := by
    rw [hlead] at hrest
    exact append_cancel_left hrest
  have hbase := base_unique h hn hn' hlead hdigits
  cases n
  cases n'
  simp only at hsign hlead hdigits hbase
  rw [hsign, hlead, hdigits, hbase]

lemma chooseSign_isPrefix : (chooseSign conv cs).map letter <+: cs := by
  have hone : ∀ {c}, cs.head? = some (letter c) → [c].map letter <+: cs := by
    intro c hc
    cases cs with
    | nil => cases hc
    | cons a cs =>
      cases hc
      exact ⟨cs, rfl⟩
  unfold chooseSign
  split_ifs with h1 h2 h3
  exacts [ nil_prefix, hone h2, hone h3, nil_prefix]

lemma prefix_append_of_drop {α : Type} {v w l : List α} (hv : v <+: l) (hw : w <+: l.drop v.length) : v ++ w <+: l := by
  obtain ⟨t, rfl⟩ := hv
  rw [drop_left] at hw
  exact (prefix_append_right_inj v).2 hw

lemma readNumeral_eq {rest : List (BitVec 32)} {lead : List Char} (hrest : cs.drop (chooseSign conv cs).length = rest)
    (hch : chooseLead rest rule = (lead, base)) :
    readNumeral conv rule cs = if frontDigits base (rest.drop lead.length) = [] then none
      else some ⟨chooseSign conv cs, lead, base, frontDigits base (rest.drop lead.length)⟩ := by
  unfold readNumeral
  simp only [hrest, hch]

lemma readNumeral_fits (h : conversionBase conv = some rule) (hread : readNumeral conv rule cs = some n) :
    n.Fits conv ∧ n.text <+: cs := by
  generalize hrest : cs.drop (chooseSign conv cs).length = rest
  obtain ⟨hbases, ⟨hlead, -⟩, hoct⟩ := chooseLead_fits rest h
  obtain ⟨⟨lead, base⟩, hch⟩ : ∃ choice, chooseLead rest rule = choice := ⟨_, rfl⟩
  rw [readNumeral_eq hrest hch] at hread
  rw [hch] at hbases hlead hoct
  split_ifs at hread with hne
  cases hread
  have hfront : frontDigits base (rest.drop lead.length) <+: rest.drop lead.length := takeWhile_prefix _
  refine ⟨⟨?_, hbases, hne, ?_, ?_⟩, ?_⟩
  · unfold chooseSign
    split_ifs with h1 h2 h3
    exacts [.inl rfl, .inr ⟨h1, .inl rfl⟩, .inr ⟨h1, .inr rfl⟩, .inl rfl]
  · intro c hc
    simpa using mem_takeWhile_imp hc
  · intro hi hnil
    replace hnil : lead = [] := hnil
    subst hnil
    have hoct := hoct hi rfl
    have hfront' : frontDigits base rest <+: rest := hfront
    rwa [head?_eq_of_isPrefix hfront' hne] at hoct
  · refine prefix_append_of_drop chooseSign_isPrefix ?_
    rw [length_map, hrest]
    exact prefix_append_of_drop hlead (by rwa [length_map])

lemma length_le_of_fits (h : conversionBase conv = some rule) (hn : n.Fits conv) (hpre : n.text <+: cs) :
    ∃ n', readNumeral conv rule cs = some n' ∧ n.text.length ≤ n'.text.length := by
  have hsign := sign_eq_chooseSign h hn hpre
  generalize hrest : cs.drop (chooseSign conv cs).length = rest
  have hreads : n.lead.map letter ++ n.digits <+: rest := by
    obtain ⟨t, ht⟩ := hpre
    have hlen : (chooseSign conv cs).length = (n.sign.map letter).length := by rw [← hsign, length_map]
    have hcs : cs = n.sign.map letter ++ ((n.lead.map letter ++ n.digits) ++ t) := by
      rw [← ht, text, append_assoc]
    refine ⟨t, ?_⟩
    rw [← hrest, hlen, hcs, drop_left]
  have hle := length_le_reachOf h hn hreads
  obtain ⟨-, ⟨-, hstands⟩, -⟩ := chooseLead_fits rest h
  obtain ⟨⟨lead, base⟩, hch⟩ : ∃ choice, chooseLead rest rule = choice := ⟨_, rfl⟩
  rw [hch] at hle hstands
  dsimp only [reachOf] at hle hstands
  have hne : frontDigits base (rest.drop lead.length) ≠ [] := by
    intro hnil
    have hlead : lead = [] := by
      by_contra hne
      exact hstands hne hnil
    subst hlead
    rw [hnil, length_nil, length_nil] at hle
    exact hn.ne_nil (length_eq_zero_iff.1 (by omega))
  rw [readNumeral_eq hrest hch, if_neg hne]
  refine ⟨_, rfl, ?_⟩
  simp only [text, length_append, length_map]
  rw [hsign]
  omega

end

/-! ### The loop of the source -/

section

variable {conv : Byte} {rule : ℕ × Bool} {cs ds : List (BitVec 32)} {codeAt : ℕ → BitVec 32} {base k cursor : ℕ}
  {lower upper : Char}

def horner (base : ℕ) (value : BitVec 128) (ds : List (BitVec 32)) : BitVec 128 :=
  ds.foldl (fun value c => value * BitVec.ofNat 128 base + BitVec.ofInt 128 (digitValue c)) value

lemma digitLoop_eq {value : BitVec 128}
    (hcode : ∀ i (hi : i < ds.length), codeAt (cursor + i) = ds[i]) : digitLoop codeAt base ds.length cursor value =
      (cursor + (frontDigits base ds).length, horner base value (frontDigits base ds)) := by
  induction ds generalizing cursor value with
  | nil =>
    rfl
  | cons c ds ih =>
    have hc : codeAt cursor = c := hcode 0 (Nat.succ_pos _)
    rw [length_cons, digitLoop, hc]
    unfold frontDigits
    by_cases hd : IsDigitOf base c
    · rw [if_pos hd, takeWhile_cons_of_pos (by simpa using hd), ih]
      · simp only [length_cons, horner, foldl_cons, frontDigits]
        rw [Nat.add_assoc, Nat.add_comm 1]
      · intro i hi
        rw [Nat.add_assoc, Nat.add_comm 1]
        exact hcode (i + 1) (Nat.succ_lt_succ hi)
    · rw [if_neg hd, takeWhile_cons_of_neg (by simpa using hd)]
      rfl

lemma horner_ofNat {v : ℕ} (hd : ∀ c ∈ ds, IsDigitOf base c) :
    horner base (BitVec.ofNat 128 v) ds =
      BitVec.ofNat 128 (ds.foldl (fun v c => v * base + (digitValue c).toNat) v) := by
  induction ds generalizing v with
  | nil => rfl
  | cons c ds ih =>
    have hc : 0 ≤ digitValue c := (hd c mem_cons_self).1
    have hstep : BitVec.ofNat 128 v * BitVec.ofNat 128 base + BitVec.ofInt 128 (digitValue c) =
        BitVec.ofNat 128 (v * base + (digitValue c).toNat) := by
      obtain ⟨k, hk⟩ := Int.eq_ofNat_of_zero_le hc
      rw [hk, BitVec.ofNat_add, BitVec.ofNat_mul, Int.toNat_natCast, BitVec.ofInt_natCast]
    rw [horner, foldl_cons, hstep]
    exact ih fun c' hc' => hd c' (mem_cons_of_mem _ hc')

lemma setWidth_horner (hd : ∀ c ∈ ds, IsDigitOf base c) :
    (horner base 0 ds).setWidth 64 =
      BitVec.ofNat 64 (Nat.ofDigits base (ds.reverse.map fun c => (digitValue c).toNat)) := by
  have h0 : (0 : BitVec 128) = BitVec.ofNat 128 0 := rfl
  rw [h0, horner_ofNat hd, BitVec.setWidth_ofNat_of_le (by decide), Nat.ofDigits_eq_foldr, foldr_map,
    foldr_reverse]
  congr 2
  funext v c
  rw [Nat.mul_comm, Nat.add_comm]
  rfl

section

variable (hcode : ∀ k (hk : k < cs.length), codeAt k = cs[k])
include hcode

lemma mem_head?_drop (hk : k < cs.length) :
    asciiEquals (codeAt k) (ascii c) ↔ (cs.drop k).head? = some (letter c) := by
  rw [hcode k hk, head?_drop, getElem?_eq_getElem hk, Option.some.injEq]
  rfl

lemma take_two_drop (hk : k + 2 < cs.length) :
    (cs.drop k).take 2 = [codeAt k, codeAt (k + 1)] ∧ (cs.drop k).drop 2 = codeAt (k + 2) :: cs.drop (k + 3) := by
  rw [drop_drop, drop_eq_getElem_cons (i := k) (by omega), drop_eq_getElem_cons (i := k + 1) (by omega),
    drop_eq_getElem_cons hk, hcode k (by omega), hcode (k + 1) (by omega), hcode (k + 2) hk]
  exact ⟨rfl, rfl⟩

lemma hasPrefix_iff :
    HasPrefix codeAt cs.length cursor base lower upper ↔
      Leads base lower (cs.drop cursor) ∨ Leads base upper (cs.drop cursor) := by
  have hfront : ∀ {c rest}, frontDigits base (c :: rest) ≠ [] ↔ IsDigitOf base c := by
    intro c rest
    unfold frontDigits
    by_cases hd : IsDigitOf base c
    · rw [takeWhile_cons_of_pos (by simpa using hd)]
      simpa using hd
    · rw [takeWhile_cons_of_neg (by simpa using hd)]
      simpa using hd
  constructor
  · rintro ⟨hlen, h0, hletter, hd⟩
    obtain ⟨htake, hdrop⟩ := take_two_drop hcode hlen
    unfold Leads
    rw [htake, hdrop, show codeAt cursor = letter '0' from h0, hfront]
    rcases hletter with hl | hl
    · exact .inl ⟨by rw [show codeAt (cursor + 1) = letter lower from hl], hd⟩
    · exact .inr ⟨by rw [show codeAt (cursor + 1) = letter upper from hl], hd⟩
  · intro h
    obtain ⟨c, hc, htake', hne⟩ : ∃ c, (c = lower ∨ c = upper) ∧ (cs.drop cursor).take 2 = [letter '0', letter c] ∧
        frontDigits base ((cs.drop cursor).drop 2) ≠ [] := by
      rcases h with h | h
      · exact ⟨lower, .inl rfl, h.1, h.2⟩
      · exact ⟨upper, .inr rfl, h.1, h.2⟩
    have hlen : cursor + 2 < cs.length := by
      by_contra hle
      rw [drop_drop, drop_eq_nil_of_le (by omega)] at hne
      exact hne rfl
    obtain ⟨htake, hdrop⟩ := take_two_drop hcode hlen
    rw [hdrop, hfront] at hne
    rw [htake] at htake'
    simp only [List.cons.injEq] at htake'
    obtain ⟨h0, h1, -⟩ := htake'
    refine ⟨hlen, h0, ?_, hne⟩
    rw [h1]
    rcases hc with rfl | rfl
    · exact .inl rfl
    · exact .inr rfl

lemma chooseLetter_eq :
    (if HasPrefix codeAt cs.length cursor base lower upper then (base, cursor + 2) else (base, cursor)) =
      ((chooseLetter base lower upper (cs.drop cursor)).2,
        cursor + (chooseLetter base lower upper (cs.drop cursor)).1.length) := by
  unfold chooseLetter
  simp only [hasPrefix_iff hcode]
  by_cases h1 : Leads base lower (cs.drop cursor)
  · rw [if_pos (.inl h1), if_pos h1]
    rfl
  · by_cases h2 : Leads base upper (cs.drop cursor)
    · rw [if_pos (.inr h2), if_neg h1, if_pos h2]
      rfl
    · rw [if_neg (not_or.2 ⟨h1, h2⟩), if_neg h1, if_neg h2]
      rfl

end

lemma detectBase_eq (h : conversionBase conv = some rule) (hcode : ∀ k (hk : k < cs.length), codeAt k = cs[k])
    (hcur : cursor < cs.length) :
    detectBase codeAt cs.length cursor rule =
      ((chooseLead (cs.drop cursor) rule).2, cursor + (chooseLead (cs.drop cursor) rule).1.length) := by
  obtain ⟨base, rfl, h0, -, -⟩ | ⟨base, lower, upper, hl, rfl, -, -⟩ | ⟨rfl, rfl⟩ := conversionBase_cases h
  · rw [chooseLead_plain h0]
    cases base with
    | zero => exact absurd rfl h0
    | succ base => rfl
  · rw [hl.chooseLead]
    cases hl
    · exact chooseLetter_eq hcode
    · exact chooseLetter_eq hcode
  · have hzero : ∀ {base c}, Leads base c (cs.drop cursor) → (cs.drop cursor).head? = some (letter '0') := by
      intro base c hl
      exact head?_eq_of_isPrefix (hl.stands.1) (by simp)
    rw [chooseLead, detectBase]
    simp only [mem_head?_drop hcode hcur, hasPrefix_iff hcode]
    by_cases hhead : (cs.drop cursor).head? = some (letter '0')
    · simp only [if_pos hhead]
      by_cases h1 : Leads 16 'x' (cs.drop cursor)
      · rw [if_pos (.inl h1), if_pos h1]
        rfl
      rw [if_neg h1]
      by_cases h2 : Leads 16 'X' (cs.drop cursor)
      · rw [if_pos (.inr h2), if_pos h2]
        rfl
      rw [if_neg (not_or.2 ⟨h1, h2⟩), if_neg h2]
      by_cases h3 : Leads 2 'b' (cs.drop cursor)
      · rw [if_pos (.inl h3), if_pos h3]
        rfl
      rw [if_neg h3]
      by_cases h4 : Leads 2 'B' (cs.drop cursor)
      · rw [if_pos (.inr h4), if_pos h4]
        rfl
      rw [if_neg (not_or.2 ⟨h3, h4⟩), if_neg h4]
      rfl
    · rw [if_neg hhead, if_neg fun h1 => hhead (hzero h1), if_neg fun h1 => hhead (hzero h1),
        if_neg fun h1 => hhead (hzero h1), if_neg fun h1 => hhead (hzero h1), if_neg hhead]
      rfl

lemma chooseSign_eq (conv : Byte) (hcode : ∀ k (hk : k < cs.length), codeAt k = cs[k]) (h0 : 0 < cs.length) :
    (if asciiIsSign (codeAt 0) ∧ conv ≠ ascii 'p' then 1 else 0) = (chooseSign conv cs).length ∧
      ((asciiIsSign (codeAt 0) ∧ conv ≠ ascii 'p') ∧ asciiEquals (codeAt 0) (ascii '-') ↔ chooseSign conv cs = ['-']) := by
  have hhead : ∀ {c}, asciiEquals (codeAt 0) (ascii c) ↔ cs.head? = some (letter c) := mem_head?_drop hcode h0
  unfold chooseSign
  simp only [asciiIsSign, hhead]
  by_cases hp : conv = ascii 'p'
  · simp [hp]
  · by_cases hplus : cs.head? = some (letter '+')
    · have hminus : letter '+' ≠ letter '-' := by decide
      simp [hp, hplus, hminus]
    · by_cases hminus : cs.head? = some (letter '-')
      · have hne : letter '-' ≠ letter '+' := by decide
        simp [hp, hminus, hne]
      · simp [hp, hplus, hminus]

lemma bits_eq {sign : List Char} (lead : List Char) (hd : ∀ c ∈ ds, IsDigitOf base c) :
    (if sign = ['-'] then 0 - (horner base 0 ds).setWidth 64 else (horner base 0 ds).setWidth 64) =
      BitVec.ofInt 64 (value ⟨sign, lead, base, ds⟩) := by
  rw [setWidth_horner hd]
  unfold value magnitude
  split_ifs
  · rw [BitVec.ofInt_neg, BitVec.ofInt_natCast]
    exact BitVec.zero_sub _
  · rw [BitVec.ofInt_natCast]

/-- **The source reads a numeral.** -/
theorem parseInteger_eq (h : conversionBase conv = some rule) (hcode : ∀ k (hk : k < cs.length), codeAt k = cs[k]) :
    parseInteger codeAt cs.length conv =
      (readNumeral conv rule cs).map fun n => (n.text.length, BitVec.ofInt 64 n.value) := by
  have hnone : cs.length ≤ (chooseSign conv cs).length → readNumeral conv rule cs = none := by
    intro hle
    rw [readNumeral_eq (drop_eq_nil_of_le hle) rfl, drop_nil]
    rfl
  unfold parseInteger
  dsimp only
  by_cases hlen : cs.length = 0
  · rw [if_pos (.inl hlen), hnone (by omega)]
    rfl
  obtain ⟨hsign, hneg⟩ := chooseSign_eq conv hcode (Nat.pos_of_ne_zero hlen)
  rw [hsign]
  simp only [hneg]
  by_cases hcur : cs.length ≤ (chooseSign conv cs).length
  · rw [if_pos (.inr hcur), hnone hcur]
    rfl
  rw [if_neg (not_or.2 ⟨hlen, hcur⟩), h, bind_some, detectBase_eq h hcode (by omega)]
  generalize hrest : cs.drop (chooseSign conv cs).length = rest
  obtain ⟨⟨lead, base⟩, hch⟩ : ∃ choice, chooseLead rest rule = choice := ⟨_, rfl⟩
  rw [readNumeral_eq hrest hch, hch]
  dsimp only
  have hds : rest.drop lead.length = cs.drop ((chooseSign conv cs).length + lead.length) := by
    rw [← hrest, drop_drop]
  have hrounds : cs.length - ((chooseSign conv cs).length + lead.length) = (rest.drop lead.length).length := by
    rw [hds, length_drop]
  have hloop : digitLoop codeAt base (rest.drop lead.length).length ((chooseSign conv cs).length + lead.length) 0 =
      ((chooseSign conv cs).length + lead.length + (frontDigits base (rest.drop lead.length)).length,
        horner base 0 (frontDigits base (rest.drop lead.length))) := by
    refine digitLoop_eq fun i hi => ?_
    rw [hcode _ (by omega)]
    simp only [hds, getElem_drop]
  rw [hrounds, hloop]
  by_cases hnil : frontDigits base (rest.drop lead.length) = []
  · rw [if_pos (by rw [hnil]; rfl), if_pos hnil]
    rfl
  · have hpos : (frontDigits base (rest.drop lead.length)).length ≠ 0 := fun h0 => hnil (length_eq_zero_iff.1 h0)
    rw [if_neg (by omega), if_neg hnil, map_some, bits_eq lead fun c hc => by
      simpa using mem_takeWhile_imp hc]
    simp only [text, length_append, length_map, Nat.add_assoc]

end

section

variable {α : Type} {ct : CharType α} {input : List α} {pos : ℕ} {spec : ScanDirective} {rule : ℕ × Bool}

/-- The characters that are left, within the width. -/
def field (width : Option (Fin (2 ^ 31))) (rest : List α) : List α :=
  match width with
  | some width => rest.take width
  | none => rest

lemma length_field : (field spec.width (input.drop pos)).length = fieldLimit input pos spec := by
  unfold field fieldLimit
  cases spec.width with
  | none => exact length_drop
  | some width =>
    rw [length_take, length_drop, Nat.min_comm]

lemma field_isPrefix : field spec.width (input.drop pos) <+: input.drop pos := by
  unfold field
  cases spec.width with
  | none => exact prefix_rfl
  | some width => exact take_prefix ..

lemma codeAt_eq {k : ℕ} (hk : k < ((field spec.width (input.drop pos)).map ct.code).length) :
    (input[pos + k]?.map ct.code).getD 0 = ((field spec.width (input.drop pos)).map ct.code)[k] := by
  have hk' : k < (field spec.width (input.drop pos)).length := by rwa [length_map] at hk
  have hget : input[pos + k]? = some (field spec.width (input.drop pos))[k] := by
    obtain ⟨t, ht⟩ : field spec.width (input.drop pos) <+: input.drop pos := field_isPrefix
    have happ : (field spec.width (input.drop pos) ++ t)[k]? = (field spec.width (input.drop pos))[k]? :=
      getElem?_append_left hk'
    rw [ht, getElem?_drop, getElem?_eq_getElem hk'] at happ
    exact happ
  rw [hget, getElem_map]
  rfl

/-- **The source reads the numeral** at the front of the field. -/
theorem parseIntegerValue_eq (h : conversionBase spec.conv = some rule) : parseIntegerValue ct input pos spec =
    (readNumeral spec.conv rule ((field spec.width (input.drop pos)).map ct.code)).map fun n =>
      (n.text.length, BitVec.ofInt 64 n.value) := by
  unfold parseIntegerValue
  rw [← length_field, ← length_map ct.code]
  exact parseInteger_eq h fun k hk => codeAt_eq hk

lemma exists_conversionBase {conv : Byte} (h : isIntegerConv conv) : ∃ rule, conversionBase conv = some rule := by
  unfold isIntegerConv oneOf at h
  rw [contains_iff_mem] at h
  simp only [map_cons, map_nil, mem_cons, not_mem_nil, or_false] at h
  rcases h with rfl | rfl | rfl | rfl | rfl | rfl | rfl | rfl
  all_goals exact ⟨_, rfl⟩

end

/-- **Integers of `scanf`**: a conversion succeeds exactly if the field starts with a numeral that it allows; it then
consumes the longest one, and gives its value modulo 2⁶⁴. -/
theorem parseIntegerValue_iff {α : Type} (ct : CharType α) (input : List α) (pos : ℕ) (spec : ScanDirective)
    (hconv : isIntegerConv spec.conv) :
    ((parseIntegerValue ct input pos spec).isSome ↔
      ∃ w, w <+: (field spec.width (input.drop pos)).map ct.code ∧ IsNumeral spec.conv w) ∧
    ∀ consumed bits, parseIntegerValue ct input pos spec = some (consumed, bits) ↔ ∃ n : Numeral, n.Fits spec.conv ∧
      LongestPrefix (IsNumeral spec.conv) ((field spec.width (input.drop pos)).map ct.code) n.text ∧
      consumed = n.text.length ∧ bits = BitVec.ofInt 64 n.value := by
  obtain ⟨rule, hrule⟩ := exists_conversionBase hconv
  rw [parseIntegerValue_eq hrule]
  generalize (field spec.width (input.drop pos)).map ct.code = cs
  have hlongest : ∀ n, readNumeral spec.conv rule cs = some n → LongestPrefix (IsNumeral spec.conv) cs n.text := by
    intro n hread
    obtain ⟨hn, hpre⟩ := readNumeral_fits hrule hread
    refine ⟨hpre, ⟨n, hn, rfl⟩, ?_⟩
    rintro w hw ⟨n', hn', rfl⟩
    obtain ⟨n'', hread', hle⟩ := length_le_of_fits hrule hn' hw
    cases hread.symm.trans hread'
    exact hle
  constructor
  · rw [isSome_map]
    constructor
    · intro hsome
      obtain ⟨n, hread⟩ := isSome_iff_exists.1 hsome
      exact ⟨n.text, (hlongest n hread).within, (hlongest n hread).holds⟩
    · rintro ⟨w, hw, n, hn, rfl⟩
      obtain ⟨n', hread, -⟩ := length_le_of_fits hrule hn hw
      rw [hread]
      rfl
  · intro consumed bits
    constructor
    · intro hsome
      obtain ⟨n, hread, heq⟩ := map_eq_some_iff.1 hsome
      cases heq
      exact ⟨n, (readNumeral_fits hrule hread).1, hlongest n hread, rfl, rfl⟩
    · rintro ⟨n, hn, hlong, rfl, rfl⟩
      obtain ⟨n', hread, -⟩ := length_le_of_fits hrule hn hlong.within
      have heq : n' = n := (readNumeral_fits hrule hread).1.unique hrule hn ((hlongest n' hread).unique hlong)
      rw [hread, heq]
      rfl

/-- `%i` on `-0x1Fg`: five characters are consumed, of a numeral with the value -31. -/
theorem parseIntegerValue_iff_hex : isIntegerConv (ascii 'i') ∧ ∃ n : Numeral, n.Fits (ascii 'i') ∧
    LongestPrefix (IsNumeral (ascii 'i')) ((Format.chars ['-', '0', 'x', '1', 'F', 'g']).map narrow.code) n.text ∧
    5 = n.text.length ∧ BitVec.ofInt 64 (-31) = BitVec.ofInt 64 n.value :=
  ⟨by decide, ((parseIntegerValue_iff narrow (Format.chars ['-', '0', 'x', '1', 'F', 'g']) 0
    ⟨Format.chars ['%', 'i'], false, false, none, .none, ascii 'i'⟩ (by decide)).2 5 (BitVec.ofInt 64 (-31))).1
      (by decide +kernel)⟩

end CrossShim.Stdio.Scan
