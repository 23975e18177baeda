import Mathlib

/-!
# Scanners

A scanner reads from the front of a list of tokens, and gives a value and what is left of the list, or stops.  One that
`Shrinks` never leaves more than it was given, which is what a loop that calls it needs to end; one that `Takes` tokens of
a kind takes no others.  The rules follow the way scanners are put together.
-/

namespace CrossShim.Lib

open List

/-- A scanner of tokens `τ`, which stops with an `ε`. -/
abbrev Scanner (τ ε α : Type) : Type := StateT (List τ) (Except ε) α

namespace Scanner

variable {τ ε α β : Type}

def peek : Scanner τ ε (Option τ) := fun ts => .ok (ts.head?, ts)

def next : Scanner τ ε (Option τ) := fun ts => .ok (ts.head?, ts.tail)

/-- Takes the token if it is the next one, and tells whether it was. -/
def accept [DecidableEq τ] (t : τ) : Scanner τ ε Bool := fun ts =>
  if ts.head? = some t then .ok (true, ts.tail) else .ok (false, ts)

def takeWhile (p : τ → Bool) : Scanner τ ε (List τ) := fun ts => .ok (ts.takeWhile p, ts.dropWhile p)

/-- Puts everything back if the scanner comes to nothing. -/
def attempt (p : Scanner τ ε (Option α)) : Scanner τ ε (Option α) := fun ts =>
  match p ts with
  | .ok (none, _) => .ok (none, ts)
  | r => r

lemma bind_eq_ok {p : Scanner τ ε α} {f : α → Scanner τ ε β} {ts ts'' : List τ} {b : β} :
    (p >>= f) ts = .ok (b, ts'') ↔ ∃ a ts', p ts = .ok (a, ts') ∧ f a ts' = .ok (b, ts'') := by
  change Except.bind (p ts) (fun r => f r.1 r.2) = _ ↔ _
  cases p ts with
  | error e =>
    constructor
    · nofun
    · rintro ⟨a, ts', h, -⟩
      cases h
  | ok r =>
    constructor
    · intro h
      exact ⟨r.1, r.2, rfl, h⟩
    · rintro ⟨a, ts', h, hf⟩
      cases h
      exact hf

lemma accept_eq_ok [DecidableEq τ] {t : τ} {ts ts' : List τ} {b : Bool} :
    (accept t : Scanner τ ε Bool) ts = .ok (b, ts') ↔
      b = true ∧ ts = t :: ts' ∨ b = false ∧ ts = ts' ∧ ts.head? ≠ some t := by
  unfold accept
  by_cases h : ts.head? = some t
  · obtain ⟨rest, rfl⟩ := head?_eq_some_iff.1 h
    rw [if_pos h, tail_cons, Except.ok.injEq, Prod.mk.injEq]
    constructor
    · rintro ⟨rfl, rfl⟩
      exact .inl ⟨rfl, rfl⟩
    · rintro (⟨rfl, heq⟩ | ⟨-, -, hne⟩)
      · exact ⟨rfl, (List.cons.inj heq).2⟩
      · exact absurd h hne
  · rw [if_neg h, Except.ok.injEq, Prod.mk.injEq]
    constructor
    · rintro ⟨rfl, rfl⟩
      exact .inr ⟨rfl, rfl, h⟩
    · rintro (⟨-, rfl⟩ | ⟨rfl, rfl, -⟩)
      · exact absurd rfl h
      · exact ⟨rfl, rfl⟩

/-- What is left is no longer than what was there. -/
def Shrinks (p : Scanner τ ε α) : Prop :=
  ∀ ⦃ts a ts'⦄, p ts = .ok (a, ts') → ts'.length ≤ ts.length

namespace Shrinks

lemma pure (a : α) : Shrinks (Pure.pure a : Scanner τ ε α) := by
  rintro ts a ts' h
  cases h
  exact Nat.le_refl _

lemma throw (e : ε) : Shrinks (throwThe ε e : Scanner τ ε α) := by
  rintro ts a ts' h
  cases h

lemma bind {p : Scanner τ ε α} {f : α → Scanner τ ε β} (hp : Shrinks p) (hf : ∀ a, Shrinks (f a)) :
    Shrinks (p >>= f) := by
  intro ts b ts'' h
  obtain ⟨a, ts', h1, h2⟩ := bind_eq_ok.1 h
  exact Nat.le_trans (hf a h2) (hp h1)

lemma peek : Shrinks (Scanner.peek : Scanner τ ε (Option τ)) := by
  rintro ts a ts' h
  cases h
  exact Nat.le_refl _

lemma next : Shrinks (Scanner.next : Scanner τ ε (Option τ)) := by
  rintro ts a ts' h
  cases h
  exact length_tail ▸ Nat.sub_le ..

lemma accept [DecidableEq τ] (t : τ) : Shrinks (Scanner.accept t : Scanner τ ε Bool) := by
  intro ts a ts' h
  rcases accept_eq_ok.1 h with ⟨-, rfl⟩ | ⟨-, rfl, -⟩
  · exact Nat.le_succ _
  · exact Nat.le_refl _

lemma takeWhile (p : τ → Bool) : Shrinks (Scanner.takeWhile p : Scanner τ ε (List τ)) := by
  rintro ts a ts' h
  cases h
  exact (dropWhile_sublist p).length_le

lemma attempt {p : Scanner τ ε (Option α)} (hp : Shrinks p) : Shrinks (Scanner.attempt p) := by
  intro ts a ts' h
  unfold Scanner.attempt at h
  split at h
  · cases h
    exact Nat.le_refl _
  · exact hp h

lemma ite {c : Prop} [Decidable c] {p q : Scanner τ ε α} (hp : Shrinks p) (hq : Shrinks q) :
    Shrinks (if c then p else q) := by
  split
  · exact hp
  · exact hq

end Shrinks

/-- What is taken off the front are tokens with `A`. -/
def Takes (A : τ → Prop) (p : Scanner τ ε α) : Prop :=
  ∀ ⦃ts a ts'⦄, p ts = .ok (a, ts') → ∃ used, ts = used ++ ts' ∧ ∀ t ∈ used, A t

namespace Takes

variable {A : τ → Prop}

lemma pure (a : α) : Takes A (Pure.pure a : Scanner τ ε α) := by
  rintro ts a ts' h
  cases h
  exact ⟨[], rfl, nofun⟩

lemma throw (e : ε) : Takes A (throwThe ε e : Scanner τ ε α) := by
  rintro ts a ts' h
  cases h

lemma bind {p : Scanner τ ε α} {f : α → Scanner τ ε β} (hp : Takes A p) (hf : ∀ a, Takes A (f a)) :
    Takes A (p >>= f) := by
  intro ts b ts'' h
  obtain ⟨a, ts', h1, h2⟩ := bind_eq_ok.1 h
  obtain ⟨used, rfl, hA⟩ := hp h1
  obtain ⟨used', rfl, hA'⟩ := hf a h2
  exact ⟨used ++ used', (append_assoc ..).symm, forall_mem_append.2 ⟨hA, hA'⟩⟩

lemma accept [DecidableEq τ] {t : τ} (ht : A t) : Takes A (Scanner.accept t : Scanner τ ε Bool) := by
  intro ts a ts' h
  rcases accept_eq_ok.1 h with ⟨-, rfl⟩ | ⟨-, rfl, -⟩
  · exact ⟨[t], rfl, fun t' ht' => mem_singleton.1 ht' ▸ ht⟩
  · exact ⟨[], rfl, nofun⟩

lemma next (hA : ∀ t, A t) : Takes A (Scanner.next : Scanner τ ε (Option τ)) := by
  rintro (_ | ⟨t, ts⟩) a ts' h
  · cases h
    exact ⟨[], rfl, nofun⟩
  · cases h
    exact ⟨[t], rfl, fun t' _ => hA t'⟩

lemma takeWhile {p : τ → Bool} (hp : ∀ t, p t → A t) : Takes A (Scanner.takeWhile p : Scanner τ ε (List τ)) := by
  rintro ts a ts' h
  cases h
  exact ⟨ts.takeWhile p, (takeWhile_append_dropWhile ..).symm, fun t ht => hp t (mem_takeWhile_imp ht)⟩

lemma ite {c : Prop} [Decidable c] {p q : Scanner τ ε α} (hp : Takes A p) (hq : Takes A q) :
    Takes A (if c then p else q) := by
  split
  · exact hp
  · exact hq

lemma mono {B : τ → Prop} {p : Scanner τ ε α} (hp : Takes A p) (h : ∀ t, A t → B t) : Takes B p := by
  intro ts a ts' hok
  obtain ⟨used, rfl, hA⟩ := hp hok
  exact ⟨used, rfl, fun t ht => h t (hA t ht)⟩

end Takes

end Scanner

end CrossShim.Lib
