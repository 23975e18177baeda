import Mathlib

/-!
# Bisection

Search for a place where `cmp` is 0, among places where it is first positive, then 0, then negative.  The interval that
is left is cut in halves, so `k` rounds are enough for fewer than `2 ^ k` places: `bisect_spec`.
-/

namespace CrossShim.Lib

/-- The search in `[low, high)`; `none` when it is not over after this many rounds. -/
def bisect (cmp : ℕ → ℤ) : ℕ → ℕ → ℕ → Option (Option ℕ)
  | 0, _, _ => none
  | rounds + 1, low, high =>
    if low < high then
      let mid := low + (high - low) / 2
      if cmp mid = 0 then some (some mid)
      else if cmp mid < 0 then bisect cmp rounds low mid
      else bisect cmp rounds (mid + 1) high
    else some none

/-- Of the first `n` places those where `cmp` is positive come first, then those where it is 0, then the others. -/
def Partitioned (cmp : ℕ → ℤ) (n : ℕ) : Prop :=
  ∃ p q, p ≤ q ∧ q ≤ n ∧ (∀ i, i < p → 0 < cmp i) ∧ (∀ i, p ≤ i → i < q → cmp i = 0) ∧
    ∀ i, q ≤ i → i < n → cmp i < 0

section

variable {cmp : ℕ → ℤ} {n : ℕ}

lemma Partitioned.neg (h : Partitioned cmp n) {i j : ℕ} (hi : cmp i < 0) (hij : i ≤ j) (hj : j < n) : cmp j < 0 := by
  obtain ⟨p, q, -, -, hpos, hzero, hneg⟩ := h
  have hp : p ≤ i := by
    by_contra hlt
    have := hpos i (by omega)
    omega
  have hq : q ≤ i := by
    by_contra hlt
    have := hzero i hp (by omega)
    omega
  exact hneg j (by omega) hj

lemma Partitioned.pos (h : Partitioned cmp n) {i j : ℕ} (hj : 0 < cmp j) (hij : i ≤ j) (hjn : j < n) : 0 < cmp i := by
  obtain ⟨p, q, -, -, hpos, hzero, hneg⟩ := h
  by_cases hp : j < p
  · exact hpos i (by omega)
  · by_cases hq : j < q
    · have := hzero j (by omega) hq
      omega
    · have := hneg j (by omega) hjn
      omega

/-- The places outside `[low, high)` are ruled out. -/
structure Left (cmp : ℕ → ℤ) (n low high : ℕ) : Prop where
  le : high ≤ n
  below : ∀ i, i < low → 0 < cmp i
  above : ∀ i, high ≤ i → i < n → cmp i < 0

def Finds (cmp : ℕ → ℤ) (n : ℕ) : Option ℕ → Prop
  | some i => i < n ∧ cmp i = 0
  | none => ∀ i, i < n → cmp i ≠ 0

lemma Left.finds_none {low high : ℕ} (h : Left cmp n low high) (hle : high ≤ low) : Finds cmp n none := by
  intro i hi
  rcases Nat.lt_or_ge i low with hlow | hlow
  · have := h.below i hlow
    omega
  · have := h.above i (by omega) hi
    omega

/-- **One round and those after it.** -/
theorem Left.bisect (hpart : Partitioned cmp n) : ∀ rounds {low high : ℕ}, Left cmp n low high →
    high - low < 2 ^ rounds → ∃ r, bisect cmp (rounds + 1) low high = some r ∧ Finds cmp n r := by
  intro rounds
  induction rounds with
  | zero =>
    intro low high h hlt
    exact ⟨none, if_neg (by omega), h.finds_none (by omega)⟩
  | succ rounds ih =>
    intro low high h hlt
    rw [Nat.pow_succ] at hlt
    unfold Lib.bisect
    by_cases hlow : low < high
    · have hmid : low + (high - low) / 2 < high := by omega
      have hn := h.le
      rw [if_pos hlow]
      simp only
      by_cases h0 : cmp (low + (high - low) / 2) = 0
      · rw [if_pos h0]
        exact ⟨_, rfl, by omega, h0⟩
      · rw [if_neg h0]
        by_cases hneg : cmp (low + (high - low) / 2) < 0
        · rw [if_pos hneg]
          apply ih ⟨by omega, h.below, fun i hi hin => hpart.neg hneg hi hin⟩
          omega
        · rw [if_neg hneg]
          have hpos : 0 < cmp (low + (high - low) / 2) := by omega
          apply ih ⟨hn, fun i hi => hpart.pos hpos (by omega) (by omega), h.above⟩
          omega
    · rw [if_neg hlow]
      exact ⟨none, rfl, h.finds_none (by omega)⟩

/-- **The search ends**, and finds a place where `cmp` is 0 if there is one. -/
theorem bisect_spec (hpart : Partitioned cmp n) {rounds : ℕ} (hn : n < 2 ^ rounds) :
    ∃ r, bisect cmp (rounds + 1) 0 n = some r ∧ Finds cmp n r :=
  Left.bisect hpart rounds
    ⟨Nat.le_refl n, fun _ hi => absurd hi (Nat.not_lt_zero _), fun _ h1 h2 => absurd h1 (by omega)⟩
    (by omega)

end

end CrossShim.Lib
