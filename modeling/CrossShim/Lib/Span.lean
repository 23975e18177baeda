import Mathlib

/-!
# Spans of bytes

A span is a start and a length; `span a m` is the set of its bytes.  Two spans are `Apart` when one ends
before the other starts, and separated by a `Gap` when in addition they do not touch.
-/

namespace CrossShim.Lib

def span (a m : ℕ) : Set ℕ := Set.Ico a (a + m)

def Apart (a m b n : ℕ) : Prop := a + m ≤ b ∨ b + n ≤ a

def Gap (a m b n : ℕ) : Prop := a + m < b ∨ b + n < a

instance (a m b n : ℕ) : Decidable (Apart a m b n) := by unfold Apart; infer_instance

instance (a m b n : ℕ) : Decidable (Gap a m b n) := by unfold Gap; infer_instance

section

variable {a b c d m n l x : ℕ}

@[simp] lemma mem_span : x ∈ span a m ↔ a ≤ x ∧ x < a + m := Iff.rfl

lemma Apart.symm (h : Apart a m b n) : Apart b n a m := Or.symm h

lemma Gap.symm (h : Gap a m b n) : Gap b n a m := Or.symm h

lemma Gap.apart (h : Gap a m b n) : Apart a m b n := h.imp le_of_lt le_of_lt

lemma span_union_span (h : a + m = b) : span a m ∪ span b n = span a (m + n) := by
  subst h
  unfold span
  rw [Set.Ico_union_Ico_eq_Ico (Nat.le_add_right a m) (Nat.le_add_right (a + m) n), Nat.add_assoc]

lemma not_apart_self (hm : 0 < m) (hn : 0 < n) : ¬ Apart a m a n := by
  unfold Apart
  omega

lemma Apart.mono (h : Apart a m b n) (hc : a ≤ c) (hl : c + l ≤ a + m) : Apart c l b n := by
  unfold Apart at *
  omega

lemma span_subset_span (hc : a ≤ c) (hl : c + l ≤ a + m) : span c l ⊆ span a m := Set.Ico_subset_Ico hc hl

lemma Apart.disjoint (h : Apart a m b n) : Disjoint (span a m) (span b n) := by
  rw [Set.disjoint_left]
  intro x hx hy
  simp only [mem_span, Apart] at *
  omega

/-- **Spans that hold a byte are apart exactly when they share none.** -/
theorem apart_iff_disjoint (hm : 0 < m) (hn : 0 < n) :
    Apart a m b n ↔ Disjoint (span a m) (span b n) := by
  refine ⟨Apart.disjoint, fun h => ?_⟩
  rw [Set.disjoint_left] at h
  have h1 := h (a := max a b)
  simp only [mem_span, Apart] at *
  omega

end

end CrossShim.Lib
