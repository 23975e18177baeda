import Mathlib

/-!
# Longest prefixes

What a scanner takes off its input is the longest prefix that has a given form.  There is at most one.  Where the form
is that every element passes a test, it is what `takeWhile` gives.
-/

namespace CrossShim.Lib

open List

variable {α : Type*} {P : List α → Prop} {l w w' : List α}

/-- `w` is the longest of the prefixes of `l` with `P`. -/
structure LongestPrefix (P : List α → Prop) (l w : List α) : Prop where
  within : w <+: l
  holds : P w
  longest : ∀ w', w' <+: l → P w' → w'.length ≤ w.length

namespace LongestPrefix

lemma unique (h : LongestPrefix P l w) (h' : LongestPrefix P l w') : w = w' := by
  have hlen : w.length = w'.length := le_antisymm (h'.longest w h.within h.holds) (h.longest w' h'.within h'.holds)
  rw [prefix_iff_eq_take.1 h.within, prefix_iff_eq_take.1 h'.within, hlen]

lemma length_le_takeWhile {p : α → Bool} (hw : w <+: l) (hp : ∀ a ∈ w, p a) : w.length ≤ (l.takeWhile p).length := by
  obtain ⟨t, rfl⟩ := hw
  rw [takeWhile_append_of_pos hp, length_append]
  exact Nat.le_add_right ..

lemma of_takeWhile_ne_nil {p : α → Bool} (hne : l.takeWhile p ≠ []) :
    LongestPrefix (fun w => w ≠ [] ∧ ∀ a ∈ w, p a) l (l.takeWhile p) where
  within := takeWhile_prefix p
  holds := ⟨hne, fun _ ha => mem_takeWhile_imp ha⟩
  longest _ hw hp := length_le_takeWhile hw hp.2

lemma takeWhile_eq_nil_iff {p : α → Bool} : l.takeWhile p = [] ↔ ¬∃ w, w <+: l ∧ w ≠ [] ∧ ∀ a ∈ w, p a := by
  constructor
  · rintro hnil ⟨w, hw, hne, hp⟩
    have hlen := length_le_takeWhile hw hp
    rw [hnil, length_nil] at hlen
    exact hne (length_eq_zero_iff.1 (by omega))
  · intro hno
    by_contra hne
    exact hno ⟨l.takeWhile p, takeWhile_prefix p, hne, fun _ ha => mem_takeWhile_imp ha⟩

end LongestPrefix

end CrossShim.Lib
