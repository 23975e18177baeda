import Mathlib

/-!
# Masks

A bit vector as a set of indices.  Systems code tests a bit with `mask & bit`, and sets and clears it with `|` and
`& ~`; the lemmas say what these do to the elements (`Has`), and that a mask is known by its elements (`ext`).
-/

namespace CrossShim.Lib.Mask

open BitVec

variable {w : ℕ} {m m' : BitVec w} {i j : Fin w}

def bit (i : Fin w) : BitVec w := 1#w <<< i.val

def Has (m : BitVec w) (i : Fin w) : Prop := m &&& bit i ≠ 0

instance : Decidable (Has m i) := inferInstanceAs (Decidable (_ ≠ _))

lemma getLsbD_bit (k : ℕ) : (bit i).getLsbD k = decide (k = i) := by
  have hi := i.isLt
  rw [Bool.eq_iff_iff]
  simp only [bit, getLsbD_shiftLeft, getLsbD_one, Bool.and_eq_true, decide_eq_true_eq,
    Bool.not_eq_true', decide_eq_false_iff_not]
  omega

lemma has_iff : Has m i ↔ m.getLsbD i = true := by
  constructor
  · intro h
    by_contra hi
    refine h (eq_of_getLsbD_eq fun k _ => ?_)
    have h0 : (0 : BitVec w).getLsbD k = false := getLsbD_zero
    rw [getLsbD_and, getLsbD_bit, h0]
    by_cases hk : k = i
    · rw [hk, Bool.eq_false_iff.2 hi, Bool.false_and]
    · simp [hk]
  · intro h h0
    have hbit : (m &&& bit i).getLsbD i = true := by
      rw [getLsbD_and, getLsbD_bit, h]
      simp
    rw [h0] at hbit
    exact absurd hbit (by simp)

@[simp] lemma not_has_zero : ¬ Has 0#w i := by simp [has_iff]

@[simp] lemma has_bit : Has (bit i) j ↔ j = i := by
  rw [has_iff, getLsbD_bit, decide_eq_true_eq, Fin.val_inj]

@[simp] lemma has_or : Has (m ||| m') i ↔ Has m i ∨ Has m' i := by simp [has_iff]

@[simp] lemma has_and : Has (m &&& m') i ↔ Has m i ∧ Has m' i := by simp [has_iff]

@[simp] lemma has_not : Has (~~~m) i ↔ ¬ Has m i := by simp [has_iff]

lemma ext (h : ∀ i, Has m i ↔ Has m' i) : m = m' := by
  refine eq_of_getLsbD_eq fun k hk => ?_
  have := h ⟨k, hk⟩
  rwa [has_iff, has_iff, ← Bool.eq_iff_iff] at this

def ofList (is : List (Fin w)) : BitVec w := is.foldr (fun i m => bit i ||| m) 0

@[simp] lemma has_ofList {is : List (Fin w)} : Has (ofList is) i ↔ i ∈ is := by
  induction is with
  | nil => simp [ofList]
  | cons j is ih =>
    have hcons : ofList (j :: is) = bit j ||| ofList is := rfl
    rw [hcons, has_or, has_bit, ih, List.mem_cons]

lemma ofList_cons_and_not {is : List (Fin w)} (hi : i ∉ is) : ofList (i :: is) &&& ~~~bit i = ofList is := by
  refine ext fun j => ?_
  simp only [has_and, has_ofList, List.mem_cons, has_not, has_bit]
  constructor
  · rintro ⟨rfl | hj, hne⟩
    · exact absurd rfl hne
    · exact hj
  · intro hj
    refine ⟨.inr hj, ?_⟩
    rintro rfl
    exact hi hj

end CrossShim.Lib.Mask
