import Mathlib

/-!
# Machine words

Unsigned 64-bit words with wrapping arithmetic, their order, and the two roundings to a multiple of a
power of two that systems code writes with masks:

* `alignDown v al = v & ~(al - 1)`;
* `alignUp v al = (v + al - 1) & ~(al - 1)`.

The lemmas say what the masks compute on natural numbers, and when the rounding upwards does not wrap.
-/

namespace CrossShim.Lib

/-- A 64-bit machine word (`uint64_t`). -/
abbrev Word : Type := BitVec 64

instance bitVecOrder {w : ℕ} : LinearOrder (BitVec w) where
  le := (· ≤ ·)
  lt := (· < ·)
  le_refl a := BitVec.le_refl a
  le_trans _ _ _ h₁ h₂ := BitVec.le_trans h₁ h₂
  le_antisymm _ _ h₁ h₂ := BitVec.le_antisymm h₁ h₂
  le_total a b := BitVec.le_total a b
  lt_iff_le_not_ge a b := by simp only [BitVec.lt_def, BitVec.le_def]; omega
  toDecidableLE := inferInstance
  toDecidableLT := inferInstance
  toDecidableEq := inferInstance

/-- `value & ~(alignment - 1)`. -/
def alignDown (value alignment : Word) : Word := value &&& ~~~(alignment - 1)

/-- `(value + alignment - 1) & ~(alignment - 1)`. -/
def alignUp (value alignment : Word) : Word := (value + alignment - 1) &&& ~~~(alignment - 1)

section Pow2

variable {v al : Word} {k : ℕ}

lemma pow2_pos (h : al.toNat.isPowerOfTwo) : 0 < al.toNat := by
  obtain ⟨k, hk⟩ := h
  rw [hk]
  positivity

lemma pow2_le (h : al.toNat.isPowerOfTwo) : al.toNat ≤ 2 ^ 63 := by
  obtain ⟨k, hk⟩ := h
  rw [hk]
  apply Nat.pow_le_pow_right (by omega)
  by_contra hk'
  have : 2 ^ 64 ≤ 2 ^ k := Nat.pow_le_pow_right (by omega) (by omega)
  omega

lemma pow2_dvd_pow2 {m n : ℕ} (hm : m.isPowerOfTwo) (hn : n.isPowerOfTwo) (h : m ≤ n) : m ∣ n := by
  obtain ⟨i, rfl⟩ := hm
  obtain ⟨j, rfl⟩ := hn
  exact pow_dvd_pow 2 ((Nat.pow_le_pow_iff_right (by omega)).1 h)

lemma alignDown_toNat (h : al.toNat = 2 ^ k) : (alignDown v al).toNat = v.toNat / 2 ^ k * 2 ^ k := by
  have hm : (al - 1).toNat = 2 ^ k - 1 := by
    have : 0 < 2 ^ k := by positivity
    bv_omega
  have hv : alignDown v al = (v >>> k) <<< k := by
    unfold alignDown
    apply BitVec.eq_of_getLsbD_eq
    intro i hi
    have hb : (al - 1).getLsbD i = decide (i < k) := by
      rw [BitVec.getLsbD, hm, Nat.testBit_two_pow_sub_one]
    simp only [BitVec.getLsbD_and, BitVec.getLsbD_not, hb, BitVec.getLsbD_shiftLeft,
      BitVec.getLsbD_ushiftRight]
    by_cases hik : i < k
    · simp [hik]
    · have : k + (i - k) = i := by omega
      simp [hik, hi, this]
  rw [hv, BitVec.toNat_shiftLeft, BitVec.toNat_ushiftRight, Nat.shiftRight_eq_div_pow,
    Nat.shiftLeft_eq]
  apply Nat.mod_eq_of_lt
  have := Nat.div_mul_le_self v.toNat (2 ^ k)
  omega

lemma alignUp_eq_alignDown : alignUp v al = alignDown (v + al - 1) al := rfl

/-- **Rounding up without wrapping**: the result is the multiple of the alignment in `[v, v + al)`. -/
theorem alignUp_spec (h : al.toNat.isPowerOfTwo) (hw : v.toNat + al.toNat ≤ 2 ^ 64) :
    al.toNat ∣ (alignUp v al).toNat ∧ v.toNat ≤ (alignUp v al).toNat ∧
      (alignUp v al).toNat < v.toNat + al.toNat := by
  have hpos := pow2_pos h
  obtain ⟨k, hk⟩ := h
  have hs : (v + al - 1).toNat = v.toNat + al.toNat - 1 := by bv_omega
  rw [alignUp_eq_alignDown, alignDown_toNat hk, hs, hk]
  rw [hk] at hpos
  refine ⟨Dvd.intro_left _ rfl, ?_, ?_⟩
  · have := Nat.lt_div_mul_add hpos (a := v.toNat + 2 ^ k - 1)
    omega
  · have := Nat.div_mul_le_self (v.toNat + 2 ^ k - 1) (2 ^ k)
    omega

lemma alignUp_le_of_dvd (h : al.toNat.isPowerOfTwo) (hw : v.toNat + al.toNat ≤ 2 ^ 64) {m : ℕ}
    (hm : al.toNat ∣ m) (hv : v.toNat ≤ m) : (alignUp v al).toNat ≤ m := by
  obtain ⟨⟨q, hq⟩, -, hlt⟩ := alignUp_spec h hw
  obtain ⟨r, rfl⟩ := hm
  rw [hq] at hlt ⊢
  apply Nat.mul_le_mul_left
  by_contra hlt'
  have : al.toNat * (r + 1) ≤ al.toNat * q := Nat.mul_le_mul_left _ (by omega)
  rw [Nat.mul_add] at this
  omega

end Pow2

end CrossShim.Lib
