import Mathlib

/-!
# Signed 64-bit arithmetic

The integers of `int64_t`, and the sums that wrap around.
-/

namespace CrossShim.Lib.Int64

def InRange (x : ℤ) : Prop := -2 ^ 63 ≤ x ∧ x < 2 ^ 63

instance (x : ℤ) : Decidable (InRange x) := inferInstanceAs (Decidable (_ ∧ _))

/-- The `int64_t` that agrees with the integer in the low 64 bits. -/
def wrap (x : ℤ) : ℤ := (x + 2 ^ 63) % 2 ^ 64 - 2 ^ 63

variable {x y : ℤ}

lemma inRange_wrap (x : ℤ) : InRange (wrap x) := by
  unfold InRange wrap
  omega

lemma wrap_eq (h : InRange x) : wrap x = x := by
  unfold InRange at h
  unfold wrap
  omega

lemma wrap_of_lt (h : 2 ^ 63 ≤ x) (h' : x < 2 ^ 63 + 2 ^ 64) : wrap x = x - 2 ^ 64 := by
  unfold wrap
  omega

@[simp] lemma wrap_add_wrap (x y : ℤ) : wrap (x + wrap y) = wrap (x + y) := by
  unfold wrap
  omega

@[simp] lemma wrap_wrap_add (x y : ℤ) : wrap (wrap x + y) = wrap (x + y) := by
  unfold wrap
  omega

end CrossShim.Lib.Int64
