import CrossShim.Lib.Word
import CrossShim.Lib.Span

/-!
# Byte images

A byte image gives a byte at every address.  `window m a` is the image seen from `a` on (what a read at `a`
delivers), `splice m a buf n` the image after the first `n` bytes of `buf` are stored at `a`.

`splice_add` and `splice_of_apart` are the two laws of stores: what was stored is read back, and a range that
is apart from the store reads as before.
-/

namespace CrossShim.Lib

abbrev Byte : Type := BitVec 8

abbrev Bytes : Type := Word → Byte

/-- The image from `a` on. -/
def window (m : Bytes) (a : Word) : Bytes := fun i => m (a + i)

/-- The image after storing the first `n` bytes of `buf` at `a`. -/
def splice (m : Bytes) (a : Word) (buf : Bytes) (n : Word) : Bytes :=
  fun x => if x - a < n then buf (x - a) else m x

section

variable {m buf : Bytes} {a n x i : Word}

@[simp] lemma window_apply : window m a i = m (a + i) := rfl

lemma sub_lt_iff (hw : a.toNat + n.toNat ≤ 2 ^ 64) : x - a < n ↔ x.toNat ∈ span a.toNat n.toNat := by
  rw [mem_span]
  constructor
  · intro h
    bv_omega
  · rintro ⟨h1, h2⟩
    bv_omega

/-- **What was stored is read back.** -/
theorem splice_add (hi : i < n) : splice m a buf n (a + i) = buf i := by
  have he : a + i - a = i := by bv_omega
  simp only [splice, he, if_pos hi]

lemma splice_of_lt (h : x - a < n) : splice m a buf n x = buf (x - a) := if_pos h

lemma splice_of_not_lt (h : ¬ x - a < n) : splice m a buf n x = m x := if_neg h

/-- **A byte outside the store** is as before. -/
theorem splice_of_notMem (hw : a.toNat + n.toNat ≤ 2 ^ 64) (hx : x.toNat ∉ span a.toNat n.toNat) :
    splice m a buf n x = m x :=
  splice_of_not_lt fun h => hx ((sub_lt_iff hw).1 h)

@[simp] lemma splice_zero : splice m a buf 0 = m := by
  funext x
  exact splice_of_not_lt (by bv_omega)

lemma splice_append {k : Word} (hw : n.toNat + k.toNat < 2 ^ 64) :
    splice (splice m a buf n) (a + n) (fun i => buf (n + i)) k = splice m a buf (n + k) := by
  funext x
  by_cases h2 : x - (a + n) < k
  · have he : n + (x - (a + n)) = x - a := by bv_omega
    rw [splice_of_lt h2, splice_of_lt (by bv_omega), he]
  · rw [splice_of_not_lt h2]
    by_cases h1 : x - a < n
    · rw [splice_of_lt h1, splice_of_lt (by bv_omega)]
    · rw [splice_of_not_lt h1, splice_of_not_lt (by bv_omega)]

/-- **A range apart from the store** reads as before. -/
theorem splice_of_apart {b l : ℕ} (hw : a.toNat + n.toNat ≤ 2 ^ 64) (hap : Apart a.toNat n.toNat b l)
    (hx : x.toNat ∈ span b l) : splice m a buf n x = m x := by
  refine splice_of_notMem hw fun h => ?_
  simp only [mem_span, Apart] at *
  omega

end

end CrossShim.Lib
