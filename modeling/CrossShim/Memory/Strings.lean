import CrossShim.Memory.Access

/-!
# Guest strings

`read_string` of the handlers: the bytes up to the first NUL, the first one that is not mapped, or a limit.
-/

namespace CrossShim.Memory

open Lib List

namespace GuestMemory

def readString (g : GuestMemory) : ℕ → Word → List Byte
  | 0, _ => []
  | maxLen + 1, a => if g.mapped a = false ∨ g.bytes a = 0 then [] else g.bytes a :: g.readString maxLen (a + 1)

/-- The string at an address, as the guest reads it. -/
def stringAt (g : GuestMemory) (a : Word) : List Byte := g.readString (2 ^ 64) a

variable {g g' : GuestMemory} {a : Word} {n k : ℕ} {bs : List Byte}

lemma zero_notMem_readString : (0 : Byte) ∉ g.readString n a := by
  induction n generalizing a with
  | zero => exact not_mem_nil
  | succ n ih =>
    rw [readString]
    split_ifs with h
    · exact not_mem_nil
    · rw [mem_cons, not_or]
      exact ⟨fun h0 => h (.inr h0.symm), ih⟩

lemma take_readString (h : k ≤ n) : (g.readString n a).take k = g.readString k a := by
  induction k generalizing n a with
  | zero => rfl
  | succ k ih =>
    obtain ⟨n, rfl⟩ : ∃ m, n = m + 1 := ⟨n - 1, by omega⟩
    rw [readString, readString]
    split_ifs
    · rfl
    · rw [take_succ_cons, ih (by omega)]

lemma take_stringAt (h : k ≤ 2 ^ 64) : (g.stringAt a).take k = g.readString k a := take_readString h

lemma readString_congr (hm : g'.mapped = g.mapped)
    (h : ∀ i ≤ (g.readString n a).length, g'.bytes (a + BitVec.ofNat 64 i) = g.bytes (a + BitVec.ofNat 64 i)) :
    g'.readString n a = g.readString n a := by
  induction n generalizing a with
  | zero => rfl
  | succ n ih =>
    have h0 : g'.bytes a = g.bytes a := by simpa using h 0 (Nat.zero_le _)
    rw [readString, readString, hm, h0]
    by_cases hend : g.mapped a = false ∨ g.bytes a = 0
    · rw [if_pos hend, if_pos hend]
    · rw [if_neg hend, if_neg hend, ih]
      intro i hi
      have := h (i + 1) (by rw [readString, if_neg hend]; exact Nat.succ_le_succ hi)
      rwa [show a + BitVec.ofNat 64 (i + 1) = a + 1 + BitVec.ofNat 64 i by bv_omega] at this

lemma readString_of_lt (h : (g.readString n a).length < n) (hk : n ≤ k) : g.readString k a = g.readString n a := by
  rw [← take_readString hk] at h ⊢
  rw [take_of_length_le]
  rw [length_take] at h
  omega

lemma drop_stringAt {i : ℕ} (hlt : (g.stringAt a).length < 2 ^ 64) (hi : i ≤ (g.stringAt a).length) :
    g.stringAt (a + BitVec.ofNat 64 i) = (g.stringAt a).drop i := by
  induction i generalizing a with
  | zero => simp
  | succ i ih =>
    have hne : ¬ (g.mapped a = false ∨ g.bytes a = 0) := by
      intro hend
      have : g.stringAt a = [] := by
        unfold stringAt
        rw [show 2 ^ 64 = 2 ^ 64 - 1 + 1 from rfl, readString, if_pos hend]
      rw [this] at hi
      exact absurd hi (by simp)
    have hcons : g.stringAt a = g.bytes a :: g.readString (2 ^ 64 - 1) (a + 1) := by
      unfold stringAt
      rw [show 2 ^ 64 = 2 ^ 64 - 1 + 1 from rfl, readString, if_neg hne]
      rfl
    rw [hcons, length_cons] at hlt hi
    have hrest : g.stringAt (a + 1) = g.readString (2 ^ 64 - 1) (a + 1) := readString_of_lt (by omega) (by omega)
    rw [hcons, drop_succ_cons, ← hrest,
      show a + BitVec.ofNat 64 (i + 1) = a + 1 + BitVec.ofNat 64 i by bv_omega]
    exact ih (by rw [hrest]; omega) (by rw [hrest]; omega)

/-- **A string that was written** is read back, up to its first NUL. -/
theorem readString_of_load (hm : g.Mapped a (bs.length + 1)) (hload : load g.bytes a (bs.length + 1) = bs ++ [0])
    (hn : bs.length < n) : g.readString n a = bs.takeWhile (· ≠ 0) := by
  have hbyte : ∀ i < bs.length + 1, g.bytes (a + BitVec.ofNat 64 i) = (bs ++ [0]).getD i 0 := by
    intro i hi
    rw [← hload, getD_eq_getElem?_getD, getElem?_load hi]
    rfl
  have hmapped : ∀ i < bs.length + 1, g.mapped (a + BitVec.ofNat 64 i) = true :=
    fun i hi => hm.2 _ (add_mem_block hi hm.1)
  clear hm hload
  induction bs generalizing a n with
  | nil =>
    obtain ⟨n, rfl⟩ : ∃ m, n = m + 1 := ⟨n - 1, by simp at hn; omega⟩
    have : g.bytes a = 0 := by simpa using hbyte 0 (by simp)
    rw [readString, if_pos (.inr this)]
    rfl
  | cons b bs ih =>
    obtain ⟨n, rfl⟩ : ∃ m, n = m + 1 := ⟨n - 1, by simp at hn; omega⟩
    rw [length_cons] at hbyte hmapped hn
    have hb : g.bytes a = b := by simpa using hbyte 0 (by omega)
    have ha : g.mapped a = true := by simpa using hmapped 0 (by omega)
    have hnext : ∀ i, a + BitVec.ofNat 64 (i + 1) = a + 1 + BitVec.ofNat 64 i := fun i => by bv_omega
    rw [readString, hb, takeWhile_cons]
    by_cases h0 : b = 0
    · rw [if_pos (.inr h0), if_neg (by simpa using h0)]
    rw [if_neg (by rw [ha]; simpa using h0), if_pos (by simpa using h0), ih (by omega)]
    · intro i hi
      have := hbyte (i + 1) (by omega)
      rwa [hnext] at this
    · intro i hi
      have := hmapped (i + 1) (by omega)
      rwa [hnext] at this

end GuestMemory

end CrossShim.Memory
