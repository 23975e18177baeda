import CrossShim.Lib.Bytes

/-!
# Little-endian words in byte images

`readWord m a` is the 64-bit word at `a`, `readHalf m a` the 32-bit one, and `ofWords ws` the image of a list of
words one after the other.
-/

namespace CrossShim.Lib

open BitVec

def readWord (m : Bytes) (a : Word) : Word :=
  m (a + 7) ++ m (a + 6) ++ m (a + 5) ++ m (a + 4) ++ m (a + 3) ++ m (a + 2) ++ m (a + 1) ++ m a

def readHalf (m : Bytes) (a : Word) : BitVec 32 := m (a + 3) ++ m (a + 2) ++ m (a + 1) ++ m a

def byteOf (w : Word) (j : ℕ) : Byte := w.extractLsb' (8 * j) 8

def ofWords (ws : List Word) : Bytes := fun i => byteOf (ws.getD (i.toNat / 8) 0) (i.toNat % 8)

lemma word_eq_bytes (w : Word) :
    byteOf w 7 ++ byteOf w 6 ++ byteOf w 5 ++ byteOf w 4 ++ byteOf w 3 ++ byteOf w 2 ++ byteOf w 1 ++ byteOf w 0 =
      w := by
  simp only [byteOf]
  rw [show 8 * 7 = 56 from rfl, show 8 * 6 = 48 from rfl, show 8 * 5 = 40 from rfl, show 8 * 4 = 32 from rfl,
    show 8 * 3 = 24 from rfl, show 8 * 2 = 16 from rfl, show 8 * 1 = 8 from rfl, show 8 * 0 = 0 from rfl]
  simp only [extractLsb'_append_extractLsb'_eq_extractLsb']
  simp

variable {m m' : Bytes} {a w : Word} {i : ℕ}

lemma readWord_of_bytes (h : ∀ j < 8, m (a + BitVec.ofNat 64 j) = byteOf w j) : readWord m a = w := by
  have h0 := h 0 (by omega)
  rw [BitVec.add_zero] at h0
  rw [← word_eq_bytes w, ← h 7 (by omega), ← h 6 (by omega), ← h 5 (by omega), ← h 4 (by omega),
    ← h 3 (by omega), ← h 2 (by omega), ← h 1 (by omega), ← h0]
  rfl

lemma readWord_window : readWord (window m a) 0 = readWord m a := by
  simp [readWord]

/-- **Words stored are read back.** -/
theorem readWord_splice_ofWords {ws : List Word} (hlen : 8 * ws.length < 2 ^ 64) (hw : ws[i]? = some w) :
    readWord (splice m a (ofWords ws) (BitVec.ofNat 64 (8 * ws.length))) (a + BitVec.ofNat 64 (8 * i)) = w := by
  obtain ⟨hi, -⟩ := List.getElem?_eq_some_iff.1 hw
  refine readWord_of_bytes fun j hj => ?_
  have hidx : (BitVec.ofNat 64 (8 * i + j)).toNat = 8 * i + j := by
    rw [toNat_ofNat, Nat.mod_eq_of_lt]
    omega
  have hadd : a + BitVec.ofNat 64 (8 * i) + BitVec.ofNat 64 j = a + BitVec.ofNat 64 (8 * i + j) := by
    rw [ofNat_add]
    bv_omega
  have hlt : BitVec.ofNat 64 (8 * i + j) < BitVec.ofNat 64 (8 * ws.length) := by
    rw [lt_def, hidx, toNat_ofNat, Nat.mod_eq_of_lt hlen]
    omega
  rw [hadd, splice_add hlt]
  simp only [ofWords, hidx]
  rw [show (8 * i + j) / 8 = i by omega, show (8 * i + j) % 8 = j by omega, List.getD_eq_getElem?_getD, hw]
  rfl

def ofHalves (ws : List (BitVec 32)) : Bytes :=
  fun i => (ws.getD (i.toNat / 4) 0).extractLsb' (8 * (i.toNat % 4)) 8

lemma readHalf_of_bytes {w : BitVec 32} (h : ∀ j < 4, m (a + BitVec.ofNat 64 j) = w.extractLsb' (8 * j) 8) :
    readHalf m a = w := by
  have h0 := h 0 (by omega)
  rw [BitVec.add_zero] at h0
  have hw : w.extractLsb' 24 8 ++ w.extractLsb' 16 8 ++ w.extractLsb' 8 8 ++ w.extractLsb' 0 8 = w := by
    simp only [extractLsb'_append_extractLsb'_eq_extractLsb']
    simp
  rw [← hw, ← h 3 (by omega), ← h 2 (by omega), ← h 1 (by omega), ← h0]
  rfl

/-- **32-bit words stored are read back.** -/
theorem readHalf_splice_ofHalves {ws : List (BitVec 32)} {w : BitVec 32} (hlen : 4 * ws.length < 2 ^ 64)
    (hw : ws[i]? = some w) :
    readHalf (splice m a (ofHalves ws) (BitVec.ofNat 64 (4 * ws.length))) (a + BitVec.ofNat 64 (4 * i)) = w := by
  obtain ⟨hi, -⟩ := List.getElem?_eq_some_iff.1 hw
  refine readHalf_of_bytes fun j hj => ?_
  have hidx : (BitVec.ofNat 64 (4 * i + j)).toNat = 4 * i + j := by
    rw [toNat_ofNat, Nat.mod_eq_of_lt]
    omega
  have hadd : a + BitVec.ofNat 64 (4 * i) + BitVec.ofNat 64 j = a + BitVec.ofNat 64 (4 * i + j) := by
    rw [ofNat_add]
    bv_omega
  have hlt : BitVec.ofNat 64 (4 * i + j) < BitVec.ofNat 64 (4 * ws.length) := by
    rw [lt_def, hidx, toNat_ofNat, Nat.mod_eq_of_lt hlen]
    omega
  rw [hadd, splice_add hlt]
  simp only [ofHalves, hidx]
  rw [show (4 * i + j) / 4 = i by omega, show (4 * i + j) % 4 = j by omega, List.getD_eq_getElem?_getD, hw]
  rfl

lemma readWord_congr (h : ∀ j < 8, m' (a + BitVec.ofNat 64 j) = m (a + BitVec.ofNat 64 j)) :
    readWord m' a = readWord m a := by
  have h0 := h 0 (by omega)
  rw [BitVec.add_zero] at h0
  unfold readWord
  rw [← show m' (a + 7) = m (a + 7) from h 7 (by omega), ← show m' (a + 6) = m (a + 6) from h 6 (by omega),
    ← show m' (a + 5) = m (a + 5) from h 5 (by omega), ← show m' (a + 4) = m (a + 4) from h 4 (by omega),
    ← show m' (a + 3) = m (a + 3) from h 3 (by omega), ← show m' (a + 2) = m (a + 2) from h 2 (by omega),
    ← show m' (a + 1) = m (a + 1) from h 1 (by omega), ← h0]

lemma readHalf_congr (h : ∀ j < 4, m' (a + BitVec.ofNat 64 j) = m (a + BitVec.ofNat 64 j)) :
    readHalf m' a = readHalf m a := by
  have h0 := h 0 (by omega)
  rw [BitVec.add_zero] at h0
  unfold readHalf
  rw [← show m' (a + 3) = m (a + 3) from h 3 (by omega), ← show m' (a + 2) = m (a + 2) from h 2 (by omega),
    ← show m' (a + 1) = m (a + 1) from h 1 (by omega), ← h0]

/-- Store words one by one, each 8 bytes after the one before. -/
def storeWords (m : Bytes) (a : Word) : List Word → Bytes
  | [] => m
  | w :: ws => storeWords (splice m a (ofWords [w]) 8) (a + 8) ws

/-- **Stores one by one make one store.** -/
theorem storeWords_eq (ws : List Word) : ∀ (m : Bytes) (a : Word), 8 * ws.length < 2 ^ 64 →
    storeWords m a ws = splice m a (ofWords ws) (BitVec.ofNat 64 (8 * ws.length)) := by
  induction ws with
  | nil =>
    intro m a _
    exact splice_zero.symm
  | cons w ws ih =>
    intro m a hlen
    rw [List.length_cons] at hlen
    unfold storeWords
    rw [ih _ _ (by omega)]
    funext x
    have hn : (BitVec.ofNat 64 (8 * ws.length)).toNat = 8 * ws.length := by
      rw [toNat_ofNat, Nat.mod_eq_of_lt (by omega)]
    have hn' : (BitVec.ofNat 64 (8 * (w :: ws).length)).toNat = 8 * ws.length + 8 := by
      rw [List.length_cons, toNat_ofNat, Nat.mod_eq_of_lt (by omega)]
      omega
    generalize BitVec.ofNat 64 (8 * ws.length) = n at *
    generalize BitVec.ofNat 64 (8 * (w :: ws).length) = n' at *
    simp only [splice]
    by_cases h8 : x - a < 8
    · -- in the first word
      have h1 : ¬ x - (a + 8) < n := by bv_omega
      have h2 : x - a < n' := by bv_omega
      have h3 : (x - a).toNat / 8 = 0 := by
        rw [lt_def] at h8
        exact Nat.div_eq_of_lt h8
      rw [if_neg h1, if_pos h8, if_pos h2]
      simp only [ofWords, h3, List.getD_cons_zero]
    · by_cases hx : x - (a + 8) < n
      · -- in a later word
        have h2 : x - a < n' := by bv_omega
        have h3 : (x - a).toNat = (x - (a + 8)).toNat + 8 := by bv_omega
        rw [if_pos hx, if_pos h2]
        simp only [ofWords, h3]
        rw [Nat.add_div_right _ (by omega), Nat.add_mod_right, List.getD_cons_succ]
      · have h2 : ¬ x - a < n' := by bv_omega
        rw [if_neg hx, if_neg h8, if_neg h2]

lemma exists_ofWords_ne (b : Byte) (n : ℕ) :
    ∃ ws : List Word, ws.length = n ∧ ∀ k (i : Word), i.toNat < 8 * (n - k) → ofWords (ws.drop k) i ≠ b := by
  obtain ⟨w, hw⟩ : ∃ w : Word, ∀ j < 8, byteOf w j ≠ b := by
    by_cases h : b = 0
    · subst h
      exact ⟨BitVec.allOnes 64, by decide⟩
    · exact ⟨0, fun j _ hj => h (by simpa [byteOf] using hj.symm)⟩
  refine ⟨List.replicate n w, List.length_replicate, fun k i hi => ?_⟩
  have hget : ((List.replicate n w).drop k).getD (i.toNat / 8) 0 = w := by
    rw [List.drop_replicate, List.getD_eq_getElem?_getD, List.getElem?_replicate, if_pos (by omega)]
    rfl
  unfold ofWords
  rw [hget]
  exact hw _ (Nat.mod_lt _ (by omega))

end CrossShim.Lib
