import CrossShim.Memory.Access

/-!
# Wide strings that are appended

`wcscat` and `wcsncat` of `hle_wchar.cpp`, on the cells of a destination and of a source that do not overlap.  The end of
the destination is looked for among its first 4096 characters, and not at all if the first one is no Unicode scalar; if it
is not found, the source is copied over the start: `appends_iff`.  On guest memory the loops do what they do on the cells
that are read from it: `copyMem_refines`.
-/

namespace CrossShim.Wchar

open Function Lib List Memory GuestMemory

/-- The cells of a wide string, from its start on. -/
abbrev Cells := ℕ → BitVec 32

def isValidUnicodeScalar (wc : BitVec 32) : Bool := wc ≤ 0x10ffff ∧ ¬(0xd800 ≤ wc ∧ wc ≤ 0xdfff)

/-- The loop of `guest_concat_length`. -/
def concatLengthFrom (dest : Cells) : ℕ → ℕ → ℕ
  | 0, _ => 0
  | rounds + 1, i =>
    if dest i = 0 then i
    else if i = 0 ∧ !isValidUnicodeScalar (dest i) then 0
    else concatLengthFrom dest rounds (i + 1)

def guestConcatLength (dest : Cells) : ℕ := concatLengthFrom dest 4096 0

/-- The loops of both functions.  After its last round `wcsncat` terminates the string; that of `wcscat` has no last. -/
def copyFrom (src : Cells) (destLen : ℕ) (terminates : Bool) : ℕ → ℕ → Cells → Option Cells
  | 0, i, dest => if terminates then some (update dest (destLen + i) 0) else none
  | rounds + 1, i, dest =>
    let dest := update dest (destLen + i) (src i)
    if src i = 0 then some dest else copyFrom src destLen terminates rounds (i + 1) dest

/-- `wcscat`, if its loop ends within so many rounds. -/
def wcscat (rounds : ℕ) (dest src : Cells) : Option Cells := copyFrom src (guestConcatLength dest) false rounds 0 dest

def wcsncat (n : ℕ) (dest src : Cells) : Option Cells := copyFrom src (guestConcatLength dest) true n 0 dest

/-- The string in the cells, with its terminator. -/
def IsString (cells : Cells) (text : List (BitVec 32)) : Prop := 0 ∉ text ∧ ∀ i ≤ text.length, cells i = text.getD i 0

section

variable {dest src : Cells} {d s : List (BitVec 32)} {rounds i : ℕ} {terminates : Bool}

lemma IsString.eq_zero_iff (h : IsString dest d) (hi : i ≤ d.length) : dest i = 0 ↔ i = d.length := by
  have h0 := h.1
  rw [h.2 i hi]
  grind

lemma concatLengthFrom_eq (h : IsString dest d) (hi : i ≤ d.length) (hvalid : d = [] ∨ isValidUnicodeScalar (dest 0)) :
    concatLengthFrom dest rounds i = if d.length < i + rounds then d.length else 0 := by
  induction rounds generalizing i with
  | zero => grind [concatLengthFrom]
  | succ rounds ih =>
    have hzero := h.eq_zero_iff hi
    rw [concatLengthFrom]
    grind

/-- **Where the end is found.** -/
lemma guestConcatLength_eq (h : IsString dest d) : guestConcatLength dest =
    if d.length < 4096 ∧ (d = [] ∨ isValidUnicodeScalar (dest 0)) then d.length else 0 := by
  unfold guestConcatLength
  by_cases hvalid : d = [] ∨ isValidUnicodeScalar (dest 0)
  · simp [concatLengthFrom_eq h (Nat.zero_le _) hvalid, hvalid]
  · have hzero := h.eq_zero_iff (Nat.zero_le _)
    have hnone : ∀ rounds, concatLengthFrom dest rounds 0 = 0 := by
      intro rounds
      cases rounds <;> grind [concatLengthFrom]
    rw [hnone, if_neg fun h => hvalid h.2]

/-- **What is copied** in so many rounds. -/
lemma copyFrom_eq (dest : Cells) (destLen : ℕ) (h : IsString src s) (hi : i ≤ s.length)
    (hends : terminates ∨ s.length < i + rounds) :
    ∃ dest', copyFrom src destLen terminates rounds i dest = some dest' ∧ (∀ j < destLen + i, dest' j = dest j) ∧
      ∀ j ≤ ((s.drop i).take rounds).length, dest' (destLen + i + j) = ((s.drop i).take rounds).getD j 0 := by
  induction rounds generalizing i dest with
  | zero => exact ⟨_, if_pos (hends.resolve_right (by omega)), by grind, by grind⟩
  | succ rounds ih =>
    have hzero := h.eq_zero_iff hi
    rw [copyFrom]
    by_cases hend : i = s.length
    · exact ⟨_, if_pos (hzero.2 hend), by grind, by grind⟩
    · obtain ⟨dest', hrun, hbefore, hafter⟩ := ih (i := i + 1) (update dest (destLen + i) (src i)) (by omega)
        (hends.imp_right (by omega))
      refine ⟨dest', by rw [if_neg (mt hzero.1 hend), hrun], by grind, fun j hj => ?_⟩
      have hi' := h.2 i hi
      cases j with
      | zero => grind
      | succ j =>
        have := hafter j
        grind

lemma copy_iff (hd : IsString dest d) (hs : IsString src s) (hends : terminates ∨ s.length < rounds) :
    (∃ dest', copyFrom src (guestConcatLength dest) terminates rounds 0 dest = some dest' ∧
      IsString dest' (d ++ s.take rounds)) ↔ d = [] ∨ d.length < 4096 ∧ isValidUnicodeScalar (dest 0) := by
  obtain ⟨dest', hrun, hbefore, hafter⟩ := copyFrom_eq dest (guestConcatLength dest) hs (Nat.zero_le _)
    (by rwa [Nat.zero_add] : terminates ∨ s.length < 0 + rounds)
  simp only [hrun, Option.some.injEq, exists_eq_left', drop_zero, Nat.add_zero] at hafter ⊢
  rw [guestConcatLength_eq hd] at hbefore hafter
  by_cases hcond : d.length < 4096 ∧ (d = [] ∨ isValidUnicodeScalar (dest 0))
  · rw [if_pos hcond] at hbefore hafter
    refine iff_of_true ⟨?_, fun i hi => ?_⟩ (hcond.2.imp_right fun h => ⟨hcond.1, h⟩)
    · exact fun h0 => (mem_append.1 h0).elim hd.1 fun h0 => hs.1 (mem_of_mem_take h0)
    · by_cases hold : i < d.length
      · rw [hbefore i hold, getD_append _ _ _ _ hold, hd.2 i hold.le]
      · rw [length_append] at hi
        rw [getD_append_right _ _ _ _ (by omega), ← hafter _ (by omega), Nat.add_sub_cancel' (by omega)]
  · rw [if_neg hcond] at hafter
    refine iff_of_false (fun h => hcond ?_) fun h => hcond ?_
    -- the terminator is where a character of the destination should be
    · have hend := (h.eq_zero_iff (i := (s.take rounds).length) (by simp)).1 (by simpa using hafter _ le_rfl)
      obtain rfl : d = [] := by simpa using hend
      exact ⟨by decide, .inl rfl⟩
    · obtain rfl | ⟨hlen, hvalid⟩ := h
      · exact ⟨by decide, .inl rfl⟩
      · exact ⟨hlen, .inr hvalid⟩

end

/-- **Appending** gives the old destination and the source, for `wcsncat` so many characters of it, exactly if the
destination is empty, or shorter than 4096 and starts with a Unicode scalar. -/
theorem appends_iff (dest src : Cells) (d s : List (BitVec 32)) (n rounds : ℕ) (hd : IsString dest d)
    (hs : IsString src s) (hrounds : s.length < rounds) :
    ((∃ dest', wcscat rounds dest src = some dest' ∧ IsString dest' (d ++ s)) ↔
      d = [] ∨ d.length < 4096 ∧ isValidUnicodeScalar (dest 0)) ∧
    ((∃ dest', wcsncat n dest src = some dest' ∧ IsString dest' (d ++ s.take n)) ↔
      d = [] ∨ d.length < 4096 ∧ isValidUnicodeScalar (dest 0)) := by
  constructor
  · have hcat := copy_iff hd hs (.inr hrounds : false ∨ _)
    rwa [take_of_length_le hrounds.le] at hcat
  · exact copy_iff hd hs (.inl rfl)

/-- `ab` appended to `é`. -/
theorem appends_accent : ∃ dest', wcscat 3 (fun i => [0xe9].getD i 0) (fun i => [97, 98].getD i 0) = some dest' ∧
    IsString dest' [0xe9, 97, 98] :=
  ((appends_iff _ _ [0xe9] [97, 98] 0 3 ⟨by decide, fun _ _ => rfl⟩ ⟨by decide, fun _ _ => rfl⟩ (by decide)).1).2
    (.inr ⟨by decide, by decide⟩)

/-- Appended to a surrogate, `a` takes its place. -/
theorem appends_over_surrogate : (wcscat 2 (fun i => [0xd800].getD i 0) (fun i => [97].getD i 0)).map
    (fun dest' => [dest' 0, dest' 1]) = some [97, 0] := by
  decide +kernel

/-! ### The cells of guest memory -/

section

variable (mem : GuestMemory) (dest src : Word)

def wcharAt (a : Word) : Cells := fun i =>
  BitVec.ofNat 32 (ofLe (mem.read (a + BitVec.ofNat 64 (4 * i)) (leBytes 4 0)).1)

def setWchar (a : Word) (i : ℕ) (wc : BitVec 32) : GuestMemory :=
  (mem.write (a + BitVec.ofNat 64 (4 * i)) (leBytes 4 wc.toNat)).1

/-- The loops of both functions, on memory that is mapped. -/
def copyMem (destLen : ℕ) (terminates : Bool) : ℕ → ℕ → GuestMemory → Option GuestMemory
  | 0, i, mem => if terminates then some (setWchar mem dest (destLen + i) 0) else none
  | rounds + 1, i, mem =>
    let wc := wcharAt mem src i
    let mem := setWchar mem dest (destLen + i) wc
    if wc = 0 then some mem else copyMem destLen terminates rounds (i + 1) mem

/-- The first `n` cells from `a` on are mapped, and are these. -/
structure Shows (a : Word) (n : ℕ) (c : Cells) : Prop where
  mapped : mem.Mapped a (4 * n)
  cells : ∀ i < n, wcharAt mem a i = c i

end

section

variable {mem mem' : GuestMemory} {a b dest src : Word} {n k i destLen rounds : ℕ} {c D D' S : Cells} {wc : BitVec 32}
  {terminates : Bool}

lemma wcharAt_of_mapped (h : mem.Mapped a (4 * n)) (hi : i < n) :
    wcharAt mem a i = BitVec.ofNat 32 (ofLe (load mem.bytes (a + BitVec.ofNat 64 (4 * i)) 4)) := by
  rw [wcharAt, read_of_mapped (h.part (by rw [length_leBytes]; omega)), length_leBytes]

lemma Shows.set (h : Shows mem a n c) (hi : i < n) (wc : BitVec 32) :
    Shows (setWchar mem a i wc) a n (update c i wc) := by
  have hmap : (setWchar mem a i wc).Mapped a (4 * n) := h.mapped.congr rfl
  have hn := h.mapped.1
  refine ⟨hmap, fun j hj => ?_⟩
  have hbytes : (setWchar mem a i wc).bytes = store mem.bytes (a + BitVec.ofNat 64 (4 * i)) (leBytes 4 wc.toNat) := by
    rw [setWchar, write_of_mapped (h.mapped.part (by rw [length_leBytes]; omega))]
  rw [wcharAt_of_mapped hmap hj, hbytes]
  by_cases hji : j = i
  · subst hji
    rw [load_store_leBytes (by decide), ofLe_leBytes, update_self, Nat.mod_eq_of_lt (by exact wc.isLt),
      BitVec.ofNat_toNat]
    rfl
  · rw [update_of_ne hji, ← h.cells j hj, wcharAt_of_mapped h.mapped hj, load_store_of_disjoint (by decide)]
    rw [length_leBytes]
    obtain hlt | hlt := Nat.lt_or_gt_of_ne hji
    · exact disjoint_parts (by omega) (by omega)
    · exact (disjoint_parts (by omega) (by omega)).symm

lemma Shows.set_other (h : Shows mem a n c) (hd : Disjoint (block a (4 * n)) (block b (4 * k))) (hk : 4 * k ≤ 2 ^ 64)
    (hi : i < k) : Shows (setWchar mem b i wc) a n c := by
  have hmap : (setWchar mem b i wc).Mapped a (4 * n) := h.mapped.congr rfl
  refine ⟨hmap, fun j hj => ?_⟩
  rw [wcharAt_of_mapped hmap hj, ← h.cells j hj, wcharAt_of_mapped h.mapped hj, load_congr (by decide)]
  intro x hx
  refine write_of_notMem fun hx' => Set.disjoint_left.1 hd (block_subset_block (by omega) h.mapped.1 hx) ?_
  exact block_subset_block (by rw [length_leBytes]; omega) hk hx'

/-- **The loop on memory** does what the loop on cells does, if the terminator of the source is in reach. -/
theorem copyMem_refines (hd : Shows mem dest n D) (hs : Shows mem src k S)
    (hap : Disjoint (block src (4 * k)) (block dest (4 * n))) {j : ℕ} (hj : j < k) (hzero : S j = 0) (hi : i ≤ j)
    (hfit : destLen + j < n) (hrun : copyFrom S destLen terminates rounds i D = some D') :
    ∃ mem', copyMem dest src destLen terminates rounds i mem = some mem' ∧ Shows mem' dest n D' := by
  induction rounds generalizing i D mem with
  | zero =>
    obtain ⟨hends, heq⟩ := Option.ite_none_right_eq_some.1 hrun
    cases heq
    exact ⟨_, if_pos hends, hd.set (by omega) 0⟩
  | succ rounds ih =>
    have hwc := hs.cells i (by omega)
    have hd' := hd.set (i := destLen + i) (by omega) (S i)
    rw [copyFrom] at hrun
    simp only [copyMem, hwc]
    split_ifs at hrun ⊢ with h0
    · cases hrun
      exact ⟨_, rfl, hd'⟩
    · have hij : i ≠ j := fun h => h0 (h ▸ hzero)
      exact ih hd' (hs.set_other hap hd.mapped.1 (by omega)) (by omega) hrun

end

end CrossShim.Wchar
