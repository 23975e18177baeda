import CrossShim.Lib.Bisect
import CrossShim.Stdlib.Qsort

/-!
# `bsearch`

The handler of `hle_stdlib.cpp`.  It bisects the array with a comparison that the guest makes, and so the guest decides
what is found: `bsearch_finds`, for an array that its comparison divides as `bsearch` asks for.
-/

namespace CrossShim.Stdlib

open Lib Memory

section

variable (call : GuestCall) (key base size compar : Word)

/-- The loop of `bsearch`; `none` when it is not over after this many rounds. -/
def searchLoop : ℕ → ℕ → ℕ → GuestMemory → Option (Word × GuestMemory)
  | 0, _, _, _ => none
  | rounds + 1, low, high, mem =>
    if low < high then
      let mid := low + (high - low) / 2
      let midAddr := elemAddr base size mid
      let (result, mem) := call compar [key, midAddr] mem
      let cmp := cmpResult result
      if cmp = 0 then some (midAddr, mem)
      else if cmp < 0 then searchLoop rounds low mid mem
      else searchLoop rounds (mid + 1) high mem
    else some (0, mem)

def bsearch (rounds : ℕ) (nmemb : Word) (mem : GuestMemory) : Option (Word × GuestMemory) :=
  if nmemb = 0 ∨ size = 0 ∨ compar = 0 then some (0, mem)
  else searchLoop call key base size compar rounds 0 nmemb.toNat mem

end

/-- Whatever the comparisons leave behind in memory, that of `key` with element `i` comes to `cmp i`. -/
def Compares (call : GuestCall) (key base size compar nmemb : Word) (mem : GuestMemory) (cmp : ℕ → ℤ) : Prop :=
  ∃ I : GuestMemory → Prop, I mem ∧ ∀ mem', I mem' → ∀ i, i < nmemb.toNat →
    cmpResult (call compar [key, elemAddr base size i] mem').1 = cmp i ∧
      I (call compar [key, elemAddr base size i] mem').2

def foundAddr (base size : Word) : Option ℕ → Word
  | some i => elemAddr base size i
  | none => 0

section

variable {call : GuestCall} {key base size compar nmemb : Word} {cmp : ℕ → ℤ} {I : GuestMemory → Prop}

/-- **The loop bisects.** -/
theorem searchLoop_eq (hI : ∀ mem, I mem → ∀ i, i < nmemb.toNat →
      cmpResult (call compar [key, elemAddr base size i] mem).1 = cmp i ∧
        I (call compar [key, elemAddr base size i] mem).2) :
    ∀ rounds low high mem, I mem → high ≤ nmemb.toNat →
      (searchLoop call key base size compar rounds low high mem).map Prod.fst =
        (bisect cmp rounds low high).map (foundAddr base size) := by
  intro rounds
  induction rounds with
  | zero =>
    intro low high mem _ _
    rfl
  | succ rounds ih =>
    intro low high mem hmem hle
    unfold searchLoop bisect
    by_cases hlow : low < high
    · rw [if_pos hlow, if_pos hlow]
      obtain ⟨hres, hnext⟩ := hI mem hmem (low + (high - low) / 2) (by omega)
      simp only [hres]
      by_cases h0 : cmp (low + (high - low) / 2) = 0
      · rw [if_pos h0, if_pos h0]
        rfl
      · rw [if_neg h0, if_neg h0]
        by_cases hneg : cmp (low + (high - low) / 2) < 0
        · rw [if_pos hneg, if_pos hneg]
          exact ih _ _ _ hnext (by omega)
        · rw [if_neg hneg, if_neg hneg]
          exact ih _ _ _ hnext hle
    · rw [if_neg hlow, if_neg hlow]
      rfl

end

/-- **`bsearch` ends**, after 65 rounds at most. Where the elements have a size, it returns the address of one that
compares equal to the key, or 0 if there is none; where they have none, it returns 0. -/
theorem bsearch_finds (call : GuestCall) (key base nmemb size compar : Word) (mem : GuestMemory) (cmp : ℕ → ℤ)
    (hfun : compar ≠ 0) (hcmp : Compares call key base size compar nmemb mem cmp)
    (hpart : Partitioned cmp nmemb.toNat) :
    ∃ result mem', bsearch call key base size compar 65 nmemb mem = some (result, mem') ∧
      (size ≠ 0 → (∃ i, i < nmemb.toNat ∧ cmp i = 0) →
        ∃ i, i < nmemb.toNat ∧ cmp i = 0 ∧ result = elemAddr base size i) ∧
      (size ≠ 0 → (¬ ∃ i, i < nmemb.toNat ∧ cmp i = 0) → result = 0) ∧
      (size = 0 → result = 0) := by
  unfold bsearch
  by_cases hn : nmemb = 0
  · rw [if_pos (.inl hn)]
    refine ⟨0, mem, rfl, ?_, fun _ _ => rfl, fun _ => rfl⟩
    rintro - ⟨i, hi, -⟩
    subst hn
    exact absurd hi (Nat.not_lt_zero i)
  by_cases hs : size = 0
  · rw [if_pos (.inr (.inl hs))]
    exact ⟨0, mem, rfl, fun h => absurd hs h, fun h => absurd hs h, fun _ => rfl⟩
  rw [if_neg (by simp only [hn, hs, hfun, or_false, not_false_eq_true])]
  obtain ⟨I, hmem, hI⟩ := hcmp
  obtain ⟨r, hr, hfinds⟩ := bisect_spec hpart nmemb.isLt
  have heq := searchLoop_eq hI 65 0 nmemb.toNat mem hmem le_rfl
  rw [hr, Option.map_some, Option.map_eq_some_iff] at heq
  obtain ⟨⟨result, mem'⟩, hrun, hres⟩ := heq
  refine ⟨result, mem', hrun, ?_, ?_, fun h => absurd h hs⟩
  · rintro - ⟨i, hi, h0⟩
    cases r with
    | none => exact absurd h0 (hfinds i hi)
    | some j => exact ⟨j, hfinds.1, hfinds.2, hres⟩
  · intro _ hno
    cases r with
    | none => exact hres
    | some j => exact absurd ⟨j, hfinds⟩ hno

/-- `1, 2, 3` at `0x1000`, and a key of 2 at `0x2000`. -/
def keyAndBytes : GuestMemory := ⟨store (store (fun _ => 0) 0x1000 [1, 2, 3]) 0x2000 [2], fun _ => true⟩

theorem bsearch_finds_keyAndBytes :
    ∃ result mem', bsearch byteCompare 0x2000 0x1000 1 0x400 65 3 keyAndBytes = some (result, mem') ∧ result = 0x1001 := by
  have hcmp : Compares byteCompare 0x2000 0x1000 1 0x400 3 keyAndBytes (fun i => 1 - i) := by
    refine ⟨fun mem => mem = keyAndBytes, rfl, ?_⟩
    rintro mem rfl i (hi : i < 3)
    refine ⟨?_, rfl⟩
    interval_cases i <;> decide +kernel
  have hpart : Partitioned (fun i => 1 - (i : ℤ)) 3 :=
    ⟨1, 2, by decide, by decide, fun i hi => by simp only; omega, fun i h1 h2 => by simp only; omega,
      fun i h1 h2 => by simp only; omega⟩
  obtain ⟨result, mem', hrun, hfound, -, -⟩ :=
    bsearch_finds byteCompare 0x2000 0x1000 3 1 0x400 keyAndBytes _ (by decide) hcmp hpart
  obtain ⟨i, -, h0, hres⟩ := hfound (by decide) ⟨1, by decide, by decide⟩
  refine ⟨result, mem', hrun, ?_⟩
  obtain rfl : i = 1 := by omega
  rw [hres]
  decide

/-- **Elements without a size**: all three are at `0x1000` and compare equal to the key, and 0 is returned. -/
theorem bsearch_of_size_zero :
    (Compares byteCompare 0x1000 0x1000 0 0x400 3 keyAndBytes (fun _ => 0) ∧ Partitioned (fun _ => 0) 3 ∧
      (0x1000 : Word).toNat + 3 * (0 : Word).toNat < 2 ^ 64) ∧
    (bsearch byteCompare 0x1000 0x1000 0 0x400 65 3 keyAndBytes).map Prod.fst = some 0 ∧
      ∀ i, elemAddr 0x1000 0 i ≠ 0 := by
  refine ⟨⟨⟨fun mem => mem = keyAndBytes, rfl, ?_⟩, ⟨0, 3, by decide, by decide, by simp, by simp, by simp⟩,
    by decide⟩, by decide +kernel, ?_⟩
  · rintro mem rfl i (hi : i < 3)
    refine ⟨?_, rfl⟩
    interval_cases i <;> decide +kernel
  · intro i
    simp [elemAddr]

end CrossShim.Stdlib
