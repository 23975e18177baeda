import Mathlib

/-!
# Counting

`Tally P f n` says that exactly `n` indices have a value with the property `P`, over any type of indices, and the
lemmas how the number changes when the value of one index does.
-/

namespace CrossShim.Lib

open Function

variable {ι β : Type*}

def Tally (P : β → Prop) (f : ι → β) (n : ℕ) : Prop := ∃ W : Finset ι, (∀ i, i ∈ W ↔ P (f i)) ∧ W.card = n

namespace Tally

variable {P : β → Prop} {f : ι → β} {n : ℕ} {i : ι} {b : β}

lemma zero (h : ∀ i, ¬ P (f i)) : Tally P f 0 := ⟨∅, fun i => iff_of_false (Finset.notMem_empty i) (h i), rfl⟩

lemma pos (h : Tally P f n) (hi : P (f i)) : 0 < n := by
  obtain ⟨W, hW, rfl⟩ := h
  exact Finset.card_pos.2 ⟨i, (hW i).2 hi⟩

variable [DecidableEq ι]

lemma keep (h : Tally P f n) (hi : P (f i) ↔ P b) : Tally P (update f i b) n := by
  obtain ⟨W, hW, rfl⟩ := h
  exact ⟨W, (forall_update_iff f fun j x => j ∈ W ↔ P x).2 ⟨(hW i).trans hi, fun j _ => hW j⟩, rfl⟩

lemma gain (h : Tally P f n) (hi : ¬ P (f i)) (hb : P b) : Tally P (update f i b) (n + 1) := by
  obtain ⟨W, hW, rfl⟩ := h
  refine ⟨insert i W, (forall_update_iff f fun j x => j ∈ insert i W ↔ P x).2 ⟨?_, fun j hj => ?_⟩,
    Finset.card_insert_of_notMem fun hmem => hi ((hW i).1 hmem)⟩
  · exact iff_of_true (Finset.mem_insert_self i W) hb
  · rw [Finset.mem_insert, hW, or_iff_right hj]

lemma loss (h : Tally P f n) (hi : P (f i)) (hb : ¬ P b) : Tally P (update f i b) (n - 1) := by
  obtain ⟨W, hW, rfl⟩ := h
  refine ⟨W.erase i, (forall_update_iff f fun j x => j ∈ W.erase i ↔ P x).2 ⟨?_, fun j hj => ?_⟩,
    Finset.card_erase_of_mem ((hW i).2 hi)⟩
  · exact iff_of_false (Finset.notMem_erase i W) hb
  · rw [Finset.mem_erase, hW, and_iff_right hj]

end Tally

end CrossShim.Lib
