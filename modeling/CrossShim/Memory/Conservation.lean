import CrossShim.Memory.HeapRuns

/-!
# Where the bytes of a heap go

A byte below the high-water mark is live or free, unless a call has given it up: `allocate` keeps no rest of less than
16 bytes of the block it carves, nor the bytes that it skips at the high-water mark for the alignment.  Such bytes never
come back, so the free list of a heap without live blocks is one block exactly if no call has given up any:
`oneBlock_iff`.
-/

namespace CrossShim.Memory.HeapAllocator

open Lib Set

/-- The bytes that a request gives up. -/
def lost (h : HeapAllocator) (size al : Word) : Set ℕ :=
  match h.fit size al with
  | some (bs, ba) => dropped bs ba (minSize size) (alignUp ba al)
  | none => {x | h.TailFits (minSize size) al ∧ x ∈ Ico h.highWaterMark.toNat (alignUp h.highWaterMark al).toNat}

/-- The call gives up no bytes. -/
def Tight (h : HeapAllocator) : Op → Prop
  | .allocate size al => h.lost size al = ∅
  | .free _ => True
  | .realloc address newSize => h.Grows address newSize → h.lost newSize 16 = ∅

/-- Every byte below the high-water mark is live or free. -/
def Whole (h : HeapAllocator) : Prop :=
  Ico h.base.toNat h.highWaterMark.toNat ⊆ cover h.allocations ∪ cover h.freeBlocks

/-- The free list is one block up to the high-water mark, or empty if that is where the heap starts. -/
def OneBlock (h : HeapAllocator) : Prop :=
  ∀ a n, (a, n) ∈ h.freeBlocks.entries ↔ a = h.base ∧ n = h.highWaterMark - h.base ∧ n ≠ 0

/-- Every call of a run is as `P` says. -/
def Along (P : HeapAllocator → Op → Prop) : HeapAllocator → List Op → Prop
  | _, [] => True
  | h, op :: ops => P h op ∧ Along P (h.call op).1 ops

def run (h : HeapAllocator) (ops : List Op) : HeapAllocator := ops.foldl (fun h op => (h.call op).1) h

section

variable {h h' : HeapAllocator} {size al : Word} {T : Set ℕ}

/-! ### One call -/

/-- Bytes that are given up are missing from then on. -/
lemma Accounts.whole_iff (ha : Accounts h h' T) (hi : h.Inv) (hk : Keeps h h') : h'.Whole ↔ h.Whole ∧ T = ∅ := by
  have hsplit := Ico_union_Ico_eq_Ico hi.baseLe hk.hwm
  have hin : T ⊆ Ico h.base.toNat h'.highWaterMark.toNat := by
    rw [← hsplit]
    exact (subset_union_right.trans ha.bytes.subset).trans
      (union_subset_union_left _ (union_subset hi.cover_live hi.cover_free))
  unfold Whole
  rw [hk.base]
  constructor
  · refine fun hw => ⟨fun x hx => ?_, disjoint_self.1 (ha.disj.mono_right (hin.trans hw))⟩
    have hx' := ha.bytes.subset (.inl (hw ⟨hx.1, hx.2.trans_le hk.hwm⟩))
    exact hx'.resolve_right fun hlt => absurd hx.2 (not_lt.2 hlt.1)
  · rintro ⟨hw, rfl⟩
    have hbytes := ha.bytes
    rw [union_empty] at hbytes
    rw [hbytes, ← hsplit]
    exact union_subset_union_left _ hw

lemma allocate_whole (hi : h.Inv) (hal : al.toNat.isPowerOfTwo) (hw : h.NoWrap size al) :
    (h.allocate size al).1.Whole ↔ h.Whole ∧ h.lost size al = ∅ := by
  have hkeep := allocate_keeps hi hal hw
  unfold lost
  cases hfit : h.fit size al with
  | some e =>
    obtain ⟨bs, ba⟩ := e
    obtain ⟨hm, hle⟩ := fitLoop_some hfit
    obtain ⟨hm, hge⟩ := OrdMultimap.mem_fromKey.1 hm
    simp only [allocate, show fitLoop _ _ _ = some (bs, ba) from hfit] at hkeep ⊢
    exact (carve_spec hi hal (minSize_pos size) ((hi.free.sync _ _).2 hm) hge hle).2.whole_iff hi hkeep
  | none =>
    simp only [allocate, show fitLoop _ _ _ = none from hfit] at hkeep ⊢
    by_cases htail : h.TailFits (minSize size) al
    · simp only [htail, true_and, ofPred_mem_eq]
      exact (bump_spec hi hal (minSize_pos size) hw htail).2.whole_iff hi hkeep
    · simp only [bump_of_not_tailFits htail, htail, false_and, ofPred_false, and_true]

lemma free_whole (hi : h.Inv) (address : Word) : (h.free address).Whole ↔ h.Whole := by
  obtain ⟨hr, ha⟩ := free_spec hi address
  exact (ha.whole_iff hi hr.keeps).trans (and_iff_left rfl)

lemma call_whole (hi : h.Inv) {op : Op} (hv : h.ValidOp op) : (h.call op).1.Whole ↔ h.Whole ∧ h.Tight op := by
  cases op with
  | allocate size al => exact allocate_whole hi hv.2.1 (hi.noWrap_of_lt hv.1 hv.2.1 hv.2.2)
  | free address => exact (free_whole hi address).trans (and_iff_left trivial).symm
  | realloc address newSize =>
    have hw := hi.noWrap_of_lt hv isPowerOfTwo_sixteen (by decide)
    have hal := allocate_whole hi isPowerOfTwo_sixteen hw
    have hkeep := allocate_keeps hi isPowerOfTwo_sixteen hw
    show (h.realloc address newSize).1.Whole ↔ h.Whole ∧ (h.Grows address newSize → h.lost newSize 16 = ∅)
    obtain ⟨hg, he | he⟩ | ⟨hg, he | he⟩ := realloc_cases h address newSize <;>
      simp only [he, hg, true_imp_iff, false_imp_iff, and_true]
    · exact free_whole hi address
    · exact hal
    · exact (free_whole hkeep.inv address).trans hal

/-! ### Heaps without live blocks -/

/-- The byte before a free block and the byte behind it are not free. -/
lemma FreeOk.not_touching (hf : h.FreeOk) {a n : Word} (hm : (a, n) ∈ h.freeBlocks.entries) {x : ℕ}
    (hx : x + 1 = a.toNat ∨ x = a.toNat + n.toNat) : x ∉ cover h.freeBlocks := by
  rintro ⟨b, k, hbm, hxb⟩
  have hpos := hf.pos a n hm
  by_cases hab : a = b
  · subst hab
    rw [OrdMap.key_unique hbm hm] at hxb
    simp only [mem_span] at hxb
    omega
  · have hgap := hf.gap a n b k hm hbm hab
    simp only [mem_span, Gap] at hxb hgap
    omega

lemma Inv.whole_iff (hi : h.Inv) (hnone : h.allocations.entries = []) : h.Whole ↔ h.OneBlock := by
  have hlive : cover h.allocations = ∅ := by simp [cover, hnone]
  have hbl := hi.baseLe
  have hsub : (h.highWaterMark - h.base).toNat = h.highWaterMark.toNat - h.base.toNat := by bv_omega
  unfold Whole
  rw [hlive, empty_union]
  constructor
  · intro hw
    have hone {a n : Word} (hm : (a, n) ∈ h.freeBlocks.entries) : a = h.base ∧ n = h.highWaterMark - h.base := by
      have hin := hi.freeIn a n hm
      have hpos := hi.free.pos a n hm
      have hbefore : a.toNat = h.base.toNat := by
        by_contra hne
        exact hi.free.not_touching hm (.inl (by omega)) (hw (show a.toNat - 1 ∈ Ico _ _ from ⟨by omega, by omega⟩))
      have hbehind : a.toNat + n.toNat = h.highWaterMark.toNat := by
        by_contra hne
        exact hi.free.not_touching hm (.inr rfl) (hw ⟨by omega, by omega⟩)
      exact ⟨BitVec.eq_of_toNat_eq hbefore, BitVec.eq_of_toNat_eq (by omega)⟩
    refine fun a n => ⟨fun hm => ⟨(hone hm).1, (hone hm).2, fun h0 => ?_⟩, ?_⟩
    · have hpos := hi.free.pos a n hm
      simp [h0] at hpos
    · rintro ⟨rfl, rfl, h0⟩
      have hne : (h.highWaterMark - h.base).toNat ≠ 0 := fun h => h0 (BitVec.eq_of_toNat_eq h)
      obtain ⟨a, n, hm, -⟩ := hw (show h.base.toNat ∈ Ico _ _ from ⟨le_rfl, by omega⟩)
      obtain ⟨rfl, rfl⟩ := hone hm
      exact hm
  · intro hone x hx
    have hlt := hx.1.trans_lt hx.2
    refine ⟨_, _, (hone _ _).2 ⟨rfl, rfl, fun h0 => ?_⟩, hx.1, ?_⟩
    · rw [h0] at hsub
      simp at hsub
      omega
    · have := hx.2
      omega

end

/-! ### Runs -/

lemma run_whole {h : HeapAllocator} {ops : List Op} (hi : h.Inv) (hv : Along ValidOp h ops) :
    (h.run ops).Inv ∧ ((h.run ops).Whole ↔ h.Whole ∧ Along Tight h ops) := by
  induction ops generalizing h with
  | nil => exact ⟨hi, (and_iff_left trivial).symm⟩
  | cons op ops ih =>
    obtain ⟨hinv, hiff⟩ := ih (call_keeps hi hv.1).inv hv.2
    rw [call_whole hi hv.1, and_assoc] at hiff
    exact ⟨hinv, hiff⟩

/-- **The free list of a heap without live blocks** is one block exactly if no call of the run has given up bytes. -/
theorem oneBlock_iff {base size : Word} (hb : 0 < base.toNat) (he : base.toNat + size.toNat < 2 ^ 63) (ops : List Op)
    (hv : Along ValidOp (init base size) ops) (hnone : ((init base size).run ops).allocations.entries = []) :
    ((init base size).run ops).OneBlock ↔ Along Tight (init base size) ops := by
  obtain ⟨hi, hiff⟩ := run_whole (inv_init hb he) hv
  have hinit : (init base size).Whole := by simp [Whole, init]
  rw [← hi.whole_iff hnone, hiff, and_iff_right hinit]

lemma validOp_sixteen {n : Word} (hn : n.toNat < 2 ^ 62) (h : HeapAllocator) : h.ValidOp (.allocate n 16) :=
  ⟨hn, isPowerOfTwo_sixteen, by decide⟩

theorem oneBlock_after_free : ((init 0x1000 0x1000).run [.allocate 32 16, .free 0x1000]).OneBlock := by
  have hv : Along ValidOp (init 0x1000 0x1000) [.allocate 32 16, .free 0x1000] :=
    ⟨validOp_sixteen (by decide) _, trivial, trivial⟩
  refine (oneBlock_iff (by decide) (by decide) _ hv rfl).2 ⟨?_, trivial, trivial⟩
  show {x | _ ∧ x ∈ Ico 0x1000 0x1000} = ∅
  simp

/-- A rest of 8 bytes is given up, and a gap of 8 bytes before the second block. -/
theorem bytes_given_up :
    (∃ ops, Along ValidOp (init 0x1000 0x1000) ops ∧ ((init 0x1000 0x1000).run ops).allocations.entries = [] ∧
      ((init 0x1000 0x1000).run ops).freeBlocks.entries = [(0x1000, 16)] ∧
      ((init 0x1000 0x1000).run ops).highWaterMark = 0x1018) ∧
    ∃ ops, Along ValidOp (init 0x1000 0x1000) ops ∧ ((init 0x1000 0x1000).run ops).allocations.entries = [] ∧
      ((init 0x1000 0x1000).run ops).freeBlocks.entries = [(0x1000, 24), (0x1020, 24)] := by
  refine ⟨⟨[.allocate 24 16, .free 0x1000, .allocate 16 16, .free 0x1000], ?_, by decide, by decide, by decide⟩,
    [.allocate 24 16, .allocate 24 16, .free 0x1000, .free 0x1020], ?_, by decide, by decide⟩
  · exact ⟨validOp_sixteen (by decide) _, trivial, validOp_sixteen (by decide) _, trivial, trivial⟩
  · exact ⟨validOp_sixteen (by decide) _, validOp_sixteen (by decide) _, trivial, trivial, trivial⟩

end CrossShim.Memory.HeapAllocator
