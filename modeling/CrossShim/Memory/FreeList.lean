import CrossShim.Memory.Heap
import CrossShim.Lib.Span

/-!
# The free list

`FreeOk` is what the two indices satisfy together: they hold the same blocks, none is empty, none ends beyond
`2^63`, and any two of them are separated by a gap (so that no two free blocks touch).  Removing a block, inserting
one that touches nothing, and `addFreeBlock` keep it; `addFreeBlock` covers the bytes that were covered before
and those of the new block.
-/

namespace CrossShim.Memory

open Lib OrdMap

def cover (m : OrdMap Word Word) : Set ℕ := {x | ∃ a n, (a, n) ∈ m.entries ∧ x ∈ span a.toNat n.toNat}

variable {m : OrdMap Word Word}

lemma mem_cover {x : ℕ} : x ∈ cover m ↔ ∃ a n, (a, n) ∈ m.entries ∧ x ∈ span a.toNat n.toNat := Iff.rfl

lemma span_subset_cover {a n : Word} (h : (a, n) ∈ m.entries) : span a.toNat n.toNat ⊆ cover m :=
  fun _ hx => ⟨a, n, h, hx⟩

lemma cover_erase {a n : Word} (hm : (a, n) ∈ m.entries) : cover (m.erase a) ∪ span a.toNat n.toNat = cover m := by
  ext x
  simp only [Set.mem_union, mem_cover, mem_erase]
  constructor
  · rintro (⟨b, k, ⟨-, hbk⟩, hx⟩ | hx)
    · exact ⟨b, k, hbk, hx⟩
    · exact ⟨a, n, hm, hx⟩
  · rintro ⟨b, k, hbk, hx⟩
    by_cases hb : b = a
    · subst hb
      right
      rwa [key_unique hm hbk]
    · exact .inl ⟨b, k, ⟨hb, hbk⟩, hx⟩

lemma cover_insert {a n : Word} (hnew : ∀ k, (a, k) ∉ m.entries) :
    cover (m.insert a n) = cover m ∪ span a.toNat n.toNat := by
  ext x
  simp only [Set.mem_union, mem_cover, mem_insert]
  constructor
  · rintro ⟨b, k, ⟨rfl, rfl⟩ | ⟨-, hbk⟩, hx⟩
    · exact .inr hx
    · exact .inl ⟨b, k, hbk, hx⟩
  · rintro (⟨b, k, hbk, hx⟩ | hx)
    · refine ⟨b, k, .inr ⟨?_, hbk⟩, hx⟩
      rintro rfl
      exact hnew _ hbk
    · exact ⟨a, n, .inl ⟨rfl, rfl⟩, hx⟩

namespace HeapAllocator

structure FreeOk (h : HeapAllocator) : Prop where
  sync : ∀ a n, (a, n) ∈ h.freeBlocks.entries ↔ (n, a) ∈ h.freeBlocksBySize.entries
  nodup : h.freeBlocksBySize.entries.Nodup
  pos : ∀ a n, (a, n) ∈ h.freeBlocks.entries → 0 < n.toNat
  fin : ∀ a n, (a, n) ∈ h.freeBlocks.entries → a.toNat + n.toNat < 2 ^ 63
  gap : ∀ a n b m, (a, n) ∈ h.freeBlocks.entries → (b, m) ∈ h.freeBlocks.entries → a ≠ b →
    Gap a.toNat n.toNat b.toNat m.toNat

variable {h h' : HeapAllocator} {address size : Word}

lemma FreeOk.congr (hf : h.FreeOk) (e₁ : h'.freeBlocks = h.freeBlocks)
    (e₂ : h'.freeBlocksBySize = h.freeBlocksBySize) : h'.FreeOk := by
  obtain ⟨h1, h2, h3, h4, h5⟩ := hf
  rw [← e₁, ← e₂] at *
  exact ⟨h1, h2, h3, h4, h5⟩

lemma removeFreeBlock_mem {a n : Word} :
    (a, n) ∈ (h.removeFreeBlock address size).freeBlocks.entries ↔
      a ≠ address ∧ (a, n) ∈ h.freeBlocks.entries := by
  simp [removeFreeBlock]

theorem FreeOk.remove (hf : h.FreeOk) (hm : (address, size) ∈ h.freeBlocks.entries) :
    (h.removeFreeBlock address size).FreeOk where
  sync a n := by
    rw [removeFreeBlock_mem]
    simp only [removeFreeBlock, OrdMultimap.mem_eraseOne hf.nodup, ← hf.sync, ne_eq, Prod.mk.injEq, not_and]
    constructor
    · rintro ⟨hne, han⟩
      exact ⟨fun _ => hne, han⟩
    · rintro ⟨hne, han⟩
      refine ⟨?_, han⟩
      rintro rfl
      exact hne (key_unique han hm) rfl
  nodup := OrdMultimap.nodup_eraseOne hf.nodup
  pos a n han := hf.pos a n (removeFreeBlock_mem.1 han).2
  fin a n han := hf.fin a n (removeFreeBlock_mem.1 han).2
  gap a n b m han hbm := hf.gap a n b m (removeFreeBlock_mem.1 han).2 (removeFreeBlock_mem.1 hbm).2

theorem FreeOk.insert (hf : h.FreeOk) (hpos : 0 < size.toNat) (hfin : address.toNat + size.toNat < 2 ^ 63)
    (hgap : ∀ a n, (a, n) ∈ h.freeBlocks.entries → Gap address.toNat size.toNat a.toNat n.toNat) :
    (h.insertFreeBlock address size).FreeOk := by
  have hnew : ∀ n, (address, n) ∉ h.freeBlocks.entries := by
    intro n hn
    exact not_apart_self hpos (hf.pos _ _ hn) (hgap _ _ hn).apart
  refine ⟨?_, ?_, forall_insert hpos hf.pos, forall_insert hfin hf.fin, pairwise_insert .symm hgap hf.gap⟩
  · intro a n
    simp only [insertFreeBlock, mem_insert, OrdMultimap.mem_insert, ← hf.sync]
    constructor
    · rintro (⟨rfl, rfl⟩ | ⟨-, han⟩)
      · exact .inl ⟨rfl, rfl⟩
      · exact .inr han
    · rintro (⟨rfl, rfl⟩ | han)
      · exact .inl ⟨rfl, rfl⟩
      · refine .inr ⟨?_, han⟩
        rintro rfl
        exact hnew _ han
  · exact OrdMultimap.nodup_insert hf.nodup fun hm => hnew _ ((hf.sync _ _).2 hm)

/-! ### Coalescing -/

section Add

variable (hf : h.FreeOk) (hpos : 0 < size.toNat) (hfin : address.toNat + size.toNat < 2 ^ 63)
  (hap : ∀ a n, (a, n) ∈ h.freeBlocks.entries → Apart address.toNat size.toNat a.toNat n.toNat) {a n na ns : Word}
  {h₁ : HeapAllocator}

/-- What holds of the block being added past the predecessor: it is apart from the rest of the list, no free block ends
where it starts, and it covers the right bytes. -/
structure Merged (h h' : HeapAllocator) (address size newAddr newSize : Word) : Prop where
  ok : h'.FreeOk
  pos : 0 < newSize.toNat
  fin : newAddr.toNat + newSize.toNat = address.toNat + size.toNat
  sub : ∀ a n, (a, n) ∈ h'.freeBlocks.entries → (a, n) ∈ h.freeBlocks.entries
  keep : ∀ a n, (a, n) ∈ h.freeBlocks.entries → address ≤ a → (a, n) ∈ h'.freeBlocks.entries
  apart : ∀ a n, (a, n) ∈ h'.freeBlocks.entries → Apart newAddr.toNat newSize.toNat a.toNat n.toNat
  left : ∀ a n, (a, n) ∈ h'.freeBlocks.entries → a.toNat + n.toNat ≠ newAddr.toNat
  bytes : cover h'.freeBlocks ∪ span newAddr.toNat newSize.toNat =
    cover h.freeBlocks ∪ span address.toNat size.toNat
  rest : ∃ M F, h' = { h with freeBlocks := M, freeBlocksBySize := F }

lemma cover_remove (hm : (a, n) ∈ h.freeBlocks.entries) :
    cover (h.removeFreeBlock a n).freeBlocks ∪ span a.toNat n.toNat = cover h.freeBlocks := cover_erase hm

lemma FreeOk.before_of_ends (hf : h.FreeOk) (han : (a, n) ∈ h.freeBlocks.entries)
    (hend : a.toNat + n.toNat = address.toNat) : h.freeBlocks.before address = some (a, n) := by
  have hpos := hf.pos a n han
  have hlt : a < address := by
    rw [BitVec.lt_def]
    omega
  cases hb : h.freeBlocks.before address with
  | none => exact absurd hlt (not_lt.2 (before_eq_none hb a n han))
  | some e =>
    obtain ⟨pa, ps⟩ := e
    obtain ⟨hpm, hplt, hpmax⟩ := before_eq_some hb
    by_cases hne : a = pa
    · subst hne
      rw [key_unique han hpm]
    · -- the predecessor would start inside the block
      have hgap := hf.gap a n pa ps han hpm hne
      have hle := hpmax a n han hlt
      rw [BitVec.le_def] at hle
      rw [BitVec.lt_def] at hplt
      unfold Gap at hgap
      omega

/-- A free block that starts where the block at `address` ends is the one `lowerBound` finds. -/
lemma FreeOk.lowerBound_of_starts (hf : h.FreeOk)
    (hap : ∀ a n, (a, n) ∈ h.freeBlocks.entries → Apart address.toNat size.toNat a.toNat n.toNat)
    (han : (a, n) ∈ h.freeBlocks.entries) (hstart : address.toNat + size.toNat = a.toNat) :
    h.freeBlocks.lowerBound address = some (a, n) := by
  have hle : address ≤ a := by
    rw [BitVec.le_def]
    omega
  cases hl : h.freeBlocks.lowerBound address with
  | none => exact absurd hle (not_le.2 (lowerBound_eq_none hl a n han))
  | some e =>
    obtain ⟨xa, xs⟩ := e
    obtain ⟨hxm, hxle, hxmin⟩ := lowerBound_eq_some hl
    by_cases hne : xa = a
    · subst hne
      rw [key_unique han hxm]
    · -- the successor would lie between the end of the block and `a`
      have hgap := hf.gap xa xs a n hxm han hne
      have hapart := hap xa xs hxm
      have hpos := hf.pos xa xs hxm
      have hmin := hxmin a n han hle
      rw [BitVec.le_def] at hmin hxle
      unfold Gap at hgap
      unfold Apart at hapart
      omega

include hf hpos hfin hap

lemma Merged.join_prev {pa ps : Word} (hpm : (pa, ps) ∈ h.freeBlocks.entries) (hplt : pa < address)
    (hend : pa + ps = address) : Merged h (h.removeFreeBlock pa ps) address size pa (ps + size) := by
  have hpfin := hf.fin pa ps hpm
  have hnat : pa.toNat + ps.toNat = address.toNat := by bv_omega
  have hsz : (ps + size).toNat = ps.toNat + size.toNat := by bv_omega
  refine ⟨hf.remove hpm, by omega, by omega, fun a n han => (removeFreeBlock_mem.1 han).2, ?_, ?_, ?_,
    ?_, _, _, rfl⟩
  · intro a n han hle
    exact removeFreeBlock_mem.2 ⟨(hplt.trans_le hle).ne', han⟩
  · intro a n han
    obtain ⟨hne, han⟩ := removeFreeBlock_mem.1 han
    have h1 := hap a n han
    have h2 := hf.gap pa ps a n hpm han hne.symm
    rw [hsz]
    unfold Apart Gap at *
    omega
  · intro a n han heq
    obtain ⟨hne, han⟩ := removeFreeBlock_mem.1 han
    have h2 := hf.gap pa ps a n hpm han hne.symm
    unfold Gap at h2
    omega
  · rw [hsz, ← cover_remove hpm, Set.union_assoc, span_union_span hnat]

theorem mergePrev_spec (hr : h.mergePrev (h.freeBlocks.before address) address size = (h₁, na, ns)) :
    Merged h h₁ address size na ns := by
  have keep (hleft : ∀ a n, (a, n) ∈ h.freeBlocks.entries → a.toNat + n.toNat ≠ address.toNat) :
      Merged h h address size address size :=
    ⟨hf, hpos, rfl, fun _ _ => id, fun _ _ han _ => han, hap, hleft, rfl, _, _, rfl⟩
  cases hb : h.freeBlocks.before address with
  | none =>
    rw [hb] at hr
    obtain ⟨rfl, rfl, rfl⟩ : h = h₁ ∧ address = na ∧ size = ns := by simpa [mergePrev] using hr
    apply keep
    intro a n han heq
    rw [hf.before_of_ends han heq] at hb
    cases hb
  | some e =>
    obtain ⟨pa, ps⟩ := e
    obtain ⟨hpm, hplt, -⟩ := before_eq_some hb
    by_cases hend : pa + ps = address
    · obtain ⟨rfl, rfl, rfl⟩ : h.removeFreeBlock pa ps = h₁ ∧ pa = na ∧ ps + size = ns := by
        simpa [hb, mergePrev, hend] using hr
      exact Merged.join_prev hf hpos hfin hap hpm hplt hend
    · obtain ⟨rfl, rfl, rfl⟩ : h = h₁ ∧ address = na ∧ size = ns := by
        simpa [hb, mergePrev, hend] using hr
      apply keep
      intro a n han heq
      rw [hf.before_of_ends han heq] at hb
      cases hb
      apply hend
      bv_omega

omit hf hpos hfin hap in
lemma Merged.gap (hm : Merged h h₁ address size na ns) (han : (a, n) ∈ h₁.freeBlocks.entries)
    (hright : na.toNat + ns.toNat ≠ a.toNat) : Gap na.toNat ns.toNat a.toNat n.toNat := by
  have h1 := hm.apart a n han
  have h2 := hm.left a n han
  unfold Apart at h1
  unfold Gap
  omega

omit hf hpos hfin hap in
/-- Past both neighbours, the block being added touches nothing. -/
theorem mergeNext_spec (hm : Merged h h₁ address size na ns) (hf : h.FreeOk)
    (hfin : address.toNat + size.toNat < 2 ^ 63)
    (hap : ∀ a n, (a, n) ∈ h.freeBlocks.entries → Apart address.toNat size.toNat a.toNat n.toNat) {h₂ : HeapAllocator}
    {ns₂ : Word} (hr : h₁.mergeNext (h.freeBlocks.lowerBound address) na ns = (h₂, ns₂)) :
    h₂.FreeOk ∧ 0 < ns₂.toNat ∧ na.toNat + ns₂.toNat < 2 ^ 63 ∧
      (∀ a n, (a, n) ∈ h₂.freeBlocks.entries → Gap na.toNat ns₂.toNat a.toNat n.toNat) ∧
      cover h₂.freeBlocks ∪ span na.toNat ns₂.toNat = cover h.freeBlocks ∪ span address.toNat size.toNat ∧
      ∃ M F, h₂ = { h with freeBlocks := M, freeBlocksBySize := F } := by
  have hpos := hm.pos
  have hnfin := hm.fin
  have found {a n : Word} (han : (a, n) ∈ h₁.freeBlocks.entries) (heq : na.toNat + ns.toNat = a.toNat) :
      h.freeBlocks.lowerBound address = some (a, n) :=
    hf.lowerBound_of_starts hap (hm.sub a n han) (hnfin.symm.trans heq)
  cases hl : h.freeBlocks.lowerBound address with
  | none =>
    obtain ⟨rfl, rfl⟩ : h₁ = h₂ ∧ ns = ns₂ := by simpa [hl, mergeNext] using hr
    refine ⟨hm.ok, hpos, by omega, fun a n han => hm.gap han fun heq => ?_, hm.bytes, hm.rest⟩
    rw [found han heq] at hl
    cases hl
  | some e =>
    obtain ⟨xa, xs⟩ := e
    obtain ⟨hxm, hxle, -⟩ := lowerBound_eq_some hl
    have hxfin := hf.fin xa xs hxm
    by_cases hend : na + ns = xa
    · have hnat : na.toNat + ns.toNat = xa.toNat := by bv_omega
      have hsz : (ns + xs).toNat = ns.toNat + xs.toNat := by bv_omega
      have hxm₁ := hm.keep xa xs hxm hxle
      obtain ⟨rfl, rfl⟩ : h₁.removeFreeBlock xa xs = h₂ ∧ ns + xs = ns₂ := by
        simpa [hl, mergeNext, hend] using hr
      refine ⟨hm.ok.remove hxm₁, by omega, by omega, ?_, ?_, ?_⟩
      · intro a n han
        obtain ⟨hne, han⟩ := removeFreeBlock_mem.1 han
        have h1 := hm.apart a n han
        have h2 := hm.left a n han
        have h3 := hm.ok.gap xa xs a n hxm₁ han hne.symm
        rw [hsz]
        unfold Apart Gap at *
        omega
      · rw [← hm.bytes, hsz, ← cover_remove hxm₁, Set.union_assoc, ← span_union_span hnat, Set.union_comm (span _ _)]
      · obtain ⟨M, F, rfl⟩ := hm.rest
        exact ⟨_, _, rfl⟩
    · obtain ⟨rfl, rfl⟩ : h₁ = h₂ ∧ ns = ns₂ := by simpa [hl, mergeNext, hend] using hr
      refine ⟨hm.ok, hpos, by omega, fun a n han => hm.gap han fun heq => hend ?_, hm.bytes, hm.rest⟩
      rw [found han heq] at hl
      cases hl
      bv_omega

/-- **Adding a free block** keeps the indices in order and covers the block's bytes besides the old ones. -/
theorem addFreeBlock_spec :
    (h.addFreeBlock address size).FreeOk ∧
      cover (h.addFreeBlock address size).freeBlocks = cover h.freeBlocks ∪ span address.toNat size.toNat ∧
      ∃ M F, h.addFreeBlock address size = { h with freeBlocks := M, freeBlocksBySize := F } := by
  cases hp : h.mergePrev (h.freeBlocks.before address) address size with
  | mk h₁ r =>
    obtain ⟨na, ns⟩ := r
    have hm := mergePrev_spec hf hpos hfin hap hp
    cases hr : h₁.mergeNext (h.freeBlocks.lowerBound address) na ns with
    | mk h₂ ns₂ =>
      obtain ⟨hok, hpos₂, hfin₂, hgap, hcov, M, F, hrest⟩ := mergeNext_spec hm hf hfin hap hr
      have he : h.addFreeBlock address size = h₂.insertFreeBlock na ns₂ := by
        simp only [addFreeBlock, hp, hr]
      rw [he]
      refine ⟨hok.insert hpos₂ hfin₂ hgap, ?_, ?_⟩
      · rw [← hcov]
        exact cover_insert fun n hn => not_apart_self hpos₂ (hok.pos _ _ hn) (hgap _ _ hn).apart
      · subst hrest
        exact ⟨_, _, rfl⟩

end Add

end HeapAllocator

end CrossShim.Memory
