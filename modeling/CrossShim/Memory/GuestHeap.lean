import CrossShim.Memory.Access
import CrossShim.Memory.HeapRuns

/-!
# Blocks for the guest

A handler that gives memory to the guest takes a block of the heap, aligned to 8, and writes to it.  `grants_allocate`
is what such a block is: not live before, live afterwards, and mapped where the heap is. -/

namespace CrossShim.Memory

open Lib BitVec

namespace HeapAllocator

def range (h : HeapAllocator) : Set Word := {x | h.base.toNat ≤ x.toNat ∧ x.toNat < h.base.toNat + h.size.toNat}

def live (h : HeapAllocator) : Set Word := {x | x.toNat ∈ cover h.allocations}

def spare (h : HeapAllocator) : Set Word := h.range \ h.live

@[irreducible] def left (h : HeapAllocator) : ℕ := h.base.toNat + h.size.toNat - h.highWaterMark.toNat

def Retains (h h' : HeapAllocator) : Prop := ∀ b ∈ h.allocations.entries, b ∈ h'.allocations.entries

/-- **A block of `n` bytes** at `p` was handed out. -/
structure Grants (h h' : HeapAllocator) (p : Word) (n : ℕ) : Prop where
  keeps : Keeps h h'
  ne_zero : p ≠ 0
  fin : p.toNat + n < 2 ^ 63
  spare : block p n ⊆ h.spare
  live : block p n ⊆ h'.live
  entry : ∃ m, (p, m) ∈ h'.allocations.entries ∧ n ≤ m.toNat
  isNew : ∀ m, (p, m) ∉ h.allocations.entries
  retains : Retains h h'

variable {h h' : HeapAllocator} {p al a : Word} {n : ℕ}

lemma isPowerOfTwo_eight : (8 : Word).toNat.isPowerOfTwo := ⟨3, rfl⟩

lemma toNat_minSize (hn : n + 8 ≤ 2 ^ 63) :
    n ≤ (minSize (BitVec.ofNat 64 n)).toNat ∧ (minSize (BitVec.ofNat 64 n)).toNat ≤ n + 1 := by
  unfold minSize
  by_cases h0 : BitVec.ofNat 64 n = 0
  · rw [if_pos h0]
    have : n = 0 := by bv_omega
    subst this
    decide
  · rw [if_neg h0, toNat_ofNat, Nat.mod_eq_of_lt (by omega)]
    omega

lemma Keeps.range_eq (hk : Keeps h h') : h'.range = h.range := by
  unfold range
  rw [hk.base, hk.size]

lemma Served.grants {s : Word} (hi : h.Inv) (hsv : Served h h' p s al) (hn : n ≤ s.toNat) : Grants h h' p n := by
  have hfin : p.toNat + s.toNat < 2 ^ 63 := by
    have h1 := hsv.hi
    have h2 := hsv.inv.hwmLe
    have h3 := hsv.inv.endLt
    omega
  have hspan : ∀ x ∈ block p n, x.toNat ∈ span p.toNat s.toNat := by
    intro x hx
    rw [mem_block_iff (by omega)] at hx
    exact span_subset_span le_rfl (by omega) hx
  have hmem : (p, s) ∈ h'.allocations.entries := by
    rw [hsv.allocs, OrdMap.mem_insert]
    exact .inl ⟨rfl, rfl⟩
  -- a live block does not start where the new one does
  have hnew : ∀ m, (p, m) ∉ h.allocations.entries := by
    intro m hm
    have hpos := hi.livePos _ _ hm
    exact Set.disjoint_left.1 hsv.fresh (show p.toNat ∈ span p.toNat s.toNat by have := hsv.pos; simp; omega)
      (span_subset_cover hm (show p.toNat ∈ span p.toNat m.toNat by simp; omega))
  refine ⟨hsv.keeps, hsv.ne_zero hi, by omega, ?_, ?_, ⟨s, hmem, hn⟩, hnew, ?_⟩
  · intro x hx
    have hin := hspan x hx
    refine ⟨?_, Set.disjoint_left.1 hsv.fresh hin⟩
    have h1 := hsv.lo
    have h2 := hsv.hi
    have h3 := hsv.inv.hwmLe
    rw [hsv.base, hsv.size] at h3
    rw [mem_span] at hin
    exact ⟨by omega, by omega⟩
  · exact fun x hx => span_subset_cover hmem (hspan x hx)
  · rintro ⟨a, m⟩ ham
    rw [hsv.allocs, OrdMap.mem_insert]
    refine .inr ⟨?_, ham⟩
    rintro rfl
    exact hnew m ham

lemma Inv.live_subset (hi : h.Inv) : h.live ⊆ h.range := by
  rintro x ⟨a, n, han, hx⟩
  have h1 := hi.liveIn a n han
  have h2 := hi.hwmLe
  rw [mem_span] at hx
  exact ⟨by omega, by omega⟩

lemma Retains.live (hr : Retains h h') : h.live ⊆ h'.live := by
  rintro x ⟨a, n, han, hx⟩
  exact ⟨a, n, hr _ han, hx⟩

lemma Retains.trans {h₁ h₂ : HeapAllocator} (hr : Retains h h₁) (hr' : Retains h₁ h₂) : Retains h h₂ :=
  fun b hb => hr' b (hr b hb)

lemma Retains.spare (hr : Retains h h') (hk : Keeps h h') : h'.spare ⊆ h.spare := by
  rintro x ⟨hx, hl⟩
  exact ⟨hk.range_eq ▸ hx, fun h => hl (hr.live h)⟩

lemma Inv.block_subset_live (hi : h.Inv) {m : Word} (hm : (p, m) ∈ h.allocations.entries) (hn : n ≤ m.toNat) :
    block p n ⊆ h.live := by
  have h1 := hi.liveIn p m hm
  have h2 := hi.hwmLe
  have h3 := hi.endLt
  intro x hx
  rw [mem_block_iff (by omega)] at hx
  exact span_subset_cover hm (span_subset_span le_rfl (by omega) hx)

lemma Released.spare (hi : h.Inv) (hr : Released h h' a) {x : Word} (hx : x ∈ h'.spare) :
    x ∈ h.spare ∨ ∃ m, (a, m) ∈ h.allocations.entries ∧ x ∈ block a m.toNat := by
  obtain ⟨hrange, hlive⟩ := hx
  by_cases hl : x ∈ h.live
  · obtain ⟨b, m, hbm, hxb⟩ := hl
    have hb : b = a := by
      by_contra hne
      exact hlive ⟨b, m, (hr.allocs b m).2 ⟨hne, hbm⟩, hxb⟩
    subst hb
    have h1 := hi.liveIn b m hbm
    have h2 := hi.hwmLe
    have h3 := hi.endLt
    exact .inr ⟨m, hbm, (mem_block_iff (by omega)).2 hxb⟩
  · exact .inl ⟨hr.keeps.range_eq ▸ hrange, hl⟩

lemma retains_allocate_sixteen (hi : h.Inv) {size : Word} (hs : size.toNat < 2 ^ 62) :
    Keeps h (h.allocate size 16).1 ∧ Retains h (h.allocate size 16).1 := by
  rcases allocate_spec hi isPowerOfTwo_sixteen (hi.noWrap_of_lt hs isPowerOfTwo_sixteen (by decide)) with he | hsv
  · rw [he]
    exact ⟨hi.keeps, fun _ hb => hb⟩
  · have hg := hsv.grants hi (Nat.zero_le _)
    exact ⟨hg.keeps, hg.retains⟩

lemma isPowerOfTwo_one : (1 : Word).toNat.isPowerOfTwo := ⟨0, rfl⟩

section

variable (hi : h.Inv)
include hi

lemma Inv.noWrap_small (hal : al.toNat.isPowerOfTwo) (hle : al.toNat ≤ 8) (hn : n + 8 ≤ 2 ^ 63) :
    h.NoWrap (BitVec.ofNat 64 n) al := by
  have h1 := hi.endLt
  have h2 := hi.hwmLe
  obtain ⟨-, h3⟩ := toNat_minSize hn
  obtain ⟨-, -, h5⟩ := alignUp_spec (v := h.highWaterMark) hal (by omega)
  unfold NoWrap
  omega

lemma Inv.noWrap_eight (hn : n + 8 ≤ 2 ^ 63) : h.NoWrap (BitVec.ofNat 64 n) 8 :=
  hi.noWrap_small isPowerOfTwo_eight (by decide) hn

/-- **The block of a request** for which there is room. -/
theorem grants_allocate_small (hal : al.toNat.isPowerOfTwo) (hle : al.toNat ≤ 8) (hn : n + 8 ≤ 2 ^ 63)
    (hroom : h.HasRoom (BitVec.ofNat 64 n) al) :
    Grants h (h.allocate (BitVec.ofNat 64 n) al).1 (h.allocate (BitVec.ofNat 64 n) al).2 n :=
  (allocate_of_hasRoom hi hal (hi.noWrap_small hal hle hn) hroom).grants hi (toNat_minSize hn).1

theorem grants_allocate (hn : n + 8 ≤ 2 ^ 63) (hroom : h.HasRoom (BitVec.ofNat 64 n) 8) :
    Grants h (h.allocate (BitVec.ofNat 64 n) 8).1 (h.allocate (BitVec.ofNat 64 n) 8).2 n :=
  grants_allocate_small hi isPowerOfTwo_eight (by decide) hn hroom

lemma allocate_cases (hn : n + 8 ≤ 2 ^ 63) :
    h.allocate (BitVec.ofNat 64 n) 8 = (h, 0) ∨
      Grants h (h.allocate (BitVec.ofNat 64 n) 8).1 (h.allocate (BitVec.ofNat 64 n) 8).2 n := by
  by_cases hroom : h.HasRoom (BitVec.ofNat 64 n) 8
  · exact .inr (grants_allocate hi hn hroom)
  · exact .inl (allocate_of_not_hasRoom hroom)

/-! ### The end of the heap -/

lemma Inv.left_le : h.left ≤ 2 ^ 63 := by
  have := hi.endLt
  unfold left
  omega

lemma hasRoom_small (hal : al.toNat.isPowerOfTwo) (hle : al.toNat ≤ 8) (hleft : n + 8 ≤ h.left) :
    h.HasRoom (BitVec.ofNat 64 n) al := by
  refine .inr ?_
  have hn := hleft.trans hi.left_le
  have h1 := hi.endLt
  have h2 := hi.hwmLe
  obtain ⟨-, h3⟩ := toNat_minSize hn
  obtain ⟨-, -, h5⟩ := alignUp_spec (v := h.highWaterMark) hal (by omega)
  unfold left at hleft
  unfold TailFits
  rw [le_def, toNat_add, toNat_add]
  omega

lemma hasRoom_of_left (hleft : n + 8 ≤ h.left) : h.HasRoom (BitVec.ofNat 64 n) 8 :=
  hasRoom_small hi isPowerOfTwo_eight (by decide) hleft

end

lemma Released.left_eq (hr : Released h h' a) : h'.left = h.left := by
  unfold left
  rw [hr.base, hr.size, hr.hwm]

lemma highWaterMark_addFreeBlock (h : HeapAllocator) (a n : Word) :
    (h.addFreeBlock a n).highWaterMark = h.highWaterMark := by
  unfold addFreeBlock
  have hprev : ∀ prev, (h.mergePrev prev a n).1.highWaterMark = h.highWaterMark := by
    intro prev
    unfold mergePrev
    split
    · split_ifs <;> rfl
    · rfl
  have hnext : ∀ (g : HeapAllocator) next b m, (g.mergeNext next b m).1.highWaterMark = g.highWaterMark := by
    intro g next b m
    unfold mergeNext
    split
    · split_ifs <;> rfl
    · rfl
  exact (hnext _ _ _ _).trans (hprev _)

lemma highWaterMark_carve (h : HeapAllocator) (bs ba s al : Word) :
    (h.carve bs ba s al).1.highWaterMark = h.highWaterMark := by
  have hif : ∀ (c : Prop) [Decidable c] (g : HeapAllocator) (a n : Word),
      (if c then g.addFreeBlock a n else g).highWaterMark = g.highWaterMark := by
    intro c _ g a n
    split_ifs
    · exact highWaterMark_addFreeBlock g a n
    · rfl
  exact (hif _ _ _ _).trans (hif _ _ _ _)

lemma left_allocate (hi : h.Inv) (hn : n + 8 ≤ 2 ^ 63) :
    h.left ≤ (h.allocate (BitVec.ofNat 64 n) 8).1.left + n + 8 := by
  have hk := allocate_keeps hi isPowerOfTwo_eight (hi.noWrap_eight hn)
  have hwm : (h.allocate (BitVec.ofNat 64 n) 8).1.highWaterMark.toNat ≤ h.highWaterMark.toNat + n + 8 := by
    have h1 := hi.endLt
    have h2 := hi.hwmLe
    obtain ⟨-, h3⟩ := toNat_minSize hn
    have h4 : ((8 : Word).toNat : ℕ) = 8 := rfl
    obtain ⟨-, -, h5⟩ := alignUp_spec (v := h.highWaterMark) isPowerOfTwo_eight (by omega)
    simp only [allocate]
    split
    · rw [highWaterMark_carve]
      omega
    · by_cases hfits : h.TailFits (minSize (BitVec.ofNat 64 n)) 8
      · rw [bump_of_tailFits hfits]
        show (alignUp h.highWaterMark 8 + minSize (BitVec.ofNat 64 n)).toNat ≤ _
        rw [toNat_add]
        omega
      · rw [bump_of_not_tailFits hfits]
        show h.highWaterMark.toNat ≤ _
        omega
  unfold left
  rw [hk.base, hk.size]
  omega

end HeapAllocator

/-! ### Memory and heap -/

open HeapAllocator

structure GuestHeap where
  mem : GuestMemory
  heap : HeapAllocator

namespace GuestHeap

def wordAt (g : GuestHeap) (a : Word) : Word := BitVec.ofNat 64 (ofLe (load g.mem.bytes a 8))

section

variable {g g' : GuestHeap} {a : Word}

lemma wordAt_congr (h : ∀ x ∈ block a 8, g'.mem.bytes x = g.mem.bytes x) : g'.wordAt a = g.wordAt a := by
  unfold wordAt
  rw [load_congr (by decide) h]

lemma wordAt_of_load {v : Word} (h : Lib.load g.mem.bytes a 8 = leBytes 8 v.toNat) : g.wordAt a = v := by
  unfold wordAt
  rw [h, ofLe_leBytes, Nat.mod_eq_of_lt (show v.toNat < 256 ^ 8 from v.isLt), ofNat_toNat, setWidth_eq]

lemma wordAt_store (m : Bytes) (mapped : Word → Bool) (h : HeapAllocator) (v : Word) :
    wordAt ⟨⟨store m a (leBytes 8 v.toNat), mapped⟩, h⟩ a = v :=
  wordAt_of_load (load_store_leBytes (by decide) m a v.toNat)

end

variable {g : GuestHeap} {bs : List Byte} {n : ℕ} {p : Word} {h' : HeapAllocator}

structure Ok (g : GuestHeap) : Prop where
  inv : g.heap.Inv
  mapped : ∀ x ∈ g.heap.range, g.mem.mapped x = true

def place (g : GuestHeap) (bs : List Byte) : GuestHeap × Word :=
  let (heap, p) := g.heap.allocate (BitVec.ofNat 64 bs.length) 8
  (⟨(g.mem.write p bs).1, heap⟩, p)

lemma Ok.keeps (hok : g.Ok) {mem : GuestMemory} (hmem : mem.mapped = g.mem.mapped) (hk : Keeps g.heap h') :
    Ok ⟨mem, h'⟩ :=
  ⟨hk.inv, fun x hx => by
    rw [hmem]
    exact hok.mapped x (hk.range_eq ▸ hx)⟩

lemma Ok.mapped_of_live (hok : g.Ok) (hn : n ≤ 2 ^ 64) (hl : block p n ⊆ g.heap.live) : g.mem.Mapped p n :=
  ⟨hn, fun x hx => hok.mapped x (hok.inv.live_subset (hl hx))⟩

lemma Ok.mapped_of_grants (hok : g.Ok) (hg : Grants g.heap h' p n) : g.mem.Mapped p n :=
  ⟨by have := hg.fin; omega, fun x hx => hok.mapped x (hg.spare hx).1⟩

/-- **A block with these bytes**, for which there is room. -/
structure Placed (g g' : GuestHeap) (p : Word) (bs : List Byte) : Prop where
  ok : g'.Ok
  grants : Grants g.heap g'.heap p bs.length
  mapped : g'.mem.mapped = g.mem.mapped
  bytes : g'.mem.bytes = store g.mem.bytes p bs

theorem placed_place (hok : g.Ok) (hn : bs.length + 8 ≤ 2 ^ 63) (hroom : g.heap.HasRoom (BitVec.ofNat 64 bs.length) 8) :
    Placed g (g.place bs).1 (g.place bs).2 bs := by
  have hg := grants_allocate hok.inv hn hroom
  refine ⟨hok.keeps rfl hg.keeps, hg, rfl, ?_⟩
  show (g.mem.write (g.heap.allocate (BitVec.ofNat 64 bs.length) 8).2 bs).1.bytes = _
  rw [GuestMemory.write_of_mapped (hok.mapped_of_grants hg)]
  rfl

theorem place_spec (bs : List Byte) (hok : g.Ok) (hleft : bs.length + 8 ≤ g.heap.left) :
    ∃ g' p, g.place bs = (g', p) ∧ Placed g g' p bs ∧ g.heap.left ≤ g'.heap.left + bs.length + 8 :=
  have hlen := hleft.trans hok.inv.left_le
  ⟨_, _, rfl, placed_place hok hlen (hasRoom_of_left hok.inv hleft), left_allocate hok.inv hlen⟩

namespace Placed

variable {g' : GuestHeap}

lemma load (hp : Placed g g' p bs) : load g'.mem.bytes p bs.length = bs := by
  rw [hp.bytes]
  exact load_store (by have := hp.grants.fin; omega)

lemma mapped_block (hp : Placed g g' p bs) : g'.mem.Mapped p bs.length :=
  ⟨by have := hp.grants.fin; omega,
    fun x hx => hp.ok.mapped x (hp.grants.keeps.range_eq ▸ (hp.grants.spare hx).1)⟩

lemma of_notMem_spare (hp : Placed g g' p bs) {x : Word} (hx : x ∉ g.heap.spare) :
    g'.mem.bytes x = g.mem.bytes x := by
  rw [hp.bytes]
  exact store_of_notMem fun h => hx (hp.grants.spare h)

end Placed

end GuestHeap

end CrossShim.Memory
