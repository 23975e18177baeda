import CrossShim.Memory.HeapRuns
import CrossShim.Memory.Manager

/-!
# The manager's invariant

A live block of the manager is a live block of the heap or an allocation with a region of its own.  `Inv` says
that these blocks are apart and where they lie.  The specifications of `allocateGuestMemory` (`allocate_spec`)
and `freeGuestMemory` (`free_spec`) are in terms of live blocks; accesses only change contents (`SameShape`).
-/

namespace CrossShim.Memory

open Lib HeapAllocator OrdMap List MemoryRegion

def MemoryRegion.extent (region : MemoryRegion) : Word × Word := (region.address, region.size)

lemma hostWrite_extents {address size : Word} {buffer : Bytes} {regions regions' : List MemoryRegion}
    (h : hostWrite address buffer size regions = some regions') :
    regions'.map extent = regions.map extent := by
  obtain ⟨front, region, back, rfl, rfl, -⟩ := hostWrite_eq_some h
  simp [extent, copyIn]

/-- Extents that are apart from one another and lie below `bound`. -/
def Laid (bound : ℕ) (extents : List (Word × Word)) : Prop :=
  extents.Pairwise (fun e f => Apart e.1.toNat e.2.toNat f.1.toNat f.2.toNat) ∧
    ∀ e ∈ extents, e.1.toNat + e.2.toNat ≤ bound

lemma Laid.snoc {bound : ℕ} {extents : List (Word × Word)} (h : Laid bound extents) {p n : Word}
    (hle : bound ≤ p.toNat) : Laid (p.toNat + n.toNat) (extents ++ [(p, n)]) := by
  obtain ⟨hpw, hb⟩ := h
  refine ⟨pairwise_append.2 ⟨hpw, pairwise_singleton .., fun e he => forall_mem_singleton.2 ?_⟩,
    forall_mem_append.2 ⟨fun e he => ?_, forall_mem_singleton.2 le_rfl⟩⟩
  · exact .inl ((hb e he).trans hle)
  · have := hb e he
    omega

namespace MemoryManager

variable {mm mm₁ mm₂ : MemoryManager} {env : Env} {a n m address size p al : Word} {buffer : Bytes} {h : HeapAllocator}

def Live (mm : MemoryManager) (a n : Word) : Prop :=
  (a, n) ∈ mm.heap.allocations.entries ∨ (a, n) ∈ mm.dynamicAllocations.entries

/-- **The manager's invariant.** -/
structure Inv (mm : MemoryManager) : Prop where
  heap : mm.heap.Inv
  base : mm.heap.base = heapBase
  size : mm.heap.size = heapSize
  next : dynamicAllocBase.toNat ≤ mm.nextDynamicAlloc.toNat
  nextDvd : pageSize.toNat ∣ mm.nextDynamicAlloc.toNat
  dynPos : ∀ a n, (a, n) ∈ mm.dynamicAllocations.entries → 0 < n.toNat
  dynIn : ∀ a n, (a, n) ∈ mm.dynamicAllocations.entries →
    dynamicAllocBase.toNat ≤ a.toNat ∧ a.toNat + n.toNat ≤ mm.nextDynamicAlloc.toNat
  dynApart : ∀ a n b m, (a, n) ∈ mm.dynamicAllocations.entries → (b, m) ∈ mm.dynamicAllocations.entries →
    a ≠ b → Apart a.toNat n.toNat b.toNat m.toNat
  dynMapped : ∀ a n, (a, n) ∈ mm.dynamicAllocations.entries → (a, n) ∈ mm.regions.map extent

lemma inv_init (regions : List MemoryRegion) : (init regions).Inv where
  heap := HeapAllocator.inv_init (by decide) (by decide)
  base := rfl
  size := rfl
  next := le_rfl
  nextDvd := ⟨0x200000, rfl⟩
  dynPos := by simp [init]
  dynIn := by simp [init]
  dynApart := by simp [init]
  dynMapped := by simp [init]

/-! ### Live blocks under the invariant -/

section

variable (hi : mm.Inv)
include hi

lemma Inv.heapBounds (h : (a, n) ∈ mm.heap.allocations.entries) :
    0x60000000 ≤ a.toNat ∧ a.toNat + n.toNat ≤ mm.heap.highWaterMark.toNat ∧
      mm.heap.highWaterMark.toNat ≤ 0x70000000 := by
  have h1 := hi.heap.liveIn a n h
  have h2 := hi.heap.hwmLe
  rw [hi.base, hi.size] at h2
  rw [hi.base] at h1
  exact ⟨h1.1, h1.2, h2⟩

lemma Inv.dynBounds (h : (a, n) ∈ mm.dynamicAllocations.entries) :
    0x200000000 ≤ a.toNat ∧ a.toNat + n.toNat ≤ mm.nextDynamicAlloc.toNat := hi.dynIn a n h

lemma Inv.livePos (h : mm.Live a n) : 0 < n.toNat :=
  h.elim (hi.heap.livePos a n) (hi.dynPos a n)

lemma Inv.live_lt (h : mm.Live a n) : 0x60000000 ≤ a.toNat ∧ a.toNat + n.toNat < 2 ^ 64 := by
  rcases h with h | h
  · have := hi.heapBounds h
    omega
  · have := hi.dynBounds h
    omega

lemma Inv.liveApart {b : Word} (ha : mm.Live a n) (hb : mm.Live b m) (hne : a ≠ b) :
    Apart a.toNat n.toNat b.toNat m.toNat := by
  -- the heap lies below the first dynamic address
  have cross : ∀ {a n b m}, (a, n) ∈ mm.heap.allocations.entries → (b, m) ∈ mm.dynamicAllocations.entries →
      Apart a.toNat n.toNat b.toNat m.toNat := by
    intro a n b m ha hb
    have h1 := hi.heapBounds ha
    have h2 := hi.dynBounds hb
    exact .inl (by omega)
  rcases ha with ha | ha <;> rcases hb with hb | hb
  · exact hi.heap.liveApart a n b m ha hb hne
  · exact cross ha hb
  · exact (cross hb ha).symm
  · exact hi.dynApart a n b m ha hb hne

lemma Inv.live_unique (ha : mm.Live a n) (hb : mm.Live a m) : n = m := by
  rcases ha with ha | ha <;> rcases hb with hb | hb
  · exact key_unique ha hb
  · have h1 := hi.heapBounds ha
    have h2 := hi.dynBounds hb
    omega
  · have h1 := hi.heapBounds hb
    have h2 := hi.dynBounds ha
    omega
  · exact key_unique ha hb

/-- **The recorded size of a block.** -/
theorem Inv.getGuestAllocationSize_eq (h : mm.Live a n) : mm.getGuestAllocationSize a = n := by
  have hpos := hi.livePos h
  unfold getGuestAllocationSize getAllocationSize
  cases hf : mm.heap.allocations.find? a with
  | some s =>
    obtain rfl := hi.live_unique h (.inl (find?_eq_some.1 hf))
    have hne : n ≠ 0 := by
      rintro rfl
      exact absurd hpos (by decide)
    exact if_pos hne
  | none =>
    have hd : (a, n) ∈ mm.dynamicAllocations.entries :=
      h.resolve_left (find?_eq_none.1 hf n)
    simp [find?_eq_some.2 hd]

end

lemma live_of_getGuestAllocationSize (h : mm.getGuestAllocationSize a ≠ 0) :
    mm.Live a (mm.getGuestAllocationSize a) := by
  unfold getGuestAllocationSize at *
  by_cases h0 : mm.heap.getAllocationSize a ≠ 0
  · simp only [if_pos h0]
    left
    unfold getAllocationSize at *
    cases hf : mm.heap.allocations.find? a with
    | some s => exact find?_eq_some.1 hf
    | none => exact absurd (by rw [hf]; rfl) h0
  · simp only [if_neg h0] at h ⊢
    right
    cases hd : mm.dynamicAllocations.find? a with
    | some s => exact find?_eq_some.1 hd
    | none => exact absurd (by rw [hd]; rfl) h

/-! ### What calls keep -/

/-- The invariant, a high-water mark that does not fall, and regions in good order if they were. -/
structure Keeps (mm mm₁ : MemoryManager) : Prop where
  inv : mm₁.Inv
  hwm : mm.heap.highWaterMark.toNat ≤ mm₁.heap.highWaterMark.toNat
  laid : Laid mm.nextDynamicAlloc.toNat (mm.regions.map extent) →
    Laid mm₁.nextDynamicAlloc.toNat (mm₁.regions.map extent)

lemma Inv.keeps (hi : mm.Inv) : Keeps mm mm := ⟨hi, le_rfl, id⟩

lemma Keeps.trans (k₁ : Keeps mm mm₁) (k₂ : Keeps mm₁ mm₂) : Keeps mm mm₂ :=
  ⟨k₂.inv, k₁.hwm.trans k₂.hwm, k₂.laid ∘ k₁.laid⟩

/-- Two states that differ in the contents of memory only. -/
structure SameShape (mm mm₁ : MemoryManager) : Prop where
  heap : mm₁.heap = mm.heap
  dyn : mm₁.dynamicAllocations = mm.dynamicAllocations
  next : mm₁.nextDynamicAlloc = mm.nextDynamicAlloc
  ready : mm₁.qemuReady = mm.qemuReady
  extents : mm₁.regions.map extent = mm.regions.map extent

lemma SameShape.refl (mm : MemoryManager) : SameShape mm mm := ⟨rfl, rfl, rfl, rfl, rfl⟩

lemma SameShape.trans (h₁ : SameShape mm mm₁) (h₂ : SameShape mm₁ mm₂) : SameShape mm mm₂ :=
  ⟨h₂.heap.trans h₁.heap, h₂.dyn.trans h₁.dyn, h₂.next.trans h₁.next, h₂.ready.trans h₁.ready,
    h₂.extents.trans h₁.extents⟩

lemma SameShape.live (h : SameShape mm mm₁) {a n : Word} : mm₁.Live a n ↔ mm.Live a n := by
  unfold Live
  rw [h.heap, h.dyn]

lemma Inv.congr (hi : mm.Inv) (hh : mm₁.heap = mm.heap) (hd : mm₁.dynamicAllocations = mm.dynamicAllocations)
    (hn : mm₁.nextDynamicAlloc = mm.nextDynamicAlloc)
    (he : mm₁.regions.map extent = mm.regions.map extent) : mm₁.Inv := by
  constructor
  · rw [hh]; exact hi.heap
  · rw [hh]; exact hi.base
  · rw [hh]; exact hi.size
  · rw [hn]; exact hi.next
  · rw [hn]; exact hi.nextDvd
  · rw [hd]; exact hi.dynPos
  · rw [hd, hn]; exact hi.dynIn
  · rw [hd]; exact hi.dynApart
  · rw [hd, he]; exact hi.dynMapped

lemma SameShape.keeps (h : SameShape mm mm₁) (hi : mm.Inv) : Keeps mm mm₁ := by
  refine ⟨hi.congr h.heap h.dyn h.next h.extents, by rw [h.heap], ?_⟩
  rw [h.extents, h.next]
  exact id

/-! ### Accesses keep the shape -/

lemma writeHost_sameShape : SameShape mm (mm.writeHost address buffer size).1 := by
  unfold writeHost
  cases h : hostWrite address buffer size mm.regions with
  | none => exact .refl mm
  | some regions => exact ⟨rfl, rfl, rfl, rfl, hostWrite_extents h⟩

lemma write_sameShape {outcome : Outcome} : SameShape mm (mm.write outcome address buffer size).1 := by
  unfold write
  by_cases hq : mm.qemuReady = true
  · rw [if_pos hq]
    by_cases ho : outcome = .ok
    · simp only [ho, if_true]
      exact ⟨rfl, rfl, rfl, rfl, rfl⟩
    · simp only [ho, if_false]
      have h : SameShape mm { mm with guest := splice mm.guest address buffer (outcome.moved size) } :=
        ⟨rfl, rfl, rfl, rfl, rfl⟩
      exact h.trans writeHost_sameShape
  · rw [if_neg hq]
    exact writeHost_sameShape

lemma chunks_sameShape {step total : Word} {body : ℕ → Word → Word → MemoryManager → MemoryManager × Bool}
    (hs : 0 < step.toNat) (hbody : ∀ i offset chunk mm, SameShape mm (body i offset chunk mm).1) :
    SameShape mm (chunks step total body mm).1 := by
  refine ends_self.1 (chunks_rule (I := fun _ => SameShape mm) hs (.refl mm) fun i offset s _ hI => ?_)
  exact ends_self.2 (hI.trans (hbody i offset _ s))

/-! ### Allocation -/

/-- A region of its own for the request fits the address space: neither rounding wraps, and the region ends
below `2^64`. -/
def DynamicFits (mm : MemoryManager) (size alignment : Word) : Prop :=
  mm.nextDynamicAlloc.toNat + (max alignment pageSize).toNat ≤ 2 ^ 64 ∧
    (minSize size).toNat + pageSize.toNat ≤ 2 ^ 64 ∧
    (alignUp mm.nextDynamicAlloc (max alignment pageSize)).toNat +
      (alignUp (minSize size) pageSize).toNat < 2 ^ 64

/-- The request fits the 64-bit address space: neither the fit test of the heap wraps, nor a region. -/
def Fits (mm : MemoryManager) (size alignment : Word) : Prop :=
  alignment.toNat.isPowerOfTwo ∧ mm.heap.NoWrap size alignment ∧ mm.DynamicFits size alignment

/-- **A granted request** of `size` bytes: the block at `p`, of recorded size `n`. -/
structure Granted (env : Env) (mm mm₁ : MemoryManager) (p n size : Word) : Prop where
  keeps : Keeps mm mm₁
  live : ∀ b m, mm₁.Live b m ↔ b = p ∧ m = n ∨ mm.Live b m
  fresh : ∀ b m, mm.Live b m → Apart p.toNat n.toNat b.toNat m.toNat
  pos : 0 < n.toNat
  sizeLe : size.toNat ≤ n.toNat
  ready : mm₁.qemuReady = mm.qemuReady
  guest : ∀ x : Word, x.toNat ∉ span p.toNat n.toNat → mm₁.guest x = mm.guest x
  regions : (heapBase.toNat ≤ p.toNat ∧ p.toNat + n.toNat ≤ heapBase.toNat + heapSize.toNat) ∧
      mm₁.regions = mm.regions ∨
    env.mmapOk = true ∧ mm₁.regions = mm.regions ++ [⟨p, n, some fun _ => 0⟩]

lemma minSize_ge (size : Word) : size.toNat ≤ (minSize size).toNat := by
  unfold minSize
  split
  · bv_omega
  · exact le_rfl

lemma minSize_minSize (size : Word) :
    minSize (minSize size) = minSize size := by
  have h := minSize_pos size
  have hne : minSize size ≠ 0 := by
    intro h0
    rw [h0] at h
    exact absurd h (by decide)
  exact if_neg hne

lemma Inv.granted_heap (hi : mm.Inv) {heap : HeapAllocator}
    (hsv : Served mm.heap heap p (minSize size) al) :
    Granted env mm { mm with heap := heap } p (minSize size) size := by
  have hpos := minSize_pos size
  have hfresh : ∀ b m, (b, m) ∈ mm.heap.allocations.entries →
      Apart p.toNat (minSize size).toNat b.toNat m.toNat := fun b m hbm =>
    apart_of_disjoint_cover hi.heap.livePos hpos hsv.fresh hbm
  have hinv : Inv { mm with heap := heap } :=
    { hi with heap := hsv.inv, base := hsv.base.trans hi.base, size := hsv.size.trans hi.size }
  have hp : (p, minSize size) ∈ heap.allocations.entries := by
    rw [hsv.allocs, mem_insert]
    exact .inl ⟨rfl, rfl⟩
  have hin := hinv.heapBounds hp
  refine ⟨⟨hinv, hsv.hwm, id⟩, ?_, ?_, hpos, minSize_ge size, rfl, fun _ _ => rfl,
    .inl ⟨⟨hin.1, hin.2.1.trans hin.2.2⟩, rfl⟩⟩
  · intro b m
    unfold Live
    rw [hsv.allocs, mem_insert]
    constructor
    · rintro ((h | ⟨-, h⟩) | h)
      · exact .inl h
      · exact .inr (.inl h)
      · exact .inr (.inr h)
    · rintro (h | h | h)
      · exact .inl (.inl h)
      · refine .inl (.inr ⟨?_, h⟩)
        rintro rfl
        exact not_apart_self hpos (hi.heap.livePos _ _ h) (hfresh _ _ h)
      · exact .inr h
  · rintro b m (h | h)
    · exact hfresh b m h
    · have h2 := hi.dynBounds h
      exact .inl (by simp only at hin; omega)

lemma isPowerOfTwo_pageSize : pageSize.toNat.isPowerOfTwo := ⟨12, rfl⟩

lemma isPowerOfTwo_max (hal : al.toNat.isPowerOfTwo) : (max al pageSize).toNat.isPowerOfTwo := by
  rcases max_choice al pageSize with h | h <;> rw [h]
  · exact hal
  · exact isPowerOfTwo_pageSize

lemma pageSize_dvd_max (hal : al.toNat.isPowerOfTwo) : pageSize.toNat ∣ (max al pageSize).toNat :=
  pow2_dvd_pow2 isPowerOfTwo_pageSize (isPowerOfTwo_max hal) (le_max_right al pageSize)

lemma DynamicFits.bounds (hal : al.toNat.isPowerOfTwo) (hd : mm.DynamicFits size al) :
    pageSize.toNat ∣ (alignUp mm.nextDynamicAlloc (max al pageSize)).toNat ∧
      mm.nextDynamicAlloc.toNat ≤ (alignUp mm.nextDynamicAlloc (max al pageSize)).toNat ∧
      pageSize.toNat ∣ (alignUp (minSize size) pageSize).toNat ∧
      (minSize size).toNat ≤ (alignUp (minSize size) pageSize).toNat ∧
      (alignUp mm.nextDynamicAlloc (max al pageSize)).toNat +
        (alignUp (minSize size) pageSize).toNat < 2 ^ 64 := by
  obtain ⟨hnext, hsize, hend⟩ := hd
  obtain ⟨h1, h2, -⟩ := alignUp_spec (isPowerOfTwo_max hal) hnext
  obtain ⟨h3, h4, -⟩ := alignUp_spec isPowerOfTwo_pageSize hsize
  exact ⟨(pageSize_dvd_max hal).trans h1, h2, h3, h4, hend⟩

section Grow

variable {p n b m : Word} (hi : mm.Inv) (hle : mm.nextDynamicAlloc.toNat ≤ p.toNat)

include hi hle

lemma Inv.mem_grow :
    (b, m) ∈ (mm.dynamicAllocations.insert p n).entries ↔ b = p ∧ m = n ∨ (b, m) ∈ mm.dynamicAllocations.entries := by
  rw [mem_insert]
  refine or_congr_right ⟨And.right, fun h => ⟨?_, h⟩⟩
  rintro rfl
  have h1 := hi.dynBounds h
  have h2 := hi.dynPos _ _ h
  omega

lemma Inv.grow {guest : Bytes} (hp : pageSize.toNat ∣ p.toNat) (hn : pageSize.toNat ∣ n.toNat) (hpos : 0 < n.toNat)
    (hsum : (p + n).toNat = p.toNat + n.toNat) :
    Inv { mm with
      regions := mm.regions ++ [⟨p, n, some fun _ => 0⟩], guest := guest,
      dynamicAllocations := mm.dynamicAllocations.insert p n, nextDynamicAlloc := p + n } := by
  have hnext := hi.next
  refine ⟨hi.heap, hi.base, hi.size, ?_, ?_, ?_, ?_, ?_, ?_⟩
  · simp only [hsum]
    omega
  · simp only [hsum]
    exact hp.add hn
  · exact forall_insert hpos hi.dynPos
  · simp only [hsum]
    refine forall_insert ⟨by omega, le_rfl⟩ fun a m ham => ?_
    have h1 := hi.dynIn a m ham
    omega
  · refine pairwise_insert .symm (fun a m ham => ?_) hi.dynApart
    have h1 := hi.dynIn a m ham
    exact .inr (by omega)
  · simp only [map_append, mem_append]
    exact forall_insert (.inr (mem_singleton.2 rfl)) fun a m ham => .inl (hi.dynMapped a m ham)

lemma Inv.live_below (h : mm.Live b m) : Apart p.toNat n.toNat b.toNat m.toNat := by
  rcases h with h | h
  · have h1 := hi.heapBounds h
    have h2 : (0x200000000 : ℕ) ≤ mm.nextDynamicAlloc.toNat := hi.next
    exact .inr (by omega)
  · have h1 := hi.dynBounds h
    exact .inr (by omega)

end Grow

lemma Inv.granted_dynamic (hi : mm.Inv) (hal : al.toNat.isPowerOfTwo) (hd : mm.DynamicFits size al)
    (hm : env.mmapOk = true) :
    Granted env mm (mm.allocateDynamic env (minSize size) al).1
      (mm.allocateDynamic env (minSize size) al).2
      (alignUp (minSize size) pageSize) size := by
  obtain ⟨h1, h2, h3, h4, h5⟩ := hd.bounds hal
  have hpos := minSize_pos size
  have hge := minSize_ge size
  unfold allocateDynamic map
  simp only [hm, if_true]
  generalize alignUp mm.nextDynamicAlloc (max al pageSize) = p at *
  generalize alignUp (minSize size) pageSize = n at *
  have hsum : (p + n).toNat = p.toNat + n.toNat := by
    rw [BitVec.toNat_add, Nat.mod_eq_of_lt h5]
  refine ⟨⟨hi.grow h2 h1 h3 (by omega) hsum, le_rfl, fun hl => ?_⟩, ?_, fun b m h => hi.live_below h2 h,
    by omega, by omega, rfl, ?_, .inr ⟨hm, rfl⟩⟩
  · simp only [hsum, map_append]
    exact Laid.snoc hl h2
  · intro b m
    unfold Live
    simp only [hi.mem_grow h2]
    exact or_left_comm
  · intro x hx
    simp only
    split
    · exact splice_of_notMem h5.le hx
    · rfl

lemma noWrap_minSize (hw : h.NoWrap size al) : h.NoWrap (minSize size) al := by
  unfold NoWrap
  rw [minSize_minSize]
  exact hw

lemma hasRoom_minSize : h.HasRoom (minSize size) al ↔ h.HasRoom size al := by
  unfold HasRoom fit
  rw [minSize_minSize]

theorem allocate_of_hasRoom (env : Env) (hi : mm.Inv) (hal : al.toNat.isPowerOfTwo) (hw : mm.heap.NoWrap size al)
    (hroom : mm.heap.HasRoom size al) :
    Granted env mm (mm.allocateGuestMemory env size al).1 (mm.allocateGuestMemory env size al).2
      (HeapAllocator.minSize size) size := by
  have hsv := HeapAllocator.allocate_of_hasRoom hi.heap hal (noWrap_minSize hw) (hasRoom_minSize.2 hroom)
  rw [minSize_minSize] at hsv
  have hne := hsv.ne_zero hi.heap
  simp only [allocateGuestMemory, ne_eq, hne, not_false_eq_true, if_true]
  exact hi.granted_heap hsv

lemma allocate_of_not_hasRoom (env : Env) (hno : ¬ mm.heap.HasRoom size al) :
    mm.allocateGuestMemory env size al = mm.allocateDynamic env (HeapAllocator.minSize size) al := by
  have he := HeapAllocator.allocate_of_not_hasRoom fun h => hno (hasRoom_minSize.1 h)
  simp only [allocateGuestMemory, he, ne_eq, not_true, if_false]

/-- **Allocation**: a request is refused without a trace, or granted. -/
theorem allocate_spec (env : Env) (hi : mm.Inv) (hf : mm.Fits size al) :
    mm.allocateGuestMemory env size al = (mm, 0) ∨
      ∃ n, Granted env mm (mm.allocateGuestMemory env size al).1 (mm.allocateGuestMemory env size al).2 n size := by
  obtain ⟨hal, hw, hd⟩ := hf
  by_cases hroom : mm.heap.HasRoom size al
  · exact .inr ⟨_, allocate_of_hasRoom env hi hal hw hroom⟩
  · rw [allocate_of_not_hasRoom env hroom]
    by_cases hm : env.mmapOk = true
    · exact .inr ⟨_, hi.granted_dynamic hal hd hm⟩
    · left
      rw [Bool.not_eq_true] at hm
      simp only [allocateDynamic, map, hm, Bool.false_eq_true, if_false]

lemma Granted.live_self (hg : Granted env mm mm₁ p n size) : mm₁.Live p n :=
  (hg.live p n).2 (.inl ⟨rfl, rfl⟩)

lemma Inv.ne_zero_of_live (hi : mm.Inv) (h : mm.Live a n) : a ≠ 0 := by
  have := hi.live_lt h
  rintro rfl
  simp at this

/-! ### Release -/

/-- **A released block**: it is no longer live, every other block is, and the contents of memory stay. -/
structure Freed (mm mm₁ : MemoryManager) (address : Word) : Prop where
  keeps : Keeps mm mm₁
  live : ∀ b m, mm₁.Live b m ↔ b ≠ address ∧ mm.Live b m
  ready : mm₁.qemuReady = mm.qemuReady
  guest : mm₁.guest = mm.guest
  regions : mm₁.regions = mm.regions ∨ ∃ n, (address, n) ∈ mm.dynamicAllocations.entries ∧
    mm₁.regions = mm.regions.eraseP fun region => region.address = address ∧ region.size = n

lemma unmap_eq (address size : Word) : (mm.unmap address size).1 =
    { mm with regions := mm.regions.eraseP fun region => region.address = address ∧ region.size = size } := by
  unfold unmap
  by_cases h : mm.regions.any fun region => region.address = address ∧ region.size = size
  · rw [if_pos h]
  · rw [if_neg h]
    rw [Bool.not_eq_true, any_eq_false] at h
    rw [eraseP_of_forall_not (by simpa using h)]

lemma Inv.freed_dynamic (hi : mm.Inv) (hm : (address, size) ∈ mm.dynamicAllocations.entries) :
    Freed mm { mm with
      dynamicAllocations := mm.dynamicAllocations.erase address
      regions := mm.regions.eraseP fun region => region.address = address ∧ region.size = size } address := by
  have hsub : List.Sublist
      ((mm.regions.eraseP fun region => region.address = address ∧ region.size = size).map extent)
      (mm.regions.map extent) := eraseP_sublist.map _
  refine ⟨⟨⟨hi.heap, hi.base, hi.size, hi.next, hi.nextDvd, ?_, ?_, ?_, ?_⟩, le_rfl, ?_⟩, ?_, rfl, rfl,
    .inr ⟨size, hm, rfl⟩⟩
  · intro a n han
    exact hi.dynPos a n (mem_erase.1 han).2
  · intro a n han
    exact hi.dynIn a n (mem_erase.1 han).2
  · intro a n b m han hbm
    exact hi.dynApart a n b m (mem_erase.1 han).2 (mem_erase.1 hbm).2
  · intro a n han
    obtain ⟨hne, han⟩ := mem_erase.1 han
    obtain ⟨region, hr, he⟩ := mem_map.1 (hi.dynMapped a n han)
    refine mem_map.2 ⟨region, (mem_eraseP_of_neg ?_).2 hr, he⟩
    have : region.address = a := congrArg Prod.fst he
    simp [this, hne]
  · rintro ⟨hpw, hb⟩
    exact ⟨hpw.sublist hsub, fun e he => hb e (hsub.subset he)⟩
  · intro b m
    unfold Live
    rw [mem_erase]
    constructor
    · rintro (h | ⟨hne, h⟩)
      · refine ⟨?_, .inl h⟩
        rintro rfl
        have h1 := hi.heapBounds h
        have h2 := hi.dynBounds hm
        omega
      · exact ⟨hne, .inr h⟩
    · rintro ⟨hne, h | h⟩
      · exact .inl h
      · exact .inr ⟨hne, h⟩

/-- **Release** of any address. -/
theorem free_spec (hi : mm.Inv) (address : Word) : Freed mm (mm.freeGuestMemory address) address := by
  unfold freeGuestMemory
  by_cases h0 : address = 0
  · rw [if_pos h0]
    subst h0
    exact ⟨hi.keeps, fun b m => ⟨fun h => ⟨hi.ne_zero_of_live h, h⟩, And.right⟩, rfl, rfl, .inl rfl⟩
  rw [if_neg h0]
  cases hf : mm.dynamicAllocations.find? address with
  | some size =>
    simp only [unmap_eq]
    exact hi.freed_dynamic (find?_eq_some.1 hf)
  | none =>
    have hno := find?_eq_none.1 hf
    have hr := (HeapAllocator.free_spec hi.heap address).1
    refine ⟨⟨{ hi with heap := hr.inv, base := hr.base.trans hi.base, size := hr.size.trans hi.size }, hr.hwm.ge, id⟩,
      ?_, rfl, rfl, .inl rfl⟩
    intro b m
    unfold Live
    simp only [hr.allocs]
    constructor
    · rintro (h | h)
      · exact ⟨h.1, .inl h.2⟩
      · refine ⟨?_, .inr h⟩
        rintro rfl
        exact hno m h
    · rintro ⟨hne, h | h⟩
      · exact .inl ⟨hne, h⟩
      · exact .inr h

end MemoryManager

end CrossShim.Memory
