import CrossShim.Memory.Contents

/-!
# `calloc`

`calloc` multiplies in 64 bits and ignores what `zero` reports.  In the states of a run whose requests fit the
address space, it keeps its promise exactly for the products that do (`calloc_ok_iff`).
-/

namespace CrossShim.Memory.MemoryManager

open Lib HeapAllocator

variable {mm mm₁ : MemoryManager} {env : Env} {size nmemb p : Word}

lemma byteAt_of_ready (hq : mm.qemuReady = true) (x : Word) : mm.byteAt x = some (mm.guest x) := by
  simp [byteAt, read, hq]

/-! ### Requests that do not fit -/

lemma Inv.sixteen_dvd (hi : mm.Inv) : (16 : Word).toNat ∣ mm.heap.base.toNat + mm.heap.size.toNat := by
  rw [hi.base, hi.size]
  exact ⟨0x7000000, rfl⟩

lemma Inv.tail_bounds (hi : mm.Inv) :
    mm.heap.highWaterMark.toNat ≤ (alignUp mm.heap.highWaterMark 16).toNat ∧
      (alignUp mm.heap.highWaterMark 16).toNat ≤ 0x70000000 ∧ 0x60000000 ≤ mm.heap.highWaterMark.toNat := by
  have h1 : (0x60000000 : ℕ) ≤ mm.heap.highWaterMark.toNat := by
    have := hi.heap.baseLe
    rwa [hi.base] at this
  have h2 : mm.heap.highWaterMark.toNat ≤ 0x70000000 := by
    have := hi.heap.hwmLe
    rwa [hi.base, hi.size] at this
  have hw : mm.heap.highWaterMark.toNat + (16 : Word).toNat ≤ 2 ^ 64 := by
    simp only [BitVec.ofNat_eq_ofNat, BitVec.toNat_ofNat]
    omega
  exact ⟨(alignUp_spec isPowerOfTwo_sixteen hw).2.1,
    alignUp_le_of_dvd isPowerOfTwo_sixteen hw ⟨0x7000000, rfl⟩ h2, h1⟩

lemma Inv.tail_ne_zero (hi : mm.Inv) : alignUp mm.heap.highWaterMark 16 ≠ 0 := by
  have h := hi.tail_bounds
  intro h0
  rw [h0] at h
  simp at h
  omega

lemma allocate_of_wraps (env : Env) (hi : mm.Inv) (hw : ¬ mm.heap.NoWrap size 16) :
    mm.allocateGuestMemory env size 16 =
        ({ mm with heap := (mm.heap.bump (minSize size) 16).1 },
          alignUp mm.heap.highWaterMark 16) ∧
      (mm.heap.bump (minSize size) 16).1.allocations =
        mm.heap.allocations.insert (alignUp mm.heap.highWaterMark 16) (minSize size) := by
  obtain ⟨hfit, htail⟩ := hi.heap.tailFits_of_wraps isPowerOfTwo_sixteen hi.sixteen_dvd hw
  have hal : mm.heap.allocate (minSize size) 16 =
      mm.heap.bump (minSize size) 16 := by
    rw [fit] at hfit
    simp only [allocate, minSize_minSize, hfit]
  have hne := hi.tail_ne_zero
  rw [bump_of_tailFits htail] at hal ⊢
  refine ⟨?_, rfl⟩
  simp only [allocateGuestMemory, hal, ne_eq, hne, not_false_eq_true, if_true]

lemma Inv.dynamic_address (hi : mm.Inv) :
    (alignUp mm.nextDynamicAlloc (max 16 pageSize)).toNat = mm.nextDynamicAlloc.toNat ∧
      mm.nextDynamicAlloc.toNat + (max 16 pageSize).toNat ≤ 2 ^ 64 := by
  have hmax : max 16 pageSize = pageSize := by decide
  rw [hmax]
  have hroom : mm.nextDynamicAlloc.toNat + pageSize.toNat ≤ 2 ^ 64 := by
    have h1 : (4096 : ℕ) ∣ mm.nextDynamicAlloc.toNat := hi.nextDvd
    have h2 : pageSize.toNat = 4096 := rfl
    omega
  obtain ⟨-, h3, -⟩ := alignUp_spec isPowerOfTwo_pageSize hroom
  exact ⟨le_antisymm (alignUp_le_of_dvd isPowerOfTwo_pageSize hroom hi.nextDvd le_rfl) h3, hroom⟩

/-- With the heap's fit test in order, a region fits unless it ends too high. -/
lemma Inv.dynamicFits_iff (hi : mm.Inv) (hw : mm.heap.NoWrap size 16) :
    mm.DynamicFits size 16 ↔ (alignUp mm.nextDynamicAlloc (max 16 pageSize)).toNat +
      (alignUp (minSize size) pageSize).toNat < 2 ^ 64 := by
  refine ⟨fun h => h.2.2, fun h => ⟨hi.dynamic_address.2, ?_, h⟩⟩
  have h1 := hi.tail_bounds
  have h2 : pageSize.toNat = 4096 := rfl
  unfold HeapAllocator.NoWrap at hw
  omega

lemma allocate_ne_zero (env : Env) (hi : mm.Inv) (hm : env.mmapOk = true) (size : Word) :
    (mm.allocateGuestMemory env size 16).2 ≠ 0 := by
  by_cases hw : mm.heap.NoWrap size 16
  · by_cases hroom : mm.heap.HasRoom size 16
    · have hg := allocate_of_hasRoom env hi isPowerOfTwo_sixteen hw hroom
      exact hg.keeps.inv.ne_zero_of_live hg.live_self
    · rw [allocate_of_not_hasRoom env hroom]
      simp only [allocateDynamic, map, hm, if_true]
      intro h0
      have h1 := hi.dynamic_address.1
      have h2 : (0x200000000 : ℕ) ≤ mm.nextDynamicAlloc.toNat := hi.next
      rw [h0] at h1
      simp at h1
      omega
  · rw [(allocate_of_wraps env hi hw).1]
    exact hi.tail_ne_zero

/-! ### The promise of `calloc` -/

/-- `calloc` returns 0, or a block of at least `nmemb * size` bytes, all zero. -/
def CallocOk (mm : MemoryManager) (env : Env) (nmemb size : Word) : Prop :=
  (mm.calloc env nmemb size).2 = 0 ∨
    ∃ n, (mm.calloc env nmemb size).1.Live (mm.calloc env nmemb size).2 n ∧
      (mm.calloc env nmemb size).1.Placed (mm.calloc env nmemb size).2 n ∧
      nmemb.toNat * size.toNat ≤ n.toNat ∧
      ∀ i : Word, i.toNat < nmemb.toNat * size.toNat →
        (mm.calloc env nmemb size).1.byteAt ((mm.calloc env nmemb size).2 + i) = some 0

/-- The product fits a word, and the request fits the heap or the address space above it. -/
def CallocFits (mm : MemoryManager) (nmemb size : Word) : Prop :=
  nmemb.toNat * size.toNat < 2 ^ 64 ∧ mm.heap.NoWrap (nmemb * size) 16 ∧
    (mm.heap.HasRoom (nmemb * size) 16 ∨ mm.DynamicFits (nmemb * size) 16)

lemma calloc_eq (hal : mm.allocateGuestMemory env (nmemb * size) 16 = (mm₁, p)) (hp : p ≠ 0) :
    mm.calloc env nmemb size = ((mm₁.zero env p (nmemb * size)).1, p) := by
  simp only [calloc, hal, ne_eq, hp, not_false_eq_true, if_true]

lemma callocOk_of_granted {n : Word} (hq : mm.qemuReady = true) (hok : ∀ i, env.write i = .ok)
    (hprod : nmemb.toNat * size.toNat < 2 ^ 64) (hg : Granted env mm (mm.allocateGuestMemory env (nmemb * size) 16).1
      (mm.allocateGuestMemory env (nmemb * size) 16).2 n (nmemb * size)) : mm.CallocOk env nmemb size := by
  have hmul : (nmemb * size).toNat = nmemb.toNat * size.toNat := by
    rw [BitVec.toNat_mul, Nat.mod_eq_of_lt hprod]
  have hle := hg.sizeLe
  cases hal : mm.allocateGuestMemory env (nmemb * size) 16 with
  | mk mm₁ p =>
    rw [hal] at hg
    have hlt : p.toNat + n.toNat < 2 ^ 64 := (hg.keeps.inv.live_lt hg.live_self).2
    have hss : SameShape mm₁ (mm₁.zero env p (nmemb * size)).1 := zero_sameShape
    have hlive := hss.live.2 hg.live_self
    have hq₁ := hg.ready.trans hq
    right
    rw [calloc_eq hal (hg.keeps.inv.ne_zero_of_live hg.live_self)]
    refine ⟨n, hlive, (hss.keeps hg.keeps.inv).inv.placed hlive le_rfl, by omega, fun i hi => ?_⟩
    have hi' : i < nmemb * size := by
      rw [BitVec.lt_def]
      omega
    have hbyte : splice mm₁.guest p (fun _ => 0) (nmemb * size) (p + i) = 0 := splice_add hi'
    rw [byteAt_of_ready (hss.ready.trans hq₁), zero_ok hq₁ hok]
    exact congrArg some hbyte

lemma not_callocOk (hal : mm.allocateGuestMemory env (nmemb * size) 16 = (mm₁, p)) (hp : p ≠ 0)
    (hno : ∀ n, mm₁.Live p n → nmemb.toNat * size.toNat ≤ n.toNat → 2 ^ 64 ≤ p.toNat + n.toNat) :
    ¬ mm.CallocOk env nmemb size := by
  have hss : SameShape mm₁ (mm₁.zero env p (nmemb * size)).1 := zero_sameShape
  unfold CallocOk
  rw [calloc_eq hal hp]
  rintro (h | ⟨n, hl, hpl, hle, -⟩)
  · exact hp h
  · exact absurd hpl.1 (not_lt.2 (hno n (hss.live.1 hl) hle))

lemma not_callocOk_of_product (hi : mm.Inv) (hprod : 2 ^ 64 ≤ nmemb.toNat * size.toNat) :
    ¬ mm.CallocOk .good nmemb size := by
  have hp := allocate_ne_zero .good hi rfl (nmemb * size)
  refine not_callocOk (Prod.mk.eta.symm) hp fun n _ hle => ?_
  omega

lemma not_callocOk_of_wraps (hi : mm.Inv) (hw : ¬ mm.heap.NoWrap (nmemb * size) 16) :
    ¬ mm.CallocOk .good nmemb size := by
  obtain ⟨he, hallocs⟩ := allocate_of_wraps .good hi hw
  refine not_callocOk he hi.tail_ne_zero fun n hl _ => ?_
  unfold HeapAllocator.NoWrap at hw
  have hn : n = minSize (nmemb * size) := by
    rcases hl with hl | hl
    · simp only [hallocs, OrdMap.mem_insert] at hl
      rcases hl with ⟨-, rfl⟩ | ⟨hne, -⟩
      · rfl
      · exact absurd rfl hne
    · have h1 := hi.dynBounds hl
      have h2 := hi.tail_bounds
      omega
  subst hn
  omega

lemma not_callocOk_of_not_dynamicFits (hi : mm.Inv) (hw : mm.heap.NoWrap (nmemb * size) 16)
    (hno : ¬ mm.heap.HasRoom (nmemb * size) 16) (hd : ¬ mm.DynamicFits (nmemb * size) 16) :
    ¬ mm.CallocOk .good nmemb size := by
  have hp := allocate_ne_zero .good hi rfl (nmemb * size)
  rw [hi.dynamicFits_iff hw] at hd
  have he := allocate_of_not_hasRoom .good hno
  rw [he] at hp
  simp only [allocateDynamic, map, Env.good, if_true] at he hp
  refine not_callocOk he hp fun n hl _ => ?_
  rcases hl with hl | hl
  · have h1 := hi.heapBounds hl
    have h2 := hi.dynamic_address.1
    have h3 : (0x200000000 : ℕ) ≤ mm.nextDynamicAlloc.toNat := hi.next
    omega
  · simp only [OrdMap.mem_insert] at hl
    rcases hl with ⟨-, rfl⟩ | ⟨hne, -⟩
    · omega
    · exact absurd rfl hne

/-- **`calloc` keeps its promise** exactly for the products and requests that fit. QEMU runs, and a guest write to
memory it was given succeeds. -/
theorem calloc_ok_iff {regions : List MemoryRegion} (hr : (system regions).Reach Fitting mm)
    (hq : mm.qemuReady = true) (nmemb size : Word) :
    (∀ env : Env, (∀ i, env.write i = .ok) → mm.CallocOk env nmemb size) ↔ mm.CallocFits nmemb size := by
  have hi := reach_inv hr
  constructor
  · intro h
    have hok := h .good fun _ => rfl
    by_contra hcon
    by_cases hprod : nmemb.toNat * size.toNat < 2 ^ 64
    · by_cases hw : mm.heap.NoWrap (nmemb * size) 16
      · obtain ⟨hno, hd⟩ := not_or.1 fun hroom => hcon ⟨hprod, hw, hroom⟩
        exact not_callocOk_of_not_dynamicFits hi hw hno hd hok
      · exact not_callocOk_of_wraps hi hw hok
    · exact not_callocOk_of_product hi (not_lt.1 hprod) hok
  · rintro ⟨hprod, hw, hroom⟩ env hok
    by_cases hhas : mm.heap.HasRoom (nmemb * size) 16
    · exact callocOk_of_granted hq hok hprod
        (allocate_of_hasRoom env hi isPowerOfTwo_sixteen hw hhas)
    · have hf : mm.Fits (nmemb * size) 16 := ⟨isPowerOfTwo_sixteen, hw, hroom.resolve_left hhas⟩
      rcases allocate_spec env hi hf with he | ⟨n, hg⟩
      · left
        simp only [calloc, he, ne_eq, not_true, if_false]
      · exact callocOk_of_granted hq hok hprod hg

lemma reach_ready (C : MemoryManager → Call × Env → Prop) (hC : ∀ mm, C mm (.setQemuReady 0, .good)) :
    (system (initialRegions {})).Reach C ((init (initialRegions {})).setQemuReady .good 0) :=
  .step (.init rfl) (hC _) rfl

theorem calloc_ok_three_words : ((init (initialRegions {})).setQemuReady .good 0).CallocOk .good 3 8 :=
  (calloc_ok_iff (reach_ready Fitting fun _ => trivial) rfl 3 8).2
    ⟨by decide, by decide, .inl (.inr (by unfold HeapAllocator.TailFits; decide))⟩ .good fun _ => rfl

/-- **The product wraps**: `calloc(2^32, 2^32)` returns a block of one byte. -/
theorem calloc_wraps : ¬ ∀ mm, (system (initialRegions {})).Reachable mm → mm.qemuReady = true →
    ∀ nmemb size env, (∀ i, env.write i = .ok) → mm.CallocOk env nmemb size := by
  intro h
  have hi := reach_inv (reach_ready Fitting fun _ => trivial)
  exact not_callocOk_of_product hi (by decide)
    (h _ (reach_ready _ fun _ => trivial) rfl 0x100000000 0x100000000 .good fun _ => rfl)

end CrossShim.Memory.MemoryManager
