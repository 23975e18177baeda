import CrossShim.Memory.Contents

/-!
# `realloc_guest_memory`

A block that grows moves: the new block is allocated, the contents are copied piece by piece, and the old block
is freed; when a piece fails the new block is freed instead.

`realloc_ok` says what a caller sees, in every state of a run whose requests fit the address space, for every
outcome of the guest accesses in which no host buffer steps in for QEMU.
-/

namespace CrossShim.Memory

open Lib List

/-- No host buffer lies behind `[a, a + n)`. -/
def NoBuffer (regions : List MemoryRegion) (a n : Word) : Prop :=
  ∀ region ∈ regions, region.hostPtr.isSome → Apart region.address.toNat region.size.toNat a.toNat n.toNat

variable {regions : List MemoryRegion} {a n : Word}

lemma NoBuffer.hostAccess_eq_none {address size : Word} (h : NoBuffer regions a n)
    (hw : address.toNat + size.toNat < 2 ^ 64) (hs : 0 < size.toNat) (hlo : a.toNat ≤ address.toNat)
    (hhi : address.toNat + size.toNat ≤ a.toNat + n.toNat) : hostAccess regions address size = none := by
  cases hacc : hostAccess regions address size with
  | none => rfl
  | some e =>
    obtain ⟨region, offset⟩ := e
    obtain ⟨hm, -, hsome, h1, h2⟩ := hostAccess_covers hw hacc
    have hap := h region hm hsome
    unfold Apart at hap
    omega

lemma NoBuffer.mono {b l : Word} (h : NoBuffer regions a n) (hlo : a.toNat ≤ b.toNat)
    (hhi : b.toNat + l.toNat ≤ a.toNat + n.toNat) : NoBuffer regions b l := by
  intro region hr hs
  have := h region hr hs
  unfold Apart at *
  omega

namespace MemoryManager

variable {mm mm₁ mm₂ : MemoryManager} {env : Env} {outcome : Outcome} {size a p n b m : Word}

/-! ### The copy -/

lemma write_regions {address : Word} {buffer : Bytes} (hq : mm.qemuReady = true)
    (hn : mm.NoFallback outcome address size) : (mm.write outcome address buffer size).1.regions = mm.regions := by
  by_cases ho : outcome = .ok
  · subst ho
    rw [write_ok hq]
  · have hno := (hn hq).resolve_left ho
    have hnone : hostWrite address buffer size mm.regions = none := by
      rw [← Option.not_isSome_iff_eq_none, isSome_hostWrite, hno]
      simp
    simp only [write, hq, if_true, ho, if_false, writeHost, hnone]

/-- The progress of a copy of `[a, a + n)` to `p`, when `offset` bytes are done. -/
structure Copying (mm : MemoryManager) (a p n offset : Word) (s : MemoryManager) : Prop where
  ready : s.qemuReady = mm.qemuReady
  regions : mm.qemuReady = true → s.regions = mm.regions
  filled : s.Filled (fun i b => mm.Holds (a + i) b) p offset
  outside : SameOutside mm s p n

lemma Copying.noFallback {offset chunk : Word} {s : MemoryManager} (hI : mm.Copying a p n offset s)
    (hclean : mm.qemuReady = true → outcome = .ok ∨ NoBuffer mm.regions b n) (hpos : 0 < chunk.toNat)
    (hw : b.toNat + n.toNat < 2 ^ 64) (hle : offset.toNat + chunk.toNat ≤ n.toNat) :
    s.NoFallback outcome (b + offset) chunk := by
  intro hq
  rw [hI.ready] at hq
  have hb : (b + offset).toNat = b.toNat + offset.toNat := by bv_omega
  refine (hclean hq).imp_right fun hno => ?_
  rw [hI.regions hq]
  exact hno.hostAccess_eq_none (by omega) (by omega) (by omega) (by omega)

/-- **The copy** of a block to another that is apart from it. -/
theorem copy_spec (hwa : a.toNat + n.toNat < 2 ^ 64) (hwp : p.toNat + n.toNat < 2 ^ 64)
    (hap : Apart p.toNat n.toNat a.toNat n.toNat)
    (hread : mm.qemuReady = true → ∀ i, env.read i = .ok ∨ NoBuffer mm.regions a n)
    (hwrite : mm.qemuReady = true → ∀ i, env.write i = .ok ∨ NoBuffer mm.regions p n) :
    Ends (mm.Copying a p n n) (fun s => SameOutside mm s p n) (mm.copy env a p n) := by
  refine chunks_rule (I := mm.Copying a p n) (by decide) ⟨rfl, fun _ => rfl, filled_zero, .refl mm p n⟩ ?_
  intro i offset s hlt hI
  obtain ⟨h1, h2⟩ := toNat_chunk ioChunk hlt
  have hlt' : offset.toNat < n.toNat := hlt
  have hio : ioChunk.toNat = 0x100000 := rfl
  generalize min (n - offset) ioChunk = chunk at *
  have ha : (a + offset).toNat = a.toNat + offset.toNat := by bv_omega
  have hp : (p + offset).toNat = p.toNat + offset.toNat := by bv_omega
  have hnr : s.NoFallback (env.read i) (a + offset) chunk :=
    hI.noFallback (fun hq => hread hq i) (by omega) hwa (by omega)
  have hnw : s.NoFallback (env.write i) (p + offset) chunk :=
    hI.noFallback (fun hq => hwrite hq i) (by omega) hwp (by omega)
  cases hr : s.read (env.read i) (a + offset) chunk with
  | none => exact hI.outside
  | some buffer =>
    have hbytes : ∀ j, j < chunk → mm.Holds (a + (offset + j)) (buffer j) := by
      intro j hj
      have hb := read_spec (by omega) hnr hr hj
      rw [show a + offset + j = a + (offset + j) by bv_omega] at hb
      refine (hI.outside _ _ ?_).1 hb
      unfold Apart at hap
      simp only [mem_span]
      bv_omega
    have hss : SameShape s (s.write (env.write i) (p + offset) buffer chunk).1 := write_sameShape
    have hregs : s.qemuReady = true → (s.write (env.write i) (p + offset) buffer chunk).1.regions = s.regions :=
      fun hq => write_regions hq hnw
    have hspec := write_spec buffer (by omega) hnw
    show Ends _ _ (s.write (env.write i) (p + offset) buffer chunk)
    cases hwr : s.write (env.write i) (p + offset) buffer chunk with
    | mk s' ok =>
      rw [hwr] at hss hregs hspec
      cases ok with
      | false => exact hI.outside.trans (SameOutside.mono hspec (by omega) (by omega))
      | true =>
        obtain ⟨hnew, hout⟩ := hspec
        refine ⟨hss.ready.trans hI.ready, fun hq => ?_, ?_, hI.outside.trans (hout.mono (by omega) (by omega))⟩
        · exact (hregs (hI.ready.trans hq)).trans (hI.regions hq)
        · exact hI.filled.extend (by omega) (fun j hj => ⟨buffer j, hbytes j hj, hnew j hj⟩) hout

/-! ### Contents through allocation and release -/

lemma Granted.sameOutside (hg : Granted env mm mm₁ p n size) : SameOutside mm mm₁ p n := by
  intro x b hx
  unfold Holds
  rw [hg.ready]
  by_cases hq : mm.qemuReady = true
  · rw [if_pos hq, if_pos hq, hg.guest x hx]
  · rw [if_neg hq, if_neg hq]
    rcases hg.regions with ⟨-, he⟩ | ⟨-, he⟩
    · rw [he]
    · -- the new region does not reach `x`
      have hno : ¬ MemoryRegion.Has ⟨p, n, some fun _ => 0⟩ x b := fun h => hx h.1
      simp only [he, HostHolds, mem_append, mem_singleton, or_and_right, exists_or, exists_eq_left, hno,
        or_false]

lemma Freed.sameOutside (hi : mm.Inv) (hlive : mm.Live a n) (hf : Freed mm mm₁ a) : SameOutside mm mm₁ a n := by
  intro x b hx
  unfold Holds
  rw [hf.ready, hf.guest]
  by_cases hq : mm.qemuReady = true
  · rw [if_pos hq, if_pos hq]
  · rw [if_neg hq, if_neg hq]
    rcases hf.regions with he | ⟨m, hm, he⟩
    · rw [he]
    · obtain rfl := hi.live_unique hlive (.inr hm)
      rw [he]
      constructor
      · rintro ⟨region, hr, hb⟩
        exact ⟨region, mem_of_mem_eraseP hr, hb⟩
      · rintro ⟨region, hr, hb⟩
        refine ⟨region, (mem_eraseP_of_neg ?_).2 hr, hb⟩
        rw [decide_eq_true_eq]
        rintro ⟨rfl, rfl⟩
        exact hx hb.1

/-- The bytes of a block read the same in both states. -/
def SameBlock (mm mm₁ : MemoryManager) (b m : Word) : Prop := ∀ i, i < m → mm₁.byteAt (b + i) = mm.byteAt (b + i)

lemma byteAt_congr (hl : mm.WellLaid) (hl₁ : mm₁.WellLaid) {x y : Word} (hx : x.toNat + 1 < 2 ^ 64)
    (hy : y.toNat + 1 < 2 ^ 64) (h : ∀ b, mm₁.Holds y b ↔ mm.Holds x b) : mm₁.byteAt y = mm.byteAt x := by
  ext b
  rw [byteAt_eq_some hl₁ hy, byteAt_eq_some hl hx]
  exact h b

lemma SameOutside.sameBlock (h : SameOutside mm mm₁ p n) (hl : mm.WellLaid) (hl₁ : mm₁.WellLaid)
    (hw : b.toNat + m.toNat < 2 ^ 64) (hap : Apart p.toNat n.toNat b.toNat m.toNat) : SameBlock mm mm₁ b m := by
  intro i hi
  have hi' : i.toNat < m.toNat := hi
  have hsum : (b + i).toNat = b.toNat + i.toNat := by bv_omega
  refine byteAt_congr hl hl₁ (by omega) (by omega) fun v => h _ _ ?_
  unfold Apart at hap
  simp only [mem_span]
  omega

lemma SameBlock.trans (h₁ : SameBlock mm mm₁ b m) (h₂ : SameBlock mm₁ mm₂ b m) : SameBlock mm mm₂ b m :=
  fun i hi => (h₂ i hi).trans (h₁ i hi)

/-! ### What the caller sees -/

structure Unchanged (mm mm₁ : MemoryManager) : Prop where
  live : ∀ b m, mm₁.Live b m ↔ mm.Live b m
  contents : ∀ b m, mm.Live b m → SameBlock mm mm₁ b m

/-- The call returns `p`: a live block of at least `newSize` bytes with the contents of `[a, a + n)`, which is released
exactly when `p` is another address; every other block is as it was. -/
structure Moved (mm mm₁ : MemoryManager) (a n newSize p : Word) : Prop where
  block : ∃ m, mm₁.Live p m ∧ newSize.toNat ≤ m.toNat
  contents : ∀ i, i < min n newSize → mm₁.byteAt (p + i) = mm.byteAt (a + i)
  released : (∀ m, ¬ mm₁.Live a m) ↔ p ≠ a
  othersLive : ∀ b m, b ≠ a → b ≠ p → (mm₁.Live b m ↔ mm.Live b m)
  othersContents : ∀ b m, b ≠ a → mm.Live b m → SameBlock mm mm₁ b m

/-- What `realloc_guest_memory` promises for the live block `[a, a + n)`. -/
def ReallocOk (mm : MemoryManager) (env : Env) (a n newSize : Word) : Prop :=
  (mm.reallocGuestMemory env a newSize true).2 = 0 ∧
      Unchanged mm (mm.reallocGuestMemory env a newSize true).1 ∨
    (mm.reallocGuestMemory env a newSize true).2 ≠ 0 ∧
      Moved mm (mm.reallocGuestMemory env a newSize true).1 a n newSize
        (mm.reallocGuestMemory env a newSize true).2

/-- No host buffer steps in for QEMU: each guest access of the copy succeeds, unless no buffer lies behind its block. -/
def CleanCopy (mm : MemoryManager) (env : Env) (a n : Word) : Prop :=
  mm.qemuReady = true → ∀ i, (env.read i = .ok ∨ NoBuffer mm.regions a n) ∧
    (env.write i = .ok ∨ env.mmapOk = false ∧ NoBuffer mm.regions heapBase heapSize)

section

variable {a n p m newSize : Word}

lemma CleanCopy.granted (hc : mm.CleanCopy env a n) (hg : Granted env mm mm₁ p m newSize)
    (hap : Apart p.toNat m.toNat a.toNat n.toNat) (hle : n.toNat ≤ m.toNat) :
    (mm₁.qemuReady = true → ∀ i, env.read i = .ok ∨ NoBuffer mm₁.regions a n) ∧
      (mm₁.qemuReady = true → ∀ i, env.write i = .ok ∨ NoBuffer mm₁.regions p n) := by
  rw [hg.ready]
  refine ⟨fun hq i => ((hc hq i).1).imp_right fun hno => ?_, fun hq i => ((hc hq i).2).imp_right fun hno => ?_⟩
  · rcases hg.regions with ⟨-, he⟩ | ⟨-, he⟩
    · rwa [he]
    · intro region hr hs
      rw [he, mem_append, mem_singleton] at hr
      rcases hr with hr | rfl
      · exact hno region hr hs
      · exact hap
  · rcases hg.regions with ⟨hin, he⟩ | ⟨hm, -⟩
    · rw [he]
      exact NoBuffer.mono hno.2 hin.1 (by omega)
    · rw [hno.1] at hm
      cases hm

lemma unchanged_refl (mm : MemoryManager) : Unchanged mm mm := ⟨fun _ _ => Iff.rfl, fun _ _ _ _ _ => rfl⟩

/-- **The rollback**: the new block is freed, and all is as before. -/
theorem unchanged_of_rollback (hi : mm.Inv) (hl : mm.WellLaid) (hg : Granted env mm mm₁ p m newSize)
    (hss : SameShape mm₁ mm₂) (hle : n.toNat ≤ m.toNat) (hout : SameOutside mm₁ mm₂ p n) :
    Unchanged mm (mm₂.freeGuestMemory p) := by
  have hk₂ := hss.keeps hg.keeps.inv
  have hlive₂ : mm₂.Live p m := hss.live.2 hg.live_self
  have hf := free_spec hk₂.inv p
  have hl₁ := hg.keeps.laid hl
  have hl₂ := hk₂.laid hl₁
  refine ⟨fun b l => ?_, fun b l hb => ?_⟩
  · rw [hf.live, hss.live, hg.live]
    constructor
    · rintro ⟨hne, ⟨rfl, -⟩ | h⟩
      · exact absurd rfl hne
      · exact h
    · intro h
      refine ⟨?_, .inr h⟩
      rintro rfl
      exact not_apart_self hg.pos (hi.livePos h) (hg.fresh _ _ h)
  · have hap := hg.fresh b l hb
    have hw := (hi.live_lt hb).2
    have h1 := hg.sameOutside.sameBlock hl hl₁ hw hap
    have h2 := hout.sameBlock hl₁ hl₂ hw (hap.mono le_rfl (by omega))
    have h3 := (hf.sameOutside hk₂.inv hlive₂).sameBlock hl₂ (hf.keeps.laid hl₂) hw hap
    exact (h1.trans h2).trans h3

/-- **The move**: the old block is freed after its bytes were copied. -/
theorem moved_of_copy (hi : mm.Inv) (hl : mm.WellLaid) (hlive : mm.Live a n)
    (hg : Granted env mm mm₁ p m newSize) (hss : SameShape mm₁ mm₂) (hle : n.toNat ≤ newSize.toNat)
    (hcopy : mm₁.Copying a p n n mm₂) : Moved mm (mm₂.freeGuestMemory a) a n newSize p := by
  have hk₂ := hss.keeps hg.keeps.inv
  have hold₂ : mm₂.Live a n := hss.live.2 ((hg.live a n).2 (.inr hlive))
  have hnew₂ : mm₂.Live p m := hss.live.2 hg.live_self
  have hf := free_spec hk₂.inv a
  have hl₁ := hg.keeps.laid hl
  have hl₂ := hk₂.laid hl₁
  have hl₃ := hf.keeps.laid hl₂
  have hap := hg.fresh a n hlive
  have hsz := hg.sizeLe
  have hne : p ≠ a := by
    rintro rfl
    exact not_apart_self hg.pos (hi.livePos hlive) hap
  refine ⟨⟨m, (hf.live p m).2 ⟨hne, hnew₂⟩, hsz⟩, fun i hi' => ?_, ?_, fun b l hba hbp => ?_, fun b l hba hb => ?_⟩
  · -- the byte was there before the block was granted, and is there after the old one is freed
    rw [min_eq_left (by rw [BitVec.le_def]; exact hle)] at hi'
    obtain ⟨v, hv, hpv⟩ := hcopy.filled i hi'
    have hi'' : i.toNat < n.toNat := hi'
    have hwa := (hi.live_lt hlive).2
    have hwp := (hk₂.inv.live_lt hnew₂).2
    have ha : (a + i).toNat = a.toNat + i.toNat := by bv_omega
    have hp : (p + i).toNat = p.toNat + i.toNat := by bv_omega
    unfold Apart at hap
    have h1 : mm.Holds (a + i) v := (hg.sameOutside _ _ (by simp only [mem_span]; omega)).1 hv
    have h2 : (mm₂.freeGuestMemory a).Holds (p + i) v :=
      (hf.sameOutside hk₂.inv hold₂ _ _ (by simp only [mem_span]; omega)).2 hpv
    rw [(byteAt_eq_some hl (by omega)).2 h1, (byteAt_eq_some hl₃ (by omega)).2 h2]
  · exact ⟨fun _ => hne, fun _ l hal => absurd rfl ((hf.live a l).1 hal).1⟩
  · rw [hf.live, hss.live, hg.live]
    simp [hba, hbp]
  · have hapb := hg.fresh b l hb
    have hw := (hi.live_lt hb).2
    have h1 := hg.sameOutside.sameBlock hl hl₁ hw hapb
    have h2 := hcopy.outside.sameBlock hl₁ hl₂ hw (hapb.mono le_rfl (by omega))
    have h3 := (hf.sameOutside hk₂.inv hold₂).sameBlock hl₂ hl₃ hw (hi.liveApart hlive hb hba.symm)
    exact (h1.trans h2).trans h3

lemma Inv.size_ne_zero (hi : mm.Inv) (hlive : mm.Live a n) : mm.getGuestAllocationSize a ≠ 0 := by
  have := hi.livePos hlive
  rw [hi.getGuestAllocationSize_eq hlive]
  rintro rfl
  simp at this

theorem reallocOk_of_granted (hi : mm.Inv) (hl : mm.WellLaid) (hlive : mm.Live a n) (hn0 : newSize ≠ 0)
    (hle : ¬ newSize ≤ mm.getGuestAllocationSize a) (hal : mm.allocateGuestMemory env newSize 16 = (mm₁, p))
    (hg : Granted env mm mm₁ p m newSize) (hc : mm.CleanCopy env a n) : mm.ReallocOk env a n newSize := by
  have hold := hi.getGuestAllocationSize_eq hlive
  have hold0 := hi.size_ne_zero hlive
  have hp0 : p ≠ 0 := hg.keeps.inv.ne_zero_of_live hg.live_self
  have hap : Apart p.toNat m.toNat a.toNat n.toNat := hg.fresh a n hlive
  have hnm : n.toNat ≤ newSize.toNat := by
    rw [hold, BitVec.le_def] at hle
    omega
  have hsz := hg.sizeLe
  have hwp := (hg.keeps.inv.live_lt hg.live_self).2
  obtain ⟨hread, hwrite⟩ := hc.granted hg hap (hnm.trans hsz)
  have hcopy := copy_spec (hi.live_lt hlive).2 (by omega) (hap.mono le_rfl (by omega)) hread hwrite
  have hss : SameShape mm₁ (mm₁.copy env a p n).1 := copy_sameShape
  unfold ReallocOk
  cases hcp : mm₁.copy env a p n with
  | mk mm₂ copied =>
    rw [hcp] at hcopy hss
    have he := reallocGuestMemory_grow (hi.ne_zero_of_live hlive) hn0 hold0 hle hal hp0
      (show mm₁.copyIf env true a p (mm.getGuestAllocationSize a) = (mm₂, copied) by
        rw [hold]; exact hcp)
    rw [he]
    cases copied with
    | false => exact .inl ⟨rfl, unchanged_of_rollback hi hl hg hss (hnm.trans hsz) hcopy⟩
    | true => exact .inr ⟨hp0, moved_of_copy hi hl hlive hg hss hnm hcopy⟩

lemma reach_wellLaid
    (hl : Laid dynamicAllocBase.toNat (regions.map MemoryRegion.extent))
    (hr : (system regions).Reach Fitting mm) : mm.WellLaid := by
  refine (hr.invariant (I := fun mm => mm.Inv ∧ mm.WellLaid) ?_ ?_).2
  · rintro s rfl
    exact ⟨inv_init regions, hl⟩
  · rintro s ⟨c, env⟩ _ ⟨hi, hl⟩ hc rfl
    have hk := call_keeps hi hc
    exact ⟨hk.inv, hk.laid hl⟩

/-- **`realloc_guest_memory` keeps its promise** in every run whose requests fit the address space, for a request that
does, whenever no host buffer steps in for QEMU. -/
theorem realloc_ok {regions : List MemoryRegion}
    (hlaid : Laid dynamicAllocBase.toNat (regions.map MemoryRegion.extent))
    (hr : (system regions).Reach Fitting mm) (hlive : mm.Live a n) (hpos : 0 < newSize.toNat)
    (hlt : newSize.toNat < 2 ^ 62) (hd : mm.DynamicFits newSize 16) (hc : mm.CleanCopy env a n) :
    mm.ReallocOk env a n newSize := by
  have hi := reach_inv hr
  have hl := reach_wellLaid hlaid hr
  have hf : mm.Fits newSize 16 := ⟨HeapAllocator.isPowerOfTwo_sixteen,
    hi.heap.noWrap_of_lt hlt HeapAllocator.isPowerOfTwo_sixteen (by decide), hd⟩
  have ha0 := hi.ne_zero_of_live hlive
  have hn0 : newSize ≠ 0 := by
    rintro rfl
    simp at hpos
  have hold := hi.getGuestAllocationSize_eq hlive
  have hold0 := hi.size_ne_zero hlive
  by_cases hle : newSize ≤ mm.getGuestAllocationSize a
  · have he : mm.reallocGuestMemory env a newSize true = (mm, a) := by
      simp only [reallocGuestMemory, if_neg ha0, if_neg hn0, if_neg hold0, if_pos hle]
    unfold ReallocOk
    rw [he]
    rw [hold] at hle
    exact .inr ⟨ha0, ⟨n, hlive, hle⟩, fun _ _ => rfl, ⟨fun h => absurd hlive (h n), fun h => absurd rfl h⟩,
      fun _ _ _ _ => Iff.rfl, fun _ _ _ _ _ _ => rfl⟩
  cases hal : mm.allocateGuestMemory env newSize 16 with
  | mk mm₁ p =>
    have hspec := allocate_spec env hi hf
    rw [hal] at hspec
    rcases hspec with he | ⟨m, hg⟩
    · obtain ⟨rfl, rfl⟩ := Prod.mk.inj he
      have he : mm₁.reallocGuestMemory env a newSize true = (mm₁, 0) := by
        simp only [reallocGuestMemory, if_neg ha0, if_neg hn0, if_neg hold0, if_neg hle, hal, if_true]
      unfold ReallocOk
      rw [he]
      exact .inl ⟨rfl, unchanged_refl mm₁⟩
    · exact reallocOk_of_granted hi hl hlive hn0 hle hal hg hc

lemma laid_initialRegions : Laid dynamicAllocBase.toNat ((initialRegions {}).map MemoryRegion.extent) := by
  simp [Laid, initialRegions, MemoryRegion.extent, Apart]

theorem realloc_ok_sixteen_bytes :
    (((init (initialRegions {})).malloc .good 16).1.setQemuReady .good 0).ReallocOk .good heapBase 16 32 := by
  have hr : (system (initialRegions {})).Reach Fitting
      (((init (initialRegions {})).malloc .good 16).1.setQemuReady .good 0) := by
    have h₁ : Fitting (init (initialRegions {})) (.malloc 16, .good) :=
      ⟨⟨4, rfl⟩, by decide, by decide, by decide, by decide⟩
    have h₂ : Fitting ((init (initialRegions {})).malloc .good 16).1 (.setQemuReady 0, .good) := trivial
    exact .step (.step (.init rfl) h₁ rfl) h₂ rfl
  exact realloc_ok laid_initialRegions hr (.inl (OrdMap.find?_eq_some.1 rfl)) (by decide) (by decide)
    ⟨by decide, by decide, by decide⟩ fun _ _ => ⟨.inl rfl, .inl rfl⟩

/-- **A wrapped request breaks later ones**: after `malloc(2^64 - 16)` the heap is handed out again, and a block that
grows is returned and freed. -/
theorem realloc_returns_freed : ¬ ∀ mm, (system (initialRegions {})).Reachable mm → ∀ a n newSize env,
    mm.Live a n → 0 < newSize.toNat → newSize.toNat < 2 ^ 62 → mm.ReallocOk env a n newSize := by
  intro h
  have hr : (system (initialRegions {})).Reachable
      (((init (initialRegions {})).malloc .good 16).1.malloc .good 0xFFFFFFFFFFFFFFF0).1 :=
    System.Reachable.next (a := (.malloc 0xFFFFFFFFFFFFFFF0, .good))
      (System.Reachable.next (a := (.malloc 16, .good)) (.init rfl) rfl) rfl
  rcases h _ hr heapBase 16 32 .good (.inl (OrdMap.find?_eq_some.1 rfl)) (by decide) (by decide) with h | h
  · exact absurd h.1 (by decide)
  · obtain ⟨m, hm | hm, -⟩ := h.2.block
    · exact OrdMap.find?_eq_none.1 rfl m hm
    · exact OrdMap.find?_eq_none.1 rfl m hm

end

end MemoryManager

end CrossShim.Memory
