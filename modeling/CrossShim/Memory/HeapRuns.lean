import CrossShim.Memory.HeapInv

/-!
# Runs of the heap allocator

Every run of calls whose sizes stay below `2^62` and whose alignments are powers of two below `2^32` keeps the
heap well formed: `reach_wellFormed`.
-/

namespace CrossShim.Memory.HeapAllocator

open Lib

variable {h : HeapAllocator} {size al s a n : Word}

/-- The fit test at the high-water mark does not wrap. -/
def NoWrap (h : HeapAllocator) (size alignment : Word) : Prop :=
  (alignUp h.highWaterMark alignment).toNat + (minSize size).toNat < 2 ^ 64

instance (h : HeapAllocator) (size alignment : Word) : Decidable (h.NoWrap size alignment) := by
  unfold NoWrap; infer_instance

/-- The calls of a run: power-of-two alignments below `2^32`, sizes below `2^62`. -/
def ValidOp (_ : HeapAllocator) : Op → Prop
  | .allocate size alignment =>
    size.toNat < 2 ^ 62 ∧ alignment.toNat.isPowerOfTwo ∧ alignment.toNat < 2 ^ 32
  | .free _ => True
  | .realloc _ newSize => newSize.toNat < 2 ^ 62

lemma minSize_lt (hs : size.toNat < 2 ^ 62) : (minSize size).toNat < 2 ^ 62 := by
  unfold minSize
  split
  · decide
  · exact hs

lemma Inv.noWrap_of_lt (hi : h.Inv) (hs : size.toNat < 2 ^ 62) (hal : al.toNat.isPowerOfTwo) (hlt : al.toNat < 2 ^ 32) :
    h.NoWrap size al := by
  have h1 := hi.endLt
  have h2 := hi.hwmLe
  have h3 := minSize_lt hs
  obtain ⟨-, -, h4⟩ := alignUp_spec (v := h.highWaterMark) hal (by omega)
  unfold NoWrap
  omega

/-- **The fit test when it wraps**: no free block is long enough, and the tail of the heap passes for one. -/
theorem Inv.tailFits_of_wraps (hi : h.Inv) (hal : al.toNat.isPowerOfTwo) (hdvd : al.toNat ∣ h.base.toNat + h.size.toNat)
    (hw : ¬ h.NoWrap size al) : h.fit size al = none ∧ h.TailFits (minSize size) al := by
  have h1 := hi.endLt
  have h2 := hi.hwmLe
  have hal' := pow2_le hal
  have hend : (h.base + h.size).toNat = h.base.toNat + h.size.toNat := by bv_omega
  have h3 : (alignUp h.highWaterMark al).toNat ≤ h.base.toNat + h.size.toNat :=
    alignUp_le_of_dvd hal (by omega) hdvd h2
  unfold NoWrap at hw
  constructor
  · cases hfit : h.fit size al with
    | none => rfl
    | some e =>
      obtain ⟨hm, -⟩ := fitLoop_some hfit
      obtain ⟨hm, hge⟩ := OrdMultimap.mem_fromKey.1 hm
      have h4 := hi.freeIn _ _ ((hi.free.sync _ _).2 hm)
      have h5 : (minSize size).toNat ≤ e.1.toNat := hge
      omega
  · rw [TailFits, BitVec.le_def, BitVec.toNat_add, hend]
    omega

lemma isPowerOfTwo_sixteen : (16 : Word).toNat.isPowerOfTwo := ⟨4, rfl⟩

/-- A call that keeps the invariant, over the same heap. -/
structure Keeps (h h' : HeapAllocator) : Prop where
  inv : h'.Inv
  base : h'.base = h.base
  size : h'.size = h.size
  hwm : h.highWaterMark.toNat ≤ h'.highWaterMark.toNat

lemma Inv.keeps (hi : h.Inv) : Keeps h h := ⟨hi, rfl, rfl, le_rfl⟩

lemma Served.keeps {h' : HeapAllocator} {p s al : Word} (hsv : Served h h' p s al) : Keeps h h' :=
  ⟨hsv.inv, hsv.base, hsv.size, hsv.hwm⟩

lemma Released.keeps {h' : HeapAllocator} {a : Word} (hr : Released h h' a) : Keeps h h' :=
  ⟨hr.inv, hr.base, hr.size, hr.hwm.ge⟩

lemma Keeps.trans {h₁ h₂ : HeapAllocator} (k₁ : Keeps h h₁) (k₂ : Keeps h₁ h₂) : Keeps h h₂ :=
  ⟨k₂.inv, k₂.base.trans k₁.base, k₂.size.trans k₁.size, k₁.hwm.trans k₂.hwm⟩

lemma allocate_keeps (hi : h.Inv) (hal : al.toNat.isPowerOfTwo) (hw : h.NoWrap size al) :
    Keeps h (h.allocate size al).1 := by
  rcases allocate_spec hi hal hw with he | hsv
  · rw [he]
    exact hi.keeps
  · exact hsv.keeps

/-- `realloc` asks for a new block. -/
def Grows (h : HeapAllocator) (address newSize : Word) : Prop :=
  address = 0 ∨ newSize ≠ 0 ∧ ∃ old, h.allocations.find? address = some old ∧ old < newSize

/-- **What `realloc` does**: nothing, a `free`, or an `allocate` with a `free` if the block moves. -/
lemma realloc_cases (h : HeapAllocator) (address newSize : Word) :
    (¬ h.Grows address newSize ∧ ((h.realloc address newSize).1 = h ∨ (h.realloc address newSize).1 = h.free address)) ∨
      h.Grows address newSize ∧ ((h.realloc address newSize).1 = (h.allocate newSize 16).1 ∨
        (h.realloc address newSize).1 = (h.allocate newSize 16).1.free address) := by
  unfold realloc Grows
  by_cases h0 : address = 0
  · exact .inr ⟨.inl h0, .inl (by rw [if_pos h0])⟩
  rw [if_neg h0]
  by_cases hn : newSize = 0
  · exact .inl ⟨by simpa [hn] using h0, .inr (by rw [if_pos hn])⟩
  rw [if_neg hn]
  cases hf : h.allocations.find? address with
  | none => exact .inl ⟨by simpa using h0, .inl rfl⟩
  | some old =>
    dsimp only
    by_cases hle : newSize ≤ old
    · exact .inl ⟨by simpa [hle] using h0, .inl (by rw [if_pos hle])⟩
    · refine .inr ⟨.inr ⟨hn, old, rfl, not_le.1 hle⟩, ?_⟩
      rw [if_neg hle]
      split
      · exact .inl rfl
      · exact .inr rfl

lemma realloc_keeps (hi : h.Inv) {address newSize : Word} (hw : h.NoWrap newSize 16) :
    Keeps h (h.realloc address newSize).1 := by
  have hal := allocate_keeps hi isPowerOfTwo_sixteen hw
  obtain ⟨-, he | he⟩ | ⟨-, he | he⟩ := realloc_cases h address newSize <;> rw [he]
  · exact hi.keeps
  · exact (free_spec hi address).1.keeps
  · exact hal
  · exact hal.trans (free_spec hal.inv address).1.keeps

theorem call_keeps (hi : h.Inv) {op : Op} (hv : h.ValidOp op) : Keeps h (h.call op).1 := by
  cases op with
  | allocate size al =>
    obtain ⟨hs, hal, hlt⟩ := hv
    exact allocate_keeps hi hal (hi.noWrap_of_lt hs hal hlt)
  | free address => exact (free_spec hi address).1.keeps
  | realloc address newSize => exact realloc_keeps hi (hi.noWrap_of_lt hv isPowerOfTwo_sixteen (by decide))

theorem reach_inv {base : Word} (hb : 0 < base.toNat) (he : base.toNat + size.toNat < 2 ^ 63)
    (hr : (system base size).Reach ValidOp h) : h.Inv ∧ h.base = base ∧ h.size = size := by
  refine hr.invariant (I := fun h => h.Inv ∧ h.base = base ∧ h.size = size) ?_ ?_
  · rintro s rfl
    exact ⟨inv_init hb he, rfl, rfl⟩
  · rintro s op _ ⟨hi, h1, h2⟩ hv rfl
    have hk := call_keeps hi hv
    exact ⟨hk.inv, hk.base.trans h1, hk.size.trans h2⟩

/-! ### What a reader wants to know of a heap -/

/-- A heap over `[base, base + size)` in good order. -/
structure WellFormed (base size : Word) (h : HeapAllocator) : Prop where
  hwm : base.toNat ≤ h.highWaterMark.toNat ∧ h.highWaterMark.toNat ≤ base.toNat + size.toNat
  liveIn : ∀ a n, (a, n) ∈ h.allocations.entries →
    base.toNat ≤ a.toNat ∧ a.toNat + n.toNat ≤ h.highWaterMark.toNat
  liveDisjoint : ∀ a n b m, (a, n) ∈ h.allocations.entries → (b, m) ∈ h.allocations.entries → a ≠ b →
    Disjoint (span a.toNat n.toNat) (span b.toNat m.toNat)
  freeIn : ∀ a n, (a, n) ∈ h.freeBlocks.entries →
    base.toNat ≤ a.toNat ∧ a.toNat + n.toNat ≤ h.highWaterMark.toNat
  freeDisjoint : ∀ a n b m, (a, n) ∈ h.freeBlocks.entries → (b, m) ∈ h.freeBlocks.entries → a ≠ b →
    Disjoint (span a.toNat n.toNat) (span b.toNat m.toNat)
  freeLive : ∀ a n b m, (a, n) ∈ h.freeBlocks.entries → (b, m) ∈ h.allocations.entries →
    Disjoint (span a.toNat n.toNat) (span b.toNat m.toNat)
  freeApart : ∀ a n b m, (a, n) ∈ h.freeBlocks.entries → (b, m) ∈ h.freeBlocks.entries →
    a.toNat + n.toNat ≠ b.toNat
  sameBlocks : ∀ a n, (a, n) ∈ h.freeBlocks.entries ↔ (n, a) ∈ h.freeBlocksBySize.entries
  once : h.freeBlocks.entries.Nodup ∧ h.freeBlocksBySize.entries.Nodup

lemma Inv.wellFormed (hi : h.Inv) : WellFormed h.base h.size h where
  hwm := ⟨hi.baseLe, hi.hwmLe⟩
  liveIn := hi.liveIn
  liveDisjoint a n b m han hbm hne :=
    (apart_iff_disjoint (hi.livePos a n han) (hi.livePos b m hbm)).1 (hi.liveApart a n b m han hbm hne)
  freeIn := hi.freeIn
  freeDisjoint a n b m han hbm hne :=
    (apart_iff_disjoint (hi.free.pos a n han) (hi.free.pos b m hbm)).1 (hi.free.gap a n b m han hbm hne).apart
  freeLive a n b m han hbm :=
    (hi.disj.mono (span_subset_cover hbm) (span_subset_cover han)).symm
  freeApart a n b m han hbm heq := by
    have hpos := hi.free.pos a n han
    have hgap := hi.free.gap a n b m han hbm (by rintro rfl; omega)
    unfold Gap at hgap
    omega
  sameBlocks := hi.free.sync
  once := ⟨h.freeBlocks.nodup, hi.free.nodup⟩

/-- **Every run of calls keeps the heap well formed**, and what `allocate` returns is a multiple of the alignment asked
for, and a live block if it is not 0. -/
theorem reach_wellFormed {base size : Word} (hb : 0 < base.toNat) (he : base.toNat + size.toNat < 2 ^ 63)
    (hr : (system base size).Reach ValidOp h) :
    WellFormed base size h ∧
      ∀ n al, h.ValidOp (.allocate n al) → al.toNat ∣ (h.allocate n al).2.toNat ∧ ((h.allocate n al).2 ≠ 0 →
        ((h.allocate n al).2, minSize n) ∈ (h.allocate n al).1.allocations.entries) := by
  obtain ⟨hi, rfl, rfl⟩ := reach_inv hb he hr
  refine ⟨hi.wellFormed, ?_⟩
  rintro n al ⟨hn, hal, hlt⟩
  rcases allocate_spec hi hal (hi.noWrap_of_lt hn hal hlt) with he | hsv
  · rw [he]
    exact ⟨dvd_zero _, fun h0 => absurd rfl h0⟩
  · exact ⟨hsv.dvd, fun _ => by simp [hsv.allocs]⟩

theorem reach_wellFormed_after_two_calls :
    WellFormed 0x1000 0x1000 ((((init 0x1000 0x1000).call (.allocate 24 16)).1.call (.free 0x1000)).1) ∧
      (32 : Word).toNat ∣
        ((((init 0x1000 0x1000).call (.allocate 24 16)).1.call (.free 0x1000)).1.allocate 8 32).2.toNat := by
  have v₁ : ValidOp (init 0x1000 0x1000) (.allocate 24 16) := ⟨by decide, ⟨4, rfl⟩, by decide⟩
  have v₂ : ValidOp ((init 0x1000 0x1000).call (.allocate 24 16)).1 (.free 0x1000) := trivial
  have hr : (system 0x1000 0x1000).Reach ValidOp
      ((((init 0x1000 0x1000).call (.allocate 24 16)).1.call (.free 0x1000)).1) :=
    .step (.step (.init rfl) v₁ rfl) v₂ rfl
  obtain ⟨h1, h2⟩ := reach_wellFormed (by decide) (by decide) hr
  exact ⟨h1, (h2 8 32 ⟨by decide, ⟨5, rfl⟩, by decide⟩).1⟩

/-! ### Best fit -/

/-- There is an aligned range of `s` bytes in the block of `n` bytes at `a`. -/
def HoldsAligned (al s a n : Word) : Prop := ∃ p, al.toNat ∣ p ∧ a.toNat ≤ p ∧ p + s.toNat ≤ a.toNat + n.toNat

/-- **The test of `fitLoop`**, on a block within the heap. -/
lemma holdsAligned_iff (hal : al.toNat.isPowerOfTwo) (hend : a.toNat + n.toNat < 2 ^ 63) :
    HoldsAligned al s a n ↔ s ≤ n ∧ s + (alignUp a al - a) ≤ n := by
  have hpow := pow2_le hal
  obtain ⟨hdvd, hle, hlt⟩ := alignUp_spec (v := a) hal (by omega)
  have hsub : (alignUp a al - a).toNat = (alignUp a al).toNat - a.toNat := by bv_omega
  constructor
  · rintro ⟨p, hp, hap, hpn⟩
    have hmin := alignUp_le_of_dvd hal (by omega) hp hap
    rw [BitVec.le_def, BitVec.le_def, BitVec.toNat_add, hsub]
    omega
  · rintro ⟨hs, hfit⟩
    rw [BitVec.le_def] at hs
    rw [BitVec.le_def, BitVec.toNat_add, hsub] at hfit
    exact ⟨_, hdvd, hle, by omega⟩

lemma Inv.free_lt (hi : h.Inv) (hm : (a, n) ∈ h.freeBlocks.entries) : a.toNat + n.toNat < 2 ^ 63 := by
  have h1 := hi.freeIn _ _ hm
  have h2 := hi.hwmLe
  have h3 := hi.endLt
  omega

/-- **What `fit` finds**: a free block that holds the request, as small as any. -/
lemma Inv.fit_eq_some (hi : h.Inv) (hal : al.toNat.isPowerOfTwo) (hfit : h.fit size al = some (n, a)) :
    (a, n) ∈ h.freeBlocks.entries ∧ HoldsAligned al (minSize size) a n ∧
      ∀ b m, (b, m) ∈ h.freeBlocks.entries → HoldsAligned al (minSize size) b m → n ≤ m := by
  obtain ⟨hm, hle⟩ := fitLoop_some hfit
  obtain ⟨hm, hge⟩ := OrdMultimap.mem_fromKey.1 hm
  have hfree := (hi.free.sync _ _).2 hm
  refine ⟨hfree, (holdsAligned_iff hal (hi.free_lt hfree)).2 ⟨hge, hle⟩, fun b m hb hholds => ?_⟩
  rw [fit, fitLoop_eq_find?] at hfit
  obtain ⟨hge', hfit'⟩ := (holdsAligned_iff hal (hi.free_lt hb)).1 hholds
  have hmem := OrdMultimap.mem_fromKey.2 ⟨(hi.free.sync _ _).1 hb, hge'⟩
  rcases rel_of_find? (h.freeBlocksBySize.sorted.filter _) hfit hmem (by simpa using hfit') with heq | hle
  · exact (Prod.mk.inj heq).1.ge
  · exact hle

lemma Inv.fit_isSome_iff (hi : h.Inv) (hal : al.toNat.isPowerOfTwo) : (h.fit size al).isSome ↔
    ∃ a n, (a, n) ∈ h.freeBlocks.entries ∧ HoldsAligned al (minSize size) a n := by
  constructor
  · intro hsome
    obtain ⟨⟨n, a⟩, hfit⟩ := Option.isSome_iff_exists.1 hsome
    obtain ⟨hm, hholds, -⟩ := hi.fit_eq_some hal hfit
    exact ⟨a, n, hm, hholds⟩
  · rintro ⟨a, n, hm, hholds⟩
    obtain ⟨hge, hle⟩ := (holdsAligned_iff hal (hi.free_lt hm)).1 hholds
    rw [fit, fitLoop_eq_find?, List.find?_isSome]
    exact ⟨(n, a), OrdMultimap.mem_fromKey.2 ⟨(hi.free.sync _ _).1 hm, hge⟩, by simpa using hle⟩

/-- **When a request is refused**: no free block holds it, and the tail of the heap is too short. Otherwise it is served
out of a smallest free block that holds it, if there is one. -/
theorem allocate_best_fit (hi : h.Inv) (hal : al.toNat.isPowerOfTwo) (hw : h.NoWrap size al) :
    ((h.allocate size al).2 = 0 ↔
      (∀ a n, (a, n) ∈ h.freeBlocks.entries → ¬ HoldsAligned al (minSize size) a n) ∧
        h.base.toNat + h.size.toNat < (alignUp h.highWaterMark al).toNat + (minSize size).toNat) ∧
    ∀ b m, (b, m) ∈ h.freeBlocks.entries → HoldsAligned al (minSize size) b m →
      ∃ a n, (a, n) ∈ h.freeBlocks.entries ∧ n ≤ m ∧ a.toNat ≤ (h.allocate size al).2.toNat ∧
        (h.allocate size al).2.toNat + (minSize size).toNat ≤ a.toNat + n.toNat := by
  have hend := hi.endLt
  have htail : h.TailFits (minSize size) al ↔
      (alignUp h.highWaterMark al).toNat + (minSize size).toNat ≤ h.base.toNat + h.size.toNat := by
    unfold NoWrap at hw
    rw [TailFits, BitVec.le_def, BitVec.toNat_add, BitVec.toNat_add, Nat.mod_eq_of_lt hw, Nat.mod_eq_of_lt (by omega)]
  have hzero : (h.allocate size al).2 = 0 ↔ ¬ h.HasRoom size al :=
    ⟨fun h0 hroom => (allocate_of_hasRoom hi hal hw hroom).ne_zero hi h0,
      fun hno => congrArg Prod.snd (allocate_of_not_hasRoom hno)⟩
  constructor
  · rw [hzero, HasRoom, not_or, hi.fit_isSome_iff hal, htail]
    simp only [not_exists, not_and, not_le]
  · intro b m hb hholds
    obtain ⟨⟨n, a⟩, hfit⟩ := Option.isSome_iff_exists.1 ((hi.fit_isSome_iff hal).2 ⟨b, m, hb, hholds⟩)
    obtain ⟨hm, ⟨p, hp, hap, hpn⟩, hmin⟩ := hi.fit_eq_some hal hfit
    have hres : (h.allocate size al).2 = alignUp a al := by
      simp only [allocate, show fitLoop _ _ _ = some (n, a) from hfit, carve]
    have hlt := hi.free_lt hm
    have hpow := pow2_le hal
    have hle := alignUp_le_of_dvd hal (by omega) hp hap
    rw [hres]
    exact ⟨a, n, hm, hmin b m hb hholds, (alignUp_spec hal (by omega)).2.1, by omega⟩

/-- A heap with free blocks of 0x80 and of 0x40 bytes. -/
def twoFree : HeapAllocator :=
  ((((((init 0x1000 0x1000).allocate 0x80 16).1.allocate 16 16).1.allocate 0x40 16).1.allocate 16 16).1.free 0x1000).free
    0x1090

lemma inv_twoFree : twoFree.Inv := by
  have hv (h : HeapAllocator) (n : Word) (hn : n.toNat < 2 ^ 62) : h.ValidOp (.allocate n 16) :=
    ⟨hn, isPowerOfTwo_sixteen, by decide⟩
  have h₀ : (init 0x1000 0x1000).Inv := inv_init (by decide) (by decide)
  have h₁ := (call_keeps h₀ (hv _ 0x80 (by decide))).inv
  have h₂ := (call_keeps h₁ (hv _ 16 (by decide))).inv
  have h₃ := (call_keeps h₂ (hv _ 0x40 (by decide))).inv
  have h₄ := (call_keeps h₃ (hv _ 16 (by decide))).inv
  exact (free_spec (free_spec h₄ 0x1000).1.inv 0x1090).1.inv

/-- Both blocks hold 0x30 bytes, and the smaller one serves them. -/
theorem allocate_best_fit_two : (0x1000, 0x80) ∈ twoFree.freeBlocks.entries ∧
    (0x1090, 0x40) ∈ twoFree.freeBlocks.entries ∧ (twoFree.allocate 0x30 16).2 = 0x1090 ∧
    ∃ a n, (a, n) ∈ twoFree.freeBlocks.entries ∧ n ≤ 0x40 ∧ a.toNat ≤ 0x1090 ∧ 0x1090 + 0x30 ≤ a.toNat + n.toNat := by
  have hresult : (twoFree.allocate 0x30 16).2 = 0x1090 := by decide +kernel
  have hsmall : (0x1090, 0x40) ∈ twoFree.freeBlocks.entries := by decide +kernel
  have hw : twoFree.NoWrap 0x30 16 := by decide +kernel
  obtain ⟨a, n, hm, hle, hge, hend⟩ := (allocate_best_fit inv_twoFree isPowerOfTwo_sixteen hw).2 0x1090 0x40 hsmall
    ⟨0x1090, by decide, le_rfl, by decide⟩
  rw [hresult] at hge hend
  exact ⟨by decide +kernel, hsmall, hresult, a, n, hm, hle, hge, hend⟩

end CrossShim.Memory.HeapAllocator
