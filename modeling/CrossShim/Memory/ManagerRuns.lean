import CrossShim.Memory.ManagerInv

/-!
# Runs of the memory manager

`Fitting` is the condition on a call: its request fits the 64-bit address space.  In every run of such calls
each block that is returned lies in the heap or in a region of its own, and the high-water mark never falls
(`reach_callOk`).  The code does not check the condition, and without it both fail (`malloc_wraps`).
-/

namespace CrossShim.Memory.MemoryManager

open Lib

variable {mm : MemoryManager} {env : Env} {address size al newSize p : Word} {copyContents : Bool} {c : Call}

/-! ### The handlers -/

lemma zero_size_zero (mm : MemoryManager) (env : Env) (address : Word) : mm.zero env address 0 = (mm, true) := rfl

lemma zero_sameShape : SameShape mm (mm.zero env address size).1 := by
  by_cases h0 : size = 0
  · subst h0
    exact .refl mm
  · refine chunks_sameShape ?_ fun _ _ _ _ => write_sameShape
    rcases min_choice size ioChunk with h | h <;> rw [h]
    · bv_omega
    · decide

lemma copy_sameShape {newAddr oldSize : Word} : SameShape mm (mm.copy env address newAddr oldSize).1 := by
  refine chunks_sameShape (by decide) fun i offset chunk mm => ?_
  cases mm.read (env.read i) (address + offset) chunk with
  | none => exact .refl mm
  | some buffer => exact write_sameShape

lemma allocate_keeps (hi : mm.Inv) (hf : mm.Fits size al) : Keeps mm (mm.allocateGuestMemory env size al).1 := by
  rcases allocate_spec env hi hf with he | ⟨n, hg⟩
  · rw [he]
    exact hi.keeps
  · exact hg.keeps

/-- What a call that asks for `size` bytes returns, when it returns a block. -/
def Returns (r : MemoryManager × Word) (size : Word) : Prop :=
  r.2 ≠ 0 → ∃ n, r.1.Live r.2 n ∧ size.toNat ≤ n.toNat

lemma returns_zero : Returns (mm, 0) size := fun h => absurd rfl h

lemma allocate_returns (hi : mm.Inv) (hf : mm.Fits size al) : Returns (mm.allocateGuestMemory env size al) size := by
  rcases allocate_spec env hi hf with he | ⟨n, hg⟩
  · rw [he]
    exact returns_zero
  · exact fun _ => ⟨n, hg.live_self, hg.sizeLe⟩

/-- The copy `realloc_guest_memory` makes of the old block, if it makes one. -/
def copyIf (mm : MemoryManager) (env : Env) (copyContents : Bool) (address newAddr oldSize : Word) :
    MemoryManager × Bool :=
  if copyContents then mm.copy env address newAddr oldSize else (mm, true)

lemma copyIf_sameShape (mm : MemoryManager) (env : Env) (copyContents : Bool) (address newAddr oldSize : Word) :
    SameShape mm (mm.copyIf env copyContents address newAddr oldSize).1 := by
  cases copyContents with
  | true => exact copy_sameShape
  | false => exact .refl mm

lemma reallocGuestMemory_grow (h0 : address ≠ 0) (hn : newSize ≠ 0) (hold : mm.getGuestAllocationSize address ≠ 0)
    (hlt : ¬ newSize ≤ mm.getGuestAllocationSize address) {mm₁ mm₂ : MemoryManager} {copied : Bool}
    (hal : mm.allocateGuestMemory env newSize 16 = (mm₁, p)) (hp : p ≠ 0)
    (hcopy : mm₁.copyIf env copyContents address p (mm.getGuestAllocationSize address) = (mm₂, copied)) :
    mm.reallocGuestMemory env address newSize copyContents =
      if copied then (mm₂.freeGuestMemory address, p) else (mm₂.freeGuestMemory p, 0) := by
  unfold reallocGuestMemory
  unfold copyIf at hcopy
  simp only [if_neg h0, if_neg hn, if_neg hold, if_neg hlt, hal, if_neg hp, hcopy]

/-- **Reallocation** keeps the invariant, and what it returns is live and long enough. -/
theorem reallocGuestMemory_keeps (hi : mm.Inv) (hf : mm.Fits newSize 16) :
    Keeps mm (mm.reallocGuestMemory env address newSize copyContents).1 ∧
      Returns (mm.reallocGuestMemory env address newSize copyContents) newSize := by
  by_cases h0 : address = 0
  · unfold reallocGuestMemory
    rw [if_pos h0]
    exact ⟨allocate_keeps hi hf, allocate_returns hi hf⟩
  by_cases hn : newSize = 0
  · unfold reallocGuestMemory
    rw [if_neg h0, if_pos hn]
    exact ⟨(free_spec hi address).keeps, returns_zero⟩
  by_cases hold : mm.getGuestAllocationSize address = 0
  · unfold reallocGuestMemory
    simp only [if_neg h0, if_neg hn, if_pos hold]
    exact ⟨hi.keeps, returns_zero⟩
  by_cases hle : newSize ≤ mm.getGuestAllocationSize address
  · unfold reallocGuestMemory
    simp only [if_neg h0, if_neg hn, if_neg hold, if_pos hle]
    exact ⟨hi.keeps, fun _ => ⟨_, live_of_getGuestAllocationSize hold, hle⟩⟩
  have hlive := live_of_getGuestAllocationSize hold
  cases hal : mm.allocateGuestMemory env newSize 16 with
  | mk mm₁ p =>
    have hspec := allocate_spec env hi hf
    rw [hal] at hspec
    rcases hspec with he | ⟨n, hg⟩
    · cases he
      unfold reallocGuestMemory
      simp only [if_neg h0, if_neg hn, if_neg hold, if_neg hle, hal, if_true]
      exact ⟨hi.keeps, returns_zero⟩
    · have hne := hg.keeps.inv.ne_zero_of_live hg.live_self
      have hss := copyIf_sameShape mm₁ env copyContents address p (mm.getGuestAllocationSize address)
      cases hcopy : mm₁.copyIf env copyContents address p (mm.getGuestAllocationSize address) with
      | mk mm₂ copied =>
        rw [hcopy] at hss
        rw [reallocGuestMemory_grow h0 hn hold hle hal hne hcopy]
        have hk₂ := hss.keeps hg.keeps.inv
        cases copied with
        | false => exact ⟨(hg.keeps.trans hk₂).trans (free_spec hk₂.inv p).keeps, returns_zero⟩
        | true =>
          have hfree := free_spec hk₂.inv address
          refine ⟨(hg.keeps.trans hk₂).trans hfree.keeps, fun _ => ⟨n, ?_, hg.sizeLe⟩⟩
          refine (hfree.live _ _).2 ⟨?_, hss.live.2 hg.live_self⟩
          rintro (rfl : p = address)
          exact not_apart_self hg.pos (hi.livePos hlive) (hg.fresh _ _ hlive)

lemma realloc_eq (oldPtr newSize : Word) :
    mm.realloc env oldPtr newSize = mm.reallocGuestMemory env oldPtr newSize true := by
  unfold realloc
  by_cases h0 : oldPtr = 0
  · simp only [reallocGuestMemory, if_pos h0]
  by_cases hn : newSize = 0
  · simp only [reallocGuestMemory, if_neg h0, if_pos hn]
  by_cases hold : mm.getGuestAllocationSize oldPtr = 0
  · simp only [reallocGuestMemory, if_neg h0, if_neg hn, if_pos hold]
  by_cases hle : newSize ≤ mm.getGuestAllocationSize oldPtr
  · simp only [reallocGuestMemory, if_neg h0, if_neg hn, if_neg hold, if_pos hle]
  · simp only [if_neg h0, if_neg hn, if_neg hold, if_neg hle]

lemma calloc_keeps (hi : mm.Inv) {nmemb : Word} (hf : mm.Fits (nmemb * size) 16) :
    Keeps mm (mm.calloc env nmemb size).1 := by
  have hk : Keeps mm (mm.allocateGuestMemory env (nmemb * size) 16).1 := allocate_keeps hi hf
  unfold calloc
  by_cases h : (mm.allocateGuestMemory env (nmemb * size) 16).2 ≠ 0
  · simp only [if_pos h]
    exact hk.trans (zero_sameShape.keeps hk.inv)
  · simp only [if_neg h]
    exact hk

lemma heap_keeps (hi : mm.Inv) {heap : HeapAllocator} (hk : HeapAllocator.Keeps mm.heap heap) :
    Keeps mm { mm with heap := heap } :=
  ⟨{ hi with heap := hk.inv, base := hk.base.trans hi.base, size := hk.size.trans hi.size }, hk.hwm, id⟩

/-! ### Runs -/

/-- The request of the call fits the address space. -/
def Fitting (mm : MemoryManager) : Call × Env → Prop
  | (.malloc size, _) => mm.Fits size 16
  | (.calloc nmemb size, _) => mm.Fits (nmemb * size) 16
  | (.realloc _ newSize, _) => mm.Fits newSize 16
  | (.allocateGuestMemory size alignment, _) => mm.Fits size alignment
  | (.reallocGuestMemory _ newSize _, _) => mm.Fits newSize 16
  | (.heap (.allocate size alignment), _) => alignment.toNat.isPowerOfTwo ∧ mm.heap.NoWrap size alignment
  | (.heap (.realloc _ newSize), _) => mm.heap.NoWrap newSize 16
  | _ => True

theorem call_keeps (hi : mm.Inv) (hc : mm.Fitting (c, env)) : Keeps mm (mm.call env c).1 := by
  cases c with
  | malloc size => exact allocate_keeps hi hc
  | calloc nmemb size => exact calloc_keeps hi hc
  | realloc oldPtr newSize =>
    show Keeps mm (mm.realloc env oldPtr newSize).1
    rw [realloc_eq]
    exact (reallocGuestMemory_keeps hi hc).1
  | free ptr =>
    show Keeps mm (mm.free ptr)
    unfold free
    split
    · exact (free_spec hi ptr).keeps
    · exact hi.keeps
  | allocateGuestMemory size al => exact allocate_keeps hi hc
  | freeGuestMemory address => exact (free_spec hi address).keeps
  | reallocGuestMemory address newSize copyContents => exact (reallocGuestMemory_keeps hi hc).1
  | heap op =>
    refine heap_keeps hi ?_
    cases op with
    | allocate size al => exact HeapAllocator.allocate_keeps hi.heap hc.1 hc.2
    | free address => exact (HeapAllocator.free_spec hi.heap address).1.keeps
    | realloc address newSize => exact HeapAllocator.realloc_keeps hi.heap hc
  | write address buffer size => exact write_sameShape.keeps hi
  | guestStores guest =>
    have h : SameShape mm { mm with guest := guest } := ⟨rfl, rfl, rfl, rfl, rfl⟩
    exact h.keeps hi
  | setQemuReady guestBase => exact ⟨hi.congr rfl rfl rfl rfl, le_rfl, id⟩

theorem reach_inv {regions : List MemoryRegion} (hr : (system regions).Reach Fitting mm) : mm.Inv := by
  refine hr.invariant (I := Inv) ?_ ?_
  · rintro s rfl
    exact inv_init regions
  · rintro s ⟨c, env⟩ _ hi hc rfl
    exact (call_keeps hi hc).inv

/-! ### Where blocks lie -/

/-- `[p, p + size)` does not wrap and lies in the heap, or in the region that was mapped for it. -/
def Placed (mm : MemoryManager) (p size : Word) : Prop :=
  p.toNat + size.toNat < 2 ^ 64 ∧
    (heapBase.toNat ≤ p.toNat ∧ p.toNat + size.toNat ≤ heapBase.toNat + heapSize.toNat ∨
      ∃ n, (p, n) ∈ mm.dynamicAllocations.entries ∧ (p, n) ∈ mm.regions.map MemoryRegion.extent ∧
        size.toNat ≤ n.toNat)

lemma Inv.placed (hi : mm.Inv) {n : Word} (hl : mm.Live p n) (hle : size.toNat ≤ n.toNat) : mm.Placed p size := by
  refine ⟨?_, ?_⟩
  · have := hi.live_lt hl
    omega
  · rcases hl with h | h
    · left
      have h1 := hi.heapBounds h
      exact ⟨h1.1, show p.toNat + size.toNat ≤ 0x70000000 by omega⟩
    · exact .inr ⟨n, h, hi.dynMapped p n h, hle⟩

def Call.requested : Call → Option Word
  | .malloc size => some size
  | .realloc _ newSize => some newSize
  | .allocateGuestMemory size _ => some size
  | .reallocGuestMemory _ newSize _ => some newSize
  | _ => none

/-- The block a call returns is well placed, and the high-water mark does not fall. -/
def CallOk (mm : MemoryManager) (c : Call) (env : Env) : Prop :=
  (∀ size, c.requested = some size → (mm.call env c).2 ≠ 0 → (mm.call env c).1.Placed (mm.call env c).2 size) ∧
    mm.heap.highWaterMark.toNat ≤ (mm.call env c).1.heap.highWaterMark.toNat

lemma call_returns (hi : mm.Inv) (hc : mm.Fitting (c, env)) (hs : c.requested = some size) :
    Returns (mm.call env c) size := by
  cases c with
  | malloc n | allocateGuestMemory n al =>
    obtain rfl := Option.some.inj hs
    exact allocate_returns hi hc
  | realloc oldPtr n =>
    obtain rfl := Option.some.inj hs
    show Returns (mm.realloc env oldPtr n) n
    rw [realloc_eq]
    exact (reallocGuestMemory_keeps hi hc).2
  | reallocGuestMemory address n copyContents =>
    obtain rfl := Option.some.inj hs
    exact (reallocGuestMemory_keeps hi hc).2
  | calloc _ _ | free _ | freeGuestMemory _ | heap _ | write _ _ _ | guestStores _ | setQemuReady _ => cases hs

/-- **Blocks are well placed** in every run whose requests fit the address space. -/
theorem reach_callOk {regions : List MemoryRegion} (hr : (system regions).Reach Fitting mm) {c : Call}
    (hc : mm.Fitting (c, env)) : mm.CallOk c env := by
  have hi := reach_inv hr
  have hk := call_keeps hi hc
  refine ⟨fun size hs hp => ?_, hk.hwm⟩
  obtain ⟨n, hl, hle⟩ := call_returns hi hc hs hp
  exact hk.inv.placed hl hle

theorem reach_callOk_first_malloc : (init (initialRegions {})).CallOk (.malloc 24) .good :=
  have h : (system (initialRegions {})).Reach Fitting (init (initialRegions {})) := .init rfl
  reach_callOk h ⟨⟨4, rfl⟩, by decide, by decide, by decide, by decide⟩

/-- **The fit test wraps**: `malloc(2^64 - 1)` on a fresh heap returns the heap's base, for a block that ends
below it. -/
theorem malloc_wraps : ¬ ∀ mm, (system (initialRegions {})).Reachable mm → ∀ c env, mm.CallOk c env := by
  intro h
  have hok := (h _ (.init rfl) (.malloc 0xFFFFFFFFFFFFFFFF) .good).1 0xFFFFFFFFFFFFFFFF rfl (by decide)
  exact absurd hok.1 (by decide)

/-! ### The heap that is mapped -/

/-- **The blocks of the heap lie in the region that `Emulator::initialize` maps for it**, in every run whose requests
fit the address space, exactly if `heap_size` is not below the constant of the allocator. -/
theorem heapMapped_iff (config : EmulatorConfig) :
    (∀ mm, (system (initialRegions config)).Reach Fitting mm → ∀ a n, (a, n) ∈ mm.heap.allocations.entries →
      heapBase.toNat ≤ a.toNat ∧ a.toNat + n.toNat ≤ heapBase.toNat + config.heapSize.toNat) ↔
      heapSize.toNat ≤ config.heapSize.toNat := by
  constructor
  · intro hall
    -- one block takes the whole heap
    have hheap (op : HeapAllocator.Op) : ((init (initialRegions config)).call .good (.heap op)).1.heap =
        ((HeapAllocator.init heapBase heapSize).call op).1 := rfl
    have hfit : (init (initialRegions config)).Fitting (.heap (.allocate heapSize 16), .good) :=
      ⟨⟨4, rfl⟩, (by decide : (HeapAllocator.init heapBase heapSize).NoWrap heapSize 16)⟩
    have hle := (hall _ (.step (.init rfl) hfit rfl) heapBase heapSize (by rw [hheap]; decide)).2
    omega
  · intro hle mm hr a n hm
    obtain ⟨hlo, hend, hmark⟩ := (reach_inv hr).heapBounds hm
    exact ⟨hlo, hend.trans (hmark.trans (Nat.add_le_add_left hle 0x60000000))⟩

/-- With 64 MB mapped, a block of 128 MB is handed out. -/
theorem block_beyond_mapped : ∃ mm, (system (initialRegions { heapSize := 0x4000000 })).Reachable mm ∧
    (heapBase, 0x8000000) ∈ mm.heap.allocations.entries :=
  ⟨_, .next (.init rfl) (a := (.malloc 0x8000000, .good)) rfl, by decide⟩

end CrossShim.Memory.MemoryManager
