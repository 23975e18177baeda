import CrossShim.Loader.Relocation

/-!
# Loading modules

`load_module_locked` of `emulator.cpp`, which puts a module for `dl_open` at the next free address below the
heap.  It bounds the span of the segments before it maps them; the ends that span is computed from wrap.

`reach_loadOk`: in a run whose files have no segment that wraps, and whose paths the heap has room for, every
load keeps to the space between the last module and the heap, and modules do not share a page.
-/

namespace CrossShim.Loader

open Lib Memory List MemoryManager

/-! ### `load_module_locked` -/

structure ModuleState where
  modules : List LoadedModule
  capacity : ℕ
  nextLoadAddr : Word
  relocator : RelocationHandler

/-- A call of `load_module_locked`, with what the file parses to and the outcomes of the external calls. -/
structure LoadCall where
  name : String
  hostPath : String
  binary : Option Binary
  memory : MemoryManager
  resolver : SymbolResolver
  segmentEnv : ℕ → SegmentEnv
  relocationEnv : ℕ → RelocationEnv
  initRead : ℕ → Outcome
  internEnv : Env

/-- What a call leaves, and where it returns true, the base address and the init functions. -/
structure LoadResult where
  state : ModuleState
  memory : MemoryManager
  mapped : List (Word × Word)
  handle : Option (Word × List Word)

/-- `1 MB`, the alignment of modules. -/
abbrev moduleAlign : Word := 0x100000

def internGuestString (memory : MemoryManager) (env : Env) (s : String) : MemoryManager × Word :=
  let size := BitVec.ofNat 64 (s.utf8ByteSize + 1)
  let (memory, addr) := memory.allocateGuestMemory env size 1
  if addr ≠ 0 then
    ((memory.write (env.write 0) addr (fun i => (s.toUTF8.toList.map UInt8.toBitVec).getD i.toNat 0) size).1, addr)
  else (memory, addr)

/-- The page ranges that were mapped on the way from one memory to another, where regions were only added. -/
def mappedSince (memory memory' : MemoryManager) : List (Word × Word) :=
  (memory'.regions.drop memory.regions.length).map fun region => (region.address, region.size)

/-- The init functions: the entries of the `init_array` that are neither zero nor all ones. -/
def initFuncs (binary : Binary) (base : Word) (memory : MemoryManager) (outcome : ℕ → Outcome) : List Word :=
  let (initArrayAddr, initArraySize) := binary.initArray
  if initArrayAddr ≠ 0 ∧ initArraySize > 0 then
    let runtimeInitAddr := initArrayAddr - binary.getMinVaddr + base
    (List.range (initArraySize.toNat / 8)).filterMap fun i =>
      (readMemory memory (outcome i) (runtimeInitAddr + BitVec.ofNat 64 (i * 8))).filter fun fp =>
        fp ≠ 0 ∧ fp ≠ BitVec.allOnes 64
  else []

namespace ModuleState

variable (s : ModuleState)

/-- The test of `load_module_locked` that the module fits below the heap. -/
def Rejects (span : Word) : Prop :=
  span = 0 ∨ s.nextLoadAddr + span < s.nextLoadAddr ∨ s.nextLoadAddr + span ≥ heapBase

instance (span : Word) : Decidable (s.Rejects span) := inferInstanceAs (Decidable (_ ∨ _ ∨ _))

/-- What follows once the segments are mapped and the module is filled in. -/
def finishLoad (c : LoadCall) (binary : Binary) (l : Loading) (module : LoadedModule) : LoadResult :=
  let s := { s with nextLoadAddr := alignUp (module.baseAddress + module.size) moduleAlign }
  let attempt : Attempt := ⟨binary, module.baseAddress, c.resolver, l.memory, c.relocationEnv⟩
  let relocated := attempt.processRelocations s.relocator
  let s := { s with relocator := relocated.1 }
  let memory := relocated.2.1
  if relocated.2.2 then
    let funcs := initFuncs binary module.baseAddress memory c.initRead
    let interned := internGuestString memory c.internEnv c.hostPath
    ⟨{ s with modules := s.modules ++ [{ module with guestNameStr := interned.2 }] }, interned.1,
      l.mapped ++ mappedSince memory interned.1, some (module.baseAddress, funcs)⟩
  else ⟨s, memory, l.mapped, none⟩

def loadModuleLocked (c : LoadCall) : LoadResult :=
  match c.binary with
  | none => ⟨s, c.memory, [], none⟩
  | some binary =>
    if s.Rejects binary.getMemorySize then ⟨s, c.memory, [], none⟩
    else if s.modules.length ≥ s.capacity then ⟨s, c.memory, [], none⟩
    else
      let module := { LoadedModule.blank with name := c.name, path := c.hostPath }
      match binary.load c.segmentEnv c.memory s.nextLoadAddr module with
      | (l, none) => ⟨s, l.memory, l.mapped, none⟩
      | (l, some module) => s.finishLoad c binary l module

end ModuleState

namespace ModuleState

variable {s : ModuleState} {c : LoadCall} {capacity : ℕ} {next : Word} {relocator : RelocationHandler}
  {memory : MemoryManager} {mapped : List (Word × Word)}

variable (s c) in
/-- How the loop over the segments of the file ends. -/
def Loads (binary : Binary) (l : Loading) (b : Bool) : Prop :=
  loadSegments c.segmentEnv binary.getMinVaddr s.nextLoadAddr 0 binary.loads ⟨c.memory, []⟩ = (l, b)

/-- Everything `load_module_locked` can do: refuse the file, fail while the segments are mapped, or go on to the
relocations. -/
lemma loadModuleLocked_cases {P : LoadResult → Prop} (refused : P ⟨s, c.memory, [], none⟩)
    (failed : ∀ binary l, c.binary = some binary → ¬ s.Rejects binary.getMemorySize →
      s.Loads c binary l false → P ⟨s, l.memory, l.mapped, none⟩)
    (filled : ∀ binary l module, c.binary = some binary → ¬ s.Rejects binary.getMemorySize →
      s.Loads c binary l true → module.path = c.hostPath → module.baseAddress = s.nextLoadAddr →
      module.size = binary.getMemorySize → P (s.finishLoad c binary l module)) : P (s.loadModuleLocked c) := by
  unfold loadModuleLocked
  cases hbin : c.binary with
  | none => exact refused
  | some binary =>
    simp only
    by_cases hrej : s.Rejects binary.getMemorySize
    · rw [if_pos hrej]
      exact refused
    rw [if_neg hrej]
    by_cases hcap : s.modules.length ≥ s.capacity
    · rw [if_pos hcap]
      exact refused
    rw [if_neg hcap]
    unfold Binary.load
    cases hl : loadSegments c.segmentEnv binary.getMinVaddr s.nextLoadAddr 0 binary.loads ⟨c.memory, []⟩ with
    | mk l b =>
      cases b with
      | false => exact failed binary l hbin hrej hl
      | true => exact filled binary l _ hbin hrej hl rfl rfl rfl

/-- The call returns true and publishes a module of the path, or returns false and publishes none. -/
def Published (s : ModuleState) (path : String) (r : LoadResult) : Prop :=
  (r.handle.isSome = true ∧ ∃ module, r.state.modules = s.modules ++ [module] ∧ module.path = path) ∨
    (r.handle = none ∧ r.state.modules = s.modules)

lemma published_new {handle : Word × List Word} (module : LoadedModule) :
    Published s module.path ⟨⟨s.modules ++ [module], capacity, next, relocator⟩, memory, mapped, some handle⟩ :=
  .inl ⟨rfl, module, rfl, rfl⟩

lemma published_none {path : String} :
    Published s path ⟨⟨s.modules, capacity, next, relocator⟩, memory, mapped, none⟩ :=
  .inr ⟨rfl, rfl⟩

lemma finishLoad_published {binary : Binary} {l : Loading} {module : LoadedModule} :
    Published s module.path (s.finishLoad c binary l module) := by
  unfold finishLoad
  simp only
  split_ifs
  · exact published_new { module with guestNameStr := _ }
  · exact published_none

/-- **What a load publishes.** -/
theorem loadModuleLocked_published (s : ModuleState) (c : LoadCall) :
    Published s c.hostPath (s.loadModuleLocked c) := by
  apply loadModuleLocked_cases
  · exact .inr ⟨rfl, rfl⟩
  · exact fun _ _ _ _ _ => .inr ⟨rfl, rfl⟩
  · intro binary l module _ _ _ hpath _ _
    rw [← hpath]
    exact finishLoad_published

end ModuleState

/-! ### The span and the pages of a file -/

section Folds

variable {α β : Type*} [LinearOrder β] (f : α → β)

lemma foldl_min_le (l : List α) (b : β) : l.foldl (fun m x => min m (f x)) b ≤ b ∧
    ∀ x ∈ l, l.foldl (fun m x => min m (f x)) b ≤ f x := by
  induction l generalizing b with
  | nil => simp
  | cons y l ih =>
    obtain ⟨h1, h2⟩ := ih (min b (f y))
    exact ⟨h1.trans (min_le_left _ _), forall_mem_cons.2 ⟨h1.trans (min_le_right _ _), h2⟩⟩

lemma le_foldl_max (l : List α) (b : β) : b ≤ l.foldl (fun m x => max m (f x)) b ∧
    ∀ x ∈ l, f x ≤ l.foldl (fun m x => max m (f x)) b := by
  induction l generalizing b with
  | nil => simp
  | cons y l ih =>
    obtain ⟨h1, h2⟩ := ih (max b (f y))
    exact ⟨(le_max_left _ _).trans h1, forall_mem_cons.2 ⟨(le_max_right _ _).trans h1, h2⟩⟩

end Folds

/-- No segment runs over the end of the address space. -/
def Binary.NoWrap (binary : Binary) : Prop :=
  ∀ s ∈ binary.loads, s.virtualAddress.toNat + s.virtualSize.toNat < 2 ^ 64

/-- **The span** holds every segment. -/
theorem Binary.NoWrap.span {binary : Binary} (h : binary.NoWrap) (h0 : binary.getMemorySize ≠ 0) {s : Segment}
    (hs : s ∈ binary.loads) : binary.getMinVaddr.toNat ≤ s.virtualAddress.toNat ∧
      s.virtualAddress.toNat + s.virtualSize.toNat ≤ binary.getMinVaddr.toNat + binary.getMemorySize.toNat := by
  have hmin := (foldl_min_le Segment.virtualAddress binary.loads (BitVec.allOnes 64)).2 s hs
  have hmax := (le_foldl_max (fun s : Segment => s.virtualAddress + s.virtualSize) binary.loads 0).2 s hs
  have hw := h s hs
  unfold getMinVaddr getMemorySize minStart at *
  generalize binary.loads.foldl (fun m s => min m s.virtualAddress) (BitVec.allOnes 64) = lowest at *
  generalize binary.loads.foldl (fun m s => max m (s.virtualAddress + s.virtualSize)) 0 = highest at *
  by_cases hempty : lowest = BitVec.allOnes 64
  · exact absurd (if_pos hempty) h0
  · rw [if_neg hempty, if_neg hempty]
    rw [BitVec.le_def] at hmin hmax
    have hend : (s.virtualAddress + s.virtualSize).toNat = s.virtualAddress.toNat + s.virtualSize.toNat := by
      bv_omega
    have hspan : (highest - lowest).toNat = highest.toNat - lowest.toNat := by bv_omega
    omega

/-- **The pages of a segment** lie between page boundaries around its bytes. -/
theorem Segment.pages_bounds {s : Segment} {minVaddr base : Word} {e : ℕ} (hbase : 0x1000 ∣ base.toNat)
    (hmin : minVaddr.toNat ≤ s.virtualAddress.toNat) (he : 0x1000 ∣ e) (hle : e < 2 ^ 63)
    (hend : base.toNat + (s.virtualAddress.toNat - minVaddr.toNat) + s.virtualSize.toNat ≤ e) :
    base.toNat ≤ (s.pages minVaddr base).1.toNat ∧
      (s.pages minVaddr base).1.toNat + (s.pages minVaddr base).2.toNat ≤ e := by
  have hpage : pageSize.toNat = 2 ^ 12 := rfl
  have hv : (s.vaddr minVaddr base).toNat = base.toNat + (s.virtualAddress.toNat - minVaddr.toNat) := by
    unfold vaddr
    bv_omega
  unfold pages
  generalize s.vaddr minVaddr base = v at *
  have hdown : (alignDown v pageSize).toNat = v.toNat / 2 ^ 12 * 2 ^ 12 := alignDown_toNat hpage
  have hsum : (s.virtualSize + (v - alignDown v pageSize)).toNat =
      s.virtualSize.toNat + (v.toNat - (alignDown v pageSize).toNat) := by
    bv_omega
  have hdvd : pageSize.toNat ∣ e - (alignDown v pageSize).toNat := by
    rw [hpage]
    omega
  have hup := alignUp_le_of_dvd (v := s.virtualSize + (v - alignDown v pageSize))
    isPowerOfTwo_pageSize (by omega) hdvd (by omega)
  simp only
  omega

/-! ### What a load maps -/

section Mapped

variable {env : ℕ → SegmentEnv} {minVaddr base : Word} {l l' : Loading} {s : Segment} {e : SegmentEnv} {b : Bool}

lemma Segment.fill_heap {memory : MemoryManager} : (s.fill minVaddr base e memory).1.heap = memory.heap := by
  have hwritten : (if s.content ≠ [] then
      memory.write e.content (s.vaddr minVaddr base) s.fileBytes s.fileLen else (memory, true)).1.heap =
      memory.heap := by
    split_ifs
    · exact write_sameShape.heap
    · rfl
  simp only [fill]
  generalize (if s.content ≠ [] then
    memory.write e.content (s.vaddr minVaddr base) s.fileBytes s.fileLen else (memory, true)) = written at *
  split_ifs
  · exact zero_sameShape.heap.trans hwritten
  · exact hwritten
  · exact hwritten

lemma Segment.load_mapped (h : s.load minVaddr base e l = (l', b)) :
    (∀ p ∈ l'.mapped, p ∈ l.mapped ∨ p = s.pages minVaddr base) ∧ l'.memory.heap = l.memory.heap := by
  obtain ⟨-, -, hheap⟩ := s.evict_same minVaddr base l.memory
  unfold load at h
  cases hok : e.env.mmapOk with
  | false =>
    simp only [MemoryManager.map, hok, Bool.false_eq_true, if_false] at h
    obtain rfl := (Prod.mk.inj h).1
    exact ⟨fun p hp => .inl hp, hheap⟩
  | true =>
    simp only [MemoryManager.map, hok, if_true] at h
    obtain rfl := (Prod.mk.inj h).1
    refine ⟨fun p hp => ?_, fill_heap.trans hheap⟩
    exact (mem_append.1 hp).imp_right mem_singleton.1

/-- **What the loop maps**: pages of segments. -/
theorem loadSegments_mapped {segments : List Segment} {i : ℕ}
    (h : loadSegments env minVaddr base i segments l = (l', b)) :
    (∀ p ∈ l'.mapped, p ∈ l.mapped ∨ ∃ s ∈ segments, p = s.pages minVaddr base) ∧ l'.memory.heap = l.memory.heap := by
  induction segments generalizing i l with
  | nil =>
    obtain rfl := (Prod.mk.inj h).1
    exact ⟨fun p hp => .inl hp, rfl⟩
  | cons s rest ih =>
    unfold loadSegments at h
    cases hs : s.load minVaddr base (env i) l with
    | mk l₁ b₁ =>
      obtain ⟨hm, hheap⟩ := Segment.load_mapped hs
      rw [hs] at h
      cases b₁ with
      | false =>
        obtain rfl := (Prod.mk.inj h).1
        exact ⟨fun p hp => (hm p hp).imp_right fun he => ⟨s, mem_cons_self, he⟩, hheap⟩
      | true =>
        obtain ⟨hm', hheap'⟩ := ih h
        refine ⟨fun p hp => ?_, hheap'.trans hheap⟩
        rcases hm' p hp with hp | ⟨t, ht, rfl⟩
        · exact (hm p hp).imp_right fun he => ⟨s, mem_cons_self, he⟩
        · exact .inr ⟨t, mem_cons_of_mem _ ht, rfl⟩

end Mapped

lemma Attempt.processFrom_heap (a : Attempt) (i : ℕ) (relocs : List Relocation) (h : RelocationHandler)
    (memory : MemoryManager) : (a.processFrom i relocs h memory).2.heap = memory.heap := by
  induction relocs generalizing i h memory with
  | nil => rfl
  | cons reloc rest ih =>
    obtain ⟨unresolved, hp⟩ := a.processRelocation_eq ⟨memory, a.env i, reloc⟩ h
    have hrun : ((a.action ⟨memory, a.env i, reloc⟩).run memory (a.env i).write).1.heap = memory.heap := by
      cases a.action ⟨memory, a.env i, reloc⟩ with
      | skip | fail => rfl
      | store address value => exact write_sameShape.heap
    unfold processFrom
    rw [hp]
    cases hr : (a.action ⟨memory, a.env i, reloc⟩).run memory (a.env i).write with
    | mk memory₁ b =>
      rw [hr] at hrun
      cases b <;> exact (ih _ _ _).trans hrun

def LoadCall.Served (c : LoadCall) : Prop :=
  (c.memory.heap.allocate (HeapAllocator.minSize (BitVec.ofNat 64 (c.hostPath.utf8ByteSize + 1))) 1).2 ≠ 0

lemma mappedSince_intern {memory : MemoryManager} {env : Env} {str : String}
    (h : (memory.heap.allocate (HeapAllocator.minSize (BitVec.ofNat 64 (str.utf8ByteSize + 1))) 1).2 ≠ 0) :
    mappedSince memory (internGuestString memory env str).1 = [] := by
  have hal : (memory.allocateGuestMemory env (BitVec.ofNat 64 (str.utf8ByteSize + 1)) 1).1.regions =
      memory.regions := by
    simp only [MemoryManager.allocateGuestMemory, if_pos h]
  have hlen : (internGuestString memory env str).1.regions.length = memory.regions.length := by
    rw [← hal]
    simp only [internGuestString]
    split_ifs
    · simpa using congrArg List.length write_sameShape.extents
    · rfl
  rw [mappedSince, ← hlen, drop_length, map_nil]

namespace ModuleState

variable {s : ModuleState} {c : LoadCall} {l : Loading} {binary : Binary}

def Inside (low : Word) (p : Word × Word) : Prop :=
  low.toNat ≤ p.1.toNat ∧ p.1.toNat + p.2.toNat ≤ heapBase.toNat

/-- A load maps pages in the space of the loader, below the next address if the module is loaded, and moves that up. -/
structure Kept (s : ModuleState) (r : LoadResult) : Prop where
  inside : ∀ p ∈ r.mapped, Inside s.nextLoadAddr p
  below : r.handle.isSome → ∀ p ∈ r.mapped, p.1.toNat + p.2.toNat ≤ r.state.nextLoadAddr.toNat
  aligned : moduleAlign.toNat ∣ r.state.nextLoadAddr.toNat
  mono : s.nextLoadAddr.toNat ≤ r.state.nextLoadAddr.toNat

lemma kept_self (hal : moduleAlign.toNat ∣ s.nextLoadAddr.toNat) : Kept s ⟨s, c.memory, [], none⟩ :=
  ⟨by simp, by simp, hal, le_rfl⟩

lemma not_rejects {span : Word} (h : ¬ s.Rejects span) :
    span ≠ 0 ∧ s.nextLoadAddr.toNat + span.toNat < heapBase.toNat := by
  simp only [Rejects, not_or] at h
  obtain ⟨h0, h1, h2⟩ := h
  refine ⟨h0, ?_⟩
  rw [BitVec.lt_def] at h1
  rw [ge_iff_le, BitVec.le_def] at h2
  bv_omega

/-- Where the module after this one goes. -/
lemma next_spec {module : LoadedModule} (hrej : ¬ s.Rejects module.size) (hbase : module.baseAddress = s.nextLoadAddr) :
    moduleAlign.toNat ∣ (alignUp (module.baseAddress + module.size) moduleAlign).toNat ∧
      s.nextLoadAddr.toNat + module.size.toNat ≤ (alignUp (module.baseAddress + module.size) moduleAlign).toNat ∧
      (alignUp (module.baseAddress + module.size) moduleAlign).toNat < 2 ^ 63 := by
  have hb : heapBase.toNat = 0x60000000 := rfl
  have hma : moduleAlign.toNat = 0x100000 := rfl
  obtain ⟨-, hspan⟩ := not_rejects hrej
  have hsum : (module.baseAddress + module.size).toNat = s.nextLoadAddr.toNat + module.size.toNat := by
    rw [hbase]
    bv_omega
  have hpow : moduleAlign.toNat.isPowerOfTwo := ⟨20, rfl⟩
  obtain ⟨h1, h2, h3⟩ := alignUp_spec (v := module.baseAddress + module.size) hpow (by omega)
  exact ⟨h1, hsum ▸ h2, by omega⟩

lemma finishLoad_eq (s : ModuleState) (binary : Binary) (module : LoadedModule) (hserved : c.Served)
    (hheap : l.memory.heap = c.memory.heap) :
    (s.finishLoad c binary l module).mapped = l.mapped ∧
      (s.finishLoad c binary l module).state.nextLoadAddr =
        alignUp (module.baseAddress + module.size) moduleAlign := by
  let attempt : Attempt := ⟨binary, module.baseAddress, c.resolver, l.memory, c.relocationEnv⟩
  have hrel : (attempt.processRelocations s.relocator).2.1.heap = c.memory.heap :=
    (attempt.processFrom_heap _ _ _ _).trans hheap
  have hintern : mappedSince (attempt.processRelocations s.relocator).2.1
      (internGuestString (attempt.processRelocations s.relocator).2.1 c.internEnv c.hostPath).1 = [] := by
    refine mappedSince_intern ?_
    rw [hrel]
    exact hserved
  unfold finishLoad
  simp only [attempt] at hintern
  simp only
  split_ifs
  · rw [hintern, append_nil]
    exact ⟨rfl, rfl⟩
  · exact ⟨rfl, rfl⟩

lemma kept_finish {module : LoadedModule} (hserved : c.Served) (hheap : l.memory.heap = c.memory.heap)
    (hrej : ¬ s.Rejects module.size) (hbase : module.baseAddress = s.nextLoadAddr)
    (hin : ∀ p ∈ l.mapped, Inside s.nextLoadAddr p)
    (hbelow : ∀ e, 0x1000 ∣ e → e < 2 ^ 63 → s.nextLoadAddr.toNat + module.size.toNat ≤ e →
      ∀ p ∈ l.mapped, p.1.toNat + p.2.toNat ≤ e) : Kept s (s.finishLoad c binary l module) := by
  obtain ⟨hmap, hnext⟩ := finishLoad_eq s binary module hserved hheap
  obtain ⟨h1, h2, h3⟩ := next_spec hrej hbase
  rw [← hnext] at h1 h2 h3
  refine ⟨?_, ?_, h1, by omega⟩
  · rwa [hmap]
  · rw [hmap]
    exact fun _ => hbelow _ (Dvd.dvd.trans (by decide) h1) h3 h2

/-- The segments of a file that is not refused have their pages below every page boundary above its span. -/
lemma mapped_bounds {b : Bool} (hpage : 0x1000 ∣ s.nextLoadAddr.toNat) (hnw : binary.NoWrap)
    (h0 : binary.getMemorySize ≠ 0) (hl : s.Loads c binary l b) {e : ℕ}
    (he : 0x1000 ∣ e) (hlt : e < 2 ^ 63) (hle : s.nextLoadAddr.toNat + binary.getMemorySize.toNat ≤ e) :
    ∀ p ∈ l.mapped, s.nextLoadAddr.toNat ≤ p.1.toNat ∧ p.1.toNat + p.2.toNat ≤ e := by
  intro p hp
  obtain ⟨t, ht, rfl⟩ := ((loadSegments_mapped hl).1 p hp).resolve_left (by simp)
  obtain ⟨h1, h2⟩ := hnw.span h0 ht
  exact t.pages_bounds hpage h1 he hlt (by omega)

/-- **What one load maps.** -/
theorem loadModuleLocked_kept (hal : moduleAlign.toNat ∣ s.nextLoadAddr.toNat)
    (hnw : ∀ binary, c.binary = some binary → binary.NoWrap) (hserved : c.Served) :
    Kept s (s.loadModuleLocked c) := by
  have hb : heapBase.toNat = 0x60000000 := rfl
  have hpage : 0x1000 ∣ s.nextLoadAddr.toNat := Dvd.dvd.trans (by decide) hal
  have hinside : ∀ {binary l b}, c.binary = some binary → ¬ s.Rejects binary.getMemorySize →
      s.Loads c binary l b → ∀ p ∈ l.mapped, Inside s.nextLoadAddr p := by
    intro binary l b hbin hrej hl
    obtain ⟨h0, hspan⟩ := not_rejects hrej
    exact mapped_bounds hpage (hnw binary hbin) h0 hl (by omega) (by omega) hspan.le
  apply loadModuleLocked_cases
  · exact kept_self hal
  · intro binary l hbin hrej hl
    exact ⟨hinside hbin hrej hl, by simp, hal, le_rfl⟩
  · intro binary l module hbin hrej hl _ hbase hsize
    obtain ⟨h0, -⟩ := not_rejects hrej
    refine kept_finish hserved (loadSegments_mapped hl).2 (hsize ▸ hrej) hbase (hinside hbin hrej hl) ?_
    rw [hsize]
    exact fun e he hlt hle p hp => (mapped_bounds hpage (hnw binary hbin) h0 hl he hlt hle p hp).2

end ModuleState

/-! ### Runs -/

/-- The emulator's modules, and the page ranges of each module that was loaded. -/
structure Arena where
  state : ModuleState
  loaded : List (List (Word × Word))

namespace Arena

/-- A load, and the note of its page ranges if it succeeds. -/
def load (a : Arena) (c : LoadCall) : Arena :=
  let r := a.state.loadModuleLocked c
  ⟨r.state, if r.handle.isSome then a.loaded ++ [r.mapped] else a.loaded⟩

/-- The loads of an emulator, from where the modules of its start end. -/
def system : System Arena LoadCall :=
  .ofStep (fun a => moduleAlign.toNat ∣ a.state.nextLoadAddr.toNat ∧ a.loaded = []) fun a c => some (a.load c)

def PagesApart (m n : List (Word × Word)) : Prop :=
  ∀ p ∈ m, ∀ q ∈ n, Apart p.1.toNat p.2.toNat q.1.toNat q.2.toNat

/-- The file has no segment that wraps, and the heap has room for the copy of the path. -/
def Sound (_ : Arena) (c : LoadCall) : Prop :=
  (∀ binary, c.binary = some binary → binary.NoWrap) ∧ c.Served

/-- The load maps pages between the last module and the heap only. -/
def LoadOk (a : Arena) (c : LoadCall) : Prop :=
  ∀ p ∈ (a.state.loadModuleLocked c).mapped, ModuleState.Inside a.state.nextLoadAddr p

structure Inv (a : Arena) : Prop where
  aligned : moduleAlign.toNat ∣ a.state.nextLoadAddr.toNat
  below : ∀ m ∈ a.loaded, ∀ p ∈ m, p.1.toNat + p.2.toNat ≤ a.state.nextLoadAddr.toNat
  apart : a.loaded.Pairwise PagesApart

lemma Inv.load {a : Arena} {c : LoadCall} (hi : a.Inv) (hc : Sound a c) : (a.load c).Inv := by
  have hk := ModuleState.loadModuleLocked_kept hi.aligned hc.1 hc.2
  unfold Arena.load
  generalize a.state.loadModuleLocked c = r at hk
  have hbelow : ∀ m ∈ a.loaded, ∀ p ∈ m, p.1.toNat + p.2.toNat ≤ r.state.nextLoadAddr.toNat :=
    fun m hm p hp => (hi.below m hm p hp).trans hk.mono
  by_cases hr : r.handle.isSome
  · simp only [if_pos hr]
    refine ⟨hk.aligned, forall_mem_append.2 ⟨hbelow, forall_mem_singleton.2 (hk.below hr)⟩, ?_⟩
    refine pairwise_append.2 ⟨hi.apart, pairwise_singleton _ _, fun m hm => forall_mem_singleton.2 fun p hp q hq => ?_⟩
    exact .inl ((hi.below m hm p hp).trans (hk.inside q hq).1)
  · simp only [if_neg hr]
    exact ⟨hk.aligned, hbelow, hi.apart⟩

/-- **Loads keep to their space.** In every run of sound loads the pages of the modules are apart, and every further
sound load maps pages between the last module and the heap only. -/
theorem reach_loadOk {a : Arena} (h : system.Reach Sound a) :
    a.loaded.Pairwise PagesApart ∧ ∀ c, Sound a c → LoadOk a c := by
  have hi : a.Inv := by
    refine h.invariant ?_ ?_
    · rintro a ⟨hal, hempty⟩
      exact ⟨hal, by simp [hempty], by simp [hempty]⟩
    · rintro a c _ hi hc ⟨⟩
      exact hi.load hc
  exact ⟨hi.apart, fun c hc => (ModuleState.loadModuleLocked_kept hi.aligned hc.1 hc.2).inside⟩

def empty : Arena := ⟨⟨[], 256, codeBase, .init⟩, []⟩

/-- The load of a file in which every external call succeeds. -/
def goodCall (binary : Binary) : LoadCall where
  name := "lib.so"
  hostPath := "/lib.so"
  binary := some binary
  memory := runningMemory
  resolver := none
  segmentEnv _ := ⟨.good, .ok⟩
  relocationEnv _ := ⟨.ok, .ok⟩
  initRead _ := .ok
  internEnv := .good

def twoLoads : Arena := (empty.load (goodCall (textAndData 0x1000))).load (goodCall (textAndData 0x800))

theorem reach_loadOk_two_loads : twoLoads.loaded.length = 2 ∧ twoLoads.loaded.Pairwise PagesApart ∧
    LoadOk twoLoads (goodCall (textAndData 0x2000)) := by
  have hsound : ∀ (a : Arena) (address : Word), address.toNat ≤ 0x2000 →
      Sound a (goodCall (textAndData address)) := by
    intro a address hle
    have hserved : (goodCall (textAndData 0)).Served := by
      unfold LoadCall.Served
      decide
    refine ⟨fun binary hb s hs => ?_, hserved⟩
    cases hb
    rcases mem_cons.1 hs with rfl | hs
    · decide
    · obtain rfl := mem_singleton.1 hs
      show address.toNat + 4 < 2 ^ 64
      omega
  have h0 : system.Reach Sound empty := .init ⟨by decide, rfl⟩
  have h2 : system.Reach Sound twoLoads :=
    (h0.step (hsound _ 0x1000 (by decide)) rfl).step (hsound _ 0x800 (by decide)) rfl
  obtain ⟨hap, hok⟩ := reach_loadOk h2
  exact ⟨by decide, hap, hok _ (hsound _ 0x2000 (by decide))⟩

def wrapping : Binary :=
  ⟨[⟨true, 0x1000, 0x1000, 0, []⟩, ⟨true, 0xFFFFFFFFFFFFF000, 0x2000, 0, []⟩], [], [], [], (0, 0)⟩

/-- **A wrapped end hides a segment.** The span is that of the first segment; the second one is mapped below the module.
-/
theorem wrapped_below_module : ¬ ∀ (a : Arena) (c : LoadCall), system.Reachable a →
    a.loaded.Pairwise PagesApart ∧ LoadOk a c := by
  intro h
  have hok := (h empty (goodCall wrapping) (.init ⟨by decide, rfl⟩)).2
  have hmem : ((0x3FFFE000, 0x2000) : Word × Word) ∈ (empty.state.loadModuleLocked (goodCall wrapping)).mapped := by
    decide
  have hin := (hok _ hmem).1
  revert hin
  decide

end Arena

end CrossShim.Loader
