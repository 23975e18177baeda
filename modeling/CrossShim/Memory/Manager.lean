import CrossShim.Layout
import CrossShim.Lib.Chunks
import CrossShim.Memory.Heap
import CrossShim.Memory.Regions

/-!
# The memory manager

`MemoryManager` of `memory_manager.cpp` and the allocation handlers of `hle_memory.cpp`.

The manager keeps the regions with their host buffers, the heap allocator, and the allocations that the heap
could not serve and that got a region of their own.  Once QEMU runs, accesses go to its guest memory, and to
the host buffers only when QEMU fails.

What QEMU and the kernel do is not the manager's to choose: every call is given an `Env` with the outcomes of
the external calls it makes.
-/

namespace CrossShim.Memory

open Lib

/-! ### What the outside does -/

/-- The outcome of `cpu_memory_rw_debug`: all bytes are moved, or it fails after some (without a CPU, after none). -/
inductive Outcome where
  | ok
  | fail (moved : Word)
  deriving DecidableEq

/-- How many of `size` bytes an access moves. -/
def Outcome.moved : Outcome → Word → Word
  | .ok, size => size
  | .fail moved, size => min moved size

/-- The outcomes of the external calls of one call; `read i` and `write i` are of its `i`-th pair of guest accesses. -/
structure Env where
  mmapOk : Bool
  targetMmapOk : ℕ → Bool
  cpuPresent : Bool
  read : ℕ → Outcome
  write : ℕ → Outcome

/-- The environment in which every external call succeeds. -/
def Env.good : Env := ⟨true, fun _ => true, true, fun _ => .ok, fun _ => .ok⟩

/-! ### The manager -/

/-- `MemoryManager`; `guest` is the memory QEMU holds for the guest. -/
structure MemoryManager where
  regions : List MemoryRegion
  heap : HeapAllocator
  dynamicAllocations : OrdMap Word Word
  nextDynamicAlloc : Word
  qemuReady : Bool
  guestBase : Word
  guest : Bytes

namespace MemoryManager

def init (regions : List MemoryRegion) : MemoryManager where
  regions := regions
  heap := .init heapBase heapSize
  dynamicAllocations := .empty
  nextDynamicAlloc := dynamicAllocBase
  qemuReady := false
  guestBase := 0
  guest _ := 0

variable (mm : MemoryManager) (env : Env)

def map (address size : Word) : MemoryManager × Bool :=
  if env.mmapOk then
    ({ mm with
        regions := mm.regions ++ [⟨address, size, some fun _ => 0⟩]
        guest := if mm.qemuReady && env.targetMmapOk 0 then splice mm.guest address (fun _ => 0) size
          else mm.guest }, true)
  else (mm, false)

/-- `unmap`: the first region with this address and size goes. -/
def unmap (address size : Word) : MemoryManager × Bool :=
  if mm.regions.any fun region => region.address = address ∧ region.size = size then
    ({ mm with regions := mm.regions.eraseP fun region => region.address = address ∧ region.size = size }, true)
  else (mm, false)

/-- `is_mapped` of an address. -/
def isMapped (address : Word) : Bool :=
  mm.regions.any fun region => address ≥ region.address ∧ address < region.address + region.size

/-- The regions `Emulator::initialize` maps. -/
def initialRegions (config : EmulatorConfig) : List MemoryRegion :=
  [(0, hleBase), (hleBase, hleSize), (stackBase - config.stackSize, config.stackSize),
    (safeCallStackBase, safeCallStackSize), (heapBase, config.heapSize), (globalDataBase, globalDataSize),
    (tlsBase - tlsPreSize, tlsSize + tlsPreSize)].map fun (address, size) => ⟨address, size, some fun _ => 0⟩

/-! ### Access -/

def read (outcome : Outcome) (address size : Word) : Option Bytes :=
  if mm.qemuReady ∧ outcome = .ok then some (window mm.guest address)
  else hostRead mm.regions address size

/-- The host path of `write`. -/
def writeHost (address : Word) (buffer : Bytes) (size : Word) : MemoryManager × Bool :=
  match hostWrite address buffer size mm.regions with
  | some regions => ({ mm with regions := regions }, true)
  | none => (mm, false)

def write (outcome : Outcome) (address : Word) (buffer : Bytes) (size : Word) : MemoryManager × Bool :=
  if mm.qemuReady then
    -- a failing access may have stored a part
    let mm₁ := { mm with guest := splice mm.guest address buffer (outcome.moved size) }
    if outcome = .ok then (mm₁, true) else mm₁.writeHost address buffer size
  else mm.writeHost address buffer size

/-- `ZERO_CHUNK` and `COPY_CHUNK`. -/
abbrev ioChunk : Word := 0x100000

def zero (address size : Word) : MemoryManager × Bool :=
  chunks (min size ioChunk) size
    (fun i offset chunk mm => mm.write (env.write i) (address + offset) (fun _ => 0) chunk) mm

/-- The copy of `oldSize` bytes in `realloc_guest_memory`. -/
def copy (address newAddr oldSize : Word) : MemoryManager × Bool :=
  chunks ioChunk oldSize
    (fun i offset chunk mm =>
      match mm.read (env.read i) (address + offset) chunk with
      | some buffer => mm.write (env.write i) (newAddr + offset) buffer chunk
      | none => (mm, false)) mm

/-- `set_qemu_ready` on the `i`-th region: map it afresh and copy the host buffer, but not to a null page. -/
def syncRegion (guestBase : Word) (guest : Bytes) (i : ℕ) (region : MemoryRegion) : Bytes :=
  match region.hostPtr with
  | none => guest
  | some host =>
    if region.size = 0 then guest
    else
      let mapped := if env.targetMmapOk i then splice guest region.address (fun _ => 0) region.size else guest
      if guestBase = 0 ∧ region.address = 0 then mapped
      else splice mapped region.address host ((env.write i).moved region.size)

def setQemuReady (guestBase : Word) : MemoryManager :=
  { mm with
    qemuReady := true
    guestBase := guestBase
    guest :=
      if env.cpuPresent then
        mm.regions.zipIdx.foldl (fun guest (region, i) => syncRegion env guestBase guest i region) mm.guest
      else mm.guest }

/-! ### Allocation -/

/-- The fallback of `allocate_guest_memory`: a region of its own for the request. -/
def allocateDynamic (size alignment : Word) : MemoryManager × Word :=
  let alignedSize := alignUp size pageSize
  let address := alignUp mm.nextDynamicAlloc (max alignment pageSize)
  match mm.map env address alignedSize with
  | (mm₁, true) =>
    ({ mm₁ with
        dynamicAllocations := mm₁.dynamicAllocations.insert address alignedSize
        nextDynamicAlloc := address + alignedSize }, address)
  | (mm₁, false) => (mm₁, 0)

def allocateGuestMemory (size alignment : Word) : MemoryManager × Word :=
  let size := HeapAllocator.minSize size
  let (heap, ptr) := mm.heap.allocate size alignment
  if ptr ≠ 0 then ({ mm with heap := heap }, ptr)
  else allocateDynamic { mm with heap := heap } env size alignment

def freeGuestMemory (address : Word) : MemoryManager :=
  if address = 0 then mm
  else
    match mm.dynamicAllocations.find? address with
    | some size => (unmap { mm with dynamicAllocations := mm.dynamicAllocations.erase address } address size).1
    | none => { mm with heap := mm.heap.free address }

def getGuestAllocationSize (address : Word) : Word :=
  let heapSize := mm.heap.getAllocationSize address
  if heapSize ≠ 0 then heapSize else (mm.dynamicAllocations.find? address).getD 0

def reallocGuestMemory (address newSize : Word) (copyContents : Bool) : MemoryManager × Word :=
  if address = 0 then mm.allocateGuestMemory env newSize 16
  else if newSize = 0 then (mm.freeGuestMemory address, 0)
  else
    let oldSize := mm.getGuestAllocationSize address
    if oldSize = 0 then (mm, 0)
    else if newSize ≤ oldSize then (mm, address)
    else
      let (mm₁, newAddr) := mm.allocateGuestMemory env newSize 16
      if newAddr = 0 then (mm₁, 0)
      else
        let (mm₂, copied) := if copyContents then mm₁.copy env address newAddr oldSize else (mm₁, true)
        if copied then (mm₂.freeGuestMemory address, newAddr) else (mm₂.freeGuestMemory newAddr, 0)

/-! ### The handlers -/

def malloc (size : Word) : MemoryManager × Word :=
  mm.allocateGuestMemory env size 16

def calloc (nmemb size : Word) : MemoryManager × Word :=
  let total := nmemb * size
  let (mm₁, ptr) := mm.allocateGuestMemory env total 16
  if ptr ≠ 0 then ((mm₁.zero env ptr total).1, ptr) else (mm₁, ptr)

def realloc (oldPtr newSize : Word) : MemoryManager × Word :=
  if oldPtr = 0 then mm.allocateGuestMemory env newSize 16
  else if newSize = 0 then (mm.freeGuestMemory oldPtr, 0)
  else
    let oldSize := mm.getGuestAllocationSize oldPtr
    if oldSize = 0 then (mm, 0)
    else if newSize ≤ oldSize then (mm, oldPtr)
    else mm.reallocGuestMemory env oldPtr newSize true

def free (ptr : Word) : MemoryManager := if ptr ≠ 0 then mm.freeGuestMemory ptr else mm

/-! ### The manager as a system -/

/-- What can happen to the manager and the memory behind it: calls of the guest and of the emulator, direct calls of the
heap, stores of the guest, and the start of QEMU. -/
inductive Call where
  | malloc (size : Word)
  | calloc (nmemb size : Word)
  | realloc (oldPtr newSize : Word)
  | free (ptr : Word)
  | allocateGuestMemory (size alignment : Word)
  | freeGuestMemory (address : Word)
  | reallocGuestMemory (address newSize : Word) (copyContents : Bool)
  | heap (op : HeapAllocator.Op)
  | write (address : Word) (buffer : Bytes) (size : Word)
  | guestStores (guest : Bytes)
  | setQemuReady (guestBase : Word)

def call (mm : MemoryManager) (env : Env) : Call → MemoryManager × Word
  | .malloc size => mm.malloc env size
  | .calloc nmemb size => mm.calloc env nmemb size
  | .realloc oldPtr newSize => mm.realloc env oldPtr newSize
  | .free ptr => (mm.free ptr, 0)
  | .allocateGuestMemory size alignment => mm.allocateGuestMemory env size alignment
  | .freeGuestMemory address => (mm.freeGuestMemory address, 0)
  | .reallocGuestMemory address newSize copyContents => mm.reallocGuestMemory env address newSize copyContents
  | .heap op => ({ mm with heap := (mm.heap.call op).1 }, (mm.heap.call op).2)
  | .write address buffer size => ((mm.write (env.write 0) address buffer size).1, 0)
  | .guestStores guest => ({ mm with guest := guest }, 0)
  | .setQemuReady guestBase => (mm.setQemuReady env guestBase, 0)

/-- The runs of a manager that starts with the given regions. -/
def system (regions : List MemoryRegion) : System MemoryManager (Call × Env) where
  init mm := mm = init regions
  step mm c mm' := mm' = (mm.call c.2 c.1).1

end MemoryManager

end CrossShim.Memory
