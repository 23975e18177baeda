import CrossShim.Lib.Word
import CrossShim.Lib.OrdMap
import CrossShim.Lib.Runs

/-!
# The heap allocator

`HeapAllocator` of `memory_manager.cpp`: the live blocks, the free blocks in two indices (by address, for
coalescing; by size, for best-fit lookup) and the high-water mark up to which the heap has been handed out.

The functions below are the source's, on wrapping words.  A loop over the size index is `fitLoop`; a request is
served by `carve` (out of a free block) or by `bump` (past the high-water mark).
-/

namespace CrossShim.Memory

open Lib

/-- The state of a `HeapAllocator`. -/
structure HeapAllocator where
  base : Word
  size : Word
  highWaterMark : Word
  /-- live blocks: address to size -/
  allocations : OrdMap Word Word
  /-- free blocks: address to size -/
  freeBlocks : OrdMap Word Word
  /-- free blocks: size to address -/
  freeBlocksBySize : OrdMultimap Word Word

namespace HeapAllocator

def init (base size : Word) : HeapAllocator :=
  { base, size, highWaterMark := base, allocations := .empty, freeBlocks := .empty,
    freeBlocksBySize := .empty }

/-! ### The two free indices -/

variable (h : HeapAllocator)

def removeFreeBlock (address size : Word) : HeapAllocator :=
  { h with
    freeBlocks := h.freeBlocks.erase address
    freeBlocksBySize := h.freeBlocksBySize.eraseOne size address }

def insertFreeBlock (address size : Word) : HeapAllocator :=
  { h with
    freeBlocks := h.freeBlocks.insert address size
    freeBlocksBySize := h.freeBlocksBySize.insert size address }

/-- The check against the predecessor: if it ends at `address` it is taken out and absorbed. -/
def mergePrev (prev : Option (Word × Word)) (address size : Word) : HeapAllocator × Word × Word :=
  match prev with
  | some (prevAddr, prevSize) =>
    if prevAddr + prevSize = address then (h.removeFreeBlock prevAddr prevSize, prevAddr, prevSize + size)
    else (h, address, size)
  | none => (h, address, size)

/-- A successor that starts where the block ends is taken out and absorbed. -/
def mergeNext (next : Option (Word × Word)) (newAddr newSize : Word) : HeapAllocator × Word :=
  match next with
  | some (nextAddr, nextSize) =>
    if newAddr + newSize = nextAddr then (h.removeFreeBlock nextAddr nextSize, newSize + nextSize)
    else (h, newSize)
  | none => (h, newSize)

/-- Add a free block, coalescing it with its neighbours. -/
def addFreeBlock (address size : Word) : HeapAllocator :=
  -- both iterators are taken before anything is removed
  let next := h.freeBlocks.lowerBound address
  let prev := h.freeBlocks.before address
  let (h₁, newAddr, newSize₁) := h.mergePrev prev address size
  let (h₂, newSize) := h₁.mergeNext next newAddr newSize₁
  h₂.insertFreeBlock newAddr newSize

/-! ### Allocation -/

/-- The first block of the size index, from the requested size on, that holds the request aligned. -/
def fitLoop (allocSize alignment : Word) : List (Word × Word) → Option (Word × Word)
  | [] => none
  | (blockSize, blockAddr) :: rest =>
    let padding := alignUp blockAddr alignment - blockAddr
    if blockSize ≥ allocSize + padding then some (blockSize, blockAddr)
    else fitLoop allocSize alignment rest

def track (address size : Word) : HeapAllocator :=
  { h with allocations := h.allocations.insert address size }

/-- Serve a request out of a free block: the padding goes back to the free list, and a rest of at least 16 bytes. -/
def carve (blockSize blockAddr allocSize alignment : Word) : HeapAllocator × Word :=
  let result := alignUp blockAddr alignment
  let padding := result - blockAddr
  let h₁ := h.removeFreeBlock blockAddr blockSize
  let h₂ := if padding > 0 then h₁.addFreeBlock blockAddr padding else h₁
  let remaining := blockSize - allocSize - padding
  let h₃ := if remaining ≥ 16 then h₂.addFreeBlock (result + allocSize) remaining else h₂
  (h₃.track result allocSize, result)

/-- Serve a request past the high-water mark, or refuse it. -/
def bump (allocSize alignment : Word) : HeapAllocator × Word :=
  let aligned := alignUp h.highWaterMark alignment
  if aligned + allocSize > h.base + h.size then (h, 0)
  else ({ h with highWaterMark := aligned + allocSize }.track aligned allocSize, aligned)

def minSize (size : Word) : Word := if size = 0 then 1 else size

def allocate (size alignment : Word) : HeapAllocator × Word :=
  let allocSize := minSize size
  match fitLoop allocSize alignment (h.freeBlocksBySize.fromKey allocSize) with
  | some (blockSize, blockAddr) => h.carve blockSize blockAddr allocSize alignment
  | none => h.bump allocSize alignment

def free (address : Word) : HeapAllocator :=
  if address = 0 then h
  else
    match h.allocations.find? address with
    | some freedSize => { h with allocations := h.allocations.erase address }.addFreeBlock address freedSize
    | none => h

/-- `HeapAllocator::realloc`; the alignment of its requests is the default of `allocate`. -/
def realloc (address newSize : Word) : HeapAllocator × Word :=
  if address = 0 then h.allocate newSize 16
  else if newSize = 0 then (h.free address, 0)
  else
    match h.allocations.find? address with
    | none => (h, 0)
    | some oldSize =>
      if newSize ≤ oldSize then (h, address)
      else
        let (h₁, newAddr) := h.allocate newSize 16
        if newAddr = 0 then (h₁, 0) else (h₁.free address, newAddr)

def getAllocationSize (address : Word) : Word := (h.allocations.find? address).getD 0

/-! ### The allocator as a system -/

inductive Op where
  | allocate (size alignment : Word)
  | free (address : Word)
  | realloc (address newSize : Word)
  deriving DecidableEq

def call : Op → HeapAllocator × Word
  | .allocate size alignment => h.allocate size alignment
  | .free address => (h.free address, 0)
  | .realloc address newSize => h.realloc address newSize

/-- The runs of an allocator over `[base, base + size)`. -/
def system (base size : Word) : System HeapAllocator Op where
  init h := h = init base size
  step h op h' := h' = (h.call op).1

end HeapAllocator

end CrossShim.Memory
