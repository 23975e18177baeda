import CrossShim.Lib.Word

/-!
# The guest address space

The constants of `cross_shim.h`, `emulator.cpp` and `memory_manager.cpp` that the modelled code computes with.
-/

namespace CrossShim

open Lib

abbrev codeBase : Word := 0x40000000
abbrev codeSize : Word := 0x10000000
abbrev heapBase : Word := 0x60000000
abbrev heapSize : Word := 0x10000000
abbrev stackBase : Word := 0x80000000
abbrev stackSize : Word := 0x00800000
abbrev hleBase : Word := 0x10000000
abbrev hleSize : Word := 0x00100000
abbrev tlsBase : Word := 0xC0000000
abbrev tlsSize : Word := 0x00010000
abbrev tlsPreSize : Word := 0x00001000
abbrev globalDataBase : Word := 0xB0000000
abbrev globalDataSize : Word := 0x00010000
abbrev pageSize : Word := 0x1000
abbrev dynamicAllocBase : Word := 0x200000000

abbrev safeCallStackBase : Word := 0xA0000000
abbrev safeCallStackSize : Word := 0x00800000
abbrev safeCallStackChunk : Word := 0x00100000
abbrev safeCallTrampolineAddr : Word := hleBase + 0xFFF80
abbrev safeCallContextSize : Word := 0x50
abbrev callReturnStub : Word := hleBase + 0xFFF00

/-- The sizes an `EmulatorConfig` chooses. -/
structure EmulatorConfig where
  stackSize : Word := CrossShim.stackSize
  heapSize : Word := CrossShim.heapSize

end CrossShim
