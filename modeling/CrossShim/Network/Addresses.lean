import CrossShim.Memory.Access

/-!
# Socket addresses

`accept4`, `getpeername` and `getsockname` of `hle_network.cpp`.  Each asks the host for an address, gives the host all
of a `sockaddr_storage` for it, and copies what the host says is its length to the guest.  The length that the guest
supplied is not read, so what is written is bounded by it only if the address happens to be: `bounded_iff`.
-/

namespace CrossShim.Network

open Lib Memory

/-- A socket address of the host.  Its length is a `socklen_t`. -/
structure HostAddress where
  bytes : List Byte
  lt : bytes.length < 2 ^ 32

/-- `sizeof(struct sockaddr_storage)`. -/
def storageSize : ℕ := 128

/-- What the host's call leaves in `addr`, and what is behind it on the stack. -/
def HostAddress.stored (addr : HostAddress) (stack : ℕ → Byte) (i : ℕ) : Byte :=
  if i < storageSize then addr.bytes.getD i (stack i) else stack i

/-- The bytes that are copied: as many as the address has, from `addr` on. -/
def HostAddress.copied (addr : HostAddress) (stack : ℕ → Byte) : List Byte :=
  (List.range addr.bytes.length).map (addr.stored stack)

/-- Memory after the call, what is returned, and how many bytes were written to the address buffer. -/
structure Answer where
  mem : GuestMemory
  x0 : ℤ
  written : ℕ

section

variable (mem : GuestMemory) (result : ℤ) (addr : HostAddress) (addrPtr addrlenPtr : Word) (stack : ℕ → Byte)

def writeAddress : Answer where
  mem := ((mem.write addrPtr (addr.copied stack)).1.write addrlenPtr (leBytes 4 addr.bytes.length)).1
  x0 := result
  written := mem.reach addrPtr (addr.copied stack).length

def accept4 : Answer :=
  if result ≥ 0 ∧ addrPtr ≠ 0 then
    if addrlenPtr ≠ 0 then writeAddress mem result addr addrPtr addrlenPtr stack
    else ⟨(mem.write addrPtr (addr.copied stack)).1, result, mem.reach addrPtr (addr.copied stack).length⟩
  else ⟨mem, result, 0⟩

/-- What `getpeername` and `getsockname` have in common. -/
def socketName : Answer :=
  if result = 0 then writeAddress mem result addr addrPtr addrlenPtr stack else ⟨mem, result, 0⟩

def getpeername : Answer := socketName mem result addr addrPtr addrlenPtr stack

def getsockname : Answer := socketName mem result addr addrPtr addrlenPtr stack

end

/-! ### The caller's length -/

def lengthWord (mem : GuestMemory) (addrlenPtr : Word) : ℕ := ofLe (load mem.bytes addrlenPtr 4)

/-- No more bytes are written than the caller supplied room for, and the length word has the length of the address. -/
structure Bounded (mem : GuestMemory) (addrlenPtr : Word) (addr : HostAddress) (answer : Answer) : Prop where
  written : answer.written ≤ lengthWord mem addrlenPtr
  length : lengthWord answer.mem addrlenPtr = addr.bytes.length

/-- The address fits into the caller's buffer, or there is no memory behind the buffer. -/
def Fits (mem : GuestMemory) (addr : HostAddress) (addrPtr addrlenPtr : Word) : Prop :=
  addr.bytes.length ≤ lengthWord mem addrlenPtr ∨
    ∃ i, i ≤ lengthWord mem addrlenPtr ∧ mem.mapped (addrPtr + BitVec.ofNat 64 i) = false

section

variable {mem : GuestMemory} {result : ℤ} {addr : HostAddress} {addrPtr addrlenPtr : Word} {stack : ℕ → Byte}

lemma length_copied : (addr.copied stack).length = addr.bytes.length := by simp [HostAddress.copied]

lemma lengthWord_write (hword : mem.Mapped addrlenPtr 4) :
    lengthWord (mem.write addrlenPtr (leBytes 4 addr.bytes.length)).1 addrlenPtr = addr.bytes.length := by
  have hlen := length_leBytes 4 addr.bytes.length
  rw [lengthWord, GuestMemory.write_of_mapped (by rwa [hlen])]
  rw [load_store_leBytes (by decide), ofLe_leBytes]
  exact Nat.mod_eq_of_lt addr.lt

lemma bounded_writeAddress_iff (hword : mem.Mapped addrlenPtr 4) :
    Bounded mem addrlenPtr addr (writeAddress mem result addr addrPtr addrlenPtr stack) ↔
      Fits mem addr addrPtr addrlenPtr := by
  have hwritten : (writeAddress mem result addr addrPtr addrlenPtr stack).written ≤ lengthWord mem addrlenPtr ↔
      Fits mem addr addrPtr addrlenPtr := by
    show mem.reach addrPtr (addr.copied stack).length ≤ _ ↔ _
    rw [GuestMemory.reach_le_iff, length_copied]
    rfl
  rw [← hwritten]
  exact ⟨Bounded.written, fun h => ⟨h, lengthWord_write hword⟩⟩

end

/-- **When the caller's length bounds what is written**, in calls that give an address to the caller. -/
theorem bounded_iff (mem : GuestMemory) (addr : HostAddress) (addrPtr addrlenPtr : Word) (stack : ℕ → Byte)
    (hword : mem.Mapped addrlenPtr 4) :
    (∀ result, 0 ≤ result → addrPtr ≠ 0 → addrlenPtr ≠ 0 →
      (Bounded mem addrlenPtr addr (accept4 mem result addr addrPtr addrlenPtr stack) ↔
        Fits mem addr addrPtr addrlenPtr)) ∧
    (Bounded mem addrlenPtr addr (getpeername mem 0 addr addrPtr addrlenPtr stack) ↔
      Fits mem addr addrPtr addrlenPtr) ∧
    (Bounded mem addrlenPtr addr (getsockname mem 0 addr addrPtr addrlenPtr stack) ↔
      Fits mem addr addrPtr addrlenPtr) := by
  refine ⟨?_, bounded_writeAddress_iff hword, bounded_writeAddress_iff hword⟩
  intro result hres hptr hlen
  rw [accept4, if_pos ⟨hres, hptr⟩, if_pos hlen]
  exact bounded_writeAddress_iff hword

def inetAddress : HostAddress := ⟨[2, 0, 0x1f, 0x90, 127, 0, 0, 1, 0, 0, 0, 0, 0, 0, 0, 0], by decide⟩

/-- A caller at `0x1000` with a buffer at `0x2000`, and the length of it. -/
def callerWith (length : Byte) : GuestMemory := ⟨store (fun _ => 0) 0x1000 [length], fun _ => true⟩

theorem bounded_iff_caller :
    Bounded (callerWith 16) 0x1000 inetAddress (getsockname (callerWith 16) 0 inetAddress 0x2000 0x1000 fun _ => 0) :=
  (bounded_iff (callerWith 16) inetAddress 0x2000 0x1000 (fun _ => 0) ⟨by decide, fun _ _ => rfl⟩).2.2.2
    (.inl (by decide))

/-- With room for 8 bytes, all three write 16. -/
theorem address_overrun :
    lengthWord (callerWith 8) 0x1000 = 8 ∧
      (accept4 (callerWith 8) 3 inetAddress 0x2000 0x1000 fun _ => 0).written = 16 ∧
      (getpeername (callerWith 8) 0 inetAddress 0x2000 0x1000 fun _ => 0).written = 16 ∧
      (getsockname (callerWith 8) 0 inetAddress 0x2000 0x1000 fun _ => 0).written = 16 := by
  decide +kernel

end CrossShim.Network
