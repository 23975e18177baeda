import CrossShim.Calls.Setup

/-!
# The stubs of HLE functions

The guest reaches a host function through a stub of three instructions that makes a system call with the number of
the function.  `HleManager::register_defaults` places one stub after the other from `HLE_BASE` on, and
`Emulator::initialize` then writes the code that sets the thread pointer, and two trampolines, to fixed places of
the same region.

The thread-pointer code is at `HLE_BASE + 0x10`, inside the second stub: every other stub is as it should be, and
every other two pieces of code are apart (`stubs_iff`).
-/

namespace CrossShim.Hle

open Lib Lib.Arm64 List Function

abbrev hleSyscallBase : ℕ := 0x2000
abbrev hleSyscallCapacity : ℕ := 0x1000

/-- The tables of `HleManager`, the table of system calls, and the memory the code is written to. -/
structure HleManager where
  callbacks : List String
  stubAddresses : String → Option Word
  addressToName : Word → Option String
  nextStubAddr : Word
  nextHleSyscall : ℕ
  hleSyscallToAddr : ℕ → Word
  mem : Bytes

open HleManager

/-- A trampoline that `register_defaults` writes: its name, its address and its instruction. -/
structure Trampoline where
  name : String
  address : Word
  insn : BitVec 32
  deriving DecidableEq

abbrev retInsn : BitVec 32 := 0xD65F03C0

def resumeTrampolines : List Trampoline :=
  [⟨"__thread_exit", hleBase + 0xFFFF0, 0x14000000⟩,
    ⟨"__pthread_cond_wait_resume", hleBase + 0xFFFF4, retInsn⟩,
    ⟨"__pthread_join_resume", hleBase + 0xFFFF8, retInsn⟩,
    ⟨"__pthread_mutex_lock_resume", hleBase + 0xFFFEC, retInsn⟩,
    ⟨"__blocking_recv_resume", hleBase + 0xFFFE0, retInsn⟩,
    ⟨"__blocking_send_resume", hleBase + 0xFFFE4, retInsn⟩,
    ⟨"__blocking_accept_resume", hleBase + 0xFFFE8, retInsn⟩,
    ⟨"__blocking_read_resume", hleBase + 0xFFFC0, retInsn⟩,
    ⟨"__blocking_write_resume", hleBase + 0xFFFC4, retInsn⟩,
    ⟨"__blocking_epoll_wait_resume", hleBase + 0xFFFC8, retInsn⟩,
    ⟨"__blocking_recvfrom_resume", hleBase + 0xFFFCC, retInsn⟩,
    ⟨"__blocking_sendto_resume", hleBase + 0xFFFD0, retInsn⟩,
    ⟨"__pthread_barrier_wait_resume", hleBase + 0xFFFDC, retInsn⟩,
    ⟨"__pthread_rwlock_rdlock_resume", hleBase + 0xFFFD8, retInsn⟩,
    ⟨"__pthread_rwlock_wrlock_resume", hleBase + 0xFFFD4, retInsn⟩]

/-- `MOVZ X8, #n; SVC #0; RET`. -/
def stubCode (syscallNum : ℕ) : List (BitVec 32) :=
  [0xD2800008 ||| ((BitVec.ofNat 32 syscallNum &&& 0xFFFF) <<< 5), 0xD4000001, retInsn]

/-- `MOV X8, #SYS_CALL_RETURN; SVC #0; RET`. -/
def callReturnTrampoline : List (BitVec 32) := [0xD2824708, 0xD4000001, retInsn]

abbrev tlsInitAddr : Word := hleBase + 0x10

/-- `MSR TPIDR_EL0, X0`. -/
abbrev msrTpidrInsn : BitVec 32 := 0xD51BD040

namespace HleManager

def init (mem : Bytes) : HleManager := ⟨[], fun _ => none, fun _ => none, hleBase, hleSyscallBase, fun _ => 0, mem⟩

variable (h : HleManager)

/-- `MemoryManager::write` of instructions to the mapped region. -/
def write (address : Word) (code : List (BitVec 32)) : HleManager :=
  { h with mem := splice h.mem address (ofHalves code) (BitVec.ofNat 64 (4 * code.length)) }

def registerTrampoline (t : Trampoline) : HleManager :=
  { h with
    addressToName := update h.addressToName t.address (some t.name)
    callbacks := h.callbacks ++ [t.name] }.write t.address [t.insn]

def allocateStub (name : String) : Word × HleManager :=
  let addr := h.nextStubAddr
  let h' := { h with nextStubAddr := addr + 12, nextHleSyscall := h.nextHleSyscall + 1 }
  if h.nextHleSyscall ≥ hleSyscallBase + hleSyscallCapacity then
    (0, { h' with
      stubAddresses := update h.stubAddresses name none
      addressToName := update h.addressToName addr none })
  else
    (addr, { h' with
      stubAddresses := update h.stubAddresses name (some addr)
      addressToName := update h.addressToName addr (some name)
      hleSyscallToAddr := update h.hleSyscallToAddr (h.nextHleSyscall - hleSyscallBase) addr }.write addr
        (stubCode h.nextHleSyscall))

def getStubAddress (name : String) : Word × HleManager :=
  match h.stubAddresses name with
  | some addr => (addr, h)
  | none => if name ∈ h.callbacks then h.allocateStub name else (0, h)

/-- The trampolines, the functions of the `register_…` calls, and a stub for each name, in the order of the iterator. -/
def registerDefaults (mem : Bytes) (functions order : List String) : HleManager :=
  let h := resumeTrampolines.foldl registerTrampoline (init mem)
  order.foldl (fun h name => (h.getStubAddress name).2) { h with callbacks := h.callbacks ++ functions }

/-- What `Emulator::initialize` writes after `register_defaults`. -/
def writeInitCode : HleManager :=
  ((((h.write 0 [retInsn]).write tlsInitAddr [msrTpidrInsn]).write (tlsInitAddr + 4) [retInsn]).write
    safeCallTrampolineAddr Calls.safeCallTrampoline).write callReturnStub callReturnTrampoline

/-- The HLE functions after `Emulator::initialize`. -/
def emulatorInitialize (mem : Bytes) (functions order : List String) : HleManager :=
  (registerDefaults mem functions order).writeInitCode

/-- The address a stub's system call is looked up under. -/
def syscallAddress (sysNum : ℕ) : Option Word :=
  if hleSyscallBase ≤ sysNum ∧ sysNum - hleSyscallBase < hleSyscallCapacity ∧
      h.hleSyscallToAddr (sysNum - hleSyscallBase) ≠ 0 then
    some (h.hleSyscallToAddr (sysNum - hleSyscallBase))
  else none

/-- The stub makes the system call that is looked up under its address, which has the name of the function. -/
def StubOk (name : String) : Prop :=
  let addr := (h.getStubAddress name).1
  ∃ n : BitVec 16, decodeStub (readHalf h.mem addr) = some (.movz 8 n) ∧
    decodeStub (readHalf h.mem (addr + 4)) = some (.svc 0) ∧
    decodeStub (readHalf h.mem (addr + 8)) = some (.ret 30) ∧
    h.syscallAddress n.toNat = some addr ∧ h.addressToName addr = some name

end HleManager

inductive Area where
  | stub (name : String)
  | resume (t : Trampoline)
  | safeCall
  | callReturn
  | tlsInit
  deriving DecidableEq

def Area.extent (h : HleManager) : Area → ℕ × ℕ
  | .stub name => ((h.getStubAddress name).1.toNat, 12)
  | .resume t => (t.address.toNat, 4)
  | .safeCall => (safeCallTrampolineAddr.toNat, 32)
  | .callReturn => (callReturnStub.toNat, 12)
  | .tlsInit => (tlsInitAddr.toNat, 8)

def Area.bytes (h : HleManager) (a : Area) : Set ℕ := span (a.extent h).1 (a.extent h).2

def callbackNames (functions : List String) : List String := resumeTrampolines.map Trampoline.name ++ functions

def Area.Written (functions : List String) : Area → Prop
  | .stub name => name ∈ callbackNames functions
  | .resume t => t ∈ resumeTrampolines
  | _ => True

/-- The order in which the iterator of `callbacks_` gives the names, each once. -/
structure Iterates (functions order : List String) : Prop where
  nodup : order.Nodup
  mem_iff : ∀ name, name ∈ order ↔ name ∈ callbackNames functions

/-! ### Allocation -/

def stubAddr (i : ℕ) : Word := hleBase + BitVec.ofNat 64 (12 * i)

/-- The stubs of these names have been allocated, in this order. -/
structure Allocated (h : HleManager) (names : List String) : Prop where
  next : h.nextStubAddr = stubAddr names.length
  syscall : h.nextHleSyscall = hleSyscallBase + names.length
  addr : ∀ i name, names[i]? = some name → h.stubAddresses name = some (stubAddr i)
  fresh : ∀ name, name ∉ names → h.stubAddresses name = none
  name : ∀ i name, names[i]? = some name → h.addressToName (stubAddr i) = some name
  table : ∀ i < names.length, h.hleSyscallToAddr i = stubAddr i
  code : ∀ i < names.length, CodeAt h.mem (stubAddr i) (stubCode (hleSyscallBase + i))

section Allocation

variable {h : HleManager} {names : List String} {name : String} {i j : ℕ}

lemma stubAddr_toNat (hi : i ≤ 0x1000) : (stubAddr i).toNat = 0x10000000 + 12 * i := by
  unfold stubAddr
  have hb : hleBase.toNat = 0x10000000 := rfl
  rw [BitVec.toNat_add, BitVec.toNat_ofNat, hb]
  omega

lemma stubAddr_injective (hi : i ≤ 0x1000) (hj : j ≤ 0x1000) (h : stubAddr i = stubAddr j) : i = j := by
  have := congrArg BitVec.toNat h
  rw [stubAddr_toNat hi, stubAddr_toNat hj] at this
  omega

lemma codeAt_write {a b : Word} {code ws : List (BitVec 32)} (hc : CodeAt h.mem a ws)
    (ha : a.toNat + 4 * ws.length < 2 ^ 64) (hb : b.toNat + 4 * code.length < 2 ^ 64)
    (hap : Apart b.toNat (4 * code.length) a.toNat (4 * ws.length)) : CodeAt (h.write b code).mem a ws := by
  have hn : (BitVec.ofNat 64 (4 * code.length)).toNat = 4 * code.length := by
    rw [BitVec.toNat_ofNat, Nat.mod_eq_of_lt (by omega)]
  refine hc.congr ha fun x hx => splice_of_apart (by omega) (b := a.toNat) (l := 4 * ws.length) ?_ hx
  rwa [hn]

lemma stubAddr_succ (i : ℕ) : stubAddr (i + 1) = stubAddr i + 12 := by
  unfold stubAddr
  rw [Nat.mul_add, BitVec.ofNat_add, ← BitVec.add_assoc]
  rfl

lemma getElem?_snoc {nm : String} (hi : (names ++ [name])[i]? = some nm) :
    names[i]? = some nm ∨ (i = names.length ∧ nm = name) := by
  rw [getElem?_append] at hi
  split_ifs at hi with hlt
  · exact .inl hi
  · rw [getElem?_singleton] at hi
    split_ifs at hi with h0
    exact .inr ⟨by omega, (Option.some.inj hi).symm⟩

lemma Allocated.code_write (ha : Allocated h names) (hcap : names.length < 0x1000) (hi : i < names.length + 1) :
    CodeAt (h.write h.nextStubAddr (stubCode h.nextHleSyscall)).mem (stubAddr i) (stubCode (hleSyscallBase + i)) := by
  rw [ha.next, ha.syscall]
  by_cases hlast : i = names.length
  · subst hlast
    exact codeAt_splice (by simp [stubCode])
  · have h1 := stubAddr_toNat (i := i) (by omega)
    have h2 := stubAddr_toNat hcap.le
    refine codeAt_write (ha.code i (by omega)) ?_ ?_ ?_ <;>
    · simp only [stubCode, length_cons, length_nil, Apart]
      omega

/-- **The next stub.** -/
theorem Allocated.allocate (ha : Allocated h names) (hnew : name ∉ names) (hcap : names.length < 0x1000) :
    Allocated (h.allocateStub name).2 (names ++ [name]) := by
  have hsys : ¬ h.nextHleSyscall ≥ hleSyscallBase + hleSyscallCapacity := by
    rw [ha.syscall]
    unfold hleSyscallBase hleSyscallCapacity
    omega
  have hlen : (names ++ [name]).length = names.length + 1 := by simp
  unfold allocateStub
  rw [if_neg hsys]
  refine ⟨?_, ?_, fun i nm hi => ?_, fun nm hnm => ?_, fun i nm hi => ?_, fun i hi => ?_, fun i hi => ?_⟩
  · rw [hlen, stubAddr_succ, ← ha.next]
    rfl
  · rw [hlen]
    simp only [write, ha.syscall]
    omega
  · simp only [write]
    rcases getElem?_snoc hi with hold | ⟨rfl, rfl⟩
    · have hnm : nm ≠ name := by
        rintro rfl
        exact hnew (mem_of_getElem? hold)
      rw [update_of_ne hnm]
      exact ha.addr i nm hold
    · rw [update_self, ha.next]
  · rw [mem_append, mem_singleton, not_or] at hnm
    simp only [write]
    rw [update_of_ne hnm.2]
    exact ha.fresh nm hnm.1
  · simp only [write]
    rcases getElem?_snoc hi with hold | ⟨rfl, rfl⟩
    · have hlt : i < names.length := (List.getElem?_eq_some_iff.1 hold).1
      have hne : stubAddr i ≠ h.nextStubAddr := by
        rw [ha.next]
        exact fun heq => hlt.ne (stubAddr_injective (by omega) hcap.le heq)
      rw [update_of_ne hne]
      exact ha.name i nm hold
    · rw [← ha.next, update_self]
  · rw [hlen] at hi
    simp only [write, ha.syscall, Nat.add_sub_cancel_left]
    by_cases hlast : i = names.length
    · rw [hlast, update_self, ha.next]
    · rw [update_of_ne hlast]
      exact ha.table i (by omega)
  · rw [hlen] at hi
    exact ha.code_write hcap hi

theorem Allocated.getAll : ∀ {rest names : List String} {h : HleManager}, Allocated h names →
    (names ++ rest).Nodup → (names ++ rest).length ≤ 0x1000 → (∀ name ∈ rest, name ∈ h.callbacks) →
    Allocated (rest.foldl (fun h name => (h.getStubAddress name).2) h) (names ++ rest)
  | [], names, h, ha, _, _, _ => by
    rw [append_nil]
    exact ha
  | name :: rest, names, h, ha, hnd, hlen, hcb => by
    have hnew : name ∉ names := fun hm => by
      have := nodup_append.1 hnd
      exact this.2.2 name hm name (mem_cons_self ..) rfl
    have hget : (h.getStubAddress name).2 = (h.allocateStub name).2 := by
      unfold getStubAddress
      rw [ha.fresh name hnew, if_pos (hcb name (mem_cons_self ..))]
    have hcallbacks : (h.allocateStub name).2.callbacks = h.callbacks := by
      unfold allocateStub
      split_ifs <;> rfl
    rw [append_cons] at hnd hlen ⊢
    rw [foldl_cons, hget]
    refine (ha.allocate hnew ?_).getAll hnd hlen fun nm hnm => ?_
    · simp only [length_append, length_singleton] at hlen
      omega
    · rw [hcallbacks]
      exact hcb nm (mem_cons_of_mem _ hnm)

lemma registerTrampolines_spec (ts : List Trampoline) : ∀ h : HleManager,
    let h' := ts.foldl registerTrampoline h
    h'.callbacks = h.callbacks ++ ts.map Trampoline.name ∧ h'.stubAddresses = h.stubAddresses ∧
      h'.nextStubAddr = h.nextStubAddr ∧ h'.nextHleSyscall = h.nextHleSyscall := by
  induction ts with
  | nil => exact fun h => ⟨(append_nil _).symm, rfl, rfl, rfl⟩
  | cons t ts ih =>
    intro h
    obtain ⟨h1, h2, h3, h4⟩ := ih (h.registerTrampoline t)
    refine ⟨?_, h2, h3, h4⟩
    rw [foldl_cons, h1, map_cons, append_cons]
    rfl

/-- **All stubs are allocated**, in the order of the iterator. -/
theorem registerDefaults_allocated (mem : Bytes) {functions order : List String} (hit : Iterates functions order)
    (hlen : order.length ≤ 0x1000) : Allocated (registerDefaults mem functions order) order := by
  obtain ⟨hcb, hstub, hnext, hsys⟩ := registerTrampolines_spec resumeTrampolines (.init mem)
  unfold registerDefaults
  dsimp only
  have hnone : Allocated { resumeTrampolines.foldl registerTrampoline (.init mem) with
      callbacks := (resumeTrampolines.foldl registerTrampoline (.init mem)).callbacks ++ functions } [] := by
    refine ⟨hnext, hsys, fun i name hi => ?_, fun name _ => congrFun hstub name, fun i name hi => ?_,
      fun i hi => absurd hi (Nat.not_lt_zero i), fun i hi => absurd hi (Nat.not_lt_zero i)⟩ <;>
    · rw [getElem?_nil] at hi
      cases hi
  refine hnone.getAll hit.nodup hlen fun name hname => ?_
  rw [hit.mem_iff] at hname
  simp only [hcb]
  exact hname

end Allocation

/-! ### After `Emulator::initialize` -/

lemma movz_mask (n : ℕ) : BitVec.ofNat 32 n &&& 0xFFFF = (BitVec.ofNat 16 n).setWidth 32 := by
  apply BitVec.eq_of_toNat_eq
  rw [BitVec.toNat_and, BitVec.toNat_setWidth, BitVec.toNat_ofNat, BitVec.toNat_ofNat]
  show n % 2 ^ 32 &&& (2 ^ 16 - 1) = _
  rw [Nat.and_two_pow_sub_one_eq_mod]
  omega

section Final

variable {h : HleManager} {names : List String} {i : ℕ} {name : String}

/-- The code written last, at the end of the region, leaves other code alone. -/
lemma codeAt_tail {a : Word} {ws : List (BitVec 32)} (hc : CodeAt h.mem a ws)
    (hlow : a.toNat + 4 * ws.length ≤ 0x100FFF00) (hret : Apart 0x10000014 4 a.toNat (4 * ws.length)) :
    CodeAt (((h.write (tlsInitAddr + 4) [retInsn]).write safeCallTrampolineAddr Calls.safeCallTrampoline).write
      callReturnStub callReturnTrampoline).mem a ws := by
  have h3 : (tlsInitAddr + 4 : Word).toNat = 0x10000014 := rfl
  have h4 : safeCallTrampolineAddr.toNat = 0x100FFF80 := rfl
  have h5 : callReturnStub.toNat = 0x100FFF00 := rfl
  have hs : Calls.safeCallTrampoline.length = 8 := rfl
  have hr : callReturnTrampoline.length = 3 := rfl
  have ha : a.toNat + 4 * ws.length < 2 ^ 64 := by omega
  unfold Apart at hret
  refine codeAt_write (codeAt_write (codeAt_write hc ha ?_ ?_) ha ?_ ?_) ha ?_ ?_ <;>
  · simp only [hs, hr, length_singleton, Apart]
    omega

lemma code_final (hi : i < 0x1000) (h1 : i ≠ 1) (hc : CodeAt h.mem (stubAddr i) (stubCode (hleSyscallBase + i))) :
    CodeAt h.writeInitCode.mem (stubAddr i) (stubCode (hleSyscallBase + i)) := by
  have haddr := stubAddr_toNat hi.le
  have hlen : (stubCode (hleSyscallBase + i)).length = 3 := rfl
  have h0 : (0 : Word).toNat = 0 := rfl
  have h2 : tlsInitAddr.toNat = 0x10000010 := rfl
  refine codeAt_tail (codeAt_write (codeAt_write hc ?_ ?_ ?_) ?_ ?_ ?_) ?_ ?_ <;>
  · simp only [hlen, length_singleton, Apart]
    omega

lemma msr_final (h : HleManager) : readHalf h.writeInitCode.mem tlsInitAddr = msrTpidrInsn := by
  have hc : CodeAt ((h.write 0 [retInsn]).write tlsInitAddr [msrTpidrInsn]).mem tlsInitAddr [msrTpidrInsn] :=
    codeAt_splice (by decide)
  exact (codeAt_tail hc (by decide) (by decide)).1

lemma Allocated.getStubAddress (ha : Allocated h names) (hi : names[i]? = some name) :
    (h.writeInitCode.getStubAddress name).1 = stubAddr i := by
  have haddr : h.writeInitCode.stubAddresses name = some (stubAddr i) := ha.addr i name hi
  unfold HleManager.getStubAddress
  rw [haddr]

/-- **A stub other than the second** makes the call of its function. -/
theorem Allocated.stubOk (ha : Allocated h names) (hlen : names.length ≤ 0x1000) (hi : names[i]? = some name)
    (h1 : i ≠ 1) : h.writeInitCode.StubOk name := by
  have hlt : i < names.length := (List.getElem?_eq_some_iff.1 hi).1
  obtain ⟨hmov, hsvc, hret, -⟩ := code_final (by omega) h1 (ha.code i hlt)
  have hn : (BitVec.ofNat 16 (hleSyscallBase + i)).toNat = 0x2000 + i := by
    unfold hleSyscallBase
    rw [BitVec.toNat_ofNat]
    omega
  have htable : h.writeInitCode.hleSyscallToAddr i = stubAddr i := ha.table i hlt
  unfold StubOk
  rw [ha.getStubAddress hi]
  refine ⟨BitVec.ofNat 16 (hleSyscallBase + i), ?_, ?_, ?_, ?_, ha.name i name hi⟩
  · rw [movz_mask] at hmov
    exact (congrArg decodeStub hmov).trans (decode_movz _)
  · exact (congrArg decodeStub hsvc).trans (by decide)
  · rw [BitVec.add_assoc] at hret
    exact (congrArg decodeStub hret).trans (by decide)
  · have hz : stubAddr i ≠ 0 := fun h0 => by
      have := congrArg BitVec.toNat h0
      rw [stubAddr_toNat (by omega)] at this
      change 0x10000000 + 12 * i = 0 at this
      omega
    unfold syscallAddress
    rw [hn, show 0x2000 + i - hleSyscallBase = i by unfold hleSyscallBase; omega, htable, if_pos]
    exact ⟨by unfold hleSyscallBase; omega, by unfold hleSyscallCapacity; omega, hz⟩

lemma Allocated.not_stubOk (ha : Allocated h names) (hi : names[1]? = some name) : ¬ h.writeInitCode.StubOk name := by
  rintro ⟨n, -, hsvc, -⟩
  rw [ha.getStubAddress hi] at hsvc
  have hmsr : readHalf h.writeInitCode.mem (stubAddr 1 + 4) = msrTpidrInsn := msr_final h
  rw [hmsr] at hsvc
  exact absurd hsvc (by decide)

end Final

/-! ### The pieces of code -/

/-- The two pieces are the second stub and the thread-pointer code. -/
def Clash (order : List String) (a b : Area) : Prop :=
  ∃ name, order[1]? = some name ∧ ((a = .stub name ∧ b = .tlsInit) ∨ (a = .tlsInit ∧ b = .stub name))

def Area.High : Area → Prop
  | .resume t => t ∈ resumeTrampolines
  | .safeCall => True
  | .callReturn => True
  | _ => False

section Areas

variable {h : HleManager} {functions order : List String} {a b : Area}

lemma resume_range : ∀ t ∈ resumeTrampolines, 0x100FFFC0 ≤ t.address.toNat ∧ t.address.toNat ≤ 0x100FFFF8 := by
  decide

lemma resume_pairwise : resumeTrampolines.Pairwise fun t t' => Apart t.address.toNat 4 t'.address.toNat 4 := by
  decide

lemma Area.High.le (ha : a.High) : 0x100FFF00 ≤ (a.extent h).1 := by
  cases a with
  | resume t => exact le_trans (by decide) (resume_range t ha).1
  | safeCall => exact (by decide : 0x100FFF00 ≤ safeCallTrampolineAddr.toNat)
  | callReturn => exact (by decide : 0x100FFF00 ≤ callReturnStub.toNat)
  | stub name | tlsInit => exact ha.elim

lemma Area.High.apart (ha : a.High) (hb : b.High) (hne : a ≠ b) :
    Apart (a.extent h).1 (a.extent h).2 (b.extent h).1 (b.extent h).2 := by
  have hs : safeCallTrampolineAddr.toNat = 0x100FFF80 := rfl
  have hr : callReturnStub.toNat = 0x100FFF00 := rfl
  cases a with
  | stub name | tlsInit => exact ha.elim
  | resume t =>
    have ht := resume_range t ha
    cases b with
    | stub name | tlsInit => exact hb.elim
    | resume t' =>
      have hsymm : Std.Symm fun t t' : Trampoline => Apart t.address.toNat 4 t'.address.toNat 4 := ⟨fun _ _ h => h.symm⟩
      exact resume_pairwise.forall ha hb fun heq => hne (congrArg Area.resume heq)
    | safeCall | callReturn => simp only [extent, Apart]; omega
  | safeCall | callReturn =>
    cases b with
    | stub name | tlsInit => exact hb.elim
    | resume t =>
      have ht := resume_range t hb
      simp only [extent, Apart]
      omega
    | safeCall | callReturn =>
      first
      | exact absurd rfl hne
      | simp only [extent, Apart]; omega

lemma Area.Written.cases (hit : Iterates functions order) (ha : Allocated h order) (hlen : order.length ≤ 0x1000)
    (hw : a.Written functions) :
    (∃ i name, a = .stub name ∧ order[i]? = some name ∧ i < order.length ∧
      a.extent h.writeInitCode = (0x10000000 + 12 * i, 12)) ∨
      (a = .tlsInit ∧ a.extent h.writeInitCode = (0x10000010, 8)) ∨ a.High := by
  cases a with
  | stub name =>
    obtain ⟨i, hi, hget⟩ := List.getElem_of_mem ((hit.mem_iff name).2 hw)
    have hi' : order[i]? = some name := List.getElem?_eq_some_iff.2 ⟨hi, hget⟩
    refine .inl ⟨i, name, rfl, hi', hi, ?_⟩
    simp only [extent]
    rw [ha.getStubAddress hi', stubAddr_toNat (by omega)]
  | resume t => exact .inr (.inr hw)
  | safeCall | callReturn => exact .inr (.inr trivial)
  | tlsInit => exact .inr (.inl ⟨rfl, rfl⟩)

lemma Clash.symm (hc : Clash order a b) : Clash order b a := by
  obtain ⟨name, h1, h | h⟩ := hc
  · exact ⟨name, h1, .inr h.symm⟩
  · exact ⟨name, h1, .inl h.symm⟩

lemma stub_apart_iff (hit : Iterates functions order) (ha : Allocated h order) (hlen : order.length ≤ 0x1000)
    {name : String} (hne : .stub name ≠ b) (hwa : (Area.stub name).Written functions) (hwb : b.Written functions) :
    Apart ((Area.stub name).extent h.writeInitCode).1 ((Area.stub name).extent h.writeInitCode).2
      (b.extent h.writeInitCode).1 (b.extent h.writeInitCode).2 ↔ ¬ Clash order (.stub name) b := by
  rcases hwa.cases hit ha hlen with ⟨i, _, heq, hi, hlt, he⟩ | ⟨h, -⟩ | hh
  · cases heq
    rcases hwb.cases hit ha hlen with ⟨j, name', rfl, hj, hlt', he'⟩ | ⟨rfl, he'⟩ | hh'
    · have hij : i ≠ j := by
        rintro rfl
        exact hne (congrArg Area.stub (Option.some.inj (hi.symm.trans hj)))
      refine iff_of_true ?_ (by rintro ⟨_, _, ⟨-, h⟩ | ⟨h, -⟩⟩ <;> cases h)
      rw [he, he']
      unfold Apart
      omega
    · have hclash : Clash order (.stub name) .tlsInit ↔ i = 1 := by
        constructor
        · rintro ⟨name', h1, ⟨h, -⟩ | ⟨h, -⟩⟩
          · cases h
            exact (getElem?_inj hlt hit.nodup).1 (hi.trans h1.symm)
          · cases h
        · rintro rfl
          exact ⟨name, hi, .inl ⟨rfl, rfl⟩⟩
      rw [hclash, he, he']
      unfold Apart
      omega
    · have hle := hh'.le (h := h.writeInitCode)
      refine iff_of_true ?_ ?_
      · rw [he]
        unfold Apart
        omega
      · rintro ⟨_, _, ⟨-, rfl⟩ | ⟨h, -⟩⟩
        · exact hh'
        · cases h
  · cases h
  · exact hh.elim

/-- **The pieces of code are apart**, but for the second stub and the thread-pointer code. -/
theorem disjoint_iff (hit : Iterates functions order) (ha : Allocated h order) (hlen : order.length ≤ 0x1000)
    (hne : a ≠ b) (hwa : a.Written functions) (hwb : b.Written functions) :
    Disjoint (a.bytes h.writeInitCode) (b.bytes h.writeInitCode) ↔ ¬ Clash order a b := by
  have hpos : ∀ c : Area, 0 < (c.extent h.writeInitCode).2 := by
    rintro (_ | _ | _ | _ | _) <;> exact Nat.succ_pos _
  unfold Area.bytes
  rw [← apart_iff_disjoint (hpos a) (hpos b)]
  have hother : ∀ {c : Area}, c = .tlsInit ∨ c.High → ∀ name, c ≠ .stub name := by
    rintro c (rfl | hh) name h
    · cases h
    · subst h
      exact hh.elim
  rcases hwa.cases hit ha hlen with ⟨_, _, rfl, -⟩ | hlow
  · exact stub_apart_iff hit ha hlen hne hwa hwb
  rcases hwb.cases hit ha hlen with ⟨_, _, rfl, -⟩ | hlow'
  · exact Iff.trans ⟨Apart.symm, Apart.symm⟩
      ((stub_apart_iff hit ha hlen hne.symm hwb hwa).trans (not_congr ⟨Clash.symm, Clash.symm⟩))
  refine iff_of_true ?_ ?_
  · rcases hlow with ⟨rfl, he⟩ | hh <;> rcases hlow' with ⟨rfl, he'⟩ | hh'
    · exact absurd rfl hne
    · have hle := hh'.le (h := h.writeInitCode)
      rw [he]
      unfold Apart
      omega
    · have hle := hh.le (h := h.writeInitCode)
      rw [he']
      unfold Apart
      omega
    · exact hh.apart hh' hne
  · rintro ⟨name, -, ⟨h, -⟩ | ⟨-, h⟩⟩
    · exact hother (hlow.imp_left And.left) name h
    · exact hother (hlow'.imp_left And.left) name h

end Areas

/-- **The code of the HLE region** after `Emulator::initialize`, for every set of functions and every order of the
iterator: a stub makes the call of its function exactly when it is not the second one, and two pieces of code are
disjoint exactly when they are not that stub and the thread-pointer code. -/
theorem stubs_iff (mem : Bytes) {functions order : List String} (hit : Iterates functions order)
    (hlen : order.length ≤ hleSyscallCapacity) :
    (∀ name ∈ callbackNames functions,
      (emulatorInitialize mem functions order).StubOk name ↔ order[1]? ≠ some name) ∧
      ∀ a b : Area, a ≠ b → a.Written functions → b.Written functions →
        (Disjoint (a.bytes (emulatorInitialize mem functions order))
          (b.bytes (emulatorInitialize mem functions order)) ↔ ¬ Clash order a b) := by
  have ha := registerDefaults_allocated mem hit hlen
  refine ⟨fun name hname => ?_, fun a b hne hwa hwb => disjoint_iff hit ha hlen hne hwa hwb⟩
  obtain ⟨i, hi, hget⟩ := List.getElem_of_mem ((hit.mem_iff name).2 hname)
  have hi' : order[i]? = some name := List.getElem?_eq_some_iff.2 ⟨hi, hget⟩
  constructor
  · exact fun hok h1 => ha.not_stubOk h1 hok
  · intro h1
    refine ha.stubOk hlen hi' ?_
    rintro rfl
    exact h1 hi'

def someNames : List String := ["malloc", "free", "memcpy"]

lemma iterates_in_order : Iterates someNames (callbackNames someNames) := ⟨by decide, fun _ => Iff.rfl⟩

theorem stubs_iff_in_order :
    let m := emulatorInitialize (fun _ => 0) someNames (callbackNames someNames)
    m.StubOk "malloc" ∧ m.StubOk "free" ∧ m.StubOk "memcpy" := by
  have hstub := (stubs_iff (fun _ => 0) iterates_in_order (by decide)).1
  exact ⟨(hstub _ (by decide)).2 (by decide), (hstub _ (by decide)).2 (by decide), (hstub _ (by decide)).2 (by decide)⟩

/-- **The thread-pointer code overwrites a stub**: the second one does not make the call of its function. -/
theorem second_stub_overwritten : ¬ ∀ (mem : Bytes) (functions order : List String), Iterates functions order →
    order.length ≤ hleSyscallCapacity →
      (∀ name ∈ callbackNames functions, (emulatorInitialize mem functions order).StubOk name) ∧
        ∀ a b : Area, a ≠ b → a.Written functions → b.Written functions →
          Disjoint (a.bytes (emulatorInitialize mem functions order))
            (b.bytes (emulatorInitialize mem functions order)) := by
  intro h
  have hok := (h (fun _ => 0) _ _ iterates_in_order (by decide)).1 "__pthread_cond_wait_resume" (by decide)
  exact (registerDefaults_allocated _ iterates_in_order (by decide)).not_stubOk rfl hok

end CrossShim.Hle
