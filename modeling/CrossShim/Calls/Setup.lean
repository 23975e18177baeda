import CrossShim.Calls.SafeStack
import CrossShim.Lib.Arm64
import CrossShim.Memory.Contents

/-!
# Setting up a guest call

`call_function_internal_impl` up to the callee's first instruction.  A plain call puts the first eight arguments
into registers and the others into memory from the stack pointer on.  A safe call writes a frame with the target
and the register arguments into its chunk, the other arguments above it, and enters a trampoline in guest memory
that loads the registers from the frame.

`callSetup_ok_iff` says for which numbers of arguments the callee finds its arguments with the rest of memory
untouched.  A plain call with stack arguments never does: it does not move the stack pointer.
-/

namespace CrossShim.Calls

open Lib Lib.Arm64 Memory BitVec Function

/-! ### The machine -/

/-- The CPU of the calling thread and the guest's memory. -/
structure Machine where
  cpu : Cpu
  mm : MemoryManager

namespace Machine

variable {m : Machine}

/-- Write words to guest memory, in one `write`; the stacks are mapped, and QEMU takes the write. -/
def store (m : Machine) (address : Word) (ws : List Word) : Machine :=
  { m with mm := (m.mm.write .ok address (ofWords ws) (BitVec.ofNat 64 (8 * ws.length))).1 }

def storeArgs (m : Machine) (address : Word) : List Word → Machine
  | [] => m
  | w :: ws => (m.store address [w]).storeArgs (address + 8) ws

def setArgRegs (m : Machine) (args : List Word) : Machine :=
  { m with cpu := { m.cpu with
      x := fun r => if r.toNat < 8 then (args[r.toNat]?).getD (m.cpu.x r) else m.cpu.x r } }

def setLr (m : Machine) (address : Word) : Machine :=
  { m with cpu := { m.cpu with x := update m.cpu.x 30 address } }

/-- `start`, up to the run loop: the stack pointer is reset unless it points into a stack or into mapped
memory. -/
def start (config : EmulatorConfig) (base : Word) (m : Machine) (address : Word) : Machine :=
  let sp := m.cpu.sp
  let inMainStack := sp ≥ stackBase - config.stackSize ∧ sp ≤ stackBase
  let inSafeCallStack := sp ≥ base ∧ sp ≤ base + safeCallStackSize
  let inMappedStack := sp ≠ 0 ∧ m.mm.isMapped sp = true
  if sp = 0 ∨ (¬ inMainStack ∧ ¬ inSafeCallStack ∧ ¬ inMappedStack) then
    { m with cpu := { m.cpu with pc := address, sp := stackBase - 16 } }
  else { m with cpu := { m.cpu with pc := address } }

end Machine

open Machine

/-- The trampoline of safe calls, as `Emulator::initialize` writes it to guest memory. -/
def safeCallTrampoline : List (BitVec 32) :=
  [0x910003E9, 0xF9400130, 0xA9408520, 0xA9418D22, 0xA9429524, 0xA9439D26, 0x9101413F, 0xD61F0200]

/-- `SafeCallFrame`: the target and eight registers, zero where there is no argument. -/
def safeCallFrame (address : Word) (args : List Word) : List Word :=
  address :: (List.range 8).map fun i => args.getD i 0

/-- How a function is called; a safe call has the depth it is entered at. -/
inductive Mode where
  | plain
  | safe (depth : ℕ)
  deriving DecidableEq

/-- A safe call once it is known where its frame and its stack arguments go. -/
def safeSetup (config : EmulatorConfig) (base : Word) (m : Machine) (address : Word) (args : List Word)
    (targetSp frameBase : Word) : Machine :=
  let m₁ := m.store frameBase (safeCallFrame address args)
  let m₂ := m₁.storeArgs targetSp (args.drop 8)
  let m₃ := { m₂ with cpu := { m₂.cpu with sp := frameBase } }
  (m₃.setLr callReturnStub).start config base safeCallTrampolineAddr

/-- The machine when QEMU takes over, unless the call returns at once. -/
def callSetup (config : EmulatorConfig) (base : Word) (mode : Mode) (m : Machine) (address : Word)
    (args : List Word) : Option Machine :=
  match mode with
  | .plain =>
    let m₁ := m.setArgRegs args
    let m₂ := m₁.storeArgs m₁.cpu.sp (args.drop 8)
    some ((m₂.setLr callReturnStub).start config base address)
  | .safe depth =>
    (safeLayout base depth args.length).map fun l => safeSetup config base m address args l.targetSp l.frameBase

/-- A safe call on a stack of its own, the alternate stack of a signal handler. -/
def callSetupOnStack (config : EmulatorConfig) (base : Word) (m : Machine) (address stackTop : Word)
    (args : List Word) : Machine :=
  let targetSp := alignDown (stackTop - stackArgBytes args.length) 16
  safeSetup config base m address args targetSp (targetSp - safeCallContextSize)

def Mode.entrySteps : Mode → ℕ
  | .plain => 0
  | .safe _ => safeCallTrampoline.length

def Machine.enter (m : Machine) (mode : Mode) : Option Machine :=
  (m.cpu.run m.mm.guest mode.entrySteps).map fun c => { m with cpu := c }

/-! ### What the callee should find -/

def Mode.chunk (base : Word) : Mode → Set ℕ
  | .plain => ∅
  | .safe depth => span (base.toNat + 0x800000 - (depth + 1) * 0x100000) 0x100000

/-- The callee at `address` has its arguments, on a stack as aligned as before, and memory has changed only between the
two stack pointers and in the chunk. -/
structure Entered (m m' : Machine) (chunk : Set ℕ) (address : Word) (args : List Word) : Prop where
  pc : m'.cpu.pc = address
  regs : ∀ i w, i < 8 → args[i]? = some w → m'.cpu.x (BitVec.ofNat 5 i) = w
  stack : ∀ i w, args[8 + i]? = some w → readWord m'.mm.guest (m'.cpu.sp + BitVec.ofNat 64 (8 * i)) = w
  aligned : 16 ∣ m.cpu.sp.toNat → 16 ∣ m'.cpu.sp.toNat
  frame : ∀ x : Word, m'.mm.guest x ≠ m.mm.guest x →
    (m'.cpu.sp.toNat ≤ x.toNat ∧ x.toNat < m.cpu.sp.toNat) ∨ x.toNat ∈ chunk

/-- A call returns at once, or its callee is entered as it should be. -/
def CallOk (config : EmulatorConfig) (base : Word) (mode : Mode) (m : Machine) (address : Word)
    (args : List Word) : Prop :=
  ∀ s, callSetup config base mode m address args = some s →
    ∃ m', s.enter mode = some m' ∧ Entered m m' (mode.chunk base) address args

/-- QEMU runs, the stack pointer is in the main stack, and the trampoline is in place. -/
structure Ready (config : EmulatorConfig) (m : Machine) : Prop where
  qemu : m.mm.qemuReady = true
  sp : m.cpu.sp ≠ 0 ∧ m.cpu.sp ≥ stackBase - config.stackSize ∧ m.cpu.sp ≤ stackBase
  code : CodeAt m.mm.guest safeCallTrampolineAddr safeCallTrampoline

/-- Where the stack arguments of a safe call at this depth end. -/
def safeTop (base : Word) (depth : ℕ) : ℕ := base.toNat + 0x800000 - depth * 0x100000 - 0x100

/-- There is room for the arguments: a plain call has none on the stack, and those of a safe call do not reach below
address 0 (one that is too deep returns at once). -/
def Mode.Fits (base : Word) (n : ℕ) : Mode → Prop
  | .plain => n ≤ 8
  | .safe depth => 8 ≤ depth ∨ (stackArgBytes n).toNat + 0x50 ≤ safeTop base depth

/-! ### Stores -/

section Stores

variable {m : Machine}

lemma store_mm (hq : m.mm.qemuReady = true) (address : Word) (ws : List Word) : (m.store address ws).mm =
    { m.mm with guest := splice m.mm.guest address (ofWords ws) (BitVec.ofNat 64 (8 * ws.length)) } := by
  simp only [Machine.store, MemoryManager.write_ok hq]

lemma storeArgs_spec (ws : List Word) : ∀ (m : Machine) (address : Word), m.mm.qemuReady = true →
    (m.storeArgs address ws).cpu = m.cpu ∧
      (m.storeArgs address ws).mm = { m.mm with guest := storeWords m.mm.guest address ws } := by
  induction ws with
  | nil =>
    intro m address _
    exact ⟨rfl, rfl⟩
  | cons w ws ih =>
    intro m address hq
    have hmm := store_mm hq address [w]
    obtain ⟨h1, h2⟩ := ih (m.store address [w]) (address + 8) (by rw [hmm]; exact hq)
    refine ⟨h1, ?_⟩
    show ((m.store address [w]).storeArgs (address + 8) ws).mm = _
    rw [h2, hmm]
    rfl

end Stores

/-! ### The trampoline -/

/-- **The trampoline** loads the registers and the target from the frame, and leaves it. -/
theorem trampoline_run {mem : Bytes} {c : Cpu} (hcode : CodeAt mem safeCallTrampolineAddr safeCallTrampoline)
    (hpc : c.pc = safeCallTrampolineAddr) :
    ∃ c', c.run mem safeCallTrampoline.length = some c' ∧ c'.pc = readWord mem c.sp ∧ c'.sp = c.sp + 0x50 ∧
      ∀ i < 8, c'.x (BitVec.ofNat 5 i) = readWord mem (c.sp + 8 + BitVec.ofNat 64 (8 * i)) := by
  rw [← hpc] at hcode
  show ∃ c', c.run mem 8 = some c' ∧ _
  rw [run_cons hcode (show decode 0x910003E9 = some (.addImm 9 31 0) by decide),
    run_cons (by exact hcode.2) (show decode 0xF9400130 = some (.ldr 16 9 0) by decide),
    run_cons (by exact hcode.2.2) (show decode 0xA9408520 = some (.ldp 0 1 9 8) by decide),
    run_cons (by exact hcode.2.2.2) (show decode 0xA9418D22 = some (.ldp 2 3 9 0x18) by decide),
    run_cons (by exact hcode.2.2.2.2) (show decode 0xA9429524 = some (.ldp 4 5 9 0x28) by decide),
    run_cons (by exact hcode.2.2.2.2.2) (show decode 0xA9439D26 = some (.ldp 6 7 9 0x38) by decide),
    run_cons (by exact hcode.2.2.2.2.2.2) (show decode 0x9101413F = some (.addImm 31 9 0x50) by decide),
    run_cons (by exact hcode.2.2.2.2.2.2.2) (show decode 0xD61F0200 = some (.br 16) by decide)]
  refine ⟨_, rfl, ?_, ?_, fun i hi => ?_⟩
  · simp [Cpu.exec, Cpu.setSp, Cpu.set, Cpu.getSp, Cpu.get, update]
  · simp [Cpu.exec, Cpu.setSp, Cpu.set, Cpu.getSp, Cpu.get, update]
  · have hadd : ∀ k : ℕ, c.sp + 8 + BitVec.ofNat 64 k = c.sp + BitVec.ofNat 64 (8 + k) := by
      intro k
      rw [ofNat_add, add_assoc]
      rfl
    rw [hadd]
    rcases (by omega : i = 0 ∨ i = 1 ∨ i = 2 ∨ i = 3 ∨ i = 4 ∨ i = 5 ∨ i = 6 ∨ i = 7) with
      rfl | rfl | rfl | rfl | rfl | rfl | rfl | rfl <;>
      simp [Cpu.exec, Cpu.setSp, Cpu.set, Cpu.getSp, Cpu.get, update, add_assoc]

/-! ### The set-up of a safe call -/

lemma length_safeCallFrame (address : Word) (args : List Word) : (safeCallFrame address args).length = 9 := by
  simp [safeCallFrame]

variable {args : List Word} {config : EmulatorConfig} {base F : Word} {m : Machine}

lemma safeCallFrame_arg {i : ℕ} {w : Word} (address : Word) (hi : i < 8) (hw : args[i]? = some w) :
    (safeCallFrame address args)[i + 1]? = some w := by
  simp [safeCallFrame, hi, List.getD_eq_getElem?_getD, hw]

lemma stackArgBytes_spec {n : ℕ} (hn : n < 2 ^ 60) : 8 * (n - 8) ≤ (stackArgBytes n).toNat ∧
    (stackArgBytes n).toNat < 8 * (n - 8) + 16 ∧ 16 ∣ (stackArgBytes n).toNat := by
  by_cases h8 : n > 8
  · have hraw : (BitVec.ofNat 64 (n - 8) * 8 : Word).toNat = 8 * (n - 8) := by
      rw [toNat_mul, toNat_ofNat]
      show (n - 8) % 2 ^ 64 * 8 % 2 ^ 64 = _
      omega
    have hne : (BitVec.ofNat 64 (n - 8) * 8 : Word) ≠ 0 := by
      intro h
      rw [h] at hraw
      change 0 = _ at hraw
      omega
    have hroom : (BitVec.ofNat 64 (n - 8) * 8 : Word).toNat + (16 : Word).toNat ≤ 2 ^ 64 := by
      rw [hraw]
      show _ + 16 ≤ _
      omega
    have hs := alignUp_spec ⟨4, rfl⟩ hroom
    simp only [stackArgBytes, if_pos h8, if_neg hne]
    rw [hraw] at hs
    exact ⟨hs.2.1, hs.2.2, hs.1⟩
  · simp only [stackArgBytes, if_neg h8]
    exact ⟨by simp; omega, by simp, by simp⟩

/-- `start` leaves a stack pointer alone that points into a stack or into mapped memory. -/
lemma start_of_stack (address : Word) (h0 : m.cpu.sp ≠ 0)
    (h : (m.cpu.sp ≥ stackBase - config.stackSize ∧ m.cpu.sp ≤ stackBase) ∨
      (m.cpu.sp ≥ base ∧ m.cpu.sp ≤ base + safeCallStackSize) ∨ m.mm.isMapped m.cpu.sp = true) :
    m.start config base address = { m with cpu := { m.cpu with pc := address } } := by
  unfold start
  refine if_neg ?_
  rintro (h' | ⟨hmain, hsafe, hmapped⟩)
  · exact h0 h'
  · obtain h | h | h := h
    · exact hmain h
    · exact hsafe h
    · exact hmapped ⟨h0, h⟩

def safeImage (mem : Bytes) (address : Word) (args : List Word) (frameBase : Word) : Bytes :=
  splice (splice mem frameBase (ofWords (safeCallFrame address args)) 72) (frameBase + 0x50)
    (ofWords (args.drop 8)) (BitVec.ofNat 64 (8 * (args.length - 8)))

section SafeImage

variable (mem : Bytes) {address F w : Word} {args : List Word} {i : ℕ}

def ImageFits (F : Word) (args : List Word) : Prop :=
  args.length < 2 ^ 60 ∧ F.toNat + 0x50 + 8 * (args.length - 8) ≤ 2 ^ 64

lemma safeImage_of_notMem (h : ImageFits F args) {x : Word}
    (hx : x.toNat ∉ span F.toNat (0x50 + 8 * (args.length - 8))) : safeImage mem address args F x = mem x := by
  obtain ⟨hn, hw⟩ := h
  rw [mem_span] at hx
  unfold safeImage
  rw [splice_of_not_lt, splice_of_not_lt]
  · bv_omega
  · rw [lt_def, toNat_ofNat]
    bv_omega

lemma readWord_safeImage_frame (h : ImageFits F args) (hw : (safeCallFrame address args)[i]? = some w) :
    readWord (safeImage mem address args F) (F + BitVec.ofNat 64 (8 * i)) = w := by
  obtain ⟨hn, hwr⟩ := h
  have hlen := length_safeCallFrame address args
  have hi : i < 9 := hlen ▸ (List.getElem?_eq_some_iff.1 hw).1
  have hframe := readWord_splice_ofWords (m := mem) (a := F) (by omega) hw
  refine Eq.trans (readWord_congr fun j hj => splice_of_not_lt ?_) hframe
  rw [lt_def, toNat_ofNat]
  bv_omega

lemma readWord_safeImage_arg (h : ImageFits F args) (hw : args[8 + i]? = some w) :
    readWord (safeImage mem address args F) (F + 0x50 + BitVec.ofNat 64 (8 * i)) = w := by
  have hlen : 8 * (args.drop 8).length = 8 * (args.length - 8) := by rw [List.length_drop]
  unfold safeImage
  rw [← hlen]
  exact readWord_splice_ofWords (by have := h.1; omega) (by rw [List.getElem?_drop]; exact hw)

end SafeImage

lemma safeStores_spec (hq : m.mm.qemuReady = true) (address : Word) (F : Word) (hn : args.length < 2 ^ 60) :
    ((m.store F (safeCallFrame address args)).storeArgs (F + 0x50) (args.drop 8)).cpu = m.cpu ∧
      ((m.store F (safeCallFrame address args)).storeArgs (F + 0x50) (args.drop 8)).mm =
        { m.mm with guest := safeImage m.mm.guest address args F } := by
  have hmm := store_mm hq F (safeCallFrame address args)
  obtain ⟨h1, h2⟩ := storeArgs_spec (args.drop 8) (m.store F (safeCallFrame address args)) (F + 0x50)
    (by rw [hmm]; exact hq)
  rw [hmm, storeWords_eq _ _ _ (by rw [List.length_drop]; omega), length_safeCallFrame, List.length_drop] at h2
  exact ⟨h1, h2⟩

lemma start_mm (config : EmulatorConfig) (base : Word) (m : Machine) (address : Word) :
    (m.start config base address).mm = m.mm := by
  unfold start
  dsimp only
  split <;> rfl

lemma safeSetup_mm (config : EmulatorConfig) (base : Word) (hq : m.mm.qemuReady = true) (address : Word) (F : Word)
    (hn : args.length < 2 ^ 60) :
    (safeSetup config base m address args (F + 0x50) F).mm =
      { m.mm with guest := safeImage m.mm.guest address args F } :=
  (start_mm ..).trans (safeStores_spec hq address F hn).2

lemma safeSetup_eq (hq : m.mm.qemuReady = true) (address : Word) (hn : args.length < 2 ^ 60) (h0 : F ≠ 0)
    (h : (F ≥ stackBase - config.stackSize ∧ F ≤ stackBase) ∨ (F ≥ base ∧ F ≤ base + safeCallStackSize) ∨
      m.mm.isMapped F = true) :
    safeSetup config base m address args (F + 0x50) F =
      ⟨⟨update m.cpu.x 30 callReturnStub, F, safeCallTrampolineAddr⟩,
        { m.mm with guest := safeImage m.mm.guest address args F }⟩ := by
  obtain ⟨h1, h2⟩ := safeStores_spec hq address F hn
  unfold safeSetup
  rw [start_of_stack]
  · simp only [setLr]
    rw [h1, h2]
  · exact h0
  · simp only [setLr]
    rw [h2]
    exact h

/-- **The callee of a safe call** finds its arguments, and only the frame and the stack arguments are written. -/
theorem safeSetup_enter (config : EmulatorConfig) (base : Word) (hq : m.mm.qemuReady = true)
    (hcode : CodeAt m.mm.guest safeCallTrampolineAddr safeCallTrampoline) (address : Word) (hf : ImageFits F args)
    (h0 : F ≠ 0) (h : (F ≥ stackBase - config.stackSize ∧ F ≤ stackBase) ∨ (F ≥ base ∧ F ≤ base + safeCallStackSize) ∨
      m.mm.isMapped F = true) (hap : Apart F.toNat (0x50 + 8 * (args.length - 8)) safeCallTrampolineAddr.toNat 32)
    (depth : ℕ) :
    ∃ m', (safeSetup config base m address args (F + 0x50) F).enter (.safe depth) = some m' ∧
      m'.cpu.pc = address ∧ m'.cpu.sp = F + 0x50 ∧
      (∀ i w, i < 8 → args[i]? = some w → m'.cpu.x (BitVec.ofNat 5 i) = w) ∧
      (∀ i w, args[8 + i]? = some w → readWord m'.mm.guest (m'.cpu.sp + BitVec.ofNat 64 (8 * i)) = w) ∧
      ∀ x : Word, m'.mm.guest x ≠ m.mm.guest x → x.toNat ∈ span F.toNat (0x50 + 8 * (args.length - 8)) := by
  have hcode' : CodeAt (safeImage m.mm.guest address args F) safeCallTrampolineAddr safeCallTrampoline := by
    refine hcode.congr (by decide) fun x hx => safeImage_of_notMem _ hf fun hx' => ?_
    change x.toNat ∈ span safeCallTrampolineAddr.toNat 32 at hx
    simp only [mem_span, Apart] at *
    omega
  obtain ⟨c', hrun, hpc, hsp, hregs⟩ := trampoline_run
    (c := ⟨update m.cpu.x 30 callReturnStub, F, safeCallTrampolineAddr⟩) hcode' rfl
  refine ⟨⟨c', { m.mm with guest := safeImage m.mm.guest address args F }⟩, ?_, ?_, hsp, ?_, ?_, ?_⟩
  · rw [safeSetup_eq hq address hf.1 h0 h]
    exact congrArg (Option.map fun c => (⟨c, _⟩ : Machine)) hrun
  · have hread := readWord_safeImage_frame m.mm.guest hf (i := 0)
      (show (safeCallFrame address args)[0]? = some address from rfl)
    rw [show F + BitVec.ofNat 64 (8 * 0) = F by simp] at hread
    rw [hpc]
    exact hread
  · intro i w hi hw
    rw [hregs i hi]
    have hread := readWord_safeImage_frame m.mm.guest hf (safeCallFrame_arg address hi hw)
    rw [← hread]
    congr 1
    bv_omega
  · intro i w hw
    rw [hsp]
    exact readWord_safeImage_arg _ hf hw
  · intro x hx
    by_contra hmem
    exact hx (safeImage_of_notMem _ hf hmem)

/-! ### The layout of a safe call -/

structure SafeRegion (base : Word) : Prop where
  lo : 0xA0000000 ≤ base.toNat
  hi : base.toNat + 0x800000 ≤ 0xB0000000
  aligned : 16 ∣ base.toNat

lemma safeRegion_of_runs {clones : ℕ → Bool} {k : ℕ} {t : HostThread} (h : Runs (spawnVcpuWorkers clones k) t) :
    SafeRegion (safeStackBase t) := by
  have hreg := region_le (spawnVcpuWorkers_le clones k) h
  have hbase := safeStackBase_toNat hreg
  exact ⟨by omega, by omega, by omega⟩

section Layout

variable {base : Word} {depth n : ℕ}

lemma safeLayout_of_fits (hb : SafeRegion base) (hd : depth < 2 ^ 31) (hn : n < 2 ^ 60)
    (hf : Mode.Fits base n (.safe depth)) {l : SafeLayout} (h : safeLayout base depth n = some l) :
    depth < 8 ∧ l.targetSp = l.frameBase + 0x50 ∧
      l.frameBase.toNat + 0x50 + (stackArgBytes n).toNat = safeTop base depth ∧
      base.toNat + 0x800000 + 0x100 ≤ l.frameBase.toNat + (depth + 1) * 0x100000 := by
  obtain ⟨hlo, hhi, -⟩ := hb
  have hB := (stackArgBytes_spec hn).2.1
  change 8 ≤ depth ∨ (stackArgBytes n).toNat + 0x50 ≤ safeTop base depth at hf
  unfold safeTop at *
  simp only [safeLayout] at h
  split at h
  · cases h
  · rename_i hlt
    have h8 : depth < 8 := by bv_omega
    split at h
    · cases h
    · rename_i hle
      obtain rfl := Option.some.inj h
      refine ⟨h8, ?_, ?_, ?_⟩
      · bv_omega
      · simp only
        bv_omega
      · simp only
        bv_omega

/-- Arguments that do not fit are laid out from the top of the address space, unnoticed by the check of the chunk. -/
lemma safeLayout_of_not_fits (hb : SafeRegion base) (hf : ¬ Mode.Fits base n (.safe depth)) :
    ∃ l, safeLayout base depth n = some l ∧ l.targetSp = l.frameBase + 0x50 ∧
      l.targetSp = BitVec.ofNat 64 (safeTop base depth) - stackArgBytes n := by
  obtain ⟨hlo, hhi, -⟩ := hb
  change ¬ (8 ≤ depth ∨ (stackArgBytes n).toNat + 0x50 ≤ safeTop base depth) at hf
  unfold safeTop at *
  have hoff := stackOffset_toNat (show depth < 2 ^ 31 by omega)
  simp only [safeLayout]
  generalize BitVec.ofNat 64 depth * safeCallStackChunk = off at *
  rw [if_neg (by bv_omega), if_neg (by bv_omega)]
  refine ⟨_, rfl, ?_, ?_⟩
  · bv_omega
  · simp only
    bv_omega

end Layout

/-! ### When the callee finds its arguments -/

section Callee

variable {config : EmulatorConfig} {base x stackTop : Word} {m : Machine} {address : Word} {args : List Word}
  {mem : Bytes} {depth n : ℕ}

def plainImage (mem : Bytes) (sp : Word) (args : List Word) : Bytes :=
  splice mem sp (ofWords (args.drop 8)) (BitVec.ofNat 64 (8 * (args.length - 8)))

lemma plainImage_of_le {sp : Word} (hn : args.length ≤ 8) : plainImage mem sp args = mem := by
  unfold plainImage
  rw [show args.length - 8 = 0 by omega]
  exact splice_zero

/-- The machine after the set-up of a plain call: the stack pointer is where it was. -/
lemma callSetup_plain (hr : Ready config m) (hn : args.length < 2 ^ 60) :
    callSetup config base .plain m address args =
      some ⟨⟨update (m.setArgRegs args).cpu.x 30 callReturnStub, m.cpu.sp, address⟩,
        { m.mm with guest := plainImage m.mm.guest m.cpu.sp args }⟩ := by
  obtain ⟨h1, h2⟩ := storeArgs_spec (args.drop 8) (m.setArgRegs args) m.cpu.sp hr.qemu
  rw [storeWords_eq _ _ _ (by rw [List.length_drop]; omega), List.length_drop] at h2
  refine congrArg some ?_
  rw [start_of_stack]
  · simp only [setLr]
    rw [show (m.setArgRegs args).cpu.sp = m.cpu.sp from rfl, h1, h2]
    rfl
  · simp only [setLr]
    rw [show (m.setArgRegs args).cpu.sp = m.cpu.sp from rfl, h1]
    exact hr.sp.1
  · simp only [setLr]
    rw [show (m.setArgRegs args).cpu.sp = m.cpu.sp from rfl, h1]
    exact .inl hr.sp.2

lemma callOk_plain (hr : Ready config m) (hn : args.length ≤ 8) : CallOk config base .plain m address args := by
  intro s hs
  rw [callSetup_plain hr (by omega), plainImage_of_le hn] at hs
  cases hs
  refine ⟨_, rfl, rfl, fun i w hi hw => ?_, fun i w hw => ?_, id, fun x hx => ?_⟩
  · have hi5 : (BitVec.ofNat 5 i).toNat = i := by
      rw [toNat_ofNat]
      omega
    have hne : BitVec.ofNat 5 i ≠ 30 := by bv_omega
    show update (m.setArgRegs args).cpu.x 30 _ _ = w
    rw [update_of_ne hne]
    show (if (BitVec.ofNat 5 i).toNat < 8 then _ else _) = w
    rw [hi5, if_pos hi, hw]
    rfl
  · rw [List.getElem?_eq_none (by omega)] at hw
    cases hw
  · exact absurd rfl hx

lemma callOk_safe (hr : Ready config m) (hb : SafeRegion base) (hd : depth < 2 ^ 31) (hn : args.length < 2 ^ 60)
    (hf : Mode.Fits base args.length (.safe depth)) : CallOk config base (.safe depth) m address args := by
  intro s hs
  obtain ⟨l, hl, rfl⟩ := Option.map_eq_some_iff.1 hs
  obtain ⟨h8, htarget, htop, hchunk⟩ := safeLayout_of_fits hb hd hn hf hl
  obtain ⟨hlo, hhi, hb16⟩ := hb
  obtain ⟨hB, -, hB16⟩ := stackArgBytes_spec hn
  unfold safeTop at htop
  have hsafe : l.frameBase ≥ base ∧ l.frameBase ≤ base + safeCallStackSize := by
    constructor <;> bv_omega
  have hap : Apart l.frameBase.toNat (0x50 + 8 * (args.length - 8)) safeCallTrampolineAddr.toNat 32 := by
    right
    rw [show safeCallTrampolineAddr.toNat = 0x100FFF80 from rfl]
    omega
  obtain ⟨m', hm', hpc, hsp, hregs, hstack, hframe⟩ := safeSetup_enter config base hr.qemu hr.code address
    ⟨hn, by omega⟩ (by bv_omega) (.inr (.inl hsafe)) hap depth
  rw [htarget]
  refine ⟨m', hm', hpc, hregs, hstack, fun _ => ?_, fun x hx => .inr ?_⟩
  · have hsum : (l.frameBase + 0x50).toNat = l.frameBase.toNat + 0x50 := by bv_omega
    rw [hsp, hsum]
    omega
  · have hmem := hframe x hx
    show x.toNat ∈ span _ _
    rw [mem_span] at *
    omega

/-- A call does not do what it should if a byte changes at or above the stack pointer and outside the chunk. -/
lemma not_callOk {mode : Mode} {s : Machine} (hs : callSetup config base mode m address args = some s)
    (hx : s.mm.guest x ≠ m.mm.guest x) (hsp : m.cpu.sp.toNat ≤ x.toNat) (hc : x.toNat ∉ mode.chunk base) :
    ¬ CallOk config base mode m address args := by
  intro hok
  obtain ⟨m', hm', hent⟩ := hok s hs
  obtain ⟨c, -, rfl⟩ := Option.map_eq_some_iff.1 hm'
  obtain h | h := hent.frame x hx
  · omega
  · exact hc h

lemma splice_args_ne {a : Word} {b : Byte} (hn : args.length < 2 ^ 60)
    (hne : ∀ k (i : Word), i.toNat < 8 * (args.length - k) → ofWords (args.drop k) i ≠ b)
    (hx : (x - a).toNat < 8 * (args.length - 8)) :
    splice mem a (ofWords (args.drop 8)) (BitVec.ofNat 64 (8 * (args.length - 8))) x ≠ b := by
  rw [splice_of_lt]
  · exact hne 8 _ hx
  · rw [lt_def, toNat_ofNat]
    omega

/-- Some plain call with more than eight arguments overwrites the byte at the stack pointer. -/
lemma exists_not_callOk_plain (hr : Ready config m) (address : Word) (h8 : 8 < n) (hn : n < 2 ^ 60) :
    ∃ args : List Word, args.length = n ∧ ¬ CallOk config base .plain m address args := by
  obtain ⟨args, rfl, hne⟩ := exists_ofWords_ne (m.mm.guest m.cpu.sp) n
  refine ⟨args, rfl, not_callOk (callSetup_plain hr hn) (splice_args_ne hn hne ?_) le_rfl (Set.notMem_empty _)⟩
  rw [sub_self]
  show 0 < _
  omega

/-- Some safe call with too many arguments for its stack overwrites the byte at `0x90000000`. -/
lemma exists_not_callOk_safe (hr : Ready config m) (hb : SafeRegion base) (address : Word) (hn : n < 2 ^ 60)
    (hf : ¬ Mode.Fits base n (.safe depth)) :
    ∃ args : List Word, args.length = n ∧ ¬ CallOk config base (.safe depth) m address args := by
  obtain ⟨l, hl, htarget, htop⟩ := safeLayout_of_not_fits hb hf
  obtain ⟨args, rfl, hne⟩ := exists_ofWords_ne (m.mm.guest 0x90000000) n
  obtain ⟨hlo, hhi, -⟩ := hb
  obtain ⟨-, hB, -⟩ := stackArgBytes_spec hn
  change ¬ (8 ≤ depth ∨ (stackArgBytes args.length).toNat + 0x50 ≤ safeTop base depth) at hf
  have hset : callSetup config base (.safe depth) m address args =
      some (safeSetup config base m address args l.targetSp l.frameBase) := congrArg (Option.map _) hl
  refine ⟨args, rfl, not_callOk (x := 0x90000000) hset ?_ ?_ ?_⟩
  · rw [htarget, safeSetup_mm config base hr.qemu address _ hn]
    refine splice_args_ne hn hne ?_
    rw [← htarget, htop]
    unfold safeTop at *
    bv_omega
  · have hsp : m.cpu.sp.toNat ≤ 0x80000000 := hr.sp.2.2
    show _ ≤ 0x90000000
    omega
  · intro hmem
    have hge : base.toNat + 0x800000 - (depth + 1) * 0x100000 ≤ 0x90000000 := hmem.1
    omega

/-- **When a call is entered as it should be**: for every thread and machine, exactly if the arguments fit. -/
theorem callSetup_ok_iff {clones : ℕ → Bool} {k : ℕ} {t : HostThread} (ht : Runs (spawnVcpuWorkers clones k) t)
    (hr : Ready config m) (address : Word) {mode : Mode} (hd : ∀ depth, mode = .safe depth → depth < 2 ^ 31)
    {n : ℕ} (hn : n < 2 ^ 60) :
    (∀ args : List Word, args.length = n → CallOk config (safeStackBase t) mode m address args) ↔
      mode.Fits (safeStackBase t) n := by
  have hb := safeRegion_of_runs ht
  constructor
  · intro h
    by_contra hf
    obtain ⟨args, hlen, hno⟩ : ∃ args : List Word, args.length = n ∧
        ¬ CallOk config (safeStackBase t) mode m address args := by
      cases mode with
      | plain => exact exists_not_callOk_plain hr address (Nat.lt_of_not_le hf) hn
      | safe depth => exact exists_not_callOk_safe hr hb address hn hf
    exact hno (h args hlen)
  · rintro hf args rfl
    cases mode with
    | plain => exact callOk_plain hr hf
    | safe depth => exact callOk_safe hr hb (hd depth rfl) hn hf

lemma onStack_frame {bytes : Word} (hroom : bytes.toNat + 0x60 < stackTop.toNat) :
    ∃ F : Word, alignDown (stackTop - bytes) 16 = F + 0x50 ∧ F ≠ 0 ∧ 16 ∣ (F + 0x50).toNat ∧
      stackTop.toNat ≤ F.toNat + bytes.toNat + 0x60 ∧ F.toNat + 0x50 + bytes.toNat ≤ stackTop.toNat := by
  have halign := alignDown_toNat (v := stackTop - bytes) (show (16 : Word).toNat = 2 ^ 4 from rfl)
  have hsub : (stackTop - bytes).toNat = stackTop.toNat - bytes.toNat := by bv_omega
  rw [hsub] at halign
  have hF : (alignDown (stackTop - bytes) 16 - 0x50).toNat + 0x50 = (alignDown (stackTop - bytes) 16).toNat := by
    bv_omega
  have hadd : alignDown (stackTop - bytes) 16 - 0x50 + 0x50 = alignDown (stackTop - bytes) 16 := by bv_omega
  refine ⟨alignDown (stackTop - bytes) 16 - 0x50, hadd.symm, ?_, ?_, ?_, ?_⟩
  · intro h
    rw [h] at hF
    change 0 + 0x50 = _ at hF
    omega
  · rw [hadd]
    omega
  · omega
  · omega

end Callee

/-- A machine as `Emulator::initialize` leaves it, with the trampoline in guest memory. -/
def bootMachine : Machine where
  cpu := ⟨fun _ => 0, stackBase - 16, 0⟩
  mm :=
    { MemoryManager.init (MemoryManager.initialRegions {}) with
      qemuReady := true
      guest := splice (fun _ => 0) safeCallTrampolineAddr
        (ofWords [0xF9400130910003E9, 0xA9418D22A9408520, 0xA9439D26A9429524, 0xD61F02009101413F]) 32 }

lemma ready_bootMachine : Ready {} bootMachine where
  qemu := rfl
  sp := by decide
  code := ⟨by decide, by decide, by decide, by decide, by decide, by decide, by decide, by decide, trivial⟩

theorem callSetup_ok_iff_nine_safe :
    (∀ args : List Word, args.length = 9 →
      CallOk {} (safeStackBase .emulator) (.safe 1) bootMachine 0x1000 args) ↔
      Mode.Fits (safeStackBase .emulator) 9 (.safe 1) := by
  have ht : Runs (spawnVcpuWorkers (fun _ => true) 0) .emulator := trivial
  exact callSetup_ok_iff ht ready_bootMachine 0x1000 (fun depth h => by cases h; decide) (by decide)

/-- **A plain call with nine arguments** overwrites the caller's stack. -/
theorem callSetup_plain_overwrites : ¬ ∀ (clones : ℕ → Bool) (k : ℕ) (t : HostThread) (config : EmulatorConfig)
    (m : Machine) (address : Word) (mode : Mode) (args : List Word), Runs (spawnVcpuWorkers clones k) t →
    Ready config m → (∀ depth, mode = .safe depth → depth < 2 ^ 31) → args.length < 2 ^ 60 →
    CallOk config (safeStackBase t) mode m address args := by
  intro h
  have hok := h (fun _ => true) 0 .emulator {} bootMachine 0x1000 .plain [1, 2, 3, 4, 5, 6, 7, 8, 9] trivial
    ready_bootMachine nofun (by decide)
  exact not_callOk (callSetup_plain ready_bootMachine (by decide)) (x := stackBase - 16) (by decide) le_rfl
    (Set.notMem_empty _) hok

end CrossShim.Calls
