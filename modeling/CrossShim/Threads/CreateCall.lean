import CrossShim.Lib.Arm64
import CrossShim.Threads.Registry

/-!
# A call of `pthread_create`

The whole call, as the caller sees it when no other thread comes in between: the steps of the creation one after the
other (`drive`), and then the clone trampoline, whose instructions decide what the guest finds in `X0`.

The trampoline tests the result of the system call for 0 only, and then clears `X0`: an error looks like success
(`clone_error_unnoticed`).  `CleanCreate` is the condition under which the call does what it says.
-/

namespace CrossShim.Threads

open Lib Lib.Arm64 Function

/-! ### The trampoline -/

def cloneTrampolineAddr : Word := 0x10080000
def threadWrapperAddr : Word := 0x10080100

/-- The words `write_thread_wrapper` writes at `CLONE_TRAMPOLINE_ADDR`. -/
def trampolineCode : List (BitVec 32) :=
  [0xD4000001, 0xB50000A0, 0xD28246C8, 0xD4000001, 0x1400003C, 0x00000000, 0xD2800000, 0xD65F03C0]

def sysClone : Word := 220

/-- The CPU as `pthread_create` leaves it. -/
def cloneCpu (lr sp stackTop tlsBase : Word) : Cpu where
  x r :=
    if r = 0 then 0x3D0F00
    else if r = 1 then stackTop
    else if r = 2 then stackTop + 24
    else if r = 3 then tlsBase
    else if r = 4 then stackTop + 32
    else if r = 8 then sysClone
    else if r = 30 then lr
    else 0
  sp := sp
  pc := cloneTrampolineAddr

/-- The trampoline, where `clone` answers `result` and the other system calls answer `other`. -/
def runTrampoline (result other : Word) (c : Cpu) : Left :=
  c.runCall (image cloneTrampolineAddr trampolineCode) (fun c => if c.x 8 = sysClone then result else other) 8

section Trampoline

variable {result other : Word} {c : Cpu}

def Cpu.answered (c : Cpu) (result : Word) : Cpu := ⟨Function.update c.x 0 result, c.sp, 0x10080004⟩

lemma runTrampoline_svc (hpc : c.pc = cloneTrampolineAddr) (h8 : c.x 8 = sysClone) (n : ℕ) :
    c.runCall (image cloneTrampolineAddr trampolineCode) (fun c => if c.x 8 = sysClone then result else other) (n + 1) =
      (Cpu.answered c result).runCall (image cloneTrampolineAddr trampolineCode)
        (fun c => if c.x 8 = sysClone then result else other) n := by
  refine runCall_next _ (.stub (.svc 0)) _ hpc (by decide) ?_
  simp only [Cpu.execCall, Cpu.set, if_neg (show ¬ (0 : BitVec 5) = 31 by decide), if_pos h8, hpc]
  rfl

lemma answered_get : (Cpu.answered c result).get 0 = result := by
  show (if (0 : BitVec 5) = 31 then 0 else update c.x 0 result 0) = result
  rw [if_neg (by decide), update_self]

/-- **In the parent** the call returns to its caller, with 0: also when the system call has failed. -/
theorem trampoline_parent (hpc : c.pc = cloneTrampolineAddr) (h8 : c.x 8 = sysClone) (hr : result ≠ 0) :
    ∃ c', runTrampoline result other c = .returned c' ∧ c'.x 0 = 0 ∧ c'.pc = c.x 30 := by
  have hcbnz : (Cpu.answered c result).execCall (fun c => if c.x 8 = sysClone then result else other) (.cbnz 0 20) =
      (⟨(Cpu.answered c result).x, c.sp, 0x10080018⟩, false) := by
    simp only [Cpu.execCall, answered_get, ne_eq, hr, not_false_eq_true, if_true]
    rfl
  unfold runTrampoline
  rw [runTrampoline_svc hpc h8, runCall_next 0x10080004 _ _ rfl (by decide) hcbnz,
    runCall_next 0x10080018 (.stub (.movz 0 0)) ⟨update (Cpu.answered c result).x 0 0, c.sp, 0x1008001C⟩ rfl
      (by decide) rfl,
    runCall_ret 0x1008001C (.stub (.ret 30)) _ rfl (by decide) rfl]
  refine ⟨_, rfl, ?_, ?_⟩
  · show update (update c.x 0 result) 0 0 0 = 0
    rw [update_self]
  · show update (update c.x 0 result) 0 0 30 = c.x 30
    rw [update_of_ne (by decide), update_of_ne (by decide)]

/-- **In the child** the trampoline goes on to the thread wrapper. -/
theorem trampoline_child (hpc : c.pc = cloneTrampolineAddr) (h8 : c.x 8 = sysClone) :
    ∃ c', runTrampoline 0 other c = .elsewhere c' ∧ c'.pc = threadWrapperAddr := by
  have hcbnz : (Cpu.answered c 0).execCall (fun c => if c.x 8 = sysClone then 0 else other) (.cbnz 0 20) =
      (⟨(Cpu.answered c 0).x, c.sp, 0x10080008⟩, false) := by
    simp only [Cpu.execCall, answered_get, ne_eq, not_true_eq_false, if_false]
    rfl
  unfold runTrampoline
  rw [runTrampoline_svc hpc h8, runCall_next 0x10080004 _ _ rfl (by decide) hcbnz,
    runCall_next 0x10080008 (.stub (.movz 8 0x1236)) ⟨update (Cpu.answered c 0).x 8 0x1236, c.sp, 0x1008000C⟩
      rfl (by decide) rfl,
    runCall_next 0x1008000C (.stub (.svc 0))
      ⟨update (update (Cpu.answered c 0).x 8 0x1236) 0 other, c.sp, 0x10080010⟩ rfl (by decide) rfl,
    runCall_next 0x10080010 (.b 0xF0)
      ⟨update (update (Cpu.answered c 0).x 8 0x1236) 0 other, c.sp, threadWrapperAddr⟩ rfl
      (by decide) rfl,
    runCall_elsewhere threadWrapperAddr rfl (by decide)]
  exact ⟨_, rfl, rfl⟩

end Trampoline

/-! ### The call -/

/-- What `pthread_create` is given, whether the scheduling attributes are accepted, and the caller's link register and
stack pointer. -/
structure Request where
  startRoutine : Word
  detachstate : BitVec 32 := 0
  stackAddr : Word := 0
  stackSize : Word := guestDefaultPthreadStackSize
  schedOk : Bool := true
  exitInProgress : Bool := false
  lr : Word := 0
  sp : Word := 0

def Request.args (r : Request) : CreateArgs :=
  ⟨r.startRoutine, r.detachstate, r.stackAddr, r.stackSize, if r.schedOk then none else some einval, r.exitInProgress⟩

/-- What the call finds outside: whether its regions can be mapped, what `clone` answers in the parent (a thread id, or
a negative error), and what the other system call of the trampoline does. -/
structure World where
  mapStack : Bool
  mapTls : Bool
  clone : { result : Word // result ≠ 0 }
  other : Word := 0

def World.starts (w : World) : Bool := 0 < w.clone.1.toInt

namespace State

def advance (s : State) (n : ℕ) (w : World) : Option State :=
  match s.phase n with
  | .begun _ => s.takeStack n
  | .tookStack _ _ _ => s.commitStack n w.mapStack
  | .stacked _ _ => s.takeTls n
  | .tookTls _ _ _ _ => s.commitTls n w.mapTls
  | .ready _ _ _ => s.register n
  | .registered _ _ => s.clone n w.starts
  | _ => none

def drive (n : ℕ) (w : World) : ℕ → State → State
  | 0, s => s
  | k + 1, s =>
    match s.advance n w with
    | none => s
    | some s' => drive n w k s'

def callCpu (s : State) (n : ℕ) (r : Request) : Cpu :=
  match s.threads.find? (tid n) with
  | none => cloneCpu r.lr r.sp 0 0
  | some t => cloneCpu r.lr r.sp t.stackBase t.tlsBase

end State

/-- What a call has done: the state, what it returned, and whether there is a new thread. -/
structure Created where
  state : State
  returned : Option Word
  started : Bool

/-- What a guest function that was left by a return has in `X0`. -/
def Left.x0 : Left → Option Word
  | .returned c => some (c.x 0)
  | _ => none

/-- The new thread has come to the thread wrapper. -/
def Left.inWrapper : Left → Bool
  | .elsewhere c => c.pc = threadWrapperAddr
  | _ => false

/-- `pthread_create`, up to its return. -/
def State.pthreadCreate (s : State) (r : Request) (w : World) : Created :=
  match s.create r.args with
  | .error e => ⟨s, some e, false⟩
  | .ok s₁ =>
    let s' := s₁.drive s.nextThreadId w 6
    if r.exitInProgress then ⟨s', some 0, false⟩
    else
      match s'.phase s.nextThreadId with
      | .failed e => ⟨s', some e, false⟩
      | _ =>
        let c := s'.callCpu s.nextThreadId r
        ⟨s', Left.x0 (runTrampoline w.clone.1 w.other c), w.starts && Left.inWrapper (runTrampoline 0 w.other c)⟩

def Arena.left (k : Kind) (a : Arena) : ℕ := a.free.length + (k.ceiling - a.next).toNat / k.size.toNat

/-- The call returns 0 exactly if there is a new thread, and an error has left nothing behind. -/
structure CreateOk (s : State) (c : Created) : Prop where
  returns : c.returned.isSome
  zero : c.returned = some 0 ↔ c.started = true
  undone : ∀ e, c.returned = some e → e ≠ 0 → c.state.threads = s.threads ∧
    (∀ k, (c.state.arena k).left k = (s.arena k).left k) ∧ c.state.vmas.count = s.vmas.count

/-! ### The condition -/

def Vmas.held (v : Vmas) (key : Word) : ℕ := (v.reservations.find? key).getD 0

def Arena.upcoming (k : Kind) (a : Arena) : Word := a.free.headD a.next + k.offset

def Arena.Exhausted (k : Kind) (a : Arena) : Prop := a.free = [] ∧ k.ceiling < a.next + k.size

/-- An allocation fails, where `count` mappings are there already. -/
def AllocFails (k : Kind) (a : Arena) (count : ℕ) (mapOk : Bool) : Prop :=
  a.Exhausted k ∨ guestVmaLimit < count + k.vmas ∨ (a.free = [] ∧ mapOk = false)

/-- An allocation fails and leaves nothing behind: the arena is exhausted; or the budget is, for a recycled region; or a
new region cannot be mapped, and nothing was held under its address. -/
def AllocUndone (k : Kind) (a : Arena) (v : Vmas) (count : ℕ) (mapOk : Bool) : Prop :=
  a.Exhausted k ∨ (guestVmaLimit < count + k.vmas ∧ a.free ≠ []) ∨
    (count + k.vmas ≤ guestVmaLimit ∧ a.free = [] ∧ mapOk = false ∧ v.held (a.upcoming k) = 0)

def Attr.stackVmas (attr : Attr) : ℕ := if attr.stackAddr = 0 then Kind.stack.vmas else 0

/-- The condition: the arguments are refused; or the process is not exiting, and the allocation of the stack, or of the
TLS block, fails and leaves nothing behind, or both succeed and `clone` starts a thread. -/
def CleanCreate (s : State) (r : Request) (w : World) : Prop :=
  match checkAttr r.args with
  | .error _ => True
  | .ok attr =>
    r.exitInProgress = false ∧
      ((attr.stackAddr = 0 ∧ AllocUndone .stack (s.arena .stack) s.vmas s.vmas.count w.mapStack) ∨
        ((attr.stackAddr = 0 → ¬ AllocFails .stack (s.arena .stack) s.vmas.count w.mapStack) ∧
          ((AllocUndone .tls (s.arena .tls) s.vmas (s.vmas.count + attr.stackVmas) w.mapTls ∧
              (attr.stackAddr = 0 → s.vmas.held ((s.arena .stack).upcoming .stack) = 0)) ∨
            (¬ AllocFails .tls (s.arena .tls) (s.vmas.count + attr.stackVmas) w.mapTls ∧ w.starts = true))))

/-- `clone` fails with `EAGAIN`, and the call returns 0 without a new thread. -/
theorem clone_error_unnoticed :
    ¬ CreateOk State.init (State.init.pthreadCreate { startRoutine := 0x1000 } ⟨true, true, ⟨-11, by decide⟩, 0⟩) := by
  intro h
  have hreturned : (State.init.pthreadCreate { startRoutine := 0x1000 }
      ⟨true, true, ⟨-11, by decide⟩, 0⟩).returned = some 0 := rfl
  have hstarted : (State.init.pthreadCreate { startRoutine := 0x1000 }
      ⟨true, true, ⟨-11, by decide⟩, 0⟩).started = false := rfl
  exact absurd (hstarted.symm.trans (h.zero.1 hreturned)) nofun

end CrossShim.Threads
