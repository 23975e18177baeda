import CrossShim.Lib.Mask
import CrossShim.Lib.Runs
import CrossShim.Lib.Word

/-!
# Guest signals

The signal state of `hle_signal.cpp`: what is installed for each signal, which signals are blocked, pending and active,
and the calls of the guest that work on it.

A handler is called in the middle of `deliver_guest_signal`, so the guest code of the handler runs while the call that
delivers the signal waits in a frame (`Frame`).  The frame keeps what the call does afterwards: put back the mask, take
the signal out of the active ones, and deliver it once more if it has become pending meanwhile.  A jump out of a handler
sets the registers of the guest and leaves the frames where they are.
-/

namespace CrossShim.Signals

open Lib Mask Function

/-- The valid signals, counted from 0: the signal with the number `signum` is `signum - 1`. -/
abbrev Signal := Fin 64

/-- `valid_signal`, with the signal. -/
def Signal.ofNum (signum : ℤ) : Option Signal :=
  if h : 1 ≤ signum ∧ signum ≤ 64 then some ⟨(signum - 1).toNat, by omega⟩ else none

def sigkill : Signal := 9 - 1
def sigstop : Signal := 19 - 1
/-- `GUEST_RESERVED_SIGTIMER`. -/
def sigtimer : Signal := 32 - 1
/-- `GUEST_RESERVED_SIGCANCEL`. -/
def sigcancel : Signal := 33 - 1

/-- `ignorable_signal`. -/
def Signal.Ignorable (sig : Signal) : Prop := sig ≠ sigkill ∧ sig ≠ sigstop

instance (sig : Signal) : Decidable sig.Ignorable := inferInstanceAs (Decidable (_ ∧ _))

def nonblockableSignalMask : Word := bit sigkill ||| bit sigstop

def normalizeProcessMask (mask : Word) : Word :=
  (mask ||| bit sigtimer) &&& ~~~bit sigcancel &&& ~~~nonblockableSignalMask

def normalizeHandlerMask (mask : Word) : Word := mask &&& ~~~nonblockableSignalMask

lemma has_nonblockableSignalMask {sig : Signal} : Has nonblockableSignalMask sig ↔ ¬ sig.Ignorable := by
  simp only [nonblockableSignalMask, has_or, has_bit, Signal.Ignorable, not_and_or, not_not]

lemma has_normalizeProcessMask {mask : Word} {sig : Signal} :
    Has (normalizeProcessMask mask) sig ↔ (Has mask sig ∨ sig = sigtimer) ∧ sig ≠ sigcancel ∧ sig.Ignorable := by
  simp only [normalizeProcessMask, has_and, has_or, has_not, has_bit, has_nonblockableSignalMask, not_not, and_assoc,
    ne_eq]

lemma has_normalizeHandlerMask {mask : Word} {sig : Signal} :
    Has (normalizeHandlerMask mask) sig ↔ Has mask sig ∧ sig.Ignorable := by
  simp only [normalizeHandlerMask, has_and, has_not, has_nonblockableSignalMask, not_not]

def sigDfl : Word := 0
def sigIgn : Word := 1
def sigHold : Word := 2
def sigErr : Word := -1

def saSiginfo : BitVec 32 := 0x4
def saOnstack : BitVec 32 := 0x08000000
def saNodefer : BitVec 32 := 0x40000000

/-- `guest_sigaction_arm64`. -/
structure SigAction where
  saFlags : BitVec 32 := 0
  handlerPtr : Word := 0
  maskBits : Word := 0
  deriving DecidableEq

namespace SigAction

def HasFlag (a : SigAction) (flag : BitVec 32) : Prop := a.saFlags &&& flag ≠ 0

instance (a : SigAction) (flag : BitVec 32) : Decidable (a.HasFlag flag) := inferInstanceAs (Decidable (_ ≠ _))

def Caught (a : SigAction) : Prop := a.handlerPtr ≠ sigDfl ∧ a.handlerPtr ≠ sigIgn

instance (a : SigAction) : Decidable a.Caught := inferInstanceAs (Decidable (_ ∧ _))

end SigAction

/-- `guest_signal_info`. -/
structure SignalInfo where
  siCode : ℤ := 0
  sivalInt : ℤ := 0
  hasSigval : Bool := false
  deriving DecidableEq

/-- `guest_altstack_state`; its flags are `SS_DISABLE` or 0. -/
structure Altstack where
  ssSp : Word := 0
  ssSize : Word := 0
  disabled : Bool := true
  onStack : Bool := false
  deriving DecidableEq

def Altstack.Usable (a : Altstack) : Prop := a.disabled = false ∧ a.onStack = false ∧ a.ssSp ≠ 0 ∧ a.ssSize ≠ 0

instance (a : Altstack) : Decidable a.Usable := inferInstanceAs (Decidable (_ ∧ _ ∧ _ ∧ _))

/-- A guest `stack_t`. -/
structure StackT where
  ssSp : Word
  ssFlags : BitVec 32
  ssSize : Word
  deriving DecidableEq

inductive Errno where
  | EINTR
  | EAGAIN
  | EFAULT
  | EINVAL
  | EPERM
  deriving DecidableEq

/-- `errno` as a register value. -/
def Errno.toWord : Errno → Word
  | EINTR => 4
  | EAGAIN => 11
  | EFAULT => 14
  | EINVAL => 22
  | EPERM => 1

/-- What a call stores through a pointer that is not null. -/
inductive Out where
  | mask (m : Word)
  | action (a : SigAction)
  | altstack (a : Altstack)
  | signal (sig : Signal) (info : SignalInfo)
  deriving DecidableEq

/-- What a call gives the guest: `X0`, the error it sets, and what it stores. -/
structure Ret where
  x0 : Word
  errno : Option Errno := none
  out : Option Out := none
  deriving DecidableEq

namespace Ret

def ok : Ret := ⟨0, none, none⟩

def fail (e : Errno) : Ret := ⟨-1, some e, none⟩

def code (e : Errno) : Ret := ⟨e.toWord, none, none⟩

end Ret

/-- What a call does when the delivery it makes is over: it puts a mask back or not, and returns. -/
structure After where
  restore : Option Word
  ret : Ret
  deriving DecidableEq

/-- A `deliver_guest_signal` whose handler runs. -/
structure Frame where
  signum : Signal
  oldMask : Word
  usingAltstack : Bool
  after : After
  deriving DecidableEq

/-- A call of a guest handler, and the alternate stack it runs on. -/
structure HandlerCall where
  handler : Word
  signum : Signal
  info : Option SignalInfo
  altstackTop : Option Word
  deriving DecidableEq

/-- What a `jmp_buf` holds of the signal mask; `depth` is the number of handlers that ran when it was filled. -/
structure JmpBuf where
  saved : Bool := false
  mask : Word := 0
  depth : ℕ := 0
  deriving DecidableEq

/-- `frames` are the deliveries whose handlers run, the last one first; `calls` are all calls of handlers, and `ret` is
what the last call has returned (`none` while a handler begins). `depth` is `call_depth` outside all handlers. -/
structure State where
  actions : Signal → SigAction
  info : Signal → SignalInfo
  blocked : Word
  pending : Word
  active : Word
  altstack : Altstack
  bufs : Word → JmpBuf
  frames : List Frame
  calls : List HandlerCall
  ret : Option Ret
  depth : ℕ

namespace State

def init (depth : ℕ) : State where
  actions _ := {}
  info _ := {}
  blocked := bit sigtimer
  pending := 0
  active := 0
  altstack := {}
  bufs _ := {}
  frames := []
  calls := []
  ret := none
  depth := depth

variable (s : State) (sig : Signal)

def resume (after : After) : State :=
  { s with blocked := after.restore.getD s.blocked, ret := some after.ret }

def handlerMask : Word :=
  let mask := s.blocked ||| normalizeHandlerMask (s.actions sig).maskBits
  if (s.actions sig).HasFlag saNodefer then mask else mask ||| bit sig

def usingAltstack : Bool := (s.actions sig).HasFlag saOnstack ∧ s.altstack.Usable

def altstackTop : Option Word :=
  if s.usingAltstack sig then some (s.altstack.ssSp + s.altstack.ssSize - 0x80) else none

def callHandler (after : After) : State :=
  let action := s.actions sig
  { s with
    active := s.active ||| bit sig
    blocked := s.handlerMask sig
    altstack := { s.altstack with onStack := s.altstack.onStack || s.usingAltstack sig }
    frames := ⟨sig, s.blocked, s.usingAltstack sig, after⟩ :: s.frames
    calls := ⟨action.handlerPtr, sig, if action.HasFlag saSiginfo then some (s.info sig) else none,
      s.altstackTop sig⟩ :: s.calls
    ret := none }

/-- `call_function_safe` has stack for seven nested calls; only a call on another stack is not counted. -/
def Refused : Prop := (s.altstackTop sig).getD 0 = 0 ∧ 8 ≤ s.depth + s.frames.length + 1

instance : Decidable (s.Refused sig) := inferInstanceAs (Decidable (_ ∧ _))

/-- The handler is not called. A signal that is pending and not blocked is then delivered once more, and as much in
vain. -/
def refuse (after : After) : State :=
  { s with
    pending := if Has s.pending sig ∧ ¬ Has s.blocked sig then s.pending &&& ~~~bit sig else s.pending }.resume after

def deliverGuestSignal (after : After) : State :=
  if ¬ (s.actions sig).Caught then s.resume after
  else if Has s.active sig then { s with pending := s.pending ||| bit sig }.resume after
  else if s.Refused sig then s.refuse sig after
  else s.callHandler sig after

/-- What `deliver_guest_signal` does first when the handler has returned. -/
def endHandler (f : Frame) (rest : List Frame) : State :=
  { s with
    altstack := { s.altstack with onStack := s.altstack.onStack && !f.usingAltstack }
    blocked := f.oldMask
    active := s.active &&& ~~~bit f.signum
    frames := rest }

/-- What it does then: the signal may have become pending. -/
def redeliver (f : Frame) : State :=
  if Has s.pending f.signum ∧ ¬ Has s.blocked f.signum then
    { s with pending := s.pending &&& ~~~bit f.signum }.deliverGuestSignal f.signum f.after
  else s.resume f.after

/-- The guest returns from the handler that was called last. -/
def handlerReturn : Option State :=
  match s.frames with
  | [] => none
  | f :: rest => some ((s.endHandler f rest).redeliver f)

end State

inductive How where
  | block
  | unblock
  | setmask
  | other
  deriving DecidableEq

namespace State

variable (s : State)

def answer (ret : Ret) : State := s.resume ⟨none, ret⟩

def applySignalMaskChange (how : How) : Option Word → Option State
  | none => some s
  | some newMask =>
    match how with
    | .block => some { s with blocked := normalizeProcessMask (s.blocked ||| newMask) }
    | .unblock => some { s with blocked := normalizeProcessMask (s.blocked &&& ~~~newMask) }
    | .setmask => some { s with blocked := normalizeProcessMask newMask }
    | .other => none

/-- The mask calls, which differ in how they report an error. -/
def sigmask (how : How) (set : Option Word) (error : Ret) : State :=
  match s.applySignalMaskChange how set with
  | none => s.answer error
  | some s' => s'.answer { Ret.ok with out := some (.mask s.blocked) }

def sigprocmask (how : How) (set : Option Word) : State := s.sigmask how set (.fail .EINVAL)

def pthreadSigmask (how : How) (set : Option Word) : State := s.sigmask how set (.code .EINVAL)

/-- `hle_signal_rt_sigprocmask`: a query outside handlers sets the mask of a new process. -/
def rtSigprocmask (how : How) (set : Option Word) (wantsOld : Bool) (sigsetsize : ℕ) : State :=
  if sigsetsize < 8 then s.answer (.fail .EINVAL)
  else
    match s.applySignalMaskChange how set with
    | none => s.answer (.fail .EINVAL)
    | some s' =>
      let ret := { Ret.ok with out := if wantsOld then some (.mask s.blocked) else none }
      if set = none ∧ wantsOld ∧ s'.active = 0 then
        { s' with blocked := normalizeProcessMask 0 }.answer ret
      else s'.answer ret

def queueGuestSignal (signum : ℤ) (info : SignalInfo) : State :=
  match Signal.ofNum signum with
  | none => s.answer (.fail .EINVAL)
  | some sig =>
    let s := { s with info := update s.info sig info }
    if Has s.blocked sig ∨ Has s.active sig then { s with pending := s.pending ||| bit sig }.answer .ok
    else s.deliverGuestSignal sig ⟨none, .ok⟩

/-- `other`: the target is another thread. -/
def queueGuestSignalForTid (signum : ℤ) (info : SignalInfo) (other : Bool) : State :=
  if (Signal.ofNum signum).isNone then s.answer (.fail .EINVAL)
  else if other then s.answer .ok
  else s.queueGuestSignal signum info

/-- `pthread_sigqueue` to a created thread: the handler is called here and now. -/
def pthreadSigqueue (signum : ℤ) (info : SignalInfo) : State :=
  match Signal.ofNum signum with
  | none => s.answer (.fail .EINVAL)
  | some sig => { s with info := update s.info sig info }.deliverGuestSignal sig ⟨none, .ok⟩

/-- The first pending signal of `waitMask`, which is not pending any more. -/
def consumePendingSignal (waitMask : Word) : Option (Signal × State) :=
  ((List.finRange 64).find? fun sig => Has (s.pending &&& waitMask) sig).map fun sig =>
    (sig, { s with pending := s.pending &&& ~~~bit sig })

/-- `sigsuspend` and `sigpause`: one signal is delivered under the mask. -/
def suspendWith (mask : Word) : State :=
  let after : After := ⟨some s.blocked, .fail .EINTR⟩
  let s := { s with blocked := mask }
  match s.consumePendingSignal (s.pending &&& ~~~s.blocked) with
  | none => s.resume after
  | some (sig, s') => s'.deliverGuestSignal sig after

def sigsuspend (mask : Word) : State := s.suspendWith (normalizeProcessMask mask)

/-- `wait_for_pending_signal`, with what its callers report. -/
def waitForPendingSignal (set : Word) (error : Ret) (found : Signal → SignalInfo → Ret) : State :=
  match s.consumePendingSignal set with
  | none => s.answer error
  | some (sig, s') => s'.answer (found sig (s.info sig))

def sigwait (set : Word) : State :=
  s.waitForPendingSignal set (.code .EAGAIN) fun sig info => { Ret.ok with out := some (.signal sig info) }

/-- `sigwaitinfo` and `sigtimedwait`. -/
def sigwaitinfo (set : Word) : State :=
  s.waitForPendingSignal set (.fail .EAGAIN) fun sig info =>
    ⟨BitVec.ofNat 64 (sig + 1), none, some (.signal sig info)⟩

def sigaction (signum : ℤ) (new : Option SigAction) : State :=
  match Signal.ofNum signum with
  | none => s.answer (.fail .EINVAL)
  | some sig =>
    { s with actions := update s.actions sig (new.getD (s.actions sig)) }.answer
      { Ret.ok with out := some (.action (s.actions sig)) }

def signal (signum : ℤ) (handler : Word) : State :=
  match Signal.ofNum signum with
  | none => s.answer (.fail .EINVAL)
  | some sig =>
    { s with actions := update s.actions sig { handlerPtr := handler } }.answer
      ⟨(s.actions sig).handlerPtr, none, none⟩

/-- `requested` is `some none` if it cannot be read. -/
def sigaltstack (requested : Option (Option StackT)) : State :=
  let out : Option Out := some (.altstack s.altstack)
  match requested with
  | none => s.answer ⟨0, none, out⟩
  | some none => s.answer ⟨-1, some .EFAULT, out⟩
  | some (some ss) =>
    if ss.ssFlags &&& ~~~2 ≠ 0 then s.answer ⟨-1, some .EINVAL, out⟩
    else if s.altstack.onStack ∧ ss.ssFlags &&& 2 ≠ 0 then s.answer ⟨-1, some .EPERM, out⟩
    else if ss.ssFlags &&& 2 ≠ 0 then { s with altstack := {} }.answer ⟨0, none, out⟩
    else { s with altstack := ⟨ss.ssSp, ss.ssSize, false, false⟩ }.answer ⟨0, none, out⟩

/-- The calls that take an ignorable signal, which differ in how they report an error. -/
def withIgnorable (signum : ℤ) (error : Ret) (f : Signal → State) : State :=
  match Signal.ofNum signum with
  | none => s.answer error
  | some sig => if sig.Ignorable then f sig else s.answer error

def sigignore (signum : ℤ) : State :=
  s.withIgnorable signum (.fail .EINVAL) fun sig =>
    { s with actions := update s.actions sig { handlerPtr := sigIgn } }.answer .ok

def sighold (signum : ℤ) : State :=
  s.withIgnorable signum (.fail .EINVAL) fun sig =>
    { s with blocked := normalizeProcessMask (s.blocked ||| bit sig) }.answer .ok

def sigpause (signum : ℤ) : State :=
  s.withIgnorable signum (.fail .EINVAL) fun sig => s.suspendWith (normalizeProcessMask (s.blocked &&& ~~~bit sig))

def sigrelse (signum : ℤ) : State :=
  s.withIgnorable signum (.fail .EINVAL) fun sig =>
    { s with blocked := normalizeProcessMask (s.blocked &&& ~~~bit sig) }.answer .ok

def sigset (signum : ℤ) (handler : Word) : State :=
  s.withIgnorable signum ⟨sigErr, some .EINVAL, none⟩ fun sig =>
    let previous := if Has s.blocked sig then sigHold else (s.actions sig).handlerPtr
    if handler = sigHold then
      { s with blocked := normalizeProcessMask (s.blocked ||| bit sig) }.answer ⟨previous, none, none⟩
    else
      { s with
        blocked := normalizeProcessMask (s.blocked &&& ~~~bit sig)
        actions := update s.actions sig { s.actions sig with handlerPtr := handler, saFlags := 0 }
      }.answer ⟨previous, none, none⟩

/-- The signals 1 to 31, which a mask of type `int` has. -/
def lowSignals : Word := 0x7fffffff

def sigblock (mask : BitVec 32) : State :=
  { s with blocked := normalizeProcessMask (s.blocked ||| mask.setWidth 64 &&& lowSignals) }.answer
    ⟨s.blocked &&& lowSignals, none, none⟩

def sigsetmask (mask : BitVec 32) : State :=
  { s with blocked := normalizeProcessMask (s.blocked &&& ~~~lowSignals ||| mask.setWidth 64 &&& lowSignals) }.answer
    ⟨s.blocked &&& lowSignals, none, none⟩

/-- `save_jmp_context`: `setjmp` and `sigsetjmp` save the mask, `_setjmp` does not. -/
def sigsetjmp (env : Word) (save : Bool) : State :=
  if env = 0 then s.answer .ok
  else
    { s with bufs := update s.bufs env ⟨save, if save then s.blocked else 0, s.frames.length⟩ }.answer .ok

/-- `restore_jmp_context`: `longjmp` and `siglongjmp` restore a saved mask, `_longjmp` does not. -/
def siglongjmp (env : Word) (value : ℤ) (restore : Bool) : State :=
  if env = 0 then s
  else
    let ret : Ret := ⟨BitVec.ofInt 64 (if value = 0 then 1 else value), none, none⟩
    if restore ∧ (s.bufs env).saved then { s with blocked := normalizeProcessMask (s.bufs env).mask }.answer ret
    else s.answer ret

end State

inductive Call where
  | sigaction (signum : ℤ) (new : Option SigAction)
  | signal (signum : ℤ) (handler : Word)
  | sigaltstack (requested : Option (Option StackT))
  | queue (signum : ℤ) (info : SignalInfo)
  | queueForTid (signum : ℤ) (info : SignalInfo) (other : Bool)
  | pthreadSigqueue (signum : ℤ) (info : SignalInfo)
  | sigprocmask (how : How) (set : Option Word)
  | pthreadSigmask (how : How) (set : Option Word)
  | rtSigprocmask (how : How) (set : Option Word) (wantsOld : Bool) (sigsetsize : ℕ)
  | sigpending
  | sigsuspend (mask : Word)
  | sigwait (set : Word)
  | sigwaitinfo (set : Word)
  | sigignore (signum : ℤ)
  | sighold (signum : ℤ)
  | sigpause (signum : ℤ)
  | sigrelse (signum : ℤ)
  | sigset (signum : ℤ) (handler : Word)
  | sigblock (mask : BitVec 32)
  | sigsetmask (mask : BitVec 32)
  | sigsetjmp (env : Word) (save : Bool)
  | siglongjmp (env : Word) (value : ℤ) (restore : Bool)

def State.call (s : State) : Call → State
  | .sigaction signum new => s.sigaction signum new
  | .signal signum handler => s.signal signum handler
  | .sigaltstack requested => s.sigaltstack requested
  | .queue signum info => s.queueGuestSignal signum info
  | .queueForTid signum info other => s.queueGuestSignalForTid signum info other
  | .pthreadSigqueue signum info => s.pthreadSigqueue signum info
  | .sigprocmask how set => s.sigprocmask how set
  | .pthreadSigmask how set => s.pthreadSigmask how set
  | .rtSigprocmask how set wantsOld sigsetsize => s.rtSigprocmask how set wantsOld sigsetsize
  | .sigpending => s.answer { Ret.ok with out := some (.mask s.pending) }
  | .sigsuspend mask => s.sigsuspend mask
  | .sigwait set => s.sigwait set
  | .sigwaitinfo set => s.sigwaitinfo set
  | .sigignore signum => s.sigignore signum
  | .sighold signum => s.sighold signum
  | .sigpause signum => s.sigpause signum
  | .sigrelse signum => s.sigrelse signum
  | .sigset signum handler => s.sigset signum handler
  | .sigblock mask => s.sigblock mask
  | .sigsetmask mask => s.sigsetmask mask
  | .sigsetjmp env save => s.sigsetjmp env save
  | .siglongjmp env value restore => s.siglongjmp env value restore

/-- What the guest does next: it makes a call, or it returns from the handler that was called last. -/
inductive Event where
  | call (c : Call)
  | handlerReturn

def State.step (s : State) : Event → Option State
  | .call c => some (s.call c)
  | .handlerReturn => s.handlerReturn

def system : System State Event := .ofStep (fun s => ∃ depth, s = .init depth) State.step

end CrossShim.Signals
