import CrossShim.Lib.Runs
import CrossShim.Lib.Word

/-!
# `exit` and its handlers

The first thread that calls `exit` or `quick_exit` owns the exit: it takes the handlers of its call from the back of
their list, one at a time, and runs each without the lock, so that all threads may register more and call `exit`
meanwhile. A call of the owner from a handler returns at once; a call of another thread waits until the owner has
finished.

The steps are the sections that have the lock and the start and end of each handler.  `_exit` and `abort`, which end a
wait at any time, are not called.
-/

namespace CrossShim.Process

open Lib Function Option

/-- The two lists of handlers: those of `exit`, and those of `quick_exit`. -/
inductive Kind where
  | atexit
  | quickExit
  deriving DecidableEq

/-- An `ExitHandler`; the first field is the number of handlers registered before it. -/
structure ExitHandler where
  id : ℕ
  func : Word
  arg : Word
  takesArg : Bool
  deriving DecidableEq

/-- `ExitCallDisposition`. -/
inductive Disposition where
  | ownerFirstCall
  | ownerReentrant
  | nonOwnerWaited
  deriving DecidableEq

/-- What runs the guest code of a thread: the loop of `Emulator::start`, which ends when `tl_running` is false, or the
loop of the emulator itself, which looks at no flag. -/
inductive Loop where
  | native
  | start (running : Bool)
  deriving DecidableEq

namespace Loop

def Going : Loop → Prop
  | native => True
  | start running => running = true

instance : (l : Loop) → Decidable l.Going
  | native => inferInstanceAs (Decidable True)
  | start running => inferInstanceAs (Decidable (running = true))

def stop : Loop → Loop
  | native => native
  | start _ => start false

lemma going_stop {l : Loop} : l.stop.Going ↔ l = native := by
  cases l with
  | native => exact iff_of_true trivial rfl
  | start running => simp [stop, Going]

end Loop

/-- Where the owner is in its call: between two handlers, in one (with the loop that called `exit` below), behind the
last look at the list, behind `finish_process_exit_state`, and back in the guest. -/
inductive Phase where
  | idle
  | running
  | inHandler (h : ExitHandler) (outer : Loop)
  | closing
  | stopping
  | returned
  deriving DecidableEq

def Phase.inGuest : Phase → Bool
  | idle | inHandler _ _ | returned => true
  | running | closing | stopping => false

/-- The start of a handler, with those of its list that are registered at that time. -/
structure Start where
  thread : ℕ
  handler : ExitHandler
  rest : List ExitHandler
  deriving DecidableEq

/-- A call of `exit` at the time it is made: whether an exit is in progress, and the loop of the thread. -/
structure Made where
  inProgress : Bool
  loop : Loop
  deriving DecidableEq

/-- The return of a call of `exit`, with the loop that goes on with the guest. -/
structure Return where
  thread : ℕ
  disposition : Disposition
  loop : Loop
  made : Option Made
  deriving DecidableEq

/-- The lists of handlers begin with the one registered last. The fields from `registered` on are history: the handlers
registered, started and finished, the returns of `exit`, how many were registered when the owner finished, and the
calls of `exit` that each thread is in, the last one first. -/
structure State where
  handlers : Kind → List ExitHandler
  inProgress : Bool
  complete : Bool
  status : ℤ
  owner : ℕ
  ownerKind : Kind
  phase : Phase
  waiting : ℕ → Bool
  loops : ℕ → Loop
  forkChild : Bool
  ended : Option ℤ
  registered : List (Kind × ExitHandler)
  started : List Start
  finished : List ExitHandler
  returns : List Return
  finishedAt : Option ℕ
  calls : ℕ → List Made

namespace State

/-- A new process, or a child of `fork`. -/
def init (loops : ℕ → Loop) (forkChild : Bool) : State where
  handlers _ := []
  inProgress := false
  complete := false
  status := 0
  owner := 0
  ownerKind := .atexit
  phase := .idle
  waiting _ := false
  loops := loops
  forkChild := forkChild
  ended := none
  registered := []
  started := []
  finished := []
  returns := []
  finishedAt := none
  calls _ := []

variable (s : State)

/-- The handlers of a kind that have been registered, the last one first. -/
def registeredOf (k : Kind) : List ExitHandler := (s.registered.filter fun r => r.1 = k).map Prod.snd

/-- The thread is not in a call of `exit`, but for a handler. -/
def outside (i : ℕ) : Prop := s.waiting i = false ∧ (s.owner = i → s.phase.inGuest = true)

instance (i : ℕ) : Decidable (s.outside i) := inferInstanceAs (Decidable (_ ∧ _))

/-- `push_back`. -/
def register (k : Kind) (func arg : Word) (takesArg : Bool) : State :=
  let h : ExitHandler := ⟨s.registered.length, func, arg, takesArg⟩
  { s with
    handlers := update s.handlers k (h :: s.handlers k)
    registered := (k, h) :: s.registered }

def atexit (func : Word) : State := s.register .atexit func 0 false

def cxaAtexit (func arg : Word) : State := s.register .atexit func arg true

def atQuickExit (func : Word) : State := s.register .quickExit func 0 false

/-- A call of `exit` is made. -/
def make (i : ℕ) : State := { s with calls := update s.calls i (⟨s.inProgress, s.loops i⟩ :: s.calls i) }

/-- A call of `exit` returns to the guest. -/
def ret (i : ℕ) (d : Disposition) : State :=
  { s with
    returns := ⟨i, d, s.loops i, (s.calls i).head?⟩ :: s.returns
    calls := update s.calls i (s.calls i).tail }

/-- `begin_process_exit`, up to the wait. -/
def beginProcessExit (i : ℕ) (k : Kind) (status : ℤ) : State :=
  if ¬ s.inProgress then
    { s with
      inProgress := true, complete := false, status := status, owner := i, ownerKind := k, phase := .running }
  else if s.owner = i then { s with status := status }.ret i .ownerReentrant
  else { s with waiting := update s.waiting i true }

/-- The end of the wait, if there is nothing left to wait for. -/
def wake (i : ℕ) : State :=
  if s.complete then { s with waiting := update s.waiting i false }.ret i .nonOwnerWaited else s

/-- One turn of `run_exit_handlers`; the call of the handler may be refused. -/
def runExitHandler (entered : Bool) : State :=
  match s.handlers s.ownerKind with
  | [] => { s with phase := .closing }
  | h :: rest =>
    let s' := { s with handlers := update s.handlers s.ownerKind rest }
    if h.func = 0 ∨ entered = false then s'
    else
      { s' with
        phase := .inHandler h (s.loops s.owner)
        loops := update s.loops s.owner (.start true)
        started := ⟨s.owner, h, rest⟩ :: s.started }

/-- The handler ends, and `call_function_safe` restores the loop. -/
def handlerEnd (h : ExitHandler) (outer : Loop) : State :=
  { s with phase := .running, loops := update s.loops s.owner outer, finished := h :: s.finished }

def finishProcessExitState : State :=
  { s with complete := true, phase := .stopping, finishedAt := some s.registered.length }

def finalizeProcessExit : State :=
  if s.forkChild then { s with ended := some s.status }
  else
    { s with phase := .returned, loops := update s.loops s.owner (s.loops s.owner).stop }.ret s.owner .ownerFirstCall

end State

inductive Registration where
  | atexit (func : Word)
  | cxaAtexit (func arg : Word)
  | atQuickExit (func : Word)
  deriving DecidableEq

/-- What happens next: a thread registers a handler, calls `exit` or `quick_exit`, or wakes up; the owner looks at the
list, comes back from a handler, finishes, and stops; a thread goes on in another loop. -/
inductive Event where
  | register (i : ℕ) (r : Registration)
  | exit (i : ℕ) (k : Kind) (status : ℤ)
  | wake (i : ℕ)
  | handler (entered : Bool)
  | handlerEnd
  | finish
  | stop
  | switch (i : ℕ) (l : Loop)
  deriving DecidableEq

def State.step (s : State) (e : Event) : Option State :=
  if s.ended.isSome then none
  else
    match e with
    | .register i r =>
      if s.outside i ∧ (s.loops i).Going then
        match r with
        | .atexit func => some (s.atexit func)
        | .cxaAtexit func arg => some (s.cxaAtexit func arg)
        | .atQuickExit func => some (s.atQuickExit func)
      else none
    | .exit i k status => if s.outside i ∧ (s.loops i).Going then some ((s.make i).beginProcessExit i k status) else none
    | .wake i => if s.waiting i then some (s.wake i) else none
    | .handler entered => if s.phase = .running then some (s.runExitHandler entered) else none
    | .handlerEnd =>
      match s.phase with
      | .inHandler h outer => some (s.handlerEnd h outer)
      | _ => none
    | .finish => if s.phase = .closing then some s.finishProcessExitState else none
    | .stop => if s.phase = .stopping then some s.finalizeProcessExit else none
    | .switch i l => if s.outside i then some { s with loops := update s.loops i l } else none

/-- All interleavings, from any loops of the threads. -/
def system : System State Event := .ofStep (fun s => ∃ loops forkChild, s = .init loops forkChild) State.step

inductive Steps (s : State) : Event → State → Prop
  | register {i r k func arg takesArg} :
      Steps s (.register i r) (s.register k func arg takesArg)
  | exit {i k status} (hi : s.outside i) (hgoing : (s.loops i).Going) :
      Steps s (.exit i k status) ((s.make i).beginProcessExit i k status)
  | wake {i} (hi : s.waiting i = true) : Steps s (.wake i) (s.wake i)
  | handler {entered} (hp : s.phase = .running) : Steps s (.handler entered) (s.runExitHandler entered)
  | handlerEnd {h outer} (hp : s.phase = .inHandler h outer) :
      Steps s .handlerEnd (s.handlerEnd h outer)
  | finish (hp : s.phase = .closing) : Steps s .finish s.finishProcessExitState
  | stop (hp : s.phase = .stopping) : Steps s .stop s.finalizeProcessExit
  | switch {i l} (hi : s.outside i) :
      Steps s (.switch i l) { s with loops := update s.loops i l }

lemma steps_of_step {s s' : State} {e : Event} (h : s.step e = some s') : Steps s e s' := by
  unfold State.step at h
  obtain ⟨-, h⟩ := ite_none_left_eq_some.1 h
  cases e with
  | register i r =>
    obtain ⟨-, h⟩ := ite_none_right_eq_some.1 h
    cases r with
    | atexit func | cxaAtexit func arg | atQuickExit func =>
      cases h
      exact .register
  | exit i k status =>
    obtain ⟨⟨hi, hgoing⟩, heq⟩ := ite_none_right_eq_some.1 h
    cases heq
    exact .exit hi hgoing
  | wake i =>
    obtain ⟨hi, heq⟩ := ite_none_right_eq_some.1 h
    cases heq
    exact .wake hi
  | handler entered =>
    obtain ⟨hp, heq⟩ := ite_none_right_eq_some.1 h
    cases heq
    exact .handler hp
  | handlerEnd =>
    dsimp only at h
    split at h
    case h_1 hd outer hp =>
      cases h
      exact .handlerEnd hp
    case h_2 => cases h
  | finish =>
    obtain ⟨hp, heq⟩ := ite_none_right_eq_some.1 h
    cases heq
    exact .finish hp
  | stop =>
    obtain ⟨hp, heq⟩ := ite_none_right_eq_some.1 h
    cases heq
    exact .stop hp
  | switch i l =>
    obtain ⟨hi, heq⟩ := ite_none_right_eq_some.1 h
    cases heq
    exact .switch hi

end CrossShim.Process
