import CrossShim.Threads.Tls

/-!
# Thread-specific data when a thread ends

A thread ends through the wrapper of its start routine, which makes the system calls `SYS_THREAD_DONE` and `SYS_exit`,
or through `pthread_exit`, which has the cleanup handlers of the thread called one after the other
(`__pthread_exit_continue`) before `SYS_exit`.  Neither way looks at the destructors of the keys or at the values that
are stored for the thread: a destructor is not called (`destructor_not_called`), and what is stored stays, so that the
end is as it should be exactly if nothing is stored (`endOk_iff`).
-/

namespace CrossShim.Threads

open Lib Function List Option

/-! ### Cleanup handlers -/

/-- `GuestCleanupHandler`. -/
structure CleanupHandler where
  cleanupAddr : Word
  routine : Word
  arg : Word
  deriving DecidableEq

inductive Ending where
  | no
  /-- A cleanup handler runs, and returns to `__pthread_exit_continue`. -/
  | cleanup
  /-- At `SYS_exit`, with the value in `X0`. -/
  | exiting (retval : Word)
  | ended
  deriving DecidableEq

def Ending.Runs (e : Ending) : Prop := e = .no ∨ e = .cleanup

instance (e : Ending) : Decidable e.Runs := inferInstanceAs (Decidable (_ ∨ _))

structure ExitState where
  tls : TlsState
  /-- `g_cleanup_handlers`, by identity, the last one first. -/
  handlers : Word → List CleanupHandler
  /-- `g_pending_pthread_exit_values`. -/
  pending : Word → Option Word
  ending : Guest → Ending
  /-- The guest functions a thread was made to call because it ends, with their arguments. -/
  called : Guest → List (Word × Word)

/-- The first handler with a routine, and those after it. -/
def popCleanupHandlers : List CleanupHandler → Option CleanupHandler × List CleanupHandler
  | [] => (none, [])
  | h :: handlers => if h.routine = 0 then popCleanupHandlers handlers else (some h, handlers)

namespace ExitState

variable (s : ExitState) (g : Guest) (sp : Word)

def init : ExitState := ⟨.init, fun _ => [], fun _ => none, fun _ => .no, fun _ => []⟩

def goto (e : Ending) : ExitState := { s with ending := update s.ending g e }

def seen : ExitState := { s with tls := s.tls.seen g (getCurrentGuestPthreadId (s.tls.context g sp)).2 }

/-- The identity the cleanup handlers of the caller are under. -/
def self : Word := pthreadSelf (s.tls.context g sp)

def setHandlers (id : Word) (handlers : List CleanupHandler) : ExitState :=
  { s with handlers := update s.handlers id handlers }

def setPending (id : Word) (retval : Option Word) : ExitState :=
  { s with pending := update s.pending id retval }

/-- `__pthread_cleanup_push`. -/
def cleanupPush (h : CleanupHandler) : ExitState :=
  (s.setHandlers (s.self g sp) (h :: s.handlers (s.self g sp))).seen g sp

/-- `__pthread_cleanup_pop`. A handler to be executed is called in place of the return, by the running thread. -/
def cleanupPop (cleanupAddr : Word) : ExitState :=
  (s.setHandlers (s.self g sp) ((s.handlers (s.self g sp)).eraseP (·.cleanupAddr = cleanupAddr))).seen g sp

def finishGuestPthreadExit (id retval : Word) : ExitState := (s.setPending id none).goto g (.exiting retval)

/-- `dispatch_next_pthread_exit_cleanup`, and the end once there is no handler left. -/
def dispatchNext (id retval : Word) : ExitState :=
  match popCleanupHandlers (s.handlers id) with
  | (some h, handlers) =>
    { s.setHandlers id handlers with
      called := update s.called g (s.called g ++ [(h.routine, h.arg)]) }.goto g .cleanup
  | (none, handlers) => (s.setHandlers id handlers).finishGuestPthreadExit g id retval

def pthreadExit (retval : Word) : ExitState :=
  ((s.setPending (s.self g sp) (some retval)).dispatchNext g (s.self g sp) retval).seen g sp

/-- `__pthread_exit_continue`, with what the cleanup handler has left in `X0`. -/
def pthreadExitContinue (x0 : Word) : ExitState :=
  (s.dispatchNext g (s.self g sp) ((s.pending (s.self g sp)).getD x0)).seen g sp

def setReg (reg : State) : ExitState := { s with tls := { s.tls with reg := reg } }

/-- `SYS_THREAD_DONE`, after the start routine.  It leaves 0 in `X0`. -/
def threadDone (n : ℕ) (order : List Word) (retval : Word) : ExitState :=
  (s.setReg (s.tls.reg.notifyThreadExit order sp retval false)).goto (.created n) (.exiting 0)

def gone : Guest → State → State
  | .created n, reg => reg.goto n .ended
  | _, reg => reg

/-- `SYS_exit`.  On a worker of the pool (`tl_running`) it only ends the call. -/
def sysExit (running : Bool) (order : List Word) (retval : Word) : ExitState :=
  if running then { s with called := update s.called g [] }.goto g .no
  else (s.setReg (gone g (s.tls.reg.notifyThreadExit order sp retval true))).goto g .ended

end ExitState

/-! ### Runs -/

def TlsEvent.caller : TlsEvent → Option Guest
  | .self g _ => some g
  | .callSafe g => some g
  | .returnSafe g => some g
  | .getspecific g _ _ => some g
  | .setspecific g _ _ _ => some g
  | _ => none

/-- The notices of a thread that ends, which are made by `SYS_THREAD_DONE` and `SYS_exit`. -/
def TlsEvent.isNotice : TlsEvent → Bool
  | .thread (.report ..) => true
  | .thread (.exit ..) => true
  | _ => false

inductive ExitEvent where
  | tls (e : TlsEvent)
  | cleanupPush (g : Guest) (sp : Word) (h : CleanupHandler)
  | cleanupPop (g : Guest) (sp cleanupAddr : Word)
  | pthreadExit (g : Guest) (sp retval : Word)
  | pthreadExitContinue (g : Guest) (sp x0 : Word)
  | threadDone (n : ℕ) (order : List Word) (sp retval : Word)
  | sysExit (g : Guest) (running : Bool) (order : List Word) (sp : Word)

namespace ExitState

/-- The thread runs guest code, and its stack pointer is where it can be. -/
def Active (s : ExitState) (g : Guest) (sp : Word) : Prop := (s.ending g).Runs ∧ Calls s.tls sp g

instance (s : ExitState) (g : Guest) (sp : Word) : Decidable (s.Active g sp) := inferInstanceAs (Decidable (_ ∧ _))

def step (s : ExitState) : ExitEvent → Option ExitState
  | .tls e =>
    if e.isNotice = false ∧ ∀ g ∈ e.caller, (s.ending g).Runs then (s.tls.step e).map fun tls => { s with tls := tls }
    else none
  | .cleanupPush g sp h => if s.Active g sp then some (s.cleanupPush g sp h) else none
  | .cleanupPop g sp cleanupAddr => if s.Active g sp then some (s.cleanupPop g sp cleanupAddr) else none
  | .pthreadExit g sp retval => if s.Active g sp then some (s.pthreadExit g sp retval) else none
  | .pthreadExitContinue g sp x0 =>
    if s.ending g = .cleanup ∧ Calls s.tls sp g then some (s.pthreadExitContinue g sp x0) else none
  | .threadDone n order sp retval =>
    if s.ending (.created n) = .no ∧ Calls s.tls sp (.created n) ∧ s.tls.reg.Visits order then
      some (s.threadDone sp n order retval)
    else none
  | .sysExit g running order sp =>
    match s.ending g with
    | .exiting retval =>
      if Calls s.tls sp g ∧ s.tls.reg.Visits order then some (s.sysExit g sp running order retval) else none
    | _ => none

def system : System ExitState ExitEvent := .ofStep (· = init) step

lemma sysExit_cases {s s' : ExitState} {g : Guest} {running : Bool} {order : List Word} {sp : Word}
    (h : s.step (.sysExit g running order sp) = some s') :
    ∃ retval, s.ending g = .exiting retval ∧ Calls s.tls sp g ∧ s' = s.sysExit g sp running order retval := by
  simp only [step] at h
  split at h
  case h_1 retval hending =>
    obtain ⟨⟨hcalls, -⟩, h⟩ := ite_none_right_eq_some.1 h
    exact ⟨retval, hending, hcalls, (Option.some.inj h).symm⟩
  case h_2 => cases h

end ExitState

/-- The end of a thread at `SYS_exit`: for every live key with a destructor and a value that is not NULL, the destructor
was called with the value; and no value of the thread is stored any more. -/
structure EndOk (s s' : ExitState) (g : Guest) (sp : Word) : Prop where
  destroyed : ∀ key destructor, s.tls.isValidTlsKey key = true → s.tls.destructors key = some destructor →
    s.tls.getspecific g sp key ≠ 0 → (destructor, s.tls.getspecific g sp key) ∈ s'.called g
  cleared : ∀ key, s'.tls.values (getCurrentTlsThreadId (s.tls.context g sp)).1 key = none

/-- A thread sets a value under a key with a destructor, and its start routine returns. -/
def destructorRun : List ExitEvent :=
  (created 0x1000).map (.tls ∘ .thread) ++
    [.tls (.keyCreate 0x2000 0x5000), .tls (.setspecific (.created 0x1000) 0x900FFF00 1 7),
      .threadDone 0x1000 [0x1000] 0x900FFF00 0]

/-- **The destructor is not called.** -/
theorem destructor_not_called : ¬ ∀ s g order sp s', ExitState.system.Reachable s →
    s.step (.sysExit g false order sp) = some s' → EndOk s s' g sp := by
  intro h
  have hrun : destructorRun.foldlM ExitState.step ExitState.init = some _ := rfl
  have hok := h _ (.created 0x1000) [0x1000] 0x900FFF00 _ (System.Reachable.foldlM (.init rfl) hrun) rfl
  have hcalled := hok.destroyed 1 0x5000 (by decide) rfl (by decide)
  exact absurd hcalled (by decide)

/-! ### What is left -/

/-- **The end of a thread is as it should be exactly if nothing is stored for it.** -/
theorem endOk_iff {s s' : ExitState} {g : Guest} {order : List Word} {sp : Word}
    (h : s.step (.sysExit g false order sp) = some s') :
    EndOk s s' g sp ↔ ∀ key, s.tls.values (getCurrentTlsThreadId (s.tls.context g sp)).1 key = none := by
  obtain ⟨retval, -, -, rfl⟩ := ExitState.sysExit_cases h
  have hvalues : (s.sysExit g sp false order retval).tls.values = s.tls.values := rfl
  constructor
  · intro hok key
    rw [← hvalues]
    exact hok.cleared key
  · intro hnone
    refine ⟨fun key destructor hkey _ hne => ?_, fun key => ?_⟩
    · refine absurd ?_ hne
      rw [TlsState.getspecific, if_pos hkey, hnone key]
      rfl
    · rw [hvalues]
      exact hnone key

/-- A thread sets a value; the key is deleted; the thread calls `pthread_exit`. -/
def deletedRun : List ExitEvent :=
  (created 0x1000).map (.tls ∘ .thread) ++
    [.tls (.keyCreate 0x2000 0x5000), .tls (.setspecific (.created 0x1000) 0x900FFF00 1 7), .tls (.keyDelete 1),
      .cleanupPush (.created 0x1000) 0x900FFE00 ⟨0x900FFE10, 0x6000, 9⟩, .pthreadExit (.created 0x1000) 0x900FFD00 3,
      .pthreadExitContinue (.created 0x1000) 0x900FFD00 0]

/-- Its cleanup handler was called, and nothing is left. -/
theorem endOk_deleted : ∃ s s', ExitState.system.Reachable s ∧
    s.step (.sysExit (.created 0x1000) false [0x1000] 0x900FFD00) = some s' ∧
    s'.called (.created 0x1000) = [(0x6000, 9)] ∧ EndOk s s' (.created 0x1000) 0x900FFD00 := by
  obtain ⟨s, hrun, s', hstep, hcalled, hvalues⟩ : ∃ s, deletedRun.foldlM ExitState.step ExitState.init = some s ∧
      ∃ s', s.step (.sysExit (.created 0x1000) false [0x1000] 0x900FFD00) = some s' ∧
        s'.called (.created 0x1000) = [(0x6000, 9)] ∧
        ∀ key, s.tls.values (getCurrentTlsThreadId (s.tls.context (.created 0x1000) 0x900FFD00)).1 key = none := by
    refine ⟨_, rfl, _, rfl, rfl, fun key => ?_⟩
    show (update (update (fun _ => none) 1 (some 7)) 1 none : Word → Option Word) key = none
    rw [update_idem]
    exact congrFun (update_eq_self (1 : Word) fun _ => none) key
  exact ⟨s, s', System.Reachable.foldlM (.init rfl) hrun, hstep, hcalled, (endOk_iff hstep).2 hvalues⟩

end CrossShim.Threads
