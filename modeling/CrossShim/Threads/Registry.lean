import CrossShim.Lib.Runs
import CrossShim.Threads.Identity

/-!
# The registry of guest threads

`pthread_create`, `pthread_join`, `pthread_detach` and `notify_thread_exit` of `hle_pthread.cpp`, with the state
they share: the counter of thread ids, the two arenas, the mapping budget and the registry `g_threads`.

The critical sections of the handlers are the steps of a transition system (`system`), so a run is any
interleaving of any number of guest threads.  A `pthread_create` is known by the value the counter had when it
took its id, and so is the thread it starts.
-/

namespace CrossShim.Threads

open Lib Function

abbrev einval : Word := 22
abbrev eagain : Word := 11
abbrev esrch : Word := 3
abbrev edeadlk : Word := 35

abbrev guestDefaultPthreadStackSize : Word := 8 * 1024 * 1024

/-! ### What `pthread_create` is asked for -/

def roundUpToMultiple (value multiple : Word) : Word :=
  if multiple = 0 then value
  else
    let remainder := value % multiple
    if remainder = 0 then value
    else
      let addend := multiple - remainder
      if value > BitVec.allOnes 64 - addend then 0 else value + addend

def getEffectiveStackSize (requestedStackSize : Word) : Word :=
  let requested := if requestedStackSize = 0 then guestDefaultPthreadStackSize else requestedStackSize
  let rounded := roundUpToMultiple requested pageSize
  if rounded = 0 then requested else rounded

/-- The routine, the attributes, the outcome of the checks for the scheduler, and whether the process is exiting. -/
structure CreateArgs where
  startRoutine : Word
  detachstate : BitVec 32 := 0
  stackAddr : Word := 0
  stackSize : Word := guestDefaultPthreadStackSize
  schedError : Option Word := none
  exitInProgress : Bool := false

structure Attr where
  detached : Bool
  stackAddr : Word
  stackSize : Word
  deriving DecidableEq

def checkAttr (args : CreateArgs) : Except Word Attr :=
  if args.startRoutine = 0 then .error einval
  else
    let stackSize := getEffectiveStackSize args.stackSize
    if stackSize = 0 ∨ stackSize > 1 <<< 30 then .error eagain
    else
      match args.schedError with
      | some error => .error error
      | none => .ok ⟨args.detachstate = 1, args.stackAddr, stackSize⟩

/-! ### The state -/

/-- An entry of `g_threads`. -/
structure QemuThread where
  stackBase : Word
  stackSize : Word
  reportedStackSize : Word
  tlsBase : Word
  guestStackAddr : Word
  detached : Bool
  joinInProgress : Bool := false
  completed : Bool := false
  exitReported : Bool := false
  returnValue : Word := 0
  deriving DecidableEq

/-- How far a `pthread_create` is, and then the thread it made. -/
inductive Phase where
  | idle
  | begun (attr : Attr)
  | tookStack (attr : Attr) (region : Word) (recycled : Bool)
  | stacked (attr : Attr) (stackTop : Word)
  | tookTls (attr : Attr) (stackTop region : Word) (recycled : Bool)
  | ready (attr : Attr) (stackTop tlsBase : Word)
  | registered (stackTop stackSize : Word)
  | running (stackTop stackSize : Word)
  | ended
  | failed (error : Word)
  deriving DecidableEq

instance Phase.decidableBegun (p : Phase) (P : Attr → Prop) [DecidablePred P] :
    Decidable (∀ attr, p = .begun attr → P attr) := by
  cases p
  case begun attr => exact decidable_of_iff (P attr) (by simp)
  all_goals exact isTrue nofun

instance Phase.decidableRunning (p : Phase) (P : Word → Word → Prop) [DecidableRel P] :
    Decidable (∀ stackTop stackSize, p = .running stackTop stackSize → P stackTop stackSize) := by
  cases p
  case running stackTop stackSize => exact decidable_of_iff (P stackTop stackSize) (by simp)
  all_goals exact isTrue nofun

/-- The counter is not cut to 64 bits; the ids are (`tid`). -/
structure State where
  nextThreadId : ℕ
  arena : Kind → Arena
  vmas : Vmas
  threads : OrdMap Word QemuThread
  phase : ℕ → Phase

/-- The `pthread_t` of the thread made by the `n`-th value of the counter. -/
def tid (n : ℕ) : Word := BitVec.ofNat 64 n

def InStack (stackTop stackSize sp : Word) : Prop := sp - (stackTop - stackSize + 0x100) < stackSize

instance {stackTop stackSize sp : Word} : Decidable (InStack stackTop stackSize sp) :=
  inferInstanceAs (Decidable (_ < _))

/-- The stack pointers at which an exit is taken for the exit of this thread. -/
def QemuThread.exitRange (t : QemuThread) (sp : Word) : Bool :=
  sp ≥ t.stackBase - t.stackSize + 0x100 && sp ≤ t.stackBase + 0x100

def QemuThread.reported (t : QemuThread) (retval : Word) : QemuThread :=
  if t.exitReported then t else { t with exitReported := true, returnValue := retval }

namespace State

def init : State where
  nextThreadId := 0x1000
  arena := .init
  vmas := .init
  threads := .empty
  phase _ := .idle

variable (s : State)

def goto (n : ℕ) (p : Phase) : State := { s with phase := update s.phase n p }

def setArena (k : Kind) (a : Arena) : State := { s with arena := update s.arena k a }

/-- `recycle_thread_arena`. -/
def recycle (s : State) (stackBase tlsBase : Word) : State :=
  { s with arena := fun
      | .stack => (s.arena .stack).recycle .stack stackBase
      | .tls => (s.arena .tls).recycle .tls tlsBase }

def reclaim (id : Word) (t : QemuThread) : State :=
  { s with threads := s.threads.erase id }.recycle t.stackBase t.tlsBase

/-! ### `pthread_create` -/

/-- The checks, and the id. While the process exits, the thread is entered as completed. -/
def create (args : CreateArgs) : Except Word State :=
  match checkAttr args with
  | .error error => .error error
  | .ok attr =>
    let n := s.nextThreadId
    let s₁ := { s with nextThreadId := n + 1 }
    if args.exitInProgress then
      .ok ({ s₁ with threads := s.threads.insert (tid n) ⟨0, 0, 0, 0, 0, attr.detached, false, true, false, 0⟩ }.goto
        n .ended)
    else .ok (s₁.goto n (.begun attr))

/-- The stack: the caller's, or a region of the arena. -/
def takeStack (n : ℕ) : Option State :=
  match s.phase n with
  | .begun attr =>
    if attr.stackAddr ≠ 0 then some (s.goto n (.stacked attr (attr.stackAddr + attr.stackSize - 0x100)))
    else
      match (s.arena .stack).take .stack with
      | none => some (s.goto n (.failed eagain))
      | some ((region, recycled), a) => some ((s.setArena .stack a).goto n (.tookStack attr region recycled))
  | _ => none

/-- The outcome of `Arena.commit` but for the address. -/
def setCommitted (k : Kind) (r : Arena × Vmas × Option Word) : State :=
  { s.setArena k r.1 with vmas := r.2.1 }

def finishStack (n : ℕ) (attr : Attr) : Option Word → State
  | none => s.goto n (.failed eagain)
  | some stackTop => s.goto n (.stacked attr stackTop)

def commitStack (n : ℕ) (mapOk : Bool) : Option State :=
  match s.phase n with
  | .tookStack attr region recycled =>
    let r := (s.arena .stack).commit .stack s.vmas region recycled mapOk
    some ((s.setCommitted .stack r).finishStack n attr r.2.2)
  | _ => none

/-- Without a TLS block, a stack of the arena is given back. -/
def failTls (n : ℕ) (attr : Attr) (stackTop : Word) : State :=
  if attr.stackAddr = 0 then
    ({ s with vmas := s.vmas.release stackTop }.recycle stackTop 0).goto n (.failed eagain)
  else s.goto n (.failed eagain)

def takeTls (n : ℕ) : Option State :=
  match s.phase n with
  | .stacked attr stackTop =>
    match (s.arena .tls).take .tls with
    | none => some (s.failTls n attr stackTop)
    | some ((region, recycled), a) =>
      some ((s.setArena .tls a).goto n (.tookTls attr stackTop region recycled))
  | _ => none

def finishTls (n : ℕ) (attr : Attr) (stackTop : Word) : Option Word → State
  | none => s.failTls n attr stackTop
  | some tlsBase => s.goto n (.ready attr stackTop tlsBase)

def commitTls (n : ℕ) (mapOk : Bool) : Option State :=
  match s.phase n with
  | .tookTls attr stackTop region recycled =>
    let r := (s.arena .tls).commit .tls s.vmas region recycled mapOk
    some ((s.setCommitted .tls r).finishTls n attr stackTop r.2.2)
  | _ => none

/-- The entry of a thread. The stack it is told ends where its stack ends, and is as large as it asked for. -/
def entry (attr : Attr) (stackTop tlsBase : Word) : QemuThread where
  stackBase := stackTop
  stackSize := if attr.stackAddr ≠ 0 then attr.stackSize else Kind.stack.size
  reportedStackSize := attr.stackSize
  tlsBase := tlsBase
  guestStackAddr := if attr.stackAddr ≠ 0 then attr.stackAddr else stackTop + 0x100 - attr.stackSize
  detached := attr.detached

def register (n : ℕ) : Option State :=
  match s.phase n with
  | .ready attr stackTop tlsBase =>
    let t := entry attr stackTop tlsBase
    some ({ s with threads := s.threads.insert (tid n) t }.goto n (.registered stackTop t.stackSize))
  | _ => none

/-- The `clone` system call; when it fails the entry stays. -/
def clone (n : ℕ) (ok : Bool) : Option State :=
  match s.phase n with
  | .registered stackTop stackSize => some (s.goto n (if ok then .running stackTop stackSize else .ended))
  | _ => none

/-! ### The end of a thread -/

/-- `notify_thread_exit`: the exit is credited to the first entry visited whose range has the stack pointer. -/
def notifyThreadExit (order : List Word) (sp retval : Word) (finalize : Bool) : State :=
  match order.find? fun id => (s.threads.find? id).any (·.exitRange sp) with
  | none => s
  | some id =>
    match s.threads.find? id with
    | none => s
    | some t =>
      let t₁ := t.reported retval
      if !finalize || t.completed then { s with threads := s.threads.insert id t₁ }
      else
        let s₁ := { s with vmas := (s.vmas.release t.stackBase).release t.tlsBase }
        if t.detached then s₁.reclaim id t
        else { s₁ with threads := s.threads.insert id { t₁ with completed := true } }

/-- `pthread_join` up to the wait. -/
def join (caller : Context) (id : Word) : Except Word State :=
  if id = 0 then .error esrch
  else if id = pthreadSelf caller then .error edeadlk
  else
    match s.threads.find? id with
    | none => .error esrch
    | some t =>
      if t.detached then .error einval
      else if t.joinInProgress then .error einval
      else .ok { s with threads := s.threads.insert id { t with joinInProgress := true } }

/-- `pthread_join` after the wait, with the value it stores. -/
def joinEnd (id : Word) : Option (State × Word) :=
  match s.threads.find? id with
  | none => none
  | some t => if t.joinInProgress && t.completed then some (s.reclaim id t, t.returnValue) else none

/-- `pthread_detach`. -/
def detach (id : Word) : Except Word State :=
  if id = 0 then .error esrch
  else
    match s.threads.find? id with
    | none => .error esrch
    | some t =>
      if t.detached || t.joinInProgress then .error einval
      else if t.completed then .ok (s.reclaim id t)
      else .ok { s with threads := s.threads.insert id { t with detached := true } }

end State

/-! ### Runs -/

/-- The steps of a `pthread_create`, the two notices of a thread that ends, and the other calls, among them the mapping
calls of `hle_memory.cpp` on the shared budget. A search is given the order in which the map is visited. -/
inductive Event where
  | create (args : CreateArgs)
  | takeStack (n : ℕ)
  | commitStack (n : ℕ) (mapOk : Bool)
  | takeTls (n : ℕ)
  | commitTls (n : ℕ) (mapOk : Bool)
  | register (n : ℕ)
  | clone (n : ℕ) (ok : Bool)
  | report (n : ℕ) (order : List Word) (sp retval : Word)
  | exit (n : ℕ) (order : List Word) (sp retval : Word)
  | join (caller : Context) (id : Word)
  | joinEnd (id : Word)
  | detach (id : Word)
  | reserveVmas (key : Word) (count : ℕ)
  | releaseVmas (key : Word)

variable (s : State)

def State.Visits (order : List Word) : Prop := order.Perm (s.threads.entries.map Prod.fst)

instance {s : State} {order : List Word} : Decidable (s.Visits order) :=
  inferInstanceAs (Decidable (List.Perm _ _))

/-- A running thread gives one of its notices, with its stack pointer in its stack. -/
def State.notice (n : ℕ) (order : List Word) (sp retval : Word) (finalize : Bool) : Option State :=
  match s.phase n with
  | .running stackTop stackSize =>
    if InStack stackTop stackSize sp ∧ s.Visits order then some (s.notifyThreadExit order sp retval finalize)
    else none
  | _ => none

def State.orSelf : Except Word State → State
  | .ok s' => s'
  | .error _ => s

def step : Event → Option State
  | .create args => some (s.orSelf (s.create args))
  | .takeStack n => s.takeStack n
  | .commitStack n mapOk => s.commitStack n mapOk
  | .takeTls n => s.takeTls n
  | .commitTls n mapOk => s.commitTls n mapOk
  | .register n => s.register n
  | .clone n ok => s.clone n ok
  | .report n order sp retval => s.notice n order sp retval false
  | .exit n order sp retval => (s.notice n order sp retval true).map (·.goto n .ended)
  | .join caller id => some (s.orSelf (s.join caller id))
  | .joinEnd id => (s.joinEnd id).map Prod.fst
  | .detach id => some (s.orSelf (s.detach id))
  | .reserveVmas key count => some { s with vmas := (s.vmas.tryReserve key count).getD s.vmas }
  | .releaseVmas key => some { s with vmas := s.vmas.release key }

/-- All interleavings, from the start of the process. -/
def system : System State Event := .ofStep (· = .init) step

/-- The steps of a `pthread_create` that nothing refuses. -/
def created (n : ℕ) : List Event :=
  [.create { startRoutine := 0x1000 }, .takeStack n, .commitStack n true, .takeTls n, .commitTls n true, .register n,
    .clone n true]

/-- A thread ends at the top of its stack, and is joined by the main thread. -/
def endedAndJoined (n : ℕ) (order : List Word) (stackTop : Word) : List Event :=
  [.exit n order stackTop 0, .join ⟨0, 0, 0x7fffff00⟩ (tid n), .joinEnd (tid n)]

/-! ### What each step does -/

namespace State

variable {s : State} {n : ℕ}

@[simp] lemma reclaim_phase (id : Word) (t : QemuThread) : (s.reclaim id t).phase = s.phase := rfl

lemma failTls_phase (attr : Attr) (stackTop : Word) :
    (s.failTls n attr stackTop).phase = update s.phase n (.failed eagain) := by
  unfold failTls
  split <;> rfl

lemma failTls_nextThreadId (attr : Attr) (stackTop : Word) :
    (s.failTls n attr stackTop).nextThreadId = s.nextThreadId := by
  unfold failTls
  split <;> rfl

lemma failTls_threads (attr : Attr) (stackTop : Word) : (s.failTls n attr stackTop).threads = s.threads := by
  unfold failTls
  split <;> rfl

lemma notifyThreadExit_cases (s : State) (order : List Word) (sp retval : Word) (finalize : Bool) :
    s.notifyThreadExit order sp retval finalize = s ∨
      ∃ id t, s.threads.find? id = some t ∧ t.exitRange sp = true ∧
        (((finalize = false ∨ t.completed = true) ∧ s.notifyThreadExit order sp retval finalize =
            { s with threads := s.threads.insert id (t.reported retval) }) ∨
          (finalize = true ∧ t.completed = false ∧ ∃ v, s.notifyThreadExit order sp retval finalize =
            { s with vmas := v }.reclaim id t) ∨
          (finalize = true ∧ t.completed = false ∧ ∃ v, s.notifyThreadExit order sp retval finalize =
            { s with
              vmas := v
              threads := s.threads.insert id { t.reported retval with completed := true } })) := by
  unfold notifyThreadExit
  split
  · exact .inl rfl
  · rename_i id hfind
    split
    · exact .inl rfl
    · rename_i t ht
      have hany := List.find?_some hfind
      rw [ht] at hany
      refine .inr ⟨id, t, ht, hany, ?_⟩
      split
      · rename_i h
        refine .inl ⟨?_, rfl⟩
        simpa using h
      · rename_i h
        obtain ⟨hf, hc⟩ : finalize = true ∧ t.completed = false := by simpa using h
        split
        · exact .inr (.inl ⟨hf, hc, _, rfl⟩)
        · exact .inr (.inr ⟨hf, hc, _, rfl⟩)

@[simp] lemma notifyThreadExit_phase (s : State) (order : List Word) (sp retval : Word) (finalize : Bool) :
    (s.notifyThreadExit order sp retval finalize).phase = s.phase := by
  rcases s.notifyThreadExit_cases order sp retval finalize with h | ⟨id, t, -, -, ⟨-, h⟩ | ⟨-, -, v, h⟩ | ⟨-, -, v, h⟩⟩ <;>
    exact (congrArg State.phase h).trans rfl

@[simp] lemma notifyThreadExit_nextThreadId (s : State) (order : List Word) (sp retval : Word) (finalize : Bool) :
    (s.notifyThreadExit order sp retval finalize).nextThreadId = s.nextThreadId := by
  rcases s.notifyThreadExit_cases order sp retval finalize with h | ⟨id, t, -, -, ⟨-, h⟩ | ⟨-, -, v, h⟩ | ⟨-, -, v, h⟩⟩ <;>
    exact (congrArg State.nextThreadId h).trans rfl

end State

open State in
/-- **What a step does**, by its outcome. -/
inductive Steps (s : State) : Event → State → Prop
  | uncreated (args : CreateArgs) : Steps s (.create args) s
  | unstarted {args} (detached : Bool) (hx : args.exitInProgress = true) :
      Steps s (.create args) ({ s with
        nextThreadId := s.nextThreadId + 1
        threads := s.threads.insert (tid s.nextThreadId) ⟨0, 0, 0, 0, 0, detached, false, true, false, 0⟩ }.goto
          s.nextThreadId .ended)
  | begun (args : CreateArgs) (attr : Attr) :
      Steps s (.create args) ({ s with nextThreadId := s.nextThreadId + 1 }.goto s.nextThreadId (.begun attr))
  | callerStack {n attr} (hp : s.phase n = .begun attr) (h0 : attr.stackAddr ≠ 0) :
      Steps s (.takeStack n) (s.goto n (.stacked attr (attr.stackAddr + attr.stackSize - 0x100)))
  | noStack {n attr} (hp : s.phase n = .begun attr) : Steps s (.takeStack n) (s.goto n (.failed eagain))
  | tookStack {n attr region recycled a} (hp : s.phase n = .begun attr) (h0 : attr.stackAddr = 0)
      (ht : (s.arena .stack).take .stack = some ((region, recycled), a)) :
      Steps s (.takeStack n) ((s.setArena .stack a).goto n (.tookStack attr region recycled))
  | stacked {n mapOk attr region recycled v} (hp : s.phase n = .tookStack attr region recycled)
      (hr : (s.arena .stack).commit .stack s.vmas region recycled mapOk =
        (s.arena .stack, v, some (region + Kind.stack.offset))) :
      Steps s (.commitStack n mapOk) ({ s with vmas := v }.goto n (.stacked attr (region + Kind.stack.offset)))
  | unstacked {n mapOk attr region recycled a v} (hp : s.phase n = .tookStack attr region recycled)
      (hr : (s.arena .stack).commit .stack s.vmas region recycled mapOk = (a, v, none))
      (ha : a = s.arena .stack ∨ a = (s.arena .stack).push region) :
      Steps s (.commitStack n mapOk) ({ s.setArena .stack a with vmas := v }.goto n (.failed eagain))
  | noTls {n attr stackTop} (hp : s.phase n = .stacked attr stackTop) :
      Steps s (.takeTls n) (s.failTls n attr stackTop)
  | tookTls {n attr stackTop region recycled a} (hp : s.phase n = .stacked attr stackTop)
      (ht : (s.arena .tls).take .tls = some ((region, recycled), a)) :
      Steps s (.takeTls n) ((s.setArena .tls a).goto n (.tookTls attr stackTop region recycled))
  | ready {n mapOk attr stackTop region recycled v} (hp : s.phase n = .tookTls attr stackTop region recycled)
      (hr : (s.arena .tls).commit .tls s.vmas region recycled mapOk =
        (s.arena .tls, v, some (region + Kind.tls.offset))) :
      Steps s (.commitTls n mapOk) ({ s with vmas := v }.goto n (.ready attr stackTop (region + Kind.tls.offset)))
  | unready {n mapOk attr stackTop region recycled a v} (hp : s.phase n = .tookTls attr stackTop region recycled)
      (hr : (s.arena .tls).commit .tls s.vmas region recycled mapOk = (a, v, none))
      (ha : a = s.arena .tls ∨ a = (s.arena .tls).push region) :
      Steps s (.commitTls n mapOk) ({ s.setArena .tls a with vmas := v }.failTls n attr stackTop)
  | registered {n attr stackTop tlsBase} (hp : s.phase n = .ready attr stackTop tlsBase) :
      Steps s (.register n) ({ s with threads := s.threads.insert (tid n) (entry attr stackTop tlsBase) }.goto n
        (.registered stackTop (entry attr stackTop tlsBase).stackSize))
  | cloned {n stackTop stackSize} (ok : Bool) (hp : s.phase n = .registered stackTop stackSize) :
      Steps s (.clone n ok) (s.goto n (if ok then .running stackTop stackSize else .ended))
  | reported {n order sp stackTop stackSize} (retval : Word) (hp : s.phase n = .running stackTop stackSize)
      (hv : s.Visits order) : Steps s (.report n order sp retval) (s.notifyThreadExit order sp retval false)
  | exited {n order sp stackTop stackSize} (retval : Word) (hp : s.phase n = .running stackTop stackSize)
      (hsp : InStack stackTop stackSize sp) (hv : s.Visits order) :
      Steps s (.exit n order sp retval) ((s.notifyThreadExit order sp retval true).goto n .ended)
  | unjoined (caller : Context) (id : Word) : Steps s (.join caller id) s
  | joining {id t} (caller : Context) (ht : s.threads.find? id = some t) (hd : t.detached = false) :
      Steps s (.join caller id) { s with threads := s.threads.insert id { t with joinInProgress := true } }
  | joined {id t} (ht : s.threads.find? id = some t) (hc : t.completed = true) : Steps s (.joinEnd id) (s.reclaim id t)
  | undetached (id : Word) : Steps s (.detach id) s
  | reclaimed {id t} (ht : s.threads.find? id = some t) (hc : t.completed = true) : Steps s (.detach id) (s.reclaim id t)
  | detached {id t} (ht : s.threads.find? id = some t) :
      Steps s (.detach id) { s with threads := s.threads.insert id { t with detached := true } }
  | reserved (key : Word) (count : ℕ) :
      Steps s (.reserveVmas key count) { s with vmas := (s.vmas.tryReserve key count).getD s.vmas }
  | released (key : Word) : Steps s (.releaseVmas key) { s with vmas := s.vmas.release key }

namespace State

variable {s s' : State} {n : ℕ} {mapOk : Bool} {retval id : Word}

lemma orSelf_steps {e : Event} {r : Except Word State} (hself : Steps s e s) (h : ∀ s', r = .ok s' → Steps s e s') :
    Steps s e (s.orSelf r) := by
  cases r with
  | error error => exact hself
  | ok s' => exact h s' rfl

lemma create_steps {args : CreateArgs} (h : s.create args = .ok s') : Steps s (.create args) s' := by
  unfold create at h
  split at h
  · cases h
  · split at h
    · cases h
      exact .unstarted _ ‹_›
    · cases h
      exact .begun args _

lemma takeStack_steps (h : s.takeStack n = some s') : Steps s (.takeStack n) s' := by
  unfold takeStack at h
  split at h
  · rename_i attr hp
    split at h
    · cases h
      exact .callerStack hp ‹_›
    · rename_i h0
      cases ht : (s.arena .stack).take .stack with
      | none =>
        rw [ht] at h
        cases h
        exact .noStack hp
      | some r =>
        rw [ht] at h
        cases h
        exact .tookStack hp (not_not.1 h0) ht
  · cases h

lemma setArena_self (k : Kind) : s.setArena k (s.arena k) = s := by rw [setArena, update_eq_self]

lemma commitStack_steps (h : s.commitStack n mapOk = some s') : Steps s (.commitStack n mapOk) s' := by
  unfold commitStack at h
  split at h
  · rename_i attr region recycled hp
    obtain ⟨v, hr⟩ | ⟨a, v, hr, ha⟩ := Arena.commit_cases .stack (s.arena .stack) s.vmas region recycled mapOk
    · simp only [hr, setCommitted, setArena_self] at h
      cases h
      exact .stacked hp hr
    · rw [hr] at h
      cases h
      exact .unstacked hp hr ha
  · cases h

lemma takeTls_steps (h : s.takeTls n = some s') : Steps s (.takeTls n) s' := by
  unfold takeTls at h
  split at h
  · rename_i attr stackTop hp
    cases ht : (s.arena .tls).take .tls with
    | none =>
      rw [ht] at h
      cases h
      exact .noTls hp
    | some r =>
      rw [ht] at h
      cases h
      exact .tookTls hp ht
  · cases h

lemma commitTls_steps (h : s.commitTls n mapOk = some s') : Steps s (.commitTls n mapOk) s' := by
  unfold commitTls at h
  split at h
  · rename_i attr stackTop region recycled hp
    obtain ⟨v, hr⟩ | ⟨a, v, hr, ha⟩ := Arena.commit_cases .tls (s.arena .tls) s.vmas region recycled mapOk
    · simp only [hr, setCommitted, setArena_self] at h
      cases h
      exact .ready hp hr
    · rw [hr] at h
      cases h
      exact .unready hp hr ha
  · cases h

lemma register_steps (h : s.register n = some s') : Steps s (.register n) s' := by
  unfold register at h
  split at h
  · cases h
    exact .registered ‹_›
  · cases h

lemma clone_steps {ok : Bool} (h : s.clone n ok = some s') : Steps s (.clone n ok) s' := by
  unfold clone at h
  split at h
  · cases h
    exact .cloned ok ‹_›
  · cases h

lemma notice_cases {order : List Word} {sp : Word} {finalize : Bool}
    (h : s.notice n order sp retval finalize = some s') :
    ∃ stackTop stackSize, s.phase n = .running stackTop stackSize ∧ InStack stackTop stackSize sp ∧
      s.Visits order ∧ s' = s.notifyThreadExit order sp retval finalize := by
  unfold notice at h
  split at h
  · split at h
    · rename_i hp hv
      exact ⟨_, _, hp, hv.1, hv.2, (Option.some.inj h).symm⟩
    · cases h
  · cases h

lemma join_steps {caller : Context} (h : s.join caller id = .ok s') : Steps s (.join caller id) s' := by
  unfold join at h
  split at h
  · cases h
  · split at h
    · cases h
    · split at h
      · cases h
      · rename_i t ht
        split at h
        · cases h
        · split at h
          · cases h
          · rename_i hd _
            cases h
            exact .joining caller ht (by simpa using hd)

lemma joinEnd_cases (h : s.joinEnd id = some (s', retval)) :
    ∃ t, s.threads.find? id = some t ∧ t.joinInProgress = true ∧ t.completed = true ∧ s' = s.reclaim id t ∧
      retval = t.returnValue := by
  unfold joinEnd at h
  split at h
  · cases h
  · rename_i t ht
    split at h
    · rename_i hc
      obtain ⟨hj, hc⟩ : t.joinInProgress = true ∧ t.completed = true := by simpa using hc
      cases h
      exact ⟨t, ht, hj, hc, rfl, rfl⟩
    · cases h

lemma detach_cases (h : s.detach id = .ok s') :
    ∃ t, s.threads.find? id = some t ∧ t.detached = false ∧ t.joinInProgress = false ∧
      ((t.completed = true ∧ s' = s.reclaim id t) ∨
        (t.completed = false ∧ s' = { s with threads := s.threads.insert id { t with detached := true } })) := by
  unfold detach at h
  split at h
  · cases h
  · split at h
    · cases h
    · rename_i t ht
      split at h
      · cases h
      · rename_i hd
        obtain ⟨hd, hj⟩ : t.detached = false ∧ t.joinInProgress = false := by simpa using hd
        refine ⟨t, ht, hd, hj, ?_⟩
        split at h
        · exact .inl ⟨‹_›, (Except.ok.inj h).symm⟩
        · rename_i hc
          exact .inr ⟨by simpa using hc, (Except.ok.inj h).symm⟩

end State

open State in
/-- Every step is one of them. -/
theorem steps_of_step {s s' : State} {e : Event} (h : step s e = some s') : Steps s e s' := by
  cases e with
  | create args =>
    cases h
    exact orSelf_steps (.uncreated args) fun _ => create_steps
  | takeStack n => exact takeStack_steps h
  | commitStack n mapOk => exact commitStack_steps h
  | takeTls n => exact takeTls_steps h
  | commitTls n mapOk => exact commitTls_steps h
  | register n => exact register_steps h
  | clone n ok => exact clone_steps h
  | report n order sp retval =>
    obtain ⟨_, _, hp, -, hv, rfl⟩ := notice_cases h
    exact .reported retval hp hv
  | exit n order sp retval =>
    obtain ⟨_, h₁, rfl⟩ := Option.map_eq_some_iff.1 h
    obtain ⟨_, _, hp, hsp, hv, rfl⟩ := notice_cases h₁
    exact .exited retval hp hsp hv
  | join caller id =>
    cases h
    exact orSelf_steps (.unjoined caller id) fun _ => join_steps
  | joinEnd id =>
    obtain ⟨⟨s₁, retval⟩, h₁, rfl⟩ := Option.map_eq_some_iff.1 h
    obtain ⟨t, ht, -, hc, rfl, -⟩ := joinEnd_cases h₁
    exact .joined ht hc
  | detach id =>
    cases h
    refine orSelf_steps (.undetached id) fun s' hd => ?_
    obtain ⟨t, ht, -, -, ⟨hc, rfl⟩ | ⟨-, rfl⟩⟩ := detach_cases hd
    · exact .reclaimed ht hc
    · exact .detached ht
  | reserveVmas key count =>
    cases h
    exact .reserved key count
  | releaseVmas key =>
    cases h
    exact .released key

/-- The event moves the `n`-th thread to this phase. -/
inductive Moves (s : State) : Event → ℕ → Phase → Prop
  | begun (args : CreateArgs) (attr : Attr) : Moves s (.create args) s.nextThreadId (.begun attr)
  | unstarted (args : CreateArgs) : Moves s (.create args) s.nextThreadId .ended
  | callerStack {n attr} : s.phase n = .begun attr → attr.stackAddr ≠ 0 →
      Moves s (.takeStack n) n (.stacked attr (attr.stackAddr + attr.stackSize - 0x100))
  | noStack {n attr} : s.phase n = .begun attr → Moves s (.takeStack n) n (.failed eagain)
  | tookStack {n attr region recycled a} : s.phase n = .begun attr →
      attr.stackAddr = 0 → (s.arena .stack).take .stack = some ((region, recycled), a) →
      Moves s (.takeStack n) n (.tookStack attr region recycled)
  | stacked {n attr region recycled mapOk} : s.phase n = .tookStack attr region recycled →
      Moves s (.commitStack n mapOk) n (.stacked attr (region + Kind.stack.offset))
  | unstacked {n attr region recycled mapOk} :
      s.phase n = .tookStack attr region recycled → Moves s (.commitStack n mapOk) n (.failed eagain)
  | noTls {n attr stackTop} : s.phase n = .stacked attr stackTop →
      Moves s (.takeTls n) n (.failed eagain)
  | tookTls {n attr stackTop region recycled} : s.phase n = .stacked attr stackTop →
      Moves s (.takeTls n) n (.tookTls attr stackTop region recycled)
  | ready {n attr stackTop region recycled mapOk} :
      s.phase n = .tookTls attr stackTop region recycled →
      Moves s (.commitTls n mapOk) n (.ready attr stackTop (region + Kind.tls.offset))
  | unready {n attr stackTop region recycled mapOk} :
      s.phase n = .tookTls attr stackTop region recycled → Moves s (.commitTls n mapOk) n (.failed eagain)
  | registered {n attr stackTop tlsBase} : s.phase n = .ready attr stackTop tlsBase →
      Moves s (.register n) n (.registered stackTop (State.entry attr stackTop tlsBase).stackSize)
  | running {n stackTop stackSize} : s.phase n = .registered stackTop stackSize →
      Moves s (.clone n true) n (.running stackTop stackSize)
  | uncloned {n stackTop stackSize} : s.phase n = .registered stackTop stackSize →
      Moves s (.clone n false) n .ended
  | ended {n order sp retval stackTop stackSize} : s.phase n = .running stackTop stackSize →
      Moves s (.exit n order sp retval) n .ended

open State in
/-- **A step moves at most one thread**, and the counter only grows. -/
theorem step_moves {s s' : State} {e : Event} (h : step s e = some s') :
    s.nextThreadId ≤ s'.nextThreadId ∧
      (s'.phase = s.phase ∨ ∃ n p, Moves s e n p ∧ s'.phase = update s.phase n p) := by
  cases steps_of_step h with
  | unstarted => exact ⟨Nat.le_succ _, .inr ⟨_, _, .unstarted _, rfl⟩⟩
  | begun => exact ⟨Nat.le_succ _, .inr ⟨_, _, .begun _ _, rfl⟩⟩
  | callerStack hp h0 => exact ⟨le_rfl, .inr ⟨_, _, .callerStack hp h0, rfl⟩⟩
  | noStack hp => exact ⟨le_rfl, .inr ⟨_, _, .noStack hp, rfl⟩⟩
  | tookStack hp h0 ht => exact ⟨le_rfl, .inr ⟨_, _, .tookStack hp h0 ht, rfl⟩⟩
  | stacked hp => exact ⟨le_rfl, .inr ⟨_, _, .stacked hp, rfl⟩⟩
  | unstacked hp => exact ⟨le_rfl, .inr ⟨_, _, .unstacked hp, rfl⟩⟩
  | noTls hp => exact ⟨(failTls_nextThreadId ..).ge, .inr ⟨_, _, .noTls hp, failTls_phase ..⟩⟩
  | tookTls hp => exact ⟨le_rfl, .inr ⟨_, _, .tookTls hp, rfl⟩⟩
  | ready hp => exact ⟨le_rfl, .inr ⟨_, _, .ready hp, rfl⟩⟩
  | unready hp =>
    refine ⟨?_, .inr ⟨_, _, .unready hp, failTls_phase ..⟩⟩
    rw [failTls_nextThreadId]
    exact le_rfl
  | registered hp => exact ⟨le_rfl, .inr ⟨_, _, .registered hp, rfl⟩⟩
  | cloned ok hp =>
    cases ok
    · exact ⟨le_rfl, .inr ⟨_, _, .uncloned hp, rfl⟩⟩
    · exact ⟨le_rfl, .inr ⟨_, _, .running hp, rfl⟩⟩
  | reported => exact ⟨(notifyThreadExit_nextThreadId ..).ge, .inl (notifyThreadExit_phase ..)⟩
  | exited retval hp =>
    refine ⟨(notifyThreadExit_nextThreadId ..).ge, .inr ⟨_, _, .ended hp, ?_⟩⟩
    exact congrArg (update · _ Phase.ended) (notifyThreadExit_phase ..)
  | uncreated | unjoined | joining | joined | undetached | reclaimed | detached | reserved | released =>
    exact ⟨le_rfl, .inl rfl⟩

lemma step_phase {s s' : State} {e : Event} (h : step s e = some s') (n : ℕ) :
    s'.phase n = s.phase n ∨ ∃ p, s'.phase n = p ∧ Moves s e n p := by
  obtain ⟨-, hsame | ⟨m, p, hm, hphase⟩⟩ := step_moves h
  · exact .inl (by rw [hsame])
  · by_cases hn : n = m
    · subst hn
      exact .inr ⟨p, by rw [hphase, update_self], hm⟩
    · exact .inl (by rw [hphase, update_of_ne hn])

end CrossShim.Threads
