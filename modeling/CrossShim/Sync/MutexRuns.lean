import CrossShim.Lib.Monitor
import CrossShim.Sync.Mutex

/-!
# The threads that share a mutex

The calls on one mutex as a monitor: locks of all kinds, unlocks and condition waits.  The host knows a caller by its
host thread `ι`; the guest knows it by an identity of its own, and the callback of a timer runs under a new identity
on the host thread of the guest thread that processes the timer.  So an identity is a host thread and a number, 0
for the guest thread itself.

`MutexOk` is mutual exclusion of the identities, and `Alone` the condition on a step under which it holds;
`runSection_does` says everything a section can do.
-/

namespace CrossShim.Sync

open Lib Option Function HostMutex

/-! ### The calls -/

inductive LockOp where
  | lock
  | trylock
  | timedlock (clockid : ClockId) (abstime : Option Timespec)
  | unlock
  | wait (clockid : ClockId) (abstime : Option Timespec)
  deriving DecidableEq

/-- A call of one of the identities of a host thread. -/
structure LockCall where
  who : ℕ
  op : LockOp

/-- Where a call is: at its beginning, waiting for the host mutex, or in a condition wait with `held` levels before it.
-/
inductive LockPlace where
  | enter
  | acquire
  | acquireUntil
  | reacquire (held : ℕ)

variable {ι : Type*} [DecidableEq ι]

namespace HostMutex

/-- The first half of `wait_cond_with_clock`: the mutex is given up, one level of it as far as the host goes. -/
def waitCond (m : HostMutex ι) (i : ι) (clockid : ClockId) (abstime : Option Timespec) (now : Now) :
    Outcome (HostMutex ι) LockPlace Ret :=
  if ¬ clockid.Valid then ⟨m, .nobody, .ret (.err .EINVAL)⟩
  else if ¬ m.Owns i then ⟨m, .nobody, .ret (.err .EPERM)⟩
  else
    match prepareRwlockDeadline abstime clockid now with
    | .err e => ⟨m, .nobody, .ret (.err e)⟩
    | .ok =>
      ⟨{ m with mtx := m.mtx.unlock, ownerThread := none, lockCount := 0 }, .all, .sleep (.reacquire m.lockCount)⟩

/-- The second half: the host mutex is taken back, and with it the ownership. -/
def restoreOwnership (m : HostMutex ι) (i : ι) (held : ℕ) : Option (HostMutex ι) :=
  (m.mtx.lock? i).map fun mtx => { m with mtx := mtx, ownerThread := some i, lockCount := held }

/-- A section of a call. Before it waits for the host mutex a call checks whether its own thread has the mutex, which no
other thread changes, so the check and the first try are one section. -/
def runSection (i : ι) (c : LockCall) (p : LockPlace) (t : Sight) (m : HostMutex ι) :
    Outcome (HostMutex ι) LockPlace Ret :=
  match p with
  | .enter =>
    match c.op with
    | .lock =>
      match m.lock i with
      | some (r, m') => ⟨m', .nobody, .ret r⟩
      | none => ⟨m, .nobody, .sleep .acquire⟩
    | .trylock => ⟨(m.trylock i).2, .nobody, .ret (m.trylock i).1⟩
    | .timedlock clockid abstime =>
      match m.lockWithTimeout i clockid abstime t.now with
      | some (r, m') => ⟨m', .nobody, .ret r⟩
      | none => ⟨m, .nobody, .sleep (if abstime = none then .acquire else .acquireUntil)⟩
    | .unlock => ⟨(m.unlock i).2, .all, .ret (m.unlock i).1⟩
    | .wait clockid abstime => m.waitCond i clockid abstime t.now
  | .acquire =>
    match m.take i with
    | some m' => ⟨m', .nobody, .ret .ok⟩
    | none => ⟨m, .nobody, .sleep .acquire⟩
  | .acquireUntil =>
    if t.timedOut then ⟨m, .nobody, .ret (.err .ETIMEDOUT)⟩
    else
      match m.take i with
      | some m' => ⟨m', .nobody, .ret .ok⟩
      | none => ⟨m, .nobody, .sleep .acquireUntil⟩
  | .reacquire held =>
    match m.restoreOwnership i held with
    | some m' => ⟨m', .nobody, .ret (if t.timedOut then .err .ETIMEDOUT else .ok)⟩
    | none => ⟨m, .nobody, .sleep (.reacquire held)⟩

end HostMutex

def mutexMonitor : Monitor ι LockCall LockPlace Sight (HostMutex ι) Ret := ⟨fun _ => .enter, runSection⟩

abbrev MutexState (ι : Type*) := Monitor.State ι LockCall LockPlace (HostMutex ι) Ret

def mutexSystem : System (MutexState ι) (Monitor.Event ι LockCall Sight) :=
  mutexMonitor.system fun m => m.Idle ∧ m.type ≠ .recursive

/-! ### Who has the mutex -/

/-- How often each identity has locked the mutex and not unlocked it, after one more call. -/
def netAfter (net : ι → ℕ → ℕ) (i : ι) (c : LockCall) : Ret → ι → ℕ → ℕ
  | .err _ => net
  | .ok =>
    match c.op with
    | .lock | .trylock | .timedlock _ _ => update net i (update (net i) c.who (net i c.who + 1))
    | .unlock => update net i (update (net i) c.who (net i c.who - 1))
    | .wait _ _ => net

/-- How often each identity has locked the mutex and not unlocked it. -/
def net : List (ι × LockCall × Ret) → ι → ℕ → ℕ
  | [] => fun _ _ => 0
  | (i, c, r) :: log => netAfter (net log) i c r

/-- A place in a condition wait: the identity, and how often it had locked the mutex. -/
def waitsAt : Option (LockCall × LockPlace) → Option (ℕ × ℕ)
  | some (c, .reacquire held) => some (c.who, held)
  | _ => none

/-- The threads that have given up the mutex for a condition wait. -/
def waits (s : MutexState ι) (i : ι) : Option (ℕ × ℕ) := waitsAt (s.place i)

/-- The identity is between a lock and its unlock, and has not given up the mutex for a condition wait. -/
def Holding (s : MutexState ι) (i : ι) (who : ℕ) : Prop :=
  0 < net s.log i who ∧ ∀ held, waits s i ≠ some (who, held)

/-- At most one identity has the mutex, and its unlock succeeds. -/
def MutexOk (s : MutexState ι) : Prop :=
  (∀ i who j who', Holding s i who → Holding s j who' → i = j ∧ who = who') ∧
    ∀ i c t, s.place i = some (c, .enter) → c.op = .unlock → Holding s i c.who →
      ∃ m', mutexMonitor.run i c .enter t s.data = ⟨m', .all, .ret .ok⟩

/-- The condition on a step: an identity does not lock a normal mutex, unlock the mutex or wait with it, while
another identity of its host thread has the mutex. -/
def Alone (s : MutexState ι) : Monitor.Event ι LockCall Sight → Prop
  | .run i _ _ => ∀ c, s.place i = some (c, .enter) →
      (c.op = .lock ∧ s.data.type = .normal) ∨ c.op = .unlock ∨ (∃ clockid abstime, c.op = .wait clockid abstime) →
      ∀ who, who ≠ c.who → ¬ Holding s i who
  | _ => True

/-! ### Sections -/

def LockOp.Locks : LockOp → Prop
  | .lock | .trylock | .timedlock _ _ => True
  | _ => False

def LockCall.At (c : LockCall) : LockPlace → Prop
  | .enter => True
  | .acquire | .acquireUntil => c.op.Locks
  | .reacquire _ => ∃ clockid abstime, c.op = .wait clockid abstime

def LockPlace.Blocked (p : LockPlace) : Prop := p = .acquire ∨ p = .acquireUntil

inductive Does (m : HostMutex ι) (i : ι) (c : LockCall) (p : LockPlace) : Outcome (HostMutex ι) LockPlace Ret → Prop
  | fail (w : Wake) (e : Errno) : (∀ held, p ≠ .reacquire held) → Does m i c p ⟨m, w, .ret (.err e)⟩
  | block (q : LockPlace) : m.mtx.lock? i = none → c.op.Locks → q.Blocked → (∀ held, p ≠ .reacquire held) →
      Does m i c p ⟨m, .nobody, .sleep q⟩
  | take (m' : HostMutex ι) : m.take i = some m' → c.op.Locks → (∀ held, p ≠ .reacquire held) →
      (p = .enter → m.Owns i → c.op = .lock ∧ m.type = .normal) → Does m i c p ⟨m', .nobody, .ret .ok⟩
  | unlock : p = .enter → c.op = .unlock → m.Owns i → Does m i c p ⟨(m.unlock i).2, .all, .ret .ok⟩
  | release : p = .enter → (∃ clockid abstime, c.op = .wait clockid abstime) → m.Owns i →
      Does m i c p ⟨{ m with mtx := m.mtx.unlock, ownerThread := none, lockCount := 0 }, .all,
        .sleep (.reacquire m.lockCount)⟩
  | sleepOn (held : ℕ) : p = .reacquire held → Does m i c p ⟨m, .nobody, .sleep (.reacquire held)⟩
  | restore (held : ℕ) (m' : HostMutex ι) (r : Ret) : p = .reacquire held → m.restoreOwnership i held = some m' →
      Does m i c p ⟨m', .nobody, .ret r⟩

section Sections

variable {m : HostMutex ι} {i : ι} {c : LockCall} {p : LockPlace} {clockid : ClockId} {abstime : Option Timespec}

lemma lock?_of_take_none (h : m.take i = none) : m.mtx.lock? i = none := by
  simpa only [take, map_eq_none_iff] using h

lemma does_take {q : LockPlace} (hop : c.op.Locks) (hq : q.Blocked) (hp : ∀ held, p ≠ .reacquire held)
    (howns : p = .enter → m.Owns i → c.op = .lock ∧ m.type = .normal) :
    Does m i c p (match m.take i with
      | some m' => ⟨m', .nobody, .ret .ok⟩
      | none => ⟨m, .nobody, .sleep q⟩) := by
  cases hm : m.take i with
  | some m' => exact .take m' hm hop hp howns
  | none => exact .block q (lock?_of_take_none hm) hop hq hp

section

variable (htype : m.type ≠ .recursive)
include htype

lemma lock_eq :
    m.lock i = if m.Owns i ∧ m.type = .errorcheck then some (.err .EDEADLK, m) else (m.take i).map (.ok, ·) := by
  by_cases ho : m.Owns i <;> cases ht : m.type <;> simp_all [lock]

lemma does_lock (hop : c.op = .lock) (t : Sight) : Does m i c .enter (m.runSection i c .enter t) := by
  have hlocks : c.op.Locks := by rw [hop]; trivial
  simp only [runSection, hop, lock_eq htype]
  by_cases h : m.Owns i ∧ m.type = .errorcheck
  · rw [if_pos h]
    exact .fail _ _ nofun
  · rw [if_neg h]
    have hnormal : m.Owns i → m.type = .normal := by
      intro ho
      cases ht : m.type with
      | normal => rfl
      | recursive => exact absurd ht htype
      | errorcheck => exact absurd ⟨ho, ht⟩ h
    have := does_take (m := m) (i := i) (p := .enter) hlocks (.inl rfl) nofun fun _ ho => ⟨hop, hnormal ho⟩
    cases hm : m.take i <;> simpa only [hm, map_none, map_some] using this

lemma does_trylock (hop : c.op = .trylock) (t : Sight) : Does m i c .enter (m.runSection i c .enter t) := by
  have hlocks : c.op.Locks := by rw [hop]; trivial
  simp only [runSection, hop]
  by_cases ho : m.Owns i
  · have herr : ∃ e, m.trylock i = (.err e, m) := by
      unfold trylock
      rw [if_pos ho]
      cases ht : m.type with
      | normal => exact ⟨_, rfl⟩
      | recursive => exact absurd ht htype
      | errorcheck =>
        dsimp only
        split
        · exact ⟨_, rfl⟩
        · exact ⟨_, rfl⟩
    obtain ⟨e, he⟩ := herr
    rw [he]
    exact .fail _ e nofun
  · unfold trylock
    rw [if_neg ho]
    cases hm : m.take i with
    | some m' => exact .take m' hm hlocks nofun fun _ h => absurd h ho
    | none => exact .fail _ _ nofun

lemma does_timedlock (hop : c.op = .timedlock clockid abstime) (t : Sight) :
    Does m i c .enter (m.runSection i c .enter t) := by
  have hlocks : c.op.Locks := by rw [hop]; trivial
  simp only [runSection, hop]
  by_cases ho : m.Owns i
  · have herr : ∃ e, m.lockWithTimeout i clockid abstime t.now = some (.err e, m) := by
      unfold lockWithTimeout
      rw [if_pos ho]
      cases ht : m.type with
      | normal =>
        dsimp only
        split
        · exact ⟨_, rfl⟩
        · split
          · exact ⟨_, rfl⟩
          · exact ⟨_, rfl⟩
      | recursive => exact absurd ht htype
      | errorcheck => exact ⟨_, rfl⟩
    obtain ⟨e, he⟩ := herr
    rw [he]
    exact .fail _ e nofun
  · unfold lockWithTimeout
    rw [if_neg ho]
    cases prepareRwlockDeadline abstime clockid t.now with
    | err e => exact .fail _ e nofun
    | ok =>
      have hq : (if abstime = none then LockPlace.acquire else .acquireUntil).Blocked := by
        split
        · exact .inl rfl
        · exact .inr rfl
      have := does_take (m := m) (i := i) (p := .enter) hlocks hq nofun fun _ h => absurd h ho
      cases hm : m.take i <;> simpa only [hm, map_none, map_some] using this

end

lemma does_unlock (hop : c.op = .unlock) (t : Sight) : Does m i c .enter (m.runSection i c .enter t) := by
  simp only [runSection, hop]
  by_cases ho : m.Owns i
  · have hok : (m.unlock i).1 = .ok := by rw [unlock, if_neg (not_not.2 ho)]
    rw [hok]
    exact .unlock rfl hop ho
  · rw [unlock, if_pos ho]
    exact .fail _ _ (by rintro _ ⟨⟩)

lemma does_wait (hop : c.op = .wait clockid abstime) (t : Sight) : Does m i c .enter (m.runSection i c .enter t) := by
  simp only [runSection, hop, waitCond]
  split
  · exact .fail _ _ nofun
  · split
    · exact .fail _ _ nofun
    · rename_i ho
      split
      · exact .fail _ _ nofun
      · exact .release rfl ⟨clockid, abstime, hop⟩ (not_not.1 ho)

/-- **Everything a section can do.** -/
theorem runSection_does (htype : m.type ≠ .recursive) (hat : c.At p) (t : Sight) :
    Does m i c p (m.runSection i c p t) := by
  cases p with
  | enter =>
    cases hop : c.op with
    | lock => exact does_lock htype hop t
    | trylock => exact does_trylock htype hop t
    | timedlock clockid abstime => exact does_timedlock htype hop t
    | unlock => exact does_unlock hop t
    | wait clockid abstime => exact does_wait hop t
  | acquire => exact does_take hat (.inl rfl) nofun nofun
  | acquireUntil =>
    simp only [runSection]
    split
    · exact .fail _ _ nofun
    · exact does_take hat (.inr rfl) nofun nofun
  | reacquire held =>
    simp only [runSection]
    cases hm : m.restoreOwnership i held with
    | some m' => exact .restore held m' _ rfl hm
    | none => exact .sleepOn held rfl

end Sections

end CrossShim.Sync
