import CrossShim.Lib.Monitor
import CrossShim.Sync.Mutex

/-!
# Writer-preferring read-write locks

The state of a writer-preferring lock, and its calls as sections of a monitor: what a call does when it is made
(`lockReader`, `lockWriter`, `unlock`), and what it does each time it is woken (`readerAwake`, `writerAwake`).  The
threads `ι` are host threads, known by their tokens.

A timed call looks at its deadline before it looks at the lock, so it can fail although the lock is free:
`timed_locks_succeed_iff` says when a timed lock of a mutex, a timed read lock and a timed write lock succeed that
could do so at once.
-/

namespace CrossShim.Sync

open Lib

/-- `try_only`, the clock and the time of a call; without a time it waits for ever. -/
inductive LockMode where
  | tryOnly
  | wait (clockid : ClockId) (abstime : Option Timespec)
  deriving DecidableEq

def LockMode.Timed : LockMode → Prop
  | .wait _ (some _) => True
  | _ => False

instance (mode : LockMode) : Decidable mode.Timed := by
  unfold LockMode.Timed
  split <;> infer_instance

inductive RwCall where
  | rdlock (mode : LockMode)
  | wrlock (mode : LockMode)
  | unlock
  deriving DecidableEq

/-- Where a call is: at its beginning, or waiting. -/
inductive RwPlace where
  | enter
  | readWait
  | writeWait
  deriving DecidableEq

/-- The counts are `int` in the source, the token of no thread is 0. -/
structure HostRWLock (ι : Type*) [LinearOrder ι] where
  readerCounts : OrdMap ι ℤ := .empty
  activeReaders : ℤ := 0
  waitingWriters : ℤ := 0
  writerActive : Bool := false
  writerTid : Option ι := none

open HostRWLock

namespace HostRWLock

variable {ι : Type*} [LinearOrder ι] (rwlock : HostRWLock ι) (tid : ι)

def IsWriter : Prop := rwlock.writerActive = true ∧ rwlock.writerTid = some tid

instance : Decidable (rwlock.IsWriter tid) := inferInstanceAs (Decidable (_ ∧ _))

/-- `can_acquire_writer_pref_reader_locked`. -/
def CanRead : Prop := rwlock.writerActive = false ∧ ¬ (0 < rwlock.waitingWriters ∧ rwlock.readerCounts.find? tid = none)

instance : Decidable (rwlock.CanRead tid) := inferInstanceAs (Decidable (_ ∧ _))

/-- `can_acquire` of `lock_writer_pref_writer`. -/
def CanWrite : Prop := rwlock.writerActive = false ∧ rwlock.activeReaders = 0

instance : Decidable rwlock.CanWrite := inferInstanceAs (Decidable (_ ∧ _))

/-- `acquire_writer_pref_reader_locked`. -/
def acquireReader : HostRWLock ι :=
  { rwlock with
    readerCounts := rwlock.readerCounts.insert tid ((rwlock.readerCounts.find? tid).getD 0 + 1)
    activeReaders := rwlock.activeReaders + 1 }

def acquireWriter : HostRWLock ι := { rwlock with writerActive := true, writerTid := some tid }

/-- `clear_waiter`, without its `notify_all`. -/
def clearWaiter : HostRWLock ι := { rwlock with waitingWriters := rwlock.waitingWriters - 1 }

/-- The loop of `lock_writer_pref_reader`, each time its condition is looked at. -/
def readerAwake (timedOut : Bool) : Outcome (HostRWLock ι) RwPlace Ret :=
  if rwlock.CanRead tid then ⟨rwlock.acquireReader tid, .nobody, .ret .ok⟩
  else if timedOut then ⟨rwlock, .nobody, .ret (.err .ETIMEDOUT)⟩
  else ⟨rwlock, .nobody, .sleep .readWait⟩

/-- `lock_writer_pref_reader`. -/
def lockReader (mode : LockMode) (now : Now) : Outcome (HostRWLock ι) RwPlace Ret :=
  if rwlock.IsWriter tid then ⟨rwlock, .nobody, .ret (.err .EDEADLK)⟩
  else if (rwlock.readerCounts.find? tid).isSome then ⟨rwlock.acquireReader tid, .nobody, .ret .ok⟩
  else
    match mode with
    | .tryOnly =>
      if ¬ rwlock.CanRead tid then ⟨rwlock, .nobody, .ret (.err .EBUSY)⟩
      else ⟨rwlock.acquireReader tid, .nobody, .ret .ok⟩
    | .wait clockid abstime =>
      match prepareRwlockDeadline abstime clockid now with
      | .err e => ⟨rwlock, .nobody, .ret (.err e)⟩
      | .ok => rwlock.readerAwake tid false

/-- The loop of `lock_writer_pref_writer`, each time its condition is looked at. -/
def writerAwake (timedOut : Bool) : Outcome (HostRWLock ι) RwPlace Ret :=
  if rwlock.CanWrite then ⟨rwlock.clearWaiter.acquireWriter tid, .all, .ret .ok⟩
  else if timedOut then ⟨rwlock.clearWaiter, .all, .ret (.err .ETIMEDOUT)⟩
  else ⟨rwlock, .nobody, .sleep .writeWait⟩

/-- `lock_writer_pref_writer`. -/
def lockWriter (mode : LockMode) (now : Now) : Outcome (HostRWLock ι) RwPlace Ret :=
  if rwlock.IsWriter tid then ⟨rwlock, .nobody, .ret (.err .EDEADLK)⟩
  else if (rwlock.readerCounts.find? tid).isSome then ⟨rwlock, .nobody, .ret (.err .EDEADLK)⟩
  else
    match mode with
    | .tryOnly =>
      if ¬ rwlock.CanWrite then ⟨rwlock, .nobody, .ret (.err .EBUSY)⟩ else ⟨rwlock.acquireWriter tid, .nobody, .ret .ok⟩
    | .wait clockid abstime =>
      let waiting := { rwlock with waitingWriters := rwlock.waitingWriters + 1 }
      match prepareRwlockDeadline abstime clockid now with
      | .err e => ⟨waiting.clearWaiter, .all, .ret (.err e)⟩
      | .ok => waiting.writerAwake tid false

/-- `unlock_rwlock`. -/
def unlock : Outcome (HostRWLock ι) RwPlace Ret :=
  if rwlock.IsWriter tid then ⟨{ rwlock with writerActive := false, writerTid := none }, .all, .ret .ok⟩
  else
    match rwlock.readerCounts.find? tid with
    | none => ⟨rwlock, .nobody, .ret (.err .EINVAL)⟩
    | some count =>
      if count ≤ 0 then ⟨rwlock, .nobody, .ret (.err .EINVAL)⟩
      else
        let counts :=
          if count - 1 = 0 then rwlock.readerCounts.erase tid else rwlock.readerCounts.insert tid (count - 1)
        let active := rwlock.activeReaders - 1
        ⟨{ rwlock with readerCounts := counts, activeReaders := active }, if active = 0 then .all else .nobody,
          .ret .ok⟩

/-- A section of a call.  A wait without a deadline does not time out. -/
def runSection (tid : ι) (c : RwCall) (p : RwPlace) (t : Sight) (rwlock : HostRWLock ι) :
    Outcome (HostRWLock ι) RwPlace Ret :=
  match c, p with
  | .rdlock mode, .enter => rwlock.lockReader tid mode t.now
  | .rdlock mode, _ => rwlock.readerAwake tid (t.timedOut && decide mode.Timed)
  | .wrlock mode, .enter => rwlock.lockWriter tid mode t.now
  | .wrlock mode, _ => rwlock.writerAwake tid (t.timedOut && decide mode.Timed)
  | .unlock, _ => rwlock.unlock tid

end HostRWLock

/-! ### Timed locks that could succeed at once -/

section Timed

variable {ι : Type*} {clockid : ClockId} {abstime : Option Timespec} {now : Now}

/-- The thread can take the mutex: the host mutex is there for it, and it has it only if it is recursive. -/
def HostMutex.Ready (m : HostMutex ι) (i : ι) : Prop := m.mtx.Available i ∧ (m.Owns i → m.type = .recursive)

lemma lockWithTimeout_ok_iff [DecidableEq ι] {m : HostMutex ι} {i : ι} (h : m.Ready i) :
    (∃ m', m.lockWithTimeout i clockid abstime now = some (.ok, m')) ↔ m.Owns i ∨ Ahead abstime clockid now := by
  obtain ⟨hav, hrec⟩ := h
  obtain ⟨mtx, hlock⟩ : ∃ mtx, m.mtx.lock? i = some mtx :=
    Option.ne_none_iff_exists'.1 fun hn => RecMutex.lock?_eq_none.1 hn hav
  by_cases ho : m.Owns i
  · refine iff_of_true ?_ (.inl ho)
    simp [HostMutex.lockWithTimeout, ho, hrec ho, HostMutex.again, hlock]
  · rw [or_iff_right ho, ← prepareRwlockDeadline_eq_ok]
    cases hd : prepareRwlockDeadline abstime clockid now with
    | ok => simp [HostMutex.lockWithTimeout, ho, hd, HostMutex.take, hlock]
    | err e => simp [HostMutex.lockWithTimeout, ho, hd]

variable [LinearOrder ι] {rwlock : HostRWLock ι} {tid : ι}

lemma lockReader_ok_iff (h : rwlock.CanRead tid) :
    (rwlock.lockReader tid (.wait clockid abstime) now).next = .ret .ok ↔
      (rwlock.readerCounts.find? tid).isSome ∨ Ahead abstime clockid now := by
  have hw : ¬ rwlock.IsWriter tid := fun hw => by
    have := h.1.symm.trans hw.1
    cases this
  rw [← prepareRwlockDeadline_eq_ok]
  by_cases hr : (rwlock.readerCounts.find? tid).isSome
  · simp [lockReader, hw, hr]
  · cases hd : prepareRwlockDeadline abstime clockid now with
    | ok => simp [lockReader, hw, hr, hd, readerAwake, h]
    | err e => simp [lockReader, hw, hr, hd]

lemma lockWriter_ok_iff (h : rwlock.CanWrite) (hr : rwlock.readerCounts.find? tid = none) :
    (rwlock.lockWriter tid (.wait clockid abstime) now).next = .ret .ok ↔ Ahead abstime clockid now := by
  have hw : ¬ rwlock.IsWriter tid := fun hw => by
    have := h.1.symm.trans hw.1
    cases this
  have hcan : { rwlock with waitingWriters := rwlock.waitingWriters + 1 }.CanWrite := h
  rw [← prepareRwlockDeadline_eq_ok]
  cases hd : prepareRwlockDeadline abstime clockid now with
  | ok => simp [lockWriter, hw, hr, hd, writerAwake, hcan]
  | err e => simp [lockWriter, hw, hr, hd]

/-- **Timed locks.** A timed lock of a mutex, a timed read lock and a timed write lock that could have their lock at
once succeed exactly if their deadline is still to come, or the caller has the recursive mutex or a read lock. -/
theorem timed_locks_succeed_iff (clockid : ClockId) (abstime : Option Timespec) (now : Now) :
    (∀ (m : HostMutex ι) (i : ι), m.Ready i →
        ((∃ m', m.lockWithTimeout i clockid abstime now = some (.ok, m')) ↔ m.Owns i ∨ Ahead abstime clockid now)) ∧
      (∀ (rwlock : HostRWLock ι) (tid : ι), rwlock.CanRead tid →
        ((rwlock.lockReader tid (.wait clockid abstime) now).next = .ret .ok ↔
          (rwlock.readerCounts.find? tid).isSome ∨ Ahead abstime clockid now)) ∧
      ∀ (rwlock : HostRWLock ι) (tid : ι), rwlock.CanWrite → rwlock.readerCounts.find? tid = none →
        ((rwlock.lockWriter tid (.wait clockid abstime) now).next = .ret .ok ↔ Ahead abstime clockid now) :=
  ⟨fun _ _ h => lockWithTimeout_ok_iff h, fun _ _ h => lockReader_ok_iff h, fun _ _ h hr => lockWriter_ok_iff h hr⟩

/-- One second after the epoch, seen from the epoch. -/
theorem timed_locks_succeed_ahead :
    (∃ m', ({} : HostMutex ℕ).lockWithTimeout 0 .realtime (some ⟨1, 0⟩) (.ok 0) = some (.ok, m')) ∧
      (({} : HostRWLock ℕ).lockReader 0 (.wait .realtime (some ⟨1, 0⟩)) (.ok 0)).next = .ret .ok ∧
      (({} : HostRWLock ℕ).lockWriter 0 (.wait .realtime (some ⟨1, 0⟩)) (.ok 0)).next = .ret .ok := by
  obtain ⟨hmutex, hread, hwrite⟩ := timed_locks_succeed_iff (ι := ℕ) .realtime (some ⟨1, 0⟩) (.ok 0)
  have hahead : Ahead (some ⟨1, 0⟩) .realtime (.ok 0) := by
    rintro _ ⟨⟩
    exact ⟨.inl rfl, by decide, 0, rfl, by decide⟩
  exact ⟨(hmutex {} 0 ⟨nofun, nofun⟩).2 (.inr hahead), (hread {} 0 ⟨rfl, nofun⟩).2 (.inr hahead),
    (hwrite {} 0 ⟨rfl, rfl⟩ rfl).2 hahead⟩

/-- A timed lock of a free mutex returns `ETIMEDOUT` because the time has passed. -/
theorem timed_locks_time_out :
    ¬ ∀ (m : HostMutex ℕ) (rwlock : HostRWLock ℕ) (i : ℕ) (clockid : ClockId) (abstime : Option Timespec) (now : Now),
      (m.Ready i → ∃ m', m.lockWithTimeout i clockid abstime now = some (.ok, m')) ∧
        (rwlock.CanRead i → (rwlock.lockReader i (.wait clockid abstime) now).next = .ret .ok) ∧
        (rwlock.CanWrite → rwlock.readerCounts.find? i = none →
          (rwlock.lockWriter i (.wait clockid abstime) now).next = .ret .ok) := by
  intro h
  obtain ⟨hmutex, -, -⟩ := h {} {} 0 .realtime (some ⟨0, 0⟩) (.ok 1)
  obtain ⟨m', hm⟩ := hmutex ⟨nofun, nofun⟩
  have hlate : ({} : HostMutex ℕ).lockWithTimeout 0 .realtime (some ⟨0, 0⟩) (.ok 1) = some (.err .ETIMEDOUT, {}) := rfl
  rw [hlate] at hm
  cases hm

end Timed

end CrossShim.Sync
