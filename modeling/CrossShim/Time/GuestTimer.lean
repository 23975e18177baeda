import CrossShim.Lib.Int64
import CrossShim.Lib.Word
import CrossShim.Sync.Time

/-!
# Timers and sleeps

The times of `hle_time.cpp` are signed 64-bit nanoseconds, and none of the sums is checked.  The clock is outside: the
functions are given what it shows, which is negative if it cannot be read.
-/

namespace CrossShim.Time

open Lib Int64
open Sync (Errno ClockId Timespec)

def ValidTimespec (ts : Timespec) : Prop := 0 ≤ ts.sec ∧ 0 ≤ ts.nsec ∧ ts.nsec < 1000000000

instance (ts : Timespec) : Decidable (ValidTimespec ts) := inferInstanceAs (Decidable (_ ∧ _ ∧ _))

def timespecToNs (ts : Timespec) : ℤ := wrap (wrap (ts.sec * 1000000000) + ts.nsec)

/-! ### Timers -/

/-- How a timer notifies: with a signal, or with a call in a thread of its own. -/
inductive Notify where
  | signal (signo : ℤ)
  | thread (callback : Word)
  deriving DecidableEq

structure GuestTimer where
  ownerPid : ℕ
  clockId : ClockId
  notify : Notify
  sigvalRaw : Word := 0
  armed : Bool := false
  deleted : Bool := false
  inCallback : Bool := false
  activeVirtualTid : Word := 0
  dueNs : ℤ := 0
  intervalNs : ℤ := 0
  deriving DecidableEq

namespace GuestTimer

variable (t : GuestTimer)

def Ripe (now : ℤ) : Prop := t.armed = true ∧ 0 ≤ now ∧ t.dueNs ≤ now

/-- `process_due_timers` notifies the timer. -/
def Due (pid : ℕ) (now : ℤ) : Prop :=
  t.deleted = false ∧ t.inCallback = false ∧ t.ownerPid = pid ∧ t.Ripe now

instance (now : ℤ) : Decidable (t.Ripe now) := inferInstanceAs (Decidable (_ ∧ _ ∧ _))

instance (pid : ℕ) (now : ℤ) : Decidable (t.Due pid now) := inferInstanceAs (Decidable (_ ∧ _ ∧ _ ∧ _))

/-- The timer is set for the next time, or not any more. -/
def advance (now : ℤ) : GuestTimer :=
  if 0 < t.intervalNs then
    let dueNs := wrap (t.dueNs + t.intervalNs)
    { t with dueNs := if dueNs ≤ now then wrap (now + t.intervalNs) else dueNs }
  else { t with armed := false }

def enter (virtualTid : Word) : GuestTimer :=
  { t with
    inCallback := true
    activeVirtualTid := match t.notify with
      | .thread _ => virtualTid
      | .signal _ => t.activeVirtualTid }

/-- What `process_due_timers` does with a due timer while it has the lock. -/
def take (now : ℤ) (virtualTid : Word) : GuestTimer := (t.enter virtualTid).advance now

/-- What it does when the notification is over; a deleted timer goes. -/
def release : Option GuestTimer :=
  if t.deleted then none else some { t with inCallback := false, activeVirtualTid := 0 }

/-- What `timer_settime` does with the timer. -/
def settime (now : ℤ) (value interval : Timespec) : GuestTimer :=
  let t := { t with intervalNs := timespecToNs interval }
  let newValueNs := timespecToNs value
  if newValueNs = 0 then { t with armed := false, dueNs := 0 }
  else { t with armed := true, dueNs := wrap (now + newValueNs) }

/-- What `timer_settime` stores of the time that was left. -/
def oldValueNs (now : ℤ) : ℤ := if t.armed = true ∧ now < t.dueNs then wrap (t.dueNs - now) else 0

/-- What `timer_delete` does with the timer; it stays while a notification is under way. -/
def delete : Option GuestTimer :=
  if t.inCallback then some { t with deleted := true, armed := false } else none

end GuestTimer

/-! ### Sleeps -/

/-- The loop of `sleep_with_timer_processing`: what the clock shows when it ends, if it does. -/
def sleepLoop (deadlineNs : ℤ) (readings : List ℤ) : Option ℤ :=
  readings.find? fun now => now < 0 ∨ deadlineNs ≤ now

/-- `sleep_with_timer_processing`; `start` is the first reading of the clock, `readings` are the others. -/
def sleepWithTimerProcessing (clockId : ClockId) (flags : ℤ) (req : Timespec) (start : ℤ) (readings : List ℤ) :
    Except Errno (Option ℤ) :=
  if ¬ ValidTimespec req then .error .EINVAL
  else if ¬ clockId.Valid then .error .EINVAL
  else if flags ≠ 0 ∧ flags ≠ 1 then .error .EINVAL
  else if start < 0 then .error .EINVAL
  else .ok (sleepLoop (if flags = 1 then timespecToNs req else wrap (start + timespecToNs req)) readings)

def nanosleep (req : Timespec) (start : ℤ) (readings : List ℤ) : Except Errno (Option ℤ) :=
  sleepWithTimerProcessing .monotonic 0 req start readings

def clockNanosleep (clockId : ClockId) (flags : ℤ) (req : Timespec) (start : ℤ) (readings : List ℤ) :
    Except Errno (Option ℤ) :=
  sleepWithTimerProcessing clockId flags req start readings

end CrossShim.Time
