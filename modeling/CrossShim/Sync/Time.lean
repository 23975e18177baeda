import Mathlib

/-!
# Deadlines

The absolute times of the timed calls, and the check they all make of them (`prepareRwlockDeadline`).  The clock is
outside: the check is given what it shows.
-/

namespace CrossShim.Sync

/-- The errors the calls return; a clock that cannot be read may give any other. -/
inductive Errno where
  | EPERM
  | EAGAIN
  | EBUSY
  | EINVAL
  | EDEADLK
  | EOVERFLOW
  | ETIMEDOUT
  | other (n : ℕ)
  deriving DecidableEq

inductive Ret where
  | ok
  | err (e : Errno)
  deriving DecidableEq

inductive ClockId where
  | realtime
  | monotonic
  | other (n : ℤ)
  deriving DecidableEq

/-- `is_valid_guest_cond_clock`, and the check of the timed locks. -/
def ClockId.Valid (c : ClockId) : Prop := c = .realtime ∨ c = .monotonic

instance (c : ClockId) : Decidable c.Valid := inferInstanceAs (Decidable (_ ∨ _))

/-- A `struct timespec`. -/
structure Timespec where
  sec : ℤ
  nsec : ℤ
  deriving DecidableEq

namespace Timespec

def Valid (ts : Timespec) : Prop := 0 ≤ ts.nsec ∧ ts.nsec < 1000000000

instance (ts : Timespec) : Decidable ts.Valid := inferInstanceAs (Decidable (_ ∧ _))

def exactNs (ts : Timespec) : ℤ := ts.sec * 1000000000 + ts.nsec

/-- The time in nanoseconds, cut to the range of `int64_t`. -/
def ns (ts : Timespec) : ℤ := max (-2 ^ 63) (min (2 ^ 63 - 1) (ts.sec * 1000000000 + ts.nsec))

/-- `timespec_to_ns`. -/
def toNs (ts : Timespec) : Option ℤ := if ts.Valid then some ts.ns else none

end Timespec

/-- What `get_clock_now_ns` gives: the time, or the error for a clock that cannot be read. -/
abbrev Now := Except Errno ℤ

/-- What a section of a call sees of the clock: the time, and whether the wait before it has timed out. -/
structure Sight where
  now : Now
  timedOut : Bool

def prepareRwlockDeadline (abstime : Option Timespec) (clockid : ClockId) (now : Now) : Ret :=
  match abstime with
  | none => .ok
  | some ts =>
    if ¬ clockid.Valid then .err .EINVAL
    else
      match ts.toNs with
      | none => .err .EINVAL
      | some abstimeNs =>
        match now with
        | .error e => .err e
        | .ok nowNs => if abstimeNs ≤ nowNs then .err .ETIMEDOUT else .ok

/-- The deadline is still to come: its clock and nanoseconds are valid, and the clock can be read and has not reached
it. -/
def Ahead (abstime : Option Timespec) (clockid : ClockId) (now : Now) : Prop :=
  ∀ ts, abstime = some ts → clockid.Valid ∧ ts.Valid ∧ ∃ nowNs, now = .ok nowNs ∧ nowNs < ts.ns

theorem prepareRwlockDeadline_eq_ok {abstime : Option Timespec} {clockid : ClockId} {now : Now} :
    prepareRwlockDeadline abstime clockid now = .ok ↔ Ahead abstime clockid now := by
  cases abstime with
  | none => exact iff_of_true rfl nofun
  | some ts =>
    have hsome : Ahead (some ts) clockid now ↔
        clockid.Valid ∧ ts.Valid ∧ ∃ nowNs, now = .ok nowNs ∧ nowNs < ts.ns := by simp [Ahead]
    rw [hsome]
    by_cases hc : clockid.Valid <;> by_cases ht : ts.Valid <;> cases now with
    | error e | ok nowNs => simp [prepareRwlockDeadline, Timespec.toNs, hc, ht]

end CrossShim.Sync
