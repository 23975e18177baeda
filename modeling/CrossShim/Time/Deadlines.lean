import CrossShim.Lib.Runs
import CrossShim.Time.GuestTimer

/-!
# No sleep ends and no timer fires too early

What is asked for is an exact time.  A sleep ends, and a timer fires, before that time exactly if the time is not in
the range of the clock: then the deadline has wrapped around.  A timer with an interval is asked for a new time at each
fire, so its runs are looked at step by step (`Promise`).
-/

namespace CrossShim.Time

open Lib Int64 GuestTimer
open Sync (Errno ClockId Timespec)

lemma timespecToNs_eq (ts : Timespec) : timespecToNs ts = wrap ts.exactNs := wrap_wrap_add _ _

lemma exactNs_nonneg {ts : Timespec} (h : ValidTimespec ts) : 0 ≤ ts.exactNs := by
  obtain ⟨hsec, hnsec, -⟩ := h
  unfold Timespec.exactNs
  omega

/-! ### Sleeps -/

/-- Whatever the clock shows, the call does not end before it shows the time that was asked for. -/
def NeverEarly (sleep : List ℤ → Except Errno (Option ℤ)) (requested : ℤ) : Prop :=
  ∀ readings, (∀ r ∈ readings, 0 ≤ r ∧ r < 2 ^ 63) → ∀ now, sleep readings = .ok (some now) → requested ≤ now

section Sleep

variable {clockId : ClockId} {req : Timespec} {start : ℤ}

lemma neverEarly_sleepLoop {requested : ℤ} (h : 0 ≤ requested) :
    NeverEarly (fun readings => .ok (sleepLoop (wrap requested) readings)) requested ↔ requested < 2 ^ 63 := by
  have hrange := inRange_wrap requested
  constructor
  · -- A clock that shows the wrapped deadline, or 0 if that is negative, ends the sleep.
    intro hnever
    have hend : sleepLoop (wrap requested) [max 0 (wrap requested)] = some (max 0 (wrap requested)) := by
      simp [sleepLoop]
    have hle := hnever [max 0 (wrap requested)] (by
      intro r hr
      rw [List.mem_singleton.1 hr]
      have := hrange.2
      omega) _ (congrArg Except.ok hend)
    have := hrange.2
    omega
  · intro hlt readings hreadings now hnow
    have hloop : sleepLoop (wrap requested) readings = some now := Except.ok.inj hnow
    have hmem := hreadings now (List.mem_of_find?_eq_some hloop)
    have htest := List.find?_some hloop
    rw [wrap_eq ⟨by omega, hlt⟩] at htest
    simp only [decide_eq_true_eq] at htest
    omega

lemma sleepWithTimerProcessing_eq {flags : ℤ} {deadlineNs : ℤ} (hreq : ValidTimespec req) (hclock : clockId.Valid)
    (hstart : 0 ≤ start)
    (hflags : (flags = 0 ∧ deadlineNs = start + req.exactNs) ∨ (flags = 1 ∧ deadlineNs = req.exactNs)) :
    sleepWithTimerProcessing clockId flags req start =
      fun readings => .ok (sleepLoop (wrap deadlineNs) readings) := by
  funext readings
  unfold sleepWithTimerProcessing
  rw [if_neg (not_not.2 hreq), if_neg (not_not.2 hclock), if_neg (by omega), if_neg (by omega), timespecToNs_eq]
  obtain ⟨rfl, rfl⟩ | ⟨rfl, rfl⟩ := hflags
  · rw [if_neg (by decide), wrap_add_wrap]
  · rw [if_pos rfl]

lemma neverEarly_sleep_iff (hreq : ValidTimespec req) (hclock : clockId.Valid) (hstart : 0 ≤ start) :
    (NeverEarly (sleepWithTimerProcessing clockId 0 req start) (start + req.exactNs) ↔
        start + req.exactNs < 2 ^ 63) ∧
      (NeverEarly (sleepWithTimerProcessing clockId 1 req start) req.exactNs ↔ req.exactNs < 2 ^ 63) := by
  have hnonneg := exactNs_nonneg hreq
  constructor
  · rw [sleepWithTimerProcessing_eq hreq hclock hstart (.inl ⟨rfl, rfl⟩)]
    exact neverEarly_sleepLoop (by omega)
  · rw [sleepWithTimerProcessing_eq hreq hclock hstart (.inr ⟨rfl, rfl⟩)]
    exact neverEarly_sleepLoop hnonneg

end Sleep

/-! ### Timers -/

/-- A timer with the time at which it should fire next, and the interval it was given. -/
structure Promise where
  timer : GuestTimer
  requested : ℤ
  interval : ℤ

open Promise

/-- What happens to a timer: it is set, `process_due_timers` looks at it, and its notification ends. -/
inductive Action where
  | settime (now : ℤ) (value interval : Timespec)
  | process (now : ℤ) (virtualTid : Word)
  | finish

namespace Promise

variable (p : Promise)

/-- The time after a fire: one interval later, or one interval from now if that has passed already. -/
def next (now : ℤ) : ℤ :=
  if p.requested + p.interval ≤ now then now + p.interval else p.requested + p.interval

def step : Action → Option Promise
  | .settime now value interval =>
    if ValidTimespec value ∧ ValidTimespec interval ∧ 0 ≤ now ∧ now < 2 ^ 63 then
      some ⟨p.timer.settime now value interval, now + value.exactNs, interval.exactNs⟩
    else none
  | .process now virtualTid =>
    if 0 ≤ now ∧ now < 2 ^ 63 then
      if p.timer.Due p.timer.ownerPid now then some ⟨p.timer.take now virtualTid, p.next now, p.interval⟩ else some p
    else none
  | .finish => p.timer.release.map fun timer => { p with timer := timer }

/-- The timer fires only when the clock shows the time that was asked for. -/
def OnTime : Prop := ∀ now, 0 ≤ now → now < 2 ^ 63 → p.timer.Ripe now → p.requested ≤ now

/-- The time asked for is in the range of the clock, or the timer is not set for it: a value that is 0 in 64 bits
disarms it, and so does a fire with an interval that is not positive in 64 bits. -/
def Fits : Action → Prop
  | .settime now value _ => timespecToNs value = 0 ∨ now + value.exactNs < 2 ^ 63
  | .process now _ => p.timer.Due p.timer.ownerPid now → p.timer.intervalNs ≤ 0 ∨ p.next now < 2 ^ 63
  | .finish => True

/-- The timer is set for the time that was asked for. -/
def Exact : Prop :=
  p.timer.armed = true → p.timer.dueNs = p.requested ∧ 0 ≤ p.requested ∧ 0 ≤ p.interval ∧
    p.timer.intervalNs = wrap p.interval

end Promise

def timerRuns : System Promise Action := .ofStep (fun p => p.timer.armed = false) step

section Timer

variable {p p' : Promise} {a : Action} {now : ℤ} {t : GuestTimer}

lemma Promise.Exact.onTime (h : p.Exact) : p.OnTime := by
  intro now _ _ hripe
  rw [← (h hripe.1).1]
  exact hripe.2.2

lemma not_onTime (harmed : p.timer.armed = true) (hdue : p.timer.dueNs < 2 ^ 63) (h : 2 ^ 63 ≤ p.requested) :
    ¬ p.OnTime := by
  intro hon
  have := hon (max 0 p.timer.dueNs) (by omega) (by omega) ⟨harmed, by omega, by omega⟩
  omega

lemma settime_exact_or {value interval : Timespec} (hvalue : ValidTimespec value) (hinterval : ValidTimespec interval)
    (hnow : 0 ≤ now) : let q : Promise := ⟨p.timer.settime now value interval, now + value.exactNs, interval.exactNs⟩
    (p.Fits (.settime now value interval) ∧ q.Exact) ∨ (¬ p.Fits (.settime now value interval) ∧ ¬ q.OnTime) := by
  intro q
  have hv := exactNs_nonneg hvalue
  by_cases h0 : timespecToNs value = 0
  · refine .inl ⟨.inl h0, fun harmed => ?_⟩
    simp [q, settime, h0] at harmed
  · have hq : q.timer = { p.timer with
        intervalNs := timespecToNs interval, armed := true, dueNs := wrap (now + timespecToNs value) } := by
      simp only [q, settime]
      rw [if_neg h0]
    have hdue : q.timer.dueNs = wrap (now + value.exactNs) := by
      rw [hq, timespecToNs_eq]
      exact wrap_add_wrap _ _
    by_cases hlt : now + value.exactNs < 2 ^ 63
    · refine .inl ⟨.inr hlt, fun _ => ⟨?_, by simp only [q]; omega, exactNs_nonneg hinterval, ?_⟩⟩
      · rw [hdue, wrap_eq ⟨by omega, hlt⟩]
      · rw [hq]
        exact timespecToNs_eq interval
    · refine .inr ⟨not_or.2 ⟨h0, hlt⟩, not_onTime (by rw [hq]) (hdue ▸ (inRange_wrap _).2) (by simp only [q]; omega)⟩

lemma advance_dueNs {interval : ℤ} (hdue : 0 ≤ t.dueNs) (hi : 0 ≤ interval) (hinterval : t.intervalNs = wrap interval)
    (hpos : 0 < t.intervalNs) (hripe : t.dueNs ≤ now) (hnow : now < 2 ^ 63)
    (hnext : (if t.dueNs + interval ≤ now then now + interval else t.dueNs + interval) < 2 ^ 63) :
    (t.advance now).dueNs = if t.dueNs + interval ≤ now then now + interval else t.dueNs + interval := by
  have hlt : interval < 2 ^ 63 := by
    split at hnext
    · omega
    · omega
  have hin : t.intervalNs = interval := hinterval.trans (wrap_eq ⟨by omega, hlt⟩)
  unfold advance
  rw [if_pos hpos, hin]
  dsimp only
  split at hnext
  case isTrue hle =>
    rw [wrap_eq ⟨by omega, by omega⟩, if_pos hle, if_pos hle, wrap_eq ⟨by omega, hnext⟩]
  case isFalse hgt =>
    rw [wrap_eq ⟨by omega, hnext⟩, if_neg hgt, if_neg hgt]

lemma advance_dueNs_lt (hpos : 0 < t.intervalNs) : (t.advance now).dueNs < 2 ^ 63 := by
  unfold advance
  rw [if_pos hpos]
  dsimp only
  split
  · exact (inRange_wrap _).2
  · exact (inRange_wrap _).2

lemma advance_of_pos (hpos : 0 < t.intervalNs) :
    (t.advance now).armed = t.armed ∧ (t.advance now).intervalNs = t.intervalNs := by
  unfold advance
  rw [if_pos hpos]
  exact ⟨rfl, rfl⟩

lemma advance_of_not_pos (hpos : ¬ 0 < t.intervalNs) : (t.advance now).armed = false := by
  unfold advance
  rw [if_neg hpos]

lemma take_exact_or {virtualTid : Word} (h : p.Exact) (hnow : now < 2 ^ 63) (hdue : p.timer.Due p.timer.ownerPid now) :
    let q : Promise := ⟨p.timer.take now virtualTid, p.next now, p.interval⟩
    (p.Fits (.process now virtualTid) ∧ q.Exact) ∨ (¬ p.Fits (.process now virtualTid) ∧ ¬ q.OnTime) := by
  intro q
  have hripe := hdue.2.2.2
  obtain ⟨hd, hr, hi, hinterval⟩ := h hripe.1
  by_cases hpos : 0 < p.timer.intervalNs
  · by_cases hnext : p.next now < 2 ^ 63
    · refine .inl ⟨fun _ => .inr hnext, fun _ => ⟨?_, ?_, hi, ?_⟩⟩
      · have hd' : (p.timer.enter virtualTid).dueNs = p.requested := hd
        have hadv := advance_dueNs (t := p.timer.enter virtualTid) (hd' ▸ hr) hi hinterval hpos hripe.2.2 hnow
          (by rw [hd']; exact hnext)
        rw [hd'] at hadv
        exact hadv
      · have h0 := hripe.2.1
        simp only [q, next]
        split <;> omega
      · exact (advance_of_pos (t := p.timer.enter virtualTid) hpos).2.trans hinterval
    · refine .inr ⟨fun hfits => (hfits hdue).elim (by omega) hnext, not_onTime ?_ ?_ (by simp only [q]; omega)⟩
      · exact (advance_of_pos (t := p.timer.enter virtualTid) hpos).1.trans hripe.1
      · exact advance_dueNs_lt (t := p.timer.enter virtualTid) hpos
  · refine .inl ⟨fun _ => .inl (by omega), fun harmed => ?_⟩
    rw [show q.timer.armed = false from
      advance_of_not_pos (t := p.timer.enter virtualTid) hpos] at harmed
    cases harmed

lemma step_exact_or (h : p.Exact) (hs : p.step a = some p') : (p.Fits a ∧ p'.Exact) ∨ (¬ p.Fits a ∧ ¬ p'.OnTime) := by
  cases a with
  | settime now value interval =>
    obtain ⟨⟨hvalue, hinterval, hnow, -⟩, heq⟩ := Option.ite_none_right_eq_some.1 hs
    cases heq
    exact settime_exact_or hvalue hinterval hnow
  | process now virtualTid =>
    obtain ⟨⟨-, hnow⟩, heq⟩ := Option.ite_none_right_eq_some.1 hs
    split at heq
    case isTrue hdue =>
      cases heq
      exact take_exact_or h hnow hdue
    case isFalse hdue =>
      cases heq
      exact .inl ⟨fun hdue' => absurd hdue' hdue, h⟩
  | finish =>
    obtain ⟨timer, hrelease, rfl⟩ := Option.map_eq_some_iff.1 hs
    obtain ⟨-, heq⟩ := Option.ite_none_left_eq_some.1 hrelease
    cases heq
    exact .inl ⟨trivial, h⟩

lemma exact_of_reach (h : timerRuns.Reach Fits p) : p.Exact := by
  refine System.Reach.invariant (fun p hp harmed => ?_) (fun p a p' hp hfits hs => ?_) h
  · rw [show p.timer.armed = false from hp] at harmed
    cases harmed
  · exact ((step_exact_or hp hs).resolve_right fun hno => hno.1 hfits).2

end Timer

/-- **A relative sleep does not end early exactly if the start plus the time is in the range of the clock, an absolute
one exactly if the time is; and a timer does not fire early as long as what is asked of it fits: the first time it does
not, it can.** -/
theorem never_early_iff {req : Timespec} {start : ℤ} (hreq : ValidTimespec req) (hstart : 0 ≤ start) :
    (NeverEarly (nanosleep req start) (start + req.exactNs) ↔ start + req.exactNs < 2 ^ 63) ∧
      (∀ clockId : ClockId, clockId.Valid →
        (NeverEarly (clockNanosleep clockId 0 req start) (start + req.exactNs) ↔ start + req.exactNs < 2 ^ 63) ∧
        (NeverEarly (clockNanosleep clockId 1 req start) req.exactNs ↔ req.exactNs < 2 ^ 63)) ∧
      ∀ p, timerRuns.Reach Fits p →
        p.OnTime ∧ ∀ a p', p.step a = some p' → (p'.OnTime ↔ p.Fits a) := by
  refine ⟨(neverEarly_sleep_iff hreq (.inr rfl) hstart).1, fun clockId hclock => neverEarly_sleep_iff hreq hclock hstart,
    fun p hp => ⟨(exact_of_reach hp).onTime, fun a p' hs => ?_⟩⟩
  obtain ⟨hfits, hexact⟩ | ⟨hfits, hlate⟩ := step_exact_or (exact_of_reach hp) hs
  · exact iff_of_true hexact.onTime hfits
  · exact iff_of_false hlate hfits

instance : DecidableRel Fits := fun p a => by
  cases a <;> dsimp only [Fits] <;> infer_instance

/-- One and a half seconds, and a clock that shows one second; and a timer that is set for that, fires, and is set for a
second later. -/
theorem never_early_short :
    NeverEarly (nanosleep ⟨1, 500000000⟩ 1000000000) 2500000000 ∧ ∃ p, timerRuns.Reach Fits p ∧
      p.timer.armed = true ∧ p.requested = 3500000000 ∧ p.OnTime := by
  obtain ⟨hsleep, -, htimer⟩ := @never_early_iff ⟨1, 500000000⟩ 1000000000 (by decide) (by decide)
  have hrun : ([Action.settime 1000000000 ⟨1, 500000000⟩ ⟨1, 0⟩, .process 2000000000 0, .process 2600000000 0,
      .finish].foldlM (System.checked Fits step)
      ⟨{ ownerPid := 1, clockId := .monotonic, notify := .signal 14 }, 0, 0⟩).map
      (fun p => (p.timer.armed, p.requested)) = some (true, 3500000000) := by
    decide +kernel
  obtain ⟨p, hp, heq⟩ := Option.map_eq_some_iff.1 hrun
  simp only [Prod.mk.injEq] at heq
  have hreach : timerRuns.Reach Fits p := System.Reach.foldlM _ (.init (by exact rfl)) hp
  exact ⟨hsleep.2 (by decide), p, hreach, heq.1, heq.2, (htimer p hreach).1⟩

/-- 9223372037 seconds, a little more than 292 years: `nanosleep` returns at the first look at the clock, an absolute
`clock_nanosleep` too, and a timer is due at once. -/
theorem early_after_292_years :
    let req : Timespec := ⟨9223372037, 0⟩
    let timer : GuestTimer := { ownerPid := 1, clockId := .monotonic, notify := .signal 14 }
    ValidTimespec req ∧ nanosleep req 1000000000 [1000000001] = .ok (some 1000000001) ∧
      clockNanosleep .realtime 1 req 1000000000 [1000000001] = .ok (some 1000000001) ∧
      (timer.settime 1000000000 req ⟨0, 0⟩).Due 1 1000000001 := by
  decide

end CrossShim.Time
