import CrossShim.Lib.OrdMap
import CrossShim.Lib.Runs
import CrossShim.Time.GuestTimer

/-!
# Notifications of timers

`process_due_timers` collects the due timers of all threads under the lock, and notifies them one after the other
without it.  A notification runs guest code, which may call the timer functions again; so may all other threads
meanwhile.  The steps of a thread (`Event`) are the sections that have the lock, and the start of each notification.

After a timer has been deleted or disarmed, no notification of it is started exactly if no thread has it among those
that it has collected and not yet started (`stopped_iff_none_undelivered`): an event that has been collected is
delivered without another look at the timer.
-/

namespace CrossShim.Time

open Lib Int64 Function Option List OrdMap
open Sync (Errno ClockId Timespec)

/-! ### The calls -/

/-- `guest_sigevent_arm64`. -/
structure SigEvent where
  value : Word
  signo : ℤ
  notify : ℤ
  function : Word
  deriving DecidableEq

def sigevSignal : ℤ := 0
def sigevThread : ℤ := 2
def sigalrm : ℤ := 14

/-- The calls that begin with `process_due_timers`; the others do nothing with the timers. -/
inductive Call where
  | timerCreate (clockId : ClockId) (sevp : Option SigEvent)
  | timerDelete (timerId : Word)
  | timerSettime (timerId : Word) (flags : ℤ) (value interval : Timespec)
  | other
  deriving DecidableEq

inductive Out where
  | nothing
  | timerId (id : Word)
  | old (value interval : Timespec)
  deriving DecidableEq

def nsToGuestTimespec (ns : ℤ) : Timespec := ⟨max ns 0 / 1000000000, max ns 0 % 1000000000⟩

structure DueEvent where
  timerId : Word
  notify : Notify
  sigvalRaw : Word
  virtualTid : Word
  deriving DecidableEq

/-- A thread in `process_due_timers`: the call that goes on afterwards, the notification under way, and those to come.
-/
structure Processing where
  call : Call
  current : Option DueEvent
  due : List DueEvent
  deriving DecidableEq

/-- The state; `started` are the events whose notification has been started, the last one first. -/
structure State where
  pid : ℕ
  timers : OrdMap Word GuestTimer
  nextTimerId : Word
  nextVirtualTid : Word
  threads : ℕ → Option Processing
  started : List DueEvent

namespace State

def init (pid : ℕ) : State := ⟨pid, .empty, 0x68000000, 0x70000000, fun _ => none, []⟩

variable (s : State)

def findTimer (timerId : Word) : Option GuestTimer :=
  (s.timers.find? timerId).filter fun t => !t.deleted && t.ownerPid = s.pid

/-- How the new timer notifies, if the event is valid. -/
def notifyOf : Option SigEvent → Option (Notify × Word)
  | none => some (.signal sigalrm, 0)
  | some ev =>
    if ev.notify = sigevThread then
      if ev.function = 0 then none else some (.thread ev.function, ev.value)
    else if ev.notify = sigevSignal then some (.signal ev.signo, ev.value)
    else none

def timerCreate (clockId : ClockId) (sevp : Option SigEvent) : State × Except Errno Out :=
  if ¬ clockId.Valid then (s, .error .EINVAL)
  else
    let id := s.nextTimerId
    let s := { s with nextTimerId := id + 0x10 }
    match notifyOf sevp with
    | none => (s, .error .EINVAL)
    | some (notify, sigvalRaw) =>
      ({ s with timers := s.timers.insert id { ownerPid := s.pid, clockId, notify, sigvalRaw } }, .ok (.timerId id))

def setTimer (timerId : Word) (t : Option GuestTimer) : State :=
  { s with timers := match t with
      | none => s.timers.erase timerId
      | some t => s.timers.insert timerId t }

def timerDelete (timerId : Word) : State × Except Errno Out :=
  match s.findTimer timerId with
  | none => (s, .error .EINVAL)
  | some t => (s.setTimer timerId t.delete, .ok .nothing)

def timerSettime (timerId : Word) (flags : ℤ) (value interval : Timespec) (now : ℤ) : State × Except Errno Out :=
  if flags ≠ 0 then (s, .error .EINVAL)
  else if ¬ ValidTimespec value ∨ ¬ ValidTimespec interval then (s, .error .EINVAL)
  else
    match s.findTimer timerId with
    | none => (s, .error .EINVAL)
    | some t =>
      (s.setTimer timerId (some (t.settime now value interval)),
        .ok (.old (nsToGuestTimespec (t.oldValueNs now)) (nsToGuestTimespec t.intervalNs)))

/-- What a call does after `process_due_timers`. -/
def run (now : ℤ) : Call → State × Except Errno Out
  | .timerCreate clockId sevp => s.timerCreate clockId sevp
  | .timerDelete timerId => s.timerDelete timerId
  | .timerSettime timerId flags value interval => s.timerSettime timerId flags value interval now
  | .other => (s, .ok .nothing)

/-! ### `process_due_timers` -/

/-- One timer of the loop that collects the due ones. -/
def collectTimer (timerId : Word) (now : ℤ) : State × Option DueEvent :=
  match s.timers.find? timerId with
  | none => (s, none)
  | some t =>
    if t.Due s.pid now then
      match t.notify with
      | .signal _ => (s.setTimer timerId (some (t.take now 0)), some ⟨timerId, t.notify, t.sigvalRaw, 0⟩)
      | .thread _ =>
        let tid := s.nextVirtualTid
        ({ s with nextVirtualTid := tid + 1 }.setTimer timerId (some (t.take now tid)),
          some ⟨timerId, t.notify, t.sigvalRaw, tid⟩)
    else (s, none)

/-- The loop, in the order of the map; each timer is compared with a reading of its own. -/
def collect (now : Word → ℤ) : List Word → State → State × List DueEvent
  | [], s => (s, [])
  | id :: ids, s =>
    let r := s.collectTimer id (now id)
    let rs := collect now ids r.1
    (rs.1, r.2.toList ++ rs.2)

def releaseTimer (timerId : Word) : State :=
  match s.timers.find? timerId with
  | none => s
  | some t => s.setTimer timerId t.release

def setThread (i : ℕ) (p : Option Processing) : State := { s with threads := update s.threads i p }

def begin (i : ℕ) (c : Call) (ev : DueEvent) (due : List DueEvent) : State :=
  { s with threads := update s.threads i (some ⟨c, some ev, due⟩), started := ev :: s.started }

end State

open State

/-- What a thread does next: it makes a call and collects the due timers, starts the next notification, ends it, makes a
call from guest code of the notification, or goes on with its call. -/
inductive Event where
  | collect (i : ℕ) (c : Call) (order : List Word) (now : Word → ℤ)
  | start (i : ℕ)
  | finish (i : ℕ)
  | nested (i : ℕ) (c : Call) (now : ℤ)
  | goOn (i : ℕ) (now : ℤ)

def State.step (s : State) : Event → Option State
  | .collect i c order now =>
    match s.threads i with
    | some _ => none
    | none =>
      if order.Perm (s.timers.entries.map Prod.fst) then
        let r := collect now order s
        some (r.1.setThread i (some ⟨c, none, r.2⟩))
      else none
  | .start i =>
    match s.threads i with
    | some ⟨c, none, ev :: due⟩ => some (s.begin i c ev due)
    | _ => none
  | .finish i =>
    match s.threads i with
    | some ⟨c, some ev, due⟩ => some ((s.releaseTimer ev.timerId).setThread i (some ⟨c, none, due⟩))
    | _ => none
  | .nested i c now =>
    match s.threads i with
    -- `process_due_timers` returns at once in a thread that is in it already
    | some ⟨_, some _, _⟩ => some (s.run now c).1
    | _ => none
  | .goOn i now =>
    match s.threads i with
    | some ⟨c, none, []⟩ => some ((s.run now c).1.setThread i none)
    | _ => none

def system (pid : ℕ) : System State Event := .ofStep (· = .init pid) step

inductive Steps (s : State) : Event → State → Prop
  | collect (i : ℕ) (c : Call) (order : List Word) (now : Word → ℤ) :
      Steps s (.collect i c order now)
        ((collect now order s).1.setThread i (some ⟨c, none, (collect now order s).2⟩))
  | start (i : ℕ) {c : Call} {ev : DueEvent} {due : List DueEvent} (hi : s.threads i = some ⟨c, none, ev :: due⟩) :
      Steps s (.start i) (s.begin i c ev due)
  | finish (i : ℕ) {c : Call} {ev : DueEvent} {due : List DueEvent} (hi : s.threads i = some ⟨c, some ev, due⟩) :
      Steps s (.finish i) ((s.releaseTimer ev.timerId).setThread i (some ⟨c, none, due⟩))
  | nested (i : ℕ) (c : Call) (now : ℤ) : Steps s (.nested i c now) (s.run now c).1
  | goOn (i : ℕ) (now : ℤ) {c : Call} (hi : s.threads i = some ⟨c, none, []⟩) :
      Steps s (.goOn i now) ((s.run now c).1.setThread i none)

lemma steps_of_step {s s' : State} {e : Event} (h : s.step e = some s') : Steps s e s' := by
  unfold step at h
  cases e with
  | collect i c order now =>
    dsimp only at h
    split at h
    case h_1 => cases h
    case h_2 =>
      obtain ⟨-, heq⟩ := ite_none_right_eq_some.1 h
      cases heq
      exact .collect i c order now
  | start i =>
    dsimp only at h
    split at h
    case h_2 => cases h
    case h_1 c ev due hi =>
      cases h
      exact .start i hi
  | finish i =>
    dsimp only at h
    split at h
    case h_2 => cases h
    case h_1 c ev due hi =>
      cases h
      exact .finish i hi
  | nested i c now =>
    dsimp only at h
    split at h
    case h_2 => cases h
    case h_1 =>
      cases h
      exact .nested i c now
  | goOn i now =>
    dsimp only at h
    split at h
    case h_2 => cases h
    case h_1 c hi =>
      cases h
      exact .goOn i now hi

/-! ### The timers of a state -/

/-- The call that the step carries out, and the reading of the clock it gets. -/
def State.carriesOut (s : State) : Event → Option (Call × ℤ)
  | .nested _ c now => some (c, now)
  | .goOn i now => (s.threads i).map fun p => (p.call, now)
  | _ => none

def Call.Stops (timerId : Word) : Call → Prop
  | .timerDelete id => id = timerId
  | .timerSettime id _ value _ => id = timerId ∧ timespecToNs value = 0
  | _ => False

def Rearms (timerId : Word) (s : State) (e : Event) : Prop :=
  ∃ flags value interval now, s.carriesOut e = some (.timerSettime timerId flags value interval, now) ∧
    timespecToNs value ≠ 0

/-- A thread has collected the timer and not yet started the notification. -/
def Undelivered (timerId : Word) (s : State) : Prop :=
  ∃ i p ev, s.threads i = some p ∧ ev ∈ p.due ∧ ev.timerId = timerId

def Unarmed (timerId : Word) (s : State) : Prop := ∀ t, s.timers.find? timerId = some t → t.armed = false

/-- The notifications of the timer that have been started. -/
def State.startedOf (s : State) (timerId : Word) : List DueEvent := s.started.filter fun ev => ev.timerId = timerId

section Unarmed

variable {s : State} {timerId id : Word} {t : GuestTimer} {now : ℤ}

lemma Unarmed.setTimer (h : Unarmed timerId s) {t : Option GuestTimer}
    (ht : id = timerId → ∀ t' ∈ t, t'.armed = false) : Unarmed timerId (s.setTimer id t) := by
  intro t' hfind
  unfold State.setTimer at hfind
  cases t with
  | none =>
    rw [find?_eq_some, mem_erase, ← find?_eq_some] at hfind
    exact h t' hfind.2
  | some t =>
    obtain ⟨heq, rfl⟩ | ⟨-, hold⟩ := find?_insert_eq_some.1 hfind
    · exact ht heq.symm _ rfl
    · exact h t' hold

lemma Unarmed.releaseTimer (h : Unarmed timerId s) : Unarmed timerId (s.releaseTimer id) := by
  unfold State.releaseTimer
  split
  case h_1 => exact h
  case h_2 t hfind =>
    refine h.setTimer ?_
    rintro rfl t' ht'
    obtain ⟨-, heq⟩ := ite_none_left_eq_some.1 ht'
    cases heq
    exact h t hfind

lemma Unarmed.run {c : Call} (h : Unarmed timerId s)
    (hc : ∀ flags value interval, c = .timerSettime timerId flags value interval → timespecToNs value = 0) :
    Unarmed timerId (s.run now c).1 := by
  cases c with
  | timerCreate clockId sevp =>
    unfold State.run State.timerCreate
    dsimp only
    split
    · exact h
    · split
      · exact h
      · exact Unarmed.setTimer (s := { s with nextTimerId := _ }) (t := some _) h fun _ t' ht' => by cases ht'; rfl
  | timerDelete id =>
    unfold State.run State.timerDelete
    dsimp only
    split
    · exact h
    · refine h.setTimer fun _ t' ht' => ?_
      obtain ⟨-, heq⟩ := ite_none_right_eq_some.1 ht'
      cases heq
      rfl
  | timerSettime id flags value interval =>
    unfold State.run State.timerSettime
    dsimp only
    split
    · exact h
    · split
      · exact h
      · split
        · exact h
        · refine h.setTimer ?_
          rintro rfl t' ht'
          cases ht'
          unfold GuestTimer.settime
          rw [if_pos (hc _ _ _ rfl)]
  | other => exact h

lemma Unarmed.collectTimer (h : Unarmed timerId s) (id : Word) (now : ℤ) :
    Unarmed timerId (s.collectTimer id now).1 ∧ ∀ ev ∈ (s.collectTimer id now).2, ev.timerId ≠ timerId := by
  unfold State.collectTimer
  split
  case h_1 => exact ⟨h, nofun⟩
  case h_2 t hfind =>
    split
    case isFalse => exact ⟨h, nofun⟩
    case isTrue hdue =>
      have hne : id ≠ timerId := by
        rintro rfl
        have harmed := hdue.2.2.2.1
        rw [h t hfind] at harmed
        cases harmed
      split
      · refine ⟨h.setTimer fun heq => absurd heq hne, fun ev hev => ?_⟩
        cases hev
        exact hne
      · have hnext : Unarmed timerId { s with nextVirtualTid := s.nextVirtualTid + 1 } := h
        refine ⟨hnext.setTimer fun heq => absurd heq hne, fun ev hev => ?_⟩
        cases hev
        exact hne

lemma Unarmed.collect (nows : Word → ℤ) (ids : List Word) : ∀ {s : State}, Unarmed timerId s →
    Unarmed timerId (collect nows ids s).1 ∧ ∀ ev ∈ (collect nows ids s).2, ev.timerId ≠ timerId := by
  induction ids with
  | nil => exact fun h => ⟨h, nofun⟩
  | cons id ids ih =>
    intro s h
    obtain ⟨h₁, hev⟩ := h.collectTimer id (nows id)
    obtain ⟨h₂, hevs⟩ := ih h₁
    exact ⟨h₂, forall_mem_append.2 ⟨fun ev hmem => hev ev (mem_toList.1 hmem), hevs⟩⟩

lemma unarmed_of_stops {c : Call} (hc : c.Stops timerId) {out : Out} (hok : (s.run now c).2 = .ok out) :
    Unarmed timerId (s.run now c).1 := by
  cases c with
  | timerDelete id =>
    obtain rfl : id = timerId := hc
    unfold run timerDelete at hok ⊢
    dsimp only at hok ⊢
    split at hok
    case h_1 => cases hok
    case h_2 t hfind =>
      intro t' hfind'
      unfold setTimer GuestTimer.delete at hfind'
      cases hcallback : t.inCallback with
      | true =>
        simp only [hcallback, if_true, find?_insert_self, Option.some.injEq] at hfind'
        rw [← hfind']
      | false => simp [hcallback] at hfind'
  | timerSettime id flags value interval =>
    obtain ⟨rfl, hvalue⟩ := hc
    unfold run timerSettime at hok ⊢
    dsimp only at hok ⊢
    split at hok
    case isTrue => cases hok
    case isFalse hflags =>
      rw [if_neg hflags]
      split at hok
      case isTrue => cases hok
      case isFalse hvalid =>
        rw [if_neg hvalid]
        split at hok
        case h_1 => cases hok
        case h_2 t hfind =>
          intro t' hfind'
          simp only [setTimer, find?_insert_self, Option.some.injEq] at hfind'
          rw [← hfind', GuestTimer.settime, if_pos hvalue]
  | timerCreate | other => exact hc.elim

end Unarmed

/-! ### What the other threads see -/

section Frames

variable {s : State} {id : Word}

lemma run_frame (now : ℤ) (c : Call) : (s.run now c).1.threads = s.threads ∧ (s.run now c).1.started = s.started := by
  cases c with
  | timerCreate clockId sevp =>
    unfold run timerCreate
    dsimp only
    split
    · exact ⟨rfl, rfl⟩
    · split <;> exact ⟨rfl, rfl⟩
  | timerDelete id =>
    unfold run timerDelete
    dsimp only
    split <;> exact ⟨rfl, rfl⟩
  | timerSettime id flags value interval =>
    unfold run timerSettime
    dsimp only
    split
    · exact ⟨rfl, rfl⟩
    · split
      · exact ⟨rfl, rfl⟩
      · split <;> exact ⟨rfl, rfl⟩
  | other => exact ⟨rfl, rfl⟩

lemma collectTimer_frame (s : State) (id : Word) (now : ℤ) :
    (s.collectTimer id now).1.threads = s.threads ∧ (s.collectTimer id now).1.started = s.started := by
  unfold collectTimer
  split
  · exact ⟨rfl, rfl⟩
  · split
    · split <;> exact ⟨rfl, rfl⟩
    · exact ⟨rfl, rfl⟩

lemma collect_frame (now : Word → ℤ) (ids : List Word) : ∀ s : State,
    (collect now ids s).1.threads = s.threads ∧ (collect now ids s).1.started = s.started := by
  induction ids with
  | nil => exact fun s => ⟨rfl, rfl⟩
  | cons id ids ih =>
    intro s
    have h := collectTimer_frame s id (now id)
    have hs := ih (s.collectTimer id (now id)).1
    exact ⟨hs.1.trans h.1, hs.2.trans h.2⟩

lemma releaseTimer_frame (s : State) (id : Word) :
    (s.releaseTimer id).threads = s.threads ∧ (s.releaseTimer id).started = s.started := by
  unfold releaseTimer
  split <;> exact ⟨rfl, rfl⟩

end Frames

/-! ### Runs -/

/-- The timer is not set, and nobody is about to notify it. -/
structure Quiet (timerId : Word) (s : State) : Prop where
  unarmed : Unarmed timerId s
  delivered : ¬ Undelivered timerId s

section Runs

variable {s s' : State} {e : Event} {timerId : Word}

lemma not_undelivered_update (h : ¬ Undelivered timerId s) {i : ℕ} {p : Option Processing}
    (hs : s'.threads = update s.threads i p) (hp : ∀ q ∈ p, ∀ ev ∈ q.due, ev.timerId ≠ timerId) :
    ¬ Undelivered timerId s' := by
  rintro ⟨j, q, ev, hq, hev, heq⟩
  rw [hs] at hq
  by_cases hj : j = i
  · subst hj
    rw [update_self] at hq
    exact hp q hq ev hev heq
  · rw [update_of_ne hj] at hq
    exact h ⟨j, q, ev, hq, hev, heq⟩

lemma startedOf_cons {ev : DueEvent} (hs : s'.started = ev :: s.started) :
    s'.startedOf timerId = if ev.timerId = timerId then ev :: s.startedOf timerId else s.startedOf timerId := by
  simp [startedOf, hs, filter_cons]

lemma settime_of_not_rearms {c : Call} {now : ℤ} (hr : ¬ Rearms timerId s e) (hc : s.carriesOut e = some (c, now))
    (flags : ℤ) (value interval : Timespec) (heq : c = .timerSettime timerId flags value interval) :
    timespecToNs value = 0 := by
  by_contra hne
  exact hr ⟨flags, value, interval, now, heq ▸ hc, hne⟩

lemma Quiet.step (h : Quiet timerId s) (hr : ¬ Rearms timerId s e) (hs : s.step e = some s') :
    Quiet timerId s' ∧ s'.startedOf timerId = s.startedOf timerId := by
  have hthread (i : ℕ) (p : Option Processing) (s₁ : State) (hs₁ : s₁.threads = s.threads) :
      (s₁.setThread i p).threads = update s.threads i p := by
    rw [← hs₁]
    rfl
  cases steps_of_step hs with
  | collect i c order now =>
    obtain ⟨hthreads, hstarted⟩ := collect_frame now order s
    obtain ⟨hunarmed, hevs⟩ := h.unarmed.collect now order
    refine ⟨⟨hunarmed, not_undelivered_update h.delivered (hthread i _ _ hthreads) fun q hq => ?_⟩, ?_⟩
    · cases hq
      exact hevs
    · exact congrArg (List.filter _) hstarted
  | @start i c ev due hi =>
    have hdue (ev' : DueEvent) (hmem : ev' ∈ ev :: due) : ev'.timerId ≠ timerId :=
      fun heq => h.delivered ⟨i, _, ev', hi, hmem, heq⟩
    refine ⟨⟨h.unarmed, not_undelivered_update h.delivered rfl fun q hq => ?_⟩, ?_⟩
    · cases hq
      exact fun ev' hmem => hdue ev' (mem_cons_of_mem _ hmem)
    · rw [startedOf_cons (s := s) rfl, if_neg (hdue ev mem_cons_self)]
  | @finish i c ev due hi =>
    obtain ⟨hthreads, hstarted⟩ := releaseTimer_frame s ev.timerId
    refine ⟨⟨h.unarmed.releaseTimer, not_undelivered_update h.delivered (hthread i _ _ hthreads) fun q hq => ?_⟩, ?_⟩
    · cases hq
      exact fun ev' hmem heq => h.delivered ⟨i, _, ev', hi, hmem, heq⟩
    · exact congrArg (List.filter _) hstarted
  | nested i c now =>
    obtain ⟨hthreads, hstarted⟩ := run_frame (s := s) now c
    refine ⟨⟨h.unarmed.run (settime_of_not_rearms hr rfl), ?_⟩, congrArg (List.filter _) hstarted⟩
    rintro ⟨j, q, ev, hq, hev, heq⟩
    exact h.delivered ⟨j, q, ev, hthreads ▸ hq, hev, heq⟩
  | @goOn i now c hi =>
    obtain ⟨hthreads, hstarted⟩ := run_frame (s := s) now c
    have hc : s.carriesOut (.goOn i now) = some (c, now) := by simp [carriesOut, hi]
    exact ⟨⟨h.unarmed.run (settime_of_not_rearms hr hc),
      not_undelivered_update h.delivered (hthread i _ _ hthreads) nofun⟩, congrArg (List.filter _) hstarted⟩

/-- The states after `s` in the runs that do not set the timer anew. -/
def Later (timerId : Word) (s : State) : State → Prop :=
  (System.ofStep (· = s) step).Reach fun s e => ¬ Rearms timerId s e

lemma Quiet.later (h : Quiet timerId s) (hl : Later timerId s s') :
    Quiet timerId s' ∧ s'.startedOf timerId = s.startedOf timerId := by
  refine System.Reach.invariant (I := fun s' => Quiet timerId s' ∧ s'.startedOf timerId = s.startedOf timerId)
    (fun s' hs' => ?_) (fun s₁ e s₂ ih hr hs => ?_) hl
  · subst hs'
    exact ⟨h, rfl⟩
  · obtain ⟨hq, hstarted⟩ := ih.1.step hr hs
    exact ⟨hq, hstarted.trans ih.2⟩

lemma exists_later_of_due (i : ℕ) (c : Call) (due : List DueEvent) : ∀ {s₁ : State} {current : Option DueEvent},
    Later timerId s s₁ → (s.startedOf timerId).length ≤ (s₁.startedOf timerId).length →
    s₁.threads i = some ⟨c, current, due⟩ → (∃ ev ∈ due, ev.timerId = timerId) →
    ∃ s₂, Later timerId s s₂ ∧ (s.startedOf timerId).length < (s₂.startedOf timerId).length := by
  have hquiet {s₁ : State} {e : Event} (hc : s₁.carriesOut e = none) : ¬ Rearms timerId s₁ e := by
    rintro ⟨_, _, _, _, hcarries, -⟩
    rw [hc] at hcarries
    cases hcarries
  induction due with
  | nil => exact fun _ _ _ hmem => absurd hmem (by simp)
  | cons ev due ih =>
    -- First with no notification under way.
    have hidle {s₁ : State} (hl : Later timerId s s₁)
        (hlen : (s.startedOf timerId).length ≤ (s₁.startedOf timerId).length)
        (hi : s₁.threads i = some ⟨c, none, ev :: due⟩) (hmem : ∃ ev' ∈ ev :: due, ev'.timerId = timerId) :
        ∃ s₂, Later timerId s s₂ ∧ (s.startedOf timerId).length < (s₂.startedOf timerId).length := by
      have hstep : s₁.step (.start i) = some (s₁.begin i c ev due) := by simp only [step, hi]
      have hl₂ : Later timerId s (s₁.begin i c ev due) := .step hl (hquiet rfl) hstep
      have hstarted : (s₁.begin i c ev due).started = ev :: s₁.started := rfl
      by_cases hev : ev.timerId = timerId
      · refine ⟨_, hl₂, ?_⟩
        rw [startedOf_cons hstarted, if_pos hev, length_cons]
        omega
      · obtain ⟨ev', hmem', heq⟩ := hmem
        obtain rfl | htail := mem_cons.1 hmem'
        · exact absurd heq hev
        · refine ih hl₂ ?_ (update_self ..) ⟨ev', htail, heq⟩
          rw [startedOf_cons hstarted, if_neg hev]
          exact hlen
    intro s₁ current hl hlen hi hmem
    cases current with
    | none => exact hidle hl hlen hi hmem
    | some ev₀ =>
      have hstep : s₁.step (.finish i) =
          some ((s₁.releaseTimer ev₀.timerId).setThread i (some ⟨c, none, ev :: due⟩)) := by
        simp only [step, hi]
      refine hidle (.step hl (hquiet rfl) hstep) ?_ (update_self ..) hmem
      rw [startedOf, startedOf, setThread, (releaseTimer_frame _ _).2]
      exact hlen

end Runs

/-- **After a call that deletes or disarms the timer, no notification of it is started in any run that does not set it
anew, exactly if no thread has collected it without starting the notification.** -/
theorem stopped_iff_none_undelivered {s s' : State} {e : Event} {c : Call} {now : ℤ} {timerId : Word} {out : Out}
    (hs : s.step e = some s') (hc : s.carriesOut e = some (c, now)) (hstop : c.Stops timerId)
    (hok : (s.run now c).2 = .ok out) :
    (∀ s'', Later timerId s' s'' → s''.startedOf timerId = s'.startedOf timerId) ↔ ¬ Undelivered timerId s' := by
  have htimers : s'.timers = (s.run now c).1.timers := by
    cases steps_of_step hs with
    | collect | start | finish => cases hc
    | nested i c' now' =>
      cases hc
      rfl
    | @goOn i now' c' hi =>
      simp only [carriesOut, hi, map_some, Option.some.injEq, Prod.mk.injEq] at hc
      obtain ⟨rfl, rfl⟩ := hc
      rfl
  have hunarmed : Unarmed timerId s' := by
    intro t hfind
    rw [htimers] at hfind
    exact unarmed_of_stops hstop hok t hfind
  constructor
  · rintro hnone ⟨i, p, ev, hi, hev, heq⟩
    obtain ⟨s'', hl, hlt⟩ := exists_later_of_due i p.call p.due (.init rfl) le_rfl hi ⟨ev, hev, heq⟩
    rw [hnone s'' hl] at hlt
    exact lt_irrefl _ hlt
  · exact fun hdelivered s'' hl => (Quiet.later ⟨hunarmed, hdelivered⟩ hl).2

/-- One thread deletes a timer, and another one has collected an event of a second timer. -/
theorem stopped_other_due :
    let timer : GuestTimer := { ownerPid := 1, clockId := .monotonic, notify := .thread 0x5000, armed := true }
    let s : State := (({ init 1 with
      timers := (OrdMap.empty.insert 0x68000000 timer).insert 0x68000010 timer } : State).setThread 0
        (some ⟨.timerDelete 0x68000000, none, []⟩)).setThread 1
          (some ⟨.other, none, [⟨0x68000010, .thread 0x5000, 0, 0⟩]⟩)
    ∃ s', s.step (.goOn 0 0) = some s' ∧ Undelivered 0x68000010 s' ∧
      ∀ s'', Later 0x68000000 s' s'' → s''.startedOf 0x68000000 = s'.startedOf 0x68000000 := by
  intro timer s
  have hstep : s.step (.goOn 0 0) = some (((s.run 0 (.timerDelete 0x68000000)).1).setThread 0 none) := rfl
  have hok : (s.run 0 (.timerDelete 0x68000000)).2 = .ok .nothing := by decide
  refine ⟨_, hstep, ⟨1, _, _, rfl, mem_singleton_self _, rfl⟩, (stopped_iff_none_undelivered hstep rfl rfl hok).2 ?_⟩
  rintro ⟨i, p, ev, hi, hev, heq⟩
  change update (s.run 0 (.timerDelete 0x68000000)).1.threads 0 none i = some p at hi
  rw [(run_frame _ _).1] at hi
  by_cases h0 : i = 0
  · simp [h0] at hi
  · by_cases h1 : i = 1
    · simp only [s, setThread, h1, ne_eq, one_ne_zero, not_false_eq_true, update_of_ne, update_self,
        Option.some.injEq] at hi
      subst hi
      rw [mem_singleton.1 hev] at heq
      exact absurd heq (by decide)
    · simp [s, setThread, init, h0, h1] at hi

/-- Two timers are created and set, both are due at the next call, and the callback of the first one runs. -/
def twoTimersDue : List Event :=
  let create : Call := .timerCreate .monotonic (some ⟨0, 0, sigevThread, 0x5000⟩)
  let settime (id : Word) : Call := .timerSettime id 0 ⟨1, 0⟩ ⟨0, 0⟩
  [.collect 0 create [] fun _ => 0, .goOn 0 0, .collect 0 create [0x68000000] fun _ => 0, .goOn 0 0,
    .collect 0 (settime 0x68000000) [0x68000000, 0x68000010] fun _ => 0, .goOn 0 0,
    .collect 0 (settime 0x68000010) [0x68000000, 0x68000010] fun _ => 0, .goOn 0 0,
    .collect 0 .other [0x68000000, 0x68000010] fun _ => 2000000000, .start 0]

/-- The callback deletes the second timer, which is notified all the same. -/
theorem deleted_timer_notified :
    ∃ s s', twoTimersDue.foldlM step (.init 1) = some s ∧ (system 1).Reachable s ∧
      (s.run 2000000000 (.timerDelete 0x68000010)).2 = .ok .nothing ∧
      [Event.nested 0 (.timerDelete 0x68000010) 2000000000, .finish 0, .start 0].foldlM step s = some s' ∧
      s.startedOf 0x68000010 = [] ∧ (s'.startedOf 0x68000010).length = 1 := by
  have hrun := (some_get (x := twoTimersDue.foldlM step (.init 1)) (by decide +kernel)).symm
  exact ⟨_, _, hrun, System.Reachable.foldlM (.init rfl) hrun, by decide +kernel,
    (some_get (by decide +kernel)).symm, by decide +kernel, by decide +kernel⟩

end CrossShim.Time
