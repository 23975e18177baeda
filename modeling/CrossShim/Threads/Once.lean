import CrossShim.Lib.Runs
import CrossShim.Lib.Word

/-!
# `pthread_once`

The handler reads the once word, writes 1 to it if it was 0, and then calls the init routine.  Each of these is a
step of its own, and the calls of all guest threads interleave (`system`).

The init routine runs once, and no call returns before it has finished, in every run in which the word is read
only while no other call is between its read of 0 and the end of its run of the routine (`reach_onceOk`).  The
handler takes no lock and does not wait, so nothing enforces that (`once_races`).
-/

namespace CrossShim.Threads.Once

open Lib

/-- Where a call of `pthread_once` is. -/
inductive Phase where
  | idle
  | called
  | sawZero
  | marked
  | running
  | done
  | returned
  deriving DecidableEq

/-- What a call does next. An access to guest memory that fails leaves some value in its target, unnoticed;
`call_function_safe` may return without having entered the routine. -/
inductive Event where
  | enter
  | read (failed : Option (BitVec 32))
  | write (failed : Option (BitVec 32))
  | callInit (entered : Bool)
  | work
  | endInit
  | ret
  deriving DecidableEq

/-- The once word, how often the init routine was started and has finished, and where each call is. -/
structure State where
  word : BitVec 32
  starts : ℕ
  finishes : ℕ
  phase : ℕ → Phase

def State.goto (s : State) (i : ℕ) (p : Phase) : State := { s with phase := Function.update s.phase i p }

/-- One step of the `i`-th call. -/
def step (initRoutine : Word) (s : State) (a : ℕ × Event) : Option State :=
  let i := a.1
  match s.phase i, a.2 with
  | .idle, .enter => some (s.goto i .called)
  | .called, .read failed =>
    let onceValue := failed.getD s.word
    some (s.goto i (if onceValue = 0 then .sawZero else .done))
  | .sawZero, .write failed => some { s.goto i .marked with word := failed.getD 1 }
  | .marked, .callInit entered =>
    if initRoutine ≠ 0 ∧ entered then some { s.goto i .running with starts := s.starts + 1 }
    else some (s.goto i .done)
  | .running, .work => some s
  | .running, .endInit => some { s.goto i .done with finishes := s.finishes + 1 }
  | .done, .ret => some (s.goto i .returned)
  | _, _ => none

/-- `PTHREAD_ONCE_INIT`, and no call yet. -/
def State.init : State := ⟨0, 0, 0, fun _ => .idle⟩

def system (initRoutine : Word) : System State (ℕ × Event) := .ofStep (· = .init) (step initRoutine)

/-- The init routine was started at most once, and has ended when a call has returned. -/
def OnceOk (s : State) : Prop :=
  s.starts ≤ 1 ∧ ∀ i, s.phase i = .returned → s.starts = 1 ∧ s.finishes = 1

/-- A call is responsible for the routine from its read of 0 to the end of the routine. -/
def Phase.Busy : Phase → Prop
  | .sawZero | .marked | .running => True
  | _ => False

/-- The condition on a step: the word is read only when no call is busy, guest memory is there, and the routine is
entered. -/
def Clean (s : State) (a : ℕ × Event) : Prop :=
  match a.2 with
  | .read failed => failed = none ∧ ∀ j, ¬ (s.phase j).Busy
  | .write failed => failed = none
  | .callInit entered => entered = true
  | _ => True

/-! ### One step -/

variable {initRoutine : Word} {s s' : State} {i : ℕ} {p : Phase} {P : Phase → Prop}

def Phase.Early : Phase → Prop
  | .idle | .called => True
  | _ => False

/-- The routine is not needed yet, one call is busy with it, or it has run. -/
inductive Inv (s : State) : Prop
  | fresh : s.word = 0 → s.starts = 0 → s.finishes = 0 → (∀ j, (s.phase j).Early) → Inv s
  | busy (i : ℕ) : (s.phase i).Busy → (s.phase i ≠ .sawZero → s.word = 1) →
      s.starts = (if s.phase i = .running then 1 else 0) → s.finishes = 0 → (∀ j ≠ i, (s.phase j).Early) → Inv s
  | finished : s.word = 1 → s.starts = 1 → s.finishes = 1 → (∀ j, ¬ (s.phase j).Busy) → Inv s

lemma Phase.Early.not_busy (h : p.Early) : ¬ p.Busy := by
  cases p <;> simp_all [Phase.Early, Phase.Busy]

@[simp] lemma goto_phase_self (s : State) (i : ℕ) (p : Phase) : (s.goto i p).phase i = p :=
  Function.update_self ..

lemma goto_phase_of_ne (s : State) {i j : ℕ} (p : Phase) (h : j ≠ i) : (s.goto i p).phase j = s.phase j :=
  Function.update_of_ne h ..

lemma forall_ne_goto (p : Phase) (h : ∀ j ≠ i, P (s.phase j)) : ∀ j ≠ i, P ((s.goto i p).phase j) := by
  intro j hj
  rw [goto_phase_of_ne s p hj]
  exact h j hj

lemma forall_goto (hp : P p) (h : ∀ j ≠ i, P (s.phase j)) (j : ℕ) : P ((s.goto i p).phase j) := by
  by_cases hj : j = i
  · subst hj
    rwa [goto_phase_self]
  · exact forall_ne_goto p h j hj

lemma Inv.of_busy (hi : Inv s) (hb : (s.phase i).Busy) :
    (s.phase i ≠ .sawZero → s.word = 1) ∧ s.starts = (if s.phase i = .running then 1 else 0) ∧
      s.finishes = 0 ∧ ∀ j ≠ i, (s.phase j).Early := by
  cases hi with
  | fresh _ _ _ he => exact absurd hb (he i).not_busy
  | busy i' hb' hw hs hf he =>
    by_cases hii : i = i'
    · subst hii
      exact ⟨hw, hs, hf, he⟩
    · exact absurd hb (he i hii).not_busy
  | finished _ _ _ hno => exact absurd hb (hno i)

lemma Inv.of_late (hi : Inv s) (he : ¬ (s.phase i).Early) (hb : ¬ (s.phase i).Busy) :
    s.word = 1 ∧ s.starts = 1 ∧ s.finishes = 1 ∧ ∀ j, ¬ (s.phase j).Busy := by
  cases hi with
  | fresh _ _ _ he' => exact absurd (he' i) he
  | busy i' hb' _ _ _ he' =>
    by_cases hii : i = i'
    · subst hii
      exact absurd hb' hb
    · exact absurd (he' i hii) he
  | finished hw hs hf hno => exact ⟨hw, hs, hf, hno⟩

lemma step_cases {e : Event} (h : step initRoutine s (i, e) = some s') :
    (s.phase i = .idle ∧ e = .enter ∧ s' = s.goto i .called) ∨
    (s.phase i = .called ∧ ∃ failed, e = .read failed ∧
      s' = s.goto i (if failed.getD s.word = 0 then .sawZero else .done)) ∨
    (s.phase i = .sawZero ∧ ∃ failed, e = .write failed ∧ s' = { s.goto i .marked with word := failed.getD 1 }) ∨
    (s.phase i = .marked ∧ ∃ entered, e = .callInit entered ∧
      s' = if initRoutine ≠ 0 ∧ entered then { s.goto i .running with starts := s.starts + 1 }
        else s.goto i .done) ∨
    (s.phase i = .running ∧ e = .work ∧ s' = s) ∨
    (s.phase i = .running ∧ e = .endInit ∧ s' = { s.goto i .done with finishes := s.finishes + 1 }) ∨
    (s.phase i = .done ∧ e = .ret ∧ s' = s.goto i .returned) := by
  -- a phase and an event that do not belong together give no step
  cases hp : s.phase i <;> cases e <;> simp only [step, hp, reduceCtorEq, Option.some.injEq] at h
  case idle.enter => exact .inl ⟨rfl, rfl, h.symm⟩
  case called.read failed => exact .inr (.inl ⟨rfl, failed, rfl, h.symm⟩)
  case sawZero.write failed => exact .inr (.inr (.inl ⟨rfl, failed, rfl, h.symm⟩))
  case marked.callInit entered =>
    refine .inr (.inr (.inr (.inl ⟨rfl, entered, rfl, ?_⟩)))
    split_ifs at h ⊢ <;> exact (Option.some.inj h).symm
  case running.work => exact .inr (.inr (.inr (.inr (.inl ⟨rfl, rfl, h.symm⟩))))
  case running.endInit => exact .inr (.inr (.inr (.inr (.inr (.inl ⟨rfl, rfl, h.symm⟩)))))
  case done.ret => exact .inr (.inr (.inr (.inr (.inr (.inr ⟨rfl, rfl, h.symm⟩)))))

lemma Inv.enter (hi : Inv s) (h : s.phase i = .idle) : Inv (s.goto i .called) := by
  cases hi with
  | fresh hw hs hf he => exact .fresh hw hs hf (forall_goto trivial fun j _ => he j)
  | busy i' hb hw hs hf he =>
    have hne : i' ≠ i := by
      rintro rfl
      rw [h] at hb
      exact hb
    rw [← goto_phase_of_ne s .called hne] at hb hw hs
    refine .busy i' hb hw hs hf fun j hj => ?_
    by_cases hji : j = i
    · subst hji
      rw [goto_phase_self]
      trivial
    · rw [goto_phase_of_ne s .called hji]
      exact he j hj
  | finished hw hs hf hb => exact .finished hw hs hf (forall_goto (P := (¬ ·.Busy)) id fun j _ => hb j)

/-- A call reads the word while no call is busy: it is the first, or the routine has run. -/
lemma Inv.read (hi : Inv s) (hno : ∀ j, ¬ (s.phase j).Busy) :
    Inv (s.goto i (if s.word = 0 then .sawZero else .done)) := by
  cases hi with
  | fresh hw hs hf he =>
    rw [if_pos hw]
    refine .busy i ?_ ?_ ?_ hf (forall_ne_goto _ fun j _ => he j)
    · rw [goto_phase_self]
      trivial
    · rw [goto_phase_self]
      exact fun h => absurd rfl h
    · rw [goto_phase_self]
      exact hs
  | busy i' hb _ _ _ _ => exact absurd hb (hno i')
  | finished hw hs hf hb =>
    rw [hw]
    exact .finished hw hs hf (forall_goto (P := (¬ ·.Busy)) id fun j _ => hb j)

theorem inv_step (h0 : initRoutine ≠ 0) {a : ℕ × Event} (hi : Inv s) (hc : Clean s a)
    (h : step initRoutine s a = some s') : Inv s' := by
  obtain ⟨i, e⟩ := a
  rcases step_cases h with ⟨hp, -, rfl⟩ | ⟨hp, failed, rfl, rfl⟩ | ⟨hp, failed, rfl, rfl⟩ | ⟨hp, entered, rfl, rfl⟩ |
    ⟨-, -, rfl⟩ | ⟨hp, -, rfl⟩ | ⟨hp, -, rfl⟩
  · exact hi.enter hp
  · obtain ⟨rfl, hno⟩ : failed = none ∧ ∀ j, ¬ (s.phase j).Busy := hc
    exact hi.read hno
  · obtain rfl : failed = none := hc
    obtain ⟨-, hs, hf, he⟩ := hi.of_busy (i := i) (by rw [hp]; trivial)
    rw [hp] at hs
    exact .busy i (by simp [Phase.Busy]) (fun _ => rfl) (by simpa [State.goto] using hs) hf (forall_ne_goto _ he)
  · obtain rfl : entered = true := hc
    obtain ⟨hw, hs, hf, he⟩ := hi.of_busy (i := i) (by rw [hp]; trivial)
    rw [hp] at hw hs
    rw [if_pos ⟨h0, rfl⟩]
    exact .busy i (by simp [Phase.Busy]) (fun _ => hw (by decide)) (by simpa using hs) hf (forall_ne_goto _ he)
  · exact hi
  · obtain ⟨hw, hs, hf, he⟩ := hi.of_busy (i := i) (by rw [hp]; trivial)
    rw [hp] at hw hs
    exact .finished (hw (by decide)) hs (by simpa using hf) (forall_goto (P := (¬ ·.Busy)) id fun j hj => (he j hj).not_busy)
  · obtain ⟨hw, hs, hf, hno⟩ := hi.of_late (i := i) (by rw [hp]; exact id) (by rw [hp]; exact id)
    exact .finished hw hs hf (forall_goto (P := (¬ ·.Busy)) id fun j _ => hno j)

lemma Inv.onceOk (hi : Inv s) : OnceOk s := by
  refine ⟨?_, fun i hp => ?_⟩
  · cases hi with
    | fresh _ hs _ _ => omega
    | busy i _ _ hs _ _ => split at hs <;> omega
    | finished _ hs _ _ => omega
  · obtain ⟨-, hs, hf, -⟩ := hi.of_late (i := i) (by rw [hp]; exact id) (by rw [hp]; exact id)
    exact ⟨hs, hf⟩

lemma inv_of_reach (h0 : initRoutine ≠ 0) (hr : (system initRoutine).Reach Clean s) : Inv s := by
  refine hr.invariant ?_ fun _ _ _ hi hc h => inv_step h0 hi hc h
  rintro s rfl
  exact .fresh rfl rfl rfl fun _ => trivial

lemma Inv.not_busy (hi : Inv s) (hfin : s.finishes = 1) (j : ℕ) : ¬ (s.phase j).Busy := by
  cases hi with
  | fresh _ _ hf _ | busy _ _ _ _ hf _ => omega
  | finished _ _ _ h => exact h j

/-- **The routine runs once**, and calls return after it, in every run in which the word is read only while no
call is busy. -/
theorem reach_onceOk (h0 : initRoutine ≠ 0) (hr : (system initRoutine).Reach Clean s) : OnceOk s :=
  (inv_of_reach h0 hr).onceOk

/-- Two calls, of which the second reads the word when the first has run the routine. -/
theorem reach_onceOk_two_calls :
    ∃ s, (system 0x1000).Reach Clean s ∧ s.phase 0 = .returned ∧ s.phase 1 = .returned ∧ OnceOk s := by
  have h₁ : (system 0x1000).Reach Clean (State.init.goto 0 .called) :=
    .step (a := (0, Event.enter)) (.init rfl) trivial rfl
  have h₂ := System.Reach.step (a := (1, Event.enter)) h₁ trivial rfl
  have hquiet : ∀ j, ¬ (((State.init.goto 0 .called).goto 1 .called).phase j).Busy :=
    forall_goto (P := (¬ ·.Busy)) id fun j _ => forall_goto (P := (¬ ·.Busy)) id (fun _ _ => id) j
  have h₃ := System.Reach.step (a := (0, Event.read none)) h₂ ⟨rfl, hquiet⟩ rfl
  have h₄ := System.Reach.step (a := (0, Event.write none)) h₃ rfl rfl
  have h₅ := System.Reach.step (a := (0, Event.callInit true)) h₄ rfl rfl
  have h₆ := System.Reach.step (a := (0, Event.endInit)) h₅ trivial rfl
  have hended := (inv_of_reach (by decide) h₆).not_busy rfl
  have h₇ := System.Reach.step (a := (1, Event.read none)) h₆ ⟨rfl, hended⟩ rfl
  have h₈ := System.Reach.step (a := (1, Event.ret)) h₇ trivial rfl
  have h₉ := System.Reach.step (a := (0, Event.ret)) h₈ trivial rfl
  exact ⟨_, h₉, rfl, rfl, reach_onceOk (by decide) h₉⟩

/-- **Two calls race**: both read the word before either has written it, and both start the routine. -/
theorem once_races : ¬ ∀ (initRoutine : Word) (s : State), initRoutine ≠ 0 → (system initRoutine).Reachable s →
    OnceOk s := by
  intro h
  have hrun : [(0, Event.enter), (1, .enter), (0, .read none), (1, .read none), (0, .write none), (1, .write none),
      (0, .callInit true), (1, .callInit true)].foldlM (step 0x1000) State.init = some _ := rfl
  have hok := h 0x1000 _ (by decide) (System.Reachable.foldlM (.init rfl) hrun)
  exact absurd hok.1 (by decide)

end CrossShim.Threads.Once
